import Mathlib.Data.List.Induction

/-!
# Exceptions and connection ids

The standard exceptions of the sources, and the 16-bit connection id with its
wrapping increment.
-/

namespace Stalker2D

/-- The asio error codes that are told apart. -/
inductive ErrorCode
  | operationAborted
  | badDescriptor
  | other (value : Nat)
  deriving DecidableEq, Repr

/-- A thrown standard exception with the text it was built from. -/
inductive Exception
  | runtimeError (what : String)
  | logicError (what : String)
  | invalidArgument (what : String)
  | systemError (code : ErrorCode) (what : String)
  deriving DecidableEq, Repr

/-- `connection_id`: an `uint16_t`; `++` wraps from 65535 to 0. -/
@[ext]
structure ConnectionId where
  id : UInt16
  deriving DecidableEq, Repr

/-- `operator++()`. -/
def ConnectionId.next (connection : ConnectionId) : ConnectionId := ⟨connection.id + 1⟩

@[simp] theorem ConnectionId.next_id (connection : ConnectionId) :
    connection.next.id = connection.id + 1 := rfl

end Stalker2D
