import Stalker2D.Shared.Basic

/-!
# The messages of the protocol

The fields of `message.proto` that a receiver sees; a `oneof` that is not set is
`none`. An enum field may hold any number on the wire.
-/

namespace Stalker2D.Protocol

inductive Status
  | unspecified
  | ok
  | error
  | unrecognized (value : Int)
  deriving DecidableEq, Repr

structure PingRequest where
  timestamp : UInt64 := 0
  deriving DecidableEq, Repr

structure PongResponse where
  timestamp : UInt64 := 0
  deriving DecidableEq, Repr

structure StateSnapshotResponse where
  stateJson : String := ""
  deriving DecidableEq, Repr

structure ErrorResponse where
  code : Int := 0
  message : String := ""
  deriving DecidableEq, Repr

inductive ClientPayload
  | ping (request : PingRequest)
  | stateSnapshot
  deriving DecidableEq, Repr

structure ClientMessage where
  requestId : UInt64 := 0
  payload : Option ClientPayload := none
  deriving DecidableEq, Repr

inductive ServerPayload
  | pong (response : PongResponse)
  | stateSnapshot (response : StateSnapshotResponse)
  | error (response : ErrorResponse)
  deriving DecidableEq, Repr

structure ServerMessage where
  requestId : UInt64 := 0
  status : Status := .unspecified
  payload : Option ServerPayload := none
  deriving DecidableEq, Repr

end Stalker2D.Protocol
