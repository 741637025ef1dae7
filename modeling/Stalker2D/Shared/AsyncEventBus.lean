import Stalker2D.Machine.Basic
import Stalker2D.Shared.Basic

/-!
# The event bus

`AsyncEventBus` with its `SubscriberStorage`. A callback is user code that may publish,
dispatch and try to subscribe, so the calls that are running are kept on a stack and a
program is the list of what user code does, one action at a time. `loop` is control at
the head of the innermost loop, in `dispatch` or in `SubscriberStorage::publish`.

A callback is named by the number of its subscription and an event by the number of its
`publish`. `subscribed`, `published`, `taken` and `delivered` record the run: who had
subscribed when an event was taken from the queue, and who was called with which event.
-/

namespace Stalker2D.EventBus

/-- An event: the type it was published under, and its value. -/
structure Event (τ α : Type) where
  type : τ
  value : α
  deriving DecidableEq, Repr

variable {τ α : Type} [DecidableEq τ]

/-- `eventIndex<EVENT>()`: `types` are the types that have asked so far. -/
def eventIndex (types : List τ) (type : τ) : Nat × List τ :=
  if type ∈ types then (types.idxOf type, types) else (types.length, types ++ [type])

structure SubscriberStorage where
  publishCount : Nat := 0
  callbacks : List (List Nat) := []
  deriving DecidableEq, Repr

namespace SubscriberStorage

def throwIfPublishing (storage : SubscriberStorage) : Except Exception Unit :=
  if storage.publishCount ≠ 0 then
    .error (.logicError "EventBus modification during publish is forbidden")
  else .ok ()

/-- `reserveAndResizeIfNecessary`, without the capacity. -/
def resizeIfNecessary (storage : SubscriberStorage) (index : Nat) : List (List Nat) :=
  storage.callbacks ++ List.replicate (index + 1 - storage.callbacks.length) []

/-- `subscribe`; an empty callback is `none`. -/
def subscribe (storage : SubscriberStorage) (types : List τ) (type : τ)
    (callback : Option Nat) : Except Exception (SubscriberStorage × List τ) :=
  match storage.throwIfPublishing with
  | .error e => .error e
  | .ok _ =>
    match callback with
    | none => .error (.invalidArgument "callback is empty")
    | some callback =>
      let (index, types) := eventIndex types type
      let callbacks := storage.resizeIfNecessary index
      .ok ({ storage with callbacks := callbacks.modify index (· ++ [callback]) }, types)

end SubscriberStorage

structure AsyncEventBus (τ α : Type) where
  storage : SubscriberStorage := {}
  eventPublishers : List (Event τ α) := []

/-- A call that has not returned. The one of `SubscriberStorage::publish` is at the head of
its loop, or its callback at `position` is `running`. -/
inductive Frame (τ α : Type)
  | dispatch
  | publish (event : Event τ α) (index position : Nat) (running : Bool) (number : Nat)

structure Delivery (τ α : Type) where
  number : Nat
  event : Event τ α
  callback : Nat

structure Execution (τ α : Type) where
  bus : AsyncEventBus τ α := {}
  types : List τ := []
  stack : List (Frame τ α) := []
  subscribed : List τ := []
  published : List (Event τ α) := []
  taken : List (List τ) := []
  delivered : List (Delivery τ α) := []

namespace Execution

/-- Control is outside the bus: nothing is called, or a callback runs. -/
def userCode (s : Execution τ α) : Bool :=
  match s.stack with
  | [] => true
  | .publish _ _ _ running _ :: _ => running
  | .dispatch :: _ => false

def subscribe (s : Execution τ α) (type : τ) (empty : Bool) : Execution τ α :=
  match s.bus.storage.subscribe s.types type (if empty then none else some s.subscribed.length) with
  | .error _ => s
  | .ok (storage, types) =>
    { s with bus := { s.bus with storage }, types, subscribed := s.subscribed ++ [type] }

def publish (s : Execution τ α) (event : Event τ α) : Execution τ α :=
  { s with
    bus := { s.bus with eventPublishers := s.bus.eventPublishers ++ [event] }
    published := s.published ++ [event] }

/-- The loop of `dispatch`, up to the head of the loop it calls. -/
def dispatchLoop (s : Execution τ α) (rest : List (Frame τ α)) : Execution τ α :=
  match s.bus.eventPublishers with
  | [] => { s with stack := rest }
  | event :: eventPublishers =>
    let (index, types) := eventIndex s.types event.type
    let number := s.taken.length
    let s := { s with
      bus := { s.bus with eventPublishers }
      types
      taken := s.taken ++ [s.subscribed] }
    if s.bus.storage.callbacks.length ≤ index then s
    else
      { s with
        bus := { s.bus with
          storage := { s.bus.storage with publishCount := s.bus.storage.publishCount + 1 } }
        stack := .publish event index 0 false number :: .dispatch :: rest }

/-- The loop of `SubscriberStorage::publish`, up to the call of a callback. -/
def publishLoop (s : Execution τ α) (event : Event τ α) (index position number : Nat)
    (rest : List (Frame τ α)) : Execution τ α :=
  match (s.bus.storage.callbacks[index]?.getD [])[position]? with
  | none =>
    { s with
      bus := { s.bus with
        storage := { s.bus.storage with publishCount := s.bus.storage.publishCount - 1 } }
      stack := rest }
  | some callback =>
    { s with
      stack := .publish event index position true number :: rest
      delivered := s.delivered ++ [{ number, event, callback }] }

end Execution

/-- What happens next; `eventIndex` is the first use of a type by another bus. -/
inductive Action (τ α : Type)
  | eventIndex (type : τ)
  | subscribe (type : τ) (empty : Bool)
  | publish (event : Event τ α)
  | dispatch
  | returns
  | loop
  deriving DecidableEq, Repr

namespace Execution

def step : Machine (Execution τ α) (Action τ α)
  | s, .eventIndex type => some { s with types := (EventBus.eventIndex s.types type).2 }
  | s, .subscribe type empty => if s.userCode then some (s.subscribe type empty) else none
  | s, .publish event => if s.userCode then some (s.publish event) else none
  | s, .dispatch => if s.userCode then some { s with stack := .dispatch :: s.stack } else none
  | s, .returns =>
    match s.stack with
    | .publish event index position true number :: rest =>
      some { s with stack := .publish event index (position + 1) false number :: rest }
    | _ => none
  | s, .loop =>
    match s.stack with
    | .dispatch :: rest => some (s.dispatchLoop rest)
    | .publish event index position false number :: rest =>
      some (s.publishLoop event index position number rest)
    | _ => none

end Execution

end Stalker2D.EventBus
