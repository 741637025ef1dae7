import Stalker2D.Data.Vec
import Stalker2D.Shared.AsyncEventBus

/-!
# Storages and buses

Any number of `SubscriberStorage` and `AsyncEventBus` objects, which share the indices of
the event types. User code, outside and in callbacks, creates them, changes them and
publishes on them; what it attempts may throw, and it goes on after that. The calls that
are running are kept on a stack.

A callback is named by the number of the operation that subscribed it, and a call of
`SubscriberStorage::publish` by its own number. `held`, `published` and `called` record the
run: what each storage holds, what each publication is to call, and what was called.
`Holdings` says what the operations are for, without tables and indices.
-/

namespace Stalker2D.EventBus.Detail

variable {τ α : Type} [DecidableEq τ]

structure SubscriberStorage where
  publishCount : Nat := 0
  callbacks : Vec (List Nat) := .empty
  deriving DecidableEq

namespace SubscriberStorage

def throwIfPublishing (storage : SubscriberStorage) : Except Exception Unit :=
  if storage.publishCount ≠ 0 then
    .error (.logicError "EventBus modification during publish is forbidden")
  else .ok ()

def reserveAndResizeIfNecessary (grow : Nat → Nat → Nat) (storage : SubscriberStorage)
    (index : Nat) : SubscriberStorage :=
  if storage.callbacks.size ≤ index then
    let callbacks :=
      if storage.callbacks.capacity ≤ index then storage.callbacks.reserve grow (index * 2)
      else storage.callbacks
    { storage with callbacks := callbacks.resize grow (index + 1) [] }
  else storage

/-- `subscribe`, with the storage and the types it leaves behind; an empty callback is `none`. -/
def subscribe (grow : Nat → Nat → Nat) (storage : SubscriberStorage) (types : List τ) (type : τ)
    (callback : Option Nat) : Except Exception Unit × SubscriberStorage × List τ :=
  match storage.throwIfPublishing with
  | .error e => (.error e, storage, types)
  | .ok _ =>
    match callback with
    | none => (.error (.invalidArgument "callback is empty"), storage, types)
    | some callback =>
      let (index, types) := eventIndex types type
      let storage := storage.reserveAndResizeIfNecessary grow index
      let callbacks := storage.callbacks.modify index (· ++ [callback])
      (.ok (), { storage with callbacks }, types)

def clear (storage : SubscriberStorage) : Except Exception Unit × SubscriberStorage :=
  match storage.throwIfPublishing with
  | .error e => (.error e, storage)
  | .ok _ => (.ok (), { storage with callbacks := storage.callbacks.clear })

/-- The move constructor: the new storage, and what is left of the other one. -/
def moveConstruct (other : SubscriberStorage) :
    Except Exception SubscriberStorage × SubscriberStorage :=
  match other.throwIfPublishing with
  | .error e => (.error e, other)
  | .ok _ => (.ok { callbacks := other.callbacks }, { other with callbacks := .empty })

/-- `operator=` after its check for self-assignment, with both storages it leaves behind. -/
def moveAssign (storage other : SubscriberStorage) :
    Except Exception Unit × SubscriberStorage × SubscriberStorage :=
  match storage.throwIfPublishing with
  | .error e => (.error e, storage, other)
  | .ok _ =>
    match other.throwIfPublishing with
    | .error e => (.error e, storage, other)
    | .ok _ =>
      (.ok (), { storage with callbacks := other.callbacks }, { other with callbacks := .empty })

/-- The callbacks at an index; beyond the table there are none. -/
def callbacksAt (storage : SubscriberStorage) (index : Nat) : List Nat :=
  storage.callbacks.elements[index]?.getD []

end SubscriberStorage

/-- What user code may do to the storages, which are numbered as they were created. -/
inductive Operation (τ : Type)
  | subscribe (storage : Nat) (type : τ) (empty : Bool)
  | clear (storage : Nat)
  | moveConstruct (other : Nat)
  | moveAssign (storage other : Nat)
  deriving DecidableEq, Repr

structure Subscription (τ : Type) where
  type : τ
  callback : Nat
  deriving DecidableEq, Repr

/-- The subscriptions each storage holds, in the order in which they were made. -/
abbrev Holdings (τ : Type) := List (List (Subscription τ))

namespace Holdings

def of (holdings : Holdings τ) (storage : Nat) : List (Subscription τ) :=
  holdings[storage]?.getD []

/-- What an operation with this number is for. -/
def apply (holdings : Holdings τ) (number : Nat) : Operation τ → Holdings τ
  | .subscribe storage type _ => holdings.modify storage (· ++ [⟨type, number⟩])
  | .clear storage => holdings.set storage []
  | .moveConstruct other => holdings.set other [] ++ [holdings.of other]
  | .moveAssign storage other =>
    if storage = other then holdings else (holdings.set storage (holdings.of other)).set other []

end Holdings

/-- The callbacks that are subscribed for a type. -/
def callbacksFor (subscriptions : List (Subscription τ)) (type : τ) : List Nat :=
  (subscriptions.filter (·.type = type)).map Subscription.callback

/-- `storage` is the number of `m_storage`. -/
structure AsyncEventBus (τ α : Type) where
  storage : Nat
  eventPublishers : List (Event τ α) := []
  deriving DecidableEq, Repr

/-- A call that has not returned. The one of `SubscriberStorage::publish` is at the head of
its loop, or its callback at `position` is `running`. -/
inductive Frame (τ α : Type)
  | dispatch (bus : Nat)
  | publish (storage : Nat) (event : Event τ α) (index position : Nat) (running : Bool)
      (number : Nat)
  deriving DecidableEq, Repr

/-- A call of `SubscriberStorage::publish`, with the callbacks its storage held for the type. -/
structure Publication (τ α : Type) where
  storage : Nat
  event : Event τ α
  due : List Nat
  deriving DecidableEq, Repr

structure Call where
  number : Nat
  callback : Nat
  deriving DecidableEq, Repr

structure Objects (τ α : Type) where
  storages : List SubscriberStorage := []
  buses : List (AsyncEventBus τ α) := []
  types : List τ := []
  stack : List (Frame τ α) := []
  operations : Nat := 0
  held : Holdings τ := []
  published : List (Publication τ α) := []
  called : List Call := []
  deriving DecidableEq

namespace Objects

/-- Control is outside the storages and buses: nothing is called, or a callback runs. -/
def userCode (s : Objects τ α) : Bool :=
  match s.stack with
  | [] => true
  | .publish _ _ _ _ running _ :: _ => running
  | .dispatch _ :: _ => false

/-- The outcome of an operation and what it leaves behind; `none` when there is no such storage. -/
def attempt (grow : Nat → Nat → Nat) (s : Objects τ α) :
    Operation τ → Option (Except Exception Unit × Objects τ α)
  | .subscribe i type empty =>
    s.storages[i]?.map fun storage =>
      let callback := if empty then none else some s.operations
      let (outcome, storage, types) := storage.subscribe grow s.types type callback
      (outcome, { s with storages := s.storages.set i storage, types })
  | .clear i =>
    s.storages[i]?.map fun storage =>
      let (outcome, storage) := storage.clear
      (outcome, { s with storages := s.storages.set i storage })
  | .moveConstruct i =>
    s.storages[i]?.map fun other =>
      match other.moveConstruct with
      | (.error e, other) => (.error e, { s with storages := s.storages.set i other })
      | (.ok storage, other) => (.ok (), { s with storages := s.storages.set i other ++ [storage] })
  | .moveAssign i j =>
    if i = j then s.storages[i]?.map fun _ => (.ok (), s)
    else
      match s.storages[i]?, s.storages[j]? with
      | some storage, some other =>
        let (outcome, storage, other) := storage.moveAssign other
        some (outcome, { s with storages := (s.storages.set i storage).set j other })
      | _, _ => none

/-- An operation that did not throw goes down in the record. -/
def record (s : Objects τ α) (operation : Operation τ) (outcome : Except Exception Unit) :
    Objects τ α :=
  match outcome with
  | .error _ => s
  | .ok _ =>
    { s with
      held := s.held.apply s.operations operation
      operations := s.operations + 1 }

/-- `AsyncEventBus::clear`. -/
def clearBus (s : Objects τ α) (b : Nat) :
    Option (Except Exception Unit × Objects τ α) :=
  s.buses[b]?.bind fun bus =>
    s.storages[bus.storage]?.map fun storage =>
      match storage.clear with
      | (.error e, storage) => (.error e, { s with storages := s.storages.set bus.storage storage })
      | (.ok _, storage) =>
        let t := { s with storages := s.storages.set bus.storage storage }
        (.ok (), { t with buses := t.buses.set b { bus with eventPublishers := [] } })

/-- `SubscriberStorage::publish`, up to the head of its loop. -/
def publish (s : Objects τ α) (i : Nat) (event : Event τ α) : Option (Objects τ α) :=
  s.storages[i]?.map fun storage =>
    let (index, types) := eventIndex s.types event.type
    let number := s.published.length
    let due := callbacksFor (s.held.of i) event.type
    let s := { s with types, published := s.published ++ [{ storage := i, event, due }] }
    if storage.callbacks.size ≤ index then s
    else
      { s with
        storages := s.storages.set i { storage with publishCount := storage.publishCount + 1 }
        stack := .publish i event index 0 false number :: s.stack }

/-- The loop of `dispatch`, up to the head of the loop it calls. -/
def dispatchLoop (s : Objects τ α) (b : Nat) (rest : List (Frame τ α)) : Option (Objects τ α) :=
  s.buses[b]?.bind fun bus =>
    match bus.eventPublishers with
    | [] => some { s with stack := rest }
    | event :: eventPublishers =>
      let s := { s with buses := s.buses.set b { bus with eventPublishers } }
      s.publish bus.storage event

/-- The loop of `SubscriberStorage::publish`, up to the call of a callback. -/
def publishLoop (s : Objects τ α) (i : Nat) (event : Event τ α) (index position number : Nat)
    (rest : List (Frame τ α)) : Option (Objects τ α) :=
  s.storages[i]?.map fun storage =>
    match (storage.callbacksAt index)[position]? with
    | none =>
      { s with
        storages := s.storages.set i { storage with publishCount := storage.publishCount - 1 }
        stack := rest }
    | some callback =>
      { s with
        stack := .publish i event index position true number :: rest
        called := s.called ++ [{ number, callback }] }

end Objects

/-- What happens next; `enqueue` is `AsyncEventBus::publish`. -/
inductive Action (τ α : Type)
  | create
  | createBus
  | attempt (operation : Operation τ)
  | clearBus (bus : Nat)
  | publish (storage : Nat) (event : Event τ α)
  | enqueue (bus : Nat) (event : Event τ α)
  | dispatch (bus : Nat)
  | returns
  | loop
  deriving DecidableEq, Repr

namespace Objects

/-- A new storage, empty. -/
def create (s : Objects τ α) : Objects τ α :=
  { s with storages := s.storages ++ [{}], held := s.held ++ [[]] }

/-- What user code does. -/
def act (grow : Nat → Nat → Nat) (s : Objects τ α) : Action τ α → Option (Objects τ α)
  | .create => some s.create
  | .createBus =>
    some { s.create with buses := s.buses ++ [{ storage := s.storages.length }] }
  | .attempt operation =>
    (s.attempt grow operation).map fun (outcome, t) => t.record operation outcome
  | .clearBus b =>
    s.buses[b]?.bind fun bus =>
      (s.clearBus b).map fun (outcome, t) => t.record (.clear bus.storage) outcome
  | .publish i event => s.publish i event
  | .enqueue b event =>
    s.buses[b]?.map fun bus =>
      { s with
        buses := s.buses.set b { bus with eventPublishers := bus.eventPublishers ++ [event] } }
  | .dispatch b => s.buses[b]?.map fun _ => { s with stack := .dispatch b :: s.stack }
  | .returns | .loop => none

def step (grow : Nat → Nat → Nat) : Machine (Objects τ α) (Action τ α)
  | s, .returns =>
    match s.stack with
    | .publish i event index position true number :: rest =>
      some { s with stack := .publish i event index (position + 1) false number :: rest }
    | _ => none
  | s, .loop =>
    match s.stack with
    | .dispatch b :: rest => s.dispatchLoop b rest
    | .publish i event index position false number :: rest =>
      s.publishLoop i event index position number rest
    | _ => none
  | s, action => if s.userCode then s.act grow action else none

end Objects

end Stalker2D.EventBus.Detail
