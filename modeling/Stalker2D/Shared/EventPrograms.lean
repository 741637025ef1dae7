import Stalker2D.Machine.Worklist
import Stalker2D.Shared.EventRouting

/-!
# Callbacks that publish

A `SyncEventBus` calls the callbacks of an event inside `publish`, an `AsyncEventBus` puts
the event in its queue until `dispatch`. Here callbacks do nothing to a bus but publish on
it: `publishes` says what each of them publishes for each event. The loops of the buses get
one lemma each, for what they have called and what they leave behind.
-/

namespace Stalker2D.EventBus.Detail

open Worklist

/-- `storage` is the number of `m_storage`. -/
structure SyncEventBus where
  storage : Nat
  deriving DecidableEq, Repr

variable {τ α : Type} [DecidableEq τ]

namespace SyncEventBus

def subscribe (bus : SyncEventBus) (type : τ) (empty : Bool) : Action τ α :=
  .attempt (.subscribe bus.storage type empty)

def publish (bus : SyncEventBus) (event : Event τ α) : Action τ α := .publish bus.storage event

def clear (bus : SyncEventBus) : Action τ α := .attempt (.clear bus.storage)

end SyncEventBus

/-- The bus a program publishes on; an `AsyncEventBus` is named by its number. -/
inductive Bus
  | sync (bus : SyncEventBus)
  | async (bus : Nat)
  deriving DecidableEq, Repr

def Bus.publish : Bus → Event τ α → Action τ α
  | .sync bus, event => bus.publish event
  | .async bus, event => .enqueue bus event

/-- A run of user code. `todo` has what each piece of it has still to publish: the innermost
callback comes first, the code outside last. -/
structure Program (τ α : Type) where
  objects : Objects τ α
  todo : List (List (Event τ α)) := []

namespace Program

variable (grow : Nat → Nat → Nat) (publishes : Nat → Event τ α → List (Event τ α))

def publish (bus : Bus) (p : Program τ α) (event : Event τ α) (events : List (Event τ α))
    (todo : List (List (Event τ α))) : Option (Program τ α) :=
  (Objects.step grow p.objects (bus.publish event)).map fun objects =>
    { objects, todo := events :: todo }

/-- The loops of the buses go on; a callback they call has all its events to publish. -/
def loop (p : Program τ α) : Option (Program τ α) :=
  (Objects.step grow p.objects .loop).map fun objects =>
    match objects.called.drop p.objects.called.length, objects.stack with
    | call :: _, .publish _ event _ _ _ _ :: _ =>
      { objects, todo := publishes call.callback event :: p.todo }
    | _, _ => { objects, todo := p.todo }

/-- The next step of a program: user code publishes its next event, or it is done with them. A
callback then returns, and the code outside calls `dispatch` once if its bus has one. -/
def next (bus : Bus) (p : Program τ α) : Option (Program τ α) :=
  match p.objects.stack, p.todo with
  | [], (event :: events) :: todo => p.publish grow bus event events todo
  | [], [] :: todo =>
    match bus with
    | .sync _ => none
    | .async b =>
      (Objects.step grow p.objects (.dispatch b)).map fun objects => { objects, todo }
  | .publish _ _ _ _ true _ :: _, (event :: events) :: todo =>
    p.publish grow bus event events todo
  | .publish _ _ _ _ true _ :: _, [] :: todo =>
    (Objects.step grow p.objects .returns).map fun objects => { objects, todo }
  | .publish _ _ _ _ false _ :: _, _ => p.loop grow publishes
  | .dispatch _ :: _, _ => p.loop grow publishes
  | _, _ => none

end Program

/-- The calls an event comes to, from what a storage holds. -/
def deliveriesOf (held : List (Subscription τ)) (event : Event τ α) : List (Nat × Event τ α) :=
  (callbacksFor held event.type).map (·, event)

/-- The calls that come of a call: those for the events its callback publishes. -/
def nextDeliveries (held : List (Subscription τ)) (publishes : Nat → Event τ α → List (Event τ α))
    (delivery : Nat × Event τ α) : List (Nat × Event τ α) :=
  (publishes delivery.1 delivery.2).flatMap (deliveriesOf held)

section Map

variable {held held' : List (Subscription τ)} {name : Nat → Nat}
  {publishes publishes' : Nat → Event τ α → List (Event τ α)}

theorem flatMap_deliveriesOf_map
    (h : ∀ type, callbacksFor held' type = (callbacksFor held type).map name)
    (events : List (Event τ α)) : events.flatMap (deliveriesOf held') =
      (events.flatMap (deliveriesOf held)).map (Prod.map name id) := by
  rw [List.map_flatMap]
  apply List.flatMap_congr
  intro event _
  rw [deliveriesOf, h, List.map_map, deliveriesOf, List.map_map]
  rfl

theorem nextDeliveries_map
    (h : ∀ type, callbacksFor held' type = (callbacksFor held type).map name)
    (hpublishes : ∀ callback event, publishes' (name callback) event = publishes callback event)
    (delivery : Nat × Event τ α) :
    nextDeliveries held' publishes' (Prod.map name id delivery) =
      (nextDeliveries held publishes delivery).map (Prod.map name id) := by
  rw [nextDeliveries, nextDeliveries, Prod.map_fst, Prod.map_snd, hpublishes]
  exact flatMap_deliveriesOf_map h _

end Map

namespace Objects

/-- The calls so far, with their events. -/
def deliveries (s : Objects τ α) : List (Nat × Event τ α) :=
  s.called.filterMap fun call =>
    s.published[call.number]?.map fun publication => (call.callback, publication.event)

/-- From outside of any call, `events` are published on the bus (and dispatched), and when all
of it has returned, the calls `out` have been made. -/
def Delivers (grow : Nat → Nat → Nat) (publishes : Nat → Event τ α → List (Event τ α)) (bus : Bus)
    (s : Objects τ α) (events : List (Event τ α)) (out : List (Nat × Event τ α)) : Prop :=
  ∃ t, Finishes (Program.next grow publishes bus) { objects := s, todo := [events] } t ∧
    t.objects.deliveries = s.deliveries ++ out

variable {grow : Nat → Nat → Nat} {publishes : Nat → Event τ α → List (Event τ α)}
variable {s t : Objects τ α}

/-- What a program leaves alone, and a record that only grows. -/
structure Extends (s t : Objects τ α) : Prop where
  held : t.held = s.held
  storages : t.storages.length = s.storages.length
  published : s.published <+: t.published

theorem Starts.extends {i : Nat} {event : Event τ α} (starts : s.Starts i event t) :
    s.Extends t ∧ t.called = s.called ∧ t.buses = s.buses := by
  cases starts with
  | nobody => exact ⟨⟨rfl, rfl, List.prefix_append _ _⟩, rfl, rfl⟩
  | calls => exact ⟨⟨rfl, List.length_set, List.prefix_append _ _⟩, rfl, rfl⟩

/-- Calls that were made stay as they are. -/
theorem Routed.deliveries_eq (routed : s.Routed) (hextends : s.Extends t)
    (hcalled : t.called = s.called) : t.deliveries = s.deliveries := by
  obtain ⟨new, hpublished⟩ := hextends.published
  rw [deliveries, hcalled, deliveries]
  apply List.filterMap_congr
  intro call hmem
  rw [← hpublished, List.getElem?_append_left (routed.recorded call hmem)]

omit [DecidableEq τ] in
theorem deliveries_called {number callback : Nat} {publication : Publication τ α}
    (hcalled : t.called = s.called ++ [({ number, callback } : Call)])
    (hpublished : t.published = s.published)
    (hpublication : s.published[number]? = some publication) :
    t.deliveries = s.deliveries ++ [(callback, publication.event)] := by
  rw [deliveries, hcalled, hpublished, List.filterMap_append, deliveries]
  simp only [List.filterMap_cons, List.filterMap_nil, hpublication, Option.map_some]

/-- A publication on a storage: its deliveries are on top of the stack, or there are none. -/
theorem Routed.publish_cases (routed : s.Routed) {i : Nat} (hlt : i < s.storages.length)
    (event : Event τ α) :
    ∃ t, s.publish i event = some t ∧ s.Extends t ∧ t.buses = s.buses ∧
      t.deliveries = s.deliveries ∧
      ((deliveriesOf (s.held.of i) event = [] ∧ t.stack = s.stack) ∨
        ∃ index number, t.stack = .publish i event index 0 false number :: s.stack) := by
  obtain ⟨t, ht⟩ : ∃ t, s.publish i event = some t := by
    rw [publish, List.getElem?_eq_getElem hlt]
    exact ⟨_, rfl⟩
  have starts := starts_of_publish ht
  obtain ⟨hextends, hcalled, hbuses⟩ := starts.extends
  refine ⟨t, ht, hextends, hbuses, routed.deliveries_eq hextends hcalled, ?_⟩
  cases starts with
  | nobody hstorage hbeyond =>
    left
    rw [deliveriesOf, ← routed.consistent.callbacksAt hstorage, SubscriberStorage.callbacksAt,
      List.getElem?_eq_none hbeyond]
    exact ⟨rfl, rfl⟩
  | calls => exact .inr ⟨_, _, rfl⟩

theorem step_publish (huser : s.userCode = true) {i : Nat} {event : Event τ α} :
    step grow s (.publish i event) = s.publish i event := by
  simp only [step, huser, if_true, act]

theorem step_returns (grow : Nat → Nat → Nat) {i : Nat} {event : Event τ α}
    {index position number : Nat} {rest : List (Frame τ α)}
    (hstack : s.stack = .publish i event index position true number :: rest) :
    step grow s .returns = some
      { s with stack := .publish i event index (position + 1) false number :: rest } := by
  simp only [step, hstack]

/-- The loop of `publish` ends after its last delivery, or makes the next one. -/
theorem Routed.publishLoop_cases (routed : s.Routed) {i : Nat} {event : Event τ α}
    {index position number : Nat} {rest : List (Frame τ α)}
    (hstack : s.stack = .publish i event index position false number :: rest) :
    ∃ t, step grow s .loop = some t ∧ s.Extends t ∧ t.buses = s.buses ∧
      (((deliveriesOf (s.held.of i) event).drop position = [] ∧ t.stack = rest ∧
          t.called = s.called) ∨
        ∃ callback, (deliveriesOf (s.held.of i) event).drop position =
            (callback, event) :: (deliveriesOf (s.held.of i) event).drop (position + 1) ∧
          t.stack = .publish i event index position true number :: rest ∧
          t.called.drop s.called.length = [({ number, callback } : Call)] ∧
          t.deliveries = s.deliveries ++ [(callback, event)]) := by
  have hmem : .publish i event index position false number ∈ s.stack :=
    hstack ▸ List.mem_cons_self
  have delivering := routed.frames i event index position false number hmem
  have hlt := routed.counted.frames _ hmem i (decide_eq_true rfl)
  have hstorage := List.getElem?_eq_getElem hlt
  have hlists := (routed.consistent.represents i _ hstorage).lists index _ delivering.index
  cases hnext : (callbacksFor (s.held.of i) event.type)[position]? with
  | none =>
    have hstep : step grow s .loop = some
        { s with
          storages := s.storages.set i
            { s.storages[i] with publishCount := s.storages[i].publishCount - 1 }
          stack := rest } := by
      simp only [step, hstack, publishLoop, hstorage, Option.map_some, hlists, hnext]
    refine ⟨_, hstep, ⟨rfl, List.length_set, List.prefix_refl _⟩, rfl, .inl ⟨?_, rfl, rfl⟩⟩
    rw [deliveriesOf, ← List.map_drop,
      List.drop_eq_nil_of_le (List.getElem?_eq_none_iff.mp hnext), List.map_nil]
  | some callback =>
    have hstep : step grow s .loop = some
        { s with
          stack := .publish i event index position true number :: rest
          called := s.called ++ [{ number, callback }] } := by
      simp only [step, hstack, publishLoop, hstorage, Option.map_some, hlists, hnext]
    refine ⟨_, hstep, ⟨rfl, rfl, List.prefix_refl _⟩, rfl,
      .inr ⟨callback, ?_, rfl, List.drop_left, ?_⟩⟩
    · obtain ⟨hposition, rfl⟩ := List.getElem?_eq_some_iff.mp hnext
      rw [deliveriesOf, ← List.map_drop, List.drop_eq_getElem_cons hposition, List.map_cons,
        List.map_drop]
    · exact deliveries_called (by rfl) (by rfl) delivering.published

theorem step_enqueue (grow : Nat → Nat → Nat) (huser : s.userCode = true) {b : Nat}
    {bus : AsyncEventBus τ α} (hbus : s.buses[b]? = some bus) (event : Event τ α) :
    step grow s (.enqueue b event) = some
      { s with
        buses := s.buses.set b
          { bus with eventPublishers := bus.eventPublishers ++ [event] } } := by
  simp only [step, huser, if_true, act, hbus, Option.map_some]

theorem step_dispatch (grow : Nat → Nat → Nat) (huser : s.userCode = true) {b : Nat}
    {bus : AsyncEventBus τ α} (hbus : s.buses[b]? = some bus) :
    step grow s (.dispatch b) = some { s with stack := .dispatch b :: s.stack } := by
  simp only [step, huser, if_true, act, hbus, Option.map_some]

/-- The loop of `dispatch` ends with an empty queue, or publishes the first event of it. -/
theorem Routed.dispatchLoop_cases (routed : s.Routed) {b : Nat} {rest : List (Frame τ α)}
    (hstack : s.stack = .dispatch b :: rest) {bus : AsyncEventBus τ α}
    (hbus : s.buses[b]? = some bus) :
    ∃ t, step grow s .loop = some t ∧ s.Extends t ∧ t.deliveries = s.deliveries ∧
      ((bus.eventPublishers = [] ∧ t.buses = s.buses ∧ t.stack = rest ∧ t.called = s.called) ∨
        ∃ event eventPublishers, bus.eventPublishers = event :: eventPublishers ∧
          t.buses = s.buses.set b { bus with eventPublishers } ∧ t.called = s.called ∧
          ((deliveriesOf (s.held.of bus.storage) event = [] ∧ t.stack = s.stack) ∨
            ∃ index number,
              t.stack = .publish bus.storage event index 0 false number :: s.stack)) := by
  cases hqueue : bus.eventPublishers with
  | nil =>
    have hstep : step grow s .loop = some { s with stack := rest } := by
      simp only [step, hstack, dispatchLoop, hbus, Option.bind_some, hqueue]
    exact ⟨_, hstep, ⟨rfl, rfl, List.prefix_refl _⟩, rfl, .inl ⟨rfl, rfl, rfl, rfl⟩⟩
  | cons event eventPublishers =>
    have taken : Routed { s with buses := s.buses.set b { bus with eventPublishers } } :=
      routed.setBuses (routed.counted.setBus (.of_eq rfl) rfl hbus eventPublishers rfl)
    have hlt := routed.counted.buses bus (List.mem_of_getElem? hbus)
    obtain ⟨t, ht, hextends, hbuses, hdeliveries, hpublish⟩ := taken.publish_cases hlt event
    obtain ⟨-, hcalled, -⟩ := (starts_of_publish ht).extends
    have hstep : step grow s .loop = some t := by
      simp only [step, hstack, dispatchLoop, hbus, Option.bind_some, hqueue]
      rw [← hstack]
      exact ht
    exact ⟨t, hstep, ⟨hextends.held, hextends.storages, hextends.published⟩, hdeliveries,
      .inr ⟨event, eventPublishers, rfl, hbuses, hcalled, hpublish⟩⟩

end Objects

end Stalker2D.EventBus.Detail
