import Stalker2D.Shared.EventPrograms

/-!
# The order of the calls

A program on a `SyncEventBus` works off its calls as a stack, one on an `AsyncEventBus` as a
queue. Each has an invariant that says what the stack of calls and the queue of events look
like at every point of the program, and a list of the calls still to be made. The buses then
differ by what is known of stacks and queues.
-/

namespace Stalker2D.EventBus.Detail

open Worklist

variable {τ α : Type} [DecidableEq τ]

namespace Program

open Objects

variable {grow : Nat → Nat → Nat} {publishes : Nat → Event τ α → List (Event τ α)}
variable {p : Program τ α} {i : Nat} {held : List (Subscription τ)}

/-- A program on a storage that goes on holding what it held when the program began. -/
structure Serves (i : Nat) (held : List (Subscription τ)) (p : Program τ α) : Prop where
  routed : p.objects.Routed
  lt : i < p.objects.storages.length
  held : p.objects.held.of i = held

theorem Serves.step (serves : p.Serves i held) {action : Action τ α} {t : Objects τ α}
    (hstep : Objects.step grow p.objects action = some t) (hextends : p.objects.Extends t)
    (todo : List (List (Event τ α))) : Serves i held { objects := t, todo } where
  routed := invariant_routed _ _ _ serves.routed hstep
  lt := Nat.lt_of_lt_of_eq serves.lt hextends.storages.symm
  held := hextends.held ▸ serves.held

theorem Serves.deliveries_eq (serves : p.Serves i held) {t : Objects τ α}
    (hextends : p.objects.Extends t) (hcalled : t.called = p.objects.called) :
    t.deliveries = p.objects.deliveries :=
  serves.routed.deliveries_eq hextends hcalled

/-- What a bus has queued. -/
def queue (bus : Bus) (s : Objects τ α) : List (Event τ α) :=
  match bus with
  | .sync _ => []
  | .async b => (s.buses[b]?.map AsyncEventBus.eventPublishers).getD []

/-- Between two calls the program has but so much to do. -/
def rank (bus : Bus) (p : Program τ α) : Nat :=
  3 * p.todo.flatten.length + 2 * p.todo.length + 2 * (queue bus p.objects).length +
    p.objects.stack.length

section Sync

/-- The calls of `publish` on the stack, each waiting for the piece of user code above it. -/
inductive Nests (i : Nat) : List (Frame τ α) → List (List (Event τ α)) → Prop
  | outside (events : List (Event τ α)) : Nests i [] [events]
  | head {stack : List (Frame τ α)} {todo : List (List (Event τ α))} (event : Event τ α)
      (index position number : Nat) (nests : Nests i stack todo) :
      Nests i (.publish i event index position false number :: stack) todo
  | running {stack : List (Frame τ α)} {todo : List (List (Event τ α))} (event : Event τ α)
      (index position number : Nat) (events : List (Event τ α)) (nests : Nests i stack todo) :
      Nests i (.publish i event index position true number :: stack) (events :: todo)

/-- The calls still to be made: what a piece of user code publishes comes before the rest of
the loop that called it. -/
def outstanding (held : List (Subscription τ)) :
    List (Frame τ α) → List (List (Event τ α)) → List (Nat × Event τ α)
  | [], todo => todo.flatten.flatMap (deliveriesOf held)
  | .publish _ event _ position false _ :: stack, todo =>
    (deliveriesOf held event).drop position ++ outstanding held stack todo
  | .publish _ event _ position true _ :: stack, events :: todo =>
    events.flatMap (deliveriesOf held) ++
      ((deliveriesOf held event).drop (position + 1) ++ outstanding held stack todo)
  | _, _ => []

theorem Nests.publish {s : Objects τ α} {event : Event τ α} {events : List (Event τ α)}
    {todo : List (List (Event τ α))} (nests : Nests i s.stack ((event :: events) :: todo))
    (huser : s.userCode = true) :
    Nests i s.stack (events :: todo) ∧ outstanding held s.stack ((event :: events) :: todo) =
      deliveriesOf held event ++ outstanding held s.stack (events :: todo) := by
  rw [userCode] at huser
  generalize s.stack = stack at nests huser
  cases nests with
  | outside => exact ⟨.outside events, by simp [outstanding]⟩
  | head => cases huser
  | running _ _ _ _ _ nests =>
    exact ⟨.running _ _ _ _ events nests, by simp [outstanding]⟩

/-- The invariant of a program on a `SyncEventBus`. -/
structure Nested (bus : SyncEventBus) (held : List (Subscription τ)) (p : Program τ α) : Prop
    extends Serves bus.storage held p where
  nests : Nests bus.storage p.objects.stack p.todo

def nestedWork (held : List (Subscription τ)) (p : Program τ α) : List (Nat × Event τ α) :=
  outstanding held p.objects.stack p.todo

def deliveries (p : Program τ α) : List (Nat × Event τ α) := p.objects.deliveries

variable {bus : SyncEventBus}

theorem Nested.publish (h : p.Nested bus held) {event : Event τ α} {events : List (Event τ α)}
    {todo : List (List (Event τ α))} (htodo : p.todo = (event :: events) :: todo)
    (huser : p.objects.userCode = true) :
    ∃ q, p.publish grow (.sync bus) event events todo = some q ∧ q.Nested bus held ∧
      Moves (nextDeliveries held publishes) .stack (nestedWork held) deliveries
        (rank (.sync bus)) p q := by
  obtain ⟨t, ht, hextends, -, hdeliveries, hstack⟩ := h.routed.publish_cases h.lt event
  have hstep : step grow p.objects (.publish bus.storage event) = some t :=
    (step_publish huser).trans ht
  have hpublish : p.publish grow (.sync bus) event events todo =
      some { objects := t, todo := events :: todo } := by
    rw [Program.publish, Bus.publish, SyncEventBus.publish, hstep, Option.map_some]
  obtain ⟨nests, hwork⟩ := @Nests.publish _ _ _ _ held _ _ _ _ (htodo ▸ h.nests) huser
  rw [h.held] at hstack
  refine ⟨_, hpublish, ⟨h.step hstep hextends _, ?_⟩, .idle ?_ hdeliveries ?_⟩
  · obtain ⟨-, hsame⟩ | ⟨index, number, hpush⟩ := hstack
    · exact hsame ▸ nests
    · exact hpush ▸ .head event index 0 number nests
  · rw [nestedWork, nestedWork, htodo, hwork]
    obtain ⟨hnone, hsame⟩ | ⟨index, number, hpush⟩ := hstack
    · rw [hsame, hnone, List.nil_append]
    · rw [hpush, outstanding, List.drop_zero]
  · have hlength : t.stack.length ≤ p.objects.stack.length + 1 := by
      obtain ⟨-, hsame⟩ | ⟨index, number, hpush⟩ := hstack
      · exact hsame ▸ Nat.le_succ _
      · exact hpush ▸ Nat.le_refl _
    simp only [rank, queue, htodo, List.flatten_cons, List.length_append, List.length_cons]
    omega

theorem Nested.loop (h : p.Nested bus held) {event : Event τ α} {index position number : Nat}
    {stack : List (Frame τ α)}
    (hstack : p.objects.stack = .publish bus.storage event index position false number :: stack)
    (nests : Nests bus.storage stack p.todo) :
    ∃ q, p.loop grow publishes = some q ∧ q.Nested bus held ∧
      Moves (nextDeliveries held publishes) .stack (nestedWork held) deliveries
        (rank (.sync bus)) p q := by
  obtain ⟨t, hstep, hextends, -, ⟨hend, hrest, hcalled⟩ |
    ⟨callback, hnext, hrunning, hcalled, hdeliveries⟩⟩ := h.routed.publishLoop_cases hstack
  · have hloop : p.loop grow publishes = some { objects := t, todo := p.todo } := by
      rw [Program.loop, hstep, Option.map_some, hcalled, List.drop_length]
    refine ⟨_, hloop, ⟨h.step hstep hextends _, hrest ▸ nests⟩,
      .idle ?_ (h.deliveries_eq hextends hcalled) ?_⟩
    · rw [h.held] at hend
      rw [nestedWork, nestedWork, hstack, outstanding, hend, hrest, List.nil_append]
    · simp only [rank, queue, hstack, hrest, List.length_cons]
      omega
  · have hloop : p.loop grow publishes =
        some { objects := t, todo := publishes callback event :: p.todo } := by
      rw [Program.loop, hstep, Option.map_some, hcalled, hrunning]
    have hfirst : nestedWork held p = (callback, event) ::
        ((deliveriesOf held event).drop (position + 1) ++ outstanding held stack p.todo) := by
      rw [h.held] at hnext
      rw [nestedWork, hstack, outstanding, hnext, List.cons_append]
    refine ⟨_, hloop, ⟨h.step hstep hextends _, ?_⟩, .takes hfirst ?_ hdeliveries⟩
    · exact hrunning ▸ .running event index position number _ nests
    · rw [nestedWork, hrunning, outstanding]
      rfl

theorem Nested.returns (h : p.Nested bus held) {event : Event τ α} {index position number : Nat}
    {stack : List (Frame τ α)} {todo : List (List (Event τ α))}
    (hstack : p.objects.stack = .publish bus.storage event index position true number :: stack)
    (htodo : p.todo = [] :: todo) (nests : Nests bus.storage stack todo) :
    ∃ q : Program τ α,
      (step grow p.objects .returns).map (fun objects => { objects, todo }) = some q ∧
      q.Nested bus held ∧
      Moves (nextDeliveries held publishes) .stack (nestedWork held) deliveries
        (rank (.sync bus)) p q := by
  have hstep := step_returns grow hstack
  rw [hstep]
  refine ⟨_, rfl, ⟨h.step hstep ⟨rfl, rfl, List.prefix_refl _⟩ _, ?_⟩, .idle ?_ rfl ?_⟩
  · exact .head event index (position + 1) number nests
  · rw [nestedWork, nestedWork, hstack, htodo]
    rfl
  · simp only [rank, queue, hstack, htodo, List.flatten_cons, List.length_append,
      List.length_cons, List.length_nil]
    omega

theorem sync_implements (grow : Nat → Nat → Nat) (publishes : Nat → Event τ α → List (Event τ α))
    (bus : SyncEventBus) (held : List (Subscription τ)) :
    Implements (nextDeliveries held publishes) .stack (next grow publishes (.sync bus))
      (Nested bus held) (nestedWork held) deliveries (rank (.sync bus)) := by
  rintro ⟨objects, todo⟩ h
  have nests := h.nests
  generalize hstack : objects.stack = stack at nests
  cases nests with
  | outside events =>
    cases events with
    | nil =>
      left
      simp only [next, hstack, nestedWork, outstanding, List.flatten_cons, List.flatten_nil,
        List.append_nil, List.flatMap_nil, and_self]
    | cons event events =>
      right
      simp only [next, hstack]
      exact h.publish rfl (by rw [userCode, hstack])
  | head event index position number nests =>
    right
    simp only [next, hstack]
    exact h.loop hstack nests
  | running event index position number events nests =>
    right
    cases events with
    | nil =>
      simp only [next, hstack]
      exact h.returns hstack rfl nests
    | cons event events =>
      simp only [next, hstack]
      exact h.publish rfl (by rw [userCode, hstack])

end Sync

section Async

/-- The queue at each point of the program, with at most one call of `publish` under way. -/
inductive Dispatches (b i : Nat) :
    List (Frame τ α) → List (List (Event τ α)) → List (Event τ α) → Prop
  | outside (events queue : List (Event τ α)) : Dispatches b i [] [events] queue
  | loop (queue : List (Event τ α)) : Dispatches b i [.dispatch b] [] queue
  | head (event : Event τ α) (index position number : Nat) (queue : List (Event τ α)) :
      Dispatches b i [.publish i event index position false number, .dispatch b] [] queue
  | running (event : Event τ α) (index position number : Nat) (events queue : List (Event τ α)) :
      Dispatches b i [.publish i event index position true number, .dispatch b] [events] queue
  | finished : Dispatches b i [] [] []

/-- What the innermost call has still to deliver. -/
def current (held : List (Subscription τ)) : List (Frame τ α) → List (Nat × Event τ α)
  | .publish _ event _ position running _ :: _ =>
    (deliveriesOf held event).drop (position + running.toNat)
  | _ => []

/-- The invariant of a program on an `AsyncEventBus` that has storage `i`. -/
structure Queued (b i : Nat) (held : List (Subscription τ)) (p : Program τ α) : Prop
    extends Serves i held p where
  bus : p.objects.buses[b]? =
    some { storage := i, eventPublishers := queue (.async b) p.objects }
  dispatches : Dispatches b i p.objects.stack p.todo (queue (.async b) p.objects)

/-- The calls still to be made: what is queued, and what will be, comes after the rest of the
loop that is under way. -/
def queuedWork (b : Nat) (held : List (Subscription τ)) (p : Program τ α) :
    List (Nat × Event τ α) :=
  current held p.objects.stack ++
    (queue (.async b) p.objects ++ p.todo.flatten).flatMap (deliveriesOf held)

variable {b : Nat}

omit [DecidableEq τ] in
theorem queue_of_bus {s : Objects τ α} {bus : AsyncEventBus τ α} (hbus : s.buses[b]? = some bus) :
    queue (.async b) s = bus.eventPublishers := by
  rw [queue, hbus, Option.map_some, Option.getD_some]

omit [DecidableEq τ] in
theorem getElem?_set_bus {s : Objects τ α} {bus new : AsyncEventBus τ α}
    (hbus : s.buses[b]? = some bus) : (s.buses.set b new)[b]? = some new :=
  List.getElem?_set_self (List.getElem?_eq_some_iff.mp hbus).1

omit [DecidableEq τ] in
theorem Dispatches.publish {stack : List (Frame τ α)} {event : Event τ α}
    {events queue : List (Event τ α)} {todo : List (List (Event τ α))}
    (dispatches : Dispatches b i stack ((event :: events) :: todo) queue) :
    Dispatches b i stack (events :: todo) (queue ++ [event]) := by
  cases dispatches with
  | outside => exact .outside _ _
  | running => exact .running _ _ _ _ _ _

theorem Queued.publish (h : p.Queued b i held) {event : Event τ α} {events : List (Event τ α)}
    {todo : List (List (Event τ α))} (htodo : p.todo = (event :: events) :: todo)
    (huser : p.objects.userCode = true) :
    ∃ q, p.publish grow (.async b) event events todo = some q ∧ q.Queued b i held ∧
      Moves (nextDeliveries held publishes) .queue (queuedWork b held) deliveries
        (rank (.async b)) p q := by
  have hstep := step_enqueue grow huser h.bus event
  rw [Program.publish, Bus.publish, hstep, Option.map_some]
  have hbus := @getElem?_set_bus _ _ _ _ _
    { storage := i, eventPublishers := queue (.async b) p.objects ++ [event] } h.bus
  have hqueue := queue_of_bus (s := { p.objects with buses := p.objects.buses.set b _ }) hbus
  refine ⟨_, rfl, ⟨h.step hstep ⟨rfl, rfl, List.prefix_refl _⟩ _, ?_, ?_⟩, .idle ?_ rfl ?_⟩
  · exact hqueue ▸ hbus
  · have dispatches := h.dispatches
    rw [htodo] at dispatches
    exact hqueue ▸ dispatches.publish
  · simp only [queuedWork, htodo, hqueue, List.flatten_cons, List.append_assoc,
      List.cons_append, List.nil_append]
  · simp only [rank, htodo, hqueue, List.flatten_cons, List.length_append, List.length_cons,
      List.length_nil]
    omega

theorem Queued.dispatch (h : p.Queued b i held) {todo : List (List (Event τ α))}
    (hstack : p.objects.stack = []) (htodo : p.todo = [] :: todo) :
    ∃ q : Program τ α,
      (step grow p.objects (.dispatch b)).map (fun objects => { objects, todo }) = some q ∧
      q.Queued b i held ∧
      Moves (nextDeliveries held publishes) .queue (queuedWork b held) deliveries
        (rank (.async b)) p q := by
  have hstep := step_dispatch grow (by rw [userCode, hstack]) h.bus
  obtain rfl : todo = [] := by
    have dispatches := h.dispatches
    rw [hstack, htodo] at dispatches
    cases dispatches
    rfl
  rw [hstep]
  refine ⟨_, rfl, ⟨h.step hstep ⟨rfl, rfl, List.prefix_refl _⟩ _, h.bus, ?_⟩, .idle ?_ rfl ?_⟩
  · simp only [hstack]
    exact .loop _
  · simp only [queuedWork, current, hstack, htodo, List.flatten_cons, List.flatten_nil,
      List.append_nil]
    rfl
  · simp only [rank, hstack, htodo, List.flatten_cons, List.flatten_nil, List.append_nil,
      List.length_nil, List.length_cons]
    change _ + 2 * (queue (.async b) p.objects).length + _ < _
    omega

theorem Queued.returns (h : p.Queued b i held) {event : Event τ α} {index position number : Nat}
    {stack : List (Frame τ α)} {todo : List (List (Event τ α))}
    (hstack : p.objects.stack = .publish i event index position true number :: stack)
    (htodo : p.todo = [] :: todo) :
    ∃ q : Program τ α,
      (step grow p.objects .returns).map (fun objects => { objects, todo }) = some q ∧
      q.Queued b i held ∧
      Moves (nextDeliveries held publishes) .queue (queuedWork b held) deliveries
        (rank (.async b)) p q := by
  have hstep := step_returns grow hstack
  have dispatches := h.dispatches
  rw [hstack, htodo] at dispatches
  rw [hstep]
  refine ⟨_, rfl, ⟨h.step hstep ⟨rfl, rfl, List.prefix_refl _⟩ _, h.bus, ?_⟩, .idle ?_ rfl ?_⟩
  · cases dispatches
    exact .head _ _ _ _ _
  · simp only [queuedWork, current, hstack, htodo]
    rfl
  · simp only [rank, hstack, htodo, List.flatten_cons, List.length_append, List.length_cons,
      List.length_nil]
    change _ + 2 * (queue (.async b) p.objects).length + _ < _
    omega

theorem Queued.publishLoop (h : p.Queued b i held) {event : Event τ α}
    {index position number : Nat} {stack : List (Frame τ α)}
    (hstack : p.objects.stack = .publish i event index position false number :: stack) :
    ∃ q, p.loop grow publishes = some q ∧ q.Queued b i held ∧
      Moves (nextDeliveries held publishes) .queue (queuedWork b held) deliveries
        (rank (.async b)) p q := by
  have dispatches := h.dispatches
  rw [hstack] at dispatches
  generalize htodo : p.todo = todo at dispatches
  obtain ⟨rfl, rfl⟩ : stack = [.dispatch b] ∧ todo = [] := by
    cases dispatches
    exact ⟨rfl, rfl⟩
  obtain ⟨t, hstep, hextends, hbuses, hcases⟩ := h.routed.publishLoop_cases hstack
  have hqueue : queue (.async b) t = queue (.async b) p.objects := by
    rw [queue, hbuses]
    rfl
  have hbus := h.bus
  rw [← hbuses, ← hqueue] at hbus
  rw [h.held] at hcases
  obtain ⟨hend, hrest, hcalled⟩ | ⟨callback, hnext, hrunning, hcalled, hdeliveries⟩ := hcases
  · have hloop : p.loop grow publishes = some { objects := t, todo := [] } := by
      rw [Program.loop, hstep, Option.map_some, hcalled, List.drop_length, htodo]
    refine ⟨_, hloop, ⟨h.step hstep hextends _, hbus, ?_⟩,
      .idle ?_ (h.deliveries_eq hextends hcalled) ?_⟩
    · exact hrest ▸ .loop _
    · simp only [queuedWork, current, hstack, hrest, htodo, hqueue, Bool.toNat_false,
        Nat.add_zero, hend]
    · simp only [rank, hqueue, hstack, hrest, htodo, List.length_cons]
      omega
  · have hloop : p.loop grow publishes =
        some { objects := t, todo := [publishes callback event] } := by
      rw [Program.loop, hstep, Option.map_some, hcalled, hrunning, htodo]
    have hfirst : queuedWork b held p = (callback, event) ::
        ((deliveriesOf held event).drop (position + 1) ++
          (queue (.async b) p.objects).flatMap (deliveriesOf held)) := by
      simp only [queuedWork, current, hstack, htodo, Bool.toNat_false, Nat.add_zero, hnext,
        List.flatten_nil, List.append_nil, List.cons_append]
    refine ⟨_, hloop, ⟨h.step hstep hextends _, hbus, ?_⟩, .takes hfirst ?_ hdeliveries⟩
    · exact hrunning ▸ .running _ _ _ _ _ _
    · simp only [queuedWork, current, hrunning, hqueue, Bool.toNat_true, Discipline.push,
        nextDeliveries, List.flatten_cons, List.flatten_nil, List.append_nil,
        List.flatMap_append, List.append_assoc]

theorem Queued.dispatchLoop (h : p.Queued b i held) {stack : List (Frame τ α)}
    (hstack : p.objects.stack = .dispatch b :: stack) :
    ∃ q, p.loop grow publishes = some q ∧ q.Queued b i held ∧
      Moves (nextDeliveries held publishes) .queue (queuedWork b held) deliveries
        (rank (.async b)) p q := by
  have dispatches := h.dispatches
  rw [hstack] at dispatches
  generalize htodo : p.todo = todo at dispatches
  obtain ⟨rfl, rfl⟩ : stack = [] ∧ todo = [] := by
    cases dispatches
    exact ⟨rfl, rfl⟩
  obtain ⟨t, hstep, hextends, hdeliveries, hcases⟩ := h.routed.dispatchLoop_cases hstack h.bus
  have hcalled : t.called = p.objects.called := by
    obtain ⟨-, -, -, hcalled⟩ | ⟨-, -, -, -, hcalled, -⟩ := hcases <;> exact hcalled
  have hloop : p.loop grow publishes = some { objects := t, todo := [] } := by
    rw [Program.loop, hstep, Option.map_some, hcalled, List.drop_length, htodo]
  rw [h.held] at hcases
  obtain ⟨hempty, hbuses, hrest, -⟩ | ⟨event, events, htake, hbuses, -, hpublish⟩ := hcases
  · have hempty : queue (.async b) p.objects = [] := hempty
    have hqueue : queue (.async b) t = [] := by
      rw [← hempty, queue, hbuses]
      rfl
    have hbus := h.bus
    rw [← hbuses, hempty, ← hqueue] at hbus
    refine ⟨_, hloop, ⟨h.step hstep hextends _, hbus, ?_⟩, .idle ?_ hdeliveries ?_⟩
    · rw [hrest, hqueue]
      exact .finished
    · simp only [queuedWork, current, hstack, hrest, htodo, hqueue, hempty]
    · simp only [rank, hqueue, hempty, hstack, hrest, htodo, List.length_cons]
      omega
  · have htake : queue (.async b) p.objects = event :: events := htake
    have hbus : t.buses[b]? = some { storage := i, eventPublishers := events } := by
      rw [hbuses]
      exact getElem?_set_bus h.bus
    have hqueue := queue_of_bus hbus
    refine ⟨_, hloop, ⟨h.step hstep hextends _, hqueue ▸ hbus, ?_⟩, .idle ?_ hdeliveries ?_⟩
    · obtain ⟨-, hsame⟩ | ⟨index, number, hpush⟩ := hpublish
      · rw [hsame, hstack]
        exact .loop _
      · rw [hpush, hstack]
        exact .head _ _ _ _ _
    · obtain ⟨hnone, hsame⟩ | ⟨index, number, hpush⟩ := hpublish
      · simp only [queuedWork, hstack, hsame, htodo, hqueue, htake, List.flatten_nil,
          List.append_nil, List.flatMap_cons, hnone, List.nil_append]
      · simp only [queuedWork, current, hstack, hpush, htodo, hqueue, htake, List.flatten_nil,
          List.append_nil, List.flatMap_cons, Bool.toNat_false, Nat.add_zero, List.drop_zero,
          List.nil_append]
    · have hlength : t.stack.length ≤ p.objects.stack.length + 1 := by
        obtain ⟨-, hsame⟩ | ⟨index, number, hpush⟩ := hpublish
        · exact hsame ▸ Nat.le_succ _
        · exact hpush ▸ Nat.le_refl _
      simp only [rank, hqueue, htake, htodo, List.length_cons]
      omega

theorem async_implements (grow : Nat → Nat → Nat) (publishes : Nat → Event τ α → List (Event τ α))
    (b i : Nat) (held : List (Subscription τ)) :
    Implements (nextDeliveries held publishes) .queue (next grow publishes (.async b))
      (Queued b i held) (queuedWork b held) deliveries (rank (.async b)) := by
  rintro ⟨objects, todo⟩ h
  have dispatches := h.dispatches
  generalize hstack : objects.stack = stack at dispatches
  generalize hqueue : queue (.async b) objects = events' at dispatches
  cases dispatches with
  | outside events queue =>
    right
    cases events with
    | nil =>
      simp only [next, hstack]
      exact h.dispatch hstack rfl
    | cons event events =>
      simp only [next, hstack]
      exact h.publish rfl (by rw [userCode, hstack])
  | loop queue =>
    right
    simp only [next, hstack]
    exact h.dispatchLoop hstack
  | head event index position number queue =>
    right
    simp only [next, hstack]
    exact h.publishLoop hstack
  | running event index position number events queue =>
    right
    cases events with
    | nil =>
      simp only [next, hstack]
      exact h.returns hstack rfl
    | cons event events =>
      simp only [next, hstack]
      exact h.publish rfl (by rw [userCode, hstack])
  | finished =>
    left
    simp only [next, hstack, queuedWork, current, hqueue]
    exact ⟨trivial, rfl⟩

end Async

end Program

namespace Objects

open Program

variable {grow : Nat → Nat → Nat} {publishes publishes' : Nat → Event τ α → List (Event τ α)}
variable {s s' : Objects τ α} {actions actions' : List (Action τ α)}

theorem delivers_sync_iff (run : (step grow).exec {} actions = some s) (hstack : s.stack = [])
    {bus : SyncEventBus} (hlt : bus.storage < s.storages.length) (events : List (Event τ α))
    (out : List (Nat × Event τ α)) :
    s.Delivers grow publishes (.sync bus) events out ↔
      Runs (nextDeliveries (s.held.of bus.storage) publishes) .stack
        (events.flatMap (deliveriesOf (s.held.of bus.storage))) out := by
  have routed : s.Routed := invariant_routed.exec routed_initial run
  have started : Nested bus (s.held.of bus.storage) { objects := s, todo := [events] } :=
    ⟨⟨routed, hlt, rfl⟩, hstack ▸ .outside events⟩
  have hwork : nestedWork (s.held.of bus.storage) { objects := s, todo := [events] } =
      events.flatMap (deliveriesOf (s.held.of bus.storage)) := by
    simp only [nestedWork, hstack, outstanding, List.flatten_cons, List.flatten_nil,
      List.append_nil]
  rw [← hwork]
  exact (sync_implements grow publishes bus (s.held.of bus.storage)).finishes_iff started

theorem delivers_async_iff (run : (step grow).exec {} actions = some s) (hstack : s.stack = [])
    {b : Nat} {bus : AsyncEventBus τ α} (hbus : s.buses[b]? = some bus)
    (hempty : bus.eventPublishers = []) (events : List (Event τ α))
    (out : List (Nat × Event τ α)) :
    s.Delivers grow publishes (.async b) events out ↔
      Runs (nextDeliveries (s.held.of bus.storage) publishes) .queue
        (events.flatMap (deliveriesOf (s.held.of bus.storage))) out := by
  have routed : s.Routed := invariant_routed.exec routed_initial run
  have hlt := routed.counted.buses bus (List.mem_of_getElem? hbus)
  have hqueue : queue (.async b) s = [] := (queue_of_bus hbus).trans hempty
  have hsame : s.buses[b]? =
      some { storage := bus.storage, eventPublishers := queue (.async b) s } := by
    rw [hbus, hqueue, ← hempty]
  have started :
      Queued b bus.storage (s.held.of bus.storage) { objects := s, todo := [events] } :=
    ⟨⟨routed, hlt, rfl⟩, hsame, hstack ▸ .outside events _⟩
  have hwork : queuedWork b (s.held.of bus.storage) { objects := s, todo := [events] } =
      events.flatMap (deliveriesOf (s.held.of bus.storage)) := by
    simp only [queuedWork, hstack, current, hqueue, List.flatten_cons, List.flatten_nil,
      List.append_nil, List.nil_append]
  rw [← hwork]
  exact (async_implements grow publishes b bus.storage (s.held.of bus.storage)).finishes_iff
    started

/-- Two buses. On each, two callbacks for one type and one for another, which the first two
publish. -/
def twoBuses : List (Action Nat Nat) :=
  [.create, .createBus, .attempt (.subscribe 0 5 false), .attempt (.subscribe 0 5 false),
    .attempt (.subscribe 0 6 false), .attempt (.subscribe 1 5 false),
    .attempt (.subscribe 1 5 false), .attempt (.subscribe 1 6 false)]

def announces (callback : Nat) (event : Event Nat Nat) : List (Event Nat Nat) :=
  if event.type = 5 then [⟨6, callback % 3⟩] else []

theorem exec_twoBuses :
    ∃ s, (step fun _ n => n).exec {} twoBuses = some s ∧ s.stack = [] ∧ 0 < s.storages.length ∧
      s.held.of 0 = [⟨5, 0⟩, ⟨5, 1⟩, ⟨6, 2⟩] ∧
      ∃ bus, s.buses[0]? = some bus ∧ bus.eventPublishers = [] ∧
        s.held.of bus.storage = [⟨5, 3⟩, ⟨5, 4⟩, ⟨6, 5⟩] :=
  ⟨_, rfl, rfl, by decide, rfl, _, rfl, rfl, rfl⟩

/-- On a `SyncEventBus`, what a callback publishes is delivered, with all that comes of it,
before the next callback is called: the calls are made depth first. -/
theorem sync_depth_first (run : (step grow).exec {} actions = some s) (hstack : s.stack = [])
    {bus : SyncEventBus} (hlt : bus.storage < s.storages.length) (events : List (Event τ α))
    (out : List (Nat × Event τ α)) :
    s.Delivers grow publishes (.sync bus) events out ↔
      Visits (nextDeliveries (s.held.of bus.storage) publishes)
        (events.flatMap (deliveriesOf (s.held.of bus.storage))) out := by
  rw [delivers_sync_iff run hstack hlt]
  exact runs_stack_iff_visits

theorem sync_depth_first_twoBuses :
    ∃ s, (step fun _ n => n).exec {} twoBuses = some s ∧
      s.Delivers (fun _ n => n) announces (.sync { storage := 0 }) [⟨5, 8⟩, ⟨6, 9⟩]
        [(0, ⟨5, 8⟩), (2, ⟨6, 0⟩), (1, ⟨5, 8⟩), (2, ⟨6, 1⟩), (2, ⟨6, 9⟩)] := by
  obtain ⟨s, run, hstack, hlt, hheld, -⟩ := exec_twoBuses
  refine ⟨s, run, (sync_depth_first run hstack hlt _ _).mpr ?_⟩
  rw [hheld]
  exact runs_stack_iff_visits.mp (.take (.take (.take (.take (.take .done)))))

/-- On an `AsyncEventBus`, `dispatch` delivers one generation of events after the other: what
callbacks publish comes after all that was published before. -/
theorem async_breadth_first (run : (step grow).exec {} actions = some s) (hstack : s.stack = [])
    {b : Nat} {bus : AsyncEventBus τ α} (hbus : s.buses[b]? = some bus)
    (hempty : bus.eventPublishers = []) (events : List (Event τ α))
    (out : List (Nat × Event τ α)) :
    s.Delivers grow publishes (.async b) events out ↔
      Generations (nextDeliveries (s.held.of bus.storage) publishes)
        (events.flatMap (deliveriesOf (s.held.of bus.storage))) out := by
  rw [delivers_async_iff run hstack hbus hempty]
  exact runs_queue_iff_generations

theorem async_breadth_first_twoBuses :
    ∃ s, (step fun _ n => n).exec {} twoBuses = some s ∧
      s.Delivers (fun _ n => n) announces (.async 0) [⟨5, 8⟩, ⟨6, 9⟩]
        [(3, ⟨5, 8⟩), (4, ⟨5, 8⟩), (5, ⟨6, 9⟩), (5, ⟨6, 0⟩), (5, ⟨6, 1⟩)] := by
  obtain ⟨s, run, hstack, -, -, bus, hbus, hempty, hheld⟩ := exec_twoBuses
  refine ⟨s, run, (async_breadth_first run hstack hbus hempty _ _).mpr ?_⟩
  rw [hheld]
  exact runs_queue_iff_generations.mp (.take (.take (.take (.take (.take .done)))))

/-- Two buses with the same subscriptions, up to the names of the callbacks: one finishes when
the other does, and both make the same calls, though not in the same order. -/
theorem sync_async_perm (run : (step grow).exec {} actions = some s) (hstack : s.stack = [])
    {bus : SyncEventBus} (hlt : bus.storage < s.storages.length)
    (run' : (step grow).exec {} actions' = some s') (hstack' : s'.stack = [])
    {b : Nat} {bus' : AsyncEventBus τ α} (hbus : s'.buses[b]? = some bus')
    (hempty : bus'.eventPublishers = []) (name : Nat → Nat)
    (hcallbacks : ∀ type, callbacksFor (s'.held.of bus'.storage) type =
      (callbacksFor (s.held.of bus.storage) type).map name)
    (hpublishes : ∀ callback event, publishes' (name callback) event = publishes callback event)
    (events : List (Event τ α)) :
    ((∃ out, s.Delivers grow publishes (.sync bus) events out) ↔
        ∃ out, s'.Delivers grow publishes' (.async b) events out) ∧
      ∀ out out', s.Delivers grow publishes (.sync bus) events out →
        s'.Delivers grow publishes' (.async b) events out' →
        out'.Perm (out.map (Prod.map name id)) ∧
          ((∀ callback event, publishes callback event = []) →
            out' = out.map (Prod.map name id)) := by
  simp only [delivers_sync_iff run hstack hlt, delivers_async_iff run' hstack' hbus hempty]
  generalize s.held.of bus.storage = held at hcallbacks
  generalize s'.held.of bus'.storage = held' at hcallbacks
  have hnext := nextDeliveries_map hcallbacks hpublishes
  rw [flatMap_deliveriesOf_map hcallbacks]
  refine ⟨exists_runs_map_iff hnext, ?calls⟩
  intro out out' runs runs'
  refine ⟨runs'.perm (runs.map hnext), fun hnothing => ?_⟩
  have hstop : ∀ delivery, nextDeliveries held publishes delivery = [] := by
    intro delivery
    rw [nextDeliveries, hnothing, List.flatMap_nil]
  have flat := fun d => runs_of_next_eq_nil
    (l := events.flatMap (deliveriesOf held)) (fun a _ => hstop a) d
  rw [runs.unique (flat .stack), runs'.unique ((flat .queue).map hnext)]

theorem sync_async_perm_twoBuses :
    ∃ s out, (step fun _ n => n).exec {} twoBuses = some s ∧
      s.Delivers (fun _ n => n) announces (.async 0) [⟨5, 8⟩] out ∧
      out.Perm [(3, ⟨5, 8⟩), (5, ⟨6, 0⟩), (4, ⟨5, 8⟩), (5, ⟨6, 1⟩)] := by
  obtain ⟨s, run, hstack, hlt, hheld, bus, hbus, hempty, hheld'⟩ := exec_twoBuses
  have hcallbacks : ∀ type, callbacksFor (s.held.of bus.storage) type =
      (callbacksFor (s.held.of 0) type).map (· + 3) := by
    intro type
    rw [hheld, hheld', callbacksFor, callbacksFor]
    simp only [List.filter_cons, List.filter_nil, decide_eq_true_eq]
    split_ifs <;> rfl
  have hannounces : ∀ callback event,
      announces (callback + 3) event = announces callback event := by
    intro callback event
    rw [announces, announces, Nat.add_mod_right]
  have delivers : s.Delivers (fun _ n => n) announces (.sync { storage := 0 }) [⟨5, 8⟩]
      [(0, ⟨5, 8⟩), (2, ⟨6, 0⟩), (1, ⟨5, 8⟩), (2, ⟨6, 1⟩)] := by
    rw [delivers_sync_iff run hstack hlt, hheld]
    exact .take (.take (.take (.take .done)))
  obtain ⟨finishes, calls⟩ := @sync_async_perm _ _ _ _ announces announces _ _ _ _ run hstack
    { storage := 0 } hlt run hstack _ _ hbus hempty (· + 3) hcallbacks hannounces [⟨5, 8⟩]
  obtain ⟨out, delivers'⟩ := finishes.mp ⟨_, delivers⟩
  exact ⟨s, out, run, delivers', (calls _ _ delivers delivers').1⟩

end Objects

end Stalker2D.EventBus.Detail
