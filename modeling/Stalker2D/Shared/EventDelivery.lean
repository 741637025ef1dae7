import Mathlib.Data.List.Nodup
import Stalker2D.Machine.Lists
import Stalker2D.Shared.AsyncEventBus

/-!
# Every event is delivered once

Queue and subscribers are changed by callbacks while the loops of `dispatch` and
`SubscriberStorage::publish` run, at any depth. `WellFormed` relates each loop that is
running to the record: nobody can subscribe while one delivers, so what it has delivered
is an initial piece of the subscribers at the time its event was taken.
-/

namespace Stalker2D.EventBus

variable {τ α : Type} [DecidableEq τ]

section Subscribers

/-- The subscriptions for a type, in their order. -/
def subscribersOf (subscribed : List τ) (type : τ) : List Nat :=
  (List.range subscribed.length).filter fun n => subscribed[n]? = some type

theorem mem_subscribersOf {subscribed : List τ} {type : τ} {n : Nat} :
    n ∈ subscribersOf subscribed type ↔ subscribed[n]? = some type := by
  simp only [subscribersOf, List.mem_filter, List.mem_range, decide_eq_true_eq,
    and_iff_right_iff_imp]
  intro h
  exact (List.getElem?_eq_some_iff.mp h).1

theorem nodup_subscribersOf (subscribed : List τ) (type : τ) :
    (subscribersOf subscribed type).Nodup :=
  List.nodup_range.filter _

theorem subscribersOf_eq_nil {subscribed : List τ} {type : τ} (h : type ∉ subscribed) :
    subscribersOf subscribed type = [] := by
  apply List.eq_nil_iff_forall_not_mem.mpr
  intro n hn
  exact h (List.mem_of_getElem? (mem_subscribersOf.mp hn))

theorem subscribersOf_append (subscribed : List τ) (type type' : τ) :
    subscribersOf (subscribed ++ [type]) type' =
      subscribersOf subscribed type' ++ if type = type' then [subscribed.length] else [] := by
  simp only [subscribersOf, List.length_append, List.length_singleton, List.range_succ,
    List.filter_append]
  congr 1
  · apply List.filter_congr
    intro n hn
    rw [List.getElem?_append_left (List.mem_range.mp hn)]
  · simp only [List.filter_singleton, List.getElem?_concat_length, Option.some.injEq]
    split <;> simp_all

end Subscribers

section Index

variable {types : List τ} {type : τ}

theorem getElem?_eventIndex (types : List τ) (type : τ) :
    (eventIndex types type).2[(eventIndex types type).1]? = some type := by
  simp only [eventIndex]
  split
  next h => exact List.getElem?_idxOf h
  next => exact List.getElem?_concat_length

/-- A type that asks for the first time comes last. -/
theorem eventIndex_cases (types : List τ) (type : τ) :
    (eventIndex types type).2 = types ∨
      type ∉ types ∧ (eventIndex types type).2 = types ++ [type] := by
  simp only [eventIndex]
  split
  · exact .inl rfl
  next h => exact .inr ⟨h, rfl⟩

theorem nodup_eventIndex (nodup : types.Nodup) (type : τ) : (eventIndex types type).2.Nodup := by
  obtain h | ⟨hnew, h⟩ := eventIndex_cases types type
  · rwa [h]
  · rw [h, ← List.concat_eq_append]
    exact nodup.concat hnew

omit [DecidableEq τ] in
/-- A type has one index. -/
theorem eq_iff_of_getElem? (nodup : types.Nodup) {index index' : Nat} {type' : τ}
    (h : types[index]? = some type) (h' : types[index']? = some type') :
    index = index' ↔ type = type' := by
  constructor
  · rintro rfl
    exact Option.some.inj (h.symm.trans h')
  · rintro rfl
    exact (List.getElem?_inj (List.getElem?_eq_some_iff.mp h).1 nodup).mp (h.trans h'.symm)

/-- An index that was given out stays. -/
theorem getElem?_eventIndex_of_some {index : Nat} (h : types[index]? = some type) (type' : τ) :
    (eventIndex types type').2[index]? = some type := by
  obtain hsame | ⟨-, hnew⟩ := eventIndex_cases types type'
  · rwa [hsame]
  · rw [hnew, List.getElem?_append_left (List.getElem?_eq_some_iff.mp h).1, h]

end Index

/-- The new places are empty. -/
theorem SubscriberStorage.getD_resizeIfNecessary (storage : SubscriberStorage)
    (index index' : Nat) : (storage.resizeIfNecessary index)[index']?.getD [] =
      storage.callbacks[index']?.getD [] := by
  simp only [resizeIfNecessary, List.getElem?_append, List.getElem?_replicate]
  split
  · rfl
  next hge =>
    rw [List.getElem?_eq_none (Nat.le_of_not_lt hge)]
    split <;> rfl

/-- A callback is added to the list at its index, and to no other. -/
theorem SubscriberStorage.getD_added (storage : SubscriberStorage) (index callback index' : Nat) :
    ((storage.resizeIfNecessary index).modify index (· ++ [callback]))[index']?.getD [] =
      storage.callbacks[index']?.getD [] ++ if index = index' then [callback] else [] := by
  rw [← storage.getD_resizeIfNecessary index index', List.getElem?_modify]
  by_cases heq : index = index'
  · subst heq
    have hlt : index < (storage.resizeIfNecessary index).length := by
      simp only [resizeIfNecessary, List.length_append, List.length_replicate]
      omega
    rw [List.getElem?_eq_getElem hlt, if_pos rfl]
    simp only [if_true, Option.map_eq_map, Option.map_some, Option.getD_some]
  · rw [if_neg heq, List.append_nil]
    simp only [if_neg heq, Option.map_eq_map, Option.map_id']

/-- The event a call of `SubscriberStorage::publish` is about. -/
def Frame.number? : Frame τ α → Option Nat
  | .dispatch => none
  | .publish _ _ _ _ number => some number

namespace Execution

variable {s t : Execution τ α}

/-- The events that are being delivered. -/
def delivering (s : Execution τ α) : List Nat := s.stack.filterMap Frame.number?

/-- Who has been called with an event, in order. -/
def deliveries (s : Execution τ α) (number : Nat) : List Nat :=
  (s.delivered.filter (·.number = number)).map Delivery.callback

/-- What holds of the loop of one `SubscriberStorage::publish`. -/
structure Delivering (s : Execution τ α) (event : Event τ α) (index position : Nat)
    (running : Bool) (number : Nat) : Prop where
  published : s.published[number]? = some event
  taken : s.taken[number]? = some s.subscribed
  index : s.types[index]? = some event.type
  delivered : s.deliveries number =
    (subscribersOf s.subscribed event.type).take (position + running.toNat)

/-- How the bus, the calls on the stack and the record belong together. -/
structure WellFormed (s : Execution τ α) : Prop where
  nodup : s.types.Nodup
  count : s.bus.storage.publishCount = s.delivering.length
  fits : s.bus.storage.callbacks.length ≤ s.types.length
  callbacks : ∀ (index : Nat) type, s.types[index]? = some type →
    s.bus.storage.callbacks[index]?.getD [] = subscribersOf s.subscribed type
  known : ∀ type ∈ s.subscribed, type ∈ s.types
  queue : s.bus.eventPublishers = s.published.drop s.taken.length
  taken : s.taken.length ≤ s.published.length
  numbers : s.delivering.Nodup
  frames : ∀ event index position running number,
    Frame.publish event index position running number ∈ s.stack →
    s.Delivering event index position running number
  finished : ∀ (number : Nat) event subscribers, s.published[number]? = some event →
    s.taken[number]? = some subscribers → number ∉ s.delivering →
    s.deliveries number = subscribersOf subscribers event.type
  recorded : ∀ delivery ∈ s.delivered, delivery.number < s.taken.length ∧
    s.published[delivery.number]? = some delivery.event

theorem wellFormed_initial : WellFormed ({} : Execution τ α) where
  nodup := List.nodup_nil
  count := rfl
  fits := Nat.le_refl 0
  callbacks _ _ h := by simp at h
  known _ h := by cases h
  queue := rfl
  taken := Nat.le_refl 0
  numbers := List.nodup_nil
  frames _ _ _ _ _ h := by cases h
  finished _ _ _ h := by simp at h
  recorded _ h := by cases h

omit [DecidableEq τ] in
theorem mem_delivering {event : Event τ α} {index position number : Nat} {running : Bool}
    (h : Frame.publish event index position running number ∈ s.stack) : number ∈ s.delivering :=
  List.mem_filterMap.mpr ⟨_, h, rfl⟩

/-- While an event is being delivered, nobody can subscribe. -/
theorem WellFormed.delivering_eq_nil (wf : s.WellFormed)
    (h : s.bus.storage.publishCount = 0) : s.delivering = [] :=
  List.eq_nil_of_length_eq_zero (wf.count.symm.trans h)

theorem WellFormed.eventIndex (wf : s.WellFormed) (type : τ) :
    WellFormed { s with types := (EventBus.eventIndex s.types type).2 } := by
  obtain h | ⟨hnew, h⟩ := eventIndex_cases s.types type
  · rw [h]
    exact wf
  · have nodup := nodup_eventIndex wf.nodup type
    have old : ∀ {index : Nat} {type' : τ}, s.types[index]? = some type' →
        (EventBus.eventIndex s.types type).2[index]? = some type' :=
      fun hindex => getElem?_eventIndex_of_some hindex type
    rw [h] at nodup old ⊢
    refine
      { nodup
        count := wf.count
        fits := ?fits
        callbacks := ?callbacks
        known := fun type' hmem => List.mem_append_left _ (wf.known type' hmem)
        queue := wf.queue
        taken := wf.taken
        numbers := wf.numbers
        frames := ?frames
        finished := wf.finished
        recorded := wf.recorded }
    case fits =>
      have := wf.fits
      simp only [List.length_append, List.length_singleton]
      omega
    case callbacks =>
      intro index type' hindex
      obtain hindex | ⟨rfl, rfl⟩ := getElem?_concat_cases hindex
      · exact wf.callbacks index type' hindex
      · -- nobody has subscribed for a type that is new
        rw [List.getElem?_eq_none wf.fits, subscribersOf_eq_nil fun h => hnew (wf.known _ h)]
        rfl
    case frames =>
      intro event index position running number hmem
      have delivering := wf.frames event index position running number hmem
      exact ⟨delivering.published, delivering.taken, old delivering.index, delivering.delivered⟩

/-- `subscribe` outside of any delivery, with its type known. -/
theorem WellFormed.subscribed (wf : s.WellFormed) {index : Nat} {type : τ}
    (hindex : s.types[index]? = some type) (hcount : s.bus.storage.publishCount = 0) :
    WellFormed { s with
      bus := { s.bus with
        storage := { s.bus.storage with
          callbacks := (s.bus.storage.resizeIfNecessary index).modify index
            (· ++ [s.subscribed.length]) } }
      subscribed := s.subscribed ++ [type] } := by
  have hlt := (List.getElem?_eq_some_iff.mp hindex).1
  have hnone := wf.delivering_eq_nil hcount
  refine
    { nodup := wf.nodup
      count := wf.count
      fits := ?fits
      callbacks := ?callbacks
      known := ?known
      queue := wf.queue
      taken := wf.taken
      numbers := wf.numbers
      frames := ?frames
      finished := wf.finished
      recorded := wf.recorded }
  case fits =>
    have := wf.fits
    simp only [SubscriberStorage.resizeIfNecessary, List.length_modify, List.length_append,
      List.length_replicate]
    omega
  case callbacks =>
    intro index' type' hindex'
    rw [SubscriberStorage.getD_added, wf.callbacks index' type' hindex', subscribersOf_append]
    simp only [eq_iff_of_getElem? wf.nodup hindex hindex']
  case known =>
    intro type' hmem
    obtain hmem | hmem := List.mem_append.mp hmem
    · exact wf.known type' hmem
    · rw [List.mem_singleton.mp hmem]
      exact List.mem_of_getElem? hindex
  case frames =>
    intro event index position running number hmem
    have hin : number ∈ s.delivering := mem_delivering hmem
    rw [hnone] at hin
    cases hin

theorem WellFormed.subscribe (wf : s.WellFormed) (type : τ) (empty : Bool) :
    (s.subscribe type empty).WellFormed := by
  by_cases hcount : s.bus.storage.publishCount = 0
  · cases empty with
    | true =>
      have hthrow : s.subscribe type true = s := by
        simp [Execution.subscribe, SubscriberStorage.subscribe,
          SubscriberStorage.throwIfPublishing, hcount]
      rwa [hthrow]
    | false =>
      have hadd := (wf.eventIndex type).subscribed (getElem?_eventIndex s.types type) hcount
      simpa [Execution.subscribe, SubscriberStorage.subscribe,
        SubscriberStorage.throwIfPublishing, hcount] using hadd
  · have hthrow : s.subscribe type empty = s := by
      simp [Execution.subscribe, SubscriberStorage.subscribe,
        SubscriberStorage.throwIfPublishing, hcount]
    rwa [hthrow]

theorem WellFormed.publish (wf : s.WellFormed) (event : Event τ α) :
    (s.publish event).WellFormed := by
  have old : ∀ {number : Nat}, number < s.published.length →
      (s.published ++ [event])[number]? = s.published[number]? :=
    fun h => List.getElem?_append_left h
  refine
    { nodup := wf.nodup
      count := wf.count
      fits := wf.fits
      callbacks := wf.callbacks
      known := wf.known
      queue := ?queue
      taken := ?taken
      numbers := wf.numbers
      frames := ?frames
      finished := ?finished
      recorded := ?recorded }
  case queue =>
    simp only [Execution.publish]
    rw [wf.queue, List.drop_append_of_le_length wf.taken]
  case taken =>
    have := wf.taken
    simp only [Execution.publish, List.length_append, List.length_singleton]
    omega
  case frames =>
    intro event' index position running number hmem
    have delivering := wf.frames event' index position running number hmem
    have hlt := (List.getElem?_eq_some_iff.mp delivering.published).1
    exact ⟨(old hlt).trans delivering.published, delivering.taken, delivering.index,
      delivering.delivered⟩
  case finished =>
    intro number event' subscribers hpublished htaken hnot
    have hlt := Nat.lt_of_lt_of_le (List.getElem?_eq_some_iff.mp htaken).1 wf.taken
    exact wf.finished number event' subscribers ((old hlt).symm.trans hpublished) htaken hnot
  case recorded =>
    intro delivery hmem
    obtain ⟨hlt, hpublished⟩ := wf.recorded delivery hmem
    exact ⟨hlt, (old (Nat.lt_of_lt_of_le hlt wf.taken)).trans hpublished⟩

/-- Calls come and go without a change to what is being delivered. -/
theorem WellFormed.restack (wf : s.WellFormed) {stack : List (Frame τ α)}
    (hdelivering : stack.filterMap Frame.number? = s.delivering)
    (hframes : ∀ event index position running number,
      Frame.publish event index position running number ∈ stack →
      s.Delivering event index position running number) : WellFormed { s with stack } where
  nodup := wf.nodup
  count := wf.count.trans (congrArg List.length hdelivering.symm)
  fits := wf.fits
  callbacks := wf.callbacks
  known := wf.known
  queue := wf.queue
  taken := wf.taken
  numbers := by
    rw [delivering, hdelivering]
    exact wf.numbers
  frames event index position running number hmem := by
    obtain ⟨published, taken, hindex, delivered⟩ :=
      hframes event index position running number hmem
    exact ⟨published, taken, hindex, delivered⟩
  finished number event subscribers hpublished htaken hnot :=
    wf.finished number event subscribers hpublished htaken (hdelivering ▸ hnot)
  recorded := wf.recorded

theorem WellFormed.dispatch (wf : s.WellFormed) :
    WellFormed { s with stack := .dispatch :: s.stack } := by
  apply wf.restack
  · rfl
  · intro event index position running number hmem
    obtain hmem | hmem := List.mem_cons.mp hmem
    · cases hmem
    · exact wf.frames event index position running number hmem

theorem WellFormed.dispatchReturns (wf : s.WellFormed) {rest : List (Frame τ α)}
    (hstack : s.stack = .dispatch :: rest) : WellFormed { s with stack := rest } := by
  apply wf.restack
  · rw [delivering, hstack]
    rfl
  · intro event index position running number hmem
    apply wf.frames
    rw [hstack]
    exact List.mem_cons_of_mem _ hmem

theorem WellFormed.returns (wf : s.WellFormed) {event : Event τ α} {index position number : Nat}
    {rest : List (Frame τ α)}
    (hstack : s.stack = .publish event index position true number :: rest) :
    WellFormed { s with stack := .publish event index (position + 1) false number :: rest } := by
  apply wf.restack
  · rw [delivering, hstack]
    rfl
  · intro event' index' position' running' number' hmem
    obtain hmem | hmem := List.mem_cons.mp hmem
    · cases hmem
      have head := wf.frames event index position true number (hstack ▸ List.mem_cons_self)
      exact ⟨head.published, head.taken, head.index, head.delivered⟩
    · apply wf.frames
      rw [hstack]
      exact List.mem_cons_of_mem _ hmem

/-- The event at the head of the queue is the next one that was published. -/
theorem WellFormed.next (wf : s.WellFormed) {event : Event τ α} {rest : List (Event τ α)}
    (h : s.bus.eventPublishers = event :: rest) :
    s.published[s.taken.length]? = some event ∧ rest = s.published.drop (s.taken.length + 1) := by
  have hdrop := wf.queue.symm.trans h
  constructor
  · rw [← List.head?_drop, hdrop]
    rfl
  · rw [← List.tail_drop, hdrop]
    rfl

/-- Nothing has been delivered of an event that is still in the queue. -/
theorem WellFormed.deliveries_eq_nil (wf : s.WellFormed) {number : Nat}
    (h : s.taken.length ≤ number) : s.deliveries number = [] := by
  rw [deliveries, List.map_eq_nil_iff, List.filter_eq_nil_iff]
  intro delivery hmem heq
  have hlt := (wf.recorded delivery hmem).1
  rw [of_decide_eq_true heq] at hlt
  omega

/-- The head of the queue is taken: nobody has it yet, and unless somebody gets it now,
nobody was to get it. -/
theorem WellFormed.take (wf : s.WellFormed) {event : Event τ α} {rest : List (Event τ α)}
    (h : s.bus.eventPublishers = event :: rest) {storage : SubscriberStorage}
    {stack : List (Frame τ α)} (hcallbacks : storage.callbacks = s.bus.storage.callbacks)
    (hcount : storage.publishCount = (stack.filterMap Frame.number?).length)
    (hsub : ∀ number, number ∈ s.delivering → number ∈ stack.filterMap Frame.number?)
    (hnumbers : (stack.filterMap Frame.number?).Nodup)
    (hframes : ∀ event' index position running number,
      Frame.publish event' index position running number ∈ stack →
      Frame.publish event' index position running number ∈ s.stack ∨
        event' = event ∧ position = 0 ∧ running = false ∧ number = s.taken.length ∧
          s.types[index]? = some event.type)
    (hnobody : s.taken.length ∉ stack.filterMap Frame.number? →
      subscribersOf s.subscribed event.type = []) :
    WellFormed { s with
      bus := { storage, eventPublishers := rest }
      taken := s.taken ++ [s.subscribed]
      stack } := by
  obtain ⟨hpublished, hrest⟩ := wf.next h
  have hlt := (List.getElem?_eq_some_iff.mp hpublished).1
  refine
    { nodup := wf.nodup
      count := hcount
      fits := hcallbacks ▸ wf.fits
      callbacks := hcallbacks ▸ wf.callbacks
      known := wf.known
      queue := ?queue
      taken := ?taken
      numbers := hnumbers
      frames := ?frames
      finished := ?finished
      recorded := ?recorded }
  case queue =>
    rw [List.length_append, List.length_singleton]
    exact hrest
  case taken =>
    rw [List.length_append, List.length_singleton]
    exact hlt
  case frames =>
    intro event' index position running number hmem
    obtain hold | ⟨rfl, rfl, rfl, rfl, hindex⟩ :=
      hframes event' index position running number hmem
    · have head := wf.frames event' index position running number hold
      refine ⟨head.published, ?_, head.index, head.delivered⟩
      rw [List.getElem?_append_left (List.getElem?_eq_some_iff.mp head.taken).1]
      exact head.taken
    · refine ⟨hpublished, List.getElem?_concat_length, hindex, ?_⟩
      rw [show (0 : Nat) + false.toNat = 0 from rfl, List.take_zero]
      exact wf.deliveries_eq_nil (Nat.le_refl _)
  case finished =>
    intro number event' subscribers hpublished' htaken hnot
    by_cases hnew : number < s.taken.length
    · rw [List.getElem?_append_left hnew] at htaken
      exact wf.finished number event' subscribers hpublished' htaken fun hin => hnot (hsub _ hin)
    · have hle := (List.getElem?_eq_some_iff.mp htaken).1
      rw [List.length_append, List.length_singleton] at hle
      obtain rfl : number = s.taken.length := by omega
      rw [List.getElem?_concat_length] at htaken
      obtain rfl := Option.some.inj htaken
      obtain rfl := Option.some.inj (hpublished.symm.trans hpublished')
      exact (wf.deliveries_eq_nil (Nat.le_refl _)).trans (hnobody hnot).symm
  case recorded =>
    intro delivery hmem
    obtain ⟨hold, hrecorded⟩ := wf.recorded delivery hmem
    refine ⟨?_, hrecorded⟩
    rw [List.length_append]
    exact Nat.lt_add_right _ hold

theorem WellFormed.dispatchLoop (wf : s.WellFormed) {rest : List (Frame τ α)}
    (hstack : s.stack = .dispatch :: rest) : (s.dispatchLoop rest).WellFormed := by
  simp only [Execution.dispatchLoop]
  split
  · exact wf.dispatchReturns hstack
  next event eventPublishers h =>
    have known := wf.eventIndex event.type
    have hindex := getElem?_eventIndex s.types event.type
    have hdelivering : s.delivering = rest.filterMap Frame.number? := by
      rw [delivering, hstack]
      rfl
    split
    next hnone =>
      -- the type has no callbacks, so nobody has subscribed for it
      apply known.take h
      · rfl
      · exact wf.count
      · exact fun number hin => hin
      · exact wf.numbers
      · exact fun event' index position running number hmem => .inl hmem
      · intro _
        rw [← known.callbacks _ _ hindex, List.getElem?_eq_none hnone]
        rfl
    next hsome =>
      have hfresh : s.taken.length ∉ rest.filterMap Frame.number? := by
        intro hin
        rw [← hdelivering] at hin
        obtain ⟨frame, hmem, hnumber⟩ := List.mem_filterMap.mp hin
        cases frame with
        | dispatch => cases hnumber
        | publish event index position running number =>
          obtain rfl := Option.some.inj hnumber
          have hlt := (wf.frames event index position running _ hmem).taken
          rw [List.getElem?_eq_none (Nat.le_refl _)] at hlt
          cases hlt
      apply known.take h
      · rfl
      · rw [wf.count, hdelivering]
        rfl
      · intro number hin
        have hold : number ∈ rest.filterMap Frame.number? := hdelivering ▸ hin
        exact List.mem_cons_of_mem _ hold
      · exact List.nodup_cons.mpr ⟨hfresh, hdelivering ▸ wf.numbers⟩
      · intro event' index position running number hmem
        obtain hmem | hmem := List.mem_cons.mp hmem
        · cases hmem
          exact .inr ⟨rfl, rfl, rfl, rfl, hindex⟩
        · left
          rwa [hstack]
      · exact fun hnot => absurd List.mem_cons_self hnot

omit [DecidableEq τ] in
/-- One callback is called with one event. -/
theorem deliveries_delivered (s : Execution τ α) (number : Nat) (delivery : Delivery τ α)
    (stack : List (Frame τ α)) :
    deliveries { s with stack, delivered := s.delivered ++ [delivery] } number =
      s.deliveries number ++ if delivery.number = number then [delivery.callback] else [] :=
  map_filter_concat s.delivered delivery Delivery.callback (·.number = number)

/-- The calls below the innermost one deliver other events. -/
theorem WellFormed.below (wf : s.WellFormed) {event : Event τ α} {index position number : Nat}
    {running : Bool} {rest : List (Frame τ α)}
    (hstack : s.stack = .publish event index position running number :: rest) :
    (rest.filterMap Frame.number?).Nodup ∧ ∀ event' index' position' running' number',
      Frame.publish event' index' position' running' number' ∈ rest →
      s.Delivering event' index' position' running' number' ∧ number' ≠ number := by
  have hnumbers := wf.numbers
  rw [delivering, hstack] at hnumbers
  obtain ⟨hfresh, hnodup⟩ := List.nodup_cons.mp hnumbers
  refine ⟨hnodup, fun event' index' position' running' number' hmem => ?_⟩
  refine ⟨wf.frames _ _ _ _ _ (hstack ▸ List.mem_cons_of_mem _ hmem), ?_⟩
  rintro rfl
  exact hfresh (List.mem_filterMap.mpr ⟨_, hmem, rfl⟩)

/-- Everybody has been called, and the loop ends. -/
theorem WellFormed.publishReturns (wf : s.WellFormed) {event : Event τ α}
    {index position number : Nat} {rest : List (Frame τ α)}
    (hstack : s.stack = .publish event index position false number :: rest)
    (hend : (subscribersOf s.subscribed event.type)[position]? = none) :
    WellFormed { s with
      bus := { s.bus with
        storage := { s.bus.storage with publishCount := s.bus.storage.publishCount - 1 } }
      stack := rest } := by
  have head := wf.frames event index position false number (hstack ▸ List.mem_cons_self)
  have hdelivering : s.delivering = number :: rest.filterMap Frame.number? := by
    rw [delivering, hstack]
    rfl
  obtain ⟨hnodup, below⟩ := wf.below hstack
  refine
    { nodup := wf.nodup
      count := ?count
      fits := wf.fits
      callbacks := wf.callbacks
      known := wf.known
      queue := wf.queue
      taken := wf.taken
      numbers := hnodup
      frames := ?frames
      finished := ?finished
      recorded := wf.recorded }
  case count =>
    have hcount := wf.count
    rw [hdelivering, List.length_cons] at hcount
    simp only [hcount, Nat.add_sub_cancel]
    rfl
  case frames =>
    intro event' index' position' running' number' hmem
    obtain ⟨⟨published, taken, hindex, delivered⟩, -⟩ := below _ _ _ _ _ hmem
    exact ⟨published, taken, hindex, delivered⟩
  case finished =>
    intro number' event' subscribers hpublished htaken hnot
    by_cases heq : number' = number
    · subst heq
      obtain rfl := Option.some.inj (head.published.symm.trans hpublished)
      obtain rfl := Option.some.inj (head.taken.symm.trans htaken)
      show s.deliveries number' = _
      rw [head.delivered]
      exact List.take_of_length_le (List.getElem?_eq_none_iff.mp hend)
    · apply wf.finished number' event' subscribers hpublished htaken
      rw [hdelivering]
      exact fun hin => (List.mem_cons.mp hin).elim heq hnot

/-- The next one is called. -/
theorem WellFormed.calls (wf : s.WellFormed) {event : Event τ α} {index position number : Nat}
    {rest : List (Frame τ α)}
    (hstack : s.stack = .publish event index position false number :: rest) {callback : Nat}
    (hcallback : (subscribersOf s.subscribed event.type)[position]? = some callback) :
    WellFormed { s with
      stack := .publish event index position true number :: rest
      delivered := s.delivered ++ [{ number, event, callback }] } := by
  have head := wf.frames event index position false number (hstack ▸ List.mem_cons_self)
  have hdelivering : s.delivering = number :: rest.filterMap Frame.number? := by
    rw [delivering, hstack]
    rfl
  have hdelivered := fun n => deliveries_delivered s n { number, event, callback }
    (.publish event index position true number :: rest)
  refine
    { nodup := wf.nodup
      count := wf.count.trans (congrArg List.length hdelivering)
      fits := wf.fits
      callbacks := wf.callbacks
      known := wf.known
      queue := wf.queue
      taken := wf.taken
      numbers := ?numbers
      frames := ?frames
      finished := ?finished
      recorded := ?recorded }
  case numbers =>
    have hnumbers := wf.numbers
    rwa [hdelivering] at hnumbers
  case frames =>
    intro event' index' position' running' number' hmem
    obtain hmem | hmem := List.mem_cons.mp hmem
    · cases hmem
      refine ⟨head.published, head.taken, head.index, ?_⟩
      rw [hdelivered, if_pos rfl, head.delivered]
      show List.take position _ ++ [callback] = List.take (position + 1) _
      rw [List.take_add_one, hcallback]
      rfl
    · obtain ⟨⟨published, taken, hindex, delivered⟩, hne⟩ := (wf.below hstack).2 _ _ _ _ _ hmem
      refine ⟨published, taken, hindex, ?_⟩
      rw [hdelivered, if_neg hne.symm, List.append_nil]
      exact delivered
  case finished =>
    intro number' event' subscribers hpublished htaken hnot
    have hne : number ≠ number' := by
      rintro rfl
      exact hnot List.mem_cons_self
    rw [hdelivered, if_neg hne, List.append_nil]
    exact wf.finished number' event' subscribers hpublished htaken (hdelivering ▸ hnot)
  case recorded =>
    intro delivery hmem
    obtain hmem | hmem := List.mem_append.mp hmem
    · exact wf.recorded delivery hmem
    · obtain rfl := List.mem_singleton.mp hmem
      exact ⟨(List.getElem?_eq_some_iff.mp head.taken).1, head.published⟩

theorem WellFormed.publishLoop (wf : s.WellFormed) {event : Event τ α}
    {index position number : Nat} {rest : List (Frame τ α)}
    (hstack : s.stack = .publish event index position false number :: rest) :
    (s.publishLoop event index position number rest).WellFormed := by
  have head := wf.frames event index position false number (hstack ▸ List.mem_cons_self)
  simp only [Execution.publishLoop, wf.callbacks index event.type head.index]
  split
  next hend => exact wf.publishReturns hstack hend
  next callback hcallback => exact wf.calls hstack hcallback

theorem invariant_wellFormed : (step (τ := τ) (α := α)).Invariant WellFormed := by
  intro s action t wf hstep
  cases action with
  | eventIndex type => exact Option.some.inj hstep ▸ wf.eventIndex type
  | subscribe type empty =>
    simp only [step, Option.ite_none_right_eq_some, Option.some.injEq] at hstep
    exact hstep.2 ▸ wf.subscribe type empty
  | publish event =>
    simp only [step, Option.ite_none_right_eq_some, Option.some.injEq] at hstep
    exact hstep.2 ▸ wf.publish event
  | dispatch =>
    simp only [step, Option.ite_none_right_eq_some, Option.some.injEq] at hstep
    exact hstep.2 ▸ wf.dispatch
  | returns =>
    simp only [step] at hstep
    split at hstep
    next event index position number rest hstack =>
      exact Option.some.inj hstep ▸ wf.returns hstack
    next => cases hstep
  | loop =>
    simp only [step] at hstep
    split at hstep
    next rest hstack => exact Option.some.inj hstep ▸ wf.dispatchLoop hstack
    next event index position number rest hstack =>
      exact Option.some.inj hstep ▸ wf.publishLoop hstack
    next => cases hstep

/-- Every event so far has reached exactly those who had subscribed for its type when it
was taken from the queue, once. -/
structure Settled (s : Execution τ α) : Prop where
  empty : s.bus.eventPublishers = []
  reached : ∀ (number : Nat) event, s.published[number]? = some event →
    ∃ subscribers, s.taken[number]? = some subscribers ∧
      ∀ callback, (s.deliveries number).count callback =
        if subscribers[callback]? = some event.type then 1 else 0
  recorded : ∀ delivery ∈ s.delivered, s.published[delivery.number]? = some delivery.event

theorem WellFormed.settled (wf : s.WellFormed) (hstack : s.stack = [])
    (hempty : s.bus.eventPublishers = []) : s.Settled where
  empty := hempty
  reached number event hpublished := by
    have hall : s.published.length ≤ s.taken.length :=
      List.drop_eq_nil_iff.mp (wf.queue.symm.trans hempty)
    have hlt := Nat.lt_of_lt_of_le (List.getElem?_eq_some_iff.mp hpublished).1 hall
    have htaken := List.getElem?_eq_getElem hlt
    refine ⟨_, htaken, fun callback => ?_⟩
    have hidle : number ∉ s.delivering := by
      rw [delivering, hstack]
      exact List.not_mem_nil
    rw [wf.finished number event _ hpublished htaken hidle]
    split
    next h => exact List.count_eq_one_of_mem (nodup_subscribersOf _ _) (mem_subscribersOf.mpr h)
    next h => exact List.count_eq_zero.mpr fun hmem => h (mem_subscribersOf.mp hmem)
  recorded delivery hmem := (wf.recorded delivery hmem).2

/-- When an outermost `dispatch` returns, the queue is empty and every event published so far has
reached exactly the callbacks that had subscribed for its type when it was taken, each once,
whatever the callbacks have done meanwhile. -/
theorem dispatch_delivers_once {actions : List (Action τ α)} {action : Action τ α}
    (run : step.exec {} actions = some s) (outermost : s.stack = [.dispatch])
    (hstep : step s action = some t) (returned : t.stack = []) : t.Settled := by
  have wf := invariant_wellFormed.exec wellFormed_initial run
  have after := invariant_wellFormed _ _ _ wf hstep
  apply after.settled returned
  -- only the loop of `dispatch` can take its call off the stack, with nothing left in the queue
  cases action with
  | eventIndex type =>
    obtain rfl := Option.some.inj hstep
    rw [outermost] at returned
    cases returned
  | subscribe type empty =>
    simp only [step, userCode, outermost] at hstep
    cases hstep
  | publish event =>
    simp only [step, userCode, outermost] at hstep
    cases hstep
  | dispatch =>
    simp only [step, userCode, outermost] at hstep
    cases hstep
  | returns =>
    simp only [step, outermost] at hstep
    cases hstep
  | loop =>
    simp only [step, outermost, Option.some.injEq] at hstep
    subst hstep
    simp only [dispatchLoop] at returned ⊢
    split
    next hempty => exact hempty
    next event eventPublishers h =>
      simp only [h] at returned
      split at returned
      · rw [outermost] at returned
        cases returned
      · cases returned

/-- A callback publishes two events, one of a type that nobody has subscribed for, and
dispatches; the delivery inside tries to subscribe. -/
def reentrant : List (Action Nat Nat) :=
  [.subscribe 0 false, .subscribe 1 false, .subscribe 0 false, .publish ⟨0, 7⟩, .dispatch, .loop,
    .loop, .publish ⟨2, 8⟩, .publish ⟨1, 9⟩, .dispatch, .loop, .loop, .loop, .subscribe 1 false,
    .returns, .loop, .loop, .returns, .loop, .returns, .loop]

theorem dispatch_delivers_once_reentrant :
    ∃ s t : Execution Nat Nat, step.exec {} reentrant = some s ∧ step s .loop = some t ∧
      t.Settled ∧ t.delivered.map (fun d => (d.event.value, d.callback)) =
        [(7, 0), (9, 1), (7, 2)] := by
  have run : step.exec {} reentrant = some _ := rfl
  refine ⟨_, _, run, rfl, ?_, rfl⟩
  exact dispatch_delivers_once run rfl (show step _ .loop = some _ from rfl) rfl

end Execution

end Stalker2D.EventBus
