import Stalker2D.Shared.EventDelivery

/-!
# The order of the deliveries

Events leave the queue in the order in which they were published. A callback may still get
a later event first: when a `dispatch` is called from inside a delivery, the events after
it reach everybody before the loop outside goes on to the callbacks it has not reached.
`Suspended` is this situation on the stack, and nothing else changes the order.
-/

namespace Stalker2D.EventBus

variable {τ α : Type} [DecidableEq τ]

theorem sorted_subscribersOf (subscribed : List τ) (type : τ) :
    (subscribersOf subscribed type).Pairwise (· < ·) :=
  List.pairwise_lt_range.filter _

/-- In a sorted list, what comes after an element is what is greater. -/
theorem not_mem_take_iff {numbers : List Nat} (sorted : numbers.Pairwise (· < ·)) {n : Nat}
    (hn : n ∈ numbers) {position : Nat} :
    n ∉ numbers.take (position + 1) ↔ ∃ m, numbers[position]? = some m ∧ m < n := by
  constructor
  · intro hafter
    rw [← List.take_append_drop (position + 1) numbers] at hn sorted
    have hdrop := (List.mem_append.mp hn).resolve_left hafter
    have hlt : position < numbers.length := by
      have hpos := List.length_pos_of_mem hdrop
      rw [List.length_drop] at hpos
      omega
    refine ⟨numbers[position], List.getElem?_eq_getElem hlt, ?_⟩
    apply (List.pairwise_append.mp sorted).2.2 _ _ _ hdrop
    rw [List.take_add_one, List.getElem?_eq_getElem hlt]
    exact List.mem_append_right _ (List.mem_singleton_self _)
  · rintro ⟨m, hm, hlt⟩ hmem
    rw [List.take_add_one, hm] at hmem
    obtain hbefore | hlast := List.mem_append.mp hmem
    · have hin : m ∈ numbers.drop position := by
        rw [List.mem_iff_getElem?]
        exact ⟨0, by rwa [List.getElem?_drop, Nat.add_zero]⟩
      rw [← List.take_append_drop position numbers] at sorted
      exact absurd ((List.pairwise_append.mp sorted).2.2 n hbefore m hin) (Nat.lt_asymm hlt)
    · rw [List.mem_singleton.mp hlast] at hlt
      exact absurd hlt (Nat.lt_irrefl m)

/-- A call that has called a callback or the loop of the other kind, and waits for it. -/
def Frame.waits : Frame τ α → Bool
  | .dispatch => true
  | .publish _ _ _ running _ => running

namespace Execution

variable {s t : Execution τ α}

/-- The events a callback has been called with, in this order. -/
def received (s : Execution τ α) (callback : Nat) : List Nat :=
  (s.delivered.filter (·.callback = callback)).map Delivery.number

/-- The callback was there when the event was taken from the queue, so it is to receive it. -/
def Due (s : Execution τ α) (callback number : Nat) : Prop :=
  ∃ event subscribers, s.published[number]? = some event ∧ s.taken[number]? = some subscribers ∧
    subscribers[callback]? = some event.type

/-- The event is being delivered, and all that happens now happens inside the call of a
callback that comes before this one. -/
def Suspended (s : Execution τ α) (callback number : Nat) : Prop :=
  ∃ event index position caller, .publish event index position true number ∈ s.stack ∧
    (subscribersOf s.subscribed event.type)[position]? = some caller ∧ caller < callback

/-- The step calls a callback with an event. -/
def Starts (s t : Execution τ α) (delivery : Delivery τ α) : Prop :=
  t.delivered = s.delivered ++ [delivery]

/-- Only the innermost call is at work. -/
def Waiting (s : Execution τ α) : Prop := ∀ frame ∈ s.stack.tail, frame.waits = true

/-- What user code does changes neither the record of the calls nor, but for the call it
makes, the stack. -/
theorem step_cases {action : Action τ α} (hstep : step s action = some t) :
    (t.delivered = s.delivered ∧ t.stack = s.stack ∧ t.taken = s.taken ∧
        s.published <+: t.published) ∨
      (action = .dispatch ∧ s.userCode = true ∧ t = { s with stack := .dispatch :: s.stack }) ∨
      (∃ event index position number rest,
        s.stack = .publish event index position true number :: rest ∧
          t = { s with stack := .publish event index (position + 1) false number :: rest }) ∨
      (∃ rest, s.stack = .dispatch :: rest ∧ t = s.dispatchLoop rest) ∨
      ∃ event index position number rest,
        s.stack = .publish event index position false number :: rest ∧
          t = s.publishLoop event index position number rest := by
  cases action with
  | eventIndex type =>
    obtain rfl := Option.some.inj hstep
    exact .inl ⟨rfl, rfl, rfl, List.prefix_rfl⟩
  | subscribe type empty =>
    simp only [step, Option.ite_none_right_eq_some, Option.some.injEq] at hstep
    obtain ⟨-, rfl⟩ := hstep
    simp only [Execution.subscribe]
    split <;> exact .inl ⟨rfl, rfl, rfl, List.prefix_rfl⟩
  | publish event =>
    simp only [step, Option.ite_none_right_eq_some, Option.some.injEq] at hstep
    exact .inl (hstep.2 ▸ ⟨rfl, rfl, rfl, List.prefix_append _ _⟩)
  | dispatch =>
    simp only [step, Option.ite_none_right_eq_some, Option.some.injEq] at hstep
    exact .inr (.inl ⟨rfl, hstep.1, hstep.2.symm⟩)
  | returns =>
    simp only [step] at hstep
    split at hstep
    next event index position number rest hstack =>
      obtain rfl := Option.some.inj hstep
      exact .inr (.inr (.inl ⟨event, index, position, number, rest, hstack, rfl⟩))
    next => cases hstep
  | loop =>
    simp only [step] at hstep
    split at hstep
    next rest hstack =>
      exact .inr (.inr (.inr (.inl ⟨rest, hstack, (Option.some.inj hstep).symm⟩)))
    next event index position number rest hstack =>
      exact .inr (.inr (.inr (.inr ⟨event, index, position, number, rest, hstack,
        (Option.some.inj hstep).symm⟩)))
    next => cases hstep

/-- `dispatch` returns, has nobody to deliver to, or calls the loop that delivers. -/
theorem dispatchLoop_frame (s : Execution τ α) (rest : List (Frame τ α))
    (hstack : s.stack = .dispatch :: rest) :
    (s.dispatchLoop rest).delivered = s.delivered ∧
      ((s.dispatchLoop rest).stack = rest ∨ (s.dispatchLoop rest).stack = s.stack ∨
        ∃ event index number, (s.dispatchLoop rest).stack =
          .publish event index 0 false number :: s.stack) := by
  simp only [dispatchLoop]
  split
  · exact ⟨rfl, .inl rfl⟩
  next event eventPublishers h =>
    split
    · exact ⟨rfl, .inr (.inl rfl)⟩
    · exact ⟨rfl, .inr (.inr ⟨_, _, _, by rw [hstack]⟩)⟩

theorem invariant_waiting : (step (τ := τ) (α := α)).Invariant Waiting := by
  intro s action t waiting hstep
  obtain ⟨-, hstack, -⟩ | ⟨-, huser, rfl⟩ | ⟨event, index, position, number, rest, hs, rfl⟩ |
    ⟨rest, hs, rfl⟩ | ⟨event, index, position, number, rest, hs, rfl⟩ := step_cases hstep
  · rwa [Waiting, hstack]
  · intro frame hmem
    rw [List.tail_cons] at hmem
    cases hs : s.stack with
    | nil =>
      rw [hs] at hmem
      cases hmem
    | cons top rest =>
      rw [hs] at hmem
      obtain rfl | hmem := List.mem_cons.mp hmem
      · cases frame with
        | dispatch => rfl
        | publish event index position running number => rwa [userCode, hs] at huser
      · exact waiting frame (by rwa [hs])
  · exact fun frame hmem => waiting frame (by rwa [hs])
  · obtain ⟨-, hstack | hstack | ⟨event, index, number, hstack⟩⟩ := s.dispatchLoop_frame rest hs
    · intro frame hmem
      rw [hstack] at hmem
      exact waiting frame (by rw [hs]; exact List.mem_of_mem_tail hmem)
    · rwa [Waiting, hstack]
    · intro frame hmem
      rw [hstack, List.tail_cons, hs] at hmem
      obtain rfl | hmem := List.mem_cons.mp hmem
      · rfl
      · exact waiting frame (by rwa [hs])
  · simp only [publishLoop]
    split
    · intro frame hmem
      exact waiting frame (by rw [hs]; exact List.mem_of_mem_tail hmem)
    · intro frame hmem
      exact waiting frame (by rwa [hs])

/-- A callback is called by the innermost loop, with the event this loop is about. -/
theorem Starts.calls (wf : s.WellFormed) {action : Action τ α} (hstep : step s action = some t)
    {d : Delivery τ α} (starts : s.Starts t d) : ∃ index position rest,
      s.stack = .publish d.event index position false d.number :: rest ∧
        (subscribersOf s.subscribed d.event.type)[position]? = some d.callback := by
  have hnew : t.delivered ≠ s.delivered := by
    rw [show t.delivered = s.delivered ++ [d] from starts]
    simp
  obtain ⟨hsame, -⟩ | ⟨-, -, rfl⟩ | ⟨_, _, _, _, _, -, rfl⟩ | ⟨rest, hs, rfl⟩ |
    ⟨event, index, position, number, rest, hs, rfl⟩ := step_cases hstep
  · exact absurd hsame hnew
  · exact absurd rfl hnew
  · exact absurd rfl hnew
  · exact absurd (s.dispatchLoop_frame rest hs).1 hnew
  · have head := wf.frames event index position false number (hs ▸ List.mem_cons_self)
    simp only [publishLoop, wf.callbacks index event.type head.index] at hnew starts
    split at starts
    next hend =>
      simp only [hend] at hnew
      exact absurd rfl hnew
    next callback hcallback =>
      obtain rfl := List.singleton_inj.mp (List.append_cancel_left starts)
      exact ⟨index, position, rest, hs, hcallback⟩

/-- A callback that starts on an event gets ahead of just those that are suspended. -/
theorem not_mem_deliveries_iff (wf : s.WellFormed) (waiting : s.Waiting) {action : Action τ α}
    (hstep : step s action = some t) {d : Delivery τ α} (starts : s.Starts t d) {number : Nat}
    (hlt : number < d.number) (due : s.Due d.callback number) :
    d.callback ∉ s.deliveries number ↔ s.Suspended d.callback number := by
  obtain ⟨index, position, rest, hs, -⟩ := starts.calls wf hstep
  constructor
  · intro hnot
    obtain ⟨event, subscribers, hpublished, htaken, hcallback⟩ := due
    have hin : number ∈ s.delivering := by
      by_contra hout
      rw [wf.finished number event subscribers hpublished htaken hout] at hnot
      exact hnot (mem_subscribersOf.mpr hcallback)
    obtain ⟨frame, hmem, hnumber⟩ := List.mem_filterMap.mp hin
    cases frame with
    | dispatch => cases hnumber
    | publish event' index' position' running number' =>
      obtain rfl := Option.some.inj hnumber
      have below := wf.frames event' index' position' running number' hmem
      obtain rfl := Option.some.inj (below.published.symm.trans hpublished)
      obtain rfl := Option.some.inj (below.taken.symm.trans htaken)
      -- it is not the innermost loop, whose event is a later one
      have hrunning : running = true := by
        rw [hs] at hmem
        obtain hmem | hmem := List.mem_cons.mp hmem
        · cases hmem
          exact absurd hlt (Nat.lt_irrefl _)
        · exact waiting _ (by rwa [hs])
      subst hrunning
      rw [below.delivered] at hnot
      obtain ⟨caller, hcaller, hbefore⟩ :=
        (not_mem_take_iff (sorted_subscribersOf _ _) (mem_subscribersOf.mpr hcallback)).mp hnot
      exact ⟨event', index', position', caller, hmem, hcaller, hbefore⟩
  · rintro ⟨event, index', position', caller, hmem, hcaller, hbefore⟩ hin
    have below := wf.frames event index' position' true number hmem
    rw [below.delivered] at hin
    exact (not_mem_take_iff (sorted_subscribersOf _ _) (List.mem_of_mem_take hin)).mpr
      ⟨caller, hcaller, hbefore⟩ hin

/-- The record only grows. -/
theorem record_step {action : Action τ α} (hstep : step s action = some t) :
    s.published <+: t.published ∧ s.taken <+: t.taken := by
  obtain ⟨-, -, htaken, hpublished⟩ | ⟨-, -, rfl⟩ | ⟨_, _, _, _, _, -, rfl⟩ | ⟨rest, -, rfl⟩ |
    ⟨event, index, position, number, rest, -, rfl⟩ := step_cases hstep
  · exact ⟨hpublished, htaken ▸ List.prefix_rfl⟩
  · exact ⟨List.prefix_rfl, List.prefix_rfl⟩
  · exact ⟨List.prefix_rfl, List.prefix_rfl⟩
  · simp only [dispatchLoop]
    split
    · exact ⟨List.prefix_rfl, List.prefix_rfl⟩
    · split <;> exact ⟨List.prefix_rfl, List.prefix_append _ _⟩
  · simp only [publishLoop]
    split <;> exact ⟨List.prefix_rfl, List.prefix_rfl⟩

theorem Due.of_step (wf : s.WellFormed) {action : Action τ α} (hstep : step s action = some t)
    {callback number : Nat} (hlt : number < s.taken.length) (due : t.Due callback number) :
    s.Due callback number := by
  obtain ⟨⟨published, hpublished⟩, taken, htaken⟩ := record_step hstep
  obtain ⟨event, subscribers, hevent, hsubscribers, hcallback⟩ := due
  rw [← hpublished, List.getElem?_append_left (Nat.lt_of_lt_of_le hlt wf.taken)] at hevent
  rw [← htaken, List.getElem?_append_left hlt] at hsubscribers
  exact ⟨event, subscribers, hevent, hsubscribers, hcallback⟩

/-- Either nobody is called, or one callback with one event. -/
theorem delivered_step {action : Action τ α} (hstep : step s action = some t) :
    t.delivered = s.delivered ∨ ∃ d, s.Starts t d := by
  obtain ⟨hsame, -⟩ | ⟨-, -, rfl⟩ | ⟨_, _, _, _, _, -, rfl⟩ | ⟨rest, hs, rfl⟩ |
    ⟨event, index, position, number, rest, hs, rfl⟩ := step_cases hstep
  · exact .inl hsame
  · exact .inl rfl
  · exact .inl rfl
  · exact .inl (s.dispatchLoop_frame rest hs).1
  · simp only [publishLoop]
    split
    · exact .inl rfl
    · exact .inr ⟨_, rfl⟩

/-- The callback has received whatever it was to receive before the events it has received. -/
def Complete (callback : Nat) (s : Execution τ α) : Prop :=
  ∀ n ∈ s.received callback, ∀ m < n, s.Due callback m → callback ∈ s.deliveries m

omit [DecidableEq τ] in
theorem mem_received {callback number : Nat} :
    number ∈ s.received callback ↔ callback ∈ s.deliveries number := by
  simp only [received, deliveries, List.mem_map, List.mem_filter, decide_eq_true_eq]
  constructor
  · rintro ⟨d, ⟨hmem, hcallback⟩, hnumber⟩
    exact ⟨d, ⟨hmem, hnumber⟩, hcallback⟩
  · rintro ⟨d, ⟨hmem, hnumber⟩, hcallback⟩
    exact ⟨d, ⟨hmem, hcallback⟩, hnumber⟩

omit [DecidableEq τ] in
theorem received_of_starts {d : Delivery τ α} (starts : s.Starts t d) (callback : Nat) :
    t.received callback =
      s.received callback ++ if d.callback = callback then [d.number] else [] := by
  simp only [received, show t.delivered = s.delivered ++ [d] from starts]
  exact map_filter_concat s.delivered d Delivery.number (·.callback = callback)

/-- The callback that is called now has not been called with this event before. -/
theorem Starts.fresh (wf : s.WellFormed) {action : Action τ α} (hstep : step s action = some t)
    {d : Delivery τ α} (starts : s.Starts t d) :
    s.Due d.callback d.number ∧ d.callback ∉ s.deliveries d.number := by
  obtain ⟨index, position, rest, hs, hcallback⟩ := starts.calls wf hstep
  have head := wf.frames d.event index position false d.number (hs ▸ List.mem_cons_self)
  have hmem := List.mem_of_getElem? hcallback
  refine ⟨⟨d.event, s.subscribed, head.published, head.taken, mem_subscribersOf.mp hmem⟩, ?_⟩
  rw [head.delivered]
  intro hin
  obtain ⟨place, hplace, hsame⟩ := List.mem_take_iff_getElem.mp hin
  have hlt : place < (subscribersOf s.subscribed d.event.type).length := by omega
  have heq := (List.getElem?_inj hlt (nodup_subscribersOf _ _)).mp
    ((List.getElem?_eq_getElem hlt).trans (hsame ▸ hcallback.symm))
  simp only [Bool.toNat_false] at hplace
  omega

/-- What a callback that never gets ahead has received. -/
structure Ordered (callback : Nat) (s : Execution τ α) : Prop where
  wellFormed : s.WellFormed
  waiting : s.Waiting
  complete : Complete callback s
  sorted : (s.received callback).Pairwise (· < ·)

/-- A start of the callback on an event while an earlier one it is to receive is suspended. -/
def Overtakes (s t : Execution τ α) (callback : Nat) : Prop :=
  ∃ d, s.Starts t d ∧ d.callback = callback ∧
    ∃ m < d.number, s.Due callback m ∧ s.Suspended callback m

theorem Ordered.kept {callback : Nat} (ordered : Ordered callback s) {action : Action τ α}
    (hstep : step s action = some t) (honly : ¬Overtakes s t callback) : Ordered callback t := by
  obtain ⟨wf, waiting, complete, sorted⟩ := ordered
  have after : t.WellFormed := invariant_wellFormed _ _ _ wf hstep
  have htaken : ∀ n ∈ s.received callback, n < s.taken.length := by
    intro n hn
    obtain ⟨d, hmem, rfl⟩ := List.mem_map.mp hn
    exact (wf.recorded d (List.mem_of_mem_filter hmem)).1
  have hgrows : ∀ n, callback ∈ s.deliveries n → callback ∈ t.deliveries n := by
    intro n hn
    obtain hsame | ⟨d, starts⟩ := delivered_step hstep
    · rwa [deliveries, hsame]
    · rw [← mem_received] at hn ⊢
      rw [received_of_starts starts]
      exact List.mem_append_left _ hn
  have hold : ∀ n ∈ s.received callback, ∀ m < n, t.Due callback m →
      callback ∈ t.deliveries m := by
    intro n hn m hm due
    have hin := complete n hn m hm (due.of_step wf hstep (Nat.lt_trans hm (htaken n hn)))
    exact hgrows m hin
  have hunchanged : t.received callback = s.received callback → Ordered callback t := by
    intro hsame
    refine ⟨after, invariant_waiting _ _ _ waiting hstep, ?_, hsame ▸ sorted⟩
    rwa [Complete, hsame]
  obtain hsame | ⟨d, starts⟩ := delivered_step hstep
  · exact hunchanged (by rw [received, hsame, received])
  · have hreceived := received_of_starts starts callback
    by_cases hcallback : d.callback = callback
    · subst hcallback
      rw [if_pos rfl] at hreceived
      obtain ⟨hdue, hfresh⟩ := starts.fresh wf hstep
      have hnext : ∀ m < d.number, s.Due d.callback m → d.callback ∈ s.deliveries m := by
        intro m hm due
        by_contra hnot
        have hsuspended := (not_mem_deliveries_iff wf waiting hstep starts hm due).mp hnot
        exact honly ⟨d, starts, rfl, m, hm, due, hsuspended⟩
      -- what it has received came before, or it would have received this event with it
      have hbefore : ∀ n ∈ s.received d.callback, n < d.number := by
        intro n hn
        by_contra hge
        obtain heq | hlt := Nat.eq_or_lt_of_le (Nat.le_of_not_lt hge)
        · exact hfresh (mem_received.mp (heq ▸ hn))
        · exact hfresh (complete n hn d.number hlt hdue)
      refine ⟨after, invariant_waiting _ _ _ waiting hstep, ?_, ?_⟩
      · intro n hn m hm due
        rw [hreceived] at hn
        obtain hn | hn := List.mem_append.mp hn
        · exact hold n hn m hm due
        · obtain rfl := List.mem_singleton.mp hn
          have htop : d.number < s.taken.length := by
            obtain ⟨-, subscribers, -, hsubscribers, -⟩ := hdue
            exact (List.getElem?_eq_some_iff.mp hsubscribers).1
          exact hgrows m (hnext m hm (due.of_step wf hstep (Nat.lt_trans hm htop)))
      · rw [hreceived, List.pairwise_append]
        refine ⟨sorted, List.pairwise_singleton _ _, fun n hn m hm => ?_⟩
        rw [List.mem_singleton.mp hm]
        exact hbefore n hn
    · rw [if_neg hcallback, List.append_nil] at hreceived
      exact hunchanged hreceived

theorem ordered_initial (callback : Nat) : Ordered callback ({} : Execution τ α) where
  wellFormed := wellFormed_initial
  waiting _ h := by cases h
  complete _ h := by cases h
  sorted := List.Pairwise.nil

/-- A callback that never gets ahead receives its events in the order of their publication. -/
theorem received_sorted {actions : List (Action τ α)} {callback : Nat}
    (run : step.exec {} actions = some s)
    (honly : step.Along (fun s _ t => ¬Overtakes s t callback) {} actions) :
    (s.received callback).Pairwise (· < ·) :=
  (honly.exec (fun _ _ _ ordered hstep => ordered.kept hstep) (ordered_initial callback) run).sorted

/-- What the stack is as long as nobody dispatches from inside a delivery. -/
def Flat (s : Execution τ α) : Prop :=
  s.stack = [] ∨ s.stack = [.dispatch] ∨ ∃ event index position running number,
    s.stack = [.publish event index position running number, .dispatch]

omit [DecidableEq τ] in
theorem Flat.below_dispatch (flat : s.Flat) {rest : List (Frame τ α)}
    (hs : s.stack = .dispatch :: rest) : rest = [] := by
  rw [Flat, hs] at flat
  obtain hnil | htop | ⟨_, _, _, _, _, htop⟩ := flat
  · cases hnil
  · exact (List.cons.inj htop).2
  · cases (List.cons.inj htop).1

omit [DecidableEq τ] in
theorem Flat.below_publish (flat : s.Flat) {event : Event τ α} {index position number : Nat}
    {running : Bool} {rest : List (Frame τ α)}
    (hs : s.stack = .publish event index position running number :: rest) :
    rest = [.dispatch] := by
  rw [Flat, hs] at flat
  obtain hnil | htop | ⟨_, _, _, _, _, htop⟩ := flat
  · cases hnil
  · cases (List.cons.inj htop).1
  · exact (List.cons.inj htop).2

theorem Flat.kept (flat : s.Flat) {action : Action τ α} (hstep : step s action = some t)
    (houtside : action = .dispatch → s.stack = []) : t.Flat := by
  obtain ⟨-, hstack, -⟩ | ⟨rfl, -, rfl⟩ | ⟨event, index, position, number, rest, hs, rfl⟩ |
    ⟨rest, hs, rfl⟩ | ⟨event, index, position, number, rest, hs, rfl⟩ := step_cases hstep
  · rwa [Flat, hstack]
  · rw [houtside rfl]
    exact .inr (.inl rfl)
  · obtain rfl := flat.below_publish hs
    exact .inr (.inr ⟨_, _, _, _, _, rfl⟩)
  · obtain rfl := flat.below_dispatch hs
    obtain ⟨-, hstack | hstack | ⟨event, index, number, hstack⟩⟩ := s.dispatchLoop_frame [] hs
    · exact .inl hstack
    · exact .inr (.inl (hstack.trans hs))
    · rw [hs] at hstack
      exact .inr (.inr ⟨_, _, _, _, _, hstack⟩)
  · obtain rfl := flat.below_publish hs
    simp only [publishLoop]
    split
    · exact .inr (.inl rfl)
    · exact .inr (.inr ⟨_, _, _, _, _, rfl⟩)

/-- There is nothing to get ahead of. -/
theorem Flat.not_overtakes (flat : s.Flat) (wf : s.WellFormed) {action : Action τ α}
    (hstep : step s action = some t) (callback : Nat) : ¬Overtakes s t callback := by
  rintro ⟨d, starts, -, m, -, -, event', index', position', caller, hmem, -⟩
  obtain ⟨index, position, rest, hs, -⟩ := starts.calls wf hstep
  rw [hs, flat.below_publish hs] at hmem
  obtain hmem | hmem := List.mem_cons.mp hmem
  · cases hmem
  · cases List.mem_singleton.mp hmem

theorem received_sorted_of_flat {actions : List (Action τ α)}
    (run : step.exec {} actions = some s)
    (houtside : step.Along (fun s action _ => action = .dispatch → s.stack = []) {} actions)
    (callback : Nat) : (s.received callback).Pairwise (· < ·) := by
  have ordered : ∀ (s : Execution τ α) e t, Ordered callback s ∧ s.Flat → step s e = some t →
      (e = .dispatch → s.stack = []) → Ordered callback t ∧ t.Flat := by
    rintro s e t ⟨ordered, flat⟩ hstep hdispatch
    have honly := flat.not_overtakes ordered.wellFormed hstep callback
    exact ⟨ordered.kept hstep honly, flat.kept hstep hdispatch⟩
  exact (houtside.exec ordered ⟨ordered_initial callback, .inl rfl⟩ run).1.sorted

/-- Events leave the queue in the order of their publication. A callback starts on an event
ahead of an earlier one it is to receive exactly when the earlier one is suspended, in the
call of a callback before it; one that never does receives its events in order, and so does
every callback where nobody dispatches from inside a delivery. -/
theorem delivery_order {actions : List (Action τ α)} (run : step.exec {} actions = some s) :
    s.bus.eventPublishers = s.published.drop s.taken.length ∧
      step.Along (fun s _ t => ∀ d, s.Starts t d → ∀ m < d.number, s.Due d.callback m →
        (d.callback ∉ s.deliveries m ↔ s.Suspended d.callback m)) {} actions ∧
      (∀ callback, step.Along (fun s _ t => ¬Overtakes s t callback) {} actions →
        (s.received callback).Pairwise (· < ·)) ∧
      (step.Along (fun s action _ => action = .dispatch → s.stack = []) {} actions →
        ∀ callback, (s.received callback).Pairwise (· < ·)) := by
  have invariant : (step (τ := τ) (α := α)).Invariant fun s => s.WellFormed ∧ s.Waiting :=
    fun s e t h hstep => ⟨invariant_wellFormed s e t h.1 hstep, invariant_waiting s e t h.2 hstep⟩
  have initial : WellFormed ({} : Execution τ α) ∧ Waiting ({} : Execution τ α) :=
    ⟨wellFormed_initial, fun _ h => nomatch h⟩
  refine ⟨(invariant.exec initial run).1.queue, ?starts, ?never, received_sorted_of_flat run⟩
  case starts =>
    apply invariant.along _ initial
    rintro s e t ⟨wf, waiting⟩ hstep d starts m hm due
    exact not_mem_deliveries_iff wf waiting hstep starts hm due
  case never =>
    intro callback honly
    exact received_sorted run honly

/-- Two callbacks, two events, one `dispatch`. -/
def inTurn : List (Action Nat Nat) :=
  [.subscribe 0 false, .subscribe 0 false, .publish ⟨0, 7⟩, .publish ⟨0, 8⟩, .dispatch, .loop,
    .loop, .returns, .loop, .returns, .loop, .loop, .loop, .returns, .loop, .returns, .loop, .loop]

theorem delivery_order_in_turn :
    ∃ s, step.exec {} inTurn = some s ∧ s.received 1 = [0, 1] ∧
      (s.received 1).Pairwise (· < ·) := by
  have run : step.exec {} inTurn = some _ := rfl
  exact ⟨_, run, rfl, (delivery_order run).2.2.2 (by decide) 1⟩

/-- The first callback publishes a second event and dispatches. -/
def overtaking : List (Action Nat Nat) :=
  [.subscribe 0 false, .subscribe 0 false, .publish ⟨0, 7⟩, .dispatch, .loop, .loop,
    .publish ⟨0, 8⟩, .dispatch, .loop, .loop, .returns, .loop, .returns, .loop, .loop, .returns,
    .loop, .returns, .loop, .loop]

/-- The second callback then has the second event before the first. -/
theorem publication_order_broken :
    ¬∀ (actions : List (Action Nat Nat)) (s : Execution Nat Nat),
      step.exec {} actions = some s → ∀ callback, (s.received callback).Pairwise (· < ·) := by
  intro h
  have hreceived := h overtaking _ rfl 1
  exact absurd hreceived (by decide)

end Execution

end Stalker2D.EventBus
