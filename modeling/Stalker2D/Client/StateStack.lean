import Stalker2D.Client.Interactivity

/-!
# Stack, mounted roots and queued changes

The stack is what the accepted changes make of the initial state, one after
another in the order of the requests; the queue is what is left of them. The
mounted roots are the roots of the stack from bottom to top.

A batch applies its changes until one fails, and only a pop of the last state
fails. That pop is gone from the queue with everything before it, and everything
behind it waits for the next update.
-/

namespace Stalker2D.Client

/-- What a change makes of a stack; the last state cannot be popped. -/
def PendingChange.applied (stack : List ApplicationState) :
    PendingChange → Option (List ApplicationState)
  | .push state => some (stack ++ [state])
  | .resetTo state => some [state]
  | .pop => if stack.length = 1 then none else some stack.dropLast

/-- The stack after a change has been taken off the queue, applied or not. -/
def PendingChange.consumed (stack : List ApplicationState) (change : PendingChange) :
    List ApplicationState := (change.applied stack).getD stack

theorem PendingChange.applied_eq_none {stack : List ApplicationState} {change : PendingChange} :
    change.applied stack = none ↔ change = .pop ∧ stack.length = 1 := by
  cases change with
  | push state => simp [applied]
  | resetTo state => simp [applied]
  | pop => simp [applied]

/-- Changes that all succeed are consumed to the same effect. -/
theorem PendingChange.foldl_consumed {stack final : List ApplicationState}
    {changes : List PendingChange} (h : changes.foldlM applied stack = some final) :
    changes.foldl consumed stack = final := by
  induction changes generalizing stack with
  | nil => exact Option.some.inj h
  | cons change changes ih =>
    rw [List.foldlM_cons] at h
    obtain ⟨next, hnext, hrest⟩ := Option.bind_eq_some_iff.mp h
    rw [List.foldl_cons, consumed, hnext, Option.getD_some]
    exact ih hrest

/-- The change a request queues; a null state is refused. -/
def Request.change : Request → Option PendingChange
  | .push state => state.map .push
  | .resetTo state => state.map .resetTo
  | .pop => some .pop

/-- The changes queued by requests made in order, up to the first that throws. -/
def Request.accepted : List Request → List PendingChange
  | [] => []
  | request :: requests =>
    match request.change with
    | none => []
    | some change => change :: accepted requests

namespace StateManager

theorem request_eq (manager : StateManager) (r : Request) :
    (r.change = none ∧ ∃ e, manager.request r = (.error e, manager)) ∨
      ∃ change, r.change = some change ∧ manager.request r =
        (.ok (), { manager with pendingChanges := manager.pendingChanges ++ [change] }) := by
  cases r with
  | push state =>
    cases state with
    | none => exact .inl ⟨rfl, _, rfl⟩
    | some state => exact .inr ⟨_, rfl, rfl⟩
  | resetTo state =>
    cases state with
    | none => exact .inl ⟨rfl, _, rfl⟩
    | some state => exact .inr ⟨_, rfl, rfl⟩
  | pop => exact .inr ⟨_, rfl, rfl⟩

/-- Requests queue their changes in order until one throws. -/
theorem sequence_request (manager : StateManager) (rs : List Request) :
    (sequence request manager rs).2 =
        { manager with pendingChanges := manager.pendingChanges ++ Request.accepted rs } ∧
      ((sequence request manager rs).1 = .ok () ↔ ∀ r ∈ rs, r.change ≠ none) := by
  induction rs generalizing manager with
  | nil => simp [sequence, Request.accepted]
  | cons r rs ih =>
    obtain ⟨hnone, e, h⟩ | ⟨change, hsome, h⟩ := manager.request_eq r
    · simp [sequence, h, Request.accepted, hnone]
    · obtain ⟨hqueue, hok⟩ := ih { manager with
        pendingChanges := manager.pendingChanges ++ [change] }
      simp only [sequence, h, hqueue, hok, Request.accepted, hsome]
      simp [hsome]

theorem sequence_append (rs qs : List Request) (manager : StateManager) :
    (∀ e next, sequence request manager rs = (.error e, next) →
      sequence request manager (rs ++ qs) = (.error e, next)) ∧
      ∀ u next, sequence request manager rs = (.ok u, next) →
        sequence request manager (rs ++ qs) = sequence request next qs := by
  induction rs generalizing manager with
  | nil => simp [sequence]
  | cons r rs ih =>
    simp only [List.cons_append, sequence]
    rcases request manager r with ⟨e | _, next⟩
    · simp
    · exact ih next

/-- Callbacks of several states are one sequence of requests. -/
theorem sequence_flatMap (requests : ApplicationState → List Request) (manager : StateManager)
    (states : List ApplicationState) :
    sequence (fun manager state => sequence request manager (requests state)) manager states =
      sequence request manager (states.flatMap requests) := by
  induction states generalizing manager with
  | nil => rfl
  | cons state states ih =>
    obtain ⟨herror, hok⟩ := sequence_append (requests state) (states.flatMap requests) manager
    rw [List.flatMap_cons, sequence]
    rcases hcall : sequence request manager (requests state) with ⟨e | _, next⟩
    · exact (herror e next hcall).symm
    · exact (ih next).trans (hok _ next hcall).symm

/-- The loop of `update` and `handleNetworkResult` from `index` on, and the states it
calls. The size and the elements are read anew in every round. -/
def visitStates (requests : ApplicationState → List Request) :
    Nat → StateManager → Nat → List ApplicationState × Except Exception Unit × StateManager
  | 0, manager, _ => ([], .ok (), manager)
  | rounds + 1, manager, index =>
    match manager.states[index]? with
    | none => ([], .ok (), manager)
    | some state =>
      match sequence request manager (requests state) with
      | (.error e, next) => ([state], .error e, next)
      | (.ok _, next) =>
        let visited := visitStates requests rounds next (index + 1)
        (state :: visited.1, visited.2)

/-- Requests do not reach the stack, so the loop calls the states that were there when it
began, whatever they request, and stops early only when one of them throws. -/
theorem visitStates_eq (requests : ApplicationState → List Request) {rounds index : Nat}
    {manager : StateManager} (h : manager.states.length ≤ index + rounds) :
    (visitStates requests rounds manager index).2 =
        sequence (fun manager state => sequence request manager (requests state)) manager
          (manager.states.drop index) ∧
      (visitStates requests rounds manager index).1 <+: manager.states.drop index ∧
      ((visitStates requests rounds manager index).2.1 = .ok () →
        (visitStates requests rounds manager index).1 = manager.states.drop index) := by
  induction rounds generalizing manager index with
  | zero =>
    rw [List.drop_eq_nil_of_le (by omega)]
    exact ⟨rfl, List.prefix_rfl, fun _ => rfl⟩
  | succ rounds ih =>
    simp only [visitStates]
    cases hindex : manager.states[index]? with
    | none =>
      rw [List.drop_eq_nil_of_le (List.getElem?_eq_none_iff.mp hindex)]
      exact ⟨rfl, List.prefix_rfl, fun _ => rfl⟩
    | some state =>
      obtain ⟨hlt, hstate⟩ := List.getElem?_eq_some_iff.mp hindex
      have hdrop : manager.states.drop index = state :: manager.states.drop (index + 1) := by
        rw [List.drop_eq_getElem_cons hlt, hstate]
      have hqueue := (sequence_request manager (requests state)).1
      rw [hdrop]
      simp only [sequence]
      rcases hcall : sequence request manager (requests state) with ⟨e | _, next⟩
      · refine ⟨rfl, ?_, ?_⟩
        · rw [List.prefix_cons_iff]
          exact .inr ⟨[], rfl, List.nil_prefix⟩
        · intro hok
          cases hok
      · rw [hcall] at hqueue
        have hstates : next.states = manager.states := by
          dsimp only at hqueue
          rw [hqueue]
        have hlength : next.states.length ≤ index + 1 + rounds := by
          rw [hstates]
          omega
        obtain ⟨hresult, hvisited, hall⟩ := ih hlength
        rw [hstates] at hresult hvisited hall
        refine ⟨hresult, ?_, ?_⟩
        · exact (List.prefix_append_right_inj [state]).mpr hvisited
        · intro hok
          exact congrArg (state :: ·) (hall hok)

theorem foldl_unmount_mounted {states : List ApplicationState} {ui : UiComponent}
    {rest : List Widget} (h : ui.mounted = states.map ApplicationState.root ++ rest) :
    (states.foldl (fun ui old => ui.unmount old.root) ui).mounted = rest := by
  induction states generalizing ui with
  | nil => exact h
  | cons state states ih =>
    rw [List.foldl_cons]
    apply ih
    rw [UiComponent.unmount, h, List.map_cons, List.cons_append, List.erase_cons_head]

/-- The roots of the stack, from bottom to top, are what is mounted. -/
def Mounted (manager : StateManager) : Prop :=
  manager.ui.mounted = manager.states.map ApplicationState.root

theorem refreshInteractivity_mounted (manager : StateManager) :
    manager.refreshInteractivity.ui.mounted = manager.ui.mounted := by
  have hfold : ∀ (states : List ApplicationState) (flag : ApplicationState → Bool)
      (ui : UiComponent), (states.foldl
        (fun ui state => ui.setInteractive state.root (flag state)) ui).mounted = ui.mounted := by
    intro states flag ui
    induction states generalizing ui with
    | nil => rfl
    | cons state states ih => exact ih _
  exact hfold _ _ _

/-- The error of a pop of the last state. -/
def cannotPop : Exception := .logicError "Cannot pop the last application state"

/-- A change does to the stack what `applied` says, and fails when that does. -/
theorem applyChange_eq (manager : StateManager) (change : PendingChange) :
    (change.applied manager.states = none ∧ manager.applyChange change = .error cannotPop) ∨
      ∃ next, change.applied manager.states = some next.states ∧
        manager.applyChange change = .ok next := by
  cases change with
  | push state => exact .inr ⟨_, rfl, rfl⟩
  | resetTo state => exact .inr ⟨_, rfl, rfl⟩
  | pop =>
    by_cases hlast : manager.states.length = 1
    · exact .inl ⟨if_pos hlast, if_pos hlast⟩
    · obtain ⟨ui, hpop⟩ := applyChange_pop_of_ne hlast
      refine .inr ⟨_, ?_, hpop⟩
      exact if_neg hlast

theorem Mounted.applyChange {manager next : StateManager} {change : PendingChange}
    {changes : List PendingChange} (mounted : manager.Mounted)
    (fresh : manager.Fresh (change :: changes)) (h : manager.applyChange change = .ok next) :
    next.Mounted := by
  have hmounted : manager.ui.mounted = manager.states.map ApplicationState.root := mounted
  cases change with
  | push state =>
    cases h
    show manager.ui.mounted ++ [state.root] = _
    rw [hmounted, List.map_append, List.map_singleton]
  | resetTo state =>
    cases h
    apply foldl_unmount_mounted
    show manager.ui.mounted ++ [state.root] = _
    rw [hmounted]
    rfl
  | pop =>
    by_cases hlast : manager.states.length = 1
    · simp [StateManager.applyChange, hlast] at h
    · simp only [StateManager.applyChange, if_neg hlast, Except.ok.injEq] at h
      subst h
      obtain ⟨lower, top, hsplit⟩ :=
        (List.eq_nil_or_concat manager.states).resolve_left fresh.nonempty
      rw [List.concat_eq_append] at hsplit
      have hroots : manager.states.map ApplicationState.root =
          lower.map ApplicationState.root ++ [top.root] := by
        rw [hsplit, List.map_append, List.map_singleton]
      have hbelow : top.root ∉ lower.map ApplicationState.root := by
        have hnodup := (List.nodup_append.mp fresh.nodup).1
        rw [hroots] at hnodup
        intro hmem
        exact (List.nodup_append.mp hnodup).2.2 _ hmem _ (List.mem_singleton_self _) rfl
      simp only [Mounted, hsplit, List.getLast?_concat, Option.elim_some, List.dropLast_concat]
      show manager.ui.mounted.erase top.root = _
      rw [hmounted, hroots, List.erase_append_right _ hbelow, List.erase_cons_head,
        List.append_nil]

/-- How applying a queue of changes ends: all of them were applied, or all up to a pop
that found one state only. -/
inductive Ends (stack : List ApplicationState) (queue : List PendingChange) :
    Except Exception Unit × StateManager → Prop
  | applied (next : StateManager)
      (all : queue.foldlM PendingChange.applied stack = some next.states)
      (empty : next.pendingChanges = []) : Ends stack queue (.ok (), next)
  | failed (before after : List PendingChange) (next : StateManager)
      (split : queue = before ++ .pop :: after)
      (earlier : before.foldlM PendingChange.applied stack = some next.states)
      (last : next.states.length = 1) (rest : next.pendingChanges = after) :
      Ends stack queue (.error cannotPop, next)

theorem Ends.cons {stack next : List ApplicationState} {change : PendingChange}
    {changes : List PendingChange} {result : Except Exception Unit × StateManager}
    (hnext : change.applied stack = some next) (h : Ends next changes result) :
    Ends stack (change :: changes) result := by
  cases h with
  | applied final all empty =>
    apply Ends.applied final _ empty
    rw [List.foldlM_cons, hnext]
    exact all
  | failed before after final split earlier last rest =>
    refine .failed (change :: before) after final (by rw [split]; rfl) ?_ last rest
    rw [List.foldlM_cons, hnext]
    exact earlier

/-- The loop stops at the first change that fails. -/
theorem applyChanges_ends (manager : StateManager) (changes : List PendingChange) :
    Ends manager.states changes (manager.applyChanges changes) := by
  induction changes generalizing manager with
  | nil => exact .applied _ rfl rfl
  | cons change changes ih =>
    obtain ⟨hnone, h⟩ | ⟨next, hsome, h⟩ := manager.applyChange_eq change
    · obtain ⟨rfl, hlast⟩ := PendingChange.applied_eq_none.mp hnone
      simp only [applyChanges, h]
      exact .failed [] changes _ rfl rfl hlast rfl
    · simp only [applyChanges, h]
      exact (ih next).cons hsome

theorem applyPendingChanges_ends (manager : StateManager) :
    Ends manager.states manager.pendingChanges manager.applyPendingChanges := by
  simp only [applyPendingChanges]
  split
  next hempty =>
    rw [List.isEmpty_iff] at hempty
    exact .applied manager (by rw [hempty]; rfl) hempty
  next => exact manager.applyChanges_ends _

theorem Mounted.applyChanges {manager : StateManager} {changes : List PendingChange}
    (mounted : manager.Mounted) (fresh : manager.Fresh changes) :
    (manager.applyChanges changes).2.Mounted := by
  induction changes generalizing manager with
  | nil => exact (refreshInteractivity_mounted _).trans mounted
  | cons change changes ih =>
    obtain ⟨-, h⟩ | ⟨next, -, h⟩ := manager.applyChange_eq change
    · simp only [StateManager.applyChanges, h]
      exact mounted
    · simp only [StateManager.applyChanges, h]
      exact ih (mounted.applyChange fresh h) (fresh.applyChange h)

theorem Mounted.applyPendingChanges {manager : StateManager} (mounted : manager.Mounted)
    (fresh : manager.Fresh manager.pendingChanges) : manager.applyPendingChanges.2.Mounted := by
  simp only [StateManager.applyPendingChanges]
  split
  · exact mounted
  · exact mounted.applyChanges fresh

/-- A batch takes changes off the front of the queue and consumes them in that order. -/
theorem Ends.consumed {stack : List ApplicationState} {queue : List PendingChange}
    {result : Except Exception Unit × StateManager} (h : Ends stack queue result) :
    ∃ processed, queue = processed ++ result.2.pendingChanges ∧
      result.2.states = processed.foldl PendingChange.consumed stack := by
  cases h with
  | applied next all empty =>
    exact ⟨queue, by simp [empty], (PendingChange.foldl_consumed all).symm⟩
  | failed before after next split earlier last rest =>
    refine ⟨before ++ [.pop], by simp [split, rest], ?_⟩
    rw [List.foldl_append, PendingChange.foldl_consumed earlier]
    have hnone := PendingChange.applied_eq_none.mpr ⟨rfl, last⟩
    rw [List.foldl_cons, PendingChange.consumed, hnone]
    rfl

/-- `handleEvent`: the top state may make requests. -/
def handleEvent (manager : StateManager) (requests : ApplicationState → List Request) :
    Except Exception Unit × StateManager :=
  match manager.states.getLast? with
  | none => (.ok (), manager)
  | some top => sequence request manager (requests top)

/-- The states `update` or `handleNetworkResult` calls, and what comes of their requests. -/
def visit (manager : StateManager) (updatesBelow : ApplicationState → Bool)
    (requests : ApplicationState → List Request) :
    List ApplicationState × Except Exception Unit × StateManager :=
  visitStates requests manager.states.length manager (manager.firstUpdatedState updatesBelow)

def handleNetworkResult (manager : StateManager) (updatesBelow : ApplicationState → Bool)
    (requests : ApplicationState → List Request) : Except Exception Unit × StateManager :=
  (manager.visit updatesBelow requests).2

/-- What is requested while the states of an update are called, in order. -/
def requested (manager : StateManager) (updatesBelow : ApplicationState → Bool)
    (requests : ApplicationState → List Request) : List Request :=
  (manager.updatedStates updatesBelow).flatMap requests

theorem visit_eq (manager : StateManager) (updatesBelow : ApplicationState → Bool)
    (requests : ApplicationState → List Request) :
    (manager.visit updatesBelow requests).2 = manager.updateStates updatesBelow requests ∧
      (manager.visit updatesBelow requests).1 <+: manager.updatedStates updatesBelow ∧
      ((manager.visit updatesBelow requests).2.1 = .ok () →
        (manager.visit updatesBelow requests).1 = manager.updatedStates updatesBelow) :=
  visitStates_eq requests (Nat.le_add_left _ _)

theorem updateStates_eq (manager : StateManager) (updatesBelow : ApplicationState → Bool)
    (requests : ApplicationState → List Request) :
    manager.updateStates updatesBelow requests =
      sequence request manager (manager.requested updatesBelow requests) :=
  sequence_flatMap requests manager _

/-- The queue an update finds when its states have been called. -/
def queued (manager : StateManager) (updatesBelow : ApplicationState → Bool)
    (requests : ApplicationState → List Request) : List PendingChange :=
  manager.pendingChanges ++ Request.accepted (manager.requested updatesBelow requests)

/-- How an update ends: a called state throws and no change is applied, or the queue is
worked off. -/
inductive UpdateEnds (manager : StateManager) (updatesBelow : ApplicationState → Bool)
    (requests : ApplicationState → List Request) : Prop
  | threw (e : Exception) (null : ∃ r ∈ manager.requested updatesBelow requests, r.change = none)
      (result : manager.update updatesBelow requests =
        (.error e, { manager with pendingChanges := manager.queued updatesBelow requests }))
  | ran (nonnull : ∀ r ∈ manager.requested updatesBelow requests, r.change ≠ none)
      (ends : Ends manager.states (manager.queued updatesBelow requests)
        (manager.update updatesBelow requests))

theorem updateEnds (manager : StateManager) (updatesBelow : ApplicationState → Bool)
    (requests : ApplicationState → List Request) : manager.UpdateEnds updatesBelow requests := by
  obtain ⟨hqueue, hok⟩ :=
    sequence_request manager (manager.requested updatesBelow requests)
  rw [← updateStates_eq] at hqueue hok
  rcases hcall : manager.updateStates updatesBelow requests with ⟨e | _, next⟩
  · rw [hcall] at hqueue hok
    dsimp only at hqueue
    subst hqueue
    apply UpdateEnds.threw e
    · simpa using hok
    · simp only [update, hcall]
      rfl
  · rw [hcall] at hqueue hok
    dsimp only at hqueue
    subst hqueue
    apply UpdateEnds.ran (hok.mp rfl)
    simp only [update, hcall]
    exact applyPendingChanges_ends
      { manager with pendingChanges := manager.queued updatesBelow requests }

end StateManager

open StateManager

/-- A session together with all the changes it ever accepted, in the order of the requests. -/
structure Stack extends Session where
  accepted : List PendingChange

/-- A public call, with what the states called in it do. -/
inductive Stack.Call
  | request (request : Request)
  | handleEvent (requests : ApplicationState → List Request)
  | handleNetworkResult (updatesBelow : ApplicationState → Bool)
      (requests : ApplicationState → List Request)
  | update (updatesBelow : ApplicationState → Bool) (requests : ApplicationState → List Request)

namespace Stack

def perform (manager : StateManager) : Call → Except Exception Unit × StateManager
  | .request r => manager.request r
  | .handleEvent requests => manager.handleEvent requests
  | .handleNetworkResult updatesBelow requests =>
    manager.handleNetworkResult updatesBelow requests
  | .update updatesBelow requests => manager.update updatesBelow requests

/-- The requests made in a call. -/
def requests (manager : StateManager) : Call → List Request
  | .request r => [r]
  | .handleEvent requests => manager.states.getLast?.elim [] requests
  | .handleNetworkResult updatesBelow requests => manager.requested updatesBelow requests
  | .update updatesBelow requests => manager.requested updatesBelow requests

def start (first : ApplicationState) : Stack := { Session.start first with accepted := [] }

/-- Every requested state comes with a root of its own. -/
def step : Machine Stack Call := fun stack call =>
  let new := (requests stack.manager call).flatMap Request.roots
  if (new ++ stack.seen).Nodup then
    some
      { manager := (perform stack.manager call).2
        seen := new ++ stack.seen
        accepted := stack.accepted ++ Request.accepted (requests stack.manager call) }
  else none

/-- The queue a call leaves before any of it is applied. -/
def enqueued (manager : StateManager) (call : Call) : StateManager :=
  { manager with
    pendingChanges := manager.pendingChanges ++ Request.accepted (requests manager call) }

theorem accepted_roots (rs : List Request) :
    ((Request.accepted rs).flatMap PendingChange.roots).Sublist (rs.flatMap Request.roots) := by
  induction rs with
  | nil => exact List.Sublist.refl _
  | cons r rs ih =>
    cases hchange : r.change with
    | none => simp [Request.accepted, hchange]
    | some change =>
      have hroots : change.roots = r.roots := by
        cases r with
        | push state => cases state <;> simp_all [Request.change, Request.roots,
            PendingChange.roots, eq_comm]
        | resetTo state => cases state <;> simp_all [Request.change, Request.roots,
            PendingChange.roots, eq_comm]
        | pop => simp_all [Request.change, Request.roots, PendingChange.roots, eq_comm]
      simp only [Request.accepted, hchange, List.flatMap_cons, hroots]
      exact (List.Sublist.refl _).append ih

/-- A call queues its requests; only an update goes on to apply the queue. -/
theorem perform_eq (manager : StateManager) (call : Call) :
    (perform manager call).2 = enqueued manager call ∨
      (∃ updatesBelow requests, call = .update updatesBelow requests) ∧
        perform manager call = (enqueued manager call).applyPendingChanges := by
  cases call with
  | request r =>
    obtain ⟨hnone, e, h⟩ | ⟨change, hsome, h⟩ := manager.request_eq r
    · exact .inl (by simp [perform, h, enqueued, requests, Request.accepted, hnone])
    · exact .inl (by simp [perform, h, enqueued, requests, Request.accepted, hsome])
  | handleEvent requests =>
    left
    simp only [perform, StateManager.handleEvent, enqueued, Stack.requests]
    cases manager.states.getLast? with
    | none => simp [Request.accepted]
    | some top => exact (sequence_request manager (requests top)).1
  | handleNetworkResult updatesBelow requests =>
    left
    simp only [perform, StateManager.handleNetworkResult]
    rw [(visit_eq manager updatesBelow requests).1, updateStates_eq]
    exact (sequence_request manager _).1
  | update updatesBelow requests =>
    have hqueue := (sequence_request manager (manager.requested updatesBelow requests)).1
    rw [← updateStates_eq] at hqueue
    simp only [perform, StateManager.update]
    rcases hcall : manager.updateStates updatesBelow requests with ⟨e | _, next⟩
    · left
      rw [hcall] at hqueue
      exact hqueue
    · right
      rw [hcall] at hqueue
      dsimp only at hqueue
      subst hqueue
      exact ⟨⟨updatesBelow, requests, rfl⟩, rfl⟩

/-- What every call keeps. -/
structure InStep (first : ApplicationState) (stack : Stack) : Prop where
  wellFormed : stack.toSession.WellFormed
  mounted : stack.manager.Mounted
  processed : ∃ processed, stack.accepted = processed ++ stack.manager.pendingChanges ∧
    stack.manager.states = processed.foldl PendingChange.consumed [first]

theorem inStep_start (first : ApplicationState) : (start first).InStep first where
  wellFormed := Session.wellFormed_start first
  mounted := refreshInteractivity_mounted _
  processed := ⟨[], rfl, rfl⟩

theorem invariant_inStep (first : ApplicationState) : step.Invariant (InStep first) := by
  intro stack call t inStep hstep
  obtain ⟨processed, haccepted, hstates⟩ := inStep.processed
  simp only [step] at hstep
  split at hstep
  next hnodup =>
    obtain rfl := Option.some.inj hstep
    have hwf := inStep.wellFormed.enqueue hnodup (accepted_roots (requests stack.manager call))
    obtain h | ⟨-, h⟩ := perform_eq stack.manager call
    · refine ⟨?_, ?_, processed, ?_, ?_⟩
      · simp only [h]
        exact hwf
      · simp only [h]
        exact inStep.mounted
      · simp only [h, haccepted, enqueued, List.append_assoc]
      · simp only [h]
        exact hstates
    · obtain ⟨more, hqueue, hstack⟩ :=
        (enqueued stack.manager call).applyPendingChanges_ends.consumed
      refine ⟨?_, ?_, processed ++ more, ?_, ?_⟩
      · simp only [h]
        exact hwf.applyPendingChanges
      · simp only [h]
        exact Mounted.applyPendingChanges inStep.mounted hwf.fresh
      · simp only [h]
        rw [List.append_assoc, ← hqueue, haccepted, List.append_assoc]
        rfl
      · simp only [h]
        rw [hstack, List.foldl_append, ← hstates]
        rfl
  next => cases hstep

/-- After any calls the stack is not empty, its roots are what is mounted, and it is what
the accepted changes taken off the queue make of the first state. What is requested in
an update does not change which states it calls, and a pop that fails takes only itself
and what is in front of it off the queue. -/
theorem stack_mounts_queue_in_step {first : ApplicationState} {calls : List Call} {stack : Stack}
    (run : step.exec (start first) calls = some stack) :
    stack.manager.states ≠ [] ∧
      stack.manager.ui.mounted = stack.manager.states.map ApplicationState.root ∧
      (∃ processed, stack.accepted = processed ++ stack.manager.pendingChanges ∧
        stack.manager.states = processed.foldl PendingChange.consumed [first]) ∧
      (∀ updatesBelow requests,
        (stack.manager.visit updatesBelow requests).1 <+:
            stack.manager.updatedStates updatesBelow ∧
          ((stack.manager.visit updatesBelow requests).2.1 = .ok () →
            (stack.manager.visit updatesBelow requests).1 =
              stack.manager.updatedStates updatesBelow)) ∧
      ∀ updatesBelow requests, stack.manager.UpdateEnds updatesBelow requests := by
  have inStep := (invariant_inStep first).exec (inStep_start first) run
  exact ⟨inStep.wellFormed.fresh.nonempty, inStep.mounted, inStep.processed,
    fun updatesBelow requests => (stack.manager.visit_eq updatesBelow requests).2,
    fun updatesBelow requests => stack.manager.updateEnds updatesBelow requests⟩

/-- A push during an update, then a batch whose second pop fails in front of a reset. -/
theorem stack_mounts_queue_in_step_after_failed_pop :
    ∃ stack, step.exec (start ⟨0⟩)
        [.update (fun _ => false) (fun _ => [.push (some ⟨1⟩)]),
          .request .pop, .request .pop, .request (.resetTo (some ⟨2⟩)),
          .update (fun _ => false) (fun _ => [])] = some stack ∧
      stack.manager.pendingChanges = [.resetTo ⟨2⟩] ∧ stack.manager.ui.mounted = [0] ∧
      ∃ processed, stack.accepted = processed ++ stack.manager.pendingChanges ∧
        stack.manager.states = processed.foldl PendingChange.consumed [⟨0⟩] := by
  have run : step.exec (start ⟨0⟩)
      [.update (fun _ => false) (fun _ => [.push (some ⟨1⟩)]),
        .request .pop, .request .pop, .request (.resetTo (some ⟨2⟩)),
        .update (fun _ => false) (fun _ => [])] = some _ := rfl
  exact ⟨_, run, rfl, rfl, (stack_mounts_queue_in_step run).2.2.1⟩

end Stack

end Stalker2D.Client
