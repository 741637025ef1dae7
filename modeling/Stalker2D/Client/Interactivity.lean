import Stalker2D.Client.StateManager

/-!
# Which state takes input

`Interactive` says that exactly the top state has its root enabled. A batch that
runs to its end restores it, because the flags are recomputed last. A batch that
pops the last state throws before that: the flags are then those the remaining
state had before the batch. That state is the old bottom state unless a reset put
a fresh one there, so the exit is harmless only if the stack had one state or the
batch reset it first. `interactive_iff` is this dichotomy over whole sessions.
-/

namespace Stalker2D.Client

namespace StateManager

/-- Every state has its root enabled if and only if it is the top state. -/
def Interactive (manager : StateManager) : Prop :=
  ∀ state ∈ manager.states,
    manager.ui.enabled state.root = decide (manager.states.getLast? = some state)

instance (manager : StateManager) : Decidable manager.Interactive :=
  inferInstanceAs (Decidable (∀ state ∈ manager.states, _))

/-- Do these changes pop the last of `depth` states before any of them resets the
stack? -/
def popsLast : Nat → List PendingChange → Bool
  | _, [] => false
  | depth, .push _ :: changes => popsLast (depth + 1) changes
  | _, .resetTo _ :: _ => false
  | depth, .pop :: changes => depth = 1 || popsLast (depth - 1) changes

/-- What a batch needs: the states and the incoming ones have distinct roots, and
the incoming roots are still enabled. -/
structure Fresh (manager : StateManager) (changes : List PendingChange) : Prop where
  nonempty : manager.states ≠ []
  nodup : (manager.states.map ApplicationState.root ++ changes.flatMap PendingChange.roots).Nodup
  enabled : ∀ root ∈ changes.flatMap PendingChange.roots, manager.ui.enabled root = true

section Refresh

variable {ui : UiComponent} {flag : ApplicationState → Bool}

theorem foldl_setInteractive_of_notMem {states : List ApplicationState} {widget : Widget}
    (h : widget ∉ states.map ApplicationState.root) :
    (states.foldl (fun ui state => ui.setInteractive state.root (flag state)) ui).enabled widget =
      ui.enabled widget := by
  induction states generalizing ui with
  | nil => rfl
  | cons state states ih =>
    rw [List.map_cons, List.mem_cons, not_or] at h
    rw [List.foldl_cons, ih h.2, UiComponent.setInteractive_enabled, if_neg h.1]

theorem foldl_setInteractive_of_mem {states : List ApplicationState}
    (nodup : (states.map ApplicationState.root).Nodup) :
    ∀ state ∈ states,
      (states.foldl (fun ui state => ui.setInteractive state.root (flag state)) ui).enabled
        state.root = flag state := by
  induction states generalizing ui with
  | nil => simp
  | cons first states ih =>
    rw [List.map_cons, List.nodup_cons] at nodup
    intro state hstate
    obtain rfl | hrest := List.mem_cons.mp hstate
    · rw [List.foldl_cons, foldl_setInteractive_of_notMem nodup.1,
        UiComponent.setInteractive_enabled, if_pos rfl]
    · exact ih nodup.2 state hrest

end Refresh

@[simp] theorem refreshInteractivity_states (manager : StateManager) :
    manager.refreshInteractivity.states = manager.states := rfl

@[simp] theorem refreshInteractivity_pendingChanges (manager : StateManager) :
    manager.refreshInteractivity.pendingChanges = manager.pendingChanges := rfl

theorem interactive_refreshInteractivity {manager : StateManager}
    (nodup : (manager.states.map ApplicationState.root).Nodup) :
    manager.refreshInteractivity.Interactive :=
  foldl_setInteractive_of_mem nodup

theorem refreshInteractivity_enabled_of_notMem {manager : StateManager} {widget : Widget}
    (h : widget ∉ manager.states.map ApplicationState.root) :
    manager.refreshInteractivity.ui.enabled widget = manager.ui.enabled widget :=
  foldl_setInteractive_of_notMem h

@[simp] theorem foldl_unmount_enabled (states : List ApplicationState) (ui : UiComponent) :
    (states.foldl (fun ui old => ui.unmount old.root) ui).enabled = ui.enabled := by
  induction states generalizing ui with
  | nil => rfl
  | cons state states ih => rw [List.foldl_cons, ih, UiComponent.unmount_enabled]

/-- No change touches an enabled flag. -/
theorem applyChange_enabled {manager next : StateManager} {change : PendingChange}
    (h : manager.applyChange change = .ok next) : next.ui.enabled = manager.ui.enabled := by
  cases change with
  | push state => cases h; rfl
  | resetTo state => cases h; simp
  | pop =>
    by_cases hlast : manager.states.length = 1
    · simp [applyChange, hlast] at h
    · simp only [applyChange, if_neg hlast, Except.ok.injEq] at h
      subst h
      cases manager.states.getLast? <;> rfl

theorem applyChange_pop_of_ne {manager : StateManager} (h : manager.states.length ≠ 1) :
    ∃ ui, manager.applyChange .pop =
      .ok { manager with ui, states := manager.states.dropLast } := by
  simp only [applyChange, if_neg h]
  exact ⟨_, rfl⟩

/-- What the rest of a batch needs after its first change. -/
theorem Fresh.applyChange {manager next : StateManager} {change : PendingChange}
    {changes : List PendingChange} (fresh : manager.Fresh (change :: changes))
    (h : manager.applyChange change = .ok next) : next.Fresh changes := by
  have henabled := applyChange_enabled h
  obtain ⟨nonempty, nodup, enabled⟩ := fresh
  rw [List.flatMap_cons] at nodup enabled
  have hrest : ∀ root ∈ changes.flatMap PendingChange.roots, next.ui.enabled root = true := by
    intro root hroot
    rw [henabled]
    exact enabled root (List.mem_append_right _ hroot)
  cases change with
  | push state =>
    cases h
    refine ⟨by simp, ?_, hrest⟩
    simpa [PendingChange.roots] using nodup
  | resetTo state =>
    cases h
    refine ⟨by simp, ?_, hrest⟩
    simpa [PendingChange.roots] using (List.nodup_append.mp nodup).2.1
  | pop =>
    by_cases hlast : manager.states.length = 1
    · simp [StateManager.applyChange, hlast] at h
    · obtain ⟨ui, hpop⟩ := applyChange_pop_of_ne hlast
      obtain rfl := Except.ok.inj (h.symm.trans hpop)
      refine ⟨?_, ?_, hrest⟩
      · have hpos := List.length_pos_iff.mpr nonempty
        apply List.length_pos_iff.mp
        simp only [List.length_dropLast]
        omega
      · have hsub := (List.dropLast_sublist manager.states).map ApplicationState.root
        simp only [PendingChange.roots, List.nil_append] at nodup
        exact nodup.sublist (hsub.append (List.Sublist.refl _))

/-- A batch that runs to its end leaves exactly the top state enabled. -/
theorem applyChanges_ok {manager next : StateManager} {changes : List PendingChange}
    (fresh : manager.Fresh changes) (h : manager.applyChanges changes = (.ok (), next)) :
    next.Interactive := by
  induction changes generalizing manager with
  | nil =>
    cases h
    exact @interactive_refreshInteractivity { manager with pendingChanges := [] }
      (List.nodup_append.mp fresh.nodup).1
  | cons change changes ih =>
    simp only [applyChanges] at h
    split at h
    · cases h
    next hchange => exact ih (fresh.applyChange hchange) h

/-- A batch that throws leaves one state: the bottom state with its old flag when
`popsLast`, otherwise the freshly enabled state of a reset. -/
theorem applyChanges_error {manager next : StateManager} {changes : List PendingChange}
    {e : Exception} (fresh : manager.Fresh changes)
    (h : manager.applyChanges changes = (.error e, next)) :
    ∃ state, next.states = [state] ∧
      next.ui.enabled state.root = if popsLast manager.states.length changes then
        manager.states.head?.all fun bottom => manager.ui.enabled bottom.root else true := by
  induction changes generalizing manager with
  | nil => cases h
  | cons change changes ih =>
    have hstep {next' : StateManager} (h : manager.applyChange change = .ok next') :
        next'.Fresh changes := fresh.applyChange h
    simp only [applyChanges] at h
    cases change with
    | push state =>
      obtain ⟨bottom, rest, hcons⟩ := List.exists_cons_of_ne_nil fresh.nonempty
      have hrest := ih (hstep rfl) h
      simpa [popsLast, hcons] using hrest
    | resetTo state =>
      obtain ⟨last, hstates, henabled⟩ := ih (hstep rfl) h
      refine ⟨last, hstates, ?_⟩
      have hroot : manager.ui.enabled state.root = true :=
        fresh.enabled state.root (by simp [PendingChange.roots])
      simpa [popsLast, hroot] using henabled
    | pop =>
      obtain ⟨bottom, rest, hcons⟩ := List.exists_cons_of_ne_nil fresh.nonempty
      by_cases hlast : manager.states.length = 1
      · have hnil : rest = [] := by simpa [hcons] using hlast
        simp only [applyChange, if_pos hlast, Prod.mk.injEq] at h
        obtain ⟨-, rfl⟩ := h
        exact ⟨bottom, by simp [hcons, hnil], by simp [popsLast, hcons, hnil]⟩
      · obtain ⟨ui, hpop⟩ := applyChange_pop_of_ne hlast
        have henabled : ui.enabled = manager.ui.enabled := applyChange_enabled hpop
        rw [hpop] at h
        have hrest := ih (hstep hpop) h
        have hhead : manager.states.dropLast.head? = manager.states.head? := by
          cases rest with
          | nil => simp [hcons] at hlast
          | cons => simp [hcons]
        simpa [popsLast, hlast, henabled, hhead] using hrest

/-- A batch that runs to its end never popped the last state. -/
theorem popsLast_of_ok {manager next : StateManager} {changes : List PendingChange}
    (nonempty : manager.states ≠ []) (h : manager.applyChanges changes = (.ok (), next)) :
    popsLast manager.states.length changes = false := by
  induction changes generalizing manager with
  | nil => rfl
  | cons change changes ih =>
    simp only [applyChanges] at h
    cases change with
    | push state => simpa [popsLast] using ih (by simp) h
    | resetTo state => rfl
    | pop =>
      have hpos := List.length_pos_iff.mpr nonempty
      by_cases hlast : manager.states.length = 1
      · simp [applyChange, hlast] at h
      · obtain ⟨ui, hpop⟩ := applyChange_pop_of_ne hlast
        rw [hpop] at h
        have hne : manager.states.dropLast ≠ [] := by
          apply List.length_pos_iff.mp
          simp only [List.length_dropLast]
          omega
        simpa [popsLast, hlast] using ih hne h

/-- The roots of the states and of the queued changes. -/
def roots (manager : StateManager) : List Widget :=
  manager.states.map ApplicationState.root ++
    manager.pendingChanges.flatMap PendingChange.roots

/-- However a batch ends, the remaining queue is as fresh as before and no root has
come from elsewhere; other widgets keep their flags. -/
theorem Fresh.applyChanges {manager : StateManager} {changes : List PendingChange}
    (fresh : manager.Fresh changes) :
    (manager.applyChanges changes).2.Fresh (manager.applyChanges changes).2.pendingChanges ∧
      ∀ widget, widget ∉ manager.states.map ApplicationState.root ++
          changes.flatMap PendingChange.roots →
        widget ∉ (manager.applyChanges changes).2.roots ∧
          (manager.applyChanges changes).2.ui.enabled widget = manager.ui.enabled widget := by
  induction changes generalizing manager with
  | nil =>
    refine ⟨⟨fresh.nonempty, ?_, by simp [StateManager.applyChanges]⟩, fun widget hwidget => ?_⟩
    · simpa [StateManager.applyChanges] using fresh.nodup
    · simp only [List.flatMap_nil, List.append_nil] at hwidget
      refine ⟨by simpa [StateManager.applyChanges, roots] using hwidget, ?_⟩
      exact @refreshInteractivity_enabled_of_notMem { manager with pendingChanges := [] } _ hwidget
  | cons change changes ih =>
    have hstep {next : StateManager} (h : manager.applyChange change = .ok next) :
        next.Fresh changes := fresh.applyChange h
    simp only [StateManager.applyChanges]
    split
    next e hchange =>
      cases change with
      | push state => cases hchange
      | resetTo state => cases hchange
      | pop => exact ⟨⟨fresh.nonempty, fresh.nodup, fresh.enabled⟩, fun _ h => ⟨h, rfl⟩⟩
    next next hchange =>
      obtain ⟨hfresh, houtside⟩ := ih (hstep hchange)
      refine ⟨hfresh, fun widget hwidget => ?_⟩
      have hnext : widget ∉ next.states.map ApplicationState.root ++
          changes.flatMap PendingChange.roots := by
        intro hmem
        apply hwidget
        cases change with
        | push state => cases hchange; simpa [PendingChange.roots] using hmem
        | resetTo state =>
          cases hchange
          rw [List.flatMap_cons]
          exact List.mem_append_right _ (by simpa [PendingChange.roots] using hmem)
        | pop =>
          by_cases hlast : manager.states.length = 1
          · simp [StateManager.applyChange, hlast] at hchange
          · obtain ⟨ui, hpop⟩ := applyChange_pop_of_ne hlast
            obtain rfl := Except.ok.inj (hchange.symm.trans hpop)
            obtain hstate | hrest := List.mem_append.mp hmem
            · exact List.mem_append_left _
                (((List.dropLast_sublist _).map ApplicationState.root).subset hstate)
            · exact List.mem_append_right _ (by simpa [PendingChange.roots] using hrest)
      rw [← applyChange_enabled hchange]
      exact houtside widget hnext

/-- A call that only appends to the queue, taking its roots from `roots a`. -/
def Enqueues {α : Type} (call : StateManager → α → Except Exception Unit × StateManager)
    (roots : α → List Widget) : Prop :=
  ∀ manager a, ∃ changes : List PendingChange,
    (call manager a).2 =
      { manager with pendingChanges := manager.pendingChanges ++ changes } ∧
    (changes.flatMap PendingChange.roots).Sublist (roots a)

theorem enqueues_request : Enqueues request Request.roots := by
  intro manager r
  cases r with
  | push state =>
    cases state with
    | none => exact ⟨[], by simp [request, requestPush], by simp⟩
    | some state => exact ⟨[.push state], rfl, by simp [PendingChange.roots, Request.roots]⟩
  | resetTo state =>
    cases state with
    | none => exact ⟨[], by simp [request, requestResetTo], by simp⟩
    | some state => exact ⟨[.resetTo state], rfl, by simp [PendingChange.roots, Request.roots]⟩
  | pop => exact ⟨[.pop], rfl, by simp [PendingChange.roots]⟩

theorem Enqueues.sequence {α : Type}
    {call : StateManager → α → Except Exception Unit × StateManager} {roots : α → List Widget}
    (h : Enqueues call roots) : Enqueues (sequence call) (fun as => as.flatMap roots) := by
  intro manager as
  induction as generalizing manager with
  | nil => exact ⟨[], by simp [StateManager.sequence], by simp⟩
  | cons a as ih =>
    obtain ⟨first, hfirst, hroots⟩ := h manager a
    simp only [StateManager.sequence]
    split
    next e next hcall =>
      rw [hcall] at hfirst
      exact ⟨first, hfirst, hroots.trans (by simp)⟩
    next _ next hcall =>
      rw [hcall] at hfirst
      subst hfirst
      obtain ⟨rest, hrest, hsub⟩ :=
        ih { manager with pendingChanges := manager.pendingChanges ++ first }
      refine ⟨first ++ rest, by rw [hrest, List.append_assoc], ?_⟩
      simp only [List.flatMap_append, List.flatMap_cons]
      exact hroots.append hsub

/-- The roots of the requests an update makes. -/
def requestedRoots (manager : StateManager) (updatesBelow : ApplicationState → Bool)
    (requests : ApplicationState → List Request) : List Widget :=
  (manager.updatedStates updatesBelow).flatMap fun state => (requests state).flatMap Request.roots

theorem updateStates_enqueues (manager : StateManager) (updatesBelow : ApplicationState → Bool)
    (requests : ApplicationState → List Request) :
    ∃ changes : List PendingChange,
      (manager.updateStates updatesBelow requests).2 =
        { manager with pendingChanges := manager.pendingChanges ++ changes } ∧
      (changes.flatMap PendingChange.roots).Sublist
        (manager.requestedRoots updatesBelow requests) :=
  Enqueues.sequence (fun manager state => enqueues_request.sequence manager (requests state))
    manager (manager.updatedStates updatesBelow)

/-- An update that pops the last of several states out of a batch that did not reset
the stack before. -/
def Strands (manager : StateManager) (updatesBelow : ApplicationState → Bool)
    (requests : ApplicationState → List Request) : Prop :=
  (manager.updateStates updatesBelow requests).1 = .ok () ∧ 2 ≤ manager.states.length ∧
    popsLast manager.states.length
      (manager.updateStates updatesBelow requests).2.pendingChanges = true

instance (manager : StateManager) (updatesBelow : ApplicationState → Bool)
    (requests : ApplicationState → List Request) :
    Decidable (manager.Strands updatesBelow requests) :=
  inferInstanceAs (Decidable (_ ∧ _ ∧ _))

end StateManager

/-- A manager in use, with the roots that have been handed to it so far. -/
structure Session where
  manager : StateManager
  seen : List Widget

/-- A request between updates, or an update with what the visited states do in it. -/
inductive Session.Event
  | request (request : Request)
  | update (updatesBelow : ApplicationState → Bool) (requests : ApplicationState → List Request)

namespace Session

/-- A session with its first state; every widget starts enabled. -/
def start (first : ApplicationState) : Session where
  manager := StateManager.refreshInteractivity
    { ui := UiComponent.mount ⟨[], fun _ => true⟩ first.root
      states := [first]
      pendingChanges := [] }
  seen := [first.root]

/-- A session starts with what the constructor makes of its first state. -/
theorem create_start (first : ApplicationState) :
    StateManager.create ⟨[], fun _ => true⟩ (some first) = .ok (start first).manager := rfl

/-- What an event does to the manager, whether it returns or throws. -/
def perform (manager : StateManager) : Event → StateManager
  | .request r => (manager.request r).2
  | .update updatesBelow requests => (manager.update updatesBelow requests).2

def newRoots (manager : StateManager) : Event → List Widget
  | .request r => r.roots
  | .update updatesBelow requests => manager.requestedRoots updatesBelow requests

/-- Every requested state comes with a root of its own. -/
def step : Machine Session Event := fun session e =>
  if (newRoots session.manager e ++ session.seen).Nodup then
    some
      { manager := perform session.manager e
        seen := newRoots session.manager e ++ session.seen }
  else none

/-- Is this event an update that leaves a disabled state on top? -/
def Strands (manager : StateManager) : Event → Prop
  | .request _ => False
  | .update updatesBelow requests => manager.Strands updatesBelow requests

instance (manager : StateManager) : ∀ e, Decidable (Strands manager e)
  | .request _ => inferInstanceAs (Decidable False)
  | .update updatesBelow requests =>
    inferInstanceAs (Decidable (manager.Strands updatesBelow requests))

/-- After an update the top state and only the top state is enabled. -/
def InteractiveAfter (e : Event) (manager : StateManager) : Prop :=
  match e with
  | .request _ => True
  | .update _ _ => manager.Interactive

instance (manager : StateManager) : ∀ e, Decidable (InteractiveAfter e manager)
  | .request _ => inferInstanceAs (Decidable True)
  | .update _ _ => inferInstanceAs (Decidable manager.Interactive)

/-- The queue is fresh, and unseen widgets are in no state and still enabled. -/
structure WellFormed (session : Session) : Prop where
  fresh : session.manager.Fresh session.manager.pendingChanges
  seen : ∀ root ∈ session.manager.roots, root ∈ session.seen
  unseen : ∀ widget, widget ∉ session.seen → session.manager.ui.enabled widget = true

theorem wellFormed_start (first : ApplicationState) : (start first).WellFormed where
  fresh := ⟨by simp [start], by simp [start], by simp [start]⟩
  seen := by simp [start, StateManager.roots]
  unseen widget h := by
    simp only [start, List.mem_singleton] at h
    rw [start, StateManager.refreshInteractivity_enabled_of_notMem (by simpa using h)]
    rfl

theorem interactive_start (first : ApplicationState) : (start first).manager.Interactive :=
  StateManager.interactive_refreshInteractivity (by simp)

/-- Appending fresh changes keeps a session well formed and its stack as it is. -/
theorem WellFormed.enqueue {session : Session} (wf : session.WellFormed)
    {changes : List PendingChange} {new : List Widget}
    (nodup : (new ++ session.seen).Nodup)
    (hsub : (changes.flatMap PendingChange.roots).Sublist new) :
    WellFormed
      { manager :=
          { session.manager with
            pendingChanges := session.manager.pendingChanges ++ changes }
        seen := new ++ session.seen } := by
  obtain ⟨-, -, hdisjoint⟩ := List.nodup_append.mp nodup
  have hnew : ∀ root ∈ changes.flatMap PendingChange.roots, root ∉ session.seen := by
    intro root hroot hseen
    exact hdisjoint root (hsub.subset hroot) root hseen rfl
  refine ⟨⟨wf.fresh.nonempty, ?_, ?_⟩, ?_, ?_⟩
  · rw [List.flatMap_append, ← List.append_assoc]
    refine List.nodup_append.mpr ⟨wf.fresh.nodup, ?_, ?_⟩
    · exact (List.nodup_append.mp nodup).1.sublist hsub
    · intro a ha b hb hab
      exact hnew b hb (hab ▸ wf.seen a ha)
  · intro root hroot
    rw [List.flatMap_append] at hroot
    obtain hold | hchange := List.mem_append.mp hroot
    · exact wf.fresh.enabled root hold
    · exact wf.unseen root (hnew root hchange)
  · intro root hroot
    simp only [StateManager.roots, List.flatMap_append, ← List.append_assoc] at hroot
    obtain hold | hchange := List.mem_append.mp hroot
    · exact List.mem_append_right _ (wf.seen root hold)
    · exact List.mem_append_left _ (hsub.subset hchange)
  · intro widget hwidget
    exact wf.unseen widget fun h => hwidget (List.mem_append_right _ h)

theorem WellFormed.applyPendingChanges {session : Session} (wf : session.WellFormed) :
    WellFormed
      { manager := session.manager.applyPendingChanges.2, seen := session.seen } := by
  simp only [StateManager.applyPendingChanges]
  split
  · exact wf
  · obtain ⟨hfresh, houtside⟩ := wf.fresh.applyChanges
    refine ⟨hfresh, ?_, ?_⟩
    · intro root hroot
      by_contra hseen
      exact (houtside root fun hmem => hseen (wf.seen root hmem)).1 hroot
    · intro widget hwidget
      rw [(houtside widget fun hmem => hwidget (wf.seen widget hmem)).2]
      exact wf.unseen widget hwidget

/-- The two ways an update ends: a callback throws before any change is applied, or
the changes queued by then are applied. -/
theorem update_cases (manager : StateManager) (updatesBelow : ApplicationState → Bool)
    (requests : ApplicationState → List Request) :
    (∃ e, (manager.updateStates updatesBelow requests).1 = .error e ∧
      (manager.update updatesBelow requests).2 =
        (manager.updateStates updatesBelow requests).2) ∨
      ((manager.updateStates updatesBelow requests).1 = .ok () ∧
        (manager.update updatesBelow requests).2 =
          (manager.updateStates updatesBelow requests).2.applyPendingChanges.2) := by
  simp only [StateManager.update]
  obtain ⟨_ | _, next⟩ := manager.updateStates updatesBelow requests
  · exact .inl ⟨_, rfl, rfl⟩
  · exact .inr ⟨rfl, rfl⟩

theorem step_eq_some {session t : Session} {e : Event} (h : step session e = some t) :
    (newRoots session.manager e ++ session.seen).Nodup ∧
      t = { manager := perform session.manager e
            seen := newRoots session.manager e ++ session.seen } := by
  simp only [step] at h
  split at h
  next hnodup => exact ⟨hnodup, (Option.some.inj h).symm⟩
  next => cases h

theorem invariant_wellFormed : step.Invariant WellFormed := by
  intro session e t wf hstep
  obtain ⟨hnodup, rfl⟩ := step_eq_some hstep
  cases e with
  | request r =>
    obtain ⟨changes, hnext, hsub⟩ := StateManager.enqueues_request session.manager r
    have hwf := wf.enqueue hnodup hsub
    rwa [← hnext] at hwf
  | update updatesBelow requests =>
    obtain ⟨changes, hnext, hsub⟩ :=
      session.manager.updateStates_enqueues updatesBelow requests
    have hwf := wf.enqueue hnodup hsub
    rw [← hnext] at hwf
    obtain ⟨_, -, h⟩ | ⟨-, h⟩ := update_cases session.manager updatesBelow requests
    · rwa [perform, h]
    · rw [perform, h]
      exact hwf.applyPendingChanges

/-- Applying a queue to an interactive stack keeps it interactive, unless the queue
pops the last of several states. -/
theorem interactive_applyPendingChanges_iff {manager : StateManager}
    (fresh : manager.Fresh manager.pendingChanges) (interactive : manager.Interactive) :
    manager.applyPendingChanges.2.Interactive ↔
      ¬ (2 ≤ manager.states.length ∧
        StateManager.popsLast manager.states.length manager.pendingChanges = true) := by
  simp only [StateManager.applyPendingChanges]
  split
  next hempty =>
    rw [List.isEmpty_iff] at hempty
    simp [hempty, StateManager.popsLast, interactive]
  next =>
    rcases hresult : manager.applyChanges manager.pendingChanges with ⟨e | _, next⟩
    · obtain ⟨bottom, rest, hcons⟩ := List.exists_cons_of_ne_nil fresh.nonempty
      obtain ⟨state, hstates, henabled⟩ := StateManager.applyChanges_error fresh hresult
      have hbottom : manager.ui.enabled bottom.root = decide (rest = []) := by
        rw [interactive bottom (by simp [hcons]), hcons, List.getLast?_cons]
        have hnodup := (List.nodup_append.mp fresh.nodup).1
        rw [hcons, List.map_cons, List.nodup_cons] at hnodup
        cases hrest : rest.getLast? with
        | none => simp [List.getLast?_eq_none_iff.mp hrest]
        | some last =>
          have hmem := List.mem_of_getLast? hrest
          have hne : last ≠ bottom := by
            rintro rfl
            exact hnodup.1 (List.mem_map_of_mem hmem)
          simp [hne, List.ne_nil_of_mem hmem]
      have hlength : 2 ≤ manager.states.length ↔ rest ≠ [] := by
        rw [hcons, List.length_cons, ← List.length_pos_iff]
        omega
      rw [hlength]
      simp only [StateManager.Interactive, hstates, List.mem_singleton, forall_eq, henabled]
      by_cases hpops : StateManager.popsLast manager.states.length manager.pendingChanges
      · rw [if_pos hpops, hpops, hcons]
        simp [hbottom]
      · simp [hpops]
    · have hpops := StateManager.popsLast_of_ok fresh.nonempty hresult
      simp [StateManager.applyChanges_ok fresh hresult, hpops]

/-- Every update of a session leaves exactly the top state enabled if and only if no
update pops the last of several states before resetting the stack. -/
theorem interactive_iff (first : ApplicationState) (es : List Event) :
    step.Along (fun _ e t => InteractiveAfter e t.manager) (start first) es ↔
      step.Along (fun s e _ => ¬ Strands s.manager e) (start first) es := by
  refine Machine.along_iff (I := fun s => s.WellFormed ∧ s.manager.Interactive) ?_ ?_
    ⟨wellFormed_start first, interactive_start first⟩ es
  · rintro s e t ⟨wf, interactive⟩ hstep
    obtain ⟨hnodup, rfl⟩ := step_eq_some hstep
    cases e with
    | request r => simp [InteractiveAfter, Strands]
    | update updatesBelow requests =>
      obtain ⟨changes, hnext, hsub⟩ := s.manager.updateStates_enqueues updatesBelow requests
      have hwf := wf.enqueue hnodup hsub
      rw [← hnext] at hwf
      have hinteractive : (s.manager.updateStates updatesBelow requests).2.Interactive := by
        rw [hnext]
        exact interactive
      have hstates : (s.manager.updateStates updatesBelow requests).2.states =
          s.manager.states := by rw [hnext]
      simp only [InteractiveAfter, Strands, perform, StateManager.Strands]
      obtain ⟨e, herror, h⟩ | ⟨hok, h⟩ := update_cases s.manager updatesBelow requests
      · simp [h, herror, hinteractive]
      · rw [h, interactive_applyPendingChanges_iff hwf.fresh hinteractive]
        simp [hok, hstates]
  · rintro s e t ⟨wf, interactive⟩ hstep hafter
    refine ⟨invariant_wellFormed s e t wf hstep, ?_⟩
    obtain ⟨-, rfl⟩ := step_eq_some hstep
    cases e with
    | request r =>
      obtain ⟨changes, hnext, -⟩ := StateManager.enqueues_request s.manager r
      change (s.manager.request r).2.Interactive
      rw [hnext]
      exact interactive
    | update updatesBelow requests => exact hafter

/-- Two states, then two pops in one batch: the second pop throws and the remaining
state stays disabled. -/
theorem not_interactive_after_second_pop :
    ¬ step.Along (fun _ e t => InteractiveAfter e t.manager) (start ⟨0⟩)
      [.request (.push (some ⟨1⟩)), .update (fun _ => false) (fun _ => []),
        .request .pop, .request .pop, .update (fun _ => false) (fun _ => [])] := by
  decide

end Session

end Stalker2D.Client
