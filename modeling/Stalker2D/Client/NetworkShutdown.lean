import Stalker2D.Client.NetworkResults
import Stalker2D.Machine.LeadsTo

/-!
# The end of the network component

The destructor spawns a last `disconnect`, waits for it and joins the worker thread. By then
every coroutine spawned before has begun, so none can connect again: once the last one has
begun the state is `Disconnecting` until it is `Disconnected` for good. From there every
coroutine is resumed and completes, without a message from the server and without a timeout.
-/

namespace Stalker2D.Client

open Protocol

namespace ConnectionManager

open Phase

variable {manager t : ConnectionManager} {phase : Phase} {e : Event} {config : Config}
variable {place : Nat}

/-- After a `disconnect` the state is there or on its way. -/
theorem state_disconnect (manager : ConnectionManager) :
    manager.disconnect = manager ∧ manager.state = .disconnected ∨
      manager.disconnect.state = .disconnecting ∧ manager.state ≠ .disconnected := by
  cases h : manager.state with
  | disconnected => exact .inl ⟨by simp only [disconnect, h], rfl⟩
  | connecting | connected | disconnecting =>
    exact .inr ⟨by simp [disconnect, h, wait, closeConnectingSocket], by decide⟩

/-- Without a `connect` a manager that is disconnecting or disconnected gets no further. -/
theorem InPhase.settles_step (inPhase : manager.InPhase phase) (hstep : step manager e = some t)
    (other : e ≠ .connect)
    (closing : manager.state = .disconnected ∨ manager.state = .disconnecting) :
    t.state = .disconnected ∨ t.state = .disconnecting ∧ manager.state = .disconnecting := by
  obtain ⟨next, hmoves, hnext⟩ := phase_step inPhase hstep
  have hstate := inPhase.state
  cases hmoves with
  | stays =>
    rw [hnext.state, ← hstate]
    exact closing.imp_right fun h => ⟨h, h⟩
  | connect => exact absurd rfl other
  | cancelled | closed => exact .inl hnext.state
  | cancel | succeeds | fails | disconnect | lost =>
    rw [hstate] at closing
    obtain h | h := closing <;> cases h

/-- Only `connect` puts an attempt in flight. -/
theorem InPhase.inFlight_before (inPhase : manager.InPhase phase)
    (hstep : step manager e = some t) (other : e ≠ .connect) {attempt : Nat}
    (flight : t.InFlight attempt) : manager.InFlight attempt := by
  obtain ⟨next, hmoves, hnext⟩ := phase_step inPhase hstep
  rw [hnext.inFlight] at flight
  rw [inPhase.inFlight]
  cases hmoves with
  | stays | cancel => exact flight
  | connect => exact absurd rfl other
  | succeeds | fails | cancelled | disconnect | lost | closed => cases flight

/-- No request is added but by `send`. -/
theorem calls_length_of_ne_send (hstep : step manager e = some t)
    (other : ∀ message, e ≠ .request (.send message)) :
    t.requests.calls.length = manager.requests.calls.length := by
  obtain hsame | ⟨event, hevent, houtside, -⟩ := requests_step hstep
  · rw [hsame]
  · obtain ⟨hlength, -⟩ | ⟨link, message, rfl, -⟩ :=
      ClientRequestManager.calls_length_step hevent
    · exact hlength
    · exact absurd (houtside rfl) (other message)

/-- Without a connection no request waits for anything but its resumption. -/
theorem Reached.settled (reached : manager.Reached config)
    (few : manager.requests.calls.length < UInt64.size)
    (disconnected : manager.requests.connection = none) {frame : Nat} {call : SendCall}
    (hcall : manager.requests.calls[frame]? = some call) (unfinished : call.result = none) :
    ∃ error, call.pending.timer = .settled error := by
  obtain ⟨sentOn, tracked⟩ := reached.tracked
  have hmapped := tracked.entered few frame call hcall unfinished
  have hstate := tracked.closes.disconnected disconnected _ frame call hmapped hcall
  have htimer := (tracked.wellFormed.calls frame call hcall).settled hstate
  cases h : call.pending.timer with
  | waiting => exact absurd h htimer
  | settled error => exact ⟨error, rfl⟩

/-- In `Disconnected` whatever has a frame can be resumed, and then it has ended. -/
theorem Reached.resumable (reached : manager.Reached config)
    (few : manager.requests.calls.length < UInt64.size) (state : manager.state = .disconnected)
    {call : Call} (isOpen : manager.Open place call) :
    ∃ t, ConnectionManager.step manager (NetworkComponent.resumption place call) = some t ∧
      (NetworkComponent.outcome t place call).isSome := by
  obtain ⟨phase, inPhase⟩ := reached.phase
  obtain ⟨quiet, -, hnone⟩ := inPhase.agrees.disconnected state
  cases call with
  | connect => exact absurd isOpen (quiet place)
  | disconnect =>
    obtain ⟨waiter, hwaiter, hreturned⟩ := isOpen
    have hreleased : manager.waiters[place]? = some .released := by
      cases waiter with
      | waiting =>
        have hstate := inPhase.waiting (List.mem_of_getElem? hwaiter)
        rw [state] at hstate
        cases hstate
      | released => exact hwaiter
      | returned => exact absurd rfl hreturned
    exact ⟨_, if_pos hreleased, rfl⟩
  | sendRequest request =>
    obtain ⟨frame, hframe, hresult, -⟩ := isOpen
    obtain ⟨error, htimer⟩ := reached.settled few hnone hframe hresult
    have hresumes : ClientRequestManager.step manager.requests (.resume place) =
        some (manager.requests.resumeSend place frame error) := by
      simp only [ClientRequestManager.step, hframe, hresult, htimer]
    have hlater := ClientRequestManager.calls_resumeSend_eq manager.requests place frame error
    refine ⟨{ manager with requests := manager.requests.resumeSend place frame error }, ?_, ?_⟩
    · simp only [NetworkComponent.resumption, ConnectionManager.step, outside, if_true, hresumes,
        Option.map_some]
    · simp only [NetworkComponent.outcome, hlater, List.getElem?_modify, hframe, if_true,
        Option.map_eq_map, Option.map_some, Option.bind_some, SendCall.finish, Option.isSome_some]

end ConnectionManager

/-- How many steps a coroutine has before it. -/
def Progress.steps : Progress → Nat
  | .spawned => 3
  | .suspended _ => 2
  | .ended _ => 1
  | .completed => 0

namespace NetworkComponent

variable {network t : NetworkComponent} {e : Event} {config : Config}
variable {manager manager' : ConnectionManager} {coroutine last : Nat}

/-- `~NetworkComponent` up to the wait for its `disconnect`. -/
def shutdown (network : NetworkComponent) : NetworkComponent := network.spawn .disconnect

section Covered

/-- The coroutine of the attempt in flight waits for it. -/
def Covered (network : NetworkComponent) : Prop :=
  ∀ attempt, network.manager.InFlight attempt →
    ∃ coroutine, network.Waits coroutine .connect attempt

/-- The other coroutines wait on. -/
theorem Waits.proceed {other place : Nat} {call : Call} (h : network.Waits other call place)
    (hne : coroutine ≠ other) (manager : ConnectionManager) (progress : Progress) :
    ({ network with manager }.proceed coroutine progress).Waits other call place := by
  rw [Waits, coroutines_proceed, if_neg hne]
  exact h

/-- A coroutine that gets on without having waited leaves all the others waiting. -/
theorem Covered.proceed (covered : network.Covered) {old : Coroutine}
    (hold : network.coroutines[coroutine]? = some old)
    (running : ∀ place, old.progress ≠ .suspended place) {attempt : Nat}
    (flight : network.manager.InFlight attempt) (manager : ConnectionManager)
    (progress : Progress) :
    ∃ other, ({ network with manager }.proceed coroutine progress).Waits other .connect
      attempt := by
  obtain ⟨other, hwaits⟩ := covered attempt flight
  refine ⟨other, hwaits.proceed ?_ manager progress⟩
  rintro rfl
  obtain rfl := Option.some.inj (hold.symm.trans hwaits)
  exact running attempt rfl

theorem covered_step (reached : network.manager.Reached config) (covered : network.Covered)
    (hstep : step network e = some t) : t.Covered := by
  obtain ⟨phase, inPhase⟩ := reached.phase
  cases step_cases hstep with
  | suspends coroutine call manager hcoroutine hbegins hopen =>
    intro attempt flight
    by_cases hcall : call = .connect
    · subst hcall
      -- the new attempt is the only one in flight
      obtain ⟨next, hnext⟩ := (reached.step hbegins).phase
      have hnew := (hnext.inFlight _).mp hopen
      obtain rfl := Option.some.inj (hnew.symm.trans ((hnext.inFlight attempt).mp flight))
      refine ⟨coroutine, ?_⟩
      rw [Waits, coroutines_proceed, if_pos rfl, hcoroutine]
      rfl
    · have hother : begins call ≠ .connect := by
        cases call with
        | connect => exact absurd rfl hcall
        | disconnect | sendRequest request => exact fun h => by cases h
      exact covered.proceed hcoroutine (fun _ h => by cases h)
        (inPhase.inFlight_before hbegins hother flight) manager _
  | returns coroutine call outcome hcoroutine =>
    intro attempt flight
    exact covered.proceed hcoroutine (fun _ h => by cases h) flight network.manager _
  | resume coroutine call place manager result hcoroutine hresumes =>
    intro attempt flight
    have hother : resumption place call ≠ .connect := by cases call <;> exact fun h => by cases h
    obtain ⟨other, hwaits⟩ := covered attempt (inPhase.inFlight_before hresumes hother flight)
    refine ⟨other, hwaits.proceed ?_ manager _⟩
    rintro rfl
    obtain ⟨rfl, hplace⟩ := Coroutine.mk.inj (Option.some.inj (hcoroutine.symm.trans hwaits))
    obtain rfl := Progress.suspended.inj hplace
    -- a resumed attempt is not in flight any more
    obtain ⟨-, -, hnext⟩ | ⟨-, hnext⟩ := inPhase.resume hresumes
    · cases (hnext.inFlight place).mp flight
    · cases (hnext.inFlight place).mp flight
  | complete coroutine call outcome hcoroutine =>
    intro attempt flight
    obtain ⟨hmanager, hcoroutines⟩ :=
      handle_frame (network.proceed coroutine .completed) call.operation outcome
    rw [hmanager] at flight
    simp only [Waits, hcoroutines]
    exact covered.proceed hcoroutine (fun _ h => by cases h) flight network.manager _
  | background event manager hbackground hmanager =>
    intro attempt flight
    have hother : event ≠ .connect := by
      rintro rfl
      cases hbackground
    exact covered attempt (inPhase.inFlight_before hmanager hother flight)

end Covered

/-- How far the last `disconnect` is, and what the state is by then. -/
inductive Stage (manager : ConnectionManager) : Progress → Prop
  | spawned : Stage manager .spawned
  | waiting (place : Nat) (state : manager.state = .disconnecting)
      (waiter : manager.waiters[place]? = some .waiting) : Stage manager (.suspended place)
  | released (place : Nat) (state : manager.state = .disconnected) :
      Stage manager (.suspended place)
  | ended (state : manager.state = .disconnected) : Stage manager (.ended (.ok none))
  | completed (state : manager.state = .disconnected) : Stage manager .completed

/-- Once it has begun, the state is on its way or there. -/
theorem Stage.state {progress : Progress} (stage : Stage manager progress)
    (begun : progress ≠ .spawned) :
    manager.state = .disconnected ∨ manager.state = .disconnecting := by
  cases stage with
  | spawned => exact absurd rfl begun
  | waiting place state => exact .inr state
  | released place state => exact .inl state
  | ended state => exact .inl state
  | completed state => exact .inl state

/-- Without a `connect` the state is not left again. -/
theorem disconnected_step {phase : Phase} (inPhase : manager.InPhase phase)
    {event : ConnectionManager.Event}
    (hstep : ConnectionManager.step manager event = some manager') (other : event ≠ .connect)
    (state : manager.state = .disconnected) : manager'.state = .disconnected := by
  obtain h | ⟨-, hstate⟩ := inPhase.settles_step hstep other (.inl state)
  · exact h
  · rw [state] at hstate
    cases hstate

theorem Stage.step {progress : Progress} {phase : Phase} (stage : Stage manager progress)
    (inPhase : manager.InPhase phase) {event : ConnectionManager.Event}
    (hstep : ConnectionManager.step manager event = some manager') (other : event ≠ .connect) :
    Stage manager' progress := by
  cases stage with
  | spawned => exact .spawned
  | waiting place state waiter =>
    obtain hwaits | hstate := ConnectionManager.waiting_step hstep waiter
    · obtain hstate | ⟨hstate, -⟩ := inPhase.settles_step hstep other (.inr state)
      · exact .released place hstate
      · exact .waiting place hstate hwaits
    · exact .released place hstate
  | released place state => exact .released place (disconnected_step inPhase hstep other state)
  | ended state => exact .ended (disconnected_step inPhase hstep other state)
  | completed state => exact .completed (disconnected_step inPhase hstep other state)

/-- What holds once the destructor has spawned the coroutine number `last`. -/
structure Closing (config : Config) (last : Nat) (network : NetworkComponent) : Prop where
  reached : network.manager.Reached config
  owned : network.Owned
  covered : network.Covered
  few : network.manager.requests.calls.length < UInt64.size
  begun : ∀ coroutine call, network.coroutines[coroutine]? = some { call } → coroutine = last
  stage : ∃ progress, network.coroutines[last]? = some { call := .disconnect, progress } ∧
    Stage network.manager progress

/-- No coroutine is left to begin. -/
def Begun (network : NetworkComponent) : Prop :=
  ∀ coroutine ∈ network.coroutines, coroutine.progress ≠ .spawned

instance (network : NetworkComponent) : Decidable network.Begun :=
  inferInstanceAs (Decidable (∀ _ ∈ _, _))

theorem Begun.ne (begun : network.Begun) (coroutine : Nat) (call : Call) :
    network.coroutines[coroutine]? ≠ some { call } :=
  fun h => begun _ (List.mem_of_getElem? h) rfl

theorem begun_of_ne (h : ∀ (coroutine : Nat) (call : Call),
    network.coroutines[coroutine]? ≠ some ({ call } : Coroutine)) : network.Begun := by
  rintro ⟨call, progress⟩ hmem hspawned
  obtain rfl : progress = .spawned := hspawned
  obtain ⟨coroutine, hcoroutine⟩ := List.mem_iff_getElem?.mp hmem
  exact h coroutine call hcoroutine

theorem spawned_of_proceed {progress : Progress} {other : Nat} {call : Call}
    (h : (network.proceed coroutine progress).coroutines[other]? = some { call })
    (hprogress : progress ≠ .spawned) :
    network.coroutines[other]? = some { call } := by
  rw [coroutines_proceed] at h
  split at h
  · obtain ⟨old, -, hnew⟩ := Option.map_eq_some_iff.mp h
    exact absurd (congrArg Coroutine.progress hnew) hprogress
  · exact h

/-- No step makes a coroutine that has not begun. -/
theorem spawned_before (hstep : step network e = some t) {other : Nat} {call : Call}
    (h : t.coroutines[other]? = some { call }) : network.coroutines[other]? = some { call } := by
  cases step_cases hstep with
  | suspends => exact spawned_of_proceed h nofun
  | returns => exact spawned_of_proceed h nofun
  | resume => exact spawned_of_proceed h nofun
  | complete coroutine call outcome =>
    rw [(handle_frame _ _ _).2] at h
    exact spawned_of_proceed h nofun
  | background => exact h

/-- The last coroutine is a `disconnect`. -/
theorem Closing.last_eq (closing : network.Closing config last) {call : Call}
    {progress : Progress} (h : network.coroutines[last]? = some { call, progress }) :
    call = .disconnect ∧ Stage network.manager progress := by
  obtain ⟨progress', hlast, stage⟩ := closing.stage
  obtain ⟨rfl, rfl⟩ := Coroutine.mk.inj (Option.some.inj (h.symm.trans hlast))
  exact ⟨rfl, stage⟩

/-- The last coroutine after one of the coroutines has moved on. -/
theorem Closing.stage_proceed (closing : network.Closing config last) {progress : Progress}
    (moved : coroutine = last → Stage manager progress)
    (stays : ∀ progress, coroutine ≠ last → Stage network.manager progress →
      Stage manager progress) :
    ∃ progress', ({ network with manager }.proceed coroutine progress).coroutines[last]? =
      some { call := .disconnect, progress := progress' } ∧ Stage manager progress' := by
  obtain ⟨before, hlast, stage⟩ := closing.stage
  rw [coroutines_proceed]
  split
  next heq =>
    refine ⟨progress, ?_, moved heq⟩
    rw [hlast]
    rfl
  next hne => exact ⟨before, hlast, stays before hne stage⟩

theorem stage_step (closing : network.Closing config last) (hstep : step network e = some t) :
    ∃ progress, t.coroutines[last]? = some { call := .disconnect, progress } ∧
      Stage t.manager progress := by
  obtain ⟨phase, inPhase⟩ := closing.reached.phase
  cases step_cases hstep with
  | suspends coroutine call manager hcoroutine hbegins hopen =>
    obtain rfl := closing.begun coroutine call hcoroutine
    refine closing.stage_proceed (fun _ => ?_) fun _ hne => absurd rfl hne
    obtain ⟨rfl, -⟩ := closing.last_eq hcoroutine
    obtain rfl := Option.some.inj hbegins
    obtain ⟨hsame, -⟩ | ⟨hstate, hbefore⟩ :=
      ConnectionManager.state_disconnect network.manager
    · rw [hsame] at hopen
      exact absurd hopen.lt_nextPlace (Nat.lt_irrefl _)
    · refine .waiting _ hstate ?_
      rw [ConnectionManager.disconnect_waits hbefore]
      exact List.getElem?_concat_length
  | returns coroutine call outcome hcoroutine immediate =>
    obtain rfl := closing.begun coroutine call hcoroutine
    refine closing.stage_proceed (fun _ => ?_) fun _ hne => absurd rfl hne
    obtain ⟨rfl, -⟩ := closing.last_eq hcoroutine
    cases immediate with
    | disconnected state => exact .ended state
  | resume coroutine call place manager result hcoroutine hresumes hresult =>
    have hother : resumption place call ≠ .connect := by cases call <;> exact fun h => by cases h
    refine closing.stage_proceed ?_ fun _ _ stage => stage.step inPhase hresumes hother
    rintro rfl
    obtain ⟨rfl, stage⟩ := closing.last_eq hcoroutine
    obtain rfl := Option.some.inj hresult
    cases stage with
    | released _ state => exact .ended (disconnected_step inPhase hresumes hother state)
    | waiting _ _ waiter =>
      -- a waiter that waits cannot be resumed
      cases ConnectionManager.step_cases hresumes with
      | resumeDisconnect _ hreleased =>
        rw [waiter] at hreleased
        cases hreleased
  | complete coroutine call outcome hcoroutine =>
    obtain ⟨hmanager, hcoroutines⟩ :=
      handle_frame (network.proceed coroutine .completed) call.operation outcome
    rw [hmanager, hcoroutines]
    refine closing.stage_proceed ?_ fun _ _ stage => stage
    rintro rfl
    obtain ⟨rfl, stage⟩ := closing.last_eq hcoroutine
    cases stage with
    | ended state => exact .completed state
  | background event manager hbackground hmanager =>
    have hother : event ≠ .connect := by
      rintro rfl
      cases hbackground
    obtain ⟨progress, hlast, stage⟩ := closing.stage
    exact ⟨progress, hlast, stage.step inPhase hmanager hother⟩

/-- With all others begun no more requests are sent. -/
theorem Closing.calls_length (closing : network.Closing config last)
    (hstep : step network e = some t) :
    t.manager.requests.calls.length = network.manager.requests.calls.length := by
  cases step_cases hstep with
  | suspends coroutine call manager hcoroutine hbegins =>
    obtain rfl := closing.begun coroutine call hcoroutine
    obtain ⟨rfl, -⟩ := closing.last_eq hcoroutine
    exact ConnectionManager.calls_length_of_ne_send hbegins fun _ => nofun
  | returns => rfl
  | resume coroutine call place manager result hcoroutine hresumes =>
    refine ConnectionManager.calls_length_of_ne_send hresumes fun _ => ?_
    cases call <;> nofun
  | complete => rw [(handle_frame _ _ _).1]; rfl
  | background event manager hbackground hmanager =>
    refine ConnectionManager.calls_length_of_ne_send hmanager fun _ => ?_
    rintro rfl
    cases hbackground

theorem Reached.of_step (reached : network.manager.Reached config)
    (hstep : step network e = some t) : t.manager.Reached config := by
  obtain hsame | ⟨event, hevent⟩ := manager_step hstep
  · rwa [hsame]
  · exact reached.step hevent

theorem closing_step (closing : network.Closing config last) (hstep : step network e = some t) :
    t.Closing config last where
  reached := Reached.of_step closing.reached hstep
  owned := owned_step closing.owned hstep
  covered := covered_step closing.reached closing.covered hstep
  few := by
    rw [closing.calls_length hstep]
    exact closing.few
  begun coroutine call h := closing.begun coroutine call (spawned_before hstep h)
  stage := stage_step closing hstep

/-- The events that wind the component up: nothing is received and no request times out. -/
def winds : Event → Bool
  | .run _ | .resume _ | .complete _ => true
  | .background (.connectCompletes _ _) | .background (.closeNotification _) => true
  | .background (.request (.linkCloses _)) => true
  | .background _ => false

section Winding

/-- A state in which only the coroutines that wait are left. -/
structure Settled (config : Config) (last : Nat) (network : NetworkComponent) : Prop where
  closing : network.Closing config last
  begun : network.Begun

theorem Settled.step (settled : network.Settled config last) (hstep : step network e = some t) :
    t.Settled config last where
  closing := closing_step settled.closing hstep
  begun := begun_of_ne fun coroutine call h =>
    settled.begun.ne coroutine call (spawned_before hstep h)

/-- The last coroutine begins. -/
theorem begins_leadsTo : Machine.LeadsTo step (winds · = true) (Closing config last)
    (Settled config last) := by
  refine .ofStep fun network closing => ?_
  obtain ⟨progress, hlast, stage⟩ := closing.stage
  by_cases hprogress : progress = .spawned
  · subst hprogress
    obtain ⟨t, hstep⟩ : ∃ t, step network (.run last) = some t := by
      simp only [step, hlast]
      exact ⟨_, rfl⟩
    have begun : ∀ call, t.coroutines[last]? ≠ some ({ call } : Coroutine) := by
      intro call h
      cases step_cases hstep with
      | suspends =>
        rw [coroutines_proceed, if_pos rfl, hlast] at h
        cases h
      | returns =>
        rw [coroutines_proceed, if_pos rfl, hlast] at h
        cases h
    refine .inr ⟨.run last, t, rfl, hstep, closing_step closing hstep,
      begun_of_ne fun coroutine call h => ?_⟩
    obtain rfl := closing.begun coroutine call (spawned_before hstep h)
    exact begun call h
  · refine .inl ⟨closing, begun_of_ne fun coroutine call h => ?_⟩
    obtain rfl := closing.begun coroutine call h
    obtain ⟨-, hnone⟩ := Coroutine.mk.inj (Option.some.inj (hlast.symm.trans h))
    exact hprogress hnone

/-- A coroutine resumes. -/
theorem Waits.step_resume {place : Nat} {call : Call} (h : network.Waits coroutine call place)
    (hresumes : ConnectionManager.step network.manager (resumption place call) = some manager)
    (houtcome : (outcome manager place call).isSome) :
    ∃ result, step network (.resume coroutine) =
      some ({ network with manager }.proceed coroutine (.ended result)) := by
  obtain ⟨result, hresult⟩ := Option.isSome_iff_exists.mp houtcome
  have hcoroutine : network.coroutines[coroutine]? =
    some { call, progress := .suspended place } := h
  refine ⟨result, ?_⟩
  simp only [step, hcoroutine, hresumes, Option.bind_some, hresult, Option.map_some]

/-- One event leads to `Disconnected`. -/
def Nearly (network : NetworkComponent) : Prop :=
  ∃ e t, winds e = true ∧ step network e = some t ∧ t.manager.state = .disconnected

/-- A cancelled attempt whose completion is queued ends when its coroutine resumes. -/
theorem Closing.nearly_cancelled (closing : network.Closing config last) {attempt : Nat}
    (inPhase : network.manager.InPhase (.cancelling attempt)) {error : Option ErrorCode}
    (hattempt : network.manager.attempts[attempt]? = some { completion := some error }) :
    network.Nearly := by
  obtain ⟨coroutine, hwaits⟩ := closing.covered attempt ⟨_, hattempt, rfl⟩
  obtain ⟨manager, hresumes, result, a, ha, hresult⟩ := inPhase.resumes hattempt
  have hstate : manager.state = .disconnected := by
    obtain ⟨hphase, -⟩ | ⟨threw, -⟩ := inPhase.resume hresumes
    · cases hphase
    · exact threw.state
  have houtcome : (outcome manager attempt .connect).isSome := by
    simp only [outcome, ha, Option.bind_some, hresult, Option.map_some, Option.isSome_some]
  obtain ⟨result, hstep⟩ := hwaits.step_resume hresumes houtcome
  exact ⟨.resume coroutine, _, rfl, hstep, hstate⟩

/-- A connection whose socket is closed is gone with its notification. -/
theorem nearly_closed {link : Nat} (inPhase : network.manager.InPhase (.closing link)) {l : Link}
    (hlink : network.manager.requests.links[link]? = some l) (closed : l.closed = true)
    (notified : l.notified = false) : network.Nearly := by
  obtain ⟨requests, hcloses⟩ : ∃ requests, ClientRequestManager.step network.manager.requests
      (.closeNotification link) = some requests := by
    simp only [ClientRequestManager.step, hlink, closed, notified, Bool.not_false, Bool.and_self,
      if_true]
    exact ⟨_, rfl⟩
  obtain ⟨honClosed, -, hnext⟩ := inPhase.closeNotification hcloses
  refine ⟨.background (.closeNotification link),
    { network with
      manager := ({ network.manager with requests } : ConnectionManager).connectionClosed },
    rfl, ?_, hnext.state⟩
  simp only [step, background, if_true, ConnectionManager.step, hcloses, Option.map_some,
    honClosed]

/-- Whatever is still open can be closed. -/
theorem nearly_leadsTo : Machine.LeadsTo step (winds · = true) (Settled config last)
    (fun network => network.Settled config last ∧
      (network.manager.state = .disconnected ∨ network.Nearly)) := by
  refine .ofStep fun network settled => ?_
  obtain ⟨phase, inPhase⟩ := settled.closing.reached.phase
  obtain ⟨progress, hlast, stage⟩ := settled.closing.stage
  have hprogress : progress ≠ .spawned := by
    rintro rfl
    exact settled.begun.ne last _ hlast
  obtain hstate | hstate := stage.state hprogress
  · exact .inl ⟨settled, .inl hstate⟩
  · cases phase with
    | disconnected | connecting | connected => cases inPhase.state.symm.trans hstate
    | cancelling attempt =>
      obtain ⟨a, ha, hresult⟩ := (inPhase.inFlight attempt).mpr rfl
      obtain ⟨completion, result⟩ := a
      obtain rfl : result = none := hresult
      cases completion with
      | some error => exact .inl ⟨settled, .inr (settled.closing.nearly_cancelled inPhase ha)⟩
      | none =>
        -- the socket is closed, so `async_connect` completes
        obtain ⟨manager, hcompletes, hqueued⟩ : ∃ manager,
            ConnectionManager.step network.manager
              (.connectCompletes attempt (some .operationAborted)) = some manager ∧
              manager.attempts[attempt]? =
                some { completion := some (some .operationAborted) } := by
          simp only [ConnectionManager.step, ha]
          exact ⟨_, rfl, by simp [ha]⟩
        have hstep : step network (.background
            (.connectCompletes attempt (some .operationAborted))) =
              some { network with manager } := by
          simp only [step, background, if_true, hcompletes, Option.map_some]
        have settled' := settled.step hstep
        refine .inr ⟨_, _, rfl, hstep, settled', .inr ?_⟩
        obtain ⟨next, hmoves, hnext⟩ := ConnectionManager.phase_step inPhase hcompletes
        cases hmoves with
        | stays => exact settled'.closing.nearly_cancelled hnext hqueued
    | closing link =>
      obtain ⟨l, hlink, -, hnotified⟩ := inPhase.closeToCome
      cases hclosed : l.closed with
      | true => exact .inl ⟨settled, .inr (nearly_closed inPhase hlink hclosed hnotified)⟩
      | false =>
        -- the connection has been told to stop, so its socket closes
        obtain ⟨manager, hcloses, hlater⟩ : ∃ manager,
            ConnectionManager.step network.manager (.request (.linkCloses link)) = some manager ∧
              manager.requests.links[link]? = some { l with closed := true } := by
          simp only [ConnectionManager.step, ConnectionManager.outside, if_true,
            ClientRequestManager.step, hlink, hclosed, Bool.false_eq_true, if_false,
            Option.map_some]
          exact ⟨_, rfl, by simp [hlink]⟩
        have hstep : step network (.background (.request (.linkCloses link))) =
            some { network with manager } := by
          simp only [step, background, if_true, hcloses, Option.map_some]
        have settled' := settled.step hstep
        refine .inr ⟨_, _, rfl, hstep, settled', .inr ?_⟩
        obtain ⟨next, hmoves, hnext⟩ := ConnectionManager.phase_step inPhase hcloses
        cases hmoves with
        | stays => exact nearly_closed hnext hlater rfl hnotified

theorem disconnected_leadsTo : Machine.LeadsTo step (winds · = true)
    (fun network : NetworkComponent => network.Settled config last ∧
      (network.manager.state = .disconnected ∨ network.Nearly))
    (fun network => network.Settled config last ∧ network.manager.state = .disconnected) := by
  refine .ofStep fun network ⟨settled, h⟩ => ?_
  obtain hstate | ⟨e, t, he, hstep, hstate⟩ := h
  · exact .inl ⟨settled, hstate⟩
  · exact .inr ⟨e, t, he, hstep, settled.step hstep, hstate⟩

/-- In `Disconnected` every coroutine can be resumed and completes. -/
theorem completes_leadsTo : Machine.LeadsTo step (winds · = true)
    (fun network => network.Settled config last ∧ network.manager.state = .disconnected)
    (fun network => network.manager.state = .disconnected ∧
      ∀ coroutine ∈ network.coroutines, coroutine.progress = .completed) := by
  refine .ofMeasure (fun network => Machine.total (·.progress.steps) network.coroutines) ?_
  rintro network ⟨settled, state⟩
  obtain ⟨phase, inPhase⟩ := settled.closing.reached.phase
  by_cases hdone : ∀ coroutine ∈ network.coroutines, coroutine.progress = .completed
  · exact .inl ⟨state, hdone⟩
  · right
    push Not at hdone
    obtain ⟨⟨call, progress⟩, hmem, hprogress⟩ := hdone
    obtain ⟨k, hk⟩ := List.mem_iff_getElem?.mp hmem
    cases progress with
    | spawned => exact absurd hk (settled.begun.ne k call)
    | suspended place =>
      obtain ⟨manager, hresumes, houtcome⟩ := settled.closing.reached.resumable
        settled.closing.few state (settled.closing.owned.isOpen k call place hk)
      obtain ⟨result, hstep⟩ := Waits.step_resume hk hresumes houtcome
      have hother : resumption place call ≠ .connect := by cases call <;> exact fun h => by cases h
      refine ⟨.resume k, _, rfl, hstep, ⟨settled.step hstep, ?_⟩, ?_⟩
      · exact disconnected_step inPhase hresumes hother state
      · exact Machine.total_modify_lt hk (Nat.lt_succ_self 1)
    | ended outcome =>
      have hstep : step network (.complete k) =
          some ((network.proceed k .completed).handle call.operation outcome) := by
        simp only [step, hk]
      obtain ⟨hmanager, hcoroutines⟩ :=
        handle_frame (network.proceed k .completed) call.operation outcome
      refine ⟨.complete k, _, rfl, hstep, ⟨settled.step hstep, ?_⟩, ?_⟩
      · rw [hmanager]
        exact state
      · rw [hcoroutines]
        exact Machine.total_modify_lt hk (Nat.lt_succ_self 0)
    | completed => exact absurd rfl hprogress

/-- From wherever the component is, it can be wound up. -/
theorem closing_leadsTo : Machine.LeadsTo step (winds · = true) (Closing config last)
    (fun network => network.manager.state = .disconnected ∧
      ∀ coroutine ∈ network.coroutines, coroutine.progress = .completed) :=
  begins_leadsTo.trans (nearly_leadsTo.trans (disconnected_leadsTo.trans completes_leadsTo))

end Winding

/-- What the destructor finds when its `disconnect` is over. -/
structure Quiet (manager : ConnectionManager) : Prop where
  state : manager.state = .disconnected
  attempts : ∀ attempt, ¬ manager.InFlight attempt
  socket : manager.connectingSocket = none
  connection : manager.requests.connection = none
  links : ∀ link ∈ manager.requests.links, link.notified = true

theorem quiet_of_disconnected (reached : manager.Reached config)
    (state : manager.state = .disconnected) : Quiet manager := by
  obtain ⟨phase, inPhase⟩ := reached.phase
  obtain ⟨attempts, socket, connection⟩ := inPhase.agrees.disconnected state
  refine ⟨state, attempts, socket, connection, fun link hmem => ?_⟩
  obtain ⟨i, hi⟩ := List.mem_iff_getElem?.mp hmem
  cases hnotified : link.notified with
  | true => rfl
  | false =>
    -- it would be the current connection
    have hcurrent := inPhase.attached.others i link.stopPosted (by
      simp only [ClientRequestManager.notices, List.getElem?_map, hi, Option.map_some, hnotified])
    rw [← inPhase.attached.connection, connection] at hcurrent
    cases hcurrent

/-- The last coroutine on its way: it never lets the client connect again, it does not throw,
and it returns to a client that has nothing open. -/
structure LastDisconnect (last : Nat) (network : NetworkComponent) : Prop where
  begun : ∀ progress, network.coroutines[last]? = some { call := .disconnect, progress } →
    progress ≠ .spawned →
    network.manager.state = .disconnected ∨ network.manager.state = .disconnecting
  ended : ∀ outcome, network.coroutines[last]? =
    some { call := .disconnect, progress := .ended outcome } →
    outcome = .ok none ∧ Quiet network.manager
  completed : network.coroutines[last]? = some { call := .disconnect, progress := .completed } →
    Quiet network.manager

theorem Closing.lastDisconnect (closing : network.Closing config last) :
    network.LastDisconnect last := by
  refine ⟨fun progress h hbegun => ?_, fun outcome h => ?_, fun h => ?_⟩
  · exact (closing.last_eq h).2.state hbegun
  · cases (closing.last_eq h).2 with
    | ended state => exact ⟨rfl, quiet_of_disconnected closing.reached state⟩
  · cases (closing.last_eq h).2 with
    | completed state => exact quiet_of_disconnected closing.reached state

/-- What is known of a component in a run from the start. -/
structure Ready (config : Config) (network : NetworkComponent) : Prop where
  reached : network.manager.Reached config
  owned : network.Owned
  covered : network.Covered

theorem ready_initial (config : Config) :
    Ready config { manager := ConnectionManager.initial config } where
  reached := ConnectionManager.reached_initial config
  owned := owned_initial _
  covered attempt := by simp [ConnectionManager.InFlight, ConnectionManager.initial]

theorem Ready.spawn (ready : network.Ready config) (call : Call) :
    (network.spawn call).Ready config where
  reached := ready.reached
  owned := ready.owned.spawn call
  covered attempt flight := by
    obtain ⟨coroutine, hwaits⟩ := ready.covered attempt flight
    refine ⟨coroutine, ?_⟩
    have hlt := (List.getElem?_eq_some_iff.mp hwaits).1
    rw [Waits, NetworkComponent.spawn, List.getElem?_append_left hlt]
    exact hwaits

theorem ready_step (ready : network.Ready config) (hstep : step network e = some t) :
    t.Ready config where
  reached := Reached.of_step ready.reached hstep
  owned := owned_step ready.owned hstep
  covered := covered_step ready.reached ready.covered hstep

theorem ready_exec {es : List NetworkSession.Event} {session : NetworkSession}
    (run : Machine.exec NetworkSession.step
      { network := { manager := ConnectionManager.initial config } } es = some session) :
    session.network.Ready config := by
  have keep :
      Machine.Invariant NetworkSession.step fun session => session.network.Ready config := by
    intro session e t ready hstep
    cases e with
    | spawn call =>
      obtain rfl := Option.some.inj hstep
      exact ready.spawn call
    | drain =>
      obtain rfl := Option.some.inj hstep
      exact ⟨ready.reached, ready.owned.congr rfl rfl, ready.covered⟩
    | worker event =>
      obtain ⟨network, hnetwork, rfl⟩ := Option.map_eq_some_iff.mp hstep
      exact ready_step ready hnetwork
  exact keep.exec (ready_initial config) run

/-- The destructor's `disconnect` is the last coroutine. -/
theorem Ready.closing (ready : network.Ready config) (begun : network.Begun)
    (few : network.manager.requests.calls.length < UInt64.size) :
    network.shutdown.Closing config network.coroutines.length := by
  have ready' := ready.spawn .disconnect
  refine ⟨ready'.reached, ready'.owned, ready'.covered, few, fun coroutine call h => ?_,
    .spawned, List.getElem?_concat_length, .spawned⟩
  obtain hold | ⟨hlast, -⟩ := getElem?_concat_cases h
  · exact absurd hold (begun.ne coroutine call)
  · exact hlast

/-- Whatever the worker thread does once the destructor has begun, its `disconnect` behaves,
and a run without messages and timeouts is left that completes all coroutines. -/
theorem destructor_returns (config : Config) {es : List NetworkSession.Event}
    {session : NetworkSession}
    (run : Machine.exec NetworkSession.step
      { network := { manager := ConnectionManager.initial config } } es = some session)
    (begun : session.network.Begun)
    (few : session.network.manager.requests.calls.length < UInt64.size) {fs : List Event}
    (hrun : Machine.exec step session.network.shutdown fs = some t) :
    t.LastDisconnect session.network.coroutines.length ∧
      ∃ gs u, Machine.exec step t gs = some u ∧ (∀ e ∈ gs, winds e = true) ∧
        Quiet u.manager ∧ ∀ coroutine ∈ u.coroutines, coroutine.progress = .completed := by
  have keep : Machine.Invariant step (Closing config session.network.coroutines.length) :=
    fun _ _ _ => closing_step
  have closing := keep.exec ((ready_exec run).closing begun few) hrun
  obtain ⟨gs, u, hgs, hwinds, hstate, hdone⟩ := closing_leadsTo t closing
  have closed := keep.exec closing hgs
  exact ⟨closing.lastDisconnect, gs, u, hgs, hwinds,
    quiet_of_disconnected closed.reached hstate, hdone⟩

/-- A client that is connected and waits for a response is destroyed. -/
def destroyed : List NetworkSession.Event :=
  [.spawn .connect, .worker (.run 0), .worker (.background (.connectCompletes 0 none)),
    .worker (.resume 0), .worker (.complete 0), .spawn (.sendRequest (.ping {})),
    .worker (.run 1)]

theorem destructor_returns_destroyed :
    ∃ session t u gs, Machine.exec NetworkSession.step
        { network := { manager := ConnectionManager.initial {} } } destroyed = some session ∧
      session.network.state = .connected ∧
      Machine.exec step session.network.shutdown [.run 2] = some t ∧
      t.state = .disconnecting ∧ t.LastDisconnect session.network.coroutines.length ∧
      Machine.exec step t gs = some u ∧ Quiet u.manager ∧
      ∀ coroutine ∈ u.coroutines, coroutine.progress = .completed := by
  obtain ⟨session, run, begun, few, hconnected, t, hrun, hstate⟩ : ∃ session,
      Machine.exec NetworkSession.step
        { network := { manager := ConnectionManager.initial {} } } destroyed = some session ∧
      session.network.Begun ∧
      session.network.manager.requests.calls.length < UInt64.size ∧
      session.network.state = .connected ∧
      ∃ t, Machine.exec step session.network.shutdown [.run 2] = some t ∧
        t.state = .disconnecting :=
    ⟨_, rfl, by decide, by decide, rfl, _, rfl, rfl⟩
  obtain ⟨hlast, gs, u, hgs, -, hquiet, hdone⟩ := destructor_returns {} run begun few hrun
  exact ⟨session, t, u, gs, run, hconnected, hrun, hstate, hlast, hgs, hquiet, hdone⟩

end NetworkComponent

end Stalker2D.Client
