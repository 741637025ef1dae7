import Stalker2D.Client.ConnectionAttempts
import Stalker2D.Client.NetworkComponent
import Stalker2D.Client.PendingRequests

/-!
# What the coroutines wait for

A suspended coroutine waits for one event of the manager: the resumption of its attempt,
its waiter or its request frame. The frame it waits in stays open until that event, and no
two coroutines wait for the same one, so no coroutine can take the resumption of another.
-/

namespace Stalker2D.Client

open Protocol

namespace ClientRequestManager

variable {manager t : ClientRequestManager} {e : Event}

/-- The text of a request that was in flight when its connection was lost. -/
def connectionLost : String := "Connection closed before response was received"

/-- What one event does to a frame, with the event it takes. -/
inductive Turns (e : Event) (frame : Nat) (old : SendCall) : SendCall → Prop
  | same : Turns e frame old old
  | failed (reason : String) (cause : e = .stop reason ∨ reason = connectionLost) :
      Turns e frame old (old.fail reason)
  | completed (message : ServerMessage) (position : Nat) :
      Turns e frame old (old.complete message position)
  | expired : Turns e frame old old.expire
  | ended (event : e = .resume frame) (result : SendResult) (position : Nat) :
      Turns e frame old (old.finish result position)

theorem turns_failPendingRequests {e : Event} {reason : String}
    (cause : e = .stop reason ∨ reason = connectionLost) {frame : Nat} {old : SendCall}
    (hold : manager.calls[frame]? = some old) :
    ∃ later, (manager.failPendingRequests reason).calls[frame]? = some later ∧
      Turns e frame old later := by
  rw [calls_failPendingRequests, hold]
  refine ⟨_, rfl, ?_⟩
  split
  · exact .failed reason cause
  · exact .same

/-- A frame stays, and only its own resumption ends it. -/
theorem turns_step (hstep : step manager e = some t) {frame : Nat} {old : SendCall}
    (hold : manager.calls[frame]? = some old) :
    ∃ later, t.calls[frame]? = some later ∧ Turns e frame old later := by
  cases step_cases hstep with
  | start socket onClosed =>
    refine ⟨old, ?_, .same⟩
    obtain h | h := start_cases manager socket onClosed
    · rw [h, hold]
    · rw [h, hold]
  | stop reason =>
    obtain h | ⟨link, -, h⟩ := stop_cases manager reason
    · exact ⟨old, by rw [h, hold], .same⟩
    · rw [h]
      exact turns_failPendingRequests (.inl rfl) hold
  | send message => exact ⟨old, follows_send manager message hold, .same⟩
  | receive message =>
    rw [calls_receive, hold]
    refine ⟨_, rfl, ?_⟩
    split
    · exact .completed message _
    · exact .same
  | timerExpires expired =>
    rw [calls_expire, hold]
    refine ⟨_, rfl, ?_⟩
    split
    · exact .expired
    · exact .same
  | resume resumed call error =>
    rw [calls_resumeSend_eq, List.getElem?_modify, hold]
    refine ⟨_, rfl, ?_⟩
    split
    next h =>
      subst h
      exact .ended rfl _ _
    next => exact .same
  | linkCloses link => exact ⟨old, hold, .same⟩
  | closeNotification link => exact turns_failPendingRequests (.inr rfl) hold

theorem Turns.message {frame : Nat} {old later : SendCall} (h : Turns e frame old later) :
    later.message = old.message := by
  cases h with
  | completed message position => exact SendCall.complete_message message position
  | same | failed | expired | ended => rfl

theorem Turns.result {frame : Nat} {old later : SendCall} (h : Turns e frame old later)
    (other : e ≠ .resume frame) : later.result = old.result := by
  cases h with
  | completed message position => exact SendCall.complete_result message position
  | same | failed | expired => rfl
  | ended event => exact absurd event other

/-- Every failed request carries one of these texts. -/
def FailsWith (reasons : List String) (manager : ClientRequestManager) : Prop :=
  ∀ (frame : Nat) call, manager.calls[frame]? = some call → call.pending.state = .failed →
    call.pending.error ∈ reasons

theorem Turns.failsWith {reasons : List String} {frame : Nat} {old later : SendCall}
    (h : Turns e frame old later)
    (listed : connectionLost ∈ reasons ∧ ∀ reason, e = .stop reason → reason ∈ reasons)
    (before : old.pending.state = .failed → old.pending.error ∈ reasons)
    (hfailed : later.pending.state = .failed) : later.pending.error ∈ reasons := by
  cases h with
  | same | expired | ended => exact before hfailed
  | failed reason cause =>
    by_cases hw : old.pending.state = .waiting
    · rw [SendCall.fail_of_waiting hw]
      obtain hstop | rfl := cause
      · exact listed.2 reason hstop
      · exact listed.1
    · rw [SendCall.fail_of_ne hw] at hfailed ⊢
      exact before hfailed
  | completed message position =>
    by_cases hw : old.pending.state = .waiting
    · rw [SendCall.complete_of_waiting hw] at hfailed
      cases hfailed
    · rw [SendCall.complete_of_ne hw] at hfailed ⊢
      exact before hfailed

theorem failsWith_step {reasons : List String} (before : FailsWith reasons manager)
    (listed : connectionLost ∈ reasons ∧ ∀ reason, e = .stop reason → reason ∈ reasons)
    (hstep : step manager e = some t) : FailsWith reasons t := by
  intro frame call hcall hfailed
  by_cases hlt : frame < manager.calls.length
  · have hold := List.getElem?_eq_getElem hlt
    obtain ⟨later, hlater, turns⟩ := turns_step hstep hold
    obtain rfl := Option.some.inj (hcall.symm.trans hlater)
    exact turns.failsWith listed (before frame _ hold) hfailed
  · have hframe := (List.getElem?_eq_some_iff.mp hcall).1
    obtain ⟨hlength, -⟩ | ⟨link, message, -, -, rfl⟩ := calls_length_step hstep
    · omega
    · rw [calls_sent] at hcall
      obtain hold | ⟨-, rfl⟩ := getElem?_concat_cases hcall
      · exact absurd (List.getElem?_eq_some_iff.mp hold).1 hlt
      · cases hfailed

end ClientRequestManager

namespace ConnectionManager

variable {manager t : ConnectionManager} {e : Event} {place : Nat} {call : Call}

/-- With its owner the request manager makes one of its own steps or none. -/
theorem requests_step (hstep : step manager e = some t) :
    t.requests = manager.requests ∨ ∃ event,
      ClientRequestManager.step manager.requests event = some t.requests ∧
        (outside event = true → e = .request event) ∧
        ∀ reason, event = .stop reason → reason = "client disconnected" := by
  have habandon : manager.abandon.requests = manager.requests := setState_requests ..
  cases step_cases hstep with
  | connect =>
    left
    rw [connect]
    split
    · rfl
    · exact setState_requests ..
  | disconnect =>
    cases hstate : manager.state with
    | disconnected | disconnecting => exact .inl (by simp only [disconnect, hstate, wait])
    | connecting =>
      exact .inl (by simp only [disconnect, hstate, wait, closeConnectingSocket,
        setState_requests])
    | connected =>
      refine .inr ⟨.stop "client disconnected", ?_, Bool.noConfusion, ?_⟩
      · simp only [ClientRequestManager.step, disconnect, hstate, wait, setState_requests]
      · rintro reason h
        exact (ClientRequestManager.Event.stop.inj h).symm
  | connectCompletes | resumeDisconnect => exact .inl rfl
  | abandons => exact .inl habandon
  | starts attempt socket =>
    refine .inr ⟨.start socket.attempt true, ?_, Bool.noConfusion, fun _ h => by cases h⟩
    simp only [ClientRequestManager.step, startRequests]
    split
    next h => simp only [finish, setState_requests, h]
    next h => simp only [finish, setState_requests, h]
  | closeNotification link requests hcloses =>
    refine .inr ⟨.closeNotification link, ?_, Bool.noConfusion, fun _ h => by cases h⟩
    rw [hcloses]
    simp only [connectionClosed]
    split
    · split
      · rw [setState_requests]
      · rfl
    · rfl
  | request event requests houtside hrequests =>
    refine .inr ⟨event, hrequests, fun _ => rfl, ?_⟩
    rintro reason rfl
    cases houtside

/-- What is known of a manager in a run from the start. -/
structure Reached (config : Config) (manager : ConnectionManager) : Prop where
  phase : ∃ phase, manager.InPhase phase
  bounded : manager.requests.Bounded config
  tracked : ∃ sentOn, Journal.Tracked { manager := manager.requests, sentOn }
  fails : manager.requests.FailsWith ["client disconnected", ClientRequestManager.connectionLost]

theorem reached_initial (config : Config) : Reached config (initial config) where
  phase := ⟨_, inPhase_initial config⟩
  bounded := ClientRequestManager.bounded_initial config
  tracked := ⟨[], Journal.tracked_initial config⟩
  fails _ _ h := by simp [initial] at h

theorem Reached.wellFormed {config : Config} (reached : manager.Reached config) :
    manager.requests.WellFormed := by
  obtain ⟨sentOn, tracked⟩ := reached.tracked
  exact tracked.wellFormed

theorem Reached.step {config : Config} (reached : manager.Reached config)
    (hstep : step manager e = some t) : t.Reached config := by
  obtain ⟨phase, inPhase⟩ := reached.phase
  obtain ⟨next, -, hnext⟩ := phase_step inPhase hstep
  obtain hsame | ⟨event, hevent, -, hreason⟩ := requests_step hstep
  · exact ⟨⟨next, hnext⟩, hsame ▸ reached.bounded, hsame ▸ reached.tracked, hsame ▸ reached.fails⟩
  · obtain ⟨sentOn, tracked⟩ := reached.tracked
    obtain ⟨sentOn', hjournal⟩ : ∃ sentOn',
        Journal.step { manager := manager.requests, sentOn } event =
          some { manager := t.requests, sentOn := sentOn' } := by
      simp only [Journal.step, hevent, Option.map_some]
      exact ⟨_, rfl⟩
    refine ⟨⟨next, hnext⟩, ?_, ⟨sentOn', tracked.step hjournal⟩, ?_⟩
    · exact ClientRequestManager.invariant_bounded config _ _ _ reached.bounded hevent
    · refine ClientRequestManager.failsWith_step reached.fails ⟨by simp, ?_⟩ hevent
      intro reason h
      rw [hreason reason h]
      exact List.mem_cons_self ..

/-- Frames are only added. -/
theorem calls_length_le (hstep : step manager e = some t) :
    manager.requests.calls.length ≤ t.requests.calls.length := by
  obtain hsame | ⟨event, hevent, -⟩ := requests_step hstep
  · exact Nat.le_of_eq (by rw [hsame])
  · obtain ⟨hlength, -⟩ | ⟨link, message, -, -, hsent⟩ :=
      ClientRequestManager.calls_length_step hevent
    · exact Nat.le_of_eq hlength.symm
    · rw [hsent, ClientRequestManager.calls_sent, List.length_append]
      exact Nat.le_add_right _ _

/-- The frame number `place` of a call has not been resumed yet. -/
def Open (manager : ConnectionManager) (place : Nat) : Call → Prop
  | .connect => manager.InFlight place
  | .disconnect => ∃ waiter, manager.waiters[place]? = some waiter ∧ waiter ≠ .returned
  | .sendRequest request => ∃ frame, manager.requests.calls[place]? = some frame ∧
      frame.result = none ∧ frame.message.payload = some request

/-- A waiter that has not returned is touched by its own resumption only. -/
theorem open_waiter_step (hstep : step manager e = some t) (other : e ≠ .resumeDisconnect place)
    {waiter : Waiter} (hwaiter : manager.waiters[place]? = some waiter)
    (hreturned : waiter ≠ .returned) :
    ∃ later, t.waiters[place]? = some later ∧ later ≠ .returned := by
  rw [waiters_step hstep]
  split
  · refine ⟨waiter.release, by rw [List.getElem?_map, hwaiter, Option.map_some], ?_⟩
    cases waiter with
    | waiting | released => exact nofun
    | returned => exact absurd rfl hreturned
  · refine ⟨waiter, ?_, hreturned⟩
    cases e with
    | disconnect =>
      dsimp only
      split
      · exact hwaiter
      · rw [List.getElem?_append_left (List.getElem?_eq_some_iff.mp hwaiter).1, hwaiter]
    | resumeDisconnect resumed =>
      have hne : resumed ≠ place := fun h => other (by rw [h])
      rw [List.getElem?_set_ne hne, hwaiter]
    | _ => exact hwaiter

/-- An open frame stays open until its own resumption. -/
theorem open_step (hstep : step manager e = some t) (isOpen : manager.Open place call)
    (other : e ≠ NetworkComponent.resumption place call) : t.Open place call := by
  cases call with
  | connect =>
    show t.InFlight place
    obtain h | h | ⟨k, error, h⟩ | ⟨k, result, rfl, -, h⟩ := attempts_step hstep
    · simpa only [Open, InFlight, h] using isOpen
    · exact (inFlight_append h place).mpr (.inl isOpen)
    · exact (inFlight_complete k error h place).mpr isOpen
    · have hne : place ≠ k := fun hk => other (by rw [hk]; rfl)
      have hstays := (inFlight_finish k result place).mpr ⟨isOpen, hne⟩
      simpa only [InFlight, h] using hstays
  | disconnect =>
    obtain ⟨waiter, hwaiter, hreturned⟩ := isOpen
    exact open_waiter_step hstep other hwaiter hreturned
  | sendRequest request =>
    obtain ⟨frame, hframe, hresult, hpayload⟩ := isOpen
    obtain hsame | ⟨event, hevent, hresume, -⟩ := requests_step hstep
    · exact ⟨frame, by rw [hsame, hframe], hresult, hpayload⟩
    · obtain ⟨later, hlater, turns⟩ := ClientRequestManager.turns_step hevent hframe
      refine ⟨later, hlater, ?_, by rw [turns.message, hpayload]⟩
      rw [turns.result, hresult]
      rintro rfl
      exact other (hresume rfl)

/-- The number of the next frame of a call. -/
def nextPlace (manager : ConnectionManager) : Call → Nat
  | .connect => manager.attempts.length
  | .disconnect => manager.waiters.length
  | .sendRequest _ => manager.requests.calls.length

theorem Open.lt_nextPlace (isOpen : manager.Open place call) : place < manager.nextPlace call := by
  cases call with
  | connect =>
    obtain ⟨attempt, hattempt, -⟩ := isOpen
    exact (List.getElem?_eq_some_iff.mp hattempt).1
  | disconnect =>
    obtain ⟨waiter, hwaiter, -⟩ := isOpen
    exact (List.getElem?_eq_some_iff.mp hwaiter).1
  | sendRequest request =>
    obtain ⟨frame, hframe, -⟩ := isOpen
    exact (List.getElem?_eq_some_iff.mp hframe).1

end ConnectionManager

namespace NetworkComponent

variable {network t : NetworkComponent} {e : Event} {coroutine place place' : Nat}
variable {call call' : Call}

/-- The event with which a call begins. -/
def begins : Call → ConnectionManager.Event
  | .connect => .connect
  | .disconnect => .disconnect
  | .sendRequest request => .request (.send { payload := some request })

/-- How a call ends that does not suspend. -/
inductive Immediate (manager : ConnectionManager) :
    Call → Except Exception (Option NetworkResult) → Prop
  | notAllowed (state : manager.state ≠ .disconnected) :
      Immediate manager .connect
        (.error (.logicError "Connect is not allowed in current connection state"))
  | disconnected (state : manager.state = .disconnected) :
      Immediate manager .disconnect (.ok none)
  | notConnected (request : ClientPayload) (connection : manager.requests.connection = none) :
      Immediate manager (.sendRequest request) (.error (.runtimeError "Client is not connected"))
  | tooMany (request : ClientPayload)
      (full : manager.requests.config.maxPendingRequests ≤
        manager.requests.pendingRequests.size) :
      Immediate manager (.sendRequest request)
        (.error (.runtimeError "Too many pending client requests"))

/-- Everything one step of the worker thread can do, with the guards it met. -/
inductive Steps (network : NetworkComponent) : Event → NetworkComponent → Prop
  | suspends (coroutine : Nat) (call : Call) (manager : ConnectionManager)
      (hcoroutine : network.coroutines[coroutine]? = some { call })
      (hbegins : ConnectionManager.step network.manager (begins call) = some manager)
      (hopen : manager.Open (network.manager.nextPlace call) call) :
      Steps network (.run coroutine)
        ({ network with manager }.proceed coroutine
          (.suspended (network.manager.nextPlace call)))
  | returns (coroutine : Nat) (call : Call) (outcome : Except Exception (Option NetworkResult))
      (hcoroutine : network.coroutines[coroutine]? = some { call })
      (immediate : Immediate network.manager call outcome) :
      Steps network (.run coroutine) (network.proceed coroutine (.ended outcome))
  | resume (coroutine : Nat) (call : Call) (place : Nat) (manager : ConnectionManager)
      (result : Except Exception (Option NetworkResult))
      (hcoroutine : network.coroutines[coroutine]? =
        some { call, progress := .suspended place })
      (hresumes : ConnectionManager.step network.manager (resumption place call) = some manager)
      (hresult : outcome manager place call = some result) :
      Steps network (.resume coroutine)
        ({ network with manager }.proceed coroutine (.ended result))
  | complete (coroutine : Nat) (call : Call) (outcome : Except Exception (Option NetworkResult))
      (hcoroutine : network.coroutines[coroutine]? = some { call, progress := .ended outcome }) :
      Steps network (.complete coroutine)
        ((network.proceed coroutine .completed).handle call.operation outcome)
  | background (event : ConnectionManager.Event) (manager : ConnectionManager)
      (hbackground : NetworkComponent.background event = true)
      (hstep : ConnectionManager.step network.manager event = some manager) :
      Steps network (.background event) { network with manager }

/-- A `connect` begins with an attempt in flight, or it is not allowed. -/
theorem steps_run_connect
    (hcoroutine : network.coroutines[coroutine]? = some { call := .connect }) :
    network.Steps (.run coroutine) (network.run coroutine .connect) := by
  by_cases hstate : network.manager.state = .disconnected
  · have hconnect : network.manager.connect = (.ok (), network.manager.connect.2) := by
      simp [ConnectionManager.connect, hstate]
    have hrun : network.run coroutine .connect =
        { network with manager := network.manager.connect.2 }.proceed coroutine
          (.suspended network.manager.attempts.length) := by
      rw [run, hconnect]
    rw [hrun]
    refine .suspends coroutine .connect _ hcoroutine rfl ?_
    refine (ConnectionManager.inFlight_append ?_ _).mpr (.inr rfl)
    simp [ConnectionManager.connect, hstate]
  · have hconnect := ConnectionManager.connect_rejected hstate
    have hrun : network.run coroutine .connect = network.proceed coroutine
        (.ended (.error (.logicError "Connect is not allowed in current connection state"))) := by
      rw [run, hconnect]
    rw [hrun]
    exact .returns coroutine .connect _ hcoroutine (.notAllowed hstate)

/-- A `disconnect` begins with a wait, or there is nothing to wait for. -/
theorem steps_run_disconnect
    (hcoroutine : network.coroutines[coroutine]? = some { call := .disconnect }) :
    network.Steps (.run coroutine) (network.run coroutine .disconnect) := by
  by_cases hstate : network.manager.state = .disconnected
  · have hsame : network.manager.disconnect = network.manager := by
      simp [ConnectionManager.disconnect, hstate]
    rw [run, hsame, if_pos hstate]
    exact .returns coroutine .disconnect _ hcoroutine (.disconnected hstate)
  · rw [run, if_neg hstate]
    refine .suspends coroutine .disconnect _ hcoroutine rfl ⟨.waiting, ?_, fun h => by cases h⟩
    rw [ConnectionManager.disconnect_waits hstate]
    exact List.getElem?_concat_length

/-- A request begins with a frame in the map, or it is refused. -/
theorem steps_run_sendRequest {request : ClientPayload}
    (hcoroutine : network.coroutines[coroutine]? = some { call := .sendRequest request }) :
    network.Steps (.run coroutine) (network.run coroutine (.sendRequest request)) := by
  have hstep : ConnectionManager.step network.manager (begins (.sendRequest request)) =
      some { network.manager with
        requests := (network.manager.requests.send { payload := some request }).2 } := rfl
  cases hlink : network.manager.requests.connection with
  | none =>
    rw [run, ClientRequestManager.send, hlink]
    exact .returns coroutine _ _ hcoroutine (.notConnected request hlink)
  | some link =>
    by_cases hfull : network.manager.requests.config.maxPendingRequests ≤
        network.manager.requests.pendingRequests.size
    · rw [run, ClientRequestManager.send, hlink]
      simp only [hfull, if_true]
      exact .returns coroutine _ _ hcoroutine (.tooMany request hfull)
    · have hsend : network.manager.requests.send { payload := some request } =
          (.ok (), network.manager.requests.sent link { payload := some request }) := by
        obtain ⟨what, h⟩ | ⟨link', hlink', -, h⟩ :=
          ClientRequestManager.send_cases network.manager.requests { payload := some request }
        · rw [ClientRequestManager.send, hlink] at h
          simp only [hfull, if_false] at h
          cases congrArg Prod.fst h
        · obtain rfl := Option.some.inj (hlink.symm.trans hlink')
          exact h
      rw [hsend] at hstep
      have hopen := List.getElem?_concat_length (l := network.manager.requests.calls)
        (a := { message := network.manager.requests.stamp { payload := some request }
                sentAt := network.manager.requests.received.length })
      rw [run, hsend]
      exact .suspends coroutine (.sendRequest request) _ hcoroutine hstep ⟨_, hopen, rfl, rfl⟩

theorem step_cases (hstep : step network e = some t) : network.Steps e t := by
  cases e with
  | run coroutine =>
    simp only [step] at hstep
    split at hstep
    next call hcoroutine =>
      obtain rfl := Option.some.inj hstep
      cases call with
      | connect => exact steps_run_connect hcoroutine
      | disconnect => exact steps_run_disconnect hcoroutine
      | sendRequest request => exact steps_run_sendRequest hcoroutine
    next => cases hstep
  | resume coroutine =>
    simp only [step] at hstep
    split at hstep
    next call place hcoroutine =>
      obtain ⟨manager, hresumes, hnext⟩ := Option.bind_eq_some_iff.mp hstep
      obtain ⟨result, hresult, rfl⟩ := Option.map_eq_some_iff.mp hnext
      exact .resume coroutine call place manager result hcoroutine hresumes hresult
    next => cases hstep
  | complete coroutine =>
    simp only [step] at hstep
    split at hstep
    next call outcome hcoroutine =>
      obtain rfl := Option.some.inj hstep
      exact .complete coroutine call outcome hcoroutine
    next => cases hstep
  | background event =>
    simp only [step] at hstep
    split at hstep
    next hbackground =>
      obtain ⟨manager, hmanager, rfl⟩ := Option.map_eq_some_iff.mp hstep
      exact .background event manager hbackground hmanager
    next => cases hstep

theorem coroutines_proceed (network : NetworkComponent) (coroutine : Nat) (progress : Progress)
    (other : Nat) :
    (network.proceed coroutine progress).coroutines[other]? =
      if coroutine = other then (network.coroutines[other]?).map ({ · with progress })
      else network.coroutines[other]? := by
  simp only [proceed, List.getElem?_modify]
  split
  · rfl
  · cases network.coroutines[other]? <;> rfl

/-- Completion handlers publish and do nothing else. -/
theorem handle_frame (network : NetworkComponent) (operation : NetworkOperation)
    (outcome : Except Exception (Option NetworkResult)) :
    (network.handle operation outcome).manager = network.manager ∧
      (network.handle operation outcome).coroutines = network.coroutines := by
  cases outcome with
  | error e => exact ⟨rfl, rfl⟩
  | ok response => cases response <;> exact ⟨rfl, rfl⟩

/-- The coroutine is suspended in a frame. -/
def Waits (network : NetworkComponent) (coroutine : Nat) (call : Call) (place : Nat) : Prop :=
  network.coroutines[coroutine]? = some { call, progress := .suspended place }

/-- Every suspended coroutine has a frame of its own, and it is open. -/
structure Owned (network : NetworkComponent) : Prop where
  isOpen : ∀ coroutine call place, network.Waits coroutine call place →
    network.manager.Open place call
  distinct : ∀ coroutine coroutine' call call' place place',
    network.Waits coroutine call place → network.Waits coroutine' call' place' →
    resumption place call = resumption place' call' → coroutine = coroutine'

theorem owned_initial (manager : ConnectionManager) : Owned { manager } where
  isOpen _ _ _ h := by simp [Waits] at h
  distinct _ _ _ _ _ _ h := by simp [Waits] at h

theorem begins_ne_resumption (call call' : Call) (place : Nat) :
    begins call ≠ resumption place call' := by
  cases call <;> cases call' <;> nofun

theorem background_ne_resumption {event : ConnectionManager.Event}
    (hbackground : NetworkComponent.background event = true) (call : Call) (place : Nat) :
    event ≠ resumption place call := by
  rintro rfl
  cases call <;> cases hbackground

/-- Calls that wait for the same resumption number their frames together. -/
theorem resumption_inj (h : resumption place call = resumption place' call')
    (manager : ConnectionManager) :
    place = place' ∧ manager.nextPlace call = manager.nextPlace call' := by
  cases call <;> cases call' <;> cases h <;> exact ⟨rfl, rfl⟩

/-- After a coroutine has moved on, the others wait where they waited. -/
theorem waits_proceed {progress : Progress} {other : Nat}
    (h : (network.proceed coroutine progress).Waits other call place) :
    coroutine = other ∧ progress = .suspended place ∨
      coroutine ≠ other ∧ network.Waits other call place := by
  rw [Waits, coroutines_proceed] at h
  split at h
  next heq =>
    left
    obtain ⟨old, -, hnew⟩ := Option.map_eq_some_iff.mp h
    exact ⟨heq, congrArg Coroutine.progress hnew⟩
  next hne => exact .inr ⟨hne, h⟩

/-- A coroutine that begins to wait gets a frame nobody else waits in. -/
theorem Owned.suspends (owned : network.Owned) {manager : ConnectionManager}
    (hcoroutine : network.coroutines[coroutine]? = some { call })
    (hbegins : ConnectionManager.step network.manager (begins call) = some manager)
    (hopen : manager.Open (network.manager.nextPlace call) call) :
    ({ network with manager }.proceed coroutine
      (.suspended (network.manager.nextPlace call))).Owned := by
  have self : ∀ {call' : Call} {place' : Nat},
      ({ network with manager }.proceed coroutine
        (.suspended (network.manager.nextPlace call))).Waits coroutine call' place' →
      call' = call ∧ place' = network.manager.nextPlace call := by
    intro call' place' h
    rw [Waits, coroutines_proceed, if_pos rfl, hcoroutine] at h
    cases h
    exact ⟨rfl, rfl⟩
  have fresh : ∀ {other : Nat} {call' : Call} {place' : Nat},
      network.Waits other call' place' →
      resumption (network.manager.nextPlace call) call ≠ resumption place' call' := by
    intro other call' place' hwaits h
    obtain ⟨rfl, hnext⟩ := resumption_inj h network.manager
    have hlt := (owned.isOpen other call' _ hwaits).lt_nextPlace
    omega
  constructor
  · intro other call' place' h
    obtain ⟨rfl, -⟩ | ⟨-, hold⟩ := waits_proceed h
    · obtain ⟨rfl, rfl⟩ := self h
      exact hopen
    · exact ConnectionManager.open_step hbegins (owned.isOpen other call' place' hold)
        (begins_ne_resumption call call' place')
  · intro first second call₁ call₂ place₁ place₂ h₁ h₂ heq
    obtain ⟨rfl, -⟩ | ⟨-, hold₁⟩ := waits_proceed h₁
    · obtain ⟨rfl, -⟩ | ⟨-, hold₂⟩ := waits_proceed h₂
      · rfl
      · obtain ⟨rfl, rfl⟩ := self h₁
        exact absurd heq (fresh hold₂)
    · obtain ⟨rfl, -⟩ | ⟨-, hold₂⟩ := waits_proceed h₂
      · obtain ⟨rfl, rfl⟩ := self h₂
        exact absurd heq.symm (fresh hold₁)
      · exact owned.distinct first second call₁ call₂ place₁ place₂ hold₁ hold₂ heq

/-- A coroutine that stops waiting leaves the others what they have. -/
theorem Owned.leaves (owned : network.Owned) (progress : Progress)
    (hprogress : ∀ place, progress ≠ .suspended place) (manager : ConnectionManager)
    (hopen : ∀ other call place, coroutine ≠ other → network.Waits other call place →
      manager.Open place call) :
    ({ network with manager }.proceed coroutine progress).Owned := by
  have old : ∀ {other : Nat} {call : Call} {place : Nat},
      ({ network with manager }.proceed coroutine progress).Waits other call place →
      coroutine ≠ other ∧ network.Waits other call place :=
    fun h => (waits_proceed h).resolve_left fun hself => hprogress _ hself.2
  constructor
  · intro other call place h
    obtain ⟨hne, hold⟩ := old h
    exact hopen other call place hne hold
  · intro first second call₁ call₂ place₁ place₂ h₁ h₂
    exact owned.distinct first second call₁ call₂ place₁ place₂ (old h₁).2 (old h₂).2

theorem Owned.congr (owned : network.Owned) (manager : t.manager = network.manager)
    (coroutines : t.coroutines = network.coroutines) : t.Owned := by
  obtain ⟨isOpen, distinct⟩ := owned
  constructor
  · simpa only [Waits, manager, coroutines] using isOpen
  · simpa only [Waits, coroutines] using distinct

theorem Owned.spawn (owned : network.Owned) (call : Call) : (network.spawn call).Owned := by
  have old : ∀ {coroutine : Nat} {call' : Call} {place : Nat},
      (network.spawn call).Waits coroutine call' place → network.Waits coroutine call' place := by
    intro coroutine call' place h
    obtain hold | ⟨-, hnew⟩ := getElem?_concat_cases h
    · exact hold
    · cases hnew
  constructor
  · exact fun coroutine call' place h => owned.isOpen coroutine call' place (old h)
  · intro first second call₁ call₂ place₁ place₂ h₁ h₂
    exact owned.distinct first second call₁ call₂ place₁ place₂ (old h₁) (old h₂)

theorem owned_step (owned : network.Owned) (hstep : step network e = some t) : t.Owned := by
  cases step_cases hstep with
  | suspends coroutine call manager hcoroutine hbegins hopen =>
    exact owned.suspends hcoroutine hbegins hopen
  | returns coroutine call outcome hcoroutine =>
    exact owned.leaves (.ended outcome) (fun _ => nofun) network.manager
      fun other call' place' _ h => owned.isOpen other call' place' h
  | resume coroutine call place manager result hcoroutine hresumes =>
    refine owned.leaves (.ended result) (fun _ => nofun) manager
      fun other call' place' hne hwaits => ?_
    refine ConnectionManager.open_step hresumes (owned.isOpen other call' place' hwaits) ?_
    intro heq
    exact hne (owned.distinct coroutine other call call' place place' hcoroutine hwaits heq)
  | complete coroutine call outcome hcoroutine =>
    obtain ⟨hmanager, hcoroutines⟩ :=
      handle_frame (network.proceed coroutine .completed) call.operation outcome
    refine Owned.congr ?_ hmanager hcoroutines
    exact owned.leaves .completed (fun _ => nofun) network.manager
      fun other call' place' _ h => owned.isOpen other call' place' h
  | background event manager hbackground hmanager =>
    constructor
    · intro coroutine call place h
      exact ConnectionManager.open_step hmanager (owned.isOpen coroutine call place h)
        (background_ne_resumption hbackground call place)
    · exact owned.distinct

end NetworkComponent

end Stalker2D.Client
