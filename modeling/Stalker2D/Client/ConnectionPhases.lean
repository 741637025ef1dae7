import Stalker2D.Client.ConnectionManager
import Stalker2D.Client.RequestInvariant

/-!
# The phases of a client connection

The state enum has four values, and `disconnecting` stands for two situations: an
attempt that is being cancelled and a connection that is being closed. `Phase` has
the five situations, each with the resource it owns, and `Moves` the transitions
between them. Every step of the `ConnectionManager` is shown to be one of these moves,
so what state, socket, attempts and connection have to do with each other holds in
every reachable state.
-/

namespace Stalker2D.Client

namespace ClientRequestManager

variable {manager t : ClientRequestManager} {e : Event}

/-- What the owner of a connection waits for: whether it was told to stop, and whether
its close notification has come. -/
def notices (manager : ClientRequestManager) : List (Bool × Bool) :=
  manager.links.map fun link => (link.stopPosted, link.notified)

/-- The current connection is the one whose close notification has not come yet. -/
structure Attached (manager : ClientRequestManager) (current : Option Nat) : Prop where
  connection : manager.connection = current
  handler : manager.onClosed = current.isSome
  live : ∀ link, current = some link → ∃ stopped, manager.notices[link]? = some (stopped, false)
  others : ∀ (link : Nat) stopped, manager.notices[link]? = some (stopped, false) →
    current = some link

theorem attached_initial (config : Config) : Attached { config } none where
  connection := rfl
  handler := rfl
  live _ h := nomatch h
  others _ _ h := by simp [notices] at h

theorem Attached.congr {current : Option Nat} (attached : manager.Attached current)
    (connection : t.connection = manager.connection) (handler : t.onClosed = manager.onClosed)
    (notices : t.notices = manager.notices) : t.Attached current := by
  constructor
  · rw [connection, attached.connection]
  · rw [handler, attached.handler]
  · rw [notices]
    exact attached.live
  · rw [notices]
    exact attached.others

/-- `start` without a connection makes a new one current or changes nothing. -/
theorem Attached.start (attached : manager.Attached none) (socket : Nat) :
    (∃ error, manager.start socket true = (.error error, manager)) ∨
      ∃ next, manager.start socket true = (.ok (), next) ∧
        next.links = manager.links ++ [{ socket := socket }] ∧
        next.Attached (some manager.links.length) := by
  have hnone := attached.connection
  simp only [ClientRequestManager.start, hnone, Option.isSome_none, Bool.false_eq_true, if_false]
  split
  next error _ => exact .inl ⟨error, rfl⟩
  next =>
    refine .inr ⟨_, rfl, rfl, rfl, rfl, fun link h => ?_, fun link stopped h => ?_⟩
    · obtain rfl := Option.some.inj h
      exact ⟨false, by simp [notices]⟩
    · simp only [notices, List.map_append, List.getElem?_append, List.length_map] at h
      split at h
      next => cases attached.others link stopped h
      next hle =>
        obtain ⟨hlt, -⟩ := List.getElem?_eq_some_iff.mp h
        simp only [List.length_map, List.length_singleton] at hlt
        rw [Option.some.injEq]
        omega

/-- `stop` tells the current connection to stop. -/
theorem Attached.stop {link : Nat} (attached : manager.Attached (some link)) (reason : String) :
    (manager.stop reason).Attached (some link) ∧
      (manager.stop reason).notices[link]? = some (true, false) := by
  have hconnection := attached.connection
  have hnotices : (manager.stop reason).notices =
      manager.notices.modify link fun notice => (true, notice.2) := by
    apply List.ext_getElem?
    intro i
    simp only [ClientRequestManager.stop, hconnection, notices, List.getElem?_map,
      List.getElem?_modify]
    cases manager.links[i]? with
    | none => rfl
    | some l => by_cases hi : link = i <;> simp [hi]
  obtain ⟨stopped, hlive⟩ := attached.live link rfl
  have htold : (manager.stop reason).notices[link]? = some (true, false) := by
    simp [hnotices, hlive]
  refine ⟨⟨?_, ?_, ?_, fun i stopped h => ?_⟩, htold⟩
  · simp only [ClientRequestManager.stop, hconnection]
    exact hconnection
  · simp only [ClientRequestManager.stop, hconnection]
    exact attached.handler
  · intro i h
    obtain rfl := Option.some.inj h
    exact ⟨true, htold⟩
  · rw [hnotices, List.getElem?_modify] at h
    obtain ⟨⟨stopped', told⟩, hold, heq⟩ := Option.map_eq_some_iff.mp h
    have hsame : told = false := by
      split at heq
      · exact (Prod.mk.inj heq).2
      · exact (Prod.mk.inj heq).2
    subst hsame
    exact attached.others i stopped' hold

/-- A close notification is always that of the current connection. -/
theorem Attached.closeNotification {current : Option Nat} (attached : manager.Attached current)
    {link : Nat} (hstep : step manager (.closeNotification link) = some t) :
    current = some link ∧ manager.onClosed = true ∧ t.Attached none := by
  simp only [step] at hstep
  split at hstep
  · cases hstep
  next state hlink =>
    split at hstep
    next hcloses =>
      obtain ⟨-, htold⟩ : state.closed = true ∧ state.notified = false := by
        simpa using hcloses
      have hcurrent : current = some link :=
        attached.others link state.stopPosted (by simp [notices, hlink, htold])
      refine ⟨hcurrent, by rw [attached.handler, hcurrent]; rfl, ?_⟩
      obtain rfl := Option.some.inj hstep
      refine ⟨rfl, rfl, fun _ h => ?_, fun i stopped h => ?_⟩
      · cases h
      simp only [notices, connectionClosed, failPendingRequests, List.getElem?_map,
        List.getElem?_modify, Option.map_eq_map, Option.map_eq_some_iff, Prod.mk.injEq] at h
      obtain ⟨later, ⟨old, hold, rfl⟩, -, hlater⟩ := h
      split at hlater
      next => cases hlater
      next hne =>
        have hother := attached.others i old.stopPosted (by
          simp [notices, hold, hlater])
        rw [hcurrent, Option.some.injEq] at hother
        exact absurd hother hne
    next => cases hstep

theorem notices_modify (link : Nat) (f : Link → Link)
    (h : ∀ l, ((f l).stopPosted, (f l).notified) = (l.stopPosted, l.notified)) :
    ((manager.links.modify link f).map fun l => (l.stopPosted, l.notified)) = manager.notices := by
  apply List.ext_getElem?
  intro i
  simp only [notices, List.getElem?_map, List.getElem?_modify]
  cases manager.links[i]? with
  | none => rfl
  | some l =>
    by_cases hi : link = i
    · simpa [hi] using h l
    · simp [hi]

/-- Sends, messages, timers and closing sockets leave the current connection current. -/
theorem outside_step (outside : ConnectionManager.outside e = true)
    (hstep : step manager e = some t) : t.connection = manager.connection ∧
      t.onClosed = manager.onClosed ∧ t.notices = manager.notices := by
  cases step_cases hstep with
  | start | stop | closeNotification => cases outside
  | send message =>
    obtain ⟨what, h⟩ | ⟨link, -, -, h⟩ := send_cases manager message
    · rw [h]
      exact ⟨rfl, rfl, rfl⟩
    · rw [h]
      exact ⟨rfl, rfl, notices_modify link _ fun _ => rfl⟩
  | receive message =>
    obtain ⟨hlinks, hconnection, hhandler, -⟩ := receive_frame manager message
    exact ⟨hconnection, hhandler, by rw [notices, hlinks, notices]⟩
  | timerExpires frame => exact ⟨rfl, rfl, rfl⟩
  | resume frame call error =>
    obtain ⟨hlinks, hconnection, hhandler, -⟩ := resumeSend_frame manager frame call error
    exact ⟨hconnection, hhandler, by rw [notices, hlinks, notices]⟩
  | linkCloses link => exact ⟨rfl, rfl, notices_modify link _ fun _ => rfl⟩

end ClientRequestManager

/-- The five situations a client connection can be in. -/
inductive Phase
  | disconnected
  | connecting (attempt : Nat)
  | cancelling (attempt : Nat)
  | connected (link : Nat)
  | closing (link : Nat)
  deriving DecidableEq, Repr

namespace Phase

/-- The value of `m_state` in a phase. -/
def state : Phase → ConnectionState
  | .disconnected => .disconnected
  | .connecting _ => .connecting
  | .cancelling _ => .disconnecting
  | .connected _ => .connected
  | .closing _ => .disconnecting

/-- The attempt whose coroutine is suspended in `async_connect`. -/
def attempt : Phase → Option Nat
  | .connecting attempt | .cancelling attempt => some attempt
  | _ => none

def socket : Phase → Option Socket
  | .connecting attempt => some { attempt }
  | .cancelling attempt => some { attempt, closed := true }
  | _ => none

/-- The connection whose close notification has not come yet. -/
def link : Phase → Option Nat
  | .connected link | .closing link => some link
  | _ => none

end Phase

namespace ConnectionManager

open Phase

variable {manager t : ConnectionManager} {phase : Phase} {e : Event}

def initial (config : Config) : ConnectionManager := { requests := { config } }

/-- A `connect` that got past the state check and has not ended. -/
def InFlight (manager : ConnectionManager) (attempt : Nat) : Prop :=
  ∃ a, manager.attempts[attempt]? = some a ∧ a.result = none

/-- The manager is in a phase, with the resources of that phase and no others. -/
structure InPhase (manager : ConnectionManager) (phase : Phase) : Prop where
  state : manager.state = phase.state
  inFlight : ∀ attempt, manager.InFlight attempt ↔ phase.attempt = some attempt
  socket : manager.connectingSocket = phase.socket
  attached : manager.requests.Attached phase.link
  /-- A connection that is being closed has been told to stop. -/
  told : ∀ link, phase = .closing link →
    manager.requests.notices[link]? = some (true, false)
  waiting : Waiter.waiting ∈ manager.waiters → manager.state = .disconnecting

theorem inPhase_initial (config : Config) : (initial config).InPhase .disconnected where
  state := rfl
  inFlight attempt := by simp [InFlight, initial, Phase.attempt]
  socket := rfl
  attached := ClientRequestManager.attached_initial config
  told _ h := nomatch h
  waiting h := nomatch h

/-- The transitions between the phases, by the events that cause them. -/
inductive Moves : Phase → Event → Phase → Prop
  | stays (phase : Phase) (e : Event) (other : ∀ attempt, e ≠ .resumeConnect attempt) :
      Moves phase e phase
  | connect (attempt : Nat) : Moves .disconnected .connect (.connecting attempt)
  | cancel (attempt : Nat) : Moves (.connecting attempt) .disconnect (.cancelling attempt)
  | succeeds (attempt link : Nat) :
      Moves (.connecting attempt) (.resumeConnect attempt) (.connected link)
  | fails (attempt : Nat) : Moves (.connecting attempt) (.resumeConnect attempt) .disconnected
  | cancelled (attempt : Nat) : Moves (.cancelling attempt) (.resumeConnect attempt) .disconnected
  | disconnect (link : Nat) : Moves (.connected link) .disconnect (.closing link)
  | lost (link : Nat) : Moves (.connected link) (.closeNotification link) .disconnected
  | closed (link : Nat) : Moves (.closing link) (.closeNotification link) .disconnected

section Attempts

/-- A new attempt is in flight, and the others are as they were. -/
theorem inFlight_append (h : t.attempts = manager.attempts ++ [({} : Attempt)]) (attempt : Nat) :
    t.InFlight attempt ↔ manager.InFlight attempt ∨ attempt = manager.attempts.length := by
  constructor
  · rintro ⟨a, ha, hresult⟩
    rw [h] at ha
    obtain hold | ⟨hnew, -⟩ := getElem?_concat_cases ha
    · exact .inl ⟨a, hold, hresult⟩
    · exact .inr hnew
  · rintro (⟨a, ha, hresult⟩ | rfl)
    · refine ⟨a, ?_, hresult⟩
      rw [h, List.getElem?_append_left (List.getElem?_eq_some_iff.mp ha).1, ha]
    · exact ⟨{}, by rw [h, List.getElem?_concat_length], rfl⟩

theorem inFlight_finish (finished : Nat) (result : Except Exception Unit) (attempt : Nat) :
    (manager.finish finished result).InFlight attempt ↔
      manager.InFlight attempt ∧ attempt ≠ finished := by
  constructor
  · rintro ⟨a, ha, hresult⟩
    simp only [finish, List.getElem?_modify] at ha
    obtain ⟨old, hold, rfl⟩ := Option.map_eq_some_iff.mp ha
    split at hresult
    · cases hresult
    next hne => exact ⟨⟨old, hold, hresult⟩, fun h => hne h.symm⟩
  · rintro ⟨⟨a, ha, hresult⟩, hne⟩
    refine ⟨a, ?_, hresult⟩
    simp only [finish, List.getElem?_modify, ha]
    simp [hne.symm]

/-- A queued completion does not end an attempt. -/
theorem inFlight_complete (completed : Nat) (error : Option ErrorCode)
    (h : t.attempts = manager.attempts.modify completed ({ · with completion := some error }))
    (attempt : Nat) : t.InFlight attempt ↔ manager.InFlight attempt := by
  constructor
  · rintro ⟨a, ha, hresult⟩
    rw [h, List.getElem?_modify] at ha
    obtain ⟨old, hold, rfl⟩ := Option.map_eq_some_iff.mp ha
    refine ⟨old, hold, ?_⟩
    split at hresult <;> exact hresult
  · rintro ⟨a, ha, hresult⟩
    rw [InFlight, h, List.getElem?_modify, ha]
    refine ⟨_, rfl, ?_⟩
    split <;> exact hresult

end Attempts

section Waiters

@[simp] theorem waiting_notMem_release (waiters : List Waiter) :
    Waiter.waiting ∉ waiters.map Waiter.release := by
  rw [List.mem_map]
  rintro ⟨waiter, -, h⟩
  cases waiter <;> cases h

theorem setState_frame (manager : ConnectionManager) (state : ConnectionState) :
    (manager.setState state).state = state ∧
      (manager.setState state).requests = manager.requests ∧
      (manager.setState state).attempts = manager.attempts ∧
      (manager.setState state).connectingSocket = manager.connectingSocket := by
  simp only [setState]
  split <;> exact ⟨rfl, rfl, rfl, rfl⟩

@[simp] theorem setState_state (manager : ConnectionManager) (state : ConnectionState) :
    (manager.setState state).state = state := (setState_frame manager state).1

@[simp] theorem setState_requests (manager : ConnectionManager) (state : ConnectionState) :
    (manager.setState state).requests = manager.requests := (setState_frame manager state).2.1

@[simp] theorem setState_attempts (manager : ConnectionManager) (state : ConnectionState) :
    (manager.setState state).attempts = manager.attempts := (setState_frame manager state).2.2.1

@[simp] theorem setState_connectingSocket (manager : ConnectionManager)
    (state : ConnectionState) :
    (manager.setState state).connectingSocket = manager.connectingSocket :=
  (setState_frame manager state).2.2.2

theorem setState_waiters (manager : ConnectionManager) (state : ConnectionState) :
    (manager.setState state).waiters =
      if manager.state = .disconnecting ∧ state = .disconnected then
        manager.waiters.map Waiter.release
      else manager.waiters := by
  rw [setState]
  split <;> rfl

/-- Leaving `disconnecting` releases every waiter, and nobody waits in another state. -/
theorem waiters_setState (manager : ConnectionManager)
    (waiting : Waiter.waiting ∈ manager.waiters → manager.state = .disconnecting)
    {state : ConnectionState} (h : Waiter.waiting ∈ (manager.setState state).waiters) :
    manager.state = .disconnecting ∧ state ≠ .disconnected := by
  rw [setState_waiters] at h
  split at h
  · exact absurd h (waiting_notMem_release _)
  next hstays =>
    have hstate := waiting h
    exact ⟨hstate, fun hs => hstays ⟨hstate, hs⟩⟩

end Waiters

section Steps

/-- Everything one event can do, with the guards it met. -/
inductive Steps (manager : ConnectionManager) : Event → ConnectionManager → Prop
  | connect : Steps manager .connect manager.connect.2
  | disconnect : Steps manager .disconnect manager.disconnect
  | connectCompletes (attempt : Nat) (error : Option ErrorCode)
      (hattempt : manager.attempts[attempt]? = some {}) :
      Steps manager (.connectCompletes attempt error)
        { manager with
          attempts := manager.attempts.modify attempt ({ · with completion := some error }) }
  | abandons (attempt : Nat) (completion : Option ErrorCode) (error : Exception)
      (hattempt : manager.attempts[attempt]? = some { completion := some completion }) :
      Steps manager (.resumeConnect attempt) (manager.abandon.finish attempt (.error error))
  | starts (attempt : Nat) (socket : Socket)
      (hattempt : manager.attempts[attempt]? = some { completion := some none })
      (hstate : manager.state ≠ .disconnecting)
      (hsocket : manager.connectingSocket = some socket) :
      Steps manager (.resumeConnect attempt)
        ({ manager with connectingSocket := none }.startRequests attempt socket)
  | resumeDisconnect (waiter : Nat) (hreleased : manager.waiters[waiter]? = some .released) :
      Steps manager (.resumeDisconnect waiter)
        { manager with waiters := manager.waiters.set waiter .returned }
  | closeNotification (link : Nat) (requests : ClientRequestManager)
      (hcloses : ClientRequestManager.step manager.requests (.closeNotification link) =
        some requests) :
      Steps manager (.closeNotification link)
        (if manager.requests.onClosed then { manager with requests }.connectionClosed
          else { manager with requests })
  | request (event : ClientRequestManager.Event) (requests : ClientRequestManager)
      (houtside : outside event = true)
      (hstep : ClientRequestManager.step manager.requests event = some requests) :
      Steps manager (.request event) { manager with requests }

theorem step_cases (hstep : step manager e = some t) : manager.Steps e t := by
  cases e with
  | connect => exact Option.some.inj hstep ▸ .connect
  | disconnect => exact Option.some.inj hstep ▸ .disconnect
  | connectCompletes attempt error =>
    simp only [step] at hstep
    split at hstep
    next hattempt => exact Option.some.inj hstep ▸ .connectCompletes attempt error hattempt
    next => cases hstep
  | resumeConnect attempt =>
    simp only [step] at hstep
    split at hstep
    next completion hattempt =>
      by_cases hstate : manager.state = .disconnecting
      · rw [resumeConnect.eq_def, if_pos hstate] at hstep
        exact Option.some.inj hstep ▸ .abandons attempt completion _ hattempt
      · rw [resumeConnect.eq_def, if_neg hstate] at hstep
        cases completion with
        | some code => exact Option.some.inj hstep ▸ .abandons attempt (some code) _ hattempt
        | none =>
          obtain ⟨socket, hsocket, rfl⟩ := Option.map_eq_some_iff.mp hstep
          exact .starts attempt socket hattempt hstate hsocket
    next => cases hstep
  | resumeDisconnect waiter =>
    simp only [step] at hstep
    split at hstep
    next hreleased => exact Option.some.inj hstep ▸ .resumeDisconnect waiter hreleased
    next => cases hstep
  | closeNotification link =>
    obtain ⟨requests, hcloses, rfl⟩ := Option.map_eq_some_iff.mp hstep
    exact .closeNotification link requests hcloses
  | request event =>
    simp only [step] at hstep
    split at hstep
    next houtside =>
      obtain ⟨requests, hrequests, rfl⟩ := Option.map_eq_some_iff.mp hstep
      exact .request event requests houtside hrequests
    next => cases hstep

/-- The attempt that a step resumes is in flight. -/
theorem inFlight_of_resumes {attempt : Nat}
    (hstep : step manager (.resumeConnect attempt) = some t) : manager.InFlight attempt := by
  cases step_cases hstep with
  | abandons _ _ _ hattempt => exact ⟨_, hattempt, rfl⟩
  | starts _ _ hattempt => exact ⟨_, hattempt, rfl⟩

end Steps

section Operations

variable {attempt link : Nat}

/-- What a step leaves alone keeps the phase. -/
theorem InPhase.congr (inPhase : manager.InPhase phase) (state : t.state = manager.state)
    (inFlight : ∀ attempt, t.InFlight attempt ↔ manager.InFlight attempt)
    (socket : t.connectingSocket = manager.connectingSocket)
    (connection : t.requests.connection = manager.requests.connection)
    (handler : t.requests.onClosed = manager.requests.onClosed)
    (notices : t.requests.notices = manager.requests.notices)
    (waiting : Waiter.waiting ∈ t.waiters → Waiter.waiting ∈ manager.waiters) :
    t.InPhase phase := by
  constructor
  · rw [state, inPhase.state]
  · intro attempt
    rw [inFlight, inPhase.inFlight]
  · rw [socket, inPhase.socket]
  · exact inPhase.attached.congr connection handler notices
  · intro link h
    rw [notices]
    exact inPhase.told link h
  · intro h
    rw [state]
    exact inPhase.waiting (waiting h)

/-- The phase after a step that ends in `Disconnected`. -/
theorem inPhase_disconnected (state : t.state = .disconnected)
    (inFlight : ∀ attempt, ¬ t.InFlight attempt) (socket : t.connectingSocket = none)
    (attached : t.requests.Attached none) (waiting : Waiter.waiting ∉ t.waiters) :
    t.InPhase .disconnected where
  state := state
  inFlight attempt := by simp [Phase.attempt, inFlight attempt]
  socket := socket
  attached := attached
  told _ h := nomatch h
  waiting h := absurd h waiting

theorem connect_rejected (h : manager.state ≠ .disconnected) :
    manager.connect =
      (.error (.logicError "Connect is not allowed in current connection state"), manager) := by
  simp [connect, h]

theorem InPhase.connect (inPhase : manager.InPhase .disconnected) :
    manager.connect.2.InPhase (.connecting manager.attempts.length) := by
  have hstate : manager.state = .disconnected := inPhase.state
  simp only [ConnectionManager.connect, hstate, ne_eq, not_true_eq_false, if_false]
  constructor
  · exact setState_state manager .connecting
  · intro attempt
    rw [inFlight_append (show _ = manager.attempts ++ _ from rfl), inPhase.inFlight]
    simp [Phase.attempt, eq_comm]
  · rfl
  · show (manager.setState .connecting).requests.Attached none
    rw [setState_requests]
    exact inPhase.attached
  · exact fun _ h => nomatch h
  · intro h
    have hold := (waiters_setState manager inPhase.waiting h).1
    rw [hstate] at hold
    cases hold

theorem InPhase.wait (inPhase : manager.InPhase phase) (h : manager.state = .disconnecting) :
    manager.wait.InPhase phase where
  state := inPhase.state
  inFlight := inPhase.inFlight
  socket := inPhase.socket
  attached := inPhase.attached
  told := inPhase.told
  waiting _ := h

theorem InPhase.cancel (inPhase : manager.InPhase (.connecting attempt)) :
    manager.disconnect.InPhase (.cancelling attempt) := by
  have hstate : manager.state = .connecting := inPhase.state
  have hsocket : manager.connectingSocket = some { attempt } := inPhase.socket
  simp only [ConnectionManager.disconnect, hstate]
  refine InPhase.wait ?_ (setState_state manager .disconnecting)
  constructor
  · exact setState_state manager .disconnecting
  · intro other
    show (∃ a, (manager.setState .disconnecting).attempts[other]? = some a ∧ _) ↔ _
    rw [setState_attempts]
    exact inPhase.inFlight other
  · simp only [closeConnectingSocket, setState_connectingSocket, hsocket, Option.map_some]
    rfl
  · show (manager.setState .disconnecting).requests.Attached none
    rw [setState_requests]
    exact inPhase.attached
  · exact fun _ h => nomatch h
  · exact fun _ => setState_state manager .disconnecting

theorem InPhase.disconnect (inPhase : manager.InPhase (.connected link)) :
    manager.disconnect.InPhase (.closing link) := by
  have hstate : manager.state = .connected := inPhase.state
  obtain ⟨hattached, htold⟩ := inPhase.attached.stop "client disconnected"
  simp only [ConnectionManager.disconnect, hstate, setState_requests]
  refine InPhase.wait ?_ (setState_state manager .disconnecting)
  constructor
  · exact setState_state manager .disconnecting
  · intro other
    show (∃ a, (manager.setState .disconnecting).attempts[other]? = some a ∧ _) ↔ _
    rw [setState_attempts]
    exact inPhase.inFlight other
  · show (manager.setState .disconnecting).connectingSocket = none
    rw [setState_connectingSocket]
    exact inPhase.socket
  · exact hattached
  · intro other h
    obtain rfl := Phase.closing.inj h
    exact htold
  · exact fun _ => setState_state manager .disconnecting

/-- The close notification that ends a connection. -/
theorem InPhase.closeNotification {requests : ClientRequestManager}
    (inPhase : manager.InPhase phase)
    (hstep : ClientRequestManager.step manager.requests (.closeNotification link) = some requests) :
    manager.requests.onClosed = true ∧ (phase = .connected link ∨ phase = .closing link) ∧
      ({ manager with requests }.connectionClosed).InPhase .disconnected := by
  obtain ⟨hlink, honClosed, hattached⟩ := inPhase.attached.closeNotification hstep
  have hphase : phase = .connected link ∨ phase = .closing link := by
    cases phase <;> simp_all [Phase.link]
  have hstate : manager.state = .connected ∨ manager.state = .disconnecting := by
    rw [inPhase.state]
    obtain rfl | rfl := hphase
    · exact .inl rfl
    · exact .inr rfl
  have hfree : phase.attempt = none ∧ phase.socket = none := by
    obtain rfl | rfl := hphase <;> exact ⟨rfl, rfl⟩
  refine ⟨honClosed, hphase, ?_⟩
  rw [connectionClosed, if_pos hstate]
  apply inPhase_disconnected (setState_state ..)
  · intro other h
    have hold : manager.InFlight other := by simpa [InFlight] using h
    rw [inPhase.inFlight, hfree.1] at hold
    cases hold
  · rw [setState_connectingSocket]
    exact inPhase.socket.trans hfree.2
  · rw [setState_requests]
    exact hattached
  · intro h
    exact (waiters_setState { manager with requests } inPhase.waiting h).2 rfl

end Operations

section Resume

variable {attempt : Nat}

/-- A resumed `connect` returned, with a connection made from its socket. -/
structure Returned (manager t : ConnectionManager) (attempt : Nat) : Prop where
  connecting : manager.state = .connecting
  result : t.attempts = (manager.finish attempt (.ok ())).attempts
  state : t.state = .connected
  socket : t.connectingSocket = none
  links : t.requests.links = manager.requests.links ++ [{ socket := attempt }]
  connection : t.requests.connection = some manager.requests.links.length

/-- A resumed `connect` threw, and left neither a socket nor a connection behind. -/
structure Threw (manager t : ConnectionManager) (attempt : Nat) : Prop where
  result : ∃ error, t.attempts = (manager.finish attempt (.error error)).attempts
  state : t.state = .disconnected
  socket : t.connectingSocket = none
  requests : t.requests = manager.requests

theorem attempt_eq_some : phase.attempt = some attempt ↔
    phase = .connecting attempt ∨ phase = .cancelling attempt := by
  cases phase <;> simp [Phase.attempt]

/-- The clean-up before each throw of `connect` ends the only attempt of the phase. -/
theorem InPhase.threw (inPhase : manager.InPhase phase) (flight : phase.attempt = some attempt)
    (error : Exception) :
    Threw manager (manager.abandon.finish attempt (.error error)) attempt ∧
      (manager.abandon.finish attempt (.error error)).InPhase .disconnected := by
  have hattempts : manager.abandon.attempts = manager.attempts := setState_attempts ..
  have hstate : manager.abandon.state = .disconnected := setState_state ..
  have hsocket : manager.abandon.connectingSocket = none := setState_connectingSocket ..
  have hrequests : manager.abandon.requests = manager.requests := setState_requests ..
  constructor
  · exact ⟨⟨error, by simp only [finish, hattempts]⟩, hstate, hsocket, hrequests⟩
  · apply inPhase_disconnected (t := manager.abandon.finish attempt _) hstate
    · intro other h
      obtain ⟨hother, hne⟩ := (inFlight_finish attempt _ other).mp h
      have hold : manager.InFlight other := by simpa only [InFlight, hattempts] using hother
      rw [inPhase.inFlight, flight] at hold
      exact hne (Option.some.inj hold).symm
    · exact hsocket
    · show manager.abandon.requests.Attached none
      have hlink : phase.link = none := by
        obtain rfl | rfl := attempt_eq_some.mp flight <;> rfl
      rw [hrequests, ← hlink]
      exact inPhase.attached
    · intro h
      exact (waiters_setState { manager with connectingSocket := none } inPhase.waiting h).2 rfl

/-- A connected socket becomes a connection, or `start` throws. -/
theorem InPhase.startRequests (inPhase : manager.InPhase (.connecting attempt)) {socket : Socket}
    (hsocket : manager.connectingSocket = some socket) {next : ConnectionManager}
    (hnext : next = { manager with connectingSocket := none }.startRequests attempt socket) :
    Returned manager next attempt ∧ next.InPhase (.connected manager.requests.links.length) ∨
      Threw manager next attempt ∧ next.InPhase .disconnected := by
  have hstate : manager.state = .connecting := inPhase.state
  obtain rfl := Option.some.inj (hsocket.symm.trans inPhase.socket)
  simp only [ConnectionManager.startRequests] at hnext
  obtain ⟨error, hstart⟩ | ⟨requests, hstart, hlinks, hattached⟩ := inPhase.attached.start attempt
  · rw [hstart] at hnext
    subst hnext
    exact .inr (inPhase.threw rfl error)
  · rw [hstart] at hnext
    subst hnext
    refine .inl ⟨⟨hstate, ?_, setState_state .., setState_connectingSocket .., ?_, ?_⟩, ?_⟩
    · simp only [finish, setState_attempts]
    · simpa only [finish, setState_requests] using hlinks
    · simpa only [finish, setState_requests] using hattached.connection
    · constructor
      · exact setState_state ..
      · intro other
        rw [inFlight_finish, InFlight, setState_attempts]
        show manager.InFlight other ∧ other ≠ attempt ↔ none = some other
        rw [inPhase.inFlight]
        simp [Phase.attempt, eq_comm]
      · exact setState_connectingSocket ..
      · simpa only [finish, setState_requests, Phase.link] using hattached
      · exact fun _ h => nomatch h
      · intro h
        have hold := (waiters_setState { manager with connectingSocket := none, requests }
          inPhase.waiting h).1
        rw [hstate] at hold
        cases hold

/-- A resumed attempt returns or throws, and an attempt that has been cancelled throws
whatever its `async_connect` reports. -/
theorem InPhase.resume (inPhase : manager.InPhase phase)
    (hstep : step manager (.resumeConnect attempt) = some t) :
    phase = .connecting attempt ∧ Returned manager t attempt ∧
        t.InPhase (.connected manager.requests.links.length) ∨
      Threw manager t attempt ∧ t.InPhase .disconnected := by
  have hflight := (inPhase.inFlight attempt).mp (inFlight_of_resumes hstep)
  cases step_cases hstep with
  | abandons _ completion error => exact .inr (inPhase.threw hflight error)
  | starts _ socket _ hstate hsocket =>
    obtain rfl | rfl := attempt_eq_some.mp hflight
    · obtain ⟨returned, hnext⟩ | hthrew := inPhase.startRequests hsocket rfl
      · exact .inl ⟨rfl, returned, hnext⟩
      · exact .inr hthrew
    · exact absurd inPhase.state hstate

/-- The optional that `connect` moves from is never empty. -/
theorem InPhase.resumable (inPhase : manager.InPhase phase) {error : Option ErrorCode}
    (hattempt : manager.attempts[attempt]? = some { completion := some error }) :
    ∃ t, step manager (.resumeConnect attempt) = some t := by
  simp only [step, hattempt]
  rw [resumeConnect.eq_def]
  by_cases hstate : manager.state = .disconnecting
  · exact ⟨_, if_pos hstate⟩
  · rw [if_neg hstate]
    cases error with
    | some code => exact ⟨_, rfl⟩
    | none =>
      have hflight := (inPhase.inFlight attempt).mp ⟨_, hattempt, rfl⟩
      obtain rfl | rfl := attempt_eq_some.mp hflight
      · have hsocket : manager.connectingSocket = some { attempt } := inPhase.socket
        exact ⟨_, by rw [hsocket]; rfl⟩
      · exact absurd inPhase.state hstate

end Resume

section Run

/-- Every step is a move from the phase it starts in to the phase it ends in. -/
theorem phase_step (inPhase : manager.InPhase phase) (hstep : step manager e = some t) :
    ∃ next, Moves phase e next ∧ t.InPhase next := by
  cases step_cases hstep with
  | connect =>
    cases phase with
    | disconnected => exact ⟨_, .connect _, inPhase.connect⟩
    | _ =>
      refine ⟨_, .stays _ _ (fun _ => nofun), ?_⟩
      rw [connect_rejected (by simp [inPhase.state, Phase.state])]
      exact inPhase
  | disconnect =>
    cases phase with
    | disconnected =>
      refine ⟨_, .stays _ _ (fun _ => nofun), ?_⟩
      have hstate : manager.state = .disconnected := inPhase.state
      simpa only [disconnect, hstate] using inPhase
    | connecting attempt => exact ⟨_, .cancel attempt, inPhase.cancel⟩
    | connected link => exact ⟨_, .disconnect link, inPhase.disconnect⟩
    | cancelling _ | closing _ =>
      refine ⟨_, .stays _ _ (fun _ => nofun), ?_⟩
      have hstate : manager.state = .disconnecting := inPhase.state
      simpa only [disconnect, hstate] using inPhase.wait hstate
  | connectCompletes attempt error =>
    exact ⟨_, .stays _ _ (fun _ => nofun),
      inPhase.congr rfl (inFlight_complete attempt error rfl) rfl rfl rfl rfl id⟩
  | abandons attempt | starts attempt =>
    obtain ⟨rfl, -, hnext⟩ | ⟨-, hnext⟩ := inPhase.resume hstep
    · exact ⟨_, .succeeds attempt _, hnext⟩
    · have hflight := (inPhase.inFlight attempt).mp (inFlight_of_resumes hstep)
      obtain rfl | rfl := attempt_eq_some.mp hflight
      · exact ⟨_, .fails attempt, hnext⟩
      · exact ⟨_, .cancelled attempt, hnext⟩
  | resumeDisconnect waiter =>
    refine ⟨_, .stays _ _ (fun _ => nofun),
      inPhase.congr rfl (fun _ => Iff.rfl) rfl rfl rfl rfl ?_⟩
    intro h
    cases List.mem_or_eq_of_mem_set h with
    | inl hold => exact hold
    | inr heq => cases heq
  | closeNotification link requests hcloses =>
    obtain ⟨honClosed, hphase, hnext⟩ := inPhase.closeNotification hcloses
    rw [if_pos honClosed]
    obtain rfl | rfl := hphase
    · exact ⟨_, .lost link, hnext⟩
    · exact ⟨_, .closed link, hnext⟩
  | request event requests houtside hrequests =>
    obtain ⟨hconnection, hhandler, hnotices⟩ :=
      ClientRequestManager.outside_step houtside hrequests
    exact ⟨_, .stays _ _ (fun _ => nofun),
      inPhase.congr rfl (fun _ => Iff.rfl) rfl hconnection hhandler hnotices id⟩

theorem phase_exec {config : Config} {es : List Event}
    (run : Machine.exec step (initial config) es = some manager) :
    ∃ phase, manager.InPhase phase := by
  have keep : Machine.Invariant step fun manager => ∃ phase, manager.InPhase phase := by
    rintro s e t ⟨phase, h⟩ hstep
    obtain ⟨next, -, hnext⟩ := phase_step h hstep
    exact ⟨next, hnext⟩
  exact keep.exec ⟨.disconnected, inPhase_initial config⟩ run

end Run

end ConnectionManager

end Stalker2D.Client
