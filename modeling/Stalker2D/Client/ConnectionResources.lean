import Stalker2D.Client.ConnectionPhases

/-!
# The connection state and its resources

What a phase says, told in the terms of the source: for each value of `m_state` the
attempts in flight, the connecting socket and the connection. The wait of a
`disconnect` belongs to `Disconnecting` and ends with it.
-/

namespace Stalker2D.Client

namespace ClientRequestManager

/-- A connection that has been told to stop and whose close notification is still to come. -/
def CloseToCome (manager : ClientRequestManager) (link : Nat) : Prop :=
  ∃ l, manager.links[link]? = some l ∧ l.stopPosted = true ∧ l.notified = false

end ClientRequestManager

namespace ConnectionManager

open Phase

variable {manager t : ConnectionManager} {phase : Phase} {e : Event}

/-- The resources that go with each value of the state. -/
structure Agrees (manager : ConnectionManager) : Prop where
  disconnected : manager.state = .disconnected →
    (∀ attempt, ¬ manager.InFlight attempt) ∧ manager.connectingSocket = none ∧
      manager.requests.connection = none
  connecting : manager.state = .connecting →
    (∃! attempt, manager.InFlight attempt) ∧ manager.connectingSocket.isSome ∧
      manager.requests.connection = none
  connected : manager.state = .connected →
    manager.requests.connection.isSome ∧ (∀ attempt, ¬ manager.InFlight attempt) ∧
      manager.connectingSocket = none
  disconnecting : manager.state = .disconnecting →
    (∃! attempt, manager.InFlight attempt) ∧ manager.requests.connection = none ∨
      (∀ attempt, ¬ manager.InFlight attempt) ∧
        ∃ link, manager.requests.connection = some link ∧ manager.requests.CloseToCome link
  waiting : Waiter.waiting ∈ manager.waiters → manager.state = .disconnecting

/-- The step runs `m_manager->start`. -/
def StartsRequests (manager : ConnectionManager) : Event → Prop
  | .resumeConnect attempt =>
    manager.attempts[attempt]? = some { completion := some none } ∧
      manager.state ≠ .disconnecting
  | _ => False

theorem InPhase.inFlight_unique (inPhase : manager.InPhase phase) {attempt : Nat}
    (h : phase.attempt = some attempt) : ∃! attempt, manager.InFlight attempt := by
  refine ⟨attempt, (inPhase.inFlight attempt).mpr h, fun other hother => ?_⟩
  have hphase := (inPhase.inFlight other).mp hother
  exact Option.some.inj (hphase.symm.trans h)

theorem InPhase.not_inFlight (inPhase : manager.InPhase phase) (h : phase.attempt = none)
    (attempt : Nat) : ¬ manager.InFlight attempt := by
  rw [inPhase.inFlight, h]
  exact nofun

theorem InPhase.closeToCome {link : Nat} (inPhase : manager.InPhase (.closing link)) :
    manager.requests.CloseToCome link := by
  have htold := inPhase.told link rfl
  simp only [ClientRequestManager.notices, List.getElem?_map] at htold
  obtain ⟨l, hl, heq⟩ := Option.map_eq_some_iff.mp htold
  exact ⟨l, hl, congrArg Prod.fst heq, congrArg Prod.snd heq⟩

theorem InPhase.agrees (inPhase : manager.InPhase phase) : manager.Agrees := by
  have hstate := inPhase.state
  have hsocket := inPhase.socket
  have hconnection := inPhase.attached.connection
  constructor
  · intro h
    cases phase with
    | disconnected => exact ⟨inPhase.not_inFlight rfl, hsocket, hconnection⟩
    | _ => cases hstate.symm.trans h
  · intro h
    cases phase with
    | connecting attempt => exact ⟨inPhase.inFlight_unique rfl, by rw [hsocket]; rfl, hconnection⟩
    | _ => cases hstate.symm.trans h
  · intro h
    cases phase with
    | connected link => exact ⟨by rw [hconnection]; rfl, inPhase.not_inFlight rfl, hsocket⟩
    | _ => cases hstate.symm.trans h
  · intro h
    cases phase with
    | cancelling attempt => exact .inl ⟨inPhase.inFlight_unique rfl, hconnection⟩
    | closing link =>
      exact .inr ⟨inPhase.not_inFlight rfl, link, hconnection, inPhase.closeToCome⟩
    | _ => cases hstate.symm.trans h
  · exact inPhase.waiting

/-- The only way out of `Disconnecting` is to `Disconnected`. -/
theorem leaves_disconnecting (inPhase : manager.InPhase phase) (hstep : step manager e = some t)
    (before : manager.state = .disconnecting) (after : t.state ≠ .disconnecting) :
    t.state = .disconnected := by
  obtain ⟨next, hmoves, hnext⟩ := phase_step inPhase hstep
  have hphase := inPhase.state.symm.trans before
  cases hmoves with
  | stays => exact absurd (hnext.state.trans hphase) after
  | cancelled | closed => exact hnext.state
  | connect | cancel | succeeds | fails | disconnect | lost => cases hphase

/-- Leaving `Disconnecting` releases the waiters. Otherwise a `disconnect` adds one, a
released one returns, and nothing else touches them. -/
theorem waiters_step (hstep : step manager e = some t) :
    t.waiters =
      if manager.state = .disconnecting ∧ t.state = .disconnected then
        manager.waiters.map Waiter.release
      else
        match e with
        | .disconnect =>
          if manager.state = .disconnected then manager.waiters
          else manager.waiters ++ [.waiting]
        | .resumeDisconnect waiter => manager.waiters.set waiter .returned
        | _ => manager.waiters := by
  cases step_cases hstep with
  | connect =>
    by_cases h : manager.state = .disconnected
    · simp [connect, h, setState_waiters]
    · simp only [connect_rejected h, h, and_false, if_false]
  | disconnect =>
    cases h : manager.state <;>
      simp [disconnect, h, wait, closeConnectingSocket, setState_waiters]
  | connectCompletes => simp +contextual
  | abandons =>
    by_cases h : manager.state = .disconnecting <;>
      simp [abandon, finish, closeConnectingSocket, setState_waiters, h]
  | starts attempt socket _ h =>
    simp only [h, false_and, if_false, startRequests]
    split <;> simp [finish, setState_waiters, h]
  | resumeDisconnect => simp +contextual
  | closeNotification =>
    simp only [connectionClosed]
    split
    · split
      · simp [setState_waiters]
      · simp +contextual
    · simp +contextual
  | request => simp +contextual

theorem InPhase.startsRequests (inPhase : manager.InPhase phase)
    (starts : manager.StartsRequests e) : manager.requests.connection = none := by
  cases e with
  | resumeConnect attempt =>
    obtain ⟨hattempt, hstate⟩ := starts
    have hflight := (inPhase.inFlight attempt).mp ⟨_, hattempt, rfl⟩
    obtain rfl | rfl := attempt_eq_some.mp hflight
    · exact inPhase.attached.connection
    · exact absurd inPhase.state hstate
  | _ => cases starts

/-- `start` succeeds for any limits that a connection can have. -/
theorem InPhase.starts_step (inPhase : manager.InPhase phase) (starts : manager.StartsRequests e)
    (hstep : step manager e = some t) :
    t.state = .connected ↔ Network.Connection.validate
      ⟨manager.requests.config.maxMessageBytes, manager.requests.config.maxQueuedMessages⟩ =
        .ok () := by
  have hnone := inPhase.startsRequests starts
  cases e with
  | resumeConnect attempt =>
    obtain ⟨hattempt, hstate⟩ := starts
    simp only [step, hattempt, resumeConnect, if_neg hstate] at hstep
    obtain ⟨socket, -, rfl⟩ := Option.map_eq_some_iff.mp hstep
    simp only [ConnectionManager.startRequests, ClientRequestManager.start, hnone,
      Option.isSome_none, Bool.false_eq_true, if_false]
    cases Network.Connection.validate
        ⟨manager.requests.config.maxMessageBytes, manager.requests.config.maxQueuedMessages⟩ with
    | error error => simp [finish, setState_state]
    | ok _ => simp [finish, setState_state]
  | _ => cases starts

/-- No other step makes a connection. -/
theorem links_step (hstep : step manager e = some t) (h : ¬ manager.StartsRequests e) :
    t.requests.links.length = manager.requests.links.length := by
  have habandon : manager.abandon.requests = manager.requests := setState_requests ..
  cases step_cases hstep with
  | connect =>
    rw [connect]
    split
    · rfl
    · show (manager.setState .connecting).requests.links.length = _
      rw [setState_requests]
  | disconnect =>
    cases hstate : manager.state <;>
      simp only [disconnect, hstate, wait, closeConnectingSocket, setState_requests]
    obtain hstop | ⟨link, -, hstop⟩ :=
      ClientRequestManager.stop_cases manager.requests "client disconnected"
    · rw [hstop]
    · rw [hstop]
      exact List.length_modify ..
  | abandons => simp only [finish, habandon]
  | starts attempt socket hattempt hstate => exact absurd ⟨hattempt, hstate⟩ h
  | connectCompletes | resumeDisconnect => rfl
  | closeNotification link requests hcloses =>
    have hlength : requests.links.length = manager.requests.links.length := by
      cases ClientRequestManager.step_cases hcloses with
      | closeNotification =>
        simp [ClientRequestManager.connectionClosed, ClientRequestManager.failPendingRequests]
    simp only [connectionClosed]
    split
    · split
      · rw [setState_requests, hlength]
      · exact hlength
    · exact hlength
  | request event requests houtside hrequests =>
    have hnotices := (ClientRequestManager.outside_step houtside hrequests).2.2
    simpa only [ClientRequestManager.notices, List.length_map] using congrArg List.length hnotices

/-- In every reachable state the resources agree with the state, the step that leaves
`Disconnecting` ends in `Disconnected` and releases every waiter, and a step that calls
`ClientRequestManager::start`, the only one to make a connection, finds none, so that only its
limits can keep it from ending in `Connected`. -/
theorem state_agrees_with_resources (config : Config) (es : List Event)
    (manager : ConnectionManager)
    (run : Machine.exec step (initial config) es = some manager) :
    manager.Agrees ∧
      (∀ e t, step manager e = some t → manager.state = .disconnecting →
        t.state ≠ .disconnecting →
          t.state = .disconnected ∧ t.waiters = manager.waiters.map Waiter.release ∧
            Waiter.waiting ∉ t.waiters) ∧
      ∀ e, (manager.StartsRequests e → manager.requests.connection = none) ∧
        ∀ t, step manager e = some t →
          (manager.StartsRequests e → (t.state = .connected ↔ Network.Connection.validate
            ⟨manager.requests.config.maxMessageBytes,
              manager.requests.config.maxQueuedMessages⟩ = .ok ())) ∧
          (¬ manager.StartsRequests e →
            t.requests.links.length = manager.requests.links.length) := by
  obtain ⟨phase, inPhase⟩ := phase_exec run
  refine ⟨inPhase.agrees, fun e t hstep before after => ?_, fun e =>
    ⟨inPhase.startsRequests, fun t hstep =>
      ⟨fun starts => inPhase.starts_step starts hstep, links_step hstep⟩⟩⟩
  have hstate := leaves_disconnecting inPhase hstep before after
  have hwaiters : t.waiters = manager.waiters.map Waiter.release := by
    rw [waiters_step hstep, if_pos ⟨before, hstate⟩]
  refine ⟨hstate, hwaiters, ?_⟩
  rw [hwaiters]
  exact waiting_notMem_release _

/-- A connection is made, closed by two `disconnect` calls and lost; a second one succeeds just
before two more. -/
def twoSessions : List Event :=
  [.connect, .connectCompletes 0 none, .resumeConnect 0, .disconnect, .disconnect,
    .request (.linkCloses 0), .closeNotification 0, .connect, .connectCompletes 1 none,
    .disconnect, .disconnect]

/-- The call of `start`, then `Connected`, both halves of `Disconnecting`, and the release of
the waiters that ends the first of them. -/
theorem state_agrees_with_resources_cancelling :
    ∃ starting connected closing released cancelling,
      Machine.exec step (initial {}) (twoSessions.take 2) = some starting ∧
      starting.StartsRequests (.resumeConnect 0) ∧ starting.requests.connection = none ∧
      step starting (.resumeConnect 0) = some connected ∧
      connected.state = .connected ∧ connected.Agrees ∧
      connected.requests.connection = some 0 ∧
      Machine.exec step (initial {}) (twoSessions.take 6) = some closing ∧
      closing.state = .disconnecting ∧ closing.waiters = [.waiting, .waiting] ∧
      closing.Agrees ∧ closing.requests.CloseToCome 0 ∧
      step closing (.closeNotification 0) = some released ∧
      released.state = .disconnected ∧ released.waiters = [.released, .released] ∧
      Machine.exec step (initial {}) twoSessions = some cancelling ∧
      cancelling.state = .disconnecting ∧ cancelling.InFlight 1 ∧
      cancelling.waiters = [.released, .released, .waiting, .waiting] ∧ cancelling.Agrees := by
  obtain ⟨starting, run, starts, connected, hstep, connects, hconnection, hlimits⟩ : ∃ starting,
      Machine.exec step (initial {}) (twoSessions.take 2) = some starting ∧
      starting.StartsRequests (.resumeConnect 0) ∧ ∃ connected,
        step starting (.resumeConnect 0) = some connected ∧
        Machine.exec step (initial {}) (twoSessions.take 3) = some connected ∧
        connected.requests.connection = some 0 ∧
        Network.Connection.validate ⟨starting.requests.config.maxMessageBytes,
          starting.requests.config.maxQueuedMessages⟩ = .ok () :=
    ⟨_, rfl, ⟨rfl, ConnectionState.noConfusion⟩, _, rfl, rfl, rfl, rfl⟩
  obtain ⟨-, -, hstarts⟩ := state_agrees_with_resources {} (twoSessions.take 2) _ run
  obtain ⟨hnone, hsteps⟩ := hstarts (.resumeConnect 0)
  obtain ⟨hagrees, -⟩ := state_agrees_with_resources {} (twoSessions.take 3) _ connects
  obtain ⟨hclosing, hleaves, -⟩ := state_agrees_with_resources {} (twoSessions.take 6) _ rfl
  obtain ⟨hstate, hwaiters, -⟩ :=
    hleaves (.closeNotification 0) _ rfl rfl ConnectionState.noConfusion
  obtain ⟨hcancelling, -⟩ := state_agrees_with_resources {} twoSessions _ rfl
  exact ⟨starting, connected, _, _, _, run, starts, hnone starts, hstep,
    ((hsteps _ hstep).1 starts).mpr hlimits, hagrees, hconnection, rfl, rfl, rfl, hclosing,
    ⟨_, rfl, rfl, rfl⟩, rfl, hstate, hwaiters, rfl, rfl, ⟨_, rfl, rfl⟩, rfl, hcancelling⟩

end ConnectionManager

end Stalker2D.Client
