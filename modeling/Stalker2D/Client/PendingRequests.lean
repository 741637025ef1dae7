import Stalker2D.Client.RequestClosure

/-!
# The map of pending requests

The map refers to a frame from the moment its `send` is admitted until that `send`
resumes. So the map is the set of the suspended coroutines, each under the id it has
sent, and a coroutine that resumes finds its own entry, in a state that fits the error
code of its wait. `Exits` are the ways out of `send` that are left.
-/

namespace Stalker2D.Client

namespace SendCall

/-- How a resumed `send` ends: its timer has expired, or a cancelled wait has left an error
or a response. -/
inductive Exits (call : SendCall) : SendResult → Prop
  | timedOut (expired : call.pending.timer = .settled none) :
      Exits call (.error (.runtimeError "Request timed out"))
  | failed (cancelled : call.pending.timer = .settled (some .operationAborted))
      (state : call.pending.state = .failed) :
      Exits call (.error (.runtimeError call.pending.error))
  | completed (cancelled : call.pending.timer = .settled (some .operationAborted))
      (state : call.pending.state = .completed) (response : Protocol.ServerMessage)
      (stored : call.pending.response = some response) : Exits call (.ok response)

theorem Consistent.exits_report {received : List Protocol.ServerMessage} {call : SendCall}
    (consistent : call.Consistent received)
    (cancelled : call.pending.timer = .settled (some .operationAborted) →
      call.pending.state ≠ .waiting)
    {error : Option ErrorCode} (htimer : call.pending.timer = .settled error) :
    call.Exits (call.pending.report error) := by
  obtain h | h | h := consistent.timer
  · rw [h] at htimer
    cases htimer
  · obtain rfl := Timer.settled.inj (h.symm.trans htimer)
    exact .timedOut h
  · obtain rfl := Timer.settled.inj (h.symm.trans htimer)
    cases hstate : call.pending.state with
    | waiting => exact absurd hstate (cancelled h)
    | failed =>
      have hreport : call.pending.report (some .operationAborted) =
          .error (.runtimeError call.pending.error) := by
        simp [PendingRequest.report, hstate]
      rw [hreport]
      exact .failed h hstate
    | completed =>
      obtain ⟨response, hresponse⟩ := consistent.completed hstate
      have hreport : call.pending.report (some .operationAborted) = .ok response := by
        simp [PendingRequest.report, hstate, hresponse]
      rw [hreport]
      exact .completed h hstate response hresponse

end SendCall

namespace ClientRequestManager

/-- The map never outgrows its limit, and the limit stays what it was. -/
structure Bounded (config : Config) (manager : ClientRequestManager) : Prop where
  limits : manager.config = config
  size : manager.pendingRequests.size ≤ config.maxPendingRequests

theorem bounded_initial (config : Config) : Bounded config { config } where
  limits := rfl
  size := Nat.zero_le _

theorem invariant_bounded (config : Config) : step.Invariant (Bounded config) := by
  intro manager e t bounded hstep
  have unchanged : t.config = manager.config → t.pendingRequests = manager.pendingRequests →
      t.Bounded config := by
    intro hconfig hpending
    exact ⟨hconfig.trans bounded.limits, hpending ▸ bounded.size⟩
  cases step_cases hstep with
  | start socket onClosed =>
    obtain h | h := start_cases manager socket onClosed
    · rw [h]
      exact bounded
    · rw [h]
      exact ⟨bounded.limits, bounded.size⟩
  | stop reason =>
    obtain h | ⟨link, -, h⟩ := stop_cases manager reason
    · rw [h]
      exact bounded
    · rw [h]
      exact ⟨bounded.limits, bounded.size⟩
  | send message =>
    obtain ⟨what, h⟩ | ⟨link, -, hroom, h⟩ := send_cases manager message
    · rw [h]
      exact bounded
    · rw [h]
      refine ⟨bounded.limits, ?_⟩
      rw [bounded.limits] at hroom
      exact Nat.le_trans Std.TreeMap.size_insertIfNew_le hroom
  | receive message =>
    apply unchanged _ (pendingRequests_receive manager message)
    simp only [receive]
    split <;> rfl
  | timerExpires frame => exact unchanged rfl rfl
  | resume frame call error =>
    simp only [resumeSend]
    split
    · exact ⟨bounded.limits, Nat.le_trans Std.TreeMap.size_erase_le bounded.size⟩
    · exact ⟨bounded.limits, bounded.size⟩
  | linkCloses link => exact unchanged rfl rfl
  | closeNotification link => exact unchanged rfl rfl

end ClientRequestManager

/-- Every run of a manager is one of its journal. -/
theorem Journal.exists_exec {config : Config} {es : List ClientRequestManager.Event}
    {manager : ClientRequestManager}
    (run : ClientRequestManager.step.exec { config } es = some manager) :
    ∃ sentOn, Journal.step.exec { manager := { config } } es = some { manager, sentOn } := by
  refine Machine.exec_induction (motive := fun es manager => ∃ sentOn,
    Journal.step.exec { manager := { config } } es = some { manager, sentOn }) ⟨[], rfl⟩ ?_ run
  rintro es manager e t - ⟨sentOn, hrun⟩ hstep
  obtain ⟨sentOn', hnext⟩ : ∃ sentOn', Journal.step { manager, sentOn } e =
      some { manager := t, sentOn := sentOn' } := by
    simp only [Journal.step, hstep, Option.map_some]
    exact ⟨_, rfl⟩
  exact ⟨sentOn', Machine.exec_concat_eq_some.mpr ⟨_, hrun, hnext⟩⟩

namespace ClientRequestManager

/-- The books of the requests in flight. -/
structure Bookkeeping (config : Config) (manager : ClientRequestManager) : Prop where
  /-- The entries are those of the frames that have not resumed, each under its own id. -/
  entries : ∀ (id : UInt64) (frame : Nat), manager.pendingRequests[id]? = some frame ↔
    ∃ call, manager.calls[frame]? = some call ∧ call.result = none ∧ call.message.requestId = id
  bounded : manager.pendingRequests.size ≤ config.maxPendingRequests
  /-- An entry is taken out by the resumption of its own `send` and by nothing else. -/
  kept : ∀ e t, step manager e = some t → ∀ (id : UInt64) (frame : Nat),
    manager.pendingRequests[id]? = some frame →
      t.pendingRequests[id]? = some frame ∨ e = .resume frame
  /-- A `send` that resumes finds its entry, takes it out and ends. -/
  resumed : ∀ frame t, step manager (.resume frame) = some t →
    ∃ call later result, manager.calls[frame]? = some call ∧ t.calls[frame]? = some later ∧
      manager.pendingRequests[call.message.requestId]? = some frame ∧
      t.pendingRequests[call.message.requestId]? = none ∧
      later.result = some result ∧ call.Exits result

/-- Only the resumption of a `send` takes its entry out of the map. -/
theorem WellFormed.kept_step {manager t : ClientRequestManager} (wf : manager.WellFormed)
    {e : Event} (hstep : step manager e = some t) {id : UInt64} {frame : Nat}
    (h : manager.pendingRequests[id]? = some frame) :
    t.pendingRequests[id]? = some frame ∨ e = .resume frame := by
  cases step_cases hstep with
  | start socket onClosed =>
    left
    obtain hstart | hstart := start_cases manager socket onClosed
    · rwa [hstart]
    · rwa [hstart]
  | stop reason =>
    left
    obtain hstop | ⟨link, -, hstop⟩ := stop_cases manager reason
    · rwa [hstop]
    · rw [hstop]
      exact h
  | send message =>
    left
    obtain ⟨what, hsend⟩ | ⟨link, -, -, hsend⟩ := send_cases manager message
    · rwa [hsend]
    · rw [hsend]
      exact pendingRequests_sent_of_mapped manager link message h
  | receive message =>
    left
    rwa [pendingRequests_receive]
  | timerExpires expired => exact .inl h
  | resume resumed call error hcall =>
    by_cases hframe : resumed = frame
    · exact .inr (by rw [hframe])
    · exact .inl ((wf.pendingRequests_resumeSend hcall error id frame).mpr ⟨hframe, h⟩)
  | linkCloses link => exact .inl h
  | closeNotification link => exact .inl h

/-- The map has an entry for each `send` that was admitted and has not ended, and no other, so
never more than its limit. Only the resumption of a `send` takes its entry out, and that `send`
then returns its response or throws. This holds as long as fewer than `2 ^ 64` requests have
been sent. -/
theorem pending_map_bookkeeping {config : Config} {es : List Event}
    {manager : ClientRequestManager} (run : step.exec { config } es = some manager)
    (few : manager.calls.length < UInt64.size) : manager.Bookkeeping config := by
  obtain ⟨sentOn, hrun⟩ := Journal.exists_exec run
  have tracked := Journal.invariant_tracked.exec (Journal.tracked_initial config) hrun
  have wf : manager.WellFormed := tracked.wellFormed
  have bounded := (invariant_bounded config).exec (bounded_initial config) run
  refine ⟨?entries, bounded.size, ?kept, ?resumed⟩
  case entries =>
    intro id frame
    constructor
    · exact wf.mapped id frame
    · rintro ⟨call, hcall, hresult, rfl⟩
      exact tracked.entered few frame call hcall hresult
  case kept => exact fun e t hstep id frame h => wf.kept_step hstep h
  case resumed =>
    intro frame t hstep
    cases step_cases hstep with
    | resume _ call error hcall hresult htimer =>
      have hmapped : manager.pendingRequests[call.message.requestId]? = some frame :=
        tracked.entered few frame call hcall hresult
      have houtcome : manager.outcome frame call error = call.pending.report error :=
        if_pos hmapped
      have hcalls := calls_resumeSend_eq manager frame call error
      rw [houtcome] at hcalls
      refine ⟨call, call.finish (call.pending.report error) manager.received.length,
        call.pending.report error, hcall, ?_, hmapped, ?_, rfl, ?_⟩
      · rw [hcalls, List.getElem?_modify, hcall]
        simp only [if_true, Option.map_eq_map, Option.map_some]
      · simp only [resumeSend, hmapped, if_true]
        exact Std.TreeMap.getElem?_erase_self
      · exact (wf.calls frame call hcall).exits_report (tracked.cancelled frame call hcall) htimer

/-- A response, a timeout and a failure, with no room for a third request at a time. -/
def fullMap : List Event :=
  [.start 0 true, .send { payload := some (.ping {}) }, .send { payload := some .stateSnapshot },
    .send { payload := some (.ping {}) }, .receive { requestId := 2, status := .ok }, .resume 1,
    .send { payload := some (.ping {}) }, .timerExpires 0, .stop "Client stopped", .resume 0]

theorem pending_map_bookkeeping_fullMap :
    ∃ manager, step.exec { config := { maxPendingRequests := 2 } } fullMap = some manager ∧
      manager.Bookkeeping { maxPendingRequests := 2 } ∧
      manager.calls.map SendCall.result =
        [some (.error (.runtimeError "Request timed out")),
          some (.ok { requestId := 2, status := .ok }), none] := by
  have run : step.exec { config := { maxPendingRequests := 2 } } fullMap = some _ := rfl
  exact ⟨_, run, pending_map_bookkeeping run (by decide), by decide⟩

end ClientRequestManager

end Stalker2D.Client
