import Stalker2D.Client.RequestInvariant

/-!
# The outcome of a request is kept twice

Once in `PendingRequest.state` and once in the error code of the wait. `send` looks
at the error code first, so a timer that has expired wins over a response or a
failure recorded between the expiry and the resumption. `reportsOutcome_iff` says
that this is the only way in which the two can disagree.
-/

namespace Stalker2D.Client

open Protocol

namespace PendingRequest

/-- The outcome a request has recorded, once it has left `Waiting`. -/
def recorded (pending : PendingRequest) : Option SendResult :=
  match pending.state with
  | .waiting => none
  | .completed => pending.response.map .ok
  | .failed => some (.error (.runtimeError pending.error))

/-- After a cancelled wait the recorded outcome is what `send` ends with. -/
theorem recorded_eq_report {pending : PendingRequest} (hstate : pending.state ≠ .waiting)
    (hcompleted : pending.state = .completed → ∃ response, pending.response = some response) :
    pending.recorded = some (pending.report (some .operationAborted)) := by
  cases hs : pending.state with
  | waiting => exact absurd hs hstate
  | failed => simp [recorded, report, hs]
  | completed =>
    obtain ⟨response, hresponse⟩ := hcompleted hs
    simp [recorded, report, hs, hresponse]

theorem recorded_eq_timedOut {pending : PendingRequest} :
    pending.recorded = some timedOut ↔
      pending.state = .failed ∧ pending.error = "Request timed out" := by
  simp only [recorded, timedOut]
  cases hs : pending.state with
  | waiting => simp
  | completed => simp [Option.map_eq_some_iff]
  | failed => simp

end PendingRequest

namespace SendCall

/-- The request has left `Waiting`, but its timer had already expired, or its error
text is the text of a timeout. -/
def Overtaken (call : SendCall) : Prop :=
  call.pending.state ≠ .waiting ∧
    (call.pending.timer = .settled none ∨
      call.pending.state = .failed ∧ call.pending.error = "Request timed out")

instance (call : SendCall) : Decidable call.Overtaken := by
  simp only [Overtaken]
  infer_instance

end SendCall

namespace ClientRequestManager

/-- A resumed `send` reports the recorded outcome, and a timeout only if there is none. -/
def ReportsOutcome (manager : ClientRequestManager) : Event → ClientRequestManager → Prop
  | .resume frame, t =>
    ∀ call ∈ manager.calls[frame]?, ∀ result ∈ (t.calls[frame]?).bind SendCall.result,
      (∀ outcome ∈ call.pending.recorded, result = outcome) ∧
        (result = PendingRequest.timedOut → call.pending.state = .waiting)
  | _, _ => True

instance (manager : ClientRequestManager) :
    ∀ (e : Event) (t : ClientRequestManager), Decidable (manager.ReportsOutcome e t)
  | .resume frame, t => inferInstanceAs (Decidable (∀ call ∈ manager.calls[frame]?,
      ∀ result ∈ (t.calls[frame]?).bind SendCall.result,
        (∀ outcome ∈ call.pending.recorded, result = outcome) ∧
          (result = PendingRequest.timedOut → call.pending.state = .waiting)))
  | .start _ _, _ | .stop _, _ | .send _, _ | .receive _, _ | .timerExpires _, _
  | .linkCloses _, _ | .closeNotification _, _ => isTrue trivial

/-- The frame about to resume, if any, has not been overtaken. -/
def InTime (manager : ClientRequestManager) : Event → Prop
  | .resume frame => ∀ call ∈ manager.calls[frame]?, ¬call.Overtaken
  | _ => True

/-- A settled frame is still mapped when it resumes, so it ends with `report`. -/
theorem WellFormed.result_resumeSend {manager : ClientRequestManager} (wf : manager.WellFormed)
    {frame : Nat} {call : SendCall} (hcall : manager.calls[frame]? = some call)
    (hresult : call.result = none) (hstate : call.pending.state ≠ .waiting)
    (error : Option ErrorCode) :
    ((manager.resumeSend frame call error).calls[frame]?).bind SendCall.result =
      some (call.pending.report error) := by
  have hmapped := wf.settled frame call hcall hresult hstate
  simp only [ClientRequestManager.resumeSend, hmapped, if_true, List.getElem?_modify, hcall]
  rfl

theorem WellFormed.reportsOutcome_resumeSend {manager : ClientRequestManager}
    (wf : manager.WellFormed) {frame : Nat} {call : SendCall}
    (hcall : manager.calls[frame]? = some call) (hresult : call.result = none)
    {error : Option ErrorCode} (htimer : call.pending.timer = .settled error) :
    manager.ReportsOutcome (.resume frame) (manager.resumeSend frame call error) ↔
      ¬call.Overtaken := by
  have consistent := wf.calls frame call hcall
  by_cases hw : call.pending.state = .waiting
  · have hnone : call.pending.recorded = none := by simp only [PendingRequest.recorded, hw]
    simp [ReportsOutcome, SendCall.Overtaken, hcall, hw, hnone]
  · have hrecorded := PendingRequest.recorded_eq_report hw consistent.completed
    have hreport := wf.result_resumeSend hcall hresult hw error
    simp only [ReportsOutcome, hcall, Option.mem_some, forall_eq', hreport, hw, imp_false,
      SendCall.Overtaken, htimer, Timer.settled.injEq, ne_eq, not_false_eq_true, true_and]
    obtain h | h | h := consistent.timer <;> rw [htimer] at h
    · cases h
    · -- the timer had expired: `send` reports a timeout whatever is recorded
      obtain rfl := Timer.settled.inj h
      simp [PendingRequest.report]
    · obtain rfl := Timer.settled.inj h
      rw [hrecorded]
      simp only [Option.mem_some, forall_eq', true_and, reduceCtorEq, false_or,
        ← PendingRequest.recorded_eq_timedOut, hrecorded, Option.some.injEq]

theorem WellFormed.reportsOutcome_iff {manager t : ClientRequestManager} (wf : manager.WellFormed)
    {e : Event} (hstep : step manager e = some t) :
    manager.ReportsOutcome e t ↔ manager.InTime e := by
  cases step_cases hstep with
  | resume frame call error hcall hresult htimer =>
    rw [wf.reportsOutcome_resumeSend hcall hresult htimer]
    simp only [InTime, hcall, Option.mem_some, forall_eq']
  | start | stop | send | receive | timerExpires | linkCloses | closeNotification =>
    exact Iff.rfl

/-- A run reports every outcome as recorded exactly when no `send` resumes overtaken. -/
theorem reportsOutcome_along_iff (config : Config) (es : List Event) :
    step.Along ReportsOutcome { config } es ↔
      step.Along (fun manager e _ => manager.InTime e) { config } es :=
  Machine.along_iff (fun _ _ _ wf hstep => wf.reportsOutcome_iff hstep)
    (fun manager e t wf hstep _ => invariant_wellFormed manager e t wf hstep)
    (wellFormed_initial config) es

/-- The response arrives after the expiry and before the resumption. -/
theorem response_reported_as_timeout :
    ¬step.Along ReportsOutcome { config := {} }
      [.start 0 true, .send { payload := some (.ping {}) }, .timerExpires 0,
        .receive { requestId := 1, status := .ok, payload := some (.pong {}) }, .resume 0] := by
  decide +kernel

end ClientRequestManager

end Stalker2D.Client
