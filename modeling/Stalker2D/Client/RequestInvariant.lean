import Stalker2D.Client.ClientRequestManager
import Stalker2D.Machine.Lists

/-!
# What holds of every request

`SendCall.Consistent` is the part of the invariant that speaks about one frame: its
timer, its recorded outcome and where in `received` that outcome came from.
`WellFormed` adds how frames and the pending map belong together. Each operation is
shown to keep both, first on a frame and then on the manager.
-/

namespace Stalker2D.Client

open Protocol

namespace Timer

theorem cancel_ne_waiting (timer : Timer) : timer.cancel ≠ .waiting := by
  cases timer <;> simp [cancel]

theorem expire_ne_waiting (timer : Timer) : timer.expire ≠ .waiting := by
  cases timer <;> simp [expire]

/-- What asio delivers: no error after expiry, `operation_aborted` after a cancel. -/
def Regular (timer : Timer) : Prop :=
  timer = .waiting ∨ timer = .settled none ∨ timer = .settled (some .operationAborted)

theorem Regular.cancel {timer : Timer} (h : timer.Regular) : timer.cancel.Regular := by
  obtain rfl | rfl | rfl := h <;> simp [Regular, Timer.cancel]

theorem Regular.expire {timer : Timer} (h : timer.Regular) : timer.expire.Regular := by
  obtain rfl | rfl | rfl := h <;> simp [Regular, Timer.expire]

end Timer

namespace SendCall

/-- What holds of one frame when `received` has been received so far. -/
structure Consistent (received : List ServerMessage) (call : SendCall) : Prop where
  timer : call.pending.timer.Regular
  settled : call.pending.state ≠ .waiting → call.pending.timer ≠ .waiting
  completed : call.pending.state = .completed → ∃ response, call.pending.response = some response
  response : ∀ response, call.pending.response = some response →
    call.pending.state = .completed ∧ response.requestId = call.message.requestId ∧
      ∃ j, call.completedBy = some j ∧ received[j]? = some response ∧ call.sentAt ≤ j
  origin : ∀ j, call.completedBy = some j →
    j < received.length ∧ call.pending.state = .completed
  sent : call.sentAt ≤ received.length
  finished : ∀ response, call.result = some (.ok response) →
    call.pending.response = some response ∧
      ∃ n, call.finishedAt = some n ∧ n ≤ received.length ∧ ∀ j, call.completedBy = some j → j < n

variable {received : List ServerMessage} {call : SendCall}

@[simp] theorem complete_message (message : ServerMessage) (position : Nat) :
    (call.complete message position).message = call.message := by
  simp only [complete]
  split <;> rfl

@[simp] theorem complete_result (message : ServerMessage) (position : Nat) :
    (call.complete message position).result = call.result := by
  simp only [complete]
  split <;> rfl

theorem fail_of_waiting (h : call.pending.state = .waiting) (reason : String) :
    call.fail reason =
      { call with
        pending :=
          { call.pending with
            state := .failed
            error := reason
            timer := call.pending.timer.cancel } } := by
  simp [fail, PendingRequest.fail, h]

theorem fail_of_ne (h : call.pending.state ≠ .waiting) (reason : String) :
    call.fail reason = call := by
  simp [fail, PendingRequest.fail, h]

theorem complete_of_waiting (h : call.pending.state = .waiting) (message : ServerMessage)
    (position : Nat) :
    call.complete message position =
      { call with
        pending :=
          { call.pending with
            state := .completed
            response := some message
            timer := call.pending.timer.cancel }
        completedBy := some position } := by
  simp [complete, h]

theorem complete_of_ne (h : call.pending.state ≠ .waiting) (message : ServerMessage)
    (position : Nat) : call.complete message position = call := by
  simp [complete, h]

theorem Consistent.fresh (message : ClientMessage) (received : List ServerMessage) :
    Consistent received { message, sentAt := received.length } where
  timer := .inl rfl
  settled h := absurd rfl h
  completed h := nomatch h
  response _ h := nomatch h
  origin _ h := nomatch h
  sent := Nat.le_refl _
  finished _ h := nomatch h

/-- Receiving one more message changes nothing that was recorded before. -/
theorem Consistent.append (h : call.Consistent received) (message : ServerMessage) :
    call.Consistent (received ++ [message]) where
  timer := h.timer
  settled := h.settled
  completed := h.completed
  response response hresponse := by
    obtain ⟨hstate, hid, j, hj, hget, hsent⟩ := h.response response hresponse
    refine ⟨hstate, hid, j, hj, ?_, hsent⟩
    rw [List.getElem?_append_left (h.origin j hj).1]
    exact hget
  origin j hj := by
    have := h.origin j hj
    simp only [List.length_append, List.length_singleton]
    exact ⟨by omega, this.2⟩
  sent := by
    have := h.sent
    simp only [List.length_append, List.length_singleton]
    omega
  finished response hresult := by
    obtain ⟨hresponse, n, hn, hle, hlt⟩ := h.finished response hresult
    refine ⟨hresponse, n, hn, ?_, hlt⟩
    simp only [List.length_append, List.length_singleton]
    omega

/-- A frame that is still waiting has nothing recorded. -/
theorem Consistent.waiting (h : call.Consistent received) (hw : call.pending.state = .waiting) :
    call.pending.response = none ∧ call.completedBy = none ∧
      ∀ response, call.result ≠ some (.ok response) := by
  have hresponse : call.pending.response = none := by
    cases hr : call.pending.response with
    | none => rfl
    | some response =>
      have := (h.response response hr).1
      rw [hw] at this
      cases this
  refine ⟨hresponse, ?_, fun response hresult => ?_⟩
  · cases hj : call.completedBy with
    | none => rfl
    | some j =>
      have := (h.origin j hj).2
      rw [hw] at this
      cases this
  · have := (h.finished response hresult).1
    rw [hresponse] at this
    cases this

theorem Consistent.fail (h : call.Consistent received) (reason : String) :
    (call.fail reason).Consistent received := by
  by_cases hw : call.pending.state = .waiting
  · obtain ⟨hresponse, hby, hresult⟩ := h.waiting hw
    rw [fail_of_waiting hw]
    exact
      { timer := h.timer.cancel
        settled := fun _ => Timer.cancel_ne_waiting _
        completed := fun hc => nomatch hc
        response := fun response hr => by simp [hresponse] at hr
        origin := fun j hj => by simp [hby] at hj
        sent := h.sent
        finished := fun response hr => absurd hr (hresult response) }
  · rwa [fail_of_ne hw]

theorem Consistent.expire (h : call.Consistent received) : call.expire.Consistent received where
  timer := h.timer.expire
  settled _ := Timer.expire_ne_waiting _
  completed := h.completed
  response := h.response
  origin := h.origin
  sent := h.sent
  finished := h.finished

/-- The message just received completes a frame that waits for its id. -/
theorem Consistent.complete (h : call.Consistent received) {message : ServerMessage}
    (hid : message.requestId = call.message.requestId) :
    (call.complete message received.length).Consistent (received ++ [message]) := by
  by_cases hw : call.pending.state = .waiting
  · obtain ⟨-, -, hresult⟩ := h.waiting hw
    rw [complete_of_waiting hw]
    refine
      { timer := h.timer.cancel
        settled := fun _ => Timer.cancel_ne_waiting _
        completed := fun _ => ⟨message, rfl⟩
        response := fun response hr => ?_
        origin := fun j hj => ?_
        sent := (h.append message).sent
        finished := fun response hr => absurd hr (hresult response) }
    · obtain rfl := Option.some.inj hr
      exact ⟨rfl, hid, received.length, rfl, by simp, h.sent⟩
    · obtain rfl := Option.some.inj hj
      exact ⟨by simp, rfl⟩
  · rw [complete_of_ne hw]
    exact h.append message

/-- The end of a `send`: what it returns is the recorded response. -/
theorem Consistent.finish (h : call.Consistent received) {result : SendResult}
    (hresult : ∀ response, result = .ok response → call.pending.response = some response) :
    (call.finish result received.length).Consistent received where
  timer := h.timer
  settled := h.settled
  completed := h.completed
  response := h.response
  origin := h.origin
  sent := h.sent
  finished response hr :=
    ⟨hresult response (Option.some.inj hr), _, rfl, Nat.le_refl _,
      fun j hj => (h.origin j hj).1⟩

end SendCall

namespace PendingRequest

/-- Only the stored response is ever returned. -/
theorem response_of_report {pending : PendingRequest} {error : Option ErrorCode}
    {response : ServerMessage} (h : pending.report error = .ok response) :
    pending.response = some response := by
  simp only [report, timedOut] at h
  split at h
  · cases h
  · split at h
    · cases h
    · split at h
      · cases h
      · split at h
        next hresponse => rw [hresponse, Except.ok.inj h]
        next => cases h

end PendingRequest

namespace ClientRequestManager

theorem mem_pendingFrames {manager : ClientRequestManager} {frame : Nat} :
    frame ∈ manager.pendingFrames ↔
      ∃ id : UInt64, manager.pendingRequests[id]? = some frame := by
  simp only [pendingFrames, List.mem_map, Prod.exists, exists_eq_right,
    Std.TreeMap.mem_toList_iff_getElem?_eq_some]

/-- How frames and the pending map belong together. -/
structure WellFormed (manager : ClientRequestManager) : Prop where
  calls : ∀ (frame : Nat) call, manager.calls[frame]? = some call → call.Consistent manager.received
  mapped : ∀ (id : UInt64) (frame : Nat), manager.pendingRequests[id]? = some frame →
    ∃ call, manager.calls[frame]? = some call ∧ call.result = none ∧ call.message.requestId = id
  settled : ∀ (frame : Nat) call, manager.calls[frame]? = some call → call.result = none →
    call.pending.state ≠ .waiting →
    manager.pendingRequests[call.message.requestId]? = some frame
  distinct : ∀ (frame frame' : Nat) call call' j, manager.calls[frame]? = some call →
    manager.calls[frame']? = some call' → call.completedBy = some j →
    call'.completedBy = some j → frame = frame'

/-- Connections and configuration play no part in it. -/
theorem WellFormed.congr {manager other : ClientRequestManager} (wf : manager.WellFormed)
    (hcalls : other.calls = manager.calls)
    (hpending : other.pendingRequests = manager.pendingRequests)
    (hreceived : other.received = manager.received) : other.WellFormed := by
  obtain ⟨calls, mapped, settled, distinct⟩ := wf
  constructor
  · simpa only [hcalls, hreceived] using calls
  · simpa only [hcalls, hpending] using mapped
  · simpa only [hcalls, hpending] using settled
  · simpa only [hcalls] using distinct

theorem wellFormed_initial (config : Config) : WellFormed { config } where
  calls _ _ h := by simp at h
  mapped _ _ h := by simp at h
  settled _ _ h := by simp at h
  distinct _ _ _ _ _ h := by simp at h

/-- An update of single frames that keeps messages, results and completing messages,
and moves no unmapped frame out of `Waiting`. -/
theorem WellFormed.update {manager other : ClientRequestManager} (wf : manager.WellFormed)
    (f : Nat → SendCall → SendCall)
    (hcalls : ∀ frame : Nat, other.calls[frame]? = (manager.calls[frame]?).map (f frame))
    (hpending : other.pendingRequests = manager.pendingRequests)
    (consistent : ∀ (frame : Nat) call, manager.calls[frame]? = some call →
      (f frame call).Consistent other.received)
    (message : ∀ frame call, (f frame call).message = call.message)
    (result : ∀ frame call, (f frame call).result = call.result)
    (state : ∀ (frame : Nat) call, manager.calls[frame]? = some call → call.result = none →
      (f frame call).pending.state ≠ .waiting →
      manager.pendingRequests[call.message.requestId]? = some frame)
    (distinct : ∀ (frame frame' : Nat) call call' j, manager.calls[frame]? = some call →
      manager.calls[frame']? = some call' → (f frame call).completedBy = some j →
      (f frame' call').completedBy = some j → frame = frame') : other.WellFormed := by
  have inv : ∀ {frame : Nat} {call}, other.calls[frame]? = some call →
      ∃ old, manager.calls[frame]? = some old ∧ f frame old = call := by
    intro frame call h
    rw [hcalls] at h
    exact Option.map_eq_some_iff.mp h
  refine ⟨?calls, ?mapped, ?settled, ?distinct⟩
  case calls =>
    intro frame call h
    obtain ⟨old, hold, rfl⟩ := inv h
    exact consistent frame old hold
  case mapped =>
    intro id frame h
    rw [hpending] at h
    obtain ⟨old, hold, hresult, hid⟩ := wf.mapped id frame h
    exact ⟨f frame old, by rw [hcalls, hold, Option.map_some], by rw [result, hresult],
      by rw [message, hid]⟩
  case settled =>
    intro frame call h hresult hstate
    obtain ⟨old, hold, rfl⟩ := inv h
    rw [hpending, message]
    exact state frame old hold (result frame old ▸ hresult) hstate
  case distinct =>
    intro frame frame' call call' j h h' hj hj'
    obtain ⟨old, hold, rfl⟩ := inv h
    obtain ⟨old', hold', rfl⟩ := inv h'
    exact distinct frame frame' old old' j hold hold' hj hj'

theorem calls_failPendingRequests (manager : ClientRequestManager) (reason : String)
    (frame : Nat) :
    (manager.failPendingRequests reason).calls[frame]? = (manager.calls[frame]?).map fun call =>
      if frame ∈ manager.pendingFrames then call.fail reason else call := by
  simp [failPendingRequests, List.getElem?_mapIdx]

theorem WellFormed.failPendingRequests {manager : ClientRequestManager} (wf : manager.WellFormed)
    (reason : String) : (manager.failPendingRequests reason).WellFormed := by
  refine wf.update
    (fun frame call => if frame ∈ manager.pendingFrames then call.fail reason else call)
    (calls_failPendingRequests manager reason) rfl ?_ ?_ ?_ ?_ ?_
  · intro frame call h
    split
    · exact (wf.calls frame call h).fail reason
    · exact wf.calls frame call h
  · intro frame call
    split <;> rfl
  · intro frame call
    split <;> rfl
  · intro frame call h hresult hstate
    split at hstate
    next hmem =>
      obtain ⟨id, hid⟩ := mem_pendingFrames.mp hmem
      obtain ⟨call', hcall', -, rfl⟩ := wf.mapped id frame hid
      obtain rfl := Option.some.inj (h.symm.trans hcall')
      exact hid
    next => exact wf.settled frame call h hresult hstate
  · intro frame frame' call call' j h h' hj hj'
    have hby : ∀ frame call,
        (if frame ∈ manager.pendingFrames then SendCall.fail call reason
          else call).completedBy = call.completedBy := by
      intro frame call
      split <;> rfl
    rw [hby] at hj hj'
    exact wf.distinct frame frame' call call' j h h' hj hj'

/-- The message with the id the next `send` gives it. -/
def stamp (manager : ClientRequestManager) (message : ClientMessage) : ClientMessage :=
  { message with requestId := manager.nextRequestId + 1 }

/-- The manager after an admitted `send` has suspended. -/
def sent (manager : ClientRequestManager) (link : Nat) (message : ClientMessage) :
    ClientRequestManager :=
  { manager with
    nextRequestId := manager.nextRequestId + 1
    pendingRequests :=
      manager.pendingRequests.insertIfNew (manager.nextRequestId + 1) manager.calls.length
    calls := manager.calls ++
      [{ message := manager.stamp message, sentAt := manager.received.length }]
    links := manager.links.modify link fun link =>
      { link with outgoing := link.outgoing ++ [manager.stamp message] } }

theorem calls_sent (manager : ClientRequestManager) (link : Nat) (message : ClientMessage) :
    (manager.sent link message).calls = manager.calls ++
      [{ message := manager.stamp message, sentAt := manager.received.length }] := rfl

theorem pendingRequests_sent (manager : ClientRequestManager) (link : Nat)
    (message : ClientMessage) :
    (manager.sent link message).pendingRequests =
      manager.pendingRequests.insertIfNew (manager.nextRequestId + 1) manager.calls.length := rfl

/-- The entries of the others stay. -/
theorem pendingRequests_sent_of_mapped (manager : ClientRequestManager) (link : Nat)
    (message : ClientMessage) {id : UInt64} {frame : Nat}
    (h : manager.pendingRequests[id]? = some frame) :
    (manager.sent link message).pendingRequests[id]? = some frame := by
  rw [pendingRequests_sent, Std.TreeMap.getElem?_insertIfNew, if_neg, h]
  rintro ⟨heq, hnot⟩
  have hid : manager.nextRequestId + 1 = id := by simpa using heq
  exact hnot (Std.TreeMap.mem_iff_isSome_getElem?.mpr (by rw [hid, h]; rfl))

/-- Everything a call of `send` can do before it suspends. -/
theorem send_cases (manager : ClientRequestManager) (message : ClientMessage) :
    (∃ what, manager.send message = (.error (.runtimeError what), manager)) ∨
      ∃ link, manager.connection = some link ∧
        manager.pendingRequests.size < manager.config.maxPendingRequests ∧
        manager.send message = (.ok (), manager.sent link message) := by
  simp only [send]
  cases hlink : manager.connection with
  | none => exact .inl ⟨_, rfl⟩
  | some link =>
    by_cases hfull : manager.config.maxPendingRequests ≤ manager.pendingRequests.size
    · exact .inl ⟨"Too many pending client requests", by simp only [hfull, if_true]⟩
    · exact .inr ⟨link, rfl, by omega, by simp only [hfull, if_false, sent, stamp, ← hlink]⟩

theorem WellFormed.sent {manager : ClientRequestManager} (wf : manager.WellFormed) (link : Nat)
    (message : ClientMessage) : (manager.sent link message).WellFormed := by
  have old : ∀ {frame : Nat} {call}, manager.calls[frame]? = some call →
      (manager.sent link message).calls[frame]? = some call := by
    intro frame call h
    have hlt := (List.getElem?_eq_some_iff.mp h).1
    rw [calls_sent, List.getElem?_append_left hlt, h]
  have inv : ∀ {frame : Nat} {call}, (manager.sent link message).calls[frame]? = some call →
      manager.calls[frame]? = some call ∨
        frame = manager.calls.length ∧
          call = { message := manager.stamp message, sentAt := manager.received.length } := by
    intro frame call h
    rw [calls_sent] at h
    exact getElem?_concat_cases h
  refine ⟨?calls, ?mapped, ?settled, ?distinct⟩
  case calls =>
    intro frame call h
    obtain h | ⟨-, rfl⟩ := inv h
    · exact wf.calls frame call h
    · exact SendCall.Consistent.fresh _ _
  case mapped =>
    intro id frame h
    rw [pendingRequests_sent, Std.TreeMap.getElem?_insertIfNew] at h
    split at h
    next hnew =>
      obtain rfl := Option.some.inj h
      exact ⟨_, by rw [calls_sent]; exact List.getElem?_concat_length, rfl,
        by simpa [stamp] using hnew.1⟩
    next =>
      obtain ⟨call, hcall, hrest⟩ := wf.mapped id frame h
      exact ⟨call, old hcall, hrest⟩
  case settled =>
    intro frame call h hresult hstate
    obtain h | ⟨-, rfl⟩ := inv h
    · have hmap := wf.settled frame call h hresult hstate
      exact pendingRequests_sent_of_mapped manager link message hmap
    · exact absurd rfl hstate
  case distinct =>
    intro frame frame' call call' j h h' hj hj'
    obtain h | ⟨-, rfl⟩ := inv h
    · obtain h' | ⟨-, rfl⟩ := inv h'
      · exact wf.distinct frame frame' call call' j h h' hj hj'
      · cases hj'
    · cases hj

/-- A resumed `send` gets a result, and only its recorded response can be returned. -/
theorem calls_resumeSend (manager : ClientRequestManager) (frame : Nat) (call : SendCall)
    (error : Option ErrorCode) :
    ∃ result, (∀ response, result = .ok response → call.pending.response = some response) ∧
      (manager.resumeSend frame call error).calls =
        manager.calls.modify frame (·.finish result manager.received.length) := by
  simp only [ClientRequestManager.resumeSend]
  split
  · exact ⟨_, fun response h => PendingRequest.response_of_report h, rfl⟩
  · refine ⟨.error (.runtimeError "Pending request state was lost"), ?_, rfl⟩
    intro response h
    cases h

theorem received_resumeSend (manager : ClientRequestManager) (frame : Nat) (call : SendCall)
    (error : Option ErrorCode) :
    (manager.resumeSend frame call error).received = manager.received := by
  simp only [ClientRequestManager.resumeSend]
  split <;> rfl

/-- The resumption takes its own entry out of the map and nothing else. -/
theorem WellFormed.pendingRequests_resumeSend {manager : ClientRequestManager}
    (wf : manager.WellFormed) {frame : Nat} {call : SendCall}
    (hcall : manager.calls[frame]? = some call) (error : Option ErrorCode) (id : UInt64)
    (frame' : Nat) :
    (manager.resumeSend frame call error).pendingRequests[id]? = some frame' ↔
      frame ≠ frame' ∧ manager.pendingRequests[id]? = some frame' := by
  -- an entry of `frame` can only stand under the id `frame` has sent
  have key : ∀ id : UInt64, manager.pendingRequests[id]? = some frame →
      id = call.message.requestId := by
    intro id h
    obtain ⟨call', hcall', -, hid⟩ := wf.mapped id frame h
    obtain rfl := Option.some.inj (hcall.symm.trans hcall')
    exact hid.symm
  simp only [ClientRequestManager.resumeSend]
  split
  next hmapped =>
    simp only [Std.TreeMap.getElem?_erase]
    constructor
    · intro h
      split at h
      · cases h
      next hne =>
        refine ⟨?_, h⟩
        rintro rfl
        exact hne (by simp [key id h])
    · rintro ⟨hne, h⟩
      rw [if_neg, h]
      intro heq
      obtain rfl : call.message.requestId = id := by simpa using heq
      exact hne (Option.some.inj (hmapped.symm.trans h))
  next hlost =>
    constructor
    · intro h
      refine ⟨?_, h⟩
      rintro rfl
      exact hlost (key id h ▸ h)
    · exact fun h => h.2

theorem WellFormed.resumeSend {manager : ClientRequestManager} (wf : manager.WellFormed)
    {frame : Nat} {call : SendCall} (hcall : manager.calls[frame]? = some call)
    (error : Option ErrorCode) : (manager.resumeSend frame call error).WellFormed := by
  obtain ⟨result, hresult, hcalls⟩ := calls_resumeSend manager frame call error
  have hpending := wf.pendingRequests_resumeSend hcall error
  have inv : ∀ {frame' : Nat} {call'},
      (manager.resumeSend frame call error).calls[frame']? = some call' →
      ∃ old, manager.calls[frame']? = some old ∧
        call' = if frame = frame' then old.finish result manager.received.length else old := by
    intro frame' call' h
    rw [hcalls, List.getElem?_modify] at h
    obtain ⟨old, hold, rfl⟩ := Option.map_eq_some_iff.mp h
    exact ⟨old, hold, rfl⟩
  refine ⟨?calls, ?mapped, ?settled, ?distinct⟩
  case calls =>
    intro frame' call' h
    obtain ⟨old, hold, rfl⟩ := inv h
    rw [received_resumeSend]
    split
    next heq =>
      subst heq
      obtain rfl := Option.some.inj (hcall.symm.trans hold)
      exact (wf.calls frame call hold).finish hresult
    next => exact wf.calls frame' old hold
  case mapped =>
    intro id frame' h
    obtain ⟨hne, h⟩ := (hpending id frame').mp h
    obtain ⟨old, hold, hrest⟩ := wf.mapped id frame' h
    refine ⟨old, ?_, hrest⟩
    rw [hcalls, List.getElem?_modify, hold]
    simp only [Option.map_eq_map, Option.map_some, if_neg hne]
  case settled =>
    intro frame' call' h hnone hstate
    obtain ⟨old, hold, rfl⟩ := inv h
    split at hnone
    · cases hnone
    next hne =>
      simp only [if_neg hne] at hstate ⊢
      exact (hpending _ _).mpr ⟨hne, wf.settled frame' old hold hnone hstate⟩
  case distinct =>
    intro frame₁ frame₂ call₁ call₂ j h₁ h₂ hj₁ hj₂
    obtain ⟨old₁, hold₁, rfl⟩ := inv h₁
    obtain ⟨old₂, hold₂, rfl⟩ := inv h₂
    refine wf.distinct frame₁ frame₂ old₁ old₂ j hold₁ hold₂ ?_ ?_
    · split at hj₁ <;> exact hj₁
    · split at hj₂ <;> exact hj₂

/-- `receive` only reaches the frame that the id of the message is mapped to. -/
theorem calls_receive (manager : ClientRequestManager) (message : ServerMessage) (frame : Nat) :
    (manager.receive message).calls[frame]? = (manager.calls[frame]?).map fun call =>
      if manager.pendingRequests[message.requestId]? = some frame then
        call.complete message manager.received.length
      else call := by
  simp only [ClientRequestManager.receive]
  cases hid : manager.pendingRequests[message.requestId]? with
  | none => simp
  | some frame' =>
    simp only [List.getElem?_modify, Option.map_eq_map, Option.some.injEq]

/-- `receive` and the end of `send` keep what belongs to connections and ids. -/
theorem receive_frame (manager : ClientRequestManager) (message : ServerMessage) :
    (manager.receive message).links = manager.links ∧
      (manager.receive message).connection = manager.connection ∧
      (manager.receive message).onClosed = manager.onClosed ∧
      (manager.receive message).nextRequestId = manager.nextRequestId ∧
      (manager.receive message).calls.length = manager.calls.length := by
  simp only [ClientRequestManager.receive]
  split <;> simp

theorem resumeSend_frame (manager : ClientRequestManager) (frame : Nat) (call : SendCall)
    (error : Option ErrorCode) :
    (manager.resumeSend frame call error).links = manager.links ∧
      (manager.resumeSend frame call error).connection = manager.connection ∧
      (manager.resumeSend frame call error).onClosed = manager.onClosed ∧
      (manager.resumeSend frame call error).nextRequestId = manager.nextRequestId ∧
      (manager.resumeSend frame call error).calls.length = manager.calls.length := by
  simp only [ClientRequestManager.resumeSend]
  split <;> simp

@[simp] theorem pendingRequests_receive (manager : ClientRequestManager)
    (message : ServerMessage) :
    (manager.receive message).pendingRequests = manager.pendingRequests := by
  simp only [ClientRequestManager.receive]
  split <;> rfl

@[simp] theorem received_receive (manager : ClientRequestManager) (message : ServerMessage) :
    (manager.receive message).received = manager.received ++ [message] := by
  simp only [ClientRequestManager.receive]
  split <;> rfl

theorem WellFormed.receive {manager : ClientRequestManager} (wf : manager.WellFormed)
    (message : ServerMessage) : (manager.receive message).WellFormed := by
  refine wf.update
    (fun frame call =>
      if manager.pendingRequests[message.requestId]? = some frame then
        call.complete message manager.received.length
      else call)
    (calls_receive manager message) (pendingRequests_receive manager message) ?_ ?_ ?_ ?_ ?_
  · intro frame call h
    rw [received_receive]
    split
    next hid =>
      obtain ⟨call', hcall', -, hsame⟩ := wf.mapped _ _ hid
      obtain rfl := Option.some.inj (h.symm.trans hcall')
      exact (wf.calls frame call h).complete hsame.symm
    next => exact (wf.calls frame call h).append message
  · intro frame call
    split
    · exact SendCall.complete_message _ _
    · rfl
  · intro frame call
    split
    · exact SendCall.complete_result _ _
    · rfl
  · intro frame call h hresult hstate
    split at hstate
    next hid =>
      obtain ⟨call', hcall', -, hsame⟩ := wf.mapped _ _ hid
      obtain rfl := Option.some.inj (h.symm.trans hcall')
      rw [hsame, hid]
    next => exact wf.settled frame call h hresult hstate
  · intro frame frame' call call' j h h' hj hj'
    -- the place of this message is new, so at most one frame can carry it
    have old : ∀ {frame : Nat} {call : SendCall}, manager.calls[frame]? = some call →
        (if manager.pendingRequests[message.requestId]? = some frame then
          call.complete message manager.received.length else call).completedBy = some j →
        call.completedBy = some j ∨
          j = manager.received.length ∧
            manager.pendingRequests[message.requestId]? = some frame := by
      intro frame call h hj
      split at hj
      next hid =>
        by_cases hw : call.pending.state = .waiting
        · rw [SendCall.complete_of_waiting hw] at hj
          exact .inr ⟨(Option.some.inj hj).symm, hid⟩
        · rw [SendCall.complete_of_ne hw] at hj
          exact .inl hj
      next => exact .inl hj
    have before : ∀ {frame : Nat} {call : SendCall}, manager.calls[frame]? = some call →
        call.completedBy = some j → j < manager.received.length :=
      fun h hj => ((wf.calls _ _ h).origin j hj).1
    obtain hj | ⟨hlast, hid⟩ := old h hj <;> obtain hj' | ⟨hlast', hid'⟩ := old h' hj'
    · exact wf.distinct frame frame' call call' j h h' hj hj'
    · have := before h hj
      omega
    · have := before h' hj'
      omega
    · exact Option.some.inj (hid.symm.trans hid')

/-- The manager after the timer of a frame has expired. -/
def expire (manager : ClientRequestManager) (frame : Nat) : ClientRequestManager :=
  { manager with calls := manager.calls.modify frame SendCall.expire }

theorem calls_expire (manager : ClientRequestManager) (frame frame' : Nat) :
    (manager.expire frame).calls[frame']? = (manager.calls[frame']?).map fun call =>
      if frame = frame' then call.expire else call := by
  simp only [expire, List.getElem?_modify, Option.map_eq_map]

theorem WellFormed.expire {manager : ClientRequestManager} (wf : manager.WellFormed)
    (frame : Nat) : (manager.expire frame).WellFormed := by
  refine wf.update (fun frame' call => if frame = frame' then call.expire else call)
    (calls_expire manager frame) rfl ?_ ?_ ?_ ?_ ?_
  · intro frame' call h
    split
    · exact (wf.calls frame' call h).expire
    · exact wf.calls frame' call h
  · intro frame' call
    split <;> rfl
  · intro frame' call
    split <;> rfl
  · intro frame' call h hresult hstate
    refine wf.settled frame' call h hresult ?_
    split at hstate <;> exact hstate
  · intro frame₁ frame₂ call₁ call₂ j h₁ h₂ hj₁ hj₂
    refine wf.distinct frame₁ frame₂ call₁ call₂ j h₁ h₂ ?_ ?_
    · split at hj₁ <;> exact hj₁
    · split at hj₂ <;> exact hj₂

/-- `start` makes a new connection current or changes nothing. -/
theorem start_cases (manager : ClientRequestManager) (socket : Nat) (onClosed : Bool) :
    (manager.start socket onClosed).2 = manager ∨
      (manager.start socket onClosed).2 =
        { manager with
          connection := some manager.links.length
          onClosed
          links := manager.links ++ [{ socket }] } := by
  simp only [start]
  split
  · exact .inl rfl
  · split
    · exact .inl rfl
    · exact .inr rfl

theorem stop_cases (manager : ClientRequestManager) (reason : String) :
    manager.stop reason = manager ∨
      ∃ link, manager.connection = some link ∧
        manager.stop reason =
          { manager.failPendingRequests reason with
            links := manager.links.modify link fun link => { link with stopPosted := true } } := by
  simp only [stop]
  cases manager.connection with
  | none => exact .inl rfl
  | some link => exact .inr ⟨link, rfl, rfl⟩

theorem WellFormed.start {manager : ClientRequestManager} (wf : manager.WellFormed)
    (socket : Nat) (onClosed : Bool) : (manager.start socket onClosed).2.WellFormed := by
  obtain h | h := start_cases manager socket onClosed
  · rwa [h]
  · rw [h]
    exact wf.congr rfl rfl rfl

theorem WellFormed.stop {manager : ClientRequestManager} (wf : manager.WellFormed)
    (reason : String) : (manager.stop reason).WellFormed := by
  obtain h | ⟨link, -, h⟩ := stop_cases manager reason
  · rwa [h]
  · rw [h]
    exact (wf.failPendingRequests reason).congr rfl rfl rfl

theorem WellFormed.connectionClosed {manager : ClientRequestManager} (wf : manager.WellFormed) :
    manager.connectionClosed.2.WellFormed := by
  have closed : WellFormed { manager with connection := none } := wf.congr rfl rfl rfl
  exact (closed.failPendingRequests _).congr rfl rfl rfl

/-- Everything one event can do, with the guards it met. -/
inductive Steps (manager : ClientRequestManager) : Event → ClientRequestManager → Prop
  | start (socket : Nat) (onClosed : Bool) :
      Steps manager (.start socket onClosed) (manager.start socket onClosed).2
  | stop (reason : String) : Steps manager (.stop reason) (manager.stop reason)
  | send (message : ClientMessage) : Steps manager (.send message) (manager.send message).2
  | receive (message : ServerMessage) : Steps manager (.receive message) (manager.receive message)
  | timerExpires (frame : Nat) (call : SendCall) (hcall : manager.calls[frame]? = some call)
      (hresult : call.result = none) : Steps manager (.timerExpires frame) (manager.expire frame)
  | resume (frame : Nat) (call : SendCall) (error : Option ErrorCode)
      (hcall : manager.calls[frame]? = some call) (hresult : call.result = none)
      (htimer : call.pending.timer = .settled error) :
      Steps manager (.resume frame) (manager.resumeSend frame call error)
  | linkCloses (link : Nat) :
      Steps manager (.linkCloses link)
        { manager with links := manager.links.modify link ({ · with closed := true }) }
  | closeNotification (link : Nat) :
      Steps manager (.closeNotification link)
        ({ manager with
          links := manager.links.modify link ({ · with notified := true }) }.connectionClosed).2

theorem step_cases {manager t : ClientRequestManager} {e : Event}
    (hstep : step manager e = some t) : manager.Steps e t := by
  cases e with
  | start socket onClosed => exact Option.some.inj hstep ▸ .start socket onClosed
  | stop reason => exact Option.some.inj hstep ▸ .stop reason
  | send message => exact Option.some.inj hstep ▸ .send message
  | receive message => exact Option.some.inj hstep ▸ .receive message
  | timerExpires frame =>
    simp only [step] at hstep
    split at hstep
    · cases hstep
    next call hcall =>
      split at hstep
      next hresult => exact Option.some.inj hstep ▸ .timerExpires frame call hcall hresult
      next => cases hstep
  | resume frame =>
    simp only [step] at hstep
    split at hstep
    · cases hstep
    next call hcall =>
      split at hstep
      next error hresult htimer =>
        exact Option.some.inj hstep ▸ .resume frame call error hcall hresult htimer
      next => cases hstep
  | linkCloses link =>
    simp only [step] at hstep
    split at hstep
    · cases hstep
    · split at hstep
      · cases hstep
      · exact Option.some.inj hstep ▸ .linkCloses link
  | closeNotification link =>
    simp only [step] at hstep
    split at hstep
    · cases hstep
    · split at hstep
      · exact Option.some.inj hstep ▸ .closeNotification link
      · cases hstep

theorem invariant_wellFormed : step.Invariant WellFormed := by
  intro manager e t wf hstep
  cases step_cases hstep with
  | start socket onClosed => exact wf.start socket onClosed
  | stop reason => exact wf.stop reason
  | send message =>
    obtain ⟨what, h⟩ | ⟨link, -, -, h⟩ := send_cases manager message
    · rwa [h]
    · rw [h]
      exact wf.sent link message
  | receive message => exact wf.receive message
  | timerExpires frame => exact wf.expire frame
  | resume frame call error hcall => exact wf.resumeSend hcall error
  | linkCloses link => exact wf.congr rfl rfl rfl
  | closeNotification link =>
    apply WellFormed.connectionClosed
    exact wf.congr rfl rfl rfl

end ClientRequestManager

end Stalker2D.Client
