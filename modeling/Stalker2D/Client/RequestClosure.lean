import Stalker2D.Client.RequestCorrelation

/-!
# Requests and the end of their connection

A request waits only while the connection it was sent on is the current one.
`Journal` adds that connection to each frame, and `Tracked` is the invariant: requests
come in at any time, before and after `stop` and after the socket has died, but the
close notification finds all of them in the map. A request that is not in the map any
more has ended; one that ended while it was still `Waiting` has timed out.
-/

namespace Stalker2D.Client

open Protocol

namespace SendCall

theorem state_of_fail {call : SendCall} {reason : String}
    (h : (call.fail reason).pending.state = .waiting) : False := by
  by_cases hw : call.pending.state = .waiting
  · rw [fail_of_waiting hw] at h
    cases h
  · rw [fail_of_ne hw] at h
    exact hw h

theorem state_of_complete {call : SendCall} {message : ServerMessage} {position : Nat}
    (h : (call.complete message position).pending.state = .waiting) : False := by
  by_cases hw : call.pending.state = .waiting
  · rw [complete_of_waiting hw] at h
    cases h
  · rw [complete_of_ne hw] at h
    exact hw h

end SendCall

namespace ClientRequestManager

/-- What a resumed `send` ends with. -/
def outcome (manager : ClientRequestManager) (frame : Nat) (call : SendCall)
    (error : Option ErrorCode) : SendResult :=
  if manager.pendingRequests[call.message.requestId]? = some frame then call.pending.report error
  else .error (.runtimeError "Pending request state was lost")

theorem calls_resumeSend_eq (manager : ClientRequestManager) (frame : Nat) (call : SendCall)
    (error : Option ErrorCode) :
    (manager.resumeSend frame call error).calls = manager.calls.modify frame
      (·.finish (manager.outcome frame call error) manager.received.length) := by
  simp only [resumeSend, outcome]
  split <;> rfl

/-- After `failPendingRequests` no entry of the map is waiting. -/
theorem settled_failPendingRequests (manager : ClientRequestManager) (reason : String)
    {id : UInt64} {frame : Nat} {call : SendCall}
    (hid : manager.pendingRequests[id]? = some frame)
    (hcall : (manager.failPendingRequests reason).calls[frame]? = some call) :
    call.pending.state ≠ .waiting := by
  intro hw
  rw [calls_failPendingRequests] at hcall
  obtain ⟨old, -, rfl⟩ := Option.map_eq_some_iff.mp hcall
  rw [if_pos (mem_pendingFrames.mpr ⟨id, hid⟩)] at hw
  exact SendCall.state_of_fail hw

/-- What one event can make of a frame. -/
inductive Becomes (manager : ClientRequestManager) (e : Event) (frame : Nat) (old : SendCall) :
    SendCall → Prop
  | same : Becomes manager e frame old old
  | failed (reason : String) : Becomes manager e frame old (old.fail reason)
  | completed (message : ServerMessage) (received : e = .receive message)
      (mapped : manager.pendingRequests[message.requestId]? = some frame) :
      Becomes manager e frame old (old.complete message manager.received.length)
  | expired (unfinished : old.result = none) : Becomes manager e frame old old.expire
  | ended (error : Option ErrorCode) (unfinished : old.result = none)
      (settled : old.pending.timer = .settled error) :
      Becomes manager e frame old
        (old.finish (manager.outcome frame old error) manager.received.length)

theorem becomes_failPendingRequests (manager other : ClientRequestManager) (e : Event)
    (reason : String) {frame : Nat} {old new : SendCall} (h : manager.calls[frame]? = some old)
    (h' : (manager.failPendingRequests reason).calls[frame]? = some new) :
    Becomes other e frame old new := by
  rw [calls_failPendingRequests, h, Option.map_some, Option.some.injEq] at h'
  subst h'
  split
  · exact .failed reason
  · exact .same

theorem becomes_step {manager t : ClientRequestManager} {e : Event}
    (hstep : step manager e = some t) {frame : Nat} {old new : SendCall}
    (h : manager.calls[frame]? = some old) (h' : t.calls[frame]? = some new) :
    Becomes manager e frame old new := by
  have unchanged : t.calls[frame]? = manager.calls[frame]? →
      Becomes manager e frame old new := by
    intro hsame
    obtain rfl := Option.some.inj (h.symm.trans (hsame.symm.trans h'))
    exact .same
  cases step_cases hstep with
  | start socket onClosed =>
    apply unchanged
    obtain hstart | hstart := start_cases manager socket onClosed
    · rw [hstart]
    · rw [hstart]
  | stop reason =>
    obtain hstop | ⟨link, -, hstop⟩ := stop_cases manager reason
    · exact unchanged (by rw [hstop])
    · rw [hstop] at h'
      exact becomes_failPendingRequests manager manager _ reason h h'
  | send message =>
    apply unchanged
    rw [h]
    exact follows_send manager message h
  | receive message =>
    rw [calls_receive, h, Option.map_some, Option.some.injEq] at h'
    subst h'
    split
    next hmapped => exact .completed message rfl hmapped
    next => exact .same
  | timerExpires expired call hcall hresult =>
    rw [calls_expire, h, Option.map_some, Option.some.injEq] at h'
    subst h'
    split
    next hframe =>
      subst hframe
      obtain rfl := Option.some.inj (h.symm.trans hcall)
      exact .expired hresult
    next => exact .same
  | resume resumed call error hcall hresult htimer =>
    rw [calls_resumeSend_eq, List.getElem?_modify, h, Option.map_eq_map, Option.map_some,
      Option.some.injEq] at h'
    subst h'
    split
    next hframe =>
      subst hframe
      obtain rfl := Option.some.inj (h.symm.trans hcall)
      exact .ended error hresult htimer
    next => exact .same
  | linkCloses link => exact unchanged rfl
  | closeNotification link => exact becomes_failPendingRequests _ manager _ _ h h'

/-- A frame that still waits has waited all along. -/
theorem Becomes.waiting {manager : ClientRequestManager} {e : Event} {frame : Nat}
    {old new : SendCall} (h : Becomes manager e frame old new)
    (hw : new.pending.state = .waiting) : old.pending.state = .waiting := by
  cases h with
  | same => exact hw
  | failed reason => exact (SendCall.state_of_fail hw).elim
  | completed message => exact (SendCall.state_of_complete hw).elim
  | expired => exact hw
  | ended => exact hw

theorem Becomes.unfinished {manager : ClientRequestManager} {e : Event} {frame : Nat}
    {old new : SendCall} (h : Becomes manager e frame old new) (hnone : new.result = none) :
    old.result = none := by
  cases h with
  | same => exact hnone
  | failed reason => exact hnone
  | completed message => rwa [SendCall.complete_result] at hnone
  | expired unfinished => exact unfinished
  | ended error unfinished => exact unfinished

/-- Whoever cancels a wait settles its request first. -/
theorem Becomes.cancelled {manager : ClientRequestManager} {e : Event} {frame : Nat}
    {old new : SendCall} (h : Becomes manager e frame old new)
    (before : old.pending.timer = .settled (some .operationAborted) → old.pending.state ≠ .waiting)
    (htimer : new.pending.timer = .settled (some .operationAborted)) :
    new.pending.state ≠ .waiting := by
  intro hw
  have hwaiting := h.waiting hw
  cases h with
  | same => exact before htimer hw
  | failed reason => exact SendCall.state_of_fail hw
  | completed => exact SendCall.state_of_complete hw
  | expired =>
    apply before _ hwaiting
    simp only [SendCall.expire] at htimer
    cases htold : old.pending.timer with
    | waiting =>
      rw [htold] at htimer
      cases htimer
    | settled error =>
      rw [htold] at htimer
      exact htimer
  | ended => exact before htimer hwaiting

/-- A request of the map that ends while it waits ends by its timeout. -/
theorem Becomes.timedOut {manager : ClientRequestManager} {e : Event} {frame : Nat}
    {old new : SendCall} (h : Becomes manager e frame old new) (regular : old.pending.timer.Regular)
    (cancelled : old.pending.timer = .settled (some .operationAborted) →
      old.pending.state ≠ .waiting)
    (mapped : old.result = none →
      manager.pendingRequests[old.message.requestId]? = some frame)
    (before : old.pending.state = .waiting →
      old.result = none ∨ old.result = some PendingRequest.timedOut)
    (hw : new.pending.state = .waiting) :
    new.result = none ∨ new.result = some PendingRequest.timedOut := by
  have hwaiting := h.waiting hw
  cases h with
  | same => exact before hwaiting
  | failed reason => exact (SendCall.state_of_fail hw).elim
  | completed => exact (SendCall.state_of_complete hw).elim
  | expired => exact before hwaiting
  | ended error unfinished settled =>
    right
    -- a wait that ends without a cancel ends by expiry
    have hexpired : error = none := by
      obtain hnone | hexpired | hcancelled := regular
      · rw [hnone] at settled
        cases settled
      · rw [hexpired] at settled
        exact (Timer.settled.inj settled).symm
      · exact absurd hwaiting (cancelled hcancelled)
    simp only [SendCall.finish, outcome, if_pos (mapped unfinished), hexpired]
    rfl

/-- No event but `send` puts an entry into the map, and only the end of a request takes
one out. -/
theorem pending_step {manager t : ClientRequestManager} (wf : manager.WellFormed) {e : Event}
    (hstep : step manager e = some t) (hlength : t.calls.length = manager.calls.length)
    (id : UInt64) (frame : Nat) :
    (t.pendingRequests[id]? = some frame → manager.pendingRequests[id]? = some frame) ∧
      (manager.pendingRequests[id]? = some frame → t.pendingRequests[id]? = some frame ∨
        ∃ call, t.calls[frame]? = some call ∧ call.result ≠ none) := by
  have unchanged : t.pendingRequests = manager.pendingRequests →
      (t.pendingRequests[id]? = some frame → manager.pendingRequests[id]? = some frame) ∧
      (manager.pendingRequests[id]? = some frame → t.pendingRequests[id]? = some frame ∨
        ∃ call, t.calls[frame]? = some call ∧ call.result ≠ none) := by
    intro hsame
    rw [hsame]
    exact ⟨fun h => h, fun h => .inl h⟩
  cases step_cases hstep with
  | start socket onClosed =>
    apply unchanged
    obtain hstart | hstart := start_cases manager socket onClosed
    · rw [hstart]
    · rw [hstart]
  | stop reason =>
    apply unchanged
    obtain hstop | ⟨link, -, hstop⟩ := stop_cases manager reason
    · rw [hstop]
    · rw [hstop]
      rfl
  | send message =>
    apply unchanged
    obtain ⟨what, hsend⟩ | ⟨link, -, -, hsend⟩ := send_cases manager message
    · rw [hsend]
    · rw [hsend, calls_sent, List.length_append, List.length_singleton] at hlength
      omega
  | receive message => exact unchanged (pendingRequests_receive manager message)
  | timerExpires expired => exact unchanged rfl
  | resume resumed call error hcall =>
    have hpending := wf.pendingRequests_resumeSend hcall error id frame
    refine ⟨fun h => (hpending.mp h).2, fun h => ?_⟩
    by_cases hframe : resumed = frame
    · right
      rw [calls_resumeSend_eq, List.getElem?_modify, ← hframe, hcall]
      exact ⟨_, rfl, by simp [SendCall.finish]⟩
    · exact .inl (hpending.mpr ⟨hframe, h⟩)
  | linkCloses link => exact unchanged rfl
  | closeNotification link => exact unchanged rfl

/-- The event is a `start` that succeeds. -/
def starts (manager : ClientRequestManager) : Event → Bool
  | .start socket onClosed =>
    match (manager.start socket onClosed).1 with
    | .ok _ => true
    | .error _ => false
  | _ => false

def Event.closes : Event → Bool
  | .closeNotification _ => true
  | _ => false

/-- The event calls the close handler. -/
def invokes (manager : ClientRequestManager) (e : Event) : Bool :=
  e.closes && manager.connectionClosed.1

theorem start_eq (manager : ClientRequestManager) (socket : Nat) (onClosed : Bool) :
    (∃ error, manager.start socket onClosed = (.error error, manager)) ∨
      manager.connection = none ∧ manager.start socket onClosed =
        (.ok (), { manager with
          connection := some manager.links.length
          onClosed
          links := manager.links ++ [{ socket }] }) := by
  simp only [start]
  split
  · exact .inl ⟨_, rfl⟩
  next hnone =>
    split
    next error _ => exact .inl ⟨error, rfl⟩
    next => exact .inr ⟨by simpa using hnone, rfl⟩

/-- Connections are made by a `start` that succeeds and lost in `connectionClosed`. -/
inductive ConnectionStep (manager : ClientRequestManager) (e : Event)
    (t : ClientRequestManager) : Prop
  | made (socket : Nat) (onClosed : Bool) (starts : manager.starts e = true)
      (closes : e.closes = false) (before : manager.connection = none)
      (after : t.connection = some manager.links.length) (handler : t.onClosed = onClosed)
      (links : t.links = manager.links ++ [({ socket } : Link)])
  | lost (link : Nat) (event : e = .closeNotification link)
      (pending : (manager.links.map Link.notified)[link]? = some false)
      (after : t.connection = none) (handler : t.onClosed = false)
      (links : t.links = manager.links.modify link ({ · with notified := true }))
  | kept (starts : manager.starts e = false) (closes : e.closes = false)
      (connection : t.connection = manager.connection) (handler : t.onClosed = manager.onClosed)
      (length : t.links.length = manager.links.length)
      (notified : t.links.map Link.notified = manager.links.map Link.notified)

theorem map_notified_modify (links : List Link) (place : Nat) (f : Link → Link)
    (hf : ∀ link, (f link).notified = link.notified) :
    (links.modify place f).map Link.notified = links.map Link.notified := by
  apply List.ext_getElem?
  intro i
  simp only [List.getElem?_map, List.getElem?_modify]
  cases links[i]? with
  | none => rfl
  | some link =>
    simp only [Option.map_some]
    split
    · exact congrArg some (hf link)
    · rfl

theorem connection_cases {manager t : ClientRequestManager} {e : Event}
    (hstep : step manager e = some t) : ConnectionStep manager e t := by
  cases step_cases hstep with
  | start socket onClosed =>
    obtain ⟨error, h⟩ | ⟨hnone, h⟩ := start_eq manager socket onClosed
    · have hstarts : manager.starts (.start socket onClosed) = false := by simp only [starts, h]
      rw [h]
      exact .kept hstarts rfl rfl rfl rfl rfl
    · have hstarts : manager.starts (.start socket onClosed) = true := by simp only [starts, h]
      rw [h]
      exact .made socket onClosed hstarts rfl hnone rfl rfl rfl
  | stop reason =>
    obtain h | ⟨link, -, h⟩ := stop_cases manager reason
    · rw [h]
      exact .kept rfl rfl rfl rfl rfl rfl
    · rw [h]
      refine .kept rfl rfl rfl rfl ?_ ?_
      · exact List.length_modify ..
      · exact map_notified_modify _ _ _ fun _ => rfl
  | send message =>
    obtain ⟨what, h⟩ | ⟨link, -, -, h⟩ := send_cases manager message
    · rw [h]
      exact .kept rfl rfl rfl rfl rfl rfl
    · rw [h]
      refine .kept rfl rfl rfl rfl ?_ ?_
      · exact List.length_modify ..
      · exact map_notified_modify _ _ _ fun _ => rfl
  | receive message =>
    obtain ⟨hlinks, hconnection, hhandler, -⟩ := receive_frame manager message
    exact .kept rfl rfl hconnection hhandler (by rw [hlinks]) (by rw [hlinks])
  | timerExpires frame => exact .kept rfl rfl rfl rfl rfl rfl
  | resume frame call error =>
    obtain ⟨hlinks, hconnection, hhandler, -⟩ := resumeSend_frame manager frame call error
    exact .kept rfl rfl hconnection hhandler (by rw [hlinks]) (by rw [hlinks])
  | linkCloses link =>
    refine .kept rfl rfl rfl rfl ?_ ?_
    · exact List.length_modify ..
    · exact map_notified_modify _ _ _ fun _ => rfl
  | closeNotification link =>
    refine .lost link rfl ?_ rfl rfl rfl
    simp only [step] at hstep
    rw [List.getElem?_map]
    split at hstep
    · cases hstep
    next state hstate =>
      rw [hstate, Option.map_some]
      split at hstep
      next hguard =>
        rw [Bool.and_eq_true, Bool.not_eq_true'] at hguard
        exact congrArg some hguard.2
      next => cases hstep

/-- The current connection is the latest one. -/
theorem ConnectionStep.latest {manager t : ClientRequestManager} {e : Event}
    (h : ConnectionStep manager e t)
    (before : ∀ link, manager.connection = some link → link + 1 = manager.links.length)
    {link : Nat} (hlink : t.connection = some link) : link + 1 = t.links.length := by
  cases h with
  | made socket onClosed _ _ _ after _ links =>
    rw [after] at hlink
    rw [links, List.length_append, ← Option.some.inj hlink]
    rfl
  | lost _ _ _ after =>
    rw [after] at hlink
    cases hlink
  | kept _ _ connection _ length =>
    rw [length]
    exact before link (connection ▸ hlink)

/-- Only the current connection has not been notified. -/
theorem ConnectionStep.unnotified {manager t : ClientRequestManager} {e : Event}
    (h : ConnectionStep manager e t)
    (before : ∀ link : Nat, (manager.links.map Link.notified)[link]? = some false →
      manager.connection = some link)
    {link : Nat} (hlink : (t.links.map Link.notified)[link]? = some false) :
    t.connection = some link := by
  cases h with
  | made socket onClosed _ _ disconnected after _ links =>
    rw [links, List.map_append] at hlink
    obtain hold | ⟨hnew, -⟩ := getElem?_concat_cases hlink
    · -- there was no connection, so every link had been notified
      have hcurrent := before link hold
      rw [disconnected] at hcurrent
      cases hcurrent
    · rw [after, hnew, List.length_map]
  | lost closing _ pending _ _ links =>
    have hclosing := before closing pending
    rw [links, List.getElem?_map, List.getElem?_modify] at hlink
    obtain ⟨state, hstate, hnotified⟩ := Option.map_eq_some_iff.mp hlink
    obtain ⟨old, hold, rfl⟩ := Option.map_eq_some_iff.mp hstate
    split at hnotified
    · cases hnotified
    next hne =>
      have hpending : (manager.links.map Link.notified)[link]? = some false := by
        rw [List.getElem?_map, hold]
        exact congrArg some hnotified
      exact absurd (Option.some.inj (hclosing.symm.trans (before link hpending))) hne
  | kept _ _ connection _ _ notified =>
    rw [connection]
    exact before link (notified ▸ hlink)

/-- The current connection changes when there is none to lose, or when every entry of the
map is settled by then. -/
theorem connection_changes {manager t : ClientRequestManager} {e : Event}
    (hstep : step manager e = some t) (hchange : t.connection ≠ manager.connection) :
    manager.connection = none ∨
      ∀ (id : UInt64) (frame : Nat) call, t.pendingRequests[id]? = some frame →
        t.calls[frame]? = some call → call.pending.state ≠ .waiting := by
  cases step_cases hstep with
  | start socket onClosed =>
    left
    simp only [start] at hchange
    split at hchange
    · exact absurd rfl hchange
    next hnone => simpa using hnone
  | stop reason =>
    obtain hstop | ⟨link, -, hstop⟩ := stop_cases manager reason
    · rw [hstop] at hchange
      exact absurd rfl hchange
    · rw [hstop] at hchange
      exact absurd rfl hchange
  | send message =>
    obtain ⟨what, hsend⟩ | ⟨link, -, -, hsend⟩ := send_cases manager message
    · rw [hsend] at hchange
      exact absurd rfl hchange
    · rw [hsend] at hchange
      exact absurd rfl hchange
  | receive message => exact absurd (receive_frame manager message).2.1 hchange
  | timerExpires frame => exact absurd rfl hchange
  | resume frame call error =>
    exact absurd (resumeSend_frame manager frame call error).2.1 hchange
  | linkCloses link => exact absurd rfl hchange
  | closeNotification link =>
    right
    exact fun id frame call hid hcall => settled_failPendingRequests
      { manager with
        connection := none
        links := manager.links.modify link ({ · with notified := true }) } _ hid hcall

/-- How often a run calls the close handler. -/
def invocations : ClientRequestManager → List Event → Nat
  | _, [] => 0
  | manager, e :: es =>
    match step manager e with
    | none => 0
    | some t => (manager.invokes e).toNat + t.invocations es

/-- There is a close handler only while there is a connection. -/
theorem invariant_handler : step.Invariant fun manager =>
    manager.connection = none → manager.onClosed = false := by
  intro manager e t h hstep hnone
  cases connection_cases hstep with
  | made socket onClosed _ _ _ after =>
    rw [after] at hnone
    cases hnone
  | lost _ _ _ _ handler => exact handler
  | kept _ _ connection handler =>
    rw [handler]
    exact h (connection ▸ hnone)

/-- Until the next `start` succeeds, every call of the close handler takes it away. -/
theorem invocations_eq {manager t : ClientRequestManager} {es : List Event}
    (run : step.exec manager es = some t)
    (quiet : step.Along (fun manager e _ => manager.starts e = false) manager es) :
    manager.invocations es + t.onClosed.toNat = manager.onClosed.toNat := by
  induction es generalizing manager with
  | nil =>
    obtain rfl := Option.some.inj run
    exact Nat.zero_add _
  | cons e es ih =>
    obtain ⟨next, hstep, hrest⟩ := Machine.exec_cons_eq_some.mp run
    obtain ⟨hquiet, hquiets⟩ := Machine.along_cons.mp quiet next hstep
    have hnext := ih hrest hquiets
    simp only [invocations, hstep]
    cases connection_cases hstep with
    | made socket onClosed starts =>
      rw [hquiet] at starts
      cases starts
    | lost link event _ _ handler =>
      have hinvokes : manager.invokes e = manager.onClosed := by
        rw [event]
        rfl
      rw [hinvokes, Nat.add_assoc, hnext, handler]
      rfl
    | kept _ closes _ handler =>
      rw [invokes, closes, Nat.add_assoc, hnext, handler]
      exact Nat.zero_add _

end ClientRequestManager

/-- Within the first `2 ^ 64` requests the next id is not in the map. -/
theorem ClientRequestManager.Numbered.next_not_mem {manager : ClientRequestManager}
    (numbered : manager.Numbered) (wf : manager.WellFormed)
    (few : manager.calls.length + 1 < UInt64.size) :
    manager.nextRequestId + 1 ∉ manager.pendingRequests := by
  intro hmem
  obtain ⟨frame, hframe⟩ := Option.isSome_iff_exists.mp
    (Std.TreeMap.isSome_getElem?_iff_mem.mpr hmem)
  obtain ⟨call, hcall, -, hid⟩ := wf.mapped _ frame hframe
  have hlt := (List.getElem?_eq_some_iff.mp hcall).1
  rw [numbered.ids frame call hcall, numbered.next] at hid
  have hnat := congrArg UInt64.toNat hid
  rw [← UInt64.ofNat_one, ← UInt64.ofNat_add, UInt64.toNat_ofNat_of_lt' (by omega),
    UInt64.toNat_ofNat_of_lt' (by omega)] at hnat
  omega

/-- A manager together with the connection each request was sent on. -/
structure Journal where
  manager : ClientRequestManager
  sentOn : List Nat := []

namespace Journal

open ClientRequestManager

/-- A `send` that is admitted is sent on the current connection. -/
def step : Machine Journal Event := fun journal e =>
  (ClientRequestManager.step journal.manager e).map fun t =>
    { manager := t
      sentOn := if t.calls.length = journal.manager.calls.length then journal.sentOn
        else journal.sentOn ++ journal.manager.connection.toList }

/-- A request waits on the current connection and in the map. -/
structure Tracked (journal : Journal) : Prop where
  wellFormed : journal.manager.WellFormed
  numbered : journal.manager.Numbered
  length : journal.sentOn.length = journal.manager.calls.length
  latest : ∀ link, journal.manager.connection = some link →
    link + 1 = journal.manager.links.length
  unnotified : ∀ link : Nat, (journal.manager.links.map Link.notified)[link]? = some false →
    journal.manager.connection = some link
  current : ∀ (id : UInt64) (frame : Nat) call,
    journal.manager.pendingRequests[id]? = some frame →
    journal.manager.calls[frame]? = some call → call.pending.state = .waiting →
    ∃ link, journal.manager.connection = some link ∧ journal.sentOn[frame]? = some link
  entered : journal.manager.calls.length < UInt64.size → ∀ (frame : Nat) call,
    journal.manager.calls[frame]? = some call → call.result = none →
    journal.manager.pendingRequests[call.message.requestId]? = some frame
  cancelled : ∀ (frame : Nat) call, journal.manager.calls[frame]? = some call →
    call.pending.timer = .settled (some .operationAborted) → call.pending.state ≠ .waiting
  timedOut : journal.manager.calls.length < UInt64.size → ∀ (frame : Nat) call,
    journal.manager.calls[frame]? = some call → call.pending.state = .waiting →
    call.result = none ∨ call.result = some PendingRequest.timedOut

theorem tracked_initial (config : Config) : Tracked { manager := { config } } where
  wellFormed := wellFormed_initial config
  numbered := numbered_initial config
  length := rfl
  latest _ h := by cases h
  unnotified _ h := by simp at h
  current _ _ _ h := by simp at h
  entered _ _ _ h := by simp at h
  cancelled _ _ h := by simp at h
  timedOut _ _ _ h := by simp at h

variable {journal t : Journal} {e : Event}

/-- The journal after a `send` that was admitted. -/
theorem Tracked.sent (tracked : journal.Tracked) {link : Nat}
    (hlink : journal.manager.connection = some link) (message : ClientMessage)
    (wellFormed : (journal.manager.sent link message).WellFormed)
    (numbered : (journal.manager.sent link message).Numbered) :
    Tracked
      { manager := journal.manager.sent link message, sentOn := journal.sentOn ++ [link] } := by
  have inv : ∀ {frame : Nat} {call},
      (journal.manager.sent link message).calls[frame]? = some call →
      (frame < journal.manager.calls.length ∧ journal.manager.calls[frame]? = some call) ∨
        frame = journal.manager.calls.length ∧
          call = { message := journal.manager.stamp message
                   sentAt := journal.manager.received.length } := by
    intro frame call h
    rw [calls_sent] at h
    obtain hold | hnew := getElem?_concat_cases h
    · exact .inl ⟨(List.getElem?_eq_some_iff.mp hold).1, hold⟩
    · exact .inr hnew
  have hcount : (journal.manager.sent link message).calls.length =
      journal.manager.calls.length + 1 := by
    rw [calls_sent, List.length_append, List.length_singleton]
  refine ⟨wellFormed, numbered, ?length, ?latest, ?unnotified, ?current, ?entered, ?cancelled,
    ?timedOut⟩
  case length =>
    rw [hcount, List.length_append, tracked.length, List.length_singleton]
  case latest =>
    intro link' h
    rw [tracked.latest link' h]
    exact (List.length_modify ..).symm
  case unnotified =>
    intro link' h
    have hsame : (journal.manager.sent link message).links.map Link.notified =
        journal.manager.links.map Link.notified := map_notified_modify _ _ _ fun _ => rfl
    exact tracked.unnotified link' (hsame ▸ h)
  case current =>
    intro id frame call hid hcall hw
    obtain ⟨hlt, hcall⟩ | ⟨rfl, -⟩ := inv hcall
    · rw [pendingRequests_sent, Std.TreeMap.getElem?_insertIfNew] at hid
      split at hid
      · exact absurd (Option.some.inj hid) (by omega)
      · obtain ⟨link', hlink', hsent⟩ := tracked.current id frame call hid hcall hw
        refine ⟨link', hlink', ?_⟩
        rw [List.getElem?_append_left (by rw [tracked.length]; exact hlt), hsent]
    · refine ⟨link, hlink, ?_⟩
      rw [← tracked.length]
      exact List.getElem?_concat_length
  case entered =>
    intro few frame call hcall hresult
    rw [hcount] at few
    obtain ⟨hlt, hcall⟩ | ⟨rfl, rfl⟩ := inv hcall
    · have hmapped := tracked.entered (by omega) frame call hcall hresult
      exact pendingRequests_sent_of_mapped _ link message hmapped
    · rw [pendingRequests_sent, Std.TreeMap.getElem?_insertIfNew]
      exact if_pos ⟨by simp [stamp], tracked.numbered.next_not_mem tracked.wellFormed few⟩
  case cancelled =>
    intro frame call hcall htimer
    obtain ⟨-, hcall⟩ | ⟨-, rfl⟩ := inv hcall
    · exact tracked.cancelled frame call hcall htimer
    · cases htimer
  case timedOut =>
    intro few frame call hcall hw
    rw [hcount] at few
    obtain ⟨-, hcall⟩ | ⟨-, rfl⟩ := inv hcall
    · exact tracked.timedOut (by omega) frame call hcall hw
    · exact .inl rfl

theorem Tracked.step (tracked : journal.Tracked) (hstep : step journal e = some t) :
    t.Tracked := by
  simp only [Journal.step, Option.map_eq_some_iff] at hstep
  obtain ⟨next, hnext, rfl⟩ := hstep
  have wellFormed := invariant_wellFormed _ _ _ tracked.wellFormed hnext
  have numbered := numbered_step tracked.wellFormed tracked.numbered hnext
  obtain ⟨hlen, -⟩ | ⟨link, message, -, hlink, rfl⟩ := calls_length_step hnext
  · rw [if_pos hlen]
    have inv : ∀ {frame : Nat} {new}, next.calls[frame]? = some new →
        ∃ old, journal.manager.calls[frame]? = some old ∧
          Becomes journal.manager e frame old new := by
      intro frame new h
      have hlt := (List.getElem?_eq_some_iff.mp h).1
      rw [hlen] at hlt
      have hold := List.getElem?_eq_getElem hlt
      exact ⟨_, hold, becomes_step hnext hold h⟩
    refine ⟨wellFormed, numbered, ?length, ?latest, ?unnotified, ?current, ?entered, ?cancelled,
    ?timedOut⟩
    case length => exact tracked.length.trans hlen.symm
    case latest => exact fun link h => (connection_cases hnext).latest tracked.latest h
    case unnotified => exact fun link h => (connection_cases hnext).unnotified tracked.unnotified h
    case current =>
      intro id frame new hid hnew hw
      obtain ⟨old, hold, becomes⟩ := inv hnew
      have hmapped := (pending_step tracked.wellFormed hnext hlen id frame).1 hid
      obtain ⟨link, hlink, hsent⟩ := tracked.current id frame old hmapped hold (becomes.waiting hw)
      refine ⟨link, ?_, hsent⟩
      by_contra hchange
      obtain hnone | hsettled := connection_changes hnext (fun h => hchange (h.trans hlink))
      · rw [hnone] at hlink
        cases hlink
      · exact hsettled id frame new hid hnew hw
    case entered =>
      intro few frame new hnew hresult
      obtain ⟨old, hold, becomes⟩ := inv hnew
      have hmapped := tracked.entered (hlen ▸ few) frame old hold (becomes.unfinished hresult)
      have hmessage : new.message = old.message := by
        obtain ⟨later, hlater, follows⟩ := tracked.wellFormed.follows_step hnext hold
        obtain rfl := Option.some.inj (hlater.symm.trans hnew)
        exact follows.message
      rw [hmessage]
      obtain h | ⟨call, hcall, hended⟩ :=
        (pending_step tracked.wellFormed hnext hlen _ frame).2 hmapped
      · exact h
      · obtain rfl := Option.some.inj (hcall.symm.trans hnew)
        exact absurd hresult hended
    case cancelled =>
      intro frame new hnew
      obtain ⟨old, hold, becomes⟩ := inv hnew
      exact becomes.cancelled (tracked.cancelled frame old hold)
    case timedOut =>
      intro few frame new hnew
      obtain ⟨old, hold, becomes⟩ := inv hnew
      exact becomes.timedOut (tracked.wellFormed.calls frame old hold).timer
        (tracked.cancelled frame old hold) (tracked.entered (hlen ▸ few) frame old hold)
        (tracked.timedOut (hlen ▸ few) frame old hold)
  · have hne : (journal.manager.sent link message).calls.length ≠ journal.manager.calls.length := by
      rw [calls_sent, List.length_append, List.length_singleton]
      omega
    rw [if_neg hne, hlink]
    exact tracked.sent hlink message wellFormed numbered

theorem invariant_tracked : Journal.step.Invariant Tracked :=
  fun _ _ _ tracked hstep => tracked.step hstep

/-- What the end of a connection means for the requests sent on it. -/
structure Closes (journal : Journal) : Prop where
  /-- Without a connection no request of the map waits. -/
  disconnected : journal.manager.connection = none → ∀ (id : UInt64) (frame : Nat) call,
    journal.manager.pendingRequests[id]? = some frame →
    journal.manager.calls[frame]? = some call → call.pending.state ≠ .waiting
  /-- The close notification is that of the current connection, and when the close handler
  is called every request so far has its outcome or has ended by its timeout. -/
  notified : ∀ (link : Nat) t, Journal.step journal (.closeNotification link) = some t →
    journal.manager.connection = some link ∧
      (t.manager.calls.length < UInt64.size → ∀ call ∈ t.manager.calls,
        call.pending.state ≠ .waiting ∨ call.result = some PendingRequest.timedOut)
  /-- Between two successful calls of `start` the close handler is called once, if there
  is one. -/
  handler : ∀ (socket : Nat) (onClosed : Bool) t,
    journal.manager.start socket onClosed = (.ok (), t) → ∀ es last,
    ClientRequestManager.step.exec t es = some last →
    ClientRequestManager.step.Along (fun manager e _ => manager.starts e = false) t es →
    t.invocations es ≤ onClosed.toNat ∧
      ∀ e, last.starts e = true → t.invocations es = onClosed.toNat
  /-- A message completes a request only on the connection the request was sent on, with
  no later one made. -/
  completed : ∀ e t, Journal.step journal e = some t → ∀ (frame : Nat) old new,
    journal.manager.calls[frame]? = some old → t.manager.calls[frame]? = some new →
    old.pending.state ≠ .completed → new.pending.state = .completed →
    ∃ message link, e = .receive message ∧ journal.sentOn[frame]? = some link ∧
      journal.manager.connection = some link ∧ link + 1 = journal.manager.links.length

theorem starts_connection {manager : ClientRequestManager} {e : Event}
    (h : manager.starts e = true) : manager.connection = none := by
  cases e with
  | start socket onClosed =>
    obtain ⟨error, hstart⟩ | ⟨hnone, -⟩ := start_eq manager socket onClosed
    · simp only [starts, hstart] at h
      cases h
    · exact hnone
  | stop | send | receive | timerExpires | resume | linkCloses | closeNotification => cases h

theorem Tracked.closes (tracked : journal.Tracked) : journal.Closes := by
  refine ⟨?disconnected, ?notified, ?handler, ?completed⟩
  case disconnected =>
    intro hnone id frame call hid hcall hw
    obtain ⟨link, hlink, -⟩ := tracked.current id frame call hid hcall hw
    rw [hnone] at hlink
    cases hlink
  case notified =>
    intro link t hstep
    have after := tracked.step hstep
    simp only [Journal.step, Option.map_eq_some_iff] at hstep
    obtain ⟨next, hnext, rfl⟩ := hstep
    cases connection_cases hnext with
    | made socket onClosed starts => cases starts
    | kept _ closes => cases closes
    | lost closing event pending hnone =>
      obtain rfl := Event.closeNotification.inj event
      refine ⟨tracked.unnotified _ pending, fun few call hmem => ?_⟩
      obtain ⟨frame, hcall⟩ := List.mem_iff_getElem?.mp hmem
      by_cases hw : call.pending.state = .waiting
      · -- a request that still runs would wait in the map, and so on a connection
        obtain hresult | hresult := after.timedOut few frame call hcall hw
        · have hmapped := after.entered few frame call hcall hresult
          obtain ⟨current, hcurrent, -⟩ := after.current _ frame call hmapped hcall hw
          rw [hnone] at hcurrent
          cases hcurrent
        · exact .inr hresult
      · exact .inl hw
  case handler =>
    intro socket onClosed t hstart es last run quiet
    obtain ⟨error, h⟩ | ⟨-, h⟩ := start_eq journal.manager socket onClosed
    · rw [h] at hstart
      cases hstart
    · rw [h] at hstart
      obtain rfl := (Prod.mk.inj hstart).2
      have hcount := invocations_eq run quiet
      refine ⟨by simp only at hcount; omega, fun e he => ?_⟩
      have hhandler := invariant_handler.exec (fun hnone => by cases hnone) run
      rw [hhandler (starts_connection he)] at hcount
      exact hcount
  case completed =>
    intro e t hstep frame old new hold hnew hbefore hafter
    simp only [Journal.step, Option.map_eq_some_iff] at hstep
    obtain ⟨next, hnext, rfl⟩ := hstep
    by_cases hw : old.pending.state = .waiting
    · cases becomes_step hnext hold hnew with
      | same => exact absurd hafter hbefore
      | expired => exact absurd hafter hbefore
      | ended => exact absurd hafter hbefore
      | failed reason =>
        rw [SendCall.fail_of_waiting hw] at hafter
        cases hafter
      | completed message received mapped =>
        obtain ⟨link, hlink, hsent⟩ := tracked.current _ frame old mapped hold hw
        exact ⟨message, link, received, hsent, hlink, tracked.latest link hlink⟩
    · cases becomes_step hnext hold hnew with
      | same => exact absurd hafter hbefore
      | expired => exact absurd hafter hbefore
      | ended => exact absurd hafter hbefore
      | failed reason =>
        rw [SendCall.fail_of_ne hw] at hafter
        exact absurd hafter hbefore
      | completed message =>
        rw [SendCall.complete_of_ne hw] at hafter
        exact absurd hafter hbefore

/-- When the close handler is called, every request so far has completed, failed or timed out. A
message completes a request only on the connection it was sent on, and the handler is called
once for each connection. The order of calls, messages, resumptions and closings makes no
difference. -/
theorem requests_end_with_connection (config : Config) {es : List Event}
    (run : Journal.step.exec { manager := { config } } es = some journal) : journal.Closes :=
  (invariant_tracked.exec (tracked_initial config) run).closes

/-- Requests before and after `stop`, after the socket has died, and on the next connection. -/
def reconnecting : List Event :=
  [.start 0 true, .send {}, .stop "Stopped", .send {}, .linkCloses 0, .send {},
    .closeNotification 0, .resume 0, .start 1 true, .send {}, .receive { requestId := 2 },
    .receive { requestId := 4 }]

theorem requests_end_with_connection_reconnecting :
    ∃ journal, Journal.step.exec { manager := { config := {} } } reconnecting = some journal ∧
      journal.Closes ∧ journal.sentOn = [0, 0, 0, 1] ∧
      journal.manager.calls.map (·.pending.state) = [.failed, .failed, .failed, .completed] := by
  have run : Journal.step.exec { manager := { config := {} } } reconnecting = some _ := rfl
  exact ⟨_, run, requests_end_with_connection {} run, rfl, rfl⟩

/-- A request that has timed out stays `Waiting`: nothing completes or fails it when its
connection closes. -/
theorem timed_out_request_neither_completed_nor_failed :
    ∃ journal t, Journal.step.exec { manager := { config := {} } }
        [.start 0 true, .send {}, .timerExpires 0, .resume 0, .linkCloses 0] = some journal ∧
      Journal.step journal (.closeNotification 0) = some t ∧
      journal.manager.invokes (.closeNotification 0) = true ∧
      journal.sentOn = [0] ∧ t.manager.calls.map (·.pending.state) = [.waiting] :=
  ⟨_, _, rfl, rfl, rfl, rfl, rfl⟩

end Journal

end Stalker2D.Client
