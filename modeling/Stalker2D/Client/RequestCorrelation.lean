import Stalker2D.Client.RequestInvariant

/-!
# Requests and responses against an arbitrary server

A server may answer in any order, twice, late, or with ids nobody has sent.
`SendCall.Follows` is what later events can still change about a frame; it is
proved for each operation and then for whole runs. Together with the numbering of
the frames it gives `Correlated`, which holds after every run.
-/

namespace Stalker2D.Client

open Protocol

namespace SendCall

/-- What may become of a frame: a finished one stays as it is, and a completed one
keeps its response and the message it came with. -/
structure Follows (call later : SendCall) : Prop where
  message : later.message = call.message
  sentAt : later.sentAt = call.sentAt
  finished : call.result ≠ none → later = call
  completed : ∀ j, call.completedBy = some j →
    later.completedBy = some j ∧ later.pending.response = call.pending.response

variable {received : List ServerMessage} {call later last : SendCall}

theorem Follows.refl (call : SendCall) : call.Follows call :=
  ⟨rfl, rfl, fun _ => rfl, fun _ h => ⟨h, rfl⟩⟩

theorem Follows.trans (h : call.Follows later) (h' : later.Follows last) : call.Follows last where
  message := h'.message.trans h.message
  sentAt := h'.sentAt.trans h.sentAt
  finished hresult := by
    obtain rfl := h.finished hresult
    exact h'.finished hresult
  completed j hj := by
    obtain ⟨hj', hresponse⟩ := h.completed j hj
    obtain ⟨hj'', hresponse'⟩ := h'.completed j hj'
    exact ⟨hj'', hresponse'.trans hresponse⟩

theorem follows_expire (unfinished : call.result = none) : call.Follows call.expire :=
  ⟨rfl, rfl, fun h => absurd unfinished h, fun _ h => ⟨h, rfl⟩⟩

theorem follows_finish (unfinished : call.result = none) (result : SendResult) (position : Nat) :
    call.Follows (call.finish result position) :=
  ⟨rfl, rfl, fun h => absurd unfinished h, fun _ h => ⟨h, rfl⟩⟩

theorem Consistent.follows_fail (h : call.Consistent received) (unfinished : call.result = none)
    (reason : String) : call.Follows (call.fail reason) := by
  by_cases hw : call.pending.state = .waiting
  · rw [fail_of_waiting hw]
    refine ⟨rfl, rfl, fun h => absurd unfinished h, fun j hj => ?_⟩
    rw [(h.waiting hw).2.1] at hj
    cases hj
  · rw [fail_of_ne hw]
    exact Follows.refl call

theorem Consistent.follows_complete (h : call.Consistent received)
    (unfinished : call.result = none) (message : ServerMessage) (position : Nat) :
    call.Follows (call.complete message position) := by
  by_cases hw : call.pending.state = .waiting
  · rw [complete_of_waiting hw]
    refine ⟨rfl, rfl, fun h => absurd unfinished h, fun j hj => ?_⟩
    rw [(h.waiting hw).2.1] at hj
    cases hj
  · rw [complete_of_ne hw]
    exact Follows.refl call

/-- The call still waits for its response. -/
def Awaits (call : SendCall) : Prop := call.result = none ∧ call.pending.state = .waiting

end SendCall

namespace ClientRequestManager

/-- The map refers to unfinished frames only. -/
theorem WellFormed.unfinished {manager : ClientRequestManager} (wf : manager.WellFormed)
    {id : UInt64} {frame : Nat} {call : SendCall} (hid : manager.pendingRequests[id]? = some frame)
    (hcall : manager.calls[frame]? = some call) :
    call.result = none ∧ call.message.requestId = id := by
  obtain ⟨call', hcall', hresult, hsame⟩ := wf.mapped id frame hid
  obtain rfl := Option.some.inj (hcall.symm.trans hcall')
  exact ⟨hresult, hsame⟩

theorem WellFormed.follows_failPendingRequests {manager : ClientRequestManager}
    (wf : manager.WellFormed) (reason : String) {frame : Nat} {call : SendCall}
    (h : manager.calls[frame]? = some call) :
    ∃ later, (manager.failPendingRequests reason).calls[frame]? = some later ∧
      call.Follows later := by
  rw [calls_failPendingRequests, h]
  refine ⟨_, rfl, ?_⟩
  split
  next hmem =>
    obtain ⟨id, hid⟩ := mem_pendingFrames.mp hmem
    exact (wf.calls frame call h).follows_fail (wf.unfinished hid h).1 reason
  next => exact SendCall.Follows.refl call

theorem WellFormed.follows_receive {manager : ClientRequestManager} (wf : manager.WellFormed)
    (message : ServerMessage) {frame : Nat} {call : SendCall}
    (h : manager.calls[frame]? = some call) :
    ∃ later, (manager.receive message).calls[frame]? = some later ∧ call.Follows later := by
  rw [calls_receive, h]
  refine ⟨_, rfl, ?_⟩
  split
  next hid => exact (wf.calls frame call h).follows_complete (wf.unfinished hid h).1 _ _
  next => exact SendCall.Follows.refl call

theorem follows_send (manager : ClientRequestManager) (message : ClientMessage) {frame : Nat}
    {call : SendCall} (h : manager.calls[frame]? = some call) :
    (manager.send message).2.calls[frame]? = some call := by
  obtain ⟨what, hsend⟩ | ⟨link, -, -, hsend⟩ := send_cases manager message
  · rw [hsend, h]
  · rw [hsend, calls_sent, List.getElem?_append_left (List.getElem?_eq_some_iff.mp h).1, h]

/-- One event. -/
theorem WellFormed.follows_step {manager t : ClientRequestManager} (wf : manager.WellFormed)
    {e : Event} (hstep : step manager e = some t) {frame : Nat} {call : SendCall}
    (h : manager.calls[frame]? = some call) :
    ∃ later, t.calls[frame]? = some later ∧ call.Follows later := by
  cases step_cases hstep with
  | start socket onClosed =>
    refine ⟨call, ?_, .refl call⟩
    obtain hstart | hstart := start_cases manager socket onClosed
    · rw [hstart, h]
    · rw [hstart, h]
  | stop reason =>
    obtain hstop | ⟨link, -, hstop⟩ := stop_cases manager reason
    · exact ⟨call, by rw [hstop, h], .refl call⟩
    · rw [hstop]
      exact wf.follows_failPendingRequests reason h
  | send message => exact ⟨call, follows_send manager message h, .refl call⟩
  | receive message => exact wf.follows_receive message h
  | timerExpires expired old hold hresult =>
    rw [calls_expire, h]
    refine ⟨_, rfl, ?_⟩
    split
    next heq =>
      subst heq
      obtain rfl := Option.some.inj (h.symm.trans hold)
      exact SendCall.follows_expire hresult
    next => exact .refl call
  | resume resumed old error hold hresult =>
    obtain ⟨result, -, hcalls⟩ := calls_resumeSend manager resumed old error
    rw [hcalls, List.getElem?_modify, h]
    refine ⟨_, rfl, ?_⟩
    split
    next heq =>
      subst heq
      obtain rfl := Option.some.inj (h.symm.trans hold)
      exact SendCall.follows_finish hresult _ _
    next => exact .refl call
  | linkCloses link => exact ⟨call, h, .refl call⟩
  | closeNotification link =>
    have closing : WellFormed { manager with
        connection := none
        links := manager.links.modify link ({ · with notified := true }) } := wf.congr rfl rfl rfl
    exact closing.follows_failPendingRequests _ h

/-- Any number of events. -/
theorem WellFormed.follows_exec {manager t : ClientRequestManager} (wf : manager.WellFormed)
    {es : List Event} (run : step.exec manager es = some t) {frame : Nat} {call : SendCall}
    (h : manager.calls[frame]? = some call) :
    ∃ later, t.calls[frame]? = some later ∧ call.Follows later := by
  induction es generalizing manager call with
  | nil =>
    obtain rfl := Option.some.inj run
    exact ⟨call, h, .refl call⟩
  | cons e es ih =>
    obtain ⟨u, hstep, hrest⟩ := Machine.exec_cons_eq_some.mp run
    obtain ⟨later, hlater, hfollows⟩ := wf.follows_step hstep h
    obtain ⟨last, hlast, hfollows'⟩ := ih (invariant_wellFormed _ _ _ wf hstep) hrest hlater
    exact ⟨last, hlast, hfollows.trans hfollows'⟩

/-- Frames appear one at a time, at a `send` that was admitted. -/
theorem calls_length_step {manager t : ClientRequestManager} {e : Event}
    (hstep : step manager e = some t) :
    (t.calls.length = manager.calls.length ∧ t.nextRequestId = manager.nextRequestId) ∨
      ∃ link message, e = .send message ∧ manager.connection = some link ∧
        t = manager.sent link message := by
  cases step_cases hstep with
  | start socket onClosed =>
    left
    obtain h | h := start_cases manager socket onClosed
    · rw [h]
      exact ⟨rfl, rfl⟩
    · rw [h]
      exact ⟨rfl, rfl⟩
  | stop reason =>
    left
    obtain h | ⟨link, -, h⟩ := stop_cases manager reason
    · rw [h]
      exact ⟨rfl, rfl⟩
    · simp [h, failPendingRequests]
  | send message =>
    obtain ⟨what, h⟩ | ⟨link, hlink, -, h⟩ := send_cases manager message
    · rw [h]
      exact .inl ⟨rfl, rfl⟩
    · exact .inr ⟨link, message, rfl, hlink, by rw [h]⟩
  | receive message =>
    obtain ⟨-, -, -, hnext, hlength⟩ := receive_frame manager message
    exact .inl ⟨hlength, hnext⟩
  | timerExpires frame =>
    left
    simp [expire]
  | resume frame call error =>
    obtain ⟨-, -, -, hnext, hlength⟩ := resumeSend_frame manager frame call error
    exact .inl ⟨hlength, hnext⟩
  | linkCloses link => exact .inl ⟨rfl, rfl⟩
  | closeNotification link =>
    left
    simp [connectionClosed, failPendingRequests]

/-- A connection keeps its place and everything it was given to write. -/
theorem links_step {manager t : ClientRequestManager} {e : Event}
    (hstep : step manager e = some t) {position : Nat} {link : Link}
    (h : manager.links[position]? = some link) :
    ∃ later, t.links[position]? = some later ∧ link.outgoing ⊆ later.outgoing := by
  -- the four places that touch a link all go through `modify`
  have modified : ∀ (place : Nat) (f : Link → Link), (∀ l, l.outgoing ⊆ (f l).outgoing) →
      ∃ later, (manager.links.modify place f)[position]? = some later ∧
        link.outgoing ⊆ later.outgoing := by
    intro place f hf
    rw [List.getElem?_modify, h]
    refine ⟨_, rfl, ?_⟩
    split
    · exact hf link
    · exact List.Subset.refl _
  have same : ∀ l : Link, l.outgoing ⊆ l.outgoing := fun _ => List.Subset.refl _
  cases step_cases hstep with
  | start socket onClosed =>
    refine ⟨link, ?_, same link⟩
    obtain hstart | hstart := start_cases manager socket onClosed
    · rw [hstart, h]
    · rw [hstart, List.getElem?_append_left (List.getElem?_eq_some_iff.mp h).1, h]
  | stop reason =>
    obtain hstop | ⟨place, -, hstop⟩ := stop_cases manager reason
    · exact ⟨link, by rw [hstop, h], same link⟩
    · rw [hstop]
      exact modified _ _ same
  | send message =>
    obtain ⟨what, hsend⟩ | ⟨place, -, -, hsend⟩ := send_cases manager message
    · rw [hsend]
      exact ⟨link, h, same link⟩
    · rw [hsend]
      exact modified _ _ fun l => List.subset_append_left _ _
  | receive message =>
    obtain ⟨hlinks, -⟩ := receive_frame manager message
    exact ⟨link, by rw [hlinks, h], same link⟩
  | timerExpires frame => exact ⟨link, h, same link⟩
  | resume frame call error =>
    obtain ⟨hlinks, -⟩ := resumeSend_frame manager frame call error
    exact ⟨link, by rw [hlinks, h], same link⟩
  | linkCloses place => exact modified _ _ same
  | closeNotification place => exact modified _ _ same

theorem connection_step {manager t : ClientRequestManager} {e : Event}
    (hstep : step manager e = some t) :
    t.connection = manager.connection ∨ t.connection = none ∨
      t.connection = some manager.links.length ∧ manager.links.length < t.links.length := by
  cases step_cases hstep with
  | start socket onClosed =>
    obtain h | h := start_cases manager socket onClosed
    · exact .inl (by rw [h])
    · rw [h]
      exact .inr (.inr ⟨rfl, by simp⟩)
  | stop reason =>
    left
    obtain h | ⟨link, -, h⟩ := stop_cases manager reason
    · rw [h]
    · rw [h]
      rfl
  | send message =>
    left
    obtain ⟨what, h⟩ | ⟨place, -, -, h⟩ := send_cases manager message
    · rw [h]
    · rw [h]
      rfl
  | receive message => exact .inl (receive_frame manager message).2.1
  | timerExpires frame => exact .inl rfl
  | resume frame call error => exact .inl (resumeSend_frame manager frame call error).2.1
  | linkCloses place => exact .inl rfl
  | closeNotification place => exact .inr (.inl rfl)

/-- Ids count the frames, and every frame's message went to some connection. -/
structure Numbered (manager : ClientRequestManager) : Prop where
  next : manager.nextRequestId = UInt64.ofNat manager.calls.length
  ids : ∀ (frame : Nat) call, manager.calls[frame]? = some call →
    call.message.requestId = UInt64.ofNat (frame + 1)
  connection : ∀ link, manager.connection = some link → link < manager.links.length
  outgoing : ∀ (frame : Nat) call, manager.calls[frame]? = some call →
    ∃ (position : Nat) (link : Link), manager.links[position]? = some link ∧
      call.message ∈ link.outgoing

theorem numbered_initial (config : Config) : Numbered { config } where
  next := rfl
  ids _ _ h := by simp at h
  connection _ h := nomatch h
  outgoing _ _ h := by simp at h

theorem numbered_step {manager t : ClientRequestManager} (wf : manager.WellFormed)
    (numbered : manager.Numbered) {e : Event} (hstep : step manager e = some t) : t.Numbered := by
  have hlength : ∀ (position : Nat), position < manager.links.length →
      position < t.links.length := by
    intro position hlt
    obtain ⟨later, hlater, -⟩ := links_step hstep (List.getElem?_eq_getElem hlt)
    exact (List.getElem?_eq_some_iff.mp hlater).1
  -- a frame of `t` is an old one or the one a `send` has just added
  have inv : ∀ (frame : Nat) call, t.calls[frame]? = some call →
      (∃ old, manager.calls[frame]? = some old ∧ call.message = old.message) ∨
      ∃ link message, manager.connection = some link ∧ t = manager.sent link message ∧
        frame = manager.calls.length ∧ call.message = manager.stamp message := by
    intro frame call h
    by_cases hlt : frame < manager.calls.length
    · obtain ⟨later, hlater, hfollows⟩ := wf.follows_step hstep (List.getElem?_eq_getElem hlt)
      obtain rfl := Option.some.inj (h.symm.trans hlater)
      exact .inl ⟨_, List.getElem?_eq_getElem hlt, hfollows.message⟩
    · have hframe := (List.getElem?_eq_some_iff.mp h).1
      obtain ⟨hlen, -⟩ | ⟨link, message, -, hlink, rfl⟩ := calls_length_step hstep
      · omega
      · rw [calls_sent, List.length_append, List.length_singleton] at hframe
        obtain rfl : frame = manager.calls.length := by omega
        rw [calls_sent, List.getElem?_concat_length] at h
        obtain rfl := Option.some.inj h
        exact .inr ⟨link, message, hlink, rfl, rfl, rfl⟩
  refine ⟨?next, ?ids, ?connection, ?outgoing⟩
  case next =>
    obtain ⟨hlen, hnext⟩ | ⟨link, message, -, -, rfl⟩ := calls_length_step hstep
    · rw [hnext, hlen, numbered.next]
    · rw [calls_sent, List.length_append, List.length_singleton, UInt64.ofNat_add]
      exact congrArg (· + 1) numbered.next
  case ids =>
    intro frame call h
    obtain ⟨old, hold, hsame⟩ | ⟨link, message, -, -, rfl, hsame⟩ := inv frame call h
    · rw [hsame, numbered.ids frame old hold]
    · rw [hsame, UInt64.ofNat_add, ← numbered.next]
      rfl
  case connection =>
    intro link h
    obtain hsame | hnone | ⟨hnew, hlt⟩ := connection_step hstep
    · exact hlength link (numbered.connection link (hsame ▸ h))
    · rw [hnone] at h
      cases h
    · rw [hnew] at h
      exact Option.some.inj h ▸ hlt
  case outgoing =>
    intro frame call h
    obtain ⟨old, hold, hsame⟩ | ⟨link, message, hlink, rfl, -, hsame⟩ := inv frame call h
    · obtain ⟨position, link, hlink, hmem⟩ := numbered.outgoing frame old hold
      obtain ⟨later, hlater, hsub⟩ := links_step hstep hlink
      exact ⟨position, later, hlater, hsame ▸ hsub hmem⟩
    · obtain ⟨old, hold⟩ : ∃ old, manager.links[link]? = some old :=
        ⟨_, List.getElem?_eq_getElem (numbered.connection link hlink)⟩
      have hsent : (manager.sent link message).links[link]? =
          some { old with outgoing := old.outgoing ++ [manager.stamp message] } := by
        simp only [sent, List.getElem?_modify, hold]
        rfl
      exact ⟨link, _, hsent, by simp [hsame]⟩

theorem invariant_numbered : step.Invariant fun manager =>
    manager.WellFormed ∧ manager.Numbered :=
  fun manager e t h hstep =>
    ⟨invariant_wellFormed manager e t h.1 hstep, numbered_step h.1 h.2 hstep⟩

/-- What requests and responses have to do with each other, whatever the server sends. -/
structure Correlated (manager : ClientRequestManager) : Prop where
  /-- The message a `send` has built went out on some connection. -/
  outgoing : ∀ call ∈ manager.calls, ∃ link ∈ manager.links, call.message ∈ link.outgoing
  distinct : ∀ (frame frame' : Nat) call call', manager.calls[frame]? = some call →
    manager.calls[frame']? = some call' → call.message.requestId = call'.message.requestId →
    frame = frame'
  /-- A returned response carries the id of its request and arrived while it ran. -/
  answered : ∀ call ∈ manager.calls, ∀ response, call.result = some (.ok response) →
    response.requestId = call.message.requestId ∧
      ∃ j n, call.completedBy = some j ∧ call.finishedAt = some n ∧
        manager.received[j]? = some response ∧ call.sentAt ≤ j ∧ j < n ∧
        n ≤ manager.received.length
  /-- No message completes two requests. -/
  exclusive : ∀ (frame frame' : Nat) call call' j, manager.calls[frame]? = some call →
    manager.calls[frame']? = some call' → call.completedBy = some j →
    call'.completedBy = some j → frame = frame'
  /-- Nothing completes or finishes a request twice. -/
  lasting : ∀ es t, step.exec manager es = some t → ∀ (frame : Nat) call,
    manager.calls[frame]? = some call → ∃ later, t.calls[frame]? = some later ∧ call.Follows later
  /-- A message takes no entry out of the map and puts none into it. -/
  mapped : ∀ message, (manager.receive message).pendingRequests = manager.pendingRequests
  /-- It changes a frame only by completing it, if it awaits that id. -/
  received : ∀ message (frame : Nat) call, manager.calls[frame]? = some call →
    (manager.receive message).calls[frame]? = some call ∨
      call.Awaits ∧ call.message.requestId = message.requestId ∧
        (manager.receive message).calls[frame]? =
          some (call.complete message manager.received.length)

theorem WellFormed.receive_cases {manager : ClientRequestManager} (wf : manager.WellFormed)
    (message : ServerMessage) {frame : Nat} {call : SendCall}
    (h : manager.calls[frame]? = some call) :
    (manager.receive message).calls[frame]? = some call ∨
      call.Awaits ∧ call.message.requestId = message.requestId ∧
        (manager.receive message).calls[frame]? =
          some (call.complete message manager.received.length) := by
  rw [calls_receive, h, Option.map_some]
  split
  next hid =>
    obtain ⟨hresult, hsame⟩ := wf.unfinished hid h
    by_cases hw : call.pending.state = .waiting
    · exact .inr ⟨⟨hresult, hw⟩, hsame, rfl⟩
    · exact .inl (by rw [SendCall.complete_of_ne hw])
  next => exact .inl rfl

theorem Numbered.distinct {manager : ClientRequestManager} (numbered : manager.Numbered)
    (few : manager.calls.length < UInt64.size) {frame frame' : Nat} {call call' : SendCall}
    (h : manager.calls[frame]? = some call) (h' : manager.calls[frame']? = some call')
    (hid : call.message.requestId = call'.message.requestId) : frame = frame' := by
  have hlt := (List.getElem?_eq_some_iff.mp h).1
  have hlt' := (List.getElem?_eq_some_iff.mp h').1
  rw [numbered.ids frame call h, numbered.ids frame' call' h'] at hid
  have hnat := congrArg UInt64.toNat hid
  rw [UInt64.toNat_ofNat_of_lt' (by omega), UInt64.toNat_ofNat_of_lt' (by omega)] at hnat
  omega

/-- A request that ends with a response ends once, with one that carries its id and was received
while it waited; no response serves two requests, and one with an id that nobody waits for
changes none. This holds as long as fewer than `2 ^ 64` requests have been sent. -/
theorem requests_correlate {config : Config} {es : List Event} {manager : ClientRequestManager}
    (run : step.exec { config } es = some manager) (few : manager.calls.length < UInt64.size) :
    manager.Correlated := by
  obtain ⟨wf, numbered⟩ :=
    invariant_numbered.exec ⟨wellFormed_initial config, numbered_initial config⟩ run
  refine ⟨?outgoing, ?distinct, ?answered, ?exclusive, ?lasting, ?mapped, ?received⟩
  case outgoing =>
    intro call hcall
    obtain ⟨frame, h⟩ := List.mem_iff_getElem?.mp hcall
    obtain ⟨position, link, hlink, hmem⟩ := numbered.outgoing frame call h
    exact ⟨link, List.mem_of_getElem? hlink, hmem⟩
  case distinct => exact fun frame frame' call call' h h' hid => numbered.distinct few h h' hid
  case answered =>
    intro call hcall response hresult
    obtain ⟨frame, h⟩ := List.mem_iff_getElem?.mp hcall
    have consistent := wf.calls frame call h
    obtain ⟨hresponse, n, hn, hle, hlt⟩ := consistent.finished response hresult
    obtain ⟨-, hid, j, hj, hreceived, hsent⟩ := consistent.response response hresponse
    exact ⟨hid, j, n, hj, hn, hreceived, hsent, hlt j hj, hle⟩
  case exclusive => exact wf.distinct
  case lasting => exact fun es t hrun frame call h => wf.follows_exec hrun h
  case mapped => exact fun message => pendingRequests_receive manager message
  case received => exact fun message frame call h => wf.receive_cases message h

/-- Two requests answered out of order, one of them twice, next to an unknown id. -/
def outOfOrder : List Event :=
  [.start 0 true, .send { payload := some .stateSnapshot }, .send { payload := some (.ping {}) },
    .receive { requestId := 2, status := .ok, payload := some (.pong {}) },
    .receive { requestId := 7 }, .receive { requestId := 2, status := .error }, .resume 1,
    .receive { requestId := 1, status := .ok, payload := some (.stateSnapshot {}) }, .resume 0]

theorem requests_correlate_outOfOrder :
    ∃ manager, step.exec { config := {} } outOfOrder = some manager ∧ manager.Correlated ∧
      manager.calls.map SendCall.result =
        [some (.ok { requestId := 1, status := .ok, payload := some (.stateSnapshot {}) }),
          some (.ok { requestId := 2, status := .ok, payload := some (.pong {}) })] :=
  ⟨_, rfl, @requests_correlate {} outOfOrder _ rfl (by decide), by decide⟩

end ClientRequestManager

end Stalker2D.Client
