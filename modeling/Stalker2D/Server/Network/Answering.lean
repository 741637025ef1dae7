import Stalker2D.Server.Network.Pipeline
import Stalker2D.Shared.Framing

/-!
# Answers in the order of the requests

What the write queue of a connection has accepted are the answers to the first messages it
has read, without a gap. An open connection of a running server has been sent an answer to
every one; a server that has stopped still reads and answers nothing more, and a connection
that closes keeps what it had accepted by then.
-/

namespace Stalker2D.Network

open Protocol Game

namespace Server

variable {native : Endian} {serialize : ServerMessage → Option (List UInt8)}
variable {server t : Server} {e : Event}

/-- What one event does to the connection at `i`, step by step. -/
inductive PeerCases (native : Endian) (serialize : ServerMessage → Option (List UInt8))
    (server : Server) (e : Event) (i : Nat) (later : Peer) : Prop
  | created (config : ConnectionConfig) (connection : ServerConnection)
      (place : i = server.connections.length)
      (create : Connection.create config = .ok connection)
      (after : later.connection = connection.post .startImpl)
  | same (get : server.connections[i]? = some later) (unread : ∀ m, e ≠ .deliver i m)
  | moves (peer : Peer) (event : Connection.Event ClientMessage ServerMessage)
      (get : server.connections[i]? = some peer) (unread : ∀ m, e ≠ .deliver i m)
      (internal : internal event = true)
      (step : Connection.step native serialize peer.connection event = some later.connection)
  | stops (peer : Peer) (n : Nat) (get : server.connections[i]? = some peer)
      (unread : ∀ m, e ≠ .deliver i m)
      (run : (Connection.step native serialize).exec peer.connection
        (List.replicate n (.post .stopImpl)) = some later.connection)
  | discards (peer : Peer) (m : ClientMessage) (get : server.connections[i]? = some peer)
      (closed : peer.connection.closed = true)
      (after : later.connection = peer.connection.readMessage m)
  | throws (peer : Peer) (m : ClientMessage) (event : e = .deliver i m)
      (get : server.connections[i]? = some peer) (live : peer.connection.closed = false)
      (after : later.connection = (peer.connection.readMessage m).failReading)
  | responds (peer : Peer) (m : ClientMessage) (response : ServerMessage)
      (event : e = .deliver i m) (get : server.connections[i]? = some peer)
      (live : peer.connection.closed = false)
      (after : later.connection = responded peer.connection m
        (if server.manager.stopped then none else some response))

/-- The connection at one place moves, and the others stay. -/
theorem peerCases_modify {position : Nat} {connection : ServerConnection}
    (other : ∀ i m, i ≠ position → e ≠ .deliver i m) {i : Nat} {later : Peer}
    (moved : ∀ peer, server.connections[position]? = some peer →
      PeerCases native serialize server e position { peer with connection })
    (h : (server.connections.modify position ({ · with connection }))[i]? = some later) :
    PeerCases native serialize server e i later := by
  rw [List.getElem?_modify] at h
  obtain ⟨old, hold, rfl⟩ := Option.map_eq_some_iff.mp h
  by_cases hi : position = i
  · subst hi
    rw [if_pos rfl]
    exact moved old hold
  · rw [if_neg hi]
    exact .same hold fun m => other i m (Ne.symm hi)

theorem peerCases_deliver (linked : server.Linked) {position : Nat} {peer : Peer}
    (get : server.connections[position]? = some peer) (message : ClientMessage) {i : Nat}
    {later : Peer}
    (h : (server.deliver position peer message).connections[i]? = some later) :
    PeerCases native serialize server (.deliver position message) i later := by
  have other : ∀ i m, i ≠ position → Event.deliver position message ≠ .deliver i m := by
    intro i m hi heq
    exact hi (Event.deliver.inj heq).1.symm
  by_cases hclosed : peer.connection.closed = true
  · rw [deliver, if_pos hclosed, setConnection] at h
    refine peerCases_modify other (fun old hold => ?_) h
    obtain rfl := Option.some.inj (get.symm.trans hold)
    exact .discards _ message get hclosed rfl
  · have live := Bool.eq_false_iff.mpr hclosed
    obtain ⟨error, hcall⟩ | ⟨p, response, world, -, hcall⟩ :=
      onMessage_cases server.world peer.id message
    · rw [deliver, if_neg hclosed, hcall, connections_advance] at h
      refine peerCases_modify other (fun old hold => ?_) h
      obtain rfl := Option.some.inj (get.symm.trans hold)
      exact .throws _ message rfl get live rfl
    · rw [deliver, if_neg hclosed, hcall, connections_respond linked get live message response
        world i] at h
      by_cases hi : position = i
      · subst hi
        rw [if_pos rfl] at h
        obtain rfl := Option.some.inj h
        exact .responds peer message _ rfl get live rfl
      · rw [if_neg hi] at h
        exact .same h fun m => other i m (Ne.symm hi)

theorem peer_cases (linked : server.Linked) (hstep : step native serialize server e = some t)
    {i : Nat} {later : Peer} (h : t.connections[i]? = some later) :
    PeerCases native serialize server e i later := by
  cases e with
  | accept m =>
    obtain rfl := Option.some.inj hstep
    have hno : ∀ message, Event.accept m ≠ .deliver i message := by
      intro message heq
      cases heq
    simp only [accept] at h
    split at h
    · exact .same h hno
    · exact .same h hno
    next id connection manager hcreate =>
      obtain hold | ⟨hi, rfl⟩ := getElem?_concat_cases h
      · exact .same hold hno
      · exact .created _ connection hi (create_eq_some hcreate) rfl
  | deliver position message =>
    simp only [step] at hstep
    split at hstep
    · cases hstep
    next peer get =>
      simp only [Option.ite_none_right_eq_some, Option.some.injEq] at hstep
      obtain ⟨-, rfl⟩ := hstep
      exact peerCases_deliver linked get message h
  | connection position event =>
    have hno : ∀ i message, Event.connection position event ≠ .deliver i message := by
      intro i message heq
      cases heq
    simp only [step] at hstep
    split at hstep
    · cases hstep
    next peer get =>
      simp only [Option.ite_none_right_eq_some, Option.map_eq_some_iff] at hstep
      obtain ⟨hinternal, connection, hconnection, rfl⟩ := hstep
      rw [connections_advance] at h
      refine peerCases_modify (fun i m _ => hno i m) (fun old hold => ?_) h
      obtain rfl := Option.some.inj (get.symm.trans hold)
      exact .moves _ event get (hno position) hinternal hconnection
  | stopAll =>
    obtain rfl := Option.some.inj hstep
    have hno : ∀ message, Event.stopAll ≠ .deliver i message := by
      intro message heq
      cases heq
    by_cases hstopped : server.manager.stopped = true
    · rw [stopAll, if_pos hstopped] at h
      exact .same h hno
    · rw [stopAll, if_neg hstopped] at h
      obtain ⟨peer, n, get, run⟩ := exec_foldl_post native serialize h
      exact .stops peer n get hno run

/-- What one event gives to the handler of the connection at `i`. -/
inductive HandledStep (server : Server) (e : Event) (i : Nat) (later : Peer) : Prop
  | created (place : i = server.connections.length) (none : later.connection.handled = [])
  | unchanged (peer : Peer) (get : server.connections[i]? = some peer)
      (same : later.connection.handled = peer.connection.handled)
      (unread : peer.connection.closed = false → ∀ m, e ≠ .deliver i m)
  | read (peer : Peer) (m : ClientMessage) (event : e = .deliver i m)
      (get : server.connections[i]? = some peer) (live : peer.connection.closed = false)
      (grows : later.connection.handled = peer.connection.handled ++ [m])
      (silent : server.manager.stopped = true →
        later.connection.outbox = peer.connection.outbox)

/-- Everything a step gives to a handler. -/
theorem handledStep (linked : server.Linked) (hstep : step native serialize server e = some t)
    {i : Nat} {later : Peer} (h : t.connections[i]? = some later) :
    HandledStep server e i later := by
  have hread : ∀ {peer : Peer} {m : ClientMessage}, peer.connection.closed = false →
      (peer.connection.readMessage m).handled = peer.connection.handled ++ [m] := by
    intro peer m live
    rw [Connection.readMessage, live, if_neg Bool.false_ne_true]
  cases peer_cases linked hstep h with
  | created config connection place create after =>
    obtain ⟨-, rfl⟩ := Connection.create_eq_ok create
    exact .created place (congrArg Connection.handled after)
  | same get unread => exact .unchanged later get rfl fun _ => unread
  | moves peer event get unread internal step =>
    refine .unchanged peer get ?_ fun _ => unread
    have hnone : Connection.arrived [event] = [] := by
      cases event with
      | readCompletes message => cases internal
      | _ => rfl
    rw [Connection.handled_step step, hnone, ite_self, List.append_nil]
  | stops peer n get unread run =>
    refine .unchanged peer get (Connection.handled_exec ?_ run) fun _ => unread
    rw [Connection.arrived, List.filterMap_eq_nil_iff]
    intro event hmem
    rw [List.eq_of_mem_replicate hmem]
  | discards peer m get closed after =>
    refine .unchanged peer get ?_ fun hopen => ?_
    · rw [after, Connection.readMessage, if_pos closed]
    · rw [closed] at hopen
      cases hopen
  | throws peer m event get live after =>
    refine .read peer m event get live ?_ fun _ => ?_
    · rw [after]
      exact (Connection.sameReading_stopImpl _).handled.trans (hread live)
    · rw [after]
      exact (Connection.sameOutbox_failReading _).outbox.trans
        (Connection.sameOutbox_readMessage _ _).outbox
  | responds peer m response event get live after =>
    refine .read peer m event get live ?_ fun hstopped => ?_
    · rw [after]
      dsimp only [responded]
      split <;> exact hread live
    · rw [after, hstopped, if_pos rfl]
      exact (Connection.sameOutbox_readMessage _ _).outbox

end Server

/-- A response answers a request. -/
def Answered (request : ClientMessage) (response : ServerMessage) : Prop :=
  ∃ world, Answers world request response

/-- The answers on a connection of the server. -/
structure Answering (stopped : Bool) (connection : ServerConnection) : Prop where
  accepted : ∃ requests, requests <+: connection.handled ∧
    List.Forall₂ Answered requests connection.accepted
  sent : connection.closed = false → ∃ requests, requests <+: connection.handled ∧
    List.Forall₂ Answered requests connection.outbox
  all : connection.closed = false → stopped = false →
    List.Forall₂ Answered connection.handled connection.outbox

namespace Server

variable {native : Endian} {serialize : ServerMessage → Option (List UInt8)}
variable {server t : Server} {e : Event}

theorem answering_create {config : ConnectionConfig} {connection : ServerConnection}
    (h : Connection.create config = .ok connection) (stopped : Bool) :
    Answering stopped (connection.post .startImpl) := by
  obtain ⟨-, rfl⟩ := Connection.create_eq_ok h
  exact ⟨⟨[], List.nil_prefix, .nil⟩, fun _ => ⟨[], List.nil_prefix, .nil⟩, fun _ _ => .nil⟩

/-- A connection that has closed accepts nothing more. -/
theorem answering_of_closed {stopped stopped' : Bool} {connection later : ServerConnection}
    (answering : Answering stopped connection) (hclosed : connection.closed = true)
    {es : List (Connection.Event ClientMessage ServerMessage)}
    (run : (Connection.step native serialize).exec connection es = some later) :
    Answering stopped' later := by
  have frozen := Connection.frozen_exec hclosed run
  have hnot : later.closed = false → False := by
    intro hopen
    rw [frozen.closed] at hopen
    cases hopen
  obtain ⟨requests, hprefix, answered⟩ := answering.accepted
  refine ⟨⟨requests, ?_, ?_⟩, fun hopen => (hnot hopen).elim, fun hopen => (hnot hopen).elim⟩
  · rwa [frozen.handled]
  · rwa [frozen.accepted]

/-- A part of the answers belongs to the first requests. -/
theorem exists_answered_initial {requests handled : List ClientMessage}
    {sent accepted : List ServerMessage} (hrequests : requests <+: handled)
    (answered : List.Forall₂ Answered requests sent) (haccepted : accepted <+: sent) :
    ∃ first, first <+: handled ∧ List.Forall₂ Answered first accepted := by
  obtain ⟨later, rfl⟩ := haccepted
  refine ⟨requests.take accepted.length, (List.take_prefix _ _).trans hrequests, ?_⟩
  have hfirst := List.forall₂_take accepted.length answered
  rwa [List.take_left] at hfirst

/-- What is read from a connection that was there before. -/
theorem HandledStep.of_get {i : Nat} {later peer : Peer} (h : HandledStep server e i later)
    (get : server.connections[i]? = some peer) :
    (later.connection.handled = peer.connection.handled ∧
        (peer.connection.closed = false → ∀ m, e ≠ .deliver i m)) ∨
      ∃ m, e = .deliver i m ∧ peer.connection.closed = false ∧
        later.connection.handled = peer.connection.handled ++ [m] ∧
        (server.manager.stopped = true →
          later.connection.outbox = peer.connection.outbox) := by
  cases h with
  | created place none =>
    have hlt := (List.getElem?_eq_some_iff.mp get).1
    omega
  | unchanged old get' same unread =>
    obtain rfl := Option.some.inj (get.symm.trans get')
    exact .inl ⟨same, unread⟩
  | read old m event get' live grows silent =>
    obtain rfl := Option.some.inj (get.symm.trans get')
    exact .inr ⟨m, event, live, grows, silent⟩

/-- One event, whether it answers a request of this connection or not. -/
theorem answering_step (linked : server.Linked) (hstep : step native serialize server e = some t)
    (solicited : e.unsolicited = false)
    (before : ∀ (i : Nat) peer, server.connections[i]? = some peer →
      Answering server.manager.stopped peer.connection)
    {i : Nat} {later : Peer} (h : t.connections[i]? = some later) :
    Answering t.manager.stopped later.connection := by
  have hhandled := handledStep linked hstep h
  cases peerStep linked hstep solicited h with
  | created m connection event place create after =>
    rw [after]
    exact answering_create create _
  | quiet peer es get run silent hread =>
    have old := before i peer get
    cases hclosed : peer.connection.closed with
    | true => exact answering_of_closed old hclosed run
    | false =>
      obtain ⟨-, houtbox⟩ := Connection.outbox_exec run
      have haccepted := Connection.accepted_exec run
      rw [silent, List.append_nil] at haccepted houtbox
      obtain ⟨requests, hprefix, answered⟩ := old.sent hclosed
      obtain ⟨same, -⟩ | ⟨m, event, -, grows, -⟩ := hhandled.of_get get
      · rw [← same] at hprefix
        refine ⟨exists_answered_initial hprefix answered haccepted, fun hopen => ?_,
          fun hopen hrunning => ?_⟩
        · rw [houtbox hopen]
          exact ⟨requests, hprefix, answered⟩
        · rw [same, houtbox hopen]
          exact old.all hclosed (running_step hstep hrunning)
      · -- a message that is not answered: the server has stopped, or the connection has closed
        have hmore : requests <+: later.connection.handled := by
          rw [grows]
          exact hprefix.trans (List.prefix_append _ _)
        refine ⟨exists_answered_initial hmore answered haccepted, fun hopen => ?_,
          fun hopen hrunning => absurd event (hread hopen hrunning m)⟩
        rw [houtbox hopen]
        exact ⟨requests, hmore, answered⟩
  | answered peer es m r event get run answers sends =>
    have old := before i peer get
    cases hclosed : peer.connection.closed with
    | true => exact answering_of_closed old hclosed run
    | false =>
      obtain ⟨-, houtbox⟩ := Connection.outbox_exec run
      have haccepted := Connection.accepted_exec run
      rw [sends] at haccepted houtbox
      obtain ⟨-, unread⟩ | ⟨m', event', -, grows, silent⟩ := hhandled.of_get get
      · exact absurd event (unread hclosed m)
      obtain ⟨-, rfl⟩ := Event.deliver.inj (event.symm.trans event')
      cases hstopped : server.manager.stopped with
      | true =>
        have hsame := silent hstopped
        have hnot : later.connection.closed = false → False := by
          intro hopen
          have hlength := congrArg List.length (hsame.symm.trans (houtbox hopen))
          rw [List.length_append, List.length_singleton] at hlength
          omega
        obtain ⟨requests, hprefix, answered⟩ := old.sent hclosed
        refine ⟨exists_answered_initial ?_ answered ?_, fun hopen => (hnot hopen).elim,
          fun hopen => (hnot hopen).elim⟩
        · rw [grows]
          exact hprefix.trans (List.prefix_append _ _)
        · rw [← hsame]
          exact List.prefix_append _ _
      | false =>
        have all : List.Forall₂ Answered later.connection.handled
            (peer.connection.outbox ++ [r]) := by
          rw [grows]
          exact List.rel_append (old.all hclosed hstopped) (.cons ⟨t.world, answers⟩ .nil)
        refine ⟨exists_answered_initial List.prefix_rfl all haccepted, fun hopen => ?_,
          fun hopen _ => ?_⟩
        · rw [houtbox hopen]
          exact ⟨_, List.prefix_rfl, all⟩
        · rw [houtbox hopen]
          exact all

theorem reader_exec_posts (n : Nat) (connection later : ServerConnection)
    (run : (Connection.step native serialize).exec connection
      (List.replicate n (.post .stopImpl)) = some later) : later.reader = connection.reader := by
  induction n generalizing connection with
  | zero => rw [← Option.some.inj run]
  | succ n ih => exact ih (connection.post .stopImpl) run

/-- The handler of the server suspends nowhere, so none is left running. -/
theorem unhandled_step (linked : server.Linked) (hstep : step native serialize server e = some t)
    (before : ∀ (i : Nat) peer, server.connections[i]? = some peer →
      peer.connection.reader ≠ .handling) {i : Nat} {later : Peer}
    (h : t.connections[i]? = some later) : later.connection.reader ≠ .handling := by
  have looped : ∀ connection : ServerConnection, connection.readLoop.reader ≠ .handling := by
    intro connection
    rw [Connection.readLoop]
    dsimp only
    split
    · exact Reader.noConfusion
    · exact Reader.noConfusion
  cases peer_cases linked hstep h with
  | created config connection place create after =>
    obtain ⟨-, rfl⟩ := Connection.create_eq_ok create
    rw [after]
    exact Reader.noConfusion
  | same get => exact before i later get
  | moves peer event get unread internal step =>
    obtain ⟨same, -⟩ | ⟨-, -, -, -, hreader, -⟩ | ⟨-, -, hlater⟩ | ⟨message, rfl, -⟩ |
      ⟨-, -, hlater⟩ | ⟨rfl, -⟩ | ⟨rfl, -⟩ := Connection.read_cases step
    · rw [same.reader]
      exact before i peer get
    · rw [hreader]
      exact Reader.noConfusion
    · rw [hlater]
      exact looped _
    · cases internal
    · rw [hlater]
      exact Reader.noConfusion
    · cases internal
    · cases internal
  | stops peer n get unread run =>
    rw [reader_exec_posts n peer.connection later.connection run]
    exact before i peer get
  | discards peer m get closed after =>
    rw [after, Connection.readMessage, if_pos closed]
    exact Reader.noConfusion
  | throws peer m event get live after =>
    rw [after]
    exact Reader.noConfusion
  | responds peer m response event get live after =>
    rw [after]
    dsimp only [responded]
    split
    · exact looped _
    · exact looped _

end Server

end Stalker2D.Network
