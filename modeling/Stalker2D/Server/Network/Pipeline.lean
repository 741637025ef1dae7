import Stalker2D.Machine.Lists
import Stalker2D.Server.Network.PlayerLifecycle
import Stalker2D.Shared.Delivery

/-!
# Requests and responses on the server

A response goes from the read loop through `onMessage`, the lookup of the connection by
its id and a posted `sendImpl` to the write queue. `PeerStep` says what one event of the
server does to one connection, as events of that connection, so that everything known
about a connection by itself carries over. `Ledger` records every message that is read,
with the world it left behind.
-/

namespace Stalker2D.Network

open Protocol Game

/-- What the protocol asks of the response to a request that was handled in `world`. -/
def Answers (world : WorldService) (request : ClientMessage) (response : ServerMessage) : Prop :=
  response.requestId = request.requestId ∧
    match request.payload with
    | some (.ping ping) =>
      response.status = .ok ∧ response.payload = some (.pong { timestamp := ping.timestamp })
    | some .stateSnapshot =>
      response.status = .ok ∧
        response.payload = some (.stateSnapshot { stateJson := world.snapshotJson })
    | none => response.status = .error ∧ ∃ error, response.payload = some (.error error)

theorem answers_onMessage {world world' : WorldService} {id : ConnectionId}
    {request : ClientMessage} {response : ServerMessage}
    (h : ServerMessageHandler.onMessage world id request = (.ok response, world')) :
    Answers world' request { response with requestId := request.requestId } := by
  simp only [ServerMessageHandler.onMessage] at h
  split at h
  · cases h
  next p after hconnect =>
    obtain ⟨hresponse, rfl⟩ := Prod.mk.inj h
    obtain rfl := Except.ok.inj hresponse
    refine ⟨rfl, ?_⟩
    cases request.payload with
    | none => exact ⟨rfl, _, rfl⟩
    | some payload =>
      cases payload with
      | ping ping => exact ⟨rfl, rfl⟩
      | stateSnapshot => exact ⟨rfl, rfl⟩

namespace Server

variable {native : Endian} {serialize : ServerMessage → Option (List UInt8)}
variable {server t : Server} {e : Event}

/-- A message that is not the response to a request. -/
def Event.unsolicited : Event → Bool
  | .connection _ (.post (.sendImpl _)) => true
  | _ => false

/-- What one event does to the connection at `i`, which is `later` afterwards. -/
inductive PeerStep (native : Endian) (serialize : ServerMessage → Option (List UInt8))
    (server t : Server) (e : Event) (i : Nat) (later : Peer) : Prop
  | created (m : UInt32) (connection : ServerConnection) (event : e = .accept m)
      (place : i = server.connections.length)
      (create : Connection.create { maxMessageBytes := m } = .ok connection)
      (after : later.connection = connection.post .startImpl)
  | quiet (peer : Peer) (es : List (Connection.Event ClientMessage ServerMessage))
      (get : server.connections[i]? = some peer)
      (run : (Connection.step native serialize).exec peer.connection es = some later.connection)
      (silent : es.flatMap Connection.Event.sends = [])
      (unread : later.connection.closed = false → t.manager.stopped = false →
        ∀ m, e ≠ .deliver i m)
  | answered (peer : Peer) (es : List (Connection.Event ClientMessage ServerMessage))
      (m : ClientMessage) (r : ServerMessage) (event : e = .deliver i m)
      (get : server.connections[i]? = some peer)
      (run : (Connection.step native serialize).exec peer.connection es = some later.connection)
      (answers : Answers t.world m r) (sends : es.flatMap Connection.Event.sends = [r])

/-- Nothing happens to this connection. -/
theorem PeerStep.idle {i : Nat} {later : Peer} (get : server.connections[i]? = some later)
    (other : ∀ m, e ≠ .deliver i m) : PeerStep native serialize server t e i later :=
  .quiet later [] get rfl rfl fun _ _ => other

theorem getElem?_post (server : Server) (position i : Nat) (handler : Posted ServerMessage) :
    (server.post position handler).connections[i]? = (server.connections[i]?).map fun peer =>
      if position = i then { peer with connection := peer.connection.post handler } else peer := by
  simp only [post, List.getElem?_modify, Option.map_eq_map]

/-- One connection moves and sends nothing. -/
theorem peerStep_modify {position : Nat} {peer : Peer}
    (get : server.connections[position]? = some peer) {connection : ServerConnection}
    (hconnections : t.connections = server.connections.modify position ({ · with connection }))
    {es : List (Connection.Event ClientMessage ServerMessage)}
    (run : (Connection.step native serialize).exec peer.connection es = some connection)
    (silent : es.flatMap Connection.Event.sends = [])
    (unread : connection.closed = false → ∀ m, e ≠ .deliver position m)
    (other : ∀ i m, i ≠ position → e ≠ .deliver i m) {i : Nat} {later : Peer}
    (h : t.connections[i]? = some later) : PeerStep native serialize server t e i later := by
  rw [hconnections, List.getElem?_modify] at h
  obtain ⟨old, hold, rfl⟩ := Option.map_eq_some_iff.mp h
  by_cases hi : position = i
  · subst hi
    obtain rfl := Option.some.inj (get.symm.trans hold)
    rw [if_pos rfl]
    exact .quiet _ es get run silent fun hopen _ => unread hopen
  · rw [if_neg hi]
    exact .idle hold fun m => other i m (Ne.symm hi)

theorem connections_advance (server : Server) (position : Nat) (peer : Peer)
    (connection : ServerConnection) : (server.advance position peer connection).connections =
      server.connections.modify position ({ · with connection }) := by
  simp only [advance]
  split <;> rfl

/-- The id of a live connection leads back to it, until `stopAll`. -/
theorem Linked.get (linked : server.Linked) {position : Nat} {peer : Peer}
    (h : server.connections[position]? = some peer) (live : peer.connection.closed = false) :
    server.manager.get peer.id = if server.manager.stopped then none else some position := by
  simp only [ServerConnectionManager.get]
  split
  · rfl
  next hrunning =>
    exact linked.registered (Bool.eq_false_iff.mpr hrunning) position peer.standing
      (standings_getElem? h) live

/-- The connection of a peer once `onMessage` has returned for it. -/
def responded (connection : ServerConnection) (message : ClientMessage)
    (sent : Option ServerMessage) : ServerConnection :=
  match sent with
  | none => (connection.readMessage message).readLoop
  | some response => ((connection.readMessage message).post (.sendImpl response)).readLoop

/-- The response is posted on the connection its request came from, and on no other. -/
theorem connections_respond (linked : server.Linked) {position : Nat} {peer : Peer}
    (get : server.connections[position]? = some peer) (live : peer.connection.closed = false)
    (message : ClientMessage) (response : ServerMessage) (world : WorldService) (i : Nat) :
    (server.respond position peer message response world).connections[i]? =
      if position = i then
        some { peer with
          connection := responded peer.connection message
            (if server.manager.stopped then none
            else some { response with requestId := message.requestId })
          served := true }
      else server.connections[i]? := by
  have hlt := (List.getElem?_eq_some_iff.mp get).1
  have hget := linked.get get live
  have hsend : ∀ s : Server, s.manager = server.manager →
      s.send peer.id { response with requestId := message.requestId } =
        if server.manager.stopped then s
        else s.post position (.sendImpl { response with requestId := message.requestId }) := by
    intro s hs
    simp only [send, hs, hget]
    cases server.manager.stopped <;> rfl
  have hsent := hsend
    { server with
      world
      connections := server.connections.set position
        { peer with connection := peer.connection.readMessage message, served := true } } rfl
  simp only [respond, List.getElem?_modify]
  rw [hsent]
  cases hstopped : server.manager.stopped with
  | true =>
    simp only [if_true, List.getElem?_set, hlt]
    by_cases hi : position = i
    · simp [hi, responded]
    · simp [hi]
  | false =>
    simp only [Bool.false_eq_true, if_false, getElem?_post, List.getElem?_set, hlt, if_true]
    by_cases hi : position = i
    · simp [hi, responded]
    · simp [hi]

/-- The read loop reads a message, calls its handler and goes on. -/
theorem exec_responded {connection : ServerConnection} (hreading : connection.reader = .reading)
    (hopen : connection.closed = false) (message : ClientMessage) (sent : Option ServerMessage) :
    (Connection.step native serialize).exec connection
        (.readCompletes message :: (sent.toList.map fun r => .post (.sendImpl r)) ++
          [.handlerReturns]) = some (responded connection message sent) := by
  have hread : Connection.step native serialize connection (.readCompletes message) =
      some (connection.readMessage message) := by
    simp only [Connection.step, hreading, if_true]
  have hhandling : (connection.readMessage message).reader = .handling := by
    rw [Connection.readMessage, if_neg (Bool.eq_false_iff.mp hopen)]
  rw [List.cons_append, Machine.exec_cons, hread, Option.bind_some]
  cases sent with
  | none =>
    simp only [Option.toList_none, List.map_nil, List.nil_append, Machine.exec_cons,
      Connection.step, hhandling, if_true]
    rfl
  | some response =>
    have hposted : ((connection.readMessage message).post (.sendImpl response)).reader =
        .handling := hhandling
    simp only [Option.toList_some, List.map_cons, List.map_nil, List.cons_append,
      List.nil_append, Machine.exec_cons, Connection.step, Option.bind_some, hposted, if_true]
    rfl

theorem peerStep_deliver (linked : server.Linked) {position : Nat} {peer : Peer}
    (get : server.connections[position]? = some peer)
    (hreading : peer.connection.reader = .reading) (message : ClientMessage) {i : Nat}
    {later : Peer}
    (h : (server.deliver position peer message).connections[i]? = some later) :
    PeerStep native serialize server (server.deliver position peer message)
      (.deliver position message) i later := by
  have hread : Connection.step native serialize peer.connection (.readCompletes message) =
      some (peer.connection.readMessage message) := by
    simp only [Connection.step, hreading, if_true]
  have other : ∀ i m, i ≠ position → Event.deliver position message ≠ .deliver i m := by
    intro i m hi heq
    exact hi (Event.deliver.inj heq).1.symm
  by_cases hopen : peer.connection.closed = true
  · have run : (Connection.step native serialize).exec peer.connection [.readCompletes message] =
        some (peer.connection.readMessage message) := by
      rw [Machine.exec_cons, hread]
      rfl
    have hconnections : (server.deliver position peer message).connections =
        server.connections.modify position
          ({ · with connection := peer.connection.readMessage message }) := by
      rw [deliver, if_pos hopen]
      rfl
    refine peerStep_modify get hconnections run rfl (fun hlive => ?_) other h
    rw [closed_readMessage, hopen] at hlive
    cases hlive
  · have live := Bool.eq_false_iff.mpr hopen
    obtain ⟨error, hcall⟩ | ⟨p, response, world, -, hcall⟩ :=
      onMessage_cases server.world peer.id message
    · have run : (Connection.step native serialize).exec peer.connection
          [.readCompletes message, .handlerThrows] =
            some (peer.connection.readMessage message).failReading := by
        rw [Machine.exec_cons, hread, Option.bind_some, Machine.exec_cons, Connection.readMessage,
          if_neg hopen]
        rfl
      have hconnections : (server.deliver position peer message).connections =
          server.connections.modify position
            ({ · with connection := (peer.connection.readMessage message).failReading }) := by
        rw [deliver, if_neg hopen, hcall]
        exact connections_advance _ _ _ _
      refine peerStep_modify get hconnections run rfl (fun hlive => ?_) other h
      simp only [Connection.failReading, Connection.stopImpl_closed] at hlive
      cases hlive
    · have hdeliver : server.deliver position peer message =
          server.respond position peer message response world := by
        rw [deliver, if_neg hopen, hcall]
      obtain ⟨-, hmanager, hworld⟩ :
          _ ∧ (server.respond position peer message response world).manager = server.manager ∧
            (server.respond position peer message response world).world = world :=
        standings_respond position peer message response world
      rw [hdeliver] at h ⊢
      rw [connections_respond linked get live message response world i] at h
      by_cases hi : position = i
      · subst hi
        rw [if_pos rfl] at h
        obtain rfl := Option.some.inj h
        have run : (Connection.step native serialize).exec peer.connection _ =
            some (responded peer.connection message
              (if server.manager.stopped then none
                else some { response with requestId := message.requestId })) :=
          exec_responded hreading live message _
        cases hstopped : server.manager.stopped with
        | true =>
          rw [hstopped] at run
          refine .quiet peer _ get run rfl fun _ hrunning => ?_
          rw [hmanager, hstopped] at hrunning
          cases hrunning
        | false =>
          rw [hstopped] at run
          refine .answered peer _ message _ rfl get run ?_ rfl
          rw [hworld]
          exact answers_onMessage hcall
      · rw [if_neg hi] at h
        exact .idle h fun m => other i m (Ne.symm hi)

theorem create_eq_some {manager manager' : ServerConnectionManager} {position : Nat} {m : UInt32}
    {id : ConnectionId} {connection : ServerConnection}
    (h : manager.create position m = (.ok (some (id, connection)), manager')) :
    Connection.create { maxMessageBytes := m } = .ok connection := by
  simp only [ServerConnectionManager.create] at h
  split at h
  · cases h
  · split at h
    · cases h
    · split at h
      · cases h
      next created hcreate =>
        cases h
        exact hcreate

theorem peerStep_accept (server : Server) (m : UInt32) {i : Nat} {later : Peer}
    (h : (server.accept m).2.connections[i]? = some later) :
    PeerStep native serialize server (server.accept m).2 (.accept m) i later := by
  have hno : ∀ i message, Event.accept m ≠ .deliver i message := by
    intro i message heq
    cases heq
  simp only [accept] at h ⊢
  split at h
  · exact .idle h (hno i)
  · exact .idle h (hno i)
  next id connection manager hcreate =>
    obtain hold | ⟨hi, rfl⟩ := getElem?_concat_cases h
    · exact .idle hold (hno i)
    · exact .created m connection rfl hi (create_eq_some hcreate) rfl

/-- Any number of posted `stopImpl`. -/
theorem exec_foldl_post (native : Endian) (serialize : ServerMessage → Option (List UInt8))
    {positions : List Nat} {i : Nat} {later : Peer}
    (h : (positions.foldl (fun s position => s.post position .stopImpl) server).connections[i]? =
      some later) :
    ∃ (peer : Peer) (n : Nat), server.connections[i]? = some peer ∧
      (Connection.step native serialize).exec peer.connection
        (List.replicate n (.post .stopImpl)) = some later.connection := by
  induction positions generalizing server with
  | nil => exact ⟨later, 0, h, rfl⟩
  | cons position positions ih =>
    obtain ⟨peer, n, hpeer, hrun⟩ := ih h
    rw [getElem?_post] at hpeer
    obtain ⟨old, hold, rfl⟩ := Option.map_eq_some_iff.mp hpeer
    split at hrun
    · exact ⟨old, n + 1, hold, hrun⟩
    · exact ⟨old, n, hold, hrun⟩

theorem peerStep_stopAll {i : Nat} {later : Peer}
    (h : server.stopAll.connections[i]? = some later) :
    PeerStep native serialize server server.stopAll .stopAll i later := by
  have hno : ∀ i message, Event.stopAll ≠ .deliver i message := by
    intro i message heq
    cases heq
  by_cases hstopped : server.manager.stopped = true
  · rw [stopAll, if_pos hstopped] at h
    exact .idle h (hno i)
  · rw [stopAll, if_neg hstopped] at h
    obtain ⟨peer, n, hpeer, run⟩ := exec_foldl_post native serialize h
    refine .quiet peer _ hpeer run ?_ fun _ _ => hno i
    rw [List.flatMap_eq_nil_iff]
    intro e hmem
    rw [List.eq_of_mem_replicate hmem]
    rfl

/-- Everything a step does to a connection, if nobody else sends. -/
theorem peerStep (linked : server.Linked) (hstep : step native serialize server e = some t)
    (solicited : e.unsolicited = false) {i : Nat} {later : Peer}
    (h : t.connections[i]? = some later) : PeerStep native serialize server t e i later := by
  cases e with
  | accept m =>
    obtain rfl := Option.some.inj hstep
    exact peerStep_accept server m h
  | deliver position message =>
    simp only [step] at hstep
    split at hstep
    · cases hstep
    next peer get =>
      simp only [Option.ite_none_right_eq_some, Option.some.injEq] at hstep
      obtain ⟨hreading, rfl⟩ := hstep
      exact peerStep_deliver linked get hreading message h
  | connection position event =>
    simp only [step] at hstep
    split at hstep
    · cases hstep
    next peer get =>
      simp only [Option.ite_none_right_eq_some, Option.map_eq_some_iff] at hstep
      obtain ⟨-, connection, hconnection, rfl⟩ := hstep
      have hno : ∀ i message, Event.connection position event ≠ .deliver i message := by
        intro i message heq
        cases heq
      have run : (Connection.step native serialize).exec peer.connection [event] =
          some connection := by
        rw [Machine.exec_cons, hconnection]
        rfl
      have silent : [event].flatMap Connection.Event.sends = [] := by
        rw [List.flatMap_singleton]
        cases event with
        | post handler =>
          cases handler with
          | sendImpl message => cases solicited
          | startImpl => rfl
          | stopImpl => rfl
        | _ => rfl
      exact peerStep_modify get (connections_advance _ _ _ _) run silent (fun _ => hno position)
        (fun i m _ => hno i m) h
  | stopAll =>
    obtain rfl := Option.some.inj hstep
    exact peerStep_stopAll h

/-- A connection keeps its place. -/
theorem peer_later (linked : server.Linked) (hstep : step native serialize server e = some t)
    (solicited : e.unsolicited = false) {i : Nat} {peer : Peer}
    (h : server.connections[i]? = some peer) :
    ∃ later es, t.connections[i]? = some later ∧
      (Connection.step native serialize).exec peer.connection es = some later.connection := by
  obtain ⟨b, hb, -⟩ := (effect_step hstep).standing (standings_getElem? h)
  rw [standings, List.getElem?_map] at hb
  obtain ⟨later, hlater, -⟩ := Option.map_eq_some_iff.mp hb
  cases peerStep linked hstep solicited hlater with
  | created m connection event place =>
    have hlt := (List.getElem?_eq_some_iff.mp h).1
    omega
  | quiet old es get run =>
    obtain rfl := Option.some.inj (h.symm.trans get)
    exact ⟨later, es, hlater, run⟩
  | answered old es m r event get run =>
    obtain rfl := Option.some.inj (h.symm.trans get)
    exact ⟨later, es, hlater, run⟩

/-- `stopAll` is final. -/
theorem running_step (hstep : step native serialize server e = some t)
    (hrunning : t.manager.stopped = false) : server.manager.stopped = false := by
  cases effect_step hstep with
  | unchanged _ _ _ manager => rwa [manager] at hrunning
  | refused _ _ _ manager => rwa [manager] at hrunning
  | created _ running => exact running
  | served _ _ _ _ _ _ _ _ manager => rwa [manager] at hrunning
  | closed _ _ _ _ _ _ _ manager =>
    rwa [manager, ServerConnectionManager.stopped_remove] at hrunning
  | stopped _ manager =>
    rw [manager] at hrunning
    cases hrunning

end Server

/-- A message read from the connection at `position`, and the world after its handling. -/
structure Read where
  position : Nat
  message : ClientMessage
  world : WorldService

/-- A message answers what was read. -/
def Read.Answered (read : Read) (response : ServerMessage) : Prop :=
  Answers read.world read.message response

/-- A server whose connections send nothing but responses, with everything it has read. -/
structure Ledger where
  server : Server := {}
  reads : List Read := []

namespace Ledger

variable {native : Endian} {serialize : ServerMessage → Option (List UInt8)}
variable {ledger t : Ledger} {e : Server.Event}

/-- What an event reads, if it leaves `world` behind. -/
def readings (world : WorldService) : Server.Event → List Read
  | .deliver position message => [{ position, message, world }]
  | _ => []

def step (native : Endian) (serialize : ServerMessage → Option (List UInt8)) :
    Machine Ledger Server.Event
  | ledger, e =>
    if e.unsolicited then none
    else (Server.step native serialize ledger.server e).map fun t =>
      { server := t, reads := ledger.reads ++ readings t.world e }

/-- The messages read from one connection. -/
def readsOf (ledger : Ledger) (position : Nat) : List Read :=
  ledger.reads.filter (·.position = position)

theorem readsOf_append (server : Server) (reads more : List Read) (i : Nat) :
    readsOf ⟨server, reads ++ more⟩ i =
      readsOf ⟨server, reads⟩ i ++ more.filter (·.position = i) :=
  List.filter_append ..

/-- Nothing is read from the other connections. -/
theorem filter_readings_of_ne (world : WorldService) {i : Nat} (hno : ∀ m, e ≠ .deliver i m) :
    (readings world e).filter (·.position = i) = [] := by
  cases e with
  | deliver position message =>
    rw [readings, List.filter_cons_of_neg, List.filter_nil]
    intro hi
    have heq : position = i := of_decide_eq_true hi
    exact hno message (by rw [heq])
  | accept | connection | stopAll => rfl

theorem filter_readings_deliver (world : WorldService) (i : Nat) (m : ClientMessage) :
    (readings world (.deliver i m)).filter (·.position = i) = [⟨i, m, world⟩] := by
  simp [readings]

/-- Requests and responses of each connection. -/
structure InOrder (ledger : Ledger) : Prop where
  /-- The `k`-th message that was sent on an open connection, still posted or accepted by
  the write queue, is the response to the `k`-th message read from it. -/
  answered : ledger.server.manager.stopped = false → ∀ (i : Nat) peer,
    ledger.server.connections[i]? = some peer → peer.connection.closed = false →
    List.Forall₂ Read.Answered (ledger.readsOf i)
      (peer.connection.accepted ++ peer.connection.posted.filterMap Posted.message?)
  /-- Whatever has become of a connection, it was only ever sent responses to its own
  requests, each of them once and in their order. -/
  own : ∀ (i : Nat) peer, ledger.server.connections[i]? = some peer →
    ∃ reads, reads.Sublist (ledger.readsOf i) ∧ List.Forall₂ Read.Answered reads
      (peer.connection.accepted ++ peer.connection.posted.filterMap Posted.message?)

/-- What every step keeps, as long as ids are not reused. -/
structure Kept (ledger : Ledger) : Prop where
  linked : ledger.server.Linked
  placed : ∀ read ∈ ledger.reads, read.position < ledger.server.connections.length
  answered : ledger.server.manager.stopped = false → ∀ (i : Nat) peer,
    ledger.server.connections[i]? = some peer → peer.connection.closed = false →
    List.Forall₂ Read.Answered (ledger.readsOf i) peer.connection.outbox
  own : ∀ (i : Nat) peer, ledger.server.connections[i]? = some peer →
    ∃ reads, reads.Sublist (ledger.readsOf i) ∧
      List.Forall₂ Read.Answered reads peer.connection.outbox

theorem kept_initial : Kept {} where
  linked := Server.linked_initial
  placed _ h := by cases h
  answered _ i peer h := by simp at h
  own i peer h := by simp at h

theorem Kept.step (kept : ledger.Kept) (fresh : ¬ledger.server.Reuses e)
    (hstep : step native serialize ledger e = some t) : t.Kept := by
  simp only [Ledger.step, Option.ite_none_left_eq_some, Option.map_eq_some_iff] at hstep
  obtain ⟨hsolicited, next, hnext, rfl⟩ := hstep
  have length : ∀ i : Nat, i < ledger.server.connections.length → i < next.connections.length := by
    intro i hi
    obtain ⟨later, -, hlater, -⟩ := Server.peer_later kept.linked hnext
      (Bool.eq_false_iff.mpr hsolicited) (List.getElem?_eq_getElem hi)
    exact (List.getElem?_eq_some_iff.mp hlater).1
  have reads : ∀ i : Nat, readsOf ⟨next, ledger.reads ++ readings next.world e⟩ i =
      ledger.readsOf i ++ (readings next.world e).filter (·.position = i) :=
    fun i => readsOf_append ..
  refine ⟨Server.linked_step kept.linked fresh hnext, ?placed, ?answered, ?own⟩
  case placed =>
    intro read hmem
    obtain hmem | hmem := List.mem_append.mp hmem
    · exact length _ (kept.placed read hmem)
    · cases e with
      | deliver position message =>
        obtain rfl := List.mem_singleton.mp hmem
        simp only [Server.step] at hnext
        split at hnext
        · cases hnext
        next peer get => exact length _ (List.getElem?_eq_some_iff.mp get).1
      | accept | connection | stopAll => cases hmem
  case answered =>
    intro hrunning i later hlater hopen
    have hbefore := kept.answered (Server.running_step hnext hrunning) i
    rw [reads]
    cases Server.peerStep kept.linked hnext (Bool.eq_false_iff.mpr hsolicited) hlater with
    | created m connection event place create after =>
      obtain ⟨-, rfl⟩ := Connection.create_eq_ok create
      have hnone : ledger.readsOf i = [] := by
        rw [readsOf, List.filter_eq_nil_iff]
        intro read hmem hi
        have hlt := kept.placed read hmem
        rw [of_decide_eq_true hi, place] at hlt
        omega
      have hno : ∀ message, e ≠ .deliver i message := by
        rintro message rfl
        cases event
      rw [hnone, filter_readings_of_ne _ hno, after]
      exact .nil
    | quiet peer es get run silent hread =>
      obtain ⟨-, houtbox⟩ := Connection.outbox_exec run
      rw [filter_readings_of_ne _ (hread hopen hrunning), List.append_nil, houtbox hopen, silent,
        List.append_nil]
      exact hbefore peer get (Connection.closed_exec run hopen)
    | answered peer es m r event get run answers sends =>
      obtain ⟨-, houtbox⟩ := Connection.outbox_exec run
      rw [event, filter_readings_deliver, houtbox hopen, sends]
      exact List.rel_append (hbefore peer get (Connection.closed_exec run hopen))
        (.cons answers .nil)
  case own =>
    intro i later hlater
    have old : (ledger.readsOf i).Sublist
        (readsOf ⟨next, ledger.reads ++ readings next.world e⟩ i) := by
      rw [reads]
      exact List.sublist_append_left _ _
    cases Server.peerStep kept.linked hnext (Bool.eq_false_iff.mpr hsolicited) hlater with
    | created m connection event place create after =>
      obtain ⟨-, rfl⟩ := Connection.create_eq_ok create
      rw [after]
      exact ⟨[], List.nil_sublist _, .nil⟩
    | quiet peer es get run silent =>
      obtain ⟨hsub, -⟩ := Connection.outbox_exec run
      rw [silent, List.append_nil] at hsub
      obtain ⟨before, hbefore, answered⟩ := kept.own i peer get
      obtain ⟨left, hleft, answered⟩ := exists_forall₂_of_sublist answered hsub
      exact ⟨left, (hleft.trans hbefore).trans old, answered⟩
    | answered peer es m r event get run answers sends =>
      obtain ⟨hsub, -⟩ := Connection.outbox_exec run
      rw [sends] at hsub
      obtain ⟨before, hbefore, answered⟩ := kept.own i peer get
      have all : List.Forall₂ Read.Answered (before ++ [⟨i, m, next.world⟩])
          (peer.connection.outbox ++ [r]) := List.rel_append answered (.cons answers .nil)
      obtain ⟨left, hleft, answered⟩ := exists_forall₂_of_sublist all hsub
      refine ⟨left, hleft.trans ?_, answered⟩
      rw [reads, event, filter_readings_deliver]
      exact hbefore.append (.refl _)

theorem kept_exec {es : List Server.Event} (run : (step native serialize).exec {} es = some ledger)
    (fresh : (step native serialize).Along (fun ledger e _ => ¬ledger.server.Reuses e) {} es) :
    ledger.Kept := by
  refine Machine.exec_induction (motive := fun es ledger =>
    (step native serialize).Along (fun ledger e _ => ¬ledger.server.Reuses e) {} es → ledger.Kept)
    (fun _ => kept_initial) ?_ run fresh
  intro es s e u hrun ih hstep fresh
  exact (ih (Machine.along_append.mp fresh).1).step (fresh.last hrun hstep) hstep

/-- Before the 65536th accepted connection no id is reused. -/
theorem fresh_of_few {es : List Server.Event} {n : Nat} (counted : ledger.server.Counted n)
    (few : n + Server.accepts es < 65536) :
    (step native serialize).Along (fun ledger e _ => ¬ledger.server.Reuses e) ledger es := by
  refine Machine.along_within (I := fun n (ledger : Ledger) => ledger.server.Counted n)
    Server.accepts_append ?_ counted few
  intro n ledger e t counted few hstep
  simp only [Ledger.step, Option.ite_none_left_eq_some, Option.map_eq_some_iff] at hstep
  obtain ⟨-, next, hnext, rfl⟩ := hstep
  exact ⟨counted.not_reuses few, counted.step few (Server.effect_step hnext)⟩

/-- While it is open, a connection has been sent the response to each message read from it, once
and in the order of reading, and whatever becomes of it, it is sent nothing else. Other
connections and the completion of its writes make no difference, as long as no id is reused. -/
theorem responses_in_order {es : List Server.Event}
    (run : (step native serialize).exec {} es = some ledger)
    (fresh : (step native serialize).Along (fun ledger e _ => ¬ledger.server.Reuses e) {} es) :
    ledger.InOrder := by
  have kept := kept_exec run fresh
  exact ⟨kept.answered, kept.own⟩

/-- Two clients; the first one asks twice, once without a payload, while the response to the
second one is on its way. -/
def twoClients : List Server.Event :=
  [.accept 1024, .connection 0 .runPosted, .connection 0 .readerStarts, .accept 1024,
    .connection 1 .runPosted, .connection 1 .readerStarts,
    .deliver 0 { requestId := 5, payload := some (.ping { timestamp := 9 }) },
    .deliver 1 { requestId := 5, payload := some .stateSnapshot }, .connection 1 .runPosted,
    .deliver 0 { requestId := 6 }, .connection 0 .runPosted, .connection 1 (.writerStarts 0),
    .connection 0 .runPosted]

/-- The snapshot of a world whose two players have not moved. -/
def twoPlayers : String :=
  "\x7b\"map\":\x7b\"height\":18,\"width\":32\x7d,\"players\":[" ++
    "\x7b\"id\":1,\"position\":\x7b\"x\":0,\"y\":0\x7d\x7d," ++
    "\x7b\"id\":2,\"position\":\x7b\"x\":0,\"y\":0\x7d\x7d],\"world\":\"bootstrap\"\x7d"

/-- Each connection has the responses to its own requests, the snapshot among them. -/
theorem responses_in_order_twoClients :
    ∃ ledger, (step .little fun _ => some [8]).exec {} twoClients = some ledger ∧
      ledger.InOrder ∧
      ledger.server.connections.map (fun peer => peer.connection.accepted) =
        [[{ requestId := 5, status := .ok, payload := some (.pong { timestamp := 9 }) },
            { requestId := 6
              status := .error
              payload := some (.error
                { code := 400, message := "Client message payload is not set" }) }],
          [{ requestId := 5
             status := .ok
             payload := some (.stateSnapshot { stateJson := twoPlayers }) }]] := by
  have run : (step .little fun _ => some [8]).exec {} twoClients = some _ := rfl
  refine ⟨_, run, responses_in_order run ?_, by decide +kernel⟩
  exact fresh_of_few Server.counted_initial (by decide)

end Ledger

end Stalker2D.Network
