import Stalker2D.EndToEnd.RequestSafety
import Stalker2D.Server.Network.Answering

/-!
# Requests and responses in one order

On each connection of the client the server reads the requests that were sent on it, in
their order and from the first one on, and the client handles the answers to the first of
them, again in that order: nothing is skipped, repeated or overtaken, whatever becomes of
the two ends. `Ordered` says how far the messages of each connection have come at each of
the places they go through, and `Safe` which two ends belong together.
-/

namespace Stalker2D.EndToEnd

open Protocol Network Client Game

section Transfer

variable {ι ο : Type} {native native' : Endian} {protobuf : Protobuf ο}
variable {sender : Connection ι ο} {handled : List ο} {consumed : Nat}

/-- A read that succeeds finds the message after those that were handled. -/
theorem transfer_next (lawful : protobuf.Lawful) {channel channel' : MessageChannel}
    {consumed' arrived : Nat} {message : ο}
    (received : Received native protobuf.serializeToString sender handled false consumed)
    (framed : sender.Framed native protobuf.serializeToString)
    (h : transfer protobuf native' channel sender.wire consumed arrived =
      some (message, channel', consumed')) (closed : Bool) :
    Received native protobuf.serializeToString sender (handled ++ [message]) closed consumed' := by
  simp only [transfer] at h
  split at h
  next message₁ channel₁ rest hread =>
    cases h
    have hmore : sender.wire.drop consumed ≠ [] := by
      intro hnone
      rw [hnone, List.take_nil] at hread
      cases hread
    obtain ⟨messages, sendable, hprefix, hwire⟩ := received.unread framed hmore
    obtain ⟨later, rfl, hlength⟩ := readMessage_next lawful.inverts lawful.bounded sendable
      ((List.take_prefix _ _).trans hwire) hread
    obtain ⟨hconsumed, hold⟩ := received.read rfl
    refine ⟨?_, fun _ => ⟨?_, ?_⟩⟩
    · rw [← List.singleton_append, ← List.append_assoc] at hprefix
      exact (List.prefix_append _ _).trans hprefix
    · rw [Connection.frames_append, List.length_append, ← hconsumed, hlength,
        Connection.frames, List.flatMap_singleton]
      omega
    · intro m hm
      obtain hm | hm := List.mem_append.mp hm
      · exact hold m hm
      · obtain rfl := List.mem_singleton.mp hm
        exact sendable m List.mem_cons_self
  next => cases h

end Transfer

section Sent

/-- What was given to each connection to write. -/
def outgoings (client : ClientRequestManager) : List (List ClientMessage) :=
  client.links.map Link.outgoing

/-- What a connection was given is what it has accepted and what is still posted. One that has
closed may have lost some of what was posted. -/
structure Sent {ι : Type} (connection : Connection ι ClientMessage)
    (outgoing : List ClientMessage) : Prop where
  accepted : connection.accepted <+: outgoing
  outbox : connection.closed = false → connection.outbox = outgoing

theorem Sent.exec {ι : Type} {native : Endian} {serialize : ClientMessage → Option (List UInt8)}
    {connection later : Connection ι ClientMessage} {outgoing : List ClientMessage}
    (sent : Sent connection outgoing) {es : List (Connection.Event ι ClientMessage)}
    (run : (Connection.step native serialize).exec connection es = some later) :
    Sent later (outgoing ++ es.flatMap Connection.Event.sends) := by
  cases hclosed : connection.closed with
  | true =>
    have frozen := Connection.frozen_exec hclosed run
    refine ⟨?_, fun hopen => absurd (frozen.closed.symm.trans hopen) Bool.noConfusion⟩
    rw [frozen.accepted]
    exact sent.accepted.trans (List.prefix_append _ _)
  | false =>
    rw [← sent.outbox hclosed]
    exact ⟨Connection.accepted_exec run, (Connection.outbox_exec run).2⟩

/-- Only `start` and `send` have to do with what connections are given. -/
theorem outgoings_step {client t : ClientRequestManager} {e : ClientRequestManager.Event}
    (hstep : client.step e = some t) (hstart : ∀ socket onClosed, e ≠ .start socket onClosed)
    (hsend : ∀ message, e ≠ .send message) : outgoings t = outgoings client := by
  have modified : ∀ (place : Nat) (f : Link → Link), (∀ l, (f l).outgoing = l.outgoing) →
      (client.links.modify place f).map Link.outgoing = outgoings client := by
    intro place f hf
    apply List.ext_getElem?
    intro i
    rw [outgoings, List.getElem?_map, List.getElem?_map, List.getElem?_modify]
    cases client.links[i]? with
    | none => rfl
    | some link =>
      simp only [Option.map_eq_map, Option.map_some, Option.some.injEq]
      split
      · exact hf link
      · rfl
  cases ClientRequestManager.step_cases hstep with
  | start socket onClosed => exact absurd rfl (hstart socket onClosed)
  | stop reason =>
    obtain h | ⟨place, -, h⟩ := ClientRequestManager.stop_cases client reason
    · rw [h]
    · rw [h]
      exact modified place _ fun _ => rfl
  | send message => exact absurd rfl (hsend message)
  | receive message =>
    rw [outgoings, (ClientRequestManager.receive_frame client message).1]
    rfl
  | timerExpires frame => rfl
  | resume frame call error =>
    rw [outgoings, (ClientRequestManager.resumeSend_frame client frame call error).1]
    rfl
  | linkCloses place => exact modified place _ fun _ => rfl
  | closeNotification place => exact modified place _ fun _ => rfl

theorem outgoings_sent (client : ClientRequestManager) (link : Nat) (message : ClientMessage) :
    outgoings (client.sent link message) =
      (outgoings client).modify link (· ++ [client.stamp message]) := by
  apply List.ext_getElem?
  intro i
  simp only [outgoings, ClientRequestManager.sent, List.getElem?_map, List.getElem?_modify]
  cases client.links[i]? with
  | none => rfl
  | some state =>
    simp only [Option.map_eq_map, Option.map_some, Option.some.injEq]
    split <;> rfl

end Sent

section Parts

variable {hosts : Hosts} {seen : Nat → WorldService → Prop} {n : Nat} {system : System}

/-- How far a connection of the client has come in the stream at the other end. -/
def Heard (hosts : Hosts) (system : System) (link : ClientLink) : Prop :=
  (link.connection.handled = [] ∧ link.consumed = 0) ∨
    ∃ (position : Nat) (socket : ServerLink) (peer : Peer),
      system.sockets[position]? = some socket ∧ socket.socket = some link.socket ∧
        system.server.connections[position]? = some peer ∧
        Received hosts.server hosts.responses.serializeToString peer.connection
          link.connection.handled link.connection.closed link.consumed

/-- How far a connection of the server has. -/
def Served (hosts : Hosts) (system : System) (socket : ServerLink) (peer : Peer) : Prop :=
  (peer.connection.handled = [] ∧ socket.consumed = 0) ∨
    ∃ (place : Nat) (link : ClientLink), system.links[place]? = some link ∧
      socket.socket = some link.socket ∧
      Received hosts.client hosts.requests.serializeToString link.connection
        peer.connection.handled peer.connection.closed socket.consumed

structure Ordered (hosts : Hosts) (system : System) : Prop where
  aligned : (outgoings system.client).length = system.links.length
  placed : system.server.connections.length = system.sockets.length
  framed : ∀ (place : Nat) link, system.links[place]? = some link →
    link.connection.Framed hosts.client hosts.requests.serializeToString
  sent : ∀ (place : Nat) link outgoing, system.links[place]? = some link →
    (outgoings system.client)[place]? = some outgoing → Sent link.connection outgoing
  heard : ∀ (place : Nat) link, system.links[place]? = some link → Heard hosts system link
  peers : ∀ (position : Nat) peer, system.server.connections[position]? = some peer →
    peer.connection.Framed hosts.server hosts.responses.serializeToString ∧
      Answering system.server.manager.stopped peer.connection
  served : ∀ (position : Nat) socket peer, system.sockets[position]? = some socket →
    socket.socket ≠ none → system.server.connections[position]? = some peer →
    Served hosts system socket peer

/-- What a connection of the client has heard from its other end. -/
theorem Ordered.heard_from (ordered : Ordered hosts system) (safe : Safe hosts seen n system)
    {place position : Nat} {link : ClientLink} {socket : ServerLink} {peer : Peer}
    (hlink : system.links[place]? = some link) (hsocket : system.sockets[position]? = some socket)
    (hnumber : socket.socket = some link.socket)
    (hpeer : system.server.connections[position]? = some peer) :
    Received hosts.server hosts.responses.serializeToString peer.connection
      link.connection.handled link.connection.closed link.consumed := by
  obtain ⟨hempty, hzero⟩ | ⟨position', socket', peer', hsocket', hnumber', hpeer', received⟩ :=
    ordered.heard place link hlink
  · rw [hempty, hzero]
    exact received_nil _ _ _ _
  · have hown : socket.socket ≠ none := by
      rw [hnumber]
      exact Option.some_ne_none _
    obtain rfl := safe.oneSocket _ _ _ _ hsocket hsocket' hown (hnumber.trans hnumber'.symm)
    obtain rfl := Option.some.inj (hpeer.symm.trans hpeer')
    exact received

/-- What a connection of the server has from its other end. -/
theorem Ordered.served_from (ordered : Ordered hosts system) (safe : Safe hosts seen n system)
    {place position : Nat} {link : ClientLink} {socket : ServerLink} {peer : Peer}
    (hlink : system.links[place]? = some link) (hsocket : system.sockets[position]? = some socket)
    (hnumber : socket.socket = some link.socket)
    (hpeer : system.server.connections[position]? = some peer) :
    Received hosts.client hosts.requests.serializeToString link.connection
      peer.connection.handled peer.connection.closed socket.consumed := by
  have hown : socket.socket ≠ none := by
    rw [hnumber]
    exact Option.some_ne_none _
  obtain ⟨hempty, hzero⟩ | ⟨place', link', hlink', hnumber', received⟩ :=
    ordered.served position socket peer hsocket hown hpeer
  · rw [hempty, hzero]
    exact received_nil _ _ _ _
  · obtain rfl := safe.oneLink _ _ _ _ hlink hlink'
      (Option.some.inj (hnumber.symm.trans hnumber'))
    obtain rfl := Option.some.inj (hlink.symm.trans hlink')
    exact received

/-- The manager alone moves, and sends nothing. -/
theorem Ordered.clientStep (ordered : Ordered hosts system) {client : ClientRequestManager}
    (same : outgoings client = outgoings system.client) :
    Ordered hosts { system with client } where
  aligned := same ▸ ordered.aligned
  placed := ordered.placed
  framed := ordered.framed
  sent place link outgoing hlink h := ordered.sent place link outgoing hlink (same ▸ h)
  heard := ordered.heard
  peers := ordered.peers
  served := ordered.served

/-- A connection of the client moves, and `sent` is given to it. -/
theorem Ordered.modifyLink (ordered : Ordered hosts system) (safe : Safe hosts seen n system)
    (place : Nat) (f : ClientLink → ClientLink) (sent : List ClientMessage)
    {client : ClientRequestManager}
    (given : outgoings client = (outgoings system.client).modify place (· ++ sent))
    (moves : ∀ link, system.links[place]? = some link → (f link).socket = link.socket ∧
      (∃ es, (Connection.step hosts.client hosts.requests.serializeToString).exec
          link.connection es = some (f link).connection ∧
        es.flatMap Connection.Event.sends = sent) ∧
      Heard hosts system (f link)) :
    Ordered hosts { system with client, links := system.links.modify place f } := by
  have earlier : ∀ (i : Nat) later, (system.links.modify place f)[i]? = some later →
      ∃ link, system.links[i]? = some link ∧ (i = place ∧ later = f link ∨ i ≠ place ∧ later = link)
      := by
    intro i later h
    rw [List.getElem?_modify] at h
    obtain ⟨link, hlink, rfl⟩ := Option.map_eq_some_iff.mp h
    refine ⟨link, hlink, ?_⟩
    by_cases hi : place = i
    · rw [if_pos hi]
      exact .inl ⟨hi.symm, rfl⟩
    · rw [if_neg hi]
      exact .inr ⟨Ne.symm hi, rfl⟩
  refine ⟨?aligned, ordered.placed, ?framed, ?sent, ?heard, ordered.peers, ?served⟩
  case aligned =>
    rw [given, List.length_modify, List.length_modify]
    exact ordered.aligned
  case framed =>
    intro i later h
    obtain ⟨link, hlink, ⟨rfl, rfl⟩ | ⟨-, rfl⟩⟩ := earlier i later h
    · obtain ⟨-, ⟨es, run, -⟩, -⟩ := moves link hlink
      exact (ordered.framed _ link hlink).exec (safe.links _ link hlink).orderly run
    · exact ordered.framed i _ hlink
  case sent =>
    intro i later outgoing h hgiven
    obtain ⟨link, hlink, hcases⟩ := earlier i later h
    rw [given, List.getElem?_modify] at hgiven
    obtain ⟨before, hbefore, rfl⟩ := Option.map_eq_some_iff.mp hgiven
    obtain ⟨rfl, rfl⟩ | ⟨hi, rfl⟩ := hcases
    · obtain ⟨-, ⟨es, run, rfl⟩, -⟩ := moves link hlink
      rw [if_pos rfl]
      exact (ordered.sent _ link before hlink hbefore).exec run
    · rw [if_neg (Ne.symm hi)]
      exact ordered.sent i _ before hlink hbefore
  case heard =>
    intro i later h
    obtain ⟨link, hlink, ⟨rfl, rfl⟩ | ⟨-, rfl⟩⟩ := earlier i later h
    · exact (moves link hlink).2.2
    · exact ordered.heard i _ hlink
  case served =>
    intro position socket peer hsocket hown hpeer
    obtain hnone | ⟨i, link, hlink, hnumber, received⟩ :=
      ordered.served position socket peer hsocket hown hpeer
    · exact .inl hnone
    · refine .inr ⟨i, if place = i then f link else link, ?_, ?_, ?_⟩
      · rw [List.getElem?_modify, hlink]
        rfl
      · split
        next hi => exact hnumber.trans (congrArg some (moves link (hi ▸ hlink)).1.symm)
        next => exact hnumber
      · split
        next hi =>
          obtain ⟨-, ⟨es, run, -⟩, -⟩ := moves link (hi ▸ hlink)
          exact received.exec run
        next => exact received

/-- A new connection of the client. -/
theorem Ordered.addLink (ordered : Ordered hosts system) {link : ClientLink}
    {client : ClientRequestManager} (given : outgoings client = outgoings system.client ++ [[]])
    (framed : link.connection.Framed hosts.client hosts.requests.serializeToString)
    (sent : Sent link.connection [])
    (heard : link.connection.handled = [] ∧ link.consumed = 0) :
    Ordered hosts { system with client, links := system.links ++ [link] } := by
  refine ⟨?aligned, ordered.placed, ?framed, ?sent, ?heard, ordered.peers, ?served⟩
  case aligned =>
    rw [given, List.length_append, List.length_append, ordered.aligned]
    rfl
  case framed =>
    intro i a h
    obtain hold | ⟨-, rfl⟩ := getElem?_concat_cases h
    · exact ordered.framed i a hold
    · exact framed
  case sent =>
    intro i a outgoing h hgiven
    rw [given] at hgiven
    obtain hold | ⟨rfl, rfl⟩ := getElem?_concat_cases h
    · have hlt := (List.getElem?_eq_some_iff.mp hold).1
      rw [List.getElem?_append_left (ordered.aligned ▸ hlt)] at hgiven
      exact ordered.sent i a outgoing hold hgiven
    · rw [← ordered.aligned, List.getElem?_concat_length] at hgiven
      obtain rfl := Option.some.inj hgiven
      exact sent
  case heard =>
    intro i a h
    obtain hold | ⟨-, rfl⟩ := getElem?_concat_cases h
    · exact ordered.heard i a hold
    · exact .inl heard
  case served =>
    intro position socket peer hsocket hown hpeer
    obtain hnone | ⟨i, a, ha, rest⟩ := ordered.served position socket peer hsocket hown hpeer
    · exact .inl hnone
    · have hlt := (List.getElem?_eq_some_iff.mp ha).1
      exact .inr ⟨i, a, (List.getElem?_append_left hlt).trans ha, rest⟩

/-- The server moves; `sockets` are those it has then. -/
theorem Ordered.serverStep (ordered : Ordered hosts system) (safe : Safe hosts seen n system)
    {e : Server.Event} {server : Server} {sockets : List ServerLink}
    (hstep : Server.step hosts.server hosts.responses.serializeToString system.server e =
      some server)
    (solicited : e.unsolicited = false)
    (kept : ∀ (i : Nat) socket, system.sockets[i]? = some socket →
      ∃ later, sockets[i]? = some later ∧ later.socket = socket.socket)
    (placed : server.connections.length = sockets.length)
    (served : ∀ (position : Nat) socket peer, sockets[position]? = some socket →
      socket.socket ≠ none → server.connections[position]? = some peer →
      Served hosts system socket peer) :
    Ordered hosts { system with server, sockets } := by
  refine ⟨ordered.aligned, placed, ordered.framed, ordered.sent, ?heard, ?peers, served⟩
  case heard =>
    intro place link hlink
    obtain hnone | ⟨position, socket, peer, hsocket, hnumber, hpeer, received⟩ :=
      ordered.heard place link hlink
    · exact .inl hnone
    · obtain ⟨later, es, hlater, run⟩ := Server.peer_later safe.linked hstep solicited hpeer
      obtain ⟨socket', hsocket', hsame⟩ := kept position socket hsocket
      exact .inr ⟨position, socket', later, hsocket', hsame.trans hnumber, hlater,
        received.exec run⟩
  case peers =>
    intro position later h
    refine ⟨?_, Server.answering_step safe.linked hstep solicited
      (fun i peer hpeer => (ordered.peers i peer hpeer).2) h⟩
    cases Server.peerStep safe.linked hstep solicited h with
    | created m connection event place create after =>
      rw [after]
      exact Connection.framed_opened create
    | quiet peer es get run =>
      exact (ordered.peers position peer get).1.exec (safe.peers position peer get) run
    | answered peer es m r event get run =>
      exact (ordered.peers position peer get).1.exec (safe.peers position peer get) run

/-- A connection of the server that is given nothing has come as far as before. -/
theorem Served.stays {socket : ServerLink} {peer later : Peer}
    (served : Served hosts system socket peer)
    (same : later.connection.handled = peer.connection.handled)
    (hclosed : later.connection.closed = false → peer.connection.closed = false) :
    Served hosts system socket later := by
  obtain ⟨hnone, hzero⟩ | ⟨place, link, hlink, hnumber, received⟩ := served
  · exact .inl ⟨same.trans hnone, hzero⟩
  · refine .inr ⟨place, link, hlink, hnumber, ?_⟩
    rw [same]
    exact received.stays fun hopen => ⟨hclosed hopen, rfl⟩

/-- A connection of the server after an event that gives nothing to its handler. -/
theorem Ordered.served_of_unread (ordered : Ordered hosts system) (safe : Safe hosts seen n system)
    {e : Server.Event} {server : Server}
    (hstep : Server.step hosts.server hosts.responses.serializeToString system.server e =
      some server)
    (solicited : e.unsolicited = false) {position : Nat}
    (unread : ∀ m, e ≠ .deliver position m) {socket : ServerLink} {later : Peer}
    (hsocket : system.sockets[position]? = some socket) (hown : socket.socket ≠ none)
    (hlater : server.connections[position]? = some later) :
    Served hosts system socket later := by
  have hlt : position < system.server.connections.length := by
    rw [ordered.placed]
    exact (List.getElem?_eq_some_iff.mp hsocket).1
  have hpeer := List.getElem?_eq_getElem hlt
  obtain ⟨later', es, hlater', run⟩ := Server.peer_later safe.linked hstep solicited hpeer
  obtain rfl := Option.some.inj (hlater.symm.trans hlater')
  refine (ordered.served position socket _ hsocket hown hpeer).stays ?_
    (Connection.closed_exec run)
  obtain ⟨same, -⟩ | ⟨m, event, -⟩ := (Server.handledStep safe.linked hstep hlater).of_get hpeer
  · exact same
  · exact absurd event (unread m)

end Parts

section Events

variable {hosts : Hosts} {seen : Nat → WorldService → Prop} {n : Nat} {system t : System}

theorem modify_append_nil {α : Type} (lists : List (List α)) (i : Nat) :
    lists.modify i (· ++ []) = lists := by
  simp only [List.append_nil]
  exact List.modify_id i lists

theorem Ordered.postLink (ordered : Ordered hosts system) (safe : Safe hosts seen n system)
    (place : Nat) (handler : Posted ClientMessage) {client : ClientRequestManager}
    (given : outgoings client = (outgoings system.client).modify place
      (· ++ (Connection.Event.post handler : Connection.Event ServerMessage ClientMessage).sends)) :
    Ordered hosts ({ system with client }.postLink place handler) := by
  refine ordered.modifyLink safe place _ _ given fun link hlink => ⟨rfl, ⟨[.post handler], rfl, ?_⟩,
    ordered.heard place link hlink⟩
  exact List.flatMap_singleton ..

/-- `start` has made the checks of the constructor. -/
theorem create_of_start {client : ClientRequestManager} {socket : Nat} {onClosed : Bool}
    (h : (client.start socket onClosed).1 = .ok ()) :
    ∃ connection : Connection ServerMessage ClientMessage,
      Connection.create ⟨client.config.maxMessageBytes, client.config.maxQueuedMessages⟩ =
        .ok connection := by
  simp only [ClientRequestManager.start] at h
  split at h
  · cases h
  · split at h
    · cases h
    next hvalid =>
      rw [Connection.create, hvalid]
      exact ⟨_, rfl⟩

theorem Ordered.start (ordered : Ordered hosts system) {socket : Nat} {onClosed : Bool}
    (h : system.start socket onClosed = some t) : Ordered hosts t := by
  simp only [System.start, Option.ite_none_left_eq_some] at h
  obtain ⟨-, h⟩ := h
  obtain ⟨error, hstart⟩ | ⟨-, hstart⟩ :=
    ClientRequestManager.start_eq system.client socket onClosed
  · rw [hstart] at h
    obtain rfl := Option.some.inj h
    exact ordered
  · obtain ⟨connection, hcreate⟩ := create_of_start (congrArg Prod.fst hstart)
    rw [hstart, hcreate] at h
    obtain rfl := Option.some.inj h
    have hnew : (connection.post .startImpl).outbox = [] ∧ connection.handled = [] := by
      obtain ⟨-, rfl⟩ := Connection.create_eq_ok hcreate
      exact ⟨rfl, rfl⟩
    refine ordered.addLink ?_ ?_ ⟨?_, fun _ => hnew.1⟩ ⟨hnew.2, rfl⟩
    · exact List.map_append
    · exact Connection.framed_opened hcreate
    · rw [← hnew.1]
      exact List.prefix_append _ _

theorem Ordered.stop (ordered : Ordered hosts system) (safe : Safe hosts seen n system)
    (reason : String) : Ordered hosts (system.stop reason) := by
  simp only [System.stop]
  split
  next => exact ordered
  next link _ =>
    refine ordered.postLink safe link .stopImpl ?_
    have hsame : outgoings (system.client.stop reason) = outgoings system.client :=
      outgoings_step (e := .stop reason) rfl (fun _ _ h => by cases h) (fun _ h => by cases h)
    rw [hsame]
    exact (modify_append_nil _ _).symm

/-- What the connection is given to write is posted on it. -/
theorem Ordered.sendRequest (ordered : Ordered hosts system) (safe : Safe hosts seen n system)
    (request : ClientPayload) : Ordered hosts (system.sendRequest request) := by
  simp only [System.sendRequest]
  obtain ⟨what, hsend⟩ | ⟨link, hlink, -, hsend⟩ :=
    ClientRequestManager.send_cases system.client { payload := some request }
  · rw [hsend]
    cases system.client.connection with
    | none => exact ordered
    | some link => exact ordered
  · rw [hlink, hsend]
    exact ordered.postLink safe link _ (outgoings_sent _ _ _)

theorem outgoings_linkCloses (client : ClientRequestManager) (place : Nat) :
    outgoings (System.linkCloses client place) = outgoings client := by
  simp only [System.linkCloses]
  cases h : ClientRequestManager.step client (.linkCloses place) with
  | none => rfl
  | some t => exact outgoings_step h (fun _ _ h => by cases h) fun _ h => by cases h

theorem Ordered.advance (ordered : Ordered hosts system) (safe : Safe hosts seen n system)
    {place : Nat} {link : ClientLink} (get : system.links[place]? = some link)
    {event : Connection.Event ServerMessage ClientMessage}
    (internal : System.internal link event = true)
    {connection : Connection ServerMessage ClientMessage}
    (h : Connection.step hosts.client hosts.requests.serializeToString link.connection event =
      some connection) : Ordered hosts (system.advance place link connection) := by
  have hsends : event.sends = [] := by
    cases event with
    | post handler => cases internal
    | _ => rfl
  have hnone : Connection.arrived [event] = [] := by
    cases event with
    | readCompletes message => cases internal
    | _ => rfl
  have run : (Connection.step hosts.client hosts.requests.serializeToString).exec
      link.connection [event] = some connection := by
    rw [Machine.exec_cons, h]
    rfl
  refine ordered.modifyLink safe place ({ · with connection }) [] ?_ fun old hold => ?_
  · rw [modify_append_nil]
    split
    · exact outgoings_linkCloses _ _
    · rfl
  · obtain rfl := Option.some.inj (get.symm.trans hold)
    refine ⟨rfl, ⟨[event], run, ?_⟩, ?_⟩
    · rw [List.flatMap_singleton, hsends]
    · have hhandled := Connection.handled_exec hnone run
      obtain ⟨hempty, hzero⟩ | ⟨position, socket, peer, hsocket, hnumber, hpeer, received⟩ :=
        ordered.heard place _ get
      · exact .inl ⟨hhandled.trans hempty, hzero⟩
      · refine .inr ⟨position, socket, peer, hsocket, hnumber, hpeer, ?_⟩
        rw [hhandled]
        exact received.stays fun hopen => ⟨Connection.closed_exec run hopen, rfl⟩

/-- The next answer is read, and the handler has it unless the connection has closed. -/
theorem Ordered.read (lawful : hosts.Lawful) (ordered : Ordered hosts system)
    (safe : Safe hosts seen n system) {place position arrived : Nat} {link : ClientLink}
    {socket : ServerLink} {peer : Peer} (hlink : system.links[place]? = some link)
    (hsocket : system.sockets[position]? = some socket)
    (hpeer : system.server.connections[position]? = some peer)
    (hnumber : socket.socket = some link.socket)
    (h : system.read hosts place link peer arrived = some t) : Ordered hosts t := by
  have received := ordered.heard_from safe hlink hsocket hnumber hpeer
  simp only [System.read, Option.bind_eq_some_iff, Option.map_eq_some_iff] at h
  obtain ⟨⟨message, channel, consumed⟩, htransfer, connection, hconnection, rfl⟩ := h
  have run : (Connection.step hosts.client hosts.requests.serializeToString).exec
      link.connection [.readCompletes message] = some connection := by
    rw [Machine.exec_cons, hconnection]
    rfl
  refine ordered.modifyLink safe place _ [] (modify_append_nil _ _).symm fun link' hlink' => ?_
  obtain rfl := Option.some.inj (hlink.symm.trans hlink')
  refine ⟨rfl, ⟨[.readCompletes message], run, rfl⟩,
    .inr ⟨position, socket, peer, hsocket, hnumber, hpeer, ?_⟩⟩
  have hhandled : connection.handled = link.connection.handled ++
      if link.connection.closed then [] else [message] := Connection.handled_step hconnection
  change Received _ _ _ connection.handled connection.closed consumed
  rw [hhandled]
  cases hclosed : link.connection.closed with
  | true =>
    rw [if_pos rfl, List.append_nil]
    refine received.stays fun hopen => ?_
    rw [(Connection.frozen_exec hclosed run).closed] at hopen
    cases hopen
  | false =>
    rw [hclosed] at received
    exact transfer_next lawful.responses received (ordered.peers position peer hpeer).1
      htransfer _

theorem Ordered.receive (ordered : Ordered hosts system) (safe : Safe hosts seen n system)
    (place : Nat) (message : ServerMessage) :
    Ordered hosts
      { system with
        client := system.client.receive message
        links := system.links.modify place ({ · with handling := none }) } := by
  have hsame : outgoings (system.client.receive message) = outgoings system.client :=
    outgoings_step (e := .receive message) rfl (fun _ _ h => by cases h) (fun _ h => by cases h)
  refine ordered.modifyLink safe place _ [] ?_ fun link hlink =>
    ⟨rfl, ⟨[], rfl, rfl⟩, ordered.heard place link hlink⟩
  rw [hsame, modify_append_nil]

/-- Only `accept` makes a connection, and none is taken away. -/
theorem connections_length {e : Server.Event} {server : Server}
    (hstep : Server.step hosts.server hosts.responses.serializeToString system.server e =
      some server) (hnone : Server.accepts [e] = 0) :
    server.connections.length = system.server.connections.length := by
  refine Nat.le_antisymm (length_serve hstep hnone) ?_
  have hlength := (Server.effect_step hstep).length
  rwa [Server.standings, Server.standings, List.length_map, List.length_map] at hlength

/-- An event of the server that is no delivery from a connection of the client. -/
theorem Ordered.serve (ordered : Ordered hosts system) (safe : Safe hosts seen n system)
    {e : Server.Event} (h : system.serve hosts e = some t) (solicited : e.unsolicited = false)
    (hnone : Server.accepts [e] = 0)
    (unread : ∀ (position : Nat) socket, system.sockets[position]? = some socket →
      socket.socket ≠ none → ∀ m, e ≠ .deliver position m) : Ordered hosts t := by
  simp only [System.serve, Option.map_eq_some_iff] at h
  obtain ⟨server, hserver, rfl⟩ := h
  refine ordered.serverStep safe hserver solicited (fun i socket hi => ⟨socket, hi, rfl⟩) ?_
    fun position socket later hsocket hown hlater =>
      ordered.served_of_unread safe hserver solicited (unread position socket hsocket hown)
        hsocket hown hlater
  rw [connections_length hserver hnone, ordered.placed]

/-- The next request is read, and the handler has it unless the connection has closed. -/
theorem Ordered.deliver (lawful : hosts.Lawful) (ordered : Ordered hosts system)
    (safe : Safe hosts seen n system) {place position arrived : Nat} {link : ClientLink}
    {socket : ServerLink} (hlink : system.links[place]? = some link)
    (hsocket : system.sockets[position]? = some socket)
    (hnumber : socket.socket = some link.socket)
    (h : system.deliver hosts position socket link arrived = some t) : Ordered hosts t := by
  have hlt : position < system.server.connections.length := by
    rw [ordered.placed]
    exact (List.getElem?_eq_some_iff.mp hsocket).1
  obtain ⟨peer, hpeer⟩ : ∃ peer, system.server.connections[position]? = some peer :=
    ⟨_, List.getElem?_eq_getElem hlt⟩
  have received := ordered.served_from safe hlink hsocket hnumber hpeer
  simp only [System.deliver, Option.bind_eq_some_iff, System.serve, Option.map_eq_some_iff] at h
  obtain ⟨⟨message, channel, consumed⟩, htransfer, server, hserver, rfl⟩ := h
  have hothers : ∀ i : Nat, i ≠ position → ∀ m, Server.Event.deliver position message ≠
      .deliver i m := by
    intro i hi m heq
    exact hi (Server.Event.deliver.inj heq).1.symm
  refine ordered.serverStep safe hserver rfl ?kept ?placed ?served
  case kept =>
    intro i old hi
    rw [List.getElem?_modify, hi]
    refine ⟨_, rfl, ?_⟩
    split <;> rfl
  case placed =>
    rw [connections_length hserver rfl, List.length_modify, ordered.placed]
  case served =>
    intro i later peer' hlater hown' hpeer'
    rw [List.getElem?_modify] at hlater
    obtain ⟨old, hold, rfl⟩ := Option.map_eq_some_iff.mp hlater
    by_cases hi : position = i
    · subst hi
      obtain rfl := Option.some.inj (hsocket.symm.trans hold)
      rw [if_pos rfl]
      refine .inr ⟨place, link, hlink, hnumber, ?_⟩
      obtain ⟨later', es, hlater', run⟩ := Server.peer_later safe.linked hserver rfl hpeer
      obtain rfl := Option.some.inj (hpeer'.symm.trans hlater')
      obtain ⟨same, unread⟩ | ⟨m, event, live, grows, -⟩ :=
        (Server.handledStep safe.linked hserver hpeer').of_get hpeer
      · rw [same]
        refine received.stays fun hopen => ?_
        exact absurd rfl (unread (Connection.closed_exec run hopen) message)
      · obtain ⟨-, rfl⟩ := Server.Event.deliver.inj event
        rw [grows]
        rw [live] at received
        exact transfer_next lawful.requests received (ordered.framed place link hlink) htransfer _
    · rw [if_neg hi] at hown' ⊢
      exact ordered.served_of_unread safe hserver rfl (hothers i (Ne.symm hi)) hold hown' hpeer'

theorem Ordered.accept (ordered : Ordered hosts system) (safe : Safe hosts seen n system)
    {m : UInt32} {socket : Option Nat} (h : system.accept m socket = some t) :
    Ordered hosts t := by
  have hno : ∀ (position : Nat) message, Server.Event.accept m ≠ .deliver position message := by
    intro position message he
    cases he
  have hstep : Server.step hosts.server hosts.responses.serializeToString system.server
      (.accept m) = some (system.server.accept m).2 := rfl
  have hlength := length_accept system.server m
  simp only [System.accept, Option.ite_none_left_eq_some] at h
  obtain ⟨-, h⟩ := h
  split at h
  next created hcreate =>
    obtain rfl := Option.some.inj h
    rw [hcreate] at hlength
    refine ordered.serverStep safe hstep rfl ?kept ?placed ?served
    case kept =>
      intro i old hi
      have hlt := (List.getElem?_eq_some_iff.mp hi).1
      exact ⟨old, (List.getElem?_append_left hlt).trans hi, rfl⟩
    case placed =>
      rw [hlength, ordered.placed, List.length_append]
      rfl
    case served =>
      intro i socket' later hsocket hown hlater
      obtain hold | ⟨hi, rfl⟩ := getElem?_concat_cases hsocket
      · exact ordered.served_of_unread safe hstep rfl (hno i) hold hown hlater
      · cases Server.handledStep safe.linked hstep hlater with
        | created place none => exact .inl ⟨none, rfl⟩
        | unchanged peer get =>
          have hlt := (List.getElem?_eq_some_iff.mp get).1
          rw [hi, ordered.placed] at hlt
          exact absurd hlt (Nat.lt_irrefl _)
        | read peer message event => exact absurd event (hno i message)
  next hrefused =>
    obtain rfl := Option.some.inj h
    refine ordered.serverStep safe hstep rfl (fun i old hi => ⟨old, hi, rfl⟩) ?_
      fun i socket' later hsocket hown hlater =>
        ordered.served_of_unread safe hstep rfl (hno i) hsocket hown hlater
    rw [hlength, ← ordered.placed]
    split
    next created hcreate => exact absurd hcreate (hrefused created)
    next => rfl

/-- One event. -/
theorem Ordered.step (lawful : hosts.Lawful) (ordered : Ordered hosts system)
    (safe : Safe hosts seen n system) {e : System.Event}
    (hstep : System.step hosts system e = some t) : Ordered hosts t := by
  cases e with
  | start socket onClosed => exact ordered.start hstep
  | stop reason => exact Option.some.inj hstep ▸ ordered.stop safe reason
  | sendRequest request => exact Option.some.inj hstep ▸ ordered.sendRequest safe request
  | client event =>
    simp only [System.step, Option.ite_none_right_eq_some, Option.map_eq_some_iff] at hstep
    obtain ⟨hqueued, client, hclient, rfl⟩ := hstep
    refine ordered.clientStep (outgoings_step hclient ?_ ?_)
    · rintro socket onClosed rfl
      cases hqueued
    · rintro message rfl
      cases hqueued
  | link place event =>
    simp only [System.step] at hstep
    split at hstep
    · cases hstep
    next link hlink =>
      simp only [Option.ite_none_right_eq_some, Option.map_eq_some_iff] at hstep
      obtain ⟨hinternal, connection, hconnection, rfl⟩ := hstep
      exact ordered.advance safe hlink hinternal hconnection
  | read place position arrived =>
    simp only [System.step] at hstep
    split at hstep
    next link socket peer hlink hsocket hpeer =>
      simp only [Option.ite_none_right_eq_some] at hstep
      exact ordered.read lawful safe hlink hsocket hpeer hstep.1 hstep.2
    next => cases hstep
  | receive place =>
    simp only [System.step] at hstep
    split at hstep
    · cases hstep
    next link hlink =>
      obtain ⟨message, hmessage, rfl⟩ := Option.map_eq_some_iff.mp hstep
      exact ordered.receive safe place message
  | accept m socket => exact ordered.accept safe hstep
  | server event =>
    simp only [System.step, Option.ite_none_right_eq_some] at hstep
    obtain ⟨hown, hserve⟩ := hstep
    refine ordered.serve safe hserve ?_ ?_ ?_
    · cases event with
      | connection position event =>
        cases event with
        | post handler =>
          cases handler with
          | sendImpl message => cases hown
          | startImpl => rfl
          | stopImpl => rfl
        | _ => rfl
      | accept m => cases hown
      | deliver position message => cases hown
      | stopAll => rfl
    · cases event with
      | accept m => cases hown
      | _ => rfl
    · rintro position socket - - m rfl
      cases hown
  | deliver position place arrived =>
    simp only [System.step] at hstep
    split at hstep
    next socket link hsocket hlink =>
      simp only [Option.ite_none_right_eq_some] at hstep
      exact ordered.deliver lawful safe hlink hsocket hstep.1 hstep.2
    next => cases hstep
  | foreign position message =>
    simp only [System.step] at hstep
    split at hstep
    · cases hstep
    next socket hsocket =>
      simp only [Option.ite_none_right_eq_some] at hstep
      obtain ⟨hforeign, hserve⟩ := hstep
      refine ordered.serve safe hserve rfl rfl ?_
      rintro i socket' hsocket' hown m he
      obtain ⟨rfl, -⟩ := Server.Event.deliver.inj he
      obtain rfl := Option.some.inj (hsocket.symm.trans hsocket')
      exact hown hforeign

end Events

section Runs

variable {hosts : Hosts} {config : Config} {es : List System.Event} {system : System}

theorem ordered_initial (hosts : Hosts) (config : Config) :
    Ordered hosts (.initial config) where
  aligned := rfl
  placed := rfl
  framed _ _ h := by cases h
  sent _ _ _ h := by cases h
  heard _ _ h := by cases h
  peers _ _ h := by cases h
  served _ _ _ h := by cases h

theorem ordered_exec (lawful : hosts.Lawful)
    (run : (System.step hosts).exec (.initial config) es = some system)
    (few : System.accepts es < 65536) : Ordered hosts system := by
  refine Machine.exec_within (motive := fun _ system => Ordered hosts system)
    System.accepts_append (ordered_initial hosts config) ?_ run few
  intro es s e t hrun few ordered hstep
  exact ordered.step lawful (safe_exec lawful hrun (by omega)) hstep

/-- What the two ends of the client's connections have seen of each other. -/
structure InOrder (system : System) : Prop where
  /-- The messages the server has handled are the first ones that were sent. -/
  requests : ∀ (place position : Nat) link socket peer, system.links[place]? = some link →
    system.sockets[position]? = some socket → socket.socket = some link.socket →
    system.server.connections[position]? = some peer →
    ∃ state : Link, system.client.links[place]? = some state ∧
      peer.connection.handled <+: state.outgoing
  /-- The responses the client has handled answer the first messages that were sent, one
  after the other. -/
  responses : ∀ (place : Nat) link, system.links[place]? = some link →
    ∃ (state : Link) (requests : List ClientMessage), system.client.links[place]? = some state ∧
      requests <+: state.outgoing ∧
      List.Forall₂ Answered requests link.connection.handled

theorem Ordered.state (ordered : Ordered hosts system) {place : Nat} {link : ClientLink}
    (h : system.links[place]? = some link) :
    ∃ state : Link, system.client.links[place]? = some state ∧
      Sent link.connection state.outgoing := by
  have hlt := (List.getElem?_eq_some_iff.mp h).1
  rw [← ordered.aligned, outgoings, List.length_map] at hlt
  refine ⟨_, List.getElem?_eq_getElem hlt, ordered.sent place link _ h ?_⟩
  rw [outgoings, List.getElem?_map, List.getElem?_eq_getElem hlt, Option.map_some]

/-- On each connection the server has handled a first part of the messages that the client sent,
and the responses that the client has handled answer a first part of them, one each and in
their order. This holds after every run with fewer than 65536 accepted connections. -/
theorem responses_in_request_order (lawful : hosts.Lawful)
    (run : (System.step hosts).exec (.initial config) es = some system)
    (few : System.accepts es < 65536) : InOrder system := by
  have ordered := ordered_exec lawful run few
  have safe := safe_exec lawful run few
  constructor
  · intro place position link socket peer hlink hsocket hnumber hpeer
    obtain ⟨state, hstate, sent⟩ := ordered.state hlink
    exact ⟨state, hstate,
      (ordered.served_from safe hlink hsocket hnumber hpeer).handed.trans sent.accepted⟩
  · intro place link hlink
    obtain ⟨state, hstate, sent⟩ := ordered.state hlink
    obtain ⟨hnone, -⟩ | ⟨position, socket, peer, hsocket, hnumber, hpeer, received⟩ :=
      ordered.heard place link hlink
    · refine ⟨state, [], hstate, List.nil_prefix, ?_⟩
      rw [hnone]
      exact .nil
    · obtain ⟨answered, hanswered, all⟩ := (ordered.peers position peer hpeer).2.accepted
      obtain ⟨requests, hrequests, first⟩ :=
        Server.exists_answered_initial hanswered all received.handed
      have handled := (ordered.served_from safe hlink hsocket hnumber hpeer).handed
      exact ⟨state, requests, hstate, (hrequests.trans handled).trans sent.accepted, first⟩

/-- One write loop puts two messages of `n` bytes on the wire. -/
def writesBoth {ι ο : Type} (n : Nat) : List (Connection.Event ι ο) :=
  [.runPosted, .runPosted, .writerStarts 0, .writeSome 0 4, .writeCompletes 0, .writeSome 0 n,
    .writeCompletes 0, .writeSome 0 4, .writeCompletes 0, .writeSome 0 n, .writeCompletes 0]

/-- Two pings are sent before anything is written. -/
def bothSent : List System.Event :=
  [.start 0 true, .link 0 .runPosted, .link 0 .readerStarts, .accept 64 (some 0),
    .server (.connection 0 .runPosted), .server (.connection 0 .readerStarts),
    .sendRequest (.ping { timestamp := 7 }), .sendRequest (.ping { timestamp := 9 })]

/-- Both are on their way before the server reads the first one. -/
def carried : List System.Event :=
  List.flatten [(writesBoth 6).map (.link 0), [.deliver 0 0 10, .deliver 0 0 10],
    (writesBoth 8).map fun event => .server (.connection 0 event)]

def nextAnswer : List System.Event := [.read 0 0 12, .receive 0, .link 0 .handlerReturns]

/-- The client has handled the first answer, and the second one is on the wire. -/
theorem responses_in_request_order_bothSent :
    ∃ system, (System.step twoHosts).exec (.initial { maxMessageBytes := 64 })
        (bothSent ++ carried ++ nextAnswer) = some system ∧
      InOrder system ∧
      system.links.map (fun link => link.connection.handled.map ServerMessage.requestId) = [[1]] ∧
      system.server.connections.map
        (fun peer => peer.connection.handled.map ClientMessage.requestId) = [[1, 2]] := by
  have results : ((System.step twoHosts).exec (.initial { maxMessageBytes := 64 })
      (bothSent ++ carried ++ nextAnswer)).map (fun system =>
        (system.links.map fun link => link.connection.handled.map ServerMessage.requestId,
          system.server.connections.map
            fun peer => peer.connection.handled.map ClientMessage.requestId)) =
        some ([[1]], [[1, 2]]) := by
    decide +kernel
  obtain ⟨system, run, hresults⟩ := Option.map_eq_some_iff.mp results
  exact ⟨system, run, responses_in_request_order lawful_twoHosts run (by decide),
    congrArg Prod.fst hresults, congrArg Prod.snd hresults⟩

end Runs

end Stalker2D.EndToEnd
