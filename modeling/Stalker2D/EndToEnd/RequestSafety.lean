import Stalker2D.Client.RequestClosure
import Stalker2D.EndToEnd.System
import Stalker2D.Machine.Lists
import Stalker2D.Server.Network.Pipeline
import Stalker2D.Shared.WireFormat

/-!
# What `sendRequest` returns

Every response on its way to the client, posted, queued, on the wire or given to the
handler, is `Genuine`: it answers a request of this client, and in a world which that
request has seen unless it has ended. A timed-out request has ended, so a late answer to it
is still genuine, and its id keeps it from every other request. `Safe` says this of all the
places where responses are, with what the streams need: each side reads the stream of the
connection at the other end, from where a frame begins.
-/

namespace Stalker2D.EndToEnd

open Protocol Network Client Game

/-- What is known of generated code: parsing inverts serialising, and messages of more than
`INT_MAX` bytes are not serialised. -/
structure Protobuf.Lawful {μ : Type} (protobuf : Protobuf μ) : Prop where
  inverts : MessageChannel.Inverts protobuf.parseFromArray protobuf.serializeToString
  bounded : ∀ message data, protobuf.serializeToString message = some data →
    data.length ≤ 2147483647

structure Hosts.Lawful (hosts : Hosts) : Prop where
  requests : hosts.requests.Lawful
  responses : hosts.responses.Lawful

section Transfer

variable {ι ο : Type} {native native' : Endian} {protobuf : Protobuf ο}
variable {connection later : Connection ι ο}

/-- A place in the stream of a connection where all frames so far end. -/
def Boundary (native : Endian) (serialize : ο → Option (List UInt8))
    (connection : Connection ι ο) (consumed : Nat) : Prop :=
  ∃ j, consumed =
    (Connection.frames native serialize connection.codec (connection.accepted.take j)).length

theorem boundary_zero (native : Endian) (serialize : ο → Option (List UInt8))
    (connection : Connection ι ο) : Boundary native serialize connection 0 :=
  ⟨0, rfl⟩

/-- What is accepted later comes after it. -/
theorem Boundary.exec {serialize : ο → Option (List UInt8)} {consumed : Nat}
    (boundary : Boundary native serialize connection consumed)
    {es : List (Connection.Event ι ο)}
    (run : (Connection.step native serialize).exec connection es = some later) :
    Boundary native serialize later consumed := by
  obtain ⟨j, hj⟩ := boundary
  obtain ⟨hcodec, hgrows⟩ := Connection.lasting_exec run
  obtain ⟨accepted, haccepted⟩ := hgrows
  refine ⟨min j connection.accepted.length, ?_⟩
  rw [hj, hcodec, ← haccepted, List.take_append_of_le_length (Nat.min_le_right ..),
    ← List.take_eq_take_min]

/-- A message that is read was accepted at the other end, and the next read begins where
its frame ends. -/
theorem transfer_spec (lawful : protobuf.Lawful) {channel channel' : MessageChannel}
    {consumed consumed' arrived : Nat} {message : ο}
    (sent : connection.wire <+:
      Connection.frames native protobuf.serializeToString connection.codec connection.accepted)
    (boundary : Boundary native protobuf.serializeToString connection consumed)
    (h : transfer protobuf native' channel connection.wire consumed arrived =
      some (message, channel', consumed')) :
    message ∈ connection.accepted ∧
      Boundary native protobuf.serializeToString connection consumed' := by
  obtain ⟨j, hj⟩ := boundary
  have hsplit : Connection.frames native protobuf.serializeToString connection.codec
      connection.accepted =
        Connection.frames native protobuf.serializeToString connection.codec
          (connection.accepted.take j) ++
        Connection.frames native protobuf.serializeToString connection.codec
          (connection.accepted.drop j) := by
    rw [← Connection.frames_append, List.take_append_drop]
  have hstream : (connection.wire.drop consumed).take arrived <+:
      Connection.frames native protobuf.serializeToString connection.codec
        (connection.accepted.drop j) := by
    rw [hsplit] at sent
    rw [hj]
    exact (List.take_prefix _ _).trans (drop_length_of_append sent)
  simp only [transfer] at h
  split at h
  next message₁ channel₁ rest hread =>
    cases h
    obtain ⟨k, hk, hlength⟩ :=
      readMessage_sent lawful.inverts lawful.bounded hstream hread
    rw [List.getElem?_drop] at hk
    refine ⟨List.mem_of_getElem? hk, j + (k + 1), ?_⟩
    rw [List.take_add, Connection.frames_append, List.length_append, ← hj, hlength]
    omega
  next => cases h

end Transfer

section Client

variable {seen seen' : Nat → WorldService → Prop} {client t : ClientRequestManager}
variable {e : ClientRequestManager.Event} {response : ServerMessage} {message : ClientMessage}

/-- The message of a request. -/
def Requested (client : ClientRequestManager) (message : ClientMessage) : Prop :=
  ∃ (frame : Nat) (call : SendCall), client.calls[frame]? = some call ∧ call.message = message

/-- The answer to a request, out of a world it has seen unless it has ended. -/
def Genuine (seen : Nat → WorldService → Prop) (client : ClientRequestManager)
    (response : ServerMessage) : Prop :=
  ∃ (frame : Nat) (call : SendCall) (world : WorldService), client.calls[frame]? = some call ∧
    Answers world call.message response ∧ (call.result = none → seen frame world)

/-- What the rest of the system needs of the manager, and what it gives. -/
structure ClientSafe (seen : Nat → WorldService → Prop) (client : ClientRequestManager) :
    Prop where
  wellFormed : client.WellFormed
  numbered : client.Numbered
  payload : ∀ (frame : Nat) call, client.calls[frame]? = some call → call.message.payload ≠ none
  completed : client.calls.length < UInt64.size → ∀ (frame : Nat) call response,
    client.calls[frame]? = some call → call.pending.response = some response →
    ∃ world, seen frame world ∧ Answers world call.message response

theorem Genuine.mono (more : ∀ frame world, seen frame world → seen' frame world)
    (genuine : Genuine seen client response) : Genuine seen' client response := by
  obtain ⟨frame, call, world, hcall, answers, hseen⟩ := genuine
  exact ⟨frame, call, world, hcall, answers, fun hnone => more frame world (hseen hnone)⟩

theorem ClientSafe.mono (more : ∀ frame world, seen frame world → seen' frame world)
    (safe : ClientSafe seen client) : ClientSafe seen' client where
  wellFormed := safe.wellFormed
  numbered := safe.numbered
  payload := safe.payload
  completed few frame call response hcall hresponse := by
    obtain ⟨world, hseen, answers⟩ := safe.completed few frame call response hcall hresponse
    exact ⟨world, more frame world hseen, answers⟩

theorem requested_sent (client : ClientRequestManager) (link : Nat) (message : ClientMessage) :
    Requested (client.sent link message) (client.stamp message) :=
  ⟨client.calls.length, { message := client.stamp message, sentAt := client.received.length },
    List.getElem?_concat_length, rfl⟩

theorem Requested.step (wf : client.WellFormed) (hstep : client.step e = some t)
    (requested : Requested client message) : Requested t message := by
  obtain ⟨frame, call, hcall, hmessage⟩ := requested
  obtain ⟨later, hlater, follows⟩ := wf.follows_step hstep hcall
  exact ⟨frame, later, hlater, follows.message.trans hmessage⟩

theorem Genuine.step (wf : client.WellFormed) (hstep : client.step e = some t)
    (genuine : Genuine seen client response) : Genuine seen t response := by
  obtain ⟨frame, call, world, hcall, answers, hseen⟩ := genuine
  obtain ⟨later, hlater, follows⟩ := wf.follows_step hstep hcall
  refine ⟨frame, later, world, hlater, follows.message ▸ answers, fun hnone => hseen ?_⟩
  by_contra hended
  rw [follows.finished hended] at hnone
  exact hended hnone

/-- A frame of `t` is an old one or the one that `send` has just added. -/
theorem frame_step (hstep : client.step e = some t) {frame : Nat} {call : SendCall}
    (h : t.calls[frame]? = some call) :
    (∃ old, client.calls[frame]? = some old ∧ client.Becomes e frame old call) ∨
      ∃ message, e = .send message ∧ call.message = client.stamp message ∧
        call.pending.response = none := by
  by_cases hlt : frame < client.calls.length
  · have hold := List.getElem?_eq_getElem hlt
    exact .inl ⟨_, hold, ClientRequestManager.becomes_step hstep hold h⟩
  · have hframe := (List.getElem?_eq_some_iff.mp h).1
    obtain ⟨hlength, -⟩ | ⟨link, message, he, -, rfl⟩ :=
      ClientRequestManager.calls_length_step hstep
    · omega
    · rw [ClientRequestManager.calls_sent, List.length_append, List.length_singleton] at hframe
      obtain rfl : frame = client.calls.length := by omega
      rw [ClientRequestManager.calls_sent, List.getElem?_concat_length] at h
      obtain rfl := Option.some.inj h
      exact .inr ⟨message, he, rfl, rfl⟩

theorem length_step (hstep : client.step e = some t) :
    client.calls.length ≤ t.calls.length := by
  obtain ⟨hlength, -⟩ | ⟨link, message, -, -, rfl⟩ :=
    ClientRequestManager.calls_length_step hstep
  · exact Nat.le_of_eq hlength.symm
  · rw [ClientRequestManager.calls_sent, List.length_append]
    exact Nat.le_add_right _ _

/-- A genuine response completes the request it answers and no other. -/
theorem ClientSafe.step (safe : ClientSafe seen client) (hstep : client.step e = some t)
    (received : ∀ response, e = .receive response → Genuine seen client response)
    (requests : ∀ message, e = .send message → message.payload ≠ none) : ClientSafe seen t where
  wellFormed := ClientRequestManager.invariant_wellFormed _ _ _ safe.wellFormed hstep
  numbered := ClientRequestManager.numbered_step safe.wellFormed safe.numbered hstep
  payload frame call h := by
    obtain ⟨old, hold, -⟩ | ⟨message, he, hmessage, -⟩ := frame_step hstep h
    · obtain ⟨later, hlater, follows⟩ := safe.wellFormed.follows_step hstep hold
      obtain rfl := Option.some.inj (h.symm.trans hlater)
      rw [follows.message]
      exact safe.payload frame old hold
    · rw [hmessage]
      exact requests message he
  completed few frame call response h hresponse := by
    have hfew := Nat.lt_of_le_of_lt (length_step hstep) few
    obtain ⟨old, hold, becomes⟩ | ⟨message, -, -, hnone⟩ := frame_step hstep h
    · have before := safe.completed hfew frame old response hold
      cases becomes with
      | same => exact before hresponse
      | failed reason =>
        by_cases hw : old.pending.state = .waiting
        · rw [SendCall.fail_of_waiting hw] at hresponse ⊢
          exact before hresponse
        · rw [SendCall.fail_of_ne hw] at hresponse ⊢
          exact before hresponse
      | completed message he mapped =>
        by_cases hw : old.pending.state = .waiting
        · rw [SendCall.complete_of_waiting hw] at hresponse ⊢
          obtain rfl := Option.some.inj hresponse
          -- the id leads from the response to one request only
          obtain ⟨answered, call, world, hcall, answers, hseen⟩ := received message he
          obtain ⟨unfinished, hid⟩ := safe.wellFormed.unfinished mapped hold
          obtain rfl := safe.numbered.distinct hfew hold hcall (hid.trans answers.1)
          obtain rfl := Option.some.inj (hold.symm.trans hcall)
          exact ⟨world, hseen unfinished, answers⟩
        · rw [SendCall.complete_of_ne hw] at hresponse ⊢
          exact before hresponse
      | expired => exact before hresponse
      | ended => exact before hresponse
    · rw [hnone] at hresponse
      cases hresponse

end Client

section Parts

variable {hosts : Hosts} {seen seen' : Nat → WorldService → Prop} {n : Nat} {system : System}

/-- How far the client has read the stream on a socket. -/
def ReadTo (hosts : Hosts) (system : System) (number consumed : Nat) : Prop :=
  consumed = 0 ∨ ∃ (position : Nat) (socket : ServerLink) (peer : Peer),
    system.sockets[position]? = some socket ∧ socket.socket = some number ∧
      system.server.connections[position]? = some peer ∧
      Boundary hosts.server hosts.responses.serializeToString peer.connection consumed

/-- How far the server has. -/
def ServedTo (hosts : Hosts) (system : System) (number : Option Nat) (consumed : Nat) : Prop :=
  consumed = 0 ∨ ∃ (place : Nat) (link : ClientLink), system.links[place]? = some link ∧
    number = some link.socket ∧
      Boundary hosts.client hosts.requests.serializeToString link.connection consumed

structure LinkSafe (hosts : Hosts) (seen : Nat → WorldService → Prop) (system : System)
    (link : ClientLink) : Prop where
  orderly : link.connection.Orderly hosts.client hosts.requests.serializeToString
  outbox : ∀ message ∈ link.connection.outbox, Requested system.client message
  handling : ∀ response, link.handling = some response → Genuine seen system.client response
  reads : ReadTo hosts system link.socket link.consumed

/-- The invariant, after `n` accepted connections. -/
structure Safe (hosts : Hosts) (seen : Nat → WorldService → Prop) (n : Nat) (system : System) :
    Prop where
  client : ClientSafe seen system.client
  linked : system.server.Linked
  counted : system.server.Counted n
  length : system.server.connections.length ≤ system.sockets.length
  links : ∀ (place : Nat) link, system.links[place]? = some link →
    LinkSafe hosts seen system link
  peers : ∀ (position : Nat) peer, system.server.connections[position]? = some peer →
    peer.connection.Orderly hosts.server hosts.responses.serializeToString
  serves : ∀ (position : Nat) socket, system.sockets[position]? = some socket →
    ServedTo hosts system socket.socket socket.consumed
  answers : ∀ (position : Nat) socket peer, system.sockets[position]? = some socket →
    socket.socket ≠ none → system.server.connections[position]? = some peer →
    ∀ response ∈ peer.connection.outbox, Genuine seen system.client response
  oneLink : ∀ (i j : Nat) a b, system.links[i]? = some a → system.links[j]? = some b →
    a.socket = b.socket → i = j
  oneSocket : ∀ (i j : Nat) a b, system.sockets[i]? = some a → system.sockets[j]? = some b →
    a.socket ≠ none → a.socket = b.socket → i = j

theorem Safe.mono (more : ∀ frame world, seen frame world → seen' frame world)
    (safe : Safe hosts seen n system) : Safe hosts seen' n system where
  client := safe.client.mono more
  linked := safe.linked
  counted := safe.counted
  length := safe.length
  links place link h :=
    have link := safe.links place link h
    ⟨link.orderly, link.outbox, fun r hr => (link.handling r hr).mono more, link.reads⟩
  peers := safe.peers
  serves := safe.serves
  answers position socket peer h hown h' r hr :=
    (safe.answers position socket peer h hown h' r hr).mono more
  oneLink := safe.oneLink
  oneSocket := safe.oneSocket

/-- The manager alone moves. -/
theorem Safe.clientStep (safe : Safe hosts seen n system) {e : ClientRequestManager.Event}
    {client : ClientRequestManager} (hstep : system.client.step e = some client)
    (received : ∀ response, e = .receive response → Genuine seen system.client response)
    (requests : ∀ message, e = .send message → message.payload ≠ none) :
    Safe hosts seen n { system with client } where
  client := safe.client.step hstep received requests
  linked := safe.linked
  counted := safe.counted
  length := safe.length
  links place link h :=
    have wf := safe.client.wellFormed
    have link := safe.links place link h
    ⟨link.orderly, fun m hm => (link.outbox m hm).step wf hstep,
      fun r hr => (link.handling r hr).step wf hstep, link.reads⟩
  peers := safe.peers
  serves := safe.serves
  answers position socket peer h hown h' r hr :=
    (safe.answers position socket peer h hown h' r hr).step safe.client.wellFormed hstep
  oneLink := safe.oneLink
  oneSocket := safe.oneSocket

/-- An event that neither sends a request nor receives a response. -/
def quiet : ClientRequestManager.Event → Bool
  | .send _ | .receive _ => false
  | _ => true

theorem Safe.quietStep (safe : Safe hosts seen n system) {e : ClientRequestManager.Event}
    {client : ClientRequestManager} (hstep : system.client.step e = some client)
    (hquiet : quiet e = true) : Safe hosts seen n { system with client } := by
  refine safe.clientStep hstep ?_ ?_
  · rintro response rfl
    cases hquiet
  · rintro message rfl
    cases hquiet

/-- What may become of a connection of the client. -/
structure LinkMoves (hosts : Hosts) (seen : Nat → WorldService → Prop) (system : System)
    (link later : ClientLink) : Prop where
  socket : later.socket = link.socket
  run : ∃ es, (Connection.step hosts.client hosts.requests.serializeToString).exec
      link.connection es = some later.connection ∧
    ∀ message ∈ es.flatMap Connection.Event.sends, Requested system.client message
  handling : ∀ response, later.handling = some response → Genuine seen system.client response
  reads : ReadTo hosts system later.socket later.consumed

theorem LinkSafe.same {link : ClientLink} (safe : LinkSafe hosts seen system link) :
    LinkMoves hosts seen system link link :=
  ⟨rfl, ⟨[], rfl, fun _ h => by cases h⟩, safe.handling, safe.reads⟩

theorem LinkSafe.moves {link later : ClientLink} (safe : LinkSafe hosts seen system link)
    (moves : LinkMoves hosts seen system link later) : LinkSafe hosts seen system later where
  orderly := by
    obtain ⟨es, run, -⟩ := moves.run
    exact Connection.invariant_orderly.exec safe.orderly run
  outbox message hmessage := by
    obtain ⟨es, run, sends⟩ := moves.run
    obtain hold | hnew := List.mem_append.mp ((Connection.outbox_exec run).1.subset hmessage)
    · exact safe.outbox message hold
    · exact sends message hnew
  handling := moves.handling
  reads := moves.reads

/-- One of these connections moves. -/
theorem Safe.modifyLink (safe : Safe hosts seen n system) (place : Nat)
    (f : ClientLink → ClientLink) (moves : ∀ link, system.links[place]? = some link →
      LinkMoves hosts seen system link (f link)) :
    Safe hosts seen n { system with links := system.links.modify place f } := by
  have later : ∀ (i : Nat) link, system.links[i]? = some link →
      ∃ later, (system.links.modify place f)[i]? = some later ∧
        LinkMoves hosts seen system link later := by
    intro i link h
    rw [List.getElem?_modify, h]
    refine ⟨_, rfl, ?_⟩
    split
    next hi => exact moves link (hi ▸ h)
    next => exact (safe.links i link h).same
  have earlier : ∀ (i : Nat) later, (system.links.modify place f)[i]? = some later →
      ∃ link, system.links[i]? = some link ∧ LinkMoves hosts seen system link later := by
    intro i after h
    have hlt := (List.getElem?_eq_some_iff.mp h).1
    rw [List.length_modify] at hlt
    obtain ⟨after', hafter, hmoves⟩ := later i _ (List.getElem?_eq_getElem hlt)
    obtain rfl := Option.some.inj (h.symm.trans hafter)
    exact ⟨_, List.getElem?_eq_getElem hlt, hmoves⟩
  refine ⟨safe.client, safe.linked, safe.counted, safe.length, ?links, safe.peers, ?serves,
    safe.answers, ?oneLink, safe.oneSocket⟩
  case links =>
    intro i after h
    obtain ⟨link, hlink, hmoves⟩ := earlier i after h
    have after := (safe.links i link hlink).moves hmoves
    exact ⟨after.orderly, after.outbox, after.handling, after.reads⟩
  case serves =>
    intro position socket h
    obtain hzero | ⟨i, link, hlink, hsocket, boundary⟩ := safe.serves position socket h
    · exact .inl hzero
    · obtain ⟨after, hafter, hmoves⟩ := later i link hlink
      obtain ⟨es, run, -⟩ := hmoves.run
      exact .inr ⟨i, after, hafter, hsocket.trans (congrArg some hmoves.socket.symm),
        boundary.exec run⟩
  case oneLink =>
    intro i j a b ha hb hab
    obtain ⟨a', ha', hmoves⟩ := earlier i a ha
    obtain ⟨b', hb', hmoves'⟩ := earlier j b hb
    exact safe.oneLink i j a' b' ha' hb' (hmoves.socket.symm.trans (hab.trans hmoves'.socket))

/-- A new connection of the client, on a socket no other has. -/
theorem Safe.addLink (safe : Safe hosts seen n system) {link : ClientLink}
    (fresh : link.socket ∉ system.links.map ClientLink.socket)
    (new : LinkSafe hosts seen system link) :
    Safe hosts seen n { system with links := system.links ++ [link] } := by
  have hfresh : ∀ (i : Nat) a, system.links[i]? = some a → a.socket ≠ link.socket := by
    intro i a h hsame
    exact fresh (List.mem_map.mpr ⟨a, List.mem_of_getElem? h, hsame⟩)
  refine ⟨safe.client, safe.linked, safe.counted, safe.length, ?links, safe.peers, ?serves,
    safe.answers, ?oneLink, safe.oneSocket⟩
  case links =>
    intro i a h
    obtain hold | ⟨-, rfl⟩ := getElem?_concat_cases h
    · have old := safe.links i a hold
      exact ⟨old.orderly, old.outbox, old.handling, old.reads⟩
    · exact ⟨new.orderly, new.outbox, new.handling, new.reads⟩
  case serves =>
    intro position socket h
    obtain hzero | ⟨i, a, ha, hsocket, boundary⟩ := safe.serves position socket h
    · exact .inl hzero
    · have hlt := (List.getElem?_eq_some_iff.mp ha).1
      exact .inr ⟨i, a, (List.getElem?_append_left hlt).trans ha, hsocket, boundary⟩
  case oneLink =>
    intro i j a b ha hb hab
    obtain hold | ⟨rfl, rfl⟩ := getElem?_concat_cases ha
    · obtain hold' | ⟨-, rfl⟩ := getElem?_concat_cases hb
      · exact safe.oneLink i j a b hold hold' hab
      · exact absurd hab (hfresh i a hold)
    · obtain hold' | ⟨rfl, -⟩ := getElem?_concat_cases hb
      · exact absurd hab.symm (hfresh j b hold')
      · rfl

/-- The server has another socket, before there is a connection for it. -/
theorem Safe.addSocket (safe : Safe hosts seen n system) {socket : ServerLink}
    (fresh : socket.socket ≠ none → socket.socket ∉ system.sockets.map ServerLink.socket)
    (unread : socket.consumed = 0) :
    Safe hosts seen n { system with sockets := system.sockets ++ [socket] } := by
  have hfresh : ∀ (i : Nat) a, system.sockets[i]? = some a → a.socket ≠ none →
      a.socket ≠ socket.socket := by
    intro i a h hown hsame
    exact fresh (hsame ▸ hown) (List.mem_map.mpr ⟨a, List.mem_of_getElem? h, hsame⟩)
  refine ⟨safe.client, safe.linked, safe.counted, ?length, ?links, safe.peers, ?serves, ?answers,
    safe.oneLink, ?oneSocket⟩
  case length =>
    rw [List.length_append]
    exact Nat.le_add_right_of_le safe.length
  case links =>
    intro place link h
    have link := safe.links place link h
    refine ⟨link.orderly, link.outbox, link.handling, ?_⟩
    obtain hzero | ⟨position, a, peer, ha, rest⟩ := link.reads
    · exact .inl hzero
    · have hlt := (List.getElem?_eq_some_iff.mp ha).1
      exact .inr ⟨position, a, peer, (List.getElem?_append_left hlt).trans ha, rest⟩
  case serves =>
    intro position a h
    obtain hold | ⟨-, rfl⟩ := getElem?_concat_cases h
    · exact safe.serves position a hold
    · exact .inl unread
  case answers =>
    intro position a peer h hown hpeer
    obtain hold | ⟨rfl, -⟩ := getElem?_concat_cases h
    · exact safe.answers position a peer hold hown hpeer
    · have hlt := (List.getElem?_eq_some_iff.mp hpeer).1
      exact absurd (Nat.lt_of_lt_of_le hlt safe.length) (Nat.lt_irrefl _)
  case oneSocket =>
    intro i j a b ha hb hown hab
    obtain hold | ⟨rfl, rfl⟩ := getElem?_concat_cases ha
    · obtain hold' | ⟨-, rfl⟩ := getElem?_concat_cases hb
      · exact safe.oneSocket i j a b hold hold' hown hab
      · exact absurd hab (hfresh i a hold hown)
    · obtain hold' | ⟨rfl, -⟩ := getElem?_concat_cases hb
      · exact absurd hab.symm (hfresh j b hold' (hab ▸ hown))
      · rfl

/-- The server has read on. -/
theorem Safe.readSocket (safe : Safe hosts seen n system) (position : Nat)
    (channel : MessageChannel) (consumed : Nat)
    (serves : ∀ socket, system.sockets[position]? = some socket →
      ServedTo hosts system socket.socket consumed) :
    Safe hosts seen n
      { system with
        sockets := system.sockets.modify position ({ · with channel, consumed }) } := by
  have earlier : ∀ (i : Nat) later,
      (system.sockets.modify position ({ · with channel, consumed }))[i]? = some later →
      ∃ socket, system.sockets[i]? = some socket ∧ later.socket = socket.socket ∧
        ServedTo hosts system later.socket later.consumed := by
    intro i later h
    rw [List.getElem?_modify] at h
    obtain ⟨socket, hsocket, rfl⟩ := Option.map_eq_some_iff.mp h
    refine ⟨socket, hsocket, ?_⟩
    split
    next hi => exact ⟨rfl, serves socket (hi ▸ hsocket)⟩
    next => exact ⟨rfl, safe.serves i socket hsocket⟩
  have later : ∀ (i : Nat) socket, system.sockets[i]? = some socket → ∃ later,
      (system.sockets.modify position ({ · with channel, consumed }))[i]? = some later ∧
        later.socket = socket.socket := by
    intro i socket h
    rw [List.getElem?_modify, h]
    refine ⟨_, rfl, ?_⟩
    split <;> rfl
  refine ⟨safe.client, safe.linked, safe.counted, ?length, ?links, safe.peers, ?serves, ?answers,
    safe.oneLink, ?oneSocket⟩
  case length =>
    rw [List.length_modify]
    exact safe.length
  case links =>
    intro place link h
    have link := safe.links place link h
    refine ⟨link.orderly, link.outbox, link.handling, ?_⟩
    obtain hzero | ⟨i, socket, peer, hsocket, hnumber, rest⟩ := link.reads
    · exact .inl hzero
    · obtain ⟨later, hlater, hsame⟩ := later i socket hsocket
      exact .inr ⟨i, later, peer, hlater, hsame.trans hnumber, rest⟩
  case serves =>
    intro i later h
    obtain ⟨-, -, -, serves⟩ := earlier i later h
    exact serves
  case answers =>
    intro i later peer h hown
    obtain ⟨socket, hsocket, hsame, -⟩ := earlier i later h
    exact safe.answers i socket peer hsocket (hsame ▸ hown)
  case oneSocket =>
    intro i j a b ha hb hown hab
    obtain ⟨a', ha', hsame, -⟩ := earlier i a ha
    obtain ⟨b', hb', hsame', -⟩ := earlier j b hb
    exact safe.oneSocket i j a' b' ha' hb' (hsame ▸ hown) (hsame.symm.trans (hab.trans hsame'))

/-- The server alone moves: what it posts on the connections of this client are answers to
requests of this client. -/
theorem Safe.serverStep (safe : Safe hosts seen n system) {e : Server.Event} {server : Server}
    (hstep : Server.step hosts.server hosts.responses.serializeToString system.server e =
      some server)
    (solicited : e.unsolicited = false) (few : n + Server.accepts [e] < 65536)
    (length : server.connections.length ≤ system.sockets.length)
    (now : ∀ (frame : Nat) call, system.client.calls[frame]? = some call → call.result = none →
      seen frame server.world)
    (requested : ∀ position message, e = .deliver position message →
      ∀ socket, system.sockets[position]? = some socket → socket.socket ≠ none →
        Requested system.client message) :
    Safe hosts seen (n + Server.accepts [e]) { system with server } := by
  refine ⟨safe.client, Server.linked_step safe.linked (safe.counted.not_reuses few) hstep,
    safe.counted.step few (Server.effect_step hstep), length, ?links, ?peers, ?serves, ?answers,
    safe.oneLink, safe.oneSocket⟩
  case links =>
    intro place link h
    have link := safe.links place link h
    refine ⟨link.orderly, link.outbox, link.handling, ?_⟩
    obtain hzero | ⟨position, socket, peer, hsocket, hnumber, hpeer, boundary⟩ := link.reads
    · exact .inl hzero
    · obtain ⟨later, es, hlater, run⟩ := Server.peer_later safe.linked hstep solicited hpeer
      exact .inr ⟨position, socket, later, hsocket, hnumber, hlater, boundary.exec run⟩
  case peers =>
    intro position later h
    cases Server.peerStep safe.linked hstep solicited h with
    | created m connection event place create after =>
      rw [after]
      exact Connection.invariant_orderly _ (.post .startImpl) _
        (Connection.orderly_create create) rfl
    | quiet peer es get run =>
      exact Connection.invariant_orderly.exec (safe.peers position peer get) run
    | answered peer es m r event get run =>
      exact Connection.invariant_orderly.exec (safe.peers position peer get) run
  case serves => exact safe.serves
  case answers =>
    intro position socket later hsocket hown h response hresponse
    cases Server.peerStep safe.linked hstep solicited h with
    | created m connection event place create after =>
      obtain ⟨-, rfl⟩ := Connection.create_eq_ok create
      rw [after] at hresponse
      cases hresponse
    | quiet peer es get run silent =>
      have hmem := (Connection.outbox_exec run).1.subset hresponse
      rw [silent, List.append_nil] at hmem
      exact safe.answers position socket peer hsocket hown get response hmem
    | answered peer es m r event get run answers sends =>
      have hmem := (Connection.outbox_exec run).1.subset hresponse
      rw [sends] at hmem
      obtain hold | hnew := List.mem_append.mp hmem
      · exact safe.answers position socket peer hsocket hown get response hold
      · obtain rfl := List.mem_singleton.mp hnew
        obtain ⟨frame, call, hcall, rfl⟩ := requested position m event socket hsocket hown
        exact ⟨frame, call, server.world, hcall, answers, now frame call hcall⟩

end Parts

section Events

variable {hosts : Hosts} {seen : Nat → WorldService → Prop} {n : Nat} {system t : System}

theorem Safe.postLink (safe : Safe hosts seen n system) (place : Nat)
    (handler : Posted ClientMessage)
    (requested : ∀ message, handler = .sendImpl message → Requested system.client message) :
    Safe hosts seen n (system.postLink place handler) := by
  refine safe.modifyLink place _ fun link h => ?_
  have link := safe.links place link h
  refine ⟨rfl, ⟨[.post handler], rfl, fun message hmessage => ?_⟩, link.handling, link.reads⟩
  rw [List.flatMap_singleton] at hmessage
  cases handler with
  | startImpl => cases hmessage
  | stopImpl => cases hmessage
  | sendImpl sent =>
    obtain rfl := List.mem_singleton.mp hmessage
    exact requested _ rfl

theorem Safe.start (safe : Safe hosts seen n system) {socket : Nat} {onClosed : Bool}
    (h : system.start socket onClosed = some t) : Safe hosts seen n t := by
  have started : Safe hosts seen n
      { system with client := (system.client.start socket onClosed).2 } :=
    safe.quietStep (e := .start socket onClosed) rfl rfl
  simp only [System.start, Option.ite_none_left_eq_some] at h
  obtain ⟨hfresh, h⟩ := h
  split at h
  next client connection hstart hcreate =>
    obtain rfl := Option.some.inj h
    rw [hstart] at started
    refine started.addLink hfresh ⟨?_, ?_, ?_, .inl rfl⟩
    · exact Connection.invariant_orderly _ (.post .startImpl) _
        (Connection.orderly_create hcreate) rfl
    · intro message hmessage
      obtain ⟨-, rfl⟩ := Connection.create_eq_ok hcreate
      cases hmessage
    · intro response hresponse
      cases hresponse
  next client hstart _ =>
    obtain rfl := Option.some.inj h
    rw [hstart] at started
    exact started

theorem Safe.stop (safe : Safe hosts seen n system) (reason : String) :
    Safe hosts seen n (system.stop reason) := by
  simp only [System.stop]
  split
  next => exact safe
  next link _ =>
    have stopped : Safe hosts seen n { system with client := system.client.stop reason } :=
      safe.quietStep (e := .stop reason) rfl rfl
    exact stopped.postLink link .stopImpl fun message h => by cases h

/-- The message that is posted is that of the frame `send` leaves behind. -/
theorem Safe.sendRequest (safe : Safe hosts seen n system) (request : ClientPayload) :
    Safe hosts seen n (system.sendRequest request) := by
  have sent : Safe hosts seen n
      { system with client := (system.client.send { payload := some request }).2 } := by
    refine safe.clientStep (e := .send { payload := some request }) rfl ?_ ?_
    · intro response he
      cases he
    · intro message he
      cases he
      intro hnone
      cases hnone
  simp only [System.sendRequest]
  split
  next link _ client _ hsend =>
    rw [hsend] at sent
    refine sent.postLink link _ fun message hmessage => ?_
    obtain rfl := Posted.sendImpl.inj hmessage
    obtain ⟨what, h⟩ | ⟨link', -, -, h⟩ :=
      ClientRequestManager.send_cases system.client { payload := some request }
    · rw [hsend] at h
      cases h
    · obtain rfl := (Prod.mk.inj (hsend.symm.trans h)).2
      exact requested_sent system.client link' { payload := some request }
  next client hsend _ =>
    rw [hsend] at sent
    exact sent

theorem Safe.linkCloses (safe : Safe hosts seen n system) (place : Nat) :
    Safe hosts seen n { system with client := System.linkCloses system.client place } := by
  simp only [System.linkCloses]
  cases h : ClientRequestManager.step system.client (.linkCloses place) with
  | none => exact safe
  | some client => exact safe.quietStep h rfl

theorem Safe.advance (safe : Safe hosts seen n system) {place : Nat} {link : ClientLink}
    (get : system.links[place]? = some link)
    {event : Connection.Event ServerMessage ClientMessage}
    (internal : System.internal link event = true)
    {connection : Connection ServerMessage ClientMessage}
    (h : Connection.step hosts.client hosts.requests.serializeToString link.connection event =
      some connection) : Safe hosts seen n (system.advance place link connection) := by
  have moved : Safe hosts seen n
      { system with links := system.links.modify place ({ · with connection }) } := by
    refine safe.modifyLink place _ fun old hold => ?_
    obtain rfl := Option.some.inj (get.symm.trans hold)
    have old := safe.links place _ get
    refine ⟨rfl, ⟨[event], ?_, ?_⟩, old.handling, old.reads⟩
    · rw [Machine.exec_cons, h]
      rfl
    · intro message hmessage
      cases event with
      | post handler => cases internal
      | _ => cases hmessage
  simp only [System.advance]
  split
  · exact moved.linkCloses place
  · exact moved

/-- What the client reads was posted as an answer to it. -/
theorem Safe.read (lawful : hosts.Lawful) (safe : Safe hosts seen n system)
    {place position arrived : Nat} {link : ClientLink} {socket : ServerLink} {peer : Peer}
    (hlink : system.links[place]? = some link) (hsocket : system.sockets[position]? = some socket)
    (hpeer : system.server.connections[position]? = some peer)
    (hnumber : socket.socket = some link.socket)
    (h : system.read hosts place link peer arrived = some t) : Safe hosts seen n t := by
  have hown : socket.socket ≠ none := by
    rw [hnumber]
    exact Option.some_ne_none _
  have old := safe.links place link hlink
  have boundary : Boundary hosts.server hosts.responses.serializeToString peer.connection
      link.consumed := by
    obtain hzero | ⟨position', socket', peer', hsocket', hnumber', hpeer', boundary⟩ := old.reads
    · rw [hzero]
      exact boundary_zero _ _ _
    · obtain rfl := safe.oneSocket _ _ _ _ hsocket hsocket' hown (hnumber.trans hnumber'.symm)
      obtain rfl := Option.some.inj (hpeer.symm.trans hpeer')
      exact boundary
  simp only [System.read, Option.bind_eq_some_iff, Option.map_eq_some_iff] at h
  obtain ⟨⟨message, channel, consumed⟩, htransfer, connection, hconnection, rfl⟩ := h
  obtain ⟨hmem, hboundary⟩ :=
    transfer_spec lawful.responses (safe.peers position peer hpeer).sent boundary htransfer
  refine safe.modifyLink place _ fun link' hlink' => ?_
  obtain rfl := Option.some.inj (hlink.symm.trans hlink')
  refine ⟨rfl, ⟨[.readCompletes message], ?_, fun m hm => by cases hm⟩, ?_,
    .inr ⟨position, socket, peer, hsocket, hnumber, hpeer, hboundary⟩⟩
  · rw [Machine.exec_cons, hconnection]
    rfl
  · intro response hresponse
    have hmessage : message = response := by
      simp only [Option.ite_none_left_eq_some, Option.some.injEq] at hresponse
      exact hresponse.2
    exact safe.answers position socket peer hsocket hown hpeer response
      (List.mem_append_left _ (hmessage ▸ hmem))

theorem Safe.receive (safe : Safe hosts seen n system) {place : Nat} {link : ClientLink}
    (hlink : system.links[place]? = some link) {message : ServerMessage}
    (hmessage : link.handling = some message) :
    Safe hosts seen n
      { system with
        client := system.client.receive message
        links := system.links.modify place ({ · with handling := none }) } := by
  have received : Safe hosts seen n { system with client := system.client.receive message } := by
    refine safe.clientStep (e := .receive message) rfl ?_ ?_
    · intro response he
      cases he
      exact (safe.links place link hlink).handling message hmessage
    · intro request he
      cases he
  refine received.modifyLink place _ fun link' hlink' => ?_
  have link' := received.links place link' hlink'
  exact ⟨rfl, ⟨[], rfl, fun m hm => by cases hm⟩, fun r hr => (by cases hr), link'.reads⟩

/-- Only `accept` makes a connection. -/
theorem length_serve {e : Server.Event} {server : Server}
    (hstep : Server.step hosts.server hosts.responses.serializeToString system.server e =
      some server) (hnone : Server.accepts [e] = 0) :
    server.connections.length ≤ system.server.connections.length := by
  by_contra hlt
  have hget : server.standings[system.server.connections.length]? = some _ :=
    Server.standings_getElem? (List.getElem?_eq_getElem (Nat.lt_of_not_le hlt))
  obtain ⟨a, ha, -⟩ | ⟨-, -, hone, -⟩ := (Server.effect_step hstep).standing_inv hget
  · have hlength := (List.getElem?_eq_some_iff.mp ha).1
    rw [Server.standings, List.length_map] at hlength
    exact Nat.lt_irrefl _ hlength
  · omega

theorem Safe.serve (safe : Safe hosts seen n system) {e : Server.Event}
    (h : system.serve hosts e = some t) (solicited : e.unsolicited = false)
    (few : n < 65536) (hnone : Server.accepts [e] = 0)
    (now : ∀ (frame : Nat) call, t.client.calls[frame]? = some call → call.result = none →
      seen frame t.server.world)
    (requested : ∀ position message, e = .deliver position message →
      ∀ socket, system.sockets[position]? = some socket → socket.socket ≠ none →
        Requested system.client message) : Safe hosts seen n t := by
  simp only [System.serve, Option.map_eq_some_iff] at h
  obtain ⟨server, hserver, rfl⟩ := h
  have served := safe.serverStep hserver solicited (by omega)
    (Nat.le_trans (length_serve hserver hnone) safe.length) now requested
  rwa [hnone] at served

/-- What the server reads is a request of the client. -/
theorem Safe.deliver (lawful : hosts.Lawful) (safe : Safe hosts seen n system)
    {place position arrived : Nat} {link : ClientLink} {socket : ServerLink}
    (hlink : system.links[place]? = some link) (hsocket : system.sockets[position]? = some socket)
    (hnumber : socket.socket = some link.socket)
    (h : system.deliver hosts position socket link arrived = some t) (few : n < 65536)
    (now : ∀ (frame : Nat) call, t.client.calls[frame]? = some call → call.result = none →
      seen frame t.server.world) : Safe hosts seen n t := by
  have old := safe.links place link hlink
  have boundary : Boundary hosts.client hosts.requests.serializeToString link.connection
      socket.consumed := by
    obtain hzero | ⟨place', link', hlink', hnumber', boundary⟩ :=
      safe.serves position socket hsocket
    · rw [hzero]
      exact boundary_zero _ _ _
    · obtain rfl := safe.oneLink _ _ _ _ hlink hlink'
        (Option.some.inj (hnumber.symm.trans hnumber'))
      obtain rfl := Option.some.inj (hlink.symm.trans hlink')
      exact boundary
  simp only [System.deliver, Option.bind_eq_some_iff] at h
  obtain ⟨⟨message, channel, consumed⟩, htransfer, hserve⟩ := h
  obtain ⟨hmem, hboundary⟩ := transfer_spec lawful.requests old.orderly.sent boundary htransfer
  have read := safe.readSocket position channel consumed fun socket' hsocket' => by
    obtain rfl := Option.some.inj (hsocket.symm.trans hsocket')
    exact .inr ⟨place, link, hlink, hnumber, hboundary⟩
  refine read.serve hserve rfl few rfl now fun position' message' he _ _ _ => ?_
  obtain ⟨-, rfl⟩ := Server.Event.deliver.inj he
  exact old.outbox message (List.mem_append_left _ hmem)

/-- A socket without a connection takes no place. -/
theorem length_accept (server : Server) (m : UInt32) :
    (server.accept m).2.connections.length =
      match (server.manager.create server.connections.length m).1 with
      | .ok (some _) => server.connections.length + 1
      | _ => server.connections.length := by
  simp only [Server.accept]
  split
  next h => rw [h]
  next h => rw [h]
  next h =>
    rw [h, List.length_append]
    rfl

theorem Safe.accept (safe : Safe hosts seen n system) {m : UInt32} {socket : Option Nat}
    (h : system.accept m socket = some t) (few : n + 1 < 65536)
    (now : ∀ (frame : Nat) call, t.client.calls[frame]? = some call → call.result = none →
      seen frame t.server.world) : Safe hosts seen (n + 1) t := by
  have hno : ∀ (position : Nat) message, Server.Event.accept m ≠ .deliver position message := by
    intro position message he
    cases he
  have hlength := length_accept system.server m
  simp only [System.accept, Option.ite_none_left_eq_some] at h
  obtain ⟨hfresh, h⟩ := h
  split at h
  next created hcreate =>
    obtain rfl := Option.some.inj h
    rw [hcreate] at hlength
    have added : Safe hosts seen n
        { system with sockets := system.sockets ++ [{ socket, channel := .create m }] } :=
      safe.addSocket (fun hown hmem => hfresh ⟨hown, hmem⟩) rfl
    refine added.serverStep (e := .accept m) rfl rfl few ?_ now fun position message he =>
      absurd he (hno position message)
    rw [hlength, List.length_append]
    exact Nat.add_le_add_right safe.length 1
  next hrefused =>
    obtain rfl := Option.some.inj h
    refine safe.serverStep (e := .accept m) rfl rfl few ?_ now fun position message he =>
      absurd he (hno position message)
    rw [hlength]
    split
    next created hcreate => exact absurd hcreate (hrefused created)
    next => exact safe.length

/-- One event. -/
theorem Safe.step (lawful : hosts.Lawful) (safe : Safe hosts seen n system) {e : System.Event}
    (hstep : System.step hosts system e = some t) (few : n + System.accepts [e] < 65536)
    (now : ∀ (frame : Nat) call, t.client.calls[frame]? = some call → call.result = none →
      seen frame t.server.world) : Safe hosts seen (n + System.accepts [e]) t := by
  cases e with
  | start socket onClosed => exact safe.start hstep
  | stop reason => exact Option.some.inj hstep ▸ safe.stop reason
  | sendRequest request => exact Option.some.inj hstep ▸ safe.sendRequest request
  | client event =>
    simp only [System.step, Option.ite_none_right_eq_some, Option.map_eq_some_iff] at hstep
    obtain ⟨hqueued, client, hclient, rfl⟩ := hstep
    refine safe.quietStep hclient ?_
    cases event with
    | send message => cases hqueued
    | receive response => cases hqueued
    | _ => rfl
  | link place event =>
    simp only [System.step] at hstep
    split at hstep
    · cases hstep
    next link hlink =>
      simp only [Option.ite_none_right_eq_some, Option.map_eq_some_iff] at hstep
      obtain ⟨hinternal, connection, hconnection, rfl⟩ := hstep
      exact safe.advance hlink hinternal hconnection
  | read place position arrived =>
    simp only [System.step] at hstep
    split at hstep
    next link socket peer hlink hsocket hpeer =>
      simp only [Option.ite_none_right_eq_some] at hstep
      exact safe.read lawful hlink hsocket hpeer hstep.1 hstep.2
    next => cases hstep
  | receive place =>
    simp only [System.step] at hstep
    split at hstep
    · cases hstep
    next link hlink =>
      obtain ⟨message, hmessage, rfl⟩ := Option.map_eq_some_iff.mp hstep
      exact safe.receive hlink hmessage
  | accept m socket => exact safe.accept hstep few now
  | server event =>
    simp only [System.step, Option.ite_none_right_eq_some] at hstep
    obtain ⟨hown, hserve⟩ := hstep
    refine safe.serve hserve ?_ few ?_ now ?_
    · cases event with
      | connection position event =>
        cases event with
        | post handler =>
          cases handler with
          | sendImpl message => cases hown
          | startImpl => rfl
          | stopImpl => rfl
        | _ => rfl
      | accept m => cases hown
      | deliver position message => cases hown
      | stopAll => rfl
    · cases event with
      | accept m => cases hown
      | _ => rfl
    · rintro position message rfl
      cases hown
  | deliver position place arrived =>
    simp only [System.step] at hstep
    split at hstep
    next socket link hsocket hlink =>
      simp only [Option.ite_none_right_eq_some] at hstep
      exact safe.deliver lawful hlink hsocket hstep.1 hstep.2 few now
    next => cases hstep
  | foreign position message =>
    simp only [System.step] at hstep
    split at hstep
    · cases hstep
    next socket hsocket =>
      simp only [Option.ite_none_right_eq_some] at hstep
      obtain ⟨hforeign, hserve⟩ := hstep
      refine safe.serve hserve rfl few rfl now fun position' message' he socket' hsocket' hown => ?_
      obtain ⟨rfl, -⟩ := Server.Event.deliver.inj he
      obtain rfl := Option.some.inj (hsocket.symm.trans hsocket')
      exact absurd hforeign hown

end Events

/-- The world of the server at a moment of a run at which a request had been sent and had
not returned. -/
def Seen (hosts : Hosts) (config : Config) (es : List System.Event) (frame : Nat)
    (world : WorldService) : Prop :=
  ∃ before after moment call, es = before ++ after ∧
    (System.step hosts).exec (.initial config) before = some moment ∧
    moment.client.calls[frame]? = some call ∧ call.result = none ∧ moment.server.world = world

/-- What `sendRequest` makes of the responses that `send` returns: never an error. -/
structure RequestSafe (hosts : Hosts) (config : Config) (es : List System.Event)
    (system : System) : Prop where
  payload : ∀ (frame : Nat) call, system.client.calls[frame]? = some call →
    call.message.payload ≠ none
  ping : ∀ (frame : Nat) call request response, system.client.calls[frame]? = some call →
    call.message.payload = some (.ping request) → call.result = some (.ok response) →
    ClientRequestManager.responseOf (.ping request) response =
      .ok (.pong { timestamp := request.timestamp })
  stateSnapshot : ∀ (frame : Nat) call response, system.client.calls[frame]? = some call →
    call.message.payload = some .stateSnapshot → call.result = some (.ok response) →
    ∃ world, Seen hosts config es frame world ∧
      ClientRequestManager.responseOf .stateSnapshot response =
        .ok (.stateSnapshot { stateJson := world.snapshotJson })

section Runs

variable {hosts : Hosts} {config : Config} {es : List System.Event} {system : System}

theorem safe_initial (hosts : Hosts) (seen : Nat → WorldService → Prop) (config : Config) :
    Safe hosts seen 0 (.initial config) where
  client :=
    { wellFormed := ClientRequestManager.wellFormed_initial config
      numbered := ClientRequestManager.numbered_initial config
      payload := fun _ _ h => by cases h
      completed := fun _ _ _ _ h => by cases h }
  linked := Server.linked_initial
  counted := Server.counted_initial
  length := Nat.le_refl _
  links _ _ h := by cases h
  peers _ _ h := by cases h
  serves _ _ h := by cases h
  answers _ _ _ h := by cases h
  oneLink _ _ _ _ h := by cases h
  oneSocket _ _ _ _ h := by cases h

theorem safe_exec (lawful : hosts.Lawful)
    (run : (System.step hosts).exec (.initial config) es = some system)
    (few : System.accepts es < 65536) :
    Safe hosts (Seen hosts config es) (System.accepts es) system := by
  refine Machine.exec_within
    (motive := fun es system => Safe hosts (Seen hosts config es) (System.accepts es) system)
    System.accepts_append (safe_initial hosts _ config) ?_ run few
  intro es s e t hrun few safe hstep
  rw [System.accepts_append]
  have more : ∀ frame world, Seen hosts config es frame world →
      Seen hosts config (es ++ [e]) frame world := by
    rintro frame world ⟨before, after, moment, call, rfl, rest⟩
    exact ⟨before, after ++ [e], moment, call, List.append_assoc .., rest⟩
  refine (safe.mono more).step lawful hstep few fun frame call hcall hnone => ?_
  exact ⟨es ++ [e], [], t, call, (List.append_nil _).symm,
    Machine.exec_concat_eq_some.mpr ⟨s, hrun, hstep⟩, hcall, hnone, rfl⟩

/-- A ping that succeeds returns a pong with its own timestamp, and a snapshot that succeeds shows
the world of the server as it was at some moment between the call and the return. This holds
after every run with fewer than 65536 accepted connections and fewer than `2 ^ 64` requests. -/
theorem requests_safe (lawful : hosts.Lawful)
    (run : (System.step hosts).exec (.initial config) es = some system)
    (few : System.accepts es < 65536) (numbered : system.client.calls.length < UInt64.size) :
    RequestSafe hosts config es system := by
  have safe := (safe_exec lawful run few).client
  have answered : ∀ (frame : Nat) call response, system.client.calls[frame]? = some call →
      call.result = some (.ok response) →
      ∃ world, Seen hosts config es frame world ∧ Answers world call.message response := by
    intro frame call response hcall hresult
    obtain ⟨hresponse, -⟩ := (safe.wellFormed.calls frame call hcall).finished response hresult
    exact safe.completed numbered frame call response hcall hresponse
  refine ⟨safe.payload, ?ping, ?stateSnapshot⟩
  case ping =>
    intro frame call request response hcall hpayload hresult
    obtain ⟨world, -, -, answers⟩ := answered frame call response hcall hresult
    rw [hpayload] at answers
    simp [ClientRequestManager.responseOf, answers.1, answers.2]
  case stateSnapshot =>
    intro frame call response hcall hpayload hresult
    obtain ⟨world, hseen, -, answers⟩ := answered frame call response hcall hresult
    rw [hpayload] at answers
    refine ⟨world, hseen, ?_⟩
    simp [ClientRequestManager.responseOf, answers.1, answers.2]

end Runs

section Tables

variable {μ : Type} [DecidableEq μ]

/-- The generated code on a few messages. -/
def tabled (encode : μ → List UInt8) (messages : List μ) : Protobuf μ where
  serializeToString message := if message ∈ messages then some (encode message) else none
  parseFromArray data _ := messages.find? (encode · = data)

theorem lawful_tabled {encode : μ → List UInt8} {messages : List μ}
    (inverts : ∀ message ∈ messages, messages.find? (encode · = encode message) = some message)
    (bounded : ∀ message ∈ messages, (encode message).length ≤ 2147483647) :
    (tabled encode messages).Lawful := by
  constructor
  · intro message data size h hsize
    obtain ⟨hmem, hdata⟩ := Option.ite_none_right_eq_some.mp h
    obtain rfl := Option.some.inj hdata
    exact inverts message hmem
  · intro message data h
    obtain ⟨hmem, hdata⟩ := Option.ite_none_right_eq_some.mp h
    obtain rfl := Option.some.inj hdata
    exact bounded message hmem

/-- Two hosts of different byte orders, with the encodings of two pings, a request for a
snapshot and the answers to them. -/
def twoHosts : Hosts where
  client := .little
  server := .big
  requests := tabled ClientMessage.encode
    [{ requestId := 1, payload := some (.ping { timestamp := 7 }) },
      { requestId := 2, payload := some (.ping { timestamp := 9 }) },
      { requestId := 3, payload := some .stateSnapshot }]
  responses := tabled ServerMessage.encode
    [{ requestId := 1, status := .ok, payload := some (.pong { timestamp := 7 }) },
      { requestId := 2, status := .ok, payload := some (.pong { timestamp := 9 }) },
      { requestId := 3
        status := .ok
        payload := some (.stateSnapshot { stateJson := Ledger.twoPlayers }) }]

theorem lawful_twoHosts : twoHosts.Lawful :=
  ⟨lawful_tabled (by decide +kernel) (by decide +kernel),
    lawful_tabled (by decide +kernel) (by decide +kernel)⟩

/-- The `i`-th write loop of a connection puts a message of `n` bytes on the wire. -/
def writes {ι ο : Type} (i n : Nat) : List (Connection.Event ι ο) :=
  [.runPosted, .writerStarts i, .writeSome i 4, .writeCompletes i, .writeSome i n,
    .writeCompletes i]

def clientWrites (i n : Nat) : List System.Event := (writes i n).map (.link 0)

def serverWrites (i n : Nat) : List System.Event :=
  (writes i n).map fun event => .server (.connection 0 event)

/-- The first ping times out, and its answer arrives while the second one waits. Another
client uses the id of the first. In the end a snapshot shows the players of both. -/
def lateAnswer : List System.Event :=
  List.flatten
    [[.start 0 true, .link 0 .runPosted, .link 0 .readerStarts, .accept 256 (some 0),
        .server (.connection 0 .runPosted), .server (.connection 0 .readerStarts),
        .sendRequest (.ping { timestamp := 7 })],
      clientWrites 0 6,
      [.accept 256 none, .server (.connection 1 .runPosted), .server (.connection 1 .readerStarts),
        .foreign 1 { requestId := 1, payload := some (.ping {}) }, .deliver 0 0 10],
      serverWrites 0 8,
      [.client (.timerExpires 0), .client (.resume 0), .sendRequest (.ping { timestamp := 9 }),
        .read 0 0 12, .receive 0, .link 0 .handlerReturns],
      clientWrites 1 6, [.deliver 0 0 10], serverWrites 1 8,
      [.read 0 0 12, .receive 0, .client (.resume 1), .link 0 .handlerReturns,
        .sendRequest .stateSnapshot],
      clientWrites 2 4, [.deliver 0 0 8], serverWrites 2 142,
      [.read 0 0 146, .receive 0, .client (.resume 2)]]

/-- How the three requests ended. -/
def lateResults : List (Option (Except Exception ServerMessage)) :=
  [some (.error (.runtimeError "Request timed out")),
    some (.ok { requestId := 2, status := .ok, payload := some (.pong { timestamp := 9 }) }),
    some (.ok
      { requestId := 3
        status := .ok
        payload := some (.stateSnapshot { stateJson := Ledger.twoPlayers }) })]

theorem requests_safe_lateAnswer :
    ∃ system, (System.step twoHosts).exec (.initial { maxMessageBytes := 256 }) lateAnswer =
        some system ∧
      RequestSafe twoHosts { maxMessageBytes := 256 } lateAnswer system ∧
      system.client.calls.map SendCall.result = lateResults := by
  have results : ((System.step twoHosts).exec (.initial { maxMessageBytes := 256 })
      lateAnswer).map (fun system => system.client.calls.map SendCall.result) =
        some lateResults := by
    decide +kernel
  obtain ⟨system, run, hresults⟩ := Option.map_eq_some_iff.mp results
  have numbered : system.client.calls.length < UInt64.size := by
    rw [← List.length_map SendCall.result, hresults]
    decide
  exact ⟨system, run, requests_safe lawful_twoHosts run (by decide) numbered, hresults⟩

end Tables

end Stalker2D.EndToEnd
