import Stalker2D.Client.RequestClosure
import Stalker2D.EndToEnd.RequestOrder
import Stalker2D.EndToEnd.SystemSteps
import Stalker2D.Shared.Progress

/-!
# Nothing is left unanswered

A connection of the client and its other end get on by `progress` events: posted handlers
run, bytes are written and arrive, messages are read and handled. These events cannot go on
for ever, and where none of them can happen, while both ends are open and the server runs,
every request that was sent on the connection has been answered, in order, and none of them
still waits for its answer.
-/

namespace Stalker2D.EndToEnd

open Protocol Network Client Game Machine

section Client

variable {client t : ClientRequestManager} {e : ClientRequestManager.Event}

/-- What was received stays received. -/
theorem received_step (hstep : client.step e = some t) :
    t.received = client.received ∨
      ∃ response, e = .receive response ∧ t.received = client.received ++ [response] := by
  cases ClientRequestManager.step_cases hstep with
  | start socket onClosed =>
    obtain h | h := ClientRequestManager.start_cases client socket onClosed
    · exact .inl (by rw [h])
    · exact .inl (by rw [h])
  | stop reason =>
    obtain h | ⟨link, -, h⟩ := ClientRequestManager.stop_cases client reason
    · exact .inl (by rw [h])
    · rw [h]
      exact .inl rfl
  | send message =>
    obtain ⟨what, h⟩ | ⟨link, -, -, h⟩ := ClientRequestManager.send_cases client message
    · exact .inl (by rw [h])
    · rw [h]
      exact .inl rfl
  | receive message =>
    exact .inr ⟨message, rfl, ClientRequestManager.received_receive client message⟩
  | timerExpires frame => exact .inl rfl
  | resume frame call error =>
    exact .inl (ClientRequestManager.received_resumeSend client frame call error)
  | linkCloses link => exact .inl rfl
  | closeNotification link => exact .inl rfl

/-- The id of a response is that of a request. -/
def Known (client : ClientRequestManager) (response : ServerMessage) : Prop :=
  ∃ (frame : Nat) (call : SendCall), client.calls[frame]? = some call ∧
    call.message.requestId = response.requestId

theorem Known.step (wf : client.WellFormed) (hstep : client.step e = some t)
    {response : ServerMessage} (known : Known client response) : Known t response := by
  obtain ⟨frame, call, hcall, hid⟩ := known
  obtain ⟨later, hlater, follows⟩ := wf.follows_step hstep hcall
  exact ⟨frame, later, hlater, follows.message ▸ hid⟩

/-- A request whose response has been received waits no longer. -/
structure Settled (client : ClientRequestManager) : Prop where
  tracked : ∃ journal : Journal, journal.manager = client ∧ journal.Tracked
  known : ∀ response ∈ client.received, Known client response
  settled : client.calls.length < UInt64.size → ∀ response ∈ client.received,
    ∀ (frame : Nat) call, client.calls[frame]? = some call →
      call.message.requestId = response.requestId →
      call.pending.state ≠ .waiting ∨ call.result ≠ none

theorem settled_initial (config : Config) : Settled { config } where
  tracked := ⟨{ manager := { config } }, rfl, Journal.tracked_initial config⟩
  known _ h := by cases h
  settled _ _ h := by cases h

theorem Settled.step (settled : Settled client) (hstep : client.step e = some t)
    (known : ∀ response, e = .receive response → Known client response) : Settled t := by
  obtain ⟨⟨manager, sentOn⟩, rfl, tracked⟩ := settled.tracked
  have wf := tracked.wellFormed
  have later : ∃ journal : Journal, journal.manager = t ∧ journal.Tracked := by
    obtain ⟨journal, hjournal, rfl⟩ : ∃ journal, Journal.step ⟨manager, sentOn⟩ e = some journal ∧
        journal.manager = t := by
      simp only [Journal.step, hstep, Option.map_some]
      exact ⟨_, rfl, rfl⟩
    exact ⟨journal, rfl, tracked.step hjournal⟩
  have all : ∀ response ∈ t.received, Known manager response := by
    intro response hmem
    obtain hsame | ⟨message, he, hgrows⟩ := received_step hstep
    · exact settled.known response (hsame ▸ hmem)
    · rw [hgrows] at hmem
      obtain hold | hnew := List.mem_append.mp hmem
      · exact settled.known response hold
      · obtain rfl := List.mem_singleton.mp hnew
        exact known _ he
  refine ⟨later, fun response hmem => (all response hmem).step wf hstep, ?_⟩
  intro few response hmem frame call hcall hid
  by_contra hwaits
  simp only [not_or, not_not] at hwaits
  obtain ⟨hwaiting, hunfinished⟩ := hwaits
  have fewBefore := Nat.lt_of_le_of_lt (length_step hstep) few
  cases hold : manager.calls[frame]? with
  | some old =>
    have becomes := ClientRequestManager.becomes_step hstep hold hcall
    have hmessage : call.message = old.message := by
      obtain ⟨later, hlater, follows⟩ := wf.follows_step hstep hold
      obtain rfl := Option.some.inj (hcall.symm.trans hlater)
      exact follows.message
    have hbefore : response ∈ manager.received → False := by
      intro hreceived
      obtain hstate | hresult :=
        settled.settled fewBefore response hreceived frame old hold (hmessage ▸ hid)
      · exact hstate (becomes.waiting hwaiting)
      · exact hresult (becomes.unfinished hunfinished)
    obtain hsame | ⟨received, rfl, hgrows⟩ := received_step hstep
    · exact hbefore (hsame ▸ hmem)
    · rw [hgrows] at hmem
      obtain hmem | hmem := List.mem_append.mp hmem
      · exact hbefore hmem
      · -- the response that is received now finds its request in the map
        obtain rfl := List.mem_singleton.mp hmem
        have hmapped := tracked.entered fewBefore frame old hold (becomes.unfinished hunfinished)
        rw [← hmessage, hid] at hmapped
        obtain rfl := Option.some.inj hstep
        rw [ClientRequestManager.calls_receive, hold, Option.map_some, if_pos hmapped] at hcall
        obtain rfl := Option.some.inj hcall
        exact SendCall.state_of_complete hwaiting
  | none =>
    -- a request that is sent now has an id of its own
    obtain ⟨frame', old, hold', hid'⟩ := all response hmem
    obtain ⟨later, hlater, follows⟩ := wf.follows_step hstep hold'
    have numbered := ClientRequestManager.numbered_step wf tracked.numbered hstep
    have hsame := numbered.distinct few hcall hlater (by rw [follows.message, hid, hid'])
    rw [hsame, hold'] at hold
    cases hold

end Client

section Parts

variable {hosts : Hosts} {system t : System} {e : System.Event}

/-- The read side of a connection of the client. -/
structure LinkAttended (system : System) (link : ClientLink) : Prop where
  attended : link.connection.Attended
  codec : link.channel.frameCodec = link.connection.codec
  handling : link.handling ≠ none → link.connection.reader = .handling
  taken : ∀ response ∈ link.connection.handled,
    link.handling = some response ∨ response ∈ system.client.received

/-- The parts of the system are ready for what may come. -/
structure Attending (system : System) : Prop where
  client : Settled system.client
  links : ∀ (place : Nat) link, system.links[place]? = some link → LinkAttended system link
  peers : ∀ (position : Nat) peer, system.server.connections[position]? = some peer →
    peer.connection.Attended ∧ peer.connection.reader ≠ .handling
  codecs : ∀ (position : Nat) socket peer, system.sockets[position]? = some socket →
    system.server.connections[position]? = some peer →
    socket.channel.frameCodec = peer.connection.codec

/-- The connection moves by itself. -/
theorem LinkAttended.moves {link later : ClientLink} (old : LinkAttended system link)
    (received : ∀ response ∈ system.client.received, response ∈ t.client.received)
    {event : Connection.Event ServerMessage ClientMessage}
    (hconnection : Connection.step hosts.client hosts.requests.serializeToString
      link.connection event = some later.connection)
    (unread : Connection.arrived [event] = [])
    (returns : Connection.completed [event] ≠ 0 → link.handling = none)
    (after : later = { link with connection := later.connection }) : LinkAttended t later := by
  have hhandled : later.connection.handled = link.connection.handled := by
    rw [Connection.handled_step hconnection, unread, ite_self, List.append_nil]
  have hhandling : later.handling = link.handling := by rw [after]
  refine ⟨old.attended.step hconnection, ?codec, ?handling, ?taken⟩
  case codec =>
    rw [(Connection.limits_step hconnection).1, after]
    exact old.codec
  case handling =>
    intro hne
    rw [hhandling] at hne
    have hreader := old.handling hne
    obtain ⟨same, -⟩ | ⟨-, hstarted, -⟩ | ⟨-, hspawned, -⟩ | ⟨message, rfl, -⟩ |
      ⟨-, hreading, -⟩ | ⟨rfl, -⟩ | ⟨rfl, -⟩ := Connection.read_cases hconnection
    · exact same.reader.trans hreader
    · have habsent := old.attended.unstarted hstarted
      rw [hreader] at habsent
      cases habsent
    · rw [hreader] at hspawned
      cases hspawned
    · cases unread
    · rw [hreader] at hreading
      cases hreading
    · exact absurd (returns Nat.one_ne_zero) hne
    · exact absurd (returns Nat.one_ne_zero) hne
  case taken =>
    intro response hmem
    rw [hhandled] at hmem
    rw [hhandling]
    exact (old.taken response hmem).imp_right (received response)

/-- A read completes, so the handler has taken up everything before it. -/
theorem LinkAttended.reads {link later : ClientLink} (old : LinkAttended system link)
    (received : ∀ response ∈ system.client.received, response ∈ t.client.received)
    {message : ServerMessage}
    (hconnection : Connection.step hosts.client hosts.requests.serializeToString
      link.connection (.readCompletes message) = some later.connection)
    (channel : later.channel.frameCodec = link.channel.frameCodec)
    (after : later.handling = if later.connection.closed then none else some message) :
    LinkAttended t later := by
  have hreading : link.connection.reader = .reading ∧
      later.connection = link.connection.readMessage message := by
    simp only [Connection.step, Option.ite_none_right_eq_some, Option.some.injEq] at hconnection
    exact ⟨hconnection.1, hconnection.2.symm⟩
  have hidle : link.handling = none := by
    by_contra hne
    have hhandling := old.handling hne
    rw [hreading.1] at hhandling
    cases hhandling
  have htaken : ∀ response ∈ link.connection.handled, response ∈ t.client.received := by
    intro response hmem
    obtain h | h := old.taken response hmem
    · rw [hidle] at h
      cases h
    · exact received response h
  refine ⟨old.attended.step hconnection, ?codec, ?handling, ?taken⟩
  case codec =>
    rw [(Connection.limits_step hconnection).1, channel]
    exact old.codec
  case handling =>
    intro hne
    rw [after] at hne
    rw [hreading.2, Connection.readMessage] at hne ⊢
    split
    next hclosed => simp [hclosed] at hne
    next => rfl
  case taken =>
    intro response hmem
    have hhandled : later.connection.handled = link.connection.handled ++
        if link.connection.closed then [] else [message] := Connection.handled_step hconnection
    rw [hhandled] at hmem
    obtain hmem | hmem := List.mem_append.mp hmem
    · exact .inr (htaken response hmem)
    · left
      cases hclosed : link.connection.closed with
      | true =>
        rw [hclosed] at hmem
        cases hmem
      | false =>
        rw [hclosed] at hmem
        obtain rfl := List.mem_singleton.mp hmem
        rw [after, hreading.2, Connection.readMessage, hclosed]
        simp

theorem LinkAttended.step
    (before : ∀ (place : Nat) link, system.links[place]? = some link → LinkAttended system link)
    (received : ∀ response ∈ system.client.received, response ∈ t.client.received)
    {place : Nat} {later : ClientLink} (step : LinkStep hosts system t place later) :
    LinkAttended t later := by
  cases step with
  | created connection config create after channel idle =>
    have hconnection : connection.codec = later.connection.codec ∧
        later.connection.handled = [] := by
      obtain ⟨-, rfl⟩ := Connection.create_eq_ok create
      rw [after]
      exact ⟨rfl, rfl⟩
    refine ⟨?_, channel.trans hconnection.1, fun hne => absurd idle hne, ?_⟩
    · rw [after]
      exact Connection.attended_create create
    · intro response hmem
      rw [hconnection.2] at hmem
      cases hmem
  | same get =>
    have old := before place later get
    exact ⟨old.attended, old.codec, old.handling, fun response hmem =>
      (old.taken response hmem).imp_right (received response)⟩
  | moves link event get hconnection unread returns after =>
    exact (before place link get).moves received hconnection unread returns after
  | reads link message get hconnection channel after =>
    exact (before place link get).reads received hconnection channel after
  | receives link message get handling grows after =>
    have old := before place link get
    rw [after]
    refine ⟨old.attended, old.codec, fun hne => absurd rfl hne, fun response hmem => .inr ?_⟩
    obtain h | h := old.taken response hmem
    · obtain rfl := Option.some.inj (handling.symm.trans h)
      rw [grows]
      exact List.mem_append_right _ (List.mem_singleton_self _)
    · exact received response h

theorem attending_initial (config : Config) : Attending (.initial config) where
  client := settled_initial config
  links _ _ h := by cases h
  peers _ _ h := by cases h
  codecs _ _ _ h := by cases h

variable {seen : Nat → WorldService → Prop} {n : Nat}

theorem Attending.step (attending : Attending system) (safe : Safe hosts seen n system)
    (ordered : Ordered hosts system) (hstep : System.step hosts system e = some t) :
    Attending t := by
  have received : ∀ response ∈ system.client.received, response ∈ t.client.received := by
    intro response hmem
    obtain hsame | ⟨event, hevent, -⟩ := client_step hstep
    · rwa [hsame]
    · obtain hsame | ⟨message, -, hgrows⟩ := received_step hevent
      · rwa [hsame]
      · rw [hgrows]
        exact List.mem_append_left _ hmem
  refine ⟨?client, ?links, ?peers, ?codecs⟩
  case client =>
    obtain hsame | ⟨event, hevent, hreceive⟩ := client_step hstep
    · exact hsame ▸ attending.client
    · refine attending.client.step hevent fun response he => ?_
      obtain ⟨place, link, hlink, hhandling⟩ := hreceive response he
      obtain ⟨frame, call, world, hcall, answers, -⟩ :=
        (safe.links place link hlink).handling response hhandling
      exact ⟨frame, call, hcall, answers.1.symm⟩
  case links =>
    exact fun place later h => LinkAttended.step attending.links received (link_step hstep h)
  case peers =>
    intro position later h
    obtain ⟨hsame, -⟩ | ⟨event, serves⟩ := server_step hstep
    · exact attending.peers position later (hsame ▸ h)
    · refine ⟨?_, Server.unhandled_step safe.linked serves.step
        (fun i peer hpeer => (attending.peers i peer hpeer).2) h⟩
      cases Server.peerStep safe.linked serves.step serves.solicited h with
      | created m connection event place create after =>
        rw [after]
        exact Connection.attended_create create
      | quiet peer es get run => exact (attending.peers position peer get).1.exec run
      | answered peer es m r event get run => exact (attending.peers position peer get).1.exec run
  case codecs =>
    intro position socket later hsocket h
    obtain ⟨hserver, hsockets⟩ | ⟨event, serves⟩ := server_step hstep
    · exact attending.codecs position socket later (hsockets ▸ hsocket) (hserver ▸ h)
    · have moved : ∀ {peer : Peer} {es}, system.server.connections[position]? = some peer →
          (Connection.step hosts.server hosts.responses.serializeToString).exec
            peer.connection es = some later.connection →
          socket.channel.frameCodec = later.connection.codec := by
        intro peer es get run
        rw [(Connection.lasting_exec run).1]
        obtain ⟨old, hold, hcodec⟩ | ⟨m, -, hposition, -⟩ := serves.sockets position socket hsocket
        · exact hcodec.trans (attending.codecs position old peer hold get)
        · have hlt := (List.getElem?_eq_some_iff.mp get).1
          rw [hposition, ordered.placed] at hlt
          exact absurd hlt (Nat.lt_irrefl _)
      cases Server.peerStep safe.linked serves.step serves.solicited h with
      | created m connection hevent place create after =>
        obtain ⟨-, rfl⟩ := Connection.create_eq_ok create
        obtain ⟨old, hold, -⟩ | ⟨m', hevent', -, hcodec⟩ :=
          serves.sockets position socket hsocket
        · have hlt := (List.getElem?_eq_some_iff.mp hold).1
          rw [place, ordered.placed] at hlt
          exact absurd hlt (Nat.lt_irrefl _)
        · obtain rfl := Server.Event.accept.inj (hevent.symm.trans hevent')
          rw [hcodec, after]
          rfl
      | quiet peer es get run => exact moved get run
      | answered peer es m r hevent get run => exact moved get run

theorem attending_exec {config : Config} {es : List System.Event} (lawful : hosts.Lawful)
    (run : (System.step hosts).exec (.initial config) es = some system)
    (few : System.accepts es < 65536) : Attending system := by
  refine Machine.exec_within (motive := fun _ system => Attending system)
    System.accepts_append (attending_initial config) ?_ run few
  intro es s e t hrun few attending hstep
  have before : System.accepts es < 65536 := by omega
  exact attending.step (safe_exec lawful hrun before) (ordered_exec lawful hrun before) hstep

end Parts

section Rest

variable {hosts : Hosts} {system : System} {place position : Nat}
variable {link : ClientLink} {socket : ServerLink} {peer : Peer}

/-- The events that get on with what is between the connection at `place` of the client and
the one at `position` of the server. -/
def progress (place position : Nat) : System.Event → Bool
  | .link moved event => moved = place && event.progress
  | .server (.connection moved event) => moved = position && event.progress
  | .read reader writer _ => reader = place && writer = position
  | .deliver reader writer _ => reader = position && writer = place
  | .receive handler => handler = place
  | _ => false

/-- Nothing between these two connections can get on. -/
def Resting (hosts : Hosts) (place position : Nat) (system : System) : Prop :=
  AtRest (System.step hosts) (fun e => progress place position e = true) system

theorem link_at_rest (attended : LinkAttended system link)
    (hlink : system.links[place]? = some link) (hopen : link.connection.closed = false)
    (rest : Resting hosts place position system) :
    link.connection.posted = [] ∧ link.connection.live = [] ∧
      link.connection.reader = .reading ∧ link.handling = none := by
  have hidle : link.handling = none := by
    have hstuck := rest (.receive place) (by simp [progress])
    simp only [System.step, hlink, Option.map_eq_none_iff] at hstuck
    exact hstuck
  have hstuck : ∀ e : Connection.Event ServerMessage ClientMessage, e.progress = true →
      Connection.step hosts.client hosts.requests.serializeToString link.connection e = none := by
    intro e hprogress
    have hinternal : System.internal link e = true := by
      cases e with
      | post | readCompletes => cases hprogress
      | handlerReturns | handlerThrows => exact Option.isNone_iff_eq_none.mpr hidle
      | _ => rfl
    have hnone := rest (.link place e) (by simp [progress, hprogress])
    simp only [System.step, hlink, hinternal, if_true, Option.map_eq_none_iff] at hnone
    exact hnone
  obtain ⟨hposted, hlive, hreader | hreader⟩ :=
    Connection.at_rest_of_stuck attended.attended hopen fun e hprogress _ => hstuck e hprogress
  · exact ⟨hposted, hlive, hreader, hidle⟩
  · have hnone := hstuck .handlerReturns rfl
    rw [Connection.step, if_pos hreader] at hnone
    cases hnone

theorem peer_at_rest (attended : peer.connection.Attended)
    (hhandling : peer.connection.reader ≠ .handling)
    (hpeer : system.server.connections[position]? = some peer)
    (hopen : peer.connection.closed = false) (rest : Resting hosts place position system) :
    peer.connection.posted = [] ∧ peer.connection.live = [] ∧
      peer.connection.reader = .reading := by
  have hstuck : ∀ e : Connection.Event ClientMessage ServerMessage, e.progress = true →
      e ≠ .handlerReturns →
      Connection.step hosts.server hosts.responses.serializeToString peer.connection e =
        none := by
    intro e hprogress hne
    have hown : System.ownEvent (.connection position e) = true := by
      cases e with
      | post => cases hprogress
      | _ => rfl
    have hinternal : Server.internal e = true := by
      cases e with
      | post | readCompletes | handlerThrows => cases hprogress
      | handlerReturns => exact absurd rfl hne
      | _ => rfl
    have hnone := rest (.server (.connection position e)) (by simp [progress, hprogress])
    simp only [System.step, hown, if_true, System.serve, Server.step, hpeer, hinternal,
      Option.map_eq_none_iff] at hnone
    exact hnone
  obtain ⟨hposted, hlive, hreader | hreader⟩ :=
    Connection.at_rest_of_stuck attended hopen hstuck
  · exact ⟨hposted, hlive, hreader⟩
  · exact absurd hreader hhandling

/-- As long as not everything is read, a read can succeed. -/
theorem transfer_unread {ι ο : Type} {native : Endian} {protobuf : Protobuf ο}
    (lawful : protobuf.Lawful) (native' : Endian) {sender : Connection ι ο}
    {channel : MessageChannel} {handled : List ο} {consumed : Nat}
    (received : Received native protobuf.serializeToString sender handled false consumed)
    (hwire : sender.wire =
      Connection.frames native protobuf.serializeToString sender.codec sender.accepted)
    (sendable : ∀ message ∈ sender.accepted,
      Connection.Sendable protobuf.serializeToString sender.codec message)
    (hcodec : channel.frameCodec = sender.codec) (hne : handled ≠ sender.accepted) :
    ∃ arrived result, transfer protobuf native' channel sender.wire consumed arrived =
      some result := by
  obtain ⟨messages, haccepted⟩ := received.handed
  obtain ⟨hconsumed, -⟩ := received.read rfl
  cases messages with
  | nil => exact absurd ((List.append_nil _).symm.trans haccepted) hne
  | cons message later =>
    obtain ⟨data, hdata, framable⟩ := sendable message (by simp [← haccepted])
    have hsplit : Connection.frames native protobuf.serializeToString sender.codec
        (message :: later) = MessageChannel.frame native data ++
          Connection.frames native protobuf.serializeToString sender.codec later := by
      rw [← Connection.frame_of_framable hdata framable]
      exact List.flatMap_cons
    have hstream : (sender.wire.drop consumed).take (MessageChannel.frame native data).length =
        MessageChannel.frame native data ++ [] := by
      rw [hwire, ← haccepted, Connection.frames_append, hconsumed, List.drop_left, hsplit,
        List.take_left, List.append_nil]
    refine ⟨(MessageChannel.frame native data).length, ?_⟩
    simp only [transfer]
    rw [hstream, MessageChannel.readMessage_frame lawful.inverts (lawful.bounded message data hdata)
      hdata (hcodec ▸ framable)]
    exact ⟨_, rfl⟩

/-- With nothing posted, written, handled or still to be read. -/
theorem resting_of_quiet (hlink : system.links[place]? = some link)
    (hsocket : system.sockets[position]? = some socket)
    (hpeer : system.server.connections[position]? = some peer)
    (linkQuiet : link.connection.posted = [] ∧ link.connection.live = [] ∧
      link.connection.reader = .reading ∧ link.handling = none)
    (peerQuiet : peer.connection.posted = [] ∧ peer.connection.live = [] ∧
      peer.connection.reader = .reading)
    (served : link.connection.wire.length ≤ socket.consumed)
    (heard : peer.connection.wire.length ≤ link.consumed) :
    Resting hosts place position system := by
  have unread : ∀ {μ : Type} {protobuf : Protobuf μ} {native : Endian} {channel : MessageChannel}
      {wire : List UInt8} {consumed arrived : Nat}, wire.length ≤ consumed →
      transfer protobuf native channel wire consumed arrived = none := by
    intro μ protobuf native channel wire consumed arrived hle
    rw [transfer, List.drop_of_length_le hle, List.take_nil]
    rfl
  obtain ⟨hposted, hlive, hreader, hidle⟩ := linkQuiet
  obtain ⟨hposted', hlive', hreader'⟩ := peerQuiet
  intro e hprogress
  cases e with
  | link moved event =>
    simp only [progress, Bool.and_eq_true, decide_eq_true_eq] at hprogress
    obtain ⟨rfl, hprogress⟩ := hprogress
    simp only [System.step, hlink, Connection.stuck_of_at_rest hposted hlive hreader hprogress,
      Option.map_none, ite_self]
  | server event =>
    cases event with
    | connection moved event =>
      simp only [progress, Bool.and_eq_true, decide_eq_true_eq] at hprogress
      obtain ⟨rfl, hprogress⟩ := hprogress
      simp only [System.step, System.serve, Server.step, hpeer,
        Connection.stuck_of_at_rest hposted' hlive' hreader' hprogress, Option.map_none, ite_self]
    | accept | deliver | stopAll => cases hprogress
  | read reader writer arrived =>
    simp only [progress, Bool.and_eq_true, decide_eq_true_eq] at hprogress
    obtain ⟨rfl, rfl⟩ := hprogress
    simp only [System.step, hlink, hsocket, hpeer, System.read, unread heard, Option.bind_none,
      ite_self]
  | deliver reader writer arrived =>
    simp only [progress, Bool.and_eq_true, decide_eq_true_eq] at hprogress
    obtain ⟨rfl, rfl⟩ := hprogress
    simp only [System.step, hlink, hsocket, System.deliver, unread served, Option.bind_none,
      ite_self]
  | receive handler =>
    simp only [progress, decide_eq_true_eq] at hprogress
    subst hprogress
    simp only [System.step, hlink, hidle, Option.map_none]
  | start | stop | sendRequest | client | accept | foreign => cases hprogress

/-- What is on the left has a partner on the right. -/
theorem exists_of_forall₂ {α β : Type} {R : α → β → Prop} {as : List α} {bs : List β}
    (h : List.Forall₂ R as bs) {a : α} (hmem : a ∈ as) : ∃ b ∈ bs, R a b := by
  induction h with
  | nil => cases hmem
  | cons hr _ ih =>
    obtain rfl | hmem := List.mem_cons.mp hmem
    · exact ⟨_, List.mem_cons_self, hr⟩
    · obtain ⟨b, hb, hrb⟩ := ih hmem
      exact ⟨b, List.mem_cons_of_mem _ hb, hrb⟩

/-- Every request that was sent on a connection has been answered, in order, and none of them
waits any longer. -/
structure AllAnswered (system : System) (place : Nat) (link : ClientLink) : Prop where
  answered : ∃ state : Link, system.client.links[place]? = some state ∧
    List.Forall₂ Answered state.outgoing link.connection.handled
  settled : ∀ (state : Link), system.client.links[place]? = some state →
    ∀ (frame : Nat) call, system.client.calls[frame]? = some call →
      call.message ∈ state.outgoing → call.pending.state ≠ .waiting ∨ call.result ≠ none

/-- In every state of every run in which nothing between the two ends can get on, with both
open, one size limit and a server that runs. -/
theorem all_answered_at_rest {config : Config} {es : List System.Event} (lawful : hosts.Lawful)
    (run : (System.step hosts).exec (.initial config) es = some system)
    (few : System.accepts es < 65536) (numbered : system.client.calls.length < UInt64.size)
    (hlink : system.links[place]? = some link) (hsocket : system.sockets[position]? = some socket)
    (hnumber : socket.socket = some link.socket)
    (hpeer : system.server.connections[position]? = some peer)
    (hopen : link.connection.closed = false) (hopen' : peer.connection.closed = false)
    (running : system.server.manager.stopped = false)
    (limits : link.connection.codec = peer.connection.codec)
    (rest : Resting hosts place position system) : AllAnswered system place link := by
  have safe := safe_exec lawful run few
  have ordered := ordered_exec lawful run few
  have attending := attending_exec lawful run few
  obtain ⟨hposted, hlive, hreader, hidle⟩ :=
    link_at_rest (attending.links place link hlink) hlink hopen rest
  obtain ⟨attended, hhandling⟩ := attending.peers position peer hpeer
  obtain ⟨hposted', hlive', hreader'⟩ := peer_at_rest attended hhandling hpeer hopen' rest
  obtain ⟨state, hstate, sent⟩ := ordered.state hlink
  obtain ⟨framed, answering⟩ := ordered.peers position peer hpeer
  -- everything that was sent has been written
  have haccepted : link.connection.accepted = state.outgoing := by
    rw [← sent.outbox hopen, Connection.outbox, hposted, List.filterMap_nil, List.append_nil]
  have haccepted' : peer.connection.accepted = peer.connection.outbox := by
    rw [Connection.outbox, hposted', List.filterMap_nil, List.append_nil]
  obtain ⟨hwire, sendable⟩ := (ordered.framed place link hlink).at_rest
    (safe.links place link hlink).orderly hopen hlive
  obtain ⟨hwire', sendable'⟩ := framed.at_rest (safe.peers position peer hpeer) hopen' hlive'
  -- what was written has been read
  have hserved : peer.connection.handled = link.connection.accepted := by
    by_contra hne
    have received := ordered.served_from safe hlink hsocket hnumber hpeer
    rw [hopen'] at received
    obtain ⟨arrived, ⟨message, channel, consumed⟩, htransfer⟩ :=
      transfer_unread lawful.requests hosts.server received hwire sendable
        ((attending.codecs position socket peer hsocket hpeer).trans limits.symm) hne
    have hnone := rest (.deliver position place arrived) (by simp [progress])
    simp only [System.step, hsocket, hlink, hnumber, if_true, System.deliver, htransfer,
      Option.bind_some, System.serve, Server.step, hpeer, hreader', Option.map_some] at hnone
    cases hnone
  have hheard : link.connection.handled = peer.connection.accepted := by
    by_contra hne
    have received := ordered.heard_from safe hlink hsocket hnumber hpeer
    rw [hopen] at received
    obtain ⟨arrived, ⟨message, channel, consumed⟩, htransfer⟩ :=
      transfer_unread lawful.responses hosts.client received hwire' sendable'
        ((attending.links place link hlink).codec.trans limits) hne
    have hnone := rest (.read place position arrived) (by simp [progress])
    simp only [System.step, hsocket, hlink, hpeer, hnumber, if_true, System.read, htransfer,
      Option.bind_some, Connection.step, hreader, Option.map_some] at hnone
    cases hnone
  have hanswered : List.Forall₂ Answered state.outgoing link.connection.handled := by
    rw [← haccepted, ← hserved, hheard, haccepted']
    exact answering.all hopen' running
  refine ⟨⟨state, hstate, hanswered⟩, ?_⟩
  intro state' hstate' frame call hcall hmem
  obtain rfl := Option.some.inj (hstate.symm.trans hstate')
  obtain ⟨response, hresponse, world, answers⟩ := exists_of_forall₂ hanswered hmem
  refine attending.client.settled numbered response ?_ frame call hcall answers.1.symm
  obtain h | h := (attending.links place link hlink).taken response hresponse
  · rw [hidle] at h
    cases h
  · exact h

end Rest

end Stalker2D.EndToEnd
