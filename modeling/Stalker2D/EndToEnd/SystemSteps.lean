import Stalker2D.EndToEnd.RequestSafety
import Stalker2D.Shared.CloseProtocol

/-!
# What an event does to the parts

An event of the system moves the manager, one connection of the client or one of the server,
or two of these together. `step_cases` takes a step apart once. `client_step`, `link_step` and
`server_step` say what it can do to each of the parts, so that what holds of a part is shown by
its own cases.
-/

namespace Stalker2D.EndToEnd

open Protocol Network Client Game

section Cases

variable {hosts : Hosts} {system t : System} {e : System.Event}

/-- Every step there is, by the code that runs in it. -/
inductive StepCases (hosts : Hosts) (system : System) : System.Event → System → Prop
  | refused (socket : Nat) (onClosed : Bool) (client : ClientRequestManager)
      (start : system.client.step (.start socket onClosed) = some client) :
      StepCases hosts system (.start socket onClosed) { system with client }
  | started (socket : Nat) (onClosed : Bool) (client : ClientRequestManager)
      (connection : Connection ServerMessage ClientMessage)
      (start : system.client.step (.start socket onClosed) = some client)
      (create : Connection.create
        ⟨system.client.config.maxMessageBytes, system.client.config.maxQueuedMessages⟩ =
          .ok connection) :
      StepCases hosts system (.start socket onClosed)
        { system with
          client
          links := system.links ++
            [{ socket
               connection := connection.post .startImpl
               channel := .create system.client.config.maxMessageBytes }] }
  | idle (reason : String) : StepCases hosts system (.stop reason) system
  | stops (reason : String) (link : Nat) :
      StepCases hosts system (.stop reason)
        ({ system with client := system.client.stop reason }.postLink link .stopImpl)
  | unsent (request : ClientPayload) (client : ClientRequestManager)
      (send : system.client.step (.send { payload := some request }) = some client) :
      StepCases hosts system (.sendRequest request) { system with client }
  | sends (request : ClientPayload) (client : ClientRequestManager) (link : Nat)
      (message : ClientMessage)
      (send : system.client.step (.send { payload := some request }) = some client) :
      StepCases hosts system (.sendRequest request)
        ({ system with client }.postLink link (.sendImpl message))
  | client (event : ClientRequestManager.Event) (client : ClientRequestManager)
      (queued : System.queued event = true) (step : system.client.step event = some client) :
      StepCases hosts system (.client event) { system with client }
  | link (place : Nat) (event : Connection.Event ServerMessage ClientMessage) (link : ClientLink)
      (connection : Connection ServerMessage ClientMessage)
      (get : system.links[place]? = some link) (internal : System.internal link event = true)
      (step : Connection.step hosts.client hosts.requests.serializeToString link.connection
        event = some connection) :
      StepCases hosts system (.link place event) (system.advance place link connection)
  | read (place position arrived : Nat) (link : ClientLink) (peer : Peer)
      (message : ServerMessage) (channel : MessageChannel) (consumed : Nat)
      (connection : Connection ServerMessage ClientMessage)
      (get : system.links[place]? = some link)
      (peerGet : system.server.connections[position]? = some peer)
      (transfers : transfer hosts.responses hosts.client link.channel peer.connection.wire
        link.consumed arrived = some (message, channel, consumed))
      (step : Connection.step hosts.client hosts.requests.serializeToString link.connection
        (.readCompletes message) = some connection) :
      StepCases hosts system (.read place position arrived)
        { system with
          links := system.links.modify place fun link =>
            { link with
              connection
              channel
              consumed
              handling := if connection.closed then none else some message } }
  | receive (place : Nat) (link : ClientLink) (message : ServerMessage)
      (get : system.links[place]? = some link) (handling : link.handling = some message) :
      StepCases hosts system (.receive place)
        { system with
          client := system.client.receive message
          links := system.links.modify place ({ · with handling := none }) }
  | refuses (m : UInt32) (socket : Option Nat) (server : Server)
      (step : Server.step hosts.server hosts.responses.serializeToString system.server
        (.accept m) = some server) :
      StepCases hosts system (.accept m socket) { system with server }
  | accepts (m : UInt32) (socket : Option Nat) (server : Server)
      (step : Server.step hosts.server hosts.responses.serializeToString system.server
        (.accept m) = some server) :
      StepCases hosts system (.accept m socket)
        { system with
          server
          sockets := system.sockets ++ [{ socket, channel := .create m }] }
  | server (event : Server.Event) (server : Server) (own : System.ownEvent event = true)
      (step : Server.step hosts.server hosts.responses.serializeToString system.server event =
        some server) :
      StepCases hosts system (.server event) { system with server }
  | deliver (position place arrived : Nat) (socket : ServerLink) (link : ClientLink)
      (message : ClientMessage) (channel : MessageChannel) (consumed : Nat) (server : Server)
      (socketGet : system.sockets[position]? = some socket)
      (get : system.links[place]? = some link)
      (transfers : transfer hosts.requests hosts.server socket.channel link.connection.wire
        socket.consumed arrived = some (message, channel, consumed))
      (step : Server.step hosts.server hosts.responses.serializeToString system.server
        (.deliver position message) = some server) :
      StepCases hosts system (.deliver position place arrived)
        { system with
          server
          sockets := system.sockets.modify position ({ · with channel, consumed }) }
  | foreign (position : Nat) (message : ClientMessage) (server : Server)
      (step : Server.step hosts.server hosts.responses.serializeToString system.server
        (.deliver position message) = some server) :
      StepCases hosts system (.foreign position message) { system with server }

theorem step_cases (hstep : System.step hosts system e = some t) :
    StepCases hosts system e t := by
  cases e with
  | start socket onClosed =>
    simp only [System.step, System.start, Option.ite_none_left_eq_some] at hstep
    obtain ⟨-, h⟩ := hstep
    split at h
    next hstart hcreate =>
      obtain rfl := Option.some.inj h
      refine .started socket onClosed _ _ ?_ hcreate
      simp only [ClientRequestManager.step, hstart]
    next hstart _ =>
      obtain rfl := Option.some.inj h
      refine .refused socket onClosed _ ?_
      simp only [ClientRequestManager.step, hstart]
  | stop reason =>
    obtain rfl := Option.some.inj hstep
    simp only [System.stop]
    split
    · exact .idle reason
    · exact .stops reason _
  | sendRequest request =>
    obtain rfl := Option.some.inj hstep
    simp only [System.sendRequest]
    split
    next hsend =>
      refine .sends request _ _ _ ?_
      simp only [ClientRequestManager.step, hsend]
    next hsend _ =>
      refine .unsent request _ ?_
      simp only [ClientRequestManager.step, hsend]
  | client event =>
    simp only [System.step, Option.ite_none_right_eq_some, Option.map_eq_some_iff] at hstep
    obtain ⟨hqueued, client, hclient, rfl⟩ := hstep
    exact .client event client hqueued hclient
  | link place event =>
    simp only [System.step] at hstep
    split at hstep
    · cases hstep
    next link hlink =>
      simp only [Option.ite_none_right_eq_some, Option.map_eq_some_iff] at hstep
      obtain ⟨hinternal, connection, hconnection, rfl⟩ := hstep
      exact .link place event link connection hlink hinternal hconnection
  | read place position arrived =>
    simp only [System.step] at hstep
    split at hstep
    next link socket peer hlink hsocket hpeer =>
      simp only [Option.ite_none_right_eq_some, System.read, Option.bind_eq_some_iff,
        Option.map_eq_some_iff] at hstep
      obtain ⟨-, ⟨message, channel, consumed⟩, htransfer, connection, hconnection, rfl⟩ := hstep
      exact .read place position arrived link peer message channel consumed connection hlink hpeer
        htransfer hconnection
    next => cases hstep
  | receive place =>
    simp only [System.step] at hstep
    split at hstep
    · cases hstep
    next link hlink =>
      obtain ⟨message, hmessage, rfl⟩ := Option.map_eq_some_iff.mp hstep
      exact .receive place link message hlink hmessage
  | accept m socket =>
    simp only [System.step, System.accept, Option.ite_none_left_eq_some] at hstep
    obtain ⟨-, h⟩ := hstep
    split at h
    · obtain rfl := Option.some.inj h
      exact .accepts m socket _ rfl
    · obtain rfl := Option.some.inj h
      exact .refuses m socket _ rfl
  | server event =>
    simp only [System.step, Option.ite_none_right_eq_some, System.serve,
      Option.map_eq_some_iff] at hstep
    obtain ⟨hown, server, hserver, rfl⟩ := hstep
    exact .server event server hown hserver
  | deliver position place arrived =>
    simp only [System.step] at hstep
    split at hstep
    next socket link hsocket hlink =>
      simp only [Option.ite_none_right_eq_some, System.deliver, Option.bind_eq_some_iff,
        System.serve, Option.map_eq_some_iff] at hstep
      obtain ⟨-, ⟨message, channel, consumed⟩, htransfer, server, hserver, rfl⟩ := hstep
      exact .deliver position place arrived socket link message channel consumed server hsocket
        hlink htransfer hserver
    next => cases hstep
  | foreign position message =>
    simp only [System.step] at hstep
    split at hstep
    · cases hstep
    · simp only [Option.ite_none_right_eq_some, System.serve, Option.map_eq_some_iff] at hstep
      obtain ⟨-, server, hserver, rfl⟩ := hstep
      exact .foreign position message server hserver

/-- The manager hears of a connection that closes. -/
theorem client_advance (system : System) (place : Nat) (link : ClientLink)
    (connection : Connection ServerMessage ClientMessage) :
    (system.advance place link connection).client = system.client ∨
      system.client.step (.linkCloses place) =
        some (system.advance place link connection).client := by
  simp only [System.advance]
  split
  · cases h : system.client.step (.linkCloses place) with
    | none => exact .inl (by simp only [System.linkCloses, h, Option.getD_none])
    | some client => exact .inr (by simp only [System.linkCloses, h, Option.getD_some])
  · exact .inl rfl

/-- The manager makes one step at most, and it receives what a handler was given. -/
theorem client_step (hstep : System.step hosts system e = some t) :
    t.client = system.client ∨ ∃ event, system.client.step event = some t.client ∧
      ∀ response, event = .receive response →
        ∃ (place : Nat) (link : ClientLink), system.links[place]? = some link ∧
          link.handling = some response := by
  have quiet : ∀ event : ClientRequestManager.Event, (∀ response, event ≠ .receive response) →
      system.client.step event = some t.client →
      t.client = system.client ∨ ∃ event, system.client.step event = some t.client ∧
        ∀ response, event = .receive response →
          ∃ (place : Nat) (link : ClientLink), system.links[place]? = some link ∧
            link.handling = some response := by
    intro event hquiet h
    exact .inr ⟨event, h, fun response he => absurd he (hquiet response)⟩
  cases step_cases hstep with
  | refused _ _ _ start | started _ _ _ _ start => exact quiet _ (fun _ h => by cases h) start
  | stops reason link => exact quiet (.stop reason) (fun _ h => by cases h) rfl
  | unsent _ _ send | sends _ _ _ _ send => exact quiet _ (fun _ h => by cases h) send
  | client event client queued step =>
    refine quiet event (fun response he => ?_) step
    rw [he] at queued
    cases queued
  | link place event link connection =>
    obtain hsame | hcloses := client_advance system place link connection
    · exact .inl hsame
    · exact quiet _ (fun _ h => by cases h) hcloses
  | receive place link message get handling =>
    refine .inr ⟨.receive message, rfl, fun response he => ⟨place, link, get, ?_⟩⟩
    rw [handling, ClientRequestManager.Event.receive.inj he]
  | idle | read | refuses | accepts | server | deliver | foreign => exact .inl rfl

/-- What an event does to the connection of the client at `place`, which is `later` then. -/
inductive LinkStep (hosts : Hosts) (system t : System) (place : Nat) (later : ClientLink) : Prop
  | created (connection : Connection ServerMessage ClientMessage) (config : ConnectionConfig)
      (create : Connection.create config = .ok connection)
      (after : later.connection = connection.post .startImpl)
      (channel : later.channel.frameCodec = connection.codec) (idle : later.handling = none)
  | same (get : system.links[place]? = some later)
  | moves (link : ClientLink) (event : Connection.Event ServerMessage ClientMessage)
      (get : system.links[place]? = some link)
      (connection : Connection.step hosts.client hosts.requests.serializeToString
        link.connection event = some later.connection)
      (unread : Connection.arrived [event] = [])
      (returns : Connection.completed [event] ≠ 0 → link.handling = none)
      (after : later = { link with connection := later.connection })
  | reads (link : ClientLink) (message : ServerMessage) (get : system.links[place]? = some link)
      (connection : Connection.step hosts.client hosts.requests.serializeToString
        link.connection (.readCompletes message) = some later.connection)
      (channel : later.channel.frameCodec = link.channel.frameCodec)
      (after : later.handling = if later.connection.closed then none else some message)
  | receives (link : ClientLink) (message : ServerMessage)
      (get : system.links[place]? = some link) (handling : link.handling = some message)
      (received : t.client.received = system.client.received ++ [message])
      (after : later = { link with handling := none })

/-- One connection moves and the others stay. -/
theorem linkStep_modify {moved place : Nat} {f : ClientLink → ClientLink} {later : ClientLink}
    (moves : ∀ link, system.links[moved]? = some link →
      LinkStep hosts system t moved (f link))
    (h : (system.links.modify moved f)[place]? = some later) :
    LinkStep hosts system t place later := by
  rw [List.getElem?_modify] at h
  obtain ⟨link, hlink, rfl⟩ := Option.map_eq_some_iff.mp h
  by_cases hplace : moved = place
  · subst hplace
    rw [if_pos rfl]
    exact moves link hlink
  · rw [if_neg hplace]
    exact .same hlink

theorem linkStep_postLink {moved place : Nat} {handler : Posted ClientMessage}
    {client : ClientRequestManager} {later : ClientLink}
    (h : ({ system with client }.postLink moved handler).links[place]? = some later) :
    LinkStep hosts system t place later :=
  linkStep_modify (fun link get =>
    .moves link (.post handler) get rfl rfl (fun h => absurd rfl h) rfl) h

theorem frameCodec_readMessage {μ : Type} {parseFromArray : List UInt8 → Int32 → Option μ}
    {native : Endian} {channel channel' : MessageChannel} {stream rest : List UInt8}
    {result : Except Exception μ}
    (h : channel.readMessage parseFromArray native stream = (result, channel', rest)) :
    channel'.frameCodec = channel.frameCodec := by
  simp only [MessageChannel.readMessage] at h
  repeat' split at h
  all_goals
    cases h
    rfl

theorem frameCodec_transfer {μ : Type} {protobuf : Protobuf μ} {native : Endian}
    {channel channel' : MessageChannel} {wire : List UInt8} {consumed consumed' arrived : Nat}
    {message : μ}
    (h : transfer protobuf native channel wire consumed arrived =
      some (message, channel', consumed')) : channel'.frameCodec = channel.frameCodec := by
  simp only [transfer] at h
  split at h
  next hread =>
    cases h
    exact frameCodec_readMessage hread
  next => cases h

theorem link_step (hstep : System.step hosts system e = some t) {place : Nat} {later : ClientLink}
    (h : t.links[place]? = some later) : LinkStep hosts system t place later := by
  cases step_cases hstep with
  | started socket onClosed client connection start create =>
    obtain hold | ⟨-, rfl⟩ := getElem?_concat_cases h
    · exact .same hold
    · refine .created connection _ create rfl ?_ rfl
      obtain ⟨-, rfl⟩ := Connection.create_eq_ok create
      rfl
  | stops | sends => exact linkStep_postLink h
  | link moved event link connection get internal step =>
    refine linkStep_modify (fun link' hlink' => ?_) h
    obtain rfl := Option.some.inj (get.symm.trans hlink')
    refine .moves _ event get step ?_ (fun hcompleted => ?_) rfl
    · cases event with
      | readCompletes message => cases internal
      | _ => rfl
    · cases event with
      | handlerReturns => exact Option.isNone_iff_eq_none.mp internal
      | handlerThrows => exact Option.isNone_iff_eq_none.mp internal
      | _ => exact absurd rfl hcompleted
  | read moved position arrived link peer message channel consumed connection get _ transfers
      step =>
    refine linkStep_modify (fun link' hlink' => ?_) h
    obtain rfl := Option.some.inj (get.symm.trans hlink')
    exact .reads _ message get step (frameCodec_transfer transfers) rfl
  | receive moved link message get handling =>
    refine linkStep_modify (fun link' hlink' => ?_) h
    obtain rfl := Option.some.inj (get.symm.trans hlink')
    exact .receives _ message get handling
      (ClientRequestManager.received_receive system.client message) rfl
  | refused | idle | unsent | client | refuses | accepts | server | deliver | foreign =>
    exact .same h

/-- What an event does at the server: one event of the server, and what a socket keeps. -/
structure ServerStep (hosts : Hosts) (system t : System) (event : Server.Event) : Prop where
  step : Server.step hosts.server hosts.responses.serializeToString system.server event =
    some t.server
  solicited : event.unsolicited = false
  sockets : ∀ (position : Nat) later, t.sockets[position]? = some later →
    (∃ socket, system.sockets[position]? = some socket ∧
      later.channel.frameCodec = socket.channel.frameCodec) ∨
    ∃ m, event = .accept m ∧ position = system.sockets.length ∧
      later.channel.frameCodec = ⟨m⟩

theorem server_step (hstep : System.step hosts system e = some t) :
    (t.server = system.server ∧ t.sockets = system.sockets) ∨
      ∃ event, ServerStep hosts system t event := by
  have sameSockets : ∀ (position : Nat) later, system.sockets[position]? = some later →
      ∃ socket, system.sockets[position]? = some socket ∧
        later.channel.frameCodec = socket.channel.frameCodec :=
    fun _ later h => ⟨later, h, rfl⟩
  cases step_cases hstep with
  | refuses m socket server step =>
    exact .inr ⟨.accept m, step, rfl, fun position later h => .inl (sameSockets position later h)⟩
  | accepts m socket server step =>
    refine .inr ⟨.accept m, step, rfl, fun position later h => ?_⟩
    obtain hold | ⟨hposition, rfl⟩ := getElem?_concat_cases h
    · exact .inl ⟨later, hold, rfl⟩
    · exact .inr ⟨m, rfl, hposition, rfl⟩
  | server event server own step =>
    refine .inr ⟨event, step, ?_, fun position later h => .inl (sameSockets position later h)⟩
    cases event with
    | connection position event =>
      cases event with
      | post handler =>
        cases handler with
        | sendImpl message => cases own
        | startImpl => rfl
        | stopImpl => rfl
      | _ => rfl
    | accept m => cases own
    | deliver position message => cases own
    | stopAll => rfl
  | deliver position place arrived socket link message channel consumed server socketGet get
      transfers step =>
    refine .inr ⟨_, step, rfl, fun i later h => .inl ?_⟩
    rw [List.getElem?_modify] at h
    obtain ⟨old, hold, rfl⟩ := Option.map_eq_some_iff.mp h
    refine ⟨old, hold, ?_⟩
    split
    next hi =>
      subst hi
      obtain rfl := Option.some.inj (socketGet.symm.trans hold)
      exact frameCodec_transfer transfers
    next => rfl
  | foreign position message server step =>
    exact .inr ⟨_, step, rfl, fun i later h => .inl (sameSockets i later h)⟩
  | refused | started | idle | stops | unsent | sends | client | link | read | receive =>
    exact .inl ⟨rfl, rfl⟩

end Cases

end Stalker2D.EndToEnd
