import Stalker2D.Client.NetworkComponent
import Stalker2D.Server.Network.ServerConnectionManager
import Stalker2D.Shared.MessageChannel

/-!
# A client and the server

One `ClientRequestManager` with all the connections it ever made, and the server with
all it ever accepted. Both ends of a socket have its number; the sockets of other
clients have none on the server's side, and whatever is read from them is up to these
clients.

A stream is what the connection at the other end has put on its wire. A read may find
any number of its bytes arrived, so it may be cut anywhere, and the reads that fail
(`readFails`) are events of the connection like its other ones. The machines of the
parts keep their steps; an event here says which of them move together. Both hosts have
a byte order of their own.
-/

namespace Stalker2D.EndToEnd

open Protocol Network Client Game

/-- The generated code for one type of messages. -/
structure Protobuf (μ : Type) where
  serializeToString : μ → Option (List UInt8)
  parseFromArray : List UInt8 → Int32 → Option μ

structure Hosts where
  client : Endian
  server : Endian
  requests : Protobuf ClientMessage
  responses : Protobuf ServerMessage

/-- A connection of the client: its channel, how much of its stream it has read, and the
message its handler has been given and `receive` has not taken up yet. -/
structure ClientLink where
  socket : Nat
  connection : Connection ServerMessage ClientMessage
  channel : MessageChannel
  consumed : Nat := 0
  handling : Option ServerMessage := none

/-- What belongs to a connection of the server and is not part of `Server`. -/
structure ServerLink where
  socket : Option Nat
  channel : MessageChannel
  consumed : Nat := 0

structure System where
  client : ClientRequestManager
  links : List ClientLink := []
  server : Server := {}
  sockets : List ServerLink := []

/-- A read that succeeds when `arrived` bytes of the rest of the stream are there. -/
def transfer {μ : Type} (protobuf : Protobuf μ) (native : Endian) (channel : MessageChannel)
    (wire : List UInt8) (consumed arrived : Nat) : Option (μ × MessageChannel × Nat) :=
  let stream := (wire.drop consumed).take arrived
  match channel.readMessage protobuf.parseFromArray native stream with
  | (.ok message, channel, rest) =>
    some (message, channel, consumed + (stream.length - rest.length))
  | (.error _, _, _) => none

namespace System

/-- `start` and the `start` of the connection it makes, on a socket of its own. -/
def start (system : System) (socket : Nat) (onClosed : Bool) : Option System :=
  if socket ∈ system.links.map ClientLink.socket then none
  else
    match system.client.start socket onClosed, Connection.create
        ⟨system.client.config.maxMessageBytes, system.client.config.maxQueuedMessages⟩ with
    | (.ok _, client), .ok connection =>
      some { system with
        client
        links := system.links ++
          [{ socket
             connection := connection.post .startImpl
             channel := .create system.client.config.maxMessageBytes }] }
    | (_, client), _ => some { system with client }

def postLink (system : System) (link : Nat) (handler : Posted ClientMessage) : System :=
  { system with
    links := system.links.modify link fun link =>
      { link with connection := link.connection.post handler } }

def stop (system : System) (reason : String) : System :=
  match system.client.connection with
  | none => system
  | some link => { system with client := system.client.stop reason }.postLink link .stopImpl

/-- `sendRequest` up to the suspension of `send`. -/
def sendRequest (system : System) (request : ClientPayload) : System :=
  let message : ClientMessage := { payload := some request }
  match system.client.connection, system.client.send message with
  | some link, (.ok _, client) =>
    { system with client }.postLink link
      (.sendImpl { message with requestId := client.nextRequestId })
  | _, (_, client) => { system with client }

/-- `stopImpl` has run, so the close notification is on its way. -/
def linkCloses (client : ClientRequestManager) (link : Nat) : ClientRequestManager :=
  (ClientRequestManager.step client (.linkCloses link)).getD client

/-- A connection of the client has moved on. -/
def advance (system : System) (place : Nat) (link : ClientLink)
    (connection : Connection ServerMessage ClientMessage) : System :=
  { system with
    links := system.links.modify place ({ · with connection })
    client :=
      if link.connection.closed = false ∧ connection.closed = true then
        linkCloses system.client place
      else system.client }

/-- What a connection does by itself. The handler is left once `receive` has run. -/
def internal (link : ClientLink) : Connection.Event ServerMessage ClientMessage → Bool
  | .post _ | .readCompletes _ => false
  | .handlerReturns | .handlerThrows => link.handling.isNone
  | _ => true

/-- `readMessage` completes in the read loop of the client. -/
def read (hosts : Hosts) (system : System) (place : Nat) (link : ClientLink) (peer : Peer)
    (arrived : Nat) : Option System :=
  (transfer hosts.responses hosts.client link.channel peer.connection.wire link.consumed
    arrived).bind fun (message, channel, consumed) =>
      (Connection.step hosts.client hosts.requests.serializeToString link.connection
        (.readCompletes message)).map fun connection =>
          { system with
            links := system.links.modify place fun link =>
              { link with
                connection
                channel
                consumed
                handling := if connection.closed then none else some message } }

/-- The server has a socket, and a connection is made for it unless `create` refuses. -/
def accept (system : System) (maxMessageBytes : UInt32) (socket : Option Nat) : Option System :=
  if socket ≠ none ∧ socket ∈ system.sockets.map ServerLink.socket then none
  else
    let server := (system.server.accept maxMessageBytes).2
    match (system.server.manager.create system.server.connections.length maxMessageBytes).1 with
    | .ok (some _) =>
      some { system with
        server
        sockets := system.sockets ++ [{ socket, channel := .create maxMessageBytes }] }
    | _ => some { system with server }

def serve (hosts : Hosts) (system : System) (event : Server.Event) : Option System :=
  (Server.step hosts.server hosts.responses.serializeToString system.server event).map
    fun server => { system with server }

/-- `readMessage` completes in a read loop of the server. -/
def deliver (hosts : Hosts) (system : System) (position : Nat) (socket : ServerLink)
    (link : ClientLink) (arrived : Nat) : Option System :=
  (transfer hosts.requests hosts.server socket.channel link.connection.wire socket.consumed
    arrived).bind fun (message, channel, consumed) =>
      { system with
        sockets := system.sockets.modify position ({ · with channel, consumed }) }.serve hosts
          (.deliver position message)

inductive Event
  | start (socket : Nat) (onClosed : Bool)
  | stop (reason : String)
  | sendRequest (request : ClientPayload)
  | client (event : ClientRequestManager.Event)
  | link (place : Nat) (event : Connection.Event ServerMessage ClientMessage)
  | read (place position arrived : Nat)
  | receive (place : Nat)
  | accept (maxMessageBytes : UInt32) (socket : Option Nat)
  | server (event : Server.Event)
  | deliver (position place arrived : Nat)
  | foreign (position : Nat) (message : ClientMessage)
  deriving DecidableEq, Repr

/-- Timers, resumptions and close notifications. -/
def queued : ClientRequestManager.Event → Bool
  | .timerExpires _ | .resume _ | .closeNotification _ => true
  | _ => false

/-- Everything but `accept` and what is read; responses are sent by the server itself. -/
def ownEvent : Server.Event → Bool
  | .connection _ (.post (.sendImpl _)) => false
  | .connection _ _ | .stopAll => true
  | .accept _ | .deliver _ _ => false

def step (hosts : Hosts) : Machine System Event
  | system, .start socket onClosed => system.start socket onClosed
  | system, .stop reason => some (system.stop reason)
  | system, .sendRequest request => some (system.sendRequest request)
  | system, .client event =>
    if queued event then
      (ClientRequestManager.step system.client event).map fun client => { system with client }
    else none
  | system, .link place event =>
    match system.links[place]? with
    | none => none
    | some link =>
      if internal link event then
        (Connection.step hosts.client hosts.requests.serializeToString link.connection event).map
          (system.advance place link)
      else none
  | system, .read place position arrived =>
    match system.links[place]?, system.sockets[position]?, system.server.connections[position]? with
    | some link, some socket, some peer =>
      if socket.socket = some link.socket then system.read hosts place link peer arrived else none
    | _, _, _ => none
  | system, .receive place =>
    match system.links[place]? with
    | none => none
    | some link =>
      link.handling.map fun message =>
        { system with
          client := system.client.receive message
          links := system.links.modify place ({ · with handling := none }) }
  | system, .accept maxMessageBytes socket => system.accept maxMessageBytes socket
  | system, .server event => if ownEvent event then system.serve hosts event else none
  | system, .deliver position place arrived =>
    match system.sockets[position]?, system.links[place]? with
    | some socket, some link =>
      if socket.socket = some link.socket then system.deliver hosts position socket link arrived
      else none
    | _, _ => none
  | system, .foreign position message =>
    match system.sockets[position]? with
    | none => none
    | some socket =>
      if socket.socket = none then system.serve hosts (.deliver position message) else none

/-- Before anything has happened. -/
def initial (config : Config) : System := { client := { config } }

/-- How many connections a list of events accepts, successfully or not. -/
def accepts (es : List Event) : Nat :=
  es.countP fun
    | .accept _ _ => true
    | _ => false

theorem accepts_append (es fs : List Event) : accepts (es ++ fs) = accepts es + accepts fs :=
  List.countP_append

end System

end Stalker2D.EndToEnd
