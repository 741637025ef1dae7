import Stalker2D.Server.Game.World
import Stalker2D.Shared.Connection
import Stalker2D.Shared.Protocol

/-!
# The server behind its sockets

`ServerMessageHandler`, `ServerConnectionManager` and the connections they share, as
one machine on the single thread that runs them. `connections` keeps every connection
that was ever created, and a `shared_ptr` to one is its position there.

The handler of the server suspends nowhere, so the delivery of a parsed message is one
step: `readMessage` completes, `onMessage` runs, and the read loop goes on or stops.
Every other event of a connection is its own. `notifyClosed` is the last thing
`stopImpl` does, so a step that closes a connection ends with `handleDisconnect`.
-/

namespace Stalker2D.Network

open Protocol Game

namespace ServerMessageHandler

def makeErrorResponse (requestId : UInt64) (code : Int) (message : String) : ServerMessage :=
  { requestId, status := .error, payload := some (.error { code, message }) }

/-- `onMessage`, with the world it leaves behind. -/
def onMessage (world : WorldService) (connection : ConnectionId) (message : ClientMessage) :
    Except Exception ServerMessage × WorldService :=
  match world.connect connection.id with
  | (.error e, world) => (.error e, world)
  | (.ok _, world) =>
    (.ok (match message.payload with
      | some (.ping request) =>
        { requestId := message.requestId
          status := .ok
          payload := some (.pong { timestamp := request.timestamp }) }
      | some .stateSnapshot =>
        { requestId := message.requestId
          status := .ok
          payload := some (.stateSnapshot { stateJson := world.snapshotJson }) }
      | none => makeErrorResponse message.requestId 400 "Client message payload is not set"),
      world)

def onDisconnect (world : WorldService) (connection : ConnectionId) : WorldService :=
  world.disconnect connection.id

end ServerMessageHandler

/-- The map goes from the number in a `connection_id` to the connection's position. -/
structure ServerConnectionManager where
  connections : Std.TreeMap UInt16 Nat := ∅
  stopped : Bool := false
  nextConnectionId : ConnectionId := ⟨0⟩

abbrev ServerConnection := Connection ClientMessage ServerMessage

namespace ServerConnectionManager

/-- `create` for a connection that will be at `position`; `none` is the null pointer. -/
def create (manager : ServerConnectionManager) (position : Nat) (maxMessageBytes : UInt32) :
    Except Exception (Option (ConnectionId × ServerConnection)) × ServerConnectionManager :=
  if manager.stopped then (.ok none, manager)
  else
    let connectionId := manager.nextConnectionId.next
    let manager := { manager with nextConnectionId := connectionId }
    if connectionId.id = 0 then (.error (.runtimeError "Too many connections"), manager)
    else
      match Connection.create { maxMessageBytes } with
      | .error e => (.error e, manager)
      | .ok connection =>
        (.ok (some (connectionId, connection)),
          { manager with
            connections := manager.connections.insertIfNew connectionId.id position })

def remove (manager : ServerConnectionManager) (id : ConnectionId) :
    Bool × ServerConnectionManager :=
  if manager.stopped then (false, manager)
  else
    (manager.connections.contains id.id,
      { manager with connections := manager.connections.erase id.id })

def get (manager : ServerConnectionManager) (id : ConnectionId) : Option Nat :=
  if manager.stopped then none else manager.connections[id.id]?

/-- `makeSnapshot`. -/
def snapshot (manager : ServerConnectionManager) : List Nat :=
  manager.connections.toList.map Prod.snd

end ServerConnectionManager

/-- A created connection; `served` records that `onMessage` has returned for it. -/
structure Peer where
  id : ConnectionId
  connection : ServerConnection
  served : Bool := false

structure Server where
  manager : ServerConnectionManager := {}
  world : WorldService := .initial
  connections : List Peer := []

namespace Server

def setConnection (server : Server) (position : Nat) (connection : ServerConnection) : Server :=
  { server with connections := server.connections.modify position ({ · with connection }) }

/-- `connection->start()`, `stop()` or `send()`. -/
def post (server : Server) (position : Nat) (handler : Posted ServerMessage) : Server :=
  { server with
    connections := server.connections.modify position fun peer =>
      { peer with connection := peer.connection.post handler } }

/-- `ServerConnectionManager::send`. -/
def send (server : Server) (id : ConnectionId) (message : ServerMessage) : Server :=
  match server.manager.get id with
  | none => server
  | some position => server.post position (.sendImpl message)

def handleDisconnect (server : Server) (id : ConnectionId) : Server :=
  { server with
    world := ServerMessageHandler.onDisconnect server.world id
    manager := (server.manager.remove id).2 }

/-- A connection has moved on, and its close handler has run if that closed it. -/
def advance (server : Server) (position : Nat) (peer : Peer) (connection : ServerConnection) :
    Server :=
  let advanced := server.setConnection position connection
  if peer.connection.closed = false ∧ connection.closed = true then
    advanced.handleDisconnect peer.id
  else advanced

/-- The accept loop has a socket: `create`, then `start`. -/
def accept (server : Server) (maxMessageBytes : UInt32) : Except Exception Unit × Server :=
  match server.manager.create server.connections.length maxMessageBytes with
  | (.error e, manager) => (.error e, { server with manager })
  | (.ok none, manager) => (.ok (), { server with manager })
  | (.ok (some (id, connection)), manager) =>
    (.ok (), { server with
      manager
      connections := server.connections ++ [{ id, connection := connection.post .startImpl }] })

/-- `onMessage` has returned: the response is sent and the read loop goes on. -/
def respond (server : Server) (position : Nat) (peer : Peer) (message : ClientMessage)
    (response : ServerMessage) (world : WorldService) : Server :=
  let served := { peer with connection := peer.connection.readMessage message, served := true }
  let server := { server with world, connections := server.connections.set position served }
  let server := server.send peer.id { response with requestId := message.requestId }
  { server with
    connections := server.connections.modify position fun peer =>
      { peer with connection := peer.connection.readLoop } }

/-- `readMessage` completes in the read loop of a connection. -/
def deliver (server : Server) (position : Nat) (peer : Peer) (message : ClientMessage) : Server :=
  if peer.connection.closed then
    server.setConnection position (peer.connection.readMessage message)
  else
    match ServerMessageHandler.onMessage server.world peer.id message with
    | (.error _, world) =>
      { server with world }.advance position peer
        (peer.connection.readMessage message).failReading
    | (.ok response, world) => server.respond position peer message response world

def stopAll (server : Server) : Server :=
  if server.manager.stopped then server
  else
    let snapshot := server.manager.snapshot
    snapshot.foldl (fun server position => server.post position .stopImpl)
      { server with manager := { server.manager with stopped := true, connections := ∅ } }

inductive Event
  | accept (maxMessageBytes : UInt32)
  | deliver (position : Nat) (message : ClientMessage)
  | connection (position : Nat) (event : Connection.Event ClientMessage ServerMessage)
  | stopAll
  deriving DecidableEq, Repr

/-- An event that gives nothing to the message handler and takes nothing from it. -/
def internal : Connection.Event ClientMessage ServerMessage → Bool
  | .readCompletes _ | .handlerReturns | .handlerThrows => false
  | _ => true

def step (native : Endian) (serialize : ServerMessage → Option (List UInt8)) :
    Machine Server Event
  | server, .accept maxMessageBytes => some (server.accept maxMessageBytes).2
  | server, .deliver position message =>
    match server.connections[position]? with
    | none => none
    | some peer =>
      if peer.connection.reader = .reading then some (server.deliver position peer message)
      else none
  | server, .connection position event =>
    match server.connections[position]? with
    | none => none
    | some peer =>
      if internal event then
        (Connection.step native serialize peer.connection event).map
          (server.advance position peer)
      else none
  | server, .stopAll => some server.stopAll

end Server

end Stalker2D.Network
