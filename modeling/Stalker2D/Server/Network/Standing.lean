import Stalker2D.Machine.Lists
import Stalker2D.Server.Game.History
import Stalker2D.Server.Network.ServerConnectionManager

/-!
# What an event does to ids and players

For ids and players a connection is only its id, whether it has closed and whether it
has been served: its `Standing`. `Effect` lists what one event of the server can do to
the standings, the manager and the world, and every step is shown to have one of these
effects, so that nothing below has to look into a connection again.
-/

namespace Stalker2D.Network

open Protocol Game

/-- What ids and players depend on. -/
structure Standing where
  id : ConnectionId
  closed : Bool := false
  served : Bool := false
  deriving DecidableEq, Repr

def Peer.standing (peer : Peer) : Standing := ⟨peer.id, peer.connection.closed, peer.served⟩

namespace Server

variable {native : Endian} {serialize : ServerMessage → Option (List UInt8)}
variable {server t : Server}

def standings (server : Server) : List Standing := server.connections.map Peer.standing

theorem standings_getElem? {position : Nat} {peer : Peer}
    (h : server.connections[position]? = some peer) :
    server.standings[position]? = some peer.standing := by
  rw [standings, List.getElem?_map, h, Option.map_some]

/-- The id the next `create` will give. -/
def nextId (server : Server) : ConnectionId := server.manager.nextConnectionId.next

/-- What an event can do, as far as ids and players are concerned. -/
inductive Effect (server t : Server) : Event → Prop
  | unchanged (e : Event) (idle : ∀ m, e = .accept m → server.manager.stopped = true)
      (standings : t.standings = server.standings) (manager : t.manager = server.manager)
      (world : t.world = server.world) : Effect server t e
  | refused (m : UInt32) (invalid : server.nextId.id = 0 ∨ m = 0)
      (standings : t.standings = server.standings)
      (manager : t.manager = { server.manager with nextConnectionId := server.nextId })
      (world : t.world = server.world) : Effect server t (.accept m)
  | created (m : UInt32) (running : server.manager.stopped = false)
      (valid : server.nextId.id ≠ 0 ∧ m ≠ 0)
      (standings : t.standings = server.standings ++ [{ id := server.nextId }])
      (manager : t.manager =
        { server.manager with
          nextConnectionId := server.nextId
          connections := server.manager.connections.insertIfNew server.nextId.id
            server.standings.length })
      (world : t.world = server.world) : Effect server t (.accept m)
  | served (e : Event) (position : Nat) (a : Standing) (p : PlayerId)
      (other : ∀ m, e ≠ .accept m) (get : server.standings[position]? = some a)
      (live : a.closed = false)
      (standings : t.standings = server.standings.set position { a with served := true })
      (manager : t.manager = server.manager)
      (connected : server.world.connect a.id.id = (.ok p, t.world)) : Effect server t e
  | closed (e : Event) (position : Nat) (a : Standing)
      (other : ∀ m, e ≠ .accept m) (get : server.standings[position]? = some a)
      (live : a.closed = false)
      (standings : t.standings = server.standings.set position { a with closed := true })
      (manager : t.manager = (server.manager.remove a.id).2)
      (world : t.world = server.world.disconnect a.id.id) : Effect server t e
  | stopped (standings : t.standings = server.standings)
      (manager : t.manager = { server.manager with stopped := true, connections := ∅ })
      (world : t.world = server.world) : Effect server t .stopAll

section Standings

/-- An update that leaves every standing alone. -/
theorem standings_modify (position : Nat) (f : Peer → Peer)
    (h : ∀ peer, (f peer).standing = peer.standing) :
    (server.connections.modify position f).map Peer.standing = server.standings := by
  apply List.ext_getElem?
  intro i
  rw [standings, List.getElem?_map, List.getElem?_map, List.getElem?_modify]
  cases server.connections[i]? with
  | none => rfl
  | some peer =>
    simp only [Option.map_eq_map, Option.map_some, Option.some.injEq]
    split
    · exact h peer
    · rfl

@[simp] theorem standings_post (position : Nat) (handler : Posted ServerMessage) :
    (server.post position handler).standings = server.standings :=
  standings_modify position _ fun _ => rfl

theorem send_frame (server : Server) (id : ConnectionId) (message : ServerMessage) :
    (server.send id message).standings = server.standings ∧
      (server.send id message).manager = server.manager ∧
      (server.send id message).world = server.world := by
  simp only [send]
  split
  · exact ⟨rfl, rfl, rfl⟩
  · exact ⟨standings_post _ _, rfl, rfl⟩

theorem standings_set {position : Nat} {peer : Peer}
    (h : server.connections[position]? = some peer) (f : Peer → Peer) :
    (server.connections.modify position f).map Peer.standing =
      server.standings.set position (f peer).standing := by
  have hlt := (List.getElem?_eq_some_iff.mp h).1
  apply List.ext_getElem?
  intro i
  rw [List.getElem?_map, List.getElem?_modify, List.getElem?_set, standings, List.length_map,
    List.getElem?_map]
  by_cases hi : position = i
  · subst hi
    rw [if_pos rfl, if_pos hlt, h]
    simp
  · cases server.connections[i]? <;> simp [hi]

end Standings

/-- `advance` closes the connection or leaves everything as it was. -/
theorem effect_advance {e : Event} (other : ∀ m, e ≠ .accept m) {position : Nat} {peer : Peer}
    (h : server.connections[position]? = some peer) {connection : ServerConnection}
    (hclosed : peer.connection.closed = true → connection.closed = true) :
    Effect server (server.advance position peer connection) e := by
  have hset := standings_set h ({ · with connection })
  simp only [advance]
  split
  next hcloses =>
    refine .closed e position peer.standing other (standings_getElem? h) hcloses.1 ?_ rfl rfl
    refine hset.trans ?_
    simp only [Peer.standing, hcloses.2]
  next hstays =>
    refine .unchanged e (fun m hm => absurd hm (other m)) ?_ rfl rfl
    have hsame : connection.closed = peer.connection.closed := by
      cases hp : peer.connection.closed with
      | true => exact hclosed hp
      | false => simpa [hp] using hstays
    refine hset.trans ?_
    simp only [Peer.standing, hsame]
    exact set_of_getElem? (standings_getElem? h)

theorem closed_readMessage {connection : ServerConnection} (message : ClientMessage) :
    (connection.readMessage message).closed = connection.closed := by
  simp only [Connection.readMessage]
  split <;> rfl

/-- A response is posted and the read loop goes on: what counts is that the peer is served. -/
theorem standings_respond (position : Nat) (peer : Peer) (message : ClientMessage)
    (response : ServerMessage) (world : WorldService) :
    (server.respond position peer message response world).standings =
        server.standings.set position { peer.standing with served := true } ∧
      (server.respond position peer message response world).manager = server.manager ∧
      (server.respond position peer message response world).world = world := by
  unfold respond
  dsimp only
  obtain ⟨hstandings, hmanager, hworld⟩ :=
    send_frame
      { server with
        world
        connections := server.connections.set position
          { peer with connection := peer.connection.readMessage message, served := true } }
      peer.id { response with requestId := message.requestId }
  refine ⟨?_, hmanager, hworld⟩
  refine (standings_modify position
    (fun peer => { peer with connection := peer.connection.readLoop }) fun _ => rfl).trans
    (hstandings.trans ?_)
  simp only [standings, List.map_set, Peer.standing, closed_readMessage]

theorem onMessage_cases (world : WorldService) (id : ConnectionId) (message : ClientMessage) :
    (∃ error, ServerMessageHandler.onMessage world id message = (.error error, world)) ∨
      ∃ p response world', world.connect id.id = (.ok p, world') ∧
        ServerMessageHandler.onMessage world id message = (.ok response, world') := by
  simp only [ServerMessageHandler.onMessage]
  obtain ⟨p, -, h⟩ | ⟨-, -, h⟩ | ⟨-, -, h⟩ := WorldService.connect_cases world id.id
  · exact .inr ⟨p, _, _, h, by rw [h]⟩
  · exact .inl ⟨_, by rw [h]⟩
  · exact .inr ⟨_, _, _, h, by rw [h]⟩

theorem effect_deliver {position : Nat} {peer : Peer} (message : ClientMessage)
    (h : server.connections[position]? = some peer) :
    Effect server (server.deliver position peer message) (.deliver position message) := by
  have other : ∀ m, Event.deliver position message ≠ .accept m := fun m hm => nomatch hm
  simp only [deliver]
  split
  next hclosed =>
    refine .unchanged _ (fun m hm => nomatch hm) ?_ rfl rfl
    refine (standings_set h _).trans ?_
    simp only [Peer.standing, closed_readMessage]
    exact set_of_getElem? (standings_getElem? h)
  next hopen =>
    have live : peer.standing.closed = false := by simpa [Peer.standing] using hopen
    obtain ⟨error, hcall⟩ | ⟨p, response, world, hconnect, hcall⟩ :=
      onMessage_cases server.world peer.id message
    · rw [hcall]
      exact effect_advance other h fun hp => absurd hp hopen
    · rw [hcall]
      obtain ⟨hstandings, hmanager, hworld⟩ :=
        standings_respond position peer message response world
      exact .served _ position peer.standing p other (standings_getElem? h) live hstandings hmanager
        (hconnect.trans (by rw [hworld]))

/-- The three ways out of `create`. -/
theorem create_cases (manager : ServerConnectionManager) (position : Nat) (m : UInt32) :
    (manager.stopped = true ∧ manager.create position m = (.ok none, manager)) ∨
      ((manager.nextConnectionId.next.id = 0 ∨ m = 0) ∧ ∃ error, manager.create position m =
        (.error error, { manager with nextConnectionId := manager.nextConnectionId.next })) ∨
      (manager.stopped = false ∧ manager.nextConnectionId.next.id ≠ 0 ∧ m ≠ 0 ∧
        ∃ connection : ServerConnection, connection.closed = false ∧ manager.create position m =
          (.ok (some (manager.nextConnectionId.next, connection)),
            { manager with
              nextConnectionId := manager.nextConnectionId.next
              connections :=
                manager.connections.insertIfNew manager.nextConnectionId.next.id position })) := by
  unfold ServerConnectionManager.create
  by_cases hstopped : manager.stopped = true
  · exact .inl ⟨hstopped, by rw [if_pos hstopped]⟩
  · have hrunning : manager.stopped = false := by simpa using hstopped
    by_cases hzero : manager.nextConnectionId.next.id = 0
    · refine .inr (.inl ⟨.inl hzero, .runtimeError "Too many connections", ?_⟩)
      rw [if_neg hstopped]
      dsimp only
      rw [if_pos hzero]
    · by_cases hm : m = 0
      · subst hm
        refine .inr (.inl ⟨.inr rfl,
          .invalidArgument "Connection maxMessageBytes must be greater than zero", ?_⟩)
        rw [if_neg hstopped]
        dsimp only
        rw [if_neg hzero]
        rfl
      · refine .inr (.inr ⟨hrunning, hzero, hm,
          { codec := ⟨m⟩, maxQueuedMessages := 1024 }, rfl, ?_⟩)
        rw [if_neg hstopped]
        dsimp only
        rw [if_neg hzero]
        simp [Connection.create, Connection.validate, hm, bind, Except.bind, pure, Except.pure]

theorem effect_accept (server : Server) (m : UInt32) :
    Effect server (server.accept m).2 (.accept m) := by
  simp only [accept]
  obtain ⟨hstopped, h⟩ | ⟨hinvalid, error, h⟩ | ⟨hrunning, hzero, hm, connection, hopen, h⟩ :=
    create_cases server.manager server.connections.length m
  · rw [h]
    exact .unchanged _ (fun _ _ => hstopped) rfl rfl rfl
  · rw [h]
    exact .refused m hinvalid rfl rfl rfl
  · rw [h]
    refine .created m hrunning ⟨hzero, hm⟩ ?_ ?_ rfl
    · simp [standings, Peer.standing, nextId, Connection.post, hopen]
    · simp [standings, nextId]

theorem foldl_post_frame (positions : List Nat) (handler : Posted ServerMessage)
    (server : Server) :
    (positions.foldl (fun s position => s.post position handler) server).standings =
        server.standings ∧
      (positions.foldl (fun s position => s.post position handler) server).manager =
        server.manager ∧
      (positions.foldl (fun s position => s.post position handler) server).world =
        server.world := by
  induction positions generalizing server with
  | nil => exact ⟨rfl, rfl, rfl⟩
  | cons position positions ih =>
    obtain ⟨hstandings, hmanager, hworld⟩ := ih (server.post position handler)
    exact ⟨hstandings.trans (standings_post _ _), hmanager, hworld⟩

theorem stopAll_manager (server : Server) :
    server.stopAll.manager = if server.manager.stopped then server.manager
      else { server.manager with stopped := true, connections := ∅ } := by
  simp only [stopAll]
  split
  · rfl
  · exact (foldl_post_frame _ _ _).2.1

theorem effect_stopAll : Effect server server.stopAll .stopAll := by
  have hmanager := stopAll_manager server
  simp only [stopAll] at hmanager ⊢
  split
  next h => exact .unchanged _ (fun m hm => nomatch hm) rfl rfl rfl
  next h =>
    obtain ⟨hstandings, -, hworld⟩ := foldl_post_frame server.manager.snapshot .stopImpl
      { server with manager := { server.manager with stopped := true, connections := ∅ } }
    rw [if_neg h, if_neg h] at hmanager
    exact .stopped hstandings hmanager hworld

theorem effect_step {e : Event} (hstep : step native serialize server e = some t) :
    Effect server t e := by
  cases e with
  | accept m => exact Option.some.inj hstep ▸ effect_accept server m
  | deliver position message =>
    simp only [step] at hstep
    split at hstep
    · cases hstep
    next peer h =>
      simp only [Option.ite_none_right_eq_some, Option.some.injEq] at hstep
      exact hstep.2 ▸ effect_deliver message h
  | connection position event =>
    simp only [step] at hstep
    split at hstep
    · cases hstep
    next peer h =>
      simp only [Option.ite_none_right_eq_some, Option.map_eq_some_iff] at hstep
      obtain ⟨-, connection, hconnection, rfl⟩ := hstep
      have other : ∀ m, Event.connection position event ≠ .accept m := fun m hm => nomatch hm
      exact effect_advance other h fun hclosed =>
        (Connection.frozen_step hclosed hconnection).closed
  | stopAll => exact Option.some.inj hstep ▸ effect_stopAll

/-- No connection is taken away. -/
theorem Effect.length (effect : Effect server t e) :
    server.standings.length ≤ t.standings.length := by
  cases effect with
  | unchanged _ _ standings => rw [standings]
  | refused _ _ standings => rw [standings]
  | created _ _ _ standings =>
    rw [standings, List.length_append]
    exact Nat.le_add_right _ _
  | served _ _ _ _ _ _ _ standings => rw [standings, List.length_set]
  | closed _ _ _ _ _ _ standings => rw [standings, List.length_set]
  | stopped standings => rw [standings]

end Server

end Stalker2D.Network
