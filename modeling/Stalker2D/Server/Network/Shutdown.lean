import Stalker2D.Machine.LeadsTo
import Stalker2D.Server.Network.Broadcast
import Stalker2D.Server.Network.TcpServer

/-!
# The life of the server

The manager alone would give an id twice when its counter wraps. The accept loop does not
survive that wrap, so the server never does: under `TcpServer` connections are told apart and
players follow them in every run, however many sockets come.

`stop` ends the server: it tells every live connection to stop, and once what is posted has
run, all connections are closed and nobody is left in the world.
-/

namespace Stalker2D.Network

open Protocol Game

namespace Connection

variable {ι ο : Type} {native : Endian} {serialize : ο → Option (List UInt8)}
variable {connection t : Connection ι ο} {e : Event ι ο}

/-- A posted `stopImpl` stays posted until the connection is closed. -/
theorem stopImpl_posted_step (hposted : .stopImpl ∈ connection.posted)
    (hstep : step native serialize connection e = some t) :
    t.closed = true ∨ .stopImpl ∈ t.posted := by
  refine step_elim (P := fun t => t.closed = true ∨ .stopImpl ∈ t.posted) hstep ?post ?runPosted
    ?readLoop ?readMessage ?failReading ?writeLoop ?progress ?failWriting
  case post => exact fun _ => .inr (List.mem_append_left _ hposted)
  case runPosted =>
    intro handler posted h
    rw [h] at hposted
    cases handler with
    | startImpl =>
      right
      rw [runPosted, posted_startImpl]
      exact (List.mem_cons.mp hposted).resolve_left fun h => by cases h
    | stopImpl => exact .inl stopImpl_closed
    | sendImpl message =>
      right
      rw [runPosted, posted_sendImpl]
      exact (List.mem_cons.mp hposted).resolve_left fun h => by cases h
  case readLoop => exact .inr hposted
  case readMessage =>
    intro message
    rw [(sameOutbox_readMessage connection message).posted]
    exact .inr hposted
  case failReading => exact .inl stopImpl_closed
  case writeLoop =>
    intro i _ _ _ _
    rw [(sameOutbox_writeLoop connection i).posted]
    exact .inr hposted
  case progress => exact fun _ _ _ _ _ _ _ _ _ => .inr hposted
  case failWriting =>
    intro i _ _ _
    rw [(sameOutbox_failWriting connection i).posted]
    exact .inr hposted

theorem stopImpl_posted_exec {es : List (Event ι ο)} (hposted : .stopImpl ∈ connection.posted)
    (run : (step native serialize).exec connection es = some t) :
    t.closed = true ∨ .stopImpl ∈ t.posted := by
  induction es generalizing connection with
  | nil =>
    obtain rfl := Option.some.inj run
    exact .inr hposted
  | cons e es ih =>
    obtain ⟨u, hstep, hrest⟩ := Machine.exec_cons_eq_some.mp run
    obtain hclosed | hposted := stopImpl_posted_step hposted hstep
    · exact .inl ((frozen_exec hclosed hrest).closed)
    · exact ih hposted hrest

end Connection

namespace Server

variable {native : Endian} {serialize : ServerMessage → Option (List UInt8)}
variable {server t : Server} {e : Event}

/-- A connection that was not just created has moved by its own events. -/
theorem peer_exec (linked : server.Linked) (hstep : step native serialize server e = some t)
    {i : Nat} {later : Peer} (h : t.connections[i]? = some later) :
    (∃ m, e = .accept m ∧ i = server.connections.length) ∨
      ∃ peer es, server.connections[i]? = some peer ∧
        (Connection.step native serialize).exec peer.connection es = some later.connection := by
  cases hsolicited : e.unsolicited with
  | false =>
    cases peerStep linked hstep hsolicited h with
    | created m connection event place => exact .inl ⟨m, event, place⟩
    | quiet peer es get run => exact .inr ⟨peer, es, get, run⟩
    | answered peer es m r event get run => exact .inr ⟨peer, es, get, run⟩
  | true =>
    right
    cases e with
    | accept | deliver | stopAll => cases hsolicited
    | connection position event =>
      simp only [step] at hstep
      split at hstep
      · cases hstep
      next peer get =>
        simp only [Option.ite_none_right_eq_some, Option.map_eq_some_iff] at hstep
        obtain ⟨-, connection, hconnection, rfl⟩ := hstep
        rw [connections_advance, List.getElem?_modify] at h
        obtain ⟨old, hold, rfl⟩ := Option.map_eq_some_iff.mp h
        by_cases hi : position = i
        · subst hi
          obtain rfl := Option.some.inj (get.symm.trans hold)
          refine ⟨peer, [event], get, ?_⟩
          rw [if_pos rfl, Machine.exec_cons, hconnection]
          rfl
        · rw [if_neg hi]
          exact ⟨old, [], hold, rfl⟩

theorem stopAll_frame (server : Server) :
    server.stopAll.standings = server.standings ∧ server.stopAll.world = server.world := by
  rw [stopAll]
  split
  · exact ⟨rfl, rfl⟩
  · obtain ⟨standings, -, world⟩ := foldl_post_frame server.manager.snapshot .stopImpl
      { server with manager := { server.manager with stopped := true, connections := ∅ } }
    exact ⟨standings, world⟩

/-- `stopAll` posts `stopImpl` on every live connection. -/
theorem Linked.stopAll_posted (linked : server.Linked) (running : server.manager.stopped = false)
    {i : Nat} {later : Peer} (h : server.stopAll.connections[i]? = some later)
    (hopen : later.connection.closed = false) : .stopImpl ∈ later.connection.posted := by
  obtain ⟨nodup, hmem⟩ := linked.snapshot running
  rw [stopAll, if_neg (Bool.eq_false_iff.mp running), getElem?_foldl_post nodup] at h
  obtain ⟨peer, hpeer, rfl⟩ := Option.map_eq_some_iff.mp h
  have hlive : peer.standing.closed = false := by
    rw [← hopen]
    split <;> rfl
  rw [if_pos ((hmem i).mpr ⟨peer.standing, standings_getElem? hpeer, hlive⟩)]
  exact List.mem_append_right _ (List.mem_singleton_self _)

/-- `PlayersFollow` asks of the counter only that it has told connections apart. -/
theorem Linked.playersFollow_of_distinct (linked : server.Linked)
    (distinct : ∀ (i j : Nat) a b, server.standings[i]? = some a → server.standings[j]? = some b →
      a.id = b.id → i = j) : PlayersFollow server := by
  let full : Server :=
    { server with manager := { server.manager with nextConnectionId := ⟨65535⟩ } }
  have hlinked : full.Linked := linked.congr rfl rfl rfl rfl
  have counted : full.Counted 65535 :=
    ⟨Nat.le_refl _, fun _ a _ => Nat.le_of_lt_succ a.id.id.toNat_lt, distinct⟩
  obtain ⟨distinct, bound, one, others⟩ := hlinked.playersFollow counted
  exact ⟨distinct, bound, one, others⟩

end Server

namespace TcpServer

variable {native : Endian} {serialize : ServerMessage → Option (List UInt8)}
variable {tcp t : TcpServer} {e : Event}

/-- What the accept loop gives the manager: as long as it goes on, the counter has not
wrapped. -/
structure Sound (tcp : TcpServer) : Prop where
  linked : tcp.server.Linked
  stopped : tcp.server.manager.stopped = tcp.stopped
  distinct : ∀ (i j : Nat) a b, tcp.server.standings[i]? = some a →
    tcp.server.standings[j]? = some b → a.id = b.id → i = j
  below : tcp.loop = .absent ∨ tcp.loop = .accepting → ∀ (i : Nat) a,
    tcp.server.standings[i]? = some a →
    a.id.id.toNat ≤ tcp.server.manager.nextConnectionId.id.toNat
  told : tcp.stopped = true → ∀ (i : Nat) peer, tcp.server.connections[i]? = some peer →
    peer.connection.closed = false → .stopImpl ∈ peer.connection.posted

theorem sound_initial (m : UInt32) : Sound { maxMessageBytes := m } where
  linked := Server.linked_initial
  stopped := rfl
  distinct i j a b h := by simp [Server.standings] at h
  below _ i a h := by simp [Server.standings] at h
  told h := by cases h

/-- Nothing but the state of the loop has changed. -/
theorem Sound.setLoop (sound : tcp.Sound) {loop : AcceptLoop}
    (h : loop = .absent ∨ loop = .accepting → tcp.loop = .absent ∨ tcp.loop = .accepting) :
    Sound { tcp with loop } :=
  ⟨sound.linked, sound.stopped, sound.distinct, fun hloop => sound.below (h hloop), sound.told⟩

theorem Sound.acceptFails (sound : tcp.Sound) (ec : ErrorCode) : (tcp.acceptFails ec).Sound := by
  rw [TcpServer.acceptFails]
  split
  · exact sound.setLoop (by rintro (h | h) <;> cases h)
  · split
    · exact sound.setLoop (by rintro (h | h) <;> cases h)
    · exact sound

/-- An id that is handed out is one more than the last. -/
theorem toNat_nextId {server : Server} (h : server.nextId.id ≠ 0) :
    server.nextId.id.toNat = server.manager.nextConnectionId.id.toNat + 1 := by
  have hmod : server.nextId.id.toNat =
      (server.manager.nextConnectionId.id.toNat + 1) % 65536 := by
    rw [Server.nextId, ConnectionId.next_id, UInt16.toNat_add]
    rfl
  have hne : server.nextId.id.toNat ≠ 0 := fun hzero => h (UInt16.toNat_inj.mp hzero)
  have hlt := server.manager.nextConnectionId.id.toNat_lt
  omega

/-- A socket comes while the loop goes on. It is served under a new id, or it ends the loop. -/
theorem Sound.acceptSucceeds (sound : tcp.Sound) (hloop : tcp.loop = .accepting) :
    tcp.acceptSucceeds.Sound := by
  have below := sound.below (.inr hloop)
  obtain ⟨hstopped, h⟩ | ⟨-, error, h⟩ | ⟨running, hzero, hm, connection, -, h⟩ :=
    Server.create_cases tcp.server.manager tcp.server.connections.length tcp.maxMessageBytes
  · have hleft : tcp.acceptSucceeds = { tcp with loop := .left } := by
      rw [TcpServer.acceptSucceeds, Server.accept, h]
    exact hleft ▸ sound.setLoop (by rintro (h | h) <;> cases h)
  · have hescaped : tcp.acceptSucceeds =
        { tcp with
          server := { tcp.server with
            manager := { tcp.server.manager with nextConnectionId := tcp.server.nextId } }
          loop := .escaped error } := by
      rw [TcpServer.acceptSucceeds, Server.accept, h]
      rfl
    rw [hescaped]
    refine ⟨sound.linked.congr rfl rfl rfl rfl, sound.stopped, sound.distinct, ?_, sound.told⟩
    rintro (hloop | hloop) <;> cases hloop
  · have hserved : tcp.acceptSucceeds =
        { tcp with server := (tcp.server.accept tcp.maxMessageBytes).2 } := by
      rw [TcpServer.acceptSucceeds, h]
    have hnext := toNat_nextId hzero
    have hfresh : ∀ (i : Nat) a, tcp.server.standings[i]? = some a → a.id ≠ tcp.server.nextId := by
      intro i a hi hid
      have hle := below i a hi
      rw [hid, hnext] at hle
      omega
    rw [hserved]
    cases Server.effect_accept tcp.server tcp.maxMessageBytes with
    | unchanged _ idle => exact absurd (running.symm.trans (idle _ rfl)) Bool.noConfusion
    | refused _ invalid => exact absurd invalid (not_or.mpr ⟨hzero, hm⟩)
    | served _ _ _ _ other => exact absurd rfl (other _)
    | closed _ _ _ other => exact absurd rfl (other _)
    | created _ _ _ standings manager world =>
      refine ⟨sound.linked.created running (fun i a hi _ => hfresh i a hi) standings manager world,
        ?stopped, ?distinct, ?below, ?told⟩
      case stopped =>
        rw [manager]
        exact sound.stopped
      case distinct =>
        intro i j a b hi hj hid
        simp only [standings] at hi hj
        obtain hi | ⟨rfl, rfl⟩ := getElem?_concat_cases hi <;>
          obtain hj | ⟨rfl, rfl⟩ := getElem?_concat_cases hj
        · exact sound.distinct i j a b hi hj hid
        · exact absurd hid (hfresh i a hi)
        · exact absurd hid.symm (hfresh j b hj)
        · rfl
      case below =>
        intro _ i a hi
        simp only [standings] at hi
        rw [manager]
        simp only [hnext]
        obtain hi | ⟨rfl, rfl⟩ := getElem?_concat_cases hi
        · exact Nat.le_succ_of_le (below i a hi)
        · exact Nat.le_of_eq hnext
      case told =>
        intro hstopped
        rw [sound.stopped] at running
        exact absurd (running.symm.trans hstopped) Bool.noConfusion

theorem Sound.stop (sound : tcp.Sound) : tcp.stop.Sound := by
  rw [TcpServer.stop]
  split
  · exact sound
  next hrunning =>
    have running : tcp.server.manager.stopped = false :=
      sound.stopped.trans (Bool.eq_false_iff.mpr hrunning)
    have hmanager := Server.stopAll_manager tcp.server
    obtain ⟨standings, world⟩ := tcp.server.stopAll_frame
    rw [running, if_neg Bool.false_ne_true] at hmanager
    refine ⟨sound.linked.stop standings hmanager world, ?_, ?_, ?_, ?_⟩
    · rw [hmanager]
    · rw [standings]
      exact sound.distinct
    · rw [standings, hmanager]
      exact sound.below
    · exact fun _ i peer h hopen => sound.linked.stopAll_posted running h hopen

/-- Whatever the connections do. -/
theorem Sound.traffic (sound : tcp.Sound) {event : Server.Event} (htraffic : traffic event = true)
    {server : Server} (hstep : Server.step native serialize tcp.server event = some server) :
    Sound { tcp with server } := by
  have hfresh : ¬tcp.server.Reuses event := by
    cases event with
    | accept m => cases htraffic
    | deliver | connection | stopAll => exact id
  obtain ⟨hstopped, hnext⟩ := manager_of_traffic htraffic hstep
  have hold : ∀ {i : Nat} {b : Standing}, server.standings[i]? = some b →
      ∃ a, tcp.server.standings[i]? = some a ∧ b.id = a.id := by
    intro i b h
    obtain hold | ⟨-, -, hone, -⟩ := (Server.effect_step hstep).standing_inv h
    · exact hold
    · cases event with
      | accept m => cases htraffic
      | deliver | connection | stopAll => cases hone
  refine ⟨Server.linked_step sound.linked hfresh hstep, hstopped.trans sound.stopped, ?distinct,
    ?below, ?told⟩
  case distinct =>
    intro i j a b hi hj hid
    obtain ⟨a', hi, ha⟩ := hold hi
    obtain ⟨b', hj, hb⟩ := hold hj
    exact sound.distinct i j a' b' hi hj (ha ▸ hb ▸ hid)
  case below =>
    intro hloop i b hi
    obtain ⟨a, hi, hid⟩ := hold hi
    rw [hid, hnext]
    exact sound.below hloop i a hi
  case told =>
    intro hstopped i later h hopen
    obtain ⟨m, rfl, -⟩ | ⟨peer, es, hpeer, run⟩ := Server.peer_exec sound.linked hstep h
    · cases htraffic
    · have hbefore := sound.told hstopped i peer hpeer (Connection.closed_exec run hopen)
      obtain hclosed | hposted := Connection.stopImpl_posted_exec hbefore run
      · exact absurd (hopen.symm.trans hclosed) Bool.noConfusion
      · exact hposted

theorem Sound.step (sound : tcp.Sound) (hstep : step native serialize tcp e = some t) :
    t.Sound := by
  cases e with
  | start =>
    simp only [TcpServer.step, Option.ite_none_right_eq_some, Option.some.injEq] at hstep
    obtain ⟨habsent, rfl⟩ := hstep
    exact sound.setLoop fun _ => .inl habsent
  | acceptCompletes ec =>
    simp only [TcpServer.step, Option.ite_none_right_eq_some, Option.some.injEq] at hstep
    obtain ⟨hloop, rfl⟩ := hstep
    cases ec with
    | none => exact sound.acceptSucceeds hloop
    | some ec => exact sound.acceptFails ec
  | stop =>
    obtain rfl := Option.some.inj hstep
    exact sound.stop
  | server event =>
    simp only [TcpServer.step, Option.ite_none_right_eq_some, Option.map_eq_some_iff] at hstep
    obtain ⟨htraffic, server, hserver, rfl⟩ := hstep
    exact sound.traffic htraffic hserver

theorem sound_exec {m : UInt32} {es : List Event}
    (run : (step native serialize).exec { maxMessageBytes := m } es = some tcp) : tcp.Sound :=
  Machine.Invariant.exec (fun _ _ _ sound hstep => sound.step hstep) (sound_initial m) run

/-- An event does to the connections what one event of the server does, or nothing. -/
theorem effect_step (hstep : step native serialize tcp e = some t) :
    t.server = tcp.server ∨ ∃ event, Server.Effect tcp.server t.server event := by
  cases e with
  | start =>
    simp only [TcpServer.step, Option.ite_none_right_eq_some, Option.some.injEq] at hstep
    obtain ⟨-, rfl⟩ := hstep
    exact .inl rfl
  | acceptCompletes ec =>
    simp only [TcpServer.step, Option.ite_none_right_eq_some, Option.some.injEq] at hstep
    obtain ⟨-, rfl⟩ := hstep
    cases ec with
    | none =>
      have hserver : tcp.acceptSucceeds.server = (tcp.server.accept tcp.maxMessageBytes).2 := by
        rw [TcpServer.acceptSucceeds]
        split <;> rfl
      exact .inr ⟨_, hserver ▸ Server.effect_accept _ _⟩
    | some ec =>
      left
      simp only [TcpServer.acceptFails]
      split
      · rfl
      · split <;> rfl
  | stop =>
    obtain rfl := Option.some.inj hstep
    rw [TcpServer.stop]
    split
    · exact .inl rfl
    · exact .inr ⟨_, Server.effect_stopAll⟩
  | server event =>
    simp only [TcpServer.step, Option.ite_none_right_eq_some, Option.map_eq_some_iff] at hstep
    obtain ⟨-, server, hserver, rfl⟩ := hstep
    exact .inr ⟨event, Server.effect_step hserver⟩

theorem standing_exec {es : List Event} (run : (step native serialize).exec tcp es = some t)
    {i : Nat} {a : Standing} (h : tcp.server.standings[i]? = some a) :
    ∃ b, t.server.standings[i]? = some b ∧ b.id = a.id ∧ (a.closed = true → b.closed = true) := by
  induction es generalizing tcp a with
  | nil =>
    obtain rfl := Option.some.inj run
    exact ⟨a, h, rfl, id⟩
  | cons e es ih =>
    obtain ⟨u, hstep, hrest⟩ := Machine.exec_cons_eq_some.mp run
    obtain hsame | ⟨event, effect⟩ := effect_step hstep
    · exact ih hrest (hsame ▸ h)
    · obtain ⟨b, hb, hid, hclosed⟩ := effect.standing h
      obtain ⟨c, hc, hid', hclosed'⟩ := ih hrest hb
      exact ⟨c, hc, hid'.trans hid, fun ha => hclosed' (hclosed ha)⟩

/-- However many sockets come, no two connections ever have one id, `get` finds every live
one until `stop`, and players follow connections: one that has closed has no player then or
later. -/
theorem ids_never_reused {m : UInt32} {es : List Event}
    (run : (step native serialize).exec { maxMessageBytes := m } es = some tcp) :
    Server.PlayersFollow tcp.server ∧
      (tcp.stopped = false → ∀ (i : Nat) a, tcp.server.standings[i]? = some a →
        a.closed = false → tcp.server.manager.get a.id = some i) ∧
      ∀ (i : Nat) a, tcp.server.standings[i]? = some a → a.closed = true →
        ∀ fs t, (step native serialize).exec tcp fs = some t →
          t.server.world.playerFor a.id.id = none := by
  have sound := sound_exec run
  refine ⟨sound.linked.playersFollow_of_distinct sound.distinct, ?found, ?gone⟩
  case found =>
    intro running i a ha live
    exact sound.linked.found (sound.stopped.trans running) ha live
  case gone =>
    intro i a ha hclosed fs t hrun
    have sound' := sound_exec (Machine.exec_append_eq_some.mpr ⟨tcp, run, hrun⟩)
    obtain ⟨b, hb, hid, hstays⟩ := standing_exec hrun ha
    rw [← hid]
    exact (sound'.linked.playersFollow_of_distinct sound'.distinct).unbound hb (hstays hclosed)

/-- One client is served and leaves, the next one is served under another id. -/
def twoInTurn : List Event :=
  [.start, .acceptCompletes none, .server (.connection 0 .runPosted),
    .server (.connection 0 .readerStarts),
    .server (.deliver 0 { requestId := 1, payload := some (.ping {}) }),
    .server (.connection 0 .readFails), .acceptCompletes none,
    .server (.connection 1 .runPosted), .server (.connection 1 .readerStarts),
    .server (.deliver 1 { requestId := 1, payload := some (.ping {}) })]

theorem ids_never_reused_twoInTurn :
    ∃ tcp, (step .little fun _ => none).exec { maxMessageBytes := 1024 } twoInTurn = some tcp ∧
      Server.PlayersFollow tcp.server ∧ tcp.server.world.playerFor 1 = none ∧
      tcp.server.world.playerFor 2 = some 2 :=
  ⟨_, rfl, (@ids_never_reused .little (fun _ => none) _ 1024 twoInTurn rfl).1, by decide,
    by decide⟩

section Drain

/-- How many handlers are posted. -/
def posted (tcp : TcpServer) : Nat :=
  Machine.total (fun peer => peer.connection.posted.length) tcp.server.connections

/-- The next handler of one connection runs. -/
theorem exists_runPosted (native : Endian) (serialize : ServerMessage → Option (List UInt8))
    {i : Nat} {peer : Peer} (h : tcp.server.connections[i]? = some peer)
    (hposted : peer.connection.posted ≠ []) :
    ∃ t, step native serialize tcp (.server (.connection i .runPosted)) = some t ∧
      t.posted < tcp.posted := by
  obtain ⟨handler, rest, hsplit⟩ := List.exists_cons_of_ne_nil hposted
  obtain ⟨connection, hconnection, hrest⟩ : ∃ connection,
      Connection.step native serialize peer.connection .runPosted = some connection ∧
        connection.posted = rest := by
    simp only [Connection.step, hsplit]
    refine ⟨_, rfl, ?_⟩
    cases handler with
    | startImpl => exact Connection.posted_startImpl _
    | stopImpl => exact (Connection.sameOutbox_stopImpl _).posted
    | sendImpl message => exact Connection.posted_sendImpl _ message
  have hserver : Server.step native serialize tcp.server (.connection i .runPosted) =
      some (tcp.server.advance i peer connection) := by
    simp only [Server.step, h, Server.internal, if_true, hconnection, Option.map_some]
  refine ⟨{ tcp with server := tcp.server.advance i peer connection }, ?_, ?_⟩
  · simp only [step, traffic, if_true, hserver, Option.map_some]
  · rw [posted, Server.connections_advance]
    apply Machine.total_modify_lt h
    rw [hsplit, hrest]
    exact Nat.lt_succ_self _

/-- What is posted can run at any time, until nothing is. -/
theorem drains (native : Endian) (serialize : ServerMessage → Option (List UInt8)) :
    Machine.LeadsTo (step native serialize) (fun e => ∃ i, e = .server (.connection i .runPosted))
      (fun _ => True)
      (fun tcp => ∀ peer ∈ tcp.server.connections, peer.connection.posted = []) := by
  refine .ofMeasure posted fun tcp _ => ?_
  by_cases hdone : ∀ peer ∈ tcp.server.connections, peer.connection.posted = []
  · exact .inl hdone
  · push Not at hdone
    obtain ⟨peer, hmem, hposted⟩ := hdone
    obtain ⟨i, hi⟩ := List.mem_iff_getElem?.mp hmem
    obtain ⟨t, hstep, hlt⟩ := exists_runPosted native serialize hi hposted
    exact .inr ⟨_, t, ⟨i, rfl⟩, hstep, trivial, hlt⟩

end Drain

/-- A stopped server stays stopped, and no connection is created. -/
theorem Sound.stopped_step (sound : tcp.Sound) (stopped : tcp.stopped = true)
    (hstep : TcpServer.step native serialize tcp e = some t) :
    t.stopped = true ∧ t.server.connections.length = tcp.server.connections.length := by
  have hlength : ∀ server : Server, server.standings.length = server.connections.length :=
    fun server => List.length_map _
  rw [← hlength, ← hlength]
  constructor
  · cases e with
    | start =>
      simp only [TcpServer.step, Option.ite_none_right_eq_some, Option.some.injEq] at hstep
      obtain ⟨-, rfl⟩ := hstep
      exact stopped
    | acceptCompletes ec =>
      simp only [TcpServer.step, Option.ite_none_right_eq_some, Option.some.injEq] at hstep
      obtain ⟨-, rfl⟩ := hstep
      cases ec with
      | none =>
        simp only [TcpServer.acceptSucceeds]
        split <;> exact stopped
      | some ec =>
        show (tcp.acceptFails ec).stopped = true
        rw [TcpServer.acceptFails, if_pos stopped]
        split <;> exact stopped
    | stop =>
      obtain rfl := Option.some.inj hstep
      rw [TcpServer.stop, if_pos stopped]
      exact stopped
    | server event =>
      simp only [TcpServer.step, Option.ite_none_right_eq_some, Option.map_eq_some_iff] at hstep
      obtain ⟨-, server, -, rfl⟩ := hstep
      exact stopped
  · obtain hsame | ⟨event, effect⟩ := effect_step hstep
    · rw [hsame]
    · cases effect with
      | unchanged _ _ standings => rw [standings]
      | refused _ _ standings => rw [standings]
      | created _ running =>
        exact Bool.noConfusion ((sound.stopped.trans stopped).symm.trans running)
      | served _ _ _ _ _ _ _ standings => rw [standings, List.length_set]
      | closed _ _ _ _ _ _ standings => rw [standings, List.length_set]
      | stopped standings => rw [standings]

theorem Sound.stopped_exec (sound : tcp.Sound) (stopped : tcp.stopped = true) {es : List Event}
    (run : (TcpServer.step native serialize).exec tcp es = some t) :
    t.Sound ∧ t.stopped = true ∧
      t.server.connections.length = tcp.server.connections.length := by
  induction es generalizing tcp with
  | nil =>
    obtain rfl := Option.some.inj run
    exact ⟨sound, stopped, rfl⟩
  | cons e es ih =>
    obtain ⟨u, hstep, hrest⟩ := Machine.exec_cons_eq_some.mp run
    obtain ⟨hstopped, hlength⟩ := sound.stopped_step stopped hstep
    obtain ⟨sound', stopped', hlength'⟩ := ih (sound.step hstep) hstopped hrest
    exact ⟨sound', stopped', hlength'.trans hlength⟩

/-- After `stop` there is nothing left to do but to close. -/
theorem Sound.gone (sound : tcp.Sound) (stopped : tcp.stopped = true)
    (hposted : ∀ peer ∈ tcp.server.connections, peer.connection.posted = []) :
    (∀ peer ∈ tcp.server.connections, peer.connection.closed = true) ∧
      ∀ p, p ∉ tcp.server.world.state.players := by
  have closed : ∀ peer ∈ tcp.server.connections, peer.connection.closed = true := by
    intro peer hmem
    obtain ⟨i, hi⟩ := List.mem_iff_getElem?.mp hmem
    cases hopen : peer.connection.closed with
    | true => rfl
    | false =>
      have htold := sound.told stopped i peer hi hopen
      rw [hposted peer hmem] at htold
      cases htold
  refine ⟨closed, fun p hp => ?_⟩
  have follow := sound.linked.playersFollow_of_distinct sound.distinct
  obtain ⟨key, hkey⟩ := follow.others p hp
  obtain ⟨a, hmem, -, live, -⟩ := (follow.bound key).mp ⟨p, hkey⟩
  obtain ⟨peer, hpeer, rfl⟩ := List.mem_map.mp hmem
  exact Bool.noConfusion ((closed peer hpeer).symm.trans live)

/-- After `stop` no connection is created or found any more, each that is still open is
told to stop, and as soon as nothing is posted all are closed and the world is empty. What is
posted only has to run to get there. -/
theorem stop_closes_every_connection {m : UInt32} {es : List Event}
    (run : (step native serialize).exec { maxMessageBytes := m } es = some tcp)
    (stopped : tcp.stopped = true) :
    (∀ fs t, (step native serialize).exec tcp fs = some t →
        t.server.connections.length = tcp.server.connections.length ∧
        (∀ id, t.server.manager.get id = none) ∧
        (∀ peer ∈ t.server.connections, peer.connection.closed = true ∨
          .stopImpl ∈ peer.connection.posted) ∧
        ((∀ peer ∈ t.server.connections, peer.connection.posted = []) →
          (∀ peer ∈ t.server.connections, peer.connection.closed = true) ∧
            ∀ p, p ∉ t.server.world.state.players)) ∧
      ∃ fs t, (step native serialize).exec tcp fs = some t ∧
        (∀ e ∈ fs, ∃ i, e = .server (.connection i .runPosted)) ∧
        (∀ peer ∈ t.server.connections, peer.connection.closed = true) ∧
        ∀ p, p ∉ t.server.world.state.players := by
  have sound := sound_exec run
  constructor
  · intro fs t hrun
    obtain ⟨sound', stopped', hlength⟩ := sound.stopped_exec stopped hrun
    have hmanager : t.server.manager.stopped = true := sound'.stopped.trans stopped'
    refine ⟨hlength, fun id => if_pos hmanager, fun peer hmem => ?_, sound'.gone stopped'⟩
    obtain ⟨i, hi⟩ := List.mem_iff_getElem?.mp hmem
    cases hopen : peer.connection.closed with
    | true => exact .inl rfl
    | false => exact .inr (sound'.told stopped' i peer hi hopen)
  · obtain ⟨fs, t, hrun, hevents, hdone⟩ := drains native serialize tcp trivial
    obtain ⟨sound', stopped', -⟩ := sound.stopped_exec stopped hrun
    exact ⟨fs, t, hrun, hevents, sound'.gone stopped' hdone⟩

/-- A client is served, another one has just come, when the server is stopped. -/
def stopWithTwo : List Event :=
  [.start, .acceptCompletes none, .server (.connection 0 .runPosted),
    .server (.connection 0 .readerStarts),
    .server (.deliver 0 { requestId := 1, payload := some (.ping {}) }), .acceptCompletes none,
    .stop]

/-- Both connections close and the player of the first one leaves. -/
theorem stop_closes_every_connection_stopWithTwo :
    ∃ tcp fs t,
      (step .little fun _ => none).exec { maxMessageBytes := 1024 } stopWithTwo = some tcp ∧
      tcp.server.connections.map (fun peer => peer.connection.closed) = [false, false] ∧
      tcp.server.world.playerFor 1 = some 1 ∧
      (step .little fun _ => none).exec tcp fs = some t ∧
      (∀ peer ∈ t.server.connections, peer.connection.closed = true) ∧
      ∀ p, p ∉ t.server.world.state.players := by
  obtain ⟨tcp, run, stopped, hopen, hplayer⟩ : ∃ tcp,
      (step .little fun _ => none).exec { maxMessageBytes := 1024 } stopWithTwo = some tcp ∧
        tcp.stopped = true ∧
        tcp.server.connections.map (fun peer => peer.connection.closed) = [false, false] ∧
        tcp.server.world.playerFor 1 = some 1 := ⟨_, rfl, rfl, rfl, by decide⟩
  obtain ⟨-, fs, t, hrun, -, hclosed, hnobody⟩ := stop_closes_every_connection run stopped
  exact ⟨tcp, fs, t, run, hopen, hplayer, hrun, hclosed, hnobody⟩

end TcpServer

end Stalker2D.Network
