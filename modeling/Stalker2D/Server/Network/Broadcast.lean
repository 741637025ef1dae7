import Stalker2D.Server.Network.Pipeline

/-!
# Broadcasts

`broadcast` posts one message on every connection of the snapshot, and the snapshot has the
live connections, each once. `Hub` is a server that sends responses and broadcasts, with a
record of both: what is on its way to a connection is what the record has for it.
-/

namespace Stalker2D.Network

open Protocol Game

namespace Server

variable {native : Endian} {serialize : ServerMessage → Option (List UInt8)}
variable {server t : Server} {e : Event}

/-- `ServerConnectionManager::broadcast`. -/
def broadcast (server : Server) (message : ServerMessage) : Server :=
  if server.manager.stopped then server
  else
    server.manager.snapshot.foldl (fun server position => server.post position (.sendImpl message))
      server

/-- The snapshot has the live connections, each once. -/
theorem Linked.snapshot (linked : server.Linked) (running : server.manager.stopped = false) :
    server.manager.snapshot.Nodup ∧ ∀ i : Nat, i ∈ server.manager.snapshot ↔
      ∃ a, server.standings[i]? = some a ∧ a.closed = false := by
  have hget : ∀ {id : UInt16} {i : Nat}, (id, i) ∈ server.manager.connections.toList ↔
      server.manager.connections[id]? = some i :=
    Std.TreeMap.mem_toList_iff_getElem?_eq_some
  constructor
  · have distinct : server.manager.connections.toList.Pairwise fun a b => a.1 ≠ b.1 :=
      Std.TreeMap.distinct_keys_toList.imp fun h heq =>
        h (Std.LawfulEqCmp.compare_eq_iff_eq.mpr heq)
    rw [ServerConnectionManager.snapshot, List.nodup_iff_pairwise_ne, List.pairwise_map]
    refine distinct.imp_of_mem ?_
    rintro ⟨id, i⟩ ⟨id', j⟩ hi hj hne rfl
    obtain ⟨-, a, ha, -, rfl⟩ := linked.listed id i (hget.mp hi)
    obtain ⟨-, b, hb, -, rfl⟩ := linked.listed id' i (hget.mp hj)
    obtain rfl := Option.some.inj (ha.symm.trans hb)
    exact hne rfl
  · intro i
    rw [ServerConnectionManager.snapshot, List.mem_map]
    constructor
    · rintro ⟨⟨id, i⟩, hmem, rfl⟩
      obtain ⟨-, a, ha, live, -⟩ := linked.listed id i (hget.mp hmem)
      exact ⟨a, ha, live⟩
    · rintro ⟨a, ha, live⟩
      exact ⟨(a.id.id, i), hget.mpr (linked.registered running i a ha live), rfl⟩

/-- One handler for each of several connections. -/
theorem getElem?_foldl_post {positions : List Nat} (nodup : positions.Nodup) (server : Server)
    (handler : Posted ServerMessage) (i : Nat) :
    (positions.foldl (fun s position => s.post position handler) server).connections[i]? =
      server.connections[i]?.map fun peer =>
        if i ∈ positions then { peer with connection := peer.connection.post handler }
        else peer := by
  induction positions generalizing server with
  | nil => simp
  | cons position positions ih =>
    obtain ⟨hnot, nodup⟩ := List.nodup_cons.mp nodup
    rw [List.foldl_cons, ih nodup, getElem?_post, Option.map_map]
    congr 1
    funext peer
    rw [Function.comp_apply]
    by_cases hi : position = i
    · subst hi
      rw [if_pos rfl, if_neg hnot, if_pos List.mem_cons_self]
    · rw [if_neg hi]
      by_cases hmem : i ∈ positions
      · rw [if_pos hmem, if_pos (List.mem_cons_of_mem _ hmem)]
      · rw [if_neg hmem, if_neg]
        exact fun h => (List.mem_cons.mp h).elim (fun heq => hi heq.symm) hmem

theorem broadcast_frame (server : Server) (message : ServerMessage) :
    (server.broadcast message).standings = server.standings ∧
      (server.broadcast message).manager = server.manager ∧
      (server.broadcast message).world = server.world := by
  rw [broadcast]
  split
  · exact ⟨rfl, rfl, rfl⟩
  · exact foldl_post_frame _ _ _

theorem Linked.broadcast (linked : server.Linked) (message : ServerMessage) :
    (server.broadcast message).Linked := by
  obtain ⟨standings, manager, world⟩ := broadcast_frame server message
  exact linked.congr standings (by rw [manager]) (by rw [manager]) world

/-- A live connection gets the message, the others are left alone. -/
theorem Linked.getElem?_broadcast (linked : server.Linked)
    (running : server.manager.stopped = false) (message : ServerMessage) (i : Nat) :
    (server.broadcast message).connections[i]? = server.connections[i]?.map fun peer =>
      if peer.connection.closed then peer
      else { peer with connection := peer.connection.post (.sendImpl message) } := by
  obtain ⟨nodup, hmem⟩ := linked.snapshot running
  rw [Server.broadcast, if_neg (Bool.eq_false_iff.mp running), getElem?_foldl_post nodup]
  apply Option.map_congr
  intro peer hpeer
  have hstanding := standings_getElem? hpeer
  cases hclosed : peer.connection.closed with
  | true =>
    rw [if_pos rfl, if_neg]
    intro hin
    obtain ⟨a, ha, live⟩ := (hmem i).mp hin
    obtain rfl := Option.some.inj (hstanding.symm.trans ha)
    exact Bool.false_ne_true (live.symm.trans hclosed)
  | false => rw [if_neg Bool.false_ne_true, if_pos ((hmem i).mpr ⟨_, hstanding, hclosed⟩)]

end Server

/-- What a server has sent: the response to a message it has read, or a broadcast, with the
number of connections there were. -/
inductive Outgoing
  | response (read : Read)
  | broadcast (message : ServerMessage) (connections : Nat)

namespace Outgoing

/-- It goes to the connection at `i`, if that is open. -/
def addresses (i : Nat) : Outgoing → Bool
  | .response read => read.position = i
  | .broadcast _ connections => i < connections

/-- A message is what was to be sent. -/
def Is : Outgoing → ServerMessage → Prop
  | .response read, message => read.Answered message
  | .broadcast sent _, message => message = sent

end Outgoing

/-- A server whose connections send responses and broadcasts, with a record of them. -/
structure Hub where
  server : Server := {}
  record : List Outgoing := []

namespace Hub

inductive Event
  | server (event : Server.Event)
  | broadcast (message : ServerMessage)

/-- What an event adds to the record. -/
def entries (hub : Hub) (t : Server) : Event → List Outgoing
  | .server event => (Ledger.readings t.world event).map .response
  | .broadcast message =>
    if hub.server.manager.stopped then []
    else [.broadcast message hub.server.connections.length]

def step (native : Endian) (serialize : ServerMessage → Option (List UInt8)) : Machine Hub Event
  | hub, .server event =>
    if event.unsolicited then none
    else (Server.step native serialize hub.server event).map fun t =>
      { server := t, record := hub.record ++ hub.entries t (.server event) }
  | hub, .broadcast message =>
    let t := hub.server.broadcast message
    some { server := t, record := hub.record ++ hub.entries t (.broadcast message) }

/-- The record of what goes to one connection. -/
def recordOf (hub : Hub) (i : Nat) : List Outgoing := hub.record.filter (Outgoing.addresses i)

/-- Ids are told apart in a step of the server. -/
def Fresh (hub : Hub) : Event → Prop
  | .server event => ¬hub.server.Reuses event
  | .broadcast _ => True

variable {native : Endian} {serialize : ServerMessage → Option (List UInt8)}
variable {hub t : Hub} {e : Event}

theorem step_eq_some (hstep : step native serialize hub e = some t) :
    t.record = hub.record ++ hub.entries t.server e ∧
      ((∃ event, e = .server event ∧ event.unsolicited = false ∧
          Server.step native serialize hub.server event = some t.server) ∨
        ∃ message, e = .broadcast message ∧ t.server = hub.server.broadcast message) := by
  cases e with
  | server event =>
    simp only [step, Option.ite_none_left_eq_some, Option.map_eq_some_iff] at hstep
    obtain ⟨hsolicited, next, hnext, rfl⟩ := hstep
    exact ⟨rfl, .inl ⟨event, rfl, Bool.eq_false_iff.mpr hsolicited, hnext⟩⟩
  | broadcast message =>
    obtain rfl := Option.some.inj hstep
    exact ⟨rfl, .inr ⟨message, rfl, rfl⟩⟩

/-- What a step does to the outbox of one connection, and what it records for it. -/
inductive OutboxStep (hub t : Hub) (e : Event) (i : Nat) (later : Peer) : Prop
  | created (place : i = hub.server.connections.length) (empty : later.connection.outbox = [])
      (silent : (hub.entries t.server e).filter (Outgoing.addresses i) = [])
  | sends (peer : Peer) (sent : List ServerMessage)
      (get : hub.server.connections[i]? = some peer)
      (lost : later.connection.outbox.Sublist (peer.connection.outbox ++ sent))
      (whole : later.connection.closed = false → peer.connection.closed = false ∧
        later.connection.outbox = peer.connection.outbox ++ sent)
      (own : ∃ entries,
        entries.Sublist ((hub.entries t.server e).filter (Outgoing.addresses i)) ∧
          List.Forall₂ Outgoing.Is entries sent)
      (all : later.connection.closed = false → t.server.manager.stopped = false →
        List.Forall₂ Outgoing.Is
          ((hub.entries t.server e).filter (Outgoing.addresses i)) sent)

theorem filter_responses (reads : List Read) (i : Nat) :
    (reads.map Outgoing.response).filter (Outgoing.addresses i) =
      (reads.filter (·.position = i)).map .response :=
  List.filter_map

theorem outboxStep_server (linked : hub.server.Linked) {event : Server.Event}
    (solicited : event.unsolicited = false)
    (hnext : Server.step native serialize hub.server event = some t.server) {i : Nat}
    {later : Peer} (h : t.server.connections[i]? = some later) :
    OutboxStep hub t (.server event) i later := by
  have hentries : (hub.entries t.server (.server event)).filter (Outgoing.addresses i) =
      ((Ledger.readings t.server.world event).filter (·.position = i)).map .response :=
    filter_responses _ i
  cases Server.peerStep linked hnext solicited h with
  | created m connection hevent place create after =>
    obtain ⟨-, rfl⟩ := Connection.create_eq_ok create
    refine .created place ?_ ?_
    · rw [after]
      rfl
    · rw [hentries, hevent]
      rfl
  | quiet peer es get run silent hread =>
    obtain ⟨hsub, houtbox⟩ := Connection.outbox_exec run
    rw [silent] at hsub houtbox
    refine .sends peer [] get hsub ?_ ⟨[], List.nil_sublist _, .nil⟩ ?_
    · exact fun hopen => ⟨Connection.closed_exec run hopen, houtbox hopen⟩
    · intro hopen hrunning
      rw [hentries, Ledger.filter_readings_of_ne _ (hread hopen hrunning)]
      exact .nil
  | answered peer es m r hevent get run answers sends =>
    obtain ⟨hsub, houtbox⟩ := Connection.outbox_exec run
    rw [sends] at hsub houtbox
    have all : List.Forall₂ Outgoing.Is
        ((hub.entries t.server (.server event)).filter (Outgoing.addresses i)) [r] := by
      rw [hentries, hevent, Ledger.filter_readings_deliver]
      exact .cons answers .nil
    refine .sends peer [r] get hsub ?_ ⟨_, .refl _, all⟩ fun _ _ => all
    exact fun hopen => ⟨Connection.closed_exec run hopen, houtbox hopen⟩

theorem outbox_post_send (connection : ServerConnection) (message : ServerMessage) :
    (connection.post (.sendImpl message)).outbox = connection.outbox ++ [message] := by
  rw [Connection.outbox, Connection.outbox, List.append_assoc, Connection.post,
    List.filterMap_append]
  rfl

theorem outboxStep_broadcast (linked : hub.server.Linked) {message : ServerMessage}
    (hserver : t.server = hub.server.broadcast message) {i : Nat} {later : Peer}
    (h : t.server.connections[i]? = some later) :
    OutboxStep hub t (.broadcast message) i later := by
  obtain ⟨-, hmanager, -⟩ := hub.server.broadcast_frame message
  rw [hserver] at h
  cases hrunning : hub.server.manager.stopped with
  | true =>
    rw [Server.broadcast, if_pos hrunning] at h
    refine .sends later [] h ?_ ?_ ⟨[], List.nil_sublist _, .nil⟩ ?_
    · rw [List.append_nil]
    · exact fun hopen => ⟨hopen, (List.append_nil _).symm⟩
    · intro _ hstill
      rw [hserver, hmanager, hrunning] at hstill
      cases hstill
  | false =>
    rw [linked.getElem?_broadcast hrunning] at h
    obtain ⟨peer, hpeer, rfl⟩ := Option.map_eq_some_iff.mp h
    have hlt := (List.getElem?_eq_some_iff.mp hpeer).1
    have hentries : (hub.entries t.server (.broadcast message)).filter (Outgoing.addresses i) =
        [.broadcast message hub.server.connections.length] := by
      have hto : Outgoing.addresses i (.broadcast message hub.server.connections.length) = true :=
        decide_eq_true hlt
      rw [entries, hrunning, if_neg Bool.false_ne_true, List.filter_cons_of_pos hto,
        List.filter_nil]
    cases hclosed : peer.connection.closed with
    | true =>
      rw [if_pos rfl]
      refine .sends peer [] hpeer ?_ ?_ ⟨[], List.nil_sublist _, .nil⟩ ?_
      · rw [List.append_nil]
      · exact fun hopen => ⟨hopen, (List.append_nil _).symm⟩
      · exact fun hopen => absurd (hclosed.symm.trans hopen) Bool.noConfusion
    | false =>
      rw [if_neg Bool.false_ne_true]
      have all : List.Forall₂ Outgoing.Is
          ((hub.entries t.server (.broadcast message)).filter (Outgoing.addresses i))
          [message] := by
        rw [hentries]
        exact .cons rfl .nil
      refine .sends peer [message] hpeer ?_ ?_ ⟨_, .refl _, all⟩ fun _ _ => all
      · rw [outbox_post_send]
      · exact fun _ => ⟨hclosed, outbox_post_send _ _⟩

/-- Only connections that exist are sent to. -/
theorem entries_placed (hstep : step native serialize hub e = some t) {entry : Outgoing}
    (hmem : entry ∈ hub.entries t.server e) {i : Nat} (hi : entry.addresses i = true) :
    i < hub.server.connections.length := by
  obtain ⟨-, ⟨event, rfl, -, hnext⟩ | ⟨message, rfl, -⟩⟩ := step_eq_some hstep
  · obtain ⟨read, hread, rfl⟩ := List.mem_map.mp hmem
    cases event with
    | deliver position message =>
      obtain rfl := List.mem_singleton.mp hread
      obtain rfl : position = i := of_decide_eq_true hi
      simp only [Server.step] at hnext
      split at hnext
      · cases hnext
      next peer get => exact (List.getElem?_eq_some_iff.mp get).1
    | accept | connection | stopAll => cases hread
  · rw [entries] at hmem
    split at hmem
    · cases hmem
    · obtain rfl := List.mem_singleton.mp hmem
      exact of_decide_eq_true hi

/-- The record and the outboxes. -/
structure Kept (hub : Hub) : Prop where
  linked : hub.server.Linked
  placed : ∀ entry ∈ hub.record, ∀ i, entry.addresses i = true → i < hub.server.connections.length
  sent : hub.server.manager.stopped = false → ∀ (i : Nat) peer,
    hub.server.connections[i]? = some peer → peer.connection.closed = false →
    List.Forall₂ Outgoing.Is (hub.recordOf i) peer.connection.outbox
  own : ∀ (i : Nat) peer, hub.server.connections[i]? = some peer →
    ∃ entries, entries.Sublist (hub.recordOf i) ∧
      List.Forall₂ Outgoing.Is entries peer.connection.outbox

theorem kept_initial : Kept {} where
  linked := Server.linked_initial
  placed _ h := by cases h
  sent _ i peer h := by simp at h
  own i peer h := by simp at h

theorem Kept.step (kept : hub.Kept) (fresh : hub.Fresh e)
    (hstep : step native serialize hub e = some t) : t.Kept := by
  obtain ⟨hrecord, hcases⟩ := step_eq_some hstep
  have hof : ∀ i, t.recordOf i =
      hub.recordOf i ++ (hub.entries t.server e).filter (Outgoing.addresses i) := by
    intro i
    rw [recordOf, hrecord, List.filter_append]
    rfl
  have houtbox : ∀ (i : Nat) later, t.server.connections[i]? = some later →
      OutboxStep hub t e i later := by
    intro i later h
    obtain ⟨event, rfl, solicited, hnext⟩ | ⟨message, rfl, hserver⟩ := hcases
    · exact outboxStep_server kept.linked solicited hnext h
    · exact outboxStep_broadcast kept.linked hserver h
  have hrunning : t.server.manager.stopped = false → hub.server.manager.stopped = false := by
    intro h
    obtain ⟨event, rfl, -, hnext⟩ | ⟨message, rfl, hserver⟩ := hcases
    · exact Server.running_step hnext h
    · rwa [hserver, (hub.server.broadcast_frame message).2.1] at h
  have hlength : hub.server.standings.length ≤ t.server.standings.length := by
    obtain ⟨event, rfl, -, hnext⟩ | ⟨message, rfl, hserver⟩ := hcases
    · exact (Server.effect_step hnext).length
    · rw [hserver, (hub.server.broadcast_frame message).1]
  simp only [Server.standings, List.length_map] at hlength
  refine ⟨?linked, ?placed, ?sent, ?own⟩
  case linked =>
    obtain ⟨event, rfl, -, hnext⟩ | ⟨message, rfl, hserver⟩ := hcases
    · exact Server.linked_step kept.linked fresh hnext
    · exact hserver ▸ kept.linked.broadcast message
  case placed =>
    intro entry hmem i hi
    apply Nat.lt_of_lt_of_le _ hlength
    rw [hrecord] at hmem
    obtain hmem | hmem := List.mem_append.mp hmem
    · exact kept.placed entry hmem i hi
    · exact entries_placed hstep hmem hi
  case sent =>
    intro hstill i later h hopen
    rw [hof]
    cases houtbox i later h with
    | created place empty silent =>
      have hnone : hub.recordOf i = [] := by
        rw [recordOf, List.filter_eq_nil_iff]
        intro entry hmem hi
        have hlt := kept.placed entry hmem i hi
        omega
      rw [hnone, silent, empty]
      exact .nil
    | sends peer sent get lost whole own all =>
      obtain ⟨hbefore, hwhole⟩ := whole hopen
      rw [hwhole]
      exact List.rel_append (kept.sent (hrunning hstill) i peer get hbefore) (all hopen hstill)
  case own =>
    intro i later h
    rw [hof]
    cases houtbox i later h with
    | created place empty silent => exact ⟨[], List.nil_sublist _, empty ▸ .nil⟩
    | sends peer sent get lost whole own all =>
      obtain ⟨before, hbefore, hold⟩ := kept.own i peer get
      obtain ⟨new, hnew, hsent⟩ := own
      obtain ⟨left, hleft, hkept⟩ := exists_forall₂_of_sublist (List.rel_append hold hsent) lost
      exact ⟨left, hleft.trans (hbefore.append hnew), hkept⟩

theorem kept_exec {es : List Event} (run : (step native serialize).exec {} es = some hub)
    (fresh : (step native serialize).Along (fun hub e _ => hub.Fresh e) {} es) : hub.Kept :=
  fresh.exec (fun _ _ _ kept hstep fresh => kept.step fresh hstep) kept_initial run

/-- Responses and broadcasts of each connection. -/
structure InOrder (hub : Hub) : Prop where
  /-- What was sent on an open connection, still posted or accepted by the write queue, is
  the responses to its requests and the broadcasts made since it was created, in the order
  in which they were made. -/
  sent : hub.server.manager.stopped = false → ∀ (i : Nat) peer,
    hub.server.connections[i]? = some peer → peer.connection.closed = false →
    List.Forall₂ Outgoing.Is (hub.recordOf i)
      (peer.connection.accepted ++ peer.connection.posted.filterMap Posted.message?)
  /-- Whatever has become of a connection, it was sent nothing else, and nothing twice. -/
  own : ∀ (i : Nat) peer, hub.server.connections[i]? = some peer →
    ∃ entries, entries.Sublist (hub.recordOf i) ∧ List.Forall₂ Outgoing.Is entries
      (peer.connection.accepted ++ peer.connection.posted.filterMap Posted.message?)

/-- How many sockets are accepted. -/
def accepts (es : List Event) : Nat :=
  es.countP fun
    | .server (.accept _) => true
    | _ => false

theorem accepts_append (es fs : List Event) : accepts (es ++ fs) = accepts es + accepts fs :=
  List.countP_append

/-- Before the 65536th accepted connection no id is reused. -/
theorem fresh_of_few {es : List Event} {n : Nat} (counted : hub.server.Counted n)
    (few : n + accepts es < 65536) :
    (step native serialize).Along (fun hub e _ => hub.Fresh e) hub es := by
  refine Machine.along_within (I := fun n (hub : Hub) => hub.server.Counted n) accepts_append ?_
    counted few
  intro n hub e t counted few hstep
  obtain ⟨-, ⟨event, rfl, -, hnext⟩ | ⟨message, rfl, hserver⟩⟩ := step_eq_some hstep
  · have hone : accepts [.server event] = Server.accepts [event] := by
      cases event <;> rfl
    rw [hone] at few ⊢
    exact ⟨counted.not_reuses few, counted.step few (Server.effect_step hnext)⟩
  · obtain ⟨standings, manager, -⟩ := hub.server.broadcast_frame message
    refine ⟨trivial, ?_⟩
    rw [hserver]
    constructor
    · rw [manager]
      exact counted.counter
    · rw [manager, standings]
      exact counted.below
    · rw [standings]
      exact counted.distinct

/-- A broadcast reaches every open connection exactly once, in order with the responses, and
no connection that was created later, whatever the connections do in between. -/
theorem broadcasts_in_order {es : List Event}
    (run : (step native serialize).exec {} es = some hub)
    (fresh : (step native serialize).Along (fun hub e _ => hub.Fresh e) {} es) : hub.InOrder := by
  have kept := kept_exec run fresh
  exact ⟨kept.sent, kept.own⟩

/-- A broadcast before the first request of a client, one after it, and a client that is late
for the first one. -/
def twoBroadcasts : List Event :=
  [.server (.accept 1024), .server (.connection 0 .runPosted),
    .server (.connection 0 .readerStarts), .broadcast { requestId := 0, status := .ok },
    .server (.accept 1024),
    .server (.deliver 0 { requestId := 5, payload := some (.ping { timestamp := 9 }) }),
    .broadcast { requestId := 1, status := .ok }, .server (.connection 0 .runPosted),
    .server (.connection 0 .runPosted), .server (.connection 0 .runPosted)]

theorem broadcasts_in_order_twoBroadcasts :
    ∃ hub, (step .little fun _ => some [8]).exec {} twoBroadcasts = some hub ∧ hub.InOrder ∧
      hub.server.connections.map (fun peer => peer.connection.accepted) =
        [[{ requestId := 0, status := .ok },
          { requestId := 5, status := .ok, payload := some (.pong { timestamp := 9 }) },
          { requestId := 1, status := .ok }], []] := by
  have run : (step .little fun _ => some [8]).exec {} twoBroadcasts = some _ := rfl
  refine ⟨_, run, broadcasts_in_order run ?_, rfl⟩
  exact fresh_of_few Server.counted_initial (by decide)

end Hub

end Stalker2D.Network
