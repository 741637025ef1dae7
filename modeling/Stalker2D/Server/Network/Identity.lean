import Stalker2D.Machine.Lists
import Stalker2D.Server.Network.Standing

/-!
# Connection ids

`Linked` is the invariant: live connections have different ids, the map has exactly the
live ones, and the bound players are those of the live connections that were served.
Only one event can break it, a `create` whose id a live connection still holds. The
counter is advanced before it is checked, so the check stops the `create` that wraps
to 0 and lets the next one through with id 1.
-/

namespace Stalker2D.Network

open Protocol Game

namespace ServerConnectionManager

theorem stopped_remove (manager : ServerConnectionManager) (id : ConnectionId) :
    (manager.remove id).2.stopped = manager.stopped := by
  rw [remove]
  split <;> rfl

theorem getElem?_remove (manager : ServerConnectionManager) (id : ConnectionId) (key : UInt16) :
    (manager.remove id).2.connections[key]? =
      if manager.stopped = false ∧ id.id = key then none else manager.connections[key]? := by
  rw [remove]
  cases hs : manager.stopped with
  | true => simp
  | false => simp [Std.TreeMap.getElem?_erase]

end ServerConnectionManager

namespace Server

variable {native : Endian} {serialize : ServerMessage → Option (List UInt8)}
variable {server t : Server} {e : Event}

structure Linked (server : Server) : Prop where
  valid : server.world.Valid
  distinct : ∀ (i j : Nat) a b, server.standings[i]? = some a → server.standings[j]? = some b →
    a.closed = false → b.closed = false → a.id = b.id → i = j
  registered : server.manager.stopped = false → ∀ (i : Nat) a, server.standings[i]? = some a →
    a.closed = false → server.manager.connections[a.id.id]? = some i
  listed : ∀ (id : UInt16) (i : Nat), server.manager.connections[id]? = some i →
    server.manager.stopped = false ∧
      ∃ a, server.standings[i]? = some a ∧ a.closed = false ∧ a.id.id = id
  bound : ∀ key p, server.world.playerFor key = some p → ∃ (i : Nat) (a : Standing),
    server.standings[i]? = some a ∧ a.closed = false ∧ a.served = true ∧ a.id.id = key
  served : ∀ (i : Nat) a, server.standings[i]? = some a → a.closed = false → a.served = true →
    ∃ p, server.world.playerFor a.id.id = some p

theorem linked_initial : Linked {} where
  valid := WorldService.valid_ofMap _
  distinct _ _ _ _ h := by simp [standings] at h
  registered _ _ _ h := by simp [standings] at h
  listed _ _ h := by simp at h
  bound key p h := by
    change PlayerConnectionRegistry.playerFor _ key = some p at h
    rw [show WorldService.connections _ = ∅ from rfl, PlayerConnectionRegistry.playerFor_empty] at h
    cases h
  served _ _ h := by simp [standings] at h

/-- A new connection whose id no live one holds. -/
theorem Linked.created (linked : server.Linked) (running : server.manager.stopped = false)
    (fresh : ∀ (i : Nat) a, server.standings[i]? = some a → a.closed = false → a.id ≠ server.nextId)
    (standings : t.standings = server.standings ++ [{ id := server.nextId }])
    (manager : t.manager =
      { server.manager with
        nextConnectionId := server.nextId
        connections := server.manager.connections.insertIfNew server.nextId.id
          server.standings.length })
    (world : t.world = server.world) : t.Linked := by
  have inv : ∀ {i : Nat} {a}, t.standings[i]? = some a →
      server.standings[i]? = some a ∨
        i = server.standings.length ∧ a = { id := server.nextId } := by
    intro i a h
    rw [standings] at h
    exact getElem?_concat_cases h
  have old : ∀ {i : Nat} {a}, server.standings[i]? = some a → t.standings[i]? = some a := by
    intro i a h
    rw [standings, List.getElem?_append_left (List.getElem?_eq_some_iff.mp h).1, h]
  -- the map only has ids of live connections, so it does not have the new one
  have hnew : server.nextId.id ∉ server.manager.connections := by
    intro hmem
    obtain ⟨i, hi⟩ := Option.isSome_iff_exists.mp (Std.TreeMap.mem_iff_isSome_getElem?.mp hmem)
    obtain ⟨-, a, ha, hlive, hid⟩ := linked.listed _ _ hi
    exact fresh i a ha hlive (ConnectionId.ext hid)
  have hget : ∀ id : UInt16, t.manager.connections[id]? =
      if server.nextId.id = id then some server.standings.length
      else server.manager.connections[id]? := by
    intro id
    rw [manager, Std.TreeMap.getElem?_insertIfNew]
    simp [hnew]
  refine ⟨world ▸ linked.valid, ?distinct, ?registered, ?listed, ?bound, ?served⟩
  case distinct =>
    intro i j a b hi hj ha hb hid
    obtain hi | ⟨rfl, rfl⟩ := inv hi <;> obtain hj | ⟨rfl, rfl⟩ := inv hj
    · exact linked.distinct i j a b hi hj ha hb hid
    · exact absurd hid (fresh i a hi ha)
    · exact absurd hid.symm (fresh j b hj hb)
    · rfl
  case registered =>
    intro hrunning i a hi ha
    rw [hget]
    obtain hi | ⟨rfl, rfl⟩ := inv hi
    · rw [if_neg, linked.registered (by simpa [manager] using hrunning) i a hi ha]
      exact fun hid => fresh i a hi ha (ConnectionId.ext hid.symm)
    · rw [if_pos rfl]
  case listed =>
    intro id i h
    rw [hget] at h
    split at h
    next hid =>
      obtain rfl := Option.some.inj h
      exact ⟨by simpa [manager] using running, _,
        by rw [standings]; exact List.getElem?_concat_length, rfl, hid⟩
    next =>
      obtain ⟨-, a, ha, hrest⟩ := linked.listed id i h
      exact ⟨by simpa [manager] using running, a, old ha, hrest⟩
  case bound =>
    intro key p h
    obtain ⟨i, a, ha, hrest⟩ := linked.bound key p (world ▸ h)
    exact ⟨i, a, old ha, hrest⟩
  case served =>
    intro i a hi ha hserved
    obtain hi | ⟨rfl, rfl⟩ := inv hi
    · exact world ▸ linked.served i a hi ha hserved
    · cases hserved

section Set

variable {position : Nat} {a : Standing} {b : Standing}

/-- The standings after one of them has changed. -/
theorem getElem?_set_standing (get : server.standings[position]? = some a)
    (standings : t.standings = server.standings.set position b) (i : Nat) :
    t.standings[i]? = if position = i then some b else server.standings[i]? := by
  have hlt := (List.getElem?_eq_some_iff.mp get).1
  rw [standings, List.getElem?_set]
  simp [hlt]

/-- `onMessage` has returned for a live connection. -/
theorem Linked.markServed (linked : server.Linked)
    (get : server.standings[position]? = some a) (live : a.closed = false)
    (standings : t.standings = server.standings.set position { a with served := true })
    (manager : t.manager = server.manager) {p : PlayerId}
    (connected : server.world.connect a.id.id = (.ok p, t.world)) : t.Linked := by
  have hget := getElem?_set_standing get standings
  have hplayer := WorldService.playerFor_of_connect_ok connected
  have inv : ∀ {i : Nat} {b}, t.standings[i]? = some b →
      ∃ c, server.standings[i]? = some c ∧ b.id = c.id ∧ b.closed = c.closed ∧
        (position = i ∨ b.served = c.served) := by
    intro i b h
    rw [hget] at h
    split at h
    next hi =>
      obtain rfl := Option.some.inj h
      exact ⟨a, hi ▸ get, rfl, rfl, .inl hi⟩
    next => exact ⟨b, h, rfl, rfl, .inr rfl⟩
  refine ⟨?valid, ?distinct, ?registered, ?listed, ?bound, ?served⟩
  case valid =>
    have h := linked.valid.connect a.id.id
    rwa [connected] at h
  case distinct =>
    intro i j b c hi hj hb hc hid
    obtain ⟨b', hi, hbid, hbclosed, -⟩ := inv hi
    obtain ⟨c', hj, hcid, hcclosed, -⟩ := inv hj
    exact linked.distinct i j b' c' hi hj (hbclosed ▸ hb) (hcclosed ▸ hc) (hbid ▸ hcid ▸ hid)
  case registered =>
    intro hrunning i b hi hb
    obtain ⟨b', hi, hbid, hbclosed, -⟩ := inv hi
    rw [manager] at hrunning ⊢
    rw [hbid]
    exact linked.registered hrunning i b' hi (hbclosed ▸ hb)
  case listed =>
    intro id i h
    rw [manager] at h
    obtain ⟨hrunning, b, hb, hlive, hid⟩ := linked.listed id i h
    refine ⟨manager ▸ hrunning, ?_⟩
    rw [hget]
    split
    next hi =>
      subst hi
      obtain rfl := Option.some.inj (get.symm.trans hb)
      exact ⟨_, rfl, hlive, hid⟩
    next => exact ⟨b, hb, hlive, hid⟩
  case bound =>
    intro key q h
    rw [hplayer] at h
    split at h
    next hkey =>
      exact ⟨position, { a with served := true }, by rw [hget, if_pos rfl], live, rfl, hkey⟩
    next hkey =>
      obtain ⟨i, b, hb, hlive, hserved, hid⟩ := linked.bound key q h
      refine ⟨i, b, ?_, hlive, hserved, hid⟩
      rw [hget, if_neg, hb]
      rintro rfl
      obtain rfl := Option.some.inj (get.symm.trans hb)
      exact hkey hid
  case served =>
    intro i b hi hb hserved
    obtain ⟨b', hi, hbid, hbclosed, hbserved⟩ := inv hi
    rw [hplayer, hbid]
    split
    next => exact ⟨p, rfl⟩
    next hkey =>
      obtain rfl | hbserved := hbserved
      · obtain rfl := Option.some.inj (get.symm.trans hi)
        exact absurd rfl hkey
      · exact linked.served i b' hi (hbclosed ▸ hb) (hbserved ▸ hserved)

/-- The close handler of a live connection takes away its own entry and player. -/
theorem Linked.close (linked : server.Linked)
    (get : server.standings[position]? = some a) (live : a.closed = false)
    (standings : t.standings = server.standings.set position { a with closed := true })
    (manager : t.manager = (server.manager.remove a.id).2)
    (world : t.world = server.world.disconnect a.id.id) : t.Linked := by
  have hget := getElem?_set_standing get standings
  have inv : ∀ {i : Nat} {b}, t.standings[i]? = some b → b.closed = false →
      position ≠ i ∧ server.standings[i]? = some b := by
    intro i b h hb
    rw [hget] at h
    split at h
    · obtain rfl := Option.some.inj h
      cases hb
    next hi => exact ⟨hi, h⟩
  -- another live connection has another id
  have other : ∀ {i : Nat} {b}, server.standings[i]? = some b → b.closed = false →
      position ≠ i → a.id.id ≠ b.id.id := by
    intro i b hb hlive hi hid
    exact hi (linked.distinct position i a b get hb live hlive (ConnectionId.ext hid))
  have hplayer : ∀ key, t.world.playerFor key =
      if a.id.id = key then none else server.world.playerFor key := by
    intro key
    rw [world, WorldService.playerFor_disconnect]
  have hstopped : t.manager.stopped = server.manager.stopped := by
    rw [manager, ServerConnectionManager.stopped_remove]
  have hmap : ∀ id : UInt16, t.manager.connections[id]? =
      if server.manager.stopped = false ∧ a.id.id = id then none
      else server.manager.connections[id]? := by
    intro id
    rw [manager, ServerConnectionManager.getElem?_remove]
  refine ⟨?valid, ?distinct, ?registered, ?listed, ?bound, ?served⟩
  case valid => exact world ▸ linked.valid.disconnect a.id.id
  case distinct =>
    intro i j b c hi hj hb hc hid
    exact linked.distinct i j b c (inv hi hb).2 (inv hj hc).2 hb hc hid
  case registered =>
    intro hrunning i b hi hb
    obtain ⟨hne, hi⟩ := inv hi hb
    rw [hstopped] at hrunning
    rw [hmap, if_neg, linked.registered hrunning i b hi hb]
    exact fun h => other hi hb hne h.2
  case listed =>
    intro id i h
    rw [hmap] at h
    split at h
    · cases h
    next hid =>
      obtain ⟨hrunning, b, hb, hlive, rfl⟩ := linked.listed id i h
      refine ⟨hstopped ▸ hrunning, b, ?_, hlive, rfl⟩
      rw [hget, if_neg, hb]
      rintro rfl
      obtain rfl := Option.some.inj (get.symm.trans hb)
      exact hid ⟨hrunning, rfl⟩
  case bound =>
    intro key p h
    rw [hplayer] at h
    split at h
    · cases h
    next hkey =>
      obtain ⟨i, b, hb, hlive, hserved, hid⟩ := linked.bound key p h
      refine ⟨i, b, ?_, hlive, hserved, hid⟩
      rw [hget, if_neg, hb]
      rintro rfl
      obtain rfl := Option.some.inj (get.symm.trans hb)
      exact hkey hid
  case served =>
    intro i b hi hb hserved
    obtain ⟨hne, hi⟩ := inv hi hb
    rw [hplayer, if_neg (other hi hb hne)]
    exact linked.served i b hi hb hserved

end Set

/-- Neither a counter that has moved nor a connection that has moved on matters. -/
theorem Linked.congr (linked : server.Linked) (standings : t.standings = server.standings)
    (connections : t.manager.connections = server.manager.connections)
    (stopped : t.manager.stopped = server.manager.stopped)
    (world : t.world = server.world) : t.Linked := by
  obtain ⟨valid, distinct, registered, listed, bound, served⟩ := linked
  constructor
  · simpa only [world] using valid
  · simpa only [standings] using distinct
  · simpa only [standings, connections, stopped] using registered
  · simpa only [standings, connections, stopped] using listed
  · simpa only [standings, world] using bound
  · simpa only [standings, world] using served

/-- `stopAll` empties the map; the connections are told to stop and close later. -/
theorem Linked.stop (linked : server.Linked) (standings : t.standings = server.standings)
    (manager : t.manager = { server.manager with stopped := true, connections := ∅ })
    (world : t.world = server.world) : t.Linked where
  valid := world ▸ linked.valid
  distinct := by simpa only [standings] using linked.distinct
  registered h := by simp [manager] at h
  listed _ _ h := by simp [manager] at h
  bound := by simpa only [standings, world] using linked.bound
  served := by simpa only [standings, world] using linked.served

/-- A `create` that succeeds with an id a live connection still holds. -/
def Reuses (server : Server) : Event → Prop
  | .accept maxMessageBytes =>
    server.manager.stopped = false ∧ maxMessageBytes ≠ 0 ∧ server.nextId.id ≠ 0 ∧
      ∃ a ∈ server.standings, a.closed = false ∧ a.id = server.nextId
  | _ => False

theorem linked_step (linked : server.Linked) (hreuse : ¬server.Reuses e)
    (hstep : step native serialize server e = some t) : t.Linked := by
  cases effect_step hstep with
  | unchanged _ _ standings manager world =>
    exact linked.congr standings (by rw [manager]) (by rw [manager]) world
  | refused m _ standings manager world =>
    exact linked.congr standings (by rw [manager]) (by rw [manager]) world
  | created m running valid standings manager world =>
    refine linked.created running (fun i a ha hlive hid => hreuse ?_) standings manager world
    exact ⟨running, valid.2, valid.1, a, List.mem_of_getElem? ha, hlive, hid⟩
  | served _ position a p _ get live standings manager connected =>
    exact linked.markServed get live standings manager connected
  | closed _ position a _ get live standings manager world =>
    exact linked.close get live standings manager world
  | stopped standings manager world => exact linked.stop standings manager world

/-- What ids are for, before `stopAll`: they tell live connections apart, `get` finds
each of them, and the event has taken neither entry nor player from a connection that is
still live. -/
structure Identified (server t : Server) : Prop where
  distinct : ∀ (i j : Nat) a b, t.standings[i]? = some a → t.standings[j]? = some b →
    a.closed = false → b.closed = false → a.id = b.id → i = j
  found : ∀ (i : Nat) a, t.standings[i]? = some a → a.closed = false →
    t.manager.get a.id = some i
  kept : ∀ (i : Nat) a b, server.standings[i]? = some a → t.standings[i]? = some b →
    b.closed = false → b.id = a.id ∧
      (∀ entry, server.manager.get a.id = some entry → t.manager.get a.id = some entry) ∧
      ∀ p, server.world.playerFor a.id.id = some p → t.world.playerFor a.id.id = some p

/-- An entry of a live connection stays, since it is found before and after. -/
theorem Linked.found (linked : server.Linked) (running : server.manager.stopped = false) {i : Nat}
    {a : Standing} (get : server.standings[i]? = some a) (live : a.closed = false) :
    server.manager.get a.id = some i := by
  rw [ServerConnectionManager.get, running]
  exact linked.registered running i a get live

/-- A standing that is live after an event was live before it, under the same id, and
its player has stayed. -/
theorem Linked.kept (linked : server.Linked) (effect : Effect server t e) {i : Nat}
    {a b : Standing} (ha : server.standings[i]? = some a) (hb : t.standings[i]? = some b)
    (live : b.closed = false) :
    b.id = a.id ∧ a.closed = false ∧
      ∀ p, server.world.playerFor a.id.id = some p → t.world.playerFor a.id.id = some p := by
  have same : t.standings = server.standings → t.world = server.world → b.id = a.id ∧
      a.closed = false ∧
      ∀ p, server.world.playerFor a.id.id = some p → t.world.playerFor a.id.id = some p := by
    intro hstandings hworld
    rw [hstandings] at hb
    obtain rfl := Option.some.inj (ha.symm.trans hb)
    exact ⟨rfl, live, fun p hp => hworld ▸ hp⟩
  cases effect with
  | unchanged _ _ standings _ world => exact same standings world
  | refused _ _ standings _ world => exact same standings world
  | stopped standings _ world => exact same standings world
  | created _ _ _ standings _ world =>
    rw [standings, List.getElem?_append_left (List.getElem?_eq_some_iff.mp ha).1] at hb
    obtain rfl := Option.some.inj (ha.symm.trans hb)
    exact ⟨rfl, live, fun p hp => world ▸ hp⟩
  | served _ position c q _ get clive standings _ connected =>
    have hplayer : ∀ key p, server.world.playerFor key = some p →
        t.world.playerFor key = some p := by
      intro key p hp
      have h := WorldService.playerFor_of_connect server.world c.id.id hp
      rwa [connected] at h
    rw [getElem?_set_standing get standings] at hb
    split at hb
    next hi =>
      subst hi
      obtain rfl := Option.some.inj (get.symm.trans ha)
      obtain rfl := Option.some.inj hb
      exact ⟨rfl, live, hplayer _⟩
    next =>
      obtain rfl := Option.some.inj (ha.symm.trans hb)
      exact ⟨rfl, live, hplayer _⟩
  | closed _ position c _ get clive standings _ world =>
    rw [getElem?_set_standing get standings] at hb
    split at hb
    · obtain rfl := Option.some.inj hb
      cases live
    next hi =>
      obtain rfl := Option.some.inj (ha.symm.trans hb)
      refine ⟨rfl, live, fun p hp => ?_⟩
      rw [world, WorldService.playerFor_disconnect, if_neg, hp]
      exact fun hid => hi (linked.distinct position i c a get ha clive live (ConnectionId.ext hid))

theorem Linked.identified (linked : server.Linked) (next : t.Linked) (effect : Effect server t e)
    (running : t.manager.stopped = false) : Identified server t where
  distinct := next.distinct
  found _ _ get live := next.found running get live
  kept i a b ha hb live := by
    obtain ⟨hid, hlive, hplayer⟩ := linked.kept effect ha hb live
    refine ⟨hid, fun entry hentry => ?_, hplayer⟩
    have hrunning : server.manager.stopped = false := by
      cases hs : server.manager.stopped with
      | false => rfl
      | true => simp [ServerConnectionManager.get, hs] at hentry
    rw [linked.found hrunning ha hlive] at hentry
    rw [← hentry, ← hid]
    exact next.found running hb live

/-- A reused id is never told apart again by the connections that hold it. -/
theorem not_identified_of_reuses (hreuse : server.Reuses e)
    (hstep : step native serialize server e = some t) :
    t.manager.stopped = false ∧ ¬Identified server t := by
  cases e with
  | deliver _ _ => exact hreuse.elim
  | connection _ _ => exact hreuse.elim
  | stopAll => exact hreuse.elim
  | accept m =>
    obtain ⟨running, hm, hzero, a, hmem, hlive, hid⟩ := hreuse
    cases effect_step hstep with
    | unchanged _ idle => simp [idle m rfl] at running
    | refused _ invalid => exact absurd invalid (by simp [hm, hzero])
    | served _ _ _ _ other => exact absurd rfl (other m)
    | closed _ _ _ other => exact absurd rfl (other m)
    | created _ _ _ standings manager =>
      refine ⟨by rw [manager]; exact running, fun identified => ?_⟩
      obtain ⟨i, hi⟩ := List.mem_iff_getElem?.mp hmem
      have hlt := (List.getElem?_eq_some_iff.mp hi).1
      have hsame := identified.distinct i server.standings.length a { id := server.nextId }
        (by rw [standings, List.getElem?_append_left hlt, hi])
        (by rw [standings, List.getElem?_concat_length]) hlive rfl hid
      omega

theorem Linked.identified_iff (linked : server.Linked)
    (hstep : step native serialize server e = some t) :
    (t.manager.stopped = false → Identified server t) ↔ ¬server.Reuses e := by
  constructor
  · intro h hreuse
    obtain ⟨running, hnot⟩ := not_identified_of_reuses hreuse hstep
    exact hnot (h running)
  · intro hreuse running
    exact linked.identified (linked_step linked hreuse hstep) (effect_step hstep) running

/-- Ids identify live connections along a run exactly when no `create` of the run is
given an id that a live connection holds. -/
theorem identified_along_iff (native : Endian) (serialize : ServerMessage → Option (List UInt8))
    (es : List Event) :
    (step native serialize).Along
        (fun server _ t => t.manager.stopped = false → Identified server t) {} es ↔
      (step native serialize).Along (fun server e _ => ¬server.Reuses e) {} es := by
  refine Machine.along_iff (fun _ _ _ linked hstep => linked.identified_iff hstep)
    (fun server e t linked hstep h => ?_) linked_initial es
  exact linked_step linked ((linked.identified_iff hstep).mp h) hstep

/-- Connections that were accepted and have stayed open, the first with id 1. -/
theorem standings_replicate_accept {n : Nat} (hn : n < 65536) :
    ∃ s, (step native serialize).exec {} (List.replicate n (.accept 1024)) = some s ∧
      s.manager.stopped = false ∧ s.manager.nextConnectionId.id = UInt16.ofNat n ∧
      s.standings.length = n ∧ (0 < n → s.standings[0]? = some { id := ⟨1⟩ }) := by
  induction n with
  | zero => exact ⟨{}, rfl, rfl, rfl, rfl, fun h => absurd h (by omega)⟩
  | succ n ih =>
    obtain ⟨s, hrun, running, hnext, hlength, hfirst⟩ := ih (by omega)
    have hid : s.nextId.id = UInt16.ofNat (n + 1) := by
      rw [nextId, ConnectionId.next_id, hnext, UInt16.ofNat_add]
      rfl
    have hzero : s.nextId.id ≠ 0 := by
      rw [hid, ne_eq, ← UInt16.toNat_inj, UInt16.toNat_ofNat_of_lt' (by change _ < 2 ^ 16; omega)]
      simp
    refine ⟨(s.accept 1024).2, ?_, ?_⟩
    · rw [List.replicate_succ', Machine.exec_concat_eq_some]
      exact ⟨s, hrun, rfl⟩
    · cases effect_accept s 1024 with
      | unchanged _ idle => simp [idle 1024 rfl] at running
      | refused _ invalid => exact absurd invalid (by simp [hzero])
      | served _ _ _ _ other => exact absurd rfl (other 1024)
      | closed _ _ _ other => exact absurd rfl (other 1024)
      | created _ _ _ standings manager =>
        refine ⟨by rw [manager]; exact running, by rw [manager]; exact hid, ?_, fun _ => ?_⟩
        · rw [standings, List.length_append, hlength, List.length_singleton]
        · rw [standings]
          cases n with
          | zero =>
            rw [List.eq_nil_of_length_eq_zero hlength]
            simp [ConnectionId.ext_iff, hid]
          | succ n =>
            rw [List.getElem?_append_left (by omega)]
            exact hfirst (by omega)

/-- 65535 connections, the `create` that wraps and throws, and one more: the first
connection is still open and the new one has its id. -/
theorem id_reused_after_wrap :
    ¬(step .little fun _ => none).Along
        (fun server _ t => t.manager.stopped = false → Identified server t) {}
        (List.replicate 65537 (.accept 1024)) := by
  intro along
  obtain ⟨s, hrun, running, hnext, hlength, hfirst⟩ :=
    @standings_replicate_accept .little (fun _ => none) 65535 (by omega)
  have hwrap : s.nextId.id = 0 := by
    rw [nextId, ConnectionId.next_id, hnext]
    rfl
  -- the throw leaves the counter at 0
  have hthrow : (s.accept 1024).2.standings = s.standings ∧
      (s.accept 1024).2.manager.stopped = false ∧
      (s.accept 1024).2.manager.nextConnectionId = s.nextId := by
    cases effect_accept s 1024 with
    | unchanged _ idle => simp [idle 1024 rfl] at running
    | refused _ _ standings manager =>
      exact ⟨standings, by rw [manager]; exact running, by rw [manager]⟩
    | created _ _ valid => exact absurd hwrap valid.1
    | served _ _ _ _ other => exact absurd rfl (other 1024)
    | closed _ _ _ other => exact absurd rfl (other 1024)
  obtain ⟨hstandings, hrunning, hcounter⟩ := hthrow
  have hone : (s.accept 1024).2.nextId = ⟨1⟩ := by
    rw [nextId, hcounter]
    exact ConnectionId.ext (by rw [ConnectionId.next_id, hwrap]; rfl)
  have hreuse : (s.accept 1024).2.Reuses (.accept 1024) := by
    refine ⟨hrunning, by decide, by rw [hone]; decide, { id := ⟨1⟩ }, ?_, rfl, hone.symm⟩
    rw [hstandings]
    exact List.mem_of_getElem? (hfirst (by omega))
  have hsplit : (65537 : Nat) = 65535 + 1 + 1 := rfl
  rw [hsplit, List.replicate_succ', List.replicate_succ'] at along
  have hidentified := along.last (Machine.exec_concat_eq_some.mpr ⟨s, hrun, rfl⟩) rfl
  obtain ⟨hstays, hnot⟩ := @not_identified_of_reuses .little (fun _ => none) _ _ _ hreuse rfl
  exact hnot (hidentified hstays)

end Server

end Stalker2D.Network
