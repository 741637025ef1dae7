import Stalker2D.Server.Network.Identity

/-!
# Players follow connections

As long as fewer than 65536 connections are accepted, no id is given twice, so ids identify
live connections and every step keeps `Linked`. A player is then bound exactly while its
connection is open, from the first message that `onMessage` has answered.
-/

namespace Stalker2D.Network

open Protocol Game

namespace Server

variable {native : Endian} {serialize : ServerMessage → Option (List UInt8)}
variable {server t : Server} {e : Event}

/-- How many connections a list of events accepts, successfully or not. -/
def accepts (es : List Event) : Nat :=
  es.countP fun
    | .accept _ => true
    | _ => false

/-- A connection keeps its place and its id, and stays closed. -/
theorem Effect.standing (effect : Effect server t e) {i : Nat} {a : Standing}
    (h : server.standings[i]? = some a) :
    ∃ b, t.standings[i]? = some b ∧ b.id = a.id ∧ (a.closed = true → b.closed = true) := by
  cases effect with
  | unchanged _ _ standings => exact ⟨a, by rw [standings, h], rfl, fun hc => hc⟩
  | refused _ _ standings => exact ⟨a, by rw [standings, h], rfl, fun hc => hc⟩
  | stopped standings => exact ⟨a, by rw [standings, h], rfl, fun hc => hc⟩
  | created _ _ _ standings =>
    refine ⟨a, ?_, rfl, fun hc => hc⟩
    rw [standings, List.getElem?_append_left (List.getElem?_eq_some_iff.mp h).1, h]
  | served _ position c _ _ get _ standings =>
    rw [getElem?_set_standing get standings]
    split
    next hi =>
      obtain rfl := Option.some.inj (get.symm.trans (hi ▸ h))
      exact ⟨_, rfl, rfl, fun hc => hc⟩
    next => exact ⟨a, h, rfl, fun hc => hc⟩
  | closed _ position c _ get _ standings =>
    rw [getElem?_set_standing get standings]
    split
    next hi =>
      obtain rfl := Option.some.inj (get.symm.trans (hi ▸ h))
      exact ⟨_, rfl, rfl, fun _ => rfl⟩
    next => exact ⟨a, h, rfl, fun hc => hc⟩

/-- A new place is taken by `create` only, under the next id. -/
theorem Effect.standing_inv (effect : Effect server t e) {i : Nat} {b : Standing}
    (h : t.standings[i]? = some b) :
    (∃ a, server.standings[i]? = some a ∧ b.id = a.id) ∨
      i = server.standings.length ∧ b.id = server.nextId ∧ accepts [e] = 1 ∧
        t.manager.nextConnectionId = server.nextId := by
  by_cases hlt : i < server.standings.length
  · obtain ⟨b', hb', hid, -⟩ := effect.standing (List.getElem?_eq_getElem hlt)
    obtain rfl := Option.some.inj (h.symm.trans hb')
    exact .inl ⟨_, List.getElem?_eq_getElem hlt, hid⟩
  · have hget := (List.getElem?_eq_some_iff.mp h).1
    cases effect with
    | unchanged _ _ standings => exact absurd (standings ▸ hget) hlt
    | refused _ _ standings => exact absurd (standings ▸ hget) hlt
    | stopped standings => exact absurd (standings ▸ hget) hlt
    | served _ _ _ _ _ _ _ standings =>
      rw [standings, List.length_set] at hget
      exact absurd hget hlt
    | closed _ _ _ _ _ _ standings =>
      rw [standings, List.length_set] at hget
      exact absurd hget hlt
    | created _ _ _ standings manager =>
      rw [standings, List.length_append, List.length_singleton] at hget
      obtain rfl : i = server.standings.length := by omega
      rw [standings, List.getElem?_concat_length] at h
      obtain rfl := Option.some.inj h
      exact .inr ⟨rfl, rfl, rfl, by rw [manager]⟩

/-- Only an accepted connection moves the counter. -/
theorem Effect.counter (effect : Effect server t e) :
    t.manager.nextConnectionId = server.manager.nextConnectionId ∨
      accepts [e] = 1 ∧ t.manager.nextConnectionId = server.nextId := by
  cases effect with
  | unchanged _ _ _ manager => exact .inl (by rw [manager])
  | refused _ _ _ manager => exact .inr ⟨rfl, by rw [manager]⟩
  | created _ _ _ _ manager => exact .inr ⟨rfl, by rw [manager]⟩
  | stopped _ manager => exact .inl (by rw [manager])
  | served _ _ _ _ _ _ _ _ manager => exact .inl (by rw [manager])
  | closed _ _ _ _ _ _ _ manager =>
    left
    rw [manager, ServerConnectionManager.remove]
    split <;> rfl

/-- The counter has not wrapped in `n` accepts, and ids are numbered by it. -/
structure Counted (n : Nat) (server : Server) : Prop where
  counter : server.manager.nextConnectionId.id.toNat ≤ n
  below : ∀ (i : Nat) a, server.standings[i]? = some a →
    a.id.id.toNat ≤ server.manager.nextConnectionId.id.toNat
  distinct : ∀ (i j : Nat) a b, server.standings[i]? = some a → server.standings[j]? = some b →
    a.id = b.id → i = j

theorem Counted.nextId_toNat {n : Nat} (counted : server.Counted n) (hn : n < 65535) :
    server.nextId.id.toNat = server.manager.nextConnectionId.id.toNat + 1 := by
  have hcounter := counted.counter
  rw [nextId, ConnectionId.next_id, UInt16.toNat_add, UInt16.toNat_one]
  omega

theorem Counted.step {n : Nat} (counted : server.Counted n) (few : n + accepts [e] < 65536)
    (effect : Effect server t e) : t.Counted (n + accepts [e]) := by
  have hcounter := counted.counter
  have hnextId : accepts [e] = 1 →
      server.nextId.id.toNat = server.manager.nextConnectionId.id.toNat + 1 :=
    fun hone => counted.nextId_toNat (by omega)
  have hgrow : server.manager.nextConnectionId.id.toNat ≤ t.manager.nextConnectionId.id.toNat ∧
      t.manager.nextConnectionId.id.toNat ≤ n + accepts [e] := by
    obtain h | ⟨hone, h⟩ := effect.counter
    · rw [h]
      omega
    · rw [h, hnextId hone]
      omega
  -- a new id is above the counter so far, hence above all old ids
  have inv : ∀ {i : Nat} {b : Standing}, t.standings[i]? = some b →
      (∃ a, server.standings[i]? = some a ∧ b.id = a.id) ∨
        i = server.standings.length ∧ b.id = t.manager.nextConnectionId ∧
          b.id.id.toNat = server.manager.nextConnectionId.id.toNat + 1 := by
    intro i b h
    obtain hold | ⟨hi, hid, hone, hnext⟩ := effect.standing_inv h
    · exact .inl hold
    · exact .inr ⟨hi, hid.trans hnext.symm, by rw [hid, hnextId hone]⟩
  refine ⟨hgrow.2, ?below, ?distinct⟩
  case below =>
    intro i b h
    obtain ⟨a, ha, hid⟩ | ⟨-, hid, -⟩ := inv h
    · rw [hid]
      exact Nat.le_trans (counted.below i a ha) hgrow.1
    · exact Nat.le_of_eq (by rw [hid])
  case distinct =>
    intro i j b c hi hj hid
    obtain ⟨b', hb', hbid⟩ | ⟨rfl, -, hb⟩ := inv hi <;>
      obtain ⟨c', hc', hcid⟩ | ⟨rfl, -, hc⟩ := inv hj
    · exact counted.distinct i j b' c' hb' hc' (hbid ▸ hcid ▸ hid)
    · have := counted.below i b' hb'
      rw [← hbid, hid, hc] at this
      omega
    · have := counted.below j c' hc'
      rw [← hcid, ← hid, hb] at this
      omega
    · rfl

/-- Before the counter wraps no id is given twice. -/
theorem Counted.not_reuses {n : Nat} (counted : server.Counted n) (few : n + accepts [e] < 65536) :
    ¬server.Reuses e := by
  cases e with
  | deliver _ _ => exact id
  | connection _ _ => exact id
  | stopAll => exact id
  | accept m =>
    rintro ⟨-, -, -, a, hmem, -, hid⟩
    obtain ⟨i, hi⟩ := List.mem_iff_getElem?.mp hmem
    have hbelow := counted.below i a hi
    have hone : accepts [.accept m] = 1 := rfl
    have hnext := counted.nextId_toNat (by omega)
    rw [hid, hnext] at hbelow
    omega

theorem accepts_append (es fs : List Event) : accepts (es ++ fs) = accepts es + accepts fs :=
  List.countP_append

theorem counted_initial : Counted 0 {} where
  counter := Nat.le_refl _
  below _ _ h := by simp [standings] at h
  distinct _ _ _ _ h := by simp [standings] at h

theorem Counted.not_reuses_along {n : Nat} (counted : server.Counted n) {es : List Event}
    (few : n + accepts es < 65536) :
    (Server.step native serialize).Along (fun server e _ => ¬server.Reuses e) server es := by
  refine Machine.along_within (I := fun n (server : Server) => server.Counted n) accepts_append ?_
    counted few
  intro n server e t counted few hstep
  exact ⟨counted.not_reuses few, counted.step few (effect_step hstep)⟩

/-- Ids always identify live connections before the counter has wrapped once, which takes
65536 calls of `create`. -/
theorem identified_before_wrap {es : List Event} (few : accepts es < 65536) :
    (step native serialize).Along
      (fun server _ t => t.manager.stopped = false → Identified server t) {} es := by
  have fresh : (step native serialize).Along (fun server e _ => ¬server.Reuses e) {} es :=
    counted_initial.not_reuses_along (by omega)
  refine (Machine.along_iff (fun _ _ _ linked hstep => linked.identified_iff hstep)
    (fun server e t linked hstep h => ?_) linked_initial es).mpr fresh
  exact linked_step linked ((linked.identified_iff hstep).mp h) hstep

theorem linked_exec {es : List Event} (run : (step native serialize).exec {} es = some server)
    (few : accepts es < 65536) : server.Linked ∧ server.Counted (accepts es) := by
  refine Machine.exec_within
    (motive := fun es (server : Server) => server.Linked ∧ server.Counted (accepts es))
    accepts_append ⟨linked_initial, counted_initial⟩ ?_ run few
  rintro es s e u - few ⟨linked, counted⟩ hstep
  rw [accepts_append]
  exact ⟨linked_step linked (counted.not_reuses few) hstep,
    counted.step few (effect_step hstep)⟩

theorem standing_exec {es : List Event} (run : (step native serialize).exec server es = some t)
    {i : Nat} {a : Standing} (h : server.standings[i]? = some a) :
    ∃ b, t.standings[i]? = some b ∧ b.id = a.id ∧ (a.closed = true → b.closed = true) := by
  induction es generalizing server a with
  | nil =>
    obtain rfl := Option.some.inj run
    exact ⟨a, h, rfl, fun hc => hc⟩
  | cons e es ih =>
    obtain ⟨u, hstep, hrest⟩ := Machine.exec_cons_eq_some.mp run
    obtain ⟨b, hb, hid, hclosed⟩ := (effect_step hstep).standing h
    obtain ⟨c, hc, hid', hclosed'⟩ := ih hrest hb
    exact ⟨c, hc, hid'.trans hid, fun ha => hclosed' (hclosed ha)⟩

/-- Players and connections in one state. -/
structure PlayersFollow (server : Server) : Prop where
  /-- Connections are told apart by their ids, closed ones included. -/
  distinct : ∀ (i j : Nat) a b, server.standings[i]? = some a → server.standings[j]? = some b →
    a.id = b.id → i = j
  bound : ∀ key, (∃ p, server.world.playerFor key = some p) ↔
    ∃ a ∈ server.standings, a.id.id = key ∧ a.closed = false ∧ a.served = true
  /-- A bound connection has a player of its own. -/
  one : ∀ key p, server.world.playerFor key = some p →
    p ∈ server.world.state.players ∧ ∀ key', server.world.playerFor key' = some p → key' = key
  others : ∀ p, p ∈ server.world.state.players → ∃ key, server.world.playerFor key = some p

theorem Linked.playersFollow (linked : server.Linked) {n : Nat} (counted : server.Counted n) :
    PlayersFollow server where
  distinct := counted.distinct
  bound key := by
    constructor
    · rintro ⟨p, hp⟩
      obtain ⟨i, a, ha, hlive, hserved, hid⟩ := linked.bound key p hp
      exact ⟨a, List.mem_of_getElem? ha, hid, hlive, hserved⟩
    · rintro ⟨a, hmem, rfl, hlive, hserved⟩
      obtain ⟨i, hi⟩ := List.mem_iff_getElem?.mp hmem
      exact linked.served i a hi hlive hserved
  one key p hp :=
    ⟨linked.valid.bound key p hp, fun key' hp' => linked.valid.injective key' key p hp' hp⟩
  others := linked.valid.owned

/-- A closed connection has no player. -/
theorem PlayersFollow.unbound (follow : PlayersFollow server) {i : Nat} {a : Standing}
    (h : server.standings[i]? = some a) (hclosed : a.closed = true) :
    server.world.playerFor a.id.id = none := by
  cases hp : server.world.playerFor a.id.id with
  | none => rfl
  | some p =>
    obtain ⟨b, hmem, hid, hlive, -⟩ := (follow.bound a.id.id).mp ⟨p, hp⟩
    obtain ⟨j, hj⟩ := List.mem_iff_getElem?.mp hmem
    obtain rfl := follow.distinct j i b a hj h (ConnectionId.ext hid)
    obtain rfl := Option.some.inj (hj.symm.trans h)
    rw [hlive] at hclosed
    cases hclosed

/-- A connection has a player, one of its own, exactly while it is open and has sent something,
and there are no other players; once closed it never has one again. This holds as long as fewer
than 65536 connections have been accepted. -/
theorem players_follow_connections {es : List Event}
    (run : (step native serialize).exec {} es = some server) (few : accepts es < 65536) :
    PlayersFollow server ∧
      ∀ (i : Nat) a, server.standings[i]? = some a → a.closed = true →
        ∀ fs t, accepts (es ++ fs) < 65536 → (step native serialize).exec server fs = some t →
          t.world.playerFor a.id.id = none := by
  obtain ⟨linked, counted⟩ := linked_exec run few
  refine ⟨linked.playersFollow counted, fun i a h hclosed fs t hfew hrun => ?_⟩
  obtain ⟨b, hb, hid, hstays⟩ := standing_exec hrun h
  obtain ⟨linked', counted'⟩ := linked_exec
    (Machine.exec_append_eq_some.mpr ⟨server, run, hrun⟩) hfew
  rw [← hid]
  exact (linked'.playersFollow counted').unbound hb (hstays hclosed)

/-- One connection is served and stays, another is served and fails to read. -/
def twoVisitors : List Event :=
  [.accept 1024, .connection 0 .runPosted, .connection 0 .readerStarts, .accept 1024,
    .connection 1 .runPosted, .connection 1 .readerStarts,
    .deliver 1 { requestId := 1, payload := some (.ping {}) },
    .deliver 0 { requestId := 1, payload := some .stateSnapshot }, .connection 1 .readFails]

theorem players_follow_twoVisitors :
    ∃ server, (step .little fun _ => none).exec {} twoVisitors = some server ∧
      PlayersFollow server ∧ server.world.playerFor 1 = some 2 ∧
      server.world.playerFor 2 = none :=
  ⟨_, rfl, (@players_follow_connections .little (fun _ => none) _ twoVisitors rfl (by decide)).1,
    by decide, by decide⟩

end Server

end Stalker2D.Network
