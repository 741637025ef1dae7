import Mathlib.Data.List.Nodup
import Stalker2D.Server.Game.World

/-!
# Histories of a world service

A history is any list of `connect`, `disconnect` and `apply` calls, calls that
throw included. `Valid` is the invariant of all of them, and `admissions` counts
the calls that created a player: the id counter is always one more, so ids are
never reused and a world admits 254 players over its whole life, however many of
them have left again. `issued` lists the ids themselves.
-/

namespace Stalker2D.Game

theorem PlayerId.toNat_succ {id : PlayerId} (h : id ≠ 255) : (id + 1).toNat = id.toNat + 1 := by
  have hne : id.toNat ≠ 255 := fun he => h (UInt8.toNat_inj.mp he)
  have hlt := id.toNat_lt
  rw [UInt8.toNat_add, UInt8.toNat_one]
  omega

namespace WorldService

/-- The player the service has for a connection. -/
def playerFor (service : WorldService) (connection : ConnectionKey) : Option PlayerId :=
  service.connections.playerFor connection

/-- The service after a new player joined through an unbound connection. -/
def join (service : WorldService) (connection : ConnectionKey) : WorldService where
  state := service.state.addPlayer.2
  connections := service.connections.bind connection service.state.nextPlayerId

/-- Everything a call of `connect` can do. -/
theorem connect_cases (service : WorldService) (c : ConnectionKey) :
    (∃ p, service.playerFor c = some p ∧ service.connect c = (.ok p, service)) ∨
      (service.playerFor c = none ∧ service.state.nextPlayerId = 255 ∧
        service.connect c = (.error WorldState.tooManyPlayers, service)) ∨
      (service.playerFor c = none ∧ service.state.nextPlayerId ≠ 255 ∧
        service.connect c = (.ok service.state.nextPlayerId, service.join c)) := by
  simp only [connect, join, playerFor]
  cases hp : service.connections.playerFor c with
  | some p => exact .inl ⟨p, rfl, rfl⟩
  | none =>
    by_cases hfull : service.state.nextPlayerId = 255
    · exact .inr (.inl ⟨rfl, hfull, by simp [WorldState.addPlayer, hfull]⟩)
    · exact .inr (.inr ⟨rfl, hfull, by simp [WorldState.addPlayer, hfull]⟩)

theorem playerFor_join (service : WorldService) (c d : ConnectionKey) :
    (service.join c).playerFor d =
      if c = d then some service.state.nextPlayerId else service.playerFor d :=
  PlayerConnectionRegistry.playerFor_bind _ _ _ _

theorem nextPlayerId_join {service : WorldService} (h : service.state.nextPlayerId ≠ 255)
    (c : ConnectionKey) :
    (service.join c).state.nextPlayerId = service.state.nextPlayerId + 1 := by
  simp [join, WorldState.addPlayer, h]

theorem players_join {service : WorldService} (h : service.state.nextPlayerId ≠ 255)
    (c : ConnectionKey) :
    (service.join c).state.players = service.state.players.insertIfNew service.state.nextPlayerId
      ⟨service.state.nextPlayerId, service.state.spawnPosition⟩ := by
  simp [join, WorldState.addPlayer, h]

/-- A bound connection keeps its player, whoever connects. -/
theorem playerFor_of_connect (service : WorldService) (c : ConnectionKey) {d : ConnectionKey}
    {p : PlayerId} (h : service.playerFor d = some p) :
    (service.connect c).2.playerFor d = some p := by
  obtain ⟨q, -, hc⟩ | ⟨-, -, hc⟩ | ⟨hnone, -, hc⟩ := connect_cases service c
  · rwa [hc]
  · rwa [hc]
  · rw [hc, playerFor_join, if_neg, h]
    rintro rfl
    rw [hnone] at h
    cases h

/-- A successful `connect` gives its connection the returned player and no one else another. -/
theorem playerFor_of_connect_ok {service t : WorldService} {c : ConnectionKey} {p : PlayerId}
    (h : service.connect c = (.ok p, t)) (d : ConnectionKey) :
    t.playerFor d = if c = d then some p else service.playerFor d := by
  obtain ⟨q, hq, hc⟩ | ⟨-, -, hc⟩ | ⟨-, -, hc⟩ := connect_cases service c
  · rw [h] at hc
    obtain ⟨hqp, rfl⟩ := Prod.mk.inj hc
    obtain rfl := Except.ok.inj hqp
    split
    next hcd => rw [← hcd, hq]
    next => rfl
  · rw [h] at hc
    cases hc
  · rw [h] at hc
    obtain ⟨hqp, rfl⟩ := Prod.mk.inj hc
    obtain rfl := Except.ok.inj hqp
    exact playerFor_join service c d

theorem playerFor_disconnect (service : WorldService) (c d : ConnectionKey) :
    (service.disconnect c).playerFor d = if c = d then none else service.playerFor d := by
  simp only [disconnect, playerFor]
  cases hp : service.connections.playerFor c with
  | none =>
    by_cases hcd : c = d
    · rw [if_pos hcd, ← hcd, hp]
    · rw [if_neg hcd]
  | some p => exact PlayerConnectionRegistry.playerFor_unbind _ _ _

@[simp] theorem nextPlayerId_disconnect (service : WorldService) (c : ConnectionKey) :
    (service.disconnect c).state.nextPlayerId = service.state.nextPlayerId := by
  simp only [disconnect]
  cases service.connections.playerFor c <;> rfl

theorem players_disconnect {service : WorldService} {c : ConnectionKey} {p : PlayerId}
    (h : service.playerFor c = some p) :
    (service.disconnect c).state.players = service.state.players.erase p := by
  simp only [playerFor] at h
  simp [disconnect, h, WorldState.removePlayer]

theorem disconnect_of_unbound {service : WorldService} {c : ConnectionKey}
    (h : service.playerFor c = none) : service.disconnect c = service := by
  simp only [playerFor] at h
  simp [disconnect, h]

theorem apply_of_unbound {service : WorldService} {c : ConnectionKey}
    (h : service.playerFor c = none) (action : WorldAction) : service.apply c action = service := by
  simp only [playerFor] at h
  simp [apply, h]

/-- A move of a bound connection puts its player elsewhere. -/
theorem apply_move_of_bound {service : WorldService} {c : ConnectionKey} {p : PlayerId}
    {player : PlayerState} (h : service.playerFor c = some p)
    (hplayer : service.state.players[p]? = some player) (delta : Position) :
    service.apply c (.move delta) =
      { service with
        state :=
          { service.state with
            players := service.state.players.insert p
              { player with
                position := ⟨player.position.x + delta.x, player.position.y + delta.y⟩ } } } := by
  simp only [playerFor] at h
  simp [apply, h, applyToPlayer, WorldState.movePlayer, hplayer]

/-- An action moves players about; the registry, the ids and the counter stay. -/
theorem apply_frame (service : WorldService) (c : ConnectionKey) (action : WorldAction) :
    (service.apply c action).connections = service.connections ∧
      (service.apply c action).state.nextPlayerId = service.state.nextPlayerId ∧
      ∀ p : PlayerId, ((service.apply c action).state.players[p]?).map PlayerState.id =
        (service.state.players[p]?).map PlayerState.id := by
  simp only [apply]
  cases service.connections.playerFor c with
  | none => exact ⟨rfl, rfl, fun _ => rfl⟩
  | some player =>
    cases action with
    | interact => exact ⟨rfl, rfl, fun _ => rfl⟩
    | wait => exact ⟨rfl, rfl, fun _ => rfl⟩
    | move delta =>
      cases hplayer : service.state.players[player]? with
      | none => simp [applyToPlayer, WorldState.movePlayer, hplayer]
      | some playerState =>
        simp only [applyToPlayer, WorldState.movePlayer, hplayer, true_and]
        intro p
        by_cases hp : player = p
        · subst hp
          simp [hplayer]
        · simp [Std.TreeMap.getElem?_insert, hp]

/-- The registry and the players agree, and every id is below the counter. -/
structure Valid (service : WorldService) : Prop where
  bound : ∀ c p, service.playerFor c = some p → p ∈ service.state.players
  owned : ∀ p, p ∈ service.state.players → ∃ c, service.playerFor c = some p
  injective : ∀ c d p, service.playerFor c = some p → service.playerFor d = some p → c = d
  issued : ∀ p, p ∈ service.state.players → 1 ≤ p ∧ p < service.state.nextPlayerId
  keyed : ∀ (p : PlayerId) player, service.state.players[p]? = some player → player.id = p
  positive : 1 ≤ service.state.nextPlayerId

theorem valid_ofMap (map : TileMap) : (ofState (.ofMap map)).Valid where
  bound c p h := by simp [playerFor, ofState, PlayerConnectionRegistry.playerFor_empty] at h
  owned p h := by simp [ofState, WorldState.ofMap] at h
  injective c d p h := by simp [playerFor, ofState, PlayerConnectionRegistry.playerFor_empty] at h
  issued p h := by simp [ofState, WorldState.ofMap] at h
  keyed p player h := by simp [ofState, WorldState.ofMap] at h
  positive := UInt8.le_refl 1

/-- The id about to be issued belongs to nobody. -/
theorem Valid.next_free {service : WorldService} (valid : service.Valid) :
    service.state.nextPlayerId ∉ service.state.players :=
  fun h => absurd (valid.issued _ h).2 (by grind)

theorem Valid.join {service : WorldService} (valid : service.Valid)
    (room : service.state.nextPlayerId ≠ 255) {c : ConnectionKey}
    (unbound : service.playerFor c = none) : (service.join c).Valid := by
  have hmem : ∀ p, p ∈ (service.join c).state.players ↔
      service.state.nextPlayerId = p ∨ p ∈ service.state.players := by
    intro p
    simp [players_join room]
  refine ⟨?bound, ?owned, ?injective, ?issued, ?keyed, ?positive⟩
  case bound =>
    intro d p h
    rw [playerFor_join] at h
    rw [hmem]
    split at h
    · exact .inl (Option.some.inj h)
    · exact .inr (valid.bound d p h)
  case owned =>
    intro p h
    obtain hnew | hold := (hmem p).mp h
    · exact ⟨c, by rw [playerFor_join, if_pos rfl, hnew]⟩
    · obtain ⟨d, hd⟩ := valid.owned p hold
      have hcd : c ≠ d := fun he => by simp [← he, unbound] at hd
      exact ⟨d, by rw [playerFor_join, if_neg hcd, hd]⟩
  case injective =>
    intro d e p hd he
    rw [playerFor_join] at hd he
    have hfree := valid.next_free
    split at hd <;> split at he
    · simp_all
    · exact absurd (valid.bound e p he) (Option.some.inj hd ▸ hfree)
    · exact absurd (valid.bound d p hd) (Option.some.inj he ▸ hfree)
    · exact valid.injective d e p hd he
  case issued =>
    intro p h
    rw [nextPlayerId_join room]
    have hpos := valid.positive
    obtain hnew | hold := (hmem p).mp h
    · grind
    · have := valid.issued p hold
      grind
  case keyed =>
    intro p player h
    rw [players_join room, Std.TreeMap.getElem?_insertIfNew] at h
    split at h
    next hnew =>
      cases h
      simpa using hnew.1
    next => exact valid.keyed p player h
  case positive =>
    rw [nextPlayerId_join room]
    have := valid.positive
    grind

theorem Valid.connect {service : WorldService} (valid : service.Valid) (c : ConnectionKey) :
    (service.connect c).2.Valid := by
  obtain ⟨p, -, h⟩ | ⟨-, -, h⟩ | ⟨unbound, room, h⟩ := connect_cases service c
  · simpa only [h] using valid
  · simpa only [h] using valid
  · simpa only [h] using valid.join room unbound

theorem Valid.disconnect {service : WorldService} (valid : service.Valid) (c : ConnectionKey) :
    (service.disconnect c).Valid := by
  cases hc : service.playerFor c with
  | none => rwa [disconnect_of_unbound hc]
  | some q =>
    have hmem : ∀ p, p ∈ (service.disconnect c).state.players ↔
        q ≠ p ∧ p ∈ service.state.players := by
      intro p
      simp [players_disconnect hc]
    refine ⟨?bound, ?owned, ?injective, ?issued, ?keyed, ?positive⟩
    case bound =>
      intro d p h
      rw [playerFor_disconnect] at h
      split at h
      · cases h
      next hcd =>
        exact (hmem p).mpr
          ⟨fun he => hcd (valid.injective c d p (he ▸ hc) h), valid.bound d p h⟩
    case owned =>
      intro p h
      obtain ⟨hne, hold⟩ := (hmem p).mp h
      obtain ⟨d, hd⟩ := valid.owned p hold
      have hcd : c ≠ d := fun he => hne (Option.some.inj (hc.symm.trans (he ▸ hd)))
      exact ⟨d, by rw [playerFor_disconnect, if_neg hcd, hd]⟩
    case injective =>
      intro d e p hd he
      rw [playerFor_disconnect] at hd he
      split at hd
      · cases hd
      split at he
      · cases he
      exact valid.injective d e p hd he
    case issued =>
      intro p h
      rw [nextPlayerId_disconnect]
      exact valid.issued p ((hmem p).mp h).2
    case keyed =>
      intro p player h
      rw [players_disconnect hc, Std.TreeMap.getElem?_erase] at h
      split at h
      · cases h
      · exact valid.keyed p player h
    case positive =>
      rw [nextPlayerId_disconnect]
      exact valid.positive

theorem Valid.apply {service : WorldService} (valid : service.Valid) (c : ConnectionKey)
    (action : WorldAction) : (service.apply c action).Valid := by
  obtain ⟨hconn, hnext, hplayers⟩ := apply_frame service c action
  have hfor : ∀ d, (service.apply c action).playerFor d = service.playerFor d := by
    intro d
    rw [playerFor, hconn, playerFor]
  have hmem : ∀ p, p ∈ (service.apply c action).state.players ↔ p ∈ service.state.players := by
    intro p
    have h := congrArg Option.isSome (hplayers p)
    simp only [Option.isSome_map, ← Std.TreeMap.contains_eq_isSome_getElem?] at h
    rw [Std.TreeMap.mem_iff_contains, Std.TreeMap.mem_iff_contains, h]
  refine ⟨?bound, ?owned, ?injective, ?issued, ?keyed, ?positive⟩
  case bound =>
    intro d p h
    exact (hmem p).mpr (valid.bound d p (hfor d ▸ h))
  case owned =>
    intro p h
    obtain ⟨d, hd⟩ := valid.owned p ((hmem p).mp h)
    exact ⟨d, (hfor d).trans hd⟩
  case injective =>
    intro d e p hd he
    exact valid.injective d e p (hfor d ▸ hd) (hfor e ▸ he)
  case issued =>
    intro p h
    rw [hnext]
    exact valid.issued p ((hmem p).mp h)
  case keyed =>
    intro p player h
    have hid := hplayers p
    rw [h] at hid
    obtain ⟨old, hold, heq⟩ := Option.map_eq_some_iff.mp hid.symm
    rw [← heq]
    exact valid.keyed p old hold
  case positive =>
    rw [hnext]
    exact valid.positive

end WorldService

/-- A call on the service. -/
inductive WorldEvent
  | connect (connection : ConnectionKey)
  | disconnect (connection : ConnectionKey)
  | apply (connection : ConnectionKey) (action : WorldAction)
  deriving DecidableEq, Repr

namespace WorldService

/-- Every call is possible in every state; one that throws may still leave a state. -/
def step : Machine WorldService WorldEvent
  | service, .connect c => some (service.connect c).2
  | service, .disconnect c => some (service.disconnect c)
  | service, .apply c action => some (service.apply c action)

/-- Does this call create a player? -/
def admits (service : WorldService) : WorldEvent → Bool
  | .connect c => service.playerFor c = none ∧ (service.connect c).1.isOk
  | _ => false

/-- How many calls of a history created a player. -/
def admissions : WorldService → List WorldEvent → Nat
  | _, [] => 0
  | service, e :: es =>
    (service.admits e).toNat + ((step service e).map (admissions · es)).getD 0

theorem invariant_valid : step.Invariant Valid := by
  rintro service e t valid hstep
  cases e with
  | connect c => exact Option.some.inj hstep ▸ valid.connect c
  | disconnect c => exact Option.some.inj hstep ▸ valid.disconnect c
  | apply c action => exact Option.some.inj hstep ▸ valid.apply c action

/-- One call moves the counter exactly when it creates a player. -/
theorem nextPlayerId_step {service t : WorldService} {e : WorldEvent}
    (hstep : step service e = some t) :
    t.state.nextPlayerId.toNat = service.state.nextPlayerId.toNat + (service.admits e).toNat := by
  cases e with
  | connect c =>
    obtain rfl := Option.some.inj hstep
    obtain ⟨p, hp, h⟩ | ⟨hp, -, h⟩ | ⟨hp, room, h⟩ := connect_cases service c
    · simp [admits, h, hp]
    · simp [admits, h, Except.isOk, Except.toBool]
    · simp [admits, h, hp, Except.isOk, Except.toBool, nextPlayerId_join room,
        PlayerId.toNat_succ room]
  | disconnect c =>
    obtain rfl := Option.some.inj hstep
    simp [admits]
  | apply c action =>
    obtain rfl := Option.some.inj hstep
    simp [admits, (apply_frame service c action).2.1]

/-- The counter runs one ahead of the admissions, whatever has left since. -/
theorem nextPlayerId_exec {service t : WorldService} {es : List WorldEvent}
    (run : step.exec service es = some t) :
    t.state.nextPlayerId.toNat = service.state.nextPlayerId.toNat + admissions service es := by
  induction es generalizing service with
  | nil =>
    obtain rfl := Option.some.inj run
    rfl
  | cons e es ih =>
    obtain ⟨u, hstep, hrest⟩ := Machine.exec_cons_eq_some.mp run
    rw [ih hrest, nextPlayerId_step hstep, admissions, hstep]
    simp only [Option.map_some, Option.getD_some]
    omega

/-- `connect` fails exactly for a newcomer after 254 admissions, and otherwise gives
a newcomer an id no current player holds. The number of players still present
does not matter: ids of removed players are not reused. -/
theorem connect_admits_until_ids_run_out {es : List WorldEvent} {service : WorldService}
    (run : step.exec initial es = some service) (c : ConnectionKey) :
    ((service.connect c).1 = .error WorldState.tooManyPlayers ↔
        service.playerFor c = none ∧ admissions initial es = 254) ∧
      (service.playerFor c = none → admissions initial es < 254 →
        ∃ p, (service.connect c).1 = .ok p ∧ 1 ≤ p ∧ p ≤ 254 ∧ p ∉ service.state.players) := by
  have valid : service.Valid := invariant_valid.exec (valid_ofMap _) run
  have hcount : service.state.nextPlayerId.toNat = 1 + admissions initial es :=
    nextPlayerId_exec run
  have hfull : service.state.nextPlayerId = 255 ↔ admissions initial es = 254 := by
    rw [← UInt8.toNat_inj, hcount]
    change 1 + _ = 255 ↔ _
    omega
  obtain ⟨p, hp, h⟩ | ⟨hp, hlast, h⟩ | ⟨hp, room, h⟩ := connect_cases service c
  · simp [h, hp]
  · simp [h, hp, hfull.mp hlast]
  · refine ⟨?_, fun _ _ => ⟨_, by rw [h], valid.positive, ?_, valid.next_free⟩⟩
    · simp only [h, reduceCtorEq, false_iff, not_and]
      exact fun _ hlast => room (hfull.mpr hlast)
    · grind

/-- `n` visitors in a row, each gone before the next one comes. -/
def churn (n : Nat) : List WorldEvent :=
  (List.replicate n [.connect 1, .disconnect 1]).flatten

/-- 254 visitors later the world is empty and yet refuses the next one. -/
theorem connect_refused_in_empty_world :
    ((step.exec initial (churn 254)).map fun service =>
        (service.state.players.size, service.playerFor 1, (service.connect 1).1)) =
      some (0, none, .error (.runtimeError "Too many players")) := by
  decide +kernel

theorem connect_admits_after_churn :
    (∃ service, step.exec initial (churn 3) = some service ∧
      ((service.connect 1).1 = .error WorldState.tooManyPlayers ↔
        service.playerFor 1 = none ∧ admissions initial (churn 3) = 254) ∧
      (service.playerFor 1 = none → admissions initial (churn 3) < 254 →
        ∃ p, (service.connect 1).1 = .ok p ∧ 1 ≤ p ∧ p ≤ 254 ∧ p ∉ service.state.players)) :=
  ⟨_, rfl, connect_admits_until_ids_run_out rfl 1⟩

/-- The id this call gives to a newcomer. -/
def issue (service : WorldService) : WorldEvent → Option PlayerId
  | .connect c => if service.playerFor c = none then (service.connect c).1.toOption else none
  | _ => none

/-- The ids a history gives out, oldest first. -/
def issued : WorldService → List WorldEvent → List PlayerId
  | _, [] => []
  | service, e :: es =>
    (service.issue e).toList ++ ((step service e).map (issued · es)).getD []

/-- A call gives out the counter's value and moves the counter past it, or does neither. -/
theorem issue_cases {service t : WorldService} {e : WorldEvent} (hstep : step service e = some t) :
    (service.issue e = none ∧ t.state.nextPlayerId.toNat = service.state.nextPlayerId.toNat) ∨
      (service.issue e = some service.state.nextPlayerId ∧
        t.state.nextPlayerId.toNat = service.state.nextPlayerId.toNat + 1) := by
  have hnext := nextPlayerId_step hstep
  cases e with
  | connect c =>
    obtain ⟨p, hp, h⟩ | ⟨hp, -, h⟩ | ⟨hp, -, h⟩ := connect_cases service c
    · exact .inl ⟨by simp [issue, hp], by simpa [admits, hp] using hnext⟩
    · refine .inl ⟨by simp [issue, hp, h, Except.toOption], ?_⟩
      simpa [admits, h, Except.isOk, Except.toBool] using hnext
    · refine .inr ⟨by simp [issue, hp, h, Except.toOption], ?_⟩
      simpa [admits, hp, h, Except.isOk, Except.toBool] using hnext
  | disconnect c => exact .inl ⟨rfl, by simpa [admits] using hnext⟩
  | apply c action => exact .inl ⟨rfl, by simpa [admits] using hnext⟩

/-- The ids given out are consecutive, and the counter ends right behind the last of them. -/
theorem issued_eq_range {service t : WorldService} {es : List WorldEvent}
    (run : step.exec service es = some t) :
    (issued service es).map UInt8.toNat =
        List.range' service.state.nextPlayerId.toNat (issued service es).length ∧
      t.state.nextPlayerId.toNat =
        service.state.nextPlayerId.toNat + (issued service es).length := by
  induction es generalizing service with
  | nil =>
    obtain rfl := Option.some.inj run
    exact ⟨rfl, rfl⟩
  | cons e es ih =>
    obtain ⟨u, hstep, hrest⟩ := Machine.exec_cons_eq_some.mp run
    obtain ⟨hrange, hcount⟩ := ih hrest
    have hissued : issued service (e :: es) = (service.issue e).toList ++ issued u es := by
      simp only [issued, hstep, Option.map_some, Option.getD_some]
    obtain ⟨hissue, hnext⟩ | ⟨hissue, hnext⟩ := issue_cases hstep
    · rw [hissued, hissue, Option.toList_none, List.nil_append, hrange, hcount, hnext]
      simp
    · rw [hissued, hissue, Option.toList_some, List.singleton_append, List.map_cons, hrange,
        List.length_cons, List.range'_succ, hcount, hnext]
      exact ⟨rfl, by omega⟩

theorem connect_error {service : WorldService} {c : ConnectionKey} {e : Exception}
    (h : (service.connect c).1 = .error e) : (service.connect c).2 = service := by
  obtain ⟨p, -, hc⟩ | ⟨-, -, hc⟩ | ⟨-, -, hc⟩ := connect_cases service c
  · rw [hc]
  · rw [hc]
  · rw [hc] at h
    cases h

/-- In every history of a world that starts empty, the registry pairs the bound connections
with the players one to one, ids are given out once and stay below the counter, and a
`connect` that throws changes nothing. -/
theorem registry_matches_players {map : TileMap} {es : List WorldEvent} {service : WorldService}
    (run : step.exec (ofState (.ofMap map)) es = some service) :
    (∀ c d p, service.playerFor c = some p → service.playerFor d = some p → c = d) ∧
      (∀ p, p ∈ service.state.players ↔ ∃ c, service.playerFor c = some p) ∧
      (∀ (p : PlayerId) player, service.state.players[p]? = some player → player.id = p) ∧
      (∀ p ∈ issued (ofState (.ofMap map)) es, 1 ≤ p ∧ p < service.state.nextPlayerId) ∧
      (issued (ofState (.ofMap map)) es).Nodup ∧
      service.state.nextPlayerId.toNat = 1 + (issued (ofState (.ofMap map)) es).length ∧
      ∀ c e, (service.connect c).1 = .error e → (service.connect c).2 = service := by
  have valid : service.Valid := invariant_valid.exec (valid_ofMap map) run
  obtain ⟨hrange, hcount⟩ := issued_eq_range run
  have hfirst : (ofState (.ofMap map)).state.nextPlayerId.toNat = 1 := rfl
  rw [hfirst] at hrange hcount
  refine ⟨valid.injective, ?image, valid.keyed, ?below, ?once, hcount, fun c e => connect_error⟩
  case image =>
    intro p
    exact ⟨valid.owned p, fun ⟨c, h⟩ => valid.bound c p h⟩
  case below =>
    intro p hp
    have hmem : p.toNat ∈ List.range' 1 (issued (ofState (.ofMap map)) es).length :=
      hrange ▸ List.mem_map_of_mem hp
    rw [List.mem_range'_1] at hmem
    rw [UInt8.le_iff_toNat_le, UInt8.lt_iff_toNat_lt, hcount]
    exact ⟨hmem.1, hmem.2⟩
  case once =>
    apply List.Nodup.of_map UInt8.toNat
    rw [hrange]
    exact List.nodup_range'

theorem registry_matches_players_in_full_world :
    ∃ service, step.exec (ofState (.ofMap ⟨"bootstrap", 32, 18⟩)) (churn 254) = some service ∧
      service.state.nextPlayerId = 255 ∧
      (∀ c d p, service.playerFor c = some p → service.playerFor d = some p → c = d) ∧
      (service.connect 1).1 = .error WorldState.tooManyPlayers ∧
      (service.connect 1).2 = service := by
  have hrun : ((step.exec (ofState (.ofMap ⟨"bootstrap", 32, 18⟩)) (churn 254)).map fun service =>
      (service.state.nextPlayerId, (service.connect 1).1)) =
        some (255, .error WorldState.tooManyPlayers) := by
    decide +kernel
  obtain ⟨service, run, hlast⟩ := Option.map_eq_some_iff.mp hrun
  obtain ⟨hinj, -, -, -, -, -, hthrow⟩ := registry_matches_players run
  obtain ⟨hnext, herror⟩ := Prod.mk.inj hlast
  exact ⟨service, run, hnext, hinj, herror, hthrow 1 _ herror⟩

end WorldService

end Stalker2D.Game
