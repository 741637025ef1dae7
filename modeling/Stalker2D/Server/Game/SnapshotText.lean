import Stalker2D.Data.JsonReading
import Stalker2D.Server.Game.MoveArithmetic

/-!
# What a snapshot tells

The text of a snapshot is all a client ever sees of a world. It says everything about the
map and about who is where, and nothing else: not how the players got there, not through
which connections, and not how many have left.
-/

namespace Stalker2D.Game

open Json (mem_of_ofPairs_eq)

theorem WorldState.playerJson_injective : Function.Injective WorldState.playerJson := by
  rintro ⟨id, x, y⟩ ⟨id', x', y'⟩ h
  have hid := mem_of_ofPairs_eq h List.mem_cons_self
  have hposition := mem_of_ofPairs_eq h (List.mem_cons_of_mem _ List.mem_cons_self)
  simp only [List.mem_cons, List.not_mem_nil, or_false, Prod.mk.injEq, true_and,
    Json.number.injEq, String.reduceEq, false_and, false_or] at hid hposition
  have hx := mem_of_ofPairs_eq hposition List.mem_cons_self
  have hy := mem_of_ofPairs_eq hposition (List.mem_cons_of_mem _ List.mem_cons_self)
  simp only [List.mem_cons, List.not_mem_nil, or_false, Prod.mk.injEq, true_and,
    Json.number.injEq, String.reduceEq, false_and, false_or] at hx hy
  obtain rfl : id = id' := UInt8.toNat_inj.mp (by omega)
  rw [hx, hy]

/-- The text of a world is its map and the values of its players. -/
theorem WorldState.toJson_eq_iff {a b : WorldState} :
    a.toJson = b.toJson ↔ a.map = b.map ∧ a.players.values = b.players.values := by
  constructor
  · intro h
    have hjson := Json.dump_injective h
    have hworld := mem_of_ofPairs_eq hjson List.mem_cons_self
    have hmap := mem_of_ofPairs_eq hjson (List.mem_cons_of_mem _ List.mem_cons_self)
    have hplayers := mem_of_ofPairs_eq hjson
      (List.mem_cons_of_mem _ (List.mem_cons_of_mem _ List.mem_cons_self))
    simp only [List.mem_cons, List.not_mem_nil, or_false, Prod.mk.injEq, true_and,
      String.reduceEq, false_and, false_or, Json.string.injEq, Json.array.injEq]
      at hworld hmap hplayers
    have hwidth := mem_of_ofPairs_eq hmap List.mem_cons_self
    have hheight := mem_of_ofPairs_eq hmap (List.mem_cons_of_mem _ List.mem_cons_self)
    simp only [List.mem_cons, List.not_mem_nil, or_false, Prod.mk.injEq, true_and,
      Json.number.injEq, String.reduceEq, false_and, false_or] at hwidth hheight
    refine ⟨?_, List.map_injective_iff.mpr playerJson_injective hplayers⟩
    obtain ⟨_, ⟨name, width, height⟩, _, _⟩ := a
    obtain ⟨_, ⟨name', width', height'⟩, _, _⟩ := b
    rw [TileMap.mk.injEq]
    exact ⟨hworld, hwidth, hheight⟩
  · rintro ⟨hmap, hplayers⟩
    rw [toJson, toJson, hmap, hplayers]

namespace WorldService

variable {a b service : WorldService}

/-- The players of a valid world are its values: each knows its own id. -/
theorem Valid.player_eq_some_iff (valid : service.Valid) {id : PlayerId} {player : PlayerState} :
    service.state.player id = some player ↔
      player ∈ service.state.players.values ∧ player.id = id := by
  rw [TreeMap.values_eq_map_toList, List.mem_map]
  constructor
  · intro h
    exact ⟨⟨(id, player), Std.TreeMap.mem_toList_iff_getElem?_eq_some.mpr h, rfl⟩,
      valid.keyed id player h⟩
  · rintro ⟨⟨⟨key, _⟩, hpair, rfl⟩, rfl⟩
    have hkey := Std.TreeMap.mem_toList_iff_getElem?_eq_some.mp hpair
    rw [valid.keyed key _ hkey]
    exact hkey

theorem Valid.values_eq_iff (valid : a.Valid) (valid' : b.Valid) :
    a.state.players.values = b.state.players.values ↔
      ∀ id, a.state.player id = b.state.player id := by
  constructor
  · intro h id
    ext player
    rw [valid.player_eq_some_iff, valid'.player_eq_some_iff, h]
  · intro h
    exact (Std.TreeMap.Equiv.of_forall_constGet?_eq h).values_eq

theorem Valid.snapshotJson_eq_iff (valid : a.Valid) (valid' : b.Valid) :
    a.snapshotJson = b.snapshotJson ↔
      a.state.map = b.state.map ∧ ∀ id, a.state.player id = b.state.player id := by
  rw [snapshotJson, snapshotJson, WorldState.toJson_eq_iff, valid.values_eq_iff valid']

/-- A reachable world is valid and still has the map it began with, whatever its sums did. -/
theorem valid_of_run {map : TileMap} {es : List WorldEvent}
    (run : intStep.exec (ofState (.ofMap map)) es = some service) :
    service.Valid ∧ service.state.map = map := by
  obtain ⟨fs, hexact⟩ := exists_exec_eq run
  exact ⟨invariant_valid.exec (valid_ofMap map) hexact, map_exec hexact⟩

/-- Two servers, each after a history of its own, give the same snapshot exactly if they
have the same map and the same players standing at the same places. -/
theorem snapshots_equal_iff {map map' : TileMap} {es fs : List WorldEvent}
    (run : intStep.exec (ofState (.ofMap map)) es = some a)
    (run' : intStep.exec (ofState (.ofMap map')) fs = some b) :
    a.snapshotJson = b.snapshotJson ↔
      map = map' ∧ ∀ id, a.state.player id = b.state.player id := by
  obtain ⟨valid, hmap⟩ := valid_of_run run
  obtain ⟨valid', hmap'⟩ := valid_of_run run'
  rw [valid.snapshotJson_eq_iff valid', hmap, hmap']

/-- Player 2 alone on the map, after different things happened, one step further, and at the
western end of the range, which a player also reaches by walking east. -/
theorem snapshots_equal_iff_twoWays :
    ∃ a b c d e, intStep.exec (ofState (.ofMap ⟨"a \"b\"", 3, -4⟩))
        [.connect 1, .apply 1 (.move ⟨4, 9⟩), .connect 2, .disconnect 1] = some a ∧
      intStep.exec (ofState (.ofMap ⟨"a \"b\"", 3, -4⟩))
        [.connect 7, .connect 5, .apply 7 .wait, .disconnect 7] = some b ∧
      intStep.exec (ofState (.ofMap ⟨"a \"b\"", 3, -4⟩))
        [.connect 7, .connect 5, .disconnect 7, .apply 5 (.move ⟨0, 1⟩)] = some c ∧
      intStep.exec (ofState (.ofMap ⟨"a \"b\"", 3, -4⟩))
        [.connect 1, .apply 1 (.move ⟨2147483647, 0⟩), .apply 1 (.move ⟨1, 0⟩)] = some d ∧
      intStep.exec (ofState (.ofMap ⟨"a \"b\"", 3, -4⟩))
        [.connect 9, .apply 9 (.move ⟨-2147483648, 0⟩)] = some e ∧
      a.snapshotJson = b.snapshotJson ∧ a.snapshotJson ≠ c.snapshotJson ∧
      d.snapshotJson = e.snapshotJson := by
  have moved : intStep.exec (ofState (.ofMap ⟨"a \"b\"", 3, -4⟩))
      [.connect 1, .apply 1 (.move ⟨4, 9⟩), .connect 2, .disconnect 1] = some _ := rfl
  have waited : intStep.exec (ofState (.ofMap ⟨"a \"b\"", 3, -4⟩))
      [.connect 7, .connect 5, .apply 7 .wait, .disconnect 7] = some _ := rfl
  have further : intStep.exec (ofState (.ofMap ⟨"a \"b\"", 3, -4⟩))
      [.connect 7, .connect 5, .disconnect 7, .apply 5 (.move ⟨0, 1⟩)] = some _ := rfl
  have east : intStep.exec (ofState (.ofMap ⟨"a \"b\"", 3, -4⟩))
      [.connect 1, .apply 1 (.move ⟨2147483647, 0⟩), .apply 1 (.move ⟨1, 0⟩)] = some _ := rfl
  have west : intStep.exec (ofState (.ofMap ⟨"a \"b\"", 3, -4⟩))
      [.connect 9, .apply 9 (.move ⟨-2147483648, 0⟩)] = some _ := rfl
  refine ⟨_, _, _, _, _, moved, waited, further, east, west, ?_, fun h => ?_, ?_⟩
  · exact (snapshots_equal_iff moved waited).mpr ⟨rfl, fun _ => rfl⟩
  · exact absurd (((snapshots_equal_iff moved further).mp h).2 2) (by decide)
  · exact (snapshots_equal_iff east west).mpr ⟨rfl, fun _ => rfl⟩

end WorldService

end Stalker2D.Game
