import Mathlib.Data.List.Sort
import Stalker2D.Server.Game.History

/-!
# One session per connection

What the world service is for, without its two maps and its counter: a table of
sessions in the order in which their connections joined. A session has its
player's number and position, and the number of the call that opened it.

`Refines` relates a service to such a table, and every call keeps it. What the
table says about a whole history is read off the table alone: a connection has a
session from its last successful `connect` until it disconnects, and the player
stands where its own moves since then have brought it.
-/

namespace Stalker2D.Game

/-- The values of an ordered map, in the order of its keys. -/
theorem TreeMap.values_eq_map_toList {α β : Type*} {cmp : α → α → Ordering}
    (map : Std.TreeMap α β cmp) : map.values = map.toList.map Prod.snd := by
  have hvalues : map.values = map.foldr (fun _ value values => value :: values) [] := rfl
  rw [hvalues, Std.TreeMap.foldr_eq_foldr_toList]
  induction map.toList with
  | nil => rfl
  | cons pair pairs ih => rw [List.foldr_cons, ih, List.map_cons]

structure Session where
  connection : ConnectionKey
  player : PlayerId
  position : Position := {}
  joined : Nat
  deriving DecidableEq, Repr

/-- Where a player stands after some moves. -/
def Position.shift (start : Position) (deltas : List Position) : Position :=
  deltas.foldl (fun position delta => ⟨position.x + delta.x, position.y + delta.y⟩) start

theorem Position.shift_append (start : Position) (ds es : List Position) :
    start.shift (ds ++ es) = (start.shift ds).shift es :=
  List.foldl_append

/-- The moves a connection sent in a history. -/
def moves (connection : ConnectionKey) (es : List WorldEvent) : List Position :=
  es.filterMap fun
    | .apply c (.move delta) => if c = connection then some delta else none
    | _ => none

theorem moves_append (c : ConnectionKey) (es fs : List WorldEvent) :
    moves c (es ++ fs) = moves c es ++ moves c fs :=
  List.filterMap_append

namespace Session

def moved (session : Session) (delta : Position) : Session :=
  { session with position := ⟨session.position.x + delta.x, session.position.y + delta.y⟩ }

/-- The player's record in the world. -/
def state (session : Session) : PlayerState := ⟨session.player, session.position⟩

def shift (session : Session) (deltas : List Position) : Session :=
  { session with position := session.position.shift deltas }

@[simp] theorem shift_nil (s : Session) : s.shift [] = s := by
  simp [shift, Position.shift]

theorem shift_singleton (s : Session) (delta : Position) : s.shift [delta] = s.moved delta := by
  simp [shift, moved, Position.shift]

theorem shift_append (s : Session) (ds es : List Position) :
    s.shift (ds ++ es) = (s.shift ds).shift es := by
  simp [shift, Position.shift_append]

@[simp] theorem connection_shift (s : Session) (deltas : List Position) :
    (s.shift deltas).connection = s.connection := rfl

@[simp] theorem connection_moved (s : Session) (delta : Position) :
    (s.moved delta).connection = s.connection := rfl

@[simp] theorem player_moved (s : Session) (delta : Position) :
    (s.moved delta).player = s.player := rfl

@[simp] theorem joined_moved (s : Session) (delta : Position) :
    (s.moved delta).joined = s.joined := rfl

end Session

/-- The sessions that are open, and how many were ever opened by how many calls. -/
structure Sessions where
  current : List Session := []
  admitted : Nat := 0
  calls : Nat := 0
  deriving DecidableEq, Repr

namespace Sessions

def session (sessions : Sessions) (connection : ConnectionKey) : Option Session :=
  sessions.current.find? (·.connection = connection)

def connect (sessions : Sessions) (connection : ConnectionKey) :
    Except Exception PlayerId × Sessions :=
  match sessions.session connection with
  | some session => (.ok session.player, sessions)
  | none =>
    if sessions.admitted = 254 then
      (.error WorldState.tooManyPlayers, sessions)
    else
      let player := UInt8.ofNat (sessions.admitted + 1)
      (.ok player,
        { sessions with
          current := sessions.current ++ [{ connection, player, joined := sessions.calls }]
          admitted := sessions.admitted + 1 })

def disconnect (sessions : Sessions) (connection : ConnectionKey) : Sessions :=
  { sessions with current := sessions.current.filter (·.connection ≠ connection) }

def apply (sessions : Sessions) (connection : ConnectionKey) : WorldAction → Sessions
  | .move delta =>
    { sessions with
      current := sessions.current.map fun session =>
        if session.connection = connection then session.moved delta else session }
  | .interact => sessions
  | .wait => sessions

def count (sessions : Sessions) : Sessions := { sessions with calls := sessions.calls + 1 }

def step : Machine Sessions WorldEvent
  | sessions, .connect c => some (sessions.connect c).2.count
  | sessions, .disconnect c => some (sessions.disconnect c).count
  | sessions, .apply c action => some (sessions.apply c action).count

/-- The sessions of a world with this map, first come first. -/
def snapshotJson (sessions : Sessions) (map : TileMap) : String :=
  (Json.ofPairs
    [("world", .string map.name),
      ("map", .ofPairs [("width", .number map.width), ("height", .number map.height)]),
      ("players", .array (sessions.current.map fun session =>
        WorldState.playerJson session.state))]).dump

theorem session_eq_some {sessions : Sessions} {c : ConnectionKey} {s : Session}
    (h : sessions.session c = some s) : s ∈ sessions.current ∧ s.connection = c :=
  ⟨List.mem_of_find?_eq_some h, by simpa using List.find?_some h⟩

theorem session_eq_none {sessions : Sessions} {c : ConnectionKey} :
    sessions.session c = none ↔ ∀ s ∈ sessions.current, s.connection ≠ c := by
  simp [session]

/-- Everything a call of `connect` can do. -/
theorem connect_cases (sessions : Sessions) (c : ConnectionKey) :
    (∃ s ∈ sessions.current, s.connection = c ∧ sessions.connect c = (.ok s.player, sessions)) ∨
      ((∀ s ∈ sessions.current, s.connection ≠ c) ∧ sessions.admitted = 254 ∧
        sessions.connect c = (.error WorldState.tooManyPlayers, sessions)) ∨
      ((∀ s ∈ sessions.current, s.connection ≠ c) ∧ sessions.admitted ≠ 254 ∧
        sessions.connect c = (.ok (UInt8.ofNat (sessions.admitted + 1)),
          { sessions with
            current := sessions.current ++
              [⟨c, UInt8.ofNat (sessions.admitted + 1), {}, sessions.calls⟩]
            admitted := sessions.admitted + 1 })) := by
  simp only [connect]
  cases hs : sessions.session c with
  | some s =>
    obtain ⟨hmem, hc⟩ := session_eq_some hs
    exact .inl ⟨s, hmem, hc, rfl⟩
  | none =>
    have hnone := session_eq_none.mp hs
    by_cases hfull : sessions.admitted = 254
    · exact .inr (.inl ⟨hnone, hfull, if_pos hfull⟩)
    · exact .inr (.inr ⟨hnone, hfull, if_neg hfull⟩)

theorem mem_disconnect {sessions : Sessions} {c : ConnectionKey} {s : Session} :
    s ∈ (sessions.disconnect c).current ↔ s ∈ sessions.current ∧ s.connection ≠ c := by
  simp [disconnect]

theorem mem_apply_move {sessions : Sessions} {c : ConnectionKey} {delta : Position} {s : Session} :
    s ∈ (sessions.apply c (.move delta)).current ↔
      ∃ old ∈ sessions.current, (if old.connection = c then old.moved delta else old) = s := by
  simp [apply]

theorem disconnect_of_unbound {sessions : Sessions} {c : ConnectionKey}
    (h : ∀ s ∈ sessions.current, s.connection ≠ c) : sessions.disconnect c = sessions := by
  have hall : sessions.current.filter (·.connection ≠ c) = sessions.current :=
    List.filter_eq_self.mpr fun s hs => decide_eq_true (h s hs)
  rw [disconnect, hall]

theorem apply_move_of_unbound {sessions : Sessions} {c : ConnectionKey}
    (h : ∀ s ∈ sessions.current, s.connection ≠ c) (delta : Position) :
    sessions.apply c (.move delta) = sessions := by
  have hall : (sessions.current.map fun s => if s.connection = c then s.moved delta else s) =
      sessions.current := by
    rw [List.map_congr_left fun s hs => if_neg (h s hs), List.map_id']
  rw [apply, hall]

/-- The session a successful newcomer gets. -/
def opened (sessions : Sessions) (connection : ConnectionKey) : Session :=
  ⟨connection, UInt8.ofNat (sessions.admitted + 1), {}, sessions.calls⟩

/-- May this connection open a session now? -/
def Opens (sessions : Sessions) (connection : ConnectionKey) : Prop :=
  (∀ s ∈ sessions.current, s.connection ≠ connection) ∧ sessions.admitted ≠ 254

/-- The sessions after a call are those it did not end, moved as it says, and the one it
may have opened. -/
theorem mem_step {sessions t : Sessions} {e : WorldEvent} (hstep : step sessions e = some t)
    {s : Session} :
    s ∈ t.current ↔
      (∃ old ∈ sessions.current, e ≠ .disconnect old.connection ∧
        s = old.shift (moves old.connection [e])) ∨
      ∃ c, e = .connect c ∧ sessions.Opens c ∧ s = sessions.opened c := by
  cases e with
  | connect c =>
    obtain rfl := Option.some.inj hstep
    have hmoves : ∀ d, moves d [.connect c] = [] := fun _ => rfl
    obtain ⟨x, hx, hc, h⟩ | ⟨-, hfull, h⟩ | ⟨hnew, hroom, h⟩ := sessions.connect_cases c
    · have hopens : ¬ sessions.Opens c := fun hopens => hopens.1 x hx hc
      simp [h, count, hmoves, hopens]
    · have hopens : ¬ sessions.Opens c := fun hopens => hopens.2 hfull
      simp [h, count, hmoves, hopens]
    · have hopens : sessions.Opens c := ⟨hnew, hroom⟩
      simp [h, count, hmoves, hopens, opened]
  | disconnect c =>
    obtain rfl := Option.some.inj hstep
    have hmoves : ∀ d, moves d [.disconnect c] = [] := fun _ => rfl
    simp only [count, mem_disconnect, hmoves, Session.shift_nil, ne_eq,
      WorldEvent.disconnect.injEq, reduceCtorEq, false_and, exists_false, or_false]
    constructor
    · rintro ⟨hs, hne⟩
      exact ⟨s, hs, fun h => hne h.symm, rfl⟩
    · rintro ⟨old, hold, hne, rfl⟩
      exact ⟨hold, fun h => hne h.symm⟩
  | apply c action =>
    obtain rfl := Option.some.inj hstep
    cases action with
    | interact =>
      have hmoves : ∀ d, moves d [.apply c .interact] = [] := fun _ => rfl
      simp [count, apply, hmoves]
    | wait =>
      have hmoves : ∀ d, moves d [.apply c .wait] = [] := fun _ => rfl
      simp [count, apply, hmoves]
    | move delta =>
      have hshift : ∀ old : Session, (if old.connection = c then old.moved delta else old) =
          old.shift (moves old.connection [.apply c (.move delta)]) := by
        intro old
        by_cases hc : old.connection = c
        · rw [if_pos hc, ← Session.shift_singleton, hc]
          simp [moves]
        · have hmoves : moves old.connection [.apply c (.move delta)] = [] := by
            simp [moves, Ne.symm hc]
          rw [if_neg hc, hmoves, Session.shift_nil]
      simp only [count, mem_apply_move, hshift, ne_eq, reduceCtorEq, not_false_eq_true, true_and,
        false_and, exists_false, or_false]
      simp only [eq_comm]

theorem calls_step {sessions t : Sessions} {e : WorldEvent} (hstep : step sessions e = some t) :
    t.calls = sessions.calls + 1 := by
  cases e with
  | connect c =>
    obtain rfl := Option.some.inj hstep
    obtain ⟨_, -, -, h⟩ | ⟨-, -, h⟩ | ⟨-, -, h⟩ := sessions.connect_cases c <;> simp [h, count]
  | disconnect c => exact Option.some.inj hstep ▸ rfl
  | apply c action =>
    obtain rfl := Option.some.inj hstep
    cases action <;> rfl

theorem calls_exec {sessions t : Sessions} {es : List WorldEvent}
    (run : step.exec sessions es = some t) : t.calls = sessions.calls + es.length := by
  induction es generalizing sessions with
  | nil =>
    obtain rfl := Option.some.inj run
    rfl
  | cons e es ih =>
    obtain ⟨u, hstep, hrest⟩ := Machine.exec_cons_eq_some.mp run
    rw [ih hrest, calls_step hstep, List.length_cons]
    omega

/-- A session lasts until its connection disconnects, and only its own moves move it. -/
theorem session_kept {sessions t : Sessions} {es : List WorldEvent}
    (run : step.exec sessions es = some t) {s : Session} (hs : s ∈ sessions.current)
    (hstay : .disconnect s.connection ∉ es) : s.shift (moves s.connection es) ∈ t.current := by
  induction es generalizing sessions s with
  | nil =>
    obtain rfl := Option.some.inj run
    rwa [show moves s.connection [] = [] from rfl, Session.shift_nil]
  | cons e es ih =>
    obtain ⟨u, hstep, hrest⟩ := Machine.exec_cons_eq_some.mp run
    rw [List.mem_cons, not_or] at hstay
    have hnext : s.shift (moves s.connection [e]) ∈ u.current :=
      (mem_step hstep).mpr (.inl ⟨s, hs, Ne.symm hstay.1, rfl⟩)
    rw [← List.singleton_append, moves_append, Session.shift_append]
    exact ih hrest hnext hstay.2

/-- The history has a `connect` that opened the session, and the connection has only
moved since. -/
def Origin (es : List WorldEvent) (s : Session) : Prop :=
  ∃ before after u, es = before ++ .connect s.connection :: after ∧
    step.exec {} before = some u ∧ u.Opens s.connection ∧ .disconnect s.connection ∉ after ∧
    s = (u.opened s.connection).shift (moves s.connection after)

theorem session_origin {t : Sessions} {es : List WorldEvent} (run : step.exec {} es = some t) :
    ∀ s ∈ t.current, Origin es s := by
  apply Machine.exec_induction (motive := fun es t => ∀ s ∈ t.current, Origin es s) _ _ run
  · intro s hs
    cases hs
  · intro es u e t hrun ih hstep s hs
    obtain ⟨old, hold, hne, rfl⟩ | ⟨c, rfl, hopens, rfl⟩ := (mem_step hstep).mp hs
    · obtain ⟨before, after, v, hes, hv, hopens, hstay, hshift⟩ := ih old hold
      refine ⟨before, after ++ [e], v, by simp [hes], hv, hopens, ?_, ?_⟩
      · rw [List.mem_append, List.mem_singleton, not_or]
        exact ⟨hstay, Ne.symm hne⟩
      · rw [Session.connection_shift, moves_append, Session.shift_append, ← hshift]
    · exact ⟨es, [], u, rfl, hrun, hopens, by simp, (Session.shift_nil _).symm⟩

end Sessions

namespace WorldService

/-- The service holds the players of the table, each under its own connection. -/
structure Refines (service : WorldService) (sessions : Sessions) : Prop where
  bound : ∀ c p, service.playerFor c = some p ↔
    ∃ s ∈ sessions.current, s.connection = c ∧ s.player = p
  players : ∀ (p : PlayerId) player, service.state.players[p]? = some player ↔
    ∃ s ∈ sessions.current, s.player = p ∧ s.state = player
  ordered : sessions.current.Pairwise fun a b => a.player < b.player ∧ a.joined < b.joined
  below : ∀ s ∈ sessions.current,
    s.player < service.state.nextPlayerId ∧ s.joined < sessions.calls
  counter : service.state.nextPlayerId.toNat = sessions.admitted + 1
  spawn : service.state.spawnPosition = {}

theorem refines_ofMap (map : TileMap) : (ofState (.ofMap map)).Refines {} where
  bound c p := by simp [playerFor, ofState, PlayerConnectionRegistry.playerFor_empty]
  players p player := by simp [ofState, WorldState.ofMap]
  ordered := List.Pairwise.nil
  below s h := by simp at h
  counter := rfl
  spawn := rfl

namespace Refines

variable {service : WorldService} {sessions : Sessions}

theorem eq_of_player (refines : service.Refines sessions) {s s' : Session}
    (hs : s ∈ sessions.current) (hs' : s' ∈ sessions.current) (h : s.player = s'.player) :
    s = s' := by
  have hnodup : (sessions.current.map Session.player).Nodup := by
    apply List.Pairwise.map Session.player _ refines.ordered
    intro a b hab heq
    exact absurd (heq ▸ hab.1) (UInt8.lt_irrefl _)
  exact List.inj_on_of_nodup_map hnodup hs hs' h

theorem eq_of_connection (refines : service.Refines sessions) {s s' : Session}
    (hs : s ∈ sessions.current) (hs' : s' ∈ sessions.current)
    (h : s.connection = s'.connection) : s = s' := by
  have hfor := (refines.bound s.connection s.player).mpr ⟨s, hs, rfl, rfl⟩
  have hfor' := (refines.bound s.connection s'.player).mpr ⟨s', hs', h.symm, rfl⟩
  exact refines.eq_of_player hs hs' (Option.some.inj (hfor.symm.trans hfor'))

theorem playerFor_eq_none (refines : service.Refines sessions) {c : ConnectionKey} :
    service.playerFor c = none ↔ ∀ s ∈ sessions.current, s.connection ≠ c := by
  rw [Option.eq_none_iff_forall_not_mem]
  constructor
  · intro h s hs hc
    exact h s.player ((refines.bound c s.player).mpr ⟨s, hs, hc, rfl⟩)
  · intro h p hp
    obtain ⟨s, hs, hc, -⟩ := (refines.bound c p).mp hp
    exact h s hs hc

theorem full_iff (refines : service.Refines sessions) :
    service.state.nextPlayerId = 255 ↔ sessions.admitted = 254 := by
  rw [← UInt8.toNat_inj, refines.counter]
  show _ + 1 = 255 ↔ _
  omega

theorem ofNat_admitted (refines : service.Refines sessions) :
    UInt8.ofNat (sessions.admitted + 1) = service.state.nextPlayerId := by
  rw [← refines.counter, UInt8.ofNat_toNat]

/-- A newcomer gets the next number and a place at the end of the table. -/
theorem join (refines : service.Refines sessions) (room : service.state.nextPlayerId ≠ 255)
    {c : ConnectionKey} (unbound : service.playerFor c = none) :
    (service.join c).Refines
      { current := sessions.current ++ [⟨c, service.state.nextPlayerId, {}, sessions.calls⟩]
        admitted := sessions.admitted + 1
        calls := sessions.calls + 1 } := by
  have hnew := refines.playerFor_eq_none.mp unbound
  have hnext : (service.join c).state.nextPlayerId.toNat = sessions.admitted + 1 + 1 := by
    rw [nextPlayerId_join room, PlayerId.toNat_succ room, refines.counter]
  constructor
  case bound =>
    intro d p
    rw [playerFor_join]
    simp only [List.mem_append, List.mem_singleton, or_and_right, exists_or, exists_eq_left]
    split
    next hcd =>
      subst hcd
      constructor
      · intro hp
        exact .inr ⟨rfl, Option.some.inj hp⟩
      · rintro (⟨s, hs, hc, -⟩ | ⟨-, hp⟩)
        · exact absurd hc (hnew s hs)
        · exact congrArg some hp
    next hcd => simp [refines.bound, hcd]
  case players =>
    intro p player
    rw [players_join room, Std.TreeMap.getElem?_insertIfNew]
    have hfree : service.state.nextPlayerId ∉ service.state.players := by
      intro h
      obtain ⟨old, hold⟩ := Option.isSome_iff_exists.mp (Std.TreeMap.isSome_getElem?_iff_mem.mpr h)
      obtain ⟨s, hs, hp, -⟩ := (refines.players _ _).mp hold
      exact absurd (hp ▸ (refines.below s hs).1) (UInt8.lt_irrefl _)
    simp only [List.mem_append, List.mem_singleton, or_and_right, exists_or, exists_eq_left]
    split
    next heq =>
      have hp : service.state.nextPlayerId = p := by simpa using heq.1
      subst hp
      constructor
      · intro h
        rw [refines.spawn] at h
        exact .inr ⟨rfl, Option.some.inj h⟩
      · rintro (⟨s, hs, hp, -⟩ | ⟨-, hp⟩)
        · exact absurd (hp ▸ (refines.below s hs).1) (UInt8.lt_irrefl _)
        · rw [refines.spawn]
          exact congrArg some hp
    next hne =>
      have hp : service.state.nextPlayerId ≠ p := by
        rintro rfl
        exact hne ⟨by simp, hfree⟩
      simp [refines.players, hp]
  case ordered =>
    rw [List.pairwise_append]
    refine ⟨refines.ordered, List.pairwise_singleton _ _, ?_⟩
    intro s hs t ht
    obtain rfl := List.mem_singleton.mp ht
    exact refines.below s hs
  case below =>
    intro s hs
    rw [UInt8.lt_iff_toNat_lt, hnext]
    have hcounter := refines.counter
    obtain hold | hlast := List.mem_append.mp hs
    · have := refines.below s hold
      rw [UInt8.lt_iff_toNat_lt] at this
      exact ⟨by omega, by simp only; omega⟩
    · obtain rfl := List.mem_singleton.mp hlast
      exact ⟨by simp only; omega, by simp⟩
  case counter => exact hnext
  case spawn => simp [WorldService.join, WorldState.addPlayer, room, refines.spawn]

/-- Counting a call that changes nothing else. -/
theorem count (refines : service.Refines sessions) :
    service.Refines sessions.count where
  bound := refines.bound
  players := refines.players
  ordered := refines.ordered
  below s hs := ⟨(refines.below s hs).1, Nat.lt_succ_of_lt (refines.below s hs).2⟩
  counter := refines.counter
  spawn := refines.spawn

/-- `connect` answers as the table does and keeps the relation. -/
theorem connect (refines : service.Refines sessions) (c : ConnectionKey) :
    (service.connect c).1 = (sessions.connect c).1 ∧
      (service.connect c).2.Refines (sessions.connect c).2.count := by
  obtain ⟨s, hs, hc, htable⟩ | ⟨hnew, hfull, htable⟩ | ⟨hnew, hroom, htable⟩ :=
    sessions.connect_cases c
  · have hfor := (refines.bound c s.player).mpr ⟨s, hs, hc, rfl⟩
    obtain ⟨p, hp, h⟩ | ⟨hp, -, -⟩ | ⟨hp, -, -⟩ := service.connect_cases c
    · rw [htable, h]
      exact ⟨congrArg _ (Option.some.inj (hp.symm.trans hfor)), refines.count⟩
    · rw [hp] at hfor
      cases hfor
    · rw [hp] at hfor
      cases hfor
  · have hunbound := refines.playerFor_eq_none.mpr hnew
    obtain ⟨p, hp, -⟩ | ⟨-, -, h⟩ | ⟨-, hroom, -⟩ := service.connect_cases c
    · rw [hp] at hunbound
      cases hunbound
    · rw [htable, h]
      exact ⟨rfl, refines.count⟩
    · exact absurd (refines.full_iff.mpr hfull) hroom
  · have hunbound := refines.playerFor_eq_none.mpr hnew
    obtain ⟨p, hp, -⟩ | ⟨-, hlast, -⟩ | ⟨-, hnotlast, h⟩ := service.connect_cases c
    · rw [hp] at hunbound
      cases hunbound
    · exact absurd (refines.full_iff.mp hlast) hroom
    · rw [htable, h, refines.ofNat_admitted]
      exact ⟨rfl, refines.join hnotlast hunbound⟩

/-- The player that leaves is the one of the session that ends. -/
theorem disconnect_bound (refines : service.Refines sessions) {gone : Session}
    (hgone : gone ∈ sessions.current) :
    (service.disconnect gone.connection).Refines (sessions.disconnect gone.connection) := by
  have hbound : service.playerFor gone.connection = some gone.player :=
    (refines.bound _ _).mpr ⟨gone, hgone, rfl, rfl⟩
  constructor
  case bound =>
    intro d p
    rw [playerFor_disconnect]
    simp only [Sessions.mem_disconnect, and_assoc]
    split
    next hcd =>
      constructor
      · intro h
        cases h
      · rintro ⟨s, -, hne, hd, -⟩
        exact absurd (hd.trans hcd.symm) hne
    next hcd =>
      rw [refines.bound]
      constructor
      · rintro ⟨s, hs, hd, hp⟩
        exact ⟨s, hs, fun hc => hcd (hc.symm.trans hd), hd, hp⟩
      · rintro ⟨s, hs, -, hd, hp⟩
        exact ⟨s, hs, hd, hp⟩
  case players =>
    intro p player
    simp only [Sessions.mem_disconnect, and_assoc]
    rw [players_disconnect hbound, Std.TreeMap.getElem?_erase]
    split
    next heq =>
      have hp : gone.player = p := by simpa using heq
      constructor
      · intro h
        cases h
      · rintro ⟨s, hs, hne, hsp, -⟩
        have hsame := refines.eq_of_player hs hgone (hsp.trans hp.symm)
        exact absurd (congrArg Session.connection hsame) hne
    next hne =>
      rw [refines.players]
      constructor
      · rintro ⟨s, hs, hsp, h⟩
        refine ⟨s, hs, fun hsc => hne ?_, hsp, h⟩
        have hsame := refines.eq_of_connection hs hgone hsc
        simp [← hsame, hsp]
      · rintro ⟨s, hs, -, h⟩
        exact ⟨s, hs, h⟩
  case ordered => exact refines.ordered.filter _
  case below =>
    intro s hs
    rw [nextPlayerId_disconnect]
    exact refines.below s (Sessions.mem_disconnect.mp hs).1
  case counter =>
    rw [nextPlayerId_disconnect]
    exact refines.counter
  case spawn =>
    rw [← refines.spawn, WorldService.disconnect,
      show service.connections.playerFor gone.connection = some gone.player from hbound]
    rfl

theorem disconnect (refines : service.Refines sessions) (c : ConnectionKey) :
    (service.disconnect c).Refines (sessions.disconnect c) := by
  cases hc : service.playerFor c with
  | none =>
    rw [disconnect_of_unbound hc,
      Sessions.disconnect_of_unbound (refines.playerFor_eq_none.mp hc)]
    exact refines
  | some q =>
    obtain ⟨gone, hgone, rfl, -⟩ := (refines.bound c q).mp hc
    exact refines.disconnect_bound hgone

/-- The player that moves is the one of the session that is moved. -/
theorem move_bound (refines : service.Refines sessions) {mover : Session}
    (hmover : mover ∈ sessions.current) (delta : Position) :
    (service.apply mover.connection (.move delta)).Refines
      (sessions.apply mover.connection (.move delta)) := by
  have hbound : service.playerFor mover.connection = some mover.player :=
    (refines.bound _ _).mpr ⟨mover, hmover, rfl, rfl⟩
  have hold := (refines.players mover.player mover.state).mpr ⟨mover, hmover, rfl, rfl⟩
  rw [apply_move_of_bound hbound hold]
  constructor
  case bound =>
    intro d p
    simp only [Sessions.mem_apply_move]
    refine (refines.bound d p).trans ?_
    constructor
    · rintro ⟨s, hs, hd, hp⟩
      refine ⟨_, ⟨s, hs, rfl⟩, ?_⟩
      split
      · exact ⟨hd, hp⟩
      · exact ⟨hd, hp⟩
    · rintro ⟨_, ⟨s, hs, rfl⟩, hd, hp⟩
      refine ⟨s, hs, ?_⟩
      split at hd
      · simp_all
      · simp_all
  case players =>
    intro p player
    simp only [Sessions.mem_apply_move, Std.TreeMap.getElem?_insert]
    split
    next heq =>
      have hp : mover.player = p := by simpa using heq
      constructor
      · intro h
        exact ⟨_, ⟨mover, hmover, if_pos rfl⟩, hp, Option.some.inj h⟩
      · rintro ⟨_, ⟨s, hs, rfl⟩, hsp, hstate⟩
        have hplayer : s.player = mover.player := by
          rw [hp, ← hsp]
          split <;> rfl
        rw [refines.eq_of_player hs hmover hplayer, if_pos rfl] at hstate
        exact congrArg some hstate
    next hne =>
      have hp : mover.player ≠ p := by simpa using hne
      rw [refines.players]
      constructor
      · rintro ⟨s, hs, hsp, hstate⟩
        refine ⟨s, ⟨s, hs, if_neg ?_⟩, hsp, hstate⟩
        intro hsc
        exact hp (refines.eq_of_connection hs hmover hsc ▸ hsp)
      · rintro ⟨_, ⟨s, hs, rfl⟩, hsp, hstate⟩
        have hsc : s.connection ≠ mover.connection := by
          intro hsc
          rw [if_pos hsc] at hsp
          exact hp (refines.eq_of_connection hs hmover hsc ▸ hsp)
        rw [if_neg hsc] at hsp hstate
        exact ⟨s, hs, hsp, hstate⟩
  case ordered =>
    show (sessions.current.map _).Pairwise _
    apply List.Pairwise.map _ _ refines.ordered
    intro a b hab
    split <;> split <;> exact hab
  case below =>
    intro s hs
    obtain ⟨old, hold, rfl⟩ := Sessions.mem_apply_move.mp hs
    split
    · exact refines.below old hold
    · exact refines.below old hold
  case counter => exact refines.counter
  case spawn => exact refines.spawn

/-- A move shifts its own player, in the world as in the table. -/
theorem move (refines : service.Refines sessions) (c : ConnectionKey) (delta : Position) :
    (service.apply c (.move delta)).Refines (sessions.apply c (.move delta)) := by
  cases hc : service.playerFor c with
  | none =>
    rw [apply_of_unbound hc,
      Sessions.apply_move_of_unbound (refines.playerFor_eq_none.mp hc)]
    exact refines
  | some q =>
    obtain ⟨mover, hmover, rfl, -⟩ := (refines.bound c q).mp hc
    exact refines.move_bound hmover delta

theorem apply (refines : service.Refines sessions) (c : ConnectionKey) (action : WorldAction) :
    (service.apply c action).Refines (sessions.apply c action) := by
  have hidle : ∀ idle, idle = .interact ∨ idle = .wait → service.apply c idle = service := by
    rintro idle (rfl | rfl)
    · simp only [WorldService.apply]
      cases service.connections.playerFor c <;> rfl
    · simp only [WorldService.apply]
      cases service.connections.playerFor c <;> rfl
  cases action with
  | move delta => exact refines.move c delta
  | interact =>
    rw [hidle _ (.inl rfl)]
    exact refines
  | wait =>
    rw [hidle _ (.inr rfl)]
    exact refines

theorem step (refines : service.Refines sessions) {e : WorldEvent} {t : WorldService}
    (hstep : WorldService.step service e = some t) :
    ∃ after, Sessions.step sessions e = some after ∧ t.Refines after := by
  cases e with
  | connect c => exact ⟨_, rfl, Option.some.inj hstep ▸ (refines.connect c).2⟩
  | disconnect c => exact ⟨_, rfl, Option.some.inj hstep ▸ (refines.disconnect c).count⟩
  | apply c action => exact ⟨_, rfl, Option.some.inj hstep ▸ (refines.apply c action).count⟩

theorem exec (refines : service.Refines sessions) {es : List WorldEvent} {t : WorldService}
    (run : WorldService.step.exec service es = some t) :
    ∃ after, Sessions.step.exec sessions es = some after ∧ t.Refines after := by
  induction es generalizing service sessions with
  | nil =>
    obtain rfl := Option.some.inj run
    exact ⟨sessions, rfl, refines⟩
  | cons e es ih =>
    obtain ⟨u, hstep, hrest⟩ := Machine.exec_cons_eq_some.mp run
    obtain ⟨middle, htable, hmiddle⟩ := refines.step hstep
    obtain ⟨after, hafter, hrefines⟩ := ih hmiddle hrest
    exact ⟨after, Machine.exec_cons_eq_some.mpr ⟨middle, htable, hafter⟩, hrefines⟩

end Refines

theorem map_step {service t : WorldService} {e : WorldEvent} (hstep : step service e = some t) :
    t.state.map = service.state.map := by
  cases e with
  | connect c =>
    obtain rfl := Option.some.inj hstep
    obtain ⟨p, -, h⟩ | ⟨-, -, h⟩ | ⟨-, hroom, h⟩ := connect_cases service c
    · rw [h]
    · rw [h]
    · rw [h]
      simp [join, WorldState.addPlayer, hroom]
  | disconnect c =>
    obtain rfl := Option.some.inj hstep
    simp only [disconnect]
    cases service.connections.playerFor c <;> rfl
  | apply c action =>
    obtain rfl := Option.some.inj hstep
    simp only [apply]
    cases service.connections.playerFor c with
    | none => rfl
    | some p =>
      cases action with
      | interact => rfl
      | wait => rfl
      | move delta =>
        simp only [applyToPlayer, WorldState.movePlayer]
        cases service.state.players[p]? <;> rfl

theorem map_exec {service t : WorldService} {es : List WorldEvent}
    (run : step.exec service es = some t) : t.state.map = service.state.map := by
  induction es generalizing service with
  | nil => rw [Option.some.inj run]
  | cons e es ih =>
    obtain ⟨u, hstep, hrest⟩ := Machine.exec_cons_eq_some.mp run
    rw [ih hrest, map_step hstep]

end WorldService

end Stalker2D.Game
