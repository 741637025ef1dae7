import Stalker2D.Server.Game.Sessions

/-!
# Coordinates in 32 bits

`WorldState::movePlayer` adds with `int`, which is exact as long as the sum is an `int`
again. Nothing limits a delta or a coordinate, so a player can be walked out of the range.
`intStep` is the service with the addition of a two's complement machine; as far as no sum
leaves the range it is `step`, the service with exact sums.
-/

namespace Stalker2D.Game

/-- The values of a 32-bit `int`. -/
def IsInt (n : Int) : Prop := -2 ^ 31 ≤ n ∧ n < 2 ^ 31

instance (n : Int) : Decidable (IsInt n) := inferInstanceAs (Decidable (_ ∧ _))

/-- What 32 bits keep of a sum. -/
def wrap (n : Int) : Int := (n + 2 ^ 31) % 2 ^ 32 - 2 ^ 31

theorem isInt_wrap (n : Int) : IsInt (wrap n) := by
  simp only [IsInt, wrap]
  omega

theorem wrap_of_isInt {n : Int} (h : IsInt n) : wrap n = n := by
  simp only [IsInt, wrap] at *
  omega

namespace Position

def IsInt (position : Position) : Prop := Game.IsInt position.x ∧ Game.IsInt position.y

instance (position : Position) : Decidable position.IsInt := inferInstanceAs (Decidable (_ ∧ _))

def wrap (position : Position) : Position := ⟨Game.wrap position.x, Game.wrap position.y⟩

/-- The two sums of `movePlayer`. -/
def add (position delta : Position) : Position := ⟨position.x + delta.x, position.y + delta.y⟩

theorem isInt_wrap (position : Position) : position.wrap.IsInt :=
  ⟨Game.isInt_wrap position.x, Game.isInt_wrap position.y⟩

theorem wrap_of_isInt {position : Position} (h : position.IsInt) : position.wrap = position := by
  rw [wrap, Game.wrap_of_isInt h.1, Game.wrap_of_isInt h.2]

theorem shift_concat (start : Position) (deltas : List Position) (delta : Position) :
    start.shift (deltas ++ [delta]) = (start.shift deltas).add delta := by
  rw [shift_append]
  rfl

end Position

/-- `movePlayer` with the sums of the machine. -/
def WorldState.movePlayerInt (world : WorldState) (id : PlayerId) (delta : Position) :
    Bool × WorldState :=
  match world.players[id]? with
  | none => (false, world)
  | some playerState =>
    let position := (playerState.position.add delta).wrap
    (true, { world with players := world.players.insert id { playerState with position } })

namespace WorldService

def applyToPlayerInt (service : WorldService) (player : PlayerId) : WorldAction → WorldService
  | .move delta => { service with state := (service.state.movePlayerInt player delta).2 }
  | .interact => service
  | .wait => service

def applyInt (service : WorldService) (connection : ConnectionKey) (action : WorldAction) :
    WorldService :=
  match service.connections.playerFor connection with
  | none => service
  | some player => service.applyToPlayerInt player action

def intStep : Machine WorldService WorldEvent
  | service, .connect c => some (service.connect c).2
  | service, .disconnect c => some (service.disconnect c)
  | service, .apply c action => some (service.applyInt c action)

/-- The sums an event makes `movePlayer` form are values of `int`. -/
def InRange (service : WorldService) : WorldEvent → Prop
  | .apply c (.move delta) =>
    ∀ p ∈ service.playerFor c, ∀ player ∈ service.state.players[p]?,
      (player.position.add delta).IsInt
  | _ => True

instance (service : WorldService) : ∀ e, Decidable (service.InRange e)
  | .apply c (.move delta) => inferInstanceAs (Decidable (∀ p ∈ service.playerFor c,
      ∀ player ∈ service.state.players[p]?, (player.position.add delta).IsInt))
  | .apply _ .interact | .apply _ .wait | .connect _ | .disconnect _ => isTrue trivial

/-- Without an overflow the machine adds exactly. -/
theorem InRange.intStep_eq {service : WorldService} {e : WorldEvent} (h : service.InRange e) :
    intStep service e = step service e := by
  cases e with
  | connect c => rfl
  | disconnect c => rfl
  | apply c action =>
    simp only [intStep, step, applyInt, WorldService.apply]
    cases hp : service.connections.playerFor c with
    | none => rfl
    | some p =>
      cases action with
      | interact => rfl
      | wait => rfl
      | move delta =>
        simp only [applyToPlayerInt, applyToPlayer, WorldState.movePlayerInt, WorldState.movePlayer]
        cases hplayer : service.state.players[p]? with
        | none => rfl
        | some player =>
          have hsum := h p hp player hplayer
          simp only [Position.wrap_of_isInt hsum]
          rfl

theorem exists_exec (service : WorldService) (es : List WorldEvent) :
    ∃ t, step.exec service es = some t := by
  induction es generalizing service with
  | nil => exact ⟨service, rfl⟩
  | cons e es ih =>
    cases e with
    | connect c => exact ih _
    | disconnect c => exact ih _
    | apply c action => exact ih _

/-- The moves of the session a connection opens stay in the range, one after another. -/
def SumsFit (es : List WorldEvent) : Prop :=
  ∀ before c middle delta after u,
    es = before ++ .connect c :: (middle ++ .apply c (.move delta) :: after) →
    Sessions.step.exec {} before = some u → u.Opens c → .disconnect c ∉ middle →
    (Position.shift {} (moves c middle ++ [delta])).IsInt

/-- No sum of the history leaves the range, and every player stands where the moves of its
connection, since that connected, have brought it. -/
structure ExactMoves (map : TileMap) (es : List WorldEvent) : Prop where
  additions : intStep.Along (fun service e _ => service.InRange e) (ofState (.ofMap map)) es
  coordinates : ∀ before after service, es = before ++ after →
    intStep.exec (ofState (.ofMap map)) before = some service →
    ∀ c p, service.playerFor c = some p → ∃ earlier later u,
      before = earlier ++ .connect c :: later ∧ Sessions.step.exec {} earlier = some u ∧
        u.Opens c ∧ .disconnect c ∉ later ∧
        service.state.player p = some ⟨p, Position.shift {} (moves c later)⟩

variable {map : TileMap} {es : List WorldEvent}

/-- What a reached service is about to add, in terms of its history. -/
theorem inRange_iff {service : WorldService} {sessions : Sessions}
    (refines : service.Refines sessions) {c : ConnectionKey} {delta : Position} :
    service.InRange (.apply c (.move delta)) ↔
      ∀ s ∈ sessions.current, s.connection = c → (s.position.add delta).IsInt := by
  constructor
  · intro h s hs hc
    have hp := (refines.bound c s.player).mpr ⟨s, hs, hc, rfl⟩
    have hplayer := (refines.players s.player s.state).mpr ⟨s, hs, rfl, rfl⟩
    exact h s.player hp s.state hplayer
  · intro h p hp player hplayer
    obtain ⟨s, hs, hc, rfl⟩ := (refines.bound c p).mp hp
    obtain ⟨s', hs', hsame, rfl⟩ := (refines.players s.player player).mp hplayer
    obtain rfl := refines.eq_of_player hs' hs hsame
    exact h s' hs hc

/-- Under the condition on the input no event overflows. -/
theorem SumsFit.inRange (fit : SumsFit es) {before after : List WorldEvent} {e : WorldEvent}
    (hes : es = before ++ e :: after) {service : WorldService}
    (run : step.exec (ofState (.ofMap map)) before = some service) : service.InRange e := by
  cases e with
  | connect c => trivial
  | disconnect c => trivial
  | apply c action =>
    cases action with
    | interact => trivial
    | wait => trivial
    | move delta =>
      obtain ⟨sessions, htable, refines⟩ := (refines_ofMap map).exec run
      rw [inRange_iff refines]
      rintro s hs rfl
      obtain ⟨earlier, later, u, rfl, hu, hopens, hstay, hshift⟩ :=
        Sessions.session_origin htable s hs
      have hposition : s.position = Position.shift {} (moves s.connection later) :=
        congrArg Session.position hshift
      rw [hposition, ← Position.shift_concat]
      apply fit earlier s.connection later delta after u _ hu hopens hstay
      rw [hes, List.append_assoc, List.cons_append]

/-- Up to any point of the history the machine has added exactly. -/
theorem SumsFit.exec_eq (fit : SumsFit es) {before after : List WorldEvent}
    (hes : es = before ++ after) :
    intStep.exec (ofState (.ofMap map)) before = step.exec (ofState (.ofMap map)) before := by
  induction before using List.reverseRecOn generalizing after with
  | nil => rw [Machine.exec_nil, Machine.exec_nil]
  | append_singleton before e ih =>
    rw [List.append_assoc, List.singleton_append] at hes
    obtain ⟨service, run⟩ := exists_exec (ofState (.ofMap map)) before
    rw [Machine.exec_append, Machine.exec_append, ih hes, run, Option.bind_some, Option.bind_some,
      Machine.exec_cons, Machine.exec_cons, (fit.inRange hes run).intStep_eq]
    simp only [Machine.exec_nil]

theorem SumsFit.coordinates {service : WorldService}
    (run : step.exec (ofState (.ofMap map)) es = some service) {c : ConnectionKey} {p : PlayerId}
    (hp : service.playerFor c = some p) : ∃ earlier later u,
      es = earlier ++ .connect c :: later ∧ Sessions.step.exec {} earlier = some u ∧
        u.Opens c ∧ .disconnect c ∉ later ∧
        service.state.player p = some ⟨p, Position.shift {} (moves c later)⟩ := by
  obtain ⟨sessions, htable, refines⟩ := (refines_ofMap map).exec run
  obtain ⟨s, hs, rfl, rfl⟩ := (refines.bound c p).mp hp
  obtain ⟨earlier, later, u, hes, hu, hopens, hstay, hshift⟩ :=
    Sessions.session_origin htable s hs
  refine ⟨earlier, later, u, hes, hu, hopens, hstay, ?_⟩
  have hposition : s.position = Position.shift {} (moves s.connection later) :=
    congrArg Session.position hshift
  rw [← hposition]
  exact (refines.players s.player s.state).mpr ⟨s, hs, rfl, rfl⟩

theorem exists_intStep (service : WorldService) (e : WorldEvent) :
    ∃ t, intStep service e = some t := by
  cases e with
  | connect c => exact ⟨_, rfl⟩
  | disconnect c => exact ⟨_, rfl⟩
  | apply c action => exact ⟨_, rfl⟩

/-- A machine that has not overflowed is where exact sums would have brought it. -/
theorem exec_eq_of_inRange {service : WorldService}
    (along : intStep.Along (fun service e _ => service.InRange e) service es) :
    intStep.exec service es = step.exec service es := by
  induction es generalizing service with
  | nil => rw [Machine.exec_nil, Machine.exec_nil]
  | cons e es ih =>
    obtain ⟨t, hstep⟩ := exists_intStep service e
    obtain ⟨hrange, hrest⟩ := Machine.along_cons.mp along t hstep
    rw [Machine.exec_cons, Machine.exec_cons, ← hrange.intStep_eq, hstep, Option.bind_some,
      Option.bind_some]
    exact ih hrest

/-- The sums of a session are sums the service forms, so where none overflows all fit. -/
theorem sumsFit_of_inRange
    (along : intStep.Along (fun service e _ => service.InRange e) (ofState (.ofMap map)) es) :
    SumsFit es := by
  intro before c middle delta after u hes hu hopens hstay
  have hsplit : es = (before ++ .connect c :: middle) ++ .apply c (.move delta) :: after := by
    rw [hes, List.append_assoc, List.cons_append]
  obtain ⟨service, run⟩ := exists_exec (ofState (.ofMap map)) (before ++ .connect c :: middle)
  have hint : intStep.exec (ofState (.ofMap map)) (before ++ .connect c :: middle) =
      some service := by
    rw [← run]
    exact exec_eq_of_inRange (Machine.along_append.mp (hsplit ▸ along)).1
  have hrange : service.InRange (.apply c (.move delta)) :=
    Machine.along_iff_forall.mp along _ _ _ _ _ hsplit hint rfl
  obtain ⟨sessions, htable, refines⟩ := (refines_ofMap map).exec run
  obtain ⟨u', hu', hrest⟩ := Machine.exec_append_eq_some.mp htable
  obtain rfl : u = u' := Option.some.inj (hu.symm.trans hu')
  obtain ⟨v, hconnect, hmiddle⟩ := Machine.exec_cons_eq_some.mp hrest
  -- the session opened by the connect is still there, where its moves have brought it
  have hopened : u.opened c ∈ v.current :=
    (Sessions.mem_step hconnect).mpr (.inr ⟨c, rfl, hopens, rfl⟩)
  have hkept := Sessions.session_kept hmiddle hopened hstay
  have hsum := (inRange_iff refines).mp hrange _ hkept rfl
  rw [Position.shift_concat]
  exact hsum

/-- Moves are added exactly in those histories in which the moves of every session, summed
up one after another, stay in the range of `int`. -/
theorem moves_exact_iff (map : TileMap) (es : List WorldEvent) :
    ExactMoves map es ↔ SumsFit es := by
  constructor
  · exact fun exact => sumsFit_of_inRange exact.additions
  · intro fit
    constructor
    case additions =>
      rw [Machine.along_iff_forall]
      intro before e after service t hes run _
      rw [fit.exec_eq hes] at run
      exact fit.inRange hes run
    case coordinates =>
      intro before after service hes run c p hp
      rw [fit.exec_eq hes] at run
      exact SumsFit.coordinates run hp

/-- One step east of the last column there is an overflow. -/
theorem moves_overflow :
    ¬ ExactMoves ⟨"bootstrap", 32, 18⟩
      [.connect 1, .apply 1 (.move ⟨2147483647, 0⟩), .apply 1 (.move ⟨1, 0⟩)] := by
  intro exact
  have hsum := sumsFit_of_inRange exact.additions [] 1 [.apply 1 (.move ⟨2147483647, 0⟩)] ⟨1, 0⟩ []
    {} rfl rfl ⟨by simp, by decide⟩ (by decide)
  exact absurd hsum (by decide)

/-- Whatever the machine adds, exact sums reach the same service with other deltas. -/
theorem intStep_eq_step (service : WorldService) (e : WorldEvent) :
    ∃ f, intStep service e = step service f := by
  cases e with
  | connect c => exact ⟨.connect c, rfl⟩
  | disconnect c => exact ⟨.disconnect c, rfl⟩
  | apply c action =>
    cases action with
    | interact => exact ⟨.apply c .interact, rfl⟩
    | wait => exact ⟨.apply c .wait, rfl⟩
    | move delta =>
      simp only [intStep, applyInt]
      cases hp : service.connections.playerFor c with
      | none => exact ⟨.apply c .wait, by simp only [step, WorldService.apply, hp]⟩
      | some p =>
        simp only [applyToPlayerInt, WorldState.movePlayerInt]
        cases hplayer : service.state.players[p]? with
        | none => exact ⟨.apply c .wait, by simp only [step, WorldService.apply, hp, applyToPlayer]⟩
        | some player =>
          -- the delta that leads straight to where the machine ends up
          let target := (player.position.add delta).wrap
          refine ⟨.apply c (.move ⟨target.x - player.position.x, target.y - player.position.y⟩), ?_⟩
          have hx : player.position.x + (target.x - player.position.x) = target.x := by omega
          have hy : player.position.y + (target.y - player.position.y) = target.y := by omega
          simp only [step, apply_move_of_bound hp hplayer, hx, hy, target]

theorem exists_exec_eq {service t : WorldService} (run : intStep.exec service es = some t) :
    ∃ fs, step.exec service fs = some t := by
  induction es generalizing service with
  | nil =>
    rw [Machine.exec_nil] at run
    exact ⟨[], run⟩
  | cons e es ih =>
    obtain ⟨u, hstep, hrest⟩ := Machine.exec_cons_eq_some.mp run
    obtain ⟨f, hf⟩ := intStep_eq_step service e
    obtain ⟨fs, hfs⟩ := ih hrest
    exact ⟨f :: fs, Machine.exec_cons_eq_some.mpr ⟨u, hf ▸ hstep, hfs⟩⟩

/-- Every coordinate is a value of `int`. -/
structure Bounded (service : WorldService) : Prop where
  spawn : service.state.spawnPosition.IsInt
  players : ∀ (p : PlayerId) player, service.state.players[p]? = some player →
    player.position.IsInt

theorem bounded_ofMap (map : TileMap) : (ofState (.ofMap map)).Bounded where
  spawn := show Position.IsInt {} by decide
  players p player h := by simp [ofState, WorldState.ofMap] at h

theorem Bounded.connect {service : WorldService} (bounded : service.Bounded) (c : ConnectionKey) :
    (service.connect c).2.Bounded := by
  obtain ⟨p, -, h⟩ | ⟨-, -, h⟩ | ⟨-, hroom, h⟩ := connect_cases service c
  · rwa [h]
  · rwa [h]
  · rw [h]
    constructor
    case spawn =>
      simp only [join, WorldState.addPlayer, if_neg hroom]
      exact bounded.spawn
    case players =>
      intro p player hplayer
      rw [players_join hroom, Std.TreeMap.getElem?_insertIfNew] at hplayer
      split at hplayer
      next =>
        obtain rfl := Option.some.inj hplayer
        exact bounded.spawn
      next => exact bounded.players p player hplayer

theorem Bounded.disconnect {service : WorldService} (bounded : service.Bounded)
    (c : ConnectionKey) : (service.disconnect c).Bounded := by
  simp only [WorldService.disconnect]
  cases service.connections.playerFor c with
  | none => exact bounded
  | some gone =>
    refine ⟨bounded.spawn, fun p player hplayer => ?_⟩
    simp only [WorldState.removePlayer, Std.TreeMap.getElem?_erase] at hplayer
    split at hplayer
    next => cases hplayer
    next => exact bounded.players p player hplayer

theorem Bounded.applyInt {service : WorldService} (bounded : service.Bounded)
    (c : ConnectionKey) (action : WorldAction) : (service.applyInt c action).Bounded := by
  simp only [WorldService.applyInt]
  cases service.connections.playerFor c with
  | none => exact bounded
  | some mover =>
    cases action with
    | interact => exact bounded
    | wait => exact bounded
    | move delta =>
      simp only [applyToPlayerInt, WorldState.movePlayerInt]
      cases service.state.players[mover]? with
      | none => exact bounded
      | some old =>
        refine ⟨bounded.spawn, fun p player hplayer => ?_⟩
        simp only [Std.TreeMap.getElem?_insert] at hplayer
        split at hplayer
        next =>
          obtain rfl := Option.some.inj hplayer
          exact Position.isInt_wrap _
        next => exact bounded.players p player hplayer

theorem invariant_bounded : intStep.Invariant Bounded := by
  intro service e t bounded hstep
  cases e with
  | connect c => exact Option.some.inj hstep ▸ bounded.connect c
  | disconnect c => exact Option.some.inj hstep ▸ bounded.disconnect c
  | apply c action => exact Option.some.inj hstep ▸ bounded.applyInt c action

end WorldService

end Stalker2D.Game
