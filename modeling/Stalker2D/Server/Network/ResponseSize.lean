import Mathlib.Data.List.Perm.Subperm
import Stalker2D.Server.Game.MoveArithmetic
import Stalker2D.Server.Network.ServerConnectionManager
import Stalker2D.Shared.MessageChannel
import Stalker2D.Shared.Serialization

/-!
# The size of a response

Most of a response is the text of a snapshot. Its length is bounded from the inside out: a
coordinate of 32 bits, the entry of a player, at most 254 of them. What the response adds
to its text is bounded by the wire format alone.
-/

namespace Stalker2D

namespace Game

theorem size_dump_int_le {n : Int} (h : IsInt n) : (Json.dump (.number n)).utf8ByteSize ≤ 11 := by
  apply Json.size_dump_number_le
  simp only [IsInt] at h
  omega

theorem size_playerJson_le {player : PlayerState} (h : player.position.IsInt) :
    (WorldState.playerJson player).dump.utf8ByteSize ≤ 59 := by
  have hid : (Json.dump (.number player.id.toNat)).utf8ByteSize ≤ 4 := by
    apply Json.size_dump_number_le
    have := player.id.toNat_lt
    omega
  have hx := size_dump_int_le h.1
  have hy := size_dump_int_le h.2
  have hposition := Json.size_dump_ofPairs_le
    [("x", .number player.position.x), ("y", .number player.position.y)]
  have hplayer := Json.size_dump_ofPairs_le
    [("id", .number player.id.toNat),
      ("position", .ofPairs [("x", .number player.position.x), ("y", .number player.position.y)])]
  have hkeys : (Json.dumpString "x").utf8ByteSize = 3 ∧ (Json.dumpString "y").utf8ByteSize = 3 ∧
      (Json.dumpString "id").utf8ByteSize = 4 ∧ (Json.dumpString "position").utf8ByteSize = 10 := by
    decide
  simp only [List.map_cons, List.map_nil, List.sum_cons, List.sum_nil, Json.fieldSize, hkeys]
    at hposition hplayer
  rw [WorldState.playerJson]
  omega

namespace WorldService

variable {service : WorldService}

/-- A world has at most 254 players at a time. -/
theorem Valid.length_players_le (valid : service.Valid) :
    service.state.players.values.length ≤ 254 := by
  have hkeys : service.state.players.values.length =
      (service.state.players.keys.map UInt8.toNat).length := by
    rw [TreeMap.values_eq_map_toList, ← Std.TreeMap.map_fst_toList_eq_keys]
    simp only [List.length_map]
  have hnodup : (service.state.players.keys.map UInt8.toNat).Nodup :=
    Std.TreeMap.nodup_keys.map fun a b h => UInt8.toNat_inj.mp h
  have hrange : service.state.players.keys.map UInt8.toNat ⊆ List.range' 1 254 := by
    intro n hn
    obtain ⟨p, hp, rfl⟩ := List.mem_map.mp hn
    obtain ⟨hpos, hlt⟩ := valid.issued p (Std.TreeMap.mem_of_mem_keys hp)
    rw [UInt8.le_iff_toNat_le, UInt8.toNat_one] at hpos
    rw [UInt8.lt_iff_toNat_lt] at hlt
    have hnext := service.state.nextPlayerId.toNat_lt
    rw [List.mem_range'_1]
    omega
  have hlength := (hnodup.subperm hrange).length_le
  rw [List.length_range'] at hlength
  exact hkeys.trans_le hlength

theorem Bounded.position_of_mem_values (bounded : service.Bounded) {player : PlayerState}
    (h : player ∈ service.state.players.values) : player.position.IsInt := by
  rw [TreeMap.values_eq_map_toList] at h
  obtain ⟨⟨p, _⟩, hpair, rfl⟩ := List.mem_map.mp h
  exact bounded.players p _ (Std.TreeMap.mem_toList_iff_getElem?_eq_some.mp hpair)

/-- The text of a snapshot stays far below the limit. -/
theorem size_snapshotJson_le (valid : service.Valid) (bounded : service.Bounded)
    (hmap : service.state.map = ⟨"bootstrap", 32, 18⟩) :
    service.snapshotJson.utf8ByteSize ≤ 16000 := by
  have hplayers : (Json.dump (.array
      (service.state.players.values.map WorldState.playerJson))).utf8ByteSize ≤ 15242 := by
    have hall : ∀ json ∈ service.state.players.values.map WorldState.playerJson,
        json.dump.utf8ByteSize ≤ 59 := by
      intro json hjson
      obtain ⟨player, hplayer, rfl⟩ := List.mem_map.mp hjson
      exact size_playerJson_le (bounded.position_of_mem_values hplayer)
    have harray := Json.size_dump_array_le hall
    have hcount := valid.length_players_le
    rw [List.length_map] at harray
    omega
  have hfields := Json.size_dump_ofPairs_le [("width", .number 32), ("height", .number 18)]
  have hsize := Json.size_dump_ofPairs_le
    [("world", .string "bootstrap"),
      ("map", .ofPairs [("width", .number 32), ("height", .number 18)]),
      ("players", .array (service.state.players.values.map WorldState.playerJson))]
  have hfixed : (Json.dumpString "width").utf8ByteSize = 7 ∧
      (Json.dump (.number 32)).utf8ByteSize = 2 ∧ (Json.dumpString "height").utf8ByteSize = 8 ∧
      (Json.dump (.number 18)).utf8ByteSize = 2 ∧ (Json.dumpString "world").utf8ByteSize = 7 ∧
      (Json.dump (.string "bootstrap")).utf8ByteSize = 11 ∧
      (Json.dumpString "map").utf8ByteSize = 5 ∧ (Json.dumpString "players").utf8ByteSize = 9 := by
    decide
  simp only [List.map_cons, List.map_nil, List.sum_cons, List.sum_nil, Json.fieldSize, hfixed]
    at hfields hsize
  simp only [snapshotJson, WorldState.toJson, hmap]
  omega

/-- What a run from the initial world keeps about the size of its snapshots. -/
theorem size_snapshotJson_of_run {es : List WorldEvent}
    (run : intStep.exec initial es = some service) :
    service.snapshotJson.utf8ByteSize ≤ 16000 := by
  obtain ⟨fs, hexact⟩ := exists_exec_eq run
  have valid : service.Valid := invariant_valid.exec (valid_ofMap _) hexact
  have bounded : service.Bounded := invariant_bounded.exec (bounded_ofMap _) run
  exact size_snapshotJson_le valid bounded (map_exec hexact)

end WorldService

end Game

namespace Network

open Protocol Game

namespace ServerMessageHandler

variable {service world : WorldService} {connection : ConnectionId} {message : ClientMessage}
  {response : ServerMessage}

/-- A response always has a payload; its text is fixed, or a snapshot. -/
theorem payload_of_onMessage
    (handled : onMessage service connection message = (.ok response, world)) :
    (∃ p, service.connect connection.id = (.ok p, world)) ∧ ∃ payload,
      response.payload = some payload ∧
        (payload.text.utf8ByteSize ≤ 33 ∨ payload.text = world.snapshotJson) := by
  simp only [onMessage] at handled
  cases hconnect : service.connect connection.id with
  | mk outcome connected =>
    rw [hconnect] at handled
    cases outcome with
    | error e => cases handled
    | ok p =>
      obtain ⟨hresponse, rfl⟩ := Prod.mk.inj handled
      obtain rfl := Except.ok.inj hresponse
      refine ⟨⟨p, rfl⟩, ?_⟩
      cases message.payload with
      | none => exact ⟨_, rfl, .inl (by decide)⟩
      | some payload =>
        cases payload with
        | ping request => exact ⟨_, rfl, .inl (Nat.zero_le 33)⟩
        | stateSnapshot => exact ⟨_, rfl, .inr rfl⟩

/-- The response to any message, whatever the moves so far, is not empty and within the default
limit of the server, so `writeMessage` sends it as one frame. -/
theorem responses_sendable {es : List WorldEvent}
    (run : WorldService.intStep.exec .initial es = some service)
    (handled : onMessage service connection message = (.ok response, world)) :
    ∃ bytes, ServerMessage.serializeToString { response with requestId := message.requestId } =
        some bytes ∧
      1 ≤ bytes.length ∧ bytes.length ≤ 1024 * 1024 ∧
      ∀ (native : Endian) (channel : MessageChannel) (wire : List UInt8),
        channel.frameCodec.maxPayloadSize = 1024 * 1024 →
        channel.writeMessage ServerMessage.serializeToString native wire
            { response with requestId := message.requestId } =
          (.ok (), wire ++ MessageChannel.frame native bytes) := by
  obtain ⟨⟨p, hconnect⟩, payload, hpayload, htext⟩ := payload_of_onMessage handled
  have hrun : WorldService.intStep.exec .initial (es ++ [.connect connection.id]) = some world :=
    Machine.exec_concat_eq_some.mpr ⟨service, run, by rw [WorldService.intStep, hconnect]⟩
  have hsnapshot := WorldService.size_snapshotJson_of_run hrun
  let sent : ServerMessage := { response with requestId := message.requestId }
  have hsent : sent.payload = some payload := hpayload
  have hpos := ServerMessage.length_encode_pos hsent
  have hle : sent.encode.length ≤ 16100 := by
    have hencode := ServerMessage.length_encode_le hsent
    obtain hfixed | hworld := htext
    · omega
    · rw [hworld] at hencode
      omega
  have hbytes : sent.serializeToString = some sent.encode := if_pos (by omega)
  refine ⟨sent.encode, hbytes, hpos, by omega, fun native channel wire hlimit => ?_⟩
  have framable : MessageChannel.Framable channel.frameCodec sent.encode := by
    refine ⟨List.ne_nil_of_length_pos hpos, ?_⟩
    rw [hlimit]
    exact hle.trans (by decide)
  exact MessageChannel.writeMessage_of_framable hbytes framable wire

/-- A snapshot of two players, one of them at a corner of the range. -/
theorem responses_sendable_snapshot :
    ∃ service response world bytes, WorldService.intStep.exec .initial
        [.connect 1, .apply 1 (.move ⟨-2147483648, 2147483647⟩), .connect 2] = some service ∧
      onMessage service ⟨2⟩ { requestId := 7, payload := some .stateSnapshot } =
        (.ok response, world) ∧
      ServerMessage.serializeToString { response with requestId := 7 } = some bytes ∧
      1 ≤ bytes.length ∧ bytes.length ≤ 1024 * 1024 := by
  obtain ⟨bytes, hbytes, hpos, hle, -⟩ :=
    @responses_sendable _ _ ⟨2⟩ { requestId := 7, payload := some .stateSnapshot } _
      [.connect 1, .apply 1 (.move ⟨-2147483648, 2147483647⟩), .connect 2] rfl rfl
  exact ⟨_, _, _, bytes, rfl, rfl, hbytes, hpos, hle⟩

end ServerMessageHandler

end Network

end Stalker2D
