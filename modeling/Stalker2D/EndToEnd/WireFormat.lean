import Stalker2D.EndToEnd.RequestSafety
import Stalker2D.Server.Game.SnapshotText
import Stalker2D.Server.Network.ResponseSize
import Stalker2D.Shared.WireFormat

/-!
# From the bytes back to the world

The layout of `message.proto` is one that can be parsed: what the model of the two hosts
takes for granted of generated code holds of the bytes that are really written. The bytes of
a response then tell the client which request it answers, and a snapshot tells it the world.
-/

namespace Stalker2D.EndToEnd

open Protocol Network Game

section Hosts

variable {μ : Type} {serialize : μ → Option (List UInt8)}

open Classical in
/-- Messages that are told apart by their bytes can be parsed. -/
theorem Protobuf.lawful_of_injective
    (inj : ∀ a b data, serialize a = some data → serialize b = some data → a = b)
    (bounded : ∀ message data, serialize message = some data → data.length ≤ 2147483647) :
    ∃ protobuf : Protobuf μ, protobuf.Lawful ∧ protobuf.serializeToString = serialize := by
  let parse (data : List UInt8) (_ : Int32) : Option μ :=
    if h : ∃ message, serialize message = some data then some h.choose else none
  refine ⟨⟨serialize, parse⟩, ⟨fun message data _ hdata _ => ?_, bounded⟩, rfl⟩
  have known : ∃ message, serialize message = some data := ⟨message, hdata⟩
  show dite _ _ _ = _
  rw [dif_pos known, inj _ _ data known.choose_spec hdata]

/-- What `SerializeToString` gives: the bytes, unless there are too many of them. -/
theorem guard_eq_some {data bytes : List UInt8}
    (h : (if bytes.length < 2 ^ 31 then some bytes else none) = some data) :
    bytes = data ∧ data.length ≤ 2147483647 := by
  split at h
  next hlt =>
    obtain rfl := Option.some.inj h
    exact ⟨rfl, by omega⟩
  next => cases h

open Classical in
/-- The byte layout of `message.proto` can be parsed: there is generated code whose parser inverts
`SerializeToString` on every message that can be represented, for hosts of any byte order. -/
theorem Hosts.exists_lawful (client server : Endian) :
    ∃ hosts : Hosts, hosts.Lawful ∧ hosts.client = client ∧ hosts.server = server ∧
      hosts.requests.serializeToString = ClientMessage.serializeToString ∧
      ∀ message : ServerMessage, message.Representable →
        hosts.responses.serializeToString message = message.serializeToString := by
  let serialize (message : ServerMessage) : Option (List UInt8) :=
    if message.Representable then message.serializeToString else none
  have serialized : ∀ message data, serialize message = some data →
      message.Representable ∧ message.serializeToString = some data := by
    intro message data h
    by_cases representable : message.Representable
    · exact ⟨representable, (if_pos representable).symm.trans h⟩
    · exact nomatch (if_neg representable).symm.trans h
  have hrequests : ∃ protobuf : Protobuf ClientMessage, protobuf.Lawful ∧
      protobuf.serializeToString = ClientMessage.serializeToString := by
    refine Protobuf.lawful_of_injective (fun a b data ha hb => ?_) fun _ _ h => (guard_eq_some h).2
    exact ClientMessage.encode_injective ((guard_eq_some ha).1.trans (guard_eq_some hb).1.symm)
  have hresponses : ∃ protobuf : Protobuf ServerMessage, protobuf.Lawful ∧
      protobuf.serializeToString = serialize := by
    refine Protobuf.lawful_of_injective (fun a b data ha hb => ?_) fun message data h =>
      (guard_eq_some (serialized message data h).2).2
    obtain ⟨representable, hdata⟩ := serialized a data ha
    obtain ⟨representable', hdata'⟩ := serialized b data hb
    exact ServerMessage.encode_inj representable representable'
      ((guard_eq_some hdata).1.trans (guard_eq_some hdata').1.symm)
  obtain ⟨requests, lawful, hserialize⟩ := hrequests
  obtain ⟨responses, lawful', hserialize'⟩ := hresponses
  refine ⟨⟨client, server, requests, responses⟩, ⟨lawful, lawful'⟩, rfl, rfl, hserialize, ?_⟩
  intro message representable
  exact (congrFun hserialize' message).trans (if_pos representable)

end Hosts

section Responses

variable {service service' world world' : WorldService} {connection connection' : ConnectionId}
  {message message' : ClientMessage} {response response' : ServerMessage}

/-- Two requests with the same answer, each in the world the server had then. -/
def SameAnswer (world world' : WorldService) :
    Option ClientPayload → Option ClientPayload → Prop
  | some (.ping request), some (.ping request') => request.timestamp = request'.timestamp
  | some .stateSnapshot, some .stateSnapshot =>
    world.state.map = world'.state.map ∧
      ∀ id, world.state.player id = world'.state.player id
  | none, none => True
  | _, _ => False

/-- What the server answers, and the world it has then. -/
theorem answered_cases
    (handled : ServerMessageHandler.onMessage service connection message = (.ok response, world)) :
    world = (service.connect connection.id).2 ∧ response.requestId = message.requestId ∧
      match message.payload with
      | some (.ping request) =>
        response.status = .ok ∧ response.payload = some (.pong { timestamp := request.timestamp })
      | some .stateSnapshot =>
        response.status = .ok ∧
          response.payload = some (.stateSnapshot { stateJson := world.snapshotJson })
      | none =>
        response.status = .error ∧ response.payload =
          some (.error { code := 400, message := "Client message payload is not set" }) := by
  simp only [ServerMessageHandler.onMessage] at handled
  cases hconnect : service.connect connection.id with
  | mk outcome connected =>
    rw [hconnect] at handled
    cases outcome with
    | error e => cases handled
    | ok p =>
      obtain ⟨hresponse, rfl⟩ := Prod.mk.inj handled
      obtain rfl := Except.ok.inj hresponse
      refine ⟨rfl, ?_⟩
      cases message.payload with
      | none => exact ⟨rfl, rfl, rfl⟩
      | some payload =>
        cases payload with
        | ping request => exact ⟨rfl, rfl, rfl⟩
        | stateSnapshot => exact ⟨rfl, rfl, rfl⟩

theorem representable_of_onMessage
    (handled : ServerMessageHandler.onMessage service connection message = (.ok response, world)) :
    ServerMessage.Representable { response with requestId := message.requestId } := by
  obtain ⟨-, -, hcase⟩ := answered_cases handled
  cases hpayload : message.payload with
  | none =>
    rw [hpayload] at hcase
    refine ⟨hcase.1 ▸ trivial, fun payload hmem => ?_⟩
    obtain rfl := Option.some.inj (hcase.2.symm.trans hmem)
    exact ⟨by decide, by decide⟩
  | some payload =>
    cases payload with
    | ping request =>
      rw [hpayload] at hcase
      refine ⟨hcase.1 ▸ trivial, fun payload hmem => ?_⟩
      obtain rfl := Option.some.inj (hcase.2.symm.trans hmem)
      trivial
    | stateSnapshot =>
      rw [hpayload] at hcase
      refine ⟨hcase.1 ▸ trivial, fun payload hmem => ?_⟩
      obtain rfl := Option.some.inj (hcase.2.symm.trans hmem)
      trivial

/-- Two servers, each after a history of its own, answer two requests with the same bytes
exactly if the requests have the same id and the same answer: pings of one time, snapshots of
worlds with the same map and the same players at the same places, or no payload at all. -/
theorem responses_equal_iff {map map' : TileMap} {es fs : List WorldEvent}
    (run : WorldService.intStep.exec (.ofState (.ofMap map)) es = some service)
    (run' : WorldService.intStep.exec (.ofState (.ofMap map')) fs = some service')
    (handled : ServerMessageHandler.onMessage service connection message = (.ok response, world))
    (handled' : ServerMessageHandler.onMessage service' connection' message' =
      (.ok response', world')) :
    ServerMessage.encode { response with requestId := message.requestId } =
        ServerMessage.encode { response' with requestId := message'.requestId } ↔
      message.requestId = message'.requestId ∧
        SameAnswer world world' message.payload message'.payload := by
  obtain ⟨hworld, -, hcase⟩ := answered_cases handled
  obtain ⟨hworld', -, hcase'⟩ := answered_cases handled'
  have valid : world.Valid := hworld ▸ (WorldService.valid_of_run run).1.connect _
  have valid' : world'.Valid := hworld' ▸ (WorldService.valid_of_run run').1.connect _
  have hencode : ServerMessage.encode { response with requestId := message.requestId } =
      ServerMessage.encode { response' with requestId := message'.requestId } ↔
        message.requestId = message'.requestId ∧ response.status = response'.status ∧
          response.payload = response'.payload := by
    constructor
    · intro h
      have hsame := ServerMessage.encode_inj (representable_of_onMessage handled)
        (representable_of_onMessage handled') h
      rwa [ServerMessage.mk.injEq] at hsame
    · rintro ⟨hid, hstatus, hpayload⟩
      rw [hid, hstatus, hpayload]
  rw [hencode]
  refine and_congr_right fun _ => ?_
  rcases hpayload : message.payload with _ | request | _ <;>
    rcases hpayload' : message'.payload with _ | request' | _ <;>
    rw [hpayload] at hcase <;> rw [hpayload'] at hcase' <;>
    rw [hcase.1, hcase.2, hcase'.1, hcase'.2] <;>
    simp [SameAnswer, valid.snapshotJson_eq_iff valid']

/-- What the two clients below get is from the same world. -/
theorem exec_twoServers :
    ∃ service service' world world' response response',
      WorldService.intStep.exec (.ofState (.ofMap ⟨"bootstrap", 32, 18⟩))
        [.connect 1, .apply 1 (.move ⟨4, 9⟩), .connect 2, .disconnect 1,
          .apply 2 (.move ⟨2147483647, 0⟩), .apply 2 (.move ⟨1, 0⟩)] = some service ∧
      WorldService.intStep.exec (.ofState (.ofMap ⟨"bootstrap", 32, 18⟩))
        [.connect 7, .connect 5, .disconnect 7, .apply 5 (.move ⟨-2147483648, 0⟩)] =
          some service' ∧
      ServerMessageHandler.onMessage service ⟨2⟩
        { requestId := 7, payload := some .stateSnapshot } = (.ok response, world) ∧
      ServerMessageHandler.onMessage service' ⟨5⟩
        { requestId := 7, payload := some .stateSnapshot } = (.ok response', world') ∧
      world.state.map = world'.state.map ∧
      ∀ id, world.state.player id = world'.state.player id :=
  ⟨_, _, _, _, _, _, rfl, rfl, rfl, rfl, rfl, fun _ => rfl⟩

/-- Two servers that came to the same world in different ways, one of them around the range of
`int`. -/
theorem responses_equal_iff_twoServers :
    ∃ service service' response response' world world',
      WorldService.intStep.exec (.ofState (.ofMap ⟨"bootstrap", 32, 18⟩))
        [.connect 1, .apply 1 (.move ⟨4, 9⟩), .connect 2, .disconnect 1,
          .apply 2 (.move ⟨2147483647, 0⟩), .apply 2 (.move ⟨1, 0⟩)] = some service ∧
      WorldService.intStep.exec (.ofState (.ofMap ⟨"bootstrap", 32, 18⟩))
        [.connect 7, .connect 5, .disconnect 7, .apply 5 (.move ⟨-2147483648, 0⟩)] =
          some service' ∧
      ServerMessageHandler.onMessage service ⟨2⟩
        { requestId := 7, payload := some .stateSnapshot } = (.ok response, world) ∧
      ServerMessageHandler.onMessage service' ⟨5⟩
        { requestId := 7, payload := some .stateSnapshot } = (.ok response', world') ∧
      ServerMessage.encode { response with requestId := 7 } =
        ServerMessage.encode { response' with requestId := 7 } := by
  obtain ⟨service, service', world, world', response, response', run, run', handled, handled',
    hmap, hplayers⟩ := exec_twoServers
  refine ⟨service, service', response, response', world, world', run, run', handled, handled', ?_⟩
  exact (responses_equal_iff run run' handled handled').mpr ⟨rfl, hmap, hplayers⟩

end Responses

end Stalker2D.EndToEnd
