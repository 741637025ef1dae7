import Stalker2D.Data.WireReading
import Stalker2D.Shared.Serialization

/-!
# No two messages have the same bytes

Both kinds of messages as `message.proto` lays them out on the wire. A message does not say
where it ends; its frame does. Within it every field is told by its tag, and fields that are
left out are the default ones, so the bytes determine the message.
-/

namespace Stalker2D.Protocol

section Requests

def PingRequest.encode (request : PingRequest) : List UInt8 :=
  Wire.uint64Field 1 request.timestamp

def ClientPayload.encode : ClientPayload → List UInt8
  | .ping request => Wire.lengthDelimited 10 request.encode
  | .stateSnapshot => Wire.lengthDelimited 11 []

namespace ClientMessage

def encode (message : ClientMessage) : List UInt8 :=
  Wire.uint64Field 1 message.requestId ++ (message.payload.map ClientPayload.encode).getD []

/-- A message of two gigabytes is refused. -/
def serializeToString (message : ClientMessage) : Option (List UInt8) :=
  if message.encode.length < 2 ^ 31 then some message.encode else none

example : encode { requestId := 2, payload := some (.ping { timestamp := 9 }) } =
    [0x08, 0x02, 0x52, 0x02, 0x08, 0x09] := by decide

end ClientMessage

end Requests

section Fields

theorem head?_tag : (Wire.tag 1 0).head? = some 8 ∧ (Wire.tag 2 0).head? = some 16 := by decide

/-- A field at the end of the message. -/
theorem uint64Field_injective (field : Nat) : Function.Injective (Wire.uint64Field field) :=
  (Wire.readable_uint64Field field).injective fun h =>
    Wire.tag_ne_nil field 0 (List.prefix_nil.mp h)

theorem PingRequest.encode_injective : Function.Injective PingRequest.encode :=
  fun _ _ heq => congrArg PingRequest.mk (uint64Field_injective 1 heq)

theorem PongResponse.encode_injective : Function.Injective PongResponse.encode :=
  fun _ _ heq => congrArg PongResponse.mk (uint64Field_injective 1 heq)

theorem StateSnapshotResponse.encode_injective :
    Function.Injective StateSnapshotResponse.encode :=
  fun _ _ heq => congrArg StateSnapshotResponse.mk (Wire.stringField_injective 1 heq)

/-- A code that the field can hold. -/
def ErrorResponse.Representable (response : ErrorResponse) : Prop := Wire.IsInt32 response.code

theorem ErrorResponse.encode_inj {a b : ErrorResponse} (ha : a.Representable)
    (hb : b.Representable) (heq : a.encode = b.encode) : a = b := by
  have next : ∀ value, ¬Wire.tag 1 0 <+: Wire.stringField 2 value := by
    intro value
    refine Wire.not_tag_prefix ?_
    obtain h | h := Wire.head?_stringField 2 value <;> rw [h] <;> decide
  obtain ⟨hcode, hmessage⟩ := Wire.int32Field_inj ha hb (next _) (next _) heq
  exact congrArg₂ ErrorResponse.mk hcode (Wire.stringField_injective 2 hmessage)

/-- A `oneof` at the end of a message, whose members never encode as nothing. -/
theorem oneof_inj {π : Type} {encode : π → List UInt8} {a b : Option π}
    (hne : ∀ payload, encode payload ≠ [])
    (hinj : ∀ p ∈ a, ∀ q ∈ b, encode p = encode q → p = q)
    (heq : (a.map encode).getD [] = (b.map encode).getD []) : a = b := by
  cases a with
  | none =>
    cases b with
    | none => rfl
    | some q => exact absurd heq.symm (hne q)
  | some p =>
    cases b with
    | none => exact absurd heq (hne p)
    | some q => exact congrArg some (hinj p rfl q rfl heq)

end Fields

section Payloads

/-- The first byte tells which member is set. -/
def ClientPayload.tagByte : ClientPayload → UInt8
  | .ping _ => 82
  | .stateSnapshot => 90

theorem ClientPayload.head?_encode (payload : ClientPayload) :
    payload.encode.head? = some payload.tagByte := by
  cases payload <;> exact Wire.head?_lengthDelimited _ _

theorem ClientPayload.tagByte_mem (payload : ClientPayload) : payload.tagByte ∈ [82, 90] := by
  cases payload <;> simp [tagByte]

theorem ClientPayload.encode_injective : Function.Injective ClientPayload.encode := by
  intro a b heq
  have hhead := congrArg List.head? heq
  rw [head?_encode, head?_encode] at hhead
  cases a <;> cases b
  case ping.ping =>
    exact congrArg _ (PingRequest.encode_injective (Wire.lengthDelimited_injective 10 heq))
  case stateSnapshot.stateSnapshot => rfl
  all_goals simp [tagByte] at hhead

def ServerPayload.tagByte : ServerPayload → UInt8
  | .pong _ => 82
  | .stateSnapshot _ => 90
  | .error _ => 98

theorem ServerPayload.head?_encode (payload : ServerPayload) :
    payload.encode.head? = some payload.tagByte := by
  cases payload <;> exact Wire.head?_lengthDelimited _ _

theorem ServerPayload.tagByte_mem (payload : ServerPayload) :
    payload.tagByte ∈ [82, 90, 98] := by
  cases payload <;> simp [tagByte]

def ServerPayload.Representable : ServerPayload → Prop
  | .error response => response.Representable
  | _ => True

theorem ServerPayload.encode_inj {a b : ServerPayload} (ha : a.Representable)
    (hb : b.Representable) (heq : a.encode = b.encode) : a = b := by
  have hhead := congrArg List.head? heq
  rw [head?_encode, head?_encode] at hhead
  cases a <;> cases b
  case pong.pong =>
    exact congrArg _ (PongResponse.encode_injective (Wire.lengthDelimited_injective 10 heq))
  case stateSnapshot.stateSnapshot =>
    exact congrArg _
      (StateSnapshotResponse.encode_injective (Wire.lengthDelimited_injective 11 heq))
  case error.error =>
    exact congrArg _ (ErrorResponse.encode_inj ha hb (Wire.lengthDelimited_injective 12 heq))
  all_goals simp [tagByte] at hhead

end Payloads

section Messages

/-- A number that has no name of its own, and fits the field. -/
def Status.Representable : Status → Prop
  | .unrecognized value => Wire.IsInt32 value ∧ value ≠ 0 ∧ value ≠ 1 ∧ value ≠ 2
  | _ => True

theorem Status.isInt32_number {status : Status} (h : status.Representable) :
    Wire.IsInt32 status.number := by
  cases status with
  | unspecified => exact ⟨by decide, by decide⟩
  | ok => exact ⟨by decide, by decide⟩
  | error => exact ⟨by decide, by decide⟩
  | unrecognized value => exact h.1

theorem Status.number_inj {a b : Status} (ha : a.Representable) (hb : b.Representable)
    (h : a.number = b.number) : a = b := by
  cases a <;> cases b <;> simp_all [number, Representable]

/-- The messages that objects of the generated class stand for. -/
structure ServerMessage.Representable (message : ServerMessage) : Prop where
  status : message.status.Representable
  payload : ∀ payload ∈ message.payload, payload.Representable

theorem ClientMessage.encode_injective : Function.Injective ClientMessage.encode := by
  have next : ∀ message : ClientMessage,
      ¬Wire.tag 1 0 <+: (message.payload.map ClientPayload.encode).getD [] := by
    intro message
    refine Wire.not_tag_prefix ?_
    cases message.payload with
    | none => decide
    | some payload =>
      rw [Option.map_some, Option.getD_some, payload.head?_encode, head?_tag.1]
      intro h
      exact absurd (Option.some.inj h ▸ payload.tagByte_mem) (by decide)
  have nonempty : ∀ payload : ClientPayload, payload.encode ≠ [] :=
    fun payload hnil => nomatch hnil ▸ payload.head?_encode
  intro a b heq
  obtain ⟨hid, hpayload⟩ := Wire.readable_uint64Field 1 _ _ _ _ (next a) (next b) heq
  exact congrArg₂ ClientMessage.mk hid
    (oneof_inj nonempty (fun _ _ _ _ h => ClientPayload.encode_injective h) hpayload)

theorem ServerMessage.encode_inj {a b : ServerMessage} (ha : a.Representable)
    (hb : b.Representable) (heq : a.encode = b.encode) : a = b := by
  -- the payload begins with neither of the tags before it
  have heads : ∀ message : ServerMessage,
      ∀ c ∈ ((message.payload.map ServerPayload.encode).getD []).head?, c ∈ [82, 90, 98] := by
    intro message c hc
    cases h : message.payload with
    | none =>
      rw [h] at hc
      cases hc
    | some payload =>
      rw [h, Option.map_some, Option.getD_some, payload.head?_encode] at hc
      exact Option.some.inj hc ▸ payload.tagByte_mem
  have status : ∀ message : ServerMessage,
      ¬Wire.tag 2 0 <+: (message.payload.map ServerPayload.encode).getD [] := by
    intro message
    refine Wire.not_tag_prefix fun h => ?_
    exact absurd (heads message 16 (h.trans head?_tag.2)) (by decide)
  have id : ∀ message : ServerMessage, ¬Wire.tag 1 0 <+:
      Wire.int32Field 2 message.status.number ++
        (message.payload.map ServerPayload.encode).getD [] := by
    intro message
    refine Wire.not_tag_prefix fun h => ?_
    obtain hstatus | hnone := Wire.head?_uint64Field_append 2
      (UInt64.ofInt message.status.number) ((message.payload.map ServerPayload.encode).getD [])
    · exact absurd (hstatus.symm.trans h) (by decide)
    · exact absurd (heads message 8 (hnone.symm.trans (h.trans head?_tag.1))) (by decide)
  simp only [encode, List.append_assoc] at heq
  obtain ⟨hid, hrest⟩ := Wire.readable_uint64Field 1 _ _ _ _ (id a) (id b) heq
  obtain ⟨hnumber, hpayload⟩ := Wire.int32Field_inj (Status.isInt32_number ha.status)
    (Status.isInt32_number hb.status) (status a) (status b) hrest
  have hstatus : a.status = b.status := Status.number_inj ha.status hb.status hnumber
  have hoption : a.payload = b.payload :=
    oneof_inj (fun payload => List.ne_nil_of_length_pos payload.length_encode_pos)
      (fun p hp q hq h => ServerPayload.encode_inj (ha.payload p hp) (hb.payload q hq) h) hpayload
  calc a = ⟨a.requestId, a.status, a.payload⟩ := rfl
    _ = b := by rw [hid, hstatus, hoption]

end Messages

end Stalker2D.Protocol
