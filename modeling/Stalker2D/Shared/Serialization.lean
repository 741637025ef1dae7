import Mathlib.Algebra.Group.Nat.Defs
import Stalker2D.Data.Wire
import Stalker2D.Shared.Protocol

/-!
# Server messages on the wire

`SerializeToString` of a `ServerMessage`, field by field as `message.proto` numbers them.
A payload is written whenever it is set, so only a message without one can be empty.
-/

namespace Stalker2D.Protocol

def Status.number : Status → Int
  | .unspecified => 0
  | .ok => 1
  | .error => 2
  | .unrecognized value => value

def PongResponse.encode (response : PongResponse) : List UInt8 :=
  Wire.uint64Field 1 response.timestamp

def StateSnapshotResponse.encode (response : StateSnapshotResponse) : List UInt8 :=
  Wire.stringField 1 response.stateJson

def ErrorResponse.encode (response : ErrorResponse) : List UInt8 :=
  Wire.int32Field 1 response.code ++ Wire.stringField 2 response.message

def ServerPayload.encode : ServerPayload → List UInt8
  | .pong response => Wire.lengthDelimited 10 response.encode
  | .stateSnapshot response => Wire.lengthDelimited 11 response.encode
  | .error response => Wire.lengthDelimited 12 response.encode

namespace ServerMessage

def encode (message : ServerMessage) : List UInt8 :=
  Wire.uint64Field 1 message.requestId ++ Wire.int32Field 2 message.status.number ++
    (message.payload.map ServerPayload.encode).getD []

/-- A message of two gigabytes is refused. -/
def serializeToString (message : ServerMessage) : Option (List UInt8) :=
  if message.encode.length < 2 ^ 31 then some message.encode else none

example : encode {} = [] := by decide

end ServerMessage

theorem PongResponse.length_encode_le (response : PongResponse) : response.encode.length ≤ 20 :=
  Wire.length_uint64Field_le 1 response.timestamp

theorem StateSnapshotResponse.length_encode_le (response : StateSnapshotResponse) :
    response.encode.length ≤ response.stateJson.utf8ByteSize + 20 :=
  Wire.length_stringField_le 1 response.stateJson

theorem ErrorResponse.length_encode_le (response : ErrorResponse) :
    response.encode.length ≤ response.message.utf8ByteSize + 40 := by
  have hcode := Wire.length_int32Field_le 1 response.code
  have hmessage := Wire.length_stringField_le 2 response.message
  rw [encode, List.length_append]
  omega

/-- The text a payload carries. -/
def ServerPayload.text : ServerPayload → String
  | .pong _ => ""
  | .stateSnapshot response => response.stateJson
  | .error response => response.message

theorem ServerPayload.length_encode_le (payload : ServerPayload) :
    payload.encode.length ≤ payload.text.utf8ByteSize + 60 := by
  cases payload with
  | pong response =>
    have hfields := response.length_encode_le
    have hpayload := Wire.length_lengthDelimited_le 10 response.encode
    rw [encode]
    omega
  | stateSnapshot response =>
    have hfields := response.length_encode_le
    have hpayload := Wire.length_lengthDelimited_le 11 response.encode
    rw [encode, text]
    omega
  | error response =>
    have hfields := response.length_encode_le
    have hpayload := Wire.length_lengthDelimited_le 12 response.encode
    rw [encode, text]
    omega

theorem ServerPayload.length_encode_pos (payload : ServerPayload) :
    0 < payload.encode.length := by
  cases payload <;> exact Wire.length_lengthDelimited_pos _ _

namespace ServerMessage

variable {message : ServerMessage} {payload : ServerPayload}

theorem length_encode_le (h : message.payload = some payload) :
    message.encode.length ≤ payload.text.utf8ByteSize + 100 := by
  have hid := Wire.length_uint64Field_le 1 message.requestId
  have hstatus := Wire.length_int32Field_le 2 message.status.number
  have hpayload := payload.length_encode_le
  simp only [encode, h, Option.map_some, Option.getD_some, List.length_append]
  omega

theorem length_encode_pos (h : message.payload = some payload) : 0 < message.encode.length := by
  have hpayload := payload.length_encode_pos
  simp only [encode, h, Option.map_some, Option.getD_some, List.length_append]
  omega

end ServerMessage

end Stalker2D.Protocol
