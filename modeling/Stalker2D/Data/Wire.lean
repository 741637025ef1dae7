import Mathlib.Data.List.Basic

/-!
# The binary wire format of proto3

A message is the concatenation of its fields, each a tag and a value: a base-128 varint, or
a length and that many bytes. A scalar field that has its default value is left out, a
message in a `oneof` never is, so a message may well be encoded as nothing.

The lemmas bound the length of each kind of field.
-/

namespace Stalker2D.Wire

/-- At most `n` groups of seven bits, the least significant first; all but the last have
their high bit set. -/
def groups : Nat → Nat → List UInt8
  | 0, _ => []
  | n + 1, value =>
    if value < 128 then [UInt8.ofNat value]
    else UInt8.ofNat (value % 128 + 128) :: groups n (value / 128)

/-- Ten groups hold 64 bits. -/
def varint (value : UInt64) : List UInt8 := groups 10 value.toNat

/-- Wire type 0 is a varint, 2 is length-delimited. -/
def tag (field wireType : Nat) : List UInt8 := varint (UInt64.ofNat (field * 8 + wireType))

def lengthDelimited (field : Nat) (payload : List UInt8) : List UInt8 :=
  tag field 2 ++ varint (UInt64.ofNat payload.length) ++ payload

def uint64Field (field : Nat) (value : UInt64) : List UInt8 :=
  if value = 0 then [] else tag field 0 ++ varint value

/-- An `int32` or an `enum`; a negative number is extended to 64 bits. -/
def int32Field (field : Nat) (value : Int) : List UInt8 := uint64Field field (UInt64.ofInt value)

def stringField (field : Nat) (value : String) : List UInt8 :=
  if value = "" then [] else lengthDelimited field value.toUTF8.data.toList

example : varint 300 = [0xac, 0x02] := by decide

theorem length_groups_le (n value : Nat) : (groups n value).length ≤ n := by
  induction n generalizing value with
  | zero => exact Nat.le_refl 0
  | succ n ih =>
    simp only [groups]
    split
    · exact Nat.succ_le_succ (Nat.zero_le n)
    · exact Nat.succ_le_succ (ih (value / 128))

theorem length_groups_pos (n value : Nat) : 0 < (groups (n + 1) value).length := by
  rw [groups]
  split
  · exact Nat.one_pos
  · exact Nat.succ_pos _

theorem length_varint_le (value : UInt64) : (varint value).length ≤ 10 :=
  length_groups_le 10 value.toNat

theorem length_varint_pos (value : UInt64) : 0 < (varint value).length :=
  length_groups_pos 9 value.toNat

theorem length_tag_le (field wireType : Nat) : (tag field wireType).length ≤ 10 :=
  length_varint_le _

theorem length_lengthDelimited_le (field : Nat) (payload : List UInt8) :
    (lengthDelimited field payload).length ≤ payload.length + 20 := by
  have htag := length_tag_le field 2
  have hlength := length_varint_le (UInt64.ofNat payload.length)
  simp only [lengthDelimited, List.length_append]
  omega

theorem length_lengthDelimited_pos (field : Nat) (payload : List UInt8) :
    0 < (lengthDelimited field payload).length := by
  have hlength := length_varint_pos (UInt64.ofNat payload.length)
  simp only [lengthDelimited, List.length_append]
  omega

theorem length_uint64Field_le (field : Nat) (value : UInt64) :
    (uint64Field field value).length ≤ 20 := by
  simp only [uint64Field]
  split
  · exact Nat.zero_le 20
  · have htag := length_tag_le field 0
    have hvalue := length_varint_le value
    rw [List.length_append]
    omega

theorem length_int32Field_le (field : Nat) (value : Int) :
    (int32Field field value).length ≤ 20 := length_uint64Field_le field _

theorem length_stringField_le (field : Nat) (value : String) :
    (stringField field value).length ≤ value.utf8ByteSize + 20 := by
  simp only [stringField]
  split
  · exact Nat.zero_le _
  · exact length_lengthDelimited_le field _

end Stalker2D.Wire
