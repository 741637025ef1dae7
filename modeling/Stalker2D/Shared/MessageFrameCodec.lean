import Mathlib.Algebra.Group.Nat.Defs
import Stalker2D.Shared.Basic

/-!
# Frames on the wire

`MessageFrameCodec` and the synchronous part of `MessageChannel::writeMessage`. The
byte order of the host is a parameter: `std::bit_cast` depends on it and
`hostToNetwork32` undoes the dependence.
-/

namespace Stalker2D.Network

/-- `std::endian::native`. -/
inductive Endian
  | little
  | big
  deriving DecidableEq, Repr

/-- `LengthPrefix`: an array of `length_prefix_size` bytes. -/
abbrev LengthPrefix := Vector UInt8 4

/-- The number in a prefix whose first byte is the most significant one. -/
def LengthPrefix.bigEndian (bytes : LengthPrefix) : Nat :=
  bytes[0].toNat * 2 ^ 24 + bytes[1].toNat * 2 ^ 16 + bytes[2].toNat * 2 ^ 8 + bytes[3].toNat

theorem LengthPrefix.ext {bytes bytes' : LengthPrefix} (h₀ : bytes[0] = bytes'[0])
    (h₁ : bytes[1] = bytes'[1]) (h₂ : bytes[2] = bytes'[2]) (h₃ : bytes[3] = bytes'[3]) :
    bytes = bytes' := by
  apply Vector.ext
  intro i hi
  match i, hi with
  | 0, _ => exact h₀
  | 1, _ => exact h₁
  | 2, _ => exact h₂
  | 3, _ => exact h₃

namespace Endian

/-- `std::bit_cast<LengthPrefix>`: the four bytes as they lie in memory. -/
def toBytes (native : Endian) (value : UInt32) : LengthPrefix :=
  match native with
  | .big => #v[(value >>> 24).toUInt8, (value >>> 16).toUInt8, (value >>> 8).toUInt8, value.toUInt8]
  | .little =>
    #v[value.toUInt8, (value >>> 8).toUInt8, (value >>> 16).toUInt8, (value >>> 24).toUInt8]

/-- `std::bit_cast<std::uint32_t>`. -/
def ofBytes (native : Endian) (bytes : LengthPrefix) : UInt32 :=
  match native with
  | .big => (bytes[0].toUInt32 <<< 24) ||| (bytes[1].toUInt32 <<< 16) |||
      (bytes[2].toUInt32 <<< 8) ||| bytes[3].toUInt32
  | .little => (bytes[3].toUInt32 <<< 24) ||| (bytes[2].toUInt32 <<< 16) |||
      (bytes[1].toUInt32 <<< 8) ||| bytes[0].toUInt32

end Endian

/-- `std::byteswap`. -/
def byteswap (value : UInt32) : UInt32 :=
  (value <<< 24) ||| ((value &&& (0xff00 : UInt32)) <<< 8) |||
    ((value >>> 8) &&& (0xff00 : UInt32)) ||| (value >>> 24)

/-- Bit `i` of byte `b` moves to byte `3 - b`. -/
theorem getLsbD_byteswap (value : UInt32) {i : Nat} (hi : i < 32) :
    (byteswap value).toBitVec.getLsbD i = value.toBitVec.getLsbD ((3 - i / 8) * 8 + i % 8) := by
  have mask : ∀ j < 32, (65280#32).getLsbD j = (decide (8 ≤ j) && decide (j < 16)) := by decide
  simp only [byteswap, UInt32.toBitVec_or, UInt32.toBitVec_and, UInt32.toBitVec_shiftLeft,
    UInt32.toBitVec_shiftRight, UInt32.toBitVec_ofNat, BitVec.shiftLeft_eq',
    BitVec.ushiftRight_eq', BitVec.getLsbD_or, BitVec.getLsbD_and, BitVec.getLsbD_shiftLeft,
    BitVec.getLsbD_ushiftRight]
  grind

theorem byteswap_byteswap (value : UInt32) : byteswap (byteswap value) = value := by
  apply UInt32.toBitVec_inj.mp
  apply BitVec.eq_of_getLsbD_eq
  intro i hi
  have hplace : (3 - i / 8) * 8 + i % 8 < 32 := by omega
  rw [getLsbD_byteswap _ hi, getLsbD_byteswap _ hplace]
  congr 1
  omega

theorem toUInt8_byteswap (value : UInt32) :
    (byteswap value).toUInt8 = (value >>> 24).toUInt8 ∧
      (byteswap value >>> 8).toUInt8 = (value >>> 16).toUInt8 ∧
      (byteswap value >>> 16).toUInt8 = (value >>> 8).toUInt8 ∧
      (byteswap value >>> 24).toUInt8 = value.toUInt8 := by
  have byte : ∀ x : UInt32, x.toUInt8.toBitVec = x.toBitVec.setWidth 8 := fun _ => rfl
  have swapped := fun i (hi : i < 32) => getLsbD_byteswap value hi
  refine ⟨?_, ?_, ?_, ?_⟩
  all_goals
    apply UInt8.toBitVec_inj.mp
    apply BitVec.eq_of_getLsbD_eq
    intro i hi
    simp only [byte, UInt32.toBitVec_shiftRight, UInt32.toBitVec_ofNat, BitVec.ushiftRight_eq',
      BitVec.getLsbD_setWidth, BitVec.getLsbD_ushiftRight]
    grind

namespace Endian

theorem ofBytes_toBytes (native : Endian) (value : UInt32) :
    native.ofBytes (native.toBytes value) = value := by
  have hbytes : native.ofBytes (native.toBytes value) =
      (value >>> 24).toUInt8.toUInt32 <<< 24 ||| (value >>> 16).toUInt8.toUInt32 <<< 16 |||
        (value >>> 8).toUInt8.toUInt32 <<< 8 ||| value.toUInt8.toUInt32 := by
    cases native <;> rfl
  rw [hbytes]
  apply UInt32.toBitVec_inj.mp
  apply BitVec.eq_of_getLsbD_eq
  intro i hi
  have byte : ∀ x : UInt32, x.toUInt8.toUInt32.toBitVec = (x.toBitVec.setWidth 8).setWidth 32 :=
    fun _ => rfl
  simp only [UInt32.toBitVec_or, UInt32.toBitVec_shiftLeft, UInt32.toBitVec_shiftRight, byte,
    UInt32.toBitVec_ofNat, BitVec.shiftLeft_eq', BitVec.ushiftRight_eq', BitVec.getLsbD_or,
    BitVec.getLsbD_shiftLeft, BitVec.getLsbD_setWidth, BitVec.getLsbD_ushiftRight]
  grind

theorem byte_ofBytes (b₀ b₁ b₂ b₃ : UInt8) :
    let value := b₀.toUInt32 <<< 24 ||| b₁.toUInt32 <<< 16 ||| b₂.toUInt32 <<< 8 ||| b₃.toUInt32
    (value >>> 24).toUInt8 = b₀ ∧ (value >>> 16).toUInt8 = b₁ ∧ (value >>> 8).toUInt8 = b₂ ∧
      value.toUInt8 = b₃ := by
  intro value
  have byte : ∀ x : UInt32, x.toUInt8.toBitVec = x.toBitVec.setWidth 8 := fun _ => rfl
  have word : ∀ b : UInt8, b.toUInt32.toBitVec = b.toBitVec.setWidth 32 := fun _ => rfl
  refine ⟨?_, ?_, ?_, ?_⟩
  all_goals
    apply UInt8.toBitVec_inj.mp
    apply BitVec.eq_of_getLsbD_eq
    intro i hi
    simp only [value, byte, word, UInt32.toBitVec_or, UInt32.toBitVec_shiftLeft,
      UInt32.toBitVec_shiftRight, UInt32.toBitVec_ofNat, BitVec.shiftLeft_eq',
      BitVec.ushiftRight_eq', BitVec.getLsbD_or, BitVec.getLsbD_shiftLeft,
      BitVec.getLsbD_setWidth, BitVec.getLsbD_ushiftRight]
    grind

theorem toBytes_ofBytes (native : Endian) (bytes : LengthPrefix) :
    native.toBytes (native.ofBytes bytes) = bytes := by
  cases native with
  | big =>
    obtain ⟨h₀, h₁, h₂, h₃⟩ := byte_ofBytes bytes[0] bytes[1] bytes[2] bytes[3]
    exact LengthPrefix.ext h₀ h₁ h₂ h₃
  | little =>
    obtain ⟨h₃, h₂, h₁, h₀⟩ := byte_ofBytes bytes[3] bytes[2] bytes[1] bytes[0]
    exact LengthPrefix.ext h₀ h₁ h₂ h₃

/-- The digits of a value to the base 256, the most significant one first. -/
theorem toNat_toBytes_big (value : UInt32) :
    (big.toBytes value)[0].toNat = value.toNat / 2 ^ 24 ∧
      (big.toBytes value)[1].toNat = value.toNat / 2 ^ 16 % 256 ∧
      (big.toBytes value)[2].toNat = value.toNat / 2 ^ 8 % 256 ∧
      (big.toBytes value)[3].toNat = value.toNat % 256 := by
  have hlt := value.toNat_lt
  have byte : ∀ s : UInt32, s < 32 →
      (value >>> s).toUInt8.toNat = value.toNat / 2 ^ s.toNat % 256 := by
    intro s hs
    have hs32 : s.toNat < 32 := UInt32.lt_iff_toNat_lt.mp hs
    rw [UInt32.toNat_toUInt8, UInt32.toNat_shiftRight, Nat.mod_eq_of_lt hs32,
      Nat.shiftRight_eq_div_pow]
  refine ⟨?_, byte 16 (by decide), byte 8 (by decide), UInt32.toNat_toUInt8 value⟩
  have htop : value.toNat / 2 ^ 24 < 256 := by omega
  exact (byte 24 (by decide)).trans (Nat.mod_eq_of_lt htop)

theorem toNat_ofBytes_big (bytes : LengthPrefix) :
    (big.ofBytes bytes).toNat = bytes.bigEndian := by
  have hlt := (big.ofBytes bytes).toNat_lt
  obtain ⟨h₀, h₁, h₂, h₃⟩ := toNat_toBytes_big (big.ofBytes bytes)
  rw [toBytes_ofBytes] at h₀ h₁ h₂ h₃
  rw [LengthPrefix.bigEndian, h₀, h₁, h₂, h₃]
  omega

end Endian

structure MessageFrameCodec where
  maxPayloadSize : UInt32
  deriving DecidableEq, Repr

namespace MessageFrameCodec

def hostToNetwork32 (native : Endian) (value : UInt32) : UInt32 :=
  match native with
  | .little => byteswap value
  | .big => value

def networkToHost32 (native : Endian) (value : UInt32) : UInt32 := hostToNetwork32 native value

def validatePayloadSize (codec : MessageFrameCodec) (payloadSize : UInt32) :
    Except Exception Unit :=
  if payloadSize = 0 then
    .error (.runtimeError "Message frame has zero-length protobuf payload")
  else if codec.maxPayloadSize < payloadSize then
    .error (.runtimeError "Message frame is bigger than max_message_size")
  else .ok ()

def encodeUncheckedLengthPrefix (native : Endian) (payloadSize : UInt32) : LengthPrefix :=
  native.toBytes (hostToNetwork32 native payloadSize)

def encodeLengthPrefix (codec : MessageFrameCodec) (native : Endian) (payloadSize : UInt32) :
    Except Exception LengthPrefix := do
  codec.validatePayloadSize payloadSize
  return encodeUncheckedLengthPrefix native payloadSize

def decodeLengthPrefix (codec : MessageFrameCodec) (native : Endian) (lengthPrefix : LengthPrefix) :
    Except Exception UInt32 := do
  let payloadSize := networkToHost32 native (native.ofBytes lengthPrefix)
  codec.validatePayloadSize payloadSize
  return payloadSize

theorem validatePayloadSize_eq_ok {codec : MessageFrameCodec} {payloadSize : UInt32} :
    codec.validatePayloadSize payloadSize = .ok () ↔
      payloadSize ≠ 0 ∧ payloadSize ≤ codec.maxPayloadSize := by
  simp only [validatePayloadSize]
  split
  · simp_all
  · split
    next hlt => simp [hlt]
    next hle => simp_all

theorem validSize_iff {codec : MessageFrameCodec} {payloadSize : UInt32} :
    (payloadSize ≠ 0 ∧ payloadSize ≤ codec.maxPayloadSize) ↔
      1 ≤ payloadSize.toNat ∧ payloadSize.toNat ≤ codec.maxPayloadSize.toNat := by
  rw [UInt32.le_iff_toNat_le, Nat.one_le_iff_ne_zero, ne_eq, ne_eq, ← UInt32.toNat_inj]
  rfl

theorem encodeLengthPrefix_eq_ok {codec : MessageFrameCodec} {native : Endian}
    {payloadSize : UInt32} {lengthPrefix : LengthPrefix} :
    codec.encodeLengthPrefix native payloadSize = .ok lengthPrefix ↔
      (payloadSize ≠ 0 ∧ payloadSize ≤ codec.maxPayloadSize) ∧
        lengthPrefix = encodeUncheckedLengthPrefix native payloadSize := by
  rw [← validatePayloadSize_eq_ok, encodeLengthPrefix]
  cases codec.validatePayloadSize payloadSize with
  | error e => simp [bind, Except.bind]
  | ok _ => simp [bind, Except.bind, pure, Except.pure, eq_comm]

/-- On every host the length goes out in network byte order. -/
theorem encodeUncheckedLengthPrefix_eq (native : Endian) (payloadSize : UInt32) :
    encodeUncheckedLengthPrefix native payloadSize = Endian.big.toBytes payloadSize := by
  cases native with
  | big => rfl
  | little =>
    obtain ⟨h₀, h₁, h₂, h₃⟩ := toUInt8_byteswap payloadSize
    simp only [encodeUncheckedLengthPrefix, hostToNetwork32, Endian.toBytes, h₀, h₁, h₂, h₃]

theorem networkToHost32_hostToNetwork32 (native : Endian) (value : UInt32) :
    networkToHost32 native (hostToNetwork32 native value) = value := by
  cases native with
  | big => rfl
  | little => exact byteswap_byteswap value

/-- On every host the four bytes are read as a number in network byte order. -/
theorem networkToHost32_ofBytes (native : Endian) (bytes : LengthPrefix) :
    networkToHost32 native (native.ofBytes bytes) = Endian.big.ofBytes bytes := by
  have hbytes : native.toBytes (hostToNetwork32 native (Endian.big.ofBytes bytes)) = bytes := by
    have h := encodeUncheckedLengthPrefix_eq native (Endian.big.ofBytes bytes)
    rwa [Endian.toBytes_ofBytes] at h
  calc networkToHost32 native (native.ofBytes bytes)
      = networkToHost32 native (hostToNetwork32 native (Endian.big.ofBytes bytes)) := by
        conv_lhs => rw [← hbytes, Endian.ofBytes_toBytes]
    _ = Endian.big.ofBytes bytes := networkToHost32_hostToNetwork32 native _

theorem decodeLengthPrefix_eq_ok {codec : MessageFrameCodec} {native : Endian}
    {lengthPrefix : LengthPrefix} {payloadSize : UInt32} :
    codec.decodeLengthPrefix native lengthPrefix = .ok payloadSize ↔
      (payloadSize ≠ 0 ∧ payloadSize ≤ codec.maxPayloadSize) ∧
        payloadSize = Endian.big.ofBytes lengthPrefix := by
  rw [decodeLengthPrefix, networkToHost32_ofBytes, ← validatePayloadSize_eq_ok]
  cases h : codec.validatePayloadSize (Endian.big.ofBytes lengthPrefix) with
  | error e =>
    simp only [bind, Except.bind, reduceCtorEq, false_iff, not_and]
    rintro hvalid rfl
    rw [h] at hvalid
    cases hvalid
  | ok _ =>
    simp only [bind, Except.bind, pure, Except.pure, Except.ok.injEq]
    constructor
    · rintro rfl
      exact ⟨h, rfl⟩
    · exact fun hsize => hsize.2.symm

/-- The prefix of one host is read by another, and checked against the limit of the reader. -/
theorem decodeLengthPrefix_eq (codec : MessageFrameCodec) (native native' : Endian)
    (payloadSize : UInt32) :
    codec.decodeLengthPrefix native' (encodeUncheckedLengthPrefix native payloadSize) =
      (codec.validatePayloadSize payloadSize).map fun _ => payloadSize := by
  rw [encodeUncheckedLengthPrefix_eq, ← encodeUncheckedLengthPrefix_eq native']
  simp only [decodeLengthPrefix, encodeUncheckedLengthPrefix, Endian.ofBytes_toBytes,
    networkToHost32_hostToNetwork32]
  cases codec.validatePayloadSize payloadSize with
  | error e => rfl
  | ok _ => rfl

theorem decodeLengthPrefix_encodeUncheckedLengthPrefix {codec : MessageFrameCodec}
    (native native' : Endian) {payloadSize : UInt32} (hzero : payloadSize ≠ 0)
    (hmax : payloadSize ≤ codec.maxPayloadSize) :
    codec.decodeLengthPrefix native' (encodeUncheckedLengthPrefix native payloadSize) =
      .ok payloadSize := by
  rw [decodeLengthPrefix_eq, validatePayloadSize_eq_ok.mpr ⟨hzero, hmax⟩]
  rfl

theorem decodeLengthPrefix_of_lt {codec : MessageFrameCodec} (native native' : Endian)
    {payloadSize : UInt32} (hmax : codec.maxPayloadSize < payloadSize) :
    ∃ error, codec.decodeLengthPrefix native' (encodeUncheckedLengthPrefix native payloadSize) =
      .error error := by
  rw [decodeLengthPrefix_eq]
  cases hvalid : codec.validatePayloadSize payloadSize with
  | error e => exact ⟨e, rfl⟩
  | ok _ =>
    have hle := (validatePayloadSize_eq_ok.mp hvalid).2
    rw [UInt32.le_iff_toNat_le] at hle
    rw [UInt32.lt_iff_toNat_lt] at hmax
    omega

/-- On either kind of host the two functions are inverse to each other, between the sizes
from 1 to the limit and the prefixes that hold such a number. -/
theorem length_prefix_bijection (codec : MessageFrameCodec) (native : Endian) :
    (∀ payloadSize lengthPrefix, codec.encodeLengthPrefix native payloadSize = .ok lengthPrefix ↔
      (1 ≤ payloadSize.toNat ∧ payloadSize.toNat ≤ codec.maxPayloadSize.toNat) ∧
        lengthPrefix[0].toNat = payloadSize.toNat / 2 ^ 24 ∧
        lengthPrefix[1].toNat = payloadSize.toNat / 2 ^ 16 % 256 ∧
        lengthPrefix[2].toNat = payloadSize.toNat / 2 ^ 8 % 256 ∧
        lengthPrefix[3].toNat = payloadSize.toNat % 256) ∧
      (∀ payloadSize lengthPrefix,
        codec.decodeLengthPrefix native lengthPrefix = .ok payloadSize ↔
          (1 ≤ lengthPrefix.bigEndian ∧ lengthPrefix.bigEndian ≤ codec.maxPayloadSize.toNat) ∧
            payloadSize.toNat = lengthPrefix.bigEndian) ∧
      (∀ payloadSize lengthPrefix, codec.encodeLengthPrefix native payloadSize = .ok lengthPrefix →
        codec.decodeLengthPrefix native lengthPrefix = .ok payloadSize) ∧
      ∀ payloadSize lengthPrefix, codec.decodeLengthPrefix native lengthPrefix = .ok payloadSize →
        codec.encodeLengthPrefix native payloadSize = .ok lengthPrefix := by
  refine ⟨?encode, ?decode, ?decodeEncode, ?encodeDecode⟩
  case encode =>
    intro payloadSize lengthPrefix
    rw [encodeLengthPrefix_eq_ok, encodeUncheckedLengthPrefix_eq, validSize_iff]
    refine and_congr_right fun _ => ?_
    obtain ⟨h₀, h₁, h₂, h₃⟩ := Endian.toNat_toBytes_big payloadSize
    rw [← h₀, ← h₁, ← h₂, ← h₃]
    simp only [UInt8.toNat_inj]
    constructor
    · rintro rfl
      exact ⟨rfl, rfl, rfl, rfl⟩
    · rintro ⟨g₀, g₁, g₂, g₃⟩
      exact LengthPrefix.ext g₀ g₁ g₂ g₃
  case decode =>
    intro payloadSize lengthPrefix
    rw [decodeLengthPrefix_eq_ok, validSize_iff, ← Endian.toNat_ofBytes_big, UInt32.toNat_inj]
    constructor
    · rintro ⟨hvalid, rfl⟩
      exact ⟨hvalid, rfl⟩
    · rintro ⟨hvalid, rfl⟩
      exact ⟨hvalid, rfl⟩
  case decodeEncode =>
    intro payloadSize lengthPrefix h
    obtain ⟨hvalid, rfl⟩ := encodeLengthPrefix_eq_ok.mp h
    exact decodeLengthPrefix_encodeUncheckedLengthPrefix native native hvalid.1 hvalid.2
  case encodeDecode =>
    intro payloadSize lengthPrefix h
    obtain ⟨hvalid, rfl⟩ := decodeLengthPrefix_eq_ok.mp h
    refine encodeLengthPrefix_eq_ok.mpr ⟨hvalid, ?_⟩
    rw [encodeUncheckedLengthPrefix_eq, Endian.toBytes_ofBytes]

end MessageFrameCodec

/-- What `writeMessage` prepares before its first `async_write`: `data` is what
`SerializeToString` gave, and the two results are the buffers of the two writes. -/
def MessageChannel.prepare (codec : MessageFrameCodec) (native : Endian)
    (data : Option (List UInt8)) : Except Exception (List UInt8 × List UInt8) :=
  match data with
  | none => .error (.runtimeError "Failed to serialize message")
  | some data =>
    if codec.maxPayloadSize.toNat < data.length then
      .error (.runtimeError "Serialized server message is bigger than max_message_size")
    else do
      let lengthPrefix ← codec.encodeLengthPrefix native (UInt32.ofNat data.length)
      return (lengthPrefix.toList, data)

end Stalker2D.Network
