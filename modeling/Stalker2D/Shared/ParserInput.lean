import Stalker2D.Shared.Connection
import Stalker2D.Shared.MessageChannel

/-!
# The size the parser is given

`readMessage` checks the size of a frame as an unsigned number and hands it to
`ParseFromArray` as an `int`. The limit is any number but zero, so a frame of `2 ^ 31`
bytes or more may pass the check, and its size arrives at the parser as a negative number.
-/

namespace Stalker2D.Network.MessageChannel

variable {μ : Type}

/-- `readMessage` with the arguments of `ParseFromArray` in place of its result. -/
def parserInput (native : Endian) (channel : MessageChannel) (stream : List UInt8) :
    Except Exception (List UInt8 × Int32) × MessageChannel × List UInt8 :=
  readMessage (fun bytes size => some (bytes, size)) native channel stream

/-- They are the arguments, whatever the parser makes of them. -/
theorem readMessage_eq (parseFromArray : List UInt8 → Int32 → Option μ) (native : Endian)
    (channel : MessageChannel) (stream : List UInt8) :
    readMessage parseFromArray native channel stream =
      match parserInput native channel stream with
      | (.error e, channel, stream) => (.error e, channel, stream)
      | (.ok (bytes, size), channel, stream) =>
        match parseFromArray bytes size with
        | none =>
          (.error (.runtimeError "Failed to parse received message to protobuf"), channel, stream)
        | some message => (.ok message, channel, stream) := by
  simp only [parserInput, readMessage]
  rcases asyncRead stream (List.replicate 4 0) with ⟨e | _, bytes, stream⟩
  · rfl
  · dsimp only
    cases channel.frameCodec.decodeLengthPrefix native (lengthPrefixOf bytes) with
    | error e => rfl
    | ok size =>
      dsimp only
      rcases asyncRead stream (resize channel.readBuffer size.toNat) with ⟨e | _, buffer, stream⟩
      · rfl
      · rfl

theorem asyncRead_eq_ok {stream buffer bytes rest : List UInt8} {u : Unit}
    (h : asyncRead stream buffer = (.ok u, bytes, rest)) :
    stream = bytes ++ rest ∧ bytes.length = buffer.length := by
  rw [asyncRead] at h
  split at h
  next hle =>
    cases h
    exact ⟨(List.take_append_drop _ _).symm, List.length_take_of_le hle⟩
  next => cases h

theorem toList_lengthPrefixOf {bytes : List UInt8} (h : bytes.length = 4) :
    (lengthPrefixOf bytes).toList = bytes := by
  match bytes, h with
  | [_, _, _, _], _ => rfl

/-- A frame as a peer may send it, and what follows it on the stream. -/
structure Framed (limit : UInt32) (stream payload rest : List UInt8) : Prop where
  split : ∃ lengthPrefix : LengthPrefix, stream = lengthPrefix.toList ++ (payload ++ rest) ∧
    lengthPrefix.bigEndian = payload.length
  nonempty : 1 ≤ payload.length
  fits : payload.length ≤ limit.toNat

theorem Framed.toNat_length {limit : UInt32} {stream payload rest : List UInt8}
    (h : Framed limit stream payload rest) :
    (UInt32.ofNat payload.length).toNat = payload.length :=
  UInt32.toNat_ofNat_of_lt' (Nat.lt_of_le_of_lt h.fits limit.toNat_lt)

variable {native : Endian} {channel : MessageChannel} {stream payload rest : List UInt8}

theorem parserInput_of_framed (h : Framed channel.frameCodec.maxPayloadSize stream payload rest) :
    parserInput native channel stream =
      (.ok (payload, (UInt32.ofNat payload.length).toInt32),
        { channel with readBuffer := payload }, rest) := by
  obtain ⟨lengthPrefix, rfl, hvalue⟩ := h.split
  have hsize : Endian.big.ofBytes lengthPrefix = UInt32.ofNat payload.length := by
    rw [← UInt32.toNat_inj, Endian.toNat_ofBytes_big, hvalue, h.toNat_length]
  have hvalid : 1 ≤ (UInt32.ofNat payload.length).toNat ∧
      (UInt32.ofNat payload.length).toNat ≤ channel.frameCodec.maxPayloadSize.toNat := by
    rw [h.toNat_length]
    exact ⟨h.nonempty, h.fits⟩
  have hdecode : channel.frameCodec.decodeLengthPrefix native lengthPrefix =
      .ok (UInt32.ofNat payload.length) :=
    MessageFrameCodec.decodeLengthPrefix_eq_ok.mpr
      ⟨MessageFrameCodec.validSize_iff.mpr hvalid, hsize.symm⟩
  have hpayload : payload.length =
      (resize channel.readBuffer (UInt32.ofNat payload.length).toNat).length := by
    rw [length_resize, h.toNat_length]
  rw [parserInput, readMessage, asyncRead_lengthPrefix]
  simp only [lengthPrefixOf_toList, hdecode, asyncRead_append hpayload]

/-- The parser is called for a frame that has come completely, and for nothing else. -/
theorem parserInput_eq_ok {bytes : List UInt8} {size : Int32} {next : MessageChannel} :
    parserInput native channel stream = (.ok (bytes, size), next, rest) ↔
      Framed channel.frameCodec.maxPayloadSize stream bytes rest ∧
        size = (UInt32.ofNat bytes.length).toInt32 ∧
        next = { channel with readBuffer := bytes } := by
  constructor
  · intro h
    rw [parserInput, readMessage] at h
    rcases hread : asyncRead stream (List.replicate 4 0) with ⟨e | _, four, tail⟩
    · rw [hread] at h
      cases h
    · obtain ⟨rfl, hfour⟩ := asyncRead_eq_ok hread
      rw [hread] at h
      dsimp only at h
      cases hdecode : channel.frameCodec.decodeLengthPrefix native (lengthPrefixOf four) with
      | error e =>
        rw [hdecode] at h
        cases h
      | ok value =>
        rw [hdecode] at h
        dsimp only at h
        rcases hpayload : asyncRead tail (resize channel.readBuffer value.toNat) with
          ⟨e | _, buffer, after⟩
        · rw [hpayload] at h
          cases h
        · obtain ⟨rfl, hlength⟩ := asyncRead_eq_ok hpayload
          rw [hpayload] at h
          cases h
          obtain ⟨hvalid, hvalue⟩ := MessageFrameCodec.decodeLengthPrefix_eq_ok.mp hdecode
          rw [MessageFrameCodec.validSize_iff] at hvalid
          rw [length_resize] at hlength
          have hbig : (lengthPrefixOf four).bigEndian = value.toNat := by
            rw [hvalue, Endian.toNat_ofBytes_big]
          refine ⟨⟨⟨lengthPrefixOf four, ?_, ?_⟩, ?_, ?_⟩, ?_, rfl⟩
          · rw [toList_lengthPrefixOf hfour]
          · rw [hbig, hlength]
          · rw [hlength]
            exact hvalid.1
          · rw [hlength]
            exact hvalid.2
          · rw [hlength, UInt32.ofNat_toNat]
  · rintro ⟨framed, rfl, rfl⟩
    exact parserInput_of_framed framed

variable {parseFromArray : List UInt8 → Int32 → Option μ}

/-- A frame whose message parses is read, and the reader stands at what follows it. -/
theorem readMessage_of_framed (h : Framed channel.frameCodec.maxPayloadSize stream payload rest)
    {message : μ}
    (parsed : parseFromArray payload (UInt32.ofNat payload.length).toInt32 = some message) :
    readMessage parseFromArray native channel stream =
      (.ok message, { channel with readBuffer := payload }, rest) := by
  rw [readMessage_eq, parserInput_of_framed h]
  simp only [parsed]

theorem framed_of_readMessage {message : μ} {next : MessageChannel}
    (h : readMessage parseFromArray native channel stream = (.ok message, next, rest)) :
    ∃ payload, Framed channel.frameCodec.maxPayloadSize stream payload rest ∧
      parseFromArray payload (UInt32.ofNat payload.length).toInt32 = some message ∧
      next = { channel with readBuffer := payload } := by
  rw [readMessage_eq] at h
  rcases hinput : parserInput native channel stream with ⟨e | ⟨bytes, size⟩, last, tail⟩
  · rw [hinput] at h
    cases h
  · obtain ⟨framed, rfl, rfl⟩ := parserInput_eq_ok.mp hinput
    rw [hinput] at h
    dsimp only at h
    split at h
    · cases h
    next parsed =>
      cases h
      exact ⟨bytes, framed, parsed, rfl⟩

/-- The channel and the stream after some messages have been read. -/
inductive ReadsTo (parseFromArray : List UInt8 → Int32 → Option μ) (native : Endian) :
    MessageChannel → List UInt8 → MessageChannel → List UInt8 → Prop
  | refl (channel : MessageChannel) (stream : List UInt8) :
      ReadsTo parseFromArray native channel stream channel stream
  | message {channel next last : MessageChannel} {stream rest tail : List UInt8} {message : μ}
      (read : readMessage parseFromArray native channel stream = (.ok message, next, rest))
      (more : ReadsTo parseFromArray native next rest last tail) :
      ReadsTo parseFromArray native channel stream last tail

/-- Whenever the parser is called, it is told how many bytes there are. -/
def TrueLengths (parseFromArray : List UInt8 → Int32 → Option μ) (native : Endian)
    (channel : MessageChannel) (stream : List UInt8) : Prop :=
  ∀ next rest, ReadsTo parseFromArray native channel stream next rest →
    ∀ bytes size, (parserInput native next rest).1 = .ok (bytes, size) →
      0 ≤ size.toInt ∧ size.toInt = bytes.length

/-- The stream has a frame with `length` payload bytes, and everything before it parses. -/
inductive HasFrame (parseFromArray : List UInt8 → Int32 → Option μ) (limit : UInt32) :
    List UInt8 → Nat → Prop
  | first {stream payload rest : List UInt8} (framed : Framed limit stream payload rest) :
      HasFrame parseFromArray limit stream payload.length
  | later {stream payload rest : List UInt8} {message : μ} {length : Nat}
      (framed : Framed limit stream payload rest)
      (parsed : parseFromArray payload (UInt32.ofNat payload.length).toInt32 = some message)
      (frame : HasFrame parseFromArray limit rest length) :
      HasFrame parseFromArray limit stream length

/-- The frames of a stream are what the parser is called for. -/
theorem HasFrame.reached {length : Nat}
    (h : HasFrame parseFromArray channel.frameCodec.maxPayloadSize stream length) :
    ∃ next rest bytes, ReadsTo parseFromArray native channel stream next rest ∧
      (parserInput native next rest).1 = .ok (bytes, (UInt32.ofNat length).toInt32) ∧
      bytes.length = length := by
  generalize hlimit : channel.frameCodec.maxPayloadSize = limit at h
  induction h generalizing channel with
  | first framed =>
    subst hlimit
    exact ⟨_, _, _, .refl _ _, congrArg Prod.fst (parserInput_of_framed framed), rfl⟩
  | @later stream payload rest message length framed parsed frame ih =>
    subst hlimit
    obtain ⟨next, rest', bytes, reads, hinput, hlength⟩ :=
      @ih { channel with readBuffer := payload } rfl
    exact ⟨next, rest', bytes, .message (readMessage_of_framed framed parsed) reads, hinput,
      hlength⟩

theorem ReadsTo.hasFrame {next : MessageChannel}
    (h : ReadsTo parseFromArray native channel stream next rest) {bytes : List UInt8} {size : Int32}
    (hinput : (parserInput native next rest).1 = .ok (bytes, size)) :
    HasFrame parseFromArray channel.frameCodec.maxPayloadSize stream bytes.length ∧
      size = (UInt32.ofNat bytes.length).toInt32 ∧ bytes.length < 2 ^ 32 := by
  induction h with
  | refl channel stream =>
    obtain ⟨framed, hsize, -⟩ := parserInput_eq_ok.mp (Prod.ext hinput rfl)
    exact ⟨.first framed, hsize, Nat.lt_of_le_of_lt framed.fits (UInt32.toNat_lt _)⟩
  | message read more ih =>
    obtain ⟨payload, framed, parsed, rfl⟩ := framed_of_readMessage read
    obtain ⟨frame, hsize⟩ := ih hinput
    exact ⟨.later framed parsed frame, hsize⟩

/-- The narrowing keeps exactly the sizes below `2 ^ 31`. -/
theorem toInt_toInt32_iff {length : Nat} (h : length < 2 ^ 32) :
    0 ≤ (UInt32.ofNat length).toInt32.toInt ∧ (UInt32.ofNat length).toInt32.toInt = length ↔
      length < 2 ^ 31 := by
  have hvalue : (UInt32.ofNat length).toBitVec.toNat = length := UInt32.toNat_ofNat_of_lt' h
  constructor
  · rintro ⟨-, hlength⟩
    have hlt := Int32.toInt_lt (UInt32.ofNat length).toInt32
    rw [hlength] at hlt
    exact Int.ofNat_lt.mp hlt
  · intro hlt
    have hsmall : 2 * (UInt32.ofNat length).toBitVec.toNat < 2 ^ 32 := by
      rw [hvalue]
      omega
    have hint : (UInt32.ofNat length).toInt32.toInt = length := by
      calc (UInt32.ofNat length).toInt32.toInt
          = (UInt32.ofNat length).toBitVec.toNat := BitVec.toInt_eq_toNat_of_lt hsmall
        _ = length := by rw [hvalue]
    rw [hint]
    exact ⟨Int.natCast_nonneg length, rfl⟩

/-- The largest frame under a limit, filled with zeros. -/
def largestFrame (limit : UInt32) : List UInt8 :=
  (Endian.big.toBytes limit).toList ++ List.replicate limit.toNat 0

theorem framed_largestFrame {limit : UInt32} (h : 0 < limit.toNat) :
    Framed limit (largestFrame limit) (List.replicate limit.toNat 0) [] where
  split := by
    refine ⟨Endian.big.toBytes limit, by rw [largestFrame, List.append_nil], ?_⟩
    rw [← Endian.toNat_ofBytes_big, Endian.ofBytes_toBytes, List.length_replicate]
  nonempty := by
    rw [List.length_replicate]
    exact h
  fits := Nat.le_of_eq List.length_replicate

/-- The parser gets the right length as long as no frame has `2 ^ 31` bytes or more; a
limit below `2 ^ 31` is what keeps such frames away on every stream. -/
theorem parser_given_length_iff (parseFromArray : List UInt8 → Int32 → Option μ)
    (native : Endian) (limit : UInt32) :
    (∀ stream, TrueLengths parseFromArray native (create limit) stream ↔
      ∀ length, HasFrame parseFromArray limit stream length → length < 2 ^ 31) ∧
      ((∀ stream, TrueLengths parseFromArray native (create limit) stream) ↔
        limit.toNat < 2 ^ 31) := by
  have hstream : ∀ stream, TrueLengths parseFromArray native (create limit) stream ↔
      ∀ length, HasFrame parseFromArray limit stream length → length < 2 ^ 31 := by
    intro stream
    constructor
    · intro truth length frame
      obtain ⟨next, rest, bytes, reads, hinput, rfl⟩ :=
        @HasFrame.reached _ native (create limit) _ _ _ frame
      exact (toInt_toInt32_iff (reads.hasFrame hinput).2.2).mp (truth _ _ reads _ _ hinput)
    · intro small next rest reads bytes size hinput
      obtain ⟨frame, rfl, hlt⟩ := reads.hasFrame hinput
      exact (toInt_toInt32_iff hlt).mpr (small _ frame)
  refine ⟨hstream, ?_, ?_⟩
  · intro truth
    by_contra hlarge
    have frame : HasFrame parseFromArray limit (largestFrame limit) _ :=
      .first (framed_largestFrame (by omega))
    have hlt := (hstream _).mp (truth _) _ frame
    rw [List.length_replicate] at hlt
    exact hlarge hlt
  · intro hlimit stream
    refine (hstream stream).mpr fun length frame => Nat.lt_of_le_of_lt ?_ hlimit
    induction frame with
    | first framed => exact framed.fits
    | later framed parsed frame ih => exact ih

/-- One frame of `2 ^ 31` bytes on a connection with the largest limit there is. -/
theorem parser_given_negative_length :
    Connection.validate ⟨4294967295, 1024⟩ = .ok () ∧
      ¬TrueLengths (fun _ _ => (none : Option Unit)) .little (create 4294967295)
        (#v[128, 0, 0, 0].toList ++ List.replicate 2147483648 0) := by
  refine ⟨rfl, ?_⟩
  have framed : Framed 4294967295 (#v[128, 0, 0, 0].toList ++ List.replicate 2147483648 0)
      (List.replicate 2147483648 0) [] := by
    refine ⟨⟨#v[128, 0, 0, 0], by rw [List.append_nil], ?_⟩, ?_, ?_⟩
    · rw [List.length_replicate]
      rfl
    · rw [List.length_replicate]
      decide
    · rw [List.length_replicate]
      decide
  intro truth
  have hinput := @parserInput_of_framed .little (create 4294967295) _ _ _ framed
  obtain ⟨hnonneg, -⟩ := truth _ _ (.refl _ _) _ _ (congrArg Prod.fst hinput)
  rw [List.length_replicate] at hnonneg
  exact absurd hnonneg (by decide)

end Stalker2D.Network.MessageChannel
