import Stalker2D.Shared.MessageFrameCodec
import Stalker2D.Shared.Protocol

/-!
# Messages on a byte stream

`MessageChannel` over the bytes of a socket. A stream is what is still to come before its
end: `async_read` fills its buffer or fails at the end, and `async_write` puts all its
bytes on the wire. `ParseFromArray` and `SerializeToString` are parameters.
-/

namespace Stalker2D

/-- `asio::error::eof`. -/
def ErrorCode.eof : ErrorCode := .other 2

namespace Network

structure MessageChannel where
  frameCodec : MessageFrameCodec
  readBuffer : List UInt8
  deriving DecidableEq, Repr

namespace MessageChannel

variable {μ : Type}

def create (maxMessageSize : UInt32 := 1024 * 1024) : MessageChannel :=
  { frameCodec := ⟨maxMessageSize⟩, readBuffer := List.replicate maxMessageSize.toNat 0 }

/-- `std::vector::resize`. -/
def resize (buffer : List UInt8) (size : Nat) : List UInt8 :=
  buffer.take size ++ List.replicate (size - buffer.length) 0

/-- Fill `buffer` from `stream`: the outcome, the buffer and the rest of the stream. -/
def asyncRead (stream buffer : List UInt8) : Except Exception Unit × List UInt8 × List UInt8 :=
  if buffer.length ≤ stream.length then
    (.ok (), stream.take buffer.length, stream.drop buffer.length)
  else (.error (.systemError .eof ""), stream ++ buffer.drop stream.length, [])

/-- The array of the prefix out of the bytes that were read into it. -/
def lengthPrefixOf (bytes : List UInt8) : LengthPrefix :=
  #v[bytes[0]?.getD 0, bytes[1]?.getD 0, bytes[2]?.getD 0, bytes[3]?.getD 0]

section Read

variable (parseFromArray : List UInt8 → Int32 → Option μ) (native : Endian)

def readMessage (channel : MessageChannel) (stream : List UInt8) :
    Except Exception μ × MessageChannel × List UInt8 :=
  match asyncRead stream (List.replicate 4 0) with
  | (.error e, _, stream) => (.error e, channel, stream)
  | (.ok _, bytes, stream) =>
    match channel.frameCodec.decodeLengthPrefix native (lengthPrefixOf bytes) with
    | .error e => (.error e, channel, stream)
    | .ok size =>
      match asyncRead stream (resize channel.readBuffer size.toNat) with
      | (.error e, readBuffer, stream) => (.error e, { channel with readBuffer }, stream)
      | (.ok _, readBuffer, stream) =>
        match parseFromArray readBuffer size.toInt32 with
        | none =>
          (.error (.runtimeError "Failed to parse received message to protobuf"),
            { channel with readBuffer }, stream)
        | some message => (.ok message, { channel with readBuffer }, stream)

/-- Up to `n` reads, one after the other until one fails. -/
def readMessages : Nat → MessageChannel → List UInt8 → List μ × Option Exception
  | 0, _, _ => ([], none)
  | n + 1, channel, stream =>
    match readMessage parseFromArray native channel stream with
    | (.error e, _, _) => ([], some e)
    | (.ok message, channel, stream) =>
      let (messages, error) := readMessages n channel stream
      (message :: messages, error)

end Read

section Write

variable (serializeToString : μ → Option (List UInt8)) (native : Endian)

def writeMessage (channel : MessageChannel) (wire : List UInt8) (message : μ) :
    Except Exception Unit × List UInt8 :=
  match prepare channel.frameCodec native (serializeToString message) with
  | .error e => (.error e, wire)
  | .ok (lengthPrefix, data) => (.ok (), wire ++ lengthPrefix ++ data)

/-- What a list of messages puts on the wire. -/
def writeMessages (channel : MessageChannel) (messages : List μ) : List UInt8 :=
  messages.foldl
    (fun wire message => (channel.writeMessage serializeToString native wire message).2) []

end Write

section Frame

variable {codec : MessageFrameCodec} {native native' : Endian} {data : List UInt8}

/-- The sizes that pass the checks on both sides. -/
def Framable (codec : MessageFrameCodec) (data : List UInt8) : Prop :=
  data ≠ [] ∧ data.length ≤ codec.maxPayloadSize.toNat

def frame (native : Endian) (data : List UInt8) : List UInt8 :=
  (MessageFrameCodec.encodeUncheckedLengthPrefix native (UInt32.ofNat data.length)).toList ++ data

@[simp] theorem length_frame : (frame native data).length = data.length + 4 := by
  rw [frame, List.length_append, Vector.length_toList, Nat.add_comm]

theorem Framable.toNat_length (h : Framable codec data) :
    (UInt32.ofNat data.length).toNat = data.length :=
  UInt32.toNat_ofNat_of_lt' (Nat.lt_of_le_of_lt h.2 codec.maxPayloadSize.toNat_lt)

theorem Framable.size_ne_zero (h : Framable codec data) : UInt32.ofNat data.length ≠ 0 := by
  intro hzero
  have hlength := h.toNat_length
  rw [hzero] at hlength
  exact h.1 (List.eq_nil_of_length_eq_zero hlength.symm)

theorem Framable.size_le (h : Framable codec data) :
    UInt32.ofNat data.length ≤ codec.maxPayloadSize := by
  rw [UInt32.le_iff_toNat_le, h.toNat_length]
  exact h.2

theorem Framable.length_le (h : Framable codec data) (hint : codec.maxPayloadSize ≤ 2147483647) :
    data.length ≤ 2147483647 :=
  Nat.le_trans h.2 (UInt32.le_iff_toNat_le.mp hint)

theorem Framable.prepare (h : Framable codec data) :
    prepare codec native (some data) = .ok
      ((MessageFrameCodec.encodeUncheckedLengthPrefix native (UInt32.ofNat data.length)).toList,
        data) := by
  have hencode : codec.encodeLengthPrefix native (UInt32.ofNat data.length) = .ok _ :=
    MessageFrameCodec.encodeLengthPrefix_eq_ok.mpr ⟨⟨h.size_ne_zero, h.size_le⟩, rfl⟩
  simp only [MessageChannel.prepare, if_neg (Nat.not_lt.mpr h.2), hencode]
  rfl

theorem prepare_of_not_framable (h : ¬Framable codec data) :
    ∃ error, prepare codec native (some data) = .error error := by
  simp only [MessageChannel.prepare]
  split
  · exact ⟨_, rfl⟩
  next hle =>
    obtain rfl : data = [] := by
      by_contra hne
      exact h ⟨hne, Nat.le_of_not_lt hle⟩
    exact ⟨_, rfl⟩

theorem lengthPrefixOf_toList (bytes : LengthPrefix) : lengthPrefixOf bytes.toList = bytes := by
  simp only [lengthPrefixOf, Vector.getElem?_toList]
  exact LengthPrefix.ext rfl rfl rfl rfl

@[simp] theorem length_resize (buffer : List UInt8) (size : Nat) :
    (resize buffer size).length = size := by
  rw [resize, List.length_append, List.length_take, List.length_replicate]
  omega

theorem asyncRead_append {bytes buffer : List UInt8} (hlength : bytes.length = buffer.length)
    (rest : List UInt8) : asyncRead (bytes ++ rest) buffer = (.ok (), bytes, rest) := by
  have hle : buffer.length ≤ (bytes ++ rest).length := by
    rw [List.length_append]
    omega
  rw [asyncRead, if_pos hle, ← hlength, List.take_left, List.drop_left]

theorem asyncRead_lengthPrefix (bytes : LengthPrefix) (rest : List UInt8) :
    asyncRead (bytes.toList ++ rest) (List.replicate 4 0) = (.ok (), bytes.toList, rest) :=
  asyncRead_append (by rw [Vector.length_toList, List.length_replicate]) rest

theorem asyncRead_of_lt {stream buffer : List UInt8} (h : stream.length < buffer.length) :
    asyncRead stream buffer =
      (.error (.systemError .eof ""), stream ++ buffer.drop stream.length, []) := by
  rw [asyncRead, if_neg (Nat.not_le.mpr h)]

end Frame

/-- `ParseFromArray` gives back what `SerializeToString` was given. -/
def Inverts (parseFromArray : List UInt8 → Int32 → Option μ)
    (serializeToString : μ → Option (List UInt8)) : Prop :=
  ∀ message data (size : Int32), serializeToString message = some data →
    size.toInt = data.length → parseFromArray data size = some message

section Stream

variable {parseFromArray : List UInt8 → Int32 → Option μ}
variable {serializeToString : μ → Option (List UInt8)}
variable {native native' : Endian} {reader writer : MessageChannel}

/-- A size below `2 ^ 31` is the same as an `int`. -/
theorem toInt_toInt32 {data : List UInt8} (hsize : data.length ≤ 2147483647) :
    (UInt32.ofNat data.length).toInt32.toInt = data.length := by
  have hlength : (UInt32.ofNat data.length).toNat = data.length :=
    UInt32.toNat_ofNat_of_lt' (Nat.lt_of_le_of_lt hsize (by decide))
  have hsmall : 2 * (UInt32.ofNat data.length).toBitVec.toNat < 2 ^ 32 := by
    rw [UInt32.toNat_toBitVec]
    omega
  calc (UInt32.ofNat data.length).toInt32.toInt
      = (UInt32.ofNat data.length).toBitVec.toNat := BitVec.toInt_eq_toNat_of_lt hsmall
    _ = data.length := by rw [UInt32.toNat_toBitVec, hlength]

/-- A complete frame at the head of the stream is read, whatever follows it. -/
theorem readMessage_frame (inverts : Inverts parseFromArray serializeToString) {message : μ}
    {data : List UInt8} (hsize : data.length ≤ 2147483647)
    (hdata : serializeToString message = some data) (framable : Framable reader.frameCodec data)
    (rest : List UInt8) :
    reader.readMessage parseFromArray native' (frame native data ++ rest) =
      (.ok message, { reader with readBuffer := data }, rest) := by
  have hdecode := MessageFrameCodec.decodeLengthPrefix_encodeUncheckedLengthPrefix native native'
    framable.size_ne_zero framable.size_le
  have hpayload : data.length =
      (resize reader.readBuffer (UInt32.ofNat data.length).toNat).length := by
    rw [length_resize, framable.toNat_length]
  have hparse := inverts message data _ hdata (toInt_toInt32 hsize)
  rw [frame, List.append_assoc, readMessage, asyncRead_lengthPrefix]
  simp only [lengthPrefixOf_toList, hdecode, asyncRead_append hpayload, hparse]

/-- A frame that is cut off fails at the end of the stream. -/
theorem readMessage_take {data : List UInt8} (framable : Framable reader.frameCodec data)
    {cut : Nat} (hcut : cut < (frame native data).length) :
    ∃ channel, reader.readMessage parseFromArray native' ((frame native data).take cut) =
      (.error (.systemError .eof ""), channel, []) := by
  rw [length_frame] at hcut
  by_cases hprefix : cut < 4
  · have hshort : ((frame native data).take cut).length <
        (List.replicate 4 (0 : UInt8)).length := by
      rw [List.length_take, List.length_replicate]
      omega
    rw [readMessage, asyncRead_of_lt hshort]
    exact ⟨_, rfl⟩
  · have hdecode := MessageFrameCodec.decodeLengthPrefix_encodeUncheckedLengthPrefix native native'
      framable.size_ne_zero framable.size_le
    have hsplit : (frame native data).take cut =
        (MessageFrameCodec.encodeUncheckedLengthPrefix native
          (UInt32.ofNat data.length)).toList ++ data.take (cut - 4) := by
      rw [frame, List.take_append, Vector.length_toList, List.take_of_length_le]
      rw [Vector.length_toList]
      omega
    have hshort : (data.take (cut - 4)).length <
        (resize reader.readBuffer (UInt32.ofNat data.length).toNat).length := by
      rw [length_resize, framable.toNat_length, List.length_take]
      omega
    rw [hsplit, readMessage, asyncRead_lengthPrefix]
    simp only [lengthPrefixOf_toList, hdecode, asyncRead_of_lt hshort]
    exact ⟨_, rfl⟩

/-- A frame beyond the limit of the reader is refused at its prefix. -/
theorem readMessage_oversized {data : List UInt8} {codec : MessageFrameCodec}
    (framable : Framable codec data) (hlarge : ¬Framable reader.frameCodec data)
    {stream rest : List UInt8} (hstream : stream <+: frame native data ++ rest) :
    ∃ error channel rest', reader.readMessage parseFromArray native' stream =
      (.error error, channel, rest') := by
  obtain ⟨after, hafter⟩ := hstream
  by_cases hshort : stream.length < 4
  · have hlt : stream.length < (List.replicate 4 (0 : UInt8)).length := by
      rw [List.length_replicate]
      exact hshort
    rw [readMessage, asyncRead_of_lt hlt]
    exact ⟨_, _, _, rfl⟩
  · have hmax : reader.frameCodec.maxPayloadSize < UInt32.ofNat data.length := by
      rw [UInt32.lt_iff_toNat_lt, framable.toNat_length]
      by_contra hle
      exact hlarge ⟨framable.1, Nat.le_of_not_lt hle⟩
    obtain ⟨error, hdecode⟩ := MessageFrameCodec.decodeLengthPrefix_of_lt native native' hmax
    obtain ⟨tail, rfl⟩ : ∃ tail, stream = (MessageFrameCodec.encodeUncheckedLengthPrefix native
        (UInt32.ofNat data.length)).toList ++ tail := by
      refine ⟨stream.drop 4, ?_⟩
      have hhead := congrArg (List.take 4) hafter
      rw [List.take_append_of_le_length (Nat.le_of_not_lt hshort), frame, List.append_assoc,
        List.take_left' (Vector.length_toList ..)] at hhead
      rw [← hhead, List.take_append_drop]
    rw [readMessage, asyncRead_lengthPrefix]
    simp only [lengthPrefixOf_toList, hdecode]
    exact ⟨_, _, _, rfl⟩

/-- A message that `writer` puts on the wire. -/
def Writable (serializeToString : μ → Option (List UInt8)) (writer : MessageChannel)
    (message : μ) : Prop :=
  ∃ data, serializeToString message = some data ∧ Framable writer.frameCodec data

theorem Writable.mono {message : μ} (h : Writable serializeToString writer message)
    (hle : writer.frameCodec.maxPayloadSize ≤ reader.frameCodec.maxPayloadSize) :
    Writable serializeToString reader message := by
  obtain ⟨data, hdata, hne, hlength⟩ := h
  exact ⟨data, hdata, hne, Nat.le_trans hlength (UInt32.le_iff_toNat_le.mp hle)⟩

/-- `writeMessage` puts a whole frame on the wire, or throws before its first byte. -/
theorem writeMessage_of_framable {message : μ} {data : List UInt8}
    (hdata : serializeToString message = some data) (h : Framable writer.frameCodec data)
    (wire : List UInt8) :
    writer.writeMessage serializeToString native wire message =
      (.ok (), wire ++ frame native data) := by
  simp only [writeMessage, hdata, h.prepare, frame, List.append_assoc]

theorem writeMessage_of_not_writable {message : μ}
    (h : ¬Writable serializeToString writer message) (wire : List UInt8) :
    ∃ error, writer.writeMessage serializeToString native wire message = (.error error, wire) := by
  cases hdata : serializeToString message with
  | none =>
    simp only [writeMessage, hdata, prepare]
    exact ⟨_, rfl⟩
  | some data =>
    obtain ⟨error, herror⟩ : ∃ error, prepare writer.frameCodec native (some data) =
        .error error := prepare_of_not_framable fun framable => h ⟨data, hdata, framable⟩
    simp only [writeMessage, hdata, herror]
    exact ⟨_, rfl⟩

/-- The frames of messages that are all writable. -/
def frames (serializeToString : μ → Option (List UInt8)) (native : Endian) (messages : List μ) :
    List UInt8 :=
  messages.flatMap fun message => (serializeToString message).elim [] (frame native)

theorem frames_cons {message : μ} {data : List UInt8}
    (hdata : serializeToString message = some data) (messages : List μ) :
    frames serializeToString native (message :: messages) =
      frame native data ++ frames serializeToString native messages := by
  rw [frames, List.flatMap_cons, hdata]
  rfl

theorem writeMessages_eq {messages : List μ}
    (writable : ∀ message ∈ messages, Writable serializeToString writer message) :
    writer.writeMessages serializeToString native messages =
      frames serializeToString native messages := by
  have general : ∀ wire, messages.foldl (fun wire message =>
      (writer.writeMessage serializeToString native wire message).2) wire =
        wire ++ frames serializeToString native messages := by
    induction messages with
    | nil => exact fun wire => (List.append_nil wire).symm
    | cons message messages ih =>
      intro wire
      obtain ⟨data, hdata, framable⟩ := writable message List.mem_cons_self
      rw [List.foldl_cons, writeMessage_of_framable hdata framable, frames_cons hdata,
        ← List.append_assoc]
      exact ih (fun message h => writable message (List.mem_cons_of_mem _ h)) _
  exact general []

/-- How many frames lie before the cut. -/
def complete (serializeToString : μ → Option (List UInt8)) (native : Endian) :
    Nat → List μ → Nat
  | _, [] => 0
  | cut, message :: messages =>
    let size := (frames serializeToString native [message]).length
    if size ≤ cut then complete serializeToString native (cut - size) messages + 1 else 0

theorem complete_cons {message : μ} {data : List UInt8}
    (hdata : serializeToString message = some data) (messages : List μ) (cut : Nat) :
    complete serializeToString native cut (message :: messages) =
      if (frame native data).length ≤ cut then
        complete serializeToString native (cut - (frame native data).length) messages + 1
      else 0 := by
  rw [complete, frames_cons hdata, frames, List.flatMap_nil, List.append_nil]

theorem complete_le (cut : Nat) (messages : List μ) :
    complete serializeToString native cut messages ≤ messages.length := by
  induction messages generalizing cut with
  | nil => exact Nat.le_refl 0
  | cons message messages ih =>
    simp only [complete]
    split
    · exact Nat.succ_le_succ (ih _)
    · exact Nat.zero_le _

theorem lt_complete_iff {messages : List μ}
    (writable : ∀ message ∈ messages, Writable serializeToString writer message) {i : Nat}
    (hi : i < messages.length) (cut : Nat) :
    i < complete serializeToString native cut messages ↔
      (frames serializeToString native (messages.take (i + 1))).length ≤ cut := by
  induction messages generalizing cut i with
  | nil => cases hi
  | cons message messages ih =>
    obtain ⟨data, hdata, -⟩ := writable message List.mem_cons_self
    rw [complete_cons hdata, List.take_succ_cons, frames_cons hdata, List.length_append]
    cases i with
    | zero =>
      rw [List.take_zero, frames, List.flatMap_nil, List.length_nil]
      split <;> omega
    | succ i =>
      have hrest := ih (fun message h => writable message (List.mem_cons_of_mem _ h))
        (Nat.lt_of_succ_lt_succ hi) (cut - (frame native data).length)
      split <;> omega

theorem complete_length (messages : List μ) :
    complete serializeToString native (frames serializeToString native messages).length messages =
      messages.length := by
  induction messages with
  | nil => rfl
  | cons message messages ih =>
    have hsplit : (frames serializeToString native (message :: messages)).length =
        (frames serializeToString native [message]).length +
          (frames serializeToString native messages).length := by
      rw [← List.length_append, frames, frames, frames, ← List.flatMap_append]
      rfl
    rw [complete, hsplit]
    simp only [Nat.le_add_right, if_true, Nat.add_sub_cancel_left, ih, List.length_cons]

/-- Reads stop at the last complete frame. -/
theorem readMessages_take (inverts : Inverts parseFromArray serializeToString)
    {messages : List μ} (hint : reader.frameCodec.maxPayloadSize ≤ 2147483647)
    (writable : ∀ message ∈ messages, Writable serializeToString reader message) (n cut : Nat) :
    readMessages parseFromArray native' n reader
        ((frames serializeToString native messages).take cut) =
      ((messages.take (complete serializeToString native cut messages)).take n,
        if n ≤ complete serializeToString native cut messages then none
        else some (.systemError .eof "")) := by
  induction messages generalizing n cut reader with
  | nil =>
    cases n with
    | zero => rfl
    | succ n =>
      have hend : reader.readMessage parseFromArray native' [] =
          (.error (.systemError .eof ""), reader, []) := rfl
      simp only [frames, List.flatMap_nil, List.take_nil, readMessages, hend, complete]
      rfl
  | cons message messages ih =>
    obtain ⟨data, hdata, framable⟩ := writable message List.mem_cons_self
    cases n with
    | zero => simp only [readMessages, List.take_zero, Nat.zero_le, if_true]
    | succ n =>
      rw [frames_cons hdata, complete_cons hdata, readMessages]
      by_cases hle : (frame native data).length ≤ cut
      · have hread : reader.readMessage parseFromArray native' (frame native data ++
            (frames serializeToString native messages).take (cut - (frame native data).length)) =
              _ := readMessage_frame inverts (framable.length_le hint) hdata framable _
        have hrest := @ih { reader with readBuffer := data } hint
          (fun message h => writable message (List.mem_cons_of_mem _ h)) n
          (cut - (frame native data).length)
        rw [List.take_append, List.take_of_length_le hle, hread]
        simp only [if_pos hle, hrest, List.take_succ_cons, Nat.add_le_add_iff_right]
      · obtain ⟨channel, hread⟩ : ∃ channel, reader.readMessage parseFromArray native'
            ((frame native data).take cut) = (.error (.systemError .eof ""), channel, []) :=
          readMessage_take framable (Nat.lt_of_not_le hle)
        rw [List.take_append_of_le_length (Nat.le_of_not_le hle), hread, if_neg hle]
        rfl

/-- What `writer` and `reader` promise each other. -/
structure Transfers (parseFromArray : List UInt8 → Int32 → Option μ)
    (serializeToString : μ → Option (List UInt8)) (native native' : Endian)
    (writer reader : MessageChannel) : Prop where
  /-- A serialisation that is empty or too long throws before the first byte. -/
  written : ∀ wire message data, serializeToString message = some data →
    if data = [] ∨ writer.frameCodec.maxPayloadSize.toNat < data.length then
      ∃ error, writer.writeMessage serializeToString native wire message = (.error error, wire)
    else writer.writeMessage serializeToString native wire message =
      (.ok (), wire ++ frame native data)
  unserialized : ∀ wire message, serializeToString message = none →
    ∃ error, writer.writeMessage serializeToString native wire message = (.error error, wire)
  /-- Everything that was written is read, and then the stream ends. -/
  roundTrip : ∀ messages, (∀ message ∈ messages, Writable serializeToString writer message) →
    ∀ n, readMessages parseFromArray native' n reader
        (writer.writeMessages serializeToString native messages) =
      (messages.take n, if n ≤ messages.length then none else some (.systemError .eof ""))
  /-- Of a stream that is cut off, the messages are read whose frames end before the cut. -/
  cutOff : ∀ messages, (∀ message ∈ messages, Writable serializeToString writer message) →
    ∀ cut, ∃ k ≤ messages.length,
      (∀ i < messages.length, i < k ↔
        (writer.writeMessages serializeToString native (messages.take (i + 1))).length ≤ cut) ∧
      ∀ n, readMessages parseFromArray native' n reader
          ((writer.writeMessages serializeToString native messages).take cut) =
        ((messages.take k).take n, if n ≤ k then none else some (.systemError .eof ""))

/-- What was written is read back, message by message and in order, up to where the stream is cut
off, and a message that cannot be written puts no byte on the wire. The byte orders of the two
sides and what is left in the buffer of the reader make no difference. -/
theorem framed_stream_round_trip (native native' : Endian)
    (inverts : Inverts parseFromArray serializeToString)
    (hle : writer.frameCodec.maxPayloadSize ≤ reader.frameCodec.maxPayloadSize)
    (hint : reader.frameCodec.maxPayloadSize ≤ 2147483647) :
    Transfers parseFromArray serializeToString native native' writer reader := by
  refine ⟨?written, ?unserialized, ?roundTrip, ?cutOff⟩
  case written =>
    intro wire message data hdata
    split
    next hbad =>
      apply writeMessage_of_not_writable
      rintro ⟨data', hdata', hne, hlength⟩
      obtain rfl := Option.some.inj (hdata.symm.trans hdata')
      obtain h | h := hbad
      · exact hne h
      · omega
    next hgood =>
      rw [not_or, Nat.not_lt] at hgood
      exact writeMessage_of_framable hdata hgood wire
  case unserialized =>
    intro wire message hdata
    apply writeMessage_of_not_writable
    rintro ⟨data', hdata', -⟩
    rw [hdata] at hdata'
    cases hdata'
  case roundTrip =>
    intro messages writable n
    have hread : readMessages parseFromArray native' n reader
        ((frames serializeToString native messages).take
          (frames serializeToString native messages).length) = _ :=
      readMessages_take inverts hint (fun message h => (writable message h).mono hle) n _
    rw [writeMessages_eq writable]
    rwa [List.take_length, complete_length, List.take_length] at hread
  case cutOff =>
    intro messages writable cut
    refine ⟨complete serializeToString native cut messages, complete_le cut messages, ?_, ?_⟩
    · intro i hi
      rw [lt_complete_iff writable hi,
        writeMessages_eq fun message h => writable message (List.mem_of_mem_take h)]
    · intro n
      rw [writeMessages_eq writable]
      exact readMessages_take inverts hint (fun message h => (writable message h).mono hle) n cut

end Stream

/-- Three messages of a client with their protobuf encoding; the first one is empty. -/
def encodings : List (Protocol.ClientMessage × List UInt8) :=
  [({}, []), ({ requestId := 1, payload := some .stateSnapshot }, [0x08, 0x01, 0x5a, 0x00]),
    ({ requestId := 2, payload := some (.ping { timestamp := 5 }) },
      [0x08, 0x02, 0x52, 0x02, 0x08, 0x05])]

/-- The second frame is cut off in its payload. -/
theorem framed_stream_round_trip_of_encodings :
    Transfers (fun data _ => (encodings.find? (·.2 = data)).map Prod.fst)
      (fun message => encodings.lookup message) .little .big (create 6) (create 100) ∧
    readMessages (fun data _ => (encodings.find? (·.2 = data)).map Prod.fst) .big 3 (create 100)
        (((create 6).writeMessages (fun message => encodings.lookup message) .little
          (encodings.tail.map Prod.fst)).take 17) =
      ([{ requestId := 1, payload := some .stateSnapshot }], some (.systemError .eof "")) := by
  refine ⟨?_, by decide⟩
  apply framed_stream_round_trip
  · intro message data size h hsize
    obtain ⟨before, after, hsplit, -⟩ := List.lookup_eq_some_iff.mp h
    have hmem : (message, data) ∈ encodings := by
      rw [hsplit]
      exact List.mem_append_right _ List.mem_cons_self
    simp only [encodings, List.mem_cons, List.not_mem_nil, or_false, Prod.mk.injEq] at hmem
    obtain ⟨rfl, rfl⟩ | ⟨rfl, rfl⟩ | ⟨rfl, rfl⟩ := hmem <;> rfl
  · decide
  · decide

end MessageChannel

end Network

end Stalker2D
