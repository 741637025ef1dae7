import Stalker2D.Machine.Lists
import Stalker2D.Shared.Connection
import Stalker2D.Shared.Protocol

/-!
# The write path of a connection

`m_writing`, the queue and the write loops are changed from `sendImpl`, from both
exits of `writeLoop` and from `stopImpl`. `Orderly` says how they belong together:
at most one loop is live, an open connection is `writing` exactly when one is, and
what is on the wire, in flight and queued are together the frames of the accepted
messages. `Safe` is the part that survives between the two assignments of an error
exit, where `m_writing` is already false and the connection not yet closed.
-/

namespace Stalker2D.Network

namespace Connection

variable {ι ο : Type} {native : Endian} {serialize : ο → Option (List UInt8)}
variable {connection t : Connection ι ο} {e : Event ι ο}

/-- The write loops that are spawned or running. -/
def live (connection : Connection ι ο) : List Writer :=
  connection.writers.filter (· ≠ .finished)

def inFlight (connection : Connection ι ο) : List UInt8 :=
  connection.live.flatMap Writer.remaining

/-- The frame of a message; a message that cannot be framed is never begun. -/
def frame (native : Endian) (serialize : ο → Option (List UInt8)) (codec : MessageFrameCodec)
    (message : ο) : List UInt8 :=
  match MessageChannel.prepare codec native (serialize message) with
  | .error _ => []
  | .ok (lengthPrefix, payload) => lengthPrefix ++ payload

def frames (native : Endian) (serialize : ο → Option (List UInt8)) (codec : MessageFrameCodec)
    (messages : List ο) : List UInt8 :=
  messages.flatMap (frame native serialize codec)

/-- What holds whether or not `m_writing` and `m_closed` are in step. -/
structure Safe (native : Endian) (serialize : ο → Option (List UInt8))
    (connection : Connection ι ο) : Prop where
  single : connection.live.length ≤ 1
  sent : connection.wire <+: frames native serialize connection.codec connection.accepted
  bounded : connection.writeQueue.length ≤ connection.maxQueuedMessages
  drained : connection.closed = true → connection.writeQueue = []

structure Orderly (native : Endian) (serialize : ο → Option (List UInt8))
    (connection : Connection ι ο) : Prop extends Safe native serialize connection where
  writing : connection.closed = false → (connection.writing = true ↔ connection.live ≠ [])
  idle : connection.closed = false → connection.writing = false → connection.writeQueue = []
  stream : connection.closed = false →
    connection.wire ++ connection.inFlight ++
        frames native serialize connection.codec connection.writeQueue =
      frames native serialize connection.codec connection.accepted

theorem Safe.orderly (safe : Safe native serialize connection) (h : connection.closed = true) :
    Orderly native serialize connection where
  toSafe := safe
  writing hopen := by simp [h] at hopen
  idle hopen := by simp [h] at hopen
  stream hopen := by simp [h] at hopen

theorem Orderly.writing_eq_false_iff (orderly : Orderly native serialize connection)
    (hopen : connection.closed = false) : connection.writing = false ↔ connection.live = [] := by
  rw [← Bool.not_eq_true, orderly.writing hopen, Decidable.not_not]

/-- One live loop if `writing`, otherwise none. -/
theorem Orderly.length_live (orderly : Orderly native serialize connection)
    (hopen : connection.closed = false) :
    connection.live.length = connection.writing.toNat := by
  cases hw : connection.writing with
  | false => rw [(orderly.writing_eq_false_iff hopen).mp hw, List.length_nil, Bool.toNat_false]
  | true =>
    have hpos := List.length_pos_iff.mpr ((orderly.writing hopen).mp hw)
    have hle := orderly.single
    rw [Bool.toNat_true]
    omega

@[simp] theorem frames_append (codec : MessageFrameCodec) (ms ns : List ο) :
    frames native serialize codec (ms ++ ns) =
      frames native serialize codec ms ++ frames native serialize codec ns :=
  List.flatMap_append

theorem orderly_create {config : ConnectionConfig} (h : create config = .ok connection) :
    Orderly native serialize connection := by
  obtain ⟨-, rfl⟩ := create_eq_ok h
  exact
    { single := Nat.zero_le _
      sent := List.nil_prefix
      bounded := Nat.zero_le _
      drained := fun _ => rfl
      writing := fun _ => by simp [live]
      idle := fun _ _ => rfl
      stream := fun _ => rfl }

/-- The read loop and the posted handlers play no part in writing. -/
theorem Orderly.congr (orderly : Orderly native serialize connection)
    (hcodec : t.codec = connection.codec)
    (hmax : t.maxQueuedMessages = connection.maxQueuedMessages)
    (hqueue : t.writeQueue = connection.writeQueue) (hclosed : t.closed = connection.closed)
    (hwriting : t.writing = connection.writing) (hwriters : t.writers = connection.writers)
    (haccepted : t.accepted = connection.accepted) (hwire : t.wire = connection.wire) :
    Orderly native serialize t := by
  obtain ⟨⟨single, sent, bounded, drained⟩, writing, idle, stream⟩ := orderly
  simp only [inFlight, live] at single writing stream
  refine ⟨⟨?_, ?_, ?_, ?_⟩, ?_, ?_, ?_⟩ <;>
    simpa only [inFlight, live, hcodec, hmax, hqueue, hclosed, hwriting, hwriters, haccepted,
      hwire]

/-- `stopImpl` needs nothing of `m_writing`. -/
theorem Safe.stopImpl (safe : Safe native serialize connection) :
    Orderly native serialize connection.stopImpl := by
  simp only [Connection.stopImpl]
  split
  next h => exact safe.orderly h
  next =>
    refine Safe.orderly ⟨safe.single, safe.sent, Nat.zero_le _, fun _ => rfl⟩ rfl

/-- `m_writing = false` alone. -/
theorem Safe.unset (safe : Safe native serialize connection) :
    Safe native serialize { connection with writing := false } :=
  ⟨safe.single, safe.sent, safe.bounded, safe.drained⟩

section Writer

variable {i : Nat} {writer next : Writer}

/-- With at most one write loop live, an event of a live one is about that loop. -/
theorem Safe.live_eq (safe : Safe native serialize connection)
    (h : connection.writers[i]? = some writer) (hw : writer ≠ .finished) (next : Writer) :
    connection.live = [writer] ∧
      (connection.setWriter i next).live = if next = .finished then [] else [next] := by
  obtain ⟨hlive, hset⟩ :=
    filter_set_of_single (p := fun w : Writer => decide (w ≠ .finished)) h (by simpa using hw)
      safe.single next
  refine ⟨hlive, hset.trans ?_⟩
  by_cases hn : next = .finished <;> simp [hn]

theorem Safe.setWriter (safe : Safe native serialize connection)
    (h : connection.writers[i]? = some writer) (hw : writer ≠ .finished) (next : Writer) :
    Safe native serialize (connection.setWriter i next) where
  single := by
    rw [(safe.live_eq h hw next).2]
    split <;> simp
  sent := safe.sent
  bounded := safe.bounded
  drained := safe.drained

theorem Safe.failWriting (safe : Safe native serialize connection)
    (h : connection.writers[i]? = some writer) (hw : writer ≠ .finished) :
    Orderly native serialize (connection.failWriting i) := by
  have stopped := safe.unset.stopImpl.toSafe
  have hwriter :
      ({ connection with writing := false }.stopImpl).writers[i]? = some writer := by
    simp only [Connection.stopImpl]
    split <;> exact h
  refine (stopped.setWriter hwriter hw .finished).orderly ?_
  simp only [Connection.setWriter, Connection.stopImpl]
  split
  next hclosed => exact hclosed
  next => rfl

/-- The live loop of an open connection moves on without touching the queue. -/
theorem Orderly.setWriter (orderly : Orderly native serialize connection)
    (h : connection.writers[i]? = some writer) (hw : writer ≠ .finished)
    (hn : next ≠ .finished) {bytes : List UInt8}
    (hbytes : writer.remaining = bytes ++ next.remaining)
    (hclosed : connection.closed = true → bytes = []) :
    Orderly native serialize
      ({ connection with wire := connection.wire ++ bytes }.setWriter i next) := by
  obtain ⟨hlive, hset⟩ := orderly.live_eq h hw next
  rw [if_neg hn] at hset
  have hstream : connection.closed = false →
      connection.wire ++ bytes ++ next.remaining ++
          frames native serialize connection.codec connection.writeQueue =
        frames native serialize connection.codec connection.accepted := by
    intro hopen
    rw [← orderly.stream hopen, inFlight, hlive, List.flatMap_singleton, hbytes]
    simp only [List.append_assoc]
  refine ⟨⟨?single, ?sent, orderly.bounded, orderly.drained⟩, ?writing, orderly.idle, ?stream⟩
  case single => exact Nat.le_of_eq (congrArg List.length hset)
  case sent =>
    cases hc : connection.closed with
    | true =>
      simp only [Connection.setWriter, hclosed hc, List.append_nil]
      exact orderly.sent
    | false =>
      refine ⟨next.remaining ++ frames native serialize connection.codec connection.writeQueue, ?_⟩
      rw [← List.append_assoc]
      exact hstream hc
  case writing =>
    intro hopen
    have hwriting : connection.writing = true := (orderly.writing hopen).mpr (by simp [hlive])
    change connection.writing = true ↔ (connection.setWriter i next).live ≠ []
    simp [hset, hwriting]
  case stream =>
    intro hopen
    change connection.wire ++ bytes ++ (connection.setWriter i next).live.flatMap _ ++ _ = _
    rw [hset, List.flatMap_singleton]
    exact hstream hopen

/-- A write loop that has written all of its frame ends, fails or begins the next one. -/
theorem Orderly.writeLoop (orderly : Orderly native serialize connection)
    (h : connection.writers[i]? = some writer) (hw : writer ≠ .finished)
    (hdone : writer.remaining = []) :
    Orderly native serialize (connection.writeLoop native serialize i) := by
  obtain ⟨hlive, -⟩ := orderly.live_eq h hw .finished
  unfold Connection.writeLoop
  split
  next hclosed =>
    exact (orderly.unset.setWriter h hw .finished).orderly hclosed
  next hopen =>
    replace hopen : connection.closed = false := by simpa using hopen
    have hstream := orderly.stream hopen
    rw [inFlight, hlive, List.flatMap_singleton, hdone, List.append_nil] at hstream
    split
    next hqueue =>
      have safe := orderly.unset
      obtain ⟨-, hset⟩ := safe.live_eq h hw .finished
      rw [if_pos rfl] at hset
      refine ⟨safe.setWriter h hw .finished, fun _ => ?_, fun _ _ => hqueue, fun _ => ?_⟩
      · rw [hset]
        simp [Connection.setWriter]
      · rw [inFlight, hset, List.flatMap_nil, List.append_nil]
        exact hstream
    next message writeQueue hqueue =>
      have safe : Safe native serialize { connection with writeQueue } :=
        ⟨orderly.single, orderly.sent, Nat.le_trans (by simp [hqueue]) orderly.bounded,
          fun hc => by simp [hopen] at hc⟩
      dsimp only
      split
      next => exact safe.failWriting h hw
      next lengthPrefix payload hprepare =>
        obtain ⟨-, hset⟩ := safe.live_eq h hw (.sendingPrefix lengthPrefix payload)
        rw [if_neg (by simp)] at hset
        have hwriting : connection.writing = true := (orderly.writing hopen).mpr (by simp [hlive])
        refine ⟨safe.setWriter h hw _, fun _ => ?_, fun _ hw => ?_, fun _ => ?_⟩
        · rw [hset]
          simp [Connection.setWriter, hwriting]
        · simp [Connection.setWriter, hwriting] at hw
        · have hframe : frame native serialize connection.codec message =
              lengthPrefix ++ payload := by simp only [frame, hprepare]
          rw [inFlight, hset, List.flatMap_singleton]
          simpa [hqueue, frames, hframe, Writer.remaining, Connection.setWriter] using hstream

end Writer

theorem Orderly.sendImpl (orderly : Orderly native serialize connection) (message : ο) :
    Orderly native serialize (connection.sendImpl message) := by
  unfold Connection.sendImpl
  split
  next => exact orderly
  next hopen =>
    replace hopen : connection.closed = false := by simpa using hopen
    have hstream := orderly.stream hopen
    split
    next => exact orderly.toSafe.stopImpl
    next hroom =>
      have hframes : connection.wire ++ connection.inFlight ++
          frames native serialize connection.codec (connection.writeQueue ++ [message]) =
          frames native serialize connection.codec (connection.accepted ++ [message]) := by
        rw [frames_append, frames_append, ← hstream, List.append_assoc, List.append_assoc,
          List.append_assoc]
      have hsent : connection.wire <+:
          frames native serialize connection.codec (connection.accepted ++ [message]) := by
        rw [frames_append]
        exact orderly.sent.trans (List.prefix_append _ _)
      have hbounded : (connection.writeQueue ++ [message]).length ≤
          connection.maxQueuedMessages := by
        rw [List.length_append, List.length_singleton]
        omega
      have hdrained : connection.closed = true → connection.writeQueue ++ [message] = [] := by
        simp [hopen]
      dsimp only
      split
      next hwriting =>
        exact
          { single := orderly.single
            sent := hsent
            bounded := hbounded
            drained := hdrained
            writing := orderly.writing
            idle := fun _ hidle => by simp [hwriting] at hidle
            stream := fun _ => hframes }
      next hwriting =>
        -- nobody writes: the queue was empty and the new loop is the only live one
        have hnone : connection.live = [] :=
          (orderly.writing_eq_false_iff hopen).mp (Bool.eq_false_iff.mpr hwriting)
        have hlive : (connection.writers ++ [Writer.spawned]).filter (· ≠ .finished) =
            [.spawned] := by
          rw [List.filter_append]
          change connection.live ++ _ = _
          rw [hnone]
          rfl
        refine
          { single := Nat.le_of_eq (congrArg List.length hlive)
            sent := hsent
            bounded := hbounded
            drained := hdrained
            writing := fun _ => ?_
            idle := fun _ hidle => nomatch hidle
            stream := fun _ => ?_ }
        · simp only [live, hlive]
          simp
        · simp only [inFlight, live, hlive, List.flatMap_singleton, Writer.remaining]
          simpa [inFlight, hnone] using hframes

theorem Orderly.startImpl (orderly : Orderly native serialize connection) :
    Orderly native serialize connection.startImpl := by
  simp only [Connection.startImpl]
  split
  · exact orderly
  · split
    · exact orderly
    · exact orderly.congr rfl rfl rfl rfl rfl rfl rfl rfl

theorem Orderly.runPosted (orderly : Orderly native serialize connection) (handler : Posted ο) :
    Orderly native serialize (connection.runPosted handler) := by
  cases handler with
  | startImpl => exact orderly.startImpl
  | stopImpl => exact orderly.toSafe.stopImpl
  | sendImpl message => exact orderly.sendImpl message

theorem invariant_orderly :
    (step (ι := ι) native serialize).Invariant (Orderly native serialize) := by
  intro connection e t orderly hstep
  refine step_elim hstep ?post ?runPosted ?readLoop ?readMessage ?failReading ?writeLoop ?progress
    ?failWriting
  case post => exact fun handler => orderly.congr rfl rfl rfl rfl rfl rfl rfl rfl
  case runPosted =>
    intro handler posted _
    refine Orderly.runPosted ?_ handler
    exact orderly.congr rfl rfl rfl rfl rfl rfl rfl rfl
  case readLoop => exact orderly.congr rfl rfl rfl rfl rfl rfl rfl rfl
  case readMessage =>
    intro message
    simp only [readMessage]
    split <;> exact orderly.congr rfl rfl rfl rfl rfl rfl rfl rfl
  case failReading =>
    exact orderly.toSafe.stopImpl.congr rfl rfl rfl rfl rfl rfl rfl rfl
  case writeLoop => exact fun i writer h hw hdone => orderly.writeLoop h hw hdone
  case progress =>
    exact fun i writer next bytes h hw hn hbytes hclosed => orderly.setWriter h hw hn hbytes hclosed
  case failWriting => exact fun i writer h hw => orderly.toSafe.failWriting h hw

/-- The limits are still those of the configuration. -/
theorem limits_exec {config : ConnectionConfig} {initial : Connection ι ο} {es : List (Event ι ο)}
    (hcreate : create config = .ok initial)
    (run : (step native serialize).exec initial es = some connection) :
    connection.codec = ⟨config.maxMessageBytes⟩ ∧
      connection.maxQueuedMessages = config.maxQueuedMessages := by
  obtain ⟨-, rfl⟩ := create_eq_ok hcreate
  refine Machine.Invariant.exec (I := fun c : Connection ι ο =>
    c.codec = ⟨config.maxMessageBytes⟩ ∧ c.maxQueuedMessages = config.maxQueuedMessages)
    ?_ ⟨rfl, rfl⟩ run
  intro c e t h hstep
  obtain ⟨hcodec, hmax⟩ := limits_step hstep
  exact ⟨hcodec.trans h.1, hmax.trans h.2⟩

end Connection

end Stalker2D.Network
