import Stalker2D.Machine.LeadsTo
import Stalker2D.Shared.Framing

/-!
# Getting on

The events by which a connection gets on without anything going wrong: posted handlers run,
the loops go on, writes make progress and complete. `work` is what is left of the write path,
from the posted handlers to the bytes of the current frame; every such event lowers it or
moves the read loop. An open connection at which none of them can happen has nothing posted
and nothing to write, and reads or handles what it has read.
-/

namespace Stalker2D.Network

open Machine

/-- How many completions a write loop is from its end. -/
def Writer.rank : Writer → Nat
  | .spawned => 3
  | .sendingPrefix _ _ => 2
  | .sendingPayload _ => 1
  | .finished => 0

/-- A read loop that is about to go on. -/
def Reader.busy : Reader → Nat
  | .spawned | .handling => 1
  | .absent | .reading | .finished => 0

namespace Connection

variable {ι ο : Type} {native : Endian} {serialize : ο → Option (List UInt8)}
variable {connection t : Connection ι ο} {e : Event ι ο}

def Event.progress : Event ι ο → Bool
  | .runPosted | .readerStarts | .handlerReturns | .writerStarts _ | .writeSome _ _
  | .writeCompletes _ => true
  | .post _ | .readCompletes _ | .readFails | .handlerThrows | .writeFails _ => false

section Work

/-- What is left to do on the write path: posted handlers, queued messages, and what the write
loops are at. Getting on with one of these may add to those after it. -/
def work (connection : Connection ι ο) : ℕ ×ₗ ℕ ×ₗ ℕ ×ₗ ℕ :=
  toLex (connection.posted.length, toLex (connection.writeQueue.length,
    toLex (total Writer.rank connection.writers,
      total (fun writer => writer.remaining.length) connection.writers)))

theorem work_lt_of_posted (h : t.posted.length < connection.posted.length) :
    t.work < connection.work :=
  Prod.Lex.toLex_lt_toLex.mpr (.inl h)

theorem work_lt_of_queue (hposted : t.posted = connection.posted)
    (h : t.writeQueue.length < connection.writeQueue.length) : t.work < connection.work := by
  simp only [work, Prod.Lex.toLex_lt_toLex]
  exact .inr ⟨congrArg List.length hposted, .inl h⟩

theorem work_lt_of_rank (hposted : t.posted = connection.posted)
    (hqueue : t.writeQueue = connection.writeQueue)
    (h : total Writer.rank t.writers < total Writer.rank connection.writers) :
    t.work < connection.work := by
  simp only [work, Prod.Lex.toLex_lt_toLex]
  exact .inr ⟨congrArg List.length hposted, .inr ⟨congrArg List.length hqueue, .inl h⟩⟩

/-- A write loop that goes on writing the same buffer. -/
theorem work_lt_of_bytes {i : Nat} {writer next : Writer} {wire : List UInt8}
    (h : connection.writers[i]? = some writer) (hrank : next.rank = writer.rank)
    (hbytes : next.remaining.length < writer.remaining.length) :
    ({ connection with wire }.setWriter i next).work < connection.work := by
  have hranks := total_set (f := Writer.rank) h next
  have hlengths := total_set (f := fun writer => writer.remaining.length) h next
  simp only [work, Prod.Lex.toLex_lt_toLex, setWriter, true_and]
  refine .inr (.inr (.inr ⟨?_, ?_⟩))
  · omega
  · omega

theorem work_setWriter_lt {i : Nat} {writer next : Writer}
    (h : connection.writers[i]? = some writer) (hrank : next.rank < writer.rank) :
    (connection.setWriter i next).work < connection.work := by
  have hranks := total_set (f := Writer.rank) h next
  refine work_lt_of_rank rfl rfl ?_
  change total Writer.rank (connection.writers.set i next) < _
  omega

/-- A write loop takes the next message from the queue or ends. -/
theorem work_writeLoop_lt {i : Nat} {writer : Writer} (h : connection.writers[i]? = some writer)
    (hw : writer ≠ .finished) :
    (connection.writeLoop native serialize i).work < connection.work := by
  have hrank : Writer.finished.rank < writer.rank := by
    cases writer with
    | finished => exact absurd rfl hw
    | spawned | sendingPrefix | sendingPayload => exact Nat.succ_pos _
  have ends : ({ connection with writing := false }.setWriter i .finished).work <
      connection.work := by
    have idle : { connection with writing := false }.writers[i]? = some writer := h
    exact work_setWriter_lt idle hrank
  rw [writeLoop.eq_def]
  split
  next => exact ends
  next hclosed =>
    split
    next => exact ends
    next message writeQueue hqueue =>
      dsimp only
      split
      · refine work_lt_of_queue ?_ ?_
        · exact (sameOutbox_failWriting { connection with writeQueue } i).posted
        · rw [hqueue]
          simp [failWriting, stopImpl, hclosed, setWriter, notifyClosed]
      · refine work_lt_of_queue rfl ?_
        rw [hqueue]
        exact Nat.lt_succ_self _

theorem posted_runPosted (connection : Connection ι ο) (handler : Posted ο) :
    (connection.runPosted handler).posted = connection.posted := by
  cases handler with
  | startImpl => exact posted_startImpl connection
  | stopImpl => exact (sameOutbox_stopImpl connection).posted
  | sendImpl message => exact posted_sendImpl connection message

/-- Every event of this kind gets on with the write path or moves the read loop. -/
theorem progress_step (hprogress : e.progress = true)
    (hstep : step native serialize connection e = some t) :
    t.work < connection.work ∨
      t = connection.readLoop ∧ (connection.reader = .spawned ∧ e = .readerStarts ∨
        connection.reader = .handling ∧ e = .handlerReturns) := by
  cases e with
  | runPosted =>
    left
    simp only [step] at hstep
    split at hstep
    · cases hstep
    next handler posted h =>
      obtain rfl := Option.some.inj hstep
      apply work_lt_of_posted
      rw [posted_runPosted, h]
      exact Nat.lt_succ_self _
  | readerStarts =>
    simp only [step, Option.ite_none_right_eq_some, Option.some.injEq] at hstep
    exact .inr ⟨hstep.2.symm, .inl ⟨hstep.1, rfl⟩⟩
  | handlerReturns =>
    simp only [step, Option.ite_none_right_eq_some, Option.some.injEq] at hstep
    exact .inr ⟨hstep.2.symm, .inr ⟨hstep.1, rfl⟩⟩
  | writerStarts i =>
    left
    simp only [step, Option.ite_none_right_eq_some, Option.some.injEq] at hstep
    obtain ⟨h, rfl⟩ := hstep
    exact work_writeLoop_lt h (by simp)
  | writeSome i n =>
    left
    simp only [step, Option.ite_none_left_eq_some, Connection.writeSome] at hstep
    obtain ⟨-, hstep⟩ := hstep
    split at hstep
    next rest payload h =>
      simp only [Option.ite_none_right_eq_some, Option.some.injEq] at hstep
      obtain ⟨⟨hpos, hle⟩, rfl⟩ := hstep
      refine work_lt_of_bytes h rfl ?_
      simp only [Writer.remaining, List.length_append, List.length_drop]
      omega
    next rest h =>
      simp only [Option.ite_none_right_eq_some, Option.some.injEq] at hstep
      obtain ⟨⟨hpos, hle⟩, rfl⟩ := hstep
      refine work_lt_of_bytes h rfl ?_
      simp only [Writer.remaining, List.length_drop]
      omega
    next => cases hstep
  | writeCompletes i =>
    left
    simp only [step, Connection.writeCompletes] at hstep
    split at hstep
    next payload h =>
      obtain rfl := Option.some.inj hstep
      exact work_setWriter_lt h (Nat.lt_succ_self 1)
    next h =>
      obtain rfl := Option.some.inj hstep
      exact work_writeLoop_lt h (by simp)
    next => cases hstep
  | post | readCompletes | readFails | handlerThrows | writeFails => cases hprogress

/-- The head of the read loop is left at once. -/
theorem busy_readLoop (h : connection.reader = .spawned ∧ e = .readerStarts ∨
    connection.reader = .handling ∧ e = .handlerReturns) :
    connection.readLoop.reader.busy < connection.reader.busy := by
  have hbusy : connection.reader.busy = 1 := by
    obtain ⟨hreader, -⟩ | ⟨hreader, -⟩ := h
    · rw [hreader]
      rfl
    · rw [hreader]
      rfl
  rw [hbusy, readLoop]
  dsimp only
  split
  · exact Nat.one_pos
  · exact Nat.one_pos

/-- What is read is not written. -/
theorem work_readMessage (connection : Connection ι ο) (message : ι) :
    (connection.readMessage message).work = connection.work := by
  rw [readMessage]
  split <;> rfl

end Work

section Rest

/-- Before the start there is no read loop. -/
theorem unstarted_step (unstarted : connection.started = false → connection.reader = .absent)
    (hstep : step native serialize connection e = some t) :
    t.started = false → t.reader = .absent := by
  have begun : connection.reader ≠ .absent → t.started = connection.started →
      t.started = false → t.reader = .absent := by
    intro hreader hsame hstarted
    exact absurd (unstarted (hsame.symm.trans hstarted)) hreader
  have named : ∀ {reader : Reader}, connection.reader = reader → reader ≠ .absent →
      connection.reader ≠ .absent := fun h hne => h ▸ hne
  obtain ⟨same, -⟩ | ⟨-, -, -, hstarted, -⟩ | ⟨-, hreader, rfl⟩ | ⟨message, -, hreader, rfl⟩ |
    ⟨-, hreader, rfl⟩ | ⟨-, hreader, rfl⟩ | ⟨-, hreader, rfl⟩ := read_cases hstep
  · rw [same.started, same.reader]
    exact unstarted
  · rw [hstarted]
    exact fun h => Bool.noConfusion h
  · exact begun (named hreader Reader.noConfusion) rfl
  · refine begun (named hreader Reader.noConfusion) ?_
    rw [readMessage]
    split <;> rfl
  · exact begun (named hreader Reader.noConfusion) (sameReading_stopImpl _).started
  · exact begun (named hreader Reader.noConfusion) rfl
  · exact begun (named hreader Reader.noConfusion) (sameReading_stopImpl _).started

/-- An open connection has a read loop or is about to start one. -/
structure Attended (connection : Connection ι ο) : Prop where
  unstarted : connection.started = false → connection.reader = .absent
  absent : connection.closed = false → connection.reader = .absent →
    connection.started = false ∧ .startImpl ∈ connection.posted
  finished : connection.closed = false → connection.reader ≠ .finished

theorem attended_of_closed (unstarted : connection.started = false → connection.reader = .absent)
    (hclosed : connection.closed = true) : Attended connection where
  unstarted := unstarted
  absent hopen := absurd (hclosed.symm.trans hopen) Bool.noConfusion
  finished hopen := absurd (hclosed.symm.trans hopen) Bool.noConfusion

/-- The read side and the posted handlers are the same. -/
theorem Attended.congr (attended : Attended connection) (same : SameReading connection t)
    (hposted : t.posted = connection.posted)
    (hclosed : t.closed = false → connection.closed = false) : Attended t where
  unstarted hstarted := by
    rw [same.started] at hstarted
    rw [same.reader, attended.unstarted hstarted]
  absent hopen habsent := by
    rw [same.started, hposted]
    exact attended.absent (hclosed hopen) (same.reader ▸ habsent)
  finished hopen := by
    rw [same.reader]
    exact attended.finished (hclosed hopen)

theorem attended_create {config : ConnectionConfig} (h : create config = .ok connection) :
    Attended (connection.post .startImpl) := by
  obtain ⟨-, rfl⟩ := create_eq_ok h
  refine ⟨fun _ => rfl, fun _ _ => ⟨rfl, List.mem_singleton_self _⟩, fun _ hreader => ?_⟩
  cases hreader

/-- A handler that runs on an open connection. -/
theorem Attended.runPosted (attended : Attended connection) {handler : Posted ο}
    {posted : List (Posted ο)} (h : connection.posted = handler :: posted)
    (unstarted : ({ connection with posted }.runPosted handler).started = false →
      ({ connection with posted }.runPosted handler).reader = .absent) :
    Attended ({ connection with posted }.runPosted handler) := by
  cases handler with
  | startImpl =>
    simp only [Connection.runPosted, Connection.startImpl] at unstarted ⊢
    split
    next hstarted =>
      refine ⟨attended.unstarted, fun hopen habsent => ?_, attended.finished⟩
      rw [(attended.absent hopen habsent).1] at hstarted
      cases hstarted
    next =>
      split
      next hclosed => exact attended_of_closed attended.unstarted hclosed
      next =>
        refine ⟨fun hstarted => ?_, fun _ habsent => ?_, fun _ hfinished => ?_⟩
        · cases hstarted
        · cases habsent
        · cases hfinished
  | stopImpl => exact attended_of_closed unstarted stopImpl_closed
  | sendImpl message =>
    have same := sameReading_sendImpl { connection with posted } message
    have hopen : ({ connection with posted }.sendImpl message).closed = false →
        connection.closed = false := by
      intro hopen
      by_contra hclosed
      rw [Connection.sendImpl, if_pos (Bool.eq_true_of_not_eq_false hclosed)] at hopen
      exact hclosed hopen
    refine ⟨unstarted, fun hlater habsent => ?_, fun hlater => ?_⟩
    · obtain ⟨hstarted, hmem⟩ := attended.absent (hopen hlater) (same.reader ▸ habsent)
      rw [h] at hmem
      refine ⟨same.started.trans hstarted, ?_⟩
      rw [Connection.runPosted, posted_sendImpl]
      exact (List.mem_cons.mp hmem).resolve_left fun heq => by cases heq
    · rw [Connection.runPosted, same.reader]
      exact attended.finished (hopen hlater)

theorem Attended.step (attended : Attended connection)
    (hstep : Connection.step native serialize connection e = some t) : Attended t := by
  have unstarted := unstarted_step attended.unstarted hstep
  cases hclosed : connection.closed with
  | true => exact attended_of_closed unstarted (frozen_step hclosed hstep).closed
  | false =>
    revert unstarted
    refine step_elim (P := fun t => (t.started = false → t.reader = .absent) → Attended t) hstep
      ?post ?runPosted ?readLoop ?readMessage ?failReading ?writeLoop ?progress ?failWriting
    case post =>
      intro handler unstarted
      refine ⟨unstarted, fun hopen habsent => ?_, attended.finished⟩
      obtain ⟨hstarted, hmem⟩ := attended.absent hopen habsent
      exact ⟨hstarted, List.mem_append_left _ hmem⟩
    case runPosted => exact fun handler posted h unstarted => attended.runPosted h unstarted
    case readLoop =>
      rw [Connection.readLoop, hclosed]
      refine fun unstarted => ⟨unstarted, fun _ habsent => ?_, fun _ hfinished => ?_⟩
      · cases habsent
      · cases hfinished
    case readMessage =>
      intro message
      rw [Connection.readMessage, hclosed, if_neg Bool.false_ne_true]
      refine fun unstarted => ⟨unstarted, fun _ habsent => ?_, fun _ hfinished => ?_⟩
      · cases habsent
      · cases hfinished
    case failReading => exact fun unstarted => attended_of_closed unstarted stopImpl_closed
    case writeLoop =>
      exact fun i _ _ _ _ _ => attended.congr (sameReading_writeLoop _ _)
        (sameOutbox_writeLoop _ _).posted fun _ => hclosed
    case progress =>
      exact fun i _ _ _ _ _ _ _ _ _ => attended.congr ⟨rfl, rfl, rfl, rfl⟩ rfl fun _ => hclosed
    case failWriting =>
      exact fun i _ _ _ _ => attended.congr (sameReading_failWriting _ _)
        (sameOutbox_failWriting _ _).posted fun _ => hclosed

theorem Attended.exec (attended : Attended connection) {es : List (Event ι ο)}
    (run : (Connection.step native serialize).exec connection es = some t) : Attended t := by
  have invariant : (Connection.step (ι := ι) native serialize).Invariant Attended :=
    fun _ _ _ attended hstep => attended.step hstep
  exact invariant.exec attended run

/-- A connection at which nothing can happen; its handler may still be running. -/
theorem at_rest_of_stuck (attended : Attended connection) (hopen : connection.closed = false)
    (stuck : ∀ e : Event ι ο, e.progress = true → e ≠ .handlerReturns →
      Connection.step native serialize connection e = none) :
    connection.posted = [] ∧ connection.live = [] ∧
      (connection.reader = .reading ∨ connection.reader = .handling) := by
  have hposted : connection.posted = [] := by
    have hstuck := stuck .runPosted rfl (fun h => by cases h)
    simp only [Connection.step] at hstuck
    split at hstuck
    next h => exact h
    next => cases hstuck
  refine ⟨hposted, ?live, ?reader⟩
  case live =>
    rw [live, List.filter_eq_nil_iff]
    intro writer hmem hlive
    obtain ⟨i, hi⟩ := List.mem_iff_getElem?.mp hmem
    cases writer with
    | finished => simp at hlive
    | spawned =>
      have hstuck := stuck (.writerStarts i) rfl (fun h => by cases h)
      rw [Connection.step, if_pos hi] at hstuck
      cases hstuck
    | sendingPrefix rest payload =>
      cases rest with
      | nil =>
        have hstuck := stuck (.writeCompletes i) rfl (fun h => by cases h)
        simp only [Connection.step, writeCompletes, hi] at hstuck
        cases hstuck
      | cons byte rest =>
        have hstuck := stuck (.writeSome i 1) rfl (fun h => by cases h)
        simp [Connection.step, writeSome, hi, hopen] at hstuck
    | sendingPayload rest =>
      cases rest with
      | nil =>
        have hstuck := stuck (.writeCompletes i) rfl (fun h => by cases h)
        simp only [Connection.step, writeCompletes, hi] at hstuck
        cases hstuck
      | cons byte rest =>
        have hstuck := stuck (.writeSome i 1) rfl (fun h => by cases h)
        simp [Connection.step, writeSome, hi, hopen] at hstuck
  case reader =>
    cases hreader : connection.reader with
    | absent =>
      have hmem := (attended.absent hopen hreader).2
      rw [hposted] at hmem
      cases hmem
    | spawned =>
      have hstuck := stuck .readerStarts rfl (fun h => by cases h)
      rw [Connection.step, if_pos hreader] at hstuck
      cases hstuck
    | reading => exact .inl rfl
    | handling => exact .inr rfl
    | finished => exact absurd hreader (attended.finished hopen)

/-- The other way round: at such a connection nothing can happen. -/
theorem stuck_of_at_rest (hposted : connection.posted = []) (hlive : connection.live = [])
    (hreader : connection.reader = .reading) (hprogress : e.progress = true) :
    Connection.step native serialize connection e = none := by
  have hfinished : ∀ (i : Nat) writer, connection.writers[i]? = some writer →
      writer = .finished := by
    intro i writer h
    rw [live, List.filter_eq_nil_iff] at hlive
    simpa using hlive writer (List.mem_of_getElem? h)
  cases e with
  | runPosted => simp only [Connection.step, hposted]
  | readerStarts =>
    rw [Connection.step, hreader]
    exact if_neg Reader.noConfusion
  | handlerReturns =>
    rw [Connection.step, hreader]
    exact if_neg Reader.noConfusion
  | writerStarts i =>
    rw [Connection.step]
    refine if_neg fun h => ?_
    cases hfinished i _ h
  | writeSome i n =>
    simp only [Connection.step, writeSome]
    split
    · rfl
    · split
      next h => cases hfinished i _ h
      next h => cases hfinished i _ h
      next => rfl
  | writeCompletes i =>
    simp only [Connection.step, writeCompletes]
    split
    next h => cases hfinished i _ h
    next h => cases hfinished i _ h
    next => rfl
  | post | readCompletes | readFails | handlerThrows | writeFails => cases hprogress

end Rest

end Connection

end Stalker2D.Network
