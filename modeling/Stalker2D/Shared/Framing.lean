import Stalker2D.Shared.CloseProtocol
import Stalker2D.Shared.Delivery

/-!
# Frames without a gap

A message is taken from the write queue when its frame is begun, and one that cannot be
framed closes its connection. So whatever is on the wire is a beginning of the frames of
`begun`, a beginning of the accepted messages that can all be framed. `WritePath` puts this
together with the order of the write loops. A reader at the other end that has handled some
messages finds the next one where their frames end.
-/

namespace Stalker2D.Network

namespace Connection

variable {ι ο : Type} {native : Endian} {serialize : ο → Option (List UInt8)}
variable {connection t : Connection ι ο} {e : Event ι ο}

section Runs

/-- Only the head of the posted handlers can be accepted. -/
theorem accepted_step (hstep : step native serialize connection e = some t) :
    t.accepted <+: connection.outbox := by
  have same : ∀ later : Connection ι ο, later.accepted = connection.accepted →
      later.accepted <+: connection.outbox := by
    intro later h
    rw [h]
    exact List.prefix_append _ _
  refine step_elim (P := fun t => t.accepted <+: connection.outbox) hstep ?post ?runPosted
    ?readLoop ?readMessage ?failReading ?writeLoop ?progress ?failWriting
  case post => exact fun _ => same _ rfl
  case runPosted =>
    intro handler posted h
    cases handler with
    | startImpl =>
      obtain hsame | ⟨-, -, hstarts⟩ := startImpl_cases { connection with posted }
      · exact same _ (by rw [runPosted, hsame])
      · exact same _ (by rw [runPosted, hstarts])
    | stopImpl => exact same _ (sameOutbox_stopImpl { connection with posted }).accepted
    | sendImpl message =>
      have haccepts : connection.accepted ++ [message] <+: connection.outbox := by
        rw [Connection.outbox, h]
        exact ⟨posted.filterMap Posted.message?, List.append_assoc ..⟩
      simp only [runPosted, sendImpl]
      split
      · exact same _ rfl
      · split
        · exact same _ (sameOutbox_stopImpl { connection with posted }).accepted
        · split <;> exact haccepts
  case readLoop => exact same _ rfl
  case readMessage => exact fun _ => same _ (sameOutbox_readMessage _ _).accepted
  case failReading => exact same _ (sameOutbox_failReading _).accepted
  case writeLoop => exact fun _ _ _ _ _ => same _ (sameOutbox_writeLoop _ _).accepted
  case progress => exact fun _ _ _ _ _ _ _ _ _ => same _ rfl
  case failWriting => exact fun _ _ _ _ => same _ (sameOutbox_failWriting _ _).accepted

/-- What is accepted in the end was in the outbox or has been sent since, and nothing before
it was left out. -/
theorem accepted_exec {es : List (Event ι ο)}
    (run : (step native serialize).exec connection es = some t) :
    t.accepted <+: connection.outbox ++ es.flatMap Event.sends := by
  refine Machine.exec_induction
    (motive := fun es t => t.accepted <+: connection.outbox ++ es.flatMap Event.sends) ?init ?next
    run
  case init =>
    rw [List.flatMap_nil, List.append_nil]
    exact List.prefix_append _ _
  case next =>
    intro es s e t hrun ih hstep
    rw [List.flatMap_append, ← List.append_assoc]
    cases hclosed : s.closed with
    | true =>
      rw [(frozen_step hclosed hstep).accepted]
      exact ih.trans (List.prefix_append _ _)
    | false =>
      have haccepted := accepted_step hstep
      rw [(outbox_exec hrun).2 hclosed] at haccepted
      exact haccepted.trans (List.prefix_append _ _)

/-- An open connection gives the handler every message it reads, a closed one none. -/
theorem handled_step (hstep : step native serialize connection e = some t) :
    t.handled = connection.handled ++ if connection.closed then [] else arrived [e] := by
  have same : t.handled = connection.handled → arrived [e] = [] →
      t.handled = connection.handled ++ if connection.closed then [] else arrived [e] := by
    intro hhandled hnone
    rw [hhandled, hnone, ite_self, List.append_nil]
  obtain ⟨reading, hnone, -⟩ | ⟨rfl, -, -, -, -, -, hhandled⟩ | ⟨rfl, -, rfl⟩ |
    ⟨message, rfl, -, rfl⟩ | ⟨rfl, -, rfl⟩ | ⟨rfl, -, rfl⟩ | ⟨rfl, -, rfl⟩ := read_cases hstep
  · exact same reading.handled hnone
  · exact same hhandled rfl
  · exact same rfl rfl
  · rw [readMessage]
    split
    · exact (List.append_nil _).symm
    · rfl
  · exact same (sameReading_stopImpl connection).handled rfl
  · exact same rfl rfl
  · exact same (sameReading_stopImpl connection).handled rfl

theorem handled_exec {es : List (Event ι ο)} (hnone : arrived es = [])
    (run : (step native serialize).exec connection es = some t) :
    t.handled = connection.handled := by
  induction es generalizing connection with
  | nil => rw [← Option.some.inj run]
  | cons e es ih =>
    obtain ⟨u, hstep, hrest⟩ := Machine.exec_cons_eq_some.mp run
    rw [← List.singleton_append, arrived_append, List.append_eq_nil_iff] at hnone
    rw [ih hnone.2 hrest, handled_step hstep, hnone.1, ite_self, List.append_nil]

end Runs

section Begun

/-- A message that the write loop can put on the wire. -/
def Sendable (serialize : ο → Option (List UInt8)) (codec : MessageFrameCodec) (message : ο) :
    Prop :=
  ∃ data, serialize message = some data ∧ MessageChannel.Framable codec data

theorem prepare_of_not_sendable {codec : MessageFrameCodec} {message : ο}
    (h : ¬Sendable serialize codec message) :
    ∃ error, MessageChannel.prepare codec native (serialize message) = .error error := by
  cases hdata : serialize message with
  | none => exact ⟨_, rfl⟩
  | some data =>
    exact MessageChannel.prepare_of_not_framable fun framable => h ⟨data, hdata, framable⟩

theorem sendable_of_prepare {codec : MessageFrameCodec} {message : ο}
    {buffers : List UInt8 × List UInt8}
    (h : MessageChannel.prepare codec native (serialize message) = .ok buffers) :
    Sendable serialize codec message := by
  by_contra hframe
  obtain ⟨error, herror⟩ : ∃ error, MessageChannel.prepare codec native (serialize message) =
      .error error := prepare_of_not_sendable hframe
  rw [herror] at h
  cases h

theorem frame_of_framable {codec : MessageFrameCodec} {message : ο} {data : List UInt8}
    (hdata : serialize message = some data) (framable : MessageChannel.Framable codec data) :
    frame native serialize codec message = MessageChannel.frame native data := by
  rw [frame, hdata, framable.prepare]
  rfl

/-- The frames of `begun` are on the wire or on their way to it; what an open connection has
accepted after them is queued. -/
structure FramedUpTo (native : Endian) (serialize : ο → Option (List UInt8))
    (connection : Connection ι ο) (begun : List ο) : Prop where
  accepted : begun <+: connection.accepted
  sendable : ∀ message ∈ begun, Sendable serialize connection.codec message
  wire : connection.wire <+: frames native serialize connection.codec begun
  queued : connection.closed = false → connection.accepted = begun ++ connection.writeQueue

def Framed (native : Endian) (serialize : ο → Option (List UInt8)) (connection : Connection ι ο) :
    Prop :=
  ∃ begun, FramedUpTo native serialize connection begun

variable {begun : List ο}

theorem framed_create {config : ConnectionConfig} (h : create config = .ok connection) :
    Framed native serialize connection := by
  obtain ⟨-, rfl⟩ := create_eq_ok h
  refine ⟨[], List.nil_prefix, ?_, List.nil_prefix, fun _ => rfl⟩
  intro message hmem
  cases hmem

theorem FramedUpTo.congr (framed : FramedUpTo native serialize connection begun)
    (hcodec : t.codec = connection.codec) (haccepted : t.accepted = connection.accepted)
    (hwire : t.wire = connection.wire) (hclosed : t.closed = connection.closed)
    (hqueue : t.writeQueue = connection.writeQueue) : FramedUpTo native serialize t begun where
  accepted := haccepted ▸ framed.accepted
  sendable := hcodec ▸ framed.sendable
  wire := hcodec ▸ hwire ▸ framed.wire
  queued hopen := by
    rw [haccepted, hqueue]
    exact framed.queued (hclosed ▸ hopen)

/-- A connection that closes drops its queue and leaves the wire as it is. -/
theorem FramedUpTo.closes (framed : FramedUpTo native serialize connection begun)
    (hcodec : t.codec = connection.codec) (haccepted : t.accepted = connection.accepted)
    (hwire : t.wire = connection.wire) (hclosed : t.closed = true) :
    FramedUpTo native serialize t begun where
  accepted := haccepted ▸ framed.accepted
  sendable := hcodec ▸ framed.sendable
  wire := hcodec ▸ hwire ▸ framed.wire
  queued hopen := absurd (hclosed.symm.trans hopen) Bool.noConfusion

theorem FramedUpTo.stopImpl (framed : FramedUpTo native serialize connection begun) :
    FramedUpTo native serialize connection.stopImpl begun := by
  simp only [Connection.stopImpl]
  split
  · exact framed
  · exact framed.closes rfl rfl rfl rfl

theorem FramedUpTo.sendImpl (framed : FramedUpTo native serialize connection begun)
    (message : ο) : FramedUpTo native serialize (connection.sendImpl message) begun := by
  have queues : ∀ later : Connection ι ο, connection.closed = false →
      later.codec = connection.codec → later.wire = connection.wire →
      later.accepted = connection.accepted ++ [message] →
      later.writeQueue = connection.writeQueue ++ [message] →
      FramedUpTo native serialize later begun := by
    intro later hopen hcodec hwire haccepted hqueue
    refine ⟨?_, hcodec ▸ framed.sendable, hcodec ▸ hwire ▸ framed.wire, fun _ => ?_⟩
    · rw [haccepted]
      exact framed.accepted.trans (List.prefix_append _ _)
    · rw [haccepted, hqueue, framed.queued hopen, List.append_assoc]
  simp only [Connection.sendImpl]
  split
  next => exact framed
  next hclosed =>
    have hopen := Bool.eq_false_iff.mpr hclosed
    split
    · exact framed.stopImpl
    · split
      · exact queues _ hopen rfl rfl rfl rfl
      · exact queues _ hopen rfl rfl rfl rfl

theorem FramedUpTo.failWriting (framed : FramedUpTo native serialize connection begun) (i : Nat) :
    FramedUpTo native serialize (connection.failWriting i) begun := by
  have unset : FramedUpTo native serialize { connection with writing := false } begun :=
    framed.congr rfl rfl rfl rfl rfl
  exact unset.stopImpl.congr rfl rfl rfl rfl rfl

/-- The next frame is begun, unless its message closes the connection. -/
theorem FramedUpTo.writeLoop (framed : FramedUpTo native serialize connection begun) (i : Nat) :
    Framed native serialize (connection.writeLoop native serialize i) := by
  rw [writeLoop.eq_def]
  split
  next => exact ⟨begun, framed.congr rfl rfl rfl rfl rfl⟩
  next hclosed =>
    have hopen := Bool.eq_false_iff.mpr hclosed
    split
    next => exact ⟨begun, framed.congr rfl rfl rfl rfl rfl⟩
    next message writeQueue hqueue =>
      have haccepted := framed.queued hopen
      rw [hqueue] at haccepted
      dsimp only
      split
      next =>
        refine ⟨begun, framed.closes ?_ ?_ ?_ ?_⟩ <;>
          simp [Connection.failWriting, Connection.stopImpl, Connection.setWriter, hopen,
            notifyClosed]
      next buffers hprepare =>
        refine ⟨begun ++ [message], ?_, ?_, ?_, fun _ => ?_⟩
        · exact ⟨writeQueue, by rw [List.append_assoc]; exact haccepted.symm⟩
        · intro m hm
          obtain hold | hnew := List.mem_append.mp hm
          · exact framed.sendable m hold
          · obtain rfl := List.mem_singleton.mp hnew
            exact sendable_of_prepare hprepare
        · rw [frames_append]
          exact framed.wire.trans (List.prefix_append _ _)
        · rw [List.append_assoc]
          exact haccepted

/-- Open: what is not yet on the wire of the frames begun is in flight. -/
theorem FramedUpTo.stream (framed : FramedUpTo native serialize connection begun)
    (orderly : Orderly native serialize connection) (hopen : connection.closed = false) :
    connection.wire ++ connection.inFlight =
      frames native serialize connection.codec begun := by
  have hstream := orderly.stream hopen
  rw [framed.queued hopen, frames_append] at hstream
  exact List.append_cancel_right hstream

/-- The bytes that go out belong to the last frame that was begun. -/
theorem FramedUpTo.setWriter (framed : FramedUpTo native serialize connection begun)
    (orderly : Orderly native serialize connection) {i : Nat} {writer next : Writer}
    (h : connection.writers[i]? = some writer) (hw : writer ≠ .finished) {bytes : List UInt8}
    (hbytes : writer.remaining = bytes ++ next.remaining)
    (hclosed : connection.closed = true → bytes = []) :
    FramedUpTo native serialize
      ({ connection with wire := connection.wire ++ bytes }.setWriter i next) begun := by
  refine ⟨framed.accepted, framed.sendable, ?_, framed.queued⟩
  change connection.wire ++ bytes <+: _
  cases hc : connection.closed with
  | true =>
    rw [hclosed hc, List.append_nil]
    exact framed.wire
  | false =>
    have hwhole := framed.stream orderly hc
    rw [inFlight, (orderly.live_eq h hw next).1, List.flatMap_singleton, hbytes,
      ← List.append_assoc] at hwhole
    exact ⟨next.remaining, hwhole⟩

theorem Framed.step (framed : Framed native serialize connection)
    (orderly : Orderly native serialize connection)
    (hstep : Connection.step native serialize connection e = some t) :
    Framed native serialize t := by
  obtain ⟨begun, framed⟩ := framed
  refine step_elim hstep ?post ?runPosted ?readLoop ?readMessage ?failReading ?writeLoop ?progress
    ?failWriting
  case post => exact fun _ => ⟨begun, framed.congr rfl rfl rfl rfl rfl⟩
  case runPosted =>
    intro handler posted _
    have shorter : FramedUpTo native serialize { connection with posted } begun :=
      framed.congr rfl rfl rfl rfl rfl
    cases handler with
    | startImpl =>
      obtain hsame | ⟨-, -, hstarts⟩ := startImpl_cases { connection with posted }
      · rw [Connection.runPosted, hsame]
        exact ⟨begun, shorter⟩
      · rw [Connection.runPosted, hstarts]
        exact ⟨begun, shorter.congr rfl rfl rfl rfl rfl⟩
    | stopImpl => exact ⟨begun, shorter.stopImpl⟩
    | sendImpl message => exact ⟨begun, shorter.sendImpl message⟩
  case readLoop => exact ⟨begun, framed.congr rfl rfl rfl rfl rfl⟩
  case readMessage =>
    intro message
    simp only [Connection.readMessage]
    split <;> exact ⟨begun, framed.congr rfl rfl rfl rfl rfl⟩
  case failReading => exact ⟨begun, framed.stopImpl.congr rfl rfl rfl rfl rfl⟩
  case writeLoop => exact fun i _ _ _ _ => framed.writeLoop i
  case progress =>
    exact fun i writer next bytes h hw _ hbytes hclosed =>
      ⟨begun, framed.setWriter orderly h hw hbytes hclosed⟩
  case failWriting => exact fun i _ _ _ => ⟨begun, framed.failWriting i⟩

theorem framed_opened {config : ConnectionConfig} (h : create config = .ok connection) :
    Framed native serialize (connection.post .startImpl) :=
  (framed_create h).step (e := .post .startImpl) (orderly_create h) rfl

theorem Framed.exec (framed : Framed native serialize connection)
    (orderly : Orderly native serialize connection) {es : List (Event ι ο)}
    (run : (Connection.step native serialize).exec connection es = some t) :
    Framed native serialize t := by
  have invariant : (Connection.step (ι := ι) native serialize).Invariant fun connection =>
      Orderly native serialize connection ∧ Framed native serialize connection := by
    intro connection e t h hstep
    exact ⟨invariant_orderly _ _ _ h.1 hstep, h.2.step h.1 hstep⟩
  exact (invariant.exec ⟨orderly, framed⟩ run).2

/-- An open connection at which nobody writes has written all it has accepted. -/
theorem Framed.at_rest (framed : Framed native serialize connection)
    (orderly : Orderly native serialize connection) (hopen : connection.closed = false)
    (hlive : connection.live = []) :
    connection.wire = frames native serialize connection.codec connection.accepted ∧
      ∀ message ∈ connection.accepted, Sendable serialize connection.codec message := by
  obtain ⟨begun, framed⟩ := framed
  have hidle := (orderly.writing_eq_false_iff hopen).mpr hlive
  have hqueue := orderly.idle hopen hidle
  have hstream := orderly.stream hopen
  rw [inFlight, hlive, hqueue, List.flatMap_nil, List.append_nil] at hstream
  have haccepted := framed.queued hopen
  rw [hqueue, List.append_nil] at haccepted
  exact ⟨(List.append_nil _).symm.trans hstream, haccepted ▸ framed.sendable⟩

end Begun

section Guarantees

variable {config : ConnectionConfig}

/-- The steps in which a write loop comes to the head of its loop. -/
def TakesNext (connection : Connection ι ο) : Event ι ο → Prop
  | .writerStarts _ => True
  | .writeCompletes i => connection.writers[i]? = some (.sendingPayload [])
  | _ => False

/-- What the write path guarantees in every state. -/
structure WritePath (native : Endian) (serialize : ο → Option (List UInt8))
    (config : ConnectionConfig) (connection : Connection ι ο) : Prop where
  /-- Open: one live write loop if `writing`, otherwise none and nothing to write. -/
  writers : connection.closed = false → connection.live.length = connection.writing.toNat ∧
    (connection.writing = false → connection.writeQueue = [])
  sent : connection.wire <+: frames native serialize ⟨config.maxMessageBytes⟩ connection.accepted
  /-- Open: what is not yet on the wire is in flight or queued, in the order of acceptance. -/
  kept : connection.closed = false →
    connection.wire ++ connection.inFlight ++
        frames native serialize ⟨config.maxMessageBytes⟩ connection.writeQueue =
      frames native serialize ⟨config.maxMessageBytes⟩ connection.accepted
  /-- The messages begun have a frame, their length and their serialisation. Open: all other
  accepted messages are queued, and the frames of the begun ones are on the wire but for what
  is in flight. -/
  begun : ∃ begun, begun <+: connection.accepted ∧
    (∀ message ∈ begun, ∃ data, serialize message = some data ∧
      MessageChannel.Framable ⟨config.maxMessageBytes⟩ data ∧
      frame native serialize ⟨config.maxMessageBytes⟩ message =
        MessageChannel.frame native data) ∧
    connection.wire <+: frames native serialize ⟨config.maxMessageBytes⟩ begun ∧
    (connection.closed = false → connection.accepted = begun ++ connection.writeQueue ∧
      connection.wire ++ connection.inFlight =
        frames native serialize ⟨config.maxMessageBytes⟩ begun)
  /-- The next message in the queue is begun if it has a frame, and closes the connection if it
  has none. -/
  next : connection.closed = false → ∀ message queue e t,
    connection.writeQueue = message :: queue → connection.TakesNext e →
    step native serialize connection e = some t → t.wire = connection.wire ∧
      ((Sendable serialize ⟨config.maxMessageBytes⟩ message ∧ t.closed = false ∧
          t.writeQueue = queue ∧
          t.inFlight = frame native serialize ⟨config.maxMessageBytes⟩ message) ∨
        (¬Sendable serialize ⟨config.maxMessageBytes⟩ message ∧ t.closed = true))
  /-- A failed write closes the connection. -/
  failed : ∀ i t, step native serialize connection (.writeFails i) = some t →
    t.wire = connection.wire ∧ t.closed = true
  bounded : connection.writeQueue.length ≤ config.maxQueuedMessages
  /-- Below the limit a message is accepted, at the limit it closes the connection. -/
  admission : connection.closed = false → ∀ message,
    (connection.writeQueue.length < config.maxQueuedMessages ∧
        (connection.sendImpl message).accepted = connection.accepted ++ [message] ∧
        (connection.sendImpl message).closed = false) ∨
      (connection.writeQueue.length = config.maxQueuedMessages ∧
        (connection.sendImpl message).accepted = connection.accepted ∧
        (connection.sendImpl message).closed = true)
  /-- Closed: nothing is queued, and nothing is accepted, spawned or written any more. -/
  final : connection.closed = true → connection.writeQueue = [] ∧
    ∀ es t, (step native serialize).exec connection es = some t →
      t.writeQueue = [] ∧ connection.Frozen t

theorem sendImpl_cases (hopen : connection.closed = false) (message : ο) :
    (connection.writeQueue.length < connection.maxQueuedMessages ∧
        (connection.sendImpl message).accepted = connection.accepted ++ [message] ∧
        (connection.sendImpl message).closed = false) ∨
      (connection.maxQueuedMessages ≤ connection.writeQueue.length ∧
        (connection.sendImpl message).accepted = connection.accepted ∧
        (connection.sendImpl message).closed = true) := by
  by_cases hfull : connection.maxQueuedMessages ≤ connection.writeQueue.length
  · right
    simp [sendImpl, hopen, hfull, (sameOutbox_stopImpl connection).accepted]
  · left
    refine ⟨by omega, ?_⟩
    simp only [sendImpl, hopen, hfull, Bool.false_eq_true, if_false]
    split <;> exact ⟨rfl, rfl⟩

@[simp] theorem failWriting_closed (i : Nat) : (connection.failWriting i).closed = true :=
  stopImpl_closed

@[simp] theorem failWriting_wire (i : Nat) :
    (connection.failWriting i).wire = connection.wire := by
  simp only [failWriting, setWriter, stopImpl]
  split <;> rfl

/-- The loop that has nothing more to write takes the next message. -/
theorem writeLoop_next (orderly : Orderly native serialize connection) {i : Nat}
    {writer : Writer} (h : connection.writers[i]? = some writer) (hw : writer ≠ .finished)
    (hopen : connection.closed = false) {message : ο} {queue : List ο}
    (hqueue : connection.writeQueue = message :: queue)
    (hstep : connection.writeLoop native serialize i = t) :
    t.wire = connection.wire ∧
      ((Sendable serialize connection.codec message ∧ t.closed = false ∧ t.writeQueue = queue ∧
          t.inFlight = frame native serialize connection.codec message) ∨
        (¬Sendable serialize connection.codec message ∧ t.closed = true)) := by
  subst hstep
  by_cases sendable : Sendable serialize connection.codec message
  · obtain ⟨data, hdata, framable⟩ := sendable
    obtain ⟨lengthPrefix, hprepare⟩ : ∃ lengthPrefix,
        MessageChannel.prepare connection.codec native (serialize message) =
          .ok (lengthPrefix, data) := ⟨_, hdata ▸ framable.prepare⟩
    have hloop : connection.writeLoop native serialize i =
        { connection with writeQueue := queue }.setWriter i (.sendingPrefix lengthPrefix data) := by
      simp only [writeLoop, hopen, hqueue, hprepare, Bool.false_eq_true, if_false]
    have hlive := (orderly.live_eq h hw (.sendingPrefix lengthPrefix data)).2
    rw [if_neg (by simp)] at hlive
    rw [hloop]
    refine ⟨rfl, .inl ⟨⟨data, hdata, framable⟩, hopen, rfl, ?_⟩⟩
    change (connection.setWriter i (.sendingPrefix lengthPrefix data)).live.flatMap _ = _
    rw [hlive, List.flatMap_singleton, frame, hprepare]
    rfl
  · obtain ⟨error, hprepare⟩ : ∃ error,
        MessageChannel.prepare connection.codec native (serialize message) = .error error :=
      prepare_of_not_sendable sendable
    have hloop : connection.writeLoop native serialize i =
        { connection with writeQueue := queue }.failWriting i := by
      simp only [writeLoop, hopen, hqueue, hprepare, Bool.false_eq_true, if_false]
    rw [hloop]
    exact ⟨failWriting_wire i, .inr ⟨sendable, failWriting_closed i⟩⟩

theorem takesNext_step (takes : connection.TakesNext e)
    (hstep : step native serialize connection e = some t) :
    ∃ (i : Nat) (writer : Writer), connection.writers[i]? = some writer ∧ writer ≠ .finished ∧
      connection.writeLoop native serialize i = t := by
  cases e with
  | writerStarts i =>
    simp only [step, Option.ite_none_right_eq_some, Option.some.injEq] at hstep
    exact ⟨i, .spawned, hstep.1, by simp, hstep.2⟩
  | writeCompletes i =>
    have hwriter : connection.writers[i]? = some (.sendingPayload []) := takes
    simp only [step, writeCompletes, hwriter, Option.some.injEq] at hstep
    exact ⟨i, .sendingPayload [], hwriter, by simp, hstep⟩
  | _ => exact takes.elim

theorem writeFails_step {i : Nat}
    (hstep : step native serialize connection (.writeFails i) = some t) :
    connection.failWriting i = t := by
  simp only [step] at hstep
  split at hstep
  · exact Option.some.inj hstep
  · exact Option.some.inj hstep
  · cases hstep

/-- Whatever the order of sends, writes, failures and closing: an open connection writes the
messages it has accepted in their order, each as one whole frame, and it closes before it would
leave one out. -/
theorem accepted_messages_written_in_order {initial : Connection ι ο} {es : List (Event ι ο)}
    (hcreate : create config = .ok initial)
    (run : (step native serialize).exec initial es = some connection) :
    connection.WritePath native serialize config := by
  have orderly := invariant_orderly.exec (orderly_create hcreate) run
  obtain ⟨begun, framed⟩ := (framed_create hcreate).exec (orderly_create hcreate) run
  obtain ⟨hcodec, hmax⟩ := limits_exec hcreate run
  have bounded := hmax ▸ orderly.bounded
  refine ⟨?writers, ?sent, ?kept, ?begun, ?next, ?failed, bounded, ?admission, ?final⟩
  case writers => exact fun hopen => ⟨orderly.length_live hopen, orderly.idle hopen⟩
  case sent => exact hcodec ▸ orderly.sent
  case kept => exact fun hopen => hcodec ▸ orderly.stream hopen
  case begun =>
    rw [← hcodec]
    refine ⟨begun, framed.accepted, fun message hmem => ?_, framed.wire, fun hopen => ?_⟩
    · obtain ⟨data, hdata, framable⟩ := framed.sendable message hmem
      exact ⟨data, hdata, framable, frame_of_framable hdata framable⟩
    · exact ⟨framed.queued hopen, framed.stream orderly hopen⟩
  case next =>
    intro hopen message queue e t hqueue takes hstep
    obtain ⟨i, writer, h, hw, hloop⟩ := takesNext_step takes hstep
    rw [← hcodec]
    exact writeLoop_next orderly h hw hopen hqueue hloop
  case failed =>
    intro i t hstep
    obtain rfl := writeFails_step hstep
    exact ⟨failWriting_wire i, failWriting_closed i⟩
  case admission =>
    intro hopen message
    obtain ⟨hroom, h⟩ | ⟨hfull, h⟩ := sendImpl_cases hopen message
    · exact .inl ⟨hmax ▸ hroom, h⟩
    · exact .inr ⟨by omega, h⟩
  case final =>
    intro hclosed
    refine ⟨orderly.drained hclosed, fun es t hrun => ?_⟩
    have frozen := frozen_exec hclosed hrun
    exact ⟨(invariant_orderly.exec orderly hrun).drained frozen.closed, frozen⟩

/-- The wire form of a message that has only a small id: field 1 as a one-byte varint, left out
at 0. An empty message cannot be framed. -/
def serializeId (message : Protocol.ServerMessage) : Option (List UInt8) :=
  some (if message.requestId = 0 then [] else [8, message.requestId.toUInt8])

/-- A second message comes while the first frame is between its prefix and its payload. -/
def overlapping : List (Event Protocol.ClientMessage Protocol.ServerMessage) :=
  [.post (.sendImpl { requestId := 1 }), .runPosted, .writerStarts 0, .writeSome 0 3,
    .writeSome 0 1, .post (.sendImpl { requestId := 2 }), .runPosted, .writeCompletes 0,
    .writeSome 0 2, .writeCompletes 0, .writeSome 0 4]

/-- An empty message is accepted. -/
def noFrame : List (Event Protocol.ClientMessage Protocol.ServerMessage) :=
  [.post (.sendImpl { requestId := 0 }), .runPosted]

/-- The overlapping sends, a message that has no frame, and a write that fails within a prefix. -/
theorem accepted_messages_written_in_order_overlapping :
    (∃ connection, (step .little serializeId).exec
        { codec := ⟨64⟩, maxQueuedMessages := 1 } overlapping = some connection ∧
      connection.WritePath .little serializeId ⟨64, 1⟩ ∧
      connection.wire = [0, 0, 0, 2, 8, 1, 0, 0, 0, 2]) ∧
    (∃ connection t, (step .little serializeId).exec
        { codec := ⟨64⟩, maxQueuedMessages := 1 } noFrame = some connection ∧
      connection.WritePath .little serializeId ⟨64, 1⟩ ∧
      step .little serializeId connection (.writerStarts 0) = some t ∧
      ¬Sendable serializeId ⟨64⟩ { requestId := 0 } ∧ t.closed = true) ∧
    (∃ connection t, (step .little serializeId).exec
        { codec := ⟨64⟩, maxQueuedMessages := 1 } (overlapping.take 4) = some connection ∧
      connection.WritePath .little serializeId ⟨64, 1⟩ ∧
      step .little serializeId connection (.writeFails 0) = some t ∧
      t.wire = [0, 0, 0] ∧ t.closed = true) := by
  refine ⟨⟨_, rfl, @accepted_messages_written_in_order _ _ .little serializeId _ ⟨64, 1⟩ _
    overlapping rfl rfl, by decide⟩, ?_, ?_⟩
  · have path := @accepted_messages_written_in_order _ _ .little serializeId _ ⟨64, 1⟩ _
      noFrame rfl rfl
    obtain ⟨-, ⟨-, hopen, -⟩ | refused⟩ := path.next rfl _ _ (.writerStarts 0) _ rfl trivial rfl
    · cases hopen
    · exact ⟨_, _, rfl, path, rfl, refused⟩
  · have path := @accepted_messages_written_in_order _ _ .little serializeId _ ⟨64, 1⟩ _
      (overlapping.take 4) rfl rfl
    exact ⟨_, _, rfl, path, rfl, path.failed 0 _ rfl⟩

end Guarantees

end Connection

section Reading

open Connection

variable {ι μ : Type} {parseFromArray : List UInt8 → Int32 → Option μ}
variable {serialize : μ → Option (List UInt8)} {native native' : Endian}
variable {codec : MessageFrameCodec}

/-- Where every message has a frame, the one that is read is the first. -/
theorem readMessage_next (inverts : MessageChannel.Inverts parseFromArray serialize)
    (bounded : ∀ message data, serialize message = some data → data.length ≤ 2147483647)
    {reader reader' : MessageChannel} {messages : List μ} {message : μ} {stream rest : List UInt8}
    (sendable : ∀ message ∈ messages, Sendable serialize codec message)
    (hstream : stream <+: frames native serialize codec messages)
    (hread : reader.readMessage parseFromArray native' stream = (.ok message, reader', rest)) :
    ∃ later, messages = message :: later ∧
      stream.length = (Connection.frame native serialize codec message).length + rest.length := by
  cases messages with
  | nil =>
    obtain rfl := List.prefix_nil.mp hstream
    cases hread
  | cons head messages =>
    obtain ⟨data, hdata, framable⟩ := sendable head List.mem_cons_self
    have hframe : Connection.frame native serialize codec head =
        MessageChannel.frame native data := frame_of_framable hdata framable
    have hsplit : frames native serialize codec (head :: messages) =
        Connection.frame native serialize codec head ++ frames native serialize codec messages :=
      List.flatMap_cons
    rw [hsplit] at hstream
    by_cases hle : (Connection.frame native serialize codec head).length ≤ stream.length
    · obtain ⟨tail, rfl⟩ :=
        List.prefix_of_prefix_length_le (List.prefix_append _ _) hstream hle
      rw [hframe] at hread hstream ⊢
      by_cases hlarge : MessageChannel.Framable reader.frameCodec data
      · rw [MessageChannel.readMessage_frame inverts (bounded head data hdata) hdata hlarge]
          at hread
        cases hread
        exact ⟨messages, rfl, by rw [hframe, List.length_append]⟩
      · obtain ⟨error, channel, rest', hrefused⟩ : ∃ error channel rest',
            reader.readMessage parseFromArray native' (MessageChannel.frame native data ++ tail) =
              (.error error, channel, rest') :=
          MessageChannel.readMessage_oversized framable hlarge hstream
        rw [hrefused] at hread
        cases hread
    · -- a part of one frame is not read
      have honly : stream <+: frames native serialize codec [head] := by
        rw [frames, List.flatMap_singleton]
        exact List.prefix_of_prefix_length_le hstream (List.prefix_append _ _)
          (Nat.le_of_not_le hle)
      obtain ⟨k, hk, hlength⟩ := readMessage_sent inverts bounded honly hread
      obtain rfl : k = 0 := by
        have hlt := (List.getElem?_eq_some_iff.mp hk).1
        rw [List.length_singleton] at hlt
        omega
      rw [List.take_of_length_le (Nat.le_refl 1), frames, List.flatMap_singleton] at hlength
      omega

/-- What a reader knows of the connection at the other end when it has read `consumed` bytes
and handled `handled`. Once it has closed it handles nothing more, whatever it reads. -/
structure Received (native : Endian) (serialize : μ → Option (List UInt8))
    (sender : Connection ι μ) (handled : List μ) (closed : Bool) (consumed : Nat) : Prop where
  handed : handled <+: sender.accepted
  read : closed = false →
    consumed = (frames native serialize sender.codec handled).length ∧
      ∀ message ∈ handled, Sendable serialize sender.codec message

variable {sender later : Connection ι μ} {handled : List μ} {closed : Bool} {consumed : Nat}

theorem received_nil (native : Endian) (serialize : μ → Option (List UInt8))
    (sender : Connection ι μ) (closed : Bool) : Received native serialize sender [] closed 0 where
  handed := List.nil_prefix
  read _ := ⟨rfl, fun _ h => by cases h⟩

/-- The sender goes on. -/
theorem Received.exec (received : Received native serialize sender handled closed consumed)
    {es : List (Event ι μ)} (run : (Connection.step native serialize).exec sender es = some later) :
    Received native serialize later handled closed consumed := by
  obtain ⟨hcodec, haccepted⟩ := lasting_exec run
  refine ⟨received.handed.trans haccepted, fun hopen => ?_⟩
  rw [hcodec]
  exact received.read hopen

/-- The reader handles nothing and reads nothing, or has closed. -/
theorem Received.stays (received : Received native serialize sender handled closed consumed)
    {closed' : Bool} {consumed' : Nat}
    (stays : closed' = false → closed = false ∧ consumed' = consumed) :
    Received native serialize sender handled closed' consumed' where
  handed := received.handed
  read hopen := by
    obtain ⟨hbefore, rfl⟩ := stays hopen
    exact received.read hbefore

/-- What a reader finds next. -/
theorem Received.unread (received : Received native serialize sender handled false consumed)
    (framed : Framed native serialize sender) (hmore : sender.wire.drop consumed ≠ []) :
    ∃ messages, (∀ message ∈ messages, Sendable serialize sender.codec message) ∧
      handled ++ messages <+: sender.accepted ∧
      sender.wire.drop consumed <+: frames native serialize sender.codec messages := by
  obtain ⟨begun, framed⟩ := framed
  obtain ⟨rfl, -⟩ := received.read rfl
  obtain ⟨messages, rfl⟩ | ⟨messages, rfl⟩ :=
    List.prefix_or_prefix_of_prefix received.handed framed.accepted
  · refine ⟨messages, fun m hm => framed.sendable m (List.mem_append_right _ hm),
      framed.accepted, ?_⟩
    have hwire := framed.wire
    rw [frames_append] at hwire
    exact drop_length_of_append hwire
  · -- nothing is on the wire beyond what was handled
    refine absurd (List.drop_eq_nil_of_le ?_) hmore
    rw [frames_append, List.length_append]
    exact Nat.le_add_right_of_le framed.wire.length_le

end Reading

end Stalker2D.Network
