import Stalker2D.Shared.MessageChannel
import Stalker2D.Shared.WritePath

/-!
# From `send` to `readMessage`

A message that was sent is first posted, then queued, then framed on the wire, and is
read on the other side. `outbox` has what was posted or accepted so far, in order: only
`send` adds to it, and as long as the connection is open nothing leaves it.
-/

namespace Stalker2D.Network

/-- The message of a posted `sendImpl`. -/
def Posted.message? {ο : Type} : Posted ο → Option ο
  | .sendImpl message => some message
  | .startImpl => none
  | .stopImpl => none

namespace Connection

variable {ι ο : Type} {native : Endian} {serialize : ο → Option (List UInt8)}
variable {connection t : Connection ι ο} {e : Event ι ο}

/-- The messages that were sent and not refused by the write queue. -/
def outbox (connection : Connection ι ο) : List ο :=
  connection.accepted ++ connection.posted.filterMap Posted.message?

/-- What an event sends. -/
def Event.sends : Event ι ο → List ο
  | .post (.sendImpl message) => [message]
  | _ => []

/-- Neither the posted handlers nor the accepted messages have changed. -/
structure SameOutbox (connection later : Connection ι ο) : Prop where
  accepted : later.accepted = connection.accepted
  posted : later.posted = connection.posted

theorem SameOutbox.refl (connection : Connection ι ο) : SameOutbox connection connection :=
  ⟨rfl, rfl⟩

theorem SameOutbox.outbox (h : SameOutbox connection t) : t.outbox = connection.outbox := by
  rw [Connection.outbox, Connection.outbox, h.accepted, h.posted]

theorem sameOutbox_stopImpl (connection : Connection ι ο) :
    SameOutbox connection connection.stopImpl := by
  simp only [stopImpl]
  split
  · exact .refl _
  · exact ⟨rfl, rfl⟩

theorem sameOutbox_readMessage (connection : Connection ι ο) (message : ι) :
    SameOutbox connection (connection.readMessage message) := by
  simp only [readMessage]
  split
  · exact ⟨rfl, rfl⟩
  · exact ⟨rfl, rfl⟩

theorem sameOutbox_failReading (connection : Connection ι ο) :
    SameOutbox connection connection.failReading := by
  have h := sameOutbox_stopImpl connection
  exact ⟨h.accepted, h.posted⟩

theorem sameOutbox_failWriting (connection : Connection ι ο) (i : Nat) :
    SameOutbox connection (connection.failWriting i) := by
  have h := sameOutbox_stopImpl { connection with writing := false }
  exact ⟨h.accepted, h.posted⟩

theorem sameOutbox_writeLoop (connection : Connection ι ο) (i : Nat) :
    SameOutbox connection (connection.writeLoop native serialize i) := by
  rw [writeLoop.eq_def]
  split
  · exact ⟨rfl, rfl⟩
  · split
    · exact ⟨rfl, rfl⟩
    next message writeQueue _ =>
      dsimp only
      split
      · have h := sameOutbox_failWriting { connection with writeQueue } i
        exact ⟨h.accepted, h.posted⟩
      · exact ⟨rfl, rfl⟩

theorem posted_startImpl (connection : Connection ι ο) :
    connection.startImpl.posted = connection.posted := by
  rw [startImpl]
  split
  · rfl
  · split <;> rfl

theorem posted_sendImpl (connection : Connection ι ο) (message : ο) :
    (connection.sendImpl message).posted = connection.posted := by
  rw [sendImpl]
  split
  · rfl
  · split
    · exact (sameOutbox_stopImpl connection).posted
    · dsimp only
      split <;> rfl

/-- The head of the posted handlers runs. -/
theorem outbox_runPosted {handler : Posted ο} {posted : List (Posted ο)}
    (h : connection.posted = handler :: posted) :
    (({ connection with posted }.runPosted handler).outbox.Sublist connection.outbox) ∧
      (({ connection with posted }.runPosted handler).closed = false →
        ({ connection with posted }.runPosted handler).outbox = connection.outbox) := by
  have hbefore : connection.outbox =
      connection.accepted ++ (handler :: posted).filterMap Posted.message? := by
    rw [Connection.outbox, h]
  have hafter : ∀ later : Connection ι ο, SameOutbox { connection with posted } later →
      handler.message? = none → later.outbox = connection.outbox := by
    intro later same hnone
    rw [same.outbox, hbefore, List.filterMap_cons_none hnone]
    rfl
  cases handler with
  | startImpl =>
    have same : SameOutbox { connection with posted } { connection with posted }.startImpl := by
      simp only [startImpl]
      split
      · exact .refl _
      · split
        · exact .refl _
        · exact ⟨rfl, rfl⟩
    have houtbox := hafter _ same rfl
    exact ⟨houtbox ▸ .refl _, fun _ => houtbox⟩
  | stopImpl =>
    have houtbox := hafter _ (sameOutbox_stopImpl _) rfl
    exact ⟨houtbox ▸ .refl _, fun _ => houtbox⟩
  | sendImpl message =>
    have hsplit : connection.outbox =
        connection.accepted ++ message :: posted.filterMap Posted.message? := hbefore
    have hdropped : ∀ later : Connection ι ο, SameOutbox { connection with posted } later →
        later.outbox.Sublist connection.outbox := by
      intro later same
      rw [same.outbox, hsplit]
      exact (List.Sublist.refl _).append (List.sublist_cons_self _ _)
    simp only [runPosted, sendImpl]
    split
    next hclosed =>
      exact ⟨hdropped _ (.refl _), fun hopen => absurd hclosed (Bool.eq_false_iff.mp hopen)⟩
    next =>
      split
      next =>
        exact ⟨hdropped _ (sameOutbox_stopImpl _), fun hopen => by simp at hopen⟩
      next =>
        -- from the head of the posted ones to the end of the accepted ones
        have haccepted : ∀ later : Connection ι ο,
            later.accepted = connection.accepted ++ [message] → later.posted = posted →
            later.outbox.Sublist connection.outbox ∧
              (later.closed = false → later.outbox = connection.outbox) := by
          intro later h₁ h₂
          have houtbox : later.outbox = connection.outbox := by
            rw [Connection.outbox, h₁, h₂, hsplit, List.append_assoc]
            rfl
          exact ⟨houtbox ▸ .refl _, fun _ => houtbox⟩
        split
        · exact haccepted _ rfl rfl
        · exact haccepted _ rfl rfl

/-- Only `send` adds to the outbox, at its end; an open connection has lost nothing. -/
theorem outbox_step (hstep : step native serialize connection e = some t) :
    t.outbox.Sublist (connection.outbox ++ e.sends) ∧
      (t.closed = false → t.outbox = connection.outbox ++ e.sends) := by
  have unchanged : SameOutbox connection t → e.sends = [] →
      t.outbox.Sublist (connection.outbox ++ e.sends) ∧
        (t.closed = false → t.outbox = connection.outbox ++ e.sends) := by
    intro same hnone
    rw [hnone, List.append_nil, same.outbox]
    exact ⟨.refl _, fun _ => rfl⟩
  cases e with
  | post handler =>
    obtain rfl := Option.some.inj hstep
    have houtbox : (connection.post handler).outbox =
        connection.outbox ++ (Event.post handler : Event ι ο).sends := by
      rw [Connection.outbox, Connection.outbox, List.append_assoc]
      simp only [post, List.filterMap_append]
      cases handler <;> rfl
    rw [houtbox]
    exact ⟨.refl _, fun _ => rfl⟩
  | runPosted =>
    simp only [step] at hstep
    split at hstep
    · cases hstep
    next handler posted h =>
      obtain rfl := Option.some.inj hstep
      rw [show (Event.runPosted : Event ι ο).sends = [] from rfl, List.append_nil]
      exact outbox_runPosted h
  | readerStarts =>
    simp only [step, Option.ite_none_right_eq_some, Option.some.injEq] at hstep
    obtain ⟨-, rfl⟩ := hstep
    exact unchanged ⟨rfl, rfl⟩ rfl
  | readCompletes message =>
    simp only [step, Option.ite_none_right_eq_some, Option.some.injEq] at hstep
    obtain ⟨-, rfl⟩ := hstep
    exact unchanged (sameOutbox_readMessage _ _) rfl
  | readFails =>
    simp only [step, Option.ite_none_right_eq_some, Option.some.injEq] at hstep
    obtain ⟨-, rfl⟩ := hstep
    exact unchanged (sameOutbox_failReading _) rfl
  | handlerReturns =>
    simp only [step, Option.ite_none_right_eq_some, Option.some.injEq] at hstep
    obtain ⟨-, rfl⟩ := hstep
    exact unchanged ⟨rfl, rfl⟩ rfl
  | handlerThrows =>
    simp only [step, Option.ite_none_right_eq_some, Option.some.injEq] at hstep
    obtain ⟨-, rfl⟩ := hstep
    exact unchanged (sameOutbox_failReading _) rfl
  | writerStarts i =>
    simp only [step, Option.ite_none_right_eq_some, Option.some.injEq] at hstep
    obtain ⟨-, rfl⟩ := hstep
    exact unchanged (sameOutbox_writeLoop _ _) rfl
  | writeSome i n =>
    simp only [step, Option.ite_none_left_eq_some, writeSome] at hstep
    obtain ⟨-, hstep⟩ := hstep
    split at hstep
    · simp only [Option.ite_none_right_eq_some, Option.some.injEq] at hstep
      obtain ⟨-, rfl⟩ := hstep
      exact unchanged ⟨rfl, rfl⟩ rfl
    · simp only [Option.ite_none_right_eq_some, Option.some.injEq] at hstep
      obtain ⟨-, rfl⟩ := hstep
      exact unchanged ⟨rfl, rfl⟩ rfl
    · cases hstep
  | writeCompletes i =>
    simp only [step, writeCompletes] at hstep
    split at hstep
    · obtain rfl := Option.some.inj hstep
      exact unchanged ⟨rfl, rfl⟩ rfl
    · obtain rfl := Option.some.inj hstep
      exact unchanged (sameOutbox_writeLoop _ _) rfl
    · cases hstep
  | writeFails i =>
    simp only [step] at hstep
    split at hstep
    · obtain rfl := Option.some.inj hstep
      exact unchanged (sameOutbox_failWriting _ _) rfl
    · obtain rfl := Option.some.inj hstep
      exact unchanged (sameOutbox_failWriting _ _) rfl
    · cases hstep

theorem closed_exec {es : List (Event ι ο)}
    (run : (step native serialize).exec connection es = some t) (hopen : t.closed = false) :
    connection.closed = false := by
  cases hclosed : connection.closed with
  | false => rfl
  | true =>
    rw [(frozen_exec hclosed run).closed] at hopen
    cases hopen

theorem outbox_exec {es : List (Event ι ο)}
    (run : (step native serialize).exec connection es = some t) :
    t.outbox.Sublist (connection.outbox ++ es.flatMap Event.sends) ∧
      (t.closed = false → t.outbox = connection.outbox ++ es.flatMap Event.sends) := by
  induction es generalizing connection with
  | nil =>
    obtain rfl := Option.some.inj run
    rw [List.flatMap_nil, List.append_nil]
    exact ⟨.refl _, fun _ => rfl⟩
  | cons e es ih =>
    obtain ⟨u, hstep, hrest⟩ := Machine.exec_cons_eq_some.mp run
    obtain ⟨hsub, heq⟩ := outbox_step hstep
    obtain ⟨hsub', heq'⟩ := ih hrest
    rw [List.flatMap_cons, ← List.append_assoc]
    constructor
    · exact hsub'.trans (hsub.append (.refl _))
    · intro hopen
      rw [heq' hopen, heq (closed_exec hrest hopen)]

theorem accepted_grows (hstep : step native serialize connection e = some t) :
    connection.accepted <+: t.accepted := by
  have same : ∀ later : Connection ι ο, later.accepted = connection.accepted →
      connection.accepted <+: later.accepted := by
    intro later h
    exact ⟨[], by rw [h, List.append_nil]⟩
  refine step_elim (P := fun t => connection.accepted <+: t.accepted) hstep ?post ?runPosted
    ?readLoop ?readMessage ?failReading ?writeLoop ?progress ?failWriting
  case post => exact fun _ => List.prefix_rfl
  case runPosted =>
    intro handler posted _
    cases handler with
    | startImpl =>
      simp only [runPosted, startImpl]
      split
      · exact List.prefix_rfl
      · split <;> exact List.prefix_rfl
    | stopImpl => exact same _ (sameOutbox_stopImpl { connection with posted }).accepted
    | sendImpl message =>
      simp only [runPosted, sendImpl]
      split
      · exact List.prefix_rfl
      · split
        · exact same _ (sameOutbox_stopImpl { connection with posted }).accepted
        · split <;> exact List.prefix_append _ _
  case readLoop => exact List.prefix_rfl
  case readMessage => exact fun _ => same _ (sameOutbox_readMessage _ _).accepted
  case failReading => exact same _ (sameOutbox_failReading _).accepted
  case writeLoop => exact fun _ _ _ _ _ => same _ (sameOutbox_writeLoop _ _).accepted
  case progress => exact fun _ _ _ _ _ _ _ _ _ => List.prefix_rfl
  case failWriting => exact fun _ _ _ _ => same _ (sameOutbox_failWriting _ _).accepted

/-- What later events leave of a connection: its limits, and all it has accepted. -/
theorem lasting_exec {es : List (Event ι ο)}
    (run : (step native serialize).exec connection es = some t) :
    t.codec = connection.codec ∧ connection.accepted <+: t.accepted := by
  induction es generalizing connection with
  | nil =>
    obtain rfl := Option.some.inj run
    exact ⟨rfl, List.prefix_rfl⟩
  | cons e es ih =>
    obtain ⟨u, hstep, hrest⟩ := Machine.exec_cons_eq_some.mp run
    obtain ⟨hcodec, hprefix⟩ := ih hrest
    exact ⟨hcodec.trans (limits_step hstep).1, (accepted_grows hstep).trans hprefix⟩

end Connection

section Reading

open Connection

variable {μ : Type} {parseFromArray : List UInt8 → Int32 → Option μ}
variable {serialize : μ → Option (List UInt8)} {native native' : Endian}
variable {codec : MessageFrameCodec}

theorem frame_cases (native : Endian) (serialize : μ → Option (List UInt8))
    (codec : MessageFrameCodec) (message : μ) :
    Connection.frame native serialize codec message = [] ∨
      ∃ data, serialize message = some data ∧ MessageChannel.Framable codec data ∧
        Connection.frame native serialize codec message = MessageChannel.frame native data := by
  cases hdata : serialize message with
  | none => exact .inl (by rw [Connection.frame, hdata]; rfl)
  | some data =>
    by_cases h : MessageChannel.Framable codec data
    · exact .inr ⟨data, rfl, h, by rw [Connection.frame, hdata, h.prepare]; rfl⟩
    · left
      obtain ⟨error, herror⟩ : ∃ error, MessageChannel.prepare codec native (some data) =
          .error error := MessageChannel.prepare_of_not_framable h
      rw [Connection.frame, hdata, herror]

/-- A message that is read is one of those whose frames are on the wire, and the read ends
where its frame does. -/
theorem readMessage_sent (inverts : MessageChannel.Inverts parseFromArray serialize)
    (bounded : ∀ message data, serialize message = some data → data.length ≤ 2147483647)
    {reader reader' : MessageChannel} {messages : List μ} {message : μ} {stream rest : List UInt8}
    (hstream : stream <+: frames native serialize codec messages)
    (hread : reader.readMessage parseFromArray native' stream = (.ok message, reader', rest)) :
    ∃ k : Nat, messages[k]? = some message ∧
      stream.length = (frames native serialize codec (messages.take (k + 1))).length +
        rest.length := by
  induction messages with
  | nil =>
    obtain rfl := List.prefix_nil.mp hstream
    cases hread
  | cons head messages ih =>
    have hsplit : ∀ rest : List μ, frames native serialize codec (head :: rest) =
        Connection.frame native serialize codec head ++ frames native serialize codec rest :=
      fun _ => List.flatMap_cons
    rw [hsplit] at hstream
    obtain hnone | ⟨data, hdata, framable, hframe⟩ := frame_cases native serialize codec head
    · -- a message that cannot be framed leaves no bytes
      rw [hnone, List.nil_append] at hstream
      obtain ⟨k, hk, hlength⟩ := ih hstream
      refine ⟨k + 1, hk, ?_⟩
      rw [List.take_succ_cons, hsplit, hnone, List.nil_append]
      exact hlength
    · rw [hframe] at hstream
      by_cases hlarge : MessageChannel.Framable reader.frameCodec data
      · by_cases hle : (MessageChannel.frame native data).length ≤ stream.length
        · obtain ⟨tail, rfl⟩ := List.prefix_of_prefix_length_le
            (List.prefix_append _ _) hstream hle
          rw [MessageChannel.readMessage_frame inverts (bounded head data hdata) hdata hlarge]
            at hread
          cases hread
          refine ⟨0, rfl, ?_⟩
          rw [List.take_succ_cons, List.take_zero, hsplit, hframe, List.length_append]
          simp [frames]
        · have hcut : stream = (MessageChannel.frame native data).take stream.length := by
            obtain ⟨after, hafter⟩ := hstream
            have htake := congrArg (List.take stream.length) hafter
            rwa [List.take_left, List.take_append_of_le_length (Nat.le_of_not_le hle)] at htake
          obtain ⟨channel, hshort⟩ : ∃ channel, reader.readMessage parseFromArray native'
              ((MessageChannel.frame native data).take stream.length) =
                (.error (.systemError .eof ""), channel, []) :=
            MessageChannel.readMessage_take hlarge (Nat.lt_of_not_le hle)
          rw [hcut, hshort] at hread
          cases hread
      · obtain ⟨error, channel, rest', hrefused⟩ : ∃ error channel rest',
            reader.readMessage parseFromArray native' stream = (.error error, channel, rest') :=
          MessageChannel.readMessage_oversized framable hlarge hstream
        rw [hrefused] at hread
        cases hread

end Reading

end Stalker2D.Network
