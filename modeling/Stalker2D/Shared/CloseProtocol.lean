import Stalker2D.Shared.Connection

/-!
# Reading and closing

One read loop at most, one handler at a time, one close. The read side of a
connection is changed only by `startImpl`, by the read loop itself and by its
failures; `read_cases` says so once, and `Reading` is what follows over a run.

`Closable` adds the close handler. It may throw: `notifyClosed` logs that and
returns, so how an invocation ends only shows in the list of invocations.
-/

namespace Stalker2D.Network

namespace Connection

variable {ι ο : Type} {native : Endian} {serialize : ο → Option (List UInt8)}
variable {connection t : Connection ι ο} {e : Event ι ο}

/-- The messages that arrived, in the order in which their frames did. -/
def arrived (es : List (Event ι ο)) : List ι :=
  es.filterMap fun
    | .readCompletes message => some message
    | _ => none

/-- How many invocations of the message handler have come to an end. -/
def completed (es : List (Event ι ο)) : Nat :=
  es.countP fun
    | .handlerReturns | .handlerThrows => true
    | _ => false

theorem arrived_append (es fs : List (Event ι ο)) : arrived (es ++ fs) = arrived es ++ arrived fs :=
  List.filterMap_append

theorem completed_append (es fs : List (Event ι ο)) :
    completed (es ++ fs) = completed es + completed fs :=
  List.countP_append

/-- The read side is the same. -/
structure SameReading (connection later : Connection ι ο) : Prop where
  started : later.started = connection.started
  reader : later.reader = connection.reader
  readLoops : later.readLoops = connection.readLoops
  handled : later.handled = connection.handled

theorem SameReading.refl (connection : Connection ι ο) : SameReading connection connection :=
  ⟨rfl, rfl, rfl, rfl⟩

theorem startImpl_cases (connection : Connection ι ο) :
    connection.startImpl = connection ∨
      (connection.started = false ∧ connection.closed = false ∧ connection.startImpl =
        { connection with
          started := true
          reader := .spawned
          readLoops := connection.readLoops + 1 }) := by
  simp only [startImpl]
  split
  · exact .inl rfl
  next hstarted =>
    split
    · exact .inl rfl
    next hclosed =>
      exact .inr ⟨Bool.eq_false_iff.mpr hstarted, Bool.eq_false_iff.mpr hclosed, rfl⟩

theorem sameReading_stopImpl (connection : Connection ι ο) :
    SameReading connection connection.stopImpl := by
  simp only [stopImpl]
  split
  · exact .refl _
  · exact ⟨rfl, rfl, rfl, rfl⟩

theorem sameReading_sendImpl (connection : Connection ι ο) (message : ο) :
    SameReading connection (connection.sendImpl message) := by
  simp only [sendImpl]
  split
  · exact .refl _
  · split
    · exact sameReading_stopImpl _
    · split <;> exact ⟨rfl, rfl, rfl, rfl⟩

theorem sameReading_failWriting (connection : Connection ι ο) (i : Nat) :
    SameReading connection (connection.failWriting i) := by
  have h := sameReading_stopImpl { connection with writing := false }
  exact ⟨h.started, h.reader, h.readLoops, h.handled⟩

theorem sameReading_writeLoop (connection : Connection ι ο) (i : Nat) :
    SameReading connection (connection.writeLoop native serialize i) := by
  rw [writeLoop.eq_def]
  split
  · exact ⟨rfl, rfl, rfl, rfl⟩
  · split
    · exact ⟨rfl, rfl, rfl, rfl⟩
    next message writeQueue _ =>
      dsimp only
      split
      · have h := sameReading_failWriting { connection with writeQueue } i
        exact ⟨h.started, h.reader, h.readLoops, h.handled⟩
      · exact ⟨rfl, rfl, rfl, rfl⟩

/-- Everything a step can do to the read side. -/
theorem read_cases (hstep : step native serialize connection e = some t) :
    (SameReading connection t ∧ arrived [e] = [] ∧ completed [e] = 0) ∨
      (e = .runPosted ∧ connection.started = false ∧ connection.closed = false ∧
        t.started = true ∧ t.reader = .spawned ∧ t.readLoops = connection.readLoops + 1 ∧
        t.handled = connection.handled) ∨
      (e = .readerStarts ∧ connection.reader = .spawned ∧ t = connection.readLoop) ∨
      (∃ message, e = .readCompletes message ∧ connection.reader = .reading ∧
        t = connection.readMessage message) ∨
      (e = .readFails ∧ connection.reader = .reading ∧ t = connection.failReading) ∨
      (e = .handlerReturns ∧ connection.reader = .handling ∧ t = connection.readLoop) ∨
      (e = .handlerThrows ∧ connection.reader = .handling ∧ t = connection.failReading) := by
  cases e with
  | post handler =>
    obtain rfl := Option.some.inj hstep
    exact .inl ⟨⟨rfl, rfl, rfl, rfl⟩, rfl, rfl⟩
  | runPosted =>
    simp only [step] at hstep
    split at hstep
    · cases hstep
    next handler posted _ =>
      obtain rfl := Option.some.inj hstep
      cases handler with
      | startImpl =>
        obtain h | ⟨hstarted, hclosed, h⟩ := startImpl_cases { connection with posted }
        · rw [runPosted, h]
          exact .inl ⟨⟨rfl, rfl, rfl, rfl⟩, rfl, rfl⟩
        · rw [runPosted, h]
          exact .inr (.inl ⟨rfl, hstarted, hclosed, rfl, rfl, rfl, rfl⟩)
      | stopImpl =>
        have h := sameReading_stopImpl { connection with posted }
        exact .inl ⟨⟨h.started, h.reader, h.readLoops, h.handled⟩, rfl, rfl⟩
      | sendImpl message =>
        have h := sameReading_sendImpl { connection with posted } message
        exact .inl ⟨⟨h.started, h.reader, h.readLoops, h.handled⟩, rfl, rfl⟩
  | readerStarts =>
    simp only [step, Option.ite_none_right_eq_some, Option.some.injEq] at hstep
    exact .inr (.inr (.inl ⟨rfl, hstep.1, hstep.2.symm⟩))
  | readCompletes message =>
    simp only [step, Option.ite_none_right_eq_some, Option.some.injEq] at hstep
    exact .inr (.inr (.inr (.inl ⟨message, rfl, hstep.1, hstep.2.symm⟩)))
  | readFails =>
    simp only [step, Option.ite_none_right_eq_some, Option.some.injEq] at hstep
    exact .inr (.inr (.inr (.inr (.inl ⟨rfl, hstep.1, hstep.2.symm⟩))))
  | handlerReturns =>
    simp only [step, Option.ite_none_right_eq_some, Option.some.injEq] at hstep
    exact .inr (.inr (.inr (.inr (.inr (.inl ⟨rfl, hstep.1, hstep.2.symm⟩)))))
  | handlerThrows =>
    simp only [step, Option.ite_none_right_eq_some, Option.some.injEq] at hstep
    exact .inr (.inr (.inr (.inr (.inr (.inr ⟨rfl, hstep.1, hstep.2.symm⟩)))))
  | writerStarts i =>
    simp only [step, Option.ite_none_right_eq_some, Option.some.injEq] at hstep
    obtain ⟨-, rfl⟩ := hstep
    exact .inl ⟨sameReading_writeLoop _ _, rfl, rfl⟩
  | writeSome i n =>
    simp only [step, Option.ite_none_left_eq_some, Connection.writeSome] at hstep
    obtain ⟨-, hstep⟩ := hstep
    split at hstep
    · simp only [Option.ite_none_right_eq_some, Option.some.injEq] at hstep
      obtain ⟨-, rfl⟩ := hstep
      exact .inl ⟨⟨rfl, rfl, rfl, rfl⟩, rfl, rfl⟩
    · simp only [Option.ite_none_right_eq_some, Option.some.injEq] at hstep
      obtain ⟨-, rfl⟩ := hstep
      exact .inl ⟨⟨rfl, rfl, rfl, rfl⟩, rfl, rfl⟩
    · cases hstep
  | writeCompletes i =>
    simp only [step, Connection.writeCompletes] at hstep
    split at hstep
    · obtain rfl := Option.some.inj hstep
      exact .inl ⟨⟨rfl, rfl, rfl, rfl⟩, rfl, rfl⟩
    · obtain rfl := Option.some.inj hstep
      exact .inl ⟨sameReading_writeLoop _ _, rfl, rfl⟩
    · cases hstep
  | writeFails i =>
    simp only [step] at hstep
    split at hstep
    · obtain rfl := Option.some.inj hstep
      exact .inl ⟨sameReading_failWriting _ _, rfl, rfl⟩
    · obtain rfl := Option.some.inj hstep
      exact .inl ⟨sameReading_failWriting _ _, rfl, rfl⟩
    · cases hstep

/-- What a run says about its read side: one loop once it has started, every message
handed over in order while the loop runs, and one handler at a time. -/
structure Reading (es : List (Event ι ο)) (connection : Connection ι ο) : Prop where
  loops : connection.readLoops = connection.started.toNat
  absent : connection.started = false → connection.reader = .absent
  handed : connection.handled <+: arrived es
  running : connection.reader ≠ .finished → connection.handled = arrived es
  completed : connection.handled.length =
    completed es + if connection.reader = .handling then 1 else 0

theorem reading_create {config : ConnectionConfig} (h : create config = .ok connection) :
    Reading [] connection := by
  obtain ⟨-, rfl⟩ := create_eq_ok h
  exact ⟨rfl, fun _ => rfl, List.prefix_rfl, fun _ => rfl, rfl⟩

/-- A step of the loop itself, which neither starts it nor is before its start. -/
theorem Reading.moved {es fs : List (Event ι ο)} (reading : Reading es connection)
    (hreader : connection.reader ≠ .absent) (hstarted : t.started = connection.started)
    (hloops : t.readLoops = connection.readLoops) (handed : t.handled <+: arrived fs)
    (running : t.reader ≠ .finished → t.handled = arrived fs)
    (completed : t.handled.length =
      Connection.completed fs + if t.reader = .handling then 1 else 0) : Reading fs t where
  loops := by rw [hloops, hstarted, reading.loops]
  absent h := absurd (reading.absent (hstarted ▸ h)) hreader
  handed := handed
  running := running
  completed := completed

theorem Reading.readLoop {es : List (Event ι ο)} (reading : Reading es connection)
    (habsent : connection.reader ≠ .absent) (hfinished : connection.reader ≠ .finished)
    (harrived : arrived [e] = [])
    (hcompleted : Connection.completed [e] = if connection.reader = .handling then 1 else 0) :
    Reading (es ++ [e]) connection.readLoop := by
  have hhandled : connection.handled = arrived (es ++ [e]) := by
    rw [arrived_append, harrived, List.append_nil, reading.running hfinished]
  refine reading.moved habsent rfl rfl ?_ ?_ ?_
  · exact hhandled ▸ List.prefix_rfl
  · exact fun _ => hhandled
  · have hidle : (Connection.readLoop connection).reader ≠ .handling := by
      simp only [Connection.readLoop]
      split <;> simp
    rw [if_neg hidle, completed_append, hcompleted]
    exact reading.completed

theorem Reading.failReading {es : List (Event ι ο)} (reading : Reading es connection)
    (habsent : connection.reader ≠ .absent) (hfinished : connection.reader ≠ .finished)
    (harrived : arrived [e] = [])
    (hcompleted : Connection.completed [e] = if connection.reader = .handling then 1 else 0) :
    Reading (es ++ [e]) connection.failReading := by
  have hsame := sameReading_stopImpl connection
  have hhandled : connection.failReading.handled = arrived (es ++ [e]) := by
    rw [arrived_append, harrived, List.append_nil, ← reading.running hfinished]
    exact hsame.handled
  refine reading.moved habsent hsame.started hsame.readLoops ?_ ?_ ?_
  · exact hhandled ▸ List.prefix_rfl
  · exact fun _ => hhandled
  · rw [completed_append, hcompleted]
    exact (congrArg List.length hsame.handled).trans reading.completed

theorem Reading.step {es : List (Event ι ο)} (reading : Reading es connection)
    (hstep : step native serialize connection e = some t) : Reading (es ++ [e]) t := by
  have hmore : arrived es <+: arrived (es ++ [e]) := by
    rw [arrived_append]
    exact List.prefix_append _ _
  obtain ⟨same, harrived, hcompleted⟩ | ⟨rfl, hstarted, -, ht, hreader, hloops, hhandled⟩ |
    ⟨rfl, hreader, rfl⟩ | ⟨message, rfl, hreader, rfl⟩ | ⟨rfl, hreader, rfl⟩ |
    ⟨rfl, hreader, rfl⟩ | ⟨rfl, hreader, rfl⟩ := read_cases hstep
  · obtain ⟨loops, absent, handed, running, completed⟩ := reading
    simp only [← same.started, ← same.reader, ← same.readLoops, ← same.handled] at *
    refine ⟨loops, absent, handed.trans hmore, ?_, ?_⟩
    · rwa [arrived_append, harrived, List.append_nil]
    · rwa [completed_append, hcompleted]
  · have hidle : connection.reader = .absent := reading.absent hstarted
    have harrived : arrived (es ++ [.runPosted]) = arrived es := by simp [arrived]
    refine ⟨?_, ?_, ?_, ?_, ?_⟩
    · rw [hloops, reading.loops, hstarted, ht]
      rfl
    · simp [ht]
    · rw [hhandled, harrived]
      exact reading.handed
    · intro _
      rw [hhandled, harrived]
      exact reading.running (by simp [hidle])
    · rw [hhandled, reading.completed, completed_append, hidle, hreader]
      rfl
  · exact reading.readLoop (by simp [hreader]) (by simp [hreader]) rfl (by rw [hreader]; rfl)
  · have hhandled := reading.running (by simp [hreader])
    have hcount := reading.completed
    rw [hreader] at hcount
    by_cases hclosed : connection.closed = true
    · rw [readMessage, if_pos hclosed]
      refine reading.moved (by simp [hreader]) rfl rfl ?_ ?_ ?_
      · exact reading.handed.trans hmore
      · exact fun h => absurd rfl h
      · rw [completed_append]
        exact hcount
    · rw [readMessage, if_neg hclosed]
      have hnow : connection.handled ++ [message] = arrived (es ++ [.readCompletes message]) := by
        rw [arrived_append, hhandled]
        rfl
      refine reading.moved (by simp [hreader]) rfl rfl ?_ ?_ ?_
      · exact hnow ▸ List.prefix_rfl
      · exact fun _ => hnow
      · rw [completed_append]
        show (connection.handled ++ [message]).length = Connection.completed es + 0 + 1
        rw [List.length_append, hcount]
        rfl
  · exact reading.failReading (by simp [hreader]) (by simp [hreader]) rfl (by rw [hreader]; rfl)
  · exact reading.readLoop (by simp [hreader]) (by simp [hreader]) rfl (by rw [hreader]; rfl)
  · exact reading.failReading (by simp [hreader]) (by simp [hreader]) rfl (by rw [hreader]; rfl)

/-- A connection closes once, with one notification, and never opens again. -/
theorem close_cases (hstep : step native serialize connection e = some t) :
    (t.closed = connection.closed ∧ t.closeNotifications = connection.closeNotifications) ∨
      (connection.closed = false ∧ t.closed = true ∧
        t.closeNotifications = connection.closeNotifications + 1) := by
  have hstop : ∀ c : Connection ι ο,
      (c.stopImpl.closed = c.closed ∧ c.stopImpl.closeNotifications = c.closeNotifications) ∨
        (c.closed = false ∧ c.stopImpl.closed = true ∧
          c.stopImpl.closeNotifications = c.closeNotifications + 1) := by
    intro c
    by_cases h : c.closed = true
    · rw [stopImpl_of_closed h]
      exact .inl ⟨rfl, rfl⟩
    · rw [stopImpl, if_neg h]
      exact .inr ⟨Bool.eq_false_iff.mpr h, rfl, rfl⟩
  refine step_elim (P := fun t =>
      (t.closed = connection.closed ∧ t.closeNotifications = connection.closeNotifications) ∨
        (connection.closed = false ∧ t.closed = true ∧
          t.closeNotifications = connection.closeNotifications + 1))
    hstep ?post ?runPosted ?readLoop ?readMessage ?failReading ?writeLoop ?progress ?failWriting
  case post => exact fun _ => .inl ⟨rfl, rfl⟩
  case runPosted =>
    intro handler posted _
    cases handler with
    | startImpl =>
      obtain h | ⟨-, -, h⟩ := startImpl_cases { connection with posted }
      · rw [runPosted, h]
        exact .inl ⟨rfl, rfl⟩
      · rw [runPosted, h]
        exact .inl ⟨rfl, rfl⟩
    | stopImpl => exact hstop { connection with posted }
    | sendImpl message =>
      simp only [runPosted, sendImpl]
      split
      · exact .inl ⟨rfl, rfl⟩
      · split
        · exact hstop { connection with posted }
        · split <;> exact .inl ⟨rfl, rfl⟩
  case readLoop => exact .inl ⟨rfl, rfl⟩
  case readMessage =>
    intro message
    simp only [readMessage]
    split <;> exact .inl ⟨rfl, rfl⟩
  case failReading => exact hstop connection
  case writeLoop =>
    intro i _ _ _ _
    rw [writeLoop.eq_def]
    split
    · exact .inl ⟨rfl, rfl⟩
    · split
      · exact .inl ⟨rfl, rfl⟩
      next message writeQueue _ =>
        dsimp only
        split
        · exact hstop { connection with writeQueue, writing := false }
        · exact .inl ⟨rfl, rfl⟩
  case progress => exact fun _ _ _ _ _ _ _ _ _ => .inl ⟨rfl, rfl⟩
  case failWriting => exact fun i _ _ _ => hstop { connection with writing := false }

end Connection

/-- A connection with its close handler, if it has one, and how each invocation of that
handler ended. -/
structure Closable (ι ο : Type) where
  connection : Connection ι ο
  onClosed : Bool
  closeCalls : List (Except Exception Unit) := []
  deriving DecidableEq

namespace Closable

variable {ι ο : Type} {native : Endian} {serialize : ο → Option (List UInt8)}
variable {s t : Closable ι ο}

/-- `notifyClosed`, with the outcome of the handler; an exception is only logged. -/
def notifyClosed (closable : Closable ι ο) (outcome : Except Exception Unit) : Closable ι ο :=
  if closable.onClosed then { closable with closeCalls := closable.closeCalls ++ [outcome] }
  else closable

/-- An event, and what the close handler does if it is invoked in this step. -/
abbrev Event (ι ο : Type) := Connection.Event ι ο × Except Exception Unit

def step (native : Endian) (serialize : ο → Option (List UInt8)) :
    Machine (Closable ι ο) (Event ι ο) := fun closable (e, outcome) =>
  (Connection.step native serialize closable.connection e).map fun connection =>
    if connection.closeNotifications = closable.connection.closeNotifications then
      { closable with connection }
    else { closable with connection }.notifyClosed outcome

/-- A step either closes the connection, and the handler runs, or does neither. -/
theorem step_cases {e : Connection.Event ι ο} {outcome : Except Exception Unit}
    (hstep : step native serialize s (e, outcome) = some t) :
    Connection.step native serialize s.connection e = some t.connection ∧
      t.onClosed = s.onClosed ∧
      ((t.connection.closed = s.connection.closed ∧ t.closeCalls = s.closeCalls) ∨
        (s.connection.closed = false ∧ t.connection.closed = true ∧
          t.closeCalls = s.closeCalls ++ if s.onClosed then [outcome] else [])) := by
  simp only [step, Option.map_eq_some_iff] at hstep
  obtain ⟨connection, hconnection, rfl⟩ := hstep
  obtain ⟨hclosed, hsame⟩ | ⟨hopen, hclosed, hone⟩ := Connection.close_cases hconnection
  · rw [if_pos hsame]
    exact ⟨hconnection, rfl, .inl ⟨hclosed, rfl⟩⟩
  · have hne : connection.closeNotifications ≠ s.connection.closeNotifications := by omega
    rw [if_neg hne]
    simp only [notifyClosed]
    by_cases hset : s.onClosed = true
    · rw [if_pos hset, if_pos hset]
      exact ⟨hconnection, rfl, .inr ⟨hopen, hclosed, rfl⟩⟩
    · rw [if_neg hset, if_neg hset, List.append_nil]
      exact ⟨hconnection, rfl, .inr ⟨hopen, hclosed, rfl⟩⟩

/-- What every run keeps: the read side follows its events, and the close handler has run
if and only if the connection is closed. -/
structure Protocol (onClosed : Bool) (es : List (Event ι ο)) (closable : Closable ι ο) :
    Prop where
  reading : closable.connection.Reading (es.map Prod.fst)
  set : closable.onClosed = onClosed
  calls : closable.closeCalls.length = (closable.connection.closed && onClosed).toNat

theorem protocol_exec {config : ConnectionConfig} {connection : Connection ι ο} {onClosed : Bool}
    (created : Connection.create config = .ok connection) {es : List (Event ι ο)}
    (run : (step native serialize).exec { connection, onClosed } es = some t) :
    Protocol onClosed es t := by
  apply Machine.exec_induction (motive := Protocol onClosed) _ _ run
  · obtain ⟨-, hnew⟩ := Connection.create_eq_ok created
    refine ⟨Connection.reading_create created, rfl, ?_⟩
    rw [hnew]
    rfl
  · rintro es s ⟨e, outcome⟩ t - ⟨reading, set, calls⟩ hstep
    obtain ⟨hconnection, hset, hclose⟩ := step_cases hstep
    refine ⟨?_, hset.trans set, ?_⟩
    · rw [List.map_append]
      exact reading.step hconnection
    · obtain ⟨hclosed, hcalls⟩ | ⟨hopen, hclosed, hcalls⟩ := hclose
      · rw [hcalls, hclosed, calls]
      · rw [hopen] at calls
        rw [hcalls, hclosed, List.length_append, calls, set]
        cases onClosed <;> rfl

/-- What one step may do to a closed connection, and what closing one does. -/
def ClosesOnce (s : Closable ι ο) (e : Event ι ο) (t : Closable ι ο) : Prop :=
  (s.connection.closed = true → t.connection.closed = true ∧
      t.connection.readLoops = s.connection.readLoops ∧
      t.connection.handled = s.connection.handled) ∧
    (t.connection.closed = s.connection.closed → t.closeCalls = s.closeCalls) ∧
    (t.connection.closed ≠ s.connection.closed →
      t.closeCalls = s.closeCalls ++ if s.onClosed then [e.2] else [])

theorem closesOnce_step {e : Event ι ο} (hstep : step native serialize s e = some t) :
    ClosesOnce s e t := by
  obtain ⟨e, outcome⟩ := e
  obtain ⟨hconnection, -, hclose⟩ := step_cases hstep
  refine ⟨?_, ?_, ?_⟩
  · intro hclosed
    have frozen := Connection.frozen_step hclosed hconnection
    exact ⟨frozen.closed, frozen.readLoops, frozen.handled⟩
  · intro hsame
    obtain ⟨-, hcalls⟩ | ⟨hopen, hclosed, -⟩ := hclose
    · exact hcalls
    · simp [hopen, hclosed] at hsame
  · intro hdiff
    obtain ⟨hclosed, -⟩ | ⟨-, -, hcalls⟩ := hclose
    · exact absurd hclosed hdiff
    · exact hcalls

/-- At most one read loop, every arrived message handed over at most once and in order,
one handler at a time, one close, one invocation of the close handler in that step
however it ends, and nothing handed over after it. -/
theorem close_protocol {config : ConnectionConfig} {connection : Connection ι ο}
    (created : Connection.create config = .ok connection) {onClosed : Bool}
    {es : List (Event ι ο)}
    (run : (step native serialize).exec { connection, onClosed } es = some t) :
    t.connection.readLoops ≤ 1 ∧
      t.connection.handled <+: Connection.arrived (es.map Prod.fst) ∧
      (∀ e u, step native serialize t e = some u →
        u.connection.handled ≠ t.connection.handled →
        t.connection.handled.length = Connection.completed (es.map Prod.fst) ∧
          t.connection.closed = false) ∧
      t.closeCalls.length = (t.connection.closed && onClosed).toNat ∧
      (step native serialize).Along ClosesOnce { connection, onClosed } es := by
  have protocol := protocol_exec created run
  refine ⟨?loops, protocol.reading.handed, ?turn, protocol.calls, ?once⟩
  case loops =>
    rw [protocol.reading.loops]
    exact Bool.toNat_le _
  case turn =>
    rintro ⟨e, outcome⟩ u hstep hmore
    obtain ⟨hconnection, -, -⟩ := step_cases hstep
    have hopen : t.connection.closed = false := by
      apply Bool.eq_false_iff.mpr
      intro hclosed
      exact hmore (Connection.frozen_step hclosed hconnection).handled
    refine ⟨?_, hopen⟩
    have hidle : t.connection.reader ≠ .handling := by
      intro hreader
      apply hmore
      obtain ⟨same, -⟩ | ⟨-, -, -, -, -, -, h⟩ | ⟨-, -, h⟩ | ⟨_, -, h, -⟩ | ⟨-, h, -⟩ |
        ⟨-, -, h⟩ | ⟨-, -, h⟩ := Connection.read_cases hconnection
      · exact same.handled
      · exact h
      · rw [h]
        rfl
      · simp [hreader] at h
      · simp [hreader] at h
      · rw [h]
        rfl
      · rw [h]
        exact (Connection.sameReading_stopImpl _).handled
    rw [protocol.reading.completed, if_neg hidle, Nat.add_zero]
  case once =>
    have keep : (step native serialize).Invariant fun _ : Closable ι ο => True :=
      fun _ _ _ _ _ => trivial
    exact keep.along (fun _ _ _ _ hstep => closesOnce_step hstep) trivial es

/-- A handler throws, the close handler throws in turn, and a stop comes too late. -/
theorem close_protocol_of_throwing_handlers :
    ∃ t : Closable Nat Nat,
      (step .little fun _ => some [1]).exec ⟨⟨⟨64⟩, 2, [], false, false, false, .absent, [], [], [],
          [], [], 0, 0⟩, true, []⟩
        ([.post .startImpl, .runPosted, .readerStarts, .readCompletes 5, .handlerReturns,
          .readCompletes 7, .handlerThrows, .post .stopImpl, .runPosted].map
          (·, .error (.runtimeError "close"))) = some t ∧
      t.connection.closed = true ∧ t.connection.handled = [5, 7] ∧
      t.closeCalls = [.error (.runtimeError "close")] ∧ t.connection.readLoops ≤ 1 := by
  have created : Connection.create ⟨64, 2⟩ =
      .ok ({ codec := ⟨64⟩, maxQueuedMessages := 2 } : Connection Nat Nat) := rfl
  have run : (step .little fun _ : Nat => some [1]).exec
      ⟨({ codec := ⟨64⟩, maxQueuedMessages := 2 } : Connection Nat Nat), true, []⟩
      ([.post .startImpl, .runPosted, .readerStarts, .readCompletes 5, .handlerReturns,
        .readCompletes 7, .handlerThrows, .post .stopImpl, .runPosted].map
        (·, .error (.runtimeError "close"))) = some _ := rfl
  exact ⟨_, run, rfl, rfl, rfl, (close_protocol created run).1⟩

end Closable

end Stalker2D.Network
