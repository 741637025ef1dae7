import Stalker2D.Machine.Basic
import Stalker2D.Shared.MessageFrameCodec

/-!
# A connection on its strand

`Connection<IncomingMessage, OutgoingMessage>`: `start`, `stop` and `send` only post,
and everything else runs on the strand, one step for each stretch of code between
two suspensions. The read loop suspends in `readMessage` and in the message handler,
a write loop in the two writes of each frame.

A posted handler always finds its connection here. In the source one that was let go before
it was started is gone by then, with its socket closed and no message sent or read.

What asio and the peer do is in the events: an `async_write` may put its bytes on the
wire in any number of pieces while the socket is open, its completion comes at any
later moment, and it may fail instead. `serialize` is the protobuf serialiser.

`accepted`, `wire`, `handled`, `readLoops` and `closeNotifications` only record the
run: the messages `sendImpl` has queued, the bytes written, the messages given to the
handler, how many read loops were spawned, and how often `notifyClosed` has run.
-/

namespace Stalker2D.Network

/-- The read loop that was spawned last. -/
inductive Reader
  | absent
  | spawned
  | reading
  | handling
  | finished
  deriving DecidableEq, Repr

/-- A spawned write loop; `rest` is what is still to be written of the current buffer. -/
inductive Writer
  | spawned
  | sendingPrefix (rest payload : List UInt8)
  | sendingPayload (rest : List UInt8)
  | finished
  deriving DecidableEq, Repr

/-- The bytes a write loop still has to write of the frame it is at. -/
def Writer.remaining : Writer → List UInt8
  | .spawned => []
  | .sendingPrefix rest payload => rest ++ payload
  | .sendingPayload rest => rest
  | .finished => []

/-- A handler posted to the strand. -/
inductive Posted (ο : Type)
  | startImpl
  | stopImpl
  | sendImpl (message : ο)
  deriving DecidableEq, Repr

/-- `Connection::Config`. -/
structure ConnectionConfig where
  maxMessageBytes : UInt32 := 0
  maxQueuedMessages : Nat := 1024
  deriving DecidableEq, Repr

structure Connection (ι ο : Type) where
  codec : MessageFrameCodec
  maxQueuedMessages : Nat
  writeQueue : List ο := []
  started : Bool := false
  closed : Bool := false
  writing : Bool := false
  reader : Reader := .absent
  writers : List Writer := []
  posted : List (Posted ο) := []
  accepted : List ο := []
  wire : List UInt8 := []
  handled : List ι := []
  readLoops : Nat := 0
  closeNotifications : Nat := 0
  deriving DecidableEq, Repr

namespace Connection

/-- What the constructor checks, its handler aside. -/
def validate (config : ConnectionConfig) : Except Exception Unit :=
  if config.maxMessageBytes = 0 then
    .error (.invalidArgument "Connection maxMessageBytes must be greater than zero")
  else if config.maxQueuedMessages = 0 then
    .error (.invalidArgument "Connection maxQueuedMessages must be greater than zero")
  else .ok ()

variable {ι ο : Type}

def create (config : ConnectionConfig) : Except Exception (Connection ι ο) := do
  validate config
  return { codec := ⟨config.maxMessageBytes⟩, maxQueuedMessages := config.maxQueuedMessages }

def notifyClosed (connection : Connection ι ο) : Connection ι ο :=
  { connection with closeNotifications := connection.closeNotifications + 1 }

def stopImpl (connection : Connection ι ο) : Connection ι ο :=
  if connection.closed then connection
  else { connection with closed := true, writeQueue := [], writing := false }.notifyClosed

def startImpl (connection : Connection ι ο) : Connection ι ο :=
  if connection.started then connection
  else if connection.closed then connection
  else
    { connection with
      started := true
      reader := .spawned
      readLoops := connection.readLoops + 1 }

def sendImpl (connection : Connection ι ο) (message : ο) : Connection ι ο :=
  if connection.closed then connection
  else if connection.maxQueuedMessages ≤ connection.writeQueue.length then connection.stopImpl
  else
    let connection :=
      { connection with
        writeQueue := connection.writeQueue ++ [message]
        accepted := connection.accepted ++ [message] }
    if connection.writing then connection
    else { connection with writing := true, writers := connection.writers ++ [.spawned] }

def post (connection : Connection ι ο) (handler : Posted ο) : Connection ι ο :=
  { connection with posted := connection.posted ++ [handler] }

def runPosted (connection : Connection ι ο) : Posted ο → Connection ι ο
  | .startImpl => connection.startImpl
  | .stopImpl => connection.stopImpl
  | .sendImpl message => connection.sendImpl message

/-- The head of the loop in `readLoop`. -/
def readLoop (connection : Connection ι ο) : Connection ι ο :=
  { connection with reader := if connection.closed then .finished else .reading }

/-- `readLoop` from a successful `readMessage` to the call of the handler. -/
def readMessage (connection : Connection ι ο) (message : ι) : Connection ι ο :=
  if connection.closed then { connection with reader := .finished }
  else { connection with reader := .handling, handled := connection.handled ++ [message] }

/-- Either `catch` block of `readLoop`. -/
def failReading (connection : Connection ι ο) : Connection ι ο :=
  { connection.stopImpl with reader := .finished }

def setWriter (connection : Connection ι ο) (i : Nat) (writer : Writer) : Connection ι ο :=
  { connection with writers := connection.writers.set i writer }

/-- The `catch` block of `writeLoop`. -/
def failWriting (connection : Connection ι ο) (i : Nat) : Connection ι ο :=
  ({ connection with writing := false }.stopImpl).setWriter i .finished

/-- `writeLoop` from the head of its loop to the next suspension. -/
def writeLoop (native : Endian) (serialize : ο → Option (List UInt8))
    (connection : Connection ι ο) (i : Nat) : Connection ι ο :=
  if connection.closed then { connection with writing := false }.setWriter i .finished
  else
    match connection.writeQueue with
    | [] => { connection with writing := false }.setWriter i .finished
    | message :: writeQueue =>
      let connection := { connection with writeQueue }
      match MessageChannel.prepare connection.codec native (serialize message) with
      | .error _ => connection.failWriting i
      | .ok (lengthPrefix, payload) => connection.setWriter i (.sendingPrefix lengthPrefix payload)

/-- The next `n` bytes of the current write go out. -/
def writeSome (connection : Connection ι ο) (i n : Nat) : Option (Connection ι ο) :=
  match connection.writers[i]? with
  | some (.sendingPrefix rest payload) =>
    if 0 < n ∧ n ≤ rest.length then
      some ({ connection with wire := connection.wire ++ rest.take n }.setWriter i
        (.sendingPrefix (rest.drop n) payload))
    else none
  | some (.sendingPayload rest) =>
    if 0 < n ∧ n ≤ rest.length then
      some ({ connection with wire := connection.wire ++ rest.take n }.setWriter i
        (.sendingPayload (rest.drop n)))
    else none
  | _ => none

/-- The current write has succeeded, and its write loop goes on. -/
def writeCompletes (native : Endian) (serialize : ο → Option (List UInt8))
    (connection : Connection ι ο) (i : Nat) : Option (Connection ι ο) :=
  match connection.writers[i]? with
  | some (.sendingPrefix [] payload) => some (connection.setWriter i (.sendingPayload payload))
  | some (.sendingPayload []) => some (connection.writeLoop native serialize i)
  | _ => none

inductive Event (ι ο : Type)
  | post (handler : Posted ο)
  | runPosted
  | readerStarts
  | readCompletes (message : ι)
  | readFails
  | handlerReturns
  | handlerThrows
  | writerStarts (i : Nat)
  | writeSome (i n : Nat)
  | writeCompletes (i : Nat)
  | writeFails (i : Nat)
  deriving DecidableEq, Repr

def step (native : Endian) (serialize : ο → Option (List UInt8)) :
    Machine (Connection ι ο) (Event ι ο)
  | connection, .post handler => some (connection.post handler)
  | connection, .runPosted =>
    match connection.posted with
    | [] => none
    | handler :: posted => some ({ connection with posted }.runPosted handler)
  | connection, .readerStarts =>
    if connection.reader = .spawned then some connection.readLoop else none
  | connection, .readCompletes message =>
    if connection.reader = .reading then some (connection.readMessage message) else none
  | connection, .readFails =>
    if connection.reader = .reading then some connection.failReading else none
  | connection, .handlerReturns =>
    if connection.reader = .handling then some connection.readLoop else none
  | connection, .handlerThrows =>
    if connection.reader = .handling then some connection.failReading else none
  | connection, .writerStarts i =>
    if connection.writers[i]? = some .spawned then some (connection.writeLoop native serialize i)
    else none
  | connection, .writeSome i n =>
    if connection.closed then none else connection.writeSome i n
  | connection, .writeCompletes i => connection.writeCompletes native serialize i
  | connection, .writeFails i =>
    match connection.writers[i]? with
    | some (.sendingPrefix _ _) | some (.sendingPayload _) => some (connection.failWriting i)
    | _ => none

variable {native : Endian} {serialize : ο → Option (List UInt8)}
variable {connection t : Connection ι ο} {e : Event ι ο}

/-- Everything a step can do, by what it does to the connection: two events that run
the same code are one case, and so are the pieces of a write and its completion. -/
theorem step_elim {P : Connection ι ο → Prop}
    (hstep : step native serialize connection e = some t)
    (post : ∀ handler, P (connection.post handler))
    (runPosted : ∀ handler posted, connection.posted = handler :: posted →
      P ({ connection with posted }.runPosted handler))
    (readLoop : P connection.readLoop)
    (readMessage : ∀ message, P (connection.readMessage message))
    (failReading : P connection.failReading)
    (writeLoop : ∀ (i : Nat) writer, connection.writers[i]? = some writer → writer ≠ .finished →
      writer.remaining = [] → P (connection.writeLoop native serialize i))
    (progress : ∀ (i : Nat) writer next bytes, connection.writers[i]? = some writer →
      writer ≠ .finished → next ≠ .finished → writer.remaining = bytes ++ next.remaining →
      (connection.closed = true → bytes = []) →
      P ({ connection with wire := connection.wire ++ bytes }.setWriter i next))
    (failWriting : ∀ (i : Nat) writer, connection.writers[i]? = some writer →
      writer ≠ .finished → P (connection.failWriting i)) : P t := by
  cases e with
  | post handler => exact Option.some.inj hstep ▸ post handler
  | runPosted =>
    simp only [step] at hstep
    split at hstep
    · cases hstep
    next handler posted h => exact Option.some.inj hstep ▸ runPosted handler posted h
  | readerStarts =>
    simp only [step, Option.ite_none_right_eq_some, Option.some.injEq] at hstep
    exact hstep.2 ▸ readLoop
  | readCompletes message =>
    simp only [step, Option.ite_none_right_eq_some, Option.some.injEq] at hstep
    exact hstep.2 ▸ readMessage message
  | readFails =>
    simp only [step, Option.ite_none_right_eq_some, Option.some.injEq] at hstep
    exact hstep.2 ▸ failReading
  | handlerReturns =>
    simp only [step, Option.ite_none_right_eq_some, Option.some.injEq] at hstep
    exact hstep.2 ▸ readLoop
  | handlerThrows =>
    simp only [step, Option.ite_none_right_eq_some, Option.some.injEq] at hstep
    exact hstep.2 ▸ failReading
  | writerStarts i =>
    simp only [step, Option.ite_none_right_eq_some, Option.some.injEq] at hstep
    exact hstep.2 ▸ writeLoop i .spawned hstep.1 (by simp) rfl
  | writeSome i n =>
    simp only [step, Option.ite_none_left_eq_some, Connection.writeSome] at hstep
    obtain ⟨hopen, hstep⟩ := hstep
    have hnot : ∀ bytes : List UInt8, connection.closed = true → bytes = [] :=
      fun _ h => absurd h hopen
    split at hstep
    next rest payload h =>
      simp only [Option.ite_none_right_eq_some, Option.some.injEq] at hstep
      refine hstep.2 ▸ progress i _ (.sendingPrefix (rest.drop n) payload) _ h (by simp) (by simp)
        ?_ (hnot _)
      simp only [Writer.remaining, ← List.append_assoc, List.take_append_drop]
    next rest h =>
      simp only [Option.ite_none_right_eq_some, Option.some.injEq] at hstep
      refine hstep.2 ▸ progress i _ (.sendingPayload (rest.drop n)) _ h (by simp) (by simp)
        ?_ (hnot _)
      simp only [Writer.remaining, List.take_append_drop]
    next => cases hstep
  | writeCompletes i =>
    simp only [step, Connection.writeCompletes] at hstep
    split at hstep
    next payload h =>
      have hnext := progress i _ (.sendingPayload payload) [] h (by simp) (by simp) rfl
        (fun _ => rfl)
      simp only [List.append_nil] at hnext
      exact Option.some.inj hstep ▸ hnext
    next h => exact Option.some.inj hstep ▸ writeLoop i _ h (by simp) rfl
    next => cases hstep
  | writeFails i =>
    simp only [step] at hstep
    split at hstep
    next h => exact Option.some.inj hstep ▸ failWriting i _ h (by simp)
    next h => exact Option.some.inj hstep ▸ failWriting i _ h (by simp)
    next => cases hstep

theorem stopImpl_of_closed (h : connection.closed = true) :
    connection.stopImpl = connection := by
  rw [stopImpl, if_pos h]

@[simp] theorem stopImpl_closed : connection.stopImpl.closed = true := by
  simp only [stopImpl]
  split
  next h => exact h
  next => rfl

/-- What never changes: the limits. -/
theorem limits_step (hstep : step native serialize connection e = some t) :
    t.codec = connection.codec ∧ t.maxQueuedMessages = connection.maxQueuedMessages := by
  have stopped : ∀ c : Connection ι ο,
      c.stopImpl.codec = c.codec ∧ c.stopImpl.maxQueuedMessages = c.maxQueuedMessages := by
    intro c
    simp only [stopImpl]
    split <;> exact ⟨rfl, rfl⟩
  refine step_elim
    (P := fun t => t.codec = connection.codec ∧ t.maxQueuedMessages = connection.maxQueuedMessages)
    hstep ?post ?runPosted ?readLoop ?readMessage ?failReading ?writeLoop ?progress ?failWriting
  case post => exact fun _ => ⟨rfl, rfl⟩
  case runPosted =>
    intro handler posted _
    cases handler with
    | startImpl =>
      simp only [runPosted, startImpl]
      split
      · exact ⟨rfl, rfl⟩
      · split <;> exact ⟨rfl, rfl⟩
    | stopImpl => exact stopped _
    | sendImpl message =>
      simp only [runPosted, sendImpl]
      split
      · exact ⟨rfl, rfl⟩
      · split
        · exact stopped _
        · split <;> exact ⟨rfl, rfl⟩
  case readLoop => exact ⟨rfl, rfl⟩
  case readMessage =>
    intro message
    simp only [readMessage]
    split <;> exact ⟨rfl, rfl⟩
  case failReading => exact stopped _
  case writeLoop =>
    intro i _ _ _ _
    unfold writeLoop
    split
    · exact ⟨rfl, rfl⟩
    · split
      · exact ⟨rfl, rfl⟩
      · dsimp only
        split
        · exact stopped _
        · exact ⟨rfl, rfl⟩
  case progress => exact fun _ _ _ _ _ _ _ _ _ => ⟨rfl, rfl⟩
  case failWriting => exact fun _ _ _ _ => stopped _

/-- A later state of a closed connection: no new loop, message or byte. -/
structure Frozen (connection later : Connection ι ο) : Prop where
  closed : later.closed = true
  writers : later.writers.length = connection.writers.length
  readLoops : later.readLoops = connection.readLoops
  accepted : later.accepted = connection.accepted
  wire : later.wire = connection.wire
  handled : later.handled = connection.handled
  closeNotifications : later.closeNotifications = connection.closeNotifications

theorem frozen_step (h : connection.closed = true)
    (hstep : step native serialize connection e = some t) : connection.Frozen t := by
  refine step_elim hstep ?post ?runPosted ?readLoop ?readMessage ?failReading ?writeLoop ?progress
    ?failWriting
  case post => exact fun _ => ⟨h, rfl, rfl, rfl, rfl, rfl, rfl⟩
  case runPosted =>
    intro handler posted _
    cases handler <;>
      simp only [runPosted, startImpl, stopImpl, sendImpl, h, if_true, ite_self] <;>
      exact ⟨rfl, rfl, rfl, rfl, rfl, rfl, rfl⟩
  case readLoop => exact ⟨h, rfl, rfl, rfl, rfl, rfl, rfl⟩
  case readMessage =>
    intro message
    rw [readMessage, if_pos h]
    exact ⟨h, rfl, rfl, rfl, rfl, rfl, rfl⟩
  case failReading =>
    rw [failReading, stopImpl_of_closed h]
    exact ⟨h, rfl, rfl, rfl, rfl, rfl, rfl⟩
  case writeLoop =>
    intro i _ _ _ _
    rw [writeLoop, if_pos h]
    exact ⟨h, List.length_set, rfl, rfl, rfl, rfl, rfl⟩
  case progress =>
    intro i _ _ bytes _ _ _ _ hbytes
    exact ⟨h, List.length_set, rfl, rfl, by simp [setWriter, hbytes h], rfl, rfl⟩
  case failWriting =>
    intro i _ _ _
    rw [failWriting, stopImpl_of_closed]
    · exact ⟨h, List.length_set, rfl, rfl, rfl, rfl, rfl⟩
    · exact h

theorem frozen_exec {es : List (Event ι ο)} (h : connection.closed = true)
    (run : (step native serialize).exec connection es = some t) : connection.Frozen t := by
  induction es generalizing connection with
  | nil =>
    obtain rfl := Option.some.inj run
    exact ⟨h, rfl, rfl, rfl, rfl, rfl, rfl⟩
  | cons e es ih =>
    obtain ⟨u, hstep, hrest⟩ := Machine.exec_cons_eq_some.mp run
    have first := frozen_step h hstep
    have rest := ih first.closed hrest
    exact ⟨rest.closed, rest.writers.trans first.writers, rest.readLoops.trans first.readLoops,
      rest.accepted.trans first.accepted, rest.wire.trans first.wire,
      rest.handled.trans first.handled, rest.closeNotifications.trans first.closeNotifications⟩

/-- A new connection has the limits it was given. -/
theorem create_eq_ok {config : ConnectionConfig} (h : create config = .ok connection) :
    validate config = .ok () ∧
      connection =
        { codec := ⟨config.maxMessageBytes⟩, maxQueuedMessages := config.maxQueuedMessages } := by
  simp only [create] at h
  cases hv : validate config with
  | error e =>
    rw [hv] at h
    cases h
  | ok _ =>
    rw [hv] at h
    exact ⟨rfl, (Except.ok.inj h).symm⟩

end Connection

end Stalker2D.Network
