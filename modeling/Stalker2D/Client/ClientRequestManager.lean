import Stalker2D.Shared.Connection
import Stalker2D.Shared.Protocol

/-!
# Requests in flight

`ClientRequestManager` on its strand, one step for each stretch of code between
two suspensions. `send` is cut at its only suspension, the wait on the timer of
its own `PendingRequest`: the part before it is `send`, the part after it is
`resumeSend`. What stands before a `co_await dispatch` reads nothing, so `receive`
and the typed requests begin where their bodies run on the strand.

A timer settles once. Expiry queues a completion without error, `cancel` one with
`operation_aborted` if nothing is queued yet, and the coroutine resumes at any
later moment. The frame of a `send` owns its `PendingRequest`, and the map refers
to it by the frame's number.

`received`, `sentAt`, `completedBy` and `finishedAt` only record the run: the
messages passed to `receive` so far, and positions in that list.
-/

namespace Stalker2D.Client

open Protocol

/-- `Config`, without the two timeouts: when a timer expires is the environment's
choice. -/
structure Config where
  maxMessageBytes : UInt32 := 1024 * 1024
  maxQueuedMessages : Nat := 1024
  maxPendingRequests : Nat := 1024
  deriving DecidableEq, Repr

/-- An asynchronous wait: still waiting, or settled with its completion queued. -/
inductive Timer
  | waiting
  | settled (error : Option ErrorCode)
  deriving DecidableEq, Repr

namespace Timer

/-- The time has come. -/
def expire : Timer → Timer
  | .waiting => .settled none
  | .settled error => .settled error

/-- A queued completion is not taken back. -/
def cancel : Timer → Timer
  | .waiting => .settled (some .operationAborted)
  | .settled error => .settled error

end Timer

inductive PendingState
  | waiting
  | completed
  | failed
  deriving DecidableEq, Repr

structure PendingRequest where
  timer : Timer := .waiting
  state : PendingState := .waiting
  response : Option ServerMessage := none
  error : String := ""
  deriving DecidableEq, Repr

/-- What a `send` gives its caller. -/
abbrev SendResult := Except Exception ServerMessage

namespace PendingRequest

/-- One turn of the loop in `failPendingRequests`. -/
def fail (pending : PendingRequest) (reason : String) : PendingRequest :=
  if pending.state = .waiting then
    { pending with state := .failed, error := reason, timer := pending.timer.cancel }
  else pending

def timedOut : SendResult := .error (.runtimeError "Request timed out")

/-- The end of `send`, after its entry has left the map: the error code of the wait
is looked at before the state of the request. -/
def report (pending : PendingRequest) : Option ErrorCode → SendResult
  | none => timedOut
  | some code =>
    if code ≠ .operationAborted then .error (.systemError code "Pending request wait failed")
    else if pending.state = .failed then .error (.runtimeError pending.error)
    else
      match pending.state, pending.response with
      | .completed, some response => .ok response
      | _, _ => .error (.runtimeError "Pending request was cancelled without response")

end PendingRequest

/-- The frame of an admitted `send`, kept after it has finished. -/
structure SendCall where
  message : ClientMessage
  pending : PendingRequest := {}
  result : Option SendResult := none
  sentAt : Nat
  completedBy : Option Nat := none
  finishedAt : Option Nat := none
  deriving DecidableEq

namespace SendCall

def fail (call : SendCall) (reason : String) : SendCall :=
  { call with pending := call.pending.fail reason }

def expire (call : SendCall) : SendCall :=
  { call with pending := { call.pending with timer := call.pending.timer.expire } }

/-- The end of `receive`, where `position` is the place of the message in `received`. -/
def complete (call : SendCall) (message : ServerMessage) (position : Nat) : SendCall :=
  if call.pending.state = .waiting then
    { call with
      pending :=
        { call.pending with
          state := .completed
          response := some message
          timer := call.pending.timer.cancel }
      completedBy := some position }
  else call

def finish (call : SendCall) (result : SendResult) (position : Nat) : SendCall :=
  { call with result := some result, finishedAt := some position }

end SendCall

/-- A `Connection` as its owner sees it: the socket it was made from, the messages given
to it, whether it has been told to stop, whether `stopImpl` has run (its close handler
has then posted the close notification), and whether the notification has arrived. -/
structure Link where
  socket : Nat
  outgoing : List ClientMessage := []
  stopPosted : Bool := false
  closed : Bool := false
  notified : Bool := false
  deriving DecidableEq, Repr

structure ClientRequestManager where
  config : Config
  nextRequestId : UInt64 := 0
  connection : Option Nat := none
  onClosed : Bool := false
  pendingRequests : Std.TreeMap UInt64 Nat := ∅
  calls : List SendCall := []
  links : List Link := []
  received : List ServerMessage := []

namespace ClientRequestManager

/-- `start`; `onClosed` tells whether the close handler is set. -/
def start (manager : ClientRequestManager) (socket : Nat) (onClosed : Bool) :
    Except Exception Unit × ClientRequestManager :=
  if manager.connection.isSome then
    (.error (.logicError "Client connection is already active"), manager)
  else
    match Network.Connection.validate
        ⟨manager.config.maxMessageBytes, manager.config.maxQueuedMessages⟩ with
    | .error e => (.error e, manager)
    | .ok _ =>
      (.ok (), { manager with
        connection := some manager.links.length
        onClosed
        links := manager.links ++ [{ socket }] })

/-- The frames the pending map refers to. -/
def pendingFrames (manager : ClientRequestManager) : List Nat :=
  manager.pendingRequests.toList.map Prod.snd

def failPendingRequests (manager : ClientRequestManager) (reason : String) :
    ClientRequestManager :=
  { manager with
    calls := manager.calls.mapIdx fun frame call =>
      if frame ∈ manager.pendingFrames then call.fail reason else call }

def stop (manager : ClientRequestManager) (reason : String) : ClientRequestManager :=
  match manager.connection with
  | none => manager
  | some link =>
    { manager.failPendingRequests reason with
      links := manager.links.modify link fun link => { link with stopPosted := true } }

/-- `send` up to its suspension: it throws, or it leaves a new frame waiting. When the
map already has the id, `emplace` leaves the new entry with its frame. -/
def send (manager : ClientRequestManager) (message : ClientMessage) :
    Except Exception Unit × ClientRequestManager :=
  match manager.connection with
  | none => (.error (.runtimeError "Client is not connected"), manager)
  | some link =>
    if manager.config.maxPendingRequests ≤ manager.pendingRequests.size then
      (.error (.runtimeError "Too many pending client requests"), manager)
    else
      let requestId := manager.nextRequestId + 1
      let message := { message with requestId }
      (.ok (), { manager with
        nextRequestId := requestId
        pendingRequests := manager.pendingRequests.insertIfNew requestId manager.calls.length
        calls := manager.calls ++ [{ message, sentAt := manager.received.length }]
        links := manager.links.modify link fun link =>
          { link with outgoing := link.outgoing ++ [message] } })

/-- `send` from its resumption: `error` is the error code of the wait. -/
def resumeSend (manager : ClientRequestManager) (frame : Nat) (call : SendCall)
    (error : Option ErrorCode) : ClientRequestManager :=
  if manager.pendingRequests[call.message.requestId]? = some frame then
    { manager with
      pendingRequests := manager.pendingRequests.erase call.message.requestId
      calls := manager.calls.modify frame
        (·.finish (call.pending.report error) manager.received.length) }
  else
    { manager with
      calls := manager.calls.modify frame
        (·.finish (.error (.runtimeError "Pending request state was lost"))
          manager.received.length) }

def receive (manager : ClientRequestManager) (message : ServerMessage) : ClientRequestManager :=
  let received := manager.received ++ [message]
  match manager.pendingRequests[message.requestId]? with
  | none => { manager with received }
  | some frame =>
    { manager with
      received
      calls := manager.calls.modify frame fun call =>
        call.complete message manager.received.length }

/-- `connectionClosed`, and whether it calls the close handler. -/
def connectionClosed (manager : ClientRequestManager) : Bool × ClientRequestManager :=
  let closed :=
    { manager with connection := none }.failPendingRequests
      "Connection closed before response was received"
  (manager.onClosed, { closed with onClosed := false })

/-- What can happen next: a call from outside, a message, or a queued completion. -/
inductive Event
  | start (socket : Nat) (onClosed : Bool)
  | stop (reason : String)
  | send (message : ClientMessage)
  | receive (message : ServerMessage)
  | timerExpires (frame : Nat)
  | resume (frame : Nat)
  | linkCloses (link : Nat)
  | closeNotification (link : Nat)
  deriving DecidableEq, Repr

def step : Machine ClientRequestManager Event
  | manager, .start socket onClosed => some (manager.start socket onClosed).2
  | manager, .stop reason => some (manager.stop reason)
  | manager, .send message => some (manager.send message).2
  | manager, .receive message => some (manager.receive message)
  | manager, .timerExpires frame =>
    match manager.calls[frame]? with
    | none => none
    | some call =>
      if call.result = none then
        some { manager with calls := manager.calls.modify frame SendCall.expire }
      else none
  | manager, .resume frame =>
    match manager.calls[frame]? with
    | none => none
    | some call =>
      match call.result, call.pending.timer with
      | none, .settled error => some (manager.resumeSend frame call error)
      | _, _ => none
  | manager, .linkCloses link =>
    match manager.links[link]? with
    | none => none
    | some state =>
      if state.closed then none
      else some { manager with links := manager.links.modify link ({ · with closed := true }) }
  | manager, .closeNotification link =>
    match manager.links[link]? with
    | none => none
    | some state =>
      if state.closed && !state.notified then
        some ({ manager with
          links := manager.links.modify link ({ · with notified := true }) }.connectionClosed).2
      else none

end ClientRequestManager

end Stalker2D.Client
