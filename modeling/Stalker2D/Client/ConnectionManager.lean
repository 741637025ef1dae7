import Stalker2D.Client.ClientRequestManager

/-!
# Connecting and disconnecting

`ConnectionManager` with its `ClientRequestManager` on their common strand, one step
for each stretch of code between two suspensions. `connect` suspends in
`async_connect` and `disconnect` in `waitForDisconnected`; both begin where their
bodies run on the strand. An `async_connect` completes at any moment with any error
code (none for success, `operation_aborted` for the timeout and for a cancelled
socket), and its coroutine resumes at any later moment.

`attempts` has every `connect` that got past the state check, and the number of an
attempt also names the socket it connects. `waiters` has every `disconnect` that had to
wait. The timer of the waiters never expires, so only `cancel` ends a wait.
-/

namespace Stalker2D.Client

inductive ConnectionState
  | disconnected
  | connecting
  | connected
  | disconnecting
  deriving DecidableEq, Repr

/-- A `connect` from its `async_connect` on: the queued completion, and how it ended. -/
structure Attempt where
  completion : Option (Option ErrorCode) := none
  result : Option (Except Exception Unit) := none
  deriving DecidableEq

/-- The socket of an attempt; `closed` after `closeConnectingSocket`. -/
structure Socket where
  attempt : Nat
  closed : Bool := false
  deriving DecidableEq, Repr

/-- A coroutine in `waitForDisconnected`. -/
inductive Waiter
  | waiting
  | released
  | returned
  deriving DecidableEq, Repr

namespace Waiter

/-- What `m_disconnectWaiters.cancel()` does to one wait. -/
def release : Waiter → Waiter
  | .waiting => .released
  | other => other

end Waiter

structure ConnectionManager where
  requests : ClientRequestManager
  state : ConnectionState := .disconnected
  connectingSocket : Option Socket := none
  attempts : List Attempt := []
  waiters : List Waiter := []

namespace ConnectionManager

def setState (manager : ConnectionManager) (state : ConnectionState) : ConnectionManager :=
  if manager.state = .disconnecting ∧ state = .disconnected then
    { manager with state, waiters := manager.waiters.map Waiter.release }
  else { manager with state }

def closeConnectingSocket (manager : ConnectionManager) : ConnectionManager :=
  { manager with
    connectingSocket := manager.connectingSocket.map fun socket => { socket with closed := true } }

/-- `connect` up to its suspension. -/
def connect (manager : ConnectionManager) : Except Exception Unit × ConnectionManager :=
  if manager.state ≠ .disconnected then
    (.error (.logicError "Connect is not allowed in current connection state"), manager)
  else
    (.ok (), { manager.setState .connecting with
      connectingSocket := some { attempt := manager.attempts.length }
      attempts := manager.attempts ++ [{}] })

/-- The clean-up before each throw of a resumed `connect`. -/
def abandon (manager : ConnectionManager) : ConnectionManager :=
  { manager.closeConnectingSocket with connectingSocket := none }.setState .disconnected

def finish (manager : ConnectionManager) (attempt : Nat) (result : Except Exception Unit) :
    ConnectionManager :=
  { manager with
    attempts := manager.attempts.modify attempt ({ · with result := some result }) }

/-- `connect` with a connected socket that has been moved out of `m_connectingSocket`. -/
def startRequests (manager : ConnectionManager) (attempt : Nat) (socket : Socket) :
    ConnectionManager :=
  match manager.requests.start socket.attempt true with
  | (.ok _, requests) => ({ manager with requests }.setState .connected).finish attempt (.ok ())
  | (.error e, requests) =>
    ({ manager with requests }.setState .disconnected).finish attempt (.error e)

/-- `connect` from its resumption. The source would move from an empty optional where this
is `none`. -/
def resumeConnect (manager : ConnectionManager) (attempt : Nat) (error : Option ErrorCode) :
    Option ConnectionManager :=
  if manager.state = .disconnecting then
    some (manager.abandon.finish attempt
      (.error (.systemError .operationAborted "Connection attempt was cancelled")))
  else
    match error with
    | some code =>
      some (manager.abandon.finish attempt (.error
        (if code = .operationAborted then .runtimeError "Connection timed out"
          else .systemError code "Failed to connect to server")))
    | none =>
      manager.connectingSocket.map fun socket =>
        { manager with connectingSocket := none }.startRequests attempt socket

def wait (manager : ConnectionManager) : ConnectionManager :=
  { manager with waiters := manager.waiters ++ [.waiting] }

/-- `disconnect` up to its return or its suspension. -/
def disconnect (manager : ConnectionManager) : ConnectionManager :=
  match manager.state with
  | .disconnected => manager
  | .disconnecting => manager.wait
  | .connecting => ((manager.setState .disconnecting).closeConnectingSocket).wait
  | .connected =>
    let manager := manager.setState .disconnecting
    { manager with requests := manager.requests.stop "client disconnected" }.wait

/-- The close handler given to `start`. -/
def connectionClosed (manager : ConnectionManager) : ConnectionManager :=
  if manager.state = .connected ∨ manager.state = .disconnecting then
    manager.setState .disconnected
  else manager

inductive Event
  | connect
  | disconnect
  | connectCompletes (attempt : Nat) (error : Option ErrorCode)
  | resumeConnect (attempt : Nat)
  | resumeDisconnect (waiter : Nat)
  | closeNotification (link : Nat)
  | request (event : ClientRequestManager.Event)
  deriving DecidableEq, Repr

/-- An event of the request manager that does not come from this class. -/
def outside : ClientRequestManager.Event → Bool
  | .start _ _ | .stop _ | .closeNotification _ => false
  | _ => true

def step : Machine ConnectionManager Event
  | manager, .connect => some manager.connect.2
  | manager, .disconnect => some manager.disconnect
  | manager, .connectCompletes attempt error =>
    match manager.attempts[attempt]? with
    | some { completion := none, result := none } =>
      some { manager with
        attempts := manager.attempts.modify attempt ({ · with completion := some error }) }
    | _ => none
  | manager, .resumeConnect attempt =>
    match manager.attempts[attempt]? with
    | some { completion := some error, result := none } => manager.resumeConnect attempt error
    | _ => none
  | manager, .resumeDisconnect waiter =>
    if manager.waiters[waiter]? = some .released then
      some { manager with waiters := manager.waiters.set waiter .returned }
    else none
  | manager, .closeNotification link =>
    (ClientRequestManager.step manager.requests (.closeNotification link)).map fun requests =>
      if manager.requests.onClosed then { manager with requests }.connectionClosed
      else { manager with requests }
  | manager, .request event =>
    if outside event then
      (ClientRequestManager.step manager.requests event).map fun requests =>
        { manager with requests }
    else none

end ConnectionManager

end Stalker2D.Client
