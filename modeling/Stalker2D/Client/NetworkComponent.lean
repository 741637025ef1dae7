import Stalker2D.Client.ConnectionResources

/-!
# The network component

`NetworkComponent`: coroutines spawned on the thread of the network, and the results
their completion handlers publish. A coroutine begins, resumes and completes in three
steps of its own, so anything may happen in between. The one worker thread runs one
step at a time; the thread of the user interface spawns, drains and looks at the state
between any two.
-/

namespace Stalker2D.Client

open Protocol

inductive NetworkOperation
  | connect
  | disconnect
  | ping
  | stateSnapshot
  deriving DecidableEq, Repr

/-- `NetworkResult`, where an error has the exception whose `what()` is its message. -/
inductive NetworkResult
  | pong (response : PongResponse)
  | stateSnapshot (response : StateSnapshotResponse)
  | error (operation : NetworkOperation) (exception : Exception)
  deriving DecidableEq, Repr

/-- What a coroutine runs. -/
inductive Call
  | connect
  | disconnect
  | sendRequest (request : ClientPayload)
  deriving DecidableEq, Repr

namespace Call

def operation : Call → NetworkOperation
  | .connect => .connect
  | .disconnect => .disconnect
  | .sendRequest (.ping _) => .ping
  | .sendRequest .stateSnapshot => .stateSnapshot

end Call

/-- How far a coroutine is. It waits as the attempt, the waiter or the request frame
number `place`, and it ends with the arguments of its completion handler. -/
inductive Progress
  | spawned
  | suspended (place : Nat)
  | ended (outcome : Except Exception (Option NetworkResult))
  | completed
  deriving DecidableEq

structure Coroutine where
  call : Call
  progress : Progress := .spawned
  deriving DecidableEq

/-- The end of either `sendRequest`, from the response to its request. -/
def ClientRequestManager.responseOf (request : ClientPayload) (response : ServerMessage) :
    Except Exception NetworkResult :=
  if response.status ≠ .ok then
    match response.payload with
    | some (.error error) => .error (.runtimeError error.message)
    | _ => .error (.runtimeError "")
  else
    match request, response.payload with
    | .ping _, some (.pong pong) => .ok (.pong pong)
    | .ping _, _ => .error (.runtimeError "Ping response has unexpected payload")
    | .stateSnapshot, some (.stateSnapshot snapshot) => .ok (.stateSnapshot snapshot)
    | .stateSnapshot, _ =>
      .error (.runtimeError "State snapshot response has unexpected payload")

structure NetworkComponent where
  manager : ConnectionManager
  coroutines : List Coroutine := []
  results : List NetworkResult := []

namespace NetworkComponent

def state (network : NetworkComponent) : ConnectionState := network.manager.state

def spawn (network : NetworkComponent) (call : Call) : NetworkComponent :=
  { network with coroutines := network.coroutines ++ [{ call }] }

def connect (network : NetworkComponent) : NetworkComponent := network.spawn .connect

def disconnect (network : NetworkComponent) : NetworkComponent := network.spawn .disconnect

def sendRequest (network : NetworkComponent) (request : ClientPayload) : NetworkComponent :=
  network.spawn (.sendRequest request)

def drainResults (network : NetworkComponent) : List NetworkResult × NetworkComponent :=
  (network.results, { network with results := [] })

def publish (network : NetworkComponent) (result : NetworkResult) : NetworkComponent :=
  { network with results := network.results ++ [result] }

def proceed (network : NetworkComponent) (coroutine : Nat) (progress : Progress) :
    NetworkComponent :=
  { network with coroutines := network.coroutines.modify coroutine ({ · with progress }) }

/-- A spawned coroutine runs up to its end or its suspension. -/
def run (network : NetworkComponent) (coroutine : Nat) : Call → NetworkComponent
  | .connect =>
    match network.manager.connect with
    | (.error e, manager) => { network with manager }.proceed coroutine (.ended (.error e))
    | (.ok _, manager) =>
      { network with manager }.proceed coroutine (.suspended network.manager.attempts.length)
  | .disconnect =>
    let next := { network with manager := network.manager.disconnect }
    if network.manager.state = .disconnected then next.proceed coroutine (.ended (.ok none))
    else next.proceed coroutine (.suspended network.manager.waiters.length)
  | .sendRequest request =>
    match network.manager.requests.send { payload := some request } with
    | (.error e, requests) =>
      { network with manager := { network.manager with requests } }.proceed coroutine
        (.ended (.error e))
    | (.ok _, requests) =>
      { network with manager := { network.manager with requests } }.proceed coroutine
        (.suspended network.manager.requests.calls.length)

/-- What a resumed coroutine ends with, read off the manager after the resumption. -/
def outcome (manager : ConnectionManager) (place : Nat) :
    Call → Option (Except Exception (Option NetworkResult))
  | .connect => manager.attempts[place]?.bind fun attempt => attempt.result.map fun
    | .ok _ => .ok none
    | .error e => .error e
  | .disconnect => some (.ok none)
  | .sendRequest request => manager.requests.calls[place]?.bind fun call => call.result.map fun
    | .ok response => (ClientRequestManager.responseOf request response).map some
    | .error e => .error e

/-- The event of the manager that resumes a coroutine. -/
def resumption (place : Nat) : Call → ConnectionManager.Event
  | .connect => .resumeConnect place
  | .disconnect => .resumeDisconnect place
  | .sendRequest _ => .request (.resume place)

/-- The completion handlers of `connect`, `disconnect` and `sendRequest`. -/
def handle (network : NetworkComponent) (operation : NetworkOperation) :
    Except Exception (Option NetworkResult) → NetworkComponent
  | .error e => network.publish (.error operation e)
  | .ok (some response) => network.publish response
  | .ok none => network

/-- What the manager does apart from its coroutines. -/
def background : ConnectionManager.Event → Bool
  | .connectCompletes _ _ | .closeNotification _ => true
  | .request (.receive _) | .request (.timerExpires _) | .request (.linkCloses _) => true
  | _ => false

/-- A step of the worker thread. -/
inductive Event
  | run (coroutine : Nat)
  | resume (coroutine : Nat)
  | complete (coroutine : Nat)
  | background (event : ConnectionManager.Event)
  deriving DecidableEq, Repr

def step : Machine NetworkComponent Event
  | network, .run coroutine =>
    match network.coroutines[coroutine]? with
    | some { call, progress := .spawned } => some (network.run coroutine call)
    | _ => none
  | network, .resume coroutine =>
    match network.coroutines[coroutine]? with
    | some { call, progress := .suspended place } =>
      (ConnectionManager.step network.manager (resumption place call)).bind fun manager =>
        (outcome manager place call).map fun outcome =>
          { network with manager }.proceed coroutine (.ended outcome)
    | _ => none
  | network, .complete coroutine =>
    match network.coroutines[coroutine]? with
    | some { call, progress := .ended outcome } =>
      some ((network.proceed coroutine .completed).handle call.operation outcome)
    | _ => none
  | network, .background event =>
    if background event then
      (ConnectionManager.step network.manager event).map fun manager => { network with manager }
    else none

variable {network t : NetworkComponent} {e : Event}

@[simp] theorem proceed_manager (network : NetworkComponent) (coroutine : Nat)
    (progress : Progress) : (network.proceed coroutine progress).manager = network.manager := rfl

theorem run_manager (network : NetworkComponent) (coroutine : Nat) (call : Call) :
    ∃ event, ConnectionManager.step network.manager event =
      some (network.run coroutine call).manager := by
  cases call with
  | connect =>
    refine ⟨.connect, ?_⟩
    simp only [ConnectionManager.step, run]
    split
    next h => simp [h]
    next h => simp [h]
  | disconnect =>
    refine ⟨.disconnect, ?_⟩
    simp only [ConnectionManager.step, run]
    split <;> rfl
  | sendRequest request =>
    refine ⟨.request (.send { payload := some request }), ?_⟩
    simp only [ConnectionManager.step, ConnectionManager.outside, if_true,
      ClientRequestManager.step, run, Option.map_some]
    split
    next h => simp [h]
    next h => simp [h]

/-- Whatever the worker thread does, the manager makes one of its own steps or none. -/
theorem manager_step (hstep : step network e = some t) :
    t.manager = network.manager ∨
      ∃ event, ConnectionManager.step network.manager event = some t.manager := by
  cases e with
  | run coroutine =>
    simp only [step] at hstep
    split at hstep
    next call _ =>
      obtain rfl := Option.some.inj hstep
      exact .inr (run_manager network coroutine call)
    next => cases hstep
  | resume coroutine =>
    simp only [step] at hstep
    split at hstep
    next call place _ =>
      obtain ⟨manager, hmanager, hnext⟩ := Option.bind_eq_some_iff.mp hstep
      obtain ⟨outcome, -, rfl⟩ := Option.map_eq_some_iff.mp hnext
      exact .inr ⟨_, hmanager⟩
    next => cases hstep
  | complete coroutine =>
    simp only [step] at hstep
    split at hstep
    next call outcome _ =>
      obtain rfl := Option.some.inj hstep
      left
      cases outcome with
      | error e => rfl
      | ok response => cases response <;> rfl
    next => cases hstep
  | background event =>
    simp only [step] at hstep
    split at hstep
    next =>
      obtain ⟨manager, hmanager, rfl⟩ := Option.map_eq_some_iff.mp hstep
      exact .inr ⟨event, hmanager⟩
    next => cases hstep

end NetworkComponent

end Stalker2D.Client
