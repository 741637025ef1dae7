import Stalker2D.Machine.Basic
import Stalker2D.Shared.Basic

/-!
# The stack of application states

`StateManager` over `UiComponent`. The stack is listed from bottom to top, as the
vector of the source. What a state does in its callbacks is the environment's
choice: each event carries the answers of `updatesBelow` / `drawsBelow` and the
requests every visited state makes, a null state among them included.

An event ends by returning or by throwing; either way it leaves a manager behind.
-/

namespace Stalker2D.Client

/-- Which widget a `tgui::Widget::Ptr` points to. -/
abbrev Widget := Nat

/-- A state as its manager sees it. Roots are distinct, so two states are the same
object exactly when they have the same root. -/
structure ApplicationState where
  root : Widget
  deriving DecidableEq, Repr

/-- `UiComponent` with the widgets' own enabled flags. -/
structure UiComponent where
  mounted : List Widget
  enabled : Widget → Bool

namespace UiComponent

def mount (ui : UiComponent) (root : Widget) : UiComponent :=
  { ui with mounted := ui.mounted ++ [root] }

def unmount (ui : UiComponent) (root : Widget) : UiComponent :=
  { ui with mounted := ui.mounted.erase root }

def setInteractive (ui : UiComponent) (root : Widget) (interactive : Bool) : UiComponent :=
  { ui with enabled := fun widget => if widget = root then interactive else ui.enabled widget }

@[simp] theorem mount_enabled (ui : UiComponent) (root : Widget) :
    (ui.mount root).enabled = ui.enabled := rfl

@[simp] theorem unmount_enabled (ui : UiComponent) (root : Widget) :
    (ui.unmount root).enabled = ui.enabled := rfl

theorem setInteractive_enabled (ui : UiComponent) (root widget : Widget) (interactive : Bool) :
    (ui.setInteractive root interactive).enabled widget =
      if widget = root then interactive else ui.enabled widget := rfl

end UiComponent

/-- `PendingChange`: only a push and a reset carry a state. -/
inductive PendingChange
  | push (state : ApplicationState)
  | resetTo (state : ApplicationState)
  | pop
  deriving DecidableEq, Repr

/-- The roots a change brings along. -/
def PendingChange.roots : PendingChange → List Widget
  | .push state => [state.root]
  | .resetTo state => [state.root]
  | .pop => []

/-- A call of `requestPush`, `requestResetTo` or `requestPop`; the state may be null. -/
inductive Request
  | push (state : Option ApplicationState)
  | resetTo (state : Option ApplicationState)
  | pop
  deriving DecidableEq, Repr

def Request.roots : Request → List Widget
  | .push state => state.toList.map ApplicationState.root
  | .resetTo state => state.toList.map ApplicationState.root
  | .pop => []

structure StateManager where
  ui : UiComponent
  states : List ApplicationState
  pendingChanges : List PendingChange

namespace StateManager

def refreshInteractivity (manager : StateManager) : StateManager :=
  { manager with
    ui := manager.states.foldl
      (fun ui state => ui.setInteractive state.root (decide (manager.states.getLast? = some state)))
      manager.ui }

/-- The constructor. -/
def create (ui : UiComponent) : Option ApplicationState → Except Exception StateManager
  | none => .error (.invalidArgument "Initial application state must not be null")
  | some initialState =>
    .ok (refreshInteractivity
      { ui := ui.mount initialState.root, states := [initialState], pendingChanges := [] })

def requestPush (manager : StateManager) :
    Option ApplicationState → Except Exception Unit × StateManager
  | none => (.error (.invalidArgument "Pushed application state must not be null"), manager)
  | some state =>
    (.ok (), { manager with pendingChanges := manager.pendingChanges ++ [.push state] })

def requestResetTo (manager : StateManager) :
    Option ApplicationState → Except Exception Unit × StateManager
  | none => (.error (.invalidArgument "Reset application state must not be null"), manager)
  | some state =>
    (.ok (), { manager with pendingChanges := manager.pendingChanges ++ [.resetTo state] })

def requestPop (manager : StateManager) : Except Exception Unit × StateManager :=
  (.ok (), { manager with pendingChanges := manager.pendingChanges ++ [.pop] })

def request (manager : StateManager) : Request → Except Exception Unit × StateManager
  | .push state => manager.requestPush state
  | .resetTo state => manager.requestResetTo state
  | .pop => manager.requestPop

/-- The body of the loop in `applyPendingChanges`, for a change already taken off
the queue. -/
def applyChange (manager : StateManager) : PendingChange → Except Exception StateManager
  | .push state =>
    .ok { manager with
      ui := manager.ui.mount state.root
      states := manager.states ++ [state] }
  | .resetTo state =>
    .ok { manager with
      ui := manager.states.foldl (fun ui old => ui.unmount old.root) (manager.ui.mount state.root)
      states := [state] }
  | .pop =>
    if manager.states.length = 1 then
      .error (.logicError "Cannot pop the last application state")
    else
      .ok { manager with
        ui := manager.states.getLast?.elim manager.ui fun top => manager.ui.unmount top.root
        states := manager.states.dropLast }

/-- The loop of `applyPendingChanges` on the queue `changes`. -/
def applyChanges (manager : StateManager) :
    List PendingChange → Except Exception Unit × StateManager
  | [] => (.ok (), { manager with pendingChanges := [] }.refreshInteractivity)
  | change :: changes =>
    match manager.applyChange change with
    | .error e => (.error e, { manager with pendingChanges := changes })
    | .ok next => next.applyChanges changes

def applyPendingChanges (manager : StateManager) : Except Exception Unit × StateManager :=
  if manager.pendingChanges.isEmpty then (.ok (), manager)
  else manager.applyChanges manager.pendingChanges

/-- The downward scan of `firstUpdatedState` and `firstRenderedState`. -/
def scanDown (below : ApplicationState → Bool) (states : List ApplicationState) : Nat → Nat
  | 0 => 0
  | first + 1 =>
    if states[first + 1]?.any below then scanDown below states first else first + 1

def firstUpdatedState (manager : StateManager) (updatesBelow : ApplicationState → Bool) : Nat :=
  scanDown updatesBelow manager.states (manager.states.length - 1)

/-- Run calls in order until one throws. -/
def sequence {α : Type} (call : StateManager → α → Except Exception Unit × StateManager) :
    StateManager → List α → Except Exception Unit × StateManager
  | manager, [] => (.ok (), manager)
  | manager, a :: as =>
    match call manager a with
    | (.error e, next) => (.error e, next)
    | (.ok _, next) => sequence call next as

/-- The states an update visits, from bottom to top. -/
def updatedStates (manager : StateManager) (updatesBelow : ApplicationState → Bool) :
    List ApplicationState :=
  manager.states.drop (manager.firstUpdatedState updatesBelow)

/-- The loop of `update`: each visited state makes its own requests. -/
def updateStates (manager : StateManager) (updatesBelow : ApplicationState → Bool)
    (requests : ApplicationState → List Request) : Except Exception Unit × StateManager :=
  sequence (fun manager state => sequence request manager (requests state)) manager
    (manager.updatedStates updatesBelow)

def update (manager : StateManager) (updatesBelow : ApplicationState → Bool)
    (requests : ApplicationState → List Request) : Except Exception Unit × StateManager :=
  match manager.updateStates updatesBelow requests with
  | (.error e, next) => (.error e, next)
  | (.ok _, next) => next.applyPendingChanges

end StateManager

end Stalker2D.Client
