import Stalker2D.Client.NetworkComponent

/-!
# The console and the network state

`ConnectionPanel`, `ClientConsoleState` and the loop of `Application::run` around them,
against the worker thread of the `NetworkComponent`. The console is the only
application state, so it gets every click and every result. A frame of the loop is
cut where the other thread can change what it reads next: at `drainResults`, at each
routed result and at `update`. The event log is written and never read here; it has a module
of its own.

`clicked` and `changed` are not in the source. They record what a run has done: whether
Connect or Disconnect was pressed since the panel last showed a state, and whether the
network state has changed since the frame began.
-/

namespace Stalker2D.Client

open Protocol

/-- The colours of the status dot. -/
inductive Color
  | err
  | warn
  | ok
  deriving DecidableEq, Repr

/-- The enabled flags of the four buttons. -/
structure Buttons where
  connect : Bool := true
  disconnect : Bool := true
  ping : Bool := true
  snapshot : Bool := true
  deriving DecidableEq, Repr

inductive Button
  | connect
  | disconnect
  | ping (request : PingRequest)
  | snapshot
  deriving DecidableEq, Repr

def Buttons.enabled (buttons : Buttons) : Button → Bool
  | .connect => buttons.connect
  | .disconnect => buttons.disconnect
  | .ping _ => buttons.ping
  | .snapshot => buttons.snapshot

structure ConnectionPanel where
  statusLabel : String := "Disconnected"
  statusDot : Color := .err
  buttons : Buttons := {}
  deriving DecidableEq, Repr

namespace ConnectionPanel

def showState (panel : ConnectionPanel) (state : ConnectionState) : ConnectionPanel :=
  let connected := decide (state = .connected)
  let buttons : Buttons :=
    { connect := decide (state = .disconnected)
      disconnect := decide (state = .connecting) || connected
      ping := connected
      snapshot := connected }
  let panel := { panel with buttons }
  match state with
  | .disconnected => { panel with statusLabel := "Disconnected", statusDot := .err }
  | .connecting => { panel with statusLabel := "Connecting...", statusDot := .warn }
  | .connected => { panel with statusLabel := "Connected", statusDot := .ok }
  | .disconnecting => { panel with statusLabel := "Disconnecting...", statusDot := .warn }

def disableConnect (panel : ConnectionPanel) : ConnectionPanel :=
  { panel with buttons := { panel.buttons with connect := false } }

def disableDisconnect (panel : ConnectionPanel) : ConnectionPanel :=
  { panel with buttons := { panel.buttons with disconnect := false } }

/-- `showState` sets every flag, whatever was there before. -/
theorem showState_congr (panel other : ConnectionPanel) (state : ConnectionState) :
    panel.showState state = other.showState state := by
  cases state <;> rfl

end ConnectionPanel

structure ClientConsoleState where
  panel : ConnectionPanel
  shownState : ConnectionState
  clicked : Bool := false
  deriving DecidableEq, Repr

namespace ClientConsoleState

/-- `m_shownState` and the panel set to one state. -/
def refresh (console : ClientConsoleState) (state : ConnectionState) : ClientConsoleState :=
  { console with
    panel := console.panel.showState state
    shownState := state
    clicked := false }

/-- The constructor, with the state of the network at that moment. -/
def create (state : ConnectionState) : ClientConsoleState :=
  { panel := ConnectionPanel.showState {} state, shownState := state }

def update (console : ClientConsoleState) (currentState : ConnectionState) :
    ClientConsoleState :=
  if currentState = console.shownState then console else console.refresh currentState

def handleNetworkResult (console : ClientConsoleState) (state : ConnectionState) :
    NetworkResult → ClientConsoleState
  | .error operation _ =>
    if operation = .connect ∨ operation = .disconnect then console.refresh state else console
  | _ => console

/-- The two handlers that disable their own button. -/
def pressConnect (console : ClientConsoleState) : ClientConsoleState :=
  { console with panel := console.panel.disableConnect, clicked := true }

def pressDisconnect (console : ClientConsoleState) : ClientConsoleState :=
  { console with panel := console.panel.disableDisconnect, clicked := true }

/-- What the panel has to do with the state it last showed: buttons are only disabled, and
one is as soon as there was a click. -/
structure Shows (console : ClientConsoleState) : Prop where
  kept : ∀ button, console.panel.buttons.enabled button →
    (console.panel.showState console.shownState).buttons.enabled button
  clean : console.clicked = false →
    console.panel.buttons = (console.panel.showState console.shownState).buttons
  dirty : console.clicked = true → ∃ button, console.panel.buttons.enabled button = false ∧
    (console.panel.showState console.shownState).buttons.enabled button = true

variable {console : ClientConsoleState}

theorem Shows.buttons_eq_iff (shows : console.Shows) :
    console.panel.buttons = (console.panel.showState console.shownState).buttons ↔
      console.clicked = false := by
  constructor
  · intro h
    cases hclicked : console.clicked with
    | false => rfl
    | true =>
      obtain ⟨button, hoff, hon⟩ := shows.dirty hclicked
      rw [h, hon] at hoff
      cases hoff
  · exact shows.clean

theorem shows_refresh (console : ClientConsoleState) (state : ConnectionState) :
    (console.refresh state).Shows := by
  have h : (console.refresh state).panel =
      (console.refresh state).panel.showState (console.refresh state).shownState :=
    ConnectionPanel.showState_congr ..
  constructor
  · intro button hon
    rw [← h]
    exact hon
  · intro _
    rw [← h]
  · exact fun hclicked => nomatch hclicked

theorem shows_create (state : ConnectionState) : (create state).Shows :=
  shows_refresh { panel := {}, shownState := state } state

/-- A handler that disables its own, enabled button. -/
theorem Shows.press (shows : console.Shows) {next : ClientConsoleState} {button : Button}
    (enabled : console.panel.buttons.enabled button)
    (disabled : next.panel.buttons.enabled button = false)
    (others : ∀ other, next.panel.buttons.enabled other → console.panel.buttons.enabled other)
    (shown : next.shownState = console.shownState) (clicked : next.clicked = true) :
    next.Shows := by
  have h : next.panel.showState next.shownState = console.panel.showState console.shownState := by
    rw [shown]
    exact ConnectionPanel.showState_congr ..
  constructor
  · intro other hon
    rw [h]
    exact shows.kept other (others other hon)
  · intro hnot
    rw [clicked] at hnot
    cases hnot
  · intro _
    refine ⟨button, disabled, ?_⟩
    rw [h]
    exact shows.kept button enabled

theorem Shows.pressConnect (shows : console.Shows)
    (enabled : console.panel.buttons.enabled .connect) : console.pressConnect.Shows := by
  refine shows.press enabled rfl (fun other hon => ?_) rfl rfl
  cases other with
  | connect => cases hon
  | disconnect | ping _ | snapshot => exact hon

theorem Shows.pressDisconnect (shows : console.Shows)
    (enabled : console.panel.buttons.enabled .disconnect) : console.pressDisconnect.Shows := by
  refine shows.press enabled rfl (fun other hon => ?_) rfl rfl
  cases other with
  | disconnect => cases hon
  | connect | ping _ | snapshot => exact hon

end ClientConsoleState

/-- `routing` has the drained results that the frame has not routed yet; it is `none`
while the loop polls for clicks. -/
structure Application where
  network : NetworkComponent
  console : ClientConsoleState
  routing : Option (List NetworkResult) := none
  changed : Bool := false

namespace Application

def initial (config : Config) : Application :=
  let network : NetworkComponent := { manager := ConnectionManager.initial config }
  { network, console := .create network.state }

/-- The handler of a pressed button. -/
def press (app : Application) : Button → Application
  | .connect => { app with console := app.console.pressConnect, network := app.network.connect }
  | .disconnect =>
    { app with console := app.console.pressDisconnect, network := app.network.disconnect }
  | .ping request => { app with network := app.network.sendRequest (.ping request) }
  | .snapshot => { app with network := app.network.sendRequest .stateSnapshot }

inductive Event
  | click (button : Button)
  | drain
  | route
  | update
  | network (event : NetworkComponent.Event)
  deriving DecidableEq, Repr

def step : Machine Application Event
  | app, .click button =>
    if app.routing = none ∧ app.console.panel.buttons.enabled button then some (app.press button)
    else none
  | app, .drain =>
    if app.routing = none then
      let (results, network) := app.network.drainResults
      some { app with network, routing := some results, changed := false }
    else none
  | app, .route =>
    match app.routing with
    | some (result :: results) =>
      some { app with
        console := app.console.handleNetworkResult app.network.state result
        routing := some results }
    | _ => none
  | app, .update =>
    if app.routing = some [] then
      some { app with console := app.console.update app.network.state, routing := none }
    else none
  | app, .network event =>
    (NetworkComponent.step app.network event).map fun network =>
      { app with network, changed := app.changed || decide (network.state ≠ app.network.state) }

/-- No coroutine of a `connect` or `disconnect` is outstanding, no result is undelivered,
and the state has not changed during the frame. -/
def AtRest (app : Application) : Prop :=
  (∀ coroutine ∈ app.network.coroutines,
    coroutine.call = .connect ∨ coroutine.call = .disconnect → coroutine.progress = .completed) ∧
  app.network.results = [] ∧ app.changed = false

instance (app : Application) : Decidable app.AtRest :=
  inferInstanceAs (Decidable (_ ∧ _ ∧ _))

/-- The flags are those of the network state. -/
def Synchronised (app : Application) : Prop :=
  app.console.panel.buttons = (app.console.panel.showState app.network.state).buttons

instance (app : Application) : Decidable app.Synchronised :=
  inferInstanceAs (Decidable (_ = _))

/-- Connect or Disconnect has been pressed since the panel last showed a state, and the
network is in that state again. -/
def Missed (app : Application) : Prop :=
  app.console.clicked = true ∧ app.network.state = app.console.shownState

instance (app : Application) : Decidable app.Missed :=
  inferInstanceAs (Decidable (_ ∧ _))

theorem update_eq_some {app t : Application} :
    step app .update = some t ↔ app.routing = some [] ∧
      { app with console := app.console.update app.network.state, routing := none } = t := by
  simp only [step]
  split
  next h => simp [h]
  next h => simp [h]

/-- `update` ends in step with the network unless it misses that there was anything to do. -/
theorem synchronised_update {app t : Application} (shows : app.console.Shows)
    (hstep : step app .update = some t) : t.Synchronised ↔ ¬ app.Missed := by
  obtain ⟨-, rfl⟩ := update_eq_some.mp hstep
  simp only [Synchronised, Missed, ClientConsoleState.update]
  by_cases hstate : app.network.state = app.console.shownState
  · rw [if_pos hstate, hstate, shows.buttons_eq_iff]
    simp
  · rw [if_neg hstate]
    simp only [hstate, and_false, not_false_eq_true, iff_true]
    exact congrArg ConnectionPanel.buttons (ConnectionPanel.showState_congr ..)

theorem atRest_update {app t : Application} (hstep : step app .update = some t) :
    t.AtRest ↔ app.AtRest := by
  obtain ⟨-, rfl⟩ := update_eq_some.mp hstep
  exact Iff.rfl

/-- Every step keeps what the panel has to do with the state it last showed. -/
theorem shows_step {app t : Application} {e : Event} (shows : app.console.Shows)
    (hstep : step app e = some t) : t.console.Shows := by
  cases e with
  | click button =>
    simp only [step] at hstep
    split at hstep
    next h =>
      obtain rfl := Option.some.inj hstep
      cases button with
      | connect => exact shows.pressConnect h.2
      | disconnect => exact shows.pressDisconnect h.2
      | ping _ | snapshot => exact shows
    next => cases hstep
  | drain =>
    simp only [step] at hstep
    split at hstep
    next =>
      obtain rfl := Option.some.inj hstep
      exact shows
    next => cases hstep
  | route =>
    simp only [step] at hstep
    split at hstep
    next result results _ =>
      obtain rfl := Option.some.inj hstep
      cases result with
      | pong _ | stateSnapshot _ => exact shows
      | error operation _ =>
        simp only [ClientConsoleState.handleNetworkResult]
        split
        · exact ClientConsoleState.shows_refresh ..
        · exact shows
    next => cases hstep
  | update =>
    obtain ⟨-, rfl⟩ := update_eq_some.mp hstep
    simp only [ClientConsoleState.update]
    split
    · exact shows
    · exact ClientConsoleState.shows_refresh ..
  | network event =>
    obtain ⟨network, -, rfl⟩ := Option.map_eq_some_iff.mp hstep
    exact shows

section Recorded

variable {config : Config} {es before after : List Event} {app t shown : Application} {e : Event}

/-- The steps in which the panel shows a state: an `update` that finds a new one, and the
routing of an error that ended a `connect` or a `disconnect`. -/
def ShowsState (app : Application) : Event → Prop
  | .update => app.network.state ≠ app.console.shownState
  | .route => ∃ operation message results,
    app.routing = some (.error operation message :: results) ∧
      (operation = .connect ∨ operation = .disconnect)
  | _ => False

/-- A click that disables its own button. -/
def Event.disables : Event → Bool
  | .click .connect | .click .disconnect => true
  | _ => false

/-- What is shown is the state the network is in. -/
theorem shown_of_showsState (shows : app.ShowsState e) (hstep : step app e = some t) :
    t.console.shownState = t.network.state ∧ t.console.clicked = false := by
  cases e with
  | update =>
    obtain ⟨-, rfl⟩ := update_eq_some.mp hstep
    rw [ClientConsoleState.update, if_neg shows]
    exact ⟨rfl, rfl⟩
  | route =>
    obtain ⟨operation, message, results, hrouting, hoperation⟩ := shows
    simp only [step, hrouting] at hstep
    obtain rfl := Option.some.inj hstep
    rw [ClientConsoleState.handleNetworkResult, if_pos hoperation]
    exact ⟨rfl, rfl⟩
  | _ => exact shows.elim

/-- Every other step keeps what was shown, and notes a click. -/
theorem recorded_step (hides : ¬ app.ShowsState e) (hstep : step app e = some t) :
    t.console.shownState = app.console.shownState ∧
      t.console.clicked = (app.console.clicked || e.disables) := by
  cases e with
  | click button =>
    simp only [step] at hstep
    split at hstep
    next =>
      obtain rfl := Option.some.inj hstep
      cases button with
      | connect | disconnect => exact ⟨rfl, (Bool.or_true _).symm⟩
      | ping _ | snapshot => exact ⟨rfl, (Bool.or_false _).symm⟩
    next => cases hstep
  | drain =>
    simp only [step] at hstep
    split at hstep
    next =>
      obtain rfl := Option.some.inj hstep
      exact ⟨rfl, (Bool.or_false _).symm⟩
    next => cases hstep
  | route =>
    simp only [step] at hstep
    split at hstep
    next result results hrouting =>
      obtain rfl := Option.some.inj hstep
      cases result with
      | pong _ | stateSnapshot _ => exact ⟨rfl, (Bool.or_false _).symm⟩
      | error operation message =>
        have hoperation : ¬(operation = .connect ∨ operation = .disconnect) :=
          fun h => hides ⟨operation, message, results, hrouting, h⟩
        simp only [ClientConsoleState.handleNetworkResult, if_neg hoperation]
        exact ⟨trivial, (Bool.or_false _).symm⟩
    next => cases hstep
  | update =>
    obtain ⟨-, rfl⟩ := update_eq_some.mp hstep
    rw [ClientConsoleState.update, if_pos (Decidable.not_not.mp hides)]
    exact ⟨rfl, (Bool.or_false _).symm⟩
  | network event =>
    obtain ⟨network, -, rfl⟩ := Option.map_eq_some_iff.mp hstep
    exact ⟨rfl, (Bool.or_false _).symm⟩

/-- `shown` is where a run was, after `before`, when the panel showed a state for the last time. -/
structure LastShown (config : Config) (before after : List Event) (shown app : Application) :
    Prop where
  reached : step.exec (initial config) before = some shown
  shows : before = [] ∨ ∃ earlier e s, before = earlier ++ [e] ∧
    step.exec (initial config) earlier = some s ∧ s.ShowsState e
  rest : step.exec shown after = some app
  last : step.Along (fun app e _ => ¬ app.ShowsState e) shown after

theorem LastShown.fresh (h : LastShown config before after shown app) :
    shown.console.shownState = shown.network.state ∧ shown.console.clicked = false := by
  obtain rfl | ⟨earlier, e, s, rfl, hearlier, shows⟩ := h.shows
  · obtain rfl := Option.some.inj h.reached
    exact ⟨rfl, rfl⟩
  · obtain ⟨u, hu, hstep⟩ := Machine.exec_concat_eq_some.mp h.reached
    obtain rfl := Option.some.inj (hearlier.symm.trans hu)
    exact shown_of_showsState shows hstep

theorem exists_lastShown (run : step.exec (initial config) es = some app) :
    ∃ before after shown, es = before ++ after ∧ LastShown config before after shown app := by
  refine Machine.exec_induction (motive := fun es app => ∃ before after shown,
    es = before ++ after ∧ LastShown config before after shown app) ?init ?next run
  case init => exact ⟨[], [], initial config, rfl, rfl, .inl rfl, rfl, trivial⟩
  case next =>
    rintro es app e t hrun ⟨before, after, shown, rfl, h⟩ hstep
    by_cases shows : app.ShowsState e
    · refine ⟨before ++ after ++ [e], [], t, (List.append_nil _).symm, ?_, ?_, rfl, trivial⟩
      · exact Machine.exec_concat_eq_some.mpr ⟨app, hrun, hstep⟩
      · exact .inr ⟨before ++ after, e, app, rfl, hrun, shows⟩
    · refine ⟨before, after ++ [e], shown, List.append_assoc .., h.reached, h.shows, ?_, ?_⟩
      · exact Machine.exec_concat_eq_some.mpr ⟨app, h.rest, hstep⟩
      · refine Machine.along_append.mpr ⟨h.last, fun u hu => Machine.along_cons.mpr ?_⟩
        obtain rfl := Option.some.inj (h.rest.symm.trans hu)
        exact fun _ _ => ⟨shows, trivial⟩

theorem recorded_exec (run : step.exec shown after = some app)
    (last : step.Along (fun app e _ => ¬ app.ShowsState e) shown after) :
    app.console.shownState = shown.console.shownState ∧
      app.console.clicked = (shown.console.clicked || after.any Event.disables) := by
  induction after generalizing shown with
  | nil =>
    obtain rfl := Option.some.inj run
    exact ⟨rfl, (Bool.or_false _).symm⟩
  | cons e after ih =>
    obtain ⟨t, hstep, hrest⟩ := Machine.exec_cons_eq_some.mp run
    obtain ⟨hides, hlast⟩ := Machine.along_cons.mp last t hstep
    obtain ⟨hshown, hclicked⟩ := recorded_step hides hstep
    obtain ⟨hshown', hclicked'⟩ := ih hrest hlast
    refine ⟨hshown'.trans hshown, ?_⟩
    rw [hclicked', hclicked, List.any_cons, Bool.or_assoc]

/-- What a run has recorded: the state of the network when the panel last showed one, and
whether Connect or Disconnect has been pressed since. -/
theorem LastShown.recorded (h : LastShown config before after shown app) :
    app.console.shownState = shown.network.state ∧
      app.console.clicked = after.any Event.disables := by
  obtain ⟨hshown, hclicked⟩ := recorded_exec h.rest h.last
  obtain ⟨hstate, hclean⟩ := h.fresh
  refine ⟨hshown.trans hstate, ?_⟩
  rw [hclicked, hclean, Bool.false_or]

/-- Every run has a last moment at which the panel showed a state. A click is missed exactly if
one came after that moment and the network is back in the state it had then. -/
theorem missed_iff_clicked_since (run : step.exec (initial config) es = some app) :
    ∃ before after shown, es = before ++ after ∧ LastShown config before after shown app ∧
      (app.console.clicked = true ↔ ∃ e ∈ after, e.disables = true) ∧
      (app.Missed ↔ (∃ e ∈ after, e.disables = true) ∧
        app.network.state = shown.network.state) := by
  obtain ⟨before, after, shown, hes, h⟩ := exists_lastShown run
  obtain ⟨hshown, hclicked⟩ := h.recorded
  refine ⟨before, after, shown, hes, h, ?_, ?_⟩
  · rw [hclicked, List.any_eq_true]
  · rw [Missed, hclicked, hshown, List.any_eq_true]

end Recorded

/-- Every `update` of a run that finds the client at rest leaves the buttons of the network
state. -/
def Resynchronises (_ : Application) (e : Event) (t : Application) : Prop :=
  e = .update → t.AtRest → t.Synchronised

/-- No `update` of a run that finds the client at rest comes too late for a click. -/
def NoneMissed (app : Application) (e : Event) (_ : Application) : Prop :=
  e = .update → app.AtRest → ¬ app.Missed

instance (app : Application) (e : Event) (t : Application) : Decidable (Resynchronises app e t) :=
  inferInstanceAs (Decidable (_ → _ → _))

/-- The panel resynchronises in a run exactly if the run misses no click. -/
theorem resynchronises_along_iff (config : Config) (es : List Event) :
    step.Along Resynchronises (initial config) es ↔ step.Along NoneMissed (initial config) es := by
  refine Machine.along_iff (I := fun app => app.console.Shows) ?_ ?_ ?_ es
  · intro app e t shows hstep
    constructor
    · rintro h rfl hrest
      exact (synchronised_update shows hstep).mp (h rfl ((atRest_update hstep).mpr hrest))
    · rintro h rfl hrest
      exact (synchronised_update shows hstep).mpr (h rfl ((atRest_update hstep).mp hrest))
  · intro app e t shows hstep _
    exact shows_step shows hstep
  · exact ClientConsoleState.shows_create _

/-- A connection that is made and lost between two frames leaves Connect disabled. -/
theorem connect_stays_disabled :
    ¬ step.Along Resynchronises (initial {})
      [.click .connect, .network (.run 0), .network (.background (.connectCompletes 0 none)),
        .network (.resume 0), .network (.complete 0),
        .network (.background (.request (.linkCloses 0))),
        .network (.background (.closeNotification 0)), .drain, .update] := by
  decide

end Application

end Stalker2D.Client
