import Mathlib.Data.List.DropRight
import Stalker2D.Client.ClientConsoleState
import Stalker2D.Client.NetworkResults

/-!
# The event log

`EventLogPanel`, and the lines the console writes to it: one for each pressed button, one for
each result that is routed to it, and one when `update` finds the client connected or
disconnected. Nothing reads the log, so it is put beside the `Application` here. The users of
the component are the buttons and the frames of the loop, which makes a run of the
application a session of the component; what the log has of its results is therefore what
the coroutines ended with, in the order of their completions.

The time of a line comes with the event, the endpoint and the texts of error codes are
parameters. `history` is not in the source: it has every entry ever added.
-/

namespace Stalker2D.Client

open Protocol

structure EventLogPanel where
  logView : String := ""
  lines : List String := []
  deriving DecidableEq, Repr

namespace EventLogPanel

def maxLines : Nat := 80

def refresh (panel : EventLogPanel) : EventLogPanel :=
  { panel with logView := panel.lines.foldl (fun text line => text ++ line ++ "\n") "" }

def add (panel : EventLogPanel) (currentTime line : String) : EventLogPanel :=
  let lines := if maxLines ≤ panel.lines.length then panel.lines.tail else panel.lines
  refresh { panel with lines := lines ++ ["[" ++ currentTime ++ "] " ++ line] }

/-- The panel has the last lines of what was added to it, and shows them. -/
structure Shows (panel : EventLogPanel) (added : List String) : Prop where
  lines : panel.lines = added.rtake maxLines
  logView : panel.logView = String.join (panel.lines.map (· ++ "\n"))

theorem shows_nil : Shows {} [] where
  lines := (List.rtake_nil maxLines).symm
  logView := rfl

theorem foldl_lines (text : String) (lines : List String) :
    lines.foldl (fun text line => text ++ line ++ "\n") text =
      text ++ String.join (lines.map (· ++ "\n")) := by
  induction lines generalizing text with
  | nil => exact (String.append_empty).symm
  | cons line lines ih =>
    rw [List.foldl_cons, ih, List.map_cons, String.join_cons, String.append_assoc,
      String.append_assoc, String.append_assoc]

/-- Dropping the first line of a full panel leaves room for the next one. -/
theorem rtake_tail {α : Type} (l : List α) (n : Nat) :
    (if n + 1 ≤ (l.rtake (n + 1)).length then (l.rtake (n + 1)).tail else l.rtake (n + 1)) =
      l.rtake n := by
  simp only [List.rtake, List.length_drop, List.tail_drop]
  split
  next h =>
    congr 1
    omega
  next h =>
    congr 1
    omega

theorem Shows.add {panel : EventLogPanel} {added : List String} (shows : panel.Shows added)
    (currentTime line : String) :
    (panel.add currentTime line).Shows (added ++ ["[" ++ currentTime ++ "] " ++ line]) where
  lines := by
    have hlines : (panel.add currentTime line).lines =
        (if maxLines ≤ panel.lines.length then panel.lines.tail else panel.lines) ++
          ["[" ++ currentTime ++ "] " ++ line] := rfl
    rw [hlines, shows.lines]
    exact (congrArg (· ++ _) (rtake_tail added 79)).trans (List.rtake_concat_succ ..).symm
  logView := by
    rw [EventLogPanel.add, refresh]
    exact (foldl_lines "" _).trans String.empty_append

end EventLogPanel

/-- `exceptionMessage`; a `system_error` adds the text of its code. -/
def exceptionMessage (describe : ErrorCode → String) : Exception → String
  | .runtimeError what | .logicError what | .invalidArgument what => what
  | .systemError code what => what ++ ": " ++ describe code

def operationName : NetworkOperation → String
  | .connect => "Connect"
  | .disconnect => "Disconnect"
  | .ping => "Ping"
  | .stateSnapshot => "State snapshot"

/-- What a line of the log is about. -/
inductive Entry
  | ready
  | pressed (button : Button)
  | result (result : NetworkResult)
  | connected
  | disconnected
  deriving DecidableEq

namespace Entry

def line (endpoint : String) (describe : ErrorCode → String) : Entry → String
  | .ready => "Ready"
  | .pressed .connect => "Connecting to " ++ endpoint
  | .pressed .disconnect => "Disconnect requested"
  | .pressed .snapshot => "Sending state snapshot"
  | .pressed (.ping _) => "Sending ping"
  | .result (.pong response) => "Pong: " ++ toString response.timestamp.toNat
  | .result (.stateSnapshot response) => "State snapshot: " ++ response.stateJson
  | .result (.error operation exception) =>
    operationName operation ++ " failed: " ++ exceptionMessage describe exception
  | .connected => "Connected"
  | .disconnected => "Disconnected"

def networkResult : Entry → Option NetworkResult
  | .result value => some value
  | _ => none

end Entry

structure LoggedApplication where
  app : Application
  eventLog : EventLogPanel
  history : List (String × Entry)

namespace LoggedApplication

/-- What a step of the application adds to the log. -/
def entries (app : Application) : Application.Event → List Entry
  | .click button => [.pressed button]
  | .route =>
    match app.routing with
    | some (result :: _) => [.result result]
    | _ => []
  | .update =>
    if app.network.state = app.console.shownState then []
    else
      match app.network.state with
      | .connected => [.connected]
      | .disconnected => [.disconnected]
      | _ => []
  | .drain | .network _ => []

/-- The console adds an entry. -/
def add (endpoint : String) (describe : ErrorCode → String) (currentTime : String)
    (logged : LoggedApplication) (entry : Entry) : LoggedApplication :=
  { logged with
    eventLog := logged.eventLog.add currentTime (entry.line endpoint describe)
    history := logged.history ++ [(currentTime, entry)] }

def initial (endpoint : String) (describe : ErrorCode → String) (config : Config)
    (currentTime : String) : LoggedApplication :=
  add endpoint describe currentTime
    { app := Application.initial config, eventLog := {}, history := [] } .ready

/-- A step of the application at a time of the clock. -/
def step (endpoint : String) (describe : ErrorCode → String) :
    Machine LoggedApplication (Application.Event × String)
  | logged, (event, currentTime) =>
    (Application.step logged.app event).map fun app =>
      (entries logged.app event).foldl (add endpoint describe currentTime) { logged with app }

/-- The results the log has had lines for. -/
def routed (logged : LoggedApplication) : List NetworkResult :=
  logged.history.filterMap fun entry => entry.2.networkResult

/-- The text of an entry of the history. -/
def stamp (endpoint : String) (describe : ErrorCode → String) (entry : String × Entry) : String :=
  "[" ++ entry.1 ++ "] " ++ entry.2.line endpoint describe

variable {endpoint : String} {describe : ErrorCode → String} {config : Config}
variable {logged t : LoggedApplication} {e : Application.Event × String}

section Panel

/-- The panel shows the end of the history. -/
def Shown (endpoint : String) (describe : ErrorCode → String) (logged : LoggedApplication) :
    Prop :=
  logged.eventLog.Shows (logged.history.map (stamp endpoint describe))

theorem Shown.add (shown : logged.Shown endpoint describe) (currentTime : String) (entry : Entry) :
    (logged.add endpoint describe currentTime entry).Shown endpoint describe := by
  have h := EventLogPanel.Shows.add shown currentTime (entry.line endpoint describe)
  rw [Shown, LoggedApplication.add, List.map_append, List.map_singleton]
  exact h

theorem Shown.foldl (shown : logged.Shown endpoint describe) (currentTime : String)
    (added : List Entry) :
    (added.foldl (LoggedApplication.add endpoint describe currentTime) logged).Shown endpoint
      describe := by
  induction added generalizing logged with
  | nil => exact shown
  | cons entry added ih => exact ih (shown.add currentTime entry)

theorem invariant_shown : (step endpoint describe).Invariant (Shown endpoint describe) := by
  rintro logged ⟨event, currentTime⟩ t shown hstep
  obtain ⟨app, -, rfl⟩ := Option.map_eq_some_iff.mp hstep
  have moved : Shown endpoint describe { logged with app } := shown
  exact moved.foldl currentTime _

end Panel

section Results

theorem app_foldl (currentTime : String) (added : List Entry) (logged : LoggedApplication) :
    (added.foldl (add endpoint describe currentTime) logged).app = logged.app := by
  induction added generalizing logged with
  | nil => rfl
  | cons entry added ih => exact ih _

theorem routed_foldl (currentTime : String) (added : List Entry) (logged : LoggedApplication) :
    (added.foldl (add endpoint describe currentTime) logged).routed =
      logged.routed ++ added.filterMap Entry.networkResult := by
  induction added generalizing logged with
  | nil => exact (List.append_nil _).symm
  | cons entry added ih =>
    rw [List.foldl_cons, ih]
    simp only [routed, add, List.filterMap_append, List.append_assoc]
    congr 1
    cases entry <;> rfl

/-- What a pressed button spawns. -/
def pressedCall : Button → Call
  | .connect => .connect
  | .disconnect => .disconnect
  | .ping request => .sendRequest (.ping request)
  | .snapshot => .sendRequest .stateSnapshot

/-- The step of the session under a step of the application, if it makes one. -/
def sessionEvents : Application.Event → List NetworkSession.Event
  | .click button => [.spawn (pressedCall button)]
  | .drain => [.drain]
  | .network event => [.worker event]
  | .route | .update => []

/-- The session has drained what has been routed and what the frame is about to route. -/
structure Follows (logged : LoggedApplication) (session : NetworkSession) : Prop where
  network : session.network = logged.app.network
  drained : session.drained = logged.routed ++ logged.app.routing.getD []

theorem Follows.step {session : NetworkSession} (follows : logged.Follows session)
    (hstep : step endpoint describe logged e = some t) :
    ∃ session', Machine.exec NetworkSession.step session (sessionEvents e.1) = some session' ∧
      t.Follows session' := by
  obtain ⟨event, currentTime⟩ := e
  obtain ⟨app, happ, rfl⟩ := Option.map_eq_some_iff.mp hstep
  obtain ⟨hnetwork, hdrained⟩ := follows
  -- the log is added to after the step
  have after : ∀ session' : NetworkSession, session'.network = app.network →
      session'.drained = logged.routed ++
        (entries logged.app event).filterMap Entry.networkResult ++ app.routing.getD [] →
      Follows ((entries logged.app event).foldl (add endpoint describe currentTime)
        { logged with app }) session' := by
    intro session' hnetwork' hdrained'
    refine ⟨by rw [hnetwork', app_foldl], ?_⟩
    rw [hdrained', routed_foldl, app_foldl]
    rfl
  cases event with
  | click button =>
    simp only [Application.step, Option.ite_none_right_eq_some, Option.some.injEq] at happ
    obtain ⟨⟨hrouting, -⟩, rfl⟩ := happ
    refine ⟨_, rfl, after _ ?_ ?_⟩
    · rw [hnetwork]
      cases button <;> rfl
    · rw [hdrained]
      cases button <;> simp [entries, Entry.networkResult, Application.press]
  | drain =>
    simp only [Application.step, Option.ite_none_right_eq_some, Option.some.injEq] at happ
    obtain ⟨hrouting, rfl⟩ := happ
    refine ⟨_, rfl, after _ ?_ ?_⟩
    · rw [hnetwork]
      rfl
    · rw [hdrained, hrouting, hnetwork]
      simp [entries, NetworkComponent.drainResults]
  | route =>
    simp only [Application.step] at happ
    split at happ
    next result results hrouting =>
      obtain rfl := Option.some.inj happ
      refine ⟨session, rfl, after _ hnetwork ?_⟩
      rw [hdrained, hrouting]
      simp [entries, hrouting, Entry.networkResult]
    next => cases happ
  | update =>
    obtain ⟨hrouting, rfl⟩ := Application.update_eq_some.mp happ
    refine ⟨session, rfl, after _ hnetwork ?_⟩
    rw [hdrained, hrouting]
    simp only [entries]
    split
    · simp
    · split <;> simp [Entry.networkResult]
  | network event =>
    obtain ⟨network, hstep', rfl⟩ := Option.map_eq_some_iff.mp happ
    refine ⟨{ session with
        network
        completions := session.completions ++ NetworkSession.completes session.network event },
      ?_, after _ rfl ?_⟩
    · simp only [sessionEvents, Machine.exec_cons, NetworkSession.step, hnetwork, hstep',
        Option.map_some, Option.bind_some, Machine.exec_nil]
    · rw [hdrained]
      simp [entries]

/-- Under the application the component goes through a session. -/
theorem follows_exec {config : Config} {currentTime : String}
    {es : List (Application.Event × String)}
    (run : (step endpoint describe).exec (initial endpoint describe config currentTime) es =
      some logged) :
    ∃ session, Machine.exec NetworkSession.step
      { network := { manager := ConnectionManager.initial config } }
        (es.flatMap fun e => sessionEvents e.1) = some session ∧ logged.Follows session := by
  refine Machine.exec_induction (motive := fun es logged => ∃ session,
    Machine.exec NetworkSession.step
      { network := { manager := ConnectionManager.initial config } }
        (es.flatMap fun e => sessionEvents e.1) = some session ∧ logged.Follows session)
    ⟨_, rfl, rfl, rfl⟩ ?_ run
  rintro es logged e t - ⟨session, hsession, follows⟩ hstep
  obtain ⟨session', hnext, follows'⟩ := follows.step hstep
  refine ⟨session', ?_, follows'⟩
  rw [List.flatMap_append, List.flatMap_singleton]
  exact Machine.exec_append_eq_some.mpr ⟨session, hsession, hnext⟩

end Results

/-- What the log has to do with what was clicked. -/
structure LogsResults (endpoint : String) (describe : ErrorCode → String)
    (es : List (Application.Event × String)) (logged : LoggedApplication) : Prop where
  /-- The panel shows the last lines ever added. -/
  shown : logged.Shown endpoint describe
  /-- Every pressed button has its coroutine. -/
  spawned : logged.app.network.coroutines.map Coroutine.call =
    NetworkSession.spawned (es.flatMap fun e => sessionEvents e.1)
  /-- The results in the log, those the frame still has to route and those nobody has drained
  are, one after the other, what the completed coroutines ended with. -/
  results : ∃ completions : List Completion,
    NetworkSession.Logged logged.app.network.coroutines completions ∧
      logged.routed ++ logged.app.routing.getD [] ++ logged.app.network.results =
        completions.flatMap Completion.results ∧
      ∀ completion ∈ completions,
        NetworkComponent.Ends logged.app.network.manager.requests completion.call
          completion.outcome

/-- The log view has the last lines ever added, each enabled click has spawned its coroutine, and
the results logged, still to be routed and not yet drained are together, in order, those of the
completed coroutines. This holds for every run with fewer than `2 ^ 64` requests. -/
theorem log_shows_results {timeouts : Timeouts} (valid : config.validate timeouts = .ok ())
    {currentTime : String} {es : List (Application.Event × String)}
    (run : (step endpoint describe).exec (initial endpoint describe config currentTime) es =
      some logged)
    (few : logged.app.network.manager.requests.calls.length < UInt64.size) :
    LogsResults endpoint describe es logged := by
  obtain ⟨session, hsession, hnetwork, hdrained⟩ := follows_exec run
  rw [← hnetwork] at few
  have kept := NetworkSession.kept_exec (Config.validate_connection valid) hsession few
  have empty : Shown endpoint describe
    { app := Application.initial config, eventLog := {}, history := [] } := EventLogPanel.shows_nil
  have start := empty.add currentTime .ready
  refine ⟨invariant_shown.exec start run, ?_, session.completions, ?_, ?_, ?_⟩
  · rw [← hnetwork]
    exact NetworkSession.calls_exec rfl hsession
  · rw [← hnetwork]
    exact kept.logged
  · rw [← hdrained, ← hnetwork, kept.inOrder]
  · rw [← hnetwork]
    exact kept.ends

/-- A connection that cannot be made. -/
def refused : List (Application.Event × String) :=
  [(.click .connect, "10:00:00"), (.network (.run 0), ""),
    (.network (.background (.connectCompletes 0 (some (.other 10061)))), ""),
    (.network (.resume 0), ""), (.network (.complete 0), ""), (.drain, ""),
    (.route, "10:00:02"), (.update, "10:00:02")]

theorem log_shows_results_refused :
    ∃ logged, (step "127.0.0.1:1234" fun _ => "refused").exec
        (initial "127.0.0.1:1234" (fun _ => "refused") {} "09:59:00") refused = some logged ∧
      LogsResults "127.0.0.1:1234" (fun _ => "refused") refused logged ∧
      logged.eventLog.lines = ["[09:59:00] Ready", "[10:00:00] Connecting to 127.0.0.1:1234",
        "[10:00:02] Connect failed: Failed to connect to server: refused"] := by
  have run : (step "127.0.0.1:1234" fun _ => "refused").exec
      (initial "127.0.0.1:1234" (fun _ => "refused") {} "09:59:00") refused = some _ := rfl
  have valid : Config.validate {} {} = .ok () := rfl
  exact ⟨_, run, log_shows_results valid run (by decide), by decide⟩

end LoggedApplication

end Stalker2D.Client
