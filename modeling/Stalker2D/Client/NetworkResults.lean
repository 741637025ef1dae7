import Stalker2D.Client.NetworkCoroutines

/-!
# The results of the network component

A `NetworkSession` is the component between its users and its worker thread, with what has been
drained so far and the completed coroutines in the order of their completion handlers. The
results are the completions read one after the other: a request publishes one result, a
`connect` one only if it fails, a `disconnect` none. `Ends` has every way a coroutine can
end; the other throws of the sources are out of reach once `Config` has been validated.
-/

namespace Stalker2D.Client

open Protocol

/-- The two timeouts of `Config`, in ticks of its clock. -/
structure Timeouts where
  connectTimeout : Int := 5000000000
  requestTimeout : Int := 5000000000
  deriving DecidableEq, Repr

namespace Config

def validate (config : Config) (timeouts : Timeouts) : Except Exception Unit :=
  if config.maxMessageBytes = 0 then
    .error (.invalidArgument "Client maxMessageBytes must be greater than zero")
  else if config.maxQueuedMessages = 0 then
    .error (.invalidArgument "Client maxQueuedMessages must be greater than zero")
  else if config.maxPendingRequests = 0 then
    .error (.invalidArgument "Client maxPendingRequests must be greater than zero")
  else if timeouts.connectTimeout ≤ 0 then
    .error (.invalidArgument "Client connectTimeout must be greater than zero")
  else if timeouts.requestTimeout ≤ 0 then
    .error (.invalidArgument "Client requestTimeout must be greater than zero")
  else .ok ()

/-- A validated `Config` gives a connection what it asks for. -/
theorem validate_connection {config : Config} {timeouts : Timeouts}
    (valid : config.validate timeouts = .ok ()) :
    Network.Connection.validate ⟨config.maxMessageBytes, config.maxQueuedMessages⟩ = .ok () := by
  simp only [validate] at valid
  split at valid
  · cases valid
  next hbytes =>
    split at valid
    · cases valid
    next hqueued => simp only [Network.Connection.validate, hbytes, hqueued, if_false]

end Config

namespace NetworkComponent

/-- The constructor, with the clients that `Client::create` connects. -/
def create (config : Config) (timeouts : Timeouts) : Except Exception NetworkComponent := do
  config.validate timeouts
  return { manager := ConnectionManager.initial config }

theorem create_eq_ok {config : Config} {timeouts : Timeouts} {network : NetworkComponent} :
    create config timeouts = .ok network ↔ config.validate timeouts = .ok () ∧
      network = { manager := ConnectionManager.initial config } := by
  simp only [create]
  cases config.validate timeouts with
  | error e => exact ⟨nofun, nofun⟩
  | ok _ =>
    constructor
    · intro h
      exact ⟨rfl, (Except.ok.inj h).symm⟩
    · rintro ⟨-, rfl⟩
      rfl

end NetworkComponent

namespace ConnectionManager

variable {manager t : ConnectionManager} {phase : Phase} {attempt : Nat}

/-- How an attempt ends that got past the state check. -/
inductive AttemptEnds : Except Exception Unit → Prop
  | connected : AttemptEnds (.ok ())
  | cancelled :
      AttemptEnds (.error (.systemError .operationAborted "Connection attempt was cancelled"))
  | timedOut : AttemptEnds (.error (.runtimeError "Connection timed out"))
  | failed (code : ErrorCode) (other : code ≠ .operationAborted) :
      AttemptEnds (.error (.systemError code "Failed to connect to server"))

/-- `start` finds no connection and a valid configuration. -/
theorem InPhase.start_ok (inPhase : manager.InPhase (.connecting attempt))
    (valid : Network.Connection.validate ⟨manager.requests.config.maxMessageBytes,
      manager.requests.config.maxQueuedMessages⟩ = .ok ()) (socket : Nat) :
    (manager.requests.start socket true).1 = .ok () := by
  have hnone : manager.requests.connection = none := inPhase.attached.connection
  simp only [ClientRequestManager.start, hnone, Option.isSome_none, Bool.false_eq_true, if_false,
    valid]

theorem InPhase.attemptEnds (inPhase : manager.InPhase phase)
    (valid : Network.Connection.validate ⟨manager.requests.config.maxMessageBytes,
      manager.requests.config.maxQueuedMessages⟩ = .ok ())
    (hstep : step manager (.resumeConnect attempt) = some t) :
    ∃ result, t.EndedWith attempt result ∧ AttemptEnds result := by
  have flight := inFlight_of_resumes hstep
  have ended : ∀ {s : ConnectionManager} {result : Except Exception Unit},
      s.attempts = manager.attempts → (s.finish attempt result).EndedWith attempt result :=
    fun h => flight.endedWith_finish (finish_attempts h attempt _)
  have habandon : manager.abandon.attempts = manager.attempts := setState_attempts ..
  simp only [step] at hstep
  split at hstep
  next error hattempt =>
    rw [resumeConnect.eq_def] at hstep
    split at hstep
    · obtain rfl := Option.some.inj hstep
      exact ⟨_, ended habandon, .cancelled⟩
    next hstate =>
      cases error with
      | some code =>
        obtain rfl := Option.some.inj hstep
        refine ⟨_, ended habandon, ?_⟩
        split
        · exact .timedOut
        next hcode => exact .failed code hcode
      | none =>
        obtain ⟨socket, hsocket, rfl⟩ := Option.map_eq_some_iff.mp hstep
        obtain rfl | rfl := attempt_eq_some.mp ((inPhase.inFlight attempt).mp flight)
        · have hstart := inPhase.start_ok valid socket.attempt
          refine ⟨.ok (), ?_, .connected⟩
          simp only [ConnectionManager.startRequests]
          split
          next => exact ended (setState_attempts ..)
          next h =>
            rw [h] at hstart
            cases hstart
        · exact absurd inPhase.state hstate
  next => cases hstep

end ConnectionManager

namespace NetworkComponent

/-- How a coroutine can end. The response to a request is one that came with its id. -/
inductive Ends (requests : ClientRequestManager) :
    Call → Except Exception (Option NetworkResult) → Prop
  | connected : Ends requests .connect (.ok none)
  | notAllowed : Ends requests .connect
      (.error (.logicError "Connect is not allowed in current connection state"))
  | unconnected (e : Exception) (h : ConnectionManager.AttemptEnds (.error e)) :
      Ends requests .connect (.error e)
  | disconnected : Ends requests .disconnect (.ok none)
  | notConnected (request : ClientPayload) :
      Ends requests (.sendRequest request) (.error (.runtimeError "Client is not connected"))
  | tooMany (request : ClientPayload) :
      Ends requests (.sendRequest request)
        (.error (.runtimeError "Too many pending client requests"))
  | timedOut (request : ClientPayload) :
      Ends requests (.sendRequest request) (.error (.runtimeError "Request timed out"))
  | stopped (request : ClientPayload) :
      Ends requests (.sendRequest request) (.error (.runtimeError "client disconnected"))
  | lost (request : ClientPayload) :
      Ends requests (.sendRequest request)
        (.error (.runtimeError "Connection closed before response was received"))
  | answered (request : ClientPayload) (frame : Nat) (call : SendCall) (response : ServerMessage)
      (sent : requests.calls[frame]? = some call)
      (payload : call.message.payload = some request) (result : call.result = some (.ok response))
      (received : response ∈ requests.received)
      (id : response.requestId = call.message.requestId) :
      Ends requests (.sendRequest request)
        ((ClientRequestManager.responseOf request response).map some)

variable {requests later : ClientRequestManager} {call : Call}
variable {outcome : Except Exception (Option NetworkResult)}

theorem Immediate.ends {manager : ConnectionManager} (h : Immediate manager call outcome) :
    Ends requests call outcome := by
  cases h with
  | notAllowed => exact .notAllowed
  | disconnected => exact .disconnected
  | notConnected request => exact .notConnected request
  | tooMany request => exact .tooMany request

/-- The response a request has ended with was received under its id. -/
theorem ends_answered (wf : requests.WellFormed) {request : ClientPayload} {frame : Nat}
    {call : SendCall} {response : ServerMessage} (sent : requests.calls[frame]? = some call)
    (payload : call.message.payload = some request)
    (result : call.result = some (.ok response)) :
    Ends requests (.sendRequest request)
      ((ClientRequestManager.responseOf request response).map some) := by
  have consistent := wf.calls frame call sent
  obtain ⟨hresponse, -⟩ := consistent.finished response result
  obtain ⟨-, hid, j, -, hreceived, -⟩ := consistent.response response hresponse
  exact .answered request frame call response sent payload result
    (List.mem_of_getElem? hreceived) hid

/-- How a coroutine has ended stays so. -/
theorem Ends.step (ends : Ends requests call outcome) (wf : requests.WellFormed)
    {event : ClientRequestManager.Event}
    (hstep : ClientRequestManager.step requests event = some later) :
    Ends later call outcome := by
  cases ends with
  | connected => exact .connected
  | notAllowed => exact .notAllowed
  | unconnected e h => exact .unconnected e h
  | disconnected => exact .disconnected
  | notConnected request => exact .notConnected request
  | tooMany request => exact .tooMany request
  | timedOut request => exact .timedOut request
  | stopped request => exact .stopped request
  | lost request => exact .lost request
  | answered request frame call response sent payload result =>
    obtain ⟨next, hnext, follows⟩ := wf.follows_step hstep sent
    obtain rfl := follows.finished (by rw [result]; nofun)
    have after := ClientRequestManager.invariant_wellFormed _ _ _ wf hstep
    exact ends_answered after hnext payload result

section Resume

open ConnectionManager (Reached)

variable {manager t : ConnectionManager} {config : Config} {place : Nat}

theorem ends_resumeConnect (reached : manager.Reached config)
    (valid : Network.Connection.validate
      ⟨config.maxMessageBytes, config.maxQueuedMessages⟩ = .ok ())
    (hstep : ConnectionManager.step manager (.resumeConnect place) = some t)
    (houtcome : NetworkComponent.outcome t place .connect = some outcome) :
    Ends requests .connect outcome := by
  obtain ⟨phase, inPhase⟩ := reached.phase
  rw [← reached.bounded.limits] at valid
  obtain ⟨result, ⟨attempt, hattempt, hresult⟩, ends⟩ := inPhase.attemptEnds valid hstep
  simp only [NetworkComponent.outcome, hattempt, Option.bind_some, hresult, Option.map_some,
    Option.some.injEq] at houtcome
  subst houtcome
  cases result with
  | ok _ => exact .connected
  | error e => exact .unconnected e ends

/-- A resumed request finds its entry, and ends with what has been left there. -/
theorem ends_resumeRequest (reached : manager.Reached config)
    (few : t.requests.calls.length < UInt64.size) {request : ClientPayload}
    (isOpen : manager.Open place (.sendRequest request))
    (hstep : ConnectionManager.step manager (.request (.resume place)) = some t)
    (houtcome : NetworkComponent.outcome t place (.sendRequest request) = some outcome) :
    Ends t.requests (.sendRequest request) outcome := by
  have few' := Nat.lt_of_le_of_lt (ConnectionManager.calls_length_le hstep) few
  have after := (reached.step hstep).wellFormed
  obtain ⟨sentOn, tracked⟩ := reached.tracked
  obtain ⟨frame, hframe, hnone, hpayload⟩ := isOpen
  cases ConnectionManager.step_cases hstep with
  | request _ resumed _ hresumed =>
    cases ClientRequestManager.step_cases hresumed with
    | resume _ call error hcall _ htimer =>
      obtain rfl := Option.some.inj (hframe.symm.trans hcall)
      have hmapped := tracked.entered few' place frame hframe hnone
      have hreport : manager.requests.outcome place frame error = frame.pending.report error :=
        if_pos hmapped
      have hlater : (manager.requests.resumeSend place frame error).calls[place]? =
          some (frame.finish (frame.pending.report error) manager.requests.received.length) := by
        rw [ClientRequestManager.calls_resumeSend_eq, hreport, List.getElem?_modify, hframe]
        simp only [if_true, Option.map_eq_map, Option.map_some]
      simp only [NetworkComponent.outcome, hlater, Option.bind_some, SendCall.finish,
        Option.map_some, Option.some.injEq] at houtcome
      subst houtcome
      have exits := (tracked.wellFormed.calls place frame hframe).exits_report
        (tracked.cancelled place frame hframe) htimer
      generalize hresult : frame.pending.report error = result at exits hlater ⊢
      cases exits with
      | timedOut => exact .timedOut request
      | failed _ hfailed =>
        have htext := reached.fails place frame hframe hfailed
        rw [List.mem_pair] at htext
        obtain htext | htext := htext
        · rw [htext]
          exact .stopped request
        · rw [htext]
          exact .lost request
      | completed _ _ response => exact ends_answered after hlater hpayload rfl

/-- A coroutine that is resumed ends in one of the ways. -/
theorem ends_resume (reached : manager.Reached config)
    (valid : Network.Connection.validate
      ⟨config.maxMessageBytes, config.maxQueuedMessages⟩ = .ok ())
    (few : t.requests.calls.length < UInt64.size) (isOpen : manager.Open place call)
    (hstep : ConnectionManager.step manager (resumption place call) = some t)
    (houtcome : NetworkComponent.outcome t place call = some outcome) :
    Ends t.requests call outcome := by
  cases call with
  | connect => exact ends_resumeConnect reached valid hstep houtcome
  | disconnect =>
    obtain rfl := Option.some.inj houtcome
    exact .disconnected
  | sendRequest request => exact ends_resumeRequest reached few isOpen hstep houtcome

end Resume

end NetworkComponent

def NetworkResult.operation : NetworkResult → NetworkOperation
  | .pong _ => .ping
  | .stateSnapshot _ => .stateSnapshot
  | .error operation _ => operation

/-- The completion handler of a coroutine, and the arguments it was called with. -/
structure Completion where
  coroutine : Nat
  call : Call
  outcome : Except Exception (Option NetworkResult)
  deriving DecidableEq

namespace Completion

/-- What the handler publishes. -/
def results (completion : Completion) : List NetworkResult :=
  match completion.outcome with
  | .error e => [.error completion.call.operation e]
  | .ok (some response) => [response]
  | .ok none => []

end Completion

structure NetworkSession where
  network : NetworkComponent
  drained : List NetworkResult := []
  completions : List Completion := []

namespace NetworkSession

open NetworkComponent (Ends)

inductive Event
  | spawn (call : Call)
  | drain
  | worker (event : NetworkComponent.Event)
  deriving DecidableEq, Repr

/-- The completion handler that a step of the worker thread runs. -/
def completes (network : NetworkComponent) : NetworkComponent.Event → List Completion
  | .complete coroutine =>
    match network.coroutines[coroutine]? with
    | some { call, progress := .ended outcome } => [{ coroutine, call, outcome }]
    | _ => []
  | _ => []

def step : Machine NetworkSession Event
  | session, .spawn call => some { session with network := session.network.spawn call }
  | session, .drain =>
    let (results, network) := session.network.drainResults
    some { session with network, drained := session.drained ++ results }
  | session, .worker event =>
    (NetworkComponent.step session.network event).map fun network =>
      { session with
        network
        completions := session.completions ++ completes session.network event }

/-- What the users have spawned, in order. -/
def spawned (es : List Event) : List Call :=
  es.filterMap fun
    | .spawn call => some call
    | _ => none

/-- The completed coroutines are those that are on record, once each. -/
structure Logged (coroutines : List Coroutine) (completions : List Completion) : Prop where
  once : (completions.map Completion.coroutine).Nodup
  completed : ∀ completion ∈ completions, coroutines[completion.coroutine]? =
    some { call := completion.call, progress := .completed }
  recorded : ∀ (coroutine : Nat) call,
    coroutines[coroutine]? = some { call, progress := .completed } →
    coroutine ∈ completions.map Completion.coroutine

section Logged

variable {coroutines : List Coroutine} {completions : List Completion} {coroutine : Nat}
variable {old : Coroutine}

theorem Logged.spawn (logged : Logged coroutines completions) (call : Call) :
    Logged (coroutines ++ [({ call } : Coroutine)]) completions where
  once := logged.once
  completed completion hmem := by
    have h := logged.completed completion hmem
    rw [List.getElem?_append_left (List.getElem?_eq_some_iff.mp h).1, h]
  recorded coroutine call' h := by
    obtain hold | ⟨-, hnew⟩ := getElem?_concat_cases h
    · exact logged.recorded coroutine call' hold
    · cases hnew

/-- A coroutine that has not completed is not on record. -/
theorem Logged.notMem (logged : Logged coroutines completions)
    (hold : coroutines[coroutine]? = some old) (unfinished : old.progress ≠ .completed) :
    coroutine ∉ completions.map Completion.coroutine := by
  intro hmem
  obtain ⟨completion, hcompletion, rfl⟩ := List.mem_map.mp hmem
  have h := logged.completed completion hcompletion
  obtain rfl := Option.some.inj (hold.symm.trans h)
  exact unfinished rfl

/-- A coroutine gets on, and the completions so far stay. -/
theorem Logged.completed_modify (logged : Logged coroutines completions)
    (hold : coroutines[coroutine]? = some old) (unfinished : old.progress ≠ .completed)
    (progress : Progress) {completion : Completion} (hmem : completion ∈ completions) :
    (coroutines.modify coroutine ({ · with progress }))[completion.coroutine]? =
      some { call := completion.call, progress := .completed } := by
  have hne : coroutine ≠ completion.coroutine := by
    rintro rfl
    exact logged.notMem hold unfinished (List.mem_map_of_mem hmem)
  rw [List.getElem?_modify, logged.completed completion hmem]
  simp [hne]

theorem Logged.proceed (logged : Logged coroutines completions)
    (hold : coroutines[coroutine]? = some old) (unfinished : old.progress ≠ .completed)
    {progress : Progress} (hprogress : progress ≠ .completed) :
    Logged (coroutines.modify coroutine ({ · with progress })) completions where
  once := logged.once
  completed _ hmem := logged.completed_modify hold unfinished progress hmem
  recorded other call h := by
    rw [List.getElem?_modify] at h
    obtain ⟨before, hbefore, hafter⟩ := Option.map_eq_some_iff.mp h
    split at hafter
    · exact absurd (congrArg Coroutine.progress hafter) hprogress
    · exact logged.recorded other call (hafter ▸ hbefore)

theorem Logged.complete (logged : Logged coroutines completions) {call : Call}
    {outcome : Except Exception (Option NetworkResult)}
    (hold : coroutines[coroutine]? = some { call, progress := .ended outcome }) :
    Logged (coroutines.modify coroutine ({ · with progress := .completed }))
      (completions ++ [({ coroutine, call, outcome } : Completion)]) where
  once := by
    have hfresh := logged.notMem hold nofun
    rw [List.map_append, List.map_singleton]
    refine List.nodup_append.mpr ⟨logged.once, List.pairwise_singleton _ _, ?_⟩
    rintro a ha b hb rfl
    obtain rfl := List.mem_singleton.mp hb
    exact hfresh ha
  completed completion hmem := by
    rw [List.mem_append, List.mem_singleton] at hmem
    obtain hmem | rfl := hmem
    · exact logged.completed_modify hold nofun .completed hmem
    · rw [List.getElem?_modify, hold]
      simp
  recorded other call' h := by
    rw [List.map_append, List.mem_append]
    rw [List.getElem?_modify] at h
    obtain ⟨before, hbefore, hafter⟩ := Option.map_eq_some_iff.mp h
    split at hafter
    next heq => exact .inr (List.mem_singleton.mpr heq.symm)
    next => exact .inl (logged.recorded other call' (hafter ▸ hbefore))

end Logged

/-- What every step of a session keeps. -/
structure Kept (config : Config) (session : NetworkSession) : Prop where
  reached : session.network.manager.Reached config
  owned : session.network.Owned
  logged : Logged session.network.coroutines session.completions
  inOrder : session.drained ++ session.network.results =
    session.completions.flatMap Completion.results
  ended : ∀ (coroutine : Nat) call outcome,
    session.network.coroutines[coroutine]? = some { call, progress := .ended outcome } →
    Ends session.network.manager.requests call outcome
  ends : ∀ completion ∈ session.completions,
    Ends session.network.manager.requests completion.call completion.outcome

theorem kept_initial (config : Config) :
    Kept config { network := { manager := ConnectionManager.initial config } } where
  reached := ConnectionManager.reached_initial config
  owned := NetworkComponent.owned_initial _
  logged :=
    { once := List.nodup_nil
      completed := fun _ h => nomatch h
      recorded := fun _ _ h => by simp at h }
  inOrder := rfl
  ended _ _ _ h := by simp at h
  ends _ h := nomatch h

variable {config : Config} {session t : NetworkSession} {e : Event}

theorem Kept.spawn (kept : session.Kept config) (call : Call) :
    Kept config { session with network := session.network.spawn call } where
  reached := kept.reached
  owned := kept.owned.spawn call
  logged := kept.logged.spawn call
  inOrder := kept.inOrder
  ended coroutine call' outcome h := by
    obtain hold | ⟨-, hnew⟩ := getElem?_concat_cases h
    · exact kept.ended coroutine call' outcome hold
    · cases hnew
  ends := kept.ends

theorem Kept.drain (kept : session.Kept config) :
    Kept config
      { session with
        network := session.network.drainResults.2
        drained := session.drained ++ session.network.drainResults.1 } where
  reached := kept.reached
  owned := kept.owned.congr rfl rfl
  logged := kept.logged
  inOrder := by
    rw [← kept.inOrder]
    simp only [NetworkComponent.drainResults, List.append_nil]
  ended := kept.ended
  ends := kept.ends

/-- How a coroutine has ended stays so under the steps of the manager. -/
theorem ends_manager {manager manager' : ConnectionManager} (reached : manager.Reached config)
    {event : ConnectionManager.Event} (hstep : ConnectionManager.step manager event = some manager')
    {call : Call} {outcome : Except Exception (Option NetworkResult)}
    (ends : Ends manager.requests call outcome) : Ends manager'.requests call outcome := by
  obtain hsame | ⟨request, hrequest, -⟩ := ConnectionManager.requests_step hstep
  · rwa [hsame]
  · exact ends.step reached.wellFormed hrequest

/-- A coroutine gets on without completing, while the manager makes a step or none. -/
theorem Kept.proceed (kept : session.Kept config) {coroutine : Nat} {old : Coroutine}
    (hold : session.network.coroutines[coroutine]? = some old)
    (unfinished : old.progress ≠ .completed) (progress : Progress)
    (hprogress : progress ≠ .completed) {manager : ConnectionManager}
    (reached : manager.Reached config)
    (stays : ∀ call outcome, Ends session.network.manager.requests call outcome →
      Ends manager.requests call outcome)
    (owned : ({ session.network with manager }.proceed coroutine progress).Owned)
    (ends : ∀ outcome, progress = .ended outcome → Ends manager.requests old.call outcome) :
    Kept config
      { session with network := { session.network with manager }.proceed coroutine progress } where
  reached := reached
  owned := owned
  logged := kept.logged.proceed hold unfinished hprogress
  inOrder := kept.inOrder
  ended other call outcome h := by
    rw [NetworkComponent.coroutines_proceed] at h
    split at h
    next heq =>
      subst heq
      rw [hold] at h
      obtain ⟨rfl, hended⟩ := Coroutine.mk.inj (Option.some.inj h)
      exact ends outcome hended
    next => exact stays call outcome (kept.ended other call outcome h)
  ends completion hmem := stays _ _ (kept.ends completion hmem)

theorem results_handle (network : NetworkComponent) (coroutine : Nat) (call : Call)
    (outcome : Except Exception (Option NetworkResult)) :
    (network.handle call.operation outcome).results =
      network.results ++ ({ coroutine, call, outcome } : Completion).results := by
  cases outcome with
  | error e => rfl
  | ok response =>
    cases response with
    | none => exact (List.append_nil _).symm
    | some result => rfl

theorem Kept.complete (kept : session.Kept config) {coroutine : Nat} {call : Call}
    {outcome : Except Exception (Option NetworkResult)}
    (hold : session.network.coroutines[coroutine]? = some { call, progress := .ended outcome })
    (owned : ((session.network.proceed coroutine .completed).handle call.operation outcome).Owned) :
    Kept config
      { session with
        network := (session.network.proceed coroutine .completed).handle call.operation outcome
        completions := session.completions ++ [{ coroutine, call, outcome }] } := by
  obtain ⟨hmanager, hcoroutines⟩ := NetworkComponent.handle_frame
    (session.network.proceed coroutine .completed) call.operation outcome
  constructor
  case reached => exact hmanager ▸ kept.reached
  case owned => exact owned
  case logged =>
    rw [hcoroutines]
    exact kept.logged.complete hold
  case inOrder =>
    rw [results_handle _ coroutine, ← List.append_assoc, List.flatMap_append,
      List.flatMap_singleton, ← kept.inOrder]
    rfl
  case ended =>
    intro other call' outcome' h
    rw [hcoroutines, NetworkComponent.coroutines_proceed] at h
    rw [hmanager]
    split at h
    next =>
      obtain ⟨before, -, hafter⟩ := Option.map_eq_some_iff.mp h
      cases congrArg Coroutine.progress hafter
    next => exact kept.ended other call' outcome' h
  case ends =>
    intro completion hmem
    rw [hmanager]
    rw [List.mem_append, List.mem_singleton] at hmem
    obtain hmem | rfl := hmem
    · exact kept.ends completion hmem
    · exact kept.ended coroutine call outcome hold

theorem Kept.worker (kept : session.Kept config)
    (valid : Network.Connection.validate
      ⟨config.maxMessageBytes, config.maxQueuedMessages⟩ = .ok ())
    {event : NetworkComponent.Event} {network : NetworkComponent}
    (few : network.manager.requests.calls.length < UInt64.size)
    (hstep : NetworkComponent.step session.network event = some network) :
    Kept config
      { session with
        network
        completions := session.completions ++ completes session.network event } := by
  have owned := NetworkComponent.owned_step kept.owned hstep
  cases NetworkComponent.step_cases hstep with
  | suspends coroutine call manager hcoroutine hbegins =>
    have hnone : completes session.network (.run coroutine) = [] := rfl
    rw [hnone, List.append_nil]
    exact kept.proceed hcoroutine nofun (.suspended _) nofun (kept.reached.step hbegins)
      (fun _ _ => ends_manager kept.reached hbegins) owned nofun
  | returns coroutine call outcome hcoroutine immediate =>
    have hnone : completes session.network (.run coroutine) = [] := rfl
    rw [hnone, List.append_nil]
    refine kept.proceed hcoroutine nofun (.ended outcome) nofun kept.reached (fun _ _ => id)
      owned ?_
    rintro outcome' h
    obtain rfl := Progress.ended.inj h
    exact immediate.ends
  | resume coroutine call place manager result hcoroutine hresumes hresult =>
    have hnone : completes session.network (.resume coroutine) = [] := rfl
    rw [hnone, List.append_nil]
    refine kept.proceed hcoroutine nofun (.ended result) nofun (kept.reached.step hresumes)
      (fun _ _ => ends_manager kept.reached hresumes) owned ?_
    rintro outcome' h
    obtain rfl := Progress.ended.inj h
    exact NetworkComponent.ends_resume kept.reached valid few
      (kept.owned.isOpen coroutine call place hcoroutine) hresumes hresult
  | complete coroutine call outcome hcoroutine =>
    have hcompletes : completes session.network (.complete coroutine) =
        [{ coroutine, call, outcome }] := by
      simp only [completes, hcoroutine]
    rw [hcompletes]
    exact kept.complete hcoroutine owned
  | background event manager _ hmanager =>
    have hnone : completes session.network (.background event) = [] := rfl
    rw [hnone, List.append_nil]
    exact
      { reached := kept.reached.step hmanager
        owned := owned
        logged := kept.logged
        inOrder := kept.inOrder
        ended := fun coroutine call outcome h =>
          ends_manager kept.reached hmanager (kept.ended coroutine call outcome h)
        ends := fun completion hmem =>
          ends_manager kept.reached hmanager (kept.ends completion hmem) }

theorem few_step (hstep : step session e = some t) :
    session.network.manager.requests.calls.length ≤ t.network.manager.requests.calls.length := by
  cases e with
  | spawn call =>
    obtain rfl := Option.some.inj hstep
    exact Nat.le_refl _
  | drain =>
    obtain rfl := Option.some.inj hstep
    exact Nat.le_refl _
  | worker event =>
    obtain ⟨network, hnetwork, rfl⟩ := Option.map_eq_some_iff.mp hstep
    obtain hsame | ⟨manager, hmanager⟩ := NetworkComponent.manager_step hnetwork
    · exact Nat.le_of_eq (by rw [hsame])
    · exact ConnectionManager.calls_length_le hmanager

theorem kept_exec
    (valid : Network.Connection.validate
      ⟨config.maxMessageBytes, config.maxQueuedMessages⟩ = .ok ())
    {es : List Event} (run : Machine.exec step
      { network := { manager := ConnectionManager.initial config } } es = some session)
    (few : session.network.manager.requests.calls.length < UInt64.size) :
    session.Kept config := by
  revert few
  refine Machine.exec_induction (motive := fun _ session =>
    session.network.manager.requests.calls.length < UInt64.size → session.Kept config)
    (fun _ => kept_initial config) ?_ run
  intro es session e t _ ih hstep few
  have kept := ih (Nat.lt_of_le_of_lt (few_step hstep) few)
  cases e with
  | spawn call =>
    obtain rfl := Option.some.inj hstep
    exact kept.spawn call
  | drain =>
    obtain rfl := Option.some.inj hstep
    exact kept.drain
  | worker event =>
    obtain ⟨network, hnetwork, rfl⟩ := Option.map_eq_some_iff.mp hstep
    exact kept.worker valid few hnetwork

theorem calls_proceed (network : NetworkComponent) (coroutine : Nat) (progress : Progress) :
    (network.proceed coroutine progress).coroutines.map Coroutine.call =
      network.coroutines.map Coroutine.call := by
  apply List.ext_getElem?
  intro other
  rw [List.getElem?_map, NetworkComponent.coroutines_proceed, List.getElem?_map]
  split
  · rw [Option.map_map]
    rfl
  · rfl

/-- The worker thread neither makes nor loses a coroutine. -/
theorem calls_step (hstep : step session e = some t) :
    t.network.coroutines.map Coroutine.call =
      session.network.coroutines.map Coroutine.call ++ spawned [e] := by
  cases e with
  | spawn call =>
    obtain rfl := Option.some.inj hstep
    exact List.map_append
  | drain =>
    obtain rfl := Option.some.inj hstep
    exact (List.append_nil _).symm
  | worker event =>
    obtain ⟨network, hnetwork, rfl⟩ := Option.map_eq_some_iff.mp hstep
    refine Eq.trans ?_ (List.append_nil _).symm
    cases NetworkComponent.step_cases hnetwork with
    | suspends | returns | resume => exact calls_proceed ..
    | complete coroutine call outcome =>
      rw [(NetworkComponent.handle_frame _ _ _).2]
      exact calls_proceed ..
    | background => rfl

theorem calls_exec {network : NetworkComponent} (hnone : network.coroutines = [])
    {es : List Event} (run : Machine.exec step { network } es = some session) :
    session.network.coroutines.map Coroutine.call = spawned es := by
  refine Machine.exec_induction (motive := fun es session =>
    session.network.coroutines.map Coroutine.call = spawned es) ?_ ?_ run
  · rw [hnone]
    rfl
  · intro es session e t _ ih hstep
    rw [calls_step hstep, ih]
    exact List.filterMap_append.symm

/-- What a request is answered with is of its own kind. -/
theorem operation_responseOf {request : ClientPayload} {response : ServerMessage}
    {result : NetworkResult}
    (h : ClientRequestManager.responseOf request response = .ok result) :
    result.operation = (Call.sendRequest request).operation := by
  rw [ClientRequestManager.responseOf.eq_def] at h
  split at h
  · split at h <;> cases h
  · split at h <;> cases h <;> rfl

/-- How many results a completion handler publishes, and of which operation. -/
theorem published {requests : ClientRequestManager} (completion : Completion)
    (ends : Ends requests completion.call completion.outcome) :
    (∀ result ∈ completion.results, result.operation = completion.call.operation) ∧
      match completion.call with
      | .connect => completion.results.length ≤ 1
      | .disconnect => completion.results = []
      | .sendRequest _ => completion.results.length = 1 := by
  obtain ⟨coroutine, call, outcome⟩ := completion
  have failed : ∀ (call : Call) (e : Exception), ∀ result ∈
      ({ coroutine, call, outcome := .error e } : Completion).results,
      result.operation = call.operation := by
    intro call e result hmem
    obtain rfl := List.mem_singleton.mp hmem
    rfl
  cases ends with
  | connected | disconnected => exact ⟨nofun, by simp [Completion.results]⟩
  | notAllowed | unconnected => exact ⟨failed .connect _, Nat.le_refl 1⟩
  | notConnected request | tooMany request | timedOut request | stopped request | lost request =>
    exact ⟨failed (.sendRequest request) _, rfl⟩
  | answered request frame call response =>
    cases hresult : ClientRequestManager.responseOf request response with
    | error e => exact ⟨failed (.sendRequest request) e, rfl⟩
    | ok result =>
      refine ⟨fun other hmem => ?_, rfl⟩
      obtain rfl := List.mem_singleton.mp hmem
      exact operation_responseOf hresult

/-- What the users of a component get for what they spawned. -/
structure Delivered (es : List Event) (session : NetworkSession) : Prop where
  spawned : session.network.coroutines.map Coroutine.call = spawned es
  logged : Logged session.network.coroutines session.completions
  /-- What has been drained and what is still there are the results of the completion
  handlers in the order of the completions: none is lost, doubled or overtaken. -/
  inOrder : session.drained ++ session.network.results =
    session.completions.flatMap Completion.results
  ends : ∀ completion ∈ session.completions,
    Ends session.network.manager.requests completion.call completion.outcome
  operation : ∀ completion ∈ session.completions, ∀ result ∈ completion.results,
    result.operation = completion.call.operation
  published : ∀ completion ∈ session.completions,
    match completion.call with
    | .connect => completion.results.length ≤ 1
    | .disconnect => completion.results = []
    | .sendRequest _ => completion.results.length = 1

/-- The results drained so far and those still queued are what the completed coroutines published,
in the order of their completion: one for each request, at most one for a `connect`, none for a
`disconnect`. This holds for every component that could be created, below `2 ^ 64` requests. -/
theorem results_in_completion_order {timeouts : Timeouts} {network : NetworkComponent}
    (created : NetworkComponent.create config timeouts = .ok network) {es : List Event}
    (run : Machine.exec step { network } es = some session)
    (few : session.network.manager.requests.calls.length < UInt64.size) :
    Delivered es session := by
  obtain ⟨valid, rfl⟩ := NetworkComponent.create_eq_ok.mp created
  have kept := kept_exec (Config.validate_connection valid) run few
  exact
    { spawned := calls_exec rfl run
      logged := kept.logged
      inOrder := kept.inOrder
      ends := kept.ends
      operation := fun completion hmem => (published completion (kept.ends completion hmem)).1
      published := fun completion hmem => (published completion (kept.ends completion hmem)).2 }

/-- A snapshot overtakes a ping, and a second `connect` is not allowed. -/
def overtaking : List Event :=
  [.spawn .connect, .worker (.run 0), .worker (.background (.connectCompletes 0 none)),
    .worker (.resume 0), .worker (.complete 0), .spawn (.sendRequest (.ping {})),
    .spawn (.sendRequest .stateSnapshot), .spawn .connect, .worker (.run 1), .worker (.run 2),
    .worker (.background (.request (.receive
      { requestId := 2, status := .ok, payload := some (.stateSnapshot {}) }))),
    .worker (.background (.request (.receive
      { requestId := 1, status := .ok, payload := some (.pong {}) }))),
    .worker (.resume 2), .worker (.complete 2), .drain, .worker (.run 3), .worker (.complete 3),
    .worker (.resume 1), .worker (.complete 1)]

theorem results_in_completion_order_overtaking :
    ∃ network session, NetworkComponent.create {} {} = .ok network ∧
      Machine.exec step { network } overtaking = some session ∧ Delivered overtaking session ∧
      session.drained = [.stateSnapshot {}] ∧
      session.network.results = [.error .connect (.logicError
        "Connect is not allowed in current connection state"), .pong {}] := by
  have created : NetworkComponent.create {} {} = .ok _ := rfl
  have run : Machine.exec step { network := { manager := ConnectionManager.initial {} } }
      overtaking = some _ := rfl
  exact ⟨_, _, created, run, results_in_completion_order created run (by decide), rfl, rfl⟩

end NetworkSession

end Stalker2D.Client
