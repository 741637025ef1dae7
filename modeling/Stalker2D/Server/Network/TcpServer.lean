import Stalker2D.Server.Network.Identity

/-!
# The accept loop

`TcpServer` over the connection manager. The coroutine `start` suspends only in
`async_accept`; the event that completes it carries the error code, or none for a
socket. It may complete after `stop` as it likes, with a socket that was accepted
before included. Between two completions the server serves its connections.

`create` throws when the connection counter wraps, and nothing in `start` catches:
that is the one way out of the loop without a `stop`. The counter counts sockets
that were ever accepted, so the loop ends with the 65536th, however few connections
are left.
-/

namespace Stalker2D.Network

/-- Where the coroutine `start` is. -/
inductive AcceptLoop
  | absent
  | accepting
  | left
  | escaped (exception : Exception)
  deriving DecidableEq, Repr

structure TcpServer where
  server : Server := {}
  maxMessageBytes : UInt32
  stopped : Bool := false
  loop : AcceptLoop := .absent

namespace TcpServer

/-- The error branch of the loop. -/
def acceptFails (tcp : TcpServer) (ec : ErrorCode) : TcpServer :=
  if tcp.stopped ∧ (ec = .operationAborted ∨ ec = .badDescriptor) then { tcp with loop := .left }
  else if tcp.stopped then { tcp with loop := .left }
  else tcp

/-- The rest of the loop body: `create`, then `start` of the new connection. -/
def acceptSucceeds (tcp : TcpServer) : TcpServer :=
  let server := (tcp.server.accept tcp.maxMessageBytes).2
  match (tcp.server.manager.create tcp.server.connections.length tcp.maxMessageBytes).1 with
  | .error e => { tcp with server, loop := .escaped e }
  | .ok none => { tcp with server, loop := .left }
  | .ok (some _) => { tcp with server }

def stop (tcp : TcpServer) : TcpServer :=
  if tcp.stopped then tcp
  else { tcp with stopped := true, server := tcp.server.stopAll }

inductive Event
  | start
  | acceptCompletes (ec : Option ErrorCode)
  | stop
  | server (event : Server.Event)
  deriving DecidableEq, Repr

/-- What happens to the connections without the accept loop and without `stop`. -/
def traffic : Server.Event → Bool
  | .accept _ | .stopAll => false
  | .deliver _ _ | .connection _ _ => true

def step (native : Endian) (serialize : Protocol.ServerMessage → Option (List UInt8)) :
    Machine TcpServer Event
  | tcp, .start => if tcp.loop = .absent then some { tcp with loop := .accepting } else none
  | tcp, .acceptCompletes ec =>
    if tcp.loop = .accepting then
      some (match ec with
        | some ec => tcp.acceptFails ec
        | none => tcp.acceptSucceeds)
    else none
  | tcp, .stop => some tcp.stop
  | tcp, .server event =>
    if traffic event then
      (Server.step native serialize tcp.server event).map fun server => { tcp with server }
    else none

/-- The loop is left after `stop` only, and touches no connection after it. -/
def Survives (tcp : TcpServer) (e : Event) (next : TcpServer) : Prop :=
  (tcp.loop = .accepting → next.loop ≠ .accepting → tcp.stopped = true) ∧
    (tcp.stopped = true → ∀ ec, e = .acceptCompletes ec → next.server = tcp.server)

/-- How many sockets are accepted before the first `stop`. -/
def acceptedBeforeStop : List Event → Nat
  | [] => 0
  | .stop :: _ => 0
  | .acceptCompletes none :: es => acceptedBeforeStop es + 1
  | _ :: es => acceptedBeforeStop es

variable {native : Endian} {serialize : Protocol.ServerMessage → Option (List UInt8)}
variable {tcp next : TcpServer} {e : Event}

/-- What the loop depends on: the manager stops with the server, and messages of zero
bytes are not configured. -/
structure Ready (tcp : TcpServer) : Prop where
  limit : tcp.maxMessageBytes ≠ 0
  stopped : tcp.server.manager.stopped = tcp.stopped

/-- Traffic does not reach the counter. -/
theorem manager_of_traffic {server t : Server} {event : Server.Event} (h : traffic event = true)
    (hstep : Server.step native serialize server event = some t) :
    t.manager.stopped = server.manager.stopped ∧
      t.manager.nextConnectionId = server.manager.nextConnectionId := by
  cases Server.effect_step hstep with
  | unchanged _ _ _ manager => exact ⟨by rw [manager], by rw [manager]⟩
  | refused => simp [traffic] at h
  | created => simp [traffic] at h
  | served _ _ _ _ _ _ _ _ manager => exact ⟨by rw [manager], by rw [manager]⟩
  | closed _ _ a _ _ _ _ manager =>
    rw [manager, ServerConnectionManager.remove]
    split <;> exact ⟨rfl, rfl⟩
  | stopped => simp [traffic] at h

/-- A socket that arrives before `stop` is served, or the counter wraps and `create`
throws through the loop. -/
theorem acceptSucceeds_running (ready : tcp.Ready) (running : tcp.stopped = false) :
    (tcp.server.nextId.id = 0 ∧ ∃ exception, tcp.acceptSucceeds.loop = .escaped exception) ∨
      (tcp.server.nextId.id ≠ 0 ∧ tcp.acceptSucceeds.loop = tcp.loop ∧
        tcp.acceptSucceeds.stopped = false ∧ tcp.acceptSucceeds.Ready ∧
        tcp.acceptSucceeds.server.manager.nextConnectionId = tcp.server.nextId) := by
  have hrunning : tcp.server.manager.stopped = false := ready.stopped.trans running
  simp only [acceptSucceeds, Server.accept]
  obtain ⟨hstopped, -⟩ | ⟨hinvalid, error, h⟩ | ⟨-, hzero, -, connection, -, h⟩ :=
    Server.create_cases tcp.server.manager tcp.server.connections.length tcp.maxMessageBytes
  · simp [hrunning] at hstopped
  · refine .inl ⟨hinvalid.resolve_right ready.limit, error, ?_⟩
    rw [h]
  · rw [h]
    exact .inr ⟨hzero, rfl, running, ⟨ready.limit, ready.stopped⟩, rfl⟩

/-- A socket that arrives after `stop` is dropped. -/
theorem acceptSucceeds_stopped (ready : tcp.Ready) (stopped : tcp.stopped = true) :
    tcp.acceptSucceeds = { tcp with loop := .left } := by
  have hstopped : tcp.server.manager.stopped = true := ready.stopped.trans stopped
  simp [acceptSucceeds, Server.accept, ServerConnectionManager.create, hstopped]

theorem Ready.stop (ready : tcp.Ready) : tcp.stop.Ready ∧ tcp.stop.stopped = true ∧
    tcp.stop.loop = tcp.loop := by
  simp only [TcpServer.stop]
  split
  next h => exact ⟨ready, h, rfl⟩
  next h =>
    refine ⟨⟨ready.limit, ?_⟩, rfl, rfl⟩
    show tcp.server.stopAll.manager.stopped = true
    rw [Server.stopAll_manager]
    split
    next hstopped => exact hstopped
    next => rfl

/-- Once stopped, always stopped, and the loop leaves everything alone. -/
theorem survives_stopped (ready : tcp.Ready) (stopped : tcp.stopped = true)
    (hstep : step native serialize tcp e = some next) :
    Survives tcp e next ∧ next.Ready ∧ next.stopped = true := by
  cases e with
  | start =>
    simp only [step, Option.ite_none_right_eq_some, Option.some.injEq] at hstep
    obtain ⟨-, rfl⟩ := hstep
    exact ⟨⟨fun _ _ => stopped, fun _ _ _ => rfl⟩, ⟨ready.limit, ready.stopped⟩, stopped⟩
  | acceptCompletes ec =>
    simp only [step, Option.ite_none_right_eq_some, Option.some.injEq] at hstep
    obtain ⟨-, rfl⟩ := hstep
    cases ec with
    | none =>
      simp only [acceptSucceeds_stopped ready stopped]
      exact ⟨⟨fun _ _ => stopped, fun _ _ _ => rfl⟩, ⟨ready.limit, ready.stopped⟩, stopped⟩
    | some ec =>
      have hleft : tcp.acceptFails ec = { tcp with loop := .left } := by
        simp [acceptFails, stopped]
      simp only [hleft]
      exact ⟨⟨fun _ _ => stopped, fun _ _ _ => rfl⟩, ⟨ready.limit, ready.stopped⟩, stopped⟩
  | stop =>
    obtain rfl := Option.some.inj hstep
    have hsame : tcp.stop = tcp := by rw [TcpServer.stop, if_pos stopped]
    rw [hsame]
    exact ⟨⟨fun _ _ => stopped, fun _ _ _ => rfl⟩, ready, stopped⟩
  | server event =>
    simp only [step, Option.ite_none_right_eq_some, Option.map_eq_some_iff] at hstep
    obtain ⟨htraffic, server, hserver, rfl⟩ := hstep
    refine ⟨⟨fun _ _ => stopped, fun _ ec h => ?_⟩, ⟨ready.limit, ?_⟩, stopped⟩
    · cases h
    · rw [(manager_of_traffic htraffic hserver).1, ready.stopped]

theorem along_stopped (ready : tcp.Ready) (stopped : tcp.stopped = true) (es : List Event) :
    (step native serialize).Along Survives tcp es := by
  have keep : (step native serialize).Invariant fun tcp => tcp.Ready ∧ tcp.stopped = true :=
    fun _ _ _ h hstep => (survives_stopped h.1 h.2 hstep).2
  exact keep.along (fun _ _ _ h hstep => (survives_stopped h.1 h.2 hstep).1) ⟨ready, stopped⟩ es

/-- Before `stop` the loop survives an event unless it is the socket that wraps the counter. -/
theorem survives_running (ready : tcp.Ready) (running : tcp.stopped = false) (hstop : e ≠ .stop)
    (haccept : e ≠ .acceptCompletes none) (hstep : step native serialize tcp e = some next) :
    Survives tcp e next ∧ next.Ready ∧ next.stopped = false ∧
      next.server.manager.nextConnectionId = tcp.server.manager.nextConnectionId := by
  have hfalse : tcp.stopped ≠ true := by simp [running]
  cases e with
  | start =>
    simp only [step, Option.ite_none_right_eq_some, Option.some.injEq] at hstep
    obtain ⟨-, rfl⟩ := hstep
    exact ⟨⟨fun _ h => absurd rfl h, fun h => absurd h hfalse⟩, ⟨ready.limit, ready.stopped⟩,
      running, rfl⟩
  | acceptCompletes ec =>
    cases ec with
    | none => exact absurd rfl haccept
    | some ec =>
      simp only [step, Option.ite_none_right_eq_some, Option.some.injEq] at hstep
      obtain ⟨-, rfl⟩ := hstep
      have hsame : tcp.acceptFails ec = tcp := by simp [acceptFails, running]
      rw [hsame]
      exact ⟨⟨fun h hne => absurd h hne, fun h => absurd h hfalse⟩, ready, running, rfl⟩
  | stop => exact absurd rfl hstop
  | server event =>
    simp only [step, Option.ite_none_right_eq_some, Option.map_eq_some_iff] at hstep
    obtain ⟨htraffic, server, hserver, rfl⟩ := hstep
    obtain ⟨hstopped, hnext⟩ := manager_of_traffic htraffic hserver
    exact ⟨⟨fun h hne => absurd h hne, fun h => absurd h hfalse⟩,
      ⟨ready.limit, hstopped.trans ready.stopped⟩, running, hnext⟩

theorem acceptedBeforeStop_cons_other {es : List Event} (hstop : e ≠ .stop)
    (haccept : e ≠ .acceptCompletes none) :
    acceptedBeforeStop (e :: es) = acceptedBeforeStop es := by
  cases e with
  | start => rfl
  | acceptCompletes ec =>
    cases ec with
    | none => exact absurd rfl haccept
    | some ec => rfl
  | stop => exact absurd rfl hstop
  | server event => rfl

/-- From a running server the loop survives exactly as long as the counter has room for
the sockets that come before `stop`. -/
theorem survives_iff (ready : tcp.Ready) (running : tcp.stopped = false)
    {es : List Event} (run : (step native serialize).exec tcp es = some next) :
    (step native serialize).Along Survives tcp es ↔
      tcp.server.manager.nextConnectionId.id.toNat + acceptedBeforeStop es < 65536 := by
  induction es generalizing tcp with
  | nil =>
    have := tcp.server.manager.nextConnectionId.id.toNat_lt
    simp only [Machine.along_nil, acceptedBeforeStop, true_iff]
    omega
  | cons e es ih =>
    obtain ⟨u, hstep, hrest⟩ := Machine.exec_cons_eq_some.mp run
    have hcons : (step native serialize).Along Survives tcp (e :: es) ↔
        Survives tcp e u ∧ (step native serialize).Along Survives u es := by
      rw [Machine.along_cons]
      constructor
      · exact fun h => h u hstep
      · intro h t ht
        obtain rfl := Option.some.inj (hstep.symm.trans ht)
        exact h
    rw [hcons]
    by_cases hstop : e = .stop
    · subst hstop
      obtain rfl := Option.some.inj hstep
      obtain ⟨hready, hstopped, hloop⟩ := ready.stop
      have := tcp.server.manager.nextConnectionId.id.toNat_lt
      simp only [acceptedBeforeStop, Nat.add_zero]
      refine ⟨fun _ => by omega, fun _ => ⟨⟨?_, ?_⟩, along_stopped hready hstopped es⟩⟩
      · exact fun h hne => absurd (hloop.trans h) hne
      · intro _ ec h
        cases h
    · by_cases haccept : e = .acceptCompletes none
      · subst haccept
        simp only [step, Option.ite_none_right_eq_some, Option.some.injEq] at hstep
        obtain ⟨hloop, rfl⟩ := hstep
        have hfalse : tcp.stopped ≠ true := by simp [running]
        have hnext : tcp.server.nextId.id.toNat =
            (tcp.server.manager.nextConnectionId.id.toNat + 1) % 65536 := by
          rw [Server.nextId, ConnectionId.next_id, UInt16.toNat_add]
          rfl
        obtain ⟨hzero, exception, hescaped⟩ | ⟨hzero, hsame, hrunning, hready, hcounter⟩ :=
          acceptSucceeds_running ready running
        · have hfull : tcp.server.manager.nextConnectionId.id.toNat + 1 = 65536 := by
            rw [hzero] at hnext
            have := tcp.server.manager.nextConnectionId.id.toNat_lt
            have hzero' : (0 : UInt16).toNat = 0 := rfl
            omega
          constructor
          · intro h
            exact absurd (h.1.1 hloop (by simp [hescaped])) hfalse
          · intro h
            rw [acceptedBeforeStop] at h
            omega
        · have hroom : tcp.server.nextId.id.toNat =
              tcp.server.manager.nextConnectionId.id.toNat + 1 := by
            have hpos : tcp.server.nextId.id.toNat ≠ 0 := by
              intro h
              exact hzero (UInt16.toNat_inj.mp h)
            have := tcp.server.manager.nextConnectionId.id.toNat_lt
            omega
          rw [ih hready hrunning hrest, hcounter, hroom, acceptedBeforeStop]
          constructor
          · rintro ⟨-, h⟩
            omega
          · intro h
            exact ⟨⟨fun h' hne => absurd (hsame.trans h') hne, fun h' => absurd h' hfalse⟩,
              by omega⟩
      · obtain ⟨hsurvives, hready, hrunning, hcounter⟩ :=
          survives_running ready running hstop haccept hstep
        rw [ih hready hrunning hrest, hcounter, acceptedBeforeStop_cons_other hstop haccept]
        exact and_iff_right hsurvives

/-- The accept loop lives until `stop` if and only if fewer than 65536 sockets are accepted
before it. -/
theorem accept_loop_survives_iff {m : UInt32} (hm : 0 < m) {es : List Event}
    (run : (step native serialize).exec { maxMessageBytes := m } es = some next) :
    (step native serialize).Along Survives { maxMessageBytes := m } es ↔
      acceptedBeforeStop es < 65536 := by
  have hlimit : m ≠ 0 := by
    rintro rfl
    exact absurd hm (by decide)
  have ready : Ready { maxMessageBytes := m } := ⟨hlimit, rfl⟩
  have h := survives_iff ready rfl run
  rwa [show ConnectionId.id _ = 0 from rfl, UInt16.toNat_zero, Nat.zero_add] at h

/-- Two sockets, an error in between, and a stop that overtakes the third socket. -/
theorem accept_loop_survives_iff_of_stop :
    (step .little fun _ => none).Along Survives { maxMessageBytes := 1048576 }
        [.start, .acceptCompletes none, .acceptCompletes (some (.other 24)),
          .acceptCompletes none, .stop, .acceptCompletes none] ↔
      acceptedBeforeStop [.start, .acceptCompletes none, .acceptCompletes (some (.other 24)),
        .acceptCompletes none, .stop, .acceptCompletes none] < 65536 := by
  have run : (step .little fun _ => none).exec { maxMessageBytes := 1048576 }
      [.start, .acceptCompletes none, .acceptCompletes (some (.other 24)),
        .acceptCompletes none, .stop, .acceptCompletes none] = some _ := rfl
  exact accept_loop_survives_iff (by decide) run

/-- Sockets the loop takes while the counter has room. -/
theorem exec_replicate_accept (ready : tcp.Ready) (running : tcp.stopped = false)
    (hloop : tcp.loop = .accepting) {n : Nat}
    (hn : tcp.server.manager.nextConnectionId.id.toNat + n < 65536) :
    ∃ s, (step native serialize).exec tcp (List.replicate n (.acceptCompletes none)) = some s ∧
      s.Ready ∧ s.stopped = false ∧ s.loop = .accepting ∧
      s.server.manager.nextConnectionId.id.toNat =
        tcp.server.manager.nextConnectionId.id.toNat + n := by
  induction n with
  | zero => exact ⟨tcp, rfl, ready, running, hloop, rfl⟩
  | succ n ih =>
    obtain ⟨s, hrun, hready, hrunning, hs, hcounter⟩ := ih (by omega)
    have hnext : s.server.nextId.id.toNat =
        (s.server.manager.nextConnectionId.id.toNat + 1) % 65536 := by
      rw [Server.nextId, ConnectionId.next_id, UInt16.toNat_add]
      rfl
    obtain ⟨hzero, -⟩ | ⟨-, hsame, hstill, hready', hid⟩ := acceptSucceeds_running hready hrunning
    · rw [hzero] at hnext
      have hzero' : (0 : UInt16).toNat = 0 := rfl
      omega
    · refine ⟨s.acceptSucceeds, ?_, hready', hstill, hsame.trans hs, ?_⟩
      · rw [List.replicate_succ', Machine.exec_concat_eq_some]
        exact ⟨s, hrun, if_pos hs⟩
      · rw [hid, hnext, hcounter]
        omega

/-- The 65536th socket ends the loop of a server that nobody has stopped. -/
theorem accept_loop_escapes :
    ¬(step .little fun _ => none).Along Survives { maxMessageBytes := 1048576 }
      (.start :: List.replicate 65536 (.acceptCompletes none)) := by
  intro along
  let started : TcpServer := { maxMessageBytes := 1048576, loop := .accepting }
  have ready : started.Ready := ⟨by decide, rfl⟩
  have hfirst : started.server.manager.nextConnectionId.id.toNat = 0 := rfl
  obtain ⟨s, hrun, hready, hrunning, hloop, hcounter⟩ :=
    @exec_replicate_accept .little (fun _ => none) started ready rfl rfl 65535
      (by rw [hfirst]; omega)
  have hrest := (Machine.along_cons.mp along started rfl).2
  rw [show 65536 = 65535 + 1 from rfl, List.replicate_succ'] at hrest
  have hsurvives := hrest.last hrun (if_pos hloop)
  obtain ⟨-, exception, hescaped⟩ | ⟨hzero, -⟩ := acceptSucceeds_running hready hrunning
  · have hstopped := hsurvives.1 hloop (by simp [hescaped])
    simp [hrunning] at hstopped
  · apply hzero
    rw [Server.nextId, ConnectionId.next_id, ← UInt16.toNat_inj, UInt16.toNat_add, hcounter, hfirst]
    rfl

end TcpServer

end Stalker2D.Network
