import Stalker2D.Client.ConnectionResources

/-!
# How a connect and a disconnect end

An attempt ends at the one step at which its coroutine resumes, `Returned` or `Threw`,
and a `disconnect` while it was in flight leaves only the second. A `disconnect` that
has to wait returns only after the state has been `Disconnected`.
-/

namespace Stalker2D.Client

namespace ConnectionManager

open Phase

variable {manager t : ConnectionManager} {phase : Phase} {e : Event} {es : List Event}
variable {attempt waiter : Nat} {result : Except Exception Unit}

/-- What an attempt has ended with. -/
def EndedWith (manager : ConnectionManager) (attempt : Nat) (result : Except Exception Unit) :
    Prop :=
  ∃ a, manager.attempts[attempt]? = some a ∧ a.result = some result

theorem EndedWith.unique {other : Except Exception Unit} (h : manager.EndedWith attempt result)
    (h' : manager.EndedWith attempt other) : result = other := by
  obtain ⟨a, ha, hresult⟩ := h
  obtain ⟨b, hb, hother⟩ := h'
  obtain rfl := Option.some.inj (ha.symm.trans hb)
  exact Option.some.inj (hresult.symm.trans hother)

theorem InFlight.not_endedWith (h : manager.InFlight attempt) :
    ¬ manager.EndedWith attempt result := by
  rintro ⟨b, hb, hresult⟩
  obtain ⟨a, ha, hnone⟩ := h
  obtain rfl := Option.some.inj (ha.symm.trans hb)
  rw [hnone] at hresult
  cases hresult

theorem finish_attempts (h : t.attempts = manager.attempts) (attempt : Nat)
    (result : Except Exception Unit) :
    (t.finish attempt result).attempts = (manager.finish attempt result).attempts := by
  simp only [finish, h]

/-- `finish` ends an attempt that was in flight with the given result. -/
theorem InFlight.endedWith_finish (h : manager.InFlight attempt)
    (attempts : t.attempts = (manager.finish attempt result).attempts) :
    t.EndedWith attempt result := by
  obtain ⟨a, ha, -⟩ := h
  refine ⟨{ a with result := some result }, ?_, rfl⟩
  simp [attempts, finish, ha]

/-- The attempts after a step: a new one, a queued completion, or the end of one. -/
theorem attempts_step (hstep : step manager e = some t) :
    t.attempts = manager.attempts ∨ t.attempts = manager.attempts ++ [({} : Attempt)] ∨
      (∃ k error, t.attempts = manager.attempts.modify k ({ · with completion := some error })) ∨
      ∃ k result, e = .resumeConnect k ∧ manager.InFlight k ∧
        t.attempts = (manager.finish k result).attempts := by
  have habandon : manager.abandon.attempts = manager.attempts := setState_attempts ..
  cases step_cases hstep with
  | connect =>
    rw [connect]
    split
    · exact .inl rfl
    · exact .inr (.inl rfl)
  | disconnect =>
    left
    cases h : manager.state <;> simp [disconnect, h, wait, closeConnectingSocket]
  | connectCompletes k error => exact .inr (.inr (.inl ⟨k, error, rfl⟩))
  | abandons k _ error hattempt =>
    exact .inr (.inr (.inr ⟨k, _, rfl, ⟨_, hattempt, rfl⟩, finish_attempts habandon k _⟩))
  | starts k socket hattempt =>
    right; right; right
    simp only [startRequests]
    split
    · exact ⟨k, _, rfl, ⟨_, hattempt, rfl⟩, finish_attempts (setState_attempts ..) k _⟩
    · exact ⟨k, _, rfl, ⟨_, hattempt, rfl⟩, finish_attempts (setState_attempts ..) k _⟩
  | resumeDisconnect => exact .inl rfl
  | closeNotification =>
    left
    simp only [connectionClosed]
    split
    · split
      · exact setState_attempts ..
      · rfl
    · rfl
  | request => exact .inl rfl

/-- What an attempt has ended with stays, and an attempt ends at its resumption. -/
theorem endedWith_step (hstep : step manager e = some t) (attempt : Nat)
    (result : Except Exception Unit) :
    (manager.EndedWith attempt result → t.EndedWith attempt result) ∧
      (t.EndedWith attempt result → manager.EndedWith attempt result ∨
        e = .resumeConnect attempt ∧ manager.InFlight attempt) := by
  obtain h | h | ⟨k, error, h⟩ | ⟨k, ended, rfl, hflight, h⟩ := attempts_step hstep
  · simp only [EndedWith, h]
    exact ⟨id, .inl⟩
  · constructor
    · rintro ⟨a, ha, hresult⟩
      refine ⟨a, ?_, hresult⟩
      rw [h, List.getElem?_append_left (List.getElem?_eq_some_iff.mp ha).1, ha]
    · rintro ⟨a, ha, hresult⟩
      rw [h] at ha
      obtain hold | ⟨-, rfl⟩ := getElem?_concat_cases ha
      · exact .inl ⟨a, hold, hresult⟩
      · cases hresult
  · constructor
    · rintro ⟨a, ha, hresult⟩
      rw [EndedWith, h, List.getElem?_modify, ha]
      refine ⟨_, rfl, ?_⟩
      split <;> exact hresult
    · rintro ⟨a, ha, hresult⟩
      rw [h, List.getElem?_modify] at ha
      obtain ⟨old, hold, rfl⟩ := Option.map_eq_some_iff.mp ha
      refine .inl ⟨old, hold, ?_⟩
      split at hresult <;> exact hresult
  · simp only [EndedWith, h, finish, List.getElem?_modify]
    constructor
    · rintro ⟨a, ha, hresult⟩
      have hne : k ≠ attempt := by
        rintro rfl
        exact hflight.not_endedWith ⟨a, ha, hresult⟩
      exact ⟨a, by simp [ha, hne], hresult⟩
    · rintro ⟨a, ha, hresult⟩
      by_cases hk : k = attempt
      · subst hk
        exact .inr ⟨rfl, hflight⟩
      · left
        simp only [hk, if_false, Option.map_eq_map, Option.map_id_fun', id_eq] at ha
        exact ⟨a, ha, hresult⟩

/-- The result of an attempt tells in which of the two ways its last step went. -/
theorem InPhase.ends (inPhase : manager.InPhase phase)
    (hstep : step manager (.resumeConnect attempt) = some t) (h : t.EndedWith attempt result) :
    result = .ok () ∧ Returned manager t attempt ∨
      (∃ error, result = .error error) ∧ Threw manager t attempt := by
  have hflight := inFlight_of_resumes hstep
  obtain ⟨-, returned, -⟩ | ⟨threw, -⟩ := inPhase.resume hstep
  · exact .inl ⟨h.unique (hflight.endedWith_finish returned.result), returned⟩
  · obtain ⟨error, hresult⟩ := threw.result
    exact .inr ⟨⟨error, h.unique (hflight.endedWith_finish hresult)⟩, threw⟩

/-- Once its completion is queued, an attempt can be resumed, and that ends it. -/
theorem InPhase.resumes (inPhase : manager.InPhase phase) {error : Option ErrorCode}
    (h : manager.attempts[attempt]? = some { completion := some error }) :
    ∃ t, step manager (.resumeConnect attempt) = some t ∧ ∃ result, t.EndedWith attempt result := by
  obtain ⟨t, hstep⟩ := inPhase.resumable h
  have hflight := inFlight_of_resumes hstep
  refine ⟨t, hstep, ?_⟩
  obtain ⟨-, returned, -⟩ | ⟨threw, -⟩ := inPhase.resume hstep
  · exact ⟨_, hflight.endedWith_finish returned.result⟩
  · obtain ⟨error, hresult⟩ := threw.result
    exact ⟨_, hflight.endedWith_finish hresult⟩

/-- A cancelled attempt is still in flight or has ended with an error. -/
theorem cancelling_exec (inPhase : manager.InPhase (.cancelling attempt))
    (run : Machine.exec step manager es = some t) :
    t.InPhase (.cancelling attempt) ∨ ∃ error, t.EndedWith attempt (.error error) := by
  have keep : Machine.Invariant step fun s =>
      s.InPhase (.cancelling attempt) ∨ ∃ error, s.EndedWith attempt (.error error) := by
    rintro s e u (inPhase | ⟨error, hended⟩) hstep
    · obtain ⟨next, hmoves, hnext⟩ := phase_step inPhase hstep
      cases hmoves with
      | stays => exact .inl hnext
      | cancelled =>
        obtain ⟨hphase, -⟩ | ⟨threw, -⟩ := inPhase.resume hstep
        · cases hphase
        · obtain ⟨error, hresult⟩ := threw.result
          exact .inr ⟨error, (inFlight_of_resumes hstep).endedWith_finish hresult⟩
    · exact .inr ⟨error, (endedWith_step hstep attempt _).1 hended⟩
  exact keep.exec (.inl inPhase) run

/-- A `disconnect` during an attempt puts it into the phase from which it only throws. -/
theorem InPhase.interrupts (inPhase : manager.InPhase phase) (flight : manager.InFlight attempt) :
    manager.disconnect.InPhase (.cancelling attempt) := by
  obtain rfl | rfl := attempt_eq_some.mp ((inPhase.inFlight attempt).mp flight)
  · exact inPhase.cancel
  · have hstate : manager.state = .disconnecting := inPhase.state
    simpa only [ConnectionManager.disconnect, hstate] using inPhase.wait hstate

/-- A wait goes on until the state is `Disconnected`. -/
theorem waiting_step (hstep : step manager e = some t)
    (h : manager.waiters[waiter]? = some .waiting) :
    t.waiters[waiter]? = some .waiting ∨ t.state = .disconnected := by
  rw [waiters_step hstep]
  split
  next hleaves => exact .inr hleaves.2
  next =>
    left
    cases e with
    | disconnect =>
      dsimp only
      split
      · exact h
      · rw [List.getElem?_append_left (List.getElem?_eq_some_iff.mp h).1, h]
    | resumeDisconnect other =>
      have hne : other ≠ waiter := by
        rintro rfl
        simp [step, h] at hstep
      rw [List.getElem?_set_ne hne, h]
    | _ => exact h

/-- What a run from the start says about its `connect` and `disconnect` calls. -/
structure EndsCleanly (config : Config) (es : List Event) (manager : ConnectionManager) :
    Prop where
  rejected : manager.state ≠ .disconnected → manager.connect =
    (.error (.logicError "Connect is not allowed in current connection state"), manager)
  accepted : manager.state = .disconnected → manager.connect.1 = .ok () ∧
    manager.connect.2.state = .connecting ∧ manager.connect.2.InFlight manager.attempts.length
  resumes : ∀ attempt error, manager.attempts[attempt]? = some { completion := some error } →
    ∃ t, step manager (.resumeConnect attempt) = some t ∧
      ∃ result, t.EndedWith attempt result
  /-- An attempt ended at its resumption, and in one of the two ways. -/
  ends : ∀ attempt result, manager.EndedWith attempt result →
    ∃ before after s t, es = before ++ .resumeConnect attempt :: after ∧
      Machine.exec step (initial config) before = some s ∧
      step s (.resumeConnect attempt) = some t ∧ Machine.exec step t after = some manager ∧
      (result = .ok () ∧ Returned s t attempt ∨
        (∃ error, result = .error error) ∧ Threw s t attempt)
  /-- A `disconnect` while it was in flight leaves only the second way. -/
  interrupted : ∀ before after s attempt result, es = before ++ .disconnect :: after →
    Machine.exec step (initial config) before = some s → s.InFlight attempt →
    manager.EndedWith attempt result → ∃ error, result = .error error
  /-- A `disconnect` returns at once in `Disconnected`, or as a waiter, and then the state
  has been `Disconnected` since the call. -/
  returns : ∀ before after s, es = before ++ .disconnect :: after →
    Machine.exec step (initial config) before = some s →
    s.state = .disconnected ∧ s.disconnect = s ∨
      s.disconnect.waiters = s.waiters ++ [.waiting] ∧
        (manager.waiters[s.waiters.length]? = some .returned →
          ∃ between rest t, after = between ++ rest ∧
            Machine.exec step s.disconnect between = some t ∧ t.state = .disconnected)

section Run

variable {config : Config}

theorem ended_exec (run : Machine.exec step (initial config) es = some manager)
    (h : manager.EndedWith attempt result) :
    ∃ before after s t, es = before ++ .resumeConnect attempt :: after ∧
      Machine.exec step (initial config) before = some s ∧
      step s (.resumeConnect attempt) = some t ∧ Machine.exec step t after = some manager ∧
      (result = .ok () ∧ Returned s t attempt ∨
        (∃ error, result = .error error) ∧ Threw s t attempt) := by
  have hinitial : ¬ (initial config).EndedWith attempt result := by
    rintro ⟨a, ha, -⟩
    simp [initial] at ha
  obtain ⟨before, e, after, s, t, hes, hbefore, hstep, hafter, hs, ht⟩ :=
    Machine.exec_becomes (P := (EndedWith · attempt result)) run hinitial h
  obtain ⟨phase, inPhase⟩ := phase_exec hbefore
  cases (endedWith_step hstep attempt result).2 ht with
  | inl hold => exact absurd hold hs
  | inr hends =>
    obtain ⟨rfl, -⟩ := hends
    exact ⟨before, after, s, t, hes, hbefore, hstep, hafter, inPhase.ends hstep ht⟩

theorem interrupted_exec {s : ConnectionManager} {before after : List Event}
    (hbefore : Machine.exec step (initial config) before = some s) (flight : s.InFlight attempt)
    (hafter : Machine.exec step s.disconnect after = some manager)
    (h : manager.EndedWith attempt result) : ∃ error, result = .error error := by
  obtain ⟨phase, inPhase⟩ := phase_exec hbefore
  obtain hcancelling | ⟨error, hended⟩ := cancelling_exec (inPhase.interrupts flight) hafter
  · exact absurd h ((hcancelling.inFlight attempt).mpr rfl).not_endedWith
  · exact ⟨error, h.unique hended⟩

theorem wait_exec {s : ConnectionManager}
    (hwaiting : s.waiters[waiter]? = some .waiting)
    (run : Machine.exec step s es = some manager)
    (h : manager.waiters[waiter]? = some .returned) :
    ∃ between rest t, es = between ++ rest ∧ Machine.exec step s between = some t ∧
      t.state = .disconnected := by
  obtain ⟨before, e, after, u, v, hes, hbefore, hstep, -, hu, hv⟩ :=
    Machine.exec_becomes (P := fun m => m.waiters[waiter]? ≠ some .waiting) run
      (not_not_intro hwaiting) (by simp [h])
  refine ⟨before ++ [e], after, v, by simp [hes], ?_, ?_⟩
  · exact Machine.exec_concat_eq_some.mpr ⟨u, hbefore, hstep⟩
  · exact (waiting_step hstep (not_not.mp hu)).resolve_left hv

theorem disconnect_waits (h : manager.state ≠ .disconnected) :
    manager.disconnect.waiters = manager.waiters ++ [.waiting] := by
  have hstep : step manager .disconnect = some manager.disconnect := rfl
  rw [waiters_step hstep]
  cases hstate : manager.state with
  | disconnected => exact absurd hstate h
  | _ => simp [disconnect, hstate, wait]

/-- Every `connect` that passed the state check ends cleanly, a `disconnect` during it wins,
and a `disconnect` returns only after the state has been `Disconnected`. -/
theorem attempts_end_cleanly (config : Config) (es : List Event) (manager : ConnectionManager)
    (run : Machine.exec step (initial config) es = some manager) :
    EndsCleanly config es manager := by
  obtain ⟨phase, inPhase⟩ := phase_exec run
  constructor
  · exact connect_rejected
  · intro h
    simp only [connect, h, ne_eq, not_true_eq_false, if_false]
    refine ⟨trivial, setState_state .., ?_⟩
    exact (inFlight_append rfl _).mpr (.inr rfl)
  · exact fun attempt error h => inPhase.resumes h
  · exact fun attempt result h => ended_exec run h
  · rintro before after s attempt result rfl hbefore flight h
    obtain ⟨u, hu, hafter⟩ := Machine.exec_append_eq_some.mp run
    obtain rfl := Option.some.inj (hbefore.symm.trans hu)
    exact interrupted_exec hbefore flight hafter h
  · rintro before after s rfl hbefore
    by_cases hstate : s.state = .disconnected
    · exact .inl ⟨hstate, by simp [disconnect, hstate]⟩
    · have hwaiters := disconnect_waits hstate
      refine .inr ⟨hwaiters, fun h => ?_⟩
      obtain ⟨u, hu, hafter⟩ := Machine.exec_append_eq_some.mp run
      obtain rfl := Option.some.inj (hbefore.symm.trans hu)
      have hwaiting : s.disconnect.waiters[s.waiters.length]? = some .waiting := by
        rw [hwaiters, List.getElem?_concat_length]
      exact wait_exec hwaiting hafter h

/-- The connection succeeds just before two `disconnect` calls, and is then tried again
before they return. -/
def retry : List Event :=
  [.connect, .connectCompletes 0 none, .disconnect, .disconnect, .resumeConnect 0, .connect,
    .resumeDisconnect 0, .connectCompletes 1 none, .resumeConnect 1, .resumeDisconnect 1]

theorem attempts_end_cleanly_retry :
    ∃ manager, Machine.exec step (initial {}) retry = some manager ∧
      manager.state = .connected ∧ manager.waiters = [.returned, .returned] ∧
      EndsCleanly {} retry manager :=
  ⟨_, rfl, rfl, rfl, attempts_end_cleanly {} retry _ rfl⟩

end Run

end ConnectionManager

end Stalker2D.Client
