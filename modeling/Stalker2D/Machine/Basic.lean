import Mathlib.Data.List.Induction

/-!
# Event-driven machines and their runs

A machine answers an event by moving to one next state or by refusing it. Every
choice the environment has (which event comes next, what it carries) is part of
the event, so a run is a list of events and all interleavings are all lists.

`Along` states a property of each transition of a run, which is how safety under
a condition on the steps is expressed. The two induction rules are
`Invariant.exec`, for invariants every step keeps, and `along_iff`, which turns a
step-by-step equivalence of two properties into one of whole runs. `exec_within` and
`along_within` are for what holds only as long as a counter has not run out.
-/

/-- `step s e` is the next state, or `none` when `e` cannot happen in `s`. -/
abbrev Machine (σ ε : Type*) := σ → ε → Option σ

namespace Machine

variable {σ ε : Type*} {step : Machine σ ε}

/-- Run a whole list of events; a refused event makes the run impossible. -/
def exec (step : Machine σ ε) : σ → List ε → Option σ
  | s, [] => some s
  | s, e :: es => (step s e).bind fun t => exec step t es

@[simp] theorem exec_nil (s : σ) : exec step s [] = some s := rfl

theorem exec_cons (s : σ) (e : ε) (es : List ε) :
    exec step s (e :: es) = (step s e).bind fun t => exec step t es := rfl

theorem exec_cons_eq_some {s u : σ} {e : ε} {es : List ε} :
    exec step s (e :: es) = some u ↔ ∃ t, step s e = some t ∧ exec step t es = some u := by
  rw [exec_cons, Option.bind_eq_some_iff]

theorem exec_append (s : σ) (es fs : List ε) :
    exec step s (es ++ fs) = (exec step s es).bind fun t => exec step t fs := by
  induction es generalizing s with
  | nil => rfl
  | cons e es ih =>
    rw [List.cons_append, exec_cons, exec_cons]
    cases step s e with
    | none => rfl
    | some t => exact ih t

theorem exec_append_eq_some {s u : σ} {es fs : List ε} :
    exec step s (es ++ fs) = some u ↔
      ∃ t, exec step s es = some t ∧ exec step t fs = some u := by
  rw [exec_append, Option.bind_eq_some_iff]

theorem exec_concat_eq_some {s u : σ} {es : List ε} {e : ε} :
    exec step s (es ++ [e]) = some u ↔ ∃ t, exec step s es = some t ∧ step t e = some u := by
  simp [exec_append, exec_cons, Option.bind_eq_some_iff]

/-- `I` is kept by every step, whatever the event. -/
def Invariant (step : Machine σ ε) (I : σ → Prop) : Prop :=
  ∀ s e t, I s → step s e = some t → I t

theorem Invariant.exec {I : σ → Prop} (h : Invariant step I) {s t : σ} {es : List ε}
    (hs : I s) (run : exec step s es = some t) : I t := by
  induction es generalizing s with
  | nil =>
    rw [exec_nil, Option.some.injEq] at run
    exact run ▸ hs
  | cons e es ih =>
    obtain ⟨u, hstep, hrest⟩ := exec_cons_eq_some.mp run
    exact ih (h s e u hs hstep) hrest

/-- Induction over a run that may also speak about the events so far. -/
theorem exec_induction {motive : List ε → σ → Prop} {s : σ} (init : motive [] s)
    (next : ∀ es t e u, exec step s es = some t → motive es t → step t e = some u →
      motive (es ++ [e]) u)
    {es : List ε} {t : σ} (run : exec step s es = some t) : motive es t := by
  induction es using List.reverseRecOn generalizing t with
  | nil =>
    rw [exec_nil, Option.some.injEq] at run
    exact run ▸ init
  | append_singleton es e ih =>
    obtain ⟨u, hrun, hstep⟩ := exec_concat_eq_some.mp run
    exact next es u e t hrun (ih hrun) hstep

/-- A property that holds at the end of a run and not at its beginning comes with one
of its steps. -/
theorem exec_becomes {P : σ → Prop} {s t : σ} {es : List ε} (run : exec step s es = some t)
    (hs : ¬ P s) (ht : P t) :
    ∃ before e after u v, es = before ++ e :: after ∧ exec step s before = some u ∧
      step u e = some v ∧ exec step v after = some t ∧ ¬ P u ∧ P v := by
  induction es generalizing s with
  | nil =>
    rw [exec_nil, Option.some.injEq] at run
    exact absurd (run ▸ ht) hs
  | cons e es ih =>
    obtain ⟨v, hstep, hrest⟩ := exec_cons_eq_some.mp run
    by_cases hv : P v
    · exact ⟨[], e, es, s, v, rfl, rfl, hstep, hrest, hs, hv⟩
    · obtain ⟨before, f, after, u, w, rfl, hbefore, hf, hafter, hu, hw⟩ := ih hrest hv
      refine ⟨e :: before, f, after, u, w, rfl, ?_, hf, hafter, hu, hw⟩
      exact exec_cons_eq_some.mpr ⟨v, hstep, hbefore⟩

/-- `P` holds of every transition the run makes, up to its first refused event. -/
def Along (step : Machine σ ε) (P : σ → ε → σ → Prop) : σ → List ε → Prop
  | _, [] => True
  | s, e :: es => ∀ t ∈ step s e, P s e t ∧ Along step P t es

variable {P Q : σ → ε → σ → Prop}

@[simp] theorem along_nil (s : σ) : Along step P s [] := trivial

theorem along_cons {s : σ} {e : ε} {es : List ε} :
    Along step P s (e :: es) ↔ ∀ t, step s e = some t → P s e t ∧ Along step P t es := by
  simp only [Along, Option.mem_def]

instance decidableAlong [∀ s e t, Decidable (P s e t)] :
    ∀ (s : σ) (es : List ε), Decidable (Along step P s es)
  | _, [] => isTrue trivial
  | s, e :: es =>
    haveI := fun t => decidableAlong t es
    inferInstanceAs (Decidable (∀ t ∈ step s e, P s e t ∧ Along step P t es))

theorem along_append {s : σ} {es fs : List ε} :
    Along step P s (es ++ fs) ↔
      Along step P s es ∧ ∀ t, exec step s es = some t → Along step P t fs := by
  induction es generalizing s with
  | nil => simp
  | cons e es ih =>
    simp only [List.cons_append, along_cons, ih, exec_cons_eq_some]
    constructor
    · intro h
      refine ⟨fun t ht => ⟨(h t ht).1, (h t ht).2.1⟩, ?_⟩
      rintro u ⟨t, ht, hu⟩
      exact (h t ht).2.2 u hu
    · rintro ⟨h, hrest⟩ t ht
      exact ⟨(h t ht).1, (h t ht).2, fun u hu => hrest u ⟨t, ht, hu⟩⟩

/-- A property of the last transition of a run. -/
theorem Along.last {s t u : σ} {es : List ε} {e : ε} (h : Along step P s (es ++ [e]))
    (run : exec step s es = some t) (hstep : step t e = some u) : P t e u :=
  (along_cons.mp ((along_append.mp h).2 t run) u hstep).1

/-- An invariant that is kept by the transitions with a property is kept along a run of them. -/
theorem Along.exec {I : σ → Prop} {s t : σ} {es : List ε} (along : Along step P s es)
    (keep : ∀ s e t, I s → step s e = some t → P s e t → I t) (hs : I s)
    (run : Machine.exec step s es = some t) : I t := by
  induction es generalizing s with
  | nil =>
    rw [exec_nil, Option.some.injEq] at run
    exact run ▸ hs
  | cons e es ih =>
    obtain ⟨u, hstep, hrest⟩ := exec_cons_eq_some.mp run
    obtain ⟨hp, halong⟩ := along_cons.mp along u hstep
    exact ih halong (keep s e u hs hstep hp) hrest

/-- The transitions of a run, each with the part of the run before it. -/
theorem along_iff_forall {s : σ} {es : List ε} :
    Along step P s es ↔ ∀ before e after t u, es = before ++ e :: after →
      exec step s before = some t → step t e = some u → P t e u := by
  constructor
  · rintro along before e after t u rfl run hstep
    exact (along_cons.mp ((along_append.mp along).2 t run) u hstep).1
  · intro h
    induction es generalizing s with
    | nil => trivial
    | cons e es ih =>
      rw [along_cons]
      refine fun t ht => ⟨h [] e es s t rfl rfl ht, ih ?_⟩
      rintro before f after u v rfl run hstep
      exact h (e :: before) f after u v rfl (exec_cons_eq_some.mpr ⟨t, ht, run⟩) hstep

/-- What every transition from an invariant state satisfies holds along every run. -/
theorem Invariant.along {I : σ → Prop} (h : Invariant step I)
    (hP : ∀ s e t, I s → step s e = some t → P s e t) {s : σ} (hs : I s) (es : List ε) :
    Along step P s es := by
  induction es generalizing s with
  | nil => trivial
  | cons e es ih =>
    rw [along_cons]
    exact fun t ht => ⟨hP s e t hs ht, ih (h s e t hs ht)⟩

/-- Two properties that agree on every transition from an invariant state hold along
the same runs. The invariant itself may lean on either of them. -/
theorem along_iff {I : σ → Prop} (agree : ∀ s e t, I s → step s e = some t → (P s e t ↔ Q s e t))
    (keep : ∀ s e t, I s → step s e = some t → P s e t → I t) {s : σ} (hs : I s)
    (es : List ε) : Along step P s es ↔ Along step Q s es := by
  induction es generalizing s with
  | nil => simp
  | cons e es ih =>
    simp only [along_cons]
    constructor
    · intro h t ht
      have hp := (h t ht).1
      exact ⟨(agree s e t hs ht).mp hp, (ih (keep s e t hs ht hp)).mp (h t ht).2⟩
    · intro h t ht
      have hp := (agree s e t hs ht).mpr (h t ht).1
      exact ⟨hp, (ih (keep s e t hs ht hp)).mpr (h t ht).2⟩

section Within

variable {cost : List ε → Nat} {limit : Nat}

/-- Induction over a run whose events cost less than the limit. -/
theorem exec_within (additive : ∀ es fs, cost (es ++ fs) = cost es + cost fs)
    {motive : List ε → σ → Prop} {s : σ} (init : motive [] s)
    (next : ∀ es t e u, exec step s es = some t → cost es + cost [e] < limit → motive es t →
      step t e = some u → motive (es ++ [e]) u)
    {es : List ε} {t : σ} (run : exec step s es = some t) (within : cost es < limit) :
    motive es t := by
  refine exec_induction (motive := fun es t => cost es < limit → motive es t) (fun _ => init) ?_
    run within
  intro es t e u run ih hstep within
  rw [additive] at within
  exact next es t e u run within (ih (by omega)) hstep

/-- A property that holds of every transition until the events so far have cost too much. -/
theorem along_within (additive : ∀ es fs, cost (es ++ fs) = cost es + cost fs)
    {I : Nat → σ → Prop}
    (next : ∀ n s e t, I n s → n + cost [e] < limit → step s e = some t →
      P s e t ∧ I (n + cost [e]) t)
    {n : Nat} {s : σ} (hs : I n s) {es : List ε} (within : n + cost es < limit) :
    Along step P s es := by
  induction es generalizing n s with
  | nil => trivial
  | cons e es ih =>
    rw [← List.singleton_append, additive] at within
    rw [along_cons]
    intro t hstep
    obtain ⟨hP, ht⟩ := next n s e t hs (by omega) hstep
    exact ⟨hP, ih ht (by omega)⟩

end Within

end Machine
