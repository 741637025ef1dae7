import Mathlib.Data.Prod.Lex
import Stalker2D.Machine.Basic

/-!
# Reaching a goal

`LeadsTo` says that from every state with one property some run of permitted events ends in
a state with another. It is shown step by step (`ofStep`, `trans`) or by a measure that the
events can lower until the goal is reached (`ofMeasure`). `total` is the measure of a list of
parts of which one at a time gets on.

`Ends` is stronger: the permitted events cannot go on for ever, whichever of them happen, and
`AtRest` is where they have come to an end. What holds there is `Inevitable`.
-/

namespace Machine

variable {σ ε α : Type*} {step : Machine σ ε} {permitted : ε → Prop} {P Q R : σ → Prop}

/-- From every state of `P` permitted events can lead to one of `Q`. -/
def LeadsTo (step : Machine σ ε) (permitted : ε → Prop) (P Q : σ → Prop) : Prop :=
  ∀ s, P s → ∃ es t, exec step s es = some t ∧ (∀ e ∈ es, permitted e) ∧ Q t

namespace LeadsTo

/-- One event is enough, if any is needed. -/
theorem ofStep (h : ∀ s, P s → Q s ∨ ∃ e t, permitted e ∧ step s e = some t ∧ Q t) :
    LeadsTo step permitted P Q := by
  intro s hs
  obtain hgoal | ⟨e, t, he, hstep, ht⟩ := h s hs
  · exact ⟨[], s, rfl, List.forall_mem_nil _, hgoal⟩
  · refine ⟨[e], t, exec_cons_eq_some.mpr ⟨t, hstep, rfl⟩, fun f hf => ?_, ht⟩
    obtain rfl := List.mem_singleton.mp hf
    exact he

theorem trans (first : LeadsTo step permitted P Q) (second : LeadsTo step permitted Q R) :
    LeadsTo step permitted P R := by
  intro s hs
  obtain ⟨es, t, hes, hpermitted, ht⟩ := first s hs
  obtain ⟨fs, u, hfs, hpermitted', hu⟩ := second t ht
  refine ⟨es ++ fs, u, exec_append_eq_some.mpr ⟨t, hes, hfs⟩, fun e he => ?_, hu⟩
  obtain he | he := List.mem_append.mp he
  · exact hpermitted e he
  · exact hpermitted' e he

/-- While the goal is not reached some event lowers the measure. -/
theorem ofMeasure (measure : σ → Nat)
    (lower : ∀ s, P s → Q s ∨ ∃ e t, permitted e ∧ step s e = some t ∧ P t ∧
      measure t < measure s) : LeadsTo step permitted P Q := by
  intro s hs
  induction hn : measure s using Nat.strongRecOn generalizing s with
  | ind n ih =>
    obtain hgoal | ⟨e, t, he, hstep, ht, hlt⟩ := lower s hs
    · exact ⟨[], s, rfl, List.forall_mem_nil _, hgoal⟩
    · obtain ⟨es, u, hes, hpermitted, hu⟩ := ih (measure t) (hn ▸ hlt) t ht rfl
      refine ⟨e :: es, u, exec_cons_eq_some.mpr ⟨t, hstep, hes⟩, fun f hf => ?_, hu⟩
      obtain rfl | hf := List.mem_cons.mp hf
      · exact he
      · exact hpermitted f hf

end LeadsTo

/-- None of the permitted events can happen. -/
def AtRest (step : Machine σ ε) (permitted : ε → Prop) (s : σ) : Prop :=
  ∀ e, permitted e → step s e = none

/-- Every run of permitted events is finite. -/
def Ends (step : Machine σ ε) (permitted : ε → Prop) (s : σ) : Prop :=
  Acc (fun t s => ∃ e, permitted e ∧ step s e = some t) s

namespace Ends

/-- Every permitted event lowers a measure of the states that have one. -/
theorem ofMeasure [Preorder α] [WellFoundedLT α] (measures : σ → α → Prop)
    (lower : ∀ s a e t, measures s a → permitted e → step s e = some t →
      ∃ b, measures t b ∧ b < a) {s : σ} {a : α} (h : measures s a) : Ends step permitted s := by
  induction a using WellFoundedLT.induction generalizing s with
  | ind a ih =>
    constructor
    rintro t ⟨e, he, hstep⟩
    obtain ⟨b, hb, hlt⟩ := lower s a e t h he hstep
    exact ih b hlt hb

theorem not_forever {s : σ} (ends : Ends step permitted s) (states : Nat → σ)
    (first : states 0 = s) :
    ¬∀ n, ∃ e, permitted e ∧ step (states n) e = some (states (n + 1)) := by
  induction ends generalizing states with
  | intro s _ ih =>
    intro forever
    exact ih (states 1) (first ▸ forever 0) (fun n => states (n + 1)) rfl fun n =>
      forever (n + 1)

/-- Some run of permitted events comes to rest. -/
theorem exists_rest {s : σ} (ends : Ends step permitted s) :
    ∃ es t, exec step s es = some t ∧ (∀ e ∈ es, permitted e) ∧ AtRest step permitted t := by
  induction ends with
  | intro s _ ih =>
    by_cases hrest : AtRest step permitted s
    · exact ⟨[], s, rfl, List.forall_mem_nil _, hrest⟩
    · simp only [AtRest, not_forall] at hrest
      obtain ⟨e, he, hsome⟩ := hrest
      obtain ⟨t, hstep⟩ := Option.ne_none_iff_exists'.mp hsome
      obtain ⟨es, u, hes, hpermitted, hu⟩ := ih t ⟨e, he, hstep⟩
      exact ⟨e :: es, u, exec_cons_eq_some.mpr ⟨t, hstep, hes⟩,
        List.forall_mem_cons.mpr ⟨he, hpermitted⟩, hu⟩

end Ends

/-- Whatever order the permitted events happen in, they come to an end, and the goal is
reached wherever they have. -/
structure Inevitable (step : Machine σ ε) (permitted : ε → Prop) (Q : σ → Prop) (s : σ) :
    Prop where
  finite : ∀ states : Nat → σ, states 0 = s →
    ¬∀ n, ∃ e, permitted e ∧ step (states n) e = some (states (n + 1))
  comesToRest : ∃ es t, exec step s es = some t ∧ (∀ e ∈ es, permitted e) ∧
    AtRest step permitted t
  goal : ∀ es t, exec step s es = some t → (∀ e ∈ es, permitted e) →
    AtRest step permitted t → Q t

/-- An invariant of the permitted events gives the goal where they have come to an end. -/
theorem Ends.inevitable {s : σ} (ends : Ends step permitted s) (init : P s)
    (keep : ∀ s e t, P s → permitted e → step s e = some t → P t)
    (goal : ∀ t, P t → AtRest step permitted t → Q t) : Inevitable step permitted Q s where
  finite := ends.not_forever
  comesToRest := ends.exists_rest
  goal es t run hpermitted rest := by
    refine goal t ?_ rest
    clear rest
    induction es generalizing s with
    | nil => exact Option.some.inj run ▸ init
    | cons e es ih =>
      obtain ⟨he, hes⟩ := List.forall_mem_cons.mp hpermitted
      obtain ⟨u, hstep, hrun⟩ := exec_cons_eq_some.mp run
      exact ih (ends.inv ⟨e, he, hstep⟩) (keep s e u init he hstep) hrun hes

/-- The sum of a measure over the parts. -/
def total (f : α → Nat) : List α → Nat
  | [] => 0
  | a :: l => f a + total f l

/-- One part gets on. -/
theorem total_modify_lt {f : α → Nat} {g : α → α} {l : List α} {i : Nat} {a : α}
    (h : l[i]? = some a) (hlt : f (g a) < f a) : total f (l.modify i g) < total f l := by
  induction l generalizing i with
  | nil => cases h
  | cons first l ih =>
    cases i with
    | zero =>
      obtain rfl := Option.some.inj h
      rw [List.modify_zero_cons, total, total]
      omega
    | succ i =>
      have := ih h
      rw [List.modify_succ_cons, total, total]
      omega

/-- One part is replaced. -/
theorem total_set {f : α → Nat} {l : List α} {i : Nat} {a : α} (h : l[i]? = some a) (b : α) :
    total f (l.set i b) + f a = total f l + f b := by
  induction l generalizing i with
  | nil => cases h
  | cons first l ih =>
    cases i with
    | zero =>
      obtain rfl := Option.some.inj h
      rw [List.set_cons_zero, total, total]
      omega
    | succ i =>
      have := ih h
      rw [List.set_cons_succ, total, total]
      omega

end Machine
