import Mathlib.Data.List.Perm.Basic

/-!
# Worklists

A worklist holds what is still to be done. Its first element is taken, and the elements that
come of it go to the front, as on a stack, or to the back, as in a queue. The discipline
decides the order in which elements are taken. It decides neither whether the list becomes
empty nor what has been taken by then: `Runs.perm`, `runs_iff_acc`.

`Implements` is what a program has to keep to work off such a list: one of its steps takes
the first element, or does nothing for the list and lowers a rank.
-/

namespace Stalker2D.Worklist

variable {α : Type*}

inductive Discipline
  | stack
  | queue
  deriving DecidableEq, Repr

/-- The list after its first element was taken: `new` comes of it. -/
def Discipline.push : Discipline → List α → List α → List α
  | .stack, new, rest => new ++ rest
  | .queue, new, rest => rest ++ new

/-- The list becomes empty, and `out` is what was taken, in this order. -/
inductive Runs (next : α → List α) (d : Discipline) : List α → List α → Prop
  | done : Runs next d [] []
  | take {a : α} {rest out : List α} (runs : Runs next d (d.push (next a) rest) out) :
      Runs next d (a :: rest) (a :: out)

/-- What comes of each element, and of this, and so on, is finite: `out` lists it depth first. -/
inductive Visits (next : α → List α) : List α → List α → Prop
  | done : Visits next [] []
  | visit {a : α} {rest out out' : List α} (below : Visits next (next a) out)
      (after : Visits next rest out') : Visits next (a :: rest) (a :: (out ++ out'))

/-- The list and all that comes of it, one generation after the other. -/
inductive Generations (next : α → List α) : List α → List α → Prop
  | done : Generations next [] []
  | generation {l out : List α} (later : Generations next (l.flatMap next) out) :
      Generations next l (l ++ out)

variable {next : α → List α} {d : Discipline} {l l' out out' : List α}

@[simp] theorem runs_nil_iff : Runs next d [] out ↔ out = [] := by
  constructor
  · rintro ⟨⟩
    rfl
  · rintro rfl
    exact .done

theorem runs_cons_iff {a : α} : Runs next d (a :: l) out ↔
    ∃ rest, out = a :: rest ∧ Runs next d (d.push (next a) l) rest := by
  constructor
  · rintro ⟨⟩
    next rest runs => exact ⟨rest, rfl, runs⟩
  · rintro ⟨rest, rfl, runs⟩
    exact .take runs

theorem Runs.unique (runs : Runs next d l out) (runs' : Runs next d l out') : out = out' := by
  induction runs generalizing out' with
  | done => exact (runs_nil_iff.mp runs').symm
  | take _ ih =>
    obtain ⟨rest, rfl, hrest⟩ := runs_cons_iff.mp runs'
    rw [ih hrest]

/-- A queue takes one generation after the other. -/
theorem runs_queue_append_iff : Runs next .queue (l ++ l') out ↔
    ∃ rest, out = l ++ rest ∧ Runs next .queue (l' ++ l.flatMap next) rest := by
  induction l generalizing l' out with
  | nil => simp
  | cons a l ih =>
    have hpush : Discipline.push .queue (next a) (l ++ l') = l ++ (l' ++ next a) :=
      List.append_assoc ..
    rw [List.cons_append, runs_cons_iff, hpush]
    simp only [ih, List.append_assoc, List.flatMap_cons]
    constructor
    · rintro ⟨_, rfl, rest, rfl, runs⟩
      exact ⟨rest, rfl, runs⟩
    · rintro ⟨rest, rfl, runs⟩
      exact ⟨_, rfl, rest, rfl, runs⟩

/-- A stack is done with an element before it takes the next one. -/
theorem runs_stack_append_iff : Runs next .stack (l ++ l') out ↔
    ∃ first rest, out = first ++ rest ∧ Runs next .stack l first ∧ Runs next .stack l' rest := by
  constructor
  · intro runs
    generalize hall : l ++ l' = all at runs
    induction runs generalizing l with
    | done =>
      obtain ⟨rfl, rfl⟩ := List.append_eq_nil_iff.mp hall
      exact ⟨[], [], rfl, .done, .done⟩
    | @take a rest out runs ih =>
      cases l with
      | nil =>
        obtain rfl : l' = a :: rest := hall
        exact ⟨[], _, rfl, .done, .take runs⟩
      | cons b l =>
        obtain ⟨rfl, rfl⟩ := List.cons.inj hall
        have hpush : (next b ++ l) ++ l' = Discipline.push .stack (next b) (l ++ l') :=
          List.append_assoc ..
        obtain ⟨first, rest, rfl, hfirst, hrest⟩ := ih hpush
        exact ⟨b :: first, rest, rfl, .take hfirst, hrest⟩
  · rintro ⟨first, rest, rfl, hfirst, hrest⟩
    induction hfirst with
    | done => exact hrest
    | @take a l first _ ih =>
      have hpush : Discipline.push .stack (next a) (l ++ l') = (next a ++ l) ++ l' :=
        (List.append_assoc ..).symm
      exact .take (hpush ▸ ih)

theorem Visits.runs_stack (visits : Visits next l out) : Runs next .stack l out := by
  induction visits with
  | done => exact .done
  | visit _ _ below after => exact .take (runs_stack_append_iff.mpr ⟨_, _, rfl, below, after⟩)

theorem Visits.append (visits : Visits next l out) (visits' : Visits next l' out') :
    Visits next (l ++ l') (out ++ out') := by
  induction visits with
  | done => exact visits'
  | visit below _ _ ih =>
    rw [List.cons_append, List.cons_append, List.append_assoc]
    exact .visit below ih

/-- Either discipline gets to the end of what is finite, and takes each of it once. -/
theorem Visits.runs (visits : Visits next l out) (d : Discipline) :
    ∃ taken, Runs next d l taken ∧ taken.Perm out := by
  cases d with
  | stack => exact ⟨out, visits.runs_stack, .refl _⟩
  | queue =>
    generalize hlength : out.length = n
    induction n using Nat.strongRecOn generalizing l out with
    | ind n ih =>
      cases visits with
      | done => exact ⟨[], .done, .refl _⟩
      | @visit a rest out₁ out₂ below after =>
        have hcomm : (out₂ ++ out₁).Perm (out₁ ++ out₂) := List.perm_append_comm
        have hlt : (out₂ ++ out₁).length < n := by
          rw [← hlength, hcomm.length_eq]
          exact Nat.lt_succ_self _
        obtain ⟨taken, runs, hperm⟩ := ih _ hlt (after.append below) rfl
        exact ⟨a :: taken, .take runs, (hperm.trans hcomm).cons a⟩

theorem visits_of_acc (h : ∀ a ∈ l, Acc (fun b a => b ∈ next a) a) :
    ∃ out, Visits next l out := by
  have single : ∀ a, Acc (fun b a => b ∈ next a) a → ∃ out, Visits next (next a) out := by
    intro a acc
    induction acc with
    | intro a _ ih =>
      have all : ∀ l : List α, (∀ b ∈ l, b ∈ next a) → ∃ out, Visits next l out := by
        intro l hl
        induction l with
        | nil => exact ⟨[], .done⟩
        | cons b l ihl =>
          obtain ⟨below, hbelow⟩ := ih b (hl b List.mem_cons_self)
          obtain ⟨after, hafter⟩ := ihl fun c hc => hl c (List.mem_cons_of_mem _ hc)
          exact ⟨_, .visit hbelow hafter⟩
      exact all (next a) fun _ hb => hb
  induction l with
  | nil => exact ⟨[], .done⟩
  | cons a l ih =>
    obtain ⟨below, hbelow⟩ := single a (h a List.mem_cons_self)
    obtain ⟨after, hafter⟩ := ih fun b hb => h b (List.mem_cons_of_mem _ hb)
    exact ⟨_, .visit hbelow hafter⟩

theorem Runs.acc (runs : Runs next d l out) : ∀ a ∈ l, Acc (fun b a => b ∈ next a) a := by
  induction runs with
  | done => exact fun _ h => nomatch h
  | @take a rest out _ ih =>
    have hnew : ∀ b ∈ next a, Acc (fun b a => b ∈ next a) b := by
      intro b hb
      apply ih
      cases d with
      | stack => exact List.mem_append_left _ hb
      | queue => exact List.mem_append_right _ hb
    intro b hb
    obtain rfl | hb := List.mem_cons.mp hb
    · exact .intro _ hnew
    · apply ih
      cases d with
      | stack => exact List.mem_append_right _ hb
      | queue => exact List.mem_append_left _ hb

/-- The discipline has no say in whether the list becomes empty. -/
theorem runs_iff_acc (next : α → List α) (d : Discipline) (l : List α) :
    (∃ out, Runs next d l out) ↔ ∀ a ∈ l, Acc (fun b a => b ∈ next a) a := by
  constructor
  · rintro ⟨out, runs⟩
    exact runs.acc
  · intro h
    obtain ⟨out, visits⟩ := visits_of_acc h
    obtain ⟨taken, runs, -⟩ := visits.runs d
    exact ⟨taken, runs⟩

/-- Nor in what is taken. -/
theorem Runs.perm {d' : Discipline} (runs : Runs next d l out) (runs' : Runs next d' l out') :
    out.Perm out' := by
  obtain ⟨visited, visits⟩ := visits_of_acc runs.acc
  obtain ⟨taken, htaken, hperm⟩ := visits.runs d
  obtain ⟨taken', htaken', hperm'⟩ := visits.runs d'
  rw [runs.unique htaken, runs'.unique htaken']
  exact hperm.trans hperm'.symm

/-- A stack is taken depth first. -/
theorem runs_stack_iff_visits : Runs next .stack l out ↔ Visits next l out := by
  constructor
  · intro runs
    obtain ⟨visited, visits⟩ := visits_of_acc runs.acc
    exact runs.unique visits.runs_stack ▸ visits
  · exact Visits.runs_stack

/-- A queue is taken breadth first. -/
theorem runs_queue_iff_generations : Runs next .queue l out ↔ Generations next l out := by
  constructor
  · intro runs
    generalize hlength : out.length = n
    induction n using Nat.strongRecOn generalizing l out with
    | ind n ih =>
      cases l with
      | nil =>
        obtain rfl := runs_nil_iff.mp runs
        exact .done
      | cons a l =>
        rw [← List.append_nil (a :: l)] at runs
        obtain ⟨rest, rfl, later⟩ := runs_queue_append_iff.mp runs
        refine .generation (ih rest.length ?_ later rfl)
        rw [← hlength, List.length_append, List.length_cons]
        omega
  · intro generations
    induction generations with
    | done => exact .done
    | @generation l out _ ih =>
      rw [← List.append_nil l]
      exact runs_queue_append_iff.mpr ⟨out, by rw [List.append_nil], ih⟩

/-- Nothing comes of what is on the list: it is taken as it is. -/
theorem runs_of_next_eq_nil (h : ∀ a ∈ l, next a = []) (d : Discipline) : Runs next d l l := by
  induction l with
  | nil => exact .done
  | cons a l ih =>
    refine .take ?_
    rw [h a List.mem_cons_self]
    have rest := ih fun b hb => h b (List.mem_cons_of_mem a hb)
    cases d <;> simpa only [Discipline.push, List.nil_append, List.append_nil] using rest

section Map

variable {β : Type*} {next' : β → List β} {f : α → β}

/-- Renaming what is on the list renames what is taken. -/
theorem Runs.map (runs : Runs next d l out) (h : ∀ a, next' (f a) = (next a).map f) :
    Runs next' d (l.map f) (out.map f) := by
  induction runs with
  | done => exact .done
  | @take a rest out _ ih =>
    refine .take ?_
    rw [h]
    cases d <;> simpa only [Discipline.push, List.map_append] using ih

theorem exists_runs_map_iff {d' : Discipline} (h : ∀ a, next' (f a) = (next a).map f) :
    (∃ out, Runs next d l out) ↔ ∃ out, Runs next' d' (l.map f) out := by
  constructor
  · rintro ⟨out, runs⟩
    exact (runs_iff_acc next' d' _).mpr (runs.map h).acc
  · rintro ⟨out, runs⟩
    refine (runs_iff_acc next d l).mpr fun a ha => ?_
    have acc := InvImage.accessible f (runs.acc (f a) (List.mem_map_of_mem ha))
    refine Subrelation.accessible ?_ acc
    intro b c hb
    rw [InvImage, h]
    exact List.mem_map_of_mem hb

end Map

section Implements

variable {σ : Type*}

/-- A program that goes on until its worklist is empty. -/
inductive Finishes (step : σ → Option σ) : σ → σ → Prop
  | done {s : σ} (h : step s = none) : Finishes step s s
  | step {s t u : σ} (h : step s = some t) (finishes : Finishes step t u) : Finishes step s u

/-- A step leaves worklist and record alone and lowers the rank, or takes the first element. -/
inductive Moves (next : α → List α) (d : Discipline) (work taken : σ → List α) (rank : σ → Nat)
    (s t : σ) : Prop
  | idle (hwork : work t = work s) (htaken : taken t = taken s) (hrank : rank t < rank s)
  | takes {a : α} {rest : List α} (hfirst : work s = a :: rest)
      (hwork : work t = d.push (next a) rest) (htaken : taken t = taken s ++ [a])

/-- From a state with `I` the program stops, and its worklist is empty, or makes such a step. -/
def Implements (next : α → List α) (d : Discipline) (step : σ → Option σ) (I : σ → Prop)
    (work taken : σ → List α) (rank : σ → Nat) : Prop :=
  ∀ s, I s → (step s = none ∧ work s = []) ∨
    ∃ t, step s = some t ∧ I t ∧ Moves next d work taken rank s t

variable {step : σ → Option σ} {I : σ → Prop} {work taken : σ → List α} {rank : σ → Nat}

theorem Implements.runs_of_finishes (implements : Implements next d step I work taken rank)
    {s t : σ} (hs : I s) (finishes : Finishes step s t) :
    ∃ out, Runs next d (work s) out ∧ taken t = taken s ++ out := by
  induction finishes with
  | @done s hnone =>
    refine ⟨[], ?_, (List.append_nil _).symm⟩
    obtain ⟨-, hwork⟩ | ⟨t, hsome, -⟩ := implements s hs
    · rw [hwork]
      exact .done
    · cases hnone.symm.trans hsome
  | @step s t u hsome _ ih =>
    obtain ⟨hnone, -⟩ | ⟨t', hsome', ht, moves⟩ := implements s hs
    · cases hnone.symm.trans hsome
    · obtain rfl := Option.some.inj (hsome.symm.trans hsome')
      obtain ⟨out, runs, htaken⟩ := ih ht
      cases moves with
      | idle hwork hsame _ => exact ⟨out, hwork ▸ runs, hsame ▸ htaken⟩
      | @takes a rest hfirst hwork hrecord =>
        refine ⟨a :: out, hfirst ▸ .take (hwork ▸ runs), ?_⟩
        rw [htaken, hrecord, List.append_assoc, List.singleton_append]

/-- A program whose next taken element brings it to the end does get there. -/
theorem Implements.finishes_of_next (implements : Implements next d step I work taken rank)
    {s : σ} (hs : I s) (h : ∀ t a rest, work s = a :: rest → I t →
      work t = d.push (next a) rest → ∃ u, Finishes step t u) :
    ∃ u, Finishes step s u := by
  generalize hrank : rank s = n
  induction n using Nat.strongRecOn generalizing s with
  | ind n ih =>
    obtain ⟨hnone, -⟩ | ⟨t, hsome, ht, moves⟩ := implements s hs
    · exact ⟨s, .done hnone⟩
    · have finishes : ∃ u, Finishes step t u := by
        cases moves with
        | idle hwork _ hlt =>
          exact ih (rank t) (hrank ▸ hlt) ht
            (fun t' a rest hfirst => h t' a rest (hwork ▸ hfirst)) rfl
        | takes hfirst hwork _ => exact h t _ _ hfirst ht hwork
      obtain ⟨u, finishes⟩ := finishes
      exact ⟨u, .step hsome finishes⟩

theorem Implements.finishes_of_runs (implements : Implements next d step I work taken rank)
    {s : σ} (hs : I s) {out : List α} (runs : Runs next d (work s) out) :
    ∃ t, Finishes step s t := by
  generalize hlist : work s = l at runs
  induction runs generalizing s with
  | done =>
    apply implements.finishes_of_next hs
    intro _ _ _ hfirst
    cases hlist.symm.trans hfirst
  | take _ ih =>
    apply implements.finishes_of_next hs
    intro t a rest hfirst ht hwork
    obtain ⟨rfl, rfl⟩ := List.cons.inj (hlist.symm.trans hfirst)
    exact ih ht hwork

/-- The program finishes with `out` recorded just when the worklist runs to `out`. -/
theorem Implements.finishes_iff (implements : Implements next d step I work taken rank) {s : σ}
    (hs : I s) {out : List α} :
    (∃ t, Finishes step s t ∧ taken t = taken s ++ out) ↔ Runs next d (work s) out := by
  constructor
  · rintro ⟨t, finishes, htaken⟩
    obtain ⟨out', runs, htaken'⟩ := implements.runs_of_finishes hs finishes
    rwa [List.append_cancel_left (htaken.symm.trans htaken')]
  · intro runs
    obtain ⟨t, finishes⟩ := implements.finishes_of_runs hs runs
    obtain ⟨out', runs', htaken⟩ := implements.runs_of_finishes hs finishes
    exact ⟨t, finishes, runs.unique runs' ▸ htaken⟩

end Implements

end Stalker2D.Worklist
