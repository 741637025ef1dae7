import Mathlib.Data.List.Forall2

/-!
# Lists that record a run

What a run has made so far stands in lists: places are given out at the end and are never
taken back. These are the facts about such lists that the machines share.
-/

namespace Stalker2D

variable {α β : Type*}

/-- One more place: an element is an old one or the new one. -/
theorem getElem?_concat_cases {l : List α} {a b : α} {i : Nat} (h : (l ++ [a])[i]? = some b) :
    l[i]? = some b ∨ i = l.length ∧ b = a := by
  rw [List.getElem?_append] at h
  split at h
  · exact .inl h
  next hge =>
    obtain ⟨hlt, rfl⟩ := List.getElem?_eq_some_iff.mp h
    rw [List.length_singleton] at hlt
    exact .inr ⟨by omega, by simp⟩

/-- A place that was written to has what was written, the others what they had. -/
theorem getElem?_set_cases {l : List α} {a b : α} {i k : Nat} (h : (l.set i a)[k]? = some b) :
    k = i ∧ b = a ∨ k ≠ i ∧ l[k]? = some b := by
  rw [List.getElem?_set] at h
  split at h
  next hik =>
    split at h
    · exact .inl ⟨hik.symm, (Option.some.inj h).symm⟩
    · cases h
  next hik => exact .inr ⟨Ne.symm hik, h⟩

/-- Nothing changes when a place is given what it has. -/
theorem set_of_getElem? {l : List α} {a : α} {i : Nat} (h : l[i]? = some a) : l.set i a = l := by
  obtain ⟨hlt, rfl⟩ := List.getElem?_eq_some_iff.mp h
  exact List.set_getElem_self hlt

/-- One more entry of a record, read for what its entries with `p` say. -/
theorem map_filter_concat (l : List α) (a : α) (f : α → β) (p : α → Prop) [DecidablePred p] :
    ((l ++ [a]).filter p).map f = (l.filter p).map f ++ if p a then [f a] else [] := by
  rw [List.filter_append, List.map_append]
  congr 1
  by_cases h : p a
  · rw [if_pos h, List.filter_singleton, decide_eq_true h]
    rfl
  · rw [if_neg h, List.filter_singleton, decide_eq_false h]
    rfl

/-- Writing to one place of a list that has no other element with `p`. -/
theorem filter_set_of_single {p : α → Bool} {l : List α} {i : Nat} {old : α}
    (h : l[i]? = some old) (hold : p old) (single : (l.filter p).length ≤ 1) (new : α) :
    l.filter p = [old] ∧ (l.set i new).filter p = [new].filter p := by
  obtain ⟨hlt, hget⟩ := List.getElem?_eq_some_iff.mp h
  have hsplit : l = l.take i ++ old :: l.drop (i + 1) := by
    rw [← hget, List.getElem_cons_drop, List.take_append_drop]
  have hfilter : l.filter p = (l.take i).filter p ++ old :: (l.drop (i + 1)).filter p := by
    conv_lhs => rw [hsplit]
    rw [List.filter_append, List.filter_cons_of_pos hold]
  rw [hfilter, List.length_append, List.length_cons] at single
  have hbefore : (l.take i).filter p = [] := List.eq_nil_of_length_eq_zero (by omega)
  have hafter : (l.drop (i + 1)).filter p = [] := List.eq_nil_of_length_eq_zero (by omega)
  constructor
  · rw [hfilter, hbefore, hafter, List.nil_append]
  · rw [List.set_eq_take_append_cons_drop, if_pos hlt, List.filter_append, hbefore,
      List.nil_append, List.filter_cons, List.filter_cons, hafter, List.filter_nil]

/-- A part of what is on the right belongs to a part of what is on the left. -/
theorem exists_forall₂_of_sublist {R : α → β → Prop} {as : List α} {bs bs' : List β}
    (h : List.Forall₂ R as bs) (hsub : bs'.Sublist bs) :
    ∃ as', as'.Sublist as ∧ List.Forall₂ R as' bs' := by
  induction hsub generalizing as with
  | slnil => exact ⟨as, .refl _, h⟩
  | cons b _ ih =>
    cases h with
    | cons hr h =>
      obtain ⟨as', hsub, h'⟩ := ih h
      exact ⟨as', hsub.cons _, h'⟩
  | cons_cons b _ ih =>
    cases h with
    | cons hr h =>
      obtain ⟨as', hsub, h'⟩ := ih h
      exact ⟨_ :: as', hsub.cons_cons _, .cons hr h'⟩

/-- What is left of a part once its beginning has been read. -/
theorem drop_length_of_append {l before after : List α} (h : l <+: before ++ after) :
    l.drop before.length <+: after := by
  obtain ⟨rest, hrest⟩ := h
  by_cases hle : before.length ≤ l.length
  · refine ⟨rest, ?_⟩
    rw [← List.drop_append_of_le_length hle, hrest, List.drop_left]
  · rw [List.drop_of_length_le (Nat.le_of_not_le hle)]
    exact List.nil_prefix

end Stalker2D
