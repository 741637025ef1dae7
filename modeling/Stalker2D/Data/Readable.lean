import Mathlib.Data.List.Infix
import Mathlib.Logic.Function.Basic

/-!
# Codes that can be read back

An encoder writes a value as a list of symbols, and a text is one code after the other with
nothing to mark where the next begins. `Reads follows encode a` says that the code of `a`
is recognised at the head of every text that goes on with something in `follows`: no other
value could have been written there, and the rest is where it seems to be.

The condition is about one value, so that it can be proved by induction on the value; the
rules put a reader of a compound together from those of its parts. They are about what the
encoders write, and no decoder is needed for them.
-/

namespace Stalker2D

section Codes

variable {α β σ : Type*} {follows follows' ends : List σ → Prop} {encode : α → List σ} {a : α}

def Reads (follows : List σ → Prop) (encode : α → List σ) (a : α) : Prop :=
  ∀ b r s, follows r → follows s → encode a ++ r = encode b ++ s → a = b ∧ r = s

/-- Whatever is written can be read. -/
def Readable (follows : List σ → Prop) (encode : α → List σ) : Prop :=
  ∀ a, Reads follows encode a

theorem Reads.mono (h : Reads follows encode a) (hfollows : ∀ r, follows' r → follows r) :
    Reads follows' encode a :=
  fun b r s hr hs heq => h b r s (hfollows r hr) (hfollows s hs) heq

theorem Readable.injective (h : Readable follows encode) (hnil : follows []) :
    Function.Injective encode := by
  intro a b heq
  refine (h a b [] [] hnil hnil ?_).1
  rw [List.append_nil, List.append_nil, heq]

theorem Reads.comp {f : β → α} {b : β} (h : Reads follows encode (f b))
    (hinj : Function.Injective f) : Reads follows (fun b => encode (f b)) b := by
  intro c r s hr hs heq
  obtain ⟨hvalue, hrest⟩ := h (f c) r s hr hs heq
  exact ⟨hinj hvalue, hrest⟩

/-- A decoder that stops where the code does. -/
theorem Readable.of_decode {decode : List σ → Option (α × List σ)}
    (h : ∀ a r, follows r → decode (encode a ++ r) = some (a, r)) : Readable follows encode := by
  intro a b r s hr hs heq
  have hread : some (a, r) = some (b, s) := by rw [← h a r hr, heq, h b s hs]
  exact Prod.mk.inj (Option.some.inj hread)

theorem append_eq_append_of_forall {p : σ → Prop} {l m r s : List σ} (hl : ∀ c ∈ l, p c)
    (hm : ∀ c ∈ m, p c) (hr : ∀ c ∈ r.head?, ¬p c) (hs : ∀ c ∈ s.head?, ¬p c)
    (heq : l ++ r = m ++ s) : l = m ∧ r = s := by
  induction l generalizing m with
  | nil =>
    cases m with
    | nil => exact ⟨rfl, heq⟩
    | cons d m =>
      rw [List.nil_append, List.cons_append] at heq
      exact absurd (hm d List.mem_cons_self) (hr d (by rw [heq]; rfl))
  | cons c l ih =>
    cases m with
    | nil =>
      rw [List.nil_append, List.cons_append] at heq
      exact absurd (hl c List.mem_cons_self) (hs c (by rw [← heq]; rfl))
    | cons d m =>
      obtain ⟨rfl, hrest⟩ := List.cons.inj heq
      obtain ⟨rfl, rfl⟩ := ih (fun c hc => hl c (List.mem_cons_of_mem _ hc))
        (fun c hc => hm c (List.mem_cons_of_mem _ hc)) hrest
      exact ⟨rfl, rfl⟩

/-- A code that ends with the first symbol it could not contain. -/
theorem Readable.of_forall {p : σ → Prop} (hinj : Function.Injective encode)
    (hall : ∀ a, ∀ c ∈ encode a, p c) : Readable (fun r => ∀ c ∈ r.head?, ¬p c) encode := by
  intro a b r s hr hs heq
  obtain ⟨hcode, hrest⟩ := append_eq_append_of_forall (hall a) (hall b) hr hs heq
  exact ⟨hinj hcode, hrest⟩

/-- One code after the other. -/
theorem Reads.append {code : β → List σ} {b : β} (h : Reads follows encode a)
    (hcode : Reads follows' code b) (hnext : ∀ b r, follows' r → follows (code b ++ r)) :
    Reads follows' (fun p : α × β => encode p.1 ++ code p.2) (a, b) := by
  intro p r s hr hs heq
  rw [List.append_assoc, List.append_assoc] at heq
  obtain ⟨ha, hrest⟩ := h p.1 _ _ (hnext b r hr) (hnext p.2 s hs) heq
  obtain ⟨hb, hdone⟩ := hcode p.2 r s hr hs hrest
  exact ⟨Prod.ext ha hb, hdone⟩

/-- A code between two brackets ends with the closing one. -/
theorem Reads.between {closing : σ} (opening : σ)
    (h : Reads (fun r => r.head? = some closing) encode a) :
    Reads (fun _ => True) (fun a => opening :: (encode a ++ [closing])) a := by
  intro b r s _ _ heq
  simp only [List.cons_append, List.append_assoc, List.nil_append] at heq
  obtain ⟨rfl, hrest⟩ := h b _ _ rfl rfl (List.cons.inj heq).2
  exact ⟨rfl, (List.cons.inj hrest).2⟩

/-- A value is left out where it is the default one, and marked where it is not. -/
theorem Readable.optional [DecidableEq α] {mark : List σ} (h : Readable follows encode)
    (default : α) :
    Readable (fun r => follows r ∧ ¬mark <+: r)
      fun a => if a = default then [] else mark ++ encode a := by
  intro a b r s hr hs heq
  beta_reduce at heq
  by_cases ha : a = default <;> by_cases hb : b = default
  · rw [if_pos ha, if_pos hb] at heq
    exact ⟨ha.trans hb.symm, heq⟩
  · rw [if_pos ha, if_neg hb, List.nil_append, List.append_assoc] at heq
    exact absurd ⟨_, heq.symm⟩ hr.2
  · rw [if_neg ha, if_pos hb, List.nil_append, List.append_assoc] at heq
    exact absurd ⟨_, heq⟩ hs.2
  · rw [if_neg ha, if_neg hb, List.append_assoc, List.append_assoc, List.append_cancel_left_eq]
      at heq
    exact h a b r s hr.1 hs.1 heq

end Codes

section Lists

variable {α σ : Type*} {follows ends : List σ → Prop} {encode : α → List σ}

/-- The codes of a list, up to something that cannot be one more code. -/
theorem Reads.flatMap {l : List α} (items : ∀ a ∈ l, Reads follows encode a)
    (hitem : ∀ a r, follows (encode a ++ r)) (hend : ∀ r, ends r → follows r)
    (hends : ∀ a r s, ends r → r ≠ encode a ++ s) :
    Reads ends (fun l : List α => l.flatMap encode) l := by
  have hnext : ∀ (m : List α) r, ends r → follows (m.flatMap encode ++ r) := by
    intro m r hr
    cases m with
    | nil => exact hend r hr
    | cons b m =>
      rw [List.flatMap_cons, List.append_assoc]
      exact hitem b _
  induction l with
  | nil =>
    intro m r s hr hs heq
    cases m with
    | nil => exact ⟨rfl, heq⟩
    | cons b m =>
      simp only [List.flatMap_nil, List.nil_append, List.flatMap_cons, List.append_assoc] at heq
      exact absurd heq (hends b r _ hr)
  | cons a l ih =>
    intro m r s hr hs heq
    cases m with
    | nil =>
      simp only [List.flatMap_nil, List.nil_append, List.flatMap_cons, List.append_assoc] at heq
      exact absurd heq.symm (hends a s _ hs)
    | cons b m =>
      simp only [List.flatMap_cons, List.append_assoc] at heq
      obtain ⟨rfl, hrest⟩ := items a List.mem_cons_self b _ _ (hnext l r hr) (hnext m s hs) heq
      obtain ⟨rfl, rfl⟩ := ih (fun a ha => items a (List.mem_cons_of_mem _ ha)) m r s hr hs hrest
      exact ⟨rfl, rfl⟩

theorem intercalate_cons_eq (separator : σ) (code : List σ) (codes : List (List σ)) :
    [separator].intercalate (code :: codes) = code ++ codes.flatMap (separator :: ·) := by
  induction codes generalizing code with
  | nil => rw [List.intercalate_singleton, List.flatMap_nil, List.append_nil]
  | cons next codes ih =>
    rw [List.intercalate_cons_cons, ih, List.flatMap_cons, List.append_assoc,
      List.singleton_append, List.cons_append]

/-- A list with separators: it ends with what is neither one nor the beginning of a code. -/
theorem Reads.intercalate {separator : σ} {l : List α} (items : ∀ a ∈ l, Reads follows encode a)
    (hsep : ∀ r, follows (separator :: r)) (hend : ∀ r, ends r → follows r)
    (hclose : ∀ r, ends r → r.head? ≠ some separator)
    (hends : ∀ a r s, ends r → r ≠ encode a ++ s) :
    Reads ends (fun l : List α => [separator].intercalate (l.map encode)) l := by
  have hmarked : ∀ l : List α, (l.map encode).flatMap (separator :: ·) =
      l.flatMap fun a => separator :: encode a := fun l => List.flatMap_map _ _ l
  have hnext : ∀ (m : List α) r, ends r →
      follows (m.flatMap (fun a => separator :: encode a) ++ r) := by
    intro m r hr
    cases m with
    | nil => exact hend r hr
    | cons b m => exact hsep _
  intro m r s hr hs heq
  cases l with
  | nil =>
    cases m with
    | nil => exact ⟨rfl, heq⟩
    | cons b m =>
      simp only [List.map_nil, List.intercalate_nil, List.nil_append, List.map_cons,
        intercalate_cons_eq, List.append_assoc] at heq
      exact absurd heq (hends b r _ hr)
  | cons a l =>
    cases m with
    | nil =>
      simp only [List.map_nil, List.intercalate_nil, List.nil_append, List.map_cons,
        intercalate_cons_eq, List.append_assoc] at heq
      exact absurd heq.symm (hends a s _ hs)
    | cons b m =>
      simp only [List.map_cons, intercalate_cons_eq, List.append_assoc, hmarked] at heq
      obtain ⟨rfl, hrest⟩ := items a List.mem_cons_self b _ _ (hnext l r hr) (hnext m s hs) heq
      -- what follows the first element is a list of marked ones
      have marked : Reads ends (fun l : List α => l.flatMap fun a => separator :: encode a) l := by
        refine Reads.flatMap ?_ (fun a r => hsep _) hend
          (fun a r s hr h => hclose r hr (by rw [h]; rfl))
        exact fun a ha b r s hr hs heq =>
          items a (List.mem_cons_of_mem _ ha) b r s hr hs (List.cons.inj heq).2
      obtain ⟨rfl, rfl⟩ := marked m r s hr hs hrest
      exact ⟨rfl, rfl⟩

end Lists

end Stalker2D
