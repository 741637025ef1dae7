import Mathlib.Algebra.Group.Nat.Defs
import Stalker2D.Data.Readable
import Stalker2D.Data.Wire

/-!
# Fields can be read back

Fields come one after the other with nothing between them. A field that may be left out ends
where something else than its own tag begins; the last one ends with the message.
-/

namespace Stalker2D.Wire

theorem groups_inj {n v w : Nat} {r s : List UInt8} (hv : v < 128 ^ n) (hw : w < 128 ^ n)
    (heq : groups n v ++ r = groups n w ++ s) : v = w ∧ r = s := by
  induction n generalizing v w with
  | zero => exact ⟨by omega, heq⟩
  | succ n ih =>
    have low : ∀ {x y : Nat}, x < 256 → y < 256 → UInt8.ofNat x = UInt8.ofNat y → x = y := by
      intro x y hx hy h
      rw [← UInt8.toNat_ofNat_of_lt' hx, h, UInt8.toNat_ofNat_of_lt' hy]
    rw [pow_succ] at hv hw
    simp only [groups] at heq
    -- the high bit of the first byte tells whether another one follows
    split at heq <;> split at heq
    next hvs hws =>
      obtain ⟨hbyte, hrest⟩ := List.cons.inj heq
      exact ⟨low (by omega) (by omega) hbyte, hrest⟩
    next hvs hws =>
      have hbyte := low (by omega) (by omega) (List.cons.inj heq).1
      omega
    next hvs hws =>
      have hbyte := low (by omega) (by omega) (List.cons.inj heq).1
      omega
    next hvs hws =>
      obtain ⟨hbyte, hrest⟩ := List.cons.inj heq
      have hmod := low (by omega) (by omega) hbyte
      obtain ⟨hdiv, hdone⟩ := ih (by omega) (by omega) hrest
      exact ⟨by omega, hdone⟩

theorem readable_varint : Readable (fun _ => True) varint := by
  intro v w r s _ _ heq
  have bound : ∀ value : UInt64, value.toNat < 128 ^ 10 :=
    fun value => value.toNat_lt.trans (by decide)
  obtain ⟨hvalue, hrest⟩ := groups_inj (bound v) (bound w) heq
  exact ⟨UInt64.toNat_inj.mp hvalue, hrest⟩

theorem tag_ne_nil (field wireType : Nat) : tag field wireType ≠ [] :=
  List.ne_nil_of_length_pos (length_varint_pos _)

theorem not_tag_prefix {field wireType : Nat} {l : List UInt8}
    (h : l.head? ≠ (tag field wireType).head?) : ¬tag field wireType <+: l := by
  rintro ⟨rest, rfl⟩
  exact h (List.head?_append_of_ne_nil _ (tag_ne_nil field wireType))

theorem readable_uint64Field (field : Nat) :
    Readable (fun r => ¬tag field 0 <+: r) (uint64Field field) := by
  intro value
  exact (readable_varint.optional 0 value).mono fun _ h => ⟨trivial, h⟩

/-- The numbers an `int32` holds. -/
def IsInt32 (value : Int) : Prop := -2147483648 ≤ value ∧ value < 2147483648

theorem ofInt_inj {v w : Int} (hv : IsInt32 v) (hw : IsInt32 w)
    (h : UInt64.ofInt v = UInt64.ofInt w) : v = w := by
  unfold IsInt32 at hv hw
  have toNat : ∀ x : Int, ((UInt64.ofInt x).toNat : Int) = x % 2 ^ 64 := by
    intro x
    have hlt : (x % 2 ^ 64).toNat < 2 ^ 64 := by omega
    rw [UInt64.ofInt, UInt64.toNat_ofNat_of_lt' hlt]
    omega
  have hmod := toNat v
  rw [h, toNat w] at hmod
  omega

theorem int32Field_inj {field : Nat} {v w : Int} {r s : List UInt8} (hv : IsInt32 v)
    (hw : IsInt32 w) (hr : ¬tag field 0 <+: r) (hs : ¬tag field 0 <+: s)
    (heq : int32Field field v ++ r = int32Field field w ++ s) : v = w ∧ r = s := by
  obtain ⟨hvalue, hrest⟩ := readable_uint64Field field _ _ r s hr hs heq
  exact ⟨ofInt_inj hv hw hvalue, hrest⟩

theorem lengthDelimited_injective (field : Nat) : Function.Injective (lengthDelimited field) := by
  intro p q heq
  simp only [lengthDelimited, List.append_assoc, List.append_cancel_left_eq] at heq
  exact (readable_varint _ _ p q trivial trivial heq).2

theorem stringField_injective (field : Nat) : Function.Injective (stringField field) := by
  have pos : ∀ payload, lengthDelimited field payload ≠ [] :=
    fun payload => List.ne_nil_of_length_pos (length_lengthDelimited_pos field payload)
  intro v w heq
  simp only [stringField] at heq
  split at heq <;> split at heq
  next hv hw => exact hv.trans hw.symm
  next => exact absurd heq.symm (pos _)
  next => exact absurd heq (pos _)
  next =>
    have hbytes := Array.toList_inj.mp (lengthDelimited_injective field heq)
    exact String.toByteArray_inj.mp (ByteArray.ext hbytes)

section Heads

theorem head?_uint64Field_append (field : Nat) (value : UInt64) (r : List UInt8) :
    (uint64Field field value ++ r).head? = (tag field 0).head? ∨
      (uint64Field field value ++ r).head? = r.head? := by
  by_cases h : value = 0
  · exact .inr (by rw [uint64Field, if_pos h, List.nil_append])
  · refine .inl ?_
    rw [uint64Field, if_neg h, List.append_assoc,
      List.head?_append_of_ne_nil _ (tag_ne_nil field 0)]

theorem head?_lengthDelimited (field : Nat) (payload : List UInt8) :
    (lengthDelimited field payload).head? = (tag field 2).head? := by
  rw [lengthDelimited, List.append_assoc, List.head?_append_of_ne_nil _ (tag_ne_nil field 2)]

theorem head?_stringField (field : Nat) (value : String) :
    (stringField field value).head? = (tag field 2).head? ∨
      (stringField field value).head? = none := by
  by_cases h : value = ""
  · exact .inr (by rw [stringField, if_pos h, List.head?_nil])
  · exact .inl (by rw [stringField, if_neg h, head?_lengthDelimited])

end Heads

end Stalker2D.Wire
