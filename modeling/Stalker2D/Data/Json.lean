import Mathlib.Algebra.GroupWithZero.Nat
import Mathlib.Algebra.Order.BigOperators.Group.List
import Mathlib.Algebra.Order.Group.Nat
import Mathlib.Data.List.Induction
import Mathlib.Data.List.Sort

/-!
# JSON values and their compact text

The part of a JSON library that the world snapshot uses: an object keeps its
fields ordered by key, and `dump` writes without any white space. Strings are
escaped as the library does it: the two-character escapes, `\u00xx` for the other
control characters, every other character as it is.

The lemmas bound the number of bytes `dump` writes; they do not depend on the order the
fields of an object end up in.
-/

namespace Stalker2D

inductive Json
  | number (value : Int)
  | string (value : String)
  | array (elements : List Json)
  | object (fields : List (String × Json))

namespace Json

/-- An object from its pairs, in any order. -/
def ofPairs (pairs : List (String × Json)) : Json :=
  .object (pairs.insertionSort fun a b => a.1 ≤ b.1)

def hexDigit (n : Nat) : Char :=
  if n < 10 then Char.ofNat (48 + n) else Char.ofNat (87 + n)

def escapeChar (c : Char) : String :=
  match c.toNat with
  | 8 => "\\b"
  | 9 => "\\t"
  | 10 => "\\n"
  | 12 => "\\f"
  | 13 => "\\r"
  | 34 => "\\\""
  | 92 => "\\\\"
  | n => if n < 32 then "\\u00" ++ String.ofList [hexDigit (n / 16), hexDigit (n % 16)]
    else String.ofList [c]

def dumpString (s : String) : String :=
  "\"" ++ String.join (s.toList.map escapeChar) ++ "\""

mutual

def dump : Json → String
  | .number value => toString value
  | .string value => dumpString value
  | .array elements => "[" ++ ",".intercalate (dumpElements elements) ++ "]"
  | .object fields => "\x7b" ++ ",".intercalate (dumpFields fields) ++ "\x7d"

def dumpElements : List Json → List String
  | [] => []
  | element :: elements => dump element :: dumpElements elements

def dumpFields : List (String × Json) → List String
  | [] => []
  | (key, value) :: fields => (dumpString key ++ ":" ++ dump value) :: dumpFields fields

end

theorem utf8Size_digitChar {n : Nat} (h : n < 10) : (Nat.digitChar n).utf8Size = 1 := by
  revert n
  decide

/-- A digit is one byte. -/
theorem utf8ByteSize_repr_le {k n : Nat} (h : n < 10 ^ (k + 1)) : n.repr.utf8ByteSize ≤ k + 1 := by
  induction k generalizing n with
  | zero => rw [Nat.repr_of_lt h, String.utf8ByteSize_singleton, utf8Size_digitChar h, zero_add]
  | succ k ih =>
    by_cases hn : n < 10
    · rw [Nat.repr_of_lt hn, String.utf8ByteSize_singleton, utf8Size_digitChar hn]
      omega
    · have hlast : n % 10 < 10 := Nat.mod_lt n (by decide)
      have hrest : n / 10 < 10 ^ (k + 1) := Nat.div_lt_of_lt_mul (by rwa [Nat.mul_comm])
      have hsize := ih hrest
      rw [Nat.repr_of_ge (Nat.le_of_not_lt hn), String.utf8ByteSize_append,
        String.utf8ByteSize_singleton, utf8Size_digitChar hlast]
      omega

theorem size_dump_number_le {k : Nat} {value : Int} (h : value.natAbs < 10 ^ (k + 1)) :
    (dump (.number value)).utf8ByteSize ≤ k + 2 := by
  rw [dump, Int.toString_eq_repr, Int.repr_eq_if]
  split
  next hpos =>
    have hsize : value.toNat.repr.utf8ByteSize ≤ k + 1 := utf8ByteSize_repr_le (by omega)
    omega
  next hneg =>
    have hsize : (-value).toNat.repr.utf8ByteSize ≤ k + 1 := utf8ByteSize_repr_le (by omega)
    have hsign : ("-" : String).utf8ByteSize = 1 := by decide
    rw [String.utf8ByteSize_append]
    omega

theorem size_intercalate_le (texts : List String) :
    (",".intercalate texts).utf8ByteSize ≤ (texts.map (·.utf8ByteSize + 1)).sum := by
  have hcomma : ("," : String).utf8ByteSize = 1 := by decide
  induction texts with
  | nil => exact Nat.le_refl 0
  | cons text texts ih =>
    cases texts with
    | nil =>
      rw [String.intercalate_singleton, List.map_cons, List.sum_cons]
      omega
    | cons next texts =>
      rw [String.intercalate_cons_cons, String.utf8ByteSize_append, String.utf8ByteSize_append,
        List.map_cons, List.sum_cons]
      omega

theorem dumpElements_eq_map (elements : List Json) : dumpElements elements = elements.map dump := by
  induction elements with
  | nil => rw [dumpElements, List.map_nil]
  | cons element elements ih => rw [dumpElements, List.map_cons, ih]

theorem dumpFields_eq_map (fields : List (String × Json)) :
    dumpFields fields = fields.map fun field => dumpString field.1 ++ ":" ++ dump field.2 := by
  induction fields with
  | nil => rw [dumpFields, List.map_nil]
  | cons field fields ih => rw [dumpFields, List.map_cons, ih]

/-- An array of elements of at most `n` bytes each. -/
theorem size_dump_array_le {n : Nat} {elements : List Json}
    (h : ∀ element ∈ elements, (dump element).utf8ByteSize ≤ n) :
    (dump (.array elements)).utf8ByteSize ≤ elements.length * (n + 1) + 2 := by
  have hinner := size_intercalate_le (elements.map dump)
  have hsum : ((elements.map dump).map (·.utf8ByteSize + 1)).sum ≤ elements.length * (n + 1) := by
    rw [List.map_map]
    refine (List.sum_le_card_nsmul _ (n + 1) ?_).trans_eq (by simp)
    intro size hsize
    obtain ⟨element, helement, rfl⟩ := List.mem_map.mp hsize
    exact Nat.succ_le_succ (h element helement)
  have hopen : ("[" : String).utf8ByteSize = 1 := by decide
  have hclose : ("]" : String).utf8ByteSize = 1 := by decide
  rw [dump, dumpElements_eq_map, String.utf8ByteSize_append, String.utf8ByteSize_append]
  omega

/-- The bytes of a field, its colon and a comma. -/
def fieldSize (field : String × Json) : Nat :=
  (dumpString field.1).utf8ByteSize + (dump field.2).utf8ByteSize + 2

theorem size_dump_ofPairs_le (pairs : List (String × Json)) :
    (dump (ofPairs pairs)).utf8ByteSize ≤ (pairs.map fieldSize).sum + 2 := by
  let fields := pairs.insertionSort fun a b => a.1 ≤ b.1
  have hinner := size_intercalate_le (dumpFields fields)
  have hcolon : (":" : String).utf8ByteSize = 1 := by decide
  have hsizes : (dumpFields fields).map (·.utf8ByteSize + 1) = fields.map fieldSize := by
    rw [dumpFields_eq_map, List.map_map]
    refine List.map_congr_left fun field _ => ?_
    simp only [Function.comp_apply, String.utf8ByteSize_append, fieldSize, hcolon]
    omega
  have hsum : (fields.map fieldSize).sum = (pairs.map fieldSize).sum :=
    ((List.perm_insertionSort _ pairs).map fieldSize).sum_nat
  have hopen : ("\x7b" : String).utf8ByteSize = 1 := by decide
  have hclose : ("\x7d" : String).utf8ByteSize = 1 := by decide
  rw [hsizes, hsum] at hinner
  rw [ofPairs, dump, String.utf8ByteSize_append, String.utf8ByteSize_append, hopen, hclose]
  show 1 + (",".intercalate (dumpFields fields)).utf8ByteSize + 1 ≤ _
  omega

end Json

end Stalker2D
