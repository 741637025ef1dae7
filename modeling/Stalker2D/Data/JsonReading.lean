import Stalker2D.Data.Json
import Stalker2D.Data.Readable

/-!
# JSON text can be read back

The text `dump` writes determines the value, wherever it stands: what may come after a value is
anything but one more character of a number.
-/

namespace Stalker2D.Json

section Strings

def hexValue (c : Char) : Nat :=
  if c.toNat < 58 then c.toNat - 48 else c.toNat - 87

/-- The character at the head of the rest of a string. -/
def unescape : List Char → Option (Char × List Char)
  | '\\' :: 'b' :: r => some (Char.ofNat 8, r)
  | '\\' :: 't' :: r => some (Char.ofNat 9, r)
  | '\\' :: 'n' :: r => some (Char.ofNat 10, r)
  | '\\' :: 'f' :: r => some (Char.ofNat 12, r)
  | '\\' :: 'r' :: r => some (Char.ofNat 13, r)
  | '\\' :: 'u' :: '0' :: '0' :: a :: b :: r =>
    some (Char.ofNat (16 * hexValue a + hexValue b), r)
  | '\\' :: c :: r => some (c, r)
  | c :: r => some (c, r)
  | [] => none

theorem hexValue_hexDigit {n : Nat} (h : n < 16) : hexValue (hexDigit n) = n := by
  revert n
  decide

/-- How `escapeChar` writes a character. -/
theorem escapeChar_cases (c : Char) :
    (∃ d ∈ ['b', 't', 'n', 'f', 'r', '"', '\\'], (escapeChar c).toList = ['\\', d] ∧
        ∀ r, unescape ('\\' :: d :: r) = some (c, r)) ∨
      (c.toNat < 32 ∧ (escapeChar c).toList =
        ['\\', 'u', '0', '0', hexDigit (c.toNat / 16), hexDigit (c.toNat % 16)]) ∨
      (c ≠ '\\' ∧ c ≠ '"' ∧ (escapeChar c).toList = [c]) := by
  have special : ∀ n : Nat, c.toNat = n → c = Char.ofNat n :=
    fun n h => by rw [← h, Char.ofNat_toNat]
  unfold escapeChar
  split
  next h => exact .inl ⟨'b', by decide, rfl, fun r => by rw [special 8 h]; rfl⟩
  next h => exact .inl ⟨'t', by decide, rfl, fun r => by rw [special 9 h]; rfl⟩
  next h => exact .inl ⟨'n', by decide, rfl, fun r => by rw [special 10 h]; rfl⟩
  next h => exact .inl ⟨'f', by decide, rfl, fun r => by rw [special 12 h]; rfl⟩
  next h => exact .inl ⟨'r', by decide, rfl, fun r => by rw [special 13 h]; rfl⟩
  next h => exact .inl ⟨'"', by decide, rfl, fun r => by rw [special 34 h]; rfl⟩
  next h => exact .inl ⟨'\\', by decide, rfl, fun r => by rw [special 92 h]; rfl⟩
  next _ _ _ _ _ hquote hbackslash =>
    right
    split
    next hcontrol =>
      refine .inl ⟨hcontrol, ?_⟩
      rw [String.toList_append, String.toList_ofList, String.toList_ofList]
      rfl
    next =>
      refine .inr ⟨?_, ?_, String.toList_ofList⟩
      · rintro rfl
        exact hbackslash rfl
      · rintro rfl
        exact hquote rfl

theorem unescape_escapeChar (c : Char) (r : List Char) :
    unescape ((escapeChar c).toList ++ r) = some (c, r) := by
  obtain ⟨d, -, htext, hread⟩ | ⟨hcontrol, htext⟩ | ⟨hplain, -, htext⟩ := escapeChar_cases c
  · rw [htext]
    exact hread r
  · rw [htext]
    show some (Char.ofNat (16 * hexValue (hexDigit (c.toNat / 16)) +
      hexValue (hexDigit (c.toNat % 16))), r) = some (c, r)
    rw [hexValue_hexDigit (by omega), hexValue_hexDigit (by omega), Nat.div_add_mod,
      Char.ofNat_toNat]
  · rw [htext, List.singleton_append]
    unfold unescape
    split <;> simp_all

/-- A quote in a string is escaped, so it cannot be taken for the end. -/
theorem quote_not_escaped (c : Char) (r s : List Char) (h : r.head? = some '"') :
    r ≠ (escapeChar c).toList ++ s := by
  rintro rfl
  obtain ⟨d, -, htext, -⟩ | ⟨-, htext⟩ | ⟨-, hplain, htext⟩ := escapeChar_cases c
  · rw [htext] at h
    exact absurd (Option.some.inj h) (by decide)
  · rw [htext] at h
    exact absurd (Option.some.inj h) (by decide)
  · rw [htext] at h
    exact hplain (Option.some.inj h)

theorem toList_dumpString (s : String) :
    (dumpString s).toList =
      '"' :: (s.toList.flatMap (fun c => (escapeChar c).toList) ++ ['"']) := by
  rw [dumpString, String.toList_append, String.toList_append, String.toList_join, List.flatMap_map]
  rfl

theorem readable_dumpString : Readable (fun _ => True) fun s => (dumpString s).toList := by
  intro s
  have escapes : Readable (fun _ => True) fun c => (escapeChar c).toList :=
    .of_decode fun c r _ => unescape_escapeChar c r
  have chars : Reads (fun r => r.head? = some '"')
      (fun l : List Char => l.flatMap fun c => (escapeChar c).toList) s.toList :=
    .flatMap (fun c _ => escapes c) (fun _ _ => trivial) (fun _ _ => trivial) quote_not_escaped
  have quoted : Reads (fun _ => True) (fun l : List Char =>
      '"' :: (l.flatMap (fun c => (escapeChar c).toList) ++ ['"'])) s.toList := chars.between '"'
  simp only [toList_dumpString]
  exact quoted.comp fun _ _ => String.toList_injective

end Strings

section Numbers

/-- The characters of a number. -/
def IsNumeral (c : Char) : Prop := c = '-' ∨ c.isDigit = true

theorem toDigits_injective : Function.Injective (Nat.toDigits 10) := by
  intro m n h
  rw [← Nat.ofDigitChars_ten_toDigits (n := m), h, Nat.ofDigitChars_ten_toDigits]

theorem isDigit_of_mem_toDigits {n : Nat} {c : Char} (h : c ∈ Nat.toDigits 10 n) :
    c.isDigit = true := Nat.isDigit_of_mem_toDigits (by decide) (by decide) h

theorem toList_toString (value : Int) :
    (toString value).toList =
      if value < 0 then '-' :: Nat.toDigits 10 value.natAbs else Nat.toDigits 10 value.natAbs := by
  cases value with
  | ofNat n => exact Nat.toList_repr
  | negSucc n =>
    rw [if_pos (Int.negSucc_lt_zero n)]
    show ("-" ++ (n + 1).repr).toList = _
    rw [String.toList_append, Nat.toList_repr]
    rfl

theorem toString_injective : Function.Injective fun value : Int => (toString value).toList := by
  have sign : ∀ m n : Nat, '-' :: Nat.toDigits 10 m ≠ Nat.toDigits 10 n := by
    intro m n h
    exact absurd (isDigit_of_mem_toDigits (h ▸ List.mem_cons_self)) (by decide)
  intro a b h
  simp only [toList_toString] at h
  split at h <;> split at h
  next ha hb =>
    have habs := toDigits_injective (List.cons.inj h).2
    omega
  next => exact absurd h (sign _ _)
  next => exact absurd h.symm (sign _ _)
  next ha hb =>
    have habs := toDigits_injective h
    omega

theorem isNumeral_of_mem_toString (value : Int) : ∀ c ∈ (toString value).toList, IsNumeral c := by
  intro c hc
  rw [toList_toString] at hc
  split at hc
  · obtain rfl | hdigit := List.mem_cons.mp hc
    · exact .inl rfl
    · exact .inr (isDigit_of_mem_toDigits hdigit)
  · exact .inr (isDigit_of_mem_toDigits hc)

theorem toString_ne_nil (value : Int) : (toString value).toList ≠ [] := by
  rw [toList_toString]
  split
  · exact List.cons_ne_nil _ _
  · exact Nat.toDigits_ne_nil

end Numbers

section Values

/-- What may come after a value. -/
def Terminated (r : List Char) : Prop := ∀ c ∈ r.head?, ¬IsNumeral c

theorem terminated_cons {c : Char} {r : List Char} (h : ¬IsNumeral c) : Terminated (c :: r) := by
  intro d hd
  obtain rfl := Option.some.inj hd
  exact h

theorem terminated_of_head? {c : Char} {r : List Char} (hc : ¬IsNumeral c)
    (h : r.head? = some c) : Terminated r := by
  intro d hd
  obtain rfl := Option.some.inj (h.symm.trans hd)
  exact hc

/-- `value_t`, as far as the snapshot has it. -/
inductive Kind
  | number
  | string
  | array
  | object
  deriving DecidableEq

def kind : Json → Kind
  | .number _ => .number
  | .string _ => .string
  | .array _ => .array
  | .object _ => .object

/-- The kind of the value that begins with a character. -/
def kindOf (c : Char) : Kind :=
  if c = '"' then .string else if c = '[' then .array else if c = '\x7b' then .object else .number

theorem toList_dump_array (elements : List Json) :
    (dump (.array elements)).toList =
      '[' :: ([','].intercalate (elements.map fun element => (dump element).toList) ++ [']']) := by
  rw [dump, dumpElements_eq_map, String.toList_append, String.toList_append,
    String.toList_intercalate, List.map_map]
  rfl

/-- A field. -/
def fieldText (field : String × Json) : List Char :=
  (dumpString field.1).toList ++ ':' :: (dump field.2).toList

theorem toList_dump_object (fields : List (String × Json)) :
    (dump (.object fields)).toList =
      '\x7b' :: ([','].intercalate (fields.map fieldText) ++ ['\x7d']) := by
  have htexts : (dumpFields fields).map String.toList = fields.map fieldText := by
    rw [dumpFields_eq_map, List.map_map]
    refine List.map_congr_left fun field _ => ?_
    rw [Function.comp_apply, String.toList_append, String.toList_append, fieldText,
      List.append_assoc]
    rfl
  rw [dump, String.toList_append, String.toList_append, String.toList_intercalate, htexts]
  rfl

/-- The first character of a text tells the kind of the value. -/
theorem head_dump (json : Json) :
    ∃ c t, (dump json).toList = c :: t ∧ kindOf c = json.kind ∧ c ∉ [',', ']', '\x7d'] := by
  cases json with
  | number value =>
    obtain ⟨c, t, ht⟩ := List.exists_cons_of_ne_nil (toString_ne_nil value)
    have hnumeral : IsNumeral c := isNumeral_of_mem_toString value c (ht ▸ List.mem_cons_self)
    refine ⟨c, t, ht, ?_, ?_⟩
    · unfold kindOf
      split
      next h => exact absurd (h ▸ hnumeral) (by unfold IsNumeral; decide)
      next =>
        split
        next h => exact absurd (h ▸ hnumeral) (by unfold IsNumeral; decide)
        next =>
          split
          next h => exact absurd (h ▸ hnumeral) (by unfold IsNumeral; decide)
          next => rfl
    · intro hmem
      simp only [List.mem_cons, List.not_mem_nil, or_false] at hmem
      obtain rfl | rfl | rfl := hmem <;> exact absurd hnumeral (by unfold IsNumeral; decide)
  | string value => exact ⟨'"', _, toList_dumpString value, rfl, by decide⟩
  | array elements => exact ⟨'[', _, toList_dump_array elements, rfl, by decide⟩
  | object fields => exact ⟨'\x7b', _, toList_dump_object fields, rfl, by decide⟩

/-- The induction over values, their elements and their fields. -/
@[elab_as_elim]
theorem induct {motive : Json → Prop} (number : ∀ value, motive (.number value))
    (string : ∀ value, motive (.string value))
    (array : ∀ elements, (∀ element ∈ elements, motive element) → motive (.array elements))
    (object : ∀ fields, (∀ field ∈ fields, motive field.2) → motive (.object fields))
    (json : Json) : motive json := by
  refine @Json.rec motive (fun elements => ∀ e ∈ elements, motive e)
    (fun fields => ∀ f ∈ fields, motive f.2) (fun f => motive f.2)
    number string array object ?_ ?_ ?_ ?_ ?_ json
  · exact fun _ h => absurd h List.not_mem_nil
  · exact fun e es he hes => List.forall_mem_cons.mpr ⟨he, hes⟩
  · exact fun _ h => absurd h List.not_mem_nil
  · exact fun f fs hf hfs => List.forall_mem_cons.mpr ⟨hf, hfs⟩
  · exact fun _ _ h => h

theorem kind_eq {a b : Json} {r s : List Char}
    (heq : (dump a).toList ++ r = (dump b).toList ++ s) : a.kind = b.kind := by
  obtain ⟨c, t, hc, hkind, -⟩ := head_dump a
  obtain ⟨d, u, hd, hkind', -⟩ := head_dump b
  rw [hc, hd] at heq
  rw [← hkind, ← hkind', (List.cons.inj heq).1]

theorem not_dump_of_head? {c : Char} (hmem : c ∈ [',', ']', '\x7d']) (json : Json)
    (r s : List Char) (h : r.head? = some c) : r ≠ (dump json).toList ++ s := by
  rintro rfl
  obtain ⟨d, t, hd, -, hnot⟩ := head_dump json
  rw [hd] at h
  exact hnot (Option.some.inj h ▸ hmem)

theorem reads_fieldText {field : String × Json}
    (h : Reads Terminated (fun json => (dump json).toList) field.2) :
    Reads Terminated fieldText field := by
  have marked : Reads Terminated (fun json : Json => ':' :: (dump json).toList) field.2 :=
    fun b r s hr hs heq => h b r s hr hs (List.cons.inj heq).2
  exact (readable_dumpString field.1).append marked fun _ _ _ => trivial

theorem not_fieldText_of_head? (field : String × Json) (r s : List Char)
    (h : r.head? = some '\x7d') : r ≠ fieldText field ++ s := by
  rintro rfl
  rw [fieldText, toList_dumpString] at h
  exact absurd (Option.some.inj h) (by decide)

/-- The text of a value determines it, whatever comes after it. -/
theorem reads_dump (json : Json) : Reads Terminated (fun json => (dump json).toList) json := by
  have comma : ¬IsNumeral ',' := by unfold IsNumeral; decide
  have bracket : ¬IsNumeral ']' := by unfold IsNumeral; decide
  have brace : ¬IsNumeral '\x7d' := by unfold IsNumeral; decide
  induction json using induct with
  | number value =>
    intro b r s hr hs heq
    cases b with
    | number value' =>
      have numbers := Readable.of_forall toString_injective isNumeral_of_mem_toString
      obtain ⟨rfl, hrest⟩ := numbers value value' r s hr hs heq
      exact ⟨rfl, hrest⟩
    | string _ => exact nomatch kind_eq heq
    | array _ => exact nomatch kind_eq heq
    | object _ => exact nomatch kind_eq heq
  | string value =>
    intro b r s _ _ heq
    cases b with
    | string value' =>
      obtain ⟨rfl, hrest⟩ := readable_dumpString value value' r s trivial trivial heq
      exact ⟨rfl, hrest⟩
    | number _ => exact nomatch kind_eq heq
    | array _ => exact nomatch kind_eq heq
    | object _ => exact nomatch kind_eq heq
  | array elements ih =>
    intro b r s _ _ heq
    cases b with
    | array elements' =>
      have list : Reads (fun r => r.head? = some ']') (fun elements : List Json =>
          [','].intercalate (elements.map fun element => (dump element).toList)) elements :=
        .intercalate ih (fun _ => terminated_cons comma) (fun _ => terminated_of_head? bracket)
          (fun r hr h => absurd (hr.symm.trans h) (by decide)) (not_dump_of_head? (by decide))
      simp only [toList_dump_array] at heq
      obtain ⟨rfl, hrest⟩ := list.between '[' elements' r s trivial trivial heq
      exact ⟨rfl, hrest⟩
    | number _ => exact nomatch kind_eq heq
    | string _ => exact nomatch kind_eq heq
    | object _ => exact nomatch kind_eq heq
  | object fields ih =>
    intro b r s _ _ heq
    cases b with
    | object fields' =>
      have items : ∀ field ∈ fields, Reads Terminated fieldText field :=
        fun field hmem => reads_fieldText (ih field hmem)
      have list : Reads (fun r => r.head? = some '\x7d') (fun fields : List (String × Json) =>
          [','].intercalate (fields.map fieldText)) fields :=
        .intercalate items (fun _ => terminated_cons comma) (fun _ => terminated_of_head? brace)
          (fun r hr h => absurd (hr.symm.trans h) (by decide)) not_fieldText_of_head?
      simp only [toList_dump_object] at heq
      obtain ⟨rfl, hrest⟩ := list.between '\x7b' fields' r s trivial trivial heq
      exact ⟨rfl, hrest⟩
    | number _ => exact nomatch kind_eq heq
    | string _ => exact nomatch kind_eq heq
    | array _ => exact nomatch kind_eq heq

theorem dump_injective : Function.Injective dump := by
  intro a b h
  have nothing : Terminated [] := fun c hc => nomatch hc
  exact (reads_dump a b [] [] nothing nothing (congrArg (fun s => s.toList ++ []) h)).1

/-- The fields of an object, whatever order they were given in. -/
theorem mem_of_ofPairs_eq {pairs pairs' : List (String × Json)} {field : String × Json}
    (h : ofPairs pairs = ofPairs pairs') (hmem : field ∈ pairs) : field ∈ pairs' := by
  have hsorted : pairs.insertionSort _ = pairs'.insertionSort _ := object.inj h
  have hfield := (List.mem_insertionSort fun a b => a.1 ≤ b.1).mpr hmem
  rw [hsorted] at hfield
  exact (List.mem_insertionSort _).mp hfield

end Values

end Stalker2D.Json
