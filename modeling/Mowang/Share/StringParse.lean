import Mowang.Base.PropertyTree
import Mowang.Share.BinaryString

/-!
# `Share.StringParse` — lists of numbers in the text of a table

`string_parse` splits a text at the characters of a separator and reads a number from each field; `string_parse_2` and
`string_parse_3` do so for lists of lists. The answer of `from_string` is not looked at: a field that is no number
gives 0, and the list is returned as if it were one. The types that are read through a `long` refuse every minus sign,
so they do not read back what `gx_to_string` prints for a negative value.

`strtok` also writes into the text that it splits; no text is split twice here.

## Contents
- `IntType`, `gxToStringInt`, `fromString` and `fromString_gxToStringInt`, the values that are read back.
- `fields`, `convert`, `convert2`, `convert3`.
- `convert2_fst_iff`, `convert3_fst_iff` — the answers.
- `Separator`, the joined texts, and `inverts_and_rejects_iff`.
-/

namespace Mowang.StringParse

/-- The integer types of `base_util.h`. -/
inductive IntType
  | uint8 | sint8 | uint16 | sint16 | uint32 | sint32 | uint64 | sint64
deriving DecidableEq

namespace IntType

def bits : IntType → Nat
  | .uint8 | .sint8   => 8
  | .uint16 | .sint16 => 16
  | .uint32 | .sint32 => 32
  | .uint64 | .sint64 => 64

def signed : IntType → Bool
  | .sint8 | .sint16 | .sint32 | .sint64 => true
  | _                                    => false

/-- The values of the type. -/
def InRange (t : IntType) (v : Int) : Prop :=
  if t.signed then -2 ^ (t.bits - 1) ≤ v ∧ v < 2 ^ (t.bits - 1) else 0 ≤ v ∧ v < 2 ^ t.bits

/-- A conversion to the type. -/
def cast (t : IntType) (v : Int) : Int := if t.signed then v.bmod (2 ^ t.bits) else v % 2 ^ t.bits

instance (t : IntType) (v : Int) : Decidable (t.InRange v) :=
  inferInstanceAs (Decidable (if t.signed then _ else _))

end IntType

/-- `gx_to_string` of an integer: the format of its type prints the value. -/
def gxToStringInt (v : Int) : List UInt8 := mwToString (decimalInt v)

/-- `from_string` through a `long` of 64 bits, with the greatest value that `strtol` or `strtoul` returns. -/
def fromLong (t : IntType) (limit : Nat) (str : List UInt8) : Bool × Int :=
  if str.contains 45 then (false, 0)
  else
    let (_, digits, _) := scanNumber (cstr str)
    let v := digitsValue digits
    if limit < v ∨ 4294967295 < v ∨ digits = [] then (false, 0) else (true, t.cast v)

/-- `sscanf` with `%llu`. -/
def scanUnsigned (str : List UInt8) : Bool × Int :=
  let (negative, digits, _) := scanNumber (cstr str)
  let v := digitsValue digits
  if digits = [] then (false, 0)
  else (true, if 2 ^ 64 ≤ v then 2 ^ 64 - 1 else if negative then (2 ^ 64 - v) % 2 ^ 64 else v)

/-- `sscanf` with `%lld`. -/
def scanSigned (str : List UInt8) : Bool × Int :=
  if (scanNumber (cstr str)).2.1 = [] then (false, 0) else (true, strtoll (cstr str))

/-- `from_string<T>::convert`. -/
def fromString : IntType → List UInt8 → Bool × Int
  | .uint64 => scanUnsigned
  | .sint64 => scanSigned
  | .uint32 => fromLong .uint32 (2 ^ 64 - 1)
  | t       => fromLong t (2 ^ 63 - 1)

/-- `m_fields`. -/
def fields (s split : List UInt8) : List (List UInt8) := tokens (fun c => (cstr split).contains c) (cstr s)

/-- `string_parse<T>::convert`. -/
def convert (t : IntType) (s split : List UInt8) (value : List Int) : Bool × List Int :=
  let value := value ++ (fields s split).map fun field => (fromString t field).2
  (!value.isEmpty, value)

/-- The loops over the lists of a list: what the fields give is added, until one differs in size from the first. -/
def pushLists {α : Type} (parse : List UInt8 → Bool × List α) (i : Nat) (value : List (List α)) :
    List (List UInt8) → Bool × List (List α)
  | []              => (true, value)
  | field :: fields =>
    match parse field with
    | (false, _)  => (false, value)
    | (true, ary) =>
      let value := value ++ [ary]
      if 0 < i ∧ ary.length ≠ (value.headD []).length then (false, value) else pushLists parse (i + 1) value fields

/-- `string_parse_2<T>::convert`. -/
def convert2 (t : IntType) (s split1 split2 : List UInt8) (value : List (List Int)) : Bool × List (List Int) :=
  let (ok, value) := pushLists (fun field => (true, (convert t field split2 []).2)) 0 value (fields s split1)
  (ok && !value.isEmpty, value)

/-- `string_parse_3<T>::convert`. -/
def convert3 (t : IntType) (s split1 split2 split3 : List UInt8) (value : List (List (List Int))) :
    Bool × List (List (List Int)) :=
  let (ok, value) :=
    pushLists
      (fun field => pushLists (fun field => (true, (convert t field split3 []).2)) 0 [] (fields field split2)) 0 value
      (fields s split1)
  (ok && !value.isEmpty, value)

/-! ## Numbers -/

/-- The types that are read through a `long`, and can be negative. -/
def IntType.refusesMinus (t : IntType) : Bool := t.signed && t ≠ .sint64

theorem natAbs_lt {t : IntType} {v : Int} (h : t.InRange v) : v.natAbs < 10 ^ 20 := by
  rw [IntType.InRange] at h
  cases t <;> simp only [IntType.signed, IntType.bits] at h <;> norm_num at h ⊢ <;> omega

theorem gxToStringInt_eq {t : IntType} {v : Int} (h : t.InRange v) : gxToStringInt v = decimalInt v := by
  have hlen := decimalInt_length_le (by decide) (natAbs_lt h)
  exact mwToString_eq_self (by omega)

/-- A printed number holds a minus sign if it is negative. -/
theorem minus_mem_decimalInt {v : Int} : 45 ∈ decimalInt v ↔ v < 0 := by
  rw [decimalInt]
  split
  · rename_i hneg
    exact iff_of_true List.mem_cons_self hneg
  · rename_i hpos
    refine iff_of_false (fun h => ?_) hpos
    have := (mem_decimal h).1
    contradiction

theorem mem_decimalInt {v : Int} {c : UInt8} (h : c ∈ decimalInt v) : isDigit c = true ∨ c = 45 := by
  rw [decimalInt] at h
  split at h
  · rcases List.mem_cons.mp h with h | h
    · exact Or.inr h
    · exact Or.inl (isDigit_of_mem_decimal h)
  · exact Or.inl (isDigit_of_mem_decimal h)

theorem scanNumber_printed (v : Int) : scanNumber (cstr (decimalInt v)) = (decide (v < 0), decimal v.natAbs, []) := by
  have h := @scanNumber_decimalInt v [] (by simp)
  rw [List.append_nil] at h
  rw [cstr_eq_self (nulFree_decimalInt v), h]

theorem cast_of_inRange {t : IntType} {v : Int} (h : t.InRange v) : t.cast v = v := by
  rw [IntType.InRange] at h
  rw [IntType.cast]
  split at h
  · rename_i hsigned
    rw [if_pos hsigned]
    apply Int.bmod_eq_of_le
    · cases t <;> simp only [IntType.bits] at h ⊢ <;> norm_num at h ⊢ <;> omega
    · cases t <;> simp only [IntType.bits] at h ⊢ <;> norm_num at h ⊢ <;> omega
  · rename_i hsigned
    rw [if_neg hsigned]
    exact Int.emod_eq_of_lt h.1 h.2

/-- A value that is not negative is read back through a `long`; a negative one is not. -/
theorem fromLong_decimalInt {t : IntType} {limit : Nat} {v : Int} (hv : t.InRange v) (ht : t.bits ≤ 32)
    (hlimit : 4294967295 ≤ limit) : fromLong t limit (decimalInt v) = if v < 0 then (false, 0) else (true, v) := by
  rw [fromLong]
  by_cases hneg : v < 0
  · rw [if_pos (by simpa using minus_mem_decimalInt.mpr hneg), if_pos hneg]
  · rw [if_neg (by simpa using (not_congr minus_mem_decimalInt).mpr hneg), if_neg hneg, scanNumber_printed]
    dsimp only
    rw [digitsValue_decimal]
    have hbound : v.natAbs ≤ 4294967295 := by
      rw [IntType.InRange] at hv
      cases t <;> simp only [IntType.signed, IntType.bits] at hv ht <;> norm_num at hv ht <;> omega
    rw [if_neg (by simp only [decimal_ne_nil, or_false]; omega), cast_of_inRange (v := v.natAbs)]
    · rw [Int.natAbs_of_nonneg (not_lt.mp hneg)]
    · rw [Int.natAbs_of_nonneg (not_lt.mp hneg)]
      exact hv

/-- What `gx_to_string` prints is read back, unless it is negative and the type is read through a `long`. -/
theorem fromString_gxToStringInt {t : IntType} {v : Int} (hv : t.InRange v) :
    (fromString t (gxToStringInt v)).2 = v ↔ (t.refusesMinus = true → 0 ≤ v) := by
  rw [gxToStringInt_eq hv]
  have hlong : ∀ limit, 4294967295 ≤ limit → t.bits ≤ 32 →
      ((fromLong t limit (decimalInt v)).2 = v ↔ 0 ≤ v) := by
    intro limit hlimit ht
    rw [fromLong_decimalInt hv ht hlimit]
    split <;> simp <;> omega
  have hfalse : ∀ {P : Prop}, P → (P ↔ (false = true → 0 ≤ v)) := fun hP => iff_of_true hP fun h => nomatch h
  have htrue : ∀ {P : Prop}, (P ↔ 0 ≤ v) → (P ↔ (true = true → 0 ≤ v)) :=
    fun hP => hP.trans ⟨fun hv _ => hv, fun hv => hv rfl⟩
  rw [IntType.InRange] at hv
  -- the two widest types have scanners of their own; the rest goes through a `long`
  cases t with
  | uint64 =>
      apply hfalse
      show (scanUnsigned (decimalInt v)).2 = v
      simp only [IntType.signed, IntType.bits] at hv
      have hpos : ¬ v < 0 := by
        norm_num at hv
        omega
      rw [scanUnsigned, scanNumber_printed]
      simp only [digitsValue_decimal, decimal_ne_nil, if_false, hpos, decide_false, Bool.false_eq_true]
      rw [if_neg (by norm_num at hv ⊢; omega)]
      exact Int.natAbs_of_nonneg (not_lt.mp hpos)
  | sint64 =>
      apply hfalse
      show (scanSigned (decimalInt v)).2 = v
      simp only [IntType.signed, IntType.bits] at hv
      rw [scanSigned, strtoll, scanNumber_printed]
      simp only [digitsValue_decimal, decimal_ne_nil, if_false]
      norm_num at hv
      by_cases hneg : v < 0
      · simp only [hneg, decide_true, if_true]
        omega
      · simp only [hneg, decide_false, Bool.false_eq_true, if_false]
        omega
  | sint8 => exact htrue (hlong _ (by decide) (by decide))
  | sint16 => exact htrue (hlong _ (by decide) (by decide))
  | sint32 => exact htrue (hlong _ (by decide) (by decide))
  | uint8 => exact hfalse ((hlong _ (by decide) (by decide)).mpr hv.1)
  | uint16 => exact hfalse ((hlong _ (by decide) (by decide)).mpr hv.1)
  | uint32 => exact hfalse ((hlong _ (by decide) (by decide)).mpr hv.1)

/-! ## The loops -/

section PushLists

variable {α : Type} {parse : List UInt8 → Bool × List α} {value : List (List α)} {texts : List (List UInt8)}

theorem pushLists_cons {i : Nat} (text : List UInt8) :
    pushLists parse i value (text :: texts) =
      if (parse text).1 = false then (false, value)
      else if 0 < i ∧ (parse text).2.length ≠ ((value ++ [(parse text).2]).headD []).length then
        (false, value ++ [(parse text).2])
      else pushLists parse (i + 1) (value ++ [(parse text).2]) texts := by
  rw [pushLists]
  cases parse text with
  | mk ok ary => cases ok <;> rfl

/-- A loop that gets to its end has added what each field gives. -/
theorem pushLists_snd {i : Nat} (h : (pushLists parse i value texts).1 = true) :
    (pushLists parse i value texts).2 = value ++ texts.map fun text => (parse text).2 := by
  induction texts generalizing i value with
  | nil => exact (List.append_nil _).symm
  | cons text texts ih =>
      rw [pushLists_cons] at h ⊢
      split at h
      · cases h
      · split at h
        · cases h
        · rename_i hok hsize
          rw [if_neg hok, if_neg hsize, ih h, List.append_assoc]
          rfl

/-- Behind the first field a loop goes on while the sizes are that of the first. -/
theorem pushLists_succ {i : Nat} {first : List α} {rest : List (List α)} :
    (pushLists parse (i + 1) (first :: rest) texts).1 = true ↔
      ∀ text ∈ texts, (parse text).1 = true ∧ (parse text).2.length = first.length := by
  induction texts generalizing i rest with
  | nil => simp [pushLists]
  | cons text texts ih =>
      rw [pushLists_cons, List.forall_mem_cons, ← @ih (i + 1) (rest ++ [(parse text).2])]
      cases hok : (parse text).1 with
      | false => simp
      | true =>
          by_cases hsize : (parse text).2.length = first.length
          · simp [hsize]
          · simp [hsize]

/-- A loop gets to its end if all fields give lists of one size. -/
theorem pushLists_fst :
    (pushLists parse 0 [] texts).1 = true ↔
      (∀ text ∈ texts, (parse text).1 = true) ∧
        ∀ text ∈ texts, ∀ text' ∈ texts, (parse text).2.length = (parse text').2.length := by
  cases texts with
  | nil => simp [pushLists]
  | cons text texts =>
      rw [pushLists_cons]
      cases hok : (parse text).1 with
      | false => simp [hok]
      | true =>
          rw [if_neg (by decide), if_neg (by simp), List.nil_append, pushLists_succ]
          constructor
          · intro h
            have hall : ∀ text' ∈ text :: texts, (parse text').2.length = (parse text).2.length := by
              intro text' htext'
              rcases List.mem_cons.mp htext' with rfl | htext'
              · rfl
              · exact (h text' htext').2
            refine ⟨List.forall_mem_cons.mpr ⟨hok, fun text' htext' => (h text' htext').1⟩, ?_⟩
            intro text₁ h₁ text₂ h₂
            exact (hall text₁ h₁).trans (hall text₂ h₂).symm
          · rintro ⟨hall, hsizes⟩ text' htext'
            have hmem := List.mem_cons_of_mem text htext'
            exact ⟨hall text' hmem, hsizes text' hmem text List.mem_cons_self⟩

end PushLists

/-! ## The answers -/

variable {t : IntType} {s split split1 split2 split3 : List UInt8}

/-- The numbers that the fields of a text give. -/
def numbers (t : IntType) (split s : List UInt8) : List Int := (fields s split).map fun field => (fromString t field).2

/-- Two fields of a text have different numbers of fields. -/
def Ragged (split1 split2 s : List UInt8) : Prop :=
  ∃ row ∈ fields s split1, ∃ row' ∈ fields s split1, (fields row split2).length ≠ (fields row' split2).length

theorem convert_eq : convert t s split [] = (!(numbers t split s).isEmpty, numbers t split s) := rfl

theorem length_numbers : (numbers t split s).length = (fields s split).length := List.length_map ..

/-- The answer of the two `convert` with a loop. -/
theorem answer_iff {α : Type} {parse : List UInt8 → Bool × List α} {texts : List (List UInt8)} :
    ((pushLists parse 0 [] texts).1 && !(pushLists parse 0 [] texts).2.isEmpty) = true ↔
      texts ≠ [] ∧ (∀ text ∈ texts, (parse text).1 = true) ∧
        ∀ text ∈ texts, ∀ text' ∈ texts, (parse text).2.length = (parse text').2.length := by
  rw [Bool.and_eq_true, ← pushLists_fst, and_comm]
  apply and_congr_left
  intro hok
  rw [pushLists_snd hok]
  simp

theorem not_ragged_iff :
    ¬ Ragged split1 split2 s ↔
      ∀ row ∈ fields s split1, ∀ row' ∈ fields s split1, (fields row split2).length = (fields row' split2).length := by
  simp [Ragged]

theorem convert2_fst_iff :
    (convert2 t s split1 split2 []).1 = true ↔ fields s split1 ≠ [] ∧ ¬ Ragged split1 split2 s := by
  refine answer_iff.trans ?_
  rw [not_ragged_iff]
  simp only [convert_eq, length_numbers, implies_true, true_and]

theorem convert2_snd (h : (convert2 t s split1 split2 []).1 = true) :
    (convert2 t s split1 split2 []).2 = (fields s split1).map (numbers t split2) :=
  pushLists_snd ((Bool.and_eq_true _ _).mp h).1

/-- What `string_parse_3` takes from a field. -/
theorem row_spec (row : List UInt8) :
    ((pushLists (fun field => (true, (convert t field split3 []).2)) 0 [] (fields row split2)).1 = true ↔
        ¬ Ragged split2 split3 row) ∧
      ((pushLists (fun field => (true, (convert t field split3 []).2)) 0 [] (fields row split2)).1 = true →
        (pushLists (fun field => (true, (convert t field split3 []).2)) 0 [] (fields row split2)).2 =
          (fields row split2).map (numbers t split3)) := by
  refine ⟨pushLists_fst.trans ?_, fun h => pushLists_snd h⟩
  rw [not_ragged_iff]
  simp only [convert_eq, length_numbers, implies_true, true_and]

theorem convert3_fst_iff :
    (convert3 t s split1 split2 split3 []).1 = true ↔
      fields s split1 ≠ [] ∧ ¬ Ragged split1 split2 s ∧ ∀ row ∈ fields s split1, ¬ Ragged split2 split3 row := by
  refine answer_iff.trans (and_congr_right fun _ => ?_)
  rw [not_ragged_iff, and_comm]
  have hok : (∀ row ∈ fields s split1,
      (pushLists (fun field => (true, (convert t field split3 []).2)) 0 [] (fields row split2)).1 = true) ↔
        ∀ row ∈ fields s split1, ¬ Ragged split2 split3 row :=
    forall₂_congr fun row _ => (row_spec row).1
  rw [hok]
  refine and_congr_left fun hrows => forall₂_congr fun row hrow => forall₂_congr fun row' hrow' => ?_
  rw [(row_spec row).2 ((row_spec row).1.mpr (hrows row hrow)),
    (row_spec row').2 ((row_spec row').1.mpr (hrows row' hrow')), List.length_map, List.length_map]

theorem convert3_snd (h : (convert3 t s split1 split2 split3 []).1 = true) :
    (convert3 t s split1 split2 split3 []).2 =
      (fields s split1).map fun row => (fields row split2).map (numbers t split3) := by
  have hrows := (convert3_fst_iff.mp h).2.2
  refine (pushLists_snd ((Bool.and_eq_true _ _).mp h).1).trans (List.map_congr_left fun row hrow => ?_)
  exact (row_spec row).2 ((row_spec row).1.mpr (hrows row hrow))

/-! ## Joined texts -/

/-- What is put between numbers: no digit, no minus sign and no NUL. -/
structure Separator where
  chars : List UInt8
  ne_nil : chars ≠ []
  free : ∀ c ∈ chars, isDigit c = false ∧ c ≠ 45 ∧ c ≠ 0

/-- Separators without a common character. -/
def Separator.Distinct (sep sep' : Separator) : Prop := ∀ c ∈ sep.chars, c ∉ sep'.chars

instance (sep sep' : Separator) : Decidable (sep.Distinct sep') :=
  inferInstanceAs (Decidable (∀ c ∈ sep.chars, c ∉ sep'.chars))

/-- The numbers of a list, joined. -/
def join (sep : Separator) (vs : List Int) : List UInt8 := sep.chars.intercalate (vs.map gxToStringInt)

def join2 (sep1 sep2 : Separator) (vs : List (List Int)) : List UInt8 := sep1.chars.intercalate (vs.map (join sep2))

def join3 (sep1 sep2 sep3 : Separator) (vs : List (List (List Int))) : List UInt8 :=
  sep1.chars.intercalate (vs.map (join2 sep2 sep3))

variable {sep sep1 sep2 sep3 : Separator}

theorem nulFree_separator (sep : Separator) : NulFree sep.chars := fun h => (sep.free 0 h).2.2 rfl

theorem mem_intercalate {sep : List UInt8} {parts : List (List UInt8)} {c : UInt8} (h : c ∈ sep.intercalate parts) :
    c ∈ sep ∨ ∃ part ∈ parts, c ∈ part := by
  induction parts with
  | nil => cases h
  | cons part parts ih =>
      cases parts with
      | nil =>
          rw [List.intercalate_singleton] at h
          exact Or.inr ⟨part, List.mem_cons_self, h⟩
      | cons part' parts =>
          rw [List.intercalate_cons_cons] at h
          rcases List.mem_append.mp h with h | h
          · rcases List.mem_append.mp h with h | h
            · exact Or.inr ⟨part, List.mem_cons_self, h⟩
            · exact Or.inl h
          · rcases ih h with h | ⟨part, hpart, h⟩
            · exact Or.inl h
            · exact Or.inr ⟨part, List.mem_cons_of_mem _ hpart, h⟩

/-- A text that is a field where the separator splits. -/
def Clean (sep : Separator) (text : List UInt8) : Prop := text ≠ [] ∧ ∀ c ∈ text, c ∉ sep.chars ∧ c ≠ 0

theorem clean_number (sep : Separator) (v : Int) : Clean sep (gxToStringInt v) := by
  constructor
  · have hne : decimalInt v ≠ [] := by
      rw [decimalInt]
      split
      · exact List.cons_ne_nil _ _
      · exact decimal_ne_nil _
    rw [gxToStringInt, mwToString, Ne, List.take_eq_nil_iff]
    simp [hne]
  · intro c hc
    rcases mem_decimalInt (List.mem_of_mem_take hc) with hc | hc
    · refine ⟨fun hsep => ?_, fun hzero => ?_⟩
      · rw [(sep.free c hsep).1] at hc
        cases hc
      · rw [hzero] at hc
        cases hc
    · refine ⟨fun hsep => (sep.free c hsep).2.1 hc, ?_⟩
      rw [hc]
      decide

theorem clean_intercalate {parts : List (List UInt8)} (hdist : sep1.Distinct sep2) (hne : parts ≠ [])
    (h : ∀ part ∈ parts, Clean sep1 part) : Clean sep1 (sep2.chars.intercalate parts) := by
  constructor
  · obtain ⟨part, parts, rfl⟩ := List.exists_cons_of_ne_nil hne
    have hpart := (h part List.mem_cons_self).1
    cases parts with
    | nil =>
        rw [List.intercalate_singleton]
        exact hpart
    | cons part' parts =>
        rw [List.intercalate_cons_cons, List.append_assoc]
        exact List.append_ne_nil_of_left_ne_nil hpart _
  · intro c hc
    rcases mem_intercalate hc with hc | ⟨part, hpart, hc⟩
    · exact ⟨fun hsep => hdist c hsep hc, (sep2.free c hc).2.2⟩
    · exact (h part hpart).2 c hc

theorem clean_join (hdist : sep1.Distinct sep2) {vs : List Int} (hne : vs ≠ []) : Clean sep1 (join sep2 vs) := by
  refine clean_intercalate hdist (by simpa using hne) fun part hpart => ?_
  obtain ⟨v, _, rfl⟩ := List.mem_map.mp hpart
  exact clean_number sep1 v

theorem clean_join2 (hdist2 : sep1.Distinct sep2) (hdist3 : sep1.Distinct sep3) {vs : List (List Int)} (hne : vs ≠ [])
    (hvs : ∀ row ∈ vs, row ≠ []) : Clean sep1 (join2 sep2 sep3 vs) := by
  refine clean_intercalate hdist2 (by simpa using hne) fun part hpart => ?_
  obtain ⟨row, hrow, rfl⟩ := List.mem_map.mp hpart
  exact clean_join hdist3 (hvs row hrow)

/-- The fields of a joined text. -/
theorem fields_intercalate {parts : List (List UInt8)} (h : ∀ part ∈ parts, Clean sep part) :
    fields (sep.chars.intercalate parts) sep.chars = parts := by
  have htext : NulFree (sep.chars.intercalate parts) := by
    intro hzero
    rcases mem_intercalate hzero with hzero | ⟨part, hpart, hzero⟩
    · exact nulFree_separator sep hzero
    · exact ((h part hpart).2 0 hzero).2 rfl
  rw [fields, cstr_eq_self (nulFree_separator sep), cstr_eq_self htext]
  apply tokens_intercalate sep.ne_nil
  · intro c hc
    simpa using hc
  · intro part hpart
    refine ⟨(h part hpart).1, fun c hc => ?_⟩
    simpa using ((h part hpart).2 c hc).1

theorem fields_join (vs : List Int) : fields (join sep vs) sep.chars = vs.map gxToStringInt := by
  apply fields_intercalate
  intro part hpart
  obtain ⟨v, _, rfl⟩ := List.mem_map.mp hpart
  exact clean_number sep v

/-- A value that is read back. -/
def IntType.Reads (t : IntType) (v : Int) : Prop := t.refusesMinus = true → 0 ≤ v

instance (t : IntType) (v : Int) : Decidable (t.Reads v) :=
  inferInstanceAs (Decidable (t.refusesMinus = true → 0 ≤ v))

theorem map_eq_self_iff {α : Type} {f : α → α} {xs : List α} : xs.map f = xs ↔ ∀ x ∈ xs, f x = x := by
  have h : xs.map f = xs.map id ↔ _ := List.map_inj_left
  rwa [List.map_id] at h

theorem numbers_join {vs : List Int} (hvs : ∀ v ∈ vs, t.InRange v) :
    numbers t sep.chars (join sep vs) = vs ↔ ∀ v ∈ vs, t.Reads v := by
  rw [numbers, fields_join, List.map_map, map_eq_self_iff]
  exact forall₂_congr fun v hv => fromString_gxToStringInt (hvs v hv)

theorem fields_join2 (hdist : sep1.Distinct sep2) {vs : List (List Int)} (hvs : ∀ row ∈ vs, row ≠ []) :
    fields (join2 sep1 sep2 vs) sep1.chars = vs.map (join sep2) := by
  apply fields_intercalate
  intro part hpart
  obtain ⟨row, hrow, rfl⟩ := List.mem_map.mp hpart
  exact clean_join hdist (hvs row hrow)

theorem fields_join3 (hdist2 : sep1.Distinct sep2) (hdist3 : sep1.Distinct sep3) {vs : List (List (List Int))}
    (hvs : ∀ rows ∈ vs, rows ≠ [] ∧ ∀ row ∈ rows, row ≠ []) :
    fields (join3 sep1 sep2 sep3 vs) sep1.chars = vs.map (join2 sep2 sep3) := by
  apply fields_intercalate
  intro part hpart
  obtain ⟨rows, hrows, rfl⟩ := List.mem_map.mp hpart
  exact clean_join2 hdist2 hdist3 (hvs rows hrows).1 (hvs rows hrows).2

/-- The numbers of a list of lists, joined and split again. -/
theorem numbers_join2 (hdist : sep1.Distinct sep2) {vs : List (List Int)} (hne : ∀ row ∈ vs, row ≠ [])
    (hvs : ∀ row ∈ vs, ∀ v ∈ row, t.InRange v) :
    (fields (join2 sep1 sep2 vs) sep1.chars).map (numbers t sep2.chars) = vs ↔ ∀ row ∈ vs, ∀ v ∈ row, t.Reads v := by
  rw [fields_join2 hdist hne, List.map_map, map_eq_self_iff]
  exact forall₂_congr fun row hrow => numbers_join (hvs row hrow)

theorem numbers_join3 (h₁₂ : sep1.Distinct sep2) (h₁₃ : sep1.Distinct sep3) (h₂₃ : sep2.Distinct sep3)
    {vs : List (List (List Int))} (hne : ∀ rows ∈ vs, rows ≠ [] ∧ ∀ row ∈ rows, row ≠ [])
    (hvs : ∀ rows ∈ vs, ∀ row ∈ rows, ∀ v ∈ row, t.InRange v) :
    (fields (join3 sep1 sep2 sep3 vs) sep1.chars).map
        (fun rows => (fields rows sep2.chars).map (numbers t sep3.chars)) = vs ↔
      ∀ rows ∈ vs, ∀ row ∈ rows, ∀ v ∈ row, t.Reads v := by
  rw [fields_join3 h₁₂ h₁₃ hne, List.map_map, map_eq_self_iff]
  exact forall₂_congr fun rows hrows => numbers_join2 h₂₃ (hne rows hrows).2 (hvs rows hrows)

/-- The lists of a list have one length. -/
def Rectangular (vs : List (List Int)) : Prop := ∃ n, ∀ row ∈ vs, row.length = n

def Rectangular3 (vs : List (List (List Int))) : Prop :=
  ∃ m n, ∀ rows ∈ vs, rows.length = m ∧ ∀ row ∈ rows, row.length = n

/-- A text of separators has no fields. -/
theorem fields_eq_nil {text : List UInt8} (h : ∀ c ∈ text, c ∈ sep.chars) : fields text sep.chars = [] := by
  rw [fields, tokens_eq_nil_iff]
  intro c hc
  rw [cstr_eq_self (nulFree_separator sep)]
  simpa using h c ((List.takeWhile_sublist _).subset hc)

theorem mem_fields {field : List UInt8} (h : field ∈ fields s sep.chars) : ∀ c ∈ field, c ∉ sep.chars ∧ c ∈ s := by
  rw [fields, cstr_eq_self (nulFree_separator sep)] at h
  intro c hc
  obtain ⟨hdelim, hmem⟩ := (mem_tokens h).2 c hc
  exact ⟨by simpa using hdelim, (List.takeWhile_sublist _).subset hmem⟩

/-- Of empty lists only the separators are left. -/
theorem mem_join2_of_empty {vs : List (List Int)} (h : ∀ row ∈ vs, row = []) {c : UInt8} (hc : c ∈ join2 sep1 sep2 vs) :
    c ∈ sep1.chars := by
  rcases mem_intercalate hc with hc | ⟨part, hpart, hc⟩
  · exact hc
  · obtain ⟨row, hrow, rfl⟩ := List.mem_map.mp hpart
    rw [h row hrow] at hc
    cases hc

/-- **Two levels.** A rectangular list is read back exactly if it has no empty rows, and no value that is refused. -/
theorem convert2_join2_iff (hdist : sep1.Distinct sep2) {vs : List (List Int)} (hvs : vs ≠ []) (hrect : Rectangular vs)
    (hrange : ∀ row ∈ vs, ∀ v ∈ row, t.InRange v) :
    convert2 t (join2 sep1 sep2 vs) sep1.chars sep2.chars [] = (true, vs) ↔
      ∀ row ∈ vs, row ≠ [] ∧ ∀ v ∈ row, t.Reads v := by
  obtain ⟨n, hn⟩ := hrect
  constructor
  · intro h
    have hfst := congrArg Prod.fst h
    have hne : ∀ row ∈ vs, row ≠ [] := by
      rintro row hrow rfl
      have hempty : ∀ row' ∈ vs, row' = [] := fun row' hrow' =>
        List.length_eq_zero_iff.mp ((hn row' hrow').trans (hn [] hrow).symm)
      exact (convert2_fst_iff.mp hfst).1 (fields_eq_nil fun c hc => mem_join2_of_empty hempty hc)
    have hsnd := (convert2_snd hfst).symm.trans (congrArg Prod.snd h)
    have hreads := (numbers_join2 hdist hne hrange).mp hsnd
    exact fun row hrow => ⟨hne row hrow, hreads row hrow⟩
  · intro h
    have hne : ∀ row ∈ vs, row ≠ [] := fun row hrow => (h row hrow).1
    have hfst : (convert2 t (join2 sep1 sep2 vs) sep1.chars sep2.chars []).1 = true := by
      rw [convert2_fst_iff, fields_join2 hdist hne, not_ragged_iff, fields_join2 hdist hne]
      refine ⟨by simpa using hvs, ?_⟩
      simp only [List.forall_mem_map, fields_join, List.length_map]
      exact fun row hrow row' hrow' => (hn row hrow).trans (hn row' hrow').symm
    refine Prod.ext hfst ?_
    rw [convert2_snd hfst]
    exact (numbers_join2 hdist hne hrange).mpr fun row hrow => (h row hrow).2

/-- **Three levels.** -/
theorem convert3_join3_iff (h₁₂ : sep1.Distinct sep2) (h₁₃ : sep1.Distinct sep3) (h₂₃ : sep2.Distinct sep3)
    {vs : List (List (List Int))} (hvs : vs ≠ []) (hrect : Rectangular3 vs)
    (hrange : ∀ rows ∈ vs, ∀ row ∈ rows, ∀ v ∈ row, t.InRange v) :
    convert3 t (join3 sep1 sep2 sep3 vs) sep1.chars sep2.chars sep3.chars [] = (true, vs) ↔
      ∀ rows ∈ vs, rows ≠ [] ∧ ∀ row ∈ rows, row ≠ [] ∧ ∀ v ∈ row, t.Reads v := by
  obtain ⟨m, n, hmn⟩ := hrect
  constructor
  · intro h
    have hfst := congrArg Prod.fst h
    have hsnd : _ = vs := (convert3_snd hfst).symm.trans (congrArg Prod.snd h)
    have hne : ∀ rows ∈ vs, rows ≠ [] ∧ ∀ row ∈ rows, row ≠ [] := by
      intro rows hrows
      constructor
      · rintro rfl
        refine (convert3_fst_iff.mp hfst).1 (fields_eq_nil fun c hc => ?_)
        rcases mem_intercalate hc with hc | ⟨part, hpart, hc⟩
        · exact hc
        · obtain ⟨rows', hrows', rfl⟩ := List.mem_map.mp hpart
          have hempty : rows'.length = 0 := (hmn rows' hrows').1.trans (hmn [] hrows).1.symm
          rw [List.length_eq_zero_iff.mp hempty] at hc
          cases hc
      · rintro row hrow rfl
        have hzero : n = 0 := ((hmn rows hrows).2 [] hrow).symm
        -- no field of the text has fields of its own
        have hfields : ∀ field ∈ fields (join3 sep1 sep2 sep3 vs) sep1.chars, fields field sep2.chars = [] := by
          intro field hfield
          apply fields_eq_nil
          intro c hc
          obtain ⟨hfree, hmem⟩ := mem_fields hfield c hc
          rcases mem_intercalate hmem with hc | ⟨part, hpart, hc⟩
          · exact absurd hc hfree
          · obtain ⟨rows', hrows', rfl⟩ := List.mem_map.mp hpart
            refine mem_join2_of_empty (fun row' hrow' => ?_) hc
            exact List.length_eq_zero_iff.mp (((hmn rows' hrows').2 row' hrow').trans hzero)
        rw [← hsnd] at hrows
        obtain ⟨field, hfield, rfl⟩ := List.mem_map.mp hrows
        rw [hfields field hfield] at hrow
        cases hrow
    have hreads := (numbers_join3 h₁₂ h₁₃ h₂₃ hne hrange).mp hsnd
    exact fun rows hrows => ⟨(hne rows hrows).1, fun row hrow =>
      ⟨(hne rows hrows).2 row hrow, hreads rows hrows row hrow⟩⟩
  · intro h
    have hne : ∀ rows ∈ vs, rows ≠ [] ∧ ∀ row ∈ rows, row ≠ [] :=
      fun rows hrows => ⟨(h rows hrows).1, fun row hrow => ((h rows hrows).2 row hrow).1⟩
    have hfst : (convert3 t (join3 sep1 sep2 sep3 vs) sep1.chars sep2.chars sep3.chars []).1 = true := by
      rw [convert3_fst_iff, not_ragged_iff, fields_join3 h₁₂ h₁₃ hne]
      refine ⟨by simpa using hvs, ?_, ?_⟩
      · simp only [List.forall_mem_map]
        intro rows hrows rows' hrows'
        rw [fields_join2 h₂₃ (hne rows hrows).2, fields_join2 h₂₃ (hne rows' hrows').2, List.length_map,
          List.length_map]
        exact (hmn rows hrows).1.trans (hmn rows' hrows').1.symm
      · simp only [List.forall_mem_map]
        intro rows hrows
        rw [not_ragged_iff, fields_join2 h₂₃ (hne rows hrows).2]
        simp only [List.forall_mem_map, fields_join, List.length_map]
        exact fun row hrow row' hrow' => ((hmn rows hrows).2 row hrow).trans ((hmn rows hrows).2 row' hrow').symm
    refine Prod.ext hfst ?_
    rw [convert3_snd hfst]
    exact (numbers_join3 h₁₂ h₁₃ h₂₃ hne hrange).mpr fun rows hrows row hrow => ((h rows hrows).2 row hrow).2

/-! ## What the code does -/

/-- What `gx_to_string` prints for a value of the type. -/
def IsDecimal (t : IntType) (field : List UInt8) : Prop := ∃ v, t.InRange v ∧ field = gxToStringInt v

/-- An answer that is not about the fields refuses a bad one only where it refuses them all. -/
theorem rejects_iff {answer : Bool} {texts : List (List UInt8)} {Good : List UInt8 → Prop} {Refused : Prop}
    (h : answer = true ↔ texts ≠ [] ∧ ¬ Refused) :
    (¬ (∀ text ∈ texts, Good text) → answer = false) ↔ (∀ text ∈ texts, Good text) ∨ Refused := by
  rw [← Bool.not_eq_true, h, not_and_not_right]
  constructor
  · intro himp
    by_contra hnot
    obtain ⟨hgood, hrefused⟩ := not_or.mp hnot
    refine hrefused (himp hgood ?_)
    rintro rfl
    exact hgood fun text htext => nomatch htext
  · rintro (hgood | hrefused) hnot _
    · exact absurd hgood hnot
    · exact hrefused

/-- **Where parsing inverts printing, and where it refuses a field.** A list is read back exactly if none of its values
    is negative, for the types that refuse a minus sign, and a list of lists if also none of them is empty. A text with
    a field that is no number is refused only for the lengths of its lists, never at one level. -/
theorem inverts_and_rejects_iff (t : IntType) :
    (∀ (sep : Separator) (vs : List Int), vs ≠ [] → (∀ v ∈ vs, t.InRange v) →
      (convert t (join sep vs) sep.chars [] = (true, vs) ↔ ∀ v ∈ vs, t.Reads v)) ∧
    (∀ sep1 sep2 : Separator, sep1.Distinct sep2 → ∀ vs : List (List Int), vs ≠ [] → Rectangular vs →
      (∀ row ∈ vs, ∀ v ∈ row, t.InRange v) →
      (convert2 t (join2 sep1 sep2 vs) sep1.chars sep2.chars [] = (true, vs) ↔
        ∀ row ∈ vs, row ≠ [] ∧ ∀ v ∈ row, t.Reads v)) ∧
    (∀ sep1 sep2 sep3 : Separator, sep1.Distinct sep2 → sep1.Distinct sep3 → sep2.Distinct sep3 →
      ∀ vs : List (List (List Int)), vs ≠ [] → Rectangular3 vs → (∀ rows ∈ vs, ∀ row ∈ rows, ∀ v ∈ row, t.InRange v) →
      (convert3 t (join3 sep1 sep2 sep3 vs) sep1.chars sep2.chars sep3.chars [] = (true, vs) ↔
        ∀ rows ∈ vs, rows ≠ [] ∧ ∀ row ∈ rows, row ≠ [] ∧ ∀ v ∈ row, t.Reads v)) ∧
    (∀ s split : List UInt8,
      (¬ (∀ field ∈ fields s split, IsDecimal t field) → (convert t s split []).1 = false) ↔
        ∀ field ∈ fields s split, IsDecimal t field) ∧
    (∀ s split1 split2 : List UInt8,
      (¬ (∀ row ∈ fields s split1, ∀ field ∈ fields row split2, IsDecimal t field) →
          (convert2 t s split1 split2 []).1 = false) ↔
        (∀ row ∈ fields s split1, ∀ field ∈ fields row split2, IsDecimal t field) ∨ Ragged split1 split2 s) ∧
    (∀ s split1 split2 split3 : List UInt8,
      (¬ (∀ rows ∈ fields s split1, ∀ row ∈ fields rows split2, ∀ field ∈ fields row split3, IsDecimal t field) →
          (convert3 t s split1 split2 split3 []).1 = false) ↔
        (∀ rows ∈ fields s split1, ∀ row ∈ fields rows split2, ∀ field ∈ fields row split3, IsDecimal t field) ∨
          Ragged split1 split2 s ∨ ∃ rows ∈ fields s split1, Ragged split2 split3 rows) := by
  refine ⟨?_, ?_, ?_, ?_, ?_, ?_⟩
  · intro sep vs hvs hrange
    rw [convert_eq, ← @numbers_join _ sep _ hrange, Prod.mk.injEq]
    refine and_iff_right_of_imp fun hnumbers => ?_
    rw [hnumbers]
    simpa using hvs
  · exact fun sep1 sep2 hdist vs hvs hrect hrange => convert2_join2_iff hdist hvs hrect hrange
  · exact fun sep1 sep2 sep3 h₁₂ h₁₃ h₂₃ vs hvs hrect hrange => convert3_join3_iff h₁₂ h₁₃ h₂₃ hvs hrect hrange
  · intro s split
    have hanswer : (convert t s split []).1 = true ↔ fields s split ≠ [] ∧ ¬ False := by simp [convert_eq, numbers]
    exact (rejects_iff hanswer).trans (or_iff_left not_false)
  · exact fun s split1 split2 => rejects_iff convert2_fst_iff
  · intro s split1 split2 split3
    refine rejects_iff (convert3_fst_iff.trans (and_congr_right fun _ => ?_))
    simp only [not_or, not_exists, not_and]

/-- A separator of one character. -/
def Separator.ofChar (c : UInt8) (h : isDigit c = false ∧ c ≠ 45 ∧ c ≠ 0) : Separator where
  chars := [c]
  ne_nil := List.cons_ne_nil _ _
  free := List.forall_mem_singleton.mpr h

def semicolon : Separator := .ofChar 59 (by decide)

def comma : Separator := .ofChar 44 (by decide)

def blank : Separator := .ofChar 32 (by decide)

/-- Two prices, two rows of two, and one table of them. -/
theorem inverts_prices :
    convert .sint32 (join semicolon [10, 0]) semicolon.chars [] = (true, [10, 0]) ∧
      convert2 .sint32 (join2 semicolon comma [[10, 0], [7, 2000]]) semicolon.chars comma.chars [] =
        (true, [[10, 0], [7, 2000]]) ∧
      convert3 .sint32 (join3 semicolon comma blank [[[10, 0], [7, 2000]]]) semicolon.chars comma.chars blank.chars [] =
        (true, [[[10, 0], [7, 2000]]]) :=
  ⟨((inverts_and_rejects_iff .sint32).1 semicolon [10, 0] (by decide) (by decide)).mpr (by decide),
    ((inverts_and_rejects_iff .sint32).2.1 semicolon comma (by decide +kernel) [[10, 0], [7, 2000]] (by decide)
      ⟨2, by decide⟩ (by decide)).mpr (by decide),
    ((inverts_and_rejects_iff .sint32).2.2.1 semicolon comma blank (by decide +kernel) (by decide +kernel)
      (by decide +kernel)
      [[[10, 0], [7, 2000]]] (by decide) ⟨2, 2, by decide⟩ (by decide)).mpr (by decide)⟩

/-- A list with a negative number comes back with 0 in its place, and so does one with a field that is no number. -/
theorem minus_one_lost :
    (∀ v ∈ [(-1 : Int)], IntType.InRange .sint32 v) ∧
      convert .sint32 (join semicolon [-1]) semicolon.chars [] = (true, [0]) ∧
      ascii "x" ∈ fields (ascii "7;x") semicolon.chars ∧ ¬ IsDecimal .sint32 (ascii "x") ∧
      convert .sint32 (ascii "7;x") semicolon.chars [] = (true, [7, 0]) := by
  refine ⟨by decide, by decide, by decide, ?_, by decide⟩
  rintro ⟨v, hv, hfield⟩
  rw [gxToStringInt_eq hv] at hfield
  have hx := mem_decimalInt (hfield ▸ List.mem_singleton.mpr rfl : 120 ∈ decimalInt v)
  contradiction

end Mowang.StringParse
