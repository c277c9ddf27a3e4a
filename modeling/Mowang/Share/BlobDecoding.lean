import Mathlib.Data.List.GetD
import Mowang.Share.ListBlobs

/-!
# `Share.BlobDecoding` — what the readers of a blob make of any text

`bstr_2_flat_struct` and `bstr_2_dynamic_struct` get whatever stands in a column. They compare neither the length in the
head nor the number of objects with the text that is there; and a text that is too short for its head, a version above
the current one and a character that is no digit, the NUL among them, end the process by an assertion instead of being
refused. `decodesSafely_iff` says which texts they nevertheless treat as they should.

A text is read with the NUL behind it; a reader that goes further, or comes to an assertion, is `none`.

## Contents
- `bstr2FlatStruct`, `bstr2DynamicStructInto`.
- `textValues` — what is read where; `readValues_cBlock`, `readObjects_cBlock`.
- `FlatConsistent`, `DynamicConsistent`, `DecodesSafely`.
- `bstr2FlatStruct_eq`, `bstr2DynamicStructInto_eq`, `decodesSafely_iff`.
-/

namespace Mowang

open LittleEndian Block

variable {n size : Nat}

/-! ## The readers -/

/-- `parse_bstr`, into an object that holds `data`. -/
def parseBstr (data : List UInt8) (bstr : Block UInt8 n) (size index len : Nat) : Option (Bool × List UInt8) :=
  if size ≠ len then some (false, data)
  else (readValues bstr len index).map fun (values, _) => (true, values)

/-- `bstr_2_flat_struct` of an object that holds `data`: its answer, and the object. -/
def bstr2FlatStruct (size : Nat) (data : List UInt8) (bstr : List UInt8) : Option (Bool × List UInt8) :=
  if bstr.length = 0 then some (true, data)
  else
    (parseDbHead (cBlock bstr) bstr.length).bind fun (head, index) =>
    if head.getD 5 0 = 0 then parseBstr data (cBlock bstr) size index (ofLe (head.drop 6)) else none

/-- `bstr_2_dynamic_struct` into a vector that holds `data`: its answer, and the vector. -/
def bstr2DynamicStructInto (size : Nat) (data : List (List UInt8)) (bstr : List UInt8) :
    Option (Bool × List (List UInt8)) :=
  (bstr2DynamicStructAnswer size bstr).map fun (answer, objects) => (answer, data ++ objects)

/-! ## What stands in a text -/

/-- The character at a place of a C string, whose last is the NUL. -/
def charAt (text : List UInt8) (index : Nat) : UInt8 := text.getD index 0

/-- The digits that are written. -/
def isHexDigit (c : UInt8) : Bool := 48 ≤ c && c ≤ 57 || 65 ≤ c && c ≤ 70

/-- The characters at `index` are digits. -/
def DigitsAt (text : List UInt8) (index len : Nat) : Prop := ∀ i < len, isHexDigit (charAt text (index + i)) = true

instance decidableDigitsAt (text : List UInt8) (index len : Nat) : Decidable (DigitsAt text index len) :=
  inferInstanceAs (Decidable (∀ i < len, isHexDigit (charAt text (index + i)) = true))

/-- The number of a digit. -/
def hexValue (c : UInt8) : UInt8 := (ascii2Number c).getD 0

/-- The byte that `binary_char_2_value` makes of the digits at `index`. -/
def textValue (text : List UInt8) (index : Nat) : UInt8 :=
  (hexValue (charAt text (index + 1)) <<< 4) + hexValue (charAt text index)

def textValues (text : List UInt8) : Nat → Nat → List UInt8
  | 0,       _     => []
  | len + 1, index => textValue text index :: textValues text len (index + 2)

def textObjects (text : List UInt8) (size : Nat) : Nat → Nat → List (List UInt8)
  | 0,         _     => []
  | count + 1, index => textValues text size index :: textObjects text size count (index + 2 * size)

/-- `db_version`, `real_len` and `data_size`, as they stand in a text. -/
def dbVersion (text : List UInt8) : UInt8 := textValue text 10

def realLen (text : List UInt8) : Nat := ofLe (textValues text 2 12)

def dataSize (text : List UInt8) : Nat := ofLe (textValues text 2 16)

variable {text : List UInt8}

theorem readCell_cBlock (index : Nat) :
    (cBlock text).readCell index = if index ≤ text.length then some (charAt text index, index + 1) else none := by
  rw [readCell, cBlock, charAt]
  split
  next hle =>
    rcases Nat.lt_or_eq_of_le hle with hlt | rfl
    · rw [List.getElem?_append_left hlt, List.getElem?_eq_getElem hlt, List.getD_eq_getElem _ _ hlt]
      rfl
    · rw [List.getElem?_append_right (Nat.le_refl _), Nat.sub_self, List.getD_eq_default _ _ (Nat.le_refl _)]
      rfl
  next hgt =>
    rw [List.getElem?_eq_none (by rw [List.length_append, List.length_singleton]; omega)]
    rfl

theorem ascii2Number_eq (c : UInt8) : ascii2Number c = if isHexDigit c then some (hexValue c) else none := by
  by_cases hnumber : 48 ≤ c ∧ c ≤ 57
  · rw [hexValue, ascii2Number, if_pos hnumber, if_pos (by simp [isHexDigit, hnumber]), Option.getD_some]
  by_cases hletter : 65 ≤ c ∧ c ≤ 70
  · rw [hexValue, ascii2Number, if_neg hnumber, if_pos hletter, if_pos (by simp [isHexDigit, hletter]),
      Option.getD_some]
  · have hnone : isHexDigit c ≠ true := by
      simp only [isHexDigit, ne_eq, Bool.or_eq_true, Bool.and_eq_true, decide_eq_true_eq, not_or]
      exact ⟨hnumber, hletter⟩
    rw [ascii2Number, if_neg hnumber, if_neg hletter, if_neg hnone]

/-- A digit stands before the NUL. -/
theorem lt_length_of_isHexDigit {index : Nat} (h : isHexDigit (charAt text index) = true) : index < text.length := by
  by_contra hge
  rw [charAt, List.getD_eq_default _ _ (Nat.le_of_not_lt hge)] at h
  cases h

theorem digitsAt_add {index a b : Nat} :
    DigitsAt text index (a + b) ↔ DigitsAt text index a ∧ DigitsAt text (index + a) b := by
  constructor
  · intro h
    refine ⟨fun i hi => h i (by omega), fun i hi => ?_⟩
    rw [Nat.add_assoc]
    exact h (a + i) (by omega)
  · rintro ⟨hfirst, hrest⟩ i hi
    by_cases hlt : i < a
    · exact hfirst i hlt
    · have hdigit := hrest (i - a) (by omega)
      rwa [show index + a + (i - a) = index + i by omega] at hdigit

theorem digitsAt_two {index : Nat} :
    DigitsAt text index 2 ↔ isHexDigit (charAt text index) = true ∧ isHexDigit (charAt text (index + 1)) = true := by
  constructor
  · intro h
    exact ⟨h 0 (by decide), h 1 (by decide)⟩
  · rintro ⟨hlow, hhigh⟩ i hi
    rcases i with _ | _ | i
    · exact hlow
    · exact hhigh
    · omega

/-- Digits stand before the NUL. -/
theorem DigitsAt.le_length {index len : Nat} (h : DigitsAt text index len) (hpos : 0 < len) :
    index + len ≤ text.length := by
  have hlast := lt_length_of_isHexDigit (h (len - 1) (by omega))
  omega

theorem binaryChar2Value_cBlock (index : Nat) :
    binaryChar2Value (cBlock text) index =
      if DigitsAt text index 2 then some (textValue text index, index + 2) else none := by
  rw [binaryChar2Value, readCell_cBlock]
  by_cases hdigits : DigitsAt text index 2
  · obtain ⟨hlow, hhigh⟩ := digitsAt_two.mp hdigits
    have hlen := lt_length_of_isHexDigit hhigh
    rw [if_pos hdigits, if_pos (by omega), Option.bind_some]
    dsimp only
    rw [readCell_cBlock, if_pos (by omega), Option.bind_some]
    dsimp only
    rw [ascii2Number_eq, if_pos hhigh, Option.bind_some, ascii2Number_eq, if_pos hlow, Option.map_some]
    rfl
  · rw [if_neg hdigits]
    apply Option.eq_none_iff_forall_ne_some.mpr
    intro value h
    obtain ⟨⟨low, index'⟩, hreadLow, h⟩ := Option.bind_eq_some_iff.mp h
    obtain ⟨⟨high, index''⟩, hreadHigh, h⟩ := Option.bind_eq_some_iff.mp h
    obtain ⟨_, hhigh, h⟩ := Option.bind_eq_some_iff.mp h
    obtain ⟨_, hlow, _⟩ := Option.map_eq_some_iff.mp h
    obtain ⟨_, hreadLow⟩ := Option.ite_none_right_eq_some.mp hreadLow
    cases hreadLow
    rw [readCell_cBlock] at hreadHigh
    obtain ⟨_, hreadHigh⟩ := Option.ite_none_right_eq_some.mp hreadHigh
    cases hreadHigh
    rw [ascii2Number_eq] at hlow hhigh
    exact hdigits (digitsAt_two.mpr ⟨(Option.ite_none_right_eq_some.mp hlow).1,
      (Option.ite_none_right_eq_some.mp hhigh).1⟩)

/-- What is read in a text, as far as there are digits. -/
theorem readValues_cBlock (len index : Nat) : readValues (cBlock text) len index =
    if DigitsAt text index (2 * len) then some (textValues text len index, index + 2 * len) else none := by
  induction len generalizing index with
  | zero => exact (if_pos fun i hi => absurd hi (Nat.not_lt_zero i)).symm
  | succ len ih =>
      have hsplit : 2 * (len + 1) = 2 + 2 * len := by omega
      rw [readValues, binaryChar2Value_cBlock, hsplit]
      by_cases hfirst : DigitsAt text index 2
      · rw [if_pos hfirst, Option.bind_some]
        dsimp only
        rw [ih]
        by_cases hrest : DigitsAt text (index + 2) (2 * len)
        · rw [if_pos hrest, if_pos (digitsAt_add.mpr ⟨hfirst, hrest⟩), Option.map_some, textValues,
            Nat.add_assoc]
        · rw [if_neg hrest, if_neg fun h => hrest (digitsAt_add.mp h).2]
          rfl
      · rw [if_neg hfirst, if_neg fun h => hfirst (digitsAt_add.mp h).1]
        rfl

theorem readObjects_cBlock (count index : Nat) : readObjects (cBlock text) size count index =
    if DigitsAt text index (2 * (size * count)) then some (textObjects text size count index) else none := by
  induction count generalizing index with
  | zero =>
      rw [Nat.mul_zero]
      exact (if_pos fun i hi => absurd hi (Nat.not_lt_zero i)).symm
  | succ count ih =>
      have hsplit : 2 * (size * (count + 1)) = 2 * size + 2 * (size * count) := by rw [Nat.mul_succ]; omega
      rw [readObjects, readValues_cBlock, hsplit]
      by_cases hfirst : DigitsAt text index (2 * size)
      · rw [if_pos hfirst, Option.bind_some]
        dsimp only
        rw [ih]
        by_cases hrest : DigitsAt text (index + 2 * size) (2 * (size * count))
        · rw [if_pos hrest, if_pos (digitsAt_add.mpr ⟨hfirst, hrest⟩)]
          rfl
        · rw [if_neg hrest, if_neg fun h => hrest (digitsAt_add.mp h).2]
          rfl
      · rw [if_neg hfirst, if_neg fun h => hfirst (digitsAt_add.mp h).1]
        rfl

/-- The head of a text that begins with 16 digits; the reader stops at any other. -/
theorem parseDbHead_cBlock :
    parseDbHead (cBlock text) text.length = if DigitsAt text 0 16 then some (textValues text 8 0, 16) else none := by
  rw [parseDbHead]
  split
  next hshort =>
    rw [if_neg]
    intro hdigits
    have hlen := hdigits.le_length (by decide)
    omega
  next => exact readValues_cBlock 8 0

theorem head_version : (textValues text 8 0).getD 5 0 = dbVersion text := rfl

theorem head_realLen : (textValues text 8 0).drop 6 = textValues text 2 12 := rfl

/-! ## What the readers should do -/

/-- A length that is promised fits the one that is there: exactly, or it is not more. -/
def Promised (exact : Bool) (promised present : Nat) : Prop :=
  if exact then promised = present else promised ≤ present

theorem Promised.le {exact : Bool} {a b : Nat} (h : Promised exact a b) : a ≤ b := by
  cases exact with
  | true => exact Nat.le_of_eq h
  | false => exact h

/-- A head of the current version, with the length of the text behind it, all in digits. -/
structure HeadConsistent (exact : Bool) (text : List UInt8) : Prop where
  version : dbVersion text = 0
  length : Promised exact (16 + 2 * realLen text) text.length
  digits : DigitsAt text 0 (16 + 2 * realLen text)

/-- The text of an object; the empty text stands for no object. -/
def FlatConsistent (exact : Bool) (size : Nat) (text : List UInt8) : Prop :=
  text = [] ∨ HeadConsistent exact text ∧ realLen text = size

/-- The text of a list of objects. -/
def DynamicConsistent (exact : Bool) (size : Nat) (text : List UInt8) : Prop :=
  text = [] ∨ HeadConsistent exact text ∧ Promised exact (2 + dataSize text * size) (realLen text)

/-- The reader stays in the text, accepts only what is consistent, and changes nothing when it refuses. -/
def DecodesSafely {D : Type} (decode : D → List UInt8 → Option (Bool × D)) (Consistent : List UInt8 → Prop)
    (text : List UInt8) : Prop :=
  ∀ data, ∃ answer data', decode data text = some (answer, data') ∧ (answer = true → Consistent text) ∧
    (answer = false → data' = data)

/-- The text is empty, or begins with the digits of a head of the current version; and the head is refused, or the
    text is consistent. -/
def FlatDecodable (exact : Bool) (size : Nat) (text : List UInt8) : Prop :=
  text = [] ∨ DigitsAt text 0 16 ∧ dbVersion text = 0 ∧ (realLen text ≠ size ∨ FlatConsistent exact size text)

/-- The same, or the digits of a number follow and it is refused. -/
def DynamicDecodable (exact : Bool) (size : Nat) (text : List UInt8) : Prop :=
  text = [] ∨ DigitsAt text 0 16 ∧ dbVersion text = 0 ∧
    (realLen text < 2 ∨
      DigitsAt text 16 4 ∧ (realLen text - 2 < dataSize text * size ∨ DynamicConsistent exact size text))

/-! ## What they do -/

section Answers

variable {D : Type} {decode : D → List UInt8 → Option (Bool × D)} {Consistent : List UInt8 → Prop}

/-- A reader that refuses a text is safe, whatever the text. -/
theorem decodesSafely_of_refused (h : ∀ data, decode data text = some (false, data)) :
    DecodesSafely decode Consistent text := by
  intro data
  refine ⟨false, data, h data, ?_, fun _ => rfl⟩
  intro hfalse
  cases hfalse

variable [Inhabited D]

/-- A reader that accepts a text is safe if the text is consistent. -/
theorem decodesSafely_iff_of_accepted (h : ∀ data, ∃ data', decode data text = some (true, data')) :
    DecodesSafely decode Consistent text ↔ Consistent text := by
  constructor
  · intro hsafe
    obtain ⟨answer, data', hdecode, haccept, _⟩ := hsafe default
    obtain ⟨_, htrue⟩ := h default
    rw [htrue] at hdecode
    cases hdecode
    exact haccept rfl
  · intro hconsistent data
    obtain ⟨data', htrue⟩ := h data
    refine ⟨true, data', htrue, fun _ => hconsistent, ?_⟩
    intro hfalse
    cases hfalse

theorem not_decodesSafely_of_none (h : ∀ data, decode data text = none) : ¬ DecodesSafely decode Consistent text := by
  intro hsafe
  obtain ⟨answer, data', hdecode, _⟩ := hsafe default
  rw [h] at hdecode
  cases hdecode

/-- A reader that accepts a text where it finds digits, as it does in a consistent one, and fails elsewhere. -/
theorem decodesSafely_iff_of_ite {P : Prop} [Decidable P] {accepted : D → D}
    (h : ∀ data, decode data text = if P then some (true, accepted data) else none) (hP : Consistent text → P) :
    DecodesSafely decode Consistent text ↔ Consistent text := by
  by_cases hdigits : P
  · simp only [if_pos hdigits] at h
    exact decodesSafely_iff_of_accepted fun data => ⟨_, h data⟩
  · simp only [if_neg hdigits] at h
    exact iff_of_false (not_decodesSafely_of_none h) fun hconsistent => hdigits (hP hconsistent)

end Answers

theorem HeadConsistent.head {exact : Bool} (h : HeadConsistent exact text) : DigitsAt text 0 16 :=
  (digitsAt_add.mp h.digits).1

/-- `bstr_2_flat_struct` on a text that is not empty. -/
theorem bstr2FlatStruct_eq (hne : text ≠ []) (data : List UInt8) :
    bstr2FlatStruct size data text =
      if DigitsAt text 0 16 ∧ dbVersion text = 0 then
        if realLen text ≠ size then some (false, data)
        else if DigitsAt text 16 (2 * size) then some (true, textValues text size 16) else none
      else none := by
  have hlength : text.length ≠ 0 := fun h => hne (List.length_eq_zero_iff.mp h)
  rw [bstr2FlatStruct, if_neg hlength, parseDbHead_cBlock]
  by_cases hhead : DigitsAt text 0 16
  · rw [if_pos hhead, Option.bind_some]
    dsimp only
    rw [head_version, head_realLen, ← realLen]
    by_cases hversion : dbVersion text = 0
    · rw [if_pos hversion, if_pos ⟨hhead, hversion⟩, parseBstr]
      by_cases hlen : realLen text = size
      · rw [if_neg (not_not.mpr hlen.symm), if_neg (not_not.mpr hlen), hlen, readValues_cBlock]
        split <;> rfl
      · rw [if_pos (fun h => hlen h.symm), if_pos hlen]
    · rw [if_neg hversion, if_neg fun h => hversion h.2]
  · rw [if_neg hhead, if_neg fun h => hhead h.1]
    rfl

/-- `bstr_2_dynamic_struct` on a text that is not empty. -/
theorem bstr2DynamicStructInto_eq (hne : text ≠ []) (data : List (List UInt8)) :
    bstr2DynamicStructInto size data text =
      if DigitsAt text 0 16 ∧ dbVersion text = 0 then
        if realLen text < 2 then some (false, data)
        else if DigitsAt text 16 4 then
          if realLen text - 2 < dataSize text * size then some (false, data)
          else if DigitsAt text 20 (2 * (size * dataSize text)) then
            some (true, data ++ textObjects text size (dataSize text) 20)
          else none
        else none
      else none := by
  have hlength : text.length ≠ 0 := fun h => hne (List.length_eq_zero_iff.mp h)
  rw [bstr2DynamicStructInto, bstr2DynamicStructAnswer, if_neg hlength, parseDbHead_cBlock]
  by_cases hhead : DigitsAt text 0 16
  · rw [if_pos hhead, Option.bind_some]
    dsimp only
    rw [head_version, head_realLen, ← realLen]
    by_cases hversion : dbVersion text = 0
    · rw [if_pos hversion, if_pos ⟨hhead, hversion⟩, parseDynamicBstrAnswer]
      by_cases hlen : realLen text < 2
      · rw [if_pos hlen, if_pos hlen, Option.map_some, List.append_nil]
      · rw [if_neg hlen, if_neg hlen, readValues_cBlock]
        by_cases hnumber : DigitsAt text 16 (2 * 2)
        · rw [if_pos hnumber, if_pos hnumber, Option.bind_some]
          dsimp only
          rw [← dataSize]
          split
          · rw [Option.map_some, List.append_nil]
          · rw [readObjects_cBlock]
            split <;> rfl
        · rw [if_neg hnumber, if_neg hnumber]
          rfl
    · rw [if_neg hversion, if_neg fun h => hversion h.2]
      rfl
  · rw [if_neg hhead, if_neg fun h => hhead h.1]
    rfl

theorem flat_decodesSafely_iff (exact : Bool) :
    DecodesSafely (bstr2FlatStruct size) (FlatConsistent exact size) text ↔ FlatDecodable exact size text := by
  by_cases hnil : text = []
  · subst hnil
    exact iff_of_true ((decodesSafely_iff_of_accepted fun data => ⟨data, rfl⟩).mpr (Or.inl rfl)) (Or.inl rfl)
  have heq := @bstr2FlatStruct_eq size text hnil
  rw [FlatDecodable, or_iff_right hnil, ← and_assoc]
  by_cases hhead : DigitsAt text 0 16 ∧ dbVersion text = 0
  · simp only [if_pos hhead] at heq
    rw [and_iff_right hhead]
    by_cases hrefused : realLen text ≠ size
    · simp only [if_pos hrefused] at heq
      exact iff_of_true (decodesSafely_of_refused heq) (Or.inl hrefused)
    · simp only [if_neg hrefused] at heq
      rw [or_iff_right hrefused]
      apply decodesSafely_iff_of_ite heq
      rintro (hempty | ⟨hconsistent, hlen⟩)
      · exact absurd hempty hnil
      · have hdigits := hconsistent.digits
        rw [hlen] at hdigits
        exact (digitsAt_add.mp hdigits).2
  · simp only [if_neg hhead] at heq
    exact iff_of_false (not_decodesSafely_of_none heq) fun h => hhead h.1

theorem dynamic_decodesSafely_iff (exact : Bool) :
    DecodesSafely (bstr2DynamicStructInto size) (DynamicConsistent exact size) text ↔
      DynamicDecodable exact size text := by
  by_cases hnil : text = []
  · subst hnil
    exact iff_of_true ((decodesSafely_iff_of_accepted fun data => ⟨_, rfl⟩).mpr (Or.inl rfl)) (Or.inl rfl)
  -- the checks of the source in their order; where one is missing, an assertion ends the process
  have heq := @bstr2DynamicStructInto_eq size text hnil
  rw [DynamicDecodable, or_iff_right hnil, ← and_assoc]
  by_cases hhead : DigitsAt text 0 16 ∧ dbVersion text = 0
  · simp only [if_pos hhead] at heq
    rw [and_iff_right hhead]
    by_cases hrefused : realLen text < 2
    · simp only [if_pos hrefused] at heq
      exact iff_of_true (decodesSafely_of_refused heq) (Or.inl hrefused)
    · simp only [if_neg hrefused] at heq
      rw [or_iff_right hrefused]
      by_cases hnumber : DigitsAt text 16 4
      · simp only [if_pos hnumber] at heq
        rw [and_iff_right hnumber]
        by_cases hless : realLen text - 2 < dataSize text * size
        · simp only [if_pos hless] at heq
          exact iff_of_true (decodesSafely_of_refused heq) (Or.inl hless)
        · simp only [if_neg hless] at heq
          rw [or_iff_right hless]
          apply decodesSafely_iff_of_ite heq
          rintro (hempty | ⟨hconsistent, hcount⟩)
          · exact absurd hempty hnil
          · have hobjects := hcount.le
            rw [Nat.mul_comm] at hobjects
            intro i hi
            rw [← Nat.zero_add (20 + i)]
            exact hconsistent.digits (20 + i) (by omega)
      · simp only [if_neg hnumber] at heq
        exact iff_of_false (not_decodesSafely_of_none heq) fun h => hnumber h.1
  · simp only [if_neg hhead] at heq
    exact iff_of_false (not_decodesSafely_of_none heq) fun h => hhead h.1

namespace Blob

/-- **Which texts are decoded safely**, by either reader and for either meaning of a length that is consistent. -/
theorem decodesSafely_iff (exact : Bool) (size : Nat) (text : List UInt8) :
    (DecodesSafely (bstr2FlatStruct size) (FlatConsistent exact size) text ↔ FlatDecodable exact size text) ∧
    (DecodesSafely (bstr2DynamicStructInto size) (DynamicConsistent exact size) text ↔
      DynamicDecodable exact size text) :=
  ⟨flat_decodesSafely_iff exact, dynamic_decodesSafely_iff exact⟩

/-- A text of 9 characters: its NUL is taken for a digit of the head. -/
theorem not_decodesSafely_nine :
    ¬ DecodesSafely (bstr2DynamicStructInto 24) (DynamicConsistent false 24) (ascii "000000000") := by
  intro h
  obtain ⟨_, _, hdecode, _⟩ := h []
  cases hdecode

end Blob

end Mowang
