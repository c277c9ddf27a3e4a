import Mowang.Share.BinaryString

/-!
# `Share.ListBlobs` — which lists of objects come back from their text

The writer of a text leaves an empty list out, and the buffer as it was; the lengths in a text are 16-bit; and
`allocate_binary_string` counts neither the two bytes of the number nor the NUL. `Blob.returns_iff` says which lists
come back from what is left in the buffer, and `Blob.fits_iff` which of them the buffer has room for.

## Contents
- `bstr2DynamicStructAnswer` — what `bstr_2_dynamic_struct` returns, with the vector.
- `answer_dynamicText_iff` — the texts that are read back.
- `Blob.Returns`, `Blob.Fits`, and when they hold.
-/

namespace Mowang

open LittleEndian Block

variable {n size : Nat}

/-! ## Reading, with the answer -/

/-- `parse_dynamic_bstr`: its answer, and the vector. -/
def parseDynamicBstrAnswer (bstr : Block UInt8 n) (size index len : Nat) : Option (Bool × List (List UInt8)) :=
  if len < 2 then some (false, [])
  else
    (readValues bstr 2 index).bind fun (dataSize, index) =>
    if len - 2 < ofLe dataSize * size then some (false, [])
    else (readObjects bstr size (ofLe dataSize) index).map fun objects => (true, objects)

/-- `bstr_2_dynamic_struct` into an empty vector: its answer, and the vector. -/
def bstr2DynamicStructAnswer (size : Nat) (bstr : List UInt8) : Option (Bool × List (List UInt8)) :=
  if bstr.length = 0 then some (true, [])
  else
    (parseDbHead (cBlock bstr) bstr.length).bind fun (head, index) =>
    -- a version below the current one, which is 0, does not exist, and one above it is asserted not to
    if head.getD 5 0 = 0 then parseDynamicBstrAnswer (cBlock bstr) size index (ofLe (head.drop 6)) else none

/-- The vector is the one that `bstr2DynamicStruct` gives. -/
theorem bstr2DynamicStructAnswer_snd (size : Nat) (bstr : List UInt8) :
    (bstr2DynamicStructAnswer size bstr).map Prod.snd = bstr2DynamicStruct size bstr := by
  have hparse : ∀ index len, (parseDynamicBstrAnswer (cBlock bstr) size index len).map Prod.snd =
      parseDynamicBstr (cBlock bstr) size index len := by
    intro index len
    rw [parseDynamicBstrAnswer, parseDynamicBstr]
    split
    · rfl
    rw [Option.map_bind]
    congr 1
    apply funext
    rintro ⟨dataSize, index⟩
    simp only [Function.comp_apply]
    split
    · rfl
    · rw [Option.map_map]
      exact Option.map_id'
  rw [bstr2DynamicStructAnswer, bstr2DynamicStruct]
  split
  · rfl
  rw [Option.map_bind]
  show (parseDbHead (cBlock bstr) _).bind _ = (parseDbHead (cBlock bstr) _).bind _
  congr 1
  apply funext
  rintro ⟨head, index⟩
  simp only [Function.comp_apply]
  split
  · exact hparse index _
  · rfl

theorem readObjects_length {bstr : Block UInt8 n} {count index : Nat} {objects : List (List UInt8)}
    (h : readObjects bstr size count index = some objects) : objects.length = count := by
  induction count generalizing index objects with
  | zero =>
      cases h
      rfl
  | succ count ih =>
      obtain ⟨⟨values, index'⟩, _, hrest⟩ := Option.bind_eq_some_iff.mp h
      obtain ⟨rest, hread, rfl⟩ := Option.map_eq_some_iff.mp hrest
      rw [List.length_cons, ih hread]

/-- What is read in a text: its length and its number, as they are after 16 bits. -/
theorem answer_dynamicText_eq (now : DbTime) (data : List (Pod size)) :
    bstr2DynamicStructAnswer size (dynamicText now data) =
      if (2 + size * data.length) % 2 ^ 16 < 2 then some (false, [])
      else if (2 + size * data.length) % 2 ^ 16 - 2 < data.length % 2 ^ 16 * size then some (false, [])
      else (readObjects (cBlock (dynamicText now data)) size (data.length % 2 ^ 16) 20).map fun objects =>
          (true, objects) := by
  have htext := dynamicText_length now data
  obtain ⟨hhead, hnumber, _⟩ := dynamicText_reads now data
  have hreal : ofLe ((headBytes now (2 + size * data.length)).drop 6) = (2 + size * data.length) % 2 ^ 16 :=
    ofLe_leBytes 2 _
  have hversion : (headBytes now (2 + size * data.length)).getD 5 0 = 0 := rfl
  rw [bstr2DynamicStructAnswer, if_neg (by omega), parseDbHead, if_neg (by omega), hhead, Option.bind_some]
  dsimp only
  rw [if_pos hversion, hreal, parseDynamicBstrAnswer, hnumber, Option.bind_some]
  dsimp only
  rw [ofLe_leBytes]
  rfl

/-- **The texts that are read back** are those whose number and whose length fit 16 bits. -/
theorem answer_dynamicText_iff (now : DbTime) (data : List (Pod size)) :
    bstr2DynamicStructAnswer size (dynamicText now data) = some (true, data.map Block.cells) ↔
      data.length < 2 ^ 16 ∧ 2 + size * data.length < 2 ^ 16 := by
  rw [answer_dynamicText_eq]
  constructor
  · intro h
    split at h
    · cases h
    split at h
    · cases h
    rename_i hlen hcount
    obtain ⟨objects, hobjects, hdata⟩ := Option.map_eq_some_iff.mp h
    cases hdata
    have hnumber := readObjects_length hobjects
    rw [List.length_map] at hnumber
    -- the number is not cut off, so the length that was read is as large as the text
    rw [← hnumber, Nat.mul_comm data.length] at hcount
    omega
  · rintro ⟨hcount, hlen⟩
    rw [Nat.mod_eq_of_lt hcount, Nat.mod_eq_of_lt hlen, if_neg (by omega),
      if_neg (by rw [Nat.mul_comm data.length]; omega),
      (dynamicText_reads now data).2.2]
    rfl

/-! ## What is left in a buffer -/

namespace Blob

/-- A list comes back from the buffer that was allocated for it, at any time and whatever was in the memory. -/
def Returns (usable : Nat → Nat) (data : List (Pod size)) : Prop :=
  ∀ (now : DbTime) (fresh : Nat → UInt8), ∃ buffer written text,
    allocateBinaryString usable fresh (size * data.length) = some buffer ∧
    dynamicStruct2Bstr now data buffer = some written ∧ written.readCStr 0 = some text ∧
    bstr2DynamicStructAnswer size text = some (true, data.map Block.cells)

/-- The buffer that was allocated for a list has room for all that is written of it. -/
def Fits (usable : Nat → Nat) (data : List (Pod size)) : Prop :=
  ∀ (now : DbTime) (fresh : Nat → UInt8), ∃ buffer written,
    allocateBinaryString usable fresh (size * data.length) = some buffer ∧
      dynamicStruct2Bstr now data buffer = some written

/-- A list that is not empty is written where there is room for 21 characters more than its objects take. -/
theorem written_iff (usable : Nat → Nat) (now : DbTime) (fresh : Nat → UInt8) {data : List (Pod size)}
    (hne : data ≠ []) :
    (∃ buffer written, allocateBinaryString usable fresh (size * data.length) = some buffer ∧
        dynamicStruct2Bstr now data buffer = some written) ↔
      binaryStringLen (size * data.length % 2 ^ 16) < usable (binaryStringMaxLen (size * data.length % 2 ^ 16)) ∧
      21 + 2 * (size * data.length) ≤ usable (binaryStringMaxLen (size * data.length % 2 ^ 16)) := by
  constructor
  · rintro ⟨buffer, written, hallocate, hwritten⟩
    refine ⟨?_, (dynamicStruct2Bstr_spec now hne hwritten).1⟩
    by_contra hroom
    rw [allocateBinaryString, write?_eq_none (by rw [List.length_singleton]; omega)] at hallocate
    cases hallocate
  · rintro ⟨hlen, hroom⟩
    have hallocate : ∃ buffer, allocateBinaryString usable fresh (size * data.length) = some buffer :=
      ⟨_, write?_eq (by rw [List.length_singleton]; omega)⟩
    obtain ⟨buffer, hallocate⟩ := hallocate
    obtain ⟨written, hwritten⟩ := dynamicStruct2Bstr_isSome now hne buffer hroom
    exact ⟨buffer, written, hallocate, hwritten⟩

/-! ### Room -/

/-- The buffer for `s` bytes of objects has room for them, with the number and the NUL, up to 21 bytes. -/
theorem binaryStringMaxLen_room_iff (s : Nat) :
    binaryStringLen (s % 2 ^ 16) < binaryStringMaxLen (s % 2 ^ 16) ∧ 21 + 2 * s ≤ binaryStringMaxLen (s % 2 ^ 16) ↔
      s ≤ 21 := by
  simp only [binaryStringMaxLen, binaryStringLen]
  omega

/-- **Which lists a buffer has room for.** An empty list, of which nothing is written, and one of up to 21 bytes. -/
theorem fits_iff (data : List (Pod size)) : Fits id data ↔ data = [] ∨ size * data.length ≤ 21 := by
  by_cases hne : data = []
  · subst hne
    refine iff_of_true (fun now fresh => ?_) (Or.inl rfl)
    have hroom : binaryStringLen (0 % 2 ^ 16) + [(0 : UInt8)].length ≤ binaryStringMaxLen (0 % 2 ^ 16) := by decide
    exact ⟨_, _, write?_eq hroom, dynamicStruct2Bstr_nil now _⟩
  · rw [← binaryStringMaxLen_room_iff]
    constructor
    · intro h
      exact Or.inr ((written_iff id ⟨0, 0, 0, 0, 0⟩ (fun _ => 0) hne).mp (h _ _))
    · rintro (hnil | hroom) now fresh
      · exact absurd hnil hne
      · exact (written_iff id now fresh hne).mpr hroom

/-- One object of 24 bytes, the size of a `building_info`: it takes 69 characters, and the buffer has 66. -/
theorem not_fits_one : ¬ Fits id [(⟨List.replicate 24 0, rfl⟩ : Pod 24)] := by
  intro h
  have hroom := (written_iff id ⟨0, 0, 0, 0, 0⟩ (fun _ => 0) (List.cons_ne_nil _ _)).mp (h _ _)
  have hle := (binaryStringMaxLen_room_iff _).mp hroom
  revert hle
  decide

/-! ### Round trip -/

/-- The buffer of an empty list, in memory that holds one character. -/
theorem readCStr_allocate {usable : Nat → Nat} {c : UInt8} (hc : c ≠ 0) {buffer}
    (h : allocateBinaryString usable (fun _ => c) 0 = some buffer) :
    buffer.readCStr 0 = some (List.replicate 17 c) := by
  by_cases hroom : binaryStringLen (0 % 2 ^ 16) + [(0 : UInt8)].length ≤ usable (binaryStringMaxLen (0 % 2 ^ 16))
  · rw [allocateBinaryString, write?_eq hroom] at h
    cases h
    have hfirst : (newChars usable (fun _ => c) (binaryStringMaxLen (0 % 2 ^ 16))).slice 0 17 = List.replicate 17 c := by
      have hfit : 17 ≤ usable (binaryStringMaxLen (0 % 2 ^ 16)) := Nat.le_of_succ_le hroom
      rw [slice, newChars, List.drop_zero, ← List.map_take, List.take_range, Nat.min_eq_left hfit]
      rfl
    refine readCStr_eq_some.mpr ⟨fun hmem => hc (List.eq_of_mem_replicate hmem).symm, has_append.mpr ⟨⟨?_, ?_⟩, ?_⟩⟩
    · exact Nat.le_trans (Nat.le_succ 17) hroom
    · exact (slice_write_before hroom (Nat.le_refl 17)).trans hfirst
    · exact ⟨hroom, slice_write_self hroom⟩
  · rw [allocateBinaryString, write?_eq_none (Nat.lt_of_not_le hroom)] at h
    cases h

/-- No empty list comes back: the buffer may have held 17 digits, whose version is asserted not to exist. -/
theorem not_returns_nil (usable : Nat → Nat) : ¬ Returns usable ([] : List (Pod size)) := by
  intro h
  obtain ⟨buffer, written, text, hallocate, hwritten, htext, hanswer⟩ := h ⟨0, 0, 0, 0, 0⟩ fun _ => 49
  cases hwritten
  rw [readCStr_allocate (by decide) hallocate] at htext
  cases htext
  cases hanswer

/-- In the exact memory of the buffer, no empty list of 24-byte objects comes back. -/
theorem not_returns_empty : ¬ Returns id ([] : List (Pod 24)) := not_returns_nil id

/-- **Which lists come back.** Those that are not empty, whose number and length fit 16 bits, and for whose text there
    is room in the memory of the buffer. -/
theorem returns_iff (usable : Nat → Nat) (data : List (Pod size)) :
    Returns usable data ↔ data ≠ [] ∧ data.length < 2 ^ 16 ∧ 2 + size * data.length < 2 ^ 16 ∧
      21 + 2 * (size * data.length) ≤ usable (binaryStringMaxLen (size * data.length)) := by
  by_cases hne : data = []
  · subst hne
    exact iff_of_false (not_returns_nil usable) fun h => h.1 rfl
  constructor
  · intro h
    obtain ⟨buffer, written, text, hallocate, hwritten, htext, hanswer⟩ := h ⟨0, 0, 0, 0, 0⟩ fun _ => 0
    obtain ⟨hroom, htext'⟩ := dynamicStruct2Bstr_spec _ hne hwritten
    rw [htext'] at htext
    cases htext
    obtain ⟨hcount, hlen⟩ := (answer_dynamicText_iff _ data).mp hanswer
    rw [Nat.mod_eq_of_lt (by omega)] at hroom
    exact ⟨hne, hcount, hlen, hroom⟩
  · rintro ⟨_, hcount, hlen, hroom⟩ now fresh
    have hmod : size * data.length % 2 ^ 16 = size * data.length := Nat.mod_eq_of_lt (by omega)
    have hnul : binaryStringLen (size * data.length) ≤ (size * data.length + 8) * 2 + 1 := Nat.mod_le _ _
    obtain ⟨buffer, written, hallocate, hwritten⟩ := (written_iff usable now fresh hne).mpr (by
      rw [hmod]
      exact ⟨by omega, hroom⟩)
    exact ⟨buffer, written, _, hallocate, hwritten, (dynamicStruct2Bstr_spec now hne hwritten).2,
      (answer_dynamicText_iff now data).mpr ⟨hcount, hlen⟩⟩

end Blob

end Mowang
