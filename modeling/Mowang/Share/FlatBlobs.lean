import Mowang.Share.BlobDecoding

/-!
# `Share.FlatBlobs` — one object as text, and back

`flat_struct_2_bstr` writes the head and the bytes of one object, two characters for each byte, and a NUL. What
`sizeof` says is narrowed to 16 bits; the head has that length, and it bounds the loop over the object.

## Contents
- `flatStruct2Bstr`, and `flatStruct2Bstr_eq`, all that it writes.
- `bstr2FlatStruct_flatText` — the text is read back.
- `FlatBlob.round_trip`.
-/

namespace Mowang

open LittleEndian Block

variable {n size : Nat}

/-- `flat_struct_2_bstr`. -/
def flatStruct2Bstr (now : DbTime) (data : Pod size) (buffer : Block UInt8 n) : Option (Block UInt8 n) :=
  let len := size % 2 ^ 16
  (writeBytes (binaryChars (headBytes now len)) buffer 0).bind fun (buffer, index) =>
  (writeBytes (binaryChars (data.cells.take len)) buffer index).bind fun (buffer, index) =>
  (writeBytes [0] buffer index).map Prod.fst

/-- The text of an object of less than 65536 bytes. -/
def flatText (now : DbTime) (data : Pod size) : List UInt8 := binaryChars (headBytes now size ++ data.cells)

theorem headBytes_length (now : DbTime) (realLen : Nat) : (headBytes now realLen).length = 8 := by
  rw [headBytes, List.length_append, leBytes_length]
  rfl

theorem flatText_length (now : DbTime) (data : Pod size) : (flatText now data).length = 2 * (8 + size) := by
  rw [flatText, binaryChars_length, List.length_append, headBytes_length, data.size_eq]

/-- Each character is a digit that `ascii_2_number` knows. -/
theorem isHexDigit_of_mem {bytes : List UInt8} {c : UInt8} (h : c ∈ binaryChars bytes) : isHexDigit c = true := by
  have htable : ∀ k < 16, isHexDigit (number2Ascii (UInt8.ofNat k)) = true := by decide
  obtain ⟨b, _, hc⟩ := List.mem_flatMap.mp h
  rcases List.mem_cons.mp hc with rfl | hc
  · obtain ⟨k, hk, heq⟩ := and15_lt b
    rw [heq]
    exact htable k hk
  · rw [List.mem_singleton.mp hc]
    obtain ⟨k, hk, heq⟩ := and15_lt (b >>> 4)
    rw [heq]
    exact htable k hk

theorem nulFree_flatText (now : DbTime) (data : Pod size) : NulFree (flatText now data) :=
  fun h => (mem_binaryChars h).2.1 rfl

/-- The text and the NUL behind it are written, or nothing is. -/
theorem flatStruct2Bstr_eq (now : DbTime) (data : Pod size) (hsize : size < 2 ^ 16) (buffer : Block UInt8 n) :
    flatStruct2Bstr now data buffer = (writeBytes (flatText now data ++ [0]) buffer 0).map Prod.fst := by
  have hemits := (emits_writeBytes (n := n) (binaryChars (headBytes now size))).bind
    ((emits_writeBytes (binaryChars data.cells)).bind (emits_writeBytes [0]))
  have hwrite := hemits buffer 0 (Nat.zero_le n)
  have hall : data.cells.take size = data.cells := List.take_of_length_le (Nat.le_of_eq data.size_eq)
  rw [flatStruct2Bstr, Nat.mod_eq_of_lt hsize, hall, flatText, binaryChars_append, List.append_assoc, ← hwrite]
  simp only [Option.map_bind, Function.comp_def]

/-- The text is read back into an object that holds anything. -/
theorem bstr2FlatStruct_flatText (now : DbTime) (data : Pod size) (hsize : size < 2 ^ 16) (old : List UInt8) :
    bstr2FlatStruct size old (flatText now data) = some (true, data.cells) := by
  have hlength := flatText_length now data
  have hblock : (cBlock (flatText now data)).Has 0 (binaryChars (headBytes now size) ++ binaryChars data.cells) := by
    rw [← binaryChars_append]
    exact (has_append.mp (has_cells (cBlock (flatText now data)))).1
  obtain ⟨hhead, hdata⟩ := has_append.mp hblock
  have hreadHead := readValues_eq hhead
  have hreadData := readValues_eq hdata
  -- the running index stands behind the head when the object is read
  rw [binaryChars_length] at hreadData
  rw [headBytes_length] at hreadHead hreadData
  rw [data.size_eq] at hreadData
  have hreal : ofLe ((headBytes now size).drop 6) = size := ofLe_leBytes_of_lt hsize
  have hversion : (headBytes now size).getD 5 0 = 0 := rfl
  rw [bstr2FlatStruct, if_neg (by omega), parseDbHead, if_neg (by omega), hreadHead, Option.bind_some]
  dsimp only
  rw [if_pos hversion, hreal, parseBstr, if_neg (not_not.mpr rfl)]
  rw [hreadData]
  rfl

namespace FlatBlob

/-- **Round trip.** The text of an object is written exactly where there is room for it and its NUL. It has two digits
    for each byte of the head and the object, and is read back as the object, whatever is written over. -/
theorem round_trip (hsize : size ≤ 65535) (data : Pod size) (now : DbTime) (buffer : Block UInt8 n) :
    ((∃ written, flatStruct2Bstr now data buffer = some written) ↔ 2 * (8 + size) + 1 ≤ n) ∧
      ∀ written, flatStruct2Bstr now data buffer = some written →
        ∃ text, written.readCStr 0 = some text ∧ text.length = 2 * (8 + size) ∧
          (∀ c ∈ text, isHexDigit c = true) ∧ ∀ old, bstr2FlatStruct size old text = some (true, data.cells) := by
  have hlt : size < 2 ^ 16 := by omega
  have hlength : (flatText now data ++ [0]).length = 2 * (8 + size) + 1 := by
    rw [List.length_append, flatText_length, List.length_singleton]
  rw [flatStruct2Bstr_eq now data hlt]
  by_cases hroom : 0 + (flatText now data ++ [0]).length ≤ n
  · obtain ⟨b, hwrite, hhas, _⟩ := writeBytes_spec (b := buffer) hroom
    rw [hwrite]
    refine ⟨iff_of_true ⟨b, rfl⟩ (by omega), fun written hwritten => ?_⟩
    cases hwritten
    exact ⟨flatText now data, readCStr_eq_some.mpr ⟨nulFree_flatText now data, hhas⟩, flatText_length now data,
      fun c hc => isHexDigit_of_mem hc, bstr2FlatStruct_flatText now data hlt⟩
  · rw [writeBytes_eq_none (Nat.lt_of_not_le hroom)]
    exact ⟨iff_of_false nofun (by omega), nofun⟩

theorem round_trip_two : ∃ written text,
    flatStruct2Bstr ⟨1, 2, 3, 4, 5⟩ (⟨[0xAB, 0], rfl⟩ : Pod 2) (Block.fill 21 7) = some written ∧
      written.readCStr 0 = some text ∧ bstr2FlatStruct 2 [1, 1] text = some (true, [0xAB, 0]) := by
  obtain ⟨hwritten, hread⟩ := round_trip (by decide) (⟨[0xAB, 0], rfl⟩ : Pod 2) ⟨1, 2, 3, 4, 5⟩ (Block.fill 21 7)
  obtain ⟨written, hwrite⟩ := hwritten.mpr (Nat.le_refl 21)
  obtain ⟨text, htext, _, _, hback⟩ := hread written hwrite
  exact ⟨written, text, hwrite, htext, hback [1, 1]⟩

end FlatBlob

end Mowang
