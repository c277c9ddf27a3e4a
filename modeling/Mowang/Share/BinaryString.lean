import Mowang.Base.CString
import Mowang.Share.RpcParam

/-!
# `Share.BinaryString` — objects as text in a column of the database

`dynamic_struct_2_bstr` writes the bytes of a list of objects as characters, two for each byte, the lower half
first, behind a head of 8 bytes and the number of objects. `allocate_binary_string` makes room for the head
and the objects, and forgets the two bytes of the number. An object is its bytes.

What `new char[n]` hands out is a block of `usable n` bytes that hold anything. Every makefile defines `LIB_DEBUG`,
so that `gxAssert(false)` ends the process: a reader that comes to one is `none`, as it is where it reads past the end.

## Contents
- `mwToString`.
- `allocateBinaryString`, `dynamicStruct2Bstr`, `bstr2DynamicStruct`.
- `dynamicStruct2Bstr_spec`, `bstr2DynamicStruct_dynamicText` — what is written, and that it is read back.
-/

namespace Mowang

open LittleEndian Block

/-- `mw_to_string`: `vsnprintf` keeps 2046 characters of the text. -/
def mwToString (text : List UInt8) : List UInt8 := text.take 2046

theorem mwToString_eq_self {text : List UInt8} (h : text.length ≤ 2046) : mwToString text = text :=
  List.take_of_length_le h

/-! ## Characters -/

/-- `number_2_ascii`; its callers mask the value, so that it does not come to the assertion. -/
def number2Ascii (value : UInt8) : UInt8 := if value > 15 then 63 else (ascii "0123456789ABCDEF").getD value.toNat 63

/-- `ascii_2_number`, which asserts that the character is a digit. -/
def ascii2Number (value : UInt8) : Option UInt8 :=
  if 48 ≤ value ∧ value ≤ 57 then some (value - 48)
  else if 65 ≤ value ∧ value ≤ 70 then some (value - 55)
  else none

/-- The two characters that `value_2_binary_char` writes. -/
def value2BinaryChar (n : UInt8) : List UInt8 := [number2Ascii (n &&& 15), number2Ascii (n >>> 4 &&& 15)]

def binaryChars (bytes : List UInt8) : List UInt8 := bytes.flatMap value2BinaryChar

/-! ## Writing -/

/-- `binary_string_head`, without the length: the time, and `INVALID_DB_VERSION`. -/
structure DbTime where
  month : UInt8
  day : UInt8
  hour : UInt8
  minute : UInt8
  second : UInt8

/-- The bytes of a `binary_string_head`. -/
def headBytes (now : DbTime) (realLen : Nat) : List UInt8 :=
  [now.month, now.day, now.hour, now.minute, now.second, 0] ++ leBytes 2 realLen

/-- `new char[n]`. -/
def newChars (usable : Nat → Nat) (fresh : Nat → UInt8) (n : Nat) : Block UInt8 (usable n) :=
  ⟨(List.range (usable n)).map fresh, by rw [List.length_map, List.length_range]⟩

/-- `m_len` of `allocate_binary_string`. -/
def binaryStringLen (size : Nat) : Nat := ((size + 8) * 2 + 1) % 2 ^ 16

/-- `m_max_len` of a `dynamic_string(NULL, len)`. -/
def binaryStringMaxLen (size : Nat) : Nat := max (binaryStringLen size + 1) 64 % 2 ^ 16

/-- `allocate_binary_string`, for a size that is passed as a `uint16`. -/
def allocateBinaryString (usable : Nat → Nat) (fresh : Nat → UInt8) (size : Nat) :
    Option (Block UInt8 (usable (binaryStringMaxLen (size % 2 ^ 16)))) :=
  (newChars usable fresh _).write? (binaryStringLen (size % 2 ^ 16)) [0]

variable {n size : Nat}

/-- `dynamic_struct_2_bstr`: for an empty list it leaves the buffer as it is. -/
def dynamicStruct2Bstr (now : DbTime) (data : List (Pod size)) (buffer : Block UInt8 n) : Option (Block UInt8 n) :=
  if data.isEmpty then some buffer
  else
    (writeBytes (binaryChars (headBytes now (2 + size * data.length))) buffer 0).bind fun (buffer, index) =>
    (writeBytes (binaryChars (leBytes 2 data.length)) buffer index).bind fun (buffer, index) =>
    (writeBytes (binaryChars (data.flatMap Block.cells)) buffer index).bind fun (buffer, index) =>
    (writeBytes [0] buffer index).map Prod.fst

/-! ## Reading -/

/-- `binary_char_2_value`. -/
def binaryChar2Value (bstr : Block UInt8 n) (index : Nat) : Option (UInt8 × Nat) :=
  (bstr.readCell index).bind fun (low, index) =>
  (bstr.readCell index).bind fun (high, index) =>
  (ascii2Number high).bind fun high =>
  (ascii2Number low).map fun low => ((high <<< 4) + low, index)

/-- `len` bytes, one after the other. -/
def readValues (bstr : Block UInt8 n) : Nat → Nat → Option (List UInt8 × Nat)
  | 0,       index => some ([], index)
  | len + 1, index =>
    (binaryChar2Value bstr index).bind fun (value, index) =>
    (readValues bstr len index).map fun (values, index) => (value :: values, index)

/-- The objects of `parse_dynamic_bstr`. -/
def readObjects (bstr : Block UInt8 n) (size : Nat) : Nat → Nat → Option (List (List UInt8))
  | 0,         _     => some []
  | count + 1, index =>
    (readValues bstr size index).bind fun (values, index) =>
    (readObjects bstr size count index).map fun objects => values :: objects

/-- `parse_dynamic_bstr`: what is too short for its count is no object at all. -/
def parseDynamicBstr (bstr : Block UInt8 n) (size index len : Nat) : Option (List (List UInt8)) :=
  if len < 2 then some []
  else
    (readValues bstr 2 index).bind fun (dataSize, index) =>
    if len - 2 < ofLe dataSize * size then some [] else readObjects bstr size (ofLe dataSize) index

/-- `parse_db_head`, which asserts that the text has more than 8 characters. -/
def parseDbHead (bstr : Block UInt8 n) (strlen : Nat) : Option (List UInt8 × Nat) :=
  if strlen ≤ 8 then none else readValues bstr 8 0

/-- `bstr_2_dynamic_struct` into an empty vector. The current version is 0, and a larger one is asserted not to be. -/
def bstr2DynamicStruct (size : Nat) (bstr : List UInt8) : Option (List (List UInt8)) :=
  if bstr.length = 0 then some []
  else
    let block : Block UInt8 (bstr ++ [0]).length := ⟨bstr ++ [0], rfl⟩
    (parseDbHead block bstr.length).bind fun (head, index) =>
    if head.getD 5 0 = 0 then parseDynamicBstr block size index (ofLe (head.drop 6)) else none

/-! ## What is written -/

/-- The text of a list of objects. -/
def dynamicText (now : DbTime) (data : List (Pod size)) : List UInt8 :=
  binaryChars (headBytes now (2 + size * data.length) ++ (leBytes 2 data.length ++ data.flatMap Block.cells))

theorem binaryChars_append (xs ys : List UInt8) : binaryChars (xs ++ ys) = binaryChars xs ++ binaryChars ys :=
  List.flatMap_append

theorem binaryChars_length (bytes : List UInt8) : (binaryChars bytes).length = 2 * bytes.length := by
  induction bytes with
  | nil => rfl
  | cons b bytes ih =>
      rw [binaryChars, List.flatMap_cons, List.length_append, List.length_cons, ← binaryChars, ih]
      simp only [value2BinaryChar, List.length_cons, List.length_nil]
      omega

theorem dynamicText_length (now : DbTime) (data : List (Pod size)) :
    (dynamicText now data).length = 20 + 2 * (size * data.length) := by
  rw [dynamicText, binaryChars_length, List.length_append, List.length_append, flatMap_cells_length, headBytes]
  simp only [List.length_append, List.length_cons, List.length_nil, leBytes_length]
  omega

theorem mem_ascii_hex {k : Nat} (h : k < 16) : number2Ascii (UInt8.ofNat k) < 128 ∧ number2Ascii (UInt8.ofNat k) ≠ 0 ∧
    number2Ascii (UInt8.ofNat k) ≠ 39 ∧ number2Ascii (UInt8.ofNat k) ≠ 92 := by
  revert k
  decide

theorem and15_lt (b : UInt8) : ∃ k < 16, b &&& 15 = UInt8.ofNat k := by
  refine ⟨(b &&& 15).toNat, ?_, (UInt8.ofNat_toNat).symm⟩
  have hmod : b.toNat &&& 15 = b.toNat % 16 := Nat.and_two_pow_sub_one_eq_mod b.toNat 4
  rw [UInt8.toNat_and]
  show b.toNat &&& 15 < 16
  omega

/-- The characters are digits: of ASCII, no NUL, no quote, no backslash. -/
theorem mem_binaryChars {bytes : List UInt8} {c : UInt8} (h : c ∈ binaryChars bytes) :
    c < 128 ∧ c ≠ 0 ∧ c ≠ 39 ∧ c ≠ 92 := by
  obtain ⟨b, _, hc⟩ := List.mem_flatMap.mp h
  rcases List.mem_cons.mp hc with rfl | hc
  · obtain ⟨k, hk, heq⟩ := and15_lt b
    rw [heq]
    exact mem_ascii_hex hk
  · rw [List.mem_singleton.mp hc]
    obtain ⟨k, hk, heq⟩ := and15_lt (b >>> 4)
    rw [heq]
    exact mem_ascii_hex hk

theorem nulFree_dynamicText (now : DbTime) (data : List (Pod size)) : NulFree (dynamicText now data) :=
  fun h => (mem_binaryChars h).2.1 rfl

theorem ascii_dynamicText (now : DbTime) (data : List (Pod size)) : ∀ c ∈ dynamicText now data, c < 128 :=
  fun _ hc => (mem_binaryChars hc).1

/-- A list that is not empty is written as its text with a NUL behind it, or leaves the buffer. -/
theorem dynamicStruct2Bstr_eq (now : DbTime) {data : List (Pod size)} (hne : data ≠ []) (buffer : Block UInt8 n) :
    dynamicStruct2Bstr now data buffer = (writeBytes (dynamicText now data ++ [0]) buffer 0).map Prod.fst := by
  have hemits := (emits_writeBytes (n := n) (binaryChars (headBytes now (2 + size * data.length)))).bind
    ((emits_writeBytes (binaryChars (leBytes 2 data.length))).bind
      ((emits_writeBytes (binaryChars (data.flatMap Block.cells))).bind (emits_writeBytes [0])))
  have hwrite := hemits buffer 0 (Nat.zero_le n)
  rw [dynamicStruct2Bstr, if_neg (by simpa using hne), dynamicText, binaryChars_append, binaryChars_append,
    List.append_assoc, List.append_assoc, ← hwrite]
  simp only [Option.map_bind, Function.comp_def]

/-- What `%s` prints of the text, where it was written. -/
theorem dynamicStruct2Bstr_spec (now : DbTime) {data : List (Pod size)} (hne : data ≠ []) {buffer buffer' : Block UInt8 n}
    (h : dynamicStruct2Bstr now data buffer = some buffer') :
    21 + 2 * (size * data.length) ≤ n ∧ buffer'.readCStr 0 = some (dynamicText now data) := by
  have hlen : (dynamicText now data ++ [0]).length = 21 + 2 * (size * data.length) := by
    rw [List.length_append, dynamicText_length, List.length_singleton]
    omega
  rw [dynamicStruct2Bstr_eq now hne] at h
  have hfit : 0 + (dynamicText now data ++ [0]).length ≤ n := by
    by_contra hnot
    rw [writeBytes_eq_none (Nat.lt_of_not_le hnot)] at h
    cases h
  obtain ⟨b, hwrite, hhas, _⟩ := writeBytes_spec (b := buffer) hfit
  rw [hwrite] at h
  cases h
  exact ⟨by omega, readCStr_eq_some.mpr ⟨nulFree_dynamicText now data, hhas⟩⟩

/-- It is written where there is room. -/
theorem dynamicStruct2Bstr_isSome (now : DbTime) {data : List (Pod size)} (hne : data ≠ []) (buffer : Block UInt8 n)
    (hroom : 21 + 2 * (size * data.length) ≤ n) : ∃ buffer', dynamicStruct2Bstr now data buffer = some buffer' := by
  have hfit : 0 + (dynamicText now data ++ [0]).length ≤ n := by
    rw [List.length_append, dynamicText_length, List.length_singleton]
    omega
  obtain ⟨b, hwrite, _⟩ := writeBytes_spec (b := buffer) hfit
  exact ⟨b, by rw [dynamicStruct2Bstr_eq now hne, hwrite]; rfl⟩

theorem dynamicStruct2Bstr_nil (now : DbTime) (buffer : Block UInt8 n) :
    dynamicStruct2Bstr now ([] : List (Pod size)) buffer = some buffer := rfl

/-! ## What is read -/

theorem ascii2Number_number2Ascii {k : Nat} (h : k < 16) :
    ascii2Number (number2Ascii (UInt8.ofNat k)) = some (UInt8.ofNat k) := by
  revert k
  decide

/-- The two halves of a byte. -/
theorem halves (b : UInt8) : (b >>> 4 &&& 15) <<< 4 + (b &&& 15) = b := by
  have hmod : ∀ k, k &&& 15 = k % 16 := fun k => Nat.and_two_pow_sub_one_eq_mod k 4
  have hlt := b.toNat_lt
  apply UInt8.toNat_inj.mp
  rw [UInt8.toNat_add, UInt8.toNat_shiftLeft, UInt8.toNat_and, UInt8.toNat_and, UInt8.toNat_shiftRight]
  simp only [UInt8.reduceToNat, Nat.reduceMod]
  rw [hmod, hmod, Nat.shiftRight_eq_div_pow, Nat.shiftLeft_eq]
  omega

variable {bstr : Block UInt8 n}

theorem binaryChar2Value_eq {index : Nat} {b : UInt8} (h : bstr.Has index (value2BinaryChar b)) :
    binaryChar2Value bstr index = some (b, index + 2) := by
  obtain ⟨hlow, hhigh⟩ := has_append.mp (show bstr.Has index ([_] ++ [_]) from h)
  obtain ⟨k, hk, hlowEq⟩ := and15_lt b
  obtain ⟨l, hl, hhighEq⟩ := and15_lt (b >>> 4)
  have hreadLow := readCell_eq_some.mpr ⟨hlow, rfl⟩
  have hreadHigh : bstr.readCell (index + 1) = some (_, index + 2) := readCell_eq_some.mpr ⟨hhigh, rfl⟩
  simp only [binaryChar2Value, hreadLow, Option.bind_some, hreadHigh, hlowEq, hhighEq,
    ascii2Number_number2Ascii hk, ascii2Number_number2Ascii hl, Option.map_some]
  rw [← hlowEq, ← hhighEq, halves]

/-- The characters of `bytes` are read back. -/
theorem readValues_eq {bytes : List UInt8} {index : Nat} (h : bstr.Has index (binaryChars bytes)) :
    readValues bstr bytes.length index = some (bytes, index + 2 * bytes.length) := by
  induction bytes generalizing index with
  | nil => rfl
  | cons b bytes ih =>
      obtain ⟨hb, hrest⟩ := has_append.mp (show bstr.Has index (value2BinaryChar b ++ binaryChars bytes) from h)
      have hread : readValues bstr bytes.length (index + 2) = some (bytes, index + 2 + 2 * bytes.length) := ih hrest
      simp only [List.length_cons, readValues, binaryChar2Value_eq hb, Option.bind_some, hread, Option.map_some,
        Option.some.injEq, Prod.mk.injEq, true_and]
      omega

theorem readObjects_eq {data : List (Pod size)} {index : Nat}
    (h : bstr.Has index (binaryChars (data.flatMap Block.cells))) :
    readObjects bstr size data.length index = some (data.map Block.cells) := by
  induction data generalizing index with
  | nil => rfl
  | cons x data ih =>
      rw [List.flatMap_cons, binaryChars_append, has_append, binaryChars_length, x.size_eq] at h
      have hread := readValues_eq h.1
      rw [x.size_eq] at hread
      simp only [List.length_cons, readObjects, hread, Option.bind_some, ih h.2, Option.map_some, List.map_cons]

/-- A text with the NUL behind it, as the reader gets it. -/
def cBlock (text : List UInt8) : Block UInt8 (text ++ [0]).length := ⟨text ++ [0], rfl⟩

/-- What the reader finds in a text: the head, the number behind it, and the objects behind the number. -/
theorem dynamicText_reads (now : DbTime) (data : List (Pod size)) :
    readValues (cBlock (dynamicText now data)) 8 0 = some (headBytes now (2 + size * data.length), 16) ∧
    readValues (cBlock (dynamicText now data)) 2 16 = some (leBytes 2 data.length, 20) ∧
    readObjects (cBlock (dynamicText now data)) size data.length 20 = some (data.map Block.cells) := by
  have hblock : (cBlock (dynamicText now data)).Has 0 (binaryChars (headBytes now (2 + size * data.length)) ++
      (binaryChars (leBytes 2 data.length) ++ binaryChars (data.flatMap Block.cells))) := by
    rw [← binaryChars_append, ← binaryChars_append]
    exact (has_append.mp (has_cells (cBlock (dynamicText now data)))).1
  rw [has_append, has_append, binaryChars_length, binaryChars_length, leBytes_length] at hblock
  obtain ⟨hhead, hnumber, hobjects⟩ := hblock
  have hheadLen : (headBytes now (2 + size * data.length)).length = 8 := by simp [headBytes]
  have hreadHead := readValues_eq hhead
  have hreadNumber := readValues_eq hnumber
  have hreadObjects := readObjects_eq hobjects
  rw [hheadLen] at hreadHead hreadNumber hreadObjects
  rw [leBytes_length] at hreadNumber
  exact ⟨hreadHead, hreadNumber, hreadObjects⟩

/-- **What was written is read back**, up to 65535 bytes of objects. -/
theorem bstr2DynamicStruct_dynamicText (now : DbTime) (data : List (Pod size))
    (hlen : 2 + size * data.length < 65536) (hcount : data.length < 65536) :
    bstr2DynamicStruct size (dynamicText now data) = some (data.map Block.cells) := by
  have htext := dynamicText_length now data
  obtain ⟨hreadHead, hreadNumber, hreadObjects⟩ := dynamicText_reads now data
  have hreal : ofLe ((headBytes now (2 + size * data.length)).drop 6) = 2 + size * data.length :=
    ofLe_leBytes_of_lt hlen
  have hversion : (headBytes now (2 + size * data.length)).getD 5 0 = 0 := rfl
  have hnumberBack : ofLe (leBytes 2 data.length) = data.length := ofLe_leBytes_of_lt hcount
  have hparse : parseDynamicBstr (cBlock (dynamicText now data)) size 16 (2 + size * data.length) =
      some (data.map Block.cells) := by
    rw [parseDynamicBstr, if_neg (by omega)]
    simp only [hreadNumber, Option.bind_some, hnumberBack]
    rw [if_neg (by rw [Nat.mul_comm]; omega)]
    exact hreadObjects
  rw [bstr2DynamicStruct, if_neg (by omega)]
  show ((parseDbHead (cBlock _) _).bind _) = _
  rw [parseDbHead, if_neg (by omega), hreadHead, Option.bind_some]
  dsimp only
  rw [if_pos hversion, hreal]
  exact hparse

end Mowang
