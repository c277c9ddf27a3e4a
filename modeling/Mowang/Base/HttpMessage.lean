import Mowang.Base.Json
import Mowang.Base.PropertyTree
import Mowang.Base.Search

/-!
# `Base.HttpMessage` — the grammar of a response

A response is a status line, header fields, a blank line and a body. A body under the chunked transfer coding is a
list of sized chunks, a chunk of size 0, and a trailer.

## Contents
- `Line`, `block` — lines up to a blank one, and `block_ends`.
- `StatusLine`.
- `SizeLine`, `Chunk`, `ChunkedBody`; `SizeLine.find?_text`, `ChunkedBody.content_length_lt`.
-/

namespace HttpMessage

open Search

def crlf : List UInt8 := [13, 10]

/-- The end of the header. -/
def blankLine : List UInt8 := crlf ++ crlf

/-! ## Lines -/

/-- A header field, without its line end. -/
structure Line where
  text : List UInt8
  nonempty : text ≠ []
  plain : ∀ c ∈ text, c ≠ 13 ∧ c ≠ 10 ∧ c ≠ 0

/-- The lines, and a blank one. -/
def block (lines : List Line) : List UInt8 := lines.flatMap (fun l => l.text ++ crlf) ++ crlf

theorem block_cons (l : Line) (lines : List Line) : block (l :: lines) = l.text ++ (crlf ++ block lines) := by
  simp only [block, List.flatMap_cons, List.append_assoc]

theorem nulFree_block (lines : List Line) : NulFree (block lines) := by
  induction lines with
  | nil => decide
  | cons l lines ih =>
      rw [block_cons, nulFree_append, nulFree_append]
      exact ⟨fun h => (l.plain 0 h).2.2 rfl, by decide, ih⟩

theorem Line.head_ne (l : Line) {rest : List UInt8} : ¬ crlf <+: l.text ++ rest := by
  obtain ⟨c, text, htext⟩ := List.exists_cons_of_ne_nil l.nonempty
  rw [htext]
  intro hpre
  exact (l.plain c (htext ▸ List.mem_cons_self)).1 (List.cons_prefix_cons.mp hpre).1.symm

/-- No blank line begins at the end of a line that another one follows. -/
theorem find?_blankLine_crlf {rest : List UInt8} (hrest : ¬ crlf <+: rest) :
    find? blankLine (crlf ++ rest) = (find? blankLine rest).map (· + 2) := by
  have hfirst : ¬ blankLine <+: 13 :: 10 :: rest := by
    rintro ⟨t, ht⟩
    exact hrest ⟨t, (List.cons.inj (List.cons.inj ht).2).2⟩
  have hsecond : ¬ blankLine <+: 10 :: rest := fun hpre => absurd (List.cons_prefix_cons.mp hpre).1 (by decide)
  show find? blankLine (13 :: 10 :: rest) = _
  rw [find?_cons hfirst, find?_cons hsecond, Option.map_map]
  rfl

/-- The first blank line is the one behind the last line. -/
theorem block_ends {lines : List Line} (hlines : lines ≠ []) : Ends blankLine (block lines) := by
  induction lines with
  | nil => exact absurd rfl hlines
  | cons l lines ih =>
      have hcr : (13 : UInt8) ∉ l.text := fun h => (l.plain 13 h).1 rfl
      have hleft := @find?_append_left _ _ [10, 13, 10] l.text 13 hcr (crlf ++ block lines)
      rw [Ends, block_cons]
      refine hleft.trans ?_
      cases lines with
      | nil =>
          have hhere : find? blankLine (crlf ++ block []) = some 0 := by decide
          refine (congrArg (Option.map (· + l.text.length)) hhere).trans ?_
          simp [blankLine, block, crlf]
      | cons l' lines =>
          have hnext : ¬ crlf <+: block (l' :: lines) := by
            rw [block_cons]
            exact l'.head_ne
          have hrest := ih (List.cons_ne_nil _ _)
          have hle := hrest.length_le (by decide)
          refine (congrArg (Option.map (· + l.text.length)) (find?_blankLine_crlf hnext)).trans ?_
          rw [hrest, Option.map_some, Option.map_some, Option.some.injEq]
          have hcrlf : crlf.length = 2 := rfl
          simp only [List.length_append, hcrlf]
          omega

/-! ## The status line -/

/-- `HTTP-version SP status-code SP reason-phrase CRLF`. -/
structure StatusLine where
  version : List UInt8
  code : List UInt8
  reason : List UInt8
  http : ascii "HTTP/" <+: version
  token : ∀ c ∈ version, isSpace c = false
  digits : ∀ c ∈ code, isDigit c = true
  three : code.length = 3
  plain : ∀ c ∈ reason, c ≠ 13 ∧ c ≠ 10

def StatusLine.bytes (l : StatusLine) : List UInt8 := l.version ++ 32 :: (l.code ++ 32 :: (l.reason ++ crlf))

/-- The line ends where its first line end is. -/
theorem StatusLine.ends (l : StatusLine) : Ends crlf l.bytes := by
  have hsplit : l.bytes = (l.version ++ 32 :: (l.code ++ 32 :: l.reason)) ++ crlf := by
    simp only [StatusLine.bytes, List.append_assoc, List.cons_append]
  have hcr : (13 : UInt8) ∉ l.version ++ 32 :: (l.code ++ 32 :: l.reason) := by
    intro h
    rcases List.mem_append.mp h with h | h
    · exact absurd (l.token 13 h) (by decide)
    · rcases List.mem_append.mp (List.mem_of_ne_of_mem (by decide) h) with h | h
      · exact absurd (l.digits 13 h) (by decide)
      · exact (l.plain 13 (List.mem_of_ne_of_mem (by decide) h)).1 rfl
  have hleft := @find?_append_left _ _ [10] _ 13 hcr crlf
  have hhere : find? crlf crlf = some 0 := find?_eq_zero (List.prefix_refl crlf)
  rw [Ends, hsplit, List.length_append, Nat.add_sub_cancel]
  refine hleft.trans ((congrArg (Option.map _) hhere).trans ?_)
  rw [Option.map_some, Nat.zero_add]

/-! ## The chunked transfer coding -/

def isHexDigit (c : UInt8) : Bool := (Json.hexDigit c).isSome

/-- The value of a run of hexadecimal digits. -/
def hexValue (digits : List UInt8) : Nat := digits.foldl (fun v c => 16 * v + (Json.hexDigit c).getD 0) 0

/-- The size of a chunk, and what may stand behind it. -/
structure SizeLine where
  size : List UInt8
  extension : List UInt8
  nonempty : size ≠ []
  digits : ∀ c ∈ size, isHexDigit c = true
  /-- A semicolon, or a blank before it. -/
  begins : ∀ c, extension.head? = some c → c = 59 ∨ c = 32 ∨ c = 9
  plain : ∀ c ∈ extension, c ≠ 13 ∧ c ≠ 10

def SizeLine.text (l : SizeLine) : List UInt8 := l.size ++ l.extension

def SizeLine.value (l : SizeLine) : Nat := hexValue l.size

structure Chunk extends SizeLine where
  data : List UInt8
  counts : toSizeLine.value = data.length
  data_ne_nil : data ≠ []

def Chunk.bytes (c : Chunk) : List UInt8 := c.text ++ (crlf ++ (c.data ++ crlf))

structure ChunkedBody where
  chunks : List Chunk
  last : SizeLine
  last_zero : last.value = 0
  trailer : List Line

namespace ChunkedBody

def bytes (b : ChunkedBody) : List UInt8 := b.chunks.flatMap Chunk.bytes ++ (b.last.text ++ (crlf ++ block b.trailer))

/-- The chunks, put together. -/
def content (b : ChunkedBody) : List UInt8 := b.chunks.flatMap Chunk.data

end ChunkedBody

theorem isHexDigit_ne_cr {c : UInt8} (h : isHexDigit c = true) : c ≠ 13 := by
  rintro rfl
  exact absurd h (by decide)

/-- A size line ends where its first line end is. -/
theorem SizeLine.find?_text (l : SizeLine) (rest : List UInt8) :
    find? crlf (l.text ++ (crlf ++ rest)) = some l.text.length := by
  have hcr : (13 : UInt8) ∉ l.text := by
    intro h
    rcases List.mem_append.mp h with h | h
    · exact isHexDigit_ne_cr (l.digits 13 h) rfl
    · exact (l.plain 13 h).1 rfl
  have hleft := @find?_append_left _ _ [10] l.text 13 hcr (crlf ++ rest)
  refine hleft.trans ?_
  have hhere : find? crlf (crlf ++ rest) = some 0 := find?_eq_zero (List.prefix_append _ _)
  refine (congrArg (Option.map (· + l.text.length)) hhere).trans ?_
  simp

theorem ChunkedBody.content_length_lt (b : ChunkedBody) : b.content.length < b.bytes.length := by
  have hchunks : ∀ chunks : List Chunk, (chunks.flatMap Chunk.data).length ≤ (chunks.flatMap Chunk.bytes).length := by
    intro chunks
    induction chunks with
    | nil => exact Nat.le_refl 0
    | cons c chunks ih =>
        simp only [List.flatMap_cons, List.length_append, Chunk.bytes]
        omega
  have hle := hchunks b.chunks
  have hcrlf : crlf.length = 2 := rfl
  simp only [content, bytes, List.length_append, hcrlf]
  omega

end HttpMessage
