import Mowang.Base.HttpMessage

/-!
# `HttpClient.BodyDecoding` — the loop of `handle_read_body` over a chunked body

The loop takes a size from the start of each line, and goes on behind as many bytes as it says, whether they are there
or not. The positions are `int`s and the sizes 16 bits wide; `none` is the exception of a `substr` that begins behind
the end.

A body is a `dynamic_string`, so it is shorter than 65536 bytes. On any such body the loop ends without an exception,
because a position only grows where a line end was found; on a chunked body it puts the chunks together.

## Contents
- `toInt`, `find`, `substr?`, `strtol16`, `decodeLoop`, `decode?`.
- `decodeLoop_line` — one turn of the loop.
- `decode?_spec`, on any body, and `decode?_bytes`, on a chunked one.
-/

namespace Mowang.HttpProxy

open Search HttpMessage

/-- The conversion of a `size_t` to an `int`. -/
def toInt (n : Nat) : Int := (n : Int).bmod (2 ^ 32)

def npos : Nat := 2 ^ 64 - 1

/-- `std::string::find`. -/
def find (s pat : List UInt8) (pos : Nat) : Nat :=
  if pos ≤ s.length then ((find? pat (s.drop pos)).map (pos + ·)).getD npos else npos

/-- `std::string::substr`. -/
def substr? (s : List UInt8) (pos n : Nat) : Option (List UInt8) :=
  if pos ≤ s.length then some ((s.drop pos).take n) else none

/-- An optional `0x`. -/
def skip0x : List UInt8 → List UInt8
  | 48 :: c :: digits => if c = 120 ∨ c = 88 then digits else 48 :: c :: digits
  | text              => text

/-- `strtol` to base 16, where a `long` has 64 bits. -/
def strtol16 (text : List UInt8) : Int :=
  let text := text.dropWhile isSpace
  let negative := text.head? = some 45
  let text := if negative || text.head? = some 43 then text.tail else text
  let v : Int := hexValue ((skip0x text).takeWhile isHexDigit)
  max (-2 ^ 63) (min (2 ^ 63 - 1) (if negative then -v else v))

/-- The loop over `cur_body`, from `total_offset` and `tmp` on. -/
def decodeLoop (curBody : List UInt8) : Nat → Nat → List UInt8 → Option (List UInt8)
  | 0, _, _                    => none
  | fuel + 1, totalOffset, tmp =>
    let offset := toInt (find curBody crlf totalOffset)
    if offset < 1 then some tmp
    else
      let len := ((offset - totalOffset) % 2 ^ 16).toNat
      (substr? curBody totalOffset len).bind fun size =>
      let len := (strtol16 (cstr size) % 2 ^ 16).toNat
      if len = 0 then some tmp
      else
        let totalOffset := offset.toNat + 2
        (substr? curBody totalOffset len).bind fun data =>
        decodeLoop curBody fuel (totalOffset + len + 2) (tmp ++ data)

/-- What the loop makes of `cur_body`; it takes no more turns than there are bytes. -/
def decode? (curBody : List UInt8) : Option (List UInt8) := decodeLoop curBody (curBody.length + 1) 0 []

/-! ## Positions -/

theorem toInt_eq {n : Nat} (h : n < 2 ^ 31) : toInt n = n := Int.bmod_eq_of_le (by omega) (by omega)

theorem toInt_npos : toInt npos = -1 := by decide

theorem find_zero (s pat : List UInt8) : find s pat 0 = (find? pat s).getD npos := by
  simp [find]

theorem find_append (front rest pat : List UInt8) :
    find (front ++ rest) pat front.length = ((find? pat rest).map (front.length + ·)).getD npos := by
  rw [find, if_pos (by simp), List.drop_left]

theorem find_past {s pat : List UInt8} {pos : Nat} (h : s.length < pos) : find s pat pos = npos := if_neg (by omega)

theorem substr?_append (front rest : List UInt8) (n : Nat) :
    substr? (front ++ rest) front.length n = some (rest.take n) := by
  rw [substr?, if_pos (by simp), List.drop_left]

/-! ## One turn -/

variable {curBody tmp : List UInt8} {fuel totalOffset : Nat}

/-- Where no line ends, the loop ends. -/
theorem decodeLoop_done (h : find curBody crlf totalOffset = npos) :
    decodeLoop curBody (fuel + 1) totalOffset tmp = some tmp := by
  rw [decodeLoop]
  simp only [h, toInt_npos]
  exact if_pos (by decide)

/-- What the loop does with a line: its size says how much of what follows is data. -/
theorem decodeLoop_line {front line rest : List UInt8} (hline : find? crlf (line ++ (crlf ++ rest)) = some line.length)
    (hshort : (front ++ (line ++ (crlf ++ rest))).length < 2 ^ 16) :
    decodeLoop (front ++ (line ++ (crlf ++ rest))) (fuel + 1) front.length tmp =
      if front.length + line.length < 1 then some tmp
      else
        let len := (strtol16 (cstr line) % 2 ^ 16).toNat
        if len = 0 then some tmp
        else
          decodeLoop (front ++ (line ++ (crlf ++ rest))) fuel (front.length + line.length + 2 + len + 2)
            (tmp ++ rest.take len) := by
  have hcrlf : crlf.length = 2 := rfl
  simp only [List.length_append, hcrlf] at hshort
  have hoffset : toInt (find (front ++ (line ++ (crlf ++ rest))) crlf front.length) =
      (front.length + line.length : Nat) := by
    rw [find_append, hline, Option.map_some, Option.getD_some, toInt_eq (by omega)]
  have hlen : (((front.length + line.length : Nat) : Int) - front.length) % 2 ^ 16 = line.length := by omega
  have hsize : substr? (front ++ (line ++ (crlf ++ rest))) front.length line.length = some line := by
    rw [substr?_append, List.take_left]
  have hdata : ∀ len, substr? (front ++ (line ++ (crlf ++ rest))) (front.length + line.length + 2) len =
      some (rest.take len) := by
    intro len
    have h := substr?_append (front ++ (line ++ crlf)) rest len
    simp only [List.length_append, hcrlf, List.append_assoc] at h
    rwa [← Nat.add_assoc] at h
  rw [decodeLoop]
  simp only [hoffset, hlen, Int.toNat_natCast, hsize, hdata, Option.bind_some]
  exact if_congr (by omega) rfl rfl

/-! ## Any body -/

/-- **The loop ends**, if it may take as many turns as there are bytes left, and what it adds is shorter than they
    are. -/
theorem decodeLoop_spec (hshort : curBody.length < 2 ^ 16) (hfuel : curBody.length < fuel + totalOffset)
    (hpos : 0 < fuel) :
    ∃ out, decodeLoop curBody fuel totalOffset tmp = some out ∧
      (out = tmp ∨ out.length + totalOffset + 2 ≤ tmp.length + curBody.length) := by
  induction fuel generalizing totalOffset tmp with
  | zero => exact absurd hpos (Nat.lt_irrefl 0)
  | succ fuel ih =>
      by_cases hpast : curBody.length < totalOffset
      · exact ⟨tmp, decodeLoop_done (find_past hpast), Or.inl rfl⟩
      obtain ⟨front, rest, rfl, rfl⟩ : ∃ front rest, curBody = front ++ rest ∧ totalOffset = front.length :=
        ⟨curBody.take totalOffset, curBody.drop totalOffset, (List.take_append_drop _ _).symm, by simp; omega⟩
      cases hfind : find? crlf rest with
      | none =>
          refine ⟨tmp, decodeLoop_done ?_, Or.inl rfl⟩
          rw [find_append, hfind]
          rfl
      | some k =>
          -- the line, its end, and what is behind it
          obtain ⟨more, hmore⟩ := (find?_eq_some_iff.mp hfind).1
          have hk := find?_le hfind (by decide)
          obtain ⟨line, rfl, rfl⟩ : ∃ line, rest = line ++ (crlf ++ more) ∧ k = line.length :=
            ⟨rest.take k, by rw [hmore, List.take_append_drop], by simp; omega⟩
          rw [decodeLoop_line hfind hshort]
          have hcrlf : crlf.length = 2 := rfl
          simp only [List.length_append, hcrlf] at hshort hfuel ⊢
          split
          · exact ⟨tmp, rfl, Or.inl rfl⟩
          generalize (strtol16 (cstr line) % 2 ^ 16).toNat = len
          by_cases hlen : len = 0
          · exact ⟨tmp, if_pos hlen, Or.inl rfl⟩
          · rw [if_neg hlen]
            have htake := List.length_take (i := len) (l := more)
            obtain ⟨out, hout, hbound⟩ := @ih (tmp ++ more.take len) (front.length + line.length + 2 + len + 2)
              (by simp only [List.length_append, hcrlf]; omega) (by omega)
            refine ⟨out, hout, Or.inr ?_⟩
            rcases hbound with rfl | hbound
            · rw [List.length_append, htake]
              omega
            · simp only [List.length_append, hcrlf, htake] at hbound
              omega

/-- On any body the loop ends without an exception, with nothing or with less than the body. -/
theorem decode?_spec (hshort : curBody.length < 2 ^ 16) :
    ∃ out, decode? curBody = some out ∧ (out = [] ∨ out.length + 2 ≤ curBody.length) := by
  obtain ⟨out, hout, hbound⟩ := @decodeLoop_spec curBody [] (curBody.length + 1) 0 hshort (by omega) (by omega)
  exact ⟨out, hout, by simpa using hbound⟩

/-! ## A chunked body -/

theorem isHexDigit_range {c : UInt8} (h : isHexDigit c = true) :
    48 ≤ c.toNat ∧ c.toNat ≤ 57 ∨ 65 ≤ c.toNat ∧ c.toNat ≤ 70 ∨ 97 ≤ c.toNat ∧ c.toNat ≤ 102 := by
  unfold isHexDigit Json.hexDigit at h
  split at h
  next hd =>
      simp only [isDigit, Bool.and_eq_true, decide_eq_true_eq, UInt8.le_iff_toNat_le] at hd
      exact Or.inl hd
  next =>
      split at h
      next hd =>
          simp only [Bool.and_eq_true, decide_eq_true_eq, UInt8.le_iff_toNat_le] at hd
          exact Or.inr (Or.inl hd)
      next =>
          split at h
          next hd =>
              simp only [Bool.and_eq_true, decide_eq_true_eq, UInt8.le_iff_toNat_le] at hd
              exact Or.inr (Or.inr hd)
          next => cases h

theorem skip0x_eq {text : List UInt8} (h : ∀ c, text[1]? = some c → c ≠ 120 ∧ c ≠ 88) : skip0x text = text := by
  unfold skip0x
  split
  · next c digits => exact if_neg fun hc => hc.elim (h c rfl).1 (h c rfl).2
  · rfl

/-- The digits of a size end where its extension begins. -/
theorem takeWhile_text (l : SizeLine) : l.text.takeWhile isHexDigit = l.size := by
  rw [SizeLine.text, List.takeWhile_append_of_pos l.digits]
  cases hext : l.extension with
  | nil => rw [List.takeWhile_nil, List.append_nil]
  | cons c rest =>
      have hc : isHexDigit c = false := by
        rcases l.begins c (by rw [hext]; rfl) with rfl | rfl | rfl <;> decide
      rw [List.takeWhile_cons_of_neg (by simp [hc]), List.append_nil]

/-- A size is read up to what stands behind it. -/
theorem strtol16_text (l : SizeLine) (hsmall : l.value < 2 ^ 16) : strtol16 l.text = l.value := by
  have htake := takeWhile_text l
  have hnext : skip0x l.text = l.text := by
    refine skip0x_eq fun c hc => ?_
    -- the second byte is a digit, or begins the extension
    have hclass : isHexDigit c = true ∨ c = 59 ∨ c = 32 ∨ c = 9 := by
      rw [SizeLine.text, List.getElem?_append] at hc
      split at hc
      · exact Or.inl (l.digits c (List.mem_of_getElem? hc))
      · have hone : 1 - l.size.length = 0 := by
          have := List.length_pos_iff.mpr l.nonempty
          omega
        rw [hone, ← List.head?_eq_getElem?] at hc
        exact Or.inr (l.begins c hc)
    rcases hclass with hhex | rfl | rfl | rfl
    · have hrange := isHexDigit_range hhex
      constructor <;> (rintro rfl; revert hrange; decide)
    all_goals decide
  obtain ⟨d, size, hsize⟩ := List.exists_cons_of_ne_nil l.nonempty
  have hd := isHexDigit_range (l.digits d (hsize ▸ List.mem_cons_self))
  have hspace : isSpace d = false := isSpace_of_le (by omega)
  have hne : ∀ c : UInt8, c.toNat < 48 → d ≠ c := by
    rintro c hc rfl
    omega
  have htext : l.text = d :: (size ++ l.extension) := by
    rw [SizeLine.text, hsize]
    rfl
  have hdrop : l.text.dropWhile isSpace = l.text := by
    rw [htext, List.dropWhile_cons_of_neg (by simp [hspace])]
  have hhead : l.text.head? = some d := by rw [htext]; rfl
  rw [strtol16]
  simp only [hdrop, hhead, Option.some.injEq, hne 45 (by decide), hne 43 (by decide), decide_false, Bool.or_self,
    Bool.false_eq_true, if_false, hnext, htake]
  rw [SizeLine.value] at hsmall ⊢
  omega

/-- A line of a size that is 16 bits wide. -/
theorem decodeLoop_sizeLine {front rest : List UInt8} (l : SizeLine)
    (hshort : (front ++ (l.text ++ (crlf ++ rest))).length < 2 ^ 16) (hnul : NulFree l.text)
    (hsmall : l.value < 2 ^ 16) :
    decodeLoop (front ++ (l.text ++ (crlf ++ rest))) (fuel + 1) front.length tmp =
      if l.value = 0 then some tmp
      else
        decodeLoop (front ++ (l.text ++ (crlf ++ rest))) fuel (front.length + l.text.length + 2 + l.value + 2)
          (tmp ++ rest.take l.value) := by
  have hpos : 0 < l.text.length := by
    rw [SizeLine.text, List.length_append]
    exact Nat.add_pos_left (List.length_pos_iff.mpr l.nonempty) _
  have hvalue : (strtol16 (cstr l.text) % 2 ^ 16).toNat = l.value := by
    rw [cstr_eq_self hnul, strtol16_text l hsmall]
    omega
  rw [decodeLoop_line (l.find?_text rest) hshort, if_neg (by omega)]
  simp only [hvalue]

theorem decodeLoop_chunks (last : SizeLine) (hzero : last.value = 0) (trailer : List UInt8) {chunks : List Chunk}
    {front : List UInt8}
    (hshort : (front ++ (chunks.flatMap Chunk.bytes ++ (last.text ++ (crlf ++ trailer)))).length < 2 ^ 16)
    (hnul : NulFree (chunks.flatMap Chunk.bytes ++ (last.text ++ (crlf ++ trailer)))) (hfuel : chunks.length < fuel) :
    decodeLoop (front ++ (chunks.flatMap Chunk.bytes ++ (last.text ++ (crlf ++ trailer)))) fuel front.length tmp =
      some (tmp ++ chunks.flatMap Chunk.data) := by
  induction chunks generalizing front fuel tmp with
  | nil =>
      obtain ⟨fuel, rfl⟩ : ∃ k, fuel = k + 1 := ⟨fuel - 1, by rw [List.length_nil] at hfuel; omega⟩
      rw [List.flatMap_nil, List.nil_append] at hshort hnul ⊢
      rw [decodeLoop_sizeLine last hshort (nulFree_append.mp hnul).1 (by omega), if_pos hzero, List.flatMap_nil,
        List.append_nil]
  | cons c chunks ih =>
      obtain ⟨fuel, rfl⟩ : ∃ k, fuel = k + 1 := ⟨fuel - 1, by rw [List.length_cons] at hfuel; omega⟩
      have hcounts := c.counts
      have hdata : 0 < c.data.length := List.length_pos_iff.mpr c.data_ne_nil
      have hcrlf : crlf.length = 2 := rfl
      -- the chunk, and what follows it
      have hcut : ∀ more : List UInt8, front ++ (List.flatMap Chunk.bytes (c :: chunks) ++ more) =
          front ++ (c.text ++ (crlf ++ (c.data ++ (crlf ++ (chunks.flatMap Chunk.bytes ++ more))))) := by
        intro more
        simp only [List.flatMap_cons, Chunk.bytes, List.append_assoc]
      have hnext : ∀ more : List UInt8, front ++ (List.flatMap Chunk.bytes (c :: chunks) ++ more) =
          (front ++ c.bytes) ++ (chunks.flatMap Chunk.bytes ++ more) := by
        intro more
        simp only [List.flatMap_cons, List.append_assoc]
      have htext : NulFree c.text := by
        rw [List.flatMap_cons, Chunk.bytes, List.append_assoc, List.append_assoc] at hnul
        exact (nulFree_append.mp hnul).1
      have hrest : NulFree (chunks.flatMap Chunk.bytes ++ (last.text ++ (crlf ++ trailer))) := by
        rw [List.flatMap_cons, List.append_assoc] at hnul
        exact (nulFree_append.mp hnul).2
      have hsmall : c.data.length < 2 ^ 16 := by
        rw [hcut] at hshort
        simp only [List.length_append] at hshort
        omega
      rw [hcut] at hshort ⊢
      rw [decodeLoop_sizeLine c.toSizeLine hshort htext (by omega), if_neg (by omega), hcounts, List.take_left, ← hcut,
        hnext]
      have hat : front.length + c.text.length + 2 + c.data.length + 2 = (front ++ c.bytes).length := by
        simp only [Chunk.bytes, List.length_append, hcrlf]
        omega
      rw [← hcut, hnext] at hshort
      rw [hat, ih hshort hrest (by rw [List.length_cons] at hfuel; omega), List.flatMap_cons, List.append_assoc]

/-- **The loop puts the chunks together.** -/
theorem decode?_bytes (b : ChunkedBody) (hshort : b.bytes.length < 2 ^ 16) (hnul : NulFree b.bytes) :
    decode? b.bytes = some b.content := by
  have hcount : b.chunks.length < b.bytes.length + 1 := by
    have hle : ∀ chunks : List Chunk, chunks.length ≤ (chunks.flatMap Chunk.bytes).length := by
      intro chunks
      induction chunks with
      | nil => exact Nat.le_refl 0
      | cons c chunks ih =>
          have hpos : 0 < c.data.length := List.length_pos_iff.mpr c.data_ne_nil
          simp only [List.flatMap_cons, List.length_append, List.length_cons, Chunk.bytes]
          omega
    have hchunks := hle b.chunks
    rw [ChunkedBody.bytes, List.length_append]
    omega
  exact @decodeLoop_chunks [] _ b.last b.last_zero (block b.trailer) b.chunks [] hshort hnul hcount

end Mowang.HttpProxy
