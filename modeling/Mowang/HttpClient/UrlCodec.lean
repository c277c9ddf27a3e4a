import Mowang.Base.CString
import Mowang.Base.Escapes

/-!
# `HttpClient.UrlCodec` — `url_encode` and `url_decode`

`url_encode` takes the upper half of a `char` with a shift. A `char` is signed, so that of a byte above 127 is negative,
and stands for no place of `HEX_CHARS`. `url_decode` reads two characters behind a `%` without a look at the length.

A `std::string` has a NUL behind its last character; `none` is a read behind that, or outside of `HEX_CHARS`.

## Contents
- `urlEncode`, `urlDecodeLoop`, `urlDecode`, with the positions that are read.
- `urlEncode_eq`, `urlEncode_eq_none` — bytes below 128, and others.
- `loop_whole`, `loop_done` — a text of whole escapes; `loop_mark`, `loop_digit` — one with an escape cut off.
- `roundTrips_iff`, `readsBelow_nul_iff`, `readsBelow_iff`, and `url_codec_iff`, which is all three.
-/

namespace Mowang.HttpProxy

open Escapes

/-! ## Encoding -/

/-- A place of `HEX_CHARS`, whose last is the NUL. -/
def hexChar? (i : UInt8) : Option UInt8 := (ascii "0123456789ABCDEF" ++ [0])[i.toNat]?

/-- `isalnum` in the C locale, or one of the four other characters. -/
def isUnreserved (c : UInt8) : Bool :=
  isDigit c || (65 ≤ c && c ≤ 90) || (97 ≤ c && c ≤ 122) || c = 45 || c = 95 || c = 46 || c = 126

/-- `url_encode`. -/
def urlEncode (output : List UInt8) : List UInt8 → Option (List UInt8)
  | []         => some output
  | c :: input =>
    if isUnreserved c then urlEncode (output ++ [c]) input
    else if c = 32 then urlEncode (output ++ [43]) input
    else
      -- the shift is one of an `int`, and keeps the sign
      (hexChar? (UInt8.ofInt (c.toInt8.toInt >>> (4 : Nat)))).bind fun high =>
      (hexChar? (c &&& 15)).bind fun low => urlEncode (output ++ [37, high, low]) input

/-! ## Decoding -/

/-- `from_hex`. -/
def fromHex (c : UInt8) : UInt8 :=
  if 65 ≤ c ∧ c ≤ 90 then c - 65 + 10 else if 97 ≤ c ∧ c ≤ 122 then c - 97 + 10 else c - 48

/-- `input[i]`. -/
def charOf? (input : List UInt8) (i : Nat) : Option UInt8 := (input ++ [0])[i]?

/-- The positions that have been read, and `output`. -/
structure Decoding where
  reads : List Nat
  output : List UInt8

def Decoding.add (d : Decoding) (reads : List Nat) (c : UInt8) : Decoding := ⟨d.reads ++ reads, d.output ++ [c]⟩

/-- The loop of `url_decode`, from `i` on. -/
def urlDecodeLoop (input : List UInt8) : Nat → Nat → Decoding → Option Decoding
  | 0, _, _        => none
  | fuel + 1, i, d =>
    if i < input.length then
      (charOf? input i).bind fun c =>
      if c = 43 then urlDecodeLoop input fuel (i + 1) (d.add [i] 32)
      else if c = 37 then
        (charOf? input (i + 1)).bind fun high => (charOf? input (i + 2)).bind fun low =>
        urlDecodeLoop input fuel (i + 3) (d.add [i, i + 1, i + 2] ((fromHex high <<< 4) + fromHex low))
      else urlDecodeLoop input fuel (i + 1) (d.add [i] c)
    else some d

/-- `url_decode`. -/
def urlDecode (output input : List UInt8) : Option Decoding := urlDecodeLoop input (input.length + 1) 0 ⟨[], output⟩

/-! ## What is encoded -/

/-- An upper case digit. -/
def IsHexChar (c : UInt8) : Prop := c ∈ ascii "0123456789ABCDEF"

/-- Unreserved characters, `+`, and escapes. -/
def Encoded (text : List UInt8) : Prop := Escaped 37 (fun c => isUnreserved c = true ∨ c = 43) IsHexChar text

/-- The character that stands for itself, or for a blank. -/
def plainChar (c : UInt8) : UInt8 := if c = 43 then 32 else c

@[elab_as_elim]
theorem of_low {P : UInt8 → Prop} {c : UInt8} (hc : c < 128) (h : ∀ k < 128, P (UInt8.ofNat k)) : P c := by
  have hrow := h c.toNat (UInt8.lt_iff_toNat_lt.mp hc)
  rwa [UInt8.ofNat_toNat] at hrow

@[elab_as_elim]
theorem of_high {P : UInt8 → Prop} {c : UInt8} (hc : 128 ≤ c) (h : ∀ k < 128, P (UInt8.ofNat (128 + k))) : P c := by
  have hle : 128 ≤ c.toNat := UInt8.le_iff_toNat_le.mp hc
  have hlt := c.toNat_lt
  have hrow := h (c.toNat - 128) (by omega)
  rwa [Nat.add_sub_cancel' hle, UInt8.ofNat_toNat] at hrow

/-- The digits of a byte below 128, and what they are decoded to. -/
theorem hexChars_low {c : UInt8} (hc : c < 128) : ∃ high low,
    hexChar? (UInt8.ofInt (c.toInt8.toInt >>> (4 : Nat))) = some high ∧ hexChar? (c &&& 15) = some low ∧
      IsHexChar high ∧ IsHexChar low ∧ (fromHex high <<< 4) + fromHex low = c := by
  have hrow : ((hexChar? (UInt8.ofInt (c.toInt8.toInt >>> (4 : Nat)))).bind fun high =>
      (hexChar? (c &&& 15)).map fun low => (decide (high ∈ ascii "0123456789ABCDEF"),
        decide (low ∈ ascii "0123456789ABCDEF"), (fromHex high <<< 4) + fromHex low)) = some (true, true, c) := by
    refine of_low hc ?_
    decide +kernel
  obtain ⟨high, hhigh, hrow⟩ := Option.bind_eq_some_iff.mp hrow
  obtain ⟨low, hlow, hrow⟩ := Option.map_eq_some_iff.mp hrow
  simp only [Prod.mk.injEq, decide_eq_true_eq] at hrow
  exact ⟨high, low, hhigh, hlow, hrow.1, hrow.2.1, hrow.2.2⟩

/-- A byte above 127 has no upper digit. -/
theorem hexChars_high {c : UInt8} (hc : 128 ≤ c) : hexChar? (UInt8.ofInt (c.toInt8.toInt >>> (4 : Nat))) = none := by
  refine of_high hc ?_
  decide +kernel

theorem isUnreserved_high {c : UInt8} (hc : 128 ≤ c) : isUnreserved c = false := by
  refine of_high hc ?_
  decide +kernel

/-- What a text with whole escapes is decoded to. -/
def decoded : List UInt8 → List UInt8
  | []        => []
  | c :: text =>
    if c = 37 then
      match text with
      | high :: low :: text => ((fromHex high <<< 4) + fromHex low) :: decoded text
      | _                   => []
    else plainChar c :: decoded text

theorem decoded_plain {c : UInt8} (hc : c ≠ 37) (text : List UInt8) :
    decoded (c :: text) = plainChar c :: decoded text := by
  rw [decoded.eq_def]
  exact if_neg hc

theorem decoded_escape (high low : UInt8) (text : List UInt8) :
    decoded (37 :: high :: low :: text) = ((fromHex high <<< 4) + fromHex low) :: decoded text := by
  rw [decoded, if_pos rfl]

/-- A byte below 128 adds one character or one escape, which is decoded to it. -/
theorem urlEncode_low {c : UInt8} (hc : c < 128) : ∃ part : List UInt8,
    (∀ output s, urlEncode output (c :: s) = urlEncode (output ++ part) s) ∧ Encoded part ∧
      ∀ text, decoded (part ++ text) = c :: decoded text := by
  by_cases hplain : isUnreserved c = true
  · have hne : c ≠ 37 ∧ c ≠ 43 := by
      constructor
      · rintro rfl
        revert hplain
        decide
      · rintro rfl
        revert hplain
        decide
    refine ⟨[c], fun output s => ?_, .plain (Or.inl hplain) .nil, fun text => ?_⟩
    · rw [urlEncode, if_pos hplain]
    · rw [List.singleton_append, decoded_plain hne.1, plainChar, if_neg hne.2]
  by_cases hblank : c = 32
  · subst hblank
    refine ⟨[43], fun output s => ?_, .plain (Or.inr rfl) .nil, fun text => ?_⟩
    · rw [urlEncode, if_neg hplain, if_pos rfl]
    · rw [List.singleton_append, decoded_plain (by decide), plainChar, if_pos rfl]
  · obtain ⟨high, low, hhigh, hlow, hhighChar, hlowChar, hback⟩ := hexChars_low hc
    refine ⟨[37, high, low], fun output s => ?_, .escape hhighChar hlowChar .nil, fun text => ?_⟩
    · rw [urlEncode, if_neg hplain, if_neg hblank, hhigh, Option.bind_some, hlow, Option.bind_some]
    · rw [List.cons_append, List.cons_append, List.singleton_append, decoded_escape, hback]

/-- Bytes below 128 are encoded, and their encoding is decoded to them. -/
theorem urlEncode_eq {s : List UInt8} (hs : ∀ c ∈ s, c < 128) : ∃ text : List UInt8,
    (∀ output, urlEncode output s = some (output ++ text)) ∧ Encoded text ∧ decoded text = s := by
  induction s with
  | nil => exact ⟨[], fun output => by rw [urlEncode, List.append_nil], .nil, rfl⟩
  | cons c s ih =>
      obtain ⟨hc, hs⟩ := List.forall_mem_cons.mp hs
      obtain ⟨text, hencode, hencoded, hdecoded⟩ := ih hs
      obtain ⟨part, hstep, hpart, hback⟩ := urlEncode_low hc
      refine ⟨part ++ text, fun output => ?_, hpart.append hencoded, ?_⟩
      · rw [hstep, hencode, List.append_assoc]
      · rw [hback, hdecoded]

/-- A byte above 127 is looked up outside of `HEX_CHARS`. -/
theorem urlEncode_eq_none {s output : List UInt8} (hs : ∃ c ∈ s, 128 ≤ c) : urlEncode output s = none := by
  induction s generalizing output with
  | nil =>
      obtain ⟨c, hc, _⟩ := hs
      cases hc
  | cons c s ih =>
      by_cases hc : 128 ≤ c
      · have hblank : c ≠ 32 := by
          rintro rfl
          revert hc
          decide
        rw [urlEncode, if_neg (by rw [isUnreserved_high hc]; exact Bool.false_ne_true), if_neg hblank,
          hexChars_high hc, Option.bind_none]
      · obtain ⟨part, hstep, _⟩ := urlEncode_low (UInt8.not_le.mp hc)
        rw [hstep]
        obtain ⟨c', hmem, hc'⟩ := hs
        rcases List.mem_cons.mp hmem with rfl | hmem
        · exact absurd hc' hc
        · exact ih ⟨c', hmem, hc'⟩

/-! ## What is decoded -/

variable {front rest text : List UInt8} {d : Decoding} {fuel : Nat}

theorem charOf?_append (front rest : List UInt8) (c : UInt8) : charOf? (front ++ c :: rest) front.length = some c := by
  rw [charOf?, List.append_assoc, List.getElem?_append_right (Nat.le_refl _), Nat.sub_self]
  rfl

/-- One turn at a plain character. -/
theorem loop_plain {c : UInt8} (hc : c ≠ 37) :
    urlDecodeLoop (front ++ c :: rest) (fuel + 1) front.length d =
      urlDecodeLoop (front ++ c :: rest) fuel (front.length + 1) (d.add [front.length] (plainChar c)) := by
  rw [urlDecodeLoop, if_pos (by simp), charOf?_append, Option.bind_some, plainChar]
  by_cases hplus : c = 43
  · rw [if_pos hplus, if_pos hplus]
  · rw [if_neg hplus, if_neg hplus, if_neg hc]

/-- One turn at an escape. -/
theorem loop_escape (high low : UInt8) :
    urlDecodeLoop (front ++ 37 :: high :: low :: rest) (fuel + 1) front.length d =
      urlDecodeLoop (front ++ 37 :: high :: low :: rest) fuel (front.length + 3)
        (d.add [front.length, front.length + 1, front.length + 2] ((fromHex high <<< 4) + fromHex low)) := by
  have hhigh := charOf?_append (front ++ [37]) (low :: rest) high
  have hlow := charOf?_append (front ++ [37, high]) rest low
  simp only [List.append_assoc, List.cons_append, List.nil_append, List.length_append, List.length_cons,
    List.length_nil, Nat.zero_add] at hhigh hlow
  rw [urlDecodeLoop, if_pos (by simp), charOf?_append, Option.bind_some, if_neg (by decide), if_pos rfl, hhigh,
    Option.bind_some, hlow, Option.bind_some]

/-- **The loop over whole escapes** reads no position behind them. -/
theorem loop_whole (h : Whole 37 text) : ∃ n reads, n ≤ text.length ∧
    (∀ i ∈ reads, i < front.length + text.length) ∧
      ∀ fuel, urlDecodeLoop (front ++ (text ++ rest)) (fuel + n) front.length d =
        urlDecodeLoop (front ++ (text ++ rest)) fuel (front.length + text.length)
          ⟨d.reads ++ reads, d.output ++ decoded text⟩ := by
  induction h generalizing front d with
  | nil => exact ⟨0, [], Nat.le_refl 0, nofun, fun fuel => by simp [decoded]⟩
  | @plain c text hc _ ih =>
      obtain ⟨n, reads, hn, hreads, hloop⟩ := @ih (front ++ [c]) (d.add [front.length] (plainChar c))
      simp only [List.length_append, List.length_singleton, List.append_assoc, List.singleton_append] at hreads hloop
      refine ⟨n + 1, front.length :: reads, Nat.succ_le_succ hn, ?_, fun fuel => ?_⟩
      · rw [List.forall_mem_cons]
        exact ⟨by simp, fun i hi => by have := hreads i hi; simp only [List.length_cons]; omega⟩
      · rw [← Nat.add_assoc, List.cons_append, loop_plain hc, hloop, decoded_plain hc, Decoding.add]
        simp only [List.length_cons, List.append_assoc, List.singleton_append, Nat.add_assoc, Nat.add_comm 1]
  | @escape high low text _ _ _ ih =>
      obtain ⟨n, reads, hn, hreads, hloop⟩ := @ih (front ++ [37, high, low])
        (d.add [front.length, front.length + 1, front.length + 2] ((fromHex high <<< 4) + fromHex low))
      simp only [List.length_append, List.length_cons, List.length_nil, List.append_assoc, List.cons_append,
        List.nil_append, Nat.zero_add] at hreads hloop
      refine ⟨n + 1, front.length :: (front.length + 1) :: (front.length + 2) :: reads, ?_, ?_, fun fuel => ?_⟩
      · simp only [List.length_cons]
        omega
      · simp only [List.forall_mem_cons, List.length_cons]
        exact ⟨by omega, by omega, by omega, fun i hi => by have := hreads i hi; omega⟩
      · rw [← Nat.add_assoc, List.cons_append, List.cons_append, List.cons_append, loop_escape, hloop,
          decoded_escape, Decoding.add]
        simp only [List.length_cons, List.append_assoc, List.cons_append, List.nil_append, Nat.add_assoc,
          Nat.reduceAdd, Nat.add_comm 3]

/-- The loop over a text of whole escapes ends behind it. -/
theorem loop_done (h : Whole 37 text) : ∃ reads, (∀ i ∈ reads, i < text.length) ∧
    ∀ fuel, text.length < fuel → urlDecodeLoop text fuel 0 d = some ⟨d.reads ++ reads, d.output ++ decoded text⟩ := by
  obtain ⟨n, reads, hn, hreads, hloop⟩ := @loop_whole [] [] text d h
  simp only [List.nil_append, List.append_nil, List.length_nil, Nat.zero_add] at hreads hloop
  refine ⟨reads, hreads, fun fuel hfuel => ?_⟩
  obtain ⟨k, rfl⟩ : ∃ k, fuel = k + 1 + n := ⟨fuel - n - 1, by omega⟩
  rw [hloop, urlDecodeLoop, if_neg (Nat.lt_irrefl _)]

/-- The loop over a text that ends behind a `%` leaves the string. -/
theorem loop_mark (h : Whole 37 front) (hfuel : (front ++ [37]).length < fuel) :
    urlDecodeLoop (front ++ [37]) fuel 0 d = none := by
  rw [List.length_append, List.length_singleton] at hfuel
  obtain ⟨n, reads, hn, _, hloop⟩ := @loop_whole [] [37] front d h
  simp only [List.nil_append, List.length_nil, Nat.zero_add] at hloop
  obtain ⟨k, rfl⟩ : ∃ k, fuel = k + 1 + n := ⟨fuel - n - 1, by omega⟩
  have hpast : charOf? (front ++ [37]) (front.length + 2) = none := by
    rw [charOf?, List.getElem?_eq_none]
    simp
  rw [hloop, urlDecodeLoop, if_pos (by simp), charOf?_append, Option.bind_some, if_neg (by decide), if_pos rfl, hpast]
  cases charOf? (front ++ [37]) (front.length + 1) with
  | none => rfl
  | some high => rfl

/-- The loop over a text that ends behind the first digit of an escape takes the NUL for the second. -/
theorem loop_digit (h : Whole 37 front) (c : UInt8) : ∃ reads output, front.length + 2 ∈ reads ∧
    (∀ i ∈ reads, i < (front ++ [37, c]).length + 1) ∧
      ∀ fuel, (front ++ [37, c]).length < fuel →
        urlDecodeLoop (front ++ [37, c]) fuel 0 ⟨[], []⟩ = some ⟨reads, output⟩ := by
  obtain ⟨n, reads, hn, hreads, hloop⟩ := @loop_whole [] [37, c] front ⟨[], []⟩ h
  simp only [List.nil_append, List.length_nil, Nat.zero_add] at hreads hloop
  have hlength : (front ++ [37, c]).length = front.length + 2 := List.length_append
  rw [hlength]
  refine ⟨reads ++ [front.length, front.length + 1, front.length + 2],
    decoded front ++ [(fromHex c <<< 4) + fromHex 0], by simp, fun i hi => ?_, fun fuel hfuel => ?_⟩
  · rcases List.mem_append.mp hi with hi | hi
    · have := hreads i hi
      omega
    · simp only [List.mem_cons, List.not_mem_nil, or_false] at hi
      omega
  · obtain ⟨k, rfl⟩ : ∃ k, fuel = k + 1 + 1 + n := ⟨fuel - n - 2, by omega⟩
    have hdigit := charOf?_append (front ++ [37]) [] c
    have hend : charOf? (front ++ [37, c]) (front.length + 2) = some 0 := by
      rw [charOf?, List.getElem?_append_right (by simp)]
      simp
    simp only [List.append_assoc, List.cons_append, List.nil_append, List.length_append, List.length_singleton]
      at hdigit
    rw [hloop, urlDecodeLoop, if_pos (by simp), charOf?_append, Option.bind_some, if_neg (by decide), if_pos rfl,
      hdigit, Option.bind_some, hend, Option.bind_some, urlDecodeLoop, if_neg (by simp)]
    rfl

/-! ## The codec -/

/-- What is encoded has no other characters, and is decoded to what it was. -/
def RoundTrips (s : List UInt8) : Prop :=
  ∃ text d, urlEncode [] s = some text ∧ Encoded text ∧ urlDecode [] text = some d ∧ d.output = s

/-- The loop ends, in fewer turns than `input` has characters and one, and all that it has read is before `bound`. -/
def ReadsBelow (bound : Nat) (input : List UInt8) : Prop :=
  ∃ d, (∀ fuel, input.length < fuel → urlDecodeLoop input fuel 0 ⟨[], []⟩ = some d) ∧ ∀ i ∈ d.reads, i < bound

/-- The input ends behind a `%` that begins an escape. -/
def EndsInMark (input : List UInt8) : Prop := ∃ front, Whole 37 front ∧ input = front ++ [37]

theorem Encoded.whole (h : Encoded text) : Whole 37 text := by
  refine Escaped.mono h ?_ fun _ _ => trivial
  rintro c (hplain | rfl)
  · rintro rfl
    revert hplain
    decide
  · decide

theorem roundTrips_iff (s : List UInt8) : RoundTrips s ↔ ∀ c ∈ s, c < 128 := by
  constructor
  · rintro ⟨text, d, hencode, _⟩ c hc
    by_contra hhigh
    rw [urlEncode_eq_none ⟨c, hc, UInt8.not_lt.mp hhigh⟩] at hencode
    cases hencode
  · intro hs
    obtain ⟨text, hencode, hencoded, hdecoded⟩ := urlEncode_eq hs
    obtain ⟨reads, _, hloop⟩ := @loop_done text ⟨[], []⟩ hencoded.whole
    exact ⟨text, _, hencode [], hencoded, hloop _ (Nat.lt_succ_self _), hdecoded⟩

theorem readsBelow_of_whole (h : Whole 37 text) : ReadsBelow text.length text := by
  obtain ⟨reads, hreads, hloop⟩ := @loop_done text ⟨[], []⟩ h
  exact ⟨_, hloop, hreads⟩

theorem ReadsBelow.mono {bound bound' : Nat} (h : ReadsBelow bound text) (hle : bound ≤ bound') :
    ReadsBelow bound' text := by
  obtain ⟨d, hloop, hreads⟩ := h
  exact ⟨d, hloop, fun i hi => Nat.lt_of_lt_of_le (hreads i hi) hle⟩

theorem not_readsBelow_mark (hfront : Whole 37 front) (bound : Nat) : ¬ ReadsBelow bound (front ++ [37]) := by
  rintro ⟨d, hloop, _⟩
  have hnone := @loop_mark front ⟨[], []⟩ _ hfront (Nat.lt_succ_self _)
  rw [hloop _ (Nat.lt_succ_self _)] at hnone
  cases hnone

/-- The NUL may be read: it is enough that behind a `%` there is a character. -/
theorem readsBelow_nul_iff (input : List UInt8) : ReadsBelow (input.length + 1) input ↔ ¬ EndsInMark input := by
  constructor
  · rintro h ⟨front, hfront, rfl⟩
    exact not_readsBelow_mark hfront _ h
  · intro hmark
    rcases whole_or_cut 37 input with hwhole | ⟨front, hfront, rfl | ⟨c, rfl⟩⟩
    · exact (readsBelow_of_whole hwhole).mono (Nat.le_succ _)
    · exact absurd ⟨front, hfront, rfl⟩ hmark
    · obtain ⟨reads, output, _, hreads, hloop⟩ := loop_digit hfront c
      exact ⟨_, hloop, hreads⟩

/-- The NUL may not be read: the escapes are whole. -/
theorem readsBelow_iff (input : List UInt8) : ReadsBelow input.length input ↔ Whole 37 input := by
  constructor
  · intro h
    rcases whole_or_cut 37 input with hwhole | ⟨front, hfront, rfl | ⟨c, rfl⟩⟩
    · exact hwhole
    · exact absurd h (not_readsBelow_mark hfront _)
    · obtain ⟨d, hloop, hreads⟩ := h
      obtain ⟨reads, output, hend, _, hdigit⟩ := loop_digit hfront c
      have hsame := hdigit _ (Nat.lt_succ_self _)
      rw [hloop _ (Nat.lt_succ_self _)] at hsame
      cases hsame
      have hlt := hreads _ hend
      simp only [List.length_append, List.length_cons, List.length_nil] at hlt
      omega
  · exact readsBelow_of_whole

/-- **Exactly the bytes below 128** are encoded, and come back; exactly the inputs that do not end in a `%` are decoded
    without a read behind their NUL, and exactly those that do not end inside an escape without a read of it. -/
theorem url_codec_iff (s input : List UInt8) :
    (RoundTrips s ↔ ∀ c ∈ s, c < 128) ∧ (ReadsBelow (input.length + 1) input ↔ ¬ EndsInMark input) ∧
      (ReadsBelow input.length input ↔ Whole 37 input) :=
  ⟨roundTrips_iff s, readsBelow_nul_iff input, readsBelow_iff input⟩

/-- The byte 0x80 is not encoded, and `%` is decoded by a read behind its NUL. -/
theorem byte_80_and_mark : ¬ RoundTrips [0x80] ∧ ¬ ReadsBelow 2 (ascii "%") := by
  constructor
  · rintro ⟨text, d, hencode, _⟩
    have hnone : urlEncode [] [0x80] = none := by decide +kernel
    rw [hnone] at hencode
    cases hencode
  · rintro ⟨d, hloop, _⟩
    have hnone : urlDecodeLoop (ascii "%") 2 0 ⟨[], []⟩ = none := rfl
    rw [hloop 2 (by decide)] at hnone
    cases hnone

end Mowang.HttpProxy
