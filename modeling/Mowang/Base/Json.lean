import Mowang.Base.SqlText

/-!
# `Base.Json` — JSON texts

`Json.parse` accepts the well-formed texts: UTF-8, one value with blanks around it, strings without raw control
characters. An object keeps its members in their order and repeated, so two texts with the same value report the same
fields. `fuel` bounds the depth of the calls; each of them takes a byte from the text, but the call for the first
element of an array.

A text that was printed is read back piece by piece: `ValueAt s v rest` says that `s` begins with `v` and `rest` is
left, and `MembersAt` and `ElementsAt` the same of the inside of an object and of an array. A string that was printed
without escapes is read back as itself only if it needs none (`readString_self`).

## Contents
- `utf8From`, `Utf8`.
- `readString`, `readNumber`, `parseValue`, `Json.parse`.
- `Plain`, `readString_plain`, `readString_self`.
- `ValueAt`, `MembersAt`, `ElementsAt` and how they are built.
- `Scalar`, `objectText`: flat objects, printed and read.
-/

/-! ## UTF-8 -/

/-- The ranges of the bytes that follow a first byte. -/
def utf8Tail (c : UInt8) : Option (List (UInt8 × UInt8)) :=
  if c < 0x80 then some []
  else if c < 0xC2 then none
  else if c < 0xE0 then some [(0x80, 0xBF)]
  else if c = 0xE0 then some [(0xA0, 0xBF), (0x80, 0xBF)]
  else if c = 0xED then some [(0x80, 0x9F), (0x80, 0xBF)]
  else if c < 0xF0 then some [(0x80, 0xBF), (0x80, 0xBF)]
  else if c = 0xF0 then some [(0x90, 0xBF), (0x80, 0xBF), (0x80, 0xBF)]
  else if c < 0xF4 then some [(0x80, 0xBF), (0x80, 0xBF), (0x80, 0xBF)]
  else if c = 0xF4 then some [(0x80, 0x8F), (0x80, 0xBF), (0x80, 0xBF)]
  else none

/-- The bytes are UTF-8, after a character that still needs bytes of these ranges. -/
def utf8From : List (UInt8 × UInt8) → List UInt8 → Bool
  | tail, []          => tail.isEmpty
  | [], c :: s        => ((utf8Tail c).map fun tail => utf8From tail s).getD false
  | r :: tail, c :: s => r.1 ≤ c && c ≤ r.2 && utf8From tail s

def Utf8 (s : List UInt8) : Prop := utf8From [] s = true

instance (s : List UInt8) : Decidable (Utf8 s) := inferInstanceAs (Decidable (_ = _))

/-- The bytes that follow a first byte are not ASCII. -/
theorem le_of_mem_utf8Tail {c : UInt8} {tail : List (UInt8 × UInt8)} (h : utf8Tail c = some tail) :
    ∀ r ∈ tail, 0x80 ≤ r.1 := by
  unfold utf8Tail at h
  repeat' split at h
  all_goals
    cases h
    try exact forall_of_all (by decide)

theorem utf8Tail_ascii {c : UInt8} (hc : c < 0x80) : utf8Tail c = some [] := if_pos hc

theorem utf8From_cons (r : UInt8 × UInt8) (tail : List (UInt8 × UInt8)) (c : UInt8) (s : List UInt8) :
    utf8From (r :: tail) (c :: s) = (r.1 ≤ c && c ≤ r.2 && utf8From tail s) := rfl

theorem utf8From_nil_cons (c : UInt8) (s : List UInt8) :
    utf8From [] (c :: s) = ((utf8Tail c).map fun tail => utf8From tail s).getD false := rfl

/-- An ASCII byte ends what stands before it. -/
theorem utf8From_append {c : UInt8} (hc : c < 0x80) (s t : List UInt8) {tail : List (UInt8 × UInt8)}
    (htail : ∀ r ∈ tail, 0x80 ≤ r.1) : utf8From tail (s ++ c :: t) = (utf8From tail s && utf8From [] t) := by
  induction s generalizing tail with
  | nil =>
      cases tail with
      | nil =>
          rw [List.nil_append, utf8From_nil_cons, utf8Tail_ascii hc]
          rfl
      | cons r tail =>
          have hlow : ¬ r.1 ≤ c := by
            rw [UInt8.not_le]
            exact UInt8.lt_of_lt_of_le hc (htail r List.mem_cons_self)
          rw [List.nil_append, utf8From_cons, decide_eq_false hlow]
          rfl
  | cons a s ih =>
      cases tail with
      | nil =>
          rw [List.cons_append, utf8From_nil_cons, utf8From_nil_cons]
          cases ha : utf8Tail a with
          | none => rfl
          | some tail => exact ih (le_of_mem_utf8Tail ha)
      | cons r tail =>
          have hrest := ih fun r hr => htail r (List.mem_cons_of_mem _ hr)
          rw [List.cons_append, utf8From_cons, utf8From_cons, hrest, Bool.and_assoc (_ && _)]

/-- ASCII is UTF-8. -/
theorem utf8From_ascii {s : List UInt8} (h : ∀ c ∈ s, c < 0x80) (t : List UInt8) :
    utf8From [] (s ++ t) = utf8From [] t := by
  induction s with
  | nil => rfl
  | cons c s ih =>
      obtain ⟨hc, hs⟩ := List.forall_mem_cons.mp h
      rw [List.cons_append, utf8From_nil_cons, utf8Tail_ascii hc]
      exact ih hs

/-- Between ASCII, the bytes in the middle decide. -/
theorem utf8_middle {front back : List UInt8} {c : UInt8} (hfront : ∀ c ∈ front, c < 0x80) (hc : c < 0x80)
    (hback : ∀ c ∈ back, c < 0x80) (v : List UInt8) : Utf8 (front ++ (v ++ c :: back)) ↔ Utf8 v := by
  have hempty : utf8From [] back = true := by
    have h := utf8From_ascii hback []
    rwa [List.append_nil] at h
  unfold Utf8
  rw [utf8From_ascii hfront, utf8From_append hc v back (List.forall_mem_nil _), hempty, Bool.and_true]

/-! ## Values -/

inductive Json
  | null
  | bool (b : Bool)
  /-- `mantissa * 10 ^ exponent`. -/
  | num (mantissa exponent : Int)
  /-- The bytes in UTF-8. -/
  | str (s : List UInt8)
  | arr (elements : List Json)
  | obj (members : List (List UInt8 × Json))

namespace Json

/-- An integer. -/
def int (v : Int) : Json := .num v 0

def isBlank (c : UInt8) : Bool := c == 32 || c == 9 || c == 10 || c == 13

def skipBlanks (s : List UInt8) : List UInt8 := s.dropWhile isBlank

/-! ## Strings -/

def hexDigit (c : UInt8) : Option Nat :=
  if isDigit c then some (c.toNat - 48)
  else if 65 ≤ c && c ≤ 70 then some (c.toNat - 55)
  else if 97 ≤ c && c ≤ 102 then some (c.toNat - 87)
  else none

/-- Four hexadecimal digits. -/
def readHex : List UInt8 → Option (Nat × List UInt8)
  | a :: b :: c :: d :: s =>
    (hexDigit a).bind fun a => (hexDigit b).bind fun b => (hexDigit c).bind fun c => (hexDigit d).map fun d =>
      (((a * 16 + b) * 16 + c) * 16 + d, s)
  | _ => none

def encode (code : Nat) : List UInt8 := String.utf8EncodeChar (Char.ofNat code)

/-- What a backslash and this byte stand for. -/
def simpleEscape (c : UInt8) : Option UInt8 :=
  if c = 34 ∨ c = 92 ∨ c = 47 then some c
  else if c = 98 then some 8
  else if c = 102 then some 12
  else if c = 110 then some 10
  else if c = 114 then some 13
  else if c = 116 then some 9
  else none

/-- The character behind a backslash; one beyond 16 bits has two escapes. -/
def readEscape : List UInt8 → Option (List UInt8 × List UInt8)
  | []     => none
  | c :: s =>
    if c = 117 then
      (readHex s).bind fun (code, s) =>
      if 0xD800 ≤ code ∧ code < 0xDC00 then
        (expect [92, 117] s).bind fun s => (readHex s).bind fun (low, s) =>
        if 0xDC00 ≤ low ∧ low < 0xE000 then
          some (encode (0x10000 + (code - 0xD800) * 0x400 + (low - 0xDC00)), s)
        else none
      else if 0xDC00 ≤ code ∧ code < 0xE000 then none
      else some (encode code, s)
    else (simpleEscape c).map fun c => ([c], s)

/-- The characters up to the closing quote. -/
def readChars : Nat → List UInt8 → Option (List UInt8 × List UInt8)
  | 0, _             => none
  | _ + 1, []        => none
  | fuel + 1, c :: s =>
    if c = 34 then some ([], s)
    else if c = 92 then
      (readEscape s).bind fun (d, s) => (readChars fuel s).map fun (v, s) => (d ++ v, s)
    else if c < 32 then none
    else (readChars fuel s).map fun (v, s) => (c :: v, s)

/-- A string behind its opening quote. -/
def readString (s : List UInt8) : Option (List UInt8 × List UInt8) := readChars s.length s

/-! ## Numbers -/

/-- The digits behind a point, and how many there are. -/
def readFraction (s : List UInt8) : Option (Nat × Nat × List UInt8) :=
  if s.head? = some 46 then (readNat s.tail).map fun (v, rest) => (v, s.tail.length - rest.length, rest)
  else some (0, 0, s)

def readExponent (s : List UInt8) : Option (Int × List UInt8) :=
  if s.head? = some 101 ∨ s.head? = some 69 then
    if s.tail.head? = some 43 then (readNat s.tail.tail).map fun (v, s) => ((v : Int), s) else readInt s.tail
  else some (0, s)

def readNumber (s : List UInt8) : Option (Json × List UInt8) :=
  let negative := s.head? = some 45
  let s := if negative then s.tail else s
  let digits := s.takeWhile isDigit
  if 1 < digits.length ∧ digits.head? = some 48 then none
  else
    (readNat s).bind fun (v, s) => (readFraction s).bind fun (fraction, k, s) => (readExponent s).map fun (e, s) =>
    let m : Int := v * 10 ^ k + fraction
    (.num (if negative then -m else m) (e - k), s)

/-! ## Texts -/

mutual

def parseValue : Nat → List UInt8 → Option (Json × List UInt8)
  | 0, _        => none
  | fuel + 1, s =>
    match s with
    | 123 :: s =>
      match skipBlanks s with
      | 125 :: s => some (.obj [], s)
      | s        => (parseMembers fuel s).map fun (members, s) => (.obj members, s)
    | 91 :: s  =>
      match skipBlanks s with
      | 93 :: s => some (.arr [], s)
      | s       => (parseElements fuel s).map fun (elements, s) => (.arr elements, s)
    | 34 :: s  => (readString s).map fun (v, s) => (.str v, s)
    | 110 :: s => (expect [117, 108, 108] s).map fun s => (.null, s)
    | 116 :: s => (expect [114, 117, 101] s).map fun s => (.bool true, s)
    | 102 :: s => (expect [97, 108, 115, 101] s).map fun s => (.bool false, s)
    | s        => readNumber s

/-- The members of an object, up to the closing brace. -/
def parseMembers : Nat → List UInt8 → Option (List (List UInt8 × Json) × List UInt8)
  | 0, _        => none
  | fuel + 1, s =>
    match s with
    | 34 :: s =>
      (readString s).bind fun (key, s) =>
      match skipBlanks s with
      | 58 :: s =>
        (parseValue fuel (skipBlanks s)).bind fun (value, s) =>
        match skipBlanks s with
        | 44 :: s  => (parseMembers fuel (skipBlanks s)).map fun (members, s) => ((key, value) :: members, s)
        | 125 :: s => some ([(key, value)], s)
        | _        => none
      | _ => none
    | _ => none

/-- The elements of an array, up to the closing bracket. -/
def parseElements : Nat → List UInt8 → Option (List Json × List UInt8)
  | 0, _        => none
  | fuel + 1, s =>
    (parseValue fuel s).bind fun (value, s) =>
    match skipBlanks s with
    | 44 :: s => (parseElements fuel (skipBlanks s)).map fun (elements, s) => (value :: elements, s)
    | 93 :: s => some ([value], s)
    | _       => none

end

/-- The value of a text. -/
def parse (text : List UInt8) : Option Json :=
  if utf8From [] text then
    (parseValue (2 * text.length + 2) (skipBlanks text)).bind fun (value, s) =>
    if (skipBlanks s).isEmpty then some value else none
  else none

/-! ## Strings that need no escapes -/

/-- A byte that stands for itself in a string. -/
def Plain (c : UInt8) : Prop := 32 ≤ c ∧ c ≠ 34 ∧ c ≠ 92

instance (c : UInt8) : Decidable (Plain c) := inferInstanceAs (Decidable (_ ∧ _))

theorem readChars_plain {v : List UInt8} (h : ∀ c ∈ v, Plain c) (rest : List UInt8) {fuel : Nat}
    (hfuel : v.length < fuel) : readChars fuel (v ++ 34 :: rest) = some (v, rest) := by
  induction v generalizing fuel with
  | nil =>
      obtain ⟨fuel, rfl⟩ := Nat.exists_eq_succ_of_ne_zero (Nat.ne_of_gt hfuel)
      rfl
  | cons c v ih =>
      obtain ⟨fuel, rfl⟩ := Nat.exists_eq_succ_of_ne_zero (Nat.ne_of_gt (Nat.lt_of_le_of_lt (Nat.zero_le _) hfuel))
      obtain ⟨⟨hctl, hquote, hback⟩, hrest⟩ := List.forall_mem_cons.mp h
      have hlt : ¬ c < 32 := by
        rw [UInt8.not_lt]
        exact hctl
      rw [List.cons_append, readChars, if_neg hquote, if_neg hback, if_neg hlt,
        ih hrest (Nat.lt_of_succ_lt_succ hfuel)]
      rfl

theorem readString_plain {v : List UInt8} (h : ∀ c ∈ v, Plain c) (rest : List UInt8) :
    readString (v ++ 34 :: rest) = some (v, rest) := by
  apply readChars_plain h
  rw [List.length_append, List.length_cons]
  omega

theorem hexDigit_ne_quote {c : UInt8} {v : Nat} (h : hexDigit c = some v) : c ≠ 34 := by
  rintro rfl
  cases h

theorem readHex_eq {s rest : List UInt8} {code : Nat} (h : readHex s = some (code, rest)) :
    ∃ digits, s = digits ++ rest ∧ digits.length = 4 ∧ 34 ∉ digits := by
  unfold readHex at h
  split at h
  · rename_i a b c d s
    obtain ⟨a', ha, h⟩ := Option.bind_eq_some_iff.mp h
    obtain ⟨b', hb, h⟩ := Option.bind_eq_some_iff.mp h
    obtain ⟨c', hc, h⟩ := Option.bind_eq_some_iff.mp h
    obtain ⟨d', hd, h⟩ := Option.map_eq_some_iff.mp h
    cases h
    refine ⟨[a, b, c, d], rfl, rfl, ?_⟩
    simp only [List.mem_cons, List.not_mem_nil, or_false, not_or]
    exact ⟨(hexDigit_ne_quote ha).symm, (hexDigit_ne_quote hb).symm, (hexDigit_ne_quote hc).symm,
      (hexDigit_ne_quote hd).symm⟩
  · cases h

theorem encode_length (code : Nat) : (encode code).length ≤ 4 := by
  unfold encode
  rw [String.length_utf8EncodeChar]
  exact Char.utf8Size_le_four _

theorem expect_eq_some {text s rest : List UInt8} (h : expect text s = some rest) : s = text ++ rest := by
  unfold expect at h
  split at h
  · next hstart =>
    obtain ⟨t, rfl⟩ := List.isPrefixOf_iff_prefix.mp hstart
    rw [List.drop_left] at h
    cases h
    rfl
  · cases h

/-- An escape has more bytes than what it stands for, and a quote in it stands for a quote. -/
theorem readEscape_eq {s d rest : List UInt8} (h : readEscape s = some (d, rest)) :
    ∃ e more, s = e :: (more ++ rest) ∧ d.length ≤ more.length + 1 ∧ 34 ∉ more ∧ (e = 34 → d = [34] ∧ more = []) := by
  cases s with
  | nil => cases h
  | cons c s =>
      by_cases hu : c = 117
      · rw [readEscape, if_pos hu] at h
        have hne : ∀ more : List UInt8, c = 34 → d = [34] ∧ more = [] := fun _ hc => nomatch hu.symm.trans hc
        obtain ⟨⟨code, s₁⟩, hcode, h₁⟩ := Option.bind_eq_some_iff.mp h
        obtain ⟨digits, hs, hfour, hquote⟩ := readHex_eq hcode
        dsimp only at h₁
        split at h₁
        · -- two escapes for one character
          obtain ⟨s₂, hexpect, h₂⟩ := Option.bind_eq_some_iff.mp h₁
          obtain ⟨⟨low, s₃⟩, hlow, h₃⟩ := Option.bind_eq_some_iff.mp h₂
          obtain ⟨digits', hs', hfour', hquote'⟩ := readHex_eq hlow
          dsimp only at h₃
          split at h₃
          · obtain ⟨rfl, rfl⟩ := Prod.mk.inj (Option.some.inj h₃)
            refine ⟨c, digits ++ ([92, 117] ++ digits'), ?_, ?_, ?_, hne _⟩
            · rw [hs, expect_eq_some hexpect, hs', List.append_assoc, List.append_assoc]
            · apply (encode_length _).trans
              rw [List.length_append, hfour]
              omega
            · simp only [List.mem_append, not_or]
              exact ⟨hquote, by decide, hquote'⟩
          · cases h₃
        split at h₁
        · cases h₁
        · cases h₁
          have := encode_length code
          exact ⟨c, digits, by rw [hs], by omega, hquote, hne _⟩
      · rw [readEscape, if_neg hu] at h
        obtain ⟨d, hd, h⟩ := Option.map_eq_some_iff.mp h
        cases h
        refine ⟨c, [], rfl, Nat.le_refl 1, List.not_mem_nil, ?_⟩
        rintro rfl
        cases hd
        exact ⟨rfl, rfl⟩

/-- A list that does not begin with a byte has that byte behind its first one. -/
theorem append_cons_eq_cons {a b : UInt8} {p q t : List UInt8} (h : p ++ b :: q = a :: t) (hne : a ≠ b) :
    ∃ p', p = a :: p' ∧ p' ++ b :: q = t := by
  cases p with
  | nil => exact absurd (List.cons.inj h).1.symm hne
  | cons a' p' =>
      obtain ⟨rfl, htail⟩ := List.cons.inj h
      exact ⟨p', rfl, htail⟩

/-- **What was read.** The text of a string is as long as the string only if it has no escapes; and where it has a quote,
    the string has one before that place. -/
theorem readChars_eq {fuel : Nat} {s v rest : List UInt8} (h : readChars fuel s = some (v, rest)) :
    ∃ raw, s = raw ++ 34 :: rest ∧ v.length ≤ raw.length ∧
      (v.length = raw.length → v = raw ∧ ∀ c ∈ raw, Plain c) ∧
      ∀ p q, raw = p ++ 34 :: q → 34 ∉ p → 34 ∈ v.take p.length := by
  induction fuel generalizing s v with
  | zero => cases h
  | succ fuel ih =>
      cases s with
      | nil => cases h
      | cons c s =>
          unfold readChars at h
          by_cases hquote : c = 34
          · rw [if_pos hquote] at h
            cases h
            refine ⟨[], by rw [hquote]; rfl, Nat.le_refl _, fun _ => ⟨rfl, fun _ h => nomatch h⟩, ?_⟩
            intro p q hpq
            cases p <;> cases hpq
          rw [if_neg hquote] at h
          by_cases hback : c = 92
          · rw [if_pos hback] at h
            obtain ⟨⟨d, s'⟩, hescape, h⟩ := Option.bind_eq_some_iff.mp h
            obtain ⟨⟨v', rest'⟩, hrest, h⟩ := Option.map_eq_some_iff.mp h
            cases h
            obtain ⟨raw, rfl, hle, _, hfirst⟩ := ih hrest
            obtain ⟨e, more, rfl, hlen, hmore, he⟩ := readEscape_eq hescape
            refine ⟨c :: e :: (more ++ raw), by simp, ?_, ?_, ?_⟩
            · simp only [List.length_append, List.length_cons]
              omega
            · simp only [List.length_append, List.length_cons]
              omega
            · intro p q hpq hp
              obtain ⟨p, rfl, htail⟩ := append_cons_eq_cons hpq.symm (by rw [hback]; decide)
              by_cases hequote : e = 34
              · -- an escaped quote
                obtain ⟨rfl, rfl⟩ := he hequote
                rw [List.length_cons]
                exact List.mem_cons_self
              obtain ⟨p, rfl, hrest⟩ := append_cons_eq_cons htail hequote
              have hp' : 34 ∉ p := fun h => hp (List.mem_cons_of_mem _ (List.mem_cons_of_mem _ h))
              have hsplit : ∃ p', p = more ++ p' ∧ raw = p' ++ 34 :: q := by
                rcases List.append_eq_append_iff.mp hrest with ⟨a, ha, hraw⟩ | ⟨a, ha, hraw⟩
                · cases a with
                  | nil => exact ⟨[], by simpa using ha.symm, hraw.symm⟩
                  | cons c' a =>
                      obtain ⟨rfl, _⟩ := List.cons.inj hraw
                      exact absurd (ha ▸ List.mem_append_right _ List.mem_cons_self) hmore
                · exact ⟨a, ha, hraw⟩
              obtain ⟨p', rfl, hraw⟩ := hsplit
              have hmem := hfirst p' q hraw fun h => hp' (List.mem_append_right _ h)
              rw [List.take_append]
              apply List.mem_append_right
              apply List.take_subset_take_left _ _ hmem
              simp only [List.length_cons, List.length_append]
              omega
          rw [if_neg hback] at h
          by_cases hctl : c < 32
          · rw [if_pos hctl] at h
            cases h
          rw [if_neg hctl] at h
          obtain ⟨⟨v', rest'⟩, hrest, h⟩ := Option.map_eq_some_iff.mp h
          cases h
          obtain ⟨raw, rfl, hle, hplain, hfirst⟩ := ih hrest
          refine ⟨c :: raw, rfl, Nat.succ_le_succ hle, ?_, ?_⟩
          · intro hlen
            obtain ⟨rfl, hall⟩ := hplain (Nat.succ.inj hlen)
            exact ⟨rfl, List.forall_mem_cons.mpr ⟨⟨UInt8.not_lt.mp hctl, hquote, hback⟩, hall⟩⟩
          · intro p q hpq hp
            cases p with
            | nil =>
                cases hpq
                exact absurd rfl hquote
            | cons a p =>
                cases hpq
                rw [List.length_cons, List.take_succ_cons]
                exact List.mem_cons_of_mem _ (hfirst p q rfl fun h => hp (List.mem_cons_of_mem _ h))

/-- **A string that is read back as itself** needed no escapes. -/
theorem readString_self {v tail rest : List UInt8} (h : readString (v ++ 34 :: tail) = some (v, rest)) :
    ∀ c ∈ v, Plain c := by
  obtain ⟨raw, hraw, hle, hplain, hfirst⟩ := readChars_eq h
  by_cases hquote : 34 ∈ raw
  · -- the first quote of the text would be in the string too, and before itself
    obtain ⟨p, q, rfl, hp⟩ := List.eq_append_cons_of_mem hquote
    have hstart : v.take p.length <+: p := by
      have htake := congrArg (List.take p.length) hraw
      rw [List.take_append, List.append_assoc, List.take_left] at htake
      exact ⟨_, htake⟩
    exact absurd (hstart.mem (hfirst p q rfl hp)) hp
  · have hself : v = raw := by
      rcases List.append_eq_append_iff.mp hraw with ⟨a, ha, htail⟩ | ⟨a, ha, _⟩
      · cases a with
        | nil => simpa using ha.symm
        | cons c a =>
            obtain ⟨rfl, _⟩ := List.cons.inj htail
            exact absurd (ha ▸ List.mem_append_right _ List.mem_cons_self) hquote
      · have hlen := congrArg List.length ha
        rw [List.length_append] at hlen
        rw [List.eq_nil_of_length_eq_zero (by omega : a.length = 0), List.append_nil] at ha
        exact ha
    rw [hself]
    exact (hplain (congrArg List.length hself)).2

/-! ## Integers -/

/-- What may follow a value. -/
def Ends (s : List UInt8) : Prop := ∀ c, s.head? = some c → c = 44 ∨ c = 93 ∨ c = 125

theorem Ends.not_digit {s : List UInt8} (h : Ends s) (c : UInt8) (hc : s.head? = some c) : isDigit c = false := by
  rcases h c hc with rfl | rfl | rfl
  · decide
  · decide
  · decide

theorem head_decimal {v : Nat} (hv : 0 < v) : (decimal v).head? ≠ some 48 := by
  induction v using Nat.strongRecOn with
  | ind v ih =>
      unfold decimal at ih ⊢
      by_cases hlt : v < 10
      · have hdigits : ∀ v : Fin 10, 0 < v.val →
            ((Nat.toDigits 10 v.val).map fun c => c.toNat.toUInt8).head? ≠ some 48 := by
          decide
        exact hdigits ⟨v, hlt⟩ hv
      · rw [Nat.toDigits_of_base_le (by decide) (Nat.le_of_not_lt hlt), List.map_append,
          List.head?_append_of_ne_nil]
        · exact ih (v / 10) (by omega) (by omega)
        · rw [Ne, List.map_eq_nil_iff]
          exact Nat.toDigits_ne_nil

/-- A printed number has no zero before it. -/
theorem not_leading_zero (v : Nat) : ¬ (1 < (decimal v).length ∧ (decimal v).head? = some 48) := by
  rintro ⟨hlen, hzero⟩
  cases v with
  | zero => exact absurd hlen (by decide)
  | succ v => exact head_decimal (Nat.succ_pos v) hzero

theorem readFraction_ends {s : List UInt8} (h : Ends s) : readFraction s = some (0, 0, s) := by
  apply if_neg
  intro hpoint
  rcases h 46 hpoint with h | h | h <;> contradiction

theorem readExponent_ends {s : List UInt8} (h : Ends s) : readExponent s = some (0, s) := by
  apply if_neg
  rintro (he | he)
  · rcases h 101 he with h | h | h <;> contradiction
  · rcases h 69 he with h | h | h <;> contradiction

theorem readNumber_decimalInt (v : Int) {rest : List UInt8} (h : Ends rest) :
    readNumber (decimalInt v ++ rest) = some (int v, rest) := by
  have hnat := readNat_decimal (v := v.natAbs) h.not_digit
  have hdigits := takeWhile_decimal (v := v.natAbs) h.not_digit
  unfold decimalInt
  by_cases hneg : v < 0
  · rw [if_pos hneg]
    simp only [readNumber, List.cons_append, List.head?_cons, if_true, List.tail_cons]
    rw [hdigits, if_neg (not_leading_zero _), hnat]
    simp only [Option.bind_some, readFraction_ends h, readExponent_ends h, Option.map_some]
    have hv : -(v.natAbs * 10 ^ 0 + (0 : Nat) : Int) = v := by omega
    rw [hv]
    rfl
  · rw [if_neg hneg]
    have hhead : (decimal v.natAbs ++ rest).head? ≠ some 45 := by
      rw [List.head?_append_of_ne_nil _ (decimal_ne_nil _)]
      intro hminus
      have := (mem_decimal (List.mem_of_mem_head? hminus)).1
      contradiction
    simp only [readNumber, hhead, if_false]
    rw [hdigits, if_neg (not_leading_zero _), hnat]
    simp only [Option.bind_some, readFraction_ends h, readExponent_ends h, Option.map_some]
    have hv : (v.natAbs * 10 ^ 0 + (0 : Nat) : Int) = v := by omega
    rw [hv]
    rfl

theorem decimalInt_natCast (v : Nat) : decimalInt v = decimal v := by
  rw [decimalInt, if_neg (Int.not_lt.mpr (Int.natCast_nonneg v)), Int.natAbs_natCast]

/-! ## What stands at the front of a text -/

theorem skipBlanks_cons {c : UInt8} (hc : isBlank c = false) (s : List UInt8) : skipBlanks (c :: s) = c :: s :=
  List.dropWhile_cons_of_neg (by rw [hc]; exact Bool.false_ne_true)

theorem skipBlanks_append {gap : List UInt8} (h : ∀ c ∈ gap, isBlank c = true) (s : List UInt8) :
    skipBlanks (gap ++ s) = skipBlanks s := List.dropWhile_append_of_pos h

/-- The text begins with `v`, and `rest` is left. -/
structure ValueAt (s : List UInt8) (v : Json) (rest : List UInt8) : Prop where
  le : rest.length ≤ s.length
  read : ∀ fuel, 2 * s.length + 1 ≤ fuel → parseValue fuel s = some (v, rest)

structure MembersAt (s : List UInt8) (members : List (List UInt8 × Json)) (rest : List UInt8) : Prop where
  le : rest.length ≤ s.length
  read : ∀ fuel, 2 * s.length + 1 ≤ fuel → parseMembers fuel s = some (members, rest)

structure ElementsAt (s : List UInt8) (elements : List Json) (rest : List UInt8) : Prop where
  le : rest.length ≤ s.length
  read : ∀ fuel, 2 * s.length + 2 ≤ fuel → parseElements fuel s = some (elements, rest)

/-- Neither a blank nor the end of an array is a value. -/
theorem ValueAt.head {s rest : List UInt8} {v : Json} (h : ValueAt s v rest) :
    ∃ c t, s = c :: t ∧ isBlank c = false ∧ c ≠ 93 := by
  cases s with
  | nil =>
      have hread := h.read 1 (Nat.le_refl 1)
      cases hread
  | cons c t =>
      have hread := h.read (2 * (t.length + 1) + 1) (Nat.le_refl _)
      refine ⟨c, t, rfl, ?_, ?_⟩
      · by_contra hblank
        simp only [isBlank, Bool.not_eq_false, Bool.or_eq_true, beq_iff_eq] at hblank
        rcases hblank with ((rfl | rfl) | rfl) | rfl <;> cases hread
      · rintro rfl
        cases hread

theorem MembersAt.head {s rest : List UInt8} {members : List (List UInt8 × Json)} (h : MembersAt s members rest) :
    ∃ t, s = 34 :: t := by
  have hread := h.read _ (Nat.le_refl _)
  unfold parseMembers at hread
  split at hread
  · next t => exact ⟨t, rfl⟩
  · cases hread

theorem valueAt_int (v : Int) {rest : List UInt8} (h : Ends rest) : ValueAt (decimalInt v ++ rest) (int v) rest := by
  refine ⟨by rw [List.length_append]; omega, fun fuel hfuel => ?_⟩
  obtain ⟨fuel, rfl⟩ := Nat.exists_eq_succ_of_ne_zero (by omega : fuel ≠ 0)
  have hnumber := readNumber_decimalInt v h
  -- a number begins with its sign or with a digit
  have hhead : ∀ c, (decimalInt v ++ rest).head? = some c → c = 45 ∨ isDigit c = true := by
    intro c hc
    unfold decimalInt at hc
    split at hc
    · exact .inl (Option.some.inj hc).symm
    · rw [List.head?_append_of_ne_nil _ (decimal_ne_nil _)] at hc
      exact .inr (isDigit_of_mem_decimal (List.mem_of_mem_head? hc))
  unfold parseValue
  split
  all_goals first
    | exact hnumber
    | rename_i hs
      rw [hs] at hhead
      rcases hhead _ rfl with h | h <;> exact absurd h (by decide)

theorem valueAt_str {s : List UInt8} (h : ∀ c ∈ s, Plain c) (rest : List UInt8) :
    ValueAt (34 :: (s ++ 34 :: rest)) (.str s) rest := by
  refine ⟨by simp only [List.length_cons, List.length_append]; omega, fun fuel hfuel => ?_⟩
  obtain ⟨fuel, rfl⟩ := Nat.exists_eq_succ_of_ne_zero (by omega : fuel ≠ 0)
  rw [parseValue, readString_plain h]
  rfl

theorem MembersAt.obj {s rest : List UInt8} {members : List (List UInt8 × Json)} (h : MembersAt s members rest) :
    ValueAt (123 :: s) (.obj members) rest := by
  refine ⟨Nat.le_succ_of_le h.le, fun fuel hfuel => ?_⟩
  obtain ⟨fuel, rfl⟩ := Nat.exists_eq_succ_of_ne_zero (by omega : fuel ≠ 0)
  rw [List.length_cons] at hfuel
  obtain ⟨t, rfl⟩ := h.head
  rw [parseValue, skipBlanks_cons (by decide)]
  split
  · rename_i heq
    exact absurd (List.cons.inj heq).1 (by decide)
  · rw [h.read fuel (by omega)]
    rfl

theorem valueAt_arr_nil (rest : List UInt8) : ValueAt (91 :: 93 :: rest) (.arr []) rest := by
  refine ⟨by rw [List.length_cons, List.length_cons]; omega, fun fuel hfuel => ?_⟩
  obtain ⟨fuel, rfl⟩ := Nat.exists_eq_succ_of_ne_zero (by omega : fuel ≠ 0)
  rfl

theorem ElementsAt.arr {s rest : List UInt8} {elements : List Json} (h : ElementsAt s elements rest)
    (hhead : ∃ c t, s = c :: t ∧ isBlank c = false ∧ c ≠ 93) : ValueAt (91 :: s) (.arr elements) rest := by
  refine ⟨Nat.le_succ_of_le h.le, fun fuel hfuel => ?_⟩
  obtain ⟨fuel, rfl⟩ := Nat.exists_eq_succ_of_ne_zero (by omega : fuel ≠ 0)
  obtain ⟨c, t, rfl, hblank, hclose⟩ := hhead
  rw [List.length_cons] at hfuel
  rw [parseValue, skipBlanks_cons hblank]
  split
  · rename_i heq
    exact absurd (List.cons.inj heq).1 hclose
  · rw [h.read fuel (by omega)]
    rfl

theorem ElementsAt.last {s rest : List UInt8} {v : Json} (h : ValueAt s v (93 :: rest)) : ElementsAt s [v] rest := by
  refine ⟨Nat.le_of_succ_le h.le, fun fuel hfuel => ?_⟩
  obtain ⟨fuel, rfl⟩ := Nat.exists_eq_succ_of_ne_zero (by omega : fuel ≠ 0)
  rw [parseElements, h.read fuel (by omega), Option.bind_some]
  rfl

theorem ElementsAt.cons {s tail rest : List UInt8} {v : Json} {elements : List Json} (gap : List UInt8)
    (h : ValueAt s v (44 :: (gap ++ tail))) (hgap : ∀ c ∈ gap, isBlank c = true)
    (hhead : ∃ c t, tail = c :: t ∧ isBlank c = false ∧ c ≠ 93) (htail : ElementsAt tail elements rest) :
    ElementsAt s (v :: elements) rest := by
  have hle := h.le
  rw [List.length_cons, List.length_append] at hle
  refine ⟨by have := htail.le; omega, fun fuel hfuel => ?_⟩
  obtain ⟨fuel, rfl⟩ := Nat.exists_eq_succ_of_ne_zero (by omega : fuel ≠ 0)
  obtain ⟨c, t, rfl, hblank, -⟩ := hhead
  rw [parseElements, h.read fuel (by omega), Option.bind_some]
  dsimp only
  rw [skipBlanks_cons (by decide)]
  change (parseElements fuel (skipBlanks (gap ++ c :: t))).map _ = _
  rw [skipBlanks_append hgap, skipBlanks_cons hblank, htail.read fuel (by omega)]
  rfl

/-! ## Members -/

/-- A member, in front of what its value is printed with. -/
def member (key s : List UInt8) : List UInt8 := 34 :: (key ++ 34 :: 58 :: 32 :: s)

theorem member_length (key s : List UInt8) : (member key s).length = key.length + s.length + 4 := by
  simp only [member, List.length_cons, List.length_append]
  omega

theorem MembersAt.last {key s rest : List UInt8} {v : Json} (hkey : ∀ c ∈ key, Plain c)
    (h : ValueAt s v (125 :: rest)) : MembersAt (member key s) [(key, v)] rest := by
  have hle := h.le
  rw [List.length_cons] at hle
  refine ⟨by rw [member_length]; omega, fun fuel hfuel => ?_⟩
  rw [member_length] at hfuel
  obtain ⟨fuel, rfl⟩ := Nat.exists_eq_succ_of_ne_zero (by omega : fuel ≠ 0)
  obtain ⟨c, t, rfl, hblank, -⟩ := h.head
  rw [member, parseMembers, readString_plain hkey, Option.bind_some]
  dsimp only
  rw [skipBlanks_cons (by decide)]
  change (parseValue fuel (skipBlanks (c :: t))).bind _ = _
  rw [skipBlanks_cons hblank, h.read fuel (by omega)]
  rfl

/-- What a member in front adds to the rest of an object. -/
theorem parseMembers_cons {key s tail : List UInt8} {v : Json} {fuel : Nat} (gap : List UInt8) (hkey : ∀ c ∈ key, Plain c)
    (h : ValueAt s v (44 :: (gap ++ 34 :: tail))) (hgap : ∀ c ∈ gap, isBlank c = true)
    (hfuel : 2 * (member key s).length + 1 ≤ fuel + 1) :
    parseMembers (fuel + 1) (member key s) =
      (parseMembers fuel (34 :: tail)).map fun (members, rest) => ((key, v) :: members, rest) := by
  rw [member_length] at hfuel
  obtain ⟨c, t, rfl, hblank, -⟩ := h.head
  rw [member, parseMembers, readString_plain hkey, Option.bind_some]
  dsimp only
  rw [skipBlanks_cons (by decide)]
  change (parseValue fuel (skipBlanks (c :: t))).bind _ = _
  rw [skipBlanks_cons hblank, h.read fuel (by omega), Option.bind_some]
  dsimp only
  rw [skipBlanks_cons (by decide)]
  change (parseMembers fuel (skipBlanks (gap ++ 34 :: tail))).map _ = _
  rw [skipBlanks_append hgap, skipBlanks_cons (by decide)]

theorem MembersAt.cons {key s tail rest : List UInt8} {v : Json} {members : List (List UInt8 × Json)} (gap : List UInt8)
    (hkey : ∀ c ∈ key, Plain c) (h : ValueAt s v (44 :: (gap ++ tail))) (hgap : ∀ c ∈ gap, isBlank c = true)
    (htail : MembersAt tail members rest) : MembersAt (member key s) ((key, v) :: members) rest := by
  have hle := h.le
  rw [List.length_cons, List.length_append] at hle
  refine ⟨by rw [member_length]; have := htail.le; omega, fun fuel hfuel => ?_⟩
  obtain ⟨fuel, rfl⟩ := Nat.exists_eq_succ_of_ne_zero (by omega : fuel ≠ 0)
  obtain ⟨t, rfl⟩ := htail.head
  rw [parseMembers_cons gap hkey h hgap hfuel]
  rw [member_length] at hfuel
  rw [htail.read fuel (by omega)]
  rfl

/-! ## Flat objects -/

inductive Scalar
  | int (v : Int)
  | nat (v : Nat)
  | str (s : List UInt8)

namespace Scalar

def value : Scalar → Json
  | int v => Json.int v
  | nat v => Json.int v
  | str s => .str s

/-- Printed in front of `tail`. -/
def text (tail : List UInt8) : Scalar → List UInt8
  | int v => decimalInt v ++ tail
  | nat v => decimal v ++ tail
  | str s => 34 :: (s ++ 34 :: tail)

def width : Scalar → Nat
  | int v => (decimalInt v).length
  | nat v => (decimal v).length
  | str s => s.length + 2

/-- Printed as it is read. -/
def Clean : Scalar → Prop
  | int _ | nat _ => True
  | str s => ∀ c ∈ s, Plain c

theorem text_length (x : Scalar) (tail : List UInt8) : (x.text tail).length = x.width + tail.length := by
  cases x with
  | int v => exact List.length_append
  | nat v => exact List.length_append
  | str s =>
      simp only [text, width, List.length_cons, List.length_append]
      omega

theorem text_append (x : Scalar) (s t : List UInt8) : x.text s ++ t = x.text (s ++ t) := by
  cases x with
  | int v => exact List.append_assoc _ _ _
  | nat v => exact List.append_assoc _ _ _
  | str v => simp only [text, List.cons_append, List.append_assoc]

theorem valueAt {x : Scalar} (hx : x.Clean) {tail : List UInt8} (h : Ends tail) : ValueAt (x.text tail) x.value tail := by
  cases x with
  | int v => exact valueAt_int v h
  | nat v =>
      have hvalue := valueAt_int (v : Int) h
      rwa [decimalInt_natCast] at hvalue
  | str s => exact valueAt_str hx tail

end Scalar

/-- The members with a comma and a blank behind each. -/
def fieldsText : List (List UInt8 × Scalar) → List UInt8 → List UInt8
  | [], tail                 => tail
  | (key, x) :: fields, tail => member key (x.text (44 :: 32 :: fieldsText fields tail))

/-- An object with a last member. -/
def objectText (fields : List (List UInt8 × Scalar)) (last : List UInt8 × Scalar) (tail : List UInt8) : List UInt8 :=
  123 :: fieldsText fields (member last.1 (last.2.text (125 :: tail)))

def fieldsValue (fields : List (List UInt8 × Scalar)) : List (List UInt8 × Json) := fields.map fun f => (f.1, f.2.value)

def CleanFields (fields : List (List UInt8 × Scalar)) : Prop := ∀ f ∈ fields, (∀ c ∈ f.1, Plain c) ∧ f.2.Clean

theorem ends_comma (s : List UInt8) : Ends (44 :: s) := fun _ hc => .inl (Option.some.inj hc).symm

theorem ends_brace (s : List UInt8) : Ends (125 :: s) := fun _ hc => .inr (.inr (Option.some.inj hc).symm)

theorem ends_bracket (s : List UInt8) : Ends (93 :: s) := fun _ hc => .inr (.inl (Option.some.inj hc).symm)

theorem fieldsText_length (fields : List (List UInt8 × Scalar)) (tail : List UInt8) :
    (fieldsText fields tail).length = (fields.map fun f => f.1.length + f.2.width + 6).sum + tail.length := by
  induction fields with
  | nil => exact (Nat.zero_add _).symm
  | cons f fields ih =>
      simp only [fieldsText, member_length, Scalar.text_length, List.length_cons, ih, List.map_cons, List.sum_cons]
      omega

theorem objectText_length (fields : List (List UInt8 × Scalar)) (last : List UInt8 × Scalar) (tail : List UInt8) :
    (objectText fields last tail).length =
      ((fields ++ [last]).map fun f => f.1.length + f.2.width + 6).sum + tail.length := by
  simp only [objectText, List.length_cons, fieldsText_length, member_length, Scalar.text_length, List.map_append,
    List.sum_append, List.map_cons, List.map_nil, List.sum_cons, List.sum_nil]
  omega

theorem fieldsText_append (fields : List (List UInt8 × Scalar)) (s t : List UInt8) :
    fieldsText fields s ++ t = fieldsText fields (s ++ t) := by
  induction fields with
  | nil => rfl
  | cons f fields ih =>
      simp only [fieldsText, member, List.cons_append, List.append_assoc, Scalar.text_append, ih]

theorem objectText_append (fields : List (List UInt8 × Scalar)) (last : List UInt8 × Scalar) (s t : List UInt8) :
    objectText fields last s ++ t = objectText fields last (s ++ t) := by
  simp only [objectText, List.cons_append, fieldsText_append, member, List.append_assoc, Scalar.text_append]

theorem MembersAt.fields {fields : List (List UInt8 × Scalar)} (hclean : CleanFields fields) {tail rest : List UInt8}
    {members : List (List UInt8 × Json)} (h : MembersAt tail members rest) :
    MembersAt (fieldsText fields tail) (fieldsValue fields ++ members) rest := by
  induction fields with
  | nil => exact h
  | cons f fields ih =>
      obtain ⟨⟨hkey, hx⟩, hfields⟩ := List.forall_mem_cons.mp hclean
      exact MembersAt.cons [32] hkey (Scalar.valueAt hx (ends_comma _)) (List.forall_mem_singleton.mpr rfl) (ih hfields)

theorem valueAt_object {fields : List (List UInt8 × Scalar)} {last : List UInt8 × Scalar}
    (hclean : CleanFields (fields ++ [last])) (tail : List UInt8) :
    ValueAt (objectText fields last tail) (.obj (fieldsValue (fields ++ [last]))) tail := by
  obtain ⟨hkey, hx⟩ := hclean last (List.mem_append_right _ List.mem_cons_self)
  have hfields : CleanFields fields := fun f hf => hclean f (List.mem_append_left _ hf)
  have hlast := MembersAt.last hkey (Scalar.valueAt hx (ends_brace tail))
  have hall := (hlast.fields hfields).obj
  rw [fieldsValue, List.map_append]
  exact hall

/-- What the members in front add, whatever follows them. -/
theorem parseMembers_fields {fields : List (List UInt8 × Scalar)} (hclean : CleanFields fields) (tail : List UInt8)
    {fuel : Nat} (hfuel : 2 * (fieldsText fields (34 :: tail)).length + 1 ≤ fuel) :
    ∃ fuel', 2 * (34 :: tail).length + 1 ≤ fuel' ∧ parseMembers fuel (fieldsText fields (34 :: tail)) =
      (parseMembers fuel' (34 :: tail)).map fun (members, rest) => (fieldsValue fields ++ members, rest) := by
  induction fields generalizing fuel with
  | nil => exact ⟨fuel, hfuel, (congrFun Option.map_id _).symm⟩
  | cons f fields ih =>
      obtain ⟨⟨hkey, hx⟩, hfields⟩ := List.forall_mem_cons.mp hclean
      obtain ⟨fuel, rfl⟩ := Nat.exists_eq_succ_of_ne_zero (by omega : fuel ≠ 0)
      have hnext : ∃ t, fieldsText fields (34 :: tail) = 34 :: t := by
        cases fields with
        | nil => exact ⟨tail, rfl⟩
        | cons f fields => exact ⟨_, rfl⟩
      obtain ⟨t, ht⟩ := hnext
      have hvalue := Scalar.valueAt hx (ends_comma (32 :: fieldsText fields (34 :: tail)))
      rw [ht] at hvalue
      have hlen := hfuel
      simp only [fieldsText, member_length, Scalar.text_length, List.length_cons] at hlen
      obtain ⟨fuel', hfuel', heq⟩ := @ih hfields fuel (by omega)
      refine ⟨fuel', hfuel', ?_⟩
      rw [fieldsText, ht] at hfuel ⊢
      rw [parseMembers_cons [32] hkey hvalue (List.forall_mem_singleton.mpr rfl) hfuel, ← ht, heq, Option.map_map]
      rfl

/-! ## Lists of values -/

/-- Printed values that may be followed by `,`, `]` or a closing brace. -/
def PrintedAs (text : List UInt8) (v : Json) : Prop := ∀ rest, Ends rest → ValueAt (text ++ rest) v rest

theorem printedAs_object {fields : List (List UInt8 × Scalar)} {last : List UInt8 × Scalar}
    (hclean : CleanFields (fields ++ [last])) :
    PrintedAs (objectText fields last []) (.obj (fieldsValue (fields ++ [last]))) := by
  intro rest _
  rw [objectText_append]
  exact valueAt_object hclean rest

theorem elementsAt_separated {text : List UInt8} {texts : List (List UInt8)} {v : Json} {values : List Json}
    (htext : PrintedAs text v) (htexts : List.Forall₂ PrintedAs texts values) (rest : List UInt8) :
    ElementsAt ([44, 32].intercalate (text :: texts) ++ 93 :: rest) (v :: values) rest ∧
      ∃ c t, [44, 32].intercalate (text :: texts) ++ 93 :: rest = c :: t ∧ isBlank c = false ∧ c ≠ 93 := by
  induction htexts generalizing text v with
  | nil =>
      rw [List.intercalate_singleton]
      have hlast := htext _ (ends_bracket rest)
      exact ⟨.last hlast, hlast.head⟩
  | @cons next _ texts _ htext' _ ih =>
      obtain ⟨htail, hhead⟩ := ih htext'
      rw [List.intercalate_cons_cons, List.append_assoc, List.append_assoc]
      have hvalue := htext _ (ends_comma (32 :: ([44, 32].intercalate (next :: texts) ++ 93 :: rest)))
      exact ⟨.cons [32] hvalue (List.forall_mem_singleton.mpr rfl) hhead htail, hvalue.head⟩

/-- An array, with a comma and a blank between its elements. -/
theorem valueAt_array {texts : List (List UInt8)} {values : List Json} (h : List.Forall₂ PrintedAs texts values)
    (rest : List UInt8) :
    ValueAt (91 :: ([44, 32].intercalate texts ++ 93 :: rest)) (.arr values) rest := by
  cases h with
  | nil => exact valueAt_arr_nil rest
  | cons htext htexts =>
      obtain ⟨hall, hhead⟩ := elementsAt_separated htext htexts rest
      exact hall.arr hhead

/-- The text is one value. -/
theorem parse_eq_some {text : List UInt8} {v : Json} (h : ValueAt text v []) (hutf8 : Utf8 text) :
    parse text = some v := by
  obtain ⟨c, t, rfl, hblank, -⟩ := h.head
  unfold Utf8 at hutf8
  rw [parse, if_pos hutf8, skipBlanks_cons hblank, h.read _ (Nat.le_succ _)]
  rfl


/-! ## Back from what was read -/

/-- A printed string that is read back as itself, in a member. -/
theorem plain_of_parseMembers {key key' v tail rest : List UInt8} {members : List (List UInt8 × Json)} {fuel : Nat}
    (hkey : ∀ c ∈ key, Plain c)
    (h : parseMembers fuel (member key (34 :: (v ++ 34 :: tail))) = some ((key', .str v) :: members, rest)) :
    ∀ c ∈ v, Plain c := by
  have hread : ∃ s, readString (v ++ 34 :: tail) = some (v, s) := by
    cases fuel with
    | zero => cases h
    | succ fuel =>
        rw [member, parseMembers, readString_plain hkey, Option.bind_some] at h
        change (parseValue fuel (34 :: (v ++ 34 :: tail))).bind _ = _ at h
        cases fuel with
        | zero => cases h
        | succ fuel =>
            rw [parseValue] at h
            obtain ⟨⟨value, s⟩, hvalue, h⟩ := Option.bind_eq_some_iff.mp h
            obtain ⟨⟨v', s'⟩, hv', hpair⟩ := Option.map_eq_some_iff.mp hvalue
            cases hpair
            -- the member that was read has the value that stood here
            have hfirst : (.str v' : Json) = .str v := by
              dsimp only at h
              split at h
              · obtain ⟨_, _, hmembers⟩ := Option.map_eq_some_iff.mp h
                cases hmembers
                rfl
              · cases h
                rfl
              · cases h
            cases hfirst
            exact ⟨_, hv'⟩
  obtain ⟨s, hs⟩ := hread
  exact readString_self hs

theorem plain_of_parse {fields : List (List UInt8 × Scalar)} (hclean : CleanFields fields) {key v tail : List UInt8}
    (hkey : ∀ c ∈ key, Plain c) {members : List (List UInt8 × Json)}
    (h : parse (123 :: fieldsText fields (member key (34 :: (v ++ 34 :: tail)))) =
      some (.obj (fieldsValue fields ++ (key, .str v) :: members))) : ∀ c ∈ v, Plain c := by
  unfold parse at h
  split at h
  · obtain ⟨⟨value, s⟩, hvalue, h⟩ := Option.bind_eq_some_iff.mp h
    rw [skipBlanks_cons (by decide)] at hvalue
    have hhead : ∃ t, fieldsText fields (member key (34 :: (v ++ 34 :: tail))) = 34 :: t := by
      cases fields with
      | nil => exact ⟨_, rfl⟩
      | cons f fields => exact ⟨_, rfl⟩
    obtain ⟨t, ht⟩ := hhead
    have hmembers : (parseMembers (2 * (123 :: fieldsText fields (member key (34 :: (v ++ 34 :: tail)))).length + 1)
        (fieldsText fields (member key (34 :: (v ++ 34 :: tail))))).map (fun r => (obj r.1, r.2)) = some (value, s) := by
      rw [parseValue, ht, skipBlanks_cons (by decide)] at hvalue
      rw [ht]
      split at hvalue
      · rename_i heq
        exact absurd (List.cons.inj heq).1 (by decide)
      · exact hvalue
    have hfuel : 2 * (fieldsText fields (member key (34 :: (v ++ 34 :: tail)))).length + 1 ≤
        2 * (123 :: fieldsText fields (member key (34 :: (v ++ 34 :: tail)))).length + 1 := by
      rw [List.length_cons]
      omega
    obtain ⟨fuel, _, heq⟩ := parseMembers_fields hclean (key ++ 34 :: 58 :: 32 :: 34 :: (v ++ 34 :: tail)) hfuel
    change parseMembers _ (fieldsText fields (member key (34 :: (v ++ 34 :: tail)))) = _ at heq
    rw [heq, Option.map_map] at hmembers
    obtain ⟨⟨read, rest⟩, hread, hpair⟩ := Option.map_eq_some_iff.mp hmembers
    cases hpair
    dsimp only at h
    split at h
    · have hvalues := Json.obj.inj (Option.some.inj h)
      have hread' := List.append_cancel_left hvalues
      rw [hread'] at hread
      exact plain_of_parseMembers hkey hread
    · cases h
  · cases h

/-! ## The bytes of a text -/

section Bytes

variable {P : UInt8 → Prop} (hP : ∀ c, 32 ≤ c → c < 0x80 → P c)

include hP

theorem forall_mem_decimal (v : Nat) : ∀ c ∈ decimal v, P c := by
  intro c hc
  obtain ⟨hlow, hhigh⟩ := mem_decimal hc
  exact hP c (UInt8.le_iff_toNat_le.mpr (Nat.le_trans (by decide) hlow))
    (UInt8.lt_iff_toNat_lt.mpr (Nat.lt_of_le_of_lt hhigh (by decide)))

theorem forall_mem_decimalInt (v : Int) : ∀ c ∈ decimalInt v, P c := by
  unfold decimalInt
  split
  · exact List.forall_mem_cons.mpr ⟨hP 45 (by decide) (by decide), forall_mem_decimal hP _⟩
  · exact forall_mem_decimal hP _

theorem Scalar.forall_mem_text {x : Scalar} (hx : ∀ s, x = .str s → ∀ c ∈ s, P c) {tail : List UInt8}
    (htail : ∀ c ∈ tail, P c) : ∀ c ∈ x.text tail, P c := by
  cases x with
  | int v => exact List.forall_mem_append.mpr ⟨forall_mem_decimalInt hP v, htail⟩
  | nat v => exact List.forall_mem_append.mpr ⟨forall_mem_decimal hP v, htail⟩
  | str s =>
      have hquote : P 34 := hP 34 (by decide) (by decide)
      rw [text, List.forall_mem_cons, List.forall_mem_append, List.forall_mem_cons]
      exact ⟨hquote, hx s rfl, hquote, htail⟩

theorem forall_mem_member {key s : List UInt8} (hkey : ∀ c ∈ key, P c) (hs : ∀ c ∈ s, P c) :
    ∀ c ∈ member key s, P c := by
  rw [member, List.forall_mem_cons, List.forall_mem_append, List.forall_mem_cons, List.forall_mem_cons,
    List.forall_mem_cons]
  exact ⟨hP 34 (by decide) (by decide), hkey, hP 34 (by decide) (by decide), hP 58 (by decide) (by decide),
    hP 32 (by decide) (by decide), hs⟩

theorem forall_mem_fieldsText {fields : List (List UInt8 × Scalar)}
    (hfields : ∀ f ∈ fields, (∀ c ∈ f.1, P c) ∧ ∀ s, f.2 = .str s → ∀ c ∈ s, P c) {tail : List UInt8}
    (htail : ∀ c ∈ tail, P c) : ∀ c ∈ fieldsText fields tail, P c := by
  induction fields with
  | nil => exact htail
  | cons f fields ih =>
      obtain ⟨⟨hkey, hx⟩, hrest⟩ := List.forall_mem_cons.mp hfields
      apply forall_mem_member hP hkey
      apply Scalar.forall_mem_text hP hx
      rw [List.forall_mem_cons, List.forall_mem_cons]
      exact ⟨hP 44 (by decide) (by decide), hP 32 (by decide) (by decide), ih hrest⟩

theorem forall_mem_objectText {fields : List (List UInt8 × Scalar)} {last : List UInt8 × Scalar}
    (hfields : ∀ f ∈ fields ++ [last], (∀ c ∈ f.1, P c) ∧ ∀ s, f.2 = .str s → ∀ c ∈ s, P c) {tail : List UInt8}
    (htail : ∀ c ∈ tail, P c) : ∀ c ∈ objectText fields last tail, P c := by
  obtain ⟨hkey, hx⟩ := hfields last (List.mem_append_right _ List.mem_cons_self)
  rw [objectText, List.forall_mem_cons]
  refine ⟨hP 123 (by decide) (by decide), ?_⟩
  apply forall_mem_fieldsText hP fun f hf => hfields f (List.mem_append_left _ hf)
  apply forall_mem_member hP hkey
  apply Scalar.forall_mem_text hP hx
  rw [List.forall_mem_cons]
  exact ⟨hP 125 (by decide) (by decide), htail⟩

end Bytes

end Json
