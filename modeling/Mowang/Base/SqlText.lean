import Mowang.Base.CString

/-!
# `Base.SqlText` — literals in the text of an SQL statement

A string literal of MySQL stands between single quotes. Inside it a doubled quote is a quote, and a backslash
begins an escape. A text that is printed between two quotes as it is comes out as itself exactly if it is
`plain`: it has no quote, and no backslash but those of `\%` and `\_`, which MySQL keeps.

## Contents
- `readLiteral`, `plain`, `readLiteral_self_iff`.
- `expect`, `readInt`, `readInt_decimalInt`.
-/

/-- The single quote. -/
def quote : UInt8 := 39

def backslash : UInt8 := 92

/-- What a backslash before `c` stands for. -/
def unescape (c : UInt8) : List UInt8 :=
  if c = 48 then [0]
  else if c = 98 then [8]
  else if c = 110 then [10]
  else if c = 114 then [13]
  else if c = 116 then [9]
  else if c = 90 then [26]
  -- the wildcards keep their backslash
  else if c = 37 ∨ c = 95 then [backslash, c]
  else [c]

/-- The value of a literal and what comes behind it; the opening quote is read. -/
def readLiteral : List UInt8 → Option (List UInt8 × List UInt8)
  | []     => none
  | c :: s =>
    if c = quote then
      match s with
      | []      => some ([], [])
      | d :: s' => if d = quote then (readLiteral s').map fun r => (quote :: r.1, r.2) else some ([], d :: s')
    else if c = backslash then
      match s with
      | []      => none
      | d :: s' => (readLiteral s').map fun r => (unescape d ++ r.1, r.2)
    else (readLiteral s).map fun r => (c :: r.1, r.2)

/-- No quote, and no escape but of a wildcard. -/
def plain : List UInt8 → Bool
  | []     => true
  | c :: s =>
    if c = quote then false
    else if c = backslash then
      match s with
      | []      => false
      | d :: s' => (d = 37 ∨ d = 95) && plain s'
    else plain s

/-! ## `readLiteral` -/

theorem readLiteral_quote_quote (s : List UInt8) :
    readLiteral (quote :: quote :: s) = (readLiteral s).map fun r => (quote :: r.1, r.2) := by
  rw [readLiteral, if_pos rfl]
  exact if_pos rfl

/-- A quote that is not doubled ends the literal. -/
theorem readLiteral_quote {s : List UInt8} (h : s.head? ≠ some quote) : readLiteral (quote :: s) = some ([], s) := by
  rw [readLiteral.eq_def]
  dsimp only
  rw [if_pos rfl]
  cases s with
  | nil => rfl
  | cons d s =>
      have hd : d ≠ quote := fun heq => h (congrArg some heq)
      exact if_neg hd

theorem readLiteral_escape (d : UInt8) (s : List UInt8) :
    readLiteral (backslash :: d :: s) = (readLiteral s).map fun r => (unescape d ++ r.1, r.2) := by
  rw [readLiteral, if_neg (by decide), if_pos rfl]

theorem readLiteral_char {c : UInt8} (hquote : c ≠ quote) (hback : c ≠ backslash) (s : List UInt8) :
    readLiteral (c :: s) = (readLiteral s).map fun r => (c :: r.1, r.2) := by
  rw [readLiteral.eq_def]
  dsimp only
  rw [if_neg hquote, if_neg hback]

theorem unescape_length (c : UInt8) : (unescape c).length ≤ 2 ∧ ((unescape c).length = 2 → c = 37 ∨ c = 95) := by
  unfold unescape
  split_ifs <;> simp_all

/-- A literal ends with a quote, and its value is no longer than its text, and as long only for a plain text. -/
theorem readLiteral_sound {x v r : List UInt8} (h : readLiteral x = some (v, r)) :
    ∃ y, x = y ++ quote :: r ∧ v.length ≤ y.length ∧ (v.length = y.length → plain y = true) := by
  induction x using readLiteral.induct generalizing v with
  | case1 => cases h
  | case2 =>
      cases h
      exact ⟨[], rfl, Nat.le_refl _, fun _ => rfl⟩
  | case3 s ih =>
      rw [readLiteral_quote_quote] at h
      obtain ⟨⟨v', _⟩, hs, heq⟩ := Option.map_eq_some_iff.mp h
      cases heq
      obtain ⟨y, rfl, hle, _⟩ := ih hs
      -- two bytes of text for one of the value
      refine ⟨quote :: quote :: y, rfl, ?_, fun hlen => ?_⟩
      · simp only [List.length_cons]
        omega
      · simp only [List.length_cons] at hlen
        omega
  | case4 d s hd =>
      rw [readLiteral_quote (by simpa using hd)] at h
      cases h
      exact ⟨[], rfl, Nat.le_refl _, fun _ => rfl⟩
  | case5 => cases h
  | case6 d s _ ih =>
      rw [readLiteral_escape] at h
      obtain ⟨⟨v', _⟩, hs, heq⟩ := Option.map_eq_some_iff.mp h
      cases heq
      obtain ⟨y, rfl, hle, hplain⟩ := ih hs
      obtain ⟨htwo, hwild⟩ := unescape_length d
      refine ⟨backslash :: d :: y, rfl, ?_, fun hlen => ?_⟩
      · simp only [List.length_append, List.length_cons]
        omega
      · simp only [List.length_append, List.length_cons] at hlen
        have hd := hwild (by omega)
        have hy := hplain (by omega)
        simpa [plain, quote, backslash, hy] using hd
  | case7 c s hquote hback ih =>
      rw [readLiteral_char hquote hback] at h
      obtain ⟨⟨v', _⟩, hs, heq⟩ := Option.map_eq_some_iff.mp h
      cases heq
      obtain ⟨y, rfl, hle, hplain⟩ := ih hs
      refine ⟨c :: y, rfl, Nat.succ_le_succ hle, fun hlen => ?_⟩
      have hy := hplain (Nat.succ.inj hlen)
      rw [plain.eq_def]
      dsimp only
      rw [if_neg hquote, if_neg hback, hy]

/-- A plain text is read back. -/
theorem readLiteral_plain {s t : List UInt8} (hs : plain s = true) (ht : t.head? ≠ some quote) :
    readLiteral (s ++ quote :: t) = some (s, t) := by
  induction s using plain.induct with
  | case1 => exact readLiteral_quote ht
  | case2 s =>
      rw [plain.eq_def] at hs
      dsimp only at hs
      rw [if_pos rfl] at hs
      cases hs
  | case3 =>
      rw [plain, if_neg (by decide), if_pos rfl] at hs
      cases hs
  | case4 d s _ ih =>
      rw [plain, if_neg (by decide), if_pos rfl, Bool.and_eq_true, decide_eq_true_eq] at hs
      rw [List.cons_append, List.cons_append, readLiteral_escape, ih hs.2]
      rcases hs.1 with rfl | rfl <;> rfl
  | case5 c s hquote hback ih =>
      rw [plain.eq_def] at hs
      dsimp only at hs
      rw [if_neg hquote, if_neg hback] at hs
      rw [List.cons_append, readLiteral_char hquote hback, ih hs]
      rfl

/-- A literal that ends with `s`. -/
theorem readLiteral_append {p s t : List UInt8} (hs : s = p ++ [quote]) (hp : plain p = true)
    (ht : t.head? ≠ some quote) :
    readLiteral (s ++ t) = some (p, t) := by
  rw [hs, List.append_assoc, List.singleton_append, readLiteral_plain hp ht]

/-- **Exactly the plain texts are read back** from between two quotes. -/
theorem readLiteral_self_iff {s t : List UInt8} (ht : t.head? ≠ some quote) :
    readLiteral (s ++ quote :: t) = some (s, t) ↔ plain s = true := by
  constructor
  · intro h
    obtain ⟨y, hcat, _, hplain⟩ := readLiteral_sound h
    rw [List.append_cancel_right hcat] at hplain ⊢
    exact hplain rfl
  · intro hs
    exact readLiteral_plain hs ht

theorem readLiteral_length {x v r : List UInt8} (h : readLiteral x = some (v, r)) : r.length < x.length := by
  obtain ⟨y, rfl, _, _⟩ := readLiteral_sound h
  rw [List.length_append, List.length_cons]
  omega

/-- What a literal stands for does not depend on what comes behind it. -/
theorem readLiteral_append_iff {s v t : List UInt8} (ht : t.head? ≠ some quote) :
    readLiteral (s ++ quote :: t) = some (v, t) ↔ readLiteral (s ++ [quote]) = some (v, []) := by
  induction s using readLiteral.induct generalizing v with
  | case1 =>
      rw [List.nil_append, List.nil_append, readLiteral_quote ht, readLiteral_quote (by simp)]
      simp
  | case2 =>
      -- the closing quote makes a pair with the one in front of it
      constructor
      · intro h
        rw [List.singleton_append, readLiteral_quote_quote] at h
        obtain ⟨r, hr, heq⟩ := Option.map_eq_some_iff.mp h
        cases heq
        exact absurd (readLiteral_length hr) (Nat.lt_irrefl _)
      · intro h
        cases h
  | case3 s ih =>
      simp only [List.cons_append, readLiteral_quote_quote, Option.map_eq_some_iff, Prod.exists, Prod.mk.injEq,
        exists_eq_right_right, ih]
  | case4 d s hd =>
      have hend : ∀ u, readLiteral (quote :: d :: s ++ u) = some ([], d :: s ++ u) :=
        fun u => readLiteral_quote (by simpa using hd)
      constructor
      · intro h
        rw [hend] at h
        have hlen := congrArg List.length (Prod.mk.inj (Option.some.inj h)).2
        simp only [List.length_append, List.length_cons] at hlen
        omega
      · intro h
        rw [hend] at h
        cases h
  | case5 =>
      -- the closing quote is escaped
      constructor
      · intro h
        rw [List.singleton_append, readLiteral_escape] at h
        obtain ⟨r, hr, heq⟩ := Option.map_eq_some_iff.mp h
        cases heq
        exact absurd (readLiteral_length hr) (Nat.lt_irrefl _)
      · intro h
        cases h
  | case6 d s _ ih =>
      simp only [List.cons_append, readLiteral_escape, Option.map_eq_some_iff, Prod.exists, Prod.mk.injEq,
        exists_eq_right_right, ih]
  | case7 c s hquote hback ih =>
      simp only [List.cons_append, readLiteral_char hquote hback, Option.map_eq_some_iff, Prod.exists, Prod.mk.injEq,
        exists_eq_right_right, ih]

/-- A text of which no byte is a quote or a backslash is plain. -/
theorem plain_of_forall {s : List UInt8} (h : ∀ c ∈ s, c ≠ quote ∧ c ≠ backslash) : plain s = true := by
  induction s with
  | nil => rfl
  | cons c s ih =>
      obtain ⟨hc, hs⟩ := List.forall_mem_cons.mp h
      rw [plain.eq_def]
      dsimp only
      rw [if_neg hc.1, if_neg hc.2, ih hs]

/-! ## Fixed texts and numbers -/

/-- The rest of `s` behind `text`. -/
def expect (text s : List UInt8) : Option (List UInt8) :=
  if text.isPrefixOf s then some (s.drop text.length) else none

theorem expect_append (text s : List UInt8) : expect text (text ++ s) = some s := by
  rw [expect, if_pos (List.isPrefixOf_iff_prefix.mpr (List.prefix_append text s)), List.drop_left]

theorem expect_eq_none {c : UInt8} {text s : List UInt8} (h : s.head? ≠ some c) : expect (c :: text) s = none := by
  rw [expect, if_neg]
  intro hprefix
  obtain ⟨t, rfl⟩ := List.isPrefixOf_iff_prefix.mp hprefix
  exact h rfl

/-- An unsigned number and what comes behind it. -/
def readNat (s : List UInt8) : Option (Nat × List UInt8) :=
  let digits := s.takeWhile isDigit
  if digits.isEmpty then none
  else some (Nat.ofDigitChars 10 (digits.map fun c => Char.ofNat c.toNat) 0, s.drop digits.length)

/-- A number, with its sign. -/
def readInt (s : List UInt8) : Option (Int × List UInt8) :=
  if s.head? = some 45 then (readNat s.tail).map fun r => (-(r.1 : Int), r.2)
  else (readNat s).map fun r => ((r.1 : Int), r.2)

theorem isDigit_of_mem_decimal {v : Nat} {c : UInt8} (h : c ∈ decimal v) : isDigit c = true := by
  obtain ⟨h₁, h₂⟩ := mem_decimal h
  simp only [isDigit, Bool.and_eq_true, decide_eq_true_eq, UInt8.le_iff_toNat_le]
  exact ⟨h₁, h₂⟩

/-- The digits of a number stand for it. -/
theorem ofDigitChars_decimal (v : Nat) :
    Nat.ofDigitChars 10 ((decimal v).map fun c => Char.ofNat c.toNat) 0 = v := by
  have hchars : ((decimal v).map fun c => Char.ofNat c.toNat) = Nat.toDigits 10 v := by
    rw [decimal, List.map_map]
    refine (List.map_congr_left fun d hd => ?_).trans (List.map_id _)
    have hdigit := Nat.isDigit_of_mem_toDigits (by decide) (by decide) hd
    have hle : d.toNat ≤ 57 := (Char.isDigit_iff_toNat.mp hdigit).2
    show Char.ofNat d.toNat.toUInt8.toNat = d
    rw [show d.toNat.toUInt8.toNat = d.toNat % 256 from UInt8.toNat_ofNat', Nat.mod_eq_of_lt (by omega), Char.ofNat_toNat]
  rw [hchars, Nat.ofDigitChars_ten_toDigits]

theorem takeWhile_decimal {v : Nat} {t : List UInt8} (ht : ∀ c, t.head? = some c → isDigit c = false) :
    (decimal v ++ t).takeWhile isDigit = decimal v := by
  rw [List.takeWhile_append_of_pos fun c hc => isDigit_of_mem_decimal hc]
  cases t with
  | nil => simp
  | cons c t =>
      rw [List.takeWhile_cons_of_neg (by rw [ht c rfl]; decide), List.append_nil]

theorem readNat_decimal {v : Nat} {t : List UInt8} (ht : ∀ c, t.head? = some c → isDigit c = false) :
    readNat (decimal v ++ t) = some (v, t) := by
  simp only [readNat]
  rw [takeWhile_decimal ht, if_neg (by simp [decimal_ne_nil]), ofDigitChars_decimal, List.drop_left]

/-- A printed number is read back. -/
theorem readInt_decimalInt {v : Int} {t : List UInt8} (ht : ∀ c, t.head? = some c → isDigit c = false) :
    readInt (decimalInt v ++ t) = some (v, t) := by
  unfold decimalInt readInt
  split
  · rename_i hneg
    rw [List.cons_append, List.head?_cons, if_pos rfl, List.tail_cons, readNat_decimal ht]
    simp only [Option.map_some, Option.some.injEq, Prod.mk.injEq, and_true]
    omega
  · rename_i hpos
    have hhead : (decimal v.natAbs ++ t).head? ≠ some 45 := by
      rw [List.head?_append_of_ne_nil _ (decimal_ne_nil _)]
      intro h
      have := (mem_decimal (List.mem_of_mem_head? h)).1
      contradiction
    rw [if_neg hhead, readNat_decimal ht]
    simp only [Option.map_some, Option.some.injEq, Prod.mk.injEq, and_true]
    omega
