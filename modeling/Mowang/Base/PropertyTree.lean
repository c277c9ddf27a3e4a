import Mowang.Base.SqlText

/-!
# `Base.PropertyTree` — a property tree, and the numbers that are read from texts

A node has a text and children under keys; `get` takes the first child under a key. A number is taken from a text by
a stream, which must find nothing but blanks behind it, or by `strtoll`, which stops where the number ends.

## Contents
- `Ptree`, `Ptree.child?`, `Ptree.get?`, `Ptree.getUnsigned?`.
- `isSpace`, `streamUnsigned`, `strtoll`, and `scanNumber_decimalInt`.
- `tokens`, `tokens_eq_nil_iff`, `mem_tokens`, `tokens_intercalate`.
-/

def isSpace (c : UInt8) : Bool := c = 32 || (9 ≤ c && c ≤ 13)

/-- The value of a run of digits. -/
def digitsValue (digits : List UInt8) : Nat := digits.foldl (fun v c => 10 * v + (c.toNat - 48)) 0

/-- A number at the start of a text: its sign, its digits, and what stands behind them. -/
def scanNumber (text : List UInt8) : Bool × List UInt8 × List UInt8 :=
  let text := text.dropWhile isSpace
  let negative := text.head? = some 45
  let text := if negative || text.head? = some 43 then text.tail else text
  (negative, text.takeWhile isDigit, text.dropWhile isDigit)

/-- What `istringstream >> v` reads into an unsigned `v` of that many bits, if the stream ends there; a sign is taken,
    and a negative number wraps. -/
def streamUnsigned (bits : Nat) (text : List UInt8) : Option Nat :=
  let (negative, digits, rest) := scanNumber text
  let v := digitsValue digits
  if digits = [] ∨ 2 ^ bits ≤ v ∨ ¬ rest.all isSpace then none
  else some (if negative then (2 ^ bits - v) % 2 ^ bits else v)

/-- `strtoll` to base 10, 0 if there is no number. -/
def strtoll (text : List UInt8) : Int :=
  let (negative, digits, _) := scanNumber text
  let v : Int := digitsValue digits
  max (-2 ^ 63) (min (2 ^ 63 - 1) (if negative then -v else v))

theorem digitsValue_decimal (v : Nat) : digitsValue (decimal v) = v := by
  have h := ofDigitChars_decimal v
  rw [Nat.ofDigitChars, List.foldl_map] at h
  refine (List.foldl_ext _ _ _ fun v c _ => ?_).trans h
  show 10 * v + (c.toNat - 48) = 10 * v + ((Char.ofNat c.toNat).toNat - 48)
  have hvalid : c.toNat.isValidChar := Or.inl (Nat.lt_trans c.toNat_lt (by decide))
  rw [Char.ofNat, dif_pos hvalid]
  rfl

theorem dropWhile_decimal {v : Nat} {rest : List UInt8} (hrest : ∀ c, rest.head? = some c → isDigit c = false) :
    (decimal v ++ rest).dropWhile isDigit = rest := by
  apply @List.append_cancel_left _ (decimal v)
  have h : (decimal v ++ rest).takeWhile isDigit ++ _ = _ := List.takeWhile_append_dropWhile
  rwa [takeWhile_decimal hrest] at h

/-- From the digits on there are no blanks. -/
theorem isSpace_of_le {c : UInt8} (h : 48 ≤ c.toNat) : isSpace c = false := by
  simp only [isSpace, Bool.or_eq_false_iff, Bool.and_eq_false_iff, decide_eq_false_iff_not, UInt8.le_iff_toNat_le,
    ← UInt8.toNat_inj]
  exact ⟨by simp; omega, Or.inr (by simp; omega)⟩

/-- A printed number is scanned up to what is no digit. -/
theorem scanNumber_decimalInt {v : Int} {rest : List UInt8} (hrest : ∀ c, rest.head? = some c → isDigit c = false) :
    scanNumber (decimalInt v ++ rest) = (decide (v < 0), decimal v.natAbs, rest) := by
  rw [decimalInt]
  by_cases hneg : v < 0
  · rw [if_pos hneg, scanNumber, List.cons_append, List.dropWhile_cons_of_neg (by decide)]
    simp [hneg, takeWhile_decimal hrest, dropWhile_decimal hrest]
  · rw [if_neg hneg]
    obtain ⟨d, digits, hdigits⟩ := List.exists_cons_of_ne_nil (decimal_ne_nil v.natAbs)
    have hd := mem_decimal (hdigits ▸ List.mem_cons_self : d ∈ decimal v.natAbs)
    have hspace := isSpace_of_le hd.1
    have hne : ∀ c : UInt8, c.toNat < 48 → d ≠ c := by
      rintro c hc rfl
      omega
    have htext : decimal v.natAbs ++ rest = d :: (digits ++ rest) := by
      rw [hdigits]
      rfl
    rw [scanNumber, htext, List.dropWhile_cons_of_neg (by simp [hspace]), ← htext]
    simp only [htext, List.head?_cons, Option.some.injEq, hne 45 (by decide), hne 43 (by decide), decide_false,
      Bool.or_self, Bool.false_eq_true, if_false]
    rw [← htext, takeWhile_decimal hrest, dropWhile_decimal hrest, decide_eq_false hneg]

/-- What `strtok` finds in a text, one call after the other. -/
def tokens (delimiter : UInt8 → Bool) (text : List UInt8) : List (List UInt8) :=
  (text.splitOnP delimiter).filter (· ≠ [])

/-- There is no token if there is nothing but delimiters. -/
theorem tokens_eq_nil_iff {delimiter : UInt8 → Bool} {text : List UInt8} :
    tokens delimiter text = [] ↔ ∀ c ∈ text, delimiter c = true := by
  rw [tokens, List.filter_eq_nil_iff]
  induction text with
  | nil => simp
  | cons c text ih =>
      rw [List.splitOnP_cons_eq_if_modifyHead]
      cases hc : delimiter c with
      | true => simpa [hc] using ih
      | false =>
          -- the first token is not empty any more
          obtain ⟨first, rest, hsplit⟩ := List.exists_cons_of_ne_nil (List.splitOnP_ne_nil delimiter text)
          simp [hc, hsplit]

section Tokens

variable {delimiter : UInt8 → Bool} {text sep : List UInt8} {c : UInt8}

theorem tokens_cons (hc : delimiter c = true) (text : List UInt8) :
    tokens delimiter (c :: text) = tokens delimiter text := by
  rw [tokens, List.splitOnP_cons_eq_if_modifyHead, if_pos hc, List.filter_cons_of_neg (by simp), tokens]

theorem tokens_append (hsep : ∀ c ∈ sep, delimiter c = true) (text : List UInt8) :
    tokens delimiter (sep ++ text) = tokens delimiter text := by
  induction sep with
  | nil => rfl
  | cons c sep ih =>
      rw [List.cons_append, tokens_cons (hsep c List.mem_cons_self)]
      exact ih fun c hc => hsep c (List.mem_cons_of_mem _ hc)

/-- A text with no delimiter is one token. -/
theorem tokens_of_free (hne : text ≠ []) (hfree : ∀ c ∈ text, delimiter c = false) :
    tokens delimiter text = [text] := by
  rw [tokens, List.splitOnP_eq_singleton fun c hc => by simp [hfree c hc], List.filter_cons_of_pos (by simpa using hne)]
  rfl

/-- A token ends at a delimiter. -/
theorem tokens_append_cons (hne : text ≠ []) (hfree : ∀ c ∈ text, delimiter c = false) (hc : delimiter c = true)
    (rest : List UInt8) : tokens delimiter (text ++ c :: rest) = text :: tokens delimiter rest := by
  rw [tokens, List.splitOnP_append_cons _ _ hc, List.filter_append]
  exact congrArg (· ++ _) (tokens_of_free hne hfree)

/-- The parts of a text between its delimiters. -/
theorem mem_splitOnP {part : List UInt8} (h : part ∈ text.splitOnP delimiter) :
    ∀ c ∈ part, delimiter c = false ∧ c ∈ text := by
  induction text generalizing part with
  | nil =>
      rw [List.splitOnP_nil, List.mem_singleton] at h
      simp [h]
  | cons d text ih =>
      have hmore : ∀ {part}, part ∈ text.splitOnP delimiter → ∀ c ∈ part, delimiter c = false ∧ c ∈ d :: text :=
        fun hpart c hc => ⟨(ih hpart c hc).1, List.mem_cons_of_mem d (ih hpart c hc).2⟩
      rw [List.splitOnP_cons_eq_if_modifyHead] at h
      split at h
      · rcases List.mem_cons.mp h with rfl | h
        · simp
        · exact hmore h
      · rename_i hd
        obtain ⟨first, parts, hsplit⟩ := List.exists_cons_of_ne_nil (List.splitOnP_ne_nil delimiter text)
        rw [hsplit, List.modifyHead_cons] at h
        rcases List.mem_cons.mp h with rfl | h
        · intro c hc
          rcases List.mem_cons.mp hc with rfl | hc
          · exact ⟨by simpa using hd, List.mem_cons_self⟩
          · exact hmore (hsplit ▸ List.mem_cons_self) c hc
        · exact hmore (hsplit ▸ List.mem_cons_of_mem _ h)

/-- A token is not empty, has no delimiter, and comes from the text. -/
theorem mem_tokens {token : List UInt8} (h : token ∈ tokens delimiter text) :
    token ≠ [] ∧ ∀ c ∈ token, delimiter c = false ∧ c ∈ text := by
  obtain ⟨hmem, hne⟩ := List.mem_filter.mp h
  exact ⟨by simpa using hne, mem_splitOnP hmem⟩

/-- What is joined with separators is found again. -/
theorem tokens_intercalate {parts : List (List UInt8)} (hne : sep ≠ []) (hsep : ∀ c ∈ sep, delimiter c = true)
    (hparts : ∀ part ∈ parts, part ≠ [] ∧ ∀ c ∈ part, delimiter c = false) :
    tokens delimiter (sep.intercalate parts) = parts := by
  induction parts with
  | nil => rfl
  | cons part parts ih =>
      obtain ⟨hpart, hfree⟩ := hparts part List.mem_cons_self
      have ih := ih fun part hpart => hparts part (List.mem_cons_of_mem _ hpart)
      cases parts with
      | nil =>
          rw [List.intercalate_singleton]
          exact tokens_of_free hpart hfree
      | cons part' parts =>
          obtain ⟨c, sep, rfl⟩ := List.exists_cons_of_ne_nil hne
          rw [List.intercalate_cons_cons, List.append_assoc, List.cons_append,
            tokens_append_cons hpart hfree (hsep c List.mem_cons_self),
            tokens_append fun c hc => hsep c (List.mem_cons_of_mem _ hc), ih]

end Tokens

/-- `boost::property_tree::ptree`. -/
inductive Ptree
  | node (data : List UInt8) (children : List (List UInt8 × Ptree))

namespace Ptree

def data : Ptree → List UInt8
  | .node data _ => data

def children : Ptree → List (List UInt8 × Ptree)
  | .node _ children => children

/-- `get_child` of a key; `none` is an exception. -/
def child? (t : Ptree) (key : List UInt8) : Option Ptree := t.children.lookup key

/-- `get<std::string>`. -/
def get? (t : Ptree) (key : List UInt8) : Option (List UInt8) := (t.child? key).map data

/-- `get` of an unsigned type of 16 bits and more. -/
def getUnsigned? (bits : Nat) (t : Ptree) (key : List UInt8) : Option Nat :=
  (t.get? key).bind (streamUnsigned bits)

/-- `get<unsigned char>`, which reads an `unsigned`. -/
def getByte? (t : Ptree) (key : List UInt8) : Option Nat := (t.getUnsigned? 32 key).filter (· < 256)

/-- `empty`: it has no children. -/
def isEmpty (t : Ptree) : Bool := t.children.isEmpty

end Ptree
