import Mathlib.Algebra.Order.Ring.Int
import Mathlib.Data.List.TakeWhile
import Mowang.Base.Block

/-!
# `Base.CString` — NUL-terminated strings and `sprintf`

A C string is what a byte array holds before its first NUL. `sprintf` writes a text with a NUL behind it and
looks at no bound, so it is `none` on a text that leaves the array.

## Contents
- `cstr`, `NulFree`, `ascii`, `isDigit`, `decimal`, `decimalInt`.
- `sprintf`, `sprintf_isSome_iff`, `cstr_sprintf`.
-/

/-- The C string at the start of `s`. -/
def cstr (s : List UInt8) : List UInt8 := s.takeWhile (· ≠ 0)

def NulFree (s : List UInt8) : Prop := 0 ∉ s

/-- The bytes of an ASCII text. -/
def ascii (s : String) : List UInt8 := s.toList.map fun c => c.toNat.toUInt8

def isDigit (c : UInt8) : Bool := 48 ≤ c && c ≤ 57

/-- What `%u` prints. -/
def decimal (v : Nat) : List UInt8 := (Nat.toDigits 10 v).map fun c => c.toNat.toUInt8

/-- What `%d` prints. -/
def decimalInt (v : Int) : List UInt8 := if v < 0 then 45 :: decimal v.natAbs else decimal v.natAbs

instance (s : List UInt8) : Decidable (NulFree s) := inferInstanceAs (Decidable (0 ∉ s))

/-- Decided along the list. -/
theorem forall_of_all {α : Type} {P : α → Prop} [DecidablePred P] {l : List α}
    (h : l.all (fun a => decide (P a)) = true) : ∀ a ∈ l, P a :=
  fun a ha => of_decide_eq_true (List.all_eq_true.mp h a ha)

theorem nulFree_append {s t : List UInt8} : NulFree (s ++ t) ↔ NulFree s ∧ NulFree t := by
  unfold NulFree
  rw [List.mem_append, not_or]

theorem nulFree_cstr (s : List UInt8) : NulFree (cstr s) := by
  intro h
  have := List.mem_takeWhile_imp h
  simp at this

theorem cstr_eq_self {s : List UInt8} (h : NulFree s) : cstr s = s := by
  apply List.takeWhile_eq_self_iff.mpr
  intro c hc
  simp only [ne_eq, decide_not, Bool.not_eq_eq_eq_not, Bool.not_true, decide_eq_false_iff_not]
  rintro rfl
  exact h hc

/-- The C string of two texts goes on in the second if the first has no NUL. -/
theorem cstr_append (s t : List UInt8) : cstr (s ++ t) = if NulFree s then s ++ cstr t else cstr s := by
  induction s with
  | nil => exact (if_pos (List.not_mem_nil (a := 0))).symm
  | cons c s ih =>
      unfold cstr at ih ⊢
      rw [List.cons_append, List.takeWhile_cons, List.takeWhile_cons, ih]
      by_cases hc : c = 0
      · subst hc
        rw [if_neg fun h : NulFree (0 :: s) => h List.mem_cons_self, if_neg (by decide), if_neg (by decide)]
      · have hiff : NulFree (c :: s) ↔ NulFree s := by
          unfold NulFree
          rw [List.mem_cons, not_or]
          exact and_iff_right (Ne.symm hc)
        rw [if_congr hiff rfl rfl]
        simp only [ne_eq, hc, not_false_eq_true, decide_true, if_true]
        split
        · rfl
        · rfl

theorem cstr_append_cons_nul (s t : List UInt8) : cstr (s ++ 0 :: t) = cstr s := by
  rw [cstr_append]
  split
  next h =>
      rw [cstr_eq_self h]
      exact List.append_nil s
  next => rfl

/-- What stands behind the NUL does not belong to the string. -/
theorem cstr_append_nul {s : List UInt8} (h : NulFree s) (t : List UInt8) : cstr (s ++ 0 :: t) = s := by
  rw [cstr_append_cons_nul, cstr_eq_self h]

theorem cstr_length_le (s : List UInt8) : (cstr s).length ≤ s.length := (List.takeWhile_prefix _).length_le

/-- `sprintf` into a zeroed array of `n` bytes. -/
def sprintf (n : Nat) (text : List UInt8) : Option (Block UInt8 n) := (Block.fill n 0).write? 0 (text ++ [0])

theorem sprintf_isSome_iff {n : Nat} {text : List UInt8} : (sprintf n text).isSome ↔ text.length < n := by
  rw [sprintf, Block.write?_isSome, List.length_append, List.length_singleton]
  omega

/-- The array holds the text. -/
theorem cstr_sprintf {n : Nat} {text : List UInt8} {b : Block UInt8 n} (htext : NulFree text)
    (h : sprintf n text = some b) : cstr b.cells = text := by
  have hfit : 0 + (text ++ [0]).length ≤ n := Block.write?_isSome.mp (Option.isSome_of_eq_some h)
  rw [sprintf, Block.write?_eq hfit] at h
  cases h
  show cstr (([] : List UInt8) ++ ((text ++ [0]) ++ _)) = text
  rw [List.nil_append, List.append_assoc, List.singleton_append, cstr_append_nul htext]

/-! ## Numbers -/

theorem decimal_length_le {v k : Nat} (hk : 0 < k) (h : v < 10 ^ k) : (decimal v).length ≤ k := by
  rw [decimal, List.length_map]
  exact (Nat.length_toDigits_le_iff (by decide) hk).mpr h

/-- A number is printed in digits. -/
theorem mem_decimal {v : Nat} {c : UInt8} (h : c ∈ decimal v) : 48 ≤ c.toNat ∧ c.toNat ≤ 57 := by
  obtain ⟨d, hd, rfl⟩ := List.mem_map.mp h
  have hdigit := Nat.isDigit_of_mem_toDigits (by decide) (by decide) hd
  obtain ⟨h₁, h₂⟩ := Char.isDigit_iff_toNat.mp hdigit
  have h₁' : 48 ≤ d.toNat := h₁
  have h₂' : d.toNat ≤ 57 := h₂
  rw [show d.toNat.toUInt8.toNat = d.toNat % 256 from UInt8.toNat_ofNat']
  omega

theorem decimal_ne_nil (v : Nat) : decimal v ≠ [] := by
  rw [decimal, Ne, List.map_eq_nil_iff]
  exact Nat.toDigits_ne_nil

theorem nulFree_decimal (v : Nat) : NulFree (decimal v) := by
  intro h
  have := (mem_decimal h).1
  contradiction

theorem decimalInt_length_le {v : Int} {k : Nat} (hk : 0 < k) (h : v.natAbs < 10 ^ k) :
    (decimalInt v).length ≤ k + 1 := by
  have hle := decimal_length_le hk h
  unfold decimalInt
  split
  · exact Nat.succ_le_succ hle
  · exact Nat.le_succ_of_le hle

theorem nulFree_decimalInt (v : Int) : NulFree (decimalInt v) := by
  unfold decimalInt
  split
  · intro h
    rcases List.mem_cons.mp h with h | h
    · exact absurd h (by decide)
    · exact nulFree_decimal _ h
  · exact nulFree_decimal _
