import Mathlib.Data.List.Infix
import Mathlib.Tactic.Common

/-!
# `Base.Search` — the first occurrence of a text in another

`find?` gives the position of the first occurrence. An occurrence is a prefix of what is left of the text, so a
statement about positions is one about `drop`, and what arrives behind an occurrence does not move it.

## Contents
- `find?`, `find?_eq_some_iff`, `find?_eq_none_iff`.
- `find?_isSome_iff`, `find?_append`, `find?_append_left` — a longer text.
- `Ends`, the texts that end with their first occurrence, and `Ends.all_of_part`.
-/

namespace Search

variable {α : Type} [DecidableEq α] {pat s t : List α} {i : Nat}

/-- The position at which `pat` first occurs. -/
def find? (pat : List α) : List α → Option Nat
  | []     => if pat = [] then some 0 else none
  | c :: s => if pat.isPrefixOf (c :: s) then some 0 else (find? pat s).map (· + 1)

theorem find?_eq_zero (h : pat <+: s) : find? pat s = some 0 := by
  cases s with
  | nil => exact if_pos (List.prefix_nil.mp h)
  | cons c s => exact if_pos (List.isPrefixOf_iff_prefix.mpr h)

theorem find?_cons {c : α} (h : ¬ pat <+: c :: s) : find? pat (c :: s) = (find? pat s).map (· + 1) :=
  if_neg fun hpre => h (List.isPrefixOf_iff_prefix.mp hpre)

theorem find?_eq_some_iff : find? pat s = some i ↔ pat <+: s.drop i ∧ ∀ j < i, ¬ pat <+: s.drop j := by
  induction s generalizing i with
  | nil =>
      simp only [List.drop_nil, List.prefix_nil, find?]
      by_cases hpat : pat = []
      · rw [if_pos hpat, Option.some.injEq]
        constructor
        · rintro rfl
          exact ⟨hpat, fun j hj => absurd hj (Nat.not_lt_zero j)⟩
        · rintro ⟨_, hbefore⟩
          by_contra hi
          exact hbefore 0 (Nat.pos_of_ne_zero (Ne.symm hi)) hpat
      · rw [if_neg hpat]
        exact iff_of_false nofun fun h => hpat h.1
  | cons c s ih =>
      by_cases hpre : pat <+: c :: s
      · rw [find?_eq_zero hpre, Option.some.injEq]
        constructor
        · rintro rfl
          exact ⟨hpre, fun j hj => absurd hj (Nat.not_lt_zero j)⟩
        · rintro ⟨_, hbefore⟩
          by_contra hi
          exact hbefore 0 (Nat.pos_of_ne_zero (Ne.symm hi)) hpre
      · rw [find?_cons hpre, Option.map_eq_some_iff]
        constructor
        · rintro ⟨k, hk, rfl⟩
          obtain ⟨hat, hbefore⟩ := ih.mp hk
          refine ⟨hat, fun j hj => ?_⟩
          cases j with
          | zero => exact hpre
          | succ j => exact hbefore j (Nat.lt_of_succ_lt_succ hj)
        · rintro ⟨hat, hbefore⟩
          cases i with
          | zero => exact absurd hat hpre
          | succ k => exact ⟨k, ih.mpr ⟨hat, fun j hj => hbefore (j + 1) (Nat.succ_lt_succ hj)⟩, rfl⟩

theorem find?_eq_none_iff : find? pat s = none ↔ ¬ pat <:+: s := by
  induction s with
  | nil =>
      rw [List.infix_nil, find?]
      by_cases hpat : pat = []
      · simp [hpat]
      · simp [hpat]
  | cons c s ih =>
      rw [List.infix_cons_iff, not_or]
      by_cases hpre : pat <+: c :: s
      · rw [find?_eq_zero hpre]
        exact iff_of_false nofun fun h => h.1 hpre
      · rw [find?_cons hpre, Option.map_eq_none_iff, ih]
        exact ⟨fun h => ⟨hpre, h⟩, fun h => h.2⟩

theorem find?_isSome_iff : (find? pat s).isSome ↔ pat <:+: s := by
  rw [Option.isSome_iff_ne_none, Ne, find?_eq_none_iff, not_not]

theorem find?_le (h : find? pat s = some i) (hpat : pat ≠ []) : i + pat.length ≤ s.length := by
  have hlen := (find?_eq_some_iff.mp h).1.length_le
  have hpos := List.length_pos_iff.mpr hpat
  rw [List.length_drop] at hlen
  omega

/-- What stands behind the first occurrence does not move it. -/
theorem find?_append (h : find? pat s = some i) (hpat : pat ≠ []) (t : List α) : find? pat (s ++ t) = some i := by
  have hle := find?_le h hpat
  obtain ⟨hat, hbefore⟩ := find?_eq_some_iff.mp h
  refine find?_eq_some_iff.mpr ⟨?_, fun j hj hpre => hbefore j hj ?_⟩
  · rw [List.drop_append_of_le_length (by omega)]
    exact hat.trans (List.prefix_append _ _)
  · -- an earlier occurrence lies before `t` too
    rw [List.drop_append_of_le_length (by omega)] at hpre
    exact List.prefix_of_prefix_length_le hpre (List.prefix_append _ _) (by rw [List.length_drop]; omega)

/-- Where the first element of `pat` is not, `pat` does not begin. -/
theorem find?_append_left {c : α} (hs : c ∉ s) (t : List α) :
    find? (c :: pat) (s ++ t) = (find? (c :: pat) t).map (· + s.length) := by
  induction s with
  | nil => exact (congrFun Option.map_id _).symm
  | cons d s ih =>
      have hne : ¬ (c :: pat) <+: d :: (s ++ t) := fun hpre => hs (by simp [(List.cons_prefix_cons.mp hpre).1])
      rw [List.cons_append, find?_cons hne, ih fun h => hs (List.mem_cons_of_mem d h), Option.map_map]
      congr 1

/-! ## Texts that end with their first occurrence -/

/-- `pat` occurs at the end of the text, and nowhere before. -/
def Ends (pat s : List α) : Prop := find? pat s = some (s.length - pat.length)

instance (pat s : List α) : Decidable (Ends pat s) := inferInstanceAs (Decidable (_ = _))

theorem Ends.length_le (h : Ends pat s) (hpat : pat ≠ []) : pat.length ≤ s.length := by
  have hle := find?_le h hpat
  omega

/-- Of a text that goes on behind its end, any part with an occurrence has all of it. -/
theorem Ends.all_of_part (h : Ends pat s) (hpat : pat ≠ []) {more part : List α} (hpart : part <+: s ++ more)
    (hfound : pat <:+: part) : s <+: part := by
  have hle := h.length_le hpat
  obtain ⟨i, hi⟩ := Option.isSome_iff_exists.mp (find?_isSome_iff.mpr hfound)
  obtain ⟨rest, hrest⟩ := hpart
  have hwhole := find?_append hi hpat rest
  rw [hrest, find?_append h hpat more, Option.some.injEq] at hwhole
  have hin := find?_le hi hpat
  exact List.prefix_of_prefix_length_le (List.prefix_append s more) ⟨rest, hrest⟩ (by omega)

end Search
