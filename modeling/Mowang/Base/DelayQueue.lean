import Mathlib.Data.List.Permutation
import Mathlib.Order.Basic

/-!
# `Base.DelayQueue` — entries that wait for their time

Entries wait in a list. From time to time those whose time has passed are taken out: the list is scanned for them, and
then the first entry with the same key is erased for each. If the times in the list go up, these are the entries that
were found, and the list is a queue; otherwise the erased entries are others with the same keys.

## Contents
- `eraseFirsts`, `due`, `later`.
- `due_append_later`, `eraseFirsts_due` — a list whose times go up.
- `keys_due_append` — any list.
-/

namespace DelayQueue

variable {A K T : Type} [DecidableEq K] [LinearOrder T] (key : A → K) (time : A → T)

/-- Erase the first entry with the same key, for each of `dels`. -/
def eraseFirsts (l dels : List A) : List A := dels.foldl (fun l d => l.eraseP fun x => key x = key d) l

/-- The entries whose time has passed, and the others. -/
def due (now : T) (l : List A) : List A := l.filter fun x => time x < now
def later (now : T) (l : List A) : List A := l.filter fun x => now ≤ time x

variable {key time} {l : List A} {now : T}

theorem due_append (l l' : List A) : due time now (l ++ l') = due time now l ++ due time now l' := List.filter_append ..

theorem later_append (l l' : List A) : later time now (l ++ l') = later time now l ++ later time now l' :=
  List.filter_append ..

theorem eraseFirsts_append (dels rest : List A) : eraseFirsts key (dels ++ rest) dels = rest := by
  induction dels with
  | nil => rfl
  | cons d dels ih =>
      show eraseFirsts key (((d :: dels) ++ rest).eraseP _) dels = rest
      rw [List.cons_append, List.eraseP_cons_of_pos (by simp)]
      exact ih

/-- When the times go up, the entries whose time has passed come first. -/
theorem due_append_later (h : l.Pairwise fun x y => time x ≤ time y) : due time now l ++ later time now l = l := by
  induction l with
  | nil => rfl
  | cons x l ih =>
      obtain ⟨hx, hl⟩ := List.pairwise_cons.mp h
      have ih := ih hl
      rw [due, later] at ih ⊢
      by_cases hdue : time x < now
      · rw [List.filter_cons_of_pos (by simpa using hdue), List.filter_cons_of_neg (by simpa using hdue),
          List.cons_append, ih]
      · -- then none of the others has passed either
        have hnone : l.filter (fun y => time y < now) = [] := List.filter_eq_nil_iff.mpr fun y hy hpast =>
          hdue (lt_of_le_of_lt (hx y hy) (by simpa using hpast))
        rw [hnone, List.nil_append] at ih
        rw [List.filter_cons_of_neg (by simpa using hdue), List.filter_cons_of_pos (by simpa using hdue), hnone, ih]
        rfl

/-- The entries that are erased are those that were found. -/
theorem eraseFirsts_due (h : l.Pairwise fun x y => time x ≤ time y) :
    eraseFirsts key l (due time now l) = later time now l := by
  calc eraseFirsts key l (due time now l)
      = eraseFirsts key (due time now l ++ later time now l) (due time now l) := by rw [due_append_later h]
    _ = later time now l := eraseFirsts_append _ _

theorem map_eraseFirsts (l dels : List A) : (eraseFirsts key l dels).map key = (l.map key).diff (dels.map key) := by
  induction dels generalizing l with
  | nil => rfl
  | cons d dels ih =>
      rw [List.map_cons, List.diff_cons, List.erase_eq_eraseP, List.eraseP_map]
      show (eraseFirsts key (l.eraseP _) dels).map key = _
      rw [ih]
      congr 3
      funext x
      exact decide_eq_decide.mpr eq_comm

/-- Whatever the times are, no key is lost or taken twice. -/
theorem keys_due_append (l : List A) (now : T) :
    ((due time now l).map key ++ (eraseFirsts key l (due time now l)).map key).Perm (l.map key) := by
  rw [map_eraseFirsts]
  refine List.subperm_append_diff_self_of_count_le fun k _ => ?_
  exact (List.filter_sublist.map key).count_le k

end DelayQueue
