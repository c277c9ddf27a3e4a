import Mathlib.Data.List.Basic
import Mathlib.Tactic.Common

/-!
# `Base.Block` — fixed-size memory blocks with checked access

A `Block α n` is an allocation of exactly `n` cells. Every access names the region it touches and is
refused (`none`) when the region leaves the block, so a run that ends in `some` has touched no cell
outside it. `copy?` is `memcpy` inside one block: it is refused as well when source and destination
overlap, which C leaves undefined.

## Contents
- `slice`/`read?`/`write?`/`copy?`, and when each of them is defined (`read?_eq`, `write?_eq`, `copy?_spec`).
- What a slice reads after a write: the written cells, or the old ones when the regions are disjoint.
-/

/-- An allocation of exactly `n` cells. -/
structure Block (α : Type) (n : Nat) where
  cells : List α
  size_eq : cells.length = n

namespace Block

variable {α : Type} {n : Nat}

instance [DecidableEq α] : DecidableEq (Block α n) := fun b b' =>
  decidable_of_iff (b.cells = b'.cells) ⟨fun h => by
    cases b
    cases b'
    cases h
    rfl, congrArg cells⟩

/-- The allocation that holds just the list. -/
abbrev ofList (cells : List α) : Block α cells.length := ⟨cells, rfl⟩

/-- The block whose cells all hold `a` (`memset`). -/
def fill (n : Nat) (a : α) : Block α n := ⟨List.replicate n a, List.length_replicate⟩

/-- The cells of `[off, off + len)`, cut off at the end of the block. -/
def slice (b : Block α n) (off len : Nat) : List α := (b.cells.drop off).take len

/-- Overwrite `[off, off + src.length)`, given that it lies inside the block. -/
def write (b : Block α n) (off : Nat) (src : List α) (h : off + src.length ≤ n) : Block α n :=
  ⟨b.cells.take off ++ (src ++ b.cells.drop (off + src.length)), by
    have := b.size_eq
    simp only [List.length_append, List.length_take, List.length_drop]
    omega⟩

/-- Checked read of `[off, off + len)`. -/
def read? (b : Block α n) (off len : Nat) : Option (List α) :=
  if off + len ≤ n then some (b.slice off len) else none

/-- Checked write of `src` at `off`. -/
def write? (b : Block α n) (off : Nat) (src : List α) : Option (Block α n) :=
  if h : off + src.length ≤ n then some (b.write off src h) else none

/-- `memcpy(b + dst, b + src, len)`: both regions inside the block and disjoint. -/
def copy? (b : Block α n) (dst src len : Nat) : Option (Block α n) :=
  if dst + len ≤ src ∨ src + len ≤ dst then (b.read? src len).bind (b.write? dst) else none

/-! ## When an access is defined -/

theorem read?_eq {b : Block α n} {off len : Nat} (h : off + len ≤ n) :
    b.read? off len = some (b.slice off len) := if_pos h

theorem write?_eq {b : Block α n} {off : Nat} {src : List α} (h : off + src.length ≤ n) :
    b.write? off src = some (b.write off src h) := dif_pos h

theorem write?_eq_none {b : Block α n} {off : Nat} {src : List α} (h : n < off + src.length) :
    b.write? off src = none := dif_neg (Nat.not_le.mpr h)

theorem write?_isSome {b : Block α n} {off : Nat} {src : List α} :
    (b.write? off src).isSome ↔ off + src.length ≤ n := by
  unfold write?
  split <;> simp_all

/-! ## Slices -/

@[simp] theorem slice_zero (b : Block α n) (off : Nat) : b.slice off 0 = [] := by
  simp [slice]

theorem slice_length {b : Block α n} {off len : Nat} (h : off + len ≤ n) :
    (b.slice off len).length = len := by
  have := b.size_eq
  simp only [slice, List.length_take, List.length_drop]
  omega

theorem slice_append (b : Block α n) (off k l : Nat) :
    b.slice off (k + l) = b.slice off k ++ b.slice (off + k) l := by
  simp only [slice, List.take_add, List.drop_drop]

theorem slice_take {b : Block α n} {off len k : Nat} (h : k ≤ len) :
    (b.slice off len).take k = b.slice off k := by
  simp only [slice, List.take_take, Nat.min_eq_left h]

theorem slice_drop {b : Block α n} {off len k : Nat} :
    (b.slice off len).drop k = b.slice (off + k) (len - k) := by
  simp only [slice, List.drop_take, List.drop_drop]

/-- A slice in two parts. -/
theorem slice_append_inj {b : Block α n} {off : Nat} {u v : List α} (hin : off + (u ++ v).length ≤ n)
    (h : b.slice off (u ++ v).length = u ++ v) :
    b.slice off u.length = u ∧ b.slice (off + u.length) v.length = v := by
  rw [List.length_append] at hin
  rw [List.length_append, slice_append] at h
  exact List.append_inj h (slice_length (by omega))

/-! ## Reading after a write -/

theorem slice_write_self {b : Block α n} {off : Nat} {src : List α} (h : off + src.length ≤ n) :
    (b.write off src h).slice off src.length = src := by
  have hoff : (b.cells.take off).length = off := by
    have := b.size_eq
    simp only [List.length_take]
    omega
  simp only [slice, write]
  rw [List.drop_append_of_le_length (by omega), List.drop_eq_nil_of_le (by omega), List.nil_append,
    List.take_left']
  rfl

theorem slice_write_before {b : Block α n} {off o l : Nat} {src : List α}
    (h : off + src.length ≤ n) (ho : o + l ≤ off) :
    (b.write off src h).slice o l = b.slice o l := by
  have hoff : (b.cells.take off).length = off := by
    have := b.size_eq
    simp only [List.length_take]
    omega
  simp only [slice, write]
  rw [List.drop_append_of_le_length (by omega), List.take_append_of_le_length (by
    simp only [List.length_drop]; omega), List.drop_take, List.take_take, Nat.min_eq_left (by omega)]

theorem slice_write_after {b : Block α n} {off o l : Nat} {src : List α}
    (h : off + src.length ≤ n) (ho : off + src.length ≤ o) :
    (b.write off src h).slice o l = b.slice o l := by
  have hoff : (b.cells.take off ++ src).length = off + src.length := by
    have := b.size_eq
    simp only [List.length_append, List.length_take]
    omega
  simp only [slice, write]
  rw [← List.append_assoc, List.drop_append, List.drop_eq_nil_of_le (by omega), List.nil_append,
    List.drop_drop, hoff]
  congr 2
  omega

/-- A write leaves every disjoint region as it was. -/
theorem slice_write_disjoint {b : Block α n} {off o l : Nat} {src : List α}
    (h : off + src.length ≤ n) (ho : o + l ≤ off ∨ off + src.length ≤ o) :
    (b.write off src h).slice o l = b.slice o l := by
  rcases ho with hb | ha
  · exact slice_write_before h hb
  · exact slice_write_after h ha

/-- Writing what is there changes nothing. -/
theorem write_self {b : Block α n} {off : Nat} {src : List α} (h : off + src.length ≤ n)
    (hsrc : b.slice off src.length = src) : b.write off src h = b := by
  cases b with
  | mk cells size_eq =>
      simp only [slice] at hsrc
      simp only [write, mk.injEq]
      conv_lhs => arg 2; arg 1; rw [← hsrc]
      rw [← List.drop_drop, List.take_append_drop, List.take_append_drop]

/-- Writes appended behind one another extend the slice that starts at `o`. -/
theorem slice_write_snoc {b : Block α n} {o l : Nat} {src : List α}
    (h : o + l + src.length ≤ n) :
    (b.write (o + l) src h).slice o (l + src.length) = b.slice o l ++ src := by
  rw [slice_append, slice_write_before h (Nat.le_refl _), slice_write_self h]

/-- Two writes behind one another are one. -/
theorem write_write {b : Block α n} {off : Nat} {xs ys : List α} (hx : off + xs.length ≤ n)
    (hy : off + xs.length + ys.length ≤ n) (hxy : off + (xs ++ ys).length ≤ n) :
    (b.write off xs hx).write (off + xs.length) ys hy = b.write off (xs ++ ys) hxy := by
  have hpre : (b.cells.take off ++ xs).length = off + xs.length := by
    have := b.size_eq
    simp only [List.length_append, List.length_take]
    omega
  simp only [write, mk.injEq]
  rw [← List.append_assoc (b.cells.take off), List.take_left' hpre, ← List.drop_drop, List.drop_left' hpre,
    List.drop_drop, List.length_append]
  simp [Nat.add_assoc]

/-- **`memcpy` inside a block.** Between disjoint regions it is defined; afterwards the destination
    reads as the source did, and every region clear of the destination is as it was. -/
theorem copy?_spec {b : Block α n} {dst src len : Nat} (hs : src + len ≤ n) (hd : dst + len ≤ n)
    (hdis : dst + len ≤ src ∨ src + len ≤ dst) :
    ∃ b', b.copy? dst src len = some b' ∧ b'.slice dst len = b.slice src len ∧
      ∀ o l, o + l ≤ dst ∨ dst + len ≤ o → b'.slice o l = b.slice o l := by
  have hlen : (b.slice src len).length = len := slice_length hs
  have hfit : dst + (b.slice src len).length ≤ n := by rw [hlen]; exact hd
  refine ⟨b.write dst (b.slice src len) hfit, ?_, ?_, ?_⟩
  · unfold copy?
    rw [if_pos hdis, read?_eq hs, Option.bind_some, write?_eq hfit]
  · have hself := slice_write_self (b := b) hfit
    rwa [hlen] at hself
  · intro o l ho
    exact slice_write_disjoint hfit (by rw [hlen]; exact ho)

end Block
