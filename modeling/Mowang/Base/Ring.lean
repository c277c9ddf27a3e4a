import Mowang.Base.Block

/-!
# `Base.Ring` — the cells of a block from one position to another, around its end

A queue in a ring buffer lies between two positions of a block. From `head` up to `tail` it is one slice; if `tail` lies
before `head` it goes on at the start of the block. Equal positions mean an empty queue, so a block is never full.

## Contents
- `Block.ring`, `ringLength`, and `ring_drop_of_le`, `ring_drop_of_lt`, `ring_turn` — taking cells out at the head.
- `ring_write`, `ring_write_end`, `ring_write_split`, `ring_write_behind` — putting cells in at the tail.
- `slice_write_write`, `moveRing?` — the queue moves to the start of another block.
- `InRing` — the positions of the queue, `Behind` — a region behind its tail.
-/

namespace Block

variable {α : Type} {n : Nat}

/-- The cells from `head` to `tail`. -/
def ring (b : Block α n) (head tail : Nat) : List α :=
  if head ≤ tail then b.slice head (tail - head) else b.slice head (n - head) ++ b.slice 0 tail

variable {b : Block α n} {head tail : Nat}

theorem ring_of_le (h : head ≤ tail) : b.ring head tail = b.slice head (tail - head) := if_pos h

theorem ring_of_lt (h : tail < head) : b.ring head tail = b.slice head (n - head) ++ b.slice 0 tail :=
  if_neg (Nat.not_le.mpr h)

@[simp] theorem ring_self (b : Block α n) (head : Nat) : b.ring head head = [] := by
  rw [ring_of_le (Nat.le_refl _), Nat.sub_self, slice_zero]

/-- The number of cells from `head` to `tail`. -/
def ringLength (n head tail : Nat) : Nat :=
  if head < tail then tail - head else if head > tail then n - head + tail else 0

theorem ringLength_of_le (h : head ≤ tail) : ringLength n head tail = tail - head := by
  unfold ringLength
  split
  · rfl
  · rw [if_neg (by omega)]
    omega

theorem ringLength_of_gt (h : head > tail) : ringLength n head tail = n - head + tail := by
  rw [ringLength, if_neg (by omega), if_pos h]

theorem ringLength_lt (hhead : head < n) (htail : tail < n) : ringLength n head tail < n := by
  by_cases hle : head ≤ tail
  · rw [ringLength_of_le hle]
    omega
  · rw [ringLength_of_gt (by omega)]
    omega

theorem ring_length (hhead : head ≤ n) (htail : tail ≤ n) : (b.ring head tail).length = ringLength n head tail := by
  by_cases hle : head ≤ tail
  · rw [ring_of_le hle, ringLength_of_le hle, slice_length (by omega)]
  · rw [ring_of_lt (by omega), ringLength_of_gt (by omega), List.length_append, slice_length (by omega),
      slice_length (by omega)]

/-! ## The head moves on -/

theorem ring_drop_of_le {k : Nat} (hk : head + k ≤ tail) :
    b.ring head tail = b.slice head k ++ b.ring (head + k) tail := by
  rw [ring_of_le (by omega), ring_of_le hk, ← slice_append]
  congr 1
  omega

theorem ring_drop_of_lt {k : Nat} (h : tail < head) (hk : head + k ≤ n) :
    b.ring head tail = b.slice head k ++ b.ring (head + k) tail := by
  rw [ring_of_lt h, ring_of_lt (by omega), ← List.append_assoc, ← slice_append]
  congr 2
  omega

/-- At the end of the block the head turns to its start. -/
theorem ring_turn (h : tail < n) : b.ring n tail = b.ring 0 tail := by
  rw [ring_of_lt h, ring_of_le (Nat.zero_le _), Nat.sub_self, slice_zero]
  rfl

/-! ## The tail moves on -/

theorem ring_write {src : List α} (h : head ≤ tail) (hfit : tail + src.length ≤ n) :
    (b.write tail src hfit).ring head (tail + src.length) = b.ring head tail ++ src := by
  have hsnoc : head + (tail - head) + src.length ≤ n := by omega
  have htail : head + (tail - head) = tail := by omega
  have hwrite := slice_write_snoc (b := b) hsnoc
  simp only [htail] at hwrite
  rw [ring_of_le (by omega), ring_of_le h, ← hwrite]
  congr 1
  omega

/-- What ends with the block leaves the tail at the start. -/
theorem ring_write_end {src : List α} (hpos : 0 < head) (h : head ≤ tail) (hfit : tail + src.length ≤ n)
    (hend : tail + src.length = n) : (b.write tail src hfit).ring head 0 = b.ring head tail ++ src := by
  rw [← ring_write h hfit, ring_of_lt hpos, slice_zero, List.append_nil, ring_of_le (by omega), hend]

/-- A part up to the end of the block, and the rest at its start. -/
theorem ring_write_split {src src' : List α} (h : head ≤ tail) (hfit : tail + src.length ≤ n)
    (hend : tail + src.length = n) (hfit' : 0 + src'.length ≤ n) (hfree : src'.length < head) :
    ((b.write tail src hfit).write 0 src' hfit').ring head src'.length = b.ring head tail ++ (src ++ src') := by
  rw [← List.append_assoc, ← ring_write h hfit, ring_of_lt hfree, slice_write_self, ring_of_le (by omega),
    slice_write_after hfit' (by omega), hend]

/-- The tail follows the head at the start of the block. -/
theorem ring_write_behind {src : List α} (h : tail < head) (hfit : tail + src.length ≤ n)
    (hfree : tail + src.length < head) :
    (b.write tail src hfit).ring head (tail + src.length) = b.ring head tail ++ src := by
  have hsnoc := @slice_write_snoc _ _ b 0 tail src (by omega)
  simp only [Nat.zero_add] at hsnoc
  rw [ring_of_lt hfree, ring_of_lt h, slice_write_after hfit (by omega), hsnoc, List.append_assoc]

/-- Two parts written behind one another at the start. -/
theorem slice_write_write {src src' : List α} {k l : Nat} (hk : src.length = k) (hl : src'.length = l)
    (hfit : 0 + src.length ≤ n) (hfit' : k + src'.length ≤ n) :
    ((b.write 0 src hfit).write k src' hfit').slice 0 (k + l) = src ++ src' := by
  subst hk hl
  have hself := slice_write_self (b := b) hfit
  have hsnoc := @slice_write_snoc _ _ (b.write 0 src hfit) 0 src.length src' (by omega)
  simp only [Nat.zero_add, hself] at hsnoc
  exact hsnoc

/-! ## The queue moves -/

/-- Copy the queue to the start of another block. -/
def moveRing? (b : Block α n) (head tail : Nat) {m : Nat} (newBlock : Block α m) : Option (Block α m) :=
  if head < tail then (b.read? head (tail - head)).bind (newBlock.write? 0)
  else if head > tail then
    (b.read? head (n - head)).bind fun first =>
    (newBlock.write? 0 first).bind fun newBlock =>
    (b.read? 0 tail).bind (newBlock.write? (n - head))
  else some newBlock

/-- The queue arrives at the start of the other block. -/
theorem moveRing?_spec (hhead : head < n) (htail : tail < n) {m : Nat} (newBlock : Block α m)
    (hm : (b.ring head tail).length ≤ m) :
    ∃ b', b.moveRing? head tail newBlock = some b' ∧ b'.slice 0 (b.ring head tail).length = b.ring head tail := by
  rcases Nat.lt_trichotomy head tail with hlt | heq | hgt
  · have hring : b.ring head tail = b.slice head (tail - head) := ring_of_le (Nat.le_of_lt hlt)
    have hfit : 0 + (b.slice head (tail - head)).length ≤ m := by
      rw [hring] at hm
      omega
    refine ⟨newBlock.write 0 _ hfit, ?_, ?_⟩
    · rw [moveRing?, if_pos hlt, read?_eq (by omega), Option.bind_some, write?_eq hfit]
    · rw [hring, slice_write_self]
  · subst heq
    refine ⟨newBlock, ?_, ?_⟩
    · rw [moveRing?, if_neg (by omega), if_neg (by omega)]
    · rw [ring_self, List.length_nil, slice_zero]
  · have hring : b.ring head tail = b.slice head (n - head) ++ b.slice 0 tail := ring_of_lt hgt
    have hfirst : (b.slice head (n - head)).length = n - head := slice_length (by omega)
    have hrest : (b.slice 0 tail).length = tail := slice_length (by omega)
    rw [hring, List.length_append, hfirst, hrest] at hm
    have hfit : 0 + (b.slice head (n - head)).length ≤ m := by omega
    have hfit' : n - head + (b.slice 0 tail).length ≤ m := by omega
    refine ⟨(newBlock.write 0 _ hfit).write (n - head) _ hfit', ?_, ?_⟩
    · rw [moveRing?, if_neg (by omega), if_pos hgt, read?_eq (by omega), Option.bind_some, write?_eq hfit,
        Option.bind_some, read?_eq (by omega), Option.bind_some, write?_eq hfit']
    · rw [hring, List.length_append, hfirst, hrest, slice_write_write hfirst hrest]

/-! ## The positions of the queue -/

/-- The position `i` of a block of `n` cells lies between `head` and `tail`. -/
def InRing (n head tail i : Nat) : Prop :=
  if head ≤ tail then head ≤ i ∧ i < tail else (head ≤ i ∧ i < n) ∨ i < tail

/-- The `room` cells behind the tail lie in the block, and none of them is in the queue. -/
def Behind (n head tail room : Nat) : Prop :=
  tail + room ≤ n ∧ ∀ i, tail ≤ i → i < tail + room → ¬ InRing n head tail i

theorem behind_of_fits {n head tail room : Nat} (hfit : tail + room ≤ n) (hfree : head ≤ tail ∨ tail + room ≤ head) :
    Behind n head tail room := by
  refine ⟨hfit, fun i hi hroom hin => ?_⟩
  unfold InRing at hin
  split at hin <;> omega

end Block
