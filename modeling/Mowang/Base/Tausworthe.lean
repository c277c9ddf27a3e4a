import Mathlib.Data.Finite.Prod
import Mathlib.Dynamics.PeriodicPts.Lemmas

/-!
# `Base.Tausworthe` — shift register generators

A component keeps a word of `w` bits. Its top `k` bits are a window on a sequence of bits in which every bit is the sum
of the bits `k` and `k - q` places on, and a step moves the window by `s` places. The bits below the window are further
bits of the same sequence if they were set up so.

## Contents
- `Component`, `Component.next`, `Component.start`.
- `Component.Recurs`: the bits below the window belong to the sequence; `recurs_start`, `recurs_next`.
- `Component.next_inj` — a step loses nothing, and `Component.next_eq_zero_iff` — a component never dies.
- `Component.State`, `Component.step`, `Component.step_injective`.
-/

namespace Tausworthe

/-- The parameters of a component, for words of `w` bits. -/
structure Component (w : Nat) where
  k : Nat
  q : Nat
  s : Nat
  k_le : k ≤ w
  s_lt : s < k
  q_pos : 0 < q
  q_le : q ≤ k - s
  /-- The set-up reads only the window. -/
  window : q + w ≤ 2 * k

instance instFiniteBitVec (w : Nat) : Finite (BitVec w) :=
  Finite.of_injective BitVec.toFin fun _ _ h => BitVec.toFin_inj.mp h

namespace Component

variable {w : Nat} (c : Component w)

/-- The window of a word. -/
def mask : BitVec w := BitVec.allOnes w <<< (w - c.k)

/-- A step. -/
def next (z : BitVec w) : BitVec w := ((z &&& c.mask) <<< c.s) ^^^ ((z ^^^ (z <<< c.q)) >>> (c.k - c.s))

/-- The set-up of a word with nothing below the window. -/
def start (z : BitVec w) : BitVec w := z ^^^ (((z <<< c.q) ^^^ z) >>> c.k)

/-- The bits below the window belong to its sequence. -/
def Recurs (z : BitVec w) : Prop :=
  ∀ i, i + c.k < w → z.getLsbD i = (z.getLsbD (i + c.k) ^^ z.getLsbD (i + c.k - c.q))

theorem getLsbD_mask (z : BitVec w) (i : Nat) :
    (z &&& c.mask).getLsbD i = (decide (w - c.k ≤ i) && z.getLsbD i) := by
  rw [BitVec.getLsbD_and, mask, BitVec.getLsbD_shiftLeft, BitVec.getLsbD_allOnes]
  by_cases hi : i < w
  · have hlow : i - (w - c.k) < w := by omega
    simp only [hi, hlow, decide_true, Bool.true_and, Bool.and_true, ← decide_not, Nat.not_lt]
    exact Bool.and_comm _ _
  · rw [BitVec.getLsbD_of_ge z i (Nat.le_of_not_lt hi), Bool.false_and, Bool.and_false]

/-- The two sums of a step have no bit in common. -/
theorem getLsbD_next (z : BitVec w) {i : Nat} (hi : i < w) : (c.next z).getLsbD i =
    if i + (c.k - c.s) < w then z.getLsbD (i + (c.k - c.s)) ^^ z.getLsbD (i + (c.k - c.s) - c.q)
    else z.getLsbD (i - c.s) := by
  have hk := c.k_le
  have hs := c.s_lt
  have hq := c.q_le
  rw [next, BitVec.getLsbD_xor, BitVec.getLsbD_shiftLeft, getLsbD_mask, BitVec.getLsbD_ushiftRight, BitVec.getLsbD_xor,
    BitVec.getLsbD_shiftLeft, Nat.add_comm (c.k - c.s) i]
  have hback : ¬ i + (c.k - c.s) < c.q := by omega
  split
  · rename_i hin
    have hshift : i < c.s ∨ ¬ w - c.k ≤ i - c.s := by omega
    rcases hshift with hshift | hshift <;> simp [hi, hin, hback, hshift]
  · rename_i hin
    have hshift : ¬ i < c.s ∧ w - c.k ≤ i - c.s := by omega
    simp [hi, hin, hshift, BitVec.getLsbD_of_ge z _ (Nat.le_of_not_lt hin)]

section Sequence

variable {c} {z z₁ z₂ : BitVec w}

/-- A step moves the bits of the sequence. -/
theorem Recurs.shift (h : c.Recurs z) {i : Nat} (hlow : c.s ≤ i) (hi : i < w) :
    (c.next z).getLsbD i = z.getLsbD (i - c.s) := by
  rw [c.getLsbD_next z hi]
  split
  · rename_i hin
    have hs := c.s_lt
    have hplace : i + (c.k - c.s) = i - c.s + c.k := by omega
    rw [hplace] at hin ⊢
    exact (h _ hin).symm
  · rfl

theorem recurs_next (h : c.Recurs z) : c.Recurs (c.next z) := by
  intro i hi
  have hs := c.s_lt
  have hq := c.q_le
  have hpos := c.q_pos
  rw [c.getLsbD_next z (Nat.lt_of_le_of_lt (Nat.le_add_right _ _) hi), if_pos (by omega), h.shift (by omega) hi,
    h.shift (by omega) (by omega), Nat.add_sub_assoc (Nat.le_of_lt hs), Nat.sub_right_comm,
    Nat.add_sub_assoc (Nat.le_of_lt hs)]

/-- A word with nothing below its window is set up to belong to a sequence. -/
theorem recurs_start (h : ∀ i, i + c.k < w → z.getLsbD i = false) : c.Recurs (c.start z) := by
  intro i hi
  have hs := c.s_lt
  have hq := c.q_le
  have hpos := c.q_pos
  have hwindow := c.window
  have hbit : ∀ j, (c.start z).getLsbD j = (z.getLsbD j ^^ (((decide (c.k + j < w) && !decide (c.k + j < c.q)) &&
      z.getLsbD (c.k + j - c.q)) ^^ z.getLsbD (c.k + j))) := by
    intro j
    rw [start, BitVec.getLsbD_xor, BitVec.getLsbD_ushiftRight, BitVec.getLsbD_xor, BitVec.getLsbD_shiftLeft]
  -- the bits above are those of the word
  have hhigh : ∀ j, w ≤ c.k + j → (c.start z).getLsbD j = z.getLsbD j := by
    intro j hj
    rw [hbit, BitVec.getLsbD_of_ge z _ hj, decide_eq_false (Nat.not_lt.mpr hj)]
    simp
  rw [hhigh (i + c.k) (by omega), hhigh (i + c.k - c.q) (by omega), hbit, h i hi, Nat.add_comm c.k i,
    decide_eq_true hi, decide_eq_false (by omega)]
  simp [Bool.xor_comm]

theorem start_eq_zero (h : ∀ i, i + c.k < w → z.getLsbD i = false) : c.start z = 0#w ↔ z = 0#w := by
  constructor
  · intro hzero
    apply BitVec.eq_of_getLsbD_eq
    intro i _
    rw [BitVec.getLsbD_zero]
    by_cases hi : i + c.k < w
    · exact h i hi
    · have hbit := congrArg (BitVec.getLsbD · i) hzero
      simp only [start, BitVec.getLsbD_xor, BitVec.getLsbD_ushiftRight, BitVec.getLsbD_shiftLeft,
        BitVec.getLsbD_zero] at hbit
      rwa [BitVec.getLsbD_of_ge z (c.k + i) (by omega), decide_eq_false (by omega : ¬ c.k + i < w), Bool.false_and,
        Bool.false_and, Bool.xor_false, Bool.xor_false] at hbit
  · rintro rfl
    simp [start]

/-- **A step loses nothing.** From the highest bits that were only moved, the others follow one after the other. -/
theorem next_inj (h₁ : c.Recurs z₁) (h₂ : c.Recurs z₂) (h : c.next z₁ = c.next z₂) : z₁ = z₂ := by
  have hs := c.s_lt
  have hk := c.k_le
  have hpos := c.q_pos
  have hall : ∀ i, i < w → z₁.getLsbD i = z₂.getLsbD i := by
    intro i
    induction i using Nat.strongRecOn with
    | ind i ih =>
        intro hi
        by_cases hmoved : i + c.s < w
        · have hbit := h₁.shift (Nat.le_add_left c.s i) hmoved
          rw [h, h₂.shift (Nat.le_add_left c.s i) hmoved, Nat.add_sub_cancel] at hbit
          exact hbit.symm
        · -- the bit was added to one that is known
          have hplace : i - (c.k - c.s) + (c.k - c.s) = i := by omega
          have hbit := c.getLsbD_next z₁ (by omega : i - (c.k - c.s) < w)
          rw [h, c.getLsbD_next z₂ (by omega), hplace, if_pos hi, if_pos hi, ih (i - c.q) (by omega) (by omega)] at hbit
          exact (Bool.xor_left_inj.mp hbit.symm)
  exact BitVec.eq_of_getLsbD_eq hall

theorem next_zero : c.next 0#w = 0#w := by simp [next]

theorem recurs_zero : c.Recurs 0#w := by
  intro i _
  simp

/-- **A component never dies.** -/
theorem next_eq_zero_iff (h : c.Recurs z) : c.next z = 0#w ↔ z = 0#w := by
  constructor
  · intro hzero
    exact next_inj h recurs_zero (hzero.trans next_zero.symm)
  · rintro rfl
    exact next_zero

/-- The words whose bits belong to a sequence. -/
abbrev State (c : Component w) : Type := { z : BitVec w // c.Recurs z }

def step (c : Component w) (z : c.State) : c.State := ⟨c.next z.1, recurs_next z.2⟩

theorem step_injective (c : Component w) : Function.Injective c.step :=
  fun z₁ z₂ h => Subtype.ext (next_inj z₁.2 z₂.2 (congrArg Subtype.val h))

end Sequence

end Component

end Tausworthe
