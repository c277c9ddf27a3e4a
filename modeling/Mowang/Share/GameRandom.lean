import Mowang.Base.Tausworthe

/-!
# `Share.GameRandom` — the random numbers of a process

`game_random` is three shift register generators whose words are added. `service::init` sets it up with the time; the
routing draws processes from it. The masks are longs, so some sums are of 64 bits, of which `RandomMax` leaves 32.

## Contents
- `GameRandom`, `reset`, `randUint`, `randRange`.
- `randRange_mem` — a draw lies in its range.
- `draws_spec` — whatever the seed, at most one of the three words is ever zero, and the states come back.
-/

namespace Mowang

open Tausworthe

/-- `game_random`: `m_seed`. -/
structure GameRandom where
  seed0 : BitVec 32
  seed1 : BitVec 32
  seed2 : BitVec 32

namespace GameRandom

/-- `RandomMax`. -/
def randomMax : BitVec 32 := 0xFFFFFFFF#32

/-- `rand_uint`. -/
def randUint (g : GameRandom) : BitVec 32 × GameRandom :=
  let seed0 := (((g.seed0 &&& 0xFFFFFFFE#32) <<< 24) &&& randomMax) ^^^
    ((g.seed0 ^^^ ((g.seed0 <<< 7) &&& randomMax)) >>> 7)
  let seed1 := (((g.seed1 &&& 0xFFFFFFF8#32) <<< 7) &&& randomMax) ^^^
    ((g.seed1 ^^^ ((g.seed1 <<< 2) &&& randomMax)) >>> 22)
  let seed2 := (((g.seed2 &&& 0xFFFFFFF0#32) <<< 11) &&& randomMax) ^^^
    ((g.seed2 ^^^ ((g.seed2 <<< 9) &&& randomMax)) >>> 17)
  (seed0 ^^^ seed1 ^^^ seed2, ⟨seed0, seed1, seed2⟩)

/-- `reset`. -/
def reset (seed : BitVec 32) : GameRandom :=
  let seed0 := (seed ^^^ 0xFEA09B9D#32) &&& 0xFFFFFFFE#32
  let seed0 := seed0 ^^^ ((((seed0 <<< 7) &&& randomMax) ^^^ seed0) >>> 31)
  let seed1 := (seed ^^^ 0x9C129511#32) &&& 0xFFFFFFF8#32
  let seed1 := seed1 ^^^ ((((seed1 <<< 2) &&& randomMax) ^^^ seed1) >>> 29)
  let seed2 := (seed ^^^ 0x2512CFB8#32) &&& 0xFFFFFFF0#32
  let seed2 := seed2 ^^^ ((((seed2 <<< 9) &&& randomMax) ^^^ seed2) >>> 28)
  (randUint ⟨seed0, seed1, seed2⟩).2

/-- `rand_range`; `none` is a range that has more numbers than an `int` counts. -/
def randRange (g : GameRandom) (start last : Int32) : Option (Int × GameRandom) :=
  let (start, last) := if start > last then (last.toInt, start.toInt) else (start.toInt, last.toInt)
  let size := last - start + 1
  if size < 2 ^ 31 then
    let (v, g) := g.randUint
    -- a sum of unsigned numbers, read as an int
    some (((v.toNat % size.toNat : Nat) + start).bmod (2 ^ 32), g)
  else none

/-! ## Ranges -/

/-- The numbers that `rand_range` draws from. -/
def InRange (start last : Int32) (v : Int) : Prop :=
  min start.toInt last.toInt ≤ v ∧ v ≤ max start.toInt last.toInt

/-- A draw lies in its range. -/
theorem randRange_mem {g g' : GameRandom} {start last : Int32} {v : Int} (h : g.randRange start last = some (v, g')) :
    InRange start last v ∧ g' = g.randUint.2 := by
  have hlow := start.le_toInt
  have hhigh := start.toInt_lt
  have hlow' := last.le_toInt
  have hhigh' := last.toInt_lt
  have hbmod : ∀ {x : Int}, -2 ^ 31 ≤ x → x < 2 ^ 31 → x.bmod (2 ^ 32) = x := by
    intro x hx hx'
    exact Int.bmod_eq_of_le (by omega) (by omega)
  rw [randRange] at h
  by_cases hswap : start > last
  · have hlt : last.toInt < start.toInt := Int32.lt_iff_toInt_lt.mp hswap
    simp only [if_pos hswap, Option.ite_none_right_eq_some, Option.some.injEq, Prod.mk.injEq] at h
    obtain ⟨hsize, rfl, rfl⟩ := h
    have hmod := Nat.mod_lt g.randUint.1.toNat (by omega : 0 < (start.toInt - last.toInt + 1).toNat)
    rw [hbmod (by omega) (by omega)]
    exact ⟨⟨by omega, by omega⟩, rfl⟩
  · have hle : start.toInt ≤ last.toInt := Int.not_lt.mp fun hlt => hswap (Int32.lt_iff_toInt_lt.mpr hlt)
    simp only [if_neg hswap, Option.ite_none_right_eq_some, Option.some.injEq, Prod.mk.injEq] at h
    obtain ⟨hsize, rfl, rfl⟩ := h
    have hmod := Nat.mod_lt g.randUint.1.toNat (by omega : 0 < (last.toInt - start.toInt + 1).toNat)
    rw [hbmod (by omega) (by omega)]
    exact ⟨⟨by omega, by omega⟩, rfl⟩

/-! ## The three components -/

def component0 : Component 32 where
  k := 31
  q := 7
  s := 24
  k_le := by decide
  s_lt := by decide
  q_pos := by decide
  q_le := by decide
  window := by decide

def component1 : Component 32 where
  k := 29
  q := 2
  s := 7
  k_le := by decide
  s_lt := by decide
  q_pos := by decide
  q_le := by decide
  window := by decide

def component2 : Component 32 where
  k := 28
  q := 9
  s := 11
  k_le := by decide
  s_lt := by decide
  q_pos := by decide
  q_le := by decide
  window := by decide

theorem and_randomMax (z : BitVec 32) : z &&& randomMax = z := BitVec.and_allOnes

/-- A draw is a step of each component. -/
theorem randUint_eq (g : GameRandom) :
    g.randUint.2 = ⟨component0.next g.seed0, component1.next g.seed1, component2.next g.seed2⟩ := by
  simp only [randUint, and_randomMax]
  rfl

/-! ## Draws -/

/-- The words of the components, each a part of its sequence. -/
abbrev States : Type := component0.State × component1.State × component2.State

def ofStates (x : States) : GameRandom := ⟨x.1.1, x.2.1.1, x.2.2.1⟩

def stepStates : States → States := Prod.map component0.step (Prod.map component1.step component2.step)

theorem ofStates_step : Function.Semiconj ofStates stepStates fun g => g.randUint.2 :=
  fun x => (randUint_eq (ofStates x)).symm

theorem stepStates_injective : Function.Injective stepStates :=
  component0.step_injective.prodMap (component1.step_injective.prodMap component2.step_injective)

/-- The generator after a number of draws. -/
def draws (n : Nat) (g : GameRandom) : GameRandom := (fun g => g.randUint.2)^[n] g

theorem draws_ofStates (n : Nat) (x : States) : draws n (ofStates x) = ofStates (stepStates^[n] x) :=
  (ofStates_step.iterate_right n x).symm

/-- At most one of the three words is zero. -/
structure Alive (g : GameRandom) : Prop where
  first : g.seed0 ≠ 0#32 ∨ g.seed1 ≠ 0#32
  second : g.seed0 ≠ 0#32 ∨ g.seed2 ≠ 0#32
  third : g.seed1 ≠ 0#32 ∨ g.seed2 ≠ 0#32

theorem alive_step {x : States} (h : Alive (ofStates x)) : Alive (ofStates (stepStates x)) := by
  have h0 : component0.next x.1.1 = 0#32 ↔ _ := Component.next_eq_zero_iff x.1.2
  have h1 : component1.next x.2.1.1 = 0#32 ↔ _ := Component.next_eq_zero_iff x.2.1.2
  have h2 : component2.next x.2.2.1 = 0#32 ↔ _ := Component.next_eq_zero_iff x.2.2.2
  exact ⟨h.first.imp (mt h0.mp) (mt h1.mp), h.second.imp (mt h0.mp) (mt h2.mp), h.third.imp (mt h1.mp) (mt h2.mp)⟩

/-! ## The set-up -/

section Reset

variable (seed : BitVec 32)

/-- The seed in the windows of the components. -/
def window0 : BitVec 32 := (seed ^^^ 0xFEA09B9D#32) &&& component0.mask
def window1 : BitVec 32 := (seed ^^^ 0x9C129511#32) &&& component1.mask
def window2 : BitVec 32 := (seed ^^^ 0x2512CFB8#32) &&& component2.mask

theorem low_window0 (i : Nat) (h : i + component0.k < 32) : (window0 seed).getLsbD i = false := by
  rw [window0, Component.getLsbD_mask, decide_eq_false (by omega), Bool.false_and]

theorem low_window1 (i : Nat) (h : i + component1.k < 32) : (window1 seed).getLsbD i = false := by
  rw [window1, Component.getLsbD_mask, decide_eq_false (by omega), Bool.false_and]

theorem low_window2 (i : Nat) (h : i + component2.k < 32) : (window2 seed).getLsbD i = false := by
  rw [window2, Component.getLsbD_mask, decide_eq_false (by omega), Bool.false_and]

/-- The words before the first draw. -/
def started : States :=
  (⟨component0.start (window0 seed), Component.recurs_start (low_window0 seed)⟩,
    ⟨component1.start (window1 seed), Component.recurs_start (low_window1 seed)⟩,
    ⟨component2.start (window2 seed), Component.recurs_start (low_window2 seed)⟩)

theorem reset_eq : reset seed = draws 1 (ofStates (started seed)) := by
  simp only [reset, and_randomMax]
  rfl

/-- A bit of the seed in a window that is zero. -/
theorem bit_of_window {c : Component 32} {seed v : BitVec 32} (h : (seed ^^^ v) &&& c.mask = 0#32) {i : Nat}
    (hi : 32 - c.k ≤ i) : seed.getLsbD i = v.getLsbD i := by
  have hbit := congrArg (BitVec.getLsbD · i) h
  simp only [Component.getLsbD_mask, decide_eq_true hi, Bool.true_and, BitVec.getLsbD_xor, BitVec.getLsbD_zero] at hbit
  simpa using hbit

/-- The three constants differ in the two highest bits. -/
theorem alive_started : Alive (ofStates (started seed)) := by
  have h0 : component0.start (window0 seed) = 0#32 ↔ _ := Component.start_eq_zero (low_window0 seed)
  have h1 : component1.start (window1 seed) = 0#32 ↔ _ := Component.start_eq_zero (low_window1 seed)
  have h2 : component2.start (window2 seed) = 0#32 ↔ _ := Component.start_eq_zero (low_window2 seed)
  have hbits : ∀ {i : Nat} {b b' : Bool}, b ≠ b' → seed.getLsbD i = b → seed.getLsbD i ≠ b' :=
    fun hne hb hb' => hne (hb.symm.trans hb')
  refine ⟨?_, ?_, ?_⟩
  · by_contra hdead
    obtain ⟨hz0, hz1⟩ := not_or.mp hdead
    exact hbits (by decide) (bit_of_window (h0.mp (not_not.mp hz0)) (by decide : 32 - component0.k ≤ 30))
      (bit_of_window (h1.mp (not_not.mp hz1)) (by decide))
  · by_contra hdead
    obtain ⟨hz0, hz2⟩ := not_or.mp hdead
    exact hbits (by decide) (bit_of_window (h0.mp (not_not.mp hz0)) (by decide : 32 - component0.k ≤ 31))
      (bit_of_window (h2.mp (not_not.mp hz2)) (by decide))
  · by_contra hdead
    obtain ⟨hz1, hz2⟩ := not_or.mp hdead
    exact hbits (by decide) (bit_of_window (h1.mp (not_not.mp hz1)) (by decide : 32 - component1.k ≤ 31))
      (bit_of_window (h2.mp (not_not.mp hz2)) (by decide))

end Reset

/-- **Draws.** Whatever the seed, at most one of the three words is zero after any number of draws, and the states come
    back, from the first one on. -/
theorem draws_spec (seed : BitVec 32) :
    (∀ n, Alive (draws n (reset seed))) ∧ ∃ p, 0 < p ∧ ∀ n, draws (n + p) (reset seed) = draws n (reset seed) := by
  rw [reset_eq, draws_ofStates]
  constructor
  · intro n
    rw [draws_ofStates, ← Function.iterate_add_apply]
    induction n + 1 with
    | zero => exact alive_started seed
    | succ m ih =>
        rw [Function.iterate_succ_apply']
        exact alive_step ih
  · obtain ⟨p, hp, hperiod⟩ := stepStates_injective.mem_periodicPts (stepStates^[1] (started seed))
    refine ⟨p, hp, fun n => ?_⟩
    rw [draws_ofStates, draws_ofStates, Function.iterate_add_apply, hperiod.eq]

end GameRandom

end Mowang
