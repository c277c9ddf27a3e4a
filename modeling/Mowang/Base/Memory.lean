import Mowang.Base.LittleEndian
import Mathlib.Data.List.Pairwise
import Mathlib.Algebra.Order.Ring.Nat

/-!
# `Base.Memory` — a memory of bytes, words in it, and lists that are linked through it

A memory gives each address a byte. A word is eight bytes, and an intrusive list keeps in each node, at a fixed offset,
the address of the next one: `Chain` says that following these words from `head` passes through exactly the nodes of a
list and ends at 0. A write changes nothing apart from itself (`write_apart`, `word_write_apart`), so a chain stays one
as long as its links are left alone (`Chain.congr`).

## Contents
- `Apart`, `Within` — intervals of addresses.
- `write`, `word`, `setWord`, and what is read after a write.
- `Chain`.
-/

namespace Memory

open LittleEndian

/-- Two intervals of `n` and `m` addresses without a common one. -/
def Apart (a n b m : Nat) : Prop := a + n ≤ b ∨ b + m ≤ a

/-- The interval of `n` addresses from `a` on lies in the one of `m` from `b` on. -/
def Within (a n b m : Nat) : Prop := b ≤ a ∧ a + n ≤ b + m

instance (a n b m : Nat) : Decidable (Apart a n b m) := inferInstanceAs (Decidable (_ ∨ _))

instance (a n b m : Nat) : Decidable (Within a n b m) := inferInstanceAs (Decidable (_ ∧ _))

theorem Apart.symm {a n b m : Nat} (h : Apart a n b m) : Apart b m a n := Or.symm h

theorem Apart.mono {a n b m a' n' b' m' : Nat} (h : Apart a n b m) (ha : Within a' n' a n) (hb : Within b' m' b m) :
    Apart a' n' b' m' := by
  unfold Apart Within at *
  omega

theorem Within.trans {a n b m c k : Nat} (h : Within a n b m) (h' : Within b m c k) : Within a n c k := by
  unfold Within at *
  omega

/-! ## Bytes and words -/

/-- `bytes`, from the address `a` on. -/
def write (m : Nat → UInt8) (a : Nat) (bytes : List UInt8) : Nat → UInt8 := fun x =>
  if a ≤ x then (bytes[x - a]?).getD (m x) else m x

/-- The word at the address `a`. -/
def word (m : Nat → UInt8) (a : Nat) : Nat := ofLe ((List.range 8).map fun i => m (a + i))

def setWord (m : Nat → UInt8) (a v : Nat) : Nat → UInt8 := write m a (leBytes 8 v)

variable {m m' : Nat → UInt8} {a x : Nat} {bytes : List UInt8}

theorem write_apart (h : Apart x 1 a bytes.length) : write m a bytes x = m x := by
  rw [write]
  split
  · rw [List.getElem?_eq_none (by unfold Apart at h; omega)]
    rfl
  · rfl

theorem word_congr (h : ∀ i < 8, m' (x + i) = m (x + i)) : word m' x = word m x :=
  congrArg ofLe (List.map_congr_left fun i hi => h i (List.mem_range.mp hi))

theorem word_write_apart (h : Apart x 8 a bytes.length) : word (write m a bytes) x = word m x :=
  word_congr fun i hi => write_apart (by unfold Apart at *; omega)

theorem setWord_apart {v : Nat} (h : Apart x 1 a 8) : setWord m a v x = m x :=
  write_apart (by rw [leBytes_length]; exact h)

theorem word_setWord_apart {v : Nat} (h : Apart x 8 a 8) : word (setWord m a v) x = word m x :=
  word_write_apart (by rw [leBytes_length]; exact h)

theorem word_setWord {v : Nat} (h : v < 2 ^ 64) : word (setWord m a v) a = v := by
  have hbytes : ((List.range 8).map fun i => setWord m a v (a + i)) = leBytes 8 v := by
    apply List.ext_getElem
    · rw [List.length_map, List.length_range, leBytes_length]
    · intro i hi hi'
      rw [List.getElem_map, List.getElem_range, setWord, write, if_pos (Nat.le_add_right a i), Nat.add_sub_cancel_left,
        List.getElem?_eq_getElem hi']
      rfl
  rw [word, hbytes, ofLe_leBytes_of_lt h]

/-- A single byte. -/
theorem write_self {b : UInt8} : write m a [b] a = b := by
  rw [write, if_pos (Nat.le_refl a), Nat.sub_self]
  rfl

/-! ## Linked nodes -/

/-- Following the word at `offset` in each node, from `head` on, passes through the nodes of `l` and ends at 0. -/
def Chain (m : Nat → UInt8) (offset : Nat) : Nat → List Nat → Prop
  | head, []     => head = 0
  | head, a :: l => head = a ∧ a ≠ 0 ∧ Chain m offset (word m (a + offset)) l

/-- A chain reads the links of its nodes only. -/
theorem Chain.congr {offset head : Nat} {l : List Nat} (h : Chain m offset head l)
    (hsame : ∀ a ∈ l, word m' (a + offset) = word m (a + offset)) : Chain m' offset head l := by
  induction l generalizing head with
  | nil => exact h
  | cons a l ih =>
      obtain ⟨rfl, hne, hrest⟩ := h
      refine ⟨rfl, hne, ?_⟩
      rw [hsame head List.mem_cons_self]
      exact ih hrest fun b hb => hsame b (List.mem_cons_of_mem _ hb)

theorem Chain.head_eq_zero {offset head : Nat} {l : List Nat} (h : Chain m offset head l) : head = 0 ↔ l = [] := by
  cases l with
  | nil => exact iff_of_true h rfl
  | cons a l => exact iff_of_false (h.1 ▸ h.2.1) (List.cons_ne_nil a l)

/-- A node is put in front. -/
theorem Chain.push {offset head : Nat} {l : List Nat} (h : Chain m offset head l) {a : Nat} (hne : a ≠ 0)
    (hhead : head < 2 ^ 64) (happart : ∀ b ∈ l, Apart (b + offset) 8 (a + offset) 8) :
    Chain (setWord m (a + offset) head) offset a (a :: l) := by
  refine ⟨rfl, hne, ?_⟩
  rw [word_setWord hhead]
  exact h.congr fun b hb => word_setWord_apart (happart b hb)

end Memory
