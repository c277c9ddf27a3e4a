import Mathlib.Tactic.Common
import Mathlib.Tactic.Ring

/-!
# `Base.LittleEndian` — unsigned integers as little-endian byte strings

`leBytes n v` is the object representation of the `n`-byte unsigned integer `v % 256^n` on a
little-endian machine, `ofLe` reads one back. They are inverse to each other in both directions, up
to the truncation that storing into `n` bytes performs.
-/

namespace LittleEndian

/-- The `n` low bytes of `v`, least significant first. -/
def leBytes : Nat → Nat → List UInt8
  | 0,     _ => []
  | n + 1, v => UInt8.ofNat v :: leBytes n (v / 256)

/-- The value of a little-endian byte string. -/
def ofLe : List UInt8 → Nat
  | []      => 0
  | b :: bs => b.toNat + 256 * ofLe bs

@[simp] theorem leBytes_length (n v : Nat) : (leBytes n v).length = n := by
  induction n generalizing v with
  | zero => rfl
  | succ n ih => simp only [leBytes, List.length_cons, ih]

/-- Storing into `n` bytes truncates modulo `256^n`. -/
theorem ofLe_leBytes (n v : Nat) : ofLe (leBytes n v) = v % 256 ^ n := by
  induction n generalizing v with
  | zero => simp [leBytes, ofLe, Nat.mod_one]
  | succ n ih =>
      simp only [leBytes, ofLe, ih]
      rw [Nat.pow_succ, Nat.mul_comm (256 ^ n) 256, Nat.mod_mul]
      simp

theorem ofLe_leBytes_of_lt {n v : Nat} (h : v < 256 ^ n) : ofLe (leBytes n v) = v := by
  rw [ofLe_leBytes, Nat.mod_eq_of_lt h]

theorem ofLe_lt (bs : List UInt8) : ofLe bs < 256 ^ bs.length := by
  induction bs with
  | nil => simp [ofLe]
  | cons b bs ih =>
      have hb : b.toNat < 256 := b.toNat_lt
      simp only [ofLe, List.length_cons, Nat.pow_succ]
      omega

/-- Reading a byte string back and storing it again is the identity. -/
theorem leBytes_ofLe (bs : List UInt8) : leBytes bs.length (ofLe bs) = bs := by
  induction bs with
  | nil => rfl
  | cons b bs ih =>
      have hb : b.toNat < 256 := b.toNat_lt
      have hhead : UInt8.ofNat (b.toNat + 256 * ofLe bs) = b := by
        apply UInt8.toNat_inj.mp
        rw [UInt8.toNat_ofNat']
        omega
      have htail : (b.toNat + 256 * ofLe bs) / 256 = ofLe bs := by omega
      simp only [List.length_cons, leBytes, ofLe, hhead, htail, ih]

end LittleEndian
