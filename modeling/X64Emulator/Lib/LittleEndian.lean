import Mathlib.Algebra.Group.Nat.Defs
import Mathlib.Tactic.Common

/-!
# Little-endian numbers in a memory

A memory gives each address a byte. A number of some bytes lies in it with its lowest byte first.
-/

namespace LittleEndian

variable {memory memory' : Nat → UInt8} {a n : Nat}

/-- The number that the `n` bytes from an address hold. -/
def read (memory : Nat → UInt8) (a : Nat) : Nat → Nat
  | 0 => 0
  | n + 1 => (memory a).toNat + 256 * read memory (a + 1) n

theorem read_lt : read memory a n < 256 ^ n := by
  induction n generalizing a with
  | zero => exact Nat.one_pos
  | succ n ih =>
    have hfirst := (memory a).toNat_lt
    have hrest := @ih (a + 1)
    rw [read, Nat.pow_succ]
    omega

/-- What is read depends on the bytes that are read only. -/
theorem read_congr (h : ∀ x, a ≤ x → x < a + n → memory' x = memory x) : read memory' a n = read memory a n := by
  induction n generalizing a with
  | zero => rfl
  | succ n ih =>
    rw [read, read, h a (Nat.le_refl _) (by omega), ih (fun x h1 h2 => h x (by omega) (by omega))]

/-- Bytes that were taken off a number, the lowest first, give it back as far as they go. -/
theorem read_digits {v : Nat} (h : ∀ i, i < n → memory (a + i) = UInt8.ofNat (v / 256 ^ i)) : read memory a n = v % 256 ^ n := by
  induction n generalizing a v with
  | zero => simp [read, Nat.mod_one]
  | succ n ih =>
    have hfirst : memory a = UInt8.ofNat v := by simpa using h 0 (Nat.succ_pos n)
    have hrest : read memory (a + 1) n = v / 256 % 256 ^ n := by
      refine ih fun i hi => ?_
      have hi := h (i + 1) (by omega)
      rw [Nat.pow_succ, Nat.mul_comm, ← Nat.div_div_eq_div_mul] at hi
      rw [← hi, Nat.add_right_comm, Nat.add_assoc]
    calc (memory a).toNat + 256 * read memory (a + 1) n
      _ = v % 256 + 256 * (v / 256 % 256 ^ n) := by rw [hfirst, hrest, UInt8.toNat_ofNat']
      _ = v % (256 * 256 ^ n) := (Nat.mod_mul ..).symm
      _ = v % 256 ^ (n + 1) := by rw [Nat.pow_succ, Nat.mul_comm 256]

end LittleEndian
