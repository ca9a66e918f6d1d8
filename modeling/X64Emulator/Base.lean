import Mathlib.Algebra.Group.Int.Defs
import Mathlib.Algebra.Group.Nat.Defs
import Mathlib.Tactic.Common

/-!
# Machine words, error numbers and verifications

What every module of the model shares: the unsigned arithmetic of `u64` values, the error numbers of system calls, and
`verify`, after which the emulator has no state left. A `u64` is a natural number below `2 ^ 64`; where the source may wrap,
the model says so with `u64`.
-/

namespace X64Emulator

/-- The value a `u64` holds after arithmetic that may have wrapped. -/
def u64 (n : Nat) : Nat := n % 2 ^ 64

/-- Subtraction of `u64` values. -/
def sub64 (a b : Nat) : Nat := u64 (a + 2 ^ 64 - b)

def ENOENT : Int := 2
def EBADF : Int := 9
def ECHILD : Int := 10
def EAGAIN : Int := 11
def EFAULT : Int := 14
def EISDIR : Int := 21
def EINVAL : Int := 22
def ESPIPE : Int := 29
def ENOSYS : Int := 38
def ENOTSUP : Int := 95
def ETIMEDOUT : Int := 110

/-- `verify`: a condition that does not hold raises a `VerificationException`, and the operation has no result. -/
def verify (c : Prop) [Decidable c] : Option Unit := if c then some () else none

@[simp] theorem verify_eq_some {c : Prop} [Decidable c] {u : Unit} : verify c = some u ↔ c := by
  unfold verify
  split <;> simp [*]

theorem verify_of {c : Prop} [Decidable c] (h : c) : verify c = some () := if_pos h

theorem u64_of_lt {n : Nat} (h : n < 2 ^ 64) : u64 n = n := Nat.mod_eq_of_lt h

theorem u64_lt (n : Nat) : u64 n < 2 ^ 64 := Nat.mod_lt _ (by decide)

theorem u64_u64_add (a b : Nat) : u64 (u64 a + b) = u64 (a + b) := Nat.mod_add_mod a (2 ^ 64) b

theorem toNat_toUInt64 {n : Nat} (h : n < 2 ^ 64) : n.toUInt64.toNat = n := by
  rw [Nat.toUInt64, UInt64.toNat_ofNat']
  exact Nat.mod_eq_of_lt h

end X64Emulator
