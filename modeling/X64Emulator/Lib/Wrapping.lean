import Mathlib.Algebra.Group.Int.Defs
import Mathlib.Algebra.Group.Nat.Defs
import Mathlib.Tactic.Common

/-!
# Wrapped integers

A bit vector of width `w` holds an integer modulo `2 ^ w`. What an exact integer is as a bit vector, read back as an unsigned
or as a signed number, when the integer is at most one wrap away from the range of the numbers.
-/

namespace Wrapping

variable {w : Nat}

theorem two_mul_half (hw : 0 < w) : 2 * 2 ^ (w - 1) = 2 ^ w := by
  rw [← Nat.pow_succ', Nat.succ_eq_add_one, Nat.sub_add_cancel hw]

theorem ofInt_toNat (x : BitVec w) : BitVec.ofInt w x.toNat = x := by
  rw [BitVec.ofInt_natCast, BitVec.ofNat_toNat, BitVec.setWidth_eq]

theorem ofInt_sub (x y : Int) : BitVec.ofInt w (x - y) = BitVec.ofInt w x - BitVec.ofInt w y := by
  rw [Int.sub_eq_add_neg, BitVec.ofInt_add, BitVec.ofInt_neg, BitVec.sub_eq_add_neg]

/-- An exact integer that is cut down from a wider vector is the one cut down to the shorter width. -/
theorem setWidth_ofInt {v : Nat} (h : v ≤ w) (z : Int) : (BitVec.ofInt w z).setWidth v = BitVec.ofInt v z := by
  have hdvd : ((2 ^ v : Nat) : Int) ∣ (2 ^ w : Nat) := Int.natCast_dvd_natCast.2 (Nat.pow_dvd_pow 2 h)
  have hpos := Nat.two_pow_pos w
  apply BitVec.eq_of_toInt_eq
  rw [BitVec.toInt_setWidth, BitVec.toNat_ofInt, BitVec.toInt_ofInt, Int.toNat_of_nonneg (Int.emod_nonneg _ (by omega)),
    ← Int.emod_bmod, Int.emod_emod_of_dvd _ hdvd, Int.emod_bmod]

theorem sshiftRight_ofInt {z : Int} (n : Nat) (h : (BitVec.ofInt w z).toInt = z) :
    (BitVec.ofInt w z).sshiftRight n = BitVec.ofInt w (z / (2 ^ n : Nat)) := by
  rw [← BitVec.ofInt_toInt (x := (BitVec.ofInt w z).sshiftRight n), BitVec.toInt_sshiftRight, h, Int.shiftRight_eq_div_pow]

/-- A value that is shifted in a wider signed type and cut down again has been shifted. -/
theorem setWidth_sshiftRight_signExtend {v : Nat} (h : w ≤ v) (x : BitVec w) (n : Nat) :
    ((x.signExtend v).sshiftRight n).setWidth w = x.sshiftRight n := by
  rw [← BitVec.ofInt_toInt (x := (x.signExtend v).sshiftRight n), BitVec.toInt_sshiftRight, BitVec.toInt_signExtend_of_le h,
    setWidth_ofInt h, ← BitVec.toInt_sshiftRight, BitVec.ofInt_toInt]

/-- The signed reading of a bit vector is the unsigned one, or it is one wrap below. -/
theorem toInt_cases (hw : 0 < w) (x : BitVec w) :
    (x.toNat < 2 ^ (w - 1) ∧ x.toInt = x.toNat) ∨ (2 ^ (w - 1) ≤ x.toNat ∧ x.toInt = x.toNat - 2 * (2 ^ (w - 1) : Nat)) := by
  have hhalf := two_mul_half hw
  rw [BitVec.toInt_eq_toNat_cond, ← hhalf]
  split
  · exact .inl ⟨by omega, rfl⟩
  · exact .inr ⟨by omega, by push_cast; rfl⟩

/-- An exact integer at most one wrap away, read as a signed number. -/
theorem toInt_ofInt_cases (hw : 0 < w) (z : Int) (hlow : -(2 ^ w : Nat) ≤ z) (hhigh : z < (2 ^ w : Nat)) :
    (-(2 ^ (w - 1) : Nat) ≤ z ∧ z < (2 ^ (w - 1) : Nat) ∧ (BitVec.ofInt w z).toInt = z) ∨
    ((2 ^ (w - 1) : Nat) ≤ z ∧ (BitVec.ofInt w z).toInt = z - 2 * (2 ^ (w - 1) : Nat)) ∨
    (z < -(2 ^ (w - 1) : Nat) ∧ (BitVec.ofInt w z).toInt = z + 2 * (2 ^ (w - 1) : Nat)) := by
  have hhalf := two_mul_half hw
  rw [BitVec.toInt_ofInt, ← hhalf]
  rw [← hhalf] at hlow hhigh
  generalize 2 ^ (w - 1) = m at *
  have hread : ∀ r : Int, -m ≤ r → r < m → ((2 * m : Nat) : Int) ∣ r - z → z.bmod (2 * m) = r := by
    intro r hlow hhigh hdvd
    exact (Int.bmod_eq_iff (by omega)).2 ⟨by omega, by omega, hdvd⟩
  by_cases hbelow : z < -m
  · exact .inr (.inr ⟨hbelow, hread _ (by omega) (by omega) ⟨1, by omega⟩⟩)
  · by_cases habove : z < m
    · exact .inl ⟨by omega, habove, hread _ (by omega) habove ⟨0, by omega⟩⟩
    · exact .inr (.inl ⟨by omega, hread _ (by omega) (by omega) ⟨-1, by omega⟩⟩)

theorem eq_one_iff (hw : 0 < w) (x : BitVec w) : x = 1 ↔ x.toNat = 1 := by
  have hone : (1#w).toNat = 1 := BitVec.toNat_one hw
  rw [BitVec.toNat_eq]
  exact hone ▸ Iff.rfl

theorem eq_allOnes_iff (x : BitVec w) : x = BitVec.allOnes w ↔ x.toNat = 2 ^ w - 1 := by
  rw [BitVec.toNat_eq, BitVec.toNat_allOnes]

/-- A sum with a carry stays below a power of two, or it reaches it. -/
theorem add_carry_mod {x c m : Nat} (hx : x < m) (hc : c ≤ 1) :
    (x + c < m ∧ (x + c) % m = x + c) ∨ (x + c = m ∧ (x + c) % m = 0) := by
  by_cases hlt : x + c < m
  · exact .inl ⟨hlt, Nat.mod_eq_of_lt hlt⟩
  · have heq : x + c = m := by omega
    exact .inr ⟨heq, by rw [heq, Nat.mod_self]⟩

end Wrapping
