import Mathlib.Tactic.Common

/-!
# Rotations

A rotation by a count is that many rotations by one place. A value with a carry in front of it is a value that is one bit
longer: a rotation by one place of that value brings the carry in at one end and the bit of the other end into the carry.
-/

namespace Rotation

variable {w : Nat}

theorem getLsbD_rotateRight_mod (x : BitVec w) (count i : Nat) :
    (x.rotateRight count).getLsbD i = (decide (i < w) && x.getLsbD ((count + i) % w)) := by
  rw [BitVec.getLsbD_rotateRight]
  by_cases hi : i < w
  · have hlt : count % w < w := Nat.mod_lt _ (by omega)
    have hsum : (count + i) % w = (count % w + i) % w := by rw [Nat.mod_add_mod]
    rw [hsum]
    generalize count % w = turned at *
    by_cases hlow : i < w - turned
    · rw [Nat.mod_eq_of_lt (show turned + i < w by omega)]
      simp [hi, hlow]
    · have hmod : (turned + i) % w = i - (w - turned) := by
        rw [Nat.mod_eq_sub_mod (by omega), Nat.mod_eq_of_lt (by omega)]
        omega
      simp [hi, hlow, hmod]
  · simp [hi, show ¬ i < w - count % w by omega]

theorem rotateLeft_zero (x : BitVec w) : x.rotateLeft 0 = x := by
  apply BitVec.eq_of_getMsbD_eq
  intro i hi
  rw [BitVec.getMsbD_rotateLeft, Nat.zero_add, Nat.mod_eq_of_lt hi]
  simp [hi]

theorem rotateRight_zero (x : BitVec w) : x.rotateRight 0 = x := by
  apply BitVec.eq_of_getLsbD_eq
  intro i hi
  rw [getLsbD_rotateRight_mod, Nat.zero_add, Nat.mod_eq_of_lt hi]
  simp [hi]

theorem rotateLeft_succ (x : BitVec w) (count : Nat) : x.rotateLeft (count + 1) = (x.rotateLeft 1).rotateLeft count := by
  apply BitVec.eq_of_getMsbD_eq
  intro i hi
  have hlt : (count + i) % w < w := Nat.mod_lt _ (by omega)
  have hsum : (1 + (count + i) % w) % w = (count + 1 + i) % w := by
    rw [Nat.add_mod_mod]
    congr 1
    omega
  simp [BitVec.getMsbD_rotateLeft, hi, hlt, hsum]

theorem rotateRight_succ (x : BitVec w) (count : Nat) : x.rotateRight (count + 1) = (x.rotateRight 1).rotateRight count := by
  apply BitVec.eq_of_getLsbD_eq
  intro i hi
  have hlt : (count + i) % w < w := Nat.mod_lt _ (by omega)
  have hsum : (1 + (count + i) % w) % w = (count + 1 + i) % w := by
    rw [Nat.add_mod_mod]
    congr 1
    omega
  rw [getLsbD_rotateRight_mod, getLsbD_rotateRight_mod, getLsbD_rotateRight_mod, hsum]
  simp [hi, hlt]

/-- The value and the carry after a carry is moved in at the lower end. -/
theorem rotateLeft_one_cons (hw : 0 < w) (carry : Bool) (x : BitVec w) :
    (BitVec.cons carry x).rotateLeft 1 = BitVec.cons x.msb ((x.concat carry).setWidth w) := by
  apply BitVec.eq_of_getLsbD_eq
  intro i hi
  rw [BitVec.getLsbD_rotateLeft_of_le (show 1 < w + 1 by omega), BitVec.getLsbD_cons _ x, BitVec.getLsbD_cons _ x,
    BitVec.getLsbD_cons, BitVec.getLsbD_setWidth, BitVec.getLsbD_concat, BitVec.msb_eq_getLsbD_last]
  by_cases hzero : i = 0
  · subst hzero
    simp [hw, show ¬ 0 = w by omega]
  · by_cases htop : i = w
    · subst htop
      simp [show ¬ i - 1 = i by omega, show ¬ i < 1 by omega]
    · simp [hzero, htop, hi, show ¬ i - 1 = w by omega, show ¬ i < 1 by omega, show i < w by omega]

/-- The value and the carry after a carry is moved in at the upper end. -/
theorem rotateRight_one_cons (hw : 0 < w) (carry : Bool) (x : BitVec w) :
    (BitVec.cons carry x).rotateRight 1 = BitVec.cons (x.getLsbD 0) ((BitVec.cons carry x >>> 1).setWidth w) := by
  apply BitVec.eq_of_getLsbD_eq
  intro i hi
  rw [getLsbD_rotateRight_mod, BitVec.getLsbD_cons _ (BitVec.setWidth _ _), BitVec.getLsbD_setWidth, BitVec.getLsbD_ushiftRight]
  by_cases htop : i = w
  · subst htop
    have hwrap : (1 + i) % (i + 1) = 0 := by rw [Nat.add_comm, Nat.mod_self]
    rw [hwrap, BitVec.getLsbD_cons, if_neg (show ¬ 0 = i by omega)]
    simp
  · rw [Nat.mod_eq_of_lt (by omega)]
    simp [htop, hi, show i < w by omega]

end Rotation
