import Mathlib.Tactic.Common

/-!
# Tests of one bit

A program tests a bit of a value with a mask of one bit, and finds whether anything is left.
-/

namespace Bits

variable {w : Nat}

theorem ne_zero_iff (x : BitVec w) : x ≠ 0 ↔ ∃ i, x.getLsbD i = true := by
  constructor
  · intro hne
    by_contra hnone
    apply hne
    apply BitVec.eq_of_getLsbD_eq
    intro i _
    have hi : ¬ x.getLsbD i = true := fun h => hnone ⟨i, h⟩
    simpa using hi
  · rintro ⟨i, hi⟩ rfl
    simp at hi

/-- Two values have a bit in common. -/
theorem and_ne_zero_iff (x y : BitVec w) : x &&& y ≠ 0 ↔ ∃ i, x.getLsbD i = true ∧ y.getLsbD i = true := by
  rw [ne_zero_iff]
  simp only [BitVec.getLsbD_and, Bool.and_eq_true]

theorem getLsbD_bit (n i : Nat) : (1#w <<< n).getLsbD i = true ↔ i = n ∧ n < w := by
  rw [← BitVec.twoPow_eq, BitVec.getLsbD_twoPow, Bool.and_eq_true, decide_eq_true_iff, decide_eq_true_iff, and_comm, eq_comm]

theorem and_bit_ne_zero (x : BitVec w) (n : Nat) : x &&& 1#w <<< n ≠ 0 ↔ x.getLsbD n = true := by
  rw [and_ne_zero_iff]
  constructor
  · rintro ⟨i, hx, hbit⟩
    exact ((getLsbD_bit n i).1 hbit).1 ▸ hx
  · intro hx
    exact ⟨n, hx, (getLsbD_bit n n).2 ⟨rfl, BitVec.lt_of_getLsbD hx⟩⟩

theorem and_one_ne_zero (x : BitVec w) : x &&& 1 ≠ 0 ↔ x.getLsbD 0 = true := by
  have h := and_bit_ne_zero x 0
  rwa [BitVec.shiftLeft_zero] at h

theorem decide_and_bit (x : BitVec w) (n : Nat) : decide (x &&& 1#w <<< n ≠ 0) = x.getLsbD n := by
  rw [Bool.eq_iff_iff, decide_eq_true_iff]
  exact and_bit_ne_zero x n

theorem decide_and_one (x : BitVec w) : decide (x &&& 1 ≠ 0) = x.getLsbD 0 := by
  rw [Bool.eq_iff_iff, decide_eq_true_iff]
  exact and_one_ne_zero x

/-- The test of the highest bit. -/
theorem decide_and_top (x : BitVec w) : decide (x &&& 1#w <<< (w - 1) ≠ 0) = x.msb := by
  rw [decide_and_bit, BitVec.msb_eq_getLsbD_last]

/-- The highest bit, moved down to the lowest. -/
theorem ushiftRight_top (hw : 0 < w) (x : BitVec w) : x >>> (w - 1) = (BitVec.ofBool x.msb).setWidth w := by
  apply BitVec.eq_of_getLsbD_eq
  intro i hi
  rw [BitVec.getLsbD_ushiftRight, BitVec.getLsbD_setWidth, BitVec.msb_eq_getLsbD_last]
  by_cases hzero : i = 0
  · subst hzero
    simp [hw]
  · rw [BitVec.getLsbD_of_ge x (w - 1 + i) (by omega)]
    simp [hzero]

/-- Two bits that are compared as numbers. -/
theorem decide_xor_bits (hw : 0 < w) (a b : Bool) :
    decide ((BitVec.ofBool a).setWidth w ^^^ (BitVec.ofBool b).setWidth w ≠ 0) = (a ^^ b) := by
  have hone : (1#1).setWidth w ≠ 0 := (ne_zero_iff _).2 ⟨0, by simp [hw]⟩
  cases a <;> cases b
  · simp
  · simpa using hone
  · simpa using hone
  · simp

/-- A value that is shifted in a wider type and cut down again has been shifted. -/
theorem setWidth_shiftLeft_setWidth {v : Nat} (h : w ≤ v) (x : BitVec w) (n : Nat) : (x.setWidth v <<< n).setWidth w = x <<< n := by
  apply BitVec.eq_of_getLsbD_eq
  intro i hi
  have hiv : i < v := by omega
  simp only [BitVec.getLsbD_setWidth, BitVec.getLsbD_shiftLeft, hi, hiv, decide_true, Bool.true_and]
  by_cases hin : i < n
  · simp [hin]
  · simp [hin, show i - n < v by omega]

theorem setWidth_ushiftRight_setWidth {v : Nat} (h : w ≤ v) (x : BitVec w) (n : Nat) : (x.setWidth v >>> n).setWidth w = x >>> n := by
  apply BitVec.eq_of_getLsbD_eq
  intro i hi
  simp only [BitVec.getLsbD_setWidth, BitVec.getLsbD_ushiftRight, hi, decide_true, Bool.true_and]
  by_cases hin : n + i < v
  · simp [hin]
  · simp [hin, show w ≤ n + i by omega]

/-! ## One bit replaced -/

def setBit (x : BitVec w) (n : Nat) (b : Bool) : BitVec w := (x &&& ~~~(1#w <<< n)) ||| (BitVec.ofBool b).setWidth w <<< n

theorem getLsbD_setBit {n : Nat} (hn : n < w) (x : BitVec w) (b : Bool) (i : Nat) :
    (setBit x n b).getLsbD i = if i = n then b else x.getLsbD i := by
  rw [setBit, BitVec.getLsbD_or, BitVec.getLsbD_and, BitVec.getLsbD_not, BitVec.getLsbD_shiftLeft (x := (BitVec.ofBool b).setWidth w),
    BitVec.getLsbD_setWidth, BitVec.getLsbD_ofBool]
  by_cases hi : i = n
  · subst hi
    simp [hn, show 0 < w by omega]
  · by_cases hlt : i < w
    · by_cases hbelow : i < n
      · simp [hi, hlt, hbelow]
      · simp [hi, hlt, hbelow, show i - n ≠ 0 by omega]
    · simp [hi, hlt, BitVec.getLsbD_of_ge x i (by omega)]

/-- To replace a bit by itself changes nothing. -/
theorem setBit_eq_self {n : Nat} (hn : n < w) {x : BitVec w} {b : Bool} : setBit x n b = x ↔ x.getLsbD n = b := by
  constructor
  · intro hsame
    have hbit := getLsbD_setBit hn x b n
    rwa [hsame, if_pos rfl] at hbit
  · intro hbit
    apply BitVec.eq_of_getLsbD_eq
    intro i _
    rw [getLsbD_setBit hn]
    split
    · rename_i hi
      rw [hi, hbit]
    · rfl

end Bits
