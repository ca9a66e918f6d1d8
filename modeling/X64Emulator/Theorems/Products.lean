import X64Emulator.CpuImpl
import X64Emulator.Lib.Wrapping
import Mathlib.Tactic.Ring

/-!
# Products and quotients

The two halves that a multiplication returns are the exact product, and the flags say whether the lower half holds it. A
division whose quotient fits returns the quotient and the remainder.
-/

namespace X64Emulator

namespace CpuImpl

open Wrapping Outcome

variable {w : Nat}

/-! ## Unsigned products -/

/-- The halves of a result are the exact unsigned product; carry and overflow are set where it does not fit the lower half. -/
structure IsProduct (before : Flags) (src1 src2 : BitVec w) (res : (BitVec w × BitVec w) × Flags) : Prop where
  value : res.1.1.toNat * 2 ^ w + res.1.2.toNat = src1.toNat * src2.toNat
  carry : res.2.carry = decide (¬ src1.toNat * src2.toNat < 2 ^ w)
  overflow : res.2.overflow = decide (¬ src1.toNat * src2.toNat < 2 ^ w)
  rest : res.2 = { before with carry := res.2.carry, overflow := res.2.overflow }

/-- The product fits the lower half where the upper half is zero. -/
theorem IsProduct.of_value {before : Flags} {src1 src2 upper lower : BitVec w}
    (h : upper.toNat * 2 ^ w + lower.toNat = src1.toNat * src2.toNat) :
    IsProduct before src1 src2 ((upper, lower), { before with overflow := upper ≠ 0, carry := upper ≠ 0 }) := by
  have hfits : upper ≠ 0 ↔ ¬ src1.toNat * src2.toNat < 2 ^ w := by
    rw [← h, BitVec.toNat_ne]
    have hlower := lower.isLt
    have hzero : (0 : BitVec w).toNat = 0 := BitVec.toNat_zero
    rw [hzero]
    by_cases hupper : upper.toNat = 0
    · simp [hupper, hlower]
    · have hmul := Nat.le_mul_of_pos_left (2 ^ w) (Nat.pos_of_ne_zero hupper)
      exact ⟨fun _ => by omega, fun _ => hupper⟩
  exact ⟨h, decide_eq_decide.2 hfits, decide_eq_decide.2 hfits, rfl⟩

/-- A multiplication in the type of twice the width loses nothing. -/
theorem mulDouble_isProduct (src1 src2 : BitVec w) (flags : Flags) : IsProduct flags src1 src2 (mulDouble src1 src2 flags) := by
  refine .of_value ?_
  have hprod : src1.toNat * src2.toNat < 2 ^ (2 * w) := by
    rw [Nat.two_mul, Nat.pow_add]
    exact Nat.mul_lt_mul'' src1.isLt src2.isLt
  have htoNat : (src1.setWidth (2 * w) * src2.setWidth (2 * w)).toNat = src1.toNat * src2.toNat := by
    rw [BitVec.toNat_mul, BitVec.toNat_setWidth_of_le (by omega), BitVec.toNat_setWidth_of_le (by omega), Nat.mod_eq_of_lt hprod]
  have hupper : src1.toNat * src2.toNat / 2 ^ w < 2 ^ w := by
    rw [Nat.div_lt_iff_lt_mul (Nat.two_pow_pos w), ← Nat.pow_add, ← Nat.two_mul]
    exact hprod
  rw [BitVec.toNat_setWidth, BitVec.toNat_ushiftRight, BitVec.toNat_setWidth, htoNat, Nat.shiftRight_eq_div_pow,
    Nat.mod_eq_of_lt hupper]
  exact Nat.div_add_mod' _ _

theorem toNat_lower32 (val : BitVec 64) : (lower32 val).toNat = val.toNat % 2 ^ 32 := by
  rw [lower32, BitVec.toNat_setWidth_of_le (by decide), BitVec.toNat_setWidth]

/-- The products of the halves, with the carries between them, make up the product. -/
theorem halves_exact {ac ad bc bd : Nat} (hac : ac ≤ (2 ^ 32 - 1) * (2 ^ 32 - 1)) (had : ad ≤ (2 ^ 32 - 1) * (2 ^ 32 - 1))
    (hbc : bc ≤ (2 ^ 32 - 1) * (2 ^ 32 - 1)) (hbd : bd ≤ (2 ^ 32 - 1) * (2 ^ 32 - 1)) :
    ((ac + (ad + bc) % 2 ^ 64 / 2 ^ 32 + (decide (2 ^ 64 - 1 - bc < ad)).toNat * 2 ^ 32 +
        (decide (2 ^ 64 - 1 - (ad + bc) % 2 ^ 64 * 2 ^ 32 % 2 ^ 64 < bd)).toNat) % 2 ^ 64) * 2 ^ 64 +
      (bd + (ad + bc) % 2 ^ 64 * 2 ^ 32 % 2 ^ 64) % 2 ^ 64 = ac * 2 ^ 64 + (ad + bc) * 2 ^ 32 + bd := by
  by_cases hmiddle : 2 ^ 64 - 1 - bc < ad
  · rw [decide_eq_true hmiddle]
    by_cases hlower : 2 ^ 64 - 1 - (ad + bc) % 2 ^ 64 * 2 ^ 32 % 2 ^ 64 < bd
    · rw [decide_eq_true hlower, Bool.toNat_true]
      omega
    · rw [decide_eq_false hlower, Bool.toNat_true, Bool.toNat_false]
      omega
  · rw [decide_eq_false hmiddle]
    by_cases hlower : 2 ^ 64 - 1 - (ad + bc) % 2 ^ 64 * 2 ^ 32 % 2 ^ 64 < bd
    · rw [decide_eq_true hlower, Bool.toNat_true, Bool.toNat_false]
      omega
    · rw [decide_eq_false hlower, Bool.toNat_false]
      omega

theorem toNat_mul_halves (x y : BitVec 64) (hx : x.toNat < 2 ^ 32) (hy : y.toNat < 2 ^ 32) :
    (x * y).toNat = x.toNat * y.toNat ∧ x.toNat * y.toNat ≤ (2 ^ 32 - 1) * (2 ^ 32 - 1) := by
  have hle : x.toNat * y.toNat ≤ (2 ^ 32 - 1) * (2 ^ 32 - 1) := Nat.mul_le_mul (by omega) (by omega)
  exact ⟨by rw [BitVec.toNat_mul, Nat.mod_eq_of_lt (by omega)], hle⟩

theorem mul64_isProduct (src1 src2 : BitVec 64) (flags : Flags) : IsProduct flags src1 src2 (mul64 src1 src2 flags) := by
  refine .of_value ?_
  obtain ⟨a, ha⟩ : ∃ a, a = lower32 (src1 >>> 32) := ⟨_, rfl⟩
  obtain ⟨b, hb⟩ : ∃ b, b = lower32 src1 := ⟨_, rfl⟩
  obtain ⟨c, hc⟩ : ∃ c, c = lower32 (src2 >>> 32) := ⟨_, rfl⟩
  obtain ⟨d, hd⟩ : ∃ d, d = lower32 src2 := ⟨_, rfl⟩
  simp only [← ha, ← hb, ← hc, ← hd]
  have hsrc1 : src1.toNat = a.toNat * 2 ^ 32 + b.toNat ∧ a.toNat < 2 ^ 32 ∧ b.toNat < 2 ^ 32 := by
    have hlt := src1.isLt
    rw [ha, hb, toNat_lower32, toNat_lower32, BitVec.toNat_ushiftRight, Nat.shiftRight_eq_div_pow]
    omega
  have hsrc2 : src2.toNat = c.toNat * 2 ^ 32 + d.toNat ∧ c.toNat < 2 ^ 32 ∧ d.toNat < 2 ^ 32 := by
    have hlt := src2.isLt
    rw [hc, hd, toNat_lower32, toNat_lower32, BitVec.toNat_ushiftRight, Nat.shiftRight_eq_div_pow]
    omega
  obtain ⟨hac, hacle⟩ := toNat_mul_halves a c hsrc1.2.1 hsrc2.2.1
  obtain ⟨had, hadle⟩ := toNat_mul_halves a d hsrc1.2.1 hsrc2.2.2
  obtain ⟨hbc, hbcle⟩ := toNat_mul_halves b c hsrc1.2.2 hsrc2.2.1
  obtain ⟨hbd, hbdle⟩ := toNat_mul_halves b d hsrc1.2.2 hsrc2.2.2
  have hexact := halves_exact hacle hadle hbcle hbdle
  have hmiddle : (BitVec.allOnes 64 - b * c < a * d) ↔ 2 ^ 64 - 1 - b.toNat * c.toNat < a.toNat * d.toNat := by
    rw [BitVec.allOnes_sub_eq_not, BitVec.lt_def, BitVec.toNat_not, hbc, had]
  have hadbc : (a * d + b * c).toNat = (a.toNat * d.toNat + b.toNat * c.toNat) % 2 ^ 64 := by rw [BitVec.toNat_add, had, hbc]
  have hshift : ((a * d + b * c) <<< 32).toNat = (a.toNat * d.toNat + b.toNat * c.toNat) % 2 ^ 64 * 2 ^ 32 % 2 ^ 64 := by
    rw [BitVec.toNat_shiftLeft, hadbc, Nat.shiftLeft_eq]
  have hlower : (BitVec.allOnes 64 - (a * d + b * c) <<< 32 < b * d) ↔
      2 ^ 64 - 1 - (a.toNat * d.toNat + b.toNat * c.toNat) % 2 ^ 64 * 2 ^ 32 % 2 ^ 64 < b.toNat * d.toNat := by
    rw [BitVec.allOnes_sub_eq_not, BitVec.lt_def, BitVec.toNat_not, hshift, hbd]
  have hcarry : ∀ carry : Bool, ((BitVec.ofBool carry).setWidth 64 <<< 32).toNat = carry.toNat * 2 ^ 32 := by decide
  have hcarry' : ∀ carry : Bool, ((BitVec.ofBool carry).setWidth 64).toNat = carry.toNat := by decide
  rw [BitVec.toNat_add, BitVec.toNat_add, BitVec.toNat_add, BitVec.toNat_add, hcarry, hcarry', hac, hbd, hshift,
    BitVec.toNat_ushiftRight, hadbc, Nat.shiftRight_eq_div_pow, Nat.mod_add_mod, decide_eq_decide.2 hmiddle,
    decide_eq_decide.2 hlower]
  have hassoc : ∀ p q m n : Nat, ((p + q) % 2 ^ 64 + m + n) % 2 ^ 64 = (p + q + m + n) % 2 ^ 64 := by
    intro p q m n
    omega
  rw [hassoc, hexact, hsrc1.1, hsrc2.1]
  ring

/-! ## Signed products -/

/-- The halves of a result are the exact signed product; carry and overflow are set where it does not fit the lower half. -/
structure IsSignedProduct (before : Flags) (src1 src2 : BitVec w) (res : (BitVec w × BitVec w) × Flags) : Prop where
  value : res.1.1.toInt * 2 ^ w + res.1.2.toNat = src1.toInt * src2.toInt
  carry : res.2.carry = decide (¬ (-2 ^ (w - 1) ≤ src1.toInt * src2.toInt ∧ src1.toInt * src2.toInt < 2 ^ (w - 1)))
  overflow : res.2.overflow = res.2.carry
  rest : res.2 = { before with carry := res.2.carry, overflow := res.2.overflow }

/-- The product of two signed numbers, each at most half of the range in size. -/
theorem natAbs_product_le (src1 src2 : BitVec w) : (src1.toInt * src2.toInt).natAbs ≤ 2 ^ (w - 1) * 2 ^ (w - 1) := by
  have hsize : ∀ src : BitVec w, src.toInt.natAbs ≤ 2 ^ (w - 1) := by
    intro src
    have hlow := src.le_toInt
    have hhigh := src.toInt_lt
    have hcast : (2 : Int) ^ (w - 1) = (2 ^ (w - 1) : Nat) := by rw [Int.natCast_pow]; rfl
    rw [hcast] at hlow hhigh
    generalize 2 ^ (w - 1) = H at *
    omega
  rw [Int.natAbs_mul]
  exact Nat.mul_le_mul (hsize src1) (hsize src2)

/-- A signed multiplication in the type of twice the width loses nothing. -/
theorem imulDouble_isSignedProduct (hw : 0 < w) (src1 src2 : BitVec w) (flags : Flags) :
    IsSignedProduct flags src1 src2 (imulDouble src1 src2 flags) := by
  have hrange := natAbs_product_le src1 src2
  have htmp : src1.signExtend (2 * w) * src2.signExtend (2 * w) = BitVec.ofInt (2 * w) (src1.toInt * src2.toInt) := by
    rw [BitVec.ofInt_mul, ← BitVec.toInt_signExtend_of_le (by omega : w ≤ 2 * w), BitVec.ofInt_toInt,
      ← BitVec.toInt_signExtend_of_le (x := src2) (by omega : w ≤ 2 * w), BitVec.ofInt_toInt]
  unfold imulDouble
  simp only [htmp]
  generalize hp : src1.toInt * src2.toInt = p at *
  have hhalf := two_mul_half hw
  have hpos := Nat.two_pow_pos (w - 1)
  have hmul := Nat.mul_pos hpos hpos
  have hwide : 2 ^ (2 * w) = 4 * (2 ^ (w - 1) * 2 ^ (w - 1)) := by
    rw [Nat.two_mul, Nat.pow_add, ← hhalf]
    ring
  have htoInt : (BitVec.ofInt (2 * w) p).toInt = p := by
    rw [BitVec.toInt_ofInt, hwide]
    exact (Int.bmod_eq_iff (by omega)).2 ⟨by omega, by omega, ⟨0, by omega⟩⟩
  have hupper : (BitVec.ofInt w (p / (2 ^ w : Nat))).toInt = p / (2 ^ w : Nat) := by
    have hlow : -((2 ^ (w - 1) : Nat) : Int) ≤ p / (2 ^ w : Nat) := by
      rw [Int.le_ediv_iff_mul_le (by omega), Int.neg_mul, ← Int.natCast_mul, ← hhalf, Nat.mul_left_comm]
      omega
    have hhigh : p / (2 ^ w : Nat) < (2 ^ (w - 1) : Nat) := by
      rw [Int.ediv_lt_iff_lt_mul (by omega), ← Int.natCast_mul, ← hhalf, Nat.mul_left_comm]
      omega
    rw [BitVec.toInt_ofInt]
    refine (Int.bmod_eq_iff (by omega)).2 ⟨?_, ?_, ⟨0, by omega⟩⟩
    · generalize p / ((2 ^ w : Nat) : Int) = q at *
      omega
    · generalize p / ((2 ^ w : Nat) : Int) = q at *
      omega
  have hfits : BitVec.ofInt (2 * w) p ≠ (BitVec.ofInt w p).signExtend (2 * w) ↔
      ¬ (-2 ^ (w - 1) ≤ p ∧ p < 2 ^ (w - 1)) := by
    have hcast : (2 : Int) ^ (w - 1) = (2 ^ (w - 1) : Nat) := by rw [Int.natCast_pow]; rfl
    refine not_congr ?_
    rw [← BitVec.toInt_inj, htoInt, BitVec.toInt_signExtend_of_le (by omega), BitVec.toInt_ofInt, eq_comm,
      Int.bmod_eq_iff (Nat.two_pow_pos w), hcast]
    generalize 2 ^ (w - 1) = H at *
    exact ⟨fun h => by omega, fun h => ⟨by omega, by omega, ⟨0, by omega⟩⟩⟩
  refine ⟨?_, ?_, rfl, rfl⟩
  · rw [sshiftRight_ofInt w htoInt, setWidth_ofInt (by omega), setWidth_ofInt (by omega), hupper, hp, BitVec.toNat_ofInt,
      Int.toNat_of_nonneg (Int.emod_nonneg _ (by omega))]
    have hdiv := Int.ediv_mul_add_emod p (2 ^ w : Nat)
    rw [Int.natCast_pow] at *
    exact hdiv
  · rw [hp, setWidth_ofInt (by omega)]
    exact decide_eq_decide.2 hfits

/-- The size of a signed number that is not zero, computed by a negation that wraps. -/
theorem magnitude_eq {src : BitVec 64} (hsrc : src ≠ 0) :
    ((if decide (src.toInt < 0) then -src else src).toNat : Int) = if src.toInt < 0 then -src.toInt else src.toInt := by
  have hcases := toInt_cases (by decide) src
  have hlt := src.isLt
  have hzero : src.toNat ≠ 0 := fun h => hsrc (BitVec.eq_of_toNat_eq h)
  by_cases hneg : src.toInt < 0
  · rw [decide_eq_true hneg, if_pos rfl, if_pos hneg, BitVec.toNat_neg]
    omega
  · rw [decide_eq_false hneg, if_neg hneg]
    simp only [Bool.false_eq_true, if_false]
    omega

/-- The sign of a product, applied to its size. -/
theorem mul_eq_signed {x y : Int} {m n : Nat} (hx : (m : Int) = if x < 0 then -x else x) (hy : (n : Int) = if y < 0 then -y else y) :
    x * y = if decide (x < 0) ≠ decide (y < 0) then -((m * n : Nat) : Int) else ((m * n : Nat) : Int) := by
  rw [Int.natCast_mul, hx, hy]
  by_cases hxneg : x < 0
  · by_cases hyneg : y < 0
    · simp [hxneg, hyneg]
    · simp [hxneg, hyneg]
  · by_cases hyneg : y < 0
    · simp [hxneg, hyneg]
    · simp [hxneg, hyneg]

/-- The product fits the lower half where the upper half is the extension of the lower one's sign. -/
theorem IsSignedProduct.of_value {before mid : Flags} {src1 src2 upper lower : BitVec 64}
    (h : upper.toInt * 2 ^ 64 + lower.toNat = src1.toInt * src2.toInt)
    (hmid : mid = { before with carry := mid.carry, overflow := mid.overflow }) :
    IsSignedProduct before src1 src2 ((upper, lower), { mid with
      carry := decide ((lower.toInt < 0 ∧ upper ≠ BitVec.allOnes 64) ∨ (0 ≤ lower.toInt ∧ upper ≠ 0))
      overflow := decide ((lower.toInt < 0 ∧ upper ≠ BitVec.allOnes 64) ∨ (0 ≤ lower.toInt ∧ upper ≠ 0)) }) := by
  refine ⟨h, ?_, rfl, by rw [hmid]⟩
  have hupper := toInt_cases (by decide) upper
  have hlower := toInt_cases (by decide) lower
  have hult := upper.isLt
  have hllt := lower.isLt
  have hones : upper ≠ BitVec.allOnes 64 ↔ upper.toNat ≠ 2 ^ 64 - 1 := not_congr (eq_allOnes_iff upper)
  have hzero : upper ≠ 0 ↔ upper.toNat ≠ 0 := BitVec.toNat_ne
  rw [decide_eq_decide, ← h, hones, hzero]
  omega

theorem imul64_isSignedProduct (src1 src2 : BitVec 64) (flags : Flags) :
    IsSignedProduct flags src1 src2 (imul64 src1 src2 flags) := by
  unfold imul64
  split
  · next hzero =>
    have hprod : src1.toInt * src2.toInt = 0 := by
      rcases hzero with rfl | rfl
      · exact Int.zero_mul _
      · exact Int.mul_zero _
    exact ⟨by simp [hprod], by simp [hprod], rfl, rfl⟩
  · next hzero =>
    rw [not_or] at hzero
    have hm := magnitude_eq hzero.1
    have hn := magnitude_eq hzero.2
    have hsigned := mul_eq_signed hm hn
    obtain ⟨u1, hu1⟩ : ∃ u1, u1 = if decide (src1.toInt < 0) then -src1 else src1 := ⟨_, rfl⟩
    obtain ⟨u2, hu2⟩ : ∃ u2, u2 = if decide (src2.toInt < 0) then -src2 else src2 := ⟨_, rfl⟩
    rw [← hu1] at hm hsigned
    rw [← hu2] at hn hsigned
    simp only [← hu1, ← hu2]
    obtain ⟨ures, hures⟩ : ∃ ures, ures = mul64 u1 u2 flags := ⟨_, rfl⟩
    have hproduct := mul64_isProduct u1 u2 flags
    rw [← hures] at hproduct ⊢
    have hvalue := hproduct.value
    have hupper := toInt_cases (by decide) ures.1.1
    have hult := ures.1.1.isLt
    have hllt := ures.1.2.isLt
    -- neither size is above that of the least number
    have hle : u1.toNat * u2.toNat ≤ 2 ^ 63 * 2 ^ 63 := by
      have h1 := src1.le_toInt
      have h2 := src2.le_toInt
      have h1' := src1.toInt_lt
      have h2' := src2.toInt_lt
      exact Nat.mul_le_mul (by omega) (by omega)
    generalize u1.toNat * u2.toNat = product at *
    split
    · next hdiffer =>
      have hcarry : ∀ carry : Bool, ((BitVec.ofBool carry).setWidth 64).toNat = carry.toNat := by decide
      refine .of_value ?_ hproduct.rest
      rw [if_pos hdiffer] at hsigned
      rw [hsigned]
      have hupper' := toInt_cases (by decide) (~~~ures.1.1 + (BitVec.ofBool (ures.1.2 = 0)).setWidth 64)
      by_cases hl : ures.1.2 = 0
      · rw [decide_eq_true hl, BitVec.toNat_add, BitVec.toNat_not, hcarry] at hupper'
        rw [decide_eq_true hl, BitVec.toNat_neg]
        have hl' : ures.1.2.toNat = 0 := by simp [hl]
        simp only [Bool.toNat_true] at hupper'
        omega
      · rw [decide_eq_false hl, BitVec.toNat_add, BitVec.toNat_not, hcarry] at hupper'
        rw [decide_eq_false hl, BitVec.toNat_neg]
        have hl' : ures.1.2.toNat ≠ 0 := fun h => hl (BitVec.eq_of_toNat_eq h)
        simp only [Bool.toNat_false] at hupper'
        omega
    · next hsame =>
      refine .of_value ?_ hproduct.rest
      rw [if_neg hsame] at hsigned
      rw [hsigned]
      omega

/-! ## Quotients -/

theorem toNat_dividend (upper lower : BitVec w) : (dividend upper lower).toNat = upper.toNat * 2 ^ w + lower.toNat := by
  have hlt : upper.toNat * 2 ^ w < 2 ^ (2 * w) := by
    rw [Nat.two_mul, Nat.pow_add]
    exact Nat.mul_lt_mul_of_pos_right upper.isLt (Nat.two_pow_pos w)
  rw [dividend, BitVec.toNat_or, BitVec.toNat_shiftLeft, BitVec.toNat_setWidth_of_le (by omega),
    BitVec.toNat_setWidth_of_le (by omega), Nat.shiftLeft_eq, Nat.mod_eq_of_lt hlt, ← Nat.shiftLeft_eq,
    ← Nat.shiftLeft_add_eq_or_of_lt lower.isLt]

/-- The division gives the quotient and the remainder. -/
def IsQuotient (upper lower divisor : BitVec w) (res : Except CpuFailure (BitVec w × BitVec w)) : Prop :=
  ∃ quotient remainder, res = .ok (quotient, remainder) ∧
    upper.toNat * 2 ^ w + lower.toNat = quotient.toNat * divisor.toNat + remainder.toNat ∧ remainder.toNat < divisor.toNat

/-- The host's quotient and remainder, cut down to the width, are those of the division where the quotient fits. -/
theorem isQuotient_of_fits {upper lower divisor : BitVec w} (hdivisor : divisor ≠ 0)
    (hfits : (upper.toNat * 2 ^ w + lower.toNat) / divisor.toNat < 2 ^ w) :
    IsQuotient upper lower divisor (.ok ((dividend upper lower / divisor.setWidth (2 * w)).setWidth w,
      (dividend upper lower % divisor.setWidth (2 * w)).setWidth w)) := by
  have hpos : 0 < divisor.toNat := Nat.pos_of_ne_zero fun h => hdivisor (BitVec.eq_of_toNat_eq h)
  refine ⟨_, _, rfl, ?_, ?_⟩
  · rw [BitVec.toNat_setWidth, BitVec.toNat_setWidth, BitVec.toNat_udiv, BitVec.toNat_umod, toNat_dividend,
      BitVec.toNat_setWidth_of_le (by omega), Nat.mod_eq_of_lt hfits,
      Nat.mod_eq_of_lt (Nat.lt_trans (Nat.mod_lt _ hpos) divisor.isLt)]
    exact (Nat.div_add_mod' _ _).symm
  · rw [BitVec.toNat_setWidth, BitVec.toNat_umod, toNat_dividend, BitVec.toNat_setWidth_of_le (by omega),
      Nat.mod_eq_of_lt (Nat.lt_trans (Nat.mod_lt _ hpos) divisor.isLt)]
    exact Nat.mod_lt _ hpos

theorem divDouble_isQuotient {upper lower divisor : BitVec w} (hdivisor : divisor ≠ 0)
    (hfits : (upper.toNat * 2 ^ w + lower.toNat) / divisor.toNat < 2 ^ w) :
    IsQuotient upper lower divisor (divDouble upper lower divisor) := by
  have hupper : (dividend upper lower / divisor.setWidth (2 * w)) >>> w = 0 := by
    apply BitVec.eq_of_toNat_eq
    rw [BitVec.toNat_ushiftRight, BitVec.toNat_udiv, toNat_dividend, BitVec.toNat_setWidth_of_le (by omega),
      Nat.shiftRight_eq_div_pow, Nat.div_eq_of_lt hfits]
    rfl
  have hchecked : check (divisor ≠ 0) CpuFailure.assertion = .ok () := check_eq_ok.2 hdivisor
  have hfit : check ((dividend upper lower / divisor.setWidth (2 * w)) >>> w = 0) CpuFailure.assertion = .ok () :=
    check_eq_ok.2 hupper
  unfold divDouble
  rw [hchecked]
  simp only [hfit]
  exact isQuotient_of_fits hdivisor hfits

theorem div64_isQuotient {upper lower divisor : BitVec 64} (hdivisor : divisor ≠ 0)
    (hfits : (upper.toNat * 2 ^ 64 + lower.toNat) / divisor.toNat < 2 ^ 64) :
    IsQuotient upper lower divisor (div64 upper lower divisor) := by
  have hchecked : check (divisor ≠ 0) CpuFailure.assertion = .ok () := check_eq_ok.2 hdivisor
  unfold div64
  rw [hchecked]
  exact isQuotient_of_fits hdivisor hfits

/-- Multiplications return the exact product in their halves, and say whether the lower half holds it; a division whose quotient
fits returns the quotient and the remainder. -/
theorem products_and_quotients_exact :
    (∀ width src1 src2 flags, IsProduct flags src1 src2 (mul width src1 src2 flags)) ∧
    (∀ src1 src2 flags, IsSignedProduct flags src1 src2 (imul16 src1 src2 flags)) ∧
    (∀ src1 src2 flags, IsSignedProduct flags src1 src2 (imul32 src1 src2 flags)) ∧
    (∀ src1 src2 flags, IsSignedProduct flags src1 src2 (imul64 src1 src2 flags)) ∧
    (∀ (width : OperandWidth) (upper lower divisor : BitVec width.bits), divisor ≠ 0 →
      (upper.toNat * 2 ^ width.bits + lower.toNat) / divisor.toNat < 2 ^ width.bits →
      IsQuotient upper lower divisor (div width upper lower divisor)) := by
  refine ⟨?_, imulDouble_isSignedProduct (by decide), imulDouble_isSignedProduct (by decide), imul64_isSignedProduct, ?_⟩
  · intro width src1 src2 flags
    cases width with
    | u8 | u16 | u32 => exact mulDouble_isProduct src1 src2 flags
    | u64 => exact mul64_isProduct src1 src2 flags
  · intro width upper lower divisor hdivisor hfits
    cases width with
    | u8 | u16 | u32 => exact divDouble_isQuotient hdivisor hfits
    | u64 => exact div64_isQuotient hdivisor hfits

/-- The largest dividend whose quotient fits, divided by the largest divisor. -/
theorem products_and_quotients_exact_largest :
    IsQuotient (BitVec.allOnes 64 - 1) (BitVec.allOnes 64) (BitVec.allOnes 64)
      (div64 (BitVec.allOnes 64 - 1) (BitVec.allOnes 64) (BitVec.allOnes 64)) :=
  products_and_quotients_exact.2.2.2.2 .u64 _ _ _ (show BitVec.allOnes 64 ≠ 0 by decide)
    (show ((BitVec.allOnes 64 - 1).toNat * 2 ^ 64 + (BitVec.allOnes 64).toNat) / (BitVec.allOnes 64).toNat < 2 ^ 64 by decide)

end CpuImpl

end X64Emulator
