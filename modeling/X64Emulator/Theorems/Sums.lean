import X64Emulator.CpuImpl
import X64Emulator.Lib.Wrapping

/-!
# Sums and differences

An addition or a subtraction of the CPU computes with wrapped values, and finds out from them what the exact result would have
been. The exact result is an integer: `Reports` says which value and which flags it gives.
-/

namespace X64Emulator

namespace CpuImpl

open Wrapping

variable {w : Nat}

/-- The value and the flags that an operation leaves are those of its exact unsigned and signed results. -/
structure Reports (before : Flags) (res : BitVec w) (after : Flags) (unsigned signed : Int) : Prop where
  value : (res.toNat : Int) = unsigned % 2 ^ w
  carry : after.carry = decide (¬ (0 ≤ unsigned ∧ unsigned < 2 ^ w))
  overflow : after.overflow = decide (¬ (-2 ^ (w - 1) ≤ signed ∧ signed < 2 ^ (w - 1)))
  sign : after.sign = decide (res.toInt < 0)
  zero : after.zero = decide (res.toNat = 0)
  parity : after.parity = decide (Flags.bitCount (res.setWidth 8) % 2 = 0)
  direction : after.direction = before.direction
  identification : after.identification = before.identification

/-- The exact result of an operation, of the operands as unsigned or as signed integers. -/
def SumOp.exact (op : SumOp) (dst src : Int) (carry : Bool) : Int :=
  match op with
  | .add => dst + src
  | .adc => dst + src + carry.toInt
  | .sub => dst - src
  | .sbb => dst - src - carry.toInt

theorem carryBit_toNat (hw : 0 < w) (carry : Bool) : ((BitVec.ofBool carry).setWidth w).toNat = carry.toNat := by
  cases carry
  · simp
  · simpa using hw

/-- What is left to show of an operation that returns its exact unsigned result wrapped. -/
theorem Reports.of_wrapped {before after : Flags} {res : BitVec w} {unsigned signed : Int} (hres : res = BitVec.ofInt w unsigned)
    (hcarry : after.carry = decide (¬ (0 ≤ unsigned ∧ unsigned < (2 ^ w : Nat))))
    (hoverflow : after.overflow = decide (¬ (-(2 ^ (w - 1) : Nat) ≤ signed ∧ signed < (2 ^ (w - 1) : Nat))))
    (hsign : after.sign = decide ((BitVec.ofInt w unsigned).toInt < 0)) (hzero : after.zero = decide (res = 0))
    (hparity : after.parity = Flags.computeParity (res.setWidth 8)) (hdirection : after.direction = before.direction)
    (hidentification : after.identification = before.identification) : Reports before res after unsigned signed where
  value := by
    have hpos := Nat.two_pow_pos w
    rw [hres, BitVec.toNat_ofInt, Int.toNat_of_nonneg (Int.emod_nonneg _ (by omega)), Int.natCast_pow]
    rfl
  carry := by rw [hcarry, Int.natCast_pow]; rfl
  overflow := by rw [hoverflow, Int.natCast_pow]; rfl
  sign := by rw [hsign, ← hres]
  zero := by simp [hzero, BitVec.toNat_eq]
  parity := hparity.trans (Flags.computeParity_eq _).1
  direction := hdirection
  identification := hidentification

theorem add_reports (hw : 0 < w) (dst src : BitVec w) (flags : Flags) :
    Reports flags (add dst src flags).1 (add dst src flags).2 (dst.toNat + src.toNat) (dst.toInt + src.toInt) := by
  have hres : dst + src = BitVec.ofInt w (dst.toNat + src.toNat) := by
    rw [BitVec.ofInt_add, ofInt_toNat, ofInt_toNat]
  have hsigned : BitVec.ofInt w (dst.toNat + src.toNat) = BitVec.ofInt w (dst.toInt + src.toInt) := by
    rw [← hres, BitVec.ofInt_add, BitVec.ofInt_toInt, BitVec.ofInt_toInt]
  have hdst := toInt_cases hw dst
  have hsrc := toInt_cases hw src
  have hhalf := two_mul_half hw
  have hdlt := dst.isLt
  have hslt := src.isLt
  refine .of_wrapped hres ?_ ?_ rfl rfl rfl rfl rfl
  · simp only [add, decide_eq_decide]
    rw [BitVec.allOnes_sub_eq_not, BitVec.lt_def, BitVec.toNat_not]
    generalize 2 ^ w = N at *
    omega
  · simp only [add, decide_eq_decide]
    rw [hsigned]
    have hcases := toInt_ofInt_cases hw (dst.toInt + src.toInt) (by generalize 2 ^ (w - 1) = H at *; omega)
      (by generalize 2 ^ (w - 1) = H at *; omega)
    generalize 2 ^ (w - 1) = H at *
    omega

theorem adc_reports (hw : 0 < w) (dst src : BitVec w) (flags : Flags) :
    Reports flags (adc dst src flags).1 (adc dst src flags).2 (dst.toNat + src.toNat + flags.carry.toInt)
      (dst.toInt + src.toInt + flags.carry.toInt) := by
  obtain ⟨c, hc⟩ : ∃ c, c = (BitVec.ofBool flags.carry).setWidth w := ⟨_, rfl⟩
  have hcarry := carryBit_toNat hw flags.carry
  rw [← hc] at hcarry
  have hres : dst + src + c = BitVec.ofInt w (dst.toNat + src.toNat + c.toNat) := by
    rw [BitVec.ofInt_add, BitVec.ofInt_add, ofInt_toNat, ofInt_toNat, ofInt_toNat]
  have hsigned : BitVec.ofInt w (dst.toNat + src.toNat + c.toNat) = BitVec.ofInt w (dst.toInt + src.toInt + c.toNat) := by
    rw [← hres, BitVec.ofInt_add, BitVec.ofInt_add, BitVec.ofInt_toInt, BitVec.ofInt_toInt, ofInt_toNat]
  have hbit : (c.toNat : Int) = flags.carry.toInt := by
    rw [hcarry]
    cases flags.carry <;> rfl
  have hle := Bool.toNat_le flags.carry
  have hdst := toInt_cases hw dst
  have hsrc := toInt_cases hw src
  have hhalf := two_mul_half hw
  have hdlt := dst.isLt
  have hslt := src.isLt
  rw [← hbit]
  refine .of_wrapped (by simp only [adc, ← hc]; exact hres) ?_ ?_ (by simp only [adc, ← hc]) rfl rfl rfl rfl
  · simp only [adc, ← hc, decide_eq_decide]
    rw [BitVec.allOnes_sub_eq_not, BitVec.lt_def, BitVec.toNat_not, BitVec.toNat_add, eq_one_iff hw, eq_allOnes_iff]
    have hwrap := add_carry_mod hslt (hcarry ▸ hle)
    generalize 2 ^ w = N at *
    omega
  · simp only [adc, ← hc, decide_eq_decide]
    rw [hsigned]
    have hcases := toInt_ofInt_cases hw (dst.toInt + src.toInt + c.toNat) (by generalize 2 ^ (w - 1) = H at *; omega)
      (by generalize 2 ^ (w - 1) = H at *; omega)
    generalize 2 ^ (w - 1) = H at *
    omega

theorem sub_reports (hw : 0 < w) (dst src : BitVec w) (flags : Flags) :
    Reports flags (sub dst src flags).1 (sub dst src flags).2 (dst.toNat - src.toNat) (dst.toInt - src.toInt) := by
  have hres : dst - src = BitVec.ofInt w (dst.toNat - src.toNat) := by
    rw [ofInt_sub, ofInt_toNat, ofInt_toNat]
  have hsigned : BitVec.ofInt w (dst.toNat - src.toNat) = BitVec.ofInt w (dst.toInt - src.toInt) := by
    rw [← hres, ofInt_sub, BitVec.ofInt_toInt, BitVec.ofInt_toInt]
  have hdst := toInt_cases hw dst
  have hsrc := toInt_cases hw src
  have hhalf := two_mul_half hw
  have hdlt := dst.isLt
  have hslt := src.isLt
  refine .of_wrapped hres ?_ ?_ rfl rfl rfl rfl rfl
  · simp only [sub, decide_eq_decide]
    rw [BitVec.lt_def]
    generalize 2 ^ w = N at *
    omega
  · simp only [sub, decide_eq_decide]
    rw [hsigned]
    have hcases := toInt_ofInt_cases hw (dst.toInt - src.toInt) (by generalize 2 ^ (w - 1) = H at *; omega)
      (by generalize 2 ^ (w - 1) = H at *; omega)
    generalize 2 ^ (w - 1) = H at *
    omega

theorem toNat_promote (val : BitVec w) : (promote val).toNat = val.toNat :=
  BitVec.toNat_setWidth_of_le (Nat.le_max_left w 32)

theorem sbb_reports (hw : 0 < w) (dst src : BitVec w) (flags : Flags) :
    Reports flags (sbb dst src flags).1 (sbb dst src flags).2 (dst.toNat - src.toNat - flags.carry.toInt)
      (dst.toInt - src.toInt - flags.carry.toInt) := by
  obtain ⟨c, hc⟩ : ∃ c, c = (BitVec.ofBool flags.carry).setWidth w := ⟨_, rfl⟩
  have hcarry := carryBit_toNat hw flags.carry
  rw [← hc] at hcarry
  have hres : dst - (src + c) = BitVec.ofInt w (dst.toNat - src.toNat - c.toNat) := by
    rw [Int.sub_sub, ofInt_sub, BitVec.ofInt_add, ofInt_toNat, ofInt_toNat, ofInt_toNat]
  -- the subtrahend is wrapped before it is subtracted
  have hwrapped : BitVec.ofInt w (dst.toNat - (BitVec.ofInt w (src.toNat + c.toNat)).toInt) =
      BitVec.ofInt w (dst.toNat - src.toNat - c.toNat) := by
    rw [← hres, ofInt_sub, BitVec.ofInt_toInt, BitVec.ofInt_add, ofInt_toNat, ofInt_toNat, ofInt_toNat]
  have hsigned : BitVec.ofInt w (dst.toNat - src.toNat - c.toNat) = BitVec.ofInt w (dst.toInt - src.toInt - c.toNat) := by
    rw [← hres, ofInt_sub, ofInt_sub, BitVec.ofInt_toInt, BitVec.ofInt_toInt, ofInt_toNat, BitVec.sub_sub]
  have hbit : (c.toNat : Int) = flags.carry.toInt := by
    rw [hcarry]
    cases flags.carry <;> rfl
  have hle := Bool.toNat_le flags.carry
  have hdst := toInt_cases hw dst
  have hsrc := toInt_cases hw src
  have hhalf := two_mul_half hw
  have hdlt := dst.isLt
  have hslt := src.isLt
  rw [← hbit]
  refine .of_wrapped (by simp only [sbb, ← hc]; exact hres) ?_ ?_ (by simp only [sbb, ← hc, hwrapped]) rfl rfl rfl rfl
  · simp only [sbb, ← hc, decide_eq_decide]
    rw [BitVec.lt_def, BitVec.toNat_add, toNat_promote, toNat_promote, toNat_promote, eq_one_iff hw, eq_allOnes_iff]
    have hpromoted : 2 ^ w ≤ 2 ^ promoted w := Nat.pow_le_pow_right (by omega) (Nat.le_max_left w 32)
    have hwrap := add_carry_mod (Nat.lt_of_lt_of_le hslt hpromoted) (hcarry ▸ hle)
    generalize 2 ^ promoted w = P at *
    generalize 2 ^ w = N at *
    omega
  · simp only [sbb, ← hc, hwrapped, decide_eq_decide]
    rw [hsigned]
    have hcases := toInt_ofInt_cases hw (dst.toInt - src.toInt - c.toNat) (by generalize 2 ^ (w - 1) = H at *; omega)
      (by generalize 2 ^ (w - 1) = H at *; omega)
    generalize 2 ^ (w - 1) = H at *
    omega

/-- Every addition and subtraction of the CPU gives the value and the flags of its exact results. -/
theorem sums_exact (op : SumOp) (width : OperandWidth) (dst src : BitVec width.bits) (flags : Flags) :
    Reports flags (op.run width dst src flags).1 (op.run width dst src flags).2 (op.exact dst.toNat src.toNat flags.carry)
      (op.exact dst.toInt src.toInt flags.carry) := by
  cases op with
  | add => cases width <;> exact add_reports (by decide) dst src flags
  | adc => cases width <;> exact adc_reports (by decide) dst src flags
  | sub => cases width <;> exact sub_reports (by decide) dst src flags
  | sbb => cases width <;> exact sbb_reports (by decide) dst src flags

end CpuImpl

end X64Emulator
