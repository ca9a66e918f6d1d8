import X64Emulator.CpuImpl
import X64Emulator.Lib.Bits
import X64Emulator.Lib.Wrapping

/-!
# Shifts

A shift moves a value by the count that the architecture masks. Where that count is not zero, the carry flag becomes the bit
that the last move by one place takes out, and the other flags report the value. The source tests that bit with a mask of its
own in each template, and some of the masks are wrong: the counts for which each template is right are exactly given.
-/

namespace X64Emulator

namespace CpuImpl

open Bits Wrapping Outcome

variable {w : Nat}

/-- The flags that a shift by a count leaves, given its value and the last bit that it takes out. -/
structure ShiftFlags (before after : Flags) (value : BitVec w) (lastOut : Bool) (count : Nat) : Prop where
  unchanged : count = 0 → after = before
  carry : count ≠ 0 → after.carry = lastOut
  sign : count ≠ 0 → after.sign = value.msb
  zero : count ≠ 0 → after.zero = decide (value = 0)
  parity : count ≠ 0 → after.parity = decide (Flags.bitCount (value.setWidth 8) % 2 = 0)

/-- The shift does not fail, and it leaves its value and its flags. -/
def IsShift (before : Flags) (value : BitVec w) (lastOut : Bool) (count : Nat) (res : Except CpuFailure (BitVec w × Flags)) : Prop :=
  ∃ after, res = .ok (value, after) ∧ ShiftFlags before after value lastOut count

theorem not_isShift_error {before : Flags} {value : BitVec w} {lastOut : Bool} {count : Nat} {e : CpuFailure} :
    ¬ IsShift before value lastOut count (.error e) := by
  rintro ⟨after, hres, -⟩
  cases hres

/-- The value of a shift by the masked count. -/
def ShiftOp.value (op : ShiftOp) (dst : BitVec w) (count : Nat) : BitVec w :=
  match op with
  | .shl => dst <<< count
  | .shr => dst >>> count
  | .sar => dst.sshiftRight count

/-- The bit that the last of the moves takes out. -/
def ShiftOp.lastOut (op : ShiftOp) (dst : BitVec w) (count : Nat) : Bool :=
  match op with
  | .shl => (dst <<< (count - 1)).msb
  | .shr => (dst >>> (count - 1)).getLsbD 0
  | .sar => (dst.sshiftRight (count - 1)).getLsbD 0

/-- The counts that a template can shift by: the mask of `shl` for the carry must exist, and `sar` asserts that its count is
below the width. -/
def ShiftOp.Shifts (op : ShiftOp) (w count : Nat) : Prop :=
  match op with
  | .shl => count ≤ w
  | .shr => True
  | .sar => count < w

theorem toNat_srcMask (width : OperandWidth) (src : BitVec width.bits) :
    (src &&& srcMask width.bits).toNat = maskedCount width.bits src.toNat := by
  rw [BitVec.toNat_and]
  cases width with
  | u8 | u16 | u32 => exact Nat.and_two_pow_sub_one_eq_mod src.toNat 5
  | u64 => exact Nat.and_two_pow_sub_one_eq_mod src.toNat 6

theorem and_srcMask_eq_zero_iff (width : OperandWidth) (src : BitVec width.bits) :
    src &&& srcMask width.bits = 0 ↔ maskedCount width.bits src.toNat = 0 := by
  rw [← toNat_srcMask, BitVec.toNat_eq]
  rfl

/-- The mask of one bit, of a promoted value. -/
theorem decide_and_mask (dst : BitVec w) (hw : 0 < w) (n : Nat) :
    decide (promote dst &&& promote (1 : BitVec w) <<< n ≠ 0) = dst.getLsbD n := by
  rw [promote_one hw, decide_and_bit, promote, BitVec.getLsbD_setWidth]
  by_cases hn : n < w
  · simp [show n < promoted w by have := le_promoted w; omega]
  · simp [BitVec.getLsbD_of_ge dst n (by omega)]

theorem signBit_eq (val : BitVec w) : signBit val = val.msb := decide_and_top val

/-- The flags that a template sets from its value and its carry. -/
theorem shiftFlags_of_carry {before after : Flags} {value : BitVec w} {lastOut : Bool} {count : Nat} (hcount : count ≠ 0)
    (hcarry : after.carry = lastOut) (hsign : after.sign = signBit value) (hzero : after.zero = decide (value = 0))
    (hparity : after.parity = Flags.computeParity (value.setWidth 8)) : ShiftFlags before after value lastOut count where
  unchanged h := absurd h hcount
  carry _ := hcarry
  sign _ := hsign.trans (signBit_eq value)
  zero _ := hzero
  parity _ := hparity.trans (Flags.computeParity_eq _).1

theorem shiftFlags_refl {flags : Flags} {value : BitVec w} {lastOut : Bool} : ShiftFlags flags flags value lastOut 0 where
  unchanged _ := rfl
  carry h := absurd rfl h
  sign h := absurd rfl h
  zero h := absurd rfl h
  parity h := absurd rfl h

theorem msb_shiftLeft_pred (dst : BitVec w) {count : Nat} (hcount : count ≠ 0) (hle : count ≤ w) :
    (dst <<< (count - 1)).msb = dst.getLsbD (w - count) := by
  rw [BitVec.msb_eq_getLsbD_last, BitVec.getLsbD_shiftLeft]
  have h1 : w - 1 < w := by omega
  have h2 : ¬ w - 1 < count - 1 := by omega
  have h3 : w - 1 - (count - 1) = w - count := by omega
  simp [h1, h2, h3]

/-- `shl` needs a mask for the bit that it takes out last. -/
theorem shl_isShift_iff (width : OperandWidth) (dst src : BitVec width.bits) (flags : Flags) :
    IsShift flags (dst <<< maskedCount width.bits src.toNat) (dst <<< (maskedCount width.bits src.toNat - 1)).msb
      (maskedCount width.bits src.toNat) (shl dst src flags) ↔ maskedCount width.bits src.toNat ≤ width.bits := by
  have hmask := toNat_srcMask width src
  have hsrc := and_srcMask_eq_zero_iff width src
  have hlt := maskedCount_lt width src.toNat
  have hw : 0 < width.bits := by cases width <;> decide
  have hwide : width.bits ≤ 64 := by cases width <;> decide
  generalize maskedCount width.bits src.toNat = count at *
  unfold shl
  generalize src &&& srcMask width.bits = src at *
  have hvalue : (promote dst <<< count).setWidth width.bits = dst <<< count :=
    setWidth_shiftLeft_setWidth (le_promoted _) dst count
  simp only [hmask, hostShl_of_lt (promote dst) hlt, ok_bind, hvalue, hsrc]
  by_cases hcount : count = 0
  · subst hcount
    exact iff_of_true ⟨flags, by simp, shiftFlags_refl⟩ (Nat.zero_le _)
  · rw [if_neg hcount]
    have hpromoted := le_promoted width.bits
    by_cases hle : count ≤ width.bits
    · have hsub : X64Emulator.sub64 width.bits count = width.bits - count := by
        unfold X64Emulator.sub64 u64
        omega
      rw [hsub, hostShl_of_lt _ (by omega), ok_bind]
      refine iff_of_true ⟨_, rfl, shiftFlags_of_carry hcount ?_ rfl rfl rfl⟩ hle
      exact (decide_and_mask dst hw _).trans (msb_shiftLeft_pred dst hcount hle).symm
    · have hsub : promoted width.bits ≤ X64Emulator.sub64 width.bits count := by
        unfold X64Emulator.sub64 u64 promoted at *
        omega
      rw [hostShl_of_le _ hsub, error_bind]
      exact iff_of_false not_isShift_error hle

theorem getLsbD_shiftRight_pred (dst : BitVec w) {count : Nat} : (dst >>> (count - 1)).getLsbD 0 = dst.getLsbD (count - 1) := by
  rw [BitVec.getLsbD_ushiftRight, Nat.add_zero]

theorem shr_isShift (width : OperandWidth) (dst src : BitVec width.bits) (flags : Flags) :
    IsShift flags (dst >>> maskedCount width.bits src.toNat) ((dst >>> (maskedCount width.bits src.toNat - 1)).getLsbD 0)
      (maskedCount width.bits src.toNat) (shr dst src flags) := by
  have hmask := toNat_srcMask width src
  have hsrc := and_srcMask_eq_zero_iff width src
  have hlt := maskedCount_lt width src.toNat
  have hw : 0 < width.bits := by cases width <;> decide
  generalize maskedCount width.bits src.toNat = count at *
  unfold shr
  generalize src &&& srcMask width.bits = src at *
  have hvalue : (promote dst >>> count).setWidth width.bits = dst >>> count :=
    setWidth_ushiftRight_setWidth (le_promoted _) dst count
  simp only [hmask, hostShr_of_lt (promote dst) hlt, ok_bind, hvalue, hsrc]
  by_cases hcount : count = 0
  · subst hcount
    exact ⟨flags, by simp, shiftFlags_refl⟩
  · rw [if_neg hcount, hostShl_of_lt _ (by omega), ok_bind]
    refine ⟨_, rfl, shiftFlags_of_carry hcount ?_ rfl rfl rfl⟩
    exact (decide_and_mask dst hw _).trans (getLsbD_shiftRight_pred dst).symm

/-- The mask of one bit, of a value that is promoted with its sign. -/
theorem decide_signExtend_and_mask (dst : BitVec w) {n : Nat} (hn : n < w) :
    decide (dst.signExtend (promoted w) &&& promote (1 : BitVec w) <<< n ≠ 0) = dst.getLsbD n := by
  have hpromoted := le_promoted w
  rw [promote_one (by omega), decide_and_bit, BitVec.getLsbD_signExtend]
  simp [hn, show n < promoted w by omega]

theorem getLsbD_sshiftRight_pred (dst : BitVec w) {count : Nat} (hcount : count - 1 < w) :
    (dst.sshiftRight (count - 1)).getLsbD 0 = dst.getLsbD (count - 1) := by
  rw [BitVec.getLsbD_sshiftRight]
  simp [hcount]
  omega

/-- `sar` asserts that its count is below the width. -/
theorem sar_isShift_iff (width : OperandWidth) (dst src : BitVec width.bits) (flags : Flags) :
    IsShift flags (dst.sshiftRight (maskedCount width.bits src.toNat))
      ((dst.sshiftRight (maskedCount width.bits src.toNat - 1)).getLsbD 0)
      (maskedCount width.bits src.toNat) (sar dst src flags) ↔ maskedCount width.bits src.toNat < width.bits := by
  have hmask := toNat_srcMask width src
  have hsrc := and_srcMask_eq_zero_iff width src
  have hlt := maskedCount_lt width src.toNat
  generalize maskedCount width.bits src.toNat = count at *
  unfold sar
  generalize src &&& srcMask width.bits = src at *
  have hvalue : ((dst.signExtend (promoted width.bits)).sshiftRight count).setWidth width.bits = dst.sshiftRight count :=
    setWidth_sshiftRight_signExtend (le_promoted _) dst count
  simp only [hmask, hostSar_of_lt _ hlt, ok_bind, hvalue, hsrc]
  by_cases hbelow : count < width.bits
  · rw [(check_eq_ok (u := ())).2 hbelow, ok_bind]
    refine iff_of_true ?_ hbelow
    by_cases hcount : count = 0
    · subst hcount
      exact ⟨flags, by simp, shiftFlags_refl⟩
    · rw [if_neg hcount, hostShl_of_lt _ (by omega), ok_bind]
      refine ⟨_, rfl, shiftFlags_of_carry hcount ?_ rfl rfl rfl⟩
      exact (decide_signExtend_and_mask dst (by omega)).trans (getLsbD_sshiftRight_pred dst (by omega)).symm
  · rw [check, if_neg hbelow, error_bind]
    exact iff_of_false not_isShift_error hbelow

/-! ## Shifts over two operands -/

/-- The value of a shift over two operands: one that is twice as long is shifted, and the part where `dst` stood is left. -/
def DoubleShiftOp.value (op : DoubleShiftOp) (dst src : BitVec w) (count : Nat) : BitVec w :=
  match op with
  | .shld => ((dst ++ src) <<< count).extractLsb' w w
  | .shrd => ((src ++ dst) >>> count).extractLsb' 0 w

/-- The bit of `dst` that the last of the moves takes out. -/
def DoubleShiftOp.lastOut (op : DoubleShiftOp) (dst : BitVec w) (count : Nat) : Bool :=
  match op with
  | .shld => (dst <<< (count - 1)).msb
  | .shrd => (dst >>> (count - 1)).getLsbD 0

/-- The position of that bit in `dst`. -/
def DoubleShiftOp.position (op : DoubleShiftOp) (w count : Nat) : Nat :=
  match op with
  | .shld => w - count
  | .shrd => count - 1

/-- The position serves as a mask: one of the bits of `dst` where the position has a one is set. -/
def TestsMask (dst : BitVec w) (position : Nat) : Prop := ∃ i, position.testBit i ∧ dst.getLsbD i

/-- The values for which the mask tells what the bit is. -/
def DoubleShiftOp.Shifts (op : DoubleShiftOp) (dst : BitVec w) (count : Nat) : Prop :=
  count = 0 ∨ (TestsMask dst (op.position w count) ↔ dst.getLsbD (op.position w count))

theorem shld_value (dst src : BitVec w) {count : Nat} (hcount : count < w) :
    ((dst ++ src) <<< count).extractLsb' w w = dst <<< count ||| src >>> (w - count) := by
  apply BitVec.eq_of_getLsbD_eq
  intro i hi
  rw [BitVec.getLsbD_extractLsb', BitVec.getLsbD_shiftLeft, BitVec.getLsbD_append, BitVec.getLsbD_or, BitVec.getLsbD_shiftLeft,
    BitVec.getLsbD_ushiftRight]
  by_cases hlow : i < count
  · have h1 : w - count + i < w := by omega
    have h2 : w + i - count = w - count + i := by omega
    simp [hi, hlow, h1, h2, show ¬ w + i < count by omega]
  · have h1 : ¬ w + i - count < w := by omega
    have h2 : w + i - count - w = i - count := by omega
    simp [hi, hlow, h1, h2, BitVec.getLsbD_of_ge src (w - count + i) (by omega), show ¬ w + i < count by omega]

theorem shrd_value (dst src : BitVec w) {count : Nat} (hcount : count < w) :
    ((src ++ dst) >>> count).extractLsb' 0 w = dst >>> count ||| src <<< (w - count) := by
  apply BitVec.eq_of_getLsbD_eq
  intro i hi
  rw [BitVec.getLsbD_extractLsb', BitVec.getLsbD_ushiftRight, BitVec.getLsbD_append, BitVec.getLsbD_or, BitVec.getLsbD_shiftLeft,
    BitVec.getLsbD_ushiftRight, Nat.zero_add]
  by_cases hlow : count + i < w
  · simp [hi, hlow, show i < w - count by omega]
  · have h1 : count + i - w = i - (w - count) := by omega
    simp [hi, hlow, h1, BitVec.getLsbD_of_ge dst (count + i) (by omega), show ¬ i < w - count by omega]

theorem testsMask_iff (dst : BitVec w) {position : Nat} (hposition : position < 2 ^ w) :
    dst &&& BitVec.ofNat w position ≠ 0 ↔ TestsMask dst position := by
  have hbit : ∀ i, (BitVec.ofNat w position).getLsbD i = position.testBit i := by
    intro i
    rw [BitVec.getLsbD, BitVec.toNat_ofNat, Nat.mod_eq_of_lt hposition]
  rw [and_ne_zero_iff]
  simp only [hbit, TestsMask, and_comm]

/-- What `shld` and `shrd` leave when they test a bit of `dst` with its position: the carry is right for some values only. -/
theorem doubleShift_isShift_iff {before : Flags} {dst value : BitVec w} {lastOut : Bool} {count position : Nat}
    {res : Except CpuFailure (BitVec w × Flags)} (hcount : count ≠ 0) (hposition : position < 2 ^ w)
    (hres : res = .ok (value, doubleShiftFlags dst value count (dst &&& BitVec.ofNat w position ≠ 0) before))
    (hout : lastOut = dst.getLsbD position) :
    IsShift before value lastOut count res ↔ (TestsMask dst position ↔ dst.getLsbD position) := by
  rw [← testsMask_iff dst hposition]
  constructor
  · rintro ⟨after, hok, hflags⟩
    rw [hres] at hok
    obtain ⟨-, rfl⟩ := Outcome.ok_pair hok
    have hcarry : decide (dst &&& BitVec.ofNat w position ≠ 0) = lastOut := hflags.carry hcount
    rw [← hout, ← hcarry]
    exact decide_eq_true_iff.symm
  · intro hmask
    refine ⟨_, hres, shiftFlags_of_carry hcount ?_ rfl rfl rfl⟩
    rw [hout, Bool.eq_iff_iff]
    exact decide_eq_true_iff.trans hmask

theorem shld_isShift_iff (hw : 32 ≤ w) (dst src : BitVec w) (count : BitVec 8) (flags : Flags) :
    IsShift flags (DoubleShiftOp.shld.value dst src (count.toNat % w)) (DoubleShiftOp.shld.lastOut dst (count.toNat % w))
      (count.toNat % w) (shld dst src count flags) ↔ DoubleShiftOp.shld.Shifts dst (count.toNat % w) := by
  have hlt : count.toNat % w < w := Nat.mod_lt _ (by omega)
  have hpromoted := le_promoted w
  unfold shld
  generalize count.toNat % w = count at *
  by_cases hcount : count = 0
  · subst hcount
    refine iff_of_true ⟨flags, ?_, shiftFlags_refl⟩ (.inl rfl)
    rw [if_pos rfl, DoubleShiftOp.value, shld_value dst src hlt, Nat.sub_zero, BitVec.ushiftRight_eq_zero (Nat.le_refl w)]
    simp
  · have hvalue : (promote dst <<< count).setWidth w ||| (promote src >>> (w - count)).setWidth w =
        DoubleShiftOp.shld.value dst src count :=
      (congrArg₂ (· ||| ·) (setWidth_shiftLeft_setWidth (le_promoted w) dst count)
        (setWidth_ushiftRight_setWidth (le_promoted w) src (w - count))).trans (shld_value dst src hlt).symm
    simp only [if_neg hcount, hostShl_of_lt (promote dst) (show count < promoted w by omega),
      hostShr_of_lt (promote src) (show w - count < promoted w by omega), ok_bind, hvalue]
    have hposition : w - count < 2 ^ w := by have := Nat.lt_two_pow_self (n := w); omega
    refine (doubleShift_isShift_iff hcount hposition rfl (msb_shiftLeft_pred dst hcount (Nat.le_of_lt hlt))).trans ?_
    exact (or_iff_right hcount).symm

theorem shrd_isShift_iff (hw : 32 ≤ w) (dst src : BitVec w) (count : BitVec 8) (flags : Flags) :
    IsShift flags (DoubleShiftOp.shrd.value dst src (count.toNat % w)) (DoubleShiftOp.shrd.lastOut dst (count.toNat % w))
      (count.toNat % w) (shrd dst src count flags) ↔ DoubleShiftOp.shrd.Shifts dst (count.toNat % w) := by
  have hlt : count.toNat % w < w := Nat.mod_lt _ (by omega)
  have hpromoted := le_promoted w
  unfold shrd
  generalize count.toNat % w = count at *
  by_cases hcount : count = 0
  · subst hcount
    refine iff_of_true ⟨flags, ?_, shiftFlags_refl⟩ (.inl rfl)
    rw [if_pos rfl, DoubleShiftOp.value, shrd_value dst src hlt]
    simp
  · have hvalue : (promote dst >>> count).setWidth w ||| (promote src <<< (w - count)).setWidth w =
        DoubleShiftOp.shrd.value dst src count :=
      (congrArg₂ (· ||| ·) (setWidth_ushiftRight_setWidth (le_promoted w) dst count)
        (setWidth_shiftLeft_setWidth (le_promoted w) src (w - count))).trans (shrd_value dst src hlt).symm
    simp only [if_neg hcount, hostShr_of_lt (promote dst) (show count < promoted w by omega),
      hostShl_of_lt (promote src) (show w - count < promoted w by omega), ok_bind, hvalue]
    have hposition : count - 1 < 2 ^ w := by have := Nat.lt_two_pow_self (n := w); omega
    refine (doubleShift_isShift_iff hcount hposition rfl (getLsbD_shiftRight_pred dst)).trans ?_
    exact (or_iff_right hcount).symm

/-- A shift does what the architecture says for exactly these counts, and a shift over two operands for exactly these values. -/
theorem shifts_exact_iff (flags : Flags) :
    (∀ (op : ShiftOp) (width : OperandWidth) (dst src : BitVec width.bits),
      IsShift flags (op.value dst (maskedCount width.bits src.toNat)) (op.lastOut dst (maskedCount width.bits src.toNat))
        (maskedCount width.bits src.toNat) (op.run width dst src flags) ↔
      op.Shifts width.bits (maskedCount width.bits src.toNat)) ∧
    (∀ (op : DoubleShiftOp) (dst src : BitVec 32) (count : BitVec 8),
      IsShift flags (op.value dst src (maskedCount 32 count.toNat)) (op.lastOut dst (maskedCount 32 count.toNat))
        (maskedCount 32 count.toNat) (op.run32 dst src count flags) ↔ op.Shifts dst (maskedCount 32 count.toNat)) ∧
    ∀ (op : DoubleShiftOp) (dst src : BitVec 64) (count : BitVec 8),
      IsShift flags (op.value dst src (maskedCount 64 count.toNat)) (op.lastOut dst (maskedCount 64 count.toNat))
        (maskedCount 64 count.toNat) (op.run64 dst src count flags) ↔ op.Shifts dst (maskedCount 64 count.toNat) := by
  refine ⟨?_, ?_, ?_⟩
  · intro op width dst src
    cases op with
    | shl => cases width <;> exact shl_isShift_iff _ dst src flags
    | shr => cases width <;> exact iff_true_intro (shr_isShift _ dst src flags)
    | sar => cases width <;> exact sar_isShift_iff _ dst src flags
  · intro op dst src count
    cases op with
    | shld => exact shld_isShift_iff (by decide) dst src count flags
    | shrd => exact shrd_isShift_iff (by decide) dst src count flags
  · intro op dst src count
    cases op with
    | shld => exact shld_isShift_iff (by decide) dst src count flags
    | shrd => exact shrd_isShift_iff (by decide) dst src count flags

/-- `shld` loses the bit that it moves out, `sar` fails an assertion, and `shl` has no mask. -/
theorem shifts_wrong :
    ¬ IsShift ⟨false, false, false, false, false, false, false⟩ (DoubleShiftOp.shld.value 0x80000000#32 0 (maskedCount 32 1))
      (DoubleShiftOp.shld.lastOut 0x80000000#32 (maskedCount 32 1)) (maskedCount 32 1)
      (shld32 0x80000000 0 1 ⟨false, false, false, false, false, false, false⟩) ∧
    sar8 0x80 8 ⟨false, false, false, false, false, false, false⟩ = .error .assertion ∧
    shl8 0xff 9 ⟨false, false, false, false, false, false, false⟩ = .error .undefined := by
  refine ⟨?_, by decide, by decide⟩
  rintro ⟨after, hres, hflags⟩
  have hrun : shld32 0x80000000 0 1 ⟨false, false, false, false, false, false, false⟩ =
      .ok (0, ⟨false, true, false, true, false, false, true⟩) := by decide
  rw [hrun] at hres
  obtain ⟨-, rfl⟩ := Outcome.ok_pair hres
  have hcarry : false = DoubleShiftOp.shld.lastOut 0x80000000#32 (maskedCount 32 1) := hflags.carry (by decide)
  exact absurd hcarry (by decide)

end CpuImpl

end X64Emulator
