import X64Emulator.CpuImpl
import X64Emulator.Lib.Bits
import X64Emulator.Lib.Rotation

/-!
# Rotates

A rotate moves a value round by the count that the architecture masks; `rcl` and `rcr` move a value with the carry in front of
it. The source reduces the count before it asks whether there is anything to do, and it asks the count of the instruction, not
the masked one, whether the overflow flag is to be set: the cases in which each template is right are exactly given.
-/

namespace X64Emulator

namespace CpuImpl

open Bits Rotation Outcome

variable {w : Nat}

/-- The flags that a rotate by a count leaves, given the last bit that it moves into the carry. -/
structure RotateFlags (before after : Flags) (carryOut overflowOut : Bool) (count : Nat) : Prop where
  unchanged : count = 0 → after = before
  carry : count ≠ 0 → after.carry = carryOut
  overflow : count = 1 → after.overflow = overflowOut
  others : after = { before with carry := after.carry, overflow := after.overflow }

/-- The rotate does not fail, and it leaves its value and its flags. -/
def IsRotate (before : Flags) (value : BitVec w) (carryOut overflowOut : Bool) (count : Nat)
    (res : Except CpuFailure (BitVec w × Flags)) : Prop :=
  ∃ after, res = .ok (value, after) ∧ RotateFlags before after carryOut overflowOut count

/-- The value of a rotate by the masked count. -/
def RotateOp.value (op : RotateOp) (val : BitVec w) (carry : Bool) (count : Nat) : BitVec w :=
  match op with
  | .rcl => ((BitVec.cons carry val).rotateLeft count).setWidth w
  | .rcr => ((BitVec.cons carry val).rotateRight count).setWidth w
  | .rol => val.rotateLeft count
  | .ror => val.rotateRight count

/-- The carry that a rotate leaves: `rol` and `ror` copy the bit that they moved last. -/
def RotateOp.carryOut (op : RotateOp) (val : BitVec w) (carry : Bool) (count : Nat) : Bool :=
  match op with
  | .rcl => ((BitVec.cons carry val).rotateLeft count).msb
  | .rcr => ((BitVec.cons carry val).rotateRight count).msb
  | .rol => (val.rotateLeft count).getLsbD 0
  | .ror => (val.rotateRight count).msb

/-- The overflow that a rotate by one leaves: whether the sign of the value changes. -/
def RotateOp.overflowOut (op : RotateOp) (val : BitVec w) (carry : Bool) : Bool :=
  match op with
  | .rcl | .rol => (op.value val carry 1).msb ^^ op.carryOut val carry 1
  | .rcr => val.msb ^^ carry
  | .ror => (op.value val carry 1).msb ^^ (op.value val carry 1).getLsbD (w - 2)

/-- When a template is right. `rcl` and `rcr` set the overflow flag for a count of one, but not for one that is masked to one,
and `rcr` takes the bits together for it. `rol` does not set the carry for a multiple of the width, nor does `ror`, which shifts
by the width there. -/
def RotateOp.Rotates (op : RotateOp) (val : BitVec w) (count : BitVec 8) (before : Flags) : Prop :=
  match op with
  | .rcl => maskedCount w count.toNat = 1 → count = 1 ∨ before.overflow = (val.msb ^^ val.getLsbD (w - 2))
  | .rcr => maskedCount w count.toNat = 1 →
      if count = 1 then ¬ (val.msb = true ∧ before.carry = true) else before.overflow = (val.msb ^^ before.carry)
  | .rol => maskedCount w count.toNat ≠ 0 → maskedCount w count.toNat % w = 0 → before.carry = val.getLsbD 0
  | .ror => maskedCount w count.toNat % w = 0 → w < 32 ∧ (maskedCount w count.toNat ≠ 0 → before.carry = val.msb)

theorem rotateMask_eq (w : Nat) (count : BitVec 8) : rotateMask w count = maskedCount w count.toNat := by
  unfold rotateMask maskedCount
  rw [BitVec.toNat_and]
  split
  · exact Nat.and_two_pow_sub_one_eq_mod count.toNat 6
  · exact Nat.and_two_pow_sub_one_eq_mod count.toNat 5

theorem maskedCount_one (w : Nat) : maskedCount w (1 : BitVec 8).toNat = 1 := by
  unfold maskedCount
  split <;> rfl

theorem not_isRotate_error {before : Flags} {value : BitVec w} {carryOut overflowOut : Bool} {count : Nat} {e : CpuFailure} :
    ¬ IsRotate before value carryOut overflowOut count (.error e) := by
  rintro ⟨after, hres, -⟩
  cases hres

/-- What is left to show of a template that computes the right value. -/
theorem isRotate_ok_iff {before : Flags} {value : BitVec w} {carryOut overflowOut carry overflow : Bool} {count : Nat} :
    IsRotate before value carryOut overflowOut count (.ok (value, { before with carry := carry, overflow := overflow })) ↔
      (count = 0 → carry = before.carry ∧ overflow = before.overflow) ∧ (count ≠ 0 → carry = carryOut) ∧
      (count = 1 → overflow = overflowOut) := by
  constructor
  · rintro ⟨after, hok, hflags⟩
    obtain ⟨-, rfl⟩ := Outcome.ok_pair hok
    refine ⟨fun hzero => ?_, hflags.carry, hflags.overflow⟩
    have hunchanged := hflags.unchanged hzero
    exact ⟨congrArg Flags.carry hunchanged, congrArg Flags.overflow hunchanged⟩
  · rintro ⟨hunchanged, hcarry, hoverflow⟩
    refine ⟨_, rfl, fun hzero => ?_, hcarry, hoverflow, rfl⟩
    obtain ⟨rfl, rfl⟩ := hunchanged hzero
    rfl

/-! ## Through the carry -/

theorem setWidth_concat (x : BitVec w) (carry : Bool) :
    2 * x + (BitVec.ofBool carry).setWidth w = (x.concat carry).setWidth w := by
  apply BitVec.eq_of_toNat_eq
  rw [BitVec.toNat_add, BitVec.toNat_mul, BitVec.toNat_setWidth, BitVec.toNat_setWidth, BitVec.toNat_concat,
    BitVec.toNat_ofBool, Nat.add_mod_mod, Nat.mod_add_mod]
  have htwo : (2 : BitVec w).toNat = 2 % 2 ^ w := rfl
  rw [htwo, Nat.add_mod, Nat.mod_mul_mod, ← Nat.add_mod, Nat.mul_comm]

/-- The loop of `rcl` rotates the value with the carry in front of it. -/
theorem rclTurns_eq (hw : 0 < w) (count : Nat) (res : BitVec w) (cf : Bool) :
    rclTurns count res cf =
      (((BitVec.cons cf res).rotateLeft count).setWidth w, ((BitVec.cons cf res).rotateLeft count).msb) := by
  induction count generalizing res cf with
  | zero => simp [rclTurns, rotateLeft_zero]
  | succ count ih => rw [rclTurns, ih, rotateLeft_succ, rotateLeft_one_cons hw, decide_and_top, setWidth_concat]

theorem half_or_carry (hw : 1 < w) (x : BitVec w) (carry : Bool) :
    x / (2 : BitVec w) ||| (BitVec.ofBool carry).setWidth w <<< (w - 1) = (BitVec.cons carry x >>> 1).setWidth w := by
  have hhalf : x / (2 : BitVec w) = x >>> 1 := by
    apply BitVec.eq_of_toNat_eq
    have htwo : (2 : BitVec w).toNat = 2 :=
      Nat.mod_eq_of_lt (Nat.lt_of_lt_of_le (by decide : 2 < 2 ^ 2) (Nat.pow_le_pow_right (by decide) hw))
    rw [BitVec.toNat_udiv, BitVec.toNat_ushiftRight, htwo, Nat.shiftRight_eq_div_pow]
  rw [hhalf]
  apply BitVec.eq_of_getLsbD_eq
  intro i hi
  rw [BitVec.getLsbD_or, BitVec.getLsbD_ushiftRight, BitVec.getLsbD_shiftLeft, BitVec.getLsbD_setWidth, BitVec.getLsbD_setWidth,
    BitVec.getLsbD_ushiftRight, BitVec.getLsbD_cons]
  by_cases htop : 1 + i = w
  · simp [htop, hi, show i - (w - 1) = 0 by omega, show ¬ i < w - 1 by omega]
    omega
  · simp [htop, hi, show i < w - 1 by omega]

/-- The loop of `rcr` rotates the value with the carry in front of it. -/
theorem rcrTurns_eq (hw : 1 < w) (count : Nat) (res : BitVec w) (cf : Bool) :
    rcrTurns count res cf =
      (((BitVec.cons cf res).rotateRight count).setWidth w, ((BitVec.cons cf res).rotateRight count).msb) := by
  induction count generalizing res cf with
  | zero => simp [rcrTurns, rotateRight_zero]
  | succ count ih =>
    rw [rcrTurns, ih, rotateRight_succ, rotateRight_one_cons (by omega), decide_and_one, half_or_carry hw]

theorem rcl_overflowOut (hw : 1 < w) (val : BitVec w) (carry : Bool) :
    RotateOp.rcl.overflowOut val carry = (val.msb ^^ val.getLsbD (w - 2)) := by
  unfold RotateOp.overflowOut RotateOp.value RotateOp.carryOut
  rw [rotateLeft_one_cons (by omega), BitVec.setWidth_cons, BitVec.msb_cons, BitVec.msb_eq_getLsbD_last,
    BitVec.getLsbD_setWidth, BitVec.getLsbD_concat, Bool.xor_comm]
  simp [show ¬ w - 1 = 0 by omega, show w - 1 - 1 = w - 2 by omega, show w - 1 < w by omega]

/-- `rcl` asks the count of the instruction for the overflow flag. -/
theorem rcl_isRotate_iff (hw : 1 < w) (val : BitVec w) (count : BitVec 8) (flags : Flags) :
    IsRotate flags (RotateOp.rcl.value val flags.carry (maskedCount w count.toNat))
      (RotateOp.rcl.carryOut val flags.carry (maskedCount w count.toNat)) (RotateOp.rcl.overflowOut val flags.carry)
      (maskedCount w count.toNat) (rcl val count flags) ↔ RotateOp.rcl.Rotates val count flags := by
  have hone : count = 1 → maskedCount w count.toNat = 1 := fun h => h ▸ maskedCount_one w
  simp only [rcl, rotateMask_eq, rclTurns_eq (show 0 < w by omega), BitVec.rotateLeft_mod_eq_rotateLeft,
    ushiftRight_top (show 0 < w by omega), decide_xor_bits (show 0 < w by omega)]
  refine isRotate_ok_iff.trans ?_
  unfold RotateOp.Rotates
  rw [← rcl_overflowOut hw val flags.carry]
  generalize maskedCount w count.toNat = n at *
  constructor
  · rintro ⟨-, -, hoverflow⟩ hn
    by_cases hcount : count = 1
    · exact .inl hcount
    · have hset := hoverflow hn
      rw [if_neg hcount] at hset
      exact .inr hset
  · intro hrotates
    refine ⟨?_, fun _ => rfl, ?_⟩
    · intro hzero
      subst hzero
      rw [if_neg (fun h => absurd (hone h) (by decide)), rotateLeft_zero, BitVec.msb_cons]
      exact ⟨rfl, rfl⟩
    · intro hn
      by_cases hcount : count = 1
      · subst hn
        rw [if_pos hcount]
        rfl
      · rw [if_neg hcount]
        exact (hrotates hn).resolve_left hcount

theorem decide_top_or_carry (hw : 1 < w) (val : BitVec w) (carry : Bool) :
    decide ((val &&& 1#w <<< (w - 1)) ^^^ (BitVec.ofBool carry).setWidth w ≠ 0) = (val.msb || carry) := by
  rw [Bool.eq_iff_iff, decide_eq_true_iff, ne_zero_iff, Bool.or_eq_true, BitVec.msb_eq_getLsbD_last]
  have hbit : ∀ i, ((val &&& 1#w <<< (w - 1)) ^^^ (BitVec.ofBool carry).setWidth w).getLsbD i =
      ((val.getLsbD i && decide (i = w - 1)) ^^ (decide (i = 0) && carry)) := by
    intro i
    rw [← BitVec.twoPow_eq]
    by_cases hzero : i = 0
    · subst hzero
      simp [show ¬ 0 = w - 1 by omega, show 0 < w by omega]
    · simp [hzero, show w - 1 < w by omega, eq_comm]
  simp only [hbit]
  constructor
  · rintro ⟨i, hi⟩
    by_cases hzero : i = 0
    · subst hzero
      simp [show ¬ 0 = w - 1 by omega] at hi
      exact .inr hi
    · simp [hzero] at hi
      exact .inl (hi.2 ▸ hi.1)
  · rintro (htop | hcarry)
    · exact ⟨w - 1, by simp [htop, show ¬ w - 1 = 0 by omega]⟩
    · exact ⟨0, by simp [hcarry, show ¬ 0 = w - 1 by omega]⟩

/-- `rcr` asks the count of the instruction for the overflow flag, and takes two different bits together for it. -/
theorem rcr_isRotate_iff (hw : 1 < w) (val : BitVec w) (count : BitVec 8) (flags : Flags) :
    IsRotate flags (RotateOp.rcr.value val flags.carry (maskedCount w count.toNat))
      (RotateOp.rcr.carryOut val flags.carry (maskedCount w count.toNat)) (RotateOp.rcr.overflowOut val flags.carry)
      (maskedCount w count.toNat) (rcr val count flags) ↔ RotateOp.rcr.Rotates val count flags := by
  have hone : count = 1 → maskedCount w count.toNat = 1 := fun h => h ▸ maskedCount_one w
  simp only [rcr, rotateMask_eq, rcrTurns_eq hw, BitVec.rotateRight_mod_eq_rotateRight, decide_top_or_carry hw]
  refine isRotate_ok_iff.trans ?_
  unfold RotateOp.Rotates
  generalize maskedCount w count.toNat = n at *
  have hbits : (val.msb || flags.carry) = RotateOp.rcr.overflowOut val flags.carry ↔
      ¬ (val.msb = true ∧ flags.carry = true) := by
    have hxor : RotateOp.rcr.overflowOut val flags.carry = (val.msb ^^ flags.carry) := rfl
    rw [hxor]
    cases val.msb <;> cases flags.carry <;> decide
  constructor
  · rintro ⟨-, -, hoverflow⟩ hn
    have hset := hoverflow hn
    by_cases hcount : count = 1
    · rw [if_pos hcount] at hset ⊢
      exact hbits.1 hset
    · rw [if_neg hcount] at hset ⊢
      exact hset
  · intro hrotates
    refine ⟨?_, fun _ => rfl, ?_⟩
    · intro hzero
      subst hzero
      rw [if_neg (fun h => absurd (hone h) (by decide)), rotateRight_zero, BitVec.msb_cons]
      exact ⟨rfl, rfl⟩
    · intro hn
      have hset := hrotates hn
      by_cases hcount : count = 1
      · rw [if_pos hcount] at hset ⊢
        exact hbits.2 hset
      · rw [if_neg hcount] at hset ⊢
        exact hset

/-! ## Without the carry -/

/-- `rol` leaves the carry where its count is a multiple of the width. -/
theorem rol_isRotate_iff (hw : 1 < w) (val : BitVec w) (count : BitVec 8) (flags : Flags) :
    IsRotate flags (RotateOp.rol.value val flags.carry (maskedCount w count.toNat))
      (RotateOp.rol.carryOut val flags.carry (maskedCount w count.toNat)) (RotateOp.rol.overflowOut val flags.carry)
      (maskedCount w count.toNat) (rol val count flags) ↔ RotateOp.rol.Rotates val count flags := by
  have hpromoted := le_promoted w
  unfold rol RotateOp.Rotates
  rw [rotateMask_eq]
  generalize maskedCount w count.toNat = n at *
  have hlt : n % w < w := Nat.mod_lt _ (by omega)
  by_cases hturns : n % w = 0
  · have hvalue : val.rotateLeft n = val := by rw [← BitVec.rotateLeft_mod_eq_rotateLeft, hturns, rotateLeft_zero]
    have hn : n ≠ 1 := by
      rintro rfl
      rw [Nat.mod_eq_of_lt hw] at hturns
      exact absurd hturns (by decide)
    simp only [if_pos hturns, RotateOp.value, RotateOp.carryOut, hvalue]
    refine isRotate_ok_iff.trans ?_
    exact ⟨fun h hne _ => h.2.1 hne, fun h => ⟨fun _ => ⟨rfl, rfl⟩, fun hne => h hne hturns, fun h1 => absurd h1 hn⟩⟩
  · have hres : (promote val <<< (n % w)).setWidth w ||| (promote val >>> (w - n % w)).setWidth w = val.rotateLeft n := by
      rw [BitVec.rotateLeft_def, promote, setWidth_shiftLeft_setWidth hpromoted, setWidth_ushiftRight_setWidth hpromoted]
    simp only [if_neg hturns, hostShl_of_lt (promote val) (show n % w < promoted w by omega),
      hostShr_of_lt (promote val) (show w - n % w < promoted w by omega), ok_bind, hres, decide_and_one,
      ushiftRight_top (show 0 < w by omega), decide_xor_bits (show 0 < w by omega)]
    refine iff_of_true (isRotate_ok_iff.2 ⟨?_, fun _ => rfl, ?_⟩) (fun _ h => absurd h hturns)
    · rintro rfl
      exact absurd (Nat.zero_mod w) hturns
    · rintro rfl
      rw [if_pos (Nat.mod_eq_of_lt hw)]
      rfl

/-- `ror` shifts by the width where its count is a multiple of it, which the host can do for a promoted value only. -/
theorem ror_isRotate_iff (hw : 1 < w) (val : BitVec w) (count : BitVec 8) (flags : Flags) :
    IsRotate flags (RotateOp.ror.value val flags.carry (maskedCount w count.toNat))
      (RotateOp.ror.carryOut val flags.carry (maskedCount w count.toNat)) (RotateOp.ror.overflowOut val flags.carry)
      (maskedCount w count.toNat) (ror val count flags) ↔ RotateOp.ror.Rotates val count flags := by
  have hpromoted := le_promoted w
  unfold ror RotateOp.Rotates
  rw [rotateMask_eq]
  generalize maskedCount w count.toNat = n at *
  have hlt : n % w < w := Nat.mod_lt _ (by omega)
  have hres : (promote val >>> (n % w)).setWidth w ||| (promote val <<< (w - n % w)).setWidth w = val.rotateRight n := by
    rw [BitVec.rotateRight_def, promote, setWidth_shiftLeft_setWidth hpromoted, setWidth_ushiftRight_setWidth hpromoted]
  have hcompare : ∀ res : BitVec w,
      decide ((res >>> (w - 1)) ^^^ ((res >>> (w - 2)) &&& 1) ≠ 0) = (res.msb ^^ res.getLsbD (w - 2)) := by
    intro res
    have hlow : (res >>> (w - 2)) &&& 1 = (BitVec.ofBool (res.getLsbD (w - 2))).setWidth w := by
      rw [← Nat.add_zero (w - 2), ← BitVec.getLsbD_ushiftRight]
      exact BitVec.and_one_eq_setWidth_ofBool_getLsbD
    rw [hlow, ushiftRight_top (by omega), decide_xor_bits (by omega)]
  simp only [hostShr_of_lt (promote val) (show n % w < promoted w by omega), ok_bind, hcompare, decide_and_top]
  by_cases hshift : w - n % w < promoted w
  · simp only [hostShl_of_lt (promote val) hshift, ok_bind, hres]
    refine isRotate_ok_iff.trans ?_
    by_cases hturns : n % w = 0
    · have hvalue : val.rotateRight n = val := by rw [← BitVec.rotateRight_mod_eq_rotateRight, hturns, rotateRight_zero]
      have hnarrow : w < 32 := by
        unfold promoted at hshift
        omega
      have hn : n ≠ 1 := by
        rintro rfl
        rw [Nat.mod_eq_of_lt hw] at hturns
        exact absurd hturns (by decide)
      rw [if_pos hturns, if_neg (show ¬ n % w = 1 by omega), RotateOp.carryOut, hvalue]
      exact ⟨fun h _ => ⟨hnarrow, h.2.1⟩,
        fun h => ⟨fun _ => ⟨rfl, rfl⟩, (h hturns).2, fun h1 => absurd h1 hn⟩⟩
    · rw [if_neg hturns]
      refine iff_of_true ⟨?_, fun _ => rfl, ?_⟩ (fun h => absurd h hturns)
      · rintro rfl
        exact absurd (Nat.zero_mod w) hturns
      · rintro rfl
        rw [if_pos (Nat.mod_eq_of_lt hw)]
        rfl
  · have hturns : n % w = 0 := by omega
    have hwide : ¬ w < 32 := by
      unfold promoted at hshift
      omega
    rw [hostShl_of_le _ (by omega), error_bind]
    exact iff_of_false not_isRotate_error (fun h => hwide (h hturns).1)

/-- A rotate does what the architecture says in exactly these cases. -/
theorem rotates_exact_iff (op : RotateOp) (width : OperandWidth) (val : BitVec width.bits) (count : BitVec 8) (flags : Flags) :
    IsRotate flags (op.value val flags.carry (maskedCount width.bits count.toNat))
      (op.carryOut val flags.carry (maskedCount width.bits count.toNat)) (op.overflowOut val flags.carry)
      (maskedCount width.bits count.toNat) (op.run width val count flags) ↔ op.Rotates val count flags := by
  have hw : 1 < width.bits := by cases width <;> decide
  cases op with
  | rcl => cases width <;> exact rcl_isRotate_iff hw val count flags
  | rcr => cases width <;> exact rcr_isRotate_iff hw val count flags
  | rol => cases width <;> exact rol_isRotate_iff hw val count flags
  | ror => cases width <;> exact ror_isRotate_iff hw val count flags

/-- `rol` by eight leaves the carry, `rcr` by one reports a change of the sign that does not happen, and `ror` by zero shifts
by the width. -/
theorem rotates_wrong :
    ¬ IsRotate ⟨false, false, false, false, false, false, false⟩ (RotateOp.rol.value 5#8 false (maskedCount 8 8))
      (RotateOp.rol.carryOut 5#8 false (maskedCount 8 8)) (RotateOp.rol.overflowOut 5#8 false) (maskedCount 8 8)
      (rol8 5 8 ⟨false, false, false, false, false, false, false⟩) ∧
    ¬ IsRotate ⟨true, false, false, false, false, false, false⟩ (RotateOp.rcr.value 0x81#8 true (maskedCount 8 1))
      (RotateOp.rcr.carryOut 0x81#8 true (maskedCount 8 1)) (RotateOp.rcr.overflowOut 0x81#8 true) (maskedCount 8 1)
      (rcr8 0x81 1 ⟨true, false, false, false, false, false, false⟩) ∧
    ror32 5 0 ⟨false, false, false, false, false, false, false⟩ = .error .undefined := by
  have hrol : rol8 5 8 ⟨false, false, false, false, false, false, false⟩ =
      .ok (5, ⟨false, false, false, false, false, false, false⟩) := by decide
  have hrcr : rcr8 0x81 1 ⟨true, false, false, false, false, false, false⟩ =
      .ok (0xc0, ⟨true, false, false, true, false, false, false⟩) := by decide
  refine ⟨?_, ?_, by decide⟩
  · rintro ⟨after, hres, hflags⟩
    rw [hrol] at hres
    obtain ⟨-, rfl⟩ := Outcome.ok_pair hres
    have hcarry : false = RotateOp.rol.carryOut 5#8 false (maskedCount 8 8) := hflags.carry (by decide)
    exact absurd hcarry (by decide)
  · rintro ⟨after, hres, hflags⟩
    rw [hrcr] at hres
    obtain ⟨-, rfl⟩ := Outcome.ok_pair hres
    have hoverflow : true = RotateOp.rcr.overflowOut 0x81#8 true := hflags.overflow (by decide)
    exact absurd hoverflow (by decide)

end CpuImpl

end X64Emulator
