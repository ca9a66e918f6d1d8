import X64Emulator.Lemmas.PackedStrings

/-!
# Packed strings are compared as the architecture defines it

With explicit lengths of any sign and size, and with lengths that end at the first zero; and the second is the first with the
lengths written out.
-/

namespace X64Emulator

namespace CpuImpl

open StringPair

theorem ones_bytes : ∀ j, (0xFFFF : BitVec 32).getLsbD j = true ↔ j < 16 := by
  intro j
  by_cases hj : j < 32
  · revert j
    decide
  · rw [BitVec.getLsbD_of_ge _ j (by omega)]
    simp
    omega

theorem ones_words : ∀ j, (0xFF : BitVec 32).getLsbD j = true ↔ j < 8 := by
  intro j
  by_cases hj : j < 32
  · revert j
    decide
  · rw [BitVec.getLsbD_of_ge _ j (by omega)]
    simp
    omega

/-- The lengths may have any sign, and may be beyond the number of elements. -/
theorem pcmpestri_returns (dst : U128) (lendst : BitVec 32) (src : U128) (lensrc : BitVec 32) (control : BitVec 8) (flags : Flags) :
    (ofOperands (dataFormat control) dst src (min lendst.toInt.natAbs (count (dataFormat control)))
      (min lensrc.toInt.natAbs (count (dataFormat control)))).Returns control flags
      (pcmpestri dst lendst src lensrc control flags) := by
  rw [← explicitLength_eq, ← explicitLength_eq, pcmpestri]
  cases dataFormat control with
  | unsignedByte | signedByte =>
    exact returns_pcmpstri (by decide) (by decide) ones_bytes control decide_eq_true_iff decide_eq_true_iff flags
  | unsignedWord | signedWord =>
    exact returns_pcmpstri (by decide) (by decide) ones_words control decide_eq_true_iff decide_eq_true_iff flags

/-- Where a string ends. -/
def stringLength (control : BitVec 8) (x : U128) : Nat := implicitLength (count (dataFormat control)) (operand x (dataFormat control))

theorem pcmpistri_returns (dst src : U128) (control : BitVec 8) (flags : Flags) :
    (ofOperands (dataFormat control) dst src (stringLength control dst) (stringLength control src)).Returns control flags
      (pcmpistri dst src control flags) := by
  rw [stringLength, stringLength, pcmpistri]
  cases dataFormat control with
  | unsignedByte | signedByte =>
    exact returns_pcmpstri (by decide) (by decide) ones_bytes control (anyZero_iff _) (anyZero_iff _) flags
  | unsignedWord | signedWord =>
    exact returns_pcmpstri (by decide) (by decide) ones_words control (anyZero_iff _) (anyZero_iff _) flags

/-- A length that was found is found again when it is given. -/
theorem explicitLength_implicitLength {n : Nat} (hn : n ≤ 32) (string : Nat → Int) :
    explicitLength n (BitVec.ofNat 32 (implicitLength n string)) = implicitLength n string :=
  explicitLength_of_le (endsAt_implicitLength string).1 hn

theorem anyZero_eq (n : Nat) (string : Nat → Int) : anyZero n string = decide (implicitLength n string < n) := by
  rw [Bool.eq_iff_iff, anyZero_iff, decide_eq_true_iff]

theorem pcmpistri_eq_pcmpestri (dst src : U128) (control : BitVec 8) (flags : Flags) :
    pcmpistri dst src control flags =
      pcmpestri dst (BitVec.ofNat 32 (stringLength control dst)) src (BitVec.ofNat 32 (stringLength control src)) control
        flags := by
  have hbytes := fun signed x => explicitLength_implicitLength (show 16 ≤ 32 by decide) (elements 8 signed x)
  have hwords := fun signed x => explicitLength_implicitLength (show 8 ≤ 32 by decide) (elements 16 signed x)
  rw [stringLength, stringLength, pcmpistri, pcmpestri]
  cases dataFormat control with
  | unsignedByte | signedByte =>
    simp only [pcmpistri8, pcmpestri8, count, operand, hbytes, anyZero_eq]
  | unsignedWord | signedWord =>
    simp only [pcmpistri16, pcmpestri16, count, operand, hwords, anyZero_eq]

/-- Both instructions, for all operands, lengths and control bytes. -/
theorem packed_strings_compared (dst src : U128) (lendst lensrc : BitVec 32) (control : BitVec 8) (flags : Flags) :
    (ofOperands (dataFormat control) dst src (min lendst.toInt.natAbs (count (dataFormat control)))
      (min lensrc.toInt.natAbs (count (dataFormat control)))).Returns control flags
      (pcmpestri dst lendst src lensrc control flags) ∧
    ∃ firstLength secondLength,
      EndsAt (count (dataFormat control)) (operand dst (dataFormat control)) firstLength ∧
        EndsAt (count (dataFormat control)) (operand src (dataFormat control)) secondLength ∧
        (ofOperands (dataFormat control) dst src firstLength secondLength).Returns control flags
          (pcmpistri dst src control flags) ∧
        pcmpistri dst src control flags =
          pcmpestri dst (BitVec.ofNat 32 firstLength) src (BitVec.ofNat 32 secondLength) control flags :=
  ⟨pcmpestri_returns dst lendst src lensrc control flags, stringLength control dst, stringLength control src,
    endsAt_implicitLength _, endsAt_implicitLength _, pcmpistri_returns dst src control flags,
    pcmpistri_eq_pcmpestri dst src control flags⟩

end CpuImpl

end X64Emulator
