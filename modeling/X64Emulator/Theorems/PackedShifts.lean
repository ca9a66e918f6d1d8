import X64Emulator.CpuImpl
import X64Emulator.Packed
import X64Emulator.Lib.Bits
import X64Emulator.Lib.Wrapping

/-!
# Packed shifts

A packed shift moves every lane by the same count, and a count of the lane width or more leaves nothing of a lane but its sign.
The templates give the count to the host, which shifts promoted lanes: they have a result for the counts below the width of the
promoted lane. The shifts by bytes move bits from one half of the register to the other, which the host cannot do for no bytes.
-/

namespace X64Emulator

namespace CpuImpl

open Bits Lanes Wrapping

variable {w : Nat}

inductive PackedShift where
  | psraw
  | psrad
  | psllw
  | pslld
  | psllq
  | psrlw
  | psrld
  | psrlq
deriving DecidableEq, Repr

namespace PackedShift

def laneWidth : PackedShift → Nat
  | .psraw | .psllw | .psrlw => 16
  | .psrad | .pslld | .psrld => 32
  | .psllq | .psrlq => 64

def run64 : PackedShift → BitVec 64 → BitVec 8 → Except CpuFailure (BitVec 64)
  | .psraw => psraw64
  | .psrad => psrad64
  | .psllw => psllw64
  | .pslld => pslld64
  | .psllq => psllq64
  | .psrlw => psrlw64
  | .psrld => psrld64
  | .psrlq => psrlq64

def run128 : PackedShift → U128 → BitVec 8 → Except CpuFailure U128
  | .psraw => psraw128
  | .psrad => psrad128
  | .psllw => psllw128
  | .pslld => pslld128
  | .psllq => psllq128
  | .psrlw => psrlw128
  | .psrld => psrld128
  | .psrlq => psrlq128

/-- What the shift leaves of a lane. -/
def shifted (op : PackedShift) (x : BitVec w) (count : Nat) : BitVec w :=
  match op with
  | .psraw | .psrad => if w ≤ count then (if x.msb then BitVec.allOnes w else 0) else x.sshiftRight count
  | .psllw | .pslld | .psllq => if w ≤ count then 0 else x <<< count
  | .psrlw | .psrld | .psrlq => if w ≤ count then 0 else x >>> count

end PackedShift

inductive ByteShift where
  | pslldq
  | psrldq
deriving DecidableEq, Repr

namespace ByteShift

def run : ByteShift → U128 → BitVec 8 → Except CpuFailure U128
  | .pslldq => CpuImpl.pslldq
  | .psrldq => CpuImpl.psrldq

/-- What the shift leaves of the register. -/
def shifted (op : ByteShift) (x : BitVec 128) (count : Nat) : BitVec 128 :=
  if 16 ≤ count then 0
  else match op with
    | .pslldq => x <<< (8 * count)
    | .psrldq => x >>> (8 * count)

end ByteShift

/-- The shift has a result, with every lane shifted. -/
def IsPackedShift {v : Nat} (op : PackedShift) (dst : BitVec v) (count : Nat) (res : Except CpuFailure (BitVec v)) : Prop :=
  ∃ x, res = .ok x ∧ ∀ i < v / op.laneWidth, lane op.laneWidth x i = op.shifted (lane op.laneWidth dst i) count

def IsByteShift (op : ByteShift) (dst : U128) (count : Nat) (res : Except CpuFailure U128) : Prop :=
  ∃ x, res = .ok x ∧ x.bits = op.shifted dst.bits count

/-! ## One lane -/

theorem PackedShift.shifted_psll {op : PackedShift} (hop : op = .psllw ∨ op = .pslld ∨ op = .psllq) (x : BitVec w)
    (count : Nat) : op.shifted x count = x <<< count := by
  have hshifted : op.shifted x count = if w ≤ count then 0 else x <<< count := by
    rcases hop with rfl | rfl | rfl <;> rfl
  rw [hshifted]
  split
  · rename_i hle
    exact (BitVec.shiftLeft_eq_zero hle).symm
  · rfl

theorem PackedShift.shifted_psrl {op : PackedShift} (hop : op = .psrlw ∨ op = .psrld ∨ op = .psrlq) (x : BitVec w)
    (count : Nat) : op.shifted x count = x >>> count := by
  have hshifted : op.shifted x count = if w ≤ count then 0 else x >>> count := by
    rcases hop with rfl | rfl | rfl <;> rfl
  rw [hshifted]
  split
  · rename_i hle
    exact (BitVec.ushiftRight_eq_zero hle).symm
  · rfl

theorem PackedShift.shifted_psra {op : PackedShift} (hop : op = .psraw ∨ op = .psrad) (x : BitVec w) (count : Nat) :
    op.shifted x count = x.sshiftRight count := by
  have hshifted : op.shifted x count =
      if w ≤ count then (if x.msb then BitVec.allOnes w else 0) else x.sshiftRight count := by
    rcases hop with rfl | rfl <;> rfl
  rw [hshifted]
  split
  · rename_i hle
    apply BitVec.eq_of_getLsbD_eq
    intro i hi
    have hfill : (x.sshiftRight count).getLsbD i = x.msb := by
      rw [BitVec.getLsbD_sshiftRight, if_neg (by omega)]
      simp [hi]
    rw [hfill]
    cases x.msb <;> simp [hi]
  · rfl

/-! ## All lanes -/

/-- The loop over the lanes has a result for the counts that the host can shift by, and the lanes are then shifted. -/
theorem joinM_shift_iff {v n p count : Nat} {f : Nat → Except CpuFailure (BitVec w)} {g : Nat → BitVec w} (hn : 0 < n)
    (hv : n * w ≤ v) (hok : count < p → ∀ i, f i = .ok (g i)) (herror : p ≤ count → f 0 = .error .undefined) :
    (∃ x, joinM v n f = .ok x ∧ ∀ i < n, lane w x i = g i) ↔ count < p := by
  constructor
  · rintro ⟨x, hx, -⟩
    obtain ⟨y, hy⟩ := exists_joinM_iff.1 ⟨x, hx⟩ 0 hn
    by_contra hle
    rw [herror (by omega)] at hy
    cases hy
  · intro hlt
    refine ⟨join v n g, joinM_eq_ok fun i _ => hok hlt i, ?_⟩
    intro i hi
    exact lane_join hv hi

section

variable {v : Nat} (hn : 0 < v / w) (dst : BitVec v) (count : Nat)
include hn

theorem psll_iff : (∃ x, joinM v (v / w) (fun i => (hostShl (promote (lane w dst i)) count).map (·.setWidth w)) = .ok x ∧
    ∀ i < v / w, lane w x i = lane w dst i <<< count) ↔ count < promoted w := by
  apply joinM_shift_iff hn (Nat.div_mul_le_self v w)
  · intro hlt i
    rw [hostShl_of_lt _ hlt]
    exact congrArg Except.ok (setWidth_shiftLeft_setWidth (le_promoted w) _ count)
  · intro hle
    rw [hostShl_of_le _ hle]
    rfl

theorem psrl_iff : (∃ x, joinM v (v / w) (fun i => (hostShr (promote (lane w dst i)) count).map (·.setWidth w)) = .ok x ∧
    ∀ i < v / w, lane w x i = lane w dst i >>> count) ↔ count < promoted w := by
  apply joinM_shift_iff hn (Nat.div_mul_le_self v w)
  · intro hlt i
    rw [hostShr_of_lt _ hlt]
    exact congrArg Except.ok (setWidth_ushiftRight_setWidth (le_promoted w) _ count)
  · intro hle
    rw [hostShr_of_le _ hle]
    rfl

theorem psra_iff : (∃ x, joinM v (v / w)
      (fun i => (hostSar ((lane w dst i).signExtend (promoted w)) count).map (·.setWidth w)) = .ok x ∧
    ∀ i < v / w, lane w x i = (lane w dst i).sshiftRight count) ↔ count < promoted w := by
  apply joinM_shift_iff hn (Nat.div_mul_le_self v w)
  · intro hlt i
    rw [hostSar_of_lt _ hlt]
    exact congrArg Except.ok (setWidth_sshiftRight_signExtend (le_promoted w) _ count)
  · intro hle
    rw [hostSar_of_le _ hle]
    rfl

end

theorem isPackedShift64_iff (op : PackedShift) (dst : BitVec 64) (src : BitVec 8) :
    IsPackedShift op dst src.toNat (op.run64 dst src) ↔ src.toNat < promoted op.laneWidth := by
  cases op with
  | psraw | psrad =>
    simp only [IsPackedShift, PackedShift.shifted_psra (.inl rfl), PackedShift.shifted_psra (.inr rfl)]
    exact psra_iff (by decide) dst src.toNat
  | psllw | pslld | psllq =>
    simp only [IsPackedShift, PackedShift.shifted_psll (.inl rfl), PackedShift.shifted_psll (.inr (.inl rfl)),
      PackedShift.shifted_psll (.inr (.inr rfl))]
    exact psll_iff (by decide) dst src.toNat
  | psrlw | psrld | psrlq =>
    simp only [IsPackedShift, PackedShift.shifted_psrl (.inl rfl), PackedShift.shifted_psrl (.inr (.inl rfl)),
      PackedShift.shifted_psrl (.inr (.inr rfl))]
    exact psrl_iff (by decide) dst src.toNat

/-! ## Whole registers -/

theorem exists_map_ofBits {r : Except CpuFailure (BitVec 128)} {P : BitVec 128 → Prop} :
    (∃ x, r.map U128.ofBits = .ok x ∧ P x.bits) ↔ ∃ x, r = .ok x ∧ P x := by
  cases r with
  | error e => simp [Except.map]
  | ok y => simp [Except.map]

/-- Both halves of a register lie in its array of lanes. -/
def IsPackedShift128 (op : PackedShift) (dst : U128) (count : Nat) (res : Except CpuFailure U128) : Prop :=
  ∃ x, res = .ok x ∧
    ∀ i < 128 / op.laneWidth, lane op.laneWidth x.bits i = op.shifted (lane op.laneWidth dst.bits i) count

theorem isPackedShift128_iff (op : PackedShift) (dst : U128) (src : BitVec 8) :
    IsPackedShift128 op dst src.toNat (op.run128 dst src) ↔ src.toNat < promoted op.laneWidth := by
  cases op with
  | psraw | psrad =>
    simp only [IsPackedShift128, PackedShift.shifted_psra (.inl rfl), PackedShift.shifted_psra (.inr rfl)]
    exact exists_map_ofBits.trans (psra_iff (by decide) dst.bits src.toNat)
  | psllw | pslld | psllq =>
    simp only [IsPackedShift128, PackedShift.shifted_psll (.inl rfl), PackedShift.shifted_psll (.inr (.inl rfl)),
      PackedShift.shifted_psll (.inr (.inr rfl))]
    exact exists_map_ofBits.trans (psll_iff (by decide) dst.bits src.toNat)
  | psrlw | psrld | psrlq =>
    simp only [IsPackedShift128, PackedShift.shifted_psrl (.inl rfl), PackedShift.shifted_psrl (.inr (.inl rfl)),
      PackedShift.shifted_psrl (.inr (.inr rfl))]
    exact exists_map_ofBits.trans (psrl_iff (by decide) dst.bits src.toNat)

/-! ## Shifts by bytes -/

/-- The bits of a register that is shifted to the left, where a half goes into the other one. -/
theorem bits_shiftLeft (x : U128) {n : Nat} (h0 : 0 < n) (h : n < 64) :
    (x.hi <<< n ||| x.lo >>> (64 - n)) ++ x.lo <<< n = x.bits <<< n := by
  apply BitVec.eq_of_getLsbD_eq
  intro i hi
  simp only [U128.bits, BitVec.getLsbD_append, BitVec.getLsbD_or, BitVec.getLsbD_shiftLeft, BitVec.getLsbD_ushiftRight]
  by_cases hlow : i < 64
  · simp [hlow, show i - n < 64 by omega, hi]
  · by_cases hcross : i - 64 < n
    · simp [hlow, hcross, hi, show i - n < 64 by omega, show ¬ i < n by omega, show 64 - n + (i - 64) = i - n by omega]
    · simp [hlow, hcross, hi, show ¬ i - n < 64 by omega, show ¬ i < n by omega, show i - 64 < 64 by omega,
        show i - 64 - n = i - n - 64 by omega, BitVec.getLsbD_of_ge x.lo (64 - n + (i - 64)) (by omega)]

theorem bits_ushiftRight (x : U128) {n : Nat} (h0 : 0 < n) (h : n < 64) :
    x.hi >>> n ++ (x.lo >>> n ||| x.hi <<< (64 - n)) = x.bits >>> n := by
  apply BitVec.eq_of_getLsbD_eq
  intro i hi
  simp only [U128.bits, BitVec.getLsbD_append, BitVec.getLsbD_or, BitVec.getLsbD_shiftLeft, BitVec.getLsbD_ushiftRight]
  by_cases hhigh : 64 ≤ i
  · simp [show ¬ i < 64 by omega, show ¬ n + i < 64 by omega, show n + (i - 64) = n + i - 64 by omega]
  · by_cases hcross : i < 64 - n
    · simp [hcross, show i < 64 by omega, show n + i < 64 by omega]
    · simp [hcross, show i < 64 by omega, show ¬ n + i < 64 by omega, show i - (64 - n) = n + i - 64 by omega,
        BitVec.getLsbD_of_ge x.lo (n + i) (by omega)]

/-- From one half on, the other one is left empty. -/
theorem bits_shiftLeft_half (x : U128) (n : Nat) : x.lo <<< n ++ 0#64 = x.bits <<< (64 + n) := by
  apply BitVec.eq_of_getLsbD_eq
  intro i hi
  simp only [U128.bits, BitVec.getLsbD_append, BitVec.getLsbD_shiftLeft]
  by_cases hlow : i < 64
  · simp [hlow, show i < 64 + n by omega]
  · by_cases hshift : i - 64 < n
    · simp [hlow, hshift, show i < 64 + n by omega]
    · simp [hlow, hshift, hi, show ¬ i < 64 + n by omega, show i - 64 < 64 by omega, show i - 64 - n < 64 by omega,
        show i - (64 + n) = i - 64 - n by omega]

theorem bits_ushiftRight_half (x : U128) (n : Nat) : 0#64 ++ x.hi >>> n = x.bits >>> (64 + n) := by
  apply BitVec.eq_of_getLsbD_eq
  intro i hi
  simp only [U128.bits, BitVec.getLsbD_append, BitVec.getLsbD_ushiftRight]
  by_cases hlow : i < 64
  · simp [hlow, show ¬ 64 + n + i < 64 by omega, show 64 + n + i - 64 = n + i by omega]
  · simp [hlow, show ¬ 64 + n + i < 64 by omega, BitVec.getLsbD_of_ge x.hi (64 + n + i - 64) (by omega)]

theorem pslldq_of_pos (dst : U128) {src : BitVec 8} (h : 0 < src.toNat) :
    ∃ x, pslldq dst src = .ok x ∧ x.bits = ByteShift.pslldq.shifted dst.bits src.toNat := by
  rw [pslldq, ByteShift.shifted]
  by_cases hall : 16 ≤ src.toNat
  · rw [if_pos hall, if_pos hall]
    exact ⟨_, rfl, rfl⟩
  · rw [if_neg hall, if_neg hall]
    by_cases hhalf : 8 ≤ src.toNat
    · rw [if_pos hhalf, hostShl_of_lt _ (by omega)]
      refine ⟨_, rfl, ?_⟩
      rw [show 8 * src.toNat = 64 + 8 * (src.toNat - 8) by omega]
      exact bits_shiftLeft_half dst _
    · rw [if_neg hhalf, hostShl_of_lt _ (by omega), hostShr_of_lt _ (by omega), hostShl_of_lt _ (by omega)]
      exact ⟨_, rfl, bits_shiftLeft dst (by omega) (by omega)⟩

theorem psrldq_of_pos (dst : U128) {src : BitVec 8} (h : 0 < src.toNat) :
    ∃ x, psrldq dst src = .ok x ∧ x.bits = ByteShift.psrldq.shifted dst.bits src.toNat := by
  rw [psrldq, ByteShift.shifted]
  by_cases hall : 16 ≤ src.toNat
  · rw [if_pos hall, if_pos hall]
    exact ⟨_, rfl, rfl⟩
  · rw [if_neg hall, if_neg hall]
    by_cases hhalf : 8 ≤ src.toNat
    · rw [if_pos hhalf, hostShr_of_lt _ (by omega)]
      refine ⟨_, rfl, ?_⟩
      rw [show 8 * src.toNat = 64 + 8 * (src.toNat - 8) by omega]
      exact bits_ushiftRight_half dst _
    · rw [if_neg hhalf, hostShr_of_lt _ (by omega), hostShl_of_lt _ (by omega), hostShr_of_lt _ (by omega)]
      exact ⟨_, rfl, bits_ushiftRight dst (by omega) (by omega)⟩

/-- A shift by no bytes shifts a half by its whole width. -/
theorem byteShift_zero (op : ByteShift) (dst : U128) : op.run dst 0 = .error .undefined := by
  cases op with
  | pslldq | psrldq => rfl

theorem isByteShift_iff (op : ByteShift) (dst : U128) (src : BitVec 8) :
    IsByteShift op dst src.toNat (op.run dst src) ↔ src ≠ 0 := by
  constructor
  · rintro ⟨x, hx, -⟩ rfl
    rw [byteShift_zero] at hx
    cases hx
  · intro hne
    have hpos : 0 < src.toNat := by
      rw [ne_eq, BitVec.toNat_eq] at hne
      exact Nat.pos_of_ne_zero hne
    cases op with
    | pslldq => exact pslldq_of_pos dst hpos
    | psrldq => exact psrldq_of_pos dst hpos

end CpuImpl

end X64Emulator
