import X64Emulator.Packed
import X64Emulator.Lib.Wrapping
import Mathlib.Tactic.Linarith

/-!
# Packed operations at both sizes

An operation that exists for MMX and for SSE registers is written twice. On an SSE register it computes what the other one
computes on each half. `pshufb64` takes its mask from its sibling, and so reads behind its array for some selectors.
-/

namespace X64Emulator

namespace CpuImpl

open Lanes Outcome

inductive PackedOp where
  | paddb | paddw | paddd | paddq
  | paddsb | paddsw | paddusb | paddusw
  | psubb | psubw | psubd | psubq
  | psubsb | psubsw | psubusb | psubusw
  | pcmpeqb | pcmpeqw | pcmpeqd
  | pcmpgtb | pcmpgtw | pcmpgtd
  | pmulhuw | pmulhw | pmullw | pmuludq | pmulhrsw
  | pmaddwd | pmaddubsw
  | psadbw
  | pavgb | pavgw
  | pmaxsw | pmaxub
  | pminsw | pminub
deriving DecidableEq, Repr

namespace PackedOp

def run64 : PackedOp → BitVec 64 → BitVec 64 → Except CpuFailure (BitVec 64)
  | .paddb, dst, src => .ok (paddb64 dst src)
  | .paddw, dst, src => .ok (paddw64 dst src)
  | .paddd, dst, src => .ok (paddd64 dst src)
  | .paddq, dst, src => .ok (paddq64 dst src)
  | .paddsb, dst, src => .ok (paddsb64 dst src)
  | .paddsw, dst, src => .ok (paddsw64 dst src)
  | .paddusb, dst, src => .ok (paddusb64 dst src)
  | .paddusw, dst, src => .ok (paddusw64 dst src)
  | .psubb, dst, src => .ok (psubb64 dst src)
  | .psubw, dst, src => .ok (psubw64 dst src)
  | .psubd, dst, src => .ok (psubd64 dst src)
  | .psubq, dst, src => .ok (psubq64 dst src)
  | .psubsb, dst, src => .ok (psubsb64 dst src)
  | .psubsw, dst, src => .ok (psubsw64 dst src)
  | .psubusb, dst, src => .ok (psubusb64 dst src)
  | .psubusw, dst, src => .ok (psubusw64 dst src)
  | .pcmpeqb, dst, src => .ok (pcmpeqb64 dst src)
  | .pcmpeqw, dst, src => .ok (pcmpeqw64 dst src)
  | .pcmpeqd, dst, src => .ok (pcmpeqd64 dst src)
  | .pcmpgtb, dst, src => .ok (pcmpgtb64 dst src)
  | .pcmpgtw, dst, src => .ok (pcmpgtw64 dst src)
  | .pcmpgtd, dst, src => .ok (pcmpgtd64 dst src)
  | .pmulhuw, dst, src => .ok (pmulhuw64 dst src)
  | .pmulhw, dst, src => .ok (pmulhw64 dst src)
  | .pmullw, dst, src => .ok (pmullw64 dst src)
  | .pmuludq, dst, src => .ok (pmuludq64 dst src)
  | .pmulhrsw, dst, src => .ok (pmulhrsw64 dst src)
  | .pmaddwd, dst, src => pmaddwd64 dst src
  | .pmaddubsw, dst, src => .ok (pmaddubsw64 dst src)
  | .psadbw, dst, src => .ok (psadbw64 dst src)
  | .pavgb, dst, src => .ok (pavgb64 dst src)
  | .pavgw, dst, src => .ok (pavgw64 dst src)
  | .pmaxsw, dst, src => .ok (pmaxsw64 dst src)
  | .pmaxub, dst, src => .ok (pmaxub64 dst src)
  | .pminsw, dst, src => .ok (pminsw64 dst src)
  | .pminub, dst, src => .ok (pminub64 dst src)

def run128 : PackedOp → U128 → U128 → Except CpuFailure U128
  | .paddb, dst, src => .ok (paddb128 dst src)
  | .paddw, dst, src => .ok (paddw128 dst src)
  | .paddd, dst, src => .ok (paddd128 dst src)
  | .paddq, dst, src => .ok (paddq128 dst src)
  | .paddsb, dst, src => .ok (paddsb128 dst src)
  | .paddsw, dst, src => .ok (paddsw128 dst src)
  | .paddusb, dst, src => .ok (paddusb128 dst src)
  | .paddusw, dst, src => .ok (paddusw128 dst src)
  | .psubb, dst, src => .ok (psubb128 dst src)
  | .psubw, dst, src => .ok (psubw128 dst src)
  | .psubd, dst, src => .ok (psubd128 dst src)
  | .psubq, dst, src => .ok (psubq128 dst src)
  | .psubsb, dst, src => .ok (psubsb128 dst src)
  | .psubsw, dst, src => .ok (psubsw128 dst src)
  | .psubusb, dst, src => .ok (psubusb128 dst src)
  | .psubusw, dst, src => .ok (psubusw128 dst src)
  | .pcmpeqb, dst, src => .ok (pcmpeqb128 dst src)
  | .pcmpeqw, dst, src => .ok (pcmpeqw128 dst src)
  | .pcmpeqd, dst, src => .ok (pcmpeqd128 dst src)
  | .pcmpgtb, dst, src => .ok (pcmpgtb128 dst src)
  | .pcmpgtw, dst, src => .ok (pcmpgtw128 dst src)
  | .pcmpgtd, dst, src => .ok (pcmpgtd128 dst src)
  | .pmulhuw, dst, src => .ok (pmulhuw128 dst src)
  | .pmulhw, dst, src => .ok (pmulhw128 dst src)
  | .pmullw, dst, src => .ok (pmullw128 dst src)
  | .pmuludq, dst, src => .ok (pmuludq128 dst src)
  | .pmulhrsw, dst, src => .ok (pmulhrsw128 dst src)
  | .pmaddwd, dst, src => pmaddwd128 dst src
  | .pmaddubsw, dst, src => .ok (pmaddubsw128 dst src)
  | .psadbw, dst, src => .ok (psadbw128 dst src)
  | .pavgb, dst, src => .ok (pavgb128 dst src)
  | .pavgw, dst, src => .ok (pavgw128 dst src)
  | .pmaxsw, dst, src => .ok (pmaxsw128 dst src)
  | .pmaxub, dst, src => .ok (pmaxub128 dst src)
  | .pminsw, dst, src => .ok (pminsw128 dst src)
  | .pminub, dst, src => .ok (pminub128 dst src)

/-- The operation on a register of two halves gives the two results of the operation on the halves. -/
def Agrees (op : PackedOp) (a b c d : BitVec 64) : Prop :=
  ∃ lo hi, op.run64 a c = .ok lo ∧ op.run64 b d = .ok hi ∧ op.run128 ⟨a, b⟩ ⟨c, d⟩ = .ok ⟨lo, hi⟩

end PackedOp

/-! ## Two halves -/

variable {w n : Nat}

theorem lane_low (a b : BitVec 64) (h : n * w = 64) {i : Nat} (hi : i < n) : lane w (U128.mk a b).bits i = lane w a i :=
  lane_append_low b a h hi

theorem lane_high (a b : BitVec 64) (h : n * w = 64) (i : Nat) : lane w (U128.mk a b).bits (n + i) = lane w b i :=
  lane_append_high b a h i

/-- A register whose lanes are computed from the lanes of each half is made of two halves. -/
theorem ofBits_join {f low high : Nat → BitVec w} (h : n * w = 64) (hlow : ∀ i < n, f i = low i)
    (hhigh : ∀ i < n, f (n + i) = high i) : U128.ofBits (join 128 (n + n) f) = ⟨join 64 n low, join 64 n high⟩ := by
  have hsplit : join 128 (n + n) f = join 64 n (fun i => f (n + i)) ++ join 64 n f := join_append h h
  rw [hsplit, join_congr hlow, join_congr hhigh, U128.ofBits_append]

theorem lanes128_eq (f : BitVec w → BitVec w → BitVec w) (h : 64 / w * w = 64) (h2 : 128 / w = 64 / w + 64 / w)
    (a b c d : BitVec 64) : lanes128 w f ⟨a, b⟩ ⟨c, d⟩ = ⟨lanes64 w f a c, lanes64 w f b d⟩ := by
  rw [lanes128, h2]
  apply ofBits_join h
  · intro i hi
    rw [lane_low a b h hi, lane_low c d h hi]
  · intro i _
    rw [lane_high a b h, lane_high c d h]

/-- The loops over pairs of lanes read the lanes of one half. -/
theorem lane_pair_low (a b : BitVec 64) (h : 2 * n * w = 64) {i : Nat} (hi : i < n) :
    lane w (U128.mk a b).bits (2 * i) = lane w a (2 * i) ∧ lane w (U128.mk a b).bits (2 * i + 1) = lane w a (2 * i + 1) :=
  ⟨lane_low a b h (by omega), lane_low a b h (by omega)⟩

theorem lane_pair_high (a b : BitVec 64) (h : 2 * n * w = 64) (i : Nat) :
    lane w (U128.mk a b).bits (2 * (n + i)) = lane w b (2 * i) ∧
    lane w (U128.mk a b).bits (2 * (n + i) + 1) = lane w b (2 * i + 1) := by
  rw [Nat.mul_add, Nat.add_assoc]
  exact ⟨lane_high a b h _, lane_high a b h _⟩

theorem pmuludq128_eq (a b c d : BitVec 64) : pmuludq128 ⟨a, b⟩ ⟨c, d⟩ = ⟨pmuludq64 a c, pmuludq64 b d⟩ := by
  apply ofBits_join (n := 1) (by decide)
  · intro i hi
    rw [(lane_pair_low a b rfl hi).1, (lane_pair_low c d rfl hi).1]
  · intro i _
    rw [(lane_pair_high a b rfl i).1, (lane_pair_high c d rfl i).1]

theorem pmaddubsw128_eq (a b c d : BitVec 64) : pmaddubsw128 ⟨a, b⟩ ⟨c, d⟩ = ⟨pmaddubsw64 a c, pmaddubsw64 b d⟩ := by
  apply ofBits_join (n := 4) (by decide)
  · intro i hi
    rw [(lane_pair_low a b rfl hi).1, (lane_pair_low c d rfl hi).1, (lane_pair_low a b rfl hi).2, (lane_pair_low c d rfl hi).2]
  · intro i _
    rw [(lane_pair_high a b rfl i).1, (lane_pair_high c d rfl i).1, (lane_pair_high a b rfl i).2, (lane_pair_high c d rfl i).2]

theorem psadbw128_eq (a b c d : BitVec 64) : psadbw128 ⟨a, b⟩ ⟨c, d⟩ = ⟨psadbw64 a c, psadbw64 b d⟩ := by
  have hlow : ∀ lo : BitVec 16, ∀ i ∈ List.range 8,
      lo + absDifference (lane 8 (U128.mk a b).bits i) (lane 8 (U128.mk c d).bits i) =
        lo + absDifference (lane 8 a i) (lane 8 c i) := by
    intro lo i hi
    rw [lane_low a b (n := 8) (by decide) (List.mem_range.1 hi), lane_low c d (n := 8) (by decide) (List.mem_range.1 hi)]
  have hhigh : ∀ hi : BitVec 16, ∀ i ∈ List.range 8,
      hi + absDifference (lane 8 (U128.mk a b).bits (8 + i)) (lane 8 (U128.mk c d).bits (8 + i)) =
        hi + absDifference (lane 8 b i) (lane 8 d i) := by
    intro hi i _
    rw [lane_high a b (by decide), lane_high c d (by decide)]
  rw [psadbw128, psadbw64, psadbw64, List.range'_eq_map_range, List.foldl_map, List.foldl_ext _ _ _ hlow,
    List.foldl_ext _ _ _ hhigh]

/-! ## Sums of two products -/

theorem product_bounds {x y : Int} (hx : -2 ^ 15 ≤ x ∧ x < 2 ^ 15) (hy : -2 ^ 15 ≤ y ∧ y < 2 ^ 15) :
    -2 ^ 30 < x * y ∧ x * y ≤ 2 ^ 30 ∧ (x * y = 2 ^ 30 → x = -2 ^ 15 ∧ y = -2 ^ 15) := by
  refine ⟨by nlinarith, by nlinarith, ?_⟩
  intro heq
  constructor <;> nlinarith

theorem toInt_bounds (x : BitVec 16) : -2 ^ 15 ≤ x.toInt ∧ x.toInt < 2 ^ 15 :=
  ⟨BitVec.le_toInt x, BitVec.toInt_lt⟩

theorem toInt_product (x y : BitVec 16) : (x.signExtend 32 * y.signExtend 32).toInt = x.toInt * y.toInt := by
  have hbounds := product_bounds (toInt_bounds x) (toInt_bounds y)
  rw [BitVec.toInt_mul, BitVec.toInt_signExtend_of_le (by decide), BitVec.toInt_signExtend_of_le (by decide)]
  exact (Int.bmod_eq_iff (by omega)).2 ⟨by omega, by omega, ⟨0, by omega⟩⟩

theorem toInt_eq_lowest {x : BitVec 16} (h : x.toInt = -2 ^ 15) : x = 0x8000 :=
  BitVec.eq_of_toInt_eq h

/-- Of the sums of two products of words only the greatest does not fit. -/
theorem hostAdd_products_iff (x0 y0 x1 y1 : BitVec 16) :
    (∃ z, hostAdd (x0.signExtend 32 * y0.signExtend 32) (x1.signExtend 32 * y1.signExtend 32) = .ok z) ↔
    ¬ (x0 = 0x8000 ∧ y0 = 0x8000 ∧ x1 = 0x8000 ∧ y1 = 0x8000) := by
  constructor
  · rintro ⟨z, hz⟩ ⟨rfl, rfl, rfl, rfl⟩
    cases hz
  · intro hne
    have h0 := product_bounds (toInt_bounds x0) (toInt_bounds y0)
    have h1 := product_bounds (toInt_bounds x1) (toInt_bounds y1)
    have hsum : x0.toInt * y0.toInt + x1.toInt * y1.toInt ≠ 2 ^ 31 := by
      intro heq
      obtain ⟨hx0, hy0⟩ := h0.2.2 (by omega)
      obtain ⟨hx1, hy1⟩ := h1.2.2 (by omega)
      exact hne ⟨toInt_eq_lowest hx0, toInt_eq_lowest hy0, toInt_eq_lowest hx1, toInt_eq_lowest hy1⟩
    have hfits : ¬ (x0.signExtend 32 * y0.signExtend 32).saddOverflow (x1.signExtend 32 * y1.signExtend 32) := by
      rw [BitVec.saddOverflow, toInt_product, toInt_product]
      simp only [Bool.or_eq_true, decide_eq_true_eq]
      omega
    rw [hostAdd, (check_eq_ok (u := ())).2 hfits]
    exact ⟨_, rfl⟩

/-- No two words next to each other are the lowest number in both operands. -/
def MaddFits (dst src : BitVec 64) : Prop :=
  ∀ i < 2, ¬ (lane 16 dst (2 * i) = 0x8000 ∧ lane 16 src (2 * i) = 0x8000 ∧
    lane 16 dst (2 * i + 1) = 0x8000 ∧ lane 16 src (2 * i + 1) = 0x8000)

theorem exists_pmaddwd64_iff (dst src : BitVec 64) : (∃ x, pmaddwd64 dst src = .ok x) ↔ MaddFits dst src :=
  exists_joinM_iff.trans (forall₂_congr fun _ _ => hostAdd_products_iff _ _ _ _)

theorem pmaddwdLane_low (a b c d : BitVec 64) {i : Nat} (hi : i < 2) :
    pmaddwdLane (U128.mk a b).bits (U128.mk c d).bits i = pmaddwdLane a c i := by
  rw [pmaddwdLane, (lane_pair_low a b rfl hi).1, (lane_pair_low c d rfl hi).1, (lane_pair_low a b rfl hi).2,
    (lane_pair_low c d rfl hi).2]
  rfl

theorem pmaddwdLane_high (a b c d : BitVec 64) (i : Nat) :
    pmaddwdLane (U128.mk a b).bits (U128.mk c d).bits (2 + i) = pmaddwdLane b d i := by
  rw [pmaddwdLane, (lane_pair_high a b rfl i).1, (lane_pair_high c d rfl i).1, (lane_pair_high a b rfl i).2,
    (lane_pair_high c d rfl i).2]
  rfl

theorem pmaddwd128_eq {a b c d lo hi : BitVec 64} (hlo : pmaddwd64 a c = .ok lo) (hhi : pmaddwd64 b d = .ok hi) :
    pmaddwd128 ⟨a, b⟩ ⟨c, d⟩ = .ok ⟨lo, hi⟩ := by
  have hlow : joinM 64 2 (pmaddwdLane (U128.mk a b).bits (U128.mk c d).bits) = .ok lo :=
    (joinM_congr fun i hi => pmaddwdLane_low a b c d hi).trans hlo
  have hhigh : joinM 64 2 (fun i => pmaddwdLane (U128.mk a b).bits (U128.mk c d).bits (2 + i)) = .ok hi :=
    (joinM_congr fun i _ => pmaddwdLane_high a b c d i).trans hhi
  have hall : joinM 128 4 (pmaddwdLane (U128.mk a b).bits (U128.mk c d).bits) = .ok (hi ++ lo) :=
    joinM_append (v := 64) (k := 64) (n := 2) (m := 2) rfl rfl hlow hhigh
  rw [pmaddwd128, hall, ← U128.ofBits_append]
  rfl

/-- An operation that computes lane from lane, with one computation at both sizes. -/
theorem agrees_of_lanes {op : PackedOp} (f : BitVec w → BitVec w → BitVec w) (h : 64 / w * w = 64)
    (h2 : 128 / w = 64 / w + 64 / w) (h64 : ∀ dst src, op.run64 dst src = .ok (lanes64 w f dst src))
    (h128 : ∀ dst src, op.run128 dst src = .ok (lanes128 w f dst src)) (a b c d : BitVec 64) : op.Agrees a b c d :=
  ⟨_, _, h64 a c, h64 b d, (h128 _ _).trans (congrArg Except.ok (lanes128_eq f h h2 a b c d))⟩

/-- What computes lane from lane. -/
def PackedOp.IsLanewise : PackedOp → Prop
  | .pmuludq | .pmaddwd | .pmaddubsw | .psadbw => False
  | _ => True

theorem agrees_of_isLanewise {op : PackedOp} (hop : op.IsLanewise) (a b c d : BitVec 64) : op.Agrees a b c d := by
  cases op with
  | paddb | paddsb | paddusb | psubb | psubsb | psubusb | pcmpeqb | pcmpgtb | pavgb | pmaxub | pminub =>
    apply agrees_of_lanes (w := 8)
    · rfl
    · rfl
    · intro dst src
      simp only [PackedOp.run64, paddb64, paddsb64, paddusb64, psubb64, psubsb64, psubusb64, pcmpeqb64, pcmpgtb64, pavgb64,
        pmaxub64, pminub64, padd64, padds64, paddus64, psub64, psubs64, psubus64, pcmpeq64, pcmpgt64, pavg64]
      rfl
    · intro dst src
      rfl
  | paddw | paddsw | paddusw | psubw | psubsw | psubusw | pcmpeqw | pcmpgtw | pmulhuw | pmulhw | pmullw | pmulhrsw | pavgw |
    pmaxsw | pminsw =>
    apply agrees_of_lanes (w := 16)
    · rfl
    · rfl
    · intro dst src
      simp only [PackedOp.run64, paddw64, paddsw64, paddusw64, psubw64, psubsw64, psubusw64, pcmpeqw64, pcmpgtw64, pmulhuw64,
        pmulhw64, pmullw64, pmulhrsw64, pavgw64, pmaxsw64, pminsw64, padd64, padds64, paddus64, psub64, psubs64, psubus64,
        pcmpeq64, pcmpgt64, pavg64]
      rfl
    · intro dst src
      rfl
  | paddd | psubd | pcmpeqd | pcmpgtd =>
    apply agrees_of_lanes (w := 32)
    · rfl
    · rfl
    · intro dst src
      simp only [PackedOp.run64, paddd64, psubd64, pcmpeqd64, pcmpgtd64, padd64, psub64, pcmpeq64, pcmpgt64]
      rfl
    · intro dst src
      rfl
  | paddq | psubq =>
    apply agrees_of_lanes (w := 64)
    · rfl
    · rfl
    · intro dst src
      simp only [PackedOp.run64, paddq64, psubq64, padd64, psub64]
      rfl
    · intro dst src
      rfl
  | pmuludq | pmaddwd | pmaddubsw | psadbw => exact hop.elim

theorem agrees_iff (op : PackedOp) (a b c d : BitVec 64) :
    op.Agrees a b c d ↔ (op = .pmaddwd → MaddFits a c ∧ MaddFits b d) := by
  cases op with
  | pmaddwd =>
    constructor
    · rintro ⟨lo, hi, hlo, hhi, -⟩ -
      exact ⟨(exists_pmaddwd64_iff a c).1 ⟨lo, hlo⟩, (exists_pmaddwd64_iff b d).1 ⟨hi, hhi⟩⟩
    · intro h
      obtain ⟨lo, hlo⟩ := (exists_pmaddwd64_iff a c).2 (h rfl).1
      obtain ⟨hi, hhi⟩ := (exists_pmaddwd64_iff b d).2 (h rfl).2
      exact ⟨lo, hi, hlo, hhi, pmaddwd128_eq hlo hhi⟩
  | pmuludq => exact iff_of_true ⟨_, _, rfl, rfl, congrArg Except.ok (pmuludq128_eq a b c d)⟩ nofun
  | pmaddubsw => exact iff_of_true ⟨_, _, rfl, rfl, congrArg Except.ok (pmaddubsw128_eq a b c d)⟩ nofun
  | psadbw => exact iff_of_true ⟨_, _, rfl, rfl, congrArg Except.ok (psadbw128_eq a b c d)⟩ nofun
  | _ =>
    refine iff_of_true (agrees_of_isLanewise ?_ a b c d) nofun
    trivial

/-! ## Shuffles -/

/-- Byte `i` of a shuffle of eight bytes. -/
def shuffled (dst src : BitVec 64) (i : Nat) : BitVec 8 :=
  if (lane 8 src i).msb then 0 else lane 8 dst ((lane 8 src i).toNat % 8)

/-- Every selector that does not clear its byte has bit 3 clear. -/
def SelectsWithin (src : BitVec 64) : Prop := ∀ i < 8, (lane 8 src i).msb = false → (lane 8 src i).getLsbD 3 = false

/-- What the loop of `pshufb64` does for a selector. -/
theorem shuffle_lane (dst : BitVec 64) (sel : BitVec 8) :
    (if sel &&& 0x80 = 0x80 then .ok 0
    else do
      check ((sel &&& 0x0f).toNat < 8) CpuFailure.undefined
      .ok (lane 8 dst (sel &&& 0x0f).toNat)) =
    if sel.msb = false ∧ sel.getLsbD 3 = true then .error .undefined
    else .ok (if sel.msb then 0 else lane 8 dst (sel.toNat % 8)) := by
  have hsel : ∀ sel : BitVec 8, (sel &&& 0x80 = 0x80 ↔ sel.msb = true) ∧
      ((sel &&& 0x0f).toNat < 8 ↔ sel.getLsbD 3 = false) ∧
      (sel.getLsbD 3 = false → (sel &&& 0x0f).toNat = sel.toNat % 8) := by decide
  obtain ⟨htop, hbelow, hindex⟩ := hsel sel
  by_cases hmsb : sel.msb = true
  · rw [if_pos (htop.2 hmsb), if_neg (by simp [hmsb]), if_pos hmsb]
  · rw [if_neg (mt htop.1 hmsb)]
    by_cases hbit : sel.getLsbD 3 = false
    · have hwithin : ¬ (sel.msb = false ∧ sel.getLsbD 3 = true) := fun hwrong =>
        Bool.false_ne_true (hbit.symm.trans hwrong.2)
      rw [if_neg hwithin, if_neg hmsb, (check_eq_ok (u := ())).2 (hbelow.2 hbit), hindex hbit]
      rfl
    · rw [if_pos ⟨by simpa using hmsb, by simpa using hbit⟩, check, if_neg (mt hbelow.1 hbit)]
      rfl

theorem pshufb64_iff (dst src : BitVec 64) :
    (∃ x, pshufb64 dst src = .ok x ∧ ∀ i < 8, lane 8 x i = shuffled dst src i) ↔ SelectsWithin src := by
  have hlane : ∀ i, _ := fun i => shuffle_lane dst (lane 8 src i)
  constructor
  · rintro ⟨x, hx, -⟩ i hi hmsb
    obtain ⟨y, hy⟩ := exists_joinM_iff.1 ⟨x, hx⟩ i hi
    by_contra hbit
    rw [hlane i, if_pos ⟨hmsb, by simpa using hbit⟩] at hy
    cases hy
  · intro h
    refine ⟨join 64 8 (shuffled dst src), joinM_eq_ok ?_, ?_⟩
    · intro i hi
      rw [hlane i, if_neg (fun hwrong => Bool.false_ne_true ((h i hi hwrong.1).symm.trans hwrong.2))]
      rfl
    · intro i hi
      exact lane_join (by decide) hi

/-- The two sizes of an operation agree but where a sum of `pmaddwd` does not fit, and `pshufb64` is the shuffle for exactly the
selectors that stay within its eight bytes. -/
theorem packedOperations_exact_iff (op : PackedOp) (a b c d dst src : BitVec 64) :
    (op.Agrees a b c d ↔ (op = .pmaddwd → MaddFits a c ∧ MaddFits b d)) ∧
    ((∃ x, pshufb64 dst src = .ok x ∧ ∀ i < 8, lane 8 x i = shuffled dst src i) ↔ SelectsWithin src) :=
  ⟨agrees_iff op a b c d, pshufb64_iff dst src⟩

/-- The selector 8 picks byte 0, and the code reads behind the array. -/
theorem packedOperations_wrong :
    ¬ (∃ x, pshufb64 0x1122334455667788 8 = .ok x ∧ ∀ i < 8, lane 8 x i = shuffled 0x1122334455667788 8 i) ∧
    ¬ PackedOp.pmaddwd.Agrees 0x80008000 0 0x80008000 0 := by
  have hpshufb : pshufb64 0x1122334455667788 8 = .error .undefined := by decide
  have hpmaddwd : pmaddwd64 0x80008000 0x80008000 = .error .undefined := by decide
  constructor
  · rintro ⟨x, hx, -⟩
    rw [hpshufb] at hx
    cases hx
  · rintro ⟨lo, hi, hlo, -⟩
    rw [PackedOp.run64, hpmaddwd] at hlo
    cases hlo

end CpuImpl

end X64Emulator
