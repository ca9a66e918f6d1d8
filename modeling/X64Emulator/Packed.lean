import X64Emulator.CpuImpl
import X64Emulator.Lib.Lanes

/-!
# The packed arithmetic of the CPU

What `CpuImpl` computes lane by lane on the 64 bits of an MMX register and on the 128 bits of an SSE register. An operand is
copied into an array of lanes, the lowest first, and the array is copied back. A template of the source is a definition over the
width `w` of its lanes.
-/

namespace X64Emulator

open Lanes Outcome

/-- `u128` -/
structure U128 where
  lo : BitVec 64
  hi : BitVec 64
deriving DecidableEq, Repr

namespace U128

/-- The bytes that `memcpy` sees, the lower half first. -/
def bits (x : U128) : BitVec 128 := x.hi ++ x.lo

def ofBits (x : BitVec 128) : U128 where
  lo := x.setWidth 64
  hi := x.extractLsb' 64 64

@[simp] theorem bits_ofBits (x : BitVec 128) : (ofBits x).bits = x := by
  apply BitVec.eq_of_getLsbD_eq
  intro i hi
  rw [bits, ofBits, BitVec.getLsbD_append, BitVec.getLsbD_setWidth, BitVec.getLsbD_extractLsb']
  by_cases hlow : i < 64
  · simp [hlow]
  · simp [hlow, show i - 64 < 64 by omega, show 64 + (i - 64) = i by omega]

theorem ofBits_append (high low : BitVec 64) : ofBits (high ++ low) = { lo := low, hi := high } := by
  have hlow : (high ++ low).setWidth 64 = low := by
    apply BitVec.eq_of_getLsbD_eq
    intro i hi
    rw [BitVec.getLsbD_setWidth, BitVec.getLsbD_append, if_pos hi]
    simp [hi]
  have hhigh : (high ++ low).extractLsb' 64 64 = high := by
    apply BitVec.eq_of_getLsbD_eq
    intro i hi
    rw [BitVec.getLsbD_extractLsb', BitVec.getLsbD_append, if_neg (by omega), Nat.add_sub_cancel_left]
    simp [hi]
  rw [ofBits, hlow, hhigh]

@[simp] theorem ofBits_bits (x : U128) : ofBits x.bits = x := ofBits_append x.hi x.lo

end U128

namespace CpuImpl

/-- A loop that computes every lane of `dst` from the same lanes of `dst` and `src`. -/
def lanes64 (w : Nat) (f : BitVec w → BitVec w → BitVec w) (dst src : BitVec 64) : BitVec 64 :=
  join 64 (64 / w) fun i => f (lane w dst i) (lane w src i)

def lanes128 (w : Nat) (f : BitVec w → BitVec w → BitVec w) (dst src : U128) : U128 :=
  .ofBits (join 128 (128 / w) fun i => f (lane w dst.bits i) (lane w src.bits i))

/-! ## Shuffles -/

def pshufb64 (dst src : BitVec 64) : Except CpuFailure (BitVec 64) :=
  joinM 64 8 fun i =>
    let sel := lane 8 src i
    if sel &&& 0x80 = 0x80 then .ok 0
    else do
      -- the array of the bytes of `dst` has eight elements
      check ((sel &&& 0x0f).toNat < 8) .undefined
      .ok (lane 8 dst (sel &&& 0x0f).toNat)

/-! ## Comparisons -/

def pcmpeq64 (w : Nat) : BitVec 64 → BitVec 64 → BitVec 64 :=
  lanes64 w fun d s => if d = s then BitVec.allOnes w else 0

def pcmpeqb64 (dst src : BitVec 64) : BitVec 64 := pcmpeq64 8 dst src
def pcmpeqw64 (dst src : BitVec 64) : BitVec 64 := pcmpeq64 16 dst src
def pcmpeqd64 (dst src : BitVec 64) : BitVec 64 := pcmpeq64 32 dst src

def pcmpeq128 (w : Nat) : U128 → U128 → U128 :=
  lanes128 w fun d s => if d = s then BitVec.allOnes w else 0

def pcmpeqb128 (dst src : U128) : U128 := pcmpeq128 8 dst src
def pcmpeqw128 (dst src : U128) : U128 := pcmpeq128 16 dst src
def pcmpeqd128 (dst src : U128) : U128 := pcmpeq128 32 dst src

def pcmpgt64 (w : Nat) : BitVec 64 → BitVec 64 → BitVec 64 :=
  lanes64 w fun d s => if s.slt d then BitVec.allOnes w else 0

def pcmpgtb64 (dst src : BitVec 64) : BitVec 64 := pcmpgt64 8 dst src
def pcmpgtw64 (dst src : BitVec 64) : BitVec 64 := pcmpgt64 16 dst src
def pcmpgtd64 (dst src : BitVec 64) : BitVec 64 := pcmpgt64 32 dst src

def pcmpgt128 (w : Nat) : U128 → U128 → U128 :=
  lanes128 w fun d s => if s.slt d then BitVec.allOnes w else 0

def pcmpgtb128 (dst src : U128) : U128 := pcmpgt128 8 dst src
def pcmpgtw128 (dst src : U128) : U128 := pcmpgt128 16 dst src
def pcmpgtd128 (dst src : U128) : U128 := pcmpgt128 32 dst src

/-! ## Sums and differences -/

/-- A value of the signed type of twice the width, cut to the limits of the shorter one. -/
def saturate (w : Nat) (s : BitVec (2 * w)) : BitVec w :=
  let max := (BitVec.intMax w).signExtend (2 * w)
  let min := (BitVec.intMin w).signExtend (2 * w)
  let s := if max.slt s then max else s
  let s := if s.slt min then min else s
  s.setWidth w

/-- A value of the unsigned type of twice the width, cut to the limit of the shorter one. -/
def saturateUnsigned (w : Nat) (s : BitVec (2 * w)) : BitVec w :=
  let max := (BitVec.allOnes w).setWidth (2 * w)
  let s := if max < s then max else s
  s.setWidth w

def padd64 (w : Nat) : BitVec 64 → BitVec 64 → BitVec 64 := lanes64 w fun d s => d + s

def paddb64 (dst src : BitVec 64) : BitVec 64 := padd64 8 dst src
def paddw64 (dst src : BitVec 64) : BitVec 64 := padd64 16 dst src
def paddd64 (dst src : BitVec 64) : BitVec 64 := padd64 32 dst src
def paddq64 (dst src : BitVec 64) : BitVec 64 := padd64 64 dst src

def padds64 (w : Nat) : BitVec 64 → BitVec 64 → BitVec 64 :=
  lanes64 w fun d s => saturate w (d.signExtend (2 * w) + s.signExtend (2 * w))

def paddsb64 (dst src : BitVec 64) : BitVec 64 := padds64 8 dst src
def paddsw64 (dst src : BitVec 64) : BitVec 64 := padds64 16 dst src

def paddus64 (w : Nat) : BitVec 64 → BitVec 64 → BitVec 64 :=
  lanes64 w fun d s => saturateUnsigned w (d.setWidth (2 * w) + s.setWidth (2 * w))

def paddusb64 (dst src : BitVec 64) : BitVec 64 := paddus64 8 dst src
def paddusw64 (dst src : BitVec 64) : BitVec 64 := paddus64 16 dst src

def psub64 (w : Nat) : BitVec 64 → BitVec 64 → BitVec 64 := lanes64 w fun d s => d - s

def psubb64 (dst src : BitVec 64) : BitVec 64 := psub64 8 dst src
def psubw64 (dst src : BitVec 64) : BitVec 64 := psub64 16 dst src
def psubd64 (dst src : BitVec 64) : BitVec 64 := psub64 32 dst src
def psubq64 (dst src : BitVec 64) : BitVec 64 := psub64 64 dst src

def psubs64 (w : Nat) : BitVec 64 → BitVec 64 → BitVec 64 :=
  lanes64 w fun d s => saturate w (d.signExtend (2 * w) - s.signExtend (2 * w))

def psubsb64 (dst src : BitVec 64) : BitVec 64 := psubs64 8 dst src
def psubsw64 (dst src : BitVec 64) : BitVec 64 := psubs64 16 dst src

def psubus64 (w : Nat) : BitVec 64 → BitVec 64 → BitVec 64 :=
  lanes64 w fun d s => if s ≤ d then d - s else 0

def psubusb64 (dst src : BitVec 64) : BitVec 64 := psubus64 8 dst src
def psubusw64 (dst src : BitVec 64) : BitVec 64 := psubus64 16 dst src

def padd128 (w : Nat) : U128 → U128 → U128 := lanes128 w fun d s => d + s

def paddb128 (dst src : U128) : U128 := padd128 8 dst src
def paddw128 (dst src : U128) : U128 := padd128 16 dst src
def paddd128 (dst src : U128) : U128 := padd128 32 dst src
def paddq128 (dst src : U128) : U128 := padd128 64 dst src

def padds128 (w : Nat) : U128 → U128 → U128 :=
  lanes128 w fun d s => saturate w (d.signExtend (2 * w) + s.signExtend (2 * w))

def paddsb128 (dst src : U128) : U128 := padds128 8 dst src
def paddsw128 (dst src : U128) : U128 := padds128 16 dst src

def paddus128 (w : Nat) : U128 → U128 → U128 :=
  lanes128 w fun d s => saturateUnsigned w (d.setWidth (2 * w) + s.setWidth (2 * w))

def paddusb128 (dst src : U128) : U128 := paddus128 8 dst src
def paddusw128 (dst src : U128) : U128 := paddus128 16 dst src

def psub128 (w : Nat) : U128 → U128 → U128 := lanes128 w fun d s => d - s

def psubb128 (dst src : U128) : U128 := psub128 8 dst src
def psubw128 (dst src : U128) : U128 := psub128 16 dst src
def psubd128 (dst src : U128) : U128 := psub128 32 dst src
def psubq128 (dst src : U128) : U128 := psub128 64 dst src

def psubs128 (w : Nat) : U128 → U128 → U128 :=
  lanes128 w fun d s => saturate w (d.signExtend (2 * w) - s.signExtend (2 * w))

def psubsb128 (dst src : U128) : U128 := psubs128 8 dst src
def psubsw128 (dst src : U128) : U128 := psubs128 16 dst src

def psubus128 (w : Nat) : U128 → U128 → U128 :=
  lanes128 w fun d s => if s ≤ d then d - s else 0

def psubusb128 (dst src : U128) : U128 := psubus128 8 dst src
def psubusw128 (dst src : U128) : U128 := psubus128 16 dst src

/-! ## Products -/

def pmulhuw64 : BitVec 64 → BitVec 64 → BitVec 64 :=
  lanes64 16 fun d s => lane 16 (d.setWidth 32 * s.setWidth 32) 1

def pmulhw64 : BitVec 64 → BitVec 64 → BitVec 64 :=
  lanes64 16 fun d s => lane 16 (d.signExtend 32 * s.signExtend 32) 1

def pmullw64 : BitVec 64 → BitVec 64 → BitVec 64 :=
  lanes64 16 fun d s => lane 16 (d.signExtend 32 * s.signExtend 32) 0

/-- The halves of a product take the place of its factor and of the lane above it. -/
def pmuludq64 (dst src : BitVec 64) : BitVec 64 :=
  join 64 1 fun i => (lane 32 dst (2 * i)).setWidth 64 * (lane 32 src (2 * i)).setWidth 64

def pmulhuw128 : U128 → U128 → U128 :=
  lanes128 16 fun d s => lane 16 (d.setWidth 32 * s.setWidth 32) 1

def pmulhw128 : U128 → U128 → U128 :=
  lanes128 16 fun d s => lane 16 (d.signExtend 32 * s.signExtend 32) 1

def pmullw128 : U128 → U128 → U128 :=
  lanes128 16 fun d s => lane 16 (d.signExtend 32 * s.signExtend 32) 0

def pmuludq128 (dst src : U128) : U128 :=
  .ofBits (join 128 2 fun i => (lane 32 dst.bits (2 * i)).setWidth 64 * (lane 32 src.bits (2 * i)).setWidth 64)

/-- A sum of the type `i32`: what happens when it does not fit is undefined. -/
def hostAdd (x y : BitVec 32) : Except CpuFailure (BitVec 32) := do
  check (¬ x.saddOverflow y) .undefined
  .ok (x + y)

/-- What the loop of `pmaddwd64` and `pmaddwd128` puts into element `i` of its array. -/
def pmaddwdLane {v : Nat} (dst src : BitVec v) (i : Nat) : Except CpuFailure (BitVec 32) :=
  hostAdd ((lane 16 dst (2 * i)).signExtend 32 * (lane 16 src (2 * i)).signExtend 32)
    ((lane 16 dst (2 * i + 1)).signExtend 32 * (lane 16 src (2 * i + 1)).signExtend 32)

def pmaddwd64 (dst src : BitVec 64) : Except CpuFailure (BitVec 64) := joinM 64 2 (pmaddwdLane dst src)

def pmaddwd128 (dst src : U128) : Except CpuFailure U128 := (joinM 128 4 (pmaddwdLane dst.bits src.bits)).map U128.ofBits

def signSaturatedAdd (a b : BitVec 16) : BitVec 16 := saturate 16 (a.signExtend (2 * 16) + b.signExtend (2 * 16))

def pmaddubsw64 (dst src : BitVec 64) : BitVec 64 :=
  join 64 4 fun i =>
    let l := (lane 8 dst (2 * i)).setWidth 16 * (lane 8 src (2 * i)).signExtend 16
    let r := (lane 8 dst (2 * i + 1)).setWidth 16 * (lane 8 src (2 * i + 1)).signExtend 16
    signSaturatedAdd l r

def pmaddubsw128 (dst src : U128) : U128 :=
  .ofBits (join 128 8 fun i =>
    let l := (lane 8 dst.bits (2 * i)).setWidth 16 * (lane 8 src.bits (2 * i)).signExtend 16
    let r := (lane 8 dst.bits (2 * i + 1)).setWidth 16 * (lane 8 src.bits (2 * i + 1)).signExtend 16
    signSaturatedAdd l r)

def pmulhrsw64 : BitVec 64 → BitVec 64 → BitVec 64 :=
  lanes64 16 fun d s => (((d.signExtend 32 * s.signExtend 32).sshiftRight 14 + 1).sshiftRight 1).setWidth 16

def pmulhrsw128 : U128 → U128 → U128 :=
  lanes128 16 fun d s => (((d.signExtend 32 * s.signExtend 32).sshiftRight 14 + 1).sshiftRight 1).setWidth 16

/-! ## Sums of differences, averages, maxima and minima -/

/-- `(u16)std::abs(d - s)` -/
def absDifference (d s : BitVec 8) : BitVec 16 := BitVec.ofNat 16 ((d.toNat : Int) - s.toNat).natAbs

def psadbw64 (dst src : BitVec 64) : BitVec 64 :=
  let res := (List.range 8).foldl (fun res i => res + absDifference (lane 8 dst i) (lane 8 src i)) (0 : BitVec 16)
  res.setWidth 64

def psadbw128 (dst src : U128) : U128 :=
  let lo := (List.range 8).foldl (fun lo i => lo + absDifference (lane 8 dst.bits i) (lane 8 src.bits i)) (0 : BitVec 16)
  let hi := (List.range' 8 8).foldl (fun hi i => hi + absDifference (lane 8 dst.bits i) (lane 8 src.bits i)) (0 : BitVec 16)
  { lo := lo.setWidth 64, hi := hi.setWidth 64 }

/-- `pavgb64` and `pavgw64`, which add in the type of twice the width. -/
def pavg64 (w : Nat) : BitVec 64 → BitVec 64 → BitVec 64 :=
  lanes64 w fun d s => ((d.setWidth (2 * w) + s.setWidth (2 * w) + 1) >>> 1).setWidth w

def pavgb64 (dst src : BitVec 64) : BitVec 64 := pavg64 8 dst src
def pavgw64 (dst src : BitVec 64) : BitVec 64 := pavg64 16 dst src

/-- `pavgb128` and `pavgw128` -/
def pavg128 (w : Nat) : U128 → U128 → U128 :=
  lanes128 w fun d s => ((d.setWidth (2 * w) + s.setWidth (2 * w) + 1) >>> 1).setWidth w

def pavgb128 (dst src : U128) : U128 := pavg128 8 dst src
def pavgw128 (dst src : U128) : U128 := pavg128 16 dst src

def pmaxsw64 : BitVec 64 → BitVec 64 → BitVec 64 := lanes64 16 fun d s => if d.slt s then s else d
def pmaxsw128 : U128 → U128 → U128 := lanes128 16 fun d s => if d.slt s then s else d
def pmaxub64 : BitVec 64 → BitVec 64 → BitVec 64 := lanes64 8 fun d s => if d < s then s else d
def pmaxub128 : U128 → U128 → U128 := lanes128 8 fun d s => if d < s then s else d
def pminsw64 : BitVec 64 → BitVec 64 → BitVec 64 := lanes64 16 fun d s => if s.slt d then s else d
def pminsw128 : U128 → U128 → U128 := lanes128 16 fun d s => if s.slt d then s else d
def pminub64 : BitVec 64 → BitVec 64 → BitVec 64 := lanes64 8 fun d s => if s < d then s else d
def pminub128 : U128 → U128 → U128 := lanes128 8 fun d s => if s < d then s else d

/-! ## Shifts -/

section

variable (w : Nat)

def psra64 (dst : BitVec 64) (src : BitVec 8) : Except CpuFailure (BitVec 64) :=
  joinM 64 (64 / w) fun i => (hostSar ((lane w dst i).signExtend (promoted w)) src.toNat).map (·.setWidth w)

def psra128 (dst : U128) (src : BitVec 8) : Except CpuFailure U128 :=
  (joinM 128 (128 / w) fun i =>
    (hostSar ((lane w dst.bits i).signExtend (promoted w)) src.toNat).map (·.setWidth w)).map U128.ofBits

def psll64 (dst : BitVec 64) (src : BitVec 8) : Except CpuFailure (BitVec 64) :=
  joinM 64 (64 / w) fun i => (hostShl (promote (lane w dst i)) src.toNat).map (·.setWidth w)

def psrl64 (dst : BitVec 64) (src : BitVec 8) : Except CpuFailure (BitVec 64) :=
  joinM 64 (64 / w) fun i => (hostShr (promote (lane w dst i)) src.toNat).map (·.setWidth w)

def psll128 (dst : U128) (src : BitVec 8) : Except CpuFailure U128 :=
  (joinM 128 (128 / w) fun i => (hostShl (promote (lane w dst.bits i)) src.toNat).map (·.setWidth w)).map U128.ofBits

def psrl128 (dst : U128) (src : BitVec 8) : Except CpuFailure U128 :=
  (joinM 128 (128 / w) fun i => (hostShr (promote (lane w dst.bits i)) src.toNat).map (·.setWidth w)).map U128.ofBits

end

def psraw64 (dst : BitVec 64) (src : BitVec 8) : Except CpuFailure (BitVec 64) := psra64 16 dst src
def psrad64 (dst : BitVec 64) (src : BitVec 8) : Except CpuFailure (BitVec 64) := psra64 32 dst src
def psraw128 (dst : U128) (src : BitVec 8) : Except CpuFailure U128 := psra128 16 dst src
def psrad128 (dst : U128) (src : BitVec 8) : Except CpuFailure U128 := psra128 32 dst src
def psllw64 (dst : BitVec 64) (src : BitVec 8) : Except CpuFailure (BitVec 64) := psll64 16 dst src
def pslld64 (dst : BitVec 64) (src : BitVec 8) : Except CpuFailure (BitVec 64) := psll64 32 dst src
def psllq64 (dst : BitVec 64) (src : BitVec 8) : Except CpuFailure (BitVec 64) := psll64 64 dst src
def psrlw64 (dst : BitVec 64) (src : BitVec 8) : Except CpuFailure (BitVec 64) := psrl64 16 dst src
def psrld64 (dst : BitVec 64) (src : BitVec 8) : Except CpuFailure (BitVec 64) := psrl64 32 dst src
def psrlq64 (dst : BitVec 64) (src : BitVec 8) : Except CpuFailure (BitVec 64) := psrl64 64 dst src
def psllw128 (dst : U128) (src : BitVec 8) : Except CpuFailure U128 := psll128 16 dst src
def pslld128 (dst : U128) (src : BitVec 8) : Except CpuFailure U128 := psll128 32 dst src
def psllq128 (dst : U128) (src : BitVec 8) : Except CpuFailure U128 := psll128 64 dst src
def psrlw128 (dst : U128) (src : BitVec 8) : Except CpuFailure U128 := psrl128 16 dst src
def psrld128 (dst : U128) (src : BitVec 8) : Except CpuFailure U128 := psrl128 32 dst src
def psrlq128 (dst : U128) (src : BitVec 8) : Except CpuFailure U128 := psrl128 64 dst src

def pslldq (dst : U128) (src : BitVec 8) : Except CpuFailure U128 :=
  if 16 ≤ src.toNat then .ok { lo := 0, hi := 0 }
  else if 8 ≤ src.toNat then do
    let hi ← hostShl dst.lo (8 * (src.toNat - 8))
    .ok { lo := 0, hi := hi }
  else do
    let high ← hostShl dst.hi (8 * src.toNat)
    let low ← hostShr dst.lo (64 - 8 * src.toNat)
    let lo ← hostShl dst.lo (8 * src.toNat)
    .ok { lo := lo, hi := high ||| low }

def psrldq (dst : U128) (src : BitVec 8) : Except CpuFailure U128 :=
  if 16 ≤ src.toNat then .ok { lo := 0, hi := 0 }
  else if 8 ≤ src.toNat then do
    let lo ← hostShr dst.hi (8 * (src.toNat - 8))
    .ok { lo := lo, hi := 0 }
  else do
    let low ← hostShr dst.lo (8 * src.toNat)
    let high ← hostShl dst.hi (64 - 8 * src.toNat)
    let hi ← hostShr dst.hi (8 * src.toNat)
    .ok { lo := low ||| high, hi := hi }

end CpuImpl

end X64Emulator
