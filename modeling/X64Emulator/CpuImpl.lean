import X64Emulator.Base
import X64Emulator.Lib.Outcome

/-!
# The flags and the arithmetic of the CPU

What `CpuImpl` computes for the integer instructions, and how it sets the flags. The parity flag is set to the parity of a byte,
which the source computes when the flag is read. The model computes it when it is set: nothing reads the byte itself.

A template of the source is a definition over the width `w` of its unsigned type. C++ computes on values that are shorter than
an `int` as on an `int`; where that makes a difference the model promotes them (`promote`). A shift of the host is defined only
for a count below the width of the promoted value, and a value that is shifted past the top of an `int` wraps.
-/

namespace X64Emulator

open Outcome

structure Flags where
  carry : Bool
  zero : Bool
  sign : Bool
  overflow : Bool
  direction : Bool
  identification : Bool
  parity : Bool
deriving DecidableEq, Repr

namespace Flags

/-- The loop of `Flags::computeParity`: each turn takes the lowest bit that is set away. -/
def clearBits (parity : Bool) : Nat → BitVec 8 → Bool
  | 0, _ => parity
  | turns + 1, val => if val = 0 then parity else clearBits (!parity) turns (val &&& (val - 1))

/-- `Flags::computeParity`; a byte has eight bits to take away. -/
def computeParity (val : BitVec 8) : Bool := clearBits true 8 val

/-- The number of bits of a byte that are set. -/
def bitCount (val : BitVec 8) : Nat := (List.range 8).countP val.getLsbD

/-- The parity of a byte is that of the number of its bits that are set, and the loop needs no ninth turn. -/
theorem computeParity_eq (val : BitVec 8) : computeParity val = decide (bitCount val % 2 = 0) ∧
    clearBits true 9 val = computeParity val := by
  revert val
  decide +kernel

end Flags

inductive CpuFailure where
  /-- An `assert` does not hold. -/
  | assertion
  /-- The behaviour of a host shift is undefined. -/
  | undefined
deriving DecidableEq, Repr

/-- The unsigned types that the templates are made for. -/
inductive OperandWidth where
  | u8
  | u16
  | u32
  | u64
deriving DecidableEq, Repr

def OperandWidth.bits : OperandWidth → Nat
  | .u8 => 8
  | .u16 => 16
  | .u32 => 32
  | .u64 => 64

namespace CpuImpl

variable {w : Nat}

/-! ## Sums and differences -/

def add (dst src : BitVec w) (flags : Flags) : BitVec w × Flags :=
  let res := dst + src
  let sres := BitVec.ofInt w (dst.toNat + src.toNat)
  (res, { flags with
    zero := res = 0
    carry := BitVec.allOnes w - src < dst
    overflow := (0 ≤ dst.toInt ∧ 0 ≤ src.toInt ∧ sres.toInt < 0) ∨ (dst.toInt < 0 ∧ src.toInt < 0 ∧ 0 ≤ sres.toInt)
    sign := sres.toInt < 0
    parity := Flags.computeParity (res.setWidth 8) })

def adc (dst src : BitVec w) (flags : Flags) : BitVec w × Flags :=
  let c := (BitVec.ofBool flags.carry).setWidth w
  let res := dst + src + c
  let sres := BitVec.ofInt w (dst.toNat + src.toNat + c.toNat)
  (res, { flags with
    zero := res = 0
    carry := (c = 1 ∧ src = BitVec.allOnes w) ∨ BitVec.allOnes w - (src + c) < dst
    overflow := (0 ≤ dst.toInt ∧ 0 ≤ src.toInt ∧ sres.toInt < 0) ∨ (dst.toInt < 0 ∧ src.toInt < 0 ∧ 0 ≤ sres.toInt)
    sign := sres.toInt < 0
    parity := Flags.computeParity (res.setWidth 8) })

def sub (dst src : BitVec w) (flags : Flags) : BitVec w × Flags :=
  let res := dst - src
  let sres := BitVec.ofInt w (dst.toNat - src.toNat)
  (res, { flags with
    zero := res = 0
    carry := dst < src
    overflow := (0 ≤ dst.toInt ∧ src.toInt < 0 ∧ sres.toInt < 0) ∨ (dst.toInt < 0 ∧ 0 ≤ src.toInt ∧ 0 ≤ sres.toInt)
    sign := sres.toInt < 0
    parity := Flags.computeParity (res.setWidth 8) })

/-- The width in which C++ computes on a value: what is shorter than an `int` is promoted to one. -/
def promoted (w : Nat) : Nat := max w 32

def promote (val : BitVec w) : BitVec (promoted w) := val.setWidth (promoted w)

def sbb (dst src : BitVec w) (flags : Flags) : BitVec w × Flags :=
  let c := (BitVec.ofBool flags.carry).setWidth w
  let res := dst - (src + c)
  let sres := BitVec.ofInt w (dst.toNat - (BitVec.ofInt w (src.toNat + c.toNat)).toInt)
  (res, { flags with
    zero := res = 0
    carry := (c = 1 ∧ src = BitVec.allOnes w) ∨ promote dst < promote src + promote c
    overflow := (0 ≤ dst.toInt ∧ src.toInt < 0 ∧ sres.toInt < 0) ∨ (dst.toInt < 0 ∧ 0 ≤ src.toInt ∧ 0 ≤ sres.toInt)
    sign := sres.toInt < 0
    parity := Flags.computeParity (res.setWidth 8) })

def add8 (dst src : BitVec 8) (flags : Flags) : BitVec 8 × Flags := add dst src flags
def add16 (dst src : BitVec 16) (flags : Flags) : BitVec 16 × Flags := add dst src flags
def add32 (dst src : BitVec 32) (flags : Flags) : BitVec 32 × Flags := add dst src flags
def add64 (dst src : BitVec 64) (flags : Flags) : BitVec 64 × Flags := add dst src flags
def adc8 (dst src : BitVec 8) (flags : Flags) : BitVec 8 × Flags := adc dst src flags
def adc16 (dst src : BitVec 16) (flags : Flags) : BitVec 16 × Flags := adc dst src flags
def adc32 (dst src : BitVec 32) (flags : Flags) : BitVec 32 × Flags := adc dst src flags
def adc64 (dst src : BitVec 64) (flags : Flags) : BitVec 64 × Flags := adc dst src flags
def sub8 (dst src : BitVec 8) (flags : Flags) : BitVec 8 × Flags := sub dst src flags
def sub16 (dst src : BitVec 16) (flags : Flags) : BitVec 16 × Flags := sub dst src flags
def sub32 (dst src : BitVec 32) (flags : Flags) : BitVec 32 × Flags := sub dst src flags
def sub64 (dst src : BitVec 64) (flags : Flags) : BitVec 64 × Flags := sub dst src flags
def sbb8 (dst src : BitVec 8) (flags : Flags) : BitVec 8 × Flags := sbb dst src flags
def sbb16 (dst src : BitVec 16) (flags : Flags) : BitVec 16 × Flags := sbb dst src flags
def sbb32 (dst src : BitVec 32) (flags : Flags) : BitVec 32 × Flags := sbb dst src flags
def sbb64 (dst src : BitVec 64) (flags : Flags) : BitVec 64 × Flags := sbb dst src flags

inductive SumOp where
  | add
  | adc
  | sub
  | sbb
deriving DecidableEq, Repr

def SumOp.run : SumOp → (width : OperandWidth) → BitVec width.bits → BitVec width.bits → Flags → BitVec width.bits × Flags
  | .add, .u8 => add8
  | .add, .u16 => add16
  | .add, .u32 => add32
  | .add, .u64 => add64
  | .adc, .u8 => adc8
  | .adc, .u16 => adc16
  | .adc, .u32 => adc32
  | .adc, .u64 => adc64
  | .sub, .u8 => sub8
  | .sub, .u16 => sub16
  | .sub, .u32 => sub32
  | .sub, .u64 => sub64
  | .sbb, .u8 => sbb8
  | .sbb, .u16 => sbb16
  | .sbb, .u32 => sbb32
  | .sbb, .u64 => sbb64

/-! ## Products and quotients -/

/-- `mul8`, `mul16` and `mul32`, which multiply in the type of twice the width. -/
def mulDouble (src1 src2 : BitVec w) (flags : Flags) : (BitVec w × BitVec w) × Flags :=
  let prod := src1.setWidth (2 * w) * src2.setWidth (2 * w)
  let upper := (prod >>> w).setWidth w
  let lower := prod.setWidth w
  ((upper, lower), { flags with overflow := upper ≠ 0, carry := upper ≠ 0 })

def mul8 (src1 src2 : BitVec 8) (flags : Flags) : (BitVec 8 × BitVec 8) × Flags := mulDouble src1 src2 flags
def mul16 (src1 src2 : BitVec 16) (flags : Flags) : (BitVec 16 × BitVec 16) × Flags := mulDouble src1 src2 flags
def mul32 (src1 src2 : BitVec 32) (flags : Flags) : (BitVec 32 × BitVec 32) × Flags := mulDouble src1 src2 flags

/-- `(u64)(u32)val` -/
def lower32 (val : BitVec 64) : BitVec 64 := (val.setWidth 32).setWidth 64

def mul64 (src1 src2 : BitVec 64) (flags : Flags) : (BitVec 64 × BitVec 64) × Flags :=
  let a := lower32 (src1 >>> 32)
  let b := lower32 src1
  let c := lower32 (src2 >>> 32)
  let d := lower32 src2
  let ac := a * c
  let adbc := a * d + b * c
  let bd := b * d
  let adbc_carry := decide (BitVec.allOnes 64 - b * c < a * d)
  let lower_carry := decide (BitVec.allOnes 64 - adbc <<< 32 < bd)
  let lower := bd + adbc <<< 32
  let upper := ac + adbc >>> 32 + (BitVec.ofBool adbc_carry).setWidth 64 <<< 32 + (BitVec.ofBool lower_carry).setWidth 64
  ((upper, lower), { flags with overflow := upper ≠ 0, carry := upper ≠ 0 })

/-- `imul16` and `imul32`, which multiply in the signed type of twice the width. -/
def imulDouble (src1 src2 : BitVec w) (flags : Flags) : (BitVec w × BitVec w) × Flags :=
  let tmp := src1.signExtend (2 * w) * src2.signExtend (2 * w)
  let isCut := decide (tmp ≠ (tmp.setWidth w).signExtend (2 * w))
  (((tmp.sshiftRight w).setWidth w, tmp.setWidth w), { flags with carry := isCut, overflow := isCut })

def imul16 (src1 src2 : BitVec 16) (flags : Flags) : (BitVec 16 × BitVec 16) × Flags := imulDouble src1 src2 flags
def imul32 (src1 src2 : BitVec 32) (flags : Flags) : (BitVec 32 × BitVec 32) × Flags := imulDouble src1 src2 flags

def imul64 (src1 src2 : BitVec 64) (flags : Flags) : (BitVec 64 × BitVec 64) × Flags :=
  if src1 = 0 ∨ src2 = 0 then ((0, 0), { flags with carry := false, overflow := false })
  else
    let s1negative := decide (src1.toInt < 0)
    let s2negative := decide (src2.toInt < 0)
    let usrc1 := if s1negative then -src1 else src1
    let usrc2 := if s2negative then -src2 else src2
    let ures := mul64 usrc1 usrc2 flags
    let upper := ures.1.1
    let lower := ures.1.2
    let res := if s1negative ≠ s2negative then (~~~upper + (BitVec.ofBool (lower = 0)).setWidth 64, -lower) else (upper, lower)
    let differentSignExtention := decide ((res.2.toInt < 0 ∧ res.1 ≠ BitVec.allOnes 64) ∨ (0 ≤ res.2.toInt ∧ res.1 ≠ 0))
    (res, { ures.2 with carry := differentSignExtention, overflow := differentSignExtention })

/-- The dividend of `div8` and its siblings, in the type of twice the width. -/
def dividend (dividendUpper dividendLower : BitVec w) : BitVec (2 * w) :=
  dividendUpper.setWidth (2 * w) <<< w ||| dividendLower.setWidth (2 * w)

/-- `div8`, `div16` and `div32` -/
def divDouble (dividendUpper dividendLower divisor : BitVec w) : Except CpuFailure (BitVec w × BitVec w) := do
  check (divisor ≠ 0) .assertion
  let dividend := dividend dividendUpper dividendLower
  let tmp := dividend / divisor.setWidth (2 * w)
  check (tmp >>> w = 0) .assertion
  .ok (tmp.setWidth w, (dividend % divisor.setWidth (2 * w)).setWidth w)

def div8 (dividendUpper dividendLower divisor : BitVec 8) : Except CpuFailure (BitVec 8 × BitVec 8) :=
  divDouble dividendUpper dividendLower divisor
def div16 (dividendUpper dividendLower divisor : BitVec 16) : Except CpuFailure (BitVec 16 × BitVec 16) :=
  divDouble dividendUpper dividendLower divisor
def div32 (dividendUpper dividendLower divisor : BitVec 32) : Except CpuFailure (BitVec 32 × BitVec 32) :=
  divDouble dividendUpper dividendLower divisor

/-- `div64`, where nothing asserts that the quotient fits. -/
def div64 (dividendUpper dividendLower divisor : BitVec 64) : Except CpuFailure (BitVec 64 × BitVec 64) := do
  check (divisor ≠ 0) .assertion
  let dividend := dividend dividendUpper dividendLower
  let tmp := dividend / divisor.setWidth (2 * 64)
  .ok (tmp.setWidth 64, (dividend % divisor.setWidth (2 * 64)).setWidth 64)

/-- `mul8`, `mul16`, `mul32` and `mul64` -/
def mul : (width : OperandWidth) → BitVec width.bits → BitVec width.bits → Flags → (BitVec width.bits × BitVec width.bits) × Flags
  | .u8 => mul8
  | .u16 => mul16
  | .u32 => mul32
  | .u64 => mul64

/-- `div8`, `div16`, `div32` and `div64` -/
def div : (width : OperandWidth) → BitVec width.bits → BitVec width.bits → BitVec width.bits →
    Except CpuFailure (BitVec width.bits × BitVec width.bits)
  | .u8 => div8
  | .u16 => div16
  | .u32 => div32
  | .u64 => div64

/-! ## Shifts -/

/-- A shift of the host to the left, by a count that must be below the width. -/
def hostShl {p : Nat} (val : BitVec p) (count : Nat) : Except CpuFailure (BitVec p) := do
  check (count < p) .undefined
  .ok (val <<< count)

def hostShr {p : Nat} (val : BitVec p) (count : Nat) : Except CpuFailure (BitVec p) := do
  check (count < p) .undefined
  .ok (val >>> count)

def hostSar {p : Nat} (val : BitVec p) (count : Nat) : Except CpuFailure (BitVec p) := do
  check (count < p) .undefined
  .ok (val.sshiftRight count)

def signBit (val : BitVec w) : Bool := val &&& 1#w <<< (w - 1) ≠ 0

def srcMask (w : Nat) : BitVec w := if w = 64 then 0x3f else 0x1f

def shl (dst src : BitVec w) (flags : Flags) : Except CpuFailure (BitVec w × Flags) := do
  let src := src &&& srcMask w
  let res := (← hostShl (promote dst) src.toNat).setWidth w
  if src = 0 then .ok (res, flags)
  else do
    -- the count is one of `size_t`: below zero it wraps
    let mask ← hostShl (promote 1) (X64Emulator.sub64 w src.toNat)
    let carry := decide (promote dst &&& mask ≠ 0)
    .ok (res, { flags with
      carry := carry
      overflow := if src = 1 then signBit res ≠ carry else flags.overflow
      sign := signBit res
      zero := res = 0
      parity := Flags.computeParity (res.setWidth 8) })

def shr (dst src : BitVec w) (flags : Flags) : Except CpuFailure (BitVec w × Flags) := do
  let src := src &&& srcMask w
  let res := (← hostShr (promote dst) src.toNat).setWidth w
  if src = 0 then .ok (res, flags)
  else do
    let mask ← hostShl (promote 1) (src.toNat - 1)
    .ok (res, { flags with
      carry := promote dst &&& mask ≠ 0
      overflow := if src = 1 then signBit dst else flags.overflow
      sign := signBit res
      zero := res = 0
      parity := Flags.computeParity (res.setWidth 8) })

def sar (dst src : BitVec w) (flags : Flags) : Except CpuFailure (BitVec w × Flags) := do
  let src := src &&& srcMask w
  check (src.toNat < w) .assertion
  let res := (← hostSar (dst.signExtend (promoted w)) src.toNat).setWidth w
  if src = 0 then .ok (res, flags)
  else do
    let mask ← hostShl (promote 1) (src.toNat - 1)
    .ok (res, { flags with
      carry := dst.signExtend (promoted w) &&& mask ≠ 0
      overflow := if src = 1 then false else flags.overflow
      sign := signBit res
      zero := res = 0
      parity := Flags.computeParity (res.setWidth 8) })

/-- The flags that `shld` and `shrd` leave. -/
def doubleShiftFlags (dst res : BitVec w) (count : Nat) (carry : Bool) (flags : Flags) : Flags :=
  { flags with
    carry := carry
    sign := signBit res
    zero := res = 0
    parity := Flags.computeParity (res.setWidth 8)
    overflow := if count = 1 then (dst &&& 1#w <<< (w - 1)) ^^^ (res &&& 1#w <<< (w - 1)) ≠ 0 else flags.overflow }

def shld (dst src : BitVec w) (count : BitVec 8) (flags : Flags) : Except CpuFailure (BitVec w × Flags) := do
  let count := count.toNat % w
  if count = 0 then .ok (dst, flags)
  else do
    let res := (← hostShl (promote dst) count).setWidth w ||| (← hostShr (promote src) (w - count)).setWidth w
    .ok (res, doubleShiftFlags dst res count (dst &&& BitVec.ofNat w (w - count) ≠ 0) flags)

def shrd (dst src : BitVec w) (count : BitVec 8) (flags : Flags) : Except CpuFailure (BitVec w × Flags) := do
  let count := count.toNat % w
  if count = 0 then .ok (dst, flags)
  else do
    let res := (← hostShr (promote dst) count).setWidth w ||| (← hostShl (promote src) (w - count)).setWidth w
    .ok (res, doubleShiftFlags dst res count (dst &&& BitVec.ofNat w (count - 1) ≠ 0) flags)

def shl8 (dst src : BitVec 8) (flags : Flags) : Except CpuFailure (BitVec 8 × Flags) := shl dst src flags
def shl16 (dst src : BitVec 16) (flags : Flags) : Except CpuFailure (BitVec 16 × Flags) := shl dst src flags
def shl32 (dst src : BitVec 32) (flags : Flags) : Except CpuFailure (BitVec 32 × Flags) := shl dst src flags
def shl64 (dst src : BitVec 64) (flags : Flags) : Except CpuFailure (BitVec 64 × Flags) := shl dst src flags
def shr8 (dst src : BitVec 8) (flags : Flags) : Except CpuFailure (BitVec 8 × Flags) := shr dst src flags
def shr16 (dst src : BitVec 16) (flags : Flags) : Except CpuFailure (BitVec 16 × Flags) := shr dst src flags
def shr32 (dst src : BitVec 32) (flags : Flags) : Except CpuFailure (BitVec 32 × Flags) := shr dst src flags
def shr64 (dst src : BitVec 64) (flags : Flags) : Except CpuFailure (BitVec 64 × Flags) := shr dst src flags
def sar8 (dst src : BitVec 8) (flags : Flags) : Except CpuFailure (BitVec 8 × Flags) := sar dst src flags
def sar16 (dst src : BitVec 16) (flags : Flags) : Except CpuFailure (BitVec 16 × Flags) := sar dst src flags
def sar32 (dst src : BitVec 32) (flags : Flags) : Except CpuFailure (BitVec 32 × Flags) := sar dst src flags
def sar64 (dst src : BitVec 64) (flags : Flags) : Except CpuFailure (BitVec 64 × Flags) := sar dst src flags

def shld32 (dst src : BitVec 32) (count : BitVec 8) (flags : Flags) : Except CpuFailure (BitVec 32 × Flags) :=
  shld dst src count flags
def shld64 (dst src : BitVec 64) (count : BitVec 8) (flags : Flags) : Except CpuFailure (BitVec 64 × Flags) :=
  shld dst src count flags
def shrd32 (dst src : BitVec 32) (count : BitVec 8) (flags : Flags) : Except CpuFailure (BitVec 32 × Flags) :=
  shrd dst src count flags
def shrd64 (dst src : BitVec 64) (count : BitVec 8) (flags : Flags) : Except CpuFailure (BitVec 64 × Flags) :=
  shrd dst src count flags

inductive ShiftOp where
  | shl
  | shr
  | sar
deriving DecidableEq, Repr

def ShiftOp.run : ShiftOp → (width : OperandWidth) → BitVec width.bits → BitVec width.bits → Flags →
    Except CpuFailure (BitVec width.bits × Flags)
  | .shl, .u8 => shl8
  | .shl, .u16 => shl16
  | .shl, .u32 => shl32
  | .shl, .u64 => shl64
  | .shr, .u8 => shr8
  | .shr, .u16 => shr16
  | .shr, .u32 => shr32
  | .shr, .u64 => shr64
  | .sar, .u8 => sar8
  | .sar, .u16 => sar16
  | .sar, .u32 => sar32
  | .sar, .u64 => sar64

/-- The shifts over two operands, which exist for two widths. -/
inductive DoubleShiftOp where
  | shld
  | shrd
deriving DecidableEq, Repr

def DoubleShiftOp.run32 : DoubleShiftOp → BitVec 32 → BitVec 32 → BitVec 8 → Flags → Except CpuFailure (BitVec 32 × Flags)
  | .shld => shld32
  | .shrd => shrd32

def DoubleShiftOp.run64 : DoubleShiftOp → BitVec 64 → BitVec 64 → BitVec 8 → Flags → Except CpuFailure (BitVec 64 × Flags)
  | .shld => shld64
  | .shrd => shrd64

/-! ## Rotates -/

/-- The count of a rotate, as the architecture masks it. -/
def rotateMask (w : Nat) (count : BitVec 8) : Nat := (count &&& if w = 64 then 0x3F else 0x1F).toNat

/-- The loop of `rcl`. -/
def rclTurns : Nat → BitVec w → Bool → BitVec w × Bool
  | 0, res, cf => (res, cf)
  | tmpcount + 1, res, cf => rclTurns tmpcount (2 * res + (BitVec.ofBool cf).setWidth w) (res &&& 1#w <<< (w - 1) ≠ 0)

def rcl (val : BitVec w) (count : BitVec 8) (flags : Flags) : Except CpuFailure (BitVec w × Flags) :=
  let (res, cf) := rclTurns (rotateMask w count % (w + 1)) val flags.carry
  .ok (res, { flags with
    carry := cf
    overflow := if count = 1 then (res >>> (w - 1)) ^^^ (BitVec.ofBool cf).setWidth w ≠ 0 else flags.overflow })

/-- The loop of `rcr`. -/
def rcrTurns : Nat → BitVec w → Bool → BitVec w × Bool
  | 0, res, cf => (res, cf)
  | tmpcount + 1, res, cf => rcrTurns tmpcount (res / 2 ||| (BitVec.ofBool cf).setWidth w <<< (w - 1)) (res &&& 1 ≠ 0)

def rcr (val : BitVec w) (count : BitVec 8) (flags : Flags) : Except CpuFailure (BitVec w × Flags) :=
  let overflow :=
    if count = 1 then decide ((val &&& 1#w <<< (w - 1)) ^^^ (BitVec.ofBool flags.carry).setWidth w ≠ 0) else flags.overflow
  let (res, cf) := rcrTurns (rotateMask w count % (w + 1)) val flags.carry
  .ok (res, { flags with carry := cf, overflow := overflow })

def rol (val : BitVec w) (count : BitVec 8) (flags : Flags) : Except CpuFailure (BitVec w × Flags) := do
  let count := rotateMask w count % w
  if count = 0 then .ok (val, flags)
  else do
    let res := (← hostShl (promote val) count).setWidth w ||| (← hostShr (promote val) (w - count)).setWidth w
    let carry := decide (res &&& 1 ≠ 0)
    .ok (res, { flags with
      carry := carry
      overflow := if count = 1 then (res >>> (w - 1)) ^^^ (BitVec.ofBool carry).setWidth w ≠ 0 else flags.overflow })

def ror (val : BitVec w) (count : BitVec 8) (flags : Flags) : Except CpuFailure (BitVec w × Flags) := do
  let count := rotateMask w count % w
  -- `rol` shifts only where the count is not zero
  let res := (← hostShr (promote val) count).setWidth w ||| (← hostShl (promote val) (w - count)).setWidth w
  .ok (res, { flags with
    carry := if count = 0 then flags.carry else res &&& 1#w <<< (w - 1) ≠ 0
    overflow := if count = 1 then (res >>> (w - 1)) ^^^ ((res >>> (w - 2)) &&& 1) ≠ 0 else flags.overflow })

def rcl8 (val : BitVec 8) (count : BitVec 8) (flags : Flags) : Except CpuFailure (BitVec 8 × Flags) := rcl val count flags
def rcl16 (val : BitVec 16) (count : BitVec 8) (flags : Flags) : Except CpuFailure (BitVec 16 × Flags) := rcl val count flags
def rcl32 (val : BitVec 32) (count : BitVec 8) (flags : Flags) : Except CpuFailure (BitVec 32 × Flags) := rcl val count flags
def rcl64 (val : BitVec 64) (count : BitVec 8) (flags : Flags) : Except CpuFailure (BitVec 64 × Flags) := rcl val count flags
def rcr8 (val : BitVec 8) (count : BitVec 8) (flags : Flags) : Except CpuFailure (BitVec 8 × Flags) := rcr val count flags
def rcr16 (val : BitVec 16) (count : BitVec 8) (flags : Flags) : Except CpuFailure (BitVec 16 × Flags) := rcr val count flags
def rcr32 (val : BitVec 32) (count : BitVec 8) (flags : Flags) : Except CpuFailure (BitVec 32 × Flags) := rcr val count flags
def rcr64 (val : BitVec 64) (count : BitVec 8) (flags : Flags) : Except CpuFailure (BitVec 64 × Flags) := rcr val count flags
def rol8 (val : BitVec 8) (count : BitVec 8) (flags : Flags) : Except CpuFailure (BitVec 8 × Flags) := rol val count flags
def rol16 (val : BitVec 16) (count : BitVec 8) (flags : Flags) : Except CpuFailure (BitVec 16 × Flags) := rol val count flags
def rol32 (val : BitVec 32) (count : BitVec 8) (flags : Flags) : Except CpuFailure (BitVec 32 × Flags) := rol val count flags
def rol64 (val : BitVec 64) (count : BitVec 8) (flags : Flags) : Except CpuFailure (BitVec 64 × Flags) := rol val count flags
def ror8 (val : BitVec 8) (count : BitVec 8) (flags : Flags) : Except CpuFailure (BitVec 8 × Flags) := ror val count flags
def ror16 (val : BitVec 16) (count : BitVec 8) (flags : Flags) : Except CpuFailure (BitVec 16 × Flags) := ror val count flags
def ror32 (val : BitVec 32) (count : BitVec 8) (flags : Flags) : Except CpuFailure (BitVec 32 × Flags) := ror val count flags
def ror64 (val : BitVec 64) (count : BitVec 8) (flags : Flags) : Except CpuFailure (BitVec 64 × Flags) := ror val count flags

inductive RotateOp where
  | rcl
  | rcr
  | rol
  | ror
deriving DecidableEq, Repr

def RotateOp.run : RotateOp → (width : OperandWidth) → BitVec width.bits → BitVec 8 → Flags →
    Except CpuFailure (BitVec width.bits × Flags)
  | .rcl, .u8 => rcl8
  | .rcl, .u16 => rcl16
  | .rcl, .u32 => rcl32
  | .rcl, .u64 => rcl64
  | .rcr, .u8 => rcr8
  | .rcr, .u16 => rcr16
  | .rcr, .u32 => rcr32
  | .rcr, .u64 => rcr64
  | .rol, .u8 => rol8
  | .rol, .u16 => rol16
  | .rol, .u32 => rol32
  | .rol, .u64 => rol64
  | .ror, .u8 => ror8
  | .ror, .u16 => ror16
  | .ror, .u32 => ror32
  | .ror, .u64 => ror64

/-! ## Comparisons, operations on the bits and steps by one -/

/-- `cmp8` and its siblings: the flags of a difference that is thrown away. -/
def cmp (src1 src2 : BitVec w) (flags : Flags) : Flags := (sub src1 src2 flags).2

def and_ (dst src : BitVec w) (flags : Flags) : BitVec w × Flags :=
  let tmp := dst &&& src
  (tmp, { flags with
    overflow := false
    carry := false
    sign := signBit tmp
    zero := tmp = 0
    parity := Flags.computeParity (tmp.setWidth 8) })

def or_ (dst src : BitVec w) (flags : Flags) : BitVec w × Flags :=
  let tmp := dst ||| src
  (tmp, { flags with
    overflow := false
    carry := false
    sign := signBit tmp
    zero := tmp = 0
    parity := Flags.computeParity (tmp.setWidth 8) })

def xor_ (dst src : BitVec w) (flags : Flags) : BitVec w × Flags :=
  let tmp := dst ^^^ src
  (tmp, { flags with
    overflow := false
    carry := false
    sign := signBit tmp
    zero := tmp = 0
    parity := Flags.computeParity (tmp.setWidth 8) })

def test (src1 src2 : BitVec w) (flags : Flags) : Flags :=
  let tmp := src1 &&& src2
  { flags with
    sign := signBit tmp
    zero := tmp = 0
    overflow := false
    carry := false
    parity := Flags.computeParity (tmp.setWidth 8) }

/-- `neg8` and its siblings. -/
def neg (dst : BitVec w) (flags : Flags) : BitVec w × Flags := sub 0 dst flags

def inc (src : BitVec w) (flags : Flags) : BitVec w × Flags :=
  let res := src + 1
  (res, { flags with
    overflow := src = BitVec.intMax w
    sign := signBit res
    zero := res = 0
    parity := Flags.computeParity (res.setWidth 8) })

def dec (src : BitVec w) (flags : Flags) : BitVec w × Flags :=
  let res := src - 1
  (res, { flags with
    overflow := src = BitVec.intMin w
    sign := signBit res
    zero := res = 0
    parity := Flags.computeParity (res.setWidth 8) })

/-- `cmpxchg8` and its siblings, which only set the flags. -/
def cmpxchg (eax dest : BitVec w) (flags : Flags) : Flags :=
  let flags := cmp eax dest flags
  if eax = dest then { flags with zero := true } else { flags with zero := false }

def cmp8 (src1 src2 : BitVec 8) (flags : Flags) : Flags := cmp src1 src2 flags
def cmp16 (src1 src2 : BitVec 16) (flags : Flags) : Flags := cmp src1 src2 flags
def cmp32 (src1 src2 : BitVec 32) (flags : Flags) : Flags := cmp src1 src2 flags
def cmp64 (src1 src2 : BitVec 64) (flags : Flags) : Flags := cmp src1 src2 flags
def and8 (dst src : BitVec 8) (flags : Flags) : BitVec 8 × Flags := and_ dst src flags
def and16 (dst src : BitVec 16) (flags : Flags) : BitVec 16 × Flags := and_ dst src flags
def and32 (dst src : BitVec 32) (flags : Flags) : BitVec 32 × Flags := and_ dst src flags
def and64 (dst src : BitVec 64) (flags : Flags) : BitVec 64 × Flags := and_ dst src flags
def xor8 (dst src : BitVec 8) (flags : Flags) : BitVec 8 × Flags := xor_ dst src flags
def xor16 (dst src : BitVec 16) (flags : Flags) : BitVec 16 × Flags := xor_ dst src flags
def xor32 (dst src : BitVec 32) (flags : Flags) : BitVec 32 × Flags := xor_ dst src flags
def xor64 (dst src : BitVec 64) (flags : Flags) : BitVec 64 × Flags := xor_ dst src flags
def test8 (src1 src2 : BitVec 8) (flags : Flags) : Flags := test src1 src2 flags
def test16 (src1 src2 : BitVec 16) (flags : Flags) : Flags := test src1 src2 flags
def test32 (src1 src2 : BitVec 32) (flags : Flags) : Flags := test src1 src2 flags
def test64 (src1 src2 : BitVec 64) (flags : Flags) : Flags := test src1 src2 flags
def neg8 (dst : BitVec 8) (flags : Flags) : BitVec 8 × Flags := neg dst flags
def neg16 (dst : BitVec 16) (flags : Flags) : BitVec 16 × Flags := neg dst flags
def neg32 (dst : BitVec 32) (flags : Flags) : BitVec 32 × Flags := neg dst flags
def neg64 (dst : BitVec 64) (flags : Flags) : BitVec 64 × Flags := neg dst flags
def or8 (dst src : BitVec 8) (flags : Flags) : BitVec 8 × Flags := or_ dst src flags
def or16 (dst src : BitVec 16) (flags : Flags) : BitVec 16 × Flags := or_ dst src flags
def or32 (dst src : BitVec 32) (flags : Flags) : BitVec 32 × Flags := or_ dst src flags
def or64 (dst src : BitVec 64) (flags : Flags) : BitVec 64 × Flags := or_ dst src flags
def inc8 (src : BitVec 8) (flags : Flags) : BitVec 8 × Flags := inc src flags
def inc16 (src : BitVec 16) (flags : Flags) : BitVec 16 × Flags := inc src flags
def inc32 (src : BitVec 32) (flags : Flags) : BitVec 32 × Flags := inc src flags
def inc64 (src : BitVec 64) (flags : Flags) : BitVec 64 × Flags := inc src flags
def dec8 (src : BitVec 8) (flags : Flags) : BitVec 8 × Flags := dec src flags
def dec16 (src : BitVec 16) (flags : Flags) : BitVec 16 × Flags := dec src flags
def dec32 (src : BitVec 32) (flags : Flags) : BitVec 32 × Flags := dec src flags
def dec64 (src : BitVec 64) (flags : Flags) : BitVec 64 × Flags := dec src flags
def cmpxchg8 (al dest : BitVec 8) (flags : Flags) : Flags := cmpxchg al dest flags
def cmpxchg16 (ax dest : BitVec 16) (flags : Flags) : Flags := cmpxchg ax dest flags
def cmpxchg32 (eax dest : BitVec 32) (flags : Flags) : Flags := cmpxchg eax dest flags
def cmpxchg64 (rax dest : BitVec 64) (flags : Flags) : Flags := cmpxchg rax dest flags

/-! ## Bit tests -/

/-- The index of a bit test, in the type of its operand. -/
def bitIndex (index : BitVec w) : BitVec w := index % BitVec.ofNat w w

def bt (base index : BitVec w) (flags : Flags) : Flags :=
  { flags with carry := (base >>> bitIndex index) &&& 1 ≠ 0 }

def btr (base index : BitVec w) (flags : Flags) : BitVec w × Flags :=
  (base &&& ~~~(1#w <<< bitIndex index), bt base index flags)

def btc (base index : BitVec w) (flags : Flags) : BitVec w × Flags :=
  let mask := 1#w <<< bitIndex index
  ((base &&& ~~~mask) ||| (~~~base &&& mask), bt base index flags)

def bts (base index : BitVec w) (flags : Flags) : BitVec w × Flags :=
  let mask := 1#w <<< bitIndex index
  ((base &&& ~~~mask) ||| mask, bt base index flags)

def bt16 (base index : BitVec 16) (flags : Flags) : Flags := bt base index flags
def bt32 (base index : BitVec 32) (flags : Flags) : Flags := bt base index flags
def bt64 (base index : BitVec 64) (flags : Flags) : Flags := bt base index flags
def btr16 (base index : BitVec 16) (flags : Flags) : BitVec 16 × Flags := btr base index flags
def btr32 (base index : BitVec 32) (flags : Flags) : BitVec 32 × Flags := btr base index flags
def btr64 (base index : BitVec 64) (flags : Flags) : BitVec 64 × Flags := btr base index flags
def btc16 (base index : BitVec 16) (flags : Flags) : BitVec 16 × Flags := btc base index flags
def btc32 (base index : BitVec 32) (flags : Flags) : BitVec 32 × Flags := btc base index flags
def btc64 (base index : BitVec 64) (flags : Flags) : BitVec 64 × Flags := btc base index flags
def bts16 (base index : BitVec 16) (flags : Flags) : BitVec 16 × Flags := bts base index flags
def bts32 (base index : BitVec 32) (flags : Flags) : BitVec 32 × Flags := bts base index flags
def bts64 (base index : BitVec 64) (flags : Flags) : BitVec 64 × Flags := bts base index flags

/-! ## Counts that the host can shift by

A count that the architecture masks is always one that the host can shift by; a count that is computed from it need not be.
-/

/-- The count of a shift or of a rotate, as the architecture masks it. -/
def maskedCount (w count : Nat) : Nat := count % if w = 64 then 64 else 32

theorem maskedCount_lt (width : OperandWidth) (count : Nat) : maskedCount width.bits count < promoted width.bits := by
  cases width with
  | u8 | u16 | u32 => exact Nat.mod_lt _ (by decide)
  | u64 => exact Nat.mod_lt _ (by decide)

theorem hostShl_of_lt {p : Nat} (val : BitVec p) {count : Nat} (h : count < p) : hostShl val count = .ok (val <<< count) := by
  rw [hostShl, (check_eq_ok (u := ())).2 h]
  rfl

theorem hostShl_of_le {p : Nat} (val : BitVec p) {count : Nat} (h : p ≤ count) : hostShl val count = .error .undefined := by
  rw [hostShl, check, if_neg (by omega)]
  rfl

theorem hostShr_of_lt {p : Nat} (val : BitVec p) {count : Nat} (h : count < p) : hostShr val count = .ok (val >>> count) := by
  rw [hostShr, (check_eq_ok (u := ())).2 h]
  rfl

theorem hostShr_of_le {p : Nat} (val : BitVec p) {count : Nat} (h : p ≤ count) : hostShr val count = .error .undefined := by
  rw [hostShr, check, if_neg (by omega)]
  rfl

theorem hostSar_of_lt {p : Nat} (val : BitVec p) {count : Nat} (h : count < p) :
    hostSar val count = .ok (val.sshiftRight count) := by
  rw [hostSar, (check_eq_ok (u := ())).2 h]
  rfl

theorem hostSar_of_le {p : Nat} (val : BitVec p) {count : Nat} (h : p ≤ count) : hostSar val count = .error .undefined := by
  rw [hostSar, check, if_neg (by omega)]
  rfl

theorem le_promoted (w : Nat) : w ≤ promoted w := Nat.le_max_left w 32

theorem promote_one (hw : 0 < w) : promote (1 : BitVec w) = 1#(promoted w) := by
  apply BitVec.eq_of_toNat_eq
  have hone : (1 : BitVec w).toNat = 1 := BitVec.toNat_one hw
  rw [promote, BitVec.toNat_setWidth_of_le (le_promoted w), hone, BitVec.toNat_one (by have := le_promoted w; omega)]

end CpuImpl

end X64Emulator
