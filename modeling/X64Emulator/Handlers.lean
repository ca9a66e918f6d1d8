import X64Emulator.Cpu
import X64Emulator.Packed

/-!
# The handlers of the interpreter

The handlers that read an operand, compute and write the operand back, and those that do the same under the lock of a region. The
handlers of an operation differ in the width and in the kind of their second operand, and are one definition applied to both.
-/

namespace X64Emulator

open Ir (R8 R16 R32 R64 Mem)

/-- The second operand of a handler. -/
inductive Source (width : OperandWidth) where
  | rm (rm : RM width)
  | imm (immediate : BitVec 64)

/-- The widths that the bit tests have. -/
inductive BitWidth where
  | u16
  | u32
  | u64
deriving DecidableEq, Repr

def BitWidth.operand : BitWidth → OperandWidth
  | .u16 => .u16
  | .u32 => .u32
  | .u64 => .u64

/-- The index of a bit test. -/
inductive BitIndex (width : OperandWidth) where
  | reg (reg : width.Reg)
  | imm (immediate : BitVec 64)

def BitIndex.source {width : OperandWidth} : BitIndex width → Source width
  | .reg r => .rm (.reg r)
  | .imm i => .imm i

/-- A function of `CpuImpl` with two operands. -/
abbrev BinaryOp (width : OperandWidth) := BitVec width.bits → BitVec width.bits → Flags → BitVec width.bits × Flags

abbrev UnaryOp (width : OperandWidth) := BitVec width.bits → Flags → BitVec width.bits × Flags

namespace Cpu

open CpuImpl

variable {w : Nat}

def getSource {width : OperandWidth} (c : Cpu) : Source width → Option (BitVec width.bits)
  | .rm rm => c.getRM rm
  | .imm immediate => some (immediate.setWidth width.bits)

/-- `Mmu::withExclusiveRegion`. The widths without a branch are those of the pointers to 80 and to 128 bits. -/
def withExclusiveRegion (c : Cpu) (ptr : BitVec 64) (modify : BitVec w → Cpu → Option (BitVec w × Cpu)) : Option Cpu := do
  verify (c.mmu.findAddress ptr.toNat).isSome
  if w = 8 ∨ w = 16 ∨ w = 32 ∨ w = 64 then
    let oldValue ← c.getPtr w ptr
    let (newValue, c) ← modify oldValue c
    c.setPtr ptr newValue
  else some c

/-! ## The families -/

/-- `set(dst, op(get(dst), get(src), &flags_))` -/
def execBinary (width : OperandWidth) (op : BinaryOp width) (dst : RM width) (src : Source width) (c : Cpu) : Option Cpu := do
  let dstValue ← c.getRM dst
  let srcValue ← c.getSource src
  let (res, flags) := op dstValue srcValue c.flags
  (c.setFlags flags).setRM dst res

def execLockBinary (width : OperandWidth) (op : BinaryOp width) (dst : Mem) (src : Source width) (c : Cpu) : Option Cpu :=
  c.withExclusiveRegion (c.resolve dst) fun oldValue c => do
    let srcValue ← c.getSource src
    let (res, flags) := op oldValue srcValue c.flags
    some (res, c.setFlags flags)

/-- `set(dst, op(get(dst), &flags_))` -/
def execUnary (width : OperandWidth) (op : UnaryOp width) (dst : RM width) (c : Cpu) : Option Cpu := do
  let dstValue ← c.getRM dst
  let (res, flags) := op dstValue c.flags
  (c.setFlags flags).setRM dst res

def execLockUnary (width : OperandWidth) (op : UnaryOp width) (dst : Mem) (c : Cpu) : Option Cpu :=
  c.withExclusiveRegion (c.resolve dst) fun oldValue c =>
    let (res, flags) := op oldValue c.flags
    some (res, c.setFlags flags)

/-- The sum goes to `dst`, then the old value of `dst` to `src`. -/
def execXadd (width : OperandWidth) (add : BinaryOp width) (dst : RM width) (src : width.Reg) (c : Cpu) : Option Cpu := do
  let dstValue ← c.getRM dst
  let srcValue := c.get width src
  let (tmpValue, flags) := add dstValue srcValue c.flags
  let c ← (c.setFlags flags).setRM dst tmpValue
  c.set width src dstValue

def execLockXadd (width : OperandWidth) (add : BinaryOp width) (dst : Mem) (src : width.Reg) (c : Cpu) : Option Cpu :=
  let srcValue := c.get width src
  c.withExclusiveRegion (c.resolve dst) fun oldValue c => do
    let (newValue, flags) := add oldValue srcValue c.flags
    let c ← (c.setFlags flags).set width src oldValue
    some (newValue, c)

/-- `op(get(src1), get(src2), &flags_)` -/
def execCompare (width : OperandWidth) (op : BitVec width.bits → BitVec width.bits → Flags → Flags) (src1 : RM width)
    (src2 : Source width) (c : Cpu) : Option Cpu := do
  let value1 ← c.getRM src1
  let value2 ← c.getSource src2
  some (c.setFlags (op value1 value2 c.flags))

/-- `set(dst, extend(get(src)))` -/
def execExtend (width srcWidth : OperandWidth) (extend : (v : Nat) → BitVec srcWidth.bits → BitVec v) (dst : width.Reg)
    (src : RM srcWidth) (c : Cpu) : Option Cpu := do
  let srcValue ← c.getRM src
  c.set width dst (extend width.bits srcValue)

/-- `execCmpxchg8Impl` and its siblings: `acc` is compared with `dst`, and takes its value if they differ. -/
def execCmpxchgImpl (width : OperandWidth) (cmpxchg : BitVec width.bits → BitVec width.bits → Flags → Flags)
    (acc : width.Reg) (dst : RM width) (src : BitVec width.bits) (c : Cpu) : Option Cpu := do
  let eax := c.get width acc
  let dest ← c.getRM dst
  let c := c.setFlags (cmpxchg eax dest c.flags)
  if c.flags.zero then c.setRM dst src else c.set width acc dest

def execLockCmpxchgImpl (width : OperandWidth) (cmpxchg : BitVec width.bits → BitVec width.bits → Flags → Flags)
    (acc : width.Reg) (dst : BitVec 64) (src : BitVec width.bits) (c : Cpu) : Option Cpu :=
  let eax := c.get width acc
  c.withExclusiveRegion dst fun oldValue c =>
    let c := c.setFlags (cmpxchg eax oldValue c.flags)
    if c.flags.zero then some (src, c)
    else do
      let c ← c.set width acc oldValue
      some (oldValue, c)

/-- The handlers of `bt`, which write no operand. -/
def execBt (width : OperandWidth) (bt : BitVec width.bits → BitVec width.bits → Flags → Flags) (dst : RM width)
    (bit : BitIndex width) (c : Cpu) : Option Cpu := do
  let base ← c.getRM dst
  let index ← c.getSource bit.source
  some (c.setFlags (bt base index c.flags))

/-! ## Sums, differences and disjunctions -/

def execAddRM8RM8 (dst src : RM .u8) : Cpu → Option Cpu := execBinary .u8 add8 dst (.rm src)
def execAddRM8Imm (dst : RM .u8) (src : BitVec 64) : Cpu → Option Cpu := execBinary .u8 add8 dst (.imm src)
def execAddRM16RM16 (dst src : RM .u16) : Cpu → Option Cpu := execBinary .u16 add16 dst (.rm src)
def execAddRM16Imm (dst : RM .u16) (src : BitVec 64) : Cpu → Option Cpu := execBinary .u16 add16 dst (.imm src)
def execAddRM32RM32 (dst src : RM .u32) : Cpu → Option Cpu := execBinary .u32 add32 dst (.rm src)
def execAddRM32Imm (dst : RM .u32) (src : BitVec 64) : Cpu → Option Cpu := execBinary .u32 add32 dst (.imm src)
def execAddRM64RM64 (dst src : RM .u64) : Cpu → Option Cpu := execBinary .u64 add64 dst (.rm src)
def execAddRM64Imm (dst : RM .u64) (src : BitVec 64) : Cpu → Option Cpu := execBinary .u64 add64 dst (.imm src)
def execLockAddM8RM8 (dst : Mem) (src : RM .u8) : Cpu → Option Cpu := execLockBinary .u8 add8 dst (.rm src)
def execLockAddM8Imm (dst : Mem) (src : BitVec 64) : Cpu → Option Cpu := execLockBinary .u8 add8 dst (.imm src)
def execLockAddM16RM16 (dst : Mem) (src : RM .u16) : Cpu → Option Cpu := execLockBinary .u16 add16 dst (.rm src)
def execLockAddM16Imm (dst : Mem) (src : BitVec 64) : Cpu → Option Cpu := execLockBinary .u16 add16 dst (.imm src)
def execLockAddM32RM32 (dst : Mem) (src : RM .u32) : Cpu → Option Cpu := execLockBinary .u32 add32 dst (.rm src)
def execLockAddM32Imm (dst : Mem) (src : BitVec 64) : Cpu → Option Cpu := execLockBinary .u32 add32 dst (.imm src)
def execLockAddM64RM64 (dst : Mem) (src : RM .u64) : Cpu → Option Cpu := execLockBinary .u64 add64 dst (.rm src)
def execLockAddM64Imm (dst : Mem) (src : BitVec 64) : Cpu → Option Cpu := execLockBinary .u64 add64 dst (.imm src)
def execSubRM8RM8 (dst src : RM .u8) : Cpu → Option Cpu := execBinary .u8 sub8 dst (.rm src)
def execSubRM8Imm (dst : RM .u8) (src : BitVec 64) : Cpu → Option Cpu := execBinary .u8 sub8 dst (.imm src)
def execSubRM16RM16 (dst src : RM .u16) : Cpu → Option Cpu := execBinary .u16 sub16 dst (.rm src)
def execSubRM16Imm (dst : RM .u16) (src : BitVec 64) : Cpu → Option Cpu := execBinary .u16 sub16 dst (.imm src)
def execSubRM32RM32 (dst src : RM .u32) : Cpu → Option Cpu := execBinary .u32 sub32 dst (.rm src)
def execSubRM32Imm (dst : RM .u32) (src : BitVec 64) : Cpu → Option Cpu := execBinary .u32 sub32 dst (.imm src)
def execSubRM64RM64 (dst src : RM .u64) : Cpu → Option Cpu := execBinary .u64 CpuImpl.sub64 dst (.rm src)
def execSubRM64Imm (dst : RM .u64) (src : BitVec 64) : Cpu → Option Cpu := execBinary .u64 CpuImpl.sub64 dst (.imm src)
def execLockSubM8RM8 (dst : Mem) (src : RM .u8) : Cpu → Option Cpu := execLockBinary .u8 sub8 dst (.rm src)
def execLockSubM8Imm (dst : Mem) (src : BitVec 64) : Cpu → Option Cpu := execLockBinary .u8 sub8 dst (.imm src)
def execLockSubM16RM16 (dst : Mem) (src : RM .u16) : Cpu → Option Cpu := execLockBinary .u16 sub16 dst (.rm src)
def execLockSubM16Imm (dst : Mem) (src : BitVec 64) : Cpu → Option Cpu := execLockBinary .u16 sub16 dst (.imm src)
def execLockSubM32RM32 (dst : Mem) (src : RM .u32) : Cpu → Option Cpu := execLockBinary .u32 sub32 dst (.rm src)
def execLockSubM32Imm (dst : Mem) (src : BitVec 64) : Cpu → Option Cpu := execLockBinary .u32 sub32 dst (.imm src)
def execLockSubM64RM64 (dst : Mem) (src : RM .u64) : Cpu → Option Cpu := execLockBinary .u64 CpuImpl.sub64 dst (.rm src)
def execLockSubM64Imm (dst : Mem) (src : BitVec 64) : Cpu → Option Cpu := execLockBinary .u64 CpuImpl.sub64 dst (.imm src)
def execOrRM8RM8 (dst src : RM .u8) : Cpu → Option Cpu := execBinary .u8 or8 dst (.rm src)
def execOrRM8Imm (dst : RM .u8) (src : BitVec 64) : Cpu → Option Cpu := execBinary .u8 or8 dst (.imm src)
def execOrRM16RM16 (dst src : RM .u16) : Cpu → Option Cpu := execBinary .u16 or16 dst (.rm src)
def execOrRM16Imm (dst : RM .u16) (src : BitVec 64) : Cpu → Option Cpu := execBinary .u16 or16 dst (.imm src)
def execOrRM32RM32 (dst src : RM .u32) : Cpu → Option Cpu := execBinary .u32 or32 dst (.rm src)
def execOrRM32Imm (dst : RM .u32) (src : BitVec 64) : Cpu → Option Cpu := execBinary .u32 or32 dst (.imm src)
def execOrRM64RM64 (dst src : RM .u64) : Cpu → Option Cpu := execBinary .u64 or64 dst (.rm src)
def execOrRM64Imm (dst : RM .u64) (src : BitVec 64) : Cpu → Option Cpu := execBinary .u64 or64 dst (.imm src)
def execLockOrM8RM8 (dst : Mem) (src : RM .u8) : Cpu → Option Cpu := execLockBinary .u8 or8 dst (.rm src)
def execLockOrM8Imm (dst : Mem) (src : BitVec 64) : Cpu → Option Cpu := execLockBinary .u8 or8 dst (.imm src)
def execLockOrM16RM16 (dst : Mem) (src : RM .u16) : Cpu → Option Cpu := execLockBinary .u16 or16 dst (.rm src)
def execLockOrM16Imm (dst : Mem) (src : BitVec 64) : Cpu → Option Cpu := execLockBinary .u16 or16 dst (.imm src)
def execLockOrM32RM32 (dst : Mem) (src : RM .u32) : Cpu → Option Cpu := execLockBinary .u32 or32 dst (.rm src)
def execLockOrM32Imm (dst : Mem) (src : BitVec 64) : Cpu → Option Cpu := execLockBinary .u32 or32 dst (.imm src)
def execLockOrM64RM64 (dst : Mem) (src : RM .u64) : Cpu → Option Cpu := execLockBinary .u64 or64 dst (.rm src)
def execLockOrM64Imm (dst : Mem) (src : BitVec 64) : Cpu → Option Cpu := execLockBinary .u64 or64 dst (.imm src)

/-! ## Steps by one -/

def execIncRM8 (dst : RM .u8) : Cpu → Option Cpu := execUnary .u8 inc8 dst
def execIncRM16 (dst : RM .u16) : Cpu → Option Cpu := execUnary .u16 inc16 dst
def execIncRM32 (dst : RM .u32) : Cpu → Option Cpu := execUnary .u32 inc32 dst
def execIncRM64 (dst : RM .u64) : Cpu → Option Cpu := execUnary .u64 inc64 dst
def execLockIncM8 (dst : Mem) : Cpu → Option Cpu := execLockUnary .u8 inc8 dst
def execLockIncM16 (dst : Mem) : Cpu → Option Cpu := execLockUnary .u16 inc16 dst
def execLockIncM32 (dst : Mem) : Cpu → Option Cpu := execLockUnary .u32 inc32 dst
def execLockIncM64 (dst : Mem) : Cpu → Option Cpu := execLockUnary .u64 inc64 dst
def execDecRM8 (dst : RM .u8) : Cpu → Option Cpu := execUnary .u8 dec8 dst
def execDecRM16 (dst : RM .u16) : Cpu → Option Cpu := execUnary .u16 dec16 dst
def execDecRM32 (dst : RM .u32) : Cpu → Option Cpu := execUnary .u32 dec32 dst
def execDecRM64 (dst : RM .u64) : Cpu → Option Cpu := execUnary .u64 dec64 dst
def execLockDecM8 (dst : Mem) : Cpu → Option Cpu := execLockUnary .u8 dec8 dst
def execLockDecM16 (dst : Mem) : Cpu → Option Cpu := execLockUnary .u16 dec16 dst
def execLockDecM32 (dst : Mem) : Cpu → Option Cpu := execLockUnary .u32 dec32 dst
def execLockDecM64 (dst : Mem) : Cpu → Option Cpu := execLockUnary .u64 dec64 dst

/-! ## Exchanges -/

def execXaddRM8R8 (dst : RM .u8) (src : R8) : Cpu → Option Cpu := execXadd .u8 add8 dst src
def execXaddRM16R16 (dst : RM .u16) (src : R16) : Cpu → Option Cpu := execXadd .u16 add16 dst src
def execXaddRM32R32 (dst : RM .u32) (src : R32) : Cpu → Option Cpu := execXadd .u32 add32 dst src
def execXaddRM64R64 (dst : RM .u64) (src : R64) : Cpu → Option Cpu := execXadd .u64 add64 dst src
def execLockXaddM8R8 (dst : Mem) (src : R8) : Cpu → Option Cpu := execLockXadd .u8 add8 dst src
def execLockXaddM16R16 (dst : Mem) (src : R16) : Cpu → Option Cpu := execLockXadd .u16 add16 dst src
def execLockXaddM32R32 (dst : Mem) (src : R32) : Cpu → Option Cpu := execLockXadd .u32 add32 dst src
def execLockXaddM64R64 (dst : Mem) (src : R64) : Cpu → Option Cpu := execLockXadd .u64 add64 dst src
def execCmpxchgRM8R8 (src1 : RM .u8) (src2 : R8) (c : Cpu) : Option Cpu :=
  c.execCmpxchgImpl .u8 cmpxchg8 R8.al src1 (c.get8 src2)
def execCmpxchgRM16R16 (src1 : RM .u16) (src2 : R16) (c : Cpu) : Option Cpu :=
  c.execCmpxchgImpl .u16 cmpxchg16 R16.ax src1 (c.get16 src2)
def execCmpxchgRM32R32 (src1 : RM .u32) (src2 : R32) (c : Cpu) : Option Cpu :=
  c.execCmpxchgImpl .u32 cmpxchg32 R32.eax src1 (c.get32 src2)
def execCmpxchgRM64R64 (src1 : RM .u64) (src2 : R64) (c : Cpu) : Option Cpu :=
  c.execCmpxchgImpl .u64 cmpxchg64 R64.rax src1 (c.get64 src2)
def execLockCmpxchgM8R8 (src1 : Mem) (src2 : R8) (c : Cpu) : Option Cpu :=
  c.execLockCmpxchgImpl .u8 cmpxchg8 R8.al (c.resolve src1) (c.get8 src2)
def execLockCmpxchgM16R16 (src1 : Mem) (src2 : R16) (c : Cpu) : Option Cpu :=
  c.execLockCmpxchgImpl .u16 cmpxchg16 R16.ax (c.resolve src1) (c.get16 src2)
def execLockCmpxchgM32R32 (src1 : Mem) (src2 : R32) (c : Cpu) : Option Cpu :=
  c.execLockCmpxchgImpl .u32 cmpxchg32 R32.eax (c.resolve src1) (c.get32 src2)
def execLockCmpxchgM64R64 (src1 : Mem) (src2 : R64) (c : Cpu) : Option Cpu :=
  c.execLockCmpxchgImpl .u64 cmpxchg64 R64.rax (c.resolve src1) (c.get64 src2)

/-- The pair of registers that `cmpxchg16b` compares with, and the one it stores. -/
def rdxRax (c : Cpu) : U128 := ⟨c.get64 .rax, c.get64 .rdx⟩
def rcxRbx (c : Cpu) : U128 := ⟨c.get64 .rbx, c.get64 .rcx⟩

def setZero (c : Cpu) (zero : Bool) : Cpu := { c with flags := { c.flags with zero := zero } }

def execCmpxchg16BM128 (dst : Mem) (c : Cpu) : Option Cpu := do
  let dest ← c.getPtr 128 (c.resolve dst)
  if U128.ofBits dest = c.rdxRax then (c.setZero true).setPtr (c.resolve dst) c.rcxRbx.bits
  else do
    let c ← (c.setZero false).set64 .rax (U128.ofBits dest).lo
    c.set64 .rdx (U128.ofBits dest).hi

def execLockCmpxchg16BM128 (dst : Mem) (c : Cpu) : Option Cpu :=
  c.withExclusiveRegion (w := 128) (c.resolve dst) fun oldValue c =>
    if U128.ofBits oldValue = c.rdxRax then some (c.rcxRbx.bits, c.setZero true)
    else do
      let c ← (c.setZero false).set64 .rax (U128.ofBits oldValue).lo
      let c ← c.set64 .rdx (U128.ofBits oldValue).hi
      some (oldValue, c)

/-! ## Arithmetic without a `LOCK` form -/

def execAdcRM32RM32 (dst src : RM .u32) : Cpu → Option Cpu := execBinary .u32 adc32 dst (.rm src)
def execAdcRM32Imm (dst : RM .u32) (src : BitVec 64) : Cpu → Option Cpu := execBinary .u32 adc32 dst (.imm src)
def execSbbRM8RM8 (dst src : RM .u8) : Cpu → Option Cpu := execBinary .u8 sbb8 dst (.rm src)
def execSbbRM8Imm (dst : RM .u8) (src : BitVec 64) : Cpu → Option Cpu := execBinary .u8 sbb8 dst (.imm src)
def execSbbRM32RM32 (dst src : RM .u32) : Cpu → Option Cpu := execBinary .u32 sbb32 dst (.rm src)
def execSbbRM32Imm (dst : RM .u32) (src : BitVec 64) : Cpu → Option Cpu := execBinary .u32 sbb32 dst (.imm src)
def execSbbRM64RM64 (dst src : RM .u64) : Cpu → Option Cpu := execBinary .u64 sbb64 dst (.rm src)
def execSbbRM64Imm (dst : RM .u64) (src : BitVec 64) : Cpu → Option Cpu := execBinary .u64 sbb64 dst (.imm src)
def execCmpRM8RM8 (src1 src2 : RM .u8) : Cpu → Option Cpu := execCompare .u8 cmp8 src1 (.rm src2)
def execCmpRM8Imm (src1 : RM .u8) (src2 : BitVec 64) : Cpu → Option Cpu := execCompare .u8 cmp8 src1 (.imm src2)
def execCmpRM16RM16 (src1 src2 : RM .u16) : Cpu → Option Cpu := execCompare .u16 cmp16 src1 (.rm src2)
def execCmpRM16Imm (src1 : RM .u16) (src2 : BitVec 64) : Cpu → Option Cpu := execCompare .u16 cmp16 src1 (.imm src2)
def execCmpRM32RM32 (src1 src2 : RM .u32) : Cpu → Option Cpu := execCompare .u32 cmp32 src1 (.rm src2)
def execCmpRM32Imm (src1 : RM .u32) (src2 : BitVec 64) : Cpu → Option Cpu := execCompare .u32 cmp32 src1 (.imm src2)
def execCmpRM64RM64 (src1 src2 : RM .u64) : Cpu → Option Cpu := execCompare .u64 cmp64 src1 (.rm src2)
def execCmpRM64Imm (src1 : RM .u64) (src2 : BitVec 64) : Cpu → Option Cpu := execCompare .u64 cmp64 src1 (.imm src2)
def execAndRM8RM8 (dst src : RM .u8) : Cpu → Option Cpu := execBinary .u8 and8 dst (.rm src)
def execAndRM8Imm (dst : RM .u8) (src : BitVec 64) : Cpu → Option Cpu := execBinary .u8 and8 dst (.imm src)
def execAndRM16RM16 (dst src : RM .u16) : Cpu → Option Cpu := execBinary .u16 and16 dst (.rm src)
def execAndRM16Imm (dst : RM .u16) (src : BitVec 64) : Cpu → Option Cpu := execBinary .u16 and16 dst (.imm src)
def execAndRM32RM32 (dst src : RM .u32) : Cpu → Option Cpu := execBinary .u32 and32 dst (.rm src)
def execAndRM32Imm (dst : RM .u32) (src : BitVec 64) : Cpu → Option Cpu := execBinary .u32 and32 dst (.imm src)
def execAndRM64RM64 (dst src : RM .u64) : Cpu → Option Cpu := execBinary .u64 and64 dst (.rm src)
def execAndRM64Imm (dst : RM .u64) (src : BitVec 64) : Cpu → Option Cpu := execBinary .u64 and64 dst (.imm src)
def execXorRM8RM8 (dst src : RM .u8) : Cpu → Option Cpu := execBinary .u8 xor8 dst (.rm src)
def execXorRM8Imm (dst : RM .u8) (src : BitVec 64) : Cpu → Option Cpu := execBinary .u8 xor8 dst (.imm src)
def execXorRM16RM16 (dst src : RM .u16) : Cpu → Option Cpu := execBinary .u16 xor16 dst (.rm src)
def execXorRM16Imm (dst : RM .u16) (src : BitVec 64) : Cpu → Option Cpu := execBinary .u16 xor16 dst (.imm src)
def execXorRM32RM32 (dst src : RM .u32) : Cpu → Option Cpu := execBinary .u32 xor32 dst (.rm src)
def execXorRM32Imm (dst : RM .u32) (src : BitVec 64) : Cpu → Option Cpu := execBinary .u32 xor32 dst (.imm src)
def execXorRM64RM64 (dst src : RM .u64) : Cpu → Option Cpu := execBinary .u64 xor64 dst (.rm src)
def execXorRM64Imm (dst : RM .u64) (src : BitVec 64) : Cpu → Option Cpu := execBinary .u64 xor64 dst (.imm src)
def execTestRM8R8 (src1 : RM .u8) (src2 : R8) : Cpu → Option Cpu := execCompare .u8 test8 src1 (.rm (.reg src2))
def execTestRM8Imm (src1 : RM .u8) (src2 : BitVec 64) : Cpu → Option Cpu := execCompare .u8 test8 src1 (.imm src2)
def execTestRM16R16 (src1 : RM .u16) (src2 : R16) : Cpu → Option Cpu := execCompare .u16 test16 src1 (.rm (.reg src2))
def execTestRM16Imm (src1 : RM .u16) (src2 : BitVec 64) : Cpu → Option Cpu := execCompare .u16 test16 src1 (.imm src2)
def execTestRM32R32 (src1 : RM .u32) (src2 : R32) : Cpu → Option Cpu := execCompare .u32 test32 src1 (.rm (.reg src2))
def execTestRM32Imm (src1 : RM .u32) (src2 : BitVec 64) : Cpu → Option Cpu := execCompare .u32 test32 src1 (.imm src2)
def execTestRM64R64 (src1 : RM .u64) (src2 : R64) : Cpu → Option Cpu := execCompare .u64 test64 src1 (.rm (.reg src2))
def execTestRM64Imm (src1 : RM .u64) (src2 : BitVec 64) : Cpu → Option Cpu := execCompare .u64 test64 src1 (.imm src2)
def execNegRM8 (dst : RM .u8) : Cpu → Option Cpu := execUnary .u8 neg8 dst
def execNegRM16 (dst : RM .u16) : Cpu → Option Cpu := execUnary .u16 neg16 dst
def execNegRM32 (dst : RM .u32) : Cpu → Option Cpu := execUnary .u32 neg32 dst
def execNegRM64 (dst : RM .u64) : Cpu → Option Cpu := execUnary .u64 neg64 dst
def execNotRM32 (dst : RM .u32) : Cpu → Option Cpu := execUnary .u32 (fun val flags => (~~~val, flags)) dst
def execNotRM64 (dst : RM .u64) : Cpu → Option Cpu := execUnary .u64 (fun val flags => (~~~val, flags)) dst

/-! ## Moves -/

/-- The callbacks of a write to `rsp` are left out. -/
def execMovRR (width : OperandWidth) (dst src : width.Reg) (c : Cpu) : Option Cpu := c.set width dst (c.get width src)

def execMovRM (width : OperandWidth) (dst : width.Reg) (src : Mem) (c : Cpu) : Option Cpu := do
  let value ← c.getPtr width.bits (c.resolve src)
  c.set width dst value

def execMovMR (width : OperandWidth) (dst : Mem) (src : width.Reg) (c : Cpu) : Option Cpu :=
  c.setPtr (c.resolve dst) (c.get width src)

def execMovRImm (width : OperandWidth) (dst : width.Reg) (src : BitVec 64) (c : Cpu) : Option Cpu :=
  c.set width dst (src.setWidth width.bits)

def execMovMImm (width : OperandWidth) (dst : Mem) (src : BitVec 64) (c : Cpu) : Option Cpu :=
  c.setPtr (c.resolve dst) (src.setWidth width.bits)

def execMovzxR16RM8 (dst : R16) (src : RM .u8) : Cpu → Option Cpu := execExtend .u16 .u8 BitVec.setWidth dst src
def execMovzxR32RM8 (dst : R32) (src : RM .u8) : Cpu → Option Cpu := execExtend .u32 .u8 BitVec.setWidth dst src
def execMovzxR32RM16 (dst : R32) (src : RM .u16) : Cpu → Option Cpu := execExtend .u32 .u16 BitVec.setWidth dst src
def execMovzxR64RM8 (dst : R64) (src : RM .u8) : Cpu → Option Cpu := execExtend .u64 .u8 BitVec.setWidth dst src
def execMovzxR64RM16 (dst : R64) (src : RM .u16) : Cpu → Option Cpu := execExtend .u64 .u16 BitVec.setWidth dst src
def execMovsxR16RM8 (dst : R16) (src : RM .u8) : Cpu → Option Cpu := execExtend .u16 .u8 BitVec.signExtend dst src
def execMovsxR32RM8 (dst : R32) (src : RM .u8) : Cpu → Option Cpu := execExtend .u32 .u8 BitVec.signExtend dst src
def execMovsxR32RM16 (dst : R32) (src : RM .u16) : Cpu → Option Cpu := execExtend .u32 .u16 BitVec.signExtend dst src
def execMovsxR64RM8 (dst : R64) (src : RM .u8) : Cpu → Option Cpu := execExtend .u64 .u8 BitVec.signExtend dst src
def execMovsxR64RM16 (dst : R64) (src : RM .u16) : Cpu → Option Cpu := execExtend .u64 .u16 BitVec.signExtend dst src
def execMovsxR64RM32 (dst : R64) (src : RM .u32) : Cpu → Option Cpu := execExtend .u64 .u32 BitVec.signExtend dst src

/-- `Registers::resolve` -/
def resolveEncoding (c : Cpu) (address : Ir.Encoding64) : BitVec 64 :=
  c.gpr address.base + BitVec.ofNat 64 address.scale.toNat * c.gpr address.index + BitVec.ofInt 64 address.displacement.toInt

def execLeaR32Encoding64 (dst : R32) (src : Ir.Encoding64) (c : Cpu) : Option Cpu :=
  c.set32 dst ((c.resolveEncoding src).setWidth 32)

def execLeaR64Encoding64 (dst : R64) (src : Ir.Encoding64) (c : Cpu) : Option Cpu := c.set64 dst (c.resolveEncoding src)

/-- `Flags::matches` -/
def flagsMatch (flags : Flags) : Ir.Cond → Bool
  | .a => flags.carry == false && flags.zero == false
  | .ae => flags.carry == false
  | .b => flags.carry == true
  | .be => flags.carry == true || flags.zero == true
  | .e => flags.zero == true
  | .g => flags.zero == false && flags.sign == flags.overflow
  | .ge => flags.sign == flags.overflow
  | .l => flags.sign != flags.overflow
  | .le => flags.zero == true || flags.sign != flags.overflow
  | .nb => flags.carry == false
  | .nbe => flags.carry == false && flags.zero == false
  | .ne => flags.zero == false
  | .no => flags.overflow == false
  | .np => flags.parity == false
  | .ns => flags.sign == false
  | .nu => flags.parity == false
  | .o => flags.overflow == true
  | .p => flags.parity == true
  | .s => flags.sign == true
  | .u => flags.parity == true

def execSetRM8 (cond : Ir.Cond) (dst : RM .u8) (c : Cpu) : Option Cpu :=
  c.setRM dst ((BitVec.ofBool (flagsMatch c.flags cond)).setWidth 8)

def execCmovR32RM32 (cond : Ir.Cond) (dst : R32) (src : RM .u32) (c : Cpu) : Option Cpu :=
  if !flagsMatch c.flags cond then some c
  else do
    let value ← c.getRM src
    c.set32 dst value

def execCmovR64RM64 (cond : Ir.Cond) (dst : R64) (src : RM .u64) (c : Cpu) : Option Cpu :=
  if !flagsMatch c.flags cond then some c
  else do
    let value ← c.getRM src
    c.set64 dst value

/-! ## The stack -/

def push64 (value : BitVec 64) (c : Cpu) : Option Cpu :=
  let c := c.setGpr .rsp (c.gpr .rsp - 8)
  c.setPtr (c.gpr .rsp) value

def push32 (value : BitVec 32) (c : Cpu) : Option Cpu :=
  let c := c.setGpr .rsp (c.gpr .rsp - 8)
  c.setPtr (c.gpr .rsp) (value.signExtend 64)

def pop64 (c : Cpu) : Option (BitVec 64 × Cpu) := do
  let value ← c.getPtr 64 (c.gpr .rsp)
  some (value, c.setGpr .rsp (c.gpr .rsp + 8))

def execPushImm (src : BitVec 64) (c : Cpu) : Option Cpu := c.push32 (src.setWidth 32)

def execPushRM64 (src : RM .u64) (c : Cpu) : Option Cpu := do
  let value ← c.getRM src
  c.push64 value

def execPopR64 (dst : R64) (c : Cpu) : Option Cpu := do
  let (value, c) ← c.pop64
  c.set64 dst value

def execLeave (c : Cpu) : Option Cpu := do
  let (value, c) ← (c.setGpr .rsp (c.gpr .rbp)).pop64
  some (c.setGpr .rbp value)

def execNop (c : Cpu) : Option Cpu := some c

/-! ## Bit tests -/

def execBtRM16R16 (dst : RM .u16) (bit : R16) : Cpu → Option Cpu := execBt .u16 bt16 dst (.reg bit)
def execBtRM16Imm (dst : RM .u16) (bit : BitVec 64) : Cpu → Option Cpu := execBt .u16 bt16 dst (.imm bit)
def execBtRM32R32 (dst : RM .u32) (bit : R32) : Cpu → Option Cpu := execBt .u32 bt32 dst (.reg bit)
def execBtRM32Imm (dst : RM .u32) (bit : BitVec 64) : Cpu → Option Cpu := execBt .u32 bt32 dst (.imm bit)
def execBtRM64R64 (dst : RM .u64) (bit : R64) : Cpu → Option Cpu := execBt .u64 bt64 dst (.reg bit)
def execBtRM64Imm (dst : RM .u64) (bit : BitVec 64) : Cpu → Option Cpu := execBt .u64 bt64 dst (.imm bit)
def execBtrRM16R16 (dst : RM .u16) (bit : R16) : Cpu → Option Cpu := execBinary .u16 btr16 dst (.rm (.reg bit))
def execBtrRM16Imm (dst : RM .u16) (bit : BitVec 64) : Cpu → Option Cpu := execBinary .u16 btr16 dst (.imm bit)
def execBtrRM32R32 (dst : RM .u32) (bit : R32) : Cpu → Option Cpu := execBinary .u32 btr32 dst (.rm (.reg bit))
def execBtrRM32Imm (dst : RM .u32) (bit : BitVec 64) : Cpu → Option Cpu := execBinary .u32 btr32 dst (.imm bit)
def execBtrRM64R64 (dst : RM .u64) (bit : R64) : Cpu → Option Cpu := execBinary .u64 btr64 dst (.rm (.reg bit))
def execBtrRM64Imm (dst : RM .u64) (bit : BitVec 64) : Cpu → Option Cpu := execBinary .u64 btr64 dst (.imm bit)
def execBtcRM16R16 (dst : RM .u16) (bit : R16) : Cpu → Option Cpu := execBinary .u16 btc16 dst (.rm (.reg bit))
def execBtcRM16Imm (dst : RM .u16) (bit : BitVec 64) : Cpu → Option Cpu := execBinary .u16 btc16 dst (.imm bit)
def execBtcRM32R32 (dst : RM .u32) (bit : R32) : Cpu → Option Cpu := execBinary .u32 btc32 dst (.rm (.reg bit))
def execBtcRM32Imm (dst : RM .u32) (bit : BitVec 64) : Cpu → Option Cpu := execBinary .u32 btc32 dst (.imm bit)
def execBtcRM64R64 (dst : RM .u64) (bit : R64) : Cpu → Option Cpu := execBinary .u64 btc64 dst (.rm (.reg bit))
def execBtcRM64Imm (dst : RM .u64) (bit : BitVec 64) : Cpu → Option Cpu := execBinary .u64 btc64 dst (.imm bit)
def execBtsRM16R16 (dst : RM .u16) (bit : R16) : Cpu → Option Cpu := execBinary .u16 bts16 dst (.rm (.reg bit))
def execBtsRM16Imm (dst : RM .u16) (bit : BitVec 64) : Cpu → Option Cpu := execBinary .u16 bts16 dst (.imm bit)
def execBtsRM32R32 (dst : RM .u32) (bit : R32) : Cpu → Option Cpu := execBinary .u32 bts32 dst (.rm (.reg bit))
def execBtsRM32Imm (dst : RM .u32) (bit : BitVec 64) : Cpu → Option Cpu := execBinary .u32 bts32 dst (.imm bit)
def execBtsRM64R64 (dst : RM .u64) (bit : R64) : Cpu → Option Cpu := execBinary .u64 bts64 dst (.rm (.reg bit))
def execBtsRM64Imm (dst : RM .u64) (bit : BitVec 64) : Cpu → Option Cpu := execBinary .u64 bts64 dst (.imm bit)
def execLockBtsM16R16 (dst : Mem) (bit : R16) : Cpu → Option Cpu :=
  execLockBinary .u16 bts16 dst (.rm (.reg bit))
def execLockBtsM16Imm (dst : Mem) (bit : BitVec 64) : Cpu → Option Cpu := execLockBinary .u16 bts16 dst (.imm bit)
def execLockBtsM32R32 (dst : Mem) (bit : R32) : Cpu → Option Cpu :=
  execLockBinary .u32 bts32 dst (.rm (.reg bit))
def execLockBtsM32Imm (dst : Mem) (bit : BitVec 64) : Cpu → Option Cpu := execLockBinary .u32 bts32 dst (.imm bit)
def execLockBtsM64R64 (dst : Mem) (bit : R64) : Cpu → Option Cpu :=
  execLockBinary .u64 bts64 dst (.rm (.reg bit))
def execLockBtsM64Imm (dst : Mem) (bit : BitVec 64) : Cpu → Option Cpu := execLockBinary .u64 bts64 dst (.imm bit)

end Cpu

/-! ## The instructions with a `LOCK` form -/

/-- What can be prefixed with `LOCK`, with the operand in memory that is read and written. -/
inductive Lockable where
  | add (width : OperandWidth) (dst : Mem) (src : Source width)
  | sub (width : OperandWidth) (dst : Mem) (src : Source width)
  | or (width : OperandWidth) (dst : Mem) (src : Source width)
  | inc (width : OperandWidth) (dst : Mem)
  | dec (width : OperandWidth) (dst : Mem)
  | xadd (width : OperandWidth) (dst : Mem) (src : width.Reg)
  | bts (width : BitWidth) (dst : Mem) (bit : BitIndex width.operand)
  | cmpxchg (width : OperandWidth) (dst : Mem) (src : width.Reg)
  | cmpxchg16b (dst : Mem)

namespace Lockable

open Cpu

/-- The accumulator of a width. -/
def acc : (width : OperandWidth) → width.Reg
  | .u8 => .al
  | .u16 => .ax
  | .u32 => .eax
  | .u64 => .rax

/-- The handler of the instruction without the prefix. -/
def exec : Lockable → Cpu → Option Cpu
  | .add .u8 dst (.rm src) => execAddRM8RM8 (.mem dst) src
  | .add .u8 dst (.imm src) => execAddRM8Imm (.mem dst) src
  | .add .u16 dst (.rm src) => execAddRM16RM16 (.mem dst) src
  | .add .u16 dst (.imm src) => execAddRM16Imm (.mem dst) src
  | .add .u32 dst (.rm src) => execAddRM32RM32 (.mem dst) src
  | .add .u32 dst (.imm src) => execAddRM32Imm (.mem dst) src
  | .add .u64 dst (.rm src) => execAddRM64RM64 (.mem dst) src
  | .add .u64 dst (.imm src) => execAddRM64Imm (.mem dst) src
  | .sub .u8 dst (.rm src) => execSubRM8RM8 (.mem dst) src
  | .sub .u8 dst (.imm src) => execSubRM8Imm (.mem dst) src
  | .sub .u16 dst (.rm src) => execSubRM16RM16 (.mem dst) src
  | .sub .u16 dst (.imm src) => execSubRM16Imm (.mem dst) src
  | .sub .u32 dst (.rm src) => execSubRM32RM32 (.mem dst) src
  | .sub .u32 dst (.imm src) => execSubRM32Imm (.mem dst) src
  | .sub .u64 dst (.rm src) => execSubRM64RM64 (.mem dst) src
  | .sub .u64 dst (.imm src) => execSubRM64Imm (.mem dst) src
  | .or .u8 dst (.rm src) => execOrRM8RM8 (.mem dst) src
  | .or .u8 dst (.imm src) => execOrRM8Imm (.mem dst) src
  | .or .u16 dst (.rm src) => execOrRM16RM16 (.mem dst) src
  | .or .u16 dst (.imm src) => execOrRM16Imm (.mem dst) src
  | .or .u32 dst (.rm src) => execOrRM32RM32 (.mem dst) src
  | .or .u32 dst (.imm src) => execOrRM32Imm (.mem dst) src
  | .or .u64 dst (.rm src) => execOrRM64RM64 (.mem dst) src
  | .or .u64 dst (.imm src) => execOrRM64Imm (.mem dst) src
  | .inc .u8 dst => execIncRM8 (.mem dst)
  | .inc .u16 dst => execIncRM16 (.mem dst)
  | .inc .u32 dst => execIncRM32 (.mem dst)
  | .inc .u64 dst => execIncRM64 (.mem dst)
  | .dec .u8 dst => execDecRM8 (.mem dst)
  | .dec .u16 dst => execDecRM16 (.mem dst)
  | .dec .u32 dst => execDecRM32 (.mem dst)
  | .dec .u64 dst => execDecRM64 (.mem dst)
  | .xadd .u8 dst src => execXaddRM8R8 (.mem dst) src
  | .xadd .u16 dst src => execXaddRM16R16 (.mem dst) src
  | .xadd .u32 dst src => execXaddRM32R32 (.mem dst) src
  | .xadd .u64 dst src => execXaddRM64R64 (.mem dst) src
  | .bts .u16 dst (.reg bit) => execBtsRM16R16 (.mem dst) bit
  | .bts .u16 dst (.imm bit) => execBtsRM16Imm (.mem dst) bit
  | .bts .u32 dst (.reg bit) => execBtsRM32R32 (.mem dst) bit
  | .bts .u32 dst (.imm bit) => execBtsRM32Imm (.mem dst) bit
  | .bts .u64 dst (.reg bit) => execBtsRM64R64 (.mem dst) bit
  | .bts .u64 dst (.imm bit) => execBtsRM64Imm (.mem dst) bit
  | .cmpxchg .u8 dst src => execCmpxchgRM8R8 (.mem dst) src
  | .cmpxchg .u16 dst src => execCmpxchgRM16R16 (.mem dst) src
  | .cmpxchg .u32 dst src => execCmpxchgRM32R32 (.mem dst) src
  | .cmpxchg .u64 dst src => execCmpxchgRM64R64 (.mem dst) src
  | .cmpxchg16b dst => execCmpxchg16BM128 dst

/-- The handler of the instruction with the prefix. -/
def execLock : Lockable → Cpu → Option Cpu
  | .add .u8 dst (.rm src) => execLockAddM8RM8 dst src
  | .add .u8 dst (.imm src) => execLockAddM8Imm dst src
  | .add .u16 dst (.rm src) => execLockAddM16RM16 dst src
  | .add .u16 dst (.imm src) => execLockAddM16Imm dst src
  | .add .u32 dst (.rm src) => execLockAddM32RM32 dst src
  | .add .u32 dst (.imm src) => execLockAddM32Imm dst src
  | .add .u64 dst (.rm src) => execLockAddM64RM64 dst src
  | .add .u64 dst (.imm src) => execLockAddM64Imm dst src
  | .sub .u8 dst (.rm src) => execLockSubM8RM8 dst src
  | .sub .u8 dst (.imm src) => execLockSubM8Imm dst src
  | .sub .u16 dst (.rm src) => execLockSubM16RM16 dst src
  | .sub .u16 dst (.imm src) => execLockSubM16Imm dst src
  | .sub .u32 dst (.rm src) => execLockSubM32RM32 dst src
  | .sub .u32 dst (.imm src) => execLockSubM32Imm dst src
  | .sub .u64 dst (.rm src) => execLockSubM64RM64 dst src
  | .sub .u64 dst (.imm src) => execLockSubM64Imm dst src
  | .or .u8 dst (.rm src) => execLockOrM8RM8 dst src
  | .or .u8 dst (.imm src) => execLockOrM8Imm dst src
  | .or .u16 dst (.rm src) => execLockOrM16RM16 dst src
  | .or .u16 dst (.imm src) => execLockOrM16Imm dst src
  | .or .u32 dst (.rm src) => execLockOrM32RM32 dst src
  | .or .u32 dst (.imm src) => execLockOrM32Imm dst src
  | .or .u64 dst (.rm src) => execLockOrM64RM64 dst src
  | .or .u64 dst (.imm src) => execLockOrM64Imm dst src
  | .inc .u8 dst => execLockIncM8 dst
  | .inc .u16 dst => execLockIncM16 dst
  | .inc .u32 dst => execLockIncM32 dst
  | .inc .u64 dst => execLockIncM64 dst
  | .dec .u8 dst => execLockDecM8 dst
  | .dec .u16 dst => execLockDecM16 dst
  | .dec .u32 dst => execLockDecM32 dst
  | .dec .u64 dst => execLockDecM64 dst
  | .xadd .u8 dst src => execLockXaddM8R8 dst src
  | .xadd .u16 dst src => execLockXaddM16R16 dst src
  | .xadd .u32 dst src => execLockXaddM32R32 dst src
  | .xadd .u64 dst src => execLockXaddM64R64 dst src
  | .bts .u16 dst (.reg bit) => execLockBtsM16R16 dst bit
  | .bts .u16 dst (.imm bit) => execLockBtsM16Imm dst bit
  | .bts .u32 dst (.reg bit) => execLockBtsM32R32 dst bit
  | .bts .u32 dst (.imm bit) => execLockBtsM32Imm dst bit
  | .bts .u64 dst (.reg bit) => execLockBtsM64R64 dst bit
  | .bts .u64 dst (.imm bit) => execLockBtsM64Imm dst bit
  | .cmpxchg .u8 dst src => execLockCmpxchgM8R8 dst src
  | .cmpxchg .u16 dst src => execLockCmpxchgM16R16 dst src
  | .cmpxchg .u32 dst src => execLockCmpxchgM32R32 dst src
  | .cmpxchg .u64 dst src => execLockCmpxchgM64R64 dst src
  | .cmpxchg16b dst => execLockCmpxchg16BM128 dst

end Lockable

end X64Emulator
