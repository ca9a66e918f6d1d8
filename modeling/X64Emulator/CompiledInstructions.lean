import X64Emulator.CompiledBitTests
import X64Emulator.HostMachine

/-!
# Compiled integer instructions

The instructions the compiler emits for the moves and the arithmetic it knows, with what the host does with them. The registers of
the guest are read into registers of the host, or its memory is; there the instruction is made once more, and the result is written
back. What stands here of the host is the documentation of its instructions: it is not taken from the interpreter.
-/

namespace X64Emulator

open Ir

namespace OperandWidth

def regOperand : (width : OperandWidth) → width.Reg → Operand
  | .u8, reg => .r8 reg
  | .u16, reg => .r16 reg
  | .u32, reg => .r32 reg
  | .u64, reg => .r64 reg

def memOperand : OperandWidth → Mem → Operand
  | .u8, mem => .m8 mem
  | .u16, mem => .m16 mem
  | .u32, mem => .m32 mem
  | .u64, mem => .m64 mem

/-- The immediate of an instruction. An operation on 64 bits has one of 32 bits. -/
def immOperand (imm : BitVec 64) : OperandWidth → Operand
  | .u8 => .u8 ⟨imm.setWidth 8⟩
  | .u16 => .u16 ⟨imm.setWidth 16⟩
  | .u32 | .u64 => .u32 ⟨imm.setWidth 32⟩

end OperandWidth

/-! ## The host -/

namespace Ir

def Operand.width : Operand → Option OperandWidth
  | .r8 _ | .m8 _ | .u8 _ => some .u8
  | .r16 _ | .m16 _ | .u16 _ => some .u16
  | .r32 _ | .m32 _ | .u32 _ => some .u32
  | .r64 _ | .m64 _ | .u64 _ => some .u64
  | _ => none

/-- The value and the flags of a sum, of the operands and a carry. -/
def sum {w : Nat} (a b : BitVec w) (carry : Bool) (flags : Flags) : BitVec w × Flags :=
  let res := a + b + (BitVec.ofBool carry).setWidth w
  let signed := a.toInt + b.toInt + carry.toInt
  (res, { flags with
    carry := 2 ^ w ≤ a.toNat + b.toNat + carry.toNat
    overflow := ¬ (-2 ^ (w - 1) ≤ signed ∧ signed < 2 ^ (w - 1))
    sign := res.msb
    zero := res = 0
    parity := Flags.bitCount (res.setWidth 8) % 2 = 0 })

/-- The value and the flags of a difference, with a borrow. -/
def difference {w : Nat} (a b : BitVec w) (borrow : Bool) (flags : Flags) : BitVec w × Flags :=
  let res := a - b - (BitVec.ofBool borrow).setWidth w
  let signed := a.toInt - b.toInt - borrow.toInt
  (res, { flags with
    carry := a.toNat < b.toNat + borrow.toNat
    overflow := ¬ (-2 ^ (w - 1) ≤ signed ∧ signed < 2 ^ (w - 1))
    sign := res.msb
    zero := res = 0
    parity := Flags.bitCount (res.setWidth 8) % 2 = 0 })

/-- The flags of an operation on the bits. -/
def logical {w : Nat} (res : BitVec w) (flags : Flags) : BitVec w × Flags :=
  (res, { flags with
    carry := false
    overflow := false
    sign := res.msb
    zero := res = 0
    parity := Flags.bitCount (res.setWidth 8) % 2 = 0 })

/-- The operations with two operands. -/
def Op.binary {w : Nat} (op : Op) (a b : BitVec w) (flags : Flags) : Option (BitVec w × Flags) :=
  match op with
  | .add => some (sum a b false flags)
  | .adc => some (sum a b flags.carry flags)
  | .sub | .cmp => some (difference a b false flags)
  | .sbb => some (difference a b flags.carry flags)
  | .and | .test => some (logical (a &&& b) flags)
  | .or => some (logical (a ||| b) flags)
  | .xor => some (logical (a ^^^ b) flags)
  | _ => none

/-- The operations with one operand. A step by one leaves the carry alone. -/
def Op.unary {w : Nat} (op : Op) (a : BitVec w) (flags : Flags) : Option (BitVec w × Flags) :=
  match op with
  | .inc =>
    let (res, after) := sum a 1 false flags
    some (res, { after with carry := flags.carry })
  | .dec =>
    let (res, after) := difference a 1 false flags
    some (res, { after with carry := flags.carry })
  | .neg => some (difference 0 a false flags)
  | .not => some (~~~a, flags)
  | _ => none

namespace HostState

def getPart (s : HostState) : (width : OperandWidth) → width.Reg → BitVec width.bits
  | .u8, reg => (s.get reg.containingRegister >>> (8 * reg.offset)).setWidth 8
  | .u16, reg => (s.get reg.containingRegister).setWidth 16
  | .u32, reg => (s.get reg.containingRegister).setWidth 32
  | .u64, reg => s.get reg

/-- A write of 8 or 16 bits leaves the rest of the register, and one of 32 bits clears it. -/
def setPart (s : HostState) : (width : OperandWidth) → width.Reg → BitVec width.bits → HostState
  | .u8, reg, value => s.set reg.containingRegister
      ((s.get reg.containingRegister &&& ~~~(0xff#64 <<< (8 * reg.offset))) ||| value.setWidth 64 <<< (8 * reg.offset))
  | .u16, reg, value => s.set reg.containingRegister ((s.get reg.containingRegister &&& ~~~0xffff#64) ||| value.setWidth 64)
  | .u32, reg, value => s.set reg.containingRegister (value.setWidth 64)
  | .u64, reg, value => s.set reg value

def read (s : HostState) : (width : OperandWidth) → Operand → Option (BitVec width.bits)
  | .u8, .r8 reg => some (s.getPart .u8 reg)
  | .u16, .r16 reg => some (s.getPart .u16 reg)
  | .u32, .r32 reg => some (s.getPart .u32 reg)
  | .u64, .r64 reg => some (s.getPart .u64 reg)
  | .u8, .m8 mem => (s.address mem).bind (s.load .u8)
  | .u16, .m16 mem => (s.address mem).bind (s.load .u16)
  | .u32, .m32 mem => (s.address mem).bind (s.load .u32)
  | .u64, .m64 mem => (s.address mem).bind (s.load .u64)
  | .u8, .u8 value => some value.toBitVec
  | .u16, .u16 value => some value.toBitVec
  | .u32, .u32 value => some value.toBitVec
  | .u64, .u32 value => some (value.toBitVec.signExtend 64)
  | .u64, .u64 value => some value.toBitVec
  | _, _ => none

def write (s : HostState) : (width : OperandWidth) → Operand → BitVec width.bits → Option HostState
  | .u8, .r8 reg, value => some (s.setPart .u8 reg value)
  | .u16, .r16 reg, value => some (s.setPart .u16 reg value)
  | .u32, .r32 reg, value => some (s.setPart .u32 reg value)
  | .u64, .r64 reg, value => some (s.setPart .u64 reg value)
  | .u8, .m8 mem, value => (s.address mem).bind fun a => s.store .u8 a value
  | .u16, .m16 mem, value => (s.address mem).bind fun a => s.store .u16 a value
  | .u32, .m32 mem, value => (s.address mem).bind fun a => s.store .u32 a value
  | .u64, .m64 mem, value => (s.address mem).bind fun a => s.store .u64 a value
  | _, _, _ => none

/-- The instructions of integers that do not jump, those of `exec` among them. A comparison has no operand to write to. -/
def perform (s : HostState) (ins : Instruction) : Option HostState :=
  match ins.op with
  | .mov => do
    let width ← ins.out.width
    let value ← s.read width ins.in1
    s.write width ins.out value
  | .movzx => do
    let width ← ins.out.width
    let srcWidth ← ins.in1.width
    let value ← s.read srcWidth ins.in1
    s.write width ins.out (value.setWidth width.bits)
  | .movsx => do
    let width ← ins.out.width
    let srcWidth ← ins.in1.width
    let value ← s.read srcWidth ins.in1
    s.write width ins.out (value.signExtend width.bits)
  | .lea =>
    match ins.out, ins.in1 with
    | .r32 dst, .m64 mem => (s.address mem).map fun a => s.setPart .u32 dst (a.setWidth 32)
    | .r64 dst, .m64 mem => (s.address mem).map fun a => s.setPart .u64 dst a
    | _, _ => none
  | .set => do
    let cond ← ins.condition
    s.write .u8 ins.out ((BitVec.ofBool (cond.holds s.flags)).setWidth 8)
  | .cmov => do
    let cond ← ins.condition
    let width ← ins.out.width
    let old ← s.read width ins.out
    let value ← s.read width ins.in1
    s.write width ins.out (if cond.holds s.flags then value else old)
  | .add | .adc | .sub | .sbb | .cmp | .and | .or | .xor | .test => do
    let width ← ins.in1.width
    let a ← s.read width ins.in1
    let b ← s.read width ins.in2
    let (res, flags) ← ins.op.binary a b s.flags
    let s := { s with flags := flags }
    if ins.out = .void then some s else s.write width ins.out res
  | .inc | .dec | .neg | .not => do
    let width ← ins.in1.width
    let a ← s.read width ins.in1
    let (res, flags) ← ins.op.unary a s.flags
    let s := { s with flags := flags }
    s.write width ins.out res
  | _ => s.exec ins

def performAll (s : HostState) (instructions : List Instruction) : Option HostState := instructions.foldlM perform s

end HostState

end Ir

/-! ## The compiler -/

namespace Compiler

def get8 : Reg → R8
  | .GPR0 => .r8b
  | .GPR1 => .r9b
  | .MEM_ADDR => .r10b
  | .REG_BASE => .sil
  | .MMX_BASE => .r11b
  | .XMM_BASE => .dl
  | .MEM_BASE => .cl

def get16 : Reg → R16
  | .GPR0 => .r8w
  | .GPR1 => .r9w
  | .MEM_ADDR => .r10w
  | .REG_BASE => .si
  | .MMX_BASE => .r11w
  | .XMM_BASE => .dx
  | .MEM_BASE => .cx

/-- `get8`, `get16`, `get32` and `get` -/
def part : (width : OperandWidth) → Reg → width.Reg
  | .u8, reg => get8 reg
  | .u16, reg => get16 reg
  | .u32, reg => get32 reg
  | .u64, reg => get reg

/-- `registerOffset` of the widths: the second bytes of four registers follow their first ones. -/
def partOffset : (width : OperandWidth) → width.Reg → Int32
  | .u8, reg => registerOffset reg.containingRegister + Int32.ofNat reg.offset
  | .u16, reg => registerOffset reg.containingRegister
  | .u32, reg => registerOffset reg.containingRegister
  | .u64, reg => registerOffset reg

def regOperand (width : OperandWidth) (reg : Reg) : Operand := width.regOperand (part width reg)

/-- `readReg8` and its siblings -/
def readReg (width : OperandWidth) (dst : Reg) (src : width.Reg) : Instruction :=
  { op := .mov, out := regOperand width dst,
    in1 := width.memOperand ⟨.cs, make64 (get .REG_BASE) (partOffset width src)⟩ }

/-- `writeReg8` and its siblings. That of 32 bits writes all of the register, so that its upper half is zero. -/
def writeReg : (width : OperandWidth) → width.Reg → Reg → Instruction
  | .u32, dst, src => writeReg32 dst src
  | width, dst, src =>
    { op := .mov, out := width.memOperand ⟨.cs, make64 (get .REG_BASE) (partOffset width dst)⟩, in1 := regOperand width src }

/-- `readMem8` and its siblings -/
def readMem (width : OperandWidth) (dst : Reg) (address : MemAddr) : Instruction :=
  { op := .mov, out := regOperand width dst, in1 := width.memOperand (guest address) }

/-- `writeMem8` and its siblings -/
def writeMem (width : OperandWidth) (address : MemAddr) (src : Reg) : Instruction :=
  { op := .mov, out := width.memOperand (guest address), in1 := regOperand width src }

/-- `loadImm8`, `loadImm16` and `loadImm64`, of the lowest bits of an immediate. -/
def loadImm : OperandWidth → Reg → BitVec 64 → Instruction
  | .u8, dst, imm => { op := .mov, out := .r8 (get8 dst), in1 := .u8 ⟨imm.setWidth 8⟩ }
  | .u16, dst, imm => { op := .mov, out := .r16 (get16 dst), in1 := .u16 ⟨imm.setWidth 16⟩ }
  | .u32, dst, imm => { op := .mov, out := .r32 (get32 dst), in1 := .u32 ⟨imm.setWidth 32⟩ }
  | .u64, dst, imm => { op := .mov, out := .r64 (get dst), in1 := .u64 ⟨imm⟩ }

/-- `writeReg64` of an immediate -/
def writeReg64Imm (dst : R64) (imm : BitVec 64) (tmp : Reg) : List Instruction :=
  if imm = (imm.setWidth 32).signExtend 64 then
    [{ op := .mov, out := .m64 ⟨.cs, make64 (get .REG_BASE) (registerOffset dst)⟩, in1 := .u32 ⟨imm.setWidth 32⟩ }]
  else [loadImm .u64 tmp imm, writeReg64 dst tmp]

def tryAdvanceInstructionPointer (nextAddress : BitVec 64) : List Instruction := writeReg64Imm .rip nextAddress .GPR0

/-! ### What is done between the reads and the write -/

/-- An operation on two registers, `add8` and its siblings. -/
def computing (op : Op) (width : OperandWidth) (dst src : Reg) : Instruction :=
  { op := op, out := regOperand width dst, in1 := regOperand width dst, in2 := regOperand width src }

def computingImm (op : Op) (width : OperandWidth) (dst : Reg) (imm : BitVec 64) : Instruction :=
  { op := op, out := regOperand width dst, in1 := regOperand width dst, in2 := width.immOperand imm }

/-- A comparison, `cmp8` and its siblings. -/
def comparing (op : Op) (width : OperandWidth) (lhs rhs : Reg) : Instruction :=
  { op := op, in1 := regOperand width lhs, in2 := regOperand width rhs }

def comparingImm (op : Op) (width : OperandWidth) (lhs : Reg) (imm : BitVec 64) : Instruction :=
  { op := op, in1 := regOperand width lhs, in2 := width.immOperand imm }

/-- An operation on one register. -/
def changing (op : Op) (width : OperandWidth) (dst : Reg) : Instruction :=
  { op := op, out := regOperand width dst, in1 := regOperand width dst }

/-! ### The families -/

/-- `forRM8Imm` and its siblings -/
def forRMImm (width : OperandWidth) (dst : RM width) (imm : BitVec 64) (func : Reg → BitVec 64 → Instruction)
    (writeResultBack : Bool) : Option (List Instruction) :=
  match dst with
  | .reg dst =>
    some ([readReg width .GPR0 dst, func .GPR0 imm] ++ if writeResultBack then [writeReg width dst .GPR0] else [])
  | .mem mem =>
    if mem.encoding.index = .rip then none
    else
      let (code, addr) := getAddress .MEM_ADDR .GPR0 mem
      some (code ++ [readMem width .GPR0 addr, func .GPR0 imm] ++
        if writeResultBack then [writeMem width addr .GPR0] else [])

/-- `forRM8RM8` and its siblings; that of 64 bits does not look at the index. -/
def forRMRM (width : OperandWidth) (dst src : RM width) (func : Reg → Reg → Instruction) (writeResultBack : Bool) :
    Option (List Instruction) :=
  match dst, src with
  | .reg dst, .reg src =>
    some ([readReg width .GPR0 dst, readReg width .GPR1 src, func .GPR0 .GPR1] ++
      if writeResultBack then [writeReg width dst .GPR0] else [])
  | .mem mem, .reg src =>
    if width ≠ .u64 ∧ mem.encoding.index = .rip then none
    else
      let (code, addr) := getAddress .MEM_ADDR .GPR0 mem
      some (code ++ [readMem width .GPR0 addr, readReg width .GPR1 src, func .GPR0 .GPR1] ++
        if writeResultBack then [writeMem width addr .GPR0] else [])
  | .reg dst, .mem mem =>
    if width ≠ .u64 ∧ mem.encoding.index = .rip then none
    else
      let (code, addr) := getAddress .MEM_ADDR .GPR0 mem
      some (code ++ [readMem width .GPR1 addr, readReg width .GPR0 dst, func .GPR0 .GPR1] ++
        if writeResultBack then [writeReg width dst .GPR0] else [])
  | .mem _, .mem _ => none

/-- What `not`, `inc` and `dec` are translated to. -/
def forRM (width : OperandWidth) (dst : RM width) (func : Reg → Instruction) : Option (List Instruction) :=
  match dst with
  | .reg dst => some [readReg width .GPR0 dst, func .GPR0, writeReg width dst .GPR0]
  | .mem mem =>
    if mem.segment = .fs then none
    else if mem.encoding.index = .rip then none
    else
      let (code, addr) := getAddress .MEM_ADDR .GPR0 mem
      some (code ++ [readMem width .GPR0 addr, func .GPR0, writeMem width addr .GPR0])

/-- What `movzx` and `movsx` are translated to. -/
def extend (op : Op) (width srcWidth : OperandWidth) (dst : width.Reg) (src : RM srcWidth) : Option (List Instruction) :=
  let extending : Instruction := { op := op, out := regOperand width .GPR0, in1 := regOperand srcWidth .GPR0 }
  match src with
  | .reg src => some [readReg srcWidth .GPR0 src, extending, writeReg width dst .GPR0]
  | .mem mem =>
    if mem.segment = .fs then none
    else if mem.encoding.index = .rip then none
    else
      let (code, addr) := getAddress .MEM_ADDR .GPR0 mem
      some (code ++ [readMem srcWidth .GPR0 addr, extending, writeReg width dst .GPR0])

def forRM8Imm := forRMImm .u8
def forRM16Imm := forRMImm .u16
def forRM32Imm := forRMImm .u32
def forRM64Imm := forRMImm .u64
def forRM8RM8 := forRMRM .u8
def forRM16RM16 := forRMRM .u16

/-! ### Moves -/

def movRImm (width immWidth : OperandWidth) (dst : width.Reg) (imm : BitVec 64) : Option (List Instruction) :=
  some [loadImm immWidth .GPR0 imm, writeReg width dst .GPR0]

def movMImm (width immWidth : OperandWidth) (dst : Mem) (imm : BitVec 64) : Option (List Instruction) :=
  let (code, addr) := getAddress .MEM_ADDR .GPR1 dst
  some (loadImm immWidth .GPR0 imm :: code ++ [writeMem width addr .GPR0])

def movRR (width : OperandWidth) (dst src : width.Reg) : Option (List Instruction) :=
  some [readReg width .GPR0 src, writeReg width dst .GPR0]

def movRM (width : OperandWidth) (dst : width.Reg) (src : Mem) : Option (List Instruction) :=
  let (code, addr) := getAddress .MEM_ADDR .GPR1 src
  some (code ++ [readMem width .GPR0 addr, writeReg width dst .GPR0])

def movMR (width : OperandWidth) (dst : Mem) (src : width.Reg) : Option (List Instruction) :=
  let (code, addr) := getAddress .MEM_ADDR .GPR1 dst
  some (code ++ [readReg width .GPR0 src, writeMem width addr .GPR0])

def tryCompileMovR8Imm (dst : R8) (imm : BitVec 64) : Option (List Instruction) := movRImm .u8 .u8 dst imm
def tryCompileMovR16Imm (dst : R16) (imm : BitVec 64) : Option (List Instruction) := movRImm .u16 .u16 dst imm
def tryCompileMovR32Imm (dst : R32) (imm : BitVec 64) : Option (List Instruction) :=
  movRImm .u32 .u64 dst ((imm.setWidth 32).setWidth 64)
def tryCompileMovR64Imm (dst : R64) (imm : BitVec 64) : Option (List Instruction) := movRImm .u64 .u64 dst imm
def tryCompileMovM8Imm (dst : Mem) (imm : BitVec 64) : Option (List Instruction) :=
  if dst.segment = .fs then none else movMImm .u8 .u8 dst imm
def tryCompileMovM16Imm (dst : Mem) (imm : BitVec 64) : Option (List Instruction) :=
  movMImm .u16 .u64 dst ((imm.setWidth 16).setWidth 64)
def tryCompileMovM32Imm (dst : Mem) (imm : BitVec 64) : Option (List Instruction) :=
  movMImm .u32 .u64 dst ((imm.setWidth 32).signExtend 64)
def tryCompileMovM64Imm (dst : Mem) (imm : BitVec 64) : Option (List Instruction) :=
  movMImm .u64 .u64 dst ((imm.setWidth 32).signExtend 64)
def tryCompileMovR8R8 (dst src : R8) : Option (List Instruction) := movRR .u8 dst src
def tryCompileMovR16R16 (dst src : R16) : Option (List Instruction) := movRR .u16 dst src
def tryCompileMovR32R32 (dst src : R32) : Option (List Instruction) := movRR .u32 dst src

/-- Writes to `rsp` that are not of `rbp` are left to the interpreter. -/
def tryCompileMovR64R64 (dst src : R64) : Option (List Instruction) :=
  if dst = .rsp ∧ src ≠ .rbp then none else movRR .u64 dst src

def tryCompileMovR8M8 (dst : R8) (src : Mem) : Option (List Instruction) := movRM .u8 dst src
def tryCompileMovR16M16 (dst : R16) (src : Mem) : Option (List Instruction) := movRM .u16 dst src
def tryCompileMovR32M32 (dst : R32) (src : Mem) : Option (List Instruction) := movRM .u32 dst src
def tryCompileMovR64M64 (dst : R64) (src : Mem) : Option (List Instruction) := movRM .u64 dst src

/-- The register is read before the address. -/
def tryCompileMovM8R8 (dst : Mem) (src : R8) : Option (List Instruction) :=
  if dst.segment = .fs then none
  else
    let (code, addr) := getAddress .MEM_ADDR .GPR1 dst
    some (readReg .u8 .GPR0 src :: code ++ [writeMem .u8 addr .GPR0])

def tryCompileMovM16R16 (dst : Mem) (src : R16) : Option (List Instruction) := movMR .u16 dst src
def tryCompileMovM32R32 (dst : Mem) (src : R32) : Option (List Instruction) := movMR .u32 dst src
def tryCompileMovM64R64 (dst : Mem) (src : R64) : Option (List Instruction) := movMR .u64 dst src

/-! ### Arithmetic -/

def tryCompileAddRM8RM8 (dst src : RM .u8) : Option (List Instruction) := forRM8RM8 dst src (computing .add .u8) true
def tryCompileAddRM8Imm (dst : RM .u8) (imm : BitVec 64) : Option (List Instruction) :=
  forRM8Imm dst imm (computingImm .add .u8) true
def tryCompileAddRM16RM16 (dst src : RM .u16) : Option (List Instruction) := forRM16RM16 dst src (computing .add .u16) true
def tryCompileAddRM16Imm (dst : RM .u16) (imm : BitVec 64) : Option (List Instruction) :=
  forRM16Imm dst imm (computingImm .add .u16) true
def tryCompileAddRM32RM32 (dst src : RM .u32) : Option (List Instruction) := forRM32RM32 dst src (computing .add .u32) true
def tryCompileAddRM32Imm (dst : RM .u32) (imm : BitVec 64) : Option (List Instruction) :=
  forRM32Imm dst imm (computingImm .add .u32) true
def tryCompileAddRM64RM64 (dst src : RM .u64) : Option (List Instruction) := forRM64RM64 dst src (computing .add .u64) true
def tryCompileAddRM64Imm (dst : RM .u64) (imm : BitVec 64) : Option (List Instruction) :=
  forRM64Imm dst imm (computingImm .add .u64) true
def tryCompileAdcRM32RM32 (dst src : RM .u32) : Option (List Instruction) := forRM32RM32 dst src (computing .adc .u32) true
def tryCompileAdcRM32Imm (dst : RM .u32) (imm : BitVec 64) : Option (List Instruction) :=
  forRM32Imm dst imm (computingImm .adc .u32) true
def tryCompileSubRM8RM8 (dst src : RM .u8) : Option (List Instruction) := forRM8RM8 dst src (computing .sub .u8) true
def tryCompileSubRM8Imm (dst : RM .u8) (imm : BitVec 64) : Option (List Instruction) :=
  forRM8Imm dst imm (computingImm .sub .u8) true
def tryCompileSubRM16RM16 (dst src : RM .u16) : Option (List Instruction) := forRM16RM16 dst src (computing .sub .u16) true
def tryCompileSubRM16Imm (dst : RM .u16) (imm : BitVec 64) : Option (List Instruction) :=
  forRM16Imm dst imm (computingImm .sub .u16) true
def tryCompileSubRM32RM32 (dst src : RM .u32) : Option (List Instruction) := forRM32RM32 dst src (computing .sub .u32) true
def tryCompileSubRM32Imm (dst : RM .u32) (imm : BitVec 64) : Option (List Instruction) :=
  forRM32Imm dst imm (computingImm .sub .u32) true
def tryCompileSubRM64RM64 (dst src : RM .u64) : Option (List Instruction) := forRM64RM64 dst src (computing .sub .u64) true
def tryCompileSubRM64Imm (dst : RM .u64) (imm : BitVec 64) : Option (List Instruction) :=
  forRM64Imm dst imm (computingImm .sub .u64) true
def tryCompileSbbRM8RM8 (dst src : RM .u8) : Option (List Instruction) := forRM8RM8 dst src (computing .sbb .u8) true
def tryCompileSbbRM8Imm (dst : RM .u8) (imm : BitVec 64) : Option (List Instruction) :=
  forRM8Imm dst imm (computingImm .sbb .u8) true
def tryCompileSbbRM32RM32 (dst src : RM .u32) : Option (List Instruction) := forRM32RM32 dst src (computing .sbb .u32) true
def tryCompileSbbRM32Imm (dst : RM .u32) (imm : BitVec 64) : Option (List Instruction) :=
  forRM32Imm dst imm (computingImm .sbb .u32) true
def tryCompileSbbRM64RM64 (dst src : RM .u64) : Option (List Instruction) := forRM64RM64 dst src (computing .sbb .u64) true
def tryCompileSbbRM64Imm (dst : RM .u64) (imm : BitVec 64) : Option (List Instruction) :=
  forRM64Imm dst imm (computingImm .sbb .u64) true
def tryCompileCmpRM8RM8 (lhs rhs : RM .u8) : Option (List Instruction) := forRM8RM8 lhs rhs (comparing .cmp .u8) false
def tryCompileCmpRM8Imm (lhs : RM .u8) (imm : BitVec 64) : Option (List Instruction) :=
  forRM8Imm lhs imm (comparingImm .cmp .u8) false
def tryCompileCmpRM16RM16 (lhs rhs : RM .u16) : Option (List Instruction) := forRM16RM16 lhs rhs (comparing .cmp .u16) false
def tryCompileCmpRM16Imm (lhs : RM .u16) (imm : BitVec 64) : Option (List Instruction) :=
  forRM16Imm lhs imm (comparingImm .cmp .u16) false
def tryCompileCmpRM32RM32 (lhs rhs : RM .u32) : Option (List Instruction) := forRM32RM32 lhs rhs (comparing .cmp .u32) false
def tryCompileCmpRM32Imm (lhs : RM .u32) (imm : BitVec 64) : Option (List Instruction) :=
  forRM32Imm lhs imm (comparingImm .cmp .u32) false
def tryCompileCmpRM64RM64 (lhs rhs : RM .u64) : Option (List Instruction) := forRM64RM64 lhs rhs (comparing .cmp .u64) false
def tryCompileCmpRM64Imm (lhs : RM .u64) (imm : BitVec 64) : Option (List Instruction) :=
  forRM64Imm lhs imm (comparingImm .cmp .u64) false
def tryCompileAndRM8RM8 (dst src : RM .u8) : Option (List Instruction) := forRM8RM8 dst src (computing .and .u8) true
def tryCompileAndRM8Imm (dst : RM .u8) (imm : BitVec 64) : Option (List Instruction) :=
  forRM8Imm dst imm (computingImm .and .u8) true
def tryCompileAndRM16RM16 (dst src : RM .u16) : Option (List Instruction) := forRM16RM16 dst src (computing .and .u16) true
def tryCompileAndRM16Imm (dst : RM .u16) (imm : BitVec 64) : Option (List Instruction) :=
  forRM16Imm dst imm (computingImm .and .u16) true
def tryCompileAndRM32RM32 (dst src : RM .u32) : Option (List Instruction) := forRM32RM32 dst src (computing .and .u32) true
def tryCompileAndRM32Imm (dst : RM .u32) (imm : BitVec 64) : Option (List Instruction) :=
  forRM32Imm dst imm (computingImm .and .u32) true
def tryCompileAndRM64RM64 (dst src : RM .u64) : Option (List Instruction) := forRM64RM64 dst src (computing .and .u64) true
def tryCompileAndRM64Imm (dst : RM .u64) (imm : BitVec 64) : Option (List Instruction) :=
  forRM64Imm dst imm (computingImm .and .u64) true
def tryCompileOrRM8RM8 (dst src : RM .u8) : Option (List Instruction) := forRM8RM8 dst src (computing .or .u8) true
def tryCompileOrRM8Imm (dst : RM .u8) (imm : BitVec 64) : Option (List Instruction) := forRM8Imm dst imm (computingImm .or .u8) true
def tryCompileOrRM16RM16 (dst src : RM .u16) : Option (List Instruction) := forRM16RM16 dst src (computing .or .u16) true
def tryCompileOrRM16Imm (dst : RM .u16) (imm : BitVec 64) : Option (List Instruction) :=
  forRM16Imm dst imm (computingImm .or .u16) true
def tryCompileOrRM32RM32 (dst src : RM .u32) : Option (List Instruction) := forRM32RM32 dst src (computing .or .u32) true
def tryCompileOrRM32Imm (dst : RM .u32) (imm : BitVec 64) : Option (List Instruction) :=
  forRM32Imm dst imm (computingImm .or .u32) true
def tryCompileOrRM64RM64 (dst src : RM .u64) : Option (List Instruction) := forRM64RM64 dst src (computing .or .u64) true
def tryCompileOrRM64Imm (dst : RM .u64) (imm : BitVec 64) : Option (List Instruction) :=
  forRM64Imm dst imm (computingImm .or .u64) true
def tryCompileXorRM8RM8 (dst src : RM .u8) : Option (List Instruction) := forRM8RM8 dst src (computing .xor .u8) true
def tryCompileXorRM8Imm (dst : RM .u8) (imm : BitVec 64) : Option (List Instruction) :=
  forRM8Imm dst imm (computingImm .xor .u8) true
def tryCompileXorRM16RM16 (dst src : RM .u16) : Option (List Instruction) := forRM16RM16 dst src (computing .xor .u16) true
def tryCompileXorRM16Imm (dst : RM .u16) (imm : BitVec 64) : Option (List Instruction) :=
  forRM16Imm dst imm (computingImm .xor .u16) true
def tryCompileXorRM32RM32 (dst src : RM .u32) : Option (List Instruction) := forRM32RM32 dst src (computing .xor .u32) true
def tryCompileXorRM32Imm (dst : RM .u32) (imm : BitVec 64) : Option (List Instruction) :=
  forRM32Imm dst imm (computingImm .xor .u32) true
def tryCompileXorRM64RM64 (dst src : RM .u64) : Option (List Instruction) := forRM64RM64 dst src (computing .xor .u64) true
def tryCompileXorRM64Imm (dst : RM .u64) (imm : BitVec 64) : Option (List Instruction) :=
  forRM64Imm dst imm (computingImm .xor .u64) true
def tryCompileTestRM8R8 (lhs : RM .u8) (rhs : R8) : Option (List Instruction) :=
  forRM8RM8 lhs (.reg rhs) (comparing .test .u8) false
def tryCompileTestRM8Imm (lhs : RM .u8) (imm : BitVec 64) : Option (List Instruction) :=
  forRM8Imm lhs imm (comparingImm .test .u8) false
def tryCompileTestRM16R16 (lhs : RM .u16) (rhs : R16) : Option (List Instruction) :=
  forRM16RM16 lhs (.reg rhs) (comparing .test .u16) false
def tryCompileTestRM16Imm (lhs : RM .u16) (imm : BitVec 64) : Option (List Instruction) :=
  forRM16Imm lhs imm (comparingImm .test .u16) false
def tryCompileTestRM32R32 (lhs : RM .u32) (rhs : R32) : Option (List Instruction) :=
  forRM32RM32 lhs (.reg rhs) (comparing .test .u32) false
def tryCompileTestRM32Imm (lhs : RM .u32) (imm : BitVec 64) : Option (List Instruction) :=
  forRM32Imm lhs imm (comparingImm .test .u32) false
def tryCompileTestRM64R64 (lhs : RM .u64) (rhs : R64) : Option (List Instruction) :=
  forRM64RM64 lhs (.reg rhs) (comparing .test .u64) false
def tryCompileTestRM64Imm (lhs : RM .u64) (imm : BitVec 64) : Option (List Instruction) :=
  forRM64Imm lhs imm (comparingImm .test .u64) false
def tryCompileNegRM8 (dst : RM .u8) : Option (List Instruction) := forRM8Imm dst 0 (fun dst _ => changing .neg .u8 dst) true
def tryCompileNegRM16 (dst : RM .u16) : Option (List Instruction) := forRM16Imm dst 0 (fun dst _ => changing .neg .u16 dst) true
def tryCompileNegRM32 (dst : RM .u32) : Option (List Instruction) := forRM32Imm dst 0 (fun dst _ => changing .neg .u32 dst) true
def tryCompileNegRM64 (dst : RM .u64) : Option (List Instruction) := forRM64Imm dst 0 (fun dst _ => changing .neg .u64 dst) true
def tryCompileNotRM32 (dst : RM .u32) : Option (List Instruction) := forRM .u32 dst (changing .not .u32)
def tryCompileNotRM64 (dst : RM .u64) : Option (List Instruction) := forRM .u64 dst (changing .not .u64)
def tryCompileIncRM32 (dst : RM .u32) : Option (List Instruction) := forRM .u32 dst (changing .inc .u32)
def tryCompileIncRM64 (dst : RM .u64) : Option (List Instruction) := forRM .u64 dst (changing .inc .u64)
def tryCompileDecRM8 (dst : RM .u8) : Option (List Instruction) := forRM .u8 dst (changing .dec .u8)
def tryCompileDecRM16 (dst : RM .u16) : Option (List Instruction) := forRM .u16 dst (changing .dec .u16)
def tryCompileDecRM32 (dst : RM .u32) : Option (List Instruction) := forRM .u32 dst (changing .dec .u32)
def tryCompileDecRM64 (dst : RM .u64) : Option (List Instruction) := forRM .u64 dst (changing .dec .u64)
def tryCompileMovzxR16RM8 (dst : R16) (src : RM .u8) : Option (List Instruction) := extend .movzx .u16 .u8 dst src
def tryCompileMovzxR32RM8 (dst : R32) (src : RM .u8) : Option (List Instruction) := extend .movzx .u32 .u8 dst src
def tryCompileMovzxR32RM16 (dst : R32) (src : RM .u16) : Option (List Instruction) := extend .movzx .u32 .u16 dst src
def tryCompileMovzxR64RM8 (dst : R64) (src : RM .u8) : Option (List Instruction) := extend .movzx .u64 .u8 dst src
def tryCompileMovzxR64RM16 (dst : R64) (src : RM .u16) : Option (List Instruction) := extend .movzx .u64 .u16 dst src
def tryCompileMovsxR16RM8 (dst : R16) (src : RM .u8) : Option (List Instruction) := extend .movsx .u16 .u8 dst src
def tryCompileMovsxR32RM8 (dst : R32) (src : RM .u8) : Option (List Instruction) := extend .movsx .u32 .u8 dst src
def tryCompileMovsxR32RM16 (dst : R32) (src : RM .u16) : Option (List Instruction) := extend .movsx .u32 .u16 dst src
def tryCompileMovsxR64RM8 (dst : R64) (src : RM .u8) : Option (List Instruction) := extend .movsx .u64 .u8 dst src
def tryCompileMovsxR64RM16 (dst : R64) (src : RM .u16) : Option (List Instruction) := extend .movsx .u64 .u16 dst src
def tryCompileMovsxR64RM32 (dst : R64) (src : RM .u32) : Option (List Instruction) := extend .movsx .u64 .u32 dst src

/-! ### Conditions and addresses -/

def tryCompileSetRM8 (cond : Cond) (dst : RM .u8) : Option (List Instruction) :=
  forRM8Imm dst 0 (fun dst _ => { op := .set, out := .r8 (get8 dst), in1 := .r8 (get8 dst), condition := some cond }) true

def tryCompileCmovR32RM32 (cond : Cond) (dst : R32) (src : RM .u32) : Option (List Instruction) :=
  forRM32RM32 (.reg dst) src (fun dst src => {
    op := .cmov, out := .r32 (get32 dst), in1 := .r32 (get32 src), condition := some cond,
    impactedRegisters64 := [(get32 dst).containingRegister] }) true

def tryCompileCmovR64RM64 (cond : Cond) (dst : R64) (src : RM .u64) : Option (List Instruction) :=
  forRM64RM64 (.reg dst) src (fun dst src => {
    op := .cmov, out := .r64 (get dst), in1 := .r64 (get src), condition := some cond, impactedRegisters64 := [get dst] }) true

/-- The registers of an address and the operand of the `lea` behind them. -/
def leaOperand (address : Encoding64) : List Instruction × Mem :=
  if address.index = .zero then ([readReg64 .GPR0 address.base], ⟨.cs, make64 (get .GPR0) address.displacement⟩)
  else ([readReg64 .GPR0 address.base, readReg64 .GPR1 address.index],
    ⟨.cs, make64Index (get .GPR0) (get .GPR1) address.scale address.displacement⟩)

def tryCompileLeaR32Enc64 (dst : R32) (address : Encoding64) : Option (List Instruction) :=
  let (code, mem) := leaOperand address
  some (code ++ [{ op := .lea, out := .r32 (get32 .GPR0), in1 := .m64 mem }, writeReg32 dst .GPR0])

def tryCompileLeaR64Enc64 (dst : R64) (address : Encoding64) : Option (List Instruction) :=
  let (code, mem) := leaOperand address
  some (code ++ [{ op := .lea, out := .r64 (get .GPR0), in1 := .m64 mem }, writeReg64 dst .GPR0])

/-! ### The stack -/

/-- `lea` of a register and a displacement -/
def leaOffset (dst : Reg) (offset : Int32) : Instruction :=
  { op := .lea, out := .r64 (get dst), in1 := .m64 ⟨.cs, make64 (get dst) offset⟩ }

/-- Moves `rsp` down and stores `GPR0` there. -/
def pushGpr0 : List Instruction :=
  [readReg64 .GPR1 .rsp, leaOffset .GPR1 (-8), writeReg64 .rsp .GPR1, writeMem64 ⟨.GPR1, 0⟩ .GPR0]

def tryCompilePushImm (imm : BitVec 64) : Option (List Instruction) :=
  some (loadImm .u64 .GPR0 ((imm.setWidth 32).signExtend 64) :: pushGpr0)

def tryCompilePushRM64 (src : RM .u64) : Option (List Instruction) :=
  match src with
  | .reg src => some (readReg64 .GPR0 src :: pushGpr0)
  | .mem mem =>
    if mem.segment = .fs then none
    else if mem.encoding.index = .rip then none
    else
      let (code, addr) := getAddress .MEM_ADDR .GPR0 mem
      some (code ++ readMem64 .GPR0 addr :: pushGpr0)

def tryCompilePopR64 (dst : R64) : Option (List Instruction) :=
  some [readReg64 .GPR1 .rsp, readMem64 .GPR0 ⟨.GPR1, 0⟩, leaOffset .GPR1 8, writeReg64 .rsp .GPR1, writeReg64 dst .GPR0]

def tryCompileLeave : Option (List Instruction) :=
  (tryCompilePopR64 .rbp).map fun code => [readReg64 .GPR0 .rbp, writeReg64 .rsp .GPR0] ++ code

def tryCompileNop : Option (List Instruction) := some []

end Compiler

/-! ## Instructions of the guest -/

/-- The instructions studied here, under the names they have for the interpreter and for the compiler. -/
inductive Insn where
  | movR8Imm (dst : R8) (imm : BitVec 64)
  | movM8Imm (dst : Mem) (imm : BitVec 64)
  | movR8R8 (dst src : R8)
  | movR8M8 (dst : R8) (src : Mem)
  | movM8R8 (dst : Mem) (src : R8)
  | movR16Imm (dst : R16) (imm : BitVec 64)
  | movM16Imm (dst : Mem) (imm : BitVec 64)
  | movR16R16 (dst src : R16)
  | movR16M16 (dst : R16) (src : Mem)
  | movM16R16 (dst : Mem) (src : R16)
  | movR32Imm (dst : R32) (imm : BitVec 64)
  | movM32Imm (dst : Mem) (imm : BitVec 64)
  | movR32R32 (dst src : R32)
  | movR32M32 (dst : R32) (src : Mem)
  | movM32R32 (dst : Mem) (src : R32)
  | movR64Imm (dst : R64) (imm : BitVec 64)
  | movM64Imm (dst : Mem) (imm : BitVec 64)
  | movR64R64 (dst src : R64)
  | movR64M64 (dst : R64) (src : Mem)
  | movM64R64 (dst : Mem) (src : R64)
  | movzxR16RM8 (dst : R16) (src : RM .u8)
  | movzxR32RM8 (dst : R32) (src : RM .u8)
  | movzxR32RM16 (dst : R32) (src : RM .u16)
  | movzxR64RM8 (dst : R64) (src : RM .u8)
  | movzxR64RM16 (dst : R64) (src : RM .u16)
  | movsxR16RM8 (dst : R16) (src : RM .u8)
  | movsxR32RM8 (dst : R32) (src : RM .u8)
  | movsxR32RM16 (dst : R32) (src : RM .u16)
  | movsxR64RM8 (dst : R64) (src : RM .u8)
  | movsxR64RM16 (dst : R64) (src : RM .u16)
  | movsxR64RM32 (dst : R64) (src : RM .u32)
  | addRM8RM8 (dst src : RM .u8)
  | addRM8Imm (dst : RM .u8) (imm : BitVec 64)
  | addRM16RM16 (dst src : RM .u16)
  | addRM16Imm (dst : RM .u16) (imm : BitVec 64)
  | addRM32RM32 (dst src : RM .u32)
  | addRM32Imm (dst : RM .u32) (imm : BitVec 64)
  | addRM64RM64 (dst src : RM .u64)
  | addRM64Imm (dst : RM .u64) (imm : BitVec 64)
  | adcRM32RM32 (dst src : RM .u32)
  | adcRM32Imm (dst : RM .u32) (imm : BitVec 64)
  | subRM8RM8 (dst src : RM .u8)
  | subRM8Imm (dst : RM .u8) (imm : BitVec 64)
  | subRM16RM16 (dst src : RM .u16)
  | subRM16Imm (dst : RM .u16) (imm : BitVec 64)
  | subRM32RM32 (dst src : RM .u32)
  | subRM32Imm (dst : RM .u32) (imm : BitVec 64)
  | subRM64RM64 (dst src : RM .u64)
  | subRM64Imm (dst : RM .u64) (imm : BitVec 64)
  | sbbRM8RM8 (dst src : RM .u8)
  | sbbRM8Imm (dst : RM .u8) (imm : BitVec 64)
  | sbbRM32RM32 (dst src : RM .u32)
  | sbbRM32Imm (dst : RM .u32) (imm : BitVec 64)
  | sbbRM64RM64 (dst src : RM .u64)
  | sbbRM64Imm (dst : RM .u64) (imm : BitVec 64)
  | cmpRM8RM8 (dst src : RM .u8)
  | cmpRM8Imm (dst : RM .u8) (imm : BitVec 64)
  | cmpRM16RM16 (dst src : RM .u16)
  | cmpRM16Imm (dst : RM .u16) (imm : BitVec 64)
  | cmpRM32RM32 (dst src : RM .u32)
  | cmpRM32Imm (dst : RM .u32) (imm : BitVec 64)
  | cmpRM64RM64 (dst src : RM .u64)
  | cmpRM64Imm (dst : RM .u64) (imm : BitVec 64)
  | andRM8RM8 (dst src : RM .u8)
  | andRM8Imm (dst : RM .u8) (imm : BitVec 64)
  | andRM16RM16 (dst src : RM .u16)
  | andRM16Imm (dst : RM .u16) (imm : BitVec 64)
  | andRM32RM32 (dst src : RM .u32)
  | andRM32Imm (dst : RM .u32) (imm : BitVec 64)
  | andRM64RM64 (dst src : RM .u64)
  | andRM64Imm (dst : RM .u64) (imm : BitVec 64)
  | orRM8RM8 (dst src : RM .u8)
  | orRM8Imm (dst : RM .u8) (imm : BitVec 64)
  | orRM16RM16 (dst src : RM .u16)
  | orRM16Imm (dst : RM .u16) (imm : BitVec 64)
  | orRM32RM32 (dst src : RM .u32)
  | orRM32Imm (dst : RM .u32) (imm : BitVec 64)
  | orRM64RM64 (dst src : RM .u64)
  | orRM64Imm (dst : RM .u64) (imm : BitVec 64)
  | xorRM8RM8 (dst src : RM .u8)
  | xorRM8Imm (dst : RM .u8) (imm : BitVec 64)
  | xorRM16RM16 (dst src : RM .u16)
  | xorRM16Imm (dst : RM .u16) (imm : BitVec 64)
  | xorRM32RM32 (dst src : RM .u32)
  | xorRM32Imm (dst : RM .u32) (imm : BitVec 64)
  | xorRM64RM64 (dst src : RM .u64)
  | xorRM64Imm (dst : RM .u64) (imm : BitVec 64)
  | testRM8R8 (lhs : RM .u8) (rhs : R8)
  | testRM8Imm (lhs : RM .u8) (imm : BitVec 64)
  | testRM16R16 (lhs : RM .u16) (rhs : R16)
  | testRM16Imm (lhs : RM .u16) (imm : BitVec 64)
  | testRM32R32 (lhs : RM .u32) (rhs : R32)
  | testRM32Imm (lhs : RM .u32) (imm : BitVec 64)
  | testRM64R64 (lhs : RM .u64) (rhs : R64)
  | testRM64Imm (lhs : RM .u64) (imm : BitVec 64)
  | notRM32 (dst : RM .u32)
  | notRM64 (dst : RM .u64)
  | negRM8 (dst : RM .u8)
  | negRM16 (dst : RM .u16)
  | negRM32 (dst : RM .u32)
  | negRM64 (dst : RM .u64)
  | incRM32 (dst : RM .u32)
  | incRM64 (dst : RM .u64)
  | decRM8 (dst : RM .u8)
  | decRM16 (dst : RM .u16)
  | decRM32 (dst : RM .u32)
  | decRM64 (dst : RM .u64)
  | leaR32Encoding64 (dst : R32) (src : Encoding64)
  | leaR64Encoding64 (dst : R64) (src : Encoding64)
  | setRM8 (cond : Cond) (dst : RM .u8)
  | cmovR32RM32 (cond : Cond) (dst : R32) (src : RM .u32)
  | cmovR64RM64 (cond : Cond) (dst : R64) (src : RM .u64)
  | pushImm (imm : BitVec 64)
  | pushRM64 (src : RM .u64)
  | popR64 (dst : R64)
  | leave
  | nop

namespace Insn

open Cpu Compiler

/-- The handler of an instruction. -/
def exec : Insn → Cpu → Option Cpu
  | .movR8Imm dst imm => execMovRImm .u8 dst imm
  | .movM8Imm dst imm => execMovMImm .u8 dst imm
  | .movR8R8 dst src => execMovRR .u8 dst src
  | .movR8M8 dst src => execMovRM .u8 dst src
  | .movM8R8 dst src => execMovMR .u8 dst src
  | .movR16Imm dst imm => execMovRImm .u16 dst imm
  | .movM16Imm dst imm => execMovMImm .u16 dst imm
  | .movR16R16 dst src => execMovRR .u16 dst src
  | .movR16M16 dst src => execMovRM .u16 dst src
  | .movM16R16 dst src => execMovMR .u16 dst src
  | .movR32Imm dst imm => execMovRImm .u32 dst imm
  | .movM32Imm dst imm => execMovMImm .u32 dst imm
  | .movR32R32 dst src => execMovRR .u32 dst src
  | .movR32M32 dst src => execMovRM .u32 dst src
  | .movM32R32 dst src => execMovMR .u32 dst src
  | .movR64Imm dst imm => execMovRImm .u64 dst imm
  | .movM64Imm dst imm => execMovMImm .u64 dst imm
  | .movR64R64 dst src => execMovRR .u64 dst src
  | .movR64M64 dst src => execMovRM .u64 dst src
  | .movM64R64 dst src => execMovMR .u64 dst src
  | .movzxR16RM8 dst src => execMovzxR16RM8 dst src
  | .movzxR32RM8 dst src => execMovzxR32RM8 dst src
  | .movzxR32RM16 dst src => execMovzxR32RM16 dst src
  | .movzxR64RM8 dst src => execMovzxR64RM8 dst src
  | .movzxR64RM16 dst src => execMovzxR64RM16 dst src
  | .movsxR16RM8 dst src => execMovsxR16RM8 dst src
  | .movsxR32RM8 dst src => execMovsxR32RM8 dst src
  | .movsxR32RM16 dst src => execMovsxR32RM16 dst src
  | .movsxR64RM8 dst src => execMovsxR64RM8 dst src
  | .movsxR64RM16 dst src => execMovsxR64RM16 dst src
  | .movsxR64RM32 dst src => execMovsxR64RM32 dst src
  | .addRM8RM8 dst src => execAddRM8RM8 dst src
  | .addRM8Imm dst imm => execAddRM8Imm dst imm
  | .addRM16RM16 dst src => execAddRM16RM16 dst src
  | .addRM16Imm dst imm => execAddRM16Imm dst imm
  | .addRM32RM32 dst src => execAddRM32RM32 dst src
  | .addRM32Imm dst imm => execAddRM32Imm dst imm
  | .addRM64RM64 dst src => execAddRM64RM64 dst src
  | .addRM64Imm dst imm => execAddRM64Imm dst imm
  | .adcRM32RM32 dst src => execAdcRM32RM32 dst src
  | .adcRM32Imm dst imm => execAdcRM32Imm dst imm
  | .subRM8RM8 dst src => execSubRM8RM8 dst src
  | .subRM8Imm dst imm => execSubRM8Imm dst imm
  | .subRM16RM16 dst src => execSubRM16RM16 dst src
  | .subRM16Imm dst imm => execSubRM16Imm dst imm
  | .subRM32RM32 dst src => execSubRM32RM32 dst src
  | .subRM32Imm dst imm => execSubRM32Imm dst imm
  | .subRM64RM64 dst src => execSubRM64RM64 dst src
  | .subRM64Imm dst imm => execSubRM64Imm dst imm
  | .sbbRM8RM8 dst src => execSbbRM8RM8 dst src
  | .sbbRM8Imm dst imm => execSbbRM8Imm dst imm
  | .sbbRM32RM32 dst src => execSbbRM32RM32 dst src
  | .sbbRM32Imm dst imm => execSbbRM32Imm dst imm
  | .sbbRM64RM64 dst src => execSbbRM64RM64 dst src
  | .sbbRM64Imm dst imm => execSbbRM64Imm dst imm
  | .cmpRM8RM8 dst src => execCmpRM8RM8 dst src
  | .cmpRM8Imm dst imm => execCmpRM8Imm dst imm
  | .cmpRM16RM16 dst src => execCmpRM16RM16 dst src
  | .cmpRM16Imm dst imm => execCmpRM16Imm dst imm
  | .cmpRM32RM32 dst src => execCmpRM32RM32 dst src
  | .cmpRM32Imm dst imm => execCmpRM32Imm dst imm
  | .cmpRM64RM64 dst src => execCmpRM64RM64 dst src
  | .cmpRM64Imm dst imm => execCmpRM64Imm dst imm
  | .andRM8RM8 dst src => execAndRM8RM8 dst src
  | .andRM8Imm dst imm => execAndRM8Imm dst imm
  | .andRM16RM16 dst src => execAndRM16RM16 dst src
  | .andRM16Imm dst imm => execAndRM16Imm dst imm
  | .andRM32RM32 dst src => execAndRM32RM32 dst src
  | .andRM32Imm dst imm => execAndRM32Imm dst imm
  | .andRM64RM64 dst src => execAndRM64RM64 dst src
  | .andRM64Imm dst imm => execAndRM64Imm dst imm
  | .orRM8RM8 dst src => execOrRM8RM8 dst src
  | .orRM8Imm dst imm => execOrRM8Imm dst imm
  | .orRM16RM16 dst src => execOrRM16RM16 dst src
  | .orRM16Imm dst imm => execOrRM16Imm dst imm
  | .orRM32RM32 dst src => execOrRM32RM32 dst src
  | .orRM32Imm dst imm => execOrRM32Imm dst imm
  | .orRM64RM64 dst src => execOrRM64RM64 dst src
  | .orRM64Imm dst imm => execOrRM64Imm dst imm
  | .xorRM8RM8 dst src => execXorRM8RM8 dst src
  | .xorRM8Imm dst imm => execXorRM8Imm dst imm
  | .xorRM16RM16 dst src => execXorRM16RM16 dst src
  | .xorRM16Imm dst imm => execXorRM16Imm dst imm
  | .xorRM32RM32 dst src => execXorRM32RM32 dst src
  | .xorRM32Imm dst imm => execXorRM32Imm dst imm
  | .xorRM64RM64 dst src => execXorRM64RM64 dst src
  | .xorRM64Imm dst imm => execXorRM64Imm dst imm
  | .testRM8R8 lhs rhs => execTestRM8R8 lhs rhs
  | .testRM8Imm lhs imm => execTestRM8Imm lhs imm
  | .testRM16R16 lhs rhs => execTestRM16R16 lhs rhs
  | .testRM16Imm lhs imm => execTestRM16Imm lhs imm
  | .testRM32R32 lhs rhs => execTestRM32R32 lhs rhs
  | .testRM32Imm lhs imm => execTestRM32Imm lhs imm
  | .testRM64R64 lhs rhs => execTestRM64R64 lhs rhs
  | .testRM64Imm lhs imm => execTestRM64Imm lhs imm
  | .notRM32 dst => execNotRM32 dst
  | .notRM64 dst => execNotRM64 dst
  | .negRM8 dst => execNegRM8 dst
  | .negRM16 dst => execNegRM16 dst
  | .negRM32 dst => execNegRM32 dst
  | .negRM64 dst => execNegRM64 dst
  | .incRM32 dst => execIncRM32 dst
  | .incRM64 dst => execIncRM64 dst
  | .decRM8 dst => execDecRM8 dst
  | .decRM16 dst => execDecRM16 dst
  | .decRM32 dst => execDecRM32 dst
  | .decRM64 dst => execDecRM64 dst
  | .leaR32Encoding64 dst src => execLeaR32Encoding64 dst src
  | .leaR64Encoding64 dst src => execLeaR64Encoding64 dst src
  | .setRM8 cond dst => execSetRM8 cond dst
  | .cmovR32RM32 cond dst src => execCmovR32RM32 cond dst src
  | .cmovR64RM64 cond dst src => execCmovR64RM64 cond dst src
  | .pushImm imm => execPushImm imm
  | .pushRM64 src => execPushRM64 src
  | .popR64 dst => execPopR64 dst
  | .leave => execLeave
  | .nop => execNop

/-- `Compiler::tryCompile`, behind the advance of the instruction pointer. -/
def tryCompile : Insn → Option (List Instruction)
  | .movR8Imm dst imm => tryCompileMovR8Imm dst imm
  | .movM8Imm dst imm => tryCompileMovM8Imm dst imm
  | .movR8R8 dst src => tryCompileMovR8R8 dst src
  | .movR8M8 dst src => tryCompileMovR8M8 dst src
  | .movM8R8 dst src => tryCompileMovM8R8 dst src
  | .movR16Imm dst imm => tryCompileMovR16Imm dst imm
  | .movM16Imm dst imm => tryCompileMovM16Imm dst imm
  | .movR16R16 dst src => tryCompileMovR16R16 dst src
  | .movR16M16 dst src => tryCompileMovR16M16 dst src
  | .movM16R16 dst src => tryCompileMovM16R16 dst src
  | .movR32Imm dst imm => tryCompileMovR32Imm dst imm
  | .movM32Imm dst imm => tryCompileMovM32Imm dst imm
  | .movR32R32 dst src => tryCompileMovR32R32 dst src
  | .movR32M32 dst src => tryCompileMovR32M32 dst src
  | .movM32R32 dst src => tryCompileMovM32R32 dst src
  | .movR64Imm dst imm => tryCompileMovR64Imm dst imm
  | .movM64Imm dst imm => tryCompileMovM64Imm dst imm
  | .movR64R64 dst src => tryCompileMovR64R64 dst src
  | .movR64M64 dst src => tryCompileMovR64M64 dst src
  | .movM64R64 dst src => tryCompileMovM64R64 dst src
  | .movzxR16RM8 dst src => tryCompileMovzxR16RM8 dst src
  | .movzxR32RM8 dst src => tryCompileMovzxR32RM8 dst src
  | .movzxR32RM16 dst src => tryCompileMovzxR32RM16 dst src
  | .movzxR64RM8 dst src => tryCompileMovzxR64RM8 dst src
  | .movzxR64RM16 dst src => tryCompileMovzxR64RM16 dst src
  | .movsxR16RM8 dst src => tryCompileMovsxR16RM8 dst src
  | .movsxR32RM8 dst src => tryCompileMovsxR32RM8 dst src
  | .movsxR32RM16 dst src => tryCompileMovsxR32RM16 dst src
  | .movsxR64RM8 dst src => tryCompileMovsxR64RM8 dst src
  | .movsxR64RM16 dst src => tryCompileMovsxR64RM16 dst src
  | .movsxR64RM32 dst src => tryCompileMovsxR64RM32 dst src
  | .addRM8RM8 dst src => tryCompileAddRM8RM8 dst src
  | .addRM8Imm dst imm => tryCompileAddRM8Imm dst imm
  | .addRM16RM16 dst src => tryCompileAddRM16RM16 dst src
  | .addRM16Imm dst imm => tryCompileAddRM16Imm dst imm
  | .addRM32RM32 dst src => tryCompileAddRM32RM32 dst src
  | .addRM32Imm dst imm => tryCompileAddRM32Imm dst imm
  | .addRM64RM64 dst src => tryCompileAddRM64RM64 dst src
  | .addRM64Imm dst imm => tryCompileAddRM64Imm dst imm
  | .adcRM32RM32 dst src => tryCompileAdcRM32RM32 dst src
  | .adcRM32Imm dst imm => tryCompileAdcRM32Imm dst imm
  | .subRM8RM8 dst src => tryCompileSubRM8RM8 dst src
  | .subRM8Imm dst imm => tryCompileSubRM8Imm dst imm
  | .subRM16RM16 dst src => tryCompileSubRM16RM16 dst src
  | .subRM16Imm dst imm => tryCompileSubRM16Imm dst imm
  | .subRM32RM32 dst src => tryCompileSubRM32RM32 dst src
  | .subRM32Imm dst imm => tryCompileSubRM32Imm dst imm
  | .subRM64RM64 dst src => tryCompileSubRM64RM64 dst src
  | .subRM64Imm dst imm => tryCompileSubRM64Imm dst imm
  | .sbbRM8RM8 dst src => tryCompileSbbRM8RM8 dst src
  | .sbbRM8Imm dst imm => tryCompileSbbRM8Imm dst imm
  | .sbbRM32RM32 dst src => tryCompileSbbRM32RM32 dst src
  | .sbbRM32Imm dst imm => tryCompileSbbRM32Imm dst imm
  | .sbbRM64RM64 dst src => tryCompileSbbRM64RM64 dst src
  | .sbbRM64Imm dst imm => tryCompileSbbRM64Imm dst imm
  | .cmpRM8RM8 dst src => tryCompileCmpRM8RM8 dst src
  | .cmpRM8Imm dst imm => tryCompileCmpRM8Imm dst imm
  | .cmpRM16RM16 dst src => tryCompileCmpRM16RM16 dst src
  | .cmpRM16Imm dst imm => tryCompileCmpRM16Imm dst imm
  | .cmpRM32RM32 dst src => tryCompileCmpRM32RM32 dst src
  | .cmpRM32Imm dst imm => tryCompileCmpRM32Imm dst imm
  | .cmpRM64RM64 dst src => tryCompileCmpRM64RM64 dst src
  | .cmpRM64Imm dst imm => tryCompileCmpRM64Imm dst imm
  | .andRM8RM8 dst src => tryCompileAndRM8RM8 dst src
  | .andRM8Imm dst imm => tryCompileAndRM8Imm dst imm
  | .andRM16RM16 dst src => tryCompileAndRM16RM16 dst src
  | .andRM16Imm dst imm => tryCompileAndRM16Imm dst imm
  | .andRM32RM32 dst src => tryCompileAndRM32RM32 dst src
  | .andRM32Imm dst imm => tryCompileAndRM32Imm dst imm
  | .andRM64RM64 dst src => tryCompileAndRM64RM64 dst src
  | .andRM64Imm dst imm => tryCompileAndRM64Imm dst imm
  | .orRM8RM8 dst src => tryCompileOrRM8RM8 dst src
  | .orRM8Imm dst imm => tryCompileOrRM8Imm dst imm
  | .orRM16RM16 dst src => tryCompileOrRM16RM16 dst src
  | .orRM16Imm dst imm => tryCompileOrRM16Imm dst imm
  | .orRM32RM32 dst src => tryCompileOrRM32RM32 dst src
  | .orRM32Imm dst imm => tryCompileOrRM32Imm dst imm
  | .orRM64RM64 dst src => tryCompileOrRM64RM64 dst src
  | .orRM64Imm dst imm => tryCompileOrRM64Imm dst imm
  | .xorRM8RM8 dst src => tryCompileXorRM8RM8 dst src
  | .xorRM8Imm dst imm => tryCompileXorRM8Imm dst imm
  | .xorRM16RM16 dst src => tryCompileXorRM16RM16 dst src
  | .xorRM16Imm dst imm => tryCompileXorRM16Imm dst imm
  | .xorRM32RM32 dst src => tryCompileXorRM32RM32 dst src
  | .xorRM32Imm dst imm => tryCompileXorRM32Imm dst imm
  | .xorRM64RM64 dst src => tryCompileXorRM64RM64 dst src
  | .xorRM64Imm dst imm => tryCompileXorRM64Imm dst imm
  | .testRM8R8 lhs rhs => tryCompileTestRM8R8 lhs rhs
  | .testRM8Imm lhs imm => tryCompileTestRM8Imm lhs imm
  | .testRM16R16 lhs rhs => tryCompileTestRM16R16 lhs rhs
  | .testRM16Imm lhs imm => tryCompileTestRM16Imm lhs imm
  | .testRM32R32 lhs rhs => tryCompileTestRM32R32 lhs rhs
  | .testRM32Imm lhs imm => tryCompileTestRM32Imm lhs imm
  | .testRM64R64 lhs rhs => tryCompileTestRM64R64 lhs rhs
  | .testRM64Imm lhs imm => tryCompileTestRM64Imm lhs imm
  | .notRM32 dst => tryCompileNotRM32 dst
  | .notRM64 dst => tryCompileNotRM64 dst
  | .negRM8 dst => tryCompileNegRM8 dst
  | .negRM16 dst => tryCompileNegRM16 dst
  | .negRM32 dst => tryCompileNegRM32 dst
  | .negRM64 dst => tryCompileNegRM64 dst
  | .incRM32 dst => tryCompileIncRM32 dst
  | .incRM64 dst => tryCompileIncRM64 dst
  | .decRM8 dst => tryCompileDecRM8 dst
  | .decRM16 dst => tryCompileDecRM16 dst
  | .decRM32 dst => tryCompileDecRM32 dst
  | .decRM64 dst => tryCompileDecRM64 dst
  | .leaR32Encoding64 dst src => tryCompileLeaR32Enc64 dst src
  | .leaR64Encoding64 dst src => tryCompileLeaR64Enc64 dst src
  | .setRM8 cond dst => tryCompileSetRM8 cond dst
  | .cmovR32RM32 cond dst src => tryCompileCmovR32RM32 cond dst src
  | .cmovR64RM64 cond dst src => tryCompileCmovR64RM64 cond dst src
  | .pushImm imm => tryCompilePushImm imm
  | .pushRM64 src => tryCompilePushRM64 src
  | .popR64 dst => tryCompilePopR64 dst
  | .leave => tryCompileLeave
  | .nop => tryCompileNop

/-- `Cpu::exec` of a block. Each instruction comes with the address of the next one. -/
def execBlock (c : Cpu) (block : List (Insn × BitVec 64)) : Option Cpu :=
  block.foldlM (fun (c : Cpu) (ins : Insn × BitVec 64) => ins.1.exec (c.setGpr .rip ins.2)) c

/-- `Compiler::basicBlockBody`, of the instructions before the last one of a block. -/
def basicBlockBody (block : List (Insn × BitVec 64)) : Option (List Instruction) :=
  (block.mapM fun (ins : Insn × BitVec 64) => ins.1.tryCompile.map (tryAdvanceInstructionPointer ins.2 ++ ·)).map List.flatten

end Insn

end X64Emulator
