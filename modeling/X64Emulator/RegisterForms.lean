import X64Emulator.Assembler

/-!
# The assembler's register forms

The functions of `Assembler` whose operands are registers and immediates. They write a prefix, the REX prefix, an opcode, the byte
of the registers and the immediate, and differ in when they write the REX prefix and in which field each register goes.
-/

namespace X64Emulator

namespace Assembler

open Ir HostRegister

/-- When a function writes the REX prefix, and with which width. -/
inductive RexRule where
  | never
  | extended (rexw : REX)
  | always (rexw : REX)
deriving DecidableEq, Repr

def RexRule.bytes (rule : RexRule) (reg rm : Bool) : Code :=
  match rule with
  | never => []
  | extended rexw => if reg || rm then [rexByte rexw reg false rm] else []
  | always rexw => [rexByte rexw reg false rm]

section

variable {Reg Rm : Type} [HostRegister Reg] [HostRegister Rm]

/-- A function of two registers. Where one of them is an MMX register the source asks the other one only. -/
def regReg (before : Code) (rule : RexRule) (inss : Code) (reg : Reg) (rm : Rm) : Option Code := do
  let r ← encodeRegister reg
  let b ← encodeRegister rm
  some (before ++ rule.bytes (8 ≤ number reg) (8 ≤ number rm) ++ inss ++ [modrm 0b11000000 r b])

/-- A function of one register, whose opcode goes on in the other field. -/
def regDigit (before : Code) (rule : RexRule) (inss : Code) (digit : UInt8) (rm : Rm) : Option Code := do
  let b ← encodeRegister rm
  some (before ++ rule.bytes false (8 ≤ number rm) ++ inss ++ [modrm 0b11000000 digit b])

/-- A function of one register, which is added to the opcode. -/
def regOpcode (before : Code) (rule : RexRule) (inss : Code) (opcode : UInt8) (rm : Rm) : Option Code := do
  let b ← encodeRegister rm
  some (before ++ rule.bytes false (8 ≤ number rm) ++ inss ++ [opcode + b])

def followed (code : Option Code) (imm : Code) : Option Code := code.map (· ++ imm)

/-- An immediate of 16 bits is written as one byte where that is enough. -/
def regImm16 (rule : RexRule) (digit : UInt8) (rm : Rm) (imm : Int16) : Option Code :=
  if imm.toInt8.toInt16 = imm then followed (regDigit [0x66] rule [0x83] digit rm) [imm.toInt8.toUInt8]
  else followed (regDigit [0x66] rule [0x81] digit rm) (write16 imm.toUInt16)

def regImm32 (rule : RexRule) (digit : UInt8) (rm : Rm) (imm : Int32) : Option Code :=
  if isByte imm then followed (regDigit [] rule [0x83] digit rm) [imm.toInt8.toUInt8]
  else followed (regDigit [] rule [0x81] digit rm) (write32 imm.toUInt32)

/-- Some functions take only the two registers that the compiler computes with: `R8B` and `R9B`, or those they are part of. -/
def isScratch (reg : Reg) : Bool := number reg = 8 || number reg = 9

end

/-- The opcode of `set`. -/
def setOpcode : Cond → Option UInt8
  | .o => some 0x90
  | .no => some 0x91
  | .b => some 0x92
  | .nb | .ae => some 0x93
  | .e => some 0x94
  | .ne => some 0x95
  | .be => some 0x96
  | .nbe | .a => some 0x97
  | .s => some 0x98
  | .ns => some 0x99
  | .p => some 0x9A
  | .np => some 0x9B
  | .l => some 0x9C
  | .ge => some 0x9D
  | .le => some 0x9E
  | .g => some 0x9F
  | .nu | .u => none

/-- The opcode of `cmov`, which has none for an overflow. -/
def cmovOpcode : Cond → Option UInt8
  | .b => some 0x42
  | .nb | .ae => some 0x43
  | .e => some 0x44
  | .ne => some 0x45
  | .be => some 0x46
  | .nbe | .a => some 0x47
  | .s => some 0x48
  | .ns => some 0x49
  | .p => some 0x4A
  | .np => some 0x4B
  | .l => some 0x4C
  | .ge => some 0x4D
  | .le => some 0x4E
  | .g => some 0x4F
  | .o | .no | .nu | .u => none

/-! ## The functions -/

/-! ### Moves -/

def movR8R8 (dst src : R8) : Option Code := regReg [] (.always .NONE) [0x8a] dst src

/-- A byte register is written with a REX prefix from the fifth on. -/
def movR8U8 (dst : R8) (imm : UInt8) : Option Code := do
  let r ← encodeRegister dst
  let rex := if 4 ≤ number dst ∧ number dst < 16 then [rexByte .NONE false false (8 ≤ number dst)] else []
  some (rex ++ [0xb0 + r] ++ [imm])

def movR16R16 (dst src : R16) : Option Code := regReg [0x66] (.always .NONE) [0x8b] dst src

def movR16U16 (dst : R16) (imm : UInt16) : Option Code := followed (regOpcode [0x66] (.extended .NONE) [] 0xb8 dst) (write16 imm)

def movR32R32 (dst src : R32) : Option Code := regReg [] (.always .NONE) [0x8b] dst src

def movR32U32 (dst : R32) (imm : UInt32) : Option Code := followed (regOpcode [] (.extended .NONE) [] 0xb8 dst) (write32 imm)

def movR64R64 (dst src : R64) : Option Code := regReg [] (.always .W) [0x8b] dst src

def movzxR16R8 (dst : R16) (src : R8) : Option Code :=
  if isScratch src then regReg [0x66] (.extended .NONE) [0x0f, 0xb6] src dst else none

def movzxR32R8 (dst : R32) (src : R8) : Option Code :=
  if isScratch src then regReg [] (.extended .NONE) [0x0f, 0xb6] src dst else none

def movzxR32R16 (dst : R32) (src : R16) : Option Code :=
  if isScratch src then regReg [] (.extended .NONE) [0x0f, 0xb7] src dst else none

def movzxR64R8 (dst : R64) (src : R8) : Option Code := if isScratch src then regReg [] (.always .W) [0x0f, 0xb6] src dst else none

def movzxR64R16 (dst : R64) (src : R16) : Option Code :=
  if isScratch src then regReg [] (.always .W) [0x0f, 0xb7] src dst else none

def movsxR16R8 (dst : R16) (src : R8) : Option Code :=
  if isScratch src then regReg [0x66] (.always .NONE) [0x0f, 0xbe] src dst else none

def movsxR32R8 (dst : R32) (src : R8) : Option Code :=
  if isScratch src then regReg [] (.always .NONE) [0x0f, 0xbe] src dst else none

def movsxR32R16 (dst : R32) (src : R16) : Option Code :=
  if isScratch src then regReg [] (.always .NONE) [0x0f, 0xbf] src dst else none

def movsxR64R8 (dst : R64) (src : R8) : Option Code := if isScratch src then regReg [] (.always .W) [0x0f, 0xbe] src dst else none

def movsxR64R16 (dst : R64) (src : R16) : Option Code :=
  if isScratch src then regReg [] (.always .W) [0x0f, 0xbf] src dst else none

def movsxR64R32 (dst : R64) (src : R32) : Option Code := regReg [] (.always .W) [0x63] dst src

/-! ### Sums and differences -/

def addR8R8 (dst src : R8) : Option Code := regReg [] (.extended .NONE) [0x00] src dst

def addR8I8 (dst : R8) (imm : Int8) : Option Code := followed (regDigit [] (.extended .NONE) [0x80] 0b000 dst) [imm.toUInt8]

def addR16R16 (dst src : R16) : Option Code := regReg [0x66] (.extended .NONE) [0x01] src dst

def addR16I16 (dst : R16) (imm : Int16) : Option Code := regImm16 (.extended .NONE) 0b000 dst imm

def addR32R32 (dst src : R32) : Option Code := regReg [] (.extended .NONE) [0x01] src dst

def addR32I32 (dst : R32) (imm : Int32) : Option Code := regImm32 (.extended .NONE) 0b000 dst imm

def addR64R64 (dst src : R64) : Option Code := regReg [] (.always .W) [0x01] src dst

def addR64I32 (dst : R64) (imm : Int32) : Option Code := regImm32 (.always .W) 0b000 dst imm

def adcR32R32 (dst src : R32) : Option Code := regReg [] (.extended .NONE) [0x11] src dst

def adcR32I32 (dst : R32) (imm : Int32) : Option Code := regImm32 (.extended .NONE) 0b010 dst imm

def subR8R8 (dst src : R8) : Option Code := regReg [] (.extended .NONE) [0x28] src dst

def subR8I8 (dst : R8) (imm : Int8) : Option Code := followed (regDigit [] (.extended .NONE) [0x80] 0b101 dst) [imm.toUInt8]

def subR16R16 (dst src : R16) : Option Code := regReg [0x66] (.extended .NONE) [0x29] src dst

def subR16I16 (dst : R16) (imm : Int16) : Option Code := regImm16 (.extended .NONE) 0b101 dst imm

def subR32R32 (dst src : R32) : Option Code := regReg [] (.always .NONE) [0x29] src dst

def subR32I32 (dst : R32) (imm : Int32) : Option Code := regImm32 (.always .NONE) 0b101 dst imm

def subR64R64 (dst src : R64) : Option Code := regReg [] (.always .W) [0x29] src dst

def subR64I32 (dst : R64) (imm : Int32) : Option Code := regImm32 (.always .W) 0b101 dst imm

def sbbR8R8 (dst src : R8) : Option Code := regReg [] (.always .NONE) [0x18] src dst

def sbbR8I8 (dst : R8) (imm : Int8) : Option Code := followed (regDigit [] (.always .NONE) [0x80] 0b011 dst) [imm.toUInt8]

def sbbR32R32 (dst src : R32) : Option Code := regReg [] (.always .NONE) [0x19] src dst

def sbbR32I32 (dst : R32) (imm : Int32) : Option Code := regImm32 (.always .NONE) 0b011 dst imm

def sbbR64R64 (dst src : R64) : Option Code := regReg [] (.always .W) [0x19] src dst

def sbbR64I32 (dst : R64) (imm : Int32) : Option Code := regImm32 (.always .W) 0b011 dst imm

def cmpR8R8 (lhs rhs : R8) : Option Code := regReg [] (.always .NONE) [0x38] rhs lhs

def cmpR8I8 (dst : R8) (imm : Int8) : Option Code := followed (regDigit [] (.always .NONE) [0x80] 0b111 dst) [imm.toUInt8]

def cmpR16R16 (lhs rhs : R16) : Option Code := regReg [0x66] (.always .NONE) [0x39] rhs lhs

def cmpR16I16 (dst : R16) (imm : Int16) : Option Code := regImm16 (.always .NONE) 0b111 dst imm

def cmpR32R32 (lhs rhs : R32) : Option Code := regReg [] (.always .NONE) [0x39] rhs lhs

def cmpR32I32 (dst : R32) (imm : Int32) : Option Code := regImm32 (.always .NONE) 0b111 dst imm

def cmpR64R64 (lhs rhs : R64) : Option Code := regReg [] (.always .W) [0x39] rhs lhs

def cmpR64I32 (dst : R64) (imm : Int32) : Option Code := regImm32 (.always .W) 0b111 dst imm

/-! ### Shifts and rotations -/

/-- A shift by a register: the count goes through `cl`, whose register is saved. -/
def throughCl (shift : Option Code) (rhs : R8) : Option Code := do
  let saved ← push64 .rcx
  let count ← movR8R8 .cl rhs
  let shifted ← shift
  let restored ← pop64 .rcx
  some (saved ++ count ++ shifted ++ restored)

def shl_clR32 (lhs : R32) : Option Code := regDigit [] (.extended .NONE) [0xd3] 0b100 lhs

def shlR32R8 (lhs : R32) (rhs : R8) : Option Code :=
  if isScratch lhs && isScratch rhs then throughCl (shl_clR32 lhs) rhs else none

def shlR32U8 (lhs : R32) (imm : UInt8) : Option Code := followed (regDigit [] (.extended .NONE) [0xc1] 0b100 lhs) [imm]

def shl_clR64 (lhs : R64) : Option Code := regDigit [] (.always .W) [0xd3] 0b100 lhs

def shlR64R8 (lhs : R64) (rhs : R8) : Option Code :=
  if isScratch lhs && isScratch rhs then throughCl (shl_clR64 lhs) rhs else none

def shlR64U8 (lhs : R64) (imm : UInt8) : Option Code := followed (regDigit [] (.always .W) [0xc1] 0b100 lhs) [imm]

def shr_clR8 (lhs : R8) : Option Code := regDigit [] (.extended .NONE) [0xd2] 0b101 lhs

def shrR8R8 (lhs rhs : R8) : Option Code := if isScratch lhs && isScratch rhs then throughCl (shr_clR8 lhs) rhs else none

def shrR8U8 (lhs : R8) (imm : UInt8) : Option Code := followed (regDigit [] (.extended .NONE) [0xc0] 0b101 lhs) [imm]

def shr_clR16 (lhs : R16) : Option Code := regDigit [0x66] (.extended .NONE) [0xd3] 0b101 lhs

def shrR16R8 (lhs : R16) (rhs : R8) : Option Code :=
  if isScratch lhs && isScratch rhs then throughCl (shr_clR16 lhs) rhs else none

def shrR16U8 (lhs : R16) (imm : UInt8) : Option Code := followed (regDigit [0x66] (.extended .NONE) [0xc1] 0b101 lhs) [imm]

def shr_clR32 (lhs : R32) : Option Code := regDigit [] (.extended .NONE) [0xd3] 0b101 lhs

def shrR32R8 (lhs : R32) (rhs : R8) : Option Code :=
  if isScratch lhs && isScratch rhs then throughCl (shr_clR32 lhs) rhs else none

def shrR32U8 (lhs : R32) (imm : UInt8) : Option Code := followed (regDigit [] (.extended .NONE) [0xc1] 0b101 lhs) [imm]

def shr_clR64 (lhs : R64) : Option Code := regDigit [] (.always .W) [0xd3] 0b101 lhs

def shrR64R8 (lhs : R64) (rhs : R8) : Option Code :=
  if isScratch lhs && isScratch rhs then throughCl (shr_clR64 lhs) rhs else none

def shrR64U8 (lhs : R64) (imm : UInt8) : Option Code := followed (regDigit [] (.always .W) [0xc1] 0b101 lhs) [imm]

def sar_clR16 (lhs : R16) : Option Code := regDigit [0x66] (.extended .NONE) [0xd3] 0b111 lhs

def sarR16R8 (lhs : R16) (rhs : R8) : Option Code :=
  if isScratch lhs && isScratch rhs then throughCl (sar_clR16 lhs) rhs else none

def sarR16U8 (lhs : R16) (imm : UInt8) : Option Code := followed (regDigit [0x66] (.extended .NONE) [0xc1] 0b111 lhs) [imm]

def sar_clR32 (lhs : R32) : Option Code := regDigit [] (.extended .NONE) [0xd3] 0b111 lhs

def sarR32R8 (lhs : R32) (rhs : R8) : Option Code :=
  if isScratch lhs && isScratch rhs then throughCl (sar_clR32 lhs) rhs else none

def sarR32U8 (lhs : R32) (imm : UInt8) : Option Code := followed (regDigit [] (.extended .NONE) [0xc1] 0b111 lhs) [imm]

def sar_clR64 (lhs : R64) : Option Code := regDigit [] (.always .W) [0xd3] 0b111 lhs

def sarR64R8 (lhs : R64) (rhs : R8) : Option Code :=
  if isScratch lhs && isScratch rhs then throughCl (sar_clR64 lhs) rhs else none

def sarR64U8 (lhs : R64) (imm : UInt8) : Option Code := followed (regDigit [] (.always .W) [0xc1] 0b111 lhs) [imm]

def rolR16U8 (lhs : R16) (imm : UInt8) : Option Code := followed (regDigit [0x66] (.extended .NONE) [0xc1] 0b000 lhs) [imm]

def rol_clR16 (lhs : R16) : Option Code := regDigit [0x66] (.extended .NONE) [0xd3] 0b000 lhs

def rolR16R8 (lhs : R16) (rhs : R8) : Option Code :=
  if isScratch lhs && isScratch rhs then throughCl (rol_clR16 lhs) rhs else none

def rolR32U8 (lhs : R32) (imm : UInt8) : Option Code := followed (regDigit [] (.extended .NONE) [0xc1] 0b000 lhs) [imm]

def rol_clR32 (lhs : R32) : Option Code := regDigit [] (.extended .NONE) [0xd3] 0b000 lhs

def ror_clR32 (lhs : R32) : Option Code := regDigit [] (.extended .NONE) [0xd3] 0b001 lhs

def rolR32R8 (lhs : R32) (rhs : R8) : Option Code :=
  if isScratch lhs && isScratch rhs then throughCl (rol_clR32 lhs) rhs else none

def rorR32U8 (lhs : R32) (imm : UInt8) : Option Code := followed (regDigit [] (.extended .NONE) [0xc1] 0b001 lhs) [imm]

def rorR32R8 (lhs : R32) (rhs : R8) : Option Code :=
  if isScratch lhs && isScratch rhs then throughCl (ror_clR32 lhs) rhs else none

def rol_clR64 (lhs : R64) : Option Code := regDigit [] (.always .W) [0xd3] 0b000 lhs

def ror_clR64 (lhs : R64) : Option Code := regDigit [] (.always .W) [0xd3] 0b001 lhs

def rolR64U8 (lhs : R64) (imm : UInt8) : Option Code := followed (regDigit [] (.always .W) [0xc1] 0b000 lhs) [imm]

def rolR64R8 (lhs : R64) (rhs : R8) : Option Code :=
  if isScratch lhs && isScratch rhs then throughCl (rol_clR64 lhs) rhs else none

def rorR64U8 (lhs : R64) (imm : UInt8) : Option Code := followed (regDigit [] (.always .W) [0xc1] 0b001 lhs) [imm]

def rorR64R8 (lhs : R64) (rhs : R8) : Option Code :=
  if isScratch lhs && isScratch rhs then throughCl (ror_clR64 lhs) rhs else none

/-! ### Products and quotients -/

def mulR32 (src : R32) : Option Code := regDigit [] (.extended .NONE) [0xf7] 0b100 src

def mulR64 (src : R64) : Option Code := regDigit [] (.always .W) [0xf7] 0b100 src

def imulR32 (src : R32) : Option Code := regDigit [] (.extended .NONE) [0xf7] 0b101 src

def imulR64 (src : R64) : Option Code := regDigit [] (.always .W) [0xf7] 0b101 src

def imulR16R16 (dst src : R16) : Option Code := regReg [0x66] (.extended .NONE) [0x0f, 0xaf] dst src

def imulR32R32 (dst src : R32) : Option Code := regReg [] (.extended .NONE) [0x0f, 0xaf] dst src

def imulR64R64 (dst src : R64) : Option Code := regReg [] (.always .W) [0x0f, 0xaf] dst src

def imulR16R16U16 (dst src : R16) (imm : UInt16) : Option Code :=
  followed (regReg [0x66] (.extended .NONE) [0x69] dst src) (write16 imm)

def imulR32R32U32 (dst src : R32) (imm : UInt32) : Option Code :=
  followed (regReg [] (.extended .NONE) [0x69] dst src) (write32 imm)

def imulR64R64U32 (dst src : R64) (imm : UInt32) : Option Code := followed (regReg [] (.always .W) [0x69] dst src) (write32 imm)

def divR32 (src : R32) : Option Code := regDigit [] (.extended .NONE) [0xf7] 0b110 src

def divR64 (src : R64) : Option Code := regDigit [] (.always .W) [0xf7] 0b110 src

def idivR32 (src : R32) : Option Code := regDigit [] (.extended .NONE) [0xf7] 0b111 src

def idivR64 (src : R64) : Option Code := regDigit [] (.always .W) [0xf7] 0b111 src

/-! ### Bits -/

def testR8R8 (lhs rhs : R8) : Option Code := regReg [] (.extended .NONE) [0x84] rhs lhs

def testR8U8 (lhs : R8) (imm : UInt8) : Option Code :=
  if isScratch lhs then followed (regDigit [] (.extended .NONE) [0xF6] 0b000 lhs) [imm] else none

def testR16R16 (lhs rhs : R16) : Option Code := regReg [0x66] (.extended .NONE) [0x85] rhs lhs

def testR16U16 (lhs : R16) (imm : UInt16) : Option Code :=
  if isScratch lhs then followed (regDigit [0x66] (.extended .NONE) [0xF7] 0b000 lhs) (write16 imm) else none

def testR32R32 (lhs rhs : R32) : Option Code := regReg [] (.extended .NONE) [0x85] rhs lhs

def testR32U32 (lhs : R32) (imm : UInt32) : Option Code :=
  if isScratch lhs then followed (regDigit [] (.extended .NONE) [0xF7] 0b000 lhs) (write32 imm) else none

def testR64R64 (lhs rhs : R64) : Option Code := regReg [] (.always .W) [0x85] rhs lhs

def testR64U32 (lhs : R64) (imm : UInt32) : Option Code := followed (regDigit [] (.always .W) [0xF7] 0b000 lhs) (write32 imm)

def andR8R8 (dst src : R8) : Option Code := regReg [] (.extended .NONE) [0x20] src dst

def andR8I8 (dst : R8) (imm : Int8) : Option Code := followed (regDigit [] (.extended .NONE) [0x80] 0b100 dst) [imm.toUInt8]

def andR16R16 (dst src : R16) : Option Code := regReg [0x66] (.extended .NONE) [0x21] src dst

def andR16I16 (dst : R16) (imm : Int16) : Option Code :=
  followed (regDigit [0x66] (.extended .NONE) [0x81] 0b100 dst) (write16 imm.toUInt16)

def andR32R32 (dst src : R32) : Option Code := regReg [] (.extended .NONE) [0x21] src dst

def andR32I32 (dst : R32) (imm : Int32) : Option Code :=
  followed (regDigit [] (.extended .NONE) [0x81] 0b100 dst) (write32 imm.toUInt32)

def andR64R64 (dst src : R64) : Option Code := regReg [] (.always .W) [0x21] src dst

def andR64I32 (dst : R64) (imm : Int32) : Option Code :=
  followed (regDigit [] (.always .W) [0x81] 0b100 dst) (write32 imm.toUInt32)

def orR8R8 (dst src : R8) : Option Code := regReg [0x66] (.extended .NONE) [0x08] src dst

def orR8I8 (dst : R8) (imm : Int8) : Option Code := followed (regDigit [0x66] (.extended .NONE) [0x80] 0b001 dst) [imm.toUInt8]

def orR16R16 (dst src : R16) : Option Code := regReg [0x66] (.extended .NONE) [0x09] src dst

def orR16I16 (dst : R16) (imm : Int16) : Option Code :=
  followed (regDigit [0x66] (.extended .NONE) [0x81] 0b001 dst) (write16 imm.toUInt16)

def orR32R32 (dst src : R32) : Option Code := regReg [] (.extended .NONE) [0x09] src dst

def orR32I32 (dst : R32) (imm : Int32) : Option Code :=
  followed (regDigit [] (.extended .NONE) [0x81] 0b001 dst) (write32 imm.toUInt32)

def orR64R64 (dst src : R64) : Option Code := regReg [] (.always .W) [0x09] src dst

def orR64I32 (dst : R64) (imm : Int32) : Option Code :=
  followed (regDigit [] (.always .W) [0x81] 0b001 dst) (write32 imm.toUInt32)

def xorR8R8 (dst src : R8) : Option Code :=
  if isScratch dst && isScratch src then regReg [] (.extended .NONE) [0x30] src dst else none

def xorR8I8 (dst : R8) (imm : Int8) : Option Code :=
  if isScratch dst then followed (regDigit [] (.extended .NONE) [0x80] 0b110 dst) [imm.toUInt8] else none

def xorR16R16 (dst src : R16) : Option Code := regReg [0x66] (.extended .NONE) [0x31] src dst

def xorR16I16 (dst : R16) (imm : Int16) : Option Code :=
  followed (regDigit [0x66] (.extended .NONE) [0x81] 0b110 dst) (write16 imm.toUInt16)

def xorR32R32 (dst src : R32) : Option Code := regReg [] (.extended .NONE) [0x31] src dst

def xorR32I32 (dst : R32) (imm : Int32) : Option Code :=
  followed (regDigit [] (.extended .NONE) [0x81] 0b110 dst) (write32 imm.toUInt32)

def xorR64R64 (dst src : R64) : Option Code := regReg [] (.always .W) [0x31] src dst

def xorR64I32 (dst : R64) (imm : Int32) : Option Code :=
  followed (regDigit [] (.always .W) [0x81] 0b110 dst) (write32 imm.toUInt32)

def notR32 (dst : R32) : Option Code := regDigit [] (.extended .NONE) [0xf7] 0b010 dst

def notR64 (dst : R64) : Option Code := regDigit [] (.always .W) [0xf7] 0b010 dst

def negR8 (dst : R8) : Option Code := regDigit [] (.extended .NONE) [0xf6] 0b011 dst

def negR16 (dst : R16) : Option Code := regDigit [0x66] (.extended .NONE) [0xf7] 0b011 dst

def negR32 (dst : R32) : Option Code := regDigit [] (.extended .NONE) [0xf7] 0b011 dst

def negR64 (dst : R64) : Option Code := regDigit [] (.always .W) [0xf7] 0b011 dst

def incR32 (dst : R32) : Option Code := regDigit [] (.extended .NONE) [0xff] 0b000 dst

def incR64 (dst : R64) : Option Code := regDigit [] (.always .W) [0xff] 0b000 dst

def decR8 (dst : R8) : Option Code := regDigit [] (.extended .NONE) [0xfe] 0b001 dst

def decR16 (dst : R16) : Option Code := regDigit [0x66] (.extended .NONE) [0xff] 0b001 dst

def decR32 (dst : R32) : Option Code := regDigit [] (.extended .NONE) [0xff] 0b001 dst

def decR64 (dst : R64) : Option Code := regDigit [] (.always .W) [0xff] 0b001 dst

/-! ### Exchanges -/

def xchgR8R8 (dst src : R8) : Option Code := regReg [] (.extended .NONE) [0x86] src dst

def xchgR16R16 (dst src : R16) : Option Code := regReg [0x66] (.extended .NONE) [0x87] src dst

def xchgR32R32 (dst src : R32) : Option Code := regReg [] (.extended .NONE) [0x87] src dst

def xchgR64R64 (dst src : R64) : Option Code := regReg [] (.always .W) [0x87] src dst

def cmpxchgR32R32 (dst src : R32) : Option Code := regReg [] (.extended .NONE) [0x0f, 0xb1] src dst

def cmpxchgR64R64 (dst src : R64) : Option Code := regReg [] (.always .W) [0x0f, 0xb1] src dst

/-! ### Searches, conditions and single bits -/

def bsfR32R32 (dst src : R32) : Option Code := regReg [] (.extended .NONE) [0x0f, 0xbc] dst src

def bsfR64R64 (dst src : R64) : Option Code := regReg [] (.extended .W) [0x0f, 0xbc] dst src

def bsr (dst src : R32) : Option Code := regReg [] (.extended .NONE) [0x0f, 0xbd] dst src

def tzcnt (dst src : R32) : Option Code := regReg [0xf3] (.extended .NONE) [0x0f, 0xbc] dst src

def set (cond : Cond) (dst : R8) : Option Code := do
  let opcode ← setOpcode cond
  regDigit [] (.extended .NONE) [0x0F, opcode] 0b000 dst

def cmovCondR32R32 (cond : Cond) (dst src : R32) : Option Code := do
  let opcode ← cmovOpcode cond
  regReg [] (.extended .NONE) [0x0F, opcode] dst src

def cmovCondR64R64 (cond : Cond) (dst src : R64) : Option Code := do
  let opcode ← cmovOpcode cond
  regReg [] (.always .W) [0x0F, opcode] dst src

def bswapR32 (dst : R32) : Option Code := regOpcode [] (.extended .NONE) [0x0f] 0xc8 dst

def bswapR64 (dst : R64) : Option Code := regOpcode [] (.always .W) [0x0f] 0xc8 dst

def btR32R32 (dst src : R32) : Option Code := regReg [] (.extended .NONE) [0x0f, 0xa3] src dst

def btR64R64 (dst src : R64) : Option Code := regReg [] (.always .W) [0x0f, 0xa3] src dst

def btrR64R64 (dst src : R64) : Option Code := regReg [] (.always .W) [0x0f, 0xb3] src dst

def btrR64U8 (dst : R64) (imm : UInt8) : Option Code := followed (regDigit [] (.always .W) [0x0f, 0xba] 0b110 dst) [imm]

def btsR64R64 (dst src : R64) : Option Code := regReg [] (.always .W) [0x0f, 0xab] src dst

def btsR64U8 (dst : R64) (imm : UInt8) : Option Code := followed (regDigit [] (.always .W) [0x0f, 0xba] 0b101 dst) [imm]

/-! ### MMX -/

def movMMXMMX (dst src : MMX) : Option Code := regReg [] .never [0x0f, 0x7f] dst src

def movdR32MMX (dst : R32) (src : MMX) : Option Code := regReg [] (.extended .NONE) [0x0f, 0x7e] src dst

def movdMMXR32 (dst : MMX) (src : R32) : Option Code := regReg [] (.extended .NONE) [0x0f, 0x6e] dst src

def pmovmskbR32MMX (dst : R32) (src : MMX) : Option Code := regReg [] (.extended .NONE) [0x0f, 0xd7] dst src

def pandMMXMMX (dst src : MMX) : Option Code := regReg [] .never [0x0f, 0xdb] dst src

def porMMXMMX (dst src : MMX) : Option Code := regReg [] .never [0x0f, 0xeb] dst src

def pxorMMXMMX (dst src : MMX) : Option Code := regReg [] .never [0x0f, 0xef] dst src

def paddbMMXMMX (dst src : MMX) : Option Code := regReg [] .never [0x0f, 0xfc] dst src

def paddwMMXMMX (dst src : MMX) : Option Code := regReg [] .never [0x0f, 0xfd] dst src

def padddMMXMMX (dst src : MMX) : Option Code := regReg [] .never [0x0f, 0xfe] dst src

def paddqMMXMMX (dst src : MMX) : Option Code := regReg [] .never [0x0f, 0xd4] dst src

def paddsbMMXMMX (dst src : MMX) : Option Code := regReg [] .never [0x0f, 0xec] dst src

def paddswMMXMMX (dst src : MMX) : Option Code := regReg [] .never [0x0f, 0xed] dst src

def paddusbMMXMMX (dst src : MMX) : Option Code := regReg [] .never [0x0f, 0xdc] dst src

def padduswMMXMMX (dst src : MMX) : Option Code := regReg [] .never [0x0f, 0xdd] dst src

def psubbMMXMMX (dst src : MMX) : Option Code := regReg [] .never [0x0f, 0xf8] dst src

def psubwMMXMMX (dst src : MMX) : Option Code := regReg [] .never [0x0f, 0xf9] dst src

def psubdMMXMMX (dst src : MMX) : Option Code := regReg [] .never [0x0f, 0xfa] dst src

def psubsbMMXMMX (dst src : MMX) : Option Code := regReg [] .never [0x0f, 0xe8] dst src

def psubswMMXMMX (dst src : MMX) : Option Code := regReg [] .never [0x0f, 0xe9] dst src

def psubusbMMXMMX (dst src : MMX) : Option Code := regReg [] .never [0x0f, 0xd8] dst src

def psubuswMMXMMX (dst src : MMX) : Option Code := regReg [] .never [0x0f, 0xd9] dst src

def pmaddwdMMXMMX (dst src : MMX) : Option Code := regReg [] .never [0x0f, 0xf5] dst src

def psadbw (dst src : MMX) : Option Code := regReg [] .never [0x0f, 0xf6] dst src

def pmulhwMMXMMX (dst src : MMX) : Option Code := regReg [] .never [0x0f, 0xe5] dst src

def pmullwMMXMMX (dst src : MMX) : Option Code := regReg [] .never [0x0f, 0xd5] dst src

def pavgbMMXMMX (dst src : MMX) : Option Code := regReg [] .never [0x0f, 0xe0] dst src

def pavgwMMXMMX (dst src : MMX) : Option Code := regReg [] .never [0x0f, 0xe3] dst src

def pmaxubMMXMMX (dst src : MMX) : Option Code := regReg [] .never [0x0f, 0xde] dst src

def pminubMMXMMX (dst src : MMX) : Option Code := regReg [] .never [0x0f, 0xda] dst src

def pcmpeqbMMXMMX (dst src : MMX) : Option Code := regReg [] .never [0x0f, 0x74] dst src

def pcmpeqwMMXMMX (dst src : MMX) : Option Code := regReg [] .never [0x0f, 0x75] dst src

def pcmpeqdMMXMMX (dst src : MMX) : Option Code := regReg [] .never [0x0f, 0x76] dst src

def psllwMMXU8 (dst : MMX) (imm : UInt8) : Option Code := followed (regDigit [] .never [0x0f, 0x71] 0b110 dst) [imm]

def pslldMMXU8 (dst : MMX) (imm : UInt8) : Option Code := followed (regDigit [] .never [0x0f, 0x72] 0b110 dst) [imm]

def psllqMMXU8 (dst : MMX) (imm : UInt8) : Option Code := followed (regDigit [] .never [0x0f, 0x73] 0b110 dst) [imm]

def psrlwMMXU8 (dst : MMX) (imm : UInt8) : Option Code := followed (regDigit [] .never [0x0f, 0x71] 0b010 dst) [imm]

def psrldMMXU8 (dst : MMX) (imm : UInt8) : Option Code := followed (regDigit [] .never [0x0f, 0x72] 0b010 dst) [imm]

def psrlqMMXU8 (dst : MMX) (imm : UInt8) : Option Code := followed (regDigit [] .never [0x0f, 0x73] 0b010 dst) [imm]

def psrawMMXMMX (dst src : MMX) : Option Code := regReg [] .never [0x0f, 0xe1] dst src

def psrawMMXU8 (dst : MMX) (imm : UInt8) : Option Code := followed (regDigit [] .never [0x0f, 0x71] 0b100 dst) [imm]

def psradMMXMMX (dst src : MMX) : Option Code := regReg [] .never [0x0f, 0xe1] dst src

def psradMMXU8 (dst : MMX) (imm : UInt8) : Option Code := followed (regDigit [] .never [0x0f, 0x72] 0b100 dst) [imm]

def pshufbMMXMMX (dst src : MMX) : Option Code := regReg [] .never [0x0f, 0x38, 0x00] dst src

def pshufw (dst src : MMX) (imm : UInt8) : Option Code := followed (regReg [] .never [0x0f, 0x70] dst src) [imm]

def punpcklbwMMXMMX (dst src : MMX) : Option Code := regReg [] .never [0x0f, 0x60] dst src

def punpcklwdMMXMMX (dst src : MMX) : Option Code := regReg [] .never [0x0f, 0x61] dst src

def punpckldqMMXMMX (dst src : MMX) : Option Code := regReg [] .never [0x0f, 0x62] dst src

def punpckhbwMMXMMX (dst src : MMX) : Option Code := regReg [] .never [0x0f, 0x68] dst src

def punpckhwdMMXMMX (dst src : MMX) : Option Code := regReg [] .never [0x0f, 0x69] dst src

def punpckhdqMMXMMX (dst src : MMX) : Option Code := regReg [] .never [0x0f, 0x6a] dst src

def packsswbMMXMMX (dst src : MMX) : Option Code := regReg [] .never [0x0f, 0x63] dst src

def packssdwMMXMMX (dst src : MMX) : Option Code := regReg [] .never [0x0f, 0x6b] dst src

def packuswbMMXMMX (dst src : MMX) : Option Code := regReg [] .never [0x0f, 0x67] dst src

/-! ### XMM -/

def movXMMXMM (dst src : XMM) : Option Code := regReg [0x66] (.extended .W) [0x0f, 0x6f] dst src

def movdXMMR32 (dst : XMM) (src : R32) : Option Code := regReg [0x66] (.extended .NONE) [0x0f, 0x6e] dst src

def movdR32XMM (dst : R32) (src : XMM) : Option Code := regReg [0x66] (.extended .NONE) [0x0f, 0x7e] src dst

def movssXMMXMM (dst src : XMM) : Option Code := regReg [0xf3] (.extended .NONE) [0x0f, 0x10] dst src

def movqXMMR64 (dst : XMM) (src : R64) : Option Code := regReg [0x66] (.always .W) [0x0f, 0x6e] dst src

def movqR64XMM (dst : R64) (src : XMM) : Option Code := regReg [0x66] (.always .W) [0x0f, 0x7e] src dst

def movhlps (dst src : XMM) : Option Code := regReg [] (.extended .NONE) [0x0f, 0x12] dst src

def movlhps (dst src : XMM) : Option Code := regReg [] (.extended .NONE) [0x0f, 0x16] dst src

def pmovmskbR32XMM (dst : R32) (src : XMM) : Option Code := regReg [0x66] (.extended .NONE) [0x0f, 0xd7] dst src

def movq2dq (dst : XMM) (src : MMX) : Option Code := regReg [0xf3] (.extended .NONE) [0x0f, 0xd6] dst src

def pandXMMXMM (dst src : XMM) : Option Code := regReg [0x66] (.extended .NONE) [0x0f, 0xdb] dst src

def pandn (dst src : XMM) : Option Code := regReg [0x66] (.extended .NONE) [0x0f, 0xdf] dst src

def porXMMXMM (dst src : XMM) : Option Code := regReg [0x66] (.extended .NONE) [0x0f, 0xeb] dst src

def pxorXMMXMM (dst src : XMM) : Option Code := regReg [0x66] (.extended .NONE) [0x0f, 0xef] dst src

def paddbXMMXMM (dst src : XMM) : Option Code := regReg [0x66] (.extended .NONE) [0x0f, 0xfc] dst src

def paddwXMMXMM (dst src : XMM) : Option Code := regReg [0x66] (.extended .NONE) [0x0f, 0xfd] dst src

def padddXMMXMM (dst src : XMM) : Option Code := regReg [0x66] (.extended .NONE) [0x0f, 0xfe] dst src

def paddqXMMXMM (dst src : XMM) : Option Code := regReg [0x66] (.extended .NONE) [0x0f, 0xd4] dst src

def paddsbXMMXMM (dst src : XMM) : Option Code := regReg [0x66] (.extended .NONE) [0x0f, 0xec] dst src

def paddswXMMXMM (dst src : XMM) : Option Code := regReg [0x66] (.extended .NONE) [0x0f, 0xed] dst src

def paddusbXMMXMM (dst src : XMM) : Option Code := regReg [0x66] (.extended .NONE) [0x0f, 0xdc] dst src

def padduswXMMXMM (dst src : XMM) : Option Code := regReg [0x66] (.extended .NONE) [0x0f, 0xdd] dst src

def psubbXMMXMM (dst src : XMM) : Option Code := regReg [0x66] (.extended .NONE) [0x0f, 0xf8] dst src

def psubwXMMXMM (dst src : XMM) : Option Code := regReg [0x66] (.extended .NONE) [0x0f, 0xf9] dst src

def psubdXMMXMM (dst src : XMM) : Option Code := regReg [0x66] (.extended .NONE) [0x0f, 0xfa] dst src

def psubsbXMMXMM (dst src : XMM) : Option Code := regReg [0x66] (.extended .NONE) [0x0f, 0xe8] dst src

def psubswXMMXMM (dst src : XMM) : Option Code := regReg [0x66] (.extended .NONE) [0x0f, 0xe9] dst src

def psubusbXMMXMM (dst src : XMM) : Option Code := regReg [0x66] (.extended .NONE) [0x0f, 0xd8] dst src

def psubuswXMMXMM (dst src : XMM) : Option Code := regReg [0x66] (.extended .NONE) [0x0f, 0xd9] dst src

def pmaddwdXMMXMM (dst src : XMM) : Option Code := regReg [0x66] (.extended .NONE) [0x0f, 0xf5] dst src

def pmulhwXMMXMM (dst src : XMM) : Option Code := regReg [0x66] (.extended .NONE) [0x0f, 0xe5] dst src

def pmullwXMMXMM (dst src : XMM) : Option Code := regReg [0x66] (.extended .NONE) [0x0f, 0xd5] dst src

def pmulhuw (dst src : XMM) : Option Code := regReg [0x66] (.extended .NONE) [0x0f, 0xe4] dst src

def pmuludq (dst src : XMM) : Option Code := regReg [0x66] (.extended .NONE) [0x0f, 0xf4] dst src

def pavgbXMMXMM (dst src : XMM) : Option Code := regReg [0x66] (.extended .NONE) [0x0f, 0xe0] dst src

def pavgwXMMXMM (dst src : XMM) : Option Code := regReg [0x66] (.extended .NONE) [0x0f, 0xe3] dst src

def pmaxubXMMXMM (dst src : XMM) : Option Code := regReg [0x66] (.extended .NONE) [0x0f, 0xde] dst src

def pminubXMMXMM (dst src : XMM) : Option Code := regReg [0x66] (.extended .NONE) [0x0f, 0xda] dst src

def ptest (dst src : XMM) : Option Code := regReg [0x66] (.extended .NONE) [0x0f, 0x38, 0x17] dst src

def pcmpeqbXMMXMM (dst src : XMM) : Option Code := regReg [0x66] (.extended .NONE) [0x0f, 0x74] dst src

def pcmpeqwXMMXMM (dst src : XMM) : Option Code := regReg [0x66] (.extended .NONE) [0x0f, 0x75] dst src

def pcmpeqdXMMXMM (dst src : XMM) : Option Code := regReg [0x66] (.extended .NONE) [0x0f, 0x76] dst src

def pcmpgtb (dst src : XMM) : Option Code := regReg [0x66] (.extended .NONE) [0x0f, 0x64] dst src

def pcmpgtw (dst src : XMM) : Option Code := regReg [0x66] (.extended .NONE) [0x0f, 0x65] dst src

def pcmpgtd (dst src : XMM) : Option Code := regReg [0x66] (.extended .NONE) [0x0f, 0x66] dst src

def psllwXMMXMM (dst src : XMM) : Option Code := regReg [0x66] (.extended .NONE) [0x0f, 0xf1] dst src

def psllwXMMU8 (dst : XMM) (imm : UInt8) : Option Code :=
  followed (regDigit [0x66] (.extended .NONE) [0x0f, 0x71] 0b110 dst) [imm]

def pslldXMMXMM (dst src : XMM) : Option Code := regReg [0x66] (.extended .NONE) [0x0f, 0xf2] dst src

def pslldXMMU8 (dst : XMM) (imm : UInt8) : Option Code :=
  followed (regDigit [0x66] (.extended .NONE) [0x0f, 0x72] 0b110 dst) [imm]

def psllqXMMXMM (dst src : XMM) : Option Code := regReg [0x66] (.extended .NONE) [0x0f, 0xf3] dst src

def psllqXMMU8 (dst : XMM) (imm : UInt8) : Option Code :=
  followed (regDigit [0x66] (.extended .NONE) [0x0f, 0x73] 0b110 dst) [imm]

def pslldq (dst : XMM) (imm : UInt8) : Option Code := followed (regDigit [0x66] (.extended .NONE) [0x0f, 0x73] 0b111 dst) [imm]

def psrlwXMMXMM (dst src : XMM) : Option Code := regReg [0x66] (.extended .NONE) [0x0f, 0xd1] dst src

def psrlwXMMU8 (dst : XMM) (imm : UInt8) : Option Code :=
  followed (regDigit [0x66] (.extended .NONE) [0x0f, 0x71] 0b010 dst) [imm]

def psrldXMMXMM (dst src : XMM) : Option Code := regReg [0x66] (.extended .NONE) [0x0f, 0xd2] dst src

def psrldXMMU8 (dst : XMM) (imm : UInt8) : Option Code :=
  followed (regDigit [0x66] (.extended .NONE) [0x0f, 0x72] 0b010 dst) [imm]

def psrlqXMMXMM (dst src : XMM) : Option Code := regReg [0x66] (.extended .NONE) [0x0f, 0xd3] dst src

def psrlqXMMU8 (dst : XMM) (imm : UInt8) : Option Code :=
  followed (regDigit [0x66] (.extended .NONE) [0x0f, 0x73] 0b010 dst) [imm]

def psrldq (dst : XMM) (imm : UInt8) : Option Code := followed (regDigit [0x66] (.extended .NONE) [0x0f, 0x73] 0b011 dst) [imm]

def psrawXMMXMM (dst src : XMM) : Option Code := regReg [0x66] (.extended .NONE) [0x0f, 0xe1] dst src

def psrawXMMU8 (dst : XMM) (imm : UInt8) : Option Code :=
  followed (regDigit [0x66] (.extended .NONE) [0x0f, 0x71] 0b100 dst) [imm]

def psradXMMXMM (dst src : XMM) : Option Code := regReg [0x66] (.extended .NONE) [0x0f, 0xe2] dst src

def psradXMMU8 (dst : XMM) (imm : UInt8) : Option Code :=
  followed (regDigit [0x66] (.extended .NONE) [0x0f, 0x72] 0b100 dst) [imm]

def pshufbXMMXMM (dst src : XMM) : Option Code := regReg [0x66] (.extended .NONE) [0x0f, 0x38, 0x00] dst src

def pshufd (dst src : XMM) (imm : UInt8) : Option Code := followed (regReg [0x66] (.extended .NONE) [0x0f, 0x70] dst src) [imm]

def pshuflw (dst src : XMM) (imm : UInt8) : Option Code := followed (regReg [0xf2] (.extended .NONE) [0x0f, 0x70] dst src) [imm]

def pshufhw (dst src : XMM) (imm : UInt8) : Option Code := followed (regReg [0xf3] (.extended .NONE) [0x0f, 0x70] dst src) [imm]

def pinsrw (dst : XMM) (src : R32) (imm : UInt8) : Option Code :=
  followed (regReg [0x66] (.extended .NONE) [0x0f, 0xc4] dst src) [imm]

def pextrw (dst : R32) (src : XMM) (imm : UInt8) : Option Code :=
  followed (regReg [0x66] (.extended .NONE) [0x0f, 0xc5] dst src) [imm]

def punpcklbwXMMXMM (dst src : XMM) : Option Code := regReg [0x66] (.extended .NONE) [0x0f, 0x60] dst src

def punpcklwdXMMXMM (dst src : XMM) : Option Code := regReg [0x66] (.extended .NONE) [0x0f, 0x61] dst src

def punpckldqXMMXMM (dst src : XMM) : Option Code := regReg [0x66] (.extended .NONE) [0x0f, 0x62] dst src

def punpcklqdq (dst src : XMM) : Option Code := regReg [0x66] (.extended .NONE) [0x0f, 0x6c] dst src

def punpckhbwXMMXMM (dst src : XMM) : Option Code := regReg [0x66] (.extended .NONE) [0x0f, 0x68] dst src

def punpckhwdXMMXMM (dst src : XMM) : Option Code := regReg [0x66] (.extended .NONE) [0x0f, 0x69] dst src

def punpckhdqXMMXMM (dst src : XMM) : Option Code := regReg [0x66] (.extended .NONE) [0x0f, 0x6a] dst src

def punpckhqdq (dst src : XMM) : Option Code := regReg [0x66] (.extended .NONE) [0x0f, 0x6d] dst src

def packsswbXMMXMM (dst src : XMM) : Option Code := regReg [0x66] (.extended .NONE) [0x0f, 0x63] dst src

def packssdwXMMXMM (dst src : XMM) : Option Code := regReg [0x66] (.extended .NONE) [0x0f, 0x6b] dst src

def packuswbXMMXMM (dst src : XMM) : Option Code := regReg [0x66] (.extended .NONE) [0x0f, 0x67] dst src

def packusdw (dst src : XMM) : Option Code := regReg [0x66] (.extended .NONE) [0x0f, 0x38, 0x2b] dst src

/-! ### Floating point -/

def addss (dst src : XMM) : Option Code := regReg [0xf3] (.extended .NONE) [0x0f, 0x58] dst src

def subss (dst src : XMM) : Option Code := regReg [0xf3] (.extended .NONE) [0x0f, 0x5c] dst src

def mulss (dst src : XMM) : Option Code := regReg [0xf3] (.extended .NONE) [0x0f, 0x59] dst src

def divss (dst src : XMM) : Option Code := regReg [0xf3] (.extended .NONE) [0x0f, 0x5e] dst src

def comiss (dst src : XMM) : Option Code := regReg [] (.extended .NONE) [0x0f, 0x2f] dst src

def cvtss2sd (dst src : XMM) : Option Code := regReg [0xf3] (.extended .NONE) [0x0f, 0x5a] dst src

def cvtsi2ssXMMR32 (dst : XMM) (src : R32) : Option Code := regReg [0xf3] (.extended .NONE) [0x0f, 0x2a] dst src

def cvtsi2ssXMMR64 (dst : XMM) (src : R64) : Option Code := regReg [0xf3] (.always .W) [0x0f, 0x2a] dst src

def addsd (dst src : XMM) : Option Code := regReg [0xf2] (.extended .NONE) [0x0f, 0x58] dst src

def subsd (dst src : XMM) : Option Code := regReg [0xf2] (.extended .NONE) [0x0f, 0x5c] dst src

def mulsd (dst src : XMM) : Option Code := regReg [0xf2] (.extended .NONE) [0x0f, 0x59] dst src

def divsd (dst src : XMM) : Option Code := regReg [0xf2] (.extended .NONE) [0x0f, 0x5e] dst src

def cmpsd (dst src : XMM) (imm : UInt8) : Option Code := followed (regReg [0xf2] (.extended .NONE) [0x0f, 0xc2] dst src) [imm]

def comisd (dst src : XMM) : Option Code := regReg [0x66] (.extended .NONE) [0x0f, 0x2f] dst src

def ucomisd (dst src : XMM) : Option Code := regReg [0x66] (.extended .NONE) [0x0f, 0x2e] dst src

def maxsd (dst src : XMM) : Option Code := regReg [0xf2] (.extended .NONE) [0x0f, 0x5f] dst src

def minsd (dst src : XMM) : Option Code := regReg [0xf2] (.extended .NONE) [0x0f, 0x5d] dst src

def sqrtsd (dst src : XMM) : Option Code := regReg [0xf2] (.extended .NONE) [0x0f, 0x51] dst src

def cvtsd2ss (dst src : XMM) : Option Code := regReg [0xf2] (.extended .NONE) [0x0f, 0x5a] dst src

def cvtsi2sd32 (dst : XMM) (src : R32) : Option Code := regReg [0xf2] (.extended .NONE) [0x0f, 0x2a] dst src

def cvtsi2sd64 (dst : XMM) (src : R64) : Option Code := regReg [0xf2] (.always .W) [0x0f, 0x2a] dst src

def cvttsd2si32 (dst : R32) (src : XMM) : Option Code := regReg [0xf2] (.extended .NONE) [0x0f, 0x2c] dst src

def cvttsd2si64 (dst : R64) (src : XMM) : Option Code := regReg [0xf2] (.always .W) [0x0f, 0x2c] dst src

def addps (dst src : XMM) : Option Code := regReg [] (.extended .NONE) [0x0f, 0x58] dst src

def subps (dst src : XMM) : Option Code := regReg [] (.extended .NONE) [0x0f, 0x5c] dst src

def mulps (dst src : XMM) : Option Code := regReg [] (.extended .NONE) [0x0f, 0x59] dst src

def divps (dst src : XMM) : Option Code := regReg [] (.extended .NONE) [0x0f, 0x5e] dst src

def maxps (dst src : XMM) : Option Code := regReg [] (.extended .NONE) [0x0f, 0x5f] dst src

def minps (dst src : XMM) : Option Code := regReg [] (.extended .NONE) [0x0f, 0x5d] dst src

def maxpd (dst src : XMM) : Option Code := regReg [0x66] (.extended .NONE) [0x0f, 0x5f] dst src

def minpd (dst src : XMM) : Option Code := regReg [0x66] (.extended .NONE) [0x0f, 0x5d] dst src

def cmpps (dst src : XMM) (imm : UInt8) : Option Code := followed (regReg [] (.extended .NONE) [0x0f, 0xc2] dst src) [imm]

def cvtps2dq (dst src : XMM) : Option Code := regReg [0x66] (.extended .NONE) [0x0f, 0x5b] dst src

def cvttps2dq (dst src : XMM) : Option Code := regReg [0xf3] (.extended .NONE) [0x0f, 0x5b] dst src

def cvttpd2dq (dst src : XMM) : Option Code := regReg [0x66] (.extended .NONE) [0x0f, 0xe6] dst src

def cvtdq2ps (dst src : XMM) : Option Code := regReg [] (.extended .NONE) [0x0f, 0x5b] dst src

def addpd (dst src : XMM) : Option Code := regReg [0x66] (.extended .NONE) [0x0f, 0x58] dst src

def subpd (dst src : XMM) : Option Code := regReg [0x66] (.extended .NONE) [0x0f, 0x5c] dst src

def mulpd (dst src : XMM) : Option Code := regReg [0x66] (.extended .NONE) [0x0f, 0x59] dst src

def divpd (dst src : XMM) : Option Code := regReg [0x66] (.extended .NONE) [0x0f, 0x5e] dst src

def andpd (dst src : XMM) : Option Code := regReg [0x66] (.extended .NONE) [0x0f, 0x54] dst src

def andnpd (dst src : XMM) : Option Code := regReg [0x66] (.extended .NONE) [0x0f, 0x55] dst src

def orpd (dst src : XMM) : Option Code := regReg [0x66] (.extended .NONE) [0x0f, 0x56] dst src

def xorpd (dst src : XMM) : Option Code := regReg [0x66] (.extended .NONE) [0x0f, 0x57] dst src

def shufps (dst src : XMM) (imm : UInt8) : Option Code := followed (regReg [] (.extended .NONE) [0x0f, 0xc6] dst src) [imm]

def shufpd (dst src : XMM) (imm : UInt8) : Option Code := followed (regReg [0x66] (.extended .NONE) [0x0f, 0xc6] dst src) [imm]

def unpckhps (dst src : XMM) : Option Code := regReg [] (.extended .NONE) [0x0f, 0x15] dst src

def unpckhpd (dst src : XMM) : Option Code := regReg [0x66] (.extended .NONE) [0x0f, 0x15] dst src

def unpcklps (dst src : XMM) : Option Code := regReg [] (.extended .NONE) [0x0f, 0x14] dst src

def unpcklpd (dst src : XMM) : Option Code := regReg [0x66] (.extended .NONE) [0x0f, 0x14] dst src

def movddup (dst src : XMM) : Option Code := regReg [0xf2] (.extended .NONE) [0x0f, 0x12] dst src

/-! ### Later extensions -/

def palignrMMXMMXU8 (dst src : MMX) (imm : UInt8) : Option Code := followed (regReg [] .never [0x0f, 0x3a, 0x0f] dst src) [imm]

def phaddwMMXMMX (dst src : MMX) : Option Code := regReg [] .never [0x0f, 0x38, 0x01] dst src

def phadddMMXMMX (dst src : MMX) : Option Code := regReg [] .never [0x0f, 0x38, 0x02] dst src

def pmaddusbwMMXMMX (dst src : MMX) : Option Code := regReg [] .never [0x0f, 0x38, 0x04] dst src

def pmulhrswMMXMMX (dst src : MMX) : Option Code := regReg [] .never [0x0f, 0x38, 0x0B] dst src

def palignrXMMXMMU8 (dst src : XMM) (imm : UInt8) : Option Code :=
  followed (regReg [0x66] (.extended .NONE) [0x0f, 0x3a, 0x0f] dst src) [imm]

def phaddwXMMXMM (dst src : XMM) : Option Code := regReg [0x66] (.extended .NONE) [0x0f, 0x38, 0x01] dst src

def phadddXMMXMM (dst src : XMM) : Option Code := regReg [0x66] (.extended .NONE) [0x0f, 0x38, 0x02] dst src

def pmaddusbwXMMXMM (dst src : XMM) : Option Code := regReg [0x66] (.extended .NONE) [0x0f, 0x38, 0x04] dst src

def pmulhrswXMMXMM (dst src : XMM) : Option Code := regReg [0x66] (.extended .NONE) [0x0f, 0x38, 0x0B] dst src

def pmaxsd (dst src : XMM) : Option Code := regReg [0x66] (.extended .NONE) [0x0f, 0x38, 0x3D] dst src

def pminsd (dst src : XMM) : Option Code := regReg [0x66] (.extended .NONE) [0x0f, 0x38, 0x39] dst src

def pmovzxbw (dst src : XMM) : Option Code := regReg [0x66] (.extended .NONE) [0x0f, 0x38, 0x30] dst src

def roundps (dst src : XMM) (imm : UInt8) : Option Code :=
  followed (regReg [0x66] (.extended .NONE) [0x0f, 0x3a, 0x08] dst src) [imm]

def roundpd (dst src : XMM) (imm : UInt8) : Option Code :=
  followed (regReg [0x66] (.extended .NONE) [0x0f, 0x3a, 0x09] dst src) [imm]

def pmulld (dst src : XMM) : Option Code := regReg [0x66] (.extended .NONE) [0x0f, 0x38, 0x40] dst src

def pextrd (dst : R32) (src : XMM) (imm : UInt8) : Option Code :=
  followed (regReg [0x66] (.extended .NONE) [0x0f, 0x3a, 0x16] src dst) [imm]

def pextrq (dst : R64) (src : XMM) (imm : UInt8) : Option Code :=
  followed (regReg [0x66] (.extended .W) [0x0f, 0x3a, 0x16] src dst) [imm]

def pinsrd (dst : XMM) (src : R32) (imm : UInt8) : Option Code :=
  followed (regReg [0x66] (.extended .NONE) [0x0f, 0x3a, 0x22] dst src) [imm]

def blendvps (dst src : XMM) : Option Code := regReg [0x66] (.extended .NONE) [0x0f, 0x38, 0x14] dst src

def pblendvb (dst src : XMM) : Option Code := regReg [0x66] (.extended .NONE) [0x0f, 0x38, 0x10] dst src

end Assembler

end X64Emulator
