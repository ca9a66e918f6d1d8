import X64Emulator.BitTests
import X64Emulator.Compiler

/-!
# Compiled bit tests

The instructions the compiler emits for the bit tests it knows. The registers of the guest are read from the array at `REG_BASE`
and its memory from `MEM_BASE` on, into registers of the host; there the test is made, and the result is written back.
-/

namespace X64Emulator

open Ir

namespace Compiler

/-- `Compiler::Mem` -/
structure MemAddr where
  base : Reg
  offset : Int32

def get32 : Reg → R32
  | .GPR0 => .r8d
  | .GPR1 => .r9d
  | .MEM_ADDR => .r10d
  | .REG_BASE => .esi
  | .MMX_BASE => .r11d
  | .XMM_BASE => .edx
  | .MEM_BASE => .ecx

def registerOffset (reg : R64) : Int32 := 8 * Int32.ofNat reg.ctorIdx

def readReg32 (dst : Reg) (src : R32) : Instruction :=
  { op := .mov, out := .r32 (get32 dst), in1 := .m32 ⟨.cs, make64 (get .REG_BASE) (registerOffset src.containingRegister)⟩ }

/-- All 64 bits are written, so that the upper half is zero. -/
def writeReg32 (dst : R32) (src : Reg) : Instruction :=
  { op := .mov, out := .m64 ⟨.cs, make64 (get .REG_BASE) (registerOffset dst.containingRegister)⟩, in1 := .r64 (get src) }

def readReg64 (dst : Reg) (src : R64) : Instruction :=
  { op := .mov, out := .r64 (get dst), in1 := .m64 ⟨.cs, make64 (get .REG_BASE) (registerOffset src)⟩ }

def writeReg64 (dst : R64) (src : Reg) : Instruction :=
  { op := .mov, out := .m64 ⟨.cs, make64 (get .REG_BASE) (registerOffset dst)⟩, in1 := .r64 (get src) }

/-- The operand of an access to the memory of the guest. -/
def guest (address : MemAddr) : Mem := ⟨.cs, make64Index (get .MEM_BASE) (get address.base) 1 address.offset⟩

def readMem32 (dst : Reg) (address : MemAddr) : Instruction :=
  { op := .mov, out := .r32 (get32 dst), in1 := .m32 (guest address) }

def writeMem32 (address : MemAddr) (src : Reg) : Instruction :=
  { op := .mov, out := .m32 (guest address), in1 := .r32 (get32 src) }

def readMem64 (dst : Reg) (address : MemAddr) : Instruction :=
  { op := .mov, out := .r64 (get dst), in1 := .m64 (guest address) }

def writeMem64 (address : MemAddr) (src : Reg) : Instruction :=
  { op := .mov, out := .m64 (guest address), in1 := .r64 (get src) }

def readFsBase (dst : Reg) : Instruction := { op := .mov, out := .r64 (get dst), in1 := .m64 ⟨.cs, make64 .rdi 0x30⟩ }

/-- `dst` gets a sum of registers and a displacement. -/
def leaIndex (dst base index : Reg) (scale : UInt8) (offset : Int32) : Instruction :=
  { op := .lea, out := .r64 (get dst), in1 := .m64 ⟨.unk, make64Index (get base) (get index) scale offset⟩ }

/-- The instructions that compute an address, and the operand to use behind them. -/
def getAddress (dst tmp : Reg) (mem : Mem) : List Instruction × MemAddr :=
  let index := if mem.encoding.index = .zero then []
    else [readReg64 tmp mem.encoding.index, leaIndex dst dst tmp mem.encoding.scale 0]
  if mem.segment = .fs then
    if mem.encoding.base = .zero then (readFsBase dst :: index, ⟨dst, mem.encoding.displacement⟩)
    else
      (readFsBase dst :: index ++ [readReg64 tmp mem.encoding.base, leaIndex dst dst tmp 1 mem.encoding.displacement],
        ⟨dst, 0⟩)
  else if mem.encoding.index = .zero then
    ([readReg64 dst mem.encoding.base], ⟨dst, mem.encoding.displacement⟩)
  else
    ([readReg64 dst mem.encoding.base, readReg64 tmp mem.encoding.index,
      leaIndex dst dst tmp mem.encoding.scale mem.encoding.displacement], ⟨dst, 0⟩)

def forRM32RM32 (dst src : RM .u32) (func : Reg → Reg → Instruction) (writeResultBack : Bool) : Option (List Instruction) :=
  match dst, src with
  | .reg dst, .reg src =>
    some ([readReg32 .GPR0 dst, readReg32 .GPR1 src, func .GPR0 .GPR1] ++
      if writeResultBack then [writeReg32 dst .GPR0] else [])
  | .mem mem, .reg src =>
    if mem.encoding.index = .rip then none
    else
      let (code, addr) := getAddress .MEM_ADDR .GPR0 mem
      some (code ++ [readMem32 .GPR0 addr, readReg32 .GPR1 src, func .GPR0 .GPR1] ++
        if writeResultBack then [writeMem32 addr .GPR0] else [])
  | .reg dst, .mem mem =>
    if mem.encoding.index = .rip then none
    else
      let (code, addr) := getAddress .MEM_ADDR .GPR0 mem
      some (code ++ [readMem32 .GPR1 addr, readReg32 .GPR0 dst, func .GPR0 .GPR1] ++
        if writeResultBack then [writeReg32 dst .GPR0] else [])
  | .mem _, .mem _ => none

def forRM64RM64 (dst src : RM .u64) (func : Reg → Reg → Instruction) (writeResultBack : Bool) : Option (List Instruction) :=
  match dst, src with
  | .reg dst, .reg src =>
    some ([readReg64 .GPR0 dst, readReg64 .GPR1 src, func .GPR0 .GPR1] ++
      if writeResultBack then [writeReg64 dst .GPR0] else [])
  | .mem mem, .reg src =>
    let (code, addr) := getAddress .MEM_ADDR .GPR0 mem
    some (code ++ [readMem64 .GPR0 addr, readReg64 .GPR1 src, func .GPR0 .GPR1] ++
      if writeResultBack then [writeMem64 addr .GPR0] else [])
  | .reg dst, .mem mem =>
    let (code, addr) := getAddress .MEM_ADDR .GPR0 mem
    some (code ++ [readMem64 .GPR1 addr, readReg64 .GPR0 dst, func .GPR0 .GPR1] ++
      if writeResultBack then [writeReg64 dst .GPR0] else [])
  | .mem _, .mem _ => none

def tryCompileBtRM32R32 (dst : RM .u32) (src : R32) : Option (List Instruction) :=
  forRM32RM32 dst (.reg src) (fun dst src =>
    { op := .bt, out := .r32 (get32 dst), in1 := .r32 (get32 dst), in2 := .r32 (get32 src) }) false

def tryCompileBtRM64R64 (dst : RM .u64) (src : R64) : Option (List Instruction) :=
  forRM64RM64 dst (.reg src) (fun dst src =>
    { op := .bt, out := .r64 (get dst), in1 := .r64 (get dst), in2 := .r64 (get src) }) false

def tryCompileBtrRM64R64 (dst : RM .u64) (src : R64) : Option (List Instruction) :=
  forRM64RM64 dst (.reg src) (fun dst src =>
    { op := .btr, out := .r64 (get dst), in1 := .r64 (get dst), in2 := .r64 (get src) }) true

def tryCompileBtsRM64R64 (dst : RM .u64) (src : R64) : Option (List Instruction) :=
  forRM64RM64 dst (.reg src) (fun dst src =>
    { op := .bts, out := .r64 (get dst), in1 := .r64 (get dst), in2 := .r64 (get src) }) true

end Compiler

/-- The bit tests that the compiler knows, with the index in a register. -/
def BitTest.tryCompile : BitTest → (width : BitWidth) → RM width.operand → width.operand.Reg → Option (List Instruction)
  | .bt, .u32, dst, src => Compiler.tryCompileBtRM32R32 dst src
  | .bt, .u64, dst, src => Compiler.tryCompileBtRM64R64 dst src
  | .btr, .u64, dst, src => Compiler.tryCompileBtrRM64R64 dst src
  | .bts, .u64, dst, src => Compiler.tryCompileBtsRM64R64 dst src
  | _, _, _, _ => none

end X64Emulator
