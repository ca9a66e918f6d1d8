import X64Emulator.CpuImpl
import X64Emulator.Execution
import X64Emulator.Lib.Lanes
import X64Emulator.Mmu

/-!
# The CPU of a thread

The registers and flags of the interpreter, and how its handlers read and write operands. An access to memory asks the table of
the unit about its first byte. The other bytes are left to the host, whose mappings carry the protections of the regions: an
access that leaves them ends the emulator. A handler that does not come to its end is `none`.
-/

namespace X64Emulator

open Ir (R8 R16 R32 R64 Segment Mem)

namespace AddressSpace

/-- Every byte of a range lies in a region that gives a right. -/
def allows (s : AddressSpace) (right : Prot → Bool) (address size : Nat) : Bool :=
  (List.range size).all fun i => (s.findAddress (address + i)).any fun region => right region.prot

/-- `Mmu::read`, for a type of `w` bits -/
def read (s : AddressSpace) (w address : Nat) : Option (BitVec w) := do
  verify (s.allows Prot.read address (w / 8))
  some (Lanes.join w (w / 8) fun i => (s.memory (address + i)).toBitVec)

/-- `Mmu::write` -/
def write {w : Nat} (s : AddressSpace) (address : Nat) (value : BitVec w) : Option AddressSpace := do
  verify (s.allows Prot.write address (w / 8))
  some { s with
    memory := fun a => if address ≤ a ∧ a < address + w / 8 then ⟨Lanes.lane 8 value (a - address)⟩ else s.memory a }

end AddressSpace

/-- The registers of a width. -/
abbrev OperandWidth.Reg : OperandWidth → Type
  | .u8 => R8
  | .u16 => R16
  | .u32 => R32
  | .u64 => R64

/-- An operand that is a register or lies in memory. -/
inductive RM (width : OperandWidth) where
  | reg (reg : width.Reg)
  | mem (mem : Mem)

/-- What the interpreter keeps of a thread, less the registers for packed and floating point values. -/
structure Cpu where
  gpr : R64 → BitVec 64
  flags : Flags
  segmentBase : Segment → BitVec 64
  mmu : AddressSpace

namespace Cpu

variable {width : OperandWidth} {w : Nat}

/-! ## Registers -/

def get8 (c : Cpu) (reg : R8) : BitVec 8 :=
  match reg with
  | .ah | .bh | .ch | .dh => (c.gpr reg.containingRegister >>> 8).setWidth 8
  | _ => (c.gpr reg.containingRegister).setWidth 8

def get16 (c : Cpu) (reg : R16) : BitVec 16 := (c.gpr reg.containingRegister).setWidth 16

def get32 (c : Cpu) (reg : R32) : BitVec 32 := (c.gpr reg.containingRegister).setWidth 32

def get64 (c : Cpu) (reg : R64) : BitVec 64 := c.gpr reg

def get (c : Cpu) : (width : OperandWidth) → width.Reg → BitVec width.bits
  | .u8 => c.get8
  | .u16 => c.get16
  | .u32 => c.get32
  | .u64 => c.get64

/-- A register of 64 bits gets a value. -/
def setGpr (c : Cpu) (reg : R64) (value : BitVec 64) : Cpu := { c with gpr := fun r => if r = reg then value else c.gpr r }

def set8 (c : Cpu) (reg : R8) (value : BitVec 8) : Option Cpu :=
  let old := c.gpr reg.containingRegister
  match reg with
  | .ah | .bh | .ch | .dh =>
    some (c.setGpr reg.containingRegister ((old &&& 0xFFFFFFFFFFFF00FF) ||| value.setWidth 64 <<< 8))
  | _ => some (c.setGpr reg.containingRegister ((old &&& 0xFFFFFFFFFFFFFF00) ||| value.setWidth 64))

def set16 (c : Cpu) (reg : R16) (value : BitVec 16) : Option Cpu :=
  some (c.setGpr reg.containingRegister ((c.gpr reg.containingRegister &&& 0xFFFFFFFFFFFF0000) ||| value.setWidth 64))

def set32 (c : Cpu) (reg : R32) (value : BitVec 32) : Option Cpu := do
  verify (reg ≠ .eiz)
  some (c.setGpr reg.containingRegister (value.setWidth 64))

def set64 (c : Cpu) (reg : R64) (value : BitVec 64) : Option Cpu := do
  verify (reg ≠ .zero)
  some (c.setGpr reg value)

def set (c : Cpu) : (width : OperandWidth) → width.Reg → BitVec width.bits → Option Cpu
  | .u8 => c.set8
  | .u16 => c.set16
  | .u32 => c.set32
  | .u64 => c.set64

def setFlags (c : Cpu) (flags : Flags) : Cpu := { c with flags := flags }

/-! ## Memory -/

def resolve (c : Cpu) (mem : Mem) : BitVec 64 :=
  c.segmentBase mem.segment +
    (c.gpr mem.encoding.base + BitVec.ofNat 64 mem.encoding.scale.toNat * c.gpr mem.encoding.index +
      BitVec.ofInt 64 mem.encoding.displacement.toInt)

/-- `get` of a pointer to `w` bits -/
def getPtr (c : Cpu) (w : Nat) (ptr : BitVec 64) : Option (BitVec w) := c.mmu.read w ptr.toNat

/-- `set` of a pointer -/
def setPtr (c : Cpu) (ptr : BitVec 64) (value : BitVec w) : Option Cpu := do
  let mmu ← c.mmu.write ptr.toNat value
  some { c with mmu := mmu }

def getRM (c : Cpu) : RM width → Option (BitVec width.bits)
  | .reg reg => some (c.get width reg)
  | .mem mem => c.getPtr width.bits (c.resolve mem)

def setRM (c : Cpu) : RM width → BitVec width.bits → Option Cpu
  | .reg reg, value => c.set width reg value
  | .mem mem, value => c.setPtr (c.resolve mem) value

end Cpu

end X64Emulator
