import X64Emulator.Ir
import Mathlib.Data.BitVec

/-!
# What instructions do

The intermediate representation means what the host makes of it. A state of the host is a byte for each part of a register and for
each address of its memory. Moves are given in full. Of any other instruction only the bytes it reads and writes are given, as
its documentation has them: what it writes is some function of what it reads. Faults and the control words of the floating point
units are left out.
-/

namespace X64Emulator

namespace Ir

/-- One byte of the state of the host. -/
inductive Loc where
  | gpr (reg : R64) (i : Nat)
  | mmx (reg : MMX) (i : Nat)
  | xmm (reg : XMM) (i : Nat)
  | flags (i : Nat)
  | mem (address : BitVec 64)
deriving DecidableEq

abbrev State := Loc → UInt8

/-- What the representation does not say: the segment bases, and the values that instructions other than moves write. -/
structure Cpu where
  fsBase : BitVec 64
  gsBase : BitVec 64
  effect : Instruction → State → State

/-- In 64 bit mode the other segments begin at zero. -/
def Cpu.segmentBase (cpu : Cpu) : Segment → BitVec 64
  | .fs => cpu.fsBase
  | .gs => cpu.gsBase
  | _ => 0

/-- The number whose bytes are given, the lowest first. -/
def littleEndian (byte : Nat → UInt8) : Nat → Nat
  | 0 => 0
  | n + 1 => littleEndian byte n + (byte n).toNat * 256 ^ n

def regValue (s : State) (reg : R64) : BitVec 64 :=
  if reg = .zero then 0 else BitVec.ofNat 64 (littleEndian (fun i => s (.gpr reg i)) 8)

def Mem.address (cpu : Cpu) (s : State) (m : Mem) : BitVec 64 :=
  cpu.segmentBase m.segment + regValue s m.encoding.base +
    regValue s m.encoding.index * BitVec.ofNat 64 m.encoding.scale.toNat + BitVec.ofInt 64 m.encoding.displacement.toInt

/-- Where the bytes of an operand are: in a register, from one of its bytes on, or in memory. -/
inductive Place where
  | gpr (reg : R64) (offset : Nat)
  | mmx (reg : MMX)
  | xmm (reg : XMM)
  | mem (m : Mem)
  | nowhere
deriving DecidableEq

namespace Place

/-- The byte of a place that a location is. -/
def index (cpu : Cpu) (s : State) : Place → Loc → Option Nat
  | gpr reg offset, .gpr reg' i => if reg' = reg ∧ offset ≤ i then some (i - offset) else none
  | mmx reg, .mmx reg' i => if reg' = reg then some i else none
  | xmm reg, .xmm reg' i => if reg' = reg then some i else none
  | mem m, .mem address => some (address - m.address cpu s).toNat
  | _, _ => none

/-- The location of a byte of a place. -/
def loc (cpu : Cpu) (s : State) : Place → Nat → Option Loc
  | gpr reg offset, i => some (.gpr reg (offset + i))
  | mmx reg, i => some (.mmx reg i)
  | xmm reg, i => some (.xmm reg i)
  | mem m, i => some (.mem (m.address cpu s + BitVec.ofNat 64 i))
  | nowhere, _ => none

end Place

/-- The second byte of four registers has a name of its own. -/
def R8.offset : R8 → Nat
  | .ah | .ch | .dh | .bh => 1
  | _ => 0

namespace Operand

def place : Operand → Place
  | r8 reg => .gpr reg.containingRegister reg.offset
  | r16 reg => .gpr reg.containingRegister 0
  | r32 reg => .gpr reg.containingRegister 0
  | r64 reg => .gpr reg 0
  | mmx reg => .mmx reg
  | xmm reg => .xmm reg
  | m8 m | m16 m | m32 m | m64 m | m128 m => .mem m
  | _ => .nowhere

/-- How many bytes a write of the operand changes: a write of 32 bits to a register clears its upper half. -/
def span : Operand → Nat
  | r32 _ => 8
  | op => op.size

/-- The bytes of an operand. -/
def covers (cpu : Cpu) (s : State) (op : Operand) (l : Loc) : Bool := (op.place.index cpu s l).any (· < op.size)

/-- The bytes that a write of the operand changes. -/
def written (cpu : Cpu) (s : State) (op : Operand) (l : Loc) : Bool := (op.place.index cpu s l).any (· < op.span)

/-- The registers that give a memory operand its address. -/
def addressed (op : Operand) (l : Loc) : Bool :=
  match op.memory, l with
  | some m, .gpr reg i => i < 8 && reg ≠ .zero && (reg = m.encoding.base || reg = m.encoding.index)
  | _, _ => false

/-- The value of an immediate, which is sign extended. -/
def immediate : Operand → Option Int
  | u8 v => some v.toInt8.toInt
  | u16 v => some v.toInt16.toInt
  | u32 v => some v.toInt32.toInt
  | u64 v => some v.toInt64.toInt
  | _ => none

/-- A byte of the value of an operand; behind its last byte, a register or memory is zero extended. -/
def value (cpu : Cpu) (s : State) (op : Operand) (i : Nat) : UInt8 :=
  match op.immediate with
  | some v => UInt8.ofNat ((v / 256 ^ i) % 256).toNat
  | none => if i < op.size then ((op.place.loc cpu s i).map s).getD 0 else 0

end Operand

/-- A move of `src` to `dst`. -/
def move (cpu : Cpu) (dst src : Operand) (s : State) : State := fun l =>
  match dst.place.index cpu s l with
  | some i => if i < dst.span then (if i < dst.size then src.value cpu s i else 0) else s l
  | none => s l

namespace Instruction

def isMove (ins : Instruction) : Bool := ins.op = .mov || ins.op = .mova || ins.op = .movu

/-- The instructions that change the flags, with those that `canModifyFlags` does not name. -/
def writesFlags (ins : Instruction) : Bool :=
  ins.canModifyFlags || match ins.op with
    | .cmp | .mul | .imul | .div | .idiv | .ptest => true
    | _ => false

/-- Compare and exchange compares with `rax`, and loads it. -/
def comparesRax (ins : Instruction) : Bool :=
  match ins.op with
  | .cmpxchg | .lockcmpxchg => true
  | _ => false

/-- The second operand of an exchange is written as well. -/
def writesIn2 (ins : Instruction) : Bool :=
  match ins.op with
  | .xchg | .lockxadd => true
  | _ => false

/-- String instructions find their memory by registers. -/
def isString (ins : Instruction) : Bool :=
  match ins.op with
  | .repstos8 | .repstos32 | .repstos64 | .repmovs8 | .repmovs16 | .repmovs32 | .repmovs64 => true
  | _ => false

/-- String instructions go in the direction that the flags say. -/
def readsFlags (ins : Instruction) : Bool :=
  ins.condition.isSome || ins.isString || match ins.op with
    | .adc | .sbb | .pushf => true
    | _ => false

/-- A pop to memory takes the address behind the move of the stack pointer. -/
def usesMemory (ins : Instruction) : Bool := ins.isString || (ins.op = .pop && ins.out.isMemory)

/-- The first operand of a push stands for the stack: it is not what is written. -/
def pushes (ins : Instruction) : Bool :=
  match ins.op with
  | .push | .pushf => true
  | _ => false

/-- Code that is not in the block may run. -/
def leaves (ins : Instruction) : Bool :=
  match ins.op with
  | .jcc | .jmp | .jmpInd | .call | .ret | .udN => true
  | _ => false

/-- The eight bytes below the stack pointer. -/
def stackSlot (s : State) (l : Loc) : Bool :=
  match l with
  | .mem a => (a - (regValue s .rsp - 8)).toNat < 8
  | _ => false

/-- What an instruction uses without naming it, for reading and for writing. -/
def uses (ins : Instruction) (l : Loc) : Bool :=
  ins.leaves || match l with
    | .gpr reg i => i < 8 && (ins.impactedRegisters64.contains reg || (ins.comparesRax && reg = .rax) ||
        (ins.pushes && reg = .rsp))
    | .flags _ => ins.writesFlags
    | .mem _ => ins.usesMemory
    | _ => false

/-- An operand that is both read and written may be left as it is, with the rest of its register. -/
def reads (cpu : Cpu) (ins : Instruction) (s : State) (l : Loc) : Bool :=
  ins.in1.covers cpu s l || ins.in2.covers cpu s l || ins.in3.covers cpu s l ||
    ins.out.addressed l || ins.in1.addressed l || ins.in2.addressed l || ins.in3.addressed l ||
    (ins.in1 = ins.out && ins.out.written cpu s l) || (ins.readsFlags && match l with | .flags _ => true | _ => false) ||
    ins.uses l

def writes (cpu : Cpu) (ins : Instruction) (s : State) (l : Loc) : Bool :=
  (!ins.pushes && ins.out.written cpu s l) || (ins.writesIn2 && ins.in2.written cpu s l) || (ins.pushes && stackSlot s l) ||
    ins.uses l

/-- The state with only what the instruction reads. -/
def view (cpu : Cpu) (ins : Instruction) (s : State) : State := fun l => if ins.reads cpu s l then s l else 0

def exec (cpu : Cpu) (ins : Instruction) (s : State) : State :=
  if ins.isMove then move cpu ins.out ins.in1 s
  else fun l => if ins.writes cpu s l then cpu.effect ins (ins.view cpu s) l else s l

end Instruction

/-- A block without jumps, from its first instruction to its last. -/
def run (cpu : Cpu) (instructions : List Instruction) (s : State) : State :=
  instructions.foldl (fun s ins => ins.exec cpu s) s

end Ir

end X64Emulator
