import X64Emulator.CpuImpl
import X64Emulator.Ir
import X64Emulator.Lib.Windows
import Mathlib.Logic.Relation

/-!
# The host machine

What the host does with the instructions of compiled code, for those that the code studied here consists of. A state has the
registers, the flags, and the memory with what the host lets the code do to each of its bytes: an access that is not allowed ends
the emulator. Flags that the documentation of an instruction leaves undefined stay as they are. An instruction that is not listed
has no result.
-/

namespace X64Emulator

namespace Ir

structure HostState where
  gpr : R64 → BitVec 64
  flags : Flags
  memory : BitVec 64 → BitVec 8
  readable : BitVec 64 → Bool
  writable : BitVec 64 → Bool

namespace HostState

/-- The window of the bytes of a width at an address. -/
def bytesAt (address : BitVec 64) (width : OperandWidth) : Window (BitVec 64) (width.bits / 8) :=
  Window.wrapping address (by cases width <;> decide)

def get (s : HostState) (reg : R64) : BitVec 64 := if reg = .zero then 0 else s.gpr reg

def set (s : HostState) (reg : R64) (value : BitVec 64) : HostState :=
  { s with gpr := fun r => if r = reg then value else s.gpr r }

def mayRead (s : HostState) (address : BitVec 64) (n : Nat) : Bool :=
  (List.range n).all fun i => s.readable (address + BitVec.ofNat 64 i)

def mayWrite (s : HostState) (address : BitVec 64) (n : Nat) : Bool :=
  (List.range n).all fun i => s.writable (address + BitVec.ofNat 64 i)

def load (s : HostState) (width : OperandWidth) (address : BitVec 64) : Option (BitVec width.bits) :=
  if s.mayRead address (width.bits / 8) then some ((bytesAt address width).load width.bits s.memory) else none

def store (s : HostState) (width : OperandWidth) (address : BitVec 64) (value : BitVec width.bits) : Option HostState :=
  if s.mayWrite address (width.bits / 8) then some { s with memory := (bytesAt address width).store s.memory value } else none

def load32 (s : HostState) (address : BitVec 64) : Option (BitVec 32) := s.load .u32 address

def load64 (s : HostState) (address : BitVec 64) : Option (BitVec 64) := s.load .u64 address

def store32 (s : HostState) (address : BitVec 64) (value : BitVec 32) : Option HostState := s.store .u32 address value

def store64 (s : HostState) (address : BitVec 64) (value : BitVec 64) : Option HostState := s.store .u64 address value

/-- The address of a memory operand; compiled code does not use the segments that have a base. -/
def address (s : HostState) (m : Mem) : Option (BitVec 64) :=
  match m.segment with
  | .fs | .gs => none
  | _ => some (s.get m.encoding.base + s.get m.encoding.index * BitVec.ofNat 64 m.encoding.scale.toNat +
      BitVec.ofInt 64 m.encoding.displacement.toInt)

/-- The flags that a comparison leaves. -/
def compared (s : HostState) (a b : BitVec 64) : HostState := { s with flags := CpuImpl.cmp64 a b s.flags }

/-- The flags that an operation on the bits leaves. -/
def tested (s : HostState) (res : BitVec 64) : HostState :=
  { s with
    flags := { s.flags with
      overflow := false
      carry := false
      sign := res.msb
      zero := res = 0
      parity := Flags.computeParity (res.setWidth 8) } }

def setCarry (s : HostState) (carry : Bool) : HostState := { s with flags := { s.flags with carry := carry } }

/-- A push moves the stack pointer down, then writes. -/
def push (s : HostState) (value : BitVec 64) : Option HostState :=
  (s.store64 (s.gpr .rsp - 8) value).map fun s' => s'.set .rsp (s.gpr .rsp - 8)

/-- A pop reads, moves the stack pointer up, and then sets the register. -/
def pop (s : HostState) (reg : R64) : Option HostState :=
  (s.load64 (s.gpr .rsp)).map fun value => (s.set .rsp (s.gpr .rsp + 8)).set reg value

/-- The instructions that do not jump. -/
def exec (s : HostState) (ins : Instruction) : Option HostState :=
  match ins.op, ins.out, ins.in1, ins.in2 with
  | .mov, .r64 dst, .r64 src, _ => some (s.set dst (s.get src))
  | .mov, .r64 dst, .m64 src, _ => (s.address src).bind fun a => (s.load64 a).map (s.set dst ·)
  | .mov, .m64 dst, .r64 src, _ => (s.address dst).bind fun a => s.store64 a (s.get src)
  | .mov, .r32 dst, .m32 src, _ =>
    (s.address src).bind fun a => (s.load32 a).map fun value => s.set dst.containingRegister (value.setWidth 64)
  | .mov, .m32 dst, .r32 src, _ => (s.address dst).bind fun a => s.store32 a ((s.get src.containingRegister).setWidth 32)
  | .lea, .r64 dst, .m64 src, _ => (s.address src).map (s.set dst ·)
  | .bt, _, .r32 base, .r32 index =>
    let x := (s.get base.containingRegister).setWidth 32
    let k := ((s.get index.containingRegister).setWidth 32).toNat % 32
    some (s.setCarry (x.getLsbD k))
  | .bt, _, .r64 base, .r64 index => some (s.setCarry ((s.get base).getLsbD ((s.get index).toNat % 64)))
  | .btr, .r64 dst, .r64 base, .r64 index =>
    let k := (s.get index).toNat % 64
    some ((s.setCarry ((s.get base).getLsbD k)).set dst (Bits.setBit (s.get base) k false))
  | .bts, .r64 dst, .r64 base, .r64 index =>
    let k := (s.get index).toNat % 64
    some ((s.setCarry ((s.get base).getLsbD k)).set dst (Bits.setBit (s.get base) k true))
  | .xor, .r64 dst, .r64 a, .r64 b => some ((s.tested (s.get a ^^^ s.get b)).set dst (s.get a ^^^ s.get b))
  | .cmp, _, .r64 a, .r64 b => some (s.compared (s.get a) (s.get b))
  | .test, _, .r64 a, .r64 b => some (s.tested (s.get a &&& s.get b))
  | .inc, .r64 dst, .r64 src, _ =>
    some ({ s with flags := (CpuImpl.inc64 (s.get src) s.flags).2 }.set dst (s.get src + 1))
  | .push, _, .r64 src, _ => s.push (s.get src)
  | .pop, .r64 dst, _, _ => s.pop dst
  | _, _, _, _ => none

/-- A list of instructions that do not jump. -/
def execAll (s : HostState) (instructions : List Instruction) : Option HostState := instructions.foldlM exec s

end HostState

/-- When a conditional jump is taken. -/
def Cond.holds (flags : Flags) : Cond → Bool
  | .a | .nbe => !flags.carry && !flags.zero
  | .ae | .nb => !flags.carry
  | .b => flags.carry
  | .be => flags.carry || flags.zero
  | .e => flags.zero
  | .ne => !flags.zero
  | .g => !flags.zero && flags.sign == flags.overflow
  | .ge => flags.sign == flags.overflow
  | .l => flags.sign != flags.overflow
  | .le => flags.zero || flags.sign != flags.overflow
  | .o => flags.overflow
  | .no => !flags.overflow
  | .p | .u => flags.parity
  | .np | .nu => !flags.parity
  | .s => flags.sign
  | .ns => !flags.sign

namespace IR

/-- The instruction at a position is executed, with the position it leads to. -/
def step (ir : IR) (pc : Nat) (s : HostState) : Option (Nat × HostState) :=
  ir.instructions[pc]?.bind fun ins =>
    match ins.op, ins.in1, ins.condition with
    | .jmp, .labelIndex label, _ => ir.labels[label.toNat]?.map (·, s)
    | .jcc, .labelIndex label, some cond =>
      if cond.holds s.flags then ir.labels[label.toNat]?.map (·, s) else some (pc + 1, s)
    | _, _, _ => (s.exec ins).map (pc + 1, ·)

/-- The block leads from a position and a state to another position and another state. -/
def Reaches (ir : IR) : Nat × HostState → Nat × HostState → Prop :=
  Relation.ReflTransGen fun a b => ir.step a.1 a.2 = some b

/-- The instructions of a part stand in a block from a position on, and its labels are the first ones of the block. -/
structure Contains (ir : IR) (start : Nat) (part : IR) : Prop where
  instructions : ∀ (i : Nat) ins, part.instructions[i]? = some ins → ir.instructions[start + i]? = some ins
  labels : ∀ (l : Nat) position, part.labels[l]? = some position → ir.labels[l]? = some (start + position)

end IR

end Ir

end X64Emulator
