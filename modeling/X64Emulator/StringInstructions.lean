import X64Emulator.Handlers
import X64Emulator.Lib.BlockCopy
import X64Emulator.Lib.CountedLoop

/-!
# String instructions

The handlers with a repetition prefix, and the instructions as the architecture defines them: one element after the other, with
the registers brought up to date each time.
-/

namespace X64Emulator

open Ir

/-- `Mmu::copyBytes`: three bytes are looked up, and `memmove` finds out about the others on the host. -/
def AddressSpace.copyBytes (s : AddressSpace) (dst src : BitVec 64) (count : Nat) : Option AddressSpace := do
  verify (s.allows Prot.write dst.toNat 1)
  verify (s.allows Prot.read src.toNat 1)
  if count > 0 then verify (s.allows Prot.read (src + BitVec.ofNat 64 count - 1).toNat 1)
  verify (s.allows Prot.read src.toNat count)
  verify (s.allows Prot.write dst.toNat count)
  some { s with memory := BlockCopy.copy s.memory dst.toNat src.toNat count }

namespace Cpu

/-- The locals that a loop changes, and the state of the CPU. A handler with one operand in memory does not use `sptr`. -/
structure Locals where
  dptr : BitVec 64
  sptr : BitVec 64
  cpu : Cpu

/-- The size of an element. -/
def elementSize (width : OperandWidth) : BitVec 64 := BitVec.ofNat 64 (width.bits / 8)

/-! ## One element -/

/-- `execMovsM8M8` and its siblings -/
def execMovs (width : OperandWidth) (dst src : Mem) (c : Cpu) : Option Cpu := do
  let dptr := c.resolve dst
  let sptr := c.resolve src
  verify (c.flags.direction = false)
  let val ← c.getPtr width.bits sptr
  let c ← c.setPtr dptr val
  let c ← c.set64 .rsi (sptr + elementSize width)
  c.set64 .rdi (dptr + elementSize width)

def execMovsM8M8 (dst src : Mem) : Cpu → Option Cpu := execMovs .u8 dst src
def execMovsM16M16 (dst src : Mem) : Cpu → Option Cpu := execMovs .u16 dst src
def execMovsM64M64 (dst src : Mem) : Cpu → Option Cpu := execMovs .u64 dst src

/-! ## With a prefix -/

def execRepMovsM8M8 (dst src : Mem) (c : Cpu) : Option Cpu := do
  let counter := c.get32 .ecx
  let dptr := c.resolve dst
  let sptr := c.resolve src
  verify (c.flags.direction = false)
  let mmu ← c.mmu.copyBytes dptr sptr counter.toNat
  let c ← ({ c with mmu := mmu } : Cpu).set32 .ecx 0
  let c ← c.set64 .rsi (sptr + counter.setWidth 64)
  c.set64 .rdi (dptr + counter.setWidth 64)

/-- `execRepMovsM16M16` and its siblings -/
def execRepMovs (width : OperandWidth) (dst src : Mem) (c : Cpu) : Option Cpu := do
  verify (c.flags.direction = false)
  let (counter, l) ← CountedLoop.run (fun l : Locals => do
      let val ← l.cpu.getPtr width.bits l.sptr
      let cpu ← l.cpu.setPtr l.dptr val
      some ⟨l.dptr + elementSize width, l.sptr + elementSize width, cpu⟩)
    (fun _ => false) (c.get32 .ecx).toNat ⟨c.resolve dst, c.resolve src, c⟩
  let c ← l.cpu.set32 .ecx (BitVec.ofNat 32 counter)
  let c ← c.set64 .rsi l.sptr
  c.set64 .rdi l.dptr

def execRepMovsM16M16 (dst src : Mem) : Cpu → Option Cpu := execRepMovs .u16 dst src
def execRepMovsM32M32 (dst src : Mem) : Cpu → Option Cpu := execRepMovs .u32 dst src
def execRepMovsM64M64 (dst src : Mem) : Cpu → Option Cpu := execRepMovs .u64 dst src

def execRepCmpsM8M8 (src1 src2 : Mem) (c : Cpu) : Option Cpu := do
  verify (c.flags.direction = false)
  let (counter, l) ← CountedLoop.run (fun l : Locals => do
      let s1 ← l.cpu.getPtr 8 l.sptr
      let s2 ← l.cpu.getPtr 8 l.dptr
      some ⟨l.dptr + 1, l.sptr + 1, l.cpu.setFlags (CpuImpl.cmp8 s1 s2 l.cpu.flags)⟩)
    (fun l => !l.cpu.flags.zero) (c.get32 .ecx).toNat ⟨c.resolve src2, c.resolve src1, c⟩
  let c ← l.cpu.set64 .rcx (BitVec.ofNat 64 counter)
  verify (src1.encoding.base = .rsi)
  let c ← c.set64 .rsi l.sptr
  verify (src2.encoding.base = .rdi)
  c.set64 .rdi l.dptr

/-- `execRepStosM8R8` and its siblings. The counter is that of the register given. -/
def execRepStos (width : OperandWidth) (dst : Mem) (src : width.Reg) (counter : Nat) (c : Cpu) : Option Cpu := do
  let val := c.get width src
  verify (c.flags.direction = false)
  let (counter, l) ← CountedLoop.run (fun l : Locals => do
      let cpu ← l.cpu.setPtr l.dptr val
      some ⟨l.dptr + elementSize width, l.sptr, cpu⟩)
    (fun _ => false) counter ⟨c.resolve dst, 0, c⟩
  let c ← l.cpu.set64 .rcx (BitVec.ofNat 64 counter)
  c.set64 .rdi l.dptr

def execRepStosM8R8 (dst : Mem) (src : R8) (c : Cpu) : Option Cpu := c.execRepStos .u8 dst src (c.get32 .ecx).toNat
def execRepStosM16R16 (dst : Mem) (src : R16) (c : Cpu) : Option Cpu := c.execRepStos .u16 dst src (c.get32 .ecx).toNat
def execRepStosM32R32 (dst : Mem) (src : R32) (c : Cpu) : Option Cpu := c.execRepStos .u32 dst src (c.get32 .ecx).toNat
def execRepStosM64R64 (dst : Mem) (src : R64) (c : Cpu) : Option Cpu := c.execRepStos .u64 dst src (c.get64 .rcx).toNat

/-- `execRepNZScasR8M8` and its siblings -/
def execRepNZScas (width : OperandWidth) (src1 : width.Reg) (src2 : Mem) (c : Cpu) : Option Cpu := do
  let src1Value := c.get width src1
  verify (c.flags.direction = false)
  let (counter, l) ← CountedLoop.run (fun l : Locals => do
      let src2Value ← l.cpu.getPtr width.bits l.dptr
      some ⟨l.dptr + elementSize width, l.sptr, l.cpu.setFlags (CpuImpl.cmp src1Value src2Value l.cpu.flags)⟩)
    (fun l => l.cpu.flags.zero) (c.get64 .rcx).toNat ⟨c.resolve src2, 0, c⟩
  let c ← l.cpu.set64 .rcx (BitVec.ofNat 64 counter)
  c.set64 .rdi l.dptr

def execRepNZScasR8M8 (src1 : R8) (src2 : Mem) : Cpu → Option Cpu := execRepNZScas .u8 src1 src2
def execRepNZScasR16M16 (src1 : R16) (src2 : Mem) : Cpu → Option Cpu := execRepNZScas .u16 src1 src2
def execRepNZScasR32M32 (src1 : R32) (src2 : Mem) : Cpu → Option Cpu := execRepNZScas .u32 src1 src2
def execRepNZScasR64M64 (src1 : R64) (src2 : Mem) : Cpu → Option Cpu := execRepNZScas .u64 src1 src2

end Cpu

/-- The string instructions that the interpreter repeats: `rep movs`, `rep stos`, `repz cmps` and `repnz scas`. -/
inductive StringInstruction where
  | movs (width : OperandWidth)
  | stos (width : OperandWidth)
  | cmps
  | scas (width : OperandWidth)
deriving DecidableEq, Repr

namespace StringInstruction

open Cpu
open Lockable (acc)

/-- The operands that the decoder makes. -/
def dst : Mem := ⟨.es, ⟨.rdi, .zero, 0, 0⟩⟩

def src : Mem := ⟨.ds, ⟨.rsi, .zero, 0, 0⟩⟩

/-- The handler of an instruction with its prefix. -/
def exec : StringInstruction → Cpu → Option Cpu
  | .movs .u8 => execRepMovsM8M8 dst src
  | .movs .u16 => execRepMovsM16M16 dst src
  | .movs .u32 => execRepMovsM32M32 dst src
  | .movs .u64 => execRepMovsM64M64 dst src
  | .stos .u8 => execRepStosM8R8 dst .al
  | .stos .u16 => execRepStosM16R16 dst .ax
  | .stos .u32 => execRepStosM32R32 dst .eax
  | .stos .u64 => execRepStosM64R64 dst .rax
  | .cmps => execRepCmpsM8M8 src dst
  | .scas .u8 => execRepNZScasR8M8 .al dst
  | .scas .u16 => execRepNZScasR16M16 .ax dst
  | .scas .u32 => execRepNZScasR32M32 .eax dst
  | .scas .u64 => execRepNZScasR64M64 .rax dst

/-! ## The architecture -/

def width : StringInstruction → OperandWidth
  | .movs width => width
  | .stos width => width
  | .cmps => .u8
  | .scas width => width

/-- Whether an element is also read at `rsi`. -/
def hasSource : StringInstruction → Bool
  | .movs _ => true
  | .cmps => true
  | _ => false

/-- What is done with the element at `dptr`, and the one at `sptr`. -/
def element (i : StringInstruction) (dptr sptr : BitVec 64) (c : Cpu) : Option Cpu :=
  match i with
  | .movs width => (c.getPtr width.bits sptr).bind (c.setPtr dptr ·)
  | .stos width => c.setPtr dptr (c.get width (acc width))
  | .cmps => (c.getPtr 8 sptr).bind fun s1 => (c.getPtr 8 dptr).map fun s2 => c.setFlags (CpuImpl.cmp s1 s2 c.flags)
  | .scas width => (c.getPtr width.bits dptr).map fun x => c.setFlags (CpuImpl.cmp (c.get width (acc width)) x c.flags)

/-- Whether the repetition ends behind an element. -/
def stops : StringInstruction → Flags → Bool
  | .cmps, flags => !flags.zero
  | .scas _, flags => flags.zero
  | _, _ => false

/-- The instruction without a prefix, in ascending order. -/
def step (i : StringInstruction) (c : Cpu) : Option Cpu :=
  (i.element (c.gpr .rdi) (c.gpr .rsi) c).map fun c =>
    let c := if i.hasSource then c.setGpr .rsi (c.gpr .rsi + elementSize i.width) else c
    c.setGpr .rdi (c.gpr .rdi + elementSize i.width)

/-- One turn of the repetition. -/
def turn (i : StringInstruction) (c : Cpu) : Option Cpu := (i.step c).map fun c => c.setGpr .rcx (c.gpr .rcx - 1)

/-- At most `n` turns. -/
def turns (i : StringInstruction) (n : Nat) (c : Cpu) : Option Cpu :=
  (CountedLoop.run i.turn (fun c => i.stops c.flags) n c).map Prod.snd

/-- The instruction with its prefix, as the architecture defines it. -/
def repeated (i : StringInstruction) (c : Cpu) : Option Cpu := i.turns (c.gpr .rcx).toNat c

end StringInstruction

end X64Emulator
