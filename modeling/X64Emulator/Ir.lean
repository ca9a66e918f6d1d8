import Mathlib.Data.List.Sort
import Mathlib.Tactic.Common

/-!
# The intermediate representation of the compiler

Guest instructions are translated to a list of instructions over the registers of the host, with positions in the list that jumps
and the patching of native code refer to. The tests by which the optimizer decides that two instructions do not touch each other
are here as well. Names are those of the source, with the enumerators in lower case.
-/

namespace X64Emulator

namespace Ir

/-- The general purpose registers, with the instruction pointer and the register that stands for none. -/
inductive R64 where
  | rax | rcx | rdx | rbx | rsp | rbp | rsi | rdi | r8 | r9 | r10 | r11 | r12 | r13 | r14 | r15 | rip | zero
deriving DecidableEq, Repr

inductive R32 where
  | eax | ecx | edx | ebx | esp | ebp | esi | edi | r8d | r9d | r10d | r11d | r12d | r13d | r14d | r15d | eip | eiz
deriving DecidableEq, Repr

inductive R16 where
  | ax | cx | dx | bx | sp | bp | si | di | r8w | r9w | r10w | r11w | r12w | r13w | r14w | r15w
deriving DecidableEq, Repr

inductive R8 where
  | al | cl | dl | bl | spl | bpl | sil | dil | r8b | r9b | r10b | r11b | r12b | r13b | r14b | r15b | ah | ch | dh | bh
deriving DecidableEq, Repr

inductive MMX where
  | mm0 | mm1 | mm2 | mm3 | mm4 | mm5 | mm6 | mm7
deriving DecidableEq, Repr

inductive XMM where
  | xmm0 | xmm1 | xmm2 | xmm3 | xmm4 | xmm5 | xmm6 | xmm7
  | xmm8 | xmm9 | xmm10 | xmm11 | xmm12 | xmm13 | xmm14 | xmm15
deriving DecidableEq, Repr

inductive Segment where
  | cs | ds | es | fs | gs | ss | unk
deriving DecidableEq, Repr

def R8.containingRegister : R8 → R64
  | .al => .rax
  | .cl => .rcx
  | .dl => .rdx
  | .bl => .rbx
  | .spl => .rsp
  | .bpl => .rbp
  | .sil => .rsi
  | .dil => .rdi
  | .r8b => .r8
  | .r9b => .r9
  | .r10b => .r10
  | .r11b => .r11
  | .r12b => .r12
  | .r13b => .r13
  | .r14b => .r14
  | .r15b => .r15
  | .ah => .rax
  | .ch => .rcx
  | .dh => .rdx
  | .bh => .rbx

def R16.containingRegister : R16 → R64
  | .ax => .rax
  | .cx => .rcx
  | .dx => .rdx
  | .bx => .rbx
  | .sp => .rsp
  | .bp => .rbp
  | .si => .rsi
  | .di => .rdi
  | .r8w => .r8
  | .r9w => .r9
  | .r10w => .r10
  | .r11w => .r11
  | .r12w => .r12
  | .r13w => .r13
  | .r14w => .r14
  | .r15w => .r15

def R32.containingRegister : R32 → R64
  | .eax => .rax
  | .ecx => .rcx
  | .edx => .rdx
  | .ebx => .rbx
  | .esp => .rsp
  | .ebp => .rbp
  | .esi => .rsi
  | .edi => .rdi
  | .r8d => .r8
  | .r9d => .r9
  | .r10d => .r10
  | .r11d => .r11
  | .r12d => .r12
  | .r13d => .r13
  | .r14d => .r14
  | .r15d => .r15
  | .eip => .rip
  | .eiz => .zero

structure Encoding64 where
  base : R64
  index : R64
  scale : UInt8
  displacement : Int32
deriving DecidableEq, Repr

/-- A memory operand, whose size is that of the operand it stands in. -/
structure Mem where
  segment : Segment
  encoding : Encoding64
deriving DecidableEq, Repr

inductive Operand where
  | void
  | u8 (value : UInt8)
  | u16 (value : UInt16)
  | u32 (value : UInt32)
  | u64 (value : UInt64)
  | r8 (reg : R8)
  | r16 (reg : R16)
  | r32 (reg : R32)
  | r64 (reg : R64)
  | m8 (mem : Mem)
  | m16 (mem : Mem)
  | m32 (mem : Mem)
  | m64 (mem : Mem)
  | mmx (reg : MMX)
  | xmm (reg : XMM)
  | m128 (mem : Mem)
  | labelIndex (index : UInt32)
deriving DecidableEq, Repr

namespace Operand

def isRegister : Operand → Bool
  | r8 _ | r16 _ | r32 _ | r64 _ | mmx _ | xmm _ => true
  | _ => false

def containingGpr : Operand → Option R64
  | r8 reg => some reg.containingRegister
  | r16 reg => some reg.containingRegister
  | r32 reg => some reg.containingRegister
  | r64 reg => some reg
  | _ => none

/-- Where a memory operand is. -/
def memory : Operand → Option Mem
  | m8 mem | m16 mem | m32 mem | m64 mem | m128 mem => some mem
  | _ => none

def isMemory (op : Operand) : Bool := op.memory.isSome

/-- How many bytes an operand holds. -/
def size : Operand → Nat
  | void | labelIndex _ => 0
  | u8 _ | r8 _ | m8 _ => 1
  | u16 _ | r16 _ | m16 _ => 2
  | u32 _ | r32 _ | m32 _ => 4
  | u64 _ | r64 _ | m64 _ | mmx _ => 8
  | xmm _ | m128 _ => 16

/-- Whether a write of an operand may change what another operand of an instruction reads. -/
def impacts (op other : Operand) : Bool :=
  match op, other with
  | void, _ | _, void => false
  | m128 _, xmm _ => false
  | m128 _, _ => true
  | xmm reg, xmm oreg => reg = oreg
  | xmm _, _ => false
  | _, _ => true

def addressesMayAlias (size1 size2 : Nat) (mem1 mem2 : Mem) : Bool :=
  -- memory locations in the FS segment are not trusted
  if mem1.segment = .fs || mem2.segment = .fs then true
  -- "in the jit, a different base means addresses cannot clash"
  else if mem1.encoding.base ≠ mem2.encoding.base then false
  else if size1 ≠ size2 then true
  else if mem1.encoding.index ≠ .zero || mem2.encoding.index ≠ .zero then true
  else if mem1.encoding.displacement.toInt % 4 ≠ 0 || mem2.encoding.displacement.toInt % 4 ≠ 0 then true
  else if mem1.encoding.displacement ≠ mem2.encoding.displacement then false
  else true

/-- Whether the register an operand lies in is `other`. -/
def mayAliasGpr (op : Operand) (other : R64) : Bool := op.containingGpr = some other

/-- A memory operand of 128 bits is not compared with any other. -/
def mayAliasMemory (op : Operand) (size2 : Nat) (other : Mem) : Bool :=
  match op with
  | m8 mem => addressesMayAlias 1 size2 mem other
  | m16 mem => addressesMayAlias 2 size2 mem other
  | m32 mem => addressesMayAlias 4 size2 mem other
  | m64 mem => addressesMayAlias 8 size2 mem other
  | _ => false

def mayAlias (op other : Operand) : Bool :=
  match other with
  | void | u8 _ | u16 _ | u32 _ | u64 _ => false
  | r8 reg => op.mayAliasGpr reg.containingRegister
  | r16 reg => op.mayAliasGpr reg.containingRegister
  | r32 reg => op.mayAliasGpr reg.containingRegister
  | r64 reg => op.mayAliasGpr reg
  | mmx reg => op = mmx reg
  | xmm reg => op = xmm reg
  | m8 mem => op.mayAliasMemory 1 mem
  | m16 mem => op.mayAliasMemory 2 mem
  | m32 mem => op.mayAliasMemory 4 mem
  | m64 mem => op.mayAliasMemory 8 mem
  | m128 mem => op.mayAliasMemory 16 mem
  | labelIndex _ => true

end Operand

inductive Op where
  | mov | movzx | movsx | add | adc | sub | sbb | cmp | shl | shr | sar | rol | ror | mul | imul | div | idiv | test | and
  | or | xor | not | neg | inc | dec | xchg | cmpxchg | lockcmpxchg | lockxadd | cwde | cdqe | cdq | cqo | lea | push | pop
  | pushf | popf | bsf | bsr | tzcnt | set | cmov | bswap | bt | btr | bts | repstos8 | repstos32 | repstos64 | repmovs8
  | repmovs16 | repmovs32 | repmovs64 | jcc | jmp | jmpInd | call | ret | nopN | udN | mova | movu | movd | movss | movsd
  | movq | movlps | movhps | movhlps | movlhps | pmovmskb | movq2dq | pand | pandn | por | pxor | paddb | paddw | paddd
  | paddq | paddsb | paddsw | paddusb | paddusw | psubb | psubw | psubd | psubsb | psubsw | psubusb | psubusw | pmaddwd
  | psadbw | pmulhw | pmullw | pmulhuw | pmuludq | pavgb | pavgw | pmaxub | pminub | ptest | pcmpeqb | pcmpeqw | pcmpeqd
  | pcmpgtb | pcmpgtw | pcmpgtd | psllw | pslld | psllq | pslldq | psrlw | psrld | psrlq | psrldq | psraw | psrad | pshufb
  | pshufw | pshufd | pshuflw | pshufhw | pinsrw | pextrw | punpcklbw | punpcklwd | punpckldq | punpcklqdq | punpckhbw
  | punpckhwd | punpckhdq | punpckhqdq | packsswb | packssdw | packuswb | packusdw | addss | subss | mulss | divss | comiss
  | cvtss2sd | cvtsi2ss | addsd | subsd | mulsd | divsd | cmpsd | comisd | ucomisd | maxsd | minsd | sqrtsd | cvtsd2ss
  | cvtsi2sd32 | cvtsi2sd64 | cvttsd2si32 | cvttsd2si64 | addps | subps | mulps | divps | maxps | minps | maxpd | minpd
  | cmpps | cvtps2dq | cvttps2dq | cvttpd2dq | cvtdq2ps | addpd | subpd | mulpd | divpd | andpd | andnpd | orpd | xorpd
  | shufps | shufpd | unpckhps | unpckhpd | unpcklps | unpcklpd | movddup | palignr | phaddw | phaddd | pmaddusbw | pmulhrsw
  | pmaxsd | pminsd | pmovzxbw | roundps | roundpd | pmulld | pextrd | pextrq | pinsrd | blendvps | pblendvb
deriving DecidableEq, Repr

inductive Cond where
  | a | ae | b | be | e | g | ge | l | le | nb | nbe | ne | no | np | ns | nu | o | p | s | u
deriving DecidableEq, Repr

inductive FCond where
  | eq | lt | le | unord | neq | nlt | nle | ord
deriving DecidableEq, Repr

/-- An instruction lists what it writes, what it reads, and the registers it uses without naming them. -/
structure Instruction where
  op : Op
  out : Operand := .void
  in1 : Operand := .void
  in2 : Operand := .void
  in3 : Operand := .void
  condition : Option Cond := none
  fcondition : Option FCond := none
  impactedRegisters64 : List R64 := []
deriving DecidableEq, Repr

namespace Instruction

def canModifyFlags (ins : Instruction) : Bool :=
  match ins.op with
  | .add | .adc | .sub | .sbb | .shl | .shr | .sar | .rol | .ror | .test | .and | .or | .xor | .not | .neg | .inc | .dec
  | .cmpxchg | .lockcmpxchg | .lockxadd | .pushf | .popf | .bsf | .bsr | .tzcnt | .bt | .btr | .bts | .comiss | .comisd
  | .ucomisd => true
  | _ => false

def writesTo (ins : Instruction) (op : Operand) : Bool :=
  if ins.out.mayAlias op then true
  else match op.containingGpr with
    | some reg => ins.impactedRegisters64.contains reg
    | none => false

def writesToGpr (ins : Instruction) (reg : R64) : Bool :=
  if ins.out.mayAliasGpr reg then true else ins.impactedRegisters64.contains reg

/-- The register and the memory operand of a move between a 64 bit register and memory. -/
def regAndMem64 (ins : Instruction) : Option (R64 × Mem) :=
  match ins.out, ins.in1 with
  | .r64 reg, .m64 mem => some (reg, mem)
  | .m64 mem, .r64 reg => some (reg, mem)
  | _, _ => none

/-- The register and the memory operand of a move between a vector register and memory. -/
def regAndMem128 (ins : Instruction) : Option (XMM × Mem) :=
  match ins.out, ins.in1 with
  | .xmm reg, .m128 mem => some (reg, mem)
  | .m128 mem, .xmm reg => some (reg, mem)
  | _, _ => none

def canMovsCommute (a b : Instruction) : Bool :=
  if a.op ≠ .mov || b.op ≠ .mov then false
  else match a.regAndMem64, b.regAndMem64 with
    | some (regA, memA), some (regB, memB) =>
      if memA.segment = .fs || memB.segment = .fs then false
      else if regA = regB || memA = memB then false
      else if memA.encoding.base = regB || memA.encoding.index = regB then false
      else if memB.encoding.base = regA || memB.encoding.index = regA then false
      else if memA.encoding.index ≠ .zero && memA.encoding.scale < 8 then false
      else if memA.encoding.displacement.toInt % 8 ≠ 0 then false
      else if memB.encoding.index ≠ .zero && memB.encoding.scale < 8 then false
      else if memB.encoding.displacement.toInt % 8 ≠ 0 then false
      else if memA.encoding.base = memB.encoding.base &&
          (memA.encoding.index ≠ .zero || memB.encoding.index ≠ .zero) then false
      else true
    | _, _ => false

def canMovasCommute (a b : Instruction) : Bool :=
  if a.op ≠ .mova || b.op ≠ .mova then false
  else match a.regAndMem128, b.regAndMem128 with
    | some (regA, memA), some (regB, memB) =>
      if regA = regB || memA = memB then false
      else if memA.segment = .fs || memB.segment = .fs then false
      else if memA.encoding.index ≠ .zero then false
      else if memA.encoding.displacement.toInt % 16 ≠ 0 then false
      else if memB.encoding.index ≠ .zero then false
      else if memB.encoding.displacement.toInt % 16 ≠ 0 then false
      else if memA.encoding.base = memB.encoding.base &&
          (memA.encoding.index ≠ .zero || memB.encoding.index ≠ .zero) then false
      else true
    | _, _ => false

def canCommute (a b : Instruction) : Bool :=
  if canMovsCommute a b then true
  else if canMovasCommute a b then true
  else if a.canModifyFlags && b.canModifyFlags then false
  else if a.out.impacts b.in1 || a.out.impacts b.in2 || a.out.impacts b.in3 then false
  else if b.out.impacts a.in1 || b.out.impacts a.in2 || b.out.impacts a.in3 then false
  else true

end Instruction

namespace IrGenerator

/-- The operands of the moves that the generator emits as `MOV`: those of `mov`, and those of `movd` and `movq` with an MMX
register. -/
def movs (dst src : Operand) : Bool :=
  match dst, src with
  | .r8 _, .r8 _ | .r8 _, .u8 _ | .r8 _, .m8 _ | .m8 _, .r8 _ => true
  | .r16 _, .r16 _ | .r16 _, .u16 _ | .r16 _, .m16 _ | .m16 _, .r16 _ => true
  | .r32 _, .r32 _ | .r32 _, .u32 _ | .r32 _, .m32 _ | .m32 _, .r32 _ => true
  | .r64 _, .r64 _ | .r64 _, .u64 _ | .r64 _, .m64 _ | .m64 _, .r64 _ | .m64 _, .u32 _ => true
  | .mmx _, .mmx _ | .r32 _, .mmx _ | .mmx _, .r32 _ | .mmx _, .m32 _ | .m32 _, .mmx _ | .mmx _, .m64 _ | .m64 _, .mmx _ => true
  | .xmm _, .xmm _ => true
  | _, _ => false

/-- The operands of the aligned and unaligned moves of vector registers, `MOVA` and `MOVU`. -/
def movas (dst src : Operand) : Bool :=
  match dst, src with
  | .xmm _, .m128 _ | .m128 _, .xmm _ => true
  | _, _ => false

/-- Whether the operands of a move are ones the generator emits it with. -/
def emits (ins : Instruction) : Bool :=
  match ins.op with
  | .mov => movs ins.out ins.in1
  | .mova | .movu => movas ins.out ins.in1
  | _ => true

end IrGenerator

/-- A list of instructions, and the positions in it that something refers to: an anchor is the position of an instruction, or
the one past the last. A push to the call stack also has the address it pushes. -/
structure IR where
  instructions : List Instruction := []
  labels : List Nat := []
  jumpLanding : Option Nat := none
  jumpToNext : Option Nat := none
  jumpToOther : Option Nat := none
  pushCallstack : Option (Nat × UInt64) := none
  popCallstack : Option Nat := none
deriving DecidableEq, Repr

namespace IR

/-- A field of two blocks of which at most one may have it; `none` is a failed `verify`. -/
def merge {α : Type} (ours theirs : Option α) : Option (Option α) :=
  match ours, theirs with
  | some _, some _ => none
  | ours, none => some ours
  | none, theirs => some theirs

/-- The block with the instructions of `other` behind its own. -/
def add (ir other : IR) : Option IR := do
  let n := ir.instructions.length
  let jumpLanding ← merge ir.jumpLanding (other.jumpLanding.map (n + ·))
  let jumpToNext ← merge ir.jumpToNext (other.jumpToNext.map (n + ·))
  let jumpToOther ← merge ir.jumpToOther (other.jumpToOther.map (n + ·))
  let pushCallstack ← merge ir.pushCallstack (other.pushCallstack.map fun p => (n + p.1, p.2))
  let popCallstack ← merge ir.popCallstack (other.popCallstack.map (n + ·))
  return {
    instructions := ir.instructions ++ other.instructions
    labels := ir.labels ++ other.labels.map (n + ·)
    jumpLanding, jumpToNext, jumpToOther, pushCallstack, popCallstack }

/-- An anchor behind `position`, once the instruction at `position` is gone. -/
def shift (position anchor : Nat) : Nat := if anchor > position then anchor - 1 else anchor

/-- An instruction is erased at a position of the list only. -/
def removeInstruction (ir : IR) (position : Nat) : Option IR :=
  if position < ir.instructions.length then
    some {
      instructions := ir.instructions.eraseIdx position
      labels := ir.labels.map (shift position)
      jumpLanding := ir.jumpLanding.map (shift position)
      jumpToNext := ir.jumpToNext.map (shift position)
      jumpToOther := ir.jumpToOther.map (shift position)
      pushCallstack := ir.pushCallstack.map fun p => (shift position p.1, p.2)
      popCallstack := ir.popCallstack.map (shift position) }
  else none

/-- The positions are taken from the last to the first. -/
def removeInstructions (ir : IR) (positions : List Nat) : Option IR :=
  (positions.insertionSort (· ≥ ·)).foldlM removeInstruction ir

end IR

end Ir

end X64Emulator
