import X64Emulator.Ir
import Mathlib.Logic.Function.Basic

/-!
# The optimizer of the compiler

Each pass picks positions of instructions it takes to be useless and removes them all at once. The passes run one after another,
round after round, until a round in which none of them has removed anything.
-/

namespace X64Emulator

namespace Ir

/-- The positions a pass picks. -/
abbrev Selection := IR → List Nat

namespace Liveness

/-- What is live before an instruction: registers, and the addresses, by their positions in the lists of all addresses. -/
structure Live where
  gprs : R64 → Bool
  mmxs : MMX → Bool
  xmms : XMM → Bool
  addresses64 : Nat → Bool
  addresses128 : Nat → Bool

variable {α : Type} [DecidableEq α]

def set (mask : α → Bool) (position : α) : α → Bool := Function.update mask position true

def reset (mask : α → Bool) (position : α) : α → Bool := Function.update mask position false

def alwaysLiveGprs : List R64 := [.rsp, .rax, .rdx]

/-- The addresses of the stores of 64 bits. -/
def allAddresses64 (instructions : List Instruction) : List Mem :=
  instructions.filterMap fun ins => match ins.out with | .m64 mem => some mem | _ => none

/-- The addresses of the stores of 128 bits. -/
def allAddresses128 (instructions : List Instruction) : List Mem :=
  instructions.filterMap fun ins => match ins.out with | .m128 mem => some mem | _ => none

def addressIndex (addresses : List Mem) (address : Mem) : Option Nat := addresses.findIdx? (· = address)

/-- Behind the last instruction everything stored is live, and three registers are. -/
def atEnd : Live where
  gprs := alwaysLiveGprs.foldl set (fun _ => false)
  mmxs := fun _ => false
  xmms := fun _ => false
  addresses64 := fun _ => true
  addresses128 := fun _ => true

/-- The mask with the positions of the addresses that meet a condition. -/
def setWhere (mask : Nat → Bool) (addresses : List Mem) (p : Mem → Bool) : Nat → Bool :=
  fun k => mask k || (addresses[k]?).any p

def involves (reg : R64) (address : Mem) : Bool := address.encoding.base = reg || address.encoding.index = reg

/-- Sums of a displacement and a size are taken without a bound: their overflow is undefined in the source. -/
def clashes (addressSize size : Nat) (enc : Encoding64) (address : Mem) : Bool :=
  -- "different base => cannot clash in the jit"
  if address.encoding.base ≠ enc.base then false
  else if address.encoding.index ≠ .zero || enc.index ≠ .zero then true
  else
    let al := address.encoding.displacement.toInt
    let el := enc.displacement.toInt
    max al el < min (al + addressSize) (el + size)

section

variable (all64 all128 : List Mem)

def markAllAddressesInvolvingRegisterAsAlive (reg : R64) (live : Live) : Live :=
  { live with
    addresses64 := setWhere live.addresses64 all64 (involves reg)
    addresses128 := setWhere live.addresses128 all128 (involves reg) }

def markAllAddressesClashingWithEncodingAsAlive (size : Nat) (enc : Encoding64) (live : Live) : Live :=
  { live with
    addresses64 := setWhere live.addresses64 all64 (clashes 8 size enc)
    addresses128 := setWhere live.addresses128 all128 (clashes 16 size enc) }

/-- A write of any part of a register ends the life of all of it. -/
def outGpr (reg : R64) (live : Live) : Live :=
  markAllAddressesInvolvingRegisterAsAlive all64 all128 reg { live with gprs := reset live.gprs reg }

/-- The registers of an address are read. -/
def useAddress (enc : Encoding64) (live : Live) : Live :=
  { live with gprs := set (set live.gprs enc.base) enc.index }

def resetAddress (mask : Nat → Bool) (addresses : List Mem) (address : Mem) : Nat → Bool :=
  match addressIndex addresses address with
  | some index => reset mask index
  | none => mask

def setAddress (mask : Nat → Bool) (addresses : List Mem) (address : Mem) : Nat → Bool :=
  match addressIndex addresses address with
  | some index => set mask index
  | none => mask

def visitOut (op : Operand) (live : Live) : Live :=
  match op with
  | .r8 reg => outGpr all64 all128 reg.containingRegister live
  | .r16 reg => outGpr all64 all128 reg.containingRegister live
  | .r32 reg => outGpr all64 all128 reg.containingRegister live
  | .r64 reg => outGpr all64 all128 reg live
  | .mmx reg => { live with mmxs := reset live.mmxs reg }
  | .xmm reg => { live with xmms := reset live.xmms reg }
  | .m8 mem | .m16 mem | .m32 mem => useAddress mem.encoding live
  | .m64 mem => useAddress mem.encoding { live with addresses64 := resetAddress live.addresses64 all64 mem }
  | .m128 mem => useAddress mem.encoding { live with addresses128 := resetAddress live.addresses128 all128 mem }
  | _ => live

def inGpr (reg : R64) (live : Live) : Live :=
  markAllAddressesInvolvingRegisterAsAlive all64 all128 reg { live with gprs := set live.gprs reg }

/-- The address of a load, when something is stored to the same one. -/
def inAddress (mem : Mem) (live : Live) : Live :=
  useAddress mem.encoding { live with
    addresses64 := setAddress live.addresses64 all64 mem
    addresses128 := setAddress live.addresses128 all128 mem }

/-- A load of 64 bits is not compared with the addresses it may overlap. -/
def visitIn (op : Operand) (live : Live) : Live :=
  let clashing := markAllAddressesClashingWithEncodingAsAlive all64 all128
  match op with
  | .r8 reg => inGpr all64 all128 reg.containingRegister live
  | .r16 reg => inGpr all64 all128 reg.containingRegister live
  | .r32 reg => inGpr all64 all128 reg.containingRegister live
  | .r64 reg => inGpr all64 all128 reg live
  | .mmx reg => { live with mmxs := set live.mmxs reg }
  | .xmm reg => { live with xmms := set live.xmms reg }
  | .m8 mem => clashing 1 mem.encoding (inAddress all64 all128 mem live)
  | .m16 mem => clashing 2 mem.encoding (inAddress all64 all128 mem live)
  | .m32 mem => clashing 4 mem.encoding (inAddress all64 all128 mem live)
  | .m64 mem => inAddress all64 all128 mem live
  | .m128 mem => clashing 16 mem.encoding (inAddress all64 all128 mem live)
  | _ => live

/-- What is live before an instruction, from what is live behind it. -/
def before (ins : Instruction) (live : Live) : Live :=
  let live := visitOut all64 all128 ins.out live
  let live := visitIn all64 all128 ins.in1 live
  let live := visitIn all64 all128 ins.in2 live
  let live := visitIn all64 all128 ins.in3 live
  { live with gprs := (ins.impactedRegisters64 ++ alwaysLiveGprs).foldl set live.gprs }

/-- What is live before each instruction of the list and, last, behind all of them. -/
def analysis : List Instruction → List Live
  | [] => [atEnd]
  | ins :: rest =>
    let behind := analysis rest
    before all64 all128 ins (behind.headD atEnd) :: behind

end

def computeLiveRegistersAndAddresses (ir : IR) : List Live :=
  analysis (allAddresses64 ir.instructions) (allAddresses128 ir.instructions) ir.instructions

end Liveness

/-- Whether nothing reads what the instruction writes, by what is live behind it. -/
def isDead (all64 all128 : List Mem) (ins : Instruction) (behind : Liveness.Live) : Bool :=
  if ins.canModifyFlags then false
  else if ins.impactedRegisters64.any behind.gprs then false
  else match ins.out with
    | .r64 reg => !behind.gprs reg
    | .mmx reg => !behind.mmxs reg
    | .xmm reg => !behind.xmms reg
    | .m64 mem => !((Liveness.addressIndex all64 mem).any behind.addresses64)
    | .m128 mem => !((Liveness.addressIndex all128 mem).any behind.addresses128)
    | _ => false

/-- The loop goes from the last instruction to the first. -/
def deadCodeElimination : Selection := fun ir =>
  let analysis := Liveness.computeLiveRegistersAndAddresses ir
  let all64 := Liveness.allAddresses64 ir.instructions
  let all128 := Liveness.allAddresses128 ir.instructions
  (List.range ir.instructions.length).reverse.filter fun i =>
    match ir.instructions[i]?, analysis[i + 1]? with
    | some ins, some behind => isDead all64 all128 ins behind
    | _, _ => false

/-- Whether `curr` does the opposite move of `prev`. -/
def mirrors (prev curr : Instruction) : Bool := prev.in1 = curr.out && prev.out = curr.in1

def immediateReadBackElimination : Selection := fun ir =>
  (List.range' 1 (ir.instructions.length - 1)).filter fun i =>
    match ir.instructions[i - 1]?, ir.instructions[i]? with
    | some prev, some curr => prev.op = .mov && curr.op = .mov && mirrors prev curr
    | _, _ => false

/-- What a loop that looks ahead from an instruction does with the next one. -/
inductive Verdict where
  | remove | pass | stop
deriving DecidableEq, Repr

/-- The loop over `j`: the position of the instruction it removes. -/
def lookAhead (verdict : Instruction → Verdict) : Nat → List Instruction → Option Nat
  | _, [] => none
  | j, next :: rest =>
    match verdict next with
    | .remove => some j
    | .pass => lookAhead verdict (j + 1) rest
    | .stop => none

/-- The loop over `i`. When `j` is removed, `i = j + 1` in the body and `++i` behind it skip the instructions up to `j + 1`:
`skip` says how many of them are left. -/
def scan (verdict : Instruction → Option (Instruction → Verdict)) : Nat → Nat → List Instruction → List Nat
  | _, _, [] => []
  | skip + 1, i, _ :: rest => scan verdict skip (i + 1) rest
  | 0, i, curr :: rest =>
    match (verdict curr).bind fun v => lookAhead v (i + 1) rest with
    | some j => j :: scan verdict (j + 1 - i) (i + 1) rest
    | none => scan verdict 0 (i + 1) rest

def isMov (op : Op) : Bool := op = .mov || op = .mova

def delayedVerdict (curr : Instruction) : Option (Instruction → Verdict) :=
  if !isMov curr.op then none
  else some fun next =>
    if isMov next.op && next.in1 = curr.out && next.out = curr.in1 then .remove
    else if curr.canCommute next then .pass
    else .stop

def delayedReadBackElimination : Selection := fun ir => scan delayedVerdict 0 0 ir.instructions

def duplicateVerdict (curr : Instruction) : Option (Instruction → Verdict) :=
  if curr.op ≠ .mov then none
  else if !curr.out.isRegister then none
  else match curr.in1.memory with
    | none => none
    | some srcMem => some fun next =>
      if next.op ≠ .mov then .stop
      else if next.out = curr.out && next.in1 = curr.in1 then .remove
      else if next.writesTo curr.out || next.writesToGpr srcMem.encoding.base || next.writesToGpr srcMem.encoding.index ||
          next.writesTo curr.in1 then .stop
      else .pass

def duplicateInstructionElimination : Selection := fun ir => scan duplicateVerdict 0 0 ir.instructions

/-- How many instructions each pass has removed. -/
structure Stats where
  removedInstructions : UInt32 := 0
  deadCode : UInt32 := 0
  immediateReadback : UInt32 := 0
  delayedReadback : UInt32 := 0
  duplicateInstruction : UInt32 := 0
deriving DecidableEq, Repr

/-- A pass: what it removes, and where it counts that. -/
structure OptimizationPass where
  select : Selection
  count : UInt32 → Stats → Stats

/-- What has been done so far, and whether that has changed anything. -/
structure Progress where
  didSomething : Bool
  ir : IR
  stats : Stats
deriving DecidableEq, Repr

namespace OptimizationPass

def deadCode : OptimizationPass where
  select := deadCodeElimination
  count := fun n stats => { stats with deadCode := stats.deadCode + n }

def immediateReadback : OptimizationPass where
  select := immediateReadBackElimination
  count := fun n stats => { stats with immediateReadback := stats.immediateReadback + n }

def delayedReadback : OptimizationPass where
  select := delayedReadBackElimination
  count := fun n stats => { stats with delayedReadback := stats.delayedReadback + n }

def duplicateInstruction : OptimizationPass where
  select := duplicateInstructionElimination
  count := fun n stats => { stats with duplicateInstruction := stats.duplicateInstruction + n }

def optimize (pass : OptimizationPass) (ir : IR) (stats : Stats) : Option Progress :=
  let removable := pass.select ir
  if removable.isEmpty then some ⟨false, ir, stats⟩
  else (ir.removeInstructions removable).map fun ir => ⟨true, ir, pass.count removable.length.toUInt32 stats⟩

end OptimizationPass

namespace Optimizer

/-- The passes the compiler registers, in order. -/
def passes : List OptimizationPass := [.deadCode, .immediateReadback, .delayedReadback, .duplicateInstruction]

/-- One turn of the loop over the passes. -/
def turn (p : Progress) (pass : OptimizationPass) : Option Progress :=
  (pass.optimize p.ir p.stats).map fun r => { r with didSomething := p.didSomething || r.didSomething }

/-- One round: every pass runs, also behind one that has changed nothing. -/
def round (passes : List OptimizationPass) (ir : IR) (stats : Stats) : Option Progress :=
  passes.foldlM turn ⟨false, ir, stats⟩

/-- The rounds, at most `fuel` of them; `none` when the last one still changed something. -/
def rounds (passes : List OptimizationPass) : Nat → IR → Stats → Option Progress
  | 0, _, _ => none
  | fuel + 1, ir, stats =>
    match round passes ir stats with
    | some p => if p.didSomething then rounds passes fuel p.ir p.stats else some p
    | none => none

def optimize (fuel : Nat) (ir : IR) (stats : Stats) : Option (IR × Stats) :=
  (rounds passes fuel ir stats).map fun p =>
    (p.ir, { p.stats with
      removedInstructions := p.stats.removedInstructions + (ir.instructions.length - p.ir.instructions.length).toUInt32 })

end Optimizer

end Ir

end X64Emulator
