import X64Emulator.Assembler
import X64Emulator.Lib.Patching

/-!
# The code generator

The instructions of a block become native code. Where a label is and where something is put in later is taken down while the
code is written, and the displacements of the jumps are put in when all of it is there. What the other instructions become
depends on their operands alone and is a parameter, `encode`, which gives nothing where the source fails.
-/

namespace X64Emulator

open Ir Assembler

namespace Ir

/-! ## What an operand is used as -/

def Operand.asLabelIndex : Operand → Option Nat
  | .labelIndex index => some index.toNat
  | _ => none

def Operand.asR64 : Operand → Option R64
  | .r64 reg => some reg
  | _ => none

def Operand.asU32 : Operand → Option Nat
  | .u32 value => some value.toNat
  | _ => none

end Ir

namespace CodeGenerator

/-- The code of a block, and where in it something is reached or put in from outside. -/
structure NativeBasicBlock where
  nativecode : Code
  offsetOfJumpLandingPad : Option Nat := none
  offsetOfReplaceableJumpToContinuingBlock : Option Nat := none
  offsetOfReplaceableJumpToConditionalBlock : Option Nat := none
  offsetOfReplaceableCallstackPush : Option (Nat × UInt64) := none
  offsetOfReplaceableCallstackPop : Option Nat := none
deriving DecidableEq, Repr

/-- The assembler, and what has been taken down so far. -/
structure Generation where
  assembler : Assembler
  offsetOfJumpLandingPad : Option Nat := none
  offsetOfReplaceableJumpToContinuingBlock : Option Nat := none
  offsetOfReplaceableJumpToConditionalBlock : Option Nat := none
  offsetOfReplaceableCallstackPush : Option (Nat × UInt64) := none
  offsetOfReplaceableCallstackPop : Option Nat := none
deriving DecidableEq, Repr

/-- The offset of an anchor, once its instruction is reached. -/
def anchored (anchor : Option Nat) (i size : Nat) (offset : Option Nat) : Option Nat :=
  if anchor = some i then some size else offset

/-- What is taken down before the instruction at `i`. -/
def report (ir : IR) (i : Nat) (g : Generation) : Generation :=
  let a := g.assembler.putLabels fun l => ir.labels[l]? = some i
  let size := a.code.length
  { assembler := a
    offsetOfJumpLandingPad := anchored ir.jumpLanding i size g.offsetOfJumpLandingPad
    offsetOfReplaceableJumpToContinuingBlock := anchored ir.jumpToNext i size g.offsetOfReplaceableJumpToContinuingBlock
    offsetOfReplaceableJumpToConditionalBlock := anchored ir.jumpToOther i size g.offsetOfReplaceableJumpToConditionalBlock
    offsetOfReplaceableCallstackPush :=
      if ir.pushCallstack.map Prod.fst = some i then ir.pushCallstack.map fun p => (size, p.2)
      else g.offsetOfReplaceableCallstackPush
    offsetOfReplaceableCallstackPop := anchored ir.popCallstack i size g.offsetOfReplaceableCallstackPop }

section

variable (hasMultibyteNop : Bool) (encode : Instruction → Option Code)

/-- The code of one instruction. -/
def emit (a : Assembler) (ins : Instruction) : Option Assembler :=
  match ins.op with
  | .jcc => do
    let cond ← ins.condition
    let label ← ins.in1.asLabelIndex
    a.jumpCondition cond label
  | .jmp => do
    let label ← ins.in1.asLabelIndex
    a.jump label
  | .jmpInd => do
    let dst ← ins.in1.asR64
    (jumpR64 dst).map a.write
  | .call => do
    let src ← ins.in1.asR64
    (call src).map a.write
  | .ret => some (a.write ret)
  | .nopN => do
    let count ← ins.in1.asU32
    some (a.write (nops hasMultibyteNop count))
  | .udN => do
    let count ← ins.in1.asU32
    (uds count).map a.write
  | _ => (encode ins).map a.write

/-- The bytes of an instruction, of a jump those before its displacement. -/
def fragment (ins : Instruction) : Option (Patching.Fragment UInt8) :=
  match ins.op with
  | .jcc => do
    let cond ← ins.condition
    let label ← ins.in1.asLabelIndex
    let opcode ← conditionOpcode cond
    some (.jump [0x0F, opcode] label)
  | .jmp => ins.in1.asLabelIndex.map (.jump [0xe9])
  | .jmpInd => (ins.in1.asR64.bind jumpR64).map .plain
  | .call => (ins.in1.asR64.bind call).map .plain
  | .ret => some (.plain ret)
  | .nopN => ins.in1.asU32.map fun count => .plain (nops hasMultibyteNop count)
  | .udN => (ins.in1.asU32.bind uds).map .plain
  | _ => (encode ins).map .plain

/-- One turn of the loop over the instructions. -/
def step (ir : IR) (i : Nat) (ins : Instruction) (g : Generation) : Option Generation := do
  let g := report ir i g
  let a ← emit hasMultibyteNop encode g.assembler ins
  some { g with assembler := a }

/-- The loop over the instructions from the one at `i`. -/
def generateFrom (ir : IR) (i : Nat) (g : Generation) : List Instruction → Option Generation
  | [] => some g
  | ins :: instructions => do
    let g ← step hasMultibyteNop encode ir i ins g
    generateFrom ir (i + 1) g instructions

def tryGenerate (ir : IR) : Option NativeBasicBlock := do
  let g ← generateFrom hasMultibyteNop encode ir 0 { assembler := { labels := ir.labels.map fun _ => {} } } ir.instructions
  some {
    nativecode := g.assembler.patchJumps.code
    offsetOfJumpLandingPad := g.offsetOfJumpLandingPad
    offsetOfReplaceableJumpToContinuingBlock := g.offsetOfReplaceableJumpToContinuingBlock
    offsetOfReplaceableJumpToConditionalBlock := g.offsetOfReplaceableJumpToConditionalBlock
    offsetOfReplaceableCallstackPush := g.offsetOfReplaceableCallstackPush
    offsetOfReplaceableCallstackPop := g.offsetOfReplaceableCallstackPop }

end

end CodeGenerator

end X64Emulator
