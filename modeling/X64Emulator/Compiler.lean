import X64Emulator.CodeGenerator
import X64Emulator.Optimizer
import X64Emulator.Lib.Patching

/-!
# The compiler

A block is generated in four parts, of which the second is optimized. The code that keeps the call stack is put into the native
code at its end, where the generator was told to leave room for it.
-/

namespace X64Emulator

open Ir Assembler

namespace Ir

namespace IrGenerator

/-- `IrGenerator::JumpKind` -/
inductive JumpKind where
  | nextBlock
  | otherBlock
deriving DecidableEq, Repr

/-- A label has the number it has among the labels. -/
structure Label where
  labelPosition : UInt32 := -1
  jumpsToMe : List Nat := []
deriving DecidableEq, Repr

/-- What the compiler asks of the generator. The functions that emit an instruction without a label are one. -/
inductive Call where
  | emit (ins : Instruction)
  | label
  | putLabel (label : Nat)
  | jumpCondition (cond : Cond) (label : Nat)
  | jump (label : Nat)
  | reportJump (jumpKind : JumpKind)
  | reportJumpLanding
  | reportPushCallstack (retAddress : UInt64)
  | reportPopCallstack
deriving DecidableEq, Repr

def uds (count : Nat) : Instruction := { op := .udN, in1 := .u32 count.toUInt32 }

end IrGenerator

/-- The block that is being generated. -/
structure IrGenerator where
  instructions : List Instruction := []
  labels : List IrGenerator.Label := []
  jumpKinds : List (Nat × IrGenerator.JumpKind) := []
  jumpLanding : Option Nat := none
  pushCallstacks : Option (Nat × UInt64) := none
  popCallstacks : Option Nat := none
deriving DecidableEq, Repr

namespace IrGenerator

def emit (g : IrGenerator) (ins : Instruction) : IrGenerator := { g with instructions := g.instructions ++ [ins] }

/-- The next instruction is one that jumps to a label. -/
def jumpsTo (g : IrGenerator) (label : Nat) : IrGenerator :=
  { g with labels := g.labels.modify label fun l => { l with jumpsToMe := l.jumpsToMe ++ [g.instructions.length] } }

/-- A second report of the landing or of the call stack is a failed `verify`. -/
def call (g : IrGenerator) : Call → Option IrGenerator
  | .emit ins => some (g.emit ins)
  | .label => some { g with labels := g.labels ++ [{}] }
  | .putLabel label =>
    some { g with labels := g.labels.modify label fun l => { l with labelPosition := g.instructions.length.toUInt32 } }
  | .jumpCondition cond label =>
    some ((g.jumpsTo label).emit { op := .jcc, in1 := .labelIndex (-1), condition := some cond })
  | .jump label => some ((g.jumpsTo label).emit { op := .jmp, in1 := .labelIndex (-1) })
  | .reportJump jumpKind => some { g with jumpKinds := g.jumpKinds ++ [(g.instructions.length, jumpKind)] }
  | .reportJumpLanding => if g.jumpLanding.isSome then none else some { g with jumpLanding := some g.instructions.length }
  | .reportPushCallstack retAddress =>
    if g.pushCallstacks.isSome then none else some { g with pushCallstacks := some (g.instructions.length, retAddress) }
  | .reportPopCallstack =>
    if g.popCallstacks.isSome then none else some { g with popCallstacks := some g.instructions.length }

/-- An instruction with the label it jumps to. -/
def setLabelIndex (instructions : List Instruction) (index jumpPosition : Nat) : Option (List Instruction) := do
  let ins ← instructions[jumpPosition]?
  let _ ← ins.in1.asLabelIndex
  some (instructions.set jumpPosition { ins with in1 := .labelIndex index.toUInt32 })

def closeLabel (instructions : List Instruction) (entry : Label × Nat) : Option (List Instruction) :=
  entry.1.jumpsToMe.foldlM (fun instructions => setLabelIndex instructions entry.2) instructions

/-- Where a jump of a kind was reported, which may be once at most. -/
def jumpOf (jumpKinds : List (Nat × JumpKind)) (kind : JumpKind) : Option (Option Nat) :=
  match jumpKinds.filter (·.2 = kind) with
  | [] => some none
  | [jump] => some (some jump.1)
  | _ => none

def generateIR (g : IrGenerator) : Option IR := do
  let instructions ← g.labels.zipIdx.foldlM closeLabel g.instructions
  let jumpToNext ← jumpOf g.jumpKinds .nextBlock
  let jumpToOther ← jumpOf g.jumpKinds .otherBlock
  some {
    instructions
    labels := g.labels.map fun l => l.labelPosition.toNat
    jumpLanding := g.jumpLanding
    jumpToNext, jumpToOther
    pushCallstack := g.pushCallstacks
    popCallstack := g.popCallstacks }

/-- The block that is made by some calls to a generator that was cleared. -/
def generated (calls : List Call) : Option IR := do
  let g ← calls.foldlM call {}
  g.generateIR

end IrGenerator

end Ir

namespace Compiler

/-- `Compiler::Reg` -/
inductive Reg where
  | GPR0
  | GPR1
  | MEM_ADDR
  | REG_BASE
  | MMX_BASE
  | XMM_BASE
  | MEM_BASE
deriving DecidableEq, Repr

def get : Reg → R64
  | .GPR0 => .r8
  | .GPR1 => .r9
  | .MEM_ADDR => .r10
  | .REG_BASE => .rsi
  | .MMX_BASE => .r11
  | .XMM_BASE => .rdx
  | .MEM_BASE => .rcx

/-- `make64` of a base and a displacement. -/
def make64 (base : R64) (disp : Int32) : Encoding64 := ⟨base, .zero, 1, disp⟩

/-- `make64` of a base, an index, a scale and a displacement. -/
def make64Index (base index : R64) (scale : UInt8) (disp : Int32) : Encoding64 := ⟨base, index, scale, disp⟩

/-- Instructions that an assembler writes one after the other. -/
def written (codes : List (Option Code)) : Option Code := (codes.mapM id).map List.flatten

def pushCallstackCode (dst : UInt64) (tmp1 tmp2 : Reg) : Option Code :=
  written [
    -- the size of the call stack is incremented, and stays in `tmp1`
    movR64M64 (get tmp2) (make64 .rdi 0x48),
    movR64M64 (get tmp1) (make64 (get tmp2) 0),
    leaR64M64 (get tmp1) (make64 (get tmp1) 1),
    movM64R64 (make64 (get tmp2) 0) (get tmp1),
    -- the new entry
    movR64M64 (get tmp2) (make64 .rdi 0x40),
    leaR64M64 (get tmp2) (make64Index (get tmp2) (get tmp1) 8 (-8)),
    movR64U64 (get tmp1) dst,
    movM64R64 (make64 (get tmp2) 0) (get tmp1)]

def popCallstackCode (dst tmp1 tmp2 : Reg) : Option Code :=
  written [
    movR64M64 (get tmp2) (make64 .rdi 0x48),
    movR64M64 (get tmp1) (make64 (get tmp2) 0),
    leaR64M64 (get tmp1) (make64 (get tmp1) (-1)),
    movM64R64 (make64 (get tmp2) 0) (get tmp1),
    -- the entry is read, and a zero is left in it
    movR64M64 (get tmp2) (make64 .rdi 0x40),
    leaR64M64 (get tmp2) (make64Index (get tmp2) (get tmp1) 8 0),
    movR64M64 (get dst) (make64 (get tmp2) 0),
    push64 (get dst),
    movR64U64 (get tmp1) 0,
    movM64R64 (make64 (get tmp2) 0) (get tmp1),
    pop64 (get dst)]

/-- The calls of `tryCompileCall` that make room for the push to the call stack. -/
def placePush (retAddress : UInt64) : Option (List IrGenerator.Call) :=
  (pushCallstackCode 0x0 .GPR0 .GPR1).map fun code =>
    [.reportPushCallstack retAddress, .emit (IrGenerator.uds code.length)]

/-- The calls of `tryCompileRet` that make room for the pop from the call stack. -/
def placePop : Option (List IrGenerator.Call) :=
  (popCallstackCode .GPR0 .GPR0 .GPR1).map fun code =>
    [.reportPopCallstack, .emit (IrGenerator.uds code.length)]

/-- The optimizer ends within one round for each instruction and one more. -/
def optimized (optimizationLevel : Int) (body : IR) : Option IR :=
  if optimizationLevel ≥ 1 then (Optimizer.optimize (body.instructions.length + 1) body {}).map Prod.fst else some body

/-- `tryCompileIR`, of the calls that the four parts make. -/
def tryCompileIR (optimizationLevel : Int) (entry body exitPreparation basicBlockExit : List IrGenerator.Call) :
    Option IR := do
  let entry ← IrGenerator.generated entry
  let body ← IrGenerator.generated body
  let body ← optimized optimizationLevel body
  let exitPreparation ← IrGenerator.generated exitPreparation
  let basicBlockExit ← IrGenerator.generated basicBlockExit
  let wholeIr ← ({} : IR).add entry
  let wholeIr ← wholeIr.add body
  let wholeIr ← wholeIr.add exitPreparation
  wholeIr.add basicBlockExit

/-- Copies code over that of a block. -/
def replace (bb : CodeGenerator.NativeBasicBlock) (offset : Option Nat) (replacementCode : Option Code) :
    Option CodeGenerator.NativeBasicBlock :=
  match offset with
  | none => some bb
  | some offset => do
    let code ← replacementCode
    if offset + code.length ≤ bb.nativecode.length then
      some { bb with nativecode := Patching.overwrite bb.nativecode offset code }
    else none

def tryCompile (hasMultibyteNop : Bool) (encode : Instruction → Option Code) (wholeIr : Option IR) :
    Option CodeGenerator.NativeBasicBlock := do
  let ir ← wholeIr
  let bb ← CodeGenerator.tryGenerate hasMultibyteNop encode ir
  let bb ← replace bb (bb.offsetOfReplaceableCallstackPush.map Prod.fst) (pushCallstackCode 0x0 .GPR0 .GPR1)
  replace bb bb.offsetOfReplaceableCallstackPop (popCallstackCode .GPR0 .GPR0 .GPR1)

end Compiler

end X64Emulator
