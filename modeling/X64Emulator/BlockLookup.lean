import X64Emulator.CompiledBitTests
import X64Emulator.HostMachine

/-!
# The lookup of compiled code

The code that looks the address of the guest up in the table of the block that is running. It reads its argument, the block, the
table in it with two parallel arrays, and the block of the entry that it finds.
-/

namespace X64Emulator

open Ir

namespace Ir.IrGenerator

def STACK_PTR : Mem := ⟨.unk, ⟨.rsp, .zero, 0, 0⟩⟩

def push64 (src : R64) : Instruction :=
  { op := .push, out := .m64 STACK_PTR, in1 := .r64 src, impactedRegisters64 := [.rsp] }

def pop64 (dst : R64) : Instruction :=
  { op := .pop, out := .r64 dst, in1 := .m64 STACK_PTR, impactedRegisters64 := [.rsp] }

/-- `mov` between registers -/
def movReg (dst src : R64) : Instruction := { op := .mov, out := .r64 dst, in1 := .r64 src }

/-- `mov` from memory -/
def movMem (dst : R64) (src : Encoding64) : Instruction := { op := .mov, out := .r64 dst, in1 := .m64 ⟨.cs, src⟩ }

def lea (dst : R64) (src : Encoding64) : Instruction := { op := .lea, out := .r64 dst, in1 := .m64 ⟨.cs, src⟩ }

def cmp (lhs rhs : R64) : Instruction := { op := .cmp, in1 := .r64 lhs, in2 := .r64 rhs }

def test (lhs rhs : R64) : Instruction := { op := .test, in1 := .r64 lhs, in2 := .r64 rhs }

def xor_ (dst src : R64) : Instruction := { op := .xor, out := .r64 dst, in1 := .r64 dst, in2 := .r64 src }

def inc (dst : R64) : Instruction := { op := .inc, out := .r64 dst, in1 := .r64 dst }

end Ir.IrGenerator

namespace Compiler

open IrGenerator

def BBPTR_OFFSET : Int32 := 0x58

def NATIVE_BLOCK_OFFSET : Int32 := 0x18

def BLOCK_LOOKUP_TABLE_OFFSET : Int32 := 0x20

def ADDRESS_LOOKUP_OFFSET : Int32 := 0x08

def BASICBLOCK_LOOKUP_OFFSET : Int32 := 0x10

/-- The calls of `tryCompileBlockLookup`, in a block that has no labels yet. -/
def tryCompileBlockLookup : List Call :=
  let loopBody := 0
  let nextLoop := 1
  let fail := 2
  let exit := 3
  let TABLE_BASE := R64.r13
  let SEARCHED_ADDRESS := R64.r14
  let TABLE_SIZE := R64.r15
  let COUNTER := get .GPR1
  [ .emit (push64 .r13), .emit (push64 .r14), .emit (push64 .r15),
    -- the table, the address and the size
    .emit (movMem .r13 (make64 .rdi BBPTR_OFFSET)),
    .emit (lea .r13 (make64 .r13 BLOCK_LOOKUP_TABLE_OFFSET)),
    .emit (readReg64 .GPR0 .rip),
    .emit (movReg SEARCHED_ADDRESS (get .GPR0)),
    .emit (movMem TABLE_SIZE (make64 TABLE_BASE 0)),
    .emit (xor_ COUNTER COUNTER),
    .label, .label, .label, .label,
    .putLabel loopBody,
    .emit (cmp COUNTER TABLE_SIZE),
    .jumpCondition .e fail,
    .emit (movMem (get .GPR0) (make64 TABLE_BASE ADDRESS_LOOKUP_OFFSET)),
    .emit (movMem (get .GPR0) (make64Index (get .GPR0) (get .GPR1) 8 0)),
    .emit (cmp (get .GPR0) SEARCHED_ADDRESS),
    .jumpCondition .ne nextLoop,
    -- the entry is found: its block, and the native code of that
    .emit (movMem (get .GPR0) (make64 TABLE_BASE BASICBLOCK_LOOKUP_OFFSET)),
    .emit (movMem (get .GPR1) (make64Index (get .GPR0) (get .GPR1) 8 0)),
    .emit (test (get .GPR1) (get .GPR1)),
    .jumpCondition .e fail,
    .emit (movMem (get .GPR0) (make64 (get .GPR1) NATIVE_BLOCK_OFFSET)),
    .emit (test (get .GPR0) (get .GPR0)),
    .jumpCondition .e fail,
    .jump exit,
    .putLabel nextLoop,
    .emit (inc COUNTER),
    .jump loopBody,
    .putLabel fail,
    .emit (xor_ (get .GPR0) (get .GPR0)),
    .putLabel exit,
    .emit (pop64 .r15), .emit (pop64 .r14), .emit (pop64 .r13)]

end Compiler

end X64Emulator
