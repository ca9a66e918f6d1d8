import X64Emulator.Handlers
import X64Emulator.Lib.Bits
import Mathlib.Algebra.Group.Int.Defs
import Mathlib.Algebra.Group.Nat.Defs

/-!
# Bit tests with the index in a register

The handlers by their operation, and what the architecture says of the instructions. An operand in memory is the beginning of a
string of bits that goes in both directions: a signed index selects a byte of it and a place there. In a register the index is
taken modulo the width.
-/

namespace X64Emulator

open Bits Ir

inductive BitTest where
  | bt
  | btr
  | btc
  | bts
deriving DecidableEq, Repr

namespace BitTest

open Cpu

variable {w : Nat}

/-- The handler of an operation. -/
def exec : BitTest → (width : BitWidth) → RM width.operand → width.operand.Reg → Cpu → Option Cpu
  | .bt, .u16, dst, bit => execBtRM16R16 dst bit
  | .bt, .u32, dst, bit => execBtRM32R32 dst bit
  | .bt, .u64, dst, bit => execBtRM64R64 dst bit
  | .btr, .u16, dst, bit => execBtrRM16R16 dst bit
  | .btr, .u32, dst, bit => execBtrRM32R32 dst bit
  | .btr, .u64, dst, bit => execBtrRM64R64 dst bit
  | .btc, .u16, dst, bit => execBtcRM16R16 dst bit
  | .btc, .u32, dst, bit => execBtcRM32R32 dst bit
  | .btc, .u64, dst, bit => execBtcRM64R64 dst bit
  | .bts, .u16, dst, bit => execBtsRM16R16 dst bit
  | .bts, .u32, dst, bit => execBtsRM32R32 dst bit
  | .bts, .u64, dst, bit => execBtsRM64R64 dst bit

/-- What the operation makes of the bit. -/
def update : BitTest → Bool → Bool
  | .bt, b => b
  | .btr, _ => false
  | .btc, b => !b
  | .bts, _ => true

/-- Whether the operation writes its operand. -/
def writes : BitTest → Bool
  | .bt => false
  | _ => true

def setCarry (c : Cpu) (carry : Bool) : Cpu := c.setFlags { c.flags with carry := carry }

/-- Bit `k` of the `w` bits at an address goes to the carry, and is updated. -/
def onBit (op : BitTest) (w : Nat) (ptr : BitVec 64) (k : Nat) (c : Cpu) : Option Cpu := do
  let base ← c.getPtr w ptr
  let old := base.getLsbD k
  if op.writes then (setCarry c old).setPtr ptr (setBit base k (op.update old)) else some (setCarry c old)

/-- The byte of the string of bits at `address` that an index selects. -/
def bitByte (address : BitVec 64) (index : BitVec w) : BitVec 64 := address + BitVec.ofInt 64 (index.toInt / 8)

/-- The place of the bit in its byte. -/
def bitPlace (index : BitVec w) : Nat := (index.toInt % 8).toNat

/-- The instruction with an operand in memory, as the architecture defines it. -/
def onMemory (op : BitTest) (address : BitVec 64) (index : BitVec w) (c : Cpu) : Option Cpu :=
  op.onBit 8 (bitByte address index) (bitPlace index) c

/-- The instruction with a register for its operand. -/
def onRegister (op : BitTest) (width : OperandWidth) (reg : width.Reg) (index : BitVec width.bits) (c : Cpu) : Option Cpu :=
  let base := c.get width reg
  let k := index.toNat % width.bits
  let old := base.getLsbD k
  if op.writes then (setCarry c old).set width reg (setBit base k (op.update old)) else some (setCarry c old)

end BitTest

end X64Emulator
