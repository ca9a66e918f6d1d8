import Mathlib.Algebra.Group.Nat.Defs
import X64Emulator.Ir

/-!
# The assembler

The instructions of the host whose memory operand is encoded by `Assembler::opRegMem`, the move of an immediate to memory,
which encodes its operand itself, and the instructions that the flow of the code is made of, with the labels they jump to. An
assertion or a verification that fails leaves no code.
-/

namespace X64Emulator

namespace Assembler

open Ir

/-- Native code. -/
abbrev Code := List UInt8

/-- `Assembler::REX` -/
inductive REX where
  | NONE
  | W
deriving DecidableEq, Repr

/-- A register that an instruction can name: the number of its enumerator, and the three bits of it in an encoding. -/
class HostRegister (Reg : Type) where
  number : Reg → UInt8
  encodeRegister : Reg → Option UInt8

open HostRegister

instance : HostRegister R8 where
  number reg := reg.ctorIdx.toUInt8
  encodeRegister reg := if reg.ctorIdx.toUInt8 < 16 then some (reg.ctorIdx.toUInt8 &&& 0x7) else none

instance : HostRegister R16 where
  number reg := reg.ctorIdx.toUInt8
  encodeRegister reg := some (reg.ctorIdx.toUInt8 &&& 0x7)

instance : HostRegister R32 where
  number reg := reg.ctorIdx.toUInt8
  encodeRegister reg := some (reg.ctorIdx.toUInt8 &&& 0x7)

instance : HostRegister R64 where
  number reg := reg.ctorIdx.toUInt8
  encodeRegister reg := some (reg.ctorIdx.toUInt8 &&& 0x7)

instance : HostRegister MMX where
  number reg := reg.ctorIdx.toUInt8
  encodeRegister reg := some (reg.ctorIdx.toUInt8 &&& 0x7)

instance : HostRegister XMM where
  number reg := reg.ctorIdx.toUInt8
  encodeRegister reg := some (reg.ctorIdx.toUInt8 &&& 0x7)

def encodeScale (scale : UInt8) : Option UInt8 :=
  if scale = 1 then some 0b00
  else if scale = 2 then some 0b01
  else if scale = 4 then some 0b10
  else if scale = 8 then some 0b11
  else none

def write32 (value : UInt32) : Code :=
  [((value >>> 0) &&& 0xFF).toUInt8, ((value >>> 8) &&& 0xFF).toUInt8, ((value >>> 16) &&& 0xFF).toUInt8,
    ((value >>> 24) &&& 0xFF).toUInt8]

def writerex (value : UInt8) : Code := if value = 0x40 then [] else [value]

/-- The prefix that tells which registers are among the upper eight. -/
def rexByte (rexw : REX) (reg index base : Bool) : UInt8 :=
  0x40 ||| (if rexw = .W then 8 else 0) ||| (if reg then 4 else 0) ||| (if index then 2 else 0) ||| (if base then 1 else 0)

/-- The three fields of the bytes that encode a memory operand, the first of them in its place. -/
def modrm (mode r rm : UInt8) : UInt8 := mode ||| (r <<< 3) ||| rm

/-- A displacement that a signed byte holds. -/
def isByte (displacement : Int32) : Bool := displacement.toInt8.toInt32 = displacement

section

variable {Reg : Type} [HostRegister Reg]

/-- `opRegMem` of an operand without an index. -/
def opRegBase (inss : Code) (reg : Reg) (mem : Encoding64) (rexw : REX) : Option Code := do
  let rex := writerex (rexByte rexw (8 ≤ number reg) false (8 ≤ number mem.base))
  let r ← encodeRegister reg
  let b ← encodeRegister mem.base
  if mem.displacement = 0 then
    if mem.base = .rsp ∨ mem.base = .r12 then
      some (rex ++ inss ++ [modrm 0b00000000 r 4, modrm 0b00000000 b 4])
    else if mem.base = .rbp ∨ mem.base = .r13 then
      some (rex ++ inss ++ [modrm 0b01000000 r b, 0])
    else
      some (rex ++ inss ++ [modrm 0b00000000 r b])
  else if isByte mem.displacement then
    if mem.base = .rsp ∨ mem.base = .r12 then
      some (rex ++ inss ++ [modrm 0b01000000 r 4, modrm 0b00000000 b 4] ++ [mem.displacement.toInt8.toUInt8])
    else
      some (rex ++ inss ++ [modrm 0b01000000 r b] ++ [mem.displacement.toInt8.toUInt8])
  else
    if mem.base = .rsp ∨ mem.base = .r12 then
      some (rex ++ inss ++ [modrm 0b10000000 r 4, modrm 0b00000000 b 4] ++ write32 mem.displacement.toUInt32)
    else
      some (rex ++ inss ++ [modrm 0b10000000 r b] ++ write32 mem.displacement.toUInt32)

/-- `opRegMem` of an operand with an index. -/
def opRegIndex (inss : Code) (reg : Reg) (mem : Encoding64) (rexw : REX) : Option Code := do
  if mem.index = .rsp then none
  else
    let rex := writerex (rexByte rexw (8 ≤ number reg) (8 ≤ number mem.index) (8 ≤ number mem.base))
    let r ← encodeRegister reg
    let s ← encodeScale mem.scale
    let i ← encodeRegister mem.index
    let b ← encodeRegister mem.base
    if isByte mem.displacement then
      some (rex ++ inss ++ [modrm 0b01000000 r 0b100, modrm (s <<< 6) i b] ++ [mem.displacement.toInt8.toUInt8])
    else
      some (rex ++ inss ++ [modrm 0b10000000 r 0b100, modrm (s <<< 6) i b] ++ write32 mem.displacement.toUInt32)

def opRegMem (inss : Code) (reg : Reg) (mem : Encoding64) (rexw : REX) : Option Code :=
  if mem.index = .zero then opRegBase inss reg mem rexw else opRegIndex inss reg mem rexw

/-- A prefix that is written before `opRegMem`. -/
def prefixed (value : UInt8) (code : Option Code) : Option Code := code.map (value :: ·)

end

/-! ## The instructions

An overloaded function of the source is named after its operands as well. -/

def movR8M8 (dst : R8) (src : Encoding64) : Option Code := opRegMem [0x8a] dst src .NONE

def movM8R8 (dst : Encoding64) (src : R8) : Option Code := opRegMem [0x88] src dst .NONE

def movR16M16 (dst : R16) (src : Encoding64) : Option Code := prefixed 0x66 (opRegMem [0x8b] dst src .NONE)

def movM16R16 (dst : Encoding64) (src : R16) : Option Code := prefixed 0x66 (opRegMem [0x89] src dst .NONE)

def movR32M32 (dst : R32) (src : Encoding64) : Option Code := opRegMem [0x8b] dst src .NONE

def movM32R32 (dst : Encoding64) (src : R32) : Option Code := opRegMem [0x89] src dst .NONE

def movR64M64 (dst : R64) (src : Encoding64) : Option Code := opRegMem [0x8b] dst src .W

def movM64R64 (dst : Encoding64) (src : R64) : Option Code := opRegMem [0x89] src dst .W

def lockcmpxchgM32R32 (dst : Encoding64) (src : R32) : Option Code := prefixed 0xf0 (opRegMem [0x0f, 0xb1] src dst .NONE)

def lockcmpxchgM64R64 (dst : Encoding64) (src : R64) : Option Code := prefixed 0xf0 (opRegMem [0x0f, 0xb1] src dst .W)

def lockxaddM32R32 (dst : Encoding64) (src : R32) : Option Code := prefixed 0xf0 (opRegMem [0x0f, 0xc1] src dst .NONE)

def leaR32M32 (dst : R32) (src : Encoding64) : Option Code := opRegMem [0x8d] dst src .NONE

def leaR32M64 (dst : R32) (src : Encoding64) : Option Code := opRegMem [0x8d] dst src .NONE

def leaR64M64 (dst : R64) (src : Encoding64) : Option Code := opRegMem [0x8d] dst src .W

def movdMMXM32 (dst : MMX) (src : Encoding64) : Option Code := opRegMem [0x0f, 0x6e] dst src .NONE

def movdM32MMX (dst : Encoding64) (src : MMX) : Option Code := opRegMem [0x0f, 0x7e] src dst .NONE

def movqMMXM64 (dst : MMX) (src : Encoding64) : Option Code := opRegMem [0x0f, 0x6e] dst src .W

def movqM64MMX (dst : Encoding64) (src : MMX) : Option Code := opRegMem [0x0f, 0x7e] src dst .W

def movaXMMM128 (dst : XMM) (src : Encoding64) : Option Code := prefixed 0x66 (opRegMem [0x0f, 0x6f] dst src .NONE)

def movaM128XMM (dst : Encoding64) (src : XMM) : Option Code := prefixed 0x66 (opRegMem [0x0f, 0x7f] src dst .NONE)

def movuXMMM128 (dst : XMM) (src : Encoding64) : Option Code := prefixed 0xf3 (opRegMem [0x0f, 0x6f] dst src .NONE)

def movuM128XMM (dst : Encoding64) (src : XMM) : Option Code := prefixed 0xf3 (opRegMem [0x0f, 0x7f] src dst .NONE)

def movdXMMM32 (dst : XMM) (src : Encoding64) : Option Code := prefixed 0x66 (opRegMem [0x0f, 0x6e] dst src .NONE)

def movdM32XMM (dst : Encoding64) (src : XMM) : Option Code := prefixed 0x66 (opRegMem [0x0f, 0x7e] src dst .NONE)

def movssXMMM32 (dst : XMM) (src : Encoding64) : Option Code := prefixed 0xf3 (opRegMem [0x0f, 0x10] dst src .NONE)

def movssM32XMM (dst : Encoding64) (src : XMM) : Option Code := prefixed 0xf3 (opRegMem [0x0f, 0x11] src dst .NONE)

def movsdXMMM64 (dst : XMM) (src : Encoding64) : Option Code := prefixed 0xf2 (opRegMem [0x0f, 0x10] dst src .NONE)

def movsdM64XMM (dst : Encoding64) (src : XMM) : Option Code := prefixed 0xf2 (opRegMem [0x0f, 0x11] src dst .NONE)

def movlpsXMMM64 (dst : XMM) (src : Encoding64) : Option Code := opRegMem [0x0f, 0x12] dst src .NONE

def movlpsM64XMM (dst : Encoding64) (src : XMM) : Option Code := opRegMem [0x0f, 0x13] src dst .NONE

def movhpsXMMM64 (dst : XMM) (src : Encoding64) : Option Code := opRegMem [0x0f, 0x16] dst src .NONE

def movhpsM64XMM (dst : Encoding64) (src : XMM) : Option Code := opRegMem [0x0f, 0x17] src dst .NONE

/-- `mov` of an immediate to 64 bits of memory. -/
def movM64U32 (dst : Encoding64) (imm : UInt32) : Option Code := do
  let b ← encodeRegister dst.base
  if dst.index = .zero then
    let rex := rexByte .W false false (8 ≤ number dst.base)
    if dst.displacement = 0 then
      if dst.base = .rbp then none
      else some ([rex, 0xc7, modrm 0b00000000 0b0 b] ++ write32 imm)
    else if isByte dst.displacement then
      some ([rex, 0xc7, modrm 0b01000000 0b0 b, dst.displacement.toInt8.toUInt8] ++ write32 imm)
    else
      some ([rex, 0xc7, modrm 0b10000000 0b0 b] ++ write32 dst.displacement.toUInt32 ++ write32 imm)
  else
    let s ← encodeScale dst.scale
    let i ← encodeRegister dst.index
    some ([rexByte .W false (8 ≤ number dst.index) (8 ≤ number dst.base), 0xc7, modrm 0b10000000 0b0 0b100,
      modrm (s <<< 6) i b] ++ write32 dst.displacement.toUInt32 ++ write32 imm)

/-! ## Jumps, returns and fillers -/

def write16 (value : UInt16) : Code := [((value >>> 0) &&& 0xFF).toUInt8, ((value >>> 8) &&& 0xFF).toUInt8]

def write64 (value : UInt64) : Code :=
  [((value >>> 0) &&& 0xFF).toUInt8, ((value >>> 8) &&& 0xFF).toUInt8, ((value >>> 16) &&& 0xFF).toUInt8,
    ((value >>> 24) &&& 0xFF).toUInt8, ((value >>> 32) &&& 0xFF).toUInt8, ((value >>> 40) &&& 0xFF).toUInt8,
    ((value >>> 48) &&& 0xFF).toUInt8, ((value >>> 56) &&& 0xFF).toUInt8]

def movR64U64 (dst : R64) (imm : UInt64) : Option Code := do
  let r ← encodeRegister dst
  some ([0x48 ||| (if 8 ≤ number dst then 1 else 0), 0xb8 + r] ++ write64 imm)

def push64 (src : R64) : Option Code := do
  let r ← encodeRegister src
  some [0x40 ||| (if 8 ≤ number src then 1 else 0), 0x50 + r]

def pop64 (dst : R64) : Option Code := do
  let r ← encodeRegister dst
  some [0x40 ||| (if 8 ≤ number dst then 1 else 0), 0x58 + r]

/-- `jump` to what a register holds. -/
def jumpR64 (dst : R64) : Option Code := do
  let r ← encodeRegister dst
  some ((if 8 ≤ number dst then [0x41] else []) ++ [0xff, modrm 0b11000000 0b100 r])

def call (src : R64) : Option Code := do
  let r ← encodeRegister src
  some ((if 8 ≤ number src then [0x41] else []) ++ [0xff, modrm 0b11000000 0b010 r])

def ret : Code := [0xc3]

def nop : Code := [0x90]

/-- The loop of `nops` on a host that has longer ones. -/
def multibyteNops : Nat → Code
  | count + 8 => write64 0x0000000000841F0F ++ multibyteNops count
  | count + 4 => write32 0x00401F0F ++ multibyteNops count
  | count + 2 => write16 0x9066 ++ multibyteNops count
  | count + 1 => nop ++ multibyteNops count
  | 0 => []

def nops (hasMultibyteNop : Bool) (count : Nat) : Code :=
  if hasMultibyteNop then multibyteNops count else List.replicate count 0x90

def ud : Code := write16 0x0b0f

/-- The loop of `uds`. -/
def udsLoop : Nat → Code
  | count + 2 => ud ++ udsLoop count
  | count + 1 => nop ++ udsLoop count
  | 0 => []

def uds (count : Nat) : Option Code := if 2 ≤ count then some (udsLoop count) else none

/-- The second byte of a jump that has a condition. -/
def conditionOpcode : Cond → Option UInt8
  | .o => some 0x80
  | .no => some 0x81
  | .b => some 0x82
  | .nb | .ae => some 0x83
  | .e => some 0x84
  | .ne => some 0x85
  | .be => some 0x86
  | .nbe | .a => some 0x87
  | .s => some 0x88
  | .ns => some 0x89
  | .p => some 0x8A
  | .np => some 0x8B
  | .l => some 0x8C
  | .ge => some 0x8D
  | .le => some 0x8E
  | .g => some 0x8F
  | .nu | .u => none

/-- A label has the number it has among the labels. Until it is put its position is the largest there is. -/
structure Label where
  positionInCode : Nat := 2 ^ 64 - 1
  jumpsToMe : List Nat := []
deriving DecidableEq, Repr

/-- Puts in the displacements of the jumps to a label. -/
def closeLabel (code : Code) (label : Label) : Code :=
  label.jumpsToMe.foldl (fun code jumpPosition =>
    let offset := (UInt64.ofNat label.positionInCode - UInt64.ofNat jumpPosition - 4).toUInt32
    (((code.set (jumpPosition + 0) ((offset >>> 0) &&& 0xFF).toUInt8).set
      (jumpPosition + 1) ((offset >>> 8) &&& 0xFF).toUInt8).set
      (jumpPosition + 2) ((offset >>> 16) &&& 0xFF).toUInt8).set
      (jumpPosition + 3) ((offset >>> 24) &&& 0xFF).toUInt8) code

end Assembler

/-- The code that has been written, and the labels. -/
structure Assembler where
  code : Assembler.Code := []
  labels : List Assembler.Label := []
deriving DecidableEq, Repr

namespace Assembler

def write (a : Assembler) (code : Code) : Assembler := { a with code := a.code ++ code }

/-- Puts every label that `p` selects. -/
def putLabels (a : Assembler) (p : Nat → Bool) : Assembler :=
  { a with labels := a.labels.mapIdx fun l label => if p l then { label with positionInCode := a.code.length } else label }

/-- What stands for the displacement of a jump until its label is closed. -/
def writeDisplacement (a : Assembler) (label : Nat) : Option Assembler :=
  if label < a.labels.length then
    some {
      code := a.code ++ write32 0x87654321
      labels := a.labels.modify label fun l => { l with jumpsToMe := l.jumpsToMe ++ [a.code.length] } }
  else none

def jumpCondition (a : Assembler) (cond : Ir.Cond) (label : Nat) : Option Assembler := do
  let opcode ← conditionOpcode cond
  ((a.write [0x0F]).write [opcode]).writeDisplacement label

def jump (a : Assembler) (label : Nat) : Option Assembler := (a.write [0xe9]).writeDisplacement label

def patchJumps (a : Assembler) : Assembler where
  code := a.labels.foldl closeLabel a.code
  labels := []

end Assembler

end X64Emulator
