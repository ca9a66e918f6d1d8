import X64Emulator.Assembler

/-!
# Machine code

How the host reads the instructions whose memory operand the assembler encodes: a prefix, the REX prefix, the opcode, and the
bytes of the operand. Nothing here is taken from the assembler. Other instructions are not read; those on registers and immediates
have a reader of their own.
-/

namespace X64Emulator

namespace MachineCode

open Ir Assembler

/-! ## Registers -/

inductive RegisterClass where
  | r8 | r16 | r32 | r64 | mmx | xmm
deriving DecidableEq, Repr

abbrev RegisterClass.Register : RegisterClass → Type
  | .r8 => R8
  | .r16 => R16
  | .r32 => R32
  | .r64 => R64
  | .mmx => MMX
  | .xmm => XMM

instance RegisterClass.hostRegister : (c : RegisterClass) → HostRegister c.Register
  | .r8 => inferInstanceAs (HostRegister R8)
  | .r16 => inferInstanceAs (HostRegister R16)
  | .r32 => inferInstanceAs (HostRegister R32)
  | .r64 => inferInstanceAs (HostRegister R64)
  | .mmx => inferInstanceAs (HostRegister MMX)
  | .xmm => inferInstanceAs (HostRegister XMM)

/-- The bits of the REX prefix. -/
structure Rex where
  w : Bool
  r : Bool
  x : Bool
  b : Bool
deriving DecidableEq, Repr

/-- The number of a register: three bits, and one of the REX prefix above them. -/
def extended (extension : Bool) (low : UInt8) : Nat := low.toNat + if extension then 8 else 0

def gpr (extension : Bool) (low : UInt8) : R64 :=
  [.rax, .rcx, .rdx, .rbx, .rsp, .rbp, .rsi, .rdi, .r8, .r9, .r10, .r11, .r12, .r13, .r14, .r15].getD (extended extension low) .rax

/-- Without a REX prefix four of the registers of a byte are the upper halves of others. -/
def byteRegister (rex : Option Rex) (low : UInt8) : R8 :=
  match rex with
  | none => [.al, .cl, .dl, .bl, .ah, .ch, .dh, .bh].getD low.toNat .al
  | some rex =>
    [.al, .cl, .dl, .bl, .spl, .bpl, .sil, .dil, .r8b, .r9b, .r10b, .r11b, .r12b, .r13b, .r14b, .r15b].getD
      (extended rex.r low) .al

/-- The register that an instruction names. -/
def RegisterClass.read (c : RegisterClass) (rex : Option Rex) (low : UInt8) : c.Register :=
  let number := extended (rex.any Rex.r) low
  match c with
  | .r8 => byteRegister rex low
  | .r16 => [.ax, .cx, .dx, .bx, .sp, .bp, .si, .di, .r8w, .r9w, .r10w, .r11w, .r12w, .r13w, .r14w, .r15w].getD number .ax
  | .r32 =>
    [.eax, .ecx, .edx, .ebx, .esp, .ebp, .esi, .edi, .r8d, .r9d, .r10d, .r11d, .r12d, .r13d, .r14d, .r15d].getD number .eax
  | .r64 => gpr (rex.any Rex.r) low
  | .mmx => [.mm0, .mm1, .mm2, .mm3, .mm4, .mm5, .mm6, .mm7].getD low.toNat .mm0
  | .xmm =>
    [.xmm0, .xmm1, .xmm2, .xmm3, .xmm4, .xmm5, .xmm6, .xmm7, .xmm8, .xmm9, .xmm10, .xmm11, .xmm12, .xmm13, .xmm14, .xmm15].getD
      number .xmm0

/-! ## Instructions -/

/-- The instructions with a register and a memory operand; a load names the register first. -/
inductive Form where
  | movR8M8 | movM8R8 | movR16M16 | movM16R16 | movR32M32 | movM32R32 | movR64M64 | movM64R64
  | lockcmpxchgM32R32 | lockcmpxchgM64R64 | lockxaddM32R32 | leaR32 | leaR64
  | movdMMXM32 | movdM32MMX | movqMMXM64 | movqM64MMX
  | movaXMMM128 | movaM128XMM | movuXMMM128 | movuM128XMM | movdXMMM32 | movdM32XMM
  | movssXMMM32 | movssM32XMM | movsdXMMM64 | movsdM64XMM
  | movlpsXMMM64 | movlpsM64XMM | movhpsXMMM64 | movhpsM64XMM
deriving DecidableEq, Repr

abbrev Form.registerClass : Form → RegisterClass
  | .movR8M8 | .movM8R8 => .r8
  | .movR16M16 | .movM16R16 => .r16
  | .movR32M32 | .movM32R32 | .lockcmpxchgM32R32 | .lockxaddM32R32 | .leaR32 => .r32
  | .movR64M64 | .movM64R64 | .lockcmpxchgM64R64 | .leaR64 => .r64
  | .movdMMXM32 | .movdM32MMX | .movqMMXM64 | .movqM64MMX => .mmx
  | .movaXMMM128 | .movaM128XMM | .movuXMMM128 | .movuM128XMM | .movdXMMM32 | .movdM32XMM | .movssXMMM32 | .movssM32XMM
  | .movsdXMMM64 | .movsdM64XMM | .movlpsXMMM64 | .movlpsM64XMM | .movhpsXMMM64 | .movhpsM64XMM => .xmm

inductive Instruction where
  | regMem (form : Form) (reg : form.registerClass.Register) (mem : Encoding64)
  | movM64U32 (mem : Encoding64) (imm : UInt32)

/-- A prefix before the REX prefix. -/
inductive Prefix where
  | none | operandSize | lock | repne | rep
deriving DecidableEq, Repr

/-- The opcodes, with the prefix that they are read with and the width of the REX prefix. -/
def opcodes : List ((Prefix × Bool × Code) × Form) :=
  [((.none, false, [0x8a]), .movR8M8), ((.none, false, [0x88]), .movM8R8),
    ((.operandSize, false, [0x8b]), .movR16M16), ((.operandSize, false, [0x89]), .movM16R16),
    ((.none, false, [0x8b]), .movR32M32), ((.none, false, [0x89]), .movM32R32),
    ((.none, true, [0x8b]), .movR64M64), ((.none, true, [0x89]), .movM64R64),
    ((.lock, false, [0x0f, 0xb1]), .lockcmpxchgM32R32), ((.lock, true, [0x0f, 0xb1]), .lockcmpxchgM64R64),
    ((.lock, false, [0x0f, 0xc1]), .lockxaddM32R32),
    ((.none, false, [0x8d]), .leaR32), ((.none, true, [0x8d]), .leaR64),
    ((.none, false, [0x0f, 0x6e]), .movdMMXM32), ((.none, false, [0x0f, 0x7e]), .movdM32MMX),
    ((.none, true, [0x0f, 0x6e]), .movqMMXM64), ((.none, true, [0x0f, 0x7e]), .movqM64MMX),
    ((.operandSize, false, [0x0f, 0x6f]), .movaXMMM128), ((.operandSize, false, [0x0f, 0x7f]), .movaM128XMM),
    ((.rep, false, [0x0f, 0x6f]), .movuXMMM128), ((.rep, false, [0x0f, 0x7f]), .movuM128XMM),
    ((.operandSize, false, [0x0f, 0x6e]), .movdXMMM32), ((.operandSize, false, [0x0f, 0x7e]), .movdM32XMM),
    ((.rep, false, [0x0f, 0x10]), .movssXMMM32), ((.rep, false, [0x0f, 0x11]), .movssM32XMM),
    ((.repne, false, [0x0f, 0x10]), .movsdXMMM64), ((.repne, false, [0x0f, 0x11]), .movsdM64XMM),
    ((.none, false, [0x0f, 0x12]), .movlpsXMMM64), ((.none, false, [0x0f, 0x13]), .movlpsM64XMM),
    ((.none, false, [0x0f, 0x16]), .movhpsXMMM64), ((.none, false, [0x0f, 0x17]), .movhpsM64XMM)]

/-! ## Reading -/

def takePrefix : Code → Prefix × Code
  | [] => (.none, [])
  | c :: code =>
    if c = 0x66 then (.operandSize, code)
    else if c = 0xf0 then (.lock, code)
    else if c = 0xf2 then (.repne, code)
    else if c = 0xf3 then (.rep, code)
    else (.none, c :: code)

def takeRex : Code → Option Rex × Code
  | [] => (none, [])
  | c :: code =>
    if c &&& 0xf0 = 0x40 then (some ⟨c &&& 8 ≠ 0, c &&& 4 ≠ 0, c &&& 2 ≠ 0, c &&& 1 ≠ 0⟩, code) else (none, c :: code)

def take8 : Code → Option (UInt8 × Code)
  | [] => none
  | c :: code => some (c, code)

def takeOpcode : Code → Option (Code × Code)
  | [] => none
  | c :: code => if c = 0x0f then (take8 code).map fun (d, code) => ([c, d], code) else some ([c], code)

/-- Four bytes, the lowest first. -/
def take32 : Code → Option (UInt32 × Code)
  | a :: b :: c :: d :: code =>
    some (UInt32.ofNat (a.toNat + 256 * (b.toNat + 256 * (c.toNat + 256 * d.toNat))), code)
  | _ => none

/-- A number is read as it was written. -/
theorem take32_write32 (v : UInt32) (rest : Code) : take32 (Assembler.write32 v ++ rest) = some (v, rest) := by
  have hbyte : ∀ k : UInt32, ((v >>> k) &&& 0xFF).toUInt8.toNat = v.toNat / 2 ^ (k.toNat % 32) % 256 := by
    intro k
    have hmask : ∀ n : Nat, n &&& (0xFF : UInt32).toNat = n % 256 := fun n => Nat.and_two_pow_sub_one_eq_mod n 8
    rw [UInt32.toNat_toUInt8, UInt32.toNat_and, hmask, UInt32.toNat_shiftRight, Nat.shiftRight_eq_div_pow, Nat.mod_mod]
  simp only [Assembler.write32, List.cons_append, List.nil_append, take32, hbyte]
  congr 2
  apply UInt32.toNat_inj.1
  have hlt := v.toNat_lt
  simp
  omega

/-- The displacement that a mode asks for. -/
def takeDisplacement (mode : UInt8) (code : Code) : Option (Int32 × Code) :=
  if mode = 0 then some (0, code)
  else if mode = 1 then (take8 code).map fun (d, code) => (d.toInt8.toInt32, code)
  else (take32 code).map fun (d, code) => (d.toInt32, code)

/-- The operand that a SIB byte begins. -/
def takeSib (rex : Rex) (mode : UInt8) (code : Code) : Option (Encoding64 × Code) :=
  (take8 code).bind fun (sib, code) =>
    let i := (sib >>> 3) &&& 7
    let b := sib &&& 7
    let index : R64 := if i = 4 ∧ rex.x = false then .zero else gpr rex.x i
    let scale : UInt8 := if i = 4 ∧ rex.x = false then 1 else (1 : UInt8) <<< (sib >>> 6)
    if mode = 0 ∧ b = 5 then (take32 code).map fun (d, code) => (⟨.zero, index, scale, d.toInt32⟩, code)
    else (takeDisplacement mode code).map fun (d, code) => (⟨gpr rex.b b, index, scale, d⟩, code)

/-- The low bits of the register, and the memory operand. -/
def takeMemory (rex : Rex) (code : Code) : Option (UInt8 × Encoding64 × Code) :=
  (take8 code).bind fun (m, code) =>
    let mode := m >>> 6
    let r := (m >>> 3) &&& 7
    let rm := m &&& 7
    if mode = 3 then none
    else if rm = 4 then (takeSib rex mode code).map fun (mem, code) => (r, mem, code)
    else if mode = 0 ∧ rm = 5 then (take32 code).map fun (d, code) => (r, ⟨.rip, .zero, 1, d.toInt32⟩, code)
    else (takeDisplacement mode code).map fun (d, code) => (r, ⟨gpr rex.b rm, .zero, 1, d⟩, code)

/-- An instruction, and the code behind it. -/
def decode (code : Code) : Option (Instruction × Code) :=
  let (before, code) := takePrefix code
  let (rex, code) := takeRex code
  let bits := rex.getD ⟨false, false, false, false⟩
  (takeOpcode code).bind fun (opcode, code) =>
    (takeMemory bits code).bind fun (r, mem, code) =>
      if (before, bits.w, opcode) = (.none, true, [0xc7]) then
        if r = 0 then (take32 code).map fun (imm, code) => (.movM64U32 mem imm, code) else none
      else (opcodes.lookup (before, bits.w, opcode)).map fun form => (.regMem form (form.registerClass.read rex r) mem, code)

/-! ## Jumps -/

/-- The opcodes of the jumps, with a condition or without, that have a displacement of 32 bits. -/
def isJump (opcode : Code) : Bool := opcode = [0xe9] || (opcode.take 1 = [0x0f] && opcode[1]?.any (· &&& 0xf0 = 0x80))

/-- The length of a jump, and how far behind its end it goes. -/
def takeJump (code : Code) : Option (Nat × Int32) :=
  (takeOpcode code).bind fun p =>
    if isJump p.1 then (take32 p.2).map fun d => (p.1.length + 4, d.1.toInt32) else none

/-- Where the jump at an offset of some code goes. -/
def leadsTo (code : Code) (offset : Nat) : Option Int :=
  (takeJump (code.drop offset)).map fun jump => offset + jump.1 + jump.2.toInt

end MachineCode

/-! ## Instructions without an operand in memory

How the host reads the instructions whose operands are registers and immediates. An opcode stands for an operation and for the
places of its operands: the two fields of the byte behind it, which the bits of the REX prefix extend, the opcode itself, or the
bytes of an immediate. Some opcodes go on in the first field. Other instructions are not read, and neither are operands in memory.
-/

namespace RegisterCode

open Ir MachineCode
open Assembler (Code)

/-- The operations have the names that the intermediate code has for them. An operation on 64 bits has an immediate of 32 bits. -/
structure Instruction where
  op : Op
  condition : Option Cond := none
  operands : List Operand
deriving DecidableEq, Repr

/-- Where an operand is. A signed byte is an immediate that is extended to the width of the operation. -/
inductive Slot where
  | reg (c : RegisterClass)
  | rm (c : RegisterClass)
  | cl
  | imm8 | imm16 | imm32 | imm64
  | signed16 | signed32
deriving DecidableEq, Repr

/-- What an opcode stands for. -/
structure Shape where
  op : Op
  condition : Option Cond := none
  slots : List Slot
deriving DecidableEq, Repr

/-- An opcode, as a number, with the prefixes and the width that it is read with; it may be read with any width. -/
structure Row where
  before : List Prefix
  w : Option Bool := none
  opcode : Nat
  shape : Shape
deriving DecidableEq, Repr

/-! ## Rows -/

section

variable (opcode : Nat) (op : Op)

/-- An operation on bytes. -/
def bytes (slots : List Slot) : List Row := [⟨[.none, .operandSize], none, opcode, ⟨op, none, slots⟩⟩]

/-- An operation on words of each width. -/
def words (slots : RegisterClass → List Slot) (condition : Option Cond := none) : List Row :=
  [⟨[.operandSize], some false, opcode, ⟨op, condition, slots .r16⟩⟩, ⟨[.none], some false, opcode, ⟨op, condition, slots .r32⟩⟩,
    ⟨[.none, .operandSize], some true, opcode, ⟨op, condition, slots .r64⟩⟩]

/-- An operation whose width is that of its prefix. -/
def sse (before : Prefix) (slots : List Slot) (w : Option Bool := none) : Row := ⟨[before], w, opcode, ⟨op, none, slots⟩⟩

/-- An operation on two MMX registers or, with a prefix, on two XMM registers. -/
def packed (imm : List Slot := []) : List Row :=
  [sse opcode op .none (.reg .mmx :: .rm .mmx :: imm), sse opcode op .operandSize (.reg .xmm :: .rm .xmm :: imm)]

/-- An operation on two XMM registers. -/
def xmm (before : Prefix) (imm : List Slot := []) : Row := sse opcode op before (.reg .xmm :: .rm .xmm :: imm)

/-- A shift of an MMX register or, with a prefix, of an XMM register. -/
def packedShift : List Row := [sse opcode op .none [.rm .mmx, .imm8], sse opcode op .operandSize [.rm .xmm, .imm8]]

end

/-- The immediate of an operation on words. -/
def wordImmediate : RegisterClass → Slot
  | .r16 => .imm16
  | _ => .imm32

/-- The immediate that is a byte. -/
def signedByte : RegisterClass → Slot
  | .r16 => .signed16
  | _ => .signed32

/-- The conditions in the order of their codes. -/
def conditions : List Cond := [.o, .no, .b, .ae, .e, .ne, .be, .a, .s, .ns, .p, .np, .l, .ge, .le, .g]

/-- The operations in the order of their codes that have two opcodes for each direction. -/
def arithmetic : List Op := [.add, .or, .adc, .sbb, .and, .sub, .xor, .cmp]

/-- The opcodes that a register is added to. -/
def registerOpcodes : List Row :=
  [⟨[.none, .operandSize], none, 0xb0, ⟨.mov, none, [.rm .r8, .imm8]⟩⟩,
    ⟨[.operandSize], some false, 0xb8, ⟨.mov, none, [.rm .r16, .imm16]⟩⟩,
    ⟨[.none], some false, 0xb8, ⟨.mov, none, [.rm .r32, .imm32]⟩⟩,
    ⟨[.none, .operandSize], some true, 0xb8, ⟨.mov, none, [.rm .r64, .imm64]⟩⟩,
    ⟨[.none], none, 0x50, ⟨.push, none, [.rm .r64]⟩⟩, ⟨[.none], none, 0x58, ⟨.pop, none, [.rm .r64]⟩⟩,
    ⟨[.none], some false, 0x0fc8, ⟨.bswap, none, [.rm .r32]⟩⟩, ⟨[.none], some true, 0x0fc8, ⟨.bswap, none, [.rm .r64]⟩⟩]

/-- The opcodes that go on in the first field, which stands behind them here. -/
def groupOpcodes : List Row :=
  [(arithmetic.zipIdx.flatMap fun (op, i) =>
      bytes (0x8000 + i) op [.rm .r8, .imm8] ++ words (0x8100 + i) op (fun c => [.rm c, wordImmediate c]) ++
      words (0x8300 + i) op (fun c => [.rm c, signedByte c])),
    ([(0, Op.rol), (1, Op.ror), (4, Op.shl), (5, Op.shr), (7, Op.sar)].flatMap fun (i, op) =>
      bytes (0xc000 + i) op [.rm .r8, .imm8] ++ words (0xc100 + i) op (fun c => [.rm c, .imm8]) ++
      bytes (0xd200 + i) op [.rm .r8, .cl] ++ words (0xd300 + i) op (fun c => [.rm c, .cl])),
    bytes 0xf600 .test [.rm .r8, .imm8], words 0xf700 .test (fun c => [.rm c, wordImmediate c]),
    ([(2, Op.not), (3, Op.neg), (4, Op.mul), (5, Op.imul), (6, Op.div), (7, Op.idiv)].flatMap fun (i, op) =>
      bytes (0xf600 + i) op [.rm .r8] ++ words (0xf700 + i) op (fun c => [.rm c])),
    ([(0, Op.inc), (1, Op.dec)].flatMap fun (i, op) => bytes (0xfe00 + i) op [.rm .r8] ++ words (0xff00 + i) op (fun c => [.rm c])),
    [⟨[.none], none, 0xff02, ⟨.call, none, [.rm .r64]⟩⟩, ⟨[.none], none, 0xff04, ⟨.jmpInd, none, [.rm .r64]⟩⟩],
    ([(4, Op.bt), (5, Op.bts), (6, Op.btr)].flatMap fun (i, op) => words (0x0fba00 + i) op (fun c => [.rm c, .imm8])),
    packedShift 0x0f7102 .psrlw, packedShift 0x0f7104 .psraw, packedShift 0x0f7106 .psllw, packedShift 0x0f7202 .psrld,
    packedShift 0x0f7204 .psrad, packedShift 0x0f7206 .pslld, packedShift 0x0f7302 .psrlq, packedShift 0x0f7306 .psllq,
    [sse 0x0f7303 .psrldq .operandSize [.rm .xmm, .imm8], sse 0x0f7307 .pslldq .operandSize [.rm .xmm, .imm8]]].flatten

/-- The opcodes of one byte. -/
def shortOpcodes : List Row :=
  [(arithmetic.zipIdx.flatMap fun (op, i) =>
      bytes (8 * i) op [.rm .r8, .reg .r8] ++ words (8 * i + 1) op (fun c => [.rm c, .reg c]) ++
      bytes (8 * i + 2) op [.reg .r8, .rm .r8] ++ words (8 * i + 3) op (fun c => [.reg c, .rm c])),
    [⟨[.none], some true, 0x63, ⟨.movsx, none, [.reg .r64, .rm .r32]⟩⟩],
    words 0x69 .imul (fun c => [.reg c, .rm c, wordImmediate c]),
    bytes 0x84 .test [.rm .r8, .reg .r8], words 0x85 .test (fun c => [.rm c, .reg c]),
    bytes 0x86 .xchg [.rm .r8, .reg .r8], words 0x87 .xchg (fun c => [.rm c, .reg c]),
    bytes 0x88 .mov [.rm .r8, .reg .r8], words 0x89 .mov (fun c => [.rm c, .reg c]),
    bytes 0x8a .mov [.reg .r8, .rm .r8], words 0x8b .mov (fun c => [.reg c, .rm c])].flatten

/-- The opcodes of integers that begin with another byte. -/
def integerOpcodes : List Row :=
  [(conditions.zipIdx.flatMap fun (cond, i) => words (0x0f40 + i) .cmov (fun c => [.reg c, .rm c]) (some cond)),
    (conditions.zipIdx.map fun (cond, i) => ⟨[.none, .operandSize], none, 0x0f90 + i, ⟨.set, some cond, [.rm .r8]⟩⟩),
    words 0x0fa3 .bt (fun c => [.rm c, .reg c]), words 0x0fab .bts (fun c => [.rm c, .reg c]),
    words 0x0faf .imul (fun c => [.reg c, .rm c]), words 0x0fb1 .cmpxchg (fun c => [.rm c, .reg c]),
    words 0x0fb3 .btr (fun c => [.rm c, .reg c]),
    words 0x0fb6 .movzx (fun c => [.reg c, .rm .r8]), words 0x0fb7 .movzx (fun c => [.reg c, .rm .r16]),
    words 0x0fbc .bsf (fun c => [.reg c, .rm c]), words 0x0fbd .bsr (fun c => [.reg c, .rm c]),
    [sse 0x0fbc .tzcnt .rep [.reg .r32, .rm .r32] (some false), sse 0x0fbc .tzcnt .rep [.reg .r64, .rm .r64] (some true)],
    words 0x0fbe .movsx (fun c => [.reg c, .rm .r8]), words 0x0fbf .movsx (fun c => [.reg c, .rm .r16])].flatten

/-- The opcodes of floating point numbers. -/
def floatOpcodes : List Row :=
  [sse 0x0f10 .movss .rep [.reg .xmm, .rm .xmm], sse 0x0f10 .movsd .repne [.reg .xmm, .rm .xmm],
    xmm 0x0f12 .movhlps .none, xmm 0x0f12 .movddup .repne, xmm 0x0f16 .movlhps .none,
    xmm 0x0f14 .unpcklps .none, xmm 0x0f14 .unpcklpd .operandSize,
    xmm 0x0f15 .unpckhps .none, xmm 0x0f15 .unpckhpd .operandSize,
    sse 0x0f2a .cvtsi2ss .rep [.reg .xmm, .rm .r32] (some false), sse 0x0f2a .cvtsi2ss .rep [.reg .xmm, .rm .r64] (some true),
    sse 0x0f2a .cvtsi2sd32 .repne [.reg .xmm, .rm .r32] (some false),
    sse 0x0f2a .cvtsi2sd64 .repne [.reg .xmm, .rm .r64] (some true),
    sse 0x0f2c .cvttsd2si32 .repne [.reg .r32, .rm .xmm] (some false),
    sse 0x0f2c .cvttsd2si64 .repne [.reg .r64, .rm .xmm] (some true),
    xmm 0x0f2e .ucomisd .operandSize, xmm 0x0f2f .comiss .none, xmm 0x0f2f .comisd .operandSize,
    xmm 0x0f51 .sqrtsd .repne, xmm 0x0f54 .andpd .operandSize, xmm 0x0f55 .andnpd .operandSize,
    xmm 0x0f56 .orpd .operandSize, xmm 0x0f57 .xorpd .operandSize,
    xmm 0x0f58 .addps .none, xmm 0x0f58 .addpd .operandSize, xmm 0x0f58 .addss .rep, xmm 0x0f58 .addsd .repne,
    xmm 0x0f59 .mulps .none, xmm 0x0f59 .mulpd .operandSize, xmm 0x0f59 .mulss .rep, xmm 0x0f59 .mulsd .repne,
    xmm 0x0f5a .cvtss2sd .rep, xmm 0x0f5a .cvtsd2ss .repne,
    xmm 0x0f5b .cvtdq2ps .none, xmm 0x0f5b .cvtps2dq .operandSize, xmm 0x0f5b .cvttps2dq .rep,
    xmm 0x0f5c .subps .none, xmm 0x0f5c .subpd .operandSize, xmm 0x0f5c .subss .rep, xmm 0x0f5c .subsd .repne,
    xmm 0x0f5d .minps .none, xmm 0x0f5d .minpd .operandSize, xmm 0x0f5d .minsd .repne,
    xmm 0x0f5e .divps .none, xmm 0x0f5e .divpd .operandSize, xmm 0x0f5e .divss .rep, xmm 0x0f5e .divsd .repne,
    xmm 0x0f5f .maxps .none, xmm 0x0f5f .maxpd .operandSize, xmm 0x0f5f .maxsd .repne,
    xmm 0x0fc2 .cmpps .none [.imm8], xmm 0x0fc2 .cmpsd .repne [.imm8],
    xmm 0x0fc6 .shufps .none [.imm8], xmm 0x0fc6 .shufpd .operandSize [.imm8],
    xmm 0x0fe6 .cvttpd2dq .operandSize,
    xmm 0x0f3a08 .roundps .operandSize [.imm8], xmm 0x0f3a09 .roundpd .operandSize [.imm8]]

/-- The opcodes of packed integers, which have all their operands in the same places. -/
def packedOpcodes : List Row :=
  [(0x0f60, Op.punpcklbw), (0x0f61, .punpcklwd), (0x0f62, .punpckldq), (0x0f63, .packsswb),
    (0x0f64, .pcmpgtb), (0x0f65, .pcmpgtw), (0x0f66, .pcmpgtd), (0x0f67, .packuswb),
    (0x0f68, .punpckhbw), (0x0f69, .punpckhwd), (0x0f6a, .punpckhdq), (0x0f6b, .packssdw),
    (0x0f6f, .mov), (0x0f74, .pcmpeqb), (0x0f75, .pcmpeqw), (0x0f76, .pcmpeqd),
    (0x0fd1, .psrlw), (0x0fd2, .psrld), (0x0fd3, .psrlq), (0x0fd4, .paddq), (0x0fd5, .pmullw),
    (0x0fd8, .psubusb), (0x0fd9, .psubusw), (0x0fda, .pminub), (0x0fdb, .pand), (0x0fdc, .paddusb),
    (0x0fdd, .paddusw), (0x0fde, .pmaxub), (0x0fdf, .pandn), (0x0fe0, .pavgb), (0x0fe1, .psraw),
    (0x0fe2, .psrad), (0x0fe3, .pavgw), (0x0fe4, .pmulhuw), (0x0fe5, .pmulhw), (0x0fe8, .psubsb),
    (0x0fe9, .psubsw), (0x0feb, .por), (0x0fec, .paddsb), (0x0fed, .paddsw), (0x0fef, .pxor),
    (0x0ff1, .psllw), (0x0ff2, .pslld), (0x0ff3, .psllq), (0x0ff4, .pmuludq), (0x0ff5, .pmaddwd),
    (0x0ff6, .psadbw), (0x0ff8, .psubb), (0x0ff9, .psubw), (0x0ffa, .psubd), (0x0ffc, .paddb),
    (0x0ffd, .paddw), (0x0ffe, .paddd), (0x0f3800, .pshufb), (0x0f3801, .phaddw),
    (0x0f3802, .phaddd), (0x0f3804, .pmaddusbw), (0x0f380b, .pmulhrsw)].flatMap
      fun (opcode, op) => packed opcode op

/-- The other opcodes of packed integers. -/
def otherPackedOpcodes : List Row :=
  [[xmm 0x0f6c .punpcklqdq .operandSize, xmm 0x0f6d .punpckhqdq .operandSize,
    sse 0x0f6e .movd .none [.reg .mmx, .rm .r32] (some false), sse 0x0f6e .movq .none [.reg .mmx, .rm .r64] (some true),
    sse 0x0f6e .movd .operandSize [.reg .xmm, .rm .r32] (some false),
    sse 0x0f6e .movq .operandSize [.reg .xmm, .rm .r64] (some true),
    sse 0x0f7e .movd .none [.rm .r32, .reg .mmx] (some false), sse 0x0f7e .movq .none [.rm .r64, .reg .mmx] (some true),
    sse 0x0f7e .movd .operandSize [.rm .r32, .reg .xmm] (some false),
    sse 0x0f7e .movq .operandSize [.rm .r64, .reg .xmm] (some true),
    sse 0x0f7f .mov .none [.rm .mmx, .reg .mmx], sse 0x0f7f .mov .operandSize [.rm .xmm, .reg .xmm],
    sse 0x0f70 .pshufw .none [.reg .mmx, .rm .mmx, .imm8], xmm 0x0f70 .pshufd .operandSize [.imm8],
    xmm 0x0f70 .pshuflw .repne [.imm8], xmm 0x0f70 .pshufhw .rep [.imm8],
    sse 0x0fc4 .pinsrw .none [.reg .mmx, .rm .r32, .imm8], sse 0x0fc4 .pinsrw .operandSize [.reg .xmm, .rm .r32, .imm8],
    sse 0x0fc5 .pextrw .none [.reg .r32, .rm .mmx, .imm8], sse 0x0fc5 .pextrw .operandSize [.reg .r32, .rm .xmm, .imm8],
    sse 0x0fd6 .movq2dq .rep [.reg .xmm, .rm .mmx],
    sse 0x0fd7 .pmovmskb .none [.reg .r32, .rm .mmx], sse 0x0fd7 .pmovmskb .operandSize [.reg .r32, .rm .xmm],
    xmm 0x0f3810 .pblendvb .operandSize, xmm 0x0f3814 .blendvps .operandSize,
    xmm 0x0f3817 .ptest .operandSize, xmm 0x0f382b .packusdw .operandSize,
    xmm 0x0f3830 .pmovzxbw .operandSize, xmm 0x0f3839 .pminsd .operandSize,
    xmm 0x0f383d .pmaxsd .operandSize, xmm 0x0f3840 .pmulld .operandSize,
    sse 0x0f3a16 .pextrd .operandSize [.rm .r32, .reg .xmm, .imm8] (some false),
    sse 0x0f3a16 .pextrq .operandSize [.rm .r64, .reg .xmm, .imm8] (some true),
    sse 0x0f3a22 .pinsrd .operandSize [.reg .xmm, .rm .r32, .imm8] (some false)],
    packed 0x0f3a0f .palignr [.imm8]].flatten

/-- The opcodes that are followed by the two fields, those of one byte or the others. -/
def fieldOpcodes (short : Bool) : List Row :=
  if short then shortOpcodes else [packedOpcodes, floatOpcodes, otherPackedOpcodes, integerOpcodes].flatten

/-- What an opcode stands for behind a prefix. -/
def find (rows : List Row) (before : Prefix) (w : Bool) (opcode : Nat) : Option Shape :=
  (rows.find? fun row => row.opcode == opcode && row.before.contains before && row.w.all (· == w)).map Row.shape

/-! ## Reading -/

/-- An opcode, which may begin with one of two bytes more. -/
def takeOpcodes (code : Code) : Option (Code × Code) :=
  (takeOpcode code).bind fun (opcode, code) =>
    if opcode = [0x0f, 0x38] ∨ opcode = [0x0f, 0x3a] then (take8 code).map fun (c, code) => (opcode ++ [c], code)
    else some (opcode, code)

def take16 : Code → Option (UInt16 × Code)
  | a :: b :: code => some (UInt16.ofNat (a.toNat + 256 * b.toNat), code)
  | _ => none

def take64 (code : Code) : Option (UInt64 × Code) :=
  (take32 code).bind fun (low, code) => (take32 code).map fun (high, code) =>
    (UInt64.ofNat (low.toNat + 2 ^ 32 * high.toNat), code)

def registerOperand : (c : RegisterClass) → c.Register → Operand
  | .r8, reg => .r8 reg
  | .r16, reg => .r16 reg
  | .r32, reg => .r32 reg
  | .r64, reg => .r64 reg
  | .mmx, reg => .mmx reg
  | .xmm, reg => .xmm reg

/-- The REX prefix and the two fields. -/
structure Fields where
  rex : Option Rex
  reg : UInt8
  rm : UInt8

/-- The second field is extended by another bit of the REX prefix. -/
def secondField (rex : Rex) : Rex := { rex with r := rex.b }

def Slot.read (fields : Fields) (code : Code) : Slot → Option (Operand × Code)
  | reg c => some (registerOperand c (c.read fields.rex fields.reg), code)
  | rm c => some (registerOperand c (c.read (fields.rex.map secondField) fields.rm), code)
  | cl => some (.r8 .cl, code)
  | imm8 => (take8 code).map fun (v, code) => (.u8 v, code)
  | imm16 => (take16 code).map fun (v, code) => (.u16 v, code)
  | imm32 => (take32 code).map fun (v, code) => (.u32 v, code)
  | imm64 => (take64 code).map fun (v, code) => (.u64 v, code)
  | signed16 => (take8 code).map fun (v, code) => (.u16 v.toInt8.toInt16.toUInt16, code)
  | signed32 => (take8 code).map fun (v, code) => (.u32 v.toInt8.toInt32.toUInt32, code)

def readSlots (fields : Fields) : List Slot → Code → Option (List Operand × Code)
  | [], code => some ([], code)
  | slot :: slots, code =>
    (slot.read fields code).bind fun (operand, code) =>
      (readSlots fields slots code).map fun (operands, code) => (operand :: operands, code)

def Shape.read (shape : Shape) (fields : Fields) (code : Code) : Option (Instruction × Code) :=
  (readSlots fields shape.slots code).map fun (operands, code) => (⟨shape.op, shape.condition, operands⟩, code)

/-- An opcode as a number, the first byte above the others. -/
def opcodeNumber (opcode : Code) : Nat := opcode.foldl (fun n c => 256 * n + c.toNat) 0

/-- An instruction, and the code behind it. -/
def decode (code : Code) : Option (Instruction × Code) :=
  let (before, code) := takePrefix code
  let (rex, code) := takeRex code
  let w := rex.any Rex.w
  (takeOpcodes code).bind fun (opcode, code) =>
    let n := opcodeNumber opcode
    match find registerOpcodes before w (n / 8 * 8) with
    | some shape => shape.read ⟨rex, 0, UInt8.ofNat (n % 8)⟩ code
    | none => (take8 code).bind fun (m, code) =>
      if m >>> 6 = 3 then
        let fields : Fields := ⟨rex, (m >>> 3) &&& 7, m &&& 7⟩
        match find (fieldOpcodes (n < 0x100)) before w n with
        | some shape => shape.read fields code
        | none => (find groupOpcodes before w (256 * n + fields.reg.toNat)).bind fun shape => shape.read fields code
      else none

/-- As many instructions as are asked for, and the code behind them. -/
def decodeMany : Nat → Code → Option (List Instruction × Code)
  | 0, code => some ([], code)
  | n + 1, code =>
    (decode code).bind fun (i, code) => (decodeMany n code).map fun (instructions, code) => (i :: instructions, code)

/-- Code is read as some instructions, whatever comes behind it. -/
def ReadAs (code : Code) (instructions : List Instruction) : Prop :=
  ∀ rest, decodeMany instructions.length (code ++ rest) = some (instructions, rest)

end RegisterCode

end X64Emulator
