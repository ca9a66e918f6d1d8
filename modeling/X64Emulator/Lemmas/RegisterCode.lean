import X64Emulator.RegisterForms
import X64Emulator.Theorems.MemoryOperands

/-!
# Reading what the register forms write

The bytes that a register form writes are read as one instruction whatever comes behind them, and its operands are those of the
form where the host hears the numbers of the registers as they were meant.
-/

namespace X64Emulator

namespace RegisterCode

open Ir MachineCode Assembler

open HostRegister (number encodeRegister)

/-! ## Numbers -/

theorem take16_write16 (v : UInt16) (rest : Code) : take16 (Assembler.write16 v ++ rest) = some (v, rest) := by
  have hbyte : ∀ k : UInt16, ((v >>> k) &&& 0xFF).toUInt8.toNat = v.toNat / 2 ^ (k.toNat % 16) % 256 := by
    intro k
    have hmask : ∀ n : Nat, n &&& (0xFF : UInt16).toNat = n % 256 := fun n => Nat.and_two_pow_sub_one_eq_mod n 8
    rw [UInt16.toNat_toUInt8, UInt16.toNat_and, hmask, UInt16.toNat_shiftRight, Nat.shiftRight_eq_div_pow, Nat.mod_mod]
  simp only [Assembler.write16, List.cons_append, List.nil_append, take16, hbyte]
  congr 2
  apply UInt16.toNat_inj.1
  have hlt := v.toNat_lt
  simp
  omega

/-- The eight bytes of a number are those of its lower half and those of its upper half. -/
theorem write64_eq (v : UInt64) :
    Assembler.write64 v = Assembler.write32 v.toUInt32 ++ Assembler.write32 (v >>> 32).toUInt32 := by
  have h64 : ∀ k : UInt64, ((v >>> k) &&& 0xFF).toUInt8.toNat = v.toNat / 2 ^ (k.toNat % 64) % 256 := by
    intro k
    have hmask : ∀ n : Nat, n &&& (0xFF : UInt64).toNat = n % 256 := fun n => Nat.and_two_pow_sub_one_eq_mod n 8
    rw [UInt64.toNat_toUInt8, UInt64.toNat_and, hmask, UInt64.toNat_shiftRight, Nat.shiftRight_eq_div_pow, Nat.mod_mod]
  have h32 : ∀ w k : UInt32, ((w >>> k) &&& 0xFF).toUInt8.toNat = w.toNat / 2 ^ (k.toNat % 32) % 256 := by
    intro w k
    have hmask : ∀ n : Nat, n &&& (0xFF : UInt32).toNat = n % 256 := fun n => Nat.and_two_pow_sub_one_eq_mod n 8
    rw [UInt32.toNat_toUInt8, UInt32.toNat_and, hmask, UInt32.toNat_shiftRight, Nat.shiftRight_eq_div_pow, Nat.mod_mod]
  have hupper : (v >>> 32).toNat = v.toNat / 2 ^ 32 := by
    rw [UInt64.toNat_shiftRight, Nat.shiftRight_eq_div_pow]
    rfl
  simp only [Assembler.write64, Assembler.write32, List.cons_append, List.nil_append, List.cons.injEq, ← UInt8.toNat_inj, h32, h64,
    UInt64.toNat_toUInt32, hupper]
  simp
  omega

theorem take64_write64 (v : UInt64) (rest : Code) : take64 (Assembler.write64 v ++ rest) = some (v, rest) := by
  have hupper : (v >>> 32).toNat = v.toNat / 2 ^ 32 := by
    rw [UInt64.toNat_shiftRight, Nat.shiftRight_eq_div_pow]
    rfl
  simp only [write64_eq, List.append_assoc, take64, take32_write32, Option.bind_some, Option.map_some]
  congr 2
  apply UInt64.toNat_inj.1
  have hlt := v.toNat_lt
  simp only [UInt64.toNat_ofNat', UInt64.toNat_toUInt32, hupper]
  omega

/-! ## Registers -/

section

variable {c : RegisterClass} {reg : c.Register} {r : UInt8}

/-- What a register is encoded as, if it is. -/
theorem encodeRegister_spec (h : encodeRegister reg = some r) : r = number reg &&& 7 ∧ ¬ (c = .r8 ∧ ¬ number reg < 16) := by
  rw [encodeRegister_eq] at h
  split at h
  · cases h
  · next hc => exact ⟨(Option.some.inj h).symm, hc⟩

theorem registerOperand_inj {reg reg' : c.Register} : registerOperand c reg = registerOperand c reg' ↔ reg = reg' := by
  cases c <;> simp [registerOperand]

/-- What is read of a register as an operand. -/
theorem registerOperand_read_iff (hencode : encodeRegister reg = some r) (rex : Option Rex)
    (hrex : rex.any Rex.r = decide (8 ≤ number reg)) :
    registerOperand c (c.read rex r) = registerOperand c reg ↔ number reg < 16 ∧ ¬ (c = .r8 ∧ rex = none ∧ 4 ≤ number reg) := by
  obtain ⟨rfl, hencodes⟩ := encodeRegister_spec hencode
  exact registerOperand_inj.trans (read_eq_iff c reg rex hrex hencodes)

end

/-! ## The bytes before the fields -/

section

variable {code rest opcode : Code}

theorem takePrefix_append (h : code ≠ []) (l : Code) :
    takePrefix (code ++ l) = ((takePrefix code).1, (takePrefix code).2 ++ l) := by
  cases code with
  | nil => exact absurd rfl h
  | cons c code =>
    simp only [List.cons_append, takePrefix]
    split_ifs <;> rfl

theorem takeRex_append (h : code ≠ []) (l : Code) : takeRex (code ++ l) = ((takeRex code).1, (takeRex code).2 ++ l) := by
  cases code with
  | nil => exact absurd rfl h
  | cons c code =>
    simp only [List.cons_append, takeRex]
    split_ifs <;> rfl

theorem take8_append {c : UInt8} (h : take8 code = some (c, rest)) (l : Code) : take8 (code ++ l) = some (c, rest ++ l) := by
  cases code with
  | nil => cases h
  | cons d code =>
    cases h
    rfl

theorem takeOpcode_append (h : takeOpcode code = some (opcode, rest)) (l : Code) :
    takeOpcode (code ++ l) = some (opcode, rest ++ l) := by
  cases code with
  | nil => cases h
  | cons c code =>
    simp only [List.cons_append, takeOpcode] at h ⊢
    split_ifs at h ⊢
    · obtain ⟨⟨d, code'⟩, hd, heq⟩ := Option.map_eq_some_iff.1 h
      cases heq
      rw [take8_append hd]
      rfl
    · cases h
      rfl

theorem takeOpcodes_append (h : takeOpcodes code = some (opcode, rest)) (l : Code) :
    takeOpcodes (code ++ l) = some (opcode, rest ++ l) := by
  obtain ⟨⟨opcode', rest'⟩, hopcode, h⟩ := Option.bind_eq_some_iff.1 h
  simp only [takeOpcodes, takeOpcode_append hopcode, Option.bind_some]
  simp only at h
  split_ifs at h ⊢
  · obtain ⟨⟨d, code'⟩, hd, heq⟩ := Option.map_eq_some_iff.1 h
    cases heq
    rw [take8_append hd]
    rfl
  · cases h
    rfl

end

/-- The REX prefix that is read where a rule was followed. -/
def heardRex : RexRule → Bool → Bool → Option Rex
  | .never, _, _ => none
  | .extended rexw, r, b => if r || b then some ⟨rexw = .W, r, false, b⟩ else none
  | .always rexw, r, b => some ⟨rexw = .W, r, false, b⟩

/-- The widths that can be read where a rule was followed. -/
def widths : RexRule → List Bool
  | .never | .extended .NONE | .always .NONE => [false]
  | .extended .W => [false, true]
  | .always .W => [true]

theorem heardRex_w (rule : RexRule) (r b : Bool) : (heardRex rule r b).any Rex.w ∈ widths rule := by
  cases rule with
  | never => exact List.mem_singleton.2 rfl
  | extended rexw | always rexw => cases rexw <;> cases r <;> cases b <;> decide

/-- Both fields are extended as they should be, if a rule that never writes the prefix is only followed for low registers. -/
theorem heardRex_r (rule : RexRule) {r b : Bool} (h : rule = .never → r = false ∧ b = false) :
    (heardRex rule r b).any Rex.r = r ∧ ((heardRex rule r b).map secondField).any Rex.r = b := by
  cases rule with
  | never =>
    obtain ⟨rfl, rfl⟩ := h rfl
    decide
  | extended rexw | always rexw => cases rexw <;> cases r <;> cases b <;> decide

def prefixBytes : Prefix → Code
  | .none => []
  | .operandSize => [0x66]
  | .lock => [0xf0]
  | .repne => [0xf2]
  | .rep => [0xf3]

/-- Some bytes are a prefix, and others are an opcode and neither a prefix nor a REX prefix. -/
def Opens (before inss : Code) : Prop :=
  before = prefixBytes (takePrefix before).1 ∧ takePrefix inss = (.none, inss) ∧ takeRex inss = (none, inss) ∧
    takeOpcodes inss = some (inss, [])

instance (before inss : Code) : Decidable (Opens before inss) := inferInstanceAs (Decidable (_ ∧ _ ∧ _ ∧ _))

theorem take_front {before inss : Code} (h : Opens before inss) (rule : RexRule) (r b : Bool) (l : Code) :
    takePrefix (before ++ rule.bytes r b ++ inss ++ l) = ((takePrefix before).1, rule.bytes r b ++ (inss ++ l)) ∧
      takeRex (rule.bytes r b ++ (inss ++ l)) = (heardRex rule r b, inss ++ l) ∧ takeOpcodes (inss ++ l) = some (inss, l) := by
  obtain ⟨hbefore, hbare, hrex, hopcode⟩ := h
  have hne : inss ≠ [] := by
    rintro rfl
    cases hopcode
  have hbare' : takePrefix (inss ++ l) = (.none, inss ++ l) := by rw [takePrefix_append hne, hbare]
  have hrex' : takeRex (inss ++ l) = (none, inss ++ l) := by rw [takeRex_append hne, hrex]
  have hplain : takePrefix (rule.bytes r b ++ (inss ++ l)) = (.none, rule.bytes r b ++ (inss ++ l)) := by
    cases rule with
    | never => exact hbare'
    | extended rexw =>
      rw [RexRule.bytes]
      split_ifs
      · exact (rexByte_spec rexw r false b (inss ++ l)).1
      · exact hbare'
    | always rexw => exact (rexByte_spec rexw r false b (inss ++ l)).1
  refine ⟨?_, ?_, takeOpcodes_append hopcode l⟩
  · rw [List.append_assoc, List.append_assoc, hbefore]
    generalize (takePrefix before).1 = p
    cases p with
    | none => exact hplain
    | operandSize | lock | repne | rep => rfl
  · cases rule with
    | never => exact hrex'
    | extended rexw =>
      rw [RexRule.bytes, heardRex]
      split_ifs
      · exact (rexByte_spec rexw r false b (inss ++ l)).2
      · exact hrex'
    | always rexw => exact (rexByte_spec rexw r false b (inss ++ l)).2

/-! ## The fields -/

section

variable {before inss : Code} {shape : Shape} {w : Bool}

/-- An opcode that is followed by the two fields, and what it stands for. -/
def HasFields (before inss : Code) (w : Bool) (shape : Shape) : Prop :=
  Opens before inss ∧ find registerOpcodes (takePrefix before).1 w (opcodeNumber inss / 8 * 8) = none ∧
    find (fieldOpcodes (opcodeNumber inss < 0x100)) (takePrefix before).1 w (opcodeNumber inss) = some shape

instance (before inss : Code) (w : Bool) (shape : Shape) : Decidable (HasFields before inss w shape) :=
  inferInstanceAs (Decidable (_ ∧ _ ∧ _))

/-- An opcode that goes on in the first field, and what it stands for. -/
def HasGroup (before inss : Code) (w : Bool) (digit : UInt8) (shape : Shape) : Prop :=
  digit < 8 ∧ Opens before inss ∧ find registerOpcodes (takePrefix before).1 w (opcodeNumber inss / 8 * 8) = none ∧
    find (fieldOpcodes (opcodeNumber inss < 0x100)) (takePrefix before).1 w (opcodeNumber inss) = none ∧
    find groupOpcodes (takePrefix before).1 w (256 * opcodeNumber inss + digit.toNat) = some shape

instance (before inss : Code) (w : Bool) (digit : UInt8) (shape : Shape) : Decidable (HasGroup before inss w digit shape) :=
  inferInstanceAs (Decidable (_ ∧ _ ∧ _ ∧ _ ∧ _))

/-- An opcode that a register is added to, and what it stands for. -/
def HasRegister (before inss : Code) (opcode : UInt8) (w : Bool) (shape : Shape) : Prop :=
  ∀ b : Fin 8, Opens before (inss ++ [opcode + UInt8.ofNat b]) ∧
    find registerOpcodes (takePrefix before).1 w (opcodeNumber (inss ++ [opcode + UInt8.ofNat b]) / 8 * 8) = some shape ∧
    UInt8.ofNat (opcodeNumber (inss ++ [opcode + UInt8.ofNat b]) % 8) = UInt8.ofNat b

instance (before inss : Code) (opcode : UInt8) (w : Bool) (shape : Shape) : Decidable (HasRegister before inss opcode w shape) :=
  inferInstanceAs (Decidable (∀ _, _))

variable {rule : RexRule} {r b : Bool} {reg rm digit opcode : UInt8}

theorem decode_fields (h : HasFields before inss ((heardRex rule r b).any Rex.w) shape) (hreg : reg < 8) (hrm : rm < 8) (l : Code) :
    decode (before ++ rule.bytes r b ++ inss ++ (modrm 0b11000000 reg rm :: l)) = shape.read ⟨heardRex rule r b, reg, rm⟩ l := by
  obtain ⟨hopens, hregister, hfields⟩ := h
  obtain ⟨hplain, hrex, hopcode⟩ := take_front hopens rule r b (modrm 0b11000000 reg rm :: l)
  obtain ⟨h1, h2, h3⟩ := modrm_fields (show (3 : UInt8) < 4 by decide) hreg hrm
  have htop : (3 : UInt8) <<< 6 = 0b11000000 := by decide
  rw [htop] at h1 h2 h3
  simp only [decode, hplain, hrex, hopcode, Option.bind_some, hregister, take8, h1, h2, h3, if_true, hfields]

theorem decode_group (h : HasGroup before inss ((heardRex rule r b).any Rex.w) digit shape) (hrm : rm < 8) (l : Code) :
    decode (before ++ rule.bytes r b ++ inss ++ (modrm 0b11000000 digit rm :: l)) =
      shape.read ⟨heardRex rule r b, digit, rm⟩ l := by
  obtain ⟨hdigit, hopens, hregister, hfields, hgroup⟩ := h
  obtain ⟨hplain, hrex, hopcode⟩ := take_front hopens rule r b (modrm 0b11000000 digit rm :: l)
  obtain ⟨h1, h2, h3⟩ := modrm_fields (show (3 : UInt8) < 4 by decide) hdigit hrm
  have htop : (3 : UInt8) <<< 6 = 0b11000000 := by decide
  rw [htop] at h1 h2 h3
  simp only [decode, hplain, hrex, hopcode, Option.bind_some, hregister, take8, h1, h2, h3, if_true, hfields, hgroup]

theorem decode_register (h : HasRegister before inss opcode ((heardRex rule r b).any Rex.w) shape) (hrm : rm < 8) (l : Code) :
    decode (before ++ rule.bytes r b ++ inss ++ ((opcode + rm) :: l)) = shape.read ⟨heardRex rule r b, 0, rm⟩ l := by
  obtain ⟨hopens, hregister, hadded⟩ := h ⟨rm.toNat, hrm⟩
  simp only [UInt8.ofNat_toNat] at hopens hregister hadded
  obtain ⟨hplain, hrex, hopcode⟩ := take_front hopens rule r b l
  have hassoc : before ++ rule.bytes r b ++ inss ++ ((opcode + rm) :: l) =
      before ++ rule.bytes r b ++ (inss ++ [opcode + rm]) ++ l := by simp
  simp only [hassoc, decode, hplain, hrex, hopcode, Option.bind_some, hregister, hadded]

end

/-! ## Forms -/

/-- The type of an immediate. -/
inductive Immediate where
  | u8 | u16 | u32 | u64 | i8 | i16 | i32
deriving DecidableEq, Repr

namespace Immediate

abbrev Value : Immediate → Type
  | u8 => UInt8
  | u16 => UInt16
  | u32 => UInt32
  | u64 => UInt64
  | i8 => Int8
  | i16 => Int16
  | i32 => Int32

def operand : (i : Immediate) → i.Value → Operand
  | u8, v => .u8 v
  | u16, v => .u16 v
  | u32, v => .u32 v
  | u64, v => .u64 v
  | i8, v => .u8 v.toUInt8
  | i16, v => .u16 v.toUInt16
  | i32, v => .u32 v.toUInt32

def bytes : (i : Immediate) → i.Value → Code
  | u8, v => [v]
  | u16, v => Assembler.write16 v
  | u32, v => Assembler.write32 v
  | u64, v => Assembler.write64 v
  | i8, v => [v.toUInt8]
  | i16, v => Assembler.write16 v.toUInt16
  | i32, v => Assembler.write32 v.toUInt32

def slot : Immediate → Slot
  | u8 | i8 => .imm8
  | u16 | i16 => .imm16
  | u32 | i32 => .imm32
  | u64 => .imm64

/-- An immediate is read as it was written. -/
theorem read_bytes (i : Immediate) (v : i.Value) (fields : Fields) (l : Code) :
    i.slot.read fields (i.bytes v ++ l) = some (i.operand v, l) := by
  cases i with
  | u8 | i8 => rfl
  | u16 | i16 => simp only [slot, bytes, Slot.read, take16_write16, Option.map_some, operand]
  | u32 | i32 => simp only [slot, bytes, Slot.read, take32_write32, Option.map_some, operand]
  | u64 => simp only [slot, bytes, Slot.read, take64_write64, Option.map_some, operand]

end Immediate

/-- What a parameter of a function is. -/
inductive Kind where
  | register (c : RegisterClass)
  | immediate (i : Immediate)
  | condition
deriving DecidableEq, Repr

namespace Kind

abbrev Value : Kind → Type
  | register c => c.Register
  | immediate i => i.Value
  | condition => Cond

abbrev r8 : Kind := register .r8
abbrev r16 : Kind := register .r16
abbrev r32 : Kind := register .r32
abbrev r64 : Kind := register .r64
abbrev mmx : Kind := register .mmx
abbrev xmm : Kind := register .xmm
abbrev u8 : Kind := immediate .u8
abbrev u16 : Kind := immediate .u16
abbrev u32 : Kind := immediate .u32
abbrev u64 : Kind := immediate .u64
abbrev i8 : Kind := immediate .i8
abbrev i16 : Kind := immediate .i16
abbrev i32 : Kind := immediate .i32

end Kind

/-- The arguments of a function. -/
abbrev Args : List Kind → Type
  | [] => Unit
  | k :: kinds => k.Value × Args kinds

/-- A function of the assembler. -/
abbrev Function : List Kind → Type
  | [] => Option Code
  | k :: kinds => k.Value → Function kinds

def call : (kinds : List Kind) → Function kinds → Args kinds → Option Code
  | [], emit, _ => emit
  | _ :: kinds, emit, (v, args) => call kinds (emit v) args

/-- The arguments that are operands. -/
def operandsOf : (kinds : List Kind) → Args kinds → List Operand
  | [], _ => []
  | .register c :: kinds, (reg, args) => registerOperand c reg :: operandsOf kinds args
  | .immediate i :: kinds, (v, args) => i.operand v :: operandsOf kinds args
  | .condition :: kinds, (_, args) => operandsOf kinds args

/-- Two conditions have two names. -/
def oneName : Cond → Cond
  | .nb => .ae
  | .nbe => .a
  | cond => cond

/-- The argument that is a condition. -/
def conditionOf : (kinds : List Kind) → Args kinds → Option Cond
  | [], _ => none
  | .condition :: _, (cond, _) => some (oneName cond)
  | .register _ :: kinds, (_, args) => conditionOf kinds args
  | .immediate _ :: kinds, (_, args) => conditionOf kinds args

/-- The number of a register. -/
def registerNumber : Operand → Option UInt8
  | .r8 reg => some (number reg)
  | .r16 reg => some (number reg)
  | .r32 reg => some (number reg)
  | .r64 reg => some (number reg)
  | .mmx reg => some (number reg)
  | .xmm reg => some (number reg)
  | _ => none

/-- The registers of an instruction are registers that an encoding can name. -/
def Named (operands : List Operand) : Prop := ∀ o ∈ operands, ∀ n ∈ registerNumber o, n < 16

/-- Some register of an instruction is among the upper eight, so that there is a REX prefix. -/
def Extended (operands : List Operand) : Prop := ∃ o ∈ operands, ∃ n ∈ registerNumber o, 8 ≤ n

/-- The registers of a byte that are read as others without a REX prefix are not among the operands. -/
def Plain (operands : List Operand) : Prop := ∀ reg, .r8 reg ∈ operands → number reg < 4

/-- A function of the assembler, the instructions it is for, and when they are what it writes. -/
structure Form where
  kinds : List Kind
  emit : Function kinds
  means : Args kinds → List Instruction
  exact : Args kinds → Prop

/-- What a function writes is read as the instructions it is for exactly when the form says so. -/
def Form.Sound (form : Form) : Prop :=
  ∀ args code, call form.kinds form.emit args = some code → (ReadAs code (form.means args) ↔ form.exact args)

/-! ## One instruction -/

theorem readAs_one_iff {code : Code} {i j : Instruction} (h : ∀ rest, decode (code ++ rest) = some (i, rest)) :
    ReadAs code [j] ↔ i = j := by
  have hread : ∀ rest, decodeMany [j].length (code ++ rest) = some ([i], rest) := by
    intro rest
    simp only [List.length_singleton, decodeMany, h, Option.bind_some, Option.map_some]
  simp only [ReadAs, hread, Option.some.injEq, Prod.mk.injEq, List.cons.injEq, and_true, forall_const]

/-- A register is read as it was meant, behind a REX prefix or none. -/
def Heard (rex : Option Rex) (c : RegisterClass) (reg : c.Register) : Prop :=
  number reg < 16 ∧ ¬ (c = .r8 ∧ rex = none ∧ 4 ≤ number reg)

/-- A rule that suits some registers: without the prefix an MMX register is read as it is, and a byte register may not be. -/
def Suits : RexRule → List RegisterClass → Bool
  | .never, cs => cs.all (· = .mmx)
  | .extended _, cs => cs.all (· ≠ .r8)
  | .always _, _ => true

theorem heard_iff_of_suits {rule : RexRule} {cs : List RegisterClass} {c : RegisterClass} (h : Suits rule cs = true) (hc : c ∈ cs)
    (reg : c.Register) (r b : Bool) : Heard (heardRex rule r b) c reg ↔ number reg < 16 := by
  refine and_iff_left ?_
  rintro ⟨rfl, hrex, -⟩
  cases rule with
  | never => exact absurd (of_decide_eq_true (List.all_eq_true.1 h _ hc)) (by decide)
  | extended rexw => exact absurd rfl (of_decide_eq_true (List.all_eq_true.1 h _ hc))
  | always rexw => cases hrex

theorem not_extended_mmx {c : RegisterClass} (h : c = .mmx) (reg : c.Register) : decide (8 ≤ number reg) = false := by
  subst h
  cases reg <;> decide

section

variable {c c' : RegisterClass} {reg : c.Register} {rm : c'.Register} {before inss code imm : Code} {rule : RexRule} {op : Op}
  {cond : Option Cond} {slots : List Slot} {os : List Operand} {digit opcode : UInt8}

theorem read_reg (fields : Fields) (code : Code) :
    (Slot.reg c).read fields code = some (registerOperand c (c.read fields.rex fields.reg), code) := rfl

theorem read_rm (fields : Fields) (code : Code) :
    (Slot.rm c).read fields code = some (registerOperand c (c.read (fields.rex.map secondField) fields.rm), code) := rfl

/-- The bytes of some immediates are read as they were written. -/
def ReadSlots (slots : List Slot) (imm : Code) (os : List Operand) : Prop :=
  ∀ fields rest, readSlots fields slots (imm ++ rest) = some (os, rest)

theorem readSlots_nil : ReadSlots [] [] [] := fun _ _ => rfl

theorem readSlots_cl : ReadSlots [.cl] [] [.r8 .cl] := fun _ _ => rfl

theorem readSlots_immediate (i : Immediate) (v : i.Value) : ReadSlots [i.slot] (i.bytes v) [i.operand v] := by
  intro fields rest
  simp only [readSlots, i.read_bytes, Option.bind_some, Option.map_some]

theorem readSlots_signed16 {v : Int16} (h : v.toInt8.toInt16 = v) : ReadSlots [.signed16] [v.toInt8.toUInt8] [.u16 v.toUInt16] := by
  intro fields rest
  have hback : v.toInt8.toUInt8.toInt8.toInt16 = v := h
  simp only [List.cons_append, List.nil_append, readSlots, Slot.read, take8, Option.map_some, Option.bind_some, hback]

theorem readSlots_signed32 {v : Int32} (h : isByte v = true) : ReadSlots [.signed32] [v.toInt8.toUInt8] [.u32 v.toUInt32] := by
  intro fields rest
  have hback : v.toInt8.toUInt8.toInt8.toInt32 = v := of_decide_eq_true h
  simp only [List.cons_append, List.nil_append, readSlots, Slot.read, take8, Option.map_some, Option.bind_some, hback]

theorem regReg_decode (h : regReg before rule inss reg rm = some code) {shape : Shape}
    (hfields : HasFields before inss ((heardRex rule (8 ≤ number reg) (8 ≤ number rm)).any Rex.w) shape) :
    ∃ r b, encodeRegister reg = some r ∧ encodeRegister rm = some b ∧ ∀ rest, decode (code ++ rest) =
      shape.read ⟨heardRex rule (8 ≤ number reg) (8 ≤ number rm), r, b⟩ rest := by
  obtain ⟨r, hr, b, hb, hcode⟩ : ∃ r, encodeRegister reg = some r ∧ ∃ b, encodeRegister rm = some b ∧
      some (before ++ rule.bytes (8 ≤ number reg) (8 ≤ number rm) ++ inss ++ [modrm 0b11000000 r b]) = some code := by
    simpa only [regReg, Option.bind_eq_bind, Option.bind_eq_some_iff] using h
  refine ⟨r, b, hr, hb, fun rest => ?_⟩
  obtain rfl := Option.some.inj hcode
  rw [List.append_assoc, List.singleton_append]
  refine decode_fields hfields ?_ ?_ rest
  · exact (encodeRegister_spec hr).1 ▸ and_seven_lt _
  · exact (encodeRegister_spec hb).1 ▸ and_seven_lt _

/-- A register in the first field. -/
theorem heard_reg_iff {rex : Option Rex} {r : UInt8} (hr : encodeRegister reg = some r)
    (hrex : rex.any Rex.r = decide (8 ≤ number reg)) :
    registerOperand c (c.read rex r) = registerOperand c reg ↔ Heard rex c reg :=
  registerOperand_read_iff hr rex hrex

/-- A register in the second field. -/
theorem heard_rm_iff {rex : Option Rex} {r : UInt8} (hr : encodeRegister reg = some r)
    (hrex : (rex.map secondField).any Rex.r = decide (8 ≤ number reg)) :
    registerOperand c (c.read (rex.map secondField) r) = registerOperand c reg ↔ Heard rex c reg := by
  rw [registerOperand_read_iff hr _ hrex, Heard, Option.map_eq_none_iff]

theorem reg_rm_readAs_iff (h : regReg before rule inss reg rm = some code) (hslots : ReadSlots slots imm os)
    (hfields : HasFields before inss ((heardRex rule (8 ≤ number reg) (8 ≤ number rm)).any Rex.w)
      ⟨op, cond, .reg c :: .rm c' :: slots⟩)
    (hnever : rule = .never → c = .mmx ∧ c' = .mmx) :
    ReadAs (code ++ imm) [⟨op, cond, registerOperand c reg :: registerOperand c' rm :: os⟩] ↔
      Heard (heardRex rule (8 ≤ number reg) (8 ≤ number rm)) c reg ∧
        Heard (heardRex rule (8 ≤ number reg) (8 ≤ number rm)) c' rm := by
  obtain ⟨r, b, hr, hb, hdecode⟩ := regReg_decode h hfields
  obtain ⟨hfirst, hsecond⟩ := heardRex_r rule fun hrule =>
    ⟨not_extended_mmx (hnever hrule).1 reg, not_extended_mmx (hnever hrule).2 rm⟩
  generalize heardRex rule (8 ≤ number reg) (8 ≤ number rm) = rex at hdecode hfirst hsecond ⊢
  have hread : ∀ rest, decode (code ++ imm ++ rest) = some (⟨op, cond, registerOperand c (c.read rex r) ::
      registerOperand c' (c'.read (rex.map secondField) b) :: os⟩, rest) := by
    intro rest
    simp only [List.append_assoc, hdecode, Shape.read, readSlots, read_reg, read_rm, Option.bind_some, hslots _ rest, Option.map_some]
  rw [← heard_reg_iff hr hfirst, ← heard_rm_iff hb hsecond, readAs_one_iff hread]
  simp only [Instruction.mk.injEq, List.cons.injEq, true_and, and_true]

theorem rm_reg_readAs_iff (h : regReg before rule inss reg rm = some code) (hslots : ReadSlots slots imm os)
    (hfields : HasFields before inss ((heardRex rule (8 ≤ number reg) (8 ≤ number rm)).any Rex.w)
      ⟨op, cond, .rm c' :: .reg c :: slots⟩)
    (hnever : rule = .never → c = .mmx ∧ c' = .mmx) :
    ReadAs (code ++ imm) [⟨op, cond, registerOperand c' rm :: registerOperand c reg :: os⟩] ↔
      Heard (heardRex rule (8 ≤ number reg) (8 ≤ number rm)) c' rm ∧
        Heard (heardRex rule (8 ≤ number reg) (8 ≤ number rm)) c reg := by
  obtain ⟨r, b, hr, hb, hdecode⟩ := regReg_decode h hfields
  obtain ⟨hfirst, hsecond⟩ := heardRex_r rule fun hrule =>
    ⟨not_extended_mmx (hnever hrule).1 reg, not_extended_mmx (hnever hrule).2 rm⟩
  generalize heardRex rule (8 ≤ number reg) (8 ≤ number rm) = rex at hdecode hfirst hsecond ⊢
  have hread : ∀ rest, decode (code ++ imm ++ rest) = some (⟨op, cond, registerOperand c' (c'.read (rex.map secondField) b) ::
      registerOperand c (c.read rex r) :: os⟩, rest) := by
    intro rest
    simp only [List.append_assoc, hdecode, Shape.read, readSlots, read_reg, read_rm, Option.bind_some, hslots _ rest, Option.map_some]
  rw [← heard_reg_iff hr hfirst, ← heard_rm_iff hb hsecond, readAs_one_iff hread]
  simp only [Instruction.mk.injEq, List.cons.injEq, true_and, and_true]

/-- The instruction of one register, in the second field or added to the opcode. -/
theorem rm_readAs_iff (hnever : rule = .never → c = .mmx) (hslots : ReadSlots slots imm os) {r b : UInt8}
    (hb : encodeRegister reg = some b) (hdecode : ∀ rest, decode (code ++ rest) =
      Shape.read ⟨op, cond, .rm c :: slots⟩ ⟨heardRex rule false (8 ≤ number reg), r, b⟩ rest) :
    ReadAs (code ++ imm) [⟨op, cond, registerOperand c reg :: os⟩] ↔ Heard (heardRex rule false (8 ≤ number reg)) c reg := by
  obtain ⟨-, hsecond⟩ := heardRex_r rule (r := false) fun hrule => ⟨rfl, not_extended_mmx (hnever hrule) reg⟩
  generalize heardRex rule false (8 ≤ number reg) = rex at hdecode hsecond ⊢
  have hread : ∀ rest, decode (code ++ imm ++ rest) =
      some (⟨op, cond, registerOperand c (c.read (rex.map secondField) b) :: os⟩, rest) := by
    intro rest
    simp only [List.append_assoc, hdecode, Shape.read, readSlots, read_rm, Option.bind_some, hslots _ rest, Option.map_some]
  rw [← heard_rm_iff hb hsecond, readAs_one_iff hread]
  simp only [Instruction.mk.injEq, List.cons.injEq, true_and, and_true]

theorem digit_readAs_iff (h : regDigit before rule inss digit reg = some code) (hslots : ReadSlots slots imm os)
    (hgroup : ∀ w ∈ widths rule, HasGroup before inss w digit ⟨op, cond, .rm c :: slots⟩) (hnever : rule = .never → c = .mmx) :
    ReadAs (code ++ imm) [⟨op, cond, registerOperand c reg :: os⟩] ↔ Heard (heardRex rule false (8 ≤ number reg)) c reg := by
  obtain ⟨b, hb, hcode⟩ : ∃ b, encodeRegister reg = some b ∧
      some (before ++ rule.bytes false (8 ≤ number reg) ++ inss ++ [modrm 0b11000000 digit b]) = some code := by
    simpa only [regDigit, Option.bind_eq_bind, Option.bind_eq_some_iff] using h
  obtain rfl := Option.some.inj hcode
  refine rm_readAs_iff (r := digit) hnever hslots hb fun rest => ?_
  rw [List.append_assoc, List.singleton_append]
  exact decode_group (hgroup _ (heardRex_w ..)) ((encodeRegister_spec hb).1 ▸ and_seven_lt _) rest

/-- An opcode that does not go on in the first field, though something is written there. -/
theorem fields_readAs_iff (h : regDigit before rule inss digit reg = some code) (hslots : ReadSlots slots imm os)
    (hfields : digit < 8 ∧ ∀ w ∈ widths rule, HasFields before inss w ⟨op, cond, .rm c :: slots⟩) (hnever : rule = .never → c = .mmx) :
    ReadAs (code ++ imm) [⟨op, cond, registerOperand c reg :: os⟩] ↔ Heard (heardRex rule false (8 ≤ number reg)) c reg := by
  obtain ⟨b, hb, hcode⟩ : ∃ b, encodeRegister reg = some b ∧
      some (before ++ rule.bytes false (8 ≤ number reg) ++ inss ++ [modrm 0b11000000 digit b]) = some code := by
    simpa only [regDigit, Option.bind_eq_bind, Option.bind_eq_some_iff] using h
  obtain rfl := Option.some.inj hcode
  refine rm_readAs_iff (r := digit) hnever hslots hb fun rest => ?_
  rw [List.append_assoc, List.singleton_append]
  exact decode_fields (hfields.2 _ (heardRex_w ..)) hfields.1 ((encodeRegister_spec hb).1 ▸ and_seven_lt _) rest

theorem opcode_readAs_iff (h : regOpcode before rule inss opcode reg = some code) (hslots : ReadSlots slots imm os)
    (hregister : ∀ w ∈ widths rule, HasRegister before inss opcode w ⟨op, cond, .rm c :: slots⟩)
    (hnever : rule = .never → c = .mmx) :
    ReadAs (code ++ imm) [⟨op, cond, registerOperand c reg :: os⟩] ↔ Heard (heardRex rule false (8 ≤ number reg)) c reg := by
  obtain ⟨b, hb, hcode⟩ : ∃ b, encodeRegister reg = some b ∧
      some (before ++ rule.bytes false (8 ≤ number reg) ++ inss ++ [opcode + b]) = some code := by
    simpa only [regOpcode, Option.bind_eq_bind, Option.bind_eq_some_iff] using h
  obtain rfl := Option.some.inj hcode
  refine rm_readAs_iff (r := 0) hnever hslots hb fun rest => ?_
  rw [List.append_assoc, List.singleton_append]
  exact decode_register (hregister _ (heardRex_w ..)) ((encodeRegister_spec hb).1 ▸ and_seven_lt _) rest

end

/-! ## Several instructions -/

theorem decodeMany_add (m n : Nat) (code : Code) :
    decodeMany (m + n) code = (decodeMany m code).bind fun (instructions, code) =>
      (decodeMany n code).map fun (others, code) => (instructions ++ others, code) := by
  induction m generalizing code with
  | zero => simp [decodeMany]
  | succ m ih =>
    rw [Nat.add_right_comm, decodeMany, decodeMany]
    cases decode code with
    | none => rfl
    | some p =>
      simp only [Option.bind_some, ih]
      cases decodeMany m p.2 with
      | none => rfl
      | some q =>
        simp only [Option.bind_some, Option.map_some]
        cases decodeMany n q.2 <;> rfl

theorem ReadAs.append {code code' : Code} {instructions instructions' : List Instruction} (h : ReadAs code instructions)
    (h' : ReadAs code' instructions') : ReadAs (code ++ code') (instructions ++ instructions') := by
  intro rest
  rw [List.length_append, decodeMany_add, List.append_assoc, h]
  simp only [Option.bind_some, h' rest, Option.map_some]

/-- The number of the register that is read for a number. -/
theorem number_read {c : RegisterClass} {n : UInt8} (hn : n < 16) {rex : Option Rex} (hrex : rex.any Rex.r = decide (8 ≤ n))
    (hsome : c = .r8 → rex ≠ none) (hmmx : c = .mmx → n < 8) : number (c.read rex (n &&& 7)) = n := by
  obtain ⟨i, rfl⟩ : ∃ i : Fin 16, n = UInt8.ofNat i := ⟨⟨n.toNat, hn⟩, UInt8.ofNat_toNat.symm⟩
  cases c with
  | r8 =>
    obtain ⟨rex, rfl⟩ := Option.ne_none_iff_exists'.1 (hsome rfl)
    have hr : rex.r = decide (8 ≤ UInt8.ofNat i) := hrex
    simp only [RegisterClass.read, byteRegister, hr]
    clear hr hrex hsome hmmx hn
    revert i
    decide
  | r16 | r32 | r64 | xmm =>
    simp only [RegisterClass.read, hrex]
    clear hrex hsome hmmx hn
    revert i
    decide
  | mmx =>
    simp only [RegisterClass.read]
    have hlow := hmmx rfl
    clear hrex hsome hmmx hn
    revert i
    decide

end RegisterCode

end X64Emulator
