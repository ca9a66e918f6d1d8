import X64Emulator.Lemmas.RegisterCode

/-!
# The register forms of the assembler

What a register form writes is read as the instruction it is for where its registers have a number in the encoding, with a few
exceptions: the registers of a byte that need a REX prefix which most forms on bytes leave out, two forms that leave it out though
it gives them their width, and the forms that exchange their registers or have the opcode of another instruction.
-/

namespace X64Emulator

namespace RegisterCode

open Ir MachineCode Assembler

open HostRegister (number encodeRegister)

/-! ## Kinds of forms -/

/-- A form that writes its instruction where its registers can be named. It may have an operand that is not an argument. -/
def plain (op : Op) (kinds : List Kind) (emit : Function kinds) (implicit : List Operand := []) : Form where
  kinds := kinds
  emit := emit
  means args := [⟨op, conditionOf kinds args, operandsOf kinds args ++ implicit⟩]
  exact args := Named (operandsOf kinds args)

/-- A form on bytes that writes the REX prefix only for the upper eight registers. -/
def withoutRex (op : Op) (kinds : List Kind) (emit : Function kinds) (implicit : List Operand := []) : Form where
  kinds := kinds
  emit := emit
  means args := [⟨op, conditionOf kinds args, operandsOf kinds args ++ implicit⟩]
  exact args := Named (operandsOf kinds args) ∧ (Extended (operandsOf kinds args) ∨ Plain (operandsOf kinds args))

/-- A form that writes the REX prefix, which has its width, only for the upper eight registers. -/
def withoutWidth (op : Op) (kinds : List Kind) (emit : Function kinds) : Form where
  kinds := kinds
  emit := emit
  means args := [⟨op, none, operandsOf kinds args⟩]
  exact args := Named (operandsOf kinds args) ∧ Extended (operandsOf kinds args)

/-- A form that puts each register where the other belongs. -/
def exchanged (op : Op) (c c' : RegisterClass) (emit : c.Register → c'.Register → Option Code) : Form where
  kinds := [.register c, .register c']
  emit := emit
  means args := [⟨op, none, operandsOf [.register c, .register c'] args⟩]
  exact args := number args.1 = number args.2.1

/-- A form that writes another instruction. -/
def mistaken (op : Op) (kinds : List Kind) (emit : Function kinds) : Form where
  kinds := kinds
  emit := emit
  means args := [⟨op, none, operandsOf kinds args⟩]
  exact _ := False

/-- A shift by a register, which is moved to `cl` for it. -/
def shift (op : Op) (c : RegisterClass) (emit : c.Register → R8 → Option Code) : Form where
  kinds := [.register c, .r8]
  emit := emit
  means args := [⟨.push, none, [.r64 .rcx]⟩, ⟨.mov, none, [.r8 .cl, .r8 args.2.1]⟩, ⟨op, none, [registerOperand c args.1, .r8 .cl]⟩,
    ⟨.pop, none, [.r64 .rcx]⟩]
  exact _ := True

/-! ## Soundness of each kind -/

attribute [local simp] conditionOf operandsOf

section

variable {c c' : RegisterClass} {reg : c.Register} {os : List Operand}

/-- A register operand has the number of its register. -/
@[simp] theorem registerNumber_registerOperand : registerNumber (registerOperand c reg) = some (number reg) := by
  cases c <;> rfl

/-- An immediate has none. -/
@[simp] theorem registerNumber_immediate (i : Immediate) (v : i.Value) : registerNumber (i.operand v) = none := by
  cases i <;> rfl

@[simp] theorem named_nil : Named [] := by simp [Named]

/-- Each operand is looked at. -/
theorem named_cons {o : Operand} : Named (o :: os) ↔ (∀ n ∈ registerNumber o, n < 16) ∧ Named os := List.forall_mem_cons

/-- A register has a name if its number is below 16. -/
@[simp] theorem named_register : Named (registerOperand c reg :: os) ↔ number reg < 16 ∧ Named os := by
  simp [named_cons]

@[simp] theorem named_immediate (i : Immediate) (v : i.Value) : Named (i.operand v :: os) ↔ Named os := by
  simp [named_cons]

@[simp] theorem extended_nil : ¬ Extended [] := by simp [Extended]

/-- A register is extended from 8 on. -/
@[simp] theorem extended_register : Extended (registerOperand c reg :: os) ↔ 8 ≤ number reg ∨ Extended os := by
  simp [Extended]

@[simp] theorem extended_immediate (i : Immediate) (v : i.Value) : Extended (i.operand v :: os) ↔ Extended os := by
  simp [Extended]

@[simp] theorem plain_nil : Plain [] := by simp [Plain]

/-- The first four registers of a byte are the same with a prefix and without. -/
@[simp] theorem plain_register : Plain (registerOperand c reg :: os) ↔ (c = .r8 → number reg < 4) ∧ Plain os := by
  cases c <;> simp [Plain, registerOperand, or_imp, forall_and]

@[simp] theorem plain_immediate (i : Immediate) (v : i.Value) : Plain (i.operand v :: os) ↔ Plain os := by
  cases i <;> simp [Plain, Immediate.operand]

end

/-- What is written was not refused. -/
theorem guarded {p : Bool} {x : Option Code} {code : Code} (h : (if p then x else none) = some code) : x = some code := by
  split at h
  · exact h
  · cases h

/-- Only MMX registers go without a prefix. -/
theorem eq_mmx_of_suits_one {rule : RexRule} {c : RegisterClass} (h : Suits rule [c] = true) (hrule : rule = .never) :
    c = .mmx := by
  subst hrule
  simpa [Suits] using h

/-- Both registers are then MMX registers. -/
theorem eq_mmx_of_suits {rule : RexRule} {c c' : RegisterClass} (h : Suits rule [c, c'] = true) (hrule : rule = .never) :
    c = .mmx ∧ c' = .mmx := by
  subst hrule
  simpa [Suits] using h

theorem either_extended_iff {p q e e' l l' : Prop} : (p ∧ (e' ∨ e ∨ l)) ∧ q ∧ (e' ∨ e ∨ l') ↔ (p ∧ q) ∧ ((e ∨ e') ∨ l ∧ l') := by
  tauto

/-- A register is heard if another one is extended, or if it needs no prefix. -/
theorem heard_extended_iff {c : RegisterClass} {reg : c.Register} {r b : Bool} :
    Heard (heardRex (.extended .NONE) r b) c reg ↔
      number reg < 16 ∧ (r = true ∨ b = true ∨ (c = .r8 → number reg < 4)) := by
  refine and_congr_right fun _ => ?_
  have hnone : heardRex (.extended .NONE) r b = none ↔ r = false ∧ b = false := by
    cases r <;> cases b <;> decide
  rw [hnone, ← UInt8.not_le]
  cases r <;> cases b <;> simp

/-- An immediate follows code that was written. -/
theorem followed_eq_some {written : Option Code} {imm code : Code} (h : followed written imm = some code) :
    ∃ code', written = some code' ∧ code = code' ++ imm := by
  obtain ⟨code', hcode', rfl⟩ := Option.map_eq_some_iff.1 h
  exact ⟨code', hcode', rfl⟩

section

variable {c c' : RegisterClass} {before inss : Code} {rule : RexRule} {op : Op} {digit opcode : UInt8} {i : Immediate}

/-! ### Two registers -/

/-- The destination in the first field. -/
theorem plain_reg_rm {emit : c.Register → c'.Register → Option Code}
    (hemit : ∀ reg rm code, emit reg rm = some code → regReg before rule inss reg rm = some code)
    (hknown : Suits rule [c, c'] = true ∧ ∀ w ∈ widths rule, HasFields before inss w ⟨op, none, [.reg c, .rm c']⟩) :
    (plain op [.register c, .register c'] emit).Sound := by
  rintro ⟨reg, rm, ⟨⟩⟩ code h
  obtain ⟨hsuits, hfields⟩ := hknown
  have hread := reg_rm_readAs_iff (hemit reg rm code h) readSlots_nil (hfields _ (heardRex_w ..)) (eq_mmx_of_suits hsuits)
  rw [List.append_nil, heard_iff_of_suits hsuits (by simp), heard_iff_of_suits hsuits (by simp)] at hread
  simpa [plain] using hread

/-- The destination in the first field, and an immediate. -/
theorem plain_reg_rm_immediate {emit : c.Register → c'.Register → i.Value → Option Code}
    (hemit : ∀ reg rm v code, emit reg rm v = some code → followed (regReg before rule inss reg rm) (i.bytes v) = some code)
    (hknown : Suits rule [c, c'] = true ∧ ∀ w ∈ widths rule, HasFields before inss w ⟨op, none, [.reg c, .rm c', i.slot]⟩) :
    (plain op [.register c, .register c', .immediate i] emit).Sound := by
  rintro ⟨reg, rm, v, ⟨⟩⟩ code h
  obtain ⟨hsuits, hfields⟩ := hknown
  obtain ⟨code, hcode, rfl⟩ := followed_eq_some (hemit reg rm v code h)
  have hread := reg_rm_readAs_iff hcode (readSlots_immediate i v) (hfields _ (heardRex_w ..)) (eq_mmx_of_suits hsuits)
  rw [heard_iff_of_suits hsuits (by simp), heard_iff_of_suits hsuits (by simp)] at hread
  simpa [plain] using hread

/-- The destination in the second field. -/
theorem plain_rm_reg {emit : c.Register → c'.Register → Option Code}
    (hemit : ∀ rm reg code, emit rm reg = some code → regReg before rule inss reg rm = some code)
    (hknown : Suits rule [c, c'] = true ∧ ∀ w ∈ widths rule, HasFields before inss w ⟨op, none, [.rm c, .reg c']⟩) :
    (plain op [.register c, .register c'] emit).Sound := by
  rintro ⟨rm, reg, ⟨⟩⟩ code h
  obtain ⟨hsuits, hfields⟩ := hknown
  have hread := rm_reg_readAs_iff (hemit rm reg code h) readSlots_nil (hfields _ (heardRex_w ..))
    fun hrule => (eq_mmx_of_suits hsuits hrule).symm
  rw [List.append_nil, heard_iff_of_suits hsuits (by simp), heard_iff_of_suits hsuits (by simp)] at hread
  simpa [plain] using hread

/-- The destination in the second field, and an immediate. -/
theorem plain_rm_reg_immediate {emit : c.Register → c'.Register → i.Value → Option Code}
    (hemit : ∀ rm reg v code, emit rm reg v = some code → followed (regReg before rule inss reg rm) (i.bytes v) = some code)
    (hknown : Suits rule [c, c'] = true ∧ ∀ w ∈ widths rule, HasFields before inss w ⟨op, none, [.rm c, .reg c', i.slot]⟩) :
    (plain op [.register c, .register c', .immediate i] emit).Sound := by
  rintro ⟨rm, reg, v, ⟨⟩⟩ code h
  obtain ⟨hsuits, hfields⟩ := hknown
  obtain ⟨code, hcode, rfl⟩ := followed_eq_some (hemit rm reg v code h)
  have hread := rm_reg_readAs_iff hcode (readSlots_immediate i v) (hfields _ (heardRex_w ..))
    fun hrule => (eq_mmx_of_suits hsuits hrule).symm
  rw [heard_iff_of_suits hsuits (by simp), heard_iff_of_suits hsuits (by simp)] at hread
  simpa [plain] using hread

/-- Two registers of a byte. -/
theorem withoutRex_rm_reg {emit : c.Register → c'.Register → Option Code}
    (hemit : ∀ rm reg code, emit rm reg = some code → regReg before (.extended .NONE) inss reg rm = some code)
    (hfields : ∀ w ∈ widths (.extended .NONE), HasFields before inss w ⟨op, none, [.rm c, .reg c']⟩) :
    (withoutRex op [.register c, .register c'] emit).Sound := by
  rintro ⟨rm, reg, ⟨⟩⟩ code h
  have hread := rm_reg_readAs_iff (hemit rm reg code h) readSlots_nil (hfields _ (heardRex_w ..)) (by simp)
  rw [List.append_nil, heard_extended_iff, heard_extended_iff] at hread
  rw [decide_eq_true_iff, decide_eq_true_iff] at hread
  simpa [withoutRex] using hread.trans either_extended_iff

/-! ### One register -/

variable {slots : List Slot} {implicit : List Operand}

/-- The first field is a digit. -/
theorem plain_digit (hslots : ReadSlots slots [] implicit) {emit : c.Register → Option Code}
    (hemit : ∀ rm code, emit rm = some code → regDigit before rule inss digit rm = some code)
    (hknown : Suits rule [c] = true ∧ ∀ w ∈ widths rule, HasGroup before inss w digit ⟨op, none, .rm c :: slots⟩) :
    (plain op [.register c] emit implicit).Sound := by
  rintro ⟨rm, ⟨⟩⟩ code h
  obtain ⟨hsuits, hgroup⟩ := hknown
  have hread := digit_readAs_iff (hemit rm code h) hslots hgroup (eq_mmx_of_suits_one hsuits)
  rw [List.append_nil, heard_iff_of_suits hsuits (by simp)] at hread
  simpa [plain] using hread

/-- A digit, and an immediate. -/
theorem plain_digit_immediate {emit : c.Register → i.Value → Option Code}
    (hemit : ∀ rm v code, emit rm v = some code → followed (regDigit before rule inss digit rm) (i.bytes v) = some code)
    (hknown : Suits rule [c] = true ∧ ∀ w ∈ widths rule, HasGroup before inss w digit ⟨op, none, [.rm c, i.slot]⟩) :
    (plain op [.register c, .immediate i] emit).Sound := by
  rintro ⟨rm, v, ⟨⟩⟩ code h
  obtain ⟨hsuits, hgroup⟩ := hknown
  obtain ⟨code, hcode, rfl⟩ := followed_eq_some (hemit rm v code h)
  have hread := digit_readAs_iff hcode (readSlots_immediate i v) hgroup (eq_mmx_of_suits_one hsuits)
  rw [heard_iff_of_suits hsuits (by simp)] at hread
  simpa [plain] using hread

/-- An immediate of 16 bits, which may be written as one byte. -/
theorem plain_imm16 {emit : c.Register → Int16 → Option Code}
    (hemit : ∀ rm v code, emit rm v = some code → regImm16 rule digit rm v = some code)
    (hknown : Suits rule [c] = true ∧ ∀ w ∈ widths rule, HasGroup [0x66] [0x83] w digit ⟨op, none, [.rm c, .signed16]⟩ ∧
      HasGroup [0x66] [0x81] w digit ⟨op, none, [.rm c, .imm16]⟩) : (plain op [.register c, .i16] emit).Sound := by
  rintro ⟨rm, v, ⟨⟩⟩ code h
  obtain ⟨hsuits, hgroup⟩ := hknown
  have hread : ReadAs code [⟨op, none, [registerOperand c rm, Immediate.i16.operand v]⟩] ↔
      Heard (heardRex rule false (8 ≤ number rm)) c rm := by
    have hwritten := hemit rm v code h
    rw [regImm16] at hwritten
    split at hwritten
    · next hshort =>
      obtain ⟨code, hcode, rfl⟩ := followed_eq_some hwritten
      exact digit_readAs_iff hcode (readSlots_signed16 hshort) (fun w hw => (hgroup w hw).1) (eq_mmx_of_suits_one hsuits)
    · obtain ⟨code, hcode, rfl⟩ := followed_eq_some hwritten
      exact digit_readAs_iff hcode (readSlots_immediate .i16 v) (fun w hw => (hgroup w hw).2) (eq_mmx_of_suits_one hsuits)
  rw [heard_iff_of_suits hsuits (by simp)] at hread
  simpa [plain] using hread

/-- An immediate of 32 bits, which may be written as one byte. -/
theorem plain_imm32 {emit : c.Register → Int32 → Option Code}
    (hemit : ∀ rm v code, emit rm v = some code → regImm32 rule digit rm v = some code)
    (hknown : Suits rule [c] = true ∧ ∀ w ∈ widths rule, HasGroup [] [0x83] w digit ⟨op, none, [.rm c, .signed32]⟩ ∧
      HasGroup [] [0x81] w digit ⟨op, none, [.rm c, .imm32]⟩) : (plain op [.register c, .i32] emit).Sound := by
  rintro ⟨rm, v, ⟨⟩⟩ code h
  obtain ⟨hsuits, hgroup⟩ := hknown
  have hread : ReadAs code [⟨op, none, [registerOperand c rm, Immediate.i32.operand v]⟩] ↔
      Heard (heardRex rule false (8 ≤ number rm)) c rm := by
    have hwritten := hemit rm v code h
    rw [regImm32] at hwritten
    split at hwritten
    · next hshort =>
      obtain ⟨code, hcode, rfl⟩ := followed_eq_some hwritten
      exact digit_readAs_iff hcode (readSlots_signed32 hshort) (fun w hw => (hgroup w hw).1) (eq_mmx_of_suits_one hsuits)
    · obtain ⟨code, hcode, rfl⟩ := followed_eq_some hwritten
      exact digit_readAs_iff hcode (readSlots_immediate .i32 v) (fun w hw => (hgroup w hw).2) (eq_mmx_of_suits_one hsuits)
  rw [heard_iff_of_suits hsuits (by simp)] at hread
  simpa [plain] using hread

/-- The register is added to the opcode. -/
theorem plain_opcode {emit : c.Register → Option Code}
    (hemit : ∀ rm code, emit rm = some code → regOpcode before rule inss opcode rm = some code)
    (hknown : Suits rule [c] = true ∧ ∀ w ∈ widths rule, HasRegister before inss opcode w ⟨op, none, [.rm c]⟩) :
    (plain op [.register c] emit).Sound := by
  rintro ⟨rm, ⟨⟩⟩ code h
  obtain ⟨hsuits, hregister⟩ := hknown
  have hread := opcode_readAs_iff (hemit rm code h) readSlots_nil hregister (eq_mmx_of_suits_one hsuits)
  rw [List.append_nil, heard_iff_of_suits hsuits (by simp)] at hread
  simpa [plain] using hread

/-- The register in the opcode, and an immediate. -/
theorem plain_opcode_immediate {emit : c.Register → i.Value → Option Code}
    (hemit : ∀ rm v code, emit rm v = some code → followed (regOpcode before rule inss opcode rm) (i.bytes v) = some code)
    (hknown : Suits rule [c] = true ∧ ∀ w ∈ widths rule, HasRegister before inss opcode w ⟨op, none, [.rm c, i.slot]⟩) :
    (plain op [.register c, .immediate i] emit).Sound := by
  rintro ⟨rm, v, ⟨⟩⟩ code h
  obtain ⟨hsuits, hregister⟩ := hknown
  obtain ⟨code, hcode, rfl⟩ := followed_eq_some (hemit rm v code h)
  have hread := opcode_readAs_iff hcode (readSlots_immediate i v) hregister (eq_mmx_of_suits_one hsuits)
  rw [heard_iff_of_suits hsuits (by simp)] at hread
  simpa [plain] using hread

/-- One register of a byte. -/
theorem withoutRex_digit (hslots : ReadSlots slots [] implicit) {emit : c.Register → Option Code}
    (hemit : ∀ rm code, emit rm = some code → regDigit before (.extended .NONE) inss digit rm = some code)
    (hgroup : ∀ w ∈ widths (.extended .NONE), HasGroup before inss w digit ⟨op, none, .rm c :: slots⟩) :
    (withoutRex op [.register c] emit implicit).Sound := by
  rintro ⟨rm, ⟨⟩⟩ code h
  have hread := digit_readAs_iff (hemit rm code h) hslots hgroup (by simp)
  rw [List.append_nil, heard_extended_iff, decide_eq_true_iff] at hread
  simpa [withoutRex] using hread

/-- A register of a byte, and an immediate. -/
theorem withoutRex_digit_immediate {emit : c.Register → i.Value → Option Code}
    (hemit : ∀ rm v code, emit rm v = some code →
      followed (regDigit before (.extended .NONE) inss digit rm) (i.bytes v) = some code)
    (hgroup : ∀ w ∈ widths (.extended .NONE), HasGroup before inss w digit ⟨op, none, [.rm c, i.slot]⟩) :
    (withoutRex op [.register c, .immediate i] emit).Sound := by
  rintro ⟨rm, v, ⟨⟩⟩ code h
  obtain ⟨code, hcode, rfl⟩ := followed_eq_some (hemit rm v code h)
  have hread := digit_readAs_iff hcode (readSlots_immediate i v) hgroup (by simp)
  rw [heard_extended_iff, decide_eq_true_iff] at hread
  simpa [withoutRex] using hread

/-! ### Conditions -/

/-- A condition and two registers. -/
theorem plain_condition {opcodeOf : Cond → Option UInt8} {emit : Cond → c.Register → c'.Register → Option Code}
    (hemit : ∀ cond reg rm code, emit cond reg rm = some code →
      ∃ opcode, opcodeOf cond = some opcode ∧ regReg before rule [0x0f, opcode] reg rm = some code)
    (hsuits : Suits rule [c, c'] = true) (hfields : ∀ cond opcode, opcodeOf cond = some opcode → ∀ w ∈ widths rule,
      HasFields before [0x0f, opcode] w ⟨op, some (oneName cond), [.reg c, .rm c']⟩) :
    (plain op [.condition, .register c, .register c'] emit).Sound := by
  rintro ⟨cond, reg, rm, ⟨⟩⟩ code h
  obtain ⟨opcode, hopcode, hwritten⟩ := hemit cond reg rm code h
  have hread := reg_rm_readAs_iff hwritten readSlots_nil (hfields cond opcode hopcode _ (heardRex_w ..)) (eq_mmx_of_suits hsuits)
  rw [List.append_nil, heard_iff_of_suits hsuits (by simp), heard_iff_of_suits hsuits (by simp)] at hread
  simpa [plain] using hread

/-- A condition and a register of a byte. -/
theorem withoutRex_condition {opcodeOf : Cond → Option UInt8} {emit : Cond → c.Register → Option Code}
    (hemit : ∀ cond rm code, emit cond rm = some code →
      ∃ opcode, opcodeOf cond = some opcode ∧ regDigit before (.extended .NONE) [0x0f, opcode] digit rm = some code)
    (hdigit : digit < 8) (hfields : ∀ cond opcode, opcodeOf cond = some opcode → ∀ w ∈ widths (.extended .NONE),
      HasFields before [0x0f, opcode] w ⟨op, some (oneName cond), [.rm c]⟩) :
    (withoutRex op [.condition, .register c] emit).Sound := by
  rintro ⟨cond, rm, ⟨⟩⟩ code h
  obtain ⟨opcode, hopcode, hwritten⟩ := hemit cond rm code h
  have hread := fields_readAs_iff hwritten readSlots_nil ⟨hdigit, hfields cond opcode hopcode⟩ (by simp)
  rw [List.append_nil, heard_extended_iff, decide_eq_true_iff] at hread
  simpa [withoutRex] using hread

/-! ### Forms that go wrong -/

/-- The registers the compiler computes with are extended. -/
theorem scratch_bounds {reg : c.Register} (h : isScratch reg = true) : 8 ≤ number reg ∧ number reg < 16 := by
  rw [isScratch, Bool.or_eq_true, decide_eq_true_iff, decide_eq_true_iff] at h
  rcases h with h | h
  · rw [h]
    decide
  · rw [h]
    decide

/-- No MMX register is extended. -/
theorem low_mmx (h : c = .mmx) (reg : c.Register) : number reg < 8 := by
  subst h
  cases reg <;> decide

/-- Each register is read where the other was written. -/
theorem exchanged_sound {emit : c.Register → c'.Register → Option Code}
    (hemit : ∀ dst src code, emit dst src = some code →
      regReg before rule inss src dst = some code ∧ (isScratch src = true ∨ c' = .mmx))
    (hknown : (c ≠ .r8 ∧ (c = .mmx → c' = .mmx) ∧ (rule = .never → c = .mmx ∧ c' = .mmx)) ∧
      ∀ w ∈ widths rule, HasFields before inss w ⟨op, none, [.reg c, .rm c']⟩) : (exchanged op c c' emit).Sound := by
  rintro ⟨dst, src, ⟨⟩⟩ code h
  obtain ⟨hwritten, hsrc⟩ := hemit dst src code h
  obtain ⟨⟨hbyte, hmmx, hnever⟩, hfields⟩ := hknown
  obtain ⟨r, b, hr, hb, hdecode⟩ := regReg_decode hwritten (hfields _ (heardRex_w ..))
  obtain ⟨hfirst, hsecond⟩ := heardRex_r rule fun hrule =>
    ⟨not_extended_mmx (hnever hrule).2 src, not_extended_mmx (hnever hrule).1 dst⟩
  generalize heardRex rule (8 ≤ number src) (8 ≤ number dst) = rex at hdecode hfirst hsecond
  have hread : ∀ rest, decode (code ++ rest) = some (⟨op, none, [registerOperand c (c.read rex r),
      registerOperand c' (c'.read (rex.map secondField) b)]⟩, rest) := by
    intro rest
    simp only [hdecode, Shape.read, readSlots, read_reg, read_rm, Option.bind_some, Option.map_some]
  have hlt : number src < 16 := hsrc.elim (fun h => (scratch_bounds h).2) fun h => UInt8.lt_trans (low_mmx h src) (by decide)
  obtain ⟨rfl, -⟩ := encodeRegister_spec hr
  refine (readAs_one_iff hread).trans ?_
  simp only [exchanged, operandsOf, Instruction.mk.injEq, List.cons.injEq, true_and, and_true]
  constructor
  · rintro ⟨hdst, -⟩
    rw [← registerOperand_inj.1 hdst]
    exact number_read hlt hfirst (fun h => absurd h hbyte) fun h => low_mmx (hmmx h) src
  · intro heq
    have hencode : encodeRegister dst = some (number src &&& 7) := by rw [hb, (encodeRegister_spec hb).1, heq]
    have hencode' : encodeRegister src = some b := by rw [hr, (encodeRegister_spec hb).1, heq]
    rw [heq] at hsecond
    refine ⟨(registerOperand_read_iff hencode rex (heq ▸ hfirst)).2 ⟨heq ▸ hlt, fun h => hbyte h.1⟩,
      (registerOperand_read_iff hencode' _ hsecond).2 ⟨hlt, ?_⟩⟩
    rintro ⟨hc', hnone, -⟩
    rcases hsrc with hscratch | hmmx
    · rw [hnone, decide_eq_true (scratch_bounds hscratch).1] at hsecond
      cases hsecond
    · rw [hmmx] at hc'
      cases hc'

/-- Code is read as one instruction only. -/
theorem ReadAs.one_iff {code : Code} {i j : Instruction} (h : ReadAs code [i]) : ReadAs code [j] ↔ i = j := by
  constructor
  · intro h'
    have heq := (h []).symm.trans (h' [])
    simpa using heq
  · rintro rfl
    exact h

/-- The opcode is that of the other direction. -/
theorem exchanged_mmx {emit : c.Register → c'.Register → Option Code}
    (hemit : ∀ dst src code, emit dst src = some code → regReg before rule inss dst src = some code)
    (hknown : (c = .mmx ∧ c' = .mmx) ∧ ∀ w ∈ widths rule, HasFields before inss w ⟨op, none, [.rm c', .reg c]⟩) :
    (exchanged op c c' emit).Sound := by
  rintro ⟨dst, src, ⟨⟩⟩ code h
  obtain ⟨⟨hc, hc'⟩, hfields⟩ := hknown
  have hheard := rm_reg_readAs_iff (hemit dst src code h) readSlots_nil (hfields _ (heardRex_w ..)) fun _ => ⟨hc, hc'⟩
  have hdst := UInt8.lt_trans (low_mmx hc dst) (show (8 : UInt8) < 16 by decide)
  have hsrc := UInt8.lt_trans (low_mmx hc' src) (show (8 : UInt8) < 16 by decide)
  have hread := hheard.2 ⟨⟨hsrc, fun h => absurd (hc'.symm.trans h.1) (by decide)⟩,
    ⟨hdst, fun h => absurd (hc.symm.trans h.1) (by decide)⟩⟩
  rw [List.append_nil] at hread
  refine hread.one_iff.trans ?_
  subst hc hc'
  simp only [exchanged, operandsOf, Instruction.mk.injEq, List.cons.injEq, true_and, and_true, registerOperand_inj]
  clear hheard hread hdst hsrc h
  cases dst <;> cases src <;> decide

/-- The opcode is that of another instruction. -/
theorem mistaken_sound {op' : Op} {emit : c.Register → c'.Register → Option Code}
    (hemit : ∀ reg rm code, emit reg rm = some code → regReg before rule inss reg rm = some code)
    (hknown : op' ≠ op ∧ ∀ w ∈ widths rule, HasFields before inss w ⟨op', none, [.reg c, .rm c']⟩) :
    (mistaken op [.register c, .register c'] emit).Sound := by
  rintro ⟨reg, rm, ⟨⟩⟩ code h
  obtain ⟨hop, hfields⟩ := hknown
  obtain ⟨r, b, -, -, hdecode⟩ := regReg_decode (hemit reg rm code h) (hfields _ (heardRex_w ..))
  generalize heardRex rule (8 ≤ number reg) (8 ≤ number rm) = rex at hdecode
  have hread : ∀ rest, decode (code ++ rest) = some (⟨op', none, [registerOperand c (c.read rex r),
      registerOperand c' (c'.read (rex.map secondField) b)]⟩, rest) := by
    intro rest
    simp only [hdecode, Shape.read, readSlots, read_reg, read_rm, Option.bind_some, Option.map_some]
  exact iff_of_false (fun h => hop (Instruction.mk.inj ((readAs_one_iff hread).1 h)).1) id

/-- The width that is read where it is written for the upper registers only. -/
theorem heardRex_extended_w (r b : Bool) : (heardRex (.extended .W) r b).any Rex.w = (r || b) := by
  cases r <;> cases b <;> decide

/-- A register of more than a byte needs a name. -/
theorem heard_iff_of_ne (hc : c ≠ .r8) {reg : c.Register} {rex : Option Rex} : Heard rex c reg ↔ number reg < 16 :=
  and_iff_left fun h => hc h.1

/-- Operands tell their class. -/
theorem eq_of_registerOperand_eq {reg : c.Register} {reg' : c'.Register} (h : registerOperand c reg = registerOperand c' reg') :
    c = c' := by
  cases c <;> cases c' <;> first | rfl | cases h

variable {op' : Op} {d d' : RegisterClass}

/-- Without the prefix the opcode is that of an operation on fewer bits. -/
theorem withoutWidth_reg_rm {emit : c.Register → c'.Register → Option Code}
    (hemit : ∀ reg rm code, emit reg rm = some code → regReg before (.extended .W) inss reg rm = some code)
    (hknown : (c ≠ .r8 ∧ c' ≠ .r8 ∧ d ≠ c) ∧ HasFields before inss true ⟨op, none, [.reg c, .rm c']⟩ ∧
      HasFields before inss false ⟨op', none, [.reg d, .rm d']⟩) : (withoutWidth op [.register c, .register c'] emit).Sound := by
  rintro ⟨reg, rm, ⟨⟩⟩ code h
  obtain ⟨⟨hc, hc', hd⟩, hwide, hnarrow⟩ := hknown
  have hwidth := heardRex_extended_w (8 ≤ number reg) (8 ≤ number rm)
  simp only [withoutWidth, operandsOf, named_register, named_nil, extended_register, extended_nil, and_true, or_false]
  by_cases hextended : 8 ≤ number reg ∨ 8 ≤ number rm
  · have htrue : (decide (8 ≤ number reg) || decide (8 ≤ number rm)) = true := by simpa using hextended
    rw [htrue] at hwidth
    have hread := reg_rm_readAs_iff (hemit reg rm code h) readSlots_nil (hwidth ▸ hwide) (by simp)
    rw [List.append_nil, heard_iff_of_ne hc, heard_iff_of_ne hc'] at hread
    exact hread.trans (and_iff_left hextended).symm
  · have hfalse : (decide (8 ≤ number reg) || decide (8 ≤ number rm)) = false := by simpa using hextended
    rw [hfalse] at hwidth
    obtain ⟨r, b, -, -, hdecode⟩ := regReg_decode (hemit reg rm code h) (hwidth ▸ hnarrow)
    generalize heardRex (.extended .W) (8 ≤ number reg) (8 ≤ number rm) = rex at hdecode
    have hread : ∀ rest, decode (code ++ rest) = some (⟨op', none, [registerOperand d (d.read rex r),
        registerOperand d' (d'.read (rex.map secondField) b)]⟩, rest) := by
      intro rest
      simp only [hdecode, Shape.read, readSlots, read_reg, read_rm, Option.bind_some, Option.map_some]
    refine iff_of_false (fun h => hd ?_) fun h => hextended h.2
    exact eq_of_registerOperand_eq (List.cons.inj (Instruction.mk.inj ((readAs_one_iff hread).1 h)).2.2).1

/-- A register that is read with another width. -/
theorem withoutWidth_rm_reg_immediate {emit : c.Register → c'.Register → i.Value → Option Code}
    (hemit : ∀ rm reg v code, emit rm reg v = some code →
      followed (regReg before (.extended .W) inss reg rm) (i.bytes v) = some code)
    (hknown : (c ≠ .r8 ∧ c' ≠ .r8 ∧ d ≠ c) ∧ HasFields before inss true ⟨op, none, [.rm c, .reg c', i.slot]⟩ ∧
      HasFields before inss false ⟨op', none, [.rm d, .reg d', i.slot]⟩) :
    (withoutWidth op [.register c, .register c', .immediate i] emit).Sound := by
  rintro ⟨rm, reg, v, ⟨⟩⟩ code h
  obtain ⟨⟨hc, hc', hd⟩, hwide, hnarrow⟩ := hknown
  obtain ⟨code, hcode, rfl⟩ := followed_eq_some (hemit rm reg v code h)
  have hwidth := heardRex_extended_w (8 ≤ number reg) (8 ≤ number rm)
  simp only [withoutWidth, operandsOf, named_register, named_immediate, named_nil, extended_register, extended_immediate,
    extended_nil, and_true, or_false]
  by_cases hextended : 8 ≤ number rm ∨ 8 ≤ number reg
  · have htrue : (decide (8 ≤ number reg) || decide (8 ≤ number rm)) = true := by simpa using hextended.symm
    rw [htrue] at hwidth
    have hread := rm_reg_readAs_iff hcode (readSlots_immediate i v) (hwidth ▸ hwide) (by simp)
    rw [heard_iff_of_ne hc, heard_iff_of_ne hc'] at hread
    exact hread.trans (and_iff_left hextended).symm
  · have hfalse : (decide (8 ≤ number reg) || decide (8 ≤ number rm)) = false := by simpa [and_comm] using hextended
    rw [hfalse] at hwidth
    obtain ⟨r, b, -, -, hdecode⟩ := regReg_decode hcode (hwidth ▸ hnarrow)
    generalize heardRex (.extended .W) (8 ≤ number reg) (8 ≤ number rm) = rex at hdecode
    have hread : ∀ rest, decode (code ++ i.bytes v ++ rest) = some (⟨op', none, [registerOperand d (d.read (rex.map secondField) b),
        registerOperand d' (d'.read rex r), i.operand v]⟩, rest) := by
      intro rest
      simp only [List.append_assoc, hdecode, Shape.read, readSlots, read_reg, read_rm, Immediate.read_bytes, Option.bind_some,
        Option.map_some]
    refine iff_of_false (fun h => hd ?_) fun h => hextended h.2
    exact eq_of_registerOperand_eq (List.cons.inj (Instruction.mk.inj ((readAs_one_iff hread).1 h)).2.2).1

end

/-! ### Bytes and shifts -/

/-- The move of an immediate to a byte writes the REX prefix where it is needed. -/
theorem movR8U8_eq (dst : R8) (imm : UInt8) : movR8U8 dst imm =
    followed (regOpcode [] (if 4 ≤ number dst then .always .NONE else .extended .NONE) [] 0xb0 dst) [imm] := by
  cases dst <;> rfl

/-- The immediate of a byte. -/
theorem movR8U8_sound : (plain .mov [.r8, .u8] movR8U8).Sound := by
  have hregister : ∀ w ∈ [false], HasRegister [] [] 0xb0 w ⟨.mov, none, [.rm .r8, .imm8]⟩ := by decide
  rintro ⟨dst, imm, ⟨⟩⟩ code h
  have hwritten := (movR8U8_eq dst imm).symm.trans h
  obtain ⟨code, hcode, rfl⟩ := followed_eq_some hwritten
  have hread : ReadAs (code ++ [imm]) [⟨.mov, none, [registerOperand .r8 dst, Immediate.u8.operand imm]⟩] ↔ number dst < 16 := by
    by_cases hlow : 4 ≤ number dst
    · rw [if_pos hlow] at hcode
      refine (opcode_readAs_iff (c := .r8) hcode (readSlots_immediate .u8 imm) hregister (by simp)).trans (and_iff_left ?_)
      rintro ⟨-, hnone, -⟩
      cases hnone
    · rw [if_neg hlow] at hcode
      refine (opcode_readAs_iff (c := .r8) hcode (readSlots_immediate .u8 imm) hregister (by simp)).trans (and_iff_left ?_)
      exact fun h => hlow h.2.2
  simpa [plain] using hread

/-- A scratch register is named and extended. -/
theorem registerOperand_isScratch {c : RegisterClass} {reg : c.Register} (h : isScratch reg = true) :
    Named [registerOperand c reg] ∧ Extended [registerOperand c reg] := by
  obtain ⟨hextended, hnamed⟩ := scratch_bounds h
  simpa using ⟨hnamed, hextended⟩

/-- A push, as a form. -/
theorem push64_eq (src : R64) : push64 src = regOpcode [] (.always .NONE) [] 0x50 src := by
  cases src <;> rfl

/-- A pop, as a form. -/
theorem pop64_eq (dst : R64) : pop64 dst = regOpcode [] (.always .NONE) [] 0x58 dst := by
  cases dst <;> rfl

/-- Pushes are exact. -/
theorem push64_sound : (plain .push [.r64] push64).Sound :=
  plain_opcode (c := .r64) (fun rm _ h => (push64_eq rm).symm.trans h) (by decide)

/-- Pops are exact. -/
theorem pop64_sound : (plain .pop [.r64] pop64).Sound :=
  plain_opcode (c := .r64) (fun rm _ h => (pop64_eq rm).symm.trans h) (by decide)

/-- Moves of a byte are exact. -/
theorem movR8R8_sound : (plain .mov [.r8, .r8] movR8R8).Sound :=
  plain_reg_rm (c := .r8) (fun _ _ _ h => h) (by decide)

/-- A shift through `cl` is four instructions. -/
theorem shift_sound {op : Op} {c : RegisterClass} {emit : c.Register → R8 → Option Code} {shiftCl : c.Register → Option Code}
    (hemit : ∀ lhs rhs code, emit lhs rhs = some code →
      (isScratch lhs && isScratch rhs) = true ∧ throughCl (shiftCl lhs) rhs = some code)
    (hcl : ∀ lhs code, isScratch lhs = true → shiftCl lhs = some code →
      ReadAs code [⟨op, none, [registerOperand c lhs, .r8 .cl]⟩]) : (shift op c emit).Sound := by
  rintro ⟨lhs, rhs, ⟨⟩⟩ code h
  obtain ⟨hscratch, hwritten⟩ := hemit lhs rhs code h
  rw [Bool.and_eq_true] at hscratch
  obtain ⟨saved, hsaved, count, hcount, shifted, hshifted, restored, hrestored, hcode⟩ :
      ∃ saved, push64 .rcx = some saved ∧ ∃ count, movR8R8 .cl rhs = some count ∧ ∃ shifted, shiftCl lhs = some shifted ∧
        ∃ restored, pop64 .rcx = some restored ∧ some (saved ++ count ++ shifted ++ restored) = some code := by
    simpa only [throughCl, Option.bind_eq_bind, Option.bind_eq_some_iff] using hwritten
  obtain rfl := Option.some.inj hcode
  have hrcx : Named [registerOperand .r64 .rcx] := by
    rw [named_register]
    exact ⟨by decide, named_nil⟩
  have hbytes : Named [registerOperand .r8 .cl, registerOperand .r8 rhs] := by
    rw [named_register]
    exact ⟨by decide, (registerOperand_isScratch (c := .r8) hscratch.2).1⟩
  have hpush := (push64_sound ⟨.rcx, ⟨⟩⟩ saved hsaved).2 hrcx
  have hmov := (movR8R8_sound ⟨.cl, rhs, ⟨⟩⟩ count hcount).2 hbytes
  have hshift := hcl lhs shifted hscratch.1 hshifted
  have hpop := (pop64_sound ⟨.rcx, ⟨⟩⟩ restored hrestored).2 hrcx
  exact iff_of_true (((hpush.append hmov).append hshift).append hpop) trivial

/-- The registers that the shifts insist on are read as they are meant, with the REX prefix that they need. -/
theorem Form.Sound.shiftCl {op : Op} {c : RegisterClass} {emit : c.Register → Option Code}
    (h : (plain op [.register c] emit [.r8 .cl]).Sound ∨ (withoutRex op [.register c] emit [.r8 .cl]).Sound)
    (lhs : c.Register) (code : Code) (hlhs : isScratch lhs = true) (hcode : emit lhs = some code) :
    ReadAs code [⟨op, none, [registerOperand c lhs, .r8 .cl]⟩] := by
  obtain ⟨hnamed, hextended⟩ := registerOperand_isScratch hlhs
  rcases h with h | h
  · exact (h ⟨lhs, ⟨⟩⟩ code hcode).2 hnamed
  · exact (h ⟨lhs, ⟨⟩⟩ code hcode).2 ⟨hnamed, .inl hextended⟩

/-! ## The forms -/

/-- Two integer registers, the destination in the first field. -/
def firstFieldIntegers : List Form :=
  [plain .mov [.r8, .r8] movR8R8, plain .mov [.r16, .r16] movR16R16, plain .mov [.r32, .r32] movR32R32,
    plain .mov [.r64, .r64] movR64R64, plain .movsx [.r64, .r32] movsxR64R32, plain .imul [.r16, .r16] imulR16R16,
    plain .imul [.r32, .r32] imulR32R32, plain .imul [.r64, .r64] imulR64R64, plain .bsf [.r32, .r32] bsfR32R32,
    plain .bsr [.r32, .r32] bsr, plain .tzcnt [.r32, .r32] tzcnt]

theorem firstFieldIntegers_sound : ∀ form ∈ firstFieldIntegers, form.Sound := by
  repeat refine List.forall_mem_cons.2 ⟨plain_reg_rm (fun _ _ _ h => h) (by decide), ?_⟩
  exact List.forall_mem_nil _

/-- Two registers of which one is an MMX register, the destination in the first field. -/
def firstFieldMmx : List Form :=
  [plain .movd [.mmx, .r32] movdMMXR32, plain .pmovmskb [.r32, .mmx] pmovmskbR32MMX, plain .pand [.mmx, .mmx] pandMMXMMX,
    plain .por [.mmx, .mmx] porMMXMMX, plain .pxor [.mmx, .mmx] pxorMMXMMX, plain .paddb [.mmx, .mmx] paddbMMXMMX,
    plain .paddw [.mmx, .mmx] paddwMMXMMX, plain .paddd [.mmx, .mmx] padddMMXMMX, plain .paddq [.mmx, .mmx] paddqMMXMMX,
    plain .paddsb [.mmx, .mmx] paddsbMMXMMX, plain .paddsw [.mmx, .mmx] paddswMMXMMX, plain .paddusb [.mmx, .mmx] paddusbMMXMMX,
    plain .paddusw [.mmx, .mmx] padduswMMXMMX, plain .psubb [.mmx, .mmx] psubbMMXMMX, plain .psubw [.mmx, .mmx] psubwMMXMMX,
    plain .psubd [.mmx, .mmx] psubdMMXMMX, plain .psubsb [.mmx, .mmx] psubsbMMXMMX, plain .psubsw [.mmx, .mmx] psubswMMXMMX,
    plain .psubusb [.mmx, .mmx] psubusbMMXMMX, plain .psubusw [.mmx, .mmx] psubuswMMXMMX,
    plain .pmaddwd [.mmx, .mmx] pmaddwdMMXMMX, plain .psadbw [.mmx, .mmx] psadbw, plain .pmulhw [.mmx, .mmx] pmulhwMMXMMX,
    plain .pmullw [.mmx, .mmx] pmullwMMXMMX, plain .pavgb [.mmx, .mmx] pavgbMMXMMX, plain .pavgw [.mmx, .mmx] pavgwMMXMMX,
    plain .pmaxub [.mmx, .mmx] pmaxubMMXMMX, plain .pminub [.mmx, .mmx] pminubMMXMMX, plain .pcmpeqb [.mmx, .mmx] pcmpeqbMMXMMX,
    plain .pcmpeqw [.mmx, .mmx] pcmpeqwMMXMMX, plain .pcmpeqd [.mmx, .mmx] pcmpeqdMMXMMX, plain .psraw [.mmx, .mmx] psrawMMXMMX,
    plain .pshufb [.mmx, .mmx] pshufbMMXMMX, plain .punpcklbw [.mmx, .mmx] punpcklbwMMXMMX,
    plain .punpcklwd [.mmx, .mmx] punpcklwdMMXMMX, plain .punpckldq [.mmx, .mmx] punpckldqMMXMMX,
    plain .punpckhbw [.mmx, .mmx] punpckhbwMMXMMX, plain .punpckhwd [.mmx, .mmx] punpckhwdMMXMMX,
    plain .punpckhdq [.mmx, .mmx] punpckhdqMMXMMX, plain .packsswb [.mmx, .mmx] packsswbMMXMMX,
    plain .packssdw [.mmx, .mmx] packssdwMMXMMX, plain .packuswb [.mmx, .mmx] packuswbMMXMMX]

theorem firstFieldMmx_sound : ∀ form ∈ firstFieldMmx, form.Sound := by
  repeat refine List.forall_mem_cons.2 ⟨plain_reg_rm (fun _ _ _ h => h) (by decide), ?_⟩
  exact List.forall_mem_nil _

/-- Two registers of which one is an XMM register, the destination in the first field. -/
def firstFieldXmm : List Form :=
  [plain .mov [.xmm, .xmm] movXMMXMM, plain .movd [.xmm, .r32] movdXMMR32, plain .movss [.xmm, .xmm] movssXMMXMM,
    plain .movq [.xmm, .r64] movqXMMR64, plain .movhlps [.xmm, .xmm] movhlps, plain .movlhps [.xmm, .xmm] movlhps,
    plain .pmovmskb [.r32, .xmm] pmovmskbR32XMM, plain .movq2dq [.xmm, .mmx] movq2dq, plain .pand [.xmm, .xmm] pandXMMXMM,
    plain .pandn [.xmm, .xmm] pandn, plain .por [.xmm, .xmm] porXMMXMM, plain .pxor [.xmm, .xmm] pxorXMMXMM,
    plain .paddb [.xmm, .xmm] paddbXMMXMM, plain .paddw [.xmm, .xmm] paddwXMMXMM, plain .paddd [.xmm, .xmm] padddXMMXMM,
    plain .paddq [.xmm, .xmm] paddqXMMXMM, plain .paddsb [.xmm, .xmm] paddsbXMMXMM, plain .paddsw [.xmm, .xmm] paddswXMMXMM,
    plain .paddusb [.xmm, .xmm] paddusbXMMXMM, plain .paddusw [.xmm, .xmm] padduswXMMXMM, plain .psubb [.xmm, .xmm] psubbXMMXMM,
    plain .psubw [.xmm, .xmm] psubwXMMXMM, plain .psubd [.xmm, .xmm] psubdXMMXMM, plain .psubsb [.xmm, .xmm] psubsbXMMXMM,
    plain .psubsw [.xmm, .xmm] psubswXMMXMM, plain .psubusb [.xmm, .xmm] psubusbXMMXMM,
    plain .psubusw [.xmm, .xmm] psubuswXMMXMM, plain .pmaddwd [.xmm, .xmm] pmaddwdXMMXMM,
    plain .pmulhw [.xmm, .xmm] pmulhwXMMXMM, plain .pmullw [.xmm, .xmm] pmullwXMMXMM, plain .pmulhuw [.xmm, .xmm] pmulhuw,
    plain .pmuludq [.xmm, .xmm] pmuludq, plain .pavgb [.xmm, .xmm] pavgbXMMXMM, plain .pavgw [.xmm, .xmm] pavgwXMMXMM,
    plain .pmaxub [.xmm, .xmm] pmaxubXMMXMM, plain .pminub [.xmm, .xmm] pminubXMMXMM, plain .ptest [.xmm, .xmm] ptest,
    plain .pcmpeqb [.xmm, .xmm] pcmpeqbXMMXMM, plain .pcmpeqw [.xmm, .xmm] pcmpeqwXMMXMM,
    plain .pcmpeqd [.xmm, .xmm] pcmpeqdXMMXMM, plain .pcmpgtb [.xmm, .xmm] pcmpgtb, plain .pcmpgtw [.xmm, .xmm] pcmpgtw,
    plain .pcmpgtd [.xmm, .xmm] pcmpgtd, plain .psllw [.xmm, .xmm] psllwXMMXMM, plain .pslld [.xmm, .xmm] pslldXMMXMM,
    plain .psllq [.xmm, .xmm] psllqXMMXMM, plain .psrlw [.xmm, .xmm] psrlwXMMXMM, plain .psrld [.xmm, .xmm] psrldXMMXMM,
    plain .psrlq [.xmm, .xmm] psrlqXMMXMM, plain .psraw [.xmm, .xmm] psrawXMMXMM, plain .psrad [.xmm, .xmm] psradXMMXMM,
    plain .pshufb [.xmm, .xmm] pshufbXMMXMM, plain .punpcklbw [.xmm, .xmm] punpcklbwXMMXMM,
    plain .punpcklwd [.xmm, .xmm] punpcklwdXMMXMM, plain .punpckldq [.xmm, .xmm] punpckldqXMMXMM,
    plain .punpcklqdq [.xmm, .xmm] punpcklqdq, plain .punpckhbw [.xmm, .xmm] punpckhbwXMMXMM,
    plain .punpckhwd [.xmm, .xmm] punpckhwdXMMXMM, plain .punpckhdq [.xmm, .xmm] punpckhdqXMMXMM,
    plain .punpckhqdq [.xmm, .xmm] punpckhqdq, plain .packsswb [.xmm, .xmm] packsswbXMMXMM,
    plain .packssdw [.xmm, .xmm] packssdwXMMXMM, plain .packuswb [.xmm, .xmm] packuswbXMMXMM,
    plain .packusdw [.xmm, .xmm] packusdw]

theorem firstFieldXmm_sound : ∀ form ∈ firstFieldXmm, form.Sound := by
  repeat refine List.forall_mem_cons.2 ⟨plain_reg_rm (fun _ _ _ h => h) (by decide), ?_⟩
  exact List.forall_mem_nil _

/-- Operations on floating point numbers. -/
def firstFieldFloats : List Form :=
  [plain .addss [.xmm, .xmm] addss, plain .subss [.xmm, .xmm] subss, plain .mulss [.xmm, .xmm] mulss,
    plain .divss [.xmm, .xmm] divss, plain .comiss [.xmm, .xmm] comiss, plain .cvtss2sd [.xmm, .xmm] cvtss2sd,
    plain .cvtsi2ss [.xmm, .r32] cvtsi2ssXMMR32, plain .cvtsi2ss [.xmm, .r64] cvtsi2ssXMMR64, plain .addsd [.xmm, .xmm] addsd,
    plain .subsd [.xmm, .xmm] subsd, plain .mulsd [.xmm, .xmm] mulsd, plain .divsd [.xmm, .xmm] divsd,
    plain .comisd [.xmm, .xmm] comisd, plain .ucomisd [.xmm, .xmm] ucomisd, plain .maxsd [.xmm, .xmm] maxsd,
    plain .minsd [.xmm, .xmm] minsd, plain .sqrtsd [.xmm, .xmm] sqrtsd, plain .cvtsd2ss [.xmm, .xmm] cvtsd2ss,
    plain .cvtsi2sd32 [.xmm, .r32] cvtsi2sd32, plain .cvtsi2sd64 [.xmm, .r64] cvtsi2sd64,
    plain .cvttsd2si32 [.r32, .xmm] cvttsd2si32, plain .cvttsd2si64 [.r64, .xmm] cvttsd2si64, plain .addps [.xmm, .xmm] addps,
    plain .subps [.xmm, .xmm] subps, plain .mulps [.xmm, .xmm] mulps, plain .divps [.xmm, .xmm] divps,
    plain .maxps [.xmm, .xmm] maxps, plain .minps [.xmm, .xmm] minps, plain .maxpd [.xmm, .xmm] maxpd,
    plain .minpd [.xmm, .xmm] minpd, plain .cvtps2dq [.xmm, .xmm] cvtps2dq, plain .cvttps2dq [.xmm, .xmm] cvttps2dq,
    plain .cvttpd2dq [.xmm, .xmm] cvttpd2dq, plain .cvtdq2ps [.xmm, .xmm] cvtdq2ps, plain .addpd [.xmm, .xmm] addpd,
    plain .subpd [.xmm, .xmm] subpd, plain .mulpd [.xmm, .xmm] mulpd, plain .divpd [.xmm, .xmm] divpd,
    plain .andpd [.xmm, .xmm] andpd, plain .andnpd [.xmm, .xmm] andnpd, plain .orpd [.xmm, .xmm] orpd,
    plain .xorpd [.xmm, .xmm] xorpd, plain .unpckhps [.xmm, .xmm] unpckhps, plain .unpckhpd [.xmm, .xmm] unpckhpd,
    plain .unpcklps [.xmm, .xmm] unpcklps, plain .unpcklpd [.xmm, .xmm] unpcklpd, plain .movddup [.xmm, .xmm] movddup]

theorem firstFieldFloats_sound : ∀ form ∈ firstFieldFloats, form.Sound := by
  repeat refine List.forall_mem_cons.2 ⟨plain_reg_rm (fun _ _ _ h => h) (by decide), ?_⟩
  exact List.forall_mem_nil _

/-- Operations of the later extensions. -/
def firstFieldLater : List Form :=
  [plain .phaddw [.mmx, .mmx] phaddwMMXMMX, plain .phaddd [.mmx, .mmx] phadddMMXMMX,
    plain .pmaddusbw [.mmx, .mmx] pmaddusbwMMXMMX, plain .pmulhrsw [.mmx, .mmx] pmulhrswMMXMMX,
    plain .phaddw [.xmm, .xmm] phaddwXMMXMM, plain .phaddd [.xmm, .xmm] phadddXMMXMM,
    plain .pmaddusbw [.xmm, .xmm] pmaddusbwXMMXMM, plain .pmulhrsw [.xmm, .xmm] pmulhrswXMMXMM,
    plain .pmaxsd [.xmm, .xmm] pmaxsd, plain .pminsd [.xmm, .xmm] pminsd, plain .pmovzxbw [.xmm, .xmm] pmovzxbw,
    plain .pmulld [.xmm, .xmm] pmulld, plain .blendvps [.xmm, .xmm] blendvps, plain .pblendvb [.xmm, .xmm] pblendvb]

theorem firstFieldLater_sound : ∀ form ∈ firstFieldLater, form.Sound := by
  repeat refine List.forall_mem_cons.2 ⟨plain_reg_rm (fun _ _ _ h => h) (by decide), ?_⟩
  exact List.forall_mem_nil _

/-- Two registers and an immediate. -/
def firstFieldImmediates : List Form :=
  [plain .imul [.r16, .r16, .u16] imulR16R16U16, plain .imul [.r32, .r32, .u32] imulR32R32U32,
    plain .imul [.r64, .r64, .u32] imulR64R64U32, plain .pshufw [.mmx, .mmx, .u8] pshufw,
    plain .pshufd [.xmm, .xmm, .u8] pshufd, plain .pshuflw [.xmm, .xmm, .u8] pshuflw, plain .pshufhw [.xmm, .xmm, .u8] pshufhw,
    plain .pinsrw [.xmm, .r32, .u8] pinsrw, plain .pextrw [.r32, .xmm, .u8] pextrw, plain .cmpsd [.xmm, .xmm, .u8] cmpsd,
    plain .cmpps [.xmm, .xmm, .u8] cmpps, plain .shufps [.xmm, .xmm, .u8] shufps, plain .shufpd [.xmm, .xmm, .u8] shufpd,
    plain .palignr [.mmx, .mmx, .u8] palignrMMXMMXU8, plain .palignr [.xmm, .xmm, .u8] palignrXMMXMMU8,
    plain .roundps [.xmm, .xmm, .u8] roundps, plain .roundpd [.xmm, .xmm, .u8] roundpd, plain .pinsrd [.xmm, .r32, .u8] pinsrd]

theorem firstFieldImmediates_sound : ∀ form ∈ firstFieldImmediates, form.Sound := by
  repeat refine List.forall_mem_cons.2 ⟨plain_reg_rm_immediate (fun _ _ _ _ h => h) (by decide), ?_⟩
  exact List.forall_mem_nil _

/-- Two registers, the destination in the second field. -/
def secondFieldForms : List Form :=
  [plain .add [.r16, .r16] addR16R16, plain .add [.r32, .r32] addR32R32, plain .add [.r64, .r64] addR64R64,
    plain .adc [.r32, .r32] adcR32R32, plain .sub [.r16, .r16] subR16R16, plain .sub [.r32, .r32] subR32R32,
    plain .sub [.r64, .r64] subR64R64, plain .sbb [.r8, .r8] sbbR8R8, plain .sbb [.r32, .r32] sbbR32R32,
    plain .sbb [.r64, .r64] sbbR64R64, plain .cmp [.r8, .r8] cmpR8R8, plain .cmp [.r16, .r16] cmpR16R16,
    plain .cmp [.r32, .r32] cmpR32R32, plain .cmp [.r64, .r64] cmpR64R64, plain .test [.r16, .r16] testR16R16,
    plain .test [.r32, .r32] testR32R32, plain .test [.r64, .r64] testR64R64, plain .and [.r16, .r16] andR16R16,
    plain .and [.r32, .r32] andR32R32, plain .and [.r64, .r64] andR64R64, plain .or [.r16, .r16] orR16R16,
    plain .or [.r32, .r32] orR32R32, plain .or [.r64, .r64] orR64R64, plain .xor [.r16, .r16] xorR16R16,
    plain .xor [.r32, .r32] xorR32R32, plain .xor [.r64, .r64] xorR64R64, plain .xchg [.r16, .r16] xchgR16R16,
    plain .xchg [.r32, .r32] xchgR32R32, plain .xchg [.r64, .r64] xchgR64R64, plain .cmpxchg [.r32, .r32] cmpxchgR32R32,
    plain .cmpxchg [.r64, .r64] cmpxchgR64R64, plain .bt [.r32, .r32] btR32R32, plain .bt [.r64, .r64] btR64R64,
    plain .btr [.r64, .r64] btrR64R64, plain .bts [.r64, .r64] btsR64R64, plain .movd [.r32, .mmx] movdR32MMX,
    plain .movd [.r32, .xmm] movdR32XMM, plain .movq [.r64, .xmm] movqR64XMM]

theorem secondFieldForms_sound : ∀ form ∈ secondFieldForms, form.Sound := by
  repeat refine List.forall_mem_cons.2 ⟨plain_rm_reg (fun _ _ _ h => h) (by decide), ?_⟩
  exact List.forall_mem_nil _

def secondFieldImmediates : List Form :=
  [plain .pextrd [.r32, .xmm, .u8] pextrd]

theorem secondFieldImmediates_sound : ∀ form ∈ secondFieldImmediates, form.Sound := by
  repeat refine List.forall_mem_cons.2 ⟨plain_rm_reg_immediate (fun _ _ _ _ h => h) (by decide), ?_⟩
  exact List.forall_mem_nil _

/-- Two registers of a byte. -/
def secondFieldBytes : List Form :=
  [withoutRex .add [.r8, .r8] addR8R8, withoutRex .sub [.r8, .r8] subR8R8, withoutRex .test [.r8, .r8] testR8R8,
    withoutRex .and [.r8, .r8] andR8R8, withoutRex .or [.r8, .r8] orR8R8, withoutRex .xchg [.r8, .r8] xchgR8R8]

theorem secondFieldBytes_sound : ∀ form ∈ secondFieldBytes, form.Sound := by
  repeat refine List.forall_mem_cons.2 ⟨withoutRex_rm_reg (fun _ _ _ h => h) (by decide), ?_⟩
  exact List.forall_mem_nil _

/-- One register. -/
def oneRegister : List Form :=
  [plain .mul [.r32] mulR32, plain .mul [.r64] mulR64, plain .imul [.r32] imulR32, plain .imul [.r64] imulR64,
    plain .div [.r32] divR32, plain .div [.r64] divR64, plain .idiv [.r32] idivR32, plain .idiv [.r64] idivR64,
    plain .not [.r32] notR32, plain .not [.r64] notR64, plain .neg [.r16] negR16, plain .neg [.r32] negR32,
    plain .neg [.r64] negR64, plain .inc [.r32] incR32, plain .inc [.r64] incR64, plain .dec [.r16] decR16,
    plain .dec [.r32] decR32, plain .dec [.r64] decR64]

theorem oneRegister_sound : ∀ form ∈ oneRegister, form.Sound := by
  repeat refine List.forall_mem_cons.2 ⟨plain_digit readSlots_nil (fun _ _ h => h) (by decide), ?_⟩
  exact List.forall_mem_nil _

/-- A shift by `cl`. -/
def shiftsByCl : List Form :=
  [plain .shl [.r32] shl_clR32 [.r8 .cl], plain .shl [.r64] shl_clR64 [.r8 .cl], plain .shr [.r16] shr_clR16 [.r8 .cl],
    plain .shr [.r32] shr_clR32 [.r8 .cl], plain .shr [.r64] shr_clR64 [.r8 .cl], plain .sar [.r16] sar_clR16 [.r8 .cl],
    plain .sar [.r32] sar_clR32 [.r8 .cl], plain .sar [.r64] sar_clR64 [.r8 .cl], plain .rol [.r16] rol_clR16 [.r8 .cl],
    plain .rol [.r32] rol_clR32 [.r8 .cl], plain .ror [.r32] ror_clR32 [.r8 .cl], plain .rol [.r64] rol_clR64 [.r8 .cl],
    plain .ror [.r64] ror_clR64 [.r8 .cl]]

theorem shiftsByCl_sound : ∀ form ∈ shiftsByCl, form.Sound := by
  repeat refine List.forall_mem_cons.2 ⟨plain_digit readSlots_cl (fun _ _ h => h) (by decide), ?_⟩
  exact List.forall_mem_nil _

/-- One register and an immediate. -/
def oneRegisterImmediates : List Form :=
  [plain .sbb [.r8, .i8] sbbR8I8, plain .cmp [.r8, .i8] cmpR8I8, plain .shl [.r32, .u8] shlR32U8,
    plain .shl [.r64, .u8] shlR64U8, plain .shr [.r16, .u8] shrR16U8, plain .shr [.r32, .u8] shrR32U8,
    plain .shr [.r64, .u8] shrR64U8, plain .sar [.r16, .u8] sarR16U8, plain .sar [.r32, .u8] sarR32U8,
    plain .sar [.r64, .u8] sarR64U8, plain .rol [.r16, .u8] rolR16U8, plain .rol [.r32, .u8] rolR32U8,
    plain .ror [.r32, .u8] rorR32U8, plain .rol [.r64, .u8] rolR64U8, plain .ror [.r64, .u8] rorR64U8,
    plain .test [.r64, .u32] testR64U32, plain .and [.r16, .i16] andR16I16, plain .and [.r32, .i32] andR32I32,
    plain .and [.r64, .i32] andR64I32, plain .or [.r16, .i16] orR16I16, plain .or [.r32, .i32] orR32I32,
    plain .or [.r64, .i32] orR64I32, plain .xor [.r16, .i16] xorR16I16, plain .xor [.r32, .i32] xorR32I32,
    plain .xor [.r64, .i32] xorR64I32, plain .btr [.r64, .u8] btrR64U8, plain .bts [.r64, .u8] btsR64U8,
    plain .psllw [.mmx, .u8] psllwMMXU8, plain .pslld [.mmx, .u8] pslldMMXU8, plain .psllq [.mmx, .u8] psllqMMXU8,
    plain .psrlw [.mmx, .u8] psrlwMMXU8, plain .psrld [.mmx, .u8] psrldMMXU8, plain .psrlq [.mmx, .u8] psrlqMMXU8,
    plain .psraw [.mmx, .u8] psrawMMXU8, plain .psrad [.mmx, .u8] psradMMXU8, plain .psllw [.xmm, .u8] psllwXMMU8,
    plain .pslld [.xmm, .u8] pslldXMMU8, plain .psllq [.xmm, .u8] psllqXMMU8, plain .pslldq [.xmm, .u8] pslldq,
    plain .psrlw [.xmm, .u8] psrlwXMMU8, plain .psrld [.xmm, .u8] psrldXMMU8, plain .psrlq [.xmm, .u8] psrlqXMMU8,
    plain .psrldq [.xmm, .u8] psrldq, plain .psraw [.xmm, .u8] psrawXMMU8, plain .psrad [.xmm, .u8] psradXMMU8]

theorem oneRegisterImmediates_sound : ∀ form ∈ oneRegisterImmediates, form.Sound := by
  repeat refine List.forall_mem_cons.2 ⟨plain_digit_immediate (fun _ _ _ h => h) (by decide), ?_⟩
  exact List.forall_mem_nil _

/-- One register and an immediate of 16 bits, which may be written as one byte. -/
def words16 : List Form :=
  [plain .add [.r16, .i16] addR16I16, plain .sub [.r16, .i16] subR16I16, plain .cmp [.r16, .i16] cmpR16I16]

theorem words16_sound : ∀ form ∈ words16, form.Sound := by
  repeat refine List.forall_mem_cons.2 ⟨plain_imm16 (fun _ _ _ h => h) (by decide), ?_⟩
  exact List.forall_mem_nil _

def words32 : List Form :=
  [plain .add [.r32, .i32] addR32I32, plain .add [.r64, .i32] addR64I32, plain .adc [.r32, .i32] adcR32I32,
    plain .sub [.r32, .i32] subR32I32, plain .sub [.r64, .i32] subR64I32, plain .sbb [.r32, .i32] sbbR32I32,
    plain .sbb [.r64, .i32] sbbR64I32, plain .cmp [.r32, .i32] cmpR32I32, plain .cmp [.r64, .i32] cmpR64I32]

theorem words32_sound : ∀ form ∈ words32, form.Sound := by
  repeat refine List.forall_mem_cons.2 ⟨plain_imm32 (fun _ _ _ h => h) (by decide), ?_⟩
  exact List.forall_mem_nil _

/-- One register of a byte and an immediate. -/
def oneByteImmediates : List Form :=
  [withoutRex .add [.r8, .i8] addR8I8, withoutRex .sub [.r8, .i8] subR8I8, withoutRex .shr [.r8, .u8] shrR8U8,
    withoutRex .and [.r8, .i8] andR8I8, withoutRex .or [.r8, .i8] orR8I8]

theorem oneByteImmediates_sound : ∀ form ∈ oneByteImmediates, form.Sound := by
  repeat refine List.forall_mem_cons.2 ⟨withoutRex_digit_immediate (fun _ _ _ h => h) (by decide), ?_⟩
  exact List.forall_mem_nil _

def oneByte : List Form :=
  [withoutRex .neg [.r8] negR8, withoutRex .dec [.r8] decR8]

theorem oneByte_sound : ∀ form ∈ oneByte, form.Sound := by
  repeat refine List.forall_mem_cons.2 ⟨withoutRex_digit readSlots_nil (fun _ _ h => h) (by decide), ?_⟩
  exact List.forall_mem_nil _

/-- Forms that insist on the registers that the compiler computes with. -/
def scratchForms : List Form :=
  [withoutRex .xor [.r8, .r8] xorR8R8, withoutRex .test [.r8, .u8] testR8U8, withoutRex .xor [.r8, .i8] xorR8I8,
    plain .test [.r16, .u16] testR16U16, plain .test [.r32, .u32] testR32U32]

theorem scratchForms_sound : ∀ form ∈ scratchForms, form.Sound := by
  refine List.forall_mem_cons.2 ⟨withoutRex_rm_reg (fun _ _ _ h => guarded h) (by decide), ?_⟩
  refine List.forall_mem_cons.2 ⟨withoutRex_digit_immediate (fun _ _ _ h => guarded h) (by decide), ?_⟩
  refine List.forall_mem_cons.2 ⟨withoutRex_digit_immediate (fun _ _ _ h => guarded h) (by decide), ?_⟩
  refine List.forall_mem_cons.2 ⟨plain_digit_immediate (fun _ _ _ h => guarded h) (by decide), ?_⟩
  refine List.forall_mem_cons.2 ⟨plain_digit_immediate (fun _ _ _ h => guarded h) (by decide), ?_⟩
  exact List.forall_mem_nil _

/-- An immediate of 64 bits, as a form. -/
theorem movR64U64_eq (dst : R64) (imm : UInt64) :
    movR64U64 dst imm = followed (regOpcode [] (.always .W) [] 0xb8 dst) (Assembler.write64 imm) := by
  cases dst <;> rfl

/-- A jump, as a form. -/
theorem jumpR64_eq (dst : R64) : jumpR64 dst = regDigit [] (.extended .NONE) [0xff] 0b100 dst := by
  cases dst <;> rfl

/-- A call, as a form. -/
theorem call_eq (src : R64) : Assembler.call src = regDigit [] (.extended .NONE) [0xff] 0b010 src := by
  cases src <;> rfl

/-- The forms whose register is added to the opcode, and the jumps. -/
def otherForms : List Form :=
  [plain .mov [.r8, .u8] movR8U8, plain .mov [.r16, .u16] movR16U16, plain .mov [.r32, .u32] movR32U32,
    plain .mov [.r64, .u64] movR64U64, plain .push [.r64] push64, plain .pop [.r64] pop64, plain .bswap [.r32] bswapR32,
    plain .bswap [.r64] bswapR64, plain .jmpInd [.r64] jumpR64, plain .call [.r64] Assembler.call,
    withoutRex .shr [.r8] shr_clR8 [.r8 .cl]]

theorem otherForms_sound : ∀ form ∈ otherForms, form.Sound := by
  refine List.forall_mem_cons.2 ⟨movR8U8_sound, ?_⟩
  refine List.forall_mem_cons.2 ⟨plain_opcode_immediate (fun _ _ _ h => h) (by decide), ?_⟩
  refine List.forall_mem_cons.2 ⟨plain_opcode_immediate (fun _ _ _ h => h) (by decide), ?_⟩
  refine List.forall_mem_cons.2 ⟨plain_opcode_immediate (fun rm v _ h => (movR64U64_eq rm v).symm.trans h) (by decide), ?_⟩
  refine List.forall_mem_cons.2 ⟨push64_sound, ?_⟩
  refine List.forall_mem_cons.2 ⟨pop64_sound, ?_⟩
  refine List.forall_mem_cons.2 ⟨plain_opcode (fun _ _ h => h) (by decide), ?_⟩
  refine List.forall_mem_cons.2 ⟨plain_opcode (fun _ _ h => h) (by decide), ?_⟩
  refine List.forall_mem_cons.2 ⟨plain_digit readSlots_nil (fun rm _ h => (jumpR64_eq rm).symm.trans h) (by decide), ?_⟩
  refine List.forall_mem_cons.2 ⟨plain_digit readSlots_nil (fun rm _ h => (call_eq rm).symm.trans h) (by decide), ?_⟩
  refine List.forall_mem_cons.2 ⟨withoutRex_digit readSlots_cl (fun _ _ h => h) (by decide), ?_⟩
  exact List.forall_mem_nil _

/-- The opcodes of `set`. -/
theorem set_fields (cond : Cond) (opcode : UInt8) (h : setOpcode cond = some opcode) :
    ∀ w ∈ widths (.extended .NONE), HasFields [] [0x0f, opcode] w ⟨.set, some (oneName cond), [.rm .r8]⟩ := by
  cases cond <;> cases h <;> decide

/-- The opcodes of `cmov`. -/
theorem cmov_fields (cond : Cond) (opcode : UInt8) (h : cmovOpcode cond = some opcode) :
    (∀ w ∈ widths (.extended .NONE), HasFields [] [0x0f, opcode] w ⟨.cmov, some (oneName cond), [.reg .r32, .rm .r32]⟩) ∧
      ∀ w ∈ widths (.always .W), HasFields [] [0x0f, opcode] w ⟨.cmov, some (oneName cond), [.reg .r64, .rm .r64]⟩ := by
  cases cond <;> cases h <;> decide

/-- The forms with a condition. -/
def conditionalForms : List Form :=
  [withoutRex .set [.condition, .r8] set, plain .cmov [.condition, .r32, .r32] cmovCondR32R32,
    plain .cmov [.condition, .r64, .r64] cmovCondR64R64]

theorem conditionalForms_sound : ∀ form ∈ conditionalForms, form.Sound := by
  refine List.forall_mem_cons.2 ⟨withoutRex_condition (fun _ _ _ h => Option.bind_eq_some_iff.1 h) (by decide) set_fields, ?_⟩
  refine List.forall_mem_cons.2
    ⟨plain_condition (fun _ _ _ _ h => Option.bind_eq_some_iff.1 h) rfl fun cond opcode h => (cmov_fields cond opcode h).1, ?_⟩
  refine List.forall_mem_cons.2
    ⟨plain_condition (fun _ _ _ _ h => Option.bind_eq_some_iff.1 h) rfl fun cond opcode h => (cmov_fields cond opcode h).2, ?_⟩
  exact List.forall_mem_nil _

/-- What is written passed its check. -/
theorem guarded_and {p : Bool} {x : Option Code} {code : Code} (h : (if p then x else none) = some code) :
    p = true ∧ x = some code := by
  split at h
  · next hp => exact ⟨hp, h⟩
  · cases h

/-- The shifts by a register. -/
def shifts : List Form :=
  [shift .shl .r32 shlR32R8, shift .shl .r64 shlR64R8, shift .shr .r16 shrR16R8, shift .shr .r32 shrR32R8,
    shift .shr .r64 shrR64R8, shift .sar .r16 sarR16R8, shift .sar .r32 sarR32R8, shift .sar .r64 sarR64R8,
    shift .rol .r16 rolR16R8, shift .rol .r32 rolR32R8, shift .ror .r32 rorR32R8, shift .rol .r64 rolR64R8,
    shift .ror .r64 rorR64R8, shift .shr .r8 shrR8R8]

theorem shifts_sound : ∀ form ∈ shifts, form.Sound := by
  repeat refine List.forall_mem_cons.2 ⟨shift_sound (fun _ _ _ h => guarded_and h) (Form.Sound.shiftCl (.inl
    (plain_digit readSlots_cl (fun _ _ h => h) (by decide)))), ?_⟩
  refine List.forall_mem_cons.2 ⟨shift_sound (fun _ _ _ h => guarded_and h) (Form.Sound.shiftCl (.inr
    (withoutRex_digit readSlots_cl (fun _ _ h => h) (by decide)))), ?_⟩
  exact List.forall_mem_nil _

/-- The check is made for registers that are not MMX registers. -/
theorem guarded_scratch {c : RegisterClass} {src : c.Register} {x : Option Code} {code : Code}
    (h : (if isScratch src then x else none) = some code) : x = some code ∧ (isScratch src = true ∨ c = .mmx) :=
  ⟨(guarded_and h).2, .inl (guarded_and h).1⟩

/-- The extensions of a byte or a word exchange their registers. -/
def extensions : List Form :=
  [exchanged .movzx .r16 .r8 movzxR16R8, exchanged .movzx .r32 .r8 movzxR32R8, exchanged .movzx .r32 .r16 movzxR32R16,
    exchanged .movzx .r64 .r8 movzxR64R8, exchanged .movzx .r64 .r16 movzxR64R16, exchanged .movsx .r16 .r8 movsxR16R8,
    exchanged .movsx .r32 .r8 movsxR32R8, exchanged .movsx .r32 .r16 movsxR32R16, exchanged .movsx .r64 .r8 movsxR64R8,
    exchanged .movsx .r64 .r16 movsxR64R16]

theorem extensions_sound : ∀ form ∈ extensions, form.Sound := by
  repeat refine List.forall_mem_cons.2 ⟨exchanged_sound (fun _ _ _ h => guarded_scratch h) (by decide), ?_⟩
  exact List.forall_mem_nil _

/-- The other forms that do not write what they are for. -/
def faultyForms : List Form :=
  [exchanged .mov .mmx .mmx movMMXMMX, mistaken .psrad [.mmx, .mmx] psradMMXMMX, withoutWidth .bsf [.r64, .r64] bsfR64R64,
    withoutWidth .pextrq [.r64, .xmm, .u8] pextrq]

theorem faultyForms_sound : ∀ form ∈ faultyForms, form.Sound := by
  refine List.forall_mem_cons.2 ⟨exchanged_mmx (fun _ _ _ h => h) (by decide), ?_⟩
  refine List.forall_mem_cons.2 ⟨mistaken_sound (fun _ _ _ h => h) ⟨(by decide : Op.psraw ≠ Op.psrad), by decide⟩, ?_⟩
  have hbsf : HasFields [] [0x0f, 0xbc] false ⟨.bsf, none, [.reg .r32, .rm .r32]⟩ := by decide
  have hpextrd : HasFields [0x66] [0x0f, 0x3a, 0x16] false ⟨.pextrd, none, [.rm .r32, .reg .xmm, .imm8]⟩ := by decide
  have hclass : RegisterClass.r32 ≠ .r64 := by decide
  refine List.forall_mem_cons.2 ⟨withoutWidth_reg_rm (fun _ _ _ h => h) ⟨⟨by decide, by decide, hclass⟩, by decide, hbsf⟩, ?_⟩
  refine List.forall_mem_cons.2
    ⟨withoutWidth_rm_reg_immediate (fun _ _ _ _ h => h) ⟨⟨by decide, by decide, hclass⟩, by decide, hpextrd⟩, ?_⟩
  exact List.forall_mem_nil _

/-- The forms of the assembler whose operands are registers and immediates. -/
def forms : List Form :=
  [firstFieldIntegers, firstFieldMmx, firstFieldXmm, firstFieldFloats, firstFieldLater, firstFieldImmediates, secondFieldForms,
    secondFieldImmediates, secondFieldBytes, oneRegister, shiftsByCl, oneRegisterImmediates, words16, words32, oneByteImmediates,
    oneByte, scratchForms, otherForms, conditionalForms, shifts, extensions, faultyForms].flatten

/-- All forms. -/
theorem forms_sound : ∀ form ∈ forms, form.Sound := by
  simp only [forms, List.flatten_cons, List.flatten_nil, List.forall_mem_append]
  exact ⟨firstFieldIntegers_sound, firstFieldMmx_sound, firstFieldXmm_sound, firstFieldFloats_sound, firstFieldLater_sound,
    firstFieldImmediates_sound, secondFieldForms_sound, secondFieldImmediates_sound, secondFieldBytes_sound, oneRegister_sound,
    shiftsByCl_sound, oneRegisterImmediates_sound, words16_sound, words32_sound, oneByteImmediates_sound, oneByte_sound,
    scratchForms_sound, otherForms_sound, conditionalForms_sound, shifts_sound, extensions_sound, faultyForms_sound,
    List.forall_mem_nil _⟩

/-- What a register form writes is read as the instruction it is for exactly where the condition of the form holds. -/
theorem readAs_means_iff (form : Form) (hform : form ∈ forms) (args : Args form.kinds) (code : Code)
    (hcode : call form.kinds form.emit args = some code) : ReadAs code (form.means args) ↔ form.exact args :=
  forms_sound form hform args code hcode

/-- The sum of two registers of 64 bits. -/
theorem readAs_addR64R64 : ReadAs [0x4c, 0x01, 0xc8] [⟨.add, none, [.r64 .rax, .r64 .r9]⟩] :=
  (readAs_means_iff (plain .add [.r64, .r64] addR64R64) (by simp [forms, secondFieldForms]) ⟨.rax, .r9, ⟨⟩⟩ [0x4c, 0x01, 0xc8]
    (by decide)).2 (by simp only [plain, operandsOf, named_register, named_nil]; decide)

end RegisterCode

end X64Emulator
