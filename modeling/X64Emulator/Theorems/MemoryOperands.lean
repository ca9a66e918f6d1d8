import X64Emulator.MachineCode

/-!
# Memory operands

What the assembler encodes is what the host reads, where the registers are ones that an encoding can name. The REX prefix that
is left out when no bit of it is set is missed by four of the registers of a byte, and the move of an immediate has no SIB byte
for the bases that need one.
-/

namespace X64Emulator

namespace MachineCode

open Ir Assembler

open HostRegister (number encodeRegister)

/-! ## Bytes -/

/-- The fields of a byte that was put together from them. -/
theorem modrm_fields {mode r rm : UInt8} (hmode : mode < 4) (hr : r < 8) (hrm : rm < 8) :
    modrm (mode <<< 6) r rm >>> 6 = mode ∧ (modrm (mode <<< 6) r rm >>> 3) &&& 7 = r ∧ modrm (mode <<< 6) r rm &&& 7 = rm := by
  have hall : ∀ m : Fin 4, ∀ r b : Fin 8,
      modrm (UInt8.ofNat m <<< 6) (UInt8.ofNat r) (UInt8.ofNat b) >>> 6 = UInt8.ofNat m ∧
      (modrm (UInt8.ofNat m <<< 6) (UInt8.ofNat r) (UInt8.ofNat b) >>> 3) &&& 7 = UInt8.ofNat r ∧
      modrm (UInt8.ofNat m <<< 6) (UInt8.ofNat r) (UInt8.ofNat b) &&& 7 = UInt8.ofNat b := by decide
  have h := hall ⟨mode.toNat, hmode⟩ ⟨r.toNat, hr⟩ ⟨rm.toNat, hrm⟩
  simpa only [UInt8.ofNat_toNat] using h

theorem and_seven_lt (x : UInt8) : x &&& 7 < 8 := by
  exact UInt8.lt_of_le_of_lt UInt8.and_le_right (by decide)

/-! ## Displacements -/

theorem takeDisplacement_byte {d : Int32} (h : isByte d = true) (rest : Code) :
    takeDisplacement 1 (d.toInt8.toUInt8 :: rest) = some (d, rest) := by
  have hback : d.toInt8.toUInt8.toInt8.toInt32 = d := of_decide_eq_true h
  rw [takeDisplacement, if_neg (by decide), if_pos rfl, take8, Option.map_some]
  exact congrArg (fun d => some (d, rest)) hback

theorem takeDisplacement_word (d : Int32) (rest : Code) :
    takeDisplacement 2 (Assembler.write32 d.toUInt32 ++ rest) = some (d, rest) := by
  rw [takeDisplacement, if_neg (by decide), if_neg (by decide), take32_write32]
  rfl

/-! ## The bytes of an operand -/

variable {rex : Rex} {mode r rm : UInt8}

theorem takeMemory_plain (hmode : mode < 3) (hr : r < 8) (hrm : rm < 8) (h4 : rm ≠ 4) (h5 : ¬ (mode = 0 ∧ rm = 5)) (l : Code) :
    takeMemory rex (modrm (mode <<< 6) r rm :: l) =
      (takeDisplacement mode l).map fun (d, code) => (r, ⟨gpr rex.b rm, .zero, 1, d⟩, code) := by
  obtain ⟨h1, h2, h3⟩ := modrm_fields (UInt8.lt_trans hmode (by decide)) hr hrm
  simp only [takeMemory, take8, Option.bind_some, h1, h2, h3, if_neg h4, if_neg h5, if_neg (UInt8.ne_of_lt hmode)]

theorem takeMemory_sib (hmode : mode < 3) (hr : r < 8) (l : Code) :
    takeMemory rex (modrm (mode <<< 6) r 4 :: l) = (takeSib rex mode l).map fun (mem, code) => (r, mem, code) := by
  obtain ⟨h1, h2, h3⟩ := modrm_fields (UInt8.lt_trans hmode (by decide)) hr (show (4 : UInt8) < 8 by decide)
  simp only [takeMemory, take8, Option.bind_some, h1, h2, h3, if_true, if_neg (UInt8.ne_of_lt hmode)]

theorem takeSib_eq {s i b : UInt8} (hs : s < 4) (hi : i < 8) (hb : b < 8) (h5 : ¬ (mode = 0 ∧ b = 5)) (l : Code) :
    takeSib rex mode (modrm (s <<< 6) i b :: l) = (takeDisplacement mode l).map fun (d, code) =>
      (⟨gpr rex.b b, if i = 4 ∧ rex.x = false then .zero else gpr rex.x i,
        if i = 4 ∧ rex.x = false then 1 else (1 : UInt8) <<< s, d⟩, code) := by
  obtain ⟨h1, h2, h3⟩ := modrm_fields hs hi hb
  simp only [takeSib, take8, Option.bind_some, h1, h2, h3, if_neg h5]

/-! ## What is read of an operand -/

/-- The register that is read where one was encoded: the upper registers are all taken to be among the sixteen. -/
def heardRegister (reg : R64) : R64 := gpr (8 ≤ number reg) (number reg &&& 7)

def indexExtended (mem : Encoding64) : Bool := mem.index ≠ .zero ∧ 8 ≤ number mem.index

/-- The operand that is read where one was encoded. -/
def heard (mem : Encoding64) : Encoding64 where
  base := heardRegister mem.base
  index := if mem.index = .zero then .zero else heardRegister mem.index
  scale := if mem.index = .zero then 1 else mem.scale
  displacement := mem.displacement

/-- The bytes that follow an opcode are read as a register and an operand, whatever comes behind them. -/
def Reads (tail : Code) (r : UInt8) (mem : Encoding64) : Prop :=
  ∀ rest w rbit, takeMemory ⟨w, rbit, indexExtended mem, 8 ≤ number mem.base⟩ (tail ++ rest) = some (r, heard mem, rest)

/-- The operands that the assembler takes: `rsp` is no index, and there are four scales. -/
structure InDomain (mem : Encoding64) : Prop where
  index : mem.index ≠ .rsp
  scale : mem.scale = 1 ∨ mem.scale = 2 ∨ mem.scale = 4 ∨ mem.scale = 8

theorem encodeRegister_gpr (reg : R64) : encodeRegister reg = some (number reg &&& 7) := rfl

/-- Four registers have the low bits that announce a SIB byte or no base. -/
theorem low_special (reg : R64) :
    (number reg &&& 7 = 4 ↔ reg = .rsp ∨ reg = .r12) ∧ (number reg &&& 7 = 5 ↔ reg = .rbp ∨ reg = .r13) := by
  cases reg <;> decide

theorem encodeScale_spec {scale : UInt8} (h : scale = 1 ∨ scale = 2 ∨ scale = 4 ∨ scale = 8) :
    ∃ s, encodeScale scale = some s ∧ s < 4 ∧ (1 : UInt8) <<< s = scale := by
  rcases h with rfl | rfl | rfl | rfl
  · exact ⟨0, by decide, by decide, by decide⟩
  · exact ⟨1, by decide, by decide, by decide⟩
  · exact ⟨2, by decide, by decide, by decide⟩
  · exact ⟨3, by decide, by decide, by decide⟩

/-- An operand without an index whose base needs no SIB byte. -/
theorem reads_base (mode : UInt8) {top : UInt8} {mem : Encoding64} {tail : Code} (htop : mode <<< 6 = top)
    (hindex : mem.index = .zero) (hmode : mode < 3) (hr : r < 8)
    (h4 : number mem.base &&& 7 ≠ 4) (h5 : ¬ (mode = 0 ∧ number mem.base &&& 7 = 5))
    (hd : ∀ rest, takeDisplacement mode (tail ++ rest) = some (mem.displacement, rest)) :
    Reads (modrm top r (number mem.base &&& 7) :: tail) r mem := by
  subst htop
  intro rest w rbit
  rw [List.cons_append, takeMemory_plain hmode hr (and_seven_lt _) h4 h5, hd]
  simp [heard, heardRegister, hindex]

/-- An operand without an index whose base needs a SIB byte. -/
theorem reads_sib_base (mode : UInt8) {top : UInt8} {mem : Encoding64} {tail : Code} (htop : mode <<< 6 = top)
    (hindex : mem.index = .zero) (hmode : mode < 3) (hr : r < 8)
    (h4 : number mem.base &&& 7 = 4) (hd : ∀ rest, takeDisplacement mode (tail ++ rest) = some (mem.displacement, rest)) :
    Reads (modrm top r 4 :: modrm 0b00000000 (number mem.base &&& 7) 4 :: tail) r mem := by
  subst htop
  intro rest w rbit
  have hzero : (0b00000000 : UInt8) = (0 : UInt8) <<< 6 := by decide
  rw [List.cons_append, List.cons_append, takeMemory_sib hmode hr, hzero, h4, takeSib_eq (by decide) (by decide) (by decide)
    (fun h => absurd h.2 (by decide)), hd]
  simp [heard, heardRegister, indexExtended, hindex, h4]

/-- An operand with an index. -/
theorem reads_index (mode : UInt8) {top : UInt8} {mem : Encoding64} {tail : Code} {s : UInt8} (htop : mode <<< 6 = top)
    (hzero : mem.index ≠ .zero) (hrsp : mem.index ≠ .rsp)
    (hmode : mode < 3) (hmode0 : mode ≠ 0) (hr : r < 8) (hs : s < 4) (hscale : (1 : UInt8) <<< s = mem.scale)
    (hd : ∀ rest, takeDisplacement mode (tail ++ rest) = some (mem.displacement, rest)) :
    Reads (modrm top r 4 :: modrm (s <<< 6) (number mem.index &&& 7) (number mem.base &&& 7) :: tail) r mem := by
  subst htop
  intro rest w rbit
  have hnone : ¬ (number mem.index &&& 7 = 4 ∧ indexExtended mem = false) := by
    rintro ⟨h4, hlow⟩
    rcases (low_special mem.index).1.1 h4 with h | h
    · exact hrsp h
    · rw [indexExtended, h] at hlow
      exact absurd hlow (by decide)
  have hextended : indexExtended mem = decide (8 ≤ number mem.index) := by simp [indexExtended, hzero]
  rw [List.cons_append, List.cons_append, takeMemory_sib hmode hr, takeSib_eq hs (and_seven_lt _) (and_seven_lt _)
    (fun h => absurd h.1 hmode0), hd, if_neg hnone, if_neg hnone, hscale]
  simp [heard, heardRegister, hextended, hzero]

variable {Reg : Type} [HostRegister Reg]

/-- What `opRegMem` writes: the REX prefix, the opcode, and bytes that are read as the register and the operand. -/
theorem opRegMem_reads (inss : Code) {reg : Reg} {mem : Encoding64} (rexw : REX) (hmem : InDomain mem)
    (hencode : encodeRegister reg = some r) (hr : r < 8) :
    ∃ tail, opRegMem inss reg mem rexw =
      some (writerex (rexByte rexw (8 ≤ number reg) (indexExtended mem) (8 ≤ number mem.base)) ++ inss ++ tail) ∧
      Reads tail r mem := by
  obtain ⟨h4, h5⟩ := low_special mem.base
  have hbyte : isByte mem.displacement = true → ∀ rest,
      takeDisplacement 1 ([mem.displacement.toInt8.toUInt8] ++ rest) = some (mem.displacement, rest) :=
    fun h rest => takeDisplacement_byte h rest
  have hword : ∀ rest, takeDisplacement 2 (Assembler.write32 mem.displacement.toUInt32 ++ rest) = some (mem.displacement, rest) :=
    takeDisplacement_word mem.displacement
  by_cases hindex : mem.index = .zero
  · have hnone : indexExtended mem = false := by simp [indexExtended, hindex]
    rw [opRegMem, if_pos hindex, opRegBase, hencode, encodeRegister_gpr, hnone]
    simp only [Option.bind_eq_bind, Option.bind_some, List.append_assoc]
    by_cases hzero : mem.displacement = 0
    · have hempty : ∀ rest, takeDisplacement 0 ([] ++ rest) = some (mem.displacement, rest) := by
        intro rest
        rw [hzero]
        rfl
      rw [if_pos hzero]
      by_cases hsib : mem.base = .rsp ∨ mem.base = .r12
      · rw [if_pos hsib]
        exact ⟨_, rfl, reads_sib_base 0 (by decide) hindex (by decide) hr (h4.2 hsib) hempty⟩
      · rw [if_neg hsib]
        by_cases hbp : mem.base = .rbp ∨ mem.base = .r13
        · rw [if_pos hbp]
          have hbyte0 : ∀ rest, takeDisplacement 1 ([0] ++ rest) = some (mem.displacement, rest) := by
            intro rest
            rw [hzero]
            rfl
          exact ⟨_, rfl, reads_base 1 (by decide) hindex (by decide) hr (mt h4.1 hsib) (fun h => absurd h.1 (by decide)) hbyte0⟩
        · rw [if_neg hbp]
          exact ⟨_, rfl, reads_base 0 (by decide) hindex (by decide) hr (mt h4.1 hsib) (fun h => hbp (h5.1 h.2)) hempty⟩
    · rw [if_neg hzero]
      by_cases hsmall : isByte mem.displacement = true
      · rw [if_pos hsmall]
        by_cases hsib : mem.base = .rsp ∨ mem.base = .r12
        · rw [if_pos hsib]
          exact ⟨_, rfl, reads_sib_base 1 (by decide) hindex (by decide) hr (h4.2 hsib) (hbyte hsmall)⟩
        · rw [if_neg hsib]
          exact ⟨_, rfl, reads_base 1 (by decide) hindex (by decide) hr (mt h4.1 hsib) (fun h => absurd h.1 (by decide))
            (hbyte hsmall)⟩
      · rw [if_neg hsmall]
        by_cases hsib : mem.base = .rsp ∨ mem.base = .r12
        · rw [if_pos hsib]
          exact ⟨_, rfl, reads_sib_base 2 (by decide) hindex (by decide) hr (h4.2 hsib) hword⟩
        · rw [if_neg hsib]
          exact ⟨_, rfl, reads_base 2 (by decide) hindex (by decide) hr (mt h4.1 hsib) (fun h => absurd h.1 (by decide)) hword⟩
  · have hextended : indexExtended mem = decide (8 ≤ number mem.index) := by simp [indexExtended, hindex]
    obtain ⟨s, hs, hlt, hscale⟩ := encodeScale_spec hmem.scale
    rw [opRegMem, if_neg hindex, opRegIndex, if_neg hmem.index, hencode, hs, encodeRegister_gpr, encodeRegister_gpr, hextended]
    simp only [Option.bind_eq_bind, Option.bind_some, List.append_assoc]
    by_cases hsmall : isByte mem.displacement = true
    · rw [if_pos hsmall]
      exact ⟨_, rfl, reads_index 1 (by decide) hindex hmem.index (by decide) (by decide) hr hlt hscale (hbyte hsmall)⟩
    · rw [if_neg hsmall]
      exact ⟨_, rfl, reads_index 2 (by decide) hindex hmem.index (by decide) (by decide) hr hlt hscale hword⟩

/-! ## What is read of an instruction -/

/-- The function of the assembler for a form. -/
def assembleForm : (form : Form) → form.registerClass.Register → Encoding64 → Option Code
  | .movR8M8, dst, src => movR8M8 dst src
  | .movM8R8, src, dst => movM8R8 dst src
  | .movR16M16, dst, src => movR16M16 dst src
  | .movM16R16, src, dst => movM16R16 dst src
  | .movR32M32, dst, src => movR32M32 dst src
  | .movM32R32, src, dst => movM32R32 dst src
  | .movR64M64, dst, src => movR64M64 dst src
  | .movM64R64, src, dst => movM64R64 dst src
  | .lockcmpxchgM32R32, src, dst => lockcmpxchgM32R32 dst src
  | .lockcmpxchgM64R64, src, dst => lockcmpxchgM64R64 dst src
  | .lockxaddM32R32, src, dst => lockxaddM32R32 dst src
  | .leaR32, dst, src => leaR32M64 dst src
  | .leaR64, dst, src => leaR64M64 dst src
  | .movdMMXM32, dst, src => movdMMXM32 dst src
  | .movdM32MMX, src, dst => movdM32MMX dst src
  | .movqMMXM64, dst, src => movqMMXM64 dst src
  | .movqM64MMX, src, dst => movqM64MMX dst src
  | .movaXMMM128, dst, src => movaXMMM128 dst src
  | .movaM128XMM, src, dst => movaM128XMM dst src
  | .movuXMMM128, dst, src => movuXMMM128 dst src
  | .movuM128XMM, src, dst => movuM128XMM dst src
  | .movdXMMM32, dst, src => movdXMMM32 dst src
  | .movdM32XMM, src, dst => movdM32XMM dst src
  | .movssXMMM32, dst, src => movssXMMM32 dst src
  | .movssM32XMM, src, dst => movssM32XMM dst src
  | .movsdXMMM64, dst, src => movsdXMMM64 dst src
  | .movsdM64XMM, src, dst => movsdM64XMM dst src
  | .movlpsXMMM64, dst, src => movlpsXMMM64 dst src
  | .movlpsM64XMM, src, dst => movlpsM64XMM dst src
  | .movhpsXMMM64, dst, src => movhpsXMMM64 dst src
  | .movhpsM64XMM, src, dst => movhpsM64XMM dst src

/-- Code behind a prefix. -/
def withPrefix : Prefix → Option Code → Option Code
  | .none, code => code
  | .operandSize, code => prefixed 0x66 code
  | .lock, code => prefixed 0xf0 code
  | .repne, code => prefixed 0xf2 code
  | .rep, code => prefixed 0xf3 code

/-- Bytes that are read as an opcode, and not as a prefix. -/
structure IsOpcode (inss : Code) : Prop where
  read : ∀ l, takeOpcode (inss ++ l) = some (inss, l)
  bare : ∀ l, takePrefix (inss ++ l) = (.none, inss ++ l)
  noRex : ∀ l, takeRex (inss ++ l) = (none, inss ++ l)

theorem isOpcode_one {c : UInt8} (h0f : c ≠ 0x0f) (hbefore : c ≠ 0x66 ∧ c ≠ 0xf0 ∧ c ≠ 0xf2 ∧ c ≠ 0xf3)
    (hrex : c &&& 0xf0 ≠ 0x40) : IsOpcode [c] where
  read l := if_neg h0f
  bare l := by simp [takePrefix, hbefore]
  noRex l := if_neg hrex

theorem isOpcode_two (d : UInt8) : IsOpcode [0x0f, d] where
  read _ := rfl
  bare _ := rfl
  noRex _ := rfl

/-- Each function is `opRegMem` with a prefix, an opcode and a width, by which the instruction is known. -/
theorem assembleForm_eq (form : Form) : ∃ before inss rexw, IsOpcode inss ∧ inss ≠ [0xc7] ∧
    opcodes.lookup (before, decide (rexw = .W), inss) = some form ∧ (form.registerClass = .r8 → rexw = .NONE) ∧
    ∀ reg mem, assembleForm form reg mem = withPrefix before (opRegMem inss reg mem rexw) := by
  cases form with
  | movR8M8 | movM8R8 | movR32M32 | movM32R32 | leaR32 | movR64M64 | movM64R64 | leaR64 =>
    exact ⟨.none, _, _, isOpcode_one (by decide) (by decide) (by decide), by decide, by decide, by decide, fun _ _ => rfl⟩
  | movR16M16 | movM16R16 =>
    exact ⟨.operandSize, _, _, isOpcode_one (by decide) (by decide) (by decide), by decide, by decide, by decide, fun _ _ => rfl⟩
  | lockcmpxchgM32R32 | lockcmpxchgM64R64 | lockxaddM32R32 =>
    exact ⟨.lock, _, _, isOpcode_two _, by decide, by decide, by decide, fun _ _ => rfl⟩
  | movdMMXM32 | movdM32MMX | movqMMXM64 | movqM64MMX | movlpsXMMM64 | movlpsM64XMM | movhpsXMMM64 | movhpsM64XMM =>
    exact ⟨.none, _, _, isOpcode_two _, by decide, by decide, by decide, fun _ _ => rfl⟩
  | movaXMMM128 | movaM128XMM | movdXMMM32 | movdM32XMM =>
    exact ⟨.operandSize, _, _, isOpcode_two _, by decide, by decide, by decide, fun _ _ => rfl⟩
  | movuXMMM128 | movuM128XMM | movssXMMM32 | movssM32XMM =>
    exact ⟨.rep, _, _, isOpcode_two _, by decide, by decide, by decide, fun _ _ => rfl⟩
  | movsdXMMM64 | movsdM64XMM =>
    exact ⟨.repne, _, _, isOpcode_two _, by decide, by decide, by decide, fun _ _ => rfl⟩

/-- The REX prefix that is read where one was written; there is none where it looks empty. -/
def rexRead (rexw : REX) (reg index base : Bool) : Option Rex :=
  if rexByte rexw reg index base = 0x40 then none else some ⟨rexw = .W, reg, index, base⟩

theorem rexRead_getD (rexw : REX) (reg index base : Bool) :
    (rexRead rexw reg index base).getD ⟨false, false, false, false⟩ = ⟨rexw = .W, reg, index, base⟩ := by
  cases rexw <;> cases reg <;> cases index <;> cases base <;> decide

theorem rexRead_any (rexw : REX) (reg index base : Bool) : (rexRead rexw reg index base).any Rex.r = reg := by
  cases rexw <;> cases reg <;> cases index <;> cases base <;> decide

/-- An empty REX prefix is one whose bits are all clear. -/
theorem rexRead_eq_none (rexw : REX) (reg index base : Bool) :
    rexRead rexw reg index base = none ↔ rexw = .NONE ∧ reg = false ∧ index = false ∧ base = false := by
  cases rexw <;> cases reg <;> cases index <;> cases base <;> decide

/-- What a REX byte is not, and what it is. -/
theorem rexByte_spec (rexw : REX) (reg index base : Bool) (l : Code) :
    takePrefix (rexByte rexw reg index base :: l) = (.none, rexByte rexw reg index base :: l) ∧
      takeRex (rexByte rexw reg index base :: l) = (some ⟨rexw = .W, reg, index, base⟩, l) := by
  cases rexw <;> cases reg <;> cases index <;> cases base <;> exact ⟨rfl, rfl⟩

theorem take_writerex {inss : Code} (h : IsOpcode inss) (rexw : REX) (reg index base : Bool) (l : Code) :
    takePrefix (writerex (rexByte rexw reg index base) ++ (inss ++ l)) =
        (.none, writerex (rexByte rexw reg index base) ++ (inss ++ l)) ∧
      takeRex (writerex (rexByte rexw reg index base) ++ (inss ++ l)) = (rexRead rexw reg index base, inss ++ l) := by
  rw [writerex, rexRead]
  split
  · exact ⟨h.bare l, h.noRex l⟩
  · exact rexByte_spec rexw reg index base (inss ++ l)

/-- What is written behind a prefix is read behind it. -/
theorem take_withPrefix (before : Prefix) (code : Code) (h : ∀ rest, takePrefix (code ++ rest) = (.none, code ++ rest)) :
    ∃ code', withPrefix before (some code) = some code' ∧ ∀ rest, takePrefix (code' ++ rest) = (before, code ++ rest) := by
  cases before with
  | none => exact ⟨code, rfl, h⟩
  | operandSize | lock | repne | rep => exact ⟨_, rfl, fun _ => rfl⟩

/-- What is read where a function wrote. -/
theorem decode_assembleForm (form : Form) {reg : form.registerClass.Register} {mem : Encoding64} (hmem : InDomain mem)
    (hencode : encodeRegister reg = some r) (hr : r < 8) :
    ∃ code rexw, assembleForm form reg mem = some code ∧ (form.registerClass = .r8 → rexw = .NONE) ∧
      ∀ rest, decode (code ++ rest) = some (.regMem form (form.registerClass.read
        (rexRead rexw (8 ≤ number reg) (indexExtended mem) (8 ≤ number mem.base)) r) (heard mem), rest) := by
  obtain ⟨before, inss, rexw, hopcode, hmov, hlookup, hwidth, hassemble⟩ := assembleForm_eq form
  obtain ⟨tail, hwritten, hreads⟩ := opRegMem_reads inss rexw hmem hencode hr
  have htake := fun rest => take_writerex hopcode rexw (8 ≤ number reg) (indexExtended mem) (8 ≤ number mem.base) (tail ++ rest)
  obtain ⟨code, hcode, hbefore⟩ := take_withPrefix before
    (writerex (rexByte rexw (8 ≤ number reg) (indexExtended mem) (8 ≤ number mem.base)) ++ inss ++ tail)
    (fun rest => by simpa only [List.append_assoc] using (htake rest).1)
  refine ⟨code, rexw, by rw [hassemble, hwritten, hcode], hwidth, fun rest => ?_⟩
  have hother : ¬ (before, decide (rexw = .W), inss) = (.none, true, [0xc7]) := fun h => hmov (Prod.mk.inj (Prod.mk.inj h).2).2
  rw [decode, hbefore, List.append_assoc, List.append_assoc]
  simp only [(htake rest).2, rexRead_getD, hopcode.read, Option.bind_some, hreads rest, if_neg hother, hlookup, Option.map_some]

/-- A wider register is read as it was written, if it has one of the sixteen numbers. -/
theorem read_wide (c : RegisterClass) (hc : c ≠ .r8) (reg : c.Register) (rex : Option Rex)
    (hrex : rex.any Rex.r = decide (8 ≤ number reg)) : c.read rex (number reg &&& 7) = reg ↔ number reg < 16 := by
  cases c with
  | r8 => exact absurd rfl hc
  | r16 | r32 | r64 | xmm =>
    simp only [RegisterClass.read, hrex]
    clear hrex
    cases reg <;> decide
  | mmx =>
    simp only [RegisterClass.read]
    clear hrex
    cases reg <;> decide

/-- Without a REX prefix only the lowest four registers of a byte are read as they were written. -/
theorem byteRegister_none (reg : R8) : byteRegister none (number reg &&& 7) = reg ∧ number reg < 16 ↔ number reg < 4 := by
  cases reg <;> decide

theorem byteRegister_some (reg : R8) (rex : Rex) (hrex : rex.r = decide (8 ≤ number reg)) :
    byteRegister (some rex) (number reg &&& 7) = reg ↔ number reg < 16 := by
  simp only [byteRegister, hrex]
  clear hrex
  cases reg <;> decide

/-- What is read of a register that has an encoding. -/
theorem read_eq_iff (c : RegisterClass) (reg : c.Register) (rex : Option Rex) (hrex : rex.any Rex.r = decide (8 ≤ number reg))
    (hencodes : ¬ (c = .r8 ∧ ¬ number reg < 16)) :
    c.read rex (number reg &&& 7) = reg ↔ number reg < 16 ∧ ¬ (c = .r8 ∧ rex = none ∧ 4 ≤ number reg) := by
  by_cases hc : c = .r8
  · subst hc
    have hnumber : number reg < 16 := Decidable.not_not.1 fun h => hencodes ⟨rfl, h⟩
    cases rex with
    | none =>
      have hlow := byteRegister_none reg
      simp only [hnumber, and_true] at hlow
      simpa [RegisterClass.read, hnumber] using hlow
    | some rex => simpa [RegisterClass.read, hnumber] using (byteRegister_some reg rex hrex).2 hnumber
  · simpa [hc] using read_wide c hc reg rex hrex

/-! ## The calls -/

/-- A call of the assembler. The two overloads of `lea` with a register of 32 bits write the same instruction. -/
inductive Call where
  | form (form : Form) (reg : form.registerClass.Register) (mem : Encoding64)
  | leaR32M32 (dst : R32) (src : Encoding64)
  | movM64U32 (dst : Encoding64) (imm : UInt32)

namespace Call

def assemble : Call → Option Code
  | form f reg mem => assembleForm f reg mem
  | leaR32M32 dst src => Assembler.leaR32M32 dst src
  | movM64U32 dst imm => Assembler.movM64U32 dst imm

/-- An operand without an index has no scale. -/
def scaled (mem : Encoding64) : Encoding64 := if mem.index = .zero then { mem with scale := 1 } else mem

/-- The instruction that is asked for. -/
def instruction : Call → MachineCode.Instruction
  | form f reg mem => .regMem f reg (scaled mem)
  | leaR32M32 dst src => .regMem .leaR32 dst (scaled src)
  | movM64U32 dst imm => .movM64U32 (scaled dst) imm

def mem : Call → Encoding64
  | form _ _ mem => mem
  | leaR32M32 _ src => src
  | movM64U32 dst _ => dst

/-- The verification that `mov` makes itself. -/
def Verified : Call → Prop
  | movM64U32 dst _ => ¬ (dst.index = .zero ∧ dst.displacement = 0 ∧ dst.base = .rbp)
  | _ => True

/-- The code is read as the instruction that was asked for, and nothing of what comes behind it is read. -/
def Kept (call : Call) : Prop :=
  ∃ code, call.assemble = some code ∧ ∀ rest, decode (code ++ rest) = some (call.instruction, rest)

/-- The base and the index are among the sixteen registers. -/
def Addressable (mem : Encoding64) : Prop := number mem.base < 16 ∧ mem.index ≠ .rip

/-- No bit of the REX prefix is set for the operand. -/
def Low (mem : Encoding64) : Prop := number mem.base < 8 ∧ (mem.index = .zero ∨ number mem.index < 8)

/-- Without an index, the base needs no SIB byte, and a displacement if it is `r13`. -/
def PlainBase (dst : Encoding64) : Prop :=
  dst.index = .zero → dst.base ≠ .rsp ∧ dst.base ≠ .r12 ∧ ¬ (dst.base = .r13 ∧ dst.displacement = 0)

/-- The register has a number, and it is none of `spl`, `bpl`, `sil` and `dil` with an operand that sets no bit of the REX
prefix. -/
def Encodable : Call → Prop
  | form f reg mem => Addressable mem ∧ number reg < 16 ∧ ¬ (f.registerClass = .r8 ∧ 4 ≤ number reg ∧ number reg < 8 ∧ Low mem)
  | leaR32M32 dst src => Addressable src ∧ number dst < 16
  | movM64U32 dst _ => Addressable dst ∧ PlainBase dst

end Call

theorem heardRegister_eq_iff (reg : R64) : heardRegister reg = reg ↔ number reg < 16 := by
  cases reg <;> decide

/-- The operand that is read is the one that was written, if its registers are among the sixteen. -/
theorem heard_eq_iff (mem : Encoding64) : heard mem = Call.scaled mem ↔ Call.Addressable mem := by
  have hindex : mem.index ≠ .zero → (heardRegister mem.index = mem.index ↔ mem.index ≠ .rip) := by
    intro hzero
    rw [heardRegister_eq_iff]
    revert hzero
    cases mem.index <;> decide
  have hscaled : Call.scaled mem = ⟨mem.base, mem.index, if mem.index = .zero then 1 else mem.scale, mem.displacement⟩ := by
    rw [Call.scaled]
    split <;> rfl
  rw [hscaled, heard, Encoding64.mk.injEq, Call.Addressable, heardRegister_eq_iff]
  by_cases hzero : mem.index = .zero
  · simp [hzero]
  · simp [hzero, hindex hzero]

/-- A register that has no encoding is one of the upper halves. -/
theorem encodeRegister_eq (c : RegisterClass) (reg : c.Register) :
    encodeRegister reg = if c = .r8 ∧ ¬ number reg < 16 then none else some (number reg &&& 7) := by
  cases c with
  | r8 =>
    cases reg <;> decide
  | r16 | r32 | r64 | mmx | xmm => rfl

theorem assembleForm_none (form : Form) {reg : form.registerClass.Register} {mem : Encoding64} (hmem : InDomain mem)
    (hencode : encodeRegister reg = none) : assembleForm form reg mem = none := by
  obtain ⟨before, inss, rexw, -, -, -, -, hassemble⟩ := assembleForm_eq form
  have hnone : opRegMem inss reg mem rexw = none := by
    rw [opRegMem, opRegBase, opRegIndex, hencode, if_neg hmem.index]
    split <;> rfl
  rw [hassemble, hnone]
  cases before <;> rfl

/-- A function of the assembler keeps its instruction exactly for the operands that it can encode. -/
theorem form_kept_iff (f : Form) (reg : f.registerClass.Register) {mem : Encoding64} (hmem : InDomain mem) :
    (Call.form f reg mem).Kept ↔ (Call.form f reg mem).Encodable := by
  have hencode := encodeRegister_eq f.registerClass reg
  by_cases hhigh : f.registerClass = .r8 ∧ ¬ number reg < 16
  · rw [if_pos hhigh] at hencode
    refine iff_of_false ?_ fun h => hhigh.2 h.2.1
    rintro ⟨code, hcode, -⟩
    rw [Call.assemble, assembleForm_none f hmem hencode] at hcode
    cases hcode
  · rw [if_neg hhigh] at hencode
    obtain ⟨code, rexw, hcode, hwidth, hdecode⟩ := decode_assembleForm f hmem hencode (and_seven_lt _)
    have hkept : (Call.form f reg mem).Kept ↔ f.registerClass.read
        (rexRead rexw (8 ≤ number reg) (indexExtended mem) (8 ≤ number mem.base)) (number reg &&& 7) = reg ∧
        heard mem = Call.scaled mem := by
      constructor
      · rintro ⟨code', hcode', hread⟩
        obtain rfl := Option.some.inj (hcode.symm.trans hcode')
        have hsame := (hdecode []).symm.trans (hread [])
        simpa [Call.instruction] using hsame
      · rintro ⟨hreg, hmemory⟩
        refine ⟨code, hcode, fun rest => ?_⟩
        rw [hdecode rest, hreg, hmemory]
        rfl
    rw [hkept, heard_eq_iff, Call.Encodable, and_comm]
    refine and_congr_right fun _ => (read_eq_iff _ reg _ (rexRead_any ..) hhigh).trans (and_congr_right fun _ => not_congr ?_)
    have hlow : indexExtended mem = false ∧ decide (8 ≤ number mem.base) = false ↔ Call.Low mem := by
      by_cases hzero : mem.index = .zero <;> simp [indexExtended, Call.Low, hzero, and_comm]
    rw [rexRead_eq_none, hlow]
    simp only [decide_eq_false_iff_not, UInt8.not_le]
    constructor
    · rintro ⟨hc, ⟨-, h8, hempty⟩, h4⟩
      exact ⟨hc, h4, h8, hempty⟩
    · rintro ⟨hc, h4, h8, hempty⟩
      exact ⟨hc, ⟨hwidth hc, h8, hempty⟩, h4⟩

/-! ## The move of an immediate -/

/-- What is read of a move of an immediate. -/
theorem decode_mov (x b : Bool) (l : Code) : decode (rexByte .W false x b :: 0xc7 :: l) =
    (takeMemory ⟨true, false, x, b⟩ l).bind fun (r, mem, code) =>
      if r = 0 then (take32 code).map fun (imm, code) => (.movM64U32 mem imm, code) else none := by
  obtain ⟨hbefore, hrex⟩ := rexByte_spec .W false x b (0xc7 :: l)
  simp only [decode, hbefore, hrex, takeOpcode, Option.getD_some]
  rfl

theorem take32_short {l : Code} (h : l.length < 4) : take32 l = none := by
  match l with
  | [] | [_] | [_, _] | [_, _, _] => rfl
  | _ :: _ :: _ :: _ :: _ => exact absurd h (by simp)

theorem take32_length {l l' : Code} {v : UInt32} (h : take32 l = some (v, l')) : l'.length + 4 = l.length := by
  match l with
  | [] | [_] | [_, _] | [_, _, _] => cases h
  | _ :: _ :: _ :: _ :: _ =>
    obtain ⟨-, rfl⟩ := Prod.mk.inj (Option.some.inj h)
    rfl

/-- The bytes of a displacement. -/
def width (mode : UInt8) : Nat := if mode = 0 then 0 else if mode = 1 then 1 else 4

theorem takeDisplacement_length {l l' : Code} {d : Int32} (h : takeDisplacement mode l = some (d, l')) :
    l'.length + width mode = l.length := by
  rw [takeDisplacement] at h
  rw [width]
  by_cases h0 : mode = 0
  · rw [if_pos h0] at h ⊢
    cases h
    rfl
  · rw [if_neg h0] at h ⊢
    by_cases h1 : mode = 1
    · rw [if_pos h1] at h ⊢
      cases l with
      | nil => cases h
      | cons c l =>
        cases h
        rfl
    · rw [if_neg h1] at h ⊢
      obtain ⟨⟨v, l''⟩, htake, hmk⟩ := Option.map_eq_some_iff.1 h
      cases hmk
      exact take32_length htake

/-- A SIB byte takes one byte more than the displacement. -/
theorem takeSib_length {l l' : Code} {mem : Encoding64} (h : takeSib rex mode l = some (mem, l')) :
    l'.length + 1 + width mode ≤ l.length := by
  cases l with
  | nil => cases h
  | cons sib l =>
    simp only [takeSib, take8, Option.bind_some] at h
    split at h
    · next hmode =>
      obtain ⟨⟨v, l''⟩, htake, hmk⟩ := Option.map_eq_some_iff.1 h
      cases hmk
      have := take32_length htake
      simp only [width, hmode.1, if_true, List.length_cons]
      omega
    · obtain ⟨⟨d, l''⟩, htake, hmk⟩ := Option.map_eq_some_iff.1 h
      cases hmk
      have := takeDisplacement_length htake
      simp only [List.length_cons]
      omega

/-- Where the byte that would be a SIB byte is the first of the displacement or of the immediate, a byte is missing at the end. -/
theorem decode_mov_short (mode : UInt8) {top : UInt8} (htop : mode <<< 6 = top) (hmode : mode < 3) (x b : Bool) {l : Code}
    (hl : l.length = width mode + 4) : decode (rexByte .W false x b :: 0xc7 :: modrm top 0 4 :: l) = none := by
  subst htop
  rw [decode_mov, takeMemory_sib hmode (by decide)]
  cases hsib : takeSib ⟨true, false, x, b⟩ mode l with
  | none => rfl
  | some taken =>
    obtain ⟨mem, l'⟩ := taken
    have hlength := takeSib_length hsib
    have hshort : take32 l' = none := take32_short (by omega)
    simp [hshort]

theorem decode_mov_reads {dst : Encoding64} {tail : Code} (h : Reads tail 0 dst) (imm : UInt32) (rest : Code) :
    decode (rexByte .W false (indexExtended dst) (8 ≤ number dst.base) :: 0xc7 :: (tail ++ Assembler.write32 imm) ++ rest) =
      some (.movM64U32 (heard dst) imm, rest) := by
  have hmemory := h (Assembler.write32 imm ++ rest) true false
  rw [List.cons_append, List.cons_append, decode_mov, List.append_assoc, hmemory]
  simp [take32_write32]

theorem movM64U32_reads {dst : Encoding64} (hmem : InDomain dst) (imm : UInt32) (hverified : (Call.movM64U32 dst imm).Verified)
    (hplain : Call.PlainBase dst) : ∃ tail, Reads tail 0 dst ∧ movM64U32 dst imm =
      some (rexByte .W false (indexExtended dst) (8 ≤ number dst.base) :: 0xc7 :: (tail ++ Assembler.write32 imm)) := by
  have hbyte : isByte dst.displacement = true → ∀ rest,
      takeDisplacement 1 ([dst.displacement.toInt8.toUInt8] ++ rest) = some (dst.displacement, rest) :=
    fun h rest => takeDisplacement_byte h rest
  have hword : ∀ rest, takeDisplacement 2 (Assembler.write32 dst.displacement.toUInt32 ++ rest) = some (dst.displacement, rest) :=
    takeDisplacement_word dst.displacement
  by_cases hindex : dst.index = .zero
  · have hnone : indexExtended dst = false := by simp [indexExtended, hindex]
    obtain ⟨hrsp, hr12, hr13⟩ := hplain hindex
    obtain ⟨h4, h5⟩ := low_special dst.base
    have hlow : number dst.base &&& 7 ≠ 4 := fun h => (h4.1 h).elim hrsp hr12
    rw [movM64U32, encodeRegister_gpr, hnone, Option.bind_eq_bind, Option.bind_some, if_pos hindex]
    by_cases hzero : dst.displacement = 0
    · have hrbp : dst.base ≠ .rbp := fun h => hverified ⟨hindex, hzero, h⟩
      have hempty : ∀ rest, takeDisplacement 0 ([] ++ rest) = some (dst.displacement, rest) := by
        intro rest
        rw [hzero]
        rfl
      rw [if_pos hzero, if_neg hrbp]
      exact ⟨_, reads_base 0 (by decide) hindex (by decide) (by decide) hlow
        (fun h => (h5.1 h.2).elim hrbp fun h => hr13 ⟨h, hzero⟩) hempty, rfl⟩
    · rw [if_neg hzero]
      by_cases hsmall : isByte dst.displacement = true
      · rw [if_pos hsmall]
        exact ⟨_, reads_base 1 (by decide) hindex (by decide) (by decide) hlow (fun h => absurd h.1 (by decide))
          (hbyte hsmall), rfl⟩
      · rw [if_neg hsmall]
        exact ⟨_, reads_base 2 (by decide) hindex (by decide) (by decide) hlow (fun h => absurd h.1 (by decide)) hword, rfl⟩
  · have hextended : indexExtended dst = decide (8 ≤ number dst.index) := by simp [indexExtended, hindex]
    obtain ⟨s, hs, hlt, hscale⟩ := encodeScale_spec hmem.scale
    rw [movM64U32, encodeRegister_gpr, encodeRegister_gpr, hs, hextended, Option.bind_eq_bind, Option.bind_some, if_neg hindex]
    exact ⟨_, reads_index 2 (by decide) hindex hmem.index (by decide) (by decide) (by decide) hlt hscale hword, rfl⟩

/-- Where the immediate is read as a displacement, there is no immediate left. -/
theorem decode_mov_relative (x b : Bool) (imm : UInt32) :
    decode (rexByte .W false x b :: 0xc7 :: modrm 0b00000000 0b0 5 :: Assembler.write32 imm) = none := by
  have htake : take32 (Assembler.write32 imm) = some (imm, []) := by simpa using take32_write32 imm []
  have hmemory : takeMemory ⟨true, false, x, b⟩ (modrm 0b00000000 0b0 5 :: Assembler.write32 imm) =
      (take32 (Assembler.write32 imm)).map fun (d, code) => (0, ⟨.rip, .zero, 1, d.toInt32⟩, code) := rfl
  rw [decode_mov, hmemory, htake]
  rfl

/-- Where the base needs what the move does not write, the code ends too early. -/
theorem movM64U32_short {dst : Encoding64} (imm : UInt32) (hplain : ¬ Call.PlainBase dst) :
    ∃ code, movM64U32 dst imm = some code ∧ decode code = none := by
  obtain ⟨hindex, hbase⟩ : dst.index = .zero ∧
      (dst.base = .rsp ∨ dst.base = .r12 ∨ (dst.base = .r13 ∧ dst.displacement = 0)) := by
    by_contra h
    refine hplain fun hindex => ⟨fun hb => h ⟨hindex, .inl hb⟩, fun hb => h ⟨hindex, .inr (.inl hb)⟩, ?_⟩
    exact fun hb => h ⟨hindex, .inr (.inr hb)⟩
  rw [movM64U32, encodeRegister_gpr, Option.bind_eq_bind, Option.bind_some, if_pos hindex]
  by_cases hsib : dst.base = .rsp ∨ dst.base = .r12
  · have h4 := (low_special dst.base).1.2 hsib
    have hrbp : dst.base ≠ .rbp := by
      rintro hrbp
      rw [hrbp] at hsib
      exact absurd hsib (by decide)
    rw [h4]
    by_cases hzero : dst.displacement = 0
    · rw [if_pos hzero, if_neg hrbp]
      exact ⟨_, rfl, decode_mov_short 0 (by decide) (by decide) _ _ rfl⟩
    · rw [if_neg hzero]
      by_cases hsmall : isByte dst.displacement = true
      · rw [if_pos hsmall]
        exact ⟨_, rfl, decode_mov_short 1 (by decide) (by decide) _ _ rfl⟩
      · rw [if_neg hsmall]
        exact ⟨_, rfl, decode_mov_short 2 (by decide) (by decide) _ _ rfl⟩
  · -- the immediate is read as a displacement, and there is no immediate left
    obtain ⟨hr13, hzero⟩ : dst.base = .r13 ∧ dst.displacement = 0 := by
      rcases hbase with h | h | h
      · exact absurd (.inl h) hsib
      · exact absurd (.inr h) hsib
      · exact h
    rw [hr13, hzero]
    refine ⟨_, rfl, decode_mov_relative false true imm⟩

/-- The move of an immediate keeps its instruction exactly for the bases that it can encode. -/
theorem mov_kept_iff {dst : Encoding64} (hmem : InDomain dst) (imm : UInt32) (hverified : (Call.movM64U32 dst imm).Verified) :
    (Call.movM64U32 dst imm).Kept ↔ (Call.movM64U32 dst imm).Encodable := by
  by_cases hplain : Call.PlainBase dst
  · obtain ⟨tail, hreads, hcode⟩ := movM64U32_reads hmem imm hverified hplain
    have hkept : (Call.movM64U32 dst imm).Kept ↔ heard dst = Call.scaled dst := by
      constructor
      · rintro ⟨code, hcode', hread⟩
        obtain rfl := Option.some.inj (hcode.symm.trans hcode')
        have hsame := (decode_mov_reads hreads imm []).symm.trans (hread [])
        simpa [Call.instruction] using hsame
      · intro hmemory
        refine ⟨_, hcode, fun rest => ?_⟩
        rw [decode_mov_reads hreads imm rest, hmemory]
        rfl
    rw [hkept, heard_eq_iff]
    exact ⟨fun h => ⟨h, hplain⟩, fun h => h.1⟩
  · refine iff_of_false ?_ fun h => hplain h.2
    rintro ⟨code, hcode, hread⟩
    obtain ⟨code', hcode', hnone⟩ := movM64U32_short imm hplain
    obtain rfl := Option.some.inj (hcode'.symm.trans hcode)
    have hsome := hread []
    rw [List.append_nil, hnone] at hsome
    cases hsome

/-- What is written with a memory operand is read as it was meant exactly where the registers can be encoded. -/
theorem memory_operands_kept_iff (call : Call) (hmem : InDomain call.mem) (hverified : call.Verified) :
    call.Kept ↔ call.Encodable := by
  cases call with
  | form f reg mem => exact form_kept_iff f reg hmem
  | leaR32M32 dst src =>
    have hkept : (Call.leaR32M32 dst src).Kept ↔ _ := form_kept_iff .leaR32 dst hmem
    exact hkept.trans ⟨fun h => ⟨h.1, h.2.1⟩, fun h => ⟨h.1, h.2, fun h => absurd h.1 (by decide)⟩⟩
  | movM64U32 dst imm => exact mov_kept_iff hmem imm hverified

/-- `mov rax, [rbp + 8 * rcx - 8]` -/
theorem memory_operands_kept_indexed : (Call.form .movR64M64 .rax ⟨.rbp, .rcx, 8, -8⟩).Kept :=
  (memory_operands_kept_iff (.form .movR64M64 .rax ⟨.rbp, .rcx, 8, -8⟩) ⟨by decide, by decide⟩ trivial).2
    ⟨⟨by decide, by decide⟩, by decide, fun h => absurd h.1 (by decide)⟩

/-- `mov spl, [rax]` is read as `mov ah, [rax]`. -/
theorem memory_operands_fails : ¬ ∀ call : Call, InDomain call.mem → call.Verified → call.Kept := by
  intro hclaim
  obtain ⟨code, hcode, hread⟩ := hclaim (.form .movR8M8 .spl ⟨.rax, .zero, 1, 0⟩) ⟨by decide, by decide⟩ trivial
  have hbytes : (Call.form .movR8M8 .spl ⟨.rax, .zero, 1, 0⟩).assemble = some [0x8a, 0x20] := by decide
  obtain rfl := Option.some.inj (hbytes.symm.trans hcode)
  have hother : decode [0x8a, 0x20] = some (.regMem .movR8M8 .ah ⟨.rax, .zero, 1, 0⟩, []) := rfl
  have hsame := hother.symm.trans (hread [])
  simp [Call.instruction] at hsame

end MachineCode

end X64Emulator
