import X64Emulator.Lemmas.CompiledCode
import X64Emulator.Lemmas.RegionCalls
import X64Emulator.Theorems.LockedInstructions
import X64Emulator.Theorems.Sums

/-!
# Compiled integer instructions

What the compiler makes of a block of instructions does on the host what the interpreter does with them: a state of the host that
stands for one of the guest is led to one that stands for the state the interpreter ends in. The two disagree on what an instruction
does at a few places, which `Insn.Exact` leaves out.
-/

namespace X64Emulator

open Ir

/-! ## The arithmetic of the host -/

namespace CpuImpl

open Wrapping

variable {w : Nat}

/-- Flags are equal if all seven of them are. -/
theorem flags_ext {f g : Flags} (hcarry : f.carry = g.carry) (hzero : f.zero = g.zero) (hsign : f.sign = g.sign)
    (hoverflow : f.overflow = g.overflow) (hdirection : f.direction = g.direction)
    (hidentification : f.identification = g.identification) (hparity : f.parity = g.parity) : f = g := by
  cases f
  cases g
  simp_all

/-- The value and the flags of an operation are what its exact results make them. -/
theorem Reports.unique {before after after' : Flags} {res res' : BitVec w} {unsigned signed : Int}
    (h : Reports before res after unsigned signed) (h' : Reports before res' after' unsigned signed) :
    (res, after) = (res', after') := by
  have hres : res = res' := BitVec.eq_of_toNat_eq (Int.natCast_inj.1 (h.value.trans h'.value.symm))
  subst hres
  exact Prod.ext rfl (flags_ext (h.carry.trans h'.carry.symm) (h.zero.trans h'.zero.symm) (h.sign.trans h'.sign.symm)
    (h.overflow.trans h'.overflow.symm) (h.direction.trans h'.direction.symm)
    (h.identification.trans h'.identification.symm) (h.parity.trans h'.parity.symm))

/-- A sum of the host reports what the numbers add up to. -/
theorem sum_reports (hw : 0 < w) (a b : BitVec w) (carry : Bool) (flags : Flags) :
    Reports flags (sum a b carry flags).1 (sum a b carry flags).2 (a.toNat + b.toNat + carry.toInt)
      (a.toInt + b.toInt + carry.toInt) := by
  have hbit : (carry.toInt : Int) = ((BitVec.ofBool carry).setWidth w).toNat := by
    rw [carryBit_toNat hw]
    cases carry <;> rfl
  have hres : a + b + (BitVec.ofBool carry).setWidth w = BitVec.ofInt w (a.toNat + b.toNat + carry.toInt) := by
    rw [hbit, BitVec.ofInt_add, BitVec.ofInt_add, ofInt_toNat, ofInt_toNat, ofInt_toNat]
  refine .of_wrapped hres ?_ rfl ?_ rfl (Flags.computeParity_eq _).1.symm rfl rfl
  · have hle : 0 ≤ carry.toInt := by cases carry <;> decide
    have hnat : carry.toInt = (carry.toNat : Int) := by cases carry <;> rfl
    simp only [sum, decide_eq_decide, hnat]
    generalize 2 ^ w = N
    omega
  · rw [← hres]
    exact BitVec.msb_eq_toInt

/-- A difference of the host reports the difference of the numbers. -/
theorem difference_reports (hw : 0 < w) (a b : BitVec w) (borrow : Bool) (flags : Flags) :
    Reports flags (difference a b borrow flags).1 (difference a b borrow flags).2 (a.toNat - b.toNat - borrow.toInt)
      (a.toInt - b.toInt - borrow.toInt) := by
  have hbit : (borrow.toInt : Int) = ((BitVec.ofBool borrow).setWidth w).toNat := by
    rw [carryBit_toNat hw]
    cases borrow <;> rfl
  have hres : a - b - (BitVec.ofBool borrow).setWidth w = BitVec.ofInt w (a.toNat - b.toNat - borrow.toInt) := by
    rw [hbit, ofInt_sub, ofInt_sub, ofInt_toNat, ofInt_toNat, ofInt_toNat]
  refine .of_wrapped hres ?_ rfl ?_ rfl (Flags.computeParity_eq _).1.symm rfl rfl
  · have hnat : borrow.toInt = (borrow.toNat : Int) := by cases borrow <;> rfl
    have ha := a.isLt
    have hb := b.isLt
    have hle := Bool.toNat_le borrow
    simp only [difference, decide_eq_decide, hnat]
    generalize 2 ^ w = N at *
    omega
  · rw [← hres]
    exact BitVec.msb_eq_toInt

/-- Host and interpreter add alike. -/
theorem sum_eq_add (hw : 0 < w) (a b : BitVec w) (flags : Flags) : sum a b false flags = add a b flags := by
  have hsum := sum_reports hw a b false flags
  rw [show Bool.toInt false = 0 from rfl, Int.add_zero, Int.add_zero] at hsum
  exact hsum.unique (add_reports hw a b flags)

/-- They add alike with the carry. -/
theorem sum_eq_adc (hw : 0 < w) (a b : BitVec w) (flags : Flags) : sum a b flags.carry flags = adc a b flags :=
  (sum_reports hw a b flags.carry flags).unique (adc_reports hw a b flags)

/-- They subtract alike. -/
theorem difference_eq_sub (hw : 0 < w) (a b : BitVec w) (flags : Flags) : difference a b false flags = sub a b flags := by
  have hdifference := difference_reports hw a b false flags
  rw [show Bool.toInt false = 0 from rfl, Int.sub_zero, Int.sub_zero] at hdifference
  exact hdifference.unique (sub_reports hw a b flags)

/-- They subtract alike with the borrow. -/
theorem difference_eq_sbb (hw : 0 < w) (a b : BitVec w) (flags : Flags) : difference a b flags.carry flags = sbb a b flags :=
  (difference_reports hw a b flags.carry flags).unique (sbb_reports hw a b flags)

/-- The sign bit is the highest one. -/
theorem signBit_eq_msb (val : BitVec w) : signBit val = val.msb := Bits.decide_and_top val

/-- The flags of a logical operation. -/
theorem logical_eq (res : BitVec w) (flags : Flags) :
    logical res flags = (res, { flags with
      overflow := false
      carry := false
      sign := signBit res
      zero := res = 0
      parity := Flags.computeParity (res.setWidth 8) }) := by
  rw [logical, signBit_eq_msb, (Flags.computeParity_eq _).1]

/-- A step by one overflows at one value only. -/
theorem sum_one_overflow (hw : 1 < w) (a : BitVec w) (flags : Flags) :
    (sum a 1 false flags).2.overflow = decide (a = BitVec.intMax w) := by
  have hone : (1#w).toInt = 1 := BitVec.toInt_one hw
  have hle := BitVec.le_toInt a
  have hlt := BitVec.toInt_lt (x := a)
  have hmax : (a = BitVec.intMax w) ↔ a.toInt = 2 ^ (w - 1) - 1 := by
    rw [← BitVec.toInt_inj, BitVec.toInt_intMax]
  simp only [sum, decide_eq_decide, hmax]
  rw [show (1 : BitVec w).toInt = 1 from hone, show Bool.toInt false = 0 from rfl]
  generalize (2 : Int) ^ (w - 1) = H at *
  omega

/-- Only the least number overflows when one is taken from it. -/
theorem difference_one_overflow (hw : 1 < w) (a : BitVec w) (flags : Flags) :
    (difference a 1 false flags).2.overflow = decide (a = BitVec.intMin w) := by
  have hone : (1#w).toInt = 1 := BitVec.toInt_one hw
  have hle := BitVec.le_toInt a
  have hlt := BitVec.toInt_lt (x := a)
  have hmin : (a = BitVec.intMin w) ↔ a.toInt = -2 ^ (w - 1) := by
    rw [← BitVec.toInt_inj, BitVec.toInt_intMin_of_pos (by omega)]
  simp only [difference, decide_eq_decide, hmin]
  rw [show (1 : BitVec w).toInt = 1 from hone, show Bool.toInt false = 0 from rfl]
  generalize (2 : Int) ^ (w - 1) = H at *
  omega

/-- `inc` keeps the carry. -/
theorem unary_inc (hw : 1 < w) (a : BitVec w) (flags : Flags) : Op.inc.unary a flags = some (inc a flags) := by
  have hoverflow := sum_one_overflow hw a flags
  have hres : (sum a 1 false flags).1 = a + 1 := by simp [sum]
  refine congrArg some (Prod.ext hres (flags_ext rfl ?_ ?_ hoverflow rfl rfl ?_))
  · exact congrArg (fun res => decide (res = 0)) hres
  · exact (congrArg BitVec.msb hres).trans (signBit_eq_msb _).symm
  · exact (Flags.computeParity_eq _).1.symm.trans (congrArg (fun res : BitVec w => Flags.computeParity (res.setWidth 8)) hres)

/-- `dec` keeps the carry. -/
theorem unary_dec (hw : 1 < w) (a : BitVec w) (flags : Flags) : Op.dec.unary a flags = some (dec a flags) := by
  have hoverflow := difference_one_overflow hw a flags
  have hres : (difference a 1 false flags).1 = a - 1 := by simp [difference]
  refine congrArg some (Prod.ext hres (flags_ext rfl ?_ ?_ hoverflow rfl rfl ?_))
  · exact congrArg (fun res => decide (res = 0)) hres
  · exact (congrArg BitVec.msb hres).trans (signBit_eq_msb _).symm
  · exact (Flags.computeParity_eq _).1.symm.trans (congrArg (fun res : BitVec w => Flags.computeParity (res.setWidth 8)) hres)

/-- `neg` is a difference from zero. -/
theorem unary_neg (hw : 0 < w) (a : BitVec w) (flags : Flags) : Op.neg.unary a flags = some (neg a flags) :=
  congrArg some (difference_eq_sub hw 0 a flags)

/-- `not` has no flags. -/
theorem unary_not (a : BitVec w) (flags : Flags) : Op.not.unary a flags = some (~~~a, flags) := rfl

/-- `add` of the host and of the interpreter. -/
theorem binary_add (hw : 0 < w) (a b : BitVec w) (flags : Flags) : Op.add.binary a b flags = some (add a b flags) :=
  congrArg some (sum_eq_add hw a b flags)

/-- `adc` of both. -/
theorem binary_adc (hw : 0 < w) (a b : BitVec w) (flags : Flags) : Op.adc.binary a b flags = some (adc a b flags) :=
  congrArg some (sum_eq_adc hw a b flags)

/-- `sub` of both. -/
theorem binary_sub (hw : 0 < w) (a b : BitVec w) (flags : Flags) : Op.sub.binary a b flags = some (sub a b flags) :=
  congrArg some (difference_eq_sub hw a b flags)

/-- `sbb` of both. -/
theorem binary_sbb (hw : 0 < w) (a b : BitVec w) (flags : Flags) : Op.sbb.binary a b flags = some (sbb a b flags) :=
  congrArg some (difference_eq_sbb hw a b flags)

/-- `cmp` of both, a difference without a result. -/
theorem binary_cmp (hw : 0 < w) (a b : BitVec w) (flags : Flags) :
    Op.cmp.binary a b flags = some ((sub a b flags).1, cmp a b flags) := binary_sub hw a b flags

/-- `and` of both. -/
theorem binary_and (a b : BitVec w) (flags : Flags) : Op.and.binary a b flags = some (and_ a b flags) :=
  congrArg some (logical_eq _ flags)

/-- `or` of both. -/
theorem binary_or (a b : BitVec w) (flags : Flags) : Op.or.binary a b flags = some (or_ a b flags) :=
  congrArg some (logical_eq _ flags)

/-- `xor` of both. -/
theorem binary_xor (a b : BitVec w) (flags : Flags) : Op.xor.binary a b flags = some (xor_ a b flags) :=
  congrArg some (logical_eq _ flags)

/-- `test` of both. -/
theorem binary_test (a b : BitVec w) (flags : Flags) : Op.test.binary a b flags = some (a &&& b, test a b flags) :=
  congrArg some (logical_eq _ flags)

end CpuImpl

namespace Compiler

variable {h h' : HostState} {c c' : Cpu} {width : OperandWidth} {code : List Instruction}

/-! ## What stands between the reads and the write -/

/-- A register operand is read as a part of its register. -/
theorem read_regOperand (h : HostState) (width : OperandWidth) (r : Reg) :
    h.read width (regOperand width r) = some (h.getPart width (part width r)) := by
  cases width <;> rfl

/-- It is written as one. -/
theorem write_regOperand (h : HostState) (width : OperandWidth) (r : Reg) (value : BitVec width.bits) :
    h.write width (regOperand width r) value = some (h.setPart width (part width r) value) := by
  cases width <;> rfl

/-- It has its width. -/
theorem width_regOperand (width : OperandWidth) (r : Reg) : (regOperand width r).width = some width := by
  cases width <;> rfl

/-- It is an operand. -/
theorem regOperand_ne_void (width : OperandWidth) (r : Reg) : regOperand width r ≠ .void := by
  cases width <;> exact fun hvoid => Operand.noConfusion hvoid

variable {flags : Flags} {imm : BitVec 64} {dst : Mem}

/-- An instruction with two operands computes on what they hold. -/
theorem perform_binary {op : Op} {out in1 in2 : Operand} {a b res : BitVec width.bits}
    (hwidth : in1.width = some width) (ha : h.read width in1 = some a) (hb : h.read width in2 = some b)
    (hop : op.binary a b h.flags = some (res, flags)) :
    h.perform { op := op, out := out, in1 := in1, in2 := in2 } =
      if out = .void then some { h with flags := flags } else HostState.write { h with flags := flags } width out res := by
  cases op with
  | add | adc | sub | sbb | cmp | and | or | xor | test => simp [HostState.perform, hwidth, ha, hb, hop]
  | _ => exact absurd hop (Option.some_ne_none _).symm

/-! ## The steps of a translation -/

/-- Both sides set the same flags. -/
theorem Simulates.setFlags (hs : Simulates h c) (flags : Flags) : Simulates { h with flags := flags } (c.setFlags flags) where
  represents := ⟨hs.represents.register, hs.represents.writable, rfl, hs.represents.fsBase, hs.represents.segment,
    hs.represents.zero, hs.represents.byte, hs.represents.apart, hs.represents.argument⟩
  placed := hs.placed

/-- What the instruction between the reads and the write does: it sets the flags and has its result in `GPR0`, if one is needed. -/
structure Computed (h h' : HostState) (flags : Flags) (width : OperandWidth) (res : BitVec width.bits) (back : Bool) : Prop where
  scratch : Scratch { h with flags := flags } h'
  others : ∀ q, q ≠ .GPR0 → h'.gpr (get q) = h.gpr (get q)
  held : back = true → Held h' width .GPR0 res

/-- A loaded register holds a result. -/
theorem Loaded.computed {res : BitVec width.bits} (hloaded : Loaded { h with flags := flags } h' width .GPR0 res)
    (back : Bool) : Computed h h' flags width res back :=
  ⟨hloaded.scratch, hloaded.others, fun _ => hloaded.held⟩

/-- An instruction writes to an operand what `GPR0` holds. -/
def Writes (h : HostState) (c : Cpu) (dst : RM width) (write : Instruction) : Prop :=
  ∀ h' flags res c', h'.gpr (get .MEM_ADDR) = h.gpr (get .MEM_ADDR) → Simulates h' (c.setFlags flags) →
    Held h' width .GPR0 res → (c.setFlags flags).setRM dst res = some c' → ∃ h'', h'.perform write = some h'' ∧ Simulates h'' c'

/-- The result goes into a register of the guest. -/
theorem writes_reg (h : HostState) (c : Cpu) (dst : width.Reg) : Writes h c (.reg dst) (writeReg width dst .GPR0) := by
  intro h' flags res c' _ hs hheld hset
  obtain ⟨h'', hrun, hs', -⟩ := perform_writeReg hs hheld hset
  exact ⟨h'', hrun, hs'⟩

/-- The result goes into its memory. -/
theorem writes_mem {mem : Mem} {addr : MemAddr} (hat : At h addr (c.resolve mem)) :
    Writes h c (.mem mem : RM width) (writeMem width addr .GPR0) := by
  intro h' flags res c' hgpr hs hheld hset
  obtain ⟨h'', hrun, hs', -⟩ := perform_writeMem hs hheld.1 (hat.congr hgpr).sum hset
  exact ⟨h'', hrun, hs'⟩

/-- The instruction in the middle and the write behind it. -/
theorem performAll_finish (hs : Simulates h c) {dst : RM width} {write ins : Instruction} (hwrites : Writes h c dst write)
    {res : BitVec width.bits} {back : Bool}
    (hins : ∃ h', h.perform ins = some h' ∧ Computed h h' flags width res back)
    (hset : (if back then (c.setFlags flags).setRM dst res else some (c.setFlags flags)) = some c') :
    ∃ h', h.performAll (ins :: if back then [write] else []) = some h' ∧ Simulates h' c' := by
  obtain ⟨h1, hrun, hcomputed⟩ := hins
  have hs1 : Simulates h1 (c.setFlags flags) := (hs.setFlags flags).scratch hcomputed.scratch
  rw [performAll_cons_of hrun]
  cases back with
  | false =>
    obtain rfl : c.setFlags flags = c' := Option.some_inj.1 hset
    exact ⟨h1, rfl, hs1⟩
  | true =>
    obtain ⟨h2, hwrite, hs2⟩ := hwrites h1 flags res c' (hcomputed.others _ (by decide)) hs1 (hcomputed.held rfl) hset
    exact ⟨h2, performAll_cons_of hwrite, hs2⟩

/-- An operand in memory is read behind the computation of its address. -/
theorem performAll_readMem (hr : Represents h c) {r : Reg} (hr0 : r = .GPR0 ∨ r = .GPR1) {mem : Mem} {value : BitVec width.bits}
    (hget : c.getPtr width.bits (c.resolve mem) = some value) :
    ∃ h', (∀ l, h.performAll ((getAddress .MEM_ADDR .GPR0 mem).1 ++ readMem width r (getAddress .MEM_ADDR .GPR0 mem).2 :: l) =
        h'.performAll l) ∧
      Scratch h h' ∧ Held h' width r value ∧ At h' (getAddress .MEM_ADDR .GPR0 mem).2 (c.resolve mem) := by
  have hfree : Free r ∧ Reg.MEM_ADDR ≠ r := by
    rcases hr0 with rfl | rfl
    · exact ⟨.inl rfl, by decide⟩
    · exact ⟨.inr (.inl rfl), by decide⟩
  obtain ⟨h1, haddress, hplaced⟩ := performAll_getAddress hr (.inl rfl) (by decide) mem
  obtain ⟨h2, hread, hloaded⟩ := perform_readMem (hplaced.scratch.represents hr) hfree.1 hplaced.place.sum hget
  refine ⟨h2, fun l => ?_, hplaced.scratch.trans hloaded.scratch, hloaded.held, hplaced.place.congr (hloaded.others _ hfree.2)⟩
  rw [performAll_append_of haddress, performAll_cons_of hread]

/-! ## The families -/

/-- An operand and an immediate. -/
theorem forRMImm_simulates (hs : Simulates h c) {dst : RM width} {func : Reg → BitVec 64 → Instruction}
    {back : Bool} (hcode : forRMImm width dst imm func back = some code) {a res : BitVec width.bits}
    (ha : c.getRM dst = some a)
    (hfunc : ∀ h', h'.flags = c.flags → Held h' width .GPR0 a →
      ∃ h'', h'.perform (func .GPR0 imm) = some h'' ∧ Computed h' h'' flags width res back)
    (hset : (if back then (c.setFlags flags).setRM dst res else some (c.setFlags flags)) = some c') :
    ∃ h', h.performAll code = some h' ∧ Simulates h' c' := by
  cases dst with
  | reg dst =>
    obtain ⟨h1, hread, hloaded⟩ := perform_readReg hs.represents (.inl rfl) dst
    obtain rfl : c.get width dst = a := Option.some_inj.1 ha
    have hs1 := hs.scratch hloaded.scratch
    have hrest := performAll_finish hs1 (writes_reg h1 c dst) (hfunc h1 hs1.represents.flags hloaded.held) hset
    rw [← performAll_cons_of hread] at hrest
    exact Option.some_inj.1 hcode ▸ hrest
  | mem mem =>
    rw [forRMImm] at hcode
    split at hcode
    · cases hcode
    · obtain ⟨h1, hread, hscratch, hheld, hat⟩ := performAll_readMem hs.represents (.inl rfl) ha
      have hs1 := hs.scratch hscratch
      have hrest := performAll_finish hs1 (writes_mem hat) (hfunc h1 hs1.represents.flags hheld) hset
      rw [← hread] at hrest
      have hcode := Option.some_inj.1 hcode
      rw [List.append_assoc] at hcode
      exact hcode ▸ hrest

/-- Two operands, of which one may be in memory. -/
theorem forRMRM_simulates (hs : Simulates h c) {dst src : RM width} {func : Reg → Reg → Instruction} {back : Bool}
    (hcode : forRMRM width dst src func back = some code) {a b res : BitVec width.bits}
    (ha : c.getRM dst = some a) (hb : c.getRM src = some b)
    (hfunc : ∀ h', h'.flags = c.flags → Held h' width .GPR0 a → Held h' width .GPR1 b →
      ∃ h'', h'.perform (func .GPR0 .GPR1) = some h'' ∧ Computed h' h'' flags width res back)
    (hset : (if back then (c.setFlags flags).setRM dst res else some (c.setFlags flags)) = some c') :
    ∃ h', h.performAll code = some h' ∧ Simulates h' c' := by
  cases dst with
  | reg dst =>
    cases src with
    | reg src =>
      obtain ⟨h1, hread, hloaded⟩ := perform_readReg hs.represents (.inl rfl) dst
      obtain ⟨h2, hread2, hloaded2⟩ := perform_readReg (hloaded.scratch.represents hs.represents) (.inr (.inl rfl)) src
      obtain rfl : c.get width dst = a := Option.some_inj.1 ha
      obtain rfl : c.get width src = b := Option.some_inj.1 hb
      have hs2 := hs.scratch (hloaded.scratch.trans hloaded2.scratch)
      have hrest := performAll_finish hs2 (writes_reg h2 c dst)
        (hfunc h2 hs2.represents.flags (hloaded.held.congr (hloaded2.others _ (by decide))) hloaded2.held) hset
      rw [← performAll_cons_of hread2, ← performAll_cons_of hread] at hrest
      exact Option.some_inj.1 hcode ▸ hrest
    | mem mem =>
      rw [forRMRM] at hcode
      split at hcode
      · cases hcode
      · obtain ⟨h1, hread, hscratch, hheld, hat⟩ := performAll_readMem hs.represents (.inr rfl) hb
        obtain ⟨h2, hread2, hloaded2⟩ := perform_readReg (hscratch.represents hs.represents) (.inl rfl) dst
        obtain rfl : c.get width dst = a := Option.some_inj.1 ha
        have hs2 := hs.scratch (hscratch.trans hloaded2.scratch)
        have hrest := performAll_finish hs2 (writes_reg h2 c dst)
          (hfunc h2 hs2.represents.flags hloaded2.held (hheld.congr (hloaded2.others _ (by decide)))) hset
        rw [← performAll_cons_of hread2, ← hread] at hrest
        have hcode := Option.some_inj.1 hcode
        rw [List.append_assoc] at hcode
        exact hcode ▸ hrest
  | mem mem =>
    cases src with
    | reg src =>
      rw [forRMRM] at hcode
      split at hcode
      · cases hcode
      · obtain ⟨h1, hread, hscratch, hheld, hat⟩ := performAll_readMem hs.represents (.inl rfl) ha
        obtain ⟨h2, hread2, hloaded2⟩ := perform_readReg (hscratch.represents hs.represents) (.inr (.inl rfl)) src
        obtain rfl : c.get width src = b := Option.some_inj.1 hb
        have hs2 := hs.scratch (hscratch.trans hloaded2.scratch)
        have hrest := performAll_finish hs2 (writes_mem (hat.congr (hloaded2.others _ (by decide))))
          (hfunc h2 hs2.represents.flags (hheld.congr (hloaded2.others _ (by decide))) hloaded2.held) hset
        rw [← performAll_cons_of hread2, ← hread] at hrest
        have hcode := Option.some_inj.1 hcode
        rw [List.append_assoc] at hcode
        exact hcode ▸ hrest
    | mem src => cases hcode

/-- The form for 32 bits is that of any width. -/
theorem forRM32RM32_eq (dst src : RM .u32) (func : Reg → Reg → Instruction) (back : Bool) :
    forRM32RM32 dst src func back = forRMRM .u32 dst src func back := by
  cases dst <;> cases src <;> simp only [forRM32RM32, forRMRM, ne_eq, reduceCtorEq, not_false_eq_true, true_and] <;> rfl

/-- The form for 64 bits is that of any width. -/
theorem forRM64RM64_eq (dst src : RM .u64) (func : Reg → Reg → Instruction) (back : Bool) :
    forRM64RM64 dst src func back = forRMRM .u64 dst src func back := by
  cases dst <;> cases src <;> simp only [forRM64RM64, forRMRM, ne_eq, not_true_eq_false, false_and, if_false] <;> rfl

/-- One operand. -/
theorem forRM_simulates (hs : Simulates h c) {dst : RM width} {func : Reg → Instruction}
    (hcode : forRM width dst func = some code) {a res : BitVec width.bits} (ha : c.getRM dst = some a)
    (hfunc : ∀ h', h'.flags = c.flags → Held h' width .GPR0 a →
      ∃ h'', h'.perform (func .GPR0) = some h'' ∧ Computed h' h'' flags width res true)
    (hset : (c.setFlags flags).setRM dst res = some c') : ∃ h', h.performAll code = some h' ∧ Simulates h' c' := by
  have hsame : ∀ code', forRMImm width dst 0 (fun r _ => func r) true = some code' →
      ∃ h', h.performAll code' = some h' ∧ Simulates h' c' := fun _ hcode' => forRMImm_simulates hs hcode' ha hfunc hset
  cases dst with
  | reg dst => exact hsame code hcode
  | mem mem =>
    by_cases hseg : mem.segment = .fs
    · rw [forRM, if_pos hseg] at hcode
      cases hcode
    · by_cases hindex : mem.encoding.index = .rip
      · rw [forRM, if_neg hseg, if_pos hindex] at hcode
        cases hcode
      · rw [forRM, if_neg hseg, if_neg hindex] at hcode
        refine hsame code ?_
        rw [forRMImm, if_neg hindex, ← hcode]
        exact congrArg some (List.append_assoc _ [_, _] [_])

/-! ## What the operations compute -/

/-- What a register holds is read from it. -/
theorem read_held {r : Reg} {value : BitVec width.bits} (hheld : Held h width r value) :
    h.read width (regOperand width r) = some value := by
  rw [read_regOperand, getPart_part, hheld.1]

/-- An immediate of 64 bits has to be a sign extension of 32. -/
theorem read_immOperand (h : HostState) (width : OperandWidth)
    (himm : width = .u64 → imm = (imm.setWidth 32).signExtend 64) :
    h.read width (width.immOperand imm) = some (imm.setWidth width.bits) := by
  cases width with
  | u8 | u16 | u32 => rfl
  | u64 => exact congrArg some ((himm rfl).symm.trans (BitVec.setWidth_eq _).symm)

/-- A result is computed into `GPR0`. -/
theorem perform_computing {op : Op} {a b res : BitVec width.bits} (hop : op.binary a b h.flags = some (res, flags))
    {in2 : Operand} (hb : h.read width in2 = some b) (ha : Held h width .GPR0 a) :
    ∃ h', h.perform { op := op, out := regOperand width .GPR0, in1 := regOperand width .GPR0, in2 := in2 } = some h' ∧
      Computed h h' flags width res true := by
  refine ⟨_, ?_, (loaded_setPart (.inl rfl) res).computed true⟩
  rw [perform_binary (width_regOperand width _) (read_held ha) hb hop, if_neg (regOperand_ne_void width _), write_regOperand]

/-- A comparison changes nothing but the flags. -/
theorem perform_comparing {op : Op} {a b res : BitVec width.bits}
    (hop : op.binary a b h.flags = some (res, flags)) {in2 : Operand} (hb : h.read width in2 = some b)
    (ha : Held h width .GPR0 a) :
    ∃ h', h.perform { op := op, in1 := regOperand width .GPR0, in2 := in2 } = some h' ∧
      Computed h h' flags width res false := by
  refine ⟨{ h with flags := flags }, ?_, Scratch.refl _, fun _ _ => rfl, fun hback => absurd hback (by decide)⟩
  rw [perform_binary (width_regOperand width _) (read_held ha) hb hop, if_pos rfl]

/-- `GPR0` is changed in place. -/
theorem perform_changing {op : Op} {a res : BitVec width.bits} (hop : op.unary a h.flags = some (res, flags))
    (ha : Held h width .GPR0 a) :
    ∃ h', h.perform (changing op width .GPR0) = some h' ∧ Computed h h' flags width res true := by
  refine ⟨_, ?_, (loaded_setPart (.inl rfl) res).computed true⟩
  have hwidth := width_regOperand width .GPR0
  have hread := read_held ha
  have hwrite := write_regOperand { h with flags := flags } width .GPR0 res
  cases op with
  | inc | dec | neg | not => simp [HostState.perform, changing, hwidth, hread, hop, hwrite]
  | _ => exact absurd hop (Option.some_ne_none _).symm

section Families

variable {dst src : RM width} {imm : BitVec 64} {op : Op}

/-- An operation on two operands. -/
theorem binary_rm (hs : Simulates h c) {impl : BinaryOp width}
    (himpl : ∀ a b flags, op.binary a b flags = some (impl a b flags))
    (hcode : forRMRM width dst src (computing op width) true = some code)
    (hexec : c.execBinary width impl dst (.rm src) = some c') : ∃ h', h.performAll code = some h' ∧ Simulates h' c' := by
  obtain ⟨a, ha, hexec⟩ := Option.bind_eq_some_iff.1 hexec
  obtain ⟨b, hb, hexec⟩ := Option.bind_eq_some_iff.1 hexec
  refine forRMRM_simulates hs hcode ha hb (fun h' hflags hheld hheld' => ?_) hexec
  rw [← hflags]
  exact perform_computing (himpl a b _) (read_held hheld') hheld

/-- An operation with an immediate. -/
theorem binary_imm (hs : Simulates h c) {impl : BinaryOp width}
    (himpl : ∀ a b flags, op.binary a b flags = some (impl a b flags))
    (himm : width = .u64 → imm = (imm.setWidth 32).signExtend 64)
    (hcode : forRMImm width dst imm (computingImm op width) true = some code)
    (hexec : c.execBinary width impl dst (.imm imm) = some c') : ∃ h', h.performAll code = some h' ∧ Simulates h' c' := by
  obtain ⟨a, ha, hexec⟩ := Option.bind_eq_some_iff.1 hexec
  refine forRMImm_simulates hs hcode ha (fun h' hflags hheld => ?_) hexec
  rw [← hflags]
  exact perform_computing (himpl a _ _) (read_immOperand h' width himm) hheld

/-- A comparison of two operands. -/
theorem compare_rm (hs : Simulates h c) {impl : BitVec width.bits → BitVec width.bits → Flags → Flags}
    {res : BitVec width.bits → BitVec width.bits → Flags → BitVec width.bits}
    (himpl : ∀ a b flags, op.binary a b flags = some (res a b flags, impl a b flags))
    (hcode : forRMRM width dst src (comparing op width) false = some code)
    (hexec : c.execCompare width impl dst (.rm src) = some c') : ∃ h', h.performAll code = some h' ∧ Simulates h' c' := by
  obtain ⟨a, ha, hexec⟩ := Option.bind_eq_some_iff.1 hexec
  obtain ⟨b, hb, hexec⟩ := Option.bind_eq_some_iff.1 hexec
  have hfunc : ∀ h', h'.flags = c.flags → Held h' width .GPR0 a → Held h' width .GPR1 b →
      ∃ h'', h'.perform (comparing op width .GPR0 .GPR1) = some h'' ∧
        Computed h' h'' (impl a b c.flags) width (res a b c.flags) false := by
    intro h' hflags hheld hheld'
    rw [← hflags]
    exact perform_comparing (himpl a b _) (read_held hheld') hheld
  exact forRMRM_simulates hs hcode ha hb hfunc hexec

/-- A comparison with an immediate. -/
theorem compare_imm (hs : Simulates h c) {impl : BitVec width.bits → BitVec width.bits → Flags → Flags}
    {res : BitVec width.bits → BitVec width.bits → Flags → BitVec width.bits}
    (himpl : ∀ a b flags, op.binary a b flags = some (res a b flags, impl a b flags))
    (himm : width = .u64 → imm = (imm.setWidth 32).signExtend 64)
    (hcode : forRMImm width dst imm (comparingImm op width) false = some code)
    (hexec : c.execCompare width impl dst (.imm imm) = some c') : ∃ h', h.performAll code = some h' ∧ Simulates h' c' := by
  obtain ⟨a, ha, hexec⟩ := Option.bind_eq_some_iff.1 hexec
  have hfunc : ∀ h', h'.flags = c.flags → Held h' width .GPR0 a →
      ∃ h'', h'.perform (comparingImm op width .GPR0 imm) = some h'' ∧
        Computed h' h'' (impl a (imm.setWidth width.bits) c.flags) width (res a (imm.setWidth width.bits) c.flags) false := by
    intro h' hflags hheld
    rw [← hflags]
    exact perform_comparing (himpl a _ _) (read_immOperand h' width himm) hheld
  exact forRMImm_simulates hs hcode ha hfunc hexec

/-- An operation on one operand. -/
theorem unary_rm (hs : Simulates h c) {impl : UnaryOp width} (himpl : ∀ a flags, op.unary a flags = some (impl a flags))
    (hcode : forRM width dst (changing op width) = some code) (hexec : c.execUnary width impl dst = some c') :
    ∃ h', h.performAll code = some h' ∧ Simulates h' c' := by
  obtain ⟨a, ha, hexec⟩ := Option.bind_eq_some_iff.1 hexec
  refine forRM_simulates hs hcode ha (fun h' hflags hheld => ?_) hexec
  rw [← hflags]
  exact perform_changing (himpl a _) hheld

/-- `neg` is translated like an operation with an immediate. -/
theorem unary_imm (hs : Simulates h c) {impl : UnaryOp width} (himpl : ∀ a flags, op.unary a flags = some (impl a flags))
    (hcode : forRMImm width dst 0 (fun dst _ => changing op width dst) true = some code)
    (hexec : c.execUnary width impl dst = some c') : ∃ h', h.performAll code = some h' ∧ Simulates h' c' := by
  obtain ⟨a, ha, hexec⟩ := Option.bind_eq_some_iff.1 hexec
  refine forRMImm_simulates hs hcode ha (fun h' hflags hheld => ?_) hexec
  rw [← hflags]
  exact perform_changing (himpl a _) hheld

end Families

/-! ## Extensions -/

/-- A shorter operand is extended into a register. -/
theorem extend_simulates (hs : Simulates h c) {srcWidth : OperandWidth} {op : Op}
    {extension : (v : Nat) → BitVec srcWidth.bits → BitVec v}
    (hop : ∀ h' value, Held h' srcWidth .GPR0 value →
      h'.perform { op := op, out := regOperand width .GPR0, in1 := regOperand srcWidth .GPR0 } =
        some (h'.setPart width (part width .GPR0) (extension width.bits value)))
    {dst : width.Reg} {src : RM srcWidth} (hcode : extend op width srcWidth dst src = some code)
    (hexec : c.execExtend width srcWidth extension dst src = some c') :
    ∃ h', h.performAll code = some h' ∧ Simulates h' c' := by
  obtain ⟨value, hvalue, hset⟩ := Option.bind_eq_some_iff.1 hexec
  have hins : ∀ h', Scratch h h' → Held h' srcWidth .GPR0 value →
      ∃ h'', h'.perform { op := op, out := regOperand width .GPR0, in1 := regOperand srcWidth .GPR0 } = some h'' ∧
        Computed h' h'' c.flags width (extension width.bits value) true := by
    intro h' hscratch hheld
    have hflags : h'.flags = c.flags := hscratch.flags.trans hs.represents.flags
    exact ⟨_, hop h' value hheld, hflags ▸ (loaded_setPart (.inl rfl) _).computed true⟩
  cases src with
  | reg src =>
    obtain ⟨h1, hread, hloaded⟩ := perform_readReg hs.represents (.inl rfl) src
    obtain rfl : c.get srcWidth src = value := Option.some_inj.1 hvalue
    have hrest := performAll_finish (hs.scratch hloaded.scratch) (writes_reg h1 c dst) (hins h1 hloaded.scratch hloaded.held) hset
    rw [← performAll_cons_of hread] at hrest
    exact Option.some_inj.1 hcode ▸ hrest
  | mem mem =>
    by_cases hseg : mem.segment = .fs
    · rw [extend, if_pos hseg] at hcode
      cases hcode
    · by_cases hindex : mem.encoding.index = .rip
      · rw [extend, if_neg hseg, if_pos hindex] at hcode
        cases hcode
      · rw [extend, if_neg hseg, if_neg hindex] at hcode
        obtain ⟨h1, hread, hscratch, hheld, -⟩ := performAll_readMem hs.represents (.inl rfl) hvalue
        have hrest := performAll_finish (hs.scratch hscratch) (writes_reg h1 c dst) (hins h1 hscratch hheld) hset
        rw [← hread] at hrest
        exact Option.some_inj.1 hcode ▸ hrest

/-- Zeros fill a longer register. -/
theorem perform_movzx {srcWidth : OperandWidth} {value : BitVec srcWidth.bits} (hheld : Held h srcWidth .GPR0 value) :
    h.perform { op := .movzx, out := regOperand width .GPR0, in1 := regOperand srcWidth .GPR0 } =
      some (h.setPart width (part width .GPR0) (value.setWidth width.bits)) := by
  have hout := width_regOperand width .GPR0
  have hin := width_regOperand srcWidth .GPR0
  simp [HostState.perform, hout, hin, read_held hheld, write_regOperand]

/-- The sign fills a longer register. -/
theorem perform_movsx {srcWidth : OperandWidth} {value : BitVec srcWidth.bits} (hheld : Held h srcWidth .GPR0 value) :
    h.perform { op := .movsx, out := regOperand width .GPR0, in1 := regOperand srcWidth .GPR0 } =
      some (h.setPart width (part width .GPR0) (value.signExtend width.bits)) := by
  have hout := width_regOperand width .GPR0
  have hin := width_regOperand srcWidth .GPR0
  simp [HostState.perform, hout, hin, read_held hheld, write_regOperand]

/-! ## Moves -/

/-- An immediate is loaded into a scratch register. -/
theorem perform_loadImm (h : HostState) (width : OperandWidth) {dst : Reg} (hdst : Free dst) (imm : BitVec 64) :
    ∃ h', h.perform (loadImm width dst imm) = some h' ∧ Loaded h h' width dst (imm.setWidth width.bits) := by
  refine ⟨_, ?_, loaded_setPart hdst _⟩
  cases width with
  | u8 | u16 | u32 => rfl
  | u64 => exact congrArg (fun value => some (h.setPart .u64 (get dst) value)) (BitVec.setWidth_eq imm).symm

/-- The last instruction. -/
theorem performAll_last {ins : Instruction} (hins : h.perform ins = some h') : h.performAll [ins] = some h' :=
  performAll_cons_of hins

/-- A move between registers. -/
theorem movRR_simulates (hs : Simulates h c) {dst src : width.Reg}
    (hcode : movRR width dst src = some code) (hexec : c.execMovRR width dst src = some c') :
    ∃ h', h.performAll code = some h' ∧ Simulates h' c' := by
  obtain ⟨h1, hread, hloaded⟩ := perform_readReg hs.represents (.inl rfl) src
  obtain ⟨h2, hwrite, hs2, -⟩ := perform_writeReg (hs.scratch hloaded.scratch) hloaded.held hexec
  obtain rfl := Option.some_inj.1 hcode
  exact ⟨h2, (performAll_cons_of hread).trans (performAll_last hwrite), hs2⟩

/-- A load. -/
theorem movRM_simulates (hs : Simulates h c) {dst : width.Reg} {src : Mem}
    (hcode : movRM width dst src = some code) (hexec : c.execMovRM width dst src = some c') :
    ∃ h', h.performAll code = some h' ∧ Simulates h' c' := by
  obtain ⟨value, hvalue, hset⟩ := Option.bind_eq_some_iff.1 hexec
  obtain ⟨h1, haddress, hplaced⟩ := performAll_getAddress hs.represents (.inr (.inl rfl)) (by decide) src
  have hs1 := hs.scratch hplaced.scratch
  obtain ⟨h2, hread, hloaded⟩ := perform_readMem hs1.represents (.inl rfl) hplaced.place.sum hvalue
  obtain ⟨h3, hwrite, hs3, -⟩ := perform_writeReg (hs1.scratch hloaded.scratch) hloaded.held hset
  obtain rfl := Option.some_inj.1 hcode
  exact ⟨h3, (performAll_append_of haddress).trans ((performAll_cons_of hread).trans (performAll_last hwrite)), hs3⟩

/-- A store. -/
theorem movMR_simulates (hs : Simulates h c) {src : width.Reg}
    (hcode : movMR width dst src = some code) (hexec : c.execMovMR width dst src = some c') :
    ∃ h', h.performAll code = some h' ∧ Simulates h' c' := by
  obtain ⟨h1, haddress, hplaced⟩ := performAll_getAddress hs.represents (.inr (.inl rfl)) (by decide) dst
  have hs1 := hs.scratch hplaced.scratch
  obtain ⟨h2, hread, hloaded⟩ := perform_readReg hs1.represents (.inl rfl) src
  obtain ⟨h3, hwrite, hs3, -⟩ := perform_writeMem (hs1.scratch hloaded.scratch) hloaded.held.1
    (hplaced.place.congr (hloaded.others _ (by decide))).sum hexec
  obtain rfl := Option.some_inj.1 hcode
  exact ⟨h3, (performAll_append_of haddress).trans ((performAll_cons_of hread).trans (performAll_last hwrite)), hs3⟩

/-- What is in `GPR0` before the address of an operand is computed is written there. -/
theorem performAll_writeMem (hs : Simulates h c) {value : BitVec width.bits}
    (hvalue : (h.gpr (get .GPR0)).setWidth width.bits = value) (hset : c.setPtr (c.resolve dst) value = some c') :
    ∃ h', h.performAll ((getAddress .MEM_ADDR .GPR1 dst).1 ++ [writeMem width (getAddress .MEM_ADDR .GPR1 dst).2 .GPR0]) =
        some h' ∧ Simulates h' c' := by
  obtain ⟨h1, haddress, hplaced⟩ := performAll_getAddress hs.represents (.inr (.inl rfl)) (by decide) dst
  rw [← hplaced.others .GPR0 (by decide) (by decide)] at hvalue
  obtain ⟨h2, hwrite, hs2, -⟩ := perform_writeMem (hs.scratch hplaced.scratch) hvalue hplaced.place.sum hset
  exact ⟨h2, (performAll_append_of haddress).trans (performAll_last hwrite), hs2⟩

/-- An immediate goes into a register. -/
theorem movRImm_simulates (hs : Simulates h c) {immWidth : OperandWidth} {dst : width.Reg} {imm' : BitVec 64}
    (himm : ∀ h', Held h' immWidth .GPR0 (imm'.setWidth immWidth.bits) → Held h' width .GPR0 (imm.setWidth width.bits))
    (hcode : movRImm width immWidth dst imm' = some code)
    (hexec : c.execMovRImm width dst imm = some c') : ∃ h', h.performAll code = some h' ∧ Simulates h' c' := by
  obtain ⟨h1, hload, hloaded⟩ := perform_loadImm h immWidth (.inl rfl) imm'
  obtain ⟨h2, hwrite, hs2, -⟩ := perform_writeReg (hs.scratch hloaded.scratch) (himm h1 hloaded.held) hexec
  obtain rfl := Option.some_inj.1 hcode
  exact ⟨h2, (performAll_cons_of hload).trans (performAll_last hwrite), hs2⟩

/-- An immediate goes into memory. -/
theorem movMImm_simulates (hs : Simulates h c) {immWidth : OperandWidth} {imm' : BitVec 64}
    (himm : ∀ h', Held h' immWidth .GPR0 (imm'.setWidth immWidth.bits) →
      (h'.gpr (get .GPR0)).setWidth width.bits = imm.setWidth width.bits)
    (hcode : movMImm width immWidth dst imm' = some code)
    (hexec : c.execMovMImm width dst imm = some c') : ∃ h', h.performAll code = some h' ∧ Simulates h' c' := by
  obtain ⟨h1, hload, hloaded⟩ := perform_loadImm h immWidth (.inl rfl) imm'
  obtain ⟨h2, hrest, hs2⟩ := performAll_writeMem (hs.scratch hloaded.scratch) (himm h1 hloaded.held) hexec
  obtain rfl := Option.some_inj.1 hcode
  exact ⟨h2, (performAll_cons_of hload).trans hrest, hs2⟩

/-- A byte is stored. -/
theorem movM8R8_simulates (hs : Simulates h c) {src : R8}
    (hcode : tryCompileMovM8R8 dst src = some code) (hexec : c.execMovMR .u8 dst src = some c') :
    ∃ h', h.performAll code = some h' ∧ Simulates h' c' := by
  by_cases hseg : dst.segment = .fs
  · rw [tryCompileMovM8R8, if_pos hseg] at hcode
    cases hcode
  · rw [tryCompileMovM8R8, if_neg hseg] at hcode
    obtain ⟨h1, hread, hloaded⟩ := @perform_readReg h c .u8 hs.represents .GPR0 (.inl rfl) src
    obtain ⟨h2, hrest, hs2⟩ := performAll_writeMem (hs.scratch hloaded.scratch) hloaded.held.1 hexec
    obtain rfl := Option.some_inj.1 hcode
    exact ⟨h2, (performAll_cons_of hread).trans hrest, hs2⟩

/-! ## Conditions and addresses -/

/-- Host and interpreter read a condition alike. -/
theorem holds_eq (flags : Flags) (cond : Cond) : cond.holds flags = Cpu.flagsMatch flags cond := by
  cases cond <;> simp [Cond.holds, Cpu.flagsMatch]

/-- A condition becomes a byte. -/
theorem setRM8_simulates (hs : Simulates h c) {cond : Cond} {dst : RM .u8} (hread : (c.getRM dst).isSome)
    (hcode : tryCompileSetRM8 cond dst = some code) (hexec : c.execSetRM8 cond dst = some c') :
    ∃ h', h.performAll code = some h' ∧ Simulates h' c' := by
  obtain ⟨a, ha⟩ := Option.isSome_iff_exists.1 hread
  rw [tryCompileSetRM8, forRM8Imm] at hcode
  refine forRMImm_simulates hs hcode ha (fun h' hflags _ => ?_) hexec
  have hloaded := @loaded_setPart h' .u8 .GPR0 (.inl rfl) ((BitVec.ofBool (cond.holds h'.flags)).setWidth 8)
  rw [← hflags, ← holds_eq]
  exact ⟨_, rfl, hloaded.computed true⟩

/-- A move under a condition. -/
theorem perform_cmov (h : HostState) (width : OperandWidth) {cond : Cond} {a b : BitVec width.bits} {registers : List R64}
    (ha : Held h width .GPR0 a) (hb : Held h width .GPR1 b) :
    ∃ h', h.perform {
        op := .cmov, out := regOperand width .GPR0, in1 := regOperand width .GPR1, condition := some cond
        impactedRegisters64 := registers } = some h' ∧
      Computed h h' h.flags width (if cond.holds h.flags then b else a) true := by
  refine ⟨_, ?_, (loaded_setPart (.inl rfl) _).computed true⟩
  have hout := width_regOperand width .GPR0
  simp [HostState.perform, hout, read_held ha, read_held hb, write_regOperand]

/-- A register that is written with its own value stays, and so does what it is the only part of. -/
theorem setGpr_self (c : Cpu) (reg : R64) : c.setGpr reg (c.gpr reg) = c := by
  have hgpr : (fun r => if r = reg then c.gpr reg else c.gpr r) = c.gpr := by
    funext r
    split
    · rename_i hr
      rw [hr]
    · rfl
  rw [Cpu.setGpr, hgpr]

/-- An address becomes a value. -/
theorem lea_simulates (hs : Simulates h c) {address : Encoding64} {lea : Instruction} {value : BitVec width.bits}
    (hlea : ∀ (h' : HostState) a, h'.address (leaOperand address).2 = some a → a = c.resolveEncoding address →
      h'.perform lea = some (h'.setPart width (part width .GPR0) value))
    {dst : width.Reg} (hset : c.set width dst value = some c') :
    ∃ h', h.performAll ((leaOperand address).1 ++ [lea, writeReg width dst .GPR0]) = some h' ∧ Simulates h' c' := by
  obtain ⟨h1, hbase, hloaded⟩ := perform_readReg64 hs.represents (.inl rfl) address.base
  -- the registers of the address, and the operand behind them
  obtain ⟨h2, hreads, hscratch, haddress⟩ : ∃ h2, h.performAll (leaOperand address).1 = some h2 ∧ Scratch h h2 ∧
      h2.address (leaOperand address).2 = some (c.resolveEncoding address) := by
    by_cases hindex : address.index = .zero
    · refine ⟨h1, ?_, hloaded.scratch, ?_⟩
      · rw [leaOperand, if_pos hindex]
        exact performAll_last hbase
      · rw [leaOperand, if_pos hindex, address_base h1 (get_ne_zero _), hloaded.held.gpr_eq, Cpu.resolveEncoding, hindex,
          hs.represents.zero]
        simp
    · obtain ⟨h2, hread, hloaded2⟩ := perform_readReg64 (hloaded.scratch.represents hs.represents) (.inr (.inl rfl))
        address.index
      refine ⟨h2, ?_, hloaded.scratch.trans hloaded2.scratch, ?_⟩
      · rw [leaOperand, if_neg hindex]
        exact (performAll_cons_of hbase).trans (performAll_last hread)
      · rw [leaOperand, if_neg hindex, address_index h2 (.inl rfl) (get_ne_zero _) (get_ne_zero _), hloaded2.held.gpr_eq,
          hloaded2.others _ (by decide), hloaded.held.gpr_eq, Cpu.resolveEncoding, BitVec.mul_comm]
  have hloaded3 := @loaded_setPart h2 width .GPR0 (.inl rfl) value
  obtain ⟨h4, hwrite, hs4, -⟩ := perform_writeReg ((hs.scratch hscratch).scratch hloaded3.scratch) hloaded3.held hset
  refine ⟨h4, ?_, hs4⟩
  rw [performAll_append_of hreads, performAll_cons_of (hlea h2 _ haddress rfl), performAll_last hwrite]

/-- `lea` to 32 bits. -/
theorem leaR32_simulates (hs : Simulates h c) {dst : R32} {address : Encoding64}
    (hcode : tryCompileLeaR32Enc64 dst address = some code) (hexec : c.execLeaR32Encoding64 dst address = some c') :
    ∃ h', h.performAll code = some h' ∧ Simulates h' c' := by
  obtain rfl := Option.some_inj.1 hcode
  refine @lea_simulates h c c' .u32 hs address _ _ (fun h' a haddress ha => ?_) dst hexec
  subst ha
  exact congrArg (Option.map _) haddress

/-- `lea` to 64 bits. -/
theorem leaR64_simulates (hs : Simulates h c) {dst : R64} {address : Encoding64}
    (hcode : tryCompileLeaR64Enc64 dst address = some code) (hexec : c.execLeaR64Encoding64 dst address = some c') :
    ∃ h', h.performAll code = some h' ∧ Simulates h' c' := by
  obtain rfl := Option.some_inj.1 hcode
  refine @lea_simulates h c c' .u64 hs address _ _ (fun h' a haddress ha => ?_) dst hexec
  subst ha
  exact congrArg (Option.map _) haddress

/-! ## The stack -/

/-- A register moves by an offset. -/
theorem perform_leaOffset (h : HostState) {dst : Reg} (hdst : Free dst) (off : Int32) :
    ∃ h', h.perform (leaOffset dst off) = some h' ∧ Loaded h h' .u64 dst (h.gpr (get dst) + BitVec.ofInt 64 off.toInt) := by
  refine ⟨_, ?_, loaded_setPart hdst _⟩
  exact congrArg (Option.map _) (address_base h (get_ne_zero dst) off)

/-- `GPR0` is pushed on the stack of the guest. -/
theorem pushGpr0_simulates (hs : Simulates h c) {value : BitVec 64} (hheld : Held h .u64 .GPR0 value)
    (hexec : c.push64 value = some c') : ∃ h', h.performAll pushGpr0 = some h' ∧ Simulates h' c' := by
  have hoff : BitVec.ofInt 64 (-8 : Int32).toInt = -8 := by decide
  have hzero : BitVec.ofInt 64 (0 : Int32).toInt = 0 := by decide
  obtain ⟨h1, hread, hloaded⟩ := perform_readReg64 hs.represents (.inr (.inl rfl)) .rsp
  obtain ⟨h2, hlea, hloaded2⟩ := perform_leaOffset h1 (.inr (.inl rfl)) (-8)
  obtain ⟨h3, hwrite, hs3, hgpr⟩ := perform_writeReg64 ((hs.scratch hloaded.scratch).scratch hloaded2.scratch)
    (show R64.rsp ≠ .zero by decide) .GPR1
  have hrsp : h2.gpr (get .GPR1) = c.gpr .rsp - 8 := by
    rw [hloaded2.held.gpr_eq, hloaded.held.gpr_eq, hoff, BitVec.sub_eq_add_neg]
  rw [hrsp] at hs3
  have hvalue : (h3.gpr (get .GPR0)).setWidth 64 = value := by
    rw [hgpr, hloaded2.others _ (by decide), hloaded.others _ (by decide)]
    exact hheld.1
  have haddr : h3.gpr (get .GPR1) + BitVec.ofInt 64 (0 : Int32).toInt = c.gpr .rsp - 8 := by
    rw [hgpr, hrsp, hzero]
    exact BitVec.add_zero _
  obtain ⟨h4, hstore, hs4, -⟩ := @perform_writeMem h3 _ c' .u64 _ hs3 .GPR0 value hvalue ⟨.GPR1, 0⟩ haddr hexec
  exact ⟨h4, (performAll_cons_of hread).trans ((performAll_cons_of hlea).trans ((performAll_cons_of hwrite).trans
    (performAll_last hstore))), hs4⟩

/-- An immediate is pushed. -/
theorem pushImm_simulates (hs : Simulates h c)
    (hcode : tryCompilePushImm imm = some code) (hexec : c.execPushImm imm = some c') :
    ∃ h', h.performAll code = some h' ∧ Simulates h' c' := by
  obtain ⟨h1, hload, hloaded⟩ := perform_loadImm h .u64 (.inl rfl) ((imm.setWidth 32).signExtend 64)
  obtain ⟨h2, hpush, hs2⟩ := pushGpr0_simulates (hs.scratch hloaded.scratch) (held_u64 hloaded.held.gpr_eq)
    ((congrArg (c.push64 ·) (BitVec.setWidth_eq _)).trans hexec)
  obtain rfl := Option.some_inj.1 hcode
  exact ⟨h2, (performAll_cons_of hload).trans hpush, hs2⟩

/-- An operand is pushed. -/
theorem pushRM64_simulates (hs : Simulates h c) {src : RM .u64}
    (hcode : tryCompilePushRM64 src = some code) (hexec : c.execPushRM64 src = some c') :
    ∃ h', h.performAll code = some h' ∧ Simulates h' c' := by
  obtain ⟨value, hvalue, hpush⟩ := Option.bind_eq_some_iff.1 hexec
  cases src with
  | reg src =>
    obtain ⟨h1, hread, hloaded⟩ := perform_readReg64 hs.represents (.inl rfl) src
    obtain rfl : c.gpr src = value := Option.some_inj.1 hvalue
    obtain ⟨h2, hrest, hs2⟩ := pushGpr0_simulates (hs.scratch hloaded.scratch) hloaded.held hpush
    obtain rfl := Option.some_inj.1 hcode
    exact ⟨h2, (performAll_cons_of hread).trans hrest, hs2⟩
  | mem mem =>
    by_cases hseg : mem.segment = .fs
    · rw [tryCompilePushRM64, if_pos hseg] at hcode
      cases hcode
    · by_cases hindex : mem.encoding.index = .rip
      · rw [tryCompilePushRM64, if_neg hseg, if_pos hindex] at hcode
        cases hcode
      · rw [tryCompilePushRM64, if_neg hseg, if_neg hindex] at hcode
        obtain ⟨h1, hread, hscratch, hheld, -⟩ := performAll_readMem hs.represents (.inl rfl) hvalue
        obtain ⟨h2, hrest, hs2⟩ := pushGpr0_simulates (hs.scratch hscratch) hheld hpush
        obtain rfl := Option.some_inj.1 hcode
        exact ⟨h2, (hread pushGpr0).trans hrest, hs2⟩

/-- A register is popped. -/
theorem popR64_simulates (hs : Simulates h c) {dst : R64}
    (hcode : tryCompilePopR64 dst = some code) (hexec : c.execPopR64 dst = some c') :
    ∃ h', h.performAll code = some h' ∧ Simulates h' c' := by
  have hoff : BitVec.ofInt 64 (8 : Int32).toInt = 8 := by decide
  have hzero : BitVec.ofInt 64 (0 : Int32).toInt = 0 := by decide
  obtain ⟨⟨value, c1⟩, hpop, hset⟩ := Option.bind_eq_some_iff.1 hexec
  obtain ⟨value', hvalue, hpop⟩ := Option.bind_eq_some_iff.1 hpop
  obtain ⟨rfl, rfl⟩ : value' = value ∧ c.setGpr .rsp (c.gpr .rsp + 8) = c1 := Prod.mk.inj (Option.some_inj.1 hpop)
  obtain ⟨h1, hread, hloaded⟩ := perform_readReg64 hs.represents (.inr (.inl rfl)) .rsp
  have hs1 := hs.scratch hloaded.scratch
  have haddr : h1.gpr (get .GPR1) + BitVec.ofInt 64 (0 : Int32).toInt = c.gpr .rsp := by
    rw [hloaded.held.gpr_eq, hzero]
    exact BitVec.add_zero _
  obtain ⟨h2, hpopped, hloaded2⟩ := @perform_readMem h1 c .u64 _ hs1.represents .GPR0 (.inl rfl) ⟨.GPR1, 0⟩ haddr _ hvalue
  obtain ⟨h3, hlea, hloaded3⟩ := perform_leaOffset h2 (.inr (.inl rfl)) 8
  obtain ⟨h4, hwrite, hs4, hgpr⟩ := perform_writeReg64 ((hs1.scratch hloaded2.scratch).scratch hloaded3.scratch)
    (show R64.rsp ≠ .zero by decide) .GPR1
  have hrsp : h3.gpr (get .GPR1) = c.gpr .rsp + 8 := by
    rw [hloaded3.held.gpr_eq, hloaded2.others _ (by decide), hloaded.held.gpr_eq, hoff]
  rw [hrsp] at hs4
  have hheld : Held h4 .u64 .GPR0 value' :=
    (hloaded2.held.congr (hloaded3.others _ (by decide))).congr (congrFun hgpr _)
  obtain ⟨h5, hlast, hs5, -⟩ := @perform_writeReg h4 _ c' .u64 hs4 .GPR0 value' hheld dst hset
  obtain rfl := Option.some_inj.1 hcode
  exact ⟨h5, (performAll_cons_of hread).trans ((performAll_cons_of hpopped).trans ((performAll_cons_of hlea).trans
    ((performAll_cons_of hwrite).trans (performAll_last hlast)))), hs5⟩

/-- A frame is left. -/
theorem leave_simulates (hs : Simulates h c) (hcode : tryCompileLeave = some code)
    (hexec : c.execLeave = some c') : ∃ h', h.performAll code = some h' ∧ Simulates h' c' := by
  obtain ⟨h1, hread, hloaded⟩ := perform_readReg64 hs.represents (.inl rfl) .rbp
  obtain ⟨h2, hwrite, hs2, -⟩ := perform_writeReg64 (hs.scratch hloaded.scratch) (show R64.rsp ≠ .zero by decide) .GPR0
  rw [hloaded.held.gpr_eq] at hs2
  obtain ⟨⟨value, c1⟩, hpop, hset⟩ := Option.bind_eq_some_iff.1 hexec
  have hexec' : (c.setGpr .rsp (c.gpr .rbp)).execPopR64 .rbp = some c' := by
    rw [Cpu.execPopR64, hpop]
    exact hset
  obtain ⟨h3, hrest, hs3⟩ := popR64_simulates hs2 rfl hexec'
  obtain rfl := Option.some_inj.1 hcode
  exact ⟨h3, (performAll_cons_of hread).trans ((performAll_cons_of hwrite).trans hrest), hs3⟩

/-- The instruction pointer is advanced before an instruction. -/
theorem tryAdvanceInstructionPointer_simulates (hs : Simulates h c) (next : BitVec 64) :
    ∃ h', h.performAll (tryAdvanceInstructionPointer next) = some h' ∧ Simulates h' (c.setGpr .rip next) := by
  have hrip : R64.rip ≠ .zero := by decide
  by_cases hfits : next = (next.setWidth 32).signExtend 64
  · refine ⟨_, ?_, hs.setGpr hrip next⟩
    rw [tryAdvanceInstructionPointer, writeReg64Imm, if_pos hfits]
    refine performAll_last ?_
    change (h.address ⟨.cs, make64 .rsi (registerOffset .rip)⟩).bind
      (fun a => h.store .u64 a ((next.setWidth 32).signExtend 64)) = _
    rw [address_base h (by decide), Option.bind_some, ← hfits]
    exact if_pos (hs.represents.writable .rip)
  · obtain ⟨h1, hload, hloaded⟩ := perform_loadImm h .u64 (.inl rfl) next
    obtain ⟨h2, hwrite, hs2, -⟩ := perform_writeReg64 (hs.scratch hloaded.scratch) hrip .GPR0
    rw [hloaded.held.gpr_eq, show (next.setWidth OperandWidth.u64.bits) = next from BitVec.setWidth_eq _] at hs2
    refine ⟨h2, ?_, hs2⟩
    rw [tryAdvanceInstructionPointer, writeReg64Imm, if_neg hfits]
    exact (performAll_cons_of hload).trans (performAll_last hwrite)

/-! ## The members that differ -/

/-- The immediate of a register of 32 bits. -/
theorem movR32Imm_simulates (hs : Simulates h c) {dst : R32}
    (hcode : tryCompileMovR32Imm dst imm = some code) (hexec : c.execMovRImm .u32 dst imm = some c') :
    ∃ h', h.performAll code = some h' ∧ Simulates h' c' := by
  refine @movRImm_simulates h c c' .u32 code imm hs .u64 dst _ (fun h' hheld => ?_) hcode hexec
  have hgpr : h'.gpr (get .GPR0) = (imm.setWidth 32).setWidth 64 := hheld.gpr_eq.trans (BitVec.setWidth_eq _)
  exact ⟨(congrArg (BitVec.setWidth 32) hgpr).trans (BitVec.setWidth_setWidth_of_le _ (by decide)), fun _ => hgpr⟩

/-- An immediate of a byte is stored. -/
theorem movM8Imm_simulates (hs : Simulates h c)
    (hcode : tryCompileMovM8Imm dst imm = some code) (hexec : c.execMovMImm .u8 dst imm = some c') :
    ∃ h', h.performAll code = some h' ∧ Simulates h' c' := by
  by_cases hseg : dst.segment = .fs
  · rw [tryCompileMovM8Imm, if_pos hseg] at hcode
    cases hcode
  · rw [tryCompileMovM8Imm, if_neg hseg] at hcode
    exact movMImm_simulates hs (fun _ hheld => hheld.1) hcode hexec

/-- An immediate that is loaded with all 64 bits gives its lower ones to the memory. -/
theorem movMImm64_simulates (hs : Simulates h c) {imm' : BitVec 64}
    (himm : imm'.setWidth width.bits = imm.setWidth width.bits) (hcode : movMImm width .u64 dst imm' = some code)
    (hexec : c.execMovMImm width dst imm = some c') : ∃ h', h.performAll code = some h' ∧ Simulates h' c' := by
  refine movMImm_simulates hs (fun h' hheld => ?_) hcode hexec
  rw [hheld.gpr_eq, ← himm]
  exact congrArg (BitVec.setWidth width.bits) (BitVec.setWidth_eq imm')

/-- An immediate of 16 bits is stored. -/
theorem movM16Imm_simulates (hs : Simulates h c)
    (hcode : tryCompileMovM16Imm dst imm = some code) (hexec : c.execMovMImm .u16 dst imm = some c') :
    ∃ h', h.performAll code = some h' ∧ Simulates h' c' := by
  have himm : ((imm.setWidth 16).setWidth 64).setWidth OperandWidth.u16.bits = imm.setWidth OperandWidth.u16.bits :=
    BitVec.setWidth_setWidth_of_le (imm.setWidth 16) (by decide)
  exact movMImm64_simulates hs himm hcode hexec

/-- An immediate of 32 bits is stored. -/
theorem movM32Imm_simulates (hs : Simulates h c)
    (hcode : tryCompileMovM32Imm dst imm = some code) (hexec : c.execMovMImm .u32 dst imm = some c') :
    ∃ h', h.performAll code = some h' ∧ Simulates h' c' := by
  have himm : ((imm.setWidth 32).signExtend 64).setWidth OperandWidth.u32.bits = imm.setWidth OperandWidth.u32.bits := by
    apply BitVec.eq_of_getLsbD_eq
    intro j hj
    have hlt : j < 32 := hj
    rw [BitVec.getLsbD_setWidth, BitVec.getLsbD_signExtend, BitVec.getLsbD_setWidth, BitVec.getLsbD_setWidth]
    simp [hlt, show j < 64 by omega, OperandWidth.bits]
  exact movMImm64_simulates hs himm hcode hexec

/-- An immediate of 64 bits is stored, if it is a sign extension. -/
theorem movM64Imm_simulates (hs : Simulates h c) (himm : imm = (imm.setWidth 32).signExtend 64)
    (hcode : tryCompileMovM64Imm dst imm = some code)
    (hexec : c.execMovMImm .u64 dst imm = some c') : ∃ h', h.performAll code = some h' ∧ Simulates h' c' := by
  have hsame : ((imm.setWidth 32).signExtend 64).setWidth OperandWidth.u64.bits = imm.setWidth OperandWidth.u64.bits :=
    congrArg (BitVec.setWidth 64) himm.symm
  exact movMImm64_simulates hs hsame hcode hexec

/-- A move of 64 bits. -/
theorem movR64R64_simulates (hs : Simulates h c) {dst src : R64}
    (hcode : tryCompileMovR64R64 dst src = some code) (hexec : c.execMovRR .u64 dst src = some c') :
    ∃ h', h.performAll code = some h' ∧ Simulates h' c' := by
  by_cases hrsp : dst = .rsp ∧ src ≠ .rbp
  · rw [tryCompileMovR64R64, if_pos hrsp] at hcode
    cases hcode
  · rw [tryCompileMovR64R64, if_neg hrsp] at hcode
    exact movRR_simulates hs hcode hexec

/-- The interpreter leaves the destination of a `cmov` alone when the condition does not hold; compiled code writes its old value. -/
theorem cmov_simulates (hs : Simulates h c) {cond : Cond} {registers : List R64} {dst : width.Reg} {src : RM width}
    {b : BitVec width.bits} (hb : c.getRM src = some b)
    (hold : Cpu.flagsMatch c.flags cond = false → c.set width dst (c.get width dst) = some c)
    (hcode : forRMRM width (.reg dst) src (fun dst src => {
      op := .cmov, out := regOperand width dst, in1 := regOperand width src, condition := some cond
      impactedRegisters64 := registers }) true = some code)
    (hexec : (if !Cpu.flagsMatch c.flags cond then some c else c.set width dst b) = some c') :
    ∃ h', h.performAll code = some h' ∧ Simulates h' c' := by
  have hset : c.set width dst (if cond.holds c.flags then b else c.get width dst) = some c' := by
    rw [holds_eq]
    cases hcond : Cpu.flagsMatch c.flags cond with
    | true =>
      rw [hcond] at hexec
      exact hexec
    | false =>
      rw [hcond] at hexec
      exact (hold hcond).trans hexec
  refine forRMRM_simulates hs hcode rfl hb (fun h' hflags hheld hheld' => ?_) hset
  rw [← hflags]
  exact perform_cmov h' width hheld hheld'

/-- The interpreter keeps the upper half of a register that is not moved to. -/
theorem cmovR32RM32_simulates (hs : Simulates h c) {cond : Cond} {dst : R32} {src : RM .u32}
    (hexact : dst ≠ .eiz ∧ (c.getRM src).isSome ∧
      (Cpu.flagsMatch c.flags cond = false → c.gpr dst.containingRegister = (c.get32 dst).setWidth 64))
    (hcode : tryCompileCmovR32RM32 cond dst src = some code)
    (hexec : c.execCmovR32RM32 cond dst src = some c') : ∃ h', h.performAll code = some h' ∧ Simulates h' c' := by
  obtain ⟨hdst, hread, hupper⟩ := hexact
  obtain ⟨b, hb⟩ := Option.isSome_iff_exists.1 hread
  rw [Cpu.execCmovR32RM32, hb, Option.bind_eq_bind, Option.bind_some] at hexec
  refine cmov_simulates hs hb (fun hcond => ?_) ((forRM32RM32_eq ..).symm.trans hcode) hexec
  have hset : c.set32 dst (c.get32 dst) = some (c.setGpr dst.containingRegister ((c.get32 dst).setWidth 64)) := by
    simp only [Cpu.set32, verify, ne_eq, hdst, not_false_eq_true, if_true]
    rfl
  rw [← hupper hcond, setGpr_self] at hset
  exact hset

/-- A conditional move of 64 bits. -/
theorem cmovR64RM64_simulates (hs : Simulates h c) {cond : Cond} {dst : R64} {src : RM .u64}
    (hexact : dst ≠ .zero ∧ (c.getRM src).isSome)
    (hcode : tryCompileCmovR64RM64 cond dst src = some code) (hexec : c.execCmovR64RM64 cond dst src = some c') :
    ∃ h', h.performAll code = some h' ∧ Simulates h' c' := by
  obtain ⟨hdst, hread⟩ := hexact
  obtain ⟨b, hb⟩ := Option.isSome_iff_exists.1 hread
  rw [Cpu.execCmovR64RM64, hb, Option.bind_eq_bind, Option.bind_some] at hexec
  refine cmov_simulates hs hb (fun _ => ?_) ((forRM64RM64_eq ..).symm.trans hcode) hexec
  have hset : c.set64 dst (c.gpr dst) = some (c.setGpr dst (c.gpr dst)) := by
    simp only [Cpu.set64, verify, ne_eq, hdst, not_false_eq_true, if_true]
    rfl
  rw [setGpr_self] at hset
  exact hset

/-! ## A host for every guest -/

/-- The host keeps the memory of the guest at its own addresses, the registers from `2 ^ 61` on, and the base of `fs` above them. -/
def mirror (c : Cpu) : HostState where
  gpr := fun
    | .rsi => 0x2000000000000000
    | .rdi => 0x4000000000000000
    | _ => 0
  flags := c.flags
  memory x :=
    if x.toNat < 2 ^ 61 then (c.mmu.memory x.toNat).toBitVec
    else if x.toNat < 2 ^ 62 then Lanes.lane 8 (c.gpr (R64.ofNat ((x.toNat - 2 ^ 61) / 8))) ((x.toNat - 2 ^ 61) % 8)
    else Lanes.lane 8 (c.segmentBase .fs) (x.toNat - 2 ^ 62 - 0x30)
  readable x := decide (2 ^ 61 ≤ x.toNat) || (c.mmu.findAddress x.toNat).any fun region => region.prot.read
  writable x := decide (2 ^ 61 ≤ x.toNat) || (c.mmu.findAddress x.toNat).any fun region => region.prot.write

/-- The cells of the registers lie from `2 ^ 61` on. -/
theorem toNat_registerCell (c : Cpu) (reg : R64) {i : Nat} (hi : i < 8) :
    (registerCell (mirror c) reg + BitVec.ofNat 64 i).toNat = 2 ^ 61 + 8 * reg.ctorIdx + i := by
  have hidx : reg.ctorIdx < 18 := by cases reg <;> decide
  rw [registerCell, registerOffset_eq]
  change (0x2000000000000000#64 + BitVec.ofNat 64 (8 * reg.ctorIdx) + BitVec.ofNat 64 i).toNat = _
  simp only [BitVec.toNat_add, BitVec.toNat_ofNat]
  omega

/-- The base of FS lies above `2 ^ 62`. -/
theorem toNat_fsBase (c : Cpu) {i : Nat} (hi : i < 8) :
    ((mirror c).gpr .rdi + 0x30 + BitVec.ofNat 64 i).toNat = 2 ^ 62 + 0x30 + i := by
  change (0x4000000000000000#64 + 0x30#64 + BitVec.ofNat 64 i).toNat = _
  simp only [BitVec.toNat_add, BitVec.toNat_ofNat]
  omega

/-- The memory of the guest lies at zero. -/
theorem toNat_guestByte (c : Cpu) {a : Nat} (ha : a < 2 ^ 53) : (guestByte (mirror c) a).toNat = a := by
  change (0#64 + BitVec.ofNat 64 a).toNat = a
  rw [BitVec.zero_add, BitVec.toNat_ofNat]
  omega

/-- Eight bytes are loaded as one value. -/
theorem load64_eq {h : HostState} {a value : BitVec 64} (hread : ∀ i < 8, h.readable (a + BitVec.ofNat 64 i) = true)
    (hbyte : ∀ i < 8, h.memory (a + BitVec.ofNat 64 i) = Lanes.lane 8 value i) : h.load64 a = some value := by
  have hmay : h.mayRead a 8 = true := by
    simp only [HostState.mayRead, List.all_eq_true, List.mem_range]
    exact hread
  refine (if_pos hmay).trans (congrArg some ?_)
  apply Lanes.ext_lane (show 8 * 8 = 64 from rfl)
  intro i hi
  exact (Window.lane_load (v := 64) (HostState.bytesAt a .u64) h.memory rfl hi).trans (hbyte i hi)

/-- What lies above the guest may be accessed. -/
theorem mirror_above (c : Cpu) {x : BitVec 64} (hx : 2 ^ 61 ≤ x.toNat) :
    (mirror c).readable x = true ∧ (mirror c).writable x = true := by
  simp only [mirror, hx, decide_true, Bool.true_or, and_self]

/-- A byte of a region may be accessed as its protection says. -/
theorem mirror_below (c : Cpu) {x : BitVec 64} (hx : x.toNat < 2 ^ 61) {region : MmuRegion}
    (hregion : c.mmu.findAddress x.toNat = some region) :
    (mirror c).memory x = (c.mmu.memory x.toNat).toBitVec ∧ (mirror c).readable x = region.prot.read ∧
      (mirror c).writable x = region.prot.write := by
  simp only [mirror, hx, if_true, Nat.not_le.2 hx, decide_false, Bool.false_or, hregion, Option.any_some, and_self]

/-- A cell holds its register. -/
theorem memory_registerCell (c : Cpu) (reg : R64) {i : Nat} (hi : i < 8) :
    (mirror c).memory (registerCell (mirror c) reg + BitVec.ofNat 64 i) = Lanes.lane 8 (c.gpr reg) i := by
  have hidx : reg.ctorIdx < 18 := by cases reg <;> decide
  obtain ⟨x, hx⟩ : ∃ x, registerCell (mirror c) reg + BitVec.ofNat 64 i = x := ⟨_, rfl⟩
  have hnat := toNat_registerCell c reg hi
  rw [hx] at hnat ⊢
  simp only [mirror, hnat]
  rw [if_neg (by omega), if_pos (by omega), show (2 ^ 61 + 8 * reg.ctorIdx + i - 2 ^ 61) / 8 = reg.ctorIdx by omega,
    show (2 ^ 61 + 8 * reg.ctorIdx + i - 2 ^ 61) % 8 = i by omega, R64.ofNat_ctorIdx]

/-- The base of FS is where it is looked for. -/
theorem memory_fsBase (c : Cpu) {i : Nat} (hi : i < 8) :
    (mirror c).memory ((mirror c).gpr .rdi + 0x30 + BitVec.ofNat 64 i) = Lanes.lane 8 (c.segmentBase .fs) i := by
  obtain ⟨x, hx⟩ : ∃ x, (mirror c).gpr .rdi + 0x30 + BitVec.ofNat 64 i = x := ⟨_, rfl⟩
  have hnat := toNat_fsBase c hi
  rw [hx] at hnat ⊢
  simp only [mirror, hnat]
  rw [if_neg (by omega), if_neg (by omega), show 2 ^ 62 + 0x30 + i - 2 ^ 62 - 0x30 = i by omega]

/-- A reachable state of the guest has a host that represents it. -/
theorem mirror_represents {host : Host} {c : Cpu} (hreach : (AddressSpace.machine host).Reachable c.mmu)
    (hsegment : ∀ seg, seg ≠ .fs → c.segmentBase seg = 0) (hzero : c.gpr .zero = 0) : Represents (mirror c) c where
  register reg := by
    refine load64_eq (fun i hi => (mirror_above c ?_).1) fun i hi => memory_registerCell c reg hi
    rw [toNat_registerCell c reg hi]
    omega
  writable reg := by
    simp only [HostState.mayWrite, List.all_eq_true, List.mem_range]
    intro i hi
    refine (mirror_above c ?_).2
    rw [toNat_registerCell c reg hi]
    omega
  flags := rfl
  fsBase := by
    refine load64_eq (fun i hi => (mirror_above c ?_).1) fun i hi => memory_fsBase c hi
    rw [toNat_fsBase c hi]
    omega
  segment := hsegment
  zero := hzero
  byte a region ha := by
    have hlt := AddressSpace.findAddress_lt hreach ha
    have hnat := toNat_guestByte c hlt
    have hbelow := mirror_below c (x := guestByte (mirror c) a) (by omega) (hnat ▸ ha)
    rwa [hnat] at hbelow
  apart a region ha := by
    have hlt := AddressSpace.findAddress_lt hreach ha
    have hnat := toNat_guestByte c hlt
    refine ⟨fun reg i hi heq => ?_, fun i hi heq => ?_⟩
    · rw [heq, toNat_registerCell c reg hi] at hnat
      omega
    · rw [heq, toNat_fsBase c hi] at hnat
      omega
  argument reg i hi j hj heq := by
    have hidx : reg.ctorIdx < 18 := by cases reg <;> decide
    have hnat := toNat_registerCell c reg hi
    rw [heq, toNat_fsBase c hj] at hnat
    omega

end Compiler

namespace Insn

open Compiler

variable {h : HostState} {c c' : Cpu}

/-- The instructions that compiled code and the interpreter do not disagree on. An immediate of 64 bits is cut to 32 of them; an
operand is read that the interpreter only writes, or does not read when a condition fails; and a register of 32 bits whose value
stays loses its upper half. -/
def Exact (ins : Insn) (c : Cpu) : Prop :=
  match ins with
  | .addRM64Imm _ imm | .subRM64Imm _ imm | .sbbRM64Imm _ imm | .cmpRM64Imm _ imm | .andRM64Imm _ imm | .orRM64Imm _ imm
  | .xorRM64Imm _ imm | .testRM64Imm _ imm | .movM64Imm _ imm => imm = (imm.setWidth 32).signExtend 64
  | .setRM8 _ dst => (c.getRM dst).isSome
  | .cmovR32RM32 cond dst src =>
    dst ≠ .eiz ∧ (c.getRM src).isSome ∧
      (Cpu.flagsMatch c.flags cond = false → c.gpr dst.containingRegister = (c.get32 dst).setWidth 64)
  | .cmovR64RM64 _ dst src => dst ≠ .zero ∧ (c.getRM src).isSome
  | _ => True

/-- What is compiled for an instruction does what its handler does. -/
theorem tryCompile_simulates (ins : Insn) (hs : Simulates h c) (hexact : ins.Exact c) {code : List Instruction}
    (hcode : ins.tryCompile = some code) (hexec : ins.exec c = some c') :
    ∃ h', h.performAll code = some h' ∧ Simulates h' c' := by
  cases ins with
  | movR8Imm dst imm | movR16Imm dst imm | movR64Imm dst imm => exact movRImm_simulates hs (fun _ => id) hcode hexec
  | movM8Imm dst imm => exact movM8Imm_simulates hs hcode hexec
  | movR8R8 dst src | movR16R16 dst src | movR32R32 dst src => exact movRR_simulates hs hcode hexec
  | movR8M8 dst src | movR16M16 dst src | movR32M32 dst src | movR64M64 dst src => exact movRM_simulates hs hcode hexec
  | movM8R8 dst src => exact movM8R8_simulates hs hcode hexec
  | movM16Imm dst imm => exact movM16Imm_simulates hs hcode hexec
  | movM16R16 dst src | movM32R32 dst src | movM64R64 dst src => exact movMR_simulates hs hcode hexec
  | movR32Imm dst imm => exact movR32Imm_simulates hs hcode hexec
  | movM32Imm dst imm => exact movM32Imm_simulates hs hcode hexec
  | movM64Imm dst imm => exact movM64Imm_simulates hs hexact hcode hexec
  | movR64R64 dst src => exact movR64R64_simulates hs hcode hexec
  | movzxR16RM8 dst src | movzxR32RM8 dst src | movzxR32RM16 dst src | movzxR64RM8 dst src | movzxR64RM16 dst src =>
    exact extend_simulates hs (fun _ _ => perform_movzx) hcode hexec
  | movsxR16RM8 dst src | movsxR32RM8 dst src | movsxR32RM16 dst src | movsxR64RM8 dst src | movsxR64RM16 dst src
  | movsxR64RM32 dst src =>
    exact extend_simulates hs (fun _ _ => perform_movsx) hcode hexec
  | addRM8RM8 dst src | addRM16RM16 dst src => exact binary_rm hs (CpuImpl.binary_add (by decide)) hcode hexec
  | addRM8Imm dst imm | addRM16Imm dst imm | addRM32Imm dst imm =>
    exact binary_imm hs (CpuImpl.binary_add (by decide)) (absurd · (by decide)) hcode hexec
  | addRM32RM32 dst src => exact binary_rm hs (CpuImpl.binary_add (by decide)) ((forRM32RM32_eq ..).symm.trans hcode) hexec
  | addRM64RM64 dst src => exact binary_rm hs (CpuImpl.binary_add (by decide)) ((forRM64RM64_eq ..).symm.trans hcode) hexec
  | addRM64Imm dst imm => exact binary_imm hs (CpuImpl.binary_add (by decide)) (fun _ => hexact) hcode hexec
  | adcRM32RM32 dst src => exact binary_rm hs (CpuImpl.binary_adc (by decide)) ((forRM32RM32_eq ..).symm.trans hcode) hexec
  | adcRM32Imm dst imm => exact binary_imm hs (CpuImpl.binary_adc (by decide)) (absurd · (by decide)) hcode hexec
  | subRM8RM8 dst src | subRM16RM16 dst src => exact binary_rm hs (CpuImpl.binary_sub (by decide)) hcode hexec
  | subRM8Imm dst imm | subRM16Imm dst imm | subRM32Imm dst imm =>
    exact binary_imm hs (CpuImpl.binary_sub (by decide)) (absurd · (by decide)) hcode hexec
  | subRM32RM32 dst src => exact binary_rm hs (CpuImpl.binary_sub (by decide)) ((forRM32RM32_eq ..).symm.trans hcode) hexec
  | subRM64RM64 dst src => exact binary_rm hs (CpuImpl.binary_sub (by decide)) ((forRM64RM64_eq ..).symm.trans hcode) hexec
  | subRM64Imm dst imm => exact binary_imm hs (CpuImpl.binary_sub (by decide)) (fun _ => hexact) hcode hexec
  | sbbRM8RM8 dst src => exact binary_rm hs (CpuImpl.binary_sbb (by decide)) hcode hexec
  | sbbRM8Imm dst imm | sbbRM32Imm dst imm =>
    exact binary_imm hs (CpuImpl.binary_sbb (by decide)) (absurd · (by decide)) hcode hexec
  | sbbRM32RM32 dst src => exact binary_rm hs (CpuImpl.binary_sbb (by decide)) ((forRM32RM32_eq ..).symm.trans hcode) hexec
  | sbbRM64RM64 dst src => exact binary_rm hs (CpuImpl.binary_sbb (by decide)) ((forRM64RM64_eq ..).symm.trans hcode) hexec
  | sbbRM64Imm dst imm => exact binary_imm hs (CpuImpl.binary_sbb (by decide)) (fun _ => hexact) hcode hexec
  | cmpRM8RM8 dst src | cmpRM16RM16 dst src => exact compare_rm hs (CpuImpl.binary_cmp (by decide)) hcode hexec
  | cmpRM8Imm dst imm | cmpRM16Imm dst imm | cmpRM32Imm dst imm =>
    exact compare_imm hs (CpuImpl.binary_cmp (by decide)) (absurd · (by decide)) hcode hexec
  | cmpRM32RM32 dst src => exact compare_rm hs (CpuImpl.binary_cmp (by decide)) ((forRM32RM32_eq ..).symm.trans hcode) hexec
  | cmpRM64RM64 dst src => exact compare_rm hs (CpuImpl.binary_cmp (by decide)) ((forRM64RM64_eq ..).symm.trans hcode) hexec
  | cmpRM64Imm dst imm => exact compare_imm hs (CpuImpl.binary_cmp (by decide)) (fun _ => hexact) hcode hexec
  | andRM8RM8 dst src | andRM16RM16 dst src => exact binary_rm hs CpuImpl.binary_and hcode hexec
  | andRM8Imm dst imm | andRM16Imm dst imm | andRM32Imm dst imm =>
    exact binary_imm hs CpuImpl.binary_and (absurd · (by decide)) hcode hexec
  | andRM32RM32 dst src => exact binary_rm hs CpuImpl.binary_and ((forRM32RM32_eq ..).symm.trans hcode) hexec
  | andRM64RM64 dst src => exact binary_rm hs CpuImpl.binary_and ((forRM64RM64_eq ..).symm.trans hcode) hexec
  | andRM64Imm dst imm => exact binary_imm hs CpuImpl.binary_and (fun _ => hexact) hcode hexec
  | orRM8RM8 dst src | orRM16RM16 dst src => exact binary_rm hs CpuImpl.binary_or hcode hexec
  | orRM8Imm dst imm | orRM16Imm dst imm | orRM32Imm dst imm =>
    exact binary_imm hs CpuImpl.binary_or (absurd · (by decide)) hcode hexec
  | orRM32RM32 dst src => exact binary_rm hs CpuImpl.binary_or ((forRM32RM32_eq ..).symm.trans hcode) hexec
  | orRM64RM64 dst src => exact binary_rm hs CpuImpl.binary_or ((forRM64RM64_eq ..).symm.trans hcode) hexec
  | orRM64Imm dst imm => exact binary_imm hs CpuImpl.binary_or (fun _ => hexact) hcode hexec
  | xorRM8RM8 dst src | xorRM16RM16 dst src => exact binary_rm hs CpuImpl.binary_xor hcode hexec
  | xorRM8Imm dst imm | xorRM16Imm dst imm | xorRM32Imm dst imm =>
    exact binary_imm hs CpuImpl.binary_xor (absurd · (by decide)) hcode hexec
  | xorRM32RM32 dst src => exact binary_rm hs CpuImpl.binary_xor ((forRM32RM32_eq ..).symm.trans hcode) hexec
  | xorRM64RM64 dst src => exact binary_rm hs CpuImpl.binary_xor ((forRM64RM64_eq ..).symm.trans hcode) hexec
  | xorRM64Imm dst imm => exact binary_imm hs CpuImpl.binary_xor (fun _ => hexact) hcode hexec
  | testRM8R8 lhs rhs | testRM16R16 lhs rhs => exact compare_rm hs CpuImpl.binary_test hcode hexec
  | testRM8Imm dst imm | testRM16Imm dst imm | testRM32Imm dst imm =>
    exact compare_imm hs CpuImpl.binary_test (absurd · (by decide)) hcode hexec
  | testRM32R32 lhs rhs => exact compare_rm hs CpuImpl.binary_test ((forRM32RM32_eq ..).symm.trans hcode) hexec
  | testRM64R64 lhs rhs => exact compare_rm hs CpuImpl.binary_test ((forRM64RM64_eq ..).symm.trans hcode) hexec
  | testRM64Imm dst imm => exact compare_imm hs CpuImpl.binary_test (fun _ => hexact) hcode hexec
  | notRM32 dst | notRM64 dst => exact unary_rm hs CpuImpl.unary_not hcode hexec
  | negRM8 dst | negRM16 dst | negRM32 dst | negRM64 dst => exact unary_imm hs (CpuImpl.unary_neg (by decide)) hcode hexec
  | incRM32 dst | incRM64 dst => exact unary_rm hs (CpuImpl.unary_inc (by decide)) hcode hexec
  | decRM8 dst | decRM16 dst | decRM32 dst | decRM64 dst => exact unary_rm hs (CpuImpl.unary_dec (by decide)) hcode hexec
  | leaR32Encoding64 dst src => exact leaR32_simulates hs hcode hexec
  | leaR64Encoding64 dst src => exact leaR64_simulates hs hcode hexec
  | setRM8 cond dst => exact setRM8_simulates hs hexact hcode hexec
  | cmovR32RM32 cond dst src => exact cmovR32RM32_simulates hs hexact hcode hexec
  | cmovR64RM64 cond dst src => exact cmovR64RM64_simulates hs hexact hcode hexec
  | pushImm imm => exact pushImm_simulates hs hcode hexec
  | pushRM64 src => exact pushRM64_simulates hs hcode hexec
  | popR64 dst => exact popR64_simulates hs hcode hexec
  | leave => exact leave_simulates hs hcode hexec
  | nop =>
    obtain rfl : c = c' := Option.some_inj.1 hexec
    obtain rfl := Option.some_inj.1 hcode
    exact ⟨h, rfl, hs⟩

/-- Every instruction of a block is exact in the state it is executed in. -/
def ExactBlock : Cpu → List (Insn × BitVec 64) → Prop
  | _, [] => True
  | c, ins :: rest =>
    ins.1.Exact (c.setGpr .rip ins.2) ∧ ∀ c', ins.1.exec (c.setGpr .rip ins.2) = some c' → ExactBlock c' rest

/-- The code of a block begins with that of its first instruction. -/
theorem basicBlockBody_cons {ins : Insn × BitVec 64} {rest : List (Insn × BitVec 64)} {code : List Instruction}
    (hcode : basicBlockBody (ins :: rest) = some code) :
    ∃ first last, ins.1.tryCompile = some first ∧ basicBlockBody rest = some last ∧
      code = tryAdvanceInstructionPointer ins.2 ++ first ++ last := by
  obtain ⟨codes, hcodes, rfl⟩ := Option.map_eq_some_iff.1 hcode
  rw [List.mapM_cons] at hcodes
  obtain ⟨one, hone, hcodes⟩ := Option.bind_eq_some_iff.1 hcodes
  obtain ⟨others, hothers, hcodes⟩ := Option.bind_eq_some_iff.1 hcodes
  obtain ⟨first, hfirst, rfl⟩ := Option.map_eq_some_iff.1 hone
  obtain rfl := Option.some_inj.1 hcodes
  exact ⟨first, others.flatten, hfirst, congrArg (Option.map List.flatten) hothers, List.flatten_cons⟩

/-- The induction is on the block. -/
theorem basicBlockBody_simulates (block : List (Insn × BitVec 64)) (hs : Simulates h c) (hexact : ExactBlock c block)
    {code : List Instruction} (hcode : basicBlockBody block = some code) (hexec : execBlock c block = some c') :
    ∃ h', h.performAll code = some h' ∧ Simulates h' c' := by
  induction block generalizing h c code with
  | nil =>
    obtain rfl : c = c' := Option.some_inj.1 hexec
    obtain rfl := Option.some_inj.1 hcode
    exact ⟨h, rfl, hs⟩
  | cons ins rest ih =>
    obtain ⟨first, last, hfirst, hlast, rfl⟩ := basicBlockBody_cons hcode
    obtain ⟨c1, hstep, hrest⟩ := Option.bind_eq_some_iff.1 hexec
    obtain ⟨h1, hadvance, hs1⟩ := tryAdvanceInstructionPointer_simulates hs ins.2
    obtain ⟨h2, hrun, hs2⟩ := tryCompile_simulates ins.1 hs1 hexact.1 hfirst hstep
    obtain ⟨h3, hothers, hs3⟩ := ih hs2 (hexact.2 c1 hstep) hlast hrest
    refine ⟨h3, ?_, hs3⟩
    rw [List.append_assoc, performAll_append_of hadvance, performAll_append_of hrun, hothers]

/-- The compiled body of a block leads the host from a state that stands for one of the guest to one that stands for what the
interpreter makes of it. -/
theorem basicBlockBody_represents {host : Host} (hreach : (AddressSpace.machine host).Reachable c.mmu) (hr : Represents h c)
    {block : List (Insn × BitVec 64)} (hexact : ExactBlock c block) {code : List Instruction}
    (hcode : basicBlockBody block = some code) (hexec : execBlock c block = some c') :
    ∃ h', h.performAll code = some h' ∧ Represents h' c' := by
  have hplaced : ∀ a region, c.mmu.findAddress a = some region → a < 2 ^ 64 :=
    fun a region ha => Nat.lt_trans (AddressSpace.findAddress_lt hreach ha) (by decide)
  obtain ⟨h', hrun, hs'⟩ := basicBlockBody_simulates block ⟨hr, hplaced⟩ hexact hcode hexec
  exact ⟨h', hrun, hs'.represents⟩

/-- A block that goes over the stack, with immediates of both kinds. -/
def stackBlock : List (Insn × BitVec 64) :=
  [(.movR64Imm .rsp 0x10800, 0x400007), (.pushImm 0xfffffffffffffffb, 0x400009), (.popR64 .rax, 0x40000a),
    (.addRM64RM64 (.reg .rax) (.reg .rbx), 0x40000d), (.subRM8Imm (.mem ⟨.ds, ⟨.rsp, .zero, 1, -8⟩⟩) 0xff, 0x400012),
    (.setRM8 .b (.reg .ch), 0x400015)]

theorem basicBlockBody_represents_stackBlock : ∃ mmu code c' h h',
    (AddressSpace.machine lenientHost).run (.empty 1 fun _ => 0) Lockable.pageCalls = some mmu ∧
      basicBlockBody stackBlock = some code ∧ execBlock (Lockable.oneInRbx mmu) stackBlock = some c' ∧
      Represents h (Lockable.oneInRbx mmu) ∧ h.performAll code = some h' ∧ Represents h' c' := by
  obtain ⟨mmu, hmmu⟩ : ∃ mmu, (AddressSpace.machine lenientHost).run (.empty 1 fun _ => 0) Lockable.pageCalls = some mmu :=
    Option.isSome_iff_exists.1 (by decide)
  have hreach : (AddressSpace.machine lenientHost).Reachable (Lockable.oneInRbx mmu).mmu :=
    Machine.Reachable.run Lockable.pageCalls (Machine.Reachable.init ⟨_, _, rfl⟩) hmmu
  have hresult : (((AddressSpace.machine lenientHost).run (.empty 1 fun _ => 0) Lockable.pageCalls).bind fun mmu =>
      execBlock (Lockable.oneInRbx mmu) stackBlock).isSome = true := by decide
  rw [hmmu, Option.bind_some] at hresult
  obtain ⟨c', hexec⟩ := Option.isSome_iff_exists.1 hresult
  obtain ⟨code, hcode⟩ : ∃ code, basicBlockBody stackBlock = some code := ⟨_, rfl⟩
  have hexact : ExactBlock (Lockable.oneInRbx mmu) stackBlock :=
    ⟨trivial, fun _ _ => ⟨trivial, fun _ _ => ⟨trivial, fun _ _ => ⟨trivial, fun _ _ => ⟨trivial, fun _ _ =>
      ⟨rfl, fun _ _ => trivial⟩⟩⟩⟩⟩⟩
  have hr := mirror_represents hreach (fun _ _ => rfl) rfl
  obtain ⟨h', hrun, hr'⟩ := basicBlockBody_represents hreach hr hexact hcode hexec
  exact ⟨mmu, code, c', mirror (Lockable.oneInRbx mmu), h', hmmu, hcode, hexec, hr, hrun, hr'⟩

end Insn

end X64Emulator
