import X64Emulator.Handlers
import X64Emulator.Lemmas.Cpu
import X64Emulator.Lemmas.RegionTable

/-!
# Instructions under a lock

The prefix `LOCK` changes nothing for one thread, where `withExclusiveRegion` has a branch for the width: it reads, computes and
writes as the handler without the prefix does. Compare and exchange writes the old value back when the comparison fails, which the
handler without the prefix does not. There is no branch for 128 bits: `cmpxchg16b` under a lock does nothing.
-/

namespace X64Emulator

open Ir (Mem)

namespace Cpu

variable {width : OperandWidth} {w : Nat}

/-- A branch of `withExclusiveRegion` is a read, the modification and a write. -/
theorem withExclusiveRegion_eq (hw : w = 8 ∨ w = 16 ∨ w = 32 ∨ w = 64) (c : Cpu) (ptr : BitVec 64)
    (modify : BitVec w → Cpu → Option (BitVec w × Cpu)) :
    c.withExclusiveRegion ptr modify =
      (c.getPtr w ptr).bind fun oldValue => (modify oldValue c).bind fun new => new.2.setPtr ptr new.1 := by
  have hsize : 0 < w / 8 := by omega
  cases hread : c.getPtr w ptr with
  | none => simp [withExclusiveRegion, hw, hread]
  | some oldValue =>
    obtain ⟨hallows, -⟩ := AddressSpace.read_eq_some.1 hread
    have hregion := AddressSpace.findAddress_isSome_of_allows hsize hallows
    simp [withExclusiveRegion, hw, hread, verify_of hregion]

theorem bits_branch (width : OperandWidth) :
    width.bits = 8 ∨ width.bits = 16 ∨ width.bits = 32 ∨ width.bits = 64 := by
  cases width <;> decide

theorem execLockBinary_eq (op : BinaryOp width) (dst : Mem) (src : Source width) :
    execLockBinary width op dst src = execBinary width op (.mem dst) src := by
  funext c
  rw [execLockBinary, withExclusiveRegion_eq (bits_branch width)]
  cases hread : c.getPtr width.bits (c.resolve dst) with
  | none => simp [execBinary, getRM, hread]
  | some oldValue =>
    cases hsrc : c.getSource src with
    | none => simp [execBinary, getRM, hread, hsrc]
    | some srcValue => simp [execBinary, getRM, setRM, hread, hsrc]

theorem execLockUnary_eq (op : UnaryOp width) (dst : Mem) : execLockUnary width op dst = execUnary width op (.mem dst) := by
  funext c
  rw [execLockUnary, withExclusiveRegion_eq (bits_branch width)]
  cases hread : c.getPtr width.bits (c.resolve dst) with
  | none => simp [execUnary, getRM, hread]
  | some oldValue => simp [execUnary, getRM, setRM, hread]

/-- Under the lock the register is set before the operand is written. -/
theorem execLockXadd_eq (add : BinaryOp width) (dst : Mem) (src : width.Reg) :
    execLockXadd width add dst src = execXadd width add (.mem dst) src := by
  funext c
  rw [execLockXadd, withExclusiveRegion_eq (bits_branch width)]
  cases hread : c.getPtr width.bits (c.resolve dst) with
  | none => simp [execXadd, getRM, hread]
  | some oldValue =>
    have hcomm := set_bind_setPtr (c.setFlags (add oldValue (c.get width src) c.flags).2) src oldValue (c.resolve dst)
      (add oldValue (c.get width src) c.flags).1
    simp [execXadd, getRM, setRM, hread, hcomm, Option.bind_assoc]

end Cpu

namespace Lockable

open Cpu

/-- What a state must satisfy for the two handlers of an instruction to do the same. -/
def Agrees (c : Cpu) : Lockable → Prop
  -- the value that is written back must be one that may be written
  | .cmpxchg width dst _ => ∀ dest, c.getPtr width.bits (c.resolve dst) = some dest → dest ≠ c.get width (acc width) →
      c.mmu.allows Prot.write (c.resolve dst).toNat (width.bits / 8) = true
  -- the handler without the prefix must fail, or leave everything as it is
  | .cmpxchg16b dst => c.mmu.findAddress (c.resolve dst).toNat = none ∨
      (c.getPtr 128 (c.resolve dst) = some c.rdxRax.bits ∧ c.rcxRbx = c.rdxRax ∧
        c.mmu.allows Prot.write (c.resolve dst).toNat 16 = true ∧ c.flags.zero = true)
  | _ => True

/-! ## Compare and exchange -/

theorem set_acc (c : Cpu) (width : OperandWidth) (value : BitVec width.bits) : ∃ c', c.set width (acc width) value = some c' := by
  cases width with
  | u8 => exact ⟨_, rfl⟩
  | u16 => exact ⟨_, rfl⟩
  | u32 => exact ⟨_, rfl⟩
  | u64 => exact ⟨_, rfl⟩

theorem zero_cmpxchg {w : Nat} (eax dest : BitVec w) (flags : Flags) :
    (CpuImpl.cmpxchg eax dest flags).zero = decide (eax = dest) := by
  by_cases h : eax = dest <;> simp [CpuImpl.cmpxchg, h]

theorem cmpxchg_agrees (width : OperandWidth) (dst : Mem) (reg : width.Reg) (src : BitVec width.bits) (c : Cpu) :
    c.execLockCmpxchgImpl width CpuImpl.cmpxchg (acc width) (c.resolve dst) src =
        c.execCmpxchgImpl width CpuImpl.cmpxchg (acc width) (.mem dst) src ↔ (cmpxchg width dst reg).Agrees c := by
  rw [execLockCmpxchgImpl, withExclusiveRegion_eq (bits_branch width)]
  cases hread : c.getPtr width.bits (c.resolve dst) with
  | none => simp [execCmpxchgImpl, getRM, hread, Agrees]
  | some dest =>
    by_cases heq : c.get width (acc width) = dest
    · simp [execCmpxchgImpl, getRM, setRM, hread, Agrees, zero_cmpxchg, heq]
    · obtain ⟨c', hset⟩ := set_acc (c.setFlags (CpuImpl.cmpxchg (c.get width (acc width)) dest c.flags)) width dest
      have hmmu := mmu_of_set hset
      rw [mmu_setFlags] at hmmu
      by_cases hwrite : c.mmu.allows Prot.write (c.resolve dst).toNat (width.bits / 8) = true
      · -- what is written back was there before
        have hback : c'.setPtr (c.resolve dst) dest = some c' := by
          have hkept := AddressSpace.write_of_read hread hwrite
          rw [← hmmu] at hkept
          simp [setPtr, hkept]
        simp [execCmpxchgImpl, getRM, hread, Agrees, zero_cmpxchg, heq, hset, hback, hwrite]
      · have hfail : c'.setPtr (c.resolve dst) dest = none := by
          rw [setPtr, hmmu, AddressSpace.write_eq_none hwrite]
          rfl
        simp [execCmpxchgImpl, getRM, hread, Agrees, zero_cmpxchg, heq, hset, hfail, hwrite, Ne.symm heq]

/-- Under the lock only the region is looked for. -/
theorem execLockCmpxchg16BM128_eq (dst : Mem) (c : Cpu) :
    c.execLockCmpxchg16BM128 dst = if (c.mmu.findAddress (c.resolve dst).toNat).isSome then some c else none := by
  cases hregion : c.mmu.findAddress (c.resolve dst).toNat <;>
    simp [execLockCmpxchg16BM128, withExclusiveRegion, verify, hregion]

/-- Without the lock a state stays as it is only where the comparison stores what was there. -/
theorem execCmpxchg16BM128_eq_self (dst : Mem) (c : Cpu) :
    c.execCmpxchg16BM128 dst = some c ↔
      (c.getPtr 128 (c.resolve dst) = some c.rdxRax.bits ∧ c.rcxRbx = c.rdxRax ∧
        c.mmu.allows Prot.write (c.resolve dst).toNat 16 = true ∧ c.flags.zero = true) := by
  cases hread : c.getPtr 128 (c.resolve dst) with
  | none => simp [execCmpxchg16BM128, hread]
  | some dest =>
    by_cases heq : U128.ofBits dest = c.rdxRax
    · have hdest : dest = c.rdxRax.bits := by rw [← heq, U128.bits_ofBits]
      subst hdest
      constructor
      · intro hself
        cases hwrite : c.mmu.write (c.resolve dst).toNat c.rcxRbx.bits with
        | none => simp [execCmpxchg16BM128, hread, setPtr, setZero, hwrite] at hself
        | some mmu =>
          simp only [execCmpxchg16BM128, hread, heq, setPtr, setZero, hwrite, if_true, Option.bind_eq_bind,
            Option.bind_some, Option.some_inj] at hself
          have hmmu : mmu = c.mmu := congrArg Cpu.mmu hself
          have hzero : true = c.flags.zero := congrArg (fun c => c.flags.zero) hself
          obtain ⟨hallows, -⟩ := AddressSpace.read_eq_some.1 hread
          have hstored := AddressSpace.read_of_write (by decide) hallows hwrite
          rw [hmmu] at hstored
          have hbits : c.rdxRax.bits = c.rcxRbx.bits := Option.some_inj.1 (hread.symm.trans hstored)
          refine ⟨rfl, ?_, (AddressSpace.write_eq_some.1 hwrite).1, hzero.symm⟩
          rw [← U128.ofBits_bits c.rcxRbx, ← hbits, U128.ofBits_bits]
      · rintro ⟨-, hsame, hwrite, hzero⟩
        have hkept := AddressSpace.write_of_read hread hwrite
        have hflags : ({ c.flags with zero := true } : Flags) = c.flags := by rw [← hzero]
        simp [execCmpxchg16BM128, hread, setPtr, setZero, hsame, hkept, hflags]
    · have hne : dest ≠ c.rdxRax.bits := fun h => heq (by rw [h, U128.ofBits_bits])
      constructor
      · intro hself
        simp only [execCmpxchg16BM128, hread, heq, set64, setZero, setGpr, if_false, Option.bind_eq_bind, Option.bind_some,
          verify_of (show Ir.R64.rax ≠ .zero by decide), verify_of (show Ir.R64.rdx ≠ .zero by decide),
          Option.some_inj] at hself
        have hgpr := congrArg Cpu.gpr hself
        have hlow : (U128.ofBits dest).lo = c.gpr .rax := by simpa using congrFun hgpr .rax
        have hhigh : (U128.ofBits dest).hi = c.gpr .rdx := by simpa using congrFun hgpr .rdx
        exact absurd (by rw [rdxRax, get64, get64, ← hlow, ← hhigh]) heq
      · rintro ⟨hdest, -⟩
        exact absurd (Option.some_inj.1 hdest) hne

theorem cmpxchg16b_agrees (dst : Mem) (c : Cpu) :
    c.execLockCmpxchg16BM128 dst = c.execCmpxchg16BM128 dst ↔ (cmpxchg16b dst).Agrees c := by
  rw [execLockCmpxchg16BM128_eq, Agrees, ← execCmpxchg16BM128_eq_self]
  cases hregion : c.mmu.findAddress (c.resolve dst).toNat with
  | none =>
    -- without a region the operand cannot be read
    have hread : c.getPtr 128 (c.resolve dst) = none := by
      by_contra hsome
      obtain ⟨value, hvalue⟩ := Option.ne_none_iff_exists'.1 hsome
      have hfound := AddressSpace.findAddress_isSome_of_allows (by decide) (AddressSpace.read_eq_some.1 hvalue).1
      rw [hregion] at hfound
      exact Bool.noConfusion hfound
    simp [execCmpxchg16BM128, hread]
  | some region => simp [eq_comm]

/-! ## All instructions -/

theorem exec_add (width : OperandWidth) (dst : Mem) (src : Source width) :
    (add width dst src).exec = execBinary width CpuImpl.add (.mem dst) src ∧
      (add width dst src).execLock = execLockBinary width CpuImpl.add dst src := by
  cases width <;> cases src <;> exact ⟨rfl, rfl⟩

theorem exec_sub (width : OperandWidth) (dst : Mem) (src : Source width) :
    (sub width dst src).exec = execBinary width CpuImpl.sub (.mem dst) src ∧
      (sub width dst src).execLock = execLockBinary width CpuImpl.sub dst src := by
  cases width <;> cases src <;> exact ⟨rfl, rfl⟩

theorem exec_or (width : OperandWidth) (dst : Mem) (src : Source width) :
    (or width dst src).exec = execBinary width CpuImpl.or_ (.mem dst) src ∧
      (or width dst src).execLock = execLockBinary width CpuImpl.or_ dst src := by
  cases width <;> cases src <;> exact ⟨rfl, rfl⟩

theorem exec_inc (width : OperandWidth) (dst : Mem) :
    (inc width dst).exec = execUnary width CpuImpl.inc (.mem dst) ∧
      (inc width dst).execLock = execLockUnary width CpuImpl.inc dst := by
  cases width <;> exact ⟨rfl, rfl⟩

theorem exec_dec (width : OperandWidth) (dst : Mem) :
    (dec width dst).exec = execUnary width CpuImpl.dec (.mem dst) ∧
      (dec width dst).execLock = execLockUnary width CpuImpl.dec dst := by
  cases width <;> exact ⟨rfl, rfl⟩

theorem exec_xadd (width : OperandWidth) (dst : Mem) (src : width.Reg) :
    (xadd width dst src).exec = execXadd width CpuImpl.add (.mem dst) src ∧
      (xadd width dst src).execLock = execLockXadd width CpuImpl.add dst src := by
  cases width <;> exact ⟨rfl, rfl⟩

theorem exec_bts (width : BitWidth) (dst : Mem) (bit : BitIndex width.operand) :
    (bts width dst bit).exec = execBinary width.operand CpuImpl.bts (.mem dst) bit.source ∧
      (bts width dst bit).execLock = execLockBinary width.operand CpuImpl.bts dst bit.source := by
  cases width <;> cases bit <;> exact ⟨rfl, rfl⟩

theorem exec_cmpxchg (width : OperandWidth) (dst : Mem) (src : width.Reg) (c : Cpu) :
    (cmpxchg width dst src).exec c =
        c.execCmpxchgImpl width CpuImpl.cmpxchg (acc width) (.mem dst) (c.get width src) ∧
      (cmpxchg width dst src).execLock c =
        c.execLockCmpxchgImpl width CpuImpl.cmpxchg (acc width) (c.resolve dst) (c.get width src) := by
  cases width <;> exact ⟨rfl, rfl⟩

/-- The two handlers of an instruction do the same exactly in the states that satisfy `Agrees`. -/
theorem execLock_eq_exec_iff (ins : Lockable) (c : Cpu) : ins.execLock c = ins.exec c ↔ ins.Agrees c := by
  cases ins with
  | add width dst src =>
    rw [(exec_add width dst src).1, (exec_add width dst src).2, execLockBinary_eq]
    exact iff_of_true rfl trivial
  | sub width dst src =>
    rw [(exec_sub width dst src).1, (exec_sub width dst src).2, execLockBinary_eq]
    exact iff_of_true rfl trivial
  | or width dst src =>
    rw [(exec_or width dst src).1, (exec_or width dst src).2, execLockBinary_eq]
    exact iff_of_true rfl trivial
  | inc width dst =>
    rw [(exec_inc width dst).1, (exec_inc width dst).2, execLockUnary_eq]
    exact iff_of_true rfl trivial
  | dec width dst =>
    rw [(exec_dec width dst).1, (exec_dec width dst).2, execLockUnary_eq]
    exact iff_of_true rfl trivial
  | xadd width dst src =>
    rw [(exec_xadd width dst src).1, (exec_xadd width dst src).2, execLockXadd_eq]
    exact iff_of_true rfl trivial
  | bts width dst bit =>
    rw [(exec_bts width dst bit).1, (exec_bts width dst bit).2, execLockBinary_eq]
    exact iff_of_true rfl trivial
  | cmpxchg width dst src =>
    rw [(exec_cmpxchg width dst src c).1, (exec_cmpxchg width dst src c).2]
    exact cmpxchg_agrees width dst src (c.get width src) c
  | cmpxchg16b dst => exact cmpxchg16b_agrees dst c

/-- A state whose `rbx` is one, before an address space. -/
def oneInRbx (mmu : AddressSpace) : Cpu where
  gpr reg := if reg = .rbx then 1 else 0
  flags := ⟨false, false, false, false, false, false, false⟩
  segmentBase _ := 0
  mmu := mmu

def atPage : Mem := ⟨.ds, ⟨.zero, .zero, 1, 0x10000⟩⟩

def pageCalls : List MmuCall := [.mmap 0x10000 0x1000 Prot.READ_WRITE ⟨true, false⟩]

/-- Under a lock, sixteen bytes of zero are not exchanged. -/
theorem execLock_ne_exec : ¬ ∀ (host : Host) (c : Cpu), (AddressSpace.machine host).Reachable c.mmu →
    ∀ ins : Lockable, ins.execLock c = ins.exec c := by
  intro hclaim
  obtain ⟨mmu, hmmu⟩ : ∃ mmu, (AddressSpace.machine lenientHost).run (.empty 1 fun _ => 0) pageCalls = some mmu :=
    Option.isSome_iff_exists.1 (by decide)
  have hreach : (AddressSpace.machine lenientHost).Reachable mmu :=
    Machine.Reachable.run pageCalls (Machine.Reachable.init ⟨_, _, rfl⟩) hmmu
  have hzero : (((AddressSpace.machine lenientHost).run (.empty 1 fun _ => 0) pageCalls).bind fun mmu =>
      ((cmpxchg16b atPage).exec (oneInRbx mmu)).map fun c => c.flags.zero) = some true := by decide
  have hkept : (((AddressSpace.machine lenientHost).run (.empty 1 fun _ => 0) pageCalls).bind fun mmu =>
      ((cmpxchg16b atPage).execLock (oneInRbx mmu)).map fun c => c.flags.zero) = some false := by decide
  rw [hmmu, Option.bind_some] at hzero hkept
  rw [hclaim lenientHost (oneInRbx mmu) hreach, hzero] at hkept
  exact absurd hkept (by decide)

end Lockable

end X64Emulator
