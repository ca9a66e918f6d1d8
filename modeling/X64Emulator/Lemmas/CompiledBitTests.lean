import X64Emulator.Lemmas.BitTests
import X64Emulator.Lemmas.CompiledCode

/-!
# What a compiled bit test does

The state behind the code of a bit test is the state before it with one bit touched, but for the registers that the code is free to
use. The bit is one of the bytes the operand has on the host, wherever the index points.
-/

namespace X64Emulator

open Ir Bits

namespace BitTest

open Compiler

/-- The state of the host once a bit of its memory has been tested and updated. -/
def touchedHost (op : BitTest) (x : BitVec 64) (k : Nat) (h : HostState) : HostState :=
  { h.setCarry ((h.memory x).getLsbD k) with
    memory := Window.putBit h.memory x k (op.update ((h.memory x).getLsbD k)) }

/-- What the code of a bit test needs of the bytes of its operand. -/
def HostAccessible (op : BitTest) (h : HostState) (a : BitVec 64) (n : Nat) : Prop :=
  h.mayRead a n = true ∧ (op.writes = true → h.mayWrite a n = true)

/-- A test of a bit of `r8`, with the index in `r9`. -/
def testedR8 (op : BitTest) (h : HostState) : HostState :=
  let k := (h.gpr .r9).toNat % 64
  let old := (h.gpr .r8).getLsbD k
  if op.writes then (h.setCarry old).set .r8 (setBit (h.gpr .r8) k (op.update old)) else h.setCarry old

end BitTest

namespace BitTest

open Compiler

variable {h : HostState} {code : List Instruction}

/-- A bit that is touched and stays. -/
theorem touchedHost_of_update_eq {op : BitTest} {x : BitVec 64} {k : Nat} (hk : k < 8)
    (hupdate : op.update ((h.memory x).getLsbD k) = (h.memory x).getLsbD k) :
    op.touchedHost x k h = h.setCarry ((h.memory x).getLsbD k) := by
  have hsame : Window.putBit h.memory x k (op.update ((h.memory x).getLsbD k)) = h.memory := by
    funext y
    by_cases hy : y = x
    · rw [Window.putBit, if_pos hy, hupdate, hy]
      exact (setBit_eq_self hk).2 rfl
    · rw [Window.putBit, if_neg hy]
  rw [touchedHost, hsame]
  rfl

/-- A bit that is touched without being written stays. -/
theorem touchedHost_of_not_writes {op : BitTest} (hwrites : ¬ op.writes = true) (x : BitVec 64) {k : Nat} (hk : k < 8)
    (h : HostState) : op.touchedHost x k h = h.setCarry ((h.memory x).getLsbD k) :=
  touchedHost_of_update_eq hk (update_of_not_writes hwrites _)

/-- The code of a bit test of 64 bits in memory, whatever instruction makes the test. -/
theorem exec_forRM64 (op : BitTest) (func : Reg → Reg → Instruction)
    (hfunc : ∀ h : HostState, h.exec (func .GPR0 .GPR1) = some (op.testedR8 h)) {c : Cpu} (hr : Represents h c)
    {mem : Mem} {src : R64}
    (hcode : forRM64RM64 (.mem mem) (.reg src) func op.writes = some code) {a : BitVec 64} (ha : a = h.gpr .rcx + c.resolve mem)
    {k : Nat} (hk : k = (c.gpr src).toNat % 64) :
    (op.HostAccessible h a 8 →
      ∃ h', h.execAll code = some h' ∧ Scratch (op.touchedHost (a + BitVec.ofNat 64 (k / 8)) (k % 8) h) h') ∧
    (¬ op.HostAccessible h a 8 → h.execAll code = none) := by
  obtain ⟨h1, hrun, hscratch, hbase, haddr⟩ := exec_getAddress hr mem
  have hrcx : h1.gpr .rcx = h.gpr .rcx := hscratch.gpr _ (by decide) (by decide) (by decide)
  have hoperand : h1.gpr .rcx + h1.gpr .r10 + BitVec.ofInt 64 (getAddress .MEM_ADDR .GPR0 mem).2.offset.toInt = a := by
    rw [BitVec.add_assoc, haddr, hrcx, ha]
  simp only [forRM64RM64, Option.some_inj] at hcode
  subst hcode
  rw [List.append_assoc, execAll_append, hrun, Option.bind_some, List.cons_append, execAll_cons, exec_readMem64 h1 hbase,
    hoperand, hscratch.load64]
  by_cases hread : h.mayRead a 8 = true
  · obtain ⟨x, hx, hload, hbit⟩ : ∃ x : BitVec 64, x = (HostState.bytesAt a .u64).load 64 h.memory ∧
        h.load64 a = some x ∧ x.getLsbD k = (h.memory (a + BitVec.ofNat 64 (k / 8))).getLsbD (k % 8) :=
      ⟨_, rfl, if_pos hread, Window.getLsbD_load (HostState.bytesAt a .u64) h.memory rfl (show k < 64 by omega)⟩
    have h2 := hscratch.trans (Scratch.set h1 (r := get .GPR0) (.inl rfl) x)
    have h3 := h2.trans (Scratch.set _ (r := get .GPR1) (.inr (.inl rfl)) (c.gpr src))
    simp only [hload, Option.map_some, Option.bind_some, List.cons_append, List.nil_append, execAll_cons]
    rw [exec_readReg64 (h2.represents hr), Option.bind_some, hfunc, Option.bind_some]
    set h3s := (h1.set (get .GPR0) x).set (get .GPR1) (c.gpr src) with hh3s
    have hk9 : (h3s.gpr .r9).toNat % 64 = k := hk.symm
    have hx8 : h3s.gpr .r8 = x := rfl
    by_cases hwrites : op.writes = true
    · have htest : op.testedR8 h3s = (h3s.setCarry (x.getLsbD k)).set .r8 (setBit x k (op.update (x.getLsbD k))) := by
        rw [testedR8, if_pos hwrites, hk9, hx8]
      rw [if_pos hwrites, htest, execAll_cons, exec_writeMem64 _ hbase]
      set h4 := (h3s.setCarry (x.getLsbD k)).set .r8 (setBit x k (op.update (x.getLsbD k))) with hh4
      have haddress : h4.gpr .rcx + h4.gpr .r10 + BitVec.ofInt 64 (getAddress .MEM_ADDR .GPR0 mem).2.offset.toInt = a :=
        hoperand
      have hmay : h4.mayWrite a 8 = h.mayWrite a 8 :=
        congrArg (fun writable : BitVec 64 → Bool => (List.range 8).all fun i => writable (a + BitVec.ofNat 64 i)) h3.writable
      rw [haddress]
      by_cases hwrite : h.mayWrite a 8 = true
      · have hstore : h4.store64 a (h4.gpr .r8) =
            some { h4 with memory := (HostState.bytesAt a .u64).store h4.memory (h4.gpr .r8) } := if_pos (hmay.trans hwrite)
        rw [hstore]
        refine ⟨fun _ => ⟨_, rfl, ?_⟩, fun hno => absurd ⟨hread, fun _ => hwrite⟩ hno⟩
        have hstored : (HostState.bytesAt a .u64).store h3s.memory (setBit x k (op.update (x.getLsbD k))) =
            Window.putBit h.memory (a + BitVec.ofNat 64 (k / 8)) (k % 8) (op.update (x.getLsbD k)) := by
          rw [h3.memory, hx]
          exact Window.store_setBit (HostState.bytesAt a .u64) h.memory rfl (show k < 64 by omega) _
        refine ⟨fun r h8 h9 h10 => (if_neg h8).trans (h3.gpr r h8 h9 h10), ?_, ?_, h3.readable, h3.writable⟩
        · rw [touchedHost, ← hbit]
          exact congrArg (fun f : Flags => { f with carry := x.getLsbD k }) h3.flags
        · rw [touchedHost, ← hbit]
          exact hstored
      · have hdenied : h4.store64 a (h4.gpr .r8) = none := if_neg fun hyes => hwrite (hmay.symm.trans hyes)
        refine ⟨fun hyes => absurd (hyes.2 hwrites) hwrite, fun _ => ?_⟩
        rw [hdenied]
        rfl
    · have htest : op.testedR8 h3s = h3s.setCarry (x.getLsbD k) := by
        rw [testedR8, if_neg hwrites, hk9, hx8]
      refine ⟨fun _ => ⟨h3s.setCarry (x.getLsbD k), ?_, ?_⟩,
        fun hno => absurd ⟨hread, fun hyes => absurd hyes hwrites⟩ hno⟩
      · rw [if_neg hwrites, htest]
        rfl
      · rw [touchedHost_of_not_writes hwrites _ (by omega), ← hbit]
        exact ⟨h3.gpr, congrArg (fun f : Flags => { f with carry := x.getLsbD k }) h3.flags, h3.memory, h3.readable,
          h3.writable⟩
  · refine ⟨fun hyes => absurd hyes.1 hread, fun _ => ?_⟩
    rw [show h.load64 a = none from if_neg hread]
    rfl

/-- The code of a bit test of 32 bits in memory. -/
theorem exec_bt32 {c : Cpu} (hr : Represents h c) {mem : Mem} {src : R32}
    (hcode : tryCompileBtRM32R32 (.mem mem) src = some code) {a : BitVec 64} (ha : a = h.gpr .rcx + c.resolve mem)
    {k : Nat} (hk : k = (c.get32 src).toNat % 32) :
    (BitTest.bt.HostAccessible h a 4 →
      ∃ h', h.execAll code = some h' ∧ Scratch (BitTest.bt.touchedHost (a + BitVec.ofNat 64 (k / 8)) (k % 8) h) h') ∧
    (¬ BitTest.bt.HostAccessible h a 4 → h.execAll code = none) := by
  obtain ⟨h1, hrun, hscratch, hbase, haddr⟩ := exec_getAddress hr mem
  have hrcx : h1.gpr .rcx = h.gpr .rcx := hscratch.gpr _ (by decide) (by decide) (by decide)
  have hoperand : h1.gpr .rcx + h1.gpr .r10 + BitVec.ofInt 64 (getAddress .MEM_ADDR .GPR0 mem).2.offset.toInt = a := by
    rw [BitVec.add_assoc, haddr, hrcx, ha]
  have hindex : mem.encoding.index ≠ .rip := by
    intro hrip
    simp [tryCompileBtRM32R32, forRM32RM32, hrip] at hcode
  simp only [tryCompileBtRM32R32, forRM32RM32, if_neg hindex, Option.some_inj] at hcode
  subst hcode
  rw [List.append_assoc, execAll_append, hrun, Option.bind_some, List.cons_append, execAll_cons, exec_readMem32 h1 hbase,
    hoperand, HostState.load32, hscratch.load]
  by_cases hread : h.mayRead a 4 = true
  · obtain ⟨x, hload, hbit⟩ : ∃ x : BitVec 32, h.load32 a = some x ∧
        x.getLsbD k = (h.memory (a + BitVec.ofNat 64 (k / 8))).getLsbD (k % 8) :=
      ⟨_, if_pos hread, Window.getLsbD_load (HostState.bytesAt a .u32) h.memory rfl (show k < 32 by omega)⟩
    have h2 := hscratch.trans (Scratch.set h1 (r := get .GPR0) (.inl rfl) (x.setWidth 64))
    have h3 := h2.trans (Scratch.set _ (r := (get32 .GPR1).containingRegister) (.inr (.inl rfl)) ((c.get32 src).setWidth 64))
    rw [show h.load .u32 a = some x from hload, Option.map_some, Option.bind_some, List.cons_append, execAll_cons,
      exec_readReg32 (h2.represents hr), Option.bind_some]
    set h3s := (h1.set (get .GPR0) (x.setWidth 64)).set (get32 .GPR1).containingRegister ((c.get32 src).setWidth 64) with hh3s
    have htest : ((h3s.gpr .r8).setWidth 32).getLsbD (((h3s.gpr .r9).setWidth 32).toNat % 32) = x.getLsbD k := by
      have hx8 : (h3s.gpr .r8).setWidth 32 = x := by
        rw [show h3s.gpr .r8 = x.setWidth 64 from rfl]
        exact BitVec.setWidth_setWidth_of_le x (by decide)
      have hk9 : (h3s.gpr .r9).setWidth 32 = c.get32 src := by
        rw [show h3s.gpr .r9 = (c.get32 src).setWidth 64 from rfl]
        exact BitVec.setWidth_setWidth_of_le (c.get32 src) (by decide)
      rw [hx8, hk9, hk]
    refine ⟨fun _ => ⟨h3s.setCarry (x.getLsbD k), ?_, ?_⟩,
      fun hno => absurd ⟨hread, fun hyes => Bool.noConfusion hyes⟩ hno⟩
    · rw [← htest]
      rfl
    · rw [touchedHost_of_not_writes (by decide) _ (by omega), ← hbit]
      exact ⟨h3.gpr, congrArg (fun f : Flags => { f with carry := x.getLsbD k }) h3.flags, h3.memory, h3.readable, h3.writable⟩
  · refine ⟨fun hyes => absurd hyes.1 hread, fun _ => ?_⟩
    rw [show h.load .u32 a = none from if_neg hread]
    rfl

/-- The instruction that makes the test, in the code for 64 bits. -/
def tester (op : Op) (dst src : Reg) : Instruction :=
  { op := op, out := .r64 (get dst), in1 := .r64 (get dst), in2 := .r64 (get src) }

/-- The code of a bit test with an operand in memory. -/
theorem exec_tryCompile_mem {op : BitTest} {width : BitWidth} {c : Cpu} (hr : Represents h c) {mem : Mem}
    {bit : width.operand.Reg} (hcode : op.tryCompile width (.mem mem) bit = some code)
    {a : BitVec 64} (ha : a = h.gpr .rcx + c.resolve mem) {k : Nat}
    (hk : k = (c.get width.operand bit).toNat % width.operand.bits) :
    (op.HostAccessible h a (width.operand.bits / 8) →
      ∃ h', h.execAll code = some h' ∧ Scratch (op.touchedHost (a + BitVec.ofNat 64 (k / 8)) (k % 8) h) h') ∧
    (¬ op.HostAccessible h a (width.operand.bits / 8) → h.execAll code = none) := by
  cases width with
  | u16 => cases op <;> exact absurd hcode (by simp [tryCompile])
  | u32 =>
    cases op with
    | bt => exact exec_bt32 hr hcode ha hk
    | btr | btc | bts => exact absurd hcode (by simp [tryCompile])
  | u64 =>
    cases op with
    | bt => exact exec_forRM64 .bt (tester .bt) (fun _ => rfl) hr hcode ha hk
    | btr => exact exec_forRM64 .btr (tester .btr) (fun _ => rfl) hr hcode ha hk
    | bts => exact exec_forRM64 .bts (tester .bts) (fun _ => rfl) hr hcode ha hk
    | btc => exact absurd hcode (by simp [tryCompile])

/-! ## Operands in registers -/

theorem exec_forRM64_reg (op : BitTest) (func : Reg → Reg → Instruction)
    (hfunc : ∀ h : HostState, h.exec (func .GPR0 .GPR1) = some (op.testedR8 h)) {c c' : Cpu}
    (hr : Represents h c) {dst src : R64}
    (hcode : forRM64RM64 (.reg dst) (.reg src) func op.writes = some code)
    (hres : op.onRegister .u64 dst (c.get64 src) c = some c') : ∃ h', h.execAll code = some h' ∧ Represents h' c' := by
  simp only [forRM64RM64, Option.some_inj] at hcode
  subst hcode
  have h1 := Scratch.set h (r := get .GPR0) (.inl rfl) (c.gpr dst)
  have h2 := h1.trans (Scratch.set _ (r := get .GPR1) (.inr (.inl rfl)) (c.gpr src))
  simp only [List.cons_append, List.nil_append, execAll_cons]
  rw [exec_readReg64 hr, Option.bind_some, exec_readReg64 (h1.represents hr), Option.bind_some, hfunc, Option.bind_some]
  set h2s := (h.set (get .GPR0) (c.gpr dst)).set (get .GPR1) (c.gpr src) with hh2s
  have hcarry : Represents (h2s.setCarry ((c.gpr dst).getLsbD ((c.gpr src).toNat % 64)))
      (setCarry c ((c.gpr dst).getLsbD ((c.gpr src).toNat % 64))) := (h2.represents hr).setCarry _
  by_cases hwrites : op.writes = true
  · obtain ⟨hdst, hres⟩ : dst ≠ .zero ∧ (setCarry c ((c.gpr dst).getLsbD ((c.gpr src).toNat % 64))).setGpr dst
        (setBit (c.gpr dst) ((c.gpr src).toNat % 64) (op.update ((c.gpr dst).getLsbD ((c.gpr src).toNat % 64)))) = c' := by
      simpa [onRegister, hwrites, Cpu.set, Cpu.set64, Cpu.get, Cpu.get64, OperandWidth.bits, Option.bind_eq_some_iff] using hres
    have h3 := Scratch.set (h2s.setCarry ((c.gpr dst).getLsbD ((c.gpr src).toNat % 64))) (r := .r8) (.inl rfl)
      (setBit (c.gpr dst) ((c.gpr src).toNat % 64) (op.update ((c.gpr dst).getLsbD ((c.gpr src).toNat % 64))))
    obtain ⟨h', hrun, hrep⟩ := exec_writeReg64 (h3.represents hcarry) hdst
    refine ⟨h', ?_, hres ▸ hrep⟩
    rw [if_pos hwrites, testedR8, if_pos hwrites, execAll_cons]
    exact (congrArg (Option.bind · _) hrun).trans rfl
  · have hres : setCarry c ((c.gpr dst).getLsbD ((c.gpr src).toNat % 64)) = c' := by
      simpa [onRegister, hwrites, Cpu.get, Cpu.get64, OperandWidth.bits] using hres
    refine ⟨_, ?_, hres ▸ hcarry⟩
    rw [if_neg hwrites, testedR8, if_neg hwrites]
    rfl

theorem exec_bt32_reg {c : Cpu} (hr : Represents h c) {dst src : R32}
    (hcode : tryCompileBtRM32R32 (.reg dst) src = some code) :
    ∃ h', h.execAll code = some h' ∧
      Represents h' (setCarry c ((c.get32 dst).getLsbD ((c.get32 src).toNat % 32))) := by
  simp only [tryCompileBtRM32R32, forRM32RM32, Option.some_inj] at hcode
  subst hcode
  have h1 := Scratch.set h (r := (get32 .GPR0).containingRegister) (.inl rfl) ((c.get32 dst).setWidth 64)
  have h2 := h1.trans (Scratch.set _ (r := (get32 .GPR1).containingRegister) (.inr (.inl rfl)) ((c.get32 src).setWidth 64))
  simp only [List.cons_append, List.nil_append, execAll_cons]
  rw [exec_readReg32 hr, Option.bind_some, exec_readReg32 (h1.represents hr), Option.bind_some]
  set h2s := (h.set (get32 .GPR0).containingRegister ((c.get32 dst).setWidth 64)).set (get32 .GPR1).containingRegister
    ((c.get32 src).setWidth 64) with hh2s
  have hdst : (h2s.gpr .r8).setWidth 32 = c.get32 dst := BitVec.setWidth_setWidth_of_le (c.get32 dst) (by decide)
  have hsrc : (h2s.gpr .r9).setWidth 32 = c.get32 src := BitVec.setWidth_setWidth_of_le (c.get32 src) (by decide)
  refine ⟨_, rfl, ?_⟩
  change Represents (h2s.setCarry (((h2s.gpr .r8).setWidth 32).getLsbD (((h2s.gpr .r9).setWidth 32).toNat % 32))) _
  rw [hdst, hsrc]
  exact (h2.represents hr).setCarry _

/-- The code of a bit test with an operand in a register. -/
theorem exec_tryCompile_reg {op : BitTest} {width : BitWidth} {c c' : Cpu} (hr : Represents h c)
    {dst bit : width.operand.Reg} (hcode : op.tryCompile width (.reg dst) bit = some code)
    (hres : op.onRegister width.operand dst (c.get width.operand bit) c = some c') :
    ∃ h', h.execAll code = some h' ∧ Represents h' c' := by
  cases width with
  | u16 => cases op <;> exact absurd hcode (by simp [tryCompile])
  | u32 =>
    cases op with
    | bt =>
      obtain rfl : setCarry c ((c.get32 dst).getLsbD ((c.get32 bit).toNat % 32)) = c' := Option.some_inj.1 hres
      exact exec_bt32_reg hr hcode
    | btr | btc | bts => exact absurd hcode (by simp [tryCompile])
  | u64 =>
    cases op with
    | bt => exact exec_forRM64_reg .bt (tester .bt) (fun _ => rfl) hr hcode hres
    | btr => exact exec_forRM64_reg .btr (tester .btr) (fun _ => rfl) hr hcode hres
    | bts => exact exec_forRM64_reg .bts (tester .bts) (fun _ => rfl) hr hcode hres
    | btc => exact absurd hcode (by simp [tryCompile])

end BitTest

end X64Emulator
