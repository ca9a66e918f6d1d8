import X64Emulator.Lemmas.BlockLookup
import X64Emulator.Lemmas.CompiledBitTests
import X64Emulator.Lemmas.RegionCalls
import X64Emulator.Theorems.LockedInstructions

/-!
# Bit tests

With a register for its operand a bit test is exact. With an operand in memory, the interpreter and the compiled code load the
operand and take the index modulo its width. That is exact for the indices of the bits of the operand; for any other index another
bit is tested, and what is left is the same only where the two bits agree and the operation leaves them.
-/

namespace X64Emulator

open Bits Ir

namespace AddressSpace

/-- A range that may be accessed does not reach the end of the addresses. -/
theorem add_lt_of_allows {host : Host} {s : AddressSpace} (h : (machine host).Reachable s) {right : Prot → Bool}
    {address n : Nat} (hallows : s.allows right address n = true) {i : Nat} (hi : i < n) : address + i < 2 ^ 53 := by
  obtain ⟨region, hregion, -⟩ := allows_eq_true.1 hallows i hi
  exact findAddress_lt h hregion

end AddressSpace

namespace BitTest

open Compiler

/-- What the architecture's bit and the one that is tested instead must satisfy for nothing to be seen of the difference. -/
def Hidden (op : BitTest) (tested bit : Bool) : Prop := tested = bit ∧ op.update bit = bit

/-- The index is that of a bit of the operand. -/
def InOperand {w : Nat} (index : BitVec w) : Prop := 0 ≤ index.toInt ∧ index.toInt < w

/-- When the interpreter is exact for an operand in memory: the byte of the string of bits may not be accessed, or the operand
may, and the index is that of one of its bits or the bit at the index modulo the width hides the difference. -/
def ExactInterpreted (op : BitTest) (width : BitWidth) (address : BitVec 64) (index : BitVec width.operand.bits) (c : Cpu) :
    Prop :=
  let k := index.toNat % width.operand.bits
  ¬ op.Accessible c (bitByte address index).toNat 1 ∨
    (op.Accessible c address.toNat (width.operand.bits / 8) ∧
      (InOperand index ∨
        op.Hidden (bitAt c (address.toNat + k / 8) (k % 8)) (bitAt c (bitByte address index).toNat (k % 8))))

/-- When the compiled code is exact, on the host: what it tests is a byte of the host, which may be accessed or not. -/
def ExactCompiled (op : BitTest) (width : BitWidth) (address : BitVec 64) (index : BitVec width.operand.bits) (c : Cpu)
    (h : HostState) : Prop :=
  let a := h.gpr .rcx + address
  let k := index.toNat % width.operand.bits
  ¬ op.Accessible c (bitByte address index).toNat 1 ∨
    (op.HostAccessible h a (width.operand.bits / 8) ∧
      (InOperand index ∨
        op.Hidden ((h.memory (a + BitVec.ofNat 64 (k / 8))).getLsbD (k % 8)) (bitAt c (bitByte address index).toNat (k % 8))))

theorem bits_bytes (width : BitWidth) : width.operand.bits / 8 * 8 = width.operand.bits ∧ 0 < width.operand.bits := by
  cases width <;> decide

/-- What the architecture makes of a byte that may be accessed. -/
theorem onMemory_of_accessible {op : BitTest} {width : BitWidth} {address : BitVec 64}
    {index : BitVec width.operand.bits} {c : Cpu} (h : op.Accessible c (bitByte address index).toNat 1) :
    op.onMemory address index c =
      some (op.touched (bitByte address index).toNat (index.toNat % width.operand.bits % 8) c) := by
  have hplace := bitPlace_eq width index
  have hlt : bitPlace index < 8 := by omega
  rw [onMemory, onBit_of_accessible (by decide) hlt h, Nat.div_eq_of_lt hlt, Nat.mod_eq_of_lt hlt, hplace, Nat.add_zero]

theorem onMemory_of_not_accessible {op : BitTest} {width : BitWidth} {address : BitVec 64}
    {index : BitVec width.operand.bits} {c : Cpu} (h : ¬ op.Accessible c (bitByte address index).toNat 1) :
    op.onMemory address index c = none := onBit_of_not_accessible h

theorem exec_mem_iff {host : Host} {c : Cpu} (hreach : (AddressSpace.machine host).Reachable c.mmu) (op : BitTest)
    (width : BitWidth) (mem : Mem) (bit : width.operand.Reg) :
    (∀ c', op.onMemory (c.resolve mem) (c.get width.operand bit) c = some c' →
      op.exec width (.mem mem) bit c = some c') ↔
      op.ExactInterpreted width (c.resolve mem) (c.get width.operand bit) c := by
  set index := c.get width.operand bit with hindex
  set address := c.resolve mem with haddress
  obtain ⟨hbytes, hpos⟩ := bits_bytes width
  have hk : index.toNat % width.operand.bits < width.operand.bits := Nat.mod_lt _ hpos
  rw [exec_mem, ← hindex, ← haddress, ExactInterpreted]
  by_cases hbyte : op.Accessible c (bitByte address index).toNat 1
  · rw [onMemory_of_accessible hbyte]
    by_cases hoperand : op.Accessible c address.toNat (width.operand.bits / 8)
    · rw [onBit_of_accessible hbytes hk hoperand]
      -- the address of the byte that is tested does not wrap
      have hlt := AddressSpace.add_lt_of_allows hreach hoperand.1
        (show index.toNat % width.operand.bits / 8 < width.operand.bits / 8 by omega)
      have hsame : address.toNat + index.toNat % width.operand.bits / 8 = (bitByte address index).toNat ↔ InOperand index := by
        rw [InOperand, ← bitByte_eq_iff width index address, ← BitVec.toNat_inj, BitVec.toNat_add, BitVec.toNat_ofNat]
        rw [Nat.mod_eq_of_lt (show index.toNat % width.operand.bits / 8 < 2 ^ 64 by omega),
          Nat.mod_eq_of_lt (show address.toNat + index.toNat % width.operand.bits / 8 < 2 ^ 64 by omega)]
      have htouched := @touched_eq_iff op (address.toNat + index.toNat % width.operand.bits / 8) (bitByte address index).toNat
        (index.toNat % width.operand.bits % 8) (by omega) c
      rw [hsame] at htouched
      constructor
      · intro hclaim
        refine .inr ⟨hoperand, ?_⟩
        rcases htouched.1 (Option.some_inj.1 (hclaim _ rfl)) with hin | ⟨hbit, hupdate⟩
        · exact .inl hin
        · exact .inr ⟨hbit, hbit ▸ hupdate⟩
      · rintro (hno | ⟨-, hcase⟩) c' hc'
        · exact absurd hbyte hno
        · rw [← Option.some_inj.1 hc', Option.some_inj, htouched]
          rcases hcase with hin | ⟨hbit, hupdate⟩
          · exact .inl hin
          · exact .inr ⟨hbit, hbit ▸ hupdate⟩
    · rw [onBit_of_not_accessible hoperand]
      constructor
      · intro hclaim
        exact absurd (hclaim _ rfl) (by simp)
      · rintro (hno | ⟨hyes, -⟩)
        · exact absurd hbyte hno
        · exact absurd hyes hoperand
  · rw [onMemory_of_not_accessible hbyte]
    exact iff_of_true (fun c' hc' => absurd hc' (by simp)) (.inl hbyte)

/-! ## Compiled code -/

theorem guestByte_inj {h : HostState} {a b : Nat} (ha : a < 2 ^ 53) (hb : b < 2 ^ 53) :
    guestByte h a = guestByte h b ↔ a = b := by
  rw [guestByte, guestByte, BitVec.add_right_inj, ← BitVec.toNat_inj, BitVec.toNat_ofNat, BitVec.toNat_ofNat]
  omega

/-- A bit of a byte of the guest that is touched on the host. -/
theorem represents_touched {host : Host} {c : Cpu} (hreach : (AddressSpace.machine host).Reachable c.mmu) {h : HostState}
    (hr : Represents h c) {a : Nat} {region : MmuRegion} (ha : c.mmu.findAddress a = some region) (op : BitTest) (k : Nat) :
    Represents (op.touchedHost (guestByte h a) k h) (op.touched a k c) := by
  have hmem := (hr.byte a region ha).1
  have hbit : (h.memory (guestByte h a)).getLsbD k = bitAt c a k := by rw [hmem]; rfl
  have hcarry := hr.setCarry (bitAt c a k)
  have hkept : ∀ x, x ≠ guestByte h a →
      Window.putBit h.memory (guestByte h a) k (op.update (bitAt c a k)) x = h.memory x := fun x hx => if_neg hx
  rw [touchedHost, hbit]
  refine ⟨fun reg => ?_, hcarry.writable, hcarry.flags, ?_, hcarry.segment, hcarry.zero, fun b region' hb => ?_, hcarry.apart,
    hcarry.argument⟩
  · refine Eq.trans (b := h.load64 (registerCell h reg)) ?_ (hr.register reg)
    exact load_congr rfl fun i hi => hkept _ ((hr.apart a region ha).1 reg i hi).symm
  · refine Eq.trans (b := h.load64 (h.gpr .rdi + 0x30)) ?_ hr.fsBase
    exact load_congr rfl fun i hi => hkept _ ((hr.apart a region ha).2 i hi).symm
  · refine ⟨?_, (hr.byte b region' hb).2⟩
    have hinj := guestByte_inj (h := h) (AddressSpace.findAddress_lt hreach hb) (AddressSpace.findAddress_lt hreach ha)
    change Window.putBit h.memory (guestByte h a) k _ (guestByte h b) = Window.putBit c.mmu.memory.bytes a k _ b
    by_cases hab : b = a
    · rw [Window.putBit, Window.putBit, if_pos hab, if_pos (hinj.2 hab), (hr.byte b region' hb).1]
      rfl
    · rw [Window.putBit, Window.putBit, if_neg hab, if_neg fun h => hab (hinj.1 h), (hr.byte b region' hb).1]
      rfl

theorem compiled_mem_iff {host : Host} {c : Cpu} (hreach : (AddressSpace.machine host).Reachable c.mmu) {h : HostState}
    (hr : Represents h c) {op : BitTest} {width : BitWidth} {mem : Mem} {bit : width.operand.Reg} {code : List Instruction}
    (hcode : op.tryCompile width (.mem mem) bit = some code) :
    (∀ c', op.onMemory (c.resolve mem) (c.get width.operand bit) c = some c' →
      ∃ h', h.execAll code = some h' ∧ Represents h' c') ↔
      op.ExactCompiled width (c.resolve mem) (c.get width.operand bit) c h := by
  obtain ⟨hruns, hstops⟩ := exec_tryCompile_mem hr hcode rfl rfl
  set index := c.get width.operand bit with hindex
  set address := c.resolve mem with haddress
  set k := index.toNat % width.operand.bits with hk
  set x := h.gpr .rcx + address + BitVec.ofNat 64 (k / 8) with hx
  rw [ExactCompiled]
  by_cases hbyte : op.Accessible c (bitByte address index).toNat 1
  · rw [onMemory_of_accessible hbyte]
    obtain ⟨region, hregion, -⟩ := AddressSpace.allows_eq_true.1 hbyte.1 0 (by decide)
    rw [Nat.add_zero] at hregion
    have hsame : x = guestByte h (bitByte address index).toNat ↔ InOperand index := by
      rw [hx, guestByte, BitVec.ofNat_toNat, BitVec.setWidth_eq, BitVec.add_assoc, BitVec.add_right_inj, bitByte_eq_iff width,
        InOperand]
    have hguest := hr.byte _ region hregion
    by_cases hoperand : op.HostAccessible h (h.gpr .rcx + address) (width.operand.bits / 8)
    · obtain ⟨h', hrun, hscratch⟩ := hruns hoperand
      constructor
      · intro hclaim
        refine .inr ⟨hoperand, ?_⟩
        by_cases hin : InOperand index
        · exact .inl hin
        · obtain ⟨h'', hrun'', hrep⟩ := hclaim _ rfl
          obtain rfl : h' = h'' := Option.some_inj.1 (hrun.symm.trans hrun'')
          have hcarry : (h.memory x).getLsbD (k % 8) = bitAt c (bitByte address index).toNat (k % 8) :=
            congrArg Flags.carry (hscratch.flags.symm.trans hrep.flags)
          -- the byte of the guest is the one the host did not write
          have hstored := (hrep.byte _ region hregion).1
          have hcell : guestByte h' (bitByte address index).toNat = guestByte h (bitByte address index).toNat := by
            rw [guestByte, guestByte, hscratch.gpr .rcx (by decide) (by decide) (by decide)]
            rfl
          rw [hcell, hscratch.memory] at hstored
          have hleft : Window.putBit h.memory x (k % 8) (op.update ((h.memory x).getLsbD (k % 8)))
              (guestByte h (bitByte address index).toNat) = (c.mmu.memory (bitByte address index).toNat).toBitVec :=
            (if_neg fun h => hin (hsame.1 h.symm)).trans hguest.1
          have hright := hleft.symm.trans hstored
          simp only [touched, Window.putBit, if_true] at hright
          exact .inr ⟨hcarry, ((setBit_eq_self (by omega)).1 hright.symm).symm⟩
      · rintro (hno | ⟨-, hcase⟩) c' hc'
        · exact absurd hbyte hno
        · refine ⟨h', hrun, ?_⟩
          rw [← Option.some_inj.1 hc']
          apply hscratch.represents
          rcases hcase with hin | ⟨hbit, hupdate⟩
          · rw [hsame.2 hin]
            exact represents_touched hreach hr hregion op _
          · rw [touchedHost_of_update_eq (by omega) (hbit ▸ hupdate), touched_of_update_eq (by omega) hupdate, hbit]
            exact hr.setCarry _
    · constructor
      · intro hclaim
        obtain ⟨h', hrun, -⟩ := hclaim _ rfl
        exact absurd (hrun.symm.trans (hstops hoperand)) (by simp)
      · rintro (hno | ⟨hyes, -⟩)
        · exact absurd hbyte hno
        · exact absurd hyes hoperand
  · rw [onMemory_of_not_accessible hbyte]
    exact iff_of_true (fun c' hc' => absurd hc' (by simp)) (.inl hbyte)

/-- When the bit tests do what the architecture says, in the interpreter and in compiled code. -/
theorem exact_iff {host : Host} {c : Cpu} (hreach : (AddressSpace.machine host).Reachable c.mmu) (op : BitTest)
    (width : BitWidth) (bit : width.operand.Reg) :
    (∀ dst, op.exec width (.reg dst) bit c = op.onRegister width.operand dst (c.get width.operand bit) c) ∧
      (∀ mem,
        (∀ c', op.onMemory (c.resolve mem) (c.get width.operand bit) c = some c' →
          op.exec width (.mem mem) bit c = some c') ↔
          op.ExactInterpreted width (c.resolve mem) (c.get width.operand bit) c) ∧
      ∀ h : HostState, Represents h c →
        (∀ dst code, op.tryCompile width (.reg dst) bit = some code →
          ∀ c', op.onRegister width.operand dst (c.get width.operand bit) c = some c' →
            ∃ h', h.execAll code = some h' ∧ Represents h' c') ∧
          ∀ mem code, op.tryCompile width (.mem mem) bit = some code →
            ((∀ c', op.onMemory (c.resolve mem) (c.get width.operand bit) c = some c' →
              ∃ h', h.execAll code = some h' ∧ Represents h' c') ↔
              op.ExactCompiled width (c.resolve mem) (c.get width.operand bit) c h) := by
  refine ⟨fun dst => exec_reg op width dst bit c, fun mem => exec_mem_iff hreach op width mem bit, fun h hr => ⟨?_, ?_⟩⟩
  · intro dst code hcode c' hres
    exact exec_tryCompile_reg hr hcode hres
  · intro mem code hcode
    exact compiled_mem_iff hreach hr hcode

/-- Bit 1 of a page of zeroes. -/
theorem exact_iff_page : ∃ mmu c',
    (AddressSpace.machine lenientHost).run (.empty 1 fun _ => 0) Lockable.pageCalls = some mmu ∧
      bts.onMemory 0x10000 (1 : BitVec 16) (Lockable.oneInRbx mmu) = some c' ∧
      bts.exec .u16 (.mem Lockable.atPage) .bx (Lockable.oneInRbx mmu) = some c' := by
  obtain ⟨mmu, hmmu⟩ : ∃ mmu, (AddressSpace.machine lenientHost).run (.empty 1 fun _ => 0) Lockable.pageCalls = some mmu :=
    Option.isSome_iff_exists.1 (by decide)
  have hreach : (AddressSpace.machine lenientHost).Reachable mmu :=
    Machine.Reachable.run Lockable.pageCalls (Machine.Reachable.init ⟨_, _, rfl⟩) hmmu
  have hallows : (((AddressSpace.machine lenientHost).run (.empty 1 fun _ => 0) Lockable.pageCalls).map fun mmu =>
      (mmu.allows Prot.read 0x10000 2, mmu.allows Prot.write 0x10000 2)) = some (true, true) := by decide
  have hresult : (((AddressSpace.machine lenientHost).run (.empty 1 fun _ => 0) Lockable.pageCalls).bind fun mmu =>
      bts.onMemory 0x10000 (1 : BitVec 16) (Lockable.oneInRbx mmu)).isSome = true := by decide
  rw [hmmu, Option.map_some, Option.some_inj, Prod.mk.injEq] at hallows
  rw [hmmu, Option.bind_some] at hresult
  obtain ⟨c', hc'⟩ := Option.isSome_iff_exists.1 hresult
  have haddress : (Lockable.oneInRbx mmu).resolve Lockable.atPage = 0x10000 := by
    simp [Cpu.resolve, Lockable.oneInRbx, Lockable.atPage]
  have hexact := ((exact_iff (c := Lockable.oneInRbx mmu) hreach bts .u16 .bx).2.1 Lockable.atPage).2
  rw [haddress] at hexact
  have hindex : InOperand ((Lockable.oneInRbx mmu).get BitWidth.u16.operand .bx) :=
    show InOperand (BitVec.setWidth 16 (1 : BitVec 64)) from ⟨by decide, by decide⟩
  exact ⟨mmu, c', hmmu, hc', hexact (.inr ⟨⟨hallows.1, fun _ => hallows.2⟩, .inl hindex⟩) c' hc'⟩

/-- Bit 16 from a page on is in its third byte; the handler sets a bit of the first. -/
theorem exec_ne_onMemory : ¬ ∀ (host : Host) (c : Cpu), (AddressSpace.machine host).Reachable c.mmu →
    ∀ (op : BitTest) (width : BitWidth) (mem : Mem) (bit : width.operand.Reg) (c' : Cpu),
      op.onMemory (c.resolve mem) (c.get width.operand bit) c = some c' → op.exec width (.mem mem) bit c = some c' := by
  intro hclaim
  obtain ⟨mmu, hmmu⟩ : ∃ mmu, (AddressSpace.machine lenientHost).run (.empty 1 fun _ => 0) Lockable.pageCalls = some mmu :=
    Option.isSome_iff_exists.1 (by decide)
  have hreach : (AddressSpace.machine lenientHost).Reachable mmu :=
    Machine.Reachable.run Lockable.pageCalls (Machine.Reachable.init ⟨_, _, rfl⟩) hmmu
  have hthird : (((AddressSpace.machine lenientHost).run (.empty 1 fun _ => 0) Lockable.pageCalls).bind fun mmu =>
      let c := (Lockable.oneInRbx mmu).setGpr .rbx 16
      (bts.onMemory (c.resolve Lockable.atPage) (c.get .u16 .bx) c).map fun c => c.mmu.memory 0x10000) = some 0 := by
    decide
  have hfirst : (((AddressSpace.machine lenientHost).run (.empty 1 fun _ => 0) Lockable.pageCalls).bind fun mmu =>
      (bts.exec .u16 (.mem Lockable.atPage) .bx ((Lockable.oneInRbx mmu).setGpr .rbx 16)).map fun c =>
        c.mmu.memory 0x10000) = some 1 := by decide
  rw [hmmu, Option.bind_some] at hthird hfirst
  obtain ⟨c', hc', hbyte⟩ := Option.map_eq_some_iff.1 hthird
  have hexec := hclaim lenientHost ((Lockable.oneInRbx mmu).setGpr .rbx 16) hreach bts .u16 Lockable.atPage .bx c' hc'
  rw [hexec, Option.map_some, Option.some_inj, hbyte] at hfirst
  exact absurd hfirst (by decide)

end BitTest

end X64Emulator
