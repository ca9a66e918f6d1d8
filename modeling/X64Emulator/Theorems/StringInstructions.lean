import X64Emulator.Lemmas.RegionCalls
import X64Emulator.Lemmas.StringInstructions
import X64Emulator.Theorems.LockedInstructions

/-!
# String instructions

The handlers take the elements in the order of the architecture, but most count with the lower half of `rcx`. They are right where
the upper half is zero; otherwise they stop early, unless an element among those they get to cannot be accessed. The handler of
`rep movs` for bytes copies a block as a whole, which is right unless the destination begins inside a source that does not repeat
itself at that distance; and with a count of zero it needs access to a byte all the same.
-/

namespace X64Emulator

open Ir

namespace StringInstruction

open Cpu
open Lockable (acc)

theorem small_of_reachable {host : Host} {s : AddressSpace} (h : (AddressSpace.machine host).Reachable s) : Small s :=
  fun _ _ ha => AddressSpace.findAddress_lt h ha

/-! ## Copies of bytes -/

/-- The bytes of a copy may be accessed. -/
def Fits (mmu : AddressSpace) (dptr sptr : BitVec 64) (n : Nat) : Prop :=
  mmu.allows Prot.read sptr.toNat n = true ∧ mmu.allows Prot.write dptr.toNat n = true

instance (mmu : AddressSpace) (dptr sptr : BitVec 64) (n : Nat) : Decidable (Fits mmu dptr sptr n) :=
  inferInstanceAs (Decidable (_ ∧ _))

theorem allows_succ (s : AddressSpace) (right : Prot → Bool) (a n : Nat) :
    s.allows right a (n + 1) = true ↔ s.allows right a 1 = true ∧ s.allows right (a + 1) n = true := by
  rw [AddressSpace.allows_eq_true, AddressSpace.allows_eq_true, AddressSpace.allows_eq_true]
  constructor
  · intro h
    refine ⟨fun i hi => h i (by omega), fun i hi => ?_⟩
    have hnext := h (i + 1) (by omega)
    rwa [show a + (i + 1) = a + 1 + i by omega] at hnext
  · rintro ⟨hfirst, hrest⟩ i hi
    cases i with
    | zero => exact hfirst 0 (by omega)
    | succ i =>
      have hnext := hrest i (by omega)
      rwa [show a + 1 + i = a + (i + 1) by omega] at hnext

/-- A byte is copied. -/
theorem element_byte (c : Cpu) (dptr sptr : BitVec 64) (h : Fits c.mmu dptr sptr 1) :
    (movs .u8).element dptr sptr c =
      some { c with
        mmu := { c.mmu with memory := BlockCopy.put c.mmu.memory dptr.toNat (c.mmu.memory sptr.toNat) } } := by
  have hread := AddressSpace.read_byte h.1
  have hwrite : c.mmu.write dptr.toNat (c.mmu.memory sptr.toNat).toBitVec = _ := AddressSpace.write_byte h.2
  simp [element, getPtr, hread, setPtr, OperandWidth.bits, hwrite]
  rfl

theorem element_byte_eq_none (c : Cpu) (dptr sptr : BitVec 64) (h : ¬ Fits c.mmu dptr sptr 1) :
    (movs .u8).element dptr sptr c = none := by
  cases hread : c.getPtr 8 sptr with
  | none => simp [element, OperandWidth.bits, hread]
  | some x =>
    have hallows := (AddressSpace.read_eq_some.1 hread).1
    have hdenied : c.mmu.allows Prot.write dptr.toNat 1 ≠ true := fun hyes => h ⟨hallows, hyes⟩
    have hwrite : c.mmu.write dptr.toNat x = none := AddressSpace.write_eq_none hdenied
    simp [element, OperandWidth.bits, hread, setPtr, hwrite]

theorem toNat_add_one {mmu : AddressSpace} (hsmall : Small mmu) {right : Prot → Bool} {p : BitVec 64}
    (h : mmu.allows right p.toNat 1 = true) : (p + 1).toNat = p.toNat + 1 := by
  obtain ⟨region, hregion, -⟩ := AddressSpace.allows_eq_true.1 h 0 (by omega)
  have hlt := hsmall _ region hregion
  rw [BitVec.toNat_add, show (1 : BitVec 64).toNat = 1 from rfl]
  omega

theorem fits_succ {mmu : AddressSpace} {dptr sptr : BitVec 64} {n : Nat} (hsmall : Small mmu) :
    Fits mmu dptr sptr (n + 1) ↔ Fits mmu dptr sptr 1 ∧ Fits mmu (dptr + 1) (sptr + 1) n := by
  have hsrc := allows_succ mmu Prot.read sptr.toNat n
  have hdst := allows_succ mmu Prot.write dptr.toNat n
  constructor
  · intro h
    obtain ⟨hread, hreads⟩ := hsrc.1 h.1
    obtain ⟨hwrite, hwrites⟩ := hdst.1 h.2
    rw [← toNat_add_one hsmall hread] at hreads
    rw [← toNat_add_one hsmall hwrite] at hwrites
    exact ⟨⟨hread, hwrite⟩, hreads, hwrites⟩
  · rintro ⟨⟨hread, hwrite⟩, hreads, hwrites⟩
    rw [toNat_add_one hsmall hread] at hreads
    rw [toNat_add_one hsmall hwrite] at hwrites
    exact ⟨hsrc.2 ⟨hread, hreads⟩, hdst.2 ⟨hwrite, hwrites⟩⟩

/-- The locals behind the copy of a byte. -/
def copied (l : Locals) : Locals :=
  ⟨l.dptr + 1, l.sptr + 1, { l.cpu with
    mmu := { l.cpu.mmu with memory := BlockCopy.put l.cpu.mmu.memory l.dptr.toNat (l.cpu.mmu.memory l.sptr.toNat) } }⟩

theorem loop_succ_of_fits {l : Locals} (h : Fits l.cpu.mmu l.dptr l.sptr 1) (n : Nat) :
    (movs .u8).loop (n + 1) l = (movs .u8).loop n (copied l) := by
  rw [loop, CountedLoop.run_succ, body, element_byte _ _ _ h]
  rfl

theorem loop_succ_of_not_fits {l : Locals} (h : ¬ Fits l.cpu.mmu l.dptr l.sptr 1) (n : Nat) :
    (movs .u8).loop (n + 1) l = none := by
  rw [loop, CountedLoop.run_succ, body, element_byte_eq_none _ _ _ h]
  rfl

/-- A copy of bytes one after the other. -/
theorem loop_bytes {n : Nat} {l : Locals} (hsmall : Small l.cpu.mmu) (h : Fits l.cpu.mmu l.dptr l.sptr n) :
    (movs .u8).loop n l = some (0, ⟨l.dptr + BitVec.ofNat 64 n, l.sptr + BitVec.ofNat 64 n,
      { l.cpu with
        mmu := { l.cpu.mmu with
          memory := BlockCopy.copyUp l.cpu.mmu.memory l.dptr.toNat l.sptr.toNat n } }⟩) := by
  induction n generalizing l with
  | zero => simp [loop, BlockCopy.copyUp]
  | succ n ih =>
    obtain ⟨hfirst, hrest⟩ := (fits_succ hsmall).1 h
    have hdptr := toNat_add_one hsmall hfirst.2
    have hsptr := toNat_add_one hsmall hfirst.1
    have hone : ∀ p : BitVec 64, p + BitVec.ofNat 64 (n + 1) = p + 1 + BitVec.ofNat 64 n := by
      intro p
      rw [Nat.add_comm n 1, BitVec.ofNat_add, BitVec.add_assoc]
      rfl
    have hcopied := ih (l := copied l) hsmall hrest
    rw [loop_succ_of_fits hfirst, hcopied, BlockCopy.copyUp_succ, hone, hone, ← hdptr, ← hsptr]
    rfl

theorem loop_bytes_eq_none {n : Nat} {l : Locals} (hsmall : Small l.cpu.mmu) (h : ¬ Fits l.cpu.mmu l.dptr l.sptr n) :
    (movs .u8).loop n l = none := by
  induction n generalizing l with
  | zero => exact absurd ⟨rfl, rfl⟩ h
  | succ n ih =>
    by_cases hfirst : Fits l.cpu.mmu l.dptr l.sptr 1
    · rw [loop_succ_of_fits hfirst]
      exact ih hsmall fun hrest => h ((fits_succ hsmall).2 ⟨hfirst, hrest⟩)
    · exact loop_succ_of_not_fits hfirst n

theorem allows_max (mmu : AddressSpace) (right : Prot → Bool) (a n : Nat) :
    mmu.allows right a (max n 1) = true ↔ mmu.allows right a 1 = true ∧ mmu.allows right a n = true := by
  rw [AddressSpace.allows_eq_true, AddressSpace.allows_eq_true, AddressSpace.allows_eq_true]
  constructor
  · intro h
    exact ⟨fun i hi => h i (by omega), fun i hi => h i (by omega)⟩
  · rintro ⟨hone, hall⟩ i hi
    by_cases hin : i < n
    · exact hall i hin
    · exact hone i (by omega)

/-- The last byte of a source that may be read. -/
theorem allows_last {mmu : AddressSpace} (hsmall : Small mmu) {p : BitVec 64} {n : Nat} (hn : n < 2 ^ 32) (hpos : n > 0)
    (h : mmu.allows Prot.read p.toNat n = true) : mmu.allows Prot.read (p + BitVec.ofNat 64 n - 1).toNat 1 = true := by
  rw [AddressSpace.allows_eq_true] at h ⊢
  obtain ⟨region, hregion, hread⟩ := h (n - 1) (by omega)
  have hlt := hsmall _ region hregion
  have hlast : (p + BitVec.ofNat 64 n - 1).toNat = p.toNat + (n - 1) := by
    rw [BitVec.toNat_sub, BitVec.toNat_add, BitVec.toNat_ofNat, show (1 : BitVec 64).toNat = 1 from rfl]
    omega
  intro i hi
  obtain rfl : i = 0 := by omega
  rw [hlast]
  exact ⟨region, hregion, hread⟩

/-- A copy of a block looks at one byte at least. -/
theorem copyBytes_of_fits {mmu : AddressSpace} (hsmall : Small mmu) {dptr sptr : BitVec 64} {n : Nat} (hn : n < 2 ^ 32)
    (h : Fits mmu dptr sptr (max n 1)) :
    mmu.copyBytes dptr sptr n = some { mmu with memory := BlockCopy.copy mmu.memory dptr.toNat sptr.toNat n } := by
  obtain ⟨hread, hreads⟩ := (allows_max mmu Prot.read sptr.toNat n).1 h.1
  obtain ⟨hwrite, hwrites⟩ := (allows_max mmu Prot.write dptr.toNat n).1 h.2
  by_cases hpos : n > 0
  · have hlast := allows_last hsmall hn hpos hreads
    simp only [AddressSpace.copyBytes, verify_of, hread, hreads, hwrite, hwrites, hpos, hlast, if_true, Option.bind_eq_bind,
      Option.bind_some]
  · simp only [AddressSpace.copyBytes, verify_of, hread, hreads, hwrite, hwrites, hpos, if_false, Option.bind_eq_bind,
      Option.bind_some]

theorem copyBytes_eq_none {mmu : AddressSpace} {dptr sptr : BitVec 64} {n : Nat} (h : ¬ Fits mmu dptr sptr (max n 1)) :
    mmu.copyBytes dptr sptr n = none := by
  rw [Fits, allows_max, allows_max] at h
  by_contra hsome
  obtain ⟨m, hm⟩ := Option.ne_none_iff_exists'.1 hsome
  apply h
  by_cases hpos : n > 0
  · simp only [AddressSpace.copyBytes, hpos, if_true, Option.bind_eq_bind, Option.bind_eq_some_iff, verify_eq_some] at hm
    obtain ⟨-, hwrite, -, hread, -, -, -, hreads, -, hwrites, -⟩ := hm
    exact ⟨⟨hread, hreads⟩, hwrite, hwrites⟩
  · simp only [AddressSpace.copyBytes, hpos, if_false, Option.bind_eq_bind, Option.bind_eq_some_iff, verify_eq_some] at hm
    obtain ⟨-, hwrite, -, hread, -, hreads, -, hwrites, -⟩ := hm
    exact ⟨⟨hread, hreads⟩, hwrite, hwrites⟩

/-- When the handler for bytes is right. -/
def CopiesBytes (c : Cpu) : Prop :=
  let n := (c.get32 .ecx).toNat
  (¬ Fits c.mmu (c.gpr .rdi) (c.gpr .rsi) (max n 1) ∧ (c.gpr .rcx).toNat ≠ 0) ∨
    (Fits c.mmu (c.gpr .rdi) (c.gpr .rsi) (max n 1) ∧ (c.gpr .rcx).toNat < 2 ^ 32 ∧
      BlockCopy.Repeats c.mmu.memory (c.gpr .rdi).toNat (c.gpr .rsi).toNat n)

theorem toNat_ecx (c : Cpu) : (c.get32 .ecx).toNat = (c.gpr .rcx).toNat % 2 ^ 32 := BitVec.toNat_setWidth 32 (c.gpr .rcx)

/-- What the handler leaves where the bytes may be accessed. -/
def blockCopied (c : Cpu) (memory : Memory) : Cpu :=
  let n := BitVec.ofNat 64 (c.get32 .ecx).toNat
  (movs .u8).put 0 ⟨c.gpr .rdi + n, c.gpr .rsi + n, { c with mmu := { c.mmu with memory := memory } }⟩

theorem execRepMovsM8M8_of_fits {c : Cpu} (hsmall : Small c.mmu) (hdir : c.flags.direction = false) (hflat : Flat c)
    (h : Fits c.mmu (c.gpr .rdi) (c.gpr .rsi) (max (c.get32 .ecx).toNat 1)) :
    c.execRepMovsM8M8 dst src = some (blockCopied c
      (BlockCopy.copy c.mmu.memory (c.gpr .rdi).toNat (c.gpr .rsi).toNat (c.get32 .ecx).toNat)) := by
  have hwidth : (c.get32 .ecx).setWidth 64 = BitVec.ofNat 64 (c.get32 .ecx).toNat := (BitVec.ofNat_toNat 64 _).symm
  rw [execRepMovsM8M8, verify_of hdir, (resolve_operands hflat).1, (resolve_operands hflat).2,
    copyBytes_of_fits hsmall (c.get32 .ecx).isLt h, hwidth]
  rfl

theorem execRepMovsM8M8_of_not_fits {c : Cpu} (hdir : c.flags.direction = false) (hflat : Flat c)
    (h : ¬ Fits c.mmu (c.gpr .rdi) (c.gpr .rsi) (max (c.get32 .ecx).toNat 1)) : c.execRepMovsM8M8 dst src = none := by
  rw [execRepMovsM8M8, verify_of hdir, (resolve_operands hflat).1, (resolve_operands hflat).2, copyBytes_eq_none h]
  rfl

/-- The turns of the lower half of the count, where the bytes may be accessed. -/
theorem turns_bytes {c : Cpu} (hsmall : Small c.mmu)
    (h : Fits c.mmu (c.gpr .rdi) (c.gpr .rsi) (c.get32 .ecx).toNat) (hcount : (c.gpr .rcx).toNat = (c.get32 .ecx).toNat) :
    (movs .u8).repeated c = some (blockCopied c
      (BlockCopy.copyUp c.mmu.memory (c.gpr .rdi).toNat (c.gpr .rsi).toNat (c.get32 .ecx).toNat)) := by
  have hturns := turns_eq (movs .u8) c (Nat.add_zero (c.gpr .rcx).toNat)
  rw [repeated, hturns, hcount, loop_bytes hsmall h]
  rfl

theorem execRepMovsM8M8_eq_iff {c : Cpu} (hsmall : Small c.mmu) (hdir : c.flags.direction = false) (hflat : Flat c) :
    c.execRepMovsM8M8 dst src = (movs .u8).repeated c ↔ CopiesBytes c := by
  have hcount := toNat_ecx c
  rw [CopiesBytes]
  by_cases hfits : Fits c.mmu (c.gpr .rdi) (c.gpr .rsi) (max (c.get32 .ecx).toNat 1)
  · have hall : Fits c.mmu (c.gpr .rdi) (c.gpr .rsi) (c.get32 .ecx).toNat :=
      ⟨((allows_max _ _ _ _).1 hfits.1).2, ((allows_max _ _ _ _).1 hfits.2).2⟩
    rw [execRepMovsM8M8_of_fits hsmall hdir hflat hfits]
    constructor
    · intro hsame
      obtain ⟨k, hle, hrcx, hrdi⟩ := of_turns (Nat.le_refl _) hsame.symm hsmall
      have hlt := (c.gpr .rcx).isLt
      have hk : k = 0 := by
        have hnat := congrArg BitVec.toNat ((rcx_put (movs .u8) 0 _).symm.trans hrcx)
        rw [BitVec.toNat_ofNat, BitVec.toNat_ofNat] at hnat
        omega
      -- the pointer of the turns has come as far as the one of the block
      have hloop := (dptr_of_loop (loop_bytes (l := (movs .u8).start c) hsmall hall) hsmall).2
      have hall' : (c.gpr .rcx).toNat = (c.get32 .ecx).toNat := by
        change (c.gpr .rdi + BitVec.ofNat 64 (c.get32 .ecx).toNat).toNat + 1 * k = (c.gpr .rdi).toNat + 1 * _ at hrdi
        change (c.gpr .rdi + BitVec.ofNat 64 (c.get32 .ecx).toNat).toNat + 1 * 0 = (c.gpr .rdi).toNat + 1 * _ at hloop
        omega
      refine .inr ⟨hfits, by omega, BlockCopy.copy_eq_copyUp_iff.1 ?_⟩
      rw [turns_bytes hsmall hall hall'] at hsame
      exact congrArg (fun c => c.mmu.memory) (Option.some_inj.1 hsame)
    · rintro (⟨hno, -⟩ | ⟨-, hlt, hrepeats⟩)
      · exact absurd hfits hno
      · rw [turns_bytes hsmall hall (by omega), BlockCopy.copy_eq_copyUp_iff.2 hrepeats]
  · rw [execRepMovsM8M8_of_not_fits hdir hflat hfits]
    constructor
    · intro hsame
      refine .inl ⟨hfits, fun hzero => ?_⟩
      rw [repeated, hzero] at hsame
      exact absurd hsame (by simp [turns])
    · rintro (⟨-, hpos⟩ | ⟨hyes, -⟩)
      · have hnone := loop_bytes_eq_none (l := (movs .u8).start c) hsmall hfits
        have hrun := CountedLoop.run_eq_none_of_le (show max (c.get32 .ecx).toNat 1 ≤ (c.gpr .rcx).toNat by omega) hnone
        have hturns := turns_eq (movs .u8) c (Nat.add_zero (c.gpr .rcx).toNat)
        rw [repeated, hturns, loop, hrun]
        rfl
      · exact absurd hyes hfits

/-! ## All of them -/

/-- When the handler of an instruction is right. -/
def Exact (c : Cpu) : StringInstruction → Prop
  | .movs .u8 => CopiesBytes c
  | .stos .u64 => True
  | .scas _ => True
  | i => i.turns (c.get32 .ecx).toNat c = none ∨ (c.gpr .rcx).toNat < 2 ^ 32

theorem lower_half_iff (c : Cpu) : (c.gpr .rcx).toNat = (c.get32 .ecx).toNat ↔ (c.gpr .rcx).toNat < 2 ^ 32 := by
  rw [toNat_ecx]
  omega

/-- A handler that counts with the lower half. -/
theorem lower_half_eq_iff {i : StringInstruction} {c : Cpu} (hsmall : Small c.mmu)
    (hexec : i.exec c = (i.loop (c.get32 .ecx).toNat (i.start c)).map fun p => i.put p.1 p.2) :
    i.exec c = i.repeated c ↔ i.turns (c.get32 .ecx).toNat c = none ∨ (c.gpr .rcx).toNat < 2 ^ 32 := by
  rw [hexec, ← lower_half_iff]
  refine eq_repeated_iff ?_ hsmall
  rw [toNat_ecx]
  exact Nat.mod_le _ _

/-- A handler that counts with the whole register. -/
theorem whole_eq {i : StringInstruction} {c : Cpu} (hsmall : Small c.mmu)
    (hexec : i.exec c = (i.loop (c.get64 .rcx).toNat (i.start c)).map fun p => i.put p.1 p.2) :
    i.exec c = i.repeated c := by
  rw [hexec]
  exact (eq_repeated_iff (Nat.le_refl _) hsmall).2 (.inr rfl)

/-- In which states a handler does what the architecture says. The handlers of `movs` without a prefix are the single step. -/
theorem exec_eq_repeated_iff {host : Host} {c : Cpu} (hreach : (AddressSpace.machine host).Reachable c.mmu) (hflat : Flat c)
    (hdir : c.flags.direction = false) (i : StringInstruction) :
    (i.exec c = i.repeated c ↔ i.Exact c) ∧ ∀ width, i = .movs width → c.execMovs width dst src = i.step c := by
  have hsmall := small_of_reachable hreach
  refine ⟨?_, fun width hi => hi ▸ execMovs_eq hdir hflat width⟩
  cases i with
  | movs width =>
    cases width with
    | u8 => exact execRepMovsM8M8_eq_iff hsmall hdir hflat
    | u16 => exact lower_half_eq_iff hsmall (execRepMovs_eq hdir hflat .u16)
    | u32 => exact lower_half_eq_iff hsmall (execRepMovs_eq hdir hflat .u32)
    | u64 => exact lower_half_eq_iff hsmall (execRepMovs_eq hdir hflat .u64)
  | stos width =>
    cases width with
    | u8 => exact lower_half_eq_iff hsmall (execRepStos_eq hdir hflat .u8 _)
    | u16 => exact lower_half_eq_iff hsmall (execRepStos_eq hdir hflat .u16 _)
    | u32 => exact lower_half_eq_iff hsmall (execRepStos_eq hdir hflat .u32 _)
    | u64 => exact iff_of_true (whole_eq hsmall (execRepStos_eq hdir hflat .u64 _)) trivial
  | cmps => exact lower_half_eq_iff hsmall (execRepCmps_eq hdir hflat)
  | scas width =>
    refine iff_of_true ?_ trivial
    cases width with
    | u8 => exact whole_eq hsmall (execRepNZScas_eq hdir hflat .u8)
    | u16 => exact whole_eq hsmall (execRepNZScas_eq hdir hflat .u16)
    | u32 => exact whole_eq hsmall (execRepNZScas_eq hdir hflat .u32)
    | u64 => exact whole_eq hsmall (execRepNZScas_eq hdir hflat .u64)

/-- A state that is about to repeat something at two places of a page. -/
def atPage (count dptr sptr : BitVec 64) (mmu : AddressSpace) : Cpu :=
  (((Lockable.oneInRbx mmu).setGpr .rcx count).setGpr .rdi dptr).setGpr .rsi sptr

/-- The calls of `pageCalls`, and a byte. -/
def byteCalls : List MmuCall := Lockable.pageCalls ++ [.write8 0x10000 1]

/-- The calls of `byteCalls`, and two bytes behind it of which the second is the same. -/
def bytesCalls : List MmuCall := byteCalls ++ [.write8 0x10001 2, .write8 0x10002 1]

/-- Three bytes are copied to where the last of them is. -/
theorem exec_eq_repeated_overlapping : ∃ mmu,
    (AddressSpace.machine lenientHost).run (.empty 1 fun _ => 0) bytesCalls = some mmu ∧
      (movs .u8).exec (atPage 3 0x10002 0x10000 mmu) = (movs .u8).repeated (atPage 3 0x10002 0x10000 mmu) ∧
      ((movs .u8).exec (atPage 3 0x10002 0x10000 mmu)).map (fun c => [0x10002, 0x10003, 0x10004].map c.mmu.memory) =
        some [1, 2, 1] := by
  have hpage : ((AddressSpace.machine lenientHost).run (.empty 1 fun _ => 0) bytesCalls).map (fun mmu =>
      decide (Fits mmu 0x10002 0x10000 3 ∧ mmu.memory 0x10002 = mmu.memory 0x10000 ∧
        ((movs .u8).exec (atPage 3 0x10002 0x10000 mmu)).map (fun c => [0x10002, 0x10003, 0x10004].map c.mmu.memory) =
          some [1, 2, 1])) = some true := by decide
  obtain ⟨mmu, hmmu, hfound⟩ := Option.map_eq_some_iff.1 hpage
  obtain ⟨hfits, hsame, hcopied⟩ := of_decide_eq_true hfound
  have hreach : (AddressSpace.machine lenientHost).Reachable mmu :=
    Machine.Reachable.run bytesCalls (Machine.Reachable.init ⟨_, _, rfl⟩) hmmu
  have hexact : (movs .u8).Exact (atPage 3 0x10002 0x10000 mmu) := by
    refine .inr ⟨hfits, show (3 : BitVec 64).toNat < 2 ^ 32 by decide, ?_⟩
    -- only the third byte of the source lies in the destination
    intro i hi j hj heq
    change i < 3 at hi
    change 0x10000 + i = 0x10002 + j at heq
    obtain ⟨rfl, rfl⟩ : i = 2 ∧ j = 0 := by omega
    exact hsame
  exact ⟨mmu, hmmu, (exec_eq_repeated_iff hreach ⟨rfl, rfl⟩ rfl (movs .u8)).1.2 hexact, hcopied⟩

/-- A byte that is copied to the next place and from there to the one behind it arrives at the first only. -/
theorem exec_ne_repeated : ¬ ∀ (host : Host) (c : Cpu), (AddressSpace.machine host).Reachable c.mmu → Flat c →
    c.flags.direction = false → ∀ i : StringInstruction, i.exec c = i.repeated c := by
  intro hclaim
  obtain ⟨mmu, hmmu⟩ : ∃ mmu, (AddressSpace.machine lenientHost).run (.empty 1 fun _ => 0) byteCalls = some mmu :=
    Option.isSome_iff_exists.1 (by decide)
  have hreach : (AddressSpace.machine lenientHost).Reachable mmu :=
    Machine.Reachable.run byteCalls (Machine.Reachable.init ⟨_, _, rfl⟩) hmmu
  have hblock : (((AddressSpace.machine lenientHost).run (.empty 1 fun _ => 0) byteCalls).bind fun mmu =>
      ((movs .u8).exec (atPage 2 0x10001 0x10000 mmu)).map fun c => c.mmu.memory 0x10002) = some 0 := by decide
  have hbytes : (((AddressSpace.machine lenientHost).run (.empty 1 fun _ => 0) byteCalls).bind fun mmu =>
      ((movs .u8).repeated (atPage 2 0x10001 0x10000 mmu)).map fun c => c.mmu.memory 0x10002) = some 1 := by decide
  rw [hmmu, Option.bind_some] at hblock hbytes
  rw [hclaim lenientHost (atPage 2 0x10001 0x10000 mmu) hreach ⟨rfl, rfl⟩ rfl, hbytes] at hblock
  exact absurd hblock (by decide)

end StringInstruction

end X64Emulator
