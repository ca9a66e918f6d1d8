import X64Emulator.CompiledInstructions
import X64Emulator.Lemmas.Cpu

/-!
# States of the host that stand for states of the guest

Compiled code finds the registers of the guest in an array, its memory behind a base, and its flags in the flags of the host. Three
registers of the host are free for the code to use: `Scratch` says that nothing but these has changed.
-/

namespace X64Emulator

open Ir

namespace Compiler

/-- Where the array of registers keeps a register. -/
def registerCell (h : HostState) (reg : R64) : BitVec 64 := h.gpr .rsi + BitVec.ofInt 64 (registerOffset reg).toInt

/-- The host address of a byte of guest memory. -/
def guestByte (h : HostState) (a : Nat) : BitVec 64 := h.gpr .rcx + BitVec.ofNat 64 a

/-- The host holds the state of the guest. -/
structure Represents (h : HostState) (c : Cpu) : Prop where
  register : ∀ reg, h.load64 (registerCell h reg) = some (c.gpr reg)
  writable : ∀ reg, h.mayWrite (registerCell h reg) 8 = true
  flags : h.flags = c.flags
  fsBase : h.load64 (h.gpr .rdi + 0x30) = some (c.segmentBase .fs)
  segment : ∀ seg, seg ≠ .fs → c.segmentBase seg = 0
  zero : c.gpr .zero = 0
  byte : ∀ a region, c.mmu.findAddress a = some region →
    h.memory (guestByte h a) = (c.mmu.memory a).toBitVec ∧ h.readable (guestByte h a) = region.prot.read ∧
      h.writable (guestByte h a) = region.prot.write
  apart : ∀ a region, c.mmu.findAddress a = some region →
    (∀ reg i, i < 8 → guestByte h a ≠ registerCell h reg + BitVec.ofNat 64 i) ∧
      ∀ i < 8, guestByte h a ≠ h.gpr .rdi + 0x30 + BitVec.ofNat 64 i
  argument : ∀ reg, ∀ i < 8, ∀ j < 8,
    registerCell h reg + BitVec.ofNat 64 i ≠ h.gpr .rdi + 0x30 + BitVec.ofNat 64 j

/-- The state has changed in the registers that compiled code may use freely at most. -/
structure Scratch (h h' : HostState) : Prop where
  gpr : ∀ r, r ≠ .r8 → r ≠ .r9 → r ≠ .r10 → h'.gpr r = h.gpr r
  flags : h'.flags = h.flags
  memory : h'.memory = h.memory
  readable : h'.readable = h.readable
  writable : h'.writable = h.writable

namespace Scratch

/-- Doing nothing touches nothing. -/
theorem refl (h : HostState) : Scratch h h := ⟨fun _ _ _ _ => rfl, rfl, rfl, rfl, rfl⟩

/-- Two steps within the scratch registers are one. -/
theorem trans {h h' h'' : HostState} (h1 : Scratch h h') (h2 : Scratch h' h'') : Scratch h h'' where
  gpr r h8 h9 h10 := (h2.gpr r h8 h9 h10).trans (h1.gpr r h8 h9 h10)
  flags := h2.flags.trans h1.flags
  memory := h2.memory.trans h1.memory
  readable := h2.readable.trans h1.readable
  writable := h2.writable.trans h1.writable

/-- Setting a scratch register touches no other. -/
theorem set (h : HostState) {r : R64} (hr : r = .r8 ∨ r = .r9 ∨ r = .r10) (value : BitVec 64) : Scratch h (h.set r value) where
  gpr q h8 h9 h10 := by
    have hne : q ≠ r := by
      rintro rfl
      rcases hr with rfl | rfl | rfl
      · exact h8 rfl
      · exact h9 rfl
      · exact h10 rfl
    exact if_neg hne
  flags := rfl
  memory := rfl
  readable := rfl
  writable := rfl

/-- The scratch registers hold no memory. -/
theorem load {h h' : HostState} (hs : Scratch h h') (width : OperandWidth) (a : BitVec 64) : h'.load width a = h.load width a := by
  rw [HostState.load, HostState.load, HostState.mayRead, HostState.mayRead, hs.readable, hs.memory]

/-- A cell reads the same beside the scratch registers. -/
theorem load64 {h h' : HostState} (hs : Scratch h h') (a : BitVec 64) : h'.load64 a = h.load64 a := hs.load .u64 a

/-- The scratch registers hold nothing of the guest. -/
theorem represents {h h' : HostState} (hs : Scratch h h') {c : Cpu} (hr : Represents h c) : Represents h' c := by
  have hrsi : h'.gpr .rsi = h.gpr .rsi := hs.gpr _ (by decide) (by decide) (by decide)
  have hrdi : h'.gpr .rdi = h.gpr .rdi := hs.gpr _ (by decide) (by decide) (by decide)
  have hrcx : h'.gpr .rcx = h.gpr .rcx := hs.gpr _ (by decide) (by decide) (by decide)
  have hcell : registerCell h' = registerCell h := by
    funext reg
    rw [registerCell, registerCell, hrsi]
  have hbyte : guestByte h' = guestByte h := by
    funext a
    rw [guestByte, guestByte, hrcx]
  constructor
  · intro reg
    rw [HostState.load64, hs.load, hcell]
    exact hr.register reg
  · intro reg
    rw [HostState.mayWrite, hs.writable, hcell]
    exact hr.writable reg
  · rw [hs.flags, hr.flags]
  · rw [HostState.load64, hs.load, hrdi]
    exact hr.fsBase
  · exact hr.segment
  · exact hr.zero
  · rw [hbyte, hs.memory, hs.readable, hs.writable]
    exact hr.byte
  · rw [hbyte, hcell, hrdi]
    exact hr.apart
  · rw [hcell, hrdi]
    exact hr.argument

end Scratch

/-! ## The instructions that read registers and compute addresses -/

/-- No register of the compiler is the pseudo register of zero. -/
theorem get_ne_zero (reg : Reg) : Compiler.get reg ≠ .zero := by
  cases reg <;> decide

/-- The address of a base and an offset. -/
theorem address_base (h : HostState) {base : R64} (hbase : base ≠ .zero) (off : Int32) :
    h.address ⟨.cs, make64 base off⟩ = some (h.gpr base + BitVec.ofInt 64 off.toInt) := by
  simp [HostState.address, make64, HostState.get, hbase]

/-- The address of a base, an index and an offset. -/
theorem address_index (h : HostState) {seg : Segment} (hseg : seg = .cs ∨ seg = .unk) {base index : R64} (hbase : base ≠ .zero)
    (hindex : index ≠ .zero) (scale : UInt8) (off : Int32) :
    h.address ⟨seg, make64Index base index scale off⟩ =
      some (h.gpr base + h.gpr index * BitVec.ofNat 64 scale.toNat + BitVec.ofInt 64 off.toInt) := by
  rcases hseg with rfl | rfl <;> simp [HostState.address, make64Index, HostState.get, hbase, hindex]

variable {h : HostState} {c : Cpu}

/-- Reading a guest register loads its value. -/
theorem exec_readReg64 (hr : Represents h c) (dst : Reg) (src : R64) :
    h.exec (readReg64 dst src) = some (h.set (get dst) (c.gpr src)) := by
  change ((h.address ⟨.cs, make64 .rsi (registerOffset src)⟩).bind fun a => (h.load64 a).map (h.set (get dst) ·)) = _
  have hload := hr.register src
  rw [registerCell] at hload
  rw [address_base h (by decide), Option.bind_some, hload, Option.map_some]

/-- Reading the base of `fs` loads it. -/
theorem exec_readFsBase (hr : Represents h c) (dst : Reg) :
    h.exec (readFsBase dst) = some (h.set (get dst) (c.segmentBase .fs)) := by
  change ((h.address ⟨.cs, make64 .rdi 0x30⟩).bind fun a => (h.load64 a).map (h.set (get dst) ·)) = _
  have hoff : BitVec.ofInt 64 (0x30 : Int32).toInt = 0x30 := by decide
  rw [address_base h (by decide), Option.bind_some, hoff, hr.fsBase, Option.map_some]

/-- `lea` adds a scaled index. -/
theorem exec_leaIndex (h : HostState) (dst base index : Reg) (scale : UInt8) (off : Int32) :
    h.exec (leaIndex dst base index scale off) =
      some (h.set (get dst)
        (h.gpr (get base) + h.gpr (get index) * BitVec.ofNat 64 scale.toNat + BitVec.ofInt 64 off.toInt)) := by
  change (h.address ⟨.unk, make64Index (get base) (get index) scale off⟩).map (h.set (get dst) ·) = _
  rw [address_index h (.inr rfl) (get_ne_zero base) (get_ne_zero index), Option.map_some]

/-- A run is its first instruction and the rest. -/
theorem execAll_cons (h : HostState) (ins : Instruction) (instructions : List Instruction) :
    h.execAll (ins :: instructions) = (h.exec ins).bind fun h' => h'.execAll instructions := rfl

/-- A run in two parts. -/
theorem execAll_append (h : HostState) (l l' : List Instruction) :
    h.execAll (l ++ l') = (h.execAll l).bind fun h' => h'.execAll l' := List.foldlM_append

@[simp] theorem gpr_set (h : HostState) (r q : R64) (value : BitVec 64) :
    (h.set r value).gpr q = if q = r then value else h.gpr q := rfl

/-- The index of an operand in the segment `fs` is added if there is one. -/
theorem exec_addIndex (hr : Represents h c) (index : R64) (scale : UInt8) :
    ∃ h', h.execAll (if index = .zero then []
        else [readReg64 .GPR0 index, leaIndex .MEM_ADDR .MEM_ADDR .GPR0 scale 0]) = some h' ∧
      Scratch h h' ∧ h'.gpr .r10 = h.gpr .r10 + c.gpr index * BitVec.ofNat 64 scale.toNat := by
  by_cases hindex : index = .zero
  · refine ⟨h, ?_, Scratch.refl h, ?_⟩
    · rw [if_pos hindex]
      rfl
    · rw [hindex, hr.zero]
      simp
  · rw [if_neg hindex, execAll_cons, exec_readReg64 hr, Option.bind_some, execAll_cons, exec_leaIndex, Option.bind_some]
    refine ⟨_, rfl, (Scratch.set h (.inl rfl) _).trans (Scratch.set _ (.inr (.inr rfl)) _), ?_⟩
    simp [Compiler.get]

/-- Behind the instructions that compute it, the address of a guest operand is that of the guest. -/
theorem exec_getAddress (hr : Represents h c) (mem : Mem) :
    ∃ h', h.execAll (getAddress .MEM_ADDR .GPR0 mem).1 = some h' ∧ Scratch h h' ∧
      (getAddress .MEM_ADDR .GPR0 mem).2.base = .MEM_ADDR ∧
      h'.gpr .r10 + BitVec.ofInt 64 (getAddress .MEM_ADDR .GPR0 mem).2.offset.toInt = c.resolve mem := by
  have hzero : BitVec.ofInt 64 (0 : Int32).toInt = 0 := by decide
  by_cases hseg : mem.segment = .fs
  · obtain ⟨h1, hrun, hscratch, hsum⟩ := exec_addIndex
      ((Scratch.set h (.inr (.inr rfl)) (c.segmentBase .fs)).represents hr) mem.encoding.index mem.encoding.scale
    have hfirst := (Scratch.set h (.inr (.inr rfl)) (c.segmentBase .fs)).trans hscratch
    by_cases hbase : mem.encoding.base = .zero
    · refine ⟨h1, ?_, hfirst, ?_, ?_⟩
      · rw [getAddress, if_pos hseg, if_pos hbase, execAll_cons, exec_readFsBase hr]
        exact hrun
      · rw [getAddress, if_pos hseg, if_pos hbase]
      · rw [getAddress, if_pos hseg, if_pos hbase, hsum, Cpu.resolve, hseg, hbase, hr.zero]
        simp [BitVec.add_assoc, BitVec.mul_comm]
    · refine ⟨(h1.set .r8 (c.gpr mem.encoding.base)).set .r10
        (h1.gpr .r10 + c.gpr mem.encoding.base + BitVec.ofInt 64 mem.encoding.displacement.toInt), ?_,
        hfirst.trans ((Scratch.set h1 (.inl rfl) _).trans (Scratch.set _ (.inr (.inr rfl)) _)), ?_, ?_⟩
      · rw [getAddress, if_pos hseg, if_neg hbase, List.cons_append, execAll_cons, exec_readFsBase hr, Option.bind_some,
          execAll_append]
        refine (congrArg (Option.bind · _) hrun).trans ?_
        rw [Option.bind_some, execAll_cons, exec_readReg64 (hfirst.represents hr), Option.bind_some, execAll_cons,
          exec_leaIndex, Option.bind_some]
        simp [Compiler.get, HostState.execAll]
      · rw [getAddress, if_pos hseg, if_neg hbase]
      · rw [getAddress, if_pos hseg, if_neg hbase, Cpu.resolve, hseg, hzero, gpr_set, if_pos rfl, hsum]
        simp only [gpr_set, if_true]
        rw [BitVec.mul_comm (BitVec.ofNat 64 _)]
        ac_rfl
  · have hsegment : c.segmentBase mem.segment = 0 := hr.segment _ hseg
    by_cases hindex : mem.encoding.index = .zero
    · refine ⟨h.set .r10 (c.gpr mem.encoding.base), ?_, Scratch.set h (.inr (.inr rfl)) _, ?_, ?_⟩
      · rw [getAddress, if_neg hseg, if_pos hindex, execAll_cons, exec_readReg64 hr]
        rfl
      · rw [getAddress, if_neg hseg, if_pos hindex]
      · rw [getAddress, if_neg hseg, if_pos hindex, Cpu.resolve, hsegment, hindex, hr.zero]
        simp
    · have hfirst := Scratch.set h (r := Compiler.get .MEM_ADDR) (.inr (.inr rfl)) (c.gpr mem.encoding.base)
      refine ⟨((h.set .r10 (c.gpr mem.encoding.base)).set .r8 (c.gpr mem.encoding.index)).set .r10
        (c.gpr mem.encoding.base + c.gpr mem.encoding.index * BitVec.ofNat 64 mem.encoding.scale.toNat +
          BitVec.ofInt 64 mem.encoding.displacement.toInt), ?_,
        hfirst.trans ((Scratch.set _ (.inl rfl) _).trans (Scratch.set _ (.inr (.inr rfl)) _)), ?_, ?_⟩
      · rw [getAddress, if_neg hseg, if_neg hindex, execAll_cons, exec_readReg64 hr, Option.bind_some, execAll_cons]
        rw [exec_readReg64 (hfirst.represents hr), Option.bind_some, execAll_cons, exec_leaIndex, Option.bind_some]
        simp [Compiler.get, HostState.execAll]
      · rw [getAddress, if_neg hseg, if_neg hindex]
      · rw [getAddress, if_neg hseg, if_neg hindex, Cpu.resolve, hsegment, hzero, gpr_set, if_pos rfl, BitVec.mul_comm]
        simp

/-- A guest address is taken from the base of the guest memory. -/
theorem address_guest (h : HostState) {addr : MemAddr} (hbase : addr.base = .MEM_ADDR) :
    h.address (guest addr) = some (h.gpr .rcx + h.gpr .r10 + BitVec.ofInt 64 addr.offset.toInt) := by
  have haddress := address_index h (.inl rfl) (get_ne_zero .MEM_BASE) (get_ne_zero .MEM_ADDR) 1 addr.offset
  rw [guest, hbase, haddress]
  simp [Compiler.get]

/-- Reading guest memory loads eight bytes. -/
theorem exec_readMem64 (h : HostState) {addr : MemAddr} (hbase : addr.base = .MEM_ADDR) :
    h.exec (readMem64 .GPR0 addr) =
      (h.load64 (h.gpr .rcx + h.gpr .r10 + BitVec.ofInt 64 addr.offset.toInt)).map (h.set (get .GPR0) ·) := by
  change ((h.address (guest addr)).bind fun a => (h.load64 a).map (h.set (get .GPR0) ·)) = _
  rw [address_guest h hbase, Option.bind_some]

/-- Writing guest memory stores eight bytes. -/
theorem exec_writeMem64 (h : HostState) {addr : MemAddr} (hbase : addr.base = .MEM_ADDR) :
    h.exec (writeMem64 addr .GPR0) =
      h.store64 (h.gpr .rcx + h.gpr .r10 + BitVec.ofInt 64 addr.offset.toInt) (h.gpr .r8) := by
  change ((h.address (guest addr)).bind fun a => h.store64 a (h.get .r8)) = _
  rw [address_guest h hbase, Option.bind_some]
  rfl

/-- Reading four bytes clears the upper half. -/
theorem exec_readMem32 (h : HostState) {addr : MemAddr} (hbase : addr.base = .MEM_ADDR) :
    h.exec (readMem32 .GPR0 addr) =
      (h.load32 (h.gpr .rcx + h.gpr .r10 + BitVec.ofInt 64 addr.offset.toInt)).map
        fun value => h.set (get .GPR0) (value.setWidth 64) := by
  change ((h.address (guest addr)).bind fun a => (h.load32 a).map fun value => h.set (get .GPR0) (value.setWidth 64)) = _
  rw [address_guest h hbase, Option.bind_some]

/-- The lower half of a register is what the first four bytes of its cell show. -/
theorem load32_registerCell (hr : Represents h c) (reg : R64) :
    h.load32 (registerCell h reg) = some ((c.gpr reg).setWidth 32) := by
  have hload := hr.register reg
  have hread : h.mayRead (registerCell h reg) 8 = true := by
    by_contra hno
    rw [show h.load64 (registerCell h reg) = none from if_neg hno] at hload
    exact absurd hload (by simp)
  have hread4 : h.mayRead (registerCell h reg) 4 = true := by
    simp only [HostState.mayRead, List.all_eq_true, List.mem_range] at hread ⊢
    exact fun i hi => hread i (by omega)
  have hvalue : (HostState.bytesAt (registerCell h reg) .u64).load 64 h.memory = c.gpr reg :=
    Option.some_inj.1 ((if_pos hread).symm.trans hload)
  have hlow : (HostState.bytesAt (registerCell h reg) .u32).load 32 h.memory = (c.gpr reg).setWidth 32 := by
    apply Lanes.ext_lane (show 4 * 8 = 32 from rfl)
    intro i hi
    have hlane : Lanes.lane 8 (c.gpr reg) i = h.memory (registerCell h reg + BitVec.ofNat 64 i) :=
      hvalue ▸ Window.lane_load (HostState.bytesAt (registerCell h reg) .u64) h.memory rfl (show i < 8 by omega)
    refine (Window.lane_load (v := 32) (HostState.bytesAt (registerCell h reg) .u32) h.memory rfl hi).trans
      (hlane.symm.trans ?_)
    apply BitVec.eq_of_getLsbD_eq
    intro j hj
    rw [Lanes.getLsbD_lane, Lanes.getLsbD_lane, BitVec.getLsbD_setWidth]
    simp [show i * 8 + j < 32 by omega]
  exact (if_pos hread4).trans (congrArg some hlow)

/-- Reading half a guest register clears the upper half. -/
theorem exec_readReg32 (hr : Represents h c) (dst : Reg) (src : R32) :
    h.exec (readReg32 dst src) = some (h.set (get32 dst).containingRegister ((c.get32 src).setWidth 64)) := by
  change ((h.address ⟨.cs, make64 .rsi (registerOffset src.containingRegister)⟩).bind fun a =>
    (h.load32 a).map fun value => h.set (get32 dst).containingRegister (value.setWidth 64)) = _
  have hload := load32_registerCell hr src.containingRegister
  rw [registerCell] at hload
  rw [address_base h (by decide), Option.bind_some, hload, Option.map_some]
  rfl

/-! ## Changes of both states -/

/-- A register is told by its number. -/
theorem ctorIdx_inj {r q : R64} (h : r.ctorIdx = q.ctorIdx) : r = q := by
  rw [← R64.ofNat_ctorIdx r, h, R64.ofNat_ctorIdx]

/-- The cells of the registers follow each other. -/
theorem registerOffset_eq (reg : R64) : BitVec.ofInt 64 (registerOffset reg).toInt = BitVec.ofNat 64 (8 * reg.ctorIdx) := by
  cases reg <;> decide

/-- The cells of two registers have no byte in common. -/
theorem registerCell_apart (h : HostState) {r q : R64} (hne : r ≠ q) {i : Nat} (hi : i < 8) :
    8 ≤ (HostState.bytesAt (registerCell h r) .u64).index (registerCell h q + BitVec.ofNat 64 i) := by
  have hr : r.ctorIdx < 18 := by cases r <;> decide
  have hq : q.ctorIdx < 18 := by cases q <;> decide
  have hidx : r.ctorIdx ≠ q.ctorIdx := fun h => hne (ctorIdx_inj h)
  change 8 ≤ (registerCell h q + BitVec.ofNat 64 i - registerCell h r).toNat
  simp only [registerCell, registerOffset_eq, BitVec.toNat_sub, BitVec.toNat_add, BitVec.toNat_ofNat]
  omega

/-- A load sees eight bytes of memory and where it may read. -/
theorem load_congr {h' : HostState} {a : BitVec 64} (hreadable : h'.readable = h.readable)
    (hmemory : ∀ i < 8, h'.memory (a + BitVec.ofNat 64 i) = h.memory (a + BitVec.ofNat 64 i)) : h'.load64 a = h.load64 a := by
  have hload : (HostState.bytesAt a .u64).load OperandWidth.u64.bits h'.memory =
      (HostState.bytesAt a .u64).load OperandWidth.u64.bits h.memory := Window.load_congr _ hmemory
  have hmay : h'.mayRead a 8 = h.mayRead a 8 :=
    congrArg (fun readable : BitVec 64 → Bool => (List.range 8).all fun i => readable (a + BitVec.ofNat 64 i)) hreadable
  change (if h'.mayRead a 8 = true then some _ else none) = if h.mayRead a 8 = true then some _ else none
  rw [hmay, hload]

/-- A flag is set in both states. -/
theorem Represents.setCarry (hr : Represents h c) (carry : Bool) :
    Represents (h.setCarry carry) (c.setFlags { c.flags with carry := carry }) where
  register := hr.register
  writable := hr.writable
  flags := congrArg (fun f : Flags => { f with carry := carry }) hr.flags
  fsBase := hr.fsBase
  segment := hr.segment
  zero := hr.zero
  byte := hr.byte
  apart := hr.apart
  argument := hr.argument

/-- A register of the guest is written in its cell. -/
theorem Represents.setGpr (hr : Represents h c) {reg : R64} (hreg : reg ≠ .zero) (value : BitVec 64) :
    Represents { h with memory := (HostState.bytesAt (registerCell h reg) .u64).store h.memory value } (c.setGpr reg value) := by
  set W := HostState.bytesAt (registerCell h reg) .u64 with hW
  have hkept : ∀ {a : BitVec 64}, (∀ i < 8, a ≠ registerCell h reg + BitVec.ofNat 64 i) →
      W.store h.memory value a = h.memory a := by
    intro a ha
    refine W.store_of_le h.memory value ?_
    by_contra hlt
    exact ha (W.index a) (Nat.not_le.1 hlt) (W.cell_index a (Nat.not_le.1 hlt)).symm
  refine ⟨fun q => ?_, hr.writable, hr.flags, ?_, hr.segment, ?_, fun a region ha => ⟨?_, (hr.byte a region ha).2⟩, hr.apart,
    hr.argument⟩
  · by_cases hq : q = reg
    · subst hq
      have hread : h.mayRead (registerCell h q) 8 = true := by
        by_contra hno
        have hload := hr.register q
        rw [show h.load64 (registerCell h q) = none from if_neg hno] at hload
        exact absurd hload (by simp)
      have hback : W.load 64 (W.store h.memory value) = value := W.load_store h.memory rfl
      exact (if_pos hread).trans (congrArg some (hback.trans (if_pos rfl).symm))
    · have hsame : HostState.load64 { h with memory := W.store h.memory value } (registerCell h q) = h.load64 (registerCell h q) :=
        load_congr rfl fun i hi => W.store_of_le h.memory value (registerCell_apart h (Ne.symm hq) hi)
      have hgpr : (c.setGpr reg value).gpr q = c.gpr q := if_neg hq
      rw [hgpr]
      exact hsame.trans (hr.register q)
  · have hsame : HostState.load64 { h with memory := W.store h.memory value } (h.gpr .rdi + 0x30) = h.load64 (h.gpr .rdi + 0x30) :=
      load_congr rfl fun i hi => hkept fun j hj => (hr.argument reg j hj i hi).symm
    exact hsame.trans hr.fsBase
  · exact (if_neg (Ne.symm hreg)).trans hr.zero
  · exact (hkept fun i hi => (hr.apart a region ha).1 reg i hi).trans (hr.byte a region ha).1

/-- Writing a guest register changes that register alone. -/
theorem exec_writeReg64 (hr : Represents h c) {reg : R64} (hreg : reg ≠ .zero) :
    ∃ h', h.exec (writeReg64 reg .GPR0) = some h' ∧ Represents h' (c.setGpr reg (h.gpr .r8)) := by
  refine ⟨_, ?_, hr.setGpr hreg (h.gpr .r8)⟩
  change ((h.address ⟨.cs, make64 .rsi (registerOffset reg)⟩).bind fun a => h.store64 a (h.get .r8)) = _
  rw [address_base h (by decide), Option.bind_some]
  exact if_pos (hr.writable reg)

section Instructions

variable {h h' : HostState} {c c' : Cpu} {width : OperandWidth}

/-! ## Parts of the cell of a register -/

variable {a value ptr : BitVec 64}

/-- What is loaded may be read. -/
theorem mayRead_of_load64 (hload : h.load64 a = some value) : h.mayRead a 8 = true := by
  by_contra hno
  rw [show h.load64 a = none from if_neg hno] at hload
  exact absurd hload (by simp)

/-- A load takes the bytes as they stand. -/
theorem load_of_load64 (hload : h.load64 a = some value) :
    (HostState.bytesAt a .u64).load 64 h.memory = value :=
  Option.some_inj.1 ((if_pos (mayRead_of_load64 hload)).symm.trans hload)

/-- Widths are whole bytes. -/
theorem bits_div (width : OperandWidth) : width.bits / 8 * 8 = width.bits := by
  cases width <;> rfl

/-- A part of a cell shows the bits of its value that stand there. -/
theorem load_part (hload : h.load64 a = some value) (width : OperandWidth) {k : Nat}
    (hk : k + width.bits / 8 ≤ 8) :
    h.load width (a + BitVec.ofNat 64 k) = some ((value >>> (8 * k)).setWidth width.bits) := by
  have hmay : h.mayRead (a + BitVec.ofNat 64 k) (width.bits / 8) = true := by
    have hread := mayRead_of_load64 hload
    simp only [HostState.mayRead, List.all_eq_true, List.mem_range] at hread ⊢
    intro i hi
    rw [BitVec.add_assoc, ← BitVec.ofNat_add]
    exact hread (k + i) (by omega)
  refine (if_pos hmay).trans (congrArg some ?_)
  apply Lanes.ext_lane (bits_div width)
  intro i hi
  have hlane : Lanes.lane 8 value (k + i) = h.memory (a + BitVec.ofNat 64 (k + i)) :=
    load_of_load64 hload ▸ Window.lane_load (HostState.bytesAt a .u64) h.memory rfl (show k + i < 8 by omega)
  refine (Window.lane_load (HostState.bytesAt (a + BitVec.ofNat 64 k) width) h.memory (bits_div width) hi).trans ?_
  rw [show (HostState.bytesAt (a + BitVec.ofNat 64 k) width).cell i = a + BitVec.ofNat 64 (k + i) by
    rw [HostState.bytesAt, Window.cell_wrapping, BitVec.add_assoc, ← BitVec.ofNat_add], ← hlane]
  apply BitVec.eq_of_getLsbD_eq
  intro j hj
  have hwidth := bits_div width
  rw [Lanes.getLsbD_lane, Lanes.getLsbD_lane, BitVec.getLsbD_setWidth, BitVec.getLsbD_ushiftRight,
    show 8 * k + (i * 8 + j) = (k + i) * 8 + j by omega]
  simp [show i * 8 + j < width.bits by omega]

/-- To store a part of a cell is to store the cell with its bits there replaced. -/
theorem store_part {whole : BitVec 64} (hload : h.load64 a = some value) {k : Nat} (hk : k + width.bits / 8 ≤ 8)
    {part : BitVec width.bits}
    (hwhole : ∀ j < 64, whole.getLsbD j =
      if 8 * k ≤ j ∧ j < 8 * k + width.bits then part.getLsbD (j - 8 * k) else value.getLsbD j) :
    (HostState.bytesAt (a + BitVec.ofNat 64 k) width).store h.memory part = (HostState.bytesAt a .u64).store h.memory whole := by
  have hwidth := bits_div width
  funext b
  have hindex : (HostState.bytesAt (a + BitVec.ofNat 64 k) width).index b =
      (b - (a + BitVec.ofNat 64 k)).toNat := rfl
  have hindex8 : (HostState.bytesAt a .u64).index b = (b - a).toNat := rfl
  have hsub : (b - (a + BitVec.ofNat 64 k)).toNat =
      if k ≤ (b - a).toNat then (b - a).toNat - k else (b - a).toNat + 2 ^ 64 - k := by
    have hlt : k < 2 ^ 64 := by omega
    have hsplit : b - (a + BitVec.ofNat 64 k) = (b - a) - BitVec.ofNat 64 k := (BitVec.sub_sub _ _ _).symm
    rw [hsplit, BitVec.toNat_sub, BitVec.toNat_ofNat]
    have := (b - a).isLt
    split <;> omega
  by_cases hin : (b - a).toNat < 8
  · rw [Window.store, Window.store, hindex, hindex8, if_pos (show (b - a).toNat < OperandWidth.u64.bits / 8 from hin), hsub]
    by_cases hpart : k ≤ (b - a).toNat ∧ (b - a).toNat < k + width.bits / 8
    · rw [if_pos hpart.1, if_pos (by omega)]
      apply BitVec.eq_of_getLsbD_eq
      intro j hj
      rw [Lanes.getLsbD_lane, Lanes.getLsbD_lane, hwhole _ (by omega), if_pos (by omega)]
      congr 2
      omega
    · rw [if_neg (by split <;> omega)]
      have hlane : Lanes.lane 8 value (b - a).toNat = h.memory b := by
        have hcell : (HostState.bytesAt a .u64).cell (b - a).toNat = b := (HostState.bytesAt a .u64).cell_index b hin
        have hshown := Window.lane_load (v := 64) (HostState.bytesAt a .u64) h.memory rfl (show (b - a).toNat < 8 from hin)
        rw [load_of_load64 hload] at hshown
        rw [hshown, hcell]
      rw [← hlane]
      apply BitVec.eq_of_getLsbD_eq
      intro j hj
      rw [Lanes.getLsbD_lane, Lanes.getLsbD_lane, hwhole _ (by omega), if_neg (by omega)]
  · rw [Window.store_of_le _ _ _ (show OperandWidth.u64.bits / 8 ≤ _ from Nat.not_lt.1 hin), Window.store_of_le _ _ _ ?_]
    rw [hindex, hsub]
    split <;> omega

/-! ## Values in the registers of the host -/

/-- A register holds a value of a width. What stands above it is of no interest, except that it is zero above 32 bits. -/
def Held (h : HostState) (width : OperandWidth) (r : Reg) (value : BitVec width.bits) : Prop :=
  (h.gpr (get r)).setWidth width.bits = value ∧ (width = .u32 → h.gpr (get r) = value.setWidth 64)

/-- What a register holds depends on it alone. -/
theorem Held.congr {r : Reg} {value : BitVec width.bits} (hheld : Held h width r value) (hgpr : h'.gpr (get r) = h.gpr (get r)) :
    Held h' width r value := by
  rw [Held, hgpr]
  exact hheld

/-- The register of 64 bits is what it holds. -/
theorem Held.gpr_eq {r : Reg} (hheld : Held h .u64 r value) : h.gpr (get r) = value :=
  (BitVec.setWidth_eq _).symm.trans hheld.1

/-- A whole register holds its value. -/
theorem held_u64 {r : Reg} (hgpr : h.gpr (get r) = value) : Held h .u64 r value :=
  ⟨(BitVec.setWidth_eq _).trans hgpr, fun hwidth => absurd hwidth (by decide)⟩

/-- A register of the compiler is read as itself. -/
theorem get_get (h : HostState) (r : Reg) : h.get (get r) = h.gpr (get r) := if_neg (get_ne_zero r)

/-- A part of a register shows its low bits. -/
theorem getPart_part (h : HostState) (width : OperandWidth) (r : Reg) :
    h.getPart width (part width r) = (h.gpr (get r)).setWidth width.bits := by
  rw [← get_get]
  cases width with
  | u8 =>
    have hoffset : (get8 r).offset = 0 ∧ (get8 r).containingRegister = get r := by cases r <;> decide
    rw [HostState.getPart, part, hoffset.1, hoffset.2]
    rfl
  | u16 =>
    have hreg : (get16 r).containingRegister = get r := by cases r <;> rfl
    rw [HostState.getPart, part, hreg]
    rfl
  | u32 =>
    have hreg : (get32 r).containingRegister = get r := by cases r <;> rfl
    rw [HostState.getPart, part, hreg]
    rfl
  | u64 => exact (BitVec.setWidth_eq _).symm

/-- Setting a part sets the low bits. -/
theorem setPart_part (h : HostState) (width : OperandWidth) (r : Reg) (value : BitVec width.bits) :
    ∃ whole, h.setPart width (part width r) value = h.set (get r) whole ∧ whole.setWidth width.bits = value ∧
      (width = .u32 → whole = value.setWidth 64) := by
  cases width with
  | u8 =>
    have hoffset : (get8 r).offset = 0 ∧ (get8 r).containingRegister = get r := by cases r <;> decide
    rw [HostState.setPart, part, hoffset.1, hoffset.2]
    refine ⟨_, rfl, ?_, fun hwidth => absurd hwidth (by decide)⟩
    apply BitVec.eq_of_getLsbD_eq
    intro j hj
    have hmask : (~~~0xff#64).getLsbD j = false := by
      revert j
      decide
    rw [Nat.mul_zero, BitVec.shiftLeft_zero, BitVec.shiftLeft_zero]
    simp only [BitVec.getLsbD_setWidth, BitVec.getLsbD_or, BitVec.getLsbD_and, hmask]
    simp [hj, show j < 64 from Nat.lt_trans hj (by decide)]
  | u16 =>
    have hreg : (get16 r).containingRegister = get r := by cases r <;> rfl
    rw [HostState.setPart, part, hreg]
    refine ⟨_, rfl, ?_, fun hwidth => absurd hwidth (by decide)⟩
    apply BitVec.eq_of_getLsbD_eq
    intro j hj
    have hmask : (~~~0xffff#64).getLsbD j = false := by
      revert j
      decide
    simp only [BitVec.getLsbD_setWidth, BitVec.getLsbD_or, BitVec.getLsbD_and, hmask]
    simp [hj, show j < 64 from Nat.lt_trans hj (by decide)]
  | u32 =>
    have hreg : (get32 r).containingRegister = get r := by cases r <;> rfl
    rw [HostState.setPart, part, hreg]
    refine ⟨_, rfl, ?_, fun _ => rfl⟩
    exact BitVec.setWidth_setWidth_of_le _ (by decide)
  | u64 => exact ⟨value, rfl, BitVec.setWidth_eq _, fun hwidth => absurd hwidth (by decide)⟩

/-- The registers of the host that compiled code computes with. -/
def Free (r : Reg) : Prop := r = .GPR0 ∨ r = .GPR1 ∨ r = .MEM_ADDR

/-- A free register is a scratch register. -/
theorem Scratch.setFree {r : Reg} (hr : Free r) (value : BitVec 64) : Scratch h (h.set (get r) value) := by
  apply Scratch.set
  rcases hr with rfl | rfl | rfl
  · exact .inl rfl
  · exact .inr (.inl rfl)
  · exact .inr (.inr rfl)

/-- A value of a width gets into a register of the host, and the other registers stay. -/
structure Loaded (h h' : HostState) (width : OperandWidth) (r : Reg) (value : BitVec width.bits) : Prop where
  scratch : Scratch h h'
  held : Held h' width r value
  others : ∀ q, q ≠ r → h'.gpr (get q) = h.gpr (get q)

/-- The registers of the compiler differ on the host. -/
theorem get_inj {r q : Reg} (h : get r = get q) : r = q := by
  cases r <;> cases q <;> first | rfl | exact absurd h (by decide)

/-- Setting a free register loads it. -/
theorem loaded_set {r : Reg} (hr : Free r) {value : BitVec width.bits} {whole : BitVec 64}
    (hwhole : whole.setWidth width.bits = value) (hupper : width = .u32 → whole = value.setWidth 64) :
    Loaded h (h.set (get r) whole) width r value where
  scratch := Scratch.setFree hr _
  held := by
    rw [Held, gpr_set, if_pos rfl]
    exact ⟨hwhole, hupper⟩
  others q hq := by rw [gpr_set, if_neg fun heq => hq (get_inj heq)]

/-- Setting a part of a free register loads it. -/
theorem loaded_setPart {r : Reg} (hr : Free r) (value : BitVec width.bits) :
    Loaded h (h.setPart width (part width r) value) width r value := by
  obtain ⟨whole, hset, hwhole, hupper⟩ := setPart_part h width r value
  rw [hset]
  exact loaded_set hr hwhole hupper

/-! ## Reads -/

/-- The register of 64 bits that a register is a part of, and the byte it begins at. -/
def containing : (width : OperandWidth) → width.Reg → R64
  | .u8, reg => reg.containingRegister
  | .u16, reg => reg.containingRegister
  | .u32, reg => reg.containingRegister
  | .u64, reg => reg

def byteOffset : (width : OperandWidth) → width.Reg → Nat
  | .u8, reg => reg.offset
  | _, _ => 0

/-- A part of a register stays in its cell. -/
theorem byteOffset_add_le (width : OperandWidth) (reg : width.Reg) : byteOffset width reg + width.bits / 8 ≤ 8 := by
  cases width with
  | u8 => cases reg <;> decide
  | u16 | u32 | u64 => exact Nat.le_of_ble_eq_true rfl

/-- A part of a register stands in its cell. -/
theorem partOffset_eq (width : OperandWidth) (reg : width.Reg) :
    BitVec.ofInt 64 (partOffset width reg).toInt =
      BitVec.ofInt 64 (registerOffset (containing width reg)).toInt + BitVec.ofNat 64 (byteOffset width reg) := by
  cases width with
  | u8 => cases reg <;> decide
  | u16 | u32 | u64 => exact (BitVec.add_zero _).symm

/-- A part of a register is cut out of it. -/
theorem get_eq (c : Cpu) (width : OperandWidth) (reg : width.Reg) :
    c.get width reg = (c.gpr (containing width reg) >>> (8 * byteOffset width reg)).setWidth width.bits := by
  cases width with
  | u8 => cases reg <;> rfl
  | u16 => simp [Cpu.get, Cpu.get16, containing, byteOffset, OperandWidth.bits]
  | u32 => simp [Cpu.get, Cpu.get32, containing, byteOffset, OperandWidth.bits]
  | u64 => simp [Cpu.get, Cpu.get64, containing, byteOffset, OperandWidth.bits]

/-- A move from memory is a load. -/
theorem perform_load (h : HostState) (width : OperandWidth) (dst : Reg) (mem : Mem) :
    h.perform { op := .mov, out := regOperand width dst, in1 := width.memOperand mem } =
      (h.address mem).bind fun a => (h.load width a).map (h.setPart width (part width dst)) := by
  cases width <;> cases haddress : h.address mem <;>
    simp [HostState.perform, regOperand, OperandWidth.regOperand, OperandWidth.memOperand, Operand.width, HostState.read,
      HostState.write, haddress, Option.map_eq_bind]

/-- A move to memory is a store. -/
theorem perform_store (h : HostState) (width : OperandWidth) (mem : Mem) (src : Reg) :
    h.perform { op := .mov, out := width.memOperand mem, in1 := regOperand width src } =
      (h.address mem).bind fun a => h.store width a (h.getPart width (part width src)) := by
  cases width <;> rfl

/-- Reading a guest register of any width loads it. -/
theorem perform_readReg (hr : Represents h c) {dst : Reg} (hdst : Free dst) (src : width.Reg) :
    ∃ h', h.perform (readReg width dst src) = some h' ∧ Loaded h h' width dst (c.get width src) := by
  refine ⟨_, ?_, loaded_setPart hdst _⟩
  have hload := load_part (hr.register (containing width src)) width (byteOffset_add_le width src)
  rw [registerCell, BitVec.add_assoc, ← partOffset_eq] at hload
  rw [readReg, perform_load, address_base h (get_ne_zero _), Option.bind_some]
  refine (congrArg (Option.map _) hload).trans ?_
  rw [Option.map_some, get_eq]

/-! ## Guest memory -/

/-- The host stands for the guest, whose addresses fit into those of the host. -/
structure Simulates (h : HostState) (c : Cpu) : Prop where
  represents : Represents h c
  placed : ∀ a region, c.mmu.findAddress a = some region → a < 2 ^ 64

/-- The scratch registers hold nothing of the simulation. -/
theorem Simulates.scratch (hs : Simulates h c) (hscratch : Scratch h h') : Simulates h' c :=
  ⟨hscratch.represents hs.represents, hs.placed⟩

/-- Guest bytes that follow each other do so on the host. -/
theorem guestByte_add (h : HostState) (ptr : BitVec 64) (i : Nat) :
    guestByte h (ptr.toNat + i) = h.gpr .rcx + ptr + BitVec.ofNat 64 i := by
  rw [guestByte, BitVec.ofNat_add, BitVec.ofNat_toNat, BitVec.setWidth_eq, BitVec.add_assoc]

/-- The address of a guest pointer. -/
theorem address_guest_eq {addr : MemAddr}
    (haddr : h.gpr (get addr.base) + BitVec.ofInt 64 addr.offset.toInt = ptr) :
    h.address (guest addr) = some (h.gpr .rcx + ptr) := by
  rw [guest, address_index h (.inl rfl) (get_ne_zero .MEM_BASE) (get_ne_zero _), ← haddr]
  simp [Compiler.get, BitVec.add_assoc]

/-- A guest value is loaded from its pointer. -/
theorem load_guest (hr : Represents h c) {value : BitVec width.bits}
    (hget : c.getPtr width.bits ptr = some value) : h.load width (h.gpr .rcx + ptr) = some value := by
  obtain ⟨hallows, hvalue⟩ := AddressSpace.read_eq_some.1 hget
  have hbyte := AddressSpace.allows_eq_true.1 hallows
  have hmay : h.mayRead (h.gpr .rcx + ptr) (width.bits / 8) = true := by
    simp only [HostState.mayRead, List.all_eq_true, List.mem_range]
    intro i hi
    obtain ⟨region, hregion, hright⟩ := hbyte i hi
    rw [← guestByte_add, (hr.byte _ region hregion).2.1, hright]
  refine (if_pos hmay).trans (congrArg some ?_)
  rw [← hvalue]
  apply Lanes.join_congr
  intro i hi
  obtain ⟨region, hregion, hright⟩ := hbyte i hi
  exact (congrArg h.memory (guestByte_add h ptr i).symm).trans (hr.byte _ region hregion).1

/-- Reading guest memory of any width loads the value. -/
theorem perform_readMem (hr : Represents h c) {dst : Reg} (hdst : Free dst) {addr : MemAddr}
    (haddr : h.gpr (get addr.base) + BitVec.ofInt 64 addr.offset.toInt = ptr) {value : BitVec width.bits}
    (hget : c.getPtr width.bits ptr = some value) :
    ∃ h', h.perform (readMem width dst addr) = some h' ∧ Loaded h h' width dst value := by
  refine ⟨_, ?_, loaded_setPart hdst _⟩
  rw [readMem, perform_load, address_guest_eq haddr, Option.bind_some, load_guest hr hget, Option.map_some]

/-! ## Writes -/

/-- Some bits of a value are masked out, and another value is put in their place. -/
theorem getLsbD_merge {w : Nat} (lo : Nat) (old : BitVec 64) (value : BitVec w) {mask : BitVec 64}
    (hmask : ∀ j < 64, mask.getLsbD j = !(decide (lo ≤ j) && decide (j < lo + w))) {j : Nat} (hj : j < 64) :
    ((old &&& mask) ||| value.setWidth 64 <<< lo).getLsbD j =
      if lo ≤ j ∧ j < lo + w then value.getLsbD (j - lo) else old.getLsbD j := by
  rw [BitVec.getLsbD_or, BitVec.getLsbD_and, hmask j hj, BitVec.getLsbD_shiftLeft, BitVec.getLsbD_setWidth]
  by_cases hlow : lo ≤ j
  · by_cases hhigh : j < lo + w
    · simp [hlow, hhigh, hj, show ¬ j < lo by omega, show j - lo < 64 by omega]
    · simp [hlow, hhigh, hj, BitVec.getLsbD_of_ge value (j - lo) (by omega)]
  · simp [hlow, Nat.not_le.1 hlow]

/-- A value merged at the bottom. -/
theorem getLsbD_merge_low {w : Nat} (old : BitVec 64) (value : BitVec w) {mask : BitVec 64}
    (hmask : ∀ j < 64, mask.getLsbD j = !(decide (0 ≤ j) && decide (j < 0 + w))) {j : Nat} (hj : j < 64) :
    ((old &&& mask) ||| value.setWidth 64).getLsbD j = if 0 ≤ j ∧ j < 0 + w then value.getLsbD (j - 0) else old.getLsbD j := by
  have hmerge := getLsbD_merge 0 old value hmask hj
  rwa [BitVec.shiftLeft_zero] at hmerge

/-- A write of a register replaces its bits in the register of 64 bits it is a part of; one of 32 bits replaces all of them. -/
theorem set_eq_some {reg : width.Reg} {value : BitVec width.bits} (hset : c.set width reg value = some c') :
    ∃ whole, c' = c.setGpr (containing width reg) whole ∧ containing width reg ≠ .zero ∧
      (width = .u32 → whole = value.setWidth 64) ∧
      (width ≠ .u32 → ∀ j < 64, whole.getLsbD j =
        if 8 * byteOffset width reg ≤ j ∧ j < 8 * byteOffset width reg + width.bits then
          value.getLsbD (j - 8 * byteOffset width reg)
        else (c.gpr (containing width reg)).getLsbD j) := by
  cases width with
  | u8 =>
    have hreg : containing .u8 reg ≠ .zero := by cases reg <;> decide
    cases reg with
    | ah | bh | ch | dh =>
      exact ⟨_, (Option.some_inj.1 hset).symm, hreg, fun hwidth => absurd hwidth (by decide),
        fun _ j hj => getLsbD_merge 8 _ value (by decide) hj⟩
    | _ =>
      exact ⟨_, (Option.some_inj.1 hset).symm, hreg, fun hwidth => absurd hwidth (by decide),
        fun _ j hj => getLsbD_merge_low _ value (by decide) hj⟩
  | u16 =>
    have hreg : containing .u16 reg ≠ .zero := by cases reg <;> decide
    exact ⟨_, (Option.some_inj.1 hset).symm, hreg, fun hwidth => absurd hwidth (by decide),
      fun _ j hj => getLsbD_merge_low _ value (by decide) hj⟩
  | u32 =>
    by_cases hreg : reg = .eiz
    · simp [Cpu.set, Cpu.set32, verify, hreg] at hset
    · refine ⟨value.setWidth 64, ?_, ?_, fun _ => rfl, fun hwidth => absurd rfl hwidth⟩
      · have hwritten : c.set32 reg value = some (c.setGpr reg.containingRegister (value.setWidth 64)) := by
          simp only [Cpu.set32, verify, ne_eq, hreg, not_false_eq_true, if_true]
          rfl
        exact Option.some_inj.1 (hset.symm.trans hwritten)
      · cases reg <;> simp_all [containing, R32.containingRegister]
  | u64 =>
    by_cases hreg : reg = .zero
    · simp [Cpu.set, Cpu.set64, verify, hreg] at hset
    · refine ⟨value, ?_, hreg, fun hwidth => absurd hwidth (by decide), fun _ j hj => ?_⟩
      · have hwritten : c.set64 reg value = some (c.setGpr reg value) := by simp [Cpu.set64, verify, hreg]
        exact Option.some_inj.1 (hset.symm.trans hwritten)
      · simp [byteOffset, OperandWidth.bits, hj]

/-- Storing into the cell of a register sets the register. -/
theorem Simulates.setGpr (hs : Simulates h c) {reg : R64} (hreg : reg ≠ .zero) (value : BitVec 64) :
    Simulates { h with memory := (HostState.bytesAt (registerCell h reg) .u64).store h.memory value } (c.setGpr reg value) :=
  ⟨hs.represents.setGpr hreg value, hs.placed⟩

/-- A part of what may be written may be written. -/
theorem mayWrite_part (hwrite : h.mayWrite a 8 = true) {k n : Nat} (hk : k + n ≤ 8) :
    h.mayWrite (a + BitVec.ofNat 64 k) n = true := by
  simp only [HostState.mayWrite, List.all_eq_true, List.mem_range] at hwrite ⊢
  intro i hi
  rw [BitVec.add_assoc, ← BitVec.ofNat_add]
  exact hwrite (k + i) (by omega)

/-- Writing a guest register simulates. -/
theorem perform_writeReg64 (hs : Simulates h c) {reg : R64} (hreg : reg ≠ .zero) (src : Reg) :
    ∃ h', h.perform (writeReg64 reg src) = some h' ∧ Simulates h' (c.setGpr reg (h.gpr (get src))) ∧ h'.gpr = h.gpr := by
  refine ⟨_, ?_, hs.setGpr hreg _, rfl⟩
  refine (perform_store h .u64 ⟨.cs, make64 (get .REG_BASE) (registerOffset reg)⟩ src).trans ?_
  rw [address_base h (get_ne_zero _), Option.bind_some, ← get_get h src]
  exact if_pos (hs.represents.writable reg)

/-- Writing a guest register of any width simulates. -/
theorem perform_writeReg (hs : Simulates h c) {src : Reg} {value : BitVec width.bits} (hheld : Held h width src value)
    {dst : width.Reg} (hset : c.set width dst value = some c') :
    ∃ h', h.perform (writeReg width dst src) = some h' ∧ Simulates h' c' ∧ h'.gpr = h.gpr := by
  obtain ⟨whole, rfl, hreg, hupper, hpart⟩ := set_eq_some hset
  by_cases hwidth : width = .u32
  · subst hwidth
    obtain ⟨h', hrun, hs', hgpr⟩ := perform_writeReg64 hs hreg src
    rw [hheld.2 rfl, ← hupper rfl] at hs'
    exact ⟨h', hrun, hs', hgpr⟩
  · refine ⟨_, ?_, hs.setGpr hreg whole, rfl⟩
    have hwrite : writeReg width dst src =
        { op := .mov, out := width.memOperand ⟨.cs, make64 (get .REG_BASE) (partOffset width dst)⟩,
          in1 := regOperand width src } := by
      cases width <;> first | rfl | exact absurd rfl hwidth
    have hcell : h.gpr (get .REG_BASE) + BitVec.ofInt 64 (partOffset width dst).toInt =
        registerCell h (containing width dst) + BitVec.ofNat 64 (byteOffset width dst) := by
      rw [partOffset_eq, ← BitVec.add_assoc]
      rfl
    have hle := byteOffset_add_le width dst
    rw [hwrite, perform_store, address_base h (get_ne_zero _), Option.bind_some, hcell, getPart_part, hheld.1,
      ← store_part (hs.represents.register _) hle (hpart hwidth)]
    exact if_pos (mayWrite_part (hs.represents.writable _) hle)

/-! ## Writes of guest memory -/

/-- Guest bytes do not meet on the host. -/
theorem guestByte_eq_of {a b : Nat} (ha : a < 2 ^ 64) (hb : b < 2 ^ 64) (heq : guestByte h a = guestByte h b) : a = b := by
  have hsame := congrArg BitVec.toNat ((BitVec.add_right_inj _).1 heq)
  rwa [BitVec.toNat_ofNat, BitVec.toNat_ofNat, Nat.mod_eq_of_lt ha, Nat.mod_eq_of_lt hb] at hsame

/-- A write of guest memory is one of the bytes behind the base. -/
theorem Simulates.setPtr (hs : Simulates h c) {value : BitVec width.bits} (hset : c.setPtr ptr value = some c') :
    ∃ h', h.store width (h.gpr .rcx + ptr) value = some h' ∧ Simulates h' c' ∧ h'.gpr = h.gpr := by
  have hr := hs.represents
  cases hwrite : c.mmu.write ptr.toNat value with
  | none => simp [Cpu.setPtr, hwrite] at hset
  | some mmu =>
    obtain ⟨hallows, hmmu⟩ := AddressSpace.write_eq_some.1 hwrite
    obtain rfl : { c with mmu := mmu } = c' := by simpa [Cpu.setPtr, hwrite] using hset
    subst hmmu
    have hbyte := AddressSpace.allows_eq_true.1 hallows
    have hmay : h.mayWrite (h.gpr .rcx + ptr) (width.bits / 8) = true := by
      simp only [HostState.mayWrite, List.all_eq_true, List.mem_range]
      intro i hi
      obtain ⟨region, hregion, hright⟩ := hbyte i hi
      rw [← guestByte_add, (hr.byte _ region hregion).2.2, hright]
    set W := HostState.bytesAt (h.gpr .rcx + ptr) width with hW
    have hcell : ∀ i, W.cell i = guestByte h (ptr.toNat + i) := fun i => (guestByte_add h ptr i).symm
    -- what is not a byte of the operand keeps its value
    have hkept : ∀ {b : BitVec 64}, (∀ i < width.bits / 8, b ≠ guestByte h (ptr.toNat + i)) →
        W.store h.memory value b = h.memory b := by
      intro b hb
      refine W.store_of_le h.memory value (Nat.not_lt.1 fun hlt => hb _ hlt ?_)
      rw [← hcell, W.cell_index b hlt]
    refine ⟨{ h with memory := W.store h.memory value }, if_pos hmay,
      ⟨⟨fun reg => ?_, hr.writable, hr.flags, ?_, hr.segment, hr.zero, fun a region ha => ?_, hr.apart, hr.argument⟩,
        hs.placed⟩, rfl⟩
    · refine Eq.trans (load_congr (h := h) rfl fun j hj => hkept fun i hi => ?_) (hr.register reg)
      obtain ⟨region, hregion, -⟩ := hbyte i hi
      exact ((hr.apart _ region hregion).1 reg j hj).symm
    · refine Eq.trans (load_congr (h := h) rfl fun j hj => hkept fun i hi => ?_) hr.fsBase
      obtain ⟨region, hregion, -⟩ := hbyte i hi
      exact ((hr.apart _ region hregion).2 j hj).symm
    · refine ⟨?_, (hr.byte a region ha).2⟩
      by_cases hin : ptr.toNat ≤ a ∧ a < ptr.toNat + width.bits / 8
      · have hplace : a = ptr.toNat + (a - ptr.toNat) := by omega
        have hstored := W.store_cell h.memory value (show a - ptr.toNat < width.bits / 8 by omega)
        rw [hcell, ← hplace] at hstored
        exact hstored.trans (congrArg UInt8.toBitVec (if_pos hin)).symm
      · refine (hkept fun i hi heq => hin ?_).trans ((hr.byte a region ha).1.trans (congrArg UInt8.toBitVec (if_neg hin)).symm)
        obtain ⟨region', hregion, -⟩ := hbyte i hi
        have := guestByte_eq_of (hs.placed a region ha) (hs.placed _ region' hregion) heq
        omega

/-- Writing guest memory of any width simulates. -/
theorem perform_writeMem (hs : Simulates h c) {src : Reg} {value : BitVec width.bits}
    (hvalue : (h.gpr (get src)).setWidth width.bits = value) {addr : MemAddr}
    (haddr : h.gpr (get addr.base) + BitVec.ofInt 64 addr.offset.toInt = ptr)
    (hset : c.setPtr ptr value = some c') :
    ∃ h', h.perform (writeMem width addr src) = some h' ∧ Simulates h' c' ∧ h'.gpr = h.gpr := by
  obtain ⟨h', hstore, hs', hgpr⟩ := hs.setPtr hset
  refine ⟨h', ?_, hs', hgpr⟩
  rw [writeMem, perform_store, address_guest_eq haddr, Option.bind_some, getPart_part, hvalue, hstore]

/-! ## Addresses -/

/-- The rest runs after the first instruction. -/
theorem performAll_cons_of {ins : Instruction} {l : List Instruction} (hins : h.perform ins = some h') :
    h.performAll (ins :: l) = h'.performAll l := by
  change (h.perform ins).bind (HostState.performAll · l) = _
  rw [hins, Option.bind_some]

/-- The rest runs after the first part. -/
theorem performAll_append_of {l l' : List Instruction} (hl : h.performAll l = some h') :
    h.performAll (l ++ l') = h'.performAll l' :=
  List.foldlM_append.trans (congrArg (Option.bind · _) hl)

/-- Reading a guest register loads it. -/
theorem perform_readReg64 (hr : Represents h c) {dst : Reg} (hdst : Free dst) (src : R64) :
    ∃ h', h.perform (readReg64 dst src) = some h' ∧ Loaded h h' .u64 dst (c.gpr src) :=
  @perform_readReg h c .u64 hr dst hdst src

/-- Reading the base of `fs` loads it. -/
theorem perform_readFsBase (hr : Represents h c) {dst : Reg} (hdst : Free dst) :
    ∃ h', h.perform (readFsBase dst) = some h' ∧ Loaded h h' .u64 dst (c.segmentBase .fs) := by
  refine ⟨_, ?_, loaded_setPart hdst _⟩
  refine (perform_load h .u64 dst ⟨.cs, make64 .rdi 0x30⟩).trans ?_
  have hoff : BitVec.ofInt 64 (0x30 : Int32).toInt = 0x30 := by decide
  rw [address_base h (by decide), Option.bind_some, hoff]
  exact congrArg (Option.map _) hr.fsBase

/-- `lea` loads base, index and offset. -/
theorem perform_leaIndex (h : HostState) {dst : Reg} (hdst : Free dst) (base index : Reg) (scale : UInt8) (off : Int32) :
    ∃ h', h.perform (leaIndex dst base index scale off) = some h' ∧
      Loaded h h' .u64 dst
        (h.gpr (get base) + h.gpr (get index) * BitVec.ofNat 64 scale.toNat + BitVec.ofInt 64 off.toInt) := by
  refine ⟨_, ?_, loaded_setPart hdst _⟩
  change (h.address ⟨.unk, make64Index (get base) (get index) scale off⟩).map _ = _
  rw [address_index h (.inr rfl) (get_ne_zero base) (get_ne_zero index)]
  rfl

/-- An operand for guest memory is at an address of the guest. -/
structure At (h : HostState) (addr : MemAddr) (ptr : BitVec 64) : Prop where
  base : addr.base = .MEM_ADDR
  sum : h.gpr (get addr.base) + BitVec.ofInt 64 addr.offset.toInt = ptr

/-- An address depends on its register alone. -/
theorem At.congr {addr : MemAddr} (hat : At h addr ptr)
    (hgpr : h'.gpr (get .MEM_ADDR) = h.gpr (get .MEM_ADDR)) : At h' addr ptr := by
  refine ⟨hat.base, ?_⟩
  rw [hat.base, hgpr, ← hat.base, hat.sum]

/-- Two registers of the host have been used to compute an address. -/
structure Addressed (h h' : HostState) (tmp : Reg) (addr : MemAddr) (ptr : BitVec 64) : Prop where
  scratch : Scratch h h'
  others : ∀ q, q ≠ .MEM_ADDR → q ≠ tmp → h'.gpr (get q) = h.gpr (get q)
  place : At h' addr ptr

/-- An index is added when there is one. -/
theorem performAll_addIndex (hr : Represents h c) {tmp : Reg} (htmp : Free tmp) (hne : tmp ≠ .MEM_ADDR) (index : R64)
    (scale : UInt8) :
    ∃ h',
      h.performAll (if index = .zero then [] else [readReg64 tmp index, leaIndex .MEM_ADDR .MEM_ADDR tmp scale 0]) = some h' ∧
      Addressed h h' tmp ⟨.MEM_ADDR, 0⟩ (h.gpr (get .MEM_ADDR) + c.gpr index * BitVec.ofNat 64 scale.toNat) := by
  by_cases hindex : index = .zero
  · refine ⟨h, ?_, Scratch.refl h, fun _ _ _ => rfl, rfl, ?_⟩
    · rw [if_pos hindex]
      rfl
    · rw [hindex, hr.zero]
      simp
  · obtain ⟨h1, hread, hloaded⟩ := perform_readReg64 hr htmp index
    obtain ⟨h2, hlea, hsum⟩ := perform_leaIndex h1 (.inr (.inr rfl)) .MEM_ADDR tmp scale 0
    refine ⟨h2, ?_, hloaded.scratch.trans hsum.scratch, fun q hq hq' => ?_, rfl, ?_⟩
    · rw [if_neg hindex, performAll_cons_of hread, performAll_cons_of hlea]
      rfl
    · rw [hsum.others q hq, hloaded.others q hq']
    · rw [hsum.held.gpr_eq, hloaded.others _ (Ne.symm hne), hloaded.held.gpr_eq]
      simp

/-- Behind the instructions that compute it, the address of a guest operand is that of the guest. -/
theorem performAll_getAddress (hr : Represents h c) {tmp : Reg} (htmp : Free tmp) (hne : tmp ≠ .MEM_ADDR) (mem : Mem) :
    ∃ h', h.performAll (getAddress .MEM_ADDR tmp mem).1 = some h' ∧
      Addressed h h' tmp (getAddress .MEM_ADDR tmp mem).2 (c.resolve mem) := by
  have hzero : BitVec.ofInt 64 (0 : Int32).toInt = 0 := by decide
  by_cases hseg : mem.segment = .fs
  · obtain ⟨h1, hfs, hloaded⟩ := perform_readFsBase hr (.inr (.inr rfl))
    obtain ⟨h2, hindex, hsum⟩ := performAll_addIndex (hloaded.scratch.represents hr) htmp hne mem.encoding.index
      mem.encoding.scale
    have hscratch := hloaded.scratch.trans hsum.scratch
    have hvalue : h2.gpr (get .MEM_ADDR) =
        c.segmentBase .fs + c.gpr mem.encoding.index * BitVec.ofNat 64 mem.encoding.scale.toNat := by
      rw [← hloaded.held.gpr_eq, ← hsum.place.sum, hzero]
      exact (BitVec.add_zero _).symm
    by_cases hbase : mem.encoding.base = .zero
    · rw [getAddress, if_pos hseg, if_pos hbase]
      refine ⟨h2, ?_, hscratch, fun q hq hq' => ?_, rfl, ?_⟩
      · rw [performAll_cons_of hfs]
        exact hindex
      · rw [hsum.others q hq hq', hloaded.others q hq]
      · rw [hvalue, Cpu.resolve, hseg, hbase, hr.zero]
        simp [BitVec.add_assoc, BitVec.mul_comm]
    · obtain ⟨h3, hread, hbaseLoaded⟩ := perform_readReg64 (hscratch.represents hr) htmp mem.encoding.base
      obtain ⟨h4, hlea, hlast⟩ := perform_leaIndex h3 (.inr (.inr rfl)) .MEM_ADDR tmp 1 mem.encoding.displacement
      rw [getAddress, if_pos hseg, if_neg hbase]
      refine ⟨h4, ?_, hscratch.trans (hbaseLoaded.scratch.trans hlast.scratch), fun q hq hq' => ?_, rfl, ?_⟩
      · rw [List.cons_append, performAll_cons_of hfs, performAll_append_of hindex, performAll_cons_of hread,
          performAll_cons_of hlea]
        rfl
      · rw [hlast.others q hq, hbaseLoaded.others q hq', hsum.others q hq hq', hloaded.others q hq]
      · rw [hlast.held.gpr_eq, hbaseLoaded.others _ (Ne.symm hne), hbaseLoaded.held.gpr_eq, hvalue, hzero, Cpu.resolve, hseg,
          BitVec.mul_comm (BitVec.ofNat 64 _)]
        simp only [UInt8.toNat_one, BitVec.ofNat_eq_ofNat, BitVec.mul_one, BitVec.add_zero]
        ac_rfl
  · have hsegment : c.segmentBase mem.segment = 0 := hr.segment _ hseg
    obtain ⟨h1, hbase, hloaded⟩ := perform_readReg64 hr (.inr (.inr rfl)) mem.encoding.base
    by_cases hindex : mem.encoding.index = .zero
    · rw [getAddress, if_neg hseg, if_pos hindex]
      refine ⟨h1, ?_, hloaded.scratch, fun q hq _ => hloaded.others q hq, rfl, ?_⟩
      · rw [performAll_cons_of hbase]
        rfl
      · rw [hloaded.held.gpr_eq, Cpu.resolve, hsegment, hindex, hr.zero]
        simp
    · obtain ⟨h2, hread, hindexLoaded⟩ := perform_readReg64 (hloaded.scratch.represents hr) htmp mem.encoding.index
      obtain ⟨h3, hlea, hlast⟩ := perform_leaIndex h2 (.inr (.inr rfl)) .MEM_ADDR tmp mem.encoding.scale
        mem.encoding.displacement
      rw [getAddress, if_neg hseg, if_neg hindex]
      refine ⟨h3, ?_, hloaded.scratch.trans (hindexLoaded.scratch.trans hlast.scratch), fun q hq hq' => ?_, rfl, ?_⟩
      · rw [performAll_cons_of hbase, performAll_cons_of hread, performAll_cons_of hlea]
        rfl
      · rw [hlast.others q hq, hindexLoaded.others q hq', hloaded.others q hq]
      · rw [hlast.held.gpr_eq, hindexLoaded.others _ (Ne.symm hne), hindexLoaded.held.gpr_eq, hloaded.held.gpr_eq, Cpu.resolve,
          hsegment, BitVec.mul_comm (BitVec.ofNat 64 _)]
        simp

end Instructions

end Compiler

end X64Emulator
