import X64Emulator.BlockLookup
import X64Emulator.Lemmas.CompiledCode
import X64Emulator.VirtualMachine
import Mathlib.Algebra.Group.Nat.Defs

/-!
# Runs of the lookup

`Searching` says what is the same at every turn of the loop; a turn leads to the next one or to the end. The memory is that of the
beginning but for three words on the stack.
-/

namespace X64Emulator

open Ir

namespace Ir

namespace IR

variable {ir part : IR} {start : Nat}

theorem contains_self (ir : IR) : ir.Contains 0 ir :=
  ⟨fun i ins h => by rw [Nat.zero_add]; exact h, fun l position h => by rw [Nat.zero_add]; exact h⟩

namespace Contains

variable (pc : Nat) {s s' : HostState} {ins : Instruction}

/-- An instruction that does not jump. -/
theorem next (h : ir.Contains start part) (hins : part.instructions[pc]? = some ins) (hexec : s.exec ins = some s') :
    ir.Reaches (start + pc, s) (start + (pc + 1), s') := by
  refine .single ?_
  show ir.step (start + pc) s = _
  rw [step, h.instructions pc ins hins, Option.bind_some]
  split
  · next hop _ => exact absurd hexec (by simp [HostState.exec, hop])
  · next hop _ _ => exact absurd hexec (by simp [HostState.exec, hop])
  · rw [hexec]
    rfl

theorem jump (h : ir.Contains start part) {label : UInt32} {target : Nat}
    (hins : part.instructions[pc]? = some { op := .jmp, in1 := .labelIndex label })
    (hlabel : part.labels[label.toNat]? = some target) :
    ir.Reaches (start + pc, s) (start + target, s) := by
  refine .single ?_
  show ir.step (start + pc) s = _
  rw [step, h.instructions pc _ hins, Option.bind_some]
  show ir.labels[label.toNat]?.map (·, s) = _
  rw [h.labels _ _ hlabel, Option.map_some]

theorem jumpCondition (h : ir.Contains start part) {cond : Cond} {label : UInt32} {target : Nat}
    (hins : part.instructions[pc]? = some { op := .jcc, in1 := .labelIndex label, condition := some cond })
    (hlabel : part.labels[label.toNat]? = some target) :
    ir.Reaches (start + pc, s) (start + (if cond.holds s.flags then target else pc + 1), s) := by
  refine .single ?_
  show ir.step (start + pc) s = _
  rw [step, h.instructions pc _ hins, Option.bind_some]
  show (if cond.holds s.flags then ir.labels[label.toNat]?.map (·, s) else some (start + pc + 1, s)) = _
  rw [h.labels _ _ hlabel, Option.map_some]
  split <;> rfl

end Contains

end IR

namespace HostState

variable {h : HostState} {r : R64}

/-- The word at an address, whether it may be read or not. -/
def word (h : HostState) (address : BitVec 64) : BitVec 64 := (bytesAt address .u64).load 64 h.memory

theorem get_of_ne_zero (h : HostState) (hr : r ≠ .zero) : h.get r = h.gpr r := if_neg hr

theorem load64_of_readable {a : BitVec 64} (hread : ∀ i < 8, h.readable (a + BitVec.ofNat 64 i) = true) :
    h.load64 a = some (h.word a) := by
  have hmay : h.mayRead a 8 = true := by simpa [mayRead] using hread
  exact if_pos hmay

theorem exec_movMem {dst base : R64} (hbase : base ≠ .zero) (off : Int32) :
    h.exec (IrGenerator.movMem dst (Compiler.make64 base off)) =
      (h.load64 (h.gpr base + BitVec.ofInt 64 off.toInt)).map (h.set dst ·) := by
  change ((h.address ⟨.cs, Compiler.make64 base off⟩).bind fun a => (h.load64 a).map (h.set dst ·)) = _
  rw [Compiler.address_base h hbase, Option.bind_some]

theorem exec_movIndex {dst base index : R64} (hbase : base ≠ .zero) (hindex : index ≠ .zero) (scale : UInt8) (off : Int32) :
    h.exec (IrGenerator.movMem dst (Compiler.make64Index base index scale off)) =
      (h.load64 (h.gpr base + h.gpr index * BitVec.ofNat 64 scale.toNat + BitVec.ofInt 64 off.toInt)).map (h.set dst ·) := by
  change ((h.address ⟨.cs, Compiler.make64Index base index scale off⟩).bind fun a => (h.load64 a).map (h.set dst ·)) = _
  rw [Compiler.address_index h (.inl rfl) hbase hindex, Option.bind_some]

theorem exec_lea {dst base : R64} (hbase : base ≠ .zero) (off : Int32) :
    h.exec (IrGenerator.lea dst (Compiler.make64 base off)) = some (h.set dst (h.gpr base + BitVec.ofInt 64 off.toInt)) := by
  change (h.address ⟨.cs, Compiler.make64 base off⟩).map (h.set dst ·) = _
  rw [Compiler.address_base h hbase, Option.map_some]

theorem exec_movReg {dst src : R64} (hsrc : src ≠ .zero) :
    h.exec (IrGenerator.movReg dst src) = some (h.set dst (h.gpr src)) := congrArg (some <| h.set dst ·) (h.get_of_ne_zero hsrc)

theorem exec_cmp {lhs rhs : R64} (hlhs : lhs ≠ .zero) (hrhs : rhs ≠ .zero) :
    h.exec (IrGenerator.cmp lhs rhs) = some (h.compared (h.gpr lhs) (h.gpr rhs)) := by
  change some (h.compared (h.get lhs) (h.get rhs)) = _
  rw [h.get_of_ne_zero hlhs, h.get_of_ne_zero hrhs]

theorem exec_test_self {reg : R64} (hreg : reg ≠ .zero) :
    h.exec (IrGenerator.test reg reg) = some (h.tested (h.gpr reg)) := by
  change some (h.tested (h.get reg &&& h.get reg)) = _
  rw [h.get_of_ne_zero hreg, BitVec.and_self]

theorem exec_xor_self (reg : R64) : h.exec (IrGenerator.xor_ reg reg) = some ((h.tested 0).set reg 0) := by
  change some ((h.tested (h.get reg ^^^ h.get reg)).set reg (h.get reg ^^^ h.get reg)) = _
  rw [BitVec.xor_self]
  rfl

theorem exec_inc {reg : R64} (hreg : reg ≠ .zero) :
    h.exec (IrGenerator.inc reg) = some ({ h with flags := (CpuImpl.inc64 (h.gpr reg) h.flags).2 }.set reg (h.gpr reg + 1)) := by
  change some ({ h with flags := (CpuImpl.inc64 (h.get reg) h.flags).2 }.set reg (h.get reg + 1)) = _
  rw [h.get_of_ne_zero hreg]

theorem exec_push {src : R64} (hsrc : src ≠ .zero) : h.exec (IrGenerator.push64 src) = h.push (h.gpr src) :=
  congrArg h.push (h.get_of_ne_zero hsrc)

theorem exec_pop (dst : R64) : h.exec (IrGenerator.pop64 dst) = h.pop dst := rfl

/-- The state behind a push. -/
def pushedWith (h : HostState) (value : BitVec 64) : HostState :=
  { h with memory := (bytesAt (h.gpr .rsp - 8) .u64).store h.memory value }.set .rsp (h.gpr .rsp - 8)

theorem gpr_pushedWith (value : BitVec 64) (r : R64) :
    (h.pushedWith value).gpr r = if r = .rsp then h.gpr .rsp - 8 else h.gpr r := rfl

theorem push_of_writable (value : BitVec 64) (hwrite : ∀ i < 8, h.writable (h.gpr .rsp - 8 + BitVec.ofNat 64 i) = true) :
    h.push value = some (h.pushedWith value) := by
  have hmay : h.mayWrite (h.gpr .rsp - 8) 8 = true := by simpa [mayWrite] using hwrite
  exact congrArg (Option.map fun s' : HostState => s'.set .rsp (h.gpr .rsp - 8)) (if_pos hmay)

theorem pop_of_readable (reg : R64) (hread : ∀ i < 8, h.readable (h.gpr .rsp + BitVec.ofNat 64 i) = true) :
    h.pop reg = some ((h.set .rsp (h.gpr .rsp + 8)).set reg (h.word (h.gpr .rsp))) := by
  rw [pop, load64_of_readable hread, Option.map_some]

@[simp] theorem zero_compared (a b : BitVec 64) : (h.compared a b).flags.zero = decide (a = b) := by
  show decide (a - b = 0) = decide (a = b)
  exact decide_eq_decide.2 (by bv_omega)

@[simp] theorem zero_tested (a : BitVec 64) : (h.tested a).flags.zero = decide (a = 0) := rfl

end HostState

end Ir

namespace Compiler

open IrGenerator

/-- What the generator makes of the calls. -/
def lookupIr : IR where
  instructions := [
    push64 .r13, push64 .r14, push64 .r15,
    movMem .r13 (make64 .rdi BBPTR_OFFSET),
    lea .r13 (make64 .r13 BLOCK_LOOKUP_TABLE_OFFSET),
    readReg64 .GPR0 .rip,
    movReg .r14 .r8,
    movMem .r15 (make64 .r13 0),
    xor_ .r9 .r9,
    -- the body of the loop, at 9
    cmp .r9 .r15,
    { op := .jcc, in1 := .labelIndex 2, condition := some .e },
    movMem .r8 (make64 .r13 ADDRESS_LOOKUP_OFFSET),
    movMem .r8 (make64Index .r8 .r9 8 0),
    cmp .r8 .r14,
    { op := .jcc, in1 := .labelIndex 1, condition := some .ne },
    movMem .r8 (make64 .r13 BASICBLOCK_LOOKUP_OFFSET),
    movMem .r9 (make64Index .r8 .r9 8 0),
    test .r9 .r9,
    { op := .jcc, in1 := .labelIndex 2, condition := some .e },
    movMem .r8 (make64 .r9 NATIVE_BLOCK_OFFSET),
    test .r8 .r8,
    { op := .jcc, in1 := .labelIndex 2, condition := some .e },
    { op := .jmp, in1 := .labelIndex 3 },
    -- the next turn, at 23
    inc .r9,
    { op := .jmp, in1 := .labelIndex 0 },
    -- the failure, at 25, and the end
    xor_ .r8 .r8,
    pop64 .r15, pop64 .r14, pop64 .r13]
  labels := [9, 23, 25, 26]

theorem generated_lookup : IrGenerator.generated tryCompileBlockLookup = some lookupIr := by decide

end Compiler

/-! ## What the code reads -/

/-- Where the objects are: the block that is running, the arrays of its table, the block of each number and its native code. -/
structure LookupPointers where
  currentlyExecutingJitBasicBlock : BitVec 64
  addresses : BitVec 64
  blocks : BitVec 64
  jitBasicBlock : Nat → BitVec 64
  jumpEntrypoint : Nat → BitVec 64

namespace LookupPointers

/-- The entry of an array of pointers. -/
def entry (array : BitVec 64) (i : Nat) : BitVec 64 := array + BitVec.ofNat 64 (8 * i)

/-- The entry point of a block that was found, or null. -/
def target (p : LookupPointers) (block : Option Nat) : BitVec 64 := (block.map p.jumpEntrypoint).getD 0

/-- The words of the argument, of the guest's registers, of the block, of its table, and of the blocks in the table. -/
inductive Cell (h : HostState) (p : LookupPointers) (table : BlockLookupTable) : BitVec 64 → Prop
  | currentlyExecutingJitBasicBlock : Cell h p table (h.gpr .rdi + 0x58)
  | rip : Cell h p table (Compiler.registerCell h .rip)
  | size : Cell h p table (p.currentlyExecutingJitBasicBlock + 0x20)
  | addresses : Cell h p table (p.currentlyExecutingJitBasicBlock + 0x28)
  | blocks : Cell h p table (p.currentlyExecutingJitBasicBlock + 0x30)
  | address (i : Nat) (hi : i < table.size) : Cell h p table (entry p.addresses i)
  | block (i : Nat) (hi : i < table.size) : Cell h p table (entry p.blocks i)
  | jumpEntrypoint (block : Nat) (hblock : some block ∈ table.blocks) : Cell h p table (p.jitBasicBlock block + 0x18)

/-- The operand by which the code reads an entry. -/
theorem index_entry (array : BitVec 64) (i : Nat) :
    array + BitVec.ofNat 64 i * BitVec.ofNat 64 (8 : UInt8).toNat + BitVec.ofInt 64 (0 : Int32).toInt = entry array i := by
  rw [entry, Nat.mul_comm, BitVec.ofNat_mul]
  simp

/-- A byte of the three words below the stack pointer. -/
def OnStack (h : HostState) (address : BitVec 64) : Prop := (address - (h.gpr .rsp - 24)).toNat < 24

/-- A byte that the lookup has to read. -/
def Reads (h : HostState) (p : LookupPointers) (table : BlockLookupTable) (address : BitVec 64) : Prop :=
  OnStack h address ∨ ∃ cell, Cell h p table cell ∧ ∃ i < 8, address = cell + BitVec.ofNat 64 i

/-- The memory holds the table of the block that is running, and the address that the guest goes on at. What is read is not on
the part of the stack that the code writes. -/
structure Holds (h : HostState) (p : LookupPointers) (table : BlockLookupTable) (rip : Nat) : Prop where
  currentlyExecutingJitBasicBlock : h.word (h.gpr .rdi + 0x58) = p.currentlyExecutingJitBasicBlock
  rip_eq : h.word (Compiler.registerCell h .rip) = BitVec.ofNat 64 rip
  size : h.word (p.currentlyExecutingJitBasicBlock + 0x20) = BitVec.ofNat 64 table.size
  addresses : h.word (p.currentlyExecutingJitBasicBlock + 0x28) = p.addresses
  blocks : h.word (p.currentlyExecutingJitBasicBlock + 0x30) = p.blocks
  address : ∀ (i : Nat) address, table.addresses[i]? = some address → h.word (entry p.addresses i) = BitVec.ofNat 64 address
  block : ∀ (i : Nat) block, table.blocks[i]? = some block → h.word (entry p.blocks i) = (block.map p.jitBasicBlock).getD 0
  jumpEntrypoint : ∀ block, some block ∈ table.blocks → h.word (p.jitBasicBlock block + 0x18) = p.jumpEntrypoint block
  jitBasicBlock : ∀ block, some block ∈ table.blocks → p.jitBasicBlock block ≠ 0
  parallel : table.addresses.length = table.size ∧ table.blocks.length = table.size
  size_lt : table.size < 2 ^ 64
  rip_lt : rip < 2 ^ 64
  address_lt : ∀ address ∈ table.addresses, address < 2 ^ 64
  writable : ∀ address, OnStack h address → h.writable address = true
  apart : ∀ cell, Cell h p table cell → ∀ i < 8, ¬ OnStack h (cell + BitVec.ofNat 64 i)

variable {ir : IR} {start : Nat} {h g g' : HostState} {p : LookupPointers} {table : BlockLookupTable} {rip : Nat}

/-! ## The three words on the stack -/

/-- The memory behind the pushes. -/
def pushed (h : HostState) : BitVec 64 → BitVec 8 :=
  let m := (HostState.bytesAt (h.gpr .rsp - 8) .u64).store h.memory (h.gpr .r13)
  let m := (HostState.bytesAt (h.gpr .rsp - 16) .u64).store m (h.gpr .r14)
  (HostState.bytesAt (h.gpr .rsp - 24) .u64).store m (h.gpr .r15)

theorem pushed_of_not_onStack {a : BitVec 64} (ha : ¬ OnStack h a) : pushed h a = h.memory a := by
  rw [OnStack] at ha
  have h8 : 8 ≤ (a - (h.gpr .rsp - 8)).toNat := by bv_omega
  have h16 : 8 ≤ (a - (h.gpr .rsp - 16)).toNat := by bv_omega
  have h24 : 8 ≤ (a - (h.gpr .rsp - 24)).toNat := by bv_omega
  exact (Window.store_of_le _ _ _ h24).trans ((Window.store_of_le _ _ _ h16).trans (Window.store_of_le _ _ _ h8))

/-- The words that are popped are those that were pushed. -/
theorem word_pushed (hg : g.memory = pushed h) : g.word (h.gpr .rsp - 24) = h.gpr .r15 ∧
    g.word (h.gpr .rsp - 16) = h.gpr .r14 ∧ g.word (h.gpr .rsp - 8) = h.gpr .r13 := by
  refine ⟨?_, ?_, ?_⟩
  · rw [HostState.word, hg]
    exact Window.load_store _ _ rfl
  · rw [HostState.word, hg, pushed]
    refine (Window.load_congr _ fun i (hi : i < 8) => Window.store_of_le _ _ _ ?_).trans (Window.load_store _ _ rfl)
    show 8 ≤ (h.gpr .rsp - 16 + BitVec.ofNat 64 i - (h.gpr .rsp - 24)).toNat
    bv_omega
  · rw [HostState.word, hg, pushed]
    refine (Window.load_congr _ fun i (hi : i < 8) => (Window.store_of_le _ _ _ ?_).trans (Window.store_of_le _ _ _ ?_)).trans
      (Window.load_store _ _ rfl)
    · show 8 ≤ (h.gpr .rsp - 8 + BitVec.ofNat 64 i - (h.gpr .rsp - 24)).toNat
      bv_omega
    · show 8 ≤ (h.gpr .rsp - 8 + BitVec.ofNat 64 i - (h.gpr .rsp - 16)).toNat
      bv_omega

theorem onStack_of_lt {i : Nat} (hi : i < 24) : OnStack h (h.gpr .rsp - 24 + BitVec.ofNat 64 i) := by
  rw [OnStack]
  bv_omega

theorem stack_slots (rsp : BitVec 64) : rsp - 8 - 8 = rsp - 16 ∧ rsp - 16 - 8 = rsp - 24 ∧
    rsp - 8 = rsp - 24 + BitVec.ofNat 64 16 ∧ rsp - 16 = rsp - 24 + BitVec.ofNat 64 8 :=
  ⟨by bv_omega, by bv_omega, by bv_omega, by bv_omega⟩

/-- The words that are looked at are as they were. -/
theorem load_cell (hmemory : g.memory = pushed h) (hreadable : g.readable = h.readable) (hh : Holds h p table rip)
    (hread : ∀ a, Reads h p table a → h.readable a = true) {a : BitVec 64} (ha : Cell h p table a) :
    g.load64 a = some (h.word a) := by
  have hcell : ∀ i < 8, g.readable (a + BitVec.ofNat 64 i) = true := fun i hi => by
    rw [hreadable]
    exact hread _ (.inr ⟨a, ha, i, hi, rfl⟩)
  rw [HostState.load64_of_readable hcell, HostState.word, HostState.word, hmemory]
  exact congrArg some (Window.load_congr _ fun i hi => pushed_of_not_onStack (hh.apart a ha i hi))

/-! ## The loop -/

/-- What is the same in all states between the pushes and the pops. -/
structure Searching (h : HostState) (p : LookupPointers) (table : BlockLookupTable) (rip : Nat) (g : HostState) : Prop where
  r13 : g.gpr .r13 = p.currentlyExecutingJitBasicBlock + 0x20
  r14 : g.gpr .r14 = BitVec.ofNat 64 rip
  r15 : g.gpr .r15 = BitVec.ofNat 64 table.size
  rsp : g.gpr .rsp = h.gpr .rsp - 24
  others : ∀ r, r ∉ [R64.r8, .r9, .r13, .r14, .r15, .rsp] → g.gpr r = h.gpr r
  memory : g.memory = pushed h
  readable : g.readable = h.readable
  writable : g.writable = h.writable

namespace Searching

/-- The two registers that the search works with, and the flags. -/
theorem congr (hg : Searching h p table rip g) (hgpr : ∀ r, r ≠ .r8 → r ≠ .r9 → g'.gpr r = g.gpr r)
    (hmemory : g'.memory = g.memory) (hreadable : g'.readable = g.readable) (hwritable : g'.writable = g.writable) :
    Searching h p table rip g' where
  r13 := (hgpr _ (by decide) (by decide)).trans hg.r13
  r14 := (hgpr _ (by decide) (by decide)).trans hg.r14
  r15 := (hgpr _ (by decide) (by decide)).trans hg.r15
  rsp := (hgpr _ (by decide) (by decide)).trans hg.rsp
  others r hr := by
    simp only [List.mem_cons, not_or] at hr
    exact (hgpr r hr.1 hr.2.1).trans (hg.others r (by simp only [List.mem_cons, not_or]; exact hr))
  memory := hmemory.trans hg.memory
  readable := hreadable.trans hg.readable
  writable := hwritable.trans hg.writable

theorem set (hg : Searching h p table rip g) {r : R64} (hr : r = .r8 ∨ r = .r9) (value : BitVec 64) :
    Searching h p table rip (g.set r value) := by
  refine hg.congr (fun q h8 h9 => if_neg ?_) rfl rfl rfl
  rintro rfl
  exact hr.elim h8 h9

theorem setFlags (hg : Searching h p table rip g) (flags : Flags) : Searching h p table rip { g with flags := flags } :=
  hg.congr (fun _ _ _ => rfl) rfl rfl rfl

theorem load (hg : Searching h p table rip g) (hh : Holds h p table rip) (hread : ∀ a, Reads h p table a → h.readable a = true)
    {a : BitVec 64} (ha : Cell h p table a) : g.load64 a = some (h.word a) :=
  load_cell hg.memory hg.readable hh hread ha

end Searching

section Runs

variable (hplaced : ir.Contains start Compiler.lookupIr) (hh : Holds h p table rip)
  (hread : ∀ a, Reads h p table a → h.readable a = true)

include hplaced

/-- Null is stored. -/
theorem fails (hg : Searching h p table rip g) :
    ∃ g', ir.Reaches (start + 25, g) (start + 26, g') ∧ Searching h p table rip g' ∧ g'.gpr .r8 = 0 :=
  ⟨_, hplaced.next 25 rfl (HostState.exec_xor_self .r8), (hg.setFlags _).set (.inl rfl) 0, rfl⟩

include hh

/-- The three pushes. -/
theorem pushes : ∃ g, ir.Reaches (start, h) (start + 3, g) ∧ g.memory = pushed h ∧ g.readable = h.readable ∧
    g.writable = h.writable ∧ g.gpr .rsp = h.gpr .rsp - 24 ∧ ∀ r, r ≠ .rsp → g.gpr r = h.gpr r := by
  obtain ⟨h16, h24, hk1, hk2⟩ := stack_slots (h.gpr .rsp)
  have hk3 : h.gpr .rsp - 24 = h.gpr .rsp - 24 + BitVec.ofNat 64 0 := by simp
  have hstack : ∀ i < 24, h.writable (h.gpr .rsp - 24 + BitVec.ofNat 64 i) = true := fun i hi =>
    hh.writable _ (onStack_of_lt hi)
  have hpush : ∀ (s : HostState) (src : R64) (k : Nat), k ≤ 16 → s.writable = h.writable →
      s.gpr .rsp - 8 = h.gpr .rsp - 24 + BitVec.ofNat 64 k → src ≠ .zero →
      s.exec (IrGenerator.push64 src) = some (s.pushedWith (s.gpr src)) := by
    intro s src k hk hw hrsp hsrc
    rw [HostState.exec_push hsrc]
    refine HostState.push_of_writable _ fun i hi => ?_
    rw [hw, hrsp, BitVec.add_assoc, ← BitVec.ofNat_add]
    exact hstack (k + i) (by omega)
  obtain ⟨s1, hs1⟩ : ∃ s1, h.pushedWith (h.gpr .r13) = s1 := ⟨_, rfl⟩
  obtain ⟨s2, hs2⟩ : ∃ s2, s1.pushedWith (h.gpr .r14) = s2 := ⟨_, rfl⟩
  have hr1 : s1.gpr .rsp = h.gpr .rsp - 8 := by rw [← hs1, HostState.gpr_pushedWith, if_pos rfl]
  have hr2 : s2.gpr .rsp = h.gpr .rsp - 16 := by rw [← hs2, HostState.gpr_pushedWith, if_pos rfl, hr1, h16]
  have hg1 : ∀ r, r ≠ .rsp → s1.gpr r = h.gpr r := fun r hr => by rw [← hs1, HostState.gpr_pushedWith, if_neg hr]
  have hg2 : ∀ r, r ≠ .rsp → s2.gpr r = h.gpr r := fun r hr => by
    rw [← hs2, HostState.gpr_pushedWith, if_neg hr, hg1 r hr]
  have h1 := hplaced.next 0 rfl (hpush h .r13 16 (by decide) rfl hk1 (by decide))
  have h2 := hplaced.next 1 rfl (hpush s1 .r14 8 (by decide) (by rw [← hs1]; rfl) (by rw [hr1, h16, hk2]) (by decide))
  have h3 := hplaced.next 2 rfl (hpush s2 .r15 0 (by decide) (by rw [← hs2, ← hs1]; rfl) (by rw [hr2, h24]; exact hk3)
    (by decide))
  rw [hs1] at h1
  rw [hg1 .r14 (by decide), hs2] at h2
  rw [hg2 .r15 (by decide)] at h3
  refine ⟨s2.pushedWith (h.gpr .r15), h1.trans (h2.trans h3), ?_, ?_, ?_, ?_, fun r hr => ?_⟩
  · rw [HostState.pushedWith, HostState.set, hr2, h24, ← hs2, HostState.pushedWith, HostState.set, hr1, h16, ← hs1]
    rfl
  · rw [← hs2, ← hs1]
    rfl
  · rw [← hs2, ← hs1]
    rfl
  · rw [HostState.gpr_pushedWith, if_pos rfl, hr2, h24]
  · rw [HostState.gpr_pushedWith, if_neg hr, hg2 r hr]

include hread

/-- The table, the address and the size are loaded, and the counter begins with zero. -/
theorem begins : ∃ g, ir.Reaches (start, h) (start + 9, g) ∧ Searching h p table rip g ∧ g.gpr .r9 = 0 := by
  obtain ⟨s, hpush, hmemory, hreadable, hwritable, hrsp, hgpr⟩ := pushes hplaced hh
  have hload : ∀ {g : HostState} {a}, g.memory = s.memory → g.readable = s.readable → Cell h p table a →
      g.load64 a = some (h.word a) := fun hm hr =>
    load_cell (hm.trans hmemory) (hr.trans hreadable) hh hread
  let cur := p.currentlyExecutingJitBasicBlock
  have h3 : s.exec (IrGenerator.movMem .r13 (Compiler.make64 .rdi Compiler.BBPTR_OFFSET)) = some (s.set .r13 cur) := by
    rw [HostState.exec_movMem (by decide), hgpr _ (by decide)]
    exact congrArg (Option.map _) ((hload rfl rfl .currentlyExecutingJitBasicBlock).trans
      (congrArg some hh.currentlyExecutingJitBasicBlock))
  have h4 : (s.set .r13 cur).exec (IrGenerator.lea .r13 (Compiler.make64 .r13 Compiler.BLOCK_LOOKUP_TABLE_OFFSET)) =
      some ((s.set .r13 cur).set .r13 (cur + 0x20)) := HostState.exec_lea (by decide) _
  let s4 := (s.set .r13 cur).set .r13 (cur + 0x20)
  have h5 : s4.exec (Compiler.readReg64 .GPR0 .rip) = some (s4.set .r8 (BitVec.ofNat 64 rip)) := by
    show s4.exec (IrGenerator.movMem .r8 (Compiler.make64 .rsi (Compiler.registerOffset .rip))) = _
    rw [HostState.exec_movMem (by decide)]
    rw [show s4.gpr .rsi = h.gpr .rsi from hgpr _ (by decide)]
    exact congrArg (Option.map _) ((hload rfl rfl .rip).trans (congrArg some hh.rip_eq))
  let s5 := s4.set .r8 (BitVec.ofNat 64 rip)
  have h6 : s5.exec (IrGenerator.movReg .r14 .r8) = some (s5.set .r14 (BitVec.ofNat 64 rip)) := HostState.exec_movReg (by decide)
  let s6 := s5.set .r14 (BitVec.ofNat 64 rip)
  have h7 : s6.exec (IrGenerator.movMem .r15 (Compiler.make64 .r13 0)) = some (s6.set .r15 (BitVec.ofNat 64 table.size)) := by
    rw [HostState.exec_movMem (by decide), show s6.gpr .r13 = cur + 0x20 from rfl]
    refine congrArg (Option.map _) (Eq.trans ?_ ((hload (g := s6) rfl rfl .size).trans (congrArg some hh.size)))
    simp [cur]
  let s7 := s6.set .r15 (BitVec.ofNat 64 table.size)
  have h8 : s7.exec (IrGenerator.xor_ .r9 .r9) = some ((s7.tested 0).set .r9 0) := HostState.exec_xor_self _
  refine ⟨_, hpush.trans ((hplaced.next 3 rfl h3).trans ((hplaced.next 4 rfl h4).trans
    ((hplaced.next 5 rfl h5).trans ((hplaced.next 6 rfl h6).trans ((hplaced.next 7 rfl h7).trans
      (hplaced.next 8 rfl h8)))))), ?_, rfl⟩
  refine ⟨rfl, rfl, rfl, hrsp, fun r hr => ?_, hmemory, hreadable, hwritable⟩
  simp only [List.mem_cons, not_or] at hr
  obtain ⟨h8, h9, h13, h14, h15, hrsp, -⟩ := hr
  rw [← hgpr r hrsp]
  simp [s7, s6, s5, s4, HostState.tested, h8, h9, h13, h14, h15]

/-- The entry at the counter is the one: its block is looked at, and the native code of that. -/
theorem loads (hg : Searching h p table rip g) {i : Nat} {block : Option Nat} (hblock : table.blocks[i]? = some block)
    (hr9 : g.gpr .r9 = BitVec.ofNat 64 i) :
    ∃ g', ir.Reaches (start + 15, g) (start + 26, g') ∧ Searching h p table rip g' ∧ g'.gpr .r8 = p.target block := by
  have hi : i < table.size := hh.parallel.2 ▸ (List.getElem?_eq_some_iff.1 hblock).1
  have h15 : g.exec (IrGenerator.movMem .r8 (Compiler.make64 .r13 Compiler.BASICBLOCK_LOOKUP_OFFSET)) =
      some (g.set .r8 p.blocks) := by
    rw [HostState.exec_movMem (by decide), hg.r13, BitVec.add_assoc]
    exact congrArg (Option.map _) ((hg.load hh hread .blocks).trans (congrArg some hh.blocks))
  let pointer := (block.map p.jitBasicBlock).getD 0
  have hg1 : Searching h p table rip (g.set .r8 p.blocks) := hg.set (.inl rfl) _
  have h16 : (g.set .r8 p.blocks).exec (IrGenerator.movMem .r9 (Compiler.make64Index .r8 .r9 8 0)) =
      some ((g.set .r8 p.blocks).set .r9 pointer) := by
    rw [HostState.exec_movIndex (by decide) (by decide), show (g.set .r8 p.blocks).gpr .r9 = BitVec.ofNat 64 i from hr9,
      index_entry]
    exact congrArg (Option.map _) ((hg1.load hh hread (.block i hi)).trans (congrArg some (hh.block i block hblock)))
  let g2 := (g.set .r8 p.blocks).set .r9 pointer
  have hg2 : Searching h p table rip (g2.tested pointer) := (hg1.set (.inr rfl) _).setFlags _
  have h17 : g2.exec (IrGenerator.test .r9 .r9) = some (g2.tested pointer) := HostState.exec_test_self (by decide)
  have hhead : ir.Reaches (start + 15, g) (start + 18, g2.tested pointer) := (hplaced.next 15 rfl h15).trans
    ((hplaced.next 16 rfl h16).trans (hplaced.next 17 rfl h17))
  have h18 := hplaced.jumpCondition 18 (s := g2.tested pointer) rfl rfl
  cases block with
  | none =>
    -- there is no block
    obtain ⟨g', hfail, hg', hr8⟩ := fails hplaced hg2
    exact ⟨g', hhead.trans (h18.trans hfail), hg', hr8⟩
  | some block =>
    have hmem : some block ∈ table.blocks := List.mem_of_getElem? hblock
    have hne : pointer ≠ 0 := hh.jitBasicBlock block hmem
    rw [show Cond.holds (g2.tested pointer).flags .e = false from decide_eq_false hne, if_neg (by decide)] at h18
    let native := p.jumpEntrypoint block
    have h19 : (g2.tested pointer).exec (IrGenerator.movMem .r8 (Compiler.make64 .r9 Compiler.NATIVE_BLOCK_OFFSET)) =
        some ((g2.tested pointer).set .r8 native) := by
      rw [HostState.exec_movMem (by decide)]
      exact congrArg (Option.map _) ((hg2.load hh hread (.jumpEntrypoint block hmem)).trans
        (congrArg some (hh.jumpEntrypoint block hmem)))
    let g3 := (g2.tested pointer).set .r8 native
    have hg3 : Searching h p table rip (g3.tested native) := (hg2.set (.inl rfl) _).setFlags _
    have h20 : g3.exec (IrGenerator.test .r8 .r8) = some (g3.tested native) := HostState.exec_test_self (by decide)
    have h21 := hplaced.jumpCondition 21 (s := g3.tested native) rfl rfl
    have htail := hhead.trans (h18.trans ((hplaced.next 19 rfl h19).trans ((hplaced.next 20 rfl h20).trans h21)))
    by_cases hnull : native = 0
    · -- there is no native code
      rw [show Cond.holds (g3.tested native).flags .e = true from decide_eq_true hnull, if_pos rfl] at htail
      obtain ⟨g', hfail, hg', hr8⟩ := fails hplaced hg3
      exact ⟨g', htail.trans hfail, hg', hr8.trans hnull.symm⟩
    · rw [show Cond.holds (g3.tested native).flags .e = false from decide_eq_false hnull, if_neg (by decide)] at htail
      exact ⟨g3.tested native, htail.trans (hplaced.jump 22 rfl rfl), hg3, rfl⟩

omit hread in
/-- The counter is compared with the size. -/
theorem compares (hg : Searching h p table rip g) {i : Nat} (hr9 : g.gpr .r9 = BitVec.ofNat 64 i) (hi : i ≤ table.size) :
    ∃ g', ir.Reaches (start + 9, g) (start + (if i = table.size then 25 else 11), g') ∧ Searching h p table rip g' ∧
      g'.gpr .r9 = BitVec.ofNat 64 i := by
  have hcompare : g.exec (IrGenerator.cmp .r9 .r15) = some (g.compared (BitVec.ofNat 64 i) (BitVec.ofNat 64 table.size)) := by
    rw [HostState.exec_cmp (by decide) (by decide), hr9, hg.r15]
  have hlt := hh.size_lt
  have hend : (BitVec.ofNat 64 i = BitVec.ofNat 64 table.size) ↔ i = table.size := by
    rw [← BitVec.toNat_inj, BitVec.toNat_ofNat, BitVec.toNat_ofNat, Nat.mod_eq_of_lt (by omega), Nat.mod_eq_of_lt hlt]
  have hjump := hplaced.jumpCondition 10 (s := g.compared (BitVec.ofNat 64 i) (BitVec.ofNat 64 table.size)) rfl rfl
  have hzero : Cond.holds (g.compared (BitVec.ofNat 64 i) (BitVec.ofNat 64 table.size)).flags .e = decide (i = table.size) :=
    (HostState.zero_compared _ _).trans (decide_eq_decide.2 hend)
  simp only [hzero, decide_eq_true_eq] at hjump
  exact ⟨_, (hplaced.next 9 rfl hcompare).trans hjump, hg.setFlags _, hr9⟩

/-- The address of the entry at the counter is compared with the one that is searched. -/
theorem examines (hg : Searching h p table rip g) {i address : Nat} (haddress : table.addresses[i]? = some address)
    (hr9 : g.gpr .r9 = BitVec.ofNat 64 i) :
    ∃ g', ir.Reaches (start + 11, g) (start + (if address = rip then 15 else 23), g') ∧ Searching h p table rip g' ∧
      g'.gpr .r9 = BitVec.ofNat 64 i := by
  have hi : i < table.size := hh.parallel.1 ▸ (List.getElem?_eq_some_iff.1 haddress).1
  have h11 : g.exec (IrGenerator.movMem .r8 (Compiler.make64 .r13 Compiler.ADDRESS_LOOKUP_OFFSET)) =
      some (g.set .r8 p.addresses) := by
    rw [HostState.exec_movMem (by decide), hg.r13, BitVec.add_assoc]
    exact congrArg (Option.map _) ((hg.load hh hread .addresses).trans (congrArg some hh.addresses))
  have hg1 : Searching h p table rip (g.set .r8 p.addresses) := hg.set (.inl rfl) _
  have h12 : (g.set .r8 p.addresses).exec (IrGenerator.movMem .r8 (Compiler.make64Index .r8 .r9 8 0)) =
      some ((g.set .r8 p.addresses).set .r8 (BitVec.ofNat 64 address)) := by
    rw [HostState.exec_movIndex (by decide) (by decide), show (g.set .r8 p.addresses).gpr .r9 = BitVec.ofNat 64 i from hr9,
      index_entry]
    exact congrArg (Option.map _) ((hg1.load hh hread (.address i hi)).trans (congrArg some (hh.address i address haddress)))
  let g2 := (g.set .r8 p.addresses).set .r8 (BitVec.ofNat 64 address)
  have h13 : g2.exec (IrGenerator.cmp .r8 .r14) = some (g2.compared (BitVec.ofNat 64 address) (BitVec.ofNat 64 rip)) := by
    rw [HostState.exec_cmp (by decide) (by decide), show g2.gpr .r14 = BitVec.ofNat 64 rip from hg.r14]
    rfl
  have hrip := hh.rip_lt
  have haddr := hh.address_lt address (List.mem_of_getElem? haddress)
  have heq : (BitVec.ofNat 64 address = BitVec.ofNat 64 rip) ↔ address = rip := by
    rw [← BitVec.toNat_inj, BitVec.toNat_ofNat, BitVec.toNat_ofNat, Nat.mod_eq_of_lt haddr, Nat.mod_eq_of_lt hrip]
  have hjump := hplaced.jumpCondition 14 (s := g2.compared (BitVec.ofNat 64 address) (BitVec.ofNat 64 rip)) rfl rfl
  have hzero : Cond.holds (g2.compared (BitVec.ofNat 64 address) (BitVec.ofNat 64 rip)).flags .ne = !decide (address = rip) :=
    congrArg not ((HostState.zero_compared _ _).trans (decide_eq_decide.2 heq))
  have hpc : (if (!decide (address = rip)) = true then 23 else 15) = if address = rip then 15 else 23 := by
    by_cases hsame : address = rip <;> simp [hsame]
  rw [hzero, hpc] at hjump
  exact ⟨_, (hplaced.next 11 rfl h11).trans ((hplaced.next 12 rfl h12).trans ((hplaced.next 13 rfl h13).trans
    hjump)), (hg1.set (.inl rfl) _).setFlags _, hr9⟩

/-- From a turn on, the entries that are left are searched. -/
theorem searches (left : List (Nat × Option Nat)) {i : Nat} (hleft : (table.addresses.zip table.blocks).drop i = left)
    (hg : Searching h p table rip g) (hr9 : g.gpr .r9 = BitVec.ofNat 64 i) (hi : i ≤ table.size) :
    ∃ g', ir.Reaches (start + 9, g) (start + 26, g') ∧ Searching h p table rip g' ∧
      g'.gpr .r8 = p.target ((left.find? (·.1 = rip)).bind (·.2)) := by
  have hlength : (table.addresses.zip table.blocks).length = table.size := by
    rw [List.length_zip, hh.parallel.1, hh.parallel.2, Nat.min_self]
  induction left generalizing i g with
  | nil =>
    have hsize : i = table.size := by
      have hdrop := List.drop_eq_nil_iff.1 hleft
      omega
    obtain ⟨g1, hcompare, hg1, -⟩ := compares hplaced hh hg hr9 hi
    obtain ⟨g', hfail, hg', hr8⟩ := fails hplaced hg1
    rw [if_pos hsize] at hcompare
    exact ⟨g', hcompare.trans hfail, hg', hr8⟩
  | cons entry left ih =>
    have hget : (table.addresses.zip table.blocks)[i]? = some entry := by
      rw [← List.head?_drop, hleft, List.head?_cons]
    obtain ⟨haddress, hblock⟩ := List.getElem?_zip_eq_some.1 hget
    have hlt : i < table.size := hh.parallel.1 ▸ (List.getElem?_eq_some_iff.1 haddress).1
    obtain ⟨g1, hcompare, hg1, hcounter⟩ := compares hplaced hh hg hr9 hi
    obtain ⟨g2, hexamine, hg2, hcounter⟩ := examines hplaced hh hread hg1 haddress hcounter
    rw [if_neg (Nat.ne_of_lt hlt)] at hcompare
    by_cases hfound : entry.1 = rip
    · rw [if_pos hfound] at hexamine
      obtain ⟨g', hload, hg', hr8⟩ := loads hplaced hh hread hg2 hblock hcounter
      refine ⟨g', hcompare.trans (hexamine.trans hload), hg', ?_⟩
      rw [hr8, List.find?_cons_of_pos (by simpa using hfound), Option.bind_some]
    · rw [if_neg hfound] at hexamine
      have hinc := hplaced.next 23 rfl (show g2.exec (IrGenerator.inc .r9) = _ from HostState.exec_inc (by decide))
      have hg3 := (hg2.setFlags (CpuImpl.inc64 (g2.gpr .r9) g2.flags).2).set (.inr rfl) (g2.gpr .r9 + 1)
      have hnext : (HostState.set { g2 with flags := (CpuImpl.inc64 (g2.gpr .r9) g2.flags).2 } .r9 (g2.gpr .r9 + 1)).gpr .r9 =
          BitVec.ofNat 64 (i + 1) := by
        rw [BitVec.ofNat_add, ← hcounter]
        rfl
      have hrest : (table.addresses.zip table.blocks).drop (i + 1) = left := by
        rw [← List.tail_drop, hleft, List.tail_cons]
      obtain ⟨g', hloop, hg', hr8⟩ := ih hrest hg3 hnext hlt
      refine ⟨g', hcompare.trans (hexamine.trans (hinc.trans ((hplaced.jump 24 rfl rfl).trans hloop))), hg', ?_⟩
      rw [hr8, List.find?_cons_of_neg (by simpa using hfound)]

omit hh in
/-- The three words are popped. -/
theorem pops (hg : Searching h p table rip g) : ∃ g', ir.Reaches (start + 26, g) (start + 29, g') ∧
    (∀ r, r ≠ .r8 → r ≠ .r9 → g'.gpr r = h.gpr r) ∧ g'.gpr .r8 = g.gpr .r8 ∧ g'.memory = pushed h ∧
    g'.readable = h.readable ∧ g'.writable = h.writable := by
  let top (k : Nat) : BitVec 64 := h.gpr .rsp - 24 + BitVec.ofNat 64 k
  have hpop : ∀ (s : HostState) (dst : R64) (k : Nat), k ≤ 16 → s.readable = h.readable → s.gpr .rsp = top k →
      s.exec (IrGenerator.pop64 dst) = some ((s.set .rsp (top (k + 8))).set dst (s.word (top k))) := by
    intro s dst k hk hreadable hrsp
    rw [HostState.exec_pop, HostState.pop_of_readable, hrsp, BitVec.add_assoc]
    · rw [show (8 : BitVec 64) = BitVec.ofNat 64 8 from rfl, ← BitVec.ofNat_add]
    · intro i hi
      rw [hreadable, hrsp, BitVec.add_assoc, ← BitVec.ofNat_add]
      exact hread _ (.inl (onStack_of_lt (by omega)))
  obtain ⟨-, -, hslot13, hslot14⟩ := stack_slots (h.gpr .rsp)
  have htop0 : top 0 = h.gpr .rsp - 24 := BitVec.add_zero _
  have htop24 : top 24 = h.gpr .rsp := BitVec.sub_add_cancel _ _
  have hword : ∀ s : HostState, s.memory = pushed h → s.word (top 0) = h.gpr .r15 ∧ s.word (top 8) = h.gpr .r14 ∧
      s.word (top 16) = h.gpr .r13 := by
    intro s hs
    rw [htop0, show top 8 = h.gpr .rsp - 16 from hslot14.symm, show top 16 = h.gpr .rsp - 8 from hslot13.symm]
    exact word_pushed hs
  let g1 := (g.set .rsp (top 8)).set .r15 (g.word (top 0))
  let g2 := (g1.set .rsp (top 16)).set .r14 (g1.word (top 8))
  let g3 := (g2.set .rsp (top 24)).set .r13 (g2.word (top 16))
  have h26 := hplaced.next 26 rfl (hpop g .r15 0 (by decide) hg.readable (hg.rsp.trans htop0.symm))
  have h27 := hplaced.next 27 rfl (hpop g1 .r14 8 (by decide) hg.readable rfl)
  have h28 := hplaced.next 28 rfl (hpop g2 .r13 16 (by decide) hg.readable rfl)
  refine ⟨g3, h26.trans (h27.trans h28), fun r h8 h9 => ?_, rfl, hg.memory, hg.readable, hg.writable⟩
  have h13 : g2.word (top 16) = h.gpr .r13 := (hword g2 hg.memory).2.2
  have h14 : g1.word (top 8) = h.gpr .r14 := (hword g1 hg.memory).2.1
  have h15 : g.word (top 0) = h.gpr .r15 := (hword g hg.memory).1
  by_cases hr13 : r = .r13
  · rw [hr13, Compiler.gpr_set, if_pos rfl, h13]
  by_cases hr14 : r = .r14
  · rw [hr14]
    exact h14
  by_cases hr15 : r = .r15
  · rw [hr15]
    exact h15
  by_cases hrsp : r = .rsp
  · rw [hrsp]
    exact htop24
  · have hrest : g3.gpr r = g.gpr r := by simp [g3, g2, g1, hr13, hr14, hr15, hrsp]
    rw [hrest]
    exact hg.others r (by simp [h8, h9, hr13, hr14, hr15, hrsp])

/-- Wherever the code stands, it finds the block that the table gives for the address. Nothing has changed but two registers that
the code may use, the flags, and the part of the stack that is not in use. -/
theorem lookup_runs : ∃ g, ir.Reaches (start, h) (start + 29, g) ∧ g.gpr .r8 = p.target (Vm.lookup table rip) ∧
    (∀ r, r ≠ .r8 → r ≠ .r9 → g.gpr r = h.gpr r) ∧ (∀ a, ¬ OnStack h a → g.memory a = h.memory a) ∧
    g.readable = h.readable ∧ g.writable = h.writable := by
  obtain ⟨g1, hbegin, hg1, hr9⟩ := begins hplaced hh hread
  obtain ⟨g2, hsearch, hg2, hr8⟩ := searches hplaced hh hread _ List.drop_zero hg1 hr9 (Nat.zero_le _)
  obtain ⟨g, hpop, hgpr, hsame, hmemory, hreadable, hwritable⟩ := pops hplaced hread hg2
  refine ⟨g, hbegin.trans (hsearch.trans hpop), hsame.trans hr8, hgpr, fun a ha => ?_, hreadable, hwritable⟩
  rw [hmemory]
  exact pushed_of_not_onStack ha

end Runs

/-- What may be read is no part of what the memory holds. -/
theorem Holds.withReadable (hh : Holds h p table rip) (readable : BitVec 64 → Bool) :
    Holds { h with readable := readable } p table rip :=
  { hh with
    apart := fun cell hcell => hh.apart cell (by cases hcell <;> constructor <;> assumption) }

theorem reads_withReadable {readable : BitVec 64 → Bool} {a : BitVec 64} (ha : Reads { h with readable := readable } p table a) :
    Reads h p table a := by
  refine ha.imp id ?_
  rintro ⟨cell, hcell, hbyte⟩
  exact ⟨cell, by cases hcell <;> constructor <;> assumption, hbyte⟩

end LookupPointers

end X64Emulator
