import X64Emulator.Execution
import X64Emulator.Lib.Footprint

/-!
# The footprints of instructions

The bytes an instruction reads determine where it writes and what.
-/

namespace X64Emulator

namespace Ir

open Footprint

variable {cpu : Cpu} {s s' : State}

theorem littleEndian_congr {byte byte' : Nat → UInt8} {n : Nat} (h : ∀ i < n, byte' i = byte i) :
    littleEndian byte' n = littleEndian byte n := by
  induction n with
  | zero => rfl
  | succ n ih => rw [littleEndian, littleEndian, ih fun i hi => h i (by omega), h n (by omega)]

theorem regValue_congr {reg : R64} (h : reg ≠ .zero → ∀ i < 8, s' (.gpr reg i) = s (.gpr reg i)) :
    regValue s' reg = regValue s reg := by
  by_cases hz : reg = .zero
  · rw [regValue, regValue, if_pos hz, if_pos hz]
  · rw [regValue, regValue, if_neg hz, if_neg hz, littleEndian_congr (h hz)]

namespace Place

/-- A place is nowhere, or the register or the memory of an operand. -/
@[simp] theorem index_nowhere (l : Loc) : nowhere.index cpu s l = none := by
  cases l <;> rfl

theorem loc_of_index {p : Place} {l : Loc} {i : Nat} (h : p.index cpu s l = some i) : p.loc cpu s i = some l := by
  cases p <;> cases l <;> simp only [index, reduceCtorEq, Option.ite_none_right_eq_some, Option.some.injEq] at h
  case gpr.gpr =>
    obtain ⟨⟨rfl, hle⟩, rfl⟩ := h
    simp only [loc, Option.some.injEq, Loc.gpr.injEq, true_and]
    omega
  case mmx.mmx =>
    obtain ⟨rfl, rfl⟩ := h
    rfl
  case xmm.xmm =>
    obtain ⟨rfl, rfl⟩ := h
    rfl
  case mem.mem m a =>
    subst h
    simp only [loc, BitVec.ofNat_toNat, BitVec.setWidth_eq, Option.some.injEq, Loc.mem.injEq]
    exact add_sub_cancel (m.address cpu s) a

theorem index_of_loc {p : Place} {l : Loc} {i : Nat} (hi : i < 2 ^ 64) (h : p.loc cpu s i = some l) :
    p.index cpu s l = some i := by
  cases p <;> simp only [loc, Option.some.injEq, reduceCtorEq] at h
  case gpr =>
    subst h
    simp [index]
  case mmx =>
    subst h
    simp [index]
  case xmm =>
    subst h
    simp [index]
  case mem m =>
    subst h
    simp only [index, Option.some.injEq]
    rw [add_sub_cancel_left, BitVec.toNat_ofNat, Nat.mod_eq_of_lt hi]

end Place

namespace Operand

variable {op : Operand}

theorem covers_iff {l : Loc} : op.covers cpu s l ↔ ∃ i < op.size, op.place.index cpu s l = some i := by
  rw [covers]
  cases op.place.index cpu s l <;> simp

theorem written_iff {l : Loc} : op.written cpu s l ↔ ∃ i < op.span, op.place.index cpu s l = some i := by
  rw [written]
  cases op.place.index cpu s l <;> simp

theorem size_le_span (op : Operand) : op.size ≤ op.span := by
  cases op <;> simp [size, span]

theorem span_le (op : Operand) : op.span ≤ 16 := by
  cases op <;> simp [size, span]

/-- Where an operand is depends only on the registers of its address. -/
theorem address_congr {m : Mem} (hm : op.memory = some m) (h : ∀ l, op.addressed l → s' l = s l) :
    m.address cpu s' = m.address cpu s := by
  have hreg : ∀ reg, reg = m.encoding.base ∨ reg = m.encoding.index → regValue s' reg = regValue s reg := by
    intro reg hreg
    refine regValue_congr fun hz i hi => h _ ?_
    simp [addressed, hm, hi, hz, hreg]
  rw [Mem.address, Mem.address, hreg _ (.inl rfl), hreg _ (.inr rfl)]

/-- An operand with an address is a memory operand. -/
theorem memory_of_place {m : Mem} (hp : op.place = .mem m) : op.memory = some m := by
  cases op <;> cases hp <;> rfl

theorem index_of_address (h : ∀ m, op.memory = some m → m.address cpu s' = m.address cpu s) (l : Loc) :
    op.place.index cpu s' l = op.place.index cpu s l := by
  cases hp : op.place with
  | mem m =>
    cases l with
    | mem a => simp only [Place.index, h m (memory_of_place hp)]
    | gpr | mmx | xmm | flags => rfl
  | gpr | mmx | xmm | nowhere => cases l <;> rfl

theorem loc_of_address (h : ∀ m, op.memory = some m → m.address cpu s' = m.address cpu s) (i : Nat) :
    op.place.loc cpu s' i = op.place.loc cpu s i := by
  cases hp : op.place with
  | mem m => simp only [Place.loc, h m (memory_of_place hp)]
  | gpr | mmx | xmm | nowhere => rfl

theorem index_congr (h : ∀ l, op.addressed l → s' l = s l) (l : Loc) :
    op.place.index cpu s' l = op.place.index cpu s l := index_of_address (fun _ hm => address_congr hm h) l

theorem loc_congr (h : ∀ l, op.addressed l → s' l = s l) (i : Nat) : op.place.loc cpu s' i = op.place.loc cpu s i :=
  loc_of_address (fun _ hm => address_congr hm h) i

theorem covers_congr (h : ∀ l, op.addressed l → s' l = s l) (l : Loc) : op.covers cpu s' l = op.covers cpu s l := by
  rw [covers, covers, index_congr h]

theorem written_congr (h : ∀ l, op.addressed l → s' l = s l) (l : Loc) : op.written cpu s' l = op.written cpu s l := by
  rw [written, written, index_congr h]

/-- The bytes of a memory operand are those behind its address. -/
theorem covers_mem {m : Mem} (hm : op.memory = some m) (a : BitVec 64) :
    op.covers cpu s (.mem a) = decide ((a - m.address cpu s).toNat < op.size) := by
  cases op <;> simp only [memory, Option.some.injEq, reduceCtorEq] at hm <;> subst hm <;> rfl

theorem written_mem {m : Mem} (hm : op.memory = some m) (a : BitVec 64) :
    op.written cpu s (.mem a) = decide ((a - m.address cpu s).toNat < op.size) := by
  cases op <;> simp only [memory, Option.some.injEq, reduceCtorEq] at hm <;> subst hm <;> rfl

/-- The value of a register or of memory, byte by byte. -/
theorem value_eq (h : op.immediate = none) {i : Nat} {l : Loc} (hi : i < op.size) (hl : op.place.loc cpu s i = some l) :
    op.value cpu s i = s l := by
  rw [value, h]
  simp [hi, hl]

theorem value_past (h : op.immediate = none) {i : Nat} (hi : op.size ≤ i) : op.value cpu s i = 0 := by
  rw [value, h]
  simp [Nat.not_lt.2 hi]

/-- What an operand holds depends only on its bytes, and on where they are. -/
theorem value_congr (ha : ∀ l, op.addressed l → s' l = s l) (hc : ∀ l, op.covers cpu s l → s' l = s l) (i : Nat) :
    op.value cpu s' i = op.value cpu s i := by
  rw [value, value]
  cases op.immediate with
  | some v => rfl
  | none =>
    by_cases hi : i < op.size
    · rw [loc_congr ha]
      cases hl : op.place.loc cpu s i with
      | none => rfl
      | some l =>
        have hsize := op.size_le_span.trans op.span_le
        have hl' := hc l (covers_iff.2 ⟨i, hi, Place.index_of_loc (by omega) hl⟩)
        simp [hi, hl']
    · simp [hi]

end Operand

theorem move_of_not_written {dst src : Operand} {l : Loc} (h : dst.written cpu s l = false) : move cpu dst src s l = s l := by
  rw [move]
  cases hi : dst.place.index cpu s l with
  | none => rfl
  | some i =>
    simp only [Operand.written, hi, Option.any_some, decide_eq_false_iff_not] at h
    simp only [if_neg h]

theorem move_of_index {dst src : Operand} {l : Loc} {i : Nat} (h : dst.place.index cpu s l = some i) (hi : i < dst.size) :
    move cpu dst src s l = src.value cpu s i := by
  have hspan := dst.size_le_span
  rw [move, h]
  simp only [if_pos hi, if_pos (show i < dst.span by omega)]

/-- A write of 32 bits to a register clears the rest of it. -/
theorem move_of_past {dst src : Operand} {l : Loc} {i : Nat} (h : dst.place.index cpu s l = some i) (hi : i < dst.span)
    (hp : dst.size ≤ i) : move cpu dst src s l = 0 := by
  rw [move, h]
  simp only [if_pos hi, if_neg (show ¬ i < dst.size by omega)]

theorem move_congr {dst src : Operand} (hdst : ∀ l, dst.addressed l → s' l = s l) (hsrc : ∀ l, src.addressed l → s' l = s l)
    (hc : ∀ l, src.covers cpu s l → s' l = s l) {l : Loc} (hl : dst.written cpu s l) :
    move cpu dst src s' l = move cpu dst src s l := by
  rw [move, move, Operand.index_congr hdst]
  cases hi : dst.place.index cpu s l with
  | none => simp [Operand.written, hi] at hl
  | some i =>
    simp only [Operand.written, hi, Option.any_some, decide_eq_true_eq] at hl
    simp only [if_pos hl, Operand.value_congr hsrc hc]

/-- A move writes its first operand, by what it reads of its second and by the registers of their addresses. -/
theorem move_bounds (cpu : Cpu) (dst src : Operand) :
    Bounds (move cpu dst src) (fun s l => src.covers cpu s l = true ∨ src.addressed l = true ∨ dst.addressed l = true)
      (fun s l => dst.written cpu s l = true) := by
  constructor
  · intro s l hl
    exact move_of_not_written (by simpa using hl)
  · intro s s' h
    have hdst : ∀ l, dst.addressed l → s' l = s l := fun l hl => h l (.inr (.inr hl))
    refine ⟨fun l => by rw [Operand.written_congr hdst], fun l hl => ?_⟩
    exact move_congr hdst (fun l hl => h l (.inr (.inl hl))) (fun l hl => h l (.inl hl)) hl

namespace Instruction

variable {ins : Instruction}

theorem regValue_rsp (hp : ins.pushes = true) (h : ∀ l, ins.reads cpu s l → s' l = s l) : regValue s' .rsp = regValue s .rsp := by
  refine regValue_congr fun _ i hi => h _ ?_
  unfold reads
  simp [uses, hp, hi]

theorem agree_addressed (h : ∀ l, ins.reads cpu s l → s' l = s l) :
    (∀ l, ins.out.addressed l → s' l = s l) ∧ (∀ l, ins.in1.addressed l → s' l = s l) ∧
      (∀ l, ins.in2.addressed l → s' l = s l) ∧ ∀ l, ins.in3.addressed l → s' l = s l := by
  unfold reads at h
  exact ⟨fun l hl => h l (by simp [hl]), fun l hl => h l (by simp [hl]), fun l hl => h l (by simp [hl]),
    fun l hl => h l (by simp [hl])⟩

theorem reads_congr (h : ∀ l, ins.reads cpu s l → s' l = s l) (l : Loc) : ins.reads cpu s' l = ins.reads cpu s l := by
  obtain ⟨h0, h1, h2, h3⟩ := agree_addressed h
  unfold reads
  simp only [Operand.covers_congr h1, Operand.covers_congr h2, Operand.covers_congr h3, Operand.written_congr h0]

theorem stackSlot_congr (hp : ins.pushes = true) (h : ∀ l, ins.reads cpu s l → s' l = s l) (l : Loc) :
    stackSlot s' l = stackSlot s l := by
  cases l <;> try rfl
  simp only [stackSlot, regValue_rsp hp h]

theorem writes_congr (h : ∀ l, ins.reads cpu s l → s' l = s l) (l : Loc) : ins.writes cpu s' l = ins.writes cpu s l := by
  obtain ⟨h0, -, h2, -⟩ := agree_addressed h
  cases hp : ins.pushes with
  | false => simp only [writes, Operand.written_congr h0, Operand.written_congr h2, hp, Bool.false_and]
  | true => simp only [writes, Operand.written_congr h0, Operand.written_congr h2, hp, stackSlot_congr hp h]

/-- What an instruction depends on. -/
def depends (cpu : Cpu) (ins : Instruction) (s : State) (l : Loc) : Bool :=
  if ins.isMove then ins.in1.covers cpu s l || ins.in1.addressed l || ins.out.addressed l else ins.reads cpu s l

/-- What an instruction may change. -/
def changes (cpu : Cpu) (ins : Instruction) (s : State) (l : Loc) : Bool :=
  if ins.isMove then ins.out.written cpu s l else ins.writes cpu s l

theorem exec_of_isMove (h : ins.isMove = true) (s : State) : ins.exec cpu s = move cpu ins.out ins.in1 s := by
  rw [exec, if_pos h]

theorem exec_of_not_isMove (h : ¬ ins.isMove = true) (s : State) (l : Loc) :
    ins.exec cpu s l = if ins.writes cpu s l then cpu.effect ins (ins.view cpu s) l else s l := by
  rw [exec, if_neg h]

/-- The bytes an instruction reads and writes bound what it does. Of a move they are those of its operands. -/
theorem exec_bounds (cpu : Cpu) (ins : Instruction) :
    Bounds (ins.exec cpu) (fun s l => ins.depends cpu s l = true) (fun s l => ins.changes cpu s l = true) := by
  by_cases hmove : ins.isMove = true
  · simp only [funext (exec_of_isMove hmove), depends, changes, if_pos hmove, Bool.or_eq_true, or_assoc]
    exact move_bounds cpu ins.out ins.in1
  · simp only [depends, changes, if_neg hmove]
    constructor
    · intro s l hl
      rw [exec_of_not_isMove hmove, if_neg hl]
    · intro s s' h
      refine ⟨fun l => by rw [writes_congr h], fun l hl => ?_⟩
      have hview : ins.view cpu s' = ins.view cpu s := by
        funext l
        rw [view, view, reads_congr h]
        split
        · exact h l ‹_›
        · rfl
      rw [exec_of_not_isMove hmove, exec_of_not_isMove hmove, writes_congr h, if_pos hl, if_pos hl, hview]

end Instruction

end Ir

end X64Emulator
