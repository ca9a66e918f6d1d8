import X64Emulator.Lemmas.Execution
import Mathlib.Tactic.Ring

/-!
# Instructions that can be exchanged

What the test of the optimizer looks at keeps the operands that one instruction writes away from those the other reads. What it
overlooks is left as a condition on the state.
-/

namespace X64Emulator

namespace Ir

open Footprint

/-- Two addresses that the test tells apart by their displacements. -/
def Mem.compared (cpu : Cpu) (m m' : Mem) : Bool :=
  cpu.segmentBase m.segment = cpu.segmentBase m'.segment && m.encoding.base = m'.encoding.base &&
    m.encoding.displacement ≠ m'.encoding.displacement

namespace Instruction

/-- Where a move from or to memory goes. -/
def accesses (ins : Instruction) : Option Mem := ins.out.memory <|> ins.in1.memory

/-- What an instruction reads besides its operands. -/
def readsHidden (ins : Instruction) (l : Loc) : Bool :=
  !ins.isMove && ((ins.readsFlags && match l with | .flags _ => true | _ => false) || ins.uses l)

/-- What an instruction writes besides its first operand. -/
def writesHidden (cpu : Cpu) (ins : Instruction) (s : State) (l : Loc) : Bool :=
  !ins.isMove && ((ins.writesIn2 && ins.in2.written cpu s l) || (ins.pushes && stackSlot s l) || ins.uses l)

/-- Two moves meet in a byte of memory that one of them writes. -/
def storesMeet (cpu : Cpu) (a b : Instruction) (s : State) : Prop :=
  ∃ address, (a.out.written cpu s (.mem address) ∧ (b.out.written cpu s (.mem address) ∨ b.in1.covers cpu s (.mem address))) ∨
    (a.in1.covers cpu s (.mem address) ∧ b.out.written cpu s (.mem address))

/-- One instruction by what it does besides writing its first operand, and by that write where the other does not name what it
reads, stays off another one. -/
structure HalfSeparate (cpu : Cpu) (a b : Instruction) (s : State) : Prop where
  address : ∀ l, a.out.written cpu s l = true → b.out.addressed l = false
  reads : ∀ l, a.out.written cpu s l = true → b.readsHidden l = false
  writes : ∀ l, a.writesHidden cpu s l = true → b.depends cpu s l = false ∧ b.changes cpu s l = false

/-- Two instructions stay off each other, but for what one of them writes by its first operand and the other reads by its
inputs. -/
structure Separate (cpu : Cpu) (a b : Instruction) (s : State) : Prop where
  outs : ∀ l, a.out.written cpu s l = true → b.out.written cpu s l = false
  left : HalfSeparate cpu a b s
  right : HalfSeparate cpu b a s

/-- In a state, two instructions have no conflict of the kinds that `canCommute` does not look for. -/
def nothingOverlooked (cpu : Cpu) (a b : Instruction) (s : State) : Prop :=
  if canMovsCommute a b || canMovasCommute a b then
    ∀ m m', a.accesses = some m → b.accesses = some m' → m.compared cpu m' = false → ¬ storesMeet cpu a b s
  else Separate cpu a b s

end Instruction

variable {cpu : Cpu} {s : State}

/-! ## Addresses -/

/-- Addresses with the same registers are as far from each other as their displacements. -/
theorem Mem.apart {m m' : Mem} (hsegment : cpu.segmentBase m.segment = cpu.segmentBase m'.segment)
    (hbase : m.encoding.base = m'.encoding.base) (hindex : m.encoding.index = .zero) (hindex' : m'.encoding.index = .zero)
    {n : Nat} (hn : n ≤ 16) (hfar : m.encoding.displacement.toInt + n ≤ m'.encoding.displacement.toInt ∨
      m'.encoding.displacement.toInt + n ≤ m.encoding.displacement.toInt) {a : BitVec 64}
    (ha : (a - m.address cpu s).toNat < n) : ¬ (a - m'.address cpu s).toNat < n := by
  intro ha'
  have hd := m.encoding.displacement.le_toInt
  have hd' := m'.encoding.displacement.le_toInt
  have hlt := m.encoding.displacement.toInt_lt
  have hlt' := m'.encoding.displacement.toInt_lt
  have hmove : a - m.address cpu s = a - m'.address cpu s +
      BitVec.ofInt 64 (m'.encoding.displacement.toInt + -m.encoding.displacement.toInt) := by
    rw [Mem.address, Mem.address, hsegment, hbase, hindex, hindex', BitVec.ofInt_add, BitVec.ofInt_neg]
    simp only [regValue, if_true]
    ring
  have hnat := congrArg BitVec.toNat hmove
  rw [BitVec.toNat_add, BitVec.toNat_ofInt] at hnat
  omega

/-! ## Operands -/

namespace Operand

theorem addressed_of_isRegister {op : Operand} (h : op.isRegister = true) (l : Loc) : op.addressed l = false := by
  cases op <;> first | (simp [isRegister] at h; done) | rfl

/-- A write that does not impact an operand changes neither its bytes nor the registers of its address. -/
theorem apart_of_impacts {op other : Operand} (h : op.impacts other = false) {l : Loc} (hw : op.written cpu s l = true) :
    other.covers cpu s l = false ∧ other.addressed l = false := by
  obtain ⟨i, hi, hindex⟩ := written_iff.1 hw
  rw [impacts.eq_def] at h
  split at h
  · simp [place] at hindex
  · simp [covers, place, addressed, memory]
  · cases l <;> simp [place, Place.index] at hindex
    simp [covers, place, Place.index, addressed, memory]
  · exact absurd h (by decide)
  · cases l <;> simp only [place, Place.index, reduceCtorEq, Option.ite_none_right_eq_some] at hindex
    have hne := of_decide_eq_false h
    simp [covers, place, Place.index, addressed, memory, hindex.1, hne]
  · rename_i hvoid hxmm
    cases l <;> simp only [place, Place.index, reduceCtorEq, Option.ite_none_right_eq_some] at hindex
    cases other <;> simp_all [covers, place, Place.index, addressed, memory]
  · exact absurd h (by decide)

end Operand

namespace Instruction

variable {a b : Instruction}

theorem changes_cases {ins : Instruction} {l : Loc} (h : ins.changes cpu s l = true) :
    ins.out.written cpu s l = true ∨ ins.writesHidden cpu s l = true := by
  rw [changes] at h
  rw [writesHidden]
  split at h
  · exact .inl h
  · rename_i hmove
    simp only [writes, Bool.or_assoc, Bool.or_eq_true, Bool.and_eq_true] at h
    rcases h with h | h
    · exact .inl h.2
    · exact .inr (by simpa [hmove, or_assoc] using h)

/-- An instruction depends on the inputs it names, on the address of what it writes, and on what it does not name. -/
theorem depends_cases {ins : Instruction} {l : Loc} (h : ins.depends cpu s l = true) :
    (∃ op, (op = ins.in1 ∨ op = ins.in2 ∨ op = ins.in3) ∧ (op.covers cpu s l = true ∨ op.addressed l = true)) ∨
      ins.out.addressed l = true ∨ ins.out.written cpu s l = true ∨ ins.readsHidden l = true := by
  rw [depends] at h
  split at h
  · simp only [Bool.or_eq_true] at h
    rcases h with (h | h) | h
    · exact .inl ⟨_, .inl rfl, .inl h⟩
    · exact .inl ⟨_, .inl rfl, .inr h⟩
    · exact .inr (.inl h)
  · rename_i hmove
    unfold reads at h
    simp only [Bool.or_eq_true] at h
    rcases h with ((((((((h | h) | h) | h) | h) | h) | h) | h) | h) | h
    · exact .inl ⟨_, .inl rfl, .inl h⟩
    · exact .inl ⟨_, .inr (.inl rfl), .inl h⟩
    · exact .inl ⟨_, .inr (.inr rfl), .inl h⟩
    · exact .inr (.inl h)
    · exact .inl ⟨_, .inl rfl, .inr h⟩
    · exact .inl ⟨_, .inr (.inl rfl), .inr h⟩
    · exact .inl ⟨_, .inr (.inr rfl), .inr h⟩
    · exact .inr (.inr (.inl (Bool.and_eq_true_iff.1 h).2))
    · refine .inr (.inr (.inr ?_))
      cases l <;> simp_all [readsHidden]
    · exact .inr (.inr (.inr (by simp [readsHidden, hmove, h])))

/-- The footprints of two instructions in a state have nothing in common that one of them changes. -/
abbrev Apart (cpu : Cpu) (a b : Instruction) (s : State) : Prop :=
  Independent (fun s l => a.depends cpu s l = true) (fun s l => a.changes cpu s l = true)
    (fun s l => b.depends cpu s l = true) (fun s l => b.changes cpu s l = true) s

theorem not_depends_of_impacts (h : (a.out.impacts b.in1 || a.out.impacts b.in2 || a.out.impacts b.in3) = false)
    (houts : ∀ l, a.out.written cpu s l = true → b.out.written cpu s l = false) (hs : HalfSeparate cpu a b s) {l : Loc}
    (hl : a.changes cpu s l = true) : ¬ b.depends cpu s l = true := by
  intro hdepends
  simp only [Bool.or_eq_false_iff] at h
  rcases changes_cases hl with hl | hl
  · rcases depends_cases hdepends with ⟨op, hop, hcase⟩ | hout | hwritten | hhide
    · have himpacts : a.out.impacts op = false := by
        rcases hop with rfl | rfl | rfl
        · exact h.1.1
        · exact h.1.2
        · exact h.2
      obtain ⟨hcovers, haddr⟩ := Operand.apart_of_impacts himpacts hl
      rcases hcase with hcase | hcase
      · exact absurd hcase (by simp [hcovers])
      · exact absurd hcase (by simp [haddr])
    · exact absurd hout (by simp [hs.address l hl])
    · exact absurd hwritten (by simp [houts l hl])
    · exact absurd hhide (by simp [hs.reads l hl])
  · exact absurd hdepends (by simp [(hs.writes l hl).1])

theorem apart_of_impacts (hab : (a.out.impacts b.in1 || a.out.impacts b.in2 || a.out.impacts b.in3) = false)
    (hba : (b.out.impacts a.in1 || b.out.impacts a.in2 || b.out.impacts a.in3) = false)
    (h : Separate cpu a b s) : Apart cpu a b s := by
  have houts : ∀ l, b.out.written cpu s l = true → a.out.written cpu s l = false := by
    intro l hl
    by_contra hw
    exact absurd hl (by simp [h.outs l (by simpa using hw)])
  refine ⟨fun l hl => not_depends_of_impacts hab h.outs h.left hl, fun l hl => not_depends_of_impacts hba houts h.right hl,
    fun l hl hl' => ?_⟩
  rcases changes_cases hl with hout | hhide
  · rcases changes_cases hl' with hout' | hhide'
    · exact absurd hout' (by simp [h.outs l hout])
    · exact absurd hl (by simp [(h.right.writes l hhide').2])
  · exact absurd hl' (by simp [(h.left.writes l hhide).2])

/-! ## Moves from and to memory -/

theorem isMove_of_op {ins : Instruction} (h : ins.op = .mov ∨ ins.op = .mova) : ins.isMove = true := by
  rcases h with h | h <;> simp [isMove, h]

theorem regAndMem64_eq {ins : Instruction} {reg : R64} {m : Mem} (h : ins.regAndMem64 = some (reg, m)) :
    (ins.out = .r64 reg ∧ ins.in1 = .m64 m) ∨ (ins.out = .m64 m ∧ ins.in1 = .r64 reg) := by
  rw [regAndMem64] at h
  split at h <;> simp_all

theorem regAndMem128_eq {ins : Instruction} {reg : XMM} {m : Mem} (h : ins.regAndMem128 = some (reg, m)) :
    (ins.out = .xmm reg ∧ ins.in1 = .m128 m) ∨ (ins.out = .m128 m ∧ ins.in1 = .xmm reg) := by
  rw [regAndMem128] at h
  split at h <;> simp_all

/-- Two moves stay off each other when they meet in no byte of memory and in no register. -/
theorem apart_of_moves (ha : a.isMove = true) (hb : b.isMove = true) (hmeet : ¬ storesMeet cpu a b s)
    (hregs : ∀ l, (∀ address, l ≠ .mem address) →
      (a.out.written cpu s l = true → b.depends cpu s l = false ∧ b.out.written cpu s l = false) ∧
        (b.out.written cpu s l = true → a.depends cpu s l = false)) : Apart cpu a b s := by
  have hmem : ∀ address, ¬ _ := fun address h => hmeet ⟨address, h⟩
  simp only [not_or, not_and] at hmem
  have hchanges : ∀ l, a.changes cpu s l = a.out.written cpu s l := fun l => by rw [changes, if_pos ha]
  have hchanges' : ∀ l, b.changes cpu s l = b.out.written cpu s l := fun l => by rw [changes, if_pos hb]
  constructor
  · intro l hl
    rw [hchanges] at hl
    cases l with
    | mem address =>
      have := (hmem address).1 hl
      simp [depends, hb, Operand.addressed, this.2]
    | _ => simp [((hregs _ (by simp)).1 hl).1]
  · intro l hl
    rw [hchanges'] at hl
    cases l with
    | mem address =>
      have := fun hc => (hmem address).2 hc hl
      simpa [depends, ha, Operand.addressed] using this
    | _ => simp [(hregs _ (by simp)).2 hl]
  · intro l hl
    rw [hchanges] at hl
    rw [hchanges']
    cases l with
    | mem address => exact ((hmem address).1 hl).1
    | _ => simp [((hregs _ (by simp)).1 hl).2]

/-- Moves to or from memory whose addresses the test compares do not meet. -/
theorem not_storesMeet {m m' : Mem} {n : Nat} (hn : n ≤ 16)
    (ha : ∀ address, a.out.written cpu s (.mem address) = true ∨ a.in1.covers cpu s (.mem address) = true →
      (address - m.address cpu s).toNat < n)
    (hb : ∀ address, b.out.written cpu s (.mem address) = true ∨ b.in1.covers cpu s (.mem address) = true →
      (address - m'.address cpu s).toNat < n)
    (hfar : m.encoding.displacement.toInt ≠ m'.encoding.displacement.toInt →
      m.encoding.displacement.toInt + n ≤ m'.encoding.displacement.toInt ∨
        m'.encoding.displacement.toInt + n ≤ m.encoding.displacement.toInt)
    (hindex : m.encoding.base = m'.encoding.base → m.encoding.index = .zero ∧ m'.encoding.index = .zero)
    (h : m.compared cpu m' = true) : ¬ storesMeet cpu a b s := by
  rintro ⟨address, hmeet⟩
  simp only [Mem.compared, Bool.and_eq_true, decide_eq_true_eq] at h
  obtain ⟨⟨hsegment, hbase⟩, hne⟩ := h
  have hfar' := hfar fun heq => hne (Int32.toInt.inj heq)
  refine Mem.apart hsegment hbase (hindex hbase).1 (hindex hbase).2 hn hfar' (ha address ?_) (hb address ?_)
  · rcases hmeet with hmeet | hmeet
    · exact .inl hmeet.1
    · exact .inr hmeet.1
  · rcases hmeet with hmeet | hmeet
    · exact hmeet.2
    · exact .inl hmeet.2

/-- The bytes of memory that a move between a register and memory uses. -/
theorem moved_bytes (cpu : Cpu) (s : State) {ins : Instruction} {reg mem : Operand} {m : Mem}
    (h : (ins.out = reg ∧ ins.in1 = mem) ∨ (ins.out = mem ∧ ins.in1 = reg)) (hreg : reg.isRegister = true)
    (hm : mem.memory = some m) : ins.accesses = some m ∧ ∀ address,
      ins.out.written cpu s (.mem address) = true ∨ ins.in1.covers cpu s (.mem address) = true →
        (address - m.address cpu s).toNat < mem.size := by
  have hbytes : (∀ address, reg.written cpu s (.mem address) = false ∧ reg.covers cpu s (.mem address) = false) ∧
      reg.memory = none := by
    cases reg <;> first | (simp [Operand.isRegister] at hreg; done) | exact ⟨fun _ => ⟨rfl, rfl⟩, rfl⟩
  have hbytes' : ∀ address, mem.written cpu s (.mem address) = true ∨ mem.covers cpu s (.mem address) = true →
      (address - m.address cpu s).toNat < mem.size := by
    intro address hmeet
    rwa [Operand.written_mem hm, Operand.covers_mem hm, or_self, decide_eq_true_eq] at hmeet
  rcases h with ⟨hout, hin⟩ | ⟨hout, hin⟩
  · refine ⟨by simp [accesses, hout, hin, hbytes.2, hm], fun address hmeet => hbytes' address ?_⟩
    rw [hout, hin] at hmeet
    exact .inr (hmeet.resolve_left (by simp [hbytes.1 address]))
  · refine ⟨by simp [accesses, hout, hm], fun address hmeet => hbytes' address ?_⟩
    rw [hout, hin] at hmeet
    exact .inl (hmeet.resolve_right (by simp [hbytes.1 address]))

/-- Moves between registers and memory stay off each other when neither of the registers is in the other move, and when they do
not meet in memory. -/
theorem apart_of_transfers {rA rB mA mB : Operand} {memA memB : Mem} (hmoves : a.isMove = true ∧ b.isMove = true)
    (hA : (a.out = rA ∧ a.in1 = mA) ∨ (a.out = mA ∧ a.in1 = rA)) (hB : (b.out = rB ∧ b.in1 = mB) ∨ (b.out = mB ∧ b.in1 = rB))
    (hregisters : rA.isRegister = true ∧ rB.isRegister = true) (hmA : mA.memory = some memA) (hmB : mB.memory = some memB)
    (hsize : mB.size = mA.size)
    (hfar : memA.encoding.displacement.toInt ≠ memB.encoding.displacement.toInt →
      memA.encoding.displacement.toInt + mA.size ≤ memB.encoding.displacement.toInt ∨
        memB.encoding.displacement.toInt + mA.size ≤ memA.encoding.displacement.toInt)
    (hindex : memA.encoding.base = memB.encoding.base → memA.encoding.index = .zero ∧ memB.encoding.index = .zero)
    (hmeet : ∀ m m', a.accesses = some m → b.accesses = some m' → m.compared cpu m' = false → ¬ storesMeet cpu a b s)
    (hregs : ∀ l, rA.written cpu s l = true → rB.written cpu s l = false ∧ mB.addressed l = false)
    (hregs' : ∀ l, rB.written cpu s l = true → mA.addressed l = false) : Apart cpu a b s := by
  obtain ⟨hm, hbytes⟩ := moved_bytes cpu s hA hregisters.1 hmA
  obtain ⟨hm', hbytes'⟩ := moved_bytes cpu s hB hregisters.2 hmB
  have hapart : ¬ storesMeet cpu a b s := by
    cases hc : memA.compared cpu memB with
    | false => exact hmeet memA memB hm hm' hc
    | true => exact not_storesMeet (mA.size_le_span.trans mA.span_le) hbytes (hsize ▸ hbytes') hfar hindex hc
  refine apart_of_moves hmoves.1 hmoves.2 hapart fun l hl => ?_
  have hbytes : ∀ (op : Operand) (m : Mem), op.memory = some m → op.written cpu s l = false ∧ op.covers cpu s l = false := by
    intro op m hop
    cases op <;> first | (simp [Operand.memory] at hop; done) | skip
    all_goals cases l <;> first | exact absurd rfl (hl _) | exact ⟨rfl, rfl⟩
  have hcovers : ∀ op : Operand, op.written cpu s l = false → op.covers cpu s l = false := by
    intro op hop
    by_contra hc
    obtain ⟨i, hi, hindex⟩ := Operand.covers_iff.1 (by simpa using hc)
    exact absurd (Operand.written_iff.2 ⟨i, hi.trans_le op.size_le_span, hindex⟩) (by simp [hop])
  have hA' := hbytes mA memA hmA
  have hB' := hbytes mB memB hmB
  have hrA := Operand.addressed_of_isRegister hregisters.1 l
  have hrB := Operand.addressed_of_isRegister hregisters.2 l
  rw [depends, if_pos hmoves.2, depends, if_pos hmoves.1]
  have hl := hregs l
  have hl' := hregs' l
  rcases hA with ⟨hout, hin⟩ | ⟨hout, hin⟩ <;> rcases hB with ⟨hout', hin'⟩ | ⟨hout', hin'⟩ <;>
    rw [hout, hin, hout', hin'] <;> grind

theorem apart_of_movs (h : canMovsCommute a b = true)
    (hmeet : ∀ m m', a.accesses = some m → b.accesses = some m' → m.compared cpu m' = false → ¬ storesMeet cpu a b s) :
    Apart cpu a b s := by
  rw [canMovsCommute] at h
  split at h
  · exact absurd h (by decide)
  rename_i hop
  split at h
  · rename_i regA memA regB memB ha hb
    simp only [Bool.if_false_left, Bool.and_true, Bool.and_eq_true, Bool.not_eq_true', decide_eq_false_iff_not] at h
    simp only [Bool.or_eq_true, decide_eq_true_eq, not_or, not_not] at hop
    have hmoves : a.isMove = true ∧ b.isMove = true := ⟨isMove_of_op (.inl hop.1), isMove_of_op (.inl hop.2)⟩
    refine apart_of_transfers hmoves (regAndMem64_eq ha) (regAndMem64_eq hb) ⟨rfl, rfl⟩ rfl rfl rfl (fun hne => ?_)
      (fun hbase => ?_) hmeet (fun l hl => ?_) fun l hl => ?_
    · simp only [Operand.size]
      omega
    · grind
    · cases l <;> simp [Operand.written, Operand.place, Place.index] at hl
      simp [Operand.written, Operand.place, Place.index, Operand.addressed, Operand.memory]
      grind
    · cases l <;> simp [Operand.written, Operand.place, Place.index] at hl
      simp [Operand.addressed, Operand.memory]
      grind
  · exact absurd h (by decide)

theorem apart_of_movas (h : canMovasCommute a b = true)
    (hmeet : ∀ m m', a.accesses = some m → b.accesses = some m' → m.compared cpu m' = false → ¬ storesMeet cpu a b s) :
    Apart cpu a b s := by
  rw [canMovasCommute] at h
  split at h
  · exact absurd h (by decide)
  rename_i hop
  split at h
  · rename_i regA memA regB memB ha hb
    simp only [Bool.if_false_left, Bool.and_true, Bool.and_eq_true, Bool.not_eq_true', decide_eq_false_iff_not] at h
    simp only [Bool.or_eq_true, decide_eq_true_eq, not_or, not_not] at hop
    have hmoves : a.isMove = true ∧ b.isMove = true := ⟨isMove_of_op (.inr hop.1), isMove_of_op (.inr hop.2)⟩
    refine apart_of_transfers hmoves (regAndMem128_eq ha) (regAndMem128_eq hb) ⟨rfl, rfl⟩ rfl rfl rfl (fun hne => ?_)
      (fun hbase => ?_) hmeet (fun l hl => ?_) fun l hl => ?_
    · simp only [Operand.size]
      omega
    · grind
    · cases l <;> simp [Operand.written, Operand.place, Place.index] at hl
      simp [Operand.written, Operand.place, Place.index, Operand.addressed, Operand.memory]
      grind
    · cases l <;> simp [Operand.written, Operand.place, Place.index] at hl
      simp [Operand.addressed, Operand.memory]
  · exact absurd h (by decide)

/-- Behind the test, and with nothing it overlooks, two instructions stay off each other. -/
theorem apart_of_canCommute (h : canCommute a b = true) (hs : nothingOverlooked cpu a b s) : Apart cpu a b s := by
  rw [canCommute] at h
  rw [nothingOverlooked] at hs
  split at h
  · rename_i hmovs
    rw [if_pos (by simp [hmovs])] at hs
    exact apart_of_movs hmovs hs
  rename_i hmovs
  split at h
  · rename_i hmovas
    rw [if_pos (by simp [hmovas])] at hs
    exact apart_of_movas hmovas hs
  rename_i hmovas
  rw [if_neg (by simp [hmovs, hmovas])] at hs
  split at h
  · exact absurd h (by decide)
  split at h
  · exact absurd h (by decide)
  rename_i hab
  split at h
  · exact absurd h (by decide)
  rename_i hba
  exact apart_of_impacts (by simpa using hab) (by simpa using hba) hs

end Instruction

end Ir

end X64Emulator
