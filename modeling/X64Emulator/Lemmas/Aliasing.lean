import X64Emulator.Lemmas.Commuting
import X64Emulator.Lemmas.ReadBack

/-!
# Operands that may be the same bytes

The alias test is right about registers. Of two memory operands with the same base register it compares the displacements, which
is right when the operands are at most as wide as the displacements can differ.
-/

namespace X64Emulator

namespace Ir

variable {cpu : Cpu} {s : State}

namespace Operand

/-- A write changes no part of a general purpose register but the one it is to. -/
theorem not_written_gpr {op : Operand} {reg : R64} (h : op.mayAliasGpr reg = false) (i : Nat) :
    op.written cpu s (.gpr reg i) = false := by
  simp only [mayAliasGpr, decide_eq_false_iff_not] at h
  by_contra hw
  obtain ⟨j, -, hj⟩ := written_iff.1 (by simpa using hw)
  cases op <;> simp only [place, Place.index, reduceCtorEq, Option.ite_none_right_eq_some] at hj
  all_goals exact h (congrArg some hj.1.1.symm)

/-- A write to neither of the registers of an address leaves it as it is. -/
theorem not_addressed_of_mayAliasGpr {op src : Operand} {m : Mem} (hm : src.memory = some m)
    (hbase : op.mayAliasGpr m.encoding.base = false) (hindex : op.mayAliasGpr m.encoding.index = false) {l : Loc}
    (hw : op.written cpu s l = true) : src.addressed l = false := by
  cases l with
  | gpr reg i =>
    have hne : ∀ reg', op.mayAliasGpr reg' = false → reg ≠ reg' := by
      rintro reg' halias rfl
      exact absurd hw (by simp [not_written_gpr halias])
    simp [addressed, hm, hne _ hbase, hne _ hindex]
  | _ => simp [addressed, hm]

/-- Operands in different registers share no byte. -/
theorem not_written_of_mayAlias {op dst : Operand} (hdst : dst.isRegister = true) (h : op.mayAlias dst = false) {l : Loc}
    (hw : op.written cpu s l = true) : dst.written cpu s l = false := by
  by_contra hd
  obtain ⟨j, -, hj⟩ := written_iff.1 (by simpa using hd)
  have hloc := Place.loc_of_index hj
  have hgpr : ∀ reg i, op.mayAliasGpr reg = false → l ≠ .gpr reg i := by
    rintro reg i halias rfl
    exact absurd hw (by simp [not_written_gpr halias])
  cases dst <;> first | (simp [isRegister] at hdst; done) | skip
  all_goals
    simp only [place, Place.loc, Option.some.injEq] at hloc
    first | exact hgpr _ _ h hloc.symm | skip
  all_goals
    obtain ⟨i, -, hi⟩ := written_iff.1 hw
    have hloc' := Place.loc_of_index hi
    simp only [mayAlias, decide_eq_false_iff_not] at h
    subst hloc
    cases op <;> simp only [place, Place.loc, Option.some.injEq, reduceCtorEq, Loc.mmx.injEq, Loc.xmm.injEq] at hloc'
  · exact h (congrArg mmx hloc'.1)
  · exact h (congrArg xmm hloc'.1)

/-- The overlaps of two memory operands with the same base that the test does not see. -/
def overlapMissed (op other : Operand) : Bool :=
  match op.memory, other.memory with
  | some m, some m' =>
    op.size = 16 || (op.size = other.size && m.segment ≠ .fs && m'.segment ≠ .fs &&
      m.encoding.index = .zero && m'.encoding.index = .zero &&
      m.encoding.displacement.toInt % 4 = 0 && m'.encoding.displacement.toInt % 4 = 0 &&
      m.encoding.displacement ≠ m'.encoding.displacement &&
      ((op.size = 8 && (m.encoding.displacement.toInt - m'.encoding.displacement.toInt).natAbs = 4) ||
        decide (m.segment = .gs) ≠ decide (m'.segment = .gs)))
  | _, _ => false

/-- Whether two operands are the same byte in some state. -/
def canOverlap (op other : Operand) : Prop :=
  ∃ (cpu : Cpu) (s : State) (l : Loc), op.covers cpu s l = true ∧ other.covers cpu s l = true

section

variable {op other : Operand} {m m' : Mem}

theorem mayAlias_memory (hm : op.memory = some m) (hm' : other.memory = some m') (h128 : ∀ x, op ≠ m128 x) :
    op.mayAlias other = addressesMayAlias op.size other.size m m' := by
  cases op <;> simp only [memory, Option.some.injEq, reduceCtorEq] at hm <;> subst hm <;>
    cases other <;> simp only [memory, Option.some.injEq, reduceCtorEq] at hm' <;> subst hm' <;>
    first | rfl | exact absurd rfl (h128 _)

/-- What the test knows of memory operands that it takes to be different. -/
theorem mayAlias_eq_false (hm : op.memory = some m) (hm' : other.memory = some m') (h128 : ∀ x, op ≠ m128 x)
    (hbase : m.encoding.base = m'.encoding.base) : op.mayAlias other = false ↔
      (m.segment ≠ .fs ∧ m'.segment ≠ .fs) ∧ op.size = other.size ∧ (m.encoding.index = .zero ∧ m'.encoding.index = .zero) ∧
        (m.encoding.displacement.toInt % 4 = 0 ∧ m'.encoding.displacement.toInt % 4 = 0) ∧
        m.encoding.displacement ≠ m'.encoding.displacement := by
  rw [mayAlias_memory hm hm' h128, addressesMayAlias]
  split_ifs <;> simp_all <;> grind

/-- Memory operands with the same base, that the test takes to be different, are different unless it misses that they overlap. -/
theorem apart_of_mayAlias (hm : op.memory = some m) (hm' : other.memory = some m') (h128 : ∀ x, op ≠ m128 x)
    (hbase : m.encoding.base = m'.encoding.base) (h : op.mayAlias other = false)
    (hsegment : cpu.segmentBase m.segment = cpu.segmentBase m'.segment)
    (hfour : op.size = 8 → (m.encoding.displacement.toInt - m'.encoding.displacement.toInt).natAbs ≠ 4) {a : BitVec 64}
    (ha : op.covers cpu s (.mem a) = true) : other.covers cpu s (.mem a) = false := by
  obtain ⟨-, hsize, hindex, halign, hne⟩ := (mayAlias_eq_false hm hm' h128 hbase).1 h
  have hne' : m.encoding.displacement.toInt ≠ m'.encoding.displacement.toInt := fun heq => hne (Int32.toInt.inj heq)
  have hsmall : op.size ≤ 4 ∨ op.size = 8 := by
    cases op <;> simp only [memory, reduceCtorEq] at hm <;> first | exact absurd rfl (h128 _) | simp [size]
  rw [covers_mem hm, decide_eq_true_eq] at ha
  rw [covers_mem hm', ← hsize, decide_eq_false_iff_not]
  refine Mem.apart hsegment hbase hindex.1 hindex.2 (op.size_le_span.trans op.span_le) ?_ ha
  omega

theorem covers_of_memory (hm : op.memory = some m) {l : Loc} (h : op.covers cpu s l = true) : ∃ a, l = .mem a := by
  obtain ⟨i, -, hi⟩ := covers_iff.1 h
  cases op <;> simp only [memory, reduceCtorEq] at hm <;> cases l <;> simp only [place, Place.index, reduceCtorEq] at hi
  all_goals exact ⟨_, rfl⟩

/-- The segments that are not at zero. -/
theorem segmentBase_eq (hfs : m.segment ≠ .fs ∧ m'.segment ≠ .fs) (h : m.segment = .gs ↔ m'.segment = .gs) :
    cpu.segmentBase m.segment = cpu.segmentBase m'.segment := by
  rcases m with ⟨segment, enc⟩
  rcases m' with ⟨segment', enc'⟩
  cases segment <;> cases segment' <;> simp_all [Cpu.segmentBase]

theorem overlapMissed_iff (hm : op.memory = some m) (hm' : other.memory = some m') (h128 : ∀ x, op ≠ m128 x)
    (hbase : m.encoding.base = m'.encoding.base) : op.overlapMissed other = true ↔ op.mayAlias other = false ∧
      ((op.size = 8 ∧ (m.encoding.displacement.toInt - m'.encoding.displacement.toInt).natAbs = 4) ∨
        ¬ (m.segment = .gs ↔ m'.segment = .gs)) := by
  have hsize : op.size ≠ 16 := by
    cases op <;> simp only [memory, reduceCtorEq] at hm <;> first | exact absurd rfl (h128 _) | simp [size]
  rw [mayAlias_eq_false hm hm' h128 hbase]
  simp only [overlapMissed, hm, hm', hsize, decide_false, Bool.false_or, Bool.and_eq_true, Bool.or_eq_true,
    decide_eq_true_eq, ne_eq, decide_eq_decide]
  tauto

/-- Of operands with the same base that can be the same byte, the test says so unless it misses it. -/
theorem mayAlias_iff (hm : op.memory = some m) (hm' : other.memory = some m') (hbase : m.encoding.base = m'.encoding.base)
    (hover : op.canOverlap other) : op.mayAlias other = true ↔ op.overlapMissed other = false := by
  by_cases h128 : ∀ x, op ≠ m128 x
  · rw [← Bool.not_eq_true, overlapMissed_iff hm hm' h128 hbase]
    constructor
    · rintro halias ⟨hnot, -⟩
      exact absurd halias (by simp [hnot])
    · intro hmissed
      by_contra halias
      rw [Bool.not_eq_true] at halias
      obtain ⟨hfs, -⟩ := (mayAlias_eq_false hm hm' h128 hbase).1 halias
      obtain ⟨cpu, s, l, hl, hl'⟩ := hover
      obtain ⟨a, rfl⟩ := covers_of_memory hm hl
      have hsegment : m.segment = .gs ↔ m'.segment = .gs := by
        by_contra hgs
        exact hmissed ⟨halias, .inr hgs⟩
      have hapart := apart_of_mayAlias hm hm' h128 hbase halias (segmentBase_eq hfs hsegment)
        (fun hsize hfour => hmissed ⟨halias, .inl ⟨hsize, hfour⟩⟩) hl
      exact absurd hl' (by simp [hapart])
  · obtain ⟨x, hx⟩ := not_forall_not.1 h128
    subst hx
    cases other <;> simp [mayAlias, mayAliasMemory, overlapMissed, memory, size] at hm' ⊢

end

end Operand

end Ir

end X64Emulator
