import X64Emulator.Lemmas.Execution
import X64Emulator.Optimizer
import Mathlib.Tactic.IntervalCases
import Mathlib.Tactic.Ring

/-!
# Moves there and back

A move followed by the opposite one. The second changes nothing when it writes back all of what the first one has read, to where
that has been read.
-/

namespace X64Emulator

namespace Ir

open IrGenerator

theorem R8.eq_of_place {a b : R8} (h : a.containingRegister = b.containingRegister) (ho : a.offset = b.offset) : a = b := by
  cases a <;> cases b <;> first | rfl | exact absurd h (by decide) | exact absurd ho (by decide)

theorem R16.containingRegister_inj {a b : R16} (h : a.containingRegister = b.containingRegister) : a = b := by
  cases a <;> cases b <;> first | rfl | exact absurd h (by decide)

theorem R32.containingRegister_inj {a b : R32} (h : a.containingRegister = b.containingRegister) : a = b := by
  cases a <;> cases b <;> first | rfl | exact absurd h (by decide)

/-- The move to `dst` changes the address of the memory operand `src`. -/
def overwritesAddress (dst src : Operand) : Bool :=
  match dst.containingGpr, src.memory with
  | some reg, some m =>
    reg ≠ .zero && (m.encoding.base = reg || (m.encoding.index = reg && m.encoding.scale ≠ 0))
  | _, _ => false

/-- Whether the opposite of a move from `src` to `dst` gives `src` back as it was: its write does not clear the upper half of a
register, `dst` holds all of `src`, and the address of `src` is still the same. -/
def readsBack (dst src : Operand) : Bool :=
  (match src with
    | .r32 _ => dst = src
    | _ => true) && src.size ≤ dst.size && !overwritesAddress dst src

/-- The operands of a move there and back. -/
def bothWays (dst src : Operand) : Bool := (movs dst src && movs src dst) || (movas dst src && movas src dst)

variable {cpu : Cpu} {s s' : State} {dst src : Operand}

/-- Two different operands of a move have no byte in common. -/
theorem apart_of_bothWays (h : bothWays dst src = true) (hne : dst ≠ src) {l : Loc} (hs : src.covers cpu s l = true) :
    dst.written cpu s' l = false := by
  by_contra hd
  obtain ⟨i, hi, hsrc⟩ := Operand.covers_iff.1 hs
  obtain ⟨j, hj, hdst⟩ := Operand.written_iff.1 (by simpa using hd)
  have hl := Place.loc_of_index hsrc
  have hl' := Place.loc_of_index hdst
  cases dst <;> cases src <;> first | (simp [bothWays, movs, movas] at h; done) | skip
  all_goals
    simp only [Operand.place, Place.loc, Option.some.injEq] at hl hl'
    subst hl
    simp only [reduceCtorEq, Loc.gpr.injEq, Loc.mmx.injEq, Loc.xmm.injEq] at hl'
  case r8.r8 a b =>
    have hoff : a.offset = b.offset := by
      simp only [Operand.span, Operand.size] at hi hj
      omega
    exact hne (congrArg Operand.r8 (R8.eq_of_place hl'.1 hoff))
  case r16.r16 a b => exact hne (congrArg Operand.r16 (R16.containingRegister_inj hl'.1))
  case r32.r32 a b => exact hne (congrArg Operand.r32 (R32.containingRegister_inj hl'.1))
  case r64.r64 a b => exact hne (congrArg Operand.r64 hl'.1)
  case mmx.mmx a b => exact hne (congrArg Operand.mmx hl'.1)
  case xmm.xmm a b => exact hne (congrArg Operand.xmm hl'.1)

/-- A move leaves the registers alone of which it writes no part. -/
theorem regValue_move {reg : R64} (h : dst.containingGpr ≠ some reg ∨ reg = .zero) :
    regValue (move cpu dst src s) reg = regValue s reg := by
  refine regValue_congr fun hz i _ => move_of_not_written ?_
  have hreg : dst.containingGpr ≠ some reg := h.resolve_right hz
  by_contra hw
  obtain ⟨j, -, hj⟩ := Operand.written_iff.1 (by simpa using hw)
  cases dst <;> simp only [Operand.place, Place.index, reduceCtorEq, Option.ite_none_right_eq_some] at hj
  all_goals exact hreg (congrArg some hj.1.1.symm)

/-- The address of an operand is the same behind a move that does not overwrite it. -/
theorem address_move {m : Mem} (hm : src.memory = some m) (h : overwritesAddress dst src = false) {other : Operand} :
    m.address cpu (move cpu dst other s) = m.address cpu s := by
  have hreg : ∀ reg, dst.containingGpr ≠ some reg ∨ reg = .zero →
      regValue (move cpu dst other s) reg = regValue s reg := fun reg => regValue_move
  cases hd : dst.containingGpr with
  | none =>
    rw [Mem.address, Mem.address, hreg _ (by simp [hd]), hreg _ (by simp [hd])]
  | some reg =>
    simp only [overwritesAddress, hd, hm, Bool.and_eq_false_iff, decide_eq_false_iff_not, Bool.or_eq_false_iff,
      not_not] at h
    rcases h with hz | ⟨hbase, hindex⟩
    · rw [Mem.address, Mem.address, hreg _ (by rw [hd]; grind), hreg _ (by rw [hd]; grind)]
    · rw [Mem.address, Mem.address, hreg m.encoding.base (.inl (by rw [hd]; grind))]
      rcases hindex with hindex | hscale
      · rw [hreg m.encoding.index (.inl (by rw [hd]; grind))]
      · rw [hscale]
        simp

/-- The operands of a move there and back are no immediates, and have bytes; only one is in memory. -/
theorem bothWays_operands (h : bothWays dst src = true) (cpu : Cpu) (s : State) :
    dst.immediate = none ∧ src.immediate = none ∧ (∀ i, ∃ l, dst.place.loc cpu s i = some l) ∧
      ∀ m, dst.memory = some m → dst.containingGpr = none := by
  cases dst <;> cases src <;> first | (simp [bothWays, movs, movas] at h; done) |
    simp [Operand.immediate, Operand.place, Place.loc, Operand.memory, Operand.containingGpr]

/-- When it reads back, the opposite of a move changes nothing behind it. -/
theorem move_back (h : bothWays dst src = true) (hback : readsBack dst src = true) :
    move cpu src dst (move cpu dst src s) = move cpu dst src s := by
  simp only [readsBack, Bool.and_eq_true, decide_eq_true_eq, Bool.not_eq_true'] at hback
  obtain ⟨⟨hclear, hsize⟩, haddress⟩ := hback
  obtain ⟨hdst, hsrc, hlocs, hgpr⟩ := bothWays_operands h cpu s
  have hsrcAddress : ∀ m, src.memory = some m → m.address cpu (move cpu dst src s) = m.address cpu s :=
    fun m hm => address_move hm haddress
  have hdstAddress : ∀ m, dst.memory = some m → m.address cpu (move cpu dst src s) = m.address cpu s := by
    intro m hm
    refine address_move hm ?_
    rw [overwritesAddress, hgpr m hm]
  funext l
  cases hi : src.place.index cpu (move cpu dst src s) l with
  | none => exact move_of_not_written (by rw [Operand.written, hi]; rfl)
  | some i =>
    by_cases hspan : i < src.span
    · have hi' := (Operand.index_of_address hsrcAddress l).symm.trans hi
      have hloc := Place.loc_of_index hi'
      have hspan' := src.span_le
      by_cases hin : i < src.size
      · -- a byte that has been read: it is in `dst` now
        obtain ⟨k, hk⟩ := hlocs i
        have hk' := (Operand.loc_of_address hdstAddress i).trans hk
        rw [move_of_index hi hin, Operand.value_eq hdst (by omega) hk',
          move_of_index (Place.index_of_loc (by omega) hk) (by omega), Operand.value_eq hsrc hin hloc]
        by_cases heq : dst = src
        · subst heq
          rw [move_of_index hi' hin, Operand.value_eq hsrc hin hloc]
        · exact (move_of_not_written (apart_of_bothWays h heq (Operand.covers_iff.2 ⟨i, hin, hi'⟩))).symm
      · -- the upper half of a register, which the first move has cleared as well
        have heq : dst = src := by
          cases src <;> first | exact absurd hspan hin | exact of_decide_eq_true hclear
        subst heq
        rw [move_of_past hi hspan (by omega), move_of_past hi' hspan (by omega)]
    · refine move_of_not_written ?_
      rw [Operand.written, hi]
      simpa using hspan

/-- A load that does not overwrite its own address changes nothing the second time. -/
theorem move_twice {m : Mem} (hdst : dst.isRegister = true) (hm : src.memory = some m) (h : overwritesAddress dst src = false) :
    move cpu dst src (move cpu dst src s) = move cpu dst src s := by
  have hsrcAddress : ∀ m', src.memory = some m' → m'.address cpu (move cpu dst src s) = m'.address cpu s :=
    fun m' hm' => address_move hm' h
  have hdst' : dst.memory = none ∧ ∀ a, dst.written cpu s (.mem a) = false := by
    cases dst <;> first | (simp [Operand.isRegister] at hdst; done) | exact ⟨rfl, fun _ => rfl⟩
  have hsrc : src.immediate = none ∧ ∀ i, src.place.loc cpu s i = some (.mem (m.address cpu s + BitVec.ofNat 64 i)) := by
    cases src <;> simp only [Operand.memory, Option.some.injEq, reduceCtorEq] at hm <;> subst hm <;>
      exact ⟨rfl, fun _ => rfl⟩
  funext l
  have hindex : dst.place.index cpu (move cpu dst src s) l = dst.place.index cpu s l :=
    Operand.index_of_address (by simp [hdst'.1]) l
  cases hi : dst.place.index cpu s l with
  | none => exact move_of_not_written (by rw [Operand.written, hindex, hi]; rfl)
  | some i =>
    by_cases hspan : i < dst.span
    · by_cases hin : i < dst.size
      · rw [move_of_index (hindex.trans hi) hin, move_of_index hi hin]
        by_cases hsize : i < src.size
        · have hloc := hsrc.2 i
          rw [Operand.value_eq hsrc.1 hsize ((Operand.loc_of_address hsrcAddress i).trans hloc),
            Operand.value_eq hsrc.1 hsize hloc, move_of_not_written (hdst'.2 _)]
        · rw [Operand.value_past hsrc.1 (by omega), Operand.value_past hsrc.1 (by omega)]
      · rw [move_of_past (hindex.trans hi) hspan (by omega), move_of_past hi hspan (by omega)]
    · refine move_of_not_written ?_
      rw [Operand.written, hindex, hi]
      simpa using hspan

/-! ## When it does not read back -/

/-- The registers hold zero, and so does the memory from `a` on but for its first byte. -/
def loaded (a : BitVec 64) : State
  | .mem b => if b = a then 16 else if (b - a).toNat < 8 then 0 else 1
  | _ => 0

theorem address_loaded (a : BitVec 64) (m : Mem) : m.address cpu (loaded a) = m.address cpu fun _ => 0 := by
  have hreg : ∀ reg, regValue (loaded a) reg = regValue (fun _ => 0) reg := fun reg => regValue_congr fun _ _ _ => rfl
  rw [Mem.address, Mem.address, hreg, hreg]

/-- A register that is loaded from memory at its own address moves the address. -/
theorem move_own_address {reg : R64} {offset : Nat} {m : Mem} (hdst : dst.place = .gpr reg offset) (hoff : offset < 2)
    (hsrc : src.place = .mem m) (himm : dst.immediate = none ∧ src.immediate = none) (hpos : 0 < src.size)
    (hle : src.size ≤ dst.size ∧ src.size ≤ 8) (hreg : reg ≠ .zero)
    (haddress : m.encoding.base = reg ∨ (m.encoding.index = reg ∧ m.encoding.scale ≠ 0)) :
    ∃ s, move cpu src dst (move cpu dst src s) ≠ move cpu dst src s := by
  obtain ⟨a, ha⟩ : ∃ a, m.address cpu (fun _ => 0) = a := ⟨_, rfl⟩
  have hm : m.address cpu (loaded a) = a := (address_loaded a m).trans ha
  -- what is loaded is 16, as a number of any size
  have hvalue : ∀ i, src.value cpu (loaded a) i = if i = 0 then 16 else 0 := by
    intro i
    by_cases hi : i < src.size
    · have hloc : src.place.loc cpu (loaded a) i = some (.mem (a + BitVec.ofNat 64 i)) := by rw [hsrc, Place.loc, hm]
      rw [Operand.value_eq himm.2 hi hloc]
      by_cases hz : i = 0
      · subst hz
        simp [loaded]
      · have hne : a + BitVec.ofNat 64 i ≠ a := by
          intro heq
          have hzero := congrArg BitVec.toNat (add_eq_left.1 heq)
          rw [BitVec.toNat_ofNat] at hzero
          change i % 2 ^ 64 = 0 at hzero
          omega
        have hnear : (a + BitVec.ofNat 64 i - a).toNat < 8 := by
          rw [add_sub_cancel_left, BitVec.toNat_ofNat]
          omega
        rw [loaded, if_neg hne, if_pos hnear, if_neg hz]
    · rw [Operand.value_past himm.2 (by omega), if_neg (by omega)]
  have hgpr : ∀ q i, move cpu dst src (loaded a) (.gpr q i) = if q = reg ∧ i = offset then 16 else 0 := by
    intro q i
    rw [move, hdst, Place.index]
    by_cases hq : q = reg ∧ offset ≤ i
    · simp only [if_pos hq, hvalue]
      have hspan := dst.size_le_span
      by_cases hi : i = offset
      · simp [hq.1, hi, show 0 < dst.span by omega, show 0 < dst.size by omega]
      · simp only [hi, and_false, if_false, show i - offset ≠ 0 by omega, ite_self, loaded]
    · have hno : ¬ (q = reg ∧ i = offset) := fun h => hq ⟨h.1, Nat.le_of_eq h.2.symm⟩
      simp only [if_neg hq, if_neg hno, loaded]
  have hval : ∀ q, regValue (move cpu dst src (loaded a)) q = if q = reg then BitVec.ofNat 64 (16 * 256 ^ offset) else 0 := by
    intro q
    by_cases hq : q = reg
    · subst hq
      have hbytes : ∀ i < 8, move cpu dst src (loaded a) (.gpr q i) = (fun i => if i = offset then 16 else 0) i :=
        fun i _ => by simp [hgpr]
      rw [regValue, if_neg hreg, if_pos rfl, littleEndian_congr hbytes]
      interval_cases offset <;> rfl
    · rw [if_neg hq, regValue]
      split
      · rfl
      · have hbytes : ∀ i < 8, move cpu dst src (loaded a) (.gpr q i) = (fun _ => 0) i := fun i _ => by simp [hgpr, hq]
        rw [littleEndian_congr hbytes]
        rfl
  -- the address has moved by a multiple of what the register holds now
  obtain ⟨k, hk, hmoved⟩ : ∃ k, (0 < k ∧ k ≤ 256) ∧ m.address cpu (move cpu dst src (loaded a)) =
      a + BitVec.ofNat 64 (16 * 256 ^ offset * k) := by
    have hzero : ∀ q, regValue (fun _ => 0) q = 0 := by
      intro q
      rw [regValue]
      split <;> rfl
    have ha' : cpu.segmentBase m.segment + BitVec.ofInt 64 m.encoding.displacement.toInt = a := by
      rw [← ha, Mem.address, hzero, hzero]
      ring
    refine ⟨(if m.encoding.base = reg then 1 else 0) + (if m.encoding.index = reg then m.encoding.scale.toNat else 0), ?_, ?_⟩
    · have hscale := m.encoding.scale.toNat_lt
      have hscale' : m.encoding.scale ≠ 0 → m.encoding.scale.toNat ≠ 0 := fun h heq => h (UInt8.toNat_inj.1 heq)
      split_ifs <;> grind
    · rw [Mem.address, hval, hval, ← ha']
      generalize 16 * 256 ^ offset = c
      split_ifs
      · rw [Nat.mul_add, Nat.mul_one, BitVec.ofNat_add, BitVec.ofNat_mul]
        ring
      · rw [Nat.add_zero, Nat.mul_one]
        ring
      · rw [Nat.zero_add, BitVec.ofNat_mul]
        ring
      · grind
  refine ⟨loaded a, fun heq => ?_⟩
  obtain ⟨b, hb⟩ : ∃ b, a + BitVec.ofNat 64 (16 * 256 ^ offset * k) = b := ⟨_, rfl⟩
  have hfar : 8 ≤ (b - a).toNat := by
    rw [← hb, add_sub_cancel_left, BitVec.toNat_ofNat]
    interval_cases offset <;> omega
  have hnotWritten : dst.written cpu (loaded a) (.mem b) = false := by rw [Operand.written, hdst]; rfl
  have hfirst : move cpu dst src (loaded a) (.mem b) = 1 := by
    have hne : b ≠ a := by
      rintro rfl
      rw [sub_self] at hfar
      exact absurd hfar (by decide)
    rw [move_of_not_written hnotWritten, loaded, if_neg hne, if_neg (by omega)]
  have hsecond : move cpu src dst (move cpu dst src (loaded a)) (.mem b) = 16 := by
    have hindex : src.place.index cpu (move cpu dst src (loaded a)) (.mem b) = some 0 := by
      rw [hsrc, Place.index, hmoved, hb, sub_self]
      rfl
    have hloc : dst.place.loc cpu (move cpu dst src (loaded a)) 0 = some (.gpr reg offset) := by rw [hdst]; rfl
    rw [move_of_index hindex hpos, Operand.value_eq himm.1 (by omega) hloc, hgpr, if_pos ⟨rfl, rfl⟩]
  rw [heq, hfirst] at hsecond
  exact absurd hsecond (by decide)

/-- Where the second move clears a byte that the first has left as it was. -/
theorem move_clears {l : Loc} {i : Nat} (hindex : ∀ s, src.place.index cpu s l = some i) (hi : i < src.span)
    (hclear : src.size ≤ i ∨ (dst.immediate = none ∧ dst.size ≤ i)) (hdst : ∀ s, dst.written cpu s l = false) :
    ∃ s, move cpu src dst (move cpu dst src s) ≠ move cpu dst src s := by
  refine ⟨fun _ => 1, fun heq => ?_⟩
  have hl := congrFun heq l
  rw [move_of_not_written (hdst _)] at hl
  have hzero : move cpu src dst (move cpu dst src fun _ => 1) l = 0 := by
    by_cases hsize : src.size ≤ i
    · exact move_of_past (hindex _) hi hsize
    · rw [move_of_index (hindex _) (by omega)]
      obtain ⟨himm, hpast⟩ := hclear.resolve_left hsize
      exact Operand.value_past himm hpast
  rw [hzero] at hl
  exact absurd hl (by decide)

theorem clears_of_r32 {reg : R32} (h : movs dst (.r32 reg) = true ∧ movs (.r32 reg) dst = true) (hne : dst ≠ .r32 reg)
    (cpu : Cpu) : ∃ s, move cpu (.r32 reg) dst (move cpu dst (.r32 reg) s) ≠ move cpu dst (.r32 reg) s := by
  refine move_clears (l := .gpr reg.containingRegister 7) (i := 7) ?_ (by simp [Operand.span])
    (.inl (by simp [Operand.size])) ?_
  · intro s
    simp [Operand.place, Place.index]
  · intro s
    by_contra hw
    obtain ⟨i, -, hi⟩ := Operand.written_iff.1 (by simpa using hw)
    cases dst <;> first | (simp [movs] at h; done) | skip
    all_goals simp only [Operand.place, Place.index, reduceCtorEq, Option.ite_none_right_eq_some] at hi
    exact hne (congrArg Operand.r32 (R32.containingRegister_inj hi.1.1.symm))

theorem clears_of_size (h : movs dst src = true ∧ movs src dst = true) (hsize : dst.size < src.size) (cpu : Cpu) :
    ∃ s, move cpu src dst (move cpu dst src s) ≠ move cpu dst src s := by
  cases dst <;> cases src <;> first | (simp [movs] at h; done) | (simp [Operand.size] at hsize; done) | skip
  all_goals
    rename_i reg
    refine move_clears (l := .mmx reg 7) (i := 7) ?_ (by simp [Operand.span, Operand.size]) (.inr ⟨rfl, ?_⟩) fun s => rfl
    · intro s
      simp [Operand.place, Place.index]
    · simp [Operand.size]

/-- When it does not read back, the opposite of a move changes something behind it in some state. -/
theorem exists_not_move_back (h : movs dst src = true ∧ movs src dst = true) (hback : readsBack dst src = false) (cpu : Cpu) :
    ∃ s, move cpu src dst (move cpu dst src s) ≠ move cpu dst src s := by
  simp only [readsBack, Bool.and_eq_false_iff, decide_eq_false_iff_not, Bool.not_eq_false'] at hback
  rcases hback with (hclear | hsize) | haddress
  · cases src <;> first | exact Bool.noConfusion hclear | skip
    exact clears_of_r32 h (of_decide_eq_false hclear) cpu
  · exact clears_of_size h (by omega) cpu
  · obtain ⟨reg, hgpr⟩ : ∃ reg, dst.containingGpr = some reg := by
      cases hd : dst.containingGpr with
      | none => simp [overwritesAddress, hd] at haddress
      | some reg => exact ⟨reg, rfl⟩
    obtain ⟨m, hmem⟩ : ∃ m, src.memory = some m := by
      cases hm : src.memory with
      | none => simp [overwritesAddress, hgpr, hm] at haddress
      | some m => exact ⟨m, rfl⟩
    simp only [overwritesAddress, hgpr, hmem, Bool.and_eq_true, Bool.or_eq_true, decide_eq_true_eq] at haddress
    have hsrc : src.place = .mem m ∧ src.immediate = none ∧ 0 < src.size := by
      cases src <;> simp only [Operand.memory, Option.some.injEq, reduceCtorEq] at hmem <;> subst hmem <;>
        exact ⟨rfl, rfl, by simp [Operand.size]⟩
    have hdst : (∃ offset < 2, dst.place = .gpr reg offset) ∧ dst.immediate = none := by
      cases dst <;> simp only [Operand.containingGpr, Option.some.injEq, reduceCtorEq] at hgpr <;> subst hgpr
      case r8 reg =>
        refine ⟨⟨_, ?_, rfl⟩, rfl⟩
        cases reg <;> decide
      all_goals exact ⟨⟨0, by decide, rfl⟩, rfl⟩
    obtain ⟨⟨offset, hoff, hplace⟩, himm⟩ := hdst
    have hle : src.size ≤ dst.size ∧ src.size ≤ 8 := by
      cases dst <;> cases src <;> first | (simp [movs] at h; done) | (simp [Operand.memory] at hmem; done) |
        simp [Operand.size]
    exact move_own_address hplace hoff hsrc.1 ⟨himm, hsrc.2.1⟩ hsrc.2.2 hle haddress.1 haddress.2

end Ir

end X64Emulator
