import X64Emulator.Lib.Bits
import X64Emulator.PackedStrings

/-!
# The bits of a comparison of strings

A mask of `n` bits stands for a property of the numbers below `n`. Each loop of the templates builds the mask of what the
architecture says of its places, and the index is that of a bit of the last of them.
-/

namespace X64Emulator

open Masks

namespace CpuImpl

/-- The bits of a mask are the places below `n` that have a property. -/
def Marks (n : Nat) (mask : BitVec 32) (p : Nat → Prop) : Prop := ∀ j, mask.getLsbD j = true ↔ j < n ∧ p j

variable {n : Nat} {ones : BitVec 32} {DST SRC : Nat → Int} {invaliddst invalidsrc : Nat}

theorem marks_equalEach (hn : n ≤ 32) :
    Marks n (intres1 n ones DST SRC invaliddst invalidsrc .equalEach)
      ((⟨n, DST, SRC, invaliddst, invalidsrc⟩ : StringPair).intRes1 .equalEach) := by
  have hbool : ∀ i, (if i ≥ invaliddst ∧ i ≥ invalidsrc then true
        else if i ≥ invaliddst then false
        else if i ≥ invalidsrc then false
        else decide (DST i = SRC i)) = true ↔
      (⟨n, DST, SRC, invaliddst, invalidsrc⟩ : StringPair).overridden .equalEach i i := by
    intro i
    simp only [StringPair.overridden, StringPair.compares]
    by_cases hdst : i < invaliddst
    · by_cases hsrc : i < invalidsrc
      · simp [hdst, hsrc, Nat.not_le.2 hdst, Nat.not_le.2 hsrc]
      · simp [hdst, hsrc, Nat.not_le.2 hdst, Nat.not_lt.1 hsrc]
    · by_cases hsrc : i < invalidsrc
      · simp [hdst, hsrc, Nat.not_lt.1 hdst, Nat.not_le.2 hsrc]
      · simp [hdst, hsrc, Nat.not_lt.1 hdst, Nat.not_lt.1 hsrc]
  intro j
  refine (or_flags _ hn 0 j).trans ((or_iff_right ?_).trans (and_congr_right fun _ => hbool j))
  simp

/-- Where both elements must be inside of their strings. -/
theorem overridden_iff {operation : Aggregation} (h : operation = .equalAny ∨ operation = .ranges) (s : StringPair) (i j : Nat) :
    s.overridden operation i j ↔ i < s.firstLength ∧ j < s.secondLength ∧ s.compares operation i j := by
  unfold StringPair.overridden
  by_cases hdst : i < s.firstLength
  · by_cases hsrc : j < s.secondLength
    · simp [hdst, hsrc]
    · simp [hdst, hsrc]
  · rcases h with rfl | rfl
    · simp [hdst]
    · simp [hdst]

theorem marks_equalAny (hn : n ≤ 32) :
    Marks n (intres1 n ones DST SRC invaliddst invalidsrc .equalAny)
      ((⟨n, DST, SRC, invaliddst, invalidsrc⟩ : StringPair).intRes1 .equalAny) := by
  have hbool : ∀ i j, (if i ≥ invaliddst ∨ j ≥ invalidsrc then false else decide (DST i = SRC j)) = true ↔
      (⟨n, DST, SRC, invaliddst, invalidsrc⟩ : StringPair).overridden .equalAny i j := by
    intro i j
    rw [overridden_iff (.inl rfl)]
    simp [StringPair.compares, and_assoc]
  intro j
  refine (or_or_flags _ hn j).trans (and_congr_right fun _ => exists_congr fun i => and_congr_right fun _ => hbool i j)

theorem marks_ranges (hn : n ≤ 32) (heven : n % 2 = 0) :
    Marks n (intres1 n ones DST SRC invaliddst invalidsrc .ranges)
      ((⟨n, DST, SRC, invaliddst, invalidsrc⟩ : StringPair).intRes1 .ranges) := by
  have hlow : ∀ half j, (if 2 * half ≥ invaliddst ∨ j ≥ invalidsrc then false else decide (SRC j ≥ DST (2 * half))) = true ↔
      (⟨n, DST, SRC, invaliddst, invalidsrc⟩ : StringPair).overridden .ranges (2 * half) j := by
    intro half j
    rw [overridden_iff (.inr rfl)]
    simp [StringPair.compares, and_assoc]
  have hhigh : ∀ half j,
      (if 2 * half + 1 ≥ invaliddst ∨ j ≥ invalidsrc then false else decide (SRC j ≤ DST (2 * half + 1))) = true ↔
        (⟨n, DST, SRC, invaliddst, invalidsrc⟩ : StringPair).overridden .ranges (2 * half + 1) j := by
    intro half j
    have hodd : (2 * half + 1) % 2 ≠ 0 := by omega
    rw [overridden_iff (.inr rfl)]
    simp [StringPair.compares, and_assoc]
  intro j
  refine (or_and_flags _ _ hn (n / 2) j).trans (and_congr_right fun _ => ⟨?_, ?_⟩)
  · rintro ⟨half, hhalf, ha, hb⟩
    exact ⟨2 * half, show 2 * half < n by omega, by omega, (hlow half j).1 ha, (hhigh half j).1 hb⟩
  · rintro ⟨i, hi, hpar, ha, hb⟩
    obtain ⟨half, rfl⟩ : ∃ half, i = 2 * half := ⟨i / 2, by omega⟩
    have hhalf : 2 * half < n := hi
    exact ⟨half, by omega, (hlow half j).2 ha, (hhigh half j).2 hb⟩

theorem marks_equalOrdered (hones : ∀ j, ones.getLsbD j = true ↔ j < n) :
    Marks n (intres1 n ones DST SRC invaliddst invalidsrc .equalOrdered)
      ((⟨n, DST, SRC, invaliddst, invalidsrc⟩ : StringPair).intRes1 .equalOrdered) := by
  have hbool : ∀ i k, (if i ≥ invaliddst then true else if k ≥ invalidsrc then false else decide (DST i = SRC k)) = true ↔
      (⟨n, DST, SRC, invaliddst, invalidsrc⟩ : StringPair).overridden .equalOrdered i k := by
    intro i k
    simp only [StringPair.overridden, StringPair.compares]
    by_cases hdst : i < invaliddst
    · by_cases hsrc : k < invalidsrc
      · simp [hdst, hsrc, Nat.not_le.2 hdst, Nat.not_le.2 hsrc]
      · simp [hdst, hsrc, Nat.not_le.2 hdst, Nat.not_lt.1 hsrc]
    · simp [hdst, Nat.not_lt.1 hdst]
  intro j
  refine (and_flags _ (n - ·) n ones j).trans ?_
  rw [hones]
  refine and_congr_right fun hj => ⟨?_, ?_⟩
  · intro hall i hi
    have hlt : j + i < n := hi
    exact (hbool i (j + i)).1 (hall hj i (show i < n - j by omega))
  · intro hall _ i hi
    exact (hbool i (j + i)).2 (hall i (show j + i < n by omega))

/-- The masks of the operations. -/
theorem marks_intres1 (hn : n ≤ 32) (heven : n % 2 = 0) (hones : ∀ j, ones.getLsbD j = true ↔ j < n) (operation : Aggregation) :
    Marks n (intres1 n ones DST SRC invaliddst invalidsrc operation)
      ((⟨n, DST, SRC, invaliddst, invalidsrc⟩ : StringPair).intRes1 operation) := by
  cases operation with
  | equalAny => exact marks_equalAny hn
  | ranges => exact marks_ranges hn heven
  | equalEach => exact marks_equalEach hn
  | equalOrdered => exact marks_equalOrdered hones

theorem marks_intres2 (hn : n ≤ 32) (hones : ∀ j, ones.getLsbD j = true ↔ j < n) {s : StringPair} {operation : Aggregation}
    {mask : BitVec 32} (hmask : Marks n mask (s.intRes1 operation)) (polarity : Polarity) :
    Marks n (intres2 n ones s.secondLength mask polarity) (s.intRes2 operation polarity) := by
  cases polarity with
  | positive => exact hmask
  | maskedPositive => exact hmask
  | negative =>
    intro j
    have hbit := hmask j
    rw [intres2, BitVec.getLsbD_xor]
    by_cases hj : j < n
    · rw [(hones j).2 hj, Bool.true_xor, Bool.not_eq_true', ← Bool.not_eq_true, hbit]
      simp [hj, StringPair.intRes2]
    · rw [Bool.eq_false_iff.2 fun h => hj ((hones j).1 h), Bool.false_xor, hbit]
      simp [hj]
  | maskedNegative =>
    have hstep : ∀ j (acc : BitVec 32) i,
        (acc ||| ((if i ≥ s.secondLength then mask else ~~~mask) &&& 1#32 <<< i)).getLsbD j = true ↔
          acc.getLsbD j = true ∨ (j = i ∧ j < 32 ∧ (if j < s.secondLength then ¬ mask.getLsbD j = true else mask.getLsbD j = true)) := by
      intro j acc i
      rw [BitVec.getLsbD_or, BitVec.getLsbD_and, Bool.or_eq_true, Bool.and_eq_true, Bits.getLsbD_bit]
      refine or_congr_right ?_
      by_cases hji : j = i
      · subst hji
        by_cases hj : j < s.secondLength
        · simp [hj, Nat.not_le.2 hj]
          tauto
        · simp [hj, Nat.not_lt.1 hj]
          tauto
      · simp [hji]
    intro j
    have hbit := hmask j
    rw [intres2, foldl_or (hstep j), or_iff_right (by simp)]
    constructor
    · rintro ⟨i, hi, rfl, -, hcase⟩
      rw [hbit, and_iff_right hi] at hcase
      exact ⟨hi, hcase⟩
    · rintro ⟨hj, hcase⟩
      refine ⟨j, hj, rfl, by omega, ?_⟩
      rw [hbit, and_iff_right hj]
      exact hcase

/-- The index is that of a bit. -/
theorem isIndex_of_marks {mask : BitVec 32} {p : Nat → Prop} (hmask : Marks n mask p) (output : OutputSelection) :
    StringPair.IsIndex n p output (outputIndex n mask output) := by
  have hno : ∀ {j}, j < n → mask.getLsbD j = false → ¬ p j := by
    intro j hj hbit hp
    rw [(hmask j).2 ⟨hj, hp⟩] at hbit
    exact absurd hbit (by decide)
  cases output with
  | leastSignificantIndex =>
    obtain ⟨-, htop, hbelow, hbit⟩ := lowest_spec mask n 0
    rw [outputIndex]
    by_cases hlast : lowest mask n 0 = n
    · exact .inl ⟨hlast, fun j hj => hno hj (hbelow j (Nat.zero_le j) (by omega))⟩
    · refine .inr ⟨by omega, ((hmask _).1 (hbit (by omega))).2, fun j hj hp => ?_⟩
      exact Nat.not_lt.1 fun hlt => hno hj (hbelow j (Nat.zero_le j) hlt) hp
  | mostSignificantIndex =>
    obtain ⟨-, habove, hbit⟩ := highest_spec mask n
    rw [outputIndex]
    by_cases hzero : mask = 0
    · rw [if_neg (not_not.2 hzero)]
      exact .inl ⟨rfl, fun j hj => hno hj (by simp [hzero])⟩
    · rw [if_pos hzero]
      obtain ⟨i, hi⟩ := (Bits.ne_zero_iff mask).1 hzero
      have hin := ((hmask i).1 hi).1
      have hout : mask.getLsbD (highest mask n) = true := by
        by_cases hpos : 0 < highest mask n
        · exact hbit hpos
        · -- the search went down to the last place, which is the only one left
          obtain rfl : i = highest mask n := by
            by_contra hne
            rw [habove i (by omega) (by omega)] at hi
            exact absurd hi (by decide)
          exact hi
      obtain ⟨hlt, hp⟩ := (hmask _).1 hout
      refine .inr ⟨hlt, hp, fun j hj hpj => ?_⟩
      exact Nat.not_lt.1 fun habove' => hno hj (habove j habove' (by omega)) hpj

/-- What every one of the templates returns. -/
theorem returns_pcmpstri (hn : 0 < n ∧ n ≤ 32) (heven : n % 2 = 0) (hones : ∀ j, ones.getLsbD j = true ↔ j < n)
    (control : BitVec 8) {sign zero : Bool} (hsign : sign = true ↔ invaliddst < n) (hzero : zero = true ↔ invalidsrc < n)
    (flags : Flags) :
    (⟨n, DST, SRC, invaliddst, invalidsrc⟩ : StringPair).Returns control flags
      (pcmpstri n ones DST SRC invaliddst invalidsrc control sign zero flags) := by
  have hmask : Marks n (intres2 n ones invalidsrc (intres1 n ones DST SRC invaliddst invalidsrc (aggregation control))
        (polarity control))
      ((⟨n, DST, SRC, invaliddst, invalidsrc⟩ : StringPair).intRes2 (aggregation control) (polarity control)) :=
    marks_intres2 hn.2 hones (marks_intres1 hn.2 heven hones (aggregation control)) (polarity control)
  have hindex := isIndex_of_marks hmask (outputSelection control)
  have hle : outputIndex n (intres2 n ones invalidsrc (intres1 n ones DST SRC invaliddst invalidsrc (aggregation control))
      (polarity control)) (outputSelection control) ≤ n := by
    rcases hindex with ⟨hout, -⟩ | ⟨hout, -⟩
    · exact Nat.le_of_eq hout
    · exact Nat.le_of_lt hout
  refine ⟨?_, ?_, ?_, hsign, hzero, rfl, rfl, rfl⟩
  · rw [pcmpstri, BitVec.toNat_ofNat, Nat.mod_eq_of_lt (by omega)]
    exact hindex
  · rw [pcmpstri, decide_eq_true_eq, Bits.ne_zero_iff]
    exact exists_congr hmask
  · rw [pcmpstri, decide_eq_true_eq, Bits.and_one_ne_zero, hmask 0]
    exact and_iff_right hn.1

/-! ## Lengths -/

theorem endsAt_implicitLength (string : Nat → Int) : StringPair.EndsAt n string (implicitLength n string) := by
  have hle : (List.range n).findIdx (fun i => decide (string i = 0)) ≤ (List.range n).length := List.findIdx_le_length
  rw [List.length_range] at hle
  refine ⟨hle, fun i hi => ?_, fun hlt => ?_⟩
  · have hbefore := List.not_of_lt_findIdx hi
    rw [List.getElem_range] at hbefore
    simpa using hbefore
  · have hin : (List.range n).findIdx (fun i => decide (string i = 0)) < (List.range n).length := by
      rw [List.length_range]
      exact hlt
    have hfound := List.findIdx_getElem (w := hin)
    rw [List.getElem_range] at hfound
    exact of_decide_eq_true hfound

/-- A string that holds a zero ends before the last element. -/
theorem anyZero_iff (string : Nat → Int) : anyZero n string = true ↔ implicitLength n string < n := by
  obtain ⟨-, hbefore, hfound⟩ := endsAt_implicitLength (n := n) string
  simp only [anyZero, List.any_eq_true, List.mem_range, decide_eq_true_eq]
  constructor
  · rintro ⟨i, hi, hzero⟩
    by_contra hnone
    exact hbefore i (by omega) hzero
  · intro hlt
    exact ⟨_, hlt, hfound hlt⟩

theorem explicitLength_eq (len : BitVec 32) : explicitLength n len = min len.toInt.natAbs n := by
  rw [explicitLength]
  split <;> omega

theorem explicitLength_of_le {k : Nat} (hk : k ≤ n) (hn : n ≤ 32) : explicitLength n (BitVec.ofNat 32 k) = k := by
  have hint : (BitVec.ofNat 32 k).toInt = k := by
    rw [BitVec.toInt_eq_toNat_cond, BitVec.toNat_ofNat]
    omega
  rw [explicitLength_eq, hint, Int.natAbs_natCast, Nat.min_eq_left hk]

end CpuImpl

end X64Emulator
