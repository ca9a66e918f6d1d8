import X64Emulator.Lemmas.IntervalCuts

/-!
# Removing and visiting a range

Both operations split the intervals at the ends of the range first. A removal then takes the interval that begins where the range
ends as well, which is there whenever the range does not end in a gap, and a visit goes to the intervals that only touch the range.
-/

namespace X64Emulator

namespace IntervalVector

section

variable {T : Type}

/-- Some intervals have no items if no item is in one of them. -/
theorem forall_items_eq_nil_iff {l : List (IntervalValue T)} {P : IntervalValue T → Prop} :
    (∀ a ∈ l, P a → a.items = []) ↔ ∀ a ∈ l, ∀ t ∈ a.items, ¬ P a := by
  refine forall₂_congr fun a _ => ⟨fun hnil t ht hP => ?_, fun hnot hP => List.eq_nil_iff_forall_not_mem.2 fun t ht => hnot t ht hP⟩
  rw [hnil hP] at ht
  cases ht

/-- Going to more intervals visits the same items only where the others have none. -/
theorem flatMap_filter_perm_iff {l : List (IntervalValue T)} {p q : IntervalValue T → Bool}
    (hqp : ∀ a ∈ l, q a = true → p a = true) :
    ((l.filter p).flatMap (·.items)).Perm ((l.filter q).flatMap (·.items)) ↔
      ∀ a ∈ l, p a = true → q a = false → a.items = [] := by
  have hq : (l.filter p).filter q = l.filter q := by
    rw [List.filter_filter]
    refine List.filter_congr fun a ha => ?_
    cases hqa : q a with
    | true => simp [hqp a ha hqa]
    | false => simp
  have hparts := (List.filter_append_perm q (l.filter p)).flatMap_right (·.items)
  rw [hq, List.flatMap_append] at hparts
  have hothers : ((l.filter p).filter fun a => !q a).flatMap (·.items) = [] ↔
      ∀ a ∈ l, p a = true → q a = false → a.items = [] := by
    simp only [List.flatMap_eq_nil_iff, List.mem_filter, Bool.not_eq_true', and_imp]
  rw [← hothers]
  constructor
  · intro h
    have hlength := (hparts.trans h).length_eq
    rw [List.length_append] at hlength
    exact List.length_eq_zero_iff.1 (by omega)
  · intro h
    rw [h, List.append_nil] at hparts
    exact hparts.symm

end

variable {T : Type} [Item T] {v v' v₁ v₂ : IntervalVector T} {a : IntervalValue T} {value start end_ : Nat}

/-! ## Removing -/

/-- The item is not in the range. -/
def Outside (start end_ : Nat) (t : T) : Prop := Item.end_ t ≤ start ∨ end_ ≤ Item.start t

/-- The item is in the range. One that is in it in part is neither inside nor outside. -/
def Inside (start end_ : Nat) (t : T) : Prop := start ≤ Item.start t ∧ Item.start t < Item.end_ t ∧ Item.end_ t ≤ end_

/-- A removal leaves what is outside the range: the addresses and the intervals, and the items, and none that is inside. -/
def RemovesRight (v : IntervalVector T) (start end_ : Nat) : Prop :=
  ∃ v', v.remove start end_ = some v' ∧
    (∀ x, (∃ a ∈ v'.values, Covers a x) ↔ (∃ a ∈ v.values, Covers a x) ∧ ¬ (start ≤ x ∧ x < end_)) ∧
    (∀ a ∈ v.values, a.end_ ≤ start ∨ end_ ≤ a.start → a ∈ v'.values) ∧
    ∃ gone, v.items.Perm (v'.items ++ gone) ∧ (∀ t ∈ v'.items, ¬ Inside start end_ t) ∧ ∀ t ∈ gone, ¬ Outside start end_ t

/-- The item's interval is in front of the range or behind it, or the item ends in the part of it that is in front. -/
def Apart (start end_ : Nat) (a : IntervalValue T) (t : T) : Prop :=
  a.end_ ≤ start ∨ (a.start < start ∧ Item.end_ t ≤ start) ∨ end_ ≤ a.start

/-- The items that are apart from the range with their intervals are not inside it, and the others are not outside. -/
def ItemsInPlace (v : IntervalVector T) (start end_ : Nat) : Prop :=
  ∀ a ∈ v.values, ∀ t ∈ a.items,
    (Apart start end_ a t → ¬ Inside start end_ t) ∧ (¬ Apart start end_ a t → ¬ Outside start end_ t)

instance (v : IntervalVector T) (start end_ : Nat) : Decidable (v.ItemsInPlace start end_) := by
  unfold ItemsInPlace Apart Inside Outside
  infer_instance

/-- The interval in which a removal finds the item after its split at the start of the range is kept. -/
theorem Wf.part_kept_iff (h : v.Wf) (hnone : ¬ Covers a end_) (ha : a ∈ v.values) (hlt : start < end_) (t : T) :
    (a.part start t).start < start ∨ end_ < (a.part start t).start ↔ Apart start end_ a t := by
  have hne := h.nonempty a ha
  unfold Covers at hnone
  unfold Apart
  rcases a.part_cases start t with ⟨hacross, hend, hpart⟩ | ⟨hacross, hend, hpart⟩ | ⟨hacross, hpart⟩
  · rw [hpart]
    show a.start < start ∨ end_ < a.start ↔ _
    omega
  · rw [hpart]
    show start < start ∨ end_ < start ↔ _
    omega
  · rw [hpart]
    omega

/-- A removal up to an address that no interval covers splits nothing there. -/
theorem Cut.eq_of_not_covers (hc : Cut v start end_ v₁ v₂) (hnone : ∀ a ∈ v.values, ¬ Covers a end_) : v₂ = v₁ := by
  refine hc.atEnd.eq_of_not_across fun b hb hacross => ?_
  obtain ⟨a, ha, hcovers⟩ := (hc.atStart.covers_iff end_).1 ⟨b, hb, Nat.le_of_lt hacross.1, hacross.2⟩
  exact hnone a ha hcovers

theorem RemovesRight.not_covers (h : v.RemovesRight start end_) (hwf : v.Wf) (hlt : start < end_) :
    ∀ a ∈ v.values, ¬ Covers a end_ := by
  obtain ⟨v₁, v₂, hc, h₁, h₂⟩ := hwf.cut start end_
  obtain ⟨v', hv', haddresses, -⟩ := h
  obtain rfl := Option.some.inj ((hc.remove_eq h₂ (Nat.le_of_lt hlt)).symm.trans hv')
  intro a ha hend
  obtain ⟨b, hb, hb'⟩ := (haddresses end_).2 ⟨⟨a, ha, hend⟩, fun h => Nat.lt_irrefl _ h.2⟩
  have hacross := ((hc.not_across hwf) b (List.mem_of_mem_filter hb)).1
  have hkept := List.of_mem_filter hb
  simp only [Bool.or_eq_true, decide_eq_true_eq] at hkept
  unfold Covers at hb'
  omega

/-- The items that are kept and those that are gone, after a removal that has only the start of its range to split at. -/
theorem Splits.removed_iff (hs : Splits start v v₁) (h : v.Wf) (hnone : ∀ a ∈ v.values, ¬ Covers a end_) (hlt : start < end_) :
    (∃ gone, v.items.Perm ((v₁.values.filter fun a => decide (a.start < start) || decide (end_ < a.start)).flatMap (·.items) ++ gone) ∧
      (∀ t ∈ (v₁.values.filter fun a => decide (a.start < start) || decide (end_ < a.start)).flatMap (·.items),
        ¬ Inside start end_ t) ∧ ∀ t ∈ gone, ¬ Outside start end_ t) ↔ v.ItemsInPlace start end_ := by
  have hparts := (List.filter_append_perm (fun a : IntervalValue T => decide (a.start < start) || decide (end_ < a.start))
    v₁.values).flatMap_right (·.items)
  rw [List.flatMap_append] at hparts
  have hitems := hs.items_perm.symm.trans hparts.symm
  have hplace : v.ItemsInPlace start end_ ↔ ∀ a ∈ v₁.values, ∀ t ∈ a.items,
      (a.start < start ∨ end_ < a.start → ¬ Inside start end_ t) ∧
        (¬ (a.start < start ∨ end_ < a.start) → ¬ Outside start end_ t) := by
    refine Iff.symm ((hs.forall_item_iff h fun a t => (a.start < start ∨ end_ < a.start → ¬ Inside start end_ t) ∧
      (¬ (a.start < start ∨ end_ < a.start) → ¬ Outside start end_ t)).trans ?_)
    refine forall₂_congr fun a ha => forall₂_congr fun t _ => ?_
    rw [h.part_kept_iff (hnone a ha) ha hlt t]
  rw [hplace]
  simp only [List.mem_flatMap, List.mem_filter, Bool.or_eq_true, decide_eq_true_eq, forall_exists_index, and_imp]
  constructor
  · rintro ⟨gone, hperm, hkept, hgone⟩ a ha t ht
    refine ⟨fun hkeep => hkept t a ha hkeep ht, fun hdrop => hgone t ?_⟩
    rw [((List.perm_append_left_iff _).1 (hperm.symm.trans hitems)).mem_iff, List.mem_flatMap]
    exact ⟨a, List.mem_filter.2 ⟨ha, by simpa using hdrop⟩, ht⟩
  · intro hall
    refine ⟨_, hitems, fun t a ha hkeep ht => (hall a ha t ht).1 hkeep, fun t ht => ?_⟩
    obtain ⟨a, ha, ht⟩ := List.mem_flatMap.1 ht
    obtain ⟨ha, hdrop⟩ := List.mem_filter.1 ha
    exact (hall a ha t ht).2 (by simpa using hdrop)

theorem removesRight_iff (h : v.Wf) (hlt : start < end_) :
    v.RemovesRight start end_ ↔ (∀ a ∈ v.values, ¬ Covers a end_) ∧ v.ItemsInPlace start end_ := by
  obtain ⟨v₁, v₂, hc, h₁, h₂⟩ := h.cut start end_
  have hremove := hc.remove_eq h₂ (Nat.le_of_lt hlt)
  have hacross := hc.not_across h
  constructor
  · intro hright
    have hnone := hright.not_covers h hlt
    obtain rfl := hc.eq_of_not_covers hnone
    obtain ⟨v', hv', -, -, hitems⟩ := hright
    obtain rfl := Option.some.inj (hremove.symm.trans hv')
    exact ⟨hnone, (hc.atStart.removed_iff h hnone hlt).1 hitems⟩
  · rintro ⟨hnone, hplace⟩
    obtain rfl := hc.eq_of_not_covers hnone
    have hcovers := hc.atStart.covers_iff
    have hmem : ∀ a, a ∈ v₂.values.filter (fun a => decide (a.start < start) || decide (end_ < a.start)) ↔
        a ∈ v₂.values ∧ (a.start < start ∨ end_ < a.start) := fun a => by simp
    refine ⟨_, hremove, fun x => ?_, fun a ha houtside => ?_, (hc.atStart.removed_iff h hnone hlt).2 hplace⟩
    · rw [← hcovers x]
      constructor
      · rintro ⟨b, hb, hb'⟩
        obtain ⟨hb, hkept⟩ := (hmem b).1 hb
        refine ⟨⟨b, hb, hb'⟩, ?_⟩
        have hab := (hacross b hb).1
        unfold Covers at hb'
        omega
      · rintro ⟨⟨b, hb, hb'⟩, hx⟩
        refine ⟨b, (hmem b).2 ⟨hb, ?_⟩, hb'⟩
        have hend : ¬ Covers b end_ := fun hend => by
          obtain ⟨a, ha, ha'⟩ := (hcovers end_).1 ⟨b, hb, hend⟩
          exact hnone a ha ha'
        unfold Covers at hend hb'
        omega
    · have hne := h.nonempty a ha
      have hend := hnone a ha
      unfold Covers at hend
      exact (hmem a).2 ⟨hc.atStart.mem_of_not_across ha (by omega), by omega⟩

/-! ## Visiting -/

/-- A visit goes to each item of the intervals that have an address in the range once, after they were split, and to no other. -/
def VisitsRight (v : IntervalVector T) (start end_ : Nat) : Prop :=
  ∃ visited v', v.forEach start end_ = some (visited, v') ∧
    visited.Perm ((v'.values.filter fun a => decide (a.start < end_) && decide (start < a.end_)).flatMap (·.items))

/-- No item is in an interval that touches the range, or in a part of one that is left when the range is cut out of it. -/
def TouchesNone (v : IntervalVector T) (start end_ : Nat) : Prop :=
  ∀ a ∈ v.values, ∀ t ∈ a.items,
    (a.start < start → start ≤ a.end_ → start < a.end_ ∧ start < Item.end_ t) ∧
      (a.start ≤ end_ → end_ < a.end_ → a.start < end_ ∧ Item.end_ t ≤ end_)

/-- The intervals that end at a value after a split at it. -/
theorem Splits.touchesLeft_iff (hs : Splits value v v') (h : v.Wf) :
    (∀ a ∈ v'.values, a.end_ = value → a.items = []) ↔
      ∀ a ∈ v.values, ∀ t ∈ a.items, a.start < value → value ≤ a.end_ → value < a.end_ ∧ value < Item.end_ t := by
  refine forall_items_eq_nil_iff.trans ((hs.forall_item_iff h fun a _ => a.end_ ≠ value).trans ?_)
  refine forall₂_congr fun a ha => forall₂_congr fun t _ => ?_
  have hne := h.nonempty a ha
  rcases a.part_cases value t with ⟨hacross, hend, hpart⟩ | ⟨hacross, hend, hpart⟩ | ⟨hacross, hpart⟩
  · rw [hpart]
    show value ≠ value ↔ _
    omega
  · rw [hpart]
    show a.end_ ≠ value ↔ _
    omega
  · rw [hpart]
    omega

/-- The intervals that begin at a value after a split at it. -/
theorem Splits.touchesRight_iff (hs : Splits value v v') (h : v.Wf) :
    (∀ a ∈ v'.values, a.start = value → a.items = []) ↔
      ∀ a ∈ v.values, ∀ t ∈ a.items, a.start ≤ value → value < a.end_ → a.start < value ∧ Item.end_ t ≤ value := by
  refine forall_items_eq_nil_iff.trans ((hs.forall_item_iff h fun a _ => a.start ≠ value).trans ?_)
  refine forall₂_congr fun a ha => forall₂_congr fun t _ => ?_
  have hne := h.nonempty a ha
  rcases a.part_cases value t with ⟨hacross, hend, hpart⟩ | ⟨hacross, hend, hpart⟩ | ⟨hacross, hpart⟩
  · rw [hpart]
    show a.start ≠ value ↔ _
    omega
  · rw [hpart]
    show value ≠ value ↔ _
    omega
  · rw [hpart]
    omega

/-- Splitting at the end of the range leaves the intervals that end where it begins. -/
theorem Splits.endsAt_iff (hs : Splits end_ v v') (hlt : start < end_) :
    (∀ a ∈ v'.values, a.end_ = start → a.items = []) ↔ ∀ a ∈ v.values, a.end_ = start → a.items = [] := by
  constructor
  · intro h a ha hend
    exact h a (hs.mem_of_not_across ha (by omega)) hend
  · intro h a ha hend
    rcases hs.mem_cases ha with ha | ⟨b, hb, hlow, hhigh, rfl | rfl⟩
    · exact h a ha hend
    · exact absurd hend (Nat.ne_of_gt hlt)
    · exact absurd hend (Nat.ne_of_gt (Nat.lt_trans hlt hhigh))

theorem Cut.touchesNone_iff (hc : Cut v start end_ v₁ v₂) (h : v.Wf) (hlt : start < end_) :
    (∀ a ∈ v₂.values, a.end_ = start ∨ a.start = end_ → a.items = []) ↔ v.TouchesNone start end_ := by
  have hleft : (∀ a ∈ v₂.values, a.end_ = start → a.items = []) ↔ ∀ a ∈ v.values, ∀ t ∈ a.items,
      a.start < start → start ≤ a.end_ → start < a.end_ ∧ start < Item.end_ t :=
    (hc.atEnd.endsAt_iff hlt).trans (hc.atStart.touchesLeft_iff h)
  have hright := hc.atEnd.touchesRight_iff (hc.atStart.wf h)
  constructor
  · intro hclear a ha t ht
    have hl := hleft.1 (fun a ha hend => hclear a ha (.inl hend))
    have hr := hright.1 (fun a ha hstart => hclear a ha (.inr hstart))
    refine ⟨hl a ha t ht, fun hle hhigh => ?_⟩
    by_cases hacross : a.start < start ∧ start < a.end_
    · -- The item is in the right part of the interval.
      have hend := (hl a ha t ht hacross.1 (Nat.le_of_lt hacross.2)).2
      have hmem : t ∈ (a.right start).items := List.mem_filter.2 ⟨ht, by simpa using hend⟩
      have ht' := (hr _ (hc.atStart.parts_mem h ha hacross.1 hacross.2).2 t hmem (Nat.le_of_lt hlt) hhigh).2
      exact ⟨Nat.lt_trans hacross.1 hlt, ht'⟩
    · exact hr a (hc.atStart.mem_of_not_across ha hacross) t ht hle hhigh
  · intro htouches
    have hl := hleft.2 fun a ha t ht => (htouches a ha t ht).1
    have hr := hright.2 (by
      intro a ha t ht hle hhigh
      rcases hc.atStart.mem_cases ha with ha | ⟨b, hb, hlow, hhigh', rfl | rfl⟩
      · exact (htouches a ha t ht).2 hle hhigh
      · exact absurd hhigh (Nat.not_lt.2 (Nat.le_of_lt hlt))
      · refine ⟨hlt, ((htouches b hb t (List.mem_filter.1 ht).1).2 ?_ hhigh).2⟩
        exact Nat.le_of_lt (Nat.lt_trans hlow hlt))
    rintro a ha (hend | hstart)
    · exact hl a ha hend
    · exact hr a ha hstart

theorem visitsRight_iff (h : v.Wf) (hlt : start < end_) : v.VisitsRight start end_ ↔ v.TouchesNone start end_ := by
  obtain ⟨v₁, v₂, hc, h₁, h₂⟩ := h.cut start end_
  have hforEach := hc.forEach_eq h₂ (Nat.le_of_lt hlt)
  rw [← hc.touchesNone_iff h hlt]
  have hperm := flatMap_filter_perm_iff (l := v₂.values) (p := fun a => decide (start ≤ a.end_) && decide (a.start ≤ end_))
    (q := fun a => decide (a.start < end_) && decide (start < a.end_)) (by
      intro a ha hq
      simp only [Bool.and_eq_true, decide_eq_true_eq] at hq ⊢
      omega)
  have htouch : (∀ a ∈ v₂.values, (decide (start ≤ a.end_) && decide (a.start ≤ end_)) = true →
      (decide (a.start < end_) && decide (start < a.end_)) = false → a.items = []) ↔
      ∀ a ∈ v₂.values, a.end_ = start ∨ a.start = end_ → a.items = [] := by
    refine forall₂_congr fun a ha => ?_
    have hne := h₂.nonempty a ha
    simp only [Bool.and_eq_true, Bool.and_eq_false_iff, decide_eq_true_eq, decide_eq_false_iff_not]
    constructor
    · intro himp htouches
      exact himp (by omega) (by omega)
    · intro himp hle hnot
      exact himp (by omega)
  rw [← htouch, ← hperm]
  constructor
  · rintro ⟨visited, v', heq, hvisited⟩
    obtain ⟨rfl, rfl⟩ := Prod.mk.inj (Option.some.inj (hforEach.symm.trans heq))
    exact hvisited
  · intro hvisited
    exact ⟨_, _, hforEach, hvisited⟩

/-- Two intervals that touch and one behind a gap, with items. The one added at the end of the first interval is stored there. -/
def itemRun : List (IntervalAction AddressRange) :=
  [.reserve 0 16, .add 4 ⟨4, 8⟩, .reserve 16 48, .add 16 ⟨16, 20⟩, .add 20 ⟨20, 24⟩,
   .reserve 64 80, .add 66 ⟨66, 70⟩]

end IntervalVector

end X64Emulator
