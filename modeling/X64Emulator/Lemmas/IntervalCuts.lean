import X64Emulator.Lemmas.Intervals

/-!
# Cutting a range out

A removal and a visit split the intervals at both ends of their range first. What they then search for are intervals that follow
each other, which are told by where they begin and end.
-/

namespace X64Emulator

open BinarySearch

namespace IntervalVector

section

variable {T : Type} {v v' : IntervalVector T} {a b : IntervalValue T} {value start end_ : Nat}

/-- Two searches one after the other delimit the intervals between them. -/
theorem Wf.between (h : v.Wf) {p q : IntervalValue T → Bool}
    (hp : ∀ a b : IntervalValue T, a.start < a.end_ → a.end_ ≤ b.start → b.start < b.end_ → p b = true → p a = true)
    (hq : ∀ a b : IntervalValue T, a.start < a.end_ → a.end_ ≤ b.start → b.start < b.end_ → q b = true → q a = true)
    (hpq : ∀ a : IntervalValue T, a.start < a.end_ → p a = true → q a = true) :
    partitionPoint p v.values ≤ partitionPoint q v.values ∧
      v.values.take (partitionPoint p v.values) ++ v.values.drop (partitionPoint q v.values) =
        v.values.filter (fun a => p a || !q a) ∧
      (v.values.take (partitionPoint q v.values)).drop (partitionPoint p v.values) =
        v.values.filter (fun a => !p a && q a) := by
  obtain ⟨low, middle, high, hvalues, hlow, hmiddle, hhigh, hpoint, hpoint'⟩ := exists_append_of_imp (h.pairwise hp) (h.pairwise hq)
    fun a ha => hpq a (h.nonempty a ha)
  rw [hpoint, hpoint']
  have hfilterLow : low.filter (fun a => p a || !q a) = low := List.filter_eq_self.2 fun a ha => by simp [hlow a ha]
  have hfilterMiddle : middle.filter (fun a => p a || !q a) = [] :=
    List.filter_eq_nil_iff.2 fun a ha => by simp [hmiddle a ha]
  have hfilterHigh : high.filter (fun a => p a || !q a) = high := List.filter_eq_self.2 fun a ha => by simp [hhigh a ha]
  have hbetweenLow : low.filter (fun a => !p a && q a) = [] := List.filter_eq_nil_iff.2 fun a ha => by simp [hlow a ha]
  have hbetweenMiddle : middle.filter (fun a => !p a && q a) = middle :=
    List.filter_eq_self.2 fun a ha => by simp [hmiddle a ha]
  have hbetweenHigh : high.filter (fun a => !p a && q a) = [] := List.filter_eq_nil_iff.2 fun a ha => by simp [hhigh a ha]
  refine ⟨by simp, ?_, ?_⟩
  · rw [hvalues, ← List.append_assoc, List.take_append_of_le_length (by simp), List.take_append_of_le_length (Nat.le_refl _),
      List.take_length, List.drop_left', List.filter_append, List.filter_append, hfilterLow, hfilterMiddle, hfilterHigh,
      List.append_nil]
    rfl
  · rw [hvalues, ← List.append_assoc, List.take_left', List.drop_left', List.filter_append, List.filter_append, hbetweenLow,
      hbetweenMiddle, hbetweenHigh, List.nil_append, List.append_nil]
    · rfl
    · rfl

/-- Two intervals that share an address are the same interval. -/
theorem Wf.eq_of_covers (h : v.Wf) (ha : a ∈ v.values) (hb : b ∈ v.values) {value : Nat} (hav : Covers a value)
    (hbv : Covers b value) : a = b := h.ordered.eq_of_shared ha hb hav hbv

theorem Wf.eq_of_start (h : v.Wf) (ha : a ∈ v.values) (hb : b ∈ v.values) (heq : a.start = b.start) : a = b :=
  h.eq_of_covers ha hb ⟨Nat.le_refl _, h.nonempty a ha⟩ ⟨Nat.le_of_eq heq.symm, heq ▸ h.nonempty b hb⟩

/-- Different intervals share no address. -/
theorem Wf.apart (h : v.Wf) (ha : a ∈ v.values) (hb : b ∈ v.values) (hne : a ≠ b) : a.end_ ≤ b.start ∨ b.end_ ≤ a.start := by
  by_contra hshared
  have h1 := h.nonempty a ha
  have h2 := h.nonempty b hb
  have hav : Covers a (max a.start b.start) := ⟨by omega, by omega⟩
  exact hne (h.eq_of_covers ha hb hav ⟨by omega, by omega⟩)

/-- An item whose address is in an interval joins that interval, or one that ends at the address. -/
theorem Wf.add_spec (h : v.Wf) (item : T) (hcovered : ∃ b ∈ v.values, Covers b value) :
    ∃ v' a, v.add value item = some v' ∧ v'.Wf ∧ a ∈ v.values ∧
      (∃ b ∈ v.values, Covers b value ∧ (b.start = a.start ∨ b.start = a.end_)) ∧
      ∀ i, i ∈ v'.values ↔ (i ∈ v.values ∧ i ≠ a) ∨ i = { a with items := a.items ++ [item] } := by
  obtain ⟨b, hb, hbv⟩ := hcovered
  rcases h.find_cases value with ⟨-, hall⟩ | ⟨before, a, after, hvalues, hposition, hfind, hbefore, hle⟩
  · exact absurd (hall b hb) (Nat.lt_asymm hbv.2)
  · obtain ⟨hne, hlow, hhigh⟩ := h.append_cons hvalues
    have hadd : v.add value item = some ⟨before ++ { a with items := a.items ++ [item] } :: after⟩ := by
      unfold IntervalVector.add
      rw [hfind]
      simp [hposition, hvalues]
    have hmem : ∀ i, i ∈ v.values ↔ i ∈ before ∨ i = a ∨ i ∈ after := fun i => by
      rw [hvalues, List.mem_append, List.mem_cons]
    refine ⟨_, a, hadd, h.add hadd, (hmem a).2 (by simp), ⟨b, hb, hbv, ?_⟩, fun i => ?_⟩
    · rcases (hmem b).1 hb with hb | rfl | hb
      · exact absurd (hbefore b hb) (Nat.lt_asymm hbv.2)
      · exact Or.inl rfl
      · have hab := (hhigh b hb).1
        have hstart := hbv.1
        exact Or.inr (by omega)
    · have hother : ∀ i, i ∈ before ∨ i ∈ after → i ≠ a := by
        rintro i (hi | hi) rfl
        · have := hlow i hi
          omega
        · have := hhigh i hi
          omega
      rw [List.mem_append, List.mem_cons, hmem]
      constructor
      · rintro (hi | rfl | hi)
        · exact Or.inl ⟨Or.inl hi, hother i (Or.inl hi)⟩
        · exact Or.inr rfl
        · exact Or.inl ⟨Or.inr (Or.inr hi), hother i (Or.inr hi)⟩
      · rintro (⟨hi | rfl | hi, hia⟩ | rfl)
        · exact Or.inl hi
        · exact absurd rfl hia
        · exact Or.inr (Or.inr hi)
        · exact Or.inr (Or.inl rfl)

end

end IntervalVector

variable {T : Type} [Item T]

namespace IntervalValue

/-- Where an item of the interval is after a split at the value. -/
def part (a : IntervalValue T) (value : Nat) (t : T) : IntervalValue T :=
  if a.start < value ∧ value < a.end_ then if Item.end_ t ≤ value then a.left value else a.right value else a

theorem part_cases (a : IntervalValue T) (value : Nat) (t : T) :
    ((a.start < value ∧ value < a.end_) ∧ Item.end_ t ≤ value ∧ a.part value t = a.left value) ∨
    ((a.start < value ∧ value < a.end_) ∧ ¬ Item.end_ t ≤ value ∧ a.part value t = a.right value) ∨
    (¬ (a.start < value ∧ value < a.end_) ∧ a.part value t = a) := by
  unfold part
  split
  · next hacross =>
    split
    · next hend => exact .inl ⟨hacross, hend, rfl⟩
    · next hend => exact .inr (.inl ⟨hacross, hend, rfl⟩)
  · next hacross => exact .inr (.inr ⟨hacross, rfl⟩)

end IntervalValue

namespace IntervalVector

variable {v v' v₁ v₂ : IntervalVector T} {a : IntervalValue T} {value start end_ : Nat}

/-! ## What a split keeps -/

theorem Splits.mem_of_not_across (hs : Splits value v v') (ha : a ∈ v.values) (h : ¬ (a.start < value ∧ value < a.end_)) :
    a ∈ v'.values := by
  cases hs with
  | unchanged hv _ => exact hv ▸ ha
  | split before b after hv hlow hhigh hv' =>
    rw [hv, List.mem_append, List.mem_cons] at ha
    rw [hv']
    rcases ha with ha | rfl | ha
    · simp [ha]
    · exact absurd ⟨hlow, hhigh⟩ h
    · simp [ha]

/-- After a split at a value no interval has it inside. -/
theorem Splits.not_across (hs : Splits value v v') (h : v.Wf) : ∀ a ∈ v'.values, ¬ (a.start < value ∧ value < a.end_) := by
  cases hs with
  | unchanged hv hnone => exact hv ▸ hnone
  | split before b after hv hlow hhigh hv' =>
    obtain ⟨-, hbelow, habove⟩ := h.append_cons hv
    intro a ha
    rw [hv'] at ha
    simp only [List.mem_append, List.mem_cons] at ha
    rcases ha with ha | rfl | rfl | ha
    · have ha' := hbelow a ha
      omega
    · exact fun h => Nat.lt_irrefl _ h.2
    · exact fun h => Nat.lt_irrefl _ h.1
    · have ha' := habove a ha
      omega

/-- An interval of the split vector is one of the vector, or a part of one. -/
theorem Splits.mem_cases (hs : Splits value v v') (ha : a ∈ v'.values) :
    a ∈ v.values ∨ ∃ b ∈ v.values, b.start < value ∧ value < b.end_ ∧ (a = b.left value ∨ a = b.right value) := by
  cases hs with
  | unchanged hv _ => exact .inl (hv ▸ ha)
  | split before b after hv hlow hhigh hv' =>
    rw [hv'] at ha
    rw [hv]
    simp only [List.mem_append, List.mem_cons] at ha
    rcases ha with ha | rfl | rfl | ha
    · exact .inl (by simp [ha])
    · exact .inr ⟨b, by simp, hlow, hhigh, .inl rfl⟩
    · exact .inr ⟨b, by simp, hlow, hhigh, .inr rfl⟩
    · exact .inl (by simp [ha])

theorem Splits.not_across_other {other : Nat} (hs : Splits value v v')
    (h : ∀ a ∈ v.values, ¬ (a.start < other ∧ other < a.end_)) : ∀ a ∈ v'.values, ¬ (a.start < other ∧ other < a.end_) := by
  intro a ha
  rcases hs.mem_cases ha with ha | ⟨b, hb, hlow, hhigh, rfl | rfl⟩
  · exact h a ha
  · have hb' := h b hb
    show ¬ (b.start < other ∧ other < value)
    omega
  · have hb' := h b hb
    show ¬ (value < other ∧ other < b.end_)
    omega

/-- A split covers what was covered. -/
theorem Splits.covers_iff (hs : Splits value v v') (x : Nat) :
    (∃ a ∈ v'.values, Covers a x) ↔ ∃ a ∈ v.values, Covers a x := by
  cases hs with
  | unchanged hv _ => rw [hv]
  | split before b after hv hlow hhigh hv' =>
    have hparts : Covers (b.left value) x ∨ Covers (b.right value) x ↔ Covers b x := by
      show (b.start ≤ x ∧ x < value) ∨ (value ≤ x ∧ x < b.end_) ↔ b.start ≤ x ∧ x < b.end_
      omega
    rw [hv, hv']
    simp only [List.mem_append, List.mem_cons, or_and_right, exists_or, exists_eq_left]
    rw [← hparts, or_assoc]

/-- The parts of an interval that a split has to split. -/
theorem Splits.parts_mem (hs : Splits value v v') (h : v.Wf) (ha : a ∈ v.values) (hlow : a.start < value)
    (hhigh : value < a.end_) : a.left value ∈ v'.values ∧ a.right value ∈ v'.values := by
  cases hs with
  | unchanged hv hnone => exact absurd ⟨hlow, hhigh⟩ (hnone a ha)
  | split before b after hv hlow' hhigh' hv' =>
    have heq := h.ordered.eq_of_shared ha (by rw [hv]; simp) ⟨Nat.le_of_lt hlow, hhigh⟩ ⟨Nat.le_of_lt hlow', hhigh'⟩
    rw [hv', heq]
    simp

/-- What holds of each item and its interval after a split holds of each item and its part before it. -/
theorem Splits.forall_item_iff (hs : Splits value v v') (h : v.Wf) (P : IntervalValue T → T → Prop) :
    (∀ a ∈ v'.values, ∀ t ∈ a.items, P a t) ↔ ∀ a ∈ v.values, ∀ t ∈ a.items, P (a.part value t) t := by
  constructor
  · intro hall a ha t ht
    rcases a.part_cases value t with ⟨hacross, hend, hpart⟩ | ⟨hacross, hend, hpart⟩ | ⟨hacross, hpart⟩
    · rw [hpart]
      exact hall _ (hs.parts_mem h ha hacross.1 hacross.2).1 t (List.mem_filter.2 ⟨ht, decide_eq_true hend⟩)
    · rw [hpart]
      exact hall _ (hs.parts_mem h ha hacross.1 hacross.2).2 t (List.mem_filter.2 ⟨ht, by simpa using hend⟩)
    · rw [hpart]
      exact hall a (hs.mem_of_not_across ha hacross) t ht
  · intro hall b hb t ht
    rcases hs.mem_cases hb with ha | ⟨a, ha, hlow, hhigh, rfl | rfl⟩
    · have hpart := hall b ha t ht
      rwa [IntervalValue.part, if_neg (hs.not_across h b hb)] at hpart
    · obtain ⟨ht, hend⟩ := List.mem_filter.1 ht
      have hpart := hall a ha t ht
      rwa [IntervalValue.part, if_pos ⟨hlow, hhigh⟩, if_pos (of_decide_eq_true hend)] at hpart
    · obtain ⟨ht, hend⟩ := List.mem_filter.1 ht
      have hpart := hall a ha t ht
      rwa [IntervalValue.part, if_pos ⟨hlow, hhigh⟩, if_neg (by simpa using hend)] at hpart

/-- After a split an interval begins where one began before, or at the value. -/
theorem Splits.forall_start_iff (hs : Splits value v v') {P : Nat → Prop} (hvalue : P value) :
    (∀ a ∈ v'.values, P a.start) ↔ ∀ a ∈ v.values, P a.start := by
  cases hs with
  | unchanged hv _ => rw [hv]
  | split before a after hv hlow hhigh hv' =>
    have hright : P (a.right value).start := hvalue
    have hleft : P (a.left value).start ↔ P a.start := Iff.rfl
    rw [hv, hv']
    simp only [List.forall_mem_append, List.forall_mem_cons, hleft, hright, true_and]

/-- A split keeps all items. -/
theorem Splits.items_perm (hs : Splits value v v') : v'.items.Perm v.items := by
  cases hs with
  | unchanged hv _ => rw [hv]
  | split before b after hv hlow hhigh hv' =>
    unfold items
    rw [hv, hv']
    simp only [List.flatMap_append, List.flatMap_cons]
    refine List.Perm.append_left _ ?_
    rw [← List.append_assoc]
    exact (List.filter_append_perm _ b.items).append_right _

/-! ## Removing and visiting -/

/-- What the splits of a removal or a visit leave. -/
structure Cut (v : IntervalVector T) (start end_ : Nat) (v₁ v₂ : IntervalVector T) : Prop where
  first : v.split start = some v₁
  second : v₁.split end_ = some v₂
  atStart : Splits start v v₁
  atEnd : Splits end_ v₁ v₂

theorem Wf.cut (h : v.Wf) (start end_ : Nat) : ∃ v₁ v₂, Cut v start end_ v₁ v₂ ∧ v₁.Wf ∧ v₂.Wf := by
  obtain ⟨v₁, hv₁, hs₁⟩ := h.split_spec start
  obtain ⟨v₂, hv₂, hs₂⟩ := (hs₁.wf h).split_spec end_
  exact ⟨v₁, v₂, ⟨hv₁, hv₂, hs₁, hs₂⟩, hs₁.wf h, hs₂.wf (hs₁.wf h)⟩

theorem Cut.not_across (hc : Cut v start end_ v₁ v₂) (h : v.Wf) :
    ∀ a ∈ v₂.values, ¬ (a.start < start ∧ start < a.end_) ∧ ¬ (a.start < end_ ∧ end_ < a.end_) := fun a ha =>
  ⟨hc.atEnd.not_across_other (hc.atStart.not_across h) a ha, hc.atEnd.not_across (hc.atStart.wf h) a ha⟩

/-- A removal takes the intervals that begin in the range, or where it ends. -/
theorem Cut.remove_eq (hc : Cut v start end_ v₁ v₂) (h : v₂.Wf) (hle : start ≤ end_) :
    v.remove start end_ = some ⟨v₂.values.filter fun a => decide (a.start < start) || decide (end_ < a.start)⟩ := by
  obtain ⟨hpoints, hvalues, -⟩ := h.between (p := fun a => decide (a.start < start)) (q := fun a => !decide (end_ < a.start))
    (fun a b ha hab hb hlt => by simp only [decide_eq_true_eq] at hlt ⊢; omega)
    (fun a b ha hab hb hlt => by simp only [Bool.not_eq_true', decide_eq_false_iff_not] at hlt ⊢; omega)
    (fun a ha hlt => by simp only [Bool.not_eq_true', decide_eq_false_iff_not, decide_eq_true_eq] at hlt ⊢; omega)
  unfold remove
  simp only [hc.first, hc.second, Option.bind_eq_bind, Option.bind_some, if_pos hpoints, hvalues, Bool.not_not]

/-- A removal has a result exactly if no interval begins between bounds that are in reverse. -/
theorem Wf.remove_isSome_iff (h : v.Wf) (start end_ : Nat) :
    (∃ v', v.remove start end_ = some v') ↔ v.KeepsApart (.remove start end_) := by
  obtain ⟨v₁, v₂, hc, h₁, h₂⟩ := h.cut start end_
  have hpoints := partitionPoint_le_iff (p := fun a : IntervalValue T => decide (a.start < start))
    (q := fun a => !decide (end_ < a.start))
    (h₂.pairwise fun a b ha hab hb hlt => by simp only [decide_eq_true_eq] at hlt ⊢; omega)
    (h₂.pairwise fun a b ha hab hb hlt => by simp only [Bool.not_eq_true', decide_eq_false_iff_not] at hlt ⊢; omega)
  have hstarts : (∀ a ∈ v₂.values, decide (a.start < start) = true → (!decide (end_ < a.start)) = true) ↔
      v.KeepsApart (.remove start end_) := by
    have h₂₁ := hc.atEnd.forall_start_iff (P := fun x => ¬ (end_ < x ∧ x < start)) (by omega)
    have h₁ := hc.atStart.forall_start_iff (P := fun x => ¬ (end_ < x ∧ x < start)) (by omega)
    refine Iff.trans (forall₂_congr fun a _ => ?_) (h₂₁.trans h₁)
    simp only [decide_eq_true_eq, Bool.not_eq_true', decide_eq_false_iff_not]
    omega
  rw [← hstarts, ← hpoints]
  unfold IntervalVector.remove
  simp only [hc.first, hc.second, Option.bind_eq_bind, Option.bind_some, Option.ite_none_right_eq_some, exists_and_left]
  exact and_iff_left ⟨_, rfl⟩

/-- A visit goes to the intervals that end where the range begins or later, and begin where it ends or before. -/
theorem Cut.forEach_eq (hc : Cut v start end_ v₁ v₂) (h : v₂.Wf) (hle : start ≤ end_) :
    v.forEach start end_ =
      some ((v₂.values.filter fun a => decide (start ≤ a.end_) && decide (a.start ≤ end_)).flatMap (·.items), v₂) := by
  obtain ⟨hpoints, -, hvalues⟩ := h.between (p := fun a => decide (a.end_ < start)) (q := fun a => !decide (end_ < a.start))
    (fun a b ha hab hb hlt => by simp only [decide_eq_true_eq] at hlt ⊢; omega)
    (fun a b ha hab hb hlt => by simp only [Bool.not_eq_true', decide_eq_false_iff_not] at hlt ⊢; omega)
    (fun a ha hlt => by simp only [Bool.not_eq_true', decide_eq_false_iff_not, decide_eq_true_eq] at hlt ⊢; omega)
  have hfilter : (fun a : IntervalValue T => !decide (a.end_ < start) && !decide (end_ < a.start)) =
      fun a => decide (start ≤ a.end_) && decide (a.start ≤ end_) := by
    funext a
    simp [← decide_not]
  unfold forEach
  simp only [hc.first, hc.second, Option.bind_eq_bind, Option.bind_some, if_pos hpoints, hvalues, hfilter]

/-- A split at a value that no interval has inside changes nothing. -/
theorem Splits.eq_of_not_across {value : Nat} (hs : Splits value v v')
    (h : ∀ a ∈ v.values, ¬ (a.start < value ∧ value < a.end_)) : v' = v := by
  cases hs with
  | unchanged hv _ => exact hv
  | split before a after hv hlow hhigh _ => exact absurd ⟨hlow, hhigh⟩ (h a (by simp [hv]))

/-- What is visited and what is left when an interval is taken out that no other interval begins behind. -/
theorem Wf.cutOut (h : v.Wf) (ha : a ∈ v.values) (hspare : ∀ b ∈ v.values, b.start ≠ a.end_ ∧ (b.end_ = a.start → b.items = [])) :
    ∃ visited v', v.forEach a.start a.end_ = some (visited, v) ∧ (∀ t, t ∈ visited ↔ t ∈ a.items) ∧
      v.remove a.start a.end_ = some v' ∧ v'.Wf ∧ ∀ b, b ∈ v'.values ↔ b ∈ v.values ∧ b ≠ a := by
  have hlt := h.nonempty a ha
  obtain ⟨v₁, v₂, hcut, h₁, h₂⟩ := h.cut a.start a.end_
  have hacross : ∀ b ∈ v.values, ¬ (b.start < a.start ∧ a.start < b.end_) ∧ ¬ (b.start < a.end_ ∧ a.end_ < b.end_) := by
    intro b hb
    by_cases hba : b = a
    · subst hba
      omega
    · have := h.apart hb ha hba
      omega
  obtain rfl := hcut.atStart.eq_of_not_across fun b hb => (hacross b hb).1
  obtain rfl := hcut.atEnd.eq_of_not_across fun b hb => (hacross b hb).2
  refine ⟨_, _, hcut.forEach_eq h (Nat.le_of_lt hlt), fun t => ?_, hcut.remove_eq h (Nat.le_of_lt hlt),
    h.remove (hcut.remove_eq h (Nat.le_of_lt hlt)), fun b => ?_⟩
  · simp only [List.mem_flatMap, List.mem_filter, Bool.and_eq_true, decide_eq_true_eq]
    constructor
    · rintro ⟨b, ⟨hb, hend, hstart⟩, ht⟩
      by_cases hba : b = a
      · exact hba ▸ ht
      · -- another interval that is visited touches this one on the left, and has no item
        have hspare := hspare b hb
        have := h.apart hb ha hba
        rw [hspare.2 (by omega)] at ht
        cases ht
    · exact fun ht => ⟨a, ⟨ha, Nat.le_of_lt hlt, Nat.le_of_lt hlt⟩, ht⟩
  · simp only [List.mem_filter, Bool.or_eq_true, decide_eq_true_eq]
    refine and_congr_right fun hb => ⟨?_, fun hba => ?_⟩
    · rintro hout rfl
      omega
    · have := (hspare b hb).1
      have := h.apart hb ha hba
      have := h.nonempty b hb
      omega

end IntervalVector

end X64Emulator
