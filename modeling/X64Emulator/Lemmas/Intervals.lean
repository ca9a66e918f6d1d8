import X64Emulator.IntervalVector
import X64Emulator.Lib.Ranges

/-!
# Operations on well-formed vectors of intervals

In a well-formed vector the intervals are not empty, and each ends before the next begins. There the searches find what they look
for, and each operation changes the list of intervals in one place.
-/

namespace X64Emulator

open BinarySearch

variable {T : Type}

namespace IntervalVector

variable {v v' : IntervalVector T} {a x : IntervalValue T} {before after : List (IntervalValue T)} {value start end_ : Nat}

/-- The value is in the interval. -/
def Covers (a : IntervalValue T) (value : Nat) : Prop := a.start ≤ value ∧ value < a.end_

/-- The intervals are not empty, and each ends before the next begins. -/
structure Wf (v : IntervalVector T) : Prop where
  ordered : Ranges.Ordered IntervalValue.start IntervalValue.end_ v.values
  nonempty : ∀ a ∈ v.values, a.start < a.end_

/-- The searches look for the end of a property that an interval has whenever a later one has it. -/
theorem Wf.pairwise (h : v.Wf) {p : IntervalValue T → Bool}
    (hp : ∀ a b : IntervalValue T, a.start < a.end_ → a.end_ ≤ b.start → b.start < b.end_ → p b = true → p a = true) :
    v.values.Pairwise fun a b => p b = true → p a = true :=
  List.Pairwise.imp_of_mem (fun ha hb hab hpb => hp _ _ (h.nonempty _ ha) hab (h.nonempty _ hb) hpb) h.ordered

/-- A property that an interval has whenever a later one has it is had by the first intervals, up to where a search ends. -/
theorem Wf.partition (h : v.Wf) {p : IntervalValue T → Bool}
    (hp : ∀ a b : IntervalValue T, a.start < a.end_ → a.end_ ≤ b.start → b.start < b.end_ → p b = true → p a = true) :
    ∃ before after, v.values = before ++ after ∧ (∀ a ∈ before, p a = true) ∧ (∀ a ∈ after, p a = false) ∧
      partitionPoint p v.values = before.length :=
  exists_append_of_pairwise (h.pairwise hp)

/-- What `find` finds: the first interval that does not end before the value, if there is one. -/
theorem Wf.find_cases (h : v.Wf) (value : Nat) :
    (v.find value = none ∧ ∀ a ∈ v.values, a.end_ < value) ∨
    ∃ before a after, v.values = before ++ a :: after ∧ v.findPosition value = before.length ∧ v.find value = some a ∧
      (∀ b ∈ before, b.end_ < value) ∧ value ≤ a.end_ := by
  obtain ⟨before, after, hvalues, hbefore, hafter, hpoint⟩ := h.partition (p := fun a => decide (a.end_ < value)) (by
    intro a b ha hab hb hlt
    simp only [decide_eq_true_eq] at hlt ⊢
    omega)
  simp only [decide_eq_true_eq] at hbefore
  have hfind : v.find value = (before ++ after)[before.length]? := by
    unfold find findPosition
    rw [hpoint, hvalues]
  cases after with
  | nil =>
    refine .inl ⟨by simpa using hfind, ?_⟩
    rw [hvalues, List.append_nil]
    exact hbefore
  | cons a after =>
    refine .inr ⟨before, a, after, hvalues, hpoint, by simpa using hfind, hbefore, ?_⟩
    simpa using hafter a List.mem_cons_self

theorem insertIdx_length_append (before after : List (IntervalValue T)) (x : IntervalValue T) :
    (before ++ after).insertIdx before.length x = before ++ x :: after := by
  induction before with
  | nil => rfl
  | cons a before ih => simp [ih]

/-- An interval joins the others between those that begin before it and those that begin where it ends or later. -/
theorem insert_between (hvalues : v.values = before ++ after) (hbefore : ∀ a ∈ before, a.start < x.start)
    (hafter : ∀ a ∈ after, x.start ≤ a.start ∧ x.end_ ≤ a.start) : v.insert x = some ⟨before ++ x :: after⟩ := by
  have hpoint : partitionPoint (fun a => decide (a.start < x.start)) v.values = before.length := by
    rw [hvalues]
    refine partitionPoint_append (fun a ha => decide_eq_true (hbefore a ha)) fun a ha => ?_
    have := (hafter a ha).1
    simpa using this
  unfold insert
  simp only [hpoint]
  rw [hvalues, insertIdx_length_append]
  cases after with
  | nil => simp
  | cons a after =>
    have hend := (hafter a List.mem_cons_self).2
    simp [hend]

/-- An interval that was put among the others was put between those before it and those behind it. -/
theorem Wf.insert_eq_some (h : v.Wf) (hv' : v.insert x = some v') :
    ∃ before after, v.values = before ++ after ∧ (∀ a ∈ before, a.start < x.start) ∧ (∀ a ∈ after, x.end_ ≤ a.start) ∧
      v'.values = before ++ x :: after := by
  obtain ⟨before, after, hvalues, hbefore, hafter, hpoint⟩ := h.partition (p := fun a => decide (a.start < x.start)) (by
    intro a b ha hab hb hlt
    simp only [decide_eq_true_eq] at hlt ⊢
    omega)
  simp only [decide_eq_true_eq, decide_eq_false_iff_not] at hbefore hafter
  unfold insert at hv'
  simp only [hpoint] at hv'
  rw [hvalues, insertIdx_length_append] at hv'
  cases after with
  | nil =>
    simp only [List.append_nil, List.getElem?_length, Option.some.injEq] at hv'
    subst hv'
    exact ⟨before, [], hvalues, hbefore, by simp, rfl⟩
  | cons next after =>
    simp only [List.getElem?_append_right, Nat.le_refl, Nat.sub_self, List.getElem?_cons_zero,
      Option.ite_none_right_eq_some, Option.some.injEq] at hv'
    obtain ⟨hend, rfl⟩ := hv'
    refine ⟨before, next :: after, hvalues, hbefore, List.forall_mem_cons.2 ⟨hend, fun a ha => ?_⟩, rfl⟩
    have hordered := h.ordered
    unfold Ranges.Ordered at hordered
    rw [hvalues, List.pairwise_append, List.pairwise_cons] at hordered
    have := hordered.2.1.1 a ha
    have := h.nonempty next (by rw [hvalues]; simp)
    omega

theorem Wf.append_cons (h : v.Wf) (hvalues : v.values = before ++ a :: after) :
    a.start < a.end_ ∧ (∀ b ∈ before, b.end_ ≤ a.start ∧ b.start < b.end_) ∧ ∀ b ∈ after, a.end_ ≤ b.start ∧ b.start < b.end_ := by
  have hordered := h.ordered
  have hnonempty := h.nonempty
  unfold Ranges.Ordered at hordered
  rw [hvalues] at hordered hnonempty
  obtain ⟨-, hright, hacross⟩ := List.pairwise_append.1 hordered
  obtain ⟨hafter, -⟩ := List.pairwise_cons.1 hright
  refine ⟨hnonempty a (by simp), fun b hb => ⟨hacross b hb a List.mem_cons_self, hnonempty b (by simp [hb])⟩, fun b hb =>
    ⟨hafter b hb, hnonempty b (by simp [hb])⟩⟩

/-- What is reserved is not empty, and no interval that begins before it reaches into it. No interval begins between the bounds of
a removal whose end comes before its start. -/
def KeepsApart (v : IntervalVector T) : IntervalAction T → Prop
  | .reserve start end_ => start < end_ ∧ ∀ a ∈ v.values, a.start < start → a.end_ ≤ start
  | .remove start end_ => ∀ a ∈ v.values, ¬ (end_ < a.start ∧ a.start < start)
  | .split _ | .add _ _ => True

instance (v : IntervalVector T) : DecidablePred v.KeepsApart
  | .reserve _ _ => inferInstanceAs (Decidable (_ ∧ ∀ a ∈ _, _ → _))
  | .remove _ _ => inferInstanceAs (Decidable (∀ a ∈ _, ¬ _))
  | .split _ | .add _ _ => inferInstanceAs (Decidable True)

theorem Wf.reserve (h : v.Wf) {start end_ : Nat} (hapart : v.KeepsApart (.reserve start end_))
    (hv' : v.reserve start end_ = some v') : v'.Wf := by
  obtain ⟨hne, hreach⟩ := hapart
  obtain ⟨before, after, hvalues, hbefore, hafter, hvalues'⟩ := h.insert_eq_some hv'
  have hordered := h.ordered
  have hnonempty := h.nonempty
  unfold Ranges.Ordered at hordered
  rw [hvalues] at hordered hnonempty hreach
  rw [List.pairwise_append] at hordered
  obtain ⟨hleft, hright, hacross⟩ := hordered
  refine ⟨?_, ?_⟩
  · unfold Ranges.Ordered
    rw [hvalues', List.pairwise_append, List.pairwise_cons]
    refine ⟨hleft, ⟨hafter, hright⟩, fun a ha b hb => ?_⟩
    rcases List.mem_cons.1 hb with rfl | hb
    · exact hreach a (List.mem_append_left _ ha) (hbefore a ha)
    · exact hacross a ha b hb
  · intro a ha
    rw [hvalues', List.mem_append, List.mem_cons] at ha
    rcases ha with ha | rfl | ha
    · exact hnonempty a (List.mem_append_left _ ha)
    · exact hne
    · exact hnonempty a (List.mem_append_right _ ha)

/-- Where `add` puts an item: the interval that `find` finds, with the other intervals left as they are. -/
theorem Wf.add_eq_some (h : v.Wf) {item : T} (hv' : v.add value item = some v') :
    ∃ before a after, v.values = before ++ a :: after ∧ v.find value = some a ∧
      v'.values = before ++ { a with items := a.items ++ [item] } :: after := by
  rcases h.find_cases value with ⟨hfind, -⟩ | ⟨before, a, after, hvalues, hposition, hfind, -, -⟩
  · unfold IntervalVector.add at hv'
    rw [hfind] at hv'
    cases hv'
  · unfold IntervalVector.add at hv'
    rw [hfind] at hv'
    simp only [hposition, hvalues, Option.some.injEq] at hv'
    subst hv'
    refine ⟨before, a, after, hvalues, hfind, ?_⟩
    simp

theorem Wf.add (h : v.Wf) {item : T} (hv' : v.add value item = some v') : v'.Wf := by
  obtain ⟨before, a, after, hvalues, -, hvalues'⟩ := h.add_eq_some hv'
  obtain ⟨hne, hlow, hhigh⟩ := h.append_cons hvalues
  have hordered := h.ordered
  unfold Ranges.Ordered at hordered
  rw [hvalues] at hordered
  refine ⟨?_, ?_⟩
  · unfold Ranges.Ordered
    rw [hvalues']
    simpa only [List.pairwise_append, List.pairwise_cons, List.forall_mem_cons] using hordered
  · intro b hb
    rw [hvalues', List.mem_append, List.mem_cons] at hb
    rcases hb with hb | rfl | hb
    · exact (hlow b hb).2
    · exact hne
    · exact (hhigh b hb).2

theorem take_append_drop_sublist {i j : Nat} (hij : i ≤ j) (l : List (IntervalValue T)) :
    (l.take i ++ l.drop j).Sublist l := by
  have hdrop : (l.drop j).Sublist (l.drop i) := by
    obtain ⟨k, rfl⟩ := Nat.exists_eq_add_of_le hij
    rw [← List.drop_drop]
    exact List.drop_sublist _ _
  have happend := hdrop.append_left (l.take i)
  rwa [List.take_append_drop] at happend

end IntervalVector

variable [Item T]

namespace IntervalValue

/-- The left part of an interval. -/
def left (a : IntervalValue T) (value : Nat) : IntervalValue T :=
  ⟨a.start, value, a.items.filter fun item => Item.end_ item ≤ value⟩

/-- The right part of an interval. -/
def right (a : IntervalValue T) (value : Nat) : IntervalValue T :=
  ⟨value, a.end_, a.items.filter fun item => !decide (Item.end_ item ≤ value)⟩

theorem split_eq (a : IntervalValue T) (value : Nat) :
    a.split value = if a.start < value ∧ value < a.end_ then some (a.left value, a.right value) else none := by
  unfold split
  split <;> split <;> first | rfl | omega

end IntervalValue

namespace IntervalVector

variable {v v' : IntervalVector T} {a x : IntervalValue T} {before after : List (IntervalValue T)} {value start end_ : Nat}

/-- An interval is left as it is, or split in two in its place. -/
inductive Splits (value : Nat) (v v' : IntervalVector T) : Prop where
  | unchanged (hv : v' = v) (h : ∀ a ∈ v.values, ¬ (a.start < value ∧ value < a.end_))
  | split (before : List (IntervalValue T)) (a : IntervalValue T) (after : List (IntervalValue T))
      (hv : v.values = before ++ a :: after) (hlow : a.start < value) (hhigh : value < a.end_)
      (hv' : v'.values = before ++ a.left value :: a.right value :: after)

theorem Wf.split_spec (h : v.Wf) (value : Nat) : ∃ v', v.split value = some v' ∧ Splits value v v' := by
  rcases h.find_cases value with ⟨hfind, hall⟩ | ⟨before, a, after, hvalues, hposition, hfind, hbefore, hle⟩
  · refine ⟨v, by unfold split; rw [hfind], .unchanged rfl fun a ha => ?_⟩
    have := hall a ha
    omega
  · obtain ⟨hne, hlow, hhigh⟩ := h.append_cons hvalues
    unfold split
    simp only [hfind, IntervalValue.split_eq]
    by_cases hinside : a.start < value ∧ value < a.end_
    · rw [if_pos hinside]
      have hset : v.values.set (v.findPosition value) (a.left value) = (before ++ [a.left value]) ++ after := by
        rw [hposition, hvalues, List.set_append_right _ _ (Nat.le_refl _), Nat.sub_self, List.set_cons_zero,
          List.append_assoc]
        rfl
      have hinsert : insert ⟨v.values.set (v.findPosition value) (a.left value)⟩ (a.right value) =
          some ⟨(before ++ [a.left value]) ++ a.right value :: after⟩ := by
        refine insert_between hset (fun b hb => ?_) fun b hb => ?_
        · rcases List.mem_append.1 hb with hb | hb
          · have := hbefore b hb
            have := hlow b hb
            show b.start < value
            omega
          · obtain rfl := List.mem_singleton.1 hb
            exact hinside.1
        · have hb' := hhigh b hb
          show value ≤ b.start ∧ a.end_ ≤ b.start
          omega
      refine ⟨_, (if_pos hinside.2).trans hinsert, .split before a after hvalues hinside.1 hinside.2 ?_⟩
      simp
    · rw [if_neg hinside]
      refine ⟨v, rfl, .unchanged rfl fun b hb => ?_⟩
      rw [hvalues, List.mem_append, List.mem_cons] at hb
      rcases hb with hb | rfl | hb
      · have := hbefore b hb
        omega
      · exact hinside
      · have hb' := hhigh b hb
        omega

theorem Splits.wf (hs : Splits value v v') (h : v.Wf) : v'.Wf := by
  cases hs with
  | unchanged hv _ => exact hv ▸ h
  | split before a after hv hlow hhigh hv' =>
    obtain ⟨hne, hbelow, habove⟩ := h.append_cons hv
    have hordered := h.ordered
    unfold Ranges.Ordered at hordered
    rw [hv, List.pairwise_append, List.pairwise_cons] at hordered
    obtain ⟨hbefore, ⟨-, hafter⟩, hacross⟩ := hordered
    refine ⟨?_, ?_⟩
    · unfold Ranges.Ordered
      rw [hv', List.pairwise_append, List.pairwise_cons, List.pairwise_cons]
      refine ⟨hbefore, ⟨List.forall_mem_cons.2 ⟨Nat.le_refl _, fun b hb => ?_⟩, fun b hb => (habove b hb).1, hafter⟩,
        fun b hb c hc => ?_⟩
      · have := (habove b hb).1
        show value ≤ b.start
        omega
      · have hb' := (hbelow b hb).1
        rcases List.mem_cons.1 hc with rfl | hc
        · exact hb'
        · rcases List.mem_cons.1 hc with rfl | hc
          · show b.end_ ≤ value
            omega
          · exact hacross b hb c (List.mem_cons_of_mem _ hc)
    · intro b hb
      rw [hv'] at hb
      simp only [List.mem_append, List.mem_cons] at hb
      rcases hb with hb | rfl | rfl | hb
      · exact (hbelow b hb).2
      · exact hlow
      · exact hhigh
      · exact (habove b hb).2

theorem Wf.remove (h : v.Wf) {start end_ : Nat} (hv' : v.remove start end_ = some v') : v'.Wf := by
  obtain ⟨v₁, hv₁, hs₁⟩ := h.split_spec start
  have h₁ := hs₁.wf h
  obtain ⟨v₂, hv₂, hs₂⟩ := h₁.split_spec end_
  have h₂ := hs₂.wf h₁
  unfold IntervalVector.remove at hv'
  simp only [hv₁, hv₂, Option.bind_eq_bind, Option.bind_some, Option.ite_none_right_eq_some, Option.some.injEq] at hv'
  obtain ⟨hle, rfl⟩ := hv'
  have hsublist := take_append_drop_sublist hle v₂.values
  exact ⟨h₂.ordered.sublist hsublist, fun a ha => h₂.nonempty a (hsublist.subset ha)⟩

theorem Wf.step {action : IntervalAction T} (h : v.Wf) (hapart : v.KeepsApart action) (hv' : v.step action = some v') :
    v'.Wf := by
  cases action with
  | reserve start end_ => exact h.reserve hapart hv'
  | split value =>
    obtain ⟨v'', hv'', hs⟩ := h.split_spec value
    obtain rfl := Option.some.inj (hv''.symm.trans hv')
    exact hs.wf h
  | add value item => exact h.add hv'
  | remove start end_ => exact h.remove hv'

theorem reachable_wf (h : (machine T).ReachableUnder KeepsApart v) : v.Wf := by
  refine h.invariant Wf ?_ ?_
  · rintro _ rfl
    exact ⟨.nil, by simp⟩
  · intro s action s' _ hwf hapart hs
    exact hwf.step hapart hs

end IntervalVector

end X64Emulator
