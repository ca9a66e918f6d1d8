import Mathlib.Data.List.Perm.Subperm
import Mathlib.Data.List.Sort
import Mathlib.Data.Finset.Dedup
import Mathlib.Data.List.Induction
import Mathlib.Tactic.Common

/-!
# Lists from which elements are taken away

What is left of a list is described by the positions of the elements that stay, in order. A position in the list, or the one
past its last element, is renumbered to that of the first element behind it that stays.
-/

namespace Positions

variable {α : Type*} {l l₁ l₂ : List α} {kept k₁ k₂ : List Nat} {n n₁ n₂ : Nat}

/-- The elements of a list at the given positions. -/
def pick (l : List α) (kept : List Nat) : List α := kept.filterMap fun k => l[k]?

/-- How many of the kept positions lie before `a`. A position past the end of a list of length `n` keeps its distance. -/
def renumber (kept : List Nat) (n a : Nat) : Nat := kept.countP (· < a) + (a - n)

/-- Positions of a list of length `n`, each at most once and in order. -/
structure Kept (n : Nat) (kept : List Nat) : Prop where
  sorted : kept.Pairwise (· < ·)
  inside : ∀ k ∈ kept, k < n

theorem kept_range (n : Nat) : Kept n (List.range n) := ⟨List.pairwise_lt_range, fun _ hk => List.mem_range.1 hk⟩

theorem Kept.sublist (h : Kept n k₁) (hs : k₂.Sublist k₁) : Kept n k₂ :=
  ⟨h.sorted.sublist hs, fun k hk => h.inside k (hs.subset hk)⟩

/-- The positions that are left when others are taken away. -/
theorem kept_without (n : Nat) (positions : List Nat) : Kept n ((List.range n).filter (· ∉ positions)) :=
  (kept_range n).sublist List.filter_sublist

theorem length_without {positions : List Nat} (hd : positions.Nodup) (hin : ∀ p ∈ positions, p < n) :
    ((List.range n).filter (· ∉ positions)).length + positions.length = n := by
  have htaken : ((List.range n).filter (· ∈ positions)).length = positions.length := by
    refine (List.perm_of_nodup_nodup_toFinset_eq (List.nodup_range.filter _) hd ?_).length_eq
    ext k
    simp only [List.mem_toFinset, List.mem_filter, List.mem_range, decide_eq_true_eq]
    exact ⟨fun hk => hk.2, fun hk => ⟨hin k hk, hk⟩⟩
  have hsplit := (List.range n).length_eq_length_filter_add (fun k => decide (k ∈ positions))
  simp only [List.length_range, htaken, ← decide_not] at hsplit
  omega

theorem Kept.nodup (h : Kept n kept) : kept.Nodup := h.sorted.imp fun hlt => Nat.ne_of_lt hlt

theorem Kept.append (h₁ : Kept n₁ k₁) (h₂ : Kept n₂ k₂) : Kept (n₁ + n₂) (k₁ ++ k₂.map (n₁ + ·)) := by
  refine ⟨List.pairwise_append.2 ⟨h₁.sorted, ?_, ?_⟩, ?_⟩
  · rw [List.pairwise_map]
    exact h₂.sorted.imp fun hlt => Nat.add_lt_add_left hlt n₁
  · intro a ha b hb
    obtain ⟨c, -, rfl⟩ := List.mem_map.1 hb
    have := h₁.inside a ha
    omega
  · intro k hk
    rcases List.mem_append.1 hk with hk | hk
    · have := h₁.inside k hk
      omega
    · obtain ⟨c, hc, rfl⟩ := List.mem_map.1 hk
      have := h₂.inside c hc
      omega

/-! ## The elements that stay -/

theorem pick_cons_of_lt {k : Nat} (h : k < l.length) : pick l (k :: kept) = l[k] :: pick l kept := by
  simp [pick, h]

@[simp] theorem pick_nil : pick l [] = [] := rfl

theorem length_pick (h : ∀ k ∈ kept, k < l.length) : (pick l kept).length = kept.length := by
  induction kept with
  | nil => rfl
  | cons k kept ih =>
    rw [pick_cons_of_lt (h k List.mem_cons_self), List.length_cons, List.length_cons,
      ih fun q hq => h q (List.mem_cons_of_mem _ hq)]

theorem getElem?_pick (h : ∀ k ∈ kept, k < l.length) (q : Nat) : (pick l kept)[q]? = (kept[q]?).bind fun k => l[k]? := by
  induction kept generalizing q with
  | nil => simp
  | cons k kept ih =>
    have hk := h k List.mem_cons_self
    rw [pick_cons_of_lt hk]
    cases q with
    | zero => simp [hk]
    | succ q => simpa using ih (fun r hr => h r (List.mem_cons_of_mem _ hr)) q

theorem pick_range : pick l (List.range l.length) = l := by
  refine List.ext_getElem? fun q => ?_
  rw [getElem?_pick fun k hk => List.mem_range.1 hk]
  by_cases hq : q < l.length
  · simp [hq]
  · simp [hq]

theorem pick_append : pick l (k₁ ++ k₂) = pick l k₁ ++ pick l k₂ := List.filterMap_append

/-- Picking from what has been picked picks some of the same positions. -/
theorem pick_pick (h₁ : ∀ k ∈ k₁, k < l.length) (h₂ : ∀ q ∈ k₂, q < k₁.length) :
    pick (pick l k₁) k₂ = pick l (pick k₁ k₂) := by
  induction k₂ with
  | nil => rfl
  | cons q k₂ ih =>
    have hq := h₂ q List.mem_cons_self
    have hq' : q < (pick l k₁).length := by rwa [length_pick h₁]
    have hget : (pick l k₁)[q]? = l[k₁[q]]? := by rw [getElem?_pick h₁]; simp [hq]
    have hk : k₁[q] < l.length := h₁ _ (List.getElem_mem hq)
    rw [List.getElem?_eq_getElem hq', List.getElem?_eq_getElem hk, Option.some.injEq] at hget
    rw [pick_cons_of_lt hq', pick_cons_of_lt hq, pick_cons_of_lt hk, hget,
      ih fun r hr => h₂ r (List.mem_cons_of_mem _ hr)]

theorem pick_eraseIdx (h : ∀ k ∈ kept, k < l.length) (p : Nat) : pick l (kept.eraseIdx p) = (pick l kept).eraseIdx p := by
  induction kept generalizing p with
  | nil => rfl
  | cons k kept ih =>
    have hk := h k List.mem_cons_self
    rw [pick_cons_of_lt hk]
    cases p with
    | zero => rfl
    | succ p => rw [List.eraseIdx_cons_succ, List.eraseIdx_cons_succ, pick_cons_of_lt hk,
        ih fun r hr => h r (List.mem_cons_of_mem _ hr)]

/-- A choice from each of two lists is one from the two behind each other. -/
theorem pick_append_left_right (h : ∀ k ∈ k₁, k < l₁.length) :
    pick (l₁ ++ l₂) (k₁ ++ k₂.map (l₁.length + ·)) = pick l₁ k₁ ++ pick l₂ k₂ := by
  rw [pick_append]
  congr 1
  · refine List.filterMap_congr fun k hk => ?_
    rw [List.getElem?_append_left (h k hk)]
  · rw [pick, List.filterMap_map]
    refine List.filterMap_congr fun k _ => ?_
    rw [Function.comp_apply, List.getElem?_append_right (Nat.le_add_right _ _), Nat.add_sub_cancel_left]

theorem Kept.pick (h₁ : Kept n k₁) (h₂ : Kept k₁.length k₂) : Kept n (Positions.pick k₁ k₂) := by
  have hsub : (Positions.pick k₁ k₂).Pairwise (· < ·) := by
    rw [Positions.pick, List.pairwise_filterMap]
    refine h₂.sorted.imp_of_mem ?_
    intro p q hp hq hlt a ha b hb
    obtain ⟨hp', rfl⟩ := List.getElem?_eq_some_iff.1 ha
    obtain ⟨hq', rfl⟩ := List.getElem?_eq_some_iff.1 hb
    exact List.pairwise_iff_getElem.1 h₁.sorted p q hp' hq' hlt
  refine ⟨hsub, fun k hk => ?_⟩
  obtain ⟨q, -, hq⟩ := List.mem_filterMap.1 hk
  exact h₁.inside k (List.mem_of_getElem? hq)

/-- Going through what is left of a list ends in the same state as going through all of it, when each step that is left out
changes nothing where it stands. -/
theorem foldl_pick_without {σ : Type*} {step : σ → α → σ} {s : σ} {positions : List Nat}
    (h : ∀ before x behind, l = before ++ x :: behind → before.length ∈ positions →
      step (before.foldl step s) x = before.foldl step s) :
    (pick l ((List.range l.length).filter (· ∉ positions))).foldl step s = l.foldl step s := by
  induction l using List.reverseRecOn with
  | nil => rfl
  | append_singleton l x ih =>
    have hrest := ih fun before y behind heq hmem => h before y (behind ++ [x]) (by simp [heq]) hmem
    have hleft : pick (l ++ [x]) ((List.range l.length).filter (· ∉ positions)) =
        pick l ((List.range l.length).filter (· ∉ positions)) := by
      refine List.filterMap_congr fun k hk => ?_
      rw [List.getElem?_append_left ((kept_without l.length positions).inside k hk)]
    rw [List.length_append, List.length_singleton, List.range_succ, List.filter_append, pick_append, hleft,
      List.foldl_append, hrest, List.foldl_append]
    by_cases hmem : l.length ∈ positions
    · rw [List.filter_cons_of_neg (by simpa using hmem)]
      exact (h l x [] rfl hmem).symm
    · rw [List.filter_cons_of_pos (by simpa using hmem), List.filter_nil]
      simp [pick]

/-! ## Where the other positions go -/

/-- In a list in order, the positions below `a` come first. -/
theorem lt_countP_iff (h : kept.Pairwise (· < ·)) {q k a : Nat} (hq : kept[q]? = some k) :
    q < kept.countP (· < a) ↔ k < a := by
  induction kept generalizing q with
  | nil => simp at hq
  | cons r kept ih =>
    obtain ⟨hr, hkept⟩ := List.pairwise_cons.1 h
    by_cases hra : r < a
    · rw [List.countP_cons_of_pos (by simpa using hra)]
      cases q with
      | zero =>
        obtain rfl : r = k := by simpa using hq
        simp [hra]
      | succ q =>
        rw [← ih hkept (by simpa using hq)]
        omega
    · have hnone : kept.countP (· < a) = 0 := by
        rw [List.countP_eq_zero]
        intro s hs
        have := hr s hs
        simp only [decide_eq_true_eq]
        omega
      rw [List.countP_cons_of_neg (by simpa using hra), hnone]
      have hk : r ≤ k := by
        rcases List.mem_cons.1 (List.mem_of_getElem? hq) with rfl | hk
        · exact Nat.le_refl _
        · exact Nat.le_of_lt (hr k hk)
      omega

theorem countP_lt_le (h : kept.Nodup) (a : Nat) : kept.countP (· < a) ≤ a := by
  rw [List.countP_eq_length_filter]
  have hsub : kept.filter (· < a) ⊆ List.range a := fun k hk => by simpa using (List.mem_filter.1 hk).2
  simpa using ((h.filter _).subperm hsub).length_le

theorem countP_range (n a : Nat) : (List.range n).countP (· < a) = min a n := by
  induction n with
  | zero => simp
  | succ n ih =>
    rw [List.range_succ, List.countP_append, ih, List.countP_singleton]
    by_cases h : n < a
    · simp only [h, decide_true, if_true]
      omega
    · simp only [h, decide_false, Bool.false_eq_true, if_false]
      omega

@[simp] theorem renumber_range (n a : Nat) : renumber (List.range n) n a = a := by
  rw [renumber, countP_range]
  omega

/-- What stands at the new number of a position is what stood at the first position behind it that is kept. -/
theorem getElem?_renumber (h : kept.Pairwise (· < ·)) {a : Nat} (ha : a ≤ n) :
    kept[renumber kept n a]? = kept.find? (a ≤ ·) := by
  rw [renumber, Nat.sub_eq_zero_of_le ha, Nat.add_zero]
  induction kept with
  | nil => rfl
  | cons r kept ih =>
    obtain ⟨hr, hkept⟩ := List.pairwise_cons.1 h
    by_cases hra : r < a
    · rw [List.countP_cons_of_pos (by simpa using hra), List.getElem?_cons_succ, ih hkept,
        List.find?_cons_of_neg (by simpa using hra)]
    · have hnone : kept.countP (· < a) = 0 := by
        rw [List.countP_eq_zero]
        intro s hs
        have := hr s hs
        simp only [decide_eq_true_eq]
        omega
      rw [List.countP_cons_of_neg (by simpa using hra), hnone, List.find?_cons_of_pos (by simpa using hra)]
      rfl

/-- Renumbering twice is renumbering by the choice from the choice. -/
theorem renumber_renumber (h₁ : Kept n k₁) (h₂ : Kept k₁.length k₂) (a : Nat) :
    renumber k₂ k₁.length (renumber k₁ n a) = renumber (pick k₁ k₂) n a := by
  have hle : k₁.countP (· < a) ≤ k₁.length := List.countP_le_length
  have hpast : k₁.countP (· < a) + (a - n) - k₁.length = a - n := by
    by_cases ha : a ≤ n
    · omega
    · have hall : k₁.countP (· < a) = k₁.length := by
        rw [List.countP_eq_length]
        intro k hk
        have := h₁.inside k hk
        simp only [decide_eq_true_eq]
        omega
      omega
  have hcount : k₂.countP (· < k₁.countP (· < a) + (a - n)) = (pick k₁ k₂).countP (· < a) := by
    rw [pick, List.countP_filterMap]
    refine List.countP_congr fun q hq => ?_
    have hlt := h₂.inside q hq
    have hget : k₁[q]? = some k₁[q] := List.getElem?_eq_getElem hlt
    have hmem := h₁.inside _ (List.getElem_mem hlt)
    have hiff := lt_countP_iff h₁.sorted hget (a := a)
    simp only [decide_eq_true_eq, hget, Option.map_some, Option.getD_some]
    omega
  rw [renumber, renumber, renumber, hpast, hcount]

theorem renumber_append_left (k₁ k₂ : List Nat) (n₂ : Nat) {a : Nat} (ha : a ≤ n₁) :
    renumber (k₁ ++ k₂.map (n₁ + ·)) (n₁ + n₂) a = renumber k₁ n₁ a := by
  have hnone : (k₂.map (n₁ + ·)).countP (· < a) = 0 := by
    rw [List.countP_map, List.countP_eq_zero]
    intro k _
    simp only [Function.comp_apply, decide_eq_true_eq]
    omega
  rw [renumber, renumber, List.countP_append, hnone]
  omega

theorem renumber_append_right (h₁ : Kept n₁ k₁) (n₂ : Nat) (k₂ : List Nat) (a : Nat) :
    renumber (k₁ ++ k₂.map (n₁ + ·)) (n₁ + n₂) (n₁ + a) = k₁.length + renumber k₂ n₂ a := by
  have hall : k₁.countP (· < n₁ + a) = k₁.length := by
    rw [List.countP_eq_length]
    intro k hk
    have := h₁.inside k hk
    simp only [decide_eq_true_eq]
    omega
  have hright : (k₂.map (n₁ + ·)).countP (· < n₁ + a) = k₂.countP (· < a) := by
    rw [List.countP_map]
    refine List.countP_congr fun k _ => ?_
    simp
  rw [renumber, renumber, List.countP_append, hall, hright]
  omega

/-- When all of the second list is kept, this also holds of positions past the end of the first. -/
theorem renumber_append_all (h₁ : Kept n₁ k₁) (n₂ a : Nat) :
    renumber (k₁ ++ (List.range n₂).map (n₁ + ·)) (n₁ + n₂) a = renumber k₁ n₁ a := by
  by_cases ha : a ≤ n₁
  · exact renumber_append_left k₁ _ n₂ ha
  · obtain ⟨b, rfl⟩ := Nat.exists_eq_add_of_le (Nat.le_of_not_le ha)
    have hall := renumber_append_right h₁ 0 [] b
    rw [List.map_nil, List.append_nil, Nat.add_zero] at hall
    rw [renumber_append_right h₁, hall, renumber_range]
    simp [renumber]

end Positions
