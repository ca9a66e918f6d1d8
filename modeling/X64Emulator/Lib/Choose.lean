import Mathlib.Data.List.Basic

/-!
# The first elements that match

A loop goes through a list and takes the first `n` elements that match a predicate. `first` are the elements it takes, and
`without` is the list it leaves.
-/

namespace Choose

variable {α : Type*} (p q : α → Bool)

/-- The first `n` elements that match, or all when there are fewer. -/
def first : Nat → List α → List α
  | 0, _ => []
  | _ + 1, [] => []
  | n + 1, a :: l => if p a then a :: first n l else first (n + 1) l

/-- The list without the first `n` elements that match. -/
def without : Nat → List α → List α
  | 0, l => l
  | _ + 1, [] => []
  | n + 1, a :: l => if p a then without n l else a :: without (n + 1) l

variable {p q} {n : Nat} {l : List α} {a : α}

@[simp]
theorem first_zero : first p 0 l = [] := by
  cases l <;> rfl

@[simp]
theorem first_nil : first p n [] = [] := by
  cases n <;> rfl

@[simp]
theorem without_zero : without p 0 l = l := by
  cases l <;> rfl

@[simp]
theorem without_nil : without p n [] = [] := by
  cases n <;> rfl

theorem first_cons_pos (h : p a = true) : first p (n + 1) (a :: l) = a :: first p n l := if_pos h

theorem first_cons_neg (h : ¬ p a = true) : first p n (a :: l) = first p n l := by
  cases n with
  | zero => rw [first_zero, first_zero]
  | succ n => exact if_neg h

theorem without_cons_pos (h : p a = true) : without p (n + 1) (a :: l) = without p n l := if_pos h

theorem without_cons_neg (h : ¬ p a = true) : without p n (a :: l) = a :: without p n l := by
  cases n with
  | zero => rw [without_zero, without_zero]
  | succ n => exact if_neg h

/-- What is taken and what is left are the list. -/
theorem first_append_without (p : α → Bool) (n : Nat) (l : List α) : (first p n l ++ without p n l).Perm l := by
  induction l generalizing n with
  | nil => rw [first_nil, without_nil, List.append_nil]
  | cons a l ih =>
    cases n with
    | zero => rw [first_zero, without_zero, List.nil_append]
    | succ n =>
      by_cases h : p a = true
      · rw [first_cons_pos h, without_cons_pos h, List.cons_append]
        exact (ih n).cons a
      · rw [first_cons_neg h, without_cons_neg h]
        exact List.perm_middle.trans ((ih (n + 1)).cons a)

theorem first_sublist (p : α → Bool) (n : Nat) (l : List α) : (first p n l).Sublist l := by
  induction l generalizing n with
  | nil => rw [first_nil]
  | cons a l ih =>
    cases n with
    | zero => rw [first_zero]; exact List.nil_sublist _
    | succ n =>
      by_cases h : p a = true
      · rw [first_cons_pos h]; exact (ih n).cons_cons a
      · rw [first_cons_neg h]; exact (ih (n + 1)).cons a

theorem without_sublist (p : α → Bool) (n : Nat) (l : List α) : (without p n l).Sublist l := by
  induction l generalizing n with
  | nil => rw [without_nil]
  | cons a l ih =>
    cases n with
    | zero => rw [without_zero]
    | succ n =>
      by_cases h : p a = true
      · rw [without_cons_pos h]; exact (ih n).cons a
      · rw [without_cons_neg h]; exact (ih (n + 1)).cons_cons a

theorem length_first (p : α → Bool) (n : Nat) (l : List α) : (first p n l).length = min n (l.countP p) := by
  induction l generalizing n with
  | nil => rw [first_nil, List.countP_nil, Nat.min_zero, List.length_nil]
  | cons a l ih =>
    cases n with
    | zero => rw [first_zero, Nat.zero_min, List.length_nil]
    | succ n =>
      by_cases h : p a = true
      · rw [first_cons_pos h, List.countP_cons_of_pos h, List.length_cons, ih, Nat.add_min_add_right]
      · rw [first_cons_neg h, List.countP_cons_of_neg h, ih]

theorem first_matches (h : a ∈ first p n l) : p a = true := by
  induction l generalizing n with
  | nil => rw [first_nil] at h; cases h
  | cons b l ih =>
    cases n with
    | zero => rw [first_zero] at h; cases h
    | succ n =>
      by_cases hb : p b = true
      · rw [first_cons_pos hb] at h
        rcases List.mem_cons.1 h with rfl | h
        · exact hb
        · exact ih h
      · rw [first_cons_neg hb] at h
        exact ih h

/-- Two predicates that agree on the list choose the same elements. -/
theorem first_congr (h : ∀ a ∈ l, p a = q a) : first p n l = first q n l := by
  induction l generalizing n with
  | nil => rw [first_nil, first_nil]
  | cons b l ih =>
    rw [List.forall_mem_cons] at h
    cases n with
    | zero => rw [first_zero, first_zero]
    | succ n => rw [first, first, h.1, ih h.2, ih h.2]

theorem without_congr (h : ∀ a ∈ l, p a = q a) : without p n l = without q n l := by
  induction l generalizing n with
  | nil => rw [without_nil, without_nil]
  | cons b l ih =>
    rw [List.forall_mem_cons] at h
    cases n with
    | zero => rw [without_zero, without_zero]
    | succ n => rw [without, without, h.1, ih h.2, ih h.2]

end Choose
