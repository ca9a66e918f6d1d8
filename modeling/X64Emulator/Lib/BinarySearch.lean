import Mathlib.Data.List.TakeWhile
import Mathlib.Tactic.Common

/-!
# Binary search

The search halves the part of a list in which the first element without a property is looked for, as `std::lower_bound` does. It
finds that element when no element with the property comes after it.
-/

namespace BinarySearch

variable {α : Type*} {p : α → Bool} {l : List α}

/-- The search in the `len` elements from `first` on, in as many turns as it takes. -/
def search (p : α → Bool) (l : List α) : Nat → Nat → Nat → Nat
  | 0, first, _ => first
  | turns + 1, first, len =>
    if len = 0 then first
    else
      match l[first + len / 2]? with
      | none => first
      | some a => if p a then search p l turns (first + len / 2 + 1) (len - len / 2 - 1) else search p l turns first (len / 2)

/-- The position of the first element without the property. -/
def partitionPoint (p : α → Bool) (l : List α) : Nat := search p l l.length 0 l.length

/-- The search ends where the elements with the property end, if it starts around there. -/
theorem search_append {a b : List α} (ha : ∀ x ∈ a, p x = true) (hb : ∀ x ∈ b, p x = false) {turns first len : Nat}
    (hturns : len ≤ turns) (hfirst : first ≤ a.length) (hlast : a.length ≤ first + len)
    (hlen : first + len ≤ (a ++ b).length) : search p (a ++ b) turns first len = a.length := by
  induction turns generalizing first len with
  | zero =>
    unfold search
    omega
  | succ turns ih =>
    unfold search
    split
    · omega
    · next hne =>
      have hmid : first + len / 2 < (a ++ b).length := by omega
      rw [List.getElem?_eq_getElem hmid]
      by_cases hlow : first + len / 2 < a.length
      · have hp : p (a ++ b)[first + len / 2] = true := by
          rw [List.getElem_append_left hlow]
          exact ha _ (List.getElem_mem hlow)
        simp only [hp, if_true]
        exact ih (by omega) (by omega) (by omega) (by omega)
      · have hp : p (a ++ b)[first + len / 2] = false := by
          rw [List.getElem_append_right (Nat.le_of_not_lt hlow)]
          exact hb _ (List.getElem_mem _)
        simp only [hp, Bool.false_eq_true, if_false]
        exact ih (by omega) hfirst (by omega) (by omega)

/-- The elements with the property come first: the search finds where they end. -/
theorem partitionPoint_append {a b : List α} (ha : ∀ x ∈ a, p x = true) (hb : ∀ x ∈ b, p x = false) :
    partitionPoint p (a ++ b) = a.length :=
  search_append ha hb (Nat.le_refl _) (Nat.zero_le _) (by simp) (by simp)

/-- A list in which an element after one without the property has not got it either is in two parts. -/
theorem exists_append_of_pairwise (h : l.Pairwise fun x y => p y = true → p x = true) :
    ∃ a b, l = a ++ b ∧ (∀ x ∈ a, p x = true) ∧ (∀ x ∈ b, p x = false) ∧ partitionPoint p l = a.length := by
  have hsplit : ∃ a b, l = a ++ b ∧ (∀ x ∈ a, p x = true) ∧ ∀ x ∈ b, p x = false := by
    induction l with
    | nil => exact ⟨[], [], rfl, by simp, by simp⟩
    | cons x l ih =>
      obtain ⟨hx, hl⟩ := List.pairwise_cons.1 h
      cases hpx : p x with
      | true =>
        obtain ⟨a, b, rfl, ha, hb⟩ := ih hl
        exact ⟨x :: a, b, rfl, List.forall_mem_cons.2 ⟨hpx, ha⟩, hb⟩
      | false =>
        refine ⟨[], x :: l, rfl, by simp, List.forall_mem_cons.2 ⟨hpx, fun y hy => ?_⟩⟩
        by_contra hpy
        rw [hx y hy (by simpa using hpy)] at hpx
        cases hpx
  obtain ⟨a, b, rfl, ha, hb⟩ := hsplit
  exact ⟨a, b, rfl, ha, hb, partitionPoint_append ha hb⟩

/-- Where every element that has the first property has the second one, the searches for the two ends delimit three parts. -/
theorem exists_append_of_imp {q : α → Bool} (hp : l.Pairwise fun x y => p y = true → p x = true)
    (hq : l.Pairwise fun x y => q y = true → q x = true) (himp : ∀ x ∈ l, p x = true → q x = true) :
    ∃ low middle high, l = low ++ (middle ++ high) ∧ (∀ x ∈ low, p x = true) ∧ (∀ x ∈ middle, p x = false ∧ q x = true) ∧
      (∀ x ∈ high, p x = false ∧ q x = false) ∧ partitionPoint p l = low.length ∧ partitionPoint q l = (low ++ middle).length := by
  obtain ⟨low, rest, hl, hlow, hrest, hpoint⟩ := exists_append_of_pairwise hp
  obtain ⟨upTo, high, hl', hupTo, hhigh, hpoint'⟩ := exists_append_of_pairwise hq
  rcases List.append_eq_append_iff.1 (hl.symm.trans hl') with ⟨middle, rfl, rfl⟩ | ⟨middle, rfl, rfl⟩
  · exact ⟨low, middle, high, hl, hlow, fun x hx => ⟨hrest x (by simp [hx]), hupTo x (by simp [hx])⟩,
      fun x hx => ⟨hrest x (by simp [hx]), hhigh x hx⟩, hpoint, hpoint'⟩
  · -- An element between the two ends would have the first property and not the second.
    cases middle with
    | nil => exact ⟨upTo, [], rest, by simpa using hl, by simpa using hlow, by simp, fun x hx => ⟨hrest x hx, hhigh x (by simpa using hx)⟩,
        by simpa using hpoint, by simpa using hpoint'⟩
    | cons x middle =>
      have hqx := himp x (by simp [hl]) (hlow x (by simp))
      rw [hhigh x (by simp)] at hqx
      cases hqx

/-- One search ends no later than another exactly if every element that has the first property has the second one. -/
theorem partitionPoint_le_iff {q : α → Bool} (hp : l.Pairwise fun x y => p y = true → p x = true)
    (hq : l.Pairwise fun x y => q y = true → q x = true) :
    partitionPoint p l ≤ partitionPoint q l ↔ ∀ x ∈ l, p x = true → q x = true := by
  constructor
  · obtain ⟨low, rest, rfl, hlow, hrest, hpoint⟩ := exists_append_of_pairwise hp
    obtain ⟨upTo, high, hl, hupTo, hhigh, hpoint'⟩ := exists_append_of_pairwise hq
    rw [hpoint, hpoint']
    intro hle x hx hpx
    have hlow' : low = upTo.take low.length := by
      have htake := congrArg (List.take low.length) hl
      rwa [List.take_left' rfl, List.take_append_of_le_length hle] at htake
    rcases List.mem_append.1 hx with hx | hx
    · rw [hlow'] at hx
      exact hupTo x (List.mem_of_mem_take hx)
    · rw [hrest x hx] at hpx
      cases hpx
  · intro himp
    obtain ⟨low, middle, high, -, -, -, -, hpoint, hpoint'⟩ := exists_append_of_imp hp hq himp
    rw [hpoint, hpoint', List.length_append]
    exact Nat.le_add_right _ _

end BinarySearch
