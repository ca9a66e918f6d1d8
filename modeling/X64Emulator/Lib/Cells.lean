import Mathlib.Tactic.Common

/-!
# Writing a run of cells of a table

A table is a list, and a loop over consecutive indices writes one value into every cell it passes, provided that the cell was
as expected. The loop succeeds exactly when all the cells of its range were, and then it changes those cells and no other.
-/

namespace Cells

variable {β : Type*}

/-- One turn of the loop: the cell is checked, then written. -/
def write (c : Option β → Prop) [DecidablePred c] (v : β) (l : List β) (i : Nat) : Option (List β) :=
  if c l[i]? then some (l.set i v) else none

variable {c : Option β → Prop} [DecidablePred c] {v : β}

theorem write_eq_some {l l' : List β} {i : Nat} : write c v l i = some l' ↔ c l[i]? ∧ l' = l.set i v := by
  unfold write
  split
  · simp [*, eq_comm]
  · simp [*]

/-- The table after the loop over the `n` cells from `a` on. -/
theorem foldlM_write_eq_some (hc : ¬ c none) {n a : Nat} {l l' : List β}
    (h : (List.range' a n).foldlM (write c v) l = some l') :
    l'.length = l.length ∧ (∀ i, a ≤ i → i < a + n → c l[i]?) ∧
      ∀ i, l'[i]? = if a ≤ i ∧ i < a + n then some v else l[i]? := by
  induction n generalizing a l with
  | zero =>
    simp only [List.range'_zero, List.foldlM_nil, Option.pure_def, Option.some.injEq] at h
    subst h
    refine ⟨rfl, fun i h1 h2 => by omega, fun i => ?_⟩
    rw [if_neg (by omega)]
  | succ n ih =>
    simp only [List.range'_succ, List.foldlM_cons, Option.bind_eq_bind, Option.bind_eq_some_iff] at h
    obtain ⟨l1, h1, h⟩ := h
    obtain ⟨hca, rfl⟩ := write_eq_some.1 h1
    obtain ⟨hlen, hall, hget⟩ := ih h
    have ha : a < l.length := by
      by_contra hge
      rw [List.getElem?_eq_none (by omega)] at hca
      exact hc hca
    refine ⟨by simpa using hlen, fun i hi hi' => ?_, fun i => ?_⟩
    · by_cases hia : i = a
      · exact hia ▸ hca
      · have := hall i (by omega) (by omega)
        rwa [List.getElem?_set_ne (by omega)] at this
    · rw [hget i]
      by_cases hia : i = a
      · subst hia
        rw [if_neg (by omega), if_pos (by omega), List.getElem?_set_self ha]
      · rw [List.getElem?_set_ne (by omega)]
        by_cases hin : a + 1 ≤ i ∧ i < a + 1 + n
        · rw [if_pos hin, if_pos (by omega)]
        · rw [if_neg hin, if_neg (by omega)]

/-- The loop succeeds when every cell of its range is as expected. -/
theorem foldlM_write_isSome {n a : Nat} {l : List β} (h : ∀ i, a ≤ i → i < a + n → c l[i]?) :
    ∃ l', (List.range' a n).foldlM (write c v) l = some l' := by
  induction n generalizing a l with
  | zero => exact ⟨l, rfl⟩
  | succ n ih =>
    obtain ⟨l', hl'⟩ := ih (a := a + 1) (l := l.set a v) (fun i hi hi' => by
      rw [List.getElem?_set_ne (by omega)]
      exact h i (by omega) (by omega))
    refine ⟨l', ?_⟩
    rw [List.range'_succ, List.foldlM_cons, write_eq_some.2 ⟨h a (Nat.le_refl a) (by omega), rfl⟩]
    exact hl'

end Cells
