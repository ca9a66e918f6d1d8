import Mathlib.Tactic.Common

/-!
# Copies of blocks that may overlap

A block of cells is copied as a whole, from what the source was before, or cell by cell from the first one on, where a cell of the
source may have been written by then. The two differ only where the destination begins inside the source, and then only if the
source does not repeat itself at their distance.
-/

namespace BlockCopy

variable {α : Type*}

/-- The memory once a block has been copied as a whole. -/
def copy (m : Nat → α) (dst src n : Nat) : Nat → α := fun a => if dst ≤ a ∧ a < dst + n then m (src + (a - dst)) else m a

/-- One cell more. -/
def put (m : Nat → α) (a : Nat) (x : α) : Nat → α := fun b => if b = a then x else m b

/-- The memory once `n` cells have been copied in ascending order. -/
def copyUp (m : Nat → α) (dst src : Nat) : Nat → Nat → α
  | 0 => m
  | n + 1 => put (copyUp m dst src n) (dst + n) (copyUp m dst src n (src + n))

variable {m : Nat → α} {dst src : Nat}

/-- The last cell, after the others. -/
theorem copyUp_last (n : Nat) :
    copyUp m dst src (n + 1) = put (copyUp m dst src n) (dst + n) (copyUp m dst src n (src + n)) := rfl

/-- The first cell, and then the others. -/
theorem copyUp_succ (n : Nat) : copyUp m dst src (n + 1) = copyUp (put m dst (m src)) (dst + 1) (src + 1) n := by
  induction n with
  | zero => rfl
  | succ n ih =>
    rw [copyUp_last, ih, copyUp_last]
    simp only [Nat.add_assoc, Nat.add_comm 1 n]

theorem copyUp_outside {n a : Nat} (h : ¬ (dst ≤ a ∧ a < dst + n)) : copyUp m dst src n a = m a := by
  induction n with
  | zero => rfl
  | succ n ih =>
    rw [copyUp_last, put, if_neg (by omega)]
    exact ih (by omega)

/-- A cell keeps what was copied there. -/
theorem copyUp_inside {n i : Nat} (h : i < n) : copyUp m dst src n (dst + i) = copyUp m dst src i (src + i) := by
  induction n with
  | zero => exact absurd h (Nat.not_lt_zero i)
  | succ n ih =>
    rw [copyUp_last, put]
    by_cases hlast : i = n
    · rw [if_pos (by omega), hlast]
    · rw [if_neg (by omega)]
      exact ih (by omega)

/-- The source repeats itself wherever the destination begins inside it. -/
def Repeats (m : Nat → α) (dst src n : Nat) : Prop := ∀ i < n, ∀ j < i, src + i = dst + j → m (src + i) = m (src + j)

/-- What is read in ascending order is what was there before. -/
theorem copyUp_source {n i : Nat} (h : Repeats m dst src n) (hi : i < n) : copyUp m dst src i (src + i) = m (src + i) := by
  induction i using Nat.strongRecOn with
  | ind i ih =>
    by_cases hin : dst ≤ src + i ∧ src + i < dst + i
    · obtain ⟨j, hj⟩ : ∃ j, src + i = dst + j := ⟨src + i - dst, by omega⟩
      have hlt : j < i := by omega
      rw [hj, copyUp_inside hlt, ih j hlt (by omega), ← hj]
      exact (h i hi j hlt hj).symm
    · exact copyUp_outside hin

theorem copy_eq_copyUp_iff {n : Nat} : copy m dst src n = copyUp m dst src n ↔ Repeats m dst src n := by
  constructor
  · intro hsame i hi j hj hij
    have hwhole : ∀ k < n, m (src + k) = copyUp m dst src k (src + k) := by
      intro k hk
      have hcell := congrFun hsame (dst + k)
      rw [copyUp_inside hk, copy, if_pos (by omega), Nat.add_sub_cancel_left] at hcell
      exact hcell
    calc m (src + i) = copyUp m dst src i (src + i) := hwhole i hi
      _ = copyUp m dst src j (src + j) := by rw [hij, copyUp_inside hj]
      _ = m (src + j) := (hwhole j (by omega)).symm
  · intro h
    funext a
    by_cases ha : dst ≤ a ∧ a < dst + n
    · obtain ⟨i, rfl⟩ : ∃ i, a = dst + i := ⟨a - dst, by omega⟩
      have hi : i < n := by omega
      rw [copy, if_pos ha, Nat.add_sub_cancel_left, copyUp_inside hi, copyUp_source h hi]
    · rw [copy, if_neg ha, copyUp_outside ha]

end BlockCopy
