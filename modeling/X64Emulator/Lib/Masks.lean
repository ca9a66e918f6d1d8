import Mathlib.Tactic.Common

/-!
# Masks that loops build

A loop over the places of a mask adds or takes away bits; a bit of the result is a disjunction or a conjunction over the turns. The
lowest and the highest bit of a mask are found by a search from either end.
-/

namespace Masks

variable {w : Nat}

/-- A mask with one bit, if any. -/
def flag (w : Nat) (b : Bool) (k : Nat) : BitVec w := (BitVec.ofBool b).setWidth w <<< k

theorem getLsbD_flag {b : Bool} {k j : Nat} : (flag w b k).getLsbD j = true ↔ b = true ∧ j = k ∧ j < w := by
  rw [flag, BitVec.getLsbD_shiftLeft (x := (BitVec.ofBool b).setWidth w), BitVec.getLsbD_setWidth, BitVec.getLsbD_ofBool]
  by_cases hj : j < w
  · by_cases hjk : j = k
    · subst hjk
      simp [hj, show 0 < w by omega]
    · by_cases hlt : j < k
      · simp [hj, hjk, hlt]
      · simp [hjk, show j - k ≠ 0 by omega]
  · simp [hj]

/-- Turns that add bits. -/
theorem foldl_or {step : BitVec w → Nat → BitVec w} {p : Nat → Prop} {k : Nat}
    (hstep : ∀ acc i, (step acc i).getLsbD k = true ↔ acc.getLsbD k = true ∨ p i) (n : Nat) (x : BitVec w) :
    ((List.range n).foldl step x).getLsbD k = true ↔ x.getLsbD k = true ∨ ∃ i < n, p i := by
  induction n with
  | zero => simp
  | succ n ih =>
    rw [List.range_succ, List.foldl_append, List.foldl_cons, List.foldl_nil, hstep, ih, or_assoc]
    refine or_congr_right ⟨?_, ?_⟩
    · rintro (⟨i, hi, hp⟩ | hp)
      · exact ⟨i, by omega, hp⟩
      · exact ⟨n, Nat.lt_succ_self n, hp⟩
    · rintro ⟨i, hi, hp⟩
      by_cases hlast : i = n
      · exact .inr (hlast ▸ hp)
      · exact .inl ⟨i, by omega, hp⟩

/-- Turns that take bits away. -/
theorem foldl_and {step : BitVec w → Nat → BitVec w} {p : Nat → Prop} {k : Nat}
    (hstep : ∀ acc i, (step acc i).getLsbD k = true ↔ acc.getLsbD k = true ∧ p i) (n : Nat) (x : BitVec w) :
    ((List.range n).foldl step x).getLsbD k = true ↔ x.getLsbD k = true ∧ ∀ i < n, p i := by
  induction n with
  | zero => simp
  | succ n ih =>
    rw [List.range_succ, List.foldl_append, List.foldl_cons, List.foldl_nil, hstep, ih, and_assoc]
    refine and_congr_right fun _ => ⟨?_, ?_⟩
    · rintro ⟨hall, hp⟩ i hi
      by_cases hlast : i = n
      · exact hlast ▸ hp
      · exact hall i (by omega)
    · intro hall
      exact ⟨fun i hi => hall i (by omega), hall n (Nat.lt_succ_self n)⟩

/-- Each turn decides about the bit of its own place. -/
theorem or_flags (f : Nat → Bool) {n : Nat} (hn : n ≤ w) (x : BitVec w) (j : Nat) :
    ((List.range n).foldl (fun acc i => acc ||| flag w (f i) i) x).getLsbD j = true ↔
      x.getLsbD j = true ∨ (j < n ∧ f j = true) := by
  have hstep : ∀ (acc : BitVec w) i,
      (acc ||| flag w (f i) i).getLsbD j = true ↔ acc.getLsbD j = true ∨ (f i = true ∧ j = i ∧ j < w) := by
    intro acc i
    rw [BitVec.getLsbD_or, Bool.or_eq_true, getLsbD_flag]
  rw [foldl_or hstep]
  refine or_congr_right ⟨?_, ?_⟩
  · rintro ⟨i, hi, hf, rfl, -⟩
    exact ⟨hi, hf⟩
  · rintro ⟨hj, hf⟩
    exact ⟨j, hj, hf, rfl, by omega⟩

/-- Each turn adds a mask of its own. -/
theorem or_or_flags (f : Nat → Nat → Bool) {n : Nat} (hn : n ≤ w) (j : Nat) :
    ((List.range n).foldl (fun acc i => (List.range n).foldl (fun acc k => acc ||| flag w (f i k) k) acc)
        (0 : BitVec w)).getLsbD j = true ↔
      j < n ∧ ∃ i < n, f i j = true := by
  rw [foldl_or fun acc i => or_flags (f i) hn acc j]
  constructor
  · rintro (hzero | ⟨i, hi, hj, hf⟩)
    · simp at hzero
    · exact ⟨hj, i, hi, hf⟩
  · rintro ⟨hj, i, hi, hf⟩
    exact .inr ⟨i, hi, hj, hf⟩

/-- Each turn looks for a pair of conditions on its own place. -/
theorem or_and_flags (f g : Nat → Nat → Bool) {n : Nat} (hn : n ≤ w) (m j : Nat) :
    ((List.range n).foldl (fun acc k => (List.range m).foldl (fun acc i =>
        acc ||| (flag w (f i k) k &&& flag w (g i k) k)) acc) (0 : BitVec w)).getLsbD j = true ↔
      j < n ∧ ∃ i < m, f i j = true ∧ g i j = true := by
  have hstep : ∀ k (acc : BitVec w) i, (acc ||| (flag w (f i k) k &&& flag w (g i k) k)).getLsbD j = true ↔
      acc.getLsbD j = true ∨ (j = k ∧ j < w ∧ f i k = true ∧ g i k = true) := by
    intro k acc i
    rw [BitVec.getLsbD_or, BitVec.getLsbD_and, Bool.or_eq_true, Bool.and_eq_true, getLsbD_flag, getLsbD_flag]
    tauto
  rw [foldl_or fun acc k => foldl_or (hstep k) m acc]
  constructor
  · rintro (hzero | ⟨k, hk, i, hi, rfl, -, hf, hg⟩)
    · simp at hzero
    · exact ⟨hk, i, hi, hf, hg⟩
  · rintro ⟨hj, i, hi, hf, hg⟩
    exact .inr ⟨j, hj, i, hi, rfl, by omega, hf, hg⟩

/-- Each turn takes the bit of its own place away unless all of its conditions hold. -/
theorem and_flags (f : Nat → Nat → Bool) (m : Nat → Nat) (n : Nat) (x : BitVec w) (j : Nat) :
    ((List.range n).foldl (fun acc k => (List.range (m k)).foldl (fun acc i =>
        acc &&& (~~~(1#w <<< k) ||| flag w (f k i) k)) acc) x).getLsbD j = true ↔
      x.getLsbD j = true ∧ (j < n → ∀ i < m j, f j i = true) := by
  have hstep : ∀ k (acc : BitVec w) i, (acc &&& (~~~(1#w <<< k) ||| flag w (f k i) k)).getLsbD j = true ↔
      acc.getLsbD j = true ∧ (j = k → f k i = true) := by
    intro k acc i
    rw [BitVec.getLsbD_and, BitVec.getLsbD_or, BitVec.getLsbD_not, Bool.and_eq_true, Bool.or_eq_true, getLsbD_flag]
    refine and_congr_right fun hacc => ?_
    have hj : j < w := BitVec.lt_of_getLsbD hacc
    by_cases hjk : j = k
    · subst hjk
      simp [hj]
    · by_cases hlt : j < k
      · simp [hj, hjk, hlt]
      · simp [hj, hjk, show j - k ≠ 0 by omega]
  rw [foldl_and fun acc k => foldl_and (hstep k) (m k) acc]
  refine and_congr_right fun _ => ⟨?_, ?_⟩
  · intro hall hj i hi
    exact hall j hj i hi rfl
  · rintro hall k hk i hi rfl
    exact hall hk i hi

/-- The first place from `out` on, of `turns` places, that has a bit. -/
def lowest (x : BitVec w) : (turns : Nat) → (out : Nat) → Nat
  | 0, out => out
  | turns + 1, out => if x.getLsbD out = false then lowest x turns (out + 1) else out

theorem lowest_spec (x : BitVec w) (turns out : Nat) :
    out ≤ lowest x turns out ∧ lowest x turns out ≤ out + turns ∧
      (∀ j, out ≤ j → j < lowest x turns out → x.getLsbD j = false) ∧
      (lowest x turns out < out + turns → x.getLsbD (lowest x turns out) = true) := by
  induction turns generalizing out with
  | zero =>
    refine ⟨Nat.le_refl _, Nat.le_refl _, fun j hle hlt => ?_, fun hlt => ?_⟩
    · exact absurd hlt (Nat.not_lt.2 hle)
    · exact absurd hlt (Nat.lt_irrefl _)
  | succ turns ih =>
    rw [lowest]
    split
    · rename_i hout
      obtain ⟨hle, htop, hbelow, hbit⟩ := ih (out + 1)
      refine ⟨by omega, by omega, fun j hj hlt => ?_, fun hlt => hbit (by omega)⟩
      by_cases hfirst : j = out
      · rw [hfirst, hout]
      · exact hbelow j (by omega) hlt
    · rename_i hout
      refine ⟨Nat.le_refl _, by omega, fun j hle hlt => absurd hlt (Nat.not_lt.2 hle), fun _ => ?_⟩
      simpa using hout

/-- The first place from `out` down that has a bit, or zero. -/
def highest (x : BitVec w) : (out : Nat) → Nat
  | 0 => 0
  | out + 1 => if x.getLsbD (out + 1) = false then highest x out else out + 1

theorem highest_spec (x : BitVec w) (out : Nat) :
    highest x out ≤ out ∧ (∀ j, highest x out < j → j ≤ out → x.getLsbD j = false) ∧
      (0 < highest x out → x.getLsbD (highest x out) = true) := by
  induction out with
  | zero =>
    refine ⟨Nat.le_refl _, fun j hlt hle => ?_, fun hpos => ?_⟩
    · exact absurd hlt (Nat.not_lt.2 hle)
    · exact absurd hpos (Nat.lt_irrefl _)
  | succ out ih =>
    rw [highest]
    split
    · rename_i hout
      obtain ⟨hle, habove, hbit⟩ := ih
      refine ⟨by omega, fun j hlt hj => ?_, hbit⟩
      by_cases hfirst : j = out + 1
      · rw [hfirst, hout]
      · exact habove j hlt (by omega)
    · rename_i hout
      refine ⟨Nat.le_refl _, fun j hlt hle => absurd hlt (Nat.not_lt.2 hle), fun _ => ?_⟩
      simpa using hout

end Masks
