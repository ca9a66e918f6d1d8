import Mathlib.Tactic.Common

/-!
# Lanes of a bit vector

A bit vector as an array of lanes of `w` bits, the lowest first. `lane` reads one of them, `join` puts the first `n` of an array
into a vector, and `joinM` does the same where the computation of a lane may fail.
-/

namespace Lanes

variable {v w n : Nat} {ε : Type*}

def lane (w : Nat) (x : BitVec v) (i : Nat) : BitVec w := x.extractLsb' (i * w) w

def join (v : Nat) : Nat → (Nat → BitVec w) → BitVec v
  | 0, _ => 0
  | n + 1, f => join v n f ||| (f n).setWidth v <<< (n * w)

def joinM (v : Nat) : Nat → (Nat → Except ε (BitVec w)) → Except ε (BitVec v)
  | 0, _ => .ok 0
  | n + 1, f => do
    let below ← joinM v n f
    let last ← f n
    .ok (below ||| last.setWidth v <<< (n * w))

theorem getLsbD_lane (x : BitVec v) (i j : Nat) : (lane w x i).getLsbD j = (decide (j < w) && x.getLsbD (i * w + j)) := by
  rw [lane, BitVec.getLsbD_extractLsb']

theorem getLsbD_join {f : Nat → BitVec w} (h : n * w ≤ v) (j : Nat) :
    (join v n f).getLsbD j = (decide (j < n * w) && (f (j / w)).getLsbD (j % w)) := by
  induction n with
  | zero => simp [join]
  | succ n ih =>
    have hle : n * w + w ≤ v := Nat.succ_mul n w ▸ h
    rw [join, BitVec.getLsbD_or, ih (by omega), BitVec.getLsbD_shiftLeft, BitVec.getLsbD_setWidth, Nat.succ_mul]
    by_cases hbelow : j < n * w
    · simp [hbelow, show j < n * w + w by omega]
    · by_cases hlast : j < n * w + w
      · -- the bit is one of the last lane
        have hdiv : j / w = n := Nat.div_eq_of_lt_le (by omega) (by rw [Nat.succ_mul]; omega)
        have hmod : j % w = j - n * w := by rw [Nat.mod_eq_sub_div_mul, hdiv]
        simp [hbelow, hlast, hdiv, hmod, show j < v by omega, show j - n * w < v by omega]
      · have habove : (f n).getLsbD (j - n * w) = false := BitVec.getLsbD_of_ge _ _ (by omega)
        simp [hbelow, hlast, habove]

theorem lane_join {f : Nat → BitVec w} (h : n * w ≤ v) {i : Nat} (hi : i < n) : lane w (join v n f) i = f i := by
  apply BitVec.eq_of_getLsbD_eq
  intro j hj
  have hlt : i * w + j < n * w := by
    have := Nat.mul_le_mul_right w hi
    rw [Nat.succ_mul] at this
    omega
  have hdiv : (i * w + j) / w = i := by
    rw [Nat.mul_comm, Nat.mul_add_div (by omega), Nat.div_eq_of_lt hj, Nat.add_zero]
  have hmod : (i * w + j) % w = j := by rw [Nat.mul_comm, Nat.mul_add_mod, Nat.mod_eq_of_lt hj]
  rw [getLsbD_lane, getLsbD_join h, hdiv, hmod]
  simp [hj, hlt]

/-- Vectors that are made of lanes are equal when their lanes are. -/
theorem ext_lane {x y : BitVec v} (h : n * w = v) (hlanes : ∀ i < n, lane w x i = lane w y i) : x = y := by
  apply BitVec.eq_of_getLsbD_eq
  intro j hj
  have hw : 0 < w := by
    rcases Nat.eq_zero_or_pos w with rfl | hw
    · omega
    · exact hw
  have hi : j / w < n := (Nat.div_lt_iff_lt_mul hw).2 (by omega)
  have hbit := congrArg (BitVec.getLsbD · (j % w)) (hlanes (j / w) hi)
  simp only [getLsbD_lane, Nat.mod_lt _ hw, decide_true, Bool.true_and] at hbit
  rwa [Nat.mul_comm, Nat.div_add_mod] at hbit

theorem join_congr {f g : Nat → BitVec w} (h : ∀ i < n, f i = g i) : join v n f = join v n g := by
  induction n with
  | zero => rfl
  | succ n ih =>
    rw [join, join, ih fun i hi => h i (by omega), h n (by omega)]

/-! ## Two halves -/

theorem lane_append_low {k : Nat} (high : BitVec k) (low : BitVec v) (h : n * w = v) {i : Nat} (hi : i < n) :
    lane w (high ++ low) i = lane w low i := by
  apply BitVec.eq_of_getLsbD_eq
  intro j hj
  have := Nat.mul_le_mul_right w hi
  rw [Nat.succ_mul] at this
  rw [getLsbD_lane, getLsbD_lane, BitVec.getLsbD_append, if_pos (by omega)]

theorem lane_append_high {k : Nat} (high : BitVec k) (low : BitVec v) (h : n * w = v) (i : Nat) :
    lane w (high ++ low) (n + i) = lane w high i := by
  apply BitVec.eq_of_getLsbD_eq
  intro j hj
  rw [getLsbD_lane, getLsbD_lane, BitVec.getLsbD_append, Nat.add_mul, if_neg (by omega)]
  congr 2
  omega

theorem join_append {k m : Nat} {f : Nat → BitVec w} (hlow : n * w = v) (hhigh : m * w = k) :
    join (k + v) (n + m) f = join k m (fun i => f (n + i)) ++ join v n f := by
  have hall : (n + m) * w = k + v := by rw [Nat.add_mul]; omega
  apply ext_lane hall
  intro i hi
  rw [lane_join (Nat.le_of_eq hall) hi]
  by_cases hlt : i < n
  · rw [lane_append_low _ _ hlow hlt, lane_join (Nat.le_of_eq hlow) hlt]
  · obtain ⟨i, rfl⟩ := Nat.exists_eq_add_of_le (Nat.le_of_not_lt hlt)
    rw [lane_append_high _ _ hlow, lane_join (Nat.le_of_eq hhigh) (by omega)]

/-! ## Lanes whose computation may fail -/

theorem joinM_eq_ok {f : Nat → Except ε (BitVec w)} {g : Nat → BitVec w} (h : ∀ i < n, f i = .ok (g i)) :
    joinM v n f = .ok (join v n g) := by
  induction n with
  | zero => rfl
  | succ n ih =>
    rw [joinM, ih fun i hi => h i (by omega), h n (by omega)]
    rfl

theorem joinM_congr {f g : Nat → Except ε (BitVec w)} (h : ∀ i < n, f i = g i) : joinM v n f = joinM v n g := by
  induction n with
  | zero => rfl
  | succ n ih =>
    rw [joinM, joinM, ih fun i hi => h i (by omega), h n (by omega)]

/-- The vector is there when every lane is. -/
theorem exists_joinM_iff {f : Nat → Except ε (BitVec w)} : (∃ x, joinM v n f = .ok x) ↔ ∀ i < n, ∃ y, f i = .ok y := by
  induction n with
  | zero => simp [joinM]
  | succ n ih =>
    constructor
    · rintro ⟨x, hx⟩ i hi
      rw [joinM] at hx
      cases hbelow : joinM v n f with
      | error e => rw [hbelow] at hx; cases hx
      | ok below =>
        rw [hbelow] at hx
        cases hlast : f n with
        | error e => rw [hlast] at hx; cases hx
        | ok last =>
          rcases Nat.lt_succ_iff_lt_or_eq.1 hi with hi | rfl
          · exact ih.1 ⟨below, hbelow⟩ i hi
          · exact ⟨last, hlast⟩
    · intro h
      obtain ⟨below, hbelow⟩ := ih.2 fun i hi => h i (by omega)
      obtain ⟨last, hlast⟩ := h n (by omega)
      exact ⟨_, by rw [joinM, hbelow, hlast]; rfl⟩

/-- A vector that is there is made of the values of its lanes. -/
theorem exists_join_of_joinM {f : Nat → Except ε (BitVec w)} {x : BitVec v} (h : joinM v n f = .ok x) :
    ∃ g : Nat → BitVec w, (∀ i < n, f i = .ok (g i)) ∧ x = join v n g := by
  have hlanes := exists_joinM_iff.1 ⟨x, h⟩
  have hg : ∀ i < n, f i = .ok ((f i).toOption.getD 0) := by
    intro i hi
    obtain ⟨y, hy⟩ := hlanes i hi
    rw [hy]
    rfl
  refine ⟨fun i => (f i).toOption.getD 0, hg, ?_⟩
  rw [joinM_eq_ok hg] at h
  exact (Except.ok.inj h).symm

theorem joinM_append {k m : Nat} {f : Nat → Except ε (BitVec w)} {low : BitVec v} {high : BitVec k} (hv : n * w = v)
    (hk : m * w = k) (hlow : joinM v n f = .ok low) (hhigh : joinM k m (fun i => f (n + i)) = .ok high) :
    joinM (k + v) (n + m) f = .ok (high ++ low) := by
  obtain ⟨g, hg, rfl⟩ := exists_join_of_joinM hlow
  obtain ⟨g', hg', rfl⟩ := exists_join_of_joinM hhigh
  have hall : ∀ i < n + m, f i = .ok (if i < n then g i else g' (i - n)) := by
    intro i hi
    by_cases hlt : i < n
    · rw [if_pos hlt, hg i hlt]
    · rw [if_neg hlt, ← hg' (i - n) (by omega), Nat.add_sub_cancel' (by omega)]
  rw [joinM_eq_ok hall, join_append hv hk]
  congr 2
  · apply join_congr
    intro i _
    rw [if_neg (by omega), Nat.add_sub_cancel_left]
  · apply join_congr
    intro i hi
    rw [if_pos hi]

end Lanes
