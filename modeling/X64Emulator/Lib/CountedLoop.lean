import Mathlib.Tactic.Common

/-!
# Counted loops

A loop that takes a number of turns, and leaves early behind a turn whose state says so. A turn may fail, and the loop fails with
it. What one turn keeps, the loop keeps, and two loops do the same when their turns do.
-/

namespace CountedLoop

variable {σ τ : Type*} {step : σ → Option σ} {stop : σ → Bool}

/-- What is left of the count, and the state. -/
def run (step : σ → Option σ) (stop : σ → Bool) : Nat → σ → Option (Nat × σ)
  | 0, s => some (0, s)
  | n + 1, s => (step s).bind fun s' => if stop s' then some (n, s') else run step stop n s'

@[simp] theorem run_zero (s : σ) : run step stop 0 s = some (0, s) := rfl

theorem run_succ (n : Nat) (s : σ) :
    run step stop (n + 1) s = (step s).bind fun s' => if stop s' then some (n, s') else run step stop n s' := rfl

/-- A property of the count and the state that every turn keeps. -/
theorem run_invariant {I : Nat → σ → Prop} (hstep : ∀ n s s', I (n + 1) s → step s = some s' → I n s') {n k : Nat} {s s' : σ}
    (hrun : run step stop n s = some (k, s')) (hs : I n s) : I k s' ∧ k ≤ n := by
  induction n generalizing s with
  | zero =>
    obtain ⟨rfl, rfl⟩ := Prod.mk.injEq .. ▸ Option.some_inj.1 hrun
    exact ⟨hs, Nat.le_refl 0⟩
  | succ n ih =>
    rw [run_succ] at hrun
    obtain ⟨t, ht, hrest⟩ := Option.bind_eq_some_iff.1 hrun
    have hkept := hstep n s t hs ht
    split at hrest
    · obtain ⟨rfl, rfl⟩ := Prod.mk.injEq .. ▸ Option.some_inj.1 hrest
      exact ⟨hkept, Nat.le_succ n⟩
    · obtain ⟨hlast, hle⟩ := ih hrest hkept
      exact ⟨hlast, Nat.le_succ_of_le hle⟩

/-- A loop that fails within some turns fails within more of them. -/
theorem run_eq_none_of_le {m n : Nat} (hle : m ≤ n) {s : σ} (hrun : run step stop m s = none) : run step stop n s = none := by
  induction m generalizing n s with
  | zero => exact absurd hrun (by simp)
  | succ m ih =>
    obtain ⟨n, rfl⟩ : ∃ k, n = k + 1 := ⟨n - 1, by omega⟩
    rw [run_succ] at hrun ⊢
    rw [Option.bind_eq_none_iff] at hrun ⊢
    intro t ht
    have hrest := hrun t ht
    split
    · rw [if_pos (by assumption)] at hrest
      exact absurd hrest (by simp)
    · rw [if_neg (by assumption)] at hrest
      exact ih (by omega) hrest

/-- Two loops whose turns and conditions correspond, in the states that have an invariant. -/
theorem run_map {step' : τ → Option τ} {stop' : τ → Bool} {I : σ → Prop} (f : Nat → σ → τ)
    (hstep : ∀ n s, I s → step' (f (n + 1) s) = (step s).map (f n)) (hstop : ∀ n s, stop' (f n s) = stop s)
    (hI : ∀ s s', I s → step s = some s' → I s') (n : Nat) {s : σ} (hs : I s) :
    run step' stop' n (f n s) = (run step stop n s).map fun p => (p.1, f p.1 p.2) := by
  induction n generalizing s with
  | zero => rfl
  | succ n ih =>
    rw [run_succ, run_succ, hstep n s hs]
    cases ht : step s with
    | none => rfl
    | some t =>
      rw [Option.map_some, Option.bind_some, Option.bind_some, hstop]
      split
      · rfl
      · exact ih (hI s t hs ht)

/-- Two loops with the same turns. -/
theorem run_congr {step' : σ → Option σ} {stop' : σ → Bool} {I : σ → Prop} (hstep : ∀ s, I s → step' s = step s)
    (hstop : ∀ s, stop' s = stop s) (hI : ∀ s s', I s → step s = some s' → I s') (n : Nat) {s : σ} (hs : I s) :
    run step' stop' n s = run step stop n s := by
  have hsame : run step' stop' n s = (run step stop n s).map fun p => (p.1, p.2) :=
    run_map (fun _ t => t) (fun _ t ht => (hstep t ht).trans Option.map_id'.symm) (fun _ t => hstop t) hI n hs
  simpa using hsame

end CountedLoop
