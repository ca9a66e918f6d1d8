import Mathlib.Tactic.Common

/-!
# Machines that may fail

A machine has initial states and a step that an action labels. A step that is `none` failed, and a run has no state after it.
A condition on a state and the action about to be taken restricts the runs to those all of whose steps meet it: this is how
"in every run whose steps all meet the condition" is said.
-/

/-- A state machine whose step may fail. -/
structure Machine (σ α : Type*) where
  init : σ → Prop
  step : σ → α → Option σ

namespace Machine

variable {σ α : Type*}

/-- The states reached by a run whose every step meets the condition `C` in the state it is taken from. -/
inductive ReachableUnder (M : Machine σ α) (C : σ → α → Prop) : σ → Prop where
  | init {s : σ} (h : M.init s) : ReachableUnder M C s
  | step {s s' : σ} (a : α) (h : ReachableUnder M C s) (hc : C s a) (hs : M.step s a = some s') : ReachableUnder M C s'

/-- The states reached by any run. -/
def Reachable (M : Machine σ α) : σ → Prop := M.ReachableUnder (fun _ _ => True)

variable {M : Machine σ α} {C : σ → α → Prop}

theorem Reachable.init {s : σ} (h : M.init s) : M.Reachable s := ReachableUnder.init h

theorem Reachable.step {s s' : σ} (a : α) (h : M.Reachable s) (hs : M.step s a = some s') : M.Reachable s' :=
  ReachableUnder.step a h trivial hs

/-- A run all of whose steps meet a condition is a run. -/
theorem ReachableUnder.reachable {s : σ} (h : M.ReachableUnder C s) : M.Reachable s := by
  induction h with
  | init h => exact Reachable.init h
  | step a _ _ hs ih => exact Reachable.step a ih hs

/-- A run whose steps meet a condition meets a weaker one. -/
theorem ReachableUnder.mono {C' : σ → α → Prop} {s : σ} (h : M.ReachableUnder C s) (hC : ∀ s a, C s a → C' s a) :
    M.ReachableUnder C' s := by
  induction h with
  | init h => exact .init h
  | step a _ hc hs ih => exact .step a ih (hC _ a hc) hs

/-- A predicate that the initial states have and every step keeps holds of every state of every run. -/
theorem Reachable.invariant (I : σ → Prop) (h0 : ∀ s, M.init s → I s)
    (hstep : ∀ s a s', I s → M.step s a = some s' → I s') {s : σ} (h : M.Reachable s) : I s := by
  induction h with
  | init h => exact h0 _ h
  | step a _ _ hs ih => exact hstep _ a _ ih hs

/-- The same for the runs whose steps meet a condition, where a step may also use that its state is one a run reaches. -/
theorem ReachableUnder.invariant (I : σ → Prop) (h0 : ∀ s, M.init s → I s)
    (hstep : ∀ s a s', M.Reachable s → I s → C s a → M.step s a = some s' → I s') {s : σ} (h : M.ReachableUnder C s) :
    I s := by
  induction h with
  | init h => exact h0 _ h
  | step a hr hc hs ih => exact hstep _ a _ hr.reachable ih hc hs

/-- The state after a list of actions, `none` when one of them fails. -/
def run (M : Machine σ α) (s : σ) (as : List α) : Option σ := as.foldlM M.step s

theorem run_append (s : σ) (as bs : List α) : M.run s (as ++ bs) = (M.run s as).bind fun t => M.run t bs :=
  List.foldlM_append

theorem run_singleton (s : σ) (a : α) : M.run s [a] = M.step s a := by simp [Machine.run]

/-- A list of actions that meet the condition in any state leads from a state of a run to another. -/
theorem ReachableUnder.run {s s' : σ} (as : List α) (h : M.ReachableUnder C s) (hC : ∀ a ∈ as, ∀ s, C s a)
    (hr : M.run s as = some s') : M.ReachableUnder C s' := by
  induction as generalizing s with
  | nil =>
    simp only [Machine.run, List.foldlM_nil, Option.pure_def, Option.some.injEq] at hr
    exact hr ▸ h
  | cons a as ih =>
    simp only [Machine.run, List.foldlM_cons, Option.bind_eq_bind, Option.bind_eq_some_iff] at hr
    obtain ⟨t, ht, hr⟩ := hr
    exact ih (h.step a (hC a List.mem_cons_self s) ht) (fun b hb => hC b (List.mem_cons_of_mem _ hb)) hr

/-- The machine whose steps fail where they do not meet a condition. -/
def checked (M : Machine σ α) (C : σ → α → Prop) [∀ s a, Decidable (C s a)] : Machine σ α where
  init := M.init
  step s a := if C s a then M.step s a else none

/-- A list of actions each of which meets the condition where it is taken leads from a state of a run to another. -/
theorem ReachableUnder.run_checked [∀ s a, Decidable (C s a)] {s s' : σ} (as : List α) (h : M.ReachableUnder C s)
    (hr : (M.checked C).run s as = some s') : M.ReachableUnder C s' := by
  induction as generalizing s with
  | nil =>
    simp only [Machine.run, List.foldlM_nil, Option.pure_def, Option.some.injEq] at hr
    exact hr ▸ h
  | cons a as ih =>
    simp only [Machine.run, List.foldlM_cons, Option.bind_eq_bind, Option.bind_eq_some_iff, checked] at hr
    obtain ⟨t, ht, hr⟩ := hr
    split at ht
    · next hc => exact ih (h.step a hc ht) hr
    · cases ht

/-- Each action of a list meets the condition in the state that those before it lead to. -/
def Along (M : Machine σ α) (C : σ → α → Prop) : σ → List α → Prop
  | _, [] => True
  | s, a :: as => C s a ∧ ∀ s', M.step s a = some s' → M.Along C s' as

theorem along_of_forall {s : σ} {as : List α} (h : ∀ s a, C s a) : M.Along C s as := by
  induction as generalizing s with
  | nil => trivial
  | cons a as ih => exact ⟨h s a, fun s' _ => ih⟩

/-- Every step leads downwards in a preorder, and back up exactly if it meets a condition. Then the last state of a run is back
at the first exactly if all steps meet the condition. -/
theorem run_back_iff {I : σ → Prop} {A : σ → α → Prop} {r : σ → σ → Prop} (hrefl : ∀ s, r s s)
    (htrans : ∀ s t u, r s t → r t u → r s u)
    (hstep : ∀ s a s', I s → A s a → M.step s a = some s' → I s' ∧ r s s' ∧ (r s' s ↔ C s a)) {s s' : σ} {as : List α}
    (hI : I s) (hA : M.Along A s as) (hr : M.run s as = some s') : I s' ∧ r s s' ∧ (r s' s ↔ M.Along C s as) := by
  induction as generalizing s with
  | nil =>
    simp only [Machine.run, List.foldlM_nil, Option.pure_def, Option.some.injEq] at hr
    subst hr
    exact ⟨hI, hrefl s, fun _ => trivial, fun _ => hrefl s⟩
  | cons a as ih =>
    simp only [Machine.run, List.foldlM_cons, Option.bind_eq_bind, Option.bind_eq_some_iff] at hr
    obtain ⟨t, ht, hr⟩ := hr
    obtain ⟨hIt, hdown, hback⟩ := hstep s a t hI hA.1 ht
    obtain ⟨hI', hdown', hback'⟩ := ih hIt (hA.2 t ht) hr
    refine ⟨hI', htrans s t s' hdown hdown', ?_, ?_⟩
    · intro h
      refine ⟨hback.1 (htrans t s' s hdown' h), ?_⟩
      intro t' ht'
      obtain rfl := Option.some.inj (ht.symm.trans ht')
      exact hback'.1 (htrans s' s t h hdown)
    · rintro ⟨hc, hrest⟩
      exact htrans s' t s (hback'.2 (hrest t ht)) (hback.2 hc)

/-- The state a list of actions leads to is reachable when the state it starts from is. -/
theorem Reachable.run {s s' : σ} (as : List α) (h : M.Reachable s) (hr : M.run s as = some s') : M.Reachable s' :=
  ReachableUnder.run as h (fun _ _ _ => trivial) hr

end Machine
