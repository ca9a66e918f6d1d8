import Mathlib.Tactic.Common

/-!
# Footprints of state transformers

A state gives each location a value. A transformer that changes only some locations, and whose changes depend on only some, can be
exchanged with another one that stays off these locations. Both sets of locations may depend on the state.
-/

namespace Footprint

variable {L V : Type*}

/-- Bounds of a transformer: outside of `writes` it changes nothing, and two states that agree on `reads` are changed at the same
locations and in the same way. -/
structure Bounds (f : (L → V) → L → V) (reads writes : (L → V) → L → Prop) : Prop where
  frame : ∀ s l, ¬ writes s l → f s l = s l
  same : ∀ s s', (∀ l, reads s l → s' l = s l) → (∀ l, writes s' l ↔ writes s l) ∧ ∀ l, writes s l → f s' l = f s l

/-- In the state `s`, nothing that one transformer writes is read or written by the other. -/
structure Independent (readsF writesF readsG writesG : (L → V) → L → Prop) (s : L → V) : Prop where
  read : ∀ l, writesF s l → ¬ readsG s l
  read' : ∀ l, writesG s l → ¬ readsF s l
  write : ∀ l, writesF s l → ¬ writesG s l

variable {f g : (L → V) → L → V} {readsF writesF readsG writesG : (L → V) → L → Prop} {s : L → V}

/-- A transformer acts the same behind another one that stays off its footprint. -/
theorem Bounds.undisturbed (hf : Bounds f readsF writesF) (hg : Bounds g readsG writesG)
    (h : ∀ l, writesG s l → ¬ readsF s l) :
    (∀ l, writesF (g s) l ↔ writesF s l) ∧ ∀ l, writesF s l → f (g s) l = f s l :=
  hf.same s (g s) fun l hl => hg.frame s l fun hw => h l hw hl

/-- Independent transformers can be exchanged. -/
theorem Bounds.commute (hf : Bounds f readsF writesF) (hg : Bounds g readsG writesG)
    (h : Independent readsF writesF readsG writesG s) : g (f s) = f (g s) := by
  obtain ⟨hwf, hf'⟩ := hf.undisturbed hg h.read'
  obtain ⟨hwg, hg'⟩ := hg.undisturbed hf h.read
  funext l
  by_cases hl : writesF s l
  · rw [hf' l hl, hg.frame _ l fun hw => h.write l hl ((hwg l).1 hw)]
  · rw [hf.frame _ l fun hw => hl ((hwf l).1 hw)]
    by_cases hl' : writesG s l
    · exact hg' l hl'
    · rw [hg.frame _ l fun hw => hl' ((hwg l).1 hw), hg.frame _ l hl', hf.frame _ l hl]

/-- A transformer that does nothing in a state does nothing behind one that stays off its footprint. -/
theorem Bounds.fixed (hf : Bounds f readsF writesF) (hg : Bounds g readsG writesG) (hs : f s = s)
    (hread : ∀ l, writesG s l → ¬ readsF s l) (hwrite : ∀ l, writesG s l → ¬ writesF s l) : f (g s) = g s := by
  obtain ⟨hwf, hf'⟩ := hf.undisturbed hg hread
  funext l
  by_cases hl : writesF s l
  · rw [hf' l hl, hs, hg.frame s l fun hw => hwrite l hw hl]
  · exact hf.frame _ l fun hw => hl ((hwf l).1 hw)

end Footprint
