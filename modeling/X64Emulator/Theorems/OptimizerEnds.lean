import X64Emulator.Lemmas.Passes

/-!
# The end of the optimizer

A pass that reports a change has removed at least one instruction, so that there is a round for each instruction at most.
-/

namespace X64Emulator

namespace Ir

/-- The passes pick distinct positions of the block, what they report as a change makes it shorter, and the optimizer ends. -/
theorem optimizer_ends (ir : IR) (stats : Stats) :
    (∀ pass ∈ Optimizer.passes, (pass.select ir).Nodup ∧ (∀ p ∈ pass.select ir, p < ir.instructions.length) ∧
      ∃ p, pass.optimize ir stats = some p ∧ (p.didSomething = false → p.ir = ir) ∧
        (p.didSomething = true → p.ir.instructions.length < ir.instructions.length)) ∧
    ∃ result, ∀ fuel, ir.instructions.length < fuel → Optimizer.optimize fuel ir stats = some result := by
  constructor
  · intro pass hpass
    have hsound := passes_sound pass hpass
    obtain ⟨p, hp, -, hsame, hless⟩ := optimize_spec hsound ir stats
    refine ⟨hsound.nodup ir, hsound.inside ir, p, hp, fun hdid => (hsame hdid).1, fun hdid => ?_⟩
    obtain ⟨hlen, hne⟩ := hless hdid
    have hpos := List.length_pos_iff.2 hne
    omega
  · obtain ⟨result, -, hend⟩ := Optimizer.optimize_ends ir stats
    exact ⟨result, hend⟩

end Ir

end X64Emulator
