import X64Emulator.Lemmas.Passes

/-!
# Jump targets survive the editing of blocks

Labels and the places that are patched later are positions in the list of instructions. Deleting instructions and putting blocks
behind each other renumbers them.
-/

namespace X64Emulator

namespace Ir

open Positions

namespace IR

/-- `ir'` consists of the instructions of `ir` at the positions `kept`, and each anchor of `ir'` designates the instruction that
its counterpart in `ir` designates, or the first one behind it that is kept; the end, when there is none. -/
def KeepsAnchors (ir : IR) (kept : List Nat) (ir' : IR) : Prop :=
  ∃ f, ir' = ir.renew f (pick ir.instructions kept) ∧
    ∀ a ≤ ir.instructions.length, f a ≤ kept.length ∧ kept[f a]? = kept.find? (a ≤ ·)

variable {ir : IR} {kept : List Nat}

theorem keepsAnchors_restrict (hk : Kept ir.instructions.length kept) : ir.KeepsAnchors kept (ir.restrict kept) := by
  refine ⟨_, rfl, fun a ha => ⟨?_, getElem?_renumber hk.sorted ha⟩⟩
  have hcount : kept.countP (· < a) ≤ kept.length := List.countP_le_length
  rw [renumber]
  omega

theorem removeInstructions_keepsAnchors {positions : List Nat} (hd : positions.Nodup)
    (hin : ∀ p ∈ positions, p < ir.instructions.length) : ∃ ir', ir.removeInstructions positions = some ir' ∧
      ir.KeepsAnchors ((List.range ir.instructions.length).filter (· ∉ positions)) ir' :=
  ⟨_, removeInstructions_eq hd hin, keepsAnchors_restrict (kept_without _ _)⟩

/-- Optimizing the block in the middle of three, before they are put together, deletes instructions of it from the whole. -/
theorem add_trims {a b b' c w : IR} (ha : ∀ x ∈ a.anchors, x ≤ a.instructions.length) (hb : Trims b b')
    (hw : (a.add b).bind (fun ab => ab.add c) = some w) : ∃ w' kept, (a.add b').bind (fun ab => ab.add c) = some w' ∧
      w.KeepsAnchors kept w' ∧ ∀ p < w.instructions.length, p ∉ kept →
        a.instructions.length ≤ p ∧ p < a.instructions.length + b.instructions.length := by
  obtain ⟨kept, hk, rfl⟩ := hb
  obtain ⟨_, hab, habc⟩ := Option.bind_eq_some_iff.1 hw
  obtain ⟨hcompatible, rfl⟩ := add_eq_some.1 hab
  obtain ⟨hcompatible', rfl⟩ := add_eq_some.1 habc
  -- the positions that are kept in the first two blocks, and then in all three
  have hrange := (kept_range a.instructions.length).append hk
  rw [← List.length_append, ← instructions_append] at hrange
  have hall := hrange.append (kept_range c.instructions.length)
  rw [← List.length_append, ← instructions_append] at hall
  have hleft : a.append (b.restrict kept) = _ := append_restrict_right ha
  have hright : _ = ((a.append b).append c).restrict _ := append_restrict_left hrange
  refine ⟨_, _, Option.bind_eq_some_iff.2 ⟨_, add_eq_some.2 ⟨compatible_restrict_right.2 hcompatible, rfl⟩, ?_⟩,
    keepsAnchors_restrict hall, ?_⟩
  · rw [hleft, add_eq_some]
    exact ⟨compatible_restrict_left.2 hcompatible', hright.symm⟩
  · intro p hp hout
    simp only [instructions_append, List.length_append, List.mem_append, List.mem_range, List.mem_map, not_or] at hp hout
    obtain ⟨⟨hleft, -⟩, hright⟩ := hout
    refine ⟨by omega, ?_⟩
    by_contra hge
    exact hright ⟨p - (a.instructions.length + b.instructions.length), by omega, by omega⟩

end IR

/-- Deleting distinct positions deletes exactly those instructions and keeps the anchors; putting blocks together is
associative and moves the anchors of the block behind by the length of the one in front; and when a block is optimized before
it is put between two others, every anchor of the whole is kept. -/
theorem anchors_kept :
    (∀ (ir : IR) (positions : List Nat), positions.Nodup → (∀ p ∈ positions, p < ir.instructions.length) →
      ∃ ir', ir.removeInstructions positions = some ir' ∧
        ir.KeepsAnchors ((List.range ir.instructions.length).filter (· ∉ positions)) ir') ∧
    (∀ a b c : IR, (a.add b).bind (fun ab => ab.add c) = (b.add c).bind (fun bc => a.add bc)) ∧
    (∀ a b : IR, ((a.add b).isSome ↔ a.Compatible b) ∧
      ∀ w, a.add b = some w → w = a.join (b.renew (a.instructions.length + ·) b.instructions)) ∧
    (∀ (a b c : IR) (stats : Stats), (∀ x ∈ a.anchors, x ≤ a.instructions.length) →
      ∃ b' stats', (∀ fuel, b.instructions.length < fuel → Optimizer.optimize fuel b stats = some (b', stats')) ∧
        ∀ w, (a.add b).bind (fun ab => ab.add c) = some w → ∃ w' kept,
          (a.add b').bind (fun ab => ab.add c) = some w' ∧ w.KeepsAnchors kept w' ∧
          ∀ p < w.instructions.length, p ∉ kept →
            a.instructions.length ≤ p ∧ p < a.instructions.length + b.instructions.length) := by
  refine ⟨fun ir positions hd hin => IR.removeInstructions_keepsAnchors hd hin, IR.add_assoc, fun a b => ⟨?_, ?_⟩, ?_⟩
  · rw [Option.isSome_iff_exists]
    constructor
    · rintro ⟨w, hw⟩
      exact (IR.add_eq_some.1 hw).1
    · intro h
      exact ⟨_, IR.add_eq_some.2 ⟨h, rfl⟩⟩
  · intro w hw
    exact (IR.add_eq_some.1 hw).2
  · intro a b c stats ha
    obtain ⟨⟨b', stats'⟩, htrims, hend⟩ := Optimizer.optimize_ends b stats
    exact ⟨b', stats', hend, fun w hw => IR.add_trims ha htrims hw⟩

/-- Two deletions around the anchors of a block of four, and a block of two that is put between a landing and a jump. -/
theorem anchors_kept_sample :
    let ir : IR := { instructions := [{ op := .ret }, { op := .cwde }, { op := .cdq }, { op := .cqo }], labels := [1, 2, 4],
                     jumpLanding := some 3 }
    let landing : IR := { instructions := [{ op := .nopN }], labels := [0], jumpLanding := some 1 }
    let body : IR := { instructions := [{ op := .mov, out := .r64 .rbx, in1 := .r64 .rcx }, { op := .cdq }] }
    let jump : IR := { instructions := [{ op := .jmp, in1 := .labelIndex 0 }], jumpToNext := some 0 }
    (∃ ir', ir.removeInstructions [0, 2] = some ir' ∧
      ir.KeepsAnchors ((List.range ir.instructions.length).filter (· ∉ [0, 2])) ir') ∧
    ∃ body' stats', (∀ fuel, 2 < fuel → Optimizer.optimize fuel body {} = some (body', stats')) ∧
      ∃ w' kept, (landing.add body').bind (fun w => w.add jump) = some w' ∧
        ((landing.append body).append jump).KeepsAnchors kept w' ∧ ∀ p < 4, p ∉ kept → 1 ≤ p ∧ p < 3 := by
  intro ir landing body jump
  refine ⟨anchors_kept.1 ir [0, 2] (by decide) (by decide), ?_⟩
  obtain ⟨body', stats', hend, hwhole⟩ := anchors_kept.2.2.2 landing body jump {} (by decide)
  exact ⟨body', stats', hend, hwhole _ rfl⟩

end Ir

end X64Emulator
