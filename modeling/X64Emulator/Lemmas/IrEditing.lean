import X64Emulator.Ir
import X64Emulator.Lib.Positions
import Mathlib.Tactic.MkIffOfInductiveProp

/-!
# Deleting and appending instructions

Taking instructions out of a block leaves the block restricted to the positions that are kept. A restricted block that is
restricted again is one that is restricted once, and a block put together from restricted blocks is restricted itself.
-/

namespace X64Emulator

namespace Ir

open Positions

namespace IR

/-- The block with other instructions, and each of its anchors moved. -/
def renew (f : Nat → Nat) (instructions : List Instruction) (ir : IR) : IR where
  instructions := instructions
  labels := ir.labels.map f
  jumpLanding := ir.jumpLanding.map f
  jumpToNext := ir.jumpToNext.map f
  jumpToOther := ir.jumpToOther.map f
  pushCallstack := ir.pushCallstack.map fun p => (f p.1, p.2)
  popCallstack := ir.popCallstack.map f

/-- All anchors of a block. -/
def anchors (ir : IR) : List Nat :=
  ir.labels ++ ir.jumpLanding.toList ++ ir.jumpToNext.toList ++ ir.jumpToOther.toList ++
    (ir.pushCallstack.map Prod.fst).toList ++ ir.popCallstack.toList

/-- The block with only the instructions at the kept positions. -/
def restrict (ir : IR) (kept : List Nat) : IR :=
  ir.renew (renumber kept ir.instructions.length) (pick ir.instructions kept)

/-- At most one of two blocks has a field. -/
def Apart {α : Type} (ours theirs : Option α) : Prop := ¬ (ours.isSome ∧ theirs.isSome)

/-- Two blocks can be put together when no anchor that a block has once is in both. -/
@[mk_iff] structure Compatible (ir other : IR) : Prop where
  jumpLanding : Apart ir.jumpLanding other.jumpLanding
  jumpToNext : Apart ir.jumpToNext other.jumpToNext
  jumpToOther : Apart ir.jumpToOther other.jumpToOther
  pushCallstack : Apart ir.pushCallstack other.pushCallstack
  popCallstack : Apart ir.popCallstack other.popCallstack

/-- The instructions and the anchors of two blocks behind each other. -/
def join (ir other : IR) : IR where
  instructions := ir.instructions ++ other.instructions
  labels := ir.labels ++ other.labels
  jumpLanding := ir.jumpLanding.or other.jumpLanding
  jumpToNext := ir.jumpToNext.or other.jumpToNext
  jumpToOther := ir.jumpToOther.or other.jumpToOther
  pushCallstack := ir.pushCallstack.or other.pushCallstack
  popCallstack := ir.popCallstack.or other.popCallstack

/-- The block with all of `other` behind it, its anchors moved by the length of `ir`. -/
def append (ir other : IR) : IR := ir.join (other.renew (ir.instructions.length + ·) other.instructions)

variable {ir other : IR} {kept k₁ k₂ : List Nat}

/-! ## Anchors -/

theorem renew_renew (f g : Nat → Nat) (l l' : List Instruction) (ir : IR) :
    (ir.renew f l).renew g l' = ir.renew (g ∘ f) l' := by
  simp [renew, Function.comp_def]

theorem renew_congr {f g : Nat → Nat} (l : List Instruction) (h : ∀ a ∈ ir.anchors, f a = g a) :
    ir.renew f l = ir.renew g l := by
  have hlabels : ∀ a ∈ ir.labels, f a = g a := fun a ha => h a (by simp [anchors, ha])
  have hlanding := Option.map_congr (x := ir.jumpLanding) fun a ha => h a (by simp [anchors, Option.mem_def.1 ha])
  have hnext := Option.map_congr (x := ir.jumpToNext) fun a ha => h a (by simp [anchors, Option.mem_def.1 ha])
  have hother := Option.map_congr (x := ir.jumpToOther) fun a ha => h a (by simp [anchors, Option.mem_def.1 ha])
  have hpop := Option.map_congr (x := ir.popCallstack) fun a ha => h a (by simp [anchors, Option.mem_def.1 ha])
  have hpush : ir.pushCallstack.map (fun p => (f p.1, p.2)) = ir.pushCallstack.map (fun p => (g p.1, p.2)) := by
    refine Option.map_congr fun p hp => ?_
    rw [h p.1 (by simp [anchors, Option.mem_def.1 hp])]
  rw [renew, renew, List.map_congr_left hlabels, hlanding, hnext, hother, hpush, hpop]

theorem renew_self (ir : IR) : ir.renew id ir.instructions = ir := by
  simp [renew]

/-! ## Restricting -/

@[simp] theorem instructions_restrict (ir : IR) (kept : List Nat) :
    (ir.restrict kept).instructions = pick ir.instructions kept := rfl

theorem restrict_all (ir : IR) : ir.restrict (List.range ir.instructions.length) = ir := by
  rw [restrict, pick_range, renew_congr (g := id) _ fun a _ => renumber_range _ a, renew_self]

theorem restrict_restrict (h₁ : Kept ir.instructions.length k₁) (h₂ : Kept k₁.length k₂) :
    (ir.restrict k₁).restrict k₂ = ir.restrict (pick k₁ k₂) := by
  rw [restrict, instructions_restrict, length_pick h₁.inside, pick_pick h₁.inside h₂.inside, restrict, renew_renew, restrict]
  exact renew_congr _ fun a _ => renumber_renumber h₁ h₂ a

/-- Erasing the instruction at `p` from a block that still has all positions up to `p`. -/
theorem removeInstruction_restrict (hk : Kept ir.instructions.length kept) {p : Nat} (hp : ∀ q ≤ p, kept[q]? = some q) :
    (ir.restrict kept).removeInstruction p = some (ir.restrict (kept.eraseIdx p)) := by
  obtain ⟨hlt, hget⟩ := List.getElem?_eq_some_iff.1 (hp p (Nat.le_refl p))
  have hin : p < ir.instructions.length := hk.inside p (List.mem_of_getElem? (hp p (Nat.le_refl p)))
  have hcount : ∀ a, kept.countP (· < a) = (kept.eraseIdx p).countP (· < a) + if p < a then 1 else 0 := by
    intro a
    have hperm := (List.getElem_cons_eraseIdx_perm hlt).countP_eq (fun k => decide (k < a))
    rw [hget, List.countP_cons] at hperm
    simpa using hperm.symm
  have hshift : ∀ a, shift p (renumber kept ir.instructions.length a) =
      renumber (kept.eraseIdx p) ir.instructions.length a := by
    intro a
    have hc := hcount a
    have hle := countP_lt_le hk.nodup a
    have hiff := lt_countP_iff hk.sorted (a := a) (hp p (Nat.le_refl p))
    by_cases ha : p < a
    · rw [if_pos ha] at hc
      have hfirst := hiff.2 ha
      rw [shift, renumber, renumber, if_pos (by omega)]
      omega
    · rw [if_neg ha] at hc
      rw [shift, renumber, renumber, if_neg (by omega)]
      omega
  have hlen : p < (ir.restrict kept).instructions.length := by rwa [instructions_restrict, length_pick hk.inside]
  have hremove : (ir.restrict kept).removeInstruction p =
      some ((ir.restrict kept).renew (shift p) ((pick ir.instructions kept).eraseIdx p)) := if_pos hlen
  rw [hremove, restrict, renew_renew, restrict, pick_eraseIdx hk.inside]
  exact congrArg some (renew_congr _ fun a _ => hshift a)

theorem foldlM_removeInstruction (hk : Kept ir.instructions.length kept) {positions : List Nat}
    (hs : positions.Pairwise (· > ·)) (hp : ∀ p ∈ positions, ∀ q ≤ p, kept[q]? = some q) :
    positions.foldlM removeInstruction (ir.restrict kept) = some (ir.restrict (kept.filter (· ∉ positions))) := by
  induction positions generalizing kept with
  | nil =>
    simp only [List.foldlM_nil, List.not_mem_nil, not_false_eq_true, decide_true, List.filter_true]
    rfl
  | cons p positions ih =>
    obtain ⟨hfirst, hrest⟩ := List.pairwise_cons.1 hs
    obtain ⟨hlt, hget⟩ := List.getElem?_eq_some_iff.1 (hp p List.mem_cons_self p (Nat.le_refl p))
    have hidx : kept.idxOf p = p := by
      have := hk.nodup.idxOf_getElem p hlt
      rwa [hget] at this
    have herase : kept.eraseIdx p = kept.filter (· ≠ p) := by
      rw [← List.erase_eq_eraseIdx_of_idxOf hidx, hk.nodup.erase_eq_filter]
      exact List.filter_congr fun k _ => by simp [bne, beq_eq_decide]
    rw [List.foldlM_cons, removeInstruction_restrict hk (hp p List.mem_cons_self)]
    refine (ih (hk.sublist (List.eraseIdx_sublist kept p)) hrest fun r hr q hq => ?_).trans ?_
    · have := hfirst r hr
      rw [List.getElem?_eraseIdx_of_lt (by omega)]
      exact hp r (List.mem_cons_of_mem _ hr) q hq
    · rw [herase, List.filter_filter]
      congr 2
      refine List.filter_congr fun k _ => ?_
      simp [Bool.and_comm]

/-- Removing distinct positions of a block restricts it to the others. -/
theorem removeInstructions_eq {positions : List Nat} (hd : positions.Nodup)
    (hin : ∀ p ∈ positions, p < ir.instructions.length) : ir.removeInstructions positions =
      some (ir.restrict ((List.range ir.instructions.length).filter (· ∉ positions))) := by
  have hperm := List.perm_insertionSort (· ≥ ·) positions
  have hsorted : (positions.insertionSort (· ≥ ·)).Pairwise (· > ·) := by
    have hge := List.pairwise_insertionSort (· ≥ ·) positions
    have hne : (positions.insertionSort (· ≥ ·)).Pairwise (· ≠ ·) := hperm.symm.nodup hd
    exact (hge.and hne).imp fun h => by omega
  have hfold := foldlM_removeInstruction (kept_range ir.instructions.length) hsorted fun p hp q hq => by
    have := hin p (hperm.mem_iff.1 hp)
    rw [List.getElem?_range (by omega)]
  rw [restrict_all] at hfold
  rw [removeInstructions, hfold]
  congr 2
  refine List.filter_congr fun k _ => ?_
  simp [hperm.mem_iff]

/-! ## Appending -/

theorem merge_eq {α : Type} (ours theirs : Option α) :
    merge ours theirs = if ours.isSome ∧ theirs.isSome then none else some (ours.or theirs) := by
  cases ours <;> cases theirs <;> rfl

/-- What `add` does, and when it fails. -/
theorem add_eq_some {w : IR} : ir.add other = some w ↔ ir.Compatible other ∧ w = ir.append other := by
  constructor
  · intro h
    simp only [add, merge_eq, Option.isSome_map, Option.bind_eq_bind, Option.bind_eq_some_iff, Option.ite_none_left_eq_some,
      Option.some.injEq, Option.pure_def] at h
    obtain ⟨_, ⟨h1, rfl⟩, _, ⟨h2, rfl⟩, _, ⟨h3, rfl⟩, _, ⟨h4, rfl⟩, _, ⟨h5, rfl⟩, rfl⟩ := h
    exact ⟨⟨h1, h2, h3, h4, h5⟩, rfl⟩
  · rintro ⟨⟨h1, h2, h3, h4, h5⟩, rfl⟩
    simp only [Apart] at h1 h2 h3 h4 h5
    simp only [add, merge_eq, Option.isSome_map, Option.bind_eq_bind, if_neg h1, if_neg h2, if_neg h3, if_neg h4, if_neg h5,
      Option.bind_some]
    rfl

theorem append_assoc (a b c : IR) : (a.append b).append c = a.append (b.append c) := by
  simp [append, join, renew, Function.comp_def, Nat.add_assoc, Option.or_assoc, Option.map_or]

theorem apart_or {α : Type} {x y z : Option α} {f g : α → α} :
    (Apart x y ∧ Apart (x.or (y.map f)) z) ↔ (Apart y z ∧ Apart x (y.or (z.map g))) := by
  simp only [Apart, Option.isSome_or, Option.isSome_map, Bool.or_eq_true]
  tauto

theorem compatible_append (a b c : IR) :
    (a.Compatible b ∧ (a.append b).Compatible c) ↔ (b.Compatible c ∧ a.Compatible (b.append c)) := by
  constructor
  · rintro ⟨⟨h1, h2, h3, h4, h5⟩, ⟨g1, g2, g3, g4, g5⟩⟩
    obtain ⟨⟨l1, r1⟩, ⟨l2, r2⟩, ⟨l3, r3⟩, ⟨l4, r4⟩, ⟨l5, r5⟩⟩ :=
      And.intro (apart_or.1 ⟨h1, g1⟩) (And.intro (apart_or.1 ⟨h2, g2⟩) (And.intro (apart_or.1 ⟨h3, g3⟩)
        (And.intro (apart_or.1 ⟨h4, g4⟩) (apart_or.1 ⟨h5, g5⟩))))
    exact ⟨⟨l1, l2, l3, l4, l5⟩, ⟨r1, r2, r3, r4, r5⟩⟩
  · rintro ⟨⟨h1, h2, h3, h4, h5⟩, ⟨g1, g2, g3, g4, g5⟩⟩
    obtain ⟨⟨l1, r1⟩, ⟨l2, r2⟩, ⟨l3, r3⟩, ⟨l4, r4⟩, ⟨l5, r5⟩⟩ :=
      And.intro (apart_or.2 ⟨h1, g1⟩) (And.intro (apart_or.2 ⟨h2, g2⟩) (And.intro (apart_or.2 ⟨h3, g3⟩)
        (And.intro (apart_or.2 ⟨h4, g4⟩) (apart_or.2 ⟨h5, g5⟩))))
    exact ⟨⟨l1, l2, l3, l4, l5⟩, ⟨r1, r2, r3, r4, r5⟩⟩

/-- Putting blocks together does not depend on which two come first. -/
theorem add_assoc (a b c : IR) : (a.add b).bind (fun w => w.add c) = (b.add c).bind (fun w => a.add w) := by
  refine Option.ext fun w => ?_
  simp only [Option.bind_eq_some_iff, add_eq_some]
  constructor
  · rintro ⟨_, ⟨hab, rfl⟩, habc, rfl⟩
    obtain ⟨hbc, h⟩ := (compatible_append a b c).1 ⟨hab, habc⟩
    exact ⟨_, ⟨hbc, rfl⟩, h, append_assoc a b c⟩
  · rintro ⟨_, ⟨hbc, rfl⟩, habc, rfl⟩
    obtain ⟨hab, h⟩ := (compatible_append a b c).2 ⟨hbc, habc⟩
    exact ⟨_, ⟨hab, rfl⟩, h, (append_assoc a b c).symm⟩

theorem compatible_restrict_left : (ir.restrict kept).Compatible other ↔ ir.Compatible other := by
  simp [compatible_iff, Apart, restrict, renew]

theorem compatible_restrict_right : ir.Compatible (other.restrict kept) ↔ ir.Compatible other := by
  simp [compatible_iff, Apart, restrict, renew]

theorem renew_join (f : Nat → Nat) (l l' : List Instruction) (a b : IR) :
    (a.join b).renew f (l ++ l') = (a.renew f l).join (b.renew f l') := by
  simp [join, renew, Option.map_or]

/-- Blocks with moved anchors behind each other are the blocks behind each other with moved anchors. -/
theorem append_renew (a b : IR) (f g h : Nat → Nat) (l l' : List Instruction) (ha : ∀ x ∈ a.anchors, h x = f x)
    (hb : ∀ x ∈ b.anchors, h (a.instructions.length + x) = l.length + g x) :
    (a.renew f l).append (b.renew g l') = (a.append b).renew h (l ++ l') := by
  rw [append, append, renew_join, renew_renew, renew_renew, renew_congr l ha]
  exact congrArg _ (renew_congr l' hb).symm

@[simp] theorem instructions_append (a b : IR) : (a.append b).instructions = a.instructions ++ b.instructions := rfl

/-- Restricting the first of two blocks restricts what they make together. -/
theorem append_restrict_left (hk : Kept ir.instructions.length kept) : (ir.restrict kept).append other =
    (ir.append other).restrict (kept ++ (List.range other.instructions.length).map (ir.instructions.length + ·)) := by
  have hpick : pick (ir.instructions ++ other.instructions)
      (kept ++ (List.range other.instructions.length).map (ir.instructions.length + ·)) =
        pick ir.instructions kept ++ other.instructions := by
    rw [pick_append_left_right hk.inside, pick_range]
  have happend := append_renew ir other (renumber kept ir.instructions.length) id _
    (pick ir.instructions kept) other.instructions
    (fun x _ => renumber_append_all hk other.instructions.length x)
    (fun x _ => by rw [renumber_append_right hk, renumber_range, length_pick hk.inside]; rfl)
  rw [renew_self] at happend
  rw [restrict, happend, restrict, instructions_append, hpick, List.length_append]

/-- The same for the second, when the anchors of the first are positions in it or its end. -/
theorem append_restrict_right
    (ha : ∀ x ∈ ir.anchors, x ≤ ir.instructions.length) : ir.append (other.restrict kept) =
      (ir.append other).restrict (List.range ir.instructions.length ++ kept.map (ir.instructions.length + ·)) := by
  have hrange := kept_range ir.instructions.length
  have hpick : pick (ir.instructions ++ other.instructions)
      (List.range ir.instructions.length ++ kept.map (ir.instructions.length + ·)) =
        ir.instructions ++ pick other.instructions kept := by
    rw [pick_append_left_right hrange.inside, pick_range]
  have happend := append_renew ir other id (renumber kept other.instructions.length)
    (renumber (List.range ir.instructions.length ++ kept.map (ir.instructions.length + ·))
      (ir.instructions.length + other.instructions.length))
    ir.instructions (pick other.instructions kept)
    (fun x hx => by rw [renumber_append_left _ _ _ (ha x hx), renumber_range]; rfl)
    (fun x _ => by rw [renumber_append_right hrange, List.length_range])
  rw [renew_self] at happend
  rw [restrict, happend, restrict, instructions_append, hpick, List.length_append]

end IR

end Ir

end X64Emulator
