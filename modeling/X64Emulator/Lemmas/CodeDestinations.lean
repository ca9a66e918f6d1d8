import X64Emulator.Lemmas.CodeViews
import Mathlib.Data.List.Forall2

/-!
# The destinations of the segments that stay

A removal takes the segments that are removed out of the slots of the others, and it takes every destination out of a table
that one of them is in. `Purged` says this of the segments that stay, in terms of what was there before the removal.
-/

namespace X64Emulator

open Outcome

namespace CodeCache

variable {c c' c₀ : CodeCache} {victims : List Nat} {this p q S start : Nat} {s s₀ : CodeSegment}

/-- The table in which the native code of a block looks its destinations up. -/
def tableOf (c : CodeCache) (block : Nat) : Option BlockLookupTable :=
  (c.blocks.get? block).map (·.variableDestinationTable)

def emptyTable : BlockLookupTable := ⟨0, [], [], []⟩

/-- The segment is recorded as coming before another one. -/
def Before (c : CodeCache) (q x : Nat) : Prop := ∃ t, c.segments.get? x = some t ∧ q ∈ t.predecessors.targets

/-- The variable destinations of a segment, and the table they are in, are as they were. -/
structure Untouched (c₀ c : CodeCache) (s₀ s : CodeSegment) : Prop where
  destinations : s.variableDestinationInfo = s₀.variableDestinationInfo
  successors : s.successors = s₀.successors
  table : ∀ block, s₀.jitBasicBlock = some block → c.tableOf block = c₀.tableOf block

/-- No destination is left, neither in the record nor in the table. -/
structure Cleared (c : CodeCache) (s₀ s : CodeSegment) : Prop where
  destinations : s.variableDestinationInfo = []
  successors : ∀ e ∈ s.successors.entries, e ∈ s₀.successors.entries
  table : ∀ block t, s₀.jitBasicBlock = some block → c.tableOf block = some t → t = emptyTable

/-- What the removal of `victims` has made of the segment `q`. -/
structure PurgedTo (c₀ c : CodeCache) (victims : List Nat) (q : Nat) (s₀ s : CodeSegment) : Prop where
  block : s.cpuBasicBlock = s₀.cpuBasicBlock
  predecessors : ∀ x ∈ s.predecessors.targets, x ∈ s₀.predecessors.targets
  jit : s.jitBasicBlock = s₀.jitBasicBlock ∨ q ∈ victims ∧ s.jitBasicBlock = none
  slots : q ∉ victims → List.Forall₂ (fun slot₀ slot : FixedDestination => slot.next = slot₀.next ∨
    slot.next = none ∧ ∃ x ∈ victims, slot₀.next = some x) s₀.fixedDestinationInfo s.fixedDestinationInfo
  destinations : q ∉ victims → s₀.endsWithFixedDestinationJump = false →
    Untouched c₀ c s₀ s ∨ ((∃ x ∈ victims, c₀.Before q x) ∧ Cleared c s₀ s)

/-- What the removal of `victims` has made of the segments. -/
def Purged (c₀ : CodeCache) (victims : List Nat) (c : CodeCache) : Prop :=
  ∀ q s, c.segments.get? q = some s → ∃ s₀, c₀.segments.get? q = some s₀ ∧ PurgedTo c₀ c victims q s₀ s

theorem purgedTo_refl (q : Nat) (s : CodeSegment) : PurgedTo c c victims q s s :=
  ⟨rfl, fun _ hx => hx, .inl rfl, fun _ => List.forall₂_same.2 fun _ _ => .inl rfl, fun _ _ => .inl ⟨rfl, rfl, fun _ _ => rfl⟩⟩

theorem Purged.refl (c : CodeCache) : c.Purged victims c := fun q s hs => ⟨s, hs, purgedTo_refl q s⟩

/-- A change of the cache that a segment and its table do not notice. -/
theorem PurgedTo.congr (h : PurgedTo c₀ c victims q s₀ s) (htable : ∀ block, s₀.jitBasicBlock = some block →
    c'.tableOf block = c.tableOf block) : PurgedTo c₀ c' victims q s₀ s := by
  refine ⟨h.block, h.predecessors, h.jit, h.slots, fun hq hvariable => ?_⟩
  rcases h.destinations hq hvariable with hold | ⟨hbefore, hcleared⟩
  · exact Or.inl ⟨hold.destinations, hold.successors, fun block hb => (htable block hb).trans (hold.table block hb)⟩
  · exact Or.inr ⟨hbefore, hcleared.destinations, hcleared.successors, fun block t hb ht =>
      hcleared.table block t hb ((htable block hb).symm.trans ht)⟩

/-- A segment forgets predecessors, and one that is removed may forget anything but its basic block. -/
theorem Purged.modify (h : c₀.Purged victims c) {f : CodeSegment → CodeSegment} (hblock : ∀ s, (f s).cpuBasicBlock = s.cpuBasicBlock)
    (hpred : ∀ s, ∀ x ∈ (f s).predecessors.targets, x ∈ s.predecessors.targets)
    (hjit : ∀ s, (f s).jitBasicBlock = s.jitBasicBlock ∨ p ∈ victims ∧ (f s).jitBasicBlock = none)
    (hstay : p ∉ victims → ∀ s, (f s).fixedDestinationInfo = s.fixedDestinationInfo ∧
      (f s).variableDestinationInfo = s.variableDestinationInfo ∧ (f s).successors = s.successors) :
    c₀.Purged victims (c.modify p f) := by
  intro q s' hs'
  rcases get?_modify hs' with ⟨rfl, s, hs, rfl⟩ | ⟨-, hs⟩
  · obtain ⟨s₀, hs₀, hpurged⟩ := h q s hs
    refine ⟨s₀, hs₀, (hblock s).trans hpurged.block, fun x hx => hpurged.predecessors x (hpred s x hx), ?_,
      fun hq => ?_, fun hq hvariable => ?_⟩
    · rcases hjit s with hsame | hnone
      · exact hsame ▸ hpurged.jit
      · exact Or.inr hnone
    · rw [(hstay hq s).1]
      exact hpurged.slots hq
    · obtain ⟨-, hdest, hsucc⟩ := hstay hq s
      rcases hpurged.destinations hq hvariable with hold | ⟨hbefore, hcleared⟩
      · exact Or.inl ⟨hdest.trans hold.destinations, hsucc.trans hold.successors, hold.table⟩
      · exact Or.inr ⟨hbefore, hdest.trans hcleared.destinations, hsucc ▸ hcleared.successors, hcleared.table⟩
  · obtain ⟨s₀, hs₀, hpurged⟩ := h q s' hs
    exact ⟨s₀, hs₀, hpurged.congr fun _ _ => rfl⟩

theorem tableOf_modifyBlock {f : JitBasicBlock → JitBasicBlock} {block target : Nat} (hne : target ≠ block) :
    (c.modifyBlock block f).tableOf target = c.tableOf target := by
  rw [tableOf, modifyBlock, Heap.get?_modify_of_ne hne, tableOf]

/-- The table of a segment that loses a destination is filled again, and the record that remains is the same whatever the table is
filled with. -/
theorem syncIf_effect (hs : c.segments.get? this = some s) :
    Yields (fun c' : CodeCache =>
        (∀ q, c'.segments.get? q = (c.modify this (·.removeDestination S)).segments.get? q) ∧
        (∀ block, s.jitBasicBlock ≠ some block → c'.tableOf block = c.tableOf block) ∧
        (s.endsWithFixedDestinationJump = false → ∀ block t, s.jitBasicBlock = some block → c'.tableOf block = some t →
          t = emptyTable))
      ((c.modify this (·.removeDestination S)).syncIf (!s.endsWithFixedDestinationJump) this) := by
  have hget : (c.modify this (·.removeDestination S)).segments.get? this = some (s.removeDestination S) := get?_modify_self hs
  obtain ⟨-, hjit, -, -, -, hvariable⟩ := get?_removeDestination (s := s) (S := S)
  by_cases hfixed : s.endsWithFixedDestinationJump = true
  · rw [syncIf, if_neg (by simp [hfixed])]
    exact Post.ok ⟨fun _ => rfl, fun _ _ => rfl, fun hends => absurd (hfixed.symm.trans hends) (by simp)⟩
  · rw [if_neg hfixed] at hvariable
    rw [syncIf, if_pos (by simpa using hfixed)]
    refine Post.bind (segment_found False.elim) fun t ht => ?_
    obtain rfl : t = s.removeDestination S := Option.some.inj (ht.symm.trans hget)
    split
    · next hnone =>
      refine Post.ok ⟨fun _ => rfl, fun _ _ => rfl, fun _ block t hb => ?_⟩
      rw [hjit, hb] at hnone
      cases hnone
    · next block hblock =>
      have hrefreshed : (c.modify this (·.removeDestination S)).refreshed [] = .ok [] := rfl
      rw [hvariable, hrefreshed]
      refine Post.ok ⟨fun q => ?_, fun target htarget => ?_, fun _ target t hb ht => ?_⟩
      · by_cases hq : q = this
        · subst hq
          refine (get?_modify_self hget).trans (Eq.trans ?_ hget.symm)
          rw [← hvariable]
        · exact get?_modify_of_ne hq
      · refine tableOf_modifyBlock ?_
        rintro rfl
        exact htarget (hjit ▸ hblock)
      · obtain rfl : block = target := Option.some.inj (hblock.symm.trans (hjit.trans hb))
        obtain ⟨b, hb', rfl⟩ := Option.map_eq_some_iff.1 ht
        rcases get?_modifyBlock hb' with ⟨-, b₀, -, rfl⟩ | ⟨hne, -⟩
        · rfl
        · exact absurd rfl hne

/-- A segment that loses a successor: its table is filled again from what is left. -/
theorem removeSucessor_effect :
    Yields (fun c' => ∃ s, c.segments.get? this = some s ∧
      (∀ q, c'.segments.get? q = (c.modify this fun s => { s.removeDestination S with
        successors := (s.removeDestination S).successors.erase start }).segments.get? q) ∧
      (∀ block, s.jitBasicBlock ≠ some block → c'.tableOf block = c.tableOf block) ∧
      (s.endsWithFixedDestinationJump = false → ∀ block t, s.jitBasicBlock = some block → c'.tableOf block = some t →
        t = emptyTable))
      (c.removeSucessor this S start) := by
  refine Post.bind (segment_found False.elim) fun s hs => ?_
  refine Post.bind (syncIf_effect (S := S) hs) fun c₂ hsync => ?_
  obtain ⟨hsegments, hothers, htable⟩ := hsync
  refine Post.ok ⟨s, hs, fun q => ?_, hothers, htable⟩
  by_cases hq : q = this
  · subst hq
    rw [get?_modify_self hs]
    exact get?_modify_self ((hsegments q).trans (get?_modify_self hs))
  · rw [get?_modify_of_ne hq, get?_modify_of_ne hq, hsegments q, get?_modify_of_ne hq]

/-- No two segments have the same native code. -/
def OwnBlocks (c : CodeCache) : Prop := ∀ p q s t block, c.segments.get? p = some s → c.segments.get? q = some t →
  s.jitBasicBlock = some block → t.jitBasicBlock = some block → p = q

theorem Inv.ownBlocks {P : Prop} (h : c.Inv P) : c.OwnBlocks := fun p q s t block hs ht hp hq =>
  (h.compiled.jit p s block ⟨s, hs⟩ hs hp).unique (h.compiled.jit q t block ⟨t, ht⟩ ht hq)

theorem removeSucessor_purged (hown : c₀.OwnBlocks) (h : c₀.Purged victims c) (hS : S ∈ victims) (hbefore : c₀.Before this S) :
    Yields (c₀.Purged victims) (c.removeSucessor this S start) := by
  refine Post.mono removeSucessor_effect fun c' ⟨s, hs, hget, hothers, htable⟩ q s' hs' => ?_
  obtain ⟨s₀, hs₀, hpurged⟩ := h this s hs
  rw [hget q] at hs'
  rcases get?_modify hs' with ⟨rfl, t, ht, rfl⟩ | ⟨hne, ht⟩
  · obtain rfl : t = s := Option.some.inj (ht.symm.trans hs)
    obtain ⟨hblock, hjit, -, hlinks, -, hvariable⟩ := get?_removeDestination (s := t) (S := S)
    have hpred : (t.removeDestination S).predecessors = t.predecessors := congrArg Links.predecessors hlinks
    have hsucc : (t.removeDestination S).successors = t.successors := congrArg Links.successors hlinks
    refine ⟨s₀, hs₀, hblock.trans hpurged.block, fun x hx => hpurged.predecessors x (hpred ▸ hx), ?_,
      fun hq => ?_, fun hq hends => .inr ⟨⟨S, hS, hbefore⟩, ?_, fun e he => ?_, fun block u hb hu => ?_⟩⟩
    · show (t.removeDestination S).jitBasicBlock = _ ∨ _ ∧ (t.removeDestination S).jitBasicBlock = _
      rw [hjit]
      exact hpurged.jit
    · show List.Forall₂ _ _ (t.removeDestination S).fixedDestinationInfo
      unfold CodeSegment.removeDestination
      split
      · refine List.forall₂_map_right_iff.2 ((hpurged.slots hq).imp fun slot₀ slot hslot => ?_)
        split
        · next hnext =>
          rcases hslot with hsame | ⟨hnone, -⟩
          · exact Or.inr ⟨rfl, S, hS, hsame.symm.trans hnext⟩
          · rw [hnone] at hnext
            cases hnext
        · exact hslot
      · exact hpurged.slots hq
    · have hends' : t.endsWithFixedDestinationJump = false := (CodeSegment.ends_congr hpurged.block).trans hends
      exact hvariable.trans (if_neg (by simp [hends']))
    · have he : e ∈ t.successors.entries := hsucc ▸ (AddressMap.mem_erase.1 he).1
      rcases hpurged.destinations hq hends with hold | ⟨-, hcleared⟩
      · exact hold.successors ▸ he
      · exact hcleared.successors e he
    · have hends' : t.endsWithFixedDestinationJump = false := (CodeSegment.ends_congr hpurged.block).trans hends
      rcases hpurged.jit with hsame | ⟨hmem, -⟩
      · exact htable hends' block u (hsame.trans hb) hu
      · exact absurd hmem hq
  · obtain ⟨t₀, ht₀, hkept⟩ := h q s' ht
    refine ⟨t₀, ht₀, hkept.congr fun block hb => hothers block fun hb' => hne ?_⟩
    rcases hpurged.jit with hsame | ⟨-, hnone⟩
    · exact hown q this t₀ s₀ block ht₀ hs₀ hb (hsame.symm.trans hb')
    · rw [hnone] at hb'
      cases hb'

theorem removePredecessor_purged (h : c₀.Purged victims c) :
    Yields (c₀.Purged victims) (c.removePredecessor this start) := by
  refine Post.skip fun _ => Post.ok (h.modify (fun _ => rfl) (fun s x hx => ?_) (fun _ => .inl rfl)
    fun _ _ => ⟨rfl, rfl, rfl⟩)
  obtain ⟨k, hk⟩ := AddressMap.mem_targets.1 hx
  exact AddressMap.mem_targets.2 ⟨k, (AddressMap.mem_erase.1 hk).1⟩

theorem removeCallPredecessor_purged (h : c₀.Purged victims c) :
    Yields (c₀.Purged victims) (c.removeCallPredecessor this start) :=
  Post.skip fun _ => Post.ok (h.modify (fun _ => rfl) (fun _ _ hx => hx) (fun _ => .inl rfl)
    fun _ _ => ⟨rfl, rfl, rfl⟩)

theorem removeFromCaches_purged (hown : c₀.OwnBlocks) (h : c₀.Purged victims c) (hS : S ∈ victims) :
    Yields (c₀.Purged victims) (c.removeFromCaches S) := by
  refine Post.bind (segment_found False.elim) fun s hs => ?_
  obtain ⟨s₀, hs₀, hpurged⟩ := h S s hs
  have hfirst : Yields (c₀.Purged victims)
      (s.predecessors.targets.foldlM (fun c prev => c.removeSucessor prev S s.start) c) :=
    Post.foldlM h fun c₁ prev hprev h₁ => removeSucessor_purged hown h₁ hS ⟨s₀, hs₀, hpurged.predecessors prev hprev⟩
  refine Post.bind hfirst fun c₁ h₁ => ?_
  have h₁' : c₀.Purged victims (c₁.modify S fun s => { s with predecessors := .empty }) :=
    h₁.modify (fun _ => rfl) (fun _ _ hx => by cases hx) (fun _ => .inl rfl) fun hstay => absurd hS hstay
  refine Post.skip fun s₁ => ?_
  refine Post.bind (Post.foldlM h₁' fun c₂ _ _ h₂ => removePredecessor_purged h₂) fun c₂ h₂ => ?_
  have h₂' : c₀.Purged victims (c₂.modify S fun s => { s with successors := .empty }) :=
    h₂.modify (fun _ => rfl) (fun _ _ hx => hx) (fun _ => .inl rfl) fun hstay => absurd hS hstay
  refine Post.skip fun s₂ => Post.bind (Post.foldlM h₂' fun c₃ _ _ h₃ => removeCallPredecessor_purged h₃)
    fun c₃ h₃ => Post.ok ?_
  exact h₃.modify (fun _ => rfl) (fun _ _ hx => hx) (fun _ => .inr ⟨hS, rfl⟩) fun hstay => absurd hS hstay

/-- What a removal has made of a segment that is still there after it. -/
theorem removeSegments_purged (hown : c.OwnBlocks) : Yields (fun c' => ∀ q s, c'.segments.get? q = some s →
    q ∉ victims ∧ ∃ s₀, c.segments.get? q = some s₀ ∧ PurgedTo c c' victims q s₀ s) (c.removeSegments victims) := by
  have hloop : Yields (c.Purged victims) (victims.foldlM (fun c p => do
      let s ← c.segment p
      removeFromCaches { c with codeSegmentsByAddress := c.codeSegmentsByAddress.erase s.start } p) c) :=
    Post.foldlM (Purged.refl c) fun c' p hp h => Post.skip fun s => removeFromCaches_purged hown (fun q t ht => by
      obtain ⟨s₀, hs₀, hpurged⟩ := h q t ht
      exact ⟨s₀, hs₀, hpurged.congr fun _ _ => rfl⟩) hp
  refine Post.bind hloop fun c' h => Post.ok fun q s hs => ?_
  by_cases hq : q ∈ victims
  · rw [Heap.get?_freeAll_of_mem hq] at hs
    cases hs
  · rw [Heap.get?_freeAll_of_not_mem hq] at hs
    obtain ⟨s₀, hs₀, hpurged⟩ := h q s hs
    exact ⟨hq, s₀, hs₀, hpurged.congr fun _ _ => rfl⟩

end CodeCache

end X64Emulator
