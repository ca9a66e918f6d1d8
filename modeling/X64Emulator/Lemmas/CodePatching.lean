import X64Emulator.Lemmas.CodeLinks

/-!
# What holds of the segments of a process

`Inv` says that the links between segments agree in both directions and that every table of native code leads to the code of a
segment that exists. If a promise on the run holds, it also says that every patch does, and that a call segment is recorded by
the segment it returns to. Here are the operations that add no link: searching, counting, compiling and patching.
-/

namespace X64Emulator

open Outcome

/-- The failures that the promise rules out: a pointer to a destroyed segment was followed. -/
def Dangles (P : Prop) (e : LinkFailure) : Prop := P ∧ e = .dangling

namespace CodeSegment

/-- The destinations of a segment are among its successors, and only one of the two destination records is used. -/
structure Local (s : CodeSegment) : Prop where
  fixedOnly : s.endsWithFixedDestinationJump = true → s.variableDestinationInfo = []
  variableOnly : s.endsWithFixedDestinationJump = false → ∀ slot ∈ s.fixedDestinationInfo, slot.next = none
  recorded : ∀ x ∈ s.destinations, x ∈ s.successors.targets

/-- Two states of a segment with the same links and no destination that is new. -/
structure Similar (s s' : CodeSegment) : Prop where
  block : s'.cpuBasicBlock = s.cpuBasicBlock
  ret : s'.ret = s.ret
  successors : s'.successors = s.successors
  predecessors : s'.predecessors = s.predecessors
  callPredecessors : s'.callPredecessors = s.callPredecessors
  slots : ∀ slot' ∈ s'.fixedDestinationInfo, ∃ slot ∈ s.fixedDestinationInfo, slot.next = slot'.next
  variableNext : s'.variableDestinationInfo.map (·.next) = s.variableDestinationInfo.map (·.next)

theorem Similar.refl (s : CodeSegment) : s.Similar s := ⟨rfl, rfl, rfl, rfl, rfl, fun slot h => ⟨slot, h, rfl⟩, rfl⟩

theorem mem_destinations {s : CodeSegment} {x : Nat} :
    x ∈ s.destinations ↔ (∃ slot ∈ s.fixedDestinationInfo, slot.next = some x) ∨ x ∈ s.variableDestinationInfo.map (·.next) := by
  simp [destinations, List.mem_filterMap]

/-- How a segment ends is up to its basic block. -/
theorem ends_congr {s s' : CodeSegment} (h : s'.cpuBasicBlock = s.cpuBasicBlock) :
    s'.endsWithFixedDestinationJump = s.endsWithFixedDestinationJump := by
  unfold endsWithFixedDestinationJump
  rw [h]

theorem Similar.local {s s' : CodeSegment} (h : s.Similar s') (hs : s.Local) : s'.Local := by
  have hends : s'.endsWithFixedDestinationJump = s.endsWithFixedDestinationJump := ends_congr h.block
  refine ⟨fun hfixed => ?_, fun hfixed slot' hslot' => ?_, fun x hx => ?_⟩
  · have hnil := hs.fixedOnly (hends ▸ hfixed)
    have hmap := h.variableNext
    rw [hnil] at hmap
    exact List.map_eq_nil_iff.1 hmap
  · obtain ⟨slot, hslot, hnext⟩ := h.slots slot' hslot'
    rw [← hnext]
    exact hs.variableOnly (hends ▸ hfixed) slot hslot
  · rw [h.successors]
    refine hs.recorded x (mem_destinations.2 ?_)
    rcases mem_destinations.1 hx with ⟨slot', hslot', hnext⟩ | hx
    · obtain ⟨slot, hslot, heq⟩ := h.slots slot' hslot'
      exact Or.inl ⟨slot, hslot, heq.trans hnext⟩
    · exact Or.inr (h.variableNext ▸ hx)

/-- The slots are the same after one was hit, in another order and with another count. -/
theorem hit_next {i : Nat} {slots : List FixedDestination} : ∀ slot' ∈ hit i slots, ∃ slot ∈ slots, slot.next = slot'.next := by
  have hcount : ∀ slot' ∈ slots.modify i (fun slot => { slot with nextCount := slot.nextCount + 1 }),
      ∃ slot ∈ slots, slot.next = slot'.next := by
    intro slot' hslot'
    obtain ⟨j, hj, rfl⟩ := List.mem_iff_getElem.1 hslot'
    rw [List.getElem_modify]
    rw [List.length_modify] at hj
    split
    · exact ⟨slots[j], List.getElem_mem hj, rfl⟩
    · exact ⟨slots[j], List.getElem_mem hj, rfl⟩
  intro slot' hslot'
  simp only [hit] at hslot'
  split at hslot'
  · exact hcount slot' hslot'
  · next j slot before hslot hbefore =>
    split at hslot'
    · rcases List.mem_or_eq_of_mem_set hslot' with hmem | rfl
      · rcases List.mem_or_eq_of_mem_set hmem with hmem | rfl
        · exact hcount slot' hmem
        · exact hcount _ (List.mem_of_getElem? hbefore)
      · exact hcount _ (List.mem_of_getElem? hslot)
    · exact hcount slot' hslot'
  · exact hcount slot' hslot'

end CodeSegment

namespace CodeCache

variable {P : Prop} {c c' : CodeCache} {p q this other : Nat} {s : CodeSegment}

/-- The links of the segment at a pointer. -/
def links (c : CodeCache) (p : Nat) : Option Links := (c.segments.get? p).map CodeSegment.links

/-- The compiled block is the native code of the segment. -/
def CompiledFor (c : CodeCache) (block p : Nat) : Prop := ∃ b, c.blocks.get? block = some b ∧ b.currentBb = p

/-- The compiled blocks that the segments of `B` and their tables name are the code of these segments and their destinations. -/
structure Compiled (B : Nat → Prop) (c : CodeCache) : Prop where
  jit : ∀ p s block, B p → c.segments.get? p = some s → s.jitBasicBlock = some block → c.CompiledFor block p
  nextJit : ∀ p s, B p → c.segments.get? p = some s → ∀ d ∈ s.variableDestinationInfo, ∀ block, d.nextJit = some block →
    c.CompiledFor block d.next
  table : ∀ p s block b, B p → c.segments.get? p = some s → s.jitBasicBlock = some block → c.blocks.get? block = some b →
    ∀ target, some target ∈ b.variableDestinationTable.blocks →
      ∃ x ∈ s.variableDestinationInfo.map (·.next), c.CompiledFor target x

/-- Every call segment and the segment it returns to exist, and each is recorded by the other. -/
structure Returns (c : CodeCache) : Prop where
  ret : ∀ p s r, c.segments.get? p = some s → s.ret = some r → c.segments.Live r
  calls : ∀ p s, c.segments.get? p = some s → ∀ x ∈ s.callPredecessors.targets,
    ∃ t, c.segments.get? x = some t ∧ t.ret = some p

/-- A patch leads to the code of a segment of `A`, or back to the segment whose code was patched. -/
def Patches (A : Nat → Prop) (c : CodeCache) : Prop :=
  ∀ block b, c.blocks.get? block = some b → ∀ e ∈ b.executableMemory,
    ∃ q, c.CompiledFor e.2.target q ∧ (A q ∨ q = b.currentBb)

structure Inv (P : Prop) (c : CodeCache) : Prop where
  graph : Graph c.segments.Live c.segments.Live c.links c.codeSegmentsByAddress.find
  locals : ∀ p s, c.segments.get? p = some s → s.Local
  compiled : c.Compiled c.segments.Live
  returns : P → c.Returns
  patches : P → c.Patches c.segments.Live

/-- The invariant holds again, and no segment has been destroyed. -/
structure Kept (P : Prop) (c c' : CodeCache) : Prop where
  inv : c'.Inv P
  live : ∀ p, c.segments.Live p → c'.segments.Live p

theorem Inv.kept (h : c.Inv P) : c.Kept P c := ⟨h, fun _ hp => hp⟩

theorem Kept.trans {c'' : CodeCache} (h : c.Kept P c') (h' : c'.Kept P c'') : c.Kept P c'' :=
  ⟨h'.inv, fun p hp => h'.live p (h.live p hp)⟩

/-- The segments have the same links and no new destination. -/
structure Tuned (c c' : CodeCache) : Prop where
  before : ∀ p s', c'.segments.get? p = some s' → ∃ s, c.segments.get? p = some s ∧ s.Similar s'
  after : ∀ p s, c.segments.get? p = some s → ∃ s', c'.segments.get? p = some s' ∧ s.Similar s'
  codeSegmentsByAddress : c'.codeSegmentsByAddress = c.codeSegmentsByAddress

theorem Tuned.refl (c : CodeCache) : c.Tuned c :=
  ⟨fun _ s hs => ⟨s, hs, .refl s⟩, fun _ s hs => ⟨s, hs, .refl s⟩, rfl⟩

theorem Tuned.live (h : c.Tuned c') : c'.segments.Live p ↔ c.segments.Live p := by
  constructor
  · rintro ⟨s', hs'⟩
    obtain ⟨s, hs, -⟩ := h.before p s' hs'
    exact ⟨s, hs⟩
  · rintro ⟨s, hs⟩
    obtain ⟨s', hs', -⟩ := h.after p s hs
    exact ⟨s', hs'⟩

theorem Tuned.links (h : c.Tuned c') : c'.links = c.links := by
  funext p
  unfold CodeCache.links
  cases hs : c.segments.get? p with
  | none =>
    cases hs' : c'.segments.get? p with
    | none => rfl
    | some s' =>
      obtain ⟨s, hs₂, -⟩ := h.before p s' hs'
      rw [hs] at hs₂
      cases hs₂
  | some s =>
    obtain ⟨s', hs', hsim⟩ := h.after p s hs
    rw [hs']
    simp only [Option.map_some, CodeSegment.links, CodeSegment.start, hsim.block, hsim.successors, hsim.predecessors]

theorem Returns.transfer (h : c.Returns) (hlive : c'.segments.Live = c.segments.Live)
    (hbefore : ∀ p s', c'.segments.get? p = some s' → ∃ s, c.segments.get? p = some s ∧ s'.ret = s.ret ∧
      s'.callPredecessors = s.callPredecessors) : c'.Returns := by
  refine ⟨fun p s' r hs' hr => ?_, fun p s' hs' x hx => ?_⟩
  · obtain ⟨s, hs, hret, -⟩ := hbefore p s' hs'
    exact hlive ▸ h.ret p s r hs (hret ▸ hr)
  · obtain ⟨s, hs, -, hcalls⟩ := hbefore p s' hs'
    obtain ⟨t, ht, hret⟩ := h.calls p s hs x (hcalls ▸ hx)
    have hx' : c'.segments.Live x := hlive ▸ ⟨t, ht⟩
    obtain ⟨t', ht'⟩ := hx'
    obtain ⟨t₀, ht₀, hret', -⟩ := hbefore x t' ht'
    obtain rfl : t₀ = t := Option.some.inj (ht₀.symm.trans ht)
    exact ⟨t', ht', hret'.trans hret⟩

/-- A change that touches no link keeps the invariant if the native code still leads where it should. -/
theorem Inv.tuned (h : c.Inv P) (ht : c.Tuned c') (hcompiled : c'.Compiled c.segments.Live)
    (hpatches : P → c'.Patches c.segments.Live) : c.Kept P c' := by
  have hlive : c'.segments.Live = c.segments.Live := funext fun p => propext ht.live
  refine ⟨⟨?_, fun p s' hs' => ?_, hlive ▸ hcompiled, fun hP => (h.returns hP).transfer hlive fun p s' hs' => ?_,
    hlive ▸ hpatches⟩, fun p hp => ht.live.2 hp⟩
  · rw [hlive, ht.links, ht.codeSegmentsByAddress]
    exact h.graph
  · obtain ⟨s, hs, hsim⟩ := ht.before p s' hs'
    exact hsim.local (h.locals p s hs)
  · obtain ⟨s, hs, hsim⟩ := ht.before p s' hs'
    exact ⟨s, hs, hsim.ret, hsim.callPredecessors⟩

/-- Reading through a pointer fails only where there is no segment. -/
theorem segment_found {bad : LinkFailure → Prop} (hp : bad .dangling → c.segments.Live p) :
    Post bad (fun s => c.segments.get? p = some s) (c.segment p) := by
  unfold segment
  split
  · next s hs => exact Post.ok hs
  · next hnone =>
    refine Post.error fun hbad => ?_
    obtain ⟨s, hs⟩ := hp hbad
    rw [hnone] at hs
    cases hs

theorem segment_post (hp : P → c.segments.Live p) :
    Post (Dangles P) (fun s => c.segments.get? p = some s) (c.segment p) :=
  segment_found fun hdangles => hp hdangles.1

variable {f : CodeSegment → CodeSegment}

theorem get?_modify_self (hs : c.segments.get? p = some s) : (c.modify p f).segments.get? p = some (f s) := by
  simp [modify, Heap.get?_modify_self, hs]

theorem get?_modify_of_ne (hne : q ≠ p) : (c.modify p f).segments.get? q = c.segments.get? q := by
  simp [modify, Heap.get?_modify_of_ne hne]

/-- What a changed segment was, and what the others are. -/
theorem get?_modify {s' : CodeSegment} (hs' : (c.modify p f).segments.get? q = some s') :
    (q = p ∧ ∃ s, c.segments.get? p = some s ∧ s' = f s) ∨ (q ≠ p ∧ c.segments.get? q = some s') := by
  by_cases hq : q = p
  · subst hq
    rw [modify, Heap.get?_modify_self] at hs'
    obtain ⟨s, hs, rfl⟩ := Option.map_eq_some_iff.1 hs'
    exact Or.inl ⟨rfl, s, hs, rfl⟩
  · exact Or.inr ⟨hq, by rwa [get?_modify_of_ne hq] at hs'⟩

theorem tuned_modify (hf : ∀ s, c.segments.get? p = some s → s.Similar (f s)) : c.Tuned (c.modify p f) := by
  refine ⟨fun q s' hs' => ?_, fun q s hs => ?_, rfl⟩
  · rcases get?_modify hs' with ⟨rfl, s, hs, rfl⟩ | ⟨hne, hs⟩
    · exact ⟨s, hs, hf s hs⟩
    · exact ⟨s', hs, .refl s'⟩
  · by_cases hq : q = p
    · subst hq
      exact ⟨f s, get?_modify_self hs, hf s hs⟩
    · exact ⟨s, (get?_modify_of_ne hq).trans hs, .refl s⟩

theorem Compiled.modify {B : Nat → Prop} (h : c.Compiled B)
    (hjit : ∀ s, c.segments.get? p = some s → (f s).jitBasicBlock = s.jitBasicBlock)
    (hvariable : ∀ s, c.segments.get? p = some s → (f s).variableDestinationInfo = s.variableDestinationInfo) :
    (c.modify p f).Compiled B := by
  refine ⟨fun q s' block hq hs' hb => ?_, fun q s' hq hs' d hd block hb => ?_, fun q s' block b hq hs' hb => ?_⟩
  · rcases get?_modify hs' with ⟨rfl, s, hs, rfl⟩ | ⟨-, hs⟩
    · exact h.jit q s block hq hs (hjit s hs ▸ hb)
    · exact h.jit q s' block hq hs hb
  · rcases get?_modify hs' with ⟨rfl, s, hs, rfl⟩ | ⟨-, hs⟩
    · exact h.nextJit q s hq hs d (hvariable s hs ▸ hd) block hb
    · exact h.nextJit q s' hq hs d hd block hb
  · rcases get?_modify hs' with ⟨rfl, s, hs, rfl⟩ | ⟨-, hs⟩
    · rw [hvariable s hs]
      exact h.table q s block b hq hs (hjit s hs ▸ hb)
    · exact h.table q s' block b hq hs hb

/-- The segment changes neither its links nor what it knows of native code. -/
theorem Inv.modify (h : c.Inv P) (hf : ∀ s : CodeSegment, s.Similar (f s))
    (hjit : ∀ s, (f s).jitBasicBlock = s.jitBasicBlock)
    (hvariable : ∀ s, (f s).variableDestinationInfo = s.variableDestinationInfo) : c.Kept P (c.modify p f) :=
  h.tuned (tuned_modify fun s _ => hf s) (h.compiled.modify (fun s _ => hjit s) fun s _ => hvariable s) h.patches

section Searching

theorem slotOf_post {address : Nat} {slots : List FixedDestination}
    (h : ∀ slot ∈ slots, ∀ x, slot.next = some x → c.segments.Live x) :
    Post (Dangles P) (fun _ => True) (c.slotOf address slots) := by
  induction slots with
  | nil => exact Post.ok trivial
  | cons slot slots ih =>
    unfold slotOf
    split
    · exact Post.ok trivial
    · next x hx =>
      refine Post.bind (segment_post fun _ => h slot List.mem_cons_self x hx) fun s _ => ?_
      exact Post.ite (fun _ => Post.ok trivial) fun _ =>
        Post.map (Post.mono (ih fun slot hslot => h slot (List.mem_cons_of_mem _ hslot)) fun _ _ => trivial)

/-- The destinations of a segment exist. -/
theorem Inv.destination_live (h : c.Inv P) (hs : c.segments.get? p = some s) {x : Nat} (hx : x ∈ s.destinations) :
    c.segments.Live x := by
  obtain ⟨k, hk⟩ := AddressMap.mem_targets.1 ((h.locals p s hs).recorded x hx)
  exact (h.graph.successors p s.links ⟨s, hs⟩ (by simp [links, hs]) _ hk).1

theorem Inv.slot_live (h : c.Inv P) (hs : c.segments.get? p = some s) {slot : FixedDestination}
    (hslot : slot ∈ s.fixedDestinationInfo) {x : Nat} (hx : slot.next = some x) : c.segments.Live x :=
  h.destination_live hs (CodeSegment.mem_destinations.2 (.inl ⟨slot, hslot, hx⟩))

theorem findNext_post (h : c.Inv P) (hthis : c.segments.Live this) {address : Nat} :
    Post (Dangles P) (fun r => c.Kept P r.2) (c.findNext this address) := by
  refine Post.bind (segment_post fun _ => hthis) fun s hs => Post.ite (fun _ => ?_) fun _ => Post.ok h.kept
  refine Post.bind (slotOf_post fun slot hslot x hx => h.slot_live hs hslot hx) fun found _ => ?_
  cases found with
  | none => exact Post.ok h.kept
  | some i =>
    refine Post.ok (h.modify (fun s => ?_) (fun _ => rfl) fun _ => rfl)
    exact ⟨rfl, rfl, rfl, rfl, rfl, CodeSegment.hit_next, rfl⟩

end Searching

section Tables

/-- A compiled block changes, but not the segment it belongs to. -/
theorem compiledFor_modifyBlock {f : JitBasicBlock → JitBasicBlock} (hf : ∀ b, (f b).currentBb = b.currentBb)
    {block target x : Nat} : (c.modifyBlock block f).CompiledFor target x ↔ c.CompiledFor target x := by
  unfold CompiledFor modifyBlock
  by_cases ht : target = block
  · subst ht
    simp [Heap.get?_modify_self, hf]
  · simp [Heap.get?_modify_of_ne ht]

theorem get?_modifyBlock {f : JitBasicBlock → JitBasicBlock} {block target : Nat} {b' : JitBasicBlock}
    (hb' : (c.modifyBlock block f).blocks.get? target = some b') :
    (target = block ∧ ∃ b, c.blocks.get? block = some b ∧ b' = f b) ∨ (target ≠ block ∧ c.blocks.get? target = some b') := by
  by_cases ht : target = block
  · subst ht
    rw [modifyBlock, Heap.get?_modify_self] at hb'
    obtain ⟨b, hb, rfl⟩ := Option.map_eq_some_iff.1 hb'
    exact Or.inl ⟨rfl, b, hb, rfl⟩
  · rw [modifyBlock, Heap.get?_modify_of_ne ht] at hb'
    exact Or.inr ⟨ht, hb'⟩

/-- To whom a block belongs can be told from its owner and its code. -/
theorem compiledFor_iff_view {block : Nat} : c.CompiledFor block p ↔
    ∃ v, (c.blocks.get? block).map (fun b => (b.currentBb, b.executableMemory)) = some v ∧ v.1 = p := by
  unfold CompiledFor
  constructor
  · rintro ⟨b, hb, hp⟩
    exact ⟨_, by rw [hb, Option.map_some], hp⟩
  · rintro ⟨v, hv, hp⟩
    obtain ⟨b, hb, rfl⟩ := Option.map_eq_some_iff.1 hv
    exact ⟨b, hb, hp⟩

theorem CompiledFor.unique {block : Nat} (h : c.CompiledFor block p) (h' : c.CompiledFor block q) : p = q := by
  obtain ⟨b, hb, rfl⟩ := h
  obtain ⟨b', hb', rfl⟩ := h'
  rw [Option.some.inj (hb.symm.trans hb')]

theorem Patches.modifyBlock {A : Nat → Prop} (h : c.Patches A) {f : JitBasicBlock → JitBasicBlock}
    (hf : ∀ b, (f b).currentBb = b.currentBb) {block : Nat}
    (hmem : ∀ b, ∀ e ∈ (f b).executableMemory, e ∈ b.executableMemory ∨ ∃ q, c.CompiledFor e.2.target q ∧ A q) :
    (c.modifyBlock block f).Patches A := by
  intro target b' hb' e he
  rcases get?_modifyBlock hb' with ⟨rfl, b, hb, rfl⟩ | ⟨-, hb⟩
  · rcases hmem b e he with hold | ⟨q, hfor, hq⟩
    · obtain ⟨q, hfor, hq⟩ := h target b hb e hold
      exact ⟨q, (compiledFor_modifyBlock hf).2 hfor, hf b ▸ hq⟩
    · exact ⟨q, (compiledFor_modifyBlock hf).2 hfor, .inl hq⟩
  · obtain ⟨q, hfor, hq⟩ := h target b' hb e he
    exact ⟨q, (compiledFor_modifyBlock hf).2 hfor, hq⟩

/-- The destinations stay; what they know of native code is what their segments know. -/
theorem refreshed_post {l : List VariableDestination} (h : ∀ d ∈ l, c.segments.Live d.next) :
    Post (Dangles P) (fun l' => l'.map (·.next) = l.map (·.next) ∧
      ∀ d ∈ l', ∃ t, c.segments.get? d.next = some t ∧ d.nextJit = t.jitBasicBlock) (c.refreshed l) := by
  refine Post.mono (Post.mapM fun d hd => Post.bind (segment_post fun _ => h d hd) fun t ht => Post.ok
    (p := fun d' : VariableDestination => d'.next = d.next ∧ ∃ t, c.segments.get? d'.next = some t ∧ d'.nextJit = t.jitBasicBlock)
    ⟨rfl, t, ht, rfl⟩) fun l' hl' => ?_
  clear h
  induction hl' with
  | nil => exact ⟨rfl, fun d hd => by cases hd⟩
  | cons hd _ ih =>
    obtain ⟨hnext, hjit⟩ := hd
    refine ⟨by rw [List.map_cons, List.map_cons, hnext, ih.1], fun d hmem => ?_⟩
    rcases List.mem_cons.1 hmem with rfl | hmem
    · exact hjit
    · exact ih.2 d hmem

theorem syncBlockLookupTable_tuned (hcompiled : c.Compiled c.segments.Live) (hpatches : P → c.Patches c.segments.Live)
    (hs : c.segments.get? this = some s) (hlive : ∀ x ∈ s.variableDestinationInfo.map (·.next), c.segments.Live x) :
    Post (Dangles P) (fun c' => c.Tuned c' ∧ c'.Compiled c.segments.Live ∧ (P → c'.Patches c.segments.Live))
      (c.syncBlockLookupTable this) := by
  refine Post.bind (segment_post fun _ => ⟨s, hs⟩) fun s₀ hs₀ => ?_
  obtain rfl : s₀ = s := Option.some.inj (hs₀.symm.trans hs)
  split
  · exact Post.ok ⟨.refl c, hcompiled, hpatches⟩
  · next block hjit =>
    have hlive : ∀ d ∈ s₀.variableDestinationInfo, c.segments.Live d.next := fun d hd => hlive _ (List.mem_map_of_mem hd)
    refine Post.bind (refreshed_post hlive) fun l ⟨hnext, hrefreshed⟩ => Post.ok ?_
    have hblock : c.CompiledFor block this := hcompiled.jit this s₀ block ⟨s₀, hs⟩ hs hjit
    have hnew : ∀ d ∈ l, ∀ target, d.nextJit = some target → c.CompiledFor target d.next := by
      intro d hd target htarget
      obtain ⟨t, ht, heq⟩ := hrefreshed d hd
      exact hcompiled.jit d.next t target ⟨t, ht⟩ ht (heq ▸ htarget)
    have htuned := tuned_modify (c := c) (p := this) (f := fun s => { s with variableDestinationInfo := l }) fun t ht => by
      obtain rfl : t = s₀ := Option.some.inj (ht.symm.trans hs)
      exact ⟨rfl, rfl, rfl, rfl, rfl, fun slot hslot => ⟨slot, hslot, rfl⟩, hnext⟩
    have hsync : ∀ b : JitBasicBlock, (b.syncBlockLookupTable l).currentBb = b.currentBb := fun _ => rfl
    have hfor : ∀ {target x}, c.CompiledFor target x → ((c.modify this fun s => { s with variableDestinationInfo := l }).modifyBlock
        block (·.syncBlockLookupTable l)).CompiledFor target x := (compiledFor_modifyBlock hsync).2
    have hpatches' : P → (c.modify this fun s => { s with variableDestinationInfo := l }).Patches c.segments.Live := hpatches
    refine ⟨⟨htuned.before, htuned.after, rfl⟩, ⟨fun p s' b hp hs' hb => ?_, fun p s' hp hs' d hd b hb => ?_,
      fun p s' t b hp hs' ht hb target htarget => ?_⟩, fun hP => (hpatches' hP).modifyBlock hsync fun _ e he => .inl he⟩
    · rcases get?_modify hs' with ⟨rfl, s₁, hs₁, rfl⟩ | ⟨-, hs'⟩
      · exact hfor (hcompiled.jit p s₁ b hp hs₁ hb)
      · exact hfor (hcompiled.jit p s' b hp hs' hb)
    · rcases get?_modify hs' with ⟨rfl, s₁, hs₁, rfl⟩ | ⟨-, hs'⟩
      · exact hfor (hnew d hd b hb)
      · exact hfor (hcompiled.nextJit p s' hp hs' d hd b hb)
    · rcases get?_modify hs' with ⟨rfl, s₁, hs₁, rfl⟩ | ⟨hne, hold⟩
      · obtain rfl : s₁ = s₀ := Option.some.inj (hs₁.symm.trans hs)
        obtain rfl : t = block := Option.some.inj (ht.symm.trans hjit)
        rcases get?_modifyBlock hb with ⟨-, b₀, -, rfl⟩ | ⟨hne, -⟩
        · obtain ⟨d, hd, hd'⟩ := List.mem_map.1 htarget
          exact ⟨d.next, List.mem_map_of_mem hd, hfor (hnew d hd target hd')⟩
        · exact absurd rfl hne
      · rcases get?_modifyBlock hb with ⟨rfl, -⟩ | ⟨-, hb⟩
        · exact absurd ((hcompiled.jit p s' t hp hold ht).unique hblock) hne
        · obtain ⟨x, hx, hfor'⟩ := hcompiled.table p s' t b hp hold ht hb target htarget
          exact ⟨x, hx, hfor hfor'⟩

theorem syncBlockLookupTable_post (h : c.Inv P) (hthis : c.segments.Live this) :
    Post (Dangles P) (c.Kept P) (c.syncBlockLookupTable this) := by
  obtain ⟨s, hs⟩ := hthis
  exact Post.mono (syncBlockLookupTable_tuned h.compiled h.patches hs fun x hx =>
    h.destination_live hs (CodeSegment.mem_destinations.2 (.inr hx))) fun c' ⟨ht, hc, hp⟩ => h.tuned ht hc hp

end Tables

section Patching

/-- Native code is patched to lead to a segment that exists. -/
theorem Inv.modifyBlock (h : c.Inv P) {f : JitBasicBlock → JitBasicBlock} (hf : ∀ b, (f b).currentBb = b.currentBb)
    (htable : ∀ b, (f b).variableDestinationTable = b.variableDestinationTable) {block : Nat}
    (hmem : ∀ b, ∀ e ∈ (f b).executableMemory, e ∈ b.executableMemory ∨ ∃ q, c.CompiledFor e.2.target q ∧ c.segments.Live q) :
    c.Kept P (c.modifyBlock block f) := by
  have htuned := Tuned.refl c
  refine h.tuned ⟨htuned.before, htuned.after, rfl⟩ ⟨fun p s b hp hs hb => ?_, fun p s hp hs d hd b hb => ?_,
    fun p s t b hp hs ht hb target htarget => ?_⟩ (fun hP => (h.patches hP).modifyBlock hf hmem)
  · exact (compiledFor_modifyBlock hf).2 (h.compiled.jit p s b hp hs hb)
  · exact (compiledFor_modifyBlock hf).2 (h.compiled.nextJit p s hp hs d hd b hb)
  · have hold : ∃ x ∈ s.variableDestinationInfo.map (·.next), c.CompiledFor target x := by
      rcases get?_modifyBlock hb with ⟨rfl, b₀, hb₀, rfl⟩ | ⟨-, hb⟩
      · exact h.compiled.table p s t b₀ hp hs ht hb₀ target (htable b₀ ▸ htarget)
      · exact h.compiled.table p s t b hp hs ht hb target htarget
    obtain ⟨x, hx, hfor⟩ := hold
    exact ⟨x, hx, (compiledFor_modifyBlock hf).2 hfor⟩

/-- What a patch makes of a block: it is the code of the same segment, and the only new place in it leads to the target. -/
structure PatchedTo (target : Nat) (b b' : JitBasicBlock) : Prop where
  currentBb : b'.currentBb = b.currentBb
  table : b'.variableDestinationTable = b.variableDestinationTable
  memory : ∀ e ∈ b'.executableMemory, e ∈ b.executableMemory ∨ e.2.target = target

theorem PatchedTo.refl (target : Nat) (b : JitBasicBlock) : PatchedTo target b b := ⟨rfl, rfl, fun _ he => .inl he⟩

theorem patchedTo_write {b : JitBasicBlock} {offset target : Nat} {patch : Patch} (h : patch.target = target) :
    PatchedTo target b (b.write offset patch) := by
  refine ⟨rfl, rfl, fun e he => ?_⟩
  rcases List.mem_cons.1 he with rfl | he
  · exact Or.inr h
  · exact Or.inl (List.mem_filter.1 he).1

theorem patchedTo_tryPatchJump {b : JitBasicBlock} {continuing : Bool} {next : Nat} :
    PatchedTo next b (b.tryPatchJump continuing next) := by
  have hwrite : ∀ offset, PatchedTo next b (b.write offset (.jumpTo next)) := fun _ => patchedTo_write rfl
  unfold JitBasicBlock.tryPatchJump
  split
  · exact .refl next b
  · split
    · split
      · exact .refl next b
      · next offset _ => exact ⟨rfl, rfl, (hwrite offset).memory⟩
    · split
      · exact .refl next b
      · next offset _ => exact ⟨rfl, rfl, (hwrite offset).memory⟩

theorem patchedTo_tryPatchPushCallstack {b : JitBasicBlock} {next : Nat} :
    PatchedTo next b (b.tryPatchPushCallstack next) := by
  have hwrite : ∀ offset, PatchedTo next b (b.write offset (.pushCallstack next)) := fun _ => patchedTo_write rfl
  unfold JitBasicBlock.tryPatchPushCallstack
  split
  · exact .refl next b
  · next offset _ _ => exact ⟨rfl, rfl, (hwrite offset).memory⟩

theorem patchWith_post (h : c.Inv P) {block : Nat} {next : Option Nat}
    {patch : JitBasicBlock → CodeSegment → Nat → JitBasicBlock} (hnext : P → ∀ x, next = some x → c.segments.Live x)
    (hpatch : ∀ b s target, PatchedTo target b (patch b s target)) :
    Post (Dangles P) (c.Kept P) (c.patchWith block next patch) := by
  unfold patchWith
  split
  · exact Post.ok h.kept
  · next x =>
    refine Post.bind (segment_post fun hP => hnext hP x rfl) fun s hs => ?_
    split
    · exact Post.ok h.kept
    · next target htarget =>
      refine Post.ok (h.modifyBlock (fun b => (hpatch b s target).currentBb) (fun b => (hpatch b s target).table) fun b e he => ?_)
      rcases (hpatch b s target).memory e he with hold | heq
      · exact Or.inl hold
      · exact Or.inr ⟨x, heq ▸ h.compiled.jit x s target ⟨s, hs⟩ hs htarget, s, hs⟩

theorem patchCode_post (h : c.Inv P) (hs : c.segments.get? this = some s) {block : Nat} :
    Post (Dangles P) (c.Kept P) (c.patchCode s block) := by
  refine Post.bind (patchWith_post h (fun hP x hx => (h.returns hP).ret this s x hs hx)
    fun b _ _ => patchedTo_tryPatchPushCallstack) fun c₁ h₁ => ?_
  refine Post.foldlM h₁ fun c₂ slot hslot h₂ => ?_
  refine Post.mono (patchWith_post h₂.inv (fun _ x hx => h₂.live x (h.slot_live hs hslot hx))
    fun b _ _ => patchedTo_tryPatchJump) fun c₃ h₃ => h₂.trans h₃

theorem tryPatch_post (h : c.Inv P) (hthis : P → c.segments.Live this) : Post (Dangles P) (c.Kept P) (c.tryPatch this) := by
  refine Post.bind (segment_post hthis) fun s hs => ?_
  split
  · exact Post.ok h.kept
  · next block hjit =>
    have hpatch : Post (Dangles P) (c.Kept P) (c.patchPending s block) :=
      Post.ite (fun _ => patchCode_post h hs) fun _ => Post.ok h.kept
    exact Post.bind hpatch fun c₁ h₁ =>
      Post.mono (syncBlockLookupTable_post h₁.inv (h₁.live this ⟨s, hs⟩)) fun c₂ h₂ => h₁.trans h₂

end Patching

end CodeCache

end X64Emulator
