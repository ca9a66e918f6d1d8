import X64Emulator.Lemmas.CodePatching

/-!
# Compiling segments and linking them

The operations that add a block or a link keep the invariant.
-/

namespace X64Emulator

open Outcome

namespace CodeCache

variable {P : Prop} {c c' : CodeCache} {p q this other : Nat} {s : CodeSegment}

section Compiling

/-- The segment has native code of its own from now on. -/
def withBlock (c : CodeCache) (this : Nat) (native : NativeBasicBlock) : CodeCache :=
  { c.modify this fun s => { s with jitBasicBlock := some c.blocks.next } with
    blocks := c.blocks.alloc (.create native this) }

variable {native : NativeBasicBlock}

theorem get?_withBlock {block : Nat} {b : JitBasicBlock}
    (hb : (c.withBlock this native).blocks.get? block = some b) :
    (block = c.blocks.next ∧ b = .create native this) ∨ (block ≠ c.blocks.next ∧ c.blocks.get? block = some b) := by
  by_cases hblock : block = c.blocks.next
  · subst hblock
    rw [withBlock, Heap.get?_alloc_next] at hb
    exact Or.inl ⟨rfl, (Option.some.inj hb).symm⟩
  · rw [withBlock, Heap.get?_alloc_of_ne hblock] at hb
    exact Or.inr ⟨hblock, hb⟩

theorem CompiledFor.withBlock {block : Nat} (h : c.CompiledFor block p) :
    (c.withBlock this native).CompiledFor block p := by
  obtain ⟨b, hb, hfor⟩ := h
  have hne : block ≠ c.blocks.next := Nat.ne_of_lt (Heap.Live.lt_next ⟨b, hb⟩)
  exact ⟨b, (Heap.get?_alloc_of_ne hne).trans hb, hfor⟩

theorem compiledFor_next : (c.withBlock this native).CompiledFor c.blocks.next this :=
  ⟨_, Heap.get?_alloc_next, rfl⟩

theorem Inv.withBlock (h : c.Inv P) : c.Kept P (c.withBlock this native) := by
  have htuned := tuned_modify (c := c) (p := this) (f := fun s => { s with jitBasicBlock := some c.blocks.next }) fun s _ =>
    ⟨rfl, rfl, rfl, rfl, rfl, fun slot hslot => ⟨slot, hslot, rfl⟩, rfl⟩
  refine h.tuned ⟨htuned.before, htuned.after, rfl⟩ ⟨fun p s' b hp hs' hb => ?_, fun p s' hp hs' d hd b hb => ?_,
    fun p s' t b hp hs' ht hb target htarget => ?_⟩ fun hP block b hb e he => ?_
  · rcases get?_modify hs' with ⟨rfl, s, hs, rfl⟩ | ⟨-, hs⟩
    · obtain rfl := Option.some.inj hb
      exact compiledFor_next
    · exact (h.compiled.jit p s' b hp hs hb).withBlock
  · rcases get?_modify hs' with ⟨rfl, s, hs, rfl⟩ | ⟨-, hs⟩
    · exact (h.compiled.nextJit p s hp hs d hd b hb).withBlock
    · exact (h.compiled.nextJit p s' hp hs d hd b hb).withBlock
  · rcases get?_withBlock hb with ⟨-, rfl⟩ | ⟨hne, hb⟩
    · cases htarget
    · rcases get?_modify hs' with ⟨rfl, s, hs, rfl⟩ | ⟨-, hs⟩
      · exact absurd (Option.some.inj ht).symm hne
      · obtain ⟨x, hx, hfor⟩ := h.compiled.table p s' t b hp hs ht hb target htarget
        exact ⟨x, hx, hfor.withBlock⟩
  · rcases get?_withBlock hb with ⟨-, rfl⟩ | ⟨-, hb⟩
    · cases he
    · obtain ⟨q, hfor, hq⟩ := h.patches hP block b hb e he
      exact ⟨q, hfor.withBlock, hq⟩

/-- The segments that a segment records as its predecessors and callers exist. -/
theorem Inv.predecessor_live (h : c.Inv P) (hP : P) (hs : c.segments.get? this = some s) :
    ∀ x ∈ this :: s.predecessors.targets ++ s.callPredecessors.targets, c.segments.Live x := by
  intro x hx
  rcases List.mem_append.1 hx with hx | hx
  · rcases List.mem_cons.1 hx with rfl | hx
    · exact ⟨s, hs⟩
    · obtain ⟨k, hk⟩ := AddressMap.mem_targets.1 hx
      exact (h.graph.predecessors this s.links ⟨s, hs⟩ (by simp [links, hs]) _ hk).1
  · obtain ⟨t, ht, -⟩ := (h.returns hP).calls this s hs x hx
    exact ⟨t, ht⟩

theorem install_post (h : c.Inv P) (hthis : P → c.segments.Live this) :
    Post (Dangles P) (c.Kept P) (c.install this native) := by
  refine Post.bind (segment_post hthis) fun s hs => Post.ite (fun _ => ?_) fun _ => Post.ok h.withBlock
  refine Post.foldlM h.withBlock fun c₁ x hx h₁ => ?_
  exact Post.mono (tryPatch_post h₁.inv fun hP => h₁.live x (h.predecessor_live hP hs x hx)) fun c₂ h₂ => h₁.trans h₂

theorem installIf_post (h : c.Inv P) (hthis : P → c.segments.Live this) {native : Option NativeBasicBlock} :
    Post (Dangles P) (c.Kept P) (c.installIf this native) := by
  cases native with
  | none => exact Post.ok h.kept
  | some native => exact install_post h hthis

theorem tryCompile_post (h : c.Inv P) {compiler : SegmentCompiler} (hthis : P → c.segments.Live this) :
    Post (Dangles P) (fun r => c.Kept P r.1 ∧ (P → ∀ x ∈ r.2, c.segments.Live x)) (c.tryCompile compiler this) := by
  refine Post.bind (segment_post hthis) fun s hs => Post.ite (fun _ => ?_) fun _ => Post.ite (fun _ => ?_) fun _ => ?_
  · refine Post.ok ⟨h.modify (fun s => ?_) (fun _ => rfl) fun _ => rfl, fun _ x hx => by cases hx⟩
    exact ⟨rfl, rfl, rfl, rfl, rfl, fun slot hslot => ⟨slot, hslot, rfl⟩, rfl⟩
  · exact Post.ok ⟨h.kept, fun _ x hx => by cases hx⟩
  · refine Post.bind (installIf_post h hthis) fun c₁ h₁ => Post.ok ⟨h₁.trans ?_, fun hP x hx => ?_⟩
    · refine h₁.inv.modify (fun s => ?_) (fun _ => rfl) fun _ => rfl
      exact ⟨rfl, rfl, rfl, rfl, rfl, fun slot hslot => ⟨slot, hslot, rfl⟩, rfl⟩
    · rcases List.mem_append.1 hx with hx | hx
      · exact h.destination_live hs hx
      · exact (h.returns hP).ret this s x hs (Option.mem_toList.1 hx)

/-- Whatever is on the queue exists, and stays. -/
theorem process_post {compiler : SegmentCompiler} {turns : Nat} {queue : List Nat} (h : c.Inv P)
    (hqueue : P → ∀ x ∈ queue, c.segments.Live x) : Post (Dangles P) (c.Kept P) (process compiler turns queue c) := by
  induction turns generalizing queue c with
  | zero =>
    cases queue with
    | nil => exact Post.ok h.kept
    | cons x queue => exact Post.error (by simp [Dangles])
  | succ turns ih =>
    cases queue with
    | nil => exact Post.ok h.kept
    | cons x queue =>
      refine Post.bind (tryCompile_post h fun hP => hqueue hP x List.mem_cons_self) fun (c₁, pushed) ⟨h₁, hpushed⟩ => ?_
      refine Post.mono (ih h₁.inv fun hP y hy => h₁.live y ?_) fun c₂ h₂ => h₁.trans h₂
      rcases List.mem_append.1 hy with hy | hy
      · exact hpushed hP y (List.mem_reverse.1 hy)
      · exact hqueue hP y (List.mem_cons_of_mem _ hy)

end Compiling

section Linking

theorem addFixed_post {slots : List FixedDestination} :
    Post (Dangles P) (fun slots' => ∀ slot' ∈ slots', slot'.next = some other ∨ slot' ∈ slots) (CodeSegment.addFixed other slots) := by
  induction slots with
  | nil => exact Post.error (by simp [Dangles])
  | cons slot slots ih =>
    unfold CodeSegment.addFixed
    split
    · refine Post.ok fun slot' hslot' => ?_
      rcases List.mem_cons.1 hslot' with rfl | hslot'
      · exact Or.inl rfl
      · exact Or.inr (List.mem_cons_of_mem _ hslot')
    · refine Post.map (Post.mono ih fun slots' hslots' slot' hslot' => ?_)
      rcases List.mem_cons.1 hslot' with rfl | hslot'
      · exact Or.inr List.mem_cons_self
      · exact (hslots' slot' hslot').imp_right (List.mem_cons_of_mem _)

/-- What a segment is after it was given a successor. -/
structure Grown (other otherStart : Nat) (otherJit : Option Nat) (s s' : CodeSegment) : Prop where
  links : s'.links = ⟨s.start, s.successors.insert otherStart other, s.predecessors⟩
  local' : s'.Local
  ret : s'.ret = s.ret
  callPredecessors : s'.callPredecessors = s.callPredecessors
  jit : s'.jitBasicBlock = s.jitBasicBlock
  new : ∀ d ∈ s'.variableDestinationInfo, d ∈ s.variableDestinationInfo ∨ (d.next = other ∧ d.nextJit = otherJit)
  old : ∀ d ∈ s.variableDestinationInfo, d ∈ s'.variableDestinationInfo

theorem CodeSegment.addSuccessor_post {s : CodeSegment} (h : s.Local) {otherStart : Nat} {otherJit : Option Nat}
    (hkey : ∀ e ∈ s.successors.entries, e.1 = otherStart → e.2 = other) :
    Post (Dangles P) (Grown other otherStart otherJit s) (s.addSuccessor other otherStart otherJit) := by
  have htarget : ∀ x, x ∈ (s.successors.insert otherStart other).targets ↔ x = other ∨ x ∈ s.successors.targets :=
    fun _ => AddressMap.mem_targets_insert hkey
  refine Post.ite (fun hfixed => ?_) fun hvariable => ?_
  · refine Post.bind addFixed_post fun slots hslots => Post.ok ⟨rfl, ⟨h.fixedOnly, fun hends => ?_, fun x hx => ?_⟩, rfl, rfl, rfl,
      fun _ hd => .inl hd, fun _ hd => hd⟩
    · exact absurd (hfixed.symm.trans hends) (by simp)
    · refine (htarget x).2 ?_
      rcases CodeSegment.mem_destinations.1 hx with ⟨slot, hslot, hnext⟩ | hx
      · rcases hslots slot hslot with hother | hold
        · exact Or.inl (Option.some.inj (hnext.symm.trans hother))
        · exact Or.inr (h.recorded x (CodeSegment.mem_destinations.2 (.inl ⟨slot, hold, hnext⟩)))
      · exact Or.inr (h.recorded x (CodeSegment.mem_destinations.2 (.inr hx)))
  · refine Post.ite (fun hfound => Post.ok ⟨?_, h, rfl, rfl, rfl, fun _ hd => .inl hd, fun _ hd => hd⟩) fun _ =>
      Post.ok ⟨rfl, ⟨fun hends => absurd hends hvariable, h.variableOnly, fun x hx => (htarget x).2 ?_⟩, rfl, rfl, rfl,
        fun d hd => ?_, fun d hd => List.mem_append_left _ hd⟩
    · rw [AddressMap.insert, if_pos hfound]
      rfl
    · rcases CodeSegment.mem_destinations.1 hx with hslot | hx
      · exact Or.inr (h.recorded x (CodeSegment.mem_destinations.2 (.inl hslot)))
      · rw [List.map_append, List.mem_append] at hx
        rcases hx with hx | hx
        · exact Or.inr (h.recorded x (CodeSegment.mem_destinations.2 (.inr hx)))
        · exact Or.inl (by simpa using hx)
    · rcases List.mem_append.1 hd with hd | hd
      · exact Or.inl hd
      · obtain rfl := List.mem_singleton.1 hd
        exact Or.inr ⟨rfl, rfl⟩

theorem live_modify {f : CodeSegment → CodeSegment} : (c.modify p f).segments.Live q ↔ c.segments.Live q := by
  by_cases hq : q = p
  · subst hq
    simp [Heap.Live, modify, Heap.get?_modify_self]
  · simp [Heap.Live, get?_modify_of_ne hq]

theorem links_modify {f : CodeSegment → CodeSegment} :
    (c.modify p f).links q = if q = p then (c.segments.get? p).map fun s => (f s).links else c.links q := by
  unfold links
  split
  · next hq =>
    subst hq
    rw [modify, Heap.get?_modify_self, Option.map_map]
    rfl
  · next hq => rw [get?_modify_of_ne hq]

theorem links_modify_same {f : CodeSegment → CodeSegment} (hf : ∀ s, (f s).links = s.links) : (c.modify p f).links = c.links := by
  funext q
  rw [links_modify]
  split
  · next hq =>
    subst hq
    simp [links, hf]
  · rfl

/-- The segment has its new successor, the successor does not know of it yet. -/
theorem Inv.compiled_grown (h : c.Inv P) (hs : c.segments.get? this = some s) {o s' : CodeSegment}
    (ho : c.segments.get? other = some o) (hgrown : Grown other o.start o.jitBasicBlock s s') :
    (c.modify this fun _ => s').Compiled c.segments.Live := by
  refine ⟨fun q t block hq ht hb => ?_, fun q t hq ht d hd block hb => ?_, fun q t block b hq ht hb hblock target htarget => ?_⟩
  · rcases get?_modify ht with ⟨rfl, s₀, hs₀, rfl⟩ | ⟨-, ht⟩
    · exact h.compiled.jit q s block hq hs (hgrown.jit ▸ hb)
    · exact h.compiled.jit q t block hq ht hb
  · rcases get?_modify ht with ⟨rfl, s₀, hs₀, rfl⟩ | ⟨-, ht⟩
    · rcases hgrown.new d hd with hold | ⟨rfl, hjit⟩
      · exact h.compiled.nextJit q s hq hs d hold block hb
      · exact h.compiled.jit d.next o block ⟨o, ho⟩ ho (hjit ▸ hb)
    · exact h.compiled.nextJit q t hq ht d hd block hb
  · rcases get?_modify ht with ⟨rfl, s₀, hs₀, rfl⟩ | ⟨-, ht⟩
    · obtain ⟨x, hx, hfor⟩ := h.compiled.table q s block b hq hs (hgrown.jit ▸ hb) hblock target htarget
      obtain ⟨d, hd, rfl⟩ := List.mem_map.1 hx
      exact ⟨d.next, List.mem_map_of_mem (hgrown.old d hd), hfor⟩
    · exact h.compiled.table q t block b hq ht hb hblock target htarget

/-- Both segments record the link. -/
theorem links_linked {o s' : CodeSegment} {c₂ : CodeCache} (hs : c.segments.get? this = some s)
    (hgrown : s'.links = ⟨s.start, s.successors.insert o.start other, s.predecessors⟩)
    (hlinks : c₂.links = (c.modify this fun _ => s').links) :
    (c₂.modify other (·.addPredecessor s.start this)).links = Graph.link c.links this other s.start o.start := by
  have hother : (c₂.segments.get? other).map (fun t => (t.addPredecessor s.start this).links) =
      (c₂.links other).map fun l => ⟨l.start, l.successors, l.predecessors.insert s.start this⟩ := by
    rw [links, Option.map_map]
    rfl
  have hthis : c.links this = some ⟨s.start, s.successors, s.predecessors⟩ := by rw [links, hs, Option.map_some]; rfl
  funext x
  rw [links_modify, hother, hlinks, links_modify, links_modify, hs]
  unfold Graph.link
  by_cases hxo : x = other
  · subst hxo
    by_cases hxt : x = this
    · subst hxt
      simp only [if_true, Option.map_some, hgrown, hthis, Graph.linkAt]
    · cases hx : c.links x with
      | none => simp [hxt]
      | some l => simp [Graph.linkAt, hxt]
  · by_cases hxt : x = this
    · subst hxt
      simp only [if_true, if_neg hxo, Option.map_some, hgrown, hthis, Graph.linkAt]
    · cases hx : c.links x with
      | none => simp [hxo, hxt]
      | some l => simp [Graph.linkAt, hxo, hxt]

theorem addSuccessor_post (h : c.Inv P) (hthis : c.segments.Live this) (hother : c.segments.Live other) :
    Post (Dangles P) (c.Kept P) (c.addSuccessor this other) := by
  refine Post.bind (segment_post fun _ => hthis) fun s hs => Post.bind (segment_post fun _ => hother) fun o ho => ?_
  have hls : c.links this = some s.links := by rw [links, hs, Option.map_some]
  have hlo : c.links other = some o.links := by rw [links, ho, Option.map_some]
  have hkey : ∀ e ∈ s.successors.entries, e.1 = o.start → e.2 = other := fun e he =>
    (h.graph.key hthis hls hother hlo (.inl he)).1
  refine Post.bind (CodeSegment.addSuccessor_post (h.locals this s hs) hkey) fun s' hgrown => ?_
  have hget : (c.modify this fun _ => s').segments.get? this = some s' := get?_modify_self hs
  have hlive : (c.modify this fun _ => s').segments.Live = c.segments.Live := funext fun _ => propext live_modify
  have hcompiled : (c.modify this fun _ => s').Compiled (c.modify this fun _ => s').segments.Live :=
    hlive ▸ h.compiled_grown hs ho hgrown
  have hpatches : P → (c.modify this fun _ => s').Patches (c.modify this fun _ => s').segments.Live := hlive ▸ h.patches
  have hdest : ∀ x ∈ s'.variableDestinationInfo.map (·.next), (c.modify this fun _ => s').segments.Live x := by
    intro x hx
    obtain ⟨d, hd, rfl⟩ := List.mem_map.1 hx
    rw [live_modify]
    rcases hgrown.new d hd with hold | ⟨heq, -⟩
    · exact h.destination_live hs (CodeSegment.mem_destinations.2 (.inr (List.mem_map_of_mem hold)))
    · exact heq ▸ hother
  have hsync : Post (Dangles P) (fun c₂ => (c.modify this fun _ => s').Tuned c₂ ∧ c₂.Compiled c.segments.Live ∧
      (P → c₂.Patches c.segments.Live))
      ((c.modify this fun _ => s').syncIf (!s.endsWithFixedDestinationJump && (s.successors.find o.start).isNone) this) :=
    Post.ite (fun _ => hlive ▸ syncBlockLookupTable_tuned hcompiled hpatches hget hdest) fun _ =>
      Post.ok ⟨.refl _, hlive ▸ hcompiled, hlive ▸ hpatches⟩
  refine Post.bind hsync ?_
  rintro c₂ ⟨htuned, hcompiled₂, hpatches₂⟩
  refine Post.ok ?_
  have hlive₃ : (c₂.modify other (·.addPredecessor s.start this)).segments.Live = c.segments.Live := by
    funext x
    rw [← hlive]
    exact propext (live_modify.trans htuned.live)
  have hbefore : ∀ p t, (c₂.modify other (·.addPredecessor s.start this)).segments.get? p = some t → t.Local ∧
      ∃ t₀, c.segments.get? p = some t₀ ∧ t.ret = t₀.ret ∧ t.callPredecessors = t₀.callPredecessors := by
    intro p t ht
    have hc₂ : ∃ t₂, c₂.segments.get? p = some t₂ ∧ (t₂.Local → t.Local) ∧ t.ret = t₂.ret ∧
        t.callPredecessors = t₂.callPredecessors := by
      rcases get?_modify ht with ⟨rfl, t₂, ht₂, rfl⟩ | ⟨-, ht₂⟩
      · exact ⟨t₂, ht₂, fun hl => ⟨hl.fixedOnly, hl.variableOnly, hl.recorded⟩, rfl, rfl⟩
      · exact ⟨t, ht₂, id, rfl, rfl⟩
    obtain ⟨t₂, ht₂, hlocal, hret, hcalls⟩ := hc₂
    obtain ⟨t₁, ht₁, hsim⟩ := htuned.before p t₂ ht₂
    rcases get?_modify ht₁ with ⟨rfl, t₀, ht₀, rfl⟩ | ⟨-, ht₀⟩
    · exact ⟨hlocal (hsim.local hgrown.local'), s, hs, hret.trans (hsim.ret.trans hgrown.ret),
        hcalls.trans (hsim.callPredecessors.trans hgrown.callPredecessors)⟩
    · exact ⟨hlocal (hsim.local (h.locals p t₁ ht₀)), t₁, ht₀, hret.trans hsim.ret, hcalls.trans hsim.callPredecessors⟩
  have hgraph : Graph c.segments.Live c.segments.Live (c₂.modify other (·.addPredecessor s.start this)).links
      c₂.codeSegmentsByAddress.find := by
    rw [links_linked hs hgrown.links htuned.links, htuned.codeSegmentsByAddress]
    exact h.graph.linked hthis hls hother hlo
  refine ⟨⟨hlive₃ ▸ hgraph, fun p t ht => (hbefore p t ht).1, hlive₃ ▸ hcompiled₂.modify (fun _ _ => rfl) fun _ _ => rfl,
    fun hP => (h.returns hP).transfer hlive₃ fun p t ht => (hbefore p t ht).2, hlive₃ ▸ hpatches₂⟩, fun p hp => hlive₃ ▸ hp⟩

theorem addReturn_post (h : c.Inv P) (hthis : c.segments.Live this) (hother : c.segments.Live other) :
    Post (Dangles P) (c.Kept P) (c.addReturn this other) := by
  refine Post.bind (segment_post fun _ => hthis) fun s hs => Post.bind (segment_post fun _ => hother) fun o ho =>
    Post.bind (Post.check (by simp [Dangles])) fun _ hfree => Post.bind (Post.check (by simp [Dangles])) fun _ _ => Post.ok ?_
  have hlive : ((c.modify this (·.addReturn other)).modify other
      (·.addCallPredecessor s.start this)).segments.Live = c.segments.Live :=
    funext fun _ => propext (live_modify.trans live_modify)
  have hbefore : ∀ p t, ((c.modify this (·.addReturn other)).modify other
      (·.addCallPredecessor s.start this)).segments.get? p = some t → ∃ t₀, c.segments.get? p = some t₀ ∧ (t₀.Local → t.Local) ∧
        t.ret = (if p = this then some other else t₀.ret) ∧
        t.callPredecessors = if p = other then t₀.callPredecessors.insert s.start this else t₀.callPredecessors := by
    intro p t ht
    have hfirst : ∃ t₁, (c.modify this (·.addReturn other)).segments.get? p = some t₁ ∧ t.ret = t₁.ret ∧
        (t₁.Local → t.Local) ∧
        t.callPredecessors = if p = other then t₁.callPredecessors.insert s.start this else t₁.callPredecessors := by
      rcases get?_modify ht with ⟨rfl, t₁, ht₁, rfl⟩ | ⟨hne, ht₁⟩
      · exact ⟨t₁, ht₁, rfl, fun hl => ⟨hl.fixedOnly, hl.variableOnly, hl.recorded⟩, (if_pos rfl).symm⟩
      · exact ⟨t, ht₁, rfl, id, (if_neg hne).symm⟩
    obtain ⟨t₁, ht₁, hret, hlocal, hcalls⟩ := hfirst
    rcases get?_modify ht₁ with ⟨rfl, t₀, ht₀, rfl⟩ | ⟨hne, ht₀⟩
    · exact ⟨t₀, ht₀, fun hl => hlocal ⟨hl.fixedOnly, hl.variableOnly, hl.recorded⟩, hret.trans (if_pos rfl).symm, hcalls⟩
    · exact ⟨t₁, ht₀, hlocal, hret.trans (if_neg hne).symm, hcalls⟩
  have hcompiled := (h.compiled.modify (p := this) (f := (·.addReturn other)) (fun _ _ => rfl)
    fun _ _ => rfl).modify (p := other) (f := (·.addCallPredecessor s.start this)) (fun _ _ => rfl) fun _ _ => rfl
  refine ⟨⟨?_, fun p t ht => ?_, hlive ▸ hcompiled, fun hP => ⟨fun p t r ht hr => ?_, fun p t ht x hx => ?_⟩,
    hlive ▸ h.patches⟩, fun p hp => hlive ▸ hp⟩
  · have hret : (c.modify this (·.addReturn other)).links = c.links :=
      links_modify_same (f := (·.addReturn other)) fun _ => rfl
    have hlinks : ((c.modify this (·.addReturn other)).modify other (·.addCallPredecessor s.start this)).links = c.links :=
      (links_modify_same (f := (·.addCallPredecessor s.start this)) fun _ => rfl).trans hret
    rw [hlive, hlinks]
    exact h.graph
  · obtain ⟨t₀, ht₀, hlocal, -⟩ := hbefore p t ht
    exact hlocal (h.locals p t₀ ht₀)
  · rw [hlive]
    obtain ⟨t₀, ht₀, -, hret, -⟩ := hbefore p t ht
    rw [hret] at hr
    split at hr
    · exact Option.some.inj hr ▸ hother
    · exact (h.returns hP).ret p t₀ r ht₀ hr
  · obtain ⟨t₀, ht₀, -, -, hcalls⟩ := hbefore p t ht
    rw [hcalls] at hx
    -- a caller was recorded before, or it is the one that is recorded now
    have hcaller : (p = other ∧ x = this) ∨ ∃ u, c.segments.get? x = some u ∧ u.ret = some p := by
      split at hx
      · next hp =>
        obtain ⟨k, hk⟩ := AddressMap.mem_targets.1 hx
        rcases AddressMap.mem_insert hk with heq | hold
        · exact Or.inl ⟨hp, (Prod.mk.inj heq).2⟩
        · exact Or.inr ((h.returns hP).calls p t₀ ht₀ x (AddressMap.mem_targets.2 ⟨k, hold⟩))
      · exact Or.inr ((h.returns hP).calls p t₀ ht₀ x hx)
    have hx' : c.segments.Live x := by
      rcases hcaller with ⟨-, rfl⟩ | ⟨u, hu, -⟩
      · exact hthis
      · exact ⟨u, hu⟩
    rw [← hlive] at hx'
    obtain ⟨u', hu'⟩ := hx'
    obtain ⟨u₀, hu₀, -, hret, -⟩ := hbefore x u' hu'
    refine ⟨u', hu', hret.trans ?_⟩
    rcases hcaller with ⟨rfl, rfl⟩ | ⟨u, hu, hur⟩
    · exact if_pos rfl
    · obtain rfl : u₀ = u := Option.some.inj (hu₀.symm.trans hu)
      split
      · next hxt =>
        subst hxt
        obtain rfl : u₀ = s := Option.some.inj (hu₀.symm.trans hs)
        rcases hfree with hnone | hsome
        · rw [hnone] at hur
          cases hur
        · exact hsome.symm.trans hur
      · exact hur

theorem Patches.mono {A B : Nat → Prop} (h : c.Patches A) (hAB : ∀ p, A p → B p) : c.Patches B := by
  intro block b hb e he
  obtain ⟨q, hfor, hq⟩ := h block b hb e he
  exact ⟨q, hfor, hq.imp_left (hAB q)⟩

theorem fetchSegment_post (h : c.Inv P) {block : BasicBlock} : c.Kept P (c.fetchSegment block).2 := by
  unfold fetchSegment
  split
  · exact h.kept
  · next hnone =>
    have hfresh : ¬ c.segments.Live c.segments.next := fun hlive => Nat.lt_irrefl _ hlive.lt_next
    have hget : ∀ p s, (c.segments.alloc (.create block)).get? p = some s →
        (p = c.segments.next ∧ s = .create block) ∨ (p ≠ c.segments.next ∧ c.segments.get? p = some s) := by
      intro p s hs
      by_cases hp : p = c.segments.next
      · subst hp
        rw [Heap.get?_alloc_next] at hs
        exact Or.inl ⟨rfl, (Option.some.inj hs).symm⟩
      · exact Or.inr ⟨hp, (Heap.get?_alloc_of_ne hp).symm.trans hs⟩
    have hlive : ∀ p, (c.segments.alloc (.create block)).Live p ↔ p = c.segments.next ∨ c.segments.Live p := by
      intro p
      constructor
      · rintro ⟨s, hs⟩
        exact (hget p s hs).imp (·.1) fun hold => ⟨s, hold.2⟩
      · rintro (rfl | ⟨s, hs⟩)
        · exact ⟨_, Heap.get?_alloc_next⟩
        · have hp : p ≠ c.segments.next := Nat.ne_of_lt (Heap.Live.lt_next ⟨s, hs⟩)
          exact ⟨s, (Heap.get?_alloc_of_ne hp).trans hs⟩
    refine ⟨⟨?_, fun p s hs => ?_, ⟨fun p s b hp hs hb => ?_, fun p s hp hs d hd b hb => ?_,
      fun p s b b' hp hs hb hb' target htarget => ?_⟩, fun hP => ⟨fun p s r hs hr => ?_, fun p s hs x hx => ?_⟩,
      fun hP => (h.patches hP).mono fun p hp => (hlive p).2 (.inr hp)⟩, fun p hp => (hlive p).2 (.inr hp)⟩
    · have hlinks : CodeCache.links { c with
          segments := c.segments.alloc (.create block)
          codeSegmentsByAddress := c.codeSegmentsByAddress.insert block.start c.segments.next } =
          Function.update c.links c.segments.next (some (CodeSegment.create block).links) := by
        funext p
        unfold links
        by_cases hp : p = c.segments.next
        · subst hp
          rw [Function.update_self, Heap.get?_alloc_next, Option.map_some]
        · rw [Function.update_of_ne hp, Heap.get?_alloc_of_ne hp]
      rw [hlinks]
      exact h.graph.added hlive hfresh rfl rfl hnone (AddressMap.find_insert_self hnone) fun k hk =>
        AddressMap.find_insert_of_ne hk
    · rcases hget p s hs with ⟨-, rfl⟩ | ⟨-, hs⟩
      · refine ⟨fun _ => rfl, fun _ slot hslot => ?_, fun x hx => ?_⟩
        · rw [List.eq_of_mem_replicate hslot]
        · simp [CodeSegment.destinations, CodeSegment.create, CodeSegment.CACHE_SIZE, List.replicate] at hx
      · exact h.locals p s hs
    · rcases hget p s hs with ⟨-, rfl⟩ | ⟨-, hs⟩
      · cases hb
      · exact h.compiled.jit p s b ⟨s, hs⟩ hs hb
    · rcases hget p s hs with ⟨-, rfl⟩ | ⟨-, hs⟩
      · cases hd
      · exact h.compiled.nextJit p s ⟨s, hs⟩ hs d hd b hb
    · rcases hget p s hs with ⟨-, rfl⟩ | ⟨-, hs⟩
      · cases hb
      · exact h.compiled.table p s b b' ⟨s, hs⟩ hs hb hb' target htarget
    · rcases hget p s hs with ⟨-, rfl⟩ | ⟨-, hs⟩
      · cases hr
      · exact (hlive r).2 (.inr ((h.returns hP).ret p s r hs hr))
    · rcases hget p s hs with ⟨-, rfl⟩ | ⟨-, hs⟩
      · cases hx
      · obtain ⟨t, ht, hret⟩ := (h.returns hP).calls p s hs x hx
        have hne : x ≠ c.segments.next := Nat.ne_of_lt (Heap.Live.lt_next ⟨t, ht⟩)
        exact ⟨t, (Heap.get?_alloc_of_ne hne).trans ht, hret⟩

end Linking

end CodeCache

end X64Emulator
