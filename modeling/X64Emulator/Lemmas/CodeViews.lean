import X64Emulator.Lemmas.CodeRuns

/-!
# What patching and compiling leave alone

Native code is patched and tables are filled again without any other change to the segments, and the compilation of a segment
only counts. `Agree` says that a view of the segments is the same before and after. The rules ask for a graph of segments only
where a dangling pointer would be a bad failure.
-/

namespace X64Emulator

open Outcome

namespace CodeSegment

variable {s : CodeSegment}

/-- All segments that an operation may reach from this one. -/
def linked (s : CodeSegment) : List Nat := s.toCompile ++ (s.predecessors.targets ++ s.callPredecessors.targets)

/-- A segment but for what it knows of native code. -/
def withoutCode (s : CodeSegment) : CodeSegment := { s with
  jitBasicBlock := none
  variableDestinationInfo := s.variableDestinationInfo.map fun d => { d with nextJit := none } }

/-- A segment but for what a compilation changes. -/
def withoutCounters (s : CodeSegment) : CodeSegment := { s.withoutCode with
  callsForCompilation := 0
  compilationAttempted := false }

@[simp] theorem linked_withoutCode : s.withoutCode.linked = s.linked := by
  simp [linked, toCompile, destinations, withoutCode, List.map_map, Function.comp_def]

end CodeSegment

namespace CodeCache

variable {bad : LinkFailure → Prop} {c c' : CodeCache} {this p x : Nat} {s : CodeSegment} {β γ : Type}

/-- The segments are a graph: every link leads to a segment that exists. -/
def Closed (c : CodeCache) : Prop := ∀ p s, c.segments.get? p = some s → ∀ x ∈ s.linked, c.segments.Live x

/-- In a run whose removals leave no trace the segments are a graph. -/
theorem Inv.closed (h : c.Inv True) : c.Closed := by
  intro p s hs x hx
  rcases List.mem_append.1 hx with hx | hx
  · rcases List.mem_append.1 hx with hx | hx
    · exact h.destination_live hs hx
    · exact (h.returns trivial).ret p s x hs (Option.mem_toList.1 hx)
  · exact h.predecessor_live trivial hs x (List.mem_cons_of_mem _ hx)

/-- The same segments exist, the map finds them as before, and each looks the same. -/
structure Agree (g : CodeSegment → β) (c c' : CodeCache) : Prop where
  view : ∀ p, (c'.segments.get? p).map g = (c.segments.get? p).map g
  codeSegmentsByAddress : c'.codeSegmentsByAddress = c.codeSegmentsByAddress
  jitChainingEnabled : c'.jitChainingEnabled = c.jitChainingEnabled

section Agreement

variable {g : CodeSegment → β}

theorem Agree.refl (g : CodeSegment → β) (c : CodeCache) : Agree g c c := ⟨fun _ => rfl, rfl, rfl⟩

theorem Agree.trans {c'' : CodeCache} (h : Agree g c c') (h' : Agree g c' c'') : Agree g c c'' :=
  ⟨fun p => (h'.view p).trans (h.view p), h'.codeSegmentsByAddress.trans h.codeSegmentsByAddress,
    h'.jitChainingEnabled.trans h.jitChainingEnabled⟩

/-- Whoever sees less sees the same. -/
theorem Agree.of_view {f : CodeSegment → γ} (h : Agree g c c') (k : β → γ) (hk : ∀ s, f s = k (g s)) : Agree f c c' := by
  obtain rfl : f = k ∘ g := funext hk
  refine ⟨fun p => ?_, h.codeSegmentsByAddress, h.jitChainingEnabled⟩
  rw [← Option.map_map, ← Option.map_map, h.view p]

theorem Agree.before {s' : CodeSegment} (h : Agree g c c') (hs' : c'.segments.get? p = some s') :
    ∃ s, c.segments.get? p = some s ∧ g s' = g s := by
  have hp := h.view p
  rw [hs', Option.map_some] at hp
  obtain ⟨s, hs, heq⟩ := Option.map_eq_some_iff.1 hp.symm
  exact ⟨s, hs, heq.symm⟩

theorem Agree.after (h : Agree g c c') (hs : c.segments.get? p = some s) : ∃ s', c'.segments.get? p = some s' ∧ g s' = g s := by
  have hp := h.view p
  rw [hs, Option.map_some] at hp
  obtain ⟨s', hs', heq⟩ := Option.map_eq_some_iff.1 hp
  exact ⟨s', hs', heq⟩

theorem Agree.live (h : Agree g c c') : c'.segments.Live p ↔ c.segments.Live p := by
  constructor
  · rintro ⟨s', hs'⟩
    obtain ⟨s, hs, -⟩ := h.before hs'
    exact ⟨s, hs⟩
  · rintro ⟨s, hs⟩
    obtain ⟨s', hs', -⟩ := h.after hs
    exact ⟨s', hs'⟩

theorem agree_modify {f : CodeSegment → CodeSegment} (hf : ∀ s, c.segments.get? p = some s → g (f s) = g s) :
    Agree g c (c.modify p f) := by
  refine ⟨fun q => ?_, rfl, rfl⟩
  by_cases hq : q = p
  · subst hq
    cases hs : c.segments.get? q with
    | none => simp [modify, Heap.get?_modify_self, hs]
    | some s => simp [modify, Heap.get?_modify_self, hs, hf s hs]
  · rw [get?_modify_of_ne hq]

theorem Agree.closed (h : Agree CodeSegment.withoutCode c c') (hc : c.Closed) : c'.Closed := by
  intro p s' hs' x hx
  obtain ⟨s, hs, heq⟩ := h.before hs'
  refine h.live.2 (hc p s hs x ?_)
  rwa [← CodeSegment.linked_withoutCode, ← heq, CodeSegment.linked_withoutCode]

end Agreement

section Patching

theorem refreshed_agree {l : List VariableDestination} (h : bad .dangling → ∀ d ∈ l, c.segments.Live d.next) :
    Post bad (fun l' => l'.map (fun d => { d with nextJit := none }) = l.map fun d => { d with nextJit := none })
      (c.refreshed l) := by
  refine Post.mono (Post.mapM fun d hd => Post.bind (segment_found fun hbad => h hbad d hd) fun t _ => Post.ok
    (p := fun d' : VariableDestination => ({ d' with nextJit := none } : VariableDestination) = { d with nextJit := none }) rfl)
    fun l' hl' => ?_
  clear h
  induction hl' with
  | nil => rfl
  | cons hd _ ih => rw [List.map_cons, List.map_cons, hd, ih]

theorem syncBlockLookupTable_agree (hc : bad .dangling → c.Closed) (hthis : bad .dangling → c.segments.Live this) :
    Post bad (Agree CodeSegment.withoutCode c) (c.syncBlockLookupTable this) := by
  refine Post.bind (segment_found hthis) fun s hs => ?_
  split
  · exact Post.ok (.refl _ c)
  · have hlive : bad .dangling → ∀ d ∈ s.variableDestinationInfo, c.segments.Live d.next := by
      intro hbad d hd
      refine hc hbad this s hs d.next (List.mem_append_left _ (List.mem_append_left _ ?_))
      exact CodeSegment.mem_destinations.2 (.inr (List.mem_map_of_mem hd))
    refine Post.bind (refreshed_agree hlive) fun l hl => Post.ok ?_
    have hview : Agree CodeSegment.withoutCode c (c.modify this fun s => { s with variableDestinationInfo := l }) := by
      refine agree_modify fun t ht => ?_
      obtain rfl : t = s := Option.some.inj (ht.symm.trans hs)
      simp only [CodeSegment.withoutCode, hl]
    exact ⟨hview.view, rfl, rfl⟩

theorem patchWith_agree {block : Nat} {next : Option Nat} {patch : JitBasicBlock → CodeSegment → Nat → JitBasicBlock}
    (hnext : bad .dangling → ∀ x, next = some x → c.segments.Live x) :
    Post bad (Agree CodeSegment.withoutCode c) (c.patchWith block next patch) := by
  unfold patchWith
  split
  · exact Post.ok (.refl _ c)
  · next x =>
    refine Post.bind (segment_found fun hbad => hnext hbad x rfl) fun s _ => ?_
    split
    · exact Post.ok (.refl _ c)
    · exact Post.ok ⟨fun _ => rfl, rfl, rfl⟩

theorem patchCode_agree (hc : bad .dangling → c.Closed) (hs : c.segments.get? this = some s) {block : Nat} :
    Post bad (Agree CodeSegment.withoutCode c) (c.patchCode s block) := by
  have hlive : bad .dangling → ∀ x ∈ s.toCompile, c.segments.Live x := fun hbad x hx =>
    hc hbad this s hs x (List.mem_append_left _ hx)
  have hret : bad .dangling → ∀ x, s.ret = some x → c.segments.Live x := fun hbad x hx =>
    hlive hbad x (List.mem_append_right _ (Option.mem_toList.2 hx))
  refine Post.bind (patchWith_agree hret) fun c₁ h₁ => ?_
  refine Post.foldlM h₁ fun c₂ slot hslot h₂ => ?_
  have hslot : bad .dangling → ∀ x, slot.next = some x → c₂.segments.Live x := by
    intro hbad x hx
    have hmem : x ∈ s.destinations := CodeSegment.mem_destinations.2 (.inl ⟨slot, hslot, hx⟩)
    exact h₂.live.2 (hlive hbad x (List.mem_append_left _ hmem))
  exact Post.mono (patchWith_agree hslot) fun c₃ h₃ => h₂.trans h₃

theorem tryPatch_agree (hc : bad .dangling → c.Closed) (hthis : bad .dangling → c.segments.Live this) :
    Post bad (Agree CodeSegment.withoutCode c) (c.tryPatch this) := by
  refine Post.bind (segment_found hthis) fun s hs => ?_
  split
  · exact Post.ok (.refl _ c)
  · next block _ =>
    have hpatch : Post bad (Agree CodeSegment.withoutCode c) (c.patchPending s block) :=
      Post.ite (fun _ => patchCode_agree hc hs) fun _ => Post.ok (.refl _ c)
    exact Post.bind hpatch fun c₁ h₁ =>
      Post.mono (syncBlockLookupTable_agree (fun hbad => h₁.closed (hc hbad)) fun hbad => h₁.live.2 (hthis hbad))
        fun c₂ h₂ => h₁.trans h₂

end Patching

section Compiling

theorem withBlock_agree {native : NativeBasicBlock} : Agree CodeSegment.withoutCode c (c.withBlock this native) := by
  have hview : Agree CodeSegment.withoutCode c (c.modify this fun s => { s with jitBasicBlock := some c.blocks.next }) :=
    agree_modify fun _ _ => rfl
  exact ⟨hview.view, rfl, rfl⟩

theorem installIf_agree (hc : bad .dangling → c.Closed) (hthis : bad .dangling → c.segments.Live this)
    {native : Option NativeBasicBlock} : Post bad (Agree CodeSegment.withoutCode c) (c.installIf this native) := by
  cases native with
  | none => exact Post.ok (.refl _ c)
  | some native =>
    refine Post.bind (segment_found hthis) fun s hs => Post.ite (fun _ => ?_) fun _ => Post.ok withBlock_agree
    refine Post.foldlM withBlock_agree fun c₁ x hx h₁ => ?_
    have hlive : bad .dangling → c.segments.Live x := by
      intro hbad
      rcases List.mem_cons.1 hx with rfl | hx
      · exact ⟨s, hs⟩
      · exact hc hbad this s hs x (List.mem_append_right _ hx)
    exact Post.mono (tryPatch_agree (fun hbad => h₁.closed (hc hbad)) fun hbad => h₁.live.2 (hlive hbad))
      fun c₂ h₂ => h₁.trans h₂

theorem tryCompile_agree {compiler : SegmentCompiler} :
    Yields (fun r => Agree CodeSegment.withoutCounters c r.1) (c.tryCompile compiler this) := by
  refine Post.bind (segment_found False.elim) fun s _ => Post.ite (fun _ => ?_) fun _ => Post.ite (fun _ => ?_) fun _ => ?_
  · exact Post.ok (agree_modify (c := c) fun _ _ => rfl)
  · exact Post.ok (.refl _ c)
  · refine Post.bind (installIf_agree False.elim False.elim) fun c₁ h₁ => Post.ok ?_
    have hview : Agree CodeSegment.withoutCounters c c₁ :=
      h₁.of_view (fun s => { s with callsForCompilation := 0, compilationAttempted := false }) fun _ => rfl
    exact hview.trans (agree_modify fun _ _ => rfl)

theorem process_agree {compiler : SegmentCompiler} {turns : Nat} {queue : List Nat} :
    Yields (Agree CodeSegment.withoutCounters c) (process compiler turns queue c) := by
  induction turns generalizing queue c with
  | zero =>
    cases queue with
    | nil => exact Post.ok (.refl _ c)
    | cons x queue => exact Post.error id
  | succ turns ih =>
    cases queue with
    | nil => exact Post.ok (.refl _ c)
    | cons x queue => exact Post.bind tryCompile_agree fun r h₁ => Post.mono ih fun c₂ h₂ => h₁.trans h₂

end Compiling

end CodeCache

end X64Emulator
