import X64Emulator.Lemmas.CodePatching
import X64Emulator.VirtualMachine

/-!
# Where patched calls return to

The native code of a call pushes the entry point of the block that its segment returns to. `Returning` is what makes this the
block after the call: it speaks of every segment that ever existed, since the code of a segment outlives it.
-/

namespace X64Emulator

open Outcome

namespace CodeCache

variable {c c' : CodeCache} {p q this other : Nat} {s : CodeSegment} {G : Nat → GuestBlock}

/-- The segments have the same basic blocks and returns, none of them has other native code, and no code was patched. -/
structure Stable (c c' : CodeCache) : Prop where
  records : ∀ p s', c'.segments.get? p = some s' → ∃ s, c.segments.get? p = some s ∧ s'.cpuBasicBlock = s.cpuBasicBlock ∧
    s'.ret = s.ret ∧ ∀ block, s'.jitBasicBlock = some block → s.jitBasicBlock = some block
  next : c'.segments.next = c.segments.next
  code : ∀ block, (c'.blocks.get? block).map (fun b => (b.currentBb, b.executableMemory)) =
    (c.blocks.get? block).map fun b => (b.currentBb, b.executableMemory)

theorem Stable.refl (c : CodeCache) : c.Stable c := ⟨fun _ s hs => ⟨s, hs, rfl, rfl, fun _ h => h⟩, rfl, fun _ => rfl⟩

theorem Stable.trans {c'' : CodeCache} (h : c.Stable c') (h' : c'.Stable c'') : c.Stable c'' := by
  refine ⟨fun p s'' hs'' => ?_, h'.next.trans h.next, fun block => (h'.code block).trans (h.code block)⟩
  obtain ⟨s', hs', hblock', hret', hjit'⟩ := h'.records p s'' hs''
  obtain ⟨s, hs, hblock, hret, hjit⟩ := h.records p s' hs'
  exact ⟨s, hs, hblock'.trans hblock, hret'.trans hret, fun block hb => hjit block (hjit' block hb)⟩

/-- The change of a segment that concerns neither its basic block nor its return. -/
theorem stable_modify {f : CodeSegment → CodeSegment}
    (hf : ∀ s, c.segments.get? p = some s → (f s).cpuBasicBlock = s.cpuBasicBlock ∧ (f s).ret = s.ret ∧
      ∀ block, (f s).jitBasicBlock = some block → s.jitBasicBlock = some block) : c.Stable (c.modify p f) := by
  refine ⟨fun q s' hs' => ?_, Heap.next_modify, fun _ => rfl⟩
  rcases get?_modify hs' with ⟨rfl, s, hs, rfl⟩ | ⟨-, hs⟩
  · exact ⟨s, hs, hf s hs⟩
  · exact ⟨s', hs, rfl, rfl, fun _ h => h⟩

/-- A change that keeps segment and memory of its block is stable. -/
theorem stable_modifyBlock {f : JitBasicBlock → JitBasicBlock} {block : Nat} (hf : ∀ b, (f b).currentBb = b.currentBb)
    (hmemory : ∀ b, (f b).executableMemory = b.executableMemory) : c.Stable (c.modifyBlock block f) := by
  refine ⟨fun _ s hs => ⟨s, hs, rfl, rfl, fun _ h => h⟩, rfl, fun target => ?_⟩
  by_cases ht : target = block
  · subst ht
    have hsame : (fun b => (b.currentBb, b.executableMemory)) ∘ f = fun b => (b.currentBb, b.executableMemory) := by
      funext b
      rw [Function.comp_apply, hf, hmemory]
    rw [modifyBlock, Heap.get?_modify_self, Option.map_map, hsame]
  · rw [modifyBlock, Heap.get?_modify_of_ne ht]

/-- Writing the lookup table is stable. -/
theorem syncBlockLookupTable_stable : Yields c.Stable (c.syncBlockLookupTable this) := by
  refine Post.bind (segment_found False.elim) fun s hs => ?_
  split
  · exact Post.ok (.refl c)
  · refine Post.skip fun l => Post.ok ?_
    have hput : c.Stable (c.modify this fun s => { s with variableDestinationInfo := l }) :=
      stable_modify fun _ _ => ⟨rfl, rfl, fun _ h => h⟩
    exact hput.trans (stable_modifyBlock (fun _ => rfl) fun _ => rfl)

theorem syncIf_stable {changed : Bool} : Yields c.Stable (c.syncIf changed this) :=
  Post.ite (fun _ => syncBlockLookupTable_stable) fun _ => Post.ok (.refl c)

/-- Finding a destination is stable. -/
theorem findNext_stable {address : Nat} : Yields (fun r => c.Stable r.2) (c.findNext this address) := by
  refine Post.skip fun s => Post.ite (fun _ => ?_) fun _ => Post.ok (.refl c)
  refine Post.skip fun found => ?_
  cases found with
  | none => exact Post.ok (.refl c)
  | some i => exact Post.ok (stable_modify fun _ _ => ⟨rfl, rfl, fun _ h => h⟩)

/-- A new destination changes only what a segment records of its destinations. -/
theorem addSuccessor_records {otherStart : Nat} {otherJit : Option Nat} :
    Yields (fun s' => s'.cpuBasicBlock = s.cpuBasicBlock ∧ s'.ret = s.ret ∧ s'.jitBasicBlock = s.jitBasicBlock)
      (s.addSuccessor other otherStart otherJit) := by
  refine Post.ite (fun _ => ?_) fun _ => Post.ite (fun _ => Post.ok ⟨rfl, rfl, rfl⟩) fun _ => Post.ok ⟨rfl, rfl, rfl⟩
  exact Post.skip fun _ => Post.ok ⟨rfl, rfl, rfl⟩

/-- A new successor is stable. -/
theorem addSuccessor_stable : Yields c.Stable (c.addSuccessor this other) := by
  refine Post.bind (segment_found False.elim) fun s hs => Post.skip fun o => ?_
  refine Post.bind addSuccessor_records fun s' hs' => Post.bind syncIf_stable fun c' hc' => Post.ok ?_
  have hput : c.Stable (c.modify this fun _ => s') := by
    refine stable_modify fun t ht => ?_
    obtain rfl : t = s := Option.some.inj (ht.symm.trans hs)
    exact ⟨hs'.1, hs'.2.1, fun block hb => hs'.2.2 ▸ hb⟩
  exact (hput.trans hc').trans (stable_modify fun _ _ => ⟨rfl, rfl, fun _ h => h⟩)

section Removal

theorem removeSucessor_stable {otherStart : Nat} :
    Yields c.Stable (c.removeSucessor this other otherStart) := by
  refine Post.skip fun s => Post.bind syncIf_stable fun c' hc' => Post.ok ?_
  have hremove : c.Stable (c.modify this (·.removeDestination other)) := by
    refine stable_modify fun s _ => ?_
    unfold CodeSegment.removeDestination
    split
    · exact ⟨rfl, rfl, fun _ h => h⟩
    · exact ⟨rfl, rfl, fun _ h => h⟩
  exact (hremove.trans hc').trans (stable_modify fun _ _ => ⟨rfl, rfl, fun _ h => h⟩)

theorem removePredecessor_stable {otherStart : Nat} :
    Yields c.Stable (c.removePredecessor this otherStart) :=
  Post.skip fun _ => Post.ok (stable_modify fun _ _ => ⟨rfl, rfl, fun _ h => h⟩)

theorem removeCallPredecessor_stable {otherStart : Nat} :
    Yields c.Stable (c.removeCallPredecessor this otherStart) :=
  Post.skip fun _ => Post.ok (stable_modify fun _ _ => ⟨rfl, rfl, fun _ h => h⟩)

/-- A loop whose turns are stable. -/
theorem foldlM_stable {l : List Nat} {f : CodeCache → Nat → Except LinkFailure CodeCache}
    (hf : ∀ c x, Yields c.Stable (f c x)) : Yields c.Stable (l.foldlM f c) :=
  Post.foldlM (.refl c) fun c' x _ hc' => Post.mono (hf c' x) fun _ h => hc'.trans h

/-- Leaving the caches of others is stable. -/
theorem removeFromCaches_stable : Yields c.Stable (c.removeFromCaches this) := by
  refine Post.skip fun s => ?_
  refine Post.bind (foldlM_stable fun _ _ => removeSucessor_stable) fun c₁ h₁ => ?_
  refine Post.skip fun s₁ => ?_
  refine Post.bind (foldlM_stable fun _ _ => removePredecessor_stable) fun c₂ h₂ => ?_
  refine Post.skip fun s₂ => ?_
  refine Post.bind (foldlM_stable fun _ _ => removeCallPredecessor_stable) fun c₃ h₃ => Post.ok ?_
  have hpredecessors : c₁.Stable (c₁.modify this fun s => { s with predecessors := .empty }) :=
    stable_modify fun _ _ => ⟨rfl, rfl, fun _ h => h⟩
  have hsuccessors : c₂.Stable (c₂.modify this fun s => { s with successors := .empty }) :=
    stable_modify fun _ _ => ⟨rfl, rfl, fun _ h => h⟩
  have hlast : c₃.Stable (c₃.modify this fun s => { s with callPredecessors := .empty, jitBasicBlock := none }) :=
    stable_modify fun _ _ => ⟨rfl, rfl, fun _ h => by cases h⟩
  exact ((((h₁.trans hpredecessors).trans h₂).trans hsuccessors).trans h₃).trans hlast

theorem stable_freeAll {segments : List Nat} : c.Stable { c with segments := c.segments.freeAll segments } := by
  refine ⟨fun p s' hs' => ?_, Heap.next_freeAll, fun _ => rfl⟩
  by_cases hp : p ∈ segments
  · rw [Heap.get?_freeAll_of_mem hp] at hs'
    cases hs'
  · rw [Heap.get?_freeAll_of_not_mem hp] at hs'
    exact ⟨s', hs', rfl, rfl, fun _ h => h⟩

/-- Removing segments is stable. -/
theorem removeSegments_stable {segments : List Nat} : Yields c.Stable (c.removeSegments segments) := by
  refine Post.bind (foldlM_stable fun c p => Post.skip fun s => ?_) fun c' hc' =>
    Post.ok (hc'.trans stable_freeAll)
  have herase : c.Stable { c with codeSegmentsByAddress := c.codeSegmentsByAddress.erase s.start } :=
    ⟨(Stable.refl c).records, rfl, fun _ => rfl⟩
  exact Post.mono removeFromCaches_stable fun _ h => herase.trans h

end Removal

/-- The instructions of the segments are those of `G`, what is recorded of returns is where the calls end, the native code of
each segment is its own and pushes the code of what it returns to, and the blocks of `B` have not changed their owner. -/
structure Returning (G : Nat → GuestBlock) (B : Nat → Nat → Prop) (c : CodeCache) : Prop where
  block : ∀ p s, c.segments.get? p = some s → s.cpuBasicBlock = (G p).basicBlock
  ret : ∀ p s r, c.segments.get? p = some s → s.ret = some r → r < c.segments.next ∧ (G r).start = (G p).end_
  jit : ∀ p s block, c.segments.get? p = some s → s.jitBasicBlock = some block → c.CompiledFor block p
  owner : ∀ block p, c.CompiledFor block p → p < c.segments.next
  pushes : ∀ block b o target, c.blocks.get? block = some b → (o, .pushCallstack target) ∈ b.executableMemory →
    ∃ q, c.CompiledFor target q ∧ (G q).start = (G b.currentBb).end_
  before : ∀ block p, B block p → c.CompiledFor block p

variable {B : Nat → Nat → Prop}

theorem Stable.compiledFor (h : c.Stable c') {block : Nat} : c'.CompiledFor block p ↔ c.CompiledFor block p := by
  rw [compiledFor_iff_view, compiledFor_iff_view, h.code]

/-- A stable change keeps where calls return. -/
theorem Returning.stable (h : c.Returning G B) (hs : c.Stable c') : c'.Returning G B := by
  refine ⟨fun p s' hs' => ?_, fun p s' r hs' hr => ?_, fun p s' block hs' hb => ?_, fun block p hp => ?_,
    fun block b' o target hb' he => ?_, fun block p hp => hs.compiledFor.2 (h.before block p hp)⟩
  · obtain ⟨s, hs, hblock, -⟩ := hs.records p s' hs'
    exact hblock.trans (h.block p s hs)
  · obtain ⟨s, hs₀, -, hret, -⟩ := hs.records p s' hs'
    rw [hs.next]
    exact h.ret p s r hs₀ (hret ▸ hr)
  · obtain ⟨s, hs₀, -, -, hjit⟩ := hs.records p s' hs'
    exact hs.compiledFor.2 (h.jit p s block hs₀ (hjit block hb))
  · rw [hs.next]
    exact h.owner block p (hs.compiledFor.1 hp)
  · have hview := hs.code block
    rw [hb', Option.map_some] at hview
    obtain ⟨b, hb, heq⟩ := Option.map_eq_some_iff.1 hview.symm
    obtain ⟨hcurrent, hmemory⟩ := Prod.mk.inj heq
    obtain ⟨q, hq, hstart⟩ := h.pushes block b o target hb (hmemory ▸ he)
    exact ⟨q, hs.compiledFor.2 hq, hcurrent ▸ hstart⟩

/-- A computation whose results are stable keeps where calls return to. -/
theorem Returning.of_stable (h : c.Returning G B) {x : Except LinkFailure CodeCache} (hx : Yields c.Stable x) :
    Yields (Returning G B) x := Post.mono hx fun _ hs => h.stable hs

/-- A new return keeps where calls return. -/
theorem addReturn_returning (h : c.Returning G B) : Yields (Returning G B) (c.addReturn this other) := by
  refine Post.bind (segment_found False.elim) fun s hs => Post.bind (segment_found False.elim) fun o ho => ?_
  refine Post.bind (Post.check False.elim) fun _ _ => Post.bind (Post.check False.elim) fun _ hstart => Post.ok ?_
  have hput : (c.modify this (·.addReturn other)).Returning G B := by
    refine ⟨fun p s' hs' => ?_, fun p s' r hs' hr => ?_, fun p s' block hs' hb => ?_, fun block p hp => ?_,
      h.pushes, h.before⟩
    · rcases get?_modify hs' with ⟨rfl, s, hs, rfl⟩ | ⟨-, hs⟩
      · exact h.block p s hs
      · exact h.block p s' hs
    · rcases get?_modify hs' with ⟨rfl, s₁, hs₁, rfl⟩ | ⟨-, hs⟩
      · obtain rfl : s₁ = s := Option.some.inj (hs₁.symm.trans hs)
        obtain rfl : other = r := Option.some.inj hr
        have hother : o.start = (G other).start := congrArg BasicBlock.start (h.block other o ho)
        have hthis : s₁.end_ = (G p).end_ := congrArg BasicBlock.end_ (h.block p s₁ hs)
        exact ⟨Heap.next_modify.symm ▸ Heap.Live.lt_next ⟨o, ho⟩, hother.symm.trans (hstart.trans hthis)⟩
      · exact Heap.next_modify.symm ▸ h.ret p s' r hs hr
    · rcases get?_modify hs' with ⟨rfl, s, hs, rfl⟩ | ⟨-, hs⟩
      · exact h.jit p s block hs hb
      · exact h.jit p s' block hs hb
    · exact Heap.next_modify.symm ▸ h.owner block p hp
  exact hput.stable (stable_modify fun _ _ => ⟨rfl, rfl, fun _ h => h⟩)

/-- A fetched segment returns behind its block. -/
theorem fetchSegment_returning {block : GuestBlock} (h : c.Returning G B) :
    (c.fetchSegment block.basicBlock).2.Returning (fun p => if c.segments.next ≤ p then block else G p) B := by
  have hG : ∀ p, p < c.segments.next → (if c.segments.next ≤ p then block else G p) = G p := fun p hp =>
    if_neg (Nat.not_le.2 hp)
  have hlive : ∀ {p s}, c.segments.get? p = some s → p < c.segments.next := fun hs => Heap.Live.lt_next ⟨_, hs⟩
  have hpushes : ∀ t b o target, c.blocks.get? t = some b → (o, Patch.pushCallstack target) ∈ b.executableMemory →
      ∃ q, c.CompiledFor target q ∧ (if c.segments.next ≤ q then block else G q).start =
        (if c.segments.next ≤ b.currentBb then block else G b.currentBb).end_ := by
    intro t b o target hb he
    obtain ⟨q, hq, hstart⟩ := h.pushes t b o target hb he
    refine ⟨q, hq, ?_⟩
    rw [hG q (h.owner target q hq), hG b.currentBb (h.owner t b.currentBb ⟨b, hb, rfl⟩)]
    exact hstart
  unfold fetchSegment
  split
  · refine ⟨fun p s hs => ?_, fun p s r hs hr => ?_, h.jit, h.owner, hpushes, h.before⟩
    · rw [hG p (hlive hs)]
      exact h.block p s hs
    · obtain ⟨hr', hstart⟩ := h.ret p s r hs hr
      rw [hG p (hlive hs), hG r hr']
      exact ⟨hr', hstart⟩
  · have hnext : (c.segments.alloc (.create block.basicBlock)).next = c.segments.next + 1 := by simp [Heap.next, Heap.alloc]
    have hget : ∀ p s, (c.segments.alloc (.create block.basicBlock)).get? p = some s →
        (p = c.segments.next ∧ s = .create block.basicBlock) ∨ (p < c.segments.next ∧ c.segments.get? p = some s) := by
      intro p s hs
      by_cases hp : p = c.segments.next
      · subst hp
        rw [Heap.get?_alloc_next] at hs
        exact Or.inl ⟨rfl, (Option.some.inj hs).symm⟩
      · rw [Heap.get?_alloc_of_ne hp] at hs
        exact Or.inr ⟨hlive hs, hs⟩
    refine ⟨fun p s hs => ?_, fun p s r hs hr => ?_, fun p s t hs ht => ?_, fun t p hp => ?_, hpushes, h.before⟩
    · rcases hget p s hs with ⟨rfl, rfl⟩ | ⟨hp, hs⟩
      · rw [if_pos (Nat.le_refl _)]
        rfl
      · rw [hG p hp]
        exact h.block p s hs
    · rcases hget p s hs with ⟨rfl, rfl⟩ | ⟨hp, hs⟩
      · cases hr
      · obtain ⟨hr', hstart⟩ := h.ret p s r hs hr
        rw [hG p hp, hG r hr']
        exact ⟨hnext ▸ Nat.lt_succ_of_lt hr', hstart⟩
    · rcases hget p s hs with ⟨rfl, rfl⟩ | ⟨-, hs⟩
      · cases ht
      · exact h.jit p s t hs ht
    · exact hnext ▸ Nat.lt_succ_of_lt (h.owner t p hp)

section Patching

/-- Native code gets a patch: of those that push, only one that leads to where the call returns. -/
theorem Returning.modifyBlock (h : c.Returning G B) {f : JitBasicBlock → JitBasicBlock} {block : Nat}
    (hf : ∀ b, (f b).currentBb = b.currentBb)
    (hpush : ∀ b o target, c.blocks.get? block = some b → (o, .pushCallstack target) ∈ (f b).executableMemory →
      (o, .pushCallstack target) ∈ b.executableMemory ∨ ∃ q, c.CompiledFor target q ∧ (G q).start = (G b.currentBb).end_) :
    (c.modifyBlock block f).Returning G B := by
  refine ⟨h.block, h.ret, fun p s t hs ht => (compiledFor_modifyBlock hf).2 (h.jit p s t hs ht),
    fun t p hp => h.owner t p ((compiledFor_modifyBlock hf).1 hp), fun t b' o target hb' he => ?_,
    fun t p hp => (compiledFor_modifyBlock hf).2 (h.before t p hp)⟩
  have hfound : ∃ q, c.CompiledFor target q ∧ (G q).start = (G b'.currentBb).end_ := by
    rcases get?_modifyBlock hb' with ⟨rfl, b, hb, rfl⟩ | ⟨-, hb⟩
    · rw [hf b]
      rcases hpush b o target hb he with hold | hnew
      · exact h.pushes t b o target hb hold
      · exact hnew
    · exact h.pushes t b' o target hb he
  obtain ⟨q, hq, hstart⟩ := hfound
  exact ⟨q, (compiledFor_modifyBlock hf).2 hq, hstart⟩

/-- A patch of a block is the one just written or stood there. -/
theorem mem_write {b : JitBasicBlock} {offset : Nat} {patch : Patch} {e : Nat × Patch}
    (he : e ∈ (b.write offset patch).executableMemory) : e = (offset, patch) ∨ e ∈ b.executableMemory := by
  rcases List.mem_cons.1 he with rfl | he
  · exact Or.inl rfl
  · exact Or.inr (List.mem_filter.1 he).1

/-- A patched jump pushes nothing new. -/
theorem tryPatchJump_pushes {b : JitBasicBlock} {continuing : Bool} {next o target : Nat}
    (he : (o, .pushCallstack target) ∈ (b.tryPatchJump continuing next).executableMemory) :
    (o, .pushCallstack target) ∈ b.executableMemory := by
  have hwrite : ∀ offset, (o, Patch.pushCallstack target) ∈ (b.write offset (.jumpTo next)).executableMemory →
      (o, Patch.pushCallstack target) ∈ b.executableMemory := fun offset he => (mem_write he).resolve_left (by simp)
  unfold JitBasicBlock.tryPatchJump at he
  split at he
  · exact he
  · split at he
    · split at he
      · exact he
      · exact hwrite _ he
    · split at he
      · exact he
      · exact hwrite _ he

/-- A patched call pushes its destination. -/
theorem tryPatchPushCallstack_pushes {b : JitBasicBlock} {next o target : Nat}
    (he : (o, .pushCallstack target) ∈ (b.tryPatchPushCallstack next).executableMemory) :
    target = next ∨ (o, .pushCallstack target) ∈ b.executableMemory := by
  unfold JitBasicBlock.tryPatchPushCallstack at he
  split at he
  · exact Or.inr he
  · rcases mem_write he with heq | he
    · exact Or.inl (Patch.pushCallstack.inj (Prod.mk.inj heq).2)
    · exact Or.inr he

theorem tryPatchJump_currentBb {b : JitBasicBlock} {continuing : Bool} {next : Nat} :
    (b.tryPatchJump continuing next).currentBb = b.currentBb := patchedTo_tryPatchJump.currentBb

theorem tryPatchPushCallstack_currentBb {b : JitBasicBlock} {next : Nat} :
    (b.tryPatchPushCallstack next).currentBb = b.currentBb := patchedTo_tryPatchPushCallstack.currentBb

/-- A jump is patched. -/
theorem patchJump_returning {block : Nat} {next : Option Nat} {continuing : CodeSegment → Bool} (h : c.Returning G B) :
    Yields (Returning G B)
      (c.patchWith block next fun b next target => b.tryPatchJump (continuing next) target) := by
  unfold patchWith
  split
  · exact Post.ok h
  · refine Post.bind (segment_found False.elim) fun s _ => ?_
    split
    · exact Post.ok h
    · exact Post.ok (h.modifyBlock (fun _ => tryPatchJump_currentBb) fun b o target _ he => .inl (tryPatchJump_pushes he))

/-- A call is patched, in the code of the segment that records the return. -/
theorem patchPush_returning {block : Nat} (h : c.Returning G B) (hs : c.segments.get? this = some s)
    (hblock : c.CompiledFor block this) :
    Yields (Returning G B) (c.patchWith block s.ret fun b _ target => b.tryPatchPushCallstack target) := by
  unfold patchWith
  split
  · exact Post.ok h
  · next r hr =>
    refine Post.bind (segment_found False.elim) fun o ho => ?_
    split
    · exact Post.ok h
    · next target htarget =>
      refine Post.ok (h.modifyBlock (fun _ => tryPatchPushCallstack_currentBb) fun b o' target' hb he => ?_)
      rcases tryPatchPushCallstack_pushes he with rfl | hold
      · have hthis : b.currentBb = this := CompiledFor.unique ⟨b, hb, rfl⟩ hblock
        exact Or.inr ⟨r, h.jit r o target' ho htarget, hthis ▸ (h.ret this s r hs hr).2⟩
      · exact Or.inl hold

/-- Patching keeps where calls return. -/
theorem tryPatch_returning (h : c.Returning G B) : Yields (Returning G B) (c.tryPatch this) := by
  refine Post.bind (segment_found False.elim) fun s hs => ?_
  split
  · exact Post.ok h
  · next block hblock =>
    refine Post.bind (p := Returning G B) (Post.ite (fun _ => ?_) fun _ => Post.ok h) fun c' hc' =>
      hc'.of_stable syncBlockLookupTable_stable
    refine Post.bind (patchPush_returning h hs (h.jit this s block hs hblock)) fun c' hc' => ?_
    exact Post.foldlM hc' fun c'' slot _ hc'' => patchJump_returning hc''

/-- Nothing is compiled. -/
def NothingCompiled (c c' : CodeCache) : Prop := ∀ block p, c'.CompiledFor block p → c.CompiledFor block p

theorem NothingCompiled.trans {c'' : CodeCache} (h : c.NothingCompiled c') (h' : c'.NothingCompiled c'') : c.NothingCompiled c'' :=
  fun block p hp => h block p (h' block p hp)

theorem Stable.nothingCompiled (h : c.Stable c') : c.NothingCompiled c' := fun _ _ => h.compiledFor.1

theorem patchWith_nothingCompiled {block : Nat} {next : Option Nat} {patch : JitBasicBlock → CodeSegment → Nat → JitBasicBlock}
    (hpatch : ∀ b s target, (patch b s target).currentBb = b.currentBb) :
    Yields c.NothingCompiled (c.patchWith block next patch) := by
  unfold patchWith
  split
  · exact Post.ok fun _ _ => id
  · refine Post.skip fun s => ?_
    split
    · exact Post.ok fun _ _ => id
    · exact Post.ok fun _ _ => (compiledFor_modifyBlock fun b => hpatch b _ _).1

/-- Patching compiles nothing. -/
theorem tryPatch_nothingCompiled : Yields c.NothingCompiled (c.tryPatch this) := by
  refine Post.skip fun s => ?_
  split
  · exact Post.ok fun _ _ => id
  · refine Post.bind (p := c.NothingCompiled) (Post.ite (fun _ => ?_) fun _ => Post.ok fun _ _ => id) fun c' hc' =>
      Post.mono syncBlockLookupTable_stable fun _ h => hc'.trans h.nothingCompiled
    refine Post.bind (patchWith_nothingCompiled fun _ _ _ => tryPatchPushCallstack_currentBb) fun c' hc' => ?_
    refine Post.foldlM hc' fun c'' slot _ hc'' => ?_
    exact Post.mono (patchWith_nothingCompiled fun _ _ _ => tryPatchJump_currentBb) fun _ h => hc''.trans h

end Patching

section Compiling

/-- A segment that gets native code of its own. -/
theorem Returning.compiled (h : c.Returning G B) (hs : c.segments.get? this = some s) {native : NativeBasicBlock} :
    { c.modify this fun s => { s with jitBasicBlock := some c.blocks.next } with
      blocks := c.blocks.alloc (.create native this) : CodeCache }.Returning G B := by
  have hget : ∀ t b, (c.blocks.alloc (.create native this)).get? t = some b →
      (t = c.blocks.next ∧ b = .create native this) ∨ c.blocks.get? t = some b := by
    intro t b hb
    by_cases ht : t = c.blocks.next
    · subst ht
      rw [Heap.get?_alloc_next] at hb
      exact Or.inl ⟨rfl, (Option.some.inj hb).symm⟩
    · rw [Heap.get?_alloc_of_ne ht] at hb
      exact Or.inr hb
  have hput : ∀ t b, c.blocks.get? t = some b → (c.blocks.alloc (.create native this)).get? t = some b := by
    intro t b hb
    have ht : t ≠ c.blocks.next := Nat.ne_of_lt (Heap.Live.lt_next ⟨b, hb⟩)
    rw [Heap.get?_alloc_of_ne ht]
    exact hb
  have hfor : ∀ {t q}, c.CompiledFor t q → ∃ b, (c.blocks.alloc (.create native this)).get? t = some b ∧ b.currentBb = q := by
    rintro t q ⟨b, hb, hq⟩
    exact ⟨b, hput t b hb, hq⟩
  refine ⟨fun p s' hs' => ?_, fun p s' r hs' hr => ?_, fun p s' t hs' ht => ?_, fun t p hp => ?_,
    fun t b o target hb he => ?_, fun t p hp => hfor (h.before t p hp)⟩
  · rcases get?_modify hs' with ⟨rfl, s, hs, rfl⟩ | ⟨-, hs⟩
    · exact h.block p s hs
    · exact h.block p s' hs
  · have hnext : (c.segments.modify this fun s => { s with jitBasicBlock := some c.blocks.next }).next = c.segments.next :=
      Heap.next_modify
    rcases get?_modify hs' with ⟨rfl, s, hs, rfl⟩ | ⟨-, hs⟩
    · exact hnext ▸ h.ret p s r hs hr
    · exact hnext ▸ h.ret p s' r hs hr
  · rcases get?_modify hs' with ⟨rfl, s, hs, rfl⟩ | ⟨-, hs⟩
    · obtain rfl : c.blocks.next = t := Option.some.inj ht
      exact ⟨_, Heap.get?_alloc_next, rfl⟩
    · exact hfor (h.jit p s' t hs ht)
  · have hnext : (c.segments.modify this fun s => { s with jitBasicBlock := some c.blocks.next }).next = c.segments.next :=
      Heap.next_modify
    obtain ⟨b, hb, rfl⟩ := hp
    rcases hget t b hb with ⟨rfl, rfl⟩ | hb
    · exact hnext ▸ Heap.Live.lt_next ⟨s, hs⟩
    · exact hnext ▸ h.owner t b.currentBb ⟨b, hb, rfl⟩
  · rcases hget t b hb with ⟨rfl, rfl⟩ | hb
    · cases he
    · obtain ⟨q, hq, hstart⟩ := h.pushes t b o target hb he
      exact ⟨q, hfor hq, hstart⟩

/-- An installed block returns where its segment does. -/
theorem install_returning (h : c.Returning G B) {native : NativeBasicBlock} :
    Yields (Returning G B) (c.install this native) := by
  refine Post.bind (segment_found False.elim) fun s hs => Post.ite (fun _ => ?_) fun _ => Post.ok (h.compiled hs)
  exact Post.foldlM (h.compiled hs) fun c' p _ hc' => tryPatch_returning hc'

/-- Compiling keeps where calls return. -/
theorem tryCompile_returning (h : c.Returning G B) {compiler : SegmentCompiler} :
    Yields (fun r => r.1.Returning G B) (c.tryCompile compiler this) := by
  refine Post.bind (segment_found False.elim) fun s _ => Post.ite (fun _ => ?_) fun _ => Post.ite (fun _ => Post.ok h) fun _ => ?_
  · exact Post.ok (h.stable (stable_modify fun _ _ => ⟨rfl, rfl, fun _ h => h⟩))
  · have hinstall : Yields (Returning G B) (c.installIf this (compiler this)) := by
      cases compiler this with
      | none => exact Post.ok h
      | some native => exact install_returning h
    exact Post.bind hinstall fun c' hc' => Post.ok (hc'.stable (stable_modify fun _ _ => ⟨rfl, rfl, fun _ h => h⟩))

/-- The queue keeps where calls return. -/
theorem process_returning {compiler : SegmentCompiler} {turns : Nat} {queue : List Nat} (h : c.Returning G B) :
    Yields (Returning G B) (process compiler turns queue c) := by
  induction turns generalizing queue c with
  | zero =>
    cases queue with
    | nil => exact Post.ok h
    | cons p queue => exact Post.error id
  | succ turns ih =>
    cases queue with
    | nil => exact Post.ok h
    | cons p queue => exact Post.bind (tryCompile_returning h) fun r hr => ih hr

end Compiling

/-- No call of an empty cache returns. -/
theorem initial_returning (jitChainingEnabled : Bool) : (initial jitChainingEnabled).Returning G (fun _ _ => False) := by
  refine ⟨fun p s hs => ?_, fun p s r hs => ?_, fun p s block hs => ?_, fun block p hp => ?_, fun block b o target hb => ?_,
    fun block p hp => hp.elim⟩
  · simp [initial, Heap.get?_empty] at hs
  · simp [initial, Heap.get?_empty] at hs
  · simp [initial, Heap.get?_empty] at hs
  · obtain ⟨b, hb, -⟩ := hp
    simp [initial, Heap.get?_empty] at hb
  · simp [initial, Heap.get?_empty] at hb

end CodeCache

end X64Emulator
