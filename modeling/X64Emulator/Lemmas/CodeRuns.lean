import X64Emulator.Lemmas.CodeRemoval

/-!
# Runs

The removal of segments, one after another, and with it all actions keep the invariant. The promise on a run is that no removal
leaves a trace: what a call recorded of the segment it returns to is not undone, nor is what was patched into native code.
-/

namespace X64Emulator

open Outcome

namespace CodeCache

variable {P : Prop} {c c' : CodeCache} {A : Nat → Prop} {p S : Nat} {s : CodeSegment}

/-- No segment is removed while a call segment that stays returns to it, while it returns to a segment that stays, or after
code of another segment was patched to lead to its code. -/
def LeavesNoTrace (c : CodeCache) : CodeAction → Prop
  | .removeSegments segments => ∀ S ∈ segments,
      (∀ p s, c.segments.get? p = some s → p ∉ segments → s.ret ≠ some S) ∧
      (∀ s r, c.segments.get? S = some s → s.ret = some r → r ∈ segments) ∧
      ∀ block b, c.blocks.get? block = some b → b.currentBb ≠ S → ∀ e ∈ b.executableMemory, ¬ c.CompiledFor e.2.target S
  | _ => True

section Removal

variable {victims rest : List Nat}

/-- The segments that are not removed yet, when the segments `rest` are still to be removed. -/
def Staying (c : CodeCache) (victims rest : List Nat) (p : Nat) : Prop := c.segments.Live p ∧ (p ∈ victims → p ∈ rest)

structure RemovalLoop (c : CodeCache) (victims rest : List Nat) (c' : CodeCache) : Prop where
  trimmed : c.Trimmed c'
  linked : c'.Linked (c.Staying victims rest)
  nodup : rest.Nodup
  sub : ∀ x ∈ rest, x ∈ victims

theorem RemovalLoop.turn (h : RemovalLoop c victims (S :: rest) c') (hinv : c.Inv P) (hlive : ∀ x ∈ victims, c.segments.Live x) :
    Post (Dangles P) (RemovalLoop c victims rest) (do
      let s ← c'.segment S
      removeFromCaches { c' with codeSegmentsByAddress := c'.codeSegmentsByAddress.erase s.start } S) := by
  have hvictim : S ∈ victims := h.sub S List.mem_cons_self
  have hS : c.Staying victims (S :: rest) S := ⟨hlive S hvictim, fun _ => List.mem_cons_self⟩
  refine Post.bind (segment_post fun _ => h.trimmed.live.2 hS.1) fun s hs => ?_
  obtain ⟨s₀, hs₀, -⟩ := h.trimmed.before hs
  have hleaving : Leaving (c.Staying victims (S :: rest)) S
      { c' with codeSegmentsByAddress := c'.codeSegmentsByAddress.erase s.start } :=
    ⟨h.linked.graph.leave hS (links_eq hs) fun k hk => AddressMap.find_erase hk, fun p t hp _ => h.linked.locals p t hp,
      ⟨fun p t b hp => h.linked.compiled.jit p t b hp.1, fun p t hp => h.linked.compiled.nextJit p t hp.1,
        fun p t b b' hp => h.linked.compiled.table p t b b' hp.1⟩⟩
  refine Post.mono (removeFromCaches_post hleaving hS hs (fun p l hp hne hl hmem => ?_) (fun p l hp hne hl hmem => ?_)
    fun hP x hx => ?_) fun c'' ⟨htrim, hlinked⟩ => ?_
  · exact (h.linked.graph.back p l S s.links hp hS hl (links_eq hs)).1 hmem
  · exact (h.linked.graph.back S s.links p l hS hp (links_eq hs) hl).2 hmem
  · obtain ⟨t, ht, -⟩ := (hinv.returns hP).calls S s₀ hs₀ x (h.trimmed.calls S s₀ s hs₀ hs x hx)
    exact h.trimmed.live.2 ⟨t, ht⟩
  · have hstaying : (fun p => c.Staying victims (S :: rest) p ∧ p ≠ S) = c.Staying victims rest := by
      funext p
      refine propext ⟨fun ⟨⟨hp, hmem⟩, hne⟩ => ⟨hp, fun hv => (List.mem_cons.1 (hmem hv)).resolve_left hne⟩,
        fun ⟨hp, hmem⟩ => ⟨⟨hp, fun hv => List.mem_cons_of_mem _ (hmem hv)⟩, ?_⟩⟩
      rintro rfl
      exact (List.nodup_cons.1 h.nodup).1 (hmem hvictim)
    exact ⟨h.trimmed.trans ⟨htrim.records, htrim.calls, htrim.code, htrim.next⟩, hstaying ▸ hlinked,
      (List.nodup_cons.1 h.nodup).2, fun x hx => h.sub x (List.mem_cons_of_mem _ hx)⟩

theorem Trimmed.compiledFor (h : c.Trimmed c') {block : Nat} : c'.CompiledFor block p ↔ c.CompiledFor block p := by
  rw [compiledFor_iff_view, compiledFor_iff_view, h.code]

/-- The segments leave the caches of the others, one after another. -/
theorem removalLoop_post (h : c.Inv P) (hnodup : victims.Nodup) (hlive : ∀ x ∈ victims, c.segments.Live x) :
    Post (Dangles P) (RemovalLoop c victims []) (victims.foldlM (fun c p => do
      let s ← c.segment p
      removeFromCaches { c with codeSegmentsByAddress := c.codeSegmentsByAddress.erase s.start } p) c) := by
  have hall : c.Staying victims victims = c.segments.Live := funext fun p => propext ⟨fun hp => hp.1, fun hp => ⟨hp, id⟩⟩
  have hstart : RemovalLoop c victims victims c := by
    refine ⟨.refl c, ?_, hnodup, fun _ hx => hx⟩
    rw [hall]
    exact ⟨h.graph, fun p s _ => h.locals p s, h.compiled⟩
  exact Post.foldlM_rest hstart fun c' x rest hI => hI.turn h hlive

/-- The segments are removed without a trace, and destroyed. -/
theorem removeSegments_post (h : c.Inv P) (hnodup : victims.Nodup) (hlive : ∀ x ∈ victims, c.segments.Live x)
    (htrace : P → c.LeavesNoTrace (.removeSegments victims)) : Post (Dangles P) (Inv P) (c.removeSegments victims) := by
  refine Post.bind (removalLoop_post h hnodup hlive) fun c' hend => Post.ok ?_
  have hgone : ∀ p, (c'.segments.freeAll victims).Live p ↔ c.Staying victims [] p := by
    intro p
    by_cases hp : p ∈ victims
    · refine ⟨fun ⟨s, hs⟩ => ?_, fun hstay => absurd (hstay.2 hp) List.not_mem_nil⟩
      rw [Heap.get?_freeAll_of_mem hp] at hs
      cases hs
    · have hsame : (c'.segments.freeAll victims).Live p ↔ c'.segments.Live p := by
        unfold Heap.Live
        rw [Heap.get?_freeAll_of_not_mem hp]
      exact hsame.trans (hend.trimmed.live.trans ⟨fun hp' => ⟨hp', fun hv => absurd hv hp⟩, fun hstay => hstay.1⟩)
  have hget : ∀ p s, (c'.segments.freeAll victims).get? p = some s → p ∉ victims ∧ c'.segments.get? p = some s := by
    intro p s hs
    by_cases hp : p ∈ victims
    · rw [Heap.get?_freeAll_of_mem hp] at hs
      cases hs
    · exact ⟨hp, (Heap.get?_freeAll_of_not_mem hp).symm.trans hs⟩
  have hput : ∀ p, c.Staying victims [] p → (c'.segments.freeAll victims).get? p = c'.segments.get? p := fun p hp =>
    Heap.get?_freeAll_of_not_mem fun hv => List.not_mem_nil (hp.2 hv)
  have hlive' : (c'.segments.freeAll victims).Live = c.Staying victims [] := funext fun p => propext (hgone p)
  refine ⟨?_, fun p s hs => ?_, ⟨fun p s b hp hs => ?_, fun p s hp hs => ?_, fun p s b b' hp hs => ?_⟩,
    fun hP => ⟨fun p s r hs hr => ?_, fun p s hs x hx => ?_⟩, fun hP block b hb e he => ?_⟩
  · show Graph (c'.segments.freeAll victims).Live (c'.segments.freeAll victims).Live _ _
    rw [hlive']
    refine hend.linked.graph.congr fun p hp => ?_
    unfold links
    rw [hput p hp]
  · exact hend.linked.locals p s ((hgone p).1 ⟨s, hs⟩) (hget p s hs).2
  · exact hend.linked.compiled.jit p s b ((hgone p).1 hp) (hget p s hs).2
  · exact hend.linked.compiled.nextJit p s ((hgone p).1 hp) (hget p s hs).2
  · exact hend.linked.compiled.table p s b b' ((hgone p).1 hp) (hget p s hs).2
  · -- the segment it returns to stays as well
    obtain ⟨hp, hs'⟩ := hget p s hs
    obtain ⟨s₀, hs₀, -, hret⟩ := hend.trimmed.before hs'
    have hr₀ : s₀.ret = some r := hret ▸ hr
    exact (hgone r).2 ⟨(h.returns hP).ret p s₀ r hs₀ hr₀, fun hv => absurd hr₀ ((htrace hP r hv).1 p s₀ hs₀ hp)⟩
  · obtain ⟨hp, hs'⟩ := hget p s hs
    obtain ⟨s₀, hs₀, -⟩ := hend.trimmed.before hs'
    obtain ⟨t, ht, hret⟩ := (h.returns hP).calls p s₀ hs₀ x (hend.trimmed.calls p s₀ s hs₀ hs' x hx)
    obtain ⟨t', ht', -, hret'⟩ := hend.trimmed.after ht
    have hx : x ∉ victims := fun hv => hp ((htrace hP x hv).2.1 t p ht hret)
    exact ⟨t', (Heap.get?_freeAll_of_not_mem hx).trans ht', hret'.trans hret⟩
  · have hview := hend.trimmed.code block
    rw [show c'.blocks.get? block = some b from hb, Option.map_some] at hview
    obtain ⟨b₀, hb₀, heq⟩ := Option.map_eq_some_iff.1 hview.symm
    obtain ⟨hbb, hmem⟩ := Prod.mk.inj heq
    obtain ⟨q, hq, hto⟩ := h.patches hP block b₀ hb₀ e (hmem ▸ he)
    refine ⟨q, hend.trimmed.compiledFor.2 hq, ?_⟩
    by_cases hself : b₀.currentBb = q
    · exact Or.inr (hself.symm.trans hbb)
    · refine Or.inl ((hgone q).2 ⟨hto.resolve_right (Ne.symm hself), fun hv => ?_⟩)
      exact absurd hq ((htrace hP q hv).2.2 block b₀ hb₀ hself e (hmem ▸ he))

end Removal

/-- Every action keeps the invariant and, if the promise is that no removal leaves a trace, follows no dangling pointer. -/
theorem exec_post (h : c.Inv P) {action : CodeAction} (henabled : c.enabled action) (htrace : P → c.LeavesNoTrace action) :
    Post (Dangles P) (Inv P) (c.exec action) := by
  cases action with
  | fetchSegment block => exact Post.ok (fetchSegment_post h).inv
  | findNext this address => exact Post.map (Post.mono (findNext_post h henabled) fun _ hk => hk.inv)
  | addSuccessor this other => exact Post.mono (addSuccessor_post h henabled.1 henabled.2) fun _ hk => hk.inv
  | addReturn this other => exact Post.mono (addReturn_post h henabled.1 henabled.2) fun _ hk => hk.inv
  | onCpuCall this =>
    refine Post.ok (h.modify (f := (·.onCpuCall)) (fun s => ?_) (fun _ => rfl) fun _ => rfl).inv
    exact ⟨rfl, rfl, rfl, rfl, rfl, fun slot hslot => ⟨slot, hslot, rfl⟩, rfl⟩
  | onCall this compiler turns =>
    refine Post.mono (process_post h fun _ x hx => ?_) fun _ hk => hk.inv
    obtain rfl := List.mem_singleton.1 hx
    exact henabled
  | tryPatch this => exact Post.mono (tryPatch_post h fun _ => henabled) fun _ hk => hk.inv
  | removeSegments segments => exact removeSegments_post h henabled.1 henabled.2 htrace

theorem initial_inv (P : Prop) (jitChainingEnabled : Bool) : (initial jitChainingEnabled).Inv P := by
  have hnone : ∀ p, ¬ (initial jitChainingEnabled).segments.Live p := by
    rintro p ⟨s, hs⟩
    cases hs
  have hget : ∀ p s, (initial jitChainingEnabled).segments.get? p = some s → False := fun p s hs => hnone p ⟨s, hs⟩
  refine ⟨⟨fun _ hp => hp, fun p hp => (hnone p hp).elim, fun p _ hp => (hnone p hp).elim, fun p _ hp => (hnone p hp).elim,
    fun p _ _ _ hp => (hnone p hp).elim, fun p _ _ _ hp => (hnone p hp).elim, fun p _ hp => (hnone p hp).elim⟩,
    fun p s hs => (hget p s hs).elim, ⟨fun p _ _ hp => (hnone p hp).elim, fun p _ hp => (hnone p hp).elim,
      fun p _ _ _ hp => (hnone p hp).elim⟩, fun _ => ⟨fun p s _ hs => (hget p s hs).elim, fun p s hs => (hget p s hs).elim⟩,
    fun _ block b hb => ?_⟩
  cases hb

theorem step_some {action : CodeAction} (hs : c.step action = some c') : c.enabled action ∧ c.exec action = .ok c' :=
  enabled_toOption_eq_some.1 hs

/-- Every state of a run keeps the invariant, with the promise if all steps keep it. -/
theorem reachableUnder_inv {C : CodeCache → CodeAction → Prop} (hC : ∀ c action, C c action → P → c.LeavesNoTrace action)
    (h : machine.ReachableUnder C c) : c.Inv P := by
  refine h.invariant (Inv P) ?_ ?_
  · rintro _ ⟨jitChainingEnabled, rfl⟩
    exact initial_inv P jitChainingEnabled
  · intro c action c' _ hinv htrace hstep
    obtain ⟨henabled, hexec⟩ := step_some hstep
    exact (exec_post hinv henabled (hC c action htrace)).of_ok hexec

end CodeCache

end X64Emulator
