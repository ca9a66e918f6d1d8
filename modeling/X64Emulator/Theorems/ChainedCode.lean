import X64Emulator.Lemmas.CodeRuns

/-!
# What leads to a segment that was removed

The removal of a segment undoes the links to the segments before and after it. It does not undo what a call recorded of the
segment it returns to, nor what was already patched into native code, and the condition on a run is that no such trace is left.
-/

namespace X64Emulator

open Outcome

namespace CodeCache

variable {P : Prop} {c c' : CodeCache} {A : Nat → Prop} {p S : Nat} {s : CodeSegment}

/-- No other segment that exists leads to `S`, and no code that was compiled for another segment leads to the code of `S`. -/
structure Unreachable (c : CodeCache) (S : Nat) : Prop where
  destinations : ∀ p s, c.segments.get? p = some s → S ∉ s.destinations
  successors : ∀ p s, c.segments.get? p = some s → S ∉ s.successors.targets
  predecessors : ∀ p s, c.segments.get? p = some s → S ∉ s.predecessors.targets
  callPredecessors : ∀ p s, c.segments.get? p = some s → S ∉ s.callPredecessors.targets
  ret : ∀ p s, c.segments.get? p = some s → s.ret ≠ some S
  nextJit : ∀ p s, c.segments.get? p = some s → ∀ d ∈ s.variableDestinationInfo, ∀ target, d.nextJit = some target →
    ¬ c.CompiledFor target S
  table : ∀ p s block b, c.segments.get? p = some s → s.jitBasicBlock = some block → c.blocks.get? block = some b →
    ∀ target, some target ∈ b.variableDestinationTable.blocks → ¬ c.CompiledFor target S
  code : ∀ block b, c.blocks.get? block = some b → b.currentBb ≠ S → ∀ e ∈ b.executableMemory, ¬ c.CompiledFor e.2.target S

theorem Inv.unreachable (h : c.Inv True) (hS : ¬ c.segments.Live S) : c.Unreachable S := by
  have hfor : ∀ {target x}, c.CompiledFor target x → c.segments.Live x → ¬ c.CompiledFor target S :=
    fun hx hlive hfor => hS (hx.unique hfor ▸ hlive)
  refine ⟨fun p s hs hmem => hS (h.destination_live hs hmem), fun p s hs hmem => ?_, fun p s hs hmem => ?_,
    fun p s hs hmem => ?_, fun p s hs hret => hS ((h.returns trivial).ret p s S hs hret), fun p s hs d hd target ht => ?_,
    fun p s block b hs hb hb' target ht => ?_, fun block b hb hne e he hfor => ?_⟩
  · obtain ⟨k, hk⟩ := AddressMap.mem_targets.1 hmem
    exact hS (h.graph.successors p s.links ⟨s, hs⟩ (links_eq hs) _ hk).1
  · obtain ⟨k, hk⟩ := AddressMap.mem_targets.1 hmem
    exact hS (h.graph.predecessors p s.links ⟨s, hs⟩ (links_eq hs) _ hk).1
  · obtain ⟨t, ht, -⟩ := (h.returns trivial).calls p s hs S hmem
    exact hS ⟨t, ht⟩
  · exact hfor (h.compiled.nextJit p s ⟨s, hs⟩ hs d hd target ht)
      (h.destination_live hs (CodeSegment.mem_destinations.2 (.inr (List.mem_map_of_mem hd))))
  · obtain ⟨x, hx, hx'⟩ := h.compiled.table p s block b ⟨s, hs⟩ hs hb hb' target ht
    exact hfor hx' (h.destination_live hs (CodeSegment.mem_destinations.2 (.inr hx)))
  · obtain ⟨q, hq, hlive | rfl⟩ := h.patches trivial block b hb e he
    · exact hfor.unique hq ▸ hS <| hlive
    · exact hne (hq.unique hfor)

/-- No action follows a dangling pointer, not even a removal that leaves a trace. -/
theorem Inv.not_dangling (h : c.Inv True) {action : CodeAction} (henabled : c.enabled action) : c.exec action ≠ .error .dangling := by
  intro hfail
  cases action with
  | removeSegments segments =>
    have hpost : Post (Dangles True) (fun _ => True) (c.removeSegments segments) :=
      Post.bind (removalLoop_post h henabled.1 henabled.2) fun _ _ => Post.ok trivial
    exact hpost.of_error hfail ⟨trivial, rfl⟩
  | _ => exact (exec_post h henabled fun _ => trivial).of_error hfail ⟨trivial, rfl⟩

/-- In a run whose removals leave no trace, nothing leads to a segment that was removed, and no step follows a pointer to one. -/
theorem removed_unreachable (h : machine.ReachableUnder LeavesNoTrace c) :
    (∀ S, c.segments.Freed S → c.Unreachable S) ∧ ∀ action, c.enabled action → c.exec action ≠ .error .dangling := by
  have hinv : c.Inv True := reachableUnder_inv (fun _ _ htrace _ => htrace) h
  exact ⟨fun S hS => hinv.unreachable hS.not_live, fun _ => hinv.not_dangling⟩

/-- A block that ends with a call, the block it returns to, and the block it calls. -/
def callBlock : BasicBlock := ⟨4080, 4096, false, true⟩

def returnBlock : BasicBlock := ⟨4096, 4112, true, false⟩

def calledBlock : BasicBlock := ⟨8192, 8208, false, false⟩

/-- The virtual machine has executed the call. -/
def callRun : List CodeAction := [.fetchSegment callBlock, .onCpuCall 0, .fetchSegment calledBlock, .addSuccessor 0 1]

theorem leavesNoTrace_of_none (hret : ∀ p s, c.segments.get? p = some s → s.ret = none) (hblocks : ∀ b, c.blocks.get? b = none)
    (action : CodeAction) : c.LeavesNoTrace action := by
  cases action with
  | removeSegments segments =>
    refine fun S _ => ⟨fun p s hs _ => ?_, fun s r hs hr => ?_, fun block b hb => ?_⟩
    · rw [hret p s hs]
      simp
    · rw [hret S s hs] at hr
      cases hr
    · rw [hblocks block] at hb
      cases hb
  | _ => trivial

/-- The block that was called is removed before anything is compiled. -/
theorem removed_unreachable_called : ∃ c, machine.run (initial true) (callRun ++ [.removeSegments [1]]) = some c ∧
    c.segments.Live 0 ∧ c.segments.Freed 1 ∧ (∀ S, c.segments.Freed S → c.Unreachable S) ∧
      ∀ action, c.enabled action → c.exec action ≠ .error .dangling := by
  have hbefore : (machine.run (initial true) callRun).map (fun c => (c.segments.cells.map (·.map (·.ret)), c.blocks.cells)) =
      some ([some none, some none], []) := by decide
  have hafter : (machine.run (initial true) (callRun ++ [.removeSegments [1]])).map (fun c =>
      ((c.segments.get? 0).isSome, (c.segments.get? 1).isSome, c.segments.next)) = some (true, false, 2) := by decide
  obtain ⟨c, hc, hview⟩ := Option.map_eq_some_iff.1 hbefore
  obtain ⟨c', hc', hview'⟩ := Option.map_eq_some_iff.1 hafter
  obtain ⟨hrets, hcells⟩ := Prod.mk.inj hview
  have hstep : machine.step c (.removeSegments [1]) = some c' := by
    rw [Machine.run_append, hc, Option.bind_some, Machine.run_singleton] at hc'
    exact hc'
  have htrace : c.LeavesNoTrace (.removeSegments [1]) := by
    refine leavesNoTrace_of_none (fun p s hs => ?_) (fun b => ?_) _
    · have hp : (c.segments.cells.map (·.map (·.ret)))[p]? = some (some s.ret) := by
        have hcell : c.segments.cells[p]? = some (some s) := Option.join_eq_some_iff.1 hs
        rw [List.getElem?_map, hcell, Option.map_some, Option.map_some]
      have hmem := List.mem_of_getElem? hp
      rw [hrets] at hmem
      simpa using hmem
    · simp [Heap.get?, hcells]
  have hstart : machine.ReachableUnder LeavesNoTrace (initial true) := .init ⟨true, rfl⟩
  have hreach : machine.ReachableUnder LeavesNoTrace c := by
    refine hstart.run callRun (fun action haction c => ?_) hc
    simp only [callRun, List.mem_cons, List.not_mem_nil, or_false] at haction
    rcases haction with rfl | rfl | rfl | rfl <;> trivial
  obtain ⟨hlive, hview'⟩ := Prod.mk.inj hview'
  obtain ⟨hgone, hnext⟩ := Prod.mk.inj hview'
  exact ⟨c', hc', Option.isSome_iff_exists.1 hlive, ⟨by omega, by simpa using hgone⟩,
    removed_unreachable (hreach.step _ htrace hstep)⟩

/-- What the compiler makes of the call: the place of the push comes before the place of the jump. -/
def callCode : NativeBasicBlock := ⟨none, some 64, some (32, 4096)⟩

def plainCode : NativeBasicBlock := ⟨none, none, none⟩

def compilerOf (p : Nat) : Option NativeBasicBlock := if p = 0 then some callCode else some plainCode

/-- A block is executed until it is compiled. -/
def executed (p : Nat) : List CodeAction :=
  (List.replicate 8 [CodeAction.onCall p compilerOf 20, .onCpuCall p]).flatten ++ [.onCall p compilerOf 20]

/-- The call is executed, compiled and chained to the block it calls and to the block it returns to, which are then removed. -/
def chainedRun : List CodeAction :=
  callRun ++ [.fetchSegment returnBlock, .addReturn 0 2] ++ executed 0 ++ executed 1 ++ executed 2 ++
    [.tryPatch 0, .removeSegments [1, 2]]

/-- The call still records the segment it returned to, which was removed. -/
theorem removed_unreachable_fails : ¬ ∀ c, machine.Reachable c → ∀ S, c.segments.Freed S → c.Unreachable S := by
  intro h
  have hrun : (machine.run (initial true) chainedRun).map (fun c =>
      ((c.segments.get? 0).map (·.ret), (c.segments.get? 2).isSome, c.segments.next)) = some (some (some 2), false, 3) := by
    decide
  obtain ⟨c, hc, hview⟩ := Option.map_eq_some_iff.1 hrun
  obtain ⟨hret, hview⟩ := Prod.mk.inj hview
  obtain ⟨hgone, hnext⟩ := Prod.mk.inj hview
  obtain ⟨s, hs, hret⟩ := Option.map_eq_some_iff.1 hret
  have hreach : machine.Reachable c := Machine.Reachable.run chainedRun (.init ⟨true, rfl⟩) hc
  exact (h c hreach 2 ⟨by omega, by simpa using hgone⟩).ret 0 s hs hret

-- its code still pushes the one removed block and jumps to the other
example : (machine.run (initial true) chainedRun).map (fun c => (c.blocks.get? 0).map (·.executableMemory)) =
    some (some [(64, .jumpTo 1), (32, .pushCallstack 2)]) := by decide

end CodeCache

end X64Emulator
