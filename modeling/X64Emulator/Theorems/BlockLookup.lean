import X64Emulator.Lemmas.BlockLookup
import X64Emulator.Lemmas.CodeReturns
import X64Emulator.Theorems.LookupTable

/-!
# The lookup of compiled code and the successors of a segment

The code finds what the table of the running block gives, and a table gives only successors of its segment: at every time each of
its entries is an address with the native code of the successor at that address. A removal may leave a table without some of the
successors, but never with one that is gone.
-/

namespace X64Emulator

open Outcome

namespace CodeCache

variable {c c' : CodeCache} {victims : List Nat} {this other p : Nat} {s s' : CodeSegment} {action : CodeAction}

/-- The table of a segment leads to the native code of its successors. -/
def Leads (c : CodeCache) (s : CodeSegment) : Prop := ∀ block table, s.jitBasicBlock = some block → c.tableOf block = some table →
  ∀ e ∈ table.addresses.zip table.blocks, ∀ target, e.2 = some target →
    ∃ next, (e.1, next) ∈ s.successors.entries ∧ c.CompiledFor target next

/-- What segments list are their successors, and so is what the tables of those lead to that may end anywhere. -/
structure Led (c : CodeCache) : Prop where
  listed : ∀ q s, c.segments.get? q = some s → ∀ e ∈ listing s, e ∈ s.successors.entries
  leads : ∀ q s, c.segments.get? q = some s → s.endsWithFixedDestinationJump = false → c.Leads s

section Frames

theorem Leads.frame (h : c.Leads s) (hjit : s'.jitBasicBlock = s.jitBasicBlock)
    (htable : ∀ block, s.jitBasicBlock = some block → c'.tableOf block = c.tableOf block)
    (hsuccessors : ∀ e ∈ s.successors.entries, e ∈ s'.successors.entries)
    (hfor : ∀ target q, c.CompiledFor target q → c'.CompiledFor target q) : c'.Leads s' := by
  intro block table hb ht e he target htarget
  rw [hjit] at hb
  obtain ⟨next, hnext, hcode⟩ := h block table hb ((htable block hb).symm.trans ht) e he target htarget
  exact ⟨next, hsuccessors _ hnext, hfor _ _ hcode⟩

theorem leads_of_none (h : s.jitBasicBlock = none) : c.Leads s := by
  intro block table hb
  rw [h] at hb
  cases hb

/-- A table without entries leads nowhere. -/
theorem leads_of_empty (h : ∀ block table, s.jitBasicBlock = some block → c.tableOf block = some table → table = emptyTable) :
    c.Leads s := by
  intro block table hb ht e he
  rw [h block table hb ht] at he
  cases he

/-- One segment gets more successors. -/
theorem Led.modify (h : c.Led) {f : CodeSegment → CodeSegment} (hf : ∀ s, c.segments.get? p = some s →
    (f s).cpuBasicBlock = s.cpuBasicBlock ∧ (f s).jitBasicBlock = s.jitBasicBlock ∧
      (∀ e ∈ s.successors.entries, e ∈ (f s).successors.entries) ∧
      ((∀ e ∈ listing s, e ∈ s.successors.entries) → ∀ e ∈ listing (f s), e ∈ (f s).successors.entries)) : (c.modify p f).Led := by
  refine ⟨fun q t ht => ?_, fun q t ht hvariable => ?_⟩
  · rcases get?_modify ht with ⟨rfl, s, hs, rfl⟩ | ⟨-, hs⟩
    · exact (hf s hs).2.2.2 (h.listed q s hs)
    · exact h.listed q t hs
  · rcases get?_modify ht with ⟨rfl, s, hs, rfl⟩ | ⟨-, hs⟩
    · obtain ⟨hblock, hjit, hsuccessors, -⟩ := hf s hs
      have hold := h.leads q s hs ((CodeSegment.ends_congr hblock).symm.trans hvariable)
      exact hold.frame hjit (fun _ _ => rfl) hsuccessors fun _ _ hcode => hcode
    · exact (h.leads q t hs hvariable).frame rfl (fun _ _ => rfl) (fun _ he => he) fun _ _ hcode => hcode

/-- Nothing changes that the tables depend on. -/
theorem Led.modify_view (h : c.Led) {f : CodeSegment → CodeSegment} (hlist : ∀ s, listView (f s) = listView s)
    (hjit : ∀ s, (f s).jitBasicBlock = s.jitBasicBlock) : (c.modify p f).Led := by
  refine h.modify fun s _ => ?_
  obtain ⟨hblock, hlists⟩ := Prod.mk.inj (hlist s)
  obtain ⟨hlisting, hsuccessors⟩ := Prod.mk.inj hlists
  rw [hlisting, hsuccessors]
  exact ⟨hblock, hjit s, fun _ he => he, fun hlisted => hlisted⟩

end Frames

section Filling

/-- Every segment is compiled to native code of its own. -/
def OwnCode (c : CodeCache) : Prop := ∀ p s block, c.segments.get? p = some s → s.jitBasicBlock = some block → c.CompiledFor block p

theorem Inv.ownCode {P : Prop} (h : c.Inv P) : c.OwnCode := fun p s block hs => h.compiled.jit p s block ⟨s, hs⟩ hs

/-- A table is filled again from the list, with the native code of the segments in it. -/
theorem Led.syncBlockLookupTable (h : c.Led) (hown : c.OwnCode) :
    Yields Led (c.syncBlockLookupTable this) := by
  refine Post.bind (segment_found False.elim) fun s hs => ?_
  split
  · exact Post.ok h
  · next block hblock =>
    have hkeys : Yields (fun l' : List VariableDestination => l'.map (fun d => { d with nextJit := none }) =
        s.variableDestinationInfo.map fun d => { d with nextJit := none }) (c.refreshed s.variableDestinationInfo) :=
      refreshed_agree False.elim
    refine Post.bind (hkeys.and refreshed_jits) fun l ⟨hl, hjits⟩ => Post.ok ?_
    have hlisting : l.map (fun d => (d.nextStart, d.next)) = listing s := by
      have hmap := congrArg (List.map fun d : VariableDestination => (d.nextStart, d.next)) hl
      simpa [listing, List.map_map, Function.comp_def] using hmap
    have hrecord : (c.modify this fun s => { s with variableDestinationInfo := l }).Led := by
      refine h.modify fun t ht => ⟨rfl, rfl, fun _ he => he, fun hlisted e he => ?_⟩
      obtain rfl : t = s := Option.some.inj (ht.symm.trans hs)
      exact hlisted e (hlisting ▸ he)
    have hsync : ∀ b : JitBasicBlock, (b.syncBlockLookupTable l).currentBb = b.currentBb := fun _ => rfl
    refine ⟨hrecord.listed, fun q t ht hvariable => ?_⟩
    have hfor : ∀ target x, c.CompiledFor target x → ((c.modify this fun s => { s with variableDestinationInfo := l }).modifyBlock
        block (·.syncBlockLookupTable l)).CompiledFor target x := fun _ _ => (compiledFor_modifyBlock hsync).2
    rcases get?_modify (c := c) ht with ⟨rfl, s₀, hs₀, rfl⟩ | ⟨hqt, ht₀⟩
    · obtain rfl : s₀ = s := Option.some.inj (hs₀.symm.trans hs)
      intro target table hb htable e he code hcode
      obtain rfl : block = target := Option.some.inj (hblock.symm.trans hb)
      obtain ⟨b, hb', rfl⟩ := Option.map_eq_some_iff.1 htable
      rcases get?_modifyBlock hb' with ⟨-, b₀, -, rfl⟩ | ⟨hne, -⟩
      · -- the entries are those of the list
        obtain ⟨d, hd, rfl⟩ : ∃ d ∈ l, (d.nextStart, d.nextJit) = e := by
          have hzip : e ∈ (l.map (·.nextStart)).zip (l.map (·.nextJit)) := he
          rw [List.zip_map', List.mem_map] at hzip
          exact hzip
        have hentry : (d.nextStart, d.next) ∈ s₀.successors.entries :=
          h.listed q s₀ hs (d.nextStart, d.next) (hlisting ▸ List.mem_map_of_mem hd)
        have hjit : c.jitOf d.next = some code := (hjits d hd).symm.trans hcode
        obtain ⟨t, ht, hcompiled⟩ := Option.bind_eq_some_iff.1 hjit
        exact ⟨d.next, hentry, hfor _ _ (hown d.next t code ht hcompiled)⟩
      · exact absurd rfl hne
    · refine (h.leads q t ht₀ hvariable).frame rfl (fun target hb => ?_) (fun _ he => he) hfor
      refine (tableOf_modifyBlock ?_).trans rfl
      rintro rfl
      exact hqt ((hown q t target ht₀ hb).unique (hown this s target hs hblock))

theorem Led.patchWith (h : c.Led) {block : Nat} {next : Option Nat} {patch : JitBasicBlock → CodeSegment → Nat → JitBasicBlock}
    (hpatch : ∀ b s target, PatchedTo target b (patch b s target)) : Yields Led (c.patchWith block next patch) := by
  unfold CodeCache.patchWith
  split
  · exact Post.ok h
  · refine Post.skip fun s => ?_
    split
    · exact Post.ok h
    · next target _ =>
      refine Post.ok ⟨h.listed, fun q t ht hvariable => (h.leads q t ht hvariable).frame rfl (fun x _ => ?_) (fun _ he => he)
        fun _ _ => (compiledFor_modifyBlock fun b => (hpatch b s target).currentBb).2⟩
      by_cases hx : x = block
      · subst hx
        rw [tableOf, modifyBlock, Heap.get?_modify_self, Option.map_map, tableOf]
        congr 1
        funext b
        exact (hpatch b s target).table
      · exact tableOf_modifyBlock hx

theorem Led.patchPending (h : c.Led) {block : Nat} : Yields Led (c.patchPending s block) := by
  refine Post.ite (fun _ => ?_) fun _ => Post.ok h
  refine Post.bind (h.patchWith fun _ _ _ => patchedTo_tryPatchPushCallstack) fun c₁ h₁ => ?_
  exact Post.foldlM h₁ fun c₂ slot _ h₂ => h₂.patchWith fun _ _ _ => patchedTo_tryPatchJump

theorem Led.tryPatch (h : c.Led) (hinv : c.Inv False) : Yields Led (c.tryPatch this) := by
  refine Post.bind (segment_found False.elim) fun s hs => ?_
  split
  · exact Post.ok h
  · next block _ =>
    have hpatch : Post (Dangles False) (c.Kept False) (c.patchPending s block) :=
      Post.ite (fun _ => patchCode_post hinv hs) fun _ => Post.ok hinv.kept
    exact Post.bind ((post_of_dangles hpatch).and h.patchPending) fun c₁ ⟨hkept, h₁⟩ =>
      h₁.syncBlockLookupTable hkept.inv.ownCode

end Filling

section Compiling

/-- The table of a new block is empty. -/
theorem Led.withBlock (h : c.Led) (hown : c.OwnCode) {native : NativeBasicBlock} : (c.withBlock this native).Led := by
  have hview : Agree listView c (c.withBlock this native) := withBlock_agree.of_view listView fun _ => listView_withoutCode
  refine ⟨fun q t ht => ?_, fun q t ht hvariable => ?_⟩
  · obtain ⟨t₀, ht₀, heq⟩ := hview.before ht
    obtain ⟨hlisting, hsuccessors⟩ := Prod.mk.inj (Prod.mk.inj heq).2
    rw [hlisting, hsuccessors]
    exact h.listed q t₀ ht₀
  · rcases get?_modify ht with ⟨rfl, s, -, rfl⟩ | ⟨-, ht₀⟩
    · refine leads_of_empty fun block table hb htable => ?_
      obtain rfl := Option.some.inj hb
      obtain ⟨b, hb', rfl⟩ := Option.map_eq_some_iff.1 htable
      obtain rfl := Option.some.inj (Heap.get?_alloc_next.symm.trans hb')
      rfl
    · refine (h.leads q t ht₀ hvariable).frame rfl (fun block hb => ?_) (fun _ he => he) fun _ _ hcode => hcode.withBlock
      obtain ⟨b, hb', -⟩ := hown q t block ht₀ hb
      have hne : block ≠ c.blocks.next := Nat.ne_of_lt (Heap.Live.lt_next ⟨b, hb'⟩)
      exact congrArg (Option.map _) (Heap.get?_alloc_of_ne hne)

theorem Led.installIf (h : c.Led) (hinv : c.Inv False) {native : Option NativeBasicBlock} :
    Yields Led (c.installIf this native) := by
  cases native with
  | none => exact Post.ok h
  | some native =>
    refine Post.bind (segment_found False.elim) fun s hs => Post.ite (fun _ => ?_) fun _ => Post.ok (h.withBlock hinv.ownCode)
    have hstart : (c.withBlock this native).Inv False ∧ (c.withBlock this native).Led :=
      ⟨hinv.withBlock.inv, h.withBlock hinv.ownCode⟩
    refine Post.mono (Post.foldlM (p := fun c => c.Inv False ∧ c.Led) hstart fun c₁ x _ ⟨hinv₁, h₁⟩ => ?_)
      fun _ hend => hend.2
    exact (Post.mono (post_of_dangles (tryPatch_post hinv₁ False.elim)) fun _ hk => hk.inv).and (h₁.tryPatch hinv₁)

variable {compiler : SegmentCompiler}

theorem Led.tryCompile (h : c.Led) (hinv : c.Inv False) :
    Yields (fun r => r.1.Led) (c.tryCompile compiler this) := by
  refine Post.skip fun s => Post.ite (fun _ => Post.ok (h.modify_view (fun _ => rfl) fun _ => rfl)) fun _ =>
    Post.ite (fun _ => Post.ok h) fun _ => ?_
  exact Post.bind (h.installIf hinv) fun c₁ h₁ => Post.ok (h₁.modify_view (fun _ => rfl) fun _ => rfl)

theorem Led.process {turns : Nat} {queue : List Nat} (h : c.Led) (hinv : c.Inv False) :
    Yields Led (process compiler turns queue c) := by
  induction turns generalizing queue c with
  | zero =>
    cases queue with
    | nil => exact Post.ok h
    | cons x queue => exact Post.error id
  | succ turns ih =>
    cases queue with
    | nil => exact Post.ok h
    | cons x queue =>
      have hturn : Yields (fun r => r.1.Inv False) (c.tryCompile compiler x) :=
        Post.mono (post_of_dangles (tryCompile_post hinv False.elim)) fun _ hk => hk.1.inv
      exact Post.bind (hturn.and (h.tryCompile hinv)) fun r ⟨hinv₁, h₁⟩ => ih h₁ hinv₁

end Compiling

section Steps

theorem Led.fetchSegment (h : c.Led) {block : BasicBlock} : (c.fetchSegment block).2.Led := by
  unfold CodeCache.fetchSegment
  split
  · exact h
  · have hget : ∀ q s, (c.segments.alloc (.create block)).get? q = some s → s = .create block ∨ c.segments.get? q = some s := by
      intro q s hs
      by_cases hq : q = c.segments.next
      · subst hq
        exact Or.inl (Option.some.inj (Heap.get?_alloc_next.symm.trans hs)).symm
      · exact Or.inr ((Heap.get?_alloc_of_ne hq).symm.trans hs)
    refine ⟨fun q s hs => ?_, fun q s hs hvariable => ?_⟩
    · rcases hget q s hs with rfl | hs
      · intro e he
        cases he
      · exact h.listed q s hs
    · rcases hget q s hs with rfl | hs
      · exact leads_of_none rfl
      · exact (h.leads q s hs hvariable).frame rfl (fun _ _ => rfl) (fun _ he => he) fun _ _ hcode => hcode

theorem Led.findNext (h : c.Led) {address : Nat} : Yields (fun r => r.2.Led) (c.findNext this address) := by
  refine Post.skip fun s => Post.ite (fun _ => ?_) fun _ => Post.ok h
  refine Post.skip fun found => ?_
  cases found with
  | none => exact Post.ok h
  | some i => exact Post.ok (h.modify_view (fun _ => rfl) fun _ => rfl)

/-- The record of a segment that gets a successor. -/
theorem addSuccessor_record {otherStart : Nat} {otherJit : Option Nat} : Yields (fun s' : CodeSegment =>
    s'.cpuBasicBlock = s.cpuBasicBlock ∧ s'.jitBasicBlock = s.jitBasicBlock ∧
      (∀ e ∈ s.successors.entries, e ∈ s'.successors.entries) ∧
      ((∀ e ∈ listing s, e ∈ s.successors.entries) → ∀ e ∈ listing s', e ∈ s'.successors.entries))
    (s.addSuccessor other otherStart otherJit) := by
  have hinsert : ∀ e ∈ s.successors.entries, e ∈ (s.successors.insert otherStart other).entries := by
    intro e he
    unfold AddressMap.insert
    split
    · exact he
    · exact List.mem_cons_of_mem _ he
  refine Post.ite (fun _ => ?_) fun _ => Post.ite (fun _ => ?_) fun hnew => ?_
  · exact Post.skip fun slots => Post.ok ⟨rfl, rfl, hinsert, fun hlisted e he => hinsert e (hlisted e he)⟩
  · exact Post.ok ⟨rfl, rfl, fun _ he => he, fun hlisted => hlisted⟩
  · refine Post.ok ⟨rfl, rfl, hinsert, fun hlisted e he => ?_⟩
    rw [listing, List.map_append, List.mem_append] at he
    rcases he with he | he
    · exact hinsert e (hlisted e he)
    · obtain rfl := List.mem_singleton.1 he
      rw [AddressMap.insert, if_neg hnew]
      exact List.mem_cons_self

theorem Led.addSuccessor (h : c.Led) (hown : c.OwnCode) : Yields Led (c.addSuccessor this other) := by
  refine Post.bind (segment_found False.elim) fun s hs => Post.skip fun o => ?_
  refine Post.bind addSuccessor_record fun s' hs' => ?_
  have hput : (c.modify this fun _ => s').Led := h.modify fun t ht => by
    obtain rfl : t = s := Option.some.inj (ht.symm.trans hs)
    exact hs'
  have hown' : (c.modify this fun _ => s').OwnCode := by
    intro q t block ht hb
    rcases get?_modify ht with ⟨rfl, s₀, hs₀, rfl⟩ | ⟨-, ht₀⟩
    · exact hown q s block hs (hs'.2.1 ▸ hb)
    · exact hown q t block ht₀ hb
  have hsync : Yields Led
      ((c.modify this fun _ => s').syncIf (!s.endsWithFixedDestinationJump && (s.successors.find o.start).isNone) this) :=
    Post.ite (fun _ => hput.syncBlockLookupTable hown') fun _ => Post.ok hput
  exact Post.bind hsync fun c₁ h₁ => Post.ok (h₁.modify_view (fun _ => rfl) fun _ => rfl)

theorem Led.addReturn (h : c.Led) : Yields Led (c.addReturn this other) := by
  refine Post.skip fun s => Post.skip fun o => Post.skip fun _ =>
    Post.skip fun _ => Post.ok ?_
  have hthis : (c.modify this (·.addReturn other)).Led := h.modify_view (fun _ => rfl) fun _ => rfl
  exact hthis.modify_view (fun _ => rfl) fun _ => rfl

/-- The tables of the segments that stay are as they were or empty. -/
theorem Led.removeSegments (h : c.Led) (hinv : c.Inv False) (hinv' : c'.Inv False) (hexec : c.removeSegments victims = .ok c') :
    c'.Led := by
  have hpurged := (removeSegments_purged hinv.ownBlocks).of_ok hexec
  have hstable := removeSegments_stable.of_ok hexec
  refine ⟨fun q s' hs' => ?_, fun q s' hs' hvariable => ?_⟩
  · obtain ⟨hq, s, hs, hto⟩ := hpurged q s' hs'
    intro e he
    by_cases hfixed : s'.endsWithFixedDestinationJump = true
    · rw [listing, (hinv'.locals q s' hs').fixedOnly hfixed] at he
      cases he
    · have hvariable : s.endsWithFixedDestinationJump = false :=
        (CodeSegment.ends_congr hto.block).symm.trans (Bool.eq_false_iff.2 hfixed)
      rcases hto.destinations hq hvariable with hold | ⟨-, hcleared⟩
      · rw [listing, hold.destinations] at he
        exact hold.successors ▸ h.listed q s hs e he
      · rw [listing, hcleared.destinations] at he
        cases he
  · obtain ⟨hq, s, hs, hto⟩ := hpurged q s' hs'
    have hjit : s'.jitBasicBlock = s.jitBasicBlock := hto.jit.resolve_right fun hmem => hq hmem.1
    have hvariable : s.endsWithFixedDestinationJump = false := (CodeSegment.ends_congr hto.block).symm.trans hvariable
    rcases hto.destinations hq hvariable with hold | ⟨-, hcleared⟩
    · exact (h.leads q s hs hvariable).frame hjit hold.table (fun e he => hold.successors ▸ he) fun _ _ hcode =>
        hstable.compiledFor.2 hcode
    · exact leads_of_empty fun block table hb => hcleared.table block table (hjit ▸ hb)

/-- One action keeps the tables right. -/
theorem Led.step (h : c.Led) (hinv : c.Inv False) (hstep : c.step action = some c') : c'.Led := by
  obtain ⟨henabled, hexec⟩ := step_some hstep
  have hinv' : c'.Inv False := (exec_post hinv henabled False.elim).of_ok hexec
  cases action with
  | fetchSegment block =>
    obtain rfl := Except.ok.inj hexec
    exact h.fetchSegment
  | findNext this address =>
    have hfound : Yields Led ((·.2) <$> c.findNext this address) := Post.map h.findNext
    exact hfound.of_ok hexec
  | addSuccessor this other => exact (h.addSuccessor hinv.ownCode).of_ok hexec
  | addReturn this other => exact h.addReturn.of_ok hexec
  | onCpuCall this =>
    obtain rfl := Except.ok.inj hexec
    exact h.modify_view (fun _ => rfl) fun _ => rfl
  | onCall this compiler turns => exact (h.process hinv).of_ok hexec
  | tryPatch this => exact (h.tryPatch hinv).of_ok hexec
  | removeSegments victims => exact h.removeSegments hinv hinv' hexec

theorem reachable_led (h : machine.Reachable c) : c.Inv False ∧ c.Led := by
  refine h.invariant (fun c => c.Inv False ∧ c.Led) ?_ ?_
  · rintro _ ⟨jitChainingEnabled, rfl⟩
    refine ⟨initial_inv False jitChainingEnabled, fun q s hs => ?_, fun q s hs => ?_⟩
    · cases hs
    · cases hs
  · intro c action c' hc hstep
    obtain ⟨henabled, hexec⟩ := step_some hstep
    exact ⟨(exec_post hc.1 henabled False.elim).of_ok hexec, hc.2.step hc.1 hstep⟩

end Steps

/-- A segment has one successor at an address. -/
theorem Inv.find_successor (h : c.Inv False) (hs : c.segments.get? this = some s) {address next : Nat}
    (he : (address, next) ∈ s.successors.entries) : s.successors.find address = some next := by
  have hlive : c.segments.Live this := ⟨s, hs⟩
  cases hfind : s.successors.find address with
  | none => exact absurd rfl (AddressMap.find_eq_none.1 hfind _ he)
  | some other =>
    have he' : (address, other) ∈ s.successors.entries := AddressMap.mem_of_find hfind
    obtain ⟨hA, l, hl, hstart⟩ := h.graph.successors this s.links hlive (links_eq hs) _ he
    obtain ⟨hA', l', hl', hstart'⟩ := h.graph.successors this s.links hlive (links_eq hs) _ he'
    rw [h.graph.distinct other l' next l hA' hA hl' hl (hstart'.trans hstart.symm)]

/-- Where the native code of a segment finds a block, it is the native code of the segment that `findNext` gives. -/
theorem lookup_findNext (h : machine.Reachable c) (hs : c.segments.get? this = some s)
    (hvariable : s.endsWithFixedDestinationJump = false) {block : Nat} (hjit : s.jitBasicBlock = some block) {b : JitBasicBlock}
    (hb : c.blocks.get? block = some b) {address target : Nat}
    (hlookup : Vm.lookup b.variableDestinationTable address = some target) :
    ∃ next, c.findNext this address = .ok (some next, c) ∧ c.CompiledFor target next := by
  obtain ⟨hinv, hled⟩ := reachable_led h
  obtain ⟨e, hfind, htarget⟩ := Option.bind_eq_some_iff.1 hlookup
  have haddress : e.1 = address := by simpa using List.find?_some hfind
  obtain ⟨next, hnext, hcode⟩ := hled.leads this s hs hvariable block _ hjit (by rw [tableOf, hb, Option.map_some]) e
    (List.mem_of_find?_eq_some hfind) target htarget
  refine ⟨next, ?_, hcode⟩
  rw [haddress] at hnext
  rw [CodeCache.findNext, segment, hs]
  show (if s.endsWithFixedDestinationJump = true then _ else _) = _
  rw [hvariable, hinv.find_successor hs hnext]
  rfl

end CodeCache

namespace Compiler

open Ir LookupPointers

/-- Wherever the code of the lookup stands and whatever the table, it runs to its end, reads no entry that the table does not have,
and leaves the entry point of the first entry with the address, or null. All registers but two that the code may use and all memory
but three words below the stack pointer are as before. Where the table is that of a segment, the branch at its end goes on in the
segment that `findNext` gives, or returns to the virtual machine. -/
theorem inline_lookup {ir part : IR} {start : Nat} (hpart : IrGenerator.generated tryCompileBlockLookup = some part)
    (hplaced : ir.Contains start part) {h : HostState} {p : LookupPointers} {table : BlockLookupTable} {rip : Nat}
    (hh : Holds h p table rip) :
    (∀ readable : BitVec 64 → Bool, (∀ a, Reads h p table a → readable a = true) →
      ∃ g, ir.Reaches (start, { h with readable := readable }) (start + part.instructions.length, g) ∧
        g.gpr .r8 = p.target (Vm.lookup table rip) ∧ (∀ r, r ≠ .r8 → r ≠ .r9 → g.gpr r = h.gpr r) ∧
        (∀ a, ¬ OnStack h a → g.memory a = h.memory a) ∧ g.readable = readable ∧ g.writable = h.writable) ∧
    ∀ (vm vm' : Vm) (this block : Nat) (s : CodeSegment) (b : JitBasicBlock) (code : NativeCode) (isTaken : Bool)
      (target : Option Nat), CodeCache.machine.Reachable vm.cache → vm.cache.segments.get? this = some s →
      s.jitBasicBlock = some block → vm.cache.blocks.get? block = some b → b.variableDestinationTable = table →
      s.cpuBasicBlock = code.block.basicBlock → code.block.branch = .indirectCall ∨ code.block.branch = .indirectJump →
      vm.nativeBranch code b isTaken rip = .ok (target, vm') →
      target = Vm.lookup table rip ∧ ∀ found, target = some found → ∃ next,
        vm.cache.findNext this rip = .ok (some next, vm.cache) ∧ vm.cache.CompiledFor found next := by
  obtain rfl : lookupIr = part := Option.some_inj.1 (generated_lookup.symm.trans hpart)
  refine ⟨fun readable hread => ?_, ?_⟩
  · exact lookup_runs hplaced (hh.withReadable readable) fun a ha => hread a (reads_withReadable ha)
  · rintro vm vm' this block s b code isTaken target hreach hs hjit hb rfl hblock hbranch hexec
    have htarget : target = Vm.lookup b.variableDestinationTable rip := by
      rcases hbranch with hcall | hjump
      · rw [Vm.nativeBranch, hcall] at hexec
        obtain ⟨vm₁, -, hexec⟩ := bind_eq_ok.1 hexec
        exact (ok_pair hexec).1.symm
      · rw [Vm.nativeBranch, hjump] at hexec
        exact (ok_pair hexec).1.symm
    refine ⟨htarget, fun found hfound => CodeCache.lookup_findNext hreach hs ?_ hjit hb (htarget.symm.trans hfound)⟩
    rw [CodeSegment.endsWithFixedDestinationJump, hblock]
    rcases hbranch with hcall | hjump
    · simp [GuestBlock.basicBlock, hcall]
    · simp [GuestBlock.basicBlock, hjump]

/-- The table of an indirect jump that has led to two blocks. -/
def indirectTable : BlockLookupTable := ⟨2, [8192, 12288], [some 1, some 2], [1, 1]⟩

def indirectPointers : LookupPointers where
  currentlyExecutingJitBasicBlock := 0x2000
  addresses := 0x3000
  blocks := 0x4000
  jitBasicBlock block := if block = 1 then 0x6000 else 0x7000
  jumpEntrypoint block := if block = 1 then 0x8000 else 0x8100

/-- A host whose memory holds the table, with the address of the second block in `rip`. -/
def indirectHost : HostState where
  gpr
    | .rdi => 0x1000
    | .rsi => 0x5000
    | .rsp => 0x9000
    | _ => 0
  flags := ⟨false, false, false, false, false, false, false⟩
  memory a := ([(0x1059, 0x20), (0x2020, 2), (0x2029, 0x30), (0x2031, 0x40), (0x3001, 0x20), (0x3009, 0x30), (0x4001, 0x60),
    (0x4009, 0x70), (0x5081, 0x30), (0x6019, 0x80), (0x7019, 0x81)].lookup a).getD 0
  readable _ := true
  writable _ := true

theorem indirectHost_holds : Holds indirectHost indirectPointers indirectTable 12288 where
  currentlyExecutingJitBasicBlock := by decide
  rip_eq := by decide
  size := by decide
  addresses := by decide
  blocks := by decide
  address i address hi := by
    match i, hi with
    | 0, hi => exact (Option.some_inj.1 hi) ▸ by decide
    | 1, hi => exact (Option.some_inj.1 hi) ▸ by decide
  block i block hi := by
    match i, hi with
    | 0, hi => exact (Option.some_inj.1 hi) ▸ by decide
    | 1, hi => exact (Option.some_inj.1 hi) ▸ by decide
  jumpEntrypoint block hblock := by
    simp only [indirectTable, List.mem_cons, Option.some_inj, List.not_mem_nil, or_false] at hblock
    rcases hblock with rfl | rfl <;> decide
  jitBasicBlock block hblock := by
    simp only [indirectTable, List.mem_cons, Option.some_inj, List.not_mem_nil, or_false] at hblock
    rcases hblock with rfl | rfl <;> decide
  parallel := by decide
  size_lt := by decide
  rip_lt := by decide
  address_lt := by decide
  writable _ _ := rfl
  apart cell hcell := by
    unfold OnStack
    cases hcell with
    | address i hi =>
      change i < 2 at hi
      obtain rfl | rfl : i = 0 ∨ i = 1 := by omega
      · decide
      · decide
    | block i hi =>
      change i < 2 at hi
      obtain rfl | rfl : i = 0 ∨ i = 1 := by omega
      · decide
      · decide
    | jumpEntrypoint block hblock =>
      simp only [indirectTable, List.mem_cons, Option.some_inj, List.not_mem_nil, or_false] at hblock
      rcases hblock with rfl | rfl <;> decide
    | _ => decide

/-- The process at the end of the indirect jump. -/
def indirectVm (c : CodeCache) : Vm where
  cache := c
  jitCallChainingEnabled := true
  guestBlock _ := ⟨4096, 4112, 1, .indirectJump⟩
  nativeCode _ := ⟨⟨4096, 4112, 1, .indirectJump⟩, ⟨none, none, none⟩⟩
  callstack := .empty
  mode := .native 0 0 0
  threadId := 0
  thread := ⟨.zero, 12288, .empty, fun _ => 0⟩
  parked _ := ⟨.zero, 12288, .empty, fun _ => 0⟩

/-- The second block is found, in the memory and in the process. -/
theorem inline_lookup_indirect : ∃ g c next, lookupIr.Reaches (0, indirectHost) (29, g) ∧ g.gpr .r8 = 0x8100 ∧
    CodeCache.machine.run (.initial true) (CodeCache.indirectRun ++ CodeCache.warmUp 0 ++ CodeCache.warmUp 1 ++
      CodeCache.warmUp 2) = some c ∧ c.findNext 0 12288 = .ok (some next, c) ∧ c.CompiledFor 2 next := by
  have hrun : (CodeCache.machine.run (.initial true) (CodeCache.indirectRun ++ CodeCache.warmUp 0 ++ CodeCache.warmUp 1 ++
      CodeCache.warmUp 2)).map (fun c => ((c.segments.get? 0).map fun s => (s.cpuBasicBlock, s.jitBasicBlock),
        (c.blocks.get? 0).map (·.variableDestinationTable))) =
      some (some (⟨4096, 4112, false, false⟩, some 0), some indirectTable) := by decide
  obtain ⟨c, hc, hviews⟩ := Option.map_eq_some_iff.1 hrun
  obtain ⟨hsegment, hblock⟩ := Prod.mk.inj hviews
  obtain ⟨s, hs, hview⟩ := Option.map_eq_some_iff.1 hsegment
  obtain ⟨hstart, hjit⟩ := Prod.mk.inj hview
  obtain ⟨b, hb, htable⟩ := Option.map_eq_some_iff.1 hblock
  obtain ⟨hruns, hleads⟩ := inline_lookup generated_lookup (IR.contains_self _) indirectHost_holds
  obtain ⟨g, hg, hr8, -⟩ := hruns (fun _ => true) fun _ _ => rfl
  have hlookup : Vm.lookup b.variableDestinationTable 12288 = some 2 := by rw [htable]; decide
  obtain ⟨-, hfound⟩ := hleads (indirectVm c) (indirectVm c) 0 0 s b ((indirectVm c).nativeCode 0) true (some 2)
    (Machine.Reachable.run _ (.init ⟨true, rfl⟩) hc) hs hjit hb htable hstart (.inr rfl)
    (congrArg (fun target => Except.ok (target, indirectVm c)) hlookup)
  obtain ⟨next, hnext, hcode⟩ := hfound 2 rfl
  exact ⟨g, c, next, hg, hr8, hc, hnext, hcode⟩

end Compiler

end X64Emulator
