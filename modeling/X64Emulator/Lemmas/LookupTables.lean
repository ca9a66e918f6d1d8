import X64Emulator.Lemmas.CodeDestinations

/-!
# The tables of compiled blocks

Native code looks its destinations up in a table that points to the record of its segment, and the table is filled again when the
record changes or another segment was compiled. `InSyncBut` says which tables are still to be filled again.
-/

namespace X64Emulator

open Outcome

/-- The table that shows all destinations. -/
def filledWith (l : List VariableDestination) : BlockLookupTable :=
  ⟨l.length, l.map (·.nextStart), l.map (·.nextJit), l.map (·.nextCount)⟩

namespace CodeCache

variable {c c' c₀ : CodeCache} {rest victims : List Nat} {this other p q x : Nat} {s s' : CodeSegment}

/-- The compiled block of a segment. -/
def jitOf (c : CodeCache) (x : Nat) : Option Nat := (c.segments.get? x).bind (·.jitBasicBlock)

/-- The table of a compiled segment shows its destinations, with the blocks that are compiled by now. -/
structure Synced (c : CodeCache) (s : CodeSegment) : Prop where
  table : ∀ block t, s.jitBasicBlock = some block → c.tableOf block = some t → t = filledWith s.variableDestinationInfo
  blocks : s.jitBasicBlock ≠ none → ∀ d ∈ s.variableDestinationInfo, d.nextJit = c.jitOf d.next

/-- The tables show the destinations, but for those of some segments. -/
def InSyncBut (rest : List Nat) (c : CodeCache) : Prop := ∀ q s, c.segments.get? q = some s →
  s.endsWithFixedDestinationJump = false → q ∉ rest → c.Synced s

theorem synced_of_none (h : s.jitBasicBlock = none) : c.Synced s := by
  refine ⟨fun block t hb => ?_, fun hne => absurd h hne⟩
  rw [h] at hb
  cases hb

/-- A segment that is not compiled has no table to be filled again. -/
theorem InSyncBut.of_none (h : c.InSyncBut (this :: rest)) (hs : c.segments.get? this = some s) (hnone : s.jitBasicBlock = none) :
    c.InSyncBut rest := by
  intro q t ht hvariable hq
  by_cases hqt : q = this
  · subst hqt
    obtain rfl : t = s := Option.some.inj (ht.symm.trans hs)
    exact synced_of_none hnone
  · exact h q t ht hvariable fun hmem => (List.mem_cons.1 hmem).elim hqt hq

theorem Synced.frame (h : c.Synced s) (hdest : s'.variableDestinationInfo = s.variableDestinationInfo)
    (hjit : s'.jitBasicBlock = s.jitBasicBlock)
    (htable : ∀ block, s.jitBasicBlock = some block → c'.tableOf block = c.tableOf block)
    (hblocks : ∀ d ∈ s.variableDestinationInfo, c'.jitOf d.next = c.jitOf d.next) : c'.Synced s' := by
  refine ⟨fun block t hb ht => ?_, fun hne d hd => ?_⟩
  · rw [hdest]
    exact h.table block t (hjit ▸ hb) ((htable block (hjit ▸ hb)).symm.trans ht)
  · rw [hdest] at hd
    exact (h.blocks (hjit ▸ hne) d hd).trans (hblocks d hd).symm

theorem InSyncBut.mono {more : List Nat} (h : c.InSyncBut rest) (hsub : ∀ q ∈ rest, q ∈ more) : c.InSyncBut more :=
  fun q s hs hvariable hq => h q s hs hvariable fun hmem => hq (hsub q hmem)

/-- What a table depends on in a segment. -/
def tableView (s : CodeSegment) : BasicBlock × List VariableDestination × Option Nat :=
  (s.cpuBasicBlock, s.variableDestinationInfo, s.jitBasicBlock)

theorem Agree.jitOf (h : Agree tableView c c') : c'.jitOf x = c.jitOf x := by
  have hx := congrArg (Option.bind · fun v => v.2.2) (h.view x)
  rw [Option.bind_map, Option.bind_map] at hx
  exact hx

/-- The segments and the tables did not change. -/
theorem InSyncBut.steady (h : c.InSyncBut rest) (hview : Agree tableView c c') (htable : ∀ block, c'.tableOf block = c.tableOf block) :
    c'.InSyncBut rest := by
  intro q s' hs' hvariable hq
  obtain ⟨s, hs, heq⟩ := hview.before hs'
  obtain ⟨hblock, heq⟩ := Prod.mk.inj heq
  obtain ⟨hdest, hjit⟩ := Prod.mk.inj heq
  have hvariable : s.endsWithFixedDestinationJump = false := (CodeSegment.ends_congr hblock).symm.trans hvariable
  exact (h q s hs hvariable hq).frame hdest hjit (fun block _ => htable block) fun d _ => hview.jitOf

theorem InSyncBut.modify (h : c.InSyncBut rest) {f : CodeSegment → CodeSegment} (hf : ∀ s, tableView (f s) = tableView s) :
    (c.modify this f).InSyncBut rest := h.steady (agree_modify fun s _ => hf s) fun _ => rfl

section Patching

/-- Filling a table reads which blocks are compiled. -/
theorem refreshed_jits {l : List VariableDestination} :
    Yields (fun l' => ∀ d ∈ l', d.nextJit = c.jitOf d.next) (c.refreshed l) := by
  refine Post.mono (Post.mapM fun d _ => Post.bind (segment_found False.elim) fun t ht => Post.ok
    (p := fun d' : VariableDestination => d'.nextJit = c.jitOf d'.next) ?_) fun l' hl' => ?_
  · rw [jitOf, ht, Option.bind_some]
  · induction hl' with
    | nil => exact fun d hd => by cases hd
    | cons hd _ ih => exact fun d hmem => (List.mem_cons.1 hmem).elim (fun heq => heq ▸ hd) (ih d)

theorem jitOf_modify {f : CodeSegment → CodeSegment}
    (hf : ∀ s, c.segments.get? this = some s → (f s).jitBasicBlock = s.jitBasicBlock) :
    (c.modify this f).jitOf x = c.jitOf x := by
  unfold jitOf
  by_cases hx : x = this
  · subst hx
    rw [modify, Heap.get?_modify_self]
    cases hs : c.segments.get? x with
    | none => rfl
    | some s => exact hf s hs
  · rw [get?_modify_of_ne hx]

/-- The table of one more segment is filled again. -/
theorem syncBlockLookupTable_inSync (hown : c.OwnBlocks) (h : c.InSyncBut (this :: rest)) :
    Yields (InSyncBut rest) (c.syncBlockLookupTable this) := by
  refine Post.bind (segment_found False.elim) fun s hs => ?_
  split
  · next hnone => exact Post.ok (h.of_none hs hnone)
  · next block hblock =>
    refine Post.bind refreshed_jits fun l hl => Post.ok fun q t ht hvariable hq => ?_
    have hjit : ∀ x, ((c.modify this fun s => { s with variableDestinationInfo := l }).modifyBlock block
        (·.syncBlockLookupTable l)).jitOf x = c.jitOf x :=
      fun x => jitOf_modify (c := c) (f := fun s => { s with variableDestinationInfo := l }) fun _ _ => rfl
    rcases get?_modify ht with ⟨rfl, s₀, hs₀, rfl⟩ | ⟨hqt, ht₀⟩
    · obtain rfl : s₀ = s := Option.some.inj (hs₀.symm.trans hs)
      refine ⟨fun target t hb ht => ?_, fun _ d hd => (hl d hd).trans (hjit d.next).symm⟩
      obtain rfl : block = target := Option.some.inj (hblock.symm.trans hb)
      obtain ⟨b, hb', rfl⟩ := Option.map_eq_some_iff.1 ht
      rcases get?_modifyBlock hb' with ⟨-, b₀, -, rfl⟩ | ⟨hne, -⟩
      · rfl
      · exact absurd rfl hne
    · have hold : c.Synced t := h q t ht₀ hvariable fun hmem => (List.mem_cons.1 hmem).elim hqt hq
      refine hold.frame rfl rfl (fun target hb => ?_) fun d _ => hjit d.next
      refine (tableOf_modifyBlock ?_).trans rfl
      rintro rfl
      exact hqt (hown q this t s target ht₀ hs hb hblock)

/-- Patches leave the tables alone. -/
theorem patchWith_inSync (h : c.InSyncBut rest) {block : Nat} {next : Option Nat}
    {patch : JitBasicBlock → CodeSegment → Nat → JitBasicBlock} (hpatch : ∀ b s target, PatchedTo target b (patch b s target)) :
    Yields (InSyncBut rest) (c.patchWith block next patch) := by
  unfold patchWith
  split
  · exact Post.ok h
  · refine Post.skip fun s => ?_
    split
    · exact Post.ok h
    · next target _ =>
      refine Post.ok (h.steady ⟨fun _ => rfl, rfl, rfl⟩ fun x => ?_)
      by_cases hx : x = block
      · subst hx
        rw [tableOf, modifyBlock, Heap.get?_modify_self, Option.map_map, tableOf]
        congr 1
        funext b
        exact (hpatch b s target).table
      · exact tableOf_modifyBlock hx

theorem patchPending_inSync (h : c.InSyncBut rest) {block : Nat} :
    Yields (InSyncBut rest) (c.patchPending s block) := by
  refine Post.ite (fun _ => ?_) fun _ => Post.ok h
  refine Post.bind (patchWith_inSync h fun _ _ _ => patchedTo_tryPatchPushCallstack) fun c₁ h₁ => ?_
  exact Post.foldlM h₁ fun c₂ slot _ h₂ => patchWith_inSync h₂ fun _ _ _ => patchedTo_tryPatchJump

/-- Without a promise on the run no failure is bad. -/
theorem post_of_dangles {α : Type} {x : Except LinkFailure α} {p : α → Prop} (h : Post (Dangles False) p x) :
    Yields p x := h.anti fun _ => False.elim

theorem tryPatch_inSync (hinv : c.Inv False) (h : c.InSyncBut (this :: rest)) :
    Yields (InSyncBut rest) (c.tryPatch this) := by
  refine Post.bind (segment_found False.elim) fun s hs => ?_
  split
  · next hnone => exact Post.ok (h.of_none hs hnone)
  · next block _ =>
    have hpatch : Post (Dangles False) (c.Kept False) (c.patchPending s block) :=
      Post.ite (fun _ => patchCode_post hinv hs) fun _ => Post.ok hinv.kept
    exact Post.bind ((post_of_dangles hpatch).and (patchPending_inSync h)) fun c₁ ⟨hkept, h₁⟩ =>
      syncBlockLookupTable_inSync hkept.inv.ownBlocks h₁

end Patching

section Compiling

/-- Only the segment that was compiled and those that come before it have to fill their tables again. -/
theorem Inv.withBlock_inSync (hinv : c.Inv False) (h : c.InSyncBut []) (hs : c.segments.get? this = some s)
    {native : NativeBasicBlock} : (c.withBlock this native).InSyncBut (this :: s.predecessors.targets) := by
  intro q t ht hvariable hq
  have hqt : q ≠ this := fun heq => hq (heq ▸ List.mem_cons_self)
  have ht₀ : c.segments.get? q = some t := (get?_modify_of_ne hqt).symm.trans ht
  refine (h q t ht₀ hvariable List.not_mem_nil).frame rfl rfl (fun block hb => ?_) fun d hd => ?_
  · obtain ⟨b, hb', -⟩ := hinv.compiled.jit q t block ⟨t, ht₀⟩ ht₀ hb
    have hne : block ≠ c.blocks.next := Nat.ne_of_lt (Heap.Live.lt_next ⟨b, hb'⟩)
    exact congrArg (Option.map _) (Heap.get?_alloc_of_ne hne)
  · have hne : d.next ≠ this := by
      rintro rfl
      have hrecorded : d.next ∈ t.successors.targets :=
        (hinv.locals q t ht₀).recorded _ (CodeSegment.mem_destinations.2 (.inr (List.mem_map_of_mem hd)))
      have hback := (hinv.graph.back q t.links d.next s.links ⟨t, ht₀⟩ ⟨s, hs⟩ (links_eq ht₀) (links_eq hs)).1 hrecorded
      exact hq (List.mem_cons_of_mem _ hback)
    exact congrArg (Option.bind · _) (get?_modify_of_ne hne)

/-- A segment is compiled and the tables around it are filled again. -/
theorem installIf_inSync (hinv : c.Inv False) (h : c.InSyncBut []) {native : Option NativeBasicBlock}
    (hready : c.jitChainingEnabled = true ∨ native = none ∨ ∀ s, c.segments.get? this = some s → s.variableDestinationInfo = [] ∧
      ∀ q t, c.segments.get? q = some t → t.jitBasicBlock ≠ none → ∀ d ∈ t.variableDestinationInfo, d.next ≠ this) :
    Yields (InSyncBut []) (c.installIf this native) := by
  cases native with
  | none => exact Post.ok h
  | some native =>
    refine Post.bind (segment_found False.elim) fun s hs => Post.ite (fun _ => ?_) fun hoff => Post.ok fun q t ht hvariable _ => ?_
    · have hstart : (c.withBlock this native).Inv False ∧
          (c.withBlock this native).InSyncBut (this :: s.predecessors.targets ++ s.callPredecessors.targets) :=
        ⟨hinv.withBlock.inv, (hinv.withBlock_inSync h hs).mono fun q hq => List.mem_append_left _ hq⟩
      refine Post.mono (Post.foldlM_rest (p := fun rest c => c.Inv False ∧ c.InSyncBut rest) hstart fun c₁ x rest ⟨hinv₁, h₁⟩ => ?_)
        fun _ hend => hend.2
      exact (Post.mono (post_of_dangles (tryPatch_post hinv₁ False.elim)) fun _ hk => hk.inv).and (tryPatch_inSync hinv₁ h₁)
    · obtain ⟨hnil, hothers⟩ := ((hready.resolve_left hoff).resolve_left (by simp)) s hs
      rcases get?_modify ht with ⟨rfl, s₀, hs₀, rfl⟩ | ⟨hqt, ht₀⟩
      · obtain rfl : s₀ = s := Option.some.inj (hs₀.symm.trans hs)
        refine ⟨fun block table hb htable => ?_, fun _ d hd => ?_⟩
        · obtain rfl := Option.some.inj hb
          obtain ⟨b, hb', rfl⟩ := Option.map_eq_some_iff.1 htable
          obtain rfl := Option.some.inj (Heap.get?_alloc_next.symm.trans hb')
          rw [hnil]
          rfl
        · rw [hnil] at hd
          cases hd
      · cases hjit : t.jitBasicBlock with
        | none => exact synced_of_none hjit
        | some block =>
          refine (h q t ht₀ hvariable List.not_mem_nil).frame rfl rfl (fun target hb => ?_) fun d hd => ?_
          · obtain ⟨b, hb', -⟩ := hinv.compiled.jit q t target ⟨t, ht₀⟩ ht₀ hb
            have hne : target ≠ c.blocks.next := Nat.ne_of_lt (Heap.Live.lt_next ⟨b, hb'⟩)
            exact congrArg (Option.map _) (Heap.get?_alloc_of_ne hne)
          · exact congrArg (Option.bind · _) (get?_modify_of_ne (hothers q t ht₀ (by simp [hjit]) d hd))

/-- The compiler may compile what it likes where chaining is enabled. Otherwise it compiles no segment that has variable
destinations, and no destination of one that is compiled. -/
def Ready (c : CodeCache) (compiler : SegmentCompiler) : Prop :=
  c.jitChainingEnabled = true ∨ ∀ q, ∀ s ∈ c.segments.get? q, s.variableDestinationInfo ≠ [] →
    compiler q = none ∧ (s.jitBasicBlock ≠ none → ∀ d ∈ s.variableDestinationInfo, compiler d.next = none)

variable {compiler : SegmentCompiler}

theorem Ready.installIf (h : c.Ready compiler) : c.jitChainingEnabled = true ∨ compiler this = none ∨
    ∀ s, c.segments.get? this = some s → s.variableDestinationInfo = [] ∧
      ∀ q t, c.segments.get? q = some t → t.jitBasicBlock ≠ none → ∀ d ∈ t.variableDestinationInfo, d.next ≠ this := by
  refine h.imp_right fun hoff => Decidable.or_iff_not_imp_left.2 fun hcompiles s hs => ⟨?_, fun q t ht hjit d hd heq => ?_⟩
  · by_contra hne
    exact hcompiles (hoff this s hs hne).1
  · have hnext := (hoff q t ht (List.ne_nil_of_mem hd)).2 hjit d hd
    rw [heq] at hnext
    exact hcompiles hnext

/-- What is compiled while chaining is disabled is the segment itself. -/
theorem installIf_off (hoff : c.jitChainingEnabled ≠ true) {native : Option NativeBasicBlock} :
    Yields (fun c' => ∀ q s', c'.segments.get? q = some s' → ∃ s, c.segments.get? q = some s ∧
      s'.variableDestinationInfo = s.variableDestinationInfo ∧ (s'.jitBasicBlock = s.jitBasicBlock ∨ q = this ∧ native ≠ none))
      (c.installIf this native) := by
  cases native with
  | none => exact Post.ok fun q s' hs' => ⟨s', hs', rfl, .inl rfl⟩
  | some native =>
    refine Post.skip fun s => Post.ite (fun hon => absurd hon hoff) fun _ => Post.ok fun q s' hs' => ?_
    rcases get?_modify hs' with ⟨rfl, s, hs, rfl⟩ | ⟨-, hs⟩
    · exact ⟨s, hs, rfl, .inr ⟨rfl, by simp⟩⟩
    · exact ⟨s', hs, rfl, .inl rfl⟩

theorem tryCompile_ready (h : c.Ready compiler) : Yields (fun r => r.1.Ready compiler) (c.tryCompile compiler this) := by
  by_cases hon : c.jitChainingEnabled = true
  · exact Post.mono tryCompile_agree fun r hagree => .inl (hagree.jitChainingEnabled.trans hon)
  · have hoff := h.resolve_left hon
    -- the segment that is compiled has no destinations
    have hready : ∀ c' : CodeCache, (∀ q s', c'.segments.get? q = some s' → ∃ s, c.segments.get? q = some s ∧
        s'.variableDestinationInfo = s.variableDestinationInfo ∧
        (s'.jitBasicBlock = s.jitBasicBlock ∨ q = this ∧ compiler this ≠ none)) → c'.Ready compiler := by
      refine fun c' hc' => .inr fun q s' hs' hne => ?_
      obtain ⟨s, hs, hdest, hjit⟩ := hc' q s' hs'
      rw [hdest] at hne ⊢
      obtain ⟨hnone, hothers⟩ := hoff q s hs hne
      refine ⟨hnone, fun hcompiled d hd => ?_⟩
      rcases hjit with hsame | ⟨rfl, hcompiles⟩
      · exact hothers (hsame ▸ hcompiled) d hd
      · exact absurd hnone hcompiles
    refine Post.skip fun s => Post.ite (fun _ => ?_) fun _ => Post.ite (fun _ => Post.ok h) fun _ => ?_
    · refine Post.ok (hready _ fun q s' hs' => ?_)
      rcases get?_modify hs' with ⟨rfl, s, hs, rfl⟩ | ⟨-, hs⟩
      · exact ⟨s, hs, rfl, .inl rfl⟩
      · exact ⟨s', hs, rfl, .inl rfl⟩
    · refine Post.bind (installIf_off hon) fun c₁ h₁ => Post.ok (hready _ fun q s' hs' => ?_)
      rcases get?_modify hs' with ⟨rfl, s, hs, rfl⟩ | ⟨-, hs⟩
      · exact h₁ q s hs
      · exact h₁ q s' hs

theorem tryCompile_inSync (hinv : c.Inv False) (h : c.InSyncBut []) (hready : c.Ready compiler) :
    Yields (fun r => r.1.InSyncBut []) (c.tryCompile compiler this) := by
  refine Post.skip fun s => Post.ite (fun _ => Post.ok (h.modify fun _ => rfl)) fun _ =>
    Post.ite (fun _ => Post.ok h) fun _ => ?_
  exact Post.bind (installIf_inSync hinv h hready.installIf) fun c₁ h₁ => Post.ok (h₁.modify fun _ => rfl)

theorem process_inSync {turns : Nat} {queue : List Nat} (hinv : c.Inv False) (h : c.InSyncBut []) (hready : c.Ready compiler) :
    Yields (InSyncBut []) (process compiler turns queue c) := by
  induction turns generalizing queue c with
  | zero =>
    cases queue with
    | nil => exact Post.ok h
    | cons x queue => exact Post.error id
  | succ turns ih =>
    cases queue with
    | nil => exact Post.ok h
    | cons x queue =>
      have hturn : Yields (fun r => r.1.Inv False) (c.tryCompile compiler x) :=
        Post.mono (post_of_dangles (tryCompile_post hinv False.elim)) fun _ hk => hk.1.inv
      refine Post.bind (hturn.and ((tryCompile_inSync hinv h hready).and (tryCompile_ready hready)))
        fun r ⟨hinv₁, h₁, hready₁⟩ => ih hinv₁ h₁ hready₁

end Compiling

end CodeCache

end X64Emulator
