import X64Emulator.Lemmas.LookupTables
import Mathlib.Data.List.Nodup

/-!
# The lookup table of a segment with variable destinations

A segment that may end anywhere lists the segments that followed it, and its native code looks them up in that list. A removal
of one of them clears the list but not the successors of the segment, which are then never listed again. The condition on a run
is that a removal takes all successors or none, and that where chaining is disabled no segment is compiled whose table would
have to be filled again.
-/

namespace X64Emulator

open Outcome

namespace CodeCache

variable {c c' : CodeCache} {victims : List Nat} {this other q : Nat} {s s' : CodeSegment} {action : CodeAction}

/-- The address and the segment of each destination. -/
def listing (s : CodeSegment) : List (Nat × Nat) := s.variableDestinationInfo.map fun d => (d.nextStart, d.next)

/-- The destinations are the successors, each of them once. -/
structure Listed (s : CodeSegment) : Prop where
  perm : (listing s).Perm s.successors.entries
  nodup : ((listing s).map (·.1)).Nodup

/-- No removal takes some of the successors of a segment that stays and leaves others, and where chaining is disabled nothing is
compiled whose table would have to be filled again. -/
def KeepsTables (c : CodeCache) : CodeAction → Prop
  | .onCall _ compiler _ => c.Ready compiler
  | .removeSegments segments => ∀ q, ∀ s ∈ c.segments.get? q, q ∉ segments → s.endsWithFixedDestinationJump = false →
      (∃ x ∈ s.successors.targets, x ∈ segments) → ∀ x ∈ s.successors.targets, x ∈ segments
  | _ => True

instance (c : CodeCache) (compiler : SegmentCompiler) : Decidable (c.Ready compiler) :=
  decidable_of_iff (c.jitChainingEnabled = true ∨ ∀ q ∈ List.range c.segments.next, ∀ s ∈ c.segments.get? q,
      s.variableDestinationInfo ≠ [] → compiler q = none ∧
        (s.jitBasicBlock ≠ none → ∀ d ∈ s.variableDestinationInfo, compiler d.next = none))
    (or_congr_right ⟨fun h q s hs => h q (List.mem_range.2 (Heap.Live.lt_next ⟨s, hs⟩)) s hs, fun h q _ => h q⟩)

instance (c : CodeCache) : DecidablePred c.KeepsTables
  | .removeSegments segments => decidable_of_iff (∀ q ∈ List.range c.segments.next, ∀ s ∈ c.segments.get? q, q ∉ segments →
        s.endsWithFixedDestinationJump = false → (∃ x ∈ s.successors.targets, x ∈ segments) →
        ∀ x ∈ s.successors.targets, x ∈ segments)
      ⟨fun h q s hs => h q (List.mem_range.2 (Heap.Live.lt_next ⟨s, hs⟩)) s hs, fun h q _ => h q⟩
  | .onCall _ compiler _ => inferInstanceAs (Decidable (c.Ready compiler))
  | .fetchSegment _ | .findNext _ _ | .addSuccessor _ _ | .addReturn _ _ | .onCpuCall _ | .tryPatch _ =>
    inferInstanceAs (Decidable True)

section Listing

/-- What the listing depends on in a segment. -/
def listView (s : CodeSegment) : BasicBlock × List (Nat × Nat) × AddressMap := (s.cpuBasicBlock, listing s, s.successors)

theorem listView_withoutCode : listView s = listView s.withoutCode := by
  simp [listView, listing, CodeSegment.withoutCode, List.map_map, Function.comp_def]

theorem Listed.congr (h : Listed s) (hlisting : listing s' = listing s) (hsuccessors : s'.successors = s.successors) : Listed s' :=
  ⟨hlisting ▸ hsuccessors ▸ h.perm, hlisting ▸ h.nodup⟩

def AllListed (c : CodeCache) : Prop := ∀ q s, c.segments.get? q = some s → s.endsWithFixedDestinationJump = false → Listed s

theorem AllListed.agree (h : c.AllListed) (hview : Agree listView c c') : c'.AllListed := by
  intro q s' hs' hvariable
  obtain ⟨s, hs, heq⟩ := hview.before hs'
  obtain ⟨hblock, hlisting, hsuccessors⟩ := (Prod.mk.inj heq).imp_right Prod.mk.inj
  exact (h q s hs ((CodeSegment.ends_congr hblock).symm.trans hvariable)).congr hlisting hsuccessors

theorem listed_create {block : BasicBlock} : Listed (.create block) := ⟨.refl _, List.nodup_nil⟩

/-- A successor that is new is listed after the others. -/
theorem Listed.add (h : Listed s) {start count : Nat} {jit : Option Nat} (hnew : s.successors.find start = none) :
    Listed { s with
      successors := s.successors.insert start other
      variableDestinationInfo := s.variableDestinationInfo ++ [⟨other, jit, start, count⟩] } := by
  have hlisting : listing { s with
      successors := s.successors.insert start other
      variableDestinationInfo := s.variableDestinationInfo ++ [⟨other, jit, start, count⟩] } = listing s ++ [(start, other)] := by
    simp [listing]
  have hfresh : ∀ e ∈ listing s, e.1 ≠ start := fun e he => AddressMap.find_eq_none.1 hnew e (h.perm.mem_iff.1 he)
  refine ⟨?_, ?_⟩
  · rw [hlisting]
    refine List.perm_append_comm.trans ?_
    rw [AddressMap.insert, if_neg (by simp [hnew])]
    exact h.perm.cons _
  · rw [hlisting, List.map_append]
    refine List.nodup_append.2 ⟨h.nodup, by simp, fun k hk k' hk' => ?_⟩
    obtain ⟨e, he, rfl⟩ := List.mem_map.1 hk
    simp only [List.map_cons, List.map_nil, List.mem_singleton] at hk'
    exact hk' ▸ hfresh e he

end Listing

/-- The lists and the tables are right. -/
structure Tabled (c : CodeCache) : Prop where
  inv : c.Inv False
  listed : c.AllListed
  synced : c.InSyncBut []

section Steps

theorem Tabled.fetchSegment (h : c.Tabled) {block : BasicBlock} :
    (c.fetchSegment block).2.AllListed ∧ (c.fetchSegment block).2.InSyncBut [] := by
  unfold CodeCache.fetchSegment
  split
  · exact ⟨h.listed, h.synced⟩
  · have hget : ∀ q s, (c.segments.alloc (.create block)).get? q = some s → s = .create block ∨ c.segments.get? q = some s := by
      intro q s hs
      by_cases hq : q = c.segments.next
      · subst hq
        exact Or.inl (Option.some.inj (Heap.get?_alloc_next.symm.trans hs)).symm
      · exact Or.inr ((Heap.get?_alloc_of_ne hq).symm.trans hs)
    refine ⟨fun q s hs hvariable => ?_, fun q s hs hvariable _ => ?_⟩
    · rcases hget q s hs with rfl | hs
      · exact listed_create
      · exact h.listed q s hs hvariable
    · rcases hget q s hs with rfl | hs
      · exact synced_of_none rfl
      · refine (h.synced q s hs hvariable List.not_mem_nil).frame rfl rfl (fun _ _ => rfl) fun d hd => ?_
        have hlive := h.inv.destination_live hs (CodeSegment.mem_destinations.2 (.inr (List.mem_map_of_mem hd)))
        exact congrArg (Option.bind · _) (Heap.get?_alloc_of_ne (Nat.ne_of_lt hlive.lt_next))

theorem Tabled.modify (h : c.Tabled) {f : CodeSegment → CodeSegment} (hlist : ∀ s, listView (f s) = listView s)
    (htable : ∀ s, tableView (f s) = tableView s) : (c.modify q f).AllListed ∧ (c.modify q f).InSyncBut [] :=
  ⟨h.listed.agree (agree_modify fun s _ => hlist s), h.synced.modify htable⟩

theorem Tabled.findNext (h : c.Tabled) {address : Nat} :
    Yields (fun r => r.2.AllListed ∧ r.2.InSyncBut []) (c.findNext this address) := by
  refine Post.skip fun s => Post.ite (fun _ => ?_) fun _ => Post.ok ⟨h.listed, h.synced⟩
  refine Post.skip fun found => ?_
  cases found with
  | none => exact Post.ok ⟨h.listed, h.synced⟩
  | some i => exact Post.ok (h.modify (fun _ => rfl) fun _ => rfl)

/-- The record of a segment is replaced. -/
theorem Tabled.replace (h : c.Tabled) (hs : c.segments.get? this = some s) {t : CodeSegment} {rest : List Nat}
    (hblock : t.cpuBasicBlock = s.cpuBasicBlock) (hjit : t.jitBasicBlock = s.jitBasicBlock)
    (hlisted : s.endsWithFixedDestinationJump = false → Listed t)
    (htable : this ∈ rest ∨ t.variableDestinationInfo = s.variableDestinationInfo) :
    (c.modify this fun _ => t).AllListed ∧ (c.modify this fun _ => t).OwnBlocks ∧ (c.modify this fun _ => t).InSyncBut rest := by
  have hends : t.endsWithFixedDestinationJump = s.endsWithFixedDestinationJump := CodeSegment.ends_congr hblock
  have hget : ∀ q u, (c.modify this fun _ => t).segments.get? q = some u →
      (q = this ∧ u = t) ∨ (q ≠ this ∧ c.segments.get? q = some u) := by
    intro q u hu
    rcases get?_modify hu with ⟨rfl, -, -, rfl⟩ | ⟨hq, hu⟩
    · exact Or.inl ⟨rfl, rfl⟩
    · exact Or.inr ⟨hq, hu⟩
  have hsame : ∀ x, (c.modify this fun _ => t).jitOf x = c.jitOf x := fun x => jitOf_modify fun s₀ hs₀ => by
    rw [hjit, Option.some.inj (hs₀.symm.trans hs)]
  have hbefore : ∀ q u, (c.modify this fun _ => t).segments.get? q = some u →
      ∃ u₀, c.segments.get? q = some u₀ ∧ u.jitBasicBlock = u₀.jitBasicBlock := by
    intro q u hu
    rcases hget q u hu with ⟨rfl, rfl⟩ | ⟨-, hu⟩
    · exact ⟨s, hs, hjit⟩
    · exact ⟨u, hu, rfl⟩
  refine ⟨fun q u hu hvariable => ?_, fun p q u v block hu hv hp hq => ?_, fun q u hu hvariable hq => ?_⟩
  · rcases hget q u hu with ⟨rfl, rfl⟩ | ⟨-, hu⟩
    · exact hlisted (hends ▸ hvariable)
    · exact h.listed q u hu hvariable
  · obtain ⟨u₀, hu₀, hup⟩ := hbefore p u hu
    obtain ⟨v₀, hv₀, hvq⟩ := hbefore q v hv
    exact h.inv.ownBlocks p q u₀ v₀ block hu₀ hv₀ (hup ▸ hp) (hvq ▸ hq)
  · rcases hget q u hu with ⟨rfl, rfl⟩ | ⟨-, hu⟩
    · have hold : c.Synced s := h.synced q s hs (hends ▸ hvariable) List.not_mem_nil
      exact hold.frame (htable.resolve_left hq) hjit (fun _ _ => rfl) fun d _ => hsame d.next
    · exact (h.synced q u hu hvariable List.not_mem_nil).frame rfl rfl (fun _ _ => rfl) fun d _ => hsame d.next

/-- The record of a segment that gets a successor, before its table is filled again. -/
theorem Tabled.addSuccessor_record (h : c.Tabled) (hs : c.segments.get? this = some s) {otherStart : Nat} {otherJit : Option Nat} :
    Yields (fun s' => (c.modify this fun _ => s').AllListed ∧ (c.modify this fun _ => s').OwnBlocks ∧
        (c.modify this fun _ => s').InSyncBut
          (if (!s.endsWithFixedDestinationJump && (s.successors.find otherStart).isNone) = true then [this] else []))
      (s.addSuccessor other otherStart otherJit) := by
  refine Post.ite (fun hfixed => ?_) fun hvariable => Post.ite (fun _ => ?_) fun hnew => ?_
  · exact Post.skip fun slots' => Post.ok (h.replace hs rfl rfl (fun hends => absurd (hfixed.symm.trans hends) (by simp))
      (.inr rfl))
  · exact Post.ok (h.replace hs rfl rfl (h.listed this s hs) (.inr rfl))
  · have hvariable : s.endsWithFixedDestinationJump = false := by simpa using hvariable
    have hnone : s.successors.find otherStart = none := by simpa using hnew
    rw [if_pos (by simp [hvariable, hnone])]
    exact Post.ok (h.replace hs rfl rfl (fun _ => (h.listed this s hs hvariable).add hnone) (.inl List.mem_cons_self))

theorem Tabled.addSuccessor (h : c.Tabled) :
    Yields (fun c' => c'.AllListed ∧ c'.InSyncBut []) (c.addSuccessor this other) := by
  refine Post.bind (segment_found False.elim) fun s hs => Post.skip fun o => ?_
  refine Post.bind (h.addSuccessor_record hs) fun s' ⟨hlisted, hown, hsynced⟩ => ?_
  have hsync : Yields (fun c₁ : CodeCache => c₁.AllListed ∧ c₁.InSyncBut [])
      ((c.modify this fun _ => s').syncIf (!s.endsWithFixedDestinationJump && (s.successors.find o.start).isNone) this) := by
    refine Post.ite (fun hchanged => ?_) fun hsame => Post.ok ⟨hlisted, ?_⟩
    · rw [if_pos hchanged] at hsynced
      refine (Post.mono (syncBlockLookupTable_agree False.elim False.elim) fun c₁ hagree => hlisted.agree ?_).and
        (syncBlockLookupTable_inSync hown hsynced)
      exact hagree.of_view listView fun _ => listView_withoutCode
    · rwa [if_neg hsame] at hsynced
  refine Post.bind hsync fun c₁ ⟨hlisted₁, hsynced₁⟩ => Post.ok ⟨?_, hsynced₁.modify fun _ => rfl⟩
  exact hlisted₁.agree (agree_modify fun _ _ => rfl)

theorem Tabled.addReturn (h : c.Tabled) : Yields (fun c' => c'.AllListed ∧ c'.InSyncBut []) (c.addReturn this other) := by
  refine Post.skip fun s => Post.skip fun o => Post.skip fun _ =>
    Post.skip fun _ => Post.ok ?_
  obtain ⟨hlisted, hsynced⟩ := h.modify (q := this) (f := (·.addReturn other)) (fun _ => rfl) fun _ => rfl
  exact ⟨hlisted.agree (agree_modify fun _ _ => rfl), hsynced.modify fun _ => rfl⟩

/-- The segments that stay have lost all of their successors or none. -/
theorem Tabled.removeSegments (h : c.Tabled) (hC : c.KeepsTables (.removeSegments victims)) (hinv' : c'.Inv False)
    (hexec : c.removeSegments victims = .ok c') : c'.AllListed ∧ c'.InSyncBut [] := by
  have hpurged := (removeSegments_purged h.inv.ownBlocks).of_ok hexec
  have hstay : ∀ x, c'.segments.Live x → x ∉ victims := by
    rintro x ⟨t, ht⟩
    exact (hpurged x t ht).1
  have hjit : ∀ x, c'.segments.Live x → c'.jitOf x = c.jitOf x := by
    rintro x ⟨t, ht⟩
    obtain ⟨hx, t₀, ht₀, hto⟩ := hpurged x t ht
    rw [jitOf, jitOf, ht, ht₀]
    exact hto.jit.resolve_right fun hmem => hx hmem.1
  have hcase : ∀ q s', c'.segments.get? q = some s' → s'.endsWithFixedDestinationJump = false → ∃ s, c.segments.get? q = some s ∧
      s.endsWithFixedDestinationJump = false ∧ s'.jitBasicBlock = s.jitBasicBlock ∧
      (Untouched c c' s s' ∨ (s'.successors.entries = [] ∧ Cleared c' s s')) := by
    intro q s' hs' hvariable
    obtain ⟨hq, s, hs, hto⟩ := hpurged q s' hs'
    have hvariable : s.endsWithFixedDestinationJump = false := (CodeSegment.ends_congr hto.block).symm.trans hvariable
    refine ⟨s, hs, hvariable, hto.jit.resolve_right fun hmem => hq hmem.1, ?_⟩
    rcases hto.destinations hq hvariable with hold | ⟨⟨x, hx, t, ht, hback⟩, hcleared⟩
    · exact Or.inl hold
    · -- one of its successors is gone, so all are
      have hsucc : x ∈ s.successors.targets :=
        (h.inv.graph.back q s.links x t.links ⟨s, hs⟩ ⟨t, ht⟩ (links_eq hs) (links_eq ht)).2 hback
      have hall := hC q s hs hq hvariable ⟨x, hsucc, hx⟩
      refine Or.inr ⟨List.eq_nil_iff_forall_not_mem.2 fun e he => ?_, hcleared⟩
      have hlive := (hinv'.graph.successors q s'.links ⟨s', hs'⟩ (links_eq hs') e he).1
      exact hstay e.2 hlive (hall e.2 (AddressMap.mem_targets.2 ⟨e.1, hcleared.successors e he⟩))
  refine ⟨fun q s' hs' hvariable => ?_, fun q s' hs' hvariable _ => ?_⟩
  · obtain ⟨s, hs, hvariable, -, hold | ⟨hnone, hcleared⟩⟩ := hcase q s' hs' hvariable
    · refine (h.listed q s hs hvariable).congr ?_ hold.successors
      rw [listing, hold.destinations, listing]
    · have hlisting : listing s' = [] := by
        rw [listing, hcleared.destinations]
        rfl
      exact ⟨by rw [hlisting, hnone], by rw [hlisting]; exact List.nodup_nil⟩
  · obtain ⟨s, hs, hvariable, hsame, hold | ⟨-, hcleared⟩⟩ := hcase q s' hs' hvariable
    · refine (h.synced q s hs hvariable List.not_mem_nil).frame hold.destinations hsame hold.table fun d hd => hjit d.next ?_
      rw [← hold.destinations] at hd
      exact hinv'.destination_live hs' (CodeSegment.mem_destinations.2 (.inr (List.mem_map_of_mem hd)))
    · refine ⟨fun block t hb ht => ?_, fun _ d hd => ?_⟩
      · rw [hcleared.destinations]
        exact hcleared.table block t (hsame ▸ hb) ht
      · rw [hcleared.destinations] at hd
        cases hd

/-- One action keeps the lists and the tables right. -/
theorem Tabled.step (h : c.Tabled) (hC : c.KeepsTables action) (hstep : c.step action = some c') : c'.Tabled := by
  obtain ⟨henabled, hexec⟩ := step_some hstep
  have hinv' : c'.Inv False := (exec_post h.inv henabled False.elim).of_ok hexec
  suffices hkept : c'.AllListed ∧ c'.InSyncBut [] from ⟨hinv', hkept.1, hkept.2⟩
  have hagree : ∀ {x : Except LinkFailure CodeCache}, Yields (Agree CodeSegment.withoutCounters c) x →
      x = .ok c' → c'.AllListed := by
    intro x hx heq
    refine h.listed.agree ((hx.of_ok heq).of_view listView fun s => ?_)
    exact listView_withoutCode.trans rfl
  cases action with
  | fetchSegment block =>
    obtain rfl := Except.ok.inj hexec
    exact h.fetchSegment
  | findNext this address =>
    have hfound : Yields (fun c' : CodeCache => c'.AllListed ∧ c'.InSyncBut []) ((·.2) <$> c.findNext this address) :=
      Post.map h.findNext
    exact hfound.of_ok hexec
  | addSuccessor this other => exact h.addSuccessor.of_ok hexec
  | addReturn this other => exact h.addReturn.of_ok hexec
  | onCpuCall this =>
    obtain rfl := Except.ok.inj hexec
    exact h.modify (fun _ => rfl) fun _ => rfl
  | onCall this compiler turns => exact ⟨hagree process_agree hexec, (process_inSync h.inv h.synced hC).of_ok hexec⟩
  | tryPatch this =>
    have hview : Yields (Agree CodeSegment.withoutCode c) (c.tryPatch this) := tryPatch_agree False.elim False.elim
    refine ⟨h.listed.agree ((hview.of_ok hexec).of_view listView fun _ => listView_withoutCode), ?_⟩
    exact (tryPatch_inSync h.inv (h.synced.mono fun _ hq => absurd hq List.not_mem_nil)).of_ok hexec
  | removeSegments victims => exact h.removeSegments hC hinv' hexec

theorem reachable_tabled (h : machine.ReachableUnder KeepsTables c) : c.Tabled := by
  induction h with
  | init hinit =>
    obtain ⟨jitChainingEnabled, rfl⟩ := hinit
    refine ⟨initial_inv False jitChainingEnabled, fun q s hs => ?_, fun q s hs => ?_⟩
    · cases hs
    · cases hs
  | step action _ hC hstep ih => exact ih.step hC hstep

end Steps

/-- In a run that keeps the tables the destinations of a segment that may end anywhere are its successors, each of them once and
with its own address, and the table of its native code shows them with the blocks they are compiled to. -/
theorem variable_destinations (h : machine.ReachableUnder KeepsTables c) (hs : c.segments.get? this = some s)
    (hvariable : s.endsWithFixedDestinationJump = false) :
    (s.variableDestinationInfo.map (·.next)).Nodup ∧
    (∀ x, x ∈ s.variableDestinationInfo.map (·.next) ↔ x ∈ s.successors.targets) ∧
    (∀ d ∈ s.variableDestinationInfo, ∃ t, c.segments.get? d.next = some t ∧ d.nextStart = t.start) ∧
    ∀ block b, s.jitBasicBlock = some block → c.blocks.get? block = some b →
      b.variableDestinationTable = ⟨s.variableDestinationInfo.length, s.variableDestinationInfo.map (·.nextStart),
        s.variableDestinationInfo.map (·.nextJit), s.variableDestinationInfo.map (·.nextCount)⟩ ∧
      ∀ d ∈ s.variableDestinationInfo, ∃ t, c.segments.get? d.next = some t ∧ d.nextJit = t.jitBasicBlock := by
  have htabled := reachable_tabled h
  have hlisted := htabled.listed this s hs hvariable
  have hsynced := htabled.synced this s hs hvariable List.not_mem_nil
  have hentry : ∀ d ∈ s.variableDestinationInfo, (d.nextStart, d.next) ∈ s.successors.entries := fun d hd =>
    hlisted.perm.mem_iff.1 (List.mem_map_of_mem hd)
  have hstart : ∀ d ∈ s.variableDestinationInfo, ∃ t, c.segments.get? d.next = some t ∧ d.nextStart = t.start := by
    intro d hd
    obtain ⟨-, l, hl, hkey⟩ := htabled.inv.graph.successors this s.links ⟨s, hs⟩ (links_eq hs) _ (hentry d hd)
    obtain ⟨t, ht, rfl⟩ := Option.map_eq_some_iff.1 hl
    exact ⟨t, ht, hkey.symm⟩
  refine ⟨?_, fun x => ⟨fun hx => ?_, fun hx => ?_⟩, hstart, fun block b hb hb' => ⟨?_, fun d hd => ?_⟩⟩
  · -- a segment that was listed twice would be listed twice under its address
    have haddresses : (s.variableDestinationInfo.map (·.nextStart)).Nodup := by
      have hnodup := hlisted.nodup
      rwa [listing, List.map_map] at hnodup
    refine List.Nodup.of_map (fun x => ((c.segments.get? x).map (·.start)).getD 0) ?_
    rw [List.map_map]
    refine (List.map_congr_left fun d hd => ?_) ▸ haddresses
    obtain ⟨t, ht, heq⟩ := hstart d hd
    simp [ht, heq]
  · obtain ⟨d, hd, rfl⟩ := List.mem_map.1 hx
    exact AddressMap.mem_targets.2 ⟨d.nextStart, hentry d hd⟩
  · obtain ⟨k, hk⟩ := AddressMap.mem_targets.1 hx
    obtain ⟨d, hd, heq⟩ := List.mem_map.1 (hlisted.perm.mem_iff.2 hk)
    exact List.mem_map.2 ⟨d, hd, (Prod.mk.inj heq).2⟩
  · exact hsynced.table block _ hb (by rw [tableOf, hb', Option.map_some])
  · obtain ⟨t, ht, -⟩ := hstart d hd
    have hjit := hsynced.blocks (by simp [hb]) d hd
    rw [jitOf, ht, Option.bind_some] at hjit
    exact ⟨t, ht, hjit⟩

/-- An indirect jump that has led to two other blocks. -/
def indirectRun : List CodeAction :=
  [.fetchSegment ⟨4096, 4112, false, false⟩, .fetchSegment ⟨8192, 8208, false, false⟩, .fetchSegment ⟨12288, 12304, false, false⟩,
    .addSuccessor 0 1, .addSuccessor 0 2]

/-- A block is executed until it is compiled. -/
def warmUp (p : Nat) : List CodeAction :=
  (List.replicate 9 [CodeAction.onCall p (fun _ => some ⟨none, none, none⟩) 9, .onCpuCall p]).flatten

/-- The jump and the two blocks are compiled. -/
theorem variable_destinations_indirect : ∃ c s, (machine.checked KeepsTables).run (initial true)
      (indirectRun ++ warmUp 0 ++ warmUp 1 ++ warmUp 2) = some c ∧ c.segments.get? 0 = some s ∧
    (s.variableDestinationInfo.map (·.next)).Nodup ∧
    (∀ x, x ∈ s.variableDestinationInfo.map (·.next) ↔ x ∈ s.successors.targets) ∧
    (∀ d ∈ s.variableDestinationInfo, ∃ t, c.segments.get? d.next = some t ∧ d.nextStart = t.start) ∧
    ∀ block b, s.jitBasicBlock = some block → c.blocks.get? block = some b →
      b.variableDestinationTable = ⟨s.variableDestinationInfo.length, s.variableDestinationInfo.map (·.nextStart),
        s.variableDestinationInfo.map (·.nextJit), s.variableDestinationInfo.map (·.nextCount)⟩ ∧
      ∀ d ∈ s.variableDestinationInfo, ∃ t, c.segments.get? d.next = some t ∧ d.nextJit = t.jitBasicBlock := by
  have hrun : ((machine.checked KeepsTables).run (initial true) (indirectRun ++ warmUp 0 ++ warmUp 1 ++ warmUp 2)).map
      (fun c => (c.segments.get? 0).map (·.endsWithFixedDestinationJump)) = some (some false) := by decide
  obtain ⟨c, hc, hview⟩ := Option.map_eq_some_iff.1 hrun
  obtain ⟨s, hs, hvariable⟩ := Option.map_eq_some_iff.1 hview
  have hstart : machine.ReachableUnder KeepsTables (initial true) := .init ⟨true, rfl⟩
  exact ⟨c, s, hc, hs, variable_destinations (hstart.run_checked _ hc) hs hvariable⟩

example : ((machine.checked KeepsTables).run (initial true) (indirectRun ++ warmUp 0 ++ warmUp 1 ++ warmUp 2)).map (fun c =>
    (c.blocks.get? 0).map (·.variableDestinationTable)) = some (some ⟨2, [8192, 12288], [some 1, some 2], [1, 1]⟩) := by
  decide

/-- One of the two blocks is removed: the other one is still a successor, but it is not a destination any more. -/
theorem variable_destinations_fails : ¬ ∀ c this s, machine.Reachable c → c.segments.get? this = some s →
    s.endsWithFixedDestinationJump = false →
    (s.variableDestinationInfo.map (·.next)).Nodup ∧
    (∀ x, x ∈ s.variableDestinationInfo.map (·.next) ↔ x ∈ s.successors.targets) ∧
    (∀ d ∈ s.variableDestinationInfo, ∃ t, c.segments.get? d.next = some t ∧ d.nextStart = t.start) ∧
    ∀ block b, s.jitBasicBlock = some block → c.blocks.get? block = some b →
      b.variableDestinationTable = ⟨s.variableDestinationInfo.length, s.variableDestinationInfo.map (·.nextStart),
        s.variableDestinationInfo.map (·.nextJit), s.variableDestinationInfo.map (·.nextCount)⟩ ∧
      ∀ d ∈ s.variableDestinationInfo, ∃ t, c.segments.get? d.next = some t ∧ d.nextJit = t.jitBasicBlock := by
  intro h
  have hrun : (machine.run (initial true) (indirectRun ++ [.removeSegments [1]])).map (fun c => (c.segments.get? 0).map fun s =>
      (s.endsWithFixedDestinationJump, s.variableDestinationInfo.map (·.next), s.successors.targets)) =
      some (some (false, [], [2])) := by decide
  obtain ⟨c, hc, hview⟩ := Option.map_eq_some_iff.1 hrun
  obtain ⟨s, hs, hview⟩ := Option.map_eq_some_iff.1 hview
  obtain ⟨hvariable, hlists⟩ := Prod.mk.inj hview
  obtain ⟨hdestinations, htargets⟩ := Prod.mk.inj hlists
  have hreach : machine.Reachable c := Machine.Reachable.run _ (.init ⟨true, rfl⟩) hc
  have hlisted := ((h c 0 s hreach hs hvariable).2.1 2).2 (by rw [htargets]; exact List.mem_cons_self)
  rw [hdestinations] at hlisted
  cases hlisted

-- without chaining the table of a segment stays empty when it is compiled
example : (machine.run (initial false) (indirectRun ++ warmUp 0)).map (fun c =>
    ((c.segments.get? 0).map (·.variableDestinationInfo.length), (c.blocks.get? 0).map (·.variableDestinationTable.size))) =
    some (some 2, some 0) := by decide

end CodeCache

end X64Emulator
