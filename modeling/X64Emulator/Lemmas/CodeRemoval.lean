import X64Emulator.Lemmas.CodeSteps

/-!
# Removing segments

A segment that is removed is first unlinked from the segments before it and after it. `Leaving` is what still holds meanwhile:
the records of the other segments agree with each other, while they may still point to the segment that leaves.
-/

namespace X64Emulator

open Outcome

namespace Graph

variable {A : Nat → Prop} {L L' : Nat → Option Links} {find : Nat → Option Nat}

/-- Only the links of the segments it speaks of matter. -/
theorem congr (h : Graph A A L find) (hL : ∀ p, A p → L' p = L p) : Graph A A L' find := by
  refine ⟨fun _ hp => hp, fun p hp => hL p hp ▸ h.there p hp, fun p l hp hl e he => ?_, fun p l hp hl e he => ?_,
    fun p l q m hp hq hl hm => h.back p l q m hp hq (hL p hp ▸ hl) (hL q hq ▸ hm),
    fun p l q m hp hq hl hm => h.distinct p l q m hp hq (hL p hp ▸ hl) (hL q hq ▸ hm),
    fun p l hp hl => h.found p l hp (hL p hp ▸ hl)⟩
  · obtain ⟨hA, m, hm, hkey⟩ := h.successors p l hp (hL p hp ▸ hl) e he
    exact ⟨hA, m, (hL _ hA).trans hm, hkey⟩
  · obtain ⟨hA, m, hm, hkey⟩ := h.predecessors p l hp (hL p hp ▸ hl) e he
    exact ⟨hA, m, (hL _ hA).trans hm, hkey⟩

end Graph

/-- The record of one successor is erased, with the destinations that lead to it. -/
theorem CodeSegment.Local.remove {s : CodeSegment} (h : s.Local) {S start : Nat}
    (hkey : ∀ e ∈ s.successors.entries, e.1 = start → e.2 = S) :
    ({ s.removeDestination S with successors := (s.removeDestination S).successors.erase start } : CodeSegment).Local := by
  have herase : ∀ x ∈ s.successors.targets, x ≠ S → x ∈ (s.successors.erase start).targets := by
    intro x hx hne
    obtain ⟨k, hk⟩ := AddressMap.mem_targets.1 hx
    exact AddressMap.mem_targets.2 ⟨k, AddressMap.mem_erase.2 ⟨hk, fun heq => hne (hkey _ hk heq)⟩⟩
  by_cases hfixed : s.endsWithFixedDestinationJump = true
  · rw [CodeSegment.removeDestination, if_pos hfixed]
    refine ⟨h.fixedOnly, fun hends => absurd (hfixed.symm.trans hends) (by simp), fun x hx => ?_⟩
    rcases CodeSegment.mem_destinations.1 hx with ⟨slot', hslot', hnext⟩ | hx
    · obtain ⟨slot, hslot, rfl⟩ := List.mem_map.1 hslot'
      split at hnext
      · cases hnext
      · next hne =>
        refine herase x (h.recorded x (CodeSegment.mem_destinations.2 (.inl ⟨slot, hslot, hnext⟩))) ?_
        rintro rfl
        exact hne hnext
    · rw [h.fixedOnly hfixed] at hx
      cases hx
  · rw [CodeSegment.removeDestination, if_neg hfixed]
    refine ⟨fun _ => rfl, h.variableOnly, fun x hx => ?_⟩
    rcases CodeSegment.mem_destinations.1 hx with ⟨slot, hslot, hnext⟩ | hx
    · have hnone := h.variableOnly (by simpa using hfixed) slot hslot
      rw [hnext] at hnone
      cases hnone
    · cases hx

namespace CodeCache

variable {P : Prop} {c c' : CodeCache} {A : Nat → Prop} {p q this other S : Nat} {s : CodeSegment}

/-- What no removal changes before the segments are destroyed. Callers are only forgotten. -/
structure Trimmed (c c' : CodeCache) : Prop where
  records : ∀ p, (c'.segments.get? p).map (fun s => (s.cpuBasicBlock, s.ret)) =
    (c.segments.get? p).map fun s => (s.cpuBasicBlock, s.ret)
  calls : ∀ p s s', c.segments.get? p = some s → c'.segments.get? p = some s' →
    ∀ x ∈ s'.callPredecessors.targets, x ∈ s.callPredecessors.targets
  code : ∀ block, (c'.blocks.get? block).map (fun b => (b.currentBb, b.executableMemory)) =
    (c.blocks.get? block).map fun b => (b.currentBb, b.executableMemory)
  next : c'.segments.next = c.segments.next

theorem Trimmed.refl (c : CodeCache) : c.Trimmed c :=
  ⟨fun _ => rfl, fun _ _ _ hs hs' _ hx => Option.some.inj (hs.symm.trans hs') ▸ hx, fun _ => rfl, rfl⟩

theorem Trimmed.after (h : c.Trimmed c') (hs : c.segments.get? p = some s) :
    ∃ s', c'.segments.get? p = some s' ∧ s'.cpuBasicBlock = s.cpuBasicBlock ∧ s'.ret = s.ret := by
  have hp := h.records p
  rw [hs, Option.map_some] at hp
  obtain ⟨s', hs', heq⟩ := Option.map_eq_some_iff.1 hp
  exact ⟨s', hs', (Prod.mk.inj heq).1, (Prod.mk.inj heq).2⟩

theorem Trimmed.before (h : c.Trimmed c') {s' : CodeSegment} (hs' : c'.segments.get? p = some s') :
    ∃ s, c.segments.get? p = some s ∧ s'.cpuBasicBlock = s.cpuBasicBlock ∧ s'.ret = s.ret := by
  have hp := h.records p
  rw [hs', Option.map_some] at hp
  obtain ⟨s, hs, heq⟩ := Option.map_eq_some_iff.1 hp.symm
  exact ⟨s, hs, (Prod.mk.inj heq).1.symm, (Prod.mk.inj heq).2.symm⟩

theorem Trimmed.live (h : c.Trimmed c') : c'.segments.Live p ↔ c.segments.Live p := by
  constructor
  · rintro ⟨s', hs'⟩
    obtain ⟨s, hs, -⟩ := h.before hs'
    exact ⟨s, hs⟩
  · rintro ⟨s, hs⟩
    obtain ⟨s', hs', -⟩ := h.after hs
    exact ⟨s', hs'⟩

theorem Trimmed.trans {c'' : CodeCache} (h : c.Trimmed c') (h' : c'.Trimmed c'') : c.Trimmed c'' := by
  refine ⟨fun p => (h'.records p).trans (h.records p), fun p s s'' hs hs'' x hx => ?_,
    fun block => (h'.code block).trans (h.code block), h'.next.trans h.next⟩
  obtain ⟨s', hs', -⟩ := h.after hs
  exact h.calls p s s' hs hs' x (h'.calls p s' s'' hs' hs'' x hx)

/-- A segment forgets links; its block and its return destination stay. -/
theorem trimmed_modify {f : CodeSegment → CodeSegment} (hblock : ∀ s, (f s).cpuBasicBlock = s.cpuBasicBlock)
    (hret : ∀ s, (f s).ret = s.ret) (hcalls : ∀ s, ∀ x ∈ (f s).callPredecessors.targets, x ∈ s.callPredecessors.targets) :
    c.Trimmed (c.modify p f) := by
  refine ⟨fun q => ?_, fun q s s' hs hs' x hx => ?_, fun _ => rfl, Heap.next_modify⟩
  · by_cases hq : q = p
    · subst hq
      rw [modify, Heap.get?_modify_self, Option.map_map]
      congr 1
      funext s
      simp [hblock, hret]
    · rw [get?_modify_of_ne hq]
  · rcases get?_modify hs' with ⟨rfl, s₀, hs₀, rfl⟩ | ⟨-, hs₀⟩
    · exact Option.some.inj (hs₀.symm.trans hs) ▸ hcalls s₀ x hx
    · exact Option.some.inj (hs₀.symm.trans hs) ▸ hx

theorem trimmed_modifyBlock {f : JitBasicBlock → JitBasicBlock} {block : Nat} (hf : ∀ b, (f b).currentBb = b.currentBb)
    (hmem : ∀ b, (f b).executableMemory = b.executableMemory) : c.Trimmed (c.modifyBlock block f) := by
  refine ⟨fun _ => rfl, fun _ _ _ hs hs' _ hx => Option.some.inj (hs.symm.trans hs') ▸ hx, fun x => ?_, rfl⟩
  by_cases hx : x = block
  · subst hx
    rw [modifyBlock, Heap.get?_modify_self, Option.map_map]
    congr 1
    funext b
    simp [hf, hmem]
  · rw [modifyBlock, Heap.get?_modify_of_ne hx]

/-- What holds while the segment `S` is being removed from the segments of `A`. -/
structure Leaving (A : Nat → Prop) (S : Nat) (c : CodeCache) : Prop where
  graph : Graph A (fun p => A p ∧ p ≠ S) c.links c.codeSegmentsByAddress.find
  locals : ∀ p s, A p → p ≠ S → c.segments.get? p = some s → s.Local
  compiled : c.Compiled fun p => A p ∧ p ≠ S

theorem Leaving.live (h : c.Leaving A S) (hp : A p) : c.segments.Live p := by
  obtain ⟨l, hl⟩ := h.graph.there p hp
  obtain ⟨s, hs, -⟩ := Option.map_eq_some_iff.1 hl
  exact ⟨s, hs⟩

theorem get?_removeDestination : (s.removeDestination S).cpuBasicBlock = s.cpuBasicBlock ∧
    (s.removeDestination S).jitBasicBlock = s.jitBasicBlock ∧ (s.removeDestination S).ret = s.ret ∧
    (s.removeDestination S).links = s.links ∧ (s.removeDestination S).callPredecessors = s.callPredecessors ∧
    (s.removeDestination S).variableDestinationInfo =
      if s.endsWithFixedDestinationJump then s.variableDestinationInfo else [] := by
  unfold CodeSegment.removeDestination
  split <;> exact ⟨rfl, rfl, rfl, rfl, rfl, rfl⟩

/-- A segment that has no destination left, with an empty table. -/
theorem Compiled.cleared {B : Nat → Prop} {c₂ : CodeCache} {t : CodeSegment} (h : c.Compiled B)
    (hs : c.segments.get? this = some s) (ht : c₂.segments.get? this = some t) (hnil : t.variableDestinationInfo = [])
    (hjit : t.jitBasicBlock = s.jitBasicBlock) (hother : ∀ q, q ≠ this → c₂.segments.get? q = c.segments.get? q)
    (hblocks : ∀ block b, c₂.blocks.get? block = some b → ∃ b₀, c.blocks.get? block = some b₀ ∧
      (b.variableDestinationTable.blocks = [] ∨
        s.jitBasicBlock ≠ some block ∧ b.variableDestinationTable = b₀.variableDestinationTable))
    (hfor : ∀ block q, c.CompiledFor block q → c₂.CompiledFor block q) : c₂.Compiled B := by
  refine ⟨fun q u block hq hu hb => ?_, fun q u hq hu d hd block hb => ?_, fun q u block b hq hu hb hb' target htarget => ?_⟩
  · by_cases hqt : q = this
    · subst hqt
      obtain rfl : u = t := Option.some.inj (hu.symm.trans ht)
      exact hfor _ _ (h.jit q s block hq hs (hjit ▸ hb))
    · exact hfor _ _ (h.jit q u block hq (hother q hqt ▸ hu) hb)
  · by_cases hqt : q = this
    · subst hqt
      obtain rfl : u = t := Option.some.inj (hu.symm.trans ht)
      rw [hnil] at hd
      cases hd
    · exact hfor _ _ (h.nextJit q u hq (hother q hqt ▸ hu) d hd block hb)
  · obtain ⟨b₀, hb₀, hempty | ⟨hne, hsame⟩⟩ := hblocks block b hb'
    · rw [hempty] at htarget
      cases htarget
    · have hqt : q ≠ this := by
        rintro rfl
        obtain rfl : u = t := Option.some.inj (hu.symm.trans ht)
        exact hne (hjit ▸ hb)
      obtain ⟨x, hx, hx'⟩ := h.table q u block b₀ hq (hother q hqt ▸ hu) hb hb₀ target (hsame ▸ htarget)
      exact ⟨x, hx, hfor _ _ hx'⟩

theorem trimmed_removeDestination : c.Trimmed (c.modify this (·.removeDestination S)) :=
  trimmed_modify (fun _ => get?_removeDestination.1) (fun _ => get?_removeDestination.2.2.1) fun _ _ hx =>
    get?_removeDestination.2.2.2.2.1 ▸ hx

/-- A table that is filled again from no destination is empty. -/
theorem syncIf_post {B : Nat → Prop} (h : c.Compiled B) (hs : c.segments.get? this = some s) :
    Post (Dangles P) (fun c₂ => c.Trimmed c₂ ∧ c₂.Compiled B ∧ c₂.codeSegmentsByAddress = c.codeSegmentsByAddress ∧
        ∀ q, c₂.segments.get? q = (c.modify this (·.removeDestination S)).segments.get? q)
      ((c.modify this (·.removeDestination S)).syncIf (!s.endsWithFixedDestinationJump) this) := by
  obtain ⟨-, hjit, -, -, -, hvariable⟩ := get?_removeDestination (s := s) (S := S)
  have hget : (c.modify this (·.removeDestination S)).segments.get? this = some (s.removeDestination S) := get?_modify_self hs
  by_cases hfixed : s.endsWithFixedDestinationJump = true
  · rw [if_pos hfixed] at hvariable
    rw [syncIf, if_neg (by simp [hfixed])]
    refine Post.ok ⟨trimmed_removeDestination, h.modify (fun t ht => ?_) fun t ht => ?_, rfl, fun _ => rfl⟩
    · obtain rfl : t = s := Option.some.inj (ht.symm.trans hs)
      exact hjit
    · obtain rfl : t = s := Option.some.inj (ht.symm.trans hs)
      exact hvariable
  · rw [if_neg hfixed] at hvariable
    have hother : ∀ q, q ≠ this → (c.modify this (·.removeDestination S)).segments.get? q = c.segments.get? q :=
      fun q hq => get?_modify_of_ne hq
    rw [syncIf, if_pos (by simpa using hfixed)]
    refine Post.bind (segment_post fun _ => ⟨_, hget⟩) fun t ht => ?_
    obtain rfl : t = s.removeDestination S := Option.some.inj (ht.symm.trans hget)
    split
    · next hnone =>
      refine Post.ok ⟨trimmed_removeDestination, h.cleared hs hget hvariable hjit hother (fun block b hb => ?_) fun _ _ hf => hf,
        rfl, fun _ => rfl⟩
      refine ⟨b, hb, .inr ⟨?_, rfl⟩⟩
      rw [← hjit, hnone]
      simp
    · next block hblock =>
      have hrefreshed : (c.modify this (·.removeDestination S)).refreshed [] = .ok [] := rfl
      rw [hvariable, hrefreshed]
      have hsync : ∀ b : JitBasicBlock, (b.syncBlockLookupTable []).currentBb = b.currentBb := fun _ => rfl
      have hsame : ∀ q, (((c.modify this (·.removeDestination S)).modify this fun s => { s with variableDestinationInfo := [] }).modifyBlock
          block (·.syncBlockLookupTable [])).segments.get? q = (c.modify this (·.removeDestination S)).segments.get? q := by
        intro q
        by_cases hq : q = this
        · subst hq
          refine (get?_modify_self hget).trans (Eq.trans ?_ hget.symm)
          rw [← hvariable]
        · exact get?_modify_of_ne hq
      refine Post.ok ⟨?_, h.cleared hs ((hsame this).trans hget) hvariable hjit (fun q hq => (hsame q).trans (hother q hq))
        (fun x b hb => ?_) fun x q hf => (compiledFor_modifyBlock hsync).2 hf, rfl, hsame⟩
      · have hempty : (c.modify this (·.removeDestination S)).Trimmed
            ((c.modify this (·.removeDestination S)).modify this fun s => { s with variableDestinationInfo := [] }) :=
          trimmed_modify (fun _ => rfl) (fun _ => rfl) fun _ _ hx => hx
        exact trimmed_removeDestination.trans (hempty.trans (trimmed_modifyBlock hsync fun _ => rfl))
      · rcases get?_modifyBlock hb with ⟨rfl, b₀, hb₀, rfl⟩ | ⟨hne, hb₀⟩
        · exact ⟨b₀, hb₀, .inl rfl⟩
        · refine ⟨b, hb₀, .inr ⟨fun heq => hne ?_, rfl⟩⟩
          exact Option.some.inj (heq.symm.trans (hjit.symm.trans hblock))

theorem links_modify_update {f : CodeSegment → CodeSegment} (hs : c.segments.get? p = some s) :
    (c.modify p f).links = Function.update c.links p (some (f s).links) := by
  funext q
  rw [links_modify]
  by_cases hq : q = p
  · subst hq
    rw [if_pos rfl, hs, Function.update_self, Option.map_some]
  · rw [if_neg hq, Function.update_of_ne hq]

theorem links_eq (hs : c.segments.get? p = some s) : c.links p = some s.links := by rw [links, hs, Option.map_some]

theorem removeSucessor_post (h : c.Leaving A S) (hS : A S) {lS : Links} (hlS : c.links S = some lS) (hthis : A this) :
    Post (Dangles P) (fun c' => c.Trimmed c' ∧ c'.Leaving A S ∧ ∃ l, c.links this = some l ∧
        c'.links = Function.update c.links this (some ⟨l.start, l.successors.erase lS.start, l.predecessors⟩))
      (c.removeSucessor this S lS.start) := by
  refine Post.bind (segment_post fun _ => h.live hthis) fun s hs => ?_
  refine Post.bind (syncIf_post h.compiled hs) fun c₂ ⟨htrim, hcompiled, haddress, hget⟩ => Post.ok ?_
  obtain ⟨-, -, -, hlinks, -, -⟩ := get?_removeDestination (s := s) (S := S)
  have hs₂ : c₂.segments.get? this = some (s.removeDestination S) := (hget this).trans (get?_modify_self hs)
  have hlinks₂ : c₂.links = c.links := by
    funext q
    rw [links, hget q]
    exact congrFun (links_modify_same fun _ => get?_removeDestination.2.2.2.1) q
  have hl : c.links this = some s.links := links_eq hs
  have hkey : ∀ e ∈ s.successors.entries, e.1 = lS.start ↔ e.2 = S := fun e he =>
    h.graph.key hthis hl hS hlS (.inl he)
  have hupdate : (c₂.modify this fun t => { t with successors := t.successors.erase lS.start }).links =
      Function.update c.links this (some ⟨s.start, s.successors.erase lS.start, s.predecessors⟩) := by
    have hstart : (s.removeDestination S).start = s.start := congrArg Links.start hlinks
    have hsucc : (s.removeDestination S).successors = s.successors := congrArg Links.successors hlinks
    have hpred : (s.removeDestination S).predecessors = s.predecessors := congrArg Links.predecessors hlinks
    rw [links_modify_update hs₂, hlinks₂, ← hstart, ← hsucc, ← hpred]
    rfl
  refine ⟨htrim.trans (trimmed_modify (fun _ => rfl) (fun _ => rfl) fun _ _ hx => hx), ⟨?_, fun q t hq hne ht => ?_,
    hcompiled.modify (fun _ _ => rfl) fun _ _ => rfl⟩, s.links, hl, hupdate⟩
  · rw [hupdate]
    refine Eq.subst (motive := fun m : AddressMap => Graph A _ _ m.find) haddress.symm
      (h.graph.shrink hl rfl (fun e he => (AddressMap.mem_erase.1 he).1) (fun _ he => he) (fun _ q hq hmem => ?_) fun _ _ _ hm => hm)
    obtain ⟨k, hk⟩ := AddressMap.mem_targets.1 hmem
    exact AddressMap.mem_targets.2 ⟨k, AddressMap.mem_erase.2 ⟨hk, fun heq => hq.2 ((hkey _ hk).1 heq)⟩⟩
  · rcases get?_modify ht with ⟨rfl, t₂, ht₂, rfl⟩ | ⟨hqt, ht₂⟩
    · obtain rfl : t₂ = s.removeDestination S := Option.some.inj (ht₂.symm.trans hs₂)
      exact (h.locals q s hq hne hs).remove fun e he => (hkey e he).1
    · exact h.locals q t hq hne ((get?_modify_of_ne hqt).symm.trans ((hget q).symm.trans ht₂))

theorem removePredecessor_post (h : c.Leaving A S) (hS : A S) {lS : Links} (hlS : c.links S = some lS) (hthis : A this) :
    Post (Dangles P) (fun c' => c.Trimmed c' ∧ c'.Leaving A S ∧ ∃ l, c.links this = some l ∧
        c'.links = Function.update c.links this (some ⟨l.start, l.successors, l.predecessors.erase lS.start⟩))
      (c.removePredecessor this lS.start) := by
  refine Post.bind (segment_post fun _ => h.live hthis) fun s hs => Post.ok ?_
  have hl : c.links this = some s.links := links_eq hs
  have hupdate := links_modify_update (f := (·.removePredecessor lS.start)) hs
  refine ⟨trimmed_modify (fun _ => rfl) (fun _ => rfl) fun _ _ hx => hx, ⟨?_, fun q t hq hne ht => ?_,
    h.compiled.modify (fun _ _ => rfl) fun _ _ => rfl⟩, s.links, hl, hupdate⟩
  · rw [hupdate]
    refine h.graph.shrink hl rfl (fun _ he => he) (fun e he => (AddressMap.mem_erase.1 he).1) (fun _ _ _ hm => hm)
      fun _ q hq hmem => ?_
    obtain ⟨k, hk⟩ := AddressMap.mem_targets.1 hmem
    refine AddressMap.mem_targets.2 ⟨k, AddressMap.mem_erase.2 ⟨hk, fun heq => hq.2 ?_⟩⟩
    exact (h.graph.key hthis hl hS hlS (.inr hk)).1 heq
  · rcases get?_modify ht with ⟨rfl, t₀, ht₀, rfl⟩ | ⟨-, ht₀⟩
    · have hlocal := h.locals q t₀ hq hne ht₀
      exact ⟨hlocal.fixedOnly, hlocal.variableOnly, hlocal.recorded⟩
    · exact h.locals q t hq hne ht₀

theorem removeCallPredecessor_post (h : c.Leaving A S) (hthis : P → c.segments.Live this) {startS : Nat} :
    Post (Dangles P) (fun c' => c.Trimmed c' ∧ c'.Leaving A S ∧ c'.links = c.links) (c.removeCallPredecessor this startS) := by
  refine Post.bind (segment_post hthis) fun s hs => Post.ok ?_
  have hlinks : (c.modify this (·.removeCallPredecessor startS)).links = c.links :=
    links_modify_same (f := (·.removeCallPredecessor startS)) fun _ => rfl
  refine ⟨trimmed_modify (fun _ => rfl) (fun _ => rfl) fun t x hx => ?_, ⟨hlinks.symm ▸ h.graph, fun q t hq hne ht => ?_,
    h.compiled.modify (fun _ _ => rfl) fun _ _ => rfl⟩, hlinks⟩
  · obtain ⟨k, hk⟩ := AddressMap.mem_targets.1 hx
    exact AddressMap.mem_targets.2 ⟨k, (AddressMap.mem_erase.1 hk).1⟩
  · rcases get?_modify ht with ⟨rfl, t₀, ht₀, rfl⟩ | ⟨-, ht₀⟩
    · have hlocal := h.locals q t₀ hq hne ht₀
      exact ⟨hlocal.fixedOnly, hlocal.variableOnly, hlocal.recorded⟩
    · exact h.locals q t hq hne ht₀

/-- Whatever the leaving segment forgets itself is no loss. -/
theorem Leaving.modify_self (h : c.Leaving A S) {f : CodeSegment → CodeSegment} (hs : c.segments.get? S = some s)
    (hstart : (f s).start = s.start) (hsucc : ∀ e ∈ (f s).successors.entries, e ∈ s.successors.entries)
    (hpred : ∀ e ∈ (f s).predecessors.entries, e ∈ s.predecessors.entries) : (c.modify S f).Leaving A S := by
  refine ⟨?_, fun q t hq hne ht => h.locals q t hq hne (get?_modify_of_ne hne ▸ ht), ?_⟩
  · rw [links_modify_update hs]
    exact h.graph.shrink (links_eq hs) hstart hsucc hpred (fun hB => absurd rfl hB.2) fun hB => absurd rfl hB.2
  · refine ⟨fun q t b hq ht => ?_, fun q t hq ht => ?_, fun q t b b' hq ht => ?_⟩
    · exact h.compiled.jit q t b hq (get?_modify_of_ne hq.2 ▸ ht)
    · exact h.compiled.nextJit q t hq (get?_modify_of_ne hq.2 ▸ ht)
    · exact h.compiled.table q t b b' hq (get?_modify_of_ne hq.2 ▸ ht)

/-- The links between the segments of `A`, and what these segments know of native code. -/
structure Linked (A : Nat → Prop) (c : CodeCache) : Prop where
  graph : Graph A A c.links c.codeSegmentsByAddress.find
  locals : ∀ p s, A p → c.segments.get? p = some s → s.Local
  compiled : c.Compiled A

/-- The segments that still record `S` as a successor are still to be visited. -/
structure FirstLoop (A : Nat → Prop) (S startS : Nat) (c₀ : CodeCache) (rest : List Nat) (c : CodeCache) : Prop where
  trimmed : c₀.Trimmed c
  leaving : c.Leaving A S
  there : ∀ x ∈ rest, A x
  successors : ∀ p l, A p → p ≠ S → c.links p = some l → S ∈ l.successors.targets → p ∈ rest
  self : ∃ lS, c.links S = some lS ∧ lS.start = startS ∧
    ∀ p l, A p → p ≠ S → c.links p = some l → S ∈ l.predecessors.targets → p ∈ lS.successors.targets

/-- No segment records `S` as a successor, and those that record it as a predecessor are still to be visited. -/
structure SecondLoop (A : Nat → Prop) (S startS : Nat) (c₀ : CodeCache) (rest : List Nat) (c : CodeCache) : Prop where
  trimmed : c₀.Trimmed c
  leaving : c.Leaving A S
  there : ∀ x ∈ rest, A x
  successors : ∀ p l, A p → p ≠ S → c.links p = some l → S ∉ l.successors.targets
  predecessors : ∀ p l, A p → p ≠ S → c.links p = some l → S ∈ l.predecessors.targets → p ∈ rest
  self : ∃ lS, c.links S = some lS ∧ lS.start = startS

variable {startS : Nat} {c₀ : CodeCache} {rest : List Nat}

theorem FirstLoop.turn (h : FirstLoop A S startS c₀ (this :: rest) c) (hS : A S) :
    Post (Dangles P) (FirstLoop A S startS c₀ rest) (c.removeSucessor this S startS) := by
  obtain ⟨lS, hlS, rfl, hback⟩ := h.self
  have hthis : A this := h.there this List.mem_cons_self
  refine Post.mono (removeSucessor_post h.leaving hS hlS hthis) fun c' ⟨htrim, hleaving, l, hl, hupdate⟩ => ?_
  have hgone : S ∉ (l.successors.erase lS.start).targets := by
    intro hmem
    obtain ⟨k, hk⟩ := AddressMap.mem_targets.1 hmem
    obtain ⟨hk, hne⟩ := AddressMap.mem_erase.1 hk
    exact hne ((h.leaving.graph.key hthis hl hS hlS (.inl hk)).2 rfl)
  refine ⟨h.trimmed.trans htrim, hleaving, fun x hx => h.there x (List.mem_cons_of_mem _ hx), fun p m hp hne hm hmem => ?_, ?_⟩
  · rw [hupdate] at hm
    by_cases hpt : p = this
    · subst hpt
      rw [Function.update_self] at hm
      obtain rfl := Option.some.inj hm
      exact absurd hmem hgone
    · rw [Function.update_of_ne hpt] at hm
      exact (List.mem_cons.1 (h.successors p m hp hne hm hmem)).resolve_left hpt
  · rw [hupdate]
    by_cases hSt : S = this
    · subst hSt
      obtain rfl : l = lS := Option.some.inj (hl.symm.trans hlS)
      refine ⟨_, Function.update_self .., rfl, fun p m hp hne hm hmem => ?_⟩
      rw [Function.update_of_ne hne] at hm
      obtain ⟨k, hk⟩ := AddressMap.mem_targets.1 (hback p m hp hne hm hmem)
      refine AddressMap.mem_targets.2 ⟨k, AddressMap.mem_erase.2 ⟨hk, fun heq => hne ?_⟩⟩
      exact (h.leaving.graph.key hS hlS hS hlS (.inl hk)).1 heq
    · refine ⟨lS, (Function.update_of_ne hSt ..).trans hlS, rfl, fun p m hp hne hm hmem => ?_⟩
      by_cases hpt : p = this
      · subst hpt
        rw [Function.update_self] at hm
        obtain rfl := Option.some.inj hm
        exact hback p l hp hne hl hmem
      · rw [Function.update_of_ne hpt] at hm
        exact hback p m hp hne hm hmem

theorem SecondLoop.turn (h : SecondLoop A S startS c₀ (this :: rest) c) (hS : A S) :
    Post (Dangles P) (SecondLoop A S startS c₀ rest) (c.removePredecessor this startS) := by
  obtain ⟨lS, hlS, rfl⟩ := h.self
  have hthis : A this := h.there this List.mem_cons_self
  refine Post.mono (removePredecessor_post h.leaving hS hlS hthis) fun c' ⟨htrim, hleaving, l, hl, hupdate⟩ => ?_
  have hgone : S ∉ (l.predecessors.erase lS.start).targets := by
    intro hmem
    obtain ⟨k, hk⟩ := AddressMap.mem_targets.1 hmem
    obtain ⟨hk, hne⟩ := AddressMap.mem_erase.1 hk
    exact hne ((h.leaving.graph.key hthis hl hS hlS (.inr hk)).2 rfl)
  have hget : ∀ p m, c'.links p = some m → (p = this ∧ m = ⟨l.start, l.successors, l.predecessors.erase lS.start⟩) ∨
      (p ≠ this ∧ c.links p = some m) := by
    intro p m hm
    rw [hupdate] at hm
    by_cases hpt : p = this
    · subst hpt
      rw [Function.update_self] at hm
      exact Or.inl ⟨rfl, (Option.some.inj hm).symm⟩
    · rw [Function.update_of_ne hpt] at hm
      exact Or.inr ⟨hpt, hm⟩
  refine ⟨h.trimmed.trans htrim, hleaving, fun x hx => h.there x (List.mem_cons_of_mem _ hx), fun p m hp hne hm => ?_,
    fun p m hp hne hm hmem => ?_, ?_⟩
  · rcases hget p m hm with ⟨rfl, rfl⟩ | ⟨-, hold⟩
    · exact h.successors p l hp hne hl
    · exact h.successors p m hp hne hold
  · rcases hget p m hm with ⟨rfl, rfl⟩ | ⟨hpt, hold⟩
    · exact absurd hmem hgone
    · exact (List.mem_cons.1 (h.predecessors p m hp hne hold hmem)).resolve_left hpt
  · rw [hupdate]
    by_cases hSt : S = this
    · subst hSt
      obtain rfl : l = lS := Option.some.inj (hl.symm.trans hlS)
      exact ⟨_, Function.update_self .., rfl⟩
    · exact ⟨lS, (Function.update_of_ne hSt ..).trans hlS, rfl⟩

/-- No link between `S` and another segment is left. -/
def Unlinked (A : Nat → Prop) (S : Nat) (c : CodeCache) : Prop :=
  ∀ p l, A p → p ≠ S → c.links p = some l → S ∉ l.successors.targets ∧ S ∉ l.predecessors.targets

theorem Leaving.linked (h : c.Leaving A S) (hS : c.Unlinked A S) : c.Linked fun p => A p ∧ p ≠ S := by
  refine ⟨h.graph.restrict (fun p l hp hl x hx => ⟨?_, ?_⟩) fun p l hp hl x hx => ⟨?_, ?_⟩,
    fun p s hp => h.locals p s hp.1 hp.2, h.compiled⟩
  · obtain ⟨k, hk⟩ := AddressMap.mem_targets.1 hx
    exact (h.graph.successors p l hp.1 hl _ hk).1
  · rintro rfl
    exact (hS p l hp.1 hp.2 hl).1 hx
  · obtain ⟨k, hk⟩ := AddressMap.mem_targets.1 hx
    exact (h.graph.predecessors p l hp.1 hl _ hk).1
  · rintro rfl
    exact (hS p l hp.1 hp.2 hl).2 hx

/-- A segment leaves the caches of the others. -/
theorem removeFromCaches_post (h : c.Leaving A S) (hS : A S) {s : CodeSegment} (hs : c.segments.get? S = some s)
    (hsucc : ∀ p l, A p → p ≠ S → c.links p = some l → S ∈ l.successors.targets → p ∈ s.predecessors.targets)
    (hpred : ∀ p l, A p → p ≠ S → c.links p = some l → S ∈ l.predecessors.targets → p ∈ s.successors.targets)
    (hcalls : P → ∀ x ∈ s.callPredecessors.targets, c.segments.Live x) :
    Post (Dangles P) (fun c' => c.Trimmed c' ∧ c'.Linked fun p => A p ∧ p ≠ S) (c.removeFromCaches S) := by
  refine Post.bind (segment_post fun _ => ⟨s, hs⟩) fun s₀ hs₀ => ?_
  obtain rfl : s₀ = s := Option.some.inj (hs₀.symm.trans hs)
  -- the segments before it forget it
  have hfirst : FirstLoop A S s₀.start c s₀.predecessors.targets c := by
    refine ⟨.refl c, h, fun x hx => ?_, hsucc, s₀.links, links_eq hs, rfl, hpred⟩
    obtain ⟨k, hk⟩ := AddressMap.mem_targets.1 hx
    exact (h.graph.predecessors S s₀.links hS (links_eq hs) _ hk).1
  refine Post.bind (Post.foldlM_rest hfirst fun c' x rest hI => hI.turn hS) fun c₁ h₁ => ?_
  obtain ⟨lS, hlS, -, hback⟩ := h₁.self
  obtain ⟨s₁, hs₁, rfl⟩ := Option.map_eq_some_iff.1 hlS
  have htrim₂ := h₁.trimmed.trans (trimmed_modify (p := S) (f := fun s => { s with predecessors := .empty }) (fun _ => rfl)
    (fun _ => rfl) fun _ _ hx => hx)
  have hleaving₂ := h₁.leaving.modify_self (f := fun s => { s with predecessors := .empty }) hs₁ rfl (fun _ he => he)
    fun _ he => by cases he
  have hs₂ : (c₁.modify S fun s => { s with predecessors := .empty }).segments.get? S = some _ := get?_modify_self hs₁
  have hlinks₂ : ∀ p, p ≠ S → (c₁.modify S fun s => { s with predecessors := .empty }).links p = c₁.links p := by
    intro p hp
    rw [links_modify, if_neg hp]
  -- the segments after it forget it
  refine Post.bind (segment_post fun _ => ⟨_, hs₂⟩) fun s₃ hs₃ => ?_
  obtain rfl := Option.some.inj (hs₃.symm.trans hs₂)
  have hsecond : SecondLoop A S s₁.start c s₁.successors.targets (c₁.modify S fun s => { s with predecessors := .empty }) := by
    refine ⟨htrim₂, hleaving₂, fun x hx => ?_, fun p l hp hne hl hmem => ?_, fun p l hp hne hl hmem => ?_, _, links_eq hs₂, rfl⟩
    · obtain ⟨k, hk⟩ := AddressMap.mem_targets.1 hx
      exact (h₁.leaving.graph.successors S s₁.links hS hlS _ hk).1
    · rw [hlinks₂ p hne] at hl
      cases h₁.successors p l hp hne hl hmem
    · rw [hlinks₂ p hne] at hl
      exact hback p l hp hne hl hmem
  refine Post.bind (Post.foldlM_rest hsecond fun c' x rest hI => hI.turn hS) fun c₂ h₂ => ?_
  obtain ⟨lS₂, hlS₂, -⟩ := h₂.self
  obtain ⟨s₄, hs₄, rfl⟩ := Option.map_eq_some_iff.1 hlS₂
  have htrim₃ := h₂.trimmed.trans (trimmed_modify (p := S) (f := fun s => { s with successors := .empty }) (fun _ => rfl)
    (fun _ => rfl) fun _ _ hx => hx)
  have hleaving₃ := h₂.leaving.modify_self (f := fun s => { s with successors := .empty }) hs₄ rfl (fun _ he => by cases he)
    fun _ he => he
  have hs₅ : (c₂.modify S fun s => { s with successors := .empty }).segments.get? S = some _ := get?_modify_self hs₄
  have hunlinked : Unlinked A S (c₂.modify S fun s => { s with successors := .empty }) := by
    intro p l hp hne hl
    rw [links_modify, if_neg hne] at hl
    refine ⟨h₂.successors p l hp hne hl, fun hmem => ?_⟩
    cases h₂.predecessors p l hp hne hl hmem
  -- what is left of its callers
  refine Post.bind (segment_post fun _ => ⟨_, hs₅⟩) fun s₆ hs₆ => ?_
  have hthird : Post (Dangles P) (fun c' => c.Trimmed c' ∧ c'.Leaving A S ∧ c'.Unlinked A S)
      (s₆.callPredecessors.targets.foldlM (fun c prev => c.removeCallPredecessor prev s₆.start)
        (c₂.modify S fun s => { s with successors := .empty })) := by
    refine Post.foldlM ⟨htrim₃, hleaving₃, hunlinked⟩ fun c' x hx ⟨htrim, hleaving, hunlinked⟩ => ?_
    have hlive : P → c'.segments.Live x := fun hP => htrim.live.2 (hcalls hP x (htrim₃.calls S s₀ s₆ hs hs₆ x hx))
    refine Post.mono (removeCallPredecessor_post hleaving hlive) fun c'' ⟨htrim', hleaving', hlinks⟩ =>
      ⟨htrim.trans htrim', hleaving', fun p l hp hne hl => hunlinked p l hp hne (hlinks ▸ hl)⟩
  refine Post.bind hthird fun c₃ ⟨htrim, hleaving, hunlinked⟩ => Post.ok ?_
  obtain ⟨s₇, hs₇, -⟩ := htrim.after hs
  refine ⟨htrim.trans (trimmed_modify (fun _ => rfl) (fun _ => rfl) fun _ _ hx => by cases hx),
    (hleaving.modify_self hs₇ rfl (fun _ he => he) fun _ he => he).linked fun p l hp hne hl => ?_⟩
  rw [links_modify, if_neg hne] at hl
  exact hunlinked p l hp hne hl

end CodeCache

end X64Emulator
