import X64Emulator.Lemmas.CodeViews
import X64Emulator.Lemmas.IntervalCuts
import X64Emulator.Lemmas.RegionRanges
import X64Emulator.ProcessCode

/-!
# What the process does with the ranges it hears of

While the process keeps its segments right there is an interval for each executable range it knows, the map finds the segments the
intervals own and no others, and a segment begins in its interval or where its interval ends. A range that is gained, a fetch and
the virtual machine keep this, and so does a range that is lost while no interval that touches it is in the way.
-/

namespace X64Emulator

open Outcome Notification

namespace CodeCache

variable {c c' : CodeCache} {this other p start : Nat}

/-! ## Basic blocks stay -/

theorem syncIf_agree {changed : Bool} : Yields (Agree CodeSegment.cpuBasicBlock c) (c.syncIf changed this) := by
  refine Post.ite (fun _ => ?_) fun _ => Post.ok (.refl _ c)
  exact Post.mono (syncBlockLookupTable_agree False.elim False.elim) fun _ h => h.of_view CodeSegment.cpuBasicBlock fun _ => rfl

theorem removeSucessor_agree : Yields (Agree CodeSegment.cpuBasicBlock c) (c.removeSucessor this other start) := by
  refine Post.skip fun s => Post.bind syncIf_agree fun c₁ h₁ => Post.ok ?_
  have hfirst : Agree CodeSegment.cpuBasicBlock c (c.modify this (·.removeDestination other)) :=
    agree_modify fun _ _ => get?_removeDestination.1
  exact hfirst.trans (h₁.trans (agree_modify fun _ _ => rfl))

theorem removePredecessor_agree : Yields (Agree CodeSegment.cpuBasicBlock c) (c.removePredecessor this start) :=
  Post.skip fun _ => Post.ok (agree_modify fun _ _ => rfl)

theorem removeCallPredecessor_agree :
    Yields (Agree CodeSegment.cpuBasicBlock c) (c.removeCallPredecessor this start) :=
  Post.skip fun _ => Post.ok (agree_modify fun _ _ => rfl)

theorem removeFromCaches_agree : Yields (Agree CodeSegment.cpuBasicBlock c) (c.removeFromCaches this) := by
  refine Post.skip fun s => ?_
  refine Post.bind (Post.foldlM (Agree.refl _ c) fun _ _ _ h => Post.mono removeSucessor_agree fun _ h' => h.trans h') fun c₁ h₁ => ?_
  have h₁' := h₁.trans (agree_modify (p := this) (f := fun s => { s with predecessors := .empty }) fun _ _ => rfl)
  refine Post.skip fun s₁ => ?_
  refine Post.bind (Post.foldlM h₁' fun _ _ _ h => Post.mono removePredecessor_agree fun _ h' => h.trans h') fun c₂ h₂ => ?_
  have h₂' := h₂.trans (agree_modify (p := this) (f := fun s => { s with successors := .empty }) fun _ _ => rfl)
  refine Post.skip fun s₂ => ?_
  refine Post.bind (Post.foldlM h₂' fun _ _ _ h => Post.mono removeCallPredecessor_agree fun _ h' => h.trans h') fun c₃ h₃ => ?_
  exact Post.ok (h₃.trans (agree_modify fun _ _ => rfl))

/-- The virtual machine leaves the blocks of the segments and the map as they are. -/
theorem exec_agree {action : CodeAction} (h : GuestCode.isRun action) :
    Yields (Agree CodeSegment.cpuBasicBlock c) (c.exec action) := by
  cases action with
  | fetchSegment block => exact h.elim
  | findNext this address =>
    refine Post.map (Post.skip fun s => Post.ite (fun _ => ?_) fun _ => Post.ok (.refl _ c))
    refine Post.skip fun found => ?_
    cases found with
    | none => exact Post.ok (.refl _ c)
    | some i => exact Post.ok (agree_modify fun _ _ => rfl)
  | addSuccessor this other =>
    refine Post.bind (segment_found False.elim) fun s hs => Post.skip fun o => ?_
    have hadd : Yields (fun t : CodeSegment => t.cpuBasicBlock = s.cpuBasicBlock)
        (s.addSuccessor other o.start o.jitBasicBlock) := by
      refine Post.ite (fun _ => ?_) fun _ => Post.ite (fun _ => Post.ok rfl) fun _ => Post.ok rfl
      exact Post.skip fun slots => Post.ok rfl
    refine Post.bind hadd fun t ht => Post.bind syncIf_agree fun c₁ h₁ => Post.ok ?_
    have hfirst : Agree CodeSegment.cpuBasicBlock c (c.modify this fun _ => t) :=
      agree_modify fun s₀ hs₀ => Option.some.inj (hs₀.symm.trans hs) ▸ ht
    exact hfirst.trans (h₁.trans (agree_modify fun _ _ => rfl))
  | addReturn this other =>
    refine Post.skip fun s => Post.skip fun o => Post.skip fun _ =>
      Post.skip fun _ => Post.ok ?_
    have hfirst : Agree CodeSegment.cpuBasicBlock c (c.modify this (·.addReturn other)) := agree_modify fun _ _ => rfl
    exact hfirst.trans (agree_modify fun _ _ => rfl)
  | onCpuCall this => exact Post.ok (agree_modify fun _ _ => rfl)
  | onCall this compiler turns => exact Post.mono process_agree fun _ h => h.of_view CodeSegment.cpuBasicBlock fun _ => rfl
  | tryPatch this => exact Post.mono (tryPatch_agree False.elim False.elim) fun _ h => h.of_view CodeSegment.cpuBasicBlock fun _ => rfl
  | removeSegments segments => exact h.elim

/-- A segment that is discarded leaves the map, and all segments are still there. -/
theorem discard_agree : Yields (fun c' => ∃ s, c.segments.get? p = some s ∧
    Agree CodeSegment.cpuBasicBlock { c with codeSegmentsByAddress := c.codeSegmentsByAddress.erase s.start } c') (c.discard p) :=
  Post.bind (segment_found False.elim) fun s hs => Post.mono removeFromCaches_agree fun _ h => ⟨s, hs, h⟩

/-- What is left of the segments and the map once some segments were discarded. -/
structure Discarded (c : CodeCache) (ts : List OwnedSegment) (c' : CodeCache) : Prop where
  blocks : ∀ p, (c'.segments.get? p).map (·.cpuBasicBlock) = (c.segments.get? p).map (·.cpuBasicBlock)
  entries : ∀ e, e ∈ c'.codeSegmentsByAddress.entries ↔ e ∈ c.codeSegmentsByAddress.entries ∧ ∀ t ∈ ts, e.1 ≠ t.block.start
  found : ∀ address, (∀ t ∈ ts, address ≠ t.block.start) →
    c'.codeSegmentsByAddress.find address = c.codeSegmentsByAddress.find address

theorem discardAll_post {ts : List OwnedSegment}
    (h : ∀ t ∈ ts, (c.segments.get? t.ptr).map (·.cpuBasicBlock) = some t.block) :
    Yields (c.Discarded ts) (ts.foldlM (fun c t => c.discard t.ptr) c) := by
  induction ts generalizing c with
  | nil => exact Post.ok ⟨fun _ => rfl, fun _ => by simp, fun _ _ => rfl⟩
  | cons t ts ih =>
    rw [List.foldlM_cons]
    refine Post.bind discard_agree fun c₁ ⟨s, hs, h₁⟩ => ?_
    have hstart : s.start = t.block.start := by
      have ht := h t List.mem_cons_self
      rw [hs, Option.map_some] at ht
      exact congrArg BasicBlock.start (Option.some.inj ht)
    have hblocks : ∀ p, (c₁.segments.get? p).map (·.cpuBasicBlock) = (c.segments.get? p).map (·.cpuBasicBlock) := h₁.view
    have hmap : c₁.codeSegmentsByAddress = c.codeSegmentsByAddress.erase t.block.start := hstart ▸ h₁.codeSegmentsByAddress
    refine Post.mono (ih fun u hu => (hblocks u.ptr).trans (h u (List.mem_cons_of_mem _ hu))) fun c₂ h₂ => ⟨fun p => ?_, fun e => ?_,
      fun address haddress => ?_⟩
    · exact (h₂.blocks p).trans (hblocks p)
    · rw [h₂.entries, hmap, AddressMap.mem_erase, List.forall_mem_cons, and_assoc]
    · obtain ⟨hfirst, hrest⟩ := List.forall_mem_cons.1 haddress
      rw [h₂.found address hrest, hmap, AddressMap.find_erase hfirst]

end CodeCache

/-- A verification that does not fail has a result. -/
theorem verified_post {α : Type} {o : Option α} : Yields (fun a => o = some a) (verified o) := by
  cases o with
  | none => exact Post.error id
  | some a => exact Post.ok rfl

namespace ProcessCode

open IntervalVector (Covers)

variable {p p' : ProcessCode} {known : Nat × Nat → Prop} {base length : Nat}

/-- The process has an interval for each range it knows, and keeps its segments in them and in the map. -/
structure Sound (p : ProcessCode) (known : Nat × Nat → Prop) : Prop where
  wf : p.codeSegments.Wf
  small : ∀ i ∈ p.codeSegments.values, i.end_ < 2 ^ 64
  ranges : ∀ range, known range ↔ ∃ i ∈ p.codeSegments.values, (i.start, i.end_) = range
  owned : ∀ i ∈ p.codeSegments.values, ∀ t ∈ i.items,
    (p.cache.segments.get? t.ptr).map (·.cpuBasicBlock) = some t.block ∧
      p.cache.codeSegmentsByAddress.find t.block.start = some t.ptr
  listed : ∀ e ∈ p.cache.codeSegmentsByAddress.entries, ∃ i ∈ p.codeSegments.values, ∃ t ∈ i.items, (t.block.start, t.ptr) = e
  live : ∀ ptr, p.cache.segments.Live ptr → ∃ i ∈ p.codeSegments.values, ∃ t ∈ i.items, t.ptr = ptr
  unique : ∀ i ∈ p.codeSegments.values, ∀ j ∈ p.codeSegments.values, ∀ t ∈ i.items, ∀ u ∈ j.items, t.ptr = u.ptr → i = j
  placed : ∀ i ∈ p.codeSegments.values, ∀ t ∈ i.items, ∃ j ∈ p.codeSegments.values, Covers j t.block.start ∧
    (j.start = i.start ∨ j.start = i.end_)

/-- A range may go when no interval begins where it ends, and none that ends where it begins owns a segment. -/
def Spares (p : ProcessCode) (range : Nat × Nat) : Prop :=
  ∀ i ∈ p.codeSegments.values, i.start ≠ range.2 ∧ (i.end_ = range.1 → i.items = [])

instance (p : ProcessCode) (range : Nat × Nat) : Decidable (p.Spares range) := inferInstanceAs (Decidable (∀ i ∈ _, _))

/-- Segments of different intervals begin at different addresses. -/
theorem Sound.eq_of_start (h : p.Sound known) {i j : IntervalValue OwnedSegment} (hi : i ∈ p.codeSegments.values)
    (hj : j ∈ p.codeSegments.values) {t u : OwnedSegment} (ht : t ∈ i.items) (hu : u ∈ j.items)
    (heq : t.block.start = u.block.start) : i = j := by
  have htu := (h.owned i hi t ht).2
  rw [heq, (h.owned j hj u hu).2] at htu
  exact h.unique i hi j hj t ht u hu (Option.some.inj htu).symm

/-- A range that goes takes its interval and the segments it owns. -/
theorem Sound.purge (h : p.Sound known) (hknown : known (base, base + length))
    (hspares : p.Spares (base, base + length)) :
    Yields (Sound · fun range => known range ∧ range ≠ (base, base + length)) (p.purge base length) := by
  obtain ⟨a, ha, heq⟩ := (h.ranges _).1 hknown
  obtain ⟨rfl, hend⟩ := Prod.mk.inj heq
  rw [← hend] at hspares ⊢
  obtain ⟨visited, v', hforEach, hvisited, hremove, hwf, hleft⟩ := h.wf.cutOut ha hspares
  have hu64 : u64 (a.start + length) = a.end_ := by rw [← hend]; exact u64_of_lt (h.small a ha)
  unfold ProcessCode.purge
  rw [hu64]
  refine Post.bind verified_post fun r hr => ?_
  obtain rfl := Option.some.inj (hforEach.symm.trans hr)
  have hdiscard := CodeCache.discardAll_post (c := p.cache) fun t (ht : t ∈ visited) => (h.owned a ha t ((hvisited t).1 ht)).1
  refine Post.bind hdiscard fun c₁ h₁ => Post.bind verified_post fun v hv => ?_
  obtain rfl := Option.some.inj (hremove.symm.trans hv)
  -- what is destroyed is what the interval owned
  have hdestroyed : ∀ ptr, ptr ∈ (p.codeSegments.items.filter (· ∉ v'.items)).map (·.ptr) ↔ ∃ t ∈ a.items, t.ptr = ptr := by
    intro ptr
    simp only [IntervalVector.items, List.mem_map, List.mem_filter, List.mem_flatMap, decide_eq_true_eq]
    constructor
    · rintro ⟨t, ⟨⟨i, hi, ht⟩, hout⟩, rfl⟩
      by_cases hia : i = a
      · exact ⟨t, hia ▸ ht, rfl⟩
      · exact absurd ⟨i, (hleft i).2 ⟨hi, hia⟩, ht⟩ hout
    · rintro ⟨t, ht, rfl⟩
      refine ⟨t, ⟨⟨a, ha, ht⟩, ?_⟩, rfl⟩
      rintro ⟨i, hi, hti⟩
      obtain ⟨hi, hia⟩ := (hleft i).1 hi
      exact hia (h.unique i hi a ha t hti t ht rfl)
  have hkept : ∀ ptr, (∀ t ∈ a.items, t.ptr ≠ ptr) →
      (c₁.segments.freeAll ((p.codeSegments.items.filter (· ∉ v'.items)).map (·.ptr))).get? ptr = c₁.segments.get? ptr := by
    intro ptr hptr
    refine Heap.get?_freeAll_of_not_mem fun hmem => ?_
    obtain ⟨t, ht, heq⟩ := (hdestroyed ptr).1 hmem
    exact hptr t ht heq
  refine Post.ok ⟨hwf, fun i hi => h.small i ((hleft i).1 hi).1, fun range => ?_, fun i hi t ht => ?_, fun e he => ?_,
    fun ptr hptr => ?_, fun i hi j hj => ?_, fun i hi t ht => ?_⟩
  · rw [h.ranges]
    constructor
    · rintro ⟨⟨i, hi, rfl⟩, hne⟩
      refine ⟨i, (hleft i).2 ⟨hi, ?_⟩, rfl⟩
      rintro rfl
      exact hne rfl
    · rintro ⟨i, hi, rfl⟩
      obtain ⟨hi, hia⟩ := (hleft i).1 hi
      refine ⟨⟨i, hi, rfl⟩, fun heq => ?_⟩
      exact hia (h.wf.eq_of_start hi ha (Prod.mk.inj heq).1)
  · obtain ⟨hi, hia⟩ := (hleft i).1 hi
    obtain ⟨hblock, hfind⟩ := h.owned i hi t ht
    constructor
    · have hptr : ∀ u ∈ a.items, u.ptr ≠ t.ptr := fun u hu heq => hia (h.unique i hi a ha t ht u hu heq.symm)
      show ((c₁.segments.freeAll _).get? t.ptr).map _ = _
      rw [hkept t.ptr hptr, h₁.blocks]
      exact hblock
    · refine (h₁.found _ fun u hu heq => hia ?_).trans hfind
      exact h.eq_of_start hi ha ht ((hvisited u).1 hu) heq
  · obtain ⟨he, hother⟩ := (h₁.entries e).1 he
    obtain ⟨i, hi, t, ht, rfl⟩ := h.listed e he
    refine ⟨i, (hleft i).2 ⟨hi, ?_⟩, t, ht, rfl⟩
    rintro rfl
    exact hother t ((hvisited t).2 ht) rfl
  · obtain ⟨s, hs⟩ := hptr
    have hnot : ∀ t ∈ a.items, t.ptr ≠ ptr := by
      rintro t ht rfl
      rw [Heap.get?_freeAll_of_mem ((hdestroyed t.ptr).2 ⟨t, ht, rfl⟩)] at hs
      cases hs
    have hs₁ : c₁.segments.get? ptr = some s := (hkept ptr hnot).symm.trans hs
    have hblocks := h₁.blocks ptr
    rw [hs₁, Option.map_some] at hblocks
    obtain ⟨s₀, hs₀, -⟩ := Option.map_eq_some_iff.1 hblocks.symm
    obtain ⟨i, hi, t, ht, rfl⟩ := h.live ptr ⟨s₀, hs₀⟩
    refine ⟨i, (hleft i).2 ⟨hi, ?_⟩, t, ht, rfl⟩
    rintro rfl
    exact hnot t ht rfl
  · exact h.unique i ((hleft i).1 hi).1 j ((hleft j).1 hj).1
  · obtain ⟨hi, hia⟩ := (hleft i).1 hi
    obtain ⟨j, hj, hcovers, hplace⟩ := h.placed i hi t ht
    refine ⟨j, (hleft j).2 ⟨hj, ?_⟩, hcovers, hplace⟩
    rintro rfl
    rcases hplace with hstart | hstart
    · exact hia (h.wf.eq_of_start hi ha hstart.symm)
    · rw [(hspares i hi).2 hstart.symm] at ht
      cases ht

/-- A range that is gained gets an interval. -/
theorem Sound.reserve (h : p.Sound known) (hlt : base < base + length) (h64 : base + length < 2 ^ 64)
    (hapart : ∀ other, known other → Separate (base, base + length) other) :
    Yields (Sound · fun range => known range ∨ (base, base + length) = range) (p.reserve base length) := by
  have hseparate : ∀ i ∈ p.codeSegments.values, base + length ≤ i.start ∨ i.end_ ≤ base := fun i hi =>
    hapart (i.start, i.end_) ((h.ranges _).2 ⟨i, hi, rfl⟩)
  unfold ProcessCode.reserve
  rw [u64_of_lt h64]
  refine Post.bind verified_post fun v hv => Post.ok ?_
  have hkeeps : p.codeSegments.KeepsApart (.reserve base (base + length)) := by
    refine ⟨hlt, fun i hi hstart => ?_⟩
    have := hseparate i hi
    omega
  obtain ⟨before, after, hvalues, -, -, hvalues'⟩ := h.wf.insert_eq_some hv
  have hmem : ∀ i, i ∈ v.values ↔ i = ⟨base, base + length, []⟩ ∨ i ∈ p.codeSegments.values := by
    intro i
    rw [hvalues', hvalues, List.mem_append, List.mem_cons, List.mem_append, or_left_comm]
  -- a new interval has no item
  have hold : ∀ i ∈ v.values, ∀ t ∈ i.items, i ∈ p.codeSegments.values := by
    intro i hi t ht
    rcases (hmem i).1 hi with rfl | hi
    · cases ht
    · exact hi
  have hsmall : ∀ i ∈ v.values, i.end_ < 2 ^ 64 := by
    intro i hi
    rcases (hmem i).1 hi with rfl | hi
    · exact h64
    · exact h.small i hi
  refine ⟨h.wf.reserve hkeeps hv, hsmall, fun range => ?_, fun i hi t ht => h.owned i (hold i hi t ht) t ht, fun e he => ?_,
    fun ptr hptr => ?_, fun i hi j hj t ht u hu => h.unique i (hold i hi t ht) j (hold j hj u hu) t ht u hu, fun i hi t ht => ?_⟩
  · rw [h.ranges]
    simp only [hmem, or_and_right, exists_or, exists_eq_left]
    exact Or.comm
  · obtain ⟨i, hi, t, ht, heq⟩ := h.listed e he
    exact ⟨i, (hmem i).2 (Or.inr hi), t, ht, heq⟩
  · obtain ⟨i, hi, t, ht, heq⟩ := h.live ptr hptr
    exact ⟨i, (hmem i).2 (Or.inr hi), t, ht, heq⟩
  · obtain ⟨j, hj, hcovers, hplace⟩ := h.placed i (hold i hi t ht) t ht
    exact ⟨j, (hmem j).2 (Or.inr hj), hcovers, hplace⟩

/-- A range is reserved when it is gained and purged when it is lost. -/
theorem hear_cases (p : ProcessCode) (n : Notification) :
    (n.gained = none ∧ n.lost = none ∧ p.hear n = .ok p) ∨
    (∃ base length, n.gained = some (base, base + length) ∧ n.lost = none ∧ p.hear n = p.reserve base length) ∨
    ∃ base length, n.gained = none ∧ n.lost = some (base, base + length) ∧ p.hear n = p.purge base length := by
  cases n with
  | onRegionCreation base length prot =>
    cases hexec : prot.exec with
    | false => exact Or.inl (by simp [gained, lost, hear, ProcessCode.onRegionCreation, hexec])
    | true => exact Or.inr (Or.inl ⟨base, length, by simp [gained, lost, hear, ProcessCode.onRegionCreation, hexec]⟩)
  | onRegionProtectionChange base length protBefore protAfter =>
    cases hbefore : protBefore.exec with
    | false =>
      cases hafter : protAfter.exec with
      | false => exact Or.inl (by simp [gained, lost, hear, ProcessCode.onRegionProtectionChange, hbefore, hafter])
      | true =>
        exact Or.inr (Or.inl ⟨base, length, by
          simp [gained, lost, hear, ProcessCode.onRegionProtectionChange, hbefore, hafter]⟩)
    | true =>
      cases hafter : protAfter.exec with
      | false =>
        exact Or.inr (Or.inr ⟨base, length, by
          simp [gained, lost, hear, ProcessCode.onRegionProtectionChange, hbefore, hafter]⟩)
      | true => exact Or.inl (by simp [gained, lost, hear, ProcessCode.onRegionProtectionChange, hbefore, hafter])
  | onRegionDestruction base length prot =>
    cases hexec : prot.exec with
    | false => exact Or.inl (by simp [gained, lost, hear, ProcessCode.onRegionDestruction, hexec])
    | true => exact Or.inr (Or.inr ⟨base, length, by simp [gained, lost, hear, ProcessCode.onRegionDestruction, hexec]⟩)

/-- What the process knows follows what it hears. -/
theorem Sound.hear (h : p.Sound known) {n : Notification} (hfits : n.Fits known)
    (hspares : ∀ range, n.lost = some range → p.Spares range) :
    Yields (Sound · (n.record known)) (p.hear n) := by
  rcases p.hear_cases n with ⟨hgained, hlost, heq⟩ | ⟨base, length, hgained, hlost, heq⟩ | ⟨base, length, hgained, hlost, heq⟩
  · rw [heq, record_silent hgained hlost]
    exact Post.ok h
  · obtain ⟨hlt, h64, hapart⟩ := hfits.gained _ hgained
    have hrecord : n.record known = fun range => known range ∨ (base, base + length) = range := by
      funext range
      simp [record, hgained, hlost]
    rw [heq, hrecord]
    exact h.reserve hlt h64 hapart
  · have hrecord : n.record known = fun range => known range ∧ range ≠ (base, base + length) := by
      funext range
      simp [record, hgained, hlost, eq_comm]
    rw [heq, hrecord]
    exact h.purge (hfits.lost _ hlost) (hspares _ hlost)

/-- The segment at an address, as an interval owns it. -/
def Owns (p : ProcessCode) (ptr address : Nat) : Prop :=
  ∃ i ∈ p.codeSegments.values, ∃ t ∈ i.items, t.ptr = ptr ∧ t.block.start = address

/-- A fetch at an executable address does not fail, and what it gives is a segment at the address. -/
theorem Sound.fetch (h : p.Sound known) {space : AddressSpace} (block : BasicBlock)
    (hcovered : space.isExecutable block.start = true → ∃ j ∈ p.codeSegments.values, Covers j block.start) :
    Post (fun _ => space.isExecutable block.start = true) (fun r => r.2.Sound known ∧ r.2.Owns r.1 block.start)
      (p.fetchSegment space block) := by
  unfold ProcessCode.fetchSegment
  cases hfind : p.cache.codeSegmentsByAddress.find block.start with
  | some segment =>
    obtain ⟨i, hi, t, ht, heq⟩ := h.listed _ (AddressMap.mem_of_find hfind)
    obtain ⟨hstart, hptr⟩ := Prod.mk.inj heq
    exact Post.ok ⟨h, i, hi, t, ht, hptr, hstart⟩
  | none =>
    refine Post.bind (Post.check id) fun _ hexec => ?_
    have hcache : p.cache.fetchSegment block = (p.cache.segments.next, { p.cache with
        segments := p.cache.segments.alloc (.create block)
        codeSegmentsByAddress := p.cache.codeSegmentsByAddress.insert block.start p.cache.segments.next }) := by
      unfold CodeCache.fetchSegment
      rw [hfind]
    obtain ⟨v, a, hadd, hwf, ha, ⟨j, hj, hcovers, hplace⟩, hmem⟩ :=
      h.wf.add_spec ⟨p.cache.segments.next, block⟩ (hcovered hexec)
    rw [hcache]
    simp only [hadd]
    refine Post.ok ?_
    -- each interval is still there, with its items
    have hafter : ∀ i ∈ p.codeSegments.values, ∃ i' ∈ v.values, i'.start = i.start ∧ i'.end_ = i.end_ ∧ ∀ t ∈ i.items, t ∈ i'.items := by
      intro i hi
      by_cases hia : i = a
      · subst hia
        exact ⟨_, (hmem _).2 (Or.inr rfl), rfl, rfl, fun t ht => List.mem_append_left _ ht⟩
      · exact ⟨i, (hmem i).2 (Or.inl ⟨hi, hia⟩), rfl, rfl, fun _ ht => ht⟩
    have hbefore : ∀ i' ∈ v.values, ∃ i ∈ p.codeSegments.values, i.start = i'.start ∧ i.end_ = i'.end_ ∧
        ∀ t ∈ i'.items, t ∈ i.items ∨ (i = a ∧ t = ⟨p.cache.segments.next, block⟩) := by
      intro i' hi'
      rcases (hmem i').1 hi' with ⟨hi, -⟩ | rfl
      · exact ⟨i', hi, rfl, rfl, fun t ht => Or.inl ht⟩
      · refine ⟨a, ha, rfl, rfl, fun t ht => ?_⟩
        rcases List.mem_append.1 ht with ht | ht
        · exact Or.inl ht
        · exact Or.inr ⟨rfl, List.mem_singleton.1 ht⟩
    have hold : ∀ i ∈ p.codeSegments.values, ∀ t ∈ i.items, t.ptr ≠ p.cache.segments.next ∧ t.block.start ≠ block.start := by
      intro i hi t ht
      obtain ⟨hblock, hfound⟩ := h.owned i hi t ht
      obtain ⟨s, hs, -⟩ := Option.map_eq_some_iff.1 hblock
      refine ⟨Nat.ne_of_lt (Heap.Live.lt_next ⟨s, hs⟩), fun heq => ?_⟩
      rw [heq, hfind] at hfound
      cases hfound
    refine ⟨⟨hwf, fun i' hi' => ?_, fun range => ?_, fun i' hi' t ht => ?_, fun e he => ?_, fun ptr hptr => ?_,
      fun i' hi' j' hj' t ht u hu heq => ?_, fun i' hi' t ht => ?_⟩, ?_⟩
    · obtain ⟨i, hi, -, hend, -⟩ := hbefore i' hi'
      exact hend ▸ h.small i hi
    · rw [h.ranges]
      constructor
      · rintro ⟨i, hi, rfl⟩
        obtain ⟨i', hi', hstart, hend, -⟩ := hafter i hi
        exact ⟨i', hi', by rw [hstart, hend]⟩
      · rintro ⟨i', hi', rfl⟩
        obtain ⟨i, hi, hstart, hend, -⟩ := hbefore i' hi'
        exact ⟨i, hi, by rw [hstart, hend]⟩
    · obtain ⟨i, hi, -, -, hitems⟩ := hbefore i' hi'
      rcases hitems t ht with ht | ⟨-, rfl⟩
      · obtain ⟨hblock, hfound⟩ := h.owned i hi t ht
        obtain ⟨hptr, hstart⟩ := hold i hi t ht
        refine ⟨?_, (AddressMap.find_insert_of_ne hstart).trans hfound⟩
        show ((p.cache.segments.alloc _).get? t.ptr).map _ = _
        rw [Heap.get?_alloc_of_ne hptr]
        exact hblock
      · refine ⟨?_, AddressMap.find_insert_self hfind⟩
        show ((p.cache.segments.alloc _).get? p.cache.segments.next).map _ = _
        rw [Heap.get?_alloc_next]
        rfl
    · rcases AddressMap.mem_insert he with rfl | he
      · exact ⟨_, (hmem _).2 (Or.inr rfl), _, List.mem_append_right _ (List.mem_singleton_self _), rfl⟩
      · obtain ⟨i, hi, t, ht, heq⟩ := h.listed e he
        obtain ⟨i', hi', -, -, hitems⟩ := hafter i hi
        exact ⟨i', hi', t, hitems t ht, heq⟩
    · by_cases hnew : ptr = p.cache.segments.next
      · exact ⟨_, (hmem _).2 (Or.inr rfl), _, List.mem_append_right _ (List.mem_singleton_self _), hnew.symm⟩
      · obtain ⟨s, hs⟩ := hptr
        obtain ⟨i, hi, t, ht, heq⟩ := h.live ptr ⟨s, (Heap.get?_alloc_of_ne hnew).symm.trans hs⟩
        obtain ⟨i', hi', -, -, hitems⟩ := hafter i hi
        exact ⟨i', hi', t, hitems t ht, heq⟩
    · obtain ⟨i, hi, hstart, -, hitems⟩ := hbefore i' hi'
      obtain ⟨k, hk, hstart', -, hitems'⟩ := hbefore j' hj'
      have hik : i = k := by
        rcases hitems t ht with ht | ⟨hia, rfl⟩
        · rcases hitems' u hu with hu | ⟨-, rfl⟩
          · exact h.unique i hi k hk t ht u hu heq
          · exact absurd heq (hold i hi t ht).1
        · rcases hitems' u hu with hu | ⟨hka, -⟩
          · exact absurd heq.symm (hold k hk u hu).1
          · exact hia.trans hka.symm
      exact hwf.eq_of_start hi' hj' (by rw [← hstart, ← hstart', hik])
    · obtain ⟨i, hi, hstart, hend, hitems⟩ := hbefore i' hi'
      have hplaced : ∃ k ∈ p.codeSegments.values, Covers k t.block.start ∧ (k.start = i.start ∨ k.start = i.end_) := by
        rcases hitems t ht with ht | ⟨rfl, rfl⟩
        · exact h.placed i hi t ht
        · exact ⟨j, hj, hcovers, hplace⟩
      obtain ⟨k, hk, hkt, hki⟩ := hplaced
      obtain ⟨k', hk', hstart', hend', -⟩ := hafter k hk
      unfold Covers at hkt ⊢
      exact ⟨k', hk', by rw [hstart', hend']; exact hkt, by rw [hstart', ← hstart, ← hend]; exact hki⟩
    · exact ⟨_, (hmem _).2 (Or.inr rfl), _, List.mem_append_right _ (List.mem_singleton_self _), rfl, rfl⟩

/-- The virtual machine leaves the process sound. -/
theorem Sound.run (h : p.Sound known) {c : CodeCache} (hagree : CodeCache.Agree CodeSegment.cpuBasicBlock p.cache c) :
    Sound { p with cache := c } known := by
  refine ⟨h.wf, h.small, h.ranges, fun i hi t ht => ?_, fun e he => ?_, fun ptr hptr => ?_, h.unique, h.placed⟩
  · obtain ⟨hblock, hfind⟩ := h.owned i hi t ht
    exact ⟨(hagree.view t.ptr).trans hblock, hagree.codeSegmentsByAddress ▸ hfind⟩
  · exact h.listed e (hagree.codeSegmentsByAddress ▸ he)
  · exact h.live ptr (hagree.live.1 hptr)

end ProcessCode

end X64Emulator
