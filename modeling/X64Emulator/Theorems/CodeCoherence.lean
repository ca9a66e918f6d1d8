import X64Emulator.Lemmas.ProcessCode

/-!
# The code cache and the executable regions

Between two calls the map, the intervals and the executable regions of a process agree, as long as no range is lost next to another
one: removing an interval takes one that begins where it ends as well, and visiting it goes to one that ends where it begins.
-/

namespace X64Emulator

open Outcome Notification

namespace AddressSpace

theorem Wf.isExecutable_iff {s : AddressSpace} (h : s.Wf) {address : Nat} : s.isExecutable address = true ↔
    ∃ range, s.executableRanges range ∧ range.1 ≤ address ∧ address < range.2 := by
  unfold isExecutable
  rw [Option.any_eq_true]
  constructor
  · rintro ⟨r, hfind, he⟩
    obtain ⟨hr, hin⟩ := h.findAddress_eq_some.1 hfind
    exact ⟨(r.base, r.top), ⟨r, hr, he, rfl⟩, hin⟩
  · rintro ⟨_, ⟨r, hr, he, rfl⟩, hin⟩
    exact ⟨r, h.findAddress_eq_some.2 ⟨hr, hin⟩, he⟩

end AddressSpace

namespace GuestCode

variable {host : Host} {g g' : GuestCode} {action : GuestAction}

/-- No range is lost while an executable range begins where it ends, or one that ends where it begins has a segment. -/
def SparesNeighbours (g : GuestCode) : GuestAction → Prop
  | .notify => ∀ n ∈ g.pending.head?, ∀ range ∈ n.lost, g.code.Spares range
  | _ => True

instance (g : GuestCode) : DecidablePred g.SparesNeighbours
  | .notify => inferInstanceAs (Decidable (∀ n ∈ g.pending.head?, ∀ range ∈ n.lost, _))
  | .call _ | .fetchSegment _ | .run _ => inferInstanceAs (Decidable True)

/-- The process is sound for the ranges it knows, and what it has still to hear leads to the executable ranges. -/
structure Inv (g : GuestCode) : Prop where
  wf : g.space.Wf
  code : ∃ known, Follows known g.pending g.space.executableRanges ∧ g.code.Sound known

/-- Between two calls the process knows the executable ranges. -/
theorem Inv.sound (h : g.Inv) (hquiet : g.pending = []) : g.code.Sound g.space.executableRanges := by
  obtain ⟨known, hfollows, hsound⟩ := h.code
  rw [hquiet] at hfollows
  exact Eq.subst (motive := g.code.Sound) (Eq.symm hfollows) hsound

theorem Inv.covered (h : g.Inv) (hquiet : g.pending = []) {address : Nat} (hexec : g.space.isExecutable address = true) :
    ∃ i ∈ g.code.codeSegments.values, IntervalVector.Covers i address := by
  obtain ⟨range, hrange, hin⟩ := h.wf.isExecutable_iff.1 hexec
  obtain ⟨i, hi, rfl⟩ := ((h.sound hquiet).ranges range).1 hrange
  exact ⟨i, hi, hin⟩

theorem Inv.step (h : g.Inv) (hspares : g.SparesNeighbours action) (hs : g.step host action = some g') : g'.Inv := by
  obtain ⟨henabled, hexec⟩ := enabled_toOption_eq_some.1 hs
  cases action with
  | call call =>
    obtain ⟨space, hspace, hexec⟩ := bind_eq_ok.1 hexec
    obtain rfl := Except.ok.inj hexec
    have hspace := verified_post.of_ok hspace
    obtain ⟨log, hlog, hfollows⟩ := AddressSpace.step_reports call h.wf hspace
    refine ⟨AddressSpace.step_wf call h.wf hspace, g.space.executableRanges, ?_, h.sound henabled⟩
    rw [hlog, List.drop_left]
    exact hfollows
  | notify =>
    obtain ⟨known, hfollows, hsound⟩ := h.code
    cases hpending : g.pending with
    | nil => exact absurd hpending henabled
    | cons n pending =>
      rw [hpending] at hfollows
      unfold exec at hexec
      rw [hpending] at hexec
      obtain ⟨code, hcode, hexec⟩ := bind_eq_ok.1 hexec
      obtain rfl := Except.ok.inj hexec
      have hspared : ∀ range, n.lost = some range → g.code.Spares range := fun range hrange =>
        hspares n (by rw [hpending]; rfl) range hrange
      exact ⟨h.wf, _, hfollows.2, (hsound.hear hfollows.1 hspared).of_ok hcode⟩
  | fetchSegment block =>
    obtain ⟨⟨ptr, code⟩, hcode, hexec⟩ := bind_eq_ok.1 hexec
    obtain rfl := Except.ok.inj hexec
    refine ⟨h.wf, g.space.executableRanges, ?_, (((h.sound henabled).fetch block (h.covered henabled)).of_ok hcode).1⟩
    show Follows _ g.pending _
    rw [show g.pending = [] from henabled]
    rfl
  | run action =>
    obtain ⟨cache, hcache, hexec⟩ := bind_eq_ok.1 hexec
    obtain rfl := Except.ok.inj hexec
    obtain ⟨known, hfollows, hsound⟩ := h.code
    exact ⟨h.wf, known, hfollows, hsound.run ((CodeCache.exec_agree henabled.2.1).of_ok hcache)⟩

theorem reachableUnder_inv (h : (machine host).ReachableUnder SparesNeighbours g) : g.Inv := by
  refine h.invariant Inv ?_ fun g action g' _ hinv hspares hs => hinv.step hspares hs
  rintro _ ⟨virtualMemoryInMB, memory, jitChainingEnabled, rfl⟩
  refine ⟨AddressSpace.empty_wf virtualMemoryInMB memory, fun _ => False, ?_, ?_⟩
  · show AddressSpace.executableRanges _ = _
    funext range
    simp [AddressSpace.executableRanges, initial, AddressSpace.empty]
  · refine ⟨⟨.nil, ?_⟩, ?_, ?_, ?_, ?_, ?_, ?_, ?_⟩
    all_goals simp [initial, CodeCache.initial, AddressMap.empty, Heap.Live, Heap.get?_empty]

/-- The map and the intervals refer to the segments that exist and to no others, every executable page is reserved, every segment
begins at an executable address, and a fetch gives a segment at its address exactly where the address is executable. -/
structure Coherent (g : GuestCode) : Prop where
  found : ∀ ptr, ptr ∈ g.code.cache.codeSegmentsByAddress.targets ↔ g.code.cache.segments.Live ptr
  owned : ∀ ptr, (∃ t ∈ g.code.codeSegments.items, t.ptr = ptr) ↔ g.code.cache.segments.Live ptr
  reserved : ∀ page, g.space.executablePages page = true →
    ∃ i ∈ g.code.codeSegments.values, i.start ≤ page * PAGE_SIZE ∧ (page + 1) * PAGE_SIZE ≤ i.end_
  executable : ∀ ptr s, g.code.cache.segments.get? ptr = some s → g.space.isExecutable s.start = true
  fetches : ∀ block, g.space.isExecutable block.start = true → ∃ r, g.code.fetchSegment g.space block = .ok r
  fetched : ∀ block ptr code, g.code.fetchSegment g.space block = .ok (ptr, code) →
    g.space.isExecutable block.start = true ∧ ∃ s, code.cache.segments.get? ptr = some s ∧ s.start = block.start

/-- What an interval owns is a segment that begins at an executable address. -/
theorem Inv.executable (h : g.Inv) {code : ProcessCode} (hsound : code.Sound g.space.executableRanges)
    {ptr address : Nat} (howns : code.Owns ptr address) :
    g.space.isExecutable address = true ∧ ∃ s, code.cache.segments.get? ptr = some s ∧ s.start = address := by
  obtain ⟨i, hi, t, ht, rfl, rfl⟩ := howns
  obtain ⟨j, hj, hcovers, -⟩ := hsound.placed i hi t ht
  obtain ⟨s, hs, hblock⟩ := Option.map_eq_some_iff.1 (hsound.owned i hi t ht).1
  exact ⟨h.wf.isExecutable_iff.2 ⟨_, (hsound.ranges _).2 ⟨j, hj, rfl⟩, hcovers⟩, s, hs, congrArg BasicBlock.start hblock⟩

/-- In every run in which no range is lost next to another one, the process is coherent between two calls. -/
theorem code_coherent (h : (machine host).ReachableUnder SparesNeighbours g) (hquiet : g.pending = []) : g.Coherent := by
  have hinv := reachableUnder_inv h
  have hsound := hinv.sound hquiet
  have hlive : ∀ ptr, (∃ t ∈ g.code.codeSegments.items, t.ptr = ptr) ↔ g.code.cache.segments.Live ptr := by
    intro ptr
    constructor
    · rintro ⟨t, ht, rfl⟩
      obtain ⟨i, hi, ht⟩ := List.mem_flatMap.1 ht
      obtain ⟨s, hs, -⟩ := Option.map_eq_some_iff.1 (hsound.owned i hi t ht).1
      exact ⟨s, hs⟩
    · intro hptr
      obtain ⟨i, hi, t, ht, heq⟩ := hsound.live ptr hptr
      exact ⟨t, List.mem_flatMap.2 ⟨i, hi, ht⟩, heq⟩
  refine ⟨fun ptr => ?_, hlive, fun page hpage => ?_, fun ptr s hs => ?_, fun block hexec => ?_, fun block ptr code hcode => ?_⟩
  · rw [← hlive, AddressMap.mem_targets]
    constructor
    · rintro ⟨address, he⟩
      obtain ⟨i, hi, t, ht, heq⟩ := hsound.listed _ he
      exact ⟨t, List.mem_flatMap.2 ⟨i, hi, ht⟩, (Prod.mk.inj heq).2⟩
    · rintro ⟨t, ht, rfl⟩
      obtain ⟨i, hi, ht⟩ := List.mem_flatMap.1 ht
      exact ⟨t.block.start, AddressMap.mem_of_find (hsound.owned i hi t ht).2⟩
  · obtain ⟨r, hr, he, hcovers⟩ := AddressSpace.executablePages_eq_true.1 hpage
    obtain ⟨i, hi, heq⟩ := (hsound.ranges (r.base, r.top)).1 ⟨r, hr, he, rfl⟩
    obtain ⟨hstart, hend⟩ := Prod.mk.inj heq
    have hsize := hinv.wf.sound r hr
    have hbase := hsize.base_aligned
    have htop := hsize.size_aligned
    refine ⟨i, hi, ?_⟩
    rw [hstart, hend]
    simp only [MmuRegion.Covers, MmuRegion.top, PAGE_SIZE] at hcovers hbase htop ⊢
    omega
  · obtain ⟨i, hi, t, ht, rfl⟩ := hsound.live ptr ⟨s, hs⟩
    obtain ⟨hexec, s', hs', hstart⟩ := hinv.executable hsound ⟨i, hi, t, ht, rfl, rfl⟩
    obtain rfl := Option.some.inj (hs'.symm.trans hs)
    exact hstart ▸ hexec
  · have hfetch := hsound.fetch block (hinv.covered hquiet)
    cases hcode : g.code.fetchSegment g.space block with
    | ok r => exact ⟨r, rfl⟩
    | error failure => exact absurd hexec (hfetch.of_error hcode)
  · obtain ⟨hsound', howns⟩ := (hsound.fetch block (hinv.covered hquiet)).of_ok hcode
    exact hinv.executable hsound' howns

/-- A region of a page is mapped with the right to execute. -/
def mapCode (address : UInt64) : List GuestAction :=
  [.call (.mmap address 0x1000 ⟨true, false, true⟩ ⟨true, true⟩), .notify]

/-- Two regions apart from each other are executed, and one of them is unmapped. -/
def apartRun : List GuestAction :=
  mapCode 0x10000 ++ [.fetchSegment ⟨0x10000, 0x10010, false, false⟩] ++ mapCode 0x20000 ++
    [.fetchSegment ⟨0x20000, 0x20010, false, false⟩, .call (.munmap 0x10000 0x1000), .notify]

theorem code_coherent_apart : ∃ g,
    ((machine lenientHost).checked SparesNeighbours).run (initial 1 (fun _ => 0) true) apartRun = some g ∧ g.Coherent := by
  have hrun : (((machine lenientHost).checked SparesNeighbours).run (initial 1 (fun _ => 0) true) apartRun).map (·.pending) =
      some [] := by decide
  obtain ⟨g, hg, hquiet⟩ := Option.map_eq_some_iff.1 hrun
  have hstart : (machine lenientHost).ReachableUnder SparesNeighbours (initial 1 (fun _ => 0) true) := .init ⟨_, _, _, rfl⟩
  exact ⟨g, hg, code_coherent (hstart.run_checked _ hg) hquiet⟩

/-- A region of two pages, the first of which loses the right to execute. -/
def halfRun : List GuestAction :=
  [.call (.mmap 0x10000 0x2000 ⟨true, false, true⟩ ⟨true, true⟩), .notify, .call (.mprotect 0x10000 0x1000 Prot.READ_WRITE),
    .notify, .notify, .notify, .notify]

/-- The second page is still executable, but its interval is gone. -/
theorem code_coherent_fails : ¬ ∀ g, (machine lenientHost).Reachable g → g.pending = [] → g.Coherent := by
  intro h
  have hrun : ((machine lenientHost).run (initial 1 (fun _ => 0) true) halfRun).map (fun g =>
      (g.pending, g.space.executablePages 17, g.code.codeSegments.values)) = some ([], true, []) := by decide
  obtain ⟨g, hg, hview⟩ := Option.map_eq_some_iff.1 hrun
  obtain ⟨hquiet, hview⟩ := Prod.mk.inj hview
  obtain ⟨hpage, hvalues⟩ := Prod.mk.inj hview
  obtain ⟨i, hi, -⟩ := (h g (Machine.Reachable.run _ (.init ⟨_, _, _, rfl⟩) hg) hquiet).reserved 17 hpage
  rw [hvalues] at hi
  cases hi

end GuestCode

end X64Emulator
