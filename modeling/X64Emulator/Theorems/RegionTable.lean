import X64Emulator.Lemmas.RegionCalls

/-!
# The region list and the lookup table agree

Whatever calls an address space has served, its regions are whole pages in order, and its lookup table is their page index.
-/

namespace X64Emulator

namespace AddressSpace

open MmuRegion

/-- The two representations of what is mapped, as a user of the address space relies on them. -/
structure Consistent (s : AddressSpace) : Prop where
  /-- sorted by base, and none begins before the one before it ends -/
  sorted : s.regions.Pairwise (fun r q => r.base < q.base ∧ r.base + r.size ≤ q.base)
  nonempty : ∀ r ∈ s.regions, 0 < r.size
  aligned : ∀ r ∈ s.regions, isPageAligned r.base ∧ isPageAligned r.size
  inside : ∀ r ∈ s.regions, r.base + r.size ≤ s.memorySize
  /-- a pointer of the table is the pointer of one region -/
  pointer : ∀ r ∈ s.regions, s.regionAt r.ptr = some r
  /-- an entry of the table is the region that contains the page, null when there is none -/
  entry : ∀ page < s.regionLookup.length,
    s.regionLookup[page]? = some ((s.regions.find? (fun r => r.Covers page)).map (·.ptr))
  limit : s.firstUnlookupdableAddress = s.regionLookup.length * PAGE_SIZE
  beyond : ∀ r ∈ s.regions, r.base + r.size ≤ s.firstUnlookupdableAddress

theorem Wf.entry_eq {s : AddressSpace} (h : s.Wf) (page : Nat) :
    s.pageOwner page = (s.regions.find? (fun r => r.Covers page)).map (·.ptr) := by
  cases hf : s.regions.find? (fun r => r.Covers page) with
  | none =>
    rw [Option.map_none, Option.eq_none_iff_forall_ne_some]
    intro ptr hptr
    obtain ⟨r, hr, -, hc⟩ := (h.owner page ptr).1 hptr
    have := List.find?_eq_none.1 hf r hr
    simp [hc] at this
  | some r =>
    have hc := List.find?_some hf
    exact (h.owner page r.ptr).2 ⟨r, List.mem_of_find?_eq_some hf, rfl, by simpa using hc⟩

theorem Wf.top_le_first {s : AddressSpace} (h : s.Wf) {r : MmuRegion} (hr : r ∈ s.regions) :
    r.top ≤ s.firstUnlookupdableAddress := by
  have hsound := h.sound r hr
  have hlt := hsound.lt
  -- the last byte of the region can be looked up
  have hfind := h.findAddress_eq_some.2 ⟨hr, (by omega : r.base ≤ r.top - 1), by omega⟩
  unfold findAddress at hfind
  split at hfind
  · cases hfind
  · omega

/-- The tables of every address space that any calls lead to are consistent. -/
theorem regions_consistent (host : Host) {s : AddressSpace} (h : (machine host).Reachable s) : s.Consistent := by
  have hw := reachable_wf h
  refine ⟨?_, fun r hr => (hw.sound r hr).nonempty, fun r hr => ⟨(hw.sound r hr).base_aligned, (hw.sound r hr).size_aligned⟩,
    fun r hr => (hw.sound r hr).top_le, fun r hr => hw.regionAt hr, ?_, hw.first, fun r hr => hw.top_le_first hr⟩
  · refine List.Pairwise.imp_of_mem ?_ hw.ordered
    intro r q hr _ hle
    have := (hw.sound r hr).lt
    exact ⟨by omega, hle⟩
  · intro page hpage
    have hentry := hw.entry_eq page
    rw [pageOwner, List.getElem?_eq_getElem hpage, Option.join_some] at hentry
    rw [List.getElem?_eq_getElem hpage, hentry]

/-- Regions apart, one of them cut in two by a change of protection, and the heap grown. -/
def sampleCalls : List MmuCall :=
  [.ensureNullPage, .mmap 0x10000 0x4000 Prot.READ_WRITE ⟨true, false⟩, .mprotect 0x11000 0x1000 ⟨true, false, true⟩,
    .munmap 0x13000 0x1000, .mmap 0 0x1000 Prot.READ_WRITE ⟨false, false⟩, .setRegionName 0x13000 "heap", .brk 0x15800]

theorem regions_consistent_sample : ∃ s, (machine lenientHost).run (empty 1 (fun _ => 0)) sampleCalls = some s ∧
    s.Consistent := by
  obtain ⟨s, hs⟩ : ∃ s, (machine lenientHost).run (empty 1 (fun _ => 0)) sampleCalls = some s :=
    Option.isSome_iff_exists.1 (by decide)
  exact ⟨s, hs, regions_consistent lenientHost (Machine.Reachable.run sampleCalls (Machine.Reachable.init ⟨_, _, rfl⟩) hs)⟩

end AddressSpace

end X64Emulator
