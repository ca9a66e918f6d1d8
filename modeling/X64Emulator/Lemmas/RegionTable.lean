import X64Emulator.Mmu

/-!
# The two tables of an address space

The region list and the lookup table say the same thing twice. `Wf` is what they agree on: the regions are sound and in order,
and a page of the lookup table holds a pointer exactly when the region with that pointer covers the page. Each operation has
one lemma that says what it does to a well-formed space, and one that says when it succeeds.
-/

namespace X64Emulator

theorem PAGE_SIZE_eq : PAGE_SIZE = 4096 := rfl

/-- The host lets every part of the reserved range that is made of whole pages take any protection. -/
def Host.Grants (host : Host) (limit : Nat) : Prop :=
  ∀ base size prot, base % PAGE_SIZE = 0 → size % PAGE_SIZE = 0 → base + size ≤ limit →
    host.tryProtectVirtualMemoryRange base size prot = true

/-- A host that refuses nothing. -/
def lenientHost : Host := ⟨fun _ _ _ => true⟩

theorem lenientHost_grants (limit : Nat) : lenientHost.Grants limit := fun _ _ _ _ _ _ => rfl

namespace MmuRegion

/-- The first address past a region, as a number that does not wrap. -/
def top (r : MmuRegion) : Nat := r.base + r.size

/-- The region holds the first byte of a page. -/
def Covers (r : MmuRegion) (page : Nat) : Prop := r.base ≤ page * PAGE_SIZE ∧ page * PAGE_SIZE < r.top

instance (r : MmuRegion) (page : Nat) : Decidable (r.Covers page) := inferInstanceAs (Decidable (_ ∧ _))

/-- A region of whole pages inside a range that begins at zero. -/
structure Sound (limit : Nat) (r : MmuRegion) : Prop where
  nonempty : 0 < r.size
  base_aligned : r.base % PAGE_SIZE = 0
  size_aligned : r.size % PAGE_SIZE = 0
  top_le : r.top ≤ limit

/-- A region as it is once it is part of an address space. -/
def settled (r : MmuRegion) : MmuRegion := { r with requiresMemsetToZero := false, activated := true }

variable {limit : Nat} {r : MmuRegion}

/-- Soundness is about the place of a region only. -/
theorem Sound.congr {q : MmuRegion} (h : r.Sound limit) (hb : q.base = r.base) (hs : q.size = r.size) :
    q.Sound limit :=
  ⟨hs ▸ h.nonempty, hb ▸ h.base_aligned, hs ▸ h.size_aligned, by rw [top, hb, hs]; exact h.top_le⟩

theorem Sound.lt (h : r.Sound limit) : r.base < r.top := by
  have := h.nonempty
  simp only [top]
  omega

theorem Sound.end_eq (h : r.Sound limit) (hl : limit < 2 ^ 64) : r.end_ = r.top :=
  u64_of_lt (Nat.lt_of_le_of_lt h.top_le hl)

/-- Two sound regions that share an address share a page. -/
theorem Sound.covers_of_shared {q : MmuRegion} (hr : r.Sound limit) (hq : q.Sound limit)
    (h : ¬ (q.top ≤ r.base ∨ r.top ≤ q.base)) : ∃ page, r.Covers page ∧ q.Covers page := by
  have h1 := hr.base_aligned
  have h2 := hq.base_aligned
  have h3 := hr.lt
  have h4 := hq.lt
  simp only [PAGE_SIZE_eq] at h1 h2
  refine ⟨max r.base q.base / PAGE_SIZE, ?_, ?_⟩ <;> simp only [Covers, PAGE_SIZE_eq] <;> omega

theorem Sound.covers_iff (h : r.Sound limit) (page : Nat) :
    r.Covers page ↔ r.base / PAGE_SIZE ≤ page ∧ page < r.top / PAGE_SIZE := by
  have h1 := h.base_aligned
  have h2 := h.size_aligned
  simp only [Covers, top, PAGE_SIZE_eq] at *
  omega

/-- A sound region holds an address exactly when it covers the address's page. -/
theorem Sound.covers_page (h : r.Sound limit) (address : Nat) :
    r.Covers (address / PAGE_SIZE) ↔ r.base ≤ address ∧ address < r.top := by
  have h1 := h.base_aligned
  have h2 := h.size_aligned
  simp only [Covers, top, PAGE_SIZE_eq] at *
  omega

end MmuRegion

namespace AddressSpace

open MmuRegion

theorem memorySize_lt (s : AddressSpace) : s.memorySize < 2 ^ 64 := by
  have := s.virtualMemoryInMB.toNat_lt
  simp only [memorySize]
  omega

/-- The reserved range is far from the end of the addresses. -/
theorem memorySize_small (s : AddressSpace) : s.memorySize < 2 ^ 53 := by
  have := s.virtualMemoryInMB.toNat_lt
  simp only [memorySize]
  omega

/-- The pointer the lookup table holds for a page. -/
def pageOwner (s : AddressSpace) (page : Nat) : Option Nat := s.regionLookup[page]?.join

/-- The tables of an address space are consistent. -/
structure Wf (s : AddressSpace) : Prop where
  sound : ∀ r ∈ s.regions, r.Sound s.memorySize
  ordered : Ranges.Ordered MmuRegion.base top s.regions
  ptr_inj : ∀ r ∈ s.regions, ∀ q ∈ s.regions, r.ptr = q.ptr → r = q
  ptr_lt : ∀ r ∈ s.regions, r.ptr < s.nextRegion
  owner : ∀ page ptr, s.pageOwner page = some ptr ↔ ∃ r ∈ s.regions, r.ptr = ptr ∧ r.Covers page
  first : s.firstUnlookupdableAddress = s.regionLookup.length * PAGE_SIZE
  settled : ∀ r ∈ s.regions, r.settled = r

/-- A region that may join the table: its pointer is taken from the counter and no region of the table has it. -/
def Fresh (s : AddressSpace) (r : MmuRegion) : Prop := r.ptr < s.nextRegion ∧ ∀ q ∈ s.regions, q.ptr ≠ r.ptr

/-- No region of the table shares an address with this one. -/
def Apart (s : AddressSpace) (r : MmuRegion) : Prop := ∀ q ∈ s.regions, q.top ≤ r.base ∨ r.top ≤ q.base

variable {s s' : AddressSpace} {r : MmuRegion}

theorem Wf.end_eq (h : s.Wf) (hr : r ∈ s.regions) : r.end_ = r.top :=
  (h.sound r hr).end_eq s.memorySize_lt

/-- The tables stay consistent when every region keeps its place and its pointer. -/
theorem Wf.map_regions (h : s.Wf) (f : MmuRegion → MmuRegion)
    (hf : ∀ r ∈ s.regions, (f r).ptr = r.ptr ∧ (f r).base = r.base ∧ (f r).size = r.size ∧ (f r).settled = f r)
    (hr : s'.regions = s.regions.map f) (hl : s'.regionLookup = s.regionLookup)
    (h1 : s'.firstUnlookupdableAddress = s.firstUnlookupdableAddress)
    (hm : s'.virtualMemoryInMB = s.virtualMemoryInMB) (hn : s'.nextRegion = s.nextRegion) : s'.Wf := by
  have htop : ∀ r ∈ s.regions, (f r).top = r.top := by
    intro r hr
    simp only [top, (hf r hr).2.1, (hf r hr).2.2.1]
  refine ⟨?_, ?_, ?_, ?_, ?_, by rw [h1, hl, h.first], ?_⟩
  · intro q hq
    obtain ⟨r, hrs, rfl⟩ := List.mem_map.1 (hr ▸ hq)
    obtain ⟨_, hb, hs, _⟩ := hf r hrs
    rw [memorySize, hm]
    exact (h.sound r hrs).congr hb hs
  · rw [hr, Ranges.Ordered, List.pairwise_map]
    refine List.Pairwise.imp_of_mem ?_ h.ordered
    intro a b ha hb hab
    rw [htop a ha, (hf b hb).2.1]
    exact hab
  · intro r1 hr1 r2 hr2 he
    obtain ⟨q1, hq1, rfl⟩ := List.mem_map.1 (hr ▸ hr1)
    obtain ⟨q2, hq2, rfl⟩ := List.mem_map.1 (hr ▸ hr2)
    rw [h.ptr_inj q1 hq1 q2 hq2 (by rw [← (hf q1 hq1).1, ← (hf q2 hq2).1, he])]
  · intro q hq
    obtain ⟨r, hrs, rfl⟩ := List.mem_map.1 (hr ▸ hq)
    rw [(hf r hrs).1, hn]
    exact h.ptr_lt r hrs
  · intro page ptr
    have howner : s'.pageOwner page = s.pageOwner page := by rw [pageOwner, pageOwner, hl]
    rw [howner, h.owner, hr]
    constructor
    · rintro ⟨r, hrs, rfl, hc⟩
      refine ⟨f r, List.mem_map_of_mem hrs, (hf r hrs).1, ?_⟩
      simpa only [Covers, htop r hrs, (hf r hrs).2.1] using hc
    · rintro ⟨q, hq, rfl, hc⟩
      obtain ⟨r, hrs, rfl⟩ := List.mem_map.1 hq
      refine ⟨r, hrs, (hf r hrs).1.symm, ?_⟩
      simpa only [Covers, htop r hrs, (hf r hrs).2.1] using hc
  · intro q hq
    obtain ⟨r, hrs, rfl⟩ := List.mem_map.1 (hr ▸ hq)
    exact (hf r hrs).2.2.2

/-- Nothing of `Wf` speaks of the memory, of the notifications or of how far the counter has run ahead. -/
theorem Wf.congr (h : s.Wf) (hr : s'.regions = s.regions) (hl : s'.regionLookup = s.regionLookup)
    (h1 : s'.firstUnlookupdableAddress = s.firstUnlookupdableAddress)
    (hm : s'.virtualMemoryInMB = s.virtualMemoryInMB) (hn : s.nextRegion ≤ s'.nextRegion) : s'.Wf := by
  have hsize : s'.memorySize = s.memorySize := by rw [memorySize, memorySize, hm]
  refine ⟨?_, ?_, ?_, ?_, ?_, by rw [h1, hl, h.first], ?_⟩ <;> rw [hr]
  · rw [hsize]
    exact h.sound
  · exact h.ordered
  · exact h.ptr_inj
  · exact fun r hrs => Nat.lt_of_lt_of_le (h.ptr_lt r hrs) hn
  · intro page ptr
    rw [pageOwner, hl]
    exact h.owner page ptr
  · exact h.settled

theorem empty_wf (mb : UInt32) (memory : Memory) : (empty mb memory).Wf := by
  refine ⟨?_, List.Pairwise.nil, ?_, ?_, ?_, ?_, ?_⟩ <;> simp [empty, pageOwner]

/-! ## Finding regions -/

theorem Wf.regionAt (h : s.Wf) (hr : r ∈ s.regions) : s.regionAt r.ptr = some r := by
  obtain ⟨q, hq⟩ : ∃ q, s.regions.find? (fun q => q.ptr = r.ptr) = some q := by
    rw [← Option.isSome_iff_exists, List.find?_isSome]
    exact ⟨r, hr, by simp⟩
  have hptr := List.find?_some hq
  have hmem := List.mem_of_find?_eq_some hq
  rw [AddressSpace.regionAt, hq, h.ptr_inj q hmem r hr (by simpa using hptr)]

/-- The lookup of an address finds the region that holds it, and nothing when there is none. -/
theorem Wf.findAddress_eq_some (h : s.Wf) {address : Nat} :
    s.findAddress address = some r ↔ r ∈ s.regions ∧ r.base ≤ address ∧ address < r.top := by
  have hfirst : ∀ q ∈ s.regions, q.Covers (address / PAGE_SIZE) → address < s.firstUnlookupdableAddress := by
    intro q hq hc
    have ho : s.pageOwner (address / PAGE_SIZE) = some q.ptr := (h.owner _ _).2 ⟨q, hq, rfl, hc⟩
    have hlt : address / PAGE_SIZE < s.regionLookup.length := by
      by_contra hge
      rw [pageOwner, List.getElem?_eq_none (by omega)] at ho
      cases ho
    rw [h.first]
    simp only [PAGE_SIZE_eq] at hlt ⊢
    omega
  constructor
  · intro hf
    unfold findAddress at hf
    split at hf
    · cases hf
    · obtain ⟨ptr, hptr, hr⟩ := Option.bind_eq_some_iff.1 hf
      obtain ⟨q, hq, rfl, hc⟩ := (h.owner _ _).1 hptr
      rw [h.regionAt hq, Option.some.injEq] at hr
      subst hr
      exact ⟨hq, ((h.sound q hq).covers_page address).1 hc⟩
  · rintro ⟨hr, ha⟩
    have hc := ((h.sound r hr).covers_page address).2 ha
    have ho : s.regionLookup[address / PAGE_SIZE]?.join = some r.ptr := (h.owner _ _).2 ⟨r, hr, rfl, hc⟩
    have := hfirst r hr hc
    rw [findAddress, if_neg (by omega), ho, Option.bind_some, h.regionAt hr]

theorem Wf.findAddress_eq_none (h : s.Wf) {address : Nat} :
    s.findAddress address = none ↔ ∀ r ∈ s.regions, ¬ (r.base ≤ address ∧ address < r.top) := by
  constructor
  · intro hn r hr ha
    rw [h.findAddress_eq_some.2 ⟨hr, ha⟩] at hn
    cases hn
  · intro hall
    rw [Option.eq_none_iff_forall_ne_some]
    intro r hr
    obtain ⟨hmem, ha⟩ := h.findAddress_eq_some.1 hr
    exact hall r hmem ha

theorem Wf.top_aligned (h : s.Wf) (hr : r ∈ s.regions) : r.top % PAGE_SIZE = 0 := by
  have h1 := (h.sound r hr).base_aligned
  have h2 := (h.sound r hr).size_aligned
  simp only [top, PAGE_SIZE_eq] at *
  omega

/-- Two regions of a well-formed space that share an address are the same region. -/
theorem Wf.eq_of_shared (h : s.Wf) {q : MmuRegion} (hr : r ∈ s.regions) (hq : q ∈ s.regions)
    {a : Nat} (h1 : r.base ≤ a ∧ a < r.top) (h2 : q.base ≤ a ∧ a < q.top) : r = q :=
  h.ordered.eq_of_shared hr hq h1 h2

/-! ## The lookup table -/

theorem fillRegionLookup_eq_some (h : s.fillRegionLookup r = some s') :
    r.base % PAGE_SIZE = 0 ∧ r.end_ % PAGE_SIZE = 0 ∧ r.base / PAGE_SIZE < r.end_ / PAGE_SIZE ∧
      (∀ page, r.base / PAGE_SIZE ≤ page → page < r.end_ / PAGE_SIZE → s.pageOwner page = none) ∧
      ∃ lookup first, lookup.length = max s.regionLookup.length (r.end_ / PAGE_SIZE) ∧
        (s.firstUnlookupdableAddress = s.regionLookup.length * PAGE_SIZE → first = lookup.length * PAGE_SIZE) ∧
        (∀ page, lookup[page]?.join =
          if r.base / PAGE_SIZE ≤ page ∧ page < r.end_ / PAGE_SIZE then some r.ptr else s.pageOwner page) ∧
        s' = { s with regionLookup := lookup, firstUnlookupdableAddress := first } := by
  simp only [fillRegionLookup, Option.bind_eq_bind, Option.bind_eq_some_iff, verify_eq_some, exists_const,
    Option.some.injEq] at h
  obtain ⟨hb, he, hlt, lookup, hfold, rfl⟩ := h
  obtain ⟨hlen, hall, hget⟩ := Cells.foldlM_write_eq_some (by simp) hfold
  rw [Nat.add_sub_cancel' (Nat.le_of_lt hlt)] at hall hget
  -- a page past the end of the old table is as empty as one that was in it
  have hresize : ∀ page, (s.regionLookup ++ List.replicate (r.end_ / PAGE_SIZE - s.regionLookup.length) none)[page]?.join =
      s.pageOwner page := by
    intro page
    rw [pageOwner]
    by_cases hp : page < s.regionLookup.length
    · rw [List.getElem?_append_left hp]
    · rw [List.getElem?_append_right (by omega), List.getElem?_replicate, List.getElem?_eq_none (l := s.regionLookup) (by omega)]
      split <;> rfl
  have hlen : lookup.length = max s.regionLookup.length (r.end_ / PAGE_SIZE) := by
    rw [hlen, List.length_append, List.length_replicate]
    omega
  refine ⟨hb, he, hlt, ?_, lookup, _, hlen, ?_, ?_, rfl⟩
  · intro page h1 h2
    rw [← hresize page, hall page h1 h2]
    rfl
  · intro hfirst
    rw [hlen]
    split
    · rw [Nat.max_eq_right (by omega)]
    · rw [Nat.max_eq_left (by omega), hfirst]
  · intro page
    rw [hget page]
    split
    · rfl
    · exact hresize page

theorem fillRegionLookup_isSome (hb : r.base % PAGE_SIZE = 0)
    (he : r.end_ % PAGE_SIZE = 0) (hlt : r.base / PAGE_SIZE < r.end_ / PAGE_SIZE)
    (hfree : ∀ page, r.base / PAGE_SIZE ≤ page → page < r.end_ / PAGE_SIZE → s.pageOwner page = none) :
    ∃ s', s.fillRegionLookup r = some s' := by
  obtain ⟨lookup, hfold⟩ : ∃ lookup, (List.range' (r.base / PAGE_SIZE) (r.end_ / PAGE_SIZE - r.base / PAGE_SIZE)).foldlM
      (fillPage r.ptr) (s.regionLookup ++ List.replicate (r.end_ / PAGE_SIZE - s.regionLookup.length) none) =
        some lookup := by
    refine Cells.foldlM_write_isSome fun page h1 h2 => ?_
    have hnone := hfree page h1 (by omega)
    rw [pageOwner] at hnone
    by_cases hp : page < s.regionLookup.length
    · rw [List.getElem?_append_left hp]
      rw [List.getElem?_eq_getElem hp] at hnone ⊢
      simpa using hnone
    · rw [List.getElem?_append_right (by omega), List.getElem?_replicate, if_pos (by omega)]
  simp only [fillRegionLookup, verify_of (c := isPageAligned r.base) hb, verify_of (c := isPageAligned r.end_) he,
    verify_of hlt, Option.bind_eq_bind, Option.bind_some, hfold]
  exact ⟨_, rfl⟩

theorem invalidateRegionLookup_eq_some (h : s.invalidateRegionLookup r = some s') :
    ∃ lookup, lookup.length = s.regionLookup.length ∧
      (∀ page, lookup[page]?.join =
        if r.base / PAGE_SIZE ≤ page ∧ page < r.end_ / PAGE_SIZE then none else s.pageOwner page) ∧
      s' = { s with regionLookup := lookup } := by
  simp only [invalidateRegionLookup, Option.bind_eq_bind, Option.bind_eq_some_iff, verify_eq_some, exists_const,
    Option.some.injEq] at h
  obtain ⟨_, _, hlt, _, lookup, hfold, rfl⟩ := h
  obtain ⟨hlen, _, hget⟩ := Cells.foldlM_write_eq_some (by simp) hfold
  rw [Nat.add_sub_cancel' (Nat.le_of_lt hlt)] at hget
  refine ⟨lookup, hlen, fun page => ?_, rfl⟩
  rw [hget page]
  split <;> rfl

theorem Wf.invalidateRegionLookup_isSome (h : s.Wf) (hr : r ∈ s.regions) :
    ∃ s', s.invalidateRegionLookup r = some s' := by
  have hsound := h.sound r hr
  have hb := hsound.base_aligned
  have hs := hsound.size_aligned
  have hne := hsound.nonempty
  have he := h.end_eq hr
  have halign : r.end_ % PAGE_SIZE = 0 := by
    rw [he, top]
    simp only [PAGE_SIZE_eq] at hb hs ⊢
    omega
  have hlt : r.base / PAGE_SIZE < r.end_ / PAGE_SIZE := by
    rw [he, top]
    simp only [PAGE_SIZE_eq] at hb hs ⊢
    omega
  -- the last page of the region is in the table, for the table holds its pointer there
  have hlast : r.end_ / PAGE_SIZE ≤ s.regionLookup.length := by
    have hc : r.Covers (r.end_ / PAGE_SIZE - 1) := by
      rw [hsound.covers_iff, ← he]
      exact ⟨Nat.le_sub_one_of_lt hlt, Nat.sub_one_lt (Nat.ne_zero_of_lt hlt)⟩
    have ho : s.pageOwner (r.end_ / PAGE_SIZE - 1) = some r.ptr := (h.owner _ _).2 ⟨r, hr, rfl, hc⟩
    by_contra hge
    rw [pageOwner, List.getElem?_eq_none (by omega)] at ho
    cases ho
  obtain ⟨lookup, hfold⟩ : ∃ lookup, (List.range' (r.base / PAGE_SIZE) (r.end_ / PAGE_SIZE - r.base / PAGE_SIZE)).foldlM
      clearPage s.regionLookup = some lookup := by
    refine Cells.foldlM_write_isSome fun page h1 h2 => ?_
    rw [List.getElem?_eq_getElem (by omega)]
    rfl
  simp only [invalidateRegionLookup, verify_of (c := isPageAligned r.base) hb,
    verify_of (c := isPageAligned r.end_) halign, verify_of hlt, verify_of hlast, Option.bind_eq_bind, Option.bind_some,
    hfold]
  exact ⟨_, rfl⟩

/-! ## Adding and taking a region -/

theorem applyRegionProtection_eq_some {host : Host} {r' : MmuRegion} {prot : Prot} {memory memory' : Memory}
    (h : applyRegionProtection host r prot memory = some (r', memory')) :
    r' = { r with requiresMemsetToZero := false } ∧
      memory' = if r.requiresMemsetToZero then memsetZero memory r.base r.size else memory := by
  unfold applyRegionProtection at h
  split at h
  · next hz =>
    simp only [Option.bind_eq_bind, Option.bind_eq_some_iff, verify_eq_some, exists_const, Option.some.injEq,
      Prod.mk.injEq] at h
    obtain ⟨_, _, rfl, rfl⟩ := h
    exact ⟨rfl, by rw [if_pos hz]⟩
  · next hz =>
    simp only [Option.bind_eq_bind, Option.bind_eq_some_iff, verify_eq_some, exists_const, Option.some.injEq,
      Prod.mk.injEq] at h
    obtain ⟨_, rfl, rfl⟩ := h
    refine ⟨?_, by rw [if_neg hz]⟩
    rw [Bool.not_eq_true] at hz
    cases r
    simp_all

/-- What `addRegion` leaves behind when it succeeds. -/
structure Added (s : AddressSpace) (r : MmuRegion) (s' : AddressSpace) : Prop where
  sound : r.Sound s.memorySize
  apart : s.Apart r
  wf : s'.Wf
  regions : s'.regions = Ranges.insert MmuRegion.base r.settled s.regions
  memory : s'.memory = if r.requiresMemsetToZero then memsetZero s.memory r.base r.size else s.memory
  virtualMemoryInMB : s'.virtualMemoryInMB = s.virtualMemoryInMB
  topOfReserved : s'.topOfReserved = s.topOfReserved
  nextRegion : s'.nextRegion = s.nextRegion
  notifications : s'.notifications = s.notifications ++ [.onRegionCreation r.base r.size r.prot]

/-- A region whose lookup could be filled does not wrap, and none of its pages had a region. -/
theorem Wf.sound_apart_of_fill {s1 : AddressSpace} (h : s.Wf) (hb : r.base < 2 ^ 64)
    (hs : r.size < 2 ^ 64) (he : r.end_ ≤ s.memorySize) (hf : s.fillRegionLookup r = some s1) :
    r.Sound s.memorySize ∧ s.Apart r := by
  obtain ⟨hba, hea, hlt, hfree, -⟩ := fillRegionLookup_eq_some hf
  have hsound : r.Sound s.memorySize := by
    simp only [end_, u64, PAGE_SIZE_eq] at hba hea hlt he
    refine ⟨by omega, hba, ?_, ?_⟩ <;> simp only [top, PAGE_SIZE_eq] <;> omega
  refine ⟨hsound, fun q hq => ?_⟩
  by_contra hmeet
  obtain ⟨page, hr, hc⟩ := hsound.covers_of_shared (h.sound q hq) hmeet
  have hend := hsound.end_eq s.memorySize_lt
  obtain ⟨h1, h2⟩ := (hsound.covers_iff page).1 hr
  have hnone := hfree page h1 (hend ▸ h2)
  rw [(h.owner page q.ptr).2 ⟨q, hq, rfl, hc⟩] at hnone
  cases hnone

/-- The tables stay consistent when a region joins the list and its pages take its pointer. -/
theorem Wf.of_insert (h : s.Wf) (hf : s.Fresh r) (hsound : r.Sound s.memorySize)
    (hapart : s.Apart r) (hregions : s'.regions = Ranges.insert MmuRegion.base r.settled s.regions)
    (howner : ∀ page, s'.pageOwner page =
      if r.base / PAGE_SIZE ≤ page ∧ page < r.end_ / PAGE_SIZE then some r.ptr else s.pageOwner page)
    (hfirst : s'.firstUnlookupdableAddress = s'.regionLookup.length * PAGE_SIZE)
    (hm : s'.virtualMemoryInMB = s.virtualMemoryInMB) (hn : s'.nextRegion = s.nextRegion) : s'.Wf := by
  have hsize : s'.memorySize = s.memorySize := by rw [memorySize, memorySize, hm]
  have hmem : ∀ q, q ∈ s'.regions ↔ q = r.settled ∨ q ∈ s.regions := by
    intro q
    rw [hregions]
    exact Ranges.mem_insert
  have hsettled : r.settled.Sound s.memorySize := hsound.congr rfl rfl
  refine ⟨?_, ?_, ?_, ?_, ?_, hfirst, ?_⟩
  · intro q hq
    rw [hsize]
    rcases (hmem q).1 hq with rfl | hq
    · exact hsettled
    · exact h.sound q hq
  · rw [hregions]
    exact h.ordered.insert (fun q hq => (h.sound q hq).lt) hsettled.lt hapart
  · intro q hq q' hq' hptr
    rcases (hmem q).1 hq with rfl | hq <;> rcases (hmem q').1 hq' with rfl | hq'
    · rfl
    · exact absurd hptr.symm (hf.2 q' hq')
    · exact absurd hptr (hf.2 q hq)
    · exact h.ptr_inj q hq q' hq' hptr
  · intro q hq
    rw [hn]
    rcases (hmem q).1 hq with rfl | hq
    · exact hf.1
    · exact h.ptr_lt q hq
  · intro page ptr
    have hcovers : r.settled.Covers page ↔ r.base / PAGE_SIZE ≤ page ∧ page < r.end_ / PAGE_SIZE := by
      rw [hsound.end_eq s.memorySize_lt]
      exact hsettled.covers_iff page
    rw [howner]
    split
    · next hin =>
      rw [Option.some.injEq]
      constructor
      · rintro rfl
        exact ⟨r.settled, (hmem _).2 (Or.inl rfl), rfl, hcovers.2 hin⟩
      · rintro ⟨q, hq, rfl, hc⟩
        rcases (hmem q).1 hq with rfl | hq
        · rfl
        · -- an old region cannot cover a page of the new one
          have hap := hapart q hq
          have hr : r.Covers page := hcovers.2 hin
          simp only [Covers] at hc hr
          omega
    · next hout =>
      refine Iff.trans (h.owner page ptr) ⟨?_, ?_⟩
      · rintro ⟨q, hq, hptr, hc⟩
        exact ⟨q, (hmem q).2 (Or.inr hq), hptr, hc⟩
      · rintro ⟨q, hq, hptr, hc⟩
        rcases (hmem q).1 hq with rfl | hq
        · exact absurd (hcovers.1 hc) hout
        · exact ⟨q, hq, hptr, hc⟩
  · intro q hq
    rcases (hmem q).1 hq with rfl | hq
    · rfl
    · exact h.settled q hq

theorem Wf.addRegion {host : Host} (h : s.Wf) (hf : s.Fresh r)
    (hb : r.base < 2 ^ 64) (hs : r.size < 2 ^ 64) (he : r.end_ ≤ s.memorySize)
    (ha : s.addRegion host r = some s') : s.Added r s' := by
  simp only [AddressSpace.addRegion, Option.bind_eq_bind, Option.bind_eq_some_iff, verify_eq_some, exists_const,
    Option.some.injEq, Prod.exists] at ha
  obtain ⟨-, s1, hfill, r1, memory, happly, rfl⟩ := ha
  have hwf : (s.notify (.onRegionCreation r.base r.size r.prot)).Wf := h.congr rfl rfl rfl rfl (Nat.le_refl _)
  obtain ⟨hsound, hapart⟩ := hwf.sound_apart_of_fill hb hs he hfill
  obtain ⟨-, -, -, -, lookup, first, -, hfirst, hlookup, rfl⟩ := fillRegionLookup_eq_some hfill
  obtain ⟨rfl, rfl⟩ := applyRegionProtection_eq_some happly
  refine ⟨hsound, hapart, ?_, rfl, rfl, rfl, rfl, rfl, rfl⟩
  exact h.of_insert hf hsound hapart rfl hlookup (hfirst h.first) rfl rfl

theorem Wf.addRegion_isSome {host : Host} (h : s.Wf) (hr : r.Sound s.memorySize)
    (ha : s.Apart r) (hg : host.Grants s.memorySize) : ∃ s', s.addRegion host r = some s' := by
  have hend := hr.end_eq s.memorySize_lt
  have hlt := hr.lt
  have hba := hr.base_aligned
  have hsa := hr.size_aligned
  have hsize := s.memorySize_lt
  have htop := hr.top_le
  have hno : ∀ q ∈ s.regions, ¬ q.contains r.base ∧ ¬ q.contains (sub64 r.end_ 1) := by
    intro q hq
    have := ha q hq
    have hqlt := (h.sound q hq).lt
    have hlast : sub64 r.top 1 = r.top - 1 := by
      simp only [sub64, u64]
      omega
    simp only [contains, h.end_eq hq, hend, hlast, Bool.and_eq_true, decide_eq_true_iff]
    omega
  have hea : r.end_ % PAGE_SIZE = 0 := by
    rw [hend, top]
    simp only [PAGE_SIZE_eq] at hba hsa ⊢
    omega
  have hpages : r.base / PAGE_SIZE < r.end_ / PAGE_SIZE := by
    rw [hend]
    simp only [top, PAGE_SIZE_eq] at hba hsa hlt ⊢
    omega
  obtain ⟨s1, hfill⟩ : ∃ s1, (s.notify (.onRegionCreation r.base r.size r.prot)).fillRegionLookup r = some s1 := by
    refine fillRegionLookup_isSome hba hea hpages fun page h1 h2 => ?_
    rw [Option.eq_none_iff_forall_ne_some]
    intro ptr hptr
    obtain ⟨q, hq, -, hc⟩ := (h.owner page ptr).1 hptr
    have hrc : r.Covers page := (hr.covers_iff page).2 ⟨h1, hend ▸ h2⟩
    have := ha q hq
    simp only [Covers] at hc hrc
    omega
  have hgrant : ∀ prot, host.tryProtectVirtualMemoryRange r.base r.size prot = true :=
    fun prot => hg r.base r.size prot hba hsa htop
  simp only [AddressSpace.addRegion, verify_of hno, Option.bind_eq_bind, Option.bind_some, hfill, applyRegionProtection]
  split <;> simp only [verify_of (hgrant _), Option.bind_some] <;> exact ⟨_, rfl⟩

/-- What `takeRegion` leaves behind when it takes the region `r` out of the tables. -/
structure Taken (s : AddressSpace) (r : MmuRegion) (s' : AddressSpace) : Prop where
  wf : s'.Wf
  mem_regions : ∀ q, q ∈ s'.regions ↔ q ∈ s.regions ∧ q ≠ r
  memory : s'.memory = s.memory
  virtualMemoryInMB : s'.virtualMemoryInMB = s.virtualMemoryInMB
  topOfReserved : s'.topOfReserved = s.topOfReserved
  nextRegion : s'.nextRegion = s.nextRegion
  notifications : s'.notifications = s.notifications ++ [.onRegionDestruction r.base r.size r.prot]

theorem Wf.takeRegion {host : Host} (h : s.Wf) {isMatch : MmuRegion → Bool} {r' : MmuRegion}
    (ht : s.takeRegion host isMatch = some (r', s')) :
    ∃ r ∈ s.regions, s.regions.find? isMatch = some r ∧ r' = { r with activated := false } ∧ s.Taken r s' := by
  simp only [AddressSpace.takeRegion, Option.bind_eq_bind, Option.bind_eq_some_iff, Option.some.injEq, Prod.exists,
    Prod.mk.injEq] at ht
  obtain ⟨r, hfind, r1, memory, happly, s1, hinv, rfl, rfl⟩ := ht
  have hr := List.mem_of_find?_eq_some hfind
  obtain ⟨hr1, hmemory⟩ := applyRegionProtection_eq_some happly
  -- a region of the table has been zeroed before
  have hzero : r.requiresMemsetToZero = false := by rw [← h.settled r hr]; rfl
  have hr1 : r1 = r := by
    rw [hr1]
    cases r
    simp_all
  subst hr1
  rw [hzero] at hmemory
  simp only [Bool.false_eq_true, if_false] at hmemory
  subst hmemory
  obtain ⟨lookup, hlen, hlookup, rfl⟩ := invalidateRegionLookup_eq_some hinv
  have hsound := h.sound r1 hr
  have hmem : ∀ q, q ∈ s.regions.filter (fun q => q.ptr ≠ r1.ptr) ↔ q ∈ s.regions ∧ q ≠ r1 := by
    intro q
    rw [List.mem_filter, decide_eq_true_iff]
    refine and_congr_right fun hq => not_congr ⟨h.ptr_inj q hq r1 hr, ?_⟩
    rintro rfl
    rfl
  refine ⟨r1, hr, hfind, rfl, ?_, hmem, rfl, rfl, rfl, rfl, rfl⟩
  refine ⟨?_, ?_, ?_, ?_, ?_, ?_, ?_⟩
  · exact fun q hq => h.sound q ((hmem q).1 hq).1
  · exact h.ordered.filter _
  · exact fun q hq q' hq' => h.ptr_inj q ((hmem q).1 hq).1 q' ((hmem q').1 hq').1
  · exact fun q hq => h.ptr_lt q ((hmem q).1 hq).1
  · intro page ptr
    have hcovers := hsound.covers_iff page
    rw [← h.end_eq hr] at hcovers
    simp only [pageOwner, notify, hlookup]
    split
    · next hin =>
      simp only [reduceCtorEq, false_iff, not_exists, not_and]
      intro q hq _ hc
      obtain ⟨hq, hne⟩ := (hmem q).1 hq
      have hrc := hcovers.2 hin
      exact hne (h.ordered.eq_of_shared hq hr hc hrc)
    · next hout =>
      refine Iff.trans (h.owner page ptr) ⟨?_, ?_⟩
      · rintro ⟨q, hq, hptr, hc⟩
        refine ⟨q, (hmem q).2 ⟨hq, ?_⟩, hptr, hc⟩
        rintro rfl
        exact hout (hcovers.1 hc)
      · rintro ⟨q, hq, hptr, hc⟩
        exact ⟨q, ((hmem q).1 hq).1, hptr, hc⟩
  · simp only [notify, hlen]
    exact h.first
  · exact fun q hq => h.settled q ((hmem q).1 hq).1

theorem Wf.takeRegion_isSome {host : Host} (h : s.Wf) {isMatch : MmuRegion → Bool}
    (hfind : s.regions.find? isMatch = some r) (hg : host.Grants s.memorySize) :
    ∃ s', s.takeRegion host isMatch = some ({ r with activated := false }, s') := by
  have hr := List.mem_of_find?_eq_some hfind
  have hsound := h.sound r hr
  have hzero : r.requiresMemsetToZero = false := by rw [← h.settled r hr]; rfl
  obtain ⟨s1, hinv⟩ := h.invalidateRegionLookup_isSome hr
  have hgrant := hg r.base r.size (toHostProtection Prot.NONE) hsound.base_aligned hsound.size_aligned hsound.top_le
  simp only [AddressSpace.takeRegion, hfind, applyRegionProtection, hzero, Bool.false_eq_true, if_false,
    verify_of hgrant, Option.bind_eq_bind, Option.bind_some, hinv]
  exact ⟨_, rfl⟩

/-- A region of the table is the first one with its base and its size. -/
theorem Wf.find_at (h : s.Wf) (hr : r ∈ s.regions) :
    s.regions.find? (fun q => q.base = r.base && q.size = r.size) = some r := by
  obtain ⟨q, hq⟩ : ∃ q, s.regions.find? (fun q => q.base = r.base && q.size = r.size) = some q := by
    rw [← Option.isSome_iff_exists, List.find?_isSome]
    exact ⟨r, hr, by simp⟩
  have hmem := List.mem_of_find?_eq_some hq
  have hbase := List.find?_some hq
  simp only [Bool.and_eq_true, decide_eq_true_iff] at hbase
  have h1 := (h.sound q hmem).lt
  have h2 := (h.sound r hr).lt
  rw [hq, h.eq_of_shared hmem hr ⟨Nat.le_refl _, h1⟩ (by omega)]

end AddressSpace

end X64Emulator
