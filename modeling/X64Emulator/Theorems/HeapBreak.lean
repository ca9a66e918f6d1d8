import X64Emulator.Lemmas.RegionPages

/-!
# Moving the break

`brk` should leave the break where it is when the request cannot be satisfied, and else let the heap end at the request. It
refuses a request that another region holds, and a verification fails where the heap would be empty, where it would end below
its base, and where the heap that grows is not readable and writable.
-/

namespace X64Emulator

namespace AddressSpace

open MmuRegion

/-- The request can be satisfied: it is not below the heap or above the memory, and the heap would meet no other region. -/
def CanEndAt (s : AddressSpace) (heap : MmuRegion) (address : Nat) : Prop :=
  heap.base ≤ address ∧ address ≤ s.memorySize ∧
    ∀ r ∈ s.regions, r ≠ heap → r.top ≤ heap.base ∨ roundedLength address ≤ r.base

/-- The space after the heap moved its end: the other regions and their bytes stay, and what joins the heap is zero. -/
structure EndsAt (s : AddressSpace) (heap : MmuRegion) (end_ result : Nat) (s' : AddressSpace) : Prop where
  result_eq : result = end_
  found : s'.findRegion "heap" = some { heap with size := end_ - heap.base }
  regions : ∀ r, r ∈ s'.regions ↔ r = { heap with size := end_ - heap.base } ∨ r ∈ s.regions ∧ r ≠ heap
  apart : ∀ r ∈ s.regions, r ≠ heap → r.top ≤ heap.base ∨ end_ ≤ r.base
  kept : ∀ a, a < heap.top ∨ end_ ≤ a → s'.memory a = s.memory a
  zero : ∀ a, heap.top ≤ a → a < end_ → s'.memory a = 0

/-- What a call of `brk` should do. -/
def BrkSpec (s : AddressSpace) (heap : MmuRegion) (address result : Nat) (s' : AddressSpace) : Prop :=
  (s.CanEndAt heap address → s.EndsAt heap (roundedLength address) result s') ∧
    (¬ s.CanEndAt heap address → result = heap.end_ ∧ s' = s)

/-! ## Finding the heap -/

variable {s : AddressSpace} {heap : MmuRegion} {address : Nat} {host : Host}

/-- A region is found by its name when no region before it has the name. -/
theorem Wf.findRegion_eq_some (h : s.Wf) {name : String} {r : MmuRegion} :
    s.findRegion name = some r ↔ r ∈ s.regions ∧ r.name = name ∧ ∀ q ∈ s.regions, q.base < r.base → q.name ≠ name := by
  constructor
  · intro hfind
    obtain ⟨hname, l₁, l₂, hl, hbefore⟩ := List.find?_eq_some_iff_append.1 hfind
    have hr : r ∈ s.regions := List.mem_of_find?_eq_some hfind
    refine ⟨hr, by simpa using hname, fun q hq hlt => ?_⟩
    have hord : (l₁ ++ r :: l₂).Pairwise (fun a b => a.top ≤ b.base) := hl ▸ h.ordered
    obtain ⟨-, hright, -⟩ := List.pairwise_append.1 hord
    have hafter := (List.pairwise_cons.1 hright).1
    rw [hl, List.mem_append, List.mem_cons] at hq
    rcases hq with hq | rfl | hq
    · simpa using hbefore q hq
    · omega
    · have h1 := hafter q hq
      have h2 := (h.sound r hr).lt
      omega
  · rintro ⟨hr, hname, hbefore⟩
    obtain ⟨q, hfind⟩ : ∃ q, s.findRegion name = some q := by
      rw [findRegion, ← Option.isSome_iff_exists, List.find?_isSome]
      exact ⟨r, hr, by simpa using hname⟩
    obtain ⟨hqname, l₁, l₂, hl, hfirst⟩ := List.find?_eq_some_iff_append.1 hfind
    have hq : q ∈ s.regions := List.mem_of_find?_eq_some hfind
    have hord : (l₁ ++ q :: l₂).Pairwise (fun a b => a.top ≤ b.base) := hl ▸ h.ordered
    obtain ⟨-, hright, -⟩ := List.pairwise_append.1 hord
    have hafter := (List.pairwise_cons.1 hright).1
    have hr' := hr
    rw [hl, List.mem_append, List.mem_cons] at hr'
    rcases hr' with hr' | rfl | hr'
    · have := hfirst r hr'
      simp [hname] at this
    · exact hfind
    · have h1 := hafter r hr'
      have h2 := (h.sound q hq).lt
      exact absurd (by simpa using hqname) (hbefore q hq (by omega))

/-! ## Refusals -/

/-- `brk` leaves the break alone when it is already there, when the request is above the memory, inside another region, or
behind one that follows the heap. -/
theorem Wf.brkRefused_iff (h : s.Wf) (hheap : heap ∈ s.regions) :
    s.brkRefused heap address = true ↔ address = heap.top ∨ s.memorySize < address ∨
      (∃ r ∈ s.regions, r ≠ heap ∧ r.base ≤ address ∧ address < r.top) ∨
      ∃ r ∈ s.regions, r ≠ heap ∧ heap.top ≤ r.base ∧ r.top ≤ address := by
  have hptr : ∀ r ∈ s.regions, r.ptr ≠ heap.ptr ↔ r ≠ heap := by
    intro r hr
    refine not_congr ⟨h.ptr_inj r hr heap hheap, ?_⟩
    rintro rfl
    rfl
  have hother : (s.findAddress address).any (fun r => r.ptr ≠ heap.ptr) = true ↔
      ∃ r ∈ s.regions, r ≠ heap ∧ r.base ≤ address ∧ address < r.top := by
    rw [Option.any_eq_true]
    constructor
    · rintro ⟨r, hfind, hne⟩
      obtain ⟨hr, ha⟩ := h.findAddress_eq_some.1 hfind
      exact ⟨r, hr, (hptr r hr).1 (by simpa using hne), ha⟩
    · rintro ⟨r, hr, hne, ha⟩
      exact ⟨r, h.findAddress_eq_some.2 ⟨hr, ha⟩, by simpa using (hptr r hr).2 hne⟩
  have hbetween : s.regions.any (fun r => decide (r.ptr ≠ heap.ptr) && decide (heap.top ≤ r.base) &&
      decide (r.end_ ≤ address)) = true ↔ ∃ r ∈ s.regions, r ≠ heap ∧ heap.top ≤ r.base ∧ r.top ≤ address := by
    simp only [List.any_eq_true, Bool.and_eq_true, decide_eq_true_iff, and_assoc]
    refine exists_congr fun r => and_congr_right fun hr => ?_
    rw [hptr r hr, h.end_eq hr]
  simp only [brkRefused, h.end_eq hheap, Bool.or_eq_true, decide_eq_true_iff, hother, hbetween, or_assoc]

/-- The other regions lie before the heap or behind it. -/
theorem Wf.before_or_behind (h : s.Wf) (hheap : heap ∈ s.regions) :
    ∀ r ∈ s.regions, r ≠ heap → r.top ≤ heap.base ∨ heap.top ≤ r.base := by
  intro r hr hne
  have h1 := (h.sound r hr).lt
  have h2 := (h.sound heap hheap).lt
  by_contra hmeet
  exact hne (h.eq_of_shared (a := max r.base heap.base) hr hheap (by omega) (by omega))

/-- Past the break a request is not refused exactly when it can be satisfied and no region begins there. -/
theorem Wf.not_refused_iff (h : s.Wf) (hheap : heap ∈ s.regions) (hpast : heap.top < address) :
    ¬ s.brkRefused heap address = true ↔ s.CanEndAt heap address ∧ ∀ r ∈ s.regions, r.base ≠ address := by
  have hlt := (h.sound heap hheap).lt
  rw [h.brkRefused_iff hheap]
  constructor
  · intro hfree
    push Not at hfree
    obtain ⟨-, hle, hnot, hbetween⟩ := hfree
    have hother : ∀ r ∈ s.regions, r ≠ heap → r.top ≤ heap.base ∨ address < r.base := by
      intro r hr hne
      rcases h.before_or_behind hheap r hr hne with h1 | h1
      · exact Or.inl h1
      · by_contra hmeet
        have h2 := hnot r hr hne (by omega)
        have h3 := hbetween r hr hne h1
        omega
    refine ⟨⟨by omega, hle, ?_⟩, ?_⟩
    · intro r hr hne
      rcases hother r hr hne with h1 | h1
      · exact Or.inl h1
      · have hb := (h.sound r hr).base_aligned
        simp only [roundedLength, PAGE_SIZE_eq] at hb ⊢
        omega
    · intro r hr heq
      by_cases hne : r = heap
      · subst hne
        omega
      · have hrlt := (h.sound r hr).lt
        rcases hother r hr hne with h1 | h1 <;> omega
  · rintro ⟨⟨-, hle, hfree⟩, hbegin⟩
    have hround : address ≤ roundedLength address := by
      simp only [roundedLength, PAGE_SIZE_eq]
      omega
    rintro (heq | hgt | ⟨r, hr, hne, ha⟩ | ⟨r, hr, hne, ha⟩)
    · omega
    · omega
    · have := hbegin r hr
      rcases hfree r hr hne with h1 | h1 <;> omega
    · have hrlt := (h.sound r hr).lt
      rcases hfree r hr hne with h1 | h1 <;> omega

/-! ## Shrinking and growing -/

/-- The heap comes back with another size where it was: it is found again, beside the regions there were. -/
theorem Wf.resized {s1 s4 s' : AddressSpace} (h : s.Wf) (hfind : s.findRegion "heap" = some heap)
    (htaken : s.Taken heap s1) (h4 : ∀ r, r ∈ s4.regions ↔ r ∈ s1.regions) {size : Nat}
    (hadded : s4.Added { heap with size := size, activated := false } s') :
    s'.findRegion "heap" = some { heap with size := size } ∧
      (∀ r, r ∈ s'.regions ↔ r = { heap with size := size } ∨ r ∈ s.regions ∧ r ≠ heap) ∧
      (∀ r ∈ s.regions, r ≠ heap → r.top ≤ heap.base ∨ heap.base + size ≤ r.base) ∧ s'.memory = s4.memory := by
  obtain ⟨hheap, hname, hfirst⟩ := h.findRegion_eq_some.1 hfind
  have hset := h.settled heap hheap
  have hzero : heap.requiresMemsetToZero = false := by rw [← hset]; rfl
  have hsettled : ({ heap with size := size, activated := false } : MmuRegion).settled = { heap with size := size } := by
    rw [← hset]
    rfl
  have hregions : ∀ r, r ∈ s'.regions ↔ r = { heap with size := size } ∨ r ∈ s.regions ∧ r ≠ heap := by
    intro r
    rw [hadded.mem_regions, hsettled, h4, htaken.mem_regions]
  refine ⟨?_, hregions, ?_, ?_⟩
  · rw [hadded.wf.findRegion_eq_some]
    refine ⟨(hregions _).2 (Or.inl rfl), hname, fun q hq hlt => ?_⟩
    rcases (hregions q).1 hq with rfl | ⟨hq, -⟩
    · exact absurd hlt (Nat.lt_irrefl _)
    · exact hfirst q hq hlt
  · intro r hr hne
    exact hadded.apart r ((h4 r).2 ((htaken.mem_regions r).2 ⟨hr, hne⟩))
  · rw [hadded.memory, hzero]
    rfl

/-- The size the heap gets below its end. -/
theorem shrunk_size {base size : Nat} (hb : base % PAGE_SIZE = 0) (h1 : base < address)
    (h2 : address < base + size) (hlim : base + size < 2 ^ 53) :
    pageRoundUp (sub64 (u64 (size + address)) (base + size)) = roundedLength address - base := by
  have hdiff : sub64 (u64 (size + address)) (base + size) = address - base := by
    simp only [sub64, u64]
    omega
  rw [hdiff]
  simp only [pageRoundUp, roundedLength, u64, PAGE_SIZE_eq] at hb ⊢
  omega

/-- At its base or below it the heap would be empty, or wrap around. -/
theorem shrunk_size_of_le {base : Nat} (size : Nat) (h1 : address ≤ base)
    (hlim : base + size < 2 ^ 53) : pageRoundUp (sub64 (u64 (size + address)) (base + size)) = 0 ∨
      2 ^ 53 ≤ pageRoundUp (sub64 (u64 (size + address)) (base + size)) := by
  by_cases heq : address = base
  · left
    have hdiff : sub64 (u64 (size + address)) (base + size) = 0 := by
      simp only [sub64, u64]
      omega
    rw [hdiff]
    rfl
  · have hdiff : sub64 (u64 (size + address)) (base + size) = 2 ^ 64 - (base - address) := by
      simp only [sub64, u64]
      omega
    rw [hdiff]
    simp only [pageRoundUp, u64, PAGE_SIZE_eq]
    omega

/-- Below its end and above its base the heap shrinks to the request. -/
theorem Wf.brkShrink_isSome (h : s.Wf) (hg : host.Grants s.memorySize)
    (hfind : s.findRegion "heap" = some heap) (h1 : heap.base < address) (h2 : address < heap.top) :
    ∃ result s', s.brkShrink host address = some (result, s') := by
  have hheap := (h.findRegion_eq_some.1 hfind).1
  have hsound := h.sound heap hheap
  have hb := hsound.base_aligned
  have hs := hsound.size_aligned
  have htop := hsound.top_le
  have hsmall := s.memorySize_small
  obtain ⟨s1, htake⟩ := h.takeRegion_isSome hfind hg
  obtain ⟨heap', -, hfind', -, htaken⟩ := h.takeRegion htake
  have heq : heap' = heap := Option.some.inj (hfind'.symm.trans hfind)
  subst heq
  have hsize : pageRoundUp (sub64 (u64 (heap'.size + address)) (heap'.base + heap'.size)) =
      roundedLength address - heap'.base :=
    shrunk_size hb h1 h2 (by simp only [top] at htop; omega)
  have hr : MmuRegion.Sound s1.memorySize
      { heap' with size := roundedLength address - heap'.base, activated := false } := by
    rw [htaken.memorySize]
    refine ⟨?_, hb, ?_, ?_⟩ <;> simp only [top, roundedLength, PAGE_SIZE_eq] at * <;> omega
  have hapart : s1.Apart { heap' with size := roundedLength address - heap'.base, activated := false } := by
    intro q hq
    obtain ⟨hq, hne⟩ := (htaken.mem_regions q).1 hq
    have := h.before_or_behind hheap q hq hne
    simp only [top, roundedLength, PAGE_SIZE_eq] at *
    omega
  obtain ⟨s', hadd⟩ := htaken.wf.addRegion_isSome hr hapart (by rw [htaken.memorySize]; exact hg)
  have hend : ({ heap' with activated := false } : MmuRegion).end_ = heap'.base + heap'.size :=
    h.end_eq (r := heap') hheap
  refine ⟨u64 (heap'.base + (roundedLength address - heap'.base)), s', ?_⟩
  simp only [AddressSpace.brkShrink, takeRegionNamed, htake, setEnd, hend, hsize, verify_of, Option.bind_eq_bind,
    Option.bind_some, hadd]
  rfl

theorem Wf.brkShrink_endsAt {s' : AddressSpace} (h : s.Wf)
    (hfind : s.findRegion "heap" = some heap) {result : Nat} (h1 : heap.base < address) (h2 : address < heap.top)
    (hb : s.brkShrink host address = some (result, s')) : s.EndsAt heap (roundedLength address) result s' := by
  have hheap := (h.findRegion_eq_some.1 hfind).1
  have hsound := h.sound heap hheap
  have htop := hsound.top_le
  have halign := hsound.base_aligned
  have hsalign := hsound.size_aligned
  have hsmall := s.memorySize_small
  have hend := h.end_eq hheap
  obtain ⟨heap', -, hfind', s1, htaken, hadded, hresult⟩ := h.brkShrink_stations (fun q hq => by
    rw [hfind, Option.some.injEq] at hq
    rw [← hq, hend]
    exact h2) hb
  have heq : heap' = heap := Option.some.inj (hfind'.symm.trans hfind)
  subst heq
  have hsize : pageRoundUp (sub64 (u64 (heap'.size + address)) heap'.end_) = roundedLength address - heap'.base := by
    rw [hend]
    exact shrunk_size halign h1 h2 (by simp only [top] at htop; omega)
  rw [hsize] at hadded hresult
  have hge : heap'.base < roundedLength address ∧ roundedLength address ≤ heap'.top := by
    simp only [roundedLength, top, PAGE_SIZE_eq] at *
    omega
  have hback : heap'.base + (roundedLength address - heap'.base) = roundedLength address := by omega
  obtain ⟨hfound, hregions, hapart, hmemory⟩ := h.resized hfind htaken (fun _ => Iff.rfl) hadded
  refine ⟨?_, hfound, hregions, ?_, ?_, ?_⟩
  · rw [hresult, hback]
    exact u64_of_lt (by omega)
  · rw [hback] at hapart
    exact hapart
  · intro a _
    rw [hmemory, htaken.memory]
  · intro a ha1 ha2
    omega

/-- At its base or below it the heap cannot end. -/
theorem Wf.brkShrink_eq_none (h : s.Wf)
    (hfind : s.findRegion "heap" = some heap) (hle : address ≤ heap.base) :
    s.brkShrink host address = none := by
  rw [Option.eq_none_iff_forall_ne_some]
  rintro ⟨result, s'⟩ hb
  have hheap := (h.findRegion_eq_some.1 hfind).1
  have hsound := h.sound heap hheap
  have hlt := hsound.lt
  have htop := hsound.top_le
  have hsmall := s.memorySize_small
  have hend := h.end_eq hheap
  obtain ⟨heap', -, hfind', s1, htaken, hadded, -⟩ := h.brkShrink_stations (fun q hq => by
    rw [hfind, Option.some.injEq] at hq
    rw [← hq, hend]
    omega) hb
  have heq : heap' = heap := Option.some.inj (hfind'.symm.trans hfind)
  subst heq
  have hnonempty := hadded.sound.nonempty
  have hinside := hadded.sound.top_le
  rw [htaken.memorySize] at hinside
  have hsize := shrunk_size_of_le heap'.size hle (by simp only [top] at htop; omega)
  rw [hend] at hnonempty hinside
  simp only [top] at hnonempty hinside hsize
  omega

/-- The extension of a heap that grows to a request inside the memory is what is missing to the request. -/
theorem extension_size {top : Nat} (ht : top % PAGE_SIZE = 0) (h1 : top < address) (hlim : address < 2 ^ 53) :
    pageRoundUp (sub64 address top) = roundedLength address - top := by
  have hdiff : sub64 address top = address - top := by
    simp only [sub64, u64]
    omega
  rw [hdiff]
  simp only [pageRoundUp, roundedLength, u64, PAGE_SIZE_eq] at ht ⊢
  omega

theorem roundedLength_le_memorySize (h : address ≤ s.memorySize) : roundedLength address ≤ s.memorySize := by
  simp only [roundedLength, memorySize, PAGE_SIZE_eq] at *
  omega

/-- What the stations of a heap that grows say of the sizes: the region that was taken back is the extension. -/
theorem Wf.brkGrow_spec {s' : AddressSpace} (h : s.Wf)
    (hfind : s.findRegion "heap" = some heap) {result : Nat} (hpast : heap.top < address)
    (hle : address ≤ s.memorySize) (hb : s.brkGrow host address = some (result, s')) :
    heap.prot = Prot.READ_WRITE ∧ s.EndsAt heap (roundedLength address) result s' := by
  have hheap := (h.findRegion_eq_some.1 hfind).1
  have hsmall := s.memorySize_small
  have hend := h.end_eq hheap
  have htop := h.top_aligned hheap
  have hround : address ≤ roundedLength address := by
    simp only [roundedLength, PAGE_SIZE_eq]
    omega
  have hrle := roundedLength_le_memorySize hle
  obtain ⟨heap', -, hfind', s1, s3, r, s4, htaken, hadded, hr, hrbase, hrprot, htaken', hadded', hresult⟩ :=
    h.brkGrow_stations hb
  have heq : heap' = heap := Option.some.inj (hfind'.symm.trans hfind)
  subst heq
  rw [hend, extension_size htop hpast (by omega)] at hadded
  -- the region with the base of the extension is the extension
  have hext : (s1.extensionAt heap'.top (roundedLength address - heap'.top)).settled ∈ s3.regions :=
    (hadded.mem_regions _).2 (Or.inl rfl)
  have hrext : r = (s1.extensionAt heap'.top (roundedLength address - heap'.top)).settled := by
    refine hadded.wf.eq_of_shared (a := heap'.top) hr hext ?_ ?_
    · have := (hadded.wf.sound r hr).lt
      omega
    · have := (hadded.wf.sound _ hext).lt
      exact ⟨Nat.le_refl _, this⟩
  have hlt := (h.sound heap' hheap).lt
  have hsize : u64 (heap'.size + r.size) = roundedLength address - heap'.base := by
    have hrs : r.size = roundedLength address - heap'.top := by rw [hrext]; rfl
    rw [hrs]
    simp only [u64, top] at *
    omega
  have hback : heap'.base + (roundedLength address - heap'.base) = roundedLength address := by omega
  rw [hsize] at hadded' hresult
  have hsame : ∀ q, q ∈ s4.regions ↔ q ∈ s1.regions := by
    intro q
    rw [htaken'.mem_regions, hadded.mem_regions, hrext]
    constructor
    · rintro ⟨rfl | hq, hne⟩
      · exact absurd rfl hne
      · exact hq
    · intro hq
      refine ⟨Or.inr hq, ?_⟩
      rintro rfl
      have hptr : s1.nextRegion < s1.nextRegion := htaken.wf.ptr_lt _ hq
      exact absurd hptr (Nat.lt_irrefl _)
  obtain ⟨hfound, hregions, hapart, hmemory⟩ := h.resized hfind htaken hsame hadded'
  have hmem : s'.memory = memsetZero s.memory heap'.top (roundedLength address - heap'.top) := by
    rw [hmemory, htaken'.memory, hadded.memory, ← htaken.memory]
    rfl
  refine ⟨?_, ?_, hfound, hregions, ?_, ?_, ?_⟩
  · rw [← hrprot, hrext]
    rfl
  · rw [hresult, hback]
    exact u64_of_lt (by omega)
  · rw [hback] at hapart
    exact hapart
  · intro a ha
    rw [hmem, memsetZero, if_neg (by omega)]
  · intro a ha1 ha2
    rw [hmem, memsetZero, if_pos (by omega)]

/-- The calls of a heap that grows, one after the other. -/
theorem brkGrow_eq {s1 s2 s3 s4 s5 : AddressSpace} {heap' ext ext' : MmuRegion}
    (h1 : s.takeRegionNamed host "heap" = some (heap, s1))
    (h2 : s1.makeRegion heap.end_ (pageRoundUp (sub64 address heap.end_)) Prot.READ_WRITE = some (ext, s2))
    (h3 : s2.addRegion host { ext with requiresMemsetToZero := true } = some s3)
    (h4 : s3.takeRegionAt host heap.end_ (pageRoundUp (sub64 address heap.end_)) = some (ext', s4))
    (h5 : heap.append ext' = some heap') (h6 : s4.addRegion host heap' = some s5) :
    s.brkGrow host address = some (heap'.end_, s5) := by
  simp only [AddressSpace.brkGrow, Option.bind_eq_bind, Option.bind_eq_some_iff, Prod.exists]
  exact ⟨heap, s1, h1, ext, s2, h2, s3, h3, ext', s4, h4, heap', h5, s5, h6, rfl⟩

/-- A region without a name joins the end of one with its protection. -/
theorem append_eq_some {r region : MmuRegion} (hr : r.activated = false) (hb : region.base = r.end_)
    (hp : region.prot = r.prot) (hn : region.name = "") :
    r.append region = some { r with size := u64 (r.size + region.size) } := by
  have hname : region.name = r.name ∨ region.name = "" := Or.inr hn
  simp only [append, verify_of hr, verify_of hb, verify_of hp, verify_of hname, Option.bind_eq_bind, Option.bind_some]

/-- A heap that is readable and writable grows to a request that it can end at. -/
theorem Wf.brkGrow_isSome (h : s.Wf) (hg : host.Grants s.memorySize)
    (hfind : s.findRegion "heap" = some heap) (hpast : heap.top < address)
    (hcan : s.CanEndAt heap address) (hprot : heap.prot = Prot.READ_WRITE) :
    ∃ result s', s.brkGrow host address = some (result, s') := by
  obtain ⟨hheap, hname, -⟩ := h.findRegion_eq_some.1 hfind
  obtain ⟨-, hle, hfree⟩ := hcan
  have hsound := h.sound heap hheap
  have hbase := hsound.base_aligned
  have hlt := hsound.lt
  have htop := h.top_aligned hheap
  have hsmall := s.memorySize_small
  have hrle := roundedLength_le_memorySize hle
  have hround : address ≤ roundedLength address := by
    simp only [roundedLength, PAGE_SIZE_eq]
    omega
  have hral : roundedLength address % PAGE_SIZE = 0 := Nat.mul_mod_left _ _
  -- the heap leaves, and the extension joins
  obtain ⟨s1, htake⟩ := h.takeRegion_isSome hfind hg
  obtain ⟨heap', -, hfind', -, htaken⟩ := h.takeRegion htake
  have heq : heap' = heap := Option.some.inj (hfind'.symm.trans hfind)
  subst heq
  have hsize1 : s1.memorySize = s.memorySize := htaken.memorySize
  have hend : ({ heap' with activated := false } : MmuRegion).end_ = heap'.top := h.end_eq (r := heap') hheap
  have hext : pageRoundUp (sub64 address ({ heap' with activated := false } : MmuRegion).end_) =
      roundedLength address - heap'.top := by
    rw [hend]
    exact extension_size htop hpast (by omega)
  generalize hE : roundedLength address = newEnd at *
  have hfits : u64 (heap'.top + (newEnd - heap'.top)) ≤ s1.memorySize := by
    rw [hsize1, u64_of_lt (by omega)]
    omega
  have hextal : (newEnd - heap'.top) % PAGE_SIZE = 0 := by
    simp only [PAGE_SIZE_eq] at *
    omega
  let ext : MmuRegion := s1.extensionAt heap'.top (newEnd - heap'.top)
  have hmake : s1.makeRegion heap'.top (newEnd - heap'.top) Prot.READ_WRITE =
      some ({ ext with requiresMemsetToZero := false }, { s1 with nextRegion := s1.nextRegion + 1 }) := by
    simp only [AddressSpace.makeRegion, verify_of hfits, verify_of (c := isPageAligned heap'.top) htop,
      verify_of (c := isPageAligned (newEnd - heap'.top)) hextal, Option.bind_eq_bind, Option.bind_some]
    rfl
  obtain ⟨-, -, hwf2, hfresh2, -⟩ := htaken.wf.makeRegion hmake
  have hext2 : MmuRegion.Sound s1.memorySize ext := by
    rw [hsize1]
    refine ⟨?_, htop, hextal, ?_⟩
    · show 0 < newEnd - heap'.top
      omega
    · show heap'.top + (newEnd - heap'.top) ≤ s.memorySize
      omega
  have hapart2 : s1.Apart ext := by
    intro q hq
    obtain ⟨hq, hne⟩ := (htaken.mem_regions q).1 hq
    show q.top ≤ heap'.top ∨ heap'.top + (newEnd - heap'.top) ≤ q.base
    rcases hfree q hq hne with h1 | h1 <;> omega
  obtain ⟨s3, hadd⟩ := hwf2.addRegion_isSome hext2 hapart2 (by rw [← hsize1] at hg; exact hg)
  have hadded := hwf2.addRegion_sound (r := ext) hfresh2 hext2 hadd
  -- the extension leaves, and the heap joins with its new size
  have hmem : ext.settled ∈ s3.regions := (hadded.mem_regions _).2 (Or.inl rfl)
  have hsize3 : s3.memorySize = s.memorySize := hadded.memorySize.trans hsize1
  obtain ⟨s4, htake4⟩ := hadded.wf.takeRegion_isSome (hadded.wf.find_at hmem) (by rw [hsize3]; exact hg)
  obtain ⟨r4, -, hfind4, -, htaken4⟩ := hadded.wf.takeRegion htake4
  rw [hadded.wf.find_at hmem, Option.some.injEq] at hfind4
  subst hfind4
  have hsize4 : s4.memorySize = s.memorySize := htaken4.memorySize.trans hsize3
  have hsum : u64 (heap'.size + (newEnd - heap'.top)) = newEnd - heap'.base := by
    simp only [u64, top] at *
    omega
  have hr : MmuRegion.Sound s4.memorySize { heap' with size := newEnd - heap'.base, activated := false } := by
    rw [hsize4]
    refine ⟨?_, hbase, ?_, ?_⟩ <;> simp only [top, PAGE_SIZE_eq] at * <;> omega
  have hapart4 : s4.Apart { heap' with size := newEnd - heap'.base, activated := false } := by
    intro q hq
    obtain ⟨hq, hne⟩ := (htaken4.mem_regions q).1 hq
    rcases (hadded.mem_regions q).1 hq with rfl | hq
    · exact absurd rfl hne
    · obtain ⟨hq, hneh⟩ := (htaken.mem_regions q).1 hq
      show q.top ≤ heap'.base ∨ heap'.base + (newEnd - heap'.base) ≤ q.base
      rcases hfree q hq hneh with h1 | h1 <;> omega
  obtain ⟨s5, hadd5⟩ := htaken4.wf.addRegion_isSome hr hapart4 (by rw [hsize4]; exact hg)
  have happend : ({ heap' with activated := false } : MmuRegion).append { ext.settled with activated := false } =
      some { heap' with size := u64 (heap'.size + (newEnd - heap'.top)), activated := false } :=
    append_eq_some rfl hend.symm hprot.symm rfl
  rw [hsum] at happend
  refine ⟨_, s5, brkGrow_eq htake (by rw [hext, hend]; exact hmake) hadd ?_ happend hadd5⟩
  rw [hext, hend]
  exact htake4

/-! ## The call -/

theorem brk_eq (hfind : s.findRegion "heap" = some heap) (address : UInt64) : s.brk host address =
      if s.brkRefused heap address.toNat then some (heap.end_, s)
      else if heap.end_ < address.toNat then s.brkGrow host address.toNat else s.brkShrink host address.toNat := by
  rw [AddressSpace.brk, hfind]
  rfl

/-- Inside the heap the request can be satisfied, and the heap shrinks to it. -/
theorem Wf.brk_inside (h : s.Wf) (hg : host.Grants s.memorySize)
    (hfind : s.findRegion "heap" = some heap) {address : UInt64} (h1 : heap.base < address.toNat)
    (h2 : address.toNat ≤ heap.top) :
    ∃ result s', s.brk host address = some (result, s') ∧ s.BrkSpec heap address.toNat result s' := by
  have hheap := (h.findRegion_eq_some.1 hfind).1
  have htop := (h.sound heap hheap).top_le
  have htal := h.top_aligned hheap
  have hend := h.end_eq hheap
  have hcan : s.CanEndAt heap address.toNat := by
    refine ⟨Nat.le_of_lt h1, by omega, fun r hr hne => ?_⟩
    have := h.before_or_behind hheap r hr hne
    simp only [roundedLength, PAGE_SIZE_eq] at *
    omega
  by_cases heq : address.toNat = heap.top
  · have hrefused : s.brkRefused heap address.toNat = true := (h.brkRefused_iff hheap).2 (Or.inl heq)
    have hround : roundedLength address.toNat = heap.top := by
      rw [heq]
      simp only [roundedLength, PAGE_SIZE_eq] at *
      omega
    have hsame : ({ heap with size := heap.top - heap.base } : MmuRegion) = heap := by
      rw [show heap.top - heap.base = heap.size from Nat.add_sub_cancel_left ..]
    refine ⟨heap.end_, s, by rw [brk_eq hfind, if_pos hrefused], fun _ => ?_, fun hno => absurd hcan hno⟩
    rw [hround]
    refine ⟨hend, by rw [hsame]; exact hfind, ?_, h.before_or_behind hheap, fun _ _ => rfl, ?_⟩
    · intro r
      rw [hsame]
      constructor
      · intro hr
        by_cases hrh : r = heap
        · exact Or.inl hrh
        · exact Or.inr ⟨hr, hrh⟩
      · rintro (rfl | ⟨hr, -⟩)
        · exact hheap
        · exact hr
    · intro a ha1 ha2
      omega
  · have hlt : address.toNat < heap.top := by omega
    have hrefused : ¬ s.brkRefused heap address.toNat = true := by
      rw [h.brkRefused_iff hheap]
      rintro (h3 | h3 | ⟨r, hr, hne, ha⟩ | ⟨r, hr, hne, ha⟩)
      · exact heq h3
      · omega
      · rcases h.before_or_behind hheap r hr hne with h4 | h4 <;> omega
      · have := (h.sound r hr).lt
        omega
    obtain ⟨result, s', hcall⟩ := h.brkShrink_isSome hg hfind h1 hlt
    refine ⟨result, s', ?_, fun _ => h.brkShrink_endsAt hfind h1 hlt hcall, fun hno => absurd hcan hno⟩
    rw [brk_eq hfind, if_neg hrefused, if_neg (by omega), hcall]

/-- Below the heap a request is refused when another region holds it, and fails when none does. -/
theorem Wf.brk_below (h : s.Wf)
    (hfind : s.findRegion "heap" = some heap) {address : UInt64} (hle : address.toNat ≤ heap.base) :
    (∃ result s', s.brk host address = some (result, s') ∧ s.BrkSpec heap address.toNat result s') ↔
      address.toNat ≠ heap.base ∧ ∃ r ∈ s.regions, r.base ≤ address.toNat ∧ address.toNat < r.top := by
  have hheap := (h.findRegion_eq_some.1 hfind).1
  have htop := (h.sound heap hheap).top_le
  have hlt := (h.sound heap hheap).lt
  have hend := h.end_eq hheap
  have hrefused : s.brkRefused heap address.toNat = true ↔
      ∃ r ∈ s.regions, r ≠ heap ∧ r.base ≤ address.toNat ∧ address.toNat < r.top := by
    rw [h.brkRefused_iff hheap]
    constructor
    · rintro (h3 | h3 | h3 | ⟨r, hr, hne, ha⟩)
      · omega
      · omega
      · exact h3
      · have := (h.sound r hr).lt
        omega
    · intro h3
      exact Or.inr (Or.inr (Or.inl h3))
  constructor
  · rintro ⟨result, s', hcall, -⟩
    by_cases hr : s.brkRefused heap address.toNat = true
    · obtain ⟨r, hr, hne, ha⟩ := hrefused.1 hr
      refine ⟨fun heq => ?_, r, hr, ha⟩
      exact hne (h.eq_of_shared (a := address.toNat) hr hheap ha (by omega))
    · rw [brk_eq hfind, if_neg hr, if_neg (by omega), h.brkShrink_eq_none hfind hle] at hcall
      cases hcall
  · rintro ⟨hne, r, hr, ha⟩
    have hrh : r ≠ heap := by
      rintro rfl
      omega
    refine ⟨heap.end_, s, by rw [brk_eq hfind, if_pos (hrefused.2 ⟨r, hr, hrh, ha⟩)], ?_, fun _ => ⟨rfl, rfl⟩⟩
    rintro ⟨hge, -⟩
    omega

/-- Past the break a request that can be satisfied is, for a heap that is readable and writable and where no region begins at
the request; and one that cannot is refused. -/
theorem Wf.brk_past (h : s.Wf) (hg : host.Grants s.memorySize)
    (hfind : s.findRegion "heap" = some heap) {address : UInt64} (hpast : heap.top < address.toNat) :
    (∃ result s', s.brk host address = some (result, s') ∧ s.BrkSpec heap address.toNat result s') ↔
      (s.CanEndAt heap address.toNat →
        heap.prot = Prot.READ_WRITE ∧ ∀ r ∈ s.regions, r.base ≠ address.toNat) := by
  have hheap := (h.findRegion_eq_some.1 hfind).1
  have hend := h.end_eq hheap
  have hiff := h.not_refused_iff hheap hpast
  have hround : address.toNat ≤ roundedLength address.toNat := by
    simp only [roundedLength, PAGE_SIZE_eq]
    omega
  by_cases hr : s.brkRefused heap address.toNat = true
  · have hcall : s.brk host address = some (heap.end_, s) := by rw [brk_eq hfind, if_pos hr]
    constructor
    · rintro ⟨result, s', hcall', hspec, -⟩ hcan
      rw [hcall, Option.some.injEq, Prod.mk.injEq] at hcall'
      obtain ⟨rfl, rfl⟩ := hcall'
      have := (hspec hcan).result_eq
      omega
    · intro hcond
      refine ⟨heap.end_, s, hcall, fun hcan => ?_, fun _ => ⟨rfl, rfl⟩⟩
      exact absurd hr (hiff.2 ⟨hcan, (hcond hcan).2⟩)
  · obtain ⟨hcan, hbegin⟩ := hiff.1 hr
    have hcall : s.brk host address = s.brkGrow host address.toNat := by
      rw [brk_eq hfind, if_neg hr, if_pos (by omega)]
    rw [hcall]
    constructor
    · rintro ⟨result, s', hgrow, -⟩ -
      exact ⟨(h.brkGrow_spec hfind hpast hcan.2.1 hgrow).1, hbegin⟩
    · intro hcond
      obtain ⟨result, s', hgrow⟩ := h.brkGrow_isSome hg hfind hpast hcan (hcond hcan).1
      exact ⟨result, s', hgrow, fun _ => (h.brkGrow_spec hfind hpast hcan.2.1 hgrow).2, fun hno => absurd hcan hno⟩

/-- `brk` does what it should exactly when the request is not the base of the heap, one below it lies in another region, and
one past the break that the heap can end at finds the heap readable and writable and no region that begins there. -/
theorem brk_iff (host : Host) {s : AddressSpace} (h : (machine host).Reachable s) (hg : host.Grants s.memorySize)
    {heap : MmuRegion} (hfind : s.findRegion "heap" = some heap) (address : UInt64) :
    (∃ result s', s.brk host address = some (result, s') ∧ s.BrkSpec heap address.toNat result s') ↔
      address.toNat ≠ heap.base ∧
      (address.toNat < heap.base → ∃ r ∈ s.regions, r.base ≤ address.toNat ∧ address.toNat < r.top) ∧
      (heap.top < address.toNat → s.CanEndAt heap address.toNat →
        heap.prot = Prot.READ_WRITE ∧ ∀ r ∈ s.regions, r.base ≠ address.toNat) := by
  have hw := reachable_wf h
  have hlt := (hw.sound heap (hw.findRegion_eq_some.1 hfind).1).lt
  by_cases hle : address.toNat ≤ heap.base
  · rw [hw.brk_below hfind hle]
    refine and_congr_right fun hne => ⟨fun hin => ⟨fun _ => hin, fun hpast => by omega⟩, fun hcond => ?_⟩
    exact hcond.1 (Nat.lt_of_le_of_ne hle hne)
  · by_cases hin : address.toNat ≤ heap.top
    · exact iff_of_true (hw.brk_inside hg hfind (by omega) hin) ⟨by omega, fun _ => by omega, fun _ => by omega⟩
    · rw [hw.brk_past hg hfind (by omega)]
      refine ⟨fun hcond => ⟨by omega, fun _ => by omega, fun _ => hcond⟩, fun hcond => hcond.2.2 (by omega)⟩

/-- The null pages, and a page of heap at some distance. -/
def heapCalls : List MmuCall :=
  [.ensureNullPage, .mmap 0x20000 0x1000 Prot.READ_WRITE ⟨true, false⟩, .setRegionName 0x20000 "heap"]

def heapOnly : AddressSpace := ((machine lenientHost).run (empty 1 (fun _ => 0)) heapCalls).getD (empty 1 (fun _ => 0))

def heapRegion : MmuRegion := ⟨1, 0x20000, 0x1000, Prot.READ_WRITE, "heap", false, true⟩

theorem heapOnly_reachable : (machine lenientHost).Reachable heapOnly := by
  obtain ⟨s, hs⟩ : ∃ s, (machine lenientHost).run (empty 1 (fun _ => 0)) heapCalls = some s :=
    Option.isSome_iff_exists.1 (by decide)
  rw [heapOnly, hs]
  exact Machine.Reachable.run heapCalls (Machine.Reachable.init ⟨_, _, rfl⟩) hs

theorem heapOnly_findRegion : heapOnly.findRegion "heap" = some heapRegion := by decide

/-- The heap grows to a request that is not at a page boundary. -/
theorem brk_iff_sample : ∃ result s', heapOnly.brk lenientHost 0x22800 = some (result, s') ∧
    heapOnly.BrkSpec heapRegion 0x22800 result s' := by
  refine (brk_iff lenientHost heapOnly_reachable (lenientHost_grants _) heapOnly_findRegion 0x22800).2 ⟨by decide, ?_, ?_⟩
  · intro hlt
    exact absurd hlt (by decide)
  · intro _ _
    have hall : heapOnly.regions.all (fun r => decide (r.base ≠ 0x22800)) = true := by decide
    refine ⟨rfl, fun r hr => ?_⟩
    exact of_decide_eq_true (List.all_eq_true.1 hall r hr)

/-- A request in the hole below the heap should leave the break alone, and fails. -/
theorem brk_iff_fails : ¬ ∀ (host : Host) (s : AddressSpace), (machine host).Reachable s → host.Grants s.memorySize →
    ∀ (heap : MmuRegion), s.findRegion "heap" = some heap → ∀ address : UInt64,
      ∃ result s', s.brk host address = some (result, s') ∧ s.BrkSpec heap address.toNat result s' := by
  intro hclaim
  obtain ⟨result, s', hcall, -⟩ := hclaim lenientHost heapOnly heapOnly_reachable (lenientHost_grants _) heapRegion
    heapOnly_findRegion 0x18000
  have hnone : (heapOnly.brk lenientHost 0x18000).isNone = true := by decide
  rw [hcall] at hnone
  cases hnone

end AddressSpace

end X64Emulator
