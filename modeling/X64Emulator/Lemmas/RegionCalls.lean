import X64Emulator.Lemmas.RegionTable

/-!
# The calls that change the regions

What `split`, `munmap`, `mprotect`, `brk` and the other calls do to a well-formed address space, each from the lemmas about
adding and taking one region. `step_wf` collects them: no call that returns leaves the tables inconsistent.
-/

namespace X64Emulator

namespace MmuRegion

/-- The part of a region below an address inside it. -/
def below (r : MmuRegion) (address : Nat) : MmuRegion := { r with size := address - r.base }

/-- The part of a region from an address inside it on, as a new object. -/
def above (r : MmuRegion) (address ptr : Nat) : MmuRegion :=
  { r with ptr := ptr, base := address, size := r.top - address }

variable {r : MmuRegion} {address : Nat}

/-- The lower part ends at the cut. -/
theorem top_below (h : r.base ≤ address) : (r.below address).top = address :=
  Nat.add_sub_cancel' h

/-- The upper part keeps the end. -/
theorem top_above {ptr : Nat} (h : address ≤ r.top) : (r.above address ptr).top = r.top :=
  Nat.add_sub_cancel' h

/-- The lower part is sound. -/
theorem Sound.below {limit : Nat} (h : r.Sound limit) (ha : address % PAGE_SIZE = 0)
    (h1 : r.base < address) (h2 : address < r.top) : (r.below address).Sound limit := by
  have hb := h.base_aligned
  have ht := h.top_le
  refine ⟨by simp only [MmuRegion.below]; omega, hb, ?_, by rw [top_below (Nat.le_of_lt h1)]; omega⟩
  simp only [MmuRegion.below, PAGE_SIZE_eq] at *
  omega

/-- The upper part is sound. -/
theorem Sound.above {limit : Nat} (h : r.Sound limit) {p : Nat}
    (ha : address % PAGE_SIZE = 0) (h2 : address < r.top) : (r.above address p).Sound limit := by
  have hb := h.base_aligned
  have hs := h.size_aligned
  refine ⟨by simp only [MmuRegion.above]; omega, ha, ?_, by rw [top_above (Nat.le_of_lt h2)]; exact h.top_le⟩
  simp only [MmuRegion.above, top, PAGE_SIZE_eq] at *
  omega

/-- Inside a region, `splitAt` gives the two parts. -/
theorem Sound.splitAt_eq {limit : Nat} (h : r.Sound limit) (hl : limit < 2 ^ 64)
    (h1 : r.base < address) (h2 : address < r.top) (ptr : Nat) (hset : r.settled = r) :
    ({ r with activated := false } : MmuRegion).splitAt address ptr =
      some ({ r.below address with activated := false }, { r.above address ptr with activated := false }) := by
  have ht := h.top_le
  have hend : ({ r with activated := false } : MmuRegion).end_ = r.top := h.end_eq hl
  have hzero : r.requiresMemsetToZero = false := by rw [← hset]; rfl
  have hin : ({ r with activated := false } : MmuRegion).contains address = true := by
    rw [contains, hend, Bool.and_eq_true, decide_eq_true_iff, decide_eq_true_iff]
    exact ⟨Nat.le_of_lt h1, h2⟩
  have hsub1 : sub64 address r.base = address - r.base := by
    simp only [sub64, u64]
    omega
  have hsub2 : sub64 r.top address = r.top - address := by
    simp only [sub64, u64]
    omega
  have hne : address ≠ ({ r with activated := false } : MmuRegion).base := Nat.ne_of_gt h1
  simp only [MmuRegion.splitAt, verify_of hin, verify_of hne, verify_of, Option.bind_eq_bind, Option.bind_some, hend,
    hsub1, hsub2]
  simp only [MmuRegion.below, MmuRegion.above, hzero]

end MmuRegion

namespace AddressSpace

open MmuRegion

variable {s s' : AddressSpace} {r : MmuRegion} {host : Host} {address : Nat} {l : List MmuRegion}

/-- The regions after one is added. -/
theorem Added.mem_regions (h : s.Added r s') (q : MmuRegion) :
    q ∈ s'.regions ↔ q = r.settled ∨ q ∈ s.regions := by
  rw [h.regions]
  exact Ranges.mem_insert

/-- Adding keeps the size of the memory. -/
theorem Added.memorySize (h : s.Added r s') : s'.memorySize = s.memorySize := by
  rw [AddressSpace.memorySize, AddressSpace.memorySize, h.virtualMemoryInMB]

/-- Taking keeps the size of the memory. -/
theorem Taken.memorySize (h : s.Taken r s') : s'.memorySize = s.memorySize := by
  rw [AddressSpace.memorySize, AddressSpace.memorySize, h.virtualMemoryInMB]

/-- A region that a well-formed space could hold joins it. -/
theorem Wf.addRegion_sound (h : s.Wf) (hf : s.Fresh r)
    (hr : r.Sound s.memorySize) (ha : s.addRegion host r = some s') : s.Added r s' := by
  have hsize := s.memorySize_lt
  have hle := hr.top_le
  have hend := hr.end_eq hsize
  simp only [top] at hle
  refine h.addRegion hf (by omega) (by omega) ?_ ha
  rw [hend]
  exact hr.top_le

/-- No region is listed twice. -/
theorem Wf.nodup (h : s.Wf) : s.regions.Nodup := by
  refine List.Pairwise.imp_of_mem ?_ h.ordered
  intro a b ha _ hab
  have := (h.sound a ha).lt
  rintro rfl
  omega

/-! ## Splitting -/

/-- What `split` leaves behind: the region that straddled the address, when there was one, is in two parts. -/
structure SplitAt (s : AddressSpace) (address : Nat) (s' : AddressSpace) : Prop where
  wf : s'.Wf
  regions : (s' = s ∧ ∀ r ∈ s.regions, r.top ≤ address ∨ address ≤ r.base) ∨
    ∃ r ∈ s.regions, r.base < address ∧ address < r.top ∧
      (∀ q, q ∈ s'.regions ↔
        q = r.above address s.nextRegion ∨ q = r.below address ∨ (q ∈ s.regions ∧ q ≠ r)) ∧
      s'.nextRegion = s.nextRegion + 1 ∧
      s'.notifications = s.notifications ++ [.onRegionDestruction r.base r.size r.prot,
        .onRegionCreation r.base (address - r.base) r.prot, .onRegionCreation address (r.top - address) r.prot]
  memory : s'.memory = s.memory
  virtualMemoryInMB : s'.virtualMemoryInMB = s.virtualMemoryInMB
  topOfReserved : s'.topOfReserved = s.topOfReserved

/-- The parts of a region that left the table can join it one after the other. -/
theorem Taken.parts {s1 : AddressSpace} (hw : s.Wf) (h : s.Taken r s1) (hr : r ∈ s.regions)
    (h1 : r.base < address) (h2 : address < r.top) :
    s1.Fresh (r.below address) ∧ s1.Apart (r.below address) ∧ s1.Apart (r.above address s.nextRegion) := by
  have hlt := hw.ptr_lt r hr
  have hdis : ∀ q ∈ s1.regions, q.top ≤ r.base ∨ r.top ≤ q.base := by
    intro q hq
    obtain ⟨hq, hne⟩ := (h.mem_regions q).1 hq
    have hqlt := (hw.sound q hq).lt
    have hrlt := (hw.sound r hr).lt
    by_contra hmeet
    exact hne (hw.eq_of_shared (a := max q.base r.base) hq hr (by omega) (by omega))
  refine ⟨⟨by rw [h.nextRegion]; exact hlt, ?_⟩, ?_, ?_⟩
  · intro q hq hptr
    obtain ⟨hq, hne⟩ := (h.mem_regions q).1 hq
    exact hne (hw.ptr_inj q hq r hr hptr)
  · intro q hq
    have := hdis q hq
    rw [top_below (Nat.le_of_lt h1)]
    simp only [below]
    omega
  · intro q hq
    have := hdis q hq
    rw [top_above (Nat.le_of_lt h2)]
    simp only [above]
    omega

/-- A split cuts one region. -/
theorem Wf.split (h : s.Wf) (hs : s.split host address = some s') : s.SplitAt address s' := by
  simp only [AddressSpace.split, Option.bind_eq_bind, Option.bind_eq_some_iff, verify_eq_some, exists_const] at hs
  obtain ⟨halign, hs⟩ := hs
  cases hfind : s.findAddress address with
  | none =>
    simp only [hfind, Option.some.injEq] at hs
    subst hs
    refine ⟨h, Or.inl ⟨rfl, fun r hr => ?_⟩, rfl, rfl, rfl⟩
    have := h.findAddress_eq_none.1 hfind r hr
    omega
  | some r =>
    obtain ⟨hr, hbase, htop⟩ := h.findAddress_eq_some.1 hfind
    simp only [hfind] at hs
    split at hs
    · next heq =>
      simp only [Option.some.injEq] at hs
      subst hs
      refine ⟨h, Or.inl ⟨rfl, fun q hq => ?_⟩, rfl, rfl, rfl⟩
      by_cases hqr : q = r
      · subst hqr
        exact Or.inr (Nat.le_of_eq heq)
      · by_contra hmeet
        exact hqr (h.eq_of_shared (a := address) hq hr (by omega) ⟨hbase, htop⟩)
    · next hne =>
      simp only [Option.bind_eq_some_iff, Prod.exists] at hs
      obtain ⟨r1, s1, htake, r2, r3, hsplit, s2, hadd2, hadd3⟩ := hs
      have h1 : r.base < address := by omega
      obtain ⟨r', hr', hfind', rfl, htaken⟩ := h.takeRegion htake
      rw [h.find_at hr, Option.some.injEq] at hfind'
      subst hfind'
      have hsound := h.sound r hr
      rw [hsound.splitAt_eq s.memorySize_lt h1 htop _ (h.settled r hr), Option.some.injEq, Prod.mk.injEq] at hsplit
      obtain ⟨rfl, rfl⟩ := hsplit
      obtain ⟨hfresh, hapart2, hapart3⟩ := htaken.parts h hr h1 htop
      have hsize := htaken.memorySize
      have hwf2 : ({ s1 with nextRegion := s1.nextRegion + 1 } : AddressSpace).Wf :=
        htaken.wf.congr rfl rfl rfl rfl (Nat.le_succ _)
      -- the old region comes back shorter, then the new one takes the rest
      have hsound2 : MmuRegion.Sound s1.memorySize { r.below address with activated := false } := by
        rw [hsize]
        exact (hsound.below halign h1 htop).congr rfl rfl
      have hadded2 := hwf2.addRegion_sound (r := { r.below address with activated := false })
        ⟨Nat.lt_succ_of_lt hfresh.1, hfresh.2⟩ hsound2 hadd2
      have hfresh3 : s2.Fresh { r.above address s1.nextRegion with activated := false } := by
        have hnext : s2.nextRegion = s1.nextRegion + 1 := hadded2.nextRegion
        refine ⟨by simp only [above, hnext]; omega, fun q hq => ?_⟩
        rcases (hadded2.mem_regions q).1 hq with rfl | hq
        · exact Nat.ne_of_lt hfresh.1
        · exact Nat.ne_of_lt (htaken.wf.ptr_lt q hq)
      have hsound3 : MmuRegion.Sound s2.memorySize { r.above address s1.nextRegion with activated := false } := by
        have hsize2 : s2.memorySize = s1.memorySize := hadded2.memorySize
        rw [hsize2, hsize]
        exact (hsound.above (p := s1.nextRegion) halign htop).congr rfl rfl
      have hadded3 := hadded2.wf.addRegion_sound hfresh3 hsound3 hadd3
      have hset := h.settled r hr
      have hbelow : ({ r.below address with activated := false } : MmuRegion).settled = r.below address := by
        rw [← hset]; rfl
      have habove : ({ r.above address s1.nextRegion with activated := false } : MmuRegion).settled =
          r.above address s.nextRegion := by
        rw [htaken.nextRegion, ← hset]; rfl
      have hzero : r.requiresMemsetToZero = false := by rw [← hset]; rfl
      refine ⟨hadded3.wf, Or.inr ⟨r, hr, h1, htop, fun q => ?_, ?_, ?_⟩, ?_, ?_, ?_⟩
      · rw [hadded3.mem_regions, hadded2.mem_regions, hbelow, habove, ← htaken.mem_regions]
      · rw [hadded3.nextRegion, hadded2.nextRegion, htaken.nextRegion]
      · rw [hadded3.notifications, hadded2.notifications, htaken.notifications]
        simp [below, above]
      · rw [hadded3.memory, hadded2.memory]
        simp [below, above, hzero, htaken.memory]
      · rw [hadded3.virtualMemoryInMB, hadded2.virtualMemoryInMB, htaken.virtualMemoryInMB]
      · rw [hadded3.topOfReserved, hadded2.topOfReserved, htaken.topOfReserved]

/-- A split on a page succeeds. -/
theorem Wf.split_isSome (h : s.Wf)
    (halign : address % PAGE_SIZE = 0) (hg : host.Grants s.memorySize) : ∃ s', s.split host address = some s' := by
  simp only [AddressSpace.split, verify_of (c := isPageAligned address) halign, Option.bind_eq_bind, Option.bind_some]
  cases hfind : s.findAddress address with
  | none => exact ⟨s, rfl⟩
  | some r =>
    obtain ⟨hr, hbase, htop⟩ := h.findAddress_eq_some.1 hfind
    by_cases heq : address = r.base
    · exact ⟨s, by simp only [if_pos heq]⟩
    · have h1 : r.base < address := by omega
      have hsound := h.sound r hr
      obtain ⟨s1, htake⟩ := h.takeRegion_isSome (h.find_at hr) hg
      obtain ⟨r', hr', hfind', -, htaken⟩ := h.takeRegion htake
      rw [h.find_at hr, Option.some.injEq] at hfind'
      subst hfind'
      obtain ⟨hfresh, hapart2, hapart3⟩ := htaken.parts h hr h1 htop
      have hsize := htaken.memorySize
      have hwf2 : ({ s1 with nextRegion := s1.nextRegion + 1 } : AddressSpace).Wf :=
        htaken.wf.congr rfl rfl rfl rfl (Nat.le_succ _)
      have hsound2 : MmuRegion.Sound s1.memorySize { r.below address with activated := false } := by
        rw [hsize]
        exact (hsound.below halign h1 htop).congr rfl rfl
      obtain ⟨s2, hadd2⟩ := hwf2.addRegion_isSome (r := { r.below address with activated := false }) hsound2 hapart2
        (by rw [← hsize] at hg; exact hg)
      have hadded2 := hwf2.addRegion_sound (r := { r.below address with activated := false })
        ⟨Nat.lt_succ_of_lt hfresh.1, hfresh.2⟩ hsound2 hadd2
      have hsize2 : s2.memorySize = s.memorySize := hadded2.memorySize.trans hsize
      have hsound3 : MmuRegion.Sound s2.memorySize { r.above address s1.nextRegion with activated := false } := by
        rw [hsize2]
        exact (hsound.above (p := s1.nextRegion) halign htop).congr rfl rfl
      have hapart : s2.Apart { r.above address s1.nextRegion with activated := false } := by
        intro q hq
        rcases (hadded2.mem_regions q).1 hq with rfl | hq
        · exact Or.inl (Nat.le_of_eq (top_below (Nat.le_of_lt h1)))
        · exact hapart3 q hq
      obtain ⟨s3, hadd3⟩ := hadded2.wf.addRegion_isSome hsound3 hapart (by rw [hsize2]; exact hg)
      refine ⟨s3, ?_⟩
      simp only [if_neg heq, takeRegionAt, htake, Option.bind_some,
        hsound.splitAt_eq s.memorySize_lt h1 htop _ (h.settled r hr), hadd2, hadd3]

/-- After a split no region straddles the address. -/
theorem SplitAt.le_or_le (h : s.SplitAt address s') (hw : s.Wf) :
    ∀ q ∈ s'.regions, q.top ≤ address ∨ address ≤ q.base := by
  intro q hq
  rcases h.regions with ⟨rfl, hno⟩ | ⟨r, hr, h1, h2, hmem, -⟩
  · exact hno q hq
  · rcases (hmem q).1 hq with rfl | rfl | ⟨hq, hne⟩
    · exact Or.inr (Nat.le_refl _)
    · exact Or.inl (Nat.le_of_eq (top_below (Nat.le_of_lt h1)))
    · by_contra hmeet
      exact hne (hw.eq_of_shared (a := address) hq hr (by omega) (by omega))

/-- A split drops no region and no address: each old region is there, or its two parts are. -/
theorem SplitAt.mem_or_parts (h : s.SplitAt address s') (hr : r ∈ s.regions) : r ∈ s'.regions ∨
      r.base < address ∧ address < r.top ∧ r.below address ∈ s'.regions ∧ r.above address s.nextRegion ∈ s'.regions := by
  rcases h.regions with ⟨rfl, -⟩ | ⟨r', hr', h1, h2, hmem, -⟩
  · exact Or.inl hr
  · by_cases heq : r = r'
    · subst heq
      exact Or.inr ⟨h1, h2, (hmem _).2 (Or.inr (Or.inl rfl)), (hmem _).2 (Or.inl rfl)⟩
    · exact Or.inl ((hmem r).2 (Or.inr (Or.inr ⟨hr, heq⟩)))

/-- Splitting keeps the size of the memory. -/
theorem SplitAt.memorySize (h : s.SplitAt address s') : s'.memorySize = s.memorySize := by
  rw [AddressSpace.memorySize, AddressSpace.memorySize, h.virtualMemoryInMB]

/-- Splitting frees no pointer. -/
theorem SplitAt.nextRegion_le (h : s.SplitAt address s') : s.nextRegion ≤ s'.nextRegion := by
  rcases h.regions with ⟨rfl, -⟩ | ⟨r, -, -, -, -, hn, -⟩
  · exact Nat.le_refl _
  · rw [hn]
    exact Nat.le_succ _

/-- A pointer that was handed out before a split and not given to a region is still free after it. -/
theorem SplitAt.fresh (h : s.SplitAt address s') (hf : s.Fresh r) : s'.Fresh r := by
  refine ⟨Nat.lt_of_lt_of_le hf.1 h.nextRegion_le, fun q hq => ?_⟩
  rcases h.regions with ⟨rfl, -⟩ | ⟨r', hr', -, -, hmem, -⟩
  · exact hf.2 q hq
  · rcases (hmem q).1 hq with rfl | rfl | ⟨hq, -⟩
    · exact Nat.ne_of_gt hf.1
    · exact hf.2 r' hr'
    · exact hf.2 q hq

/-! ## Dropping regions -/

/-- What `dropRegions` leaves behind. -/
structure Dropped (s : AddressSpace) (l : List MmuRegion) (s' : AddressSpace) : Prop where
  wf : s'.Wf
  mem_regions : ∀ q, q ∈ s'.regions ↔ q ∈ s.regions ∧ q ∉ l
  memory : s'.memory = s.memory
  virtualMemoryInMB : s'.virtualMemoryInMB = s.virtualMemoryInMB
  topOfReserved : s'.topOfReserved = s.topOfReserved
  nextRegion : s'.nextRegion = s.nextRegion
  notifications : s'.notifications = s.notifications ++ l.map (fun r => .onRegionDestruction r.base r.size r.prot)

/-- Regions of the table are dropped. -/
theorem Wf.dropRegions (h : s.Wf) (hl : ∀ r ∈ l, r ∈ s.regions)
    (hn : l.Nodup) (hd : s.dropRegions host l = some s') : s.Dropped l s' := by
  induction l generalizing s with
  | nil =>
    simp only [AddressSpace.dropRegions, List.foldlM_nil, Option.pure_def, Option.some.injEq] at hd
    subst hd
    exact ⟨h, by simp, rfl, rfl, rfl, rfl, by simp⟩
  | cons r l ih =>
    simp only [AddressSpace.dropRegions, List.foldlM_cons, Option.bind_eq_bind, Option.bind_eq_some_iff,
      Option.map_eq_some_iff, Prod.exists] at hd
    obtain ⟨_, ⟨r1, s1, htake, rfl⟩, hd⟩ := hd
    have hr := hl r List.mem_cons_self
    obtain ⟨r', hr', hfind, -, htaken⟩ := h.takeRegion htake
    rw [h.find_at hr, Option.some.injEq] at hfind
    subst hfind
    obtain ⟨hnr, hnl⟩ := List.nodup_cons.1 hn
    have hl1 : ∀ q ∈ l, q ∈ s1.regions := by
      intro q hq
      refine (htaken.mem_regions q).2 ⟨hl q (List.mem_cons_of_mem _ hq), ?_⟩
      rintro rfl
      exact hnr hq
    obtain ⟨hwf, hmem, hmemory, hmb, hreserved, hnext, hnotif⟩ := ih htaken.wf hl1 hnl hd
    refine ⟨hwf, fun q => ?_, hmemory.trans htaken.memory, hmb.trans htaken.virtualMemoryInMB,
      hreserved.trans htaken.topOfReserved, hnext.trans htaken.nextRegion, ?_⟩
    · rw [hmem, htaken.mem_regions, List.mem_cons, not_or, and_assoc]
    · rw [hnotif, htaken.notifications, List.append_assoc]
      rfl

/-- Dropping succeeds. -/
theorem Wf.dropRegions_isSome (h : s.Wf)
    (hl : ∀ r ∈ l, r ∈ s.regions) (hn : l.Nodup) (hg : host.Grants s.memorySize) :
    ∃ s', s.dropRegions host l = some s' := by
  induction l generalizing s with
  | nil => exact ⟨s, rfl⟩
  | cons r l ih =>
    have hr := hl r List.mem_cons_self
    obtain ⟨s1, htake⟩ := h.takeRegion_isSome (h.find_at hr) hg
    obtain ⟨r', hr', hfind, -, htaken⟩ := h.takeRegion htake
    rw [h.find_at hr, Option.some.injEq] at hfind
    subst hfind
    obtain ⟨hnr, hnl⟩ := List.nodup_cons.1 hn
    have hl1 : ∀ q ∈ l, q ∈ s1.regions := by
      intro q hq
      refine (htaken.mem_regions q).2 ⟨hl q (List.mem_cons_of_mem _ hq), ?_⟩
      rintro rfl
      exact hnr hq
    obtain ⟨s2, hd⟩ := ih htaken.wf hl1 hnl (by rw [htaken.memorySize]; exact hg)
    refine ⟨s2, ?_⟩
    simp only [AddressSpace.dropRegions, List.foldlM_cons, takeRegionAt, htake, Option.map_some, Option.bind_eq_bind,
      Option.bind_some]
    exact hd

/-! ## The calls keep the tables consistent -/

/-- A rounded length is a word. -/
theorem pageRoundUp_lt (n : Nat) : pageRoundUp n < 2 ^ 64 := by
  simp only [pageRoundUp, u64, PAGE_SIZE_eq]
  omega

/-- What `makeRegion` makes: a region nobody has yet. -/
theorem Wf.makeRegion (h : s.Wf) {base size : Nat} {prot : Prot}
    (hm : s.makeRegion base size prot = some (r, s')) :
    u64 (base + size) ≤ s.memorySize ∧ s' = { s with nextRegion := s.nextRegion + 1 } ∧ s'.Wf ∧ s'.Fresh r ∧
      r = ⟨s.nextRegion, base, size, prot, "", false, false⟩ := by
  simp only [AddressSpace.makeRegion, Option.bind_eq_bind, Option.bind_eq_some_iff, verify_eq_some, exists_const,
    Option.some.injEq, Prod.mk.injEq] at hm
  obtain ⟨hle, -, -, rfl, rfl⟩ := hm
  exact ⟨hle, rfl, h.congr rfl rfl rfl rfl (Nat.le_succ _),
    ⟨Nat.lt_succ_self _, fun q hq => Nat.ne_of_lt (h.ptr_lt q hq)⟩, rfl⟩

/-- The regions that `addRegionAndEraseExisting` takes out before it adds the new one. -/
def toErase (s : AddressSpace) (r : MmuRegion) : List MmuRegion :=
  s.regions.filter (fun q => q.contains r.base || q.contains (sub64 r.end_ 1))

/-- What is erased is in the table, once. -/
theorem Wf.toErase (h : s.Wf) (r : MmuRegion) : (∀ q ∈ s.toErase r, q ∈ s.regions) ∧ (s.toErase r).Nodup :=
  ⟨fun _ hq => (List.mem_filter.1 hq).1, h.nodup.filter _⟩

/-- The stations of `addRegionAndEraseExisting`: two splits, the regions that leave, the region that joins. -/
theorem addRegionAndEraseExisting_eq_some (h : s.addRegionAndEraseExisting host r = some s') :
    ∃ s1 s2 s3, s.split host r.base = some s1 ∧ s1.split host r.end_ = some s2 ∧
      s2.dropRegions host (s2.toErase r) = some s3 ∧ s3.addRegion host r = some s' := by
  simp only [addRegionAndEraseExisting, Option.bind_eq_bind, Option.bind_eq_some_iff, verify_eq_some, exists_const] at h
  obtain ⟨-, s1, h1, s2, h2, s3, h3, h4⟩ := h
  exact ⟨s1, s2, s3, h1, h2, h3, h4⟩

/-- A fresh region stays fresh. -/
theorem Dropped.fresh (h : s.Dropped l s') (hf : s.Fresh r) : s'.Fresh r :=
  ⟨h.nextRegion ▸ hf.1, fun q hq => hf.2 q ((h.mem_regions q).1 hq).1⟩

/-- Dropping keeps the size of the memory. -/
theorem Dropped.memorySize (h : s.Dropped l s') : s'.memorySize = s.memorySize := by
  rw [AddressSpace.memorySize, AddressSpace.memorySize, h.virtualMemoryInMB]

/-- A region in the place of others keeps the table. -/
theorem Wf.addRegionAndEraseExisting (h : s.Wf) (hf : s.Fresh r)
    (hb : r.base < 2 ^ 64) (hs : r.size < 2 ^ 64) (he : r.end_ ≤ s.memorySize)
    (ha : s.addRegionAndEraseExisting host r = some s') : s'.Wf := by
  obtain ⟨s1, s2, s3, h1, h2, h3, h4⟩ := addRegionAndEraseExisting_eq_some ha
  have hs1 := h.split h1
  have hs2 := hs1.wf.split h2
  obtain ⟨hsub, hnodup⟩ := hs2.wf.toErase r
  have hs3 := hs2.wf.dropRegions hsub hnodup h3
  have hsize : s3.memorySize = s.memorySize := by rw [hs3.memorySize, hs2.memorySize, hs1.memorySize]
  exact (hs3.wf.addRegion (hs3.fresh (hs2.fresh (hs1.fresh hf))) hb hs (by rw [hsize]; exact he) h4).wf

/-- A region that `addRegionAndEraseExisting` or `addRegion` put in its place lies inside the memory. -/
theorem Wf.placeRegion_sound (h : s.Wf) {flags : MapFlags}
    (hf : s.Fresh r) (hb : r.base < 2 ^ 64) (hs : r.size < 2 ^ 64) (he : r.end_ ≤ s.memorySize)
    (ha : s.placeRegion host r flags = some s') : r.Sound s.memorySize := by
  unfold AddressSpace.placeRegion at ha
  split at ha
  · obtain ⟨s1, s2, s3, h1, h2, h3, h4⟩ := addRegionAndEraseExisting_eq_some ha
    have hs1 := h.split h1
    have hs2 := hs1.wf.split h2
    obtain ⟨hsub, hnodup⟩ := hs2.wf.toErase r
    have hs3 := hs2.wf.dropRegions hsub hnodup h3
    have hsize : s3.memorySize = s.memorySize := by rw [hs3.memorySize, hs2.memorySize, hs1.memorySize]
    rw [← hsize]
    exact (hs3.wf.addRegion (hs3.fresh (hs2.fresh (hs1.fresh hf))) hb hs (by rw [hsize]; exact he) h4).sound
  · exact (h.addRegion hf hb hs he ha).sound

/-- A base that is found is a word. -/
theorem firstFitPageAligned_lt {length base : Nat} (h : s.firstFitPageAligned length = some base) :
    base < 2 ^ 64 := by
  simp only [firstFitPageAligned, Option.bind_eq_bind, Option.bind_eq_some_iff, verify_eq_some, exists_const] at h
  obtain ⟨-, h⟩ := h
  split at h
  · rw [Option.some.injEq] at h
    rw [← h]
    exact pageRoundUp_lt _
  · rw [Option.some.injEq] at h
    rw [← h]
    exact u64_lt _

/-- The base of a mapping is a word. -/
theorem mmapBase_lt {address : UInt64} {length base : Nat} {flags : MapFlags}
    (h : s.mmapBase address.toNat length flags = some base) : base < 2 ^ 64 := by
  unfold mmapBase at h
  split at h
  · rw [Option.some.injEq] at h
    rw [← h]
    exact address.toNat_lt
  · exact firstFitPageAligned_lt h

/-- Placing a region keeps the table. -/
theorem Wf.placeRegion (h : s.Wf) {flags : MapFlags}
    (hf : s.Fresh r) (hb : r.base < 2 ^ 64) (hs : r.size < 2 ^ 64) (he : r.end_ ≤ s.memorySize)
    (ha : s.placeRegion host r flags = some s') : s'.Wf := by
  unfold AddressSpace.placeRegion at ha
  split at ha
  · exact h.addRegionAndEraseExisting hf hb hs he ha
  · exact (h.addRegion hf hb hs he ha).wf

/-- What `mmap` did: it found a base, and refused it or made a region there. -/
theorem mmap_cases {address length : UInt64} {prot : Prot} {flags : MapFlags} {result : Option Nat}
    (hm : s.mmap host address length prot flags = some (result, s')) :
    ∃ base, s.mmapBase address.toNat (pageRoundUp length.toNat) flags = some base ∧ ((result = none ∧ s' = s) ∨
      (result = some base ∧ ∃ r s1, s.makeRegion base (pageRoundUp length.toNat) prot = some (r, s1) ∧
        s1.placeRegion host { r with requiresMemsetToZero := true } flags = some s')) := by
  simp only [AddressSpace.mmap, Option.bind_eq_bind, Option.bind_eq_some_iff, verify_eq_some, exists_const] at hm
  obtain ⟨-, base, hbase, hm⟩ := hm
  refine ⟨base, hbase, ?_⟩
  split at hm
  · simp only [Option.some.injEq, Prod.mk.injEq] at hm
    exact .inl ⟨hm.1.symm, hm.2.symm⟩
  · simp only [Option.bind_eq_some_iff, Prod.exists, Option.some.injEq, Prod.mk.injEq] at hm
    obtain ⟨r, s1, hmake, _, hplace, rfl, rfl⟩ := hm
    exact .inr ⟨rfl, r, s1, hmake, hplace⟩

/-- `mmap` keeps the table. -/
theorem Wf.mmap (h : s.Wf) {address length : UInt64} {prot : Prot}
    {flags : MapFlags} {result : Option Nat} (hm : s.mmap host address length prot flags = some (result, s')) :
    s'.Wf := by
  obtain ⟨base, hbase, ⟨-, rfl⟩ | ⟨-, r, s1, hmake, hplace⟩⟩ := mmap_cases hm
  · exact h
  · obtain ⟨hle, rfl, hwf, hfresh, rfl⟩ := h.makeRegion hmake
    exact hwf.placeRegion (r := ⟨s.nextRegion, base, _, prot, "", true, false⟩) hfresh (mmapBase_lt hbase) (pageRoundUp_lt _)
      hle hplace

/-- The stations of `munmap`: two splits, and the regions that leave. -/
theorem munmap_eq_some {address length : UInt64} {result : Int} (hm : s.munmap host address length = some (result, s')) :
    ∃ s1 s2, s.split host address.toNat = some s1 ∧
      s1.split host (u64 (address.toNat + pageRoundUp length.toNat)) = some s2 ∧
      s2.dropRegions host (s2.regions.filter
        (·.intersectsRange address.toNat (u64 (address.toNat + pageRoundUp length.toNat)))) = some s' := by
  simp only [AddressSpace.munmap, Option.bind_eq_bind, Option.bind_eq_some_iff, verify_eq_some, exists_const,
    Option.some.injEq, Prod.mk.injEq] at hm
  obtain ⟨-, s1, h1, s2, h2, s3, h3, -, rfl⟩ := hm
  exact ⟨s1, s2, h1, h2, h3⟩

/-- `munmap` keeps the table. -/
theorem Wf.munmap (h : s.Wf) {address length : UInt64} {result : Int}
    (hm : s.munmap host address length = some (result, s')) : s'.Wf := by
  obtain ⟨s1, s2, h1, h2, h3⟩ := munmap_eq_some hm
  have hs2 := ((h.split h1).wf.split h2).wf
  exact (hs2.dropRegions (fun _ hq => (List.mem_filter.1 hq).1) (hs2.nodup.filter _) h3).wf

/-- The loop of `mprotect` changes the protection of the regions that meet the range, and nothing else of any region. -/
theorem protectRegions_eq_some {end_ : Nat} {prot : Prot} {l' : List MmuRegion}
    {memory memory' : Memory} {log log' : List Notification} (hl : ∀ r ∈ l, r.settled = r)
    (h : protectRegions host address end_ prot l memory log = some (l', memory', log')) :
    l' = l.map (fun r => if r.intersectsRange address end_ then { r with prot := prot } else r) ∧ memory' = memory := by
  induction l generalizing memory log l' with
  | nil =>
    simp only [protectRegions, Option.some.injEq, Prod.mk.injEq] at h
    obtain ⟨rfl, rfl, -⟩ := h
    exact ⟨rfl, rfl⟩
  | cons r l ih =>
    have hl1 : ∀ q ∈ l, q.settled = q := fun q hq => hl q (List.mem_cons_of_mem _ hq)
    have hzero : r.requiresMemsetToZero = false := by rw [← hl r List.mem_cons_self]; rfl
    rw [protectRegions] at h
    split at h
    · next hout =>
      simp only [Option.bind_eq_bind, Option.bind_eq_some_iff, Prod.exists, Option.some.injEq, Prod.mk.injEq] at h
      obtain ⟨l1, m1, log1, hrest, rfl, rfl, rfl⟩ := h
      obtain ⟨rfl, rfl⟩ := ih hl1 hrest
      rw [Bool.not_eq_true'] at hout
      simp [hout]
    · next hin =>
      simp only [Option.bind_eq_bind, Option.bind_eq_some_iff, Prod.exists, Option.some.injEq, Prod.mk.injEq] at h
      obtain ⟨r1, m0, happly, l1, m1, log1, hrest, rfl, rfl, rfl⟩ := h
      obtain ⟨rfl, rfl⟩ := applyRegionProtection_eq_some happly
      obtain ⟨rfl, rfl⟩ := ih hl1 hrest
      simp only [Bool.not_eq_true', Bool.not_eq_false] at hin
      simp [hin, hzero]

/-- The tables are consistent after the loop of `mprotect`. -/
theorem Wf.protectRegions (h : s.Wf) {end_ : Nat} {prot : Prot} {memory : Memory} {log : List Notification}
    (hp : protectRegions host address end_ prot s.regions s.memory s.notifications = some (l, memory, log)) :
    ({ s with regions := l, memory := memory, notifications := log } : AddressSpace).Wf := by
  obtain ⟨rfl, rfl⟩ := protectRegions_eq_some h.settled hp
  refine h.map_regions _ (fun r hr => ?_) rfl rfl rfl rfl rfl
  have hset := h.settled r hr
  split
  · refine ⟨rfl, rfl, rfl, ?_⟩
    rw [← hset]
    rfl
  · exact ⟨rfl, rfl, rfl, hset⟩

/-- Protecting succeeds where the host grants it. -/
theorem protectRegions_isSome {limit : Nat} (hg : host.Grants limit) (address end_ : Nat) (prot : Prot)
    (hl : ∀ r ∈ l, r.Sound limit) (memory : Memory) (log : List Notification) :
    ∃ out, protectRegions host address end_ prot l memory log = some out := by
  induction l generalizing memory log with
  | nil => exact ⟨_, rfl⟩
  | cons r l ih =>
    have hr := hl r List.mem_cons_self
    have hrest : ∀ q ∈ l, q.Sound limit := fun q hq => hl q (List.mem_cons_of_mem _ hq)
    rw [AddressSpace.protectRegions]
    split
    · obtain ⟨out, hout⟩ := ih hrest memory log
      exact ⟨_, by rw [hout]; rfl⟩
    · have hgrant : ∀ p, host.tryProtectVirtualMemoryRange r.base r.size p = true :=
        fun p => hg r.base r.size p hr.base_aligned hr.size_aligned hr.top_le
      obtain ⟨q, m, happly⟩ : ∃ q m, applyRegionProtection host { r with prot := prot } prot memory = some (q, m) := by
        simp only [applyRegionProtection, verify_of (hgrant _), Option.bind_eq_bind, Option.bind_some]
        split <;> exact ⟨_, _, rfl⟩
      obtain ⟨out, hout⟩ := ih hrest m (log ++ [.onRegionProtectionChange r.base r.size r.prot prot])
      exact ⟨(q :: out.1, out.2.1, out.2.2), by simp only [happly, hout, Option.bind_eq_bind, Option.bind_some]⟩

/-- What `mprotect` did: it refused, or it split the range off and ran its loop. -/
theorem mprotect_cases {address length : UInt64} {prot : Prot} {result : Int}
    (hm : s.mprotect host address length prot = some (result, s')) : (result < 0 ∧ s' = s) ∨
      (result = 0 ∧ ∃ s1 s2 l memory log, s.split host address.toNat = some s1 ∧
        s1.split host (u64 (address.toNat + pageRoundUp length.toNat)) = some s2 ∧
        protectRegions host address.toNat (u64 (address.toNat + pageRoundUp length.toNat)) prot s2.regions s2.memory
          s2.notifications = some (l, memory, log) ∧
        s' = { s2 with regions := l, memory := memory, notifications := log }) := by
  simp only [AddressSpace.mprotect, Option.bind_eq_bind, Option.bind_eq_some_iff, verify_eq_some, exists_const] at hm
  obtain ⟨-, hm⟩ := hm
  split at hm
  · obtain ⟨rfl, rfl⟩ := Prod.mk.inj (Option.some.inj hm)
    exact .inl ⟨by decide, rfl⟩
  · split at hm
    · obtain ⟨rfl, rfl⟩ := Prod.mk.inj (Option.some.inj hm)
      exact .inl ⟨by decide, rfl⟩
    · simp only [Option.bind_eq_some_iff, Prod.exists, Option.some.injEq, Prod.mk.injEq] at hm
      obtain ⟨s1, h1, s2, h2, l, memory, log, hloop, rfl, rfl⟩ := hm
      exact .inr ⟨rfl, s1, s2, l, memory, log, h1, h2, hloop, rfl⟩

/-- `mprotect` keeps the table. -/
theorem Wf.mprotect (h : s.Wf) {address length : UInt64} {prot : Prot} {result : Int}
    (hm : s.mprotect host address length prot = some (result, s')) : s'.Wf := by
  obtain ⟨-, rfl⟩ | ⟨-, s1, s2, l, memory, log, h1, h2, hloop, rfl⟩ := mprotect_cases hm
  · exact h
  · exact ((h.split h1).wf.split h2).wf.protectRegions hloop

/-- Naming keeps the table. -/
theorem Wf.setRegionName (h : s.Wf) {address : UInt64} {name : String}
    (hm : s.setRegionName address name = some s') : s'.Wf := by
  simp only [AddressSpace.setRegionName, Option.bind_eq_bind, Option.bind_eq_some_iff, Option.some.injEq] at hm
  obtain ⟨r, -, rfl⟩ := hm
  refine h.map_regions _ (fun q hq => ?_) rfl rfl rfl rfl rfl
  have hset := h.settled q hq
  split
  · refine ⟨rfl, rfl, rfl, ?_⟩
    rw [← hset]
    rfl
  · exact ⟨rfl, rfl, rfl, hset⟩

/-- A region that left the table and came back with another size: its pointer is still free. -/
theorem Taken.fresh (hw : s.Wf) (hr : r ∈ s.regions) (h : s.Taken r s') : s'.Fresh r := by
  refine ⟨h.nextRegion ▸ hw.ptr_lt r hr, fun q hq hptr => ?_⟩
  obtain ⟨hq, hne⟩ := (h.mem_regions q).1 hq
  exact hne (hw.ptr_inj q hq r hr hptr)

/-- The extension of the heap before it is taken back. -/
def extensionAt (s : AddressSpace) (base size : Nat) : MmuRegion :=
  ⟨s.nextRegion, base, size, Prot.READ_WRITE, "", true, false⟩

/-- The stations of a heap that grows: the heap leaves, the extension comes and goes, and the heap comes back longer. -/
theorem Wf.brkGrow_stations (h : s.Wf) {result : Nat} (hb : s.brkGrow host address = some (result, s')) :
    ∃ heap ∈ s.regions, s.findRegion "heap" = some heap ∧ ∃ s1 s3 r s4, s.Taken heap s1 ∧
      ({ s1 with nextRegion := s1.nextRegion + 1 } : AddressSpace).Added
        (s1.extensionAt heap.end_ (pageRoundUp (sub64 address heap.end_))) s3 ∧
      r ∈ s3.regions ∧ r.base = heap.end_ ∧ r.prot = heap.prot ∧ s3.Taken r s4 ∧
      s4.Added { heap with size := u64 (heap.size + r.size), activated := false } s' ∧
      result = u64 (heap.base + u64 (heap.size + r.size)) := by
  simp only [AddressSpace.brkGrow, Option.bind_eq_bind, Option.bind_eq_some_iff, Prod.exists, Option.some.injEq,
    Prod.mk.injEq] at hb
  obtain ⟨heap', s1, htake, ext, s2, hmake, s3, hadd, ext', s4, htake', heap'', happend, s5, hadd', rfl, rfl⟩ := hb
  obtain ⟨heap, hheap, hname, rfl, htaken⟩ := h.takeRegion htake
  obtain ⟨hle, rfl, hwf, hfresh, rfl⟩ := htaken.wf.makeRegion hmake
  have hadded := hwf.addRegion (r := s1.extensionAt _ _) hfresh (u64_lt _) (pageRoundUp_lt _) hle hadd
  obtain ⟨r, hr, hfind, rfl, htaken'⟩ := hadded.wf.takeRegion htake'
  have hplace := List.find?_some hfind
  simp only [Bool.and_eq_true, decide_eq_true_iff] at hplace
  simp only [append, Option.bind_eq_bind, Option.bind_eq_some_iff, verify_eq_some, exists_const, Option.some.injEq] at happend
  obtain ⟨-, hrbase, hrprot, -, rfl⟩ := happend
  -- the heap's pointer is still its own: the extension got a new one
  have hheapFresh := htaken.fresh h hheap
  have hfresh' : s4.Fresh heap := by
    refine ⟨?_, fun q hq => ?_⟩
    · rw [htaken'.nextRegion, hadded.nextRegion]
      exact Nat.lt_succ_of_lt hheapFresh.1
    · rcases (hadded.mem_regions q).1 ((htaken'.mem_regions q).1 hq).1 with rfl | hq
      · exact Nat.ne_of_gt hheapFresh.1
      · exact hheapFresh.2 q hq
  have hend : heap.end_ = heap.top := h.end_eq hheap
  have hsize : s4.memorySize = s3.memorySize := htaken'.memorySize
  have htop := (hadded.wf.sound r hr).top_le
  have hlim := s3.memorySize_lt
  have hbase : heap.base < 2 ^ 64 := Nat.lt_of_le_of_lt (Nat.le_add_right _ _)
    (Nat.lt_of_le_of_lt (h.sound heap hheap).top_le s.memorySize_lt)
  have hrtop : r.base = heap.base + heap.size := hplace.1.trans hend
  refine ⟨heap, hheap, hname, s1, s3, r, s4, htaken, hadded, hr, hrbase, hrprot, htaken', ?_, rfl⟩
  refine htaken'.wf.addRegion (r := ⟨heap.ptr, heap.base, _, _, _, _, false⟩) ⟨hfresh'.1, hfresh'.2⟩ hbase
    (u64_lt _) ?_ hadd'
  rw [hsize]
  simp only [end_, u64, top] at htop ⊢
  omega

/-- Growing the heap keeps the table. -/
theorem Wf.brkGrow (h : s.Wf) {result : Nat} (hb : s.brkGrow host address = some (result, s')) : s'.Wf := by
  obtain ⟨heap, -, -, s1, s3, r, s4, -, -, -, -, -, -, hadded, -⟩ := h.brkGrow_stations hb
  exact hadded.wf

/-- A region that `setEnd` moves to an address below its end does not grow: below its base the new size wraps, and so does
the new end. -/
theorem setEnd_end_le {base size limit : Nat} (hb : base % PAGE_SIZE = 0) (hs : size % PAGE_SIZE = 0)
    (hlt : address < base + size) (hle : base + size ≤ limit) (hlim : limit < 2 ^ 64) :
    u64 (base + pageRoundUp (sub64 (u64 (size + address)) (base + size))) ≤ limit := by
  simp only [PAGE_SIZE_eq] at hb hs
  have hsum : u64 (size + address) = (size + address) % 2 ^ 64 := rfl
  by_cases hge : base ≤ address
  · have hdiff : sub64 (u64 (size + address)) (base + size) = address - base := by
      simp only [sub64, u64]
      omega
    rw [hdiff]
    simp only [u64, pageRoundUp, PAGE_SIZE_eq]
    omega
  · have hdiff : sub64 (u64 (size + address)) (base + size) = 2 ^ 64 - (base - address) := by
      simp only [sub64, u64]
      omega
    rw [hdiff]
    simp only [u64, pageRoundUp, PAGE_SIZE_eq]
    omega

/-- The stations of a heap that shrinks: it leaves, and comes back with another size. -/
theorem Wf.brkShrink_stations (h : s.Wf) {result : Nat}
    (hlt : ∀ heap, s.findRegion "heap" = some heap → address < heap.end_)
    (hb : s.brkShrink host address = some (result, s')) :
    ∃ heap ∈ s.regions, s.findRegion "heap" = some heap ∧ ∃ s1, s.Taken heap s1 ∧
      s1.Added { heap with size := pageRoundUp (sub64 (u64 (heap.size + address)) heap.end_), activated := false } s' ∧
      result = u64 (heap.base + pageRoundUp (sub64 (u64 (heap.size + address)) heap.end_)) := by
  simp only [AddressSpace.brkShrink, setEnd, Option.bind_eq_bind, Option.bind_eq_some_iff, Prod.exists, Option.some.injEq,
    Prod.mk.injEq, verify_eq_some, exists_const] at hb
  obtain ⟨heap', s1, htake, heap'', ⟨-, rfl⟩, s2, hadd, rfl, rfl⟩ := hb
  obtain ⟨heap, hheap, hfind, rfl, htaken⟩ := h.takeRegion htake
  have hfresh := htaken.fresh h hheap
  have hend : heap.end_ = heap.top := h.end_eq hheap
  have hless := hlt heap hfind
  have htop := (h.sound heap hheap).top_le
  have halign := (h.sound heap hheap).base_aligned
  have hlim := s.memorySize_lt
  have hsize : s1.memorySize = s.memorySize := htaken.memorySize
  have hbase : heap.base < 2 ^ 64 := Nat.lt_of_le_of_lt (Nat.le_add_right _ _)
    (Nat.lt_of_le_of_lt (h.sound heap hheap).top_le s.memorySize_lt)
  refine ⟨heap, hheap, hfind, s1, htaken, ?_, rfl⟩
  refine htaken.wf.addRegion (r := ⟨heap.ptr, heap.base, _, _, _, _, false⟩) ⟨hfresh.1, hfresh.2⟩ hbase
    (pageRoundUp_lt _) ?_ hadd
  rw [hsize]
  rw [hend] at hless
  show u64 (heap.base + pageRoundUp (sub64 (u64 (heap.size + address)) heap.end_)) ≤ s.memorySize
  rw [hend]
  exact setEnd_end_le halign (h.sound heap hheap).size_aligned hless htop hlim

/-- Shrinking the heap keeps the table. -/
theorem Wf.brkShrink (h : s.Wf) {result : Nat}
    (hlt : ∀ heap, s.findRegion "heap" = some heap → address < heap.end_)
    (hb : s.brkShrink host address = some (result, s')) : s'.Wf := by
  obtain ⟨heap, -, -, s1, -, hadded, -⟩ := h.brkShrink_stations hlt hb
  exact hadded.wf

/-- Where `brk` neither refuses nor grows, the address is below the break. -/
theorem lt_of_not_refused {heap : MmuRegion} (hheap : s.findRegion "heap" = some heap)
    (hrefused : ¬ s.brkRefused heap address = true) (hnot : ¬ heap.end_ < address) :
    ∀ heap', s.findRegion "heap" = some heap' → address < heap'.end_ := by
  intro heap' hheap'
  rw [hheap, Option.some.injEq] at hheap'
  subst hheap'
  have hne : address ≠ heap.end_ := by
    rintro heq
    simp [brkRefused, heq] at hrefused
  omega

/-- `brk` keeps the table. -/
theorem Wf.brk (h : s.Wf) {address : UInt64} {result : Nat}
    (hb : s.brk host address = some (result, s')) : s'.Wf := by
  simp only [AddressSpace.brk, Option.bind_eq_bind, Option.bind_eq_some_iff] at hb
  obtain ⟨heap, hheap, hb⟩ := hb
  split at hb
  · simp only [Option.some.injEq, Prod.mk.injEq] at hb
    obtain ⟨-, rfl⟩ := hb
    exact h
  · next hrefused =>
    split at hb
    · exact h.brkGrow hb
    · next hnot =>
      exact h.brkShrink (lt_of_not_refused hheap hrefused hnot) hb

/-- The null page keeps the table. -/
theorem Wf.ensureNullPage (h : s.Wf) (hn : s.ensureNullPage host = some s') : s'.Wf := by
  unfold AddressSpace.ensureNullPage at hn
  split at hn
  · simp only [Option.bind_eq_bind, Option.bind_eq_some_iff, Prod.exists] at hn
    obtain ⟨r, s1, hmake, hadd⟩ := hn
    obtain ⟨hle, rfl, hwf, hfresh, rfl⟩ := h.makeRegion hmake
    have hb : 0 < 2 ^ 64 := by decide
    have hs : 16 * PAGE_SIZE < 2 ^ 64 := by decide
    exact (hwf.addRegion (r := ⟨s.nextRegion, 0, _, _, "nullpage", false, false⟩) hfresh hb hs hle hadd).wf
  · simp only [Option.bind_eq_bind, Option.bind_eq_some_iff, verify_eq_some, exists_const, Option.some.injEq] at hn
    obtain ⟨-, rfl⟩ := hn
    exact h

/-- Clearing leaves an empty table. -/
theorem Wf.clearAllRegions (h : s.Wf) (hc : s.clearAllRegions host = some s') : s'.Wf :=
  (h.dropRegions (fun _ hr => List.mem_reverse.1 hr) (List.reverse_perm _ |>.nodup_iff.2 h.nodup) hc).wf

/-- A byte written keeps the table. -/
theorem Wf.write8 (h : s.Wf) {address : UInt64} {value : UInt8}
    (hw : s.write8 address value = some s') : s'.Wf := by
  simp only [AddressSpace.write8, Option.bind_eq_bind, Option.bind_eq_some_iff, verify_eq_some, exists_const,
    Option.some.injEq] at hw
  obtain ⟨r, -, -, rfl⟩ := hw
  exact h.congr rfl rfl rfl rfl (Nat.le_refl _)

/-- No call that returns leaves the tables inconsistent. -/
theorem step_wf (call : MmuCall) (h : s.Wf) (hs : s.step host call = some s') : s'.Wf := by
  cases call with
  | mmap address length prot flags =>
    obtain ⟨⟨result, s1⟩, hm, rfl⟩ := Option.map_eq_some_iff.1 hs
    exact h.mmap hm
  | munmap address length =>
    obtain ⟨⟨result, s1⟩, hm, rfl⟩ := Option.map_eq_some_iff.1 hs
    exact h.munmap hm
  | mprotect address length prot =>
    obtain ⟨⟨result, s1⟩, hm, rfl⟩ := Option.map_eq_some_iff.1 hs
    exact h.mprotect hm
  | brk address =>
    obtain ⟨⟨result, s1⟩, hm, rfl⟩ := Option.map_eq_some_iff.1 hs
    exact h.brk hm
  | setRegionName address name => exact h.setRegionName hs
  | ensureNullPage => exact h.ensureNullPage hs
  | clearAllRegions => exact h.clearAllRegions hs
  | write8 address value => exact h.write8 hs

/-- Every run keeps the table. -/
theorem reachable_wf (h : (machine host).Reachable s) : s.Wf := by
  refine h.invariant Wf ?_ ?_
  · rintro s ⟨mb, memory, rfl⟩
    exact empty_wf mb memory
  · exact fun s call s' hw hs => step_wf call hw hs

/-- An address of a region is far below the end of the addresses. -/
theorem findAddress_lt (h : (machine host).Reachable s) {a : Nat} {region : MmuRegion}
    (ha : s.findAddress a = some region) : a < 2 ^ 53 := by
  have hwf := reachable_wf h
  obtain ⟨hmem, -, htop⟩ := hwf.findAddress_eq_some.1 ha
  have hle := (hwf.sound region hmem).top_le
  have hsmall := s.memorySize_small
  omega

end AddressSpace

end X64Emulator
