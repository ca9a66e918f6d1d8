import X64Emulator.Lemmas.RegionNotices

/-!
# Mappings without an address

A mapping that is not fixed goes into the first gap between two neighbours that is long enough, or behind the last region.
A fixed mapping past the end of the memory is never accepted.
-/

namespace X64Emulator

namespace AddressSpace

open MmuRegion

/-- A mapping found its place: whole pages inside the memory that no region held, mapped afresh, and no change elsewhere. -/
structure Placed (s : AddressSpace) (length : Nat) (prot : Prot) (base : Nat) (s' : AddressSpace) : Prop where
  aligned : isPageAligned base
  inside : base + length ≤ s.memorySize
  free : ∀ r ∈ s.regions, r.top ≤ base ∨ base + length ≤ r.base
  mapped : s.Mapped base length prot s'

/-! ## The end of the last region -/

variable {l : List MmuRegion} {s : AddressSpace}

theorem foldl_max_le {top limit : Nat} (ht : top ≤ limit) (hl : ∀ r ∈ l, r.end_ ≤ limit) :
    l.foldl (fun top r => max top r.end_) top ≤ limit := by
  induction l generalizing top with
  | nil => exact ht
  | cons r l ih =>
    have hr := hl r List.mem_cons_self
    exact ih (Nat.max_le.2 ⟨ht, hr⟩) (fun q hq => hl q (List.mem_cons_of_mem _ hq))

theorem le_foldl_max {top : Nat} : top ≤ l.foldl (fun top r => max top r.end_) top := by
  induction l generalizing top with
  | nil => exact Nat.le_refl _
  | cons r l ih => exact Nat.le_trans (Nat.le_max_left _ _) ih

theorem end_le_foldl_max {r : MmuRegion} {top : Nat} (hr : r ∈ l) :
    r.end_ ≤ l.foldl (fun top r => max top r.end_) top := by
  induction l generalizing top with
  | nil => cases hr
  | cons q l ih =>
    rcases List.mem_cons.1 hr with rfl | hr
    · exact Nat.le_trans (Nat.le_max_right _ _) le_foldl_max
    · exact ih hr

/-- Behind the last region there is a page boundary inside the memory, and no region beyond it. -/
theorem Wf.topOfMemory_spec (h : s.Wf) (hz : s.topOfReserved = 0) :
    s.topOfMemoryPageAligned % PAGE_SIZE = 0 ∧ s.topOfMemoryPageAligned ≤ s.memorySize ∧
      ∀ r ∈ s.regions, r.top ≤ s.topOfMemoryPageAligned := by
  have hsize := s.memorySize_lt
  have hmb := s.virtualMemoryInMB.toNat_lt
  have hsmall := s.memorySize_small
  have hle : s.regions.foldl (fun top r => max top r.end_) s.topOfReserved ≤ s.memorySize := by
    refine foldl_max_le (by omega) fun r hr => ?_
    rw [h.end_eq hr]
    exact (h.sound r hr).top_le
  refine ⟨?_, ?_, ?_⟩
  · exact Nat.mul_mod_left _ _
  · simp only [topOfMemoryPageAligned, pageRoundUp, u64, memorySize, PAGE_SIZE_eq] at *
    omega
  · intro r hr
    have hend : r.end_ ≤ s.regions.foldl (fun top r => max top r.end_) s.topOfReserved := end_le_foldl_max hr
    rw [h.end_eq hr] at hend
    simp only [topOfMemoryPageAligned, pageRoundUp, u64, PAGE_SIZE_eq]
    omega

/-! ## The gap -/

theorem adjacentFind_eq_some {p : MmuRegion → MmuRegion → Bool} {a : MmuRegion}
    (h : adjacentFind p l = some a) : ∃ l₁ b l₂, l = l₁ ++ a :: b :: l₂ ∧ p a b = true := by
  induction l with
  | nil => cases h
  | cons r l ih =>
    cases l with
    | nil => cases h
    | cons b l =>
      rw [adjacentFind] at h
      split at h
      · next hp =>
        cases h
        exact ⟨[], b, l, rfl, hp⟩
      · obtain ⟨l₁, c, l₂, hl, hp⟩ := ih h
        exact ⟨r :: l₁, c, l₂, by rw [hl]; rfl, hp⟩

/-- Between two neighbours of a list in order there is no other region. -/
theorem Wf.free_between (h : s.Wf) {l₁ l₂ : List MmuRegion} {a b : MmuRegion}
    (hl : s.regions = l₁ ++ a :: b :: l₂) : ∀ r ∈ s.regions, r.top ≤ a.top ∨ b.base ≤ r.base := by
  have hord : (l₁ ++ a :: b :: l₂).Pairwise (fun r q => r.top ≤ q.base) := hl ▸ h.ordered
  obtain ⟨-, hright, hcross⟩ := List.pairwise_append.1 hord
  obtain ⟨-, hb⟩ := List.pairwise_cons.1 hright
  have ha : a ∈ s.regions := by simp [hl]
  have halt := (h.sound a ha).lt
  have hbm : b ∈ s.regions := by simp [hl]
  have hblt := (h.sound b hbm).lt
  intro r hr
  rw [hl, List.mem_append, List.mem_cons, List.mem_cons] at hr
  rcases hr with hr | rfl | rfl | hr
  · have := hcross r hr a List.mem_cons_self
    exact Or.inl (by omega)
  · exact Or.inl (Nat.le_refl _)
  · exact Or.inr (Nat.le_refl _)
  · have := (List.pairwise_cons.1 hb).1 r hr
    exact Or.inr (by omega)

/-- Where no sum wraps, the place of the first fit is free: in a gap, or behind the last region. -/
theorem Wf.firstFit_spec (h : s.Wf) (hz : s.topOfReserved = 0) {length : Nat} (hpos : 0 < length)
    (hal : length % PAGE_SIZE = 0) (hlt : s.topOfMemoryPageAligned + length < 2 ^ 64) :
    ∃ base, s.firstFitPageAligned length = some base ∧ base % PAGE_SIZE = 0 ∧ base + length < 2 ^ 64 ∧
      ∀ r ∈ s.regions, r.top ≤ base ∨ base + length ≤ r.base := by
  obtain ⟨haligned, hle, htop⟩ := h.topOfMemory_spec hz
  have hround : pageRoundUp length = length := by
    simp only [pageRoundUp, u64, PAGE_SIZE_eq] at hal ⊢
    omega
  simp only [firstFitPageAligned, verify_of hpos, hround, Option.bind_eq_bind, Option.bind_some]
  cases hfind : adjacentFind (fun a b => decide (u64 (a.end_ + length) ≤ b.base)) s.regions with
  | none =>
    exact ⟨s.topOfMemoryPageAligned, rfl, haligned, hlt, fun r hr => Or.inl (htop r hr)⟩
  | some a =>
    obtain ⟨l₁, b, l₂, hl, hp⟩ := adjacentFind_eq_some hfind
    have ha : a ∈ s.regions := by simp [hl]
    have hatop := htop a ha
    have hsound := h.sound a ha
    have hend := h.end_eq ha
    have hfits : a.top + length ≤ b.base := by
      rw [decide_eq_true_iff, hend, u64_of_lt (by omega)] at hp
      exact hp
    refine ⟨a.end_, rfl, ?_, by omega, ?_⟩
    · rw [hend]
      have h1 := hsound.base_aligned
      have h2 := hsound.size_aligned
      simp only [top, PAGE_SIZE_eq] at *
      omega
    · intro r hr
      have := h.free_between hl r hr
      omega

/-- A mapping of a length for which no sum wraps finds its place, or there is none and nothing changes. -/
theorem Wf.mmap_firstFit {host : Host} (h : s.Wf) (hz : s.topOfReserved = 0)
    (hg : host.Grants s.memorySize) {address length : UInt64} {prot : Prot} {noReplace : Bool}
    (ha : isPageAligned address.toNat) (hne : length ≠ 0)
    (hlt : s.topOfMemoryPageAligned + roundedLength length.toNat < 2 ^ 64) :
    (∃ base s', s.mmap host address length prot ⟨false, noReplace⟩ = some (some base, s') ∧
        s.Placed (roundedLength length.toNat) prot base s') ∨
      s.mmap host address length prot ⟨false, noReplace⟩ = some (none, s) := by
  have hround := pageRoundUp_eq (show roundedLength length.toNat < 2 ^ 64 by omega)
  have hlen : 0 < length.toNat := Nat.pos_of_ne_zero fun h0 => hne (UInt64.toNat_inj.1 h0)
  have hpos : 0 < roundedLength length.toNat := by
    simp only [roundedLength, PAGE_SIZE_eq]
    omega
  have hal : roundedLength length.toNat % PAGE_SIZE = 0 := Nat.mul_mod_left _ _
  obtain ⟨base, hbase, haligned, hsum, hfree⟩ := h.firstFit_spec hz hpos hal hlt
  have hu : u64 (base + roundedLength length.toNat) = base + roundedLength length.toNat := u64_of_lt hsum
  by_cases hfull : s.memorySize < base + roundedLength length.toNat
  · right
    simp only [AddressSpace.mmap, verify_of ha, hround, mmapBase, Bool.false_eq_true, if_false, hbase, hu, if_pos hfull,
      Option.bind_eq_bind, Option.bind_some]
  · left
    have hle := Nat.le_of_not_lt hfull
    let r : MmuRegion := ⟨s.nextRegion, base, roundedLength length.toNat, prot, "", true, false⟩
    have hr : r.Sound s.memorySize := ⟨hpos, haligned, hal, hle⟩
    have hwf : ({ s with nextRegion := s.nextRegion + 1 } : AddressSpace).Wf := h.congr rfl rfl rfl rfl (Nat.le_succ _)
    have hfresh : ({ s with nextRegion := s.nextRegion + 1 } : AddressSpace).Fresh r :=
      ⟨Nat.lt_succ_self _, fun q hq => Nat.ne_of_lt (h.ptr_lt q hq)⟩
    obtain ⟨s', hadd⟩ := hwf.addRegion_isSome hr hfree hg
    have hadded := hwf.addRegion_sound hfresh hr hadd
    have hmapped := hadded.mapped hwf hfresh rfl
    refine ⟨base, s', ?_, haligned, hle, hfree, ?_⟩
    · simp only [AddressSpace.mmap, verify_of ha, hround, mmapBase, Bool.false_eq_true, if_false, hbase, hu,
        if_neg hfull, AddressSpace.makeRegion, verify_of hle, verify_of (c := isPageAligned base) haligned,
        verify_of (c := isPageAligned (roundedLength length.toNat)) hal, AddressSpace.placeRegion, Bool.false_and,
        Option.bind_eq_bind, Option.bind_some]
      rw [show (⟨s.nextRegion, base, roundedLength length.toNat, prot, "", true, false⟩ : MmuRegion) = r from rfl, hadd]
      rfl
    · exact ⟨hmapped.region, hmapped.zero, hmapped.page_outside, hmapped.byte_outside⟩

/-- No fixed mapping past the end of the memory is accepted: the call finds the range too long, or it fails on the way. -/
theorem Wf.mmap_fixed_not_past {host : Host} {s' : AddressSpace} (h : s.Wf) {address length : UInt64} {prot : Prot}
    {noReplace : Bool} {base : Nat} (hpast : s.memorySize < address.toNat + roundedLength length.toNat) :
    s.mmap host address length prot ⟨true, noReplace⟩ ≠ some (some base, s') := by
  intro hcall
  have hlen := length.toNat_lt
  have hadr := address.toNat_lt
  simp only [AddressSpace.mmap, mmapBase, if_true, Option.bind_eq_bind, Option.bind_eq_some_iff, verify_eq_some, exists_const,
    Option.some.injEq, exists_eq_left'] at hcall
  obtain ⟨-, hcall⟩ := hcall
  split at hcall
  · simp at hcall
  · simp only [Option.bind_eq_some_iff, Prod.exists, Option.some.injEq, Prod.mk.injEq] at hcall
    obtain ⟨r, s1, hmake, s2, hplace, -, -⟩ := hcall
    obtain ⟨hle, rfl, hwf, hfresh, rfl⟩ := h.makeRegion hmake
    -- a region that was added lies inside the memory with its whole rounded length
    have hsound : MmuRegion.Sound s.memorySize
        ⟨s.nextRegion, address.toNat, pageRoundUp length.toNat, prot, "", true, false⟩ :=
      hwf.placeRegion_sound hfresh hadr (pageRoundUp_lt _) hle hplace
    have hpos := hsound.nonempty
    have htop := hsound.top_le
    have hsize := s.memorySize_lt
    simp only [top, pageRoundUp, roundedLength, u64, PAGE_SIZE_eq] at *
    omega

/-- An empty mapping that is not fixed fails the verification that guards against empty regions. -/
theorem mmap_zero {host : Host} {address : UInt64} {prot : Prot} {noReplace : Bool} :
    s.mmap host address 0 prot ⟨false, noReplace⟩ = none := by
  have hround : pageRoundUp (0 : UInt64).toNat = 0 := by decide
  have hfit : s.firstFitPageAligned 0 = none := by simp [firstFitPageAligned, verify]
  simp only [AddressSpace.mmap, hround, mmapBase, Bool.false_eq_true, if_false, hfit, Option.bind_eq_bind, Option.bind_none,
    Option.bind_fun_none]

/-- Where a mapping goes: without an address a length that is not zero finds a free place in the memory, or the space stays as
it is; at an address nothing past the memory is accepted. -/
theorem mmap_bounds (host : Host) {s : AddressSpace} (h : (machine host).Reachable s) (hg : host.Grants s.memorySize)
    {address : UInt64} (prot : Prot) (noReplace : Bool) (ha : isPageAligned address.toNat) (length : UInt64) :
    (length = 0 → s.mmap host address length prot ⟨false, noReplace⟩ = none) ∧
    (length ≠ 0 → s.topOfMemoryPageAligned + roundedLength length.toNat < 2 ^ 64 →
      (∃ base s', s.mmap host address length prot ⟨false, noReplace⟩ = some (some base, s') ∧
          s.Placed (roundedLength length.toNat) prot base s') ∨
        s.mmap host address length prot ⟨false, noReplace⟩ = some (none, s)) ∧
    (s.memorySize < address.toNat + roundedLength length.toNat → ∀ base s',
      s.mmap host address length prot ⟨true, noReplace⟩ ≠ some (some base, s')) := by
  have hw := reachable_wf h
  refine ⟨?_, ?_, ?_⟩
  · rintro rfl
    exact mmap_zero
  · intro hne hlt
    exact hw.mmap_firstFit (reachable_topOfReserved h) hg ha hne hlt
  · intro hpast base s'
    exact hw.mmap_fixed_not_past hpast

/-- The null pages, and two regions with a gap of a page between them. -/
def gappedCalls : List MmuCall :=
  [.ensureNullPage, .mmap 0x10000 0x1000 Prot.READ_WRITE ⟨true, false⟩, .mmap 0x12000 0x1000 Prot.READ_WRITE ⟨true, false⟩]

theorem mmap_bounds_sample : ∃ s, (machine lenientHost).run (empty 1 (fun _ => 0)) gappedCalls = some s ∧
    ((∃ base s', s.mmap lenientHost 0 1 Prot.READ_WRITE ⟨false, false⟩ = some (some base, s') ∧
        s.Placed (roundedLength 1) Prot.READ_WRITE base s') ∨
      s.mmap lenientHost 0 1 Prot.READ_WRITE ⟨false, false⟩ = some (none, s)) ∧
    ∀ base s', s.mmap lenientHost 0xfffffffffffff000 0x2000 Prot.READ_WRITE ⟨true, false⟩ ≠ some (some base, s') := by
  obtain ⟨s, hs⟩ : ∃ s, (machine lenientHost).run (empty 1 (fun _ => 0)) gappedCalls = some s :=
    Option.isSome_iff_exists.1 (by decide)
  have hreach : (machine lenientHost).Reachable s :=
    Machine.Reachable.run gappedCalls (Machine.Reachable.init ⟨_, _, rfl⟩) hs
  have hplace : s.topOfMemoryPageAligned = 0x13000 ∧ s.memorySize = 0x100000 := by
    have hall : ((machine lenientHost).run (empty 1 (fun _ => 0)) gappedCalls).map
        (fun s => decide (s.topOfMemoryPageAligned = 0x13000 ∧ s.memorySize = 0x100000)) = some true := by decide
    rw [hs, Option.map_some, Option.some.injEq] at hall
    exact of_decide_eq_true hall
  refine ⟨s, hs, ?_, ?_⟩
  · exact (mmap_bounds lenientHost hreach (lenientHost_grants _) Prot.READ_WRITE false (by decide) 1).2.1 (by decide)
      (by rw [hplace.1]; decide)
  · exact (mmap_bounds lenientHost hreach (lenientHost_grants _) Prot.READ_WRITE false (by decide) 0x2000).2.2
      (by rw [hplace.2]; decide)

/-- An empty mapping neither finds a place nor reports that there is none. -/
theorem mmap_bounds_fails : ¬ ∀ (host : Host) (s : AddressSpace), (machine host).Reachable s → host.Grants s.memorySize →
    ∀ (address length : UInt64) (prot : Prot) (noReplace : Bool), isPageAligned address.toNat →
      (∃ base s', s.mmap host address length prot ⟨false, noReplace⟩ = some (some base, s') ∧
          s.Placed (roundedLength length.toNat) prot base s') ∨
        s.mmap host address length prot ⟨false, noReplace⟩ = some (none, s) := by
  intro hclaim
  have hnone : ((empty 1 (fun _ => 0)).mmap lenientHost 0 0 Prot.READ_WRITE ⟨false, false⟩).isNone = true := by decide
  rcases hclaim lenientHost (empty 1 (fun _ => 0)) (Machine.Reachable.init ⟨_, _, rfl⟩) (lenientHost_grants _) 0 0
    Prot.READ_WRITE false (by decide) with ⟨base, s', hcall, -⟩ | hcall
  · rw [hcall] at hnone
    cases hnone
  · rw [hcall] at hnone
    cases hnone

end AddressSpace

end X64Emulator
