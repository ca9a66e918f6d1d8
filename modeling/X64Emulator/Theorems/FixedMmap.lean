import X64Emulator.Lemmas.RegionPages

/-!
# Fixed mappings

A fixed mapping that may replace others should succeed whatever the range overlaps. It erases the regions that hold the first
or the last byte of the range, so it succeeds exactly when no other region meets the range.
-/

namespace X64Emulator

namespace AddressSpace

open MmuRegion

/-- A region that meets a range holds its first or its last byte. -/
def AtEdge (s : AddressSpace) (address end_ : Nat) : Prop :=
  ∀ r ∈ s.regions, r.base < end_ → address < r.top →
    (r.base ≤ address ∧ address < r.top) ∨ (r.base ≤ end_ - 1 ∧ end_ - 1 < r.top)

/-- A split at either end of a range does not change which regions are at its edges. -/
theorem SplitAt.atEdge_iff {s s' : AddressSpace} {at_ address end_ : Nat} (h : s.SplitAt at_ s')
    (hat : at_ = address ∨ at_ = end_) : s'.AtEdge address end_ ↔ s.AtEdge address end_ := by
  rcases h.regions with ⟨rfl, -⟩ | ⟨r, hr, h1, h2, hmem, -⟩
  · exact Iff.rfl
  · constructor
    · intro hedge q hq hqb hqt
      by_cases hqr : q = r
      · subst hqr
        omega
      · exact hedge q ((hmem q).2 (Or.inr (Or.inr ⟨hq, hqr⟩))) hqb hqt
    · intro hedge q hq hqb hqt
      rcases (hmem q).1 hq with rfl | rfl | ⟨hq, -⟩
      · rw [top_above (Nat.le_of_lt h2)] at hqt ⊢
        simp only [above] at hqb ⊢
        omega
      · rw [top_below (Nat.le_of_lt h1)] at hqt ⊢
        simp only [below] at hqb ⊢
        omega
      · exact hedge q hq hqb hqt

/-- The regions that go are those with the first or the last byte of the range. -/
theorem Wf.mem_toErase {s : AddressSpace} (h : s.Wf) {r q : MmuRegion} (hr : r.Sound s.memorySize) :
    q ∈ s.toErase r ↔ q ∈ s.regions ∧ ((q.base ≤ r.base ∧ r.base < q.top) ∨ (q.base ≤ r.top - 1 ∧ r.top - 1 < q.top)) := by
  have hsize := s.memorySize_lt
  have htop := hr.top_le
  have hlt := hr.lt
  have hlast : sub64 r.end_ 1 = r.top - 1 := by
    rw [hr.end_eq hsize]
    simp only [sub64, u64]
    omega
  rw [AddressSpace.toErase, List.mem_filter]
  refine and_congr_right fun hq => ?_
  simp only [contains, h.end_eq hq, hlast, Bool.or_eq_true, Bool.and_eq_true, decide_eq_true_iff]

/-- Between two splits at the ends of a range, the new region can join exactly when no region lies inside off the edges. -/
theorem Dropped.apart_iff {s s' : AddressSpace} {r : MmuRegion} (hw : s.Wf) (hr : r.Sound s.memorySize)
    (h : s.Dropped (s.toErase r) s') : s'.Apart r ↔ s.AtEdge r.base r.top := by
  constructor
  · intro hapart q hq hqb hqt
    by_contra hin
    have hmem : q ∈ s'.regions := (h.mem_regions q).2 ⟨hq, fun hdrop => hin ((hw.mem_toErase hr).1 hdrop).2⟩
    have := hapart q hmem
    omega
  · intro hedge q hq
    obtain ⟨hq, hkept⟩ := (h.mem_regions q).1 hq
    by_contra hmeet
    exact hkept ((hw.mem_toErase hr).2 ⟨hq, hedge q hq (by omega) (by omega)⟩)

/-- The new region in its place: what was done to reach it is not seen outside the range. -/
theorem mapped_of_stations {s s1 s2 s3 s4 : AddressSpace} (hw : s.Wf) {r : MmuRegion} (hf : s.Fresh r)
    (hr : r.Sound s.memorySize) (hz : r.requiresMemsetToZero = true) (h1 : s.SplitAt r.base s1)
    (h2 : s1.SplitAt r.top s2) (h3 : s2.Dropped (s2.toErase r) s3) (h4 : s3.Added r s4) :
    s.Mapped r.base r.size r.prot s4 := by
  have hlt := hr.lt
  have hsize : s2.memorySize = s.memorySize := by rw [h2.memorySize, h1.memorySize]
  have hmemory : s3.memory = s.memory := by rw [h3.memory, h2.memory, h1.memory]
  have hadded : s4.memory = memsetZero s.memory r.base r.size := by rw [h4.memory, if_pos hz, hmemory]
  refine ⟨⟨r.settled, (h4.mem_regions _).2 (Or.inl rfl), rfl, rfl, rfl, hf.2, ?_⟩, ?_, ?_, ?_⟩
  · intro q hq hmeet
    rcases (h4.mem_regions q).1 hq with rfl | hq
    · rfl
    · have hapart := h4.apart q hq
      have hend := h3.wf.end_eq hq
      simp only [intersectsRange, hend, decide_eq_true_iff] at hmeet
      simp only [top] at hapart hmeet
      omega
  · intro a ha1 ha2
    rw [hadded, memsetZero, if_pos ⟨ha1, ha2⟩]
  · intro page hpage
    apply Option.ext
    intro info
    rw [← h1.pageInfo_eq hw, ← h2.pageInfo_eq h1.wf, h4.wf.pageInfo_eq_some, h2.wf.pageInfo_eq_some]
    constructor
    · rintro ⟨q, hq, hc, rfl⟩
      rcases (h4.mem_regions q).1 hq with rfl | hq
      · have hc : r.base ≤ page * PAGE_SIZE ∧ page * PAGE_SIZE < r.base + r.size := hc
        omega
      · exact ⟨q, ((h3.mem_regions q).1 hq).1, hc, rfl⟩
    · rintro ⟨q, hq, hc, rfl⟩
      refine ⟨q, (h4.mem_regions q).2 (Or.inr ((h3.mem_regions q).2 ⟨hq, fun hdrop => ?_⟩)), hc, rfl⟩
      -- a region that goes straddles neither end, so it has no page outside
      obtain ⟨-, hedge⟩ := (h2.wf.mem_toErase (by rw [hsize]; exact hr)).1 hdrop
      have htop := h2.le_or_le h1.wf q hq
      have hbase : q.top ≤ r.base ∨ r.base ≤ q.base := by
        rcases h2.regions with ⟨rfl, -⟩ | ⟨p, hp, hp1, hp2, hmem, -⟩
        · exact h1.le_or_le hw q hq
        · have hpb := h1.le_or_le hw p hp
          rcases (hmem q).1 hq with rfl | rfl | ⟨hq, -⟩
          · exact Or.inr (Nat.le_of_lt hlt)
          · rw [top_below (Nat.le_of_lt hp1)] at *
            simp only [below] at *
            omega
          · exact h1.le_or_le hw q hq
      simp only [Covers] at hc
      simp only [top] at *
      omega
  · intro a ha
    rw [hadded, memsetZero, if_neg (by omega)]

/-- The region a fixed mapping makes. -/
def fixedRegion (s : AddressSpace) (address length : Nat) (prot : Prot) : MmuRegion :=
  ⟨s.nextRegion, address, length, prot, "", true, false⟩

/-- A fixed mapping of a range inside the memory is `addRegionAndEraseExisting`. -/
theorem mmap_fixed_eq {host : Host} {s : AddressSpace} {address length : UInt64} {prot : Prot}
    (ha : isPageAligned address.toNat) (hle : address.toNat + roundedLength length.toNat ≤ s.memorySize) :
    s.mmap host address length prot ⟨true, false⟩ =
      (({ s with nextRegion := s.nextRegion + 1 } : AddressSpace).addRegionAndEraseExisting host
        (s.fixedRegion address.toNat (roundedLength length.toNat) prot)).map (fun s' => (some address.toNat, s')) := by
  have hsize := s.memorySize_lt
  have hround := pageRoundUp_eq (show roundedLength length.toNat < 2 ^ 64 by omega)
  have hsum : u64 (address.toNat + roundedLength length.toNat) = address.toNat + roundedLength length.toNat :=
    u64_of_lt (by omega)
  have halign : isPageAligned (roundedLength length.toNat) := Nat.mul_mod_left _ _
  simp only [AddressSpace.mmap, mmapBase, AddressSpace.placeRegion, verify_of ha, hround, hsum, if_true, Option.bind_eq_bind,
    Option.bind_some, if_neg (Nat.not_lt.2 hle), AddressSpace.makeRegion, verify_of hle, verify_of halign, Bool.not_false,
    Bool.and_self]
  rw [Option.map_eq_bind]
  rfl

/-- The stations of `addRegionAndEraseExisting` for a region that could be in the space: it gets to the last one, and the last
one succeeds when the region's range is free there. -/
theorem Wf.addRegionAndEraseExisting_iff {host : Host} {s : AddressSpace} (h : s.Wf) {r : MmuRegion} (hf : s.Fresh r)
    (hr : r.Sound s.memorySize) (hz : r.requiresMemsetToZero = true) (hg : host.Grants s.memorySize) :
    (∃ s', s.addRegionAndEraseExisting host r = some s' ∧ s.Mapped r.base r.size r.prot s') ↔ s.AtEdge r.base r.top := by
  have hend := hr.end_eq s.memorySize_lt
  have hsa := hr.size_aligned
  have hba := hr.base_aligned
  have htop : r.top % PAGE_SIZE = 0 := by
    simp only [top, PAGE_SIZE_eq] at *
    omega
  obtain ⟨s1, h1⟩ := h.split_isSome hba hg
  have hs1 := h.split h1
  obtain ⟨s2, h2⟩ := hs1.wf.split_isSome htop (by rw [hs1.memorySize]; exact hg)
  have hs2 := hs1.wf.split h2
  have hsize2 : s2.memorySize = s.memorySize := by rw [hs2.memorySize, hs1.memorySize]
  obtain ⟨hsub, hnodup⟩ := hs2.wf.toErase r
  obtain ⟨s3, h3⟩ := hs2.wf.dropRegions_isSome hsub hnodup (by rw [hsize2]; exact hg)
  have hs3 := hs2.wf.dropRegions hsub hnodup h3
  have hsize3 : s3.memorySize = s.memorySize := by rw [hs3.memorySize, hsize2]
  have hr2 : r.Sound s2.memorySize := by rw [hsize2]; exact hr
  have hr3 : r.Sound s3.memorySize := by rw [hsize3]; exact hr
  have hfresh3 := hs3.fresh (hs2.fresh (hs1.fresh hf))
  have hedge : s3.Apart r ↔ s.AtEdge r.base r.top :=
    (hs3.apart_iff hs2.wf hr2).trans ((hs2.atEdge_iff (Or.inr rfl)).trans (hs1.atEdge_iff (Or.inl rfl)))
  have hlast : s.addRegionAndEraseExisting host r = s3.addRegion host r := by
    simp only [AddressSpace.toErase] at h3
    simp only [AddressSpace.addRegionAndEraseExisting, verify_of hr.nonempty, Option.bind_eq_bind, Option.bind_some, h1, hend,
      h2]
    rw [hend] at h3
    rw [h3, Option.bind_some]
  rw [hlast, ← hedge]
  constructor
  · rintro ⟨s', h4, -⟩
    exact (hs3.wf.addRegion_sound hfresh3 hr3 h4).apart
  · intro hapart
    obtain ⟨s4, h4⟩ := hs3.wf.addRegion_isSome hr3 hapart (by rw [hsize3]; exact hg)
    exact ⟨s4, h4, mapped_of_stations h hf hr hz hs1 hs2 hs3 (hs3.wf.addRegion_sound hfresh3 hr3 h4)⟩

/-- A fixed mapping that may replace others does what it should exactly when every region that meets the range holds its first
or its last byte. -/
theorem mmap_fixed_iff (host : Host) {s : AddressSpace} (h : (machine host).Reachable s) (hg : host.Grants s.memorySize)
    {address length : UInt64} (prot : Prot) (ha : isPageAligned address.toNat) (hl : length ≠ 0)
    (hle : address.toNat + roundedLength length.toNat ≤ s.memorySize) :
    (∃ s', s.mmap host address length prot ⟨true, false⟩ = some (some address.toNat, s') ∧
        s.Mapped address.toNat (roundedLength length.toNat) prot s') ↔
      ∀ r ∈ s.regions, r.intersectsRange address.toNat (address.toNat + roundedLength length.toNat) →
        r.contains address.toNat ∨ r.contains (address.toNat + roundedLength length.toNat - 1) := by
  have hw := reachable_wf h
  have hpos : 0 < length.toNat := Nat.pos_of_ne_zero fun h0 => hl (UInt64.toNat_inj.1 h0)
  have hround : 0 < roundedLength length.toNat := by
    simp only [roundedLength, PAGE_SIZE_eq]
    omega
  let r := s.fixedRegion address.toNat (roundedLength length.toNat) prot
  have hr : r.Sound s.memorySize := ⟨hround, ha, Nat.mul_mod_left _ _, hle⟩
  have hf : ({ s with nextRegion := s.nextRegion + 1 } : AddressSpace).Fresh r :=
    ⟨Nat.lt_succ_self _, fun q hq => Nat.ne_of_lt (hw.ptr_lt q hq)⟩
  have hw' : ({ s with nextRegion := s.nextRegion + 1 } : AddressSpace).Wf :=
    hw.congr rfl rfl rfl rfl (Nat.le_succ _)
  have hiff := hw'.addRegionAndEraseExisting_iff hf hr rfl hg
  have hedge : s.AtEdge r.base r.top ↔
      ∀ q ∈ s.regions, q.intersectsRange address.toNat (address.toNat + roundedLength length.toNat) →
        q.contains address.toNat ∨ q.contains (address.toNat + roundedLength length.toNat - 1) := by
    refine forall₂_congr fun q hq => ?_
    have hlt := (hw.sound q hq).lt
    simp only [contains, intersectsRange, hw.end_eq hq, Bool.and_eq_true, decide_eq_true_iff, r, fixedRegion, top] at hlt ⊢
    constructor <;> intro hcond <;> omega
  rw [← hedge, mmap_fixed_eq ha hle]
  refine Iff.trans ⟨?_, ?_⟩ hiff
  · rintro ⟨s', hm, hmapped⟩
    obtain ⟨s1, hs1, heq⟩ := Option.map_eq_some_iff.1 hm
    rw [Prod.mk.injEq] at heq
    obtain ⟨-, rfl⟩ := heq
    exact ⟨s1, hs1, hmapped.1, hmapped.2, hmapped.3, hmapped.4⟩
  · rintro ⟨s', hs', hmapped⟩
    exact ⟨s', by rw [show s.fixedRegion _ _ _ = r from rfl, hs']; rfl, hmapped.1, hmapped.2, hmapped.3, hmapped.4⟩

/-- The null pages, and three regions of a page with a free page between each two. -/
def crowdedCalls : List MmuCall :=
  [.ensureNullPage, .mmap 0x10000 0x1000 Prot.READ_WRITE ⟨true, false⟩, .mmap 0x12000 0x1000 Prot.READ_WRITE ⟨true, false⟩,
    .mmap 0x14000 0x1000 Prot.READ_WRITE ⟨true, false⟩]

def crowded : AddressSpace := ((machine lenientHost).run (empty 1 (fun _ => 0)) crowdedCalls).getD (empty 1 (fun _ => 0))

theorem crowded_reachable : (machine lenientHost).Reachable crowded := by
  obtain ⟨s, hs⟩ : ∃ s, (machine lenientHost).run (empty 1 (fun _ => 0)) crowdedCalls = some s :=
    Option.isSome_iff_exists.1 (by decide)
  rw [crowded, hs]
  exact Machine.Reachable.run crowdedCalls (Machine.Reachable.init ⟨_, _, rfl⟩) hs

/-- Over two of the regions the mapping succeeds: each of them is at an edge. -/
theorem mmap_fixed_over_two : ∃ s', crowded.mmap lenientHost 0x10000 0x3000 Prot.READ_WRITE ⟨true, false⟩ =
    some (some 0x10000, s') ∧ crowded.Mapped 0x10000 0x3000 Prot.READ_WRITE s' :=
  (mmap_fixed_iff lenientHost crowded_reachable (lenientHost_grants _) Prot.READ_WRITE (by decide) (by decide)
    (by decide)).2 (by decide)

/-- Over all three the region in the middle survives, and the new region cannot be entered in the lookup table. -/
theorem mmap_fixed_over_three_fails : ¬ ∀ (host : Host) (s : AddressSpace), (machine host).Reachable s →
    host.Grants s.memorySize → ∀ (address length : UInt64) (prot : Prot), isPageAligned address.toNat → length ≠ 0 →
      address.toNat + roundedLength length.toNat ≤ s.memorySize →
      ∃ s', s.mmap host address length prot ⟨true, false⟩ = some (some address.toNat, s') ∧
        s.Mapped address.toNat (roundedLength length.toNat) prot s' := by
  intro hclaim
  obtain ⟨s', hs', -⟩ := hclaim lenientHost crowded crowded_reachable (lenientHost_grants _) 0x10000 0x5000 Prot.READ_WRITE
    (by decide) (by decide) (by decide)
  have hnone : (crowded.mmap lenientHost 0x10000 0x5000 Prot.READ_WRITE ⟨true, false⟩).isNone := by decide
  rw [hs'] at hnone
  cases hnone

end AddressSpace

end X64Emulator
