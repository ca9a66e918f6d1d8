import X64Emulator.Lemmas.RegionPages
import X64Emulator.Lemmas.RegionNotices

/-!
# Protecting a range

`mprotect` should refuse a range that is not mapped throughout, and give every page of a range that is its protection. It looks
for a hole between the regions that meet the range, and so misses one before the first of them or after the last.
-/

namespace X64Emulator

namespace AddressSpace

open MmuRegion

/-- All or nothing: an error for a page that is not mapped, and no change with it; else the protection for the whole range. -/
structure AllOrNothing (s : AddressSpace) (address length : Nat) (prot : Prot) (result : Int) (s' : AddressSpace) :
    Prop where
  enomem : result = -ENOMEM ↔ ∃ page, InRange address length page ∧ s.pageInfo page = none
  error : result ≠ 0 → s' = s
  inside : result = 0 → ∀ page, InRange address length page → ∃ name prot', s.pageInfo page = some (name, prot') ∧
    s'.pageInfo page = some (name, prot)
  outside : result = 0 → ∀ page, ¬ InRange address length page → s'.pageInfo page = s.pageInfo page

/-- When only a part of a range is mapped, a page that is not lies between two pages of the range that are. -/
def HoleBetween (s : AddressSpace) (address length : Nat) : Prop :=
  (∃ page, InRange address length page ∧ s.pageInfo page ≠ none) →
  (∃ page, InRange address length page ∧ s.pageInfo page = none) →
  ∃ p q r, p < q ∧ q < r ∧ InRange address length p ∧ InRange address length r ∧
    s.pageInfo p ≠ none ∧ s.pageInfo q = none ∧ s.pageInfo r ≠ none

/-! ## The call -/

theorem Wf.mprotect_contiguous {host : Host} {s : AddressSpace} (h : s.Wf) (hg : host.Grants s.memorySize)
    {address length : UInt64} {prot : Prot} (ha : isPageAligned address.toNat) (hp : ¬ (prot.exec && prot.write) = true)
    (hlt : address.toNat + roundedLength length.toNat < 2 ^ 64)
    (hc : contiguous address.toNat (address.toNat + roundedLength length.toNat) none s.regions = true) :
    ∃ s', s.mprotect host address length prot = some (0, s') ∧ ∀ page, s'.pageInfo page =
      if address.toNat ≤ page * PAGE_SIZE ∧ page * PAGE_SIZE < address.toNat + roundedLength length.toNat then
        (s.pageInfo page).map (fun i => (i.1, prot)) else s.pageInfo page := by
  have hround := pageRoundUp_eq (show roundedLength length.toNat < 2 ^ 64 by omega)
  have hend : u64 (address.toNat + pageRoundUp length.toNat) = address.toNat + roundedLength length.toNat := by
    rw [hround]
    exact u64_of_lt hlt
  have hlast : (address.toNat + roundedLength length.toNat) % PAGE_SIZE = 0 := by
    simp only [isPageAligned, roundedLength, PAGE_SIZE_eq] at ha ⊢
    omega
  obtain ⟨s1, s2, h1, h2, hs1, hs2, hb⟩ := h.bounded_isSome ha hlast hg
  have hgrants : host.Grants s2.memorySize := by
    rw [hb.memorySize]
    exact hg
  obtain ⟨⟨l, memory, log⟩, hloop⟩ := protectRegions_isSome hgrants address.toNat
    (address.toNat + roundedLength length.toNat) prot hb.wf.sound s2.memory s2.notifications
  refine ⟨_, ?_, hb.protected hloop⟩
  simp only [AddressSpace.mprotect, verify_of ha, if_neg hp, hend, hc, Bool.not_true, Bool.false_eq_true, if_false, h1, h2,
    hloop, Option.bind_eq_bind, Option.bind_some]

/-- A range that reaches the end of the addresses has a page that is not mapped, and the check does not pass. -/
theorem Wf.mprotect_wraps {s : AddressSpace} (h : s.Wf) (host : Host) {address length : UInt64} {prot : Prot}
    (ha : isPageAligned address.toNat) (hp : ¬ (prot.exec && prot.write) = true)
    (hge : 2 ^ 64 ≤ address.toNat + roundedLength length.toNat) :
    s.mprotect host address length prot = some (-ENOMEM, s) ∧
      ∃ page, InRange address.toNat (roundedLength length.toNat) page ∧ s.pageInfo page = none := by
  have hlt := address.toNat_lt
  have hlen := length.toNat_lt
  have hsize := s.memorySize_lt
  have hend : u64 (address.toNat + pageRoundUp length.toNat) ≤ address.toNat := by
    simp only [u64, pageRoundUp, roundedLength, PAGE_SIZE_eq] at *
    omega
  refine ⟨?_, ?_⟩
  · have hno : ∀ r ∈ s.regions,
        ¬ r.intersectsRange address.toNat (u64 (address.toNat + pageRoundUp length.toNat)) = true := by
      intro r hr
      rw [h.intersects_iff hr]
      omega
    have hc : contiguous address.toNat (u64 (address.toNat + pageRoundUp length.toNat)) none s.regions = false := by
      rw [← Bool.not_eq_true, contiguous_none_iff]
      intro hpass
      exact hpass.1 (List.filter_eq_nil_iff.2 hno)
    simp only [AddressSpace.mprotect, verify_of ha, if_neg hp, hc, Bool.not_false, if_true, Option.bind_eq_bind,
      Option.bind_some]
  · -- the last page of the addresses is past the reserved range
    have htop : ∀ r ∈ s.regions, r.top ≤ s.memorySize := fun r hr => (h.sound r hr).top_le
    have hmb := s.virtualMemoryInMB.toNat_lt
    refine ⟨(2 ^ 64 - 1) / PAGE_SIZE, ?_, ?_⟩
    · simp only [InRange, isPageAligned, PAGE_SIZE_eq] at *
      omega
    · rw [h.pageInfo_eq_none]
      intro r hr hc
      have := htop r hr
      simp only [Covers, memorySize, PAGE_SIZE_eq] at *
      omega

/-- Where the range does not reach the end of the addresses, the call is all or nothing exactly when the range has a page and
the check sees its holes. -/
theorem Wf.mprotect_iff {host : Host} {s : AddressSpace} (h : s.Wf) (hg : host.Grants s.memorySize)
    {address length : UInt64} {prot : Prot} (ha : isPageAligned address.toNat) (hp : ¬ (prot.exec && prot.write) = true)
    (hlt : address.toNat + roundedLength length.toNat < 2 ^ 64) :
    (∃ result s', s.mprotect host address length prot = some (result, s') ∧
      s.AllOrNothing address.toNat (roundedLength length.toNat) prot result s') ↔
      length ≠ 0 ∧ s.HoleBetween address.toNat (roundedLength length.toNat) := by
  have hround := pageRoundUp_eq (show roundedLength length.toNat < 2 ^ 64 by omega)
  have hend : u64 (address.toNat + pageRoundUp length.toNat) = address.toNat + roundedLength length.toNat := by
    rw [hround]
    exact u64_of_lt hlt
  have hne : ∀ page, InRange address.toNat (roundedLength length.toNat) page → length ≠ 0 := by
    rintro page hin rfl
    simp only [InRange, roundedLength, UInt64.toNat_zero, PAGE_SIZE_eq] at hin
    omega
  have hiff := h.contiguous_iff (roundedLength length.toNat) ha
  by_cases hc : contiguous address.toNat (address.toNat + roundedLength length.toNat) none s.regions = true
  · obtain ⟨hmapped, hall⟩ := hiff.1 hc
    obtain ⟨s', hcall, hpages⟩ := h.mprotect_contiguous hg ha hp hlt hc
    constructor
    · rintro ⟨result, s1, hcall1, hspec⟩
      rw [hcall, Option.some.injEq, Prod.mk.injEq] at hcall1
      obtain ⟨rfl, rfl⟩ := hcall1
      obtain ⟨page, hin, -⟩ := hmapped
      refine ⟨hne page hin, fun _ hmiss => ?_⟩
      exact absurd (hspec.enomem.2 hmiss) (by decide)
    · rintro ⟨-, hhole⟩
      have hfull : ∀ page, InRange address.toNat (roundedLength length.toNat) page → s.pageInfo page ≠ none := by
        intro page hin hnone
        obtain ⟨p, q, r, hpq, hqr, hpin, hrin, hpm, hqm, hrm⟩ := hhole hmapped ⟨page, hin, hnone⟩
        exact hall p q r hpq hqr hpin hrin hpm hrm hqm
      refine ⟨0, s', hcall, ?_, ?_, ?_, ?_⟩
      · refine ⟨fun heq => absurd heq (by decide), ?_⟩
        rintro ⟨page, hin, hnone⟩
        exact absurd hnone (hfull page hin)
      · intro hzero
        exact absurd rfl hzero
      · intro _ page hin
        obtain ⟨⟨name, prot'⟩, hinfo⟩ := Option.ne_none_iff_exists'.1 (hfull page hin)
        refine ⟨name, prot', hinfo, ?_⟩
        rw [hpages, hinfo]
        exact if_pos hin
      · intro _ page hout
        rw [hpages]
        exact if_neg hout
  · have hcall : s.mprotect host address length prot = some (-ENOMEM, s) := by
      rw [Bool.not_eq_true] at hc
      simp only [AddressSpace.mprotect, verify_of ha, if_neg hp, hend, hc, Bool.not_false, if_true, Option.bind_eq_bind,
        Option.bind_some]
    have hspec : s.AllOrNothing address.toNat (roundedLength length.toNat) prot (-ENOMEM) s ↔
        ∃ page, InRange address.toNat (roundedLength length.toNat) page ∧ s.pageInfo page = none := by
      constructor
      · intro hspec
        exact hspec.enomem.1 rfl
      · intro hmiss
        have hnz : (-ENOMEM : Int) ≠ 0 := by decide
        exact ⟨⟨fun _ => hmiss, fun _ => rfl⟩, fun _ => rfl, fun h0 => absurd h0 hnz, fun h0 => absurd h0 hnz⟩
    constructor
    · rintro ⟨result, s1, hcall1, hspec1⟩
      rw [hcall, Option.some.injEq, Prod.mk.injEq] at hcall1
      obtain ⟨rfl, rfl⟩ := hcall1
      obtain ⟨page, hin, -⟩ := hspec.1 hspec1
      refine ⟨hne page hin, fun hmapped _ => ?_⟩
      by_contra hno
      refine hc (hiff.2 ⟨hmapped, fun p q r hpq hqr hpin hrin hpm hrm hqm => ?_⟩)
      exact hno ⟨p, q, r, hpq, hqr, hpin, hrin, hpm, hqm, hrm⟩
    · rintro ⟨hl, hhole⟩
      refine ⟨-ENOMEM, s, hcall, hspec.2 ?_⟩
      have hpos : 0 < length.toNat := Nat.pos_of_ne_zero fun h0 => hl (UInt64.toNat_inj.1 h0)
      by_contra hfull
      push Not at hfull
      have hfirst : InRange address.toNat (roundedLength length.toNat) (address.toNat / PAGE_SIZE) := by
        simp only [InRange, isPageAligned, roundedLength, PAGE_SIZE_eq] at *
        omega
      refine hc (hiff.2 ⟨⟨_, hfirst, hfull _ hfirst⟩, fun p q r hpq hqr hpin hrin _ _ => hfull q ?_⟩)
      exact ⟨Nat.le_trans hpin.1 (Nat.mul_le_mul_right _ (Nat.le_of_lt hpq)),
        Nat.lt_of_le_of_lt (Nat.mul_le_mul_right _ (Nat.le_of_lt hqr)) hrin.2⟩

/-- The call is all or nothing exactly for a range of at least a page that reaches the end of the addresses, or whose pages are
all mapped, or none of them, or with a hole between two that are. -/
theorem mprotect_allOrNothing_iff (host : Host) {s : AddressSpace} (h : (machine host).Reachable s)
    (hg : host.Grants s.memorySize) {address length : UInt64} {prot : Prot} (ha : isPageAligned address.toNat)
    (hp : ¬ (prot.exec && prot.write) = true) :
    (∃ result s', s.mprotect host address length prot = some (result, s') ∧
      s.AllOrNothing address.toNat (roundedLength length.toNat) prot result s') ↔
      length ≠ 0 ∧ (2 ^ 64 ≤ address.toNat + roundedLength length.toNat ∨
        s.HoleBetween address.toNat (roundedLength length.toNat)) := by
  have hw := reachable_wf h
  by_cases hge : 2 ^ 64 ≤ address.toNat + roundedLength length.toNat
  · obtain ⟨hcall, hmiss⟩ := hw.mprotect_wraps host ha hp hge
    have hnz : (-ENOMEM : Int) ≠ 0 := by decide
    refine iff_of_true ⟨-ENOMEM, s, hcall, ⟨fun _ => hmiss, fun _ => rfl⟩, fun _ => rfl, fun h0 => absurd h0 hnz,
      fun h0 => absurd h0 hnz⟩ ⟨?_, Or.inl hge⟩
    rintro rfl
    have hlt := address.toNat_lt
    simp only [roundedLength, UInt64.toNat_zero, PAGE_SIZE_eq] at hge
    omega
  · rw [hw.mprotect_iff hg ha hp (Nat.lt_of_not_le hge)]
    exact and_congr_right fun _ => (or_iff_right hge).symm

/-- A page over the null pages, with nothing behind it. -/
def singleCalls : List MmuCall := [.ensureNullPage, .mmap 0x10000 0x1000 Prot.READ_WRITE ⟨true, false⟩]

def single : AddressSpace := ((machine lenientHost).run (empty 1 (fun _ => 0)) singleCalls).getD (empty 1 (fun _ => 0))

theorem single_reachable : (machine lenientHost).Reachable single := by
  obtain ⟨s, hs⟩ : ∃ s, (machine lenientHost).run (empty 1 (fun _ => 0)) singleCalls = some s :=
    Option.isSome_iff_exists.1 (by decide)
  rw [single, hs]
  exact Machine.Reachable.run singleCalls (Machine.Reachable.init ⟨_, _, rfl⟩) hs

/-- A range of the one page and nothing else is protected. -/
theorem mprotect_allOrNothing_sample : ∃ result s', single.mprotect lenientHost 0x10000 0x1000 ⟨true, false, false⟩ =
    some (result, s') ∧ single.AllOrNothing 0x10000 (roundedLength 0x1000) ⟨true, false, false⟩ result s' := by
  refine (mprotect_allOrNothing_iff lenientHost single_reachable (lenientHost_grants _) (by decide) (by decide)).2
    ⟨by decide, Or.inr ?_⟩
  rintro - ⟨page, hin, hnone⟩
  have hpage : page = 0x10 := by
    simp only [InRange, roundedLength, PAGE_SIZE_eq, UInt64.reduceToNat] at hin
    omega
  subst hpage
  have hmapped : (single.pageInfo 0x10).isSome := by decide
  rw [hnone] at hmapped
  cases hmapped

/-- With a page behind it that is not mapped the range is protected as well, where it should be refused. -/
theorem mprotect_allOrNothing_fails : ¬ ∀ (host : Host) (s : AddressSpace), (machine host).Reachable s →
    host.Grants s.memorySize → ∀ (address length : UInt64) (prot : Prot), isPageAligned address.toNat →
      ¬ (prot.exec && prot.write) = true → ∃ result s', s.mprotect host address length prot = some (result, s') ∧
        s.AllOrNothing address.toNat (roundedLength length.toNat) prot result s' := by
  intro hclaim
  obtain ⟨result, s', hcall, hspec⟩ := hclaim lenientHost single single_reachable (lenientHost_grants _) 0x10000 0x2000
    ⟨true, false, false⟩ (by decide) (by decide)
  have hzero : (single.mprotect lenientHost 0x10000 0x2000 ⟨true, false, false⟩).map (·.1) = some 0 := by decide
  have hmiss : single.pageInfo 0x11 = none := by decide
  rw [hcall, Option.map_some, Option.some.injEq] at hzero
  have henomem := hspec.enomem.2 ⟨0x11, by decide, hmiss⟩
  have hresult : result = 0 := hzero
  rw [henomem] at hresult
  exact absurd hresult (by decide)

end AddressSpace

end X64Emulator
