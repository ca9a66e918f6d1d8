import X64Emulator.Lemmas.RegionPages
import X64Emulator.Lemmas.RegionNotices

/-!
# Unmapping a range

`munmap` splits the regions at both ends of the range and takes every region that meets it. Only pages of the range go, and the
callbacks hear of the regions that are cut and taken what they need to know the executable pages that are left.
-/

namespace X64Emulator

namespace AddressSpace

open MmuRegion

/-- The space after a range was unmapped. -/
structure Unmapped (s : AddressSpace) (address length : Nat) (s' : AddressSpace) : Prop where
  inside : ∀ page, InRange address length page → s'.pageInfo page = none
  outside : ∀ page, ¬ InRange address length page → s'.pageInfo page = s.pageInfo page
  contents : ∀ a, a < address ∨ address + length ≤ a → s'.memory a = s.memory a
  /-- a callback that knew the executable pages before the call knows them after it -/
  told : s.Tells s'
  /-- a callback that heard everything knows them -/
  known : heard (fun _ => false) s'.notifications = s'.executablePages

/-- A range inside the memory is unmapped, and nothing else is. -/
theorem munmap_unmaps (host : Host) {s : AddressSpace} (h : (machine host).Reachable s) (hg : host.Grants s.memorySize)
    {address length : UInt64} (ha : isPageAligned address.toNat)
    (hle : address.toNat + roundedLength length.toNat ≤ s.memorySize) :
    ∃ s', s.munmap host address length = some (0, s') ∧
      s.Unmapped address.toNat (roundedLength length.toNat) s' := by
  have hw := reachable_wf h
  have hsize := s.memorySize_lt
  have hround := pageRoundUp_eq (show roundedLength length.toNat < 2 ^ 64 by omega)
  have hend : u64 (address.toNat + pageRoundUp length.toNat) = address.toNat + roundedLength length.toNat := by
    rw [hround]
    exact u64_of_lt (by omega)
  have hlast : (address.toNat + roundedLength length.toNat) % PAGE_SIZE = 0 := by
    simp only [isPageAligned, roundedLength, PAGE_SIZE_eq] at ha ⊢
    omega
  obtain ⟨s1, s2, h1, h2, hs1, hs2, hb⟩ := hw.bounded_isSome ha hlast hg
  obtain ⟨s3, h3⟩ := hb.wf.dropRegions_isSome
    (l := s2.regions.filter (·.intersectsRange address.toNat (address.toNat + roundedLength length.toNat)))
    (fun q hq => (List.mem_filter.1 hq).1) (hb.wf.nodup.filter _) (by rw [hb.memorySize]; exact hg)
  have hd := hb.wf.dropRegions (fun q hq => (List.mem_filter.1 hq).1) (hb.wf.nodup.filter _) h3
  have hcall : s.munmap host address length = some (0, s3) := by
    simp only [AddressSpace.munmap, verify_of ha, hend, h1, h2, h3, Option.bind_eq_bind, Option.bind_some]
  have hreach : (machine host).Reachable s3 := h.step (.munmap address length) (by
    show (s.munmap host address length).map (·.2) = some s3
    rw [hcall]
    rfl)
  refine ⟨s3, hcall, ?_, ?_, ?_, ((hw.munmap_changes hcall).evolves hw).told, reachable_heard hreach⟩
  · intro page hin
    rw [hb.dropped hd]
    exact if_pos hin
  · intro page hout
    rw [hb.dropped hd]
    exact if_neg hout
  · intro a _
    rw [hd.memory, hb.memory]

/-- The null pages, and a region of four pages with an executable part that a range of three pages cuts at both ends. -/
def executableCalls : List MmuCall :=
  [.ensureNullPage, .mmap 0x10000 0x4000 ⟨true, false, true⟩ ⟨true, false⟩, .mprotect 0x12000 0x1000 Prot.READ_WRITE]

theorem munmap_unmaps_sample : ∃ s, (machine lenientHost).run (empty 1 (fun _ => 0)) executableCalls = some s ∧
    ∃ s', s.munmap lenientHost 0x11000 0x1800 = some (0, s') ∧ s.Unmapped 0x11000 0x2000 s' := by
  obtain ⟨s, hs⟩ : ∃ s, (machine lenientHost).run (empty 1 (fun _ => 0)) executableCalls = some s :=
    Option.isSome_iff_exists.1 (by decide)
  have hsize : s.memorySize = 0x100000 := by
    have hall : ((machine lenientHost).run (empty 1 (fun _ => 0)) executableCalls).map memorySize = some 0x100000 := by
      decide
    rw [hs] at hall
    simpa using hall
  exact ⟨s, hs, munmap_unmaps lenientHost
    (Machine.Reachable.run executableCalls (Machine.Reachable.init ⟨_, _, rfl⟩) hs) (lenientHost_grants _) (by decide)
    (by rw [hsize]; decide)⟩

end AddressSpace

end X64Emulator
