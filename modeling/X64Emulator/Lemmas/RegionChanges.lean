import X64Emulator.Lemmas.RegionPages
import Mathlib.Logic.Relation

/-!
# What a call is made of

Every call makes a few kinds of changes to the regions, one after the other: a region joins the table or leaves it, a region is
split, the regions of a range get another protection. What a callback hears is told for each kind of change on its own, and then
holds of the calls.
-/

namespace X64Emulator

namespace AddressSpace

open MmuRegion

/-- What a callback is told of a region. -/
def place (r : MmuRegion) : Nat × Nat × Prot := (r.base, r.size, r.prot)

/-- One change of the regions. A quiet one leaves the regions where they are and how they are protected. -/
inductive Change (s : AddressSpace) : AddressSpace → Prop where
  | quiet {s' : AddressSpace} (wf : s'.Wf) (regions : s'.regions.map place = s.regions.map place)
      (notifications : s'.notifications = s.notifications) (topOfReserved : s'.topOfReserved = s.topOfReserved) : Change s s'
  | added {s' : AddressSpace} (r : MmuRegion) (h : s.Added r s') : Change s s'
  | taken {s' : AddressSpace} (r : MmuRegion) (hr : r ∈ s.regions) (h : s.Taken r s') : Change s s'
  | split {s' : AddressSpace} (address : Nat) (h : s.SplitAt address s') : Change s s'
  | protects (host : Host) (address end_ : Nat) (prot : Prot) (l : List MmuRegion) (memory : Memory) (log : List Notification)
      (h : protectRegions host address end_ prot s.regions s.memory s.notifications = some (l, memory, log)) :
      Change s { s with regions := l, memory := memory, notifications := log }

/-- Changes one after the other. -/
def Changes : AddressSpace → AddressSpace → Prop := Relation.ReflTransGen Change

theorem Changes.refl (s : AddressSpace) : s.Changes s := Relation.ReflTransGen.refl

variable {s s' : AddressSpace} {address : UInt64} {host : Host}

theorem Changes.trans {s'' : AddressSpace} (h : s.Changes s') (h' : s'.Changes s'') : s.Changes s'' :=
  Relation.ReflTransGen.trans h h'

theorem Change.changes (h : s.Change s') : s.Changes s' := Relation.ReflTransGen.single h

theorem Change.wf (h : s.Change s') (hw : s.Wf) : s'.Wf := by
  cases h with
  | quiet wf _ _ _ => exact wf
  | added r h => exact h.wf
  | taken r _ h => exact h.wf
  | split address h => exact h.wf
  | protects host address end_ prot l memory log h => exact hw.protectRegions h

theorem Added.changes {r : MmuRegion} (h : s.Added r s') : s.Changes s' := (Change.added r h).changes

theorem Taken.changes {r : MmuRegion} (hr : r ∈ s.regions) (h : s.Taken r s') : s.Changes s' :=
  (Change.taken r hr h).changes

theorem SplitAt.changes {address : Nat} (h : s.SplitAt address s') : s.Changes s' :=
  (Change.split address h).changes

/-- What each change keeps, every call keeps. -/
theorem Changes.induct {p : AddressSpace → AddressSpace → Prop} (hrefl : ∀ s, p s s)
    (htrans : ∀ s s' s'', p s s' → p s' s'' → p s s'') (hchange : ∀ s s', s.Wf → s.Change s' → p s s')
    (h : s.Changes s') (hw : s.Wf) : s'.Wf ∧ p s s' := by
  induction h with
  | refl => exact ⟨hw, hrefl s⟩
  | tail _ hlast ih =>
    obtain ⟨hw', hp⟩ := ih
    exact ⟨hlast.wf hw', htrans _ _ _ hp (hchange _ _ hw' hlast)⟩

theorem Wf.counter_changes (h : s.Wf) : s.Changes { s with nextRegion := s.nextRegion + 1 } :=
  have hwf : { s with nextRegion := s.nextRegion + 1 }.Wf :=
    ⟨h.sound, h.ordered, h.ptr_inj, fun r hr => Nat.lt_succ_of_lt (h.ptr_lt r hr), h.owner, h.first, h.settled⟩
  (Change.quiet (s := s) hwf rfl rfl rfl).changes

theorem Wf.dropRegions_changes (h : s.Wf) {l : List MmuRegion}
    (hl : ∀ r ∈ l, r ∈ s.regions) (hn : l.Nodup) (hd : s.dropRegions host l = some s') : s.Changes s' := by
  induction l generalizing s with
  | nil =>
    simp only [AddressSpace.dropRegions, List.foldlM_nil, Option.pure_def, Option.some.injEq] at hd
    subst hd
    exact Changes.refl s
  | cons r l ih =>
    simp only [AddressSpace.dropRegions, List.foldlM_cons, Option.bind_eq_bind, Option.bind_eq_some_iff,
      Option.map_eq_some_iff, Prod.exists] at hd
    obtain ⟨_, ⟨r1, s1, htake, rfl⟩, hd⟩ := hd
    have hr := hl r List.mem_cons_self
    obtain ⟨r', hr', hfind, -, htaken⟩ := h.takeRegion htake
    rw [h.find_at hr, Option.some.injEq] at hfind
    subst hfind
    obtain ⟨hnr, hnl⟩ := List.nodup_cons.1 hn
    refine (htaken.changes hr).trans (ih htaken.wf ?_ hnl hd)
    intro q hq
    refine (htaken.mem_regions q).2 ⟨hl q (List.mem_cons_of_mem _ hq), ?_⟩
    rintro rfl
    exact hnr hq

/-! ## The calls -/

theorem Wf.addRegionAndEraseExisting_changes (h : s.Wf) {r : MmuRegion} (hf : s.Fresh r)
    (hb : r.base < 2 ^ 64) (hs : r.size < 2 ^ 64) (he : r.end_ ≤ s.memorySize)
    (ha : s.addRegionAndEraseExisting host r = some s') : s.Changes s' := by
  obtain ⟨s1, s2, s3, h1, h2, h3, h4⟩ := addRegionAndEraseExisting_eq_some ha
  have hs1 := h.split h1
  have hs2 := hs1.wf.split h2
  obtain ⟨hsub, hnodup⟩ := hs2.wf.toErase r
  have hs3 := hs2.wf.dropRegions hsub hnodup h3
  have hsize : s3.memorySize = s.memorySize := by rw [hs3.memorySize, hs2.memorySize, hs1.memorySize]
  have hs4 := hs3.wf.addRegion (hs3.fresh (hs2.fresh (hs1.fresh hf))) hb hs (by rw [hsize]; exact he) h4
  exact hs1.changes.trans (hs2.changes.trans ((hs2.wf.dropRegions_changes hsub hnodup h3).trans hs4.changes))

theorem Wf.placeRegion_changes (h : s.Wf) {r : MmuRegion} {flags : MapFlags}
    (hf : s.Fresh r) (hb : r.base < 2 ^ 64) (hs : r.size < 2 ^ 64) (he : r.end_ ≤ s.memorySize)
    (ha : s.placeRegion host r flags = some s') : s.Changes s' := by
  unfold AddressSpace.placeRegion at ha
  split at ha
  · exact h.addRegionAndEraseExisting_changes hf hb hs he ha
  · exact (h.addRegion hf hb hs he ha).changes

theorem Wf.mmap_changes (h : s.Wf) {length : UInt64} {prot : Prot}
    {flags : MapFlags} {result : Option Nat} (hm : s.mmap host address length prot flags = some (result, s')) :
    s.Changes s' := by
  obtain ⟨base, hbase, ⟨-, rfl⟩ | ⟨-, r, s1, hmake, hplace⟩⟩ := mmap_cases hm
  · exact Changes.refl _
  · obtain ⟨hle, rfl, hwf, hfresh, rfl⟩ := h.makeRegion hmake
    exact h.counter_changes.trans (hwf.placeRegion_changes (r := ⟨s.nextRegion, base, _, prot, "", true, false⟩) hfresh
      (mmapBase_lt hbase) (pageRoundUp_lt _) hle hplace)

theorem Wf.munmap_changes (h : s.Wf) {length : UInt64} {result : Int}
    (hm : s.munmap host address length = some (result, s')) : s.Changes s' := by
  obtain ⟨s1, s2, h1, h2, h3⟩ := munmap_eq_some hm
  have hs1 := h.split h1
  have hs2 := hs1.wf.split h2
  exact hs1.changes.trans (hs2.changes.trans
    (hs2.wf.dropRegions_changes (fun _ hq => (List.mem_filter.1 hq).1) (hs2.wf.nodup.filter _) h3))

theorem Wf.mprotect_changes (h : s.Wf) {length : UInt64} {prot : Prot}
    {result : Int} (hm : s.mprotect host address length prot = some (result, s')) : s.Changes s' := by
  obtain ⟨-, rfl⟩ | ⟨-, s1, s2, l, memory, log, h1, h2, hloop, rfl⟩ := mprotect_cases hm
  · exact Changes.refl _
  · have hs1 := h.split h1
    have hs2 := hs1.wf.split h2
    exact hs1.changes.trans (hs2.changes.trans (Change.protects _ _ _ _ _ _ _ hloop).changes)

theorem Wf.setRegionName_changes (h : s.Wf) {name : String}
    (hm : s.setRegionName address name = some s') : s.Changes s' := by
  have hwf := h.setRegionName hm
  simp only [AddressSpace.setRegionName, Option.bind_eq_bind, Option.bind_eq_some_iff, Option.some.injEq] at hm
  obtain ⟨r, -, rfl⟩ := hm
  refine (Change.quiet (s := s) hwf ?_ rfl rfl).changes
  -- a name is no part of a region's place
  refine List.map_map.trans (List.map_congr_left fun q _ => ?_)
  simp only [Function.comp_apply]
  split <;> rfl

theorem Wf.brkGrow_changes (h : s.Wf) {address result : Nat}
    (hb : s.brkGrow host address = some (result, s')) : s.Changes s' := by
  obtain ⟨heap, hheap, -, s1, s3, r, s4, htaken, hadded, hr, -, -, htaken', hadded', -⟩ := h.brkGrow_stations hb
  exact (htaken.changes hheap).trans (htaken.wf.counter_changes.trans
    (hadded.changes.trans ((htaken'.changes hr).trans hadded'.changes)))

theorem Wf.brkShrink_changes (h : s.Wf) {address result : Nat}
    (hlt : ∀ heap, s.findRegion "heap" = some heap → address < heap.end_)
    (hb : s.brkShrink host address = some (result, s')) : s.Changes s' := by
  obtain ⟨heap, hheap, -, s1, htaken, hadded, -⟩ := h.brkShrink_stations hlt hb
  exact (htaken.changes hheap).trans hadded.changes

theorem Wf.brk_changes (h : s.Wf) {result : Nat}
    (hb : s.brk host address = some (result, s')) : s.Changes s' := by
  simp only [AddressSpace.brk, Option.bind_eq_bind, Option.bind_eq_some_iff] at hb
  obtain ⟨heap, hheap, hb⟩ := hb
  split at hb
  · simp only [Option.some.injEq, Prod.mk.injEq] at hb
    obtain ⟨-, rfl⟩ := hb
    exact Changes.refl s
  · next hrefused =>
    split at hb
    · exact h.brkGrow_changes hb
    · next hnot =>
      exact h.brkShrink_changes (lt_of_not_refused hheap hrefused hnot) hb

theorem Wf.ensureNullPage_changes (h : s.Wf) (hn : s.ensureNullPage host = some s') : s.Changes s' := by
  unfold AddressSpace.ensureNullPage at hn
  split at hn
  · simp only [Option.bind_eq_bind, Option.bind_eq_some_iff, Prod.exists] at hn
    obtain ⟨r, s1, hmake, hadd⟩ := hn
    obtain ⟨hle, rfl, hwf, hfresh, rfl⟩ := h.makeRegion hmake
    have hb : 0 < 2 ^ 64 := by decide
    have hs : 16 * PAGE_SIZE < 2 ^ 64 := by decide
    exact h.counter_changes.trans
      (hwf.addRegion (r := ⟨s.nextRegion, 0, _, _, "nullpage", false, false⟩) hfresh hb hs hle hadd).changes
  · simp only [Option.bind_eq_bind, Option.bind_eq_some_iff, verify_eq_some, exists_const, Option.some.injEq] at hn
    obtain ⟨-, rfl⟩ := hn
    exact Changes.refl s

theorem Wf.write8_changes (h : s.Wf) {value : UInt8} (hw : s.write8 address value = some s') :
    s.Changes s' := by
  have hwf := h.write8 hw
  simp only [AddressSpace.write8, Option.bind_eq_bind, Option.bind_eq_some_iff, verify_eq_some, exists_const,
    Option.some.injEq] at hw
  obtain ⟨r, -, -, rfl⟩ := hw
  exact (Change.quiet (s := s) hwf rfl rfl rfl).changes

/-- Every call makes changes one after the other. -/
theorem step_changes (call : MmuCall) (h : s.Wf) (hs : s.step host call = some s') : s.Changes s' := by
  cases call with
  | mmap address length prot flags =>
    obtain ⟨⟨result, s1⟩, hm, rfl⟩ := Option.map_eq_some_iff.1 hs
    exact h.mmap_changes hm
  | munmap address length =>
    obtain ⟨⟨result, s1⟩, hm, rfl⟩ := Option.map_eq_some_iff.1 hs
    exact h.munmap_changes hm
  | mprotect address length prot =>
    obtain ⟨⟨result, s1⟩, hm, rfl⟩ := Option.map_eq_some_iff.1 hs
    exact h.mprotect_changes hm
  | brk address =>
    obtain ⟨⟨result, s1⟩, hm, rfl⟩ := Option.map_eq_some_iff.1 hs
    exact h.brk_changes hm
  | setRegionName address name => exact h.setRegionName_changes hs
  | ensureNullPage => exact h.ensureNullPage_changes hs
  | clearAllRegions =>
    exact h.dropRegions_changes (fun _ hr => List.mem_reverse.1 hr) (List.reverse_perm _ |>.nodup_iff.2 h.nodup) hs
  | write8 address value => exact h.write8_changes hs

end AddressSpace

end X64Emulator
