import X64Emulator.Lemmas.RegionPages

/-!
# Cloning an address space

Each region is mapped again, named, copied when it is readable, and given its protection by `mprotect`, which refuses to make a
region writable and executable. A clone has the regions of its source but for the protection of such regions.
-/

namespace X64Emulator

namespace AddressSpace

open MmuRegion

/-- Where a region is, what it is called and what is allowed in it. -/
def description (r : MmuRegion) : Nat × Nat × String × Prot := (r.base, r.size, r.name, r.prot)

/-- The protection of a region in a clone: a region that is writable and executable keeps what it was mapped with. -/
def clonedProt (prot : Prot) : Prot := if prot.exec && prot.write then Prot.READ_WRITE else prot

/-- The clone of a region. -/
def cloneDescription (r : MmuRegion) : Nat × Nat × String × Prot := (r.base, r.size, r.name, clonedProt r.prot)

theorem pageRoundUp_of_aligned {n : Nat} (h : n % PAGE_SIZE = 0) (hlt : n < 2 ^ 53) : pageRoundUp n = n := by
  simp only [pageRoundUp, u64, PAGE_SIZE_eq] at *
  omega

/-- The last region of a well-formed space: nothing lies at its end or beyond. -/
structure Last (s : AddressSpace) (l : List MmuRegion) (q : MmuRegion) : Prop where
  wf : s.Wf
  regions : s.regions = l ++ [q]
  before : ∀ a ∈ l, a.top ≤ q.base

variable {s : AddressSpace} {l : List MmuRegion} {q : MmuRegion}

theorem Last.mem (h : s.Last l q) : q ∈ s.regions := by
  rw [h.regions]
  simp

theorem Last.findAddress_base (h : s.Last l q) : s.findAddress q.base = some q :=
  h.wf.findAddress_eq_some.2 ⟨h.mem, Nat.le_refl _, (h.wf.sound q h.mem).lt⟩

theorem Last.findAddress_top (h : s.Last l q) : s.findAddress q.top = none := by
  rw [h.wf.findAddress_eq_none]
  intro a ha hin
  have hlt := (h.wf.sound q h.mem).lt
  rw [h.regions, List.mem_append, List.mem_singleton] at ha
  rcases ha with ha | rfl
  · have := h.before a ha
    omega
  · omega

theorem Last.map_last (h : s.Last l q) (f : MmuRegion → MmuRegion)
    (hf : ∀ a ∈ l, f a = a) : s.regions.map f = l ++ [f q] := by
  rw [h.regions, List.map_append, List.map_congr_left hf, List.map_id', List.map_singleton]

/-- Only the last region meets its own range. -/
theorem Last.intersects (h : s.Last l q) :
    (∀ a ∈ l, a.intersectsRange q.base q.top = false) ∧ q.intersectsRange q.base q.top = true := by
  have hlt := (h.wf.sound q h.mem).lt
  refine ⟨fun a ha => ?_, ?_⟩
  · have hmem : a ∈ s.regions := by
      rw [h.regions]
      exact List.mem_append_left _ ha
    have hb := h.before a ha
    rw [← Bool.not_eq_true, h.wf.intersects_iff hmem]
    omega
  · rw [h.wf.intersects_iff h.mem]
    omega

/-! ## The calls of one turn -/

/-- A region is mapped behind the others. -/
theorem Wf.mmap_last {host : Host} (h : s.Wf) (hg : host.Grants s.memorySize) {r : MmuRegion}
    (hr : r.Sound s.memorySize) (hbefore : ∀ q ∈ s.regions, q.top ≤ r.base) :
    ∃ s', s.mmap host r.base.toUInt64 r.size.toUInt64 Prot.READ_WRITE ⟨true, true⟩ = some (some r.base, s') ∧
      s'.Last s.regions ⟨s.nextRegion, r.base, r.size, Prot.READ_WRITE, "", false, true⟩ ∧
      s'.memorySize = s.memorySize ∧ ∀ a, a < r.base ∨ r.top ≤ a → s'.memory a = s.memory a := by
  have hlim := s.memorySize_lt
  have hsmall := s.memorySize_small
  have htop := hr.top_le
  have hba := hr.base_aligned
  have hbase : r.base.toUInt64.toNat = r.base := toNat_toUInt64 (by simp only [top] at htop; omega)
  have hsize : r.size.toUInt64.toNat = r.size := toNat_toUInt64 (by simp only [top] at htop; omega)
  have hround : pageRoundUp r.size = r.size := pageRoundUp_of_aligned hr.size_aligned (by simp only [top] at htop; omega)
  have hsum : u64 (r.base + r.size) = r.base + r.size := u64_of_lt (by simp only [top] at htop; omega)
  let q : MmuRegion := ⟨s.nextRegion, r.base, r.size, Prot.READ_WRITE, "", true, false⟩
  have hq : q.Sound s.memorySize := hr.congr rfl rfl
  have hwf : ({ s with nextRegion := s.nextRegion + 1 } : AddressSpace).Wf := h.congr rfl rfl rfl rfl (Nat.le_succ _)
  have hfresh : ({ s with nextRegion := s.nextRegion + 1 } : AddressSpace).Fresh q :=
    ⟨Nat.lt_succ_self _, fun a ha => Nat.ne_of_lt (h.ptr_lt a ha)⟩
  obtain ⟨s', hadd⟩ := hwf.addRegion_isSome hq (fun a ha => Or.inl (hbefore a ha)) hg
  have hadded := hwf.addRegion_sound hfresh hq hadd
  refine ⟨s', ?_, ⟨hadded.wf, ?_, hbefore⟩, hadded.memorySize, fun a ha => ?_⟩
  · have hnot : ¬ s.memorySize < r.base + r.size := Nat.not_lt.2 htop
    have hle : r.base + r.size ≤ s.memorySize := htop
    simp only [AddressSpace.mmap, hbase, hsize, hround, mmapBase, if_true, hsum, if_neg hnot, AddressSpace.makeRegion,
      verify_of hle, verify_of (c := isPageAligned r.base) hba, verify_of (c := isPageAligned r.size) hr.size_aligned,
      AddressSpace.placeRegion, Bool.not_true, Bool.and_false, Bool.false_eq_true, if_false, Option.bind_eq_bind,
      Option.bind_some]
    rw [show (⟨s.nextRegion, r.base, r.size, Prot.READ_WRITE, "", true, false⟩ : MmuRegion) = q from rfl, hadd]
    rfl
  · rw [hadded.regions, Ranges.insert_of_forall_lt]
    · rfl
    · intro a ha
      have h1 := (h.sound a ha).lt
      have h2 := hbefore a ha
      show a.base < r.base
      omega
  · rw [hadded.memory, if_pos rfl, memsetZero, if_neg]
    simp only [top, q] at ha ⊢
    omega

theorem Last.setRegionName (h : s.Last l q) (hb : q.base.toUInt64.toNat = q.base) (name : String) :
    ∃ s', s.setRegionName q.base.toUInt64 name = some s' ∧ s'.Last l { q with name := name } ∧
      s'.memorySize = s.memorySize ∧ s'.memory = s.memory := by
  have hfind : s.findAddress q.base.toUInt64.toNat = some q := by
    rw [hb]
    exact h.findAddress_base
  have hname : s.setRegionName q.base.toUInt64 name =
      some { s with regions := s.regions.map (fun a => if a.ptr = q.ptr then { a with name := name } else a) } := by
    rw [AddressSpace.setRegionName, hfind]
    rfl
  have hlt := (h.wf.sound q h.mem).lt
  refine ⟨_, hname, ⟨h.wf.setRegionName hname, ?_, h.before⟩, rfl, rfl⟩
  -- the other regions have other pointers
  show s.regions.map _ = _
  rw [h.map_last _ (fun a ha => ?_), if_pos rfl]
  have hmem : a ∈ s.regions := by
    rw [h.regions]
    exact List.mem_append_left _ ha
  refine if_neg fun hptr => ?_
  have heq := h.wf.ptr_inj a hmem q h.mem hptr
  have hb := h.before a ha
  rw [heq] at hb
  omega

theorem Last.copyToMmu (h : s.Last l q)
    (hb : q.base.toUInt64.toNat = q.base) (hw : q.prot.write = true) (src : Memory) :
    ∃ s', s.copyToMmu q.base.toUInt64 src q.size = some s' ∧ s'.Last l q ∧ s'.memorySize = s.memorySize ∧
      ∀ a, s'.memory a = if q.base ≤ a ∧ a < q.top then src (a - q.base) else s.memory a := by
  have hne : q.size ≠ 0 := Nat.ne_of_gt (h.wf.sound q h.mem).nonempty
  refine ⟨{ s with memory := fun a => if q.base ≤ a ∧ a < q.top then src (a - q.base) else s.memory a }, ?_,
    ⟨h.wf.congr rfl rfl rfl rfl (Nat.le_refl _), h.regions, h.before⟩, rfl, fun a => rfl⟩
  simp only [AddressSpace.copyToMmu, if_neg hne, hb, h.findAddress_base, verify_of hw, Option.bind_eq_bind,
    Option.bind_some, top]
  rfl

/-- Protecting the last region is refused when it would be writable and executable, and changes nothing but it else. -/
theorem Last.mprotect {host : Host} (h : s.Last l q)
    (hg : host.Grants s.memorySize) (hb : q.base.toUInt64.toNat = q.base) (hs : q.size.toUInt64.toNat = q.size)
    (hsmall : q.size < 2 ^ 53) (prot : Prot) :
    ∃ result s', s.mprotect host q.base.toUInt64 q.size.toUInt64 prot = some (result, s') ∧
      s'.Last l { q with prot := if prot.exec && prot.write then q.prot else prot } ∧
      s'.memorySize = s.memorySize ∧ s'.memory = s.memory := by
  have hsound := h.wf.sound q h.mem
  have halign : isPageAligned q.base.toUInt64.toNat := by
    rw [hb]
    exact hsound.base_aligned
  by_cases hp : (prot.exec && prot.write) = true
  · refine ⟨-EACCES, s, ?_, ?_, rfl, rfl⟩
    · simp only [AddressSpace.mprotect, verify_of halign, if_pos hp, Option.bind_eq_bind, Option.bind_some]
    · rw [if_pos hp]
      exact h
  · have hend : u64 (q.base + pageRoundUp q.size) = q.top := by
      rw [pageRoundUp_of_aligned hsound.size_aligned hsmall]
      exact h.wf.end_eq h.mem
    obtain ⟨hothers, hself⟩ := h.intersects
    have hmeeting : meeting q.base q.top s.regions = [q] := by
      have hnil : meeting q.base q.top l = [] :=
        List.filter_eq_nil_iff.2 fun a ha => by simp [hothers a ha]
      rw [h.regions, meeting, List.filter_append, show l.filter _ = [] from hnil, List.nil_append]
      exact List.filter_cons_of_pos hself
    have hc : contiguous q.base q.top none s.regions = true := by
      rw [contiguous_none_iff, hmeeting]
      exact ⟨List.cons_ne_nil _ _, List.IsChain.singleton _⟩
    have htop := h.wf.top_aligned h.mem
    have hsplit1 : s.split host q.base = some s := by
      simp only [AddressSpace.split, verify_of (c := isPageAligned q.base) hsound.base_aligned, h.findAddress_base, if_true,
        Option.bind_eq_bind, Option.bind_some]
    have hsplit2 : s.split host q.top = some s := by
      simp only [AddressSpace.split, verify_of (c := isPageAligned q.top) htop, h.findAddress_top, Option.bind_eq_bind,
        Option.bind_some]
    obtain ⟨⟨l', memory, log⟩, hloop⟩ := protectRegions_isSome hg q.base q.top prot
      h.wf.sound s.memory s.notifications
    have hwf := h.wf.protectRegions hloop
    obtain ⟨rfl, rfl⟩ := protectRegions_eq_some h.wf.settled hloop
    refine ⟨0, _, ?_, ⟨hwf, ?_, h.before⟩, rfl, rfl⟩
    · rw [hb] at halign
      simp only [AddressSpace.mprotect, hb, verify_of halign, if_neg hp, hs, hend, hc, Bool.not_true, Bool.false_eq_true,
        if_false, hsplit1, hsplit2, hloop, Option.bind_eq_bind, Option.bind_some]
    · show s.regions.map _ = _
      rw [h.map_last _ (fun a ha => by simp [hothers a ha]), if_pos hself, if_neg hp]

end AddressSpace

namespace ClonedSpaces

open AddressSpace MmuRegion

/-- What one turn of the loop adds to the clone. -/
structure Cloned (s : ClonedSpaces) (r : MmuRegion) (s' : ClonedSpaces) : Prop where
  wf : s'.target.Wf
  memorySize : s'.target.memorySize = s.target.memorySize
  source : s'.source = s.source
  region : ∃ q, s'.target.regions = s.target.regions ++ [q] ∧ description q = cloneDescription r
  before : ∀ q ∈ s.target.regions, q.top ≤ r.base
  outside : ∀ a, a < r.base ∨ r.top ≤ a → s'.target.memory a = s.target.memory a
  inside : r.prot.read = true → ∀ a, r.base ≤ a → a < r.top → s'.target.memory a = s.source.memory a

theorem cloneRegion_isSome {host : Host} {s : ClonedSpaces} (h : s.target.Wf) (hg : host.Grants s.target.memorySize)
    {r : MmuRegion} (hr : r.Sound s.target.memorySize) (hbefore : ∀ q ∈ s.target.regions, q.top ≤ r.base) :
    ∃ s', s.cloneRegion host r = some s' ∧ s.Cloned r s' := by
  have hsmall := s.target.memorySize_small
  have htop := hr.top_le
  have hb : r.base.toUInt64.toNat = r.base := toNat_toUInt64 (by simp only [top] at htop; omega)
  have hsize : r.size < 2 ^ 53 := by
    simp only [top] at htop
    omega
  have hs : r.size.toUInt64.toNat = r.size := toNat_toUInt64 (by omega)
  obtain ⟨s1, h1, hlast1, hsize1, hmem1⟩ := h.mmap_last hg hr hbefore
  obtain ⟨s2, h2, hlast2, hsize2, hmem2⟩ := hlast1.setRegionName hb r.name
  obtain ⟨s3, h3, hlast3, hsize3, hout3, hin3⟩ : ∃ s3, copyReadable s.source s2 r r.base = some s3 ∧
      s3.Last s.target.regions ⟨s.target.nextRegion, r.base, r.size, Prot.READ_WRITE, r.name, false, true⟩ ∧
      s3.memorySize = s2.memorySize ∧ (∀ a, a < r.base ∨ r.top ≤ a → s3.memory a = s2.memory a) ∧
      (r.prot.read = true → ∀ a, r.base ≤ a → a < r.top → s3.memory a = s.source.memory a) := by
    by_cases hread : r.prot.read = true
    · obtain ⟨s3, h3, hlast3, hsize3, hmem3⟩ := hlast2.copyToMmu hb rfl (fun i => s.source.memory (r.base + i))
      refine ⟨s3, by rw [copyReadable, if_pos hread]; exact h3, hlast3, hsize3, ?_, ?_⟩
      · intro a ha
        rw [hmem3, if_neg]
        simp only [top] at ha ⊢
        omega
      · intro _ a h4 h5
        rw [hmem3, if_pos ⟨h4, h5⟩, Nat.add_sub_cancel' h4]
    · exact ⟨s2, by rw [copyReadable, if_neg hread], hlast2, rfl, fun _ _ => rfl, fun hyes => absurd hyes hread⟩
  have hg3 : host.Grants s3.memorySize := by
    rw [hsize3, hsize2, hsize1]
    exact hg
  obtain ⟨result, s4, h4, hlast4, hsize4, hmem4⟩ := hlast3.mprotect hg3 hb hs hsize r.prot
  have hturn : s.cloneRegion host r = some { s with target := s4 } := by
    simp only [cloneRegion, h1, h2, h3, h4, Option.bind_eq_bind, Option.bind_some]
  refine ⟨_, hturn, hlast4.wf, ?_, rfl, ⟨_, hlast4.regions, rfl⟩, hbefore, ?_, ?_⟩
  · show s4.memorySize = s.target.memorySize
    rw [hsize4, hsize3, hsize2, hsize1]
  · intro a ha
    show s4.memory a = s.target.memory a
    rw [hmem4, hout3 a ha, hmem2, hmem1 a ha]
  · intro hread a ha1 ha2
    show s4.memory a = s.source.memory a
    rw [hmem4, hin3 hread a ha1 ha2]

/-- The loop over regions in order that lie behind those of the clone. -/
theorem cloneRegions_isSome {host : Host} {s : ClonedSpaces} (h : s.target.Wf) (hg : host.Grants s.target.memorySize)
    {l : List MmuRegion} (hl : ∀ r ∈ l, r.Sound s.target.memorySize) (ho : Ranges.Ordered MmuRegion.base top l)
    (hbefore : ∀ r ∈ l, ∀ q ∈ s.target.regions, q.top ≤ r.base) :
    ∃ s', l.foldlM (cloneRegion host) s = some s' ∧ s'.source = s.source ∧
      s'.target.regions.map description = s.target.regions.map description ++ l.map cloneDescription ∧
      (∀ a, (∀ r ∈ l, a < r.base ∨ r.top ≤ a) → s'.target.memory a = s.target.memory a) ∧
      ∀ r ∈ l, r.prot.read = true → ∀ a, r.base ≤ a → a < r.top → s'.target.memory a = s.source.memory a := by
  induction l generalizing s with
  | nil => exact ⟨s, rfl, rfl, by simp, fun _ _ => rfl, by simp⟩
  | cons r l ih =>
    obtain ⟨hr, hol⟩ := List.pairwise_cons.1 ho
    obtain ⟨s1, hturn, hcloned⟩ := cloneRegion_isSome h hg (hl r List.mem_cons_self) (hbefore r List.mem_cons_self)
    obtain ⟨q, hq, hdesc⟩ := hcloned.region
    have hqtop : q.top = r.top := by
      simp only [description, cloneDescription, Prod.mk.injEq] at hdesc
      rw [top, top, hdesc.1, hdesc.2.1]
    obtain ⟨s', hrest, hsource, hregions, hout, hin⟩ := ih hcloned.wf (by rw [hcloned.memorySize]; exact hg)
      (fun a ha => by rw [hcloned.memorySize]; exact hl a (List.mem_cons_of_mem _ ha)) hol (by
        intro a ha b hb
        rw [hq, List.mem_append, List.mem_singleton] at hb
        rcases hb with hb | rfl
        · exact hbefore a (List.mem_cons_of_mem _ ha) b hb
        · rw [hqtop]
          exact hr a ha)
    refine ⟨s', ?_, hsource.trans hcloned.source, ?_, ?_, ?_⟩
    · rw [List.foldlM_cons, hturn, Option.bind_eq_bind, Option.bind_some, hrest]
    · rw [hregions, hq, List.map_append, List.map_singleton, hdesc, List.append_assoc]
      rfl
    · intro a ha
      rw [hout a (fun b hb => ha b (List.mem_cons_of_mem _ hb)), hcloned.outside a (ha r List.mem_cons_self)]
    · intro b hb hread a ha1 ha2
      rcases List.mem_cons.1 hb with rfl | hb
      · -- the later regions lie behind this one, so they leave its bytes alone
        rw [hout a (fun c hc => Or.inl (Nat.lt_of_lt_of_le ha2 (hr c hc))), hcloned.inside hread a ha1 ha2]
      · rw [hin b hb hread a ha1 ha2, hcloned.source]

/-- The clone is like its source: the regions agree, and so do the bytes of those that can be read. -/
structure Alike (s s' : ClonedSpaces) : Prop where
  regions : s'.target.regions.map description = s.source.regions.map description
  contents : ∀ r ∈ s.source.regions, r.prot.read = true → ∀ a, r.base ≤ a → a < r.top →
    s'.target.memory a = s.source.memory a
  source : s'.source = s.source

/-- A clone into an empty space that is large enough is like its source exactly when no region of the source is both writable
and executable. -/
theorem clone_iff (host : Host) {s : ClonedSpaces} (hs : (machine host).Reachable s.source)
    (ht : (machine host).Reachable s.target) (hg : host.Grants s.target.memorySize) (he : s.target.regions = [])
    (hsize : s.source.memorySize ≤ s.target.memorySize) :
    (∃ s', s.clone host = some s' ∧ s.Alike s') ↔ ∀ r ∈ s.source.regions, ¬ (r.prot.exec && r.prot.write) = true := by
  have hw := reachable_wf hs
  obtain ⟨s', hloop, hsource, hregions, -, hin⟩ := cloneRegions_isSome (reachable_wf ht) hg
    (fun r hr => by
      have hsound := hw.sound r hr
      exact ⟨hsound.nonempty, hsound.base_aligned, hsound.size_aligned, Nat.le_trans hsound.top_le hsize⟩)
    hw.ordered (by simp [he])
  have hclone : s.clone host = some s' := by
    simp only [clone, verify_of he, Option.bind_eq_bind, Option.bind_some, hloop]
  rw [he, List.map_nil, List.nil_append] at hregions
  constructor
  · rintro ⟨s1, hclone1, hregions1, -⟩ r hr hboth
    rw [hclone, Option.some.injEq] at hclone1
    subst hclone1
    have hsame := List.map_inj_left.1 (hregions.symm.trans hregions1) r hr
    simp only [cloneDescription, description, clonedProt, if_pos hboth, Prod.mk.injEq, true_and] at hsame
    rw [← hsame] at hboth
    exact absurd hboth (by decide)
  · intro hnone
    refine ⟨s', hclone, ?_, hin, hsource⟩
    rw [hregions]
    refine List.map_congr_left fun r hr => ?_
    rw [cloneDescription, description, clonedProt, if_neg (hnone r hr)]

/-- The null pages, a page that can only be executed, and a page of the given protection. -/
def sourceCalls (prot : Prot) : List MmuCall :=
  [.ensureNullPage, .mmap 0x10000 0x1000 ⟨false, false, true⟩ ⟨true, false⟩, .mmap 0x11000 0x1000 prot ⟨true, false⟩]

def sourceOf (prot : Prot) : AddressSpace :=
  ((machine lenientHost).run (empty 1 (fun _ => 0)) (sourceCalls prot)).getD (empty 1 (fun _ => 0))

theorem sourceOf_reachable (prot : Prot) : (machine lenientHost).Reachable (sourceOf prot) := by
  rw [sourceOf]
  cases hs : (machine lenientHost).run (empty 1 (fun _ => 0)) (sourceCalls prot) with
  | none => exact Machine.Reachable.init ⟨_, _, rfl⟩
  | some s => exact Machine.Reachable.run (sourceCalls prot) (Machine.Reachable.init ⟨_, _, rfl⟩) hs

/-- Pages that can only be executed, or read and executed, are cloned as they are. -/
theorem clone_iff_sample : ∃ s', clone lenientHost ⟨empty 1 (fun _ => 0), sourceOf ⟨true, false, true⟩⟩ = some s' ∧
    Alike ⟨empty 1 (fun _ => 0), sourceOf ⟨true, false, true⟩⟩ s' := by
  refine (clone_iff lenientHost (sourceOf_reachable ⟨true, false, true⟩) (Machine.Reachable.init ⟨_, _, rfl⟩) (lenientHost_grants _) rfl
    (by decide)).2 ?_
  have hall : (sourceOf ⟨true, false, true⟩).regions.all (fun r => !(r.prot.exec && r.prot.write)) = true := by
    decide
  intro r hr hboth
  have hnot := List.all_eq_true.1 hall r hr
  rw [hboth] at hnot
  cases hnot

/-- A page that can be written and executed loses the right to be executed. -/
theorem clone_iff_fails : ¬ ∀ (host : Host) (s : ClonedSpaces), (machine host).Reachable s.source →
    (machine host).Reachable s.target → host.Grants s.target.memorySize → s.target.regions = [] →
    s.source.memorySize ≤ s.target.memorySize → ∃ s', s.clone host = some s' ∧ s.Alike s' := by
  intro hclaim
  obtain ⟨s', hclone, halike⟩ := hclaim lenientHost ⟨empty 1 (fun _ => 0), sourceOf ⟨true, true, true⟩⟩
    (sourceOf_reachable ⟨true, true, true⟩) (Machine.Reachable.init ⟨_, _, rfl⟩) (lenientHost_grants _) rfl
    (by decide)
  have hprots : (clone lenientHost ⟨empty 1 (fun _ => 0), sourceOf ⟨true, true, true⟩⟩).map
      (fun s' => s'.target.regions.map description) ≠
        some ((sourceOf ⟨true, true, true⟩).regions.map description) := by decide
  rw [hclone, Option.map_some, halike.regions] at hprots
  exact hprots rfl

end ClonedSpaces

end X64Emulator
