import X64Emulator.ElfLoading
import X64Emulator.Lemmas.RegionPages

/-!
# Loading one segment after the other

`ImageOf` is what the segments of a list leave in an address space: their ranges were free, all pages of a range have the
protection that `mprotect` left them with, and what was mapped before is as it was. One segment leaves it, and so does a list.
-/

namespace X64Emulator
namespace ElfLoading

open ElfReader AddressSpace

/-- The protection that the pages of a segment are left with: `mprotect` refuses one that is writable and executable. -/
def loadedProt (header : ProgramHeader Nat) : Prot :=
  if (protection header).exec && (protection header).write then Prot.WRITE else protection header

/-- Where the bytes of a segment begin. -/
def placeOf (elfOffset : Nat) (header : ProgramHeader Nat) : Nat := u64 (elfOffset + header.p_vaddr)

/-- A byte of the pages of a segment: a byte of the file, or a zero around them. -/
def segmentByte (elf : Elf) (elfOffset : Nat) (header : ProgramHeader Nat) (a : Nat) : UInt8 :=
  if placeOf elfOffset header ≤ a ∧ a < placeOf elfOffset header + header.p_filesz then
    elf.bytes.get (header.p_offset + (a - placeOf elfOffset header))
  else 0

/-- The page begins in the range that is mapped for a segment. -/
def InSegment (elfOffset : Nat) (header : ProgramHeader Nat) (page : Nat) : Prop :=
  segmentStart elfOffset header ≤ page * PAGE_SIZE ∧ page * PAGE_SIZE < segmentEnd elfOffset header

/-- The bytes of the file end in the range that is mapped for the segment. -/
def Contained (elfOffset : Nat) (header : ProgramHeader Nat) : Prop :=
  placeOf elfOffset header + header.p_filesz ≤ segmentEnd elfOffset header

theorem segmentStart_aligned (elfOffset : Nat) (header : ProgramHeader Nat) : segmentStart elfOffset header % PAGE_SIZE = 0 :=
  Nat.mul_mod_left _ _

theorem segmentEnd_aligned (elfOffset : Nat) (header : ProgramHeader Nat) : segmentEnd elfOffset header % PAGE_SIZE = 0 :=
  Nat.mul_mod_left _ _

/-- An address of a segment lies in one of its pages. -/
theorem inSegment_page {elfOffset : Nat} {header : ProgramHeader Nat} {a : Nat} (hlow : segmentStart elfOffset header ≤ a)
    (hhigh : a < segmentEnd elfOffset header) : InSegment elfOffset header (a / PAGE_SIZE) := by
  have hstart := segmentStart_aligned elfOffset header
  have hend := segmentEnd_aligned elfOffset header
  simp only [InSegment, PAGE_SIZE_eq] at *
  omega

/-- What the segments of a list leave. -/
structure ImageOf (elf : Elf) (elfOffset : Nat) (headers : List (ProgramHeader Nat)) (s s' : AddressSpace) : Prop where
  wf : s'.Wf
  memorySize : s'.memorySize = s.memorySize
  bounds : ∀ h ∈ headers, segmentStart elfOffset h < segmentEnd elfOffset h ∧ segmentEnd elfOffset h ≤ s.memorySize
  free : ∀ h ∈ headers, ∀ page, InSegment elfOffset h page → s.protAt page = none
  protections : ∀ h ∈ headers, ∀ page, InSegment elfOffset h page → s'.protAt page = some (loadedProt h)
  kept : ∀ page, s.protAt page ≠ none → s'.protAt page = s.protAt page
  contents : (∀ h ∈ headers, Contained elfOffset h) → ∀ h ∈ headers, ∀ a, segmentStart elfOffset h ≤ a →
    a < segmentEnd elfOffset h → s'.memory a = segmentByte elf elfOffset h a
  bytesKept : (∀ h ∈ headers, Contained elfOffset h) → ∀ a, s.protAt (a / PAGE_SIZE) ≠ none → s'.memory a = s.memory a

variable {host : Host} {elf : Elf} {filepath : String} {elfOffset : Nat} {s s' s'' : AddressSpace}

theorem ImageOf.nil (h : s.Wf) : ImageOf elf elfOffset [] s s where
  wf := h
  memorySize := rfl
  bounds := nofun
  free := nofun
  protections := nofun
  kept := fun _ _ => rfl
  contents := nofun
  bytesKept := fun _ _ _ => rfl

/-- A segment is loaded, and then others where it is not. -/
theorem ImageOf.cons {header : ProgramHeader Nat} {headers : List (ProgramHeader Nat)}
    (h : ImageOf elf elfOffset [header] s s') (h' : ImageOf elf elfOffset headers s' s'') :
    ImageOf elf elfOffset (header :: headers) s s'' := by
  have hmapped : ∀ page, InSegment elfOffset header page → s'.protAt page ≠ none := by
    intro page hin
    rw [h.protections header (List.mem_singleton.2 rfl) page hin]
    exact Option.some_ne_none _
  have hstill : ∀ page, s.protAt page ≠ none → s'.protAt page ≠ none := by
    intro page hne
    rw [h.kept page hne]
    exact hne
  have hfirst : (∀ x ∈ header :: headers, Contained elfOffset x) → ∀ x ∈ [header], Contained elfOffset x := by
    intro hall x hx
    rw [List.mem_singleton.1 hx]
    exact hall header List.mem_cons_self
  have hrest : (∀ x ∈ header :: headers, Contained elfOffset x) → ∀ x ∈ headers, Contained elfOffset x :=
    fun hall x hx => hall x (List.mem_cons_of_mem _ hx)
  exact
    { wf := h'.wf
      memorySize := h'.memorySize.trans h.memorySize
      bounds := by
        intro x hx
        rcases List.mem_cons.1 hx with rfl | hx
        · exact h.bounds x (List.mem_singleton.2 rfl)
        · rw [← h.memorySize]
          exact h'.bounds x hx
      free := by
        intro x hx page hin
        rcases List.mem_cons.1 hx with rfl | hx
        · exact h.free x (List.mem_singleton.2 rfl) page hin
        · by_contra hne
          exact hstill page hne (h'.free x hx page hin)
      protections := by
        intro x hx page hin
        rcases List.mem_cons.1 hx with rfl | hx
        · rw [h'.kept page (hmapped page hin)]
          exact h.protections x (List.mem_singleton.2 rfl) page hin
        · exact h'.protections x hx page hin
      kept := by
        intro page hne
        rw [h'.kept page (hstill page hne), h.kept page hne]
      contents := by
        intro hall x hx a hlow hhigh
        rcases List.mem_cons.1 hx with rfl | hx
        · rw [h'.bytesKept (hrest hall) a (hmapped _ (inSegment_page hlow hhigh))]
          exact h.contents (hfirst hall) x (List.mem_singleton.2 rfl) a hlow hhigh
        · exact h'.contents (hrest hall) x hx a hlow hhigh
      bytesKept := by
        intro hall a hne
        rw [h'.bytesKept (hrest hall) a (hstill _ hne), h.bytesKept (hfirst hall) a hne] }

/-- The bytes behind the pointer of `dataAtOffset` are those of the file. -/
theorem fileBytes_eq {header : ProgramHeader Nat} {data : Memory} (h : fileBytes elf header = some data) :
    data = fun i => elf.bytes.get (header.p_offset + i) := by
  simp only [fileBytes, Option.bind_eq_bind, Option.bind_eq_some_iff, verify_eq_some, exists_const, Option.some.injEq] at h
  obtain ⟨offset, hoffset, -, rfl⟩ := h
  have hok : reader64.dataAtOffset elf header.p_offset header.p_filesz = .ok offset := by
    cases hdata : reader64.dataAtOffset elf header.p_offset header.p_filesz with
    | error e =>
      rw [hdata] at hoffset
      cases hoffset
    | ok value =>
      rw [hdata] at hoffset
      exact congrArg Except.ok (Option.some.inj hoffset)
  obtain ⟨_, -, hok⟩ := Outcome.bind_eq_ok.1 hok
  obtain ⟨_, -, hok⟩ := Outcome.bind_eq_ok.1 hok
  obtain rfl := Except.ok.inj hok
  rfl

theorem copyToMmu_eq {dst : UInt64} {src : Memory} {n : Nat} (h : s.copyToMmu dst src n = some s') :
    s' = { s with memory := fun a => if dst.toNat ≤ a ∧ a < dst.toNat + n then src (a - dst.toNat) else s.memory a } := by
  unfold copyToMmu at h
  split at h
  · next hzero =>
    subst hzero
    have hempty : (fun a => if dst.toNat ≤ a ∧ a < dst.toNat + 0 then src (a - dst.toNat) else s.memory a) = s.memory := by
      funext a
      exact if_neg fun hin => by omega
    rw [hempty]
    exact (Option.some.inj h).symm
  · simp only [Option.bind_eq_bind, Option.bind_eq_some_iff, verify_eq_some, exists_const, Option.some.injEq] at h
    obtain ⟨-, -, -, h⟩ := h
    exact h.symm

/-- The range that is mapped for a segment begins in the page of its first byte. -/
theorem segmentStart_add (hO : elfOffset % PAGE_SIZE = 0) (header : ProgramHeader Nat) :
    u64 (segmentStart elfOffset header + header.p_vaddr % PAGE_SIZE) = placeOf elfOffset header := by
  simp only [segmentStart, pageRoundDown, placeOf, u64, PAGE_SIZE_eq] at *
  omega

/-- A range that begins and ends with a page and does not wrap has the length that `mmap` is asked for. -/
theorem mapped_length {start end_ limit : Nat} (hs : start % PAGE_SIZE = 0) (he : end_ % PAGE_SIZE = 0) (hslt : start < 2 ^ 64)
    (helt : end_ < 2 ^ 64) (hlimit : limit < 2 ^ 53)
    (hpos : 0 < roundedLength (sub64 end_ start).toUInt64.toNat)
    (hle : start + roundedLength (sub64 end_ start).toUInt64.toNat ≤ limit) :
    start + roundedLength (sub64 end_ start).toUInt64.toNat = end_ := by
  have hsub : sub64 end_ start < 2 ^ 64 := u64_lt _
  rw [toNat_toUInt64 hsub] at hpos hle ⊢
  simp only [roundedLength, sub64, u64, PAGE_SIZE_eq] at *
  omega

theorem segmentEnd_lt (elfOffset : Nat) (header : ProgramHeader Nat) : segmentEnd elfOffset header < 2 ^ 64 := pageRoundUp_lt _

theorem segmentStart_lt (elfOffset : Nat) (header : ProgramHeader Nat) : segmentStart elfOffset header < 2 ^ 64 := by
  have hplace := u64_lt (elfOffset + header.p_vaddr)
  simp only [segmentStart, pageRoundDown, PAGE_SIZE_eq]
  omega

/-- Loading a segment leaves its image: the mapping takes a free range and fills it with zeros, the bytes are copied over them,
and `mprotect` finds the range with one protection. -/
theorem loadProgramHeader_imageOf (hs : s.Wf) (hO : elfOffset % PAGE_SIZE = 0) {header : ProgramHeader Nat}
    (h : loadProgramHeader host elf filepath elfOffset s header = some s') : ImageOf elf elfOffset [header] s s' := by
  simp only [loadProgramHeader, Option.bind_eq_bind, Option.bind_eq_some_iff, verify_eq_some, exists_const, Prod.exists] at h
  obtain ⟨-, base?, s1, hmap, base, rfl, data, hdata, s2, hcopy, result, s3, hprotect, hname⟩ := h
  have hbase := mmap_fixed_base rfl hmap
  rw [toNat_toUInt64 (segmentStart_lt _ _)] at hbase
  obtain ⟨hsound, hw1, hsize1, hmapped, hfree⟩ := hs.mmap_mapped hmap (by simp)
  have hsmall := s.memorySize_small
  have htop := hsound.top_le
  have hpos := hsound.nonempty
  rw [hbase] at hsound hcopy hprotect hname hmapped hfree htop
  simp only [newRegion, MmuRegion.top] at htop hpos
  have hlength := mapped_length (segmentStart_aligned elfOffset header) (segmentEnd_aligned elfOffset header)
    (segmentStart_lt _ _) (segmentEnd_lt _ _) hsmall hpos htop
  have hstart : (segmentStart elfOffset header).toUInt64.toNat = segmentStart elfOffset header :=
    toNat_toUInt64 (segmentStart_lt _ _)
  have hdst : (u64 (segmentStart elfOffset header + header.p_vaddr % PAGE_SIZE)).toUInt64.toNat = placeOf elfOffset header := by
    rw [toNat_toUInt64 (u64_lt _), segmentStart_add hO]
  have hin : ∀ page, InRange (segmentStart elfOffset header)
      (roundedLength (sub64 (segmentEnd elfOffset header) (segmentStart elfOffset header)).toUInt64.toNat) page ↔
      InSegment elfOffset header page := by
    intro page
    rw [InRange, hlength, InSegment]
  -- the copy changes bytes only
  have hcopied := copyToMmu_eq hcopy
  rw [hdst] at hcopied
  have hw2 : s2.Wf := by
    rw [hcopied]
    exact hw1.congr rfl rfl rfl rfl (Nat.le_refl _)
  have hpages2 : ∀ page, s2.pageInfo page = s1.pageInfo page := by
    intro page
    rw [hcopied]
    rfl
  have hsize2 : s2.memorySize = s1.memorySize := by
    rw [hcopied]
    rfl
  have hholds1 := hmapped.holds hw1
  have hholds2 : s2.Holds (segmentStart elfOffset header).toUInt64.toNat
      (roundedLength (sub64 (segmentEnd elfOffset header) (segmentStart elfOffset header)).toUInt64.toNat) Prot.WRITE := by
    intro page hpage
    rw [hpages2]
    rw [hstart] at hpage
    exact hholds1 page hpage
  have haligned : (segmentStart elfOffset header).toUInt64.toNat % PAGE_SIZE = 0 := by
    rw [hstart]
    exact segmentStart_aligned elfOffset header
  obtain ⟨hmemory3, hprot3⟩ := hw2.mprotect_protAt haligned hpos (by rw [hstart]; omega) hholds2 hprotect
  have hw3 := hw2.mprotect hprotect
  have hsize3 := hw2.mprotect_memorySize hprotect
  obtain ⟨hmemory4, hsize4, hprot4⟩ := hw3.setRegionName_protAt hname
  rw [hstart] at hprot3
  have hmemory : ∀ a, s'.memory a =
      if placeOf elfOffset header ≤ a ∧ a < placeOf elfOffset header + header.p_filesz then
        elf.bytes.get (header.p_offset + (a - placeOf elfOffset header))
      else s1.memory a := by
    intro a
    rw [hmemory4, hmemory3, hcopied, fileBytes_eq hdata]
  have hoff : ∀ page, ¬ InSegment elfOffset header page → s'.protAt page = s.protAt page := by
    intro page hout
    have hnot := mt (hin page).1 hout
    rw [hprot4, hprot3, if_neg fun hboth => hnot hboth.1, protAt, hpages2, protAt]
    rw [hmapped.page_outside page (by simp only [InRange] at hnot; omega)]
  have hfree' : ∀ page, InSegment elfOffset header page → s.protAt page = none :=
    fun page hpage => protAt_eq_none.2 (hfree page ((hin page).2 hpage))
  exact
    { wf := hw3.setRegionName hname
      memorySize := by rw [hsize4, hsize3, hsize2, hsize1]
      bounds := by
        intro x hx
        rw [List.mem_singleton.1 hx]
        omega
      free := by
        intro x hx
        rw [List.mem_singleton.1 hx]
        exact hfree'
      protections := by
        intro x hx page hpage
        rw [List.mem_singleton.1 hx] at hpage ⊢
        have hpage' := (hin page).2 hpage
        rw [hprot4, hprot3, loadedProt]
        by_cases hboth : ((protection header).exec && (protection header).write) = true
        · rw [if_neg fun hand => hand.2 hboth, if_pos hboth]
          exact hholds2.protAt (by rw [hstart]; exact hpage')
        · rw [if_pos ⟨hpage', hboth⟩, if_neg hboth]
      kept := by
        intro page hne
        exact hoff page fun hpage => hne (hfree' page hpage)
      contents := by
        intro _ x hx a hlow hhigh
        rw [List.mem_singleton.1 hx] at hlow hhigh ⊢
        rw [hmemory, segmentByte, hmapped.zero a hlow (by omega)]
      bytesKept := by
        intro hall a hne
        have hcontained := hall header (List.mem_singleton.2 rfl)
        have hout : ¬ (segmentStart elfOffset header ≤ a ∧ a < segmentEnd elfOffset header) :=
          fun hboth => hne (hfree' _ (inSegment_page hboth.1 hboth.2))
        have hbegin : segmentStart elfOffset header ≤ placeOf elfOffset header := Nat.div_mul_le_self _ _
        simp only [Contained] at hcontained
        rw [hmemory, if_neg (by omega), hmapped.byte_outside a (by omega)] }

/-- The segments of a list leave their image. -/
theorem loadProgramHeaders_imageOf (hO : elfOffset % PAGE_SIZE = 0) {headers : List (ProgramHeader Nat)} (hs : s.Wf)
    (h : headers.foldlM (loadProgramHeader host elf filepath elfOffset) s = some s') : ImageOf elf elfOffset headers s s' := by
  induction headers generalizing s with
  | nil =>
    obtain rfl := Option.some.inj h
    exact .nil hs
  | cons header headers ih =>
    obtain ⟨s1, hhead, htail⟩ := Option.bind_eq_some_iff.1 h
    have hfirst := loadProgramHeader_imageOf hs hO hhead
    exact hfirst.cons (ih hfirst.wf htail)

/-! ## Where the image goes -/

theorem totalLoadSize_lt (elf : Elf) : totalLoadSize elf < 2 ^ 64 := by
  have hmax : ∀ (headers : List (ProgramHeader Nat)) (start : Nat), start < 2 ^ 64 → headers.foldl
      (fun maxEnd header => max maxEnd (pageRoundUp (u64 (header.p_vaddr + header.p_memsz)))) start < 2 ^ 64 := by
    intro headers
    induction headers with
    | nil => exact fun start hstart => hstart
    | cons header headers ih =>
      intro start hstart
      exact ih _ (Nat.max_lt.2 ⟨hstart, pageRoundUp_lt _⟩)
  have hend := hmax (loads elf) 0 (by decide)
  unfold totalLoadSize
  split
  · decide
  · exact Nat.lt_of_le_of_lt (Nat.sub_le _ _) hend

/-- A file is loaded where it says, or at the first page of a range that is free and long enough. The first page of the addresses
is left alone. -/
theorem elfOffset_spec (hs : s.Wf) (h : ElfLoading.elfOffset host elf s = some (elfOffset, s')) :
    s'.Wf ∧ s'.memorySize = s.memorySize ∧ elfOffset % PAGE_SIZE = 0 ∧ (s.pageInfo 0 ≠ none → s'.pageInfo 0 ≠ none) ∧
      ((elf.fileheader.type = ET_EXEC ∧ elfOffset = 0) ∨
        (elf.fileheader.type = ET_DYN ∧ 0 < totalLoadSize elf ∧ elfOffset + totalLoadSize elf ≤ s.memorySize)) := by
  simp only [ElfLoading.elfOffset, Option.bind_eq_bind, Option.bind_eq_some_iff, verify_eq_some, exists_const] at h
  obtain ⟨htype, h⟩ := h
  split at h
  · next hexec =>
    obtain ⟨rfl, rfl⟩ := Prod.mk.inj (Option.some.inj h)
    exact ⟨hs, rfl, rfl, id, .inl ⟨hexec, rfl⟩⟩
  · next hexec =>
    simp only [Option.bind_eq_some_iff, Prod.exists, Option.some.injEq, Prod.mk.injEq] at h
    obtain ⟨base?, s1, hmap, base, rfl, result, s2, hunmap, rfl, rfl⟩ := h
    obtain ⟨hsound, hw1, hsize1, hmapped, hfree⟩ := hs.mmap_mapped hmap (by simp)
    obtain ⟨hsize2, houtside⟩ := hw1.munmap_outside hunmap
    have htop := hsound.top_le
    have hpos := hsound.nonempty
    have hsmall := s.memorySize_small
    simp only [newRegion, MmuRegion.top, toNat_toUInt64 (totalLoadSize_lt elf)] at htop hpos
    rw [toNat_toUInt64 (totalLoadSize_lt elf)] at hfree hmapped houtside
    have hbase : base.toUInt64.toNat = base := toNat_toUInt64 (by omega)
    have hround := pageRoundUp_eq (show roundedLength (totalLoadSize elf) < 2 ^ 64 by omega)
    rw [hbase, hround, u64_of_lt (by omega)] at houtside
    refine ⟨hw1.munmap hunmap, hsize2.trans hsize1, hsound.base_aligned, fun hne => ?_, .inr ⟨?_, ?_, ?_⟩⟩
    · -- the first page was not free
      have hout : ¬ InRange base (roundedLength (totalLoadSize elf)) 0 := fun hin => hne (hfree 0 hin)
      simp only [InRange] at hout
      rw [houtside 0 (by omega), hmapped.page_outside 0 (by omega)]
      exact hne
    · exact htype.resolve_right hexec
    · simp only [roundedLength, PAGE_SIZE_eq] at hpos
      omega
    · simp only [roundedLength, PAGE_SIZE_eq] at htop
      omega

end ElfLoading
end X64Emulator
