import X64Emulator.Lemmas.ElfLoading
import X64Emulator.Theorems.ElfReader

/-!
# Loading ELF files

What it takes for a loaded file to be in memory as it says. The range that is reserved is as long as the segments, but the image
is placed in it as if it began at the first page; `mprotect` refuses a protection that is writable and executable, and nobody
looks; the program headers are looked for behind a file header of 64 bytes, and those that the reader left out are not counted.
-/

namespace X64Emulator
namespace ElfLoading

open ElfReader AddressSpace

/-- The segments are in memory: their bytes with zeros around them, with their protections, and in the range of the image. -/
structure LoadedImage (elf : Elf) (elfOffset : Nat) (s : AddressSpace) : Prop where
  fileBytes : ∀ h ∈ loads elf, ∀ i < h.p_filesz, s.memory (placeOf elfOffset h + i) = elf.bytes.get (h.p_offset + i)
  zeros : ∀ h ∈ loads elf, ∀ a, pageRoundDown (placeOf elfOffset h) ≤ a → a < placeOf elfOffset h + h.p_memsz →
    ¬ (placeOf elfOffset h ≤ a ∧ a < placeOf elfOffset h + h.p_filesz) → s.memory a = 0
  protections : ∀ h ∈ loads elf, ∀ page, pageRoundDown (placeOf elfOffset h) ≤ page * PAGE_SIZE →
    page * PAGE_SIZE < placeOf elfOffset h + h.p_memsz → s.protAt page = some (protection h)
  reserved : elf.fileheader.type = ET_DYN → ∀ h ∈ loads elf, elfOffset ≤ pageRoundDown (placeOf elfOffset h) ∧
    placeOf elfOffset h + h.p_memsz ≤ elfOffset + totalLoadSize elf

/-- The program header table is among the bytes of a segment. -/
def HoldsTable (elf : Elf) (h : ProgramHeader Nat) : Prop :=
  h.p_offset ≤ elf.fileheader.phoff ∧
    elf.fileheader.phoff + elf.fileheader.phnum * elf.fileheader.phentsize ≤ h.p_offset + h.p_filesz

/-- The auxiliary data is that of the loaded image. -/
structure AuxiliaryOf (elf : Elf) (elfOffset : Nat) (aux : Auxiliary) : Prop where
  entrypoint : aux.entrypoint = u64 (elfOffset + elf.fileheader.entry)
  table : ∃ h ∈ loads elf, HoldsTable elf h ∧
    aux.programHeaderTable = u64 (elfOffset + (h.p_vaddr + (elf.fileheader.phoff - h.p_offset)))
  count : aux.programHeaderCount.toNat = elf.fileheader.phnum

/-- The file is loaded as it says, and for the main program the auxiliary data says where. -/
def LoadedAs (elf : Elf) (elfOffset : Nat) (mainProgram : Bool) (aux : Option Auxiliary) (s : AddressSpace) : Prop :=
  LoadedImage elf elfOffset s ∧ (mainProgram = true → ∃ a, aux = some a ∧ AuxiliaryOf elf elfOffset a)

/-- The files that are loaded as they say: no segment reaches the last page of the addresses or is writable and executable, and
one begins in the first page if the file may be anywhere. -/
structure Loadable (elf : Elf) : Prop where
  ends : ∀ h ∈ loads elf, h.p_vaddr + h.p_memsz + PAGE_SIZE ≤ 2 ^ 64
  protections : ∀ h ∈ loads elf, ¬ ((protection h).exec && (protection h).write) = true
  lowest : elf.fileheader.type = ET_DYN → ∃ h ∈ loads elf, h.p_vaddr < PAGE_SIZE

/-- The table is loaded 64 bytes behind the last segment that begins with the file, and all its entries were read. -/
structure TableFound (elf : Elf) : Prop where
  place : ∃ first ∈ ((loads elf).filter (fun h => h.p_offset = 0)).getLast?, ∃ h ∈ loads elf, HoldsTable elf h ∧
    u64 (h.p_vaddr + (elf.fileheader.phoff - h.p_offset)) = u64 (first.p_vaddr + 0x40)
  entries : ∀ i < elf.fileheader.phnum, Reached elf.bytes elf.fileheader.phoff elf.fileheader.phentsize i

variable {elf : Elf} {elfOffset : Nat} {s s' : AddressSpace} {h : ProgramHeader Nat}

/-! ## One segment -/

/-- The last page of a segment that does not wrap is mapped, and its first one is in it. -/
theorem segment_end (hlt : segmentStart elfOffset h < segmentEnd elfOffset h)
    (hnowrap : placeOf elfOffset h + h.p_memsz < 2 ^ 64) :
    placeOf elfOffset h + h.p_memsz ≤ segmentEnd elfOffset h ∧ segmentStart elfOffset h < placeOf elfOffset h + h.p_memsz := by
  simp only [segmentStart, segmentEnd, pageRoundDown, pageRoundUp, placeOf, u64, PAGE_SIZE_eq] at *
  omega

theorem loadedProt_eq_iff : loadedProt h = protection h ↔ ¬ ((protection h).exec && (protection h).write) = true := by
  unfold loadedProt
  split
  · next hboth =>
    refine iff_of_false (fun heq => ?_) (not_not.2 hboth)
    have hexec := (Bool.and_eq_true _ _ ▸ hboth).1
    rw [← heq] at hexec
    cases hexec
  · next hnot => exact iff_of_true rfl hnot

/-! ## The range of the image -/

section Range

variable {headers : List (ProgramHeader Nat)} {s : Nat}

theorem foldl_min_le {f : ProgramHeader Nat → Nat} :
    headers.foldl (fun m x => min m (f x)) s ≤ s ∧ ∀ h ∈ headers, headers.foldl (fun m x => min m (f x)) s ≤ f h := by
  induction headers generalizing s with
  | nil => exact ⟨Nat.le_refl _, nofun⟩
  | cons x headers ih =>
    obtain ⟨hstart, hall⟩ := ih (s := min s (f x))
    refine ⟨Nat.le_trans hstart (Nat.min_le_left _ _), fun h hh => ?_⟩
    rcases List.mem_cons.1 hh with rfl | hh
    · exact Nat.le_trans hstart (Nat.min_le_right _ _)
    · exact hall h hh

theorem le_foldl_min {f : ProgramHeader Nat → Nat} {n : Nat} (hstart : n ≤ s) (hall : ∀ h ∈ headers, n ≤ f h) :
    n ≤ headers.foldl (fun m x => min m (f x)) s := by
  induction headers generalizing s with
  | nil => exact hstart
  | cons x headers ih =>
    refine ih (Nat.le_min.2 ⟨hstart, hall x List.mem_cons_self⟩) fun h hh => hall h (List.mem_cons_of_mem _ hh)

theorem foldl_max_cases {f : ProgramHeader Nat → Nat} :
    (∀ h ∈ headers, f h ≤ headers.foldl (fun m x => max m (f x)) s) ∧ s ≤ headers.foldl (fun m x => max m (f x)) s ∧
      (headers.foldl (fun m x => max m (f x)) s = s ∨
        ∃ h ∈ headers, headers.foldl (fun m x => max m (f x)) s = f h) := by
  induction headers generalizing s with
  | nil => exact ⟨nofun, Nat.le_refl _, .inl rfl⟩
  | cons x headers ih =>
    obtain ⟨hall, hstart, hreached⟩ := ih (s := max s (f x))
    refine ⟨fun h hh => ?_, Nat.le_trans (Nat.le_max_left _ _) hstart, ?_⟩
    · rcases List.mem_cons.1 hh with rfl | hh
      · exact Nat.le_trans (Nat.le_max_right _ _) hstart
      · exact hall h hh
    · rcases hreached with heq | ⟨h, hh, heq⟩
      · rcases Nat.le_total s (f x) with hle | hle
        · exact .inr ⟨x, List.mem_cons_self, heq.trans (Nat.max_eq_right hle)⟩
        · exact .inl (heq.trans (Nat.max_eq_left hle))
      · exact .inr ⟨h, List.mem_cons_of_mem _ hh, heq⟩

end Range

/-- The range reaches from the first page of a segment to the end of the last page of one. -/
theorem totalLoadSize_le (hfirst : h ∈ loads elf) (hlow : h.p_vaddr < PAGE_SIZE) {h' : ProgramHeader Nat} (hh' : h' ∈ loads elf)
    (hends : h'.p_vaddr + h'.p_memsz + PAGE_SIZE ≤ 2 ^ 64) : h'.p_vaddr + h'.p_memsz ≤ totalLoadSize elf := by
  have hmin : minStart elf ≤ pageRoundDown h.p_vaddr := foldl_min_le.2 h hfirst
  have hmax : pageRoundUp (u64 (h'.p_vaddr + h'.p_memsz)) ≤ maxEnd elf :=
    (foldl_max_cases (f := fun x => pageRoundUp (u64 (x.p_vaddr + x.p_memsz)))).1 h' hh'
  have hzero : pageRoundDown h.p_vaddr = 0 := by
    simp only [pageRoundDown, PAGE_SIZE_eq] at *
    omega
  simp only [totalLoadSize, pageRoundUp, u64, PAGE_SIZE_eq] at *
  split <;> omega

/-- A range that does not begin with the first page is too short for the segment that ends last. -/
theorem exists_behind (hpos : 0 < totalLoadSize elf) (hhigh : ∀ h ∈ loads elf, PAGE_SIZE ≤ h.p_vaddr)
    (hends : ∀ h ∈ loads elf, h.p_vaddr + h.p_memsz + PAGE_SIZE ≤ 2 ^ 64) :
    ∃ h ∈ loads elf, totalLoadSize elf < h.p_vaddr + h.p_memsz := by
  have hmin : PAGE_SIZE ≤ minStart elf := by
    refine le_foldl_min (by decide) fun h hh => ?_
    have hpage := hhigh h hh
    simp only [pageRoundDown, PAGE_SIZE_eq] at *
    omega
  have hmax : maxEnd elf = 0 ∨ ∃ h ∈ loads elf, maxEnd elf = pageRoundUp (u64 (h.p_vaddr + h.p_memsz)) :=
    (foldl_max_cases (f := fun x => pageRoundUp (u64 (x.p_vaddr + x.p_memsz)))).2.2
  rcases hmax with hzero | ⟨h, hh, hlast⟩
  · simp only [totalLoadSize, hzero] at hpos
    split at hpos <;> omega
  · have hend := hends h hh
    refine ⟨h, hh, ?_⟩
    simp only [totalLoadSize, hlast, pageRoundUp, u64, PAGE_SIZE_eq] at *
    split at hpos <;> split <;> omega

/-! ## The image -/

/-- Where a file is loaded: at the addresses that it says, or in a range of the length of its segments. -/
def Placed (elf : Elf) (elfOffset limit : Nat) : Prop :=
  (elf.fileheader.type = ET_EXEC ∧ elfOffset = 0) ∨
    (elf.fileheader.type = ET_DYN ∧ 0 < totalLoadSize elf ∧ elfOffset + totalLoadSize elf ≤ limit)

theorem LoadedImage.no_wrap (himage : ImageOf elf elfOffset (loads elf) s s') (hloaded : LoadedImage elf elfOffset s')
    (hh : h ∈ loads elf) : placeOf elfOffset h + h.p_memsz < 2 ^ 64 := by
  by_contra hwrap
  -- a segment that wraps would have the page behind the reserved range
  obtain ⟨hlt, hle⟩ := himage.bounds h hh
  have hsmall := s'.memorySize_small
  have hpage : s'.memorySize / PAGE_SIZE * PAGE_SIZE = s'.memorySize := by
    simp only [memorySize, PAGE_SIZE_eq]
    omega
  have hprot := hloaded.protections h hh (s'.memorySize / PAGE_SIZE)
  rw [hpage, himage.wf.protAt_beyond (Nat.le_of_eq hpage.symm), himage.memorySize] at hprot
  rw [himage.memorySize] at hsmall
  exact absurd (hprot (Nat.le_trans (Nat.le_of_lt hlt) hle) (by omega)) (Option.some_ne_none _).symm

/-- An image that is in memory comes from a file that can be loaded. -/
theorem LoadedImage.loadable (hplaced : Placed elf elfOffset s.memorySize) (himage : ImageOf elf elfOffset (loads elf) s s')
    (hfields : ∀ h ∈ loads elf, h.p_vaddr < 2 ^ 64) (hloaded : LoadedImage elf elfOffset s') : Loadable elf := by
  have hsmall := s.memorySize_small
  have hinside : ∀ h ∈ loads elf, placeOf elfOffset h = elfOffset + h.p_vaddr ∧
      placeOf elfOffset h + h.p_memsz ≤ s.memorySize ∧ segmentStart elfOffset h < placeOf elfOffset h + h.p_memsz := by
    intro h hh
    have hfield := hfields h hh
    obtain ⟨hlt, hle⟩ := himage.bounds h hh
    obtain ⟨hend, hfirst⟩ := segment_end hlt (hloaded.no_wrap himage hh)
    refine ⟨?_, by omega, hfirst⟩
    rcases hplaced with ⟨-, rfl⟩ | ⟨htype, -, hroom⟩
    · simp only [placeOf, u64]
      omega
    · obtain ⟨hlow, -⟩ := hloaded.reserved htype h hh
      simp only [pageRoundDown, placeOf, u64, PAGE_SIZE_eq] at *
      omega
  have hends : ∀ h ∈ loads elf, h.p_vaddr + h.p_memsz + PAGE_SIZE ≤ 2 ^ 64 := by
    intro h hh
    obtain ⟨hplace, hle, -⟩ := hinside h hh
    simp only [PAGE_SIZE_eq]
    omega
  refine ⟨hends, fun h hh => ?_, fun htype => ?_⟩
  · -- the first page of a segment has the protection that it should have
    obtain ⟨hlt, -⟩ := himage.bounds h hh
    have hpage : segmentStart elfOffset h / PAGE_SIZE * PAGE_SIZE = segmentStart elfOffset h :=
      Nat.div_mul_cancel (Nat.dvd_of_mod_eq_zero (segmentStart_aligned elfOffset h))
    have hshould := hloaded.protections h hh (segmentStart elfOffset h / PAGE_SIZE)
    rw [hpage] at hshould
    have hhas := himage.protections h hh (segmentStart elfOffset h / PAGE_SIZE) (inSegment_page (Nat.le_refl _) hlt)
    rw [hshould (Nat.le_refl _) (hinside h hh).2.2, Option.some.injEq] at hhas
    exact loadedProt_eq_iff.1 hhas.symm
  · by_contra hnone
    simp only [not_exists, not_and, not_lt] at hnone
    rcases hplaced with ⟨hexec, -⟩ | ⟨-, hpos, -⟩
    · rw [hexec] at htype
      cases htype
    · obtain ⟨h, hh, hbehind⟩ := exists_behind hpos hnone hends
      have hroom := (hloaded.reserved htype h hh).2
      rw [(hinside h hh).1] at hroom
      omega

/-- The segments of a file that can be loaded lie where they should. -/
theorem Loadable.place (hloadable : Loadable elf) {limit : Nat} (hlimit : limit < 2 ^ 53) (hplaced : Placed elf elfOffset limit)
    (hO : elfOffset % PAGE_SIZE = 0) (hh : h ∈ loads elf) :
    placeOf elfOffset h = elfOffset + h.p_vaddr ∧ placeOf elfOffset h + h.p_memsz < 2 ^ 64 ∧
      (elf.fileheader.type = ET_DYN → elfOffset ≤ pageRoundDown (placeOf elfOffset h) ∧
        placeOf elfOffset h + h.p_memsz ≤ elfOffset + totalLoadSize elf) := by
  have hend := hloadable.ends h hh
  rcases hplaced with ⟨hexec, rfl⟩ | ⟨htype, -, hroom⟩
  · refine ⟨?_, ?_, fun htype => ?_⟩
    · simp only [placeOf, u64, PAGE_SIZE_eq] at *
      omega
    · simp only [placeOf, u64, PAGE_SIZE_eq] at *
      omega
    · rw [hexec] at htype
      cases htype
  · obtain ⟨first, hfirst, hlow⟩ := hloadable.lowest htype
    have hsize := totalLoadSize_le hfirst hlow hh hend
    have hplace : placeOf elfOffset h = elfOffset + h.p_vaddr := u64_of_lt (by omega)
    refine ⟨hplace, by omega, fun _ => ⟨?_, by omega⟩⟩
    rw [hplace]
    simp only [pageRoundDown, PAGE_SIZE_eq] at *
    omega

theorem Loadable.loadedImage (hloadable : Loadable elf) (hplaced : Placed elf elfOffset s.memorySize)
    (hO : elfOffset % PAGE_SIZE = 0) (hsizes : ∀ h ∈ loads elf, h.p_filesz ≤ h.p_memsz)
    (himage : ImageOf elf elfOffset (loads elf) s s') : LoadedImage elf elfOffset s' := by
  have hends : ∀ h ∈ loads elf, placeOf elfOffset h + h.p_memsz ≤ segmentEnd elfOffset h := fun h hh =>
    (segment_end (himage.bounds h hh).1 (hloadable.place s.memorySize_small hplaced hO hh).2.1).1
  have hcontained : ∀ h ∈ loads elf, Contained elfOffset h := fun h hh =>
    Nat.le_trans (Nat.add_le_add_left (hsizes h hh) _) (hends h hh)
  have hbegin : ∀ h : ProgramHeader Nat, segmentStart elfOffset h ≤ placeOf elfOffset h := fun h => Nat.div_mul_le_self _ _
  refine ⟨fun h hh i hi => ?_, fun h hh a hlow hhigh hout => ?_, fun h hh page hlow hhigh => ?_, fun htype h hh => ?_⟩
  · have hle := hcontained h hh
    have hstart := hbegin h
    rw [Contained] at hle
    rw [himage.contents hcontained h hh _ (by omega) (by omega), segmentByte, if_pos (by omega), Nat.add_sub_cancel_left]
  · rw [himage.contents hcontained h hh a hlow (Nat.lt_of_lt_of_le hhigh (hends h hh)), segmentByte, if_neg hout]
  · rw [himage.protections h hh page ⟨hlow, Nat.lt_of_lt_of_le hhigh (hends h hh)⟩,
      loadedProt_eq_iff.2 (hloadable.protections h hh)]
  · exact (hloadable.place s.memorySize_small hplaced hO hh).2.2 htype

/-! ## The auxiliary data -/

/-- A loop that remembers the last element of a kind. -/
theorem foldl_last {α β : Type} (p : α → Prop) [DecidablePred p] (f : α → β) (l : List α) (start : β) :
    l.foldl (fun b a => if p a then f a else b) start = ((l.filter (fun a => p a)).getLast?.map f).getD start := by
  induction l generalizing start with
  | nil => rfl
  | cons a l ih =>
    rw [List.foldl_cons, ih]
    by_cases ha : p a
    · rw [if_pos ha, List.filter_cons, if_pos (decide_eq_true ha), List.getLast?_cons]
      cases (l.filter fun a => p a).getLast? <;> rfl
    · rw [if_neg ha, List.filter_cons, if_neg (by simpa using ha)]

theorem firstSegmentAddress_eq (elf : Elf) (elfOffset : Nat) : firstSegmentAddress elf elfOffset =
    (((loads elf).filter (fun h => h.p_offset = 0)).getLast?.map fun first => u64 (elfOffset + first.p_vaddr)).getD 0 :=
  foldl_last (fun h : ProgramHeader Nat => h.p_offset = 0) _ _ _

/-- What the reader says of its numbers and of the headers that it left out. -/
theorem tryCreate_fields {v : ByteVector} (hfile : tryCreate v = .ok (some elf)) (hclass : elf.ident.class_ = 2) :
    (∀ h ∈ loads elf, h.p_vaddr < 2 ^ 64) ∧ elf.programHeaders.length ≤ elf.fileheader.phnum ∧ elf.fileheader.phnum < 2 ^ 16 ∧
      (elf.programHeaders.length = elf.fileheader.phnum ↔
        ∀ i < elf.fileheader.phnum, Reached elf.bytes elf.fileheader.phoff elf.fileheader.phentsize i) := by
  obtain ⟨c, ident, hident, rfl⟩ := tryCreate_eq_elfOf hfile
  cases c with
  | B32 =>
    exfalso
    have h12 : (1 : UInt8) = 2 := hident.symm.trans hclass
    exact absurd h12 (by decide)
  | B64 =>
    refine ⟨fun h hh => ?_, ?_, value_lt _ _, length_programsRead .B64 v⟩
    · obtain ⟨i, -, rfl⟩ := List.mem_map.1 (List.mem_filter.1 hh).1
      exact value_lt _ _
    · show (programsRead .B64 v).length ≤ _
      rw [programsRead, List.length_map, reachedEntries]
      exact Nat.le_trans (List.length_filter_le _ _) (Nat.le_of_eq List.length_range)

/-- The auxiliary data of an image is right exactly if the table is where the code looks for it, with all of its entries. -/
theorem auxiliaryOf_iff (hloadable : Loadable elf) (hplaced : Placed elf elfOffset s.memorySize) (hO : elfOffset % PAGE_SIZE = 0)
    (hsizes : ∀ h ∈ loads elf, h.p_filesz ≤ h.p_memsz) (himage : ImageOf elf elfOffset (loads elf) s s')
    (hnull : s.protAt 0 ≠ none) (hle : elf.programHeaders.length ≤ elf.fileheader.phnum) (hphnum : elf.fileheader.phnum < 2 ^ 16)
    (hentries : elf.programHeaders.length = elf.fileheader.phnum ↔
      ∀ i < elf.fileheader.phnum, Reached elf.bytes elf.fileheader.phoff elf.fileheader.phentsize i) :
    AuxiliaryOf elf elfOffset (auxiliary elf elfOffset) ↔ TableFound elf := by
  have hcount : (auxiliary elf elfOffset).programHeaderCount.toNat = elf.programHeaders.length := by
    show (elf.programHeaders.length.toUInt32).toNat = _
    rw [Nat.toUInt32, UInt32.toNat_ofNat']
    exact Nat.mod_eq_of_lt (by omega)
  have haddress : (auxiliary elf elfOffset).programHeaderTable = u64 (firstSegmentAddress elf elfOffset + 0x40) := rfl
  rw [firstSegmentAddress_eq] at haddress
  constructor
  · rintro ⟨-, ⟨h, hh, htable, hplace⟩, hall⟩
    rw [hcount] at hall
    refine ⟨?_, hentries.1 hall⟩
    rw [haddress] at hplace
    cases hfirst : ((loads elf).filter (fun h => h.p_offset = 0)).getLast? with
    | some first =>
      rw [hfirst] at hplace
      simp only [Option.map_some, Option.getD_some, u64_u64_add, Nat.add_assoc elfOffset] at hplace
      refine ⟨first, rfl, h, hh, htable, ?_⟩
      simp only [u64] at hplace ⊢
      omega
    | none =>
      exfalso
      rw [hfirst] at hplace
      -- the first page is not one of the image
      obtain ⟨heq, hnowrap, -⟩ := hloadable.place s.memorySize_small hplaced hO hh
      obtain ⟨hlt, -⟩ := himage.bounds h hh
      have hnotfirst : segmentStart elfOffset h ≠ 0 := by
        intro hzero
        exact hnull (himage.free h hh 0 ⟨by omega, by omega⟩)
      have hstart := segmentStart_aligned elfOffset h
      have hbegin : segmentStart elfOffset h ≤ placeOf elfOffset h := Nat.div_mul_le_self _ _
      have hsize := hsizes h hh
      have hin := htable.2
      have haddr : u64 (elfOffset + (h.p_vaddr + (elf.fileheader.phoff - h.p_offset))) =
          placeOf elfOffset h + (elf.fileheader.phoff - h.p_offset) := by
        rw [heq, Nat.add_assoc]
        exact u64_of_lt (by omega)
      rw [haddr] at hplace
      simp only [Option.map_none, Option.getD_none, Nat.zero_add, u64, PAGE_SIZE_eq] at hplace hstart
      omega
  · rintro ⟨⟨first, hfirst, h, hh, htable, hplace⟩, hall⟩
    refine ⟨rfl, ⟨h, hh, htable, ?_⟩, hcount.trans (hentries.2 hall)⟩
    rw [haddress, Option.mem_def.1 hfirst]
    simp only [Option.map_some, Option.getD_some, u64_u64_add, Nat.add_assoc elfOffset]
    simp only [u64] at hplace ⊢
    omega

/-! ## The whole file -/

/-- A file that is loaded is loaded as it says exactly if it can be, and for the main program if its table is found. -/
theorem loadElf_iff (host : Host) {v : ByteVector} {elf : Elf} (hfile : tryCreate v = .ok (some elf))
    (hclass : elf.ident.class_ = 2) (hsizes : ∀ h ∈ loads elf, h.p_filesz ≤ h.p_memsz) {s : AddressSpace}
    (hs : (machine host).Reachable s) (hnull : s.pageInfo 0 ≠ none) {elfOffset : Nat} {s1 : AddressSpace}
    (hoffset : ElfLoading.elfOffset host elf s = some (elfOffset, s1)) {filepath : String} {mainProgram : Bool} {entry : Nat}
    {aux : Option Auxiliary} {s' : AddressSpace} (hload : loadElf host elf filepath mainProgram s = some (entry, aux, s')) :
    LoadedAs elf elfOffset mainProgram aux s' ↔ Loadable elf ∧ (mainProgram = true → TableFound elf) := by
  obtain ⟨hw1, hsize1, hO, hkept, hplaced⟩ := elfOffset_spec (reachable_wf hs) hoffset
  obtain ⟨hfields, hle, hphnum, hentries⟩ := tryCreate_fields hfile hclass
  simp only [loadElf, hoffset, Option.bind_eq_bind, Option.bind_some, Option.bind_eq_some_iff, Option.some.injEq,
    Prod.mk.injEq] at hload
  obtain ⟨mmu, hfold, -, -, -, rfl, rfl⟩ := hload
  have himage := loadProgramHeaders_imageOf hO hw1 hfold
  rw [← hsize1] at hplaced
  have hnull1 : s1.protAt 0 ≠ none := fun hnone => hkept hnull (protAt_eq_none.1 hnone)
  have haux : Loadable elf → (AuxiliaryOf elf elfOffset (auxiliary elf elfOffset) ↔ TableFound elf) := fun hloadable =>
    auxiliaryOf_iff hloadable hplaced hO hsizes himage hnull1 hle hphnum hentries
  constructor
  · rintro ⟨hloaded, hmain⟩
    have hloadable := hloaded.loadable hplaced himage hfields
    refine ⟨hloadable, fun hprogram => ?_⟩
    obtain ⟨a, ha, hauxiliary⟩ := hmain hprogram
    rw [if_pos hprogram] at ha
    rw [← Option.some.inj ha] at hauxiliary
    exact (haux hloadable).1 hauxiliary
  · rintro ⟨hloadable, hmain⟩
    refine ⟨hloadable.loadedImage hplaced hO hsizes himage, fun hprogram => ?_⟩
    exact ⟨_, if_pos hprogram, (haux hloadable).2 (hmain hprogram)⟩

/-- The header of a file for a fixed address, with one program header behind it and one section header behind that. -/
def programHeader : List UInt8 :=
  [0x7f, 0x45, 0x4c, 0x46, 2, 1, 1, 0, 0, 0, 0, 0, 0, 0, 0, 0, 2, 0, 0x3e, 0, 1, 0, 0, 0, 0x78, 0, 2, 0, 0, 0, 0, 0,
    0x40, 0, 0, 0, 0, 0, 0, 0, 0x78, 0, 0, 0, 0, 0, 0, 0, 0, 0, 0, 0, 0x40, 0, 0x38, 0, 1, 0, 0x40, 0, 1, 0, 0, 0]

/-- The file is its own segment, at 0x20000 and with zeros up to two pages. -/
def segmentHeader (flags : UInt8) : List UInt8 :=
  [1, 0, 0, 0, flags, 0, 0, 0, 0, 0, 0, 0, 0, 0, 0, 0, 0, 0, 2, 0, 0, 0, 0, 0, 0, 0, 2, 0, 0, 0, 0, 0,
    0xb8, 0, 0, 0, 0, 0, 0, 0, 0, 0x12, 0, 0, 0, 0, 0, 0, 0, 0x10, 0, 0, 0, 0, 0, 0]

def program (flags : UInt8) : ByteVector where
  bytes := programHeader ++ segmentHeader flags ++ List.replicate 64 0
  length_lt := by
    rw [List.length_append, List.length_append, List.length_replicate]
    exact (by decide : 64 + 56 + 64 < 2 ^ 63)

/-- The header of its segment. -/
def segment (flags : Nat) : ProgramHeader Nat := ⟨1, flags, 0, 0x20000, 0x20000, 0xb8, 0x1200, 0x1000⟩

/-- The calls of the constructor of the unit. -/
def constructed : Option AddressSpace := (machine lenientHost).run (empty 1 (fun _ => 0)) [.ensureNullPage]

theorem toOption_join_eq_some {α : Type} {x : Except Failure (Option α)} {a : α} (h : x.toOption.join = some a) :
    x = .ok (some a) := by
  cases x with
  | error e => cases h
  | ok found => exact congrArg Except.ok h

theorem constructed_reachable (h : constructed = some s) : (machine lenientHost).Reachable s :=
  Machine.Reachable.run _ (Machine.Reachable.init ⟨_, _, rfl⟩) h

/-- A program that is read and executed is loaded with its auxiliary data. -/
theorem loadElf_sample : ∃ elf s s1 entry aux s', tryCreate (program 5) = .ok (some elf) ∧ (machine lenientHost).Reachable s ∧
    ElfLoading.elfOffset lenientHost elf s = some (0, s1) ∧
    loadElf lenientHost elf "program" true s = some (entry, aux, s') ∧ LoadedAs elf 0 true aux s' := by
  have hrun : (do
      let elf ← (tryCreate (program 5)).toOption.join
      let s ← constructed
      let offset ← ElfLoading.elfOffset lenientHost elf s
      let _ ← loadElf lenientHost elf "program" true s
      some (decide (offset.1 = 0 ∧ elf.ident.class_ = 2 ∧ loads elf = [segment 5] ∧ elf.fileheader.type = ET_EXEC ∧
        (s.pageInfo 0).isSome = true ∧ elf.fileheader.phoff = 0x40 ∧ elf.fileheader.phnum = 1 ∧
        elf.fileheader.phentsize = 0x38 ∧ Reached elf.bytes 0x40 0x38 0))) = some true := by decide +kernel
  simp only [Option.bind_eq_bind, Option.bind_eq_some_iff, Prod.exists, Option.some.injEq, decide_eq_true_iff] at hrun
  obtain ⟨elf, helf, s, hs, elfOffset, s1, hoffset, entry, aux, s', hload, rfl, hclass, hloads, htype, hnull, hphoff, hphnum,
    hphentsize, hreached⟩ := hrun
  have hfile := toOption_join_eq_some helf
  have hreachable := constructed_reachable hs
  have hloadable : Loadable elf := by
    refine ⟨?_, ?_, fun hdyn => ?_⟩
    · rw [hloads]
      decide
    · rw [hloads]
      decide
    · rw [htype] at hdyn
      cases hdyn
  have htable : TableFound elf := by
    refine ⟨⟨segment 5, ?_, segment 5, ?_, ?_, ?_⟩, fun i hi => ?_⟩
    · rw [hloads]
      rfl
    · rw [hloads]
      exact List.mem_singleton.2 rfl
    · rw [HoldsTable, hphoff, hphnum, hphentsize]
      decide
    · rw [hphoff]
      rfl
    · rw [hphnum] at hi
      rw [hphoff, hphentsize, Nat.lt_one_iff.1 hi]
      exact hreached
  exact ⟨elf, s, s1, entry, aux, s', hfile, hreachable, hoffset, hload, (loadElf_iff lenientHost hfile hclass
    (by rw [hloads]; decide) hreachable (Option.isSome_iff_ne_none.1 hnull) hoffset hload).2 ⟨hloadable, fun _ => htable⟩⟩

/-- Two segments need no page together. -/
def PagesApart (h h' : ProgramHeader Nat) : Prop :=
  pageRoundUp (u64 (h.p_vaddr + h.p_memsz)) ≤ pageRoundDown h'.p_vaddr ∨
    pageRoundUp (u64 (h'.p_vaddr + h'.p_memsz)) ≤ pageRoundDown h.p_vaddr

/-- A segment that is read, written and executed is left with the right to write. -/
theorem loadElf_executable_fails : ¬ ∀ (host : Host) (v : ByteVector) (elf : Elf), tryCreate v = .ok (some elf) →
    elf.ident.class_ = 2 → (loads elf).Pairwise PagesApart → (∀ h ∈ loads elf, h.p_filesz ≤ h.p_memsz) →
    ∀ s, (machine host).Reachable s → s.pageInfo 0 ≠ none → ∀ elfOffset s1,
      ElfLoading.elfOffset host elf s = some (elfOffset, s1) → ∀ filepath mainProgram entry aux s',
        loadElf host elf filepath mainProgram s = some (entry, aux, s') → LoadedAs elf elfOffset mainProgram aux s' := by
  intro hclaim
  have hrun : (do
      let elf ← (tryCreate (program 7)).toOption.join
      let s ← constructed
      let offset ← ElfLoading.elfOffset lenientHost elf s
      let loaded ← loadElf lenientHost elf "program" true s
      some (decide (offset.1 = 0 ∧ elf.ident.class_ = 2 ∧ loads elf = [segment 7] ∧ (s.pageInfo 0).isSome = true ∧
        loaded.2.2.protAt 0x20 = some Prot.WRITE))) = some true := by decide +kernel
  simp only [Option.bind_eq_bind, Option.bind_eq_some_iff, Prod.exists, Option.some.injEq, decide_eq_true_iff] at hrun
  obtain ⟨elf, helf, s, hs, elfOffset, s1, hoffset, entry, aux, s', hload, rfl, hclass, hloads, hnull, hprot⟩ := hrun
  have hloaded := (hclaim lenientHost _ elf (toOption_join_eq_some helf) hclass
    (by rw [hloads]; exact List.pairwise_singleton _ _) (by rw [hloads]; decide) s (constructed_reachable hs)
    (Option.isSome_iff_ne_none.1 hnull) 0 s1 hoffset "program" true entry aux s' hload).1
  have hshould := hloaded.protections (segment 7) (by rw [hloads]; exact List.mem_singleton.2 rfl) 0x20 (by decide) (by decide)
  rw [hprot] at hshould
  exact absurd hshould (by decide)

end ElfLoading
end X64Emulator
