import X64Emulator.Lemmas.ElfReader

/-!
# Reading ELF files

What it takes for the reader and the lookups of what it makes to stay inside of the bytes, and to report the headers of the file.
The check in front of an entry is made with the size of an entry that the file gives, and the sum may wrap; the fields are read
without another look at the end of the bytes. Names are read up to a zero byte that nobody looked for, and the 32-bit program
headers are read with the order of the fields of the 64-bit ones.
-/

namespace X64Emulator
namespace ElfReader

open Outcome

/-- `tryCreate32` or `tryCreate64` -/
def tryCreateOf : Class → ByteVector → Identifier → Except Failure (Option Elf)
  | .B32 => tryCreate32
  | .B64 => tryCreate64

/-- What a table gives that a file may have. -/
def fromTable {α : Type} (table : Except Failure (Option StringTable)) (f : StringTable → Except Failure α) :
    Except Failure (Option α) := do
  match ← table with
  | none => .ok none
  | some t => some <$> f t

/-- The string at an index. -/
def stringAt (v : ByteVector) (table : Except Failure (Option StringTable)) (idx : UInt64) :
    Except Failure (Option StringView) :=
  fromTable table fun t => t.get v idx

def symbolAt (v : ByteVector) (table : Except Failure (Option StringTable)) (st_name : UInt32) : Except Failure SymbolName := do
  symbolFromEntry v (← table) st_name

/-- The reader and every lookup of what it makes read only bytes of the vector, and the headers it reports are those of the file,
in their places. -/
structure ReadsWithin (c : Class) (v : ByteVector) (ident : Identifier) : Prop where
  created : tryCreateOf c v ident ≠ .error .outOfBounds
  sections : ∀ elf, tryCreateOf c v ident = .ok (some elf) → ∀ sv, (reader c).sectionFromName elf sv ≠ .error .outOfBounds
  data : ∀ elf, tryCreateOf c v ident = .ok (some elf) → ∀ offset size,
    (reader c).dataAtOffset elf offset size ≠ .error .outOfBounds
  strings : ∀ elf, tryCreateOf c v ident = .ok (some elf) → ∀ idx,
    stringAt v ((reader c).stringTable elf) idx ≠ .error .outOfBounds ∧
    stringAt v ((reader c).dynamicStringTable elf) idx ≠ .error .outOfBounds
  symbols : ∀ elf, tryCreateOf c v ident = .ok (some elf) → ∀ st_name,
    symbolAt v ((reader c).stringTable elf) st_name ≠ .error .outOfBounds ∧
    symbolAt v ((reader c).dynamicStringTable elf) st_name ≠ .error .outOfBounds
  programHeaders : ∀ elf, tryCreateOf c v ident = .ok (some elf) → ∀ (i : Nat) h, elf.programHeaders[i]? = some h →
    (format c).programEntry v i = some h
  sectionHeaders : ∀ elf, tryCreateOf c v ident = .ok (some elf) → ∀ (i : Nat) h, elf.sectionHeaders[i]? = some h →
    (format c).sectionEntry v i = some h.fields

/-- The fields that the two classes have in another order are equal. -/
def Uniform (h : ProgramHeader Nat) : Prop :=
  h.p_offset = h.p_vaddr ∧ h.p_vaddr = h.p_paddr ∧ h.p_paddr = h.p_filesz ∧ h.p_filesz = h.p_memsz ∧ h.p_memsz = h.p_flags

/-- The strings of a table with a name end in time, unless the lookup of the table stops at an assertion. -/
def TableEnds (c : Class) (v : ByteVector) (sv : List UInt8) : Prop :=
  (∀ s ∈ named c v sv, Placed c v s) → ∀ s ∈ (named c v sv).getLast?, StringsEnd v s.sh_offset s.sh_size

/-- The files that are read as they should be: the first bytes of the header are there, the entries that pass the check are in the
file, the names and the tables of strings end, and a 32-bit program header does not show the order of its fields. -/
structure Readable (c : Class) (v : ByteVector) : Prop where
  beginning : 0x18 ≤ v.size
  programs : Accepted c v → ProgramsFit c v
  sections : Accepted c v → SectionsFit c v
  names : Complete c v → NamesEnd c v
  order : Complete c v → c = .B32 → ∀ i < ((format c).fileHeader v).phnum,
    Reached v ((format c).fileHeader v).phoff ((format c).fileHeader v).phentsize i → Uniform ((format c).programAt v i)
  strtab : Complete c v → TableEnds c v strtabName
  dynstr : Complete c v → TableEnds c v dynstrName

variable {c : Class} {v : ByteVector} {ident : Identifier}

theorem tryCreateOf_eq : tryCreateOf c v ident = (reader c).tryCreate v ident := by
  cases c <;> rfl

/-! ## Headers -/

/-- The two orders of the fields give the same header exactly if the fields do not show it. -/
theorem programheader_eq_iff (base : Nat) :
    (reader c).programheader.map (·.value v base) = (format c).program.map (·.value v base) ↔
      (c = .B32 → Uniform ((format c).program.map (·.value v base))) := by
  cases c with
  | B32 =>
    simp only [reader, reader32, programheader32, format, format32, ProgramHeader.map, ProgramHeader.mk.injEq, Uniform,
      true_implies]
    constructor
    · rintro ⟨-, h1, h2, h3, h4, h5, h6, -⟩
      exact ⟨h2.symm, h3.symm, h4.symm, h5.symm, h6.symm⟩
    · rintro ⟨h1, h2, h3, h4, h5⟩
      exact ⟨trivial, by rw [h1, h2, h3, h4, h5], h1.symm, h2.symm, h3.symm, h4.symm, h5.symm, trivial⟩
  | B64 =>
    simp only [reduceCtorEq, false_implies, iff_true]
    rfl

theorem programHeaders_iff (hprograms : ProgramsFit c v) :
    (∀ (i : Nat) h, (elfOf c v ident).programHeaders[i]? = some h → (format c).programEntry v i = some h) ↔
      (c = .B32 → ∀ i < ((format c).fileHeader v).phnum,
        Reached v ((format c).fileHeader v).phoff ((format c).fileHeader v).phentsize i →
          Uniform ((format c).programAt v i)) := by
  have hentry : ∀ i < ((format c).fileHeader v).phnum,
      Reached v ((format c).fileHeader v).phoff ((format c).fileHeader v).phentsize i →
      (format c).programEntry v i = some ((format c).programAt v i) := by
    intro i hi hreached
    exact if_pos (hprograms i hi hreached)
  have hget : ∀ (i : Nat) h, (elfOf c v ident).programHeaders[i]? = some h ↔ i < ((format c).fileHeader v).phnum ∧
      Reached v ((format c).fileHeader v).phoff ((format c).fileHeader v).phentsize i ∧
      (reader c).programheader.map
        (·.value v (((format c).fileHeader v).phoff + i * ((format c).fileHeader v).phentsize)) = h := by
    intro i h
    simp only [elfOf, programsRead, List.getElem?_map, Option.map_eq_some_iff]
    constructor
    · rintro ⟨j, hj, rfl⟩
      obtain ⟨hi, hreached, rfl⟩ := (getElem?_reachedEntries hprograms).1 hj
      exact ⟨hi, hreached, rfl⟩
    · rintro ⟨hi, hreached, rfl⟩
      exact ⟨i, (getElem?_reachedEntries hprograms).2 ⟨hi, hreached, rfl⟩, rfl⟩
  constructor
  · intro hall hc i hi hreached
    have hsame := hall i _ ((hget i _).2 ⟨hi, hreached, rfl⟩)
    rw [hentry i hi hreached] at hsame
    exact (programheader_eq_iff _).1 (Option.some.inj hsame).symm hc
  · intro huniform i h hh
    obtain ⟨hi, hreached, rfl⟩ := (hget i h).1 hh
    rw [hentry i hi hreached]
    exact congrArg some ((programheader_eq_iff _).2 fun hc => huniform hc i hi hreached).symm

theorem sectionHeaders_of_fits (hsections : SectionsFit c v) (i : Nat) (h : SectionHeader)
    (hh : (elfOf c v ident).sectionHeaders[i]? = some h) : (format c).sectionEntry v i = some h.fields := by
  simp only [elfOf, List.getElem?_map, Option.map_eq_some_iff] at hh
  obtain ⟨s, hs, rfl⟩ := hh
  rw [getElem?_sectionsRead hsections] at hs
  split at hs
  · next hreached =>
    cases hs
    exact if_pos (hsections i hreached.1 hreached.2)
  · cases hs

/-! ## Strings -/

section FromTable

variable {α : Type} {f : StringTable → Except Failure α}

theorem map_ne_iff {β : Type} {x : Except Failure α} {g : α → β} :
    g <$> x ≠ .error .outOfBounds ↔ x ≠ .error .outOfBounds := by
  cases x with
  | ok a => exact ⟨fun _ => nofun, fun _ => nofun⟩
  | error e => simp [Functor.map, Except.map]

theorem fromTable_none : fromTable (.ok none) f = .ok none := (rfl)

theorem fromTable_some (t : StringTable) : fromTable (.ok (some t)) f = some <$> f t := (rfl)

theorem fromTable_error (e : Failure) : fromTable (.error e) f = .error e := (rfl)

end FromTable

theorem stringTableFromName_of_placed (hnames : NamesEnd c v) {sv : List UInt8} (hplaced : ∀ s ∈ named c v sv, Placed c v s) :
    (reader c).stringTableFromName (elfOf c v ident) sv =
      .ok ((named c v sv).getLast?.map fun s => ⟨u64 s.sh_offset, u64 (s.sh_offset + s.sh_size)⟩) := by
  simp only [Reader.stringTableFromName, sectionFromName_of_placed hnames hplaced, ok_bind, Option.map_map]
  rfl

theorem stringTableFromName_of_not_placed (hnames : NamesEnd c v) {sv : List UInt8}
    (hplaced : ¬ ∀ s ∈ named c v sv, Placed c v s) :
    (reader c).stringTableFromName (elfOf c v ident) sv = .error .assertion := by
  simp only [Reader.stringTableFromName, sectionFromName_of_not_placed hnames hplaced, error_bind]

variable (ident) in
/-- Every string of a table is read inside of the bytes exactly if the table ends in time. -/
theorem stringAt_iff (hnames : NamesEnd c v) (sv : List UInt8) :
    (∀ idx, stringAt v ((reader c).stringTableFromName (elfOf c v ident) sv) idx ≠ .error .outOfBounds) ↔ TableEnds c v sv := by
  by_cases hplaced : ∀ s ∈ named c v sv, Placed c v s
  · have hends : TableEnds c v sv ↔ ∀ s ∈ (named c v sv).getLast?, StringsEnd v s.sh_offset s.sh_size :=
      ⟨fun hall => hall hplaced, fun hall _ => hall⟩
    simp only [stringAt, stringTableFromName_of_placed hnames hplaced, hends]
    cases hlast : (named c v sv).getLast? with
    | none => simp [fromTable_none]
    | some s =>
      have hmem := List.mem_of_getLast? hlast
      obtain ⟨hoffset, hsize⟩ := sectionsRead_lt (List.mem_of_mem_filter hmem)
      simp only [Option.map_some, fromTable_some, map_ne_iff, Option.mem_def, Option.some.injEq, forall_eq',
        ← get_ne_outOfBounds_iff hoffset hsize]
  · simp only [stringAt, stringTableFromName_of_not_placed hnames hplaced, fromTable_error]
    exact ⟨fun _ hall => absurd hall hplaced, fun _ idx => by simp⟩

/-- A symbol has the name that the table has at its index, or a text. -/
theorem symbolAt_of_stringAt {table : Except Failure (Option StringTable)}
    (h : ∀ idx, stringAt v table idx ≠ .error .outOfBounds) (st_name : UInt32) :
    symbolAt v table st_name ≠ .error .outOfBounds := by
  have hidx := h st_name.toUInt64
  cases table with
  | error e =>
    simp only [stringAt, fromTable_error, symbolAt, error_bind, ne_eq, Except.error.injEq] at hidx ⊢
    exact hidx
  | ok found =>
    cases found with
    | none =>
      simp only [symbolAt, ok_bind, symbolFromEntry]
      nofun
    | some t =>
      simp only [symbolAt, ok_bind, symbolFromEntry]
      split_ifs
      · nofun
      · nofun
      · rw [stringAt, fromTable_some] at hidx
        exact map_ne_iff.2 (map_ne_iff.1 hidx)

/-- The lookup of a section reads names that were read before. -/
theorem sectionFromName_ne (hnames : NamesEnd c v) (sv : List UInt8) :
    (reader c).sectionFromName (elfOf c v ident) sv ≠ .error .outOfBounds := by
  by_cases hplaced : ∀ s ∈ named c v sv, Placed c v s
  · rw [sectionFromName_of_placed hnames hplaced]
    simp
  · rw [sectionFromName_of_not_placed hnames hplaced]
    simp

theorem dataAtOffset_ne (elf : Elf) (offset size : Nat) : (reader c).dataAtOffset elf offset size ≠ .error .outOfBounds := by
  unfold Reader.dataAtOffset
  refine avoids_eq_iff.1 (Post.bind (Post.check (by simp)) fun _ _ => Post.bind (Post.check (by simp)) fun _ _ => ?_)
  exact trivial

/-! ## The whole reader -/

/-- The reader makes an object exactly if its header is accepted, and what is read on the way is there. -/
theorem tryCreate_eq_some (h : ident.class_ = (reader c).class_) (hreadable : Readable c v) {elf : Elf}
    (helf : tryCreateOf c v ident = .ok (some elf)) : Complete c v ∧ elf = elfOf c v ident := by
  rw [tryCreateOf_eq] at helf
  have hlong : ¬ v.size < 0x18 := Nat.not_lt.2 hreadable.beginning
  by_cases haccepted : Accepted c v
  · by_cases hcomplete : Complete c v
    · rw [tryCreate_of_names h hcomplete (hreadable.programs haccepted) (hreadable.sections haccepted)
        (hreadable.names hcomplete)] at helf
      cases helf
      exact ⟨hcomplete, rfl⟩
    · rw [tryCreate_of_incomplete h haccepted (hreadable.programs haccepted) (hreadable.sections haccepted) hcomplete] at helf
      cases helf
  · rw [tryCreate_of_not_accepted h hlong haccepted] at helf
    cases helf

theorem tryCreate_ne (h : ident.class_ = (reader c).class_) (hreadable : Readable c v) :
    tryCreateOf c v ident ≠ .error .outOfBounds := by
  rw [tryCreateOf_eq]
  have hlong : ¬ v.size < 0x18 := Nat.not_lt.2 hreadable.beginning
  by_cases haccepted : Accepted c v
  · by_cases hcomplete : Complete c v
    · rw [tryCreate_of_names h hcomplete (hreadable.programs haccepted) (hreadable.sections haccepted)
        (hreadable.names hcomplete)]
      simp
    · rw [tryCreate_of_incomplete h haccepted (hreadable.programs haccepted) (hreadable.sections haccepted) hcomplete]
      simp
  · rw [tryCreate_of_not_accepted h hlong haccepted]
    simp

theorem readsWithin_of_readable (h : ident.class_ = (reader c).class_) (hreadable : Readable c v) : ReadsWithin c v ident where
  created := tryCreate_ne h hreadable
  sections := by
    intro elf helf sv
    obtain ⟨hcomplete, rfl⟩ := tryCreate_eq_some h hreadable helf
    exact sectionFromName_ne (hreadable.names hcomplete) sv
  data := fun elf _ offset size => dataAtOffset_ne elf offset size
  strings := by
    intro elf helf idx
    obtain ⟨hcomplete, rfl⟩ := tryCreate_eq_some h hreadable helf
    exact ⟨(stringAt_iff ident (hreadable.names hcomplete) strtabName).2 (hreadable.strtab hcomplete) idx,
      (stringAt_iff ident (hreadable.names hcomplete) dynstrName).2 (hreadable.dynstr hcomplete) idx⟩
  symbols := by
    intro elf helf st_name
    obtain ⟨hcomplete, rfl⟩ := tryCreate_eq_some h hreadable helf
    have hstrtab := (stringAt_iff ident (hreadable.names hcomplete) strtabName).2 (hreadable.strtab hcomplete)
    have hdynstr := (stringAt_iff ident (hreadable.names hcomplete) dynstrName).2 (hreadable.dynstr hcomplete)
    exact ⟨symbolAt_of_stringAt hstrtab st_name, symbolAt_of_stringAt hdynstr st_name⟩
  programHeaders := by
    intro elf helf
    obtain ⟨hcomplete, rfl⟩ := tryCreate_eq_some h hreadable helf
    exact (programHeaders_iff (hreadable.programs hcomplete.1)).2 (hreadable.order hcomplete)
  sectionHeaders := by
    intro elf helf i s hs
    obtain ⟨hcomplete, rfl⟩ := tryCreate_eq_some h hreadable helf
    exact sectionHeaders_of_fits (hreadable.sections hcomplete.1) i s hs

theorem readable_of_readsWithin (h : ident.class_ = (reader c).class_) (hreads : ReadsWithin c v ident) : Readable c v := by
  have hcreated := hreads.created
  rw [tryCreateOf_eq] at hcreated
  have hfits : Accepted c v → ProgramsFit c v ∧ SectionsFit c v := by
    intro haccepted
    by_contra hnot
    exact hcreated (tryCreate_of_not_fits h haccepted hnot)
  have hnames : Complete c v → NamesEnd c v := by
    intro hcomplete
    by_contra hnot
    obtain ⟨hprograms, hsections⟩ := hfits hcomplete.1
    exact hcreated (tryCreate_of_not_names h hcomplete hprograms hsections hnot)
  have helf : Complete c v → tryCreateOf c v ident = .ok (some (elfOf c v ident)) := by
    intro hcomplete
    obtain ⟨hprograms, hsections⟩ := hfits hcomplete.1
    rw [tryCreateOf_eq]
    exact tryCreate_of_names h hcomplete hprograms hsections (hnames hcomplete)
  exact
    { beginning := by
        by_contra hshort
        exact hcreated (tryCreate_of_short h (by omega))
      programs := fun haccepted => (hfits haccepted).1
      sections := fun haccepted => (hfits haccepted).2
      names := hnames
      order := fun hcomplete =>
        (programHeaders_iff (hfits hcomplete.1).1).1 (hreads.programHeaders _ (helf hcomplete))
      strtab := fun hcomplete =>
        (stringAt_iff ident (hnames hcomplete) strtabName).1 fun idx => (hreads.strings _ (helf hcomplete) idx).1
      dynstr := fun hcomplete =>
        (stringAt_iff ident (hnames hcomplete) dynstrName).1 fun idx => (hreads.strings _ (helf hcomplete) idx).2 }

theorem readsWithin_of_other (h : ident.class_ ≠ (reader c).class_) : ReadsWithin c v ident := by
  have hnone : tryCreateOf c v ident = .ok none := by rw [tryCreateOf_eq, tryCreate_of_other h]
  constructor
  all_goals simp [hnone]

/-- The reader of a class stays inside of the bytes and reports the headers of the file exactly if the identifier is of another
class, or the file is readable. -/
theorem readsWithin_iff (c : Class) (v : ByteVector) (ident : Identifier) :
    ReadsWithin c v ident ↔ (ident.class_ = (reader c).class_ → Readable c v) := by
  by_cases h : ident.class_ = (reader c).class_
  · exact ⟨fun hreads _ => readable_of_readsWithin h hreads, fun hreadable => readsWithin_of_readable h (hreadable h)⟩
  · exact ⟨fun _ hclass => absurd hclass h, fun _ => readsWithin_of_other h⟩

/-- A file of the 64 bytes of its header, whose only program header begins at the last of them and has one byte. -/
def shortTable : ByteVector where
  bytes := [0x7f, 0x45, 0x4c, 0x46, 2, 1, 1, 0, 0, 0, 0, 0, 0, 0, 0, 0, 2, 0, 0x3e, 0, 1, 0, 0, 0, 0, 0x10, 0x40, 0, 0, 0, 0, 0,
    0x3f, 0, 0, 0, 0, 0, 0, 0, 0x40, 0, 0, 0, 0, 0, 0, 0, 0, 0, 0, 0, 0x40, 0, 1, 0, 1, 0, 0x40, 0, 1, 0, 0, 0]
  length_lt := by decide

theorem shortTable_wrong : ¬ ReadsWithin .B64 shortTable ⟨2, 1, 1, 0, 0⟩ := fun h => h.created rfl

/-- A file reaches the reader of its class with a header that begins. -/
theorem tryCreate_cases (v : ByteVector) : tryCreate v = .ok none ∨
    ∃ c ident, ident.class_ = (reader c).class_ ∧ 0x18 ≤ v.size ∧ tryCreate v = tryCreateOf c v ident := by
  unfold tryCreate
  split
  · exact .inl rfl
  · cases hident : tryCreateIdentifier v with
    | none => exact .inl rfl
    | some ident =>
      have hlong : 0x18 ≤ v.size := by
        by_contra hshort
        simp [tryCreateIdentifier, Nat.lt_of_not_le hshort] at hident
      by_cases h32 : ident.class_ = 1
      · exact .inr ⟨.B32, ident, h32, hlong, by simp [h32, tryCreateOf]⟩
      · by_cases h64 : ident.class_ = 2
        · exact .inr ⟨.B64, ident, h64, hlong, by simp [h64, tryCreateOf]⟩
        · exact .inl (by simp [h32, h64])

/-- The reader makes the object of the file. -/
theorem tryCreate_eq_elfOf {v : ByteVector} {elf : Elf} (h : tryCreate v = .ok (some elf)) :
    ∃ c ident, ident.class_ = (reader c).class_ ∧ elf = elfOf c v ident := by
  rcases tryCreate_cases v with hnone | ⟨c, ident, hclass, hlong, heq⟩
  · rw [hnone] at h
    cases h
  rw [heq, tryCreateOf_eq] at h
  have hnot : ¬ v.size < 0x18 := Nat.not_lt.2 hlong
  by_cases haccepted : Accepted c v
  swap
  · rw [tryCreate_of_not_accepted hclass hnot haccepted] at h
    cases h
  by_cases hfits : ProgramsFit c v ∧ SectionsFit c v
  swap
  · rw [tryCreate_of_not_fits hclass haccepted hfits] at h
    cases h
  by_cases hcomplete : Complete c v
  swap
  · rw [tryCreate_of_incomplete hclass haccepted hfits.1 hfits.2 hcomplete] at h
    cases h
  by_cases hnames : NamesEnd c v
  swap
  · rw [tryCreate_of_not_names hclass hcomplete hfits.1 hfits.2 hnames] at h
    cases h
  rw [tryCreate_of_names hclass hcomplete hfits.1 hfits.2 hnames] at h
  exact ⟨c, ident, hclass, (Option.some.inj (Except.ok.inj h)).symm⟩

/-- All headers of the table are there exactly if none is left out. -/
theorem length_programsRead (c : Class) (v : ByteVector) :
    (programsRead c v).length = ((format c).fileHeader v).phnum ↔ ∀ i < ((format c).fileHeader v).phnum,
      Reached v ((format c).fileHeader v).phoff ((format c).fileHeader v).phentsize i := by
  have hall := List.length_filter_eq_length_iff (l := List.range ((format c).fileHeader v).phnum)
    (p := fun i => decide (Reached v ((format c).fileHeader v).phoff ((format c).fileHeader v).phentsize i))
  rw [List.length_range] at hall
  rw [programsRead, List.length_map, reachedEntries, hall]
  simp only [List.mem_range, decide_eq_true_iff]

end ElfReader
end X64Emulator
