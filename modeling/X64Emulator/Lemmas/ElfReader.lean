import X64Emulator.ElfReader

/-!
# What the ELF reader reads

Each function of the reader in closed form: the value it gives where every read stays inside of the bytes, and the failure where
one does not.
-/

namespace X64Emulator
namespace ElfReader

open Outcome

variable {v : ByteVector} {buffer n : Nat}

/-! ## One record -/

/-- A read inside of a record that the bytes hold. -/
theorem readField_of_le (hfits : buffer + n ≤ v.size) {f : Field} (hf : f.offset + f.width ≤ n) :
    readField v buffer f = .ok (f.value v buffer) := by
  have hsize := v.size_lt
  have haddress : u64 (buffer + f.offset) = buffer + f.offset := u64_of_lt (by omega)
  have hin : buffer + f.offset + f.width ≤ v.size := by omega
  simp only [readField, haddress, check, hin, if_true, ok_bind]
  rfl

/-- What follows a read matters only where the read stays inside of the bytes. -/
theorem readField_bind_error {α : Type} {f : Field} {k : Nat → Except Failure α}
    (hk : u64 (buffer + f.offset) + f.width ≤ v.size → ∀ x, k x = .error .outOfBounds) :
    readField v buffer f >>= k = .error .outOfBounds := by
  by_cases hin : u64 (buffer + f.offset) + f.width ≤ v.size
  · simp only [readField, check, hin, if_true, ok_bind]
    exact hk hin _
  · simp only [readField, check, hin, if_false, error_bind]

/-- A record does not stay inside of the bytes if its first and its last field do not both. -/
theorem not_fits {first last : Field} (hfirst : first.offset = 0) (hlast : last.offset + last.width = n) (hbuffer : buffer < 2 ^ 64)
    (hn : n ≤ 2 ^ 16) (hfits : ¬ buffer + n ≤ v.size) (h : u64 (buffer + first.offset) + first.width ≤ v.size) :
    ¬ u64 (buffer + last.offset) + last.width ≤ v.size := by
  have hsize := v.size_lt
  rw [hfirst, Nat.add_zero, u64_of_lt hbuffer] at h
  rw [u64_of_lt (by omega)]
  omega

theorem tryCreateProgramheader_eq (c : Class) (hbuffer : buffer < 2 ^ 64) (entrySize : Nat) :
    (reader c).tryCreateProgramheader v buffer entrySize =
      if v.size < u64 (buffer + entrySize) then .ok none
      else if buffer + (format c).programSize ≤ v.size then
        .ok (some ((reader c).programheader.map (·.value v buffer)))
      else .error .outOfBounds := by
  unfold Reader.tryCreateProgramheader
  refine ite_congr rfl (fun _ => rfl) fun _ => ?_
  split
  · next hfits =>
    have hread : ∀ f : Field, f.offset + f.width ≤ (format c).programSize → readField v buffer f = .ok (f.value v buffer) :=
      fun _ => readField_of_le hfits
    cases c <;> simp (disch := decide) only [hread, ok_bind] <;> rfl
  · next hfits =>
    have hfirst : (reader c).programheader.p_type.offset = 0 := by cases c <;> rfl
    have hlast : (reader c).programheader.p_align.offset + (reader c).programheader.p_align.width = (format c).programSize := by
      cases c <;> rfl
    have hn : (format c).programSize ≤ 2 ^ 16 := by cases c <;> decide
    refine readField_bind_error fun hstart _ => ?_
    iterate 6 refine readField_bind_error fun _ _ => ?_
    exact readField_bind_error fun hend => absurd hend (not_fits hfirst hlast hbuffer hn hfits hstart)

theorem tryCreateSectionheader_eq (c : Class) (hbuffer : buffer < 2 ^ 64) (entrySize : Nat) :
    (reader c).tryCreateSectionheader v buffer entrySize =
      if v.size < u64 (buffer + entrySize) then .ok none
      else if buffer + (format c).sectionSize ≤ v.size then
        .ok (some ⟨(format c).sections.map (·.value v buffer), ⟨0, 0⟩⟩)
      else .error .outOfBounds := by
  unfold Reader.tryCreateSectionheader
  refine ite_congr rfl (fun _ => rfl) fun _ => ?_
  split
  · next hfits =>
    have hread : ∀ f : Field, f.offset + f.width ≤ (format c).sectionSize → readField v buffer f = .ok (f.value v buffer) :=
      fun _ => readField_of_le hfits
    cases c <;> simp (disch := decide) only [hread, ok_bind] <;> rfl
  · next hfits =>
    have hfirst : (reader c).sectionheader.sh_name.offset = 0 := by cases c <;> rfl
    have hlast : (reader c).sectionheader.sh_entsize.offset + (reader c).sectionheader.sh_entsize.width =
        (format c).sectionSize := by cases c <;> rfl
    have hn : (format c).sectionSize ≤ 2 ^ 16 := by cases c <;> decide
    refine readField_bind_error fun hstart _ => ?_
    iterate 8 refine readField_bind_error fun _ _ => ?_
    exact readField_bind_error fun hend => absurd hend (not_fits hfirst hlast hbuffer hn hfits hstart)

/-- The checks that a file header must pass. -/
def Accepted (c : Class) (v : ByteVector) : Prop :=
  (format c).headerSize ≤ v.size ∧ ((format c).fileHeader v).shnum ≠ 0 ∧
    ((format c).fileHeader v).shstrndx ≤ ((format c).fileHeader v).shnum

instance (c : Class) (v : ByteVector) : Decidable (Accepted c v) := inferInstanceAs (Decidable (_ ∧ _ ∧ _))

theorem tryCreateFileheader_eq (c : Class) (ident : Identifier) :
    (reader c).tryCreateFileheader v ident =
      if ident.class_ ≠ (reader c).class_ then .ok none
      else if v.size < 0x18 then .error .outOfBounds
      else if Accepted c v then .ok (some ((format c).fileHeader v))
      else .ok none := by
  have hsize : (reader c).headerSize = (format c).headerSize := by cases c <;> rfl
  unfold Reader.tryCreateFileheader
  refine ite_congr rfl (fun _ => rfl) fun _ => ?_
  by_cases hshort : v.size < 0x18
  · have hversion : u64 (0 + (reader c).fileheader.version.offset) + (reader c).fileheader.version.width = 0x18 := by
      cases c <;> rfl
    rw [if_pos hshort]
    iterate 2 refine readField_bind_error fun _ _ => ?_
    exact readField_bind_error fun hin => absurd hin (by omega)
  · rw [if_neg hshort]
    by_cases hheader : v.size < (reader c).headerSize
    · have hread : ∀ f : Field, f.offset + f.width ≤ 0x18 → readField v 0 f = .ok (f.value v 0) :=
        fun _ => readField_of_le (by omega)
      have hnot : ¬ Accepted c v := fun haccepted => by have := haccepted.1; omega
      rw [if_neg hnot]
      simp only [hheader, if_true]
      cases c <;> simp (disch := decide) only [hread, ok_bind]
    · have hread : ∀ f : Field, f.offset + f.width ≤ (format c).headerSize → readField v 0 f = .ok (f.value v 0) :=
        fun _ => readField_of_le (by omega)
      have haccepted : Accepted c v ↔
          ¬ ((format c).fileHeader v).shnum = 0 ∧ ¬ ((format c).fileHeader v).shnum < ((format c).fileHeader v).shstrndx := by
        unfold Accepted
        omega
      simp only [hheader, if_false, haccepted]
      cases c <;> simp (disch := decide) only [hread, ok_bind] <;> split_ifs <;> first | rfl | tauto

/-! ## Tables -/

/-- Whether the check in front of an entry lets it be read. -/
def Reached (v : ByteVector) (start stride i : Nat) : Prop := u64 (start + i * stride + stride) ≤ v.size

instance (v : ByteVector) (start stride i : Nat) : Decidable (Reached v start stride i) := inferInstanceAs (Decidable (_ ≤ _))

/-- The entries of a table that pass the check. -/
def reachedEntries (v : ByteVector) (start count stride : Nat) : List Nat :=
  (List.range count).filter (fun i => decide (Reached v start stride i))

/-- Each entry that passes the check is a record inside of the bytes. -/
def EntriesFit (v : ByteVector) (start count stride n : Nat) : Prop :=
  ∀ i < count, Reached v start stride i → start + i * stride + n ≤ v.size

section Table

variable {α : Type} {create : Nat → Nat → Except Failure (Option α)} {record : Nat → α} {start count stride i : Nat}

theorem mem_reachedEntries : i ∈ reachedEntries v start count stride ↔ i < count ∧ Reached v start stride i := by
  simp [reachedEntries]

/-- The entry in front of a record inside of the bytes passes the check. -/
theorem reached_of_fits {j : Nat} (hij : i < j) (hfits : start + j * stride + n ≤ v.size) : Reached v start stride i := by
  have hsize := v.size_lt
  have hnext : (i + 1) * stride ≤ j * stride := Nat.mul_le_mul_right _ hij
  rw [Nat.add_mul, Nat.one_mul] at hnext
  rw [Reached, u64_of_lt (by omega)]
  omega

/-- Where the places of the entries wrap, some entry is read that is not inside of the bytes, or none behind the wrap is read. -/
theorem not_reached_of_wrapped (hstart : start < 2 ^ 64) (hspan : (count + 1) * stride ≤ 2 ^ 63)
    (hfits : ∀ i < count, Reached v start stride i → u64 (start + i * stride) + n ≤ v.size) (hi : i < count)
    (hwrapped : 2 ^ 64 ≤ start + i * stride) : ¬ Reached v start stride i := by
  have hsize := v.size_lt
  have hmono : ∀ {j k : Nat}, j ≤ k → j * stride ≤ k * stride := fun h => Nat.mul_le_mul_right _ h
  -- the entry before the wrap ends behind the bytes
  obtain ⟨j, hj, hbefore, hafter⟩ : ∃ j < i, start + j * stride < 2 ^ 64 ∧ 2 ^ 64 ≤ start + (j + 1) * stride := by
    clear hi
    induction i with
    | zero => omega
    | succ i ih =>
      by_cases h : 2 ^ 64 ≤ start + i * stride
      · obtain ⟨j, hj, hcross⟩ := ih h
        exact ⟨j, by omega, hcross⟩
      · exact ⟨i, by omega, by omega, hwrapped⟩
  have hwhole := hmono (show i + 1 ≤ count + 1 by omega)
  have hjump := hmono (show j + 1 ≤ i by omega)
  have hwidth : 1 * stride ≤ (count + 1) * stride := hmono (by omega)
  have hsplit : (j + 1) * stride = j * stride + stride := by rw [Nat.add_mul, Nat.one_mul]
  have hsplit' : (i + 1) * stride = i * stride + stride := by rw [Nat.add_mul, Nat.one_mul]
  have hskipped : ¬ Reached v start stride j := by
    intro hreached
    have hin := hfits j (by omega) hreached
    rw [u64_of_lt hbefore] at hin
    omega
  unfold Reached u64 at *
  omega

theorem entriesFit_iff (hstart : start < 2 ^ 64) (hspan : (count + 1) * stride ≤ 2 ^ 63) :
    (∀ i < count, Reached v start stride i → u64 (start + i * stride) + n ≤ v.size) ↔ EntriesFit v start count stride n := by
  have hsize := v.size_lt
  constructor
  · intro hfits i hi hreached
    have hsmall : start + i * stride < 2 ^ 64 := by
      by_contra hwrapped
      exact not_reached_of_wrapped hstart hspan hfits hi (by omega) hreached
    have hin := hfits i hi hreached
    rwa [u64_of_lt hsmall] at hin
  · intro hfits i hi hreached
    have hin := hfits i hi hreached
    rwa [u64_of_lt (by omega)]

/-- One turn of the loop over a table. -/
theorem readTable_succ : readTable create start (count + 1) stride = readTable create start count stride >>= fun headers =>
    create (u64 (start + count * stride)) stride >>= fun
      | none => .ok headers
      | some header => .ok (headers ++ [header]) := by
  simp only [readTable, List.range_succ, List.foldlM_append, List.foldlM_cons, List.foldlM_nil]
  cases hbefore : readTable create start count stride with
  | error e => simp only [readTable] at hbefore; simp only [hbefore, error_bind]
  | ok headers =>
    simp only [readTable] at hbefore
    simp only [hbefore, ok_bind]
    cases create (u64 (start + count * stride)) stride with
    | error e => rfl
    | ok header => cases header <;> rfl

section Create

variable (hcreate : ∀ buffer < 2 ^ 64, create buffer stride =
  if v.size < u64 (buffer + stride) then .ok none
  else if buffer + n ≤ v.size then .ok (some (record buffer))
  else .error .outOfBounds)
include hcreate

theorem create_entry (i : Nat) : create (u64 (start + i * stride)) stride =
    if Reached v start stride i then
      if u64 (start + i * stride) + n ≤ v.size then .ok (some (record (u64 (start + i * stride)))) else .error .outOfBounds
    else .ok none := by
  rw [hcreate _ (u64_lt _), u64_u64_add]
  by_cases hreached : Reached v start stride i
  · rw [if_pos hreached, if_neg (Nat.not_lt.2 hreached)]
  · rw [if_neg hreached, if_pos (Nat.not_le.1 hreached)]

theorem readTable_of_wrapped (hfits : ∀ i < count, Reached v start stride i → u64 (start + i * stride) + n ≤ v.size) :
    readTable create start count stride =
      .ok ((reachedEntries v start count stride).map fun i => record (u64 (start + i * stride))) := by
  induction count with
  | zero => rfl
  | succ count ih =>
    rw [readTable_succ, ih fun i hi => hfits i (Nat.lt_succ_of_lt hi), ok_bind, create_entry hcreate]
    simp only [reachedEntries, List.range_succ, List.filter_append, List.map_append]
    by_cases hreached : Reached v start stride count
    · rw [if_pos hreached, if_pos (hfits count (Nat.lt_succ_self count) hreached)]
      simp [hreached, ok_bind]
    · rw [if_neg hreached]
      simp [hreached, ok_bind]

/-- Where the entries that are read stay inside of the bytes, they are read. -/
theorem readTable_of_fits (hstart : start < 2 ^ 64) (hspan : (count + 1) * stride ≤ 2 ^ 63)
    (hfits : EntriesFit v start count stride n) :
    readTable create start count stride = .ok ((reachedEntries v start count stride).map fun i => record (start + i * stride)) := by
  have hsize := v.size_lt
  rw [readTable_of_wrapped hcreate ((entriesFit_iff hstart hspan).2 hfits)]
  refine congrArg Except.ok (List.map_congr_left fun i hi => ?_)
  obtain ⟨hcount, hreached⟩ := mem_reachedEntries.1 hi
  have hin := hfits i hcount hreached
  rw [u64_of_lt (by omega)]

theorem readTable_of_not_fits (hstart : start < 2 ^ 64) (hspan : (count + 1) * stride ≤ 2 ^ 63)
    (hfits : ¬ EntriesFit v start count stride n) : readTable create start count stride = .error .outOfBounds := by
  rw [← entriesFit_iff hstart hspan] at hfits
  clear hspan
  induction count with
  | zero => exact absurd (fun i hi => absurd hi (Nat.not_lt_zero i)) hfits
  | succ count ih =>
    rw [readTable_succ]
    by_cases hbefore : ∀ i < count, Reached v start stride i → u64 (start + i * stride) + n ≤ v.size
    · have hlast : Reached v start stride count ∧ ¬ u64 (start + count * stride) + n ≤ v.size := by
        by_contra hnot
        refine hfits fun i hi hreached => ?_
        rcases Nat.lt_succ_iff_lt_or_eq.1 hi with hlt | rfl
        · exact hbefore i hlt hreached
        · exact not_not.1 fun hin => hnot ⟨hreached, hin⟩
      rw [readTable_of_wrapped hcreate hbefore, ok_bind, create_entry hcreate, if_pos hlast.1, if_neg hlast.2]
      rfl
    · rw [ih hbefore]
      rfl

end Create

/-- No entry is left out in front of one that is read. -/
theorem reachedEntries_eq_range (hfits : EntriesFit v start count stride n) :
    ∃ k ≤ count, reachedEntries v start count stride = List.range k := by
  induction count with
  | zero => exact ⟨0, Nat.le_refl 0, rfl⟩
  | succ count ih =>
    by_cases hreached : Reached v start stride count
    · refine ⟨count + 1, Nat.le_refl _, List.filter_eq_self.2 fun i hi => decide_eq_true ?_⟩
      rcases Nat.lt_succ_iff_lt_or_eq.1 (List.mem_range.1 hi) with hlt | rfl
      · exact reached_of_fits hlt (hfits count (Nat.lt_succ_self count) hreached)
      · exact hreached
    · obtain ⟨k, hk, hrange⟩ := ih fun i hi => hfits i (Nat.lt_succ_of_lt hi)
      refine ⟨k, Nat.le_succ_of_le hk, ?_⟩
      rw [← hrange]
      simp [reachedEntries, List.range_succ, hreached]

/-- The entries that are read have the places in the list that they have in the table. -/
theorem getElem?_reachedEntries (hfits : EntriesFit v start count stride n) {i j : Nat} :
    (reachedEntries v start count stride)[i]? = some j ↔ i < count ∧ Reached v start stride i ∧ j = i := by
  obtain ⟨k, hk, hrange⟩ := reachedEntries_eq_range hfits
  have hmem : ∀ i, i < k ↔ i < count ∧ Reached v start stride i := fun i => by
    rw [← mem_reachedEntries, hrange, List.mem_range]
  rw [hrange, List.getElem?_eq_some_iff]
  simp only [List.length_range, List.getElem_range, exists_prop, hmem, and_assoc, eq_comm]

end Table

/-! ## Strings -/

/-- A zero byte stands at an address or behind it. -/
def Terminated (v : ByteVector) (address : Nat) : Prop := ∃ k, address ≤ k ∧ k < v.size ∧ v.get k = 0

/-- The characters from an address to the next zero byte. -/
def charactersAt (v : ByteVector) (address : Nat) : List UInt8 := (v.bytes.drop address).takeWhile (· ≠ 0)

section Strings

variable {address : Nat}

theorem terminated_iff : Terminated v address ↔ ∃ b ∈ v.bytes.drop address, b = 0 := by
  constructor
  · rintro ⟨k, hk, hin, hzero⟩
    have hget : v.bytes[k]? = some (v.get k) := by
      rw [ByteVector.get, List.getD_eq_getElem?_getD, List.getElem?_eq_getElem hin]
      rfl
    refine ⟨v.get k, List.mem_of_getElem? (i := k - address) ?_, hzero⟩
    rw [List.getElem?_drop, Nat.add_sub_cancel' hk, hget]
  · rintro ⟨b, hb, rfl⟩
    obtain ⟨i, hi⟩ := List.mem_iff_getElem?.1 hb
    rw [List.getElem?_drop] at hi
    refine ⟨address + i, Nat.le_add_right .., (List.getElem?_eq_some_iff.1 hi).1, ?_⟩
    rw [ByteVector.get, List.getD_eq_getElem?_getD, hi]
    rfl

theorem strlen_of_terminated (h : Terminated v address) : strlen v address = .ok (charactersAt v address).length := by
  obtain ⟨b, hb, hzero⟩ := terminated_iff.1 h
  have hfind := List.findIdx?_eq_some_of_exists (p := (· = 0)) ⟨b, hb, decide_eq_true hzero⟩
  have hlength : (charactersAt v address).length = (v.bytes.drop address).findIdx (· = 0) := by
    have hnot : (fun b : UInt8 => !decide (b ≠ 0)) = fun b => decide (b = 0) := by simp
    rw [charactersAt, List.takeWhile_eq_take_findIdx_not, List.length_take, hnot]
    exact Nat.min_eq_left List.findIdx_le_length
  simp only [strlen, hfind, hlength]

theorem strlen_of_not_terminated (h : ¬ Terminated v address) : strlen v address = .error .outOfBounds := by
  have hfind : (v.bytes.drop address).findIdx? (· = 0) = none := by
    refine List.findIdx?_eq_none_iff.2 fun b hb => decide_eq_false fun hzero => h (terminated_iff.2 ⟨b, hb, hzero⟩)
  simp only [strlen, hfind]

/-- A view of the characters at an address has them. -/
theorem read_charactersAt (h : address ≤ v.size) :
    StringView.read v ⟨address, (charactersAt v address).length⟩ = .ok (charactersAt v address) := by
  have hprefix : charactersAt v address <+: v.bytes.drop address := List.takeWhile_prefix _
  have hlength := hprefix.length_le
  rw [List.length_drop] at hlength
  have hin : address + (charactersAt v address).length ≤ v.size := by
    unfold ByteVector.size at *
    omega
  simp only [StringView.read, check, hin, if_true, ok_bind]
  rw [← List.prefix_iff_eq_take.1 hprefix]

end Strings

/-! ## Files -/

section Files

variable (c : Class) (v : ByteVector)

/-- The headers that the reader gets from the program header table. -/
def programsRead : List (ProgramHeader Nat) :=
  let header := (format c).fileHeader v
  (reachedEntries v header.phoff header.phnum header.phentsize).map fun i =>
    (reader c).programheader.map (·.value v (header.phoff + i * header.phentsize))

/-- The headers that it gets from the section header table, without their names. -/
def sectionsRead : List (SectionFields Nat) :=
  let header := (format c).fileHeader v
  (reachedEntries v header.shoff header.shnum header.shentsize).map ((format c).sectionAt v)

def ProgramsFit : Prop :=
  let header := (format c).fileHeader v
  EntriesFit v header.phoff header.phnum header.phentsize (format c).programSize

def SectionsFit : Prop :=
  let header := (format c).fileHeader v
  EntriesFit v header.shoff header.shnum header.shentsize (format c).sectionSize

/-- The file header is accepted, and the section with the names is among those that are read. -/
def Complete : Prop :=
  let header := (format c).fileHeader v
  Accepted c v ∧ header.shstrndx < header.shnum ∧ Reached v header.shoff header.shentsize header.shstrndx

/-- Where the name of a section begins. -/
def namePlace (h : SectionFields Nat) : Nat :=
  u64 (((format c).sectionAt v ((format c).fileHeader v).shstrndx).sh_offset + h.sh_name)

def NamesEnd : Prop := ∀ h ∈ sectionsRead c v, Terminated v (namePlace c v h)

/-- A section header with the view of its name. -/
def withName (h : SectionFields Nat) : SectionHeader := ⟨h, namePlace c v h, (charactersAt v (namePlace c v h)).length⟩

/-- The object that the reader makes. -/
def elfOf (ident : Identifier) : Elf :=
  ⟨v, ident, (format c).fileHeader v, programsRead c v, (sectionsRead c v).map (withName c v)⟩

end Files

section TryCreate

variable {c : Class} {ident : Identifier}

theorem value_lt (f : Field) (base : Nat) : f.value v base < 256 ^ f.width := LittleEndian.read_lt

/-- The numbers of a file header are as small as their fields. -/
theorem fileHeader_lt : ((format c).fileHeader v).phoff < 2 ^ 64 ∧ ((format c).fileHeader v).shoff < 2 ^ 64 ∧
    (((format c).fileHeader v).phnum + 1) * ((format c).fileHeader v).phentsize ≤ 2 ^ 63 ∧
    (((format c).fileHeader v).shnum + 1) * ((format c).fileHeader v).shentsize ≤ 2 ^ 63 := by
  have hspan : ∀ a b : Nat, a < 2 ^ 16 → b < 2 ^ 16 → (a + 1) * b ≤ 2 ^ 63 := by
    intro a b ha hb
    have hproduct : (a + 1) * b ≤ 2 ^ 16 * 2 ^ 16 := Nat.mul_le_mul (Nat.succ_le_of_lt ha) (Nat.le_of_lt hb)
    exact Nat.le_trans hproduct (by decide)
  cases c with
  | B32 =>
    exact ⟨Nat.lt_trans (value_lt ..) (by decide), Nat.lt_trans (value_lt ..) (by decide),
      hspan _ _ (value_lt ..) (value_lt ..), hspan _ _ (value_lt ..) (value_lt ..)⟩
  | B64 =>
    exact ⟨value_lt .., value_lt .., hspan _ _ (value_lt ..) (value_lt ..), hspan _ _ (value_lt ..) (value_lt ..)⟩

theorem tryCreate_of_other (h : ident.class_ ≠ (reader c).class_) : (reader c).tryCreate v ident = .ok none := by
  rw [Reader.tryCreate, tryCreateFileheader_eq, if_pos h, ok_bind]

theorem tryCreate_of_short (h : ident.class_ = (reader c).class_) (hshort : v.size < 0x18) :
    (reader c).tryCreate v ident = .error .outOfBounds := by
  rw [Reader.tryCreate, tryCreateFileheader_eq, if_neg (not_not.2 h), if_pos hshort, error_bind]

theorem tryCreate_of_not_accepted (h : ident.class_ = (reader c).class_) (hlong : ¬ v.size < 0x18) (haccepted : ¬ Accepted c v) :
    (reader c).tryCreate v ident = .ok none := by
  rw [Reader.tryCreate, tryCreateFileheader_eq, if_neg (not_not.2 h), if_neg hlong, if_neg haccepted, ok_bind]

theorem not_short (haccepted : Accepted c v) : ¬ v.size < 0x18 := by
  have hsize : 0x18 ≤ (format c).headerSize := by cases c <;> decide
  have hin := haccepted.1
  omega

theorem tryCreate_of_not_fits (h : ident.class_ = (reader c).class_) (haccepted : Accepted c v)
    (hfits : ¬ (ProgramsFit c v ∧ SectionsFit c v)) : (reader c).tryCreate v ident = .error .outOfBounds := by
  obtain ⟨hphoff, hshoff, hphspan, hshspan⟩ := fileHeader_lt (v := v) (c := c)
  rw [Reader.tryCreate, tryCreateFileheader_eq, if_neg (not_not.2 h), if_neg (not_short haccepted), if_pos haccepted, ok_bind]
  by_cases hprograms : ProgramsFit c v
  · have hsections : ¬ SectionsFit c v := fun hsections => hfits ⟨hprograms, hsections⟩
    simp only [readTable_of_fits (fun buffer hbuffer => tryCreateProgramheader_eq c hbuffer _) hphoff hphspan hprograms, ok_bind,
      readTable_of_not_fits (fun buffer hbuffer => tryCreateSectionheader_eq c hbuffer _) hshoff hshspan hsections, error_bind]
  · simp only [readTable_of_not_fits (fun buffer hbuffer => tryCreateProgramheader_eq c hbuffer _) hphoff hphspan hprograms,
      error_bind]

/-- The section with the names, as the loop over the section headers leaves it. -/
theorem getElem?_sectionsRead (hfits : SectionsFit c v) (i : Nat) : (sectionsRead c v)[i]? =
    if i < ((format c).fileHeader v).shnum ∧
        Reached v ((format c).fileHeader v).shoff ((format c).fileHeader v).shentsize i then
      some ((format c).sectionAt v i)
    else none := by
  rw [sectionsRead, List.getElem?_map]
  split
  · next hreached => rw [(getElem?_reachedEntries hfits).2 ⟨hreached.1, hreached.2, rfl⟩]; rfl
  · next hnot =>
    rw [Option.map_eq_none_iff, Option.eq_none_iff_forall_ne_some]
    intro j hj
    obtain ⟨hi, hreached, -⟩ := (getElem?_reachedEntries hfits).1 hj
    exact hnot ⟨hi, hreached⟩

/-- What is left of the function when both tables are read, from the section with the names on. -/
def setNames (c : Class) (v : ByteVector) (ident : Identifier) : Option (SectionFields Nat) → Except Failure (Option Elf)
  | none => .ok none
  | some stringTable => do
    let sectionHeaders ← (sectionsRead c v).mapM fun s => sectionName v ⟨stringTable, ⟨0, 0⟩⟩ ⟨s, ⟨0, 0⟩⟩
    .ok (some ⟨v, ident, (format c).fileHeader v, programsRead c v, sectionHeaders⟩)

theorem tryCreate_of_fits (h : ident.class_ = (reader c).class_) (haccepted : Accepted c v) (hprograms : ProgramsFit c v)
    (hsections : SectionsFit c v) :
    (reader c).tryCreate v ident = setNames c v ident (sectionsRead c v)[((format c).fileHeader v).shstrndx]? := by
  obtain ⟨hphoff, hshoff, hphspan, hshspan⟩ := fileHeader_lt (v := v) (c := c)
  have hread : (reachedEntries v ((format c).fileHeader v).shoff ((format c).fileHeader v).shnum
      ((format c).fileHeader v).shentsize).map (fun i => (⟨(format c).sections.map
        (·.value v (((format c).fileHeader v).shoff + i * ((format c).fileHeader v).shentsize)), ⟨0, 0⟩⟩ : SectionHeader)) =
      (sectionsRead c v).map fun h => ⟨h, ⟨0, 0⟩⟩ := by
    rw [sectionsRead, List.map_map]
    rfl
  rw [Reader.tryCreate, tryCreateFileheader_eq, if_neg (not_not.2 h), if_neg (not_short haccepted), if_pos haccepted, ok_bind]
  simp only [readTable_of_fits (fun buffer hbuffer => tryCreateProgramheader_eq c hbuffer _) hphoff hphspan hprograms, ok_bind,
    readTable_of_fits (fun buffer hbuffer => tryCreateSectionheader_eq c hbuffer _) hshoff hshspan hsections, hread,
    List.getElem?_map]
  cases (sectionsRead c v)[((format c).fileHeader v).shstrndx]? with
  | none => rfl
  | some stringTable =>
    simp only [Option.map_some, List.mapM_map]
    rfl

theorem tryCreate_of_incomplete (h : ident.class_ = (reader c).class_) (haccepted : Accepted c v) (hprograms : ProgramsFit c v)
    (hsections : SectionsFit c v) (hcomplete : ¬ Complete c v) : (reader c).tryCreate v ident = .ok none := by
  rw [tryCreate_of_fits h haccepted hprograms hsections, getElem?_sectionsRead hsections,
    if_neg fun hreached => hcomplete ⟨haccepted, hreached⟩]
  rfl

theorem sectionName_of_terminated {s : SectionFields Nat} (hend : Terminated v (namePlace c v s)) :
    sectionName v ⟨(format c).sectionAt v ((format c).fileHeader v).shstrndx, ⟨0, 0⟩⟩ ⟨s, ⟨0, 0⟩⟩ = .ok (withName c v s) := by
  have hlength : strlen v (namePlace c v s) = .ok (charactersAt v (namePlace c v s)).length := strlen_of_terminated hend
  simp only [namePlace] at hlength
  simp only [sectionName, hlength, ok_bind]
  rfl

theorem sectionName_of_not_terminated {s : SectionFields Nat} (hend : ¬ Terminated v (namePlace c v s)) :
    sectionName v ⟨(format c).sectionAt v ((format c).fileHeader v).shstrndx, ⟨0, 0⟩⟩ ⟨s, ⟨0, 0⟩⟩ =
      .error .outOfBounds := by
  have hlength : strlen v (namePlace c v s) = .error .outOfBounds := strlen_of_not_terminated hend
  simp only [namePlace] at hlength
  simp only [sectionName, hlength, error_bind]

theorem tryCreate_of_names (h : ident.class_ = (reader c).class_) (hcomplete : Complete c v) (hprograms : ProgramsFit c v)
    (hsections : SectionsFit c v) (hnames : NamesEnd c v) :
    (reader c).tryCreate v ident = .ok (some (elfOf c v ident)) := by
  rw [tryCreate_of_fits h hcomplete.1 hprograms hsections, getElem?_sectionsRead hsections, if_pos hcomplete.2]
  simp only [setNames, mapM_of_ok fun s hs => sectionName_of_terminated (hnames s hs), ok_bind]
  rfl

theorem tryCreate_of_not_names (h : ident.class_ = (reader c).class_) (hcomplete : Complete c v) (hprograms : ProgramsFit c v)
    (hsections : SectionsFit c v) (hnames : ¬ NamesEnd c v) : (reader c).tryCreate v ident = .error .outOfBounds := by
  have hturn : ∀ s ∈ sectionsRead c v,
      sectionName v ⟨(format c).sectionAt v ((format c).fileHeader v).shstrndx, ⟨0, 0⟩⟩ ⟨s, ⟨0, 0⟩⟩ =
        .ok (withName c v s) ∨
      sectionName v ⟨(format c).sectionAt v ((format c).fileHeader v).shstrndx, ⟨0, 0⟩⟩ ⟨s, ⟨0, 0⟩⟩ =
        .error .outOfBounds := by
    intro s _
    by_cases hend : Terminated v (namePlace c v s)
    · exact .inl (sectionName_of_terminated hend)
    · exact .inr (sectionName_of_not_terminated hend)
  have hfailed : ∃ s ∈ sectionsRead c v, ¬ Terminated v (namePlace c v s) := by
    simpa only [NamesEnd, not_forall, exists_prop] using hnames
  obtain ⟨s, hs, hend⟩ := hfailed
  rw [tryCreate_of_fits h hcomplete.1 hprograms hsections, getElem?_sectionsRead hsections, if_pos hcomplete.2]
  simp only [setNames, mapM_of_error hturn ⟨s, hs, sectionName_of_not_terminated hend⟩, error_bind]

end TryCreate

/-! ## Lookups -/

section Lookups

variable (c : Class) (v : ByteVector)

def isNamed (sv : List UInt8) (s : SectionFields Nat) : Bool := charactersAt v (namePlace c v s) = sv

/-- The sections of a name, in the order of their headers. -/
def named (sv : List UInt8) : List (SectionFields Nat) := (sectionsRead c v).filter (isNamed c v sv)

/-- What `toSection` asserts. -/
def Placed (s : SectionFields Nat) : Prop :=
  s.sh_type = NOBITS ∨ (s.sh_offset < v.size ∧ (s.sh_offset + s.sh_size) % 2 ^ (reader c).bits ≤ v.size)

def sectionOf (s : SectionFields Nat) : Section :=
  ⟨s.sh_addr, u64 s.sh_offset, u64 (s.sh_offset + s.sh_size), withName c v s⟩

/-- Every character of a table of strings has a zero byte behind it, since its last one has. -/
def StringsEnd (offset size : Nat) : Prop := size = 0 ∨ ∃ k, offset + size ≤ k + 1 ∧ k < v.size ∧ v.get k = 0

variable {c v} {ident : Identifier} {sv : List UInt8}

theorem toSection_of_placed {s : SectionFields Nat} (h : Placed c v s) :
    (reader c).toSection (withName c v s) v.size = .ok (sectionOf c v s) := by
  by_cases hnobits : s.sh_type = NOBITS
  · simp [Reader.toSection, SectionHeader.isNoBits, withName, sectionOf, hnobits]
  · obtain ⟨hoffset, hend⟩ := h.resolve_left hnobits
    simp [Reader.toSection, SectionHeader.isNoBits, withName, sectionOf, hnobits, check, hoffset, hend, ok_bind]

theorem toSection_of_not_placed {s : SectionFields Nat} (h : ¬ Placed c v s) :
    (reader c).toSection (withName c v s) v.size = .error .assertion := by
  obtain ⟨hnobits, hplaced⟩ := not_or.1 h
  by_cases hoffset : s.sh_offset < v.size
  · have hend : ¬ (s.sh_offset + s.sh_size) % 2 ^ (reader c).bits ≤ v.size := fun hend => hplaced ⟨hoffset, hend⟩
    simp [Reader.toSection, SectionHeader.isNoBits, withName, hnobits, check, hoffset, hend, ok_bind, error_bind]
  · simp [Reader.toSection, SectionHeader.isNoBits, withName, hnobits, check, hoffset, error_bind]

/-- The loop of `sectionFromName` over some of the section headers. -/
def lookThrough (c : Class) (v : ByteVector) (sv : List UInt8) (l : List (SectionFields Nat)) (found : Option Section) :
    Except Failure (Option Section) :=
  (l.map (withName c v)).foldlM (fun found header => do
    let name ← header.name.read v
    if sv = name then some <$> (reader c).toSection header v.size else .ok found) found

theorem lookThrough_cons {s : SectionFields Nat} {l : List (SectionFields Nat)} {found : Option Section}
    (hend : Terminated v (namePlace c v s)) : lookThrough c v sv (s :: l) found =
      if isNamed c v sv s then (reader c).toSection (withName c v s) v.size >>= fun t => lookThrough c v sv l (some t)
      else lookThrough c v sv l found := by
  obtain ⟨k, hk, hin, -⟩ := hend
  have hread : (withName c v s).name.read v = .ok (charactersAt v (namePlace c v s)) := read_charactersAt (by omega)
  unfold lookThrough
  rw [List.map_cons, List.foldlM_cons, hread, ok_bind]
  by_cases hsv : charactersAt v (namePlace c v s) = sv
  · have hnamed : isNamed c v sv s = true := decide_eq_true hsv
    rw [if_pos hsv.symm, if_pos hnamed]
    cases (reader c).toSection (withName c v s) v.size <;> rfl
  · rw [if_neg fun heq => hsv heq.symm, if_neg (by simp [isNamed, hsv])]
    rfl

theorem lookThrough_of_placed {l : List (SectionFields Nat)} {found : Option Section}
    (hends : ∀ s ∈ l, Terminated v (namePlace c v s)) (hplaced : ∀ s ∈ l.filter (isNamed c v sv), Placed c v s) :
    lookThrough c v sv l found = .ok (((l.filter (isNamed c v sv)).getLast?.map (sectionOf c v)).or found) := by
  induction l generalizing found with
  | nil => rfl
  | cons s l ih =>
    rw [lookThrough_cons (hends s List.mem_cons_self)]
    have hrest : ∀ t ∈ l, Terminated v (namePlace c v t) := fun t ht => hends t (List.mem_cons_of_mem _ ht)
    by_cases hsv : isNamed c v sv s = true
    · rw [List.filter_cons_of_pos hsv] at hplaced ⊢
      rw [if_pos hsv, toSection_of_placed (hplaced s List.mem_cons_self), ok_bind,
        ih hrest fun t ht => hplaced t (List.mem_cons_of_mem _ ht), List.getLast?_cons]
      cases (l.filter (isNamed c v sv)).getLast? <;> rfl
    · rw [List.filter_cons_of_neg hsv] at hplaced ⊢
      rw [if_neg hsv, ih hrest hplaced]

theorem lookThrough_of_not_placed {l : List (SectionFields Nat)} {found : Option Section}
    (hends : ∀ s ∈ l, Terminated v (namePlace c v s)) (hplaced : ∃ s ∈ l.filter (isNamed c v sv), ¬ Placed c v s) :
    lookThrough c v sv l found = .error .assertion := by
  induction l generalizing found with
  | nil => simp at hplaced
  | cons s l ih =>
    rw [lookThrough_cons (hends s List.mem_cons_self)]
    have hrest : ∀ t ∈ l, Terminated v (namePlace c v t) := fun t ht => hends t (List.mem_cons_of_mem _ ht)
    by_cases hsv : isNamed c v sv s = true
    · rw [List.filter_cons_of_pos hsv] at hplaced
      rw [if_pos hsv]
      by_cases hfirst : Placed c v s
      · obtain ⟨t, ht, hnot⟩ := hplaced
        rw [toSection_of_placed hfirst, ok_bind]
        rcases List.mem_cons.1 ht with rfl | ht
        · exact absurd hfirst hnot
        · exact ih hrest ⟨t, ht, hnot⟩
      · rw [toSection_of_not_placed hfirst, error_bind]
    · rw [List.filter_cons_of_neg hsv] at hplaced
      rw [if_neg hsv, ih hrest hplaced]

theorem sectionFromName_of_placed (hnames : NamesEnd c v) (hplaced : ∀ s ∈ named c v sv, Placed c v s) :
    (reader c).sectionFromName (elfOf c v ident) sv = .ok ((named c v sv).getLast?.map (sectionOf c v)) := by
  refine (lookThrough_of_placed hnames hplaced).trans ?_
  rw [Option.or_none]
  rfl

theorem sectionFromName_of_not_placed (hnames : NamesEnd c v) (hplaced : ¬ ∀ s ∈ named c v sv, Placed c v s) :
    (reader c).sectionFromName (elfOf c v ident) sv = .error .assertion := by
  have hsome : ∃ s ∈ named c v sv, ¬ Placed c v s := by simpa only [not_forall, exists_prop] using hplaced
  exact lookThrough_of_not_placed hnames hsome

/-- The fields of a section header that are read are 64-bit numbers. -/
theorem sectionsRead_lt {s : SectionFields Nat} (h : s ∈ sectionsRead c v) : s.sh_offset < 2 ^ 64 ∧ s.sh_size < 2 ^ 64 := by
  obtain ⟨i, -, rfl⟩ := List.mem_map.1 h
  cases c with
  | B32 => exact ⟨Nat.lt_trans (value_lt ..) (by decide), Nat.lt_trans (value_lt ..) (by decide)⟩
  | B64 => exact ⟨value_lt .., value_lt ..⟩

theorem size_stringTable {offset size : Nat} (hoffset : offset < 2 ^ 64) (hsize : size < 2 ^ 64) :
    StringTable.size ⟨u64 offset, u64 (offset + size)⟩ = size := by
  simp only [StringTable.size, sub64, u64]
  omega

/-- The string at an index is read inside of the bytes for every index exactly if the table ends in time. -/
theorem get_ne_outOfBounds_iff {offset size : Nat} (hoffset : offset < 2 ^ 64) (hsize : size < 2 ^ 64) :
    (∀ idx : UInt64, StringTable.get v ⟨u64 offset, u64 (offset + size)⟩ idx ≠ .error .outOfBounds) ↔
      StringsEnd v offset size := by
  have hlt := v.size_lt
  have hget : ∀ idx : UInt64, StringTable.get v ⟨u64 offset, u64 (offset + size)⟩ idx ≠ .error .outOfBounds ↔
      (idx.toNat < size → Terminated v (u64 (offset + idx.toNat))) := by
    intro idx
    unfold StringTable.get
    rw [size_stringTable hoffset hsize, u64_u64_add]
    by_cases hidx : idx.toNat < size
    · by_cases hend : Terminated v (u64 (offset + idx.toNat))
      · simp [check, hidx, ok_bind, hend, strlen_of_terminated hend]
      · simp [check, hidx, ok_bind, error_bind, hend, strlen_of_not_terminated hend]
    · simp [check, hidx, error_bind]
  simp only [hget]
  constructor
  · intro hall
    rcases Nat.eq_zero_or_pos size with hzero | hpos
    · exact .inl hzero
    · refine .inr ?_
      by_cases hwraps : offset + (size - 1) < 2 ^ 64
      · have hlast : (size - 1).toUInt64.toNat = size - 1 := toNat_toUInt64 (by omega)
        obtain ⟨k, hk, hin, hbyte⟩ := hall _ (by rw [hlast]; omega)
        rw [hlast, u64_of_lt hwraps] at hk
        exact ⟨k, by omega, hin, hbyte⟩
      · -- the last address there is belongs to the table
        have hlast : (2 ^ 64 - 1 - offset).toUInt64.toNat = 2 ^ 64 - 1 - offset := toNat_toUInt64 (by omega)
        obtain ⟨k, hk, hin, -⟩ := hall _ (by rw [hlast]; omega)
        rw [hlast, u64_of_lt (by omega)] at hk
        omega
  · rintro (hzero | ⟨k, hk, hin, hbyte⟩) idx hidx
    · omega
    · exact ⟨k, by rw [u64_of_lt (by omega)]; omega, hin, hbyte⟩

end Lookups

end ElfReader
end X64Emulator
