import X64Emulator.ElfFormat
import X64Emulator.Lib.Outcome

/-!
# The ELF reader

`ElfReader` and the lookups of the `Elf32` and `Elf64` it makes, function by function. A pointer into the bytes is its distance
from the first of them, as a 64-bit number that may wrap. A read that leaves the bytes and a failed `assert` are failures. The
two classes run the same code on other places of the fields; the places that the reader takes are those of its own text.
-/

namespace X64Emulator
namespace ElfReader

open Outcome

inductive Failure where
  /-- A byte is read that the vector does not have. -/
  | outOfBounds
  /-- An `assert` does not hold. -/
  | assertion
deriving DecidableEq, Repr

/-- `Identifier` -/
structure Identifier where
  class_ : UInt8
  data : UInt8
  version : UInt8
  osabi : UInt8
  abiversion : UInt8
deriving DecidableEq, Repr

/-- A `std::string_view` into the bytes. -/
structure StringView where
  begin : Nat
  length : Nat
deriving DecidableEq, Repr

structure SectionHeader where
  fields : SectionFields Nat
  name : StringView
deriving DecidableEq, Repr

/-- What the code of a class does in its own way: the `Class` it asks for, the size and the places of its headers, and the width in
which it adds an offset and a size. -/
structure Reader where
  class_ : UInt8
  headerSize : Nat
  fileheader : FileHeader Field
  programheader : ProgramHeader Field
  sectionheader : SectionFields Field
  bits : Nat

def fileheader32 : FileHeader Field where
  type := ⟨0x10, 2⟩
  machine := ⟨0x12, 2⟩
  version := ⟨0x14, 4⟩
  entry := ⟨0x18, 4⟩
  phoff := ⟨0x1C, 4⟩
  shoff := ⟨0x20, 4⟩
  flags := ⟨0x24, 4⟩
  ehsize := ⟨0x28, 2⟩
  phentsize := ⟨0x2A, 2⟩
  phnum := ⟨0x2C, 2⟩
  shentsize := ⟨0x2E, 2⟩
  shnum := ⟨0x30, 2⟩
  shstrndx := ⟨0x32, 2⟩

def fileheader64 : FileHeader Field where
  type := ⟨0x10, 2⟩
  machine := ⟨0x12, 2⟩
  version := ⟨0x14, 4⟩
  entry := ⟨0x18, 8⟩
  phoff := ⟨0x20, 8⟩
  shoff := ⟨0x28, 8⟩
  flags := ⟨0x30, 4⟩
  ehsize := ⟨0x34, 2⟩
  phentsize := ⟨0x36, 2⟩
  phnum := ⟨0x38, 2⟩
  shentsize := ⟨0x3A, 2⟩
  shnum := ⟨0x3C, 2⟩
  shstrndx := ⟨0x3E, 2⟩

def programheader32 : ProgramHeader Field where
  p_type := ⟨0x00, 4⟩
  p_flags := ⟨0x04, 4⟩
  p_offset := ⟨0x08, 4⟩
  p_vaddr := ⟨0x0C, 4⟩
  p_paddr := ⟨0x10, 4⟩
  p_filesz := ⟨0x14, 4⟩
  p_memsz := ⟨0x18, 4⟩
  p_align := ⟨0x1C, 4⟩

def programheader64 : ProgramHeader Field where
  p_type := ⟨0x00, 4⟩
  p_flags := ⟨0x04, 4⟩
  p_offset := ⟨0x08, 8⟩
  p_vaddr := ⟨0x10, 8⟩
  p_paddr := ⟨0x18, 8⟩
  p_filesz := ⟨0x20, 8⟩
  p_memsz := ⟨0x28, 8⟩
  p_align := ⟨0x30, 8⟩

def sectionheader32 : SectionFields Field where
  sh_name := ⟨0x00, 4⟩
  sh_type := ⟨0x04, 4⟩
  sh_flags := ⟨0x08, 4⟩
  sh_addr := ⟨0x0C, 4⟩
  sh_offset := ⟨0x10, 4⟩
  sh_size := ⟨0x14, 4⟩
  sh_link := ⟨0x18, 4⟩
  sh_info := ⟨0x1C, 4⟩
  sh_addralign := ⟨0x20, 4⟩
  sh_entsize := ⟨0x24, 4⟩

def sectionheader64 : SectionFields Field where
  sh_name := ⟨0x00, 4⟩
  sh_type := ⟨0x04, 4⟩
  sh_flags := ⟨0x08, 8⟩
  sh_addr := ⟨0x10, 8⟩
  sh_offset := ⟨0x18, 8⟩
  sh_size := ⟨0x20, 8⟩
  sh_link := ⟨0x28, 4⟩
  sh_info := ⟨0x2C, 4⟩
  sh_addralign := ⟨0x30, 8⟩
  sh_entsize := ⟨0x38, 8⟩

def reader32 : Reader := ⟨1, 0x34, fileheader32, programheader32, sectionheader32, 32⟩

def reader64 : Reader := ⟨2, 0x40, fileheader64, programheader64, sectionheader64, 64⟩

def reader : Class → Reader
  | .B32 => reader32
  | .B64 => reader64

/-! ## Reads -/

/-- `std::memcpy` of a field behind a pointer. -/
def readField (v : ByteVector) (buffer : Nat) (f : Field) : Except Failure Nat := do
  let address := u64 (buffer + f.offset)
  check (address + f.width ≤ v.size) .outOfBounds
  .ok (LittleEndian.read v.get address f.width)

/-- `std::strlen` -/
def strlen (v : ByteVector) (address : Nat) : Except Failure Nat :=
  match (v.bytes.drop address).findIdx? (· = 0) with
  | some length => .ok length
  | none => .error .outOfBounds

/-- The characters of a view. -/
def StringView.read (v : ByteVector) (s : StringView) : Except Failure (List UInt8) := do
  check (s.begin + s.length ≤ v.size) .outOfBounds
  .ok ((v.bytes.drop s.begin).take s.length)

/-! ## Headers -/

/-- `tryCreateIdentifier` -/
def tryCreateIdentifier (v : ByteVector) : Option Identifier :=
  if v.size < 0x18 then none
  else if v.get 0 ≠ 0x7f ∨ v.get 1 ≠ 0x45 ∨ v.get 2 ≠ 0x4c ∨ v.get 3 ≠ 0x46 then none
  else some ⟨v.get 4, v.get 5, v.get 6, v.get 7, v.get 8⟩

namespace Reader

variable (r : Reader) (v : ByteVector)

/-- `tryCreateFileheader32` and `tryCreateFileheader64`, which look at the size after the first three fields. -/
def tryCreateFileheader (ident : Identifier) : Except Failure (Option (FileHeader Nat)) :=
  if ident.class_ ≠ r.class_ then .ok none
  else do
    let type ← readField v 0 r.fileheader.type
    let machine ← readField v 0 r.fileheader.machine
    let version ← readField v 0 r.fileheader.version
    if v.size < r.headerSize then .ok none
    else
      let entry ← readField v 0 r.fileheader.entry
      let phoff ← readField v 0 r.fileheader.phoff
      let shoff ← readField v 0 r.fileheader.shoff
      let flags ← readField v 0 r.fileheader.flags
      let ehsize ← readField v 0 r.fileheader.ehsize
      let phentsize ← readField v 0 r.fileheader.phentsize
      let phnum ← readField v 0 r.fileheader.phnum
      let shentsize ← readField v 0 r.fileheader.shentsize
      let shnum ← readField v 0 r.fileheader.shnum
      let shstrndx ← readField v 0 r.fileheader.shstrndx
      if shnum = 0 then .ok none
      else if shnum < shstrndx then .ok none
      else .ok (some ⟨type, machine, version, entry, phoff, shoff, flags, ehsize, phentsize, phnum, shentsize, shnum, shstrndx⟩)

/-- `tryCreateProgramheader32` and `tryCreateProgramheader64` -/
def tryCreateProgramheader (entryOffset entrySize : Nat) : Except Failure (Option (ProgramHeader Nat)) :=
  if v.size < u64 (entryOffset + entrySize) then .ok none
  else do
    let p_type ← readField v entryOffset r.programheader.p_type
    let p_flags ← readField v entryOffset r.programheader.p_flags
    let p_offset ← readField v entryOffset r.programheader.p_offset
    let p_vaddr ← readField v entryOffset r.programheader.p_vaddr
    let p_paddr ← readField v entryOffset r.programheader.p_paddr
    let p_filesz ← readField v entryOffset r.programheader.p_filesz
    let p_memsz ← readField v entryOffset r.programheader.p_memsz
    let p_align ← readField v entryOffset r.programheader.p_align
    .ok (some ⟨p_type, p_flags, p_offset, p_vaddr, p_paddr, p_filesz, p_memsz, p_align⟩)

/-- `tryCreateSectionheader32` and `tryCreateSectionheader64`. The name is set later. -/
def tryCreateSectionheader (entryOffset entrySize : Nat) : Except Failure (Option SectionHeader) :=
  if v.size < u64 (entryOffset + entrySize) then .ok none
  else do
    let sh_name ← readField v entryOffset r.sectionheader.sh_name
    let sh_type ← readField v entryOffset r.sectionheader.sh_type
    let sh_flags ← readField v entryOffset r.sectionheader.sh_flags
    let sh_addr ← readField v entryOffset r.sectionheader.sh_addr
    let sh_offset ← readField v entryOffset r.sectionheader.sh_offset
    let sh_size ← readField v entryOffset r.sectionheader.sh_size
    let sh_link ← readField v entryOffset r.sectionheader.sh_link
    let sh_info ← readField v entryOffset r.sectionheader.sh_info
    let sh_addralign ← readField v entryOffset r.sectionheader.sh_addralign
    let sh_entsize ← readField v entryOffset r.sectionheader.sh_entsize
    .ok (some ⟨⟨sh_name, sh_type, sh_flags, sh_addr, sh_offset, sh_size, sh_link, sh_info, sh_addralign, sh_entsize⟩, ⟨0, 0⟩⟩)

end Reader

/-- The loop over a table: an entry that is not created is left out. -/
def readTable {α : Type} (tryCreateHeader : Nat → Nat → Except Failure (Option α)) (start count entrySize : Nat) :
    Except Failure (List α) :=
  (List.range count).foldlM (fun headers i => do
    match ← tryCreateHeader (u64 (start + i * entrySize)) entrySize with
    | none => .ok headers
    | some header => .ok (headers ++ [header])) []

/-! ## Files -/

/-- `Elf32` and `Elf64` -/
structure Elf where
  bytes : ByteVector
  ident : Identifier
  fileheader : FileHeader Nat
  programHeaders : List (ProgramHeader Nat)
  sectionHeaders : List SectionHeader

/-- The name of a section: the characters behind a pointer into the section with the names. -/
def sectionName (v : ByteVector) (stringTable section_ : SectionHeader) : Except Failure SectionHeader := do
  let name := u64 (stringTable.fields.sh_offset + section_.fields.sh_name)
  let len ← strlen v name
  .ok { section_ with name := ⟨name, len⟩ }

def Reader.tryCreate (r : Reader) (v : ByteVector) (ident : Identifier) : Except Failure (Option Elf) := do
  match ← r.tryCreateFileheader v ident with
  | none => .ok none
  | some header =>
    let programHeaders ← readTable (r.tryCreateProgramheader v) header.phoff header.phnum header.phentsize
    let sectionHeaders ← readTable (r.tryCreateSectionheader v) header.shoff header.shnum header.shentsize
    match sectionHeaders[header.shstrndx]? with
    | none => .ok none
    | some stringTable =>
      let sectionHeaders ← sectionHeaders.mapM (sectionName v stringTable)
      .ok (some ⟨v, ident, header, programHeaders, sectionHeaders⟩)

def tryCreate32 : ByteVector → Identifier → Except Failure (Option Elf) := reader32.tryCreate

def tryCreate64 : ByteVector → Identifier → Except Failure (Option Elf) := reader64.tryCreate

/-- `tryCreate`, from the bytes of the file. -/
def tryCreate (v : ByteVector) : Except Failure (Option Elf) :=
  if 0x40000000 ≤ v.size then .ok none
  else
    match tryCreateIdentifier v with
    | none => .ok none
    | some ident =>
      if ident.class_ = 1 then tryCreate32 v ident
      else if ident.class_ = 2 then tryCreate64 v ident
      else .ok none

/-! ## Lookups -/

/-- `Section`, with its pointers into the bytes. -/
structure Section where
  address : Nat
  begin : Nat
  end_ : Nat
  header : SectionHeader

/-- `StringTable` -/
structure StringTable where
  begin_ : Nat
  end_ : Nat
deriving DecidableEq, Repr

def NOBITS : Nat := 8

def SectionHeader.isNoBits (h : SectionHeader) : Bool := h.fields.sh_type = NOBITS

namespace StringTable

def size (t : StringTable) : Nat := sub64 t.end_ t.begin_

/-- `operator[]` -/
def get (v : ByteVector) (t : StringTable) (idx : UInt64) : Except Failure StringView := do
  check (idx.toNat < t.size) .assertion
  let begin := u64 (t.begin_ + idx.toNat)
  let len ← strlen v begin
  .ok ⟨begin, len⟩

end StringTable

namespace Reader

variable (r : Reader)

/-- `SectionHeader32::toSection` and `SectionHeader64::toSection` -/
def toSection (h : SectionHeader) (size : Nat) : Except Failure Section :=
  let found : Section :=
    ⟨h.fields.sh_addr, u64 h.fields.sh_offset, u64 (h.fields.sh_offset + h.fields.sh_size), h⟩
  if h.isNoBits then .ok found
  else do
    check (h.fields.sh_offset < size) .assertion
    check ((h.fields.sh_offset + h.fields.sh_size) % 2 ^ r.bits ≤ size) .assertion
    .ok found

/-- `sectionFromName`, where the last section of the name counts. -/
def sectionFromName (elf : Elf) (sv : List UInt8) : Except Failure (Option Section) :=
  elf.sectionHeaders.foldlM (fun found header => do
    let name ← header.name.read elf.bytes
    if sv = name then some <$> r.toSection header elf.bytes.size else .ok found) none

/-- `dataAtOffset`, which gives a pointer. -/
def dataAtOffset (elf : Elf) (offset size : Nat) : Except Failure Nat := do
  check (offset < elf.bytes.size) .assertion
  check ((offset + size) % 2 ^ r.bits ≤ elf.bytes.size) .assertion
  .ok offset

def stringTableFromName (elf : Elf) (sv : List UInt8) : Except Failure (Option StringTable) := do
  let found ← r.sectionFromName elf sv
  .ok (found.map fun s => ⟨s.begin, s.end_⟩)

end Reader

/-- The characters `.strtab` -/
def strtabName : List UInt8 := [0x2e, 0x73, 0x74, 0x72, 0x74, 0x61, 0x62]

/-- The characters `.dynstr` -/
def dynstrName : List UInt8 := [0x2e, 0x64, 0x79, 0x6e, 0x73, 0x74, 0x72]

/-- `stringTable` -/
def Reader.stringTable (r : Reader) (elf : Elf) : Except Failure (Option StringTable) := r.stringTableFromName elf strtabName

/-- `dynamicStringTable` -/
def Reader.dynamicStringTable (r : Reader) (elf : Elf) : Except Failure (Option StringTable) :=
  r.stringTableFromName elf dynstrName

/-- The name of a symbol: a text of the reader, or characters of the file. -/
inductive SymbolName where
  | text (s : String)
  | view (s : StringView)
deriving DecidableEq, Repr

/-- `symbolFromEntry`, of the name that the entry of the symbol has. -/
def symbolFromEntry (v : ByteVector) (stringTable : Option StringTable) (st_name : UInt32) : Except Failure SymbolName :=
  match stringTable with
  | none => .ok (.text "unknown (no string table)")
  | some t =>
    if st_name = 0 then .ok (.text "unknown (no name)")
    else if t.size ≤ st_name.toNat then .ok (.text "unknown (no string table entry)")
    else .view <$> t.get v st_name.toUInt64

end ElfReader
end X64Emulator
