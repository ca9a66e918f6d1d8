import X64Emulator.Base
import X64Emulator.Lib.LittleEndian

/-!
# The ELF format

Where the two classes of ELF files have their headers and the fields of them, and the entries of the tables that a file header
speaks of. This is the format, not the code that reads it. Numbers are taken in the byte order of the host, which is the one that
the reader takes for every file.
-/

namespace X64Emulator
namespace ElfReader

/-- A vector of bytes, which is always shorter than half of the address space. -/
structure ByteVector where
  bytes : List UInt8
  length_lt : bytes.length < 2 ^ 63

namespace ByteVector

def size (v : ByteVector) : Nat := v.bytes.length

def get (v : ByteVector) (i : Nat) : UInt8 := v.bytes.getD i 0

theorem size_lt (v : ByteVector) : v.size < 2 ^ 63 := v.length_lt

end ByteVector

/-- The place of a field in its record. -/
structure Field where
  offset : Nat
  width : Nat
deriving DecidableEq, Repr

def Field.value (v : ByteVector) (base : Nat) (f : Field) : Nat := LittleEndian.read v.get (base + f.offset) f.width

/-- The fields of a file header, which may be their values or their places. -/
structure FileHeader (α : Type) where
  type : α
  machine : α
  version : α
  entry : α
  phoff : α
  shoff : α
  flags : α
  ehsize : α
  phentsize : α
  phnum : α
  shentsize : α
  shnum : α
  shstrndx : α
deriving DecidableEq, Repr

structure ProgramHeader (α : Type) where
  p_type : α
  p_flags : α
  p_offset : α
  p_vaddr : α
  p_paddr : α
  p_filesz : α
  p_memsz : α
  p_align : α
deriving DecidableEq, Repr

structure SectionFields (α : Type) where
  sh_name : α
  sh_type : α
  sh_flags : α
  sh_addr : α
  sh_offset : α
  sh_size : α
  sh_link : α
  sh_info : α
  sh_addralign : α
  sh_entsize : α
deriving DecidableEq, Repr

section Map

variable {α β : Type} (f : α → β)

def FileHeader.map (h : FileHeader α) : FileHeader β :=
  ⟨f h.type, f h.machine, f h.version, f h.entry, f h.phoff, f h.shoff, f h.flags, f h.ehsize, f h.phentsize, f h.phnum,
    f h.shentsize, f h.shnum, f h.shstrndx⟩

def ProgramHeader.map (h : ProgramHeader α) : ProgramHeader β :=
  ⟨f h.p_type, f h.p_flags, f h.p_offset, f h.p_vaddr, f h.p_paddr, f h.p_filesz, f h.p_memsz, f h.p_align⟩

def SectionFields.map (h : SectionFields α) : SectionFields β :=
  ⟨f h.sh_name, f h.sh_type, f h.sh_flags, f h.sh_addr, f h.sh_offset, f h.sh_size, f h.sh_link, f h.sh_info,
    f h.sh_addralign, f h.sh_entsize⟩

end Map

inductive Class where
  | B32
  | B64
deriving DecidableEq, Repr

/-- What the format says of the files of a class. -/
structure Format where
  headerSize : Nat
  header : FileHeader Field
  programSize : Nat
  program : ProgramHeader Field
  sectionSize : Nat
  sections : SectionFields Field

/-- `Elf32_Ehdr`, `Elf32_Phdr` and `Elf32_Shdr` -/
def format32 : Format where
  headerSize := 0x34
  header := ⟨⟨0x10, 2⟩, ⟨0x12, 2⟩, ⟨0x14, 4⟩, ⟨0x18, 4⟩, ⟨0x1C, 4⟩, ⟨0x20, 4⟩, ⟨0x24, 4⟩, ⟨0x28, 2⟩, ⟨0x2A, 2⟩, ⟨0x2C, 2⟩,
    ⟨0x2E, 2⟩, ⟨0x30, 2⟩, ⟨0x32, 2⟩⟩
  programSize := 0x20
  program :=
    { p_type := ⟨0x00, 4⟩, p_offset := ⟨0x04, 4⟩, p_vaddr := ⟨0x08, 4⟩, p_paddr := ⟨0x0C, 4⟩, p_filesz := ⟨0x10, 4⟩,
      p_memsz := ⟨0x14, 4⟩, p_flags := ⟨0x18, 4⟩, p_align := ⟨0x1C, 4⟩ }
  sectionSize := 0x28
  sections := ⟨⟨0x00, 4⟩, ⟨0x04, 4⟩, ⟨0x08, 4⟩, ⟨0x0C, 4⟩, ⟨0x10, 4⟩, ⟨0x14, 4⟩, ⟨0x18, 4⟩, ⟨0x1C, 4⟩, ⟨0x20, 4⟩, ⟨0x24, 4⟩⟩

/-- `Elf64_Ehdr`, `Elf64_Phdr` and `Elf64_Shdr` -/
def format64 : Format where
  headerSize := 0x40
  header := ⟨⟨0x10, 2⟩, ⟨0x12, 2⟩, ⟨0x14, 4⟩, ⟨0x18, 8⟩, ⟨0x20, 8⟩, ⟨0x28, 8⟩, ⟨0x30, 4⟩, ⟨0x34, 2⟩, ⟨0x36, 2⟩, ⟨0x38, 2⟩,
    ⟨0x3A, 2⟩, ⟨0x3C, 2⟩, ⟨0x3E, 2⟩⟩
  programSize := 0x38
  program :=
    { p_type := ⟨0x00, 4⟩, p_flags := ⟨0x04, 4⟩, p_offset := ⟨0x08, 8⟩, p_vaddr := ⟨0x10, 8⟩, p_paddr := ⟨0x18, 8⟩,
      p_filesz := ⟨0x20, 8⟩, p_memsz := ⟨0x28, 8⟩, p_align := ⟨0x30, 8⟩ }
  sectionSize := 0x40
  sections := ⟨⟨0x00, 4⟩, ⟨0x04, 4⟩, ⟨0x08, 8⟩, ⟨0x10, 8⟩, ⟨0x18, 8⟩, ⟨0x20, 8⟩, ⟨0x28, 4⟩, ⟨0x2C, 4⟩, ⟨0x30, 8⟩, ⟨0x38, 8⟩⟩

def format : Class → Format
  | .B32 => format32
  | .B64 => format64

namespace Format

variable (f : Format) (v : ByteVector)

def fileHeader : FileHeader Nat := f.header.map (·.value v 0)

def programAt (i : Nat) : ProgramHeader Nat :=
  f.program.map (·.value v ((f.fileHeader v).phoff + i * (f.fileHeader v).phentsize))

def sectionAt (i : Nat) : SectionFields Nat :=
  f.sections.map (·.value v ((f.fileHeader v).shoff + i * (f.fileHeader v).shentsize))

/-- An entry of the program header table; there is none where the file ends before it does. -/
def programEntry (i : Nat) : Option (ProgramHeader Nat) :=
  if (f.fileHeader v).phoff + i * (f.fileHeader v).phentsize + f.programSize ≤ v.size then some (f.programAt v i) else none

def sectionEntry (i : Nat) : Option (SectionFields Nat) :=
  if (f.fileHeader v).shoff + i * (f.fileHeader v).shentsize + f.sectionSize ≤ v.size then some (f.sectionAt v i) else none

end Format

end ElfReader
end X64Emulator
