import X64Emulator.ElfReader
import X64Emulator.Mmu

/-!
# Loading ELF files

`loadElf` and what it does to the address space: a file that may be anywhere gets a place by a mapping that is made and taken away
again, every `PT_LOAD` segment is mapped, filled and protected, and the auxiliary vector of the main program hears where the
image is. A verification or an `assert` that fails leaves no state.
-/

namespace X64Emulator
namespace ElfLoading

open ElfReader

def ET_EXEC : Nat := 2

def ET_DYN : Nat := 3

def PT_LOAD : Nat := 1

def PT_INTERP : Nat := 3

/-- `Mmu::pageRoundDown` -/
def pageRoundDown (address : Nat) : Nat := address / PAGE_SIZE * PAGE_SIZE

/-- What `loadElf` writes of the auxiliary data. -/
structure Auxiliary where
  elfOffset : Nat
  entrypoint : Nat
  programHeaderTable : Nat
  programHeaderCount : UInt32
  programHeaderEntrySize : UInt32
deriving DecidableEq, Repr

/-- The protection that a program header asks for: `isReadable`, `isWritable` and `isExecutable`. -/
def protection (header : ProgramHeader Nat) : Prot := ⟨header.p_flags.testBit 2, header.p_flags.testBit 1, header.p_flags.testBit 0⟩

/-- The program headers of type `PT_LOAD`. -/
def loads (elf : Elf) : List (ProgramHeader Nat) := elf.programHeaders.filter (fun header => header.p_type = PT_LOAD)

/-- The first page that a segment needs, and where its last page ends. -/
def minStart (elf : Elf) : Nat :=
  (loads elf).foldl (fun minStart header => min minStart (pageRoundDown header.p_vaddr)) (2 ^ 64 - 1)

def maxEnd (elf : Elf) : Nat :=
  (loads elf).foldl (fun maxEnd header => max maxEnd (pageRoundUp (u64 (header.p_vaddr + header.p_memsz)))) 0

def totalLoadSize (elf : Elf) : Nat := if maxEnd elf < minStart elf then 0 else maxEnd elf - minStart elf

/-- The lambda that gives `elfOffset`. -/
def elfOffset (host : Host) (elf : Elf) (mmu : AddressSpace) : Option (Nat × AddressSpace) := do
  verify (elf.fileheader.type = ET_DYN ∨ elf.fileheader.type = ET_EXEC)
  if elf.fileheader.type = ET_EXEC then some (0, mmu)
  else
    let totalLoadSize := (totalLoadSize elf).toUInt64
    let (address, mmu) ← mmu.mmap host 0 totalLoadSize Prot.NONE ⟨false, false⟩
    let address ← address
    let (_, mmu) ← mmu.munmap host address.toUInt64 totalLoadSize
    some (address, mmu)

/-- The address of the last segment that begins with the file. -/
def firstSegmentAddress (elf : Elf) (elfOffset : Nat) : Nat :=
  (loads elf).foldl
    (fun address header => if header.p_offset = 0 then u64 (elfOffset + header.p_vaddr) else address) 0

def auxiliary (elf : Elf) (elfOffset : Nat) : Auxiliary where
  elfOffset := elfOffset
  entrypoint := u64 (elfOffset + elf.fileheader.entry)
  programHeaderTable := u64 (firstSegmentAddress elf elfOffset + 0x40)
  programHeaderCount := elf.programHeaders.length.toUInt32
  programHeaderEntrySize := 56

/-- The bytes behind the pointer of `dataAtOffset`; nothing is read behind the end of the file. -/
def fileBytes (elf : Elf) (header : ProgramHeader Nat) : Option Memory := do
  let offset ← (reader64.dataAtOffset elf header.p_offset header.p_filesz).toOption
  verify (offset + header.p_filesz ≤ elf.bytes.size)
  some fun i => elf.bytes.get (offset + i)

def segmentStart (elfOffset : Nat) (header : ProgramHeader Nat) : Nat := pageRoundDown (u64 (elfOffset + header.p_vaddr))

def segmentEnd (elfOffset : Nat) (header : ProgramHeader Nat) : Nat :=
  pageRoundUp (u64 (elfOffset + header.p_vaddr + header.p_memsz))

def loadProgramHeader (host : Host) (elf : Elf) (filepath : String) (elfOffset : Nat) (mmu : AddressSpace)
    (header : ProgramHeader Nat) : Option AddressSpace := do
  verify (header.p_align % PAGE_SIZE = 0)
  let start := segmentStart elfOffset header
  let nonExecSectionSize := (sub64 (segmentEnd elfOffset header) start).toUInt64
  let (nonExecSectionBase, mmu) ← mmu.mmap host start.toUInt64 nonExecSectionSize Prot.WRITE ⟨true, true⟩
  let nonExecSectionBase ← nonExecSectionBase
  let data ← fileBytes elf header
  let mmu ← mmu.copyToMmu (u64 (nonExecSectionBase + header.p_vaddr % PAGE_SIZE)).toUInt64 data header.p_filesz
  let (_, mmu) ← mmu.mprotect host nonExecSectionBase.toUInt64 nonExecSectionSize (protection header)
  mmu.setRegionName nonExecSectionBase.toUInt64 filepath

/-- The path of the interpreter is read again, and not used. -/
def readInterpreterPath (elf : Elf) : Option Unit :=
  elf.programHeaders.forM fun header => do
    if header.p_type = PT_INTERP then
      let _ ← fileBytes elf header

/-- The result is the entry point; the auxiliary data is that of the main program only. -/
def loadElf (host : Host) (elf : Elf) (filepath : String) (mainProgram : Bool) (mmu : AddressSpace) :
    Option (Nat × Option Auxiliary × AddressSpace) := do
  let (elfOffset, mmu) ← elfOffset host elf mmu
  let mmu ← (loads elf).foldlM (loadProgramHeader host elf filepath elfOffset) mmu
  readInterpreterPath elf
  some (u64 (elfOffset + elf.fileheader.entry), if mainProgram then some (auxiliary elf elfOffset) else none, mmu)

end ElfLoading
end X64Emulator
