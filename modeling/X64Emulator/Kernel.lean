import X64Emulator.Descriptors
import X64Emulator.Mmu
import X64Emulator.Syscalls

/-!
# The kernel

The scheduler with its processes, and the file system with their descriptor tables. The table of a process has the number of the
process. The calls here are those that change two parts of the kernel: `Sys::clone` and `Sys::clone3` the scheduler and the
descriptor tables, `Sys::mmap` of a file the address space and the files.
-/

namespace X64Emulator

open Outcome

/-- Why a call has no result. -/
inductive KernelFailure where
  | scheduler (failure : Failure)
  | files (failure : FsFailure)
  /-- a process has no descriptor table -/
  | noTable
deriving DecidableEq, Repr

structure Kernel where
  scheduler : Scheduler
  files : FileState

/-- The two calls that clone a thread or a process, which share most of their code. -/
inductive CloneCall where
  | clone (flags : CloneFlags) (stack parent_tid child_tid : Nat)
  | clone3 (flags : CloneFlags) (parent_tid child_tid : Nat)

namespace CloneCall

def flags : CloneCall → CloneFlags
  | .clone flags _ _ _ => flags
  | .clone3 flags _ _ => flags

/-- What the call does to the scheduler and its processes. -/
def schedule (s : Scheduler) (current : Nat) : CloneCall → Except Failure (Int × Scheduler)
  | .clone flags stack parent_tid child_tid => s.clone current flags stack parent_tid child_tid
  | .clone3 flags _ child_tid => s.clone3 current flags child_tid

end CloneCall

namespace Kernel

/-- The descriptors of a process are cloned with it, whether the flags turn out to be accepted or not. -/
def cloneDescriptors (k : Kernel) (p : Nat) (flags : CloneFlags) : Except KernelFailure FileState := do
  if flags.cloneThread then .ok k.files
  else
    match k.files.tables[p]? with
    | none => .error .noTable
    | some fds => do
      let (files, _) ← (k.files.clone fds).mapError .files
      .ok files

/-- `Sys::clone` and `Sys::clone3`. What happens to the descriptors meets nothing that happens to the scheduler, so the two
stand side by side. -/
def cloneCall (k : Kernel) (current : Nat) (call : CloneCall) : Except KernelFailure (Int × Kernel) := do
  let files ← k.cloneDescriptors (k.scheduler.processOf current) call.flags
  let (ret, scheduler) ← (call.schedule k.scheduler current).mapError .scheduler
  .ok (ret, ⟨scheduler, files⟩)

end Kernel

/-! ## Mapping files

A mapping is made first, and then the file is read into it.
-/

/-- `Mmu::prot` -/
def AddressSpace.prot (s : AddressSpace) (address : Nat) : Prot :=
  match s.findAddress address with
  | none => Prot.NONE
  | some region => region.prot

/-- A call of the memory management unit, among calls that fail for other reasons. -/
def ofUnit {α : Type} : Option α → Except FsFailure α
  | some a => .ok a
  | none => .error .verification

namespace FS

/-- `FS::pread` of a descriptor that may be absent. -/
def preadThrough (fs : FS) (host : HostFiles) (descriptor : Option FileDescriptor) (count : Nat) (offset : Int) :
    Except FsFailure (FS × ReadResult) :=
  match descriptor with
  | none => .ok (fs, .error (-EBADF))
  | some descriptor => fs.pread host descriptor.openFileDescription count offset

/-- `FS::filename` -/
def filename (fs : FS) (descriptor : Option FileDescriptor) : Except FsFailure String :=
  match descriptor with
  | none => .ok "Unknown"
  | some descriptor => do
    let ofd ← fs.description descriptor.openFileDescription
    let path ← fs.path ofd.file
    .ok (String.ofList path.absolute)

end FS

/-- The flags of a call of `mmap` that `Host::Mmap` knows and that `Sys::mmap` or the unit looks at. -/
structure SysMapFlags where
  isAnonymous : Bool
  isFixed : Bool
  isFixedNoReplace : Bool
deriving DecidableEq, Repr

/-- The flags that the unit is given. -/
def SysMapFlags.mapFlags (flags : SysMapFlags) : MapFlags := ⟨flags.isFixed || flags.isFixedNoReplace, flags.isFixedNoReplace⟩

/-- The address space of a process, and the files. -/
structure MappingState where
  mmu : AddressSpace
  fs : FS

namespace MappingState

/-- What is read goes into the mapping, which is made writable for that, and which gets the name of the file. -/
def fillMapping (s : MappingState) (host : Host) (descriptor : Option FileDescriptor) (base length : UInt64)
    (buffer : List UInt8) : Except FsFailure MappingState := do
  let saved := s.mmu.prot base.toNat
  let savedAndWriteable := { saved with write := true, exec := false }
  let (ret, mmu) ← ofUnit (s.mmu.mprotect host base length savedAndWriteable)
  require (0 ≤ ret)
  let mmu ← ofUnit (mmu.copyToMmu base (fun i => buffer.getD i 0) buffer.length)
  let (ret, mmu) ← ofUnit (mmu.mprotect host base length saved)
  require (0 ≤ ret)
  let filename ← s.fs.filename descriptor
  let mmu ← ofUnit (mmu.setRegionName base filename)
  .ok { s with mmu := mmu }

/-- `Sys::mmap`; what the call returns is a base or an error number. -/
def sysMmap (s : MappingState) (host : Host) (hostFiles : HostFiles) (fds : FileDescriptors) (addr length : UInt64) (prot : Prot)
    (flags : SysMapFlags) (fd offset : Int) : Except FsFailure (MappingState × ErrnoOr Nat) := do
  match ← ofUnit (s.mmu.mmap host addr length prot flags.mapFlags) with
  | (none, mmu) => .ok ({ s with mmu := mmu }, .error (-ENOMEM))
  | (some base, mmu) =>
    let s := { s with mmu := mmu }
    if flags.isAnonymous then .ok (s, .ok base)
    else do
      require (0 ≤ fd)
      let descriptor := fds.findFileDescriptor fd
      match ← s.fs.preadThrough hostFiles descriptor length.toNat offset with
      | (_, .blocked) => .error .verification
      | (fs, .error errno) => do
        let _ ← fs.filename descriptor
        .ok ({ s with fs := fs }, .error errno)
      | (fs, .bytes buffer) => do
        let s ← { s with fs := fs }.fillMapping host descriptor base.toUInt64 length buffer
        .ok (s, .ok base)

end MappingState

end X64Emulator
