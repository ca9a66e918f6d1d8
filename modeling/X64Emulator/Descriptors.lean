import X64Emulator.Files
import X64Emulator.Lib.Machine

/-!
# Reading and writing, and the descriptor tables

What open file descriptions do with the files they refer to, the descriptor tables of the processes, and the calls that use
them. A process refers to its table by number. A read that would block leaves a blocker behind, which the scheduler tries again
until the read gives something.
-/

namespace X64Emulator

open Outcome

inductive ReadResult where
  | blocked
  | error (errno : Int)
  | bytes (data : List UInt8)
deriving DecidableEq, Repr

inductive Whence where
  | SEEK_SET
  | SEEK_CUR
  | SEEK_END
  | other
deriving DecidableEq, Repr

/-- The bytes of a `u64`. -/
def bytesOf (n : Nat) : List UInt8 := (List.range 8).map fun i => UInt8.ofNat (n / 256 ^ i)

/-- The `u64` that bytes are. -/
def valueOf (bytes : List UInt8) : Nat := bytes.foldr (fun byte n => byte.toNat + 256 * n) 0

namespace FS

/-- `ShadowFile::truncate` of the data. -/
def resize (data : List UInt8) (length : Nat) : List UInt8 := data.take length ++ List.replicate (length - data.length) 0

/-- The data after `ShadowFile::write` at an offset. -/
def overwrite (data : List UInt8) (offset : Nat) (buf : List UInt8) : List UInt8 :=
  let grown := if offset + buf.length > data.length then resize data (offset + buf.length) else data
  grown.take offset ++ buf ++ grown.drop (offset + buf.length)

/-- `Pipe::read` -/
def readPipe (fs : FS) (p : PipeId) (nonBlocking : Bool) (size : Nat) : Except FsFailure (FS × ReadResult) := do
  let pipe ← fs.pipe p
  if pipe.data = [] then
    if pipe.writeEndpoints = [] then .ok (fs, .bytes [])
    else if nonBlocking then .ok (fs, .error (-EAGAIN))
    else .ok (fs, .blocked)
  else .ok (fs.modifyPipe p fun pipe => { pipe with data := pipe.data.drop size }, .bytes (pipe.data.take size))

/-- What the host gives. -/
def hostRead : ErrnoOr (List UInt8) → ReadResult
  | .error errno => .error errno
  | .ok data => .bytes data

/-- `File::read` with the open file description it is given. -/
def readFile (fs : FS) (host : HostFiles) (ofd : OpenFileDescription) (count : Nat) : Except FsFailure (FS × ReadResult) := do
  let file ← fs.file ofd.file
  match file.kind with
  | .directory _ _ => .ok (fs, .error (-EISDIR))
  | .shadowFile data =>
    if ofd.offset < 0 then .ok (fs, .error (-EINVAL)) else .ok (fs, .bytes ((data.drop ofd.offset.toNat).take count))
  | .pipeEndpoint p _ => fs.readPipe p ofd.statusFlags.nonblock count
  | .event counter =>
    if count < 8 then .ok (fs, .error (-EINVAL))
    else if counter = 0 then if ofd.statusFlags.nonblock then .ok (fs, .error (-EAGAIN)) else .error .verification
    else .ok (fs.modifyFile ofd.file fun file => { file with kind := .event 0 }, .bytes (bytesOf counter))
  | .nullDevice => .ok (fs, .bytes [])
  | .hostFile => if ofd.offset < 0 then .ok (fs, .error (-EINVAL)) else .ok (fs, hostRead (host.read ofd.file count))
  | .hostDevice | .tty | .socket => .ok (fs, hostRead (host.read ofd.file count))
  | .epoll | .symlink _ => .error .verification

/-- `File::advanceInternalOffset` -/
def advanceInternalOffset (fs : FS) (host : HostFiles) (f : FileId) (offset : Int) : Except FsFailure Unit := do
  let file ← fs.file f
  match file.kind with
  | .hostFile | .hostDevice => require (0 ≤ host.lseek f offset 1)
  | .shadowFile _ | .pipeEndpoint _ _ | .event _ | .tty | .socket => .ok ()
  | .directory _ _ | .nullDevice | .epoll | .symlink _ => .error .verification

/-- `FS::read`, which reads from a file that is not readable like from any other. -/
def read (fs : FS) (host : HostFiles) (d : DescriptionId) (count : Nat) : Except FsFailure (FS × ReadResult) := do
  let ofd ← fs.description d
  match ← fs.readFile host ofd count with
  | (fs, .bytes data) => do
    fs.advanceInternalOffset host ofd.file data.length
    .ok (fs.modifyDescription d fun ofd => { ofd with offset := ofd.offset + data.length }, .bytes data)
  | (fs, result) => .ok (fs, result)

/-- `FS::pread`; a read that blocks has no value. -/
def pread (fs : FS) (host : HostFiles) (d : DescriptionId) (count : Nat) (offset : Int) :
    Except FsFailure (FS × ReadResult) := do
  let ofd ← fs.description d
  match ← fs.readFile host { ofd with offset := offset } count with
  | (_, .blocked) => .error .verification
  | (fs, result) => .ok (fs, result)

/-- `File::lseek` -/
def seekFile (fs : FS) (host : HostFiles) (ofd : OpenFileDescription) (offset : Int) (whence : Whence) :
    Except FsFailure Int := do
  let file ← fs.file ofd.file
  match file.kind with
  | .shadowFile data =>
    match whence with
    | .SEEK_SET => seek 0
    | .SEEK_CUR => seek ofd.offset
    | .SEEK_END => seek data.length
    | .other => .ok (-EINVAL)
  | .hostFile | .directory (.host true) _ =>
    match whence with
    | .SEEK_SET => .ok (host.lseek ofd.file offset 0)
    | .SEEK_CUR => .ok (host.lseek ofd.file (ofd.offset + offset) 0)
    | .SEEK_END => .ok (host.lseek ofd.file offset 2)
    | .other => .error .verification
  | .tty | .pipeEndpoint _ _ | .event _ | .epoll | .socket => .ok (-ESPIPE)
  | .directory _ _ | .hostDevice | .nullDevice | .symlink _ => .error .verification
where
  /-- The offset from a base. -/
  seek (base : Int) : Except FsFailure Int := do
    check (base + offset ≤ OFF_MAX) .overflow
    if base + offset < 0 then .ok (-EINVAL) else .ok (base + offset)

/-- `FS::lseek` -/
def lseek (fs : FS) (host : HostFiles) (d : DescriptionId) (offset : Int) (whence : Whence) : Except FsFailure (FS × Int) := do
  let ofd ← fs.description d
  let newoffset ← fs.seekFile host ofd offset whence
  if newoffset < 0 then .ok (fs, newoffset)
  else .ok (fs.modifyDescription d fun ofd => { ofd with offset := newoffset }, newoffset)

/-- `ShadowFile::write`: the offset it writes at, and the number of bytes it gives or an error number. -/
def writeShadow (fs : FS) (ofd : OpenFileDescription) (data buf : List UInt8) : Except FsFailure (FS × Int × Int) :=
  let offset : Int := if ofd.statusFlags.append then (data.length : Int) else ofd.offset
  if offset < 0 then .ok (fs, offset, -EINVAL)
  else do
    check (offset.toNat + buf.length ≤ OFF_MAX) .allocation
    .ok (fs.modifyFile ofd.file fun file => { file with kind := .shadowFile (overwrite data offset.toNat buf) }, offset, buf.length)

/-- `File::write`: the offset of the open file description after it, and the number of bytes or an error number. -/
def writeFile (fs : FS) (host : HostFiles) (ofd : OpenFileDescription) (buf : List UInt8) :
    Except FsFailure (FS × Int × Int) := do
  let file ← fs.file ofd.file
  match file.kind with
  | .shadowFile data => fs.writeShadow ofd data buf
  | .pipeEndpoint p _ => do
    let _ ← fs.pipe p
    .ok (fs.modifyPipe p fun pipe => { pipe with data := pipe.data ++ buf }, ofd.offset, buf.length)
  | .event counter =>
    if buf.length < 8 then .ok (fs, ofd.offset, -EINVAL)
    else if valueOf (buf.take 8) = 2 ^ 64 - 1 then .ok (fs, ofd.offset, -EINVAL)
    else do
      require (valueOf (buf.take 8) < u64 (2 ^ 65 - 2 - counter))
      .ok (fs.modifyFile ofd.file fun file => { file with kind := .event (counter + valueOf (buf.take 8)) }, ofd.offset, 8)
  | .nullDevice => .ok (fs, ofd.offset, buf.length)
  | .hostFile => .ok (fs, ofd.offset, -EINVAL)
  | .tty | .socket => .ok (fs, ofd.offset, host.write ofd.file buf)
  | .directory _ _ | .hostDevice | .epoll | .symlink _ => .error .verification

/-- `FS::write` -/
def write (fs : FS) (host : HostFiles) (d : DescriptionId) (buf : List UInt8) : Except FsFailure (FS × Int) := do
  let ofd ← fs.description d
  let file ← fs.file ofd.file
  let writable ← file.isWritable
  if writable then do
    let (fs, offset, nbytes) ← fs.writeFile host ofd buf
    if nbytes < 0 then .ok (fs.modifyDescription d fun ofd => { ofd with offset := offset }, nbytes)
    else do
      fs.advanceInternalOffset host ofd.file nbytes
      .ok (fs.modifyDescription d fun ofd => { ofd with offset := offset + nbytes }, nbytes)
  else .ok (fs, -EBADF)

/-- `FS::pwrite` -/
def pwrite (fs : FS) (host : HostFiles) (d : DescriptionId) (buf : List UInt8) (offset : Int) : Except FsFailure (FS × Int) := do
  let ofd ← fs.description d
  let file ← fs.file ofd.file
  let writable ← file.isWritable
  if writable then do
    let (fs, _, nbytes) ← fs.writeFile host { ofd with offset := offset } buf
    .ok (fs, nbytes)
  else .ok (fs, -EBADF)

/-- `FS::ftruncate`; the length is cast to a `size_t`. -/
def ftruncate (fs : FS) (d : DescriptionId) (length : Int) : Except FsFailure (FS × Int) := do
  let ofd ← fs.description d
  let file ← fs.file ofd.file
  match file.kind with
  | .shadowFile data => do
    check (0 ≤ length ∧ length ≤ OFF_MAX) .allocation
    .ok (fs.modifyFile ofd.file fun file => { file with kind := .shadowFile (resize data length.toNat) }, 0)
  | _ => .error .verification

/-- `OpenFileDescription::ioctl` of `FIONBIO` -/
def setNonBlocking (fs : FS) (d : DescriptionId) (nonBlocking : Bool) : Except FsFailure FS := do
  let _ ← fs.description d
  .ok (fs.modifyDescription d fun ofd => { ofd with statusFlags := { ofd.statusFlags with nonblock := nonBlocking } })

end FS

/-- `FileDescriptors::fileDescriptors_` -/
abbrev FileDescriptors := List (Option FileDescriptor)

namespace FileDescriptors

/-- `FileDescriptors::findFileDescriptor` -/
def findFileDescriptor (fds : FileDescriptors) (fd : Int) : Option FileDescriptor :=
  if fd < 0 then none else fds[fd.toNat]?.join

/-- `FileDescriptors::allocateFd`: the first free slot, or a new one after the last. -/
def allocateFd (fds : FileDescriptors) : Nat := fds.findIdx (·.isNone)

/-- The table with a descriptor in a slot, grown to hold that slot. -/
def put (fds : FileDescriptors) (fd : Nat) (descriptor : FileDescriptor) : FileDescriptors :=
  (fds ++ List.replicate (fd + 1 - fds.length) none).set fd (some descriptor)

/-- A descriptor in the slot that `allocateFd` gives. -/
def insert (fds : FileDescriptors) (descriptor : FileDescriptor) : FileDescriptors := fds.put fds.allocateFd descriptor

def clear (fds : FileDescriptors) (fd : Nat) : FileDescriptors := fds.set fd none

end FileDescriptors

/-- A read that blocks: the table of the process of the thread, and the arguments. -/
structure BlockedRead where
  table : Nat
  fd : Int
  count : Nat
deriving DecidableEq, Repr

/-- The file system, the descriptor tables of all processes, and the blockers of reads in their order. -/
structure FileState where
  fs : FS
  tables : List FileDescriptors
  readBlockers : List BlockedRead

/-- The calls of a process that has a descriptor table. -/
inductive FileCall where
  | open (path : Path) (accessMode : AccessMode) (creationFlags : CreationFlags) (statusFlags : StatusFlags)
  | close (fd : Int)
  | closeAll
  | dup (fd : Int)
  | dup2 (oldfd newfd : Int)
  | dup3 (oldfd newfd : Int) (closeOnExec : Bool)
  /-- `FileDescriptors::clone` -/
  | clone
  | memfd_create (name : Str) (otherFlags closeOnExec : Bool)
  | eventfd2 (initval : Nat) (semaphore nonBlock closeOnExec : Bool)
  | epoll_create1 (closeOnExec : Bool)
  | socket (domain : Int) (raw nonBlock closeOnExec : Bool)
  | pipe2 (statusFlags : StatusFlags) (closeOnExec : Bool)
  | mkdir (path : Path)
  | rename (oldpath newpath : Path)
  | unlink (path : Path)
  | readlink (path : Path) (bufferSize : Nat)
  | resetProcFS (pid : Nat) (programFilePath : Path)
  | read (fd : Int) (count : Nat)
  | pread (fd : Int) (count : Nat) (offset : Int)
  | write (fd : Int) (buf : List UInt8)
  | pwrite (fd : Int) (buf : List UInt8) (offset : Int)
  | lseek (fd : Int) (offset : Int) (whence : Whence)
  | ftruncate (fd : Int) (length : Int)
  | setNonBlocking (fd : Int) (nonBlocking : Bool)

inductive FileAction where
  | call (table : Nat) (call : FileCall)
  /-- `ReadBlocker::tryUnblock` of the blocker with that index -/
  | tryUnblock (index : Nat)
  /-- The thread of the blocker with that index ends. -/
  | forget (index : Nat)

/-- What a call gives. -/
inductive FileAnswer where
  | value (n : Int)
  | read (result : ReadResult)
  | link (result : ErrnoOr Str)
  | pair (reader writer : Nat)

namespace FileState

def setTable (s : FileState) (table : Nat) (fds : FileDescriptors) : FileState := { s with tables := s.tables.set table fds }

/-- The state with a descriptor in a free slot of a table. -/
def place (s : FileState) (table : Nat) (fds : FileDescriptors) (fs : FS) (descriptor : FileDescriptor) :
    FileState × FileAnswer :=
  ({ s with fs := fs }.setTable table (fds.insert descriptor), .value fds.allocateFd)

/-- `FileDescriptors::close` -/
def close (s : FileState) (depth table : Nat) (fds : FileDescriptors) (fd : Int) : Except FsFailure (FileState × FileAnswer) := do
  match fds.findFileDescriptor fd with
  | none => .ok (s, .value (-EBADF))
  | some descriptor => do
    let fs ← s.fs.close depth descriptor
    .ok ({ s with fs := fs }.setTable table (fds.clear fd.toNat), .value 0)

/-- One turn of the loop of `FileDescriptors::closeAll`. -/
def closeSlot (depth table : Nat) (s : FileState) (fd : Nat) : Except FsFailure FileState := do
  match s.tables[table]? with
  | none => .ok s
  | some fds => do
    let closed ← s.close depth table fds fd
    .ok closed.1

/-- `FileDescriptors::dup` -/
def dup (s : FileState) (table : Nat) (fds : FileDescriptors) (fd : Int) : Except FsFailure (FileState × FileAnswer) := do
  match fds.findFileDescriptor fd with
  | none => .ok (s, .value (-EBADF))
  | some descriptor => do
    let ofd ← s.fs.description descriptor.openFileDescription
    let fs ← s.fs.ref ofd.file
    .ok (s.place table fds fs ⟨descriptor.openFileDescription, false⟩)

/-- What `dup2` and `dup3` do once the source is found: the target is closed, then it shares the source's description. -/
def replace (s : FileState) (depth table : Nat) (fds : FileDescriptors) (source : FileDescriptor) (newfd : Int)
    (closeOnExec : Bool) : Except FsFailure (FileState × FileAnswer) := do
  let (s, _) ← s.close depth table fds newfd
  let ofd ← s.fs.description source.openFileDescription
  let fs ← s.fs.ref ofd.file
  check (0 ≤ newfd) .outOfBounds
  check (newfd < 2 ^ 31 - 1) .overflow
  .ok ({ s with fs := fs }.setTable table (fds.put newfd.toNat ⟨source.openFileDescription, closeOnExec⟩), .value newfd)

/-- `FileDescriptors::dup2` -/
def dup2 (s : FileState) (depth table : Nat) (fds : FileDescriptors) (oldfd newfd : Int) :
    Except FsFailure (FileState × FileAnswer) :=
  match fds.findFileDescriptor oldfd with
  | none => .ok (s, .value (-EBADF))
  | some source => if oldfd = newfd then .ok (s, .value newfd) else s.replace depth table fds source newfd false

/-- `FileDescriptors::dup3` -/
def dup3 (s : FileState) (depth table : Nat) (fds : FileDescriptors) (oldfd newfd : Int) (closeOnExec : Bool) :
    Except FsFailure (FileState × FileAnswer) :=
  if oldfd = newfd then .ok (s, .value (-EINVAL))
  else
    match fds.findFileDescriptor oldfd with
    | none => .ok (s, .value (-EBADF))
    | some source => s.replace depth table fds source newfd closeOnExec

/-- One turn of the loop of `FileDescriptors::clone`. -/
def refSlot (fs : FS) (slot : Option FileDescriptor) : Except FsFailure FS :=
  match slot with
  | none => .ok fs
  | some descriptor => do
    let ofd ← fs.description descriptor.openFileDescription
    fs.ref ofd.file

/-- `FileDescriptors::clone`: the table of a new process. -/
def clone (s : FileState) (fds : FileDescriptors) : Except FsFailure (FileState × FileAnswer) := do
  let fs ← fds.foldlM refSlot s.fs
  .ok ({ s with fs := fs, tables := s.tables ++ [fds] }, .value 0)

/-- The state after `open`, or `socket`. -/
def placeOr (s : FileState) (table : Nat) (fds : FileDescriptors) (fs : FS) : ErrnoOr FileDescriptor → FileState × FileAnswer
  | .ok descriptor => s.place table fds fs descriptor
  | .error errno => ({ s with fs := fs }, .value errno)

/-- The state with a file system, and a value. -/
def withFs (s : FileState) (result : FS × Int) : FileState × FileAnswer := ({ s with fs := result.1 }, .value result.2)

/-- `Sys::read`, which leaves a blocker where the read blocks. -/
def read (s : FileState) (host : HostFiles) (table : Nat) (fds : FileDescriptors) (fd : Int) (count : Nat) :
    Except FsFailure (FileState × FileAnswer) := do
  match fds.findFileDescriptor fd with
  | none => .ok (s, .read (.error (-EBADF)))
  | some descriptor => do
    match ← s.fs.read host descriptor.openFileDescription count with
    | (fs, .blocked) => .ok ({ s with fs := fs, readBlockers := s.readBlockers ++ [⟨table, fd, count⟩] }, .read .blocked)
    | (fs, result) => .ok ({ s with fs := fs }, .read result)

/-- `ReadBlocker::tryUnblock` -/
def tryUnblock (s : FileState) (host : HostFiles) (index : Nat) (blocker : BlockedRead) :
    Except FsFailure (FileState × FileAnswer) := do
  match (s.tables[blocker.table]?.getD []).findFileDescriptor blocker.fd with
  | none => .ok ({ s with readBlockers := s.readBlockers.eraseIdx index }, .read (.error (-EBADF)))
  | some descriptor => do
    match ← s.fs.read host descriptor.openFileDescription blocker.count with
    | (fs, .blocked) => .ok ({ s with fs := fs }, .read .blocked)
    | (fs, result) => .ok ({ s with fs := fs, readBlockers := s.readBlockers.eraseIdx index }, .read result)

/-- A call through a descriptor; `absent` is the answer where there is none. -/
def through (s : FileState) (fds : FileDescriptors) (fd : Int) (absent : FileAnswer)
    (f : DescriptionId → Except FsFailure (FileState × FileAnswer)) : Except FsFailure (FileState × FileAnswer) :=
  match fds.findFileDescriptor fd with
  | none => .ok (s, absent)
  | some descriptor => f descriptor.openFileDescription

/-- A call of a process with its table. -/
def perform (s : FileState) (host : HostFiles) (depth table : Nat) (fds : FileDescriptors) :
    FileCall → Except FsFailure (FileState × FileAnswer)
  | .open path accessMode creationFlags statusFlags => do
    let (fs, result) ← s.fs.openPath host depth path accessMode creationFlags statusFlags
    .ok (s.placeOr table fds fs result)
  | .close fd => s.close depth table fds fd
  | .closeAll => do
    let s ← (List.range fds.length).foldlM (closeSlot depth table) s
    .ok (s, .value 0)
  | .dup fd => s.dup table fds fd
  | .dup2 oldfd newfd => s.dup2 depth table fds oldfd newfd
  | .dup3 oldfd newfd closeOnExec => s.dup3 depth table fds oldfd newfd closeOnExec
  | .clone => s.clone fds
  | .memfd_create name otherFlags closeOnExec => do
    let (fs, descriptor) ← s.fs.memfd_create name otherFlags closeOnExec
    .ok (s.place table fds fs descriptor)
  | .eventfd2 initval semaphore nonBlock closeOnExec => do
    let (fs, descriptor) ← s.fs.eventfd2 initval semaphore nonBlock closeOnExec
    .ok (s.place table fds fs descriptor)
  | .epoll_create1 closeOnExec => do
    let (fs, descriptor) ← s.fs.epoll_create1 closeOnExec
    .ok (s.place table fds fs descriptor)
  | .socket domain raw nonBlock closeOnExec => do
    let (fs, result) ← s.fs.socket host domain raw nonBlock closeOnExec
    .ok (s.placeOr table fds fs result)
  | .pipe2 statusFlags closeOnExec => do
    let (fs, reader, writer) ← s.fs.pipe2 statusFlags closeOnExec
    let withReader := fds.insert reader
    .ok ({ s with fs := fs }.setTable table (withReader.insert writer), .pair fds.allocateFd withReader.allocateFd)
  | .mkdir path => do
    let result ← s.fs.mkdir host depth path
    .ok (s.withFs result)
  | .rename oldpath newpath => do
    let result ← s.fs.rename host depth oldpath newpath
    .ok (s.withFs result)
  | .unlink path => do
    let result ← s.fs.unlink depth path
    .ok (s.withFs result)
  | .readlink path bufferSize => do
    let (fs, result) ← s.fs.readlink host depth path bufferSize
    .ok ({ s with fs := fs }, .link result)
  | .resetProcFS pid programFilePath => do
    let fs ← s.fs.resetProcFS host depth pid programFilePath
    .ok ({ s with fs := fs }, .value 0)
  | .read fd count => s.read host table fds fd count
  | .pread fd count offset => s.through fds fd (.read (.error (-EBADF))) fun d => do
    let (fs, result) ← s.fs.pread host d count offset
    .ok ({ s with fs := fs }, .read result)
  | .write fd buf => s.through fds fd (.value (-EBADF)) fun d => do
    let result ← s.fs.write host d buf
    .ok (s.withFs result)
  | .pwrite fd buf offset => s.through fds fd (.value (-EBADF)) fun d => do
    let result ← s.fs.pwrite host d buf offset
    .ok (s.withFs result)
  | .lseek fd offset whence => s.through fds fd (.value (-EBADF)) fun d => do
    let result ← s.fs.lseek host d offset whence
    .ok (s.withFs result)
  | .ftruncate fd length => s.through fds fd (.value (-EBADF)) fun d => do
    let result ← s.fs.ftruncate d length
    .ok (s.withFs result)
  | .setNonBlocking fd nonBlocking => s.through fds fd (.value (-EBADF)) fun d => do
    let fs ← s.fs.setNonBlocking d nonBlocking
    .ok ({ s with fs := fs }, .value 0)

/-- One step: a call of a process, or the scheduler turning to a blocked read. -/
def act (depth : Nat) (s : FileState) (host : HostFiles) : FileAction → Except FsFailure (FileState × FileAnswer)
  | .call table call =>
    match s.tables[table]? with
    | none => .error .outOfBounds
    | some fds => s.perform host depth table fds call
  | .tryUnblock index =>
    match s.readBlockers[index]? with
    | none => .error .outOfBounds
    | some blocker => s.tryUnblock host index blocker
  | .forget index => .ok ({ s with readBlockers := s.readBlockers.eraseIdx index }, .value 0)

/-- The file system as its constructor leaves it, and the table of the first process. -/
def IsNew (depth : Nat) (s : FileState) : Prop :=
  (∃ host ttypath, FS.new host depth ttypath = .ok s.fs) ∧ s.tables = [[]] ∧ s.readBlockers = []

/-- The steps of all processes in any order, each with what the host answers. -/
def machine (depth : Nat) : Machine FileState (HostFiles × FileAction) where
  init := IsNew depth
  step s a := (s.act depth a.1 a.2).toOption.map Prod.fst

end FileState

/-- A host that has a terminal, and no files. -/
def bareHost : HostFiles where
  directory _ := false
  regularFile _ := false
  device _ := false
  contents _ := .absent
  readlink _ := none
  tty path := if path = FS.DEV_TTY then some true else none
  socket := true
  read _ _ := .ok []
  write _ buf := buf.length
  lseek _ offset _ := offset

/-- The state of the first process on that host. -/
def FileState.first : FileState := ⟨(FS.new bareHost 1 FS.DEV_TTY).toOption.getD FS.bare, [[]], []⟩

theorem FileState.first_isNew : FileState.first.IsNew 1 := by
  have hok : ∃ fs, FS.new bareHost 1 FS.DEV_TTY = .ok fs := by
    cases h : FS.new bareHost 1 FS.DEV_TTY with
    | ok fs => exact ⟨fs, rfl⟩
    | error e =>
      have hnew : (FS.new bareHost 1 FS.DEV_TTY).isOk = true := by decide +kernel
      rw [h] at hnew
      cases hnew
  obtain ⟨fs, hfs⟩ := hok
  refine ⟨⟨bareHost, FS.DEV_TTY, ?_⟩, rfl, rfl⟩
  rw [first, hfs]
  rfl

end X64Emulator
