import X64Emulator.Base
import X64Emulator.Lib.Heap
import X64Emulator.Lib.Outcome
import X64Emulator.Paths

/-!
# The file system

The objects of `FS`: files of every class, open file descriptions and pipes. A pointer to one of them is the number of its
allocation, and using a pointer to an object that was destroyed is a failure. The directory tree is made of the entries of the
directories, in their order. What the host answers is an input, and so is the depth of the stack, which the resolution of
symbolic links uses up.
-/

namespace X64Emulator

open Outcome

/-- Why an operation on files has no result. -/
inductive FsFailure where
  /-- a `verify` does not hold -/
  | verification
  /-- an object that was destroyed is used -/
  | dangling
  | nullPointer
  /-- `unref`: the count is 0 -/
  | underflow
  | outOfBounds
  /-- the arithmetic of a signed type overflows -/
  | overflow
  /-- a vector cannot grow that far -/
  | allocation
  | stackOverflow
  /-- an object is cast to a class that it is not of -/
  | miscast
deriving DecidableEq, Repr

abbrev FileId := Nat
abbrev DescriptionId := Nat
abbrev PipeId := Nat

/-- The largest `off_t`, and the largest size of a vector of bytes. -/
def OFF_MAX : Nat := 2 ^ 63 - 1

/-- A condition that `verify` asks for. -/
def require (c : Prop) [Decidable c] : Except FsFailure Unit := check c .verification

/-- `Path::last` -/
def Path.last (path : Path) : Except FsFailure Str :=
  match path.components.getLast? with
  | some component => .ok component
  | none => .error .verification

structure AccessMode where
  read : Bool
  write : Bool
deriving DecidableEq, Repr

structure CreationFlags where
  cloexec : Bool := false
  creat : Bool := false
  directory : Bool := false
  trunc : Bool := false
deriving DecidableEq, Repr

structure StatusFlags where
  append : Bool := false
  largefile : Bool := false
  nonblock : Bool := false
deriving DecidableEq, Repr

inductive PipeSide where
  | READ
  | WRITE
deriving DecidableEq, Repr

inductive DirectoryClass where
  /-- `handle_` is there or not. -/
  | host (opened : Bool)
  | shadow
  | proc
deriving DecidableEq, Repr

/-- The class of a file, with the members of that class. -/
inductive FileKind where
  | directory (cls : DirectoryClass) (entries : List FileId)
  | hostFile
  | shadowFile (data : List UInt8)
  | hostDevice
  | nullDevice
  | tty
  | symlink (link : Str)
  | pipeEndpoint (pipe : PipeId) (side : PipeSide)
  | event (counter : Nat)
  | epoll
  | socket
deriving DecidableEq, Repr

/-- A `File`, with the members of `FsObject`. -/
structure File where
  refCount : Nat
  deleteAfterClose : Bool
  parent : Option FileId
  name : Str
  kind : FileKind
deriving DecidableEq, Repr

namespace File

/-- A file as its constructor leaves it. -/
def new (name : Str) (kind : FileKind) : File := ⟨0, false, none, name, kind⟩

/-- The name of a file that is given none. -/
def ANONYMOUS : Str :=
  ['_', 'a', 'n', 'o', 'n', 'y', 'm', 'o', 'u', 's', '_', 'f', 'i', 'l', 'e', '_']

def entries (f : File) : List FileId :=
  match f.kind with
  | .directory _ entries => entries
  | _ => []

def withEntries (f : File) (entries : List FileId) : File :=
  match f.kind with
  | .directory cls _ => { f with kind := .directory cls entries }
  | _ => f

def isDirectory (f : File) : Bool :=
  match f.kind with
  | .directory _ _ => true
  | _ => false

/-- The target of a symbolic link. -/
def link? (f : File) : Option Str :=
  match f.kind with
  | .symlink link => some link
  | _ => none

def keepAfterClose (f : File) : Bool :=
  match f.kind with
  | .directory _ _ | .shadowFile _ | .symlink _ => true
  | _ => false

def isWritable (f : File) : Except FsFailure Bool :=
  match f.kind with
  | .shadowFile _ | .tty | .event _ | .socket => .ok true
  | .pipeEndpoint _ side => .ok (decide (side = .WRITE))
  | .symlink _ => .error .verification
  | _ => .ok false

end File

structure OpenFileDescription where
  file : FileId
  offset : Int
  accessMode : AccessMode
  statusFlags : StatusFlags
deriving DecidableEq, Repr

structure FileDescriptor where
  openFileDescription : DescriptionId
  closeOnExec : Bool
deriving DecidableEq, Repr

structure Pipe where
  data : List UInt8
  readEndpoints : List FileId
  writeEndpoints : List FileId
  isClosed : Bool
deriving DecidableEq, Repr

/-- What `ShadowFile::tryCreate` finds on the host at a path. -/
inductive HostContents where
  /-- it cannot be opened -/
  | absent
  /-- it is not a regular file, or it cannot be read -/
  | unreadable
  | regular (data : List UInt8)
deriving DecidableEq, Repr

/-- A value or an error number. -/
abbrev ErrnoOr (α : Type) := Except Int α

/-- The answers of the host to the calls one operation makes. -/
structure HostFiles where
  directory : Path → Bool
  regularFile : Path → Bool
  device : Path → Bool
  contents : Path → HostContents
  readlink : Path → Option Str
  /-- The path of a terminal cannot be opened, or it leads to a device or not. -/
  tty : Path → Option Bool
  socket : Bool
  read : FileId → Nat → ErrnoOr (List UInt8)
  write : FileId → List UInt8 → Int
  lseek : FileId → Int → Int → Int

/-- The file system. The orphan files are those that no directory owns. -/
structure FS where
  files : Heap File
  descriptions : Heap OpenFileDescription
  pipes : Heap Pipe
  root : FileId
  orphanFiles : List FileId

inductive FollowSymlink where
  | NO
  | YES
deriving DecidableEq, Repr

namespace FS

/-- A file system with only its root. -/
def bare : FS where
  files := Heap.empty.alloc (.new [] (.directory (.host false) []))
  descriptions := Heap.empty
  pipes := Heap.empty
  root := 0
  orphanFiles := []

/-- The file a pointer points to. -/
def file (fs : FS) (f : FileId) : Except FsFailure File :=
  match fs.files.get? f with
  | some file => .ok file
  | none => .error .dangling

def description (fs : FS) (d : DescriptionId) : Except FsFailure OpenFileDescription :=
  match fs.descriptions.get? d with
  | some ofd => .ok ofd
  | none => .error .dangling

def pipe (fs : FS) (p : PipeId) : Except FsFailure Pipe :=
  match fs.pipes.get? p with
  | some pipe => .ok pipe
  | none => .error .dangling

def modifyFile (fs : FS) (f : FileId) (g : File → File) : FS := { fs with files := fs.files.modify f g }

def modifyDescription (fs : FS) (d : DescriptionId) (g : OpenFileDescription → OpenFileDescription) : FS :=
  { fs with descriptions := fs.descriptions.modify d g }

def modifyPipe (fs : FS) (p : PipeId) (g : Pipe → Pipe) : FS := { fs with pipes := fs.pipes.modify p g }

/-- The entries of a directory; none where the pointer is to no directory. -/
def entries (fs : FS) (dir : FileId) : List FileId := ((fs.files.get? dir).map File.entries).getD []

/-- The loop over the entries that looks for a name. -/
def findEntry (fs : FS) (name : Str) : List FileId → Except FsFailure (Option FileId)
  | [] => .ok none
  | entry :: rest => do
    let file ← fs.file entry
    if file.name = name then .ok (some entry) else fs.findEntry name rest

/-- `Directory::tryGetEntry` -/
def tryGetEntry (fs : FS) (dir : FileId) (name : Str) : Except FsFailure (Option FileId) := do
  let directory ← fs.file dir
  fs.findEntry name directory.entries

/-- `Directory::tryTakeEntry` -/
def tryTakeEntry (fs : FS) (dir : FileId) (name : Str) : Except FsFailure (FS × Option FileId) := do
  match ← fs.tryGetEntry dir name with
  | none => .ok (fs, none)
  | some entry => .ok (fs.modifyFile dir fun d => d.withEntries (d.entries.erase entry), some entry)

/-- `Directory::tryGetSubDirectory` -/
def tryGetSubDirectory (fs : FS) (dir : FileId) (name : Str) : Except FsFailure (Option FileId) := do
  match ← fs.tryGetEntry dir name with
  | none => .ok none
  | some entry => do
    let file ← fs.file entry
    .ok (if file.isDirectory then some entry else none)

/-- The link that is the entry of a name, if the entry is one. -/
def tryGetLink (fs : FS) (dir : FileId) (name : Str) : Except FsFailure (Option Str) := do
  match ← fs.tryGetEntry dir name with
  | none => .ok none
  | some entry => do
    let file ← fs.file entry
    .ok file.link?

/-- `Directory::addFile` of a file that exists. -/
def attach (fs : FS) (dir f : FileId) : FS :=
  (fs.modifyFile dir fun d => d.withEntries (d.entries ++ [f])).modifyFile f fun file => { file with parent := some dir }

/-- `Directory::addFile` of a file that was just created. -/
def addFile (fs : FS) (dir : FileId) (file : File) : FS × FileId :=
  ({ fs with files := fs.files.alloc file }.attach dir fs.files.next, fs.files.next)

/-- The names of the directories from a pointer to a parent upwards, outermost first, as `File::path` collects them. A list
longer than the number of files means that the loop does not end. -/
def directoryNames (fs : FS) : Nat → Option FileId → Except FsFailure (List Str)
  | _, none => .ok []
  | 0, some _ => .error .stackOverflow
  | n + 1, some dir => do
    let directory ← fs.file dir
    let above ← fs.directoryNames n directory.parent
    .ok (above ++ [directory.name])

/-- `File::path` -/
def path (fs : FS) (f : FileId) : Except FsFailure Path := do
  let file ← fs.file f
  let above ← fs.directoryNames (fs.files.next + 1) file.parent
  let pathname := ((above.filter fun name => name ≠ []) ++ [file.name]).flatMap fun name => '/' :: name
  match Path.tryCreate pathname with
  | some path => .ok path
  | none => .error .verification

/-- `Directory::tryAddHostDirectory` -/
def tryAddHostDirectory (fs : FS) (host : HostFiles) (dir : FileId) (name : Str) :
    Except FsFailure (FS × Option FileId) := do
  match ← fs.tryGetEntry dir name with
  | some _ => .ok (fs, none)
  | none => do
    match (← fs.path dir).tryAppend name with
    | none => .error .verification
    | some path => do
      if host.directory path then
        let name ← path.last
        .ok ((fs.addFile dir (.new name (.directory (.host false) []))).map id some)
      else .ok (fs, none)

/-- `Directory::tryAddShadowDirectory` -/
def tryAddShadowDirectory (fs : FS) (dir : FileId) (name : Str) : Except FsFailure (FS × Option FileId) := do
  match ← fs.tryGetEntry dir name with
  | some _ => .ok (fs, none)
  | none => do
    match (← fs.path dir).tryAppend name with
    | none => .error .verification
    | some path => do
      let name ← path.last
      .ok ((fs.addFile dir (.new name (.directory .shadow []))).map id some)

/-- One component of the walk of `tryGetFile`: the directory it leads to. `resolve` follows a link. -/
def enter (fs : FS) (resolve : Str → Except FsFailure (Option FileId)) (dir : FileId) (component : Str) :
    Except FsFailure (Option FileId) := do
  match ← fs.tryGetSubDirectory dir component with
  | some subdir => .ok (some subdir)
  | none => do
    match ← fs.tryGetLink dir component with
    | none => .ok none
    | some link => do
      match ← resolve link with
      | none => .ok none
      | some target => do
        let file ← fs.file target
        .ok (if file.isDirectory then some target else none)

/-- The walk of `tryGetFile` over the components but the last. -/
def walk (fs : FS) (resolve : Str → Except FsFailure (Option FileId)) :
    FileId → List Str → Except FsFailure (Option FileId)
  | dir, [] => .ok (some dir)
  | dir, component :: rest => do
    match ← fs.enter resolve dir component with
    | some subdir => fs.walk resolve subdir rest
    | none => .ok none

/-- The path of the target of a link, which `resolveSymlink` verifies to be absolute. -/
def targetPath (link : Str) : Except FsFailure Path := do
  require (link.head? = some '/')
  match Path.tryCreate link with
  | some path => .ok path
  | none => .error .verification

/-- The directory that the components lead to, and the last component in it. -/
def lookupIn (fs : FS) (resolve : Str → Except FsFailure (Option FileId)) (path : Path) (followSymlink : FollowSymlink) :
    Except FsFailure (Option FileId) :=
  match path.components.getLast? with
  | none => .ok (some fs.root)
  | some last => do
    match ← fs.walk resolve fs.root path.components.dropLast with
    | none => .ok none
    | some dir => do
      match ← fs.tryGetEntry dir last with
      | none => .ok none
      | some entry => do
        let file ← fs.file entry
        match file.link?, followSymlink with
        | some link, .YES => resolve link
        | _, _ => .ok (some entry)

/-- `FS::resolveSymlink`, which looks the target up with `tryGetFile`; each link takes some of the stack. -/
def resolveSymlink (fs : FS) : Nat → Str → Except FsFailure (Option FileId)
  | 0, _ => .error .stackOverflow
  | depth + 1, link =>
    if link = [] then .ok none
    else do
      let path ← targetPath link
      fs.lookupIn (fs.resolveSymlink depth) path .YES

/-- `FS::tryGetFile` -/
def tryGetFile (fs : FS) (depth : Nat) (path : Path) (followSymlink : FollowSymlink) : Except FsFailure (Option FileId) :=
  fs.lookupIn (fs.resolveSymlink depth) path followSymlink

/-- The directory that a walk without links leads to. -/
def walkDirectories (fs : FS) : FileId → List Str → Except FsFailure (Option FileId)
  | dir, [] => .ok (some dir)
  | dir, component :: rest => do
    match ← fs.tryGetSubDirectory dir component with
    | some subdir => fs.walkDirectories subdir rest
    | none => .ok none

/-- `FS::tryTakeFile` -/
def tryTakeFile (fs : FS) (path : Path) : Except FsFailure (FS × Option FileId) := do
  match ← fs.walkDirectories fs.root path.components.dropLast with
  | none => .ok (fs, none)
  | some dir => do
    let last ← path.last
    fs.tryTakeEntry dir last

/-- `FS::ensurePathImpl` from a directory on. -/
def ensureFrom (host : HostFiles) (depth : Nat) : FS → FileId → List Str → Except FsFailure (FS × Option FileId)
  | fs, dir, [] => .ok (fs, some dir)
  | fs, dir, component :: rest => do
    match ← fs.tryGetSubDirectory dir component with
    | some subdir => ensureFrom host depth fs subdir rest
    | none => do
      match ← fs.tryGetLink dir component with
      | some link => do
        match ← fs.resolveSymlink depth link with
        | none => .ok (fs, none)
        | some target => do
          let file ← fs.file target
          if file.isDirectory then ensureFrom host depth fs target rest else .ok (fs, none)
      | none => do
        match ← fs.tryAddHostDirectory host dir component with
        | (fs, some subdir) => ensureFrom host depth fs subdir rest
        | (fs, none) => do
          match ← fs.tryAddShadowDirectory dir component with
          | (fs, some subdir) => ensureFrom host depth fs subdir rest
          | (_, none) => .error .verification

/-- `FS::ensurePathExceptLast` -/
def ensurePathExceptLast (fs : FS) (host : HostFiles) (depth : Nat) (path : Path) :
    Except FsFailure (FS × Option FileId) :=
  ensureFrom host depth fs fs.root path.components.dropLast

/-- `FS::ensureCompletePath` -/
def ensureCompletePath (fs : FS) (host : HostFiles) (depth : Nat) (path : Path) : Except FsFailure (FS × Option FileId) :=
  ensureFrom host depth fs fs.root path.components

/-- `File::ref` through a pointer. -/
def ref (fs : FS) (f : FileId) : Except FsFailure FS := do
  let _ ← fs.file f
  .ok (fs.modifyFile f fun file => { file with refCount := file.refCount + 1 })

/-- `File::unref` through a pointer. -/
def unref (fs : FS) (f : FileId) : Except FsFailure FS := do
  let file ← fs.file f
  check (file.refCount ≠ 0) .underflow
  .ok (fs.modifyFile f fun file => { file with refCount := file.refCount - 1 })

/-- A new open file description of a file. -/
def describe (fs : FS) (f : FileId) (accessMode : AccessMode) (statusFlags : StatusFlags) : FS :=
  { fs with descriptions := fs.descriptions.alloc ⟨f, 0, accessMode, statusFlags⟩ }

/-- `openNode` of `FS::open` -/
def openNode (fs : FS) (f : FileId) (accessMode : AccessMode) (statusFlags : StatusFlags) (closeOnExec : Bool) :
    Except FsFailure (FS × FileDescriptor) := do
  let fs' ← (fs.describe f accessMode statusFlags).ref f
  .ok (fs', ⟨fs.descriptions.next, closeOnExec⟩)

/-- `FS::insertNode` -/
def insertNode (fs : FS) (file : File) (accessMode : AccessMode) (statusFlags : StatusFlags) (closeOnExec : Bool) :
    Except FsFailure (FS × FileDescriptor) :=
  let f := fs.files.next
  { fs with files := fs.files.alloc file, orphanFiles := fs.orphanFiles ++ [f] }.openNode f accessMode statusFlags closeOnExec

/-- `File::open`: a directory of the host gets its handle. -/
def openFile (fs : FS) (host : HostFiles) (f : FileId) : Except FsFailure FS := do
  let file ← fs.file f
  match file.kind with
  | .directory (.host false) entries => do
    let path ← fs.path f
    require (host.directory path = true)
    .ok (fs.modifyFile f fun file => { file with kind := .directory (.host true) entries })
  | _ => .ok fs

/-- A new file is added below the directories of its path, which are created where they are missing, and it is opened. -/
def create (fs : FS) (host : HostFiles) (depth : Nat) (path : Path) (kind : FileKind) (accessMode : AccessMode)
    (statusFlags : StatusFlags) (closeOnExec : Bool) : Except FsFailure (FS × FileDescriptor) := do
  let name ← path.last
  match ← fs.ensurePathExceptLast host depth path with
  | (_, none) => .error .nullPointer
  | (fs, some parent) => do
    let added := fs.addFile parent (.new name kind)
    let fs ← added.1.openFile host added.2
    fs.openNode added.2 accessMode statusFlags closeOnExec

/-- The paths of the devices that `ShadowDevice::tryCreate` knows. -/
def DEV_NULL : Path := ⟨[['d', 'e', 'v'], ['n', 'u', 'l', 'l']], by decide⟩
def DEV_TTY : Path := ⟨[['d', 'e', 'v'], ['t', 't', 'y']], by decide⟩

/-- `Tty::tryCreate` -/
def terminal (host : HostFiles) (path : Path) : Except FsFailure (Option FileKind) :=
  match host.tty path with
  | none => .error .verification
  | some device => .ok (if device then some .tty else none)

/-- `ShadowDevice::tryCreate` -/
def shadowDevice (host : HostFiles) (path : Path) : Except FsFailure (Option FileKind) :=
  if path = DEV_NULL then .ok (some .nullDevice)
  else if path = DEV_TTY then terminal host path
  else .ok none

/-- The host file of a path that is not opened for writing may serve as it is. -/
def canUseHostFile (accessMode : AccessMode) (creationFlags : CreationFlags) (statusFlags : StatusFlags) : Bool :=
  !(accessMode.write || creationFlags.creat || creationFlags.trunc || statusFlags.append)

/-- What `FS::open` creates for a path where it finds no file. -/
def newFile (host : HostFiles) (path : Path) (accessMode : AccessMode) (creationFlags : CreationFlags)
    (statusFlags : StatusFlags) : Except FsFailure (Option FileKind) :=
  if canUseHostFile accessMode creationFlags statusFlags then
    if host.directory path then .ok (some (.directory (.host false) []))
    else if creationFlags.directory then .ok none
    else if host.regularFile path then .ok (some .hostFile)
    else if host.device path then .ok (some .hostDevice)
    else .ok none
  else
    match host.contents path with
    | .absent => if creationFlags.creat then .ok (some (.shadowFile [])) else shadowDevice host path
    | .unreadable => shadowDevice host path
    | .regular data => .ok (some (.shadowFile (if creationFlags.trunc then [] else data)))

/-- `FS::open` -/
def openPath (fs : FS) (host : HostFiles) (depth : Nat) (path : Path) (accessMode : AccessMode)
    (creationFlags : CreationFlags) (statusFlags : StatusFlags) : Except FsFailure (FS × ErrnoOr FileDescriptor) := do
  let statusFlags := { statusFlags with largefile := true }
  match ← fs.tryGetFile depth path .YES with
  | some f => do
    let (fs, descriptor) ← fs.openNode f accessMode statusFlags creationFlags.cloexec
    let fs ← fs.openFile host f
    .ok (fs, .ok descriptor)
  | none => do
    match ← newFile host path accessMode creationFlags statusFlags with
    | some kind => do
      let (fs, descriptor) ← fs.create host depth path kind accessMode statusFlags creationFlags.cloexec
      .ok (fs, .ok descriptor)
    | none => .ok (fs, .error (-ENOENT))

/-- `FS::FS`, with the path of the terminal. -/
def new (host : HostFiles) (depth : Nat) (ttypath : Path) : Except FsFailure FS := do
  match ← terminal host ttypath with
  | none => .error .verification
  | some device => do
    let name ← ttypath.last
    match ← bare.ensurePathExceptLast host depth ttypath with
    | (_, none) => .error .nullPointer
    | (fs, some dir) => .ok (fs.addFile dir (.new name device)).1

/-- `FS::mkdir` -/
def mkdir (fs : FS) (host : HostFiles) (depth : Nat) (path : Path) : Except FsFailure (FS × Int) := do
  let (fs, _) ← fs.ensureCompletePath host depth path
  .ok (fs, 0)

/-- `File::rename` -/
def renameFile (fs : FS) (f parent : FileId) (name : Str) : FS :=
  fs.modifyFile f fun file => { file with parent := some parent, name := name }

/-- `FS::rename` -/
def rename (fs : FS) (host : HostFiles) (depth : Nat) (oldpath newpath : Path) : Except FsFailure (FS × Int) := do
  match ← fs.tryTakeFile oldpath with
  | (fs, none) => .ok (fs, -ENOENT)
  | (fs, some f) => do
    match ← fs.ensurePathExceptLast host depth newpath with
    | (_, none) => .error .verification
    | (fs, some newdir) => do
      let name ← newpath.last
      .ok ((fs.renameFile f newdir name).attach newdir f, 0)

/-- The file and those below it, which its destructor destroys. -/
def subtree (fs : FS) : Nat → FileId → List FileId
  | 0, f => [f]
  | n + 1, f => f :: (fs.entries f).flatMap (fs.subtree n)

/-- The files that go when a file is destroyed. -/
def doomed (fs : FS) (f : FileId) : List FileId := fs.subtree fs.files.next f

def destroy (fs : FS) (f : FileId) : FS := { fs with files := fs.files.freeAll (fs.doomed f) }

/-- `FS::unlink` -/
def unlink (fs : FS) (depth : Nat) (path : Path) : Except FsFailure (FS × Int) := do
  match ← fs.tryGetFile depth path .YES with
  | none => .ok (fs, -ENOENT)
  | some f => do
    let file ← fs.file f
    if file.refCount > 0 then
      .ok (fs.modifyFile f fun file => { file with deleteAfterClose := true }, 0)
    else do
      match ← fs.tryTakeFile path with
      | (fs, some taken) => .ok (fs.destroy taken, 0)
      | (fs, none) => .ok (fs, 0)

/-- `Symlink::readlink` -/
def linkText (link : Str) (bufferSize : Nat) : ErrnoOr Str :=
  if bufferSize = 0 then .error (-EINVAL) else .ok (link.take bufferSize)

/-- `FS::readlink` -/
def readlink (fs : FS) (host : HostFiles) (depth : Nat) (path : Path) (bufferSize : Nat) :
    Except FsFailure (FS × ErrnoOr Str) := do
  match ← fs.tryGetFile depth path .NO with
  | some f => do
    let file ← fs.file f
    match file.link? with
    | none => .ok (fs, .error (-EINVAL))
    | some link => .ok (fs, linkText link bufferSize)
  | none => do
    match host.readlink path with
    | none => .ok (fs, .error (-EINVAL))
    | some link => do
      let name ← path.last
      match ← fs.ensurePathExceptLast host depth path with
      | (_, none) => .error .nullPointer
      | (fs, some parent) => .ok ((fs.addFile parent (.new name (.symlink link))).1, linkText link bufferSize)

def PROC : Str := ['p', 'r', 'o', 'c']
def SELF : Str := ['s', 'e', 'l', 'f']
def EXE : Str := ['e', 'x', 'e']

/-- The paths that `resetProcFS` makes. -/
def procSelf : Path := ⟨[PROC, SELF], by decide⟩

def procPid (pid : Nat) : Path :=
  ⟨[PROC, pidName pid], List.forall_mem_cons.2 ⟨by decide, List.forall_mem_singleton.2 (component_pidName pid)⟩⟩

def procExe (pid : Nat) : Path :=
  ⟨[PROC, pidName pid, EXE], List.forall_mem_cons.2 ⟨by decide, List.forall_mem_cons.2
    ⟨component_pidName pid, List.forall_mem_singleton.2 (by decide)⟩⟩⟩

/-- A link that `resetProcFS` adds below the directories of its path. -/
def addLink (fs : FS) (host : HostFiles) (depth : Nat) (path : Path) (link : Str) : Except FsFailure FS := do
  let name ← path.last
  match ← fs.ensurePathExceptLast host depth path with
  | (_, none) => .error .nullPointer
  | (fs, some parent) => .ok (fs.addFile parent (.new name (.symlink link))).1

/-- `FS::resetProcFS` -/
def resetProcFS (fs : FS) (host : HostFiles) (depth : Nat) (pid : Nat) (programFilePath : Path) : Except FsFailure FS := do
  let added := fs.addFile fs.root (.new PROC (.directory .proc []))
  match ← added.1.tryAddShadowDirectory added.2 (pidName pid) with
  | (_, none) => .error .verification
  | (fs, some _) => do
    let fs ← fs.addLink host depth procSelf (procPid pid).absolute
    fs.addLink host depth (procExe pid) programFilePath.absolute

/-- `FS::memfd_create` -/
def memfd_create (fs : FS) (name : Str) (otherFlags closeOnExec : Bool) : Except FsFailure (FS × FileDescriptor) := do
  require (otherFlags = false)
  fs.insertNode { File.new name (.shadowFile []) with deleteAfterClose := true } ⟨true, true⟩ {} closeOnExec

/-- `FS::eventfd2` -/
def eventfd2 (fs : FS) (initval : Nat) (semaphore nonBlock closeOnExec : Bool) : Except FsFailure (FS × FileDescriptor) := do
  require (semaphore = false)
  fs.insertNode (.new File.ANONYMOUS (.event initval)) ⟨true, true⟩ { nonblock := nonBlock } closeOnExec

/-- `FS::epoll_create1` -/
def epoll_create1 (fs : FS) (closeOnExec : Bool) : Except FsFailure (FS × FileDescriptor) :=
  fs.insertNode (.new File.ANONYMOUS .epoll) ⟨true, true⟩ {} closeOnExec

/-- `AF_LOCAL` and `AF_NETLINK` -/
def AF_LOCAL : Int := 1
def AF_NETLINK : Int := 16

/-- `FS::socket` -/
def socket (fs : FS) (host : HostFiles) (domain : Int) (raw nonBlock closeOnExec : Bool) :
    Except FsFailure (FS × ErrnoOr FileDescriptor) :=
  if host.socket ∧ (domain = AF_LOCAL ∨ (domain = AF_NETLINK ∧ raw = false)) then do
    let (fs, descriptor) ← fs.insertNode (.new File.ANONYMOUS .socket) ⟨true, true⟩ { nonblock := nonBlock } closeOnExec
    .ok (fs, .ok descriptor)
  else .ok (fs, .error (-EINVAL))

/-- `FS::pipe2` -/
def pipe2 (fs : FS) (statusFlags : StatusFlags) (closeOnExec : Bool) :
    Except FsFailure (FS × FileDescriptor × FileDescriptor) := do
  let p := fs.pipes.next
  let readEnd := fs.files.next
  let fs := { fs with pipes := fs.pipes.alloc ⟨[], [readEnd], [readEnd + 1], false⟩ }
  let (fs, reader) ← fs.insertNode (.new File.ANONYMOUS (.pipeEndpoint p .READ)) ⟨true, false⟩ statusFlags closeOnExec
  let (fs, writer) ← fs.insertNode (.new File.ANONYMOUS (.pipeEndpoint p .WRITE)) ⟨false, true⟩ statusFlags closeOnExec
  .ok (fs, reader, writer)

/-- `Pipe::closedEndpoint` -/
def closedEndpoint (endpoint : FileId) (pipe : Pipe) : Pipe :=
  let readEndpoints := pipe.readEndpoints.filter (· ≠ endpoint)
  let writeEndpoints := pipe.writeEndpoints.filter (· ≠ endpoint)
  { pipe with
    readEndpoints := readEndpoints
    writeEndpoints := writeEndpoints
    isClosed := pipe.isClosed || (readEndpoints.isEmpty && writeEndpoints.isEmpty) }

/-- `FS::removeClosedPipes` -/
def removeClosedPipes (fs : FS) : FS :=
  { fs with pipes := fs.pipes.freeAll ((List.range fs.pipes.next).filter fun p =>
      ((fs.pipes.get? p).map Pipe.isClosed).getD false) }

/-- `File::close`, and for an endpoint of a pipe the removal of the pipes it closes. -/
def closeFile (fs : FS) (f : FileId) : Except FsFailure FS := do
  let file ← fs.file f
  match file.kind with
  | .directory (.host opened) entries => do
    require (opened = true)
    .ok (fs.modifyFile f fun file => { file with kind := .directory (.host false) entries })
  | .pipeEndpoint p _ => do
    let _ ← fs.pipe p
    .ok (fs.modifyPipe p (closedEndpoint f)).removeClosedPipes
  | .symlink _ => .error .verification
  | _ => .ok fs

/-- `FS::removeFromOrphans` -/
def removeFromOrphans (fs : FS) (f : FileId) : FS :=
  if f ∈ fs.orphanFiles then
    { fs with orphanFiles := fs.orphanFiles.filter (· ≠ f), files := fs.files.freeAll [f] }
  else fs

/-- What `FS::close` does once no descriptor refers to the file any more. -/
def lastClose (fs : FS) (depth : Nat) (f : FileId) : Except FsFailure FS := do
  let fs ← fs.closeFile f
  let file ← fs.file f
  if !file.keepAfterClose || file.deleteAfterClose then do
    let path ← fs.path f
    let (fs, _) ← fs.unlink depth path
    .ok (fs.removeFromOrphans f)
  else .ok fs

/-- `FS::close` -/
def close (fs : FS) (depth : Nat) (descriptor : FileDescriptor) : Except FsFailure FS := do
  let ofd ← fs.description descriptor.openFileDescription
  let fs ← fs.unref ofd.file
  let file ← fs.file ofd.file
  if file.refCount = 0 then fs.lastClose depth ofd.file else .ok fs

end FS

end X64Emulator
