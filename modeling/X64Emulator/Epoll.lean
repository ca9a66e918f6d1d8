import X64Emulator.Readiness

/-!
# Epoll

The interest lists of the epoll instances, beside the files. An entry keeps a pointer to an open file description, which nothing
keeps alive: a description is destroyed when no slot of a table refers to it any more. A list is that of the file that is the epoll
instance; where there is no instance there is no list. An event says that it is an instance, and to use it as one is undefined.
-/

namespace X64Emulator

open Outcome

/-- `BitFlags<EpollEventType>`, which is any `u32` that the guest gives. -/
abbrev EpollEvents := BitVec 32

namespace EpollEvents

def CAN_READ : EpollEvents := 0x1
def CAN_WRITE : EpollEvents := 0x2
def HANGUP : EpollEvents := 0x4

def test (events flag : EpollEvents) : Bool := events &&& flag ≠ 0

/-- The flags that `doEpollWait` does not know. -/
def untestedFlags (events : EpollEvents) : EpollEvents := events &&& ~~~CAN_READ &&& ~~~CAN_WRITE &&& ~~~HANGUP

/-- The flags with another one, where a file is ready for it. -/
def addIf (events : EpollEvents) (ready : Bool) (flag : EpollEvents) : EpollEvents := if ready then events ||| flag else events

end EpollEvents

/-- `Epoll::Entry` -/
structure EpollEntry where
  ofd : Option DescriptionId
  event : EpollEvents
  data : Nat
deriving DecidableEq, Repr

/-- `FS::EpollEvent` -/
structure EpollEvent where
  events : EpollEvents
  data : Nat
deriving DecidableEq, Repr

/-- `Epoll::interestList_` -/
abbrev InterestList := List EpollEntry

namespace InterestList

/-- `Epoll::addEntry` -/
def addEntry (l : InterestList) (ofd : Option DescriptionId) (event : EpollEvents) (data : Nat) :
    Except FsFailure InterestList := do
  require (∀ entry ∈ l, entry.ofd ≠ ofd)
  .ok (l ++ [⟨ofd, event, data⟩])

/-- `Epoll::changeEntry` -/
def changeEntry (l : InterestList) (ofd : Option DescriptionId) (event : EpollEvents) (data : Nat) :
    Except FsFailure InterestList :=
  match l.findIdx? fun entry => entry.ofd = ofd with
  | none => .error .verification
  | some i => .ok (l.set i ⟨ofd, event, data⟩)

/-- `Epoll::deleteEntry` -/
def deleteEntry (l : InterestList) (ofd : Option DescriptionId) : InterestList × Int :=
  if ∀ entry ∈ l, entry.ofd ≠ ofd then (l, -ENOENT) else (l.filter fun entry => entry.ofd ≠ ofd, 0)

end InterestList

inductive EpollFailure where
  | files (failure : FsFailure)
  /-- an open file description is used that no slot refers to any more -/
  | destroyed
deriving DecidableEq, Repr

structure EpollState where
  files : FileState
  interestLists : FileId → InterestList

/-- Some slot of some table refers to the description. -/
def FileState.owns (s : FileState) (d : DescriptionId) : Bool :=
  s.tables.any fun fds => fds.any fun slot => slot.map FileDescriptor.openFileDescription = some d

/-- `EPOLL_CTL_ADD`, `EPOLL_CTL_DEL` and `EPOLL_CTL_MOD` -/
def EPOLL_CTL_ADD : Int := 1
def EPOLL_CTL_DEL : Int := 2
def EPOLL_CTL_MOD : Int := 3

/-- `File::isEpoll`, which an event overrides as well. -/
def File.isEpoll (f : File) : Bool :=
  match f.kind with
  | .epoll | .event _ => true
  | .directory _ _ | .shadowFile _ | .hostFile | .hostDevice | .nullDevice | .tty | .pipeEndpoint _ _ | .socket | .symlink _ => false

namespace EpollState

/-- The description that an entry points to. -/
def dereference (s : EpollState) (d : DescriptionId) : Except EpollFailure OpenFileDescription := do
  check (s.files.owns d = true) .destroyed
  (s.files.fs.description d).mapError .files

/-- The epoll instance that a descriptor refers to, if it refers to one. The cast of an event to `Epoll` is undefined. -/
def instance? (s : EpollState) (fds : FileDescriptors) (epfd : Int) : Except FsFailure (Option FileId) := do
  match fds.findFileDescriptor epfd with
  | none => .ok none
  | some descriptor => do
    let ofd ← s.files.fs.description descriptor.openFileDescription
    let file ← s.files.fs.file ofd.file
    if file.isEpoll then do
      check (file.kind = .epoll) .miscast
      .ok (some ofd.file)
    else .ok none

def setInterestList (s : EpollState) (f : FileId) (l : InterestList) : EpollState :=
  { s with interestLists := fun g => if g = f then l else s.interestLists g }

/-- `FS::epoll_ctl` -/
def epoll_ctl (s : EpollState) (fds : FileDescriptors) (epfd op fd : Int) (events : EpollEvents) (data : Nat) :
    Except FsFailure (EpollState × Int) := do
  match ← s.instance? fds epfd with
  | none => .ok (s, -EBADF)
  | some f => do
    let ofd := (fds.findFileDescriptor fd).map FileDescriptor.openFileDescription
    if op = EPOLL_CTL_ADD then do
      let l ← (s.interestLists f).addEntry ofd (events ||| .HANGUP) data
      .ok (s.setInterestList f l, 0)
    else if op = EPOLL_CTL_MOD then do
      let l ← (s.interestLists f).changeEntry ofd events data
      .ok (s.setInterestList f l, 0)
    else do
      require (op = EPOLL_CTL_DEL)
      let (l, ret) := (s.interestLists f).deleteEntry ofd
      .ok (s.setInterestList f l, ret)

/-- One turn of the loop of `FS::doEpollWait`: the event that is reported for an entry, if one is. -/
def waitEntry (s : EpollState) (polls : HostPolls) (entry : EpollEntry) : Except EpollFailure (Option EpollEvent) := do
  match entry.ofd with
  | none => .ok (some ⟨.HANGUP, 0⟩)
  | some d => do
    let ofd ← s.dereference d
    let file ← (s.files.fs.file ofd.file).mapError .files
    check (file.isPollable = true) (.files .verification)
    check (entry.event.untestedFlags = 0) (.files .verification)
    let readable ← (FS.tested (entry.event.test .CAN_READ) (s.files.fs.canRead polls ofd.file)).mapError .files
    let writable ← (FS.tested (entry.event.test .CAN_WRITE) (s.files.fs.canWrite polls ofd.file)).mapError .files
    let outputEvents := (EpollEvents.addIf 0 readable .CAN_READ).addIf writable .CAN_WRITE
    .ok (if outputEvents = 0 then none else some ⟨outputEvents, entry.data⟩)

/-- `FS::doEpollWait` of an instance -/
def doEpollWait (s : EpollState) (polls : HostPolls) (f : FileId) : Except EpollFailure (List EpollEvent) := do
  let events ← (s.interestLists f).mapM (s.waitEntry polls)
  .ok events.reduceOption

/-- `Sys::epoll_wait` with a timeout of zero: the events that are written and the value that the call returns. -/
def epollWaitNow (s : EpollState) (polls : HostPolls) (fds : FileDescriptors) (epfd maxevents : Int) :
    Except EpollFailure (List EpollEvent × Int) := do
  if maxevents ≤ 0 then .ok ([], -EINVAL)
  else
    match ← (s.instance? fds epfd).mapError .files with
    | none => .ok ([], -EBADF)
    | some f => do
      let events ← s.doEpollWait polls f
      .ok (events.take maxevents.toNat, (events.take maxevents.toNat).length)

/-- `EpollWaitBlocker::tryUnblock`, none where the thread stays blocked. -/
def tryUnblockEpollWait (s : EpollState) (polls : HostPolls) (fds : FileDescriptors) (epfd : Int) (maxevents : Nat)
    (timeout : Bool) : Except EpollFailure (Option (List EpollEvent × Int)) := do
  match ← (s.instance? fds epfd).mapError .files with
  | none => .error (.files .verification)
  | some f => do
    let events ← s.doEpollWait polls f
    if events.take maxevents ≠ [] then .ok (some (events.take maxevents, (events.take maxevents).length))
    else if timeout then .ok (some ([], 0))
    else .ok none

end EpollState

/-- The file is of the class `Epoll`, which has an interest list. -/
def FS.hasInterestList (fs : FS) (f : FileId) : Bool := decide ((fs.files.get? f).map File.kind = some .epoll)

/-- What changes files or interest lists. -/
inductive EpollAction where
  | files (host : HostFiles) (action : FileAction)
  | epoll_ctl (table : Nat) (epfd op fd : Int) (events : EpollEvents) (data : Nat)

namespace EpollState

/-- One step. An instance that an action creates has no interest yet. -/
def act (depth : Nat) (s : EpollState) : EpollAction → Except FsFailure EpollState
  | .files host action => do
    let (files, _) ← s.files.act depth host action
    .ok ⟨files, fun f => if s.files.fs.hasInterestList f then s.interestLists f else []⟩
  | .epoll_ctl table epfd op fd events data =>
    match s.files.tables[table]? with
    | none => .error .outOfBounds
    | some fds => do
      let (s, _) ← s.epoll_ctl fds epfd op fd events data
      .ok s

/-- The steps of all processes in any order, from a file system as its constructor leaves it. -/
def machine (depth : Nat) : Machine EpollState EpollAction where
  init s := s.files.IsNew depth ∧ ∀ f, s.interestLists f = []
  step s a := (s.act depth a).toOption

end EpollState

end X64Emulator
