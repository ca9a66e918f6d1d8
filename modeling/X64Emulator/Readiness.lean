import X64Emulator.Descriptors

/-!
# Readiness

What the files say of themselves when a thread waits for them, and the two calls that ask: `poll` and `select`, each with its
path that answers at once and the blocker that the scheduler tries. The arrays and sets stand for the guest memory they lie in; a
set that the guest does not give is empty, and stays so.
-/

namespace X64Emulator

open Outcome

/-- Whether the host's files are ready. -/
structure HostPolls where
  canRead : FileId → Bool
  canWrite : FileId → Bool

/-- No file of the host is ready. -/
def silentHost : HostPolls := ⟨fun _ => false, fun _ => false⟩

def File.isReadable (f : File) : Except FsFailure Bool :=
  match f.kind with
  | .shadowFile _ | .hostFile | .hostDevice | .tty | .event _ | .socket => .ok true
  | .pipeEndpoint _ side => .ok (decide (side = .READ))
  | .directory _ _ | .nullDevice | .epoll => .ok false
  | .symlink _ => .error .verification

def File.isPollable (f : File) : Bool :=
  match f.kind with
  | .hostFile | .hostDevice | .tty | .pipeEndpoint _ _ | .event _ | .socket => true
  | .directory _ _ | .shadowFile _ | .nullDevice | .symlink _ | .epoll => false

namespace FS

/-- `File::canRead` -/
def canRead (fs : FS) (polls : HostPolls) (f : FileId) : Except FsFailure Bool := do
  let file ← fs.file f
  match file.kind with
  | .pipeEndpoint p _ => do
    let pipe ← fs.pipe p
    .ok (!pipe.data.isEmpty)
  | .event counter => .ok (decide (0 < counter))
  | .hostFile | .hostDevice | .tty | .socket => .ok (polls.canRead f)
  | .directory _ _ | .shadowFile _ | .nullDevice | .epoll => .ok false
  | .symlink _ => .error .verification

/-- `File::canWrite` -/
def canWrite (fs : FS) (polls : HostPolls) (f : FileId) : Except FsFailure Bool := do
  let file ← fs.file f
  match file.kind with
  | .pipeEndpoint p _ => do
    let _ ← fs.pipe p
    .ok true
  | .event counter => .ok (decide (counter < 2 ^ 64 - 2))
  | .tty => .ok true
  | .socket => .ok (polls.canWrite f)
  | .directory _ _ | .shadowFile _ | .nullDevice | .epoll => .ok false
  | .hostFile | .hostDevice | .symlink _ => .error .verification

/-- A file is asked only what is tested for. -/
def tested (test : Bool) (ready : Except FsFailure Bool) : Except FsFailure Bool := if test then ready else .ok false

/-- The file of a descriptor, which has to be pollable. -/
def pollable (fs : FS) (descriptor : FileDescriptor) : Except FsFailure FileId := do
  let ofd ← fs.description descriptor.openFileDescription
  let file ← fs.file ofd.file
  require (file.isPollable = true)
  .ok ofd.file

end FS

/-! ## poll -/

/-- `PollEvent`, which is any `i16` that the guest puts there. -/
abbrev PollEvent := BitVec 16

namespace PollEvent

def NONE : PollEvent := 0x0
def CAN_READ : PollEvent := 0x1
def CAN_WRITE : PollEvent := 0x4
def INVALID_REQUEST : PollEvent := 0x20

/-- The events with another one where a file is ready for it. -/
def mark (revents : PollEvent) (ready : Bool) (event : PollEvent) : PollEvent := if ready then revents ||| event else revents

end PollEvent

structure PollFd where
  fd : Int
  events : PollEvent
  revents : PollEvent
deriving DecidableEq, Repr

namespace PollFd

def testRead (pollfd : PollFd) : Bool := pollfd.events &&& .CAN_READ = .CAN_READ

def testWrite (pollfd : PollFd) : Bool := pollfd.events &&& .CAN_WRITE = .CAN_WRITE

end PollFd

namespace FS

/-- One turn of the loops of `FS::pollImmediate` and `FS::doPoll`: the events that a file is ready for are added to the ones that
are there. -/
def pollFile (fs : FS) (polls : HostPolls) (descriptor : FileDescriptor) (pollfd : PollFd) (revents : PollEvent) :
    Except FsFailure PollFd := do
  let f ← fs.pollable descriptor
  let readable ← tested pollfd.testRead (fs.canRead polls f)
  let writable ← tested pollfd.testWrite (fs.canWrite polls f)
  .ok { pollfd with revents := (revents.mark readable .CAN_READ).mark writable .CAN_WRITE }

/-- A turn of the loop of `FS::pollImmediate`, which begins with the events that the guest left. -/
def pollNow (fs : FS) (polls : HostPolls) (fds : FileDescriptors) (pollfd : PollFd) : Except FsFailure PollFd :=
  match fds.findFileDescriptor pollfd.fd with
  | none => .ok { pollfd with revents := pollfd.revents ||| .INVALID_REQUEST }
  | some descriptor => fs.pollFile polls descriptor pollfd pollfd.revents

/-- `FS::pollImmediate`: the array, and the value that the call returns. -/
def pollImmediate (fs : FS) (polls : HostPolls) (fds : FileDescriptors) (pollfds : List PollFd) :
    Except FsFailure (List PollFd × Int) := do
  let rfds ← pollfds.mapM (fs.pollNow polls fds)
  .ok (rfds, 0)

/-- A turn of the loop of `FS::doPoll`. -/
def pollAgain (fs : FS) (polls : HostPolls) (fds : FileDescriptors) (pollfd : PollFd) : Except FsFailure PollFd :=
  match fds.findFileDescriptor pollfd.fd with
  | none => .error .verification
  | some descriptor => fs.pollFile polls descriptor pollfd .NONE

/-- `FS::doPoll` -/
def doPoll (fs : FS) (polls : HostPolls) (fds : FileDescriptors) (pollfds : List PollFd) : Except FsFailure (List PollFd) :=
  pollfds.mapM (fs.pollAgain polls fds)

/-- The number of entries that something is reported for. -/
def nzrevents (pollfds : List PollFd) : Nat := pollfds.countP fun pollfd => pollfd.revents ≠ .NONE

/-- `PollBlocker::tryUnblock`: the array and the value that the call returns, none where the thread stays blocked. -/
def tryUnblockPoll (fs : FS) (polls : HostPolls) (fds : FileDescriptors) (pollfds : List PollFd) (timeout : Bool) :
    Except FsFailure (Option (List PollFd × Int)) := do
  let polled ← fs.doPoll polls fds pollfds
  if nzrevents polled > 0 then .ok (some (polled, nzrevents polled))
  else if timeout then .ok (some (pollfds, 0))
  else .ok none

end FS

/-! ## select -/

def FD_SETSIZE : Nat := 1024

/-- `std::bitset<FD_SETSIZE>` -/
abbrev FdSet := BitVec FD_SETSIZE

namespace FdSet

def test (s : FdSet) (fd : Nat) : Bool := s.getLsbD fd

def reset (s : FdSet) (fd : Nat) : FdSet := s &&& ~~~ BitVec.twoPow FD_SETSIZE fd

/-- The set with a bit, if it is to be set. -/
def setIf (s : FdSet) (fd : Nat) (ready : Bool) : FdSet := if ready then s ||| BitVec.twoPow FD_SETSIZE fd else s

def count (s : FdSet) : Nat := (List.range FD_SETSIZE).countP s.test

end FdSet

/-- `FS::SelectData`, but for the descriptors. -/
structure SelectData where
  readfds : FdSet
  writefds : FdSet
  exceptfds : FdSet
deriving DecidableEq, Repr

/-- The number of bits in the three sets. -/
def SelectData.count (data : SelectData) : Nat := data.readfds.count + data.writefds.count + data.exceptfds.count

namespace FS

/-- The loop of `FS::selectImmediate` from a descriptor on. -/
def selectFrom (fs : FS) (polls : HostPolls) : Nat → List (Option FileDescriptor) → SelectData →
    Except FsFailure (SelectData × Int)
  | _, [], data => .ok (data, 0)
  | i, descriptor :: rest, data => do
    check (i < FD_SETSIZE) .outOfBounds
    let testRead := data.readfds.test i
    let testWrite := data.writefds.test i
    if !testRead && !testWrite then fs.selectFrom polls (i + 1) rest data
    else
      let data := { data with readfds := data.readfds.reset i, writefds := data.writefds.reset i }
      match descriptor with
      | none => .ok (data, -EBADF)
      | some descriptor => do
        let f ← fs.pollable descriptor
        let readable ← tested testRead (fs.canRead polls f)
        let writable ← tested testWrite (fs.canWrite polls f)
        fs.selectFrom polls (i + 1) rest
          { data with readfds := data.readfds.setIf i readable, writefds := data.writefds.setIf i writable }

/-- The descriptors below a number. -/
def selected (fds : FileDescriptors) (nfds : Nat) : List (Option FileDescriptor) :=
  (List.range nfds).map fun fd : Nat => fds.findFileDescriptor (fd : Int)

/-- `FS::selectImmediate`, with the descriptors that the callers put together; a vector has no negative capacity. -/
def selectImmediate (fs : FS) (polls : HostPolls) (fds : FileDescriptors) (nfds : Int) (data : SelectData) :
    Except FsFailure (SelectData × Int) := do
  check (0 ≤ nfds) .allocation
  fs.selectFrom polls 0 (selected fds nfds.toNat) data

/-- `Sys::select` with a timeout of zero: the three sets in guest memory, and the value that the call returns. -/
def selectNow (fs : FS) (polls : HostPolls) (fds : FileDescriptors) (nfds : Int) (data : SelectData) :
    Except FsFailure (SelectData × Int) := do
  let (selected, ret) ← fs.selectImmediate polls fds nfds data
  if ret < 0 then .ok (data, ret) else .ok (selected, ret)

/-- `SelectBlocker::tryUnblock`: the sets in guest memory and the value that the call returns, none where the thread stays
blocked. -/
def tryUnblockSelect (fs : FS) (polls : HostPolls) (fds : FileDescriptors) (nfds : Int) (data : SelectData) (timeout : Bool) :
    Except FsFailure (Option (SelectData × Int)) := do
  let (selected, ret) ← fs.selectImmediate polls fds nfds data
  if ret < 0 ∨ selected.count > 0 ∨ timeout = true then
    .ok (some (selected, if ret ≥ 0 then selected.count else ret))
  else .ok none

end FS

end X64Emulator
