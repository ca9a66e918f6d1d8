import X64Emulator.Descriptors
import X64Emulator.Epoll

/-!
# File locks

The locks of the open file descriptions, beside the files. `FS::flock` looks at the lock of the one description that it is
called with; no description knows of the others of its file. The lock of a description goes with it.
-/

namespace X64Emulator

open Outcome

/-- `OpenFileDescription::Lock` -/
inductive Lock where
  | NONE
  | SHARED
  | EXCLUSIVE
deriving DecidableEq, Repr

def EWOULDBLOCK : Int := EAGAIN

namespace Lock

def LOCK_SH : BitVec 32 := 1
def LOCK_EX : BitVec 32 := 2
def LOCK_NB : BitVec 32 := 4
def LOCK_UN : BitVec 32 := 8

/-- `Host::Lock::isShared` and its siblings -/
def test (operation flag : BitVec 32) : Bool := operation &&& flag ≠ 0

/-- `OpenFileDescription::tryLock`: the lock after it, and what it returns. -/
def tryLock (held lock : Lock) (nonBlocking : Bool) : Except FsFailure (Lock × Int) :=
  if nonBlocking = true ∧ held = .EXCLUSIVE then .ok (held, -EWOULDBLOCK)
  else do
    require (held = .NONE)
    .ok (lock, 0)

/-- `FS::flock` of an open file description -/
def flock (held : Lock) (operation : BitVec 32) : Except FsFailure (Lock × Int) :=
  let lockShared := test operation LOCK_SH
  let lockExclusively := test operation LOCK_EX
  let unlock := test operation LOCK_UN
  let nonBlocking := test operation LOCK_NB
  if lockExclusively then
    if lockShared then .ok (held, -EINVAL)
    else if unlock then .ok (held, -EINVAL)
    else tryLock held .EXCLUSIVE nonBlocking
  else if lockShared then
    if lockExclusively then .ok (held, -EINVAL)
    else if unlock then .ok (held, -EINVAL)
    else tryLock held .EXCLUSIVE nonBlocking
  else if unlock then
    if lockExclusively then .ok (held, -EINVAL)
    else if lockShared then .ok (held, -EINVAL)
    else .ok (.NONE, 0)
  else .ok (held, -EINVAL)

end Lock

/-- The files, and the locks of the open file descriptions. -/
structure LockState where
  files : FileState
  locks : DescriptionId → Lock

/-- What changes files or locks. -/
inductive LockAction where
  | files (host : HostFiles) (action : FileAction)
  | flock (table : Nat) (fd : Int) (operation : BitVec 32)

namespace LockState

def setLock (s : LockState) (d : DescriptionId) (lock : Lock) : LockState :=
  { s with locks := fun d' => if d' = d then lock else s.locks d' }

/-- `Sys::flock` -/
def flock (s : LockState) (fds : FileDescriptors) (fd : Int) (operation : BitVec 32) : Except FsFailure (LockState × Int) :=
  match fds.findFileDescriptor fd with
  | none => .ok (s, -EBADF)
  | some descriptor => do
    let (lock, ret) ← (s.locks descriptor.openFileDescription).flock operation
    .ok (s.setLock descriptor.openFileDescription lock, ret)

/-- One step. A description that no slot refers to any more is destroyed, and its lock with it. -/
def act (depth : Nat) (s : LockState) : LockAction → Except FsFailure LockState
  | .files host action => do
    let (files, _) ← s.files.act depth host action
    .ok ⟨files, fun d => if files.owns d then s.locks d else .NONE⟩
  | .flock table fd operation =>
    match s.files.tables[table]? with
    | none => .error .outOfBounds
    | some fds => do
      let (s, _) ← s.flock fds fd operation
      .ok s

/-- The steps of all processes in any order, from a file system as its constructor leaves it. -/
def machine (depth : Nat) : Machine LockState LockAction where
  init s := s.files.IsNew depth ∧ ∀ d, s.locks d = .NONE
  step s a := (s.act depth a).toOption

end LockState

end X64Emulator
