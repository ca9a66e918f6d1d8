import X64Emulator.Scheduler

/-!
# System calls

The system calls that reach the scheduler: those that block, wake, create or end threads, and one constructor for all the
others, which only give a result and write to memory. What a file or the loader of a program contributes is part of the call.
-/

namespace X64Emulator

open Outcome

/-- `Host::CloneFlags` -/
structure CloneFlags where
  childClearTid : Bool
  childSetTid : Bool
  clearSignalHandlers : Bool
  cloneSignalHandlers : Bool
  cloneFiles : Bool
  cloneFs : Bool
  cloneIo : Bool
  cloneParent : Bool
  parentSetTid : Bool
  clonePidFd : Bool
  setTls : Bool
  cloneThread : Bool
  cloneVm : Bool
  cloneVfork : Bool
deriving DecidableEq, Repr

def checkCloneFlags (flags : CloneFlags) : Bool :=
  flags.childClearTid && !flags.childSetTid && !flags.clearSignalHandlers && flags.cloneSignalHandlers &&
    flags.cloneFiles && flags.cloneFs && !flags.cloneIo && !flags.cloneParent && flags.parentSetTid &&
    !flags.clonePidFd && flags.setTls && flags.cloneThread && flags.cloneVm && !flags.cloneVfork

def checkCloneFlagsFork (flags : CloneFlags) : Bool :=
  !flags.clearSignalHandlers && !flags.cloneSignalHandlers && !flags.cloneFiles && !flags.cloneFs && !flags.cloneIo &&
    !flags.cloneParent && !flags.parentSetTid && !flags.clonePidFd && !flags.setTls && !flags.cloneThread

/-- `Host::WaitOptions` -/
structure WaitOptions where
  nohang : Bool
  untraced : Bool
deriving DecidableEq, Repr

/-- A system call with its arguments. -/
inductive Syscall where
  /-- `result` is the file's answer, none when the read has to wait -/
  | read (fd : Int) (buf count : Nat) (result : Option FsAnswer)
  /-- `result` is the answer to a poll that does not wait -/
  | poll (fds nfds : Nat) (timeout : Int) (result : FsAnswer)
  | ppoll (fds nfds tmo_p : Nat)
  | select (nfds : Int) (readfds writefds exceptfds timeout : Nat) (result : FsAnswer)
  | epoll_wait (epfd : Int) (events : Nat) (maxevents timeout : Int) (result : FsAnswer)
  | clock_nanosleep (clockid : Int) (request : Nat)
  /-- `store` writes the time to guest memory -/
  | clock_gettime (clockid : Int) (store : GuestMemory → GuestMemory)
  | futex (uaddr : Nat) (futex_op : Nat) (val : UInt32) (timeout uaddr2 : Nat) (val3 : UInt32)
  | clone (flags : CloneFlags) (stack parent_tid child_tid : Nat)
  | clone3 (flags : CloneFlags) (parent_tid child_tid : Nat)
  /-- either the error that stops the call before it is committed, or the memory of the new program -/
  | execve (outcome : Except Int (Nat → Option UInt8))
  | exit (status : Int)
  | exit_group (status : Int)
  | wait4 (pid : Int) (wstatus : Nat) (options : WaitOptions)
  | tgkill (tgid tid : Int)
  | set_tid_address (ptr : Nat)
  | sched_yield
  | other (ret : Int) (store : GuestMemory → GuestMemory)

namespace Scheduler

/-! ## Processes -/

/-- `ProcessTable::allocatedPid` and `allocatedTid`, which count together. -/
def allocateId (s : Scheduler) : Scheduler :=
  { s with lastUsedPid := s.lastUsedPid + 1, lastUsedTid := s.lastUsedTid + 1 }

/-- `Process::addThread`: the first thread of a process has its pid. -/
def addProcessThread (s : Scheduler) (p : Nat) : Nat × Scheduler :=
  let isFirst := (s.processAt p).threads.isEmpty
  let s := if isFirst then s else s.allocateId
  let newThread : Thread :=
    { process := p, pid := (s.processAt p).pid, tid := if isFirst then (s.processAt p).pid else s.lastUsedTid,
      time := ThreadTime.zero, requestsSyscall := false, requestsAtomic := false, clearChildTid := 0, rax := 0,
      exitStatus := -1 }
  let thread := s.nbThreads
  (thread, { s.setThread thread (fun _ => newThread) with nbThreads := s.nbThreads + 1 }.setProcess p
    (fun process => { process with threads := process.threads ++ [thread] }))

/-- `Process::clone`: the new process shares the address space or has a copy of it. -/
def cloneProcess (s : Scheduler) (p : Nat) (vm : Bool) : Nat × Scheduler :=
  let s := s.allocateId
  let space := (s.processAt p).addressSpace
  let newSpace := if vm then space else s.nbAddressSpaces
  let newProcess : Process :=
    { pid := s.lastUsedPid, addressSpace := newSpace, threads := [], parent := some p, children := [], exitedChildren := [] }
  let process := s.nbProcesses
  (process, { s.setProcess process (fun _ => newProcess) with
    nbProcesses := s.nbProcesses + 1
    nbAddressSpaces := if vm then s.nbAddressSpaces else s.nbAddressSpaces + 1
    memory := fun sp => if sp = newSpace then s.memory space else s.memory sp }.setProcess p
      (fun parent => { parent with children := parent.children ++ [process] }))

/-- `Process::prepareExec`, and the loading of a program into the new address space. -/
def prepareExec (s : Scheduler) (p : Nat) (image : Nat → Option UInt8) : Scheduler :=
  { s.setProcess p (fun process => { process with
      addressSpace := s.nbAddressSpaces, threads := [], children := [], exitedChildren := [] }) with
    nbAddressSpaces := s.nbAddressSpaces + 1
    memory := fun sp => if sp = s.nbAddressSpaces then image else s.memory sp }

/-- `Process::notifyExit` -/
def notifyExit (s : Scheduler) (p : Nat) (status : Int) : Except Failure Scheduler :=
  match (s.processAt p).parent with
  | none => .ok s
  | some parent => do
    ensure ((s.tryGetChild parent (s.processAt p).pid).isSome)
    .ok (s.setProcess parent (fun process => { process with
      exitedChildren := process.exitedChildren ++ [⟨(s.processAt p).pid, status, none⟩] }))

/-! ## Calls -/

def suspendIfVfork (s : Scheduler) (current : Nat) (flags : CloneFlags) : Except Failure Scheduler :=
  if flags.cloneVfork then s.suspendUntilVmReleased current else .ok s

/-- The thread a clone creates, in the same process or in a new one; none when the flags of a new process are refused, which
is only found out after the process was created. -/
def createClone (s : Scheduler) (current : Nat) (flags : CloneFlags) : Except Failure (Option Nat × Scheduler) := do
  if flags.cloneThread then
    ensure (flags.cloneSignalHandlers = true)
    ensure (flags.cloneVm = true)
    ensure (checkCloneFlags flags = true)
    let (newThread, s) := s.addProcessThread (s.processOf current)
    .ok (some newThread, s)
  else
    ensure (flags.cloneFiles = false)
    let (newProcess, s) := s.cloneProcess (s.processOf current) flags.cloneVm
    if checkCloneFlagsFork flags = false then .ok (none, s)
    else
      let (newThread, s) := s.addProcessThread newProcess
      let s ← s.suspendIfVfork current flags
      .ok (some newThread, s)

/-- The new thread starts with the registers of the current one, but for the result of the call. -/
def setUpClone (s : Scheduler) (newThread : Nat) (flags : CloneFlags) (child_tid : Nat) : Scheduler :=
  s.setThread newThread (fun t => { t with
    rax := 0, clearChildTid := if flags.childClearTid then child_tid else t.clearChildTid })

/-- A tid is stored where the flags and the address ask for it. -/
def storeTid (s : Scheduler) (wanted : Bool) (space address newThread : Nat) : Except Failure Scheduler := do
  if wanted && decide (address ≠ 0) then
    let memory ← write32 s.memory space address (toRegister (s.threadAt newThread).tid)
    .ok { s with memory := memory }
  else .ok s

def clone (s : Scheduler) (current : Nat) (flags : CloneFlags) (stack parent_tid child_tid : Nat) :
    Except Failure (Int × Scheduler) := do
  let space := s.spaceOf current
  let (newThread, s) ← s.createClone current flags
  match newThread with
  | none => .ok (-ENOTSUP, s)
  | some newThread =>
    ensure (stack ≠ 0 ∨ flags.cloneVm = false)
    let s := s.setUpClone newThread flags child_tid
    let s ← s.storeTid flags.childSetTid (s.spaceOf newThread) child_tid newThread
    let s ← s.storeTid flags.parentSetTid space parent_tid newThread
    .ok ((s.threadAt newThread).tid, s.addThread newThread)

/-- The tid is also stored at `child_tid` in the space of the caller, whatever the flags. -/
def clone3 (s : Scheduler) (current : Nat) (flags : CloneFlags) (child_tid : Nat) :
    Except Failure (Int × Scheduler) := do
  let space := s.spaceOf current
  let (newThread, s) ← s.createClone current flags
  match newThread with
  | none => .ok (-ENOTSUP, s)
  | some newThread =>
    let s := s.setUpClone newThread flags child_tid
    let s ← s.storeTid flags.childSetTid (s.spaceOf newThread) child_tid newThread
    let s ← s.storeTid true space child_tid newThread
    .ok ((s.threadAt newThread).tid, s.addThread newThread)

def execve (s : Scheduler) (current : Nat) : Except Int (Nat → Option UInt8) → Except Failure (Int × Scheduler)
  | .error ret => .ok (ret, s)
  | .ok image => do
    let p := s.processOf current
    let s ← s.terminateGroup p 0
    let (newThread, s) := (s.prepareExec p image).addProcessThread p
    .ok (0, s.addThread newThread)

def exit_group (s : Scheduler) (current : Nat) (status : Int) : Except Failure (Int × Scheduler) := do
  let p := s.processOf current
  let s ← s.terminateGroup p status
  let s ← s.notifyExit p status
  .ok (status, s)

/-- The wait itself, with the thread blocked until a child has exited. -/
def waitForChild (s : Scheduler) (current : Nat) (pid : Int) (wstatus : Nat) : Except Failure (Int × Scheduler) := do
  let s ← s.wait4 current pid wstatus
  .ok (0, s)

def sysWait4 (s : Scheduler) (current : Nat) (pid : Int) (wstatus : Nat) (options : WaitOptions) :
    Except Failure (Int × Scheduler) := do
  let p := s.processOf current
  if (s.processAt p).children.isEmpty then .ok (-ECHILD, s)
  else if options.untraced then
    match ← s.tryRetrieveAnyExitedChild p with
    | some (child, s) => .ok (child.pid, s)
    | none => s.waitForChild current pid wstatus
  else if options.nohang && (s.processAt p).exitedChildren.isEmpty then .ok (0, s)
  else s.waitForChild current pid wstatus

/-- A timer, created when it is not there, is brought up to date. -/
def syncTimer (s : Scheduler) (id : Int) : Scheduler :=
  { s with timers := updateTimer (createTimer s.timers id) id s.currentTime }

def futexWait (s : Scheduler) (current uaddr val timeout : Nat) (absoluteTimeout : Bool) :
    Except Failure (Int × Scheduler) := do
  let loaded ← read32 s.memory (s.spaceOf current) uaddr
  if loaded ≠ val then .ok (-EAGAIN, s)
  else
    let s ← (s.syncTimer 0).wait current uaddr val timeout absoluteTimeout
    .ok (0, s)

def futex (s : Scheduler) (current uaddr futex_op : Nat) (val : UInt32) (timeout uaddr2 : Nat) (val3 : UInt32) :
    Except Failure (Int × Scheduler) :=
  let unmaskedOp := futex_op % 2 ^ 7
  if unmaskedOp = 0 then s.futexWait current uaddr val.toNat timeout false
  else if unmaskedOp = 1 then do
    let (nbWoken, s) ← s.wake uaddr val.toNat
    .ok (nbWoken, s)
  else if unmaskedOp = 5 then do
    let (nbWoken, s) ← s.wakeOp current uaddr val uaddr2 (UInt32.ofNat timeout) val3
    .ok (nbWoken, s)
  else if unmaskedOp = 7 then .ok (-ENOSYS, s)
  else if unmaskedOp = 9 ∧ val3.toNat = 2 ^ 32 - 1 then s.futexWait current uaddr val.toNat timeout true
  else .error .verification

def clock_nanosleep (s : Scheduler) (current : Nat) (clockid : Int) (request : Nat) :
    Except Failure (Int × Scheduler) := do
  let s := { s with timers := createTimer s.timers clockid }
  if request = 0 then .ok (-EFAULT, s)
  else
    let seconds ← read64 s.memory (s.spaceOf current) request
    let nanoseconds ← read64 s.memory (s.spaceOf current) (request + 8)
    let s := s.syncTimer clockid
    let timer ← demand (getTimer s.timers clockid)
    let s ← s.sleep current clockid (timer.now.add ⟨seconds, nanoseconds⟩)
    .ok (0, s)

/-- A call that returns at once what the file system answers. -/
def answerNow (s : Scheduler) (answer : FsAnswer) : Int × Scheduler :=
  (answer.ret, { s with memory := answer.store s.memory })

/-- The value of an `int` that a wider number is cast to. -/
def toInt32 (n : Nat) : Int := (BitVec.ofNat 32 n).toInt

def ppoll (s : Scheduler) (current fds nfds tmo_p : Nat) : Except Failure (Int × Scheduler) := do
  let s := { s with timers := createTimer s.timers 0 }
  if tmo_p = 0 then
    let s ← s.poll current fds nfds (-1)
    .ok (0, s)
  else
    let seconds ← read64 s.memory (s.spaceOf current) tmo_p
    let nanoseconds ← read64 s.memory (s.spaceOf current) (tmo_p + 8)
    let s ← s.poll current fds nfds (toInt32 (seconds * 1000 + nanoseconds / 1000000))
    .ok (0, s)

/-- The time a select is given, by which one that must not wait is told apart. -/
def selectIsImmediate (s : Scheduler) (current timeout : Nat) : Except Failure Bool := do
  if timeout = 0 then .ok false
  else
    let seconds ← read64 s.memory (s.spaceOf current) timeout
    let microseconds ← read64 s.memory (s.spaceOf current) (timeout + 8)
    .ok (decide (seconds = 0) && decide (u64 (microseconds * 1000) = 0))

def sysSelect (s : Scheduler) (current : Nat) (nfds : Int) (readfds writefds exceptfds timeout : Nat)
    (result : FsAnswer) : Except Failure (Int × Scheduler) := do
  let s := { s with timers := createTimer s.timers 0 }
  let immediate ← s.selectIsImmediate current timeout
  if immediate then .ok (s.answerNow result)
  else
    let s ← s.select current nfds readfds writefds exceptfds timeout
    .ok (0, s)

/-- The call of a thread, with the result it leaves in RAX. -/
def invoke (s : Scheduler) (current : Nat) : Syscall → Except Failure (Int × Scheduler)
  | .read fd buf count none => do
    let s ← s.blockingRead current fd buf count
    .ok (0, s)
  | .read _ _ _ (some result) => .ok (s.answerNow result)
  | .poll fds nfds timeout result => do
    if timeout = 0 then .ok (s.answerNow result)
    else
      let s ← s.poll current fds nfds timeout
      .ok (0, s)
  | .ppoll fds nfds tmo_p => s.ppoll current fds nfds tmo_p
  | .select nfds readfds writefds exceptfds timeout result =>
    s.sysSelect current nfds readfds writefds exceptfds timeout result
  | .epoll_wait epfd events maxevents timeout result => do
    if events = 0 then .ok (-EFAULT, s)
    else if maxevents ≤ 0 then .ok (-EINVAL, s)
    else if timeout = 0 then .ok (s.answerNow result)
    else
      let s ← s.epollWait current epfd events maxevents.toNat timeout
      .ok (0, s)
  | .clock_nanosleep clockid request => s.clock_nanosleep current clockid request
  | .clock_gettime clockid store => .ok (0, { s.syncTimer clockid with memory := store s.memory })
  | .futex uaddr futex_op val timeout uaddr2 val3 => s.futex current uaddr futex_op val timeout uaddr2 val3
  | .clone flags stack parent_tid child_tid => s.clone current flags stack parent_tid child_tid
  | .clone3 flags _ child_tid => s.clone3 current flags child_tid
  | .execve outcome => s.execve current outcome
  | .exit status => do
    let s ← s.terminate current status
    .ok (status, s)
  | .exit_group status => s.exit_group current status
  | .wait4 pid wstatus options => s.sysWait4 current pid wstatus options
  | .tgkill tgid tid => do
    let s ← s.kill tgid tid
    .ok (0, s)
  | .set_tid_address ptr => .ok ((s.threadAt current).tid, s.setThread current (fun t => { t with clearChildTid := ptr }))
  | .sched_yield => .ok (0, s.yieldThread current)
  | .other ret store => .ok (ret, { s with memory := store s.memory })

/-- `Sys::syscall`, with the end of the request that `runKernel` adds. -/
def syscall (s : Scheduler) (current : Nat) (call : Syscall) : Except Failure Scheduler := do
  let (ret, s) ← s.invoke current call
  .ok (s.setThread current (fun t => { t with rax := toRegister ret, requestsSyscall := false }))

/-- The threads that a call of a thread terminates. -/
def terminatedBy (s : Scheduler) (current : Nat) : Syscall → List Nat
  | .exit _ => [current]
  | .exit_group _ => s.threadsOfProcess (s.processOf current)
  | .execve (.ok _) => s.threadsOfProcess (s.processOf current)
  | .tgkill tgid tid => s.threadsNamed tgid tid
  | _ => []

end Scheduler

end X64Emulator
