import X64Emulator.Lib.Outcome
import X64Emulator.Timers

/-!
# The scheduler

The threads of all processes, the lists that say which of them run, may run or wait, the blockers that say what a waiting
thread waits for, and the operations on them. Threads, processes and address spaces are objects that stay where they are, so
each is named by the number it was created with. Of a thread's saved registers only RAX is kept: no operation here touches
another. What a file answers to a blocked call is an input of the operation that asks it.
-/

namespace X64Emulator

open Outcome

/-- The verifications of the scheduler that are told apart; the others share one reason. -/
inductive Failure where
  /-- `unblock`: the thread is not among the blocked ones -/
  | notBlocked
  /-- `runKernel` and `runUserspaceAtomic`: jobs are running -/
  | jobsRunning
  | verification
deriving DecidableEq, Repr

/-- `verify`, for a verification that is not told apart. -/
def ensure (c : Prop) [Decidable c] : Except Failure Unit := check c .verification

/-- The value of an `Option` that a verification requires to be there. -/
def demand {α : Type} : Option α → Except Failure α
  | some a => .ok a
  | none => .error .verification

structure Thread where
  process : Nat
  pid : Int
  tid : Int
  time : ThreadTime
  requestsSyscall : Bool
  requestsAtomic : Bool
  clearChildTid : Nat
  rax : Nat
  exitStatus : Int
deriving DecidableEq, Repr

structure ExitedChild where
  pid : Int
  status : Int
  signal : Option Int
deriving DecidableEq, Repr

/-- A process: `threads` are its thread objects, `children` the processes it created and has not waited for. -/
structure Process where
  pid : Int
  addressSpace : Nat
  threads : List Nat
  parent : Option Nat
  children : List Nat
  exitedChildren : List ExitedChild
deriving DecidableEq, Repr

inductive Ring where
  | KERNEL
  | USERSPACE
deriving DecidableEq, Repr

structure Job where
  thread : Nat
  ring : Ring
  atomic : Bool
deriving DecidableEq, Repr

structure FutexBlocker where
  thread : Nat
  wordPtr : Nat
  expected : Nat
  timeLimit : Option PreciseTime
deriving DecidableEq, Repr

structure PollBlocker where
  process : Nat
  thread : Nat
  pollfds : Nat
  nfds : Nat
  timeLimit : Option PreciseTime
deriving DecidableEq, Repr

structure SelectBlocker where
  process : Nat
  thread : Nat
  nfds : Int
  readfds : Nat
  writefds : Nat
  exceptfds : Nat
  timeLimit : Option PreciseTime
deriving DecidableEq, Repr

structure EpollWaitBlocker where
  process : Nat
  thread : Nat
  epfd : Int
  events : Nat
  maxevents : Nat
  timeLimit : Option PreciseTime
deriving DecidableEq, Repr

structure SleepBlocker where
  thread : Nat
  timer : Int
  targetTime : PreciseTime
deriving DecidableEq, Repr

structure WaitBlocker where
  thread : Nat
  pid : Int
  wstatus : Nat
deriving DecidableEq, Repr

structure ReadBlocker where
  thread : Nat
  fd : Int
  buf : Nat
  count : Nat
deriving DecidableEq, Repr

structure VmReleaseBlocker where
  thread : Nat
deriving DecidableEq, Repr

/-- Guest memory, by address space and address: `none` where an access fails its verification. -/
abbrev GuestMemory := Nat → Nat → Option UInt8

/-- The scheduler, with the parts of the kernel it works on: the thread and process objects, the timers and the memory. -/
structure Scheduler where
  threadAt : Nat → Thread
  nbThreads : Nat
  processAt : Nat → Process
  nbProcesses : Nat
  nbAddressSpaces : Nat
  lastUsedPid : Int
  lastUsedTid : Int
  memory : GuestMemory
  timers : List Timer
  hasPanicked : Bool
  inKernel : Bool
  numRunningJobs : Nat
  threads : List Nat
  runningJobs : List Job
  runnableThreads : List Nat
  blockedThreads : List Nat
  futexBlockers : List FutexBlocker
  pollBlockers : List PollBlocker
  selectBlockers : List SelectBlocker
  epollWaitBlockers : List EpollWaitBlocker
  sleepBlockers : List SleepBlocker
  waitBlockers : List WaitBlocker
  readBlockers : List ReadBlocker
  vmReleaseBlockers : List VmReleaseBlocker
  currentTime : PreciseTime

def DEFAULT_TIME_SLICE : Nat := 1000000

def ATOMIC_TIME_SLICE : Nat := 100

/-- The value of a register a signed result is written to. -/
def toRegister (n : Int) : Nat := (n % 2 ^ 64).toNat

def readByte (memory : GuestMemory) (space address : Nat) : Except Failure Nat :=
  demand ((memory space address).map UInt8.toNat)

/-- The little-endian number in the `n` bytes from an address on. -/
def readBytes (memory : GuestMemory) (space : Nat) : Nat → Nat → Except Failure Nat
  | _, 0 => .ok 0
  | address, n + 1 => do
    let low ← readByte memory space address
    let high ← readBytes memory space (address + 1) n
    .ok (low + 256 * high)

def read32 (memory : GuestMemory) (space address : Nat) : Except Failure Nat := readBytes memory space address 4

def read64 (memory : GuestMemory) (space address : Nat) : Except Failure Nat := readBytes memory space address 8

/-- The memory with the four bytes of a value written, where the first of them can be. -/
def write32 (memory : GuestMemory) (space address value : Nat) : Except Failure GuestMemory := do
  ensure ((memory space address).isSome)
  .ok (fun sp a =>
    if sp = space ∧ address ≤ a ∧ a < address + 4 then some (UInt8.ofNat (value / 256 ^ (a - address)))
    else memory sp a)

/-- What the file system answers to a blocked call, and what the answer writes to guest memory. -/
structure FsAnswer where
  ret : Int
  nbEvents : Nat
  store : GuestMemory → GuestMemory

/-- The file system's answers to the calls that wait for files; a read may still have none. -/
structure FsAnswers where
  poll : PollBlocker → FsAnswer
  select : SelectBlocker → FsAnswer
  epollWait : EpollWaitBlocker → FsAnswer
  read : ReadBlocker → Option FsAnswer

namespace Scheduler

/-! ## Objects -/

def setThread (s : Scheduler) (t : Nat) (f : Thread → Thread) : Scheduler :=
  { s with threadAt := fun u => if u = t then f (s.threadAt u) else s.threadAt u }

def setProcess (s : Scheduler) (p : Nat) (f : Process → Process) : Scheduler :=
  { s with processAt := fun q => if q = p then f (s.processAt q) else s.processAt q }

def setRax (s : Scheduler) (t : Nat) (value : Int) : Scheduler :=
  s.setThread t (fun thread => { thread with rax := toRegister value })

def yieldThread (s : Scheduler) (t : Nat) : Scheduler :=
  s.setThread t (fun thread => { thread with time := thread.time.yield })

def processOf (s : Scheduler) (t : Nat) : Nat := (s.threadAt t).process

/-- The address space a thread lives in. -/
def spaceOf (s : Scheduler) (t : Nat) : Nat := (s.processAt (s.processOf t)).addressSpace

/-- `Process::addressSpaceRefCount`: process objects are never freed, so it counts those that share the space. -/
def addressSpaceRefCount (s : Scheduler) (p : Nat) : Nat :=
  (List.range s.nbProcesses).countP (fun q => (s.processAt q).addressSpace = (s.processAt p).addressSpace)

/-! ## Thread lists -/

def verifyInKernel (s : Scheduler) : Except Failure Unit := ensure (s.inKernel = true)

def addThread (s : Scheduler) (thread : Nat) : Scheduler :=
  { s with threads := s.threads ++ [thread], runnableThreads := s.runnableThreads ++ [thread] }

def block (s : Scheduler) (thread : Nat) : Except Failure Scheduler := do
  s.verifyInKernel
  .ok { s with
    runningJobs := s.runningJobs.filter (fun job => job.thread ≠ thread)
    runnableThreads := s.runnableThreads.filter (fun t => t ≠ thread)
    blockedThreads := s.blockedThreads ++ [thread] }

/-- Out of the unblocking loops the lock is held; a system call is in the kernel. -/
def unblock (s : Scheduler) (thread : Nat) (locked : Bool) : Except Failure Scheduler := do
  ensure (locked = true ∨ s.inKernel = true)
  check (thread ∈ s.blockedThreads) .notBlocked
  .ok { s with
    blockedThreads := s.blockedThreads.erase thread
    runnableThreads := s.runnableThreads ++ [thread] }

def stopRunningThread (s : Scheduler) (thread : Nat) : Scheduler :=
  if s.runningJobs.any (fun job => job.thread = thread) then
    { s with
      runningJobs := s.runningJobs.eraseP (fun job => job.thread = thread)
      runnableThreads := s.runnableThreads ++ [thread] }
  else s

def syncThreadTimeSlice (s : Scheduler) (thread : Nat) : Scheduler :=
  let threadTime := PreciseTime.zero.add (TimeDifference.fromNanoSeconds (s.threadAt thread).time.ns)
  { s with currentTime := s.currentTime.max threadTime }

/-! ## Blockers -/

/-- Whether the time limit of a blocker has passed, by timer 0. -/
def timedOut (s : Scheduler) : Option PreciseTime → Except Failure Bool
  | none => .ok false
  | some limit => do
    let timer ← demand (getTimer s.timers 0)
    .ok (timer.now.gt limit)

/-- `FutexBlocker::tryUnblock`, nothing when the thread stays blocked. -/
def tryUnblockFutex (ptr : Nat) (s : Scheduler) (blocker : FutexBlocker) : Except Failure (Option Scheduler) := do
  let timeout ← s.timedOut blocker.timeLimit
  if timeout then .ok (some (s.setRax blocker.thread (-ETIMEDOUT)))
  else if ptr ≠ blocker.wordPtr then .ok none
  else .ok (some (s.setRax blocker.thread 0))

def tryUnblockPoll (answers : FsAnswers) (s : Scheduler) (blocker : PollBlocker) : Except Failure (Option Scheduler) := do
  let answer := answers.poll blocker
  let timeout ← s.timedOut blocker.timeLimit
  if 0 < answer.nbEvents then
    .ok (some ({ s with memory := answer.store s.memory }.setRax blocker.thread answer.nbEvents))
  else if timeout then .ok (some (s.setRax blocker.thread 0))
  else .ok none

def tryUnblockSelect (answers : FsAnswers) (s : Scheduler) (blocker : SelectBlocker) :
    Except Failure (Option Scheduler) := do
  let answer := answers.select blocker
  let timeout ← s.timedOut blocker.timeLimit
  if answer.ret < 0 ∨ 0 < answer.nbEvents ∨ timeout then
    let ret : Int := if 0 ≤ answer.ret then answer.nbEvents else answer.ret
    .ok (some ({ s with memory := answer.store s.memory }.setRax blocker.thread ret))
  else .ok none

def tryUnblockEpollWait (answers : FsAnswers) (s : Scheduler) (blocker : EpollWaitBlocker) :
    Except Failure (Option Scheduler) := do
  let answer := answers.epollWait blocker
  let nbEvents := min blocker.maxevents answer.nbEvents
  let timeout ← s.timedOut blocker.timeLimit
  if 0 < nbEvents then
    .ok (some ({ s with memory := answer.store s.memory }.setRax blocker.thread nbEvents))
  else if timeout then .ok (some (s.setRax blocker.thread 0))
  else .ok none

def tryUnblockSleep (s : Scheduler) (blocker : SleepBlocker) : Except Failure (Option Scheduler) := do
  let timer ← demand (getTimer s.timers blocker.timer)
  if timer.now.lt blocker.targetTime then .ok none
  else .ok (some (s.setRax blocker.thread 0))

/-- `Process::tryGetChild` -/
def tryGetChild (s : Scheduler) (p : Nat) (pid : Int) : Option Nat :=
  (s.processAt p).children.find? (fun child => (s.processAt child).pid = pid)

/-- `Process::tryRetrieveExitedChild(pid)` -/
def tryRetrieveExitedChild (s : Scheduler) (p : Nat) (pid : Int) : Except Failure (Option (ExitedChild × Scheduler)) := do
  let child ← demand (s.tryGetChild p pid)
  match (s.processAt p).exitedChildren.find? (fun ec => ec.pid = pid) with
  | some ec =>
    .ok (some (ec, s.setProcess p (fun process => { process with
      children := process.children.filter (fun c => c ≠ child)
      exitedChildren := process.exitedChildren.eraseP (fun ec => ec.pid = pid) })))
  | none => .ok none

/-- `Process::tryRetrieveExitedChild()` -/
def tryRetrieveAnyExitedChild (s : Scheduler) (p : Nat) : Except Failure (Option (ExitedChild × Scheduler)) :=
  match (s.processAt p).exitedChildren with
  | [] => .ok none
  | ec :: exitedChildren => do
    let child ← demand (s.tryGetChild p ec.pid)
    .ok (some (ec, s.setProcess p (fun process => { process with
      children := process.children.filter (fun c => c ≠ child)
      exitedChildren := exitedChildren })))

/-- What `WaitBlocker` reports of an exited child. -/
def reportExitedChild (s : Scheduler) (blocker : WaitBlocker) (ec : ExitedChild) : Except Failure Scheduler := do
  let s := s.setRax blocker.thread ec.pid
  if blocker.wstatus = 0 then .ok s
  else
    let status := toRegister (ec.status * 256 + ec.signal.getD 0)
    let memory ← write32 s.memory (s.spaceOf blocker.thread) blocker.wstatus status
    .ok { s with memory := memory }

/-- The exited child a blocker waits for: the one of its pid, or any. -/
def retrieveFor (s : Scheduler) (blocker : WaitBlocker) : Except Failure (Option (ExitedChild × Scheduler)) :=
  if 0 < blocker.pid then s.tryRetrieveExitedChild (s.processOf blocker.thread) blocker.pid
  else s.tryRetrieveAnyExitedChild (s.processOf blocker.thread)

def tryUnblockWait (s : Scheduler) (blocker : WaitBlocker) : Except Failure (Option Scheduler) := do
  ensure (0 < blocker.pid ∨ blocker.pid = -1)
  match ← s.retrieveFor blocker with
  | none => .ok none
  | some (ec, s) => some <$> s.reportExitedChild blocker ec

def tryUnblockRead (answers : FsAnswers) (s : Scheduler) (blocker : ReadBlocker) : Except Failure (Option Scheduler) :=
  match answers.read blocker with
  | none => .ok none
  | some answer => .ok (some ({ s with memory := answer.store s.memory }.setRax blocker.thread answer.ret))

def tryUnblockVmRelease (s : Scheduler) (blocker : VmReleaseBlocker) : Except Failure (Option Scheduler) :=
  .ok (if s.addressSpaceRefCount (s.processOf blocker.thread) = 1 then some s else none)

/-! ## Unblocking -/

/-- The loop over one list of blockers: the threads that can go on become runnable, and the blockers of the others are kept. -/
def unblockLoop {β : Type} (thread : β → Nat) (tryUnblock : Scheduler → β → Except Failure (Option Scheduler)) :
    List β → Scheduler → Except Failure (List β × Scheduler)
  | [], s => .ok ([], s)
  | blocker :: l, s => do
    match ← tryUnblock s blocker with
    | none =>
      let (kept, s) ← unblockLoop thread tryUnblock l s
      .ok (blocker :: kept, s)
    | some s =>
      let s ← s.unblock (thread blocker) true
      unblockLoop thread tryUnblock l s

/-- A list of blockers of the scheduler: where it is kept, and the thread that a blocker of it refers to. -/
structure BlockerList (β : Type) where
  get : Scheduler → List β
  set : Scheduler → List β → Scheduler
  thread : β → Nat

/-- One of the eight parts of `tryUnblockThreads`, with whether it unblocked a thread. -/
def unblockList {β : Type} (blockers : BlockerList β) (tryUnblock : Scheduler → β → Except Failure (Option Scheduler))
    (s : Scheduler) : Except Failure (Bool × Scheduler) := do
  let (kept, s') ← unblockLoop blockers.thread tryUnblock (blockers.get s) s
  .ok (decide (kept.length < (blockers.get s).length), blockers.set s' kept)

abbrev futexList : BlockerList FutexBlocker := ⟨(·.futexBlockers), fun s l => { s with futexBlockers := l }, (·.thread)⟩

abbrev pollList : BlockerList PollBlocker := ⟨(·.pollBlockers), fun s l => { s with pollBlockers := l }, (·.thread)⟩

abbrev selectList : BlockerList SelectBlocker := ⟨(·.selectBlockers), fun s l => { s with selectBlockers := l }, (·.thread)⟩

abbrev epollWaitList : BlockerList EpollWaitBlocker :=
  ⟨(·.epollWaitBlockers), fun s l => { s with epollWaitBlockers := l }, (·.thread)⟩

abbrev sleepList : BlockerList SleepBlocker := ⟨(·.sleepBlockers), fun s l => { s with sleepBlockers := l }, (·.thread)⟩

abbrev waitList : BlockerList WaitBlocker := ⟨(·.waitBlockers), fun s l => { s with waitBlockers := l }, (·.thread)⟩

abbrev readList : BlockerList ReadBlocker := ⟨(·.readBlockers), fun s l => { s with readBlockers := l }, (·.thread)⟩

abbrev vmReleaseList : BlockerList VmReleaseBlocker :=
  ⟨(·.vmReleaseBlockers), fun s l => { s with vmReleaseBlockers := l }, (·.thread)⟩

def updateTimers (s : Scheduler) : Scheduler := { s with timers := updateAllTimers s.timers s.currentTime }

/-- The parts of `tryUnblockThreads`, in order. The timers are updated once: the time does not change between two updates. -/
def unblockLists (answers : FsAnswers) : List (Scheduler → Except Failure (Bool × Scheduler)) :=
  [unblockList sleepList tryUnblockSleep, unblockList pollList (tryUnblockPoll answers),
    unblockList selectList (tryUnblockSelect answers), unblockList epollWaitList (tryUnblockEpollWait answers),
    unblockList futexList (tryUnblockFutex 0), unblockList waitList tryUnblockWait,
    unblockList readList (tryUnblockRead answers), unblockList vmReleaseList tryUnblockVmRelease]

def tryUnblockThreads (answers : FsAnswers) (s : Scheduler) : Except Failure (Bool × Scheduler) :=
  (unblockLists answers).foldlM
    (fun (acc : Bool × Scheduler) part => do
      let (didUnblock, s) ← part acc.2
      .ok (acc.1 || didUnblock, s))
    (false, s.updateTimers)

/-- The loop of `wake`, which stops once it has woken `nbWaiters` threads, but only looks after it has woken one. -/
def wakeLoop (wordPtr nbWaiters : Nat) : Nat → List FutexBlocker → Scheduler →
    Except Failure (Nat × List FutexBlocker × Scheduler)
  | nbWoken, [], s => .ok (nbWoken, [], s)
  | nbWoken, blocker :: l, s => do
    match ← s.tryUnblockFutex wordPtr blocker with
    | none =>
      let (nbWoken, kept, s) ← wakeLoop wordPtr nbWaiters nbWoken l s
      .ok (nbWoken, blocker :: kept, s)
    | some s =>
      let s ← s.unblock blocker.thread false
      if nbWaiters ≤ nbWoken + 1 then .ok (nbWoken + 1, l, s)
      else wakeLoop wordPtr nbWaiters (nbWoken + 1) l s

def wake (s : Scheduler) (wordPtr nbWaiters : Nat) : Except Failure (Nat × Scheduler) := do
  s.verifyInKernel
  let (nbWoken, kept, s) ← wakeLoop wordPtr nbWaiters 0 s.futexBlockers s
  .ok (nbWoken, { s with futexBlockers := kept })

/-! ## Terminating threads -/

def eraseBlockers (s : Scheduler) (thread : Nat) : Scheduler :=
  { s with
    futexBlockers := s.futexBlockers.filter (fun blocker => blocker.thread ≠ thread)
    pollBlockers := s.pollBlockers.filter (fun blocker => blocker.thread ≠ thread)
    selectBlockers := s.selectBlockers.filter (fun blocker => blocker.thread ≠ thread)
    epollWaitBlockers := s.epollWaitBlockers.filter (fun blocker => blocker.thread ≠ thread)
    sleepBlockers := s.sleepBlockers.filter (fun blocker => blocker.thread ≠ thread)
    waitBlockers := s.waitBlockers.filter (fun blocker => blocker.thread ≠ thread)
    readBlockers := s.readBlockers.filter (fun blocker => blocker.thread ≠ thread) }

def eraseThread (s : Scheduler) (thread : Nat) : Scheduler :=
  { s with
    runningJobs := s.runningJobs.filter (fun job => job.thread ≠ thread)
    runnableThreads := s.runnableThreads.filter (fun t => t ≠ thread)
    blockedThreads := s.blockedThreads.filter (fun t => t ≠ thread)
    threads := s.threads.filter (fun t => t ≠ thread) }

/-- The word a thread promised to clear is cleared, and a waiter on it woken. -/
def wakeClearChildTid (s : Scheduler) (thread : Nat) : Except Failure Scheduler := do
  let clearChildTid := (s.threadAt thread).clearChildTid
  if clearChildTid = 0 then .ok s
  else
    let memory ← write32 s.memory (s.spaceOf thread) clearChildTid 0
    let (_, s) ← { s with memory := memory }.wake clearChildTid 1
    .ok s

def terminate (s : Scheduler) (thread : Nat) (status : Int) : Except Failure Scheduler := do
  s.verifyInKernel
  let s := s.yieldThread thread
  let s := s.setThread thread (fun t => { t with exitStatus := status })
  let s ← (s.eraseBlockers thread).wakeClearChildTid thread
  .ok (s.eraseThread thread)

/-- The threads a loop of terminations goes through are chosen before it starts. -/
def terminateAll (s : Scheduler) (threads : List Nat) (status : Int) : Except Failure Scheduler :=
  threads.foldlM (fun s thread => s.terminate thread status) s

def threadsOfProcess (s : Scheduler) (process : Nat) : List Nat :=
  s.threads.filter (fun t => s.processOf t = process)

def terminateGroup (s : Scheduler) (process : Nat) (status : Int) : Except Failure Scheduler := do
  s.verifyInKernel
  s.terminateAll (s.threadsOfProcess process) status

def threadsNamed (s : Scheduler) (pid tid : Int) : List Nat :=
  s.threads.filter (fun t => (s.threadAt t).pid = pid && (s.threadAt t).tid = tid)

def kill (s : Scheduler) (pid tid : Int) : Except Failure Scheduler := s.terminateAll (s.threadsNamed pid tid) 516

/-! ## Blocking calls -/

/-- The end of every blocking call, once the blocker is in its list. -/
def blockAndYield (s : Scheduler) (thread : Nat) : Except Failure Scheduler := do
  let s ← s.block thread
  .ok (s.yieldThread thread)

def sleep (s : Scheduler) (thread : Nat) (timer : Int) (targetTime : PreciseTime) : Except Failure Scheduler := do
  s.verifyInKernel
  let blocker : SleepBlocker := ⟨thread, timer, targetTime⟩
  { s with sleepBlockers := s.sleepBlockers ++ [blocker] }.blockAndYield thread

/-- The time limit `FutexBlocker` reads, which is relative to the time of timer 0 or absolute. -/
def futexTimeLimit (s : Scheduler) (thread timeout : Nat) (absoluteTimeout : Bool) :
    Except Failure (Option PreciseTime) := do
  if timeout = 0 then .ok none
  else
    let timer ← demand (getTimer s.timers 0)
    let seconds ← read64 s.memory (s.spaceOf thread) timeout
    let nanoseconds ← read64 s.memory (s.spaceOf thread) (timeout + 8)
    .ok (some (if absoluteTimeout then ⟨seconds, nanoseconds⟩ else timer.now.add ⟨seconds, nanoseconds⟩))

/-- `wait` and `waitBitset` -/
def wait (s : Scheduler) (thread wordPtr expected timeout : Nat) (absoluteTimeout : Bool) : Except Failure Scheduler := do
  s.verifyInKernel
  let timeLimit ← s.futexTimeLimit thread timeout absoluteTimeout
  let blocker : FutexBlocker := ⟨thread, wordPtr, expected, timeLimit⟩
  { s with futexBlockers := s.futexBlockers ++ [blocker] }.blockAndYield thread

/-- The time limit of a poll or an epoll-wait, which creates timer 0 when it needs it. -/
def withTimeout (s : Scheduler) (timeoutInMs : Int) : Except Failure (Option PreciseTime × Scheduler) := do
  if 0 < timeoutInMs then
    let s := { s with timers := createTimer s.timers 0 }
    let timer ← demand (getTimer s.timers 0)
    .ok (some (timer.now.add (TimeDifference.fromNanoSeconds (timeoutInMs.toNat * 1000000))), s)
  else .ok (none, s)

def poll (s : Scheduler) (thread fds nfds : Nat) (timeout : Int) : Except Failure Scheduler := do
  s.verifyInKernel
  ensure (timeout ≠ 0)
  let (timeLimit, s) ← s.withTimeout timeout
  let blocker : PollBlocker := ⟨s.processOf thread, thread, fds, nfds, timeLimit⟩
  { s with pollBlockers := s.pollBlockers ++ [blocker] }.blockAndYield thread

/-- The time limit of a select: `struct timeval` counts microseconds. -/
def selectTimeLimit (s : Scheduler) (thread timeout : Nat) : Except Failure (Option PreciseTime × Scheduler) := do
  let s := { s with timers := createTimer s.timers 0 }
  let timer ← demand (getTimer s.timers 0)
  if timeout = 0 then .ok (none, s)
  else
    let seconds ← read64 s.memory (s.spaceOf thread) timeout
    let microseconds ← read64 s.memory (s.spaceOf thread) (timeout + 8)
    .ok (some (timer.now.add ⟨seconds, u64 (microseconds * 1000)⟩), s)

def select (s : Scheduler) (thread : Nat) (nfds : Int) (readfds writefds exceptfds timeout : Nat) :
    Except Failure Scheduler := do
  s.verifyInKernel
  let (timeLimit, s) ← s.selectTimeLimit thread timeout
  let blocker : SelectBlocker := ⟨s.processOf thread, thread, nfds, readfds, writefds, exceptfds, timeLimit⟩
  { s with selectBlockers := s.selectBlockers ++ [blocker] }.blockAndYield thread

def epollWait (s : Scheduler) (thread : Nat) (epfd : Int) (events maxevents : Nat) (timeout : Int) :
    Except Failure Scheduler := do
  s.verifyInKernel
  let (timeLimit, s) ← s.withTimeout timeout
  let blocker : EpollWaitBlocker := ⟨s.processOf thread, thread, epfd, events, maxevents, timeLimit⟩
  { s with epollWaitBlockers := s.epollWaitBlockers ++ [blocker] }.blockAndYield thread

def wait4 (s : Scheduler) (thread : Nat) (pid : Int) (wstatus : Nat) : Except Failure Scheduler := do
  s.verifyInKernel
  let blocker : WaitBlocker := ⟨thread, pid, wstatus⟩
  { s with waitBlockers := s.waitBlockers ++ [blocker] }.blockAndYield thread

def blockingRead (s : Scheduler) (thread : Nat) (fd : Int) (buf count : Nat) : Except Failure Scheduler := do
  s.verifyInKernel
  let blocker : ReadBlocker := ⟨thread, fd, buf, count⟩
  { s with readBlockers := s.readBlockers ++ [blocker] }.blockAndYield thread

def suspendUntilVmReleased (s : Scheduler) (thread : Nat) : Except Failure Scheduler := do
  s.verifyInKernel
  let blocker : VmReleaseBlocker := ⟨thread⟩
  { s with vmReleaseBlockers := s.vmReleaseBlockers ++ [blocker] }.blockAndYield thread

/-! ## Waking through an operation on a second word -/

/-- What the fourth argument of a wake-op encodes. -/
structure FutexOp where
  op : Nat
  cmp : Nat
  oparg : Nat
  cmparg : Nat
deriving DecidableEq, Repr

/-- A shifted argument is shifted as the processor shifts an `int`, by the low five bits of the count. -/
def futexOp (val3 : UInt32) : FutexOp :=
  let op := val3.toNat / 2 ^ 28
  let oparg := val3.toNat / 2 ^ 12 % 2 ^ 12
  { op := op % 8
    cmp := val3.toNat / 2 ^ 24 % 16
    oparg := if 8 ≤ op then 2 ^ (oparg % 32) % 2 ^ 16 else oparg
    cmparg := val3.toNat % 2 ^ 12 }

/-- The new value of the second word, for an operation that is defined. -/
def FutexOp.apply (futexOp : FutexOp) (oldval : Nat) : Except Failure Nat :=
  match futexOp.op with
  | 0 => .ok futexOp.oparg
  | 1 => .ok ((oldval + futexOp.oparg) % 2 ^ 32)
  | 2 => .ok (oldval ||| futexOp.oparg)
  | 3 => .ok (oldval &&& (2 ^ 32 - 1 - futexOp.oparg))
  | 4 => .ok (oldval ^^^ futexOp.oparg)
  | _ => .error .verification

/-- Whether the old value of the second word asks for its waiters to be woken, for a comparison that is defined. -/
def FutexOp.compare (futexOp : FutexOp) (oldval : Nat) : Except Failure Bool :=
  match futexOp.cmp with
  | 0 => .ok (decide (oldval = futexOp.cmparg))
  | 1 => .ok (decide (oldval ≠ futexOp.cmparg))
  | 2 => .ok (decide (oldval < futexOp.cmparg))
  | 3 => .ok (decide (oldval ≤ futexOp.cmparg))
  | 4 => .ok (decide (futexOp.cmparg < oldval))
  | 5 => .ok (decide (futexOp.cmparg ≤ oldval))
  | _ => .error .verification

def wakeOp (s : Scheduler) (thread uaddr : Nat) (val : UInt32) (uaddr2 : Nat) (val2 val3 : UInt32) :
    Except Failure (Nat × Scheduler) := do
  s.verifyInKernel
  let oldval ← read32 s.memory (s.spaceOf thread) uaddr2
  let newval ← (futexOp val3).apply oldval
  let memory ← write32 s.memory (s.spaceOf thread) uaddr2 newval
  let (nbWoken, s) ← { s with memory := memory }.wake uaddr val.toNat
  let cmp ← (futexOp val3).compare oldval
  if cmp then
    let (nbWoken2, s) ← s.wake uaddr2 val2.toNat
    .ok ((nbWoken + nbWoken2) % 2 ^ 32, s)
  else .ok (nbWoken, s)

/-! ## Picking a job -/

def requestsSyscall (s : Scheduler) (t : Nat) : Bool := (s.threadAt t).requestsSyscall

def requestsAtomic (s : Scheduler) (t : Nat) : Bool := (s.threadAt t).requestsAtomic

def allThreadsDead (s : Scheduler) : Bool :=
  s.runningJobs.isEmpty && s.runnableThreads.isEmpty && s.blockedThreads.isEmpty

def allThreadsBlocked (s : Scheduler) : Bool := s.runningJobs.isEmpty && s.runnableThreads.isEmpty

end Scheduler

namespace Job

def isUserspaceJob (job : Job) : Bool := job.ring = .USERSPACE && !job.atomic

def isAtomicJob (job : Job) : Bool := job.ring = .USERSPACE && job.atomic

def isKernelJob (job : Job) : Bool := job.ring = .KERNEL

end Job

namespace Scheduler

def isUserspaceThread (s : Scheduler) (t : Nat) : Bool := !s.requestsSyscall t && !s.requestsAtomic t

def isAtomicThread (s : Scheduler) (t : Nat) : Bool := !s.requestsSyscall t && s.requestsAtomic t

def isKernelThread (s : Scheduler) (t : Nat) : Bool := s.requestsSyscall t

def hasRunnableThread (s : Scheduler) (canRunSyscalls canRunAtomics : Bool) : Bool :=
  let nbUserspaceRunning := s.runningJobs.countP Job.isUserspaceJob
  let nbAtomicRunning := s.runningJobs.countP Job.isAtomicJob
  let nbKernelRunning := s.runningJobs.countP Job.isKernelJob
  let nbUserspaceRunnable := s.runnableThreads.countP s.isUserspaceThread
  let nbAtomicRunnable := s.runnableThreads.countP s.isAtomicThread
  let nbKernelRunnable := s.runnableThreads.countP s.isKernelThread
  if canRunSyscalls && decide (0 < nbKernelRunnable) then decide (nbUserspaceRunning + nbAtomicRunning = 0)
  else if canRunAtomics && (decide (0 < nbKernelRunning) || decide (0 < nbKernelRunnable)) then false
  else if canRunAtomics && decide (0 < nbAtomicRunnable) then decide (nbUserspaceRunning + nbKernelRunning = 0)
  else if 0 < nbKernelRunning + nbKernelRunnable + nbAtomicRunning + nbAtomicRunnable then false
  else decide (0 < nbUserspaceRunnable)

/-- All threads are blocked, each on a futex without a time limit. -/
def deadlock (s : Scheduler) : Bool :=
  s.runningJobs.isEmpty && s.runnableThreads.isEmpty && !s.blockedThreads.isEmpty &&
    s.blockedThreads.all (fun t => s.futexBlockers.any (fun blocker => blocker.thread = t && blocker.timeLimit.isNone))

/-- A system call first, when the worker may run one; then a thread that wants to run alone; then any other. -/
def findThreadToRun (s : Scheduler) (canRunSyscalls : Bool) : Option Nat :=
  ((if canRunSyscalls then s.runnableThreads.find? s.isKernelThread else none).or
    (s.runnableThreads.find? s.isAtomicThread)).or (s.runnableThreads.find? s.isUserspaceThread)

def needsToWaitForNewThreads (s : Scheduler) : Bool :=
  !s.sleepBlockers.isEmpty || s.pollBlockers.any (·.timeLimit.isSome) || s.selectBlockers.any (·.timeLimit.isSome) ||
    s.epollWaitBlockers.any (·.timeLimit.isSome) || s.futexBlockers.any (·.timeLimit.isSome)

/-- One millisecond later. -/
def advanceTime (s : Scheduler) : Scheduler :=
  { s with currentTime := s.currentTime.max (s.currentTime.add (TimeDifference.fromNanoSeconds 1000000)) }

inductive JobOrCommand where
  | RUN (job : Job)
  | AGAIN
  | WAIT
  | EXIT
  | ABORT
deriving DecidableEq, Repr

def jobOf (s : Scheduler) (t : Nat) : Job :=
  ⟨t, if s.requestsSyscall t then .KERNEL else .USERSPACE, s.requestsAtomic t⟩

def startJob (s : Scheduler) (job : Job) : Scheduler :=
  { s with
    runnableThreads := s.runnableThreads.erase job.thread
    runningJobs := s.runningJobs ++ [job] }

/-- What a worker waits for before it looks for a job. -/
def canTryPickNext (s : Scheduler) (canRunSyscalls canRunAtomics : Bool) : Bool :=
  s.hasPanicked || s.hasRunnableThread canRunSyscalls canRunAtomics || s.allThreadsDead || s.allThreadsBlocked

/-- `tryPickNext`, once the wait for `canTryPickNext` is over. -/
def tryPickNext (answers : FsAnswers) (s : Scheduler) (canRunSyscalls : Bool) :
    Except Failure (JobOrCommand × Scheduler) := do
  if s.hasPanicked then .ok (.ABORT, s)
  else
    let (didUnblock, s) ← s.tryUnblockThreads answers
    if didUnblock then .ok (.AGAIN, s)
    else
      ensure (s.deadlock = false)
      if s.allThreadsDead then .ok (.EXIT, s)
      else
        match s.findThreadToRun canRunSyscalls with
        | none => .ok (.WAIT, if s.needsToWaitForNewThreads then s.advanceTime else s)
        | some thread => .ok (.RUN (s.jobOf thread), s.startJob (s.jobOf thread))

end Scheduler

end X64Emulator
