import X64Emulator.Lib.Machine
import X64Emulator.Syscalls

/-!
# Worker threads

Any number of workers share the scheduler. Each looks for a job, runs it and stops it; worker 0 alone may run system calls and
atomic jobs. A step is what a worker does in one hold of the scheduler's lock, or between two holds when it needs none: other
workers may take steps between any two steps of one. A worker that runs a kernel or an atomic job keeps the lock while it does.
The clock alone is also read without the lock: `runUserspace` loads its two words while other workers may write them.
-/

namespace X64Emulator

open Outcome

inductive WorkerState where
  /-- about to look for a job -/
  | idle
  /-- a job was picked, and the lock released -/
  | picked (job : Job)
  /-- in the loop of `runUserspace` -/
  | userspace (job : Job)
  /-- in the loop of `runUserspaceAtomic`, with the lock -/
  | atomic (job : Job)
  /-- in `runKernel`, with the lock, before or after the call -/
  | kernel (job : Job) (isDone : Bool)
  | exited
deriving DecidableEq, Repr

namespace WorkerState

def holdsLock : WorkerState → Bool
  | .atomic _ => true
  | .kernel _ _ => true
  | _ => false

/-- The worker is counted in `numRunningJobs_`. -/
def isRunning : WorkerState → Bool
  | .userspace _ => true
  | .atomic _ => true
  | .kernel _ _ => true
  | _ => false

end WorkerState

structure System where
  scheduler : Scheduler
  workers : List WorkerState

/-- What a thread asks for at the end of a run of instructions, if anything. -/
inductive Request where
  | enterSyscall
  | enterAtomic
deriving DecidableEq, Repr

/-- A run of instructions of a thread: its length, what it asks for, and the memory of its address space afterwards. -/
structure Slice where
  ticks : Nat
  request : Option Request
  memory : Nat → Option UInt8

inductive WorkerAction where
  | tryPickNext (worker : Nat) (answers : FsAnswers)
  /-- A userspace job begins with an unlocked read of the clock, which may be torn: the words that it gets where another worker
  writes the clock between the two loads. -/
  | start (worker : Nat) (torn : Option PreciseTime := none)
  | execute (worker : Nat) (slice : Slice)
  | syscall (worker : Nat) (call : Syscall)
  | stop (worker : Nat)
  /-- the instructions of a thread fail -/
  | crash (worker : Nat)
  /-- the emulator is interrupted -/
  | interrupt (worker : Nat)

namespace Scheduler

/-- `ThreadTime::setSlice` with the clock as it was read. -/
def setSlice (s : Scheduler) (clock : PreciseTime) (thread sliceDuration : Nat) : Except Failure Scheduler := do
  let time ← demand ((s.threadAt thread).time.setSlice clock.count sliceDuration)
  .ok (s.setThread thread (fun t => { t with time := time }))

def countJob (s : Scheduler) : Scheduler := { s with numRunningJobs := s.numRunningJobs + 1 }

/-- The guards of `runUserspace` and `runUserspaceAtomic`. -/
def endUserspace (s : Scheduler) (thread : Nat) : Scheduler :=
  let s := (s.stopRunningThread thread).syncThreadTimeSlice thread
  { s with numRunningJobs := s.numRunningJobs - 1 }

/-- The guard of `runKernel`. -/
def endKernel (s : Scheduler) (thread : Nat) : Scheduler :=
  let s := s.stopRunningThread thread
  { s with inKernel := false, numRunningJobs := s.numRunningJobs - 1 }

def beginUserspace (s : Scheduler) (torn : Option PreciseTime) (thread : Nat) : Except Failure Scheduler :=
  s.countJob.setSlice (torn.getD s.currentTime) thread DEFAULT_TIME_SLICE

def beginAtomic (s : Scheduler) (thread : Nat) : Except Failure Scheduler := do
  check (s.numRunningJobs = 0) .jobsRunning
  s.countJob.setSlice s.currentTime thread ATOMIC_TIME_SLICE

def beginKernel (s : Scheduler) : Except Failure Scheduler := do
  check (s.numRunningJobs = 0) .jobsRunning
  .ok ({ s.countJob with inKernel := true }.updateTimers)

/-- The turn of a run loop. -/
def runSlice (s : Scheduler) (thread : Nat) (slice : Slice) : Scheduler :=
  let s := s.syncThreadTimeSlice thread
  let s := { s with memory := fun sp => if sp = s.spaceOf thread then slice.memory else s.memory sp }
  s.setThread thread (fun t =>
    let t := { t with time := t.time.tick slice.ticks }
    match slice.request with
    | none => t
    | some .enterSyscall => { t with time := t.time.yield, requestsSyscall := true }
    | some .enterAtomic => { t with time := t.time.yield, requestsAtomic := true })

def isStopAsked (s : Scheduler) (thread : Nat) : Bool := (s.threadAt thread).time.isStopAsked

def resetAtomicRequest (s : Scheduler) (thread : Nat) : Scheduler :=
  s.setThread thread (fun t => { t with requestsAtomic := false })

end Scheduler

namespace System

def canRunSyscalls (worker : Nat) : Bool := worker = 0

def canRunAtomic (worker : Nat) : Bool := worker = 0

/-- No worker has the scheduler's lock. -/
def lockIsFree (sys : System) : Bool := sys.workers.all (fun w => !w.holdsLock)

def setWorker (sys : System) (worker : Nat) (state : WorkerState) (scheduler : Scheduler) : System :=
  { scheduler := scheduler, workers := sys.workers.set worker state }

/-- The job that a command gives a worker, or that it looks again or leaves. -/
def afterPick : Scheduler.JobOrCommand → WorkerState
  | .RUN job => .picked job
  | .AGAIN => .idle
  | .WAIT => .idle
  | .EXIT => .exited
  | .ABORT => .exited

/-- The steps a worker can take in a state. -/
def enabled (sys : System) : WorkerAction → Bool
  | .tryPickNext worker _ =>
    sys.workers[worker]? = some .idle && sys.lockIsFree &&
      sys.scheduler.canTryPickNext (canRunSyscalls worker) (canRunAtomic worker)
  | .start worker _ =>
    match sys.workers[worker]? with
    | some (.picked job) => job.isUserspaceJob || sys.lockIsFree
    | _ => false
  | .execute worker _ =>
    match sys.workers[worker]? with
    | some (.userspace job) => sys.lockIsFree && !sys.scheduler.isStopAsked job.thread
    | some (.atomic job) => !sys.scheduler.isStopAsked job.thread
    | _ => false
  | .syscall worker _ =>
    match sys.workers[worker]? with
    | some (.kernel _ false) => true
    | _ => false
  | .stop worker =>
    match sys.workers[worker]? with
    | some (.userspace job) => sys.lockIsFree && sys.scheduler.isStopAsked job.thread
    | some (.atomic job) => sys.scheduler.isStopAsked job.thread
    | some (.kernel _ true) => true
    | _ => false
  | .crash worker =>
    match sys.workers[worker]? with
    | some (.userspace _) => sys.lockIsFree
    | some (.atomic _) => true
    | _ => false
  | .interrupt worker => sys.workers[worker]? = some .idle

/-- A worker begins the job it picked. -/
def startJob (sys : System) (worker : Nat) (torn : Option PreciseTime) (job : Job) : Except Failure System :=
  if job.isKernelJob then do
    let s ← sys.scheduler.beginKernel
    .ok (sys.setWorker worker (.kernel job false) s)
  else if job.isUserspaceJob then do
    let s ← sys.scheduler.beginUserspace torn job.thread
    .ok (sys.setWorker worker (.userspace job) s)
  else do
    let s ← sys.scheduler.beginAtomic job.thread
    .ok (sys.setWorker worker (.atomic job) s)

/-- What a step does, or why it fails. -/
def exec (sys : System) : WorkerAction → Except Failure System
  | .tryPickNext worker answers => do
    let (command, s) ← sys.scheduler.tryPickNext answers (canRunSyscalls worker)
    .ok (sys.setWorker worker (afterPick command) s)
  | .start worker torn =>
    match sys.workers[worker]? with
    | some (.picked job) => sys.startJob worker torn job
    | _ => .ok sys
  | .execute worker slice =>
    match sys.workers[worker]? with
    | some (.userspace job) => .ok { sys with scheduler := sys.scheduler.runSlice job.thread slice }
    | some (.atomic job) => .ok { sys with scheduler := sys.scheduler.runSlice job.thread slice }
    | _ => .ok sys
  | .syscall worker call =>
    match sys.workers[worker]? with
    | some (.kernel job false) => do
      let s ← sys.scheduler.syscall job.thread call
      .ok (sys.setWorker worker (.kernel job true) s)
    | _ => .ok sys
  | .stop worker =>
    match sys.workers[worker]? with
    | some (.userspace job) => .ok (sys.setWorker worker .idle (sys.scheduler.endUserspace job.thread))
    | some (.atomic job) =>
      .ok (sys.setWorker worker .idle ((sys.scheduler.resetAtomicRequest job.thread).endUserspace job.thread))
    | some (.kernel job true) => .ok (sys.setWorker worker .idle (sys.scheduler.endKernel job.thread))
    | _ => .ok sys
  | .crash worker =>
    match sys.workers[worker]? with
    | some (.userspace job) | some (.atomic job) =>
      .ok (sys.setWorker worker .exited { sys.scheduler.endUserspace job.thread with hasPanicked := true })
    | _ => .ok sys
  | .interrupt worker => .ok (sys.setWorker worker .exited { sys.scheduler with hasPanicked := true })

/-- A step that is enabled and does not fail. -/
def step (sys : System) (action : WorkerAction) : Option System :=
  if sys.enabled action then (sys.exec action).toOption else none

/-- The main process, with its first thread ready to run the program that was loaded. -/
def initial (nbCores : Nat) (hostPid : Int) (memory : GuestMemory) : System where
  workers := List.replicate nbCores .idle
  scheduler :=
    { threadAt := fun _ => { process := 0, pid := hostPid, tid := hostPid, time := ThreadTime.zero,
                             requestsSyscall := false, requestsAtomic := false, clearChildTid := 0, rax := 0,
                             exitStatus := -1 }
      nbThreads := 1
      processAt := fun _ => { pid := hostPid, addressSpace := 1, threads := [0], parent := none, children := [],
                              exitedChildren := [] }
      nbProcesses := 1
      nbAddressSpaces := 2
      lastUsedPid := hostPid
      lastUsedTid := hostPid
      memory := memory
      timers := []
      hasPanicked := false
      inKernel := false
      numRunningJobs := 0
      threads := [0]
      runningJobs := []
      runnableThreads := [0]
      blockedThreads := []
      futexBlockers := []
      pollBlockers := []
      selectBlockers := []
      epollWaitBlockers := []
      sleepBlockers := []
      waitBlockers := []
      readBlockers := []
      vmReleaseBlockers := []
      currentTime := PreciseTime.zero }

/-- The emulator with any number of workers, running any program. -/
def machine : Machine System WorkerAction where
  init sys := ∃ nbCores hostPid memory, sys = initial nbCores hostPid memory
  step := step

end System

end X64Emulator
