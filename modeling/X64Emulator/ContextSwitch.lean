import X64Emulator.CpuImpl
import X64Emulator.Workers

/-!
# Context switches

Each worker that runs a userspace job has a virtual machine with a CPU of its own; the JIT of a process, and with it the call
stack, is shared by the threads of that process. What is kept of a thread while it does not execute, and how it gets into a
virtual machine and out of it. What a basic block makes of the state it runs on is an input, and so is what a system call makes
of the registers of its thread, beside the result in RAX.
-/

namespace X64Emulator

open Outcome

/-- The general registers, RIP among them, and the registers of the MMX and SSE instructions. -/
structure Registers where
  gpr : Fin 18 → BitVec 64
  mmx : Fin 8 → BitVec 64
  xmm : Fin 16 → BitVec 128

def Registers.setRax (regs : Registers) (value : BitVec 64) : Registers :=
  { regs with gpr := fun i => if i = 0 then value else regs.gpr i }

/-- The stack of the x87 unit, with its control, status and tag words. -/
structure X87Fpu where
  stack : Fin 8 → BitVec 80
  control : BitVec 16
  status : BitVec 16
  tag : BitVec 16

inductive SimdRounding where
  | NEAREST
  | DOWN
  | UP
  | ZERO
deriving DecidableEq, Repr

/-- `Cpu::State` -/
structure CpuState where
  flags : Flags
  regs : Registers
  x87fpu : X87Fpu
  mxcsr : SimdRounding
  segmentBase : Fin 8 → BitVec 64

/-- The index of `Segment::FS`. -/
def SEGMENT_FS : Fin 8 := 3

structure SavedCpuState where
  flags : Flags
  regs : Registers
  x87fpu : X87Fpu
  mxcsr : SimdRounding
  fsBase : BitVec 64

/-- What a thread keeps while it does not execute: the state of the CPU, and the entries of the JIT's call stack. -/
structure SavedState where
  cpu : SavedCpuState
  callstack : List (Option Nat)

namespace CpuState

/-- `Cpu::State {}` -/
def initial : CpuState where
  flags := ⟨false, false, false, false, false, true, false⟩
  regs := ⟨fun _ => 0, fun _ => 0, fun _ => 0⟩
  x87fpu := ⟨fun _ => 0, 0x37f, 0, 0xffff⟩
  mxcsr := .NEAREST
  segmentBase _ := 0

/-- The part of the state that a thread keeps. -/
def saved (cpu : CpuState) : SavedCpuState := ⟨cpu.flags, cpu.regs, cpu.x87fpu, cpu.mxcsr, cpu.segmentBase SEGMENT_FS⟩

/-- The state with the part that a thread keeps replaced. -/
def install (cpu : CpuState) (saved : SavedCpuState) : CpuState where
  flags := saved.flags
  regs := saved.regs
  x87fpu := saved.x87fpu
  mxcsr := saved.mxcsr
  segmentBase := fun i => if i = SEGMENT_FS then saved.fsBase else cpu.segmentBase i

@[simp] theorem saved_install (cpu : CpuState) (saved : SavedCpuState) : (cpu.install saved).saved = saved := rfl

end CpuState

/-- The virtual machine of a worker. -/
structure WorkerVm where
  cpu : CpuState
  currentThread : Option Nat

namespace WorkerVm

def new : WorkerVm := ⟨.initial, none⟩

end WorkerVm

/-- The number of entries of `callstack_`, and of a saved call stack. -/
def CALLSTACK_SIZE : Nat := 0x1000

/-- The emulator: its system, the virtual machines of the workers, what the threads keep, and the call stacks of the JITs, where
a process has one. Beside them stands what each thread has made of its own state, by the blocks it has executed and the calls it
has made. -/
structure Emulator where
  system : System
  vms : Nat → WorkerVm
  saved : Nat → SavedState
  jits : Nat → Option (List (Option Nat))
  own : Nat → SavedState

namespace Emulator

def processOf (e : Emulator) (thread : Nat) : Nat := e.system.scheduler.processOf thread

def setVm (e : Emulator) (worker : Nat) (vm : WorkerVm) : Emulator :=
  { e with vms := fun w => if w = worker then vm else e.vms w }

def setSaved (e : Emulator) (thread : Nat) (state : SavedState) : Emulator :=
  { e with saved := fun t => if t = thread then state else e.saved t }

/-- The call stack of the process, if it has a JIT. -/
def setCallstack (e : Emulator) (process : Nat) (callstack : List (Option Nat)) : Emulator :=
  { e with jits := fun p => if p = process then (e.jits p).map fun _ => callstack else e.jits p }

/-- The state a thread executes on: the CPU of its worker and the call stack of its process. -/
def live (e : Emulator) (worker thread : Nat) : SavedState :=
  ⟨(e.vms worker).cpu.saved, (e.jits (e.processOf thread)).getD (e.saved thread).callstack⟩

/-- `VM::syncThread` -/
def syncThread (e : Emulator) (worker : Nat) : Except Failure Emulator :=
  match (e.vms worker).currentThread with
  | none => .ok e
  | some thread => do
    ensure (((e.jits (e.processOf thread)).getD []).length ≤ CALLSTACK_SIZE)
    .ok (e.setSaved thread (e.live worker thread))

/-- The state is put into the virtual machine for a thread, and its call stack into the JIT of the process. -/
def put (e : Emulator) (worker thread : Nat) (state : SavedState) : Emulator :=
  (e.setVm worker ⟨(e.vms worker).cpu.install state.cpu, some thread⟩).setCallstack (e.processOf thread) state.callstack

/-- A thread gets into the virtual machine. -/
def install (e : Emulator) (worker thread : Nat) : Except Failure Emulator := do
  ensure ((e.jits (e.processOf thread)).isSome → (e.saved thread).callstack.length < CALLSTACK_SIZE)
  .ok (e.put worker thread (e.saved thread))

/-- `VM::contextSwitch` -/
def contextSwitch (e : Emulator) (worker : Nat) (newThread : Option Nat) : Except Failure Emulator := do
  let e ← e.syncThread worker
  match newThread with
  | some thread => e.install worker thread
  | none => .ok (e.setVm worker .new)

/-- What a thread makes of its own state by a block: the call stack is none of its concern where there is no JIT. -/
def ownAfter (e : Emulator) (thread : Nat) (block : SavedState → SavedState) : SavedState :=
  let state := block (e.own thread)
  ⟨state.cpu, if (e.jits (e.processOf thread)).isSome then state.callstack else (e.own thread).callstack⟩

/-- A basic block runs on the state of a thread, in the interpreter or in compiled code. -/
def runBlock (e : Emulator) (worker thread : Nat) (block : SavedState → SavedState) : Emulator :=
  { e.put worker thread (block (e.live worker thread)) with
    own := fun t => if t = thread then e.ownAfter thread block else e.own t }

end Emulator

/-- What a system call makes of the registers of its thread, and the state a thread that it creates begins with. -/
structure CallEffects where
  current : SavedCpuState → SavedCpuState
  created : SavedState

/-- The result of a call, in RAX. -/
def SavedState.setRax (state : SavedState) (value : Nat) : SavedState :=
  { state with cpu := { state.cpu with regs := state.cpu.regs.setRax (BitVec.ofNat 64 value) } }

/-- The steps of the emulator: those of its workers, with the calls of `VM::execute` taken apart. -/
inductive EmulatorAction where
  /-- a step of a worker that executes no thread -/
  | worker (action : WorkerAction) (effects : CallEffects)
  /-- `VM::execute` begins -/
  | enter (worker : Nat)
  | runBlock (worker : Nat) (block : SavedState → SavedState)
  /-- `VM::execute` ends -/
  | leave (worker : Nat) (slice : Slice)

/-- The worker that takes a step. -/
def WorkerAction.worker : WorkerAction → Nat
  | .tryPickNext worker _ | .start worker _ | .execute worker _ | .syscall worker _ | .stop worker | .crash worker
  | .interrupt worker => worker

namespace Emulator

/-- The thread of the userspace or atomic job that a worker runs. -/
def threadOf (e : Emulator) (worker : Nat) : Option Nat :=
  match e.system.workers[worker]? with
  | some (.userspace job) | some (.atomic job) => some job.thread
  | _ => none

/-- The thread whose call a step makes, and whether the call replaces its program. -/
def caller (e : Emulator) : WorkerAction → Option (Nat × Bool)
  | .syscall worker call =>
    match e.system.workers[worker]? with
    | some (.kernel job false) =>
      some (job.thread, match call with
        | .execve (.ok _) => true
        | _ => false)
    | _ => none
  | _ => none

/-- What a step of a worker makes of the states of the threads: the caller gets what its call makes of it, a new thread its first
state, and a thread whose call had blocked it and is over the result. -/
def settle (before after : Scheduler) (current : Option Nat) (effects : CallEffects) (states : Nat → SavedState) (t : Nat) :
    SavedState :=
  if current = some t then
    SavedState.setRax { states t with cpu := effects.current (states t).cpu } (after.threadAt t).rax
  else if before.nbThreads ≤ t ∧ t < after.nbThreads then effects.created
  else if t ∈ before.blockedThreads ∧ t ∉ after.blockedThreads then (states t).setRax (after.threadAt t).rax
  else states t

/-- A new process has a JIT when its parent has one, with as many entries that are null, and a new program gets a new one. -/
def settleJits (before after : Scheduler) (caller : Option (Nat × Bool)) (jits : Nat → Option (List (Option Nat))) (p : Nat) :
    Option (List (Option Nat)) :=
  match caller with
  | none => jits p
  | some (thread, isExec) =>
    if before.nbProcesses ≤ p ∧ p < after.nbProcesses then (jits (before.processOf thread)).map fun callstack => callstack.map fun _ => none
    else if isExec ∧ p = before.processOf thread then (jits p).map fun _ => []
    else jits p

/-- The virtual machines after a step of a worker: that of a job that starts is new. -/
def renewVm (e : Emulator) : WorkerAction → Emulator
  | .start worker _ => e.setVm worker .new
  | _ => e

def exec (e : Emulator) : EmulatorAction → Except Failure Emulator
  | .worker action effects => do
    let system ← e.system.exec action
    let current := (e.caller action).map (·.1)
    .ok ({ e with
      system := system
      saved := settle e.system.scheduler system.scheduler current effects e.saved
      own := settle e.system.scheduler system.scheduler current effects e.own
      jits := settleJits e.system.scheduler system.scheduler (e.caller action) e.jits }.renewVm action)
  | .enter worker =>
    match e.threadOf worker with
    | some thread => e.contextSwitch worker (some thread)
    | none => .ok e
  | .runBlock worker block =>
    match (e.vms worker).currentThread with
    | some thread => .ok (e.runBlock worker thread block)
    | none => .ok e
  | .leave worker slice => do
    let e ← e.contextSwitch worker none
    let system ← e.system.exec (.execute worker slice)
    .ok { e with system := system }

/-- No thread is in the virtual machine of the worker. -/
def isOut (e : Emulator) (worker : Nat) : Bool := (e.vms worker).currentThread.isNone

/-- The end of a call of `VM::execute`, as far as it can be told before. -/
def anySlice : Slice := ⟨0, none, fun _ => none⟩

def enabled (e : Emulator) : EmulatorAction → Bool
  | .worker (.execute _ _) _ => false
  | .worker action _ => e.isOut action.worker && e.system.enabled action
  | .enter worker => e.isOut worker && e.system.enabled (.execute worker anySlice)
  | .runBlock worker _ | .leave worker _ => !e.isOut worker

/-- A step that is enabled and does not fail. -/
def step (e : Emulator) (action : EmulatorAction) : Option Emulator :=
  if e.enabled action then (e.exec action).toOption else none

/-- The main process, with or without a JIT, and its first thread with the registers that its program begins with. -/
def initial (nbCores : Nat) (hostPid : Int) (memory : GuestMemory) (hasJit : Bool) (cpu : SavedCpuState) : Emulator where
  system := .initial nbCores hostPid memory
  vms _ := .new
  saved _ := ⟨cpu, []⟩
  jits := fun p => if p = 0 ∧ hasJit then some [] else none
  own _ := ⟨cpu, []⟩

/-- The emulator with any number of workers, running any program. -/
def machine : Machine Emulator EmulatorAction where
  init e := ∃ nbCores hostPid memory hasJit cpu, e = initial nbCores hostPid memory hasJit cpu
  step := step

end Emulator

end X64Emulator
