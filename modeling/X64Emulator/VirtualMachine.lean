import X64Emulator.CodeSegments
import X64Emulator.Timers

/-!
# The virtual machine of a process with a JIT

The loop of `VM::execute`, and what the native code of a compiled block does on its way to the next one. Of the guest only the
control flow is kept: which address each block goes on at is an input, and so are the instructions found at an address. The
threads of the process run one after another. The JIT's call stack is an array that its size does not protect: an access
outside of it fails.
-/

namespace X64Emulator

open Outcome

/-- Why a step of the virtual machine gives no result. -/
inductive VmFailure where
  | verification
  | link (e : LinkFailure)
  /-- an entry that is not in the array of the call stack was read or written -/
  | outOfBounds
deriving DecidableEq, Repr

/-! ## The call stack -/

/-- The entries of `callstack_`, compiled blocks or null, with `callstackSize_`. -/
structure Callstack where
  entries : Nat → Option Nat
  size : Nat

namespace Callstack

/-- The number of entries of `callstack_`, and of a saved call stack. -/
def CAPACITY : Nat := 0x1000

def empty : Callstack := ⟨fun _ => none, 0⟩

/-- The access to the entry at an index. -/
def access (i : Nat) : Except VmFailure Unit := check (i < CAPACITY) .outOfBounds

def set (cs : Callstack) (i : Nat) (entry : Option Nat) : Callstack :=
  { cs with entries := fun j => if j = i then entry else cs.entries j }

/-- `Jit::notifyCall`, without its assertion. -/
def notifyCall (cs : Callstack) : Except VmFailure Callstack := do
  access cs.size
  .ok { cs.set cs.size none with size := u64 (cs.size + 1) }

/-- `Jit::notifyRet`, without its assertion. It clears the entry after the last one. -/
@[irreducible] def notifyRet (cs : Callstack) : Except VmFailure Callstack := do
  access cs.size
  .ok { cs.set cs.size none with size := sub64 cs.size 1 }

/-- `Jit::nukeCallstack`, without its assertion. -/
def nukeCallstack (cs : Callstack) : Except VmFailure Callstack := do
  check (cs.size ≤ CAPACITY) .outOfBounds
  .ok { cs with entries := fun i => if i < cs.size then none else cs.entries i }

/-- `Jit::setCallstack` -/
def setCallstack (cs saved : Callstack) : Except VmFailure Callstack := do
  check (saved.size < CAPACITY) .verification
  .ok { entries := fun i => if i < saved.size then saved.entries i else cs.entries i, size := saved.size }

/-- The code of `pushCallstackCode`. -/
@[irreducible] def pushCallstack (cs : Callstack) (dst : Option Nat) : Except VmFailure Callstack := do
  let size := u64 (cs.size + 1)
  access (sub64 size 1)
  .ok { cs.set (sub64 size 1) dst with size := size }

/-- The code of `popCallstackCode`, with the entry it gives. -/
@[irreducible] def popCallstack (cs : Callstack) : Except VmFailure (Option Nat × Callstack) := do
  let size := sub64 cs.size 1
  access size
  .ok (cs.entries size, { cs.set size none with size := size })

end Callstack

/-! ## Guest code and native code -/

/-- How the last instruction of a basic block goes on. -/
inductive BranchKind where
  /-- a jump, conditional or not, to an address that the instruction names -/
  | fixedDestinationJump
  | directCall
  | indirectCall
  | indirectJump
  | ret
  /-- a system call, or another instruction that the compiler takes at no block's end -/
  | other
deriving DecidableEq, Repr

/-- The instructions of a basic block: where they are, how many there are, and how the last one goes on. -/
structure GuestBlock where
  start : Nat
  end_ : Nat
  nbInstructions : Nat
  branch : BranchKind
deriving DecidableEq, Repr

def GuestBlock.basicBlock (b : GuestBlock) : BasicBlock :=
  ⟨b.start, b.end_, b.branch = .fixedDestinationJump, b.branch = .directCall⟩

/-- The native code of a compiled block: the instructions it was compiled from, and the places left for patches. -/
structure NativeCode where
  block : GuestBlock
  native : NativeBasicBlock
deriving DecidableEq, Repr

/-- The block that a patched jump goes to. -/
def Patch.jump : Patch → Option Nat
  | .jumpTo block => some block
  | .pushCallstack _ => none

/-- The block whose entry point a patched call pushes. -/
def Patch.push : Patch → Option Nat
  | .jumpTo _ => none
  | .pushCallstack block => some block

/-- A thread of the process, as far as the virtual machine knows it. Beside the saved call stack stands what the guest did: the
return address that the call of each entry left on the guest's stack. -/
structure ThreadContext where
  time : ThreadTime
  rip : Nat
  savedJitState : Callstack
  returnAddress : Nat → Nat

/-- Where the virtual machine is. -/
inductive VmMode where
  /-- between two calls of `VM::execute` -/
  | idle
  /-- at the head of the loop, with `nextSegment` -/
  | loop (next : Nat)
  /-- about to interpret the block of a segment -/
  | interpreting (segment : Nat)
  /-- at the entry of the native code of a compiled block, with the instructions that native code has run since the loop's last
  look at the time, and what was left of the slice then -/
  | native (block sinceCheck leftAtCheck : Nat)
  /-- a block has been executed, `currentSegment` among them the last -/
  | executed (segment : Nat)
deriving DecidableEq, Repr

/-- A process with its JIT and the virtual machine that runs its threads. -/
structure Vm where
  cache : CodeCache
  jitCallChainingEnabled : Bool
  /-- the instructions of a segment -/
  guestBlock : Nat → GuestBlock
  /-- the code of a compiled block -/
  nativeCode : Nat → NativeCode
  callstack : Callstack
  mode : VmMode
  /-- the thread that runs, or ran last -/
  threadId : Nat
  thread : ThreadContext
  /-- the threads as they were when they ran last -/
  parked : Nat → ThreadContext

namespace Vm

/-- The segment at the guest's address, made of the instructions found there when it is not there yet. -/
def fetchSegment (vm : Vm) (block : GuestBlock) : Nat × Vm :=
  let (segment, cache) := vm.cache.fetchSegment block.basicBlock
  (segment, { vm with
    cache := cache
    guestBlock := fun p => if vm.cache.segments.next ≤ p then block else vm.guestBlock p })

/-- The code of the blocks that were compiled since `before`, beside the code of those that were there. -/
def recordCode (vm : Vm) (before : CodeCache) (compiler : SegmentCompiler) : Vm :=
  { vm with nativeCode := fun t =>
      match before.blocks.get? t, vm.cache.blocks.get? t with
      | none, some b => ⟨vm.guestBlock b.currentBb, (compiler b.currentBb).getD ⟨none, none, none⟩⟩
      | _, _ => vm.nativeCode t }

/-- The shadow of a call on the JIT's call stack, beside the return address on the guest's. -/
def withCall (vm : Vm) (callstack : Callstack) (returnAddress : Nat) : Vm :=
  { vm with
    callstack := callstack
    thread := { vm.thread with
      returnAddress := fun i => if i = vm.callstack.size then returnAddress else vm.thread.returnAddress i } }

/-- The callbacks of the last instruction of an interpreted block. -/
def notifyBranch (vm : Vm) (block : GuestBlock) : Except VmFailure Vm :=
  match block.branch with
  | .directCall | .indirectCall => do
    let callstack ← vm.callstack.notifyCall
    .ok (vm.withCall callstack block.end_)
  | .ret => do
    let callstack ← vm.callstack.notifyRet
    .ok { vm with callstack := callstack }
  | _ => .ok vm

/-- The callback of an instruction that sets the stack pointer. -/
def notifyStackChange (vm : Vm) (isChanged : Bool) : Except VmFailure Vm :=
  if isChanged then do
    let callstack ← vm.callstack.nukeCallstack
    .ok { vm with callstack := callstack }
  else .ok vm

/-- What is written at a place of the native code of a block. -/
def patchAt (b : JitBasicBlock) (offset : Option Nat) : Option Patch :=
  (offset.bind fun o => b.executableMemory.find? (·.1 = o)).map (·.2)

/-- Where the jump at a place of the native code goes, if it was patched. -/
def jumpAt (b : JitBasicBlock) (offset : Option Nat) : Option Nat := (patchAt b offset).bind Patch.jump

/-- What the code at a place pushes on the call stack: null, until it is patched. -/
def pushAt (b : JitBasicBlock) (offset : Option Nat) : Option Nat := (patchAt b offset).bind Patch.push

/-- The compiled block that the native code finds in its table, by the first entry with the address. -/
def lookup (table : BlockLookupTable) (address : Nat) : Option Nat :=
  ((table.addresses.zip table.blocks).find? (·.1 = address)).bind (·.2)

/-- The push of the code of a call. -/
def pushReturn (vm : Vm) (code : NativeCode) (b : JitBasicBlock) : Except VmFailure Vm := do
  let callstack ← vm.callstack.pushCallstack (pushAt b (code.native.offsetOfReplaceableCallstackPush.map (·.1)))
  .ok (vm.withCall callstack code.block.end_)

/-- The end of the native code of a block: the compiled block it jumps to, none where it returns. -/
def nativeBranch (vm : Vm) (code : NativeCode) (b : JitBasicBlock) (isTaken : Bool) (rip : Nat) :
    Except VmFailure (Option Nat × Vm) :=
  match code.block.branch with
  | .fixedDestinationJump =>
    .ok (jumpAt b (if isTaken then code.native.offsetOfReplaceableJumpToConditionalBlock
      else code.native.offsetOfReplaceableJumpToContinuingBlock), vm)
  | .directCall => do
    let vm ← vm.pushReturn code b
    .ok (jumpAt b code.native.offsetOfReplaceableJumpToConditionalBlock, vm)
  | .indirectCall => do
    let vm ← vm.pushReturn code b
    .ok (lookup b.variableDestinationTable rip, vm)
  | .indirectJump => .ok (lookup b.variableDestinationTable rip, vm)
  | .ret => do
    let (target, callstack) ← vm.callstack.popCallstack
    .ok (target, { vm with callstack := callstack })
  | .other => .ok (none, vm)

def setTime (vm : Vm) (time : ThreadTime) : Vm := { vm with thread := { vm.thread with time := time } }

def setRip (vm : Vm) (rip : Nat) : Vm := { vm with thread := { vm.thread with rip := rip } }

/-- `contextSwitch(nullptr)` at the end of `VM::execute`. -/
def leave (vm : Vm) : Except VmFailure Vm := do
  check (vm.callstack.size ≤ Callstack.CAPACITY) .verification
  .ok { vm with
    mode := .idle
    thread := { vm.thread with savedJitState :=
      { entries := fun i => if i < vm.callstack.size then vm.callstack.entries i else vm.thread.savedJitState.entries i
        size := vm.callstack.size } } }

/-- The first half of a turn of the loop, up to the entry of a block. -/
def enter (vm : Vm) (next : Nat) (compiler : SegmentCompiler) (turns : Nat) : Except VmFailure Vm :=
  if vm.thread.time.isStopAsked then vm.leave
  else do
    let s ← (vm.cache.segment next).mapError .link
    check (s.start = vm.thread.rip) .verification
    let cache ← (CodeCache.process compiler turns [next] vm.cache).mapError .link
    let vm := { vm with cache := cache }.recordCode vm.cache compiler
    let s ← (vm.cache.segment next).mapError .link
    match s.jitBasicBlock with
    | some block =>
      .ok { vm with mode := .native block 0 (vm.thread.time.instructionLimit - vm.thread.time.nbInstructions) }
    | none => .ok { vm with cache := vm.cache.modify next (·.onCpuCall), mode := .interpreting next }

/-- The interpreter runs the block of a segment. -/
def interpret (vm : Vm) (segment : Nat) (isStackChanged entersSyscall : Bool) (rip : Nat) : Except VmFailure Vm := do
  let block := vm.guestBlock segment
  let vm ← vm.notifyStackChange isStackChanged
  let vm ← vm.notifyBranch block
  let time := if entersSyscall then vm.thread.time.yield else vm.thread.time
  .ok { (vm.setTime (time.tick block.nbInstructions)).setRip rip with mode := .executed segment }

/-- Native code runs a compiled block, and jumps to the next one or returns to the loop. -/
def runNative (vm : Vm) (block sinceCheck leftAtCheck : Nat) (isTaken : Bool) (rip : Nat) : Except VmFailure Vm :=
  match vm.cache.blocks.get? block with
  | none => .error .verification
  | some b => do
    let code := vm.nativeCode block
    let vm := (vm.setTime (vm.thread.time.tick code.block.nbInstructions)).setRip rip
    let (target, vm) ← vm.nativeBranch code b isTaken rip
    .ok { vm with mode :=
      match target with
      | some target => .native target (sinceCheck + code.block.nbInstructions) leftAtCheck
      | none => .executed b.currentBb }

/-- The segment that follows, which is recorded as a successor when it was not. -/
def findNextSegment (vm : Vm) (current : Nat) (block : GuestBlock) : Except VmFailure (Nat × Vm) := do
  let (found, cache) ← (vm.cache.findNext current vm.thread.rip).mapError .link
  match found with
  | some next => .ok (next, { vm with cache := cache })
  | none =>
    let (next, vm) := { vm with cache := cache }.fetchSegment block
    let cache ← (vm.cache.addSuccessor current next).mapError .link
    .ok (next, { vm with cache := cache })

/-- A segment that was just left is patched, when both it and the one that follows are compiled. -/
def patchJumps (vm : Vm) (current next : Nat) : Except VmFailure Vm := do
  let s ← (vm.cache.segment current).mapError .link
  let n ← (vm.cache.segment next).mapError .link
  if s.jitBasicBlock.isSome && s.cpuBasicBlock.endsWithFixedDestinationJump && n.jitBasicBlock.isSome &&
      vm.cache.jitChainingEnabled then do
    let cache ← (vm.cache.tryPatch current).mapError .link
    .ok { vm with cache := cache }
  else .ok vm

/-- The segment a call returns to is fetched, and recorded where calls are chained. -/
def patchReturn (vm : Vm) (current : Nat) (returnBlock : GuestBlock) : Except VmFailure Vm :=
  match (vm.guestBlock current).branch with
  | .directCall | .indirectCall => do
    let (returnSegment, vm) := vm.fetchSegment returnBlock
    if vm.jitCallChainingEnabled then do
      let cache ← (vm.cache.addReturn current returnSegment).mapError .link
      let cache ← (cache.tryPatch current).mapError .link
      .ok { vm with cache := cache }
    else .ok vm
  | _ => .ok vm

/-- The second half of a turn of the loop. -/
def finish (vm : Vm) (current : Nat) (block returnBlock : GuestBlock) : Except VmFailure Vm := do
  let (next, vm) ← vm.findNextSegment current block
  let vm ← vm.patchJumps current next
  let vm ← vm.patchReturn current returnBlock
  .ok { vm with mode := .loop next }

end Vm

/-- The steps of a process: in the loop of `VM::execute`, and between two calls of it. -/
inductive VmAction where
  /-- another thread gets its turn -/
  | switchThread (threadId : Nat)
  /-- the slice of the thread, in the scheduler -/
  | setSlice (current sliceDuration : Nat)
  /-- a region is destroyed or may not be executed any more -/
  | removeSegments (segments : List Nat)
  /-- `VM::execute` begins; `block` are the instructions at the thread's address -/
  | execute (block : GuestBlock)
  | enter (compiler : SegmentCompiler) (turns : Nat)
  | interpret (isStackChanged entersSyscall : Bool) (rip : Nat)
  | runNative (isTaken : Bool) (rip : Nat)
  /-- `block` are the instructions at the thread's address, `returnBlock` those after the call, if it was one -/
  | finish (block returnBlock : GuestBlock)

namespace Vm

def exec (vm : Vm) : VmAction → Except VmFailure Vm
  | .switchThread threadId =>
    let parked := fun t => if t = vm.threadId then vm.thread else vm.parked t
    .ok { vm with threadId := threadId, thread := parked threadId, parked := parked }
  | .setSlice current sliceDuration =>
    match vm.thread.time.setSlice current sliceDuration with
    | none => .error .verification
    | some time => .ok (vm.setTime time)
  | .removeSegments segments => do
    let cache ← (vm.cache.removeSegments segments).mapError .link
    .ok { vm with cache := cache }
  | .execute block => do
    let callstack ← vm.callstack.setCallstack vm.thread.savedJitState
    let (next, vm) := { vm with callstack := callstack }.fetchSegment block
    .ok { vm with mode := .loop next }
  | .enter compiler turns =>
    match vm.mode with
    | .loop next => vm.enter next compiler turns
    | _ => .ok vm
  | .interpret isStackChanged entersSyscall rip =>
    match vm.mode with
    | .interpreting segment => vm.interpret segment isStackChanged entersSyscall rip
    | _ => .ok vm
  | .runNative isTaken rip =>
    match vm.mode with
    | .native block sinceCheck leftAtCheck => vm.runNative block sinceCheck leftAtCheck isTaken rip
    | _ => .ok vm
  | .finish block returnBlock =>
    match vm.mode with
    | .executed current => vm.finish current block returnBlock
    | _ => .ok vm

/-- The steps that can be taken: the instructions given are those at the addresses where they are asked for. -/
def enabled (vm : Vm) : VmAction → Bool
  | .switchThread _ | .setSlice _ _ => vm.mode = .idle
  | .removeSegments segments => decide (vm.mode = .idle) && decide (vm.cache.enabled (.removeSegments segments))
  | .execute block => decide (vm.mode = .idle) && decide (block.start = vm.thread.rip)
  | .enter _ _ =>
    match vm.mode with
    | .loop _ => true
    | _ => false
  | .interpret _ _ _ =>
    match vm.mode with
    | .interpreting _ => true
    | _ => false
  | .runNative _ _ =>
    match vm.mode with
    | .native _ _ _ => true
    | _ => false
  | .finish block returnBlock =>
    match vm.mode with
    | .executed current =>
      decide (block.start = vm.thread.rip) && decide (returnBlock.start = (vm.guestBlock current).end_)
    | _ => false

/-- A step that is enabled and does not fail. -/
def step (vm : Vm) (action : VmAction) : Option Vm := if vm.enabled action then (vm.exec action).toOption else none

end Vm

/-- A call stack nothing was pushed on: that of a clone has a size already, but null entries only. -/
structure Callstack.IsNew (cs : Callstack) : Prop where
  size_le : cs.size ≤ CAPACITY
  null : ∀ i, cs.entries i = none

namespace Vm

/-- A process whose threads have executed nothing. -/
structure IsNew (vm : Vm) : Prop where
  cache : ∃ jitChainingEnabled, vm.cache = .initial jitChainingEnabled
  idle : vm.mode = .idle
  callstack : vm.callstack.IsNew
  thread : vm.thread.savedJitState.IsNew
  parked : ∀ t, (vm.parked t).savedJitState.IsNew

/-- A process with a JIT: its threads run any code, one after another and in any order. -/
def machine : Machine Vm VmAction where
  init := IsNew
  step := step

end Vm

end X64Emulator
