import X64Emulator.Lib.Heap
import X64Emulator.Lib.Machine
import X64Emulator.Lib.Outcome

/-!
# Code segments and the links between them

A process keeps a segment for each basic block it has executed. Segments remember which segments follow them, and the native
code of a compiled segment is patched to jump to the native code of another. Segments and compiled blocks are objects: a link
is a pointer, and an operation that follows a pointer to a segment that is not there any more has failed. What the compiler
makes of a segment is an input: of the native code only the places that are replaced later are kept, with what is written there.
-/

namespace X64Emulator

open Outcome

/-- Why an operation on segments gives no result. -/
inductive LinkFailure where
  | verification
  /-- a pointer to a segment that does not exist any more was followed -/
  | dangling
  /-- the compilation queue was not empty after the turns it was given -/
  | unfinished
deriving DecidableEq, Repr

/-- An unordered map from addresses to segments. -/
structure AddressMap where
  entries : List (Nat × Nat)
deriving DecidableEq, Repr

namespace AddressMap

def empty : AddressMap := ⟨[]⟩

def find (m : AddressMap) (address : Nat) : Option Nat := (m.entries.find? (·.1 = address)).map (·.2)

/-- An address that is in the map already keeps its segment. -/
def insert (m : AddressMap) (address segment : Nat) : AddressMap :=
  if (m.find address).isSome then m else ⟨(address, segment) :: m.entries⟩

def erase (m : AddressMap) (address : Nat) : AddressMap := ⟨m.entries.filter (·.1 ≠ address)⟩

/-- The segments of the map. -/
def targets (m : AddressMap) : List Nat := m.entries.map (·.2)

end AddressMap

/-- A basic block: the address of its first instruction, the one after its last instruction, and how it ends. -/
structure BasicBlock where
  start : Nat
  end_ : Nat
  endsWithFixedDestinationJump : Bool
  endsWithDirectCall : Bool
deriving DecidableEq, Repr

/-- One of the slots of a `FixedDestinationInfo`. -/
structure FixedDestination where
  next : Option Nat
  nextCount : Nat
deriving DecidableEq, Repr

/-- One of the destinations of a `VariableDestinationInfo`. -/
structure VariableDestination where
  next : Nat
  nextJit : Option Nat
  nextStart : Nat
  nextCount : Nat
deriving DecidableEq, Repr

/-- The table in which the native code of a block looks its destinations up. -/
structure BlockLookupTable where
  size : Nat
  addresses : List Nat
  blocks : List (Option Nat)
  hitCounts : List Nat
deriving DecidableEq, Repr

structure CodeSegment where
  cpuBasicBlock : BasicBlock
  jitBasicBlock : Option Nat
  fixedDestinationInfo : List FixedDestination
  variableDestinationInfo : List VariableDestination
  /-- `returnDestinationInfo_` -/
  ret : Option Nat
  compilationAttempted : Bool
  calls : Nat
  callsForCompilation : Nat
  successors : AddressMap
  predecessors : AddressMap
  callPredecessors : AddressMap
deriving DecidableEq, Repr

/-- What is written over a place of native code that was left for it. -/
inductive Patch where
  | jumpTo (block : Nat)
  | pushCallstack (block : Nat)
deriving DecidableEq, Repr

/-- The compiled block whose entry point a patch holds. -/
def Patch.target : Patch → Nat
  | .jumpTo block => block
  | .pushCallstack block => block

/-- What a compilation gives: where the native code is to be replaced later. -/
structure NativeBasicBlock where
  offsetOfReplaceableJumpToContinuingBlock : Option Nat
  offsetOfReplaceableJumpToConditionalBlock : Option Nat
  offsetOfReplaceableCallstackPush : Option (Nat × Nat)
deriving DecidableEq, Repr

/-- A compiled block. Its native code names the segment it was compiled for, `currentBb`, and holds the patches made so far. -/
structure JitBasicBlock where
  currentBb : Nat
  executableMemory : List (Nat × Patch)
  variableDestinationTable : BlockLookupTable
  offsetOfReplaceableJumpToContinuingBlock : Option Nat
  offsetOfReplaceableJumpToConditionalBlock : Option Nat
  offsetOfCallstackPush : Option (Nat × Nat)
deriving DecidableEq, Repr

namespace JitBasicBlock

def create (native : NativeBasicBlock) (currentBb : Nat) : JitBasicBlock where
  currentBb := currentBb
  executableMemory := []
  variableDestinationTable := ⟨0, [], [], []⟩
  offsetOfReplaceableJumpToContinuingBlock := native.offsetOfReplaceableJumpToContinuingBlock
  offsetOfReplaceableJumpToConditionalBlock := native.offsetOfReplaceableJumpToConditionalBlock
  offsetOfCallstackPush := native.offsetOfReplaceableCallstackPush

def needsJumpPatching (b : JitBasicBlock) : Bool :=
  b.offsetOfReplaceableJumpToConditionalBlock.isSome || b.offsetOfReplaceableJumpToContinuingBlock.isSome

def needsCallPatching (b : JitBasicBlock) : Bool := b.offsetOfCallstackPush.isSome

def needsPatching (b : JitBasicBlock) : Bool := b.needsJumpPatching || b.needsCallPatching

def write (b : JitBasicBlock) (offset : Nat) (patch : Patch) : JitBasicBlock :=
  { b with executableMemory := (offset, patch) :: b.executableMemory.filter (·.1 ≠ offset) }

/-- `forAllPendingJumpPatches` with `tryPatchJump`, after the calls were patched. -/
def tryPatchJump (b : JitBasicBlock) (continuing : Bool) (next : Nat) : JitBasicBlock :=
  if b.needsCallPatching then b
  else if continuing then
    match b.offsetOfReplaceableJumpToContinuingBlock with
    | none => b
    | some offset => { b.write offset (.jumpTo next) with offsetOfReplaceableJumpToContinuingBlock := none }
  else
    match b.offsetOfReplaceableJumpToConditionalBlock with
    | none => b
    | some offset => { b.write offset (.jumpTo next) with offsetOfReplaceableJumpToConditionalBlock := none }

/-- `forAllPendingCallstackPatches` with `tryPatchPushCallstack`. -/
def tryPatchPushCallstack (b : JitBasicBlock) (next : Nat) : JitBasicBlock :=
  match b.offsetOfCallstackPush with
  | none => b
  | some (offset, _) => { b.write offset (.pushCallstack next) with offsetOfCallstackPush := none }

def syncBlockLookupTable (b : JitBasicBlock) (l : List VariableDestination) : JitBasicBlock :=
  { b with variableDestinationTable :=
      ⟨l.length, l.map (·.nextStart), l.map (·.nextJit), l.map (·.nextCount)⟩ }

end JitBasicBlock

namespace CodeSegment

def CACHE_SIZE : Nat := 2

def JIT_THRESHOLD : Nat := 1024

def create (cpuBasicBlock : BasicBlock) : CodeSegment where
  cpuBasicBlock := cpuBasicBlock
  jitBasicBlock := none
  fixedDestinationInfo := List.replicate CACHE_SIZE ⟨none, 0⟩
  variableDestinationInfo := []
  ret := none
  compilationAttempted := false
  calls := 0
  callsForCompilation := JIT_THRESHOLD
  successors := .empty
  predecessors := .empty
  callPredecessors := .empty

def start (s : CodeSegment) : Nat := s.cpuBasicBlock.start

def end_ (s : CodeSegment) : Nat := s.cpuBasicBlock.end_

def endsWithFixedDestinationJump (s : CodeSegment) : Bool :=
  s.cpuBasicBlock.endsWithFixedDestinationJump || s.cpuBasicBlock.endsWithDirectCall

/-- `FixedDestinationInfo::addSuccessor`: the first empty slot takes the segment. -/
def addFixed (other : Nat) : List FixedDestination → Except LinkFailure (List FixedDestination)
  | [] => .error .verification
  | slot :: slots =>
    match slot.next with
    | none => .ok (⟨some other, 1⟩ :: slots)
    | some _ => (slot :: ·) <$> addFixed other slots

/-- `FixedDestinationInfo::removeSuccessor` -/
def removeFixed (other : Nat) (slots : List FixedDestination) : List FixedDestination :=
  slots.map fun slot => if slot.next = some other then ⟨none, 0⟩ else slot

/-- `FixedDestinationInfo::findNext` has found its segment in a slot: that slot may change places with the one before. -/
def hit (i : Nat) (slots : List FixedDestination) : List FixedDestination :=
  let slots := slots.modify i fun slot => { slot with nextCount := slot.nextCount + 1 }
  match i, slots[i]?, slots[i - 1]? with
  | 0, _, _ => slots
  | i + 1, some slot, some before =>
    if slot.nextCount > before.nextCount then (slots.set (i + 1) before).set i slot else slots
  | _ + 1, _, _ => slots

/-- The records of a segment that gets a successor: the fixed slots, or the destinations of a block that may end anywhere. -/
def addSuccessor (s : CodeSegment) (other otherStart : Nat) (otherJit : Option Nat) : Except LinkFailure CodeSegment :=
  if s.endsWithFixedDestinationJump then do
    let slots ← addFixed other s.fixedDestinationInfo
    .ok { s with fixedDestinationInfo := slots, successors := s.successors.insert otherStart other }
  else if (s.successors.find otherStart).isSome then .ok s
  else .ok { s with
    successors := s.successors.insert otherStart other
    variableDestinationInfo := s.variableDestinationInfo ++ [⟨other, otherJit, otherStart, 1⟩] }

def addPredecessor (s : CodeSegment) (otherStart other : Nat) : CodeSegment :=
  { s with predecessors := s.predecessors.insert otherStart other }

/-- `ReturnDestinationInfo::addReturn`, where no other segment is recorded. -/
def addReturn (s : CodeSegment) (other : Nat) : CodeSegment := { s with ret := some other }

def addCallPredecessor (s : CodeSegment) (otherStart other : Nat) : CodeSegment :=
  { s with callPredecessors := s.callPredecessors.insert otherStart other }

def removePredecessor (s : CodeSegment) (otherStart : Nat) : CodeSegment :=
  { s with predecessors := s.predecessors.erase otherStart }

def removeCallPredecessor (s : CodeSegment) (otherStart : Nat) : CodeSegment :=
  { s with callPredecessors := s.callPredecessors.erase otherStart }

/-- The destinations of a segment that loses a successor: all of them where the block may end anywhere. -/
def removeDestination (s : CodeSegment) (other : Nat) : CodeSegment :=
  if s.endsWithFixedDestinationJump then { s with fixedDestinationInfo := removeFixed other s.fixedDestinationInfo }
  else { s with variableDestinationInfo := [] }

def onCpuCall (s : CodeSegment) : CodeSegment := { s with calls := s.calls + 1 }

/-- The segments of both destination records. -/
def destinations (s : CodeSegment) : List Nat :=
  s.fixedDestinationInfo.filterMap (·.next) ++ s.variableDestinationInfo.map (·.next)

/-- The segments that are to be compiled after this one. -/
def toCompile (s : CodeSegment) : List Nat := s.destinations ++ s.ret.toList

end CodeSegment

/-- The segments of a process, the map that finds them, and the blocks its JIT has compiled. -/
structure CodeCache where
  segments : Heap CodeSegment
  codeSegmentsByAddress : AddressMap
  blocks : Heap JitBasicBlock
  jitChainingEnabled : Bool

/-- What the compiler makes of the segment at a pointer, if it can compile it. -/
abbrev SegmentCompiler := Nat → Option NativeBasicBlock

namespace CodeCache

/-- The segment a pointer points to. -/
def segment (c : CodeCache) (p : Nat) : Except LinkFailure CodeSegment :=
  match c.segments.get? p with
  | some s => .ok s
  | none => .error .dangling

/-- Changes the segment a pointer points to. -/
def modify (c : CodeCache) (p : Nat) (f : CodeSegment → CodeSegment) : CodeCache :=
  { c with segments := c.segments.modify p f }

def modifyBlock (c : CodeCache) (p : Nat) (f : JitBasicBlock → JitBasicBlock) : CodeCache :=
  { c with blocks := c.blocks.modify p f }

/-- `Process::fetchSegment`, for an address whose bytes are decoded to the block. -/
def fetchSegment (c : CodeCache) (block : BasicBlock) : Nat × CodeCache :=
  match c.codeSegmentsByAddress.find block.start with
  | some p => (p, c)
  | none => (c.segments.next, { c with
      segments := c.segments.alloc (.create block)
      codeSegmentsByAddress := c.codeSegmentsByAddress.insert block.start c.segments.next })

/-- The slot of the segment that starts at an address. An empty slot ends the search. -/
def slotOf (c : CodeCache) (address : Nat) : List FixedDestination → Except LinkFailure (Option Nat)
  | [] => .ok none
  | slot :: slots =>
    match slot.next with
    | none => .ok none
    | some next => do
      let s ← c.segment next
      if s.start = address then .ok (some 0) else (Option.map (· + 1)) <$> c.slotOf address slots

/-- `CodeSegment::findNext`, with the segment it finds. -/
def findNext (c : CodeCache) (this address : Nat) : Except LinkFailure (Option Nat × CodeCache) := do
  let s ← c.segment this
  if s.endsWithFixedDestinationJump then
    match ← c.slotOf address s.fixedDestinationInfo with
    | none => .ok (none, c)
    | some i => .ok (s.fixedDestinationInfo[i]?.bind (·.next),
        c.modify this fun s => { s with fixedDestinationInfo := CodeSegment.hit i s.fixedDestinationInfo })
  else .ok (s.successors.find address, c)

/-- The destinations with the blocks that are compiled by now. -/
def refreshed (c : CodeCache) (l : List VariableDestination) : Except LinkFailure (List VariableDestination) :=
  l.mapM fun d => do
    let next ← c.segment d.next
    .ok { d with nextJit := next.jitBasicBlock }

/-- `CodeSegment::syncBlockLookupTable` -/
def syncBlockLookupTable (c : CodeCache) (this : Nat) : Except LinkFailure CodeCache := do
  let s ← c.segment this
  match s.jitBasicBlock with
  | none => .ok c
  | some block => do
    let l ← c.refreshed s.variableDestinationInfo
    .ok ((c.modify this fun s => { s with variableDestinationInfo := l }).modifyBlock block
      (·.syncBlockLookupTable l))

def syncIf (c : CodeCache) (changed : Bool) (this : Nat) : Except LinkFailure CodeCache :=
  if changed then c.syncBlockLookupTable this else .ok c

/-- `CodeSegment::addSuccessor`. The table is filled again when a destination was added to a block that may end anywhere. -/
def addSuccessor (c : CodeCache) (this other : Nat) : Except LinkFailure CodeCache := do
  let s ← c.segment this
  let o ← c.segment other
  let s' ← s.addSuccessor other o.start o.jitBasicBlock
  let c' ← (c.modify this fun _ => s').syncIf (!s.endsWithFixedDestinationJump && (s.successors.find o.start).isNone) this
  .ok (c'.modify other (·.addPredecessor s.start this))

/-- `CodeSegment::addReturn` -/
def addReturn (c : CodeCache) (this other : Nat) : Except LinkFailure CodeCache := do
  let s ← c.segment this
  let o ← c.segment other
  check (s.ret = none ∨ s.ret = some other) .verification
  check (o.start = s.end_) .verification
  .ok ((c.modify this (·.addReturn other)).modify other (·.addCallPredecessor s.start this))

def removePredecessor (c : CodeCache) (this otherStart : Nat) : Except LinkFailure CodeCache := do
  let _ ← c.segment this
  .ok (c.modify this (·.removePredecessor otherStart))

def removeCallPredecessor (c : CodeCache) (this otherStart : Nat) : Except LinkFailure CodeCache := do
  let _ ← c.segment this
  .ok (c.modify this (·.removeCallPredecessor otherStart))

/-- `CodeSegment::removeSucessor` -/
def removeSucessor (c : CodeCache) (this other otherStart : Nat) : Except LinkFailure CodeCache := do
  let s ← c.segment this
  let c' ← (c.modify this (·.removeDestination other)).syncIf (!s.endsWithFixedDestinationJump) this
  .ok (c'.modify this fun s => { s with successors := s.successors.erase otherStart })

/-- `CodeSegment::removeFromCaches` -/
def removeFromCaches (c : CodeCache) (this : Nat) : Except LinkFailure CodeCache := do
  let s ← c.segment this
  let c ← s.predecessors.targets.foldlM (fun c prev => c.removeSucessor prev this s.start) c
  let c := c.modify this fun s => { s with predecessors := .empty }
  let s ← c.segment this
  let c ← s.successors.targets.foldlM (fun c succ => c.removePredecessor succ s.start) c
  let c := c.modify this fun s => { s with successors := .empty }
  let s ← c.segment this
  let c ← s.callPredecessors.targets.foldlM (fun c prev => c.removeCallPredecessor prev s.start) c
  .ok (c.modify this fun s => { s with callPredecessors := .empty, jitBasicBlock := none })

/-- A region is destroyed or may not be executed any more: each of its segments leaves the map and the caches of the others,
and then they are destroyed. -/
def removeSegments (c : CodeCache) (segments : List Nat) : Except LinkFailure CodeCache := do
  let c ← segments.foldlM (fun c p => do
    let s ← c.segment p
    removeFromCaches { c with codeSegmentsByAddress := c.codeSegmentsByAddress.erase s.start } p) c
  .ok { c with segments := c.segments.freeAll segments }

/-- Patches the code of a block once the segment that follows is compiled. -/
def patchWith (c : CodeCache) (block : Nat) (next : Option Nat)
    (patch : JitBasicBlock → CodeSegment → Nat → JitBasicBlock) : Except LinkFailure CodeCache :=
  match next with
  | none => .ok c
  | some p => do
    let s ← c.segment p
    match s.jitBasicBlock with
    | none => .ok c
    | some target => .ok (c.modifyBlock block (patch · s target))

/-- The patches of `CodeSegment::tryPatch`: the calls first. -/
def patchCode (c : CodeCache) (s : CodeSegment) (block : Nat) : Except LinkFailure CodeCache := do
  let c ← c.patchWith block s.ret fun b _ target => b.tryPatchPushCallstack target
  s.fixedDestinationInfo.foldlM (fun c slot =>
    c.patchWith block slot.next fun b next target => b.tryPatchJump (next.start = s.end_) target) c

def patchPending (c : CodeCache) (s : CodeSegment) (block : Nat) : Except LinkFailure CodeCache :=
  if (c.blocks.get? block).any (·.needsPatching) then c.patchCode s block else .ok c

/-- `CodeSegment::tryPatch` -/
def tryPatch (c : CodeCache) (this : Nat) : Except LinkFailure CodeCache := do
  let s ← c.segment this
  match s.jitBasicBlock with
  | none => .ok c
  | some block => do
    let c' ← c.patchPending s block
    c'.syncBlockLookupTable this

/-- `Jit::tryCompile` has compiled a segment: it is chained to the segments before and after it. -/
def install (c : CodeCache) (this : Nat) (native : NativeBasicBlock) : Except LinkFailure CodeCache := do
  let s ← c.segment this
  let c := { c.modify this fun s => { s with jitBasicBlock := some c.blocks.next } with
    blocks := c.blocks.alloc (.create native this) }
  if c.jitChainingEnabled then
    (this :: s.predecessors.targets ++ s.callPredecessors.targets).foldlM tryPatch c
  else .ok c

def installIf (c : CodeCache) (this : Nat) : Option NativeBasicBlock → Except LinkFailure CodeCache
  | none => .ok c
  | some native => c.install this native

/-- `CodeSegment::tryCompile`, with the segments it pushes on the queue. -/
def tryCompile (c : CodeCache) (compiler : SegmentCompiler) (this : Nat) : Except LinkFailure (CodeCache × List Nat) := do
  let s ← c.segment this
  if s.calls < s.callsForCompilation then
    .ok (c.modify this fun s => { s with callsForCompilation := s.callsForCompilation / 2 }, [])
  else if s.compilationAttempted then .ok (c, [])
  else
    let c' ← c.installIf this (compiler this)
    .ok (c'.modify this fun s => { s with compilationAttempted := true }, s.toCompile)

/-- `CompilationQueue::process`, for as many turns as it takes. The top of the queue comes first. -/
def process (compiler : SegmentCompiler) : Nat → List Nat → CodeCache → Except LinkFailure CodeCache
  | _, [], c => .ok c
  | 0, _ :: _, _ => .error .unfinished
  | turns + 1, p :: queue, c => do
    let (c, pushed) ← c.tryCompile compiler p
    process compiler turns (pushed.reverse ++ queue) c

end CodeCache

/-- What the virtual machine and the process do with segments. -/
inductive CodeAction where
  | fetchSegment (block : BasicBlock)
  | findNext (this address : Nat)
  | addSuccessor (this other : Nat)
  | addReturn (this other : Nat)
  | onCpuCall (this : Nat)
  | onCall (this : Nat) (compiler : SegmentCompiler) (turns : Nat)
  | tryPatch (this : Nat)
  | removeSegments (segments : List Nat)

namespace CodeCache

/-- The segments an action names exist. -/
def enabled (c : CodeCache) : CodeAction → Prop
  | .fetchSegment _ => True
  | .findNext this _ | .onCpuCall this | .onCall this _ _ | .tryPatch this => c.segments.Live this
  | .addSuccessor this other | .addReturn this other => c.segments.Live this ∧ c.segments.Live other
  | .removeSegments segments => segments.Nodup ∧ ∀ p ∈ segments, c.segments.Live p

def exec (c : CodeCache) : CodeAction → Except LinkFailure CodeCache
  | .fetchSegment block => .ok (c.fetchSegment block).2
  | .findNext this address => (·.2) <$> c.findNext this address
  | .addSuccessor this other => c.addSuccessor this other
  | .addReturn this other => c.addReturn this other
  | .onCpuCall this => .ok (c.modify this (·.onCpuCall))
  | .onCall this compiler turns => process compiler turns [this] c
  | .tryPatch this => c.tryPatch this
  | .removeSegments segments => c.removeSegments segments

instance (c : CodeCache) (p : Nat) : Decidable (c.segments.Live p) :=
  decidable_of_iff ((c.segments.get? p).isSome = true) Option.isSome_iff_exists

instance (c : CodeCache) : DecidablePred c.enabled
  | .fetchSegment _ => inferInstanceAs (Decidable True)
  | .findNext _ _ | .onCpuCall _ | .onCall _ _ _ | .tryPatch _ => inferInstanceAs (Decidable (c.segments.Live _))
  | .addSuccessor _ _ | .addReturn _ _ => inferInstanceAs (Decidable (_ ∧ _))
  | .removeSegments _ => inferInstanceAs (Decidable (_ ∧ _))

/-- A step that is enabled and does not fail. -/
def step (c : CodeCache) (action : CodeAction) : Option CodeCache :=
  if c.enabled action then (c.exec action).toOption else none

/-- A process that has executed nothing. -/
def initial (jitChainingEnabled : Bool) : CodeCache := ⟨.empty, .empty, .empty, jitChainingEnabled⟩

def machine : Machine CodeCache CodeAction where
  init c := ∃ jitChainingEnabled, c = initial jitChainingEnabled
  step := step

end CodeCache

end X64Emulator
