import X64Emulator.CodeSegments
import X64Emulator.IntervalVector
import X64Emulator.Mmu

/-!
# The code of a process

A process owns the segments of its code in intervals, one for each executable region, and finds them in a map. It is a callback of
the memory management unit: it reserves an interval when a region becomes executable, and destroys the segments of one that is
not executable any more. What the disassembler makes of the bytes at an address is an input.
-/

namespace X64Emulator

open Outcome

/-- A segment as an interval owns it: the pointer, and the block of the segment, which never changes. -/
structure OwnedSegment where
  ptr : Nat
  block : BasicBlock
deriving DecidableEq, Repr

instance : Item OwnedSegment := ⟨fun t => t.block.start, fun t => t.block.end_⟩

/-- The address has a region that may be executed: what `MmuBytecodeRetriever::retrieveBytecode` verifies. -/
def AddressSpace.isExecutable (s : AddressSpace) (address : Nat) : Bool := (s.findAddress address).any (·.prot.exec)

/-- A segment leaves the map and the caches of the others. -/
def CodeCache.discard (c : CodeCache) (p : Nat) : Except LinkFailure CodeCache := do
  let s ← c.segment p
  removeFromCaches { c with codeSegmentsByAddress := c.codeSegmentsByAddress.erase s.start } p

/-- An operation on intervals whose verification fails. -/
def verified {α : Type} (o : Option α) : Except LinkFailure α := o.elim (.error .verification) .ok

/-- The segments of a process: what owns them, and the map and the links between them. -/
structure ProcessCode where
  codeSegments : IntervalVector OwnedSegment
  cache : CodeCache

namespace ProcessCode

def reserve (p : ProcessCode) (base length : Nat) : Except LinkFailure ProcessCode := do
  let v ← verified (p.codeSegments.reserve base (u64 (base + length)))
  .ok { p with codeSegments := v }

/-- The segments of a range leave the map, and the intervals of the range are destroyed with the segments they own. -/
def purge (p : ProcessCode) (base length : Nat) : Except LinkFailure ProcessCode := do
  let (visited, v) ← verified (p.codeSegments.forEach base (u64 (base + length)))
  let cache ← visited.foldlM (fun c t => c.discard t.ptr) p.cache
  let v' ← verified (v.remove base (u64 (base + length)))
  let destroyed := (v.items.filter (· ∉ v'.items)).map (·.ptr)
  .ok ⟨v', { cache with segments := cache.segments.freeAll destroyed }⟩

def onRegionCreation (p : ProcessCode) (base length : Nat) (prot : Prot) : Except LinkFailure ProcessCode :=
  if !prot.exec then .ok p else p.reserve base length

def onRegionProtectionChange (p : ProcessCode) (base length : Nat) (protBefore protAfter : Prot) :
    Except LinkFailure ProcessCode :=
  if protBefore.exec = protAfter.exec then .ok p
  else if !protAfter.exec then p.purge base length
  else p.reserve base length

def onRegionDestruction (p : ProcessCode) (base length : Nat) (prot : Prot) : Except LinkFailure ProcessCode :=
  if !prot.exec then .ok p else p.purge base length

def hear (p : ProcessCode) : Notification → Except LinkFailure ProcessCode
  | .onRegionCreation base length prot => p.onRegionCreation base length prot
  | .onRegionProtectionChange base length protBefore protAfter => p.onRegionProtectionChange base length protBefore protAfter
  | .onRegionDestruction base length prot => p.onRegionDestruction base length prot

/-- `Process::fetchSegment`, for an address whose bytes are decoded to the block. -/
def fetchSegment (p : ProcessCode) (space : AddressSpace) (block : BasicBlock) : Except LinkFailure (Nat × ProcessCode) :=
  match p.cache.codeSegmentsByAddress.find block.start with
  | some segment => .ok (segment, p)
  | none => do
    check (space.isExecutable block.start = true) .verification
    let (segment, cache) := p.cache.fetchSegment block
    let v ← verified (p.codeSegments.add block.start ⟨segment, block⟩)
    .ok (segment, ⟨v, cache⟩)

end ProcessCode

/-- A process with its address space, and what the call that is under way has still to tell the process. -/
structure GuestCode where
  space : AddressSpace
  pending : List Notification
  code : ProcessCode

inductive GuestAction where
  | call (call : MmuCall)
  /-- the process hears the next notification -/
  | notify
  | fetchSegment (block : BasicBlock)
  /-- what the virtual machine does with the segments it fetched -/
  | run (action : CodeAction)

namespace GuestCode

/-- What the virtual machine does neither fetches nor removes segments. -/
def isRun : CodeAction → Prop
  | .fetchSegment _ | .removeSegments _ => False
  | .findNext _ _ | .addSuccessor _ _ | .addReturn _ _ | .onCpuCall _ | .onCall _ _ _ | .tryPatch _ => True

instance : DecidablePred isRun
  | .fetchSegment _ | .removeSegments _ => inferInstanceAs (Decidable False)
  | .findNext _ _ | .addSuccessor _ _ | .addReturn _ _ | .onCpuCall _ | .onCall _ _ _ | .tryPatch _ =>
    inferInstanceAs (Decidable True)

/-- A call tells all it has to tell before it returns. -/
def enabled (g : GuestCode) : GuestAction → Prop
  | .call _ | .fetchSegment _ => g.pending = []
  | .notify => g.pending ≠ []
  | .run action => g.pending = [] ∧ isRun action ∧ g.code.cache.enabled action

instance (g : GuestCode) : DecidablePred g.enabled
  | .call _ | .fetchSegment _ => inferInstanceAs (Decidable (g.pending = []))
  | .notify => inferInstanceAs (Decidable (g.pending ≠ []))
  | .run _ => inferInstanceAs (Decidable (_ ∧ _))

def exec (host : Host) (g : GuestCode) : GuestAction → Except LinkFailure GuestCode
  | .call call => do
    let space ← verified (g.space.step host call)
    .ok { g with space := space, pending := space.notifications.drop g.space.notifications.length }
  | .notify =>
    match g.pending with
    | [] => .ok g
    | n :: pending => do
      let code ← g.code.hear n
      .ok { g with pending := pending, code := code }
  | .fetchSegment block => do
    let (_, code) ← g.code.fetchSegment g.space block
    .ok { g with code := code }
  | .run action => do
    let cache ← g.code.cache.exec action
    .ok { g with code := { g.code with cache := cache } }

def step (host : Host) (g : GuestCode) (action : GuestAction) : Option GuestCode :=
  if g.enabled action then (g.exec host action).toOption else none

/-- A process with nothing mapped. -/
def initial (virtualMemoryInMB : UInt32) (memory : Memory) (jitChainingEnabled : Bool) : GuestCode where
  space := .empty virtualMemoryInMB memory
  pending := []
  code := ⟨⟨[]⟩, .initial jitChainingEnabled⟩

def machine (host : Host) : Machine GuestCode GuestAction where
  init g := ∃ virtualMemoryInMB memory jitChainingEnabled, g = initial virtualMemoryInMB memory jitChainingEnabled
  step := step host

end GuestCode

end X64Emulator
