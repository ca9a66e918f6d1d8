import X64Emulator.Lib.BinarySearch
import X64Emulator.Lib.Outcome
import Mathlib.Data.List.Sort
import Mathlib.Algebra.Group.Nat.Defs

/-!
# The profile viewer's data

The events that were recorded for a thread, and the ranges and symbols that the viewer makes of them: `AllProfileData::tryCreate`.
A failed `assert`, the top of an empty stack and the back of an empty vector leave no result.
-/

namespace X64Emulator
namespace Profile

structure CallEvent where
  tick : UInt64
  address : UInt64
deriving DecidableEq, Repr

structure RetEvent where
  tick : UInt64
deriving DecidableEq, Repr

structure SyscallEvent where
  tick : UInt64
deriving DecidableEq, Repr

structure ThreadProfilingData where
  callEvents : List CallEvent
  retEvents : List RetEvent
  syscallEvents : List SyscallEvent

/-- The entries of the map, the first of an address being the one that `emplace` kept. -/
structure ProfilingSymbolTable where
  symbols : List (UInt64 × String)

def ProfilingSymbolTable.findSymbol (table : ProfilingSymbolTable) (address : UInt64) : Option String :=
  table.symbols.lookup address

structure ProfilingData where
  threadProfilingData : List ThreadProfilingData
  symbolTable : ProfilingSymbolTable

structure Range where
  begin : UInt64
  end_ : UInt64
deriving DecidableEq, Repr

structure ProfileRange where
  range : Range
  symbolIndex : UInt32
  depth : UInt32
deriving DecidableEq, Repr

/-- `DfsOrder` -/
def dfsOrder (pra prb : ProfileRange) : Bool :=
  let a := pra.range
  let b := prb.range
  if a.begin < b.begin then true
  else if a.begin > b.begin then false
  else if a.end_ > b.end_ then true
  else false

/-- Neither order nor its converse puts the second before the first: what `std::sort` leaves of its argument. -/
def dfsSorted (pra prb : ProfileRange) : Prop := dfsOrder prb pra = false

instance : DecidableRel dfsSorted := fun pra prb => inferInstanceAs (Decidable (dfsOrder prb pra = false))

structure AllProfileData where
  profileRanges : List ProfileRange
  syscallRanges : List ProfileRange
  symbols : List String
  maxTick : UInt64
  maxDepth : UInt32
deriving DecidableEq, Repr

inductive Failure where
  /-- An `assert` does not hold. -/
  | assertion
  /-- The top of an empty stack is read. -/
  | emptyStack
  /-- The back of an empty vector is read. -/
  | emptyVector
deriving DecidableEq, Repr

def unknownSymbolIndex : UInt32 := 0

/-- The variables of the loop over the two kinds of events. -/
structure Walk where
  stack : List ProfileRange
  profileRanges : List ProfileRange
  addressToSymbolIndex : List (UInt64 × UInt32)
  symbols : List String
  maxTick : UInt64
  maxDepth : UInt32

namespace Walk

def initial : Walk where
  stack := []
  profileRanges := []
  addressToSymbolIndex := []
  symbols := ["???"]
  maxTick := 0
  maxDepth := 0

/-- The index of the symbol of an address; an address that is new gets its entry of the map, and its symbol a place. -/
def symbolIndexOf (table : ProfilingSymbolTable) (w : Walk) (address : UInt64) : UInt32 × Walk :=
  match w.addressToSymbolIndex.lookup address with
  | some symbolIndex => (symbolIndex, w)
  | none =>
    match table.findSymbol address with
    | some symbol =>
      let symbolIndex := UInt32.ofNat w.symbols.length
      (symbolIndex, { w with
        addressToSymbolIndex := (address, symbolIndex) :: w.addressToSymbolIndex
        symbols := w.symbols ++ [symbol] })
    | none =>
      (unknownSymbolIndex, { w with
        addressToSymbolIndex := (address, unknownSymbolIndex) :: w.addressToSymbolIndex })

/-- The turn of the loop that takes a call. The end of its range is filled in later. -/
def call (table : ProfilingSymbolTable) (w : Walk) (e : CallEvent) : Walk :=
  let (symbolIndex, w) := w.symbolIndexOf table e.address
  let stack := ⟨⟨e.tick, 0xffffffffffffffff⟩, symbolIndex, UInt32.ofNat w.stack.length⟩ :: w.stack
  { w with
    stack := stack
    maxTick := max w.maxTick e.tick
    maxDepth := max w.maxDepth (UInt32.ofNat stack.length) }

/-- The turn of the loop that takes a return. -/
def ret (w : Walk) (e : RetEvent) : Except Failure Walk :=
  match w.stack with
  | [] => .error .emptyStack
  | pr :: stack =>
    .ok { w with
      stack := stack
      profileRanges := w.profileRanges ++ [{ pr with range := ⟨pr.range.begin, e.tick⟩ }]
      maxTick := max w.maxTick e.tick }

/-- The loop: it ends where one kind of events does. -/
def run (table : ProfilingSymbolTable) : List CallEvent → List RetEvent → Walk → Except Failure Walk
  | [], _, w => .ok w
  | _ :: _, [], w => .ok w
  | callIt :: calls, retIt :: rets, w => do
    Outcome.check (callIt.tick ≠ retIt.tick) .assertion
    if callIt.tick < retIt.tick then run table calls (retIt :: rets) (w.call table callIt)
    else
      let w ← w.ret retIt
      run table (callIt :: calls) rets w
termination_by calls rets => calls.length + rets.length

/-- The ranges with those that are still on the stack, from its top on. -/
def allRanges (w : Walk) : List ProfileRange :=
  w.profileRanges ++ w.stack.map fun pr => { pr with range := ⟨pr.range.begin, w.maxTick + 1⟩ }

end Walk

/-- The range of a system call. The last two fields are given in the other order than in the ranges of calls. -/
def syscallRange (profileRanges : List ProfileRange) (event : SyscallEvent) : Except Failure ProfileRange := do
  let fakeProfileRange : ProfileRange := ⟨⟨event.tick, event.tick⟩, 0, 0⟩
  let it := BinarySearch.partitionPoint (fun pr => dfsOrder pr fakeProfileRange) profileRanges
  let depth ←
    match profileRanges[it]? with
    | some pr => .ok (pr.depth + 1)
    | none =>
      match profileRanges.getLast? with
      | some pr => .ok (pr.depth + 1)
      | none => .error .emptyVector
  .ok ⟨⟨event.tick, event.tick + 1⟩, depth, 0⟩

/-- The viewer's data of the first thread; nothing when there is no thread, no call or no return. -/
def tryCreate (profileData : ProfilingData) : Except Failure (Option AllProfileData) :=
  match profileData.threadProfilingData with
  | [] => .ok none
  | tpd :: _ =>
    if tpd.callEvents.isEmpty || tpd.retEvents.isEmpty then .ok none
    else do
      let w ← Walk.run profileData.symbolTable tpd.callEvents tpd.retEvents Walk.initial
      let profileRanges := w.allRanges.insertionSort dfsSorted
      let syscallEvents := tpd.syscallEvents.insertionSort fun a b => a.tick ≤ b.tick
      let syscallRanges ← syscallEvents.mapM (syscallRange profileRanges)
      .ok (some
        { profileRanges := profileRanges
          syscallRanges := syscallRanges
          symbols := w.symbols
          maxTick := w.maxTick
          maxDepth := w.maxDepth })

end Profile
end X64Emulator
