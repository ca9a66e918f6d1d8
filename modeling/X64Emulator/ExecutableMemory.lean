import X64Emulator.Base
import X64Emulator.Lib.Machine

/-!
# Executable memory

Native code is kept in blocks of executable memory. A block is carved from a range that the host gave, whole chunks at a time, or
is one that was freed before. What the host gives when a new range is asked for is an input: the base of the range, or nothing.
-/

namespace X64Emulator

/-- The value a `u32` holds after arithmetic that may have wrapped. -/
def u32 (n : Nat) : Nat := n % 2 ^ 32

structure MemoryBlock where
  ptr : Nat
  size : Nat
deriving DecidableEq, Repr

structure MemRange where
  base : Nat
  firstAvailableChunk : Nat
deriving DecidableEq, Repr

namespace MemRange

def SIZE : Nat := 0x10000

def CHUNK_SIZE : Nat := 0x10

def NB_CHUNKS : Nat := SIZE / CHUNK_SIZE

def tryAllocate (range : MemRange) (requestedSize : Nat) : Option (MemoryBlock × MemRange) :=
  let sizeInChunks := u32 (requestedSize + CHUNK_SIZE - 1) / CHUNK_SIZE
  if NB_CHUNKS < u32 (range.firstAvailableChunk + sizeInChunks) then none
  else some (
    { ptr := range.base + u32 (range.firstAvailableChunk * CHUNK_SIZE), size := u32 (sizeInChunks * CHUNK_SIZE) },
    { range with firstAvailableChunk := u32 (range.firstAvailableChunk + sizeInChunks) })

end MemRange

structure ExecutableMemoryAllocator where
  ranges : List MemRange
  freeBlocks : List MemoryBlock
deriving DecidableEq, Repr

namespace ExecutableMemoryAllocator

/-- A free block that is given for a size: at most 1.3 times as large. -/
def isSuitable (requestedSize : Nat) (block : MemoryBlock) : Bool :=
  requestedSize ≤ block.size && 10 * block.size ≤ 13 * requestedSize

/-- The first range with room gives the block. -/
def allocateInRanges (requestedSize : Nat) : List MemRange → Option (MemoryBlock × List MemRange)
  | [] => none
  | range :: ranges =>
    match range.tryAllocate requestedSize with
    | some (block, range) => some (block, range :: ranges)
    | none => (allocateInRanges requestedSize ranges).map fun (block, ranges) => (block, range :: ranges)

/-- `host` is the base of the range that `MemRange::tryCreate` gets, if it is asked for one. -/
def allocate (a : ExecutableMemoryAllocator) (requestedSize : Nat) (host : Option Nat) :
    Option MemoryBlock × ExecutableMemoryAllocator :=
  match a.freeBlocks.find? (isSuitable requestedSize) with
  | some block => (some block, { a with freeBlocks := a.freeBlocks.eraseP (isSuitable requestedSize) })
  | none =>
    match allocateInRanges requestedSize a.ranges with
    | some (block, ranges) => (some block, { a with ranges := ranges })
    | none =>
      match host with
      | none => (none, a)
      | some base =>
        match MemRange.tryAllocate ⟨base, 0⟩ requestedSize with
        | some (block, range) => (some block, { a with ranges := a.ranges ++ [range] })
        | none => (none, { a with ranges := a.ranges ++ [⟨base, 0⟩] })

def free (a : ExecutableMemoryAllocator) (block : MemoryBlock) : ExecutableMemoryAllocator :=
  if block.ptr ≠ 0 ∧ 0 < block.size then { a with freeBlocks := a.freeBlocks ++ [block] } else a

end ExecutableMemoryAllocator

/-- The allocator, with the blocks that it gave and that were not freed. -/
structure ExecutableMemory where
  allocator : ExecutableMemoryAllocator
  live : List MemoryBlock
deriving DecidableEq, Repr

inductive MemoryAction where
  | allocate (requestedSize : UInt32) (host : Option Nat)
  | free (block : MemoryBlock)
deriving DecidableEq, Repr

namespace ExecutableMemory

/-- Only a live block is freed, so none is freed twice. -/
def step (m : ExecutableMemory) : MemoryAction → Option ExecutableMemory
  | .allocate requestedSize host =>
    let (block, allocator) := m.allocator.allocate requestedSize.toNat host
    some { allocator := allocator, live := block.toList ++ m.live }
  | .free block =>
    if block ∈ m.live then some { allocator := m.allocator.free block, live := m.live.erase block } else none

def initial : ExecutableMemory := ⟨⟨[], []⟩, []⟩

def machine : Machine ExecutableMemory MemoryAction where
  init m := m = initial
  step := step

end ExecutableMemory

end X64Emulator
