import X64Emulator.Lib.Heap
import X64Emulator.Lib.Outcome
import X64Emulator.Lib.Patching
import Mathlib.Algebra.Group.Nat.Defs

/-!
# Buffers

`SVOBuffer` and `Buffer`: bytes that are kept in the object itself up to a size, and on the heap beyond it. The members are
translated one by one, down to the copies they make; a copy that leaves the storage it reads or writes, the use of the member of
the union that is not the active one, and a block that is freed twice are failures. What fresh storage holds is a parameter.
-/

namespace X64Emulator
namespace Buffers

open Outcome

inductive Failure where
  /-- An access leaves the storage it is made to. -/
  | outOfBounds
  /-- The union holds its other member. -/
  | inactiveMember
  /-- A block is used or freed that is not allocated. -/
  | noBlock
  /-- An `assert` does not hold. -/
  | assertion
  /-- An object is used that does not exist, or made where one exists. -/
  | noObject
deriving DecidableEq, Repr

/-- The union of the inline bytes and the pointer. -/
inductive Data where
  | stackBuffer (bytes : List UInt8)
  | heapBuffer (ptr : Nat)
deriving DecidableEq, Repr

structure SVOBuffer where
  data : Data
  size : UInt32
deriving DecidableEq, Repr

abbrev Blocks := Heap (List UInt8)

/-! ## Storage -/

def Data.stack : Data → Except Failure (List UInt8)
  | .stackBuffer bytes => .ok bytes
  | .heapBuffer _ => .error .inactiveMember

def Data.heap : Data → Except Failure Nat
  | .stackBuffer _ => .error .inactiveMember
  | .heapBuffer ptr => .ok ptr

/-- A fresh block; its bytes are what happened to be there. -/
def malloc (garbage : Nat → UInt8) (blocks : Blocks) (n : Nat) : Nat × Blocks :=
  (blocks.next, blocks.alloc ((List.range n).map garbage))

def block (blocks : Blocks) (ptr : Nat) : Except Failure (List UInt8) :=
  match blocks.get? ptr with
  | some bytes => .ok bytes
  | none => .error .noBlock

def free (blocks : Blocks) (ptr : Nat) : Except Failure Blocks := do
  let _ ← block blocks ptr
  .ok (blocks.freeAll [ptr])

/-- The first bytes of a storage. -/
def readBytes (storage : List UInt8) (n : Nat) : Except Failure (List UInt8) := do
  check (n ≤ storage.length) .outOfBounds
  .ok (storage.take n)

/-- The storage with other bytes from a position on. -/
def writeBytes (storage : List UInt8) (position : Nat) (bytes : List UInt8) : Except Failure (List UInt8) := do
  check (position + bytes.length ≤ storage.length) .outOfBounds
  .ok (Patching.overwrite storage position bytes)

def writeBlock (blocks : Blocks) (ptr position : Nat) (bytes : List UInt8) : Except Failure Blocks := do
  let storage ← block blocks ptr
  let storage ← writeBytes storage position bytes
  .ok (blocks.modify ptr fun _ => storage)

/-! ## The members -/

section Members

variable (InlineBytes : Nat) (garbage : Nat → UInt8)

/-- `SVOBuffer(size_t)`: the branch looks at the size that is given, the member keeps 32 bits of it. -/
def construct (blocks : Blocks) (sizeInBytes : UInt64) : Except Failure (Blocks × SVOBuffer) :=
  if sizeInBytes.toNat ≤ InlineBytes then
    .ok (blocks, ⟨.stackBuffer (List.replicate InlineBytes 0), sizeInBytes.toUInt32⟩)
  else do
    let (ptr, blocks) := malloc garbage blocks sizeInBytes.toNat
    let blocks ← writeBlock blocks ptr 0 (List.replicate sizeInBytes.toNat 0)
    .ok (blocks, ⟨.heapBuffer ptr, sizeInBytes.toUInt32⟩)

/-- `~SVOBuffer()`, which the assignments begin with too. -/
def destroy (blocks : Blocks) (b : SVOBuffer) : Except Failure Blocks :=
  if InlineBytes < b.size.toNat then do
    let ptr ← b.data.heap
    free blocks ptr
  else .ok blocks

/-- `SVOBuffer(const SVOBuffer&)` -/
def copyConstruct (blocks : Blocks) (other : SVOBuffer) : Except Failure (Blocks × SVOBuffer) := do
  let (blocks, b) ← construct InlineBytes garbage blocks other.size.toUInt64
  if b.size.toNat ≤ InlineBytes then
    let bytes ← other.data.stack
    let bytes ← readBytes bytes InlineBytes
    .ok (blocks, { b with data := .stackBuffer bytes })
  else
    let ptr ← b.data.heap
    let source ← other.data.heap
    let source ← block blocks source
    let bytes ← readBytes source b.size.toNat
    let blocks ← writeBlock blocks ptr 0 bytes
    .ok (blocks, b)

/-- `operator=(const SVOBuffer&)` of another object. -/
def copyAssign (blocks : Blocks) (b other : SVOBuffer) : Except Failure (Blocks × SVOBuffer) := do
  let blocks ← destroy InlineBytes blocks b
  if other.size.toNat ≤ InlineBytes then
    let bytes ← other.data.stack
    let bytes ← readBytes bytes InlineBytes
    .ok (blocks, ⟨.stackBuffer bytes, other.size⟩)
  else
    let (ptr, blocks) := malloc garbage blocks other.size.toNat
    let source ← other.data.heap
    let source ← block blocks source
    let bytes ← readBytes source other.size.toNat
    let blocks ← writeBlock blocks ptr 0 bytes
    .ok (blocks, ⟨.heapBuffer ptr, other.size⟩)

/-- What a buffer is left as that was moved from. -/
def movedFrom : SVOBuffer := ⟨.stackBuffer (List.replicate InlineBytes 0), 0⟩

/-- `operator=(SVOBuffer&&)` of another object: the new object, which takes the union as it is. The move constructor is the same
without anything to free, its size being zero when it begins. -/
def moveAssign (blocks : Blocks) (b other : SVOBuffer) : Except Failure (Blocks × SVOBuffer) := do
  let blocks ← destroy InlineBytes blocks b
  .ok (blocks, other)

/-- `shrink` -/
def shrink (blocks : Blocks) (b : SVOBuffer) (newSize : UInt64) : Except Failure (Blocks × SVOBuffer) := do
  check (newSize.toNat ≤ b.size.toNat) .assertion
  if newSize.toNat = b.size.toNat then .ok (blocks, b)
  else if b.size.toNat ≤ InlineBytes then .ok (blocks, { b with size := newSize.toUInt32 })
  else if InlineBytes < newSize.toNat then .ok (blocks, { b with size := newSize.toUInt32 })
  else
    let ptr ← b.data.heap
    let storage ← block blocks ptr
    let tmp ← readBytes storage InlineBytes
    let blocks ← free blocks ptr
    .ok (blocks, ⟨.stackBuffer tmp, newSize.toUInt32⟩)

/-- The storage that `data` points to. -/
def storage (blocks : Blocks) (b : SVOBuffer) : Except Failure (List UInt8) :=
  if b.size.toNat ≤ InlineBytes then b.data.stack
  else do
    let ptr ← b.data.heap
    block blocks ptr

/-- Bytes are written behind the pointer that `data` gives. -/
def writeData (blocks : Blocks) (b : SVOBuffer) (position : Nat) (bytes : List UInt8) : Except Failure (Blocks × SVOBuffer) :=
  if b.size.toNat ≤ InlineBytes then do
    let storage ← b.data.stack
    let storage ← writeBytes storage position bytes
    .ok (blocks, { b with data := .stackBuffer storage })
  else do
    let ptr ← b.data.heap
    let blocks ← writeBlock blocks ptr position bytes
    .ok (blocks, b)

/-- The bytes of a buffer, `size()` of them from `data()` on. -/
def contents (blocks : Blocks) (b : SVOBuffer) : Except Failure (List UInt8) := do
  let storage ← storage InlineBytes blocks b
  readBytes storage b.size.toNat

/-- `Buffer(size_t, u8)` -/
def constructFilled (blocks : Blocks) (size : UInt64) (value : UInt8) : Except Failure (Blocks × SVOBuffer) := do
  let (blocks, b) ← construct InlineBytes garbage blocks size
  writeData InlineBytes blocks b 0 (List.replicate size.toNat value)

/-- `Buffer(const T&)`, of the bytes of the value. -/
def constructFrom (blocks : Blocks) (val : List UInt8) : Except Failure (Blocks × SVOBuffer) := do
  let (blocks, b) ← construct InlineBytes garbage blocks (UInt64.ofNat val.length)
  let bytes ← readBytes val b.size.toNat
  writeData InlineBytes blocks b 0 bytes

end Members

/-! ## Programs on several buffers -/

/-- What a program does with the buffers, each of which has a number. -/
inductive Op where
  | construct (b : Nat) (size : UInt64)
  | constructFilled (b : Nat) (size : UInt64) (value : UInt8)
  | constructFrom (b : Nat) (val : List UInt8)
  | copyConstruct (b other : Nat)
  | moveConstruct (b other : Nat)
  | copyAssign (b other : Nat)
  | moveAssign (b other : Nat)
  | shrink (b : Nat) (newSize : UInt64)
  | write (b : Nat) (i : UInt64) (value : UInt8)
  | destroy (b : Nat)

structure State where
  blocks : Blocks
  buffers : Nat → Option SVOBuffer

namespace State

def initial : State := ⟨Heap.empty, fun _ => none⟩

def object (s : State) (b : Nat) : Except Failure SVOBuffer :=
  match s.buffers b with
  | some buffer => .ok buffer
  | none => .error .noObject

/-- No object stands there. -/
def vacant (s : State) (b : Nat) : Except Failure Unit := check (s.buffers b = none) .noObject

def set (s : State) (b : Nat) (blocks : Blocks) (buffer : Option SVOBuffer) : State :=
  ⟨blocks, fun b' => if b' = b then buffer else s.buffers b'⟩

def step (InlineBytes : Nat) (garbage : Nat → UInt8) (s : State) : Op → Except Failure State
  | .construct b size => do
    s.vacant b
    let (blocks, buffer) ← Buffers.construct InlineBytes garbage s.blocks size
    .ok (s.set b blocks buffer)
  | .constructFilled b size value => do
    s.vacant b
    let (blocks, buffer) ← Buffers.constructFilled InlineBytes garbage s.blocks size value
    .ok (s.set b blocks buffer)
  | .constructFrom b val => do
    s.vacant b
    let (blocks, buffer) ← Buffers.constructFrom InlineBytes garbage s.blocks val
    .ok (s.set b blocks buffer)
  | .copyConstruct b other => do
    s.vacant b
    let source ← s.object other
    let (blocks, buffer) ← Buffers.copyConstruct InlineBytes garbage s.blocks source
    .ok (s.set b blocks buffer)
  | .moveConstruct b other => do
    s.vacant b
    let source ← s.object other
    .ok ((s.set b s.blocks source).set other s.blocks (movedFrom InlineBytes))
  | .copyAssign b other => do
    let buffer ← s.object b
    let source ← s.object other
    if b = other then .ok s
    else
      let (blocks, buffer) ← Buffers.copyAssign InlineBytes garbage s.blocks buffer source
      .ok (s.set b blocks buffer)
  | .moveAssign b other => do
    let buffer ← s.object b
    let source ← s.object other
    if b = other then .ok s
    else
      let (blocks, buffer) ← Buffers.moveAssign InlineBytes s.blocks buffer source
      .ok ((s.set b blocks buffer).set other blocks (movedFrom InlineBytes))
  | .shrink b newSize => do
    let buffer ← s.object b
    let (blocks, buffer) ← Buffers.shrink InlineBytes s.blocks buffer newSize
    .ok (s.set b blocks buffer)
  | .write b i value => do
    let buffer ← s.object b
    let (blocks, buffer) ← Buffers.writeData InlineBytes s.blocks buffer i.toNat [value]
    .ok (s.set b blocks buffer)
  | .destroy b => do
    let buffer ← s.object b
    let blocks ← Buffers.destroy InlineBytes s.blocks buffer
    .ok (s.set b blocks none)

def run (InlineBytes : Nat) (garbage : Nat → UInt8) (ops : List Op) : Except Failure State :=
  ops.foldlM (step InlineBytes garbage) initial

end State

end Buffers
end X64Emulator
