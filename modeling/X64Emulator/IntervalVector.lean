import X64Emulator.Lib.BinarySearch
import X64Emulator.Lib.Machine

/-!
# Vectors of intervals

A vector of intervals that own items, sorted by address. Intervals and items have a start and an end that is not part of them. The
order in which an interval keeps its items after a split is not specified, and nothing here depends on it. A failed `verify` and
an iterator range whose end comes before its start have no result.
-/

namespace X64Emulator

open BinarySearch

/-- What can be an item of an interval. -/
class Item (T : Type) where
  start : T → Nat
  end_ : T → Nat

/-- An item that is nothing but its bounds. -/
structure AddressRange where
  start : Nat
  end_ : Nat
deriving DecidableEq, Repr

instance : Item AddressRange := ⟨AddressRange.start, AddressRange.end_⟩

structure IntervalValue (T : Type) where
  start : Nat
  end_ : Nat
  items : List T
deriving DecidableEq, Repr

structure IntervalVector (T : Type) where
  values : List (IntervalValue T)
deriving DecidableEq, Repr

variable {T : Type}

/-- The items of all intervals. -/
def IntervalVector.items (v : IntervalVector T) : List T := v.values.flatMap (·.items)

variable [Item T]

/-- The two parts of an interval: the items that end past the value go to the right. -/
def IntervalValue.split (v : IntervalValue T) (value : Nat) : Option (IntervalValue T × IntervalValue T) :=
  if value ≤ v.start ∨ v.end_ ≤ value then none
  else some (
    { v with end_ := value, items := v.items.filter fun item => Item.end_ item ≤ value },
    { start := value, end_ := v.end_, items := v.items.filter fun item => !decide (Item.end_ item ≤ value) })

namespace IntervalVector

/-- Where `find` looks: the first interval that does not end before the value. -/
def findPosition (v : IntervalVector T) (value : Nat) : Nat := partitionPoint (fun a => decide (a.end_ < value)) v.values

def find (v : IntervalVector T) (value : Nat) : Option (IntervalValue T) := v.values[v.findPosition value]?

def insert (v : IntervalVector T) (value : IntervalValue T) : Option (IntervalVector T) :=
  let pos := partitionPoint (fun a => decide (a.start < value.start)) v.values
  match v.values[pos]? with
  | some next => if value.end_ ≤ next.start then some ⟨v.values.insertIdx pos value⟩ else none
  | none => some ⟨v.values.insertIdx pos value⟩

def reserve (v : IntervalVector T) (start end_ : Nat) : Option (IntervalVector T) := v.insert ⟨start, end_, []⟩

def add (v : IntervalVector T) (value : Nat) (item : T) : Option (IntervalVector T) :=
  match v.find value with
  | some interval => some ⟨v.values.set (v.findPosition value) { interval with items := interval.items ++ [item] }⟩
  | none => none

def split (v : IntervalVector T) (value : Nat) : Option (IntervalVector T) :=
  match v.find value with
  | none => some v
  | some interval =>
    match interval.split value with
    | none => some v
    | some (left, right) =>
      let v : IntervalVector T := ⟨v.values.set (v.findPosition value) left⟩
      if right.start < right.end_ then v.insert right else some v

def remove (v : IntervalVector T) (start end_ : Nat) : Option (IntervalVector T) := do
  let v ← v.split start
  let v ← v.split end_
  let first := partitionPoint (fun value => decide (value.start < start)) v.values
  let afterlast := partitionPoint (fun value => !decide (end_ < value.start)) v.values
  if first ≤ afterlast then some ⟨v.values.take first ++ v.values.drop afterlast⟩ else none

/-- `forEach` and `forEachMutable`: the items that are visited, in order, with the intervals as they are split for it. -/
def forEach (v : IntervalVector T) (start end_ : Nat) : Option (List T × IntervalVector T) := do
  let v ← v.split start
  let v ← v.split end_
  let first := partitionPoint (fun value => decide (value.end_ < start)) v.values
  let afterlast := partitionPoint (fun value => !decide (end_ < value.start)) v.values
  if first ≤ afterlast then some (((v.values.take afterlast).drop first).flatMap (·.items), v) else none

end IntervalVector

inductive IntervalAction (T : Type) where
  | reserve (start end_ : Nat)
  | split (value : Nat)
  | add (value : Nat) (item : T)
  | remove (start end_ : Nat)
deriving DecidableEq, Repr

namespace IntervalVector

def step (v : IntervalVector T) : IntervalAction T → Option (IntervalVector T)
  | .reserve start end_ => v.reserve start end_
  | .split value => v.split value
  | .add value item => v.add value item
  | .remove start end_ => v.remove start end_

def machine (T : Type) [Item T] : Machine (IntervalVector T) (IntervalAction T) where
  init v := v = ⟨[]⟩
  step := step

end IntervalVector

end X64Emulator
