import Mathlib.Tactic.Common

/-!
# Heaps of objects

Objects are allocated one after another and a pointer is the number of an allocation, so no two objects ever share a pointer.
An object that was freed leaves its pointer behind, and reading through that pointer gives nothing.
-/

/-- The objects allocated so far, in their order; `none` where the object was freed. -/
structure Heap (α : Type*) where
  cells : List (Option α)

namespace Heap

variable {α : Type*}

/-- The heap before any allocation. -/
def empty : Heap α := ⟨[]⟩

/-- What a pointer points to, if that object still exists. -/
def get? (h : Heap α) (p : Nat) : Option α := h.cells[p]?.join

/-- The pointer the next allocation gives. -/
def next (h : Heap α) : Nat := h.cells.length

def alloc (h : Heap α) (a : α) : Heap α := ⟨h.cells ++ [some a]⟩

/-- Changes the object at a pointer, if there is one. -/
def modify (h : Heap α) (p : Nat) (f : α → α) : Heap α := ⟨h.cells.modify p (Option.map f)⟩

/-- Frees the objects of several pointers. -/
def freeAll (h : Heap α) (ps : List Nat) : Heap α := ⟨h.cells.mapIdx fun p o => if p ∈ ps then none else o⟩

/-- The pointer points to an object. -/
def Live (h : Heap α) (p : Nat) : Prop := ∃ a, h.get? p = some a

/-- The pointer was given out, and its object does not exist any more. -/
def Freed (h : Heap α) (p : Nat) : Prop := p < h.next ∧ h.get? p = none

variable {h : Heap α} {p q : Nat} {a : α} {f : α → α}

theorem get?_empty : (empty : Heap α).get? p = none := by simp [get?, empty]

theorem Live.lt_next (hp : h.Live p) : p < h.next := by
  obtain ⟨a, ha⟩ := hp
  by_contra hlt
  simp [get?, List.getElem?_eq_none (Nat.not_lt.1 hlt)] at ha

theorem Freed.not_live (hp : h.Freed p) : ¬ h.Live p := by
  rintro ⟨a, ha⟩
  simp [hp.2] at ha

theorem get?_next : h.get? h.next = none := by simp [get?, next]

theorem next_alloc : (h.alloc a).next = h.next + 1 := by simp [next, alloc]

theorem get?_alloc_next : (h.alloc a).get? h.next = some a := by simp [get?, alloc, next]

theorem get?_alloc_of_ne (hne : p ≠ h.next) : (h.alloc a).get? p = h.get? p := by
  unfold get? alloc
  rcases Nat.lt_or_ge p h.cells.length with hlt | hge
  · rw [List.getElem?_append_left hlt]
  · have hgt : h.cells.length + 1 ≤ p := Nat.lt_of_le_of_ne hge (Ne.symm hne)
    rw [List.getElem?_eq_none (by simpa using hgt), List.getElem?_eq_none hge]

theorem get?_modify_self : (h.modify p f).get? p = (h.get? p).map f := by
  unfold get? modify
  cases hc : h.cells[p]? with
  | none => simp [hc]
  | some o => simp [hc]

theorem get?_modify_of_ne (hne : q ≠ p) : (h.modify p f).get? q = h.get? q := by
  unfold get? modify
  rw [List.getElem?_modify]
  simp [Ne.symm hne]

theorem next_modify : (h.modify p f).next = h.next := by simp [next, modify]

theorem get?_freeAll_of_mem {ps : List Nat} (hp : p ∈ ps) : (h.freeAll ps).get? p = none := by
  unfold get? freeAll
  rw [List.getElem?_mapIdx]
  cases hc : h.cells[p]? <;> simp [hp]

theorem get?_freeAll_of_not_mem {ps : List Nat} (hp : p ∉ ps) : (h.freeAll ps).get? p = h.get? p := by
  unfold get? freeAll
  rw [List.getElem?_mapIdx]
  cases hc : h.cells[p]? <;> simp [hp]

theorem next_freeAll {ps : List Nat} : (h.freeAll ps).next = h.next := by simp [next, freeAll]

end Heap
