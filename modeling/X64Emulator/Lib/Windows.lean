import X64Emulator.Lib.Bits
import X64Emulator.Lib.Lanes
import Mathlib.Algebra.Group.Nat.Defs

/-!
# Windows on a memory

A window numbers some of the cells of a memory of bytes. What it shows is a vector, the byte of its first cell the lowest; a
store puts the bytes of a vector into the cells and leaves the others alone. A bit of the vector is a bit of one cell.
-/

open Bits Lanes

/-- `n` cells, each with its number. -/
structure Window (α : Type*) (n : Nat) where
  cell : Nat → α
  index : α → Nat
  index_cell : ∀ i < n, index (cell i) = i
  cell_index : ∀ a, index a < n → cell (index a) = a

namespace Window

variable {α : Type*} {n v : Nat}

def load (W : Window α n) (v : Nat) (m : α → BitVec 8) : BitVec v := join v n fun i => m (W.cell i)

def store (W : Window α n) (m : α → BitVec 8) (x : BitVec v) : α → BitVec 8 :=
  fun a => if W.index a < n then lane 8 x (W.index a) else m a

/-- A memory with one bit replaced. -/
def putBit [DecidableEq α] (m : α → BitVec 8) (a : α) (k : Nat) (b : Bool) : α → BitVec 8 :=
  fun c => if c = a then setBit (m c) k b else m c

theorem store_of_le (W : Window α n) (m : α → BitVec 8) (x : BitVec v) {a : α} (h : n ≤ W.index a) : W.store m x a = m a :=
  if_neg (Nat.not_lt.2 h)

theorem store_cell (W : Window α n) (m : α → BitVec 8) (x : BitVec v) {i : Nat} (h : i < n) :
    W.store m x (W.cell i) = lane 8 x i := by
  rw [store, W.index_cell i h, if_pos h]

theorem load_store (W : Window α n) (m : α → BitVec 8) {x : BitVec v} (hv : n * 8 = v) : W.load v (W.store m x) = x := by
  apply ext_lane hv
  intro i hi
  rw [load, lane_join (Nat.le_of_eq hv) hi, W.store_cell m x hi]

theorem load_congr (W : Window α n) {m m' : α → BitVec 8} (h : ∀ i < n, m (W.cell i) = m' (W.cell i)) :
    W.load v m = W.load v m' := join_congr h

theorem lane_load (W : Window α n) (m : α → BitVec 8) (hv : n * 8 = v) {i : Nat} (hi : i < n) :
    lane 8 (W.load v m) i = m (W.cell i) := lane_join (Nat.le_of_eq hv) hi

theorem getLsbD_load (W : Window α n) (m : α → BitVec 8) (hv : n * 8 = v) {j : Nat} (hj : j < v) :
    (W.load v m).getLsbD j = (m (W.cell (j / 8))).getLsbD (j % 8) := by
  rw [load, getLsbD_join (Nat.le_of_eq hv)]
  simp [show j < n * 8 by omega]

/-- A bit of the vector replaced is a bit of a cell replaced. -/
theorem store_setBit [DecidableEq α] (W : Window α n) (m : α → BitVec 8) (hv : n * 8 = v) {j : Nat} (hj : j < v) (b : Bool) :
    W.store m (setBit (W.load v m) j b) = putBit m (W.cell (j / 8)) (j % 8) b := by
  have hdiv : j / 8 < n := by omega
  funext a
  by_cases ha : W.index a < n
  · have hcell := W.cell_index a ha
    apply BitVec.eq_of_getLsbD_eq
    intro k hk
    rw [store, if_pos ha, getLsbD_lane, getLsbD_setBit hj, W.getLsbD_load m hv (by omega),
      show (W.index a * 8 + k) / 8 = W.index a by omega, show (W.index a * 8 + k) % 8 = k by omega, hcell, putBit]
    by_cases hsame : a = W.cell (j / 8)
    · have hindex : W.index a = j / 8 := by rw [hsame, W.index_cell _ hdiv]
      rw [if_pos hsame, getLsbD_setBit (by omega)]
      by_cases hbit : k = j % 8
      · rw [if_pos (by omega), if_pos hbit]
        simp [hk]
      · rw [if_neg (by omega), if_neg hbit]
        simp [hk]
    · have hindex : W.index a ≠ j / 8 := fun h => hsame (by rw [← hcell, h])
      rw [if_neg hsame, if_neg (by omega)]
      simp [hk]
  · have hne : a ≠ W.cell (j / 8) := by
      intro h
      rw [h, W.index_cell _ hdiv] at ha
      exact ha hdiv
    rw [store, if_neg ha, putBit, if_neg hne]

/-! ## The windows of a memory with numbers for addresses -/

def ofNat (address n : Nat) : Window Nat n where
  cell i := address + i
  index a := if address ≤ a then a - address else n
  index_cell i _ := by simp
  cell_index a ha := by
    by_cases hle : address ≤ a
    · rw [if_pos hle]
      omega
    · rw [if_neg hle] at ha
      omega

@[simp] theorem cell_ofNat (address n i : Nat) : (ofNat address n).cell i = address + i := rfl

theorem index_ofNat_lt {address a : Nat} : (ofNat address n).index a < n ↔ address ≤ a ∧ a < address + n := by
  by_cases hle : address ≤ a
  · simp only [ofNat, if_pos hle]
    omega
  · simp [ofNat, hle]

/-! ## The windows of a memory whose addresses wrap -/

def wrapping {w : Nat} (address : BitVec w) (h : n ≤ 2 ^ w) : Window (BitVec w) n where
  cell i := address + BitVec.ofNat w i
  index a := (a - address).toNat
  index_cell i hi := by
    rw [BitVec.add_comm, BitVec.add_sub_cancel, BitVec.toNat_ofNat, Nat.mod_eq_of_lt (by omega)]
  cell_index a _ := by
    rw [BitVec.ofNat_toNat, BitVec.setWidth_eq, BitVec.add_comm, BitVec.sub_add_cancel]

@[simp] theorem cell_wrapping {w : Nat} (address : BitVec w) (h : n ≤ 2 ^ w) (i : Nat) :
    (wrapping address h).cell i = address + BitVec.ofNat w i := rfl

end Window
