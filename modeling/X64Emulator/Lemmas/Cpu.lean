import X64Emulator.Cpu

/-!
# Accesses of the CPU

What a read and a write need, and what they leave. A register and the memory are apart: to set one commutes with a write of the
other.
-/

namespace X64Emulator

open Lanes

namespace AddressSpace

variable {w : Nat}
variable {s : AddressSpace} {address : Nat}

@[simp] theorem allows_eq_true {right : Prot → Bool} {size : Nat} : s.allows right address size = true ↔
      ∀ i < size, ∃ region, s.findAddress (address + i) = some region ∧ right region.prot = true := by
  simp [allows, Option.any_eq_true]

/-- The first byte lies in a region. -/
theorem findAddress_isSome_of_allows {right : Prot → Bool} {size : Nat} (hsize : 0 < size)
    (h : s.allows right address size = true) : (s.findAddress address).isSome = true := by
  obtain ⟨region, hregion, -⟩ := allows_eq_true.1 h 0 hsize
  rw [Nat.add_zero] at hregion
  simp [hregion]

theorem read_eq_some {value : BitVec w} :
    s.read w address = some value ↔ s.allows Prot.read address (w / 8) = true ∧
      join w (w / 8) (fun i => (s.memory (address + i)).toBitVec) = value := by
  cases hallows : s.allows Prot.read address (w / 8) <;> simp [read, verify, hallows]

/-- To write what is there changes nothing. -/
theorem write_of_read {value : BitVec w} (hread : s.read w address = some value)
    (hwrite : s.allows Prot.write address (w / 8) = true) : s.write address value = some s := by
  obtain ⟨-, rfl⟩ := read_eq_some.1 hread
  have hsame : (fun a => if address ≤ a ∧ a < address + w / 8 then
      (⟨lane 8 (join w (w / 8) fun i => (s.memory (address + i)).toBitVec) (a - address)⟩ : UInt8) else s.memory a) =
      s.memory := by
    funext a
    by_cases ha : address ≤ a ∧ a < address + w / 8
    · rw [if_pos ha, lane_join (Nat.div_mul_le_self w 8) (by omega), Nat.add_sub_cancel' ha.1]
    · rw [if_neg ha]
  simp only [write, verify_of hwrite, Option.bind_eq_bind, Option.bind_some, hsame]

theorem write_eq_none {value : BitVec w}
    (h : s.allows Prot.write address (w / 8) ≠ true) : s.write address value = none := by
  simp [write, verify, h]

theorem write_eq_some {s' : AddressSpace} {value : BitVec w} :
    s.write address value = some s' ↔ s.allows Prot.write address (w / 8) = true ∧
      s' = { s with
        memory := fun a => if address ≤ a ∧ a < address + w / 8 then ⟨lane 8 value (a - address)⟩ else s.memory a } := by
  cases hallows : s.allows Prot.write address (w / 8) <;> simp [write, verify, hallows, eq_comm]

/-- What is written is read back. -/
theorem read_of_write {s' : AddressSpace} {value : BitVec w} (hw : w / 8 * 8 = w)
    (hread : s.allows Prot.read address (w / 8) = true) (hwrite : s.write address value = some s') :
    s'.read w address = some value := by
  obtain ⟨-, rfl⟩ := write_eq_some.1 hwrite
  refine read_eq_some.2 ⟨hread, ?_⟩
  apply ext_lane hw
  intro i hi
  rw [lane_join (Nat.div_mul_le_self w 8) hi]
  simp [hi]

/-- A byte is read as it is. -/
theorem read_byte (h : s.allows Prot.read address 1 = true) :
    s.read 8 address = some (s.memory address).toBitVec := by
  refine read_eq_some.2 ⟨h, ?_⟩
  apply BitVec.eq_of_getLsbD_eq
  intro j hj
  rw [getLsbD_join (by decide), Nat.div_eq_of_lt hj, Nat.mod_eq_of_lt hj]
  simp [hj]

theorem write_byte {value : UInt8} (h : s.allows Prot.write address 1 = true) :
    s.write address value.toBitVec = some { s with memory := fun a => if a = address then value else s.memory a } := by
  have hmemory : (fun a => if address ≤ a ∧ a < address + 8 / 8 then ⟨lane 8 value.toBitVec (a - address)⟩ else s.memory a) =
      fun a => if a = address then value else s.memory a := by
    funext a
    by_cases ha : a = address
    · rw [if_pos (by omega), if_pos ha, ha, Nat.sub_self]
      exact congrArg UInt8.ofBitVec (by simp [lane])
    · rw [if_neg (by omega), if_neg ha]
  refine write_eq_some.2 ⟨h, ?_⟩
  rw [hmemory]

end AddressSpace

namespace Cpu

variable {width : OperandWidth} {w : Nat}

@[simp] theorem gpr_setFlags (c : Cpu) (flags : Flags) : (c.setFlags flags).gpr = c.gpr := rfl

@[simp] theorem mmu_setFlags (c : Cpu) (flags : Flags) : (c.setFlags flags).mmu = c.mmu := rfl

@[simp] theorem flags_setFlags (c : Cpu) (flags : Flags) : (c.setFlags flags).flags = flags := rfl

@[simp] theorem resolve_setFlags (c : Cpu) (flags : Flags) (mem : Ir.Mem) : (c.setFlags flags).resolve mem = c.resolve mem := rfl

/-- To set a register changes nothing but the registers, and looks at nothing else. -/
theorem set_withMmu (c : Cpu) (mmu : AddressSpace) (reg : width.Reg) (value : BitVec width.bits) :
    ({ c with mmu := mmu } : Cpu).set width reg value =
      (c.set width reg value).map fun c => { c with mmu := mmu } := by
  cases width with
  | u8 => cases reg <;> rfl
  | u16 => rfl
  | u32 => by_cases h : reg = .eiz <;> simp [set, set32, verify, h, setGpr]
  | u64 => by_cases h : reg = .zero <;> simp [set, set64, verify, h, setGpr]

theorem mmu_of_set {c c' : Cpu} {reg : width.Reg} {value : BitVec width.bits} (h : c.set width reg value = some c') :
    c'.mmu = c.mmu := by
  have hsame := set_withMmu c c.mmu reg value
  rw [h, Option.map_some, Option.some_inj] at hsame
  rw [hsame]

/-- A register is set before or after a write. -/
theorem set_bind_setPtr (c : Cpu) (reg : width.Reg) (value : BitVec width.bits) (ptr : BitVec 64) (x : BitVec w) :
    ((c.set width reg value).bind fun c => c.setPtr ptr x) = (c.setPtr ptr x).bind fun c => c.set width reg value := by
  cases hwrite : c.mmu.write ptr.toNat x with
  | none =>
    cases hset : c.set width reg value with
    | none => simp [setPtr, hwrite]
    | some c' => simp [setPtr, mmu_of_set hset, hwrite]
  | some mmu =>
    cases hset : c.set width reg value with
    | none => simp [setPtr, hwrite, set_withMmu, hset]
    | some c' => simp [setPtr, mmu_of_set hset, hwrite, set_withMmu, hset]

end Cpu

end X64Emulator
