import X64Emulator.BitTests
import X64Emulator.Lemmas.Cpu
import X64Emulator.Lib.Windows

/-!
# The effect of a bit test

Every bit test is `onBit`, for some width and some place. What `onBit` does depends only on the cell the bit is in and its place
there: `touched` is the state with the carry taken from one bit of one byte, and that bit updated.
-/

namespace X64Emulator

open Bits Lanes

/-- The bytes of a memory. -/
def Memory.bytes (memory : Memory) : Nat → BitVec 8 := fun a => (memory a).toBitVec

namespace AddressSpace

variable {w : Nat}

/-- What a read gives is what a window shows. -/
theorem read_window {s : AddressSpace} {address : Nat} (h : s.allows Prot.read address (w / 8) = true) :
    s.read w address = some ((Window.ofNat address (w / 8)).load w s.memory.bytes) := read_eq_some.2 ⟨h, rfl⟩

/-- A write is a store through a window. -/
theorem write_window {s : AddressSpace} {address : Nat} (value : BitVec w)
    (h : s.allows Prot.write address (w / 8) = true) :
    s.write address value =
      some { s with memory := fun a => ⟨(Window.ofNat address (w / 8)).store s.memory.bytes value a⟩ } := by
  refine write_eq_some.2 ⟨h, ?_⟩
  congr 1
  funext a
  by_cases ha : address ≤ a ∧ a < address + w / 8
  · rw [Window.store, if_pos (Window.index_ofNat_lt.2 ha), if_pos ha]
    simp [Window.ofNat, ha.1]
  · rw [Window.store, if_neg (fun h => ha (Window.index_ofNat_lt.1 h)), if_neg ha]
    rfl

end AddressSpace

namespace CpuImpl

variable {w : Nat}

theorem toNat_bitIndex (hw : w < 2 ^ w) (index : BitVec w) : (bitIndex index).toNat = index.toNat % w := by
  rw [bitIndex, BitVec.toNat_umod, BitVec.toNat_ofNat, Nat.mod_eq_of_lt hw]

theorem carry_bt (hw : w < 2 ^ w) (base index : BitVec w) (flags : Flags) :
    bt base index flags = { flags with carry := base.getLsbD (index.toNat % w) } := by
  have hbit := decide_and_one (base >>> bitIndex index)
  rw [BitVec.ushiftRight_eq', toNat_bitIndex hw, BitVec.getLsbD_ushiftRight, Nat.add_zero] at hbit
  rw [bt, BitVec.ushiftRight_eq', toNat_bitIndex hw, hbit]

theorem btr_eq (hw : w < 2 ^ w) (base index : BitVec w) (flags : Flags) :
    (btr base index flags).1 = setBit base (index.toNat % w) false := by
  rw [btr, BitVec.shiftLeft_eq', toNat_bitIndex hw, setBit]
  simp

theorem bts_eq (hw : w < 2 ^ w) (base index : BitVec w) (flags : Flags) :
    (bts base index flags).1 = setBit base (index.toNat % w) true := by
  have hone : (BitVec.ofBool true).setWidth w = 1#w := by
    apply BitVec.eq_of_toNat_eq
    simp
  rw [bts, BitVec.shiftLeft_eq', toNat_bitIndex hw, setBit, hone]

theorem btc_eq (hw : w < 2 ^ w) (hpos : 0 < w) (base index : BitVec w) (flags : Flags) :
    (btc base index flags).1 = setBit base (index.toNat % w) (!base.getLsbD (index.toNat % w)) := by
  have hlt : index.toNat % w < w := Nat.mod_lt _ hpos
  apply BitVec.eq_of_getLsbD_eq
  intro i hi
  rw [btc, BitVec.shiftLeft_eq', toNat_bitIndex hw, getLsbD_setBit hlt]
  by_cases hbit : i = index.toNat % w
  · simp [← hbit, hi]
  · by_cases hbelow : i < index.toNat % w
    · simp [hbit, hi, hbelow]
    · simp [hbit, hi, hbelow, show i - index.toNat % w ≠ 0 by omega]

end CpuImpl

namespace BitTest

open Cpu

variable {w : Nat}

/-- The function of `CpuImpl` behind an operation that writes. -/
def impl : BitTest → (width : OperandWidth) → BinaryOp width
  | .bt, _ => fun base index flags => (base, CpuImpl.bt base index flags)
  | .btr, _ => CpuImpl.btr
  | .btc, _ => CpuImpl.btc
  | .bts, _ => CpuImpl.bts

theorem exec_bt (width : BitWidth) (dst : RM width.operand) (bit : width.operand.Reg) :
    BitTest.bt.exec width dst bit = execBt width.operand CpuImpl.bt dst (.reg bit) := by
  cases width <;> rfl

theorem exec_of_writes {op : BitTest} (h : op.writes = true) (width : BitWidth) (dst : RM width.operand)
    (bit : width.operand.Reg) :
    op.exec width dst bit = execBinary width.operand (op.impl width.operand) dst (.rm (.reg bit)) := by
  cases op with
  | bt => exact absurd h (by decide)
  | btr => cases width <;> rfl
  | btc => cases width <;> rfl
  | bts => cases width <;> rfl

theorem bits_lt (width : OperandWidth) : width.bits < 2 ^ width.bits ∧ 0 < width.bits := by
  cases width <;> decide

theorem impl_eq {op : BitTest} (h : op.writes = true) (width : OperandWidth) (base index : BitVec width.bits) (flags : Flags) :
    op.impl width base index flags =
      (setBit base (index.toNat % width.bits) (op.update (base.getLsbD (index.toNat % width.bits))),
        { flags with carry := base.getLsbD (index.toNat % width.bits) }) := by
  obtain ⟨hlt, hpos⟩ := bits_lt width
  have hcarry := CpuImpl.carry_bt hlt base index flags
  cases op with
  | bt => exact absurd h (by decide)
  | btr => exact Prod.ext (CpuImpl.btr_eq hlt base index flags) hcarry
  | btc => exact Prod.ext (CpuImpl.btc_eq hlt hpos base index flags) hcarry
  | bts => exact Prod.ext (CpuImpl.bts_eq hlt base index flags) hcarry

/-- An operand in memory: the handler takes the index modulo the width. -/
theorem exec_mem (op : BitTest) (width : BitWidth) (mem : Ir.Mem) (bit : width.operand.Reg) (c : Cpu) :
    op.exec width (.mem mem) bit c =
      op.onBit width.operand.bits (c.resolve mem) ((c.get width.operand bit).toNat % width.operand.bits) c := by
  by_cases hwrites : op.writes = true
  · rw [exec_of_writes hwrites]
    cases hread : c.getPtr width.operand.bits (c.resolve mem) with
    | none => simp [execBinary, onBit, getRM, hread]
    | some base =>
      simp [execBinary, onBit, getRM, getSource, setRM, hread, hwrites, impl_eq hwrites, setCarry]
  · obtain rfl : op = .bt := by
      cases op with
      | bt => rfl
      | btr | btc | bts => exact absurd rfl hwrites
    rw [exec_bt]
    cases hread : c.getPtr width.operand.bits (c.resolve mem) with
    | none => simp [execBt, onBit, getRM, hread]
    | some base =>
      simp [execBt, onBit, getRM, getSource, BitIndex.source, hread, writes, setCarry,
        CpuImpl.carry_bt (bits_lt width.operand).1]

/-- An operand in a register. -/
theorem exec_reg (op : BitTest) (width : BitWidth) (reg : width.operand.Reg) (bit : width.operand.Reg) (c : Cpu) :
    op.exec width (.reg reg) bit c = op.onRegister width.operand reg (c.get width.operand bit) c := by
  by_cases hwrites : op.writes = true
  · rw [exec_of_writes hwrites]
    simp [execBinary, onRegister, getRM, getSource, setRM, hwrites, impl_eq hwrites, setCarry]
  · obtain rfl : op = .bt := by
      cases op with
      | bt => rfl
      | btr | btc | bts => exact absurd rfl hwrites
    rw [exec_bt]
    simp [execBt, onRegister, getRM, getSource, BitIndex.source, writes, setCarry,
      CpuImpl.carry_bt (bits_lt width.operand).1]

/-! ## One bit of one byte -/

/-- What a bit test needs of its operand. -/
def Accessible (op : BitTest) (c : Cpu) (address n : Nat) : Prop :=
  c.mmu.allows Prot.read address n = true ∧ (op.writes = true → c.mmu.allows Prot.write address n = true)

/-- The value of a bit of a byte of memory. -/
def bitAt (c : Cpu) (address k : Nat) : Bool := (c.mmu.memory.bytes address).getLsbD k

/-- The state once a bit has been tested and updated. -/
def touched (op : BitTest) (address k : Nat) (c : Cpu) : Cpu :=
  { setCarry c (bitAt c address k) with
    mmu := { c.mmu with
      memory := fun a => ⟨Window.putBit c.mmu.memory.bytes address k (op.update (bitAt c address k)) a⟩ } }

/-- An operation that does not write leaves the bit. -/
theorem update_of_not_writes {op : BitTest} (h : ¬ op.writes = true) (b : Bool) : op.update b = b := by
  cases op with
  | bt => rfl
  | btr | btc | bts => exact absurd rfl h

/-- A bit that is touched and stays. -/
theorem touched_of_update_eq {op : BitTest} {a k : Nat} (hk : k < 8) {c : Cpu}
    (h : op.update (bitAt c a k) = bitAt c a k) : op.touched a k c = setCarry c (bitAt c a k) := by
  have hsame : Window.putBit c.mmu.memory.bytes a k (op.update (bitAt c a k)) = c.mmu.memory.bytes := by
    funext y
    by_cases hy : y = a
    · rw [Window.putBit, if_pos hy, h, hy]
      exact (setBit_eq_self hk).2 rfl
    · rw [Window.putBit, if_neg hy]
  rw [touched, hsame]
  rfl

theorem onBit_of_accessible {op : BitTest} {ptr : BitVec 64} {k : Nat} {c : Cpu} (hw : w / 8 * 8 = w) (hk : k < w)
    (h : op.Accessible c ptr.toNat (w / 8)) :
    op.onBit w ptr k c = some (op.touched (ptr.toNat + k / 8) (k % 8) c) := by
  have hread := AddressSpace.read_window h.1
  have hbit : ((Window.ofNat ptr.toNat (w / 8)).load w c.mmu.memory.bytes).getLsbD k = bitAt c (ptr.toNat + k / 8) (k % 8) :=
    Window.getLsbD_load _ _ hw hk
  by_cases hwrites : op.writes = true
  · have hwrite := AddressSpace.write_window
      (setBit ((Window.ofNat ptr.toNat (w / 8)).load w c.mmu.memory.bytes) k
        (op.update (bitAt c (ptr.toNat + k / 8) (k % 8)))) (h.2 hwrites)
    rw [Window.store_setBit _ _ hw hk, Window.cell_ofNat] at hwrite
    simp only [onBit, getPtr, hread, hbit, hwrites, setPtr, setCarry, mmu_setFlags, hwrite, touched, if_true,
      Option.bind_eq_bind, Option.bind_some]
  · rw [touched_of_update_eq (by omega) (update_of_not_writes hwrites _)]
    simp only [onBit, getPtr, hread, hbit, hwrites, if_false, Option.bind_eq_bind, Option.bind_some, Bool.false_eq_true]

theorem onBit_of_not_accessible {op : BitTest} {ptr : BitVec 64} {k : Nat} {c : Cpu}
    (h : ¬ op.Accessible c ptr.toNat (w / 8)) : op.onBit w ptr k c = none := by
  cases hread : c.getPtr w ptr with
  | none => simp [onBit, hread]
  | some base =>
    have hallows := (AddressSpace.read_eq_some.1 hread).1
    have hwrites : op.writes = true := by
      by_contra hno
      exact h ⟨hallows, fun hyes => absurd hyes hno⟩
    have hdenied : c.mmu.allows Prot.write ptr.toNat (w / 8) ≠ true := fun hyes => h ⟨hallows, fun _ => hyes⟩
    simp [onBit, hread, hwrites, setPtr, setCarry, AddressSpace.write_eq_none hdenied]

/-- Two bits that are touched leave the same state when they are one bit, or when they agree and the operation leaves them. -/
theorem touched_eq_iff {op : BitTest} {a b k : Nat} (hk : k < 8) {c : Cpu} :
    op.touched a k c = op.touched b k c ↔ a = b ∨ (bitAt c a k = bitAt c b k ∧ op.update (bitAt c a k) = bitAt c a k) := by
  constructor
  · intro hsame
    by_cases hab : a = b
    · exact .inl hab
    · have hcarry : bitAt c a k = bitAt c b k := congrArg (fun c => c.flags.carry) hsame
      have hmemory := congrArg (fun c => (c.mmu.memory a).toBitVec) hsame
      simp only [touched, Window.putBit, if_neg hab, if_true] at hmemory
      exact .inr ⟨hcarry, ((setBit_eq_self hk).1 hmemory).symm⟩
  · rintro (rfl | ⟨hbit, hupdate⟩)
    · rfl
    · rw [touched_of_update_eq hk hupdate, touched_of_update_eq hk (hbit ▸ hupdate), hbit]

/-! ## Where the bit is -/

/-- The place of the bit in its byte is the same whether the index is taken modulo the width or not. -/
theorem bitPlace_eq (width : BitWidth) (index : BitVec width.operand.bits) :
    bitPlace index = index.toNat % width.operand.bits % 8 := by
  have hint := BitVec.toInt_eq_toNat_cond index
  rw [bitPlace]
  cases width with
  | u16 | u32 | u64 =>
    simp only [BitWidth.operand, OperandWidth.bits] at *
    omega

/-- The byte is the same exactly for the indices of the bits of the operand. -/
theorem bitByte_eq_iff (width : BitWidth) (index : BitVec width.operand.bits) (address : BitVec 64) :
    address + BitVec.ofNat 64 (index.toNat % width.operand.bits / 8) = bitByte address index ↔
      0 ≤ index.toInt ∧ index.toInt < width.operand.bits := by
  have hint := BitVec.toInt_eq_toNat_cond index
  have hlt : index.toNat < 2 ^ width.operand.bits := index.isLt
  rw [bitByte, BitVec.add_right_inj, ← BitVec.toNat_inj, BitVec.toNat_ofNat, BitVec.toNat_ofInt]
  cases width with
  | u16 | u32 | u64 =>
    simp only [BitWidth.operand, OperandWidth.bits] at *
    omega

end BitTest

end X64Emulator
