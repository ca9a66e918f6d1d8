import X64Emulator.Lemmas.Cpu
import X64Emulator.StringInstructions

/-!
# The loops of string instructions

Every loop of a handler is `loop`: elements are dealt with at two pointers, and the registers are brought up to date behind it, by
`put`. The turns of the architecture are this loop with the registers brought up to date each time.
-/

namespace X64Emulator

namespace Cpu

/-- A register that is set to its value. -/
theorem setGpr_self (c : Cpu) (reg : Ir.R64) : c.setGpr reg (c.gpr reg) = c := by
  have hsame : (fun r => if r = reg then c.gpr reg else c.gpr r) = c.gpr := by
    funext r
    split
    · rename_i hr
      rw [hr]
    · rfl
  rw [setGpr, hsame]

end Cpu

namespace StringInstruction

open Cpu
open Lockable (acc)

/-- The turn of the loop of a handler. -/
def body (i : StringInstruction) (l : Locals) : Option Locals :=
  (i.element l.dptr l.sptr l.cpu).map fun cpu =>
    ⟨l.dptr + elementSize i.width, if i.hasSource then l.sptr + elementSize i.width else l.sptr, cpu⟩

def loop (i : StringInstruction) (n : Nat) (l : Locals) : Option (Nat × Locals) :=
  CountedLoop.run i.body (fun l => i.stops l.cpu.flags) n l

/-- The pointers at the beginning. -/
def start (i : StringInstruction) (c : Cpu) : Locals := ⟨c.gpr .rdi, if i.hasSource then c.gpr .rsi else 0, c⟩

/-- The registers behind a loop. -/
def put (i : StringInstruction) (k : Nat) (l : Locals) : Cpu :=
  let c := l.cpu.setGpr .rcx (BitVec.ofNat 64 k)
  let c := if i.hasSource then c.setGpr .rsi l.sptr else c
  c.setGpr .rdi l.dptr

theorem put_start (i : StringInstruction) (c : Cpu) : i.put (c.gpr .rcx).toNat (i.start c) = c := by
  rw [put, start]
  cases i.hasSource with
  | true => simp [setGpr_self]
  | false => simp [setGpr_self]

theorem rcx_put (i : StringInstruction) (k : Nat) (l : Locals) : (i.put k l).gpr .rcx = BitVec.ofNat 64 k := by
  rw [put]
  split <;> rfl

theorem put_eq (i : StringInstruction) (k : Nat) (l : Locals) : i.put k l = { l.cpu with gpr := (i.put k l).gpr } := by
  rw [put]
  split <;> rfl

/-! ## One element -/

variable {i : StringInstruction} {c : Cpu}

/-- An element leaves the registers and the regions. -/
theorem of_element {dptr sptr : BitVec 64} {c' : Cpu} (h : i.element dptr sptr c = some c') :
    c'.gpr = c.gpr ∧ ∀ a, c'.mmu.findAddress a = c.mmu.findAddress a := by
  have hset : ∀ {w : Nat} {x : BitVec w}, c.setPtr dptr x = some c' →
      c'.gpr = c.gpr ∧ ∀ a, c'.mmu.findAddress a = c.mmu.findAddress a := by
    intro w x hx
    obtain ⟨mmu, hmmu, hc⟩ := Option.bind_eq_some_iff.1 hx
    obtain ⟨-, rfl⟩ := AddressSpace.write_eq_some.1 hmmu
    rw [← Option.some_inj.1 hc]
    exact ⟨rfl, fun _ => rfl⟩
  cases i with
  | movs width =>
    obtain ⟨x, -, hx⟩ := Option.bind_eq_some_iff.1 h
    exact hset hx
  | stos width => exact hset h
  | cmps =>
    obtain ⟨s1, -, hs1⟩ := Option.bind_eq_some_iff.1 h
    obtain ⟨s2, -, rfl⟩ := Option.map_eq_some_iff.1 hs1
    exact ⟨rfl, fun _ => rfl⟩
  | scas width =>
    obtain ⟨x, -, rfl⟩ := Option.map_eq_some_iff.1 h
    exact ⟨rfl, fun _ => rfl⟩

/-- An element is accessed at its pointer. -/
theorem allows_of_element {dptr sptr : BitVec 64} {c' : Cpu}
    (h : i.element dptr sptr c = some c') : ∃ right, c.mmu.allows right dptr.toNat (i.width.bits / 8) = true := by
  have hset : ∀ {w : Nat} {x : BitVec w}, c.setPtr dptr x = some c' → c.mmu.allows Prot.write dptr.toNat (w / 8) = true := by
    intro w x hx
    obtain ⟨mmu, hmmu, -⟩ := Option.bind_eq_some_iff.1 hx
    exact (AddressSpace.write_eq_some.1 hmmu).1
  cases i with
  | movs width =>
    obtain ⟨x, -, hx⟩ := Option.bind_eq_some_iff.1 h
    exact ⟨_, hset hx⟩
  | stos width => exact ⟨_, hset h⟩
  | cmps =>
    obtain ⟨s1, -, hs1⟩ := Option.bind_eq_some_iff.1 h
    obtain ⟨s2, hs2, -⟩ := Option.map_eq_some_iff.1 hs1
    exact ⟨_, (AddressSpace.read_eq_some.1 hs2).1⟩
  | scas width =>
    obtain ⟨x, hx, -⟩ := Option.map_eq_some_iff.1 h
    exact ⟨_, (AddressSpace.read_eq_some.1 hx).1⟩

theorem get_acc_congr {c' : Cpu} (h : c'.gpr .rax = c.gpr .rax) (width : OperandWidth) :
    c'.get width (acc width) = c.get width (acc width) := by
  cases width with
  | u8 => exact congrArg (BitVec.setWidth 8) h
  | u16 => exact congrArg (BitVec.setWidth 16) h
  | u32 => exact congrArg (BitVec.setWidth 32) h
  | u64 => exact h

/-- Other registers than the accumulator do not matter. -/
theorem element_withGpr (i : StringInstruction) (dptr sptr : BitVec 64) (c : Cpu) {gpr : Ir.R64 → BitVec 64}
    (h : gpr .rax = c.gpr .rax) :
    i.element dptr sptr { c with gpr := gpr } = (i.element dptr sptr c).map fun c => { c with gpr := gpr } := by
  have hset : ∀ {w : Nat} (x : BitVec w),
      ({ c with gpr := gpr } : Cpu).setPtr dptr x = (c.setPtr dptr x).map fun c => { c with gpr := gpr } := by
    intro w x
    cases hmmu : c.mmu.write dptr.toNat x with
    | none => simp [setPtr, hmmu]
    | some mmu => simp [setPtr, hmmu]
  cases i with
  | movs width =>
    cases hread : c.getPtr width.bits sptr with
    | none =>
      simp only [getPtr] at hread
      simp [element, getPtr, hread]
    | some x =>
      simp only [getPtr] at hread
      simp [element, getPtr, hread, hset]
  | stos width =>
    have hacc : ({ c with gpr := gpr } : Cpu).get width (acc width) = c.get width (acc width) := get_acc_congr h width
    rw [element, element, hset, hacc]
  | cmps =>
    simp only [element, getPtr, Option.map_bind, Function.comp_def, Option.map_map]
    rfl
  | scas width =>
    have hacc : ({ c with gpr := gpr } : Cpu).get width (acc width) = c.get width (acc width) := get_acc_congr h width
    simp only [element, getPtr, Option.map_map, hacc]
    rfl

/-- The second pointer is not looked at where there is no source. -/
theorem element_sptr (h : i.hasSource = false) (dptr sptr sptr' : BitVec 64) (c : Cpu) :
    i.element dptr sptr c = i.element dptr sptr' c := by
  cases i with
  | movs width | cmps => exact absurd h (by simp [hasSource])
  | stos width | scas width => rfl

/-! ## The loop -/

/-- A turn of the architecture is a turn of the loop, and the registers. -/
theorem turn_put (i : StringInstruction) (k : Nat) (l : Locals) : i.turn (i.put (k + 1) l) = (i.body l).map (i.put k) := by
  have hrax : (i.put (k + 1) l).gpr .rax = l.cpu.gpr .rax := by
    rw [put]
    split <;> rfl
  have hrdi : (i.put (k + 1) l).gpr .rdi = l.dptr := rfl
  have helement : i.element ((i.put (k + 1) l).gpr .rdi) ((i.put (k + 1) l).gpr .rsi) (i.put (k + 1) l) =
      (i.element l.dptr l.sptr l.cpu).map fun c => { c with gpr := (i.put (k + 1) l).gpr } := by
    conv => lhs; arg 4; rw [put_eq]
    rw [element_withGpr i _ _ _ hrax, hrdi]
    congr 1
    by_cases hsource : i.hasSource = true
    · congr 1
      simp [put, hsource, setGpr]
    · exact element_sptr (by simpa using hsource) _ _ _ _
  rw [turn, step, helement, body, Option.map_map, Option.map_map, Option.map_map]
  refine Option.map_congr fun c hc => ?_
  have hgpr := (of_element hc).1
  simp only [Function.comp_apply, put]
  cases hsource : i.hasSource with
  | true =>
    simp only [if_true, setGpr, hgpr]
    congr 1
    funext r
    cases r <;> simp [BitVec.ofNat_add]
  | false =>
    simp only [Bool.false_eq_true, if_false, setGpr, hgpr]
    congr 1
    funext r
    cases r <;> simp [BitVec.ofNat_add]

/-- The turns of the architecture are those of the loop, for any part of the count. -/
theorem turns_eq (i : StringInstruction) (c : Cpu) {n off : Nat} (h : n + off = (c.gpr .rcx).toNat) :
    i.turns n c = (i.loop n (i.start c)).map fun p => i.put (p.1 + off) p.2 := by
  have hstep : ∀ k l, True → i.turn (i.put (k + 1 + off) l) = (i.body l).map fun l => i.put (k + off) l := by
    intro k l _
    rw [Nat.add_right_comm]
    exact turn_put i (k + off) l
  have hstop : ∀ k l, i.stops (i.put (k + off) l).flags = i.stops l.cpu.flags := by
    intro k l
    rw [put]
    split <;> rfl
  have hrun : CountedLoop.run i.turn (fun c => i.stops c.flags) n (i.put (n + off) (i.start c)) =
      (i.loop n (i.start c)).map fun p => (p.1, i.put (p.1 + off) p.2) :=
    CountedLoop.run_map (fun k l => i.put (k + off) l) hstep hstop (fun _ _ _ _ => trivial) n trivial
  rw [h, put_start] at hrun
  rw [turns, hrun, Option.map_map]
  rfl

/-- The addresses of an address space end far below those of a pointer. -/
def Small (mmu : AddressSpace) : Prop := ∀ a region, mmu.findAddress a = some region → a < 2 ^ 53

theorem size_pos (i : StringInstruction) : 0 < i.width.bits / 8 ∧ (elementSize i.width).toNat = i.width.bits / 8 := by
  have hwidth : ∀ width : OperandWidth, 0 < width.bits / 8 ∧ (elementSize width).toNat = width.bits / 8 := by
    intro width
    cases width <;> decide
  exact hwidth i.width

/-- The pointer moves on by one element, and does not wrap. -/
theorem dptr_of_body {l l' : Locals} (h : i.body l = some l') (hsmall : Small l.cpu.mmu) :
    l'.dptr.toNat = l.dptr.toNat + i.width.bits / 8 ∧ Small l'.cpu.mmu := by
  obtain ⟨c, hc, rfl⟩ := Option.map_eq_some_iff.1 h
  obtain ⟨right, hallows⟩ := allows_of_element hc
  obtain ⟨hpos, hsize⟩ := size_pos i
  obtain ⟨region, hregion, -⟩ := AddressSpace.allows_eq_true.1 hallows (i.width.bits / 8 - 1) (by omega)
  have hlt := hsmall _ region hregion
  constructor
  · rw [BitVec.toNat_add, hsize, Nat.mod_eq_of_lt (by omega)]
  · intro a region' ha
    rw [(of_element hc).2 a] at ha
    exact hsmall a region' ha

/-- How far the pointer is behind a loop. -/
theorem dptr_of_loop {n k : Nat} {l l' : Locals} (h : i.loop n l = some (k, l')) (hsmall : Small l.cpu.mmu) :
    k ≤ n ∧ l'.dptr.toNat + i.width.bits / 8 * k = l.dptr.toNat + i.width.bits / 8 * n := by
  have hinv := CountedLoop.run_invariant
    (I := fun k l' => Small l'.cpu.mmu ∧ l'.dptr.toNat + i.width.bits / 8 * k = l.dptr.toNat + i.width.bits / 8 * n)
    (fun k s s' hs hstep => by
      obtain ⟨hdptr, hkept⟩ := dptr_of_body hstep hs.1
      refine ⟨hkept, ?_⟩
      rw [hdptr, ← hs.2, Nat.mul_succ]
      omega) h ⟨hsmall, rfl⟩
  exact ⟨hinv.2, hinv.1.2⟩

/-- What the architecture leaves in the registers that count. -/
theorem of_turns {c' : Cpu} {n : Nat} (hn : n ≤ (c.gpr .rcx).toNat) (h : i.turns n c = some c')
    (hsmall : Small c.mmu) :
    ∃ k ≤ n, c'.gpr .rcx = BitVec.ofNat 64 (k + ((c.gpr .rcx).toNat - n)) ∧
      (c'.gpr .rdi).toNat + i.width.bits / 8 * k = (c.gpr .rdi).toNat + i.width.bits / 8 * n := by
  rw [turns_eq i c (Nat.add_sub_cancel' hn)] at h
  obtain ⟨⟨k, l⟩, hloop, rfl⟩ := Option.map_eq_some_iff.1 h
  obtain ⟨hle, hdptr⟩ := dptr_of_loop hloop hsmall
  exact ⟨k, hle, rcx_put i _ l, hdptr⟩

/-- A handler that takes the turns of the loop and sets the registers behind it is right when it takes all of them, or when one of
those it takes fails. -/
theorem eq_repeated_iff {n : Nat} (hn : n ≤ (c.gpr .rcx).toNat) (hsmall : Small c.mmu) :
    (i.loop n (i.start c)).map (fun p => i.put p.1 p.2) = i.repeated c ↔
      i.turns n c = none ∨ (c.gpr .rcx).toNat = n := by
  have hlt := (c.gpr .rcx).isLt
  obtain ⟨hpos, -⟩ := size_pos i
  have hturns := turns_eq i c (Nat.add_sub_cancel' hn)
  cases hloop : i.loop n (i.start c) with
  | none =>
    have hall := CountedLoop.run_eq_none_of_le hn hloop
    have hrepeated := turns_eq i c (Nat.add_zero (c.gpr .rcx).toNat)
    rw [loop, hall, Option.map_none] at hrepeated
    rw [hloop, Option.map_none] at hturns
    exact iff_of_true hrepeated.symm (.inl hturns)
  | some p =>
    obtain ⟨k, l⟩ := p
    rw [hloop, Option.map_some] at hturns
    rw [hturns]
    constructor
    · intro hsame
      obtain ⟨hle, hdptr⟩ := dptr_of_loop hloop hsmall
      obtain ⟨k', hle', hrcx, hrdi⟩ := of_turns (Nat.le_refl _) hsame.symm hsmall
      have hcount := (rcx_put i k l).symm.trans hrcx
      have hk : k = k' := by
        have hnat := congrArg BitVec.toNat hcount
        rw [BitVec.toNat_ofNat, BitVec.toNat_ofNat, Nat.mod_eq_of_lt (by omega), Nat.mod_eq_of_lt (by omega)] at hnat
        omega
      subst hk
      change l.dptr.toNat + i.width.bits / 8 * k = _ at hrdi
      rw [hdptr] at hrdi
      exact .inr (Nat.eq_of_mul_eq_mul_left hpos (Nat.add_left_cancel hrdi)).symm
    · rintro (hno | hall)
      · exact absurd hno (by simp)
      · have hrepeated := turns_eq i c (Nat.add_zero (c.gpr .rcx).toNat)
        rw [hall, hloop] at hrepeated
        rw [repeated, hall, hrepeated]
        rfl

/-! ## The handlers -/

/-- Only one of the segments has a base. -/
def Flat (c : Cpu) : Prop := c.segmentBase .ds = 0 ∧ c.segmentBase .es = 0

theorem resolve_operands (hflat : Flat c) : c.resolve dst = c.gpr .rdi ∧ c.resolve src = c.gpr .rsi := by
  simp [resolve, dst, src, hflat.1, hflat.2]

theorem loop_le {n k : Nat} {l l' : Locals} (h : i.loop n l = some (k, l')) : k ≤ n :=
  (CountedLoop.run_invariant (I := fun _ _ => True) (fun _ _ _ _ _ => trivial) h trivial).2

/-- A handler has read the accumulator before its loop, and sets the registers behind it. -/
theorem run_bind_eq (i : StringInstruction) {body : Locals → Option Locals}
    (hbody : ∀ l : Locals, l.cpu.gpr = c.gpr → body l = i.body l) {n : Nat} {sets : Nat × Locals → Option Cpu}
    (hsets : ∀ k ≤ n, ∀ l, sets (k, l) = some (i.put k l)) :
    (CountedLoop.run body (fun l => i.stops l.cpu.flags) n (i.start c)).bind sets =
      (i.loop n (i.start c)).map fun p => i.put p.1 p.2 := by
  have hloop : CountedLoop.run body (fun l => i.stops l.cpu.flags) n (i.start c) = i.loop n (i.start c) := by
    refine CountedLoop.run_congr hbody (fun _ => rfl) (fun s s' hs hstep => ?_) n rfl
    obtain ⟨c', hc', rfl⟩ := Option.map_eq_some_iff.1 hstep
    exact (of_element hc').1.trans hs
  rw [hloop]
  cases hrun : i.loop n (i.start c) with
  | none => rfl
  | some p =>
    rw [Option.bind_some, Option.map_some]
    exact hsets p.1 (loop_le hrun) p.2

/-- A count of 32 bits fills the whole register. -/
theorem set32_ecx (c : Cpu) {k : Nat} (hk : k < 2 ^ 32) :
    c.set32 .ecx (BitVec.ofNat 32 k) = some (c.setGpr .rcx (BitVec.ofNat 64 k)) := by
  have hvalue : (BitVec.ofNat 32 k).setWidth 64 = BitVec.ofNat 64 k := by
    apply BitVec.eq_of_toNat_eq
    rw [BitVec.toNat_setWidth, BitVec.toNat_ofNat, BitVec.toNat_ofNat, Nat.mod_eq_of_lt hk]
  rw [set32, verify_of (by decide), Option.bind_eq_bind, Option.bind_some, hvalue]
  rfl

/-- The handlers without a prefix take one step. -/
theorem execMovs_eq (hdir : c.flags.direction = false) (hflat : Flat c) (width : OperandWidth) :
    c.execMovs width dst src = (movs width).step c := by
  obtain ⟨hdst, hsrc⟩ := resolve_operands hflat
  rw [execMovs, verify_of hdir, hdst, hsrc, step, element]
  cases hx : c.getPtr width.bits (c.gpr .rsi) with
  | none => rfl
  | some x =>
    cases hc' : c.setPtr (c.gpr .rdi) x with
    | none => simp [hc']
    | some c' =>
      have helement : (movs width).element (c.gpr .rdi) (c.gpr .rsi) c = some c' := by
        rw [element, hx, Option.bind_some, hc']
      have hgpr := (of_element helement).1
      simp [hc', hasSource, StringInstruction.width, setGpr, hgpr, set64, verify]

theorem execRepMovs_eq (hdir : c.flags.direction = false) (hflat : Flat c) (width : OperandWidth) :
    c.execRepMovs width dst src =
      ((movs width).loop (c.get32 .ecx).toNat ((movs width).start c)).map fun p => (movs width).put p.1 p.2 := by
  obtain ⟨hdst, hsrc⟩ := resolve_operands hflat
  rw [execRepMovs, verify_of hdir, hdst, hsrc]
  refine run_bind_eq (movs width) (fun l _ => ?_) fun k hk l => ?_
  · simp [body, element, hasSource, StringInstruction.width, Option.bind_assoc, Option.map_eq_bind]
  · have hlt := Nat.lt_of_le_of_lt hk (c.get32 .ecx).isLt
    exact congrArg (Option.bind · _) (set32_ecx l.cpu hlt)

theorem execRepCmps_eq (hdir : c.flags.direction = false) (hflat : Flat c) : c.execRepCmpsM8M8 src dst =
      (cmps.loop (c.get32 .ecx).toNat (cmps.start c)).map fun p => cmps.put p.1 p.2 := by
  obtain ⟨hdst, hsrc⟩ := resolve_operands hflat
  rw [execRepCmpsM8M8, verify_of hdir, hdst, hsrc]
  refine run_bind_eq cmps (fun l _ => ?_) fun k hk l => rfl
  rw [body, element]
  cases l.cpu.getPtr 8 l.sptr with
  | none => rfl
  | some s1 =>
    cases l.cpu.getPtr 8 l.dptr with
    | none => rfl
    | some s2 => rfl

theorem execRepStos_eq (hdir : c.flags.direction = false) (hflat : Flat c) (width : OperandWidth) (n : Nat) :
    c.execRepStos width dst (acc width) n =
      ((stos width).loop n ((stos width).start c)).map fun p => (stos width).put p.1 p.2 := by
  rw [execRepStos, verify_of hdir, (resolve_operands hflat).1]
  refine run_bind_eq (stos width) (fun l hl => ?_) fun k hk l => rfl
  rw [body, element, get_acc_congr (congrFun hl .rax), Option.map_eq_bind]
  rfl

theorem execRepNZScas_eq (hdir : c.flags.direction = false) (hflat : Flat c) (width : OperandWidth) :
    c.execRepNZScas width (acc width) dst =
      ((scas width).loop (c.get64 .rcx).toNat ((scas width).start c)).map fun p => (scas width).put p.1 p.2 := by
  rw [execRepNZScas, verify_of hdir, (resolve_operands hflat).1]
  refine run_bind_eq (scas width) (fun l hl => ?_) fun k hk l => rfl
  rw [body, element, get_acc_congr (congrFun hl .rax), Option.map_map, Option.map_eq_bind]
  rfl

end StringInstruction

end X64Emulator
