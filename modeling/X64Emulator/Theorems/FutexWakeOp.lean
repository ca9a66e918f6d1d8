import X64Emulator.Workers

/-!
# Waking through an operation on a second word

The interface reads the two arguments of a wake-op as signed numbers of twelve bits, shifts a one by the first where a flag asks
for it, and compares words as signed numbers. The scheduler reads both arguments as unsigned numbers of sixteen bits.
-/

namespace X64Emulator

open Outcome

namespace FutexInterface

/-- The number a field of twelve bits holds. -/
def signed12 (field : Nat) : Int := if field < 2 ^ 11 then field else field - 2 ^ 12

/-- The number a word holds. -/
def signed32 (word : Nat) : Int := if word < 2 ^ 31 then word else word - 2 ^ 32

/-- The word that holds a number. -/
def toWord (n : Int) : Nat := (n % 2 ^ 32).toNat

def isShifted (val3 : UInt32) : Bool := 2 ^ 31 ≤ val3.toNat

def opField (val3 : UInt32) : Nat := val3.toNat / 2 ^ 28 % 2 ^ 3

def cmpField (val3 : UInt32) : Nat := val3.toNat / 2 ^ 24 % 2 ^ 4

def opargField (val3 : UInt32) : Nat := val3.toNat / 2 ^ 12 % 2 ^ 12

def cmpargField (val3 : UInt32) : Nat := val3.toNat % 2 ^ 12

def oparg (val3 : UInt32) : Nat :=
  if isShifted val3 then 2 ^ (opargField val3 % 2 ^ 5) else toWord (signed12 (opargField val3))

/-- `oldval op oparg` -/
def apply (op oldval oparg : Nat) : Nat :=
  match op with
  | 0 => oparg
  | 1 => (oldval + oparg) % 2 ^ 32
  | 2 => oldval ||| oparg
  | 3 => oldval &&& (2 ^ 32 - 1 - oparg)
  | _ => oldval ^^^ oparg

/-- `oldval cmp cmparg` -/
def holds (cmp : Nat) (oldval cmparg : Int) : Bool :=
  match cmp with
  | 0 => decide (oldval = cmparg)
  | 1 => decide (oldval ≠ cmparg)
  | 2 => decide (oldval < cmparg)
  | 3 => decide (oldval ≤ cmparg)
  | 4 => decide (cmparg < oldval)
  | _ => decide (cmparg ≤ oldval)

/-- The word a wake-op stores. -/
def newval (val3 : UInt32) (oldval : Nat) : Nat := apply (opField val3) oldval (oparg val3)

/-- A wake-op wakes the waiters of the second word too. -/
def wakesSecond (val3 : UInt32) (oldval : Nat) : Bool :=
  holds (cmpField val3) (signed32 oldval) (signed12 (cmpargField val3))

/-- The argument encodes one of the five operations and one of the six comparisons. -/
def Defined (val3 : UInt32) : Prop := opField val3 ≤ 4 ∧ cmpField val3 ≤ 5

instance (val3 : UInt32) : Decidable (Defined val3) := inferInstanceAs (Decidable (_ ∧ _))

/-- The word is replaced, the waiters of the first word are woken, those of the second if the word asks for it, and the call
returns how many were woken. -/
def wakeOpBy (store : Nat → Nat) (second : Nat → Bool) (s : Scheduler) (thread uaddr : Nat) (val : UInt32) (uaddr2 : Nat)
    (val2 : UInt32) : Except Failure (Nat × Scheduler) := do
  s.verifyInKernel
  let oldval ← read32 s.memory (s.spaceOf thread) uaddr2
  let memory ← write32 s.memory (s.spaceOf thread) uaddr2 (store oldval)
  let (nbWoken, s) ← { s with memory := memory }.wake uaddr val.toNat
  if second oldval then
    let (nbWoken2, s) ← s.wake uaddr2 val2.toNat
    .ok ((nbWoken + nbWoken2) % 2 ^ 32, s)
  else .ok (nbWoken, s)

/-- What a wake-op is for. -/
def wakeOp (s : Scheduler) (thread uaddr : Nat) (val : UInt32) (uaddr2 : Nat) (val2 val3 : UInt32) :
    Except Failure (Nat × Scheduler) := wakeOpBy (newval val3) (wakesSecond val3) s thread uaddr val uaddr2 val2

end FutexInterface

namespace Scheduler

open FutexInterface

/-! ## The word that is stored -/

theorem or_eq_or_iff {a x y : Nat} : a ||| x = a ||| y ↔ ∀ j, a.testBit j = false → x.testBit j = y.testBit j := by
  constructor
  · intro h j hj
    have hbit := congrArg (fun n => Nat.testBit n j) h
    simpa [hj] using hbit
  · intro h
    refine Nat.eq_of_testBit_eq fun j => ?_
    cases hj : a.testBit j with
    | true => simp [hj]
    | false => simp [hj, h j hj]

theorem andNot_eq_andNot_iff {a x y : Nat} (ha : a < 2 ^ 32) (hx : x < 2 ^ 32) (hy : y < 2 ^ 32) :
    a &&& (2 ^ 32 - 1 - x) = a &&& (2 ^ 32 - 1 - y) ↔ ∀ j, a.testBit j = true → x.testBit j = y.testBit j := by
  have hbit : ∀ z < 2 ^ 32, ∀ j, (a &&& (2 ^ 32 - 1 - z)).testBit j = (a.testBit j && !z.testBit j) := by
    intro z hz j
    have hsub : 2 ^ 32 - 1 - z = 2 ^ 32 - (z + 1) := by omega
    rw [Nat.testBit_and, hsub, Nat.testBit_two_pow_sub_succ hz]
    by_cases hj : j < 32
    · simp [hj]
    · have hlarge : a < 2 ^ j := Nat.lt_of_lt_of_le ha (Nat.pow_le_pow_right (by decide) (by omega))
      simp [Nat.testBit_lt_two_pow hlarge]
  constructor
  · intro h j hj
    have h := congrArg (fun n => Nat.testBit n j) h
    simp only [hbit x hx, hbit y hy, hj, Bool.true_and] at h
    exact Bool.not_inj h
  · intro h
    refine Nat.eq_of_testBit_eq fun j => ?_
    rw [hbit x hx, hbit y hy]
    cases hj : a.testBit j with
    | true => simp [h j hj]
    | false => simp

/-- When storing an argument or another gives the same word: for two of the operations that depends on the bits in which the
arguments differ. -/
theorem apply_eq_apply_iff {op a x y : Nat} (hop : op ≤ 4) (ha : a < 2 ^ 32) (hx : x < 2 ^ 32) (hy : y < 2 ^ 32) :
    apply op a x = apply op a y ↔ x = y ∨ (op = 2 ∧ ∀ j, x.testBit j ≠ y.testBit j → a.testBit j = true) ∨
      (op = 3 ∧ ∀ j, x.testBit j ≠ y.testBit j → a.testBit j = false) := by
  match op with
  | 0 => simp [apply]
  | 1 =>
    simp only [apply]
    omega
  | 2 =>
    simp only [apply, or_eq_or_iff]
    constructor
    · intro h
      refine .inr (.inl ⟨trivial, fun j hj => ?_⟩)
      by_contra hbit
      exact hj (h j (by simpa using hbit))
    · rintro (rfl | ⟨-, h⟩ | ⟨h, -⟩)
      · simp
      · intro j hj
        by_contra hne
        simp [h j hne] at hj
      · cases h
  | 3 =>
    simp only [apply, andNot_eq_andNot_iff ha hx hy]
    constructor
    · intro h
      refine .inr (.inr ⟨trivial, fun j hj => ?_⟩)
      by_contra hbit
      exact hj (h j (by simpa using hbit))
    · rintro (rfl | ⟨h, -⟩ | ⟨-, h⟩)
      · simp
      · cases h
      · intro j hj
        by_contra hne
        simp [h j hne] at hj
  | 4 =>
    simp only [apply]
    constructor
    · intro h
      have hxor := congrArg (fun n => a ^^^ n) h
      exact .inl (by simpa only [← Nat.xor_assoc, Nat.xor_self, Nat.zero_xor] using hxor)
    · rintro (rfl | ⟨h, -⟩ | ⟨h, -⟩)
      · rfl
      · cases h
      · cases h
  | n + 5 => omega

theorem futexOp_oparg_lt (val3 : UInt32) : (futexOp val3).oparg < 2 ^ 32 := by
  unfold futexOp
  simp only
  split <;> omega

theorem oparg_lt (val3 : UInt32) : oparg val3 < 2 ^ 32 := by
  unfold oparg toWord
  split
  · exact Nat.pow_lt_pow_right (by decide) (Nat.mod_lt _ (by decide))
  · omega

/-- The scheduler's argument is the interface's where a field is not negative, or a one is shifted by less than sixteen. -/
theorem oparg_eq {val3 : UInt32}
    (h : if isShifted val3 then opargField val3 % 2 ^ 5 < 16 else opargField val3 < 2 ^ 11) :
    (futexOp val3).oparg = oparg val3 := by
  have hshift : 8 ≤ val3.toNat / 2 ^ 28 ↔ isShifted val3 = true := by
    simp only [isShifted, decide_eq_true_eq]
    omega
  unfold oparg futexOp
  simp only [hshift]
  split
  · next hs =>
    rw [if_pos hs] at h
    exact Nat.mod_eq_of_lt (Nat.pow_lt_pow_right (by decide) h)
  · next hs =>
    rw [if_neg hs] at h
    unfold toWord signed12
    rw [if_pos h]
    unfold opargField at *
    omega

/-- Otherwise they differ in the bit that is shifted out, or in those that hold the sign. -/
theorem testBit_oparg_ne {val3 : UInt32} (j : Nat)
    (h : ¬ if isShifted val3 then opargField val3 % 2 ^ 5 < 16 else opargField val3 < 2 ^ 11) :
    (futexOp val3).oparg.testBit j ≠ (oparg val3).testBit j ↔
      if isShifted val3 then j = opargField val3 % 2 ^ 5 else 12 ≤ j ∧ j < 32 := by
  have hshift : 8 ≤ val3.toNat / 2 ^ 28 ↔ isShifted val3 = true := by
    simp only [isShifted, decide_eq_true_eq]
    omega
  unfold oparg futexOp
  simp only [hshift]
  split
  · next hs =>
    rw [if_pos hs] at h
    have hzero : 2 ^ (opargField val3 % 2 ^ 5) % 2 ^ 16 = 0 :=
      Nat.mod_eq_zero_of_dvd (Nat.pow_dvd_pow 2 (Nat.le_of_not_lt h))
    have hcode : 2 ^ (val3.toNat / 2 ^ 12 % 2 ^ 12 % 32) % 2 ^ 16 = 0 := hzero
    rw [hcode, Nat.zero_testBit, Nat.testBit_two_pow]
    simp [eq_comm]
  · next hs =>
    rw [if_neg hs] at h
    have hfield : opargField val3 < 2 ^ 12 := Nat.mod_lt _ (by decide)
    have hword : toWord (signed12 (opargField val3)) = 2 ^ 12 * (2 ^ 20 - 1) + opargField val3 := by
      unfold toWord signed12
      rw [if_neg h]
      omega
    rw [hword, Nat.testBit_two_pow_mul_add _ hfield]
    show (opargField val3).testBit j ≠ _ ↔ _
    by_cases hj : j < 12
    · rw [if_pos hj]
      exact iff_of_false (fun hne => hne rfl) (fun hle => absurd hle.1 (by omega))
    · have hlarge : opargField val3 < 2 ^ j := Nat.lt_of_lt_of_le hfield (Nat.pow_le_pow_right (by decide) (by omega))
      rw [if_neg hj, Nat.testBit_lt_two_pow hlarge, Nat.testBit_two_pow_sub_one, ne_eq,
        Bool.false_eq, decide_eq_false_iff_not, Decidable.not_not]
      omega

/-- The wake-op stores what the interface defines: the argument is not negative and not shifted out of sixteen bits, or the word
already has, for an or, or has not, for an and-not, the bits that are lost. -/
def StoresAlike (val3 : UInt32) (oldval : Nat) : Prop :=
  if isShifted val3 then
    opargField val3 % 2 ^ 5 < 16 ∨ (opField val3 = 2 ∧ oldval.testBit (opargField val3 % 2 ^ 5) = true) ∨
      (opField val3 = 3 ∧ oldval.testBit (opargField val3 % 2 ^ 5) = false)
  else
    opargField val3 < 2 ^ 11 ∨ (opField val3 = 2 ∧ ∀ j, 12 ≤ j → j < 32 → oldval.testBit j = true) ∨
      (opField val3 = 3 ∧ ∀ j, 12 ≤ j → j < 32 → oldval.testBit j = false)

theorem apply_oparg_iff {val3 : UInt32} {oldval : Nat} (hop : opField val3 ≤ 4) (hold : oldval < 2 ^ 32) :
    apply (opField val3) oldval (futexOp val3).oparg = newval val3 oldval ↔ StoresAlike val3 oldval := by
  unfold newval
  by_cases h : if isShifted val3 then opargField val3 % 2 ^ 5 < 16 else opargField val3 < 2 ^ 11
  · rw [oparg_eq h, StoresAlike]
    split at h
    · next hs =>
      rw [if_pos hs]
      exact iff_of_true rfl (.inl h)
    · next hs =>
      rw [if_neg hs]
      exact iff_of_true rfl (.inl h)
  · have hbits := fun j => testBit_oparg_ne j h
    have hne : (futexOp val3).oparg ≠ oparg val3 := by
      intro heq
      split at hbits
      · exact (hbits (opargField val3 % 2 ^ 5)).2 rfl (by rw [heq])
      · exact (hbits 12).2 ⟨Nat.le_refl _, by decide⟩ (by rw [heq])
    rw [apply_eq_apply_iff hop hold (futexOp_oparg_lt val3) (oparg_lt val3), StoresAlike]
    simp only [hne, false_or, hbits]
    split at h
    · next hs => simp only [hs, if_true, h, false_or, forall_eq]
    · next hs => simp only [hs, if_false, h, false_or, and_imp, Bool.false_eq_true]

/-! ## The comparison -/

/-- The wake-op compares as the interface defines: the word and the argument are not negative, or one of them is and the numbers
without their signs are in the order that the numbers are in. -/
def ComparesAlike (val3 : UInt32) (oldval : Nat) : Prop :=
  let cmparg := cmpargField val3
  let signed := cmparg + (2 ^ 32 - 2 ^ 12)
  if cmpField val3 = 0 ∨ cmpField val3 = 1 then cmparg < 2 ^ 11 ∨ (oldval ≠ cmparg ∧ oldval ≠ signed)
  else if cmparg < 2 ^ 11 then oldval < 2 ^ 31
  else if cmpField val3 = 2 ∨ cmpField val3 = 5 then (cmparg ≤ oldval ∧ oldval < 2 ^ 31) ∨ signed ≤ oldval
  else (cmparg < oldval ∧ oldval < 2 ^ 31) ∨ signed < oldval

theorem compare_cmparg_iff {val3 : UInt32} {oldval : Nat} (hcmp : cmpField val3 ≤ 5) (hold : oldval < 2 ^ 32) :
    holds (cmpField val3) oldval (cmpargField val3) = wakesSecond val3 oldval ↔ ComparesAlike val3 oldval := by
  have hfield : cmpargField val3 < 2 ^ 12 := Nat.mod_lt _ (by decide)
  unfold wakesSecond ComparesAlike signed32 signed12
  generalize cmpargField val3 = cmparg at hfield
  generalize cmpField val3 = c at hcmp
  match c with
  | 0 | 1 | 2 | 3 | 4 | 5 =>
    simp only [holds, decide_eq_decide]
    split <;> split <;> simp <;> omega
  | n + 6 => omega

/-! ## The call -/

/-- For a defined operation the scheduler stores what the operation gives for its argument. -/
theorem futexOp_apply {val3 : UInt32} (hop : opField val3 ≤ 4) (oldval : Nat) :
    (futexOp val3).apply oldval = .ok (apply (opField val3) oldval (futexOp val3).oparg) := by
  have hfield : (futexOp val3).op = opField val3 := rfl
  unfold FutexOp.apply
  rw [hfield]
  match hval : opField val3 with
  | 0 | 1 | 2 | 3 | 4 => rfl
  | n + 5 => omega

theorem futexOp_compare {val3 : UInt32} (hcmp : cmpField val3 ≤ 5) (oldval : Nat) :
    (futexOp val3).compare oldval = .ok (holds (cmpField val3) oldval (cmpargField val3)) := by
  have hfield : (futexOp val3).cmp = cmpField val3 := rfl
  have harg : (futexOp val3).cmparg = cmpargField val3 := rfl
  unfold FutexOp.compare
  rw [hfield, harg]
  match hval : cmpField val3 with
  | 0 | 1 | 2 | 3 | 4 | 5 =>
    simp only [holds, Except.ok.injEq, decide_eq_decide]
    omega
  | n + 6 => omega

variable {s : Scheduler} {thread uaddr uaddr2 : Nat} {val val2 val3 oldval : UInt32} {store store' : Nat → Nat}
  {second second' : Nat → Bool}

/-- The scheduler's wake-op stores and compares by its own reading of the argument. -/
theorem wakeOp_eq (h : Defined val3) :
    s.wakeOp thread uaddr val uaddr2 val2 val3 =
      wakeOpBy (fun oldval => apply (opField val3) oldval (futexOp val3).oparg)
        (fun oldval => holds (cmpField val3) oldval (cmpargField val3)) s thread uaddr val uaddr2 val2 := by
  unfold wakeOp wakeOpBy
  simp only [futexOp_apply h.1, futexOp_compare h.2]
  rfl

/-- Only what is stored and asked for the word that is there matters. -/
theorem wakeOpBy_congr (hread : read32 s.memory (s.spaceOf thread) uaddr2 = .ok oldval.toNat)
    (hstore : store oldval.toNat = store' oldval.toNat) (hsecond : second oldval.toNat = second' oldval.toNat) :
    wakeOpBy store second s thread uaddr val uaddr2 val2 = wakeOpBy store' second' s thread uaddr val uaddr2 val2 := by
  unfold wakeOpBy
  rw [hread]
  simp only [bind, Except.bind, hstore, hsecond]

/-- A memory with a word at an address. -/
def wordAt (word : Nat) : GuestMemory := fun _ a =>
  if 256 ≤ a ∧ a < 256 + 4 then some (UInt8.ofNat (word / 256 ^ (a - 256))) else some 0

/-- A call, while a thread waits on a word. -/
def oneWaiter (memory : GuestMemory) : Scheduler :=
  { (System.initial 1 100 memory).scheduler with
    inKernel := true, blockedThreads := [1], futexBlockers := [⟨1, 256, 0, none⟩] }

theorem read32_of_bytes {memory : GuestMemory} {space address word : Nat} (h : word < 2 ^ 32)
    (hbytes : ∀ i < 4, memory space (address + i) = some (UInt8.ofNat (word / 256 ^ i))) :
    read32 memory space address = .ok word := by
  have h0 : memory space address = _ := hbytes 0 (by decide)
  have h1 : memory space (address + 1) = _ := hbytes 1 (by decide)
  have h2 : memory space (address + 1 + 1) = _ := hbytes 2 (by decide)
  have h3 : memory space (address + 1 + 1 + 1) = _ := hbytes 3 (by decide)
  unfold read32
  simp only [readBytes, readByte, h0, h1, h2, h3, Option.map_some, demand, bind, Except.bind, UInt8.toNat_ofNat',
    Except.ok.injEq]
  omega

theorem read32_oneWaiter (oldval : UInt32) :
    read32 (oneWaiter (wordAt oldval.toNat)).memory ((oneWaiter (wordAt oldval.toNat)).spaceOf 0) 256 =
      .ok oldval.toNat := by
  refine read32_of_bytes oldval.toNat_lt fun i hi => ?_
  show wordAt oldval.toNat 1 (256 + i) = _
  simp [wordAt]
  omega

/-- The number that a wake-op returns and the word that it stores show what it asks and what it stores. -/
theorem wakeOpBy_oneWaiter (second : Nat → Bool) (hstore : store oldval.toNat < 2 ^ 32) :
    ∃ s', wakeOpBy store second (oneWaiter (wordAt oldval.toNat)) 0 512 1 256 1 =
        .ok (if second oldval.toNat then 1 else 0, s') ∧
      read32 s'.memory 1 256 = .ok (store oldval.toNat) := by
  obtain ⟨memory, hwrite, hstored⟩ : ∃ memory, write32 (wordAt oldval.toNat) 1 256 (store oldval.toNat) = .ok memory ∧
      read32 memory 1 256 = .ok (store oldval.toNat) := by
    refine ⟨_, rfl, read32_of_bytes hstore fun i hi => ?_⟩
    simp
    omega
  have hfirst : (oneWaiter memory).wake 512 1 = .ok (0, oneWaiter memory) := rfl
  obtain ⟨s', hwake, hmemory⟩ : ∃ s', (oneWaiter memory).wake 256 1 = .ok (1, s') ∧ s'.memory = memory := ⟨_, rfl, rfl⟩
  cases hsecond : second oldval.toNat with
  | false =>
    refine ⟨oneWaiter memory, bind_eq_ok.2 ⟨(), rfl, bind_eq_ok.2 ⟨_, read32_oneWaiter oldval, bind_eq_ok.2 ⟨memory, hwrite,
      bind_eq_ok.2 ⟨_, hfirst, ?_⟩⟩⟩⟩, hstored⟩
    rw [hsecond]
    rfl
  | true =>
    refine ⟨s', bind_eq_ok.2 ⟨(), rfl, bind_eq_ok.2 ⟨_, read32_oneWaiter oldval, bind_eq_ok.2 ⟨memory, hwrite,
      bind_eq_ok.2 ⟨_, hfirst, ?_⟩⟩⟩⟩, hmemory ▸ hstored⟩
    rw [hsecond]
    exact bind_eq_ok.2 ⟨_, hwake, rfl⟩

/-- In every call on a word, the wake-op does what it is for. -/
def WakesRight (val3 oldval : UInt32) : Prop :=
  ∀ (s : Scheduler) (thread uaddr : Nat) (val : UInt32) (uaddr2 : Nat) (val2 : UInt32), s.inKernel = true →
    read32 s.memory (s.spaceOf thread) uaddr2 = .ok oldval.toNat →
    s.wakeOp thread uaddr val uaddr2 val2 val3 = FutexInterface.wakeOp s thread uaddr val uaddr2 val2 val3

theorem apply_lt {op a x : Nat} (hop : op ≤ 4) (ha : a < 2 ^ 32) (hx : x < 2 ^ 32) : apply op a x < 2 ^ 32 := by
  match op with
  | 0 => exact hx
  | 1 => exact Nat.mod_lt _ (by decide)
  | 2 => exact Nat.or_lt_two_pow ha hx
  | 3 => exact Nat.lt_of_le_of_lt Nat.and_le_left ha
  | 4 => exact Nat.xor_lt_two_pow ha hx
  | n + 5 => omega

/-- A call with one waiter tells two ways to store and to compare apart. -/
theorem alike_of_oneWaiter (hstore : store oldval.toNat < 2 ^ 32) (hstore' : store' oldval.toNat < 2 ^ 32)
    (h : wakeOpBy store second (oneWaiter (wordAt oldval.toNat)) 0 512 1 256 1 =
      wakeOpBy store' second' (oneWaiter (wordAt oldval.toNat)) 0 512 1 256 1) :
    store oldval.toNat = store' oldval.toNat ∧ second oldval.toNat = second' oldval.toNat := by
  obtain ⟨s, hs, hread⟩ := wakeOpBy_oneWaiter second hstore
  obtain ⟨s', hs', hread'⟩ := wakeOpBy_oneWaiter second' hstore'
  rw [hs, hs', Except.ok.injEq, Prod.mk.injEq] at h
  obtain ⟨hcount, rfl⟩ := h
  refine ⟨Except.ok.inj (hread.symm.trans hread'), ?_⟩
  cases hsecond : second oldval.toNat <;> cases hsecond' : second' oldval.toNat <;> simp [hsecond, hsecond'] at hcount ⊢

theorem alike_of_wakesRight (h : Defined val3) (hright : WakesRight val3 oldval) :
    apply (opField val3) oldval.toNat (futexOp val3).oparg = newval val3 oldval.toNat ∧
      holds (cmpField val3) oldval.toNat (cmpargField val3) = wakesSecond val3 oldval.toNat := by
  have hold := oldval.toNat_lt
  have hstore : (fun oldval => apply (opField val3) oldval (futexOp val3).oparg) oldval.toNat < 2 ^ 32 :=
    apply_lt h.1 hold (futexOp_oparg_lt val3)
  have hstore' : newval val3 oldval.toNat < 2 ^ 32 := apply_lt h.1 hold (oparg_lt val3)
  have heq := hright (oneWaiter (wordAt oldval.toNat)) 0 512 1 256 1 rfl (read32_oneWaiter oldval)
  rw [wakeOp_eq h, FutexInterface.wakeOp] at heq
  exact alike_of_oneWaiter hstore hstore' heq

end Scheduler

end X64Emulator
