import X64Emulator.Readiness

/-!
# What files answer to poll and select

What is tested for a file and what it says, the bits of a set, and what the loop of `select` leaves in the sets: for a descriptor it
has passed the bits say what the file said, and the bits of the others are as they were.
-/

namespace X64Emulator

open Outcome

namespace FdSet

variable (s : FdSet) (fd k : Nat)

theorem test_of_le (hk : FD_SETSIZE ≤ k) : s.test k = false := BitVec.getLsbD_of_ge s k hk

theorem test_reset : (s.reset fd).test k = (s.test k && decide (k ≠ fd)) := by
  by_cases hk : k < FD_SETSIZE
  · by_cases hfd : fd = k
    · simp [test, reset, BitVec.getLsbD_twoPow, hfd]
    · have hne : ¬ k = fd := fun h => hfd h.symm
      rw [test, reset, BitVec.getLsbD_and, BitVec.getLsbD_not, BitVec.getLsbD_twoPow]
      simp [test, hk, hfd, hne]
  · rw [test_of_le _ _ (Nat.not_lt.1 hk), test_of_le _ _ (Nat.not_lt.1 hk)]
    rfl

theorem test_setIf {fd : Nat} (hfd : fd < FD_SETSIZE) (ready : Bool) :
    (s.setIf fd ready).test k = (s.test k || (ready && decide (k = fd))) := by
  cases ready with
  | false => simp [setIf]
  | true => simp [setIf, test, BitVec.getLsbD_twoPow, hfd, eq_comm]

/-- A bit that was tested is what the file says, and the others are as they were. -/
theorem test_tested {fd : Nat} (hfd : fd < FD_SETSIZE) (ready : Bool) :
    ((s.reset fd).setIf fd ready).test k = if k = fd then ready else s.test k := by
  rw [test_setIf _ _ hfd, test_reset]
  by_cases hk : k = fd <;> simp [hk]

theorem count_eq_zero : s.count = 0 ↔ ∀ k, s.test k = false := by
  simp only [count, List.countP_eq_zero, List.mem_range, Bool.not_eq_true]
  constructor
  · intro h k
    by_cases hk : k < FD_SETSIZE
    · exact h k hk
    · exact test_of_le s k (Nat.not_lt.1 hk)
  · intro h k _
    exact h k

end FdSet

theorem SelectData.count_eq_zero {data : SelectData} : data.count = 0 ↔
    (∀ k, data.readfds.test k = false) ∧ (∀ k, data.writefds.test k = false) ∧ ∀ k, data.exceptfds.test k = false := by
  rw [← FdSet.count_eq_zero, ← FdSet.count_eq_zero, ← FdSet.count_eq_zero, count]
  omega

namespace FS

variable {fs : FS} {polls : HostPolls} {fds : FileDescriptors}

/-- The file of a descriptor is pollable, and what is tested for it gives these answers. -/
structure Asked (fs : FS) (polls : HostPolls) (descriptor : FileDescriptor) (testRead testWrite readable writable : Bool) :
    Prop where
  answers : ∃ f, fs.pollable descriptor = .ok f ∧ tested testRead (fs.canRead polls f) = .ok readable ∧
    tested testWrite (fs.canWrite polls f) = .ok writable

variable {descriptor : FileDescriptor} {i : Nat} {rest : List (Option FileDescriptor)}

/-- A file gives one answer. -/
theorem Asked.unique {testRead testWrite r w r' w' : Bool}
    (h : fs.Asked polls descriptor testRead testWrite r w) (h' : fs.Asked polls descriptor testRead testWrite r' w') :
    r = r' ∧ w = w' := by
  obtain ⟨f, hf, hr, hw⟩ := h.answers
  obtain ⟨f', hf', hr', hw'⟩ := h'.answers
  obtain rfl := Except.ok.inj (hf.symm.trans hf')
  exact ⟨Except.ok.inj (hr.symm.trans hr'), Except.ok.inj (hw.symm.trans hw')⟩

theorem pollFile_eq_ok {pollfd r : PollFd} {revents : PollEvent} :
    fs.pollFile polls descriptor pollfd revents = .ok r ↔ ∃ readable writable,
      fs.Asked polls descriptor pollfd.testRead pollfd.testWrite readable writable ∧
        r = { pollfd with revents := (revents.mark readable .CAN_READ).mark writable .CAN_WRITE } := by
  constructor
  · intro h
    obtain ⟨f, hf, h⟩ := bind_eq_ok.1 h
    obtain ⟨readable, hread, h⟩ := bind_eq_ok.1 h
    obtain ⟨writable, hwrite, h⟩ := bind_eq_ok.1 h
    exact ⟨readable, writable, ⟨f, hf, hread, hwrite⟩, (Except.ok.inj h).symm⟩
  · rintro ⟨readable, writable, ⟨f, hf, hread, hwrite⟩, rfl⟩
    exact bind_eq_ok.2 ⟨f, hf, bind_eq_ok.2 ⟨readable, hread, bind_eq_ok.2 ⟨writable, hwrite, rfl⟩⟩⟩

/-- What the loop of `select` does when it passes the descriptors from `i` on: those that are tested are open, and their bits say
what the files said. -/
structure Passed (fs : FS) (polls : HostPolls) (i : Nat) (rest : List (Option FileDescriptor)) (data data' : SelectData) :
    Prop where
  bound : rest ≠ [] → i + rest.length ≤ FD_SETSIZE
  exceptfds : data'.exceptfds = data.exceptfds
  outside : ∀ k, k < i ∨ i + rest.length ≤ k →
    data'.readfds.test k = data.readfds.test k ∧ data'.writefds.test k = data.writefds.test k
  inside : ∀ k slot, i ≤ k → rest[k - i]? = some slot → data.readfds.test k = true ∨ data.writefds.test k = true →
    ∃ descriptor, slot = some descriptor ∧ fs.Asked polls descriptor (data.readfds.test k) (data.writefds.test k)
      (data'.readfds.test k) (data'.writefds.test k)
  untested : ∀ k, data.readfds.test k = false → data.writefds.test k = false →
    data'.readfds.test k = false ∧ data'.writefds.test k = false

theorem Passed.nil (i : Nat) (data : SelectData) : fs.Passed polls i [] data data where
  bound h := absurd rfl h
  exceptfds := rfl
  outside _ _ := ⟨rfl, rfl⟩
  inside _ _ _ hslot := by
    rw [List.getElem?_nil] at hslot
    cases hslot
  untested _ hr hw := ⟨hr, hw⟩

/-- The sets after the turn for a descriptor. -/
def answered (data : SelectData) (i : Nat) (readable writable : Bool) : SelectData :=
  { data with
    readfds := (data.readfds.reset i).setIf i readable
    writefds := (data.writefds.reset i).setIf i writable }

theorem answered_readfds (hi : i < FD_SETSIZE) (data : SelectData) (readable writable : Bool) (k : Nat) :
    (answered data i readable writable).readfds.test k = if k = i then readable else data.readfds.test k :=
  FdSet.test_tested _ _ hi _

theorem answered_writefds (hi : i < FD_SETSIZE) (data : SelectData) (readable writable : Bool) (k : Nat) :
    (answered data i readable writable).writefds.test k = if k = i then writable else data.writefds.test k :=
  FdSet.test_tested _ _ hi _

/-- Nothing is said of a file for which nothing is tested. -/
theorem Asked.untested {testRead testWrite readable writable : Bool}
    (h : fs.Asked polls descriptor testRead testWrite readable writable) (hread : testRead = false) (hwrite : testWrite = false) :
    readable = false ∧ writable = false := by
  subst hread hwrite
  obtain ⟨f, -, hr, hw⟩ := h.answers
  exact ⟨(Except.ok.inj hr).symm, (Except.ok.inj hw).symm⟩

theorem bound_cons {slot : Option FileDescriptor} (hi : i < FD_SETSIZE)
    (h : rest ≠ [] → i + 1 + rest.length ≤ FD_SETSIZE) : i + (slot :: rest).length ≤ FD_SETSIZE := by
  rw [List.length_cons]
  by_cases hrest : rest = []
  · rw [hrest, List.length_nil]
    exact hi
  · have := h hrest
    omega

theorem getElem?_cons_of_lt {k : Nat} {slot : Option FileDescriptor} (hk : i < k) :
    (slot :: rest)[k - i]? = rest[k - (i + 1)]? := by
  obtain ⟨m, rfl⟩ := Nat.exists_eq_add_of_lt hk
  rw [show i + m + 1 - i = m + 1 by omega, show i + m + 1 - (i + 1) = m by omega, List.getElem?_cons_succ]

/-- A descriptor that nothing is tested for is skipped. -/
theorem Passed.skip {slot : Option FileDescriptor} {data data' : SelectData}
    (hi : i < FD_SETSIZE) (hread : data.readfds.test i = false) (hwrite : data.writefds.test i = false)
    (h : fs.Passed polls (i + 1) rest data data') : fs.Passed polls i (slot :: rest) data data' where
  bound _ := bound_cons hi h.bound
  exceptfds := h.exceptfds
  outside k hk := by
    rw [List.length_cons] at hk
    exact h.outside k (by omega)
  inside k s hk hs htest := by
    rcases Nat.eq_or_lt_of_le hk with rfl | hlt
    · rw [hread, hwrite] at htest
      exact absurd htest (by decide)
    · rw [getElem?_cons_of_lt hlt] at hs
      exact h.inside k s hlt hs htest
  untested := h.untested

/-- A descriptor that something is tested for is asked. -/
theorem Passed.ask {data data' : SelectData} {readable writable : Bool} (hi : i < FD_SETSIZE)
    (hasked : fs.Asked polls descriptor (data.readfds.test i) (data.writefds.test i) readable writable)
    (h : fs.Passed polls (i + 1) rest (answered data i readable writable) data') :
    fs.Passed polls i (some descriptor :: rest) data data' := by
  have hsame : ∀ k, k ≠ i → (answered data i readable writable).readfds.test k = data.readfds.test k ∧
      (answered data i readable writable).writefds.test k = data.writefds.test k := by
    intro k hk
    rw [answered_readfds hi, answered_writefds hi, if_neg hk, if_neg hk]
    exact ⟨rfl, rfl⟩
  have hanswer : data'.readfds.test i = readable ∧ data'.writefds.test i = writable := by
    obtain ⟨hr, hw⟩ := h.outside i (.inl (Nat.lt_succ_self i))
    rw [hr, hw, answered_readfds hi, answered_writefds hi, if_pos rfl, if_pos rfl]
    exact ⟨rfl, rfl⟩
  refine ⟨fun _ => bound_cons hi h.bound, h.exceptfds, fun k hk => ?_, fun k s hk hs htest => ?_, fun k hr hw => ?_⟩
  · rw [List.length_cons] at hk
    have hne : k ≠ i := by omega
    rw [← (hsame k hne).1, ← (hsame k hne).2]
    exact h.outside k (by omega)
  · rcases Nat.eq_or_lt_of_le hk with rfl | hlt
    · rw [Nat.sub_self, List.getElem?_cons_zero] at hs
      obtain rfl := Option.some.inj hs
      rw [hanswer.1, hanswer.2]
      exact ⟨descriptor, rfl, hasked⟩
    · rw [getElem?_cons_of_lt hlt] at hs
      have hne : k ≠ i := Nat.ne_of_gt hlt
      rw [← (hsame k hne).1, ← (hsame k hne).2] at htest ⊢
      exact h.inside k s hlt hs htest
  · by_cases hk : k = i
    · subst hk
      rw [hanswer.1, hanswer.2]
      exact hasked.untested hr hw
    · rw [← (hsame k hk).1] at hr
      rw [← (hsame k hk).2] at hw
      exact h.untested k hr hw

/-- What the loop of `select` gives: an error for a descriptor that is not there, or all are passed. -/
theorem selectFrom_cases {data data' : SelectData} {ret : Int}
    (h : fs.selectFrom polls i rest data = .ok (data', ret)) :
    ret = -EBADF ∨ (ret = 0 ∧ fs.Passed polls i rest data data') := by
  induction rest generalizing i data with
  | nil =>
    obtain ⟨rfl, rfl⟩ := ok_pair h
    exact .inr ⟨rfl, .nil i data⟩
  | cons slot rest ih =>
    cases slot with
    | none =>
      obtain ⟨_, hi, h⟩ := bind_eq_ok.1 h
      have hi := check_eq_ok.1 hi
      dsimp only at h
      split at h
      · next hnone =>
        rw [Bool.and_eq_true, Bool.not_eq_true', Bool.not_eq_true'] at hnone
        exact (ih h).imp_right fun hpassed => ⟨hpassed.1, hpassed.2.skip hi hnone.1 hnone.2⟩
      · exact .inl (ok_pair h).2.symm
    | some descriptor =>
      obtain ⟨_, hi, h⟩ := bind_eq_ok.1 h
      have hi := check_eq_ok.1 hi
      dsimp only at h
      split at h
      · next hnone =>
        rw [Bool.and_eq_true, Bool.not_eq_true', Bool.not_eq_true'] at hnone
        exact (ih h).imp_right fun hpassed => ⟨hpassed.1, hpassed.2.skip hi hnone.1 hnone.2⟩
      · obtain ⟨f, hf, h⟩ := bind_eq_ok.1 h
        obtain ⟨readable, hread, h⟩ := bind_eq_ok.1 h
        obtain ⟨writable, hwrite, h⟩ := bind_eq_ok.1 h
        exact (ih h).imp_right fun hpassed => ⟨hpassed.1, .ask hi ⟨f, hf, hread, hwrite⟩ hpassed.2⟩

/-- Where every descriptor that is tested is open and has an answer, the loop passes them all. -/
theorem selectFrom_passes {data : SelectData} (hbound : rest ≠ [] → i + rest.length ≤ FD_SETSIZE)
    (hopen : ∀ k slot, i ≤ k → rest[k - i]? = some slot → data.readfds.test k = true ∨ data.writefds.test k = true →
      ∃ descriptor readable writable, slot = some descriptor ∧
        fs.Asked polls descriptor (data.readfds.test k) (data.writefds.test k) readable writable) :
    ∃ data', fs.selectFrom polls i rest data = .ok (data', 0) := by
  induction rest generalizing i data with
  | nil => exact ⟨data, rfl⟩
  | cons slot rest ih =>
    have hlen := hbound (List.cons_ne_nil _ _)
    rw [List.length_cons] at hlen
    have hi : i < FD_SETSIZE := by omega
    have hrest : rest ≠ [] → i + 1 + rest.length ≤ FD_SETSIZE := fun _ => by omega
    by_cases htest : data.readfds.test i = true ∨ data.writefds.test i = true
    · obtain ⟨descriptor, readable, writable, rfl, hasked⟩ := hopen i slot (Nat.le_refl i) (by simp) htest
      obtain ⟨f, hf, hr, hw⟩ := hasked.answers
      have hpasses : ∃ data', fs.selectFrom polls (i + 1) rest (answered data i readable writable) = .ok (data', 0) := by
        refine ih hrest ?_
        intro k s hk hs htest'
        have hne : k ≠ i := by omega
        rw [answered_readfds hi, answered_writefds hi, if_neg hne, if_neg hne] at htest' ⊢
        refine hopen k s (by omega) ?_ htest'
        rw [getElem?_cons_of_lt (by omega)]
        exact hs
      obtain ⟨data', hdata'⟩ := hpasses
      refine ⟨data', bind_eq_ok.2 ⟨(), check_eq_ok.2 hi, ?_⟩⟩
      rw [if_neg (by rcases htest with h | h <;> simp [h])]
      exact bind_eq_ok.2 ⟨f, hf, bind_eq_ok.2 ⟨readable, hr, bind_eq_ok.2 ⟨writable, hw, hdata'⟩⟩⟩
    · obtain ⟨hr, hw⟩ := not_or.1 htest
      have hpasses : ∃ data', fs.selectFrom polls (i + 1) rest data = .ok (data', 0) := by
        refine ih hrest ?_
        intro k s hk hs htest'
        refine hopen k s (by omega) ?_ htest'
        rw [getElem?_cons_of_lt (by omega)]
        exact hs
      obtain ⟨data', hdata'⟩ := hpasses
      refine ⟨data', bind_eq_ok.2 ⟨(), check_eq_ok.2 hi, ?_⟩⟩
      rw [if_pos (by simp [Bool.eq_false_iff.2 hr, Bool.eq_false_iff.2 hw])]
      exact hdata'

end FS

end X64Emulator
