import X64Emulator.Theorems.FutexWake

/-!
# Which waiters of other address spaces a wake reaches

The waiters of all processes are in one list, with the address of the word they wait on and nothing that says in which address
space: a wake takes the first of them, whose ever they are.
-/

namespace X64Emulator

open Outcome Choose

namespace Scheduler

/-- What a thread does that wakes waiters. -/
inductive Waker where
  | wake (wordPtr nbWaiters : Nat)
  | wakeOp (uaddr : Nat) (val : UInt32) (uaddr2 : Nat) (val2 val3 : UInt32)
  /-- the end of the thread, which wakes a waiter of the word it promised to clear -/
  | terminate (status : Int)
deriving DecidableEq, Repr

def runWaker (s : Scheduler) (thread : Nat) : Waker → Except Failure Scheduler
  | .wake wordPtr nbWaiters => Prod.snd <$> s.wake wordPtr nbWaiters
  | .wakeOp uaddr val uaddr2 val2 val3 => Prod.snd <$> s.wakeOp thread uaddr val uaddr2 val2 val3
  | .terminate status => s.terminate thread status

/-- No thread that waits in another address space is unblocked, and none of their registers changes. -/
def Isolated (s s' : Scheduler) (thread : Nat) : Prop :=
  ∀ t ∈ s.blockedThreads, s.spaceOf t ≠ s.spaceOf thread → t ∈ s'.blockedThreads ∧ s'.rax t = s.rax t

/-- The first waiters of a word, of whatever process: at least one, because a wake counts after it has woken. -/
def firstWaiters (wordPtr nbWaiters : Nat) (l : List FutexBlocker) : List FutexBlocker :=
  first (fun b => b.wordPtr = wordPtr) (atLeastOne nbWaiters) l

/-- The old value of the second word asks for its waiters to be woken. -/
def asksForSecond (s : Scheduler) (thread uaddr2 : Nat) (val3 : UInt32) : Bool :=
  match read32 s.memory (s.spaceOf thread) uaddr2 with
  | .ok oldval =>
    match (futexOp val3).compare oldval with
    | .ok cmp => cmp
    | .error _ => false
  | .error _ => false

/-- The waiters that come first on the words a thread wakes. -/
def firstInLine (s : Scheduler) (thread : Nat) : Waker → List FutexBlocker
  | .wake wordPtr nbWaiters => firstWaiters wordPtr nbWaiters s.futexBlockers
  | .wakeOp uaddr val uaddr2 val2 val3 =>
    firstWaiters uaddr val.toNat s.futexBlockers ++
      if s.asksForSecond thread uaddr2 val3 then
        firstWaiters uaddr2 val2.toNat
          (without (fun b => b.wordPtr = uaddr) (atLeastOne val.toNat) s.futexBlockers)
      else []
  | .terminate _ =>
    if (s.threadAt thread).clearChildTid = 0 then []
    else firstWaiters (s.threadAt thread).clearChildTid 1 (s.futexBlockers.filter (fun b => b.thread ≠ thread))

/-- The threads of some blockers are unblocked, and nothing else happens to the threads that wait. -/
structure Takes (s s' : Scheduler) (l : List FutexBlocker) : Prop where
  blocked : ∀ t, s'.blockedThreads.count t + (l.map (·.thread)).count t = s.blockedThreads.count t
  frame : ∀ t, t ∉ l.map (·.thread) → s'.rax t = s.rax t

theorem Takes.append {s s' s'' : Scheduler} {l l' : List FutexBlocker} (h : Takes s s' l) (h' : Takes s' s'' l') :
    Takes s s'' (l ++ l') := by
  refine ⟨fun t => ?_, fun t ht => ?_⟩
  · have := h.blocked t
    have := h'.blocked t
    rw [List.map_append, List.count_append]
    omega
  · rw [List.map_append, List.mem_append, not_or] at ht
    rw [h'.frame t ht.2, h.frame t ht.1]

/-- The threads of other address spaces are left alone exactly when none of theirs is taken. -/
theorem Takes.isolated {s s' : Scheduler} {l : List FutexBlocker} {thread : Nat} (h : Takes s s' l)
    (once : ∀ t, s.blockedThreads.count t ≤ 1) :
    Isolated s s' thread ↔ ∀ b ∈ l, s.spaceOf b.thread = s.spaceOf thread := by
  refine ⟨fun hiso b hb => ?_, fun hsame t ht hspace => ?_⟩
  · by_contra hne
    have hpos : 0 < (l.map (·.thread)).count b.thread := List.count_pos_iff.2 (List.mem_map_of_mem hb)
    have hcount := h.blocked b.thread
    have := once b.thread
    have hmem : b.thread ∈ s.blockedThreads := List.count_pos_iff.1 (by omega)
    have hstays := List.count_pos_iff.2 (hiso b.thread hmem hne).1
    omega
  · have hnot : t ∉ l.map (·.thread) := by
      intro hmem
      obtain ⟨b, hb, rfl⟩ := List.mem_map.1 hmem
      exact hspace (hsame b hb)
    have hcount := h.blocked t
    rw [List.count_eq_zero.2 hnot, Nat.add_zero] at hcount
    refine ⟨List.count_pos_iff.1 ?_, h.frame t hnot⟩
    rw [hcount]
    exact List.count_pos_iff.2 ht

/-- While no time limit has passed, a wake takes the first waiters of its word. -/
theorem WakeReady.taken {s : Scheduler} (h : s.WakeReady) (wordPtr nbWaiters : Nat) :
    s.taken wordPtr nbWaiters = firstWaiters wordPtr nbWaiters s.futexBlockers ∧
      without (s.canUnblock wordPtr) (atLeastOne nbWaiters) s.futexBlockers =
        without (fun b => b.wordPtr = wordPtr) (atLeastOne nbWaiters) s.futexBlockers := by
  have hsame : ∀ b ∈ s.futexBlockers, s.canUnblock wordPtr b = decide (b.wordPtr = wordPtr) := by
    intro b hb
    rw [canUnblock, h.calm b hb, Bool.false_or]
  exact ⟨first_congr hsame, without_congr hsame⟩

theorem WakeReady.wake_takes {s : Scheduler} (h : s.WakeReady) (wordPtr nbWaiters : Nat) :
    Yields (fun r => Takes s r.2 (firstWaiters wordPtr nbWaiters s.futexBlockers) ∧ r.2.WakeReady ∧
      r.2.futexBlockers = without (fun b => b.wordPtr = wordPtr) (atLeastOne nbWaiters) s.futexBlockers)
      (s.wake wordPtr nbWaiters) := by
  obtain ⟨htaken, hkept⟩ := h.taken wordPtr nbWaiters
  refine ((h.wakes wordPtr nbWaiters).anti (by simp)).mono fun r hr => ?_
  exact ⟨⟨htaken ▸ hr.woke.blocked, htaken ▸ hr.frame⟩, hr.wakeReady h, hr.kept.trans hkept⟩

theorem WakeReady.wakeOp_takes {s : Scheduler} (h : s.WakeReady) (thread uaddr : Nat) (val : UInt32) (uaddr2 : Nat)
    (val2 val3 : UInt32) : Yields (fun r => Takes s r.2 (s.firstInLine thread (.wakeOp uaddr val uaddr2 val2 val3)))
      (s.wakeOp thread uaddr val uaddr2 val2 val3) := by
  refine Post.skip fun _ => Post.bind (Post.self _) fun oldval hold => Post.skip fun newval => Post.skip fun memory =>
    Post.bind ((h.written memory).wake_takes uaddr val.toNat) fun (nbWoken, s₁) ⟨htakes, hready, hfutex⟩ =>
      Post.bind (Post.self _) fun cmp hcmp => ?_
  have hsecond : s.asksForSecond thread uaddr2 val3 = cmp := by
    unfold asksForSecond
    rw [hold]
    simp only [hcmp]
  have hfirst : Takes s s₁ (firstWaiters uaddr val.toNat s.futexBlockers) := ⟨htakes.blocked, htakes.frame⟩
  simp only [firstInLine, hsecond]
  refine Post.ite (fun htrue => Post.bind (hready.wake_takes uaddr2 val2.toNat) fun (nbWoken₂, s₂) ⟨htakes₂, _⟩ =>
    Post.ok ?_) fun hfalse => Post.ok ?_
  · simp only [if_pos htrue]
    simp only at hfutex
    rw [← hfutex]
    exact hfirst.append htakes₂
  · simp only [if_neg hfalse, List.append_nil]
    exact hfirst

theorem WakeReady.clearChildTid_takes {s : Scheduler} (h : s.WakeReady) {thread clearChildTid : Nat}
    (hword : (s.threadAt thread).clearChildTid = clearChildTid) :
    Yields (fun s' => Takes s s' (if clearChildTid = 0 then []
      else firstWaiters clearChildTid 1 s.futexBlockers)) (s.wakeClearChildTid thread) := by
  unfold wakeClearChildTid
  rw [hword]
  refine Post.ite (fun hzero => Post.ok ?_) fun hne => Post.skip fun memory =>
    Post.bind ((h.written memory).wake_takes _ 1) fun (nbWoken, s') ⟨htakes, _⟩ => Post.ok ?_
  · rw [if_pos hzero]
    exact ⟨fun _ => rfl, fun _ _ => rfl⟩
  · rw [if_neg hne]
    exact ⟨htakes.blocked, htakes.frame⟩

/-- The end of a thread unblocks the first waiter of its word, and touches no thread of another address space beside. -/
theorem WakeReady.terminate_isolated {s : Scheduler} (h : s.WakeReady) (thread : Nat) (status : Int) :
    Yields (fun s' => Isolated s s' thread ↔
      ∀ b ∈ s.firstInLine thread (.terminate status), s.spaceOf b.thread = s.spaceOf thread)
      (s.terminate thread status) := by
  have hend := (h.terminating thread status).1
  have hthread : ∀ t, (setThread (s.yieldThread thread) thread (fun t => { t with exitStatus := status })).threadAt t =
      if t = thread then { s.threadAt t with time := (s.threadAt t).time.yield, exitStatus := status }
      else s.threadAt t := by
    intro t
    simp only [setThread, yieldThread]
    by_cases ht : t = thread <;> simp [ht]
  have hword : (((s.yieldThread thread).setThread thread (fun t => { t with exitStatus := status })).threadAt
      thread).clearChildTid = (s.threadAt thread).clearChildTid := by rw [hthread, if_pos rfl]
  refine Post.skip fun _ => Post.bind (hend.clearChildTid_takes hword) fun s₁ htakes => Post.ok ?_
  have hfirst : Takes s s₁ (s.firstInLine thread (.terminate status)) := by
    refine ⟨htakes.blocked, fun t ht => (htakes.frame t ht).trans ?_⟩
    show (((s.yieldThread thread).setThread thread (fun t => { t with exitStatus := status })).threadAt t).rax = s.rax t
    rw [hthread]
    split <;> rfl
  rw [← hfirst.isolated h.once]
  -- the thread itself, which is gone, is in its own address space
  have hmem : ∀ t, s.spaceOf t ≠ s.spaceOf thread → (t ∈ (s₁.eraseThread thread).blockedThreads ↔ t ∈ s₁.blockedThreads) := by
    intro t hspace
    rw [eraseThread, List.mem_filter, decide_eq_true_eq, and_iff_left]
    rintro rfl
    exact hspace rfl
  exact ⟨fun hiso t ht hspace => ⟨(hmem t hspace).1 (hiso t ht hspace).1, (hiso t ht hspace).2⟩,
    fun hiso t ht hspace => ⟨(hmem t hspace).2 (hiso t ht hspace).1, (hiso t ht hspace).2⟩⟩

/-- Inside a system call, what a thread does that wakes waiters leaves the threads of other address spaces alone exactly when
the waiters that come first on its words are all of its own address space. -/
theorem isolated_iff {s s' : Scheduler} (h : InCall s) {thread : Nat} {waker : Waker}
    (hs : s.runWaker thread waker = .ok s') :
    Isolated s s' thread ↔ ∀ b ∈ s.firstInLine thread waker, s.spaceOf b.thread = s.spaceOf thread := by
  have hready := h.wakeReady
  cases waker with
  | wake wordPtr nbWaiters =>
    have htakes := (hready.wake_takes wordPtr nbWaiters).mono fun _ h => h.1
    exact Takes.isolated ((Post.map (p := fun s' => Takes s s' _) htakes).of_ok hs) hready.once
  | wakeOp uaddr val uaddr2 val2 val3 =>
    have htakes := hready.wakeOp_takes thread uaddr val uaddr2 val2 val3
    exact Takes.isolated ((Post.map (p := fun s' => Takes s s' _) htakes).of_ok hs) hready.once
  | terminate status => exact (hready.terminate_isolated thread status).of_ok hs

/-- `fork`: a process with an address space of its own. -/
def forkFlags : CloneFlags where
  childClearTid := false
  childSetTid := false
  clearSignalHandlers := false
  cloneSignalHandlers := false
  cloneFiles := false
  cloneFs := false
  cloneIo := false
  cloneParent := false
  parentSetTid := false
  clonePidFd := false
  setTls := false
  cloneThread := false
  cloneVm := false
  cloneVfork := false

/-- A second thread, of the first process or of its child, waits on a word, and the first thread begins a call. -/
def waitBesideRun (flags : CloneFlags) : List WorkerAction :=
  System.callTurn (.clone flags 4096 0 0) ++ System.callTurn (.futex 256 0 0 0 0 0) ++ System.beginCall

/-- The state in which the first thread wakes the word. -/
theorem waitBesideRun_state (flags : CloneFlags) (space : Nat) (hrun : (System.machine.run
    (System.initial 2 100 (fun _ _ => some 0)) (waitBesideRun flags)).map (fun sys => (sys.workers[0]?,
      sys.scheduler.blockedThreads, sys.scheduler.spaceOf 0, sys.scheduler.spaceOf 1,
      match sys.scheduler.runWaker 0 (.wake 256 1) with
        | .ok s' => some s'.blockedThreads
        | .error _ => none)) = some (some (.kernel ⟨0, .KERNEL, false⟩ false), [1], 1, space, some [])) :
    ∃ s s', InCall s ∧ s.runWaker 0 (.wake 256 1) = .ok s' ∧ s.blockedThreads = [1] ∧ s'.blockedThreads = [] ∧
      s.spaceOf 0 = 1 ∧ s.spaceOf 1 = space := by
  obtain ⟨sys, hsys, heq⟩ := Option.map_eq_some_iff.1 hrun
  simp only [Prod.mk.injEq] at heq
  obtain ⟨hw, hblocked, h0, h1, hwake⟩ := heq
  have hinit : System.machine.Reachable (System.initial 2 100 (fun _ _ => some 0)) :=
    Machine.Reachable.init ⟨_, _, _, rfl⟩
  cases hok : sys.scheduler.runWaker 0 (.wake 256 1) with
  | ok s' =>
    rw [hok] at hwake
    exact ⟨sys.scheduler, s', .start (hinit.run _ hsys) hw, hok, hblocked, Option.some.inj hwake, h0, h1⟩
  | error e =>
    rw [hok] at hwake
    cases hwake

/-- A thread of the same process is woken. -/
theorem isolated_iff_thread : ∃ s s', s.blockedThreads = [1] ∧ s'.blockedThreads = [] ∧
    (Isolated s s' 0 ↔ ∀ b ∈ s.firstInLine 0 (.wake 256 1), s.spaceOf b.thread = s.spaceOf 0) := by
  obtain ⟨s, s', hcall, hok, hblocked, hblocked', -⟩ := waitBesideRun_state System.threadFlags 1
    (by decide)
  exact ⟨s, s', hblocked, hblocked', isolated_iff hcall hok⟩

/-- A child process waits on a word of its own, and the parent's wake of its own word ends the wait. -/
theorem isolated_fails : ¬ ∀ s s' thread waker, InCall s → s.runWaker thread waker = .ok s' → Isolated s s' thread := by
  intro h
  obtain ⟨s, s', hcall, hok, hblocked, hblocked', h0, h1⟩ := waitBesideRun_state forkFlags 2
    (by decide)
  have hiso := h s s' 0 _ hcall hok 1 (by rw [hblocked]; exact List.mem_singleton_self 1) (by rw [h0, h1]; decide)
  rw [hblocked'] at hiso
  cases hiso.1

end Scheduler

end X64Emulator
