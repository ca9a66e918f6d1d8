import X64Emulator.Workers

/-!
# Where each thread stands

Statements about the lists of the scheduler, one thread at a time: how often each list names the thread, and what the operations
of the scheduler do to these numbers. `Ledger` is the invariant they keep: a thread is in one place, and it is blocked as often
as a blocker refers to it. The blockers that wait for an address space to be released are counted apart, because the end of a
thread does not erase them: what is said of them depends on a promise `P` about the run.
-/

namespace X64Emulator

open Outcome

/-- The failures that are ruled out: the first of them for the runs that keep the promise. -/
def lost (P : Prop) (e : Failure) : Prop := (e = .notBlocked ∧ P) ∨ e = .jobsRunning

/-- Under the promise no thread is unblocked that is not blocked. -/
@[simp]
theorem lost_notBlocked {P : Prop} : lost P .notBlocked ↔ P := by
  simp [lost]

/-- That other jobs run is ruled out in any case. -/
@[simp]
theorem lost_jobsRunning {P : Prop} : lost P .jobsRunning := by
  simp [lost]

/-- Other verifications may fail. -/
@[simp]
theorem not_lost_verification {P : Prop} : ¬ lost P .verification := by
  simp [lost]

/-- Where the check passes, the condition holds. -/
theorem post_ensure {P : Prop} {c : Prop} [Decidable c] : Post (lost P) (fun _ => c) (ensure c) :=
  Post.check (fun h => absurd h not_lost_verification)

/-- What is demanded is there. -/
theorem post_demand {P : Prop} {α : Type} (o : Option α) : Post (lost P) (fun a => o = some a) (demand o) := by
  cases o with
  | none => exact Post.error not_lost_verification
  | some a => exact Post.ok rfl

/-- How often each of the scheduler's lists names a thread. -/
structure Tally where
  threads : Nat
  running : Nat
  runnable : Nat
  blocked : Nat
  refs : Nat
  vmRefs : Nat

/-- A thread of the scheduler is in one of three places, and blocked by one blocker; another thread is nowhere. -/
structure Tally.Ok (P : Prop) (c : Tally) : Prop where
  once : c.threads ≤ 1
  place : c.running + c.runnable + c.blocked = c.threads
  blocker : 0 < c.threads → c.refs + c.vmRefs = c.blocked
  gone : c.threads = 0 → c.refs = 0
  vmGone : P → c.threads = 0 → c.vmRefs = 0

/-- No more references than a blocked thread accounts for. -/
theorem Tally.Ok.refs_le {P : Prop} {c : Tally} (h : c.Ok P) : c.refs ≤ c.blocked := by
  have := h.blocker
  have := h.gone
  omega

/-- The same, with the suspended threads. -/
theorem Tally.Ok.all_le {P : Prop} {c : Tally} (h : c.Ok P) (hP : P) : c.refs + c.vmRefs ≤ c.blocked := by
  have := h.blocker
  have := h.gone
  have := h.vmGone hP
  omega

namespace Scheduler

/-- The blockers that the end of a thread erases and that refer to it. -/
def refs (s : Scheduler) (t : Nat) : Nat :=
  s.futexBlockers.countP (·.thread = t) + s.pollBlockers.countP (·.thread = t) +
    s.selectBlockers.countP (·.thread = t) + s.epollWaitBlockers.countP (·.thread = t) +
    s.sleepBlockers.countP (·.thread = t) + s.waitBlockers.countP (·.thread = t) + s.readBlockers.countP (·.thread = t)

def vmRefs (s : Scheduler) (t : Nat) : Nat := s.vmReleaseBlockers.countP (·.thread = t)

def tally (s : Scheduler) (t : Nat) : Tally where
  threads := s.threads.count t
  running := s.runningJobs.countP (·.thread = t)
  runnable := s.runnableThreads.count t
  blocked := s.blockedThreads.count t
  refs := s.refs t
  vmRefs := s.vmRefs t

/-- The timer that the time limits of some futex blockers are told by is there. -/
def HasTimer (s : Scheduler) (l : List FutexBlocker) : Prop :=
  ∀ blocker ∈ l, blocker.timeLimit.isSome → (getTimer s.timers 0).isSome

structure Ledger (P : Prop) (s : Scheduler) : Prop where
  ok : ∀ t, (s.tally t).Ok P
  /-- the number of the next thread is not in use -/
  fresh : ∀ t, s.nbThreads ≤ t → (s.tally t).threads = 0 ∧ (s.tally t).vmRefs = 0
  timer : s.HasTimer s.futexBlockers

/-- The scheduler without what an answer to a blocked call changes: results, guest memory and children. -/
def skeleton (s : Scheduler) : Scheduler :=
  { s with
    memory := fun _ _ => none
    threadAt := fun t => { s.threadAt t with rax := 0 }
    processAt := fun p => { s.processAt p with children := [], exitedChildren := [] } }

/-- A result is not in a list. -/
@[simp]
theorem skeleton_setRax (s : Scheduler) (t : Nat) (value : Int) : (s.setRax t value).skeleton = s.skeleton := by
  unfold skeleton setRax setThread
  congr
  funext u
  by_cases hu : u = t <;> simp [hu]

/-- The memory is not in a list. -/
@[simp]
theorem skeleton_memory (s : Scheduler) (memory : GuestMemory) : { s with memory := memory }.skeleton = s.skeleton := rfl

/-- The children of a process are not threads. -/
theorem skeleton_children (s : Scheduler) (p : Nat) (children : List Nat → List Nat)
    (exited : List ExitedChild → List ExitedChild) :
    (s.setProcess p (fun process => { process with
      children := children process.children, exitedChildren := exited process.exitedChildren })).skeleton = s.skeleton := by
  unfold skeleton setProcess
  congr
  funext q
  by_cases hq : q = p <;> simp [hq]

/-! ## Answers -/

/-- An answer to a blocked call, if there is one, changes nothing else. -/
def Answers (P : Prop) {β : Type} (tryUnblock : Scheduler → β → Except Failure (Option Scheduler)) : Prop :=
  ∀ s blocker, Post (lost P) (fun o => ∀ s', o = some s' → s'.skeleton = s.skeleton) (tryUnblock s blocker)

variable {P : Prop} {s s' : Scheduler} {woken : List Nat}

/-- To ask for a timeout is never bad. -/
theorem post_timedOut (s : Scheduler) (limit : Option PreciseTime) :
    Post (lost P) (fun _ => True) (s.timedOut limit) := by
  cases limit with
  | none => exact Post.ok trivial
  | some limit => exact Post.bind (post_demand _) fun _ _ => Post.ok trivial

/-- A futex blocker moves no thread. -/
theorem answers_futex (ptr : Nat) : Answers P (tryUnblockFutex ptr) := by
  intro s blocker
  refine Post.bind (post_timedOut s _) fun timeout _ => Post.ite (fun _ => Post.ok ?_) fun _ =>
    Post.ite (fun _ => Post.ok ?_) fun _ => Post.ok ?_
  all_goals simp +contextual [eq_comm]

/-- A poll blocker moves no thread. -/
theorem answers_poll (answers : FsAnswers) : Answers P (tryUnblockPoll answers) := by
  intro s blocker
  refine Post.bind (post_timedOut s _) fun timeout _ => Post.ite (fun _ => Post.ok ?_) fun _ =>
    Post.ite (fun _ => Post.ok ?_) fun _ => Post.ok ?_
  all_goals simp +contextual [eq_comm]

/-- A select blocker moves no thread. -/
theorem answers_select (answers : FsAnswers) : Answers P (tryUnblockSelect answers) := by
  intro s blocker
  refine Post.bind (post_timedOut s _) fun timeout _ => Post.ite (fun _ => Post.ok ?_) fun _ => Post.ok ?_
  all_goals simp +contextual [eq_comm]

/-- An epoll blocker moves no thread. -/
theorem answers_epollWait (answers : FsAnswers) : Answers P (tryUnblockEpollWait answers) := by
  intro s blocker
  refine Post.bind (post_timedOut s _) fun timeout _ => Post.ite (fun _ => Post.ok ?_) fun _ =>
    Post.ite (fun _ => Post.ok ?_) fun _ => Post.ok ?_
  all_goals simp +contextual [eq_comm]

/-- A sleep blocker moves no thread. -/
theorem answers_sleep : Answers P tryUnblockSleep := by
  intro s blocker
  refine Post.bind (post_demand _) fun timer _ => Post.ite (fun _ => Post.ok ?_) fun _ => Post.ok ?_
  all_goals simp +contextual [eq_comm]

/-- A read blocker moves no thread. -/
theorem answers_read (answers : FsAnswers) : Answers P (tryUnblockRead answers) := by
  intro s blocker
  unfold tryUnblockRead
  split
  · exact Post.ok (by simp)
  · exact Post.ok (by simp +contextual [eq_comm])

/-- A blocker of a released address space moves no thread. -/
theorem answers_vmRelease : Answers P tryUnblockVmRelease := by
  intro s blocker
  refine Post.ok ?_
  split <;> simp +contextual [eq_comm]

/-- A write to memory is never bad. -/
theorem post_write32 (memory : GuestMemory) (space address value : Nat) :
    Post (lost P) (fun _ => True) (write32 memory space address value) :=
  Post.bind post_ensure fun _ _ => Post.ok trivial

/-- An exited child is reported without moving a thread. -/
theorem post_reportExitedChild (s : Scheduler) (blocker : WaitBlocker) (ec : ExitedChild) :
    Post (lost P) (fun s' => s'.skeleton = s.skeleton) (s.reportExitedChild blocker ec) := by
  unfold reportExitedChild
  refine Post.ite (fun _ => Post.ok (by simp)) fun _ => Post.bind (post_write32 _ _ _ _) fun memory _ => Post.ok ?_
  simp

/-- A given child is taken without moving a thread. -/
theorem post_tryRetrieveExitedChild (s : Scheduler) (p : Nat) (pid : Int) :
    Post (lost P) (fun o => ∀ r, o = some r → r.2.skeleton = s.skeleton) (s.tryRetrieveExitedChild p pid) := by
  refine Post.bind (post_demand _) fun child _ => ?_
  split
  · refine Post.ok ?_
    rintro r ⟨⟩
    exact skeleton_children s p (fun l => l.filter (fun c => c ≠ child)) (fun l => l.eraseP (fun ec => ec.pid = pid))
  · exact Post.ok (by simp)

/-- Any child is taken without moving a thread. -/
theorem post_tryRetrieveAnyExitedChild (s : Scheduler) (p : Nat) :
    Post (lost P) (fun o => ∀ r, o = some r → r.2.skeleton = s.skeleton) (s.tryRetrieveAnyExitedChild p) := by
  unfold tryRetrieveAnyExitedChild
  split
  · exact Post.ok (by simp)
  · next ec exitedChildren _ =>
    refine Post.bind (post_demand _) fun child _ => Post.ok ?_
    rintro r ⟨⟩
    exact skeleton_children s p (fun l => l.filter (fun c => c ≠ child)) (fun _ => exitedChildren)

/-- A child is taken without moving a thread. -/
theorem post_retrieveFor (s : Scheduler) (blocker : WaitBlocker) :
    Post (lost P) (fun o => ∀ r, o = some r → r.2.skeleton = s.skeleton) (s.retrieveFor blocker) :=
  Post.ite (fun _ => post_tryRetrieveExitedChild s _ _) fun _ => post_tryRetrieveAnyExitedChild s _

/-- A wait blocker moves no thread. -/
theorem answers_wait : Answers P tryUnblockWait := by
  intro s blocker
  refine Post.bind post_ensure fun _ _ => Post.bind (post_retrieveFor s blocker) fun found hfound => ?_
  match found with
  | none => exact Post.ok (by simp)
  | some (ec, s₁) =>
    refine Post.map (Post.mono (post_reportExitedChild s₁ blocker ec) ?_)
    rintro s' hs' _ ⟨⟩
    exact hs'.trans (hfound _ rfl)

/-! ## Unblocking -/

/-- The blocked threads `woken` are made runnable, and the lists are left as they are otherwise. -/
structure Moved (s s' : Scheduler) (woken : List Nat) : Prop where
  skeleton : s'.skeleton =
    { s.skeleton with blockedThreads := s'.blockedThreads, runnableThreads := s.runnableThreads ++ woken }
  blocked : ∀ t, s'.blockedThreads.count t + woken.count t = s.blockedThreads.count t

/-- Where the lists stay, no thread has moved. -/
theorem Moved.of_skeleton (h : s'.skeleton = s.skeleton) : Moved s s' [] := by
  have hb : s'.blockedThreads = s.blockedThreads := (congrArg Scheduler.blockedThreads h :)
  refine ⟨?_, fun t => by rw [hb, List.count_nil, Nat.add_zero]⟩
  rw [h, hb, List.append_nil]
  rfl

/-- Threads move one after another. -/
theorem Moved.trans {s'' : Scheduler} {l l' : List Nat} (h : Moved s s' l) (h' : Moved s' s'' l') :
    Moved s s'' (l ++ l') := by
  have hr : s'.runnableThreads = s.runnableThreads ++ l := (congrArg Scheduler.runnableThreads h.skeleton :)
  refine ⟨?_, fun t => ?_⟩
  · rw [h'.skeleton, h.skeleton, hr, List.append_assoc]
  · have := h.blocked t
    have := h'.blocked t
    rw [List.count_append]
    omega

/-- A blocked thread becomes runnable. -/
theorem unblock_post {bad : Failure → Prop} {thread : Nat} {locked : Bool}
    (hv : bad .verification → locked = true ∨ s.inKernel = true) (hmem : bad .notBlocked → thread ∈ s.blockedThreads) :
    Post bad (fun s' => Moved s s' [thread] ∧ s'.threadAt = s.threadAt) (s.unblock thread locked) := by
  refine Post.bind (Post.check hv) fun _ _ => Post.bind (Post.check hmem) fun _ hb => Post.ok ?_
  refine ⟨⟨rfl, fun t => ?_⟩, rfl⟩
  have hpos := List.count_pos_iff.2 hb
  rw [List.count_erase, List.count_singleton]
  by_cases ht : thread = t
  · subst ht
    simp only [beq_self_eq_true, if_true]
    omega
  · simp [ht]

/-- What a loop over a list of blockers does: every blocker is kept or its thread woken. -/
structure Sorted {β : Type} (thread : β → Nat) (l kept : List β) (woken : List Nat) : Prop where
  sublist : kept.Sublist l
  length : kept.length + woken.length = l.length
  count : ∀ t, kept.countP (thread · = t) + woken.count t = l.countP (thread · = t)

/-- The threads whose blockers go become runnable, and the other blockers stay. -/
theorem unblockLoop_post {β : Type} {thread : β → Nat}
    {tryUnblock : Scheduler → β → Except Failure (Option Scheduler)} (hanswers : Answers P tryUnblock) (l : List β)
    (s : Scheduler) (hle : P → ∀ t, l.countP (thread · = t) ≤ s.blockedThreads.count t) :
    Post (lost P) (fun r => ∃ woken, Moved s r.2 woken ∧ Sorted thread l r.1 woken)
      (unblockLoop thread tryUnblock l s) := by
  induction l generalizing s with
  | nil => exact Post.ok ⟨[], Moved.of_skeleton rfl, List.Sublist.refl _, rfl, fun _ => rfl⟩
  | cons blocker l ih =>
    refine Post.bind (hanswers s blocker) fun o ho => ?_
    match o with
    | none =>
      refine Post.bind (ih s fun hP t => ?_) fun (kept, s') ⟨woken, hmoved, hsorted⟩ => Post.ok
        ⟨woken, hmoved, ?_, ?_, fun t => ?_⟩
      · have := hle hP t
        rw [List.countP_cons] at this
        omega
      · exact hsorted.sublist.cons_cons blocker
      · have := hsorted.length
        simp only [List.length_cons] at this ⊢
        omega
      · have := hsorted.count t
        simp only [List.countP_cons] at this ⊢
        omega
    | some s₁ =>
      have hs₁ : Moved s s₁ [] := Moved.of_skeleton (ho s₁ rfl)
      have hle₁ : P → ∀ t, (blocker :: l).countP (thread · = t) ≤ s₁.blockedThreads.count t := by
        intro hP t
        have := hs₁.blocked t
        have := hle hP t
        rw [List.count_nil] at *
        omega
      refine Post.bind (unblock_post (by simp) fun hP => ?_) fun s₂ ⟨hs₂, _⟩ => Post.mono (ih s₂ fun hP t => ?_)
        fun (kept, s') ⟨woken, hmoved, hsorted⟩ => ⟨thread blocker :: woken, hs₁.trans (hs₂.trans hmoved),
          hsorted.sublist.cons _, ?_, fun t => ?_⟩
      · have := hle₁ (lost_notBlocked.1 hP) (thread blocker)
        rw [List.countP_cons_of_pos (by simp)] at this
        exact List.count_pos_iff.1 (by omega)
      · have := hle₁ hP t
        have := hs₂.blocked t
        rw [List.countP_cons] at *
        rw [List.count_singleton] at *
        simp only [beq_iff_eq, decide_eq_true_eq] at *
        omega
      · have := hsorted.length
        simp only [List.length_cons] at this ⊢
        omega
      · have := hsorted.count t
        simp only [List.countP_cons, List.count_cons, beq_iff_eq, decide_eq_true_eq] at this ⊢
        omega

/-! ## The eight lists -/

/-- The scheduler without blockers and timers, and without what an answer changes. -/
def bare (s : Scheduler) : Scheduler :=
  { s.skeleton with
    timers := []
    futexBlockers := []
    pollBlockers := []
    selectBlockers := []
    epollWaitBlockers := []
    sleepBlockers := []
    waitBlockers := []
    readBlockers := []
    vmReleaseBlockers := [] }

/-- The threads `woken` have become runnable, and a blocker that referred to each of them is gone. -/
structure Woke (s s' : Scheduler) (woken : List Nat) : Prop where
  bare : s'.bare =
    { s.bare with blockedThreads := s'.blockedThreads, runnableThreads := s.runnableThreads ++ woken }
  blocked : ∀ t, s'.blockedThreads.count t + woken.count t = s.blockedThreads.count t
  refs : ∀ t, s'.refs t ≤ s.refs t
  vmRefs : ∀ t, s'.vmRefs t ≤ s.vmRefs t
  all : ∀ t, s'.refs t + s'.vmRefs t + woken.count t = s.refs t + s.vmRefs t
  futex : ∀ blocker ∈ s'.futexBlockers, blocker ∈ s.futexBlockers
  timer : (getTimer s'.timers 0).isSome = (getTimer s.timers 0).isSome

section Woke

variable {s s' s'' : Scheduler} {l l' : List Nat}

/-- No thread is made or lost. -/
theorem Woke.threads (h : Woke s s' l) : s'.threads = s.threads := (congrArg Scheduler.threads h.bare :)

/-- Jobs go on. -/
theorem Woke.runningJobs (h : Woke s s' l) : s'.runningJobs = s.runningJobs := (congrArg Scheduler.runningJobs h.bare :)

/-- Woken threads come last. -/
theorem Woke.runnable (h : Woke s s' l) : s'.runnableThreads = s.runnableThreads ++ l :=
  (congrArg Scheduler.runnableThreads h.bare :)

/-- No thread number is given out. -/
theorem Woke.nbThreads (h : Woke s s' l) : s'.nbThreads = s.nbThreads := (congrArg Scheduler.nbThreads h.bare :)

/-- The number of jobs stays. -/
theorem Woke.numRunningJobs (h : Woke s s' l) : s'.numRunningJobs = s.numRunningJobs :=
  (congrArg Scheduler.numRunningJobs h.bare :)

/-- Requests stay. -/
theorem Woke.requestsSyscall (h : Woke s s' l) : s'.requestsSyscall = s.requestsSyscall := by
  funext t
  exact (congrArg (fun s : Scheduler => (s.threadAt t).requestsSyscall) h.bare :)

/-- Requests for atomic jobs stay. -/
theorem Woke.requestsAtomic (h : Woke s s' l) : s'.requestsAtomic = s.requestsAtomic := by
  funext t
  exact (congrArg (fun s : Scheduler => (s.threadAt t).requestsAtomic) h.bare :)

/-- Nobody is woken. -/
theorem Woke.refl (s : Scheduler) : Woke s s [] :=
  ⟨by rw [List.append_nil]; rfl, fun _ => rfl, fun _ => Nat.le_refl _, fun _ => Nat.le_refl _, fun _ => rfl,
    fun _ h => h, rfl⟩

/-- Threads are woken one after another. -/
theorem Woke.trans (h : Woke s s' l) (h' : Woke s' s'' l') : Woke s s'' (l ++ l') := by
  refine ⟨?_, fun t => ?_, fun t => Nat.le_trans (h'.refs t) (h.refs t),
    fun t => Nat.le_trans (h'.vmRefs t) (h.vmRefs t), fun t => ?_, fun b hb => h.futex b (h'.futex b hb),
    h'.timer.trans h.timer⟩
  · rw [h'.bare, h.bare, h.runnable, List.append_assoc]
  · have := h.blocked t
    have := h'.blocked t
    rw [List.count_append]
    omega
  · have := h.all t
    have := h'.all t
    rw [List.count_append]
    omega

/-- What wakes threads by the blockers that refer to them leaves each where it may stand. -/
theorem Woke.ok {P : Prop} (h : Woke s s' l) {t : Nat} (hok : (s.tally t).Ok P) : (s'.tally t).Ok P := by
  have hthreads : (s'.tally t).threads = (s.tally t).threads := by simp only [tally, h.threads]
  have hrunning : (s'.tally t).running = (s.tally t).running := by simp only [tally, h.runningJobs]
  have hrunnable : (s'.tally t).runnable = (s.tally t).runnable + l.count t := by
    simp only [tally, h.runnable, List.count_append]
  have hblocked : (s'.tally t).blocked + l.count t = (s.tally t).blocked := h.blocked t
  have hrefs : (s'.tally t).refs ≤ (s.tally t).refs := h.refs t
  have hvm : (s'.tally t).vmRefs ≤ (s.tally t).vmRefs := h.vmRefs t
  have hall : (s'.tally t).refs + (s'.tally t).vmRefs + l.count t = (s.tally t).refs + (s.tally t).vmRefs := h.all t
  have := hok.place
  refine ⟨by have := hok.once; omega, by omega, fun hpos => ?_, fun hzero => ?_, fun hP hzero => ?_⟩
  · have := hok.blocker (by omega)
    omega
  · have := hok.gone (by omega)
    omega
  · have := hok.vmGone hP (by omega)
    omega

/-- A woken thread is in one place as before. -/
theorem Woke.ledger {P : Prop} (h : Woke s s' l) (hs : s.Ledger P) : s'.Ledger P := by
  refine ⟨fun t => h.ok (hs.ok t), fun t ht => ?_, fun b hb hlimit => ?_⟩
  · rw [h.nbThreads] at ht
    obtain ⟨hfresh, hvm⟩ := hs.fresh t ht
    have := h.vmRefs t
    exact ⟨by simpa only [tally, h.threads] using hfresh, Nat.le_zero.1 (hvm ▸ this)⟩
  · rw [h.timer]
    exact hs.timer b (h.futex b hb) hlimit

end Woke

/-- A list of blockers is one of the scheduler's eight, and nothing else. -/
structure BlockerList.Lawful {β : Type} (blockers : BlockerList β) : Prop where
  get : ∀ s l l', blockers.get { s.skeleton with blockedThreads := l, runnableThreads := l' } = blockers.get s
  bare : ∀ s l, (blockers.set s l).bare = s.bare
  all : ∀ s l t, (blockers.set s l).refs t + (blockers.set s l).vmRefs t + (blockers.get s).countP (blockers.thread · = t) =
    s.refs t + s.vmRefs t + l.countP (blockers.thread · = t)
  mono : ∀ s l t, l.countP (blockers.thread · = t) ≤ (blockers.get s).countP (blockers.thread · = t) →
    (blockers.set s l).refs t ≤ s.refs t ∧ (blockers.set s l).vmRefs t ≤ s.vmRefs t
  futex : ∀ s l, (∀ b ∈ l, b ∈ blockers.get s) → ∀ b ∈ (blockers.set s l).futexBlockers, b ∈ s.futexBlockers
  timers : ∀ s l, (blockers.set s l).timers = s.timers
  set_get : ∀ s, blockers.set s (blockers.get s) = s

/-- The list of futex blockers. -/
theorem futexList_lawful : futexList.Lawful := by
  refine ⟨fun _ _ _ => rfl, fun _ _ => rfl, fun s l t => ?_, fun s l t h => ?_, fun _ _ h => h, fun _ _ => rfl, fun _ => rfl⟩ <;>
    simp only [refs, vmRefs] at * <;> omega

/-- The list of poll blockers. -/
theorem pollList_lawful : pollList.Lawful := by
  refine ⟨fun _ _ _ => rfl, fun _ _ => rfl, fun s l t => ?_, fun s l t h => ?_, fun _ _ _ _ h => h, fun _ _ => rfl, fun _ => rfl⟩ <;>
    simp only [refs, vmRefs] at * <;> omega

/-- The list of select blockers. -/
theorem selectList_lawful : selectList.Lawful := by
  refine ⟨fun _ _ _ => rfl, fun _ _ => rfl, fun s l t => ?_, fun s l t h => ?_, fun _ _ _ _ h => h, fun _ _ => rfl, fun _ => rfl⟩ <;>
    simp only [refs, vmRefs] at * <;> omega

/-- The list of epoll blockers. -/
theorem epollWaitList_lawful : epollWaitList.Lawful := by
  refine ⟨fun _ _ _ => rfl, fun _ _ => rfl, fun s l t => ?_, fun s l t h => ?_, fun _ _ _ _ h => h, fun _ _ => rfl, fun _ => rfl⟩ <;>
    simp only [refs, vmRefs] at * <;> omega

/-- The list of sleep blockers. -/
theorem sleepList_lawful : sleepList.Lawful := by
  refine ⟨fun _ _ _ => rfl, fun _ _ => rfl, fun s l t => ?_, fun s l t h => ?_, fun _ _ _ _ h => h, fun _ _ => rfl, fun _ => rfl⟩ <;>
    simp only [refs, vmRefs] at * <;> omega

/-- The list of wait blockers. -/
theorem waitList_lawful : waitList.Lawful := by
  refine ⟨fun _ _ _ => rfl, fun _ _ => rfl, fun s l t => ?_, fun s l t h => ?_, fun _ _ _ _ h => h, fun _ _ => rfl, fun _ => rfl⟩ <;>
    simp only [refs, vmRefs] at * <;> omega

/-- The list of read blockers. -/
theorem readList_lawful : readList.Lawful := by
  refine ⟨fun _ _ _ => rfl, fun _ _ => rfl, fun s l t => ?_, fun s l t h => ?_, fun _ _ _ _ h => h, fun _ _ => rfl, fun _ => rfl⟩ <;>
    simp only [refs, vmRefs] at * <;> omega

/-- The list of blockers of released address spaces. -/
theorem vmReleaseList_lawful : vmReleaseList.Lawful := by
  refine ⟨fun _ _ _ => rfl, fun _ _ => rfl, fun s l t => ?_, fun s l t h => ?_, fun _ _ _ _ h => h, fun _ _ => rfl, fun _ => rfl⟩ <;>
    simp only [refs, vmRefs] at * <;> omega

/-- A list has no more blockers of a thread than all lists together. -/
theorem BlockerList.Lawful.get_le {β : Type} {blockers : BlockerList β} (h : blockers.Lawful) (s : Scheduler) (t : Nat) :
    (blockers.get s).countP (blockers.thread · = t) ≤ s.refs t + s.vmRefs t := by
  have := h.all s [] t
  rw [List.countP_nil] at this
  omega

/-- A move changes two lists. -/
theorem Moved.bare (h : Moved s s' woken) :
    s'.bare = { s.bare with blockedThreads := s'.blockedThreads, runnableThreads := s.runnableThreads ++ woken } := by
  unfold Scheduler.bare
  rw [h.skeleton]

/-- A move leaves the blockers alone. -/
theorem Moved.refs (h : Moved s s' woken) : s'.refs = s.refs :=
  (congrArg Scheduler.refs h.skeleton :)

/-- It leaves the suspended threads alone. -/
theorem Moved.vmRefs (h : Moved s s' woken) : s'.vmRefs = s.vmRefs :=
  (congrArg Scheduler.vmRefs h.skeleton :)

/-- It leaves every list of blockers alone. -/
theorem BlockerList.Lawful.get_eq {β : Type} {blockers : BlockerList β} (h : blockers.Lawful)
    (hmoved : Moved s s' woken) : blockers.get s' = blockers.get s := by
  rw [← h.get s' s'.blockedThreads s'.runnableThreads, hmoved.skeleton]
  exact h.get s _ _

/-- A list whose woken blockers are taken out of it after the loop. -/
theorem BlockerList.Lawful.woke {β : Type} {blockers : BlockerList β} (h : blockers.Lawful)
    {kept : List β} (hmoved : Moved s s' woken)
    (hsorted : Sorted blockers.thread (blockers.get s) kept woken) : Woke s (blockers.set s' kept) woken := by
  have hget := h.get_eq hmoved
  have hbare := h.bare s' kept
  have hblocked : (blockers.set s' kept).blockedThreads = s'.blockedThreads := (congrArg Scheduler.blockedThreads hbare :)
  have hmono : ∀ t, kept.countP (blockers.thread · = t) ≤ (blockers.get s').countP (blockers.thread · = t) := by
    intro t
    have := hsorted.count t
    rw [hget]
    omega
  have htimers : s'.timers = s.timers := (congrArg Scheduler.timers hmoved.skeleton :)
  have hfutex : s'.futexBlockers = s.futexBlockers := (congrArg Scheduler.futexBlockers hmoved.skeleton :)
  refine ⟨by rw [hbare, hmoved.bare, hblocked], fun t => by rw [hblocked]; exact hmoved.blocked t, fun t => ?_, fun t => ?_,
    fun t => ?_, ?_, by rw [h.timers, htimers]⟩
  · exact hmoved.refs ▸ (h.mono s' kept t (hmono t)).1
  · exact hmoved.vmRefs ▸ (h.mono s' kept t (hmono t)).2
  · have hall := h.all s' kept t
    have := hsorted.count t
    rw [hget, hmoved.refs, hmoved.vmRefs] at hall
    omega
  · rw [← hfutex]
    exact h.futex s' kept fun b hb => by rw [hget]; exact hsorted.sublist.subset hb

/-- The threads of one list whose blockers answer are woken. -/
theorem unblockList_post {β : Type} {blockers : BlockerList β} (h : blockers.Lawful)
    {tryUnblock : Scheduler → β → Except Failure (Option Scheduler)} (hanswers : Answers P tryUnblock)
    (hs : s.Ledger P) : Post (lost P) (fun r => ∃ woken, Woke s r.2 woken ∧ r.2.timers = s.timers ∧
      (r.1 = false → woken = [] ∧ r.2.futexBlockers = s.futexBlockers)) (unblockList blockers tryUnblock s) := by
  refine Post.bind (unblockLoop_post hanswers _ s fun hP t => Nat.le_trans (h.get_le s t) ((hs.ok t).all_le hP))
    fun (kept, s') ⟨woken, hmoved, hsorted⟩ => Post.ok ⟨woken, h.woke hmoved hsorted, ?_, fun hnone => ?_⟩
  · exact (h.timers s' kept).trans (congrArg Scheduler.timers hmoved.skeleton :)
  · have hlength := hsorted.length
    simp only [decide_eq_false_iff_not, Nat.not_lt] at hlength hnone
    have hkept : kept = blockers.get s := hsorted.sublist.eq_of_length_le hnone
    refine ⟨List.length_eq_zero_iff.1 (by omega), ?_⟩
    simp only
    rw [hkept, ← h.get_eq hmoved, h.set_get]
    exact (congrArg Scheduler.futexBlockers hmoved.skeleton :)

/-- Timers wake nobody by themselves. -/
theorem woke_updateTimers (s : Scheduler) : Woke s s.updateTimers [] := by
  refine ⟨?_, fun _ => rfl, fun _ => Nat.le_refl _, fun _ => Nat.le_refl _, fun _ => rfl, fun _ h => h,
    getTimer_updateAllTimers _ _ _⟩
  rw [List.append_nil]
  rfl

/-- One of the parts of `tryUnblockThreads`. -/
def Part (P : Prop) (part : Scheduler → Except Failure (Bool × Scheduler)) : Prop :=
  ∀ s, s.Ledger P → Post (lost P) (fun r => ∃ woken, Woke s r.2 woken ∧ r.2.timers = s.timers ∧
    (r.1 = false → woken = [] ∧ r.2.futexBlockers = s.futexBlockers)) (part s)

/-- Each of the eight lists is a part of the attempt. -/
theorem unblockLists_part (answers : FsAnswers) : ∀ part ∈ unblockLists answers, Part P part := by
  intro part hpart s hs
  simp only [unblockLists, List.mem_cons, List.not_mem_nil, or_false] at hpart
  rcases hpart with rfl | rfl | rfl | rfl | rfl | rfl | rfl | rfl
  · exact unblockList_post sleepList_lawful answers_sleep hs
  · exact unblockList_post pollList_lawful (answers_poll answers) hs
  · exact unblockList_post selectList_lawful (answers_select answers) hs
  · exact unblockList_post epollWaitList_lawful (answers_epollWait answers) hs
  · exact unblockList_post futexList_lawful (answers_futex 0) hs
  · exact unblockList_post waitList_lawful answers_wait hs
  · exact unblockList_post readList_lawful (answers_read answers) hs
  · exact unblockList_post vmReleaseList_lawful answers_vmRelease hs

/-- What some of the parts leave, one after the other. -/
structure Unblocked (s : Scheduler) (acc : Bool × Scheduler) : Prop where
  woke : ∃ woken, Woke s acc.2 woken ∧ (acc.1 = false → woken = [])
  timers : acc.2.timers = s.timers
  futex : acc.1 = false → acc.2.futexBlockers = s.futexBlockers

/-- Before the first list nobody is woken. -/
theorem Unblocked.refl (s : Scheduler) : Unblocked s (false, s) :=
  ⟨⟨[], Woke.refl s, fun _ => rfl⟩, rfl, fun _ => rfl⟩

/-- One list more. -/
theorem Part.post {part : Scheduler → Except Failure (Bool × Scheduler)} (hpart : Part P part)
    {acc : Bool × Scheduler} (hs : s.Ledger P) (hacc : Unblocked s acc) :
    Post (lost P) (Unblocked s) (do
      let (didUnblock, s) ← part acc.2
      .ok (acc.1 || didUnblock, s)) := by
  obtain ⟨woken, hwoke, hnone⟩ := hacc.woke
  refine Post.bind (hpart acc.2 (hwoke.ledger hs)) fun (didUnblock, s') ⟨woken', hwoke', htimers', hnone'⟩ => Post.ok
    ⟨⟨woken ++ woken', hwoke.trans hwoke', fun hfalse => ?_⟩, htimers'.trans hacc.timers, fun hfalse => ?_⟩
  · rw [Bool.or_eq_false_iff] at hfalse
    rw [hnone hfalse.1, (hnone' hfalse.2).1, List.append_nil]
  · rw [Bool.or_eq_false_iff] at hfalse
    exact (hnone' hfalse.2).2.trans (hacc.futex hfalse.1)

/-- All lists are tried, and threads are woken. -/
theorem tryUnblockThreads_post (hs : s.Ledger P) (answers : FsAnswers) :
    Post (lost P) (fun r => ∃ woken, Woke s r.2 woken ∧ (r.1 = false → woken = [])) (s.tryUnblockThreads answers) := by
  have hupdate := woke_updateTimers s
  refine Post.mono (Post.foldlM (p := Unblocked s.updateTimers) (Unblocked.refl _) fun acc part hpart hacc =>
    (unblockLists_part answers part hpart).post (hupdate.ledger hs) hacc) fun acc hacc => ?_
  obtain ⟨woken, hwoke, hnone⟩ := hacc.woke
  exact ⟨woken, hupdate.trans hwoke, hnone⟩

end Scheduler

end X64Emulator
