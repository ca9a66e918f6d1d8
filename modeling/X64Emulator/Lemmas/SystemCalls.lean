import X64Emulator.Lemmas.Wake

/-!
# System calls keep the ledger

One statement about each operation a system call is made of, and one about the calls: after a call of a thread that runs, every
thread stands where it may, no job was added, and no thread was found missing among the blocked ones.
-/

namespace X64Emulator

open Outcome

namespace Scheduler

/-! ## Counting -/

/-- Leaving out what is sent to a number leaves no such element and all others. -/
theorem countP_filter_ne {β : Type} (f : β → Nat) (l : List β) (a t : Nat) :
    (l.filter (fun b => f b ≠ a)).countP (fun b => f b = t) = if t = a then 0 else l.countP (fun b => f b = t) := by
  rw [List.countP_filter]
  split
  · next h =>
    subst h
    exact List.countP_eq_zero.2 (by simp)
  · next h =>
    refine List.countP_congr fun b _ => ?_
    simp only [decide_eq_true_eq, Bool.and_eq_true, ne_eq, and_iff_left_iff_imp]
    exact fun hb hba => h (hb.symm.trans hba)

/-- Leaving a number out of a list leaves none of it and all others. -/
theorem count_filter_ne (l : List Nat) (a t : Nat) :
    (l.filter (fun u => u ≠ a)).count t = if t = a then 0 else l.count t := by
  split
  · next h => exact List.count_eq_zero.2 (by simp [h])
  · next h => exact List.count_filter (by simpa using h)

/-- An element at the end counts once. -/
theorem count_append_one (l : List Nat) (a t : Nat) : (l ++ [a]).count t = l.count t + if t = a then 1 else 0 := by
  rw [List.count_append, List.count_singleton]
  simp only [beq_iff_eq, eq_comm (a := t)]

/-- A blocker at the end refers to one thread more. -/
theorem countP_append_one {β : Type} (f : β → Nat) (l : List β) (b : β) (t : Nat) :
    (l ++ [b]).countP (fun b => f b = t) = l.countP (fun b => f b = t) + if t = f b then 1 else 0 := by
  rw [List.countP_append, List.countP_singleton]
  simp only [decide_eq_true_eq, eq_comm (a := t)]

/-! ## What a call leaves -/

variable {P : Prop} {s s' : Scheduler}

/-- A ledger with the same tallies and the timer of its futexes is kept. -/
theorem Ledger.congr (h : s.Ledger P) (htally : ∀ t, s'.tally t = s.tally t)
    (hn : s.nbThreads ≤ s'.nbThreads) (htimer : s'.HasTimer s'.futexBlockers) : s'.Ledger P := by
  refine ⟨fun t => htally t ▸ h.ok t, fun t ht => ?_, htimer⟩
  rw [htally]
  exact h.fresh t (Nat.le_trans hn ht)

/-- What an operation of a system call leaves, the ledger among it. -/
structure Served (P : Prop) (s s' : Scheduler) : Prop where
  ledger : s'.Ledger P
  jobs : s'.runningJobs.Sublist s.runningJobs
  num : s'.numRunningJobs = s.numRunningJobs

/-- Served twice is served. -/
theorem Served.trans {s'' : Scheduler} (h : Served P s s') (h' : Served P s' s'') : Served P s s'' :=
  ⟨h'.ledger, h'.jobs.trans h.jobs, h'.num.trans h.num⟩

/-- An operation that changes no list. -/
theorem Ledger.served (h : s.Ledger P) (htally : ∀ t, s'.tally t = s.tally t)
    (hn : s.nbThreads ≤ s'.nbThreads) (htimer : s'.HasTimer s'.futexBlockers)
    (hjobs : s'.runningJobs = s.runningJobs)
    (hnum : s'.numRunningJobs = s.numRunningJobs) : Served P s s' :=
  ⟨h.congr htally hn htimer, hjobs ▸ List.Sublist.refl _, hnum⟩

/-- Writing to guest memory changes no list. -/
theorem Ledger.memory (h : s.Ledger P) (memory : GuestMemory) : Served P s { s with memory := memory } :=
  h.served (fun _ => rfl) (Nat.le_refl _) h.timer rfl rfl

/-- A thread has a running job. -/
def IsRunning (s : Scheduler) (t : Nat) : Prop := 0 < (s.tally t).running

/-! ## Blocking -/

/-- The scheduler with one more blocker, which refers to a thread. -/
structure Referred (s s' : Scheduler) (thread : Nat) : Prop where
  bare : s'.bare = s.bare
  all : ∀ t, s'.refs t + s'.vmRefs t = s.refs t + s.vmRefs t + if t = thread then 1 else 0
  refs : ∀ t, s.refs t ≤ s'.refs t
  vmRefs : ∀ t, s.vmRefs t ≤ s'.vmRefs t
  timer : s'.HasTimer s'.futexBlockers

/-- The thread `thread` has stopped, and no other thread was touched. -/
structure Suspended (P : Prop) (s s' : Scheduler) (thread : Nat) : Prop extends Served P s s' where
  others : ∀ t, t ≠ thread → s'.tally t = s.tally t
  nbThreads : s'.nbThreads = s.nbThreads

/-- A thread that has its blocker sleeps after it yields. -/
theorem blockAndYield_post {Q : Prop} {s₁ : Scheduler} {thread : Nat} (hs : s.Ledger P) (hrun : s.IsRunning thread)
    (href : Referred s s₁ thread) : Post (lost Q) (fun s' => Suspended P s s' thread) (s₁.blockAndYield thread) := by
  have hthreads : s₁.threads = s.threads := (congrArg Scheduler.threads href.bare :)
  have hjobs : s₁.runningJobs = s.runningJobs := (congrArg Scheduler.runningJobs href.bare :)
  have hrunnable : s₁.runnableThreads = s.runnableThreads := (congrArg Scheduler.runnableThreads href.bare :)
  have hblocked : s₁.blockedThreads = s.blockedThreads := (congrArg Scheduler.blockedThreads href.bare :)
  refine Post.bind (Post.bind post_ensure fun _ _ => Post.ok rfl) fun s₂ hs₂ => Post.ok ?_
  subst hs₂
  have htally : ∀ t, ((Scheduler.yieldThread { s₁ with
      runningJobs := s₁.runningJobs.filter (fun job => job.thread ≠ thread)
      runnableThreads := s₁.runnableThreads.filter (fun t => t ≠ thread)
      blockedThreads := s₁.blockedThreads ++ [thread] } thread).tally t) =
      { threads := (s.tally t).threads
        running := if t = thread then 0 else (s.tally t).running
        runnable := if t = thread then 0 else (s.tally t).runnable
        blocked := (s.tally t).blocked + if t = thread then 1 else 0
        refs := s₁.refs t
        vmRefs := s₁.vmRefs t } := by
    intro t
    simp only [tally, yieldThread, setThread, hthreads, hjobs, hrunnable, hblocked, countP_filter_ne, count_filter_ne,
      count_append_one]
    rfl
  have hothers : ∀ t, t ≠ thread → (Scheduler.yieldThread { s₁ with
      runningJobs := s₁.runningJobs.filter (fun job => job.thread ≠ thread)
      runnableThreads := s₁.runnableThreads.filter (fun t => t ≠ thread)
      blockedThreads := s₁.blockedThreads ++ [thread] } thread).tally t = s.tally t := by
    intro t ht
    have hall := href.all t
    have hr := href.refs t
    have hv := href.vmRefs t
    rw [htally t]
    simp only [if_neg ht, Nat.add_zero] at hall ⊢
    have hrefs : s₁.refs t = s.refs t := by omega
    have hvm : s₁.vmRefs t = s.vmRefs t := by omega
    rw [hrefs, hvm]
    rfl
  -- a thread that runs is in no other list
  have hok := hs.ok thread
  have hplace := hok.place
  have hblocker := hok.blocker
  have honce := hok.once
  have hpos : 0 < (s.tally thread).running := hrun
  refine ⟨⟨⟨fun t => ?_, fun t ht => ?_, href.timer⟩, ?_, (congrArg Scheduler.numRunningJobs href.bare :)⟩, hothers,
    (congrArg Scheduler.nbThreads href.bare :)⟩
  · by_cases ht : t = thread
    · subst ht
      have hall : s₁.refs t + s₁.vmRefs t = (s.tally t).refs + (s.tally t).vmRefs + if t = t then 1 else 0 := href.all t
      rw [htally t]
      simp only [if_true] at hall ⊢
      exact ⟨honce, by simp only; omega, fun _ => by simp only; omega, fun hzero => by simp only at *; omega,
        fun _ hzero => by simp only at *; omega⟩
    · exact hothers t ht ▸ hs.ok t
  · have hne : t ≠ thread := by
      rintro rfl
      have := (hs.fresh t ((congrArg Scheduler.nbThreads href.bare :) ▸ ht)).1
      omega
    rw [hothers t hne]
    exact hs.fresh t ((congrArg Scheduler.nbThreads href.bare :) ▸ ht)
  · rw [← hjobs]
    exact List.filter_sublist

section Blocking

variable {P Q : Prop} {s : Scheduler} {thread : Nat}

/-- The timers are there when they were, and the old time limits can still be told. -/
theorem Ledger.keepTimer (hs : s.Ledger P) {timers : List Timer}
    (h : (getTimer s.timers 0).isSome → (getTimer timers 0).isSome) : HasTimer { s with timers := timers } s.futexBlockers :=
  fun b hb hlimit => h (hs.timer b hb hlimit)

/-- A new blocker, which may come with a timer, in one of the seven lists that the end of a thread erases. -/
theorem Referred.of_refs {s' : Scheduler} (hbare : s'.bare = s.bare)
    (hrefs : ∀ t, s'.refs t = s.refs t + if t = thread then 1 else 0) (hvm : s'.vmReleaseBlockers = s.vmReleaseBlockers)
    (htimer : s'.HasTimer s'.futexBlockers) : Referred s s' thread := by
  have hv : ∀ t, s'.vmRefs t = s.vmRefs t := fun t => by rw [Scheduler.vmRefs, hvm]; rfl
  refine ⟨hbare, fun t => ?_, fun t => ?_, fun t => Nat.le_of_eq (hv t).symm, htimer⟩
  · rw [hrefs, hv]
    omega
  · rw [hrefs]
    exact Nat.le_add_right _ _

/-- A sleeper waits for its timer. -/
theorem sleep_post (hs : s.Ledger P) (hrun : s.IsRunning thread) (timer : Int) (targetTime : PreciseTime) :
    Post (lost Q) (fun s' => Suspended P s s' thread) (s.sleep thread timer targetTime) := by
  refine Post.bind post_ensure fun _ _ => blockAndYield_post hs hrun (Referred.of_refs rfl (fun t => ?_) rfl hs.timer)
  simp only [refs, countP_append_one]
  omega

/-- Reading memory lists no thread. -/
theorem post_readBytes (memory : GuestMemory) (space address n : Nat) :
    Post (lost Q) (fun _ => True) (readBytes memory space address n) := by
  induction n generalizing address with
  | zero => exact Post.ok trivial
  | succ n ih => exact Post.bind (post_demand _) fun _ _ => Post.bind (ih _) fun _ _ => Post.ok trivial

/-- A time limit of a futex comes with its timer. -/
theorem post_futexTimeLimit (timeout : Nat) (absoluteTimeout : Bool) :
    Post (lost Q) (fun limit => limit.isSome → (getTimer s.timers 0).isSome)
      (s.futexTimeLimit thread timeout absoluteTimeout) :=
  Post.ite (fun _ => Post.ok (by simp)) fun _ => Post.bind (post_demand _) fun timer htimer =>
    Post.bind (post_readBytes _ _ _ _) fun _ _ => Post.bind (post_readBytes _ _ _ _) fun _ _ =>
    Post.ok (by simp [htimer])

/-- A thread that waits on a futex is suspended. -/
theorem wait_post (hs : s.Ledger P) (hrun : s.IsRunning thread) (wordPtr expected timeout : Nat) (absoluteTimeout : Bool) :
    Post (lost Q) (fun s' => Suspended P s s' thread) (s.wait thread wordPtr expected timeout absoluteTimeout) := by
  refine Post.bind post_ensure fun _ _ => Post.bind (post_futexTimeLimit _ _) fun limit hlimit =>
    blockAndYield_post hs hrun (Referred.of_refs rfl (fun t => ?_) rfl ?_)
  · simp only [refs, countP_append_one]
    omega
  · intro b hb hb'
    rcases List.mem_append.1 hb with hb | hb
    · exact hs.timer b hb hb'
    · rw [List.mem_singleton.1 hb] at hb'
      exact hlimit hb'

/-- A timeout touches the timers and keeps timer 0. -/
theorem post_withTimeout (timeoutInMs : Int) :
    Post (lost Q) (fun r => ∃ timers, ((getTimer s.timers 0).isSome → (getTimer timers 0).isSome) ∧
      r.2 = { s with timers := timers }) (s.withTimeout timeoutInMs) :=
  Post.ite (fun _ => Post.bind (post_demand _) fun _ _ => Post.ok ⟨_, getTimer_createTimer 0, rfl⟩) fun _ =>
    Post.ok ⟨_, id, rfl⟩

/-- A thread that polls is suspended. -/
theorem poll_post (hs : s.Ledger P) (hrun : s.IsRunning thread) (fds nfds : Nat) (timeout : Int) :
    Post (lost Q) (fun s' => Suspended P s s' thread) (s.poll thread fds nfds timeout) := by
  refine Post.bind post_ensure fun _ _ => Post.bind post_ensure fun _ _ => Post.bind (post_withTimeout timeout) ?_
  rintro ⟨limit, s₁⟩ ⟨timers, htimers, rfl⟩
  refine blockAndYield_post hs hrun (Referred.of_refs rfl (fun t => ?_) rfl (hs.keepTimer htimers))
  simp only [refs, countP_append_one]
  omega

/-- The time limit of a select touches the timers and keeps timer 0. -/
theorem post_selectTimeLimit (timeout : Nat) :
    Post (lost Q) (fun r => ∃ timers, ((getTimer s.timers 0).isSome → (getTimer timers 0).isSome) ∧
      r.2 = { s with timers := timers }) (s.selectTimeLimit thread timeout) :=
  Post.bind (post_demand _) fun _ _ => Post.ite (fun _ => Post.ok ⟨_, getTimer_createTimer 0, rfl⟩) fun _ =>
    Post.bind (post_readBytes _ _ _ _) fun _ _ => Post.bind (post_readBytes _ _ _ _) fun _ _ =>
    Post.ok ⟨_, getTimer_createTimer 0, rfl⟩

/-- A thread that selects is suspended. -/
theorem select_post (hs : s.Ledger P) (hrun : s.IsRunning thread) (nfds : Int)
    (readfds writefds exceptfds timeout : Nat) :
    Post (lost Q) (fun s' => Suspended P s s' thread) (s.select thread nfds readfds writefds exceptfds timeout) := by
  refine Post.bind post_ensure fun _ _ => Post.bind (post_selectTimeLimit timeout) ?_
  rintro ⟨limit, s₁⟩ ⟨timers, htimers, rfl⟩
  refine blockAndYield_post hs hrun (Referred.of_refs rfl (fun t => ?_) rfl (hs.keepTimer htimers))
  simp only [refs, countP_append_one]
  omega

/-- A thread that waits for events is suspended. -/
theorem epollWait_post (hs : s.Ledger P) (hrun : s.IsRunning thread) (epfd : Int) (events maxevents : Nat)
    (timeout : Int) :
    Post (lost Q) (fun s' => Suspended P s s' thread) (s.epollWait thread epfd events maxevents timeout) := by
  refine Post.bind post_ensure fun _ _ => Post.bind (post_withTimeout timeout) ?_
  rintro ⟨limit, s₁⟩ ⟨timers, htimers, rfl⟩
  refine blockAndYield_post hs hrun (Referred.of_refs rfl (fun t => ?_) rfl (hs.keepTimer htimers))
  simp only [refs, countP_append_one]
  omega

/-- A thread that waits for a child is suspended. -/
theorem wait4_post (hs : s.Ledger P) (hrun : s.IsRunning thread) (pid : Int) (wstatus : Nat) :
    Post (lost Q) (fun s' => Suspended P s s' thread) (s.wait4 thread pid wstatus) := by
  refine Post.bind post_ensure fun _ _ => blockAndYield_post hs hrun
    (Referred.of_refs rfl (fun t => ?_) rfl hs.timer)
  simp only [refs, countP_append_one]
  omega

/-- A thread that reads an empty pipe is suspended. -/
theorem blockingRead_post (hs : s.Ledger P) (hrun : s.IsRunning thread) (fd : Int) (buf count : Nat) :
    Post (lost Q) (fun s' => Suspended P s s' thread) (s.blockingRead thread fd buf count) := by
  refine Post.bind post_ensure fun _ _ => blockAndYield_post hs hrun
    (Referred.of_refs rfl (fun t => ?_) rfl hs.timer)
  simp only [refs, countP_append_one]
  omega

/-- The parent of a vfork is suspended. -/
theorem suspendUntilVmReleased_post (hs : s.Ledger P) (hrun : s.IsRunning thread) :
    Post (lost Q) (fun s' => Suspended P s s' thread) (s.suspendUntilVmReleased thread) := by
  refine Post.bind post_ensure fun _ _ => blockAndYield_post hs hrun
    ⟨rfl, fun t => ?_, fun t => Nat.le_refl _, fun t => ?_, hs.timer⟩
  · simp only [refs, vmRefs, countP_append_one]
    omega
  · simp only [vmRefs, countP_append_one]
    exact Nat.le_add_right _ _

end Blocking

/-! ## Waking -/

/-- Waking keeps the ledger. -/
theorem Woke.served {woken : List Nat} (h : Woke s s' woken) (hs : s.Ledger P) : Served P s s' :=
  ⟨h.ledger hs, h.runningJobs ▸ List.Sublist.refl _, h.numRunningJobs⟩

/-- The operation of a futex word lists no thread. -/
theorem post_apply {Q : Prop} (futexOp : FutexOp) (oldval : Nat) :
    Post (lost Q) (fun _ => True) (futexOp.apply oldval) := by
  unfold FutexOp.apply
  split
  all_goals first | exact trivial | exact Post.error not_lost_verification

/-- The comparison of a futex word lists no thread. -/
theorem post_compare {Q : Prop} (futexOp : FutexOp) (oldval : Nat) :
    Post (lost Q) (fun _ => True) (futexOp.compare oldval) := by
  unfold FutexOp.compare
  split
  all_goals first | exact trivial | exact Post.error not_lost_verification

/-- Waking by an operation keeps the ledger. -/
theorem wakeOp_post {Q : Prop} (hs : s.Ledger P) (thread uaddr : Nat) (val : UInt32) (uaddr2 : Nat)
    (val2 val3 : UInt32) :
    Post (lost Q) (fun r => Served P s r.2) (s.wakeOp thread uaddr val uaddr2 val2 val3) := by
  refine Post.bind post_ensure fun _ _ => Post.bind (post_readBytes _ _ _ _) fun oldval _ =>
    Post.bind (post_apply _ _) fun newval _ => Post.bind (post_write32 _ _ _ _) fun memory _ =>
    Post.bind (wake_post (s := { s with memory := memory }) _ _ (by simp) hs.refs_le) fun (nbWoken, s₁) hwakes => ?_
  have hs₁ : Served P s s₁ := (hs.memory memory).trans (hwakes.woke.served (hs.memory memory).ledger)
  exact Post.bind (post_compare _ _) fun cmp _ => Post.ite (fun _ =>
    Post.bind (wake_post _ _ (by simp) hs₁.ledger.refs_le) fun (nbWoken₂, s₂) hwakes₂ => Post.ok
      (hs₁.trans (hwakes₂.woke.served hs₁.ledger))) fun _ => Post.ok hs₁

/-! ## Terminating -/

section Terminating

variable {P Q : Prop} {s : Scheduler} {thread : Nat}

/-- A thread without its blockers is referred to by none. -/
theorem tally_eraseBlockers (t : Nat) : (s.eraseBlockers thread).tally t =
    { s.tally t with refs := if t = thread then 0 else (s.tally t).refs } := by
  simp only [tally, eraseBlockers, refs, countP_filter_ne]
  split <;> rfl

/-- An erased thread is in no list. -/
theorem tally_eraseThread (t : Nat) : (s.eraseThread thread).tally t =
    if t = thread then { threads := 0, running := 0, runnable := 0, blocked := 0, refs := s.refs t, vmRefs := s.vmRefs t }
    else s.tally t := by
  simp only [tally, eraseThread, countP_filter_ne, count_filter_ne]
  split <;> rfl

/-- Clearing the word of a child wakes its waiters. -/
theorem wakeClearChildTid_post (hle : ∀ t, s.refs t ≤ s.blockedThreads.count t) :
    Post (lost Q) (fun s' => ∃ woken, Woke s s' woken) (s.wakeClearChildTid thread) := by
  refine Post.ite (fun _ => Post.ok ⟨[], Woke.refl s⟩) fun _ => Post.bind (post_write32 _ _ _ _) fun memory _ =>
    Post.bind (wake_post (s := { s with memory := memory }) _ _ (by simp) hle) fun (nbWoken, s') hwakes =>
    Post.ok ⟨_, hwakes.woke.bare, hwakes.woke.blocked, hwakes.woke.refs, hwakes.woke.vmRefs, hwakes.woke.all,
      hwakes.woke.futex, hwakes.woke.timer⟩

/-- The end of a thread that no suspended thread's blocker refers to. -/
theorem terminate_post (hs : s.Ledger P) (hvm : P → s.vmRefs thread = 0) (status : Int) :
    Post (lost Q) (fun s' => Served P s s' ∧ ∀ t, s'.vmRefs t ≤ s.vmRefs t) (s.terminate thread status) := by
  have herased : ∀ t, (((s.yieldThread thread).setThread thread (fun t => { t with exitStatus := status })).eraseBlockers
      thread).tally t = { s.tally t with refs := if t = thread then 0 else (s.tally t).refs } := fun t => tally_eraseBlockers t
  refine Post.bind post_ensure fun _ _ => Post.bind (wakeClearChildTid_post fun t => ?_) fun s₁ ⟨woken, hwoke⟩ => Post.ok ?_
  · have hrefs := congrArg Tally.refs (herased t)
    have hle := hs.refs_le t
    refine Nat.le_trans (Nat.le_of_eq hrefs) ?_
    simp only
    split
    · exact Nat.zero_le _
    · exact hle
  · have hjobs := hwoke.runningJobs
    refine ⟨⟨⟨fun t => ?_, fun t ht => ?_, fun b hb hlimit => ?_⟩, ?_, hwoke.numRunningJobs⟩, hwoke.vmRefs⟩
    · rw [tally_eraseThread]
      by_cases ht : t = thread
      · -- nothing refers to the thread any more but a blocker that the promise rules out
        have hrefs : s₁.refs t = 0 := by
          have h := congrArg Tally.refs (herased t)
          simp only [if_pos ht] at h
          exact Nat.le_zero.1 (Nat.le_trans (hwoke.refs t) (Nat.le_of_eq h))
        rw [if_pos ht]
        refine ⟨Nat.zero_le _, rfl, fun h => absurd h (Nat.lt_irrefl 0), fun _ => hrefs, fun hP _ => ?_⟩
        exact Nat.le_zero.1 (hvm hP ▸ ht ▸ hwoke.vmRefs t)
      · rw [if_neg ht]
        refine hwoke.ok ?_
        rw [herased, if_neg ht]
        exact hs.ok t
    · have hfresh := hs.fresh t (Nat.le_trans (Nat.le_of_eq hwoke.nbThreads.symm) ht)
      have hvmRefs : s₁.vmRefs t = 0 := Nat.le_zero.1 (Nat.le_trans (hwoke.vmRefs t) (Nat.le_of_eq hfresh.2))
      rw [tally_eraseThread]
      split
      · exact ⟨rfl, hvmRefs⟩
      · refine ⟨?_, hvmRefs⟩
        simp only [tally, hwoke.threads]
        exact hfresh.1
    · show (getTimer s₁.timers 0).isSome
      rw [hwoke.timer]
      exact hs.timer b (List.mem_filter.1 (hwoke.futex b hb)).1 hlimit
    · rw [show s.runningJobs = s₁.runningJobs from hjobs.symm]
      exact List.filter_sublist

/-- Terminating a list of threads keeps the ledger when no fork waits for one of them. -/
theorem terminateAll_post (hs : s.Ledger P) (threads : List Nat) (hvm : P → ∀ t ∈ threads, s.vmRefs t = 0)
    (status : Int) : Post (lost Q) (fun s' => Served P s s') (s.terminateAll threads status) := by
  refine Post.mono (p := fun s' => Served P s s' ∧ ∀ t, s'.vmRefs t ≤ s.vmRefs t) (Post.foldlM
    ⟨hs.served (fun _ => rfl) (Nat.le_refl _) hs.timer rfl rfl, fun _ => Nat.le_refl _⟩ fun s' t ht ⟨hserved, hle⟩ => ?_) fun _ h => h.1
  refine Post.mono (terminate_post hserved.ledger (fun hP => ?_) status) fun s'' ⟨hserved', hle'⟩ =>
    ⟨hserved.trans hserved', fun u => Nat.le_trans (hle' u) (hle u)⟩
  exact Nat.le_zero.1 (hvm hP t ht ▸ hle t)

end Terminating

/-! ## Creating threads -/

/-- A thread object that no list names yet. -/
structure Unlisted (s : Scheduler) (t : Nat) : Prop where
  lt : t < s.nbThreads
  threads : (s.tally t).threads = 0
  vmRefs : (s.tally t).vmRefs = 0

/-- A new thread is listed once. -/
theorem addThread_served {t : Nat} (hs : s.Ledger P) (ht : s.Unlisted t) : Served P s (s.addThread t) := by
  have htally : ∀ u, (s.addThread t).tally u = { s.tally u with
      threads := (s.tally u).threads + if u = t then 1 else 0
      runnable := (s.tally u).runnable + if u = t then 1 else 0 } := by
    intro u
    simp only [tally, addThread, count_append_one]
    rfl
  refine ⟨⟨fun u => ?_, fun u hu => ?_, hs.timer⟩, List.Sublist.refl _, rfl⟩
  · have hok := hs.ok u
    rw [htally]
    by_cases hut : u = t
    · subst hut
      have h0 := ht.threads
      have hv := ht.vmRefs
      have hplace := hok.place
      have hgone := hok.gone h0
      simp only [if_true]
      exact ⟨by simp only; omega, by simp only; omega, fun _ => by simp only; omega, fun h => by simp only at h; omega,
        fun _ h => by simp only at h; omega⟩
    · simp only [if_neg hut, Nat.add_zero]
      exact hok
  · have hne : u ≠ t := fun h => absurd ht.lt (Nat.not_lt.2 (h ▸ hu))
    rw [htally]
    simp only [if_neg hne, Nat.add_zero]
    exact hs.fresh u hu

/-- What the creation of a process or a thread object leaves of the lists: all of them. -/
structure Untouched (s s' : Scheduler) : Prop where
  tally : s'.tally = s.tally
  jobs : s'.runningJobs = s.runningJobs
  num : s'.numRunningJobs = s.numRunningJobs
  futex : s'.futexBlockers = s.futexBlockers
  timers : s'.timers = s.timers

/-- What leaves the lists alone keeps the ledger. -/
theorem Untouched.served (h : Untouched s s') (hs : s.Ledger P)
    (hn : s.nbThreads ≤ s'.nbThreads) : Served P s s' :=
  hs.served (fun t => congrFun h.tally t) hn (by unfold HasTimer; rw [h.futex, h.timers]; exact hs.timer) h.jobs h.num

/-- A new number for a thread touches no list. -/
theorem addProcessThread_untouched (s : Scheduler) (p : Nat) : Untouched s (s.addProcessThread p).2 := by
  unfold addProcessThread
  cases (s.processAt p).threads.isEmpty
  · exact ⟨rfl, rfl, rfl, rfl, rfl⟩
  · exact ⟨rfl, rfl, rfl, rfl, rfl⟩

/-- The new number is the next one. -/
theorem addProcessThread_nbThreads (s : Scheduler) (p : Nat) :
    (s.addProcessThread p).1 = s.nbThreads ∧ (s.addProcessThread p).2.nbThreads = s.nbThreads + 1 := by
  unfold addProcessThread
  cases (s.processAt p).threads.isEmpty
  · exact ⟨rfl, rfl⟩
  · exact ⟨rfl, rfl⟩

/-- A new thread object of a process is in no list. -/
theorem addProcessThread_served (hs : s.Ledger P) (p : Nat) :
    Served P s (s.addProcessThread p).2 ∧ (s.addProcessThread p).2.Unlisted (s.addProcessThread p).1 := by
  have huntouched := addProcessThread_untouched s p
  obtain ⟨hthread, hn⟩ := addProcessThread_nbThreads s p
  have hfresh := hs.fresh s.nbThreads (Nat.le_refl _)
  refine ⟨huntouched.served hs (by rw [hn]; exact Nat.le_succ _), ?_, ?_, ?_⟩
  · rw [hthread, hn]
    exact Nat.lt_succ_self _
  · rw [huntouched.tally, hthread]
    exact hfresh.1
  · rw [huntouched.tally, hthread]
    exact hfresh.2

/-- A new process touches no list. -/
theorem cloneProcess_served (hs : s.Ledger P) (p : Nat) (vm : Bool) : Served P s (s.cloneProcess p vm).2 :=
  hs.served (fun _ => rfl) (Nat.le_refl _) hs.timer rfl rfl

/-- Suspending another thread lists none. -/
theorem Unlisted.suspended {t current : Nat} (h : s.Unlisted t) (hs : s.Ledger P)
    (hrun : s.IsRunning current) (hs' : Suspended P s s' current) : s'.Unlisted t := by
  have hne : t ≠ current := by
    rintro rfl
    have := (hs.ok t).place
    have := h.threads
    unfold IsRunning at hrun
    omega
  refine ⟨hs'.nbThreads ▸ h.lt, ?_, ?_⟩
  · rw [hs'.others t hne]
    exact h.threads
  · rw [hs'.others t hne]
    exact h.vmRefs

/-- Only a vfork suspends its caller. -/
theorem suspendIfVfork_post {Q : Prop} {current : Nat} (hs : s.Ledger P) (hrun : s.IsRunning current)
    (flags : CloneFlags) : Post (lost Q) (fun s' => Suspended P s s' current ∨ s' = s) (s.suspendIfVfork current flags) :=
  Post.ite (fun _ => Post.mono (suspendUntilVmReleased_post hs hrun) fun _ h => Or.inl h) fun _ => Post.ok (Or.inr rfl)

/-- The thread a clone creates, if it creates one, is in no list. -/
theorem createClone_post {Q : Prop} {current : Nat} (hs : s.Ledger P) (hrun : s.IsRunning current)
    (flags : CloneFlags) : Post (lost Q) (fun r => Served P s r.2 ∧ ∀ t, r.1 = some t → r.2.Unlisted t)
      (s.createClone current flags) := by
  refine Post.ite (fun _ => Post.bind post_ensure fun _ _ => Post.bind post_ensure fun _ _ => Post.bind post_ensure
    fun _ _ => Post.ok ?_) fun _ => Post.bind post_ensure fun _ _ => Post.ite (fun _ => Post.ok ?_) fun _ => ?_
  · obtain ⟨hserved, hunlisted⟩ := addProcessThread_served hs (s.processOf current)
    exact ⟨hserved, by rintro _ ⟨⟩; exact hunlisted⟩
  · exact ⟨cloneProcess_served hs _ _, by rintro _ ⟨⟩⟩
  · have hclone := cloneProcess_served hs (s.processOf current) flags.cloneVm
    obtain ⟨hserved, hunlisted⟩ := addProcessThread_served hclone.ledger
      (s.cloneProcess (s.processOf current) flags.cloneVm).1
    have hrun' : ((s.cloneProcess (s.processOf current) flags.cloneVm).2.addProcessThread
        (s.cloneProcess (s.processOf current) flags.cloneVm).1).2.IsRunning current := by
      unfold IsRunning
      rw [(addProcessThread_untouched _ _).tally]
      exact hrun
    refine Post.bind (suspendIfVfork_post hserved.ledger hrun' flags) fun s' hs' => Post.ok ?_
    have hall := hclone.trans hserved
    rcases hs' with hsuspended | rfl
    · refine ⟨hall.trans hsuspended.toServed, ?_⟩
      rintro t ⟨⟩
      exact hunlisted.suspended hserved.ledger hrun' hsuspended
    · exact ⟨hall, by rintro t ⟨⟩; exact hunlisted⟩

section Calls

variable {P Q : Prop} {s : Scheduler} {current : Nat}

/-- A change of a thread keeps the ledger. -/
theorem setThread_served (hs : s.Ledger P) (t : Nat) (f : Thread → Thread) : Served P s (s.setThread t f) :=
  hs.served (fun _ => rfl) (Nat.le_refl _) hs.timer rfl rfl

/-- A change of a process keeps the ledger. -/
theorem setProcess_served (hs : s.Ledger P) (p : Nat) (f : Process → Process) : Served P s (s.setProcess p f) :=
  hs.served (fun _ => rfl) (Nat.le_refl _) hs.timer rfl rfl

/-- Storing a tid changes no list, so a thread that no list names stays one. -/
theorem storeTid_post (hs : s.Ledger P) (wanted : Bool) (space address newThread : Nat) :
    Post (lost Q) (fun s' => Served P s s' ∧ (s.Unlisted newThread → s'.Unlisted newThread))
      (s.storeTid wanted space address newThread) :=
  Post.ite (fun _ => Post.bind (post_write32 _ _ _ _) fun memory _ => Post.ok
    ⟨hs.memory memory, fun h => ⟨h.lt, h.threads, h.vmRefs⟩⟩) fun _ => Post.ok ⟨hs.memory s.memory, id⟩

/-- `clone` keeps the ledger. -/
theorem clone_post (hs : s.Ledger P) (hrun : s.IsRunning current) (flags : CloneFlags)
    (stack parent_tid child_tid : Nat) :
    Post (lost Q) (fun r => Served P s r.2) (s.clone current flags stack parent_tid child_tid) := by
  refine Post.bind (createClone_post hs hrun flags) fun (o, s₁) ⟨hserved, hunlisted⟩ => ?_
  match o with
  | none => exact Post.ok hserved
  | some newThread =>
    have hset := setThread_served hserved.ledger newThread (fun t => { t with
      rax := 0, clearChildTid := if flags.childClearTid then child_tid else t.clearChildTid })
    have hnew := hunlisted newThread rfl
    refine Post.bind post_ensure fun _ _ => Post.bind (storeTid_post hset.ledger _ _ _ _) fun s₂ ⟨hs₂, hnew₂⟩ =>
      Post.bind (storeTid_post hs₂.ledger _ _ _ newThread) fun s₃ ⟨hs₃, hnew₃⟩ => Post.ok ?_
    exact hserved.trans (hset.trans (hs₂.trans (hs₃.trans (addThread_served hs₃.ledger
      (hnew₃ (hnew₂ ⟨hnew.lt, hnew.threads, hnew.vmRefs⟩))))))

/-- `clone3` keeps the ledger. -/
theorem clone3_post (hs : s.Ledger P) (hrun : s.IsRunning current) (flags : CloneFlags) (child_tid : Nat) :
    Post (lost Q) (fun r => Served P s r.2) (s.clone3 current flags child_tid) := by
  refine Post.bind (createClone_post hs hrun flags) fun (o, s₁) ⟨hserved, hunlisted⟩ => ?_
  match o with
  | none => exact Post.ok hserved
  | some newThread =>
    have hset := setThread_served hserved.ledger newThread (fun t => { t with
      rax := 0, clearChildTid := if flags.childClearTid then child_tid else t.clearChildTid })
    have hnew := hunlisted newThread rfl
    refine Post.bind (storeTid_post hset.ledger _ _ _ _) fun s₂ ⟨hs₂, hnew₂⟩ =>
      Post.bind (storeTid_post hs₂.ledger _ _ _ newThread) fun s₃ ⟨hs₃, hnew₃⟩ => Post.ok ?_
    exact hserved.trans (hset.trans (hs₂.trans (hs₃.trans (addThread_served hs₃.ledger
      (hnew₃ (hnew₂ ⟨hnew.lt, hnew.threads, hnew.vmRefs⟩))))))

/-! ## Calls -/

/-- `execve` keeps the ledger. -/
theorem execve_post (hs : s.Ledger P) (outcome : Except Int (Nat → Option UInt8))
    (hvm : P → ∀ t ∈ s.terminatedBy current (.execve outcome), s.vmRefs t = 0) :
    Post (lost Q) (fun r => Served P s r.2) (s.execve current outcome) := by
  match outcome with
  | .error ret => exact Post.ok (hs.memory s.memory)
  | .ok image =>
    refine Post.bind (Post.bind post_ensure fun _ _ => terminateAll_post hs _ hvm 0) fun s₁ hs₁ => Post.ok ?_
    have hprepare : Served P s₁ (s₁.prepareExec (s.processOf current) image) :=
      hs₁.ledger.served (fun _ => rfl) (Nat.le_refl _) hs₁.ledger.timer rfl rfl
    obtain ⟨hserved, hunlisted⟩ := addProcessThread_served hprepare.ledger (s.processOf current)
    exact hs₁.trans (hprepare.trans (hserved.trans (addThread_served hserved.ledger hunlisted)))

/-- `exit_group` keeps the ledger. -/
theorem exit_group_post (hs : s.Ledger P) (status : Int)
    (hvm : P → ∀ t ∈ s.terminatedBy current (.exit_group status), s.vmRefs t = 0) :
    Post (lost Q) (fun r => Served P s r.2) (s.exit_group current status) := by
  refine Post.bind (Post.bind post_ensure fun _ _ => terminateAll_post hs _ hvm status) fun s₁ hs₁ =>
    Post.bind (p := Served P s) ?_ fun s₂ hs₂ => Post.ok hs₂
  unfold notifyExit
  split
  · exact Post.ok hs₁
  · exact Post.bind post_ensure fun _ _ => Post.ok (hs₁.trans (setProcess_served hs₁.ledger _ _))

/-- Waiting for a child keeps the ledger. -/
theorem waitForChild_post (hs : s.Ledger P) (hrun : s.IsRunning current) (pid : Int) (wstatus : Nat) :
    Post (lost Q) (fun r => Served P s r.2) (s.waitForChild current pid wstatus) :=
  Post.bind (wait4_post hs hrun pid wstatus) fun _ h => Post.ok h.toServed

/-- What keeps the lists and the blockers keeps the ledger. -/
theorem served_of_skeleton {s' : Scheduler} (hs : s.Ledger P) (h : s'.skeleton = s.skeleton) : Served P s s' :=
  hs.served (fun t => (congrArg (fun s : Scheduler => s.tally t) h :))
    (Nat.le_of_eq (congrArg Scheduler.nbThreads h.symm :))
    (by rw [show s'.futexBlockers = s.futexBlockers from (congrArg Scheduler.futexBlockers h :), HasTimer,
      show s'.timers = s.timers from (congrArg Scheduler.timers h :)]; exact hs.timer)
    (congrArg Scheduler.runningJobs h :)
    (congrArg Scheduler.numRunningJobs h :)

/-- `wait4` keeps the ledger. -/
theorem sysWait4_post (hs : s.Ledger P) (hrun : s.IsRunning current) (pid : Int) (wstatus : Nat) (options : WaitOptions) :
    Post (lost Q) (fun r => Served P s r.2) (s.sysWait4 current pid wstatus options) := by
  refine Post.ite (fun _ => Post.ok (hs.memory s.memory)) fun _ => Post.ite (fun _ =>
    Post.bind (post_tryRetrieveAnyExitedChild s _) fun found hfound => ?_) fun _ =>
    Post.ite (fun _ => Post.ok (hs.memory s.memory)) fun _ => waitForChild_post hs hrun pid wstatus
  match found with
  | some (child, s') => exact Post.ok (served_of_skeleton hs (hfound _ rfl))
  | none => exact waitForChild_post hs hrun pid wstatus

/-- A new timer keeps the ledger. -/
theorem createTimer_served (hs : s.Ledger P) (id : Int) : Served P s { s with timers := createTimer s.timers id } :=
  hs.served (fun _ => rfl) (Nat.le_refl _) (hs.keepTimer (getTimer_createTimer id)) rfl rfl

/-- Setting a timer to the clock keeps the ledger. -/
theorem syncTimer_served (hs : s.Ledger P) (id : Int) : Served P s (s.syncTimer id) :=
  hs.served (fun _ => rfl) (Nat.le_refl _)
    (hs.keepTimer fun h => by rw [getTimer_updateTimer]; exact getTimer_createTimer id h) rfl rfl

/-- `FUTEX_WAIT` keeps the ledger. -/
theorem futexWait_post (hs : s.Ledger P) (hrun : s.IsRunning current) (uaddr val timeout : Nat)
    (absoluteTimeout : Bool) :
    Post (lost Q) (fun r => Served P s r.2) (s.futexWait current uaddr val timeout absoluteTimeout) := by
  have htimer : Served P s (s.syncTimer 0) := syncTimer_served hs 0
  exact Post.bind (post_readBytes _ _ _ _) fun _ _ => Post.ite (fun _ => Post.ok (hs.memory s.memory)) fun _ =>
    Post.bind (wait_post htimer.ledger hrun _ _ _ _) fun _ h => Post.ok (htimer.trans h.toServed)

/-- `futex` keeps the ledger. -/
theorem futex_post (hs : s.Ledger P) (hrun : s.IsRunning current) (uaddr futex_op : Nat) (val : UInt32)
    (timeout uaddr2 : Nat) (val3 : UInt32) :
    Post (lost Q) (fun r => Served P s r.2) (s.futex current uaddr futex_op val timeout uaddr2 val3) :=
  Post.ite (fun _ => futexWait_post hs hrun _ _ _ _) fun _ =>
    Post.ite (fun _ => Post.bind (wake_post _ _ (by simp) hs.refs_le) fun _ h => Post.ok (h.woke.served hs)) fun _ =>
    Post.ite (fun _ => Post.bind (wakeOp_post hs _ _ _ _ _ _) fun _ h => Post.ok h) fun _ =>
    Post.ite (fun _ => Post.ok (hs.memory s.memory)) fun _ =>
    Post.ite (fun _ => futexWait_post hs hrun _ _ _ _) fun _ => Post.error not_lost_verification

/-- `clock_nanosleep` keeps the ledger. -/
theorem clock_nanosleep_post (hs : s.Ledger P) (hrun : s.IsRunning current) (clockid : Int) (request : Nat) :
    Post (lost Q) (fun r => Served P s r.2) (s.clock_nanosleep current clockid request) := by
  have hcreate := createTimer_served hs clockid
  have hsync : Served P s ({ s with timers := createTimer s.timers clockid }.syncTimer clockid) :=
    hcreate.trans (syncTimer_served hcreate.ledger clockid)
  exact Post.ite (fun _ => Post.ok hcreate) fun _ => Post.bind (post_readBytes _ _ _ _) fun _ _ =>
    Post.bind (post_readBytes _ _ _ _) fun _ _ => Post.bind (post_demand _) fun _ _ =>
    Post.bind (sleep_post hsync.ledger hrun _ _) fun _ h => Post.ok (hsync.trans h.toServed)

/-- `ppoll` keeps the ledger. -/
theorem ppoll_post (hs : s.Ledger P) (hrun : s.IsRunning current) (fds nfds tmo_p : Nat) :
    Post (lost Q) (fun r => Served P s r.2) (s.ppoll current fds nfds tmo_p) := by
  have hcreate := createTimer_served hs 0
  exact Post.ite (fun _ => Post.bind (poll_post hcreate.ledger hrun _ _ _) fun _ h => Post.ok (hcreate.trans h.toServed))
    fun _ => Post.bind (post_readBytes _ _ _ _) fun _ _ => Post.bind (post_readBytes _ _ _ _) fun _ _ =>
    Post.bind (poll_post hcreate.ledger hrun _ _ _) fun _ h => Post.ok (hcreate.trans h.toServed)

/-- Whether a select waits is read off its timeout. -/
theorem post_selectIsImmediate (timeout : Nat) :
    Post (lost Q) (fun _ => True) (s.selectIsImmediate current timeout) :=
  Post.ite (fun _ => Post.ok trivial) fun _ => Post.bind (post_readBytes _ _ _ _) fun _ _ =>
    Post.bind (post_readBytes _ _ _ _) fun _ _ => Post.ok trivial

/-- `select` keeps the ledger. -/
theorem sysSelect_post (hs : s.Ledger P) (hrun : s.IsRunning current) (nfds : Int)
    (readfds writefds exceptfds timeout : Nat) (result : FsAnswer) :
    Post (lost Q) (fun r => Served P s r.2)
      (s.sysSelect current nfds readfds writefds exceptfds timeout result) := by
  have hcreate := createTimer_served hs 0
  exact Post.bind (post_selectIsImmediate _) fun _ _ => Post.ite
    (fun _ => Post.ok (hcreate.trans (hcreate.ledger.memory _))) fun _ =>
    Post.bind (select_post hcreate.ledger hrun _ _ _ _ _) fun _ h => Post.ok (hcreate.trans h.toServed)

/-- A call of a thread that runs keeps the ledger, when no suspended thread is terminated by it or no promise is made. -/
theorem invoke_post (hs : s.Ledger P) (hrun : s.IsRunning current) (call : Syscall)
    (hvm : P → ∀ t ∈ s.terminatedBy current call, s.vmRefs t = 0) :
    Post (lost Q) (fun r => Served P s r.2) (s.invoke current call) := by
  cases call with
  | read fd buf count result =>
    cases result with
    | none => exact Post.bind (blockingRead_post hs hrun fd buf count) fun _ h => Post.ok h.toServed
    | some result => exact Post.ok (hs.memory _)
  | poll fds nfds timeout result =>
    exact Post.ite (fun _ => Post.ok (hs.memory _)) fun _ =>
      Post.bind (poll_post hs hrun fds nfds timeout) fun _ h => Post.ok h.toServed
  | ppoll fds nfds tmo_p => exact ppoll_post hs hrun fds nfds tmo_p
  | select nfds readfds writefds exceptfds timeout result => exact sysSelect_post hs hrun _ _ _ _ _ _
  | epoll_wait epfd events maxevents timeout result =>
    exact Post.ite (fun _ => Post.ok (hs.memory s.memory)) fun _ => Post.ite (fun _ => Post.ok (hs.memory s.memory)) fun _ =>
      Post.ite (fun _ => Post.ok (hs.memory _)) fun _ =>
      Post.bind (epollWait_post hs hrun _ _ _ _) fun _ h => Post.ok h.toServed
  | clock_nanosleep clockid request => exact clock_nanosleep_post hs hrun clockid request
  | clock_gettime clockid store =>
    have hsync := syncTimer_served hs clockid
    exact Post.ok (hsync.trans (hsync.ledger.memory _))
  | futex uaddr futex_op val timeout uaddr2 val3 => exact futex_post hs hrun _ _ _ _ _ _
  | clone flags stack parent_tid child_tid => exact clone_post hs hrun _ _ _ _
  | clone3 flags parent_tid child_tid => exact clone3_post hs hrun _ _
  | execve outcome => exact execve_post hs outcome hvm
  | exit status =>
    exact Post.bind (terminate_post hs (fun hP => hvm hP current (List.mem_singleton_self _)) status) fun _ h => Post.ok h.1
  | exit_group status => exact exit_group_post hs status hvm
  | wait4 pid wstatus options => exact sysWait4_post hs hrun _ _ _
  | tgkill tgid tid => exact Post.bind (terminateAll_post hs _ hvm 516) fun _ h => Post.ok h
  | set_tid_address ptr => exact Post.ok (setThread_served hs current (fun t => { t with clearChildTid := ptr }))
  | sched_yield => exact Post.ok (setThread_served hs current (fun t => { t with time := t.time.yield }))
  | other ret store => exact Post.ok (hs.memory _)

/-- Every system call keeps the ledger. -/
theorem syscall_post (hs : s.Ledger P) (hrun : s.IsRunning current) (call : Syscall)
    (hvm : P → ∀ t ∈ s.terminatedBy current call, s.vmRefs t = 0) :
    Post (lost Q) (Served P s) (s.syscall current call) :=
  Post.bind (invoke_post hs hrun call hvm) fun _ h => Post.ok (h.trans (setThread_served h.ledger _ _))

end Calls

end Scheduler

end X64Emulator
