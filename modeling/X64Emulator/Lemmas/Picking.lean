import X64Emulator.Lemmas.SystemCalls

/-!
# Picking a job

What a worker waits for before it looks for a job, and the job it then finds, come from different code. Statements about both: a
kernel or an atomic job is only found when no userspace job runs, and a userspace job when no other kind does.
-/

namespace X64Emulator

open Outcome

namespace Scheduler

/-- The jobs that may run beside the one that is picked. -/
def MayRunWith (canRunAlone : Bool) (s : Scheduler) (job : Job) : Prop :=
  if job.isUserspaceJob then ∀ j ∈ s.runningJobs, j.isUserspaceJob
  else canRunAlone = true ∧ ∀ j ∈ s.runningJobs, ¬ j.isUserspaceJob

theorem job_kind (job : Job) : job.isUserspaceJob = true ∨ job.isAtomicJob = true ∨ job.isKernelJob = true := by
  obtain ⟨thread, ring, atomic⟩ := job
  cases ring <;> cases atomic <;> simp [Job.isUserspaceJob, Job.isAtomicJob, Job.isKernelJob]

theorem find?_eq_none_countP {p : Nat → Bool} {l : List Nat} (h : l.find? p = none) : l.countP p = 0 := by
  rw [List.countP_eq_zero]
  exact List.find?_eq_none.1 h

theorem find?_eq_some_countP {p : Nat → Bool} {l : List Nat} {t : Nat} (h : l.find? p = some t) : 0 < l.countP p :=
  List.countP_pos_iff.2 ⟨t, List.mem_of_find?_eq_some h, List.find?_some h⟩

/-- A thread that was found, by the kind of job it wants to run. -/
inductive Found (canRunSyscalls : Bool) (s : Scheduler) (t : Nat) : Prop where
  | kernel (h : canRunSyscalls = true) (hthread : s.isKernelThread t = true)
      (hcount : 0 < s.runnableThreads.countP s.isKernelThread)
  | atomic (h : canRunSyscalls = true → s.runnableThreads.countP s.isKernelThread = 0) (hthread : s.isAtomicThread t = true)
      (hcount : 0 < s.runnableThreads.countP s.isAtomicThread)
  | userspace (h : canRunSyscalls = true → s.runnableThreads.countP s.isKernelThread = 0)
      (hatomic : s.runnableThreads.countP s.isAtomicThread = 0) (hthread : s.isUserspaceThread t = true)

variable {s s' : Scheduler} {canRunAlone : Bool}

theorem findThreadToRun_some {canRunSyscalls : Bool} {t : Nat}
    (h : s.findThreadToRun canRunSyscalls = some t) : t ∈ s.runnableThreads ∧ Found canRunSyscalls s t := by
  unfold findThreadToRun at h
  rw [Option.or_eq_some_iff, Option.or_eq_some_iff, Option.or_eq_none_iff] at h
  have hkernel : (if canRunSyscalls then s.runnableThreads.find? s.isKernelThread else none) = none →
      canRunSyscalls = true → s.runnableThreads.countP s.isKernelThread = 0 := by
    intro hnone htrue
    rw [if_pos htrue] at hnone
    exact find?_eq_none_countP hnone
  rcases h with (h | ⟨hnone, h⟩) | ⟨⟨hnone, hatomic⟩, h⟩
  · cases canRunSyscalls with
    | false => cases h
    | true =>
      exact ⟨List.mem_of_find?_eq_some h, .kernel rfl (List.find?_some h) (find?_eq_some_countP h)⟩
  · exact ⟨List.mem_of_find?_eq_some h, .atomic (hkernel hnone) (List.find?_some h) (find?_eq_some_countP h)⟩
  · exact ⟨List.mem_of_find?_eq_some h, .userspace (hkernel hnone) (find?_eq_none_countP hatomic) (List.find?_some h)⟩

theorem jobOf_isUserspaceJob (s : Scheduler) (t : Nat) : (s.jobOf t).isUserspaceJob = s.isUserspaceThread t := by
  unfold jobOf Job.isUserspaceJob isUserspaceThread
  cases s.requestsSyscall t <;> simp

theorem none_of_countP {p : Job → Bool} {l : List Job} (h : l.countP p = 0) : ∀ j ∈ l, ¬ p j = true :=
  List.countP_eq_zero.1 h

/-- The picking predicate and the pick agree on what may run beside the job. -/
theorem Found.mayRunWith {t : Nat} (h : Found canRunAlone s t)
    (hrun : s.hasRunnableThread canRunAlone canRunAlone = true) : MayRunWith canRunAlone s (s.jobOf t) := by
  unfold MayRunWith
  rw [jobOf_isUserspaceJob]
  unfold hasRunnableThread at hrun
  cases h with
  | kernel h hthread hcount =>
    subst h
    have hzero : s.runningJobs.countP Job.isUserspaceJob + s.runningJobs.countP Job.isAtomicJob = 0 := by
      simpa [hcount] using hrun
    have hnot : ¬ s.isUserspaceThread t = true := by
      unfold isKernelThread at hthread
      unfold isUserspaceThread
      simp [hthread]
    rw [if_neg hnot]
    exact ⟨rfl, none_of_countP (by omega)⟩
  | atomic h hthread hcount =>
    have hnot : ¬ s.isUserspaceThread t = true := by
      unfold isAtomicThread at hthread
      unfold isUserspaceThread
      simp only [Bool.and_eq_true, Bool.not_eq_true'] at hthread
      simp [hthread]
    rw [if_neg hnot]
    cases canRunAlone with
    | false =>
      simp only [Bool.false_and, Bool.false_eq_true, if_false] at hrun
      rw [if_pos (by omega)] at hrun
      cases hrun
    | true =>
      simp only [h rfl, Bool.true_and, Nat.lt_irrefl, decide_false, Bool.false_eq_true, if_false, Bool.or_false, hcount,
        decide_true, if_true] at hrun
      split at hrun
      · cases hrun
      · exact ⟨rfl, none_of_countP (by simp only [decide_eq_true_eq] at hrun; omega)⟩
  | userspace h hatomic hthread =>
    rw [if_pos hthread]
    have hzero : s.runningJobs.countP Job.isKernelJob = 0 ∧ s.runningJobs.countP Job.isAtomicJob = 0 := by
      cases canRunAlone with
      | false =>
        simp only [Bool.false_and, Bool.false_eq_true, if_false] at hrun
        split at hrun
        · cases hrun
        · omega
      | true =>
        simp only [h rfl, hatomic, Bool.true_and, Nat.lt_irrefl, decide_false, Bool.false_eq_true, if_false,
          Bool.or_false] at hrun
        split at hrun
        · cases hrun
        · split at hrun
          · cases hrun
          · omega
    intro j hj
    rcases job_kind j with hu | ha | hk
    · exact hu
    · exact absurd ha (none_of_countP hzero.2 j hj)
    · exact absurd hk (none_of_countP hzero.1 j hj)

theorem startJob_ledger {P : Prop} {job : Job} (hs : s.Ledger P) (hmem : job.thread ∈ s.runnableThreads) :
    (s.startJob job).Ledger P := by
  have hpos := List.count_pos_iff.2 hmem
  have htally : ∀ t, (s.startJob job).tally t = { s.tally t with
      running := (s.tally t).running + if t = job.thread then 1 else 0
      runnable := (s.tally t).runnable - if t = job.thread then 1 else 0 } := by
    intro t
    simp only [tally, startJob, countP_append_one, List.count_erase, beq_iff_eq, eq_comm (a := job.thread)]
    rfl
  refine ⟨fun t => ?_, fun t ht => ?_, hs.timer⟩
  · have hok := hs.ok t
    have hplace := hok.place
    have : t = job.thread → 0 < (s.tally t).runnable := fun h => h ▸ hpos
    rw [htally]
    refine ⟨hok.once, ?_, hok.blocker, hok.gone, hok.vmGone⟩
    by_cases ht : t = job.thread
    · have := this ht
      simp only [if_pos ht]
      omega
    · simp only [if_neg ht, Nat.add_zero, Nat.sub_zero]
      exact hplace
  · rw [htally]
    exact hs.fresh t ht

/-- What a worker gets when it looks for a job: a command that leaves the running jobs as they are, or a job. -/
structure Picks (P : Prop) (canRunAlone : Bool) (s : Scheduler) (command : JobOrCommand) (s' : Scheduler) : Prop where
  ledger : s'.Ledger P
  num : s'.numRunningJobs = s.numRunningJobs
  jobs : (∀ job, command ≠ .RUN job) → s'.runningJobs = s.runningJobs
  run : ∀ job, command = .RUN job → s'.runningJobs = s.runningJobs ++ [job] ∧ MayRunWith canRunAlone s job

theorem Woke.picks {P : Prop} {woken : List Nat} {command : JobOrCommand}
    (h : Woke s s' woken) (hs : s.Ledger P) (hcommand : ∀ job, command ≠ .RUN job) : Picks P canRunAlone s command s' :=
  ⟨h.ledger hs, h.numRunningJobs, fun _ => h.runningJobs, fun job hjob => absurd hjob (hcommand job)⟩

/-- Nothing that a worker looks at changes when no thread is woken. -/
theorem Woke.runnable_eq (h : Woke s s' []) : s'.runnableThreads = s.runnableThreads := by
  rw [h.runnable, List.append_nil]

theorem Woke.jobOf {woken : List Nat} (h : Woke s s' woken) : s'.jobOf = s.jobOf := by
  funext t
  rw [Scheduler.jobOf, Scheduler.jobOf, h.requestsSyscall, h.requestsAtomic]

theorem Woke.found {canRunSyscalls : Bool} {t : Nat} (h : Woke s s' [])
    (hfound : Found canRunSyscalls s' t) : Found canRunSyscalls s t := by
  have hkernel : s'.isKernelThread = s.isKernelThread := by
    funext t
    rw [isKernelThread, isKernelThread, h.requestsSyscall]
  have hatomic : s'.isAtomicThread = s.isAtomicThread := by
    funext t
    rw [isAtomicThread, isAtomicThread, h.requestsSyscall, h.requestsAtomic]
  have huserspace : s'.isUserspaceThread = s.isUserspaceThread := by
    funext t
    rw [isUserspaceThread, isUserspaceThread, h.requestsSyscall, h.requestsAtomic]
  have hrunnable := h.runnable_eq
  cases hfound with
  | kernel h hthread hcount => exact .kernel h (hkernel ▸ hthread) (hkernel ▸ hrunnable ▸ hcount)
  | atomic h hthread hcount => exact .atomic (hkernel ▸ hrunnable ▸ h) (hatomic ▸ hthread) (hatomic ▸ hrunnable ▸ hcount)
  | userspace h hnone hthread =>
    exact .userspace (hkernel ▸ hrunnable ▸ h) (hatomic ▸ hrunnable ▸ hnone) (huserspace ▸ hthread)

/-- A worker that stopped waiting although threads can run, and not for a panic, waited for a thread it may run. -/
theorem hasRunnable_of_can {t : Nat}
    (hcan : s.canTryPickNext canRunAlone canRunAlone = true) (hpanic : ¬ s.hasPanicked = true)
    (hmem : t ∈ s.runnableThreads) : s.hasRunnableThread canRunAlone canRunAlone = true := by
  have hsome : s.runnableThreads.isEmpty = false := by
    rw [List.isEmpty_eq_false_iff]
    exact List.ne_nil_of_mem hmem
  unfold canTryPickNext allThreadsDead allThreadsBlocked at hcan
  simpa [hpanic, hsome] using hcan

/-- Time may pass while a worker looks for a job. -/
theorem Picks.time {P : Prop} {command : JobOrCommand}
    (h : Picks P canRunAlone s command s') (time : PreciseTime) :
    Picks P canRunAlone s command { s' with currentTime := time } :=
  ⟨h.ledger.congr (fun _ => rfl) (Nat.le_refl _) h.ledger.timer, h.num, h.jobs, h.run⟩

theorem tryPickNext_post {P : Prop} (hs : s.Ledger P) (answers : FsAnswers)
    (hcan : s.canTryPickNext canRunAlone canRunAlone = true) :
    Post (lost P) (fun r => Picks P canRunAlone s r.1 r.2) (s.tryPickNext answers canRunAlone) := by
  refine Post.ite (fun _ => Post.ok ((Woke.refl s).picks hs (by simp))) fun hpanic =>
    Post.bind (tryUnblockThreads_post hs answers) fun (didUnblock, s') ⟨woken, hwoke, hnone⟩ => ?_
  refine Post.ite (fun _ => Post.ok (hwoke.picks hs (by simp))) fun hno => Post.bind post_ensure fun _ _ =>
    Post.ite (fun _ => Post.ok (hwoke.picks hs (by simp))) fun _ => ?_
  cases hfind : s'.findThreadToRun canRunAlone with
  | none =>
    have hpicks : Picks P canRunAlone s .WAIT s' := hwoke.picks hs (by simp)
    refine Post.ok ?_
    unfold advanceTime
    split
    · exact hpicks.time _
    · exact hpicks
  | some thread =>
    -- nothing was unblocked since the worker stopped waiting
    have hwoken : woken = [] := hnone (Bool.eq_false_iff.2 hno)
    subst hwoken
    obtain ⟨hmem, hfound⟩ := findThreadToRun_some hfind
    refine Post.ok ⟨startJob_ledger (hwoke.ledger hs) hmem, hwoke.numRunningJobs, fun h => absurd rfl (h _), ?_⟩
    rintro job ⟨⟩
    refine ⟨congrArg (· ++ [s'.jobOf thread]) hwoke.runningJobs, ?_⟩
    rw [hwoke.jobOf]
    exact (hwoke.found hfound).mayRunWith (hasRunnable_of_can hcan hpanic (by rw [← hwoke.runnable_eq]; exact hmem))

end Scheduler

end X64Emulator
