import X64Emulator.Lemmas.WorkerModes

/-!
# The steps of the workers

Every step of a worker keeps the invariant of the system and meets the verifications that the invariant is about. The promise on
a run is one on the system calls in it: none ends a thread that is suspended until an address space is released.
-/

namespace X64Emulator

open Outcome

namespace Scheduler

/-! ## Beginning and ending a job -/

theorem eraseP_perm {p : Job → Bool} {l : List Job} (h : l.any p = true) :
    ∃ job, p job = true ∧ l.Perm (job :: l.eraseP p) := by
  obtain ⟨a, ha, hp⟩ := List.any_eq_true.1 h
  obtain ⟨job, l₁, l₂, _, hjob, hl, herase⟩ := List.exists_of_eraseP ha hp
  refine ⟨job, hjob, ?_⟩
  rw [herase]
  exact hl ▸ List.perm_middle

/-- The only job of a thread is the one that is taken out for the thread. -/
theorem eraseP_perm_of_cons {l rest : List Job} {job : Job} (h : l.Perm (job :: rest))
    (honce : l.countP (·.thread = job.thread) ≤ 1) : (l.eraseP (·.thread = job.thread)).Perm rest := by
  have hany : l.any (·.thread = job.thread) = true :=
    List.any_eq_true.2 ⟨job, h.mem_iff.2 List.mem_cons_self, by simp⟩
  obtain ⟨job', hthread, hperm⟩ := eraseP_perm hany
  have hcount := h.countP_eq (fun j => decide (j.thread = job.thread))
  rw [List.countP_cons_of_pos (by simp)] at hcount
  have hnone : rest.countP (·.thread = job.thread) = 0 := by omega
  have hmem : job' ∈ job :: rest := h.mem_iff.1 (hperm.mem_iff.2 List.mem_cons_self)
  rcases List.mem_cons.1 hmem with rfl | hmem
  · exact (List.Perm.cons_inv (h.symm.trans hperm)).symm
  · exact absurd hthread (List.countP_eq_zero.1 hnone job' hmem)

theorem stopRunningThread_ledger {P : Prop} {s : Scheduler} (hs : s.Ledger P) (thread : Nat) :
    (s.stopRunningThread thread).Ledger P := by
  unfold stopRunningThread
  split
  · next hany =>
    obtain ⟨job, hthread, hperm⟩ := eraseP_perm hany
    have htally : ∀ t, (tally { s with
        runningJobs := s.runningJobs.eraseP (fun job => job.thread = thread)
        runnableThreads := s.runnableThreads ++ [thread] } t) = { s.tally t with
          running := (s.tally t).running - if t = thread then 1 else 0
          runnable := (s.tally t).runnable + if t = thread then 1 else 0 } ∧
        (t = thread → 0 < (s.tally t).running) := by
      intro t
      have hcount := hperm.countP_eq (fun j => decide (j.thread = t))
      rw [List.countP_cons, of_decide_eq_true hthread] at hcount
      simp only [decide_eq_true_eq, eq_comm (a := thread)] at hcount
      simp only [tally, count_append_one]
      refine ⟨?_, fun ht => ?_⟩
      · rw [hcount, Nat.add_sub_cancel]
        rfl
      · rw [hcount, if_pos ht]
        exact Nat.succ_pos _
    refine ⟨fun t => ?_, fun t ht => ?_, hs.timer⟩
    · obtain ⟨heq, hpos⟩ := htally t
      have hok := hs.ok t
      have hplace := hok.place
      rw [heq]
      refine ⟨hok.once, ?_, hok.blocker, hok.gone, hok.vmGone⟩
      by_cases ht : t = thread
      · have := hpos ht
        simp only [if_pos ht]
        omega
      · simp only [if_neg ht, Nat.add_zero, Nat.sub_zero]
        exact hplace
    · rw [(htally t).1]
      exact hs.fresh t ht
  · exact hs

/-- A thread that has stopped has no running job. -/
theorem stopRunningThread_jobs {P : Prop} {s : Scheduler} (hs : s.Ledger P) {job : Job} {rest : List Job}
    (h : s.runningJobs.Perm (job :: rest)) : (s.stopRunningThread job.thread).runningJobs.Perm rest := by
  have hany : s.runningJobs.any (fun j => j.thread = job.thread) = true :=
    List.any_eq_true.2 ⟨job, h.mem_iff.2 List.mem_cons_self, by simp⟩
  have honce : s.runningJobs.countP (·.thread = job.thread) ≤ 1 := by
    have hok := hs.ok job.thread
    have : s.runningJobs.countP (·.thread = job.thread) = (s.tally job.thread).running := rfl
    have := hok.once
    have := hok.place
    omega
  unfold stopRunningThread
  rw [if_pos hany]
  exact eraseP_perm_of_cons h honce

theorem stopRunningThread_done {P : Prop} {s : Scheduler} (hs : s.Ledger P) {job : Job}
    (h : s.runningJobs.Sublist [job]) : (s.stopRunningThread job.thread).runningJobs = [] := by
  rcases List.sublist_singleton.1 h with hnil | hone
  · unfold stopRunningThread
    rw [hnil]
    exact hnil
  · exact List.perm_nil.1 (stopRunningThread_jobs hs (List.Perm.of_eq hone))

theorem stopRunningThread_num (s : Scheduler) (thread : Nat) :
    (s.stopRunningThread thread).numRunningJobs = s.numRunningJobs := by
  unfold stopRunningThread
  split <;> rfl

section Begin

variable {P : Prop} {s : Scheduler}

/-- What the beginning of a job leaves. -/
structure Begun (P : Prop) (s s' : Scheduler) : Prop where
  ledger : s'.Ledger P
  jobs : s'.runningJobs = s.runningJobs
  num : s'.numRunningJobs = s.numRunningJobs + 1

theorem beginUserspace_post (hs : s.Ledger P) (torn : Option PreciseTime) (thread : Nat) :
    Post (lost P) (Begun P s) (s.beginUserspace torn thread) :=
 
  Post.bind (post_demand _) fun _ _ => Post.ok ⟨hs.congr (fun _ => rfl) (Nat.le_refl _) hs.timer, rfl, rfl⟩

theorem beginAtomic_post (hs : s.Ledger P) (hnum : s.numRunningJobs = 0) (thread : Nat) :
    Post (lost P) (Begun P s) (s.beginAtomic thread) :=
  Post.bind (Post.check fun _ => hnum) fun _ _ => Post.bind (post_demand _) fun _ _ =>
    Post.ok ⟨hs.congr (fun _ => rfl) (Nat.le_refl _) hs.timer, rfl, rfl⟩

theorem beginKernel_post (hs : s.Ledger P) (hnum : s.numRunningJobs = 0) : Post (lost P) (Begun P s) s.beginKernel :=
  Post.bind (Post.check fun _ => hnum) fun _ _ => Post.ok
    ⟨hs.congr (fun _ => rfl) (Nat.le_refl _) (hs.keepTimer (getTimer_updateAllTimers _ _ _).trans), rfl, rfl⟩

end Begin

end Scheduler

namespace System

open WorkerState Scheduler

/-- The threads a step terminates. -/
def terminatedBy (sys : System) : WorkerAction → List Nat
  | .syscall worker call =>
    match sys.workers[worker]? with
    | some (.kernel job false) => sys.scheduler.terminatedBy job.thread call
    | _ => []
  | _ => []

/-- No thread that a step terminates is suspended until an address space is released. -/
def SparesSuspended (sys : System) (action : WorkerAction) : Prop :=
  ∀ t ∈ sys.terminatedBy action, ∀ blocker ∈ sys.scheduler.vmReleaseBlockers, blocker.thread ≠ t

section Steps

variable {P : Prop} {sys : System} {worker : Nat}

theorem Inv.set {w w' : WorkerState} {s : Scheduler} (h : sys.Inv P) (hw : sys.workers[worker]? = some w)
    (hs : s.Ledger P)
    (hnum : s.numRunningJobs + (if w.isRunning then 1 else 0) =
      sys.scheduler.numRunningJobs + if w'.isRunning then 1 else 0)
    (hmode : (sys.setWorker worker w' s).Mode) : (sys.setWorker worker w' s).Inv P := by
  refine ⟨hs, ?_, hmode⟩
  have := setWorker_countP hw w' s
  have := h.num
  show s.numRunningJobs = _
  omega

/-- A worker that finds no job leaves the mode as it is. -/
theorem Mode.noJob {w' : WorkerState} {s : Scheduler} (h : sys.Mode) (hidle : sys.workers[worker]? = some .idle)
    (hw' : w'.IsResting) (hjobs : s.runningJobs = sys.scheduler.runningJobs) : (sys.setWorker worker w' s).Mode := by
  have hne : ∀ w, ¬ w.IsResting → sys.Alone w → worker ≠ 0 := by
    rintro w hrest halone rfl
    rw [halone.first] at hidle
    cases hidle
    exact hrest (Or.inl rfl)
  cases h with
  | shared h =>
    refine .shared (h.set hidle (Or.inl hw') ?_)
    rw [hjobs, hw'.held]
    exact h.jobs_perm hidle
  | alone job w hjob hw h jobs =>
    have hrest : ¬ w.IsResting := by rcases hw with rfl | rfl | rfl <;> simp [IsResting]
    exact .alone job w hjob hw (h.rest (hne w hrest h) hw' s) (hjobs.trans jobs)
  | done job h jobs =>
    refine .done job (h.rest (hne _ (by simp [IsResting]) h) hw' s) ?_
    show s.runningJobs.Sublist [job]
    rw [hjobs]
    exact jobs

/-- A worker that finds a job may run it beside the others. -/
theorem Mode.job {s : Scheduler} {job : Job} (h : sys.Mode) (hidle : sys.workers[worker]? = some .idle)
    (hlock : sys.lockIsFree = true) (hjobs : s.runningJobs = sys.scheduler.runningJobs ++ [job])
    (hmay : MayRunWith (canRunSyscalls worker) sys.scheduler job) : (sys.setWorker worker (.picked job) s).Mode := by
  unfold MayRunWith at hmay
  cases h with
  | shared h =>
    by_cases huser : job.isUserspaceJob = true
    · refine .shared (h.set hidle (Or.inr ⟨job, huser, Or.inl rfl⟩) ?_)
      rw [hjobs]
      exact List.perm_append_comm.trans ((h.jobs_perm hidle).cons job)
    · rw [if_neg huser] at hmay
      obtain ⟨h0, hnone⟩ := hmay
      have h0 : worker = 0 := of_decide_eq_true h0
      subst h0
      have hempty : sys.scheduler.runningJobs = [] :=
        List.eq_nil_iff_forall_not_mem.2 fun j hj => hnone j hj (h.userspace j hj)
      refine .alone job (.picked job) huser (Or.inl rfl) (h.alone hidle hempty _ s) ?_
      rw [setWorker, hjobs, hempty, List.nil_append]
  | alone job' w hjob' hw h jobs =>
    -- a job that runs alone keeps the others from being found
    have hmem : job' ∈ sys.scheduler.runningJobs := jobs ▸ List.mem_singleton_self job'
    split at hmay
    · exact absurd (hmay job' hmem) hjob'
    · obtain ⟨h0, _⟩ := hmay
      have h0 : worker = 0 := of_decide_eq_true h0
      subst h0
      rw [h.first] at hidle
      cases hidle
      rcases hw with hw | hw | hw <;> cases hw
  | done job' h jobs =>
    have := lockIsFree_iff.1 hlock _ (List.mem_of_getElem? h.first)
    cases this

theorem tryPickNext_post (h : sys.Inv P) {answers : FsAnswers}
    (henabled : sys.enabled (.tryPickNext worker answers) = true) :
    Post (lost P) (fun sys' => sys'.Inv P) (sys.exec (.tryPickNext worker answers)) := by
  simp only [enabled, Bool.and_eq_true, decide_eq_true_eq] at henabled
  obtain ⟨⟨hidle, hlock⟩, hcan⟩ := henabled
  have hcan : sys.scheduler.canTryPickNext (canRunSyscalls worker) (canRunSyscalls worker) = true := hcan
  refine Post.bind (Scheduler.tryPickNext_post h.ledger answers hcan) fun (command, s) hpicks => Post.ok ?_
  have hnum : s.numRunningJobs = sys.scheduler.numRunningJobs := hpicks.num
  have hrun : (afterPick command).isRunning = false := by cases command <;> rfl
  refine h.set hidle hpicks.ledger (by rw [hnum, hrun]; rfl) ?_
  cases command with
  | RUN job =>
    obtain ⟨hjobs, hmay⟩ := hpicks.run job rfl
    exact h.mode.job hidle hlock hjobs hmay
  | AGAIN => exact h.mode.noJob hidle (Or.inl rfl) (hpicks.jobs (by simp))
  | WAIT => exact h.mode.noJob hidle (Or.inl rfl) (hpicks.jobs (by simp))
  | EXIT => exact h.mode.noJob hidle (Or.inr rfl) (hpicks.jobs (by simp))
  | ABORT => exact h.mode.noJob hidle (Or.inr rfl) (hpicks.jobs (by simp))

/-- A worker that is not the first has no job that runs alone. -/
theorem Mode.picked_userspace {job : Job} (h : sys.Mode) (hpicked : sys.workers[worker]? = some (.picked job))
    (huser : job.isUserspaceJob = true) : sys.Shared := by
  cases h with
  | shared h => exact h
  | alone job' w hjob' hw h jobs =>
    obtain ⟨-, rfl⟩ := h.index_zero hpicked (by simp [IsResting])
    rcases hw with hw | hw | hw <;> cases hw
    exact absurd huser hjob'
  | done job' h jobs =>
    obtain ⟨-, hw⟩ := h.index_zero hpicked (by simp [IsResting])
    cases hw

theorem Mode.picked_alone {job : Job} (h : sys.Mode) (hpicked : sys.workers[worker]? = some (.picked job))
    (huser : ¬ job.isUserspaceJob = true) :
    worker = 0 ∧ sys.Alone (.picked job) ∧ sys.scheduler.runningJobs = [job] := by
  cases h with
  | shared h =>
    rcases h.state hpicked with (hw | hw) | ⟨job', huser', hw | hw⟩ <;> cases hw
    exact absurd huser' huser
  | alone job' w hjob' hw h jobs =>
    obtain ⟨h0, rfl⟩ := h.index_zero hpicked (by simp [IsResting])
    rcases hw with hw | hw | hw <;> cases hw
    exact ⟨h0, h, jobs⟩
  | done job' h jobs =>
    obtain ⟨-, hw⟩ := h.index_zero hpicked (by simp [IsResting])
    cases hw

theorem start_post (h : sys.Inv P) (torn : Option PreciseTime) :
    Post (lost P) (fun sys' => sys'.Inv P) (sys.exec (.start worker torn)) := by
  simp only [exec]
  split
  · next job hpicked =>
    unfold System.startJob
    by_cases huser : job.isUserspaceJob = true
    · have hkernel : ¬ job.isKernelJob = true := by
        unfold Job.isUserspaceJob at huser
        unfold Job.isKernelJob
        simp_all
      rw [if_neg hkernel, if_pos huser]
      have hshared := h.mode.picked_userspace hpicked huser
      refine Post.bind (beginUserspace_post h.ledger torn job.thread) fun s hs => Post.ok (h.set hpicked hs.ledger hs.num
        (.shared (hshared.set hpicked (Or.inr ⟨job, huser, Or.inr rfl⟩) ?_)))
      have hperm := hshared.jobs_perm hpicked
      rw [hs.jobs]
      exact hperm
    · obtain ⟨rfl, halone, hjobs⟩ := h.mode.picked_alone hpicked huser
      have hnum : sys.scheduler.numRunningJobs = 0 := h.num.trans halone.countP
      refine Post.ite (fun _ => Post.bind (beginKernel_post h.ledger hnum) fun s hs => Post.ok ?_) fun _ => ?_
      · exact h.set hpicked hs.ledger hs.num (.alone job _ huser (Or.inr (Or.inr rfl)) (halone.set _ s) (hs.jobs.trans hjobs))
      · rw [if_neg huser]
        refine Post.bind (beginAtomic_post h.ledger hnum job.thread) fun s hs => Post.ok ?_
        exact h.set hpicked hs.ledger hs.num (.alone job _ huser (Or.inr (Or.inl rfl)) (halone.set _ s) (hs.jobs.trans hjobs))
  · exact Post.ok h

theorem ledger_time {s : Scheduler} (hs : s.Ledger P) (time : PreciseTime) (num : Nat) :
    Ledger P { s with currentTime := time, numRunningJobs := num } :=
  hs.congr (fun _ => rfl) (Nat.le_refl _) hs.timer

/-- Running instructions changes no list. -/
theorem runSlice_served {s : Scheduler} (hs : s.Ledger P) (thread : Nat) (slice : Slice) :
    Served P s (s.runSlice thread slice) := by
  unfold Scheduler.runSlice syncThreadTimeSlice
  exact Served.trans ⟨ledger_time hs _ s.numRunningJobs, List.Sublist.refl _, rfl⟩
    ((ledger_time hs _ s.numRunningJobs).served (fun _ => rfl) (Nat.le_refl _) hs.timer rfl rfl)

theorem Inv.runSlice (h : sys.Inv P) (thread : Nat) (slice : Slice) :
    Inv P { sys with scheduler := sys.scheduler.runSlice thread slice } := by
  refine ⟨(runSlice_served h.ledger thread slice).ledger, h.num, ?_⟩
  cases h.mode with
  | shared h => exact .shared ⟨h.states, h.jobs⟩
  | alone job w hjob hw h jobs => exact .alone job w hjob hw ⟨h.first, h.others⟩ jobs
  | done job h jobs => exact .done job ⟨h.first, h.others⟩ jobs

theorem execute_post (h : sys.Inv P) {slice : Slice} :
    Post (lost P) (fun sys' => sys'.Inv P) (sys.exec (.execute worker slice)) := by
  simp only [exec]
  split
  · exact Post.ok (h.runSlice _ slice)
  · exact Post.ok (h.runSlice _ slice)
  · exact Post.ok h

theorem Mode.kernel {job : Job} (h : sys.Mode) (hkernel : sys.workers[worker]? = some (.kernel job false)) :
    worker = 0 ∧ sys.Alone (.kernel job false) ∧ sys.scheduler.runningJobs = [job] := by
  cases h with
  | shared h => rcases h.state hkernel with (hw | hw) | ⟨job', huser', hw | hw⟩ <;> cases hw
  | alone job' w hjob' hw h jobs =>
    obtain ⟨h0, rfl⟩ := h.index_zero hkernel (by simp [IsResting])
    rcases hw with hw | hw | hw <;> cases hw
    exact ⟨h0, h, jobs⟩
  | done job' h jobs =>
    obtain ⟨-, hw⟩ := h.index_zero hkernel (by simp [IsResting])
    cases hw

theorem syscall_post {Q : Prop} (h : sys.Inv P) {call : Syscall} (hspares : P → sys.SparesSuspended (.syscall worker call)) :
    Post (lost Q) (fun sys' => sys'.Inv P) (sys.exec (.syscall worker call)) := by
  simp only [exec]
  split
  · next job hkernel =>
    obtain ⟨rfl, halone, hjobs⟩ := h.mode.kernel hkernel
    have hrun : sys.scheduler.IsRunning job.thread := by
      unfold IsRunning tally
      rw [hjobs]
      simp
    have hvm : P → ∀ t ∈ sys.scheduler.terminatedBy job.thread call, sys.scheduler.vmRefs t = 0 := by
      intro hP t ht
      have hspare := hspares hP t (by simp only [terminatedBy, hkernel]; exact ht)
      exact List.countP_eq_zero.2 fun blocker hb => by simpa using hspare blocker hb
    refine Post.bind (Scheduler.syscall_post h.ledger hrun call hvm) fun s hs => Post.ok (h.set hkernel hs.ledger ?_
      (.done job (halone.set _ s) ?_))
    · rw [hs.num]
      rfl
    · rw [← hjobs]
      exact hs.jobs
  · exact Post.ok h

theorem endUserspace_ledger {s : Scheduler} (hs : s.Ledger P) (thread : Nat) : (s.endUserspace thread).Ledger P := by
  unfold Scheduler.endUserspace syncThreadTimeSlice
  exact ledger_time (stopRunningThread_ledger hs thread) _ _

theorem endUserspace_jobs (s : Scheduler) (thread : Nat) :
    (s.endUserspace thread).runningJobs = (s.stopRunningThread thread).runningJobs := by
  unfold Scheduler.endUserspace syncThreadTimeSlice
  rfl

theorem endUserspace_num (s : Scheduler) (thread : Nat) : (s.endUserspace thread).numRunningJobs = s.numRunningJobs - 1 :=
  congrArg (· - 1) (stopRunningThread_num s thread)

/-- A worker that ran counts among the running ones, so the count does not fall below zero. -/
theorem Inv.num_pos {w : WorkerState} (h : sys.Inv P) (hw : sys.workers[worker]? = some w) (hrun : w.isRunning = true) :
    0 < sys.scheduler.numRunningJobs := by
  rw [h.num]
  exact List.countP_pos_iff.2 ⟨w, List.mem_of_getElem? hw, hrun⟩

/-- The end of a userspace job, by the end of its time slice or by a failure. -/
theorem Inv.endUserspace {w' : WorkerState} {job : Job} (h : sys.Inv P)
    (hw : sys.workers[worker]? = some (.userspace job)) (hw' : w'.IsResting) :
    (sys.setWorker worker w' (sys.scheduler.endUserspace job.thread)).Inv P := by
  have hpos := h.num_pos hw rfl
  refine h.set hw (endUserspace_ledger h.ledger _) ?_ ?_
  · have hrun : (WorkerState.userspace job).isRunning = true := rfl
    rw [endUserspace_num, if_pos hrun, if_neg hw'.not_running]
    omega
  · cases h.mode with
    | shared hshared =>
      refine .shared (hshared.set hw (Or.inl hw') ?_)
      rw [hw'.held, endUserspace_jobs]
      exact stopRunningThread_jobs h.ledger (hshared.jobs_perm hw)
    | alone job' w hjob' hw' halone jobs =>
      obtain ⟨-, rfl⟩ := halone.index_zero hw (by simp [IsResting])
      rcases hw' with hw' | hw' | hw' <;> cases hw'
    | done job' halone jobs =>
      obtain ⟨-, hw'⟩ := halone.index_zero hw (by simp [IsResting])
      cases hw'

theorem Mode.atomic {job : Job} (h : sys.Mode) (hatomic : sys.workers[worker]? = some (.atomic job)) :
    worker = 0 ∧ sys.Alone (.atomic job) ∧ sys.scheduler.runningJobs = [job] := by
  cases h with
  | shared h => rcases h.state hatomic with (hw | hw) | ⟨job', huser', hw | hw⟩ <;> cases hw
  | alone job' w hjob' hw h jobs =>
    obtain ⟨h0, rfl⟩ := h.index_zero hatomic (by simp [IsResting])
    rcases hw with hw | hw | hw <;> cases hw
    exact ⟨h0, h, jobs⟩
  | done job' h jobs =>
    obtain ⟨-, hw⟩ := h.index_zero hatomic (by simp [IsResting])
    cases hw

/-- The end of an atomic job: the thread's request may have been taken back before. -/
theorem Inv.endAtomic {w' : WorkerState} {s : Scheduler} {job : Job} (h : sys.Inv P)
    (hw : sys.workers[worker]? = some (.atomic job)) (hw' : w'.IsResting) (hs : s.Ledger P)
    (hjobs : s.runningJobs = sys.scheduler.runningJobs) (hnum : s.numRunningJobs = sys.scheduler.numRunningJobs) :
    (sys.setWorker worker w' (s.endUserspace job.thread)).Inv P := by
  have hpos := h.num_pos hw rfl
  refine h.set hw (endUserspace_ledger hs _) ?_ ?_
  · have hrun : (WorkerState.atomic job).isRunning = true := rfl
    rw [endUserspace_num, hnum, if_pos hrun, if_neg hw'.not_running]
    omega
  · obtain ⟨rfl, halone, hone⟩ := h.mode.atomic hw
    refine .shared (halone.shared hw' ?_)
    rw [endUserspace_jobs]
    exact stopRunningThread_done hs (by rw [hjobs, hone])

theorem Mode.kernelDone {job : Job} (h : sys.Mode) (hkernel : sys.workers[worker]? = some (.kernel job true)) :
    worker = 0 ∧ sys.Alone (.kernel job true) ∧ sys.scheduler.runningJobs.Sublist [job] := by
  cases h with
  | shared h => rcases h.state hkernel with (hw | hw) | ⟨job', huser', hw | hw⟩ <;> cases hw
  | alone job' w hjob' hw h jobs =>
    obtain ⟨-, rfl⟩ := h.index_zero hkernel (by simp [IsResting])
    rcases hw with hw | hw | hw <;> cases hw
  | done job' h jobs =>
    obtain ⟨h0, hw⟩ := h.index_zero hkernel (by simp [IsResting])
    cases hw
    exact ⟨h0, h, jobs⟩

theorem Inv.endKernel {job : Job} (h : sys.Inv P) (hw : sys.workers[worker]? = some (.kernel job true)) :
    (sys.setWorker worker .idle (sys.scheduler.endKernel job.thread)).Inv P := by
  have hpos := h.num_pos hw rfl
  have hstopped := stopRunningThread_ledger h.ledger job.thread
  refine h.set hw (hstopped.congr (fun _ => rfl) (Nat.le_refl _) hstopped.timer) ?_ ?_
  · show (sys.scheduler.stopRunningThread job.thread).numRunningJobs - 1 + 1 = sys.scheduler.numRunningJobs + 0
    rw [stopRunningThread_num]
    omega
  · obtain ⟨rfl, halone, hjobs⟩ := h.mode.kernelDone hw
    exact .shared (halone.shared (Or.inl rfl) (stopRunningThread_done h.ledger hjobs))

theorem stop_post (h : sys.Inv P) : Post (lost P) (fun sys' => sys'.Inv P) (sys.exec (.stop worker)) := by
  simp only [exec]
  split
  · next job hw => exact Post.ok (h.endUserspace hw (Or.inl rfl))
  · next job hw => exact Post.ok (h.endAtomic hw (Or.inl rfl) (h.ledger.congr (fun _ => rfl) (Nat.le_refl _) h.ledger.timer) rfl rfl)
  · next job hw => exact Post.ok (h.endKernel hw)
  · exact Post.ok h

/-- A panic is only a mark. -/
theorem Inv.panic {w : WorkerState} {s : Scheduler} (h : (sys.setWorker worker w s).Inv P) :
    (sys.setWorker worker w { s with hasPanicked := true }).Inv P := by
  have hledger : s.Ledger P := h.ledger
  refine ⟨hledger.congr (fun _ => rfl) (Nat.le_refl _) hledger.timer, h.num, ?_⟩
  cases h.mode with
  | shared h => exact .shared ⟨h.states, h.jobs⟩
  | alone job w hjob hw h jobs => exact .alone job w hjob hw ⟨h.first, h.others⟩ jobs
  | done job h jobs => exact .done job ⟨h.first, h.others⟩ jobs

theorem crash_post (h : sys.Inv P) : Post (lost P) (fun sys' => sys'.Inv P) (sys.exec (.crash worker)) := by
  simp only [exec]
  split
  · next job hw => exact Post.ok (h.endUserspace hw (Or.inr rfl)).panic
  · next job hw => exact Post.ok (h.endAtomic hw (Or.inr rfl) h.ledger rfl rfl).panic
  · exact Post.ok h

theorem interrupt_post (h : sys.Inv P) (hidle : sys.workers[worker]? = some .idle) :
    Post (lost P) (fun sys' => sys'.Inv P) (sys.exec (.interrupt worker)) :=
  Post.ok (h.set hidle (h.ledger.congr (fun _ => rfl) (Nat.le_refl _) h.ledger.timer) rfl (h.mode.noJob hidle (Or.inr rfl) rfl))

/-- A step keeps the invariant and does not fail for a reason that is ruled out. -/
theorem exec_post (h : sys.Inv P) {action : WorkerAction} (henabled : sys.enabled action = true)
    (hspares : P → sys.SparesSuspended action) : Post (lost P) (fun sys' => sys'.Inv P) (sys.exec action) := by
  cases action with
  | tryPickNext worker answers => exact tryPickNext_post h henabled
  | start worker torn => exact start_post h torn
  | execute worker slice => exact execute_post h
  | syscall worker call => exact syscall_post h hspares
  | stop worker => exact stop_post h
  | crash worker => exact crash_post h
  | interrupt worker => exact interrupt_post h (of_decide_eq_true henabled)

end Steps

/-! ## Runs -/

theorem initial_inv (P : Prop) (nbCores : Nat) (hostPid : Int) (memory : GuestMemory) :
    (initial nbCores hostPid memory).Inv P := by
  refine ⟨⟨fun t => ?_, fun t ht => ?_, fun _ h => absurd h List.not_mem_nil⟩, ?_, .shared ⟨fun w hw => ?_, ?_⟩⟩
  · by_cases ht : t = 0
    · subst ht
      exact ⟨Nat.le_refl _, rfl, fun _ => rfl, fun h => absurd h Nat.one_ne_zero, fun _ _ => rfl⟩
    · have hzero : (tally (initial nbCores hostPid memory).scheduler t).threads = 0 :=
        List.count_eq_zero.2 (by simpa [initial] using ht)
      have hrunnable : (tally (initial nbCores hostPid memory).scheduler t).runnable = 0 := hzero
      exact ⟨by omega, by rw [hrunnable, hzero]; rfl, fun h => absurd h (by omega), fun _ => rfl, fun _ _ => rfl⟩
  · have hzero : (tally (initial nbCores hostPid memory).scheduler t).threads = 0 :=
      List.count_eq_zero.2 (by simp only [initial, List.mem_singleton]; exact fun h => by subst h; cases ht)
    exact ⟨hzero, rfl⟩
  · rw [initial, eq_comm, List.countP_eq_zero]
    intro w hw
    rw [List.eq_of_mem_replicate hw]
    simp [isRunning]
  · rw [initial] at hw
    exact Or.inl (Or.inl (List.eq_of_mem_replicate hw))
  · refine List.Perm.of_eq ?_
    rw [initial, eq_comm, List.filterMap_eq_nil_iff]
    intro w hw
    rw [List.eq_of_mem_replicate hw]
    rfl

theorem step_some {sys sys' : System} {action : WorkerAction} (h : sys.step action = some sys') :
    sys.enabled action = true ∧ sys.exec action = .ok sys' :=
  enabled_toOption_eq_some.1 h

/-- Every state of a run keeps the invariant, with the promise if all steps keep it. -/
theorem reachableUnder_inv {C : System → WorkerAction → Prop} {P : Prop} (hC : ∀ sys action, C sys action → P →
    sys.SparesSuspended action) {sys : System} (h : machine.ReachableUnder C sys) : sys.Inv P := by
  refine h.invariant (Inv P) ?_ ?_
  · rintro _ ⟨nbCores, hostPid, memory, rfl⟩
    exact initial_inv P nbCores hostPid memory
  · intro sys action sys' _ hinv hc hstep
    obtain ⟨henabled, hexec⟩ := step_some hstep
    exact (exec_post hinv henabled (hC sys action hc)).of_ok hexec

theorem reachable_inv {sys : System} (h : machine.Reachable sys) : sys.Inv False :=
  reachableUnder_inv (fun _ _ _ hF => hF.elim) h

/-! ## Runs of one worker -/

/-- `clone` of a thread of the same process. -/
def threadFlags : CloneFlags where
  childClearTid := true
  childSetTid := false
  clearSignalHandlers := false
  cloneSignalHandlers := true
  cloneFiles := true
  cloneFs := true
  cloneIo := false
  cloneParent := false
  parentSetTid := true
  clonePidFd := false
  setTls := true
  cloneThread := true
  cloneVm := true
  cloneVfork := false

/-- Files that have nothing to say. -/
def silentFiles : FsAnswers :=
  { poll := fun _ => ⟨0, 0, id⟩, select := fun _ => ⟨0, 0, id⟩, epollWait := fun _ => ⟨0, 0, id⟩, read := fun _ => none }

/-- Worker 0 lets the next thread run until it asks for a call. -/
def userTurn : List WorkerAction :=
  [.tryPickNext 0 silentFiles, .start 0, .execute 0 ⟨10, some .enterSyscall, fun _ => some 0⟩, .stop 0]

/-- Worker 0 begins the call of a thread. -/
def beginCall : List WorkerAction := userTurn ++ [.tryPickNext 0 silentFiles, .start 0]

/-- Worker 0 lets the next thread make a call. -/
def callTurn (call : Syscall) : List WorkerAction := beginCall ++ [.syscall 0 call, .stop 0]

end System

end X64Emulator
