import X64Emulator.ContextSwitch
import X64Emulator.Lemmas.WorkerSteps

/-!
# Where the threads execute

No two workers hold jobs of one thread, and a step of a worker that is not a system call leaves the thread and process objects
as they are. `Emulator.Inv` says of each thread that the state it executes on, or else the one that is kept of it, is its own.
-/

namespace X64Emulator

open Outcome

namespace System

variable {P : Prop} {sys sys' : System} {worker worker' : Nat} {w w' : WorkerState} {job job' : Job}

/-- The job a worker holds is one of the running jobs, unless its call is done. -/
theorem Mode.mem_runningJobs (h : sys.Mode) (hw : sys.workers[worker]? = some w) (hheld : w.held = some job) :
    job ∈ sys.scheduler.runningJobs := by
  cases h with
  | shared h => exact h.jobs.mem_iff.2 (List.mem_filterMap.2 ⟨w, List.mem_of_getElem? hw, hheld⟩)
  | alone job₀ w₀ hjob hw₀ h jobs =>
    have hrest : ¬ w.IsResting := fun hr => by rw [hr.held] at hheld; cases hheld
    obtain ⟨-, rfl⟩ := h.index_zero hw hrest
    rw [jobs, List.mem_singleton]
    rcases hw₀ with rfl | rfl | rfl
    · exact (Option.some.inj hheld).symm
    · exact (Option.some.inj hheld).symm
    · exact (Option.some.inj hheld).symm
  | done job₀ h jobs =>
    have hrest : ¬ w.IsResting := fun hr => by rw [hr.held] at hheld; cases hheld
    obtain ⟨-, rfl⟩ := h.index_zero hw hrest
    cases hheld

/-- No thread has two running jobs. -/
theorem Inv.running_le (h : sys.Inv P) (t : Nat) : sys.scheduler.runningJobs.countP (·.thread = t) ≤ 1 := by
  have hok := h.ledger.ok t
  have hrunning : (sys.scheduler.tally t).running = sys.scheduler.runningJobs.countP (·.thread = t) := rfl
  have := hok.once
  have := hok.place
  omega

/-- No two workers hold jobs of one thread. -/
theorem Inv.worker_eq (h : sys.Inv P) (hw : sys.workers[worker]? = some w) (hheld : w.held = some job)
    (hw' : sys.workers[worker']? = some w') (hheld' : w'.held = some job') (hthread : job.thread = job'.thread) :
    worker = worker' := by
  by_contra hne
  have hrest : ¬ w.IsResting := fun hr => by rw [hr.held] at hheld; cases hheld
  have hrest' : ¬ w'.IsResting := fun hr => by rw [hr.held] at hheld'; cases hheld'
  cases h.mode with
  | shared hshared =>
    have hperm := hshared.jobs_perm hw
    rw [hheld] at hperm
    have hmem : job' ∈ (sys.workers.eraseIdx worker).filterMap WorkerState.held :=
      List.mem_filterMap.2 ⟨w', List.mem_eraseIdx_iff_getElem?.2 ⟨worker', fun heq => hne heq.symm, hw'⟩, hheld'⟩
    have hle := h.running_le job.thread
    rw [hperm.countP_eq, Option.toList_some, List.singleton_append, List.countP_cons_of_pos (by simp)] at hle
    have hpos : 0 < ((sys.workers.eraseIdx worker).filterMap WorkerState.held).countP (·.thread = job.thread) :=
      List.countP_pos_iff.2 ⟨job', hmem, by simp [hthread]⟩
    omega
  | alone job₀ w₀ hjob hw₀ halone jobs =>
    exact hne ((halone.index_zero hw hrest).1.trans (halone.index_zero hw' hrest').1.symm)
  | done job₀ halone jobs =>
    exact hne ((halone.index_zero hw hrest).1.trans (halone.index_zero hw' hrest').1.symm)

/-- A thread whose job a worker holds is not blocked. -/
theorem Inv.not_blocked (h : sys.Inv P) (hw : sys.workers[worker]? = some w) (hheld : w.held = some job) :
    job.thread ∉ sys.scheduler.blockedThreads := by
  intro hblocked
  have hrunning : 0 < sys.scheduler.runningJobs.countP (·.thread = job.thread) :=
    List.countP_pos_iff.2 ⟨job, h.mode.mem_runningJobs hw hheld, by simp⟩
  have hcount : 0 < sys.scheduler.blockedThreads.count job.thread := List.count_pos_iff.2 hblocked
  have hok := h.ledger.ok job.thread
  have hplace : sys.scheduler.runningJobs.countP (·.thread = job.thread) + sys.scheduler.runnableThreads.count job.thread +
    sys.scheduler.blockedThreads.count job.thread = sys.scheduler.threads.count job.thread := hok.place
  have honce : sys.scheduler.threads.count job.thread ≤ 1 := hok.once
  omega

end System

/-! ## Steps of workers that make no call -/

/-- No thread was created, and each belongs to its process. -/
structure Steady (s s' : Scheduler) : Prop where
  process : ∀ t, s'.processOf t = s.processOf t
  nbThreads : s'.nbThreads = s.nbThreads

namespace Steady

variable {s s' s'' : Scheduler}

/-- The lists and the time of the scheduler do not matter. -/
theorem of_eq (hthreadAt : s'.threadAt = s.threadAt) (hnb : s'.nbThreads = s.nbThreads) : Steady s s' :=
  ⟨fun t => congrArg Thread.process (congrFun hthreadAt t), hnb⟩

theorem refl (s : Scheduler) : Steady s s := of_eq rfl rfl

theorem trans (h : Steady s s') (h' : Steady s' s'') : Steady s s'' :=
  ⟨fun t => (h'.process t).trans (h.process t), h'.nbThreads.trans h.nbThreads⟩

theorem setThread {f : Thread → Thread} {thread : Nat} (hf : ∀ t, (f t).process = t.process) : Steady s (s.setThread thread f) := by
  refine ⟨fun t => ?_, rfl⟩
  unfold Scheduler.processOf Scheduler.setThread
  simp only
  split
  · exact hf _
  · rfl

theorem of_woke {woken : List Nat} (h : Scheduler.Woke s s' woken) : Steady s s' := by
  refine ⟨fun t => ?_, (congrArg Scheduler.nbThreads h.bare :)⟩
  have hthread : { s'.threadAt t with rax := 0 } = { s.threadAt t with rax := 0 } :=
    congrFun (congrArg Scheduler.threadAt h.bare :) t
  exact (congrArg Thread.process hthread :)

theorem stopRunningThread (s : Scheduler) (thread : Nat) : Steady s (s.stopRunningThread thread) := by
  unfold Scheduler.stopRunningThread
  split
  · exact of_eq rfl rfl
  · exact refl _

theorem setTime (s : Scheduler) (time : PreciseTime) (num : Nat) :
    Steady s { s with currentTime := time, numRunningJobs := num } := of_eq rfl rfl

theorem panic (s : Scheduler) : Steady s { s with hasPanicked := true } := of_eq rfl rfl

theorem startJob (s : Scheduler) (job : Job) : Steady s (s.startJob job) := of_eq rfl rfl

end Steady

namespace System

variable {P : Prop} {sys sys' : System} {worker : Nat}

theorem setSlice_steady {s : Scheduler} {clock : PreciseTime} {thread sliceDuration : Nat} :
    Yields (Steady s) (s.setSlice clock thread sliceDuration) :=
  Post.skip fun _ => Post.ok (Steady.setThread fun _ => rfl)

theorem tryPickNext_steady {s : Scheduler} {answers : FsAnswers} {canRunSyscalls : Bool} (hs : s.Ledger False) :
    Yields (fun r => Steady s r.2) (s.tryPickNext answers canRunSyscalls) := by
  refine Post.ite (fun _ => Post.ok (.refl s)) fun _ => ?_
  refine Post.bind ((Scheduler.tryUnblockThreads_post hs answers).anti fun _ he => he.elim) fun r hr => ?_
  obtain ⟨didUnblock, s'⟩ := r
  obtain ⟨woken, hwoke, -⟩ := hr
  have hsteady := Steady.of_woke hwoke
  refine Post.ite (fun _ => Post.ok hsteady) fun _ => Post.skip fun _ => ?_
  refine Post.ite (fun _ => Post.ok hsteady) fun _ => ?_
  split
  · refine Post.ok ?_
    unfold Scheduler.advanceTime
    split
    · exact hsteady.trans (.setTime s' _ s'.numRunningJobs)
    · exact hsteady
  · exact Post.ok (hsteady.trans (.startJob s' _))

theorem endUserspace_steady (s : Scheduler) (thread : Nat) : Steady s (s.endUserspace thread) := by
  unfold Scheduler.endUserspace Scheduler.syncThreadTimeSlice
  exact (Steady.stopRunningThread s thread).trans (.setTime _ _ _)

theorem runSlice_steady (s : Scheduler) (thread : Nat) (slice : Slice) : Steady s (s.runSlice thread slice) := by
  refine ⟨fun t => ?_, rfl⟩
  unfold Scheduler.runSlice Scheduler.processOf Scheduler.setThread
  simp only
  split
  · cases slice.request with
    | none => rfl
    | some request => cases request <;> rfl
  · rfl

/-- A step that is not a system call. -/
theorem exec_steady (h : sys.Inv False) {action : WorkerAction} (haction : ∀ worker call, action ≠ .syscall worker call) :
    Yields (fun sys' => Steady sys.scheduler sys'.scheduler) (sys.exec action) := by
  cases action with
  | tryPickNext worker answers => exact Post.bind (tryPickNext_steady h.ledger) fun _ hr => Post.ok hr
  | start worker _ =>
    simp only [exec]
    split
    · have hcount : Steady sys.scheduler sys.scheduler.countJob := .of_eq rfl rfl
      refine Post.ite (fun _ => Post.bind ?_ fun _ hs => Post.ok hs) fun _ => Post.ite (fun _ => ?_) fun _ => ?_
      · exact Post.skip fun _ => Post.ok (.of_eq rfl rfl)
      · exact Post.bind setSlice_steady fun _ hs => Post.ok (hcount.trans hs)
      · exact Post.bind (Post.skip fun _ => setSlice_steady) fun _ hs => Post.ok (hcount.trans hs)
    · exact Post.ok (.refl _)
  | execute worker slice =>
    simp only [exec]
    split
    · exact Post.ok (runSlice_steady _ _ _)
    · exact Post.ok (runSlice_steady _ _ _)
    · exact Post.ok (.refl _)
  | syscall worker call => exact absurd rfl (haction worker call)
  | stop worker =>
    simp only [exec]
    split
    · exact Post.ok (endUserspace_steady _ _)
    · next job _ =>
      have hreset : Steady sys.scheduler (sys.scheduler.resetAtomicRequest job.thread) := Steady.setThread fun _ => rfl
      exact Post.ok (hreset.trans (endUserspace_steady _ _))
    · exact Post.ok ((Steady.stopRunningThread _ _).trans (.of_eq rfl rfl))
    · exact Post.ok (.refl _)
  | crash worker =>
    simp only [exec]
    split
    · exact Post.ok ((endUserspace_steady _ _).trans (.panic _))
    · exact Post.ok ((endUserspace_steady _ _).trans (.panic _))
    · exact Post.ok (.refl _)
  | interrupt worker => exact Post.ok (.of_eq rfl rfl)

/-- A step changes what one worker does. -/
theorem exec_workers {action : WorkerAction} {w : Nat} (hw : w ≠ action.worker) :
    Yields (fun sys' => sys'.workers[w]? = sys.workers[w]?) (sys.exec action) := by
  have hset : ∀ (state : WorkerState) (s : Scheduler), (sys.setWorker action.worker state s).workers[w]? = sys.workers[w]? :=
    fun state s => List.getElem?_set_ne (Ne.symm hw)
  cases action with
  | tryPickNext worker answers => exact Post.skip fun _ => Post.ok (hset _ _)
  | start worker _ =>
    simp only [exec]
    split
    · refine Post.ite (fun _ => Post.skip fun _ => Post.ok (hset _ _)) fun _ => ?_
      exact Post.ite (fun _ => Post.skip fun _ => Post.ok (hset _ _)) fun _ =>
        Post.skip fun _ => Post.ok (hset _ _)
    · exact Post.ok rfl
  | execute worker slice =>
    simp only [exec]
    split
    · exact Post.ok rfl
    · exact Post.ok rfl
    · exact Post.ok rfl
  | syscall worker call =>
    simp only [exec]
    split
    · exact Post.skip fun _ => Post.ok (hset _ _)
    · exact Post.ok rfl
  | stop worker =>
    simp only [exec]
    split
    · exact Post.ok (hset _ _)
    · exact Post.ok (hset _ _)
    · exact Post.ok (hset _ _)
    · exact Post.ok rfl
  | crash worker =>
    simp only [exec]
    split
    · exact Post.ok (hset _ _)
    · exact Post.ok (hset _ _)
    · exact Post.ok rfl
  | interrupt worker => exact Post.ok (hset _ _)

end System

end X64Emulator
