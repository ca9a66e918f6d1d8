import Mathlib.Data.List.Perm.Basic
import X64Emulator.Lemmas.Picking

/-!
# What the workers do at one time

Either all workers that have a job have a userspace job, or worker 0 has a job that runs alone and the others have none. The
running jobs of the scheduler are the jobs the workers have, until the system call of worker 0 is done.
-/

namespace X64Emulator

open Outcome

namespace WorkerState

/-- The job of a worker, until its system call is done. -/
def held : WorkerState → Option Job
  | .picked job => some job
  | .userspace job => some job
  | .atomic job => some job
  | .kernel job false => some job
  | _ => none

/-- A worker without a job. -/
def IsResting (w : WorkerState) : Prop := w = .idle ∨ w = .exited

theorem IsResting.held {w : WorkerState} (h : w.IsResting) : w.held = none := by
  rcases h with rfl | rfl <;> rfl

theorem IsResting.not_running {w : WorkerState} (h : w.IsResting) : ¬ w.isRunning = true := by
  rcases h with rfl | rfl <;> simp [isRunning]

/-- A worker that rests or has a userspace job. -/
def IsShared (w : WorkerState) : Prop :=
  w.IsResting ∨ ∃ job : Job, job.isUserspaceJob = true ∧ (w = .picked job ∨ w = .userspace job)

end WorkerState

namespace System

open WorkerState

/-! ## Workers by index -/

section Index

variable {sys : System} {worker : Nat} {w : WorkerState}

theorem workers_perm (h : sys.workers[worker]? = some w) : sys.workers.Perm (w :: sys.workers.eraseIdx worker) := by
  obtain ⟨hlt, rfl⟩ := List.getElem?_eq_some_iff.1 h
  exact (List.getElem_cons_eraseIdx_perm hlt).symm

theorem setWorker_perm (h : sys.workers[worker]? = some w) (w' : WorkerState) (s : Scheduler) :
    (sys.setWorker worker w' s).workers.Perm (w' :: sys.workers.eraseIdx worker) := by
  obtain ⟨hlt, _⟩ := List.getElem?_eq_some_iff.1 h
  exact List.set_perm_cons_eraseIdx hlt w'

/-- The workers that run are counted as the worker's state changes. -/
theorem setWorker_countP (h : sys.workers[worker]? = some w) (w' : WorkerState) (s : Scheduler) :
    (sys.setWorker worker w' s).workers.countP isRunning + (if w.isRunning then 1 else 0) =
      sys.workers.countP isRunning + if w'.isRunning then 1 else 0 := by
  rw [(setWorker_perm h w' s).countP_eq, (workers_perm h).countP_eq, List.countP_cons, List.countP_cons]
  omega

theorem lockIsFree_iff : sys.lockIsFree = true ↔ ∀ w ∈ sys.workers, w.holdsLock = false := by
  simp [lockIsFree]

end Index

/-! ## Modes -/

/-- No worker has a job that runs alone. -/
structure Shared (sys : System) : Prop where
  states : ∀ w ∈ sys.workers, w.IsShared
  jobs : sys.scheduler.runningJobs.Perm (sys.workers.filterMap held)

/-- Worker 0 is in a state, and the others have no job. -/
structure Alone (sys : System) (w : WorkerState) : Prop where
  first : sys.workers[0]? = some w
  others : ∀ worker w', worker ≠ 0 → sys.workers[worker]? = some w' → w'.IsResting

inductive Mode (sys : System) : Prop where
  | shared (h : sys.Shared)
  | alone (job : Job) (w : WorkerState) (hjob : ¬ job.isUserspaceJob = true)
      (hw : w = .picked job ∨ w = .atomic job ∨ w = .kernel job false) (h : sys.Alone w)
      (jobs : sys.scheduler.runningJobs = [job])
  | done (job : Job) (h : sys.Alone (.kernel job true)) (jobs : sys.scheduler.runningJobs.Sublist [job])

/-- The invariant of the whole system. -/
structure Inv (P : Prop) (sys : System) : Prop where
  ledger : sys.scheduler.Ledger P
  num : sys.scheduler.numRunningJobs = sys.workers.countP isRunning
  mode : sys.Mode

section Modes

variable {sys : System} {worker : Nat} {w w' : WorkerState} {s : Scheduler}

theorem Shared.state (h : sys.Shared) (hw : sys.workers[worker]? = some w) : w.IsShared :=
  h.states w (List.mem_of_getElem? hw)

/-- The running jobs are the worker's, if it has one, and those of the other workers. -/
theorem Shared.jobs_perm (h : sys.Shared) (hw : sys.workers[worker]? = some w) :
    sys.scheduler.runningJobs.Perm (w.held.toList ++ (sys.workers.eraseIdx worker).filterMap held) := by
  refine h.jobs.trans (((workers_perm hw).filterMap held).trans (List.Perm.of_eq ?_))
  rw [List.filterMap_cons]
  cases w.held <;> rfl

theorem Shared.set (h : sys.Shared) (hw : sys.workers[worker]? = some w) (hw' : w'.IsShared)
    (hjobs : s.runningJobs.Perm (w'.held.toList ++ (sys.workers.eraseIdx worker).filterMap held)) :
    (sys.setWorker worker w' s).Shared := by
  refine ⟨fun v hv => ?_, ?_⟩
  · rcases List.mem_or_eq_of_mem_set hv with hv | rfl
    · exact h.states v hv
    · exact hw'
  · refine hjobs.trans (List.Perm.trans (List.Perm.of_eq ?_) ((setWorker_perm hw w' s).filterMap held).symm)
    rw [List.filterMap_cons]
    cases w'.held <;> rfl

theorem Alone.index_zero (h : sys.Alone w) (hw' : sys.workers[worker]? = some w') (hrest : ¬ w'.IsResting) :
    worker = 0 ∧ w' = w := by
  by_cases h0 : worker = 0
  · subst h0
    rw [h.first] at hw'
    cases hw'
    exact ⟨rfl, rfl⟩
  · exact absurd (h.others worker w' h0 hw') hrest

theorem Alone.set (h : sys.Alone w) (w' : WorkerState) (s : Scheduler) : (sys.setWorker 0 w' s).Alone w' := by
  obtain ⟨hlt, _⟩ := List.getElem?_eq_some_iff.1 h.first
  refine ⟨List.getElem?_set_self hlt, fun i v hi hv => h.others i v hi ?_⟩
  rwa [setWorker, List.getElem?_set_ne (Ne.symm hi)] at hv

theorem Alone.rest (h : sys.Alone w) (hne : worker ≠ 0) (hw' : w'.IsResting) (s : Scheduler) :
    (sys.setWorker worker w' s).Alone w := by
  refine ⟨?_, fun i v hi hv => ?_⟩
  · rw [setWorker, List.getElem?_set_ne hne]
    exact h.first
  · rw [setWorker, List.getElem?_set] at hv
    split at hv
    · split at hv
      · cases hv
        exact hw'
      · cases hv
    · exact h.others i v hi hv

/-- When worker 0 has no job left, no worker has one. -/
theorem Alone.shared (h : sys.Alone w) (hw' : w'.IsResting) (hjobs : s.runningJobs = []) :
    (sys.setWorker 0 w' s).Shared := by
  have hset := h.set w' s
  have hrest : ∀ v ∈ (sys.setWorker 0 w' s).workers, v.IsResting := by
    intro v hv
    obtain ⟨i, hi⟩ := List.mem_iff_getElem?.1 hv
    by_cases h0 : i = 0
    · subst h0
      rw [hset.first] at hi
      cases hi
      exact hw'
    · exact hset.others i v h0 hi
  refine ⟨fun v hv => Or.inl (hrest v hv), List.Perm.of_eq ?_⟩
  rw [show (sys.setWorker 0 w' s).scheduler.runningJobs = [] from hjobs, eq_comm, List.filterMap_eq_nil_iff]
  exact fun v hv => (hrest v hv).held

/-- When no job runs, no worker has one. -/
theorem Shared.alone (h : sys.Shared) (hw : sys.workers[0]? = some w) (hjobs : sys.scheduler.runningJobs = [])
    (w' : WorkerState) (s : Scheduler) : (sys.setWorker 0 w' s).Alone w' := by
  have hnone : ∀ v ∈ sys.workers, v.held = none := by
    have hperm := h.jobs
    rw [hjobs, List.nil_perm, List.filterMap_eq_nil_iff] at hperm
    exact hperm
  have hrest : sys.Alone w := by
    refine ⟨hw, fun i v _ hv => ?_⟩
    have hmem := List.mem_of_getElem? hv
    rcases h.states v hmem with hr | ⟨job, _, rfl | rfl⟩
    · exact hr
    · cases hnone _ hmem
    · cases hnone _ hmem
  exact hrest.set w' s

theorem Shared.userspace (h : sys.Shared) : ∀ job ∈ sys.scheduler.runningJobs, job.isUserspaceJob = true := by
  intro job hjob
  rw [h.jobs.mem_iff, List.mem_filterMap] at hjob
  obtain ⟨v, hv, hheld⟩ := hjob
  rcases h.states v hv with hr | ⟨job', huser, rfl | rfl⟩
  · rw [hr.held] at hheld
    cases hheld
  · cases hheld
    exact huser
  · cases hheld
    exact huser

/-- A worker that is alone is the only one that can run. -/
theorem Alone.countP (h : sys.Alone w) : sys.workers.countP isRunning = if w.isRunning then 1 else 0 := by
  rw [(workers_perm h.first).countP_eq, List.countP_cons, Nat.add_eq_right, List.countP_eq_zero]
  intro v hv
  obtain ⟨i, hi⟩ := List.mem_iff_getElem?.1 hv
  rw [List.getElem?_eraseIdx_of_ge (Nat.zero_le i)] at hi
  exact (h.others (i + 1) v (Nat.succ_ne_zero i) hi).not_running

end Modes

end System

end X64Emulator
