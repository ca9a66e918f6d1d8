import X64Emulator.Lemmas.WorkerSteps

/-!
# Kernel and atomic jobs run alone

The scheduler is in a mode: it runs userspace jobs side by side, or one kernel or atomic job and nothing beside it.
-/

namespace X64Emulator

open Outcome

namespace System

/-- A job that no other job may run beside. -/
def RunsAlone (job : Job) : Prop := job.isKernelJob = true ∨ job.isAtomicJob = true

theorem RunsAlone.not_userspace {job : Job} (h : RunsAlone job) : ¬ job.isUserspaceJob = true := by
  unfold RunsAlone Job.isKernelJob Job.isAtomicJob at h
  unfold Job.isUserspaceJob
  rcases h with h | h
  · simp_all
  · simp only [Bool.and_eq_true, decide_eq_true_eq] at h
    simp [h.2]

theorem Mode.runningJobs_alone {sys : System} (h : sys.Mode) {job : Job} (hjob : job ∈ sys.scheduler.runningJobs)
    (halone : RunsAlone job) : sys.scheduler.runningJobs = [job] := by
  cases h with
  | shared h => exact absurd (h.userspace job hjob) halone.not_userspace
  | alone job' w hjob' hw h jobs =>
    rw [jobs, List.mem_singleton] at hjob
    rw [jobs, hjob]
  | done job' h jobs =>
    rcases List.sublist_singleton.1 jobs with hnil | hone
    · rw [hnil] at hjob
      cases hjob
    · rw [hone, List.mem_singleton] at hjob
      rw [hone, hjob]

/-- A kernel or an atomic job is the only running job, and no worker finds other jobs running when it begins one. -/
theorem runs_alone {sys : System} (h : machine.Reachable sys) :
    (∀ job ∈ sys.scheduler.runningJobs, RunsAlone job → sys.scheduler.runningJobs = [job]) ∧
      ∀ action, sys.enabled action = true → sys.exec action ≠ .error .jobsRunning := by
  have hinv := reachable_inv h
  refine ⟨fun job hjob halone => hinv.mode.runningJobs_alone hjob halone, fun action henabled hfail => ?_⟩
  exact (exec_post hinv henabled fun hF => hF.elim).of_error hfail lost_jobsRunning

/-- Worker 0 of two is in a call of the first thread. -/
theorem runs_alone_in_call : ∃ sys, machine.run (initial 2 100 (fun _ _ => some 0)) beginCall = some sys ∧
    sys.scheduler.runningJobs = [⟨0, .KERNEL, false⟩] ∧
    (∀ job ∈ sys.scheduler.runningJobs, RunsAlone job → sys.scheduler.runningJobs = [job]) ∧
      ∀ action, sys.enabled action = true → sys.exec action ≠ .error .jobsRunning := by
  have hjobs : (machine.run (initial 2 100 (fun _ _ => some 0)) beginCall).map (·.scheduler.runningJobs) =
      some [⟨0, .KERNEL, false⟩] := by decide
  obtain ⟨sys, hsys, hjobs⟩ := Option.map_eq_some_iff.1 hjobs
  exact ⟨sys, hsys, hjobs, runs_alone (Machine.Reachable.run beginCall (Machine.Reachable.init ⟨_, _, _, rfl⟩) hsys)⟩

end System

end X64Emulator
