import X64Emulator.Kernel
import X64Emulator.Lemmas.FileRuns
import X64Emulator.Lemmas.WorkerSteps

/-!
# A clone that fails

`Sys::clone` and `Sys::clone3` look at the flags of a new process only after the process was created, given its descriptors and
registered. Where they refuse the flags nothing of that is undone. The thread of a process is created after its flags were
looked at.
-/

namespace X64Emulator

open Outcome

/-- The flags of a new process that `Sys::clone` does not support. -/
def CloneFlags.Refused (flags : CloneFlags) : Prop := flags.cloneThread = false ∧ checkCloneFlagsFork flags = false

namespace Scheduler

/-- The lists of the scheduler. -/
def lists (s : Scheduler) :=
  (s.threads, s.runningJobs, s.runnableThreads, s.blockedThreads, s.futexBlockers, s.pollBlockers, s.selectBlockers,
    s.epollWaitBlockers, s.sleepBlockers, s.waitBlockers, s.readBlockers, s.vmReleaseBlockers)

theorem cloneProcess_nbProcesses (s : Scheduler) (p : Nat) (vm : Bool) :
    (s.cloneProcess p vm).2.nbProcesses = s.nbProcesses + 1 := rfl

/-- The parent has the new process as its last child. -/
theorem cloneProcess_children {s : Scheduler} {p : Nat} (hp : p ≠ s.nbProcesses) (vm : Bool) :
    ((s.cloneProcess p vm).2.processAt p).children = (s.processAt p).children ++ [s.nbProcesses] := by
  simp [cloneProcess, setProcess, allocateId, hp]

theorem addProcessThread_threads (s : Scheduler) (p : Nat) : (s.addProcessThread p).2.threads = s.threads := by
  unfold addProcessThread
  cases (s.processAt p).threads.isEmpty <;> rfl

theorem suspendIfVfork_threads (s : Scheduler) (current : Nat) (flags : CloneFlags) :
    Yields (fun s' => s'.threads = s.threads) (s.suspendIfVfork current flags) := by
  refine Post.ite (fun _ => Post.skip fun _ => ?_) fun _ => Post.ok rfl
  refine Post.bind (p := fun s' => s'.threads = s.threads) (Post.skip fun _ => Post.ok rfl) fun s' hs' => ?_
  exact Post.ok hs'

/-- What creating a thread or a process gives: no thread where the flags are refused, and then the process is there. -/
theorem createClone_cases (s : Scheduler) (current : Nat) (flags : CloneFlags) :
    Yields (fun r =>
      (flags.Refused ∧ r = (none, (s.cloneProcess (s.processOf current) flags.cloneVm).2)) ∨
      (¬ flags.Refused ∧ ∃ t, r.1 = some t ∧ r.2.threads = s.threads)) (s.createClone current flags) := by
  unfold createClone
  refine Post.ite ?_ ?_
  · intro hthread
    refine Post.skip fun _ => Post.skip fun _ => Post.skip fun _ => Post.ok ?_
    refine .inr ⟨?_, _, rfl, addProcessThread_threads s _⟩
    intro hrefused
    exact absurd (hthread.symm.trans hrefused.1) (by decide)
  · intro hthread
    have hthread : flags.cloneThread = false := by simpa using hthread
    refine Post.skip fun _ => Post.ite ?_ ?_
    · intro hfork
      exact Post.ok (.inl ⟨⟨hthread, hfork⟩, rfl⟩)
    · intro hfork
      refine Post.bind (suspendIfVfork_threads _ current flags) fun s' hs' => Post.ok (.inr ⟨?_, _, rfl, ?_⟩)
      · exact fun hrefused => hfork hrefused.2
      · exact hs'.trans (addProcessThread_threads _ _)

theorem storeTid_threads (s : Scheduler) (wanted : Bool) (space address newThread : Nat) :
    Yields (fun s' => s'.threads = s.threads) (s.storeTid wanted space address newThread) :=
  Post.ite (fun _ => Post.skip fun _ => Post.ok rfl) fun _ => Post.ok rfl

end Scheduler

namespace CloneCall

/-- What a call gives: a new process that nothing runs where the flags are refused, and else a new thread in the list. -/
def Given (s : Scheduler) (current : Nat) (flags : CloneFlags) (r : Int × Scheduler) : Prop :=
  (flags.Refused ∧ r = (-ENOTSUP, (s.cloneProcess (s.processOf current) flags.cloneVm).2)) ∨
    (¬ flags.Refused ∧ ∃ t, r.2.threads = s.threads ++ [t])

theorem schedule_cases (s : Scheduler) (current : Nat) (call : CloneCall) :
    Yields (Given s current call.flags) (call.schedule s current) := by
  cases call with
  | clone flags stack parent_tid child_tid =>
    refine Post.bind (s.createClone_cases current flags) fun (newThread, s₁) h₁ => ?_
    rcases h₁ with ⟨hrefused, heq⟩ | ⟨haccepted, t, hnew, hthreads⟩
    · obtain ⟨rfl, rfl⟩ := Prod.mk.inj heq
      exact Post.ok (.inl ⟨hrefused, rfl⟩)
    · obtain rfl : newThread = some t := hnew
      refine Post.skip fun _ => Post.bind (Scheduler.storeTid_threads _ _ _ _ _) fun s₂ h₂ =>
        Post.bind (Scheduler.storeTid_threads _ _ _ _ _) fun s₃ h₃ => Post.ok (.inr ⟨haccepted, t, ?_⟩)
      exact congrArg (· ++ [t]) (h₃.trans (h₂.trans hthreads))
  | clone3 flags parent_tid child_tid =>
    refine Post.bind (s.createClone_cases current flags) fun (newThread, s₁) h₁ => ?_
    rcases h₁ with ⟨hrefused, heq⟩ | ⟨haccepted, t, hnew, hthreads⟩
    · obtain ⟨rfl, rfl⟩ := Prod.mk.inj heq
      exact Post.ok (.inl ⟨hrefused, rfl⟩)
    · obtain rfl : newThread = some t := hnew
      refine Post.bind (Scheduler.storeTid_threads _ _ _ _ _) fun s₂ h₂ =>
        Post.bind (Scheduler.storeTid_threads _ _ _ _ _) fun s₃ h₃ => Post.ok (.inr ⟨haccepted, t, ?_⟩)
      exact congrArg (· ++ [t]) (h₃.trans (h₂.trans hthreads))

end CloneCall

namespace Kernel

/-- The count of references to a file; none where there is no such file. -/
def refCount? (k : Kernel) (f : FileId) : Option Nat := (k.files.fs.files.get? f).map File.refCount

/-- The process table, the lists of children, the reference counts of the files and the lists of the scheduler are the same. -/
structure Untouched (k k' : Kernel) : Prop where
  processes : k'.scheduler.nbProcesses = k.scheduler.nbProcesses
  pids : ∀ p < k.scheduler.nbProcesses, (k'.scheduler.processAt p).pid = (k.scheduler.processAt p).pid
  children : ∀ p < k.scheduler.nbProcesses, (k'.scheduler.processAt p).children = (k.scheduler.processAt p).children
  refCounts : ∀ f, k'.refCount? f = k.refCount? f
  lists : k'.scheduler.lists = k.scheduler.lists

theorem cloneCall_eq_ok {k k' : Kernel} {current : Nat} {call : CloneCall} {ret : Int}
    (h : k.cloneCall current call = .ok (ret, k')) :
    k.cloneDescriptors (k.scheduler.processOf current) call.flags = .ok k'.files ∧
      CloneCall.Given k.scheduler current call.flags (ret, k'.scheduler) := by
  obtain ⟨files, hfiles, h⟩ := bind_eq_ok.1 h
  obtain ⟨⟨ret', scheduler⟩, hscheduler, h⟩ := bind_eq_ok.1 h
  cases h
  refine ⟨hfiles, ?_⟩
  cases hcall : call.schedule k.scheduler current with
  | error e =>
    rw [hcall] at hscheduler
    cases hscheduler
  | ok r =>
    rw [hcall] at hscheduler
    cases hscheduler
    exact (call.schedule_cases k.scheduler current).of_ok hcall

/-- Where the flags are refused, the new process stays in the process table, in the list of children of its parent and with its
descriptors. -/
theorem refused_clone {k k' : Kernel} {current : Nat} {call : CloneCall} {ret : Int} (hrefused : call.flags.Refused)
    (hp : k.scheduler.processOf current < k.scheduler.nbProcesses) (h : k.cloneCall current call = .ok (ret, k')) :
    ret = -ENOTSUP ∧ k'.scheduler.nbProcesses = k.scheduler.nbProcesses + 1 ∧
      (k'.scheduler.processAt (k.scheduler.processOf current)).children =
        (k.scheduler.processAt (k.scheduler.processOf current)).children ++ [k.scheduler.nbProcesses] ∧
      k'.files.tables = k.files.tables ++ (k.files.tables[k.scheduler.processOf current]?).toList ∧
      k'.scheduler.lists = k.scheduler.lists := by
  obtain ⟨hfiles, ⟨-, heq⟩ | ⟨haccepted, -⟩⟩ := cloneCall_eq_ok h
  · obtain ⟨rfl, hscheduler⟩ := Prod.mk.inj heq
    rw [hscheduler]
    refine ⟨rfl, rfl, Scheduler.cloneProcess_children (Nat.ne_of_lt hp) _, ?_, rfl⟩
    rw [cloneDescriptors, if_neg (by rw [hrefused.1]; decide)] at hfiles
    cases htable : k.files.tables[k.scheduler.processOf current]? with
    | none =>
      rw [htable] at hfiles
      cases hfiles
    | some fds =>
      simp only [htable] at hfiles
      obtain ⟨⟨files, answer⟩, hclone, hfiles⟩ := bind_eq_ok.1 hfiles
      cases hcloned : k.files.clone fds with
      | error e =>
        rw [hcloned] at hclone
        cases hclone
      | ok r =>
        rw [hcloned] at hclone
        obtain ⟨fs, -, hr⟩ := bind_eq_ok.1 hcloned
        cases hclone
        rw [← Except.ok.inj hfiles, ← (ok_pair hr).1]
        rfl
  · exact absurd hrefused haccepted

/-- A call that gives a result has changed the state. -/
theorem cloneCall_touches {k k' : Kernel} {current : Nat} {call : CloneCall} {ret : Int}
    (h : k.cloneCall current call = .ok (ret, k')) : ¬ k.Untouched k' := by
  intro hsame
  obtain ⟨-, ⟨-, heq⟩ | ⟨-, t, hthreads⟩⟩ := cloneCall_eq_ok h
  · -- the new process is counted
    have hcount : k'.scheduler.nbProcesses = k.scheduler.nbProcesses + 1 := by
      rw [(Prod.mk.inj heq).2, Scheduler.cloneProcess_nbProcesses]
    have := hsame.processes
    omega
  · -- a thread was added
    have hlist : k'.scheduler.threads = k.scheduler.threads := congrArg Prod.fst hsame.lists
    have hlen := congrArg List.length (hlist.symm.trans hthreads)
    rw [List.length_append, List.length_singleton] at hlen
    omega

/-- A call that gives an error never leaves the state as it was. -/
theorem failed_clone_leaves_trace {k k' : Kernel} {current : Nat} {call : CloneCall} {ret : Int}
    (h : k.cloneCall current call = .ok (ret, k')) : ret < 0 → ¬ k.Untouched k' := by
  intro _
  exact cloneCall_touches h

/-- A new process that would share the working directory, which is not supported. -/
def sharesDirectory : CloneFlags where
  childClearTid := false
  childSetTid := false
  clearSignalHandlers := false
  cloneSignalHandlers := false
  cloneFiles := false
  cloneFs := true
  cloneIo := false
  cloneParent := false
  parentSetTid := false
  clonePidFd := false
  setTls := false
  cloneThread := false
  cloneVm := false
  cloneVfork := false

theorem failed_clone_leaves_trace_sample : ∃ k k' : Kernel,
    k.cloneCall 0 (.clone sharesDirectory 0 0 0) = .ok (-ENOTSUP, k') ∧ ¬ k.Untouched k' := by
  let k : Kernel := ⟨(System.initial 1 100 fun _ _ => some 0).scheduler, ⟨FS.bare, [[]], []⟩⟩
  obtain ⟨k', hcall⟩ : ∃ k', k.cloneCall 0 (.clone sharesDirectory 0 0 0) = .ok (-ENOTSUP, k') := ⟨_, rfl⟩
  exact ⟨k, k', hcall, failed_clone_leaves_trace hcall (by decide)⟩

def pathX : Path := ⟨[['x']], by decide⟩

/-- What a failed call may not change, at the first process and a file. -/
def traceAt (k : Kernel) (f : FileId) : Nat × (List Nat × Option Nat) :=
  (k.scheduler.nbProcesses, (k.scheduler.processAt 0).children, k.refCount? f)

/-- The first process has a file open and asks for a child that shares its working directory. The call fails, and leaves a process
that is a child of the caller and refers to the file. -/
theorem failed_clone_fails : ∃ sys files, System.machine.Reachable sys ∧ (FileState.machine 1).Reachable files ∧
    ∃ k', (Kernel.mk sys.scheduler files).cloneCall 0 (.clone sharesDirectory 0 0 0) = .ok (-ENOTSUP, k') ∧
      traceAt ⟨sys.scheduler, files⟩ 3 = (1, [], some 1) ∧ traceAt k' 3 = (2, [1], some 2) := by
  have hrun : ((System.machine.run (System.initial 1 100 fun _ _ => some 0) System.beginCall).bind fun sys =>
      ((FileState.machine 1).run FileState.first [FileState.creates pathX]).bind fun files =>
      ((Kernel.mk sys.scheduler files).cloneCall 0 (.clone sharesDirectory 0 0 0)).toOption.map fun r =>
        decide (r.1 = -ENOTSUP ∧ traceAt ⟨sys.scheduler, files⟩ 3 = (1, [], some 1) ∧ traceAt r.2 3 = (2, [1], some 2))) =
      some true := by decide
  obtain ⟨sys, hsys, hrun⟩ := Option.bind_eq_some_iff.1 hrun
  obtain ⟨files, hfiles, hrun⟩ := Option.bind_eq_some_iff.1 hrun
  obtain ⟨⟨ret, k'⟩, hcall, hfound⟩ := Option.map_eq_some_iff.1 hrun
  obtain ⟨hret, hbefore, hafter⟩ := of_decide_eq_true hfound
  obtain rfl : ret = -ENOTSUP := hret
  have hinit : System.machine.Reachable (System.initial 1 100 fun _ _ => some 0) := .init ⟨_, _, _, rfl⟩
  have hfirst : (FileState.machine 1).Reachable FileState.first := .init FileState.first_isNew
  exact ⟨sys, files, hinit.run _ hsys, hfirst.run _ hfiles, k', toOption_eq_some.1 hcall, hbefore, hafter⟩

end Kernel

end X64Emulator
