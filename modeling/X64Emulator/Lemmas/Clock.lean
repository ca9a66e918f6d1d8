import X64Emulator.Lemmas.Time
import X64Emulator.Syscalls

/-!
# What takes time

The time of a thread changes only in the run loops, and the time of the scheduler only there and where a worker finds nothing to
run. Every other operation takes no time, system calls included: the threads that are there keep their times, and a new one has
none.
-/

namespace X64Emulator

open Outcome

namespace Scheduler

/-- The time of a thread, however large. -/
def timeOf (s : Scheduler) (t : Nat) : Nat := (s.threadAt t).time.total

/-- The time of the scheduler stays, and so does that of every thread but a new one, which starts at zero. -/
structure TakesNoTime (s s' : Scheduler) : Prop where
  current : s'.currentTime = s.currentTime
  nbThreads : s.nbThreads ≤ s'.nbThreads
  times : ∀ t, s'.timeOf t = s.timeOf t ∨ (s.nbThreads ≤ t ∧ s'.timeOf t = 0)

namespace TakesNoTime

variable {s s' s'' : Scheduler}

/-- Where no thread changes and none is made, no time passes. -/
theorem of_threads (hcurrent : s'.currentTime = s.currentTime) (hn : s'.nbThreads = s.nbThreads)
    (h : s'.threadAt = s.threadAt) : TakesNoTime s s' :=
  ⟨hcurrent, Nat.le_of_eq hn.symm, fun t => .inl (by rw [timeOf, h]; rfl)⟩

/-- Nothing takes no time. -/
theorem refl (s : Scheduler) : TakesNoTime s s := of_threads rfl rfl rfl

/-- Two operations that take no time take none together. -/
theorem trans (h : TakesNoTime s s') (h' : TakesNoTime s' s'') : TakesNoTime s s'' := by
  refine ⟨h'.current.trans h.current, Nat.le_trans h.nbThreads h'.nbThreads, fun t => ?_⟩
  rcases h'.times t with hsame | ⟨hnew, hzero⟩
  · rw [hsame]
    exact h.times t
  · exact .inr ⟨Nat.le_trans h.nbThreads hnew, hzero⟩

end TakesNoTime

/-- A thread may change in everything but its time. -/
theorem setThread_time (s : Scheduler) (t : Nat) {f : Thread → Thread} (hf : ∀ thread, (f thread).time.total = thread.time.total) :
    TakesNoTime s (s.setThread t f) := by
  refine ⟨rfl, Nat.le_refl _, fun u => .inl ?_⟩
  show (if u = t then f (s.threadAt u) else s.threadAt u).time.total = (s.threadAt u).time.total
  split
  · exact hf _
  · rfl

/-- The result of a call is put into a register. -/
theorem setRax_time (s : Scheduler) (t : Nat) (value : Int) : TakesNoTime s (s.setRax t value) :=
  setThread_time s t fun _ => rfl

/-- Processes have no time. -/
theorem setProcess_time (s : Scheduler) (p : Nat) (f : Process → Process) : TakesNoTime s (s.setProcess p f) :=
  .of_threads rfl rfl rfl

/-- The memory has no time. -/
theorem memory_time (s : Scheduler) (memory : GuestMemory) : TakesNoTime s { s with memory := memory } :=
  .of_threads rfl rfl rfl

/-- Timers are not the clock. -/
theorem timers_time (s : Scheduler) (timers : List Timer) : TakesNoTime s { s with timers := timers } :=
  .of_threads rfl rfl rfl

/-! ## Unblocking -/

section Unblocking

variable {s : Scheduler}

/-- An attempt to unblock a thread takes no time, whether it succeeds or not. -/
def TriesAtOnce {β : Type} (tryUnblock : Scheduler → β → Except Failure (Option Scheduler)) : Prop :=
  ∀ s blocker, Yields (fun o => ∀ s' ∈ o, TakesNoTime s s') (tryUnblock s blocker)

/-- A futex blocker sets the result. -/
theorem tryUnblockFutex_time (ptr : Nat) : TriesAtOnce (tryUnblockFutex ptr) := fun s blocker =>
  Post.skip fun timeout => Post.ite (fun _ => Post.ok (by rintro _ ⟨⟩; exact setRax_time s _ _)) fun _ =>
    Post.ite (fun _ => Post.ok (by rintro _ ⟨⟩)) fun _ => Post.ok (by rintro _ ⟨⟩; exact setRax_time s _ _)

/-- A poll blocker writes its entries and sets the result. -/
theorem tryUnblockPoll_time (answers : FsAnswers) : TriesAtOnce (tryUnblockPoll answers) := fun s blocker =>
  Post.skip fun timeout =>
    Post.ite (fun _ => Post.ok (by rintro _ ⟨⟩; exact (memory_time s _).trans (setRax_time _ _ _))) fun _ =>
      Post.ite (fun _ => Post.ok (by rintro _ ⟨⟩; exact setRax_time s _ _)) fun _ => Post.ok (by rintro _ ⟨⟩)

/-- A select blocker writes its sets and sets the result. -/
theorem tryUnblockSelect_time (answers : FsAnswers) : TriesAtOnce (tryUnblockSelect answers) := fun s blocker =>
  Post.skip fun timeout =>
    Post.ite (fun _ => Post.ok (by rintro _ ⟨⟩; exact (memory_time s _).trans (setRax_time _ _ _))) fun _ => Post.ok (by rintro _ ⟨⟩)

/-- An epoll blocker writes its events and sets the result. -/
theorem tryUnblockEpollWait_time (answers : FsAnswers) : TriesAtOnce (tryUnblockEpollWait answers) := fun s blocker =>
  Post.skip fun timeout =>
    Post.ite (fun _ => Post.ok (by rintro _ ⟨⟩; exact (memory_time s _).trans (setRax_time _ _ _))) fun _ =>
      Post.ite (fun _ => Post.ok (by rintro _ ⟨⟩; exact setRax_time s _ _)) fun _ => Post.ok (by rintro _ ⟨⟩)

/-- A sleep blocker sets the result. -/
theorem tryUnblockSleep_time : TriesAtOnce tryUnblockSleep := fun s blocker =>
  Post.skip fun timer => Post.ite (fun _ => Post.ok (by rintro _ ⟨⟩)) fun _ =>
    Post.ok (by rintro _ ⟨⟩; exact setRax_time s _ _)

/-- An exited child is taken out of a list of its parent. -/
theorem tryRetrieveAnyExitedChild_time (s : Scheduler) (p : Nat) :
    Yields (fun o => ∀ r ∈ o, TakesNoTime s r.2) (s.tryRetrieveAnyExitedChild p) := by
  unfold tryRetrieveAnyExitedChild
  split
  · exact Post.ok (by rintro _ ⟨⟩)
  · exact Post.skip fun child => Post.ok (by rintro _ ⟨⟩; exact .of_threads rfl rfl rfl)

/-- A given child is taken out of that list. -/
theorem tryRetrieveExitedChild_time (s : Scheduler) (p : Nat) (pid : Int) :
    Yields (fun o => ∀ r ∈ o, TakesNoTime s r.2) (s.tryRetrieveExitedChild p pid) := by
  refine Post.skip fun child => ?_
  split
  · exact Post.ok (by rintro _ ⟨⟩; exact .of_threads rfl rfl rfl)
  · exact Post.ok (by rintro _ ⟨⟩)

/-- An exited child is reported in memory and in a register. -/
theorem reportExitedChild_time (s : Scheduler) (blocker : WaitBlocker) (ec : ExitedChild) :
    Yields (TakesNoTime s) (s.reportExitedChild blocker ec) :=
  Post.ite (fun _ => Post.ok (setRax_time s _ _)) fun _ => Post.skip fun m =>
    Post.ok ((setRax_time s _ _).trans (memory_time _ m))

/-- A wait blocker takes a child and reports it. -/
theorem tryUnblockWait_time : TriesAtOnce tryUnblockWait := by
  intro s blocker
  have hretrieve : Yields (fun o => ∀ r ∈ o, TakesNoTime s r.2) (s.retrieveFor blocker) :=
    Post.ite (fun _ => tryRetrieveExitedChild_time s _ _) fun _ => tryRetrieveAnyExitedChild_time s _
  refine Post.skip fun _ => Post.bind hretrieve fun found hfound => ?_
  cases found with
  | none => exact Post.ok (by rintro _ ⟨⟩)
  | some found =>
    have hs := hfound _ rfl
    refine Post.map (Post.mono (reportExitedChild_time _ blocker _) fun s' hs' => ?_)
    rintro _ ⟨⟩
    exact hs.trans hs'

/-- A read blocker writes the bytes and sets the result. -/
theorem tryUnblockRead_time (answers : FsAnswers) : TriesAtOnce (tryUnblockRead answers) := by
  intro s blocker
  unfold tryUnblockRead
  split
  · exact Post.ok (by rintro _ ⟨⟩)
  · exact Post.ok (by rintro _ ⟨⟩; exact (memory_time s _).trans (setRax_time _ _ _))

/-- A blocker of a released address space counts its users. -/
theorem tryUnblockVmRelease_time : TriesAtOnce tryUnblockVmRelease := by
  intro s blocker
  refine Post.ok fun s' hs' => ?_
  split at hs' <;> cases hs'
  exact .refl s

/-- An unblocked thread changes lists. -/
theorem unblock_time (s : Scheduler) (thread : Nat) (locked : Bool) :
    Yields (TakesNoTime s) (s.unblock thread locked) :=
  Post.skip fun _ => Post.skip fun _ => Post.ok (.of_threads rfl rfl rfl)

/-- A loop over blockers takes the time of its attempts. -/
theorem unblockLoop_time {β : Type} (thread : β → Nat) {tryUnblock : Scheduler → β → Except Failure (Option Scheduler)}
    (h : TriesAtOnce tryUnblock) (l : List β) (s : Scheduler) :
    Yields (fun r => TakesNoTime s r.2) (unblockLoop thread tryUnblock l s) := by
  induction l generalizing s with
  | nil => exact Post.ok (.refl s)
  | cons blocker l ih =>
    refine Post.bind (h s blocker) fun o ho => ?_
    cases o with
    | none => exact Post.bind (ih s) fun _ hr => Post.ok hr
    | some s₁ =>
      refine Post.bind (unblock_time s₁ _ _) fun s₂ hs₂ => Post.mono (ih s₂) fun _ hr => ?_
      exact (ho s₁ rfl).trans (hs₂.trans hr)

/-- A list is put back without the blockers that went. -/
theorem unblockList_time {β : Type} {blockers : BlockerList β} {tryUnblock : Scheduler → β → Except Failure (Option Scheduler)}
    (h : TriesAtOnce tryUnblock) (hset : ∀ s l, TakesNoTime s (blockers.set s l)) (s : Scheduler) :
    Yields (fun r => TakesNoTime s r.2) (unblockList blockers tryUnblock s) :=
  Post.bind (unblockLoop_time _ h _ s) fun _ hr => Post.ok (hr.trans (hset _ _))

/-- All eight lists. -/
theorem unblockLists_time (answers : FsAnswers) : ∀ part ∈ unblockLists answers, ∀ s,
    Yields (fun r => TakesNoTime s r.2) (part s) := by
  simp only [unblockLists, List.forall_mem_cons]
  exact ⟨unblockList_time tryUnblockSleep_time fun _ _ => .of_threads rfl rfl rfl,
    unblockList_time (tryUnblockPoll_time answers) fun _ _ => .of_threads rfl rfl rfl,
    unblockList_time (tryUnblockSelect_time answers) fun _ _ => .of_threads rfl rfl rfl,
    unblockList_time (tryUnblockEpollWait_time answers) fun _ _ => .of_threads rfl rfl rfl,
    unblockList_time (tryUnblockFutex_time 0) fun _ _ => .of_threads rfl rfl rfl,
    unblockList_time tryUnblockWait_time fun _ _ => .of_threads rfl rfl rfl,
    unblockList_time (tryUnblockRead_time answers) fun _ _ => .of_threads rfl rfl rfl,
    unblockList_time tryUnblockVmRelease_time fun _ _ => .of_threads rfl rfl rfl, fun _ h => absurd h List.not_mem_nil⟩

/-- The timers are updated, and the eight lists tried. -/
theorem tryUnblockThreads_time (answers : FsAnswers) (s : Scheduler) :
    Yields (fun r => TakesNoTime s r.2) (s.tryUnblockThreads answers) := by
  refine Post.foldlM (p := fun r : Bool × Scheduler => TakesNoTime s r.2) (timers_time s _) fun acc part hpart hacc => ?_
  exact Post.bind (unblockLists_time answers part hpart acc.2) fun r hr => Post.ok (hacc.trans hr)

/-- The loop over the waiters on a futex. -/
theorem wakeLoop_time (wordPtr nbWaiters nbWoken : Nat) (l : List FutexBlocker) (s : Scheduler) :
    Yields (fun r => TakesNoTime s r.2.2) (wakeLoop wordPtr nbWaiters nbWoken l s) := by
  induction l generalizing nbWoken s with
  | nil => exact Post.ok (.refl s)
  | cons blocker l ih =>
    refine Post.bind (tryUnblockFutex_time wordPtr s blocker) fun o ho => ?_
    cases o with
    | none => exact Post.bind (ih nbWoken s) fun _ hr => Post.ok hr
    | some s₁ =>
      refine Post.bind (unblock_time s₁ _ _) fun s₂ hs₂ => ?_
      have hs := (ho s₁ rfl).trans hs₂
      exact Post.ite (fun _ => Post.ok hs) fun _ => Post.mono (ih _ s₂) fun _ hr => hs.trans hr

/-- Waking takes no time. -/
theorem wake_time (s : Scheduler) (wordPtr nbWaiters : Nat) :
    Yields (fun r => TakesNoTime s r.2) (s.wake wordPtr nbWaiters) :=
  Post.skip fun _ => Post.bind (wakeLoop_time _ _ _ _ s) fun _ hr =>
    Post.ok (hr.trans (.of_threads rfl rfl rfl))

/-- The word is written, and one or two futexes are woken. -/
theorem wakeOp_time (s : Scheduler) (thread uaddr : Nat) (val : UInt32) (uaddr2 : Nat) (val2 val3 : UInt32) :
    Yields (fun r => TakesNoTime s r.2) (s.wakeOp thread uaddr val uaddr2 val2 val3) :=
  Post.skip fun _ => Post.skip fun _ => Post.skip fun _ => Post.skip fun m =>
    Post.bind (wake_time { s with memory := m } _ _) fun _ hr => Post.skip fun _ =>
      Post.ite (fun _ => Post.bind (wake_time _ _ _) fun _ hr' => Post.ok ((memory_time s m).trans (hr.trans hr')))
        fun _ => Post.ok ((memory_time s m).trans hr)

end Unblocking

/-! ## Terminating -/

/-- A thread that yields keeps its time. -/
theorem yieldThread_time (s : Scheduler) (t : Nat) : TakesNoTime s (s.yieldThread t) := setThread_time s t fun _ => rfl

/-- Wakes at the end of a thread included. -/
theorem terminate_time (s : Scheduler) (thread : Nat) (status : Int) :
    Yields (TakesNoTime s) (s.terminate thread status) := by
  have hstatus := setThread_time (s.yieldThread thread) thread (f := fun t => { t with exitStatus := status }) fun _ => rfl
  have hstart : TakesNoTime s (((s.yieldThread thread).setThread thread (fun t => { t with exitStatus := status })).eraseBlockers
      thread) := (yieldThread_time s thread).trans (hstatus.trans (.of_threads rfl rfl rfl))
  refine Post.skip fun _ => Post.bind (p := TakesNoTime s) ?_ fun s₁ hs₁ =>
    Post.ok (hs₁.trans (.of_threads rfl rfl rfl))
  exact Post.ite (fun _ => Post.ok hstart) fun _ => Post.skip fun m =>
    Post.bind (wake_time _ _ _) fun _ hr => Post.ok (hstart.trans ((memory_time _ m).trans hr))

/-- One thread after another. -/
theorem terminateAll_time (s : Scheduler) (threads : List Nat) (status : Int) :
    Yields (TakesNoTime s) (s.terminateAll threads status) :=
  Post.foldlM (.refl s) fun s' thread _ hs' => Post.mono (terminate_time s' thread status) fun _ h => hs'.trans h

/-- The threads of a process. -/
theorem terminateGroup_time (s : Scheduler) (process : Nat) (status : Int) :
    Yields (TakesNoTime s) (s.terminateGroup process status) :=
  Post.skip fun _ => terminateAll_time s _ status

/-! ## Blocking -/

section Blocking

variable (s : Scheduler) (thread : Nat)

/-- A thread is put behind a blocker that was made before. -/
theorem blockAndYield_time {s₁ : Scheduler} (h : TakesNoTime s s₁) :
    Yields (TakesNoTime s) (s₁.blockAndYield thread) := by
  refine Post.bind (p := TakesNoTime s₁) (Post.skip fun _ => Post.ok (.of_threads rfl rfl rfl)) fun s₂ hs₂ =>
    Post.ok ?_
  exact h.trans (hs₂.trans (yieldThread_time s₂ thread))

/-- A sleep begins at once. -/
theorem sleep_time (timer : Int) (targetTime : PreciseTime) :
    Yields (TakesNoTime s) (s.sleep thread timer targetTime) :=
  Post.skip fun _ => blockAndYield_time s thread (.of_threads rfl rfl rfl)

/-- A wait on a futex begins at once. -/
theorem wait_time (wordPtr expected timeout : Nat) (absoluteTimeout : Bool) :
    Yields (TakesNoTime s) (s.wait thread wordPtr expected timeout absoluteTimeout) :=
  Post.skip fun _ => Post.skip fun _ => blockAndYield_time s thread (.of_threads rfl rfl rfl)

/-- The time limit of a call may need a timer. -/
theorem withTimeout_time (timeoutInMs : Int) :
    Yields (fun r => TakesNoTime s r.2) (s.withTimeout timeoutInMs) :=
  Post.ite (fun _ => Post.skip fun _ => Post.ok (timers_time s _)) fun _ => Post.ok (.refl s)

/-- A poll begins at once. -/
theorem poll_time (fds nfds : Nat) (timeout : Int) :
    Yields (TakesNoTime s) (s.poll thread fds nfds timeout) :=
  Post.skip fun _ => Post.skip fun _ => Post.bind (withTimeout_time s timeout) fun _ hr =>
    blockAndYield_time s thread (hr.trans (.of_threads rfl rfl rfl))

/-- The time limit of a select is read from memory. -/
theorem selectTimeLimit_time (timeout : Nat) :
    Yields (fun r => TakesNoTime s r.2) (s.selectTimeLimit thread timeout) :=
  Post.skip fun _ => Post.ite (fun _ => Post.ok (timers_time s _)) fun _ => Post.skip fun _ =>
    Post.skip fun _ => Post.ok (timers_time s _)

/-- A select begins at once. -/
theorem select_time (nfds : Int) (readfds writefds exceptfds timeout : Nat) :
    Yields (TakesNoTime s) (s.select thread nfds readfds writefds exceptfds timeout) :=
  Post.skip fun _ => Post.bind (selectTimeLimit_time s thread timeout) fun _ hr =>
    blockAndYield_time s thread (hr.trans (.of_threads rfl rfl rfl))

/-- An epoll wait begins at once. -/
theorem epollWait_time (epfd : Int) (events maxevents : Nat) (timeout : Int) :
    Yields (TakesNoTime s) (s.epollWait thread epfd events maxevents timeout) :=
  Post.skip fun _ => Post.bind (withTimeout_time s timeout) fun _ hr =>
    blockAndYield_time s thread (hr.trans (.of_threads rfl rfl rfl))

/-- A wait for a child begins at once. -/
theorem wait4_time (pid : Int) (wstatus : Nat) : Yields (TakesNoTime s) (s.wait4 thread pid wstatus) :=
  Post.skip fun _ => blockAndYield_time s thread (.of_threads rfl rfl rfl)

/-- A read that blocks begins at once. -/
theorem blockingRead_time (fd : Int) (buf count : Nat) :
    Yields (TakesNoTime s) (s.blockingRead thread fd buf count) :=
  Post.skip fun _ => blockAndYield_time s thread (.of_threads rfl rfl rfl)

/-- A thread is suspended at once. -/
theorem suspendUntilVmReleased_time : Yields (TakesNoTime s) (s.suspendUntilVmReleased thread) :=
  Post.skip fun _ => blockAndYield_time s thread (.of_threads rfl rfl rfl)

end Blocking

/-! ## Creating threads -/

/-- A new thread has no time. -/
theorem addProcessThread_time (s : Scheduler) (p : Nat) : TakesNoTime s (s.addProcessThread p).2 := by
  have hnew : ∀ t, (s.addProcessThread p).2.timeOf t = s.timeOf t ∨
      (s.nbThreads ≤ t ∧ (s.addProcessThread p).2.timeOf t = 0) := by
    intro t
    by_cases ht : t = s.nbThreads
    · refine .inr ⟨Nat.le_of_eq ht.symm, ?_⟩
      unfold addProcessThread timeOf
      cases (s.processAt p).threads.isEmpty <;> simp [Scheduler.setProcess, Scheduler.setThread, allocateId, ht, ThreadTime.zero,
        ThreadTime.total]
    · refine .inl ?_
      unfold addProcessThread timeOf
      cases (s.processAt p).threads.isEmpty <;> simp [Scheduler.setProcess, Scheduler.setThread, allocateId, ht]
  refine ⟨?_, ?_, hnew⟩
  · unfold addProcessThread
    cases (s.processAt p).threads.isEmpty <;> rfl
  · unfold addProcessThread
    cases (s.processAt p).threads.isEmpty
    · exact Nat.le_succ _
    · exact Nat.le_succ _

/-- A new thread or process. -/
theorem createClone_time (s : Scheduler) (current : Nat) (flags : CloneFlags) :
    Yields (fun r => TakesNoTime s r.2) (s.createClone current flags) := by
  refine Post.ite (fun _ => Post.skip fun _ => Post.skip fun _ => Post.skip fun _ => Post.ok (addProcessThread_time s _))
    fun _ => Post.skip fun _ => ?_
  have hprocess : TakesNoTime s (s.cloneProcess (s.processOf current) flags.cloneVm).2 := .of_threads rfl rfl rfl
  refine Post.ite (fun _ => Post.ok hprocess) fun _ => ?_
  have hthread := hprocess.trans (addProcessThread_time _ (s.cloneProcess (s.processOf current) flags.cloneVm).1)
  refine Post.bind (p := TakesNoTime s) ?_ fun s' hs' => Post.ok hs'
  exact Post.ite (fun _ => Post.mono (suspendUntilVmReleased_time _ current) fun _ h => hthread.trans h) fun _ => Post.ok hthread

/-- The registers of a new thread. -/
theorem setUpClone_time (s : Scheduler) (newThread : Nat) (flags : CloneFlags) (child_tid : Nat) :
    TakesNoTime s (s.setUpClone newThread flags child_tid) := setThread_time s newThread fun _ => rfl

/-- The number of a new thread goes into memory. -/
theorem storeTid_time (s : Scheduler) (wanted : Bool) (space address newThread : Nat) :
    Yields (TakesNoTime s) (s.storeTid wanted space address newThread) :=
  Post.ite (fun _ => Post.skip fun m => Post.ok (memory_time s m)) fun _ => Post.ok (.refl s)

/-- A new thread is listed. -/
theorem addThread_time (s : Scheduler) (thread : Nat) : TakesNoTime s (s.addThread thread) := .of_threads rfl rfl rfl

/-! ## Calls -/

section Calls

variable (s : Scheduler) (current : Nat)

/-- `Sys::clone` -/
theorem clone_time (flags : CloneFlags) (stack parent_tid child_tid : Nat) :
    Yields (fun r => TakesNoTime s r.2) (s.clone current flags stack parent_tid child_tid) := by
  refine Post.bind (createClone_time s current flags) fun (o, s₁) hs₁ => ?_
  cases o with
  | none => exact Post.ok hs₁
  | some newThread =>
    refine Post.skip fun _ => Post.bind (storeTid_time _ _ _ _ _) fun s₂ hs₂ =>
      Post.bind (storeTid_time _ _ _ _ newThread) fun s₃ hs₃ => Post.ok ?_
    exact hs₁.trans ((setUpClone_time _ _ _ _).trans (hs₂.trans (hs₃.trans (addThread_time _ _))))

/-- `Sys::clone3` -/
theorem clone3_time (flags : CloneFlags) (child_tid : Nat) :
    Yields (fun r => TakesNoTime s r.2) (s.clone3 current flags child_tid) := by
  refine Post.bind (createClone_time s current flags) fun (o, s₁) hs₁ => ?_
  cases o with
  | none => exact Post.ok hs₁
  | some newThread =>
    refine Post.bind (storeTid_time _ _ _ _ _) fun s₂ hs₂ => Post.bind (storeTid_time _ _ _ _ newThread) fun s₃ hs₃ =>
      Post.ok ?_
    exact hs₁.trans ((setUpClone_time _ _ _ _).trans (hs₂.trans (hs₃.trans (addThread_time _ _))))

/-- A program replaces another one. -/
theorem execve_time (outcome : Except Int (Nat → Option UInt8)) :
    Yields (fun r => TakesNoTime s r.2) (s.execve current outcome) := by
  cases outcome with
  | error ret => exact Post.ok (.refl s)
  | ok image =>
    refine Post.bind (terminateGroup_time s _ _) fun s₁ hs₁ => Post.ok ?_
    have hprepare : TakesNoTime s₁ (s₁.prepareExec (s.processOf current) image) := .of_threads rfl rfl rfl
    exact hs₁.trans (hprepare.trans ((addProcessThread_time _ _).trans (addThread_time _ _)))

/-- A process ends. -/
theorem exit_group_time (status : Int) :
    Yields (fun r => TakesNoTime s r.2) (s.exit_group current status) := by
  refine Post.bind (terminateGroup_time s _ _) fun s₁ hs₁ => Post.bind (p := TakesNoTime s) ?_ fun s₂ hs₂ => Post.ok hs₂
  unfold notifyExit
  split
  · exact Post.ok hs₁
  · exact Post.skip fun _ => Post.ok (hs₁.trans (setProcess_time _ _ _))

/-- The call waits, or says that there is no child. -/
theorem waitForChild_time (pid : Int) (wstatus : Nat) :
    Yields (fun r => TakesNoTime s r.2) (s.waitForChild current pid wstatus) :=
  Post.bind (wait4_time s current pid wstatus) fun _ h => Post.ok h

/-- A child that has exited is reported without waiting. -/
theorem sysWait4_time (pid : Int) (wstatus : Nat) (options : WaitOptions) :
    Yields (fun r => TakesNoTime s r.2) (s.sysWait4 current pid wstatus options) := by
  refine Post.ite (fun _ => Post.ok (.refl s)) fun _ => Post.ite (fun _ => ?_) fun _ =>
    Post.ite (fun _ => Post.ok (.refl s)) fun _ => waitForChild_time s current pid wstatus
  refine Post.bind (tryRetrieveAnyExitedChild_time s _) fun found hfound => ?_
  cases found with
  | none => exact waitForChild_time s current pid wstatus
  | some found => exact Post.ok (hfound _ rfl)

/-- A word that is as expected makes the thread wait. -/
theorem futexWait_time (uaddr val timeout : Nat) (absoluteTimeout : Bool) :
    Yields (fun r => TakesNoTime s r.2) (s.futexWait current uaddr val timeout absoluteTimeout) :=
  Post.skip fun _ => Post.ite (fun _ => Post.ok (.refl s)) fun _ =>
    Post.bind (wait_time (s.syncTimer 0) current _ _ _ _) fun _ h => Post.ok ((timers_time s _).trans h)

/-- Waiting and waking on futexes. -/
theorem futex_time (uaddr futex_op : Nat) (val : UInt32) (timeout uaddr2 : Nat) (val3 : UInt32) :
    Yields (fun r => TakesNoTime s r.2) (s.futex current uaddr futex_op val timeout uaddr2 val3) :=
  Post.ite (fun _ => futexWait_time s current _ _ _ _) fun _ =>
    Post.ite (fun _ => Post.bind (wake_time s _ _) fun _ h => Post.ok h) fun _ =>
    Post.ite (fun _ => Post.bind (wakeOp_time s _ _ _ _ _ _) fun _ h => Post.ok h) fun _ =>
    Post.ite (fun _ => Post.ok (.refl s)) fun _ =>
    Post.ite (fun _ => futexWait_time s current _ _ _ _) fun _ => Post.error id

/-- A sleep on one of the clocks. -/
theorem clock_nanosleep_time (clockid : Int) (request : Nat) :
    Yields (fun r => TakesNoTime s r.2) (s.clock_nanosleep current clockid request) :=
  Post.ite (fun _ => Post.ok (timers_time s _)) fun _ => Post.skip fun _ => Post.skip fun _ =>
    Post.skip fun _ => Post.bind (sleep_time _ current _ _) fun _ h =>
    Post.ok ((timers_time s _).trans ((timers_time _ _).trans h))

/-- The time limit is read from memory. -/
theorem ppoll_time (fds nfds tmo_p : Nat) :
    Yields (fun r => TakesNoTime s r.2) (s.ppoll current fds nfds tmo_p) :=
  Post.ite (fun _ => Post.bind (poll_time _ current _ _ _) fun _ h => Post.ok ((timers_time s _).trans h)) fun _ =>
    Post.skip fun _ => Post.skip fun _ => Post.bind (poll_time _ current _ _ _) fun _ h =>
    Post.ok ((timers_time s _).trans h)

/-- A select that is answered at once does not block. -/
theorem sysSelect_time (nfds : Int) (readfds writefds exceptfds timeout : Nat) (result : FsAnswer) :
    Yields (fun r => TakesNoTime s r.2)
      (s.sysSelect current nfds readfds writefds exceptfds timeout result) :=
  Post.skip fun _ => Post.ite (fun _ => Post.ok ((timers_time s _).trans (memory_time _ _))) fun _ =>
    Post.bind (select_time _ current _ _ _ _ _) fun _ h => Post.ok ((timers_time s _).trans h)

/-- No call takes time. -/
theorem invoke_time (call : Syscall) : Yields (fun r => TakesNoTime s r.2) (s.invoke current call) := by
  cases call with
  | read fd buf count result =>
    cases result with
    | none => exact Post.bind (blockingRead_time s current fd buf count) fun _ h => Post.ok h
    | some result => exact Post.ok (memory_time s _)
  | poll fds nfds timeout result =>
    exact Post.ite (fun _ => Post.ok (memory_time s _)) fun _ => Post.bind (poll_time s current fds nfds timeout) fun _ h => Post.ok h
  | ppoll fds nfds tmo_p => exact ppoll_time s current fds nfds tmo_p
  | select nfds readfds writefds exceptfds timeout result => exact sysSelect_time s current _ _ _ _ _ _
  | epoll_wait epfd events maxevents timeout result =>
    exact Post.ite (fun _ => Post.ok (.refl s)) fun _ => Post.ite (fun _ => Post.ok (.refl s)) fun _ =>
      Post.ite (fun _ => Post.ok (memory_time s _)) fun _ => Post.bind (epollWait_time s current _ _ _ _) fun _ h => Post.ok h
  | clock_nanosleep clockid request => exact clock_nanosleep_time s current clockid request
  | clock_gettime clockid store => exact Post.ok ((timers_time s _).trans (memory_time _ _))
  | futex uaddr futex_op val timeout uaddr2 val3 => exact futex_time s current _ _ _ _ _ _
  | clone flags stack parent_tid child_tid => exact clone_time s current _ _ _ _
  | clone3 flags parent_tid child_tid => exact clone3_time s current _ _
  | execve outcome => exact execve_time s current outcome
  | exit status => exact Post.bind (terminate_time s current status) fun _ h => Post.ok h
  | exit_group status => exact exit_group_time s current status
  | wait4 pid wstatus options => exact sysWait4_time s current _ _ _
  | tgkill tgid tid => exact Post.bind (terminateAll_time s _ 516) fun _ h => Post.ok h
  | set_tid_address ptr => exact Post.ok (setThread_time s current (f := fun t => { t with clearChildTid := ptr }) fun _ => rfl)
  | sched_yield => exact Post.ok (yieldThread_time s current)
  | other ret store => exact Post.ok (memory_time s _)

/-- No system call takes time. -/
theorem syscall_time (call : Syscall) : Yields (TakesNoTime s) (s.syscall current call) :=
  Post.bind (invoke_time s current call) fun _ h => Post.ok (h.trans (setThread_time _ _ fun _ => rfl))

end Calls

end Scheduler

end X64Emulator
