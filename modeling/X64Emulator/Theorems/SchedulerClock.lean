import X64Emulator.Lemmas.Clock
import X64Emulator.Lemmas.ContextSwitch
import X64Emulator.Lemmas.Time

/-!
# The scheduler's clock

The time of the scheduler is behind no thread but those in the run loops, which bring it up to date before every run of
instructions and when they end. So a thread that begins a slice is not ahead of it. Counts of nanoseconds wrap around at `2 ^ 64`:
the condition on a run is that none of them gets that far.
-/

namespace X64Emulator

open Outcome

/-- The job that a worker runs in a loop. -/
def WorkerState.looping : WorkerState → Option Job
  | .userspace job => some job
  | .atomic job => some job
  | _ => none

theorem WorkerState.held_of_looping {w : WorkerState} {job : Job} (h : w.looping = some job) : w.held = some job := by
  cases w with
  | userspace job' => exact h
  | atomic job' => exact h
  | idle => cases h
  | picked job' => cases h
  | kernel job' isDone => cases h
  | exited => cases h

namespace Scheduler

variable {s s' : Scheduler} {thread : Nat}

/-- No time goes back. -/
structure Advances (s s' : Scheduler) : Prop where
  notBefore : s'.currentTime.lt s.currentTime = false
  current : s.currentTime.total ≤ s'.currentTime.total
  times : ∀ t < s.nbThreads, s.timeOf t ≤ s'.timeOf t

theorem lt_self (t : PreciseTime) : t.lt t = false := by
  unfold PreciseTime.lt
  simp

theorem Advances.trans {s'' : Scheduler} (h : Advances s s') (hn : s.nbThreads ≤ s'.nbThreads)
    (hcurrent : s'.currentTime = s.currentTime) (h' : Advances s' s'') : Advances s s'' :=
  ⟨hcurrent ▸ h'.notBefore, Nat.le_trans h.current h'.current, fun t ht =>
    Nat.le_trans (h.times t ht) (h'.times t (Nat.lt_of_lt_of_le ht hn))⟩

theorem TakesNoTime.advances (h : TakesNoTime s s') : Advances s s' := by
  refine ⟨?_, ?_, fun t ht => ?_⟩
  · rw [h.current]
    exact lt_self _
  · exact Nat.le_of_eq (congrArg PreciseTime.total h.current.symm)
  · rcases h.times t with hsame | ⟨hnew, -⟩
    · exact Nat.le_of_eq hsame.symm
    · exact absurd ht (Nat.not_lt.2 hnew)

/-- The time a thread is brought up to date with. -/
theorem threadTime_spec {ns : Nat} (h : ns < 2 ^ 64) :
    (PreciseTime.zero.add (TimeDifference.fromNanoSeconds ns)).carried ∧
      (PreciseTime.zero.add (TimeDifference.fromNanoSeconds ns)).total = ns := by
  have htotal := TimeDifference.total_fromNanoSeconds ns
  have hzero : PreciseTime.zero.total = 0 := rfl
  have hfits : PreciseTime.zero.total + (TimeDifference.fromNanoSeconds ns).total < 2 ^ 64 := by omega
  refine ⟨PreciseTime.carried_add hfits, ?_⟩
  rw [PreciseTime.total_add hfits, hzero, Nat.zero_add, htotal]

/-- The clock and the threads fit their counters. -/
structure Fits (s : Scheduler) : Prop where
  carried : s.currentTime.carried
  current : s.currentTime.total < 2 ^ 64
  times : ∀ t, s.timeOf t < 2 ^ 64

theorem TakesNoTime.fits (h : TakesNoTime s s') (hs : s.Fits) : s'.Fits := by
  refine ⟨h.current ▸ hs.carried, h.current ▸ hs.current, fun t => ?_⟩
  rcases h.times t with hsame | ⟨-, hzero⟩
  · rw [hsame]
    exact hs.times t
  · rw [hzero]
    decide

/-- The clock is set to a later time. -/
theorem Fits.later (hs : s.Fits) {time : PreciseTime} (hcarried : time.carried) (hlt : time.total < 2 ^ 64) :
    Fits { s with currentTime := s.currentTime.max time } ∧ Advances s { s with currentTime := s.currentTime.max time } ∧
      time.total ≤ (s.currentTime.max time).total := by
  have htotal := PreciseTime.total_max hs.carried hcarried
  refine ⟨⟨PreciseTime.carried_max hs.carried hcarried, ?_, hs.times⟩, ⟨PreciseTime.max_not_lt _ _, ?_, fun t _ => Nat.le_refl _⟩, ?_⟩
  · rw [htotal]
    exact Nat.max_lt.2 ⟨hs.current, hlt⟩
  · rw [htotal]
    exact Nat.le_max_left _ _
  · rw [htotal]
    exact Nat.le_max_right _ _

theorem Fits.sync (hs : s.Fits) (thread : Nat) : (s.syncThreadTimeSlice thread).Fits ∧
    Advances s (s.syncThreadTimeSlice thread) ∧ s.timeOf thread ≤ (s.syncThreadTimeSlice thread).currentTime.total := by
  have hns : (s.threadAt thread).time.ns = s.timeOf thread := ThreadTime.ns_eq (hs.times thread)
  obtain ⟨hcarried, htotal⟩ := threadTime_spec (hs.times thread)
  unfold syncThreadTimeSlice
  rw [hns]
  generalize PreciseTime.zero.add (TimeDifference.fromNanoSeconds (s.timeOf thread)) = time at hcarried htotal ⊢
  rw [← htotal]
  exact hs.later hcarried (by rw [htotal]; exact hs.times thread)

theorem Fits.advanceTime (hs : s.Fits) (hfits : s.currentTime.total + 1000000 < 2 ^ 64) :
    s.advanceTime.Fits ∧ Advances s s.advanceTime := by
  have hms := TimeDifference.total_fromNanoSeconds 1000000
  have hadd : s.currentTime.total + (TimeDifference.fromNanoSeconds 1000000).total < 2 ^ 64 := by rwa [hms]
  have htotal := PreciseTime.total_add hadd
  obtain ⟨hlater, hadvances, -⟩ := hs.later (PreciseTime.carried_add hadd) (by rw [htotal]; exact hadd)
  exact ⟨hlater, hadvances⟩

theorem timeOf_advanceTime (s : Scheduler) (t : Nat) : s.advanceTime.timeOf t = s.timeOf t := by
  unfold timeOf advanceTime
  rfl

theorem timeOf_setThread (s : Scheduler) (t : Nat) (f : Thread → Thread) (u : Nat) :
    (s.setThread t f).timeOf u = if u = t then (f (s.threadAt t)).time.total else s.timeOf u := by
  unfold timeOf setThread
  simp only
  split
  · next h => rw [h]
  · rfl

/-- A thread that is not ahead of the clock gets the time of the clock. -/
theorem setSlice_post (hs : s.Fits) (hle : s.timeOf thread ≤ s.currentTime.total) (sliceDuration : Nat) :
    Post (fun _ => True) (fun s' => s'.currentTime = s.currentTime ∧
      ∀ t, s'.timeOf t = if t = thread then s.currentTime.total else s.timeOf t) (s.setSlice s.currentTime thread sliceDuration) := by
  have hcount := PreciseTime.count_eq hs.current
  obtain ⟨time, htime, htotal⟩ := ThreadTime.setSlice_eq_some (hcount ▸ hle) (hcount ▸ hs.current) sliceDuration
  unfold Scheduler.setSlice
  rw [htime]
  refine Post.ok ⟨rfl, fun t => ?_⟩
  rw [timeOf_setThread, htotal, hcount]

end Scheduler

namespace System

open WorkerState Scheduler

variable {P : Prop} {sys : System} {worker : Nat} {w w' : WorkerState} {s : Scheduler}

/-- A worker runs the thread in a loop. -/
def Looping (sys : System) (t : Nat) : Prop := ∃ w ∈ sys.workers, ∃ job, w.looping = some job ∧ job.thread = t

/-- The clock is behind no thread but those in a loop. -/
structure OnTime (sys : System) : Prop where
  fits : sys.scheduler.Fits
  behind : ∀ t, ¬ sys.Looping t → sys.scheduler.timeOf t ≤ sys.scheduler.currentTime.total

/-- The counts of nanoseconds do not wrap around in the step, and the unlocked read of the clock gets the words of one value. -/
def WithinClock (sys : System) : WorkerAction → Prop
  | .tryPickNext _ _ => sys.scheduler.currentTime.total + 1000000 < 2 ^ 64
  | .execute worker slice => ∀ w ∈ sys.workers[worker]?, ∀ job ∈ w.looping,
      sys.scheduler.timeOf job.thread + slice.ticks < 2 ^ 64
  | .start _ torn => torn = none
  | _ => True

instance : DecidablePred sys.WithinClock
  | .tryPickNext _ _ => inferInstanceAs (Decidable (_ < _))
  | .execute _ _ => inferInstanceAs (Decidable (∀ w ∈ _, ∀ job ∈ _, _))
  | .start _ _ => inferInstanceAs (Decidable (_ = _))
  | .syscall _ _ | .stop _ | .crash _ | .interrupt _ => inferInstanceAs (Decidable True)

/-- A step that leaves the clock on time and lets no time go back. -/
structure KeepsTime (sys sys' : System) : Prop where
  onTime : sys'.OnTime
  advances : Advances sys.scheduler sys'.scheduler

theorem OnTime.keepsTime (h : sys.OnTime) : KeepsTime sys sys := ⟨h, (TakesNoTime.refl _).advances⟩

/-- A worker that is not in a loop any more has brought its thread up to date with the clock. -/
theorem looping_setWorker (hw : sys.workers[worker]? = some w) {t : Nat} (h : sys.Looping t) :
    (sys.setWorker worker w' s).Looping t ∨ ∃ job, w.looping = some job ∧ job.thread = t := by
  obtain ⟨v, hv, job, hjob, hthread⟩ := h
  have hlt := (List.getElem?_eq_some_iff.1 hw).1
  obtain ⟨i, hi⟩ := List.mem_iff_getElem?.1 hv
  by_cases hne : worker = i
  · subst hne
    obtain rfl := Option.some.inj (hw.symm.trans hi)
    exact .inr ⟨job, hjob, hthread⟩
  · refine .inl ⟨v, List.mem_iff_getElem?.2 ⟨i, ?_⟩, job, hjob, hthread⟩
    rw [setWorker, List.getElem?_set_ne hne]
    exact hi

theorem OnTime.set (hw : sys.workers[worker]? = some w) (hfits : s.Fits)
    (hbehind : ∀ t, ¬ sys.Looping t → s.timeOf t ≤ s.currentTime.total)
    (hleft : ∀ job, w.looping = some job → w'.looping = some job ∨ s.timeOf job.thread ≤ s.currentTime.total) :
    (sys.setWorker worker w' s).OnTime := by
  refine ⟨hfits, fun t ht => ?_⟩
  by_cases hloop : sys.Looping t
  · rcases looping_setWorker hw hloop with h | ⟨job, hjob, rfl⟩
    · exact absurd h ht
    · rcases hleft job hjob with hstays | hle
      · have hlt := (List.getElem?_eq_some_iff.1 hw).1
        exact absurd ⟨w', List.mem_set hlt w', job, hstays, rfl⟩ ht
      · exact hle
  · exact hbehind t hloop

theorem OnTime.behind_of (h : sys.OnTime) (hs : TakesNoTime sys.scheduler s) {t : Nat} (ht : ¬ sys.Looping t) :
    s.timeOf t ≤ s.currentTime.total := by
  rw [hs.current]
  rcases hs.times t with hsame | ⟨-, hzero⟩
  · rw [hsame]
    exact h.behind t ht
  · rw [hzero]
    exact Nat.zero_le _

/-- A step that takes no time, of a worker that is in no loop. -/
theorem OnTime.takesNoTime (h : sys.OnTime) (hw : sys.workers[worker]? = some w) (hloop : w.looping = none)
    (hs : TakesNoTime sys.scheduler s) : KeepsTime sys (sys.setWorker worker w' s) := by
  refine ⟨OnTime.set hw (hs.fits h.fits) (fun t ht => h.behind_of hs ht) fun job hjob => ?_, hs.advances⟩
  rw [hloop] at hjob
  cases hjob

theorem tryPickNext_time (h : sys.OnTime) {answers : FsAnswers} (hidle : sys.workers[worker]? = some .idle)
    (hwithin : sys.WithinClock (.tryPickNext worker answers)) :
    Yields (KeepsTime sys) (sys.exec (.tryPickNext worker answers)) := by
  have hkeeps : ∀ w' s, TakesNoTime sys.scheduler s → KeepsTime sys (sys.setWorker worker w' s) := fun w' s hs =>
    h.takesNoTime hidle rfl hs
  have hadvance : ∀ s, TakesNoTime sys.scheduler s → KeepsTime sys (sys.setWorker worker .idle s.advanceTime) := by
    intro s hs
    have hwithin' : s.currentTime.total + 1000000 < 2 ^ 64 := by
      rw [hs.current]
      exact hwithin
    obtain ⟨hfits, hadvances⟩ := (hs.fits h.fits).advanceTime hwithin'
    refine ⟨OnTime.set hidle hfits (fun t ht => ?_) (by simp [looping]), ?_⟩
    · rw [timeOf_advanceTime]
      exact Nat.le_trans (h.behind_of hs ht) hadvances.current
    · exact hs.advances.trans hs.nbThreads hs.current hadvances
  unfold exec Scheduler.tryPickNext
  refine Post.bind (p := fun r => KeepsTime sys (sys.setWorker worker (afterPick r.1) r.2)) ?_ fun _ hr => Post.ok hr
  refine Post.ite (fun _ => Post.ok (hkeeps _ _ (.refl _))) fun _ => Post.bind (tryUnblockThreads_time answers _)
    fun (didUnblock, s) hs => Post.ite (fun _ => Post.ok (hkeeps _ _ hs)) fun _ => Post.skip fun _ =>
    Post.ite (fun _ => Post.ok (hkeeps _ _ hs)) fun _ => ?_
  cases s.findThreadToRun (canRunSyscalls worker) with
  | none =>
    refine Post.ok ?_
    split
    · exact hadvance s hs
    · exact hkeeps _ s hs
  | some thread => exact Post.ok (hkeeps _ _ (hs.trans (.of_threads rfl rfl rfl)))

/-- A job that was picked runs in no loop yet. -/
theorem Inv.not_looping {job : Job} (hinv : sys.Inv P) (hpicked : sys.workers[worker]? = some (.picked job)) :
    ¬ sys.Looping job.thread := by
  rintro ⟨v, hv, job', hlooping, hthread⟩
  obtain ⟨i, hi⟩ := List.mem_iff_getElem?.1 hv
  obtain rfl := hinv.worker_eq hpicked rfl hi (held_of_looping hlooping) hthread.symm
  obtain rfl := Option.some.inj (hpicked.symm.trans hi)
  cases hlooping

/-- A thread that begins a slice gets the time of the clock. -/
theorem OnTime.begins {job : Job} (h : sys.OnTime) (hw : sys.workers[worker]? = some w)
    (hloop : w.looping = none) (hnot : ¬ sys.Looping job.thread) (hcurrent : s.currentTime = sys.scheduler.currentTime)
    (htimes : ∀ t, s.timeOf t = if t = job.thread then sys.scheduler.currentTime.total else sys.scheduler.timeOf t) :
    KeepsTime sys (sys.setWorker worker w' s) := by
  have hfits : s.Fits := by
    refine ⟨hcurrent ▸ h.fits.carried, hcurrent ▸ h.fits.current, fun t => ?_⟩
    rw [htimes]
    split
    · exact h.fits.current
    · exact h.fits.times t
  refine ⟨OnTime.set hw hfits (fun t ht => ?_) fun job' hjob' => ?_, ?_, ?_, fun t _ => ?_⟩
  · rw [hcurrent, htimes]
    split
    · exact Nat.le_refl _
    · exact h.behind t ht
  · rw [hloop] at hjob'
    cases hjob'
  · show s.currentTime.lt sys.scheduler.currentTime = false
    rw [hcurrent]
    exact lt_self _
  · exact Nat.le_of_eq (congrArg PreciseTime.total hcurrent.symm)
  · show sys.scheduler.timeOf t ≤ s.timeOf t
    rw [htimes]
    split
    · next heq => exact heq ▸ h.behind _ hnot
    · exact Nat.le_refl _

theorem start_time (h : sys.OnTime) (hinv : sys.Inv P) :
    Yields (KeepsTime sys) (sys.exec (.start worker)) := by
  unfold exec
  simp only
  split
  · next job hpicked =>
    have hnot := hinv.not_looping hpicked
    have hslice : ∀ sliceDuration, Yields (fun s' => s'.currentTime = sys.scheduler.currentTime ∧
        ∀ t, s'.timeOf t = if t = job.thread then sys.scheduler.currentTime.total else sys.scheduler.timeOf t)
        (sys.scheduler.countJob.setSlice sys.scheduler.currentTime job.thread sliceDuration) := fun sliceDuration =>
      (setSlice_post (s := sys.scheduler.countJob) ⟨h.fits.carried, h.fits.current, h.fits.times⟩ (h.behind _ hnot)
        sliceDuration).anti (by simp)
    refine Post.ite (fun _ => Post.bind (p := TakesNoTime sys.scheduler) ?_ fun s hs => Post.ok ?_) fun _ =>
      Post.ite (fun _ => Post.bind (hslice _) fun s hs => Post.ok ?_) fun _ => Post.bind (Post.skip fun _ =>
        hslice _) fun s hs => Post.ok ?_
    · exact Post.skip fun _ => Post.ok (.of_threads rfl rfl rfl)
    · exact h.takesNoTime hpicked rfl hs
    · exact h.begins hpicked rfl hnot hs.1 hs.2
    · exact h.begins hpicked rfl hnot hs.1 hs.2
  · exact Post.ok h.keepsTime

/-- A run of instructions of a thread in a loop. -/
theorem OnTime.runSlice {job : Job} {slice : Slice} (h : sys.OnTime) (hw : sys.workers[worker]? = some w)
    (hloop : w.looping = some job) (hfits : sys.scheduler.timeOf job.thread + slice.ticks < 2 ^ 64) :
    KeepsTime sys { sys with scheduler := sys.scheduler.runSlice job.thread slice } := by
  obtain ⟨hsynced, hadvances, -⟩ := h.fits.sync job.thread
  have hcurrent : (sys.scheduler.runSlice job.thread slice).currentTime =
      (sys.scheduler.syncThreadTimeSlice job.thread).currentTime := rfl
  have htimes : ∀ t, (sys.scheduler.runSlice job.thread slice).timeOf t =
      if t = job.thread then sys.scheduler.timeOf job.thread + slice.ticks else sys.scheduler.timeOf t := by
    intro t
    unfold Scheduler.runSlice
    rw [timeOf_setThread]
    split
    · show ThreadTime.total _ = _
      split
      · exact ThreadTime.total_tick hfits
      · exact ThreadTime.total_tick hfits
      · exact ThreadTime.total_tick hfits
    · rfl
  have hlooping : sys.Looping job.thread := ⟨w, List.mem_of_getElem? hw, job, hloop, rfl⟩
  refine ⟨⟨⟨hcurrent ▸ hsynced.carried, hcurrent ▸ hsynced.current, fun t => ?_⟩, fun t ht => ?_⟩, hcurrent ▸ hadvances.notBefore,
    hcurrent ▸ hadvances.current, fun t _ => ?_⟩
  · rw [htimes]
    split
    · exact hfits
    · exact h.fits.times t
  · have hne : t ≠ job.thread := fun heq => ht (heq ▸ hlooping)
    rw [htimes, if_neg hne, hcurrent]
    exact Nat.le_trans (h.behind t ht) hadvances.current
  · rw [htimes]
    split
    · next heq => exact heq ▸ Nat.le_add_right _ _
    · exact Nat.le_refl _

theorem stopRunningThread_time (s : Scheduler) (thread : Nat) : TakesNoTime s (s.stopRunningThread thread) := by
  unfold stopRunningThread
  split
  · exact .of_threads rfl rfl rfl
  · exact .refl s

/-- A thread that leaves its loop brings the clock up to date. -/
theorem OnTime.ends {job : Job} {s' : Scheduler} (h : sys.OnTime) (hw : sys.workers[worker]? = some w)
    (hloop : w.looping = some job) (hs : TakesNoTime sys.scheduler s)
    (hcurrent : s'.currentTime = (s.syncThreadTimeSlice job.thread).currentTime) (hthreads : s'.threadAt = s.threadAt) :
    KeepsTime sys (sys.setWorker worker w' s') := by
  obtain ⟨hsynced, hadvances, hle⟩ := (hs.fits h.fits).sync job.thread
  have htimes : ∀ t, s'.timeOf t = s.timeOf t := fun t => by rw [timeOf, hthreads]; rfl
  have hfits : s'.Fits := ⟨hcurrent ▸ hsynced.carried, hcurrent ▸ hsynced.current, fun t => htimes t ▸ hsynced.times t⟩
  refine ⟨OnTime.set hw hfits (fun t ht => ?_) fun job' hjob' => .inr ?_, hs.advances.trans hs.nbThreads hs.current ?_⟩
  · rw [htimes, hcurrent]
    exact Nat.le_trans (h.behind_of hs ht) hadvances.current
  · obtain rfl := Option.some.inj (hloop.symm.trans hjob')
    rw [htimes, hcurrent]
    exact hle
  · exact ⟨hcurrent ▸ hadvances.notBefore, hcurrent ▸ hadvances.current, fun t _ => Nat.le_of_eq (htimes t).symm⟩

theorem OnTime.endUserspace {job : Job} (h : sys.OnTime) (hw : sys.workers[worker]? = some w) (hloop : w.looping = some job)
    (hs : TakesNoTime sys.scheduler s) : KeepsTime sys (sys.setWorker worker w' (s.endUserspace job.thread)) := by
  refine h.ends hw hloop (hs.trans (stopRunningThread_time s job.thread)) ?_ ?_
  · unfold Scheduler.endUserspace
    rfl
  · unfold Scheduler.endUserspace syncThreadTimeSlice
    rfl

/-- The same for a thread whose instructions fail. -/
theorem OnTime.panic {s : Scheduler} (h : KeepsTime sys (sys.setWorker worker w s)) :
    KeepsTime sys (sys.setWorker worker w { s with hasPanicked := true }) :=
  ⟨⟨⟨h.onTime.fits.carried, h.onTime.fits.current, h.onTime.fits.times⟩, h.onTime.behind⟩,
    h.advances.notBefore, h.advances.current, h.advances.times⟩

theorem stop_time (h : sys.OnTime) : Yields (KeepsTime sys) (sys.exec (.stop worker)) := by
  unfold exec
  simp only
  split
  · next job hw => exact Post.ok (h.endUserspace hw rfl (.refl _))
  · next job hw => exact Post.ok (h.endUserspace hw rfl (setThread_time _ _ fun _ => rfl))
  · next job hw =>
    exact Post.ok (h.takesNoTime hw rfl ((stopRunningThread_time _ job.thread).trans (.of_threads rfl rfl rfl)))
  · exact Post.ok h.keepsTime

theorem crash_time (h : sys.OnTime) : Yields (KeepsTime sys) (sys.exec (.crash worker)) := by
  unfold exec
  simp only
  split
  · next job hw => exact Post.ok (OnTime.panic (h.endUserspace hw rfl (.refl _)))
  · next job hw => exact Post.ok (OnTime.panic (h.endUserspace hw rfl (.refl _)))
  · exact Post.ok h.keepsTime

theorem exec_time (h : sys.OnTime) (hinv : sys.Inv P) {action : WorkerAction} (henabled : sys.enabled action = true)
    (hwithin : sys.WithinClock action) : Yields (KeepsTime sys) (sys.exec action) := by
  cases action with
  | tryPickNext worker answers =>
    simp only [enabled, Bool.and_eq_true, decide_eq_true_eq] at henabled
    exact tryPickNext_time h henabled.1.1 hwithin
  | start worker torn =>
    obtain rfl : torn = none := hwithin
    exact start_time h hinv
  | execute worker slice =>
    unfold exec
    simp only
    split
    · next job hw => exact Post.ok (h.runSlice hw rfl (hwithin _ hw job rfl))
    · next job hw => exact Post.ok (h.runSlice hw rfl (hwithin _ hw job rfl))
    · exact Post.ok h.keepsTime
  | syscall worker call =>
    unfold exec
    simp only
    split
    · next job hw => exact Post.bind (syscall_time _ _ call) fun s hs => Post.ok (h.takesNoTime hw rfl hs)
    · exact Post.ok h.keepsTime
  | stop worker => exact stop_time h
  | crash worker => exact crash_time h
  | interrupt worker =>
    exact Post.ok (h.takesNoTime (of_decide_eq_true henabled) rfl (.of_threads rfl rfl rfl))

/-! ## Runs -/

theorem initial_onTime (nbCores : Nat) (hostPid : Int) (memory : GuestMemory) : (initial nbCores hostPid memory).OnTime := by
  have hcurrent : (initial nbCores hostPid memory).scheduler.currentTime.total = 0 := by simp [initial, PreciseTime.zero,
    PreciseTime.total]
  have htimes : ∀ t, (initial nbCores hostPid memory).scheduler.timeOf t = 0 := fun t => by simp [initial, timeOf, ThreadTime.zero,
    ThreadTime.total]
  refine ⟨⟨?_, ?_, fun t => ?_⟩, fun t _ => ?_⟩
  · simp [initial, PreciseTime.zero, PreciseTime.carried]
  · rw [hcurrent]
    decide
  · rw [htimes]
    decide
  · rw [htimes]
    exact Nat.zero_le _

theorem reachable_onTime (h : machine.ReachableUnder WithinClock sys) : sys.OnTime := by
  refine h.invariant OnTime ?_ ?_
  · rintro _ ⟨nbCores, hostPid, memory, rfl⟩
    exact initial_onTime nbCores hostPid memory
  · intro sys action sys' hreach honTime hwithin hstep
    obtain ⟨henabled, hexec⟩ := step_some hstep
    exact ((exec_time honTime (reachable_inv hreach) henabled hwithin).of_ok hexec).onTime

/-- In every run in which no count of nanoseconds wraps around and no read of the clock is torn, a step lets neither the time of the scheduler nor that of a thread
go back, and the thread of a job that was picked is not ahead of the clock when its slice begins. -/
theorem clock_advances (h : machine.ReachableUnder WithinClock sys) :
    (∀ action sys', sys.WithinClock action → sys.step action = some sys' →
      sys'.scheduler.currentTime.lt sys.scheduler.currentTime = false ∧
        sys.scheduler.currentTime.count ≤ sys'.scheduler.currentTime.count ∧
          ∀ t < sys.scheduler.nbThreads, (sys.scheduler.threadAt t).time.ns ≤ (sys'.scheduler.threadAt t).time.ns) ∧
      ∀ (worker : Nat) job, sys.workers[worker]? = some (.picked job) → ∀ sliceDuration,
        ((sys.scheduler.threadAt job.thread).time.setSlice sys.scheduler.currentTime.count sliceDuration).isSome = true := by
  have honTime := reachable_onTime h
  have hinv := reachable_inv h.reachable
  refine ⟨fun action sys' hwithin hstep => ?_, fun worker job hpicked sliceDuration => ?_⟩
  · obtain ⟨henabled, hexec⟩ := step_some hstep
    obtain ⟨honTime', hadvances⟩ := (exec_time honTime hinv henabled hwithin).of_ok hexec
    refine ⟨hadvances.notBefore, ?_, fun t ht => ?_⟩
    · rw [PreciseTime.count_eq honTime.fits.current, PreciseTime.count_eq honTime'.fits.current]
      exact hadvances.current
    · rw [ThreadTime.ns_eq (honTime.fits.times t), ThreadTime.ns_eq (honTime'.fits.times t)]
      exact hadvances.times t ht
  · have hbehind := honTime.behind job.thread (hinv.not_looping hpicked)
    have hcount := PreciseTime.count_eq honTime.fits.current
    obtain ⟨time, htime, -⟩ := ThreadTime.setSlice_eq_some (hcount ▸ hbehind)
      (hcount ▸ honTime.fits.current) sliceDuration
    rw [htime]
    rfl

/-- Worker 0 has picked a thread again after it has cloned it. -/
theorem clock_advances_cloned : ∃ sys, machine.ReachableUnder WithinClock sys ∧ sys.workers = [.picked ⟨1, .USERSPACE, false⟩] ∧
    sys.scheduler.currentTime.count = 10 ∧
    ((sys.scheduler.threadAt 1).time.setSlice sys.scheduler.currentTime.count DEFAULT_TIME_SLICE).isSome = true := by
  have hrun : ((machine.checked WithinClock).run (initial 1 100 (fun _ _ => some 0))
      (callTurn (.clone threadFlags 0x1000 0x2000 0x3000) ++ [.tryPickNext 0 silentFiles])).map
        (fun sys => (sys.workers, sys.scheduler.currentTime.count)) = some ([.picked ⟨1, .USERSPACE, false⟩], 10) := by
    decide
  obtain ⟨sys, hsys, heq⟩ := Option.map_eq_some_iff.1 hrun
  obtain ⟨hworkers, hcount⟩ := Prod.mk.inj heq
  have hinit : machine.ReachableUnder WithinClock (initial 1 100 (fun _ _ => some 0)) :=
    Machine.ReachableUnder.init ⟨_, _, _, rfl⟩
  have hreach := hinit.run_checked _ hsys
  exact ⟨sys, hreach, hworkers, hcount, (clock_advances hreach).2 0 ⟨1, .USERSPACE, false⟩ (by rw [hworkers]; rfl) _⟩

/-- A thread that has run before runs until its count of instructions wraps around. -/
theorem clock_advances_fails : ¬ ∀ sys action sys', machine.Reachable sys → sys.step action = some sys' →
    ∀ t < sys.scheduler.nbThreads, (sys.scheduler.threadAt t).time.ns ≤ (sys'.scheduler.threadAt t).time.ns := by
  intro hall
  have hrun : (machine.run (initial 1 100 (fun _ _ => some 0))
      (callTurn .sched_yield ++ [.tryPickNext 0 silentFiles, .start 0])).map (fun sys =>
        (sys.scheduler.nbThreads, (sys.scheduler.threadAt 0).time.ns,
          (sys.step (.execute 0 ⟨2 ^ 64 - 10, none, fun _ => some 0⟩)).map fun sys' => (sys'.scheduler.threadAt 0).time.ns)) =
      some (1, 10, some 0) := by decide
  obtain ⟨sys, hsys, heq⟩ := Option.map_eq_some_iff.1 hrun
  simp only [Prod.mk.injEq] at heq
  obtain ⟨hnb, hns, hnext⟩ := heq
  obtain ⟨sys', hstep, hns'⟩ := Option.map_eq_some_iff.1 hnext
  have hinit : machine.Reachable (initial 1 100 (fun _ _ => some 0)) := Machine.Reachable.init ⟨_, _, _, rfl⟩
  have hreach := hinit.run _ hsys
  have hle := hall sys _ sys' hreach hstep 0 (by rw [hnb]; decide)
  rw [hns, hns'] at hle
  exact absurd hle (by decide)

end System

end X64Emulator
