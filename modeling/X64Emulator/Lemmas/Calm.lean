import X64Emulator.Lemmas.WorkerSteps

/-!
# No wake sees a time limit that has passed

A worker only picks a job when it could unblock no thread, and the threads whose time limit has passed are among those it could
unblock. Time does not pass between the picking of a kernel job and its system call, because nothing runs beside it.
-/

namespace X64Emulator

open Outcome

namespace Scheduler

/-- The time limit of no waiting thread has passed. -/
def Calm (s : Scheduler) : Prop := ∀ blocker ∈ s.futexBlockers, s.expired blocker = false

/-- The timers show the time. -/
def Synced (s : Scheduler) : Prop := ∀ timer ∈ s.timers, timer.now = s.currentTime

theorem Calm.congr {s s' : Scheduler} (h : s.Calm) (htimers : s'.timers = s.timers)
    (hfutex : ∀ blocker ∈ s'.futexBlockers, blocker ∈ s.futexBlockers) : s'.Calm := by
  intro blocker hb
  rw [expired, htimers]
  exact h blocker (hfutex blocker hb)

/-- A loop that wakes no thread has looked at every blocker. -/
theorem unblockLoop_calm (l : List FutexBlocker) (s : Scheduler) :
    Yields (fun r => r.1.length ≤ l.length ∧
      (r.1.length = l.length → ∀ blocker ∈ l, s.expired blocker = false))
      (unblockLoop (·.thread) (tryUnblockFutex 0) l s) := by
  induction l generalizing s with
  | nil => exact Post.ok ⟨Nat.le_refl _, fun _ _ h => absurd h List.not_mem_nil⟩
  | cons blocker l ih =>
    refine Post.bind (tryUnblockFutex_post 0 (by simp)) fun o ho => ?_
    by_cases hcan : s.canUnblock 0 blocker = true
    · rw [if_pos hcan] at ho
      subst ho
      refine Post.bind (unblock_post (by simp) (by simp)) fun s₁ _ => Post.mono (ih s₁) fun r ⟨hle, _⟩ => ?_
      exact ⟨Nat.le_succ_of_le hle, fun heq => absurd (heq ▸ hle) (Nat.not_succ_le_self _)⟩
    · rw [if_neg hcan] at ho
      subst ho
      refine Post.bind (ih s) fun (kept, s₁) ⟨hle, hcalm⟩ => Post.ok ⟨Nat.succ_le_succ hle, fun heq => ?_⟩
      unfold canUnblock at hcan
      rw [Bool.not_eq_true, Bool.or_eq_false_iff] at hcan
      exact List.forall_mem_cons.2 ⟨hcan.1, hcalm (Nat.succ.inj heq)⟩

theorem unblockList_calm (s : Scheduler) :
    Yields (fun r => r.1 = false → s.Calm) (unblockList futexList (tryUnblockFutex 0) s) := by
  refine Post.bind (unblockLoop_calm s.futexBlockers s) fun (kept, s') ⟨hle, hcalm⟩ => Post.ok fun hnone => ?_
  simp only [decide_eq_false_iff_not, Nat.not_lt] at hle hnone
  exact hcalm (Nat.le_antisymm hle hnone)

/-- The parts before and after the one for futexes. -/
theorem unblockLists_eq (answers : FsAnswers) : ∃ before after,
    unblockLists answers = before ++ unblockList futexList (tryUnblockFutex 0) :: after ∧
      (∀ part ∈ before, part ∈ unblockLists answers) ∧ ∀ part ∈ after, part ∈ unblockLists answers := by
  refine ⟨(unblockLists answers).take 4, (unblockLists answers).drop 5, rfl, fun part h => List.mem_of_mem_take h,
    fun part h => List.mem_of_mem_drop h⟩

theorem Woke.currentTime {s s' : Scheduler} {woken : List Nat} (h : Woke s s' woken) : s'.currentTime = s.currentTime :=
  (congrArg Scheduler.currentTime h.bare :)

theorem tryUnblockThreads_calm {P : Prop} {s : Scheduler} (hs : s.Ledger P) (answers : FsAnswers) :
    Yields (fun r => r.1 = false → r.2.Calm ∧ r.2.Synced) (s.tryUnblockThreads answers) := by
  obtain ⟨before, after, heq, hbefore, hafter⟩ := unblockLists_eq answers
  have hs₀ : s.updateTimers.Ledger P := (woke_updateTimers s).ledger hs
  have hpart : ∀ part ∈ unblockLists answers, ∀ acc, Unblocked s.updateTimers acc →
      Yields (Unblocked s.updateTimers) (part acc.2 >>= fun r => .ok (acc.1 || r.1, r.2)) :=
    fun part hmem acc hacc => ((unblockLists_part answers part hmem).post hs₀ hacc).anti (by simp)
  unfold tryUnblockThreads
  rw [heq, List.foldlM_append]
  refine Post.bind (Post.foldlM (p := Unblocked s.updateTimers) (Unblocked.refl _)
    fun acc part hmem => hpart part (hbefore part hmem) acc) ?_
  intro acc hacc
  rw [List.foldlM_cons]
  refine Post.bind (p := fun r => Unblocked s.updateTimers r ∧ (r.1 = false → s.updateTimers.Calm)) (Post.and
    (hpart _ (by rw [heq]; simp) acc hacc) ?_) ?_
  · refine Post.bind (unblockList_calm acc.2) ?_
    intro r hcalm
    refine Post.ok fun hfalse => ?_
    rw [Bool.or_eq_false_iff] at hfalse
    exact (hcalm hfalse.2).congr hacc.timers.symm fun b hb => by rw [hacc.futex hfalse.1]; exact hb
  · intro acc₁ hfirst
    refine Post.mono (Post.foldlM (p := fun r => Unblocked s.updateTimers r ∧ (r.1 = false → acc₁.1 = false))
      ⟨hfirst.1, id⟩ ?_) ?_
    · intro acc part hmem hkept
      refine Post.and (hpart part (hafter part hmem) acc hkept.1) ?_
      cases part acc.2 with
      | error e => exact Post.error id
      | ok r => exact Post.ok fun h => hkept.2 (Bool.or_eq_false_iff.1 h).1
    · intro r hend hfalse
      obtain ⟨hr, hstart⟩ := hend
      obtain ⟨woken, hwoke, -⟩ := hr.woke
      refine ⟨(hfirst.2 (hstart hfalse)).congr hr.timers fun b hb => by rw [← hr.futex hfalse]; exact hb, ?_⟩
      intro timer htimer
      rw [hr.timers] at htimer
      obtain ⟨timer', -, rfl⟩ := List.mem_map.1 htimer
      exact hwoke.currentTime.symm

/-- A job is only picked when no time limit has passed. -/
theorem tryPickNext_calm {P : Prop} {s : Scheduler} (hs : s.Ledger P) (answers : FsAnswers) (canRunSyscalls : Bool) :
    Yields (fun r => ∀ job, r.1 = .RUN job → r.2.Calm ∧ r.2.Synced)
      (s.tryPickNext answers canRunSyscalls) := by
  refine Post.ite (fun _ => Post.ok (by simp)) fun _ => Post.bind (tryUnblockThreads_calm hs answers)
    fun (didUnblock, s') hcalm => Post.ite (fun _ => Post.ok (by simp)) fun hno => Post.bind (Post.check (by simp))
    fun _ _ => Post.ite (fun _ => Post.ok (by simp)) fun _ => ?_
  cases s'.findThreadToRun canRunSyscalls with
  | none => exact Post.ok (by simp)
  | some thread => exact Post.ok fun job _ => hcalm (Bool.eq_false_iff.2 hno)

/-- The update at the beginning of a call changes no timer that shows the time. -/
theorem Synced.updateTimers {s : Scheduler} (h : s.Synced) : s.updateTimers.timers = s.timers := by
  unfold Scheduler.updateTimers updateAllTimers
  exact (List.map_congr_left fun timer htimer => by rw [← h timer htimer]; rfl).trans (List.map_id _)

end Scheduler

namespace System

open Scheduler WorkerState

/-- From the picking of a kernel job to its call, no time limit passes. -/
structure Ready (sys : System) : Prop where
  picked : ∀ job, ¬ job.isUserspaceJob = true → sys.workers[0]? = some (.picked job) →
    sys.scheduler.Calm ∧ sys.scheduler.Synced
  kernel : ∀ job, sys.workers[0]? = some (.kernel job false) → sys.scheduler.Calm ∧ sys.scheduler.inKernel = true

section Ready

variable {P : Prop} {sys : System} {worker : Nat} {w w' : WorkerState} {s : Scheduler}

/-- Worker 0 has picked a job that runs alone, or is about to make a call. -/
def Busy (sys : System) : Prop :=
  ∃ job, (¬ job.isUserspaceJob = true ∧ sys.workers[0]? = some (.picked job)) ∨ sys.workers[0]? = some (.kernel job false)

theorem Ready.of_not_busy {sys' : System} (hbusy : ¬ sys.Busy) (hzero : sys'.workers[0]? = sys.workers[0]?) :
    sys'.Ready := by
  refine ⟨fun job hjob hpicked => ?_, fun job hkernel => ?_⟩
  · exact absurd ⟨job, Or.inl ⟨hjob, hzero ▸ hpicked⟩⟩ hbusy
  · exact absurd ⟨job, Or.inr (hzero ▸ hkernel)⟩ hbusy

theorem Inv.not_busy (h : sys.Inv P) (hw : sys.workers[worker]? = some w) (hrest : ¬ w.IsResting) (hne : worker ≠ 0) :
    ¬ sys.Busy := by
  rintro ⟨job, ⟨hjob, hpicked⟩ | hkernel⟩
  · obtain ⟨-, halone, -⟩ := h.mode.picked_alone hpicked hjob
    exact hrest (halone.others worker w hne hw)
  · obtain ⟨-, halone, -⟩ := h.mode.kernel hkernel
    exact hrest (halone.others worker w hne hw)

theorem setWorker_zero (hne : worker ≠ 0) (w' : WorkerState) (s : Scheduler) :
    (sys.setWorker worker w' s).workers[0]? = sys.workers[0]? :=
  List.getElem?_set_ne hne

/-- Worker 0 takes a step: it is ready if the state it comes to asks for it. -/
theorem Ready.set_zero (hpicked : ∀ job, w' = .picked job → s.Calm ∧ s.Synced)
    (hkernel : ∀ job, w' = .kernel job false → s.Calm ∧ s.inKernel = true) : (sys.setWorker 0 w' s).Ready := by
  have hw' : ∀ v, (sys.setWorker 0 w' s).workers[0]? = some v → w' = v := by
    intro v hv
    rw [setWorker, List.getElem?_set] at hv
    split at hv
    · split at hv
      · exact Option.some.inj hv
      · cases hv
    · exact absurd rfl ‹_›
  exact ⟨fun job _ hv => hpicked job (hw' _ hv), fun job hv => hkernel job (hw' _ hv)⟩

/-- A worker that had a job leaves it, or begins one that does not make a call. -/
theorem Inv.ready_set (h : sys.Inv P) (hw : sys.workers[worker]? = some w) (hrest : ¬ w.IsResting)
    (hpicked : ∀ job, w' ≠ .picked job) (hkernel : ∀ job, w' ≠ .kernel job false) :
    (sys.setWorker worker w' s).Ready := by
  by_cases h0 : worker = 0
  · subst h0
    exact Ready.set_zero (fun job hv => absurd hv (hpicked job)) fun job hv => absurd hv (hkernel job)
  · exact Ready.of_not_busy (h.not_busy hw hrest h0) (setWorker_zero h0 w' s)

/-- While a job that runs alone was picked, the other workers only find out that the emulator has panicked. -/
theorem Busy.tryPickNext (hbusy : sys.Busy) (h : sys.Inv P) (hlock : sys.lockIsFree = true) (hne : worker ≠ 0)
    (hcan : sys.scheduler.canTryPickNext (canRunSyscalls worker) (canRunSyscalls worker) = true) :
    sys.scheduler.hasPanicked = true := by
  obtain ⟨job, ⟨hjob, hpicked⟩ | hkernel⟩ := hbusy
  · obtain ⟨-, -, hjobs⟩ := h.mode.picked_alone hpicked hjob
    have hrun : canRunSyscalls worker = false := decide_eq_false hne
    have hnone : sys.scheduler.hasRunnableThread false false = false := by
      unfold hasRunnableThread
      rw [hjobs]
      have hkind : 0 < [job].countP Job.isKernelJob + [job].countP Job.isAtomicJob := by
        rcases job_kind job with hu | ha | hk
        · exact absurd hu hjob
        · simp [ha]
        · simp only [List.countP_cons_of_pos hk]
          omega
      simp only [Bool.false_and, Bool.false_eq_true, if_false]
      rw [if_pos (by omega)]
    unfold canTryPickNext allThreadsDead allThreadsBlocked at hcan
    rw [hrun, hnone, hjobs] at hcan
    simpa using hcan
  · have := lockIsFree_iff.1 hlock _ (List.mem_of_getElem? hkernel)
    cases this

/-- Another worker takes a step that leaves the timers, the time and the waiting threads as they are. -/
theorem Ready.keep (h : sys.Ready) (hne : worker ≠ 0) (htimers : s.timers = sys.scheduler.timers)
    (hfutex : s.futexBlockers = sys.scheduler.futexBlockers) (htime : s.currentTime = sys.scheduler.currentTime)
    (hkernel : s.inKernel = sys.scheduler.inKernel) : (sys.setWorker worker w' s).Ready := by
  have hcalm : sys.scheduler.Calm → s.Calm := fun hc => hc.congr htimers fun b hb => by rw [← hfutex]; exact hb
  have hzero : (sys.setWorker worker w' s).workers[0]? = sys.workers[0]? := setWorker_zero hne w' s
  refine ⟨fun job hjob hpicked => ?_, fun job hcall => ?_⟩
  · obtain ⟨hc, hsynced⟩ := h.picked job hjob (hzero ▸ hpicked)
    exact ⟨hcalm hc, fun timer htimer => (hsynced timer (by rw [← htimers]; exact htimer)).trans htime.symm⟩
  · obtain ⟨hc, hk⟩ := h.kernel job (hzero ▸ hcall)
    exact ⟨hcalm hc, hkernel.trans hk⟩

theorem tryPickNext_ready (h : sys.Inv P) (hready : sys.Ready) {answers : FsAnswers}
    (henabled : sys.enabled (.tryPickNext worker answers) = true) :
    Yields Ready (sys.exec (.tryPickNext worker answers)) := by
  simp only [enabled, Bool.and_eq_true, decide_eq_true_eq] at henabled
  obtain ⟨⟨hidle, hlock⟩, hcan⟩ := henabled
  by_cases h0 : worker = 0
  · subst h0
    refine Post.bind (tryPickNext_calm h.ledger answers _) ?_
    intro picked hcalm
    refine Post.ok (Ready.set_zero (fun job hjob => hcalm job ?_) fun job hjob => ?_)
    · obtain ⟨command, s⟩ := picked
      cases command <;> cases hjob
      rfl
    · obtain ⟨command, s⟩ := picked
      cases command <;> cases hjob
  · by_cases hbusy : sys.Busy
    · have hpanic := hbusy.tryPickNext h hlock h0 hcan
      refine Post.bind (p := fun r => r.2 = sys.scheduler) ?_ ?_
      · unfold Scheduler.tryPickNext
        rw [if_pos hpanic]
        exact Post.ok rfl
      · rintro ⟨command, s⟩ hs
        refine Post.ok ?_
        have hs : s = sys.scheduler := hs
        subst hs
        exact hready.keep h0 rfl rfl rfl rfl
    · exact Post.skip fun _ => Post.ok (Ready.of_not_busy hbusy (setWorker_zero h0 _ _))

theorem start_ready (h : sys.Inv P) (hready : sys.Ready) (torn : Option PreciseTime) :
    Yields Ready (sys.exec (.start worker torn)) := by
  simp only [exec]
  split
  · next job hpicked =>
    have hrest : ¬ (WorkerState.picked job).IsResting := by simp [IsResting]
    refine Post.ite (fun hkernel => ?_) fun _ => Post.ite (fun _ => ?_) fun _ => ?_
    · have huser : ¬ job.isUserspaceJob = true := by
        unfold Job.isKernelJob at hkernel
        unfold Job.isUserspaceJob
        simp_all
      obtain ⟨rfl, -, -⟩ := h.mode.picked_alone hpicked huser
      obtain ⟨hcalm, hsynced⟩ := hready.picked job huser hpicked
      refine Post.bind (p := fun s => s.Calm ∧ s.inKernel = true) (Post.skip fun _ => Post.ok ?_)
        fun s hs => Post.ok (Ready.set_zero (by simp) fun _ _ => hs)
      exact ⟨hcalm.congr hsynced.updateTimers fun b hb => hb, rfl⟩
    · exact Post.skip fun _ => Post.ok (h.ready_set hpicked hrest (by simp) (by simp))
    · exact Post.skip fun _ => Post.ok (h.ready_set hpicked hrest (by simp) (by simp))
  · exact Post.ok hready

/-- A step keeps a system ready. -/
theorem exec_ready (h : sys.Inv P) (hready : sys.Ready) {action : WorkerAction} (henabled : sys.enabled action = true) :
    Yields Ready (sys.exec action) := by
  cases action with
  | tryPickNext worker answers => exact tryPickNext_ready h hready henabled
  | start worker torn => exact start_ready h hready torn
  | execute worker slice =>
    have hidle : ∀ w, sys.workers[worker]? = some w → ¬ w.IsResting → (∀ job, w ≠ .picked job) →
        (∀ job, w ≠ .kernel job false) → ¬ sys.Busy := by
      intro w hw hrest hpicked hkernel
      by_cases h0 : worker = 0
      · subst h0
        rintro ⟨job, ⟨-, hv⟩ | hv⟩
        · exact hpicked job (Option.some.inj (hw.symm.trans hv))
        · exact hkernel job (Option.some.inj (hw.symm.trans hv))
      · exact h.not_busy hw hrest h0
    simp only [exec]
    split
    · next job hw => exact Post.ok (Ready.of_not_busy (hidle _ hw (by simp [IsResting]) (by simp) (by simp)) rfl)
    · next job hw => exact Post.ok (Ready.of_not_busy (hidle _ hw (by simp [IsResting]) (by simp) (by simp)) rfl)
    · exact Post.ok hready
  | syscall worker call =>
    simp only [exec]
    split
    · next job hw =>
      exact Post.skip fun _ => Post.ok (h.ready_set hw (by simp [IsResting]) (by simp) (by simp))
    · exact Post.ok hready
  | stop worker =>
    simp only [exec]
    split
    · next job hw => exact Post.ok (h.ready_set hw (by simp [IsResting]) (by simp) (by simp))
    · next job hw => exact Post.ok (h.ready_set hw (by simp [IsResting]) (by simp) (by simp))
    · next job hw => exact Post.ok (h.ready_set hw (by simp [IsResting]) (by simp) (by simp))
    · exact Post.ok hready
  | crash worker =>
    simp only [exec]
    split
    · next job hw => exact Post.ok (h.ready_set hw (by simp [IsResting]) (by simp) (by simp))
    · next job hw => exact Post.ok (h.ready_set hw (by simp [IsResting]) (by simp) (by simp))
    · exact Post.ok hready
  | interrupt worker =>
    by_cases h0 : worker = 0
    · subst h0
      exact Post.ok (Ready.set_zero (by simp) (by simp))
    · exact Post.ok (hready.keep h0 rfl rfl rfl rfl)

theorem reachable_ready (h : machine.Reachable sys) : sys.Ready := by
  refine (h.invariant (fun sys => sys.Inv False ∧ sys.Ready) ?_ ?_).2
  · rintro _ ⟨nbCores, hostPid, memory, rfl⟩
    have hidle : ¬ (initial nbCores hostPid memory).Busy := by
      rintro ⟨job, ⟨-, hv⟩ | hv⟩ <;> cases List.eq_of_mem_replicate (List.mem_of_getElem? hv)
    exact ⟨initial_inv False nbCores hostPid memory, Ready.of_not_busy hidle rfl⟩
  · intro sys action sys' ⟨hinv, hready⟩ hstep
    obtain ⟨henabled, hexec⟩ := step_some hstep
    exact ⟨(exec_post hinv henabled fun hF => hF.elim).of_ok hexec, (exec_ready hinv hready henabled).of_ok hexec⟩

end Ready

end System

end X64Emulator
