import X64Emulator.Lemmas.ContextSwitch

/-!
# Threads do not change each other's state

A thread is in one virtual machine at a time, so nothing but its own blocks and calls changes its registers. The call stack of
the JIT is shared by the threads of a process, and it belongs to the thread that executes only while no other of them does.
-/

namespace X64Emulator

open Outcome

namespace Emulator

variable {e e' : Emulator} {worker worker' t t' : Nat}

/-- No thread begins to execute while another thread of its process does on another worker, if the process has a JIT. -/
def Exclusive (e : Emulator) : EmulatorAction → Prop
  | .enter worker => ∀ thread ∈ e.threadOf worker, (e.jits (e.processOf thread)).isSome = true →
      ∀ w < e.system.workers.length, ∀ t ∈ (e.vms w).currentThread, e.processOf t ≠ e.processOf thread
  | _ => True

instance : DecidablePred e.Exclusive
  | .enter _ => inferInstanceAs (Decidable (∀ _ ∈ _, _ → ∀ _ < _, ∀ _ ∈ _, _ ≠ _))
  | .worker _ _ | .runBlock _ _ | .leave _ _ => inferInstanceAs (Decidable True)

/-- Each thread that executes has the job of its worker, two of a process with a JIT never execute at once, and the state that a
thread executes on, or that is kept of it, is its own. -/
structure Inv (e : Emulator) : Prop where
  system : e.system.Inv False
  placed : ∀ w t, (e.vms w).currentThread = some t → e.threadOf w = some t
  apart : ∀ w w' t t', (e.vms w).currentThread = some t → (e.vms w').currentThread = some t' →
    (e.jits (e.processOf t)).isSome = true → e.processOf t = e.processOf t' → w = w'
  inside : ∀ w t, (e.vms w).currentThread = some t → e.live w t = e.own t
  outside : ∀ t, (∀ w, (e.vms w).currentThread ≠ some t) → e.saved t = e.own t

theorem threadOf_held (h : e.threadOf worker = some t) : ∃ w job, e.system.workers[worker]? = some w ∧ w.held = some job ∧
    job.thread = t ∧ ∀ job', w ≠ .kernel job' false := by
  unfold threadOf at h
  split at h
  · next job hw => exact ⟨_, job, hw, rfl, Option.some.inj h, by simp⟩
  · next job hw => exact ⟨_, job, hw, rfl, Option.some.inj h, by simp⟩
  · cases h

/-- A thread executes on one worker only. -/
theorem Inv.worker_eq (h : e.Inv) (ht : e.threadOf worker = some t) (ht' : e.threadOf worker' = some t) : worker = worker' := by
  obtain ⟨w, job, hw, hheld, rfl, -⟩ := threadOf_held ht
  obtain ⟨w', job', hw', hheld', hthread, -⟩ := threadOf_held ht'
  exact h.system.worker_eq hw hheld hw' hheld' hthread.symm

theorem Inv.lt_length (h : e.Inv) (ht : (e.vms worker).currentThread = some t) : worker < e.system.workers.length := by
  obtain ⟨w, job, hw, -⟩ := threadOf_held (h.placed worker t ht)
  exact (List.getElem?_eq_some_iff.1 hw).1

/-- While a worker makes a call, no thread executes. -/
theorem Inv.none_in_call {job : Job} (h : e.Inv) (hw : e.system.workers[worker]? = some (.kernel job false)) :
    (e.vms worker').currentThread = none := by
  cases hcurrent : (e.vms worker').currentThread with
  | none => rfl
  | some t =>
    obtain ⟨w', job', hw', hheld', -, hne⟩ := threadOf_held (h.placed worker' t hcurrent)
    have hrest : ¬ w'.IsResting := fun hr => by rw [hr.held] at hheld'; cases hheld'
    obtain ⟨rfl, halone, hjobs⟩ := h.system.mode.kernel hw
    obtain ⟨rfl, rfl⟩ := halone.index_zero hw' hrest
    exact absurd rfl (hne job)

/-! ## The steps of a worker that executes no thread -/

theorem threadOf_congr (h : e'.system.workers[worker]? = e.system.workers[worker]?) : e'.threadOf worker = e.threadOf worker := by
  unfold threadOf
  rw [h]

/-- The states of the threads settle alike. -/
theorem settle_congr {before after : Scheduler} {current : Option Nat} {effects : CallEffects} {states states' : Nat → SavedState}
    (h : states t = states' t) : settle before after current effects states t = settle before after current effects states' t := by
  unfold settle
  rw [h]

/-- A thread that makes no call and is not blocked keeps its state. -/
theorem settle_steady {before after : Scheduler} {effects : CallEffects} {states : Nat → SavedState}
    (hsteady : Steady before after) (hblocked : t ∉ before.blockedThreads) : settle before after none effects states t = states t := by
  unfold settle
  rw [if_neg (by simp), if_neg (by rw [hsteady.nbThreads]; omega), if_neg fun h => hblocked h.1]

variable {action : WorkerAction} {state : SavedState}

theorem renewVm_fields : (e.renewVm action).system = e.system ∧ (e.renewVm action).saved = e.saved ∧
    (e.renewVm action).own = e.own ∧ (e.renewVm action).jits = e.jits := by
  cases action <;> exact ⟨rfl, rfl, rfl, rfl⟩

theorem renewVm_vms (hout : (e.vms action.worker).currentThread = none) (w : Nat) :
    ((e.renewVm action).vms w).currentThread = (e.vms w).currentThread ∧
      (∀ t, (e.vms w).currentThread = some t → (e.renewVm action).vms w = e.vms w) := by
  cases action with
  | start worker _ =>
    by_cases hw : w = worker
    · subst hw
      have hnone : (e.vms w).currentThread = none := hout
      refine ⟨?_, fun t ht => ?_⟩
      · simp [renewVm, setVm, WorkerVm.new, hnone]
      · rw [hnone] at ht
        cases ht
    · simp [renewVm, setVm, hw]
  | tryPickNext _ _ => exact ⟨rfl, fun _ _ => rfl⟩
  | execute _ _ => exact ⟨rfl, fun _ _ => rfl⟩
  | syscall _ _ => exact ⟨rfl, fun _ _ => rfl⟩
  | stop _ => exact ⟨rfl, fun _ _ => rfl⟩
  | crash _ => exact ⟨rfl, fun _ _ => rfl⟩
  | interrupt _ => exact ⟨rfl, fun _ _ => rfl⟩

/-- The caller of a system call is the thread of a kernel job. -/
theorem caller_some {c : Nat × Bool} (h : e.caller action = some c) :
    ∃ (worker : Nat) (job : Job), e.system.workers[worker]? = some (.kernel job false) := by
  cases action with
  | syscall worker call =>
    simp only [caller] at h
    split at h
    · next job hw => exact ⟨worker, job, hw⟩
    · cases h
  | tryPickNext _ _ => cases h
  | start _ _ => cases h
  | execute _ _ => cases h
  | stop _ => cases h
  | crash _ => cases h
  | interrupt _ => cases h

/-- A step that is no system call leaves the threads and processes as they are. -/
theorem exec_steady {system : System} (h : e.Inv) (hcaller : e.caller action = none)
    (hexec : e.system.exec action = .ok system) : Steady e.system.scheduler system.scheduler := by
  by_cases hcall : ∃ worker call, action = .syscall worker call
  · obtain ⟨worker, call, rfl⟩ := hcall
    simp only [System.exec] at hexec
    simp only [caller] at hcaller
    split at hexec
    · next job hw =>
      rw [hw] at hcaller
      cases hcaller
    · obtain rfl := Except.ok.inj hexec
      exact .refl _
  · exact (System.exec_steady h.system fun worker call heq => hcall ⟨worker, call, heq⟩).of_ok hexec

theorem Inv.ofWorker {effects : CallEffects} (h : e.Inv) (henabled : e.system.enabled action = true)
    (hout : (e.vms action.worker).currentThread = none) (hexec : e.exec (.worker action effects) = .ok e') : e'.Inv := by
  cases hsystem : e.system.exec action with
  | error failure =>
    simp only [exec, hsystem] at hexec
    cases hexec
  | ok system =>
    simp only [exec, hsystem] at hexec
    obtain rfl := Except.ok.inj hexec
    have hinv : system.Inv False := (System.exec_post h.system henabled fun hF => hF.elim).of_ok hsystem
    generalize hnext : ({ e with
      system := system
      saved := settle e.system.scheduler system.scheduler ((e.caller action).map (·.1)) effects e.saved
      own := settle e.system.scheduler system.scheduler ((e.caller action).map (·.1)) effects e.own
      jits := settleJits e.system.scheduler system.scheduler (e.caller action) e.jits } : Emulator) = next
    have hstates : next.saved = settle e.system.scheduler system.scheduler ((e.caller action).map (·.1)) effects e.saved ∧
        next.own = settle e.system.scheduler system.scheduler ((e.caller action).map (·.1)) effects e.own := by
      rw [← hnext]
      exact ⟨rfl, rfl⟩
    obtain ⟨hsys, hsaved, hown, hjits⟩ := @renewVm_fields next action
    have hvms := @renewVm_vms next action (by rw [← hnext]; exact hout)
    have hcurrent : ∀ w, ((next.renewVm action).vms w).currentThread = (e.vms w).currentThread := by
      intro w
      rw [(hvms w).1, ← hnext]
    have houtside : ∀ t, (∀ w, ((next.renewVm action).vms w).currentThread ≠ some t) →
        (next.renewVm action).saved t = (next.renewVm action).own t := by
      intro t ht
      rw [hsaved, hown, hstates.1, hstates.2]
      exact settle_congr (h.outside t fun w => hcurrent w ▸ ht w)
    have hsystem' : (next.renewVm action).system.Inv False := by
      rw [hsys, ← hnext]
      exact hinv
    cases hcaller : e.caller action with
    | some c =>
      obtain ⟨worker, job, hw⟩ := caller_some hcaller
      have hnone : ∀ w t, ((next.renewVm action).vms w).currentThread ≠ some t := by
        intro w t ht
        rw [hcurrent w, h.none_in_call hw] at ht
        cases ht
      exact ⟨hsystem', fun w t ht => absurd ht (hnone w t), fun w _ t _ ht => absurd ht (hnone w t),
        fun w t ht => absurd ht (hnone w t), houtside⟩
    | none =>
      have hsteady := exec_steady h hcaller hsystem
      have hprocess : ∀ t, (next.renewVm action).processOf t = e.processOf t := by
        intro t
        unfold Emulator.processOf
        rw [hsys, ← hnext]
        exact hsteady.process t
      have hjits' : (next.renewVm action).jits = e.jits := by
        rw [hjits, ← hnext, hcaller]
        rfl
      refine ⟨hsystem', fun w t ht => ?_, fun w w' t t' ht ht' => ?_, fun w t ht => ?_, houtside⟩
      · rw [hcurrent w] at ht
        have hne : w ≠ action.worker := by
          rintro rfl
          rw [hout] at ht
          cases ht
        rw [threadOf_congr (e := e)]
        · exact h.placed w t ht
        · rw [hsys, ← hnext]
          exact (System.exec_workers hne).of_ok hsystem
      · rw [hcurrent w] at ht
        rw [hcurrent w'] at ht'
        rw [hjits', hprocess, hprocess]
        exact h.apart w w' t t' ht ht'
      · rw [hcurrent w] at ht
        obtain ⟨w₀, job, hw₀, hheld, rfl, -⟩ := threadOf_held (h.placed w t ht)
        have hblocked := h.system.not_blocked hw₀ hheld
        have hvm : (next.renewVm action).vms w = e.vms w := by
          rw [(hvms w).2 job.thread (by rw [← hnext]; exact ht), ← hnext]
        have hsettle : ∀ states : Nat → SavedState, settle e.system.scheduler system.scheduler ((e.caller action).map (·.1))
            effects states job.thread = states job.thread := by
          intro states
          rw [hcaller]
          exact settle_steady hsteady hblocked
        have hlive : (next.renewVm action).live w job.thread = e.live w job.thread := by
          unfold live
          rw [hvm, hjits', hprocess, hsaved, hstates.1, hsettle]
        rw [hlive, hown, hstates.2, hsettle]
        exact h.inside w job.thread ht

/-! ## The steps of a thread -/

theorem put_current (w : Nat) :
    ((e.put worker t state).vms w).currentThread = if w = worker then some t else (e.vms w).currentThread := by
  simp only [put, setVm, setCallstack]
  split <;> rfl

theorem put_jits_isSome (p : Nat) : ((e.put worker t state).jits p).isSome = (e.jits p).isSome := by
  simp only [put, setVm, setCallstack]
  split
  · exact Option.isSome_map
  · rfl

/-- The thread executes on the state that was put in place, but for the call stack where there is no JIT. -/
theorem put_live_self : (e.put worker t state).live worker t =
    ⟨state.cpu, if (e.jits (e.processOf t)).isSome then state.callstack else (e.saved t).callstack⟩ := by
  have hprocess : (e.put worker t state).processOf t = e.processOf t := rfl
  unfold live
  rw [hprocess]
  simp only [put, setVm, setCallstack, if_true, CpuState.saved_install]
  cases e.jits (e.processOf t) with
  | none => rfl
  | some _ => rfl

/-- The threads of other processes, and of processes without a JIT, execute on the states they had. -/
theorem put_live_of_ne (hne : worker' ≠ worker)
    (hprocess : (e.jits (e.processOf t)).isSome = true → e.processOf t ≠ e.processOf t') :
    (e.put worker t state).live worker' t' = e.live worker' t' := by
  have hsame : (e.put worker t state).processOf t' = e.processOf t' := rfl
  unfold live
  rw [hsame]
  simp only [put, setVm, setCallstack, if_neg hne]
  by_cases hp : e.processOf t' = e.processOf t
  · cases hjit : e.jits (e.processOf t) with
    | none =>
      rw [if_pos hp, hp, hjit]
      rfl
    | some callstack => exact absurd hp.symm (hprocess (by rw [hjit]; rfl))
  · rw [if_neg hp]

/-- A state is put in place for the thread of a worker, and becomes the thread's own. -/
theorem Inv.put {own : Nat → SavedState} (h : e.Inv) (hthread : e.threadOf worker = some t)
    (hbefore : ∀ t', (e.vms worker).currentThread = some t' → t' = t)
    (hprocess : ∀ w t', w ≠ worker → (e.vms w).currentThread = some t' → (e.jits (e.processOf t)).isSome = true →
      e.processOf t ≠ e.processOf t')
    (hself : (e.put worker t state).live worker t = own t) (hown : ∀ t', t' ≠ t → own t' = e.own t') :
    { e.put worker t state with own := own }.Inv := by
  have hcurrent : ∀ w t', ((e.put worker t state).vms w).currentThread = some t' →
      (w = worker ∧ t' = t) ∨ (w ≠ worker ∧ (e.vms w).currentThread = some t') := by
    intro w t' ht'
    rw [put_current] at ht'
    split at ht'
    · next hw => exact Or.inl ⟨hw, (Option.some.inj ht').symm⟩
    · next hw => exact Or.inr ⟨hw, ht'⟩
  refine ⟨h.system, fun w t' ht' => ?_, fun w w' t₁ t₂ ht₁ ht₂ hsome hsame => ?_, fun w t' ht' => ?_, fun t' ht' => ?_⟩
  · rcases hcurrent w t' ht' with ⟨rfl, rfl⟩ | ⟨-, hold⟩
    · exact hthread
    · exact h.placed w t' hold
  · have hjit : (e.jits (e.processOf t₁)).isSome = true := (put_jits_isSome _).symm.trans hsome
    have hp : e.processOf t₁ = e.processOf t₂ := hsame
    rcases hcurrent w t₁ ht₁ with ⟨hw, rfl⟩ | ⟨hw, h₁⟩
    · rcases hcurrent w' t₂ ht₂ with ⟨hw', rfl⟩ | ⟨hw', h₂⟩
      · exact hw.trans hw'.symm
      · exact absurd hp (hprocess w' t₂ hw' h₂ hjit)
    · rcases hcurrent w' t₂ ht₂ with ⟨hw', rfl⟩ | ⟨-, h₂⟩
      · exact absurd hp.symm (hprocess w t₁ hw h₁ (hp ▸ hjit))
      · exact h.apart w w' t₁ t₂ h₁ h₂ hjit hp
  · rcases hcurrent w t' ht' with ⟨rfl, rfl⟩ | ⟨hw, hold⟩
    · exact hself
    · have hne : t' ≠ t := by
        intro heq
        exact hw (h.worker_eq (heq ▸ h.placed w t' hold) hthread)
      have hlive : (e.put worker t state).live w t' = own t' := by
        rw [put_live_of_ne hw (hprocess w t' hw hold), hown t' hne]
        exact h.inside w t' hold
      exact hlive
  · have hne : t' ≠ t := by
      rintro rfl
      exact ht' worker (by rw [put_current, if_pos rfl])
    have hold : e.saved t' = own t' := by
      rw [hown t' hne]
      refine h.outside t' fun w hw => ?_
      by_cases hworker : w = worker
      · subst hworker
        exact hne (hbefore t' hw)
      · exact ht' w (by rw [put_current, if_neg hworker]; exact hw)
    exact hold

theorem Inv.enter (h : e.Inv) (hexclusive : e.Exclusive (.enter worker)) (hout : (e.vms worker).currentThread = none) :
    Yields Inv (e.exec (.enter worker)) := by
  simp only [exec]
  split
  · next thread hthread =>
    have hbefore : ∀ t, (e.vms worker).currentThread = some t → t = thread := by
      intro t ht
      rw [hout] at ht
      cases ht
    unfold contextSwitch syncThread
    rw [hout]
    refine Post.bind (p := fun e₁ => e₁ = e) (Post.ok rfl) fun e₁ he₁ => ?_
    subst he₁
    refine Post.skip fun _ => Post.ok (h.put hthread hbefore (fun w t _ ht hjit => ?_) ?_ fun _ _ => rfl)
    · exact (hexclusive thread hthread hjit w (h.lt_length ht) t ht).symm
    · rw [put_live_self, ite_self]
      refine h.outside thread fun w ht => ?_
      obtain rfl := h.worker_eq (h.placed w thread ht) hthread
      rw [hout] at ht
      cases ht
  · exact Post.ok h

theorem Inv.runBlock {block : SavedState → SavedState} (h : e.Inv) (hcurrent : (e.vms worker).currentThread = some t) :
    (e.runBlock worker t block).Inv := by
  have hinside := h.inside worker t hcurrent
  refine h.put (h.placed worker t hcurrent) (fun t' ht' => Option.some.inj (ht'.symm.trans hcurrent))
    (fun w t' hw ht' hjit hp => hw (h.apart worker w t t' hcurrent ht' hjit hp).symm) ?_ fun t' ht' => if_neg ht'
  rw [put_live_self, if_pos rfl, ownAfter, hinside]
  cases hjit : e.jits (e.processOf t) with
  | none =>
    have hcallstack : (e.live worker t).callstack = (e.saved t).callstack := by
      unfold live
      rw [hjit]
      rfl
    rw [← hcallstack, hinside]
  | some callstack => rfl

/-- What is saved of a thread as it leaves is its own. -/
theorem syncThread_saved (h : e.Inv) : Yields (fun e₁ => e₁.system = e.system ∧ e₁.vms = e.vms ∧
    e₁.jits = e.jits ∧ e₁.own = e.own ∧ ∀ t, e₁.saved t = if (e.vms worker).currentThread = some t then e.own t else e.saved t)
    (e.syncThread worker) := by
  unfold syncThread
  split
  · next hnone =>
    refine Post.ok ⟨rfl, rfl, rfl, rfl, fun t => ?_⟩
    rw [hnone, if_neg (by simp)]
  · next t hcurrent =>
    refine Post.skip fun _ => Post.ok ⟨rfl, rfl, rfl, rfl, fun t' => ?_⟩
    rw [hcurrent]
    simp only [setSaved, Option.some.injEq]
    by_cases ht : t' = t
    · rw [if_pos ht, if_pos ht.symm, ht, h.inside worker t hcurrent]
    · rw [if_neg ht, if_neg (Ne.symm ht)]

/-- The thread of a worker is saved, and its virtual machine is new. -/
theorem Inv.left (h : e.Inv) (hsystem : e'.system = e.system) (hvms : ∀ w, e'.vms w = if w = worker then .new else e.vms w)
    (hjits : e'.jits = e.jits) (hown : e'.own = e.own)
    (hsaved : ∀ t, e'.saved t = if (e.vms worker).currentThread = some t then e.own t else e.saved t) : e'.Inv := by
  have hcurrent : ∀ w t, (e'.vms w).currentThread = some t → w ≠ worker ∧ (e.vms w).currentThread = some t := by
    intro w t ht
    rw [hvms] at ht
    split at ht
    · cases ht
    · next hw => exact ⟨hw, ht⟩
  have hprocess : e'.processOf = e.processOf := by
    unfold Emulator.processOf
    rw [hsystem]
  refine ⟨hsystem ▸ h.system, fun w t ht => ?_, fun w w' t t' ht ht' => ?_, fun w t ht => ?_, fun t ht => ?_⟩
  · rw [threadOf_congr (e := e) (by rw [hsystem])]
    exact h.placed w t (hcurrent w t ht).2
  · rw [hjits, hprocess]
    exact h.apart w w' t t' (hcurrent w t ht).2 (hcurrent w' t' ht').2
  · obtain ⟨hw, hold⟩ := hcurrent w t ht
    have hne : (e.vms worker).currentThread ≠ some t := fun h' => hw (h.worker_eq (h.placed w t hold) (h.placed worker t h'))
    have hlive : e'.live w t = e.live w t := by
      unfold live
      rw [hvms, if_neg hw, hjits, hprocess, hsaved, if_neg hne]
    rw [hlive, hown]
    exact h.inside w t hold
  · rw [hsaved, hown]
    split
    · rfl
    · next hne =>
      refine h.outside t fun w hw => ht w ?_
      rw [hvms, if_neg, hw]
      rintro rfl
      exact hne hw

/-- Only the scheduler goes on, and leaves workers and threads as they are. -/
theorem Inv.withSystem {system : System} (h : e.Inv) (hsystem : system.Inv False) (hworkers : system.workers = e.system.workers)
    (hsteady : Steady e.system.scheduler system.scheduler) : { e with system := system }.Inv := by
  have hprocess : ∀ t, ({ e with system := system } : Emulator).processOf t = e.processOf t := hsteady.process
  refine ⟨hsystem, fun w t ht => ?_, fun w w' t t' ht ht' hjit hp => ?_, fun w t ht => ?_, h.outside⟩
  · rw [threadOf_congr (e := e) (by rw [hworkers])]
    exact h.placed w t ht
  · rw [hprocess] at hjit hp
    rw [hprocess] at hp
    exact h.apart w w' t t' ht ht' hjit hp
  · have hlive : ({ e with system := system } : Emulator).live w t = e.live w t := by
      unfold live
      rw [hprocess]
    rw [hlive]
    exact h.inside w t ht

theorem Inv.leave {slice : Slice} (h : e.Inv) : Yields Inv (e.exec (.leave worker slice)) := by
  have hout : Yields Inv (e.contextSwitch worker none) := by
    refine Post.bind (syncThread_saved h) fun e₁ he₁ => Post.ok ?_
    obtain ⟨hsystem, hvms, hjits, hown, hsaved⟩ := he₁
    have hempty : ∀ w, (e₁.setVm worker .new).vms w = if w = worker then .new else e.vms w := by
      intro w
      simp only [setVm, hvms]
    exact h.left hsystem hempty hjits hown hsaved
  refine Post.bind hout fun e₁ h₁ => Post.bind (Post.self _) fun system hsystem => Post.ok ?_
  have hinv : system.Inv False := (System.execute_post h₁.system).of_ok hsystem
  have hsteady : Steady e₁.system.scheduler system.scheduler :=
    (System.exec_steady h₁.system fun _ _ heq => by cases heq).of_ok hsystem
  refine h₁.withSystem hinv ?_ hsteady
  simp only [System.exec] at hsystem
  split at hsystem
  · exact Except.ok.inj hsystem ▸ rfl
  · exact Except.ok.inj hsystem ▸ rfl
  · exact Except.ok.inj hsystem ▸ rfl

/-! ## Runs -/

theorem step_some {action : EmulatorAction} (hs : e.step action = some e') : e.enabled action = true ∧ e.exec action = .ok e' :=
  enabled_toOption_eq_some.1 hs

theorem isOut_iff : e.isOut worker = true ↔ (e.vms worker).currentThread = none := Option.isNone_iff_eq_none

theorem Inv.step {action : EmulatorAction} (h : e.Inv) (hexclusive : e.Exclusive action) (hs : e.step action = some e') :
    e'.Inv := by
  obtain ⟨henabled, hexec⟩ := step_some hs
  cases action with
  | worker action effects =>
    have hboth : e.isOut action.worker = true ∧ e.system.enabled action = true := by
      cases action with
      | execute _ _ => cases henabled
      | tryPickNext _ _ => exact Bool.and_eq_true_iff.1 henabled
      | start _ _ => exact Bool.and_eq_true_iff.1 henabled
      | syscall _ _ => exact Bool.and_eq_true_iff.1 henabled
      | stop _ => exact Bool.and_eq_true_iff.1 henabled
      | crash _ => exact Bool.and_eq_true_iff.1 henabled
      | interrupt _ => exact Bool.and_eq_true_iff.1 henabled
    exact h.ofWorker hboth.2 (isOut_iff.1 hboth.1) hexec
  | enter worker => exact (h.enter hexclusive (isOut_iff.1 (Bool.and_eq_true_iff.1 henabled).1)).of_ok hexec
  | runBlock worker block =>
    simp only [exec] at hexec
    split at hexec
    · next t hcurrent => exact Except.ok.inj hexec ▸ h.runBlock hcurrent
    · exact Except.ok.inj hexec ▸ h
  | leave worker slice => exact h.leave.of_ok hexec

theorem initial_inv (nbCores : Nat) (hostPid : Int) (memory : GuestMemory) (hasJit : Bool) (cpu : SavedCpuState) :
    (initial nbCores hostPid memory hasJit cpu).Inv := by
  refine ⟨System.initial_inv False nbCores hostPid memory, fun w t ht => ?_, fun w w' t t' ht => ?_, fun w t ht => ?_, fun t _ => rfl⟩
  · cases ht
  · cases ht
  · cases ht

/-- Where no two threads of a process with a JIT execute at once, a thread executes on what its own blocks and calls made of its
state, and that is also what is kept of it while it does not execute. -/
theorem contexts_isolated (h : machine.ReachableUnder Exclusive e) :
    (∀ worker t, (e.vms worker).currentThread = some t → e.live worker t = e.own t) ∧
      ∀ t, (∀ worker, (e.vms worker).currentThread ≠ some t) → e.saved t = e.own t := by
  have hinv : e.Inv := by
    refine h.invariant Inv (fun e hinit => ?_) fun e action e' _ hinv hexclusive hs => hinv.step hexclusive hs
    obtain ⟨nbCores, hostPid, memory, hasJit, cpu, rfl⟩ := hinit
    exact initial_inv nbCores hostPid memory hasJit cpu
  exact ⟨hinv.inside, hinv.outside⟩

section Samples

/-- Calls that change no register but RAX. -/
def plainCall : CallEffects := ⟨id, ⟨CpuState.initial.saved, []⟩⟩

def steps (actions : List WorkerAction) : List EmulatorAction := actions.map fun action => .worker action plainCall

/-- A worker picks the next job and begins it. -/
def beginJob (worker : Nat) : List EmulatorAction := steps [.tryPickNext worker System.silentFiles, .start worker]

/-- The first thread creates another one, and each of two workers begins to run one of the two. -/
def twoThreads : List EmulatorAction :=
  beginJob 0 ++ [.enter 0, .leave 0 ⟨10, some .enterSyscall, fun _ => some 0⟩] ++ steps [.stop 0] ++ beginJob 0 ++
    steps [.syscall 0 (.clone System.threadFlags 4096 0 0), .stop 0] ++ beginJob 0 ++ beginJob 1

/-- A call that is pushed on the call stack. -/
def pushCall (state : SavedState) : SavedState := { state with callstack := state.callstack ++ [some 0] }

def withJit : Emulator := initial 2 100 (fun _ _ => some 0) true CpuState.initial.saved

theorem withJit_init : machine.init withJit := ⟨2, 100, fun _ _ => some 0, true, CpuState.initial.saved, rfl⟩

/-- The second thread is suspended after a call, and resumes after the first has run. -/
def oneAfterTheOther : List EmulatorAction :=
  [.enter 0, .runBlock 0 pushCall, .leave 0 ⟨10, none, fun _ => some 0⟩, .enter 1, .leave 1 ⟨10, none, fun _ => some 0⟩, .enter 0]

theorem contexts_isolated_resumed : ∃ e, machine.ReachableUnder Exclusive e ∧ (e.vms 0).currentThread = some 1 ∧
    (e.own 1).callstack = [some 0] ∧ e.live 0 1 = e.own 1 := by
  have hrun : ((machine.checked Exclusive).run withJit (twoThreads ++ oneAfterTheOther)).map (fun e =>
      ((e.vms 0).currentThread, (e.own 1).callstack)) = some (some 1, [some 0]) := by decide
  obtain ⟨e, he, heq⟩ := Option.map_eq_some_iff.1 hrun
  obtain ⟨hcurrent, hown⟩ := Prod.mk.inj heq
  have hreach : machine.ReachableUnder Exclusive e := (Machine.ReachableUnder.init withJit_init).run_checked _ he
  exact ⟨e, hreach, hcurrent, hown, (contexts_isolated hreach).1 0 1 hcurrent⟩

/-- Both threads execute, and the call of the second is on the call stack of the first. -/
theorem contexts_isolated_fails : ¬ ∀ e, machine.Reachable e → ∀ worker t, (e.vms worker).currentThread = some t →
    e.live worker t = e.own t := by
  intro hall
  have hrun : (machine.run withJit (twoThreads ++ [.enter 0, .enter 1, .runBlock 0 pushCall])).map (fun e =>
      ((e.vms 1).currentThread, (e.live 1 0).callstack, (e.own 0).callstack)) = some (some 0, [some 0], []) := by decide
  obtain ⟨e, he, heq⟩ := Option.map_eq_some_iff.1 hrun
  simp only [Prod.mk.injEq] at heq
  obtain ⟨hcurrent, hlive, hown⟩ := heq
  have hsame := hall e ((Machine.Reachable.init withJit_init).run _ he) 1 0 hcurrent
  rw [hsame, hown] at hlive
  cases hlive

end Samples

end Emulator

end X64Emulator
