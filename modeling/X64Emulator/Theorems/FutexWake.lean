import X64Emulator.Lemmas.Calm

/-!
# No futex wake-up is lost

A wake takes threads whose time limit has passed as well as waiters of its word, but no system call ever finds one of the former.
-/

namespace X64Emulator

open Outcome Choose

namespace Scheduler

/-- The states of the scheduler in which a system call may wake threads. -/
inductive InCall : Scheduler → Prop where
  /-- at the beginning of the call -/
  | start {sys : System} {worker : Nat} {job : Job} (h : System.machine.Reachable sys)
      (hw : sys.workers[worker]? = some (.kernel job false)) : InCall sys.scheduler
  /-- after it wrote to memory -/
  | written {s : Scheduler} (h : InCall s) (memory : GuestMemory) : InCall { s with memory := memory }
  /-- after it woke threads -/
  | woken {s s' : Scheduler} (h : InCall s) (wordPtr nbWaiters nbWoken : Nat)
      (hs : s.wake wordPtr nbWaiters = .ok (nbWoken, s')) : InCall s'
  /-- after it terminated a thread -/
  | terminated {s s' : Scheduler} (h : InCall s) (thread : Nat) (status : Int) (hs : s.terminate thread status = .ok s') :
      InCall s'
  /-- while it terminates a thread, whose blockers are gone -/
  | terminating {s : Scheduler} (h : InCall s) (thread : Nat) (status : Int) :
      InCall (((s.yieldThread thread).setThread thread (fun t => { t with exitStatus := status })).eraseBlockers thread)

/-- What makes a wake do what it is for. -/
structure WakeReady (s : Scheduler) : Prop where
  inKernel : s.inKernel = true
  timer : s.HasTimer s.futexBlockers
  calm : s.Calm
  refs_le : ∀ t, s.refs t ≤ s.blockedThreads.count t
  once : ∀ t, s.blockedThreads.count t ≤ 1

theorem WakeReady.written {s : Scheduler} (h : s.WakeReady) (memory : GuestMemory) :
    WakeReady { s with memory := memory } :=
  ⟨h.inKernel, h.timer, h.calm, h.refs_le, h.once⟩

theorem WakeReady.wakes {s : Scheduler} (h : s.WakeReady) (wordPtr nbWaiters : Nat) :
    Post (fun _ => True) (fun r => Wakes s wordPtr nbWaiters r.1 r.2) (s.wake wordPtr nbWaiters) :=
  wake_post wordPtr nbWaiters (fun _ => ⟨h.inKernel, h.timer⟩) h.refs_le

theorem Wakes.wakeReady {s s' : Scheduler} {wordPtr nbWaiters nbWoken : Nat} (hw : Wakes s wordPtr nbWaiters nbWoken s')
    (h : s.WakeReady) : s'.WakeReady := by
  have hkernel : s'.inKernel = s.inKernel := (congrArg Scheduler.inKernel hw.woke.bare :)
  refine ⟨hkernel.trans h.inKernel, fun b hb hlimit => ?_, h.calm.congr hw.timers hw.woke.futex, fun t => ?_, fun t => ?_⟩
  · rw [hw.timers]
    exact h.timer b (hw.woke.futex b hb) hlimit
  · have hvm : s'.vmRefs t = s.vmRefs t := by rw [vmRefs, hw.vm]; rfl
    have := hw.woke.all t
    have := hw.woke.blocked t
    have := h.refs_le t
    omega
  · have := hw.woke.blocked t
    have := h.once t
    omega

theorem WakeReady.terminating {s : Scheduler} (h : s.WakeReady) (thread : Nat) (status : Int) :
    WakeReady (((s.yieldThread thread).setThread thread (fun t => { t with exitStatus := status })).eraseBlockers thread) ∧
      refs (((s.yieldThread thread).setThread thread (fun t => { t with exitStatus := status })).eraseBlockers thread)
        thread = 0 := by
  have hrefs : ∀ t, refs (((s.yieldThread thread).setThread thread (fun t => { t with exitStatus := status })).eraseBlockers
      thread) t = if t = thread then 0 else s.refs t := fun t => congrArg Tally.refs (tally_eraseBlockers t)
  refine ⟨⟨h.inKernel, fun b hb hlimit => h.timer b (List.mem_filter.1 hb).1 hlimit,
    h.calm.congr rfl fun b hb => (List.mem_filter.1 hb).1, fun t => ?_, h.once⟩, by rw [hrefs, if_pos rfl]⟩
  rw [hrefs]
  split
  · exact Nat.zero_le _
  · exact h.refs_le t

theorem WakeReady.clearChildTid {s : Scheduler} (h : s.WakeReady) {thread : Nat} (hnone : s.refs thread = 0) :
    Yields (fun s' => s'.WakeReady ∧ s'.refs thread = 0) (s.wakeClearChildTid thread) := by
  refine Post.ite (fun _ => Post.ok ⟨h, hnone⟩) fun _ => Post.skip fun memory =>
    Post.bind (((h.written memory).wakes _ _).anti (by simp)) fun (nbWoken, s') hw => Post.ok ⟨hw.wakeReady (h.written memory), ?_⟩
  exact Nat.le_zero.1 (Nat.le_trans (hw.woke.refs thread) (Nat.le_of_eq hnone))

theorem WakeReady.terminated {s s' : Scheduler} (h : s.WakeReady) {thread : Nat} {status : Int}
    (hs : s.terminate thread status = .ok s') : s'.WakeReady := by
  refine (Post.skip fun _ => Post.bind ((h.terminating thread status).1.clearChildTid
    (h.terminating thread status).2) fun s₁ ⟨h₁, hnone⟩ => Post.ok ?_).of_ok hs
  refine ⟨h₁.inKernel, h₁.timer, h₁.calm, fun t => ?_, fun t => ?_⟩
  · have hcount := count_filter_ne s₁.blockedThreads thread t
    have := h₁.refs_le t
    show s₁.refs t ≤ _
    rw [eraseThread, hcount]
    by_cases ht : t = thread
    · rw [if_pos ht, ht]
      exact Nat.le_of_eq hnone
    · rw [if_neg ht]
      exact this
  · exact Nat.le_trans (List.Sublist.count_le t List.filter_sublist) (h₁.once t)

theorem InCall.wakeReady {s : Scheduler} (h : InCall s) : s.WakeReady := by
  induction h with
  | @start sys worker job h hw =>
    have hinv := System.reachable_inv h
    obtain ⟨rfl, -, -⟩ := hinv.mode.kernel hw
    obtain ⟨hcalm, hkernel⟩ := (System.reachable_ready h).kernel job hw
    refine ⟨hkernel, hinv.ledger.timer, hcalm, hinv.ledger.refs_le, fun t => ?_⟩
    have hok := hinv.ledger.ok t
    have := hok.place
    have := hok.once
    have : sys.scheduler.blockedThreads.count t = (sys.scheduler.tally t).blocked := rfl
    omega
  | written h memory ih => exact ih.written memory
  | woken h wordPtr nbWaiters nbWoken hs ih => exact Wakes.wakeReady ((ih.wakes wordPtr nbWaiters).of_ok hs) ih
  | terminated h thread status hs ih => exact ih.terminated hs
  | terminating h thread status ih => exact (ih.terminating thread status).1

/-! ## Waking the waiters of a word -/

def waiters (s : Scheduler) (wordPtr : Nat) : List FutexBlocker := s.futexBlockers.filter (fun b => b.wordPtr = wordPtr)

/-- What a wake of `nbWaiters` waiters of a word is for: as many of them as there are, up to that number, return from their call
with 0, and every other thread waits as before. -/
structure WakesWaiters (s : Scheduler) (wordPtr nbWaiters nbWoken : Nat) (s' : Scheduler) : Prop where
  count : nbWoken = min nbWaiters (s.waiters wordPtr).length
  woken : ∃ woken : List FutexBlocker, woken.Sublist (s.waiters wordPtr) ∧ woken.length = nbWoken ∧
    (woken ++ s'.futexBlockers).Perm s.futexBlockers ∧
    s'.runnableThreads = s.runnableThreads ++ woken.map (·.thread) ∧
    (woken.map (·.thread) ++ s'.blockedThreads).Perm s.blockedThreads ∧
    (∀ blocker ∈ woken, s'.rax blocker.thread = toRegister 0) ∧
    ∀ t, t ∉ woken.map (·.thread) → s'.rax t = s.rax t

/-- While no time limit has passed, the blockers a wake takes are the first waiters of its word. -/
theorem Calm.taken {s : Scheduler} (h : s.Calm) (wordPtr : Nat) {nbWaiters : Nat} (hn : 1 ≤ nbWaiters) :
    s.taken wordPtr nbWaiters = first (fun b => decide (b.wordPtr = wordPtr)) nbWaiters s.futexBlockers := by
  have hone : atLeastOne nbWaiters = nbWaiters := Nat.max_eq_left hn
  unfold Scheduler.taken canUnblock
  rw [hone]
  exact first_congr fun b hb => by rw [h b hb, Bool.false_or]

/-- The threads of a list of blockers that are each blocked once are different. -/
theorem WakeReady.nodup {s : Scheduler} (h : s.WakeReady) {l : List FutexBlocker} (hl : l.Sublist s.futexBlockers) :
    (l.map (·.thread)).Nodup := by
  refine List.Nodup.sublist (hl.map _) (List.nodup_iff_count.2 fun t => ?_)
  have hcount : (s.futexBlockers.map (·.thread)).count t = s.futexBlockers.countP (·.thread = t) := by
    rw [List.count, List.countP_map]
    rfl
  have hle := h.refs_le t
  have := h.once t
  unfold refs at hle
  rw [hcount]
  omega

/-- Inside a system call a wake of at least one waiter wakes waiters of its word only, and as many as it can. -/
theorem wake_wakesWaiters {s : Scheduler} (h : InCall s) (wordPtr : Nat) {nbWaiters : Nat} (hn : 1 ≤ nbWaiters) :
    ∃ nbWoken s', s.wake wordPtr nbWaiters = .ok (nbWoken, s') ∧ WakesWaiters s wordPtr nbWaiters nbWoken s' := by
  have hready := h.wakeReady
  obtain ⟨⟨nbWoken, s'⟩, hok, hw⟩ := (hready.wakes wordPtr nbWaiters).total
  have htaken := hready.calm.taken wordPtr hn
  have hsub : (s.taken wordPtr nbWaiters).Sublist s.futexBlockers := by
    rw [htaken]
    exact first_sublist _ _ _
  have hcount : nbWoken = (s.taken wordPtr nbWaiters).length := hw.nbWoken
  refine ⟨nbWoken, s', hok, ?_, s.taken wordPtr nbWaiters, ?_, hcount.symm, ?_, hw.woke.runnable, ?_, fun b hb => ?_,
    hw.frame⟩
  · rw [hcount, htaken, length_first, waiters, List.countP_eq_length_filter]
  · have hall : (s.taken wordPtr nbWaiters).filter (fun b => b.wordPtr = wordPtr) = s.taken wordPtr nbWaiters := by
      rw [List.filter_eq_self, htaken]
      exact fun b hb => first_matches (p := fun b : FutexBlocker => decide (b.wordPtr = wordPtr)) hb
    rw [← hall]
    exact hsub.filter _
  · rw [hw.kept]
    exact first_append_without _ _ _
  · refine List.perm_iff_count.2 fun t => ?_
    have hblocked : s'.blockedThreads.count t + _ = _ := hw.woke.blocked t
    rw [List.count_append, ← hblocked, Nat.add_comm]
  · rw [hw.result (hready.nodup hsub) b hb, wakeResult, hready.calm b (hsub.subset hb)]
    rfl

/-- A second thread waits on a word, and the first begins a call. -/
def waitRun : List WorkerAction :=
  System.callTurn (.clone System.threadFlags 4096 0 0) ++ System.callTurn (.futex 256 0 0 0 0 0) ++ System.beginCall

theorem wake_wakesWaiters_one : ∃ s : Scheduler, s.waiters 256 = [⟨1, 256, 0, none⟩] ∧
    ∃ nbWoken s', s.wake 256 2 = .ok (nbWoken, s') ∧ WakesWaiters s 256 2 nbWoken s' := by
  have hrun : (System.machine.run (System.initial 2 100 (fun _ _ => some 0)) waitRun).map (fun sys =>
      (sys.workers[0]?, sys.scheduler.waiters 256)) = some (some (.kernel ⟨0, .KERNEL, false⟩ false),
        [⟨1, 256, 0, none⟩]) := by decide
  obtain ⟨sys, hsys, heq⟩ := Option.map_eq_some_iff.1 hrun
  obtain ⟨hw, hwaiters⟩ := Prod.mk.inj heq
  have hinit : System.machine.Reachable (System.initial 2 100 (fun _ _ => some 0)) :=
    Machine.Reachable.init ⟨_, _, _, rfl⟩
  have hreach := hinit.run waitRun hsys
  exact ⟨sys.scheduler, hwaiters, wake_wakesWaiters (.start hreach hw) 256 (by decide)⟩

end Scheduler

end X64Emulator
