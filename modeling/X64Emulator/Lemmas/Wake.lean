import X64Emulator.Lib.Choose
import X64Emulator.Lemmas.Ledger

/-!
# Which blockers a wake takes

A wake goes through the one list of futex blockers of all processes and takes the first that it can: those on its word, and
those whose time limit has passed, on whatever word they wait.
-/

namespace X64Emulator

open Outcome Choose

namespace Scheduler

/-- The time limit of a blocker has passed. -/
def expired (s : Scheduler) (blocker : FutexBlocker) : Bool :=
  match blocker.timeLimit, getTimer s.timers 0 with
  | some limit, some timer => timer.now.gt limit
  | _, _ => false

/-- The blockers that a wake of a word can take. -/
def canUnblock (s : Scheduler) (wordPtr : Nat) (blocker : FutexBlocker) : Bool :=
  s.expired blocker || decide (blocker.wordPtr = wordPtr)

/-- What the call of a taken blocker's thread returns. -/
def wakeResult (s : Scheduler) (blocker : FutexBlocker) : Int := if s.expired blocker then -ETIMEDOUT else 0

def rax (s : Scheduler) (t : Nat) : Nat := (s.threadAt t).rax

/-- A wake takes a blocker before it looks whether it has taken enough. -/
def atLeastOne (nbWaiters : Nat) : Nat := max nbWaiters 1

theorem tryUnblockFutex_post {bad : Failure → Prop} {s : Scheduler} (wordPtr : Nat) {blocker : FutexBlocker}
    (hv : bad .verification → s.HasTimer [blocker]) :
    Post bad (fun o => o = if s.canUnblock wordPtr blocker then some (s.setRax blocker.thread (s.wakeResult blocker))
      else none) (tryUnblockFutex wordPtr s blocker) := by
  have htime : Post bad (fun timeout => timeout = s.expired blocker) (s.timedOut blocker.timeLimit) := by
    unfold timedOut expired
    cases hlimit : blocker.timeLimit with
    | none => exact Post.ok rfl
    | some limit =>
      cases htimer : getTimer s.timers 0 with
      | some timer => exact Post.ok rfl
      | none =>
        refine Post.error fun hbad => ?_
        have := hv hbad blocker List.mem_cons_self (by rw [hlimit]; rfl)
        rw [htimer] at this
        cases this
  refine Post.bind htime fun timeout htimeout => ?_
  subst htimeout
  unfold canUnblock wakeResult
  refine Post.ite (fun h => Post.ok ?_) fun h => Post.ite (fun hword => Post.ok ?_) fun hword => Post.ok ?_
  · rw [h]
    rfl
  · rw [Bool.eq_false_iff.2 h, Bool.false_or, if_neg (by simpa using Ne.symm hword)]
  · rw [Bool.eq_false_iff.2 h, Bool.false_or, if_pos (by simpa using (not_not.1 hword).symm)]
    rfl

/-- What a loop leaves that wakes the threads of the blockers `taken`. -/
structure Released (s s' : Scheduler) (taken : List FutexBlocker) : Prop where
  moved : Moved s s' (taken.map (·.thread))
  frame : ∀ t, t ∉ taken.map (·.thread) → s'.rax t = s.rax t
  result : (taken.map (·.thread)).Nodup → ∀ blocker ∈ taken, s'.rax blocker.thread = toRegister (s.wakeResult blocker)

theorem Released.nil (s : Scheduler) : Released s s [] :=
  ⟨Moved.of_skeleton rfl, fun _ _ => rfl, fun _ _ h => absurd h List.not_mem_nil⟩

theorem Moved.expired {s s' : Scheduler} {woken : List Nat} (h : Moved s s' woken) : s'.expired = s.expired := by
  have htimers : s'.timers = s.timers := (congrArg Scheduler.timers h.skeleton :)
  funext blocker
  rw [Scheduler.expired, htimers]
  rfl

theorem Released.cons {s s₁ s' : Scheduler} {blocker : FutexBlocker} {taken : List FutexBlocker}
    (h₁ : Moved s s₁ [blocker.thread]) (hrax : s₁.rax = (s.setRax blocker.thread (s.wakeResult blocker)).rax)
    (h : Released s₁ s' taken) : Released s s' (blocker :: taken) := by
  have hset : ∀ t, s₁.rax t = if t = blocker.thread then toRegister (s.wakeResult blocker) else s.rax t := by
    intro t
    rw [hrax]
    simp only [rax, setRax, setThread]
    split <;> rfl
  refine ⟨h₁.trans h.moved, fun t ht => ?_, fun hnodup b hb => ?_⟩
  · rw [List.map_cons, List.mem_cons, not_or] at ht
    rw [h.frame t ht.2, hset, if_neg ht.1]
  · rw [List.map_cons, List.nodup_cons] at hnodup
    rcases List.mem_cons.1 hb with rfl | hb
    · rw [h.frame _ hnodup.1, hset, if_pos rfl]
    · rw [h.result hnodup.2 b hb, wakeResult, wakeResult, h₁.expired]

theorem wakeLoop_post {bad : Failure → Prop} (wordPtr nbWaiters nbWoken : Nat) (l : List FutexBlocker) (s : Scheduler)
    (hv : bad .verification → s.inKernel = true ∧ s.HasTimer l)
    (hle : bad .notBlocked → ∀ t, l.countP (·.thread = t) ≤ s.blockedThreads.count t) :
    Post bad (fun r =>
      r.1 = nbWoken + (first (s.canUnblock wordPtr) (atLeastOne (nbWaiters - nbWoken)) l).length ∧
      r.2.1 = without (s.canUnblock wordPtr) (atLeastOne (nbWaiters - nbWoken)) l ∧
      Released s r.2.2 (first (s.canUnblock wordPtr) (atLeastOne (nbWaiters - nbWoken)) l))
      (wakeLoop wordPtr nbWaiters nbWoken l s) := by
  induction l generalizing nbWoken s with
  | nil => exact Post.ok ⟨by simp, by simp, by simpa using Released.nil s⟩
  | cons blocker l ih =>
    refine Post.bind (tryUnblockFutex_post wordPtr fun h => ?_) fun o ho => ?_
    · intro b hb
      exact (hv h).2 b (List.mem_singleton.1 hb ▸ List.mem_cons_self)
    by_cases hcan : s.canUnblock wordPtr blocker = true
    · rw [if_pos hcan] at ho
      subst ho
      have hset : Moved s (s.setRax blocker.thread (s.wakeResult blocker)) [] :=
        Moved.of_skeleton (skeleton_setRax _ _ _)
      refine Post.bind (unblock_post (fun h => Or.inr (hv h).1) fun h => ?_) fun s₁ ⟨hs₁, hthread⟩ => ?_
      · have := hle h blocker.thread
        rw [List.countP_cons_of_pos (by simp)] at this
        exact List.count_pos_iff.1 (Nat.lt_of_lt_of_le (Nat.succ_pos _) this)
      have hmoved : Moved s s₁ [blocker.thread] := hset.trans hs₁
      have hrax : s₁.rax = (s.setRax blocker.thread (s.wakeResult blocker)).rax := by
        funext t
        rw [rax, rax, hthread]
      have hcan₁ : s₁.canUnblock wordPtr = s.canUnblock wordPtr := by
        funext b
        rw [canUnblock, canUnblock, hmoved.expired]
      refine Post.ite (fun henough => Post.ok ?_) fun hmore => ?_
      · have hone : atLeastOne (nbWaiters - nbWoken) = 0 + 1 := by
          unfold atLeastOne
          omega
        rw [hone, first_cons_pos hcan, without_cons_pos hcan, first_zero, without_zero]
        exact ⟨rfl, rfl, (Released.nil s₁).cons hmoved hrax⟩
      · have hnext : atLeastOne (nbWaiters - nbWoken) = atLeastOne (nbWaiters - (nbWoken + 1)) + 1 := by
          unfold atLeastOne
          omega
        rw [hnext, first_cons_pos hcan, without_cons_pos hcan, ← hcan₁]
        refine Post.mono (ih (nbWoken + 1) s₁ (fun h => ?_) fun h t => ?_) fun r ⟨hn, hkept, hreleased⟩ =>
          ⟨by rw [hn, List.length_cons]; omega, hkept, hreleased.cons hmoved hrax⟩
        · obtain ⟨hkernel, htimer⟩ := hv h
          have htimers : s₁.timers = s.timers := (congrArg Scheduler.timers hmoved.skeleton :)
          exact ⟨(congrArg Scheduler.inKernel hmoved.skeleton :) ▸ hkernel,
            fun b hb => by rw [htimers]; exact htimer b (List.mem_cons_of_mem _ hb)⟩
        · have := hle h t
          have := hmoved.blocked t
          rw [List.countP_cons] at *
          rw [List.count_singleton] at this
          simp only [beq_iff_eq, decide_eq_true_eq] at *
          omega
    · rw [if_neg hcan] at ho
      subst ho
      refine Post.bind (ih nbWoken s (fun h => ⟨(hv h).1, fun b hb => (hv h).2 b (List.mem_cons_of_mem _ hb)⟩)
        fun h t => ?_) fun (nbWoken', kept, s') ⟨hn, hkept, hreleased⟩ => Post.ok ?_
      · have := hle h t
        rw [List.countP_cons] at this
        omega
      · rw [first_cons_neg hcan, without_cons_neg hcan]
        exact ⟨hn, congrArg (blocker :: ·) hkept, hreleased⟩

/-- Every blocker is taken or kept. -/
theorem sorted_first (p : FutexBlocker → Bool) (n : Nat) (l : List FutexBlocker) :
    Sorted (·.thread) l (without p n l) ((first p n l).map (·.thread)) := by
  have hperm := first_append_without p n l
  refine ⟨without_sublist p n l, ?_, fun t => ?_⟩
  · rw [List.length_map, Nat.add_comm, ← List.length_append, hperm.length_eq]
  · have hcount : ((first p n l).map (·.thread)).count t = (first p n l).countP (·.thread = t) := by
      rw [List.count, List.countP_map]
      rfl
    rw [hcount, Nat.add_comm, ← List.countP_append, hperm.countP_eq]

theorem Ledger.refs_le {P : Prop} {s : Scheduler} (h : s.Ledger P) (t : Nat) : s.refs t ≤ s.blockedThreads.count t :=
  (h.ok t).refs_le

/-- The blockers a wake takes. -/
def taken (s : Scheduler) (wordPtr nbWaiters : Nat) : List FutexBlocker :=
  first (s.canUnblock wordPtr) (atLeastOne nbWaiters) s.futexBlockers

/-- What a wake leaves: it returns how many blockers it took, and their threads can run. -/
structure Wakes (s : Scheduler) (wordPtr nbWaiters nbWoken : Nat) (s' : Scheduler) : Prop where
  nbWoken : nbWoken = (s.taken wordPtr nbWaiters).length
  kept : s'.futexBlockers = without (s.canUnblock wordPtr) (atLeastOne nbWaiters) s.futexBlockers
  woke : Woke s s' ((s.taken wordPtr nbWaiters).map (·.thread))
  timers : s'.timers = s.timers
  vm : s'.vmReleaseBlockers = s.vmReleaseBlockers
  frame : ∀ t, t ∉ (s.taken wordPtr nbWaiters).map (·.thread) → s'.rax t = s.rax t
  result : ((s.taken wordPtr nbWaiters).map (·.thread)).Nodup → ∀ blocker ∈ s.taken wordPtr nbWaiters,
    s'.rax blocker.thread = toRegister (s.wakeResult blocker)

theorem wake_post {bad : Failure → Prop} {s : Scheduler} (wordPtr nbWaiters : Nat)
    (hv : bad .verification → s.inKernel = true ∧ s.HasTimer s.futexBlockers)
    (hle : ∀ t, s.refs t ≤ s.blockedThreads.count t) :
    Post bad (fun r => Wakes s wordPtr nbWaiters r.1 r.2) (s.wake wordPtr nbWaiters) := by
  refine Post.bind (Post.check fun h => (hv h).1) fun _ _ => Post.bind
    (wakeLoop_post wordPtr nbWaiters 0 _ s hv fun _ t => ?_) fun (nbWoken, kept, s') ⟨hn, hkept, hreleased⟩ => Post.ok ?_
  · have := hle t
    unfold refs at this
    omega
  · simp only at hn hkept hreleased
    rw [Nat.zero_add, Nat.sub_zero] at hn
    subst hkept
    exact ⟨hn, rfl, futexList_lawful.woke hreleased.moved (sorted_first _ _ _),
      (congrArg Scheduler.timers hreleased.moved.skeleton :), (congrArg Scheduler.vmReleaseBlockers hreleased.moved.skeleton :),
      hreleased.frame, hreleased.result⟩

end Scheduler

end X64Emulator
