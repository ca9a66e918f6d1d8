import X64Emulator.Lemmas.WorkerSteps

/-!
# Where threads stand, over whole runs

Every thread is in one of three lists and blocked by one blocker, as long as no thread is terminated while it is suspended until
an address space is released: the end of a thread erases its blockers from seven of the eight lists.
-/

namespace X64Emulator

open Outcome

namespace Scheduler

/-- How many blockers of the eight lists refer to a thread. -/
def nbBlockers (s : Scheduler) (t : Nat) : Nat := s.refs t + s.vmRefs t

/-- What a user of the scheduler relies on. -/
structure ThreadsInPlace (s : Scheduler) : Prop where
  /-- a thread is once in one of the three lists -/
  one : ∀ t ∈ s.threads,
    (s.runningJobs.map (·.thread)).count t + s.runnableThreads.count t + s.blockedThreads.count t = 1
  blocked : ∀ t, t ∈ s.blockedThreads ↔ s.nbBlockers t = 1
  atMostOne : ∀ t, s.nbBlockers t ≤ 1
  /-- no list refers to a thread that is not there any more -/
  gone : ∀ t, t ∉ s.threads → (∀ job ∈ s.runningJobs, job.thread ≠ t) ∧ t ∉ s.runnableThreads ∧ t ∉ s.blockedThreads ∧
    s.nbBlockers t = 0

theorem Ledger.threadsInPlace {s : Scheduler} (h : s.Ledger True) : s.ThreadsInPlace := by
  have hrunning : ∀ t, (s.runningJobs.map (·.thread)).count t = (s.tally t).running := by
    intro t
    rw [List.count, List.countP_map]
    rfl
  have hblocked : ∀ t, (s.tally t).refs + (s.tally t).vmRefs = (s.tally t).blocked := by
    intro t
    have hok := h.ok t
    have := hok.blocker
    have := hok.gone
    have := hok.vmGone trivial
    have := hok.place
    omega
  have hle : ∀ t, (s.tally t).blocked ≤ 1 := by
    intro t
    have hok := h.ok t
    have := hok.place
    have := hok.once
    omega
  refine ⟨fun t ht => ?_, fun t => ?_, fun t => Nat.le_trans (Nat.le_of_eq (hblocked t)) (hle t), fun t ht => ?_⟩
  · have hpos : 0 < (s.tally t).threads := List.count_pos_iff.2 ht
    have hok := h.ok t
    have := hok.once
    rw [hrunning]
    exact hok.place.trans (by omega)
  · have hmem : t ∈ s.blockedThreads ↔ 0 < (s.tally t).blocked := List.count_pos_iff.symm
    have hnb : s.nbBlockers t = (s.tally t).blocked := hblocked t
    have := hle t
    rw [hmem, hnb]
    omega
  · have hzero : (s.tally t).threads = 0 := List.count_eq_zero.2 ht
    have hplace := (h.ok t).place
    have hnb : s.nbBlockers t = (s.tally t).blocked := hblocked t
    have hnone : (s.tally t).running = 0 := by omega
    have hrunnable : (s.tally t).runnable = 0 := by omega
    have hnot : (s.tally t).blocked = 0 := by omega
    refine ⟨fun job hjob hthread => ?_, List.count_eq_zero.1 hrunnable, List.count_eq_zero.1 hnot, by omega⟩
    exact List.countP_eq_zero.1 hnone job hjob (decide_eq_true hthread)

theorem Ledger.mono {P Q : Prop} {s : Scheduler} (h : s.Ledger P) (hQP : Q → P) : s.Ledger Q := by
  refine ⟨fun t => ?_, h.fresh, h.timer⟩
  have hok := h.ok t
  exact ⟨hok.once, hok.place, hok.blocker, hok.gone, fun hQ => hok.vmGone (hQP hQ)⟩

end Scheduler

namespace System

open Scheduler

/-- A blocked thread is never missed by the call that unblocks it, even where the call ends a suspended thread. -/
theorem Inv.not_lost {sys : System} (h : sys.Inv True) {action : WorkerAction} (henabled : sys.enabled action = true) :
    sys.exec action ≠ .error .notBlocked := by
  intro hfail
  have hcall : ∀ worker call, sys.exec (.syscall worker call) ≠ .error .notBlocked := by
    intro worker call hfail
    have hinv : sys.Inv False := ⟨h.ledger.mono fun hF => hF.elim, h.num, h.mode⟩
    exact (syscall_post (Q := True) hinv fun hF => hF.elim).of_error hfail (lost_notBlocked.2 trivial)
  have hspares : (∀ worker call, action ≠ .syscall worker call) → sys.SparesSuspended action := by
    intro hne t ht
    cases action with
    | syscall worker call => exact absurd rfl (hne worker call)
    | _ => cases ht
  by_cases hsys : ∃ worker call, action = .syscall worker call
  · obtain ⟨worker, call, rfl⟩ := hsys
    exact hcall worker call hfail
  · refine (exec_post h henabled fun _ => hspares fun worker call he => hsys ⟨worker, call, he⟩).of_error hfail ?_
    exact lost_notBlocked.2 trivial

/-- In a run that never terminates a suspended thread, every thread is in its place, and no step misses a blocked thread. -/
theorem threads_in_place {sys : System} (h : machine.ReachableUnder SparesSuspended sys) :
    sys.scheduler.ThreadsInPlace ∧ ∀ action, sys.enabled action = true → sys.exec action ≠ .error .notBlocked := by
  have hinv : sys.Inv True := reachableUnder_inv (fun _ _ hc _ => hc) h
  exact ⟨hinv.ledger.threadsInPlace, fun _ => hinv.not_lost⟩

/-- `clone` of a process that shares the address space, with its parent suspended. -/
def vforkFlags : CloneFlags where
  childClearTid := false
  childSetTid := false
  clearSignalHandlers := false
  cloneSignalHandlers := false
  cloneFiles := false
  cloneFs := false
  cloneIo := false
  cloneParent := false
  parentSetTid := false
  clonePidFd := false
  setTls := false
  cloneThread := false
  cloneVm := true
  cloneVfork := true

/-- A second thread of the first process suspends itself with a vfork. -/
def vforkRun : List WorkerAction := callTurn (.clone threadFlags 4096 0 0) ++ callTurn (.clone vforkFlags 4096 0 0)

theorem sparesSuspended_of_nil {action : WorkerAction} (h : ∀ sys : System, sys.terminatedBy action = []) (sys : System) :
    sys.SparesSuspended action := by
  intro t ht
  rw [h sys] at ht
  cases ht

theorem vforkRun_spares : ∀ action ∈ vforkRun, ∀ sys : System, sys.SparesSuspended action := by
  have hcall : ∀ flags stack, ∀ action ∈ callTurn (.clone flags stack 0 0), ∀ sys : System,
      sys.SparesSuspended action := by
    intro flags stack action haction
    refine sparesSuspended_of_nil fun sys => ?_
    simp only [callTurn, beginCall, userTurn, List.cons_append, List.nil_append, List.mem_cons, List.not_mem_nil,
      or_false] at haction
    rcases haction with rfl | rfl | rfl | rfl | rfl | rfl | rfl | rfl
    all_goals try rfl
    simp only [terminatedBy, Scheduler.terminatedBy]
    split <;> rfl
  intro action haction
  rcases List.mem_append.1 haction with haction | haction
  · exact hcall _ _ action haction
  · exact hcall _ _ action haction

/-- The suspended thread is blocked by one blocker, beside a runnable thread of each process. -/
theorem threads_in_place_vfork : ∃ sys, machine.run (initial 2 100 (fun _ _ => some 0)) vforkRun = some sys ∧
    sys.scheduler.blockedThreads = [1] ∧ sys.scheduler.ThreadsInPlace ∧
      ∀ action, sys.enabled action = true → sys.exec action ≠ .error .notBlocked := by
  have hblocked : (machine.run (initial 2 100 (fun _ _ => some 0)) vforkRun).map (·.scheduler.blockedThreads) =
      some [1] := by decide
  obtain ⟨sys, hsys, hblocked⟩ := Option.map_eq_some_iff.1 hblocked
  have hinit : machine.ReachableUnder SparesSuspended (initial 2 100 (fun _ _ => some 0)) := .init ⟨_, _, _, rfl⟩
  exact ⟨sys, hsys, hblocked, threads_in_place (hinit.run vforkRun vforkRun_spares hsys)⟩

/-- The first thread ends the group, its suspended thread among it; the child then gives the address space up. -/
def strandedRun : List WorkerAction :=
  vforkRun ++ callTurn (.exit_group 0) ++ callTurn (.execve (.ok (fun _ => some 0)))

/-- A blocker still refers to the thread that was terminated, and the next worker that looks for a job fails over it. -/
theorem threads_in_place_fails : ¬ ∀ sys, machine.Reachable sys →
    sys.scheduler.ThreadsInPlace ∧ ∀ action, sys.enabled action = true → sys.exec action ≠ .error .notBlocked := by
  intro h
  have hrun : (machine.run (initial 2 100 (fun _ _ => some 0)) strandedRun).map (fun sys =>
      (sys.enabled (.tryPickNext 0 silentFiles), match sys.exec (.tryPickNext 0 silentFiles) with
        | .ok _ => none
        | .error e => some e)) = some (true, some .notBlocked) := by decide
  obtain ⟨sys, hsys, hfail⟩ := Option.map_eq_some_iff.1 hrun
  obtain ⟨henabled, hfail⟩ := Prod.mk.inj hfail
  refine (h sys (Machine.Reachable.run strandedRun (Machine.Reachable.init ⟨_, _, _, rfl⟩) hsys)).2 _ henabled ?_
  split at hfail
  · cases hfail
  · next e he => rw [he, Option.some.inj hfail]

end System

end X64Emulator
