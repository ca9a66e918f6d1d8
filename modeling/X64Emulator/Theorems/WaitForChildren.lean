import X64Emulator.Lemmas.WorkerSteps

/-!
# Waiting for children

A wait that must not hang returns at once when no child has exited. When one has, the thread blocks like any other, unless
stopped children are asked for as well: then the first exited child is reported, whichever child the call asks for.
-/

namespace X64Emulator

open Outcome

namespace Scheduler

/-- The exited children that a thread's process has not waited for. -/
def exitedOf (s : Scheduler) (thread : Nat) : List ExitedChild := (s.processAt (s.processOf thread)).exitedChildren

/-- The pid of a call asks for a child: a positive one for that child, -1 for any, and another for the children of a group. -/
def AsksFor (inGroup : Int → Int → Prop) (pid child : Int) : Prop :=
  if 0 < pid then child = pid else if pid = -1 then True else inGroup pid child

/-- The word that reports how a child exited. -/
def statusWord (ec : ExitedChild) : Nat := toRegister (ec.status * 256 + ec.signal.getD 0) % 2 ^ 32

def StatusWritten (s : Scheduler) (thread wstatus : Nat) (ec : ExitedChild) : Prop :=
  wstatus = 0 ∨ read32 s.memory (s.spaceOf thread) wstatus = .ok (statusWord ec)

variable {inGroup : Int → Int → Prop} {s s' : Scheduler} {current wstatus : Nat} {pid ret : Int} {options : WaitOptions}

/-- The call returns without blocking the thread: 0 when no child that it asks for has exited, and otherwise the pid of one that
has, whose status is written and whose record is gone. -/
def ReturnsAtOnce (inGroup : Int → Int → Prop) (s : Scheduler) (current : Nat) (pid : Int) (wstatus : Nat)
    (options : WaitOptions) : Prop :=
  ∃ ret s', s.sysWait4 current pid wstatus options = .ok (ret, s') ∧ s'.blockedThreads = s.blockedThreads ∧
    ((∀ ec ∈ s.exitedOf current, ¬ AsksFor inGroup pid ec.pid) → ret = 0 ∧ s'.exitedOf current = s.exitedOf current) ∧
    ((∃ ec ∈ s.exitedOf current, AsksFor inGroup pid ec.pid) → ∃ ec ∈ s.exitedOf current, AsksFor inGroup pid ec.pid ∧
      ret = ec.pid ∧ StatusWritten s' current wstatus ec ∧ s'.exitedOf current = (s.exitedOf current).erase ec)

/-- The records of the children that a call does not ask for are the same in a later state. -/
def KeepsOthers (inGroup : Int → Int → Prop) (pid : Int) (current : Nat) (s s' : Scheduler) : Prop :=
  ∀ ec, ¬ AsksFor inGroup pid ec.pid → (s'.exitedOf current).count ec = (s.exitedOf current).count ec

/-- Neither the call nor, where it blocks the thread, the end of the wait takes the record of a child that it does not ask for. -/
def TakesOnlyItsOwn (inGroup : Int → Int → Prop) (s : Scheduler) (current : Nat) (pid : Int) (wstatus : Nat)
    (options : WaitOptions) : Prop :=
  (∀ ret s', s.sysWait4 current pid wstatus options = .ok (ret, s') → KeepsOthers inGroup pid current s s') ∧
    ∀ t t', tryUnblockWait t ⟨current, pid, wstatus⟩ = .ok (some t') → KeepsOthers inGroup pid current t t'

/-- What a wait has to do. -/
def WaitsRight (inGroup : Int → Int → Prop) (s : Scheduler) (current : Nat) (pid : Int) (wstatus : Nat)
    (options : WaitOptions) : Prop :=
  if options.nohang then ReturnsAtOnce inGroup s current pid wstatus options
  else TakesOnlyItsOwn inGroup s current pid wstatus options

/-! ## What the call does -/

/-- A wait blocks the thread, and leaves the processes as they are. -/
theorem waitForChild_eq_ok (h : s.waitForChild current pid wstatus = .ok (ret, s')) :
    s'.blockedThreads = s.blockedThreads ++ [current] ∧ s'.exitedOf current = s.exitedOf current := by
  obtain ⟨s₁, h₁, h⟩ := bind_eq_ok.1 h
  obtain ⟨-, -, h₁⟩ := bind_eq_ok.1 h₁
  obtain ⟨s₂, h₂, h₁⟩ := bind_eq_ok.1 h₁
  obtain ⟨-, -, h₂⟩ := bind_eq_ok.1 h₂
  cases h
  cases h₁
  cases h₂
  refine ⟨rfl, ?_⟩
  simp [exitedOf, processOf, yieldThread, setThread]

/-- Any exited child: the first one, with the child it is the record of. -/
theorem tryRetrieveAnyExitedChild_cons {p : Nat} {ec : ExitedChild} {rest : List ExitedChild}
    (h : (s.processAt p).exitedChildren = ec :: rest) :
    s.tryRetrieveAnyExitedChild p = demand (s.tryGetChild p ec.pid) >>= fun child =>
      .ok (some (ec, s.setProcess p (fun process => { process with
        children := process.children.filter (fun c => c ≠ child), exitedChildren := rest }))) := by
  unfold tryRetrieveAnyExitedChild
  rw [h]

theorem tryRetrieveAnyExitedChild_nil {p : Nat} (h : (s.processAt p).exitedChildren = []) :
    s.tryRetrieveAnyExitedChild p = .ok none := by
  unfold tryRetrieveAnyExitedChild
  rw [h]

theorem exitedOf_setProcess (f : Process → Process) :
    (s.setProcess (s.processOf current) f).exitedOf current =
      (f (s.processAt (s.processOf current))).exitedChildren := by
  simp [exitedOf, setProcess, processOf]

/-- A wait for stopped children too reports the first exited child, without its status. -/
theorem sysWait4_untraced (pid : Int) (wstatus : Nat) {ec : ExitedChild} {rest : List ExitedChild}
    (hchildren : (s.processAt (s.processOf current)).children ≠ []) (huntraced : options.untraced = true)
    (hexited : s.exitedOf current = ec :: rest) :
    (s.tryGetChild (s.processOf current) ec.pid = none ∧
      s.sysWait4 current pid wstatus options = .error .verification) ∨
    ∃ child s', s.tryGetChild (s.processOf current) ec.pid = some child ∧
      s.sysWait4 current pid wstatus options = .ok (ec.pid, s') ∧ s'.blockedThreads = s.blockedThreads ∧
      s'.memory = s.memory ∧ s'.spaceOf current = s.spaceOf current ∧ s'.exitedOf current = rest := by
  unfold sysWait4
  simp only [List.isEmpty_iff, hchildren, if_false, huntraced, if_true, tryRetrieveAnyExitedChild_cons hexited]
  cases hchild : s.tryGetChild (s.processOf current) ec.pid with
  | none => exact .inl ⟨rfl, rfl⟩
  | some child =>
    refine .inr ⟨child, _, rfl, rfl, rfl, rfl, ?_, ?_⟩
    · simp [spaceOf, setProcess, processOf]
    · rw [exitedOf_setProcess]

/-- In every other case a call that has children returns 0 at once, if it must not hang and no child has exited, or waits. -/
theorem sysWait4_otherwise (hchildren : (s.processAt (s.processOf current)).children ≠ [])
    (h : options.untraced = false ∨ s.exitedOf current = []) :
    s.sysWait4 current pid wstatus options =
      if options.untraced = false ∧ options.nohang = true ∧ s.exitedOf current = [] then .ok (0, s)
      else s.waitForChild current pid wstatus := by
  unfold sysWait4
  simp only [List.isEmpty_iff, hchildren, if_false]
  cases huntraced : options.untraced with
  | false =>
    simp [exitedOf]
  | true =>
    rw [huntraced] at h
    have hnil : (s.processAt (s.processOf current)).exitedChildren = [] := h.resolve_left (by simp)
    simp [tryRetrieveAnyExitedChild_nil hnil]
    rfl

/-! ## When the call must not hang -/

/-- The record that was taken is the first one, if all others are left. -/
theorem eq_of_erase_eq_tail {ec ec' : ExitedChild} {rest : List ExitedChild} (hmem : ec' ∈ ec :: rest)
    (h : rest = (ec :: rest).erase ec') : ec' = ec := by
  by_contra hne
  have hcount := congrArg (List.count ec') h
  have hpos : 0 < (ec :: rest).count ec' := List.count_pos_iff.2 hmem
  rw [List.count_erase_self, List.count_cons_of_ne (Ne.symm hne)] at hcount
  rw [List.count_cons_of_ne (Ne.symm hne)] at hpos
  omega

/-- The process has children, and either no child has exited, or stopped children are asked for too, the first exited child is one
that the call asks for, and its status needs no writing. -/
def NeedsNoWait (inGroup : Int → Int → Prop) (s : Scheduler) (current : Nat) (pid : Int) (wstatus : Nat)
    (options : WaitOptions) : Prop :=
  (s.processAt (s.processOf current)).children ≠ [] ∧
    ((options.untraced = false ∧ s.exitedOf current = []) ∨
      options.untraced = true ∧ ∃ ec rest, s.exitedOf current = ec :: rest ∧
        (s.tryGetChild (s.processOf current) ec.pid).isSome = true ∧ AsksFor inGroup pid ec.pid ∧
        StatusWritten s current wstatus ec)

theorem needsNoWait_of_returnsAtOnce
    (h : ReturnsAtOnce inGroup s current pid wstatus options) : NeedsNoWait inGroup s current pid wstatus options := by
  obtain ⟨ret, s', hok, hblocked, hnone, hsome⟩ := h
  by_cases hchildren : (s.processAt (s.processOf current)).children = []
  · -- The call fails with an error, which is neither 0 nor takes a record.
    have hfail : s.sysWait4 current pid wstatus options = .ok (-ECHILD, s) := by
      unfold sysWait4
      simp [hchildren]
    obtain ⟨rfl, rfl⟩ := ok_pair (hfail.symm.trans hok)
    by_cases hany : ∃ ec ∈ s.exitedOf current, AsksFor inGroup pid ec.pid
    · obtain ⟨ec, hmem, -, -, -, herase⟩ := hsome hany
      have hlength := congrArg List.length herase
      have := List.length_pos_of_mem hmem
      rw [List.length_erase_of_mem hmem] at hlength
      omega
    · exact absurd (hnone fun ec hmem hasks => hany ⟨ec, hmem, hasks⟩).1 (by decide)
  · refine ⟨hchildren, ?_⟩
    by_cases hfirst : options.untraced = true ∧ s.exitedOf current ≠ []
    · obtain ⟨huntraced, hexited⟩ := hfirst
      obtain ⟨ec, rest, hexited⟩ := List.exists_cons_of_ne_nil hexited
      rcases sysWait4_untraced pid wstatus hchildren huntraced hexited with
        ⟨-, herror⟩ | ⟨child, s'', hchild, hok', -, hmemory, hspace, hrest⟩
      · rw [herror] at hok
        cases hok
      · obtain ⟨rfl, rfl⟩ := ok_pair (hok'.symm.trans hok)
        rw [hexited, hrest] at hnone hsome
        by_cases hany : ∃ ec' ∈ ec :: rest, AsksFor inGroup pid ec'.pid
        · obtain ⟨ec', hmem, hasks, -, hwritten, herase⟩ := hsome hany
          obtain rfl := eq_of_erase_eq_tail hmem herase
          refine .inr ⟨huntraced, ec', rest, hexited, by rw [hchild]; rfl, hasks, ?_⟩
          unfold StatusWritten at hwritten ⊢
          rwa [hmemory, hspace] at hwritten
        · have hlength := congrArg List.length (hnone fun ec' hmem hasks => hany ⟨ec', hmem, hasks⟩).2
          simp at hlength
    · have hother : options.untraced = false ∨ s.exitedOf current = [] := by
        cases huntraced : options.untraced with
        | false => exact .inl rfl
        | true =>
          right
          by_contra hexited
          exact hfirst ⟨huntraced, hexited⟩
      rw [sysWait4_otherwise hchildren hother] at hok
      split at hok
      · next hquick => exact .inl ⟨hquick.1, hquick.2.2⟩
      · have hlength := congrArg List.length ((waitForChild_eq_ok hok).1.symm.trans hblocked)
        simp at hlength

theorem returnsAtOnce_of_needsNoWait (hnohang : options.nohang = true)
    (h : NeedsNoWait inGroup s current pid wstatus options) : ReturnsAtOnce inGroup s current pid wstatus options := by
  obtain ⟨hchildren, ⟨huntraced, hexited⟩ | ⟨huntraced, ec, rest, hexited, hchild, hasks, hwritten⟩⟩ := h
  · refine ⟨0, s, ?_, rfl, fun _ => ⟨rfl, rfl⟩, ?_⟩
    · rw [sysWait4_otherwise hchildren (.inl huntraced), if_pos ⟨huntraced, hnohang, hexited⟩]
    · rintro ⟨ec, hmem, -⟩
      rw [hexited] at hmem
      cases hmem
  · rcases sysWait4_untraced pid wstatus hchildren huntraced hexited with
      ⟨hnone, -⟩ | ⟨child, s', -, hok, hblocked, hmemory, hspace, hrest⟩
    · rw [hnone] at hchild
      cases hchild
    · refine ⟨ec.pid, s', hok, hblocked, fun hnone => ?_, fun _ => ⟨ec, ?_, hasks, rfl, ?_, ?_⟩⟩
      · exact absurd hasks (hnone ec (by rw [hexited]; exact List.mem_cons_self))
      · rw [hexited]
        exact List.mem_cons_self
      · unfold StatusWritten at hwritten ⊢
        rwa [hmemory, hspace]
      · rw [hexited, hrest, List.erase_cons_head]

/-! ## When it may -/

/-- Stopped children are not asked for, or the first exited child is one that the call asks for, if there is one to be reported. -/
def FirstIsItsOwn (inGroup : Int → Int → Prop) (s : Scheduler) (current : Nat) (pid : Int) (options : WaitOptions) : Prop :=
  (s.processAt (s.processOf current)).children = [] ∨ options.untraced = false ∨
    ∀ ec rest, s.exitedOf current = ec :: rest →
      s.tryGetChild (s.processOf current) ec.pid = none ∨ AsksFor inGroup pid ec.pid

theorem count_eraseP_of_neg {p : ExitedChild → Bool} {ec : ExitedChild} (h : p ec = false) (l : List ExitedChild) :
    (l.eraseP p).count ec = l.count ec := by
  induction l with
  | nil => rfl
  | cons a l ih =>
    cases ha : p a with
    | true =>
      have hne : a ≠ ec := by
        rintro rfl
        rw [h] at ha
        cases ha
      rw [List.eraseP_cons_of_pos ha, List.count_cons_of_ne hne]
    | false =>
      rw [List.eraseP_cons_of_neg (by simp [ha]), List.count_cons, List.count_cons, ih]

theorem reportExitedChild_exitedOf {blocker : WaitBlocker} {ec : ExitedChild} (h : s.reportExitedChild blocker ec = .ok s') :
    s'.exitedOf current = s.exitedOf current := by
  have hrax : (s.setRax blocker.thread ec.pid).exitedOf current = s.exitedOf current := by
    simp only [exitedOf, processOf, setRax, setThread]
    split <;> simp [*]
  unfold reportExitedChild at h
  split at h
  · cases h
    exact hrax
  · obtain ⟨memory, -, h⟩ := bind_eq_ok.1 h
    cases h
    exact hrax

/-- The end of a wait takes the record of a child that was asked for. -/
theorem tryUnblockWait_keepsOthers {t t' : Scheduler} (h : tryUnblockWait t ⟨current, pid, wstatus⟩ = .ok (some t')) :
    KeepsOthers inGroup pid current t t' := by
  obtain ⟨_, hpid, h⟩ := bind_eq_ok.1 h
  obtain ⟨found, hfound, h⟩ := bind_eq_ok.1 h
  have hpid : 0 < pid ∨ pid = -1 := check_eq_ok.1 hpid
  intro ec hasks
  have hpos : 0 < pid := by
    rcases hpid with hpos | rfl
    · exact hpos
    · exact absurd trivial hasks
  have hne : ec.pid ≠ pid := by
    intro heq
    unfold AsksFor at hasks
    rw [if_pos hpos] at hasks
    exact hasks heq
  unfold retrieveFor tryRetrieveExitedChild at hfound
  rw [if_pos hpos] at hfound
  obtain ⟨child, -, hfound⟩ := bind_eq_ok.1 hfound
  split at hfound
  · cases hfound
    obtain ⟨t₁, ht₁, rfl⟩ : ∃ t₁, _ = Except.ok t₁ ∧ t₁ = t' := by
      simpa only [map_eq_ok, Option.some.injEq] using h
    rw [reportExitedChild_exitedOf ht₁, exitedOf_setProcess]
    exact count_eraseP_of_neg (by simpa using hne) _
  · cases hfound
    cases h

theorem takesOnlyItsOwn_iff (hnohang : options.nohang = false) :
    TakesOnlyItsOwn inGroup s current pid wstatus options ↔ FirstIsItsOwn inGroup s current pid options := by
  constructor
  · rintro ⟨hcall, -⟩
    by_contra hown
    unfold FirstIsItsOwn at hown
    push Not at hown
    obtain ⟨hchildren, huntraced, ec, rest, hexited, hchild, hasks⟩ := hown
    rcases sysWait4_untraced pid wstatus hchildren (by simpa using huntraced) hexited with
      ⟨hnone, -⟩ | ⟨child, s', -, hok, -, -, -, hrest⟩
    · exact hchild hnone
    · have hcount := hcall _ _ hok ec hasks
      rw [hexited, hrest, List.count_cons_self] at hcount
      omega
  · intro hown
    refine ⟨fun ret s' hok ec hasks => ?_, fun t t' h => tryUnblockWait_keepsOthers h⟩
    by_cases hchildren : (s.processAt (s.processOf current)).children = []
    · unfold sysWait4 at hok
      simp only [hchildren, List.isEmpty_nil, if_true, Except.ok.injEq, Prod.mk.injEq] at hok
      rw [hok.2]
    · by_cases hother : options.untraced = false ∨ s.exitedOf current = []
      · rw [sysWait4_otherwise hchildren hother, if_neg (by simp [hnohang])] at hok
        rw [(waitForChild_eq_ok hok).2]
      · push Not at hother
        obtain ⟨first, rest, hexited⟩ := List.exists_cons_of_ne_nil hother.2
        rcases sysWait4_untraced pid wstatus hchildren (by simpa using hother.1) hexited with
          ⟨-, herror⟩ | ⟨child, s'', hchild, hok', -, -, -, hrest⟩
        · rw [herror] at hok
          cases hok
        · obtain ⟨rfl, rfl⟩ := ok_pair (hok'.symm.trans hok)
          have hfirst := ((hown.resolve_left hchildren).resolve_left hother.1) first rest hexited
          rw [hchild] at hfirst
          have hne : first ≠ ec := by
            rintro rfl
            exact hasks (hfirst.resolve_left (by simp))
          rw [hexited, hrest, List.count_cons_of_ne hne]

/-- In every state a wait does what it has to exactly where it needs no wait, if it must not hang, and where the first exited child
is one that it asks for, if it may. -/
theorem wait4_iff (inGroup : Int → Int → Prop) (s : Scheduler) (current : Nat) (pid : Int) (wstatus : Nat)
    (options : WaitOptions) :
    WaitsRight inGroup s current pid wstatus options ↔
      if options.nohang then NeedsNoWait inGroup s current pid wstatus options
      else FirstIsItsOwn inGroup s current pid options := by
  unfold WaitsRight
  cases hnohang : options.nohang with
  | true => exact ⟨needsNoWait_of_returnsAtOnce, returnsAtOnce_of_needsNoWait hnohang⟩
  | false => exact takesOnlyItsOwn_iff hnohang

/-- A new process with memory of its own. -/
def childFlags : CloneFlags :=
  { System.threadFlags with
    childClearTid := false, cloneSignalHandlers := false, cloneFiles := false, cloneFs := false, parentSetTid := false,
    setTls := false, cloneThread := false, cloneVm := false }

/-- A process has two children, the first of which has exited, and begins a call. -/
def twoChildrenRun : List WorkerAction :=
  System.callTurn (.clone childFlags 0 0 0) ++ System.callTurn (.exit_group 7) ++ System.callTurn (.clone childFlags 0 0 0) ++
    System.callTurn .sched_yield ++ System.beginCall

/-- A wait for the second child that must not hang blocks, and one that asks for stopped children takes the record of the first. -/
theorem wait4_fails : ∃ sys, System.machine.Reachable sys ∧ sys.workers[0]? = some (.kernel ⟨0, .KERNEL, false⟩ false) ∧
    ∀ inGroup, ¬ WaitsRight inGroup sys.scheduler 0 102 0 ⟨true, false⟩ ∧
      ¬ WaitsRight inGroup sys.scheduler 0 102 0 ⟨false, true⟩ := by
  have hrun : (System.machine.run (System.initial 1 100 (fun _ _ => some 0)) twoChildrenRun).map (fun sys =>
      (sys.workers[0]?, sys.scheduler.exitedOf 0, (sys.scheduler.processAt (sys.scheduler.processOf 0)).children,
        sys.scheduler.tryGetChild (sys.scheduler.processOf 0) 101)) =
      some (some (.kernel ⟨0, .KERNEL, false⟩ false), [⟨101, 7, none⟩], [1, 2], some 1) := by decide
  obtain ⟨sys, hsys, heq⟩ := Option.map_eq_some_iff.1 hrun
  simp only [Prod.mk.injEq] at heq
  obtain ⟨hworker, hexited, hchildren, hchild⟩ := heq
  have hinit : System.machine.Reachable (System.initial 1 100 (fun _ _ => some 0)) := Machine.Reachable.init ⟨_, _, _, rfl⟩
  refine ⟨sys, hinit.run twoChildrenRun hsys, hworker, fun inGroup => ⟨fun h => ?_, fun h => ?_⟩⟩
  · obtain ⟨-, ⟨-, hnone⟩ | ⟨huntraced, -⟩⟩ := needsNoWait_of_returnsAtOnce h
    · rw [hexited] at hnone
      cases hnone
    · cases huntraced
  · rcases (takesOnlyItsOwn_iff rfl).1 h with hnone | huntraced | hown
    · rw [hchildren] at hnone
      cases hnone
    · cases huntraced
    · rcases hown _ _ hexited with hnone | hasks
      · rw [hchild] at hnone
        cases hnone
      · exact absurd hasks (by simp [AsksFor])

end Scheduler

end X64Emulator
