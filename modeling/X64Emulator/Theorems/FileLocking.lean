import X64Emulator.FileLocks
import X64Emulator.Lemmas.FileRuns

/-!
# Exclusion by file locks

A file is locked through its open file descriptions. A lock is for one description, or shared by several; what must not happen is
that one description of a file is locked exclusively while another one is locked. The source looks at one description only, and
takes an exclusive lock where a shared one is asked for.
-/

namespace X64Emulator

open Outcome

namespace FileState

open FS

variable {s s' : FileState} {host : HostFiles} {depth : Nat} {action : FileAction} {answer : FileAnswer}

/-- An open file description stays one of its file. -/
theorem act_fileOf (hs : s.fs.Sound s.openDescriptions) (h : s.act depth host action = .ok (s', answer)) :
    s'.fs.Sound s'.openDescriptions ∧ ∀ d f, s.fs.fileOf d = some f → s'.fs.fileOf d = some f := by
  have hshifts : s.Shifts (fun _ _ _ => True) (fun _ _ => True) (fun _ _ => True) True depth s' :=
    act_shifts hs.tree allows_any (fun _ call _ => admitted_any host depth s.fs call)
      (fun _ _ call _ _ => careful_of_any (fun _ _ => trivial) (fun _ _ => trivial) call) (fun _ => trivial) h
  refine X64Emulator.Shifts.keep (I := fun fs _ => ∀ d f, s.fs.fileOf d = some f → fs.fileOf d = some f) ?_ hs
    (fun _ _ h => h) hshifts
  intro fs ds fs' ds' hsound hI hshift d f hf
  have hd := hI d f hf
  cases hshift with
  | silent h => exact ((h.quiet hsound.tree hsound.piped.orphan).fileOf d).trans hd
  | openNode f accessMode statusFlags closeOnExec h =>
    obtain ⟨-, -, -, -, -, hof⟩ := openNode_frame h
    exact hof d _ hd
  | insertNode file accessMode statusFlags closeOnExec hfile h =>
    obtain ⟨-, -, -, -, -, hof⟩ := openNode_frame h
    exact hof d _ hd
  | pipe2 statusFlags closeOnExec h =>
    obtain ⟨-, -, -, -, -, hof⟩ := pipe2_frame h
    exact hof d _ hd
  | ref e x hx h =>
    obtain ⟨-, rfl⟩ := ref_eq_ok.1 h
    exact hd
  | close descriptor hκ h => exact (hsound.close_fileOf h d).trans hd
  | perm h => exact hd

end FileState

namespace Lock

/-- What an operation asks for: one of the three modes, or nothing that can be done. -/
inductive Mode where
  | lock (lock : Lock)
  | unlock
  | none
deriving DecidableEq, Repr

def mode (operation : BitVec 32) : Mode :=
  match test operation LOCK_SH, test operation LOCK_EX, test operation LOCK_UN with
  | true, false, false => .lock .SHARED
  | false, true, false => .lock .EXCLUSIVE
  | false, false, true => .unlock
  | _, _, _ => .none

/-- What `flock` does with what is asked for: a shared lock is taken for an exclusive one. -/
theorem flock_eq (held : Lock) (operation : BitVec 32) :
    held.flock operation =
      match mode operation with
      | .lock _ => tryLock held .EXCLUSIVE (test operation LOCK_NB)
      | .unlock => .ok (.NONE, 0)
      | .none => .ok (held, -EINVAL) := by
  unfold flock mode
  cases test operation LOCK_SH <;> cases test operation LOCK_EX <;> cases test operation LOCK_UN <;> rfl

theorem mode_shared_or_exclusive {operation : BitVec 32} {lock : Lock} (h : mode operation = .lock lock) :
    lock = .SHARED ∨ lock = .EXCLUSIVE := by
  unfold mode at h
  split at h
  · exact .inl (Mode.lock.inj h).symm
  · exact .inr (Mode.lock.inj h).symm
  · cases h
  · cases h

theorem tryLock_eq_ok {held lock after : Lock} {nonBlocking : Bool} {ret : Int}
    (h : tryLock held lock nonBlocking = .ok (after, ret)) :
    (nonBlocking = true ∧ held = .EXCLUSIVE ∧ after = held ∧ ret = -EWOULDBLOCK) ∨ (held = .NONE ∧ after = lock ∧ ret = 0) := by
  unfold tryLock at h
  split at h
  · next hheld =>
    obtain ⟨rfl, rfl⟩ := ok_pair h
    exact .inl ⟨hheld.1, hheld.2, rfl, rfl⟩
  · obtain ⟨_, hnone, h⟩ := bind_eq_ok.1 h
    obtain ⟨rfl, rfl⟩ := ok_pair h
    exact .inr ⟨check_eq_ok.1 hnone, rfl, rfl⟩

theorem tryLock_none (lock : Lock) (nonBlocking : Bool) : tryLock .NONE lock nonBlocking = .ok (lock, 0) := by
  cases nonBlocking <;> rfl

end Lock

namespace LockState

open Lock

variable {s s' : LockState} {depth : Nat} {fds : FileDescriptors} {fd : Int} {operation : BitVec 32} {d : DescriptionId} {ret : Int}

/-- Two descriptions of one file. -/
def Siblings (s : LockState) (d d' : DescriptionId) : Prop :=
  d ≠ d' ∧ ∃ f, s.files.fs.fileOf d = some f ∧ s.files.fs.fileOf d' = some f

/-- Where a description of a file is locked exclusively, no other one is locked. -/
def Excludes (s : LockState) : Prop := ∀ d d', s.Siblings d d' → s.locks d = .EXCLUSIVE → s.locks d' = .NONE

/-- Another description of the file has a lock that a lock cannot be together with. -/
def Conflicts (s : LockState) (d : DescriptionId) (lock : Lock) : Prop :=
  ∃ d', s.Siblings d d' ∧ s.locks d' ≠ .NONE ∧ (lock = .EXCLUSIVE ∨ s.locks d' = .EXCLUSIVE)

/-- What a request on a description does: a lock that nothing conflicts with is taken, a request that is not to block is refused
where something does, and an error changes no lock. -/
structure Answers (s : LockState) (d : DescriptionId) (operation : BitVec 32) (res : Except FsFailure (LockState × Int)) : Prop where
  granted : ∀ lock, mode operation = .lock lock → s.locks d = .NONE → ¬ s.Conflicts d lock → res = .ok (s.setLock d lock, 0)
  refused : ∀ lock, mode operation = .lock lock → test operation LOCK_NB = true → s.Conflicts d lock →
    res = .ok (s, -EWOULDBLOCK)
  released : mode operation = .unlock → res = .ok (s.setLock d .NONE, 0)
  unchanged : ∀ s' ret, res = .ok (s', ret) → ret < 0 → s' = s

/-- A request for a lock on a description that has none is one for an exclusive lock, and no other description of the file has a
lock. -/
def AsksAlone (s : LockState) : LockAction → Prop
  | .files _ _ => True
  | .flock table fd operation => ∀ fds descriptor lock, s.files.tables[table]? = some fds →
      fds.findFileDescriptor fd = some descriptor → mode operation = .lock lock → s.locks descriptor.openFileDescription = .NONE →
      lock = .EXCLUSIVE ∧ ¬ s.Conflicts descriptor.openFileDescription .EXCLUSIVE

/-- What the runs keep: there is no shared lock, a description that does not exist has none, and locks exclude each other. -/
structure Kept (s : LockState) : Prop where
  sound : s.files.fs.Sound s.files.openDescriptions
  unshared : ∀ d, s.locks d ≠ .SHARED
  absent : ∀ d, s.files.fs.fileOf d = none → s.locks d = .NONE
  excludes : s.Excludes

theorem setLock_self (s : LockState) (d : DescriptionId) : s.setLock d (s.locks d) = s := by
  cases s with
  | mk files locks =>
    unfold setLock
    congr 1
    funext d'
    split
    · next heq => rw [heq]
    · rfl

theorem setLock_locks (s : LockState) (d d' : DescriptionId) (lock : Lock) :
    (s.setLock d lock).locks d' = if d' = d then lock else s.locks d' := rfl

theorem siblings_symm {d' : DescriptionId} (h : s.Siblings d d') : s.Siblings d' d := by
  obtain ⟨hne, f, hf, hf'⟩ := h
  exact ⟨hne.symm, f, hf', hf⟩

/-- A lock is taken alone, or given back. -/
theorem excludes_setLock (h : s.Excludes) {lock : Lock} (hlock : lock = .NONE ∨ (lock = .EXCLUSIVE ∧ ¬ s.Conflicts d .EXCLUSIVE)) :
    (s.setLock d lock).Excludes := by
  have halone : lock = .NONE ∨ ∀ e, s.Siblings d e → s.locks e = .NONE := by
    refine hlock.imp id fun ⟨_, hconflicts⟩ e hsiblings => ?_
    by_contra hne
    exact hconflicts ⟨e, hsiblings, hne, .inl rfl⟩
  intro e e' hsiblings hexclusive
  have hsiblings : s.Siblings e e' := hsiblings
  rw [setLock_locks] at hexclusive ⊢
  split at hexclusive
  · next he =>
    subst he
    rw [if_neg (Ne.symm hsiblings.1)]
    refine (halone.resolve_left ?_) e' hsiblings
    rw [hexclusive]
    decide
  · next he =>
    split
    · next he' =>
      -- the description that gets the lock has a sibling that is locked exclusively
      subst he'
      refine halone.elim id fun halone => ?_
      rw [halone e (siblings_symm hsiblings)] at hexclusive
      cases hexclusive
    · exact h e e' hsiblings hexclusive

variable {descriptor : FileDescriptor}

theorem flock_of_some (hfind : fds.findFileDescriptor fd = some descriptor) : s.flock fds fd operation = (do
      let (lock, ret) ← (s.locks descriptor.openFileDescription).flock operation
      .ok (s.setLock descriptor.openFileDescription lock, ret)) := by
  unfold flock
  rw [hfind]

/-- A description that has no lock gets an exclusive one, whatever is asked for. -/
theorem flock_taken {lock : Lock} (hfind : fds.findFileDescriptor fd = some descriptor)
    (hmode : mode operation = .lock lock) (hnone : s.locks descriptor.openFileDescription = .NONE) :
    s.flock fds fd operation = .ok (s.setLock descriptor.openFileDescription .EXCLUSIVE, 0) := by
  rw [flock_of_some hfind, flock_eq, hmode, hnone]
  simp only [tryLock_none, ok_bind]

/-- What a call of `flock` leaves. -/
theorem flock_cases (h : s.flock fds fd operation = .ok (s', ret)) :
    (s' = s ∧ ret < 0) ∨
    ∃ descriptor, fds.findFileDescriptor fd = some descriptor ∧ ret = 0 ∧
      ((mode operation = .unlock ∧ s' = s.setLock descriptor.openFileDescription .NONE) ∨
        ∃ lock, mode operation = .lock lock ∧ s.locks descriptor.openFileDescription = .NONE ∧
          s' = s.setLock descriptor.openFileDescription .EXCLUSIVE) := by
  cases hfind : fds.findFileDescriptor fd with
  | none =>
    unfold flock at h
    rw [hfind] at h
    obtain ⟨rfl, rfl⟩ := ok_pair h
    exact .inl ⟨rfl, by decide⟩
  | some descriptor =>
    rw [flock_of_some hfind, flock_eq] at h
    obtain ⟨⟨lock, ret'⟩, hflock, h⟩ := bind_eq_ok.1 h
    obtain ⟨rfl, rfl⟩ := ok_pair h
    cases hmode : mode operation with
    | lock asked =>
      rw [hmode] at hflock
      rcases tryLock_eq_ok hflock with ⟨-, -, rfl, rfl⟩ | ⟨hnone, rfl, rfl⟩
      · exact .inl ⟨setLock_self s _, by decide⟩
      · exact .inr ⟨descriptor, rfl, rfl, .inr ⟨asked, rfl, hnone, rfl⟩⟩
    | unlock =>
      rw [hmode] at hflock
      obtain ⟨rfl, rfl⟩ := ok_pair hflock
      exact .inr ⟨descriptor, rfl, rfl, .inl ⟨rfl, rfl⟩⟩
    | none =>
      rw [hmode] at hflock
      obtain ⟨rfl, rfl⟩ := ok_pair hflock
      exact .inl ⟨setLock_self s _, by decide⟩

theorem kept_of_isNew (hnew : s.files.IsNew depth) (hlocks : ∀ d, s.locks d = .NONE) : s.Kept where
  sound := FileState.sound_of_isNew hnew
  unshared d := by
    rw [hlocks d]
    decide
  absent d _ := hlocks d
  excludes _ d' _ _ := hlocks d'

/-- The files change, and the locks of the descriptions that go are gone. -/
theorem Kept.files (h : s.Kept) {host : HostFiles} {action : FileAction} {files : FileState} {answer : FileAnswer}
    (hact : s.files.act depth host action = .ok (files, answer)) :
    Kept ⟨files, fun d => if files.owns d then s.locks d else .NONE⟩ := by
  obtain ⟨hsound, hof⟩ := FileState.act_fileOf h.sound hact
  have hnew : ∀ d, files.fs.fileOf d = none → s.locks d = .NONE := by
    intro d hd
    refine h.absent d ?_
    by_contra hne
    obtain ⟨f, hf⟩ := Option.ne_none_iff_exists'.1 hne
    rw [hof d f hf] at hd
    cases hd
  -- a description that is locked was there before, with the same file
  have hold : ∀ d f, s.locks d ≠ .NONE → files.fs.fileOf d = some f → s.files.fs.fileOf d = some f := by
    intro d f hlocked hf
    have hne : s.files.fs.fileOf d ≠ none := fun hnone => hlocked (h.absent d hnone)
    obtain ⟨g, hg⟩ := Option.ne_none_iff_exists'.1 hne
    rwa [hg, ← hof d g hg]
  refine ⟨hsound, fun d => ?_, fun d hd => ?_, fun d d' hsiblings hexclusive => ?_⟩
  · dsimp only
    split
    · exact h.unshared d
    · decide
  · dsimp only
    split
    · exact hnew d hd
    · rfl
  · dsimp only at hexclusive ⊢
    split at hexclusive
    · split
      · by_contra hlocked
        obtain ⟨hne, f, hf, hf'⟩ := hsiblings
        have hd : s.locks d ≠ .NONE := by rw [hexclusive]; decide
        exact hlocked (h.excludes d d' ⟨hne, f, hold d f hd hf, hold d' f hlocked hf'⟩ hexclusive)
      · rfl
    · cases hexclusive

theorem described_of_find {table : Nat} (htable : s.files.tables[table]? = some fds)
    (hfind : fds.findFileDescriptor fd = some descriptor) : descriptor.openFileDescription ∈ s.files.openDescriptions := by
  obtain ⟨-, hslot⟩ := FileDescriptors.findFileDescriptor_eq_some.1 hfind
  refine List.mem_flatMap.2 ⟨fds, List.mem_of_getElem? htable, ?_⟩
  exact List.mem_filterMap.2 ⟨some descriptor, List.mem_of_getElem? hslot, rfl⟩

/-- A request that meets the condition keeps the locks apart. -/
theorem Kept.flock (h : s.Kept) {table : Nat} (htable : s.files.tables[table]? = some fds)
    (hasks : s.AsksAlone (.flock table fd operation)) (hflock : s.flock fds fd operation = .ok (s', ret)) : s'.Kept := by
  rcases flock_cases hflock with ⟨rfl, -⟩ | ⟨descriptor, hfind, -, ⟨-, rfl⟩ | ⟨lock, hmode, hnone, rfl⟩⟩
  · exact h
  · refine ⟨h.sound, fun d => ?_, fun d hd => ?_, excludes_setLock h.excludes (.inl rfl)⟩
    · rw [setLock_locks]
      split
      · decide
      · exact h.unshared d
    · rw [setLock_locks]
      split
      · rfl
      · exact h.absent d hd
  · obtain ⟨-, hconflicts⟩ := hasks fds descriptor lock htable hfind hmode hnone
    obtain ⟨f, hf⟩ := h.sound.counted.described _ (described_of_find htable hfind)
    refine ⟨h.sound, fun d => ?_, fun d hd => ?_, excludes_setLock h.excludes (.inr ⟨rfl, hconflicts⟩)⟩
    · rw [setLock_locks]
      split
      · decide
      · exact h.unshared d
    · rw [setLock_locks]
      split
      · next heq =>
        subst heq
        have hd : s.files.fs.fileOf descriptor.openFileDescription = none := hd
        rw [hf] at hd
        cases hd
      · exact h.absent d hd

theorem act_cases {a : LockAction} (h : s.act depth a = .ok s') :
    (∃ host action files answer, a = .files host action ∧ s.files.act depth host action = .ok (files, answer) ∧
      s' = ⟨files, fun d => if files.owns d then s.locks d else .NONE⟩) ∨
    ∃ table fd operation fds ret, a = .flock table fd operation ∧ s.files.tables[table]? = some fds ∧
      s.flock fds fd operation = .ok (s', ret) := by
  cases a with
  | files host action =>
    obtain ⟨⟨files, answer⟩, hfiles, hs'⟩ := bind_eq_ok.1 h
    exact .inl ⟨host, action, files, answer, rfl, hfiles, (Except.ok.inj hs').symm⟩
  | flock table fd operation =>
    simp only [act] at h
    split at h
    · cases h
    · next fds htable =>
      obtain ⟨⟨s1, ret⟩, hflock, hs'⟩ := bind_eq_ok.1 h
      obtain rfl := Except.ok.inj hs'
      exact .inr ⟨table, fd, operation, fds, ret, rfl, htable, hflock⟩

theorem kept_step {a : LockAction} (h : s.Kept) (hasks : s.AsksAlone a) (hstep : (machine depth).step s a = some s') : s'.Kept := by
  rcases act_cases (toOption_eq_some.1 hstep) with
    ⟨host, action, files, answer, -, hfiles, rfl⟩ | ⟨table, fd, operation, fds, ret, rfl, htable, hflock⟩
  · exact h.files hfiles
  · exact h.flock htable hasks hflock

theorem kept_of_reachable (h : (machine depth).ReachableUnder AsksAlone s) : s.Kept :=
  h.invariant Kept (fun s (hs : s.files.IsNew depth ∧ _) => kept_of_isNew hs.1 hs.2) fun _ _ _ _ hkept hasks hstep =>
    kept_step hkept hasks hstep

/-- There is no conflict with a lock that the description itself holds. -/
theorem Kept.locked (h : s.Kept) {lock : Lock} (hlocked : s.locks d ≠ .NONE) :
    s.locks d = .EXCLUSIVE ∧ ¬ s.Conflicts d lock := by
  have hexclusive : s.locks d = .EXCLUSIVE := by
    cases hlock : s.locks d with
    | NONE => exact absurd hlock hlocked
    | SHARED => exact absurd hlock (h.unshared d)
    | EXCLUSIVE => rfl
  refine ⟨hexclusive, ?_⟩
  rintro ⟨d', hsiblings, hlocked', -⟩
  exact hlocked' (h.excludes d d' hsiblings hexclusive)

/-- A request that meets the condition is answered as it should be. -/
theorem Kept.answers (h : s.Kept) (hfind : fds.findFileDescriptor fd = some descriptor)
    (hasks : ∀ lock, mode operation = .lock lock → s.locks descriptor.openFileDescription = .NONE →
      lock = .EXCLUSIVE ∧ ¬ s.Conflicts descriptor.openFileDescription .EXCLUSIVE) :
    s.Answers descriptor.openFileDescription operation (s.flock fds fd operation) where
  granted lock hmode hnone _ := (hasks lock hmode hnone).1 ▸ flock_taken hfind hmode hnone
  refused lock hmode _ hconflicts := by
    by_cases hnone : s.locks descriptor.openFileDescription = .NONE
    · obtain ⟨rfl, halone⟩ := hasks lock hmode hnone
      exact absurd hconflicts halone
    · exact absurd hconflicts (h.locked hnone).2
  released hmode := by rw [flock_of_some hfind, flock_eq, hmode, ok_bind]
  unchanged s' ret hres hneg := by
    rcases flock_cases hres with ⟨rfl, -⟩ | ⟨_, -, rfl, -⟩
    · rfl
    · exact absurd hneg (by decide)

/-- A request that does not meet the condition is not answered as it should be, or two locks of a file are left. -/
theorem asksAlone_of_answers (hfind : fds.findFileDescriptor fd = some descriptor)
    (hanswers : s.Answers descriptor.openFileDescription operation (s.flock fds fd operation))
    (hexcludes : ∀ s' ret, s.flock fds fd operation = .ok (s', ret) → s'.Excludes) {lock : Lock}
    (hmode : mode operation = .lock lock) (hnone : s.locks descriptor.openFileDescription = .NONE) :
    lock = .EXCLUSIVE ∧ ¬ s.Conflicts descriptor.openFileDescription .EXCLUSIVE := by
  have hflock := flock_taken hfind hmode hnone
  -- the lock is taken whatever others there are
  have halone : ¬ s.Conflicts descriptor.openFileDescription .EXCLUSIVE := by
    rintro ⟨d', hsiblings, hlocked, -⟩
    have hnone' := hexcludes _ _ hflock _ d' hsiblings (by rw [setLock_locks, if_pos rfl])
    rw [setLock_locks, if_neg (Ne.symm hsiblings.1)] at hnone'
    exact hlocked hnone'
  refine ⟨(mode_shared_or_exclusive hmode).resolve_left ?_, halone⟩
  rintro rfl
  have hshared : ¬ s.Conflicts descriptor.openFileDescription .SHARED := by
    rintro ⟨d', hsiblings, hlocked, -⟩
    exact halone ⟨d', hsiblings, hlocked, .inl rfl⟩
  have hgranted := hanswers.granted .SHARED hmode hnone hshared
  rw [hflock] at hgranted
  have hlocks := congrArg (fun s : LockState => s.locks descriptor.openFileDescription) (ok_pair hgranted).1
  simp [setLock_locks] at hlocks

/-- In a run whose requests all meet the condition the locks of every file exclude each other, and a further request is answered
as it should be and leaves locks that exclude each other exactly if it meets the condition. -/
theorem locks_exclude_iff (h : (machine depth).ReachableUnder AsksAlone s) :
    s.Excludes ∧ ∀ table fds fd operation descriptor, s.files.tables[table]? = some fds →
      fds.findFileDescriptor fd = some descriptor →
      ((s.Answers descriptor.openFileDescription operation (s.flock fds fd operation) ∧
        ∀ s' ret, s.flock fds fd operation = .ok (s', ret) → s'.Excludes) ↔ s.AsksAlone (.flock table fd operation)) := by
  have hkept := kept_of_reachable h
  refine ⟨hkept.excludes, fun table fds fd operation descriptor htable hfind => ⟨?_, ?_⟩⟩
  · rintro ⟨hanswers, hexcludes⟩ fds' descriptor' lock htable' hfind' hmode hnone
    obtain rfl := Option.some.inj (htable.symm.trans htable')
    obtain rfl := Option.some.inj (hfind.symm.trans hfind')
    exact asksAlone_of_answers hfind hanswers hexcludes hmode hnone
  · intro hasks
    exact ⟨hkept.answers hfind fun lock hmode hnone => hasks fds descriptor lock htable hfind hmode hnone,
      fun s' ret hflock => (hkept.flock htable hasks hflock).excludes⟩

section Samples

def firstLocks : LockState := ⟨.first, fun _ => .NONE⟩

theorem firstLocks_isNew : (machine 1).init firstLocks := ⟨FileState.first_isNew, fun _ => rfl⟩

def lockFile : Path := ⟨[['k']], by decide⟩

/-- The first process creates a file, or opens it again. -/
def opens : LockAction := .files bareHost (.call 0 (.open lockFile ⟨true, true⟩ { creat := true } {}))

theorem opens_locks (hnone : ∀ d, s.locks d = .NONE) (h : (machine 1).step s opens = some s') (d : DescriptionId) :
    s'.locks d = .NONE := by
  rcases act_cases (toOption_eq_some.1 h) with ⟨_, _, files, _, -, -, rfl⟩ | ⟨_, _, _, _, _, ha, -⟩
  · dsimp only
    split
    · exact hnone d
    · rfl
  · cases ha

/-- A file is opened twice, and one of its descriptions is locked exclusively. -/
theorem locks_exclude_iff_first : ∃ s, (machine 1).ReachableUnder AsksAlone s ∧ s.locks 0 = .EXCLUSIVE ∧ s.Excludes ∧
    ¬ s.AsksAlone (.flock 0 1 LOCK_EX) := by
  have hrun : ((machine 1).step firstLocks opens).bind (fun s => ((machine 1).step s opens).bind fun s' =>
      ((machine 1).step s' (.flock 0 0 LOCK_EX)).map fun s'' =>
        decide (s''.files.tables = [[some ⟨0, false⟩, some ⟨1, false⟩]] ∧ s''.files.fs.fileOf 0 = some 3 ∧
          s''.files.fs.fileOf 1 = some 3 ∧ s''.locks 0 = .EXCLUSIVE ∧ s''.locks 1 = .NONE)) = some true := by decide
  obtain ⟨s1, h1, hrun⟩ := Option.bind_eq_some_iff.1 hrun
  obtain ⟨s2, h2, hrun⟩ := Option.bind_eq_some_iff.1 hrun
  obtain ⟨s3, h3, hfound⟩ := Option.map_eq_some_iff.1 hrun
  obtain ⟨htables, hof, hof', hlocked, hnone⟩ := of_decide_eq_true hfound
  have hreach : (machine 1).ReachableUnder AsksAlone s2 := .step opens (.step opens (.init firstLocks_isNew) trivial h1) trivial h2
  have hlocks := opens_locks (opens_locks (fun _ => rfl) h1) h2
  have hreach3 : (machine 1).ReachableUnder AsksAlone s3 := by
    refine .step _ hreach ?_ h3
    intro fds descriptor lock _ _ hmode _
    refine ⟨(Mode.lock.inj hmode).symm, ?_⟩
    rintro ⟨d, -, hlocked, -⟩
    exact hlocked (hlocks d)
  refine ⟨s3, hreach3, hlocked, (locks_exclude_iff hreach3).1, ?_⟩
  intro hasks
  have htable : s3.files.tables[0]? = some [some ⟨0, false⟩, some ⟨1, false⟩] := by rw [htables]; rfl
  obtain ⟨-, halone⟩ := hasks _ ⟨1, false⟩ .EXCLUSIVE htable rfl rfl hnone
  refine halone ⟨0, ⟨by decide, 3, hof', hof⟩, ?_, .inl rfl⟩
  rw [hlocked]
  decide

/-- Two descriptions of a file are locked exclusively. -/
theorem locks_exclude_fails : ∃ s, (machine 1).Reachable s ∧ ¬ s.Excludes := by
  have hrun : ((machine 1).run firstLocks [opens, opens, .flock 0 0 (LOCK_EX ||| LOCK_NB), .flock 0 1 (LOCK_EX ||| LOCK_NB)]).map
      (fun s => (s.files.fs.fileOf 0, s.files.fs.fileOf 1, s.locks 0, s.locks 1)) =
      some (some 3, some 3, .EXCLUSIVE, .EXCLUSIVE) := by decide
  obtain ⟨s, hs, hfound⟩ := Option.map_eq_some_iff.1 hrun
  obtain ⟨hof, hfound⟩ := Prod.mk.inj hfound
  obtain ⟨hof', hfound⟩ := Prod.mk.inj hfound
  obtain ⟨hlocked, hlocked'⟩ := Prod.mk.inj hfound
  refine ⟨s, (Machine.Reachable.init firstLocks_isNew).run _ hs, fun hexcludes => ?_⟩
  have hnone := hexcludes 0 1 ⟨by decide, 3, hof, hof'⟩ hlocked
  rw [hlocked'] at hnone
  cases hnone

end Samples

end LockState

end X64Emulator
