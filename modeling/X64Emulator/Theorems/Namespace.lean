import X64Emulator.Lemmas.FileRuns

/-!
# One entry for each name

`Directory::addFile` puts a file behind the entries that are there, whatever their names. The condition on a run is that it does
so at vacant names only: then no directory ever holds two entries with one name, and a rename moves the file.
-/

namespace X64Emulator

open Outcome

namespace FS

/-- The file that `open` would create has no other entry at its path, a link that leads nowhere. -/
def OpensAtVacant (fs : FS) (host : HostFiles) (depth : Nat) (path : Path) (accessMode : AccessMode)
    (creationFlags : CreationFlags) (statusFlags : StatusFlags) : Prop :=
  (∃ f, fs.tryGetFile depth path .NO = .ok (some f)) → fs.tryGetFile depth path .YES = .ok none →
    newFile host path accessMode creationFlags { statusFlags with largefile := true } = .ok none

end FS

namespace FileState

open FS

variable {depth : Nat} {s s' : FileState}

/-- The condition on a step of a run: a file is created, moved or made by `resetProcFS` where nothing is yet. -/
def AddsAtVacant (depth : Nat) (s : FileState) (a : HostFiles × FileAction) : Prop :=
  match a.2 with
  | .call _ (.open path accessMode creationFlags statusFlags) =>
    s.fs.OpensAtVacant a.1 depth path accessMode creationFlags statusFlags
  | .call _ (.rename oldpath newpath) => ∀ f, s.fs.EntryAt oldpath f → s.fs.Free depth f newpath
  | .call _ (.resetProcFS _ _) => s.fs.Vacant s.fs.root PROC
  | _ => True

/-- Under the condition every addition of a call is at a vacant name. -/
theorem admitted_of_addsAtVacant {host : HostFiles} {table : Nat} {call : FileCall} (ht : s.fs.Tree) (hu : s.fs.NamesUnique)
    (h : s.AddsAtVacant depth (host, .call table call)) : Admitted Vacant host depth s.fs call := by
  cases call with
  | «open» path accessMode creationFlags statusFlags =>
    intro kind hnone hnew
    refine admits_of_tryGetFile_none ht fun f hf => ?_
    have hno := h ⟨f, hf⟩ hnone
    rw [hnew] at hno
    cases hno
  | rename oldpath newpath =>
    intro fs1 f htake
    obtain ⟨hat, dir, name, -, -, hmem, -, hfs1⟩ := tryTakeFile_entryAt htake
    have hback : fs1.Grows s.fs := hfs1 ▸ grows_of_without ht hu (isDir_of_mem_entries hmem)
    have ht1 := ht.edit (tryTakeFile_loose (φ := Vacant) (δ := fun _ _ => True) ht htake).1
    exact admits_of_tryGetFile_none ht1 fun g hg => (h f hat).target g (hback.tryGetFile hg)
  | readlink path bufferSize =>
    intro hnone
    refine admits_of_tryGetFile_none ht fun f hf => ?_
    rw [hnone] at hf
    cases hf
  | resetProcFS pid program => exact admitsProc_of_vacant ht h pid
  | _ => trivial

theorem reachable_namesUnique (h : (machine depth).ReachableUnder (AddsAtVacant depth) s) : s.fs.NamesUnique := by
  refine h.invariant (fun s => s.fs.NamesUnique) (fun s h => (tree_of_isNew h).2) fun s a s' hr hu hc hstep => ?_
  obtain ⟨answer, hact⟩ := step_some hstep
  have ht := reachable_tree hr
  obtain ⟨host, action⟩ := a
  refine hu.changes ht (act_changes (δ := fun _ _ => True) allows_vacant (fun _ _ => trivial) ht (fun table call hcall => ?_) hact)
  subst hcall
  exact admitted_of_addsAtVacant ht hu hc

/-- In every run that adds files at vacant names only: no directory holds two entries with the same name, and after a rename
that succeeds the new path leads to the file that was at the old one, and the old path to nothing. -/
theorem names_unique (h : (machine depth).ReachableUnder (AddsAtVacant depth) s) :
    (∀ d, ((s.fs.entries d).map s.fs.nameOf).Nodup) ∧
    ∀ host table oldpath newpath s', s.AddsAtVacant depth (host, .call table (.rename oldpath newpath)) →
      s.act depth host (.call table (.rename oldpath newpath)) = .ok (s', .value 0) →
      ∃ f, s.fs.tryGetFile depth oldpath .NO = .ok (some f) ∧ s'.fs.tryGetFile depth newpath .NO = .ok (some f) ∧
        ∀ follow, s'.fs.tryGetFile depth oldpath follow = .ok none := by
  have ht := reachable_tree h.reachable
  have hu := reachable_namesUnique h
  refine ⟨hu, fun host table oldpath newpath s' hc hact => ?_⟩
  rcases act_cases hact with ⟨table', fds, call, hcall, -, hperform⟩ | ⟨index, blocker, hcall, -⟩ | ⟨index, hcall, -⟩
  · obtain ⟨rfl, rfl⟩ := FileAction.call.inj hcall
    obtain ⟨⟨fs1, n⟩, hrename, hperform⟩ := bind_eq_ok.1 hperform
    obtain ⟨rfl, hn⟩ := ok_pair hperform
    obtain rfl : n = 0 := FileAnswer.value.inj hn
    obtain ⟨f, hat, hnew, hold⟩ := rename_moves ht hu hc hrename
    exact ⟨f, hat.tryGetFile ht, hnew, hold⟩
  · cases hcall
  · cases hcall

section Samples

/-- The paths of the files. -/
def pathA : Path := ⟨[['a']], by decide⟩
def pathB : Path := ⟨[['b']], by decide⟩

/-- The state after a rename that succeeds. -/
def renamed (s : FileState) : Option FileState :=
  match s.act 1 bareHost (.call 0 (.rename pathA pathB)) with
  | .ok (s', .value 0) => some s'
  | _ => none

theorem act_of_renamed (h : s.renamed = some s') : s.act 1 bareHost (.call 0 (.rename pathA pathB)) = .ok (s', .value 0) := by
  unfold renamed at h
  split at h
  · next t ht => rw [ht, Option.some.inj h]
  · cases h

/-- The only ancestor of a path in the root directory is the root. -/
theorem free_of_root {f : FileId} (hnone : s.fs.tryGetFile 1 pathB .NO = .ok none) (hroot : s.fs.root ≠ f) :
    s.fs.Free 1 f pathB := by
  have hne : ∀ g, s.fs.tryGetFile 1 pathB .NO ≠ .ok (some g) := by
    intro g hg
    rw [hnone] at hg
    cases hg
  refine ⟨hne, fun n => ?_⟩
  cases n with
  | zero => exact fun h => hroot (Option.some.inj (Except.ok.inj h))
  | succ n =>
    have htake : pathB.take (n + 1) = pathB := by simp [Path.take, pathB]
    rw [htake]
    exact hne f

/-- A file is created, and a rename to a free name moves it. -/
theorem names_unique_moved : ∃ s s', (machine 1).ReachableUnder (AddsAtVacant 1) s ∧
    s.act 1 bareHost (.call 0 (.rename pathA pathB)) = .ok (s', .value 0) ∧
    ∃ f, s.fs.tryGetFile 1 pathA .NO = .ok (some f) ∧ s'.fs.tryGetFile 1 pathB .NO = .ok (some f) ∧
      ∀ follow, s'.fs.tryGetFile 1 pathA follow = .ok none := by
  have hrun : (((machine 1).step first (creates pathA)).bind fun s => s.renamed.map fun s' =>
      (s.fs.root, s.fs.tryGetFile 1 pathA .NO, s.fs.tryGetFile 1 pathB .NO)) = some (0, .ok (some 3), .ok none) := by
    decide
  obtain ⟨s, hs, hrun⟩ := Option.bind_eq_some_iff.1 hrun
  obtain ⟨s', hs', hfound⟩ := Option.map_eq_some_iff.1 hrun
  obtain ⟨hroot, hfound⟩ := Prod.ext_iff.1 hfound
  obtain ⟨hold, hnew⟩ := Prod.ext_iff.1 hfound
  dsimp only at hroot hold hnew
  have hact := act_of_renamed hs'
  have hvacant : first.fs.tryGetFile 1 pathA .NO = .ok none := by decide
  have hreach : (machine 1).ReachableUnder (AddsAtVacant 1) s := by
    refine .step (creates pathA) (.init first_isNew) (fun hex => ?_) hs
    obtain ⟨f, hf⟩ := hex
    rw [hvacant] at hf
    cases hf
  refine ⟨s, s', hreach, hact, (names_unique hreach).2 bareHost 0 pathA pathB s' (fun f hat => ?_) hact⟩
  have hf : s.fs.tryGetFile 1 pathA .NO = .ok (some f) := hat.tryGetFile (reachable_tree hreach.reachable)
  rw [hold] at hf
  obtain rfl := Option.some.inj (Except.ok.inj hf)
  exact free_of_root hnew (by rw [hroot]; decide)

/-- Two files are created, and the first is renamed to the name of the second: the root has two entries with that name, and a
lookup finds the one that was there before. -/
theorem names_unique_fails : ∃ s s', (machine 1).Reachable s ∧
    s.act 1 bareHost (.call 0 (.rename pathA pathB)) = .ok (s', .value 0) ∧
    ¬ ((s'.fs.entries s'.fs.root).map s'.fs.nameOf).Nodup ∧
    s.fs.tryGetFile 1 pathA .NO = .ok (some 3) ∧ s'.fs.tryGetFile 1 pathB .NO = .ok (some 4) := by
  have hrun : (((machine 1).run first [creates pathA, creates pathB]).bind fun s => s.renamed.map fun s' =>
      (decide ((s'.fs.entries s'.fs.root).map s'.fs.nameOf).Nodup, s.fs.tryGetFile 1 pathA .NO,
        s'.fs.tryGetFile 1 pathB .NO)) = some (false, .ok (some 3), .ok (some 4)) := by decide
  obtain ⟨s, hs, hrun⟩ := Option.bind_eq_some_iff.1 hrun
  obtain ⟨s', hs', hfound⟩ := Option.map_eq_some_iff.1 hrun
  obtain ⟨hdup, hfound⟩ := Prod.ext_iff.1 hfound
  obtain ⟨hold, hnew⟩ := Prod.ext_iff.1 hfound
  exact ⟨s, s', (Machine.Reachable.init first_isNew).run _ hs, act_of_renamed hs', of_decide_eq_false hdup, hold, hnew⟩

end Samples

end FileState

end X64Emulator
