import X64Emulator.Lemmas.FileRuns
import X64Emulator.Lemmas.OpenFiles

/-!
# Reference counts

The count of a file is the number of descriptor slots that refer to it, in every run. That each slot refers to a file that exists
needs a condition on the closes: the last close of a file that is not kept unlinks the path of that file, and another file can
be at that path, even a directory with open files below it.
-/

namespace X64Emulator

open Outcome

namespace FileState

open FS FileDescriptors

variable {depth table : Nat} {s s' : FileState} {f : FileId} {fds : FileDescriptors} {call : FileCall}

/-- How many slots, over all descriptor tables, refer to a file. -/
def slotsOf (s : FileState) (f : FileId) : Nat :=
  s.tables.flatten.countP fun slot => slot.any fun descriptor => s.fs.fileOf descriptor.openFileDescription = some f

/-- What closing a slot destroys has no other slots. -/
def ClosesSafely (s : FileState) (depth table : Nat) (fd : Int) : Prop :=
  ∀ fds descriptor, s.tables[table]? = some fds → fds.findFileDescriptor fd = some descriptor →
    FS.ClosesSafely depth s.fs descriptor.openFileDescription

/-- The condition on a step of a run: nothing that it unlinks takes a file with it that has a descriptor. -/
def KeepsOpen (depth : Nat) (s : FileState) (a : HostFiles × FileAction) : Prop :=
  match a.2 with
  | .call _ (.unlink path) => s.fs.SparesOpen depth path none
  | .call table (.close fd) => s.ClosesSafely depth table fd
  | .call table .closeAll => ∀ n t, (List.range n).foldlM (closeSlot depth table) s = .ok t → t.ClosesSafely depth table n
  | .call table (.dup2 oldfd newfd) | .call table (.dup3 oldfd newfd _) =>
    oldfd ≠ newfd → (∃ fds, s.tables[table]? = some fds ∧ (fds.findFileDescriptor oldfd).isSome = true) →
      s.ClosesSafely depth table newfd
  | _ => True

theorem careful_of_keepsOpen {host : HostFiles} (htable : s.tables[table]? = some fds)
    (h : s.KeepsOpen depth (host, .call table call)) : s.Careful NothingOpen (FS.ClosesSafely depth) depth table fds call := by
  cases call with
  | unlink path =>
    intro f file hf hfile hzero fs1 taken htake
    exact SparesOpen.nothingOpen h hf hfile hzero htake
  | close fd =>
    intro descriptor hfind
    exact h fds descriptor htable hfind
  | closeAll =>
    intro n t fds' descriptor _ hclosed htable' hfind
    exact h n t hclosed fds' descriptor htable' hfind
  | dup2 oldfd newfd =>
    intro hne hsource descriptor hfind
    exact h hne ⟨fds, htable, hsource⟩ fds descriptor htable hfind
  | dup3 oldfd newfd closeOnExec =>
    intro hne hsource descriptor hfind
    exact h hne ⟨fds, htable, hsource⟩ fds descriptor htable hfind
  | _ => exact trivial

theorem reachable_alive (h : (machine depth).ReachableUnder (KeepsOpen depth) s) : s.fs.Alive s.openDescriptions := by
  refine h.invariant (fun s => s.fs.Alive s.openDescriptions) ?_ ?_
  · intro s h
    rw [openDescriptions_of_isNew h]
    intro d hd
    cases hd
  · intro s a s' hr ha hc hstep
    obtain ⟨answer, hact⟩ := step_some hstep
    obtain ⟨host, action⟩ := a
    have hs := reachable_sound hr
    have hshifts : s.Shifts (fun _ _ _ => True) NothingOpen (FS.ClosesSafely depth) True depth s' := by
      refine act_shifts hs.tree allows_any (fun _ call _ => admitted_any host depth s.fs call) ?_ (fun _ => trivial) hact
      intro table fds call hcall htable
      subst hcall
      exact careful_of_keepsOpen htable hc
    exact (hshifts.keep (I := FS.Alive) (fun _ _ _ _ hs ha h => ha.shift hs h) hs ha).2

theorem references_openDescriptions : s.fs.references s.openDescriptions f = s.slotsOf f := by
  unfold references openDescriptions slotsOf
  rw [List.countP_flatMap, List.countP_flatten]
  congr 1
  refine List.map_congr_left ?_
  intro fds _
  rw [Function.comp_apply, FileDescriptors.descriptions, List.countP_filterMap]
  refine List.countP_congr ?_
  intro slot _
  cases slot <;> simp

/-- In every run that destroys nothing open: the count of each file is the number of slots that refer to it, the file of each
slot exists, and `unref` through a slot leaves the number of the other slots. -/
theorem counts_right (h : (machine depth).ReachableUnder (KeepsOpen depth) s) :
    (∀ f file, s.fs.files.get? f = some file → file.refCount = s.slotsOf f) ∧
    (∀ fds ∈ s.tables, ∀ descriptor, some descriptor ∈ fds →
      ∃ f, s.fs.fileOf descriptor.openFileDescription = some f ∧ s.fs.files.Live f) ∧
    ∀ f, 0 < s.slotsOf f → ∃ fs' file, s.fs.unref f = .ok fs' ∧ fs'.files.get? f = some file ∧ file.refCount + 1 = s.slotsOf f := by
  have hs := reachable_sound h.reachable
  have ha := reachable_alive h
  have hcount : ∀ f file, s.fs.files.get? f = some file → file.refCount = s.slotsOf f := by
    intro f file hfile
    rw [hs.counted.count f file hfile, references_openDescriptions]
  refine ⟨hcount, ?_, ?_⟩
  · intro fds hfds descriptor hslot
    exact ha _ (List.mem_flatMap.2 ⟨fds, hfds, List.mem_filterMap.2 ⟨some descriptor, hslot, rfl⟩⟩)
  · intro f hpos
    rw [← references_openDescriptions] at hpos
    obtain ⟨d, hd, hdf⟩ := List.countP_pos_iff.1 hpos
    obtain ⟨x, hx, file, hfile⟩ := ha d hd
    obtain rfl : x = f := Option.some.inj (hx.symm.trans (by simpa using hdf))
    have hne : file.refCount ≠ 0 := hs.counted.count_ne_zero hd hx hfile
    refine ⟨s.fs.modifyFile x fun file => { file with refCount := file.refCount - 1 }, { file with refCount := file.refCount - 1 }, ?_, ?_, ?_⟩
    · exact bind_eq_ok.2 ⟨file, file_eq_ok.2 hfile, bind_eq_ok.2 ⟨(), check_eq_ok.2 hne, rfl⟩⟩
    · rw [get?_modifyFile, if_pos rfl, hfile]
      rfl
    · rw [← hcount x file hfile]
      exact Nat.succ_pred_eq_of_ne_zero hne

section Samples

/-- A file in a directory. -/
def tmpX : Path := ⟨[['t', 'm', 'p'], ['x']], by decide⟩

/-- The path of a memory file. -/
def pathM : Path := ⟨[['m']], by decide⟩

/-- A file is opened, and a memory file is created and closed, with a name that no path leads to. -/
theorem counts_right_sample : ∃ s, (machine 1).ReachableUnder (KeepsOpen 1) s ∧ s.slotsOf 4 = 1 ∧ s.slotsOf 5 = 0 ∧
    (∀ f file, s.fs.files.get? f = some file → file.refCount = s.slotsOf f) ∧
    ∃ fs' file, s.fs.unref 4 = .ok fs' ∧ fs'.files.get? 4 = some file ∧ file.refCount + 1 = s.slotsOf 4 := by
  have hrun : (((machine 1).run first [creates tmpX, createsMemory ['m']]).bind fun s =>
      ((machine 1).step s (calls (.close 1))).map fun s' => decide (s.tables = [[some ⟨0, false⟩, some ⟨1, false⟩]] ∧
        s.fs.fileOf 1 = some 5 ∧ s.fs.path 5 = .ok pathM ∧ s.fs.tryGetFile 1 pathM .YES = .ok none ∧ s'.slotsOf 4 = 1 ∧
        s'.slotsOf 5 = 0)) = some true := by decide
  obtain ⟨s, hs, hrun⟩ := Option.bind_eq_some_iff.1 hrun
  obtain ⟨s', hs', hfound⟩ := Option.map_eq_some_iff.1 hrun
  obtain ⟨htables, hof, hpath, hnone, hfour, hfive⟩ := of_decide_eq_true hfound
  have hreach : (machine 1).ReachableUnder (KeepsOpen 1) s := by
    refine .run _ (.init first_isNew) ?_ hs
    intro a ha t
    rcases List.mem_cons.1 ha with rfl | ha
    · trivial
    · obtain rfl := List.mem_singleton.1 ha
      trivial
  have hkeeps : s.KeepsOpen 1 (calls (.close 1)) := by
    intro fds descriptor htable hfind f file hf _ _ _ path hp g gfile hg
    rw [htables] at htable
    obtain rfl := Option.some.inj htable
    obtain rfl := Option.some.inj hfind
    obtain rfl := Option.some.inj (hof.symm.trans hf)
    obtain rfl := Except.ok.inj (hpath.symm.trans hp)
    rw [hnone] at hg
    cases hg
  have hreach' : (machine 1).ReachableUnder (KeepsOpen 1) s' := hreach.step (calls (.close 1)) hkeeps hs'
  obtain ⟨hcounts, -, hunref⟩ := counts_right hreach'
  exact ⟨s', hreach', hfour, hfive, hcounts, hunref 4 (by rw [hfour]; exact Nat.one_pos)⟩

/-- A file is opened in a directory, and a memory file with the name of that directory is created and closed: the directory goes,
and with it the file that the first slot refers to. -/
theorem counts_right_fails : ∃ s, (machine 1).Reachable s ∧ s.tables = [[some ⟨0, false⟩, none]] ∧ s.fs.fileOf 0 = some 4 ∧
    s.slotsOf 4 = 1 ∧ s.fs.files.get? 4 = none := by
  have hrun : ((machine 1).run first [creates tmpX, createsMemory ['t', 'm', 'p'], calls (.close 1)]).map
      (fun s => (s.tables, s.fs.fileOf 0, s.slotsOf 4, s.fs.files.get? 4)) =
        some ([[some ⟨0, false⟩, none]], some 4, 1, none) := by decide
  obtain ⟨s, hs, hfound⟩ := Option.map_eq_some_iff.1 hrun
  obtain ⟨htables, hfound⟩ := Prod.ext_iff.1 hfound
  obtain ⟨hof, hfound⟩ := Prod.ext_iff.1 hfound
  obtain ⟨hslots, hgone⟩ := Prod.ext_iff.1 hfound
  exact ⟨s, (Machine.Reachable.init first_isNew).run _ hs, htables, hof, hslots, hgone⟩

end Samples

end FileState

end X64Emulator
