import X64Emulator.Lemmas.Aging
import X64Emulator.Lemmas.TreeNodes

/-!
# Unlinking a file and closing it for the last time

A file without descriptors is destroyed by `unlink`. One with descriptors stays where it is and is marked, and the close of its
last descriptor destroys it, if its path still leads to it.
-/

namespace X64Emulator

open Outcome

namespace FS

variable {fs fs' : FS} {e f dir : FileId} {host : HostFiles} {depth : Nat} {path : Path}

/-- The file is destroyed. Every other file, but those below it, is as it was, and the file is no entry of it any more. -/
structure Destroys (fs fs' : FS) (e : FileId) : Prop where
  gone : ¬ fs'.files.Live e
  others : ∀ q file, q ∉ fs.doomed e → fs.files.get? q = some file →
    fs'.files.get? q = some (file.withEntries (file.entries.erase e))

/-- The file system with a file marked to go when it is closed. -/
def marked (fs : FS) (f : FileId) : FS := fs.modifyFile f fun file => { file with deleteAfterClose := true }

theorem entries_erase_of_not_mem {file : File} (h : e ∉ file.entries) : file.withEntries (file.entries.erase e) = file := by
  rw [List.erase_of_not_mem h, File.withEntries_self]

/-- An entry is taken out of its directory, the only one that has it, and destroyed. -/
theorem Tree.destroys_without (ht : fs.Tree) (he : e ∈ fs.entries dir) : fs.Destroys ((fs.without dir e).destroy e) e := by
  constructor
  · rintro ⟨file, hfile⟩
    rw [get?_destroy, if_pos (mem_doomed_self _ _)] at hfile
    cases hfile
  · intro q file hq hfile
    have hnot : q ∉ (fs.without dir e).doomed e := fun hmem => hq (doomed_without (isDir_of_mem_entries he) hmem)
    rw [get?_destroy, if_neg hnot, without, get?_modifyFile]
    split
    · next hqd =>
      rw [hfile]
      rfl
    · next hqd =>
      rw [hfile, entries_erase_of_not_mem]
      intro hmem
      rw [← entries_eq hfile] at hmem
      exact hqd (ht.owned q dir e hmem he)

theorem EntryAt.unique {e' : FileId} (h : fs.EntryAt path e) (h' : fs.EntryAt path e') : e' = e := by
  obtain ⟨dir, name, hwalk, hname, hentry⟩ := h
  obtain ⟨dir', name', hwalk', hname', hentry'⟩ := h'
  obtain rfl := Option.some.inj (Except.ok.inj (hwalk.symm.trans hwalk'))
  obtain rfl := Option.some.inj (hname.symm.trans hname')
  exact Option.some.inj (Except.ok.inj (hentry'.symm.trans hentry))

/-- What `unlink` does with an entry that directories alone lead to. -/
theorem unlink_entryAt (ht : fs.Tree) (he : fs.EntryAt path e) (hf : fs.tryGetFile depth path .YES = .ok (some f)) {file : File}
    (hfile : fs.files.get? f = some file) {n : Int} (h : fs.unlink depth path = .ok (fs', n)) :
    (file.refCount = 0 → fs.Destroys fs' e) ∧ (file.refCount ≠ 0 → fs' = fs.marked f) := by
  constructor
  · intro hzero
    rcases unlink_unused hf hfile hzero h with ⟨-, hno⟩ | ⟨fs1, taken, htake, rfl⟩
    · exact absurd he (hno e)
    · obtain ⟨hat, dir, name, -, -, hmem, -, rfl⟩ := tryTakeFile_entryAt htake
      obtain rfl := he.unique hat
      exact ht.destroys_without hmem
  · intro hopen
    rcases unlink_cases h with ⟨hnone, -, -⟩ | ⟨g, gfile, hg, hgfile, -, hrest⟩
    · rw [hnone] at hf
      cases hf
    · obtain rfl := Option.some.inj (Except.ok.inj (hg.symm.trans hf))
      obtain rfl := Option.some.inj (hgfile.symm.trans hfile)
      rcases hrest with ⟨-, rfl⟩ | ⟨hzero, -⟩ | ⟨hzero, -⟩
      · rfl
      · exact absurd hzero hopen
      · exact absurd hzero hopen

/-- Closing a file changes no other, and a link cannot be closed. -/
theorem closeFile_others (h : fs.closeFile f = .ok fs') {q : FileId} (hq : q ≠ f) : fs'.files.get? q = fs.files.get? q := by
  obtain ⟨file, -, ⟨-, rfl | ⟨cls, cls', entries, -, rfl⟩⟩ | ⟨p, side, -, -, rfl⟩⟩ := closeFile_cases h
  · rfl
  · rw [get?_modifyFile, if_neg hq]
  · rfl

theorem closeFile_no_link (h : fs.closeFile f = .ok fs') {file : File} (hfile : fs.files.get? f = some file) : file.link? = none := by
  obtain ⟨file', hfile', h⟩ := bind_eq_ok.1 h
  obtain rfl := Option.some.inj ((file_eq_ok.1 hfile').symm.trans hfile)
  cases hkind : file'.kind with
  | symlink link =>
    rw [hkind] at h
    cases h
  | _ =>
    unfold File.link?
    rw [hkind]

theorem EntryAt.tryGetFile_follow (h : fs.EntryAt path f) {file : File} (hfile : fs.files.get? f = some file)
    (hlink : file.link? = none) : fs.tryGetFile depth path .YES = .ok (some f) := by
  obtain ⟨dir, name, hwalk, hname, hentry⟩ := h
  exact lookupIn_eq_some.2 (.inr ⟨name, dir, f, file, hname, walk_of_walkDirectories hwalk, hentry, hfile, .inr ⟨.inl hlink, rfl⟩⟩)

theorem unlink_lt_next {n : Int} (h : fs.unlink depth path = .ok (fs', n)) {file : File} (hfile : fs.files.get? f = some file) :
    f < fs'.files.next :=
  Nat.lt_of_lt_of_le (Heap.Live.lt_next ⟨file, hfile⟩) (unlink_ages h).next

/-- The last close of a marked file destroys it, if directories alone lead from its path to it. -/
theorem close_marked (ht : fs.Tree) {descriptor : FileDescriptor} {file : File}
    (hof : fs.fileOf descriptor.openFileDescription = some f) (hfile : fs.files.get? f = some file) (hone : file.refCount = 1)
    (hmark : file.deleteAfterClose = true) (hpath : fs.path f = .ok path) (hat : fs.EntryAt path f)
    (h : fs.close depth descriptor = .ok fs') : fs.Destroys fs' f := by
  obtain ⟨ofd, fs1, file1, hofd, hunref, hfile1, hrest⟩ := close_cases h
  obtain rfl : ofd.file = f := by
    rw [fileOf, hofd] at hof
    exact Option.some.inj hof
  obtain ⟨file0, hfile0, -, rfl⟩ := unref_eq_ok hunref
  obtain rfl := Option.some.inj (hfile0.symm.trans hfile)
  have hsame1 : fs.SameTree (fs.modifyFile ofd.file fun file => { file with refCount := file.refCount - 1 }) :=
    SameTree.count (k := (· - 1))
  rw [get?_modifyFile, if_pos rfl, hfile] at hfile1
  obtain rfl := Option.some.inj hfile1
  have hzero : file0.refCount - 1 = 0 := by rw [hone]
  rcases hrest with ⟨-, hlast⟩ | ⟨hne, -⟩
  · obtain ⟨fs2, file2, hclose, hfile2, hrest⟩ := lastClose_cases hlast
    have hsame2 := hsame1.trans (closeFile_sameTree hclose)
    have ht2 := hsame2.tree ht
    obtain ⟨file2', hfile2', hcount, hkept, hflag⟩ := closeFile_kept hclose (q := ofd.file)
      (by rw [get?_modifyFile, if_pos rfl, hfile]; rfl)
    obtain rfl := Option.some.inj (hfile2'.symm.trans hfile2)
    have hcount : file2'.refCount = file0.refCount - 1 := hcount
    have hflag : file2'.deleteAfterClose = file0.deleteAfterClose := hflag
    rcases hrest with ⟨hstays, -⟩ | ⟨-, path', fs3, n, hpath', hunlink, rfl⟩
    · rw [hflag, hmark, Bool.or_true] at hstays
      cases hstays
    · obtain rfl := Except.ok.inj (hpath'.symm.trans (hsame2.path hpath))
      have hat2 := hsame2.grows.entryAt hat
      obtain ⟨old, hold, hlink⟩ : ∃ old, fs2.files.get? ofd.file = some old ∧ old.link? = none := by
        have hno := closeFile_no_link hclose (by rw [get?_modifyFile, if_pos rfl, hfile]; rfl)
        obtain ⟨file3, hfile3, hnode⟩ := (closeFile_sameTree hclose).file ofd.file _ (by rw [get?_modifyFile, if_pos rfl, hfile]; rfl)
        exact ⟨file3, hfile3, hnode.link.trans hno⟩
      have hfound : fs2.tryGetFile depth path' .YES = .ok (some ofd.file) := hat2.tryGetFile_follow hold hlink
      have hdestroys := (unlink_entryAt ht2 hat2 hfound hfile2 hunlink).1 (hcount.trans hzero)
      constructor
      · exact (Ages.removeFromOrphans fs3 ofd.file).gone (unlink_lt_next hunlink hfile2) hdestroys.gone
      · intro q file hq hqfile
        have hne : q ≠ ofd.file := by
          rintro rfl
          exact hq (mem_doomed_self fs ofd.file)
        have hq2 : q ∉ fs2.doomed ofd.file :=
          fun hmem => hq (doomed_mono (fun x y hy => hsame2.entries x ▸ hy) hsame2.next hmem)
        have hqfile2 : fs2.files.get? q = some file := by
          rw [closeFile_others hclose hne, get?_modifyFile, if_neg hne]
          exact hqfile
        rw [get?_removeFromOrphans, if_neg fun hmem => hne hmem.2]
        exact hdestroys.others q file hq2 hqfile2
  · exact absurd hzero hne

/-- A close that is not the last of its file only counts. -/
theorem close_counted {descriptor : FileDescriptor} {file : File} (hof : fs.fileOf descriptor.openFileDescription = some f)
    (hfile : fs.files.get? f = some file) (hmore : file.refCount ≠ 1) (h : fs.close depth descriptor = .ok fs') :
    fs' = fs.modifyFile f fun file => { file with refCount := file.refCount - 1 } := by
  obtain ⟨ofd, fs1, file1, hofd, hunref, hfile1, hrest⟩ := close_cases h
  obtain rfl : ofd.file = f := by
    rw [fileOf, hofd] at hof
    exact Option.some.inj hof
  obtain ⟨file0, hfile0, hpos, rfl⟩ := unref_eq_ok hunref
  obtain rfl := Option.some.inj (hfile0.symm.trans hfile)
  rw [get?_modifyFile, if_pos rfl, hfile] at hfile1
  obtain rfl := Option.some.inj hfile1
  rcases hrest with ⟨hzero, -⟩ | ⟨-, rfl⟩
  · have hzero : file0.refCount - 1 = 0 := hzero
    omega
  · rfl

theorem openFile_fileOf (h : fs.openFile host f = .ok fs') (d : DescriptionId) : fs'.fileOf d = fs.fileOf d := by
  obtain ⟨file, -, h⟩ := bind_eq_ok.1 h
  split at h
  · obtain ⟨path, -, h⟩ := bind_eq_ok.1 h
    obtain ⟨-, -, h⟩ := bind_eq_ok.1 h
    obtain rfl := Except.ok.inj h
    rfl
  · exact Except.ok.inj h ▸ rfl

theorem get?_addFile_next {file : File} (hd : fs.IsDir dir) :
    (fs.addFile dir file).1.files.get? fs.files.next = some { file with parent := some dir } := by
  rw [addFile_eq]
  unfold attach
  rw [get?_modifyFile, if_pos rfl, get?_modifyFile, if_neg hd.ne_next.symm, get?_allocFile, if_pos rfl]
  rfl

section Opening

variable {accessMode : AccessMode} {creationFlags : CreationFlags} {statusFlags : StatusFlags} {descriptor : FileDescriptor}

/-- What `open` opens was there, or it is new. -/
theorem openPath_fileOf (ht : fs.Tree)
    (h : fs.openPath host depth path accessMode creationFlags statusFlags = .ok (fs', .ok descriptor)) :
    ∃ g, fs'.fileOf descriptor.openFileDescription = some g ∧ (fs.files.Live g ∨ fs.files.next ≤ g) := by
  rcases openPath_cases h with ⟨g, fs1, opened, hg, heq, hnode, hopen⟩ | ⟨kind, opened, -, heq, -, hcreate⟩ | ⟨-, heq, -, -⟩
  · obtain rfl := Except.ok.inj heq
    obtain ⟨-, -, -, -, hof, -⟩ := openNode_frame hnode
    exact ⟨g, (openFile_fileOf hopen _).trans hof, .inl (ht.tryGetFile_live hg)⟩
  · obtain rfl := Except.ok.inj heq
    obtain ⟨name, fs1, parent, fs2, -, hensure, -, hnode⟩ := create_eq_ok hcreate
    obtain ⟨-, -, -, -, hof, -⟩ := openNode_frame hnode
    exact ⟨fs1.files.next, hof, .inr (ensurePathExceptLast_ages ht hensure).next⟩
  · cases heq

/-- Where nothing is at the path and the host has nothing there, `open` with `O_CREAT` makes a new, empty file. -/
theorem openPath_fresh (ht : fs.Tree) (hcreat : creationFlags.creat = true) (hnone : fs.tryGetFile depth path .YES = .ok none)
    (habsent : host.contents path = .absent)
    (h : fs.openPath host depth path accessMode creationFlags statusFlags = .ok (fs', .ok descriptor)) :
    ∃ g file, fs'.fileOf descriptor.openFileDescription = some g ∧ fs.files.next ≤ g ∧ fs'.files.get? g = some file ∧
      file.kind = .shadowFile [] := by
  have hnew : newFile host path accessMode creationFlags { statusFlags with largefile := true } = .ok (some (.shadowFile [])) := by
    have hhost : canUseHostFile accessMode creationFlags { statusFlags with largefile := true } = false := by
      simp [canUseHostFile, hcreat]
    simp [newFile, hhost, habsent, hcreat]
  rcases openPath_cases h with ⟨g, fs1, opened, hg, -, -, -⟩ | ⟨kind, opened, -, heq, hkind, hcreate⟩ | ⟨-, heq, -, -⟩
  · rw [hnone] at hg
    cases hg
  · obtain rfl := Except.ok.inj heq
    obtain rfl := Option.some.inj (Except.ok.inj (hkind.symm.trans hnew))
    obtain ⟨name, fs1, parent, fs2, -, hensure, hopen, hnode⟩ := create_eq_ok hcreate
    obtain ⟨-, rfl, -⟩ := openNode_eq_ok hnode
    obtain ⟨-, -, -, -, hof, -⟩ := openNode_frame hnode
    have hdir := (ensurePathExceptLast_edits (φ := fun _ _ _ => True) (δ := fun _ _ => True) allows_any ht hensure).2
      parent rfl
    have hadded : (fs1.addFile parent (.new name (.shadowFile []))).1.files.get? fs1.files.next =
        some { File.new name (.shadowFile []) with parent := some parent } := get?_addFile_next hdir
    have hopened : fs2 = (fs1.addFile parent (.new name (.shadowFile []))).1 := by
      obtain ⟨file, hfile, hopen⟩ := bind_eq_ok.1 hopen
      obtain rfl := Option.some.inj ((file_eq_ok.1 hfile).symm.trans hadded)
      exact (Except.ok.inj hopen).symm
    refine ⟨fs1.files.next, { File.new name (.shadowFile []) with refCount := 1, parent := some parent }, hof,
      (ensurePathExceptLast_ages ht hensure).next, ?_, rfl⟩
    show ((fs2.describe _ _ _).modifyFile _ _).files.get? fs1.files.next = _
    rw [get?_modifyFile, if_pos rfl]
    show (fs2.files.get? fs1.files.next).map _ = _
    rw [hopened, hadded]
    rfl
  · cases heq

end Opening

end FS

namespace FileState

open FS

variable {s s' t : FileState} {e f : FileId} {depth : Nat}

/-- In every later state of every run the file is gone: no lookup finds it, and no `open` opens it. -/
def Forgotten (depth : Nat) (s : FileState) (e : FileId) : Prop :=
  ∀ run t, (machine depth).run s run = some t → ¬ t.fs.files.Live e ∧
    (∀ path follow, t.fs.tryGetFile depth path follow ≠ .ok (some e)) ∧
    ∀ host path accessMode creationFlags statusFlags fs' descriptor,
      t.fs.openPath host depth path accessMode creationFlags statusFlags = .ok (fs', .ok descriptor) →
      fs'.fileOf descriptor.openFileDescription ≠ some e

/-- In every later state of every run the file is marked to go when it is closed, as long as it is there. -/
def StaysMarked (depth : Nat) (s : FileState) (f : FileId) : Prop :=
  ∀ run t file, (machine depth).run s run = some t → t.fs.files.get? f = some file → file.deleteAfterClose = true

theorem forgotten_of_gone (ht : s.fs.Tree) (hlt : e < s.fs.files.next) (hgone : ¬ s.fs.files.Live e) : s.Forgotten depth e := by
  intro run t hrun
  obtain ⟨hages, htree⟩ := run_ages ht hrun
  have hlater := hages.gone hlt hgone
  refine ⟨hlater, fun path follow h => hlater (htree.tryGetFile_live h), ?_⟩
  intro host path accessMode creationFlags statusFlags fs' descriptor h hof
  obtain ⟨g, hg, hlive | hnew⟩ := openPath_fileOf htree h
  · obtain rfl := Option.some.inj (hg.symm.trans hof)
    exact hlater hlive
  · obtain rfl := Option.some.inj (hg.symm.trans hof)
    exact Nat.not_lt.2 hnew (Nat.lt_of_lt_of_le hlt hages.next)

theorem staysMarked_of_marked (ht : s.fs.Tree) {file : File} (hfile : s.fs.files.get? f = some file)
    (hmark : file.deleteAfterClose = true) : s.StaysMarked depth f := by
  intro run t later hrun hlater
  obtain ⟨hages, -⟩ := run_ages ht hrun
  obtain ⟨old, hold, hkeeps⟩ := hages.file f (Heap.Live.lt_next ⟨file, hfile⟩) later hlater
  obtain rfl := Option.some.inj (hold.symm.trans hfile)
  exact hkeeps hmark

/-- What a call of `unlink` that succeeds does with the entry `e` at its path, where `f` is the file that the path leads to. -/
structure Unlinks (depth : Nat) (s s' : FileState) (e f : FileId) (file : File) : Prop where
  tables : s'.tables = s.tables
  descriptions : s'.fs.descriptions = s.fs.descriptions
  closed : file.refCount = 0 → s.fs.Destroys s'.fs e ∧ s'.Forgotten depth e
  opened : file.refCount ≠ 0 → f = e → s'.fs = s.fs.marked e ∧ s'.StaysMarked depth e

/-- What closing a descriptor of a file does with the file. -/
structure Closing (fs fs' : FS) (f : FileId) (file : File) : Prop where
  descriptions : fs'.descriptions = fs.descriptions
  more : file.refCount ≠ 1 → fs' = fs.modifyFile f fun file => { file with refCount := file.refCount - 1 }
  last : ∀ path, file.refCount = 1 → file.deleteAfterClose = true → fs.path f = .ok path → fs.EntryAt path f → fs.Destroys fs' f

/-- From every state that a run reaches. Where directories alone lead to the entry at a path, `unlink` destroys it at once if the
file that the path leads to has no descriptor, and no lookup finds it ever after; otherwise the entry stays and is marked, and it
stays marked. A close that is not the last only counts; the last one of a marked file destroys it, if directories alone lead from
its path to it. A file that is created where nothing is and the host has nothing is new and empty. -/
theorem unlink_close (h : (machine depth).Reachable s) :
    (∀ host table path s' e f file, s.act depth host (.call table (.unlink path)) = .ok (s', .value 0) → s.fs.EntryAt path e →
      s.fs.tryGetFile depth path .YES = .ok (some f) → s.fs.files.get? f = some file → s.Unlinks depth s' e f file) ∧
    (∀ descriptor fs' f file, s.fs.close depth descriptor = .ok fs' → s.fs.fileOf descriptor.openFileDescription = some f →
      s.fs.files.get? f = some file → Closing s.fs fs' f file) ∧
    ∀ host path accessMode creationFlags statusFlags fs' descriptor, creationFlags.creat = true →
      s.fs.tryGetFile depth path .YES = .ok none → host.contents path = .absent →
      s.fs.openPath host depth path accessMode creationFlags statusFlags = .ok (fs', .ok descriptor) →
      ∃ g file, fs'.fileOf descriptor.openFileDescription = some g ∧ s.fs.files.next ≤ g ∧ fs'.files.get? g = some file ∧
        file.kind = .shadowFile [] := by
  have ht := reachable_tree h
  refine ⟨?_, ?_, ?_⟩
  · intro host table path s' e f file hact he hf hfile
    rcases act_cases hact with ⟨_, fds, call, heq, htable, hcall⟩ | ⟨_, _, heq, -⟩ | ⟨_, heq, -⟩
    · cases heq
      obtain ⟨⟨fs1, n⟩, hunlink, hcall⟩ := bind_eq_ok.1 hcall
      obtain rfl : _ = s' := (ok_pair hcall).1
      obtain ⟨hclosed, hopened⟩ := unlink_entryAt ht he hf hfile hunlink
      have ht1 : fs1.Tree :=
        ht.edits (unlink_edits (φ := fun _ _ _ => True) (δ := fun _ _ => True) ht (fun _ _ _ _ _ _ _ _ => trivial) hunlink)
      have hfound : s.fs.tryGetFile depth path .NO = .ok (some e) := he.tryGetFile ht
      obtain ⟨efile, hefile⟩ := ht.tryGetFile_live hfound
      refine ⟨rfl, unlink_descriptions hunlink, ?_, ?_⟩
      · intro hzero
        exact ⟨hclosed hzero, forgotten_of_gone ht1 (unlink_lt_next hunlink hefile) (hclosed hzero).gone⟩
      · rintro hne rfl
        have hmarked := hopened hne
        have hnow : fs1.files.get? f = some { file with deleteAfterClose := true } := by
          rw [hmarked, marked, get?_modifyFile, if_pos rfl, hfile]
          rfl
        exact ⟨hmarked, staysMarked_of_marked ht1 hnow rfl⟩
    · cases heq
    · cases heq
  · intro descriptor fs' f file hclose hof hfile
    exact ⟨close_descriptions hclose, fun hne => close_counted hof hfile hne hclose,
      fun path hone hmark hpath hat => close_marked ht hof hfile hone hmark hpath hat hclose⟩
  · intro host path accessMode creationFlags statusFlags fs' descriptor hcreat hnone habsent hopen
    exact openPath_fresh ht hcreat hnone habsent hopen

section Samples

def pathU : Path := ⟨[['u']], by decide⟩

/-- The state after an `unlink` that succeeds. -/
def unlinked (s : FileState) : Option FileState :=
  match s.act 1 bareHost (.call 0 (.unlink pathU)) with
  | .ok (s', .value 0) => some s'
  | _ => none

theorem act_of_unlinked (h : s.unlinked = some s') : s.act 1 bareHost (.call 0 (.unlink pathU)) = .ok (s', .value 0) := by
  unfold unlinked at h
  split at h
  · next t ht => rw [ht, Option.some.inj h]
  · cases h

/-- A file is created and unlinked while it is open: it is marked, and the close of its descriptor destroys it. -/
theorem unlink_close_open : ∃ s s' fs', (machine 1).Reachable s ∧
    s.act 1 bareHost (.call 0 (.unlink pathU)) = .ok (s', .value 0) ∧ s'.fs = s.fs.marked 3 ∧ s'.StaysMarked 1 3 ∧
    s'.fs.close 1 ⟨0, false⟩ = .ok fs' ∧ s'.fs.Destroys fs' 3 := by
  have hrun : ((machine 1).step first (creates pathU)).bind (fun s => s.unlinked.bind fun s' => (s'.fs.close 1 ⟨0, false⟩).toOption.map
      fun _ => decide ((s.fs.files.get? 3).map File.refCount = some 1 ∧ s.fs.tryGetFile 1 pathU .YES = .ok (some 3) ∧
        s.fs.tryGetEntry s.fs.root ['u'] = .ok (some 3) ∧ (s'.fs.files.get? 3).map File.refCount = some 1 ∧
        (s'.fs.files.get? 3).map File.deleteAfterClose = some true ∧ s'.fs.fileOf 0 = some 3 ∧ s'.fs.path 3 = .ok pathU ∧
        s'.fs.tryGetEntry s'.fs.root ['u'] = .ok (some 3))) = some true := by decide
  obtain ⟨s, hs, hrun⟩ := Option.bind_eq_some_iff.1 hrun
  obtain ⟨s', hs', hrun⟩ := Option.bind_eq_some_iff.1 hrun
  obtain ⟨fs', hclose, hfound⟩ := Option.map_eq_some_iff.1 hrun
  obtain ⟨hcount, hf, hentry, hcount', hmark, hof, hpath, hentry'⟩ := of_decide_eq_true hfound
  obtain ⟨file, hfile, hone⟩ := Option.map_eq_some_iff.1 hcount
  obtain ⟨file', hfile', hone'⟩ := Option.map_eq_some_iff.1 hcount'
  rw [hfile', Option.map_some, Option.some.injEq] at hmark
  have hact := act_of_unlinked hs'
  have hclose := toOption_eq_some.1 hclose
  have hreach : (machine 1).Reachable s := (Machine.Reachable.init first_isNew).step _ hs
  have hreach' : (machine 1).Reachable s' := by
    refine hreach.step (bareHost, .call 0 (.unlink pathU)) ?_
    show (s.act 1 bareHost (.call 0 (.unlink pathU))).toOption.map Prod.fst = some s'
    rw [hact]
    rfl
  have hunlinks := (unlink_close hreach).1 bareHost 0 pathU s' 3 3 file hact ⟨s.fs.root, ['u'], rfl, rfl, hentry⟩ hf hfile
  obtain ⟨hmarked, hstays⟩ := hunlinks.opened (by rw [hone]; decide) rfl
  have hcloses := (unlink_close hreach').2.1 ⟨0, false⟩ fs' 3 file' hclose hof hfile'
  exact ⟨s, s', fs', hreach, hact, hmarked, hstays, hclose,
    hcloses.last pathU hone' hmark hpath ⟨s'.fs.root, ['u'], rfl, rfl, hentry'⟩⟩

/-- A lookup still finds a file that was unlinked while it is open. -/
theorem unlink_close_fails : ¬ ∀ (s s' : FileState) (host : HostFiles) (table : Nat) (path : Path) (f : FileId),
    (machine 1).Reachable s → s.act 1 host (.call table (.unlink path)) = .ok (s', .value 0) →
    s.fs.tryGetFile 1 path .NO = .ok (some f) → ∀ follow, s'.fs.tryGetFile 1 path follow ≠ .ok (some f) := by
  intro hall
  have hrun : ((machine 1).step first (creates pathU)).bind (fun s => s.unlinked.map fun s' =>
      decide (s.fs.tryGetFile 1 pathU .NO = .ok (some 3) ∧ s'.fs.tryGetFile 1 pathU .YES = .ok (some 3))) = some true := by
    decide
  obtain ⟨s, hs, hrun⟩ := Option.bind_eq_some_iff.1 hrun
  obtain ⟨s', hs', hfound⟩ := Option.map_eq_some_iff.1 hrun
  obtain ⟨hbefore, hafter⟩ := of_decide_eq_true hfound
  exact hall s s' bareHost 0 pathU 3 ((Machine.Reachable.init first_isNew).step _ hs) (act_of_unlinked hs') hbefore .YES hafter

end Samples

end FileState

end X64Emulator
