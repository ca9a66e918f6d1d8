import X64Emulator.Lemmas.DescriptorTables
import X64Emulator.Lemmas.Namespace

/-!
# The files that descriptors refer to

A file that is destroyed takes the files below it with it. `NothingOpen` says that no descriptor refers to any of them, and
`ClosesSafely` that this holds of what the last close of a descriptor unlinks, which it finds by its path.
-/

namespace X64Emulator

open Outcome

namespace FS

variable {fs fs' : FS} {f d : FileId} {pathname : Path} {ds : List DescriptionId} {depth : Nat} {cs : List Str}
  {φ : FS → FileId → Str → Prop} {μ : Prop}

/-! ## The tree as lookups see it -/

theorem SameTree.grows (h : fs.SameTree fs') : fs.Grows fs' := by
  refine ⟨h.root, ?_, ?_⟩
  · intro q file hfile
    obtain ⟨file', hfile', hsame⟩ := h.file q file hfile
    exact ⟨file', hfile', hsame.isDirectory, hsame.link⟩
  · intro d name e he
    rw [tryGetEntry_eq_ok] at he ⊢
    rw [h.entries]
    exact ⟨h.live he.1, findEntry_congr (fun e _ => h.nameOf e) he.2⟩

theorem Grows.walkDirectories (h : fs.Grows fs') (hw : fs.walkDirectories d cs = .ok (some f)) :
    fs'.walkDirectories d cs = .ok (some f) := by
  induction cs generalizing d with
  | nil => exact hw
  | cons c cs ih =>
    obtain ⟨x, hx, hw⟩ := walkDirectories_cons.1 hw
    rw [tryGetSubDirectory_eq_some] at hx
    exact walkDirectories_cons.2 ⟨x, tryGetSubDirectory_eq_some.2 ⟨h.entry d c x hx.1, h.isDir hx.2⟩, ih hw⟩

theorem Grows.entryAt (h : fs.Grows fs') (he : fs.EntryAt pathname f) : fs'.EntryAt pathname f := by
  obtain ⟨dir, name, hwalk, hname, hentry⟩ := he
  exact ⟨dir, name, h.root ▸ h.walkDirectories hwalk, hname, h.entry dir name f hentry⟩

theorem SameTree.directoryNames (h : fs.SameTree fs') (n : Nat) (parent : Option FileId) {names : List Str}
    (hn : fs.directoryNames n parent = .ok names) : fs'.directoryNames n parent = .ok names := by
  induction n generalizing parent names with
  | zero =>
    cases parent with
    | none => exact hn
    | some dir => cases hn
  | succ n ih =>
    cases parent with
    | none => exact hn
    | some dir =>
      obtain ⟨directory, hdir, hn⟩ := bind_eq_ok.1 hn
      obtain ⟨above, habove, hn⟩ := bind_eq_ok.1 hn
      obtain ⟨directory', hdir', hsame⟩ := h.file dir directory (file_eq_ok.1 hdir)
      refine bind_eq_ok.2 ⟨directory', file_eq_ok.2 hdir', bind_eq_ok.2 ⟨above, ?_, ?_⟩⟩
      · rw [hsame.parent]
        exact ih directory.parent habove
      · rw [hsame.name]
        exact hn

theorem SameTree.path (h : fs.SameTree fs') (hp : fs.path f = .ok pathname) : fs'.path f = .ok pathname := by
  obtain ⟨file, hfile, hp⟩ := bind_eq_ok.1 hp
  obtain ⟨above, habove, hp⟩ := bind_eq_ok.1 hp
  obtain ⟨file', hfile', hsame⟩ := h.file f file (file_eq_ok.1 hfile)
  refine bind_eq_ok.2 ⟨file', file_eq_ok.2 hfile', bind_eq_ok.2 ⟨above, ?_, ?_⟩⟩
  · rw [hsame.parent, h.next]
    exact h.directoryNames _ _ habove
  · rw [hsame.name]
    exact hp

/-- Less entries, less files that go with a file. -/
theorem subtree_mono (h : ∀ q, ∀ e ∈ fs'.entries q, e ∈ fs.entries q) {n : Nat} {x : FileId} (hx : x ∈ fs'.subtree n f) :
    x ∈ fs.subtree n f := by
  induction n generalizing f with
  | zero => exact hx
  | succ n ih =>
    rw [subtree] at hx ⊢
    rcases List.mem_cons.1 hx with rfl | hx
    · exact List.mem_cons_self
    · obtain ⟨e, he, hx⟩ := List.mem_flatMap.1 hx
      exact List.mem_cons_of_mem _ (List.mem_flatMap.2 ⟨e, h f e he, ih hx⟩)

theorem doomed_mono (h : ∀ q, ∀ e ∈ fs'.entries q, e ∈ fs.entries q) (hnext : fs'.files.next = fs.files.next) {x : FileId}
    (hx : x ∈ fs'.doomed f) : x ∈ fs.doomed f := by
  unfold doomed at hx ⊢
  rw [hnext] at hx
  exact subtree_mono h hx

/-! ## What is destroyed -/

/-- No descriptor refers to what goes with the file. -/
def NothingOpen (fs : FS) (f : FileId) : Prop := ∀ x ∈ fs.doomed f, ∀ file, fs.files.get? x = some file → file.refCount = 0

/-- What unlinking a path destroys has no descriptors, once the file that is being closed has none. -/
def SparesOpen (fs : FS) (depth : Nat) (path : Path) (closed : Option FileId) : Prop :=
  ∀ g gfile, fs.tryGetFile depth path .YES = .ok (some g) → fs.files.get? g = some gfile →
    (gfile.refCount = 0 ∨ closed = some g) → ∀ e, fs.EntryAt path e → ∀ x ∈ fs.doomed e, ∀ file,
      fs.files.get? x = some file → file.refCount = 0 ∨ closed = some x

/-- What closing a descriptor destroys has no other descriptor: where it is the last of its file and the file goes then, the
path of the file is unlinked. -/
def ClosesSafely (depth : Nat) (fs : FS) (d : DescriptionId) : Prop :=
  ∀ f file, fs.fileOf d = some f → fs.files.get? f = some file → file.refCount = 1 →
    (!file.keepAfterClose || file.deleteAfterClose) = true → ∀ path, fs.path f = .ok path → fs.SparesOpen depth path (some f)

/-- The files of the descriptors exist. -/
def Alive (fs : FS) (ds : List DescriptionId) : Prop := ∀ d ∈ ds, ∃ f, fs.fileOf d = some f ∧ fs.files.Live f

/-- A file to which a descriptor refers has a positive count. -/
theorem Counted.count_ne_zero (hc : fs.Counted ds) {d : DescriptionId} (hd : d ∈ ds) (hf : fs.fileOf d = some f) {file : File}
    (hfile : fs.files.get? f = some file) : file.refCount ≠ 0 := by
  rw [hc.count f file hfile]
  exact Nat.ne_of_gt (List.countP_pos_iff.2 ⟨d, hd, by simpa using hf⟩)

/-- What an entry that is taken out takes with it was below it before. -/
theorem doomed_without {dir e x : FileId} (hdir : fs.IsDir dir) (hx : x ∈ (fs.without dir e).doomed f) : x ∈ fs.doomed f := by
  refine doomed_mono ?_ next_modifyFile hx
  intro q y hy
  have hentries : (fs.without dir e).entries q = if q = dir then (fs.entries q).erase e else fs.entries q :=
    entries_replace hdir (h := fun es => es.erase e) q
  have hy : y ∈ (fs.without dir e).entries q := hy
  rw [hentries] at hy
  split at hy
  · exact List.mem_of_mem_erase hy
  · exact hy

/-- An elementary change destroys no file that has a descriptor. -/
theorem Edit.keeps_open (h : Edit φ NothingOpen fs fs') {file : File} (hfile : fs.files.get? f = some file)
    (hcount : file.refCount ≠ 0) : fs'.files.Live f := by
  cases h with
  | modify g k hk => exact live_modifyFile.2 ⟨file, hfile⟩
  | add dir new hd hnew hφ => exact live_addFile.2 (.inr ⟨file, hfile⟩)
  | take dir e hd => exact live_modifyFile.2 ⟨file, hfile⟩
  | attach dir g name hd hg hout hφ => exact live_attach.2 (live_modifyFile.2 ⟨file, hfile⟩)
  | destroy g hout hδ =>
    refine live_destroy ?_ ⟨file, hfile⟩
    intro hmem
    exact hcount (hδ f hmem file hfile)

theorem Silent.keeps_open (h : Silent φ NothingOpen μ fs fs') {file : File} (hfile : fs.files.get? f = some file)
    (hcount : file.refCount ≠ 0) : fs'.files.Live f := by
  cases h with
  | edit h => exact h.keeps_open hfile hcount
  | pipe p g => exact ⟨file, hfile⟩
  | description d g => exact ⟨file, hfile⟩

theorem SparesOpen.nothingOpen {fs1 : FS} {g taken : FileId} {gfile : File} (h : fs.SparesOpen depth pathname none)
    (hg : fs.tryGetFile depth pathname .YES = .ok (some g)) (hgfile : fs.files.get? g = some gfile) (hzero : gfile.refCount = 0)
    (htake : fs.tryTakeFile pathname = .ok (fs1, some taken)) : fs1.NothingOpen taken := by
  obtain ⟨hat, dir, name, -, -, hmem, -, rfl⟩ := tryTakeFile_entryAt htake
  intro x hx file hfile
  obtain ⟨old, hold, hcount⟩ : ∃ old, fs.files.get? x = some old ∧ file.refCount = old.refCount := by
    rw [FS.without, get?_modifyFile] at hfile
    split at hfile
    · obtain ⟨old, hold, rfl⟩ := Option.map_eq_some_iff.1 hfile
      exact ⟨old, hold, File.refCount_withEntries⟩
    · exact ⟨file, hfile, rfl⟩
  rcases h g gfile hg hgfile (.inl hzero) taken hat x (doomed_without (isDir_of_mem_entries hmem) hx) old hold with hnone | hcl
  · exact hcount.trans hnone
  · cases hcl

/-- `unlink` destroys no file that has a descriptor. -/
theorem unlink_keeps_open {n : Int} (hs : fs.SparesOpen depth pathname none) (h : fs.unlink depth pathname = .ok (fs', n))
    {file : File} (hfile : fs.files.get? f = some file) (hcount : file.refCount ≠ 0) : fs'.files.Live f := by
  have hlive : fs.files.Live f := ⟨file, hfile⟩
  rcases unlink_cases h with ⟨-, -, rfl⟩ | ⟨g, gfile, hg, hgfile, -, ⟨-, rfl⟩ | ⟨-, rfl⟩ | ⟨hzero, fs1, taken, htake, rfl⟩⟩
  · exact hlive
  · exact live_modifyFile.2 hlive
  · exact hlive
  · obtain ⟨hat, dir, name, -, -, hmem, -, rfl⟩ := tryTakeFile_entryAt htake
    refine live_destroy ?_ (live_modifyFile.2 hlive)
    intro hdoomed
    have hdoomed := doomed_without (isDir_of_mem_entries hmem) hdoomed
    rcases hs g gfile hg hgfile (.inl hzero) taken hat f hdoomed file hfile with hnone | hcl
    · exact hcount hnone
    · cases hcl

/-- What is spared before the last close of a file is spared after it. -/
theorem SparesOpen.closed (h : fs.SparesOpen depth pathname (some f)) (hsame : fs.SameTree fs')
    (hcount : ∀ q file file', fs.files.get? q = some file → fs'.files.get? q = some file' →
      file'.refCount = if q = f then 0 else file.refCount) : fs'.SparesOpen depth pathname none := by
  have hback := hsame.symm
  intro g gfile hg hgfile hzero e he x hx file' hfile'
  left
  obtain ⟨gold, hgold, -⟩ := hback.file g gfile hgfile
  obtain ⟨file, hfile, -⟩ := hback.file x file' hfile'
  have hg0 := hzero.resolve_right (by simp)
  have hgcount := hcount g gold gfile hgold hgfile
  rw [hcount x file file' hfile hfile']
  split
  · rfl
  · next hxf =>
    have hclosed : gold.refCount = 0 ∨ some f = some g := by
      by_cases hgf : g = f
      · exact .inr (congrArg some hgf.symm)
      · rw [if_neg hgf] at hgcount
        exact .inl (hgcount.symm.trans hg0)
    have hdoomed : x ∈ fs.doomed e := doomed_mono (fun q y hy => hsame.entries q ▸ hy) hsame.next hx
    rcases h g gold (hback.grows.tryGetFile hg) hgold hclosed e (hback.grows.entryAt he) x hdoomed file hfile with hnone | hcl
    · exact hnone
    · exact absurd (Option.some.inj hcl).symm hxf

theorem closeFile_kept (h : fs.closeFile f = .ok fs') {q : FileId} {file : File} (hfile : fs.files.get? q = some file) :
    ∃ file', fs'.files.get? q = some file' ∧ file'.refCount = file.refCount ∧ file'.keepAfterClose = file.keepAfterClose ∧
      file'.deleteAfterClose = file.deleteAfterClose := by
  obtain ⟨old, hold, ⟨-, rfl | ⟨cls, cls', entries, hkind, rfl⟩⟩ | ⟨p, side, -, -, rfl⟩⟩ := closeFile_cases h
  · exact ⟨file, hfile, rfl, rfl, rfl⟩
  · rw [get?_modifyFile, hfile]
    split
    · next hq =>
      subst hq
      obtain rfl := Option.some.inj (hold.symm.trans hfile)
      exact ⟨_, rfl, rfl, by simp [File.keepAfterClose, hkind], rfl⟩
    · exact ⟨file, rfl, rfl, rfl, rfl⟩
  · exact ⟨file, hfile, rfl, rfl, rfl⟩

/-- Closing a descriptor destroys no file that has another one. -/
theorem close_keeps_open {descriptor : FileDescriptor} {x : FileId} (hsafe : ClosesSafely depth fs descriptor.openFileDescription)
    (hf : fs.fileOf descriptor.openFileDescription = some f) (h : fs.close depth descriptor = .ok fs') {file : File}
    (hfile : fs.files.get? x = some file) (hcount : (if x = f then 1 else 0) < file.refCount) : fs'.files.Live x := by
  obtain ⟨ofd, fs1, file1, hofd, hunref, hfile1, hrest⟩ := close_cases h
  obtain rfl : ofd.file = f := by
    rw [fileOf, hofd] at hf
    exact Option.some.inj hf
  obtain ⟨file0, hfile0, hpos, rfl⟩ := unref_eq_ok hunref
  rw [get?_modifyFile, if_pos rfl, hfile0] at hfile1
  obtain rfl := Option.some.inj hfile1
  rcases hrest with ⟨hzero, hlast⟩ | ⟨-, rfl⟩
  · have hone : file0.refCount = 1 := by
      have : file0.refCount - 1 = 0 := hzero
      omega
    have hne : x ≠ ofd.file := by
      rintro rfl
      obtain rfl := Option.some.inj (hfile0.symm.trans hfile)
      rw [if_pos rfl, hone] at hcount
      exact Nat.lt_irrefl 1 hcount
    rw [if_neg hne] at hcount
    obtain ⟨fs2, file2, hclose, hfile2, hrest⟩ := lastClose_cases hlast
    have hsame : fs.SameTree fs2 := SameTree.trans (.count (k := (· - 1))) (closeFile_sameTree hclose)
    -- the files at the time of the unlink
    have hkept : ∀ q old, fs.files.get? q = some old → ∃ new, fs2.files.get? q = some new ∧
        new.refCount = (if q = ofd.file then old.refCount - 1 else old.refCount) ∧ new.keepAfterClose = old.keepAfterClose ∧
        new.deleteAfterClose = old.deleteAfterClose := by
      intro q old hold
      by_cases hq : q = ofd.file
      · have hold1 : (fs.modifyFile ofd.file fun file => { file with refCount := file.refCount - 1 }).files.get? q =
            some { old with refCount := old.refCount - 1 } := by
          rw [get?_modifyFile, if_pos hq, hold]
          rfl
        rw [if_pos hq]
        exact closeFile_kept hclose hold1
      · have hold1 : (fs.modifyFile ofd.file fun file => { file with refCount := file.refCount - 1 }).files.get? q = some old := by
          rw [get?_modifyFile, if_neg hq, hold]
        rw [if_neg hq]
        exact closeFile_kept hclose hold1
    obtain ⟨new0, hnew0, -, hkeep0, hdelete0⟩ := hkept ofd.file file0 hfile0
    obtain rfl := Option.some.inj (hfile2.symm.trans hnew0)
    obtain ⟨newx, hnewx, hcountx, -⟩ := hkept x file hfile
    rw [if_neg hne] at hcountx
    rcases hrest with ⟨-, rfl⟩ | ⟨hgoes, pathname, fs3, n, hpath, hunlink, rfl⟩
    · exact ⟨newx, hnewx⟩
    · rw [hkeep0, hdelete0] at hgoes
      have hspares := hsafe ofd.file file0 hf hfile0 hone hgoes pathname (hsame.symm.path hpath)
      have hspares2 : fs2.SparesOpen depth pathname none := by
        refine hspares.closed hsame fun q old new hold hnew => ?_
        obtain ⟨new', hnew', hcount', -⟩ := hkept q old hold
        obtain rfl := Option.some.inj (hnew.symm.trans hnew')
        rw [hcount']
        split
        · next hq =>
          subst hq
          obtain rfl := Option.some.inj (hfile0.symm.trans hold)
          rw [hone]
        · rfl
      obtain ⟨last, hlast3⟩ := unlink_keeps_open hspares2 hunlink hnewx (by rw [hcountx]; exact Nat.ne_of_gt hcount)
      refine ⟨last, ?_⟩
      rw [get?_removeFromOrphans, if_neg fun hx => hne hx.2]
      exact hlast3
  · exact live_modifyFile.2 ⟨file, hfile⟩

theorem Alive.cons (ha : fs.Alive ds) (hof : ∀ d x, fs.fileOf d = some x → fs'.fileOf d = some x)
    (hl : ∀ x, fs.files.Live x → fs'.files.Live x) (hd : fs'.fileOf d = some f) (hf : fs'.files.Live f) : fs'.Alive (d :: ds) := by
  intro e he
  rcases List.mem_cons.1 he with rfl | he
  · exact ⟨f, hd, hf⟩
  · obtain ⟨x, hx, hlive⟩ := ha e he
    exact ⟨x, hof e x hx, hl x hlive⟩

theorem Alive.openNode {accessMode : AccessMode} {statusFlags : StatusFlags} {closeOnExec : Bool} {descriptor : FileDescriptor}
    (ha : fs.Alive ds) (h : fs.openNode f accessMode statusFlags closeOnExec = .ok (fs', descriptor)) :
    fs'.Alive (descriptor.openFileDescription :: ds) := by
  have hsame := openNode_sameTree h
  obtain ⟨-, -, -, -, hd, hof⟩ := openNode_frame h
  exact ha.cons hof (fun x hx => hsame.live hx) hd (hsame.live (openNode_eq_ok h).1)

theorem Alive.insertNode {file : File} {accessMode : AccessMode} {statusFlags : StatusFlags} {closeOnExec : Bool}
    {descriptor : FileDescriptor} (ha : fs.Alive ds)
    (h : fs.insertNode file accessMode statusFlags closeOnExec = .ok (fs', descriptor)) :
    fs'.Alive (descriptor.openFileDescription :: ds) := by
  have ha1 : (fs.allocOrphan file).Alive ds := by
    intro e he
    obtain ⟨x, hx, hlive⟩ := ha e he
    exact ⟨x, hx, live_allocFile.2 (.inr hlive)⟩
  exact ha1.openNode h

/-- Every step of the tables keeps the files of the descriptors. -/
theorem Alive.shift {ds' : List DescriptionId} (hs : fs.Sound ds) (ha : fs.Alive ds)
    (h : Shift φ NothingOpen (ClosesSafely depth) μ depth (fs, ds) (fs', ds')) : fs'.Alive ds' := by
  have hopen : ∀ e ∈ ds, ∃ x file, fs.fileOf e = some x ∧ fs.files.get? x = some file ∧ file.refCount ≠ 0 := by
    intro e he
    obtain ⟨x, hx, file, hfile⟩ := ha e he
    exact ⟨x, file, hx, hfile, hs.counted.count_ne_zero he hx hfile⟩
  cases h with
  | silent h =>
    intro e he
    obtain ⟨x, file, hx, hfile, hcount⟩ := hopen e he
    exact ⟨x, ((h.quiet hs.tree hs.piped.orphan).fileOf e).trans hx, h.keeps_open hfile hcount⟩
  | openNode f accessMode statusFlags closeOnExec h => exact ha.openNode h
  | insertNode file accessMode statusFlags closeOnExec hfile h => exact ha.insertNode h
  | pipe2 statusFlags closeOnExec h =>
    obtain ⟨fs1, hreader, hwriter⟩ := pipe2_eq_ok h
    have ha0 : FS.Alive { fs with pipes := fs.pipes.alloc ⟨[], [fs.files.next], [fs.files.next + 1], false⟩ } ds := ha
    exact (ha0.insertNode hreader).insertNode hwriter
  | ref d f hd h =>
    obtain ⟨hlive, rfl⟩ := ref_eq_ok.1 h
    exact ha.cons (fun _ _ hx => hx) (fun x hx => live_modifyFile.2 hx) hd (live_modifyFile.2 hlive)
  | close descriptor hκ h =>
    obtain ⟨f, hf, -⟩ := ha _ List.mem_cons_self
    intro e he
    obtain ⟨x, file, hx, hfile, -⟩ := hopen e (List.mem_cons_of_mem _ he)
    have hcount : (if x = f then 1 else 0) < file.refCount := by
      have hothers : 0 < fs.references ds' x := List.countP_pos_iff.2 ⟨e, he, by simpa using hx⟩
      rw [hs.counted.count x file hfile, references_cons]
      simp only [hf, Option.some.injEq, eq_comm]
      omega
    exact ⟨x, (hs.close_fileOf h e).trans hx, close_keeps_open hκ hf h hfile hcount⟩
  | perm h =>
    intro e he
    exact ha e (h.mem_iff.2 he)

end FS

end X64Emulator
