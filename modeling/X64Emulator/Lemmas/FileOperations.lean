import X64Emulator.Lemmas.FileTree

/-!
# The operations as changes of the tree

What each function of `FS` gives when it succeeds: the elementary changes it makes, and the entries it found.
-/

namespace X64Emulator

open Outcome

namespace FS

variable {fs fs' : FS} {host : HostFiles} {depth : Nat} {f d e : FileId} {name c : Str} {file : File} {path : Path}
  {resolve : Str → Except FsFailure (Option FileId)}

/-! ## Looking up -/

/-- An entry that is found has the name. -/
theorem findEntry_some {es : List FileId} (h : fs.findEntry name es = .ok (some e)) : e ∈ es ∧ fs.nameOf e = some name := by
  induction es with
  | nil => cases h
  | cons x es ih =>
    obtain ⟨file, hfile, h⟩ := bind_eq_ok.1 h
    rw [file_eq_ok] at hfile
    split at h
    · next hname =>
      obtain rfl := Option.some.inj (Except.ok.inj h)
      exact ⟨List.mem_cons_self, by rw [nameOf, hfile, Option.map_some, hname]⟩
    · obtain ⟨hmem, hname⟩ := ih h
      exact ⟨List.mem_cons_of_mem _ hmem, hname⟩

/-- None found, none has the name. -/
theorem findEntry_none {es : List FileId} (h : fs.findEntry name es = .ok none) : ∀ e ∈ es, fs.nameOf e ≠ some name := by
  induction es with
  | nil => simp
  | cons x es ih =>
    obtain ⟨file, hfile, h⟩ := bind_eq_ok.1 h
    rw [file_eq_ok] at hfile
    split at h
    · cases h
    · next hname =>
      intro e he
      rcases List.mem_cons.1 he with rfl | he
      · rw [nameOf, hfile, Option.map_some]
        exact fun heq => hname (Option.some.inj heq)
      · exact ih h e he

/-- An entry is looked up in a directory that exists. -/
theorem tryGetEntry_eq_ok {r : Option FileId} :
    fs.tryGetEntry d name = .ok r ↔ fs.files.Live d ∧ fs.findEntry name (fs.entries d) = .ok r := by
  unfold tryGetEntry
  rw [bind_eq_ok]
  constructor
  · rintro ⟨directory, hdir, h⟩
    rw [file_eq_ok] at hdir
    exact ⟨⟨directory, hdir⟩, entries_eq hdir ▸ h⟩
  · rintro ⟨⟨directory, hdir⟩, h⟩
    exact ⟨directory, file_eq_ok.2 hdir, entries_eq hdir ▸ h⟩

/-- An entry that is found has the name. -/
theorem tryGetEntry_some (h : fs.tryGetEntry d name = .ok (some e)) : e ∈ fs.entries d ∧ fs.nameOf e = some name :=
  findEntry_some (tryGetEntry_eq_ok.1 h).2

/-- None found, the name is vacant. -/
theorem tryGetEntry_none (h : fs.tryGetEntry d name = .ok none) : fs.Vacant d name :=
  findEntry_none (tryGetEntry_eq_ok.1 h).2

/-- A subdirectory is an entry and a directory. -/
theorem tryGetSubDirectory_some (h : fs.tryGetSubDirectory d name = .ok (some e)) :
    fs.tryGetEntry d name = .ok (some e) ∧ fs.IsDir e := by
  obtain ⟨r, hr, h⟩ := bind_eq_ok.1 h
  cases r with
  | none => cases h
  | some x =>
    obtain ⟨file, hfile, h⟩ := bind_eq_ok.1 h
    rw [file_eq_ok] at hfile
    have h := Except.ok.inj h
    split at h
    · next hdir =>
      obtain rfl := Option.some.inj h
      exact ⟨hr, file, hfile, hdir⟩
    · cases h

/-- A directory that is read is one. -/
theorem isDir_of_file (h : fs.file f = .ok file) (hdir : file.isDirectory = true) : fs.IsDir f :=
  ⟨file, file_eq_ok.1 h, hdir⟩

/-- The ways of looking up a subdirectory. -/
theorem tryGetSubDirectory_eq_ok {r : Option FileId} : fs.tryGetSubDirectory d c = .ok r ↔
    (fs.tryGetEntry d c = .ok none ∧ r = none) ∨
    (∃ e file, fs.tryGetEntry d c = .ok (some e) ∧ fs.files.get? e = some file ∧
      r = if file.isDirectory then some e else none) := by
  unfold tryGetSubDirectory
  rw [bind_eq_ok]
  constructor
  · rintro ⟨r', hr', h⟩
    cases r' with
    | none => exact .inl ⟨hr', (Except.ok.inj h).symm⟩
    | some e =>
      obtain ⟨file, hfile, h⟩ := bind_eq_ok.1 h
      exact .inr ⟨e, file, hr', file_eq_ok.1 hfile, (Except.ok.inj h).symm⟩
  · rintro (⟨he, rfl⟩ | ⟨e, file, he, hfile, rfl⟩)
    · exact ⟨none, he, rfl⟩
    · exact ⟨some e, he, bind_eq_ok.2 ⟨file, file_eq_ok.2 hfile, rfl⟩⟩

/-- A subdirectory is an entry that is a directory. -/
theorem tryGetSubDirectory_eq_some :
    fs.tryGetSubDirectory d c = .ok (some e) ↔ fs.tryGetEntry d c = .ok (some e) ∧ fs.IsDir e := by
  constructor
  · exact tryGetSubDirectory_some
  · rintro ⟨he, file, hfile, hdir⟩
    exact tryGetSubDirectory_eq_ok.2 (.inr ⟨e, file, he, hfile, by rw [if_pos hdir]⟩)

/-- A link that is found is an entry. -/
theorem tryGetLink_some {link : Str} (h : fs.tryGetLink d c = .ok (some link)) :
    ∃ e file, fs.tryGetEntry d c = .ok (some e) ∧ fs.files.get? e = some file ∧ file.link? = some link := by
  obtain ⟨r, hr, h⟩ := bind_eq_ok.1 h
  cases r with
  | none => cases h
  | some e =>
    obtain ⟨file, hfile, h⟩ := bind_eq_ok.1 h
    exact ⟨e, file, hr, file_eq_ok.1 hfile, Except.ok.inj h⟩

/-- An entry that is a link is found. -/
theorem tryGetLink_of {link : Str} (he : fs.tryGetEntry d c = .ok (some e)) (hfile : fs.files.get? e = some file)
    (hlink : file.link? = some link) : fs.tryGetLink d c = .ok (some link) := by
  unfold tryGetLink
  refine bind_eq_ok.2 ⟨some e, he, bind_eq_ok.2 ⟨file, file_eq_ok.2 hfile, ?_⟩⟩
  rw [hlink]

/-- A component leads to the directory that is its entry, or to the one that its link leads to. -/
theorem enter_eq_some : fs.enter resolve d c = .ok (some e) ↔
    fs.tryGetSubDirectory d c = .ok (some e) ∨
    (fs.tryGetSubDirectory d c = .ok none ∧ ∃ link, fs.tryGetLink d c = .ok (some link) ∧ resolve link = .ok (some e) ∧
      fs.IsDir e) := by
  unfold enter
  rw [bind_eq_ok]
  constructor
  · rintro ⟨r, hr, h⟩
    cases r with
    | some sub =>
      obtain rfl := Option.some.inj (Except.ok.inj h)
      exact .inl hr
    | none =>
      refine .inr ⟨hr, ?_⟩
      obtain ⟨link, hlink, h⟩ := bind_eq_ok.1 h
      cases link with
      | none => cases h
      | some link =>
        obtain ⟨target, htarget, h⟩ := bind_eq_ok.1 h
        cases target with
        | none => cases h
        | some target =>
          obtain ⟨file, hfile, h⟩ := bind_eq_ok.1 h
          have h := Except.ok.inj h
          split at h
          · next hdir =>
            obtain rfl := Option.some.inj h
            exact ⟨link, hlink, htarget, isDir_of_file hfile hdir⟩
          · cases h
  · rintro (hr | ⟨hr, link, hlink, htarget, file, hfile, hdir⟩)
    · exact ⟨some e, hr, rfl⟩
    · refine ⟨none, hr, bind_eq_ok.2 ⟨some link, hlink, bind_eq_ok.2 ⟨some e, htarget, bind_eq_ok.2 ⟨file, file_eq_ok.2 hfile, ?_⟩⟩⟩⟩
      rw [if_pos hdir]

/-! ## Adding and taking -/

/-- The last component of a path. -/
theorem Path.last_eq_ok : path.last = .ok name ↔ path.components.getLast? = some name := by
  unfold Path.last
  split
  · next h => rw [h, Except.ok.injEq, Option.some.injEq]
  · next h => rw [h]; simp

/-- The new directory of a name is called so. -/
theorem last_tryAppend {appended : Path} (hname : Component name) (h : path.tryAppend name = some appended) :
    appended.last = .ok name := Path.last_eq_ok.2 (Path.getLast?_tryAppend hname h)

/-- A new directory is fresh. -/
theorem fresh_directory {cls : DirectoryClass} : (File.new name (.directory cls [])).Fresh := ⟨rfl, rfl, rfl⟩

/-- A directory of the host is added where none was. -/
theorem tryAddHostDirectory_some (hname : Component name) (h : fs.tryAddHostDirectory host d name = .ok (fs', some e)) :
    fs.tryGetEntry d name = .ok none ∧ fs' = (fs.addFile d (.new name (.directory (.host false) []))).1 ∧ e = fs.files.next := by
  obtain ⟨r, hr, h⟩ := bind_eq_ok.1 h
  cases r with
  | some x => cases h
  | none =>
    obtain ⟨path, -, h⟩ := bind_eq_ok.1 h
    split at h
    · cases h
    · next appended happ =>
      split at h
      · rw [last_tryAppend hname happ] at h
        have h := Except.ok.inj h
        rw [Prod.map, Prod.mk.injEq] at h
        exact ⟨hr, h.1.symm, (Option.some.inj h.2).symm⟩
      · cases h

/-- None added, nothing changed. -/
theorem tryAddHostDirectory_none (h : fs.tryAddHostDirectory host d name = .ok (fs', none)) : fs' = fs := by
  obtain ⟨r, hr, h⟩ := bind_eq_ok.1 h
  cases r with
  | some x => exact (ok_pair h).1.symm
  | none =>
    obtain ⟨path, -, h⟩ := bind_eq_ok.1 h
    split at h
    · cases h
    · split at h
      · obtain ⟨last, -, h⟩ := bind_eq_ok.1 h
        cases (ok_pair h).2
      · exact (ok_pair h).1.symm

/-- A shadow directory is added where none was. -/
theorem tryAddShadowDirectory_some (hname : Component name) (h : fs.tryAddShadowDirectory d name = .ok (fs', some e)) :
    fs.tryGetEntry d name = .ok none ∧ fs' = (fs.addFile d (.new name (.directory .shadow []))).1 ∧ e = fs.files.next := by
  obtain ⟨r, hr, h⟩ := bind_eq_ok.1 h
  cases r with
  | some x => cases h
  | none =>
    obtain ⟨path, -, h⟩ := bind_eq_ok.1 h
    split at h
    · cases h
    · next appended happ =>
      rw [last_tryAppend hname happ] at h
      have h := Except.ok.inj h
      rw [Prod.map, Prod.mk.injEq] at h
      exact ⟨hr, h.1.symm, (Option.some.inj h.2).symm⟩

/-- The directory that is added is one. -/
theorem isDir_addFile_next {cls : DirectoryClass} : (fs.addFile d (.new name (.directory cls []))).1.IsDir fs.files.next := by
  have h : (fs.allocFile (.new name (.directory cls []))).IsDir fs.files.next :=
    ⟨_, by rw [get?_allocFile, if_pos rfl], rfl⟩
  exact h.attach

/-- The file that is added has no entries. -/
theorem entries_addFile_next (hd : fs.IsDir d) (hfile : file.entries = []) : (fs.addFile d file).1.entries fs.files.next = [] := by
  rw [entries_addFile hd hfile, if_neg hd.ne_next.symm]
  exact entries_of_none Heap.get?_next

/-- One component of `ensurePathImpl`: it leads to a directory, or that directory is created, or the path leads nowhere. -/
theorem ensureFrom_cons {cs : List Str} (hc : Component c) {r : Option FileId}
    (h : ensureFrom host depth fs d (c :: cs) = .ok (fs', r)) :
    (∃ x, fs.enter (fs.resolveSymlink depth) d c = .ok (some x) ∧ fs.IsDir x ∧ ensureFrom host depth fs x cs = .ok (fs', r)) ∨
    (∃ cls, fs.tryGetEntry d c = .ok none ∧
      ensureFrom host depth (fs.addFile d (.new c (.directory cls []))).1 fs.files.next cs = .ok (fs', r)) ∨
    (r = none ∧ fs' = fs) := by
  have hstop : ∀ {r' : Except FsFailure (FS × Option FileId)}, r' = .ok (fs, none) → r' = .ok (fs', r) → r = none ∧ fs' = fs := by
    rintro r' rfl heq
    obtain ⟨rfl, rfl⟩ := ok_pair heq
    exact ⟨rfl, rfl⟩
  obtain ⟨sub, hsub, h⟩ := bind_eq_ok.1 h
  cases sub with
  | some sub => exact .inl ⟨sub, enter_eq_some.2 (.inl hsub), (tryGetSubDirectory_some hsub).2, h⟩
  | none =>
    obtain ⟨link, hlink, h⟩ := bind_eq_ok.1 h
    cases link with
    | some link =>
      obtain ⟨target, htarget, h⟩ := bind_eq_ok.1 h
      cases target with
      | none => exact .inr (.inr (hstop rfl h))
      | some target =>
        obtain ⟨file, hfile, h⟩ := bind_eq_ok.1 h
        split at h
        · next hdirectory =>
          have hdir := isDir_of_file hfile hdirectory
          exact .inl ⟨target, enter_eq_some.2 (.inr ⟨hsub, link, hlink, htarget, hdir⟩), hdir, h⟩
        · exact .inr (.inr (hstop rfl h))
    | none =>
      obtain ⟨⟨fs1, added⟩, hadded, h⟩ := bind_eq_ok.1 h
      cases added with
      | some sub =>
        obtain ⟨hvacant, rfl, rfl⟩ := tryAddHostDirectory_some hc hadded
        exact .inr (.inl ⟨_, hvacant, h⟩)
      | none =>
        dsimp only at h
        rw [tryAddHostDirectory_none hadded] at h
        obtain ⟨⟨fs2, added⟩, hadded, h⟩ := bind_eq_ok.1 h
        cases added with
        | some sub =>
          obtain ⟨hvacant, rfl, rfl⟩ := tryAddShadowDirectory_some hc hadded
          exact .inr (.inl ⟨_, hvacant, h⟩)
        | none => cases h

/-- `ensurePathImpl` goes on from directory to directory: what holds at the start and is kept by each of its steps holds at its
end, and where it gives up it has still made only such steps. A step leads to a directory that a lookup finds, or it creates the
one that is missing. -/
theorem ensureFrom_induction {I : FS → FileId → Prop} {J : FS → Prop} (hJ : ∀ fs d, I fs d → J fs)
    (hstep : ∀ fs d e, I fs d → fs.IsDir e → I fs e)
    (hadd : ∀ fs d name cls, I fs d → fs.IsDir d → Component name → fs.tryGetEntry d name = .ok none →
      I (fs.addFile d (.new name (.directory cls []))).1 fs.files.next)
    {cs : List Str} (hcs : ∀ c ∈ cs, Component c) (hd : fs.IsDir d) (hI : I fs d) {r : Option FileId}
    (h : ensureFrom host depth fs d cs = .ok (fs', r)) : J fs' ∧ ∀ e, r = some e → I fs' e ∧ fs'.IsDir e := by
  induction cs generalizing fs d with
  | nil =>
    obtain ⟨rfl, rfl⟩ := ok_pair h
    refine ⟨hJ _ _ hI, fun e he => ?_⟩
    obtain rfl := Option.some.inj he
    exact ⟨hI, hd⟩
  | cons c cs ih =>
    have hc := hcs c List.mem_cons_self
    have hcs' : ∀ c ∈ cs, Component c := fun c hc => hcs c (List.mem_cons_of_mem _ hc)
    rcases ensureFrom_cons hc h with ⟨x, -, hx, h⟩ | ⟨cls, hvacant, h⟩ | ⟨rfl, rfl⟩
    · exact ih hcs' hx (hstep _ _ _ hI hx) h
    · exact ih hcs' isDir_addFile_next (hadd _ _ _ _ hI hd hc hvacant) h
    · exact ⟨hJ _ _ hI, fun e he => nomatch he⟩

variable {φ : FS → FileId → Str → Prop} {δ : FS → FileId → Prop}

/-- What is known of an addition is known of every one of a component that a lookup has shown to be vacant. -/
abbrev Allows (φ : FS → FileId → Str → Prop) : Prop := ∀ fs d name, Component name → fs.Vacant d name → φ fs d name

/-- Any change of a directory is allowed. -/
theorem allows_any : Allows fun _ _ _ => True := fun _ _ _ _ _ => trivial

/-- Entries may take vacant names. -/
theorem allows_vacant : Allows Vacant := fun _ _ _ _ hv => hv

/-- Making the directories of a path is made of edits. -/
theorem ensureFrom_edits (hφ : Allows φ) {cs : List Str} (hcs : ∀ c ∈ cs, Component c) (hd : fs.IsDir d) {r : Option FileId}
    (h : ensureFrom host depth fs d cs = .ok (fs', r)) : Edits φ δ fs fs' ∧ ∀ e, r = some e → fs'.IsDir e := by
  have key := ensureFrom_induction (I := fun fs1 _ => Edits φ δ fs fs1) (J := fun fs1 => Edits φ δ fs fs1) (fun _ _ hI => hI)
    (fun _ _ _ hI _ => hI) (fun fs1 d1 name cls hI hd1 hname hvacant => ?_) hcs hd .refl h
  · exact ⟨key.1, fun e he => (key.2 e he).2⟩
  · exact hI.tail (.add d1 _ hd1 fresh_directory (hφ _ _ _ hname (tryGetEntry_none hvacant)))

/-- Making the parent of a path is made of edits. -/
theorem ensurePathExceptLast_edits (hφ : Allows φ) (ht : fs.Tree) {r : Option FileId}
    (h : fs.ensurePathExceptLast host depth path = .ok (fs', r)) : Edits φ δ fs fs' ∧ ∀ e, r = some e → fs'.IsDir e :=
  ensureFrom_edits hφ (fun c hc => path.proper c (List.dropLast_subset _ hc)) ht.rootDir h

/-- An entry that is taken leaves its directory. -/
theorem tryTakeEntry_some (h : fs.tryTakeEntry d name = .ok (fs', some e)) :
    e ∈ fs.entries d ∧ fs.nameOf e = some name ∧
      fs' = fs.modifyFile d fun directory => directory.withEntries (directory.entries.erase e) := by
  obtain ⟨r, hr, h⟩ := bind_eq_ok.1 h
  cases r with
  | none => cases (ok_pair h).2
  | some x =>
    obtain ⟨rfl, hx⟩ := ok_pair h
    obtain rfl := Option.some.inj hx
    obtain ⟨hmem, hname⟩ := tryGetEntry_some hr
    exact ⟨hmem, hname, rfl⟩

/-- None taken, nothing changed. -/
theorem tryTakeEntry_none (h : fs.tryTakeEntry d name = .ok (fs', none)) : fs' = fs := by
  obtain ⟨r, -, h⟩ := bind_eq_ok.1 h
  cases r with
  | none => exact (ok_pair h).1.symm
  | some x => cases (ok_pair h).2

/-- The directory a file is taken from, and the name of the file. -/
theorem tryTakeFile_some (h : fs.tryTakeFile path = .ok (fs', some e)) :
    ∃ d name, fs.walkDirectories fs.root path.components.dropLast = .ok (some d) ∧ path.components.getLast? = some name ∧
      fs.tryTakeEntry d name = .ok (fs', some e) := by
  obtain ⟨r, hr, h⟩ := bind_eq_ok.1 h
  cases r with
  | none => cases (ok_pair h).2
  | some d =>
    obtain ⟨name, hname, h⟩ := bind_eq_ok.1 h
    exact ⟨d, name, hr, Path.last_eq_ok.1 hname, h⟩

/-- None taken, nothing changed. -/
theorem tryTakeFile_none (h : fs.tryTakeFile path = .ok (fs', none)) : fs' = fs := by
  obtain ⟨r, -, h⟩ := bind_eq_ok.1 h
  cases r with
  | none => exact (ok_pair h).1.symm
  | some d =>
    obtain ⟨name, -, h⟩ := bind_eq_ok.1 h
    exact tryTakeEntry_none h

/-- A file that was taken is loose, and it exists. -/
theorem tryTakeFile_loose (ht : fs.Tree) (h : fs.tryTakeFile path = .ok (fs', some e)) :
    Edit φ δ fs fs' ∧ fs'.Loose e ∧ fs'.files.Live e := by
  obtain ⟨d, name, -, -, htake⟩ := tryTakeFile_some h
  obtain ⟨hmem, -, rfl⟩ := tryTakeEntry_some htake
  have hd := isDir_of_mem_entries hmem
  have he := fun q => entries_replace hd (h := fun es => es.erase e) q
  refine ⟨.take d e hd, ⟨fun q hq => ?_, fun ho => ht.orphan e ho d hmem, ?_⟩, live_modifyFile.2 (ht.live d e hmem)⟩
  · rw [he] at hq
    split at hq
    · next hqd =>
      subst hqd
      exact (ht.nodup q).not_mem_erase hq
    · next hqd => exact hqd (ht.owned q d e hq hmem)
  · intro hroot
    exact ht.rootOutside d (hroot ▸ hmem)

/-- The handle of a directory is not part of the tree. -/
theorem similar_handle {cls cls' : DirectoryClass} {entries : List FileId} (h : file.kind = .directory cls entries) :
    file.Similar { file with kind := .directory cls' entries } := by
  refine .of_contents ?_ ?_ ?_ ?_ <;> simp [File.entries, File.isDirectory, File.link?, File.endpoint?, h]

/-- Opening a file is made of edits. -/
theorem openFile_edits (h : fs.openFile host f = .ok fs') : Edits φ δ fs fs' := by
  obtain ⟨file, hfile, h⟩ := bind_eq_ok.1 h
  rw [file_eq_ok] at hfile
  split at h
  · next entries hkind =>
    obtain ⟨path, -, h⟩ := bind_eq_ok.1 h
    obtain ⟨-, -, h⟩ := bind_eq_ok.1 h
    obtain rfl := Except.ok.inj h
    refine .single (.modify f _ fun file' hfile' => ?_)
    obtain rfl := Option.some.inj (hfile.symm.trans hfile')
    exact similar_handle hkind
  · exact Except.ok.inj h ▸ .refl

/-- Opening makes a description and counts up. -/
theorem openNode_eq_ok {accessMode : AccessMode} {statusFlags : StatusFlags} {closeOnExec : Bool} {descriptor : FileDescriptor}
    (h : fs.openNode f accessMode statusFlags closeOnExec = .ok (fs', descriptor)) :
    fs.files.Live f ∧ fs' = (fs.describe f accessMode statusFlags).modifyFile f (fun file => { file with refCount := file.refCount + 1 }) ∧
      descriptor.openFileDescription = fs.descriptions.next := by
  obtain ⟨fs1, h1, h⟩ := bind_eq_ok.1 h
  obtain ⟨file, hfile, h1⟩ := bind_eq_ok.1 h1
  rw [file_eq_ok] at hfile
  obtain ⟨rfl, rfl⟩ := ok_pair h
  exact ⟨⟨file, hfile⟩, (Except.ok.inj h1).symm, rfl⟩

/-- Opening keeps the tree. -/
theorem openNode_sameTree {accessMode : AccessMode} {statusFlags : StatusFlags} {closeOnExec : Bool}
    {descriptor : FileDescriptor} (h : fs.openNode f accessMode statusFlags closeOnExec = .ok (fs', descriptor)) :
    fs.SameTree fs' := by
  obtain ⟨-, rfl, -⟩ := openNode_eq_ok h
  have hdescribe : fs.SameTree (fs.describe f accessMode statusFlags) := .of_files rfl rfl rfl
  exact hdescribe.trans (.count (k := (· + 1)))

/-! ## Opening -/

/-- A file is opened between changes of the tree. -/
inductive Opens (φ : FS → FileId → Str → Prop) (δ : FS → FileId → Prop) : FS → FS → FileDescriptor → Prop where
  | mk {fs fs1 fs2 fs' : FS} {descriptor : FileDescriptor} (f : FileId) (accessMode : AccessMode) (statusFlags : StatusFlags)
      (closeOnExec : Bool) (before : Edits φ δ fs fs1)
      (opened : fs1.openNode f accessMode statusFlags closeOnExec = .ok (fs2, descriptor)) (after : Edits φ δ fs2 fs') :
      Opens φ δ fs fs' descriptor

variable {kind : FileKind} {accessMode : AccessMode} {creationFlags : CreationFlags} {statusFlags : StatusFlags}
  {closeOnExec : Bool} {descriptor : FileDescriptor}

/-- What `FS::open` creates is neither an endpoint of a pipe nor a directory with entries. -/
theorem newFile_fresh (h : newFile host path accessMode creationFlags statusFlags = .ok (some kind)) :
    (File.new name kind).Fresh := by
  have hdevice : ∀ {r : Option FileKind}, shadowDevice host path = .ok r → r = some kind → (File.new name kind).Fresh := by
    intro r hr hkind
    unfold shadowDevice terminal at hr
    split at hr
    · obtain rfl := Option.some.inj ((Except.ok.inj hr).trans hkind)
      exact ⟨rfl, rfl, rfl⟩
    · split at hr
      · split at hr
        · cases hr
        · have hr := (Except.ok.inj hr).trans hkind
          split at hr
          · obtain rfl := Option.some.inj hr
            exact ⟨rfl, rfl, rfl⟩
          · cases hr
      · cases (Except.ok.inj hr).trans hkind
  have hok : ∀ {k : FileKind}, (File.new name k).Fresh →
      (Except.ok (some k) : Except FsFailure (Option FileKind)) = .ok (some kind) → (File.new name kind).Fresh := by
    intro k hk hkind
    obtain rfl := Option.some.inj (Except.ok.inj hkind)
    exact hk
  unfold newFile at h
  split at h
  · split at h
    · exact hok ⟨rfl, rfl, rfl⟩ h
    · split at h
      · cases h
      · split at h
        · exact hok ⟨rfl, rfl, rfl⟩ h
        · split at h
          · exact hok ⟨rfl, rfl, rfl⟩ h
          · cases h
  · split at h
    · split at h
      · exact hok ⟨rfl, rfl, rfl⟩ h
      · exact hdevice h rfl
    · exact hdevice h rfl
    · exact hok ⟨rfl, rfl, rfl⟩ h

/-- The steps of creating a file. -/
theorem create_eq_ok (h : fs.create host depth path kind accessMode statusFlags closeOnExec = .ok (fs', descriptor)) :
    ∃ name fs1 parent fs2, path.components.getLast? = some name ∧
      fs.ensurePathExceptLast host depth path = .ok (fs1, some parent) ∧
      (fs1.addFile parent (.new name kind)).1.openFile host fs1.files.next = .ok fs2 ∧
      fs2.openNode fs1.files.next accessMode statusFlags closeOnExec = .ok (fs', descriptor) := by
  obtain ⟨name, hname, h⟩ := bind_eq_ok.1 h
  obtain ⟨⟨fs1, parent⟩, hensure, h⟩ := bind_eq_ok.1 h
  cases parent with
  | none => cases h
  | some parent =>
    obtain ⟨fs2, hopen, h⟩ := bind_eq_ok.1 h
    exact ⟨name, fs1, parent, fs2, Path.last_eq_ok.1 hname, hensure, hopen, h⟩

/-- The place where an operation on a path adds an entry is one of which `φ` holds. -/
def Admits (φ : FS → FileId → Str → Prop) (fs : FS) (host : HostFiles) (depth : Nat) (path : Path) : Prop :=
  ∀ fs1 parent name, path.components.getLast? = some name →
    fs.ensurePathExceptLast host depth path = .ok (fs1, some parent) → φ fs1 parent name

/-- Creating a file opens it. -/
theorem create_opens (hφ : Allows φ) (ht : fs.Tree) (hadmits : Admits φ fs host depth path)
    (hkind : ∀ name, (File.new name kind).Fresh)
    (h : fs.create host depth path kind accessMode statusFlags closeOnExec = .ok (fs', descriptor)) :
    Opens φ δ fs fs' descriptor := by
  obtain ⟨name, fs1, parent, fs2, hname, hensure, hopen, hnode⟩ := create_eq_ok h
  obtain ⟨hedits, hdir⟩ := ensurePathExceptLast_edits hφ ht hensure
  have hadd : Edits φ δ fs (fs1.addFile parent (.new name kind)).1 :=
    hedits.tail (.add parent _ (hdir parent rfl) (hkind name) (hadmits fs1 parent name hname hensure))
  exact .mk _ _ _ _ (hadd.trans (openFile_edits hopen)) hnode .refl

/-- `FS::open` opens a file that the tree has, or creates one, or fails and changes nothing. -/
theorem openPath_cases {result : ErrnoOr FileDescriptor}
    (h : fs.openPath host depth path accessMode creationFlags statusFlags = .ok (fs', result)) :
    (∃ f fs1 descriptor, fs.tryGetFile depth path .YES = .ok (some f) ∧ result = .ok descriptor ∧
      fs.openNode f accessMode { statusFlags with largefile := true } creationFlags.cloexec = .ok (fs1, descriptor) ∧
      fs1.openFile host f = .ok fs') ∨
    (∃ kind descriptor, fs.tryGetFile depth path .YES = .ok none ∧ result = .ok descriptor ∧
      newFile host path accessMode creationFlags { statusFlags with largefile := true } = .ok (some kind) ∧
      fs.create host depth path kind accessMode { statusFlags with largefile := true } creationFlags.cloexec =
        .ok (fs', descriptor)) ∨
    (fs.tryGetFile depth path .YES = .ok none ∧ result = .error (-ENOENT) ∧
      newFile host path accessMode creationFlags { statusFlags with largefile := true } = .ok none ∧ fs' = fs) := by
  obtain ⟨r, hr, h⟩ := bind_eq_ok.1 h
  cases r with
  | some f =>
    obtain ⟨⟨fs1, descriptor⟩, hnode, h⟩ := bind_eq_ok.1 h
    obtain ⟨fs2, hopen, h⟩ := bind_eq_ok.1 h
    obtain ⟨rfl, rfl⟩ := ok_pair h
    exact .inl ⟨f, fs1, descriptor, hr, rfl, hnode, hopen⟩
  | none =>
    obtain ⟨k, hk, h⟩ := bind_eq_ok.1 h
    cases k with
    | none =>
      obtain ⟨rfl, rfl⟩ := ok_pair h
      exact .inr (.inr ⟨hr, rfl, hk, rfl⟩)
    | some kind =>
      obtain ⟨⟨fs1, descriptor⟩, hcreate, h⟩ := bind_eq_ok.1 h
      obtain ⟨rfl, rfl⟩ := ok_pair h
      exact .inr (.inl ⟨kind, descriptor, hr, rfl, hk, hcreate⟩)

/-- The descriptor that an operation gives, and how the file system got there. -/
def Gives (φ : FS → FileId → Str → Prop) (δ : FS → FileId → Prop) (fs fs' : FS) : ErrnoOr FileDescriptor → Prop
  | .ok descriptor => Opens φ δ fs fs' descriptor
  | .error _ => fs' = fs

/-- `open` gives a descriptor or an error. -/
theorem openPath_gives (hφ : Allows φ) (ht : fs.Tree) {result : ErrnoOr FileDescriptor}
    (hadmits : ∀ kind, fs.tryGetFile depth path .YES = .ok none →
      newFile host path accessMode creationFlags { statusFlags with largefile := true } = .ok (some kind) →
      Admits φ fs host depth path)
    (h : fs.openPath host depth path accessMode creationFlags statusFlags = .ok (fs', result)) : Gives φ δ fs fs' result := by
  rcases openPath_cases h with ⟨f, fs1, descriptor, -, rfl, hnode, hopen⟩ | ⟨kind, descriptor, hnone, rfl, hnew, hcreate⟩ |
    ⟨-, rfl, -, rfl⟩
  · exact .mk _ _ _ _ .refl hnode (openFile_edits hopen)
  · exact create_opens hφ ht (hadmits kind hnone hnew) (fun _ => newFile_fresh hnew) hcreate
  · rfl

/-! ## The other changes of the tree -/

/-- `mkdir` is made of edits. -/
theorem mkdir_edits (hφ : Allows φ) (ht : fs.Tree) {n : Int} (h : fs.mkdir host depth path = .ok (fs', n)) :
    Edits φ δ fs fs' := by
  obtain ⟨⟨fs1, r⟩, hensure, h⟩ := bind_eq_ok.1 h
  obtain ⟨rfl, -⟩ := ok_pair h
  exact (ensureFrom_edits hφ path.proper ht.rootDir hensure).1

/-- A loose file stays loose while directories are created. -/
theorem ensurePathExceptLast_loose (ht : fs.Tree) (hloose : fs.Loose f) (hlive : fs.files.Live f) {r : Option FileId}
    (h : fs.ensurePathExceptLast host depth path = .ok (fs', r)) : fs'.Loose f ∧ fs'.files.Live f := by
  have key := ensureFrom_induction (I := fun fs1 _ => fs1.Loose f ∧ fs1.files.Live f) (J := fun fs1 => fs1.Loose f ∧ fs1.files.Live f)
    (fun _ _ hI => hI) (fun _ _ _ hI _ => hI) (fun fs1 d1 name cls hI hd1 _ _ => ?_)
    (fun c hc => path.proper c (List.dropLast_subset _ hc)) ht.rootDir ⟨hloose, hlive⟩ h
  · exact key.1
  · obtain ⟨hloose, hlive⟩ := hI
    refine ⟨⟨fun q hq => ?_, hloose.orphan, hloose.root⟩, live_addFile.2 (.inr hlive)⟩
    rw [entries_addFile hd1 rfl] at hq
    split at hq
    · rcases List.mem_append.1 hq with hq | hq
      · exact hloose.outside q hq
      · exact absurd (List.mem_singleton.1 hq) (Nat.ne_of_lt hlive.lt_next)
    · exact hloose.outside q hq

/-- `FS::rename` finds no file, or takes it, makes the directories of the new path and adds it there. -/
theorem rename_cases {oldpath newpath : Path} {n : Int} (h : fs.rename host depth oldpath newpath = .ok (fs', n)) :
    (fs.tryTakeFile oldpath = .ok (fs', none) ∧ n = -ENOENT ∧ fs' = fs) ∨
    (∃ fs1 f fs2 newdir name, fs.tryTakeFile oldpath = .ok (fs1, some f) ∧ newpath.components.getLast? = some name ∧
      fs1.ensurePathExceptLast host depth newpath = .ok (fs2, some newdir) ∧ n = 0 ∧
      fs' = (fs2.renameFile f newdir name).attach newdir f) := by
  obtain ⟨⟨fs1, r⟩, htake, h⟩ := bind_eq_ok.1 h
  cases r with
  | none =>
    obtain ⟨rfl, rfl⟩ := ok_pair h
    exact .inl ⟨htake, rfl, tryTakeFile_none htake⟩
  | some f =>
    obtain ⟨⟨fs2, newdir⟩, hensure, h⟩ := bind_eq_ok.1 h
    cases newdir with
    | none => cases h
    | some newdir =>
      obtain ⟨name, hname, h⟩ := bind_eq_ok.1 h
      obtain ⟨rfl, rfl⟩ := ok_pair h
      exact .inr ⟨fs1, f, fs2, newdir, name, htake, Path.last_eq_ok.1 hname, hensure, rfl, rfl⟩

/-- `rename` is made of edits. -/
theorem rename_edits (hφ : Allows φ) (ht : fs.Tree) {oldpath newpath : Path} {n : Int}
    (hadmits : ∀ fs1 f, fs.tryTakeFile oldpath = .ok (fs1, some f) → Admits φ fs1 host depth newpath)
    (h : fs.rename host depth oldpath newpath = .ok (fs', n)) : Edits φ δ fs fs' := by
  rcases rename_cases h with ⟨-, -, rfl⟩ | ⟨fs1, f, fs2, newdir, name, htake, hname, hensure, -, rfl⟩
  · exact .refl
  · obtain ⟨hedit, hloose, hlive⟩ := tryTakeFile_loose ht htake
    have ht1 := ht.edit hedit
    obtain ⟨hedits, hdir⟩ := ensurePathExceptLast_edits hφ ht1 hensure
    obtain ⟨hloose2, hlive2⟩ := ensurePathExceptLast_loose ht1 hloose hlive hensure
    exact (hedits.tail (.attach newdir f name (hdir newdir rfl) hlive2 hloose2 (hadmits fs1 f htake _ _ _ hname hensure))).head hedit

/-- `FS::unlink` finds no file, or marks one that is open, or destroys what it takes from the tree. -/
theorem unlink_cases {n : Int} (h : fs.unlink depth path = .ok (fs', n)) :
    (fs.tryGetFile depth path .YES = .ok none ∧ n = -ENOENT ∧ fs' = fs) ∨
    (∃ f file, fs.tryGetFile depth path .YES = .ok (some f) ∧ fs.files.get? f = some file ∧ n = 0 ∧
      ((file.refCount > 0 ∧ fs' = fs.modifyFile f fun file => { file with deleteAfterClose := true }) ∨
      (file.refCount = 0 ∧ fs' = fs) ∨
      (file.refCount = 0 ∧ ∃ fs1 taken, fs.tryTakeFile path = .ok (fs1, some taken) ∧ fs' = fs1.destroy taken))) := by
  obtain ⟨r, hr, h⟩ := bind_eq_ok.1 h
  cases r with
  | none =>
    obtain ⟨rfl, rfl⟩ := ok_pair h
    exact .inl ⟨hr, rfl, rfl⟩
  | some f =>
    obtain ⟨file, hfile, h⟩ := bind_eq_ok.1 h
    rw [file_eq_ok] at hfile
    split at h
    · next hcount =>
      obtain ⟨rfl, rfl⟩ := ok_pair h
      exact .inr ⟨f, file, hr, hfile, rfl, .inl ⟨hcount, rfl⟩⟩
    · next hcount =>
      have hzero : file.refCount = 0 := by omega
      obtain ⟨⟨fs1, taken⟩, htake, h⟩ := bind_eq_ok.1 h
      cases taken with
      | none =>
        obtain ⟨rfl, rfl⟩ := ok_pair h
        exact .inr ⟨f, file, hr, hfile, rfl, .inr (.inl ⟨hzero, tryTakeFile_none htake⟩)⟩
      | some taken =>
        obtain ⟨rfl, rfl⟩ := ok_pair h
        exact .inr ⟨f, file, hr, hfile, rfl, .inr (.inr ⟨hzero, fs1, taken, htake, rfl⟩)⟩

/-- `unlink` is made of edits. -/
theorem unlink_edits (ht : fs.Tree) {n : Int} (hδ : ∀ f file, fs.tryGetFile depth path .YES = .ok (some f) →
    fs.files.get? f = some file → file.refCount = 0 → ∀ fs1 taken, fs.tryTakeFile path = .ok (fs1, some taken) → δ fs1 taken)
    (h : fs.unlink depth path = .ok (fs', n)) : Edits φ δ fs fs' := by
  rcases unlink_cases h with ⟨-, -, rfl⟩ | ⟨f, file, hf, hfile, -, ⟨-, rfl⟩ | ⟨-, rfl⟩ | ⟨hzero, fs1, taken, htake, rfl⟩⟩
  · exact .refl
  · exact .single (.modify f _ fun file _ => ⟨.of_kind rfl rfl rfl, rfl⟩)
  · exact .refl
  · obtain ⟨hedit, hloose, -⟩ := tryTakeFile_loose ht htake
    exact .head hedit (.single (.destroy taken hloose (hδ f file hf hfile hzero fs1 taken htake)))

/-- A link is added below the directories of its path. -/
theorem added_edits (hφ : Allows φ) (ht : fs.Tree) (hadmits : Admits φ fs host depth path) {fs1 : FS} {parent : FileId} {link : Str}
    (hname : path.components.getLast? = some name) (hensure : fs.ensurePathExceptLast host depth path = .ok (fs1, some parent)) :
    Edits φ δ fs (fs1.addFile parent (.new name (.symlink link))).1 := by
  obtain ⟨hedits, hdir⟩ := ensurePathExceptLast_edits hφ ht hensure
  exact hedits.tail (.add parent _ (hdir parent rfl) ⟨rfl, rfl, rfl⟩ (hadmits fs1 parent name hname hensure))

/-- `readlink` is made of edits. -/
theorem readlink_edits (hφ : Allows φ) (ht : fs.Tree) {bufferSize : Nat} {result : ErrnoOr Str}
    (hadmits : fs.tryGetFile depth path .NO = .ok none → Admits φ fs host depth path)
    (h : fs.readlink host depth path bufferSize = .ok (fs', result)) : Edits φ δ fs fs' := by
  obtain ⟨r, hr, h⟩ := bind_eq_ok.1 h
  cases r with
  | some f =>
    obtain ⟨file, -, h⟩ := bind_eq_ok.1 h
    split at h
    · obtain ⟨rfl, -⟩ := ok_pair h
      exact .refl
    · obtain ⟨rfl, -⟩ := ok_pair h
      exact .refl
  | none =>
    dsimp only at h
    split at h
    · obtain ⟨rfl, -⟩ := ok_pair h
      exact .refl
    · obtain ⟨name, hname, h⟩ := bind_eq_ok.1 h
      obtain ⟨⟨fs1, parent⟩, hensure, h⟩ := bind_eq_ok.1 h
      cases parent with
      | none => cases h
      | some parent =>
        obtain ⟨rfl, -⟩ := ok_pair h
        exact added_edits hφ ht (hadmits hr) (Path.last_eq_ok.1 hname) hensure

/-- Adding a link is made of edits. -/
theorem addLink_edits (hφ : Allows φ) (ht : fs.Tree) {link : Str} (hadmits : Admits φ fs host depth path)
    (h : fs.addLink host depth path link = .ok fs') : Edits φ δ fs fs' := by
  obtain ⟨name, hname, h⟩ := bind_eq_ok.1 h
  obtain ⟨⟨fs1, parent⟩, hensure, h⟩ := bind_eq_ok.1 h
  cases parent with
  | none => cases h
  | some parent => exact Except.ok.inj h ▸ added_edits hφ ht hadmits (Path.last_eq_ok.1 hname) hensure

/-- The steps of `resetProcFS`. -/
theorem resetProcFS_eq_ok {pid : Nat} {program : Path} (h : fs.resetProcFS host depth pid program = .ok fs') :
    ∃ fs1 fs2 piddir, (fs.addFile fs.root (.new PROC (.directory .proc []))).1.tryAddShadowDirectory fs.files.next (pidName pid) =
        .ok (fs1, some piddir) ∧
      fs1.addLink host depth procSelf (procPid pid).absolute = .ok fs2 ∧
      fs2.addLink host depth (procExe pid) program.absolute = .ok fs' := by
  obtain ⟨⟨fs1, piddir⟩, hadd, h⟩ := bind_eq_ok.1 h
  cases piddir with
  | none => cases h
  | some piddir =>
    obtain ⟨fs2, hself, h⟩ := bind_eq_ok.1 h
    exact ⟨fs1, fs2, piddir, hadd, hself, h⟩

/-- The additions of `resetProcFS` are ones of which `φ` holds. -/
structure AdmitsProc (φ : FS → FileId → Str → Prop) (fs : FS) (host : HostFiles) (depth pid : Nat) : Prop where
  root : φ fs fs.root PROC
  self : ∀ fs1 piddir, (fs.addFile fs.root (.new PROC (.directory .proc []))).1.tryAddShadowDirectory fs.files.next
    (pidName pid) = .ok (fs1, some piddir) → Admits φ fs1 host depth procSelf
  exe : ∀ fs1 fs2 piddir, (fs.addFile fs.root (.new PROC (.directory .proc []))).1.tryAddShadowDirectory fs.files.next
    (pidName pid) = .ok (fs1, some piddir) → fs1.addLink host depth procSelf (procPid pid).absolute = .ok fs2 →
    Admits φ fs2 host depth (procExe pid)

/-- The links of a process are made of edits. -/
theorem resetProcFS_edits (hφ : Allows φ) (ht : fs.Tree) {pid : Nat} {program : Path} (hadmits : AdmitsProc φ fs host depth pid)
    (h : fs.resetProcFS host depth pid program = .ok fs') : Edits φ δ fs fs' := by
  obtain ⟨fs1, fs2, piddir, hadd, h1, h2⟩ := resetProcFS_eq_ok h
  have hself := hadmits.self _ _ hadd
  have hexe := hadmits.exe _ _ _ hadd h1
  have hproc : Edits φ δ fs (fs.addFile fs.root (.new PROC (.directory .proc []))).1 :=
    .single (.add _ _ ht.rootDir fresh_directory hadmits.root)
  obtain ⟨hvacant, rfl, -⟩ := tryAddShadowDirectory_some (component_pidName pid) hadd
  have hpid : Edits φ δ fs ((fs.addFile fs.root (.new PROC (.directory .proc []))).1.addFile fs.files.next
      (.new (pidName pid) (.directory .shadow []))).1 :=
    hproc.tail (.add _ _ isDir_addFile_next fresh_directory (hφ _ _ _ (component_pidName pid) (tryGetEntry_none hvacant)))
  have hlink := hpid.trans (addLink_edits hφ (ht.edits hpid) hself h1)
  exact hlink.trans (addLink_edits hφ (ht.edits hlink) hexe h2)

/-! ## Closing -/

/-- Counting down needs a count. -/
theorem unref_eq_ok (h : fs.unref f = .ok fs') : ∃ file, fs.files.get? f = some file ∧ file.refCount ≠ 0 ∧
    fs' = fs.modifyFile f fun file => { file with refCount := file.refCount - 1 } := by
  obtain ⟨file, hfile, h⟩ := bind_eq_ok.1 h
  obtain ⟨_, hcount, h⟩ := bind_eq_ok.1 h
  exact ⟨file, file_eq_ok.1 hfile, check_eq_ok.1 hcount, (Except.ok.inj h).symm⟩

/-- Counting up needs a file. -/
theorem ref_eq_ok : fs.ref f = .ok fs' ↔
    fs.files.Live f ∧ fs' = fs.modifyFile f fun file => { file with refCount := file.refCount + 1 } := by
  unfold ref
  rw [bind_eq_ok]
  constructor
  · rintro ⟨file, hfile, h⟩
    exact ⟨⟨file, file_eq_ok.1 hfile⟩, (Except.ok.inj h).symm⟩
  · rintro ⟨⟨file, hfile⟩, rfl⟩
    exact ⟨file, file_eq_ok.2 hfile, rfl⟩

/-- Closing a file changes its handle at most, or the pipe of an endpoint. -/
theorem closeFile_cases (h : fs.closeFile f = .ok fs') :
    ∃ file, fs.files.get? f = some file ∧
      ((file.endpoint? = none ∧ (fs' = fs ∨ ∃ cls cls' entries, file.kind = .directory cls entries ∧
        fs' = fs.modifyFile f fun file => { file with kind := .directory cls' entries })) ∨
      (∃ p side, file.endpoint? = some (p, side) ∧ fs.pipes.Live p ∧
        fs' = (fs.modifyPipe p (closedEndpoint f)).removeClosedPipes)) := by
  obtain ⟨file, hfile, h⟩ := bind_eq_ok.1 h
  rw [file_eq_ok] at hfile
  refine ⟨file, hfile, ?_⟩
  split at h
  · next opened entries hkind =>
    obtain ⟨-, -, h⟩ := bind_eq_ok.1 h
    obtain rfl := Except.ok.inj h
    exact .inl ⟨by simp [File.endpoint?, hkind], .inr ⟨_, _, entries, hkind, rfl⟩⟩
  · next p side hkind =>
    obtain ⟨pipe, hpipe, h⟩ := bind_eq_ok.1 h
    refine .inr ⟨p, side, by simp [File.endpoint?, hkind], ?_, (Except.ok.inj h).symm⟩
    unfold FS.pipe at hpipe
    split at hpipe
    · next hp => exact ⟨_, hp⟩
    · cases hpipe
  · cases h
  · next hpipe _ =>
    refine .inl ⟨?_, .inl (Except.ok.inj h).symm⟩
    unfold File.endpoint?
    split
    · next p side hkind => exact absurd hkind (hpipe p side)
    · rfl

/-- After the last close the file is kept, or it is unlinked and dropped. -/
theorem lastClose_cases (h : fs.lastClose depth f = .ok fs') :
    ∃ fs1 file, fs.closeFile f = .ok fs1 ∧ fs1.files.get? f = some file ∧
      (((!file.keepAfterClose || file.deleteAfterClose) = false ∧ fs' = fs1) ∨
      ((!file.keepAfterClose || file.deleteAfterClose) = true ∧ ∃ path fs2 n, fs1.path f = .ok path ∧
        fs1.unlink depth path = .ok (fs2, n) ∧ fs' = fs2.removeFromOrphans f)) := by
  obtain ⟨fs1, hclose, h⟩ := bind_eq_ok.1 h
  obtain ⟨file, hfile, h⟩ := bind_eq_ok.1 h
  rw [file_eq_ok] at hfile
  split at h
  · next hdrop =>
    obtain ⟨path, hpath, h⟩ := bind_eq_ok.1 h
    obtain ⟨⟨fs2, n⟩, hunlink, h⟩ := bind_eq_ok.1 h
    exact ⟨fs1, file, hclose, hfile, .inr ⟨hdrop, path, fs2, n, hpath, hunlink, (Except.ok.inj h).symm⟩⟩
  · next hkeep => exact ⟨fs1, file, hclose, hfile, .inl ⟨by simpa using hkeep, (Except.ok.inj h).symm⟩⟩

/-- `FS::close` counts one descriptor less, and the last one closes the file. -/
theorem close_cases (h : fs.close depth descriptor = .ok fs') :
    ∃ ofd fs1 file, fs.descriptions.get? descriptor.openFileDescription = some ofd ∧ fs.unref ofd.file = .ok fs1 ∧
      fs1.files.get? ofd.file = some file ∧
      ((file.refCount = 0 ∧ fs1.lastClose depth ofd.file = .ok fs') ∨ (file.refCount ≠ 0 ∧ fs' = fs1)) := by
  obtain ⟨ofd, hofd, h⟩ := bind_eq_ok.1 h
  obtain ⟨fs1, hunref, h⟩ := bind_eq_ok.1 h
  obtain ⟨file, hfile, h⟩ := bind_eq_ok.1 h
  have hofd : fs.descriptions.get? descriptor.openFileDescription = some ofd := by
    unfold description at hofd
    split at hofd
    · next hd => rw [hd, Except.ok.inj hofd]
    · cases hofd
  split at h
  · next hzero => exact ⟨ofd, fs1, file, hofd, hunref, file_eq_ok.1 hfile, .inl ⟨hzero, h⟩⟩
  · next hcount => exact ⟨ofd, fs1, file, hofd, hunref, file_eq_ok.1 hfile, .inr ⟨hcount, (Except.ok.inj h).symm⟩⟩

end FS

end X64Emulator
