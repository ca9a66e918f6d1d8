import Mathlib.Logic.Relation
import X64Emulator.Descriptors

/-!
# The entries of the directories

Every operation on files changes the tree in elementary steps: a file gets other contents, a file is created in a directory, an
entry is taken out, a taken file is added elsewhere, or files are destroyed. `Edit` lists these steps, and `Tree` is what they
keep: entries are files that exist, and each of them is owned by one directory.
-/

namespace X64Emulator

open Outcome

namespace File

/-- The pipe of an endpoint, and its side. -/
def endpoint? (f : File) : Option (PipeId × PipeSide) :=
  match f.kind with
  | .pipeEndpoint p side => some (p, side)
  | _ => none

/-- Two states of a file that the tree and the pipes do not tell apart. -/
structure SameNode (file file' : File) : Prop where
  name : file'.name = file.name
  parent : file'.parent = file.parent
  entries : file'.entries = file.entries
  isDirectory : file'.isDirectory = file.isDirectory
  link : file'.link? = file.link?
  endpoint : file'.endpoint? = file.endpoint?

/-- Two states of a file that the counts do not tell apart either. -/
structure Similar (file file' : File) : Prop extends file.SameNode file' where
  refCount : file'.refCount = file.refCount

theorem SameNode.refl (file : File) : file.SameNode file := ⟨rfl, rfl, rfl, rfl, rfl, rfl⟩

theorem SameNode.symm {file file' : File} (h : file.SameNode file') : file'.SameNode file :=
  ⟨h.name.symm, h.parent.symm, h.entries.symm, h.isDirectory.symm, h.link.symm, h.endpoint.symm⟩

theorem SameNode.trans {file file' file'' : File} (h : file.SameNode file') (h' : file'.SameNode file'') :
    file.SameNode file'' :=
  ⟨h'.name.trans h.name, h'.parent.trans h.parent, h'.entries.trans h.entries, h'.isDirectory.trans h.isDirectory,
    h'.link.trans h.link, h'.endpoint.trans h.endpoint⟩

/-- A file of the same kind, name and parent is the same node. -/
theorem SameNode.of_kind {file file' : File} (hn : file'.name = file.name) (hp : file'.parent = file.parent)
    (hk : file'.kind = file.kind) : file.SameNode file' := by
  refine ⟨hn, hp, ?_, ?_, ?_, ?_⟩
  · simp only [File.entries, hk]
  · simp only [File.isDirectory, hk]
  · simp only [File.link?, hk]
  · simp only [File.endpoint?, hk]

/-- The kinds that only the contents of a file tell apart. -/
theorem Similar.of_contents {file : File} {kind : FileKind} (he : { file with kind := kind }.entries = file.entries)
    (hd : { file with kind := kind }.isDirectory = file.isDirectory) (hl : { file with kind := kind }.link? = file.link?)
    (hp : { file with kind := kind }.endpoint? = file.endpoint?) : file.Similar { file with kind := kind } :=
  ⟨⟨rfl, rfl, he, hd, hl, hp⟩, rfl⟩

/-- A file that was just created in a directory. -/
structure Fresh (file : File) : Prop where
  refCount : file.refCount = 0
  entries : file.entries = []
  endpoint : file.endpoint? = none

variable {file : File} {es : List FileId}

/-- Other entries leave the count alone. -/
@[simp] theorem refCount_withEntries : (file.withEntries es).refCount = file.refCount := by
  unfold withEntries
  split <;> rfl

/-- Other entries leave the name alone. -/
@[simp] theorem name_withEntries : (file.withEntries es).name = file.name := by
  unfold withEntries
  split <;> rfl

/-- Other entries leave a directory one. -/
@[simp] theorem isDirectory_withEntries : (file.withEntries es).isDirectory = file.isDirectory := by
  unfold withEntries
  split
  · next h => simp [isDirectory, h]
  · rfl

/-- Other entries make no link. -/
@[simp] theorem link?_withEntries : (file.withEntries es).link? = file.link? := by
  unfold withEntries
  split
  · next h => simp [link?, h]
  · rfl

/-- Other entries make no endpoint. -/
@[simp] theorem endpoint?_withEntries : (file.withEntries es).endpoint? = file.endpoint? := by
  unfold withEntries
  split
  · next h => simp [endpoint?, h]
  · rfl

/-- A directory has the entries it is given. -/
theorem entries_withEntries (h : file.isDirectory = true) : (file.withEntries es).entries = es := by
  unfold withEntries
  unfold isDirectory at h
  split at h
  · simp [entries]
  · cases h

/-- Only a directory has entries. -/
theorem entries_of_not (h : file.isDirectory = false) : file.entries = [] := by
  unfold entries
  split
  · next hk => simp [isDirectory, hk] at h
  · rfl

end File

namespace FS

variable {fs fs' : FS} {f d e : FileId} {name : Str} {file : File}

/-- A file is found where it exists. -/
theorem file_eq_ok : fs.file f = .ok file ↔ fs.files.get? f = some file := by
  unfold FS.file
  split
  · next h => rw [h, Except.ok.injEq, Option.some.injEq]
  · next h => rw [h]; simp

/-- The entries of a file that exists. -/
theorem entries_eq (h : fs.files.get? d = some file) : fs.entries d = file.entries := by simp [entries, h]

/-- A file that does not exist has no entries. -/
theorem entries_of_none (h : fs.files.get? d = none) : fs.entries d = [] := by simp [entries, h]

/-- The pointer points to a directory. -/
def IsDir (fs : FS) (d : FileId) : Prop := ∃ directory, fs.files.get? d = some directory ∧ directory.isDirectory = true

/-- No directory owns the file. -/
def Outside (fs : FS) (f : FileId) : Prop := ∀ d, f ∉ fs.entries d

/-- The file is out of the tree and is not kept anywhere else. -/
structure Loose (fs : FS) (f : FileId) : Prop where
  outside : fs.Outside f
  orphan : f ∉ fs.orphanFiles
  root : f ≠ fs.root

/-- The name of a file that exists. -/
def nameOf (fs : FS) (f : FileId) : Option Str := (fs.files.get? f).map File.name

/-- No entry of the directory has the name. -/
def Vacant (fs : FS) (d : FileId) (name : Str) : Prop := ∀ e ∈ fs.entries d, fs.nameOf e ≠ some name

/-- Only a directory has entries. -/
theorem isDir_of_mem_entries (h : e ∈ fs.entries d) : fs.IsDir d := by
  cases hd : fs.files.get? d with
  | none =>
    rw [entries_of_none hd] at h
    cases h
  | some directory =>
    rw [entries_eq hd] at h
    refine ⟨directory, hd, ?_⟩
    cases hdir : directory.isDirectory with
    | true => rfl
    | false =>
      rw [File.entries_of_not hdir] at h
      cases h

/-- A directory exists. -/
theorem IsDir.live (h : fs.IsDir d) : fs.files.Live d := by
  obtain ⟨directory, hd, -⟩ := h
  exact ⟨directory, hd⟩

/-! ## What the elementary steps do to the files -/

variable {g : File → File} {q : FileId}

/-- A change of a file is seen at that file. -/
theorem get?_modifyFile (q : FileId) :
    (fs.modifyFile f g).files.get? q = if q = f then (fs.files.get? q).map g else fs.files.get? q := by
  split
  · next h => rw [h]; exact Heap.get?_modify_self
  · next h => exact Heap.get?_modify_of_ne h

@[simp] theorem next_modifyFile : (fs.modifyFile f g).files.next = fs.files.next := Heap.next_modify

@[simp] theorem orphanFiles_modifyFile : (fs.modifyFile f g).orphanFiles = fs.orphanFiles := rfl

/-- A change that keeps the entries of its file keeps all entries. -/
theorem entries_modifyFile (hg : ∀ file, fs.files.get? f = some file → (g file).entries = file.entries)
    (q : FileId) : (fs.modifyFile f g).entries q = fs.entries q := by
  unfold entries
  rw [get?_modifyFile]
  split
  · next hq =>
    subst hq
    cases hf : fs.files.get? q with
    | none => rfl
    | some file => exact hg file hf
  · rfl

/-- A change of a file makes and destroys none. -/
theorem live_modifyFile : (fs.modifyFile f g).files.Live q ↔ fs.files.Live q := by
  unfold Heap.Live
  rw [get?_modifyFile]
  split
  · cases fs.files.get? q <;> simp
  · rfl

/-- The entries after those of one directory are replaced. -/
theorem entries_replace (hd : fs.IsDir d) {h : List FileId → List FileId} (q : FileId) :
    (fs.modifyFile d fun directory => directory.withEntries (h directory.entries)).entries q =
      if q = d then h (fs.entries q) else fs.entries q := by
  obtain ⟨directory, hdir, hdirectory⟩ := hd
  unfold entries
  rw [get?_modifyFile]
  split
  · next hq =>
    subst hq
    simp [hdir, File.entries_withEntries hdirectory]
  · rfl

/-- An attached file is the last entry. -/
theorem entries_attach (hd : fs.IsDir d) (q : FileId) :
    (fs.attach d f).entries q = if q = d then fs.entries q ++ [f] else fs.entries q := by
  unfold attach
  rw [entries_modifyFile, entries_replace hd (h := fun es => es ++ [f])]
  exact fun _ _ => rfl

/-- Attaching makes and destroys no file. -/
theorem live_attach : (fs.attach d f).files.Live q ↔ fs.files.Live q := by
  unfold attach
  rw [live_modifyFile, live_modifyFile]

/-- The file system with one more file, which nothing refers to. -/
def allocFile (fs : FS) (file : File) : FS := { fs with files := fs.files.alloc file }

/-- The new file stands at the next pointer. -/
theorem get?_allocFile (q : FileId) :
    (fs.allocFile file).files.get? q = if q = fs.files.next then some file else fs.files.get? q := by
  split
  · next h => rw [h]; exact Heap.get?_alloc_next
  · next h => exact Heap.get?_alloc_of_ne h

/-- A new file without entries brings none. -/
theorem entries_allocFile (hfile : file.entries = []) (q : FileId) : (fs.allocFile file).entries q = fs.entries q := by
  unfold entries
  rw [get?_allocFile]
  split
  · next h =>
    subst h
    simp [hfile, Heap.get?_next]
  · rfl

/-- The new file exists, with those that did. -/
theorem live_allocFile : (fs.allocFile file).files.Live q ↔ q = fs.files.next ∨ fs.files.Live q := by
  unfold Heap.Live
  rw [get?_allocFile]
  split
  · next h => simp [h]
  · next h => simp [h]

/-- A directory is not the next file. -/
theorem IsDir.ne_next (h : fs.IsDir d) : d ≠ fs.files.next := Nat.ne_of_lt h.live.lt_next

/-- A directory stays one beside a new file. -/
theorem IsDir.allocFile (h : fs.IsDir d) : (fs.allocFile file).IsDir d := by
  obtain ⟨directory, hdir, hdirectory⟩ := h
  have hne : d ≠ fs.files.next := IsDir.ne_next ⟨directory, hdir, hdirectory⟩
  exact ⟨directory, by rw [get?_allocFile, if_neg hne, hdir], hdirectory⟩

/-- A file is added by making and attaching it. -/
theorem addFile_eq : fs.addFile d file = ((fs.allocFile file).attach d fs.files.next, fs.files.next) := rfl

/-- An added file is the last entry. -/
theorem entries_addFile (hd : fs.IsDir d) (hfile : file.entries = []) (q : FileId) :
    (fs.addFile d file).1.entries q = if q = d then fs.entries q ++ [fs.files.next] else fs.entries q := by
  rw [addFile_eq, entries_attach hd.allocFile, entries_allocFile hfile]

/-- The added file exists, with those that did. -/
theorem live_addFile : (fs.addFile d file).1.files.Live q ↔ q = fs.files.next ∨ fs.files.Live q := by
  rw [addFile_eq, live_attach, live_allocFile]

/-- What a file is after `Directory::addFile`: one with its parent, or a directory with one more entry, or as it was. -/
theorem get?_attach (fs : FS) (d f q : FileId) : ∃ g : File → File, (fs.attach d f).files.get? q = (fs.files.get? q).map g ∧
    ∀ file, (g file).refCount = file.refCount ∧ (g file).name = file.name ∧ (g file).isDirectory = file.isDirectory ∧
      (g file).link? = file.link? ∧ (g file).endpoint? = file.endpoint? := by
  unfold attach
  rw [get?_modifyFile, get?_modifyFile]
  by_cases hf : q = f <;> by_cases hd : q = d
  · refine ⟨fun file => { file.withEntries (file.entries ++ [f]) with parent := some d }, ?_, fun file => ?_⟩
    · rw [if_pos hf, if_pos hd, Option.map_map]
      rfl
    · refine ⟨?_, ?_, ?_, ?_, ?_⟩
      · exact File.refCount_withEntries
      · exact File.name_withEntries
      · exact File.isDirectory_withEntries
      · exact File.link?_withEntries
      · exact File.endpoint?_withEntries
  · exact ⟨fun file => { file with parent := some d }, by rw [if_pos hf, if_neg hd], fun _ => ⟨rfl, rfl, rfl, rfl, rfl⟩⟩
  · exact ⟨fun file => file.withEntries (file.entries ++ [f]), by rw [if_neg hf, if_pos hd], fun _ => by simp⟩
  · exact ⟨id, by simp [hf, hd], fun _ => ⟨rfl, rfl, rfl, rfl, rfl⟩⟩

/-! ## Destroying -/

/-- A file that goes with another is that file or an entry of a directory that goes. -/
theorem mem_subtree_cases {n : Nat} {x : FileId} (h : x ∈ fs.subtree n f) :
    x = f ∨ ∃ d ∈ fs.subtree n f, x ∈ fs.entries d := by
  induction n generalizing f with
  | zero => exact Or.inl (List.mem_singleton.1 h)
  | succ n ih =>
    rw [subtree] at h
    rcases List.mem_cons.1 h with rfl | h
    · exact Or.inl rfl
    · obtain ⟨e, he, hx⟩ := List.mem_flatMap.1 h
      right
      rcases ih hx with rfl | ⟨d, hd, hxd⟩
      · exact ⟨f, List.mem_cons_self, he⟩
      · exact ⟨d, List.mem_cons_of_mem _ (List.mem_flatMap.2 ⟨e, he, hd⟩), hxd⟩

/-- What is doomed with a file is gone. -/
theorem get?_destroy (q : FileId) :
    (fs.destroy f).files.get? q = if q ∈ fs.doomed f then none else fs.files.get? q := by
  split
  · next h => exact Heap.get?_freeAll_of_mem h
  · next h => exact Heap.get?_freeAll_of_not_mem h

/-- What is doomed has no entries left. -/
theorem entries_destroy (q : FileId) : (fs.destroy f).entries q = if q ∈ fs.doomed f then [] else fs.entries q := by
  unfold entries
  rw [get?_destroy]
  split <;> rfl

/-! ## The invariant -/

/-- The entries and the orphans are files that exist; an entry is owned by one directory, and an orphan or the root by none. -/
structure Tree (fs : FS) : Prop where
  live : ∀ d e, e ∈ fs.entries d → fs.files.Live e
  nodup : ∀ d, (fs.entries d).Nodup
  owned : ∀ d d' e, e ∈ fs.entries d → e ∈ fs.entries d' → d = d'
  orphan : ∀ f ∈ fs.orphanFiles, fs.Outside f
  orphanLive : ∀ f ∈ fs.orphanFiles, fs.files.Live f
  rootDir : fs.IsDir fs.root
  rootOutside : fs.Outside fs.root
  rootOrphan : fs.root ∉ fs.orphanFiles

/-- An elementary change of the tree. What is known of an addition is `φ`, and what is known of a file that is destroyed is
`δ`. -/
inductive Edit (φ : FS → FileId → Str → Prop) (δ : FS → FileId → Prop) : FS → FS → Prop where
  | modify {fs : FS} (f : FileId) (g : File → File) (hg : ∀ file, fs.files.get? f = some file → file.Similar (g file)) :
      Edit φ δ fs (fs.modifyFile f g)
  | add {fs : FS} (d : FileId) (file : File) (hd : fs.IsDir d) (hfile : file.Fresh) (hφ : φ fs d file.name) :
      Edit φ δ fs (fs.addFile d file).1
  | take {fs : FS} (d e : FileId) (hd : fs.IsDir d) :
      Edit φ δ fs (fs.modifyFile d fun directory => directory.withEntries (directory.entries.erase e))
  | attach {fs : FS} (d f : FileId) (name : Str) (hd : fs.IsDir d) (hf : fs.files.Live f) (hout : fs.Loose f)
      (hφ : φ fs d name) : Edit φ δ fs ((fs.renameFile f d name).attach d f)
  | destroy {fs : FS} (f : FileId) (hout : fs.Loose f) (hδ : δ fs f) : Edit φ δ fs (fs.destroy f)

/-- A sequence of elementary changes. -/
abbrev Edits (φ : FS → FileId → Str → Prop) (δ : FS → FileId → Prop) : FS → FS → Prop := Relation.ReflTransGen (Edit φ δ)

variable {φ : FS → FileId → Str → Prop} {δ : FS → FileId → Prop}

/-- What each change keeps, a sequence of changes keeps. -/
theorem Edits.keep {I : FS → Prop} (hstep : ∀ fs fs', I fs → Edit φ δ fs fs' → I fs') (h : Edits φ δ fs fs') (hI : I fs) :
    I fs' := by
  induction h with
  | refl => exact hI
  | tail _ hedit ih => exact hstep _ _ ih hedit

/-- A new name moves no entry. -/
theorem entries_renameFile (fs : FS) (f d : FileId) (name : Str) (q : FileId) :
    (fs.renameFile f d name).entries q = fs.entries q := by
  unfold renameFile
  rw [entries_modifyFile]
  exact fun _ _ => rfl

/-- A directory stays one where its file keeps to be one. -/
theorem IsDir.modifyFile
    (hg : ∀ file, fs.files.get? f = some file → (g file).isDirectory = file.isDirectory) (h : fs.IsDir d) :
    (fs.modifyFile f g).IsDir d := by
  obtain ⟨directory, hdir, hdirectory⟩ := h
  unfold IsDir
  rw [get?_modifyFile]
  split
  · next hd => exact ⟨g directory, by rw [hdir]; rfl, (hg directory (hd ▸ hdir)).trans hdirectory⟩
  · exact ⟨directory, hdir, hdirectory⟩

/-- A renamed file is the last entry of its new directory. -/
theorem entries_renamed (hd : fs.IsDir d) (q : FileId) :
    ((fs.renameFile f d name).attach d f).entries q = if q = d then fs.entries q ++ [f] else fs.entries q := by
  have hd' : (fs.renameFile f d name).IsDir d := hd.modifyFile fun _ _ => rfl
  rw [entries_attach hd', entries_renameFile]

/-- The tree depends on the files, the orphans and the root only. -/
theorem Tree.congr (h : fs.Tree) (he : ∀ d, fs'.entries d = fs.entries d) (hl : ∀ f, fs.files.Live f → fs'.files.Live f)
    (ho : fs'.orphanFiles = fs.orphanFiles) (hr : fs'.root = fs.root) (hd : fs'.IsDir fs.root) : fs'.Tree := by
  have hout : ∀ f, fs.Outside f → fs'.Outside f := fun f hf d => he d ▸ hf d
  refine ⟨fun d e hmem => ?_, fun d => he d ▸ h.nodup d, fun d d' e h1 h2 => ?_, fun f hf => ?_, fun f hf => ?_, hr ▸ hd, ?_, ?_⟩
  · exact hl e (h.live d e (he d ▸ hmem))
  · exact h.owned d d' e (he d ▸ h1) (he d' ▸ h2)
  · exact hout f (h.orphan f (ho ▸ hf))
  · exact hl f (h.orphanLive f (ho ▸ hf))
  · rw [hr]
    exact hout _ h.rootOutside
  · rw [hr, ho]
    exact h.rootOrphan

/-- A loose file enters the tree. -/
theorem Tree.enter (h : fs.Tree) (hloose : fs.Loose e)
    (he : ∀ q, fs'.entries q = if q = d then fs.entries q ++ [e] else fs.entries q)
    (hl : ∀ f, f = e ∨ fs.files.Live f → fs'.files.Live f) (ho : fs'.orphanFiles = fs.orphanFiles) (hr : fs'.root = fs.root)
    (hd : fs'.IsDir fs.root) : fs'.Tree := by
  have hmem : ∀ q x, x ∈ fs'.entries q → x ∈ fs.entries q ∨ (q = d ∧ x = e) := by
    intro q x hx
    rw [he] at hx
    split at hx
    · next hq =>
      rcases List.mem_append.1 hx with hx | hx
      · exact Or.inl hx
      · exact Or.inr ⟨hq, List.mem_singleton.1 hx⟩
    · exact Or.inl hx
  have hout : ∀ x, x ≠ e → fs.Outside x → fs'.Outside x := by
    intro x hne hx q hq
    rcases hmem q x hq with hq | ⟨-, rfl⟩
    · exact hx q hq
    · exact hne rfl
  refine ⟨fun q x hx => ?_, fun q => ?_, fun q q' x hx hx' => ?_, fun x hx => ?_, fun x hx => ?_, hr ▸ hd, ?_, ?_⟩
  · rcases hmem q x hx with hx | ⟨-, rfl⟩
    · exact hl x (.inr (h.live q x hx))
    · exact hl x (.inl rfl)
  · rw [he]
    split
    · refine List.nodup_append.2 ⟨h.nodup q, by simp, fun x hx y hy => ?_⟩
      rw [List.mem_singleton.1 hy]
      rintro rfl
      exact hloose.outside q hx
    · exact h.nodup q
  · rcases hmem q x hx with hx | ⟨rfl, rfl⟩
    · rcases hmem q' x hx' with hx' | ⟨rfl, rfl⟩
      · exact h.owned q q' x hx hx'
      · exact absurd hx (hloose.outside q)
    · rcases hmem q' x hx' with hx' | ⟨rfl, -⟩
      · exact absurd hx' (hloose.outside q')
      · rfl
  · refine hout x (fun hxe => hloose.orphan ?_) (h.orphan x (ho ▸ hx))
    exact hxe ▸ ho ▸ hx
  · exact hl x (.inr (h.orphanLive x (ho ▸ hx)))
  · rw [hr]
    exact hout _ hloose.root.symm h.rootOutside
  · rw [hr, ho]
    exact h.rootOrphan

/-- Entries and orphans that go away leave a tree. -/
theorem Tree.shrink (h : fs.Tree) (he : ∀ q, (fs'.entries q).Sublist (fs.entries q))
    (hl : ∀ q x, x ∈ fs'.entries q → fs'.files.Live x)
    (ho : ∀ f ∈ fs'.orphanFiles, f ∈ fs.orphanFiles ∧ fs'.files.Live f) (hr : fs'.root = fs.root) (hd : fs'.IsDir fs.root) :
    fs'.Tree where
  live := hl
  nodup q := (h.nodup q).sublist (he q)
  owned q q' x hx hx' := h.owned q q' x ((he q).subset hx) ((he q').subset hx')
  orphan f hf q hq := h.orphan f (ho f hf).1 q ((he q).subset hq)
  orphanLive f hf := (ho f hf).2
  rootDir := hr ▸ hd
  rootOutside q hq := h.rootOutside q (hr ▸ (he q).subset hq)
  rootOrphan hmem := h.rootOrphan (hr ▸ (ho _ hmem).1)

/-- The file that is created next. -/
theorem Tree.loose_next (h : fs.Tree) : fs.Loose fs.files.next where
  outside d hmem := Nat.lt_irrefl _ (h.live d _ hmem).lt_next
  orphan hmem := Nat.lt_irrefl _ (h.orphanLive _ hmem).lt_next
  root heq := h.rootDir.ne_next heq.symm

/-- What destroys an entry destroys its owner. -/
theorem Tree.not_mem_doomed (h : fs.Tree) (hloose : fs.Loose f) {x : FileId} (hx : x ∈ fs.entries q)
    (hq : q ∉ fs.doomed f) : x ∉ fs.doomed f := by
  intro hdoomed
  rcases mem_subtree_cases hdoomed with rfl | ⟨d, hd, hxd⟩
  · exact hloose.outside q hx
  · exact hq (h.owned d q x hxd hx ▸ hd)

/-- A file that no directory owns is destroyed only by itself. -/
theorem not_mem_doomed_of_outside {x : FileId} (hx : fs.Outside x) (hne : x ≠ f) : x ∉ fs.doomed f := by
  intro hdoomed
  rcases mem_subtree_cases hdoomed with rfl | ⟨d, -, hxd⟩
  · exact hne rfl
  · exact hx d hxd

/-- What is not doomed stays. -/
theorem live_destroy (hq : q ∉ fs.doomed f) (hl : fs.files.Live q) : (fs.destroy f).files.Live q := by
  obtain ⟨file, hfile⟩ := hl
  exact ⟨file, by rw [get?_destroy, if_neg hq, hfile]⟩

/-- A tree stays one when a loose file is destroyed. -/
theorem Tree.destroy (h : fs.Tree) (hloose : fs.Loose f) : (fs.destroy f).Tree := by
  refine h.shrink (fun q => ?_) (fun q x hx => ?_) (fun x hx => ⟨hx, ?_⟩) rfl ?_
  · rw [entries_destroy]
    split
    · exact List.nil_sublist _
    · exact List.Sublist.refl _
  · rw [entries_destroy] at hx
    split at hx
    · cases hx
    · next hq => exact live_destroy (h.not_mem_doomed hloose hx hq) (h.live q x hx)
  · exact live_destroy (not_mem_doomed_of_outside (h.orphan x hx) fun he => hloose.orphan (he ▸ hx)) (h.orphanLive x hx)
  · obtain ⟨directory, hdir, hdirectory⟩ := h.rootDir
    refine ⟨directory, ?_, hdirectory⟩
    rw [get?_destroy, if_neg (not_mem_doomed_of_outside h.rootOutside hloose.root.symm), hdir]

/-- A directory stays one. -/
theorem IsDir.attach (h : fs.IsDir q) : (fs.attach d f).IsDir q := by
  obtain ⟨directory, hdir, hdirectory⟩ := h
  obtain ⟨g, hg, hsame⟩ := get?_attach fs d f q
  exact ⟨g directory, by rw [hg, hdir]; rfl, (hsame directory).2.2.1.trans hdirectory⟩

/-- A directory stays one. -/
theorem IsDir.addFile (h : fs.IsDir q) : (fs.addFile d file).1.IsDir q := h.allocFile.attach

/-- An edit leaves a tree. -/
theorem Tree.edit (h : fs.Tree) (hedit : Edit φ δ fs fs') : fs'.Tree := by
  cases hedit with
  | modify f g hg =>
    exact h.congr (entries_modifyFile fun file hf => (hg file hf).entries) (fun q hq => live_modifyFile.2 hq) rfl rfl
      (h.rootDir.modifyFile fun file hf => (hg file hf).isDirectory)
  | add d file hd hfile hφ =>
    exact h.enter h.loose_next (entries_addFile hd hfile.entries) (fun q hq => live_addFile.2 hq) rfl rfl h.rootDir.addFile
  | take d e hd =>
    have he := fun q => entries_replace hd (h := fun es => es.erase e) q
    have hsub : ∀ q, List.Sublist (if q = d then (fs.entries q).erase e else fs.entries q) (fs.entries q) := by
      intro q
      split
      · exact List.erase_sublist
      · exact List.Sublist.refl _
    refine h.shrink (fun q => he q ▸ hsub q) (fun q x hx => ?_) (fun x hx => ⟨hx, live_modifyFile.2 (h.orphanLive x hx)⟩) rfl
      (h.rootDir.modifyFile fun _ _ => File.isDirectory_withEntries)
    exact live_modifyFile.2 (h.live q x ((hsub q).subset (he q ▸ hx)))
  | attach d f name hd hf hloose hφ =>
    have hroot : (fs.renameFile f d name).IsDir fs.root := h.rootDir.modifyFile fun _ _ => rfl
    refine h.enter hloose (entries_renamed hd) (fun q hq => live_attach.2 (live_modifyFile.2 ?_)) rfl rfl hroot.attach
    rcases hq with rfl | hq
    · exact hf
    · exact hq
  | destroy f hloose hδ => exact h.destroy hloose

/-- Edits leave a tree. -/
theorem Tree.edits (h : fs.Tree) (hedits : Edits φ δ fs fs') : fs'.Tree :=
  hedits.keep (fun _ _ hI hedit => hI.edit hedit) h

/-! ## Changes that the tree does not see -/

/-- The same tree: the files differ in their counts, flags and contents at most. -/
structure SameTree (fs fs' : FS) : Prop where
  file : ∀ q file, fs.files.get? q = some file → ∃ file', fs'.files.get? q = some file' ∧ file.SameNode file'
  gone : ∀ q, fs.files.get? q = none → fs'.files.get? q = none
  next : fs'.files.next = fs.files.next
  orphanFiles : fs'.orphanFiles = fs.orphanFiles
  root : fs'.root = fs.root

/-- The same files, orphans and root are the same tree. -/
theorem SameTree.of_files (hf : fs'.files = fs.files) (ho : fs'.orphanFiles = fs.orphanFiles) (hr : fs'.root = fs.root) :
    fs.SameTree fs' :=
  ⟨fun _ file h => ⟨file, hf ▸ h, .refl file⟩, fun _ h => hf ▸ h, by rw [hf], ho, hr⟩

theorem SameTree.refl (fs : FS) : fs.SameTree fs := .of_files rfl rfl rfl

/-- A change that keeps its node keeps the tree. -/
theorem SameTree.modifyFile (hg : ∀ file, fs.files.get? f = some file → file.SameNode (g file)) :
    fs.SameTree (fs.modifyFile f g) := by
  refine ⟨fun q file hfile => ?_, fun q hq => ?_, next_modifyFile, rfl, rfl⟩
  · rw [get?_modifyFile]
    split
    · next hq =>
      rw [hfile]
      exact ⟨g file, rfl, hg file (hq ▸ hfile)⟩
    · exact ⟨file, hfile, .refl file⟩
  · rw [get?_modifyFile, hq]
    split <;> rfl

/-- The count of a file is not part of the tree. -/
theorem SameTree.count {k : Nat → Nat} : fs.SameTree (fs.modifyFile f fun file => { file with refCount := k file.refCount }) :=
  .modifyFile fun _ _ => .of_kind rfl rfl rfl

theorem SameTree.trans {fs'' : FS} (h : fs.SameTree fs') (h' : fs'.SameTree fs'') : fs.SameTree fs'' := by
  refine ⟨fun q file hfile => ?_, fun q hq => h'.gone q (h.gone q hq), h'.next.trans h.next, h'.orphanFiles.trans h.orphanFiles,
    h'.root.trans h.root⟩
  obtain ⟨file1, hfile1, hsame1⟩ := h.file q file hfile
  obtain ⟨file2, hfile2, hsame2⟩ := h'.file q file1 hfile1
  exact ⟨file2, hfile2, hsame1.trans hsame2⟩

theorem SameTree.symm (h : fs.SameTree fs') : fs'.SameTree fs := by
  refine ⟨fun q file' hfile' => ?_, fun q hq => ?_, h.next.symm, h.orphanFiles.symm, h.root.symm⟩
  · cases hfile : fs.files.get? q with
    | none =>
      rw [h.gone q hfile] at hfile'
      cases hfile'
    | some file =>
      obtain ⟨file'', hfile'', hsame⟩ := h.file q file hfile
      obtain rfl := Option.some.inj (hfile'.symm.trans hfile'')
      exact ⟨file, rfl, hsame.symm⟩
  · cases hfile : fs.files.get? q with
    | none => rfl
    | some file =>
      obtain ⟨file', hfile', -⟩ := h.file q file hfile
      rw [hq] at hfile'
      cases hfile'

/-- The same tree has the same entries. -/
theorem SameTree.entries (h : fs.SameTree fs') (q : FileId) : fs'.entries q = fs.entries q := by
  cases hq : fs.files.get? q with
  | none => rw [entries_of_none hq, entries_of_none (h.gone q hq)]
  | some file =>
    obtain ⟨file', hfile', hsame⟩ := h.file q file hq
    rw [entries_eq hq, entries_eq hfile', hsame.entries]

/-- The same tree has the same names. -/
theorem SameTree.nameOf (h : fs.SameTree fs') (q : FileId) : fs'.nameOf q = fs.nameOf q := by
  cases hq : fs.files.get? q with
  | none => rw [FS.nameOf, FS.nameOf, hq, h.gone q hq]
  | some file =>
    obtain ⟨file', hfile', hsame⟩ := h.file q file hq
    rw [FS.nameOf, FS.nameOf, hq, hfile', Option.map_some, Option.map_some, hsame.name]

/-- The same tree has the same files. -/
theorem SameTree.live (h : fs.SameTree fs') (hl : fs.files.Live q) : fs'.files.Live q := by
  obtain ⟨file, hfile⟩ := hl
  obtain ⟨file', hfile', -⟩ := h.file q file hfile
  exact ⟨file', hfile'⟩

/-- The same tree has the same directories. -/
theorem SameTree.isDir (h : fs.SameTree fs') (hd : fs.IsDir q) : fs'.IsDir q := by
  obtain ⟨directory, hdir, hdirectory⟩ := hd
  obtain ⟨directory', hdir', hsame⟩ := h.file q directory hdir
  exact ⟨directory', hdir', hsame.isDirectory.trans hdirectory⟩

/-- The same tree is a tree. -/
theorem SameTree.tree (h : fs.SameTree fs') (ht : fs.Tree) : fs'.Tree :=
  ht.congr h.entries (fun _ hf => h.live hf) h.orphanFiles h.root (h.isDir ht.rootDir)

/-! ## Orphans -/

/-- The file system with one more orphan. -/
def allocOrphan (fs : FS) (file : File) : FS :=
  { fs with files := fs.files.alloc file, orphanFiles := fs.orphanFiles ++ [fs.files.next] }

/-- A new orphan without entries brings none. -/
theorem entries_allocOrphan (hfile : file.entries = []) (q : FileId) : (fs.allocOrphan file).entries q = fs.entries q :=
  entries_allocFile hfile q

/-- A tree stays one beside a new orphan. -/
theorem Tree.allocOrphan (h : fs.Tree) (hfile : file.entries = []) : (fs.allocOrphan file).Tree := by
  have hl : ∀ q, fs.files.Live q → (fs.allocOrphan file).files.Live q := fun q hq => live_allocFile.2 (.inr hq)
  have ho : ∀ f ∈ (fs.allocOrphan file).orphanFiles, f ∈ fs.orphanFiles ∨ f = fs.files.next := fun f hf => by
    simpa [FS.allocOrphan] using hf
  refine ⟨fun d e hmem => ?_, fun d => ?_, fun d d' e h1 h2 => ?_, fun f hf d => ?_, fun f hf => ?_, ?_, fun d => ?_, fun hf => ?_⟩
  · exact hl e (h.live d e (entries_allocOrphan hfile d ▸ hmem))
  · rw [entries_allocOrphan hfile]
    exact h.nodup d
  · rw [entries_allocOrphan hfile] at h1 h2
    exact h.owned d d' e h1 h2
  · rw [entries_allocOrphan hfile]
    rcases ho f hf with hf | rfl
    · exact h.orphan f hf d
    · exact h.loose_next.outside d
  · rcases ho f hf with hf | rfl
    · exact hl f (h.orphanLive f hf)
    · exact live_allocFile.2 (.inl rfl)
  · exact h.rootDir.allocFile
  · rw [entries_allocOrphan hfile]
    exact h.rootOutside d
  · rcases ho _ hf with hf | hf
    · exact h.rootOrphan hf
    · exact h.loose_next.root hf.symm

/-- An orphan that is removed is gone. -/
theorem get?_removeFromOrphans (q : FileId) : (fs.removeFromOrphans f).files.get? q =
    if f ∈ fs.orphanFiles ∧ q = f then none else fs.files.get? q := by
  unfold removeFromOrphans
  by_cases hf : f ∈ fs.orphanFiles <;> by_cases hq : q = f
  · rw [if_pos hf, if_pos ⟨hf, hq⟩]
    exact Heap.get?_freeAll_of_mem (List.mem_singleton.2 hq)
  · rw [if_pos hf, if_neg fun h => hq h.2]
    exact Heap.get?_freeAll_of_not_mem fun h => hq (List.mem_singleton.1 h)
  · rw [if_neg hf, if_neg fun h => hf h.1]
  · rw [if_neg hf, if_neg fun h => hf h.1]

/-- An orphan that is removed has no entries left. -/
theorem entries_removeFromOrphans (q : FileId) : (fs.removeFromOrphans f).entries q =
    if f ∈ fs.orphanFiles ∧ q = f then [] else fs.entries q := by
  unfold entries
  rw [get?_removeFromOrphans]
  split <;> rfl

/-- The root stays. -/
theorem root_removeFromOrphans : (fs.removeFromOrphans f).root = fs.root := by
  unfold removeFromOrphans
  split <;> rfl

/-- The other orphans were orphans. -/
theorem mem_orphanFiles_removeFromOrphans {x : FileId} (h : x ∈ (fs.removeFromOrphans f).orphanFiles) :
    x ∈ fs.orphanFiles ∧ x ≠ f := by
  unfold removeFromOrphans at h
  split at h
  · simpa using h
  · next hf => exact ⟨h, fun hx => hf (hx ▸ h)⟩

/-- A tree stays one when an orphan is removed. -/
theorem Tree.removeFromOrphans (h : fs.Tree) : (fs.removeFromOrphans f).Tree := by
  have hl : ∀ q, q ≠ f ∨ f ∉ fs.orphanFiles → fs.files.Live q → (fs.removeFromOrphans f).files.Live q := by
    rintro q hq ⟨file, hfile⟩
    refine ⟨file, ?_⟩
    rw [get?_removeFromOrphans, if_neg, hfile]
    rintro ⟨ho, rfl⟩
    rcases hq with hq | hq
    · exact hq rfl
    · exact hq ho
  have hsub : ∀ q, ((fs.removeFromOrphans f).entries q).Sublist (fs.entries q) := by
    intro q
    rw [entries_removeFromOrphans]
    split
    · exact List.nil_sublist _
    · exact List.Sublist.refl _
  refine h.shrink hsub (fun q x hx => ?_) (fun x hx => ?_) root_removeFromOrphans ?_
  · have hx' := (hsub q).subset hx
    refine hl x ?_ (h.live q x hx')
    by_cases ho : f ∈ fs.orphanFiles
    · exact .inl fun he => h.orphan f ho q (he ▸ hx')
    · exact .inr ho
  · obtain ⟨hx, hne⟩ := mem_orphanFiles_removeFromOrphans hx
    exact ⟨hx, hl x (.inl hne) (h.orphanLive x hx)⟩
  · obtain ⟨directory, hdir, hdirectory⟩ := h.rootDir
    refine ⟨directory, ?_, hdirectory⟩
    rw [get?_removeFromOrphans, if_neg, hdir]
    rintro ⟨ho, rfl⟩
    exact h.rootOrphan ho

end FS

end X64Emulator
