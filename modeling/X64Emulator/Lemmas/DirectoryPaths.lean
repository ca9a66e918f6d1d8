import X64Emulator.Lemmas.FileRuns
import X64Emulator.Lemmas.LinkResolution

/-!
# The path of a directory

`File::path` follows the parents of a directory up to the root. The parent of an entry is the directory that owns it, so this ends
below the number of files, and the names it collects are components. The directories that `ensurePathImpl` adds are added below
ones that have a path.
-/

namespace X64Emulator

open Outcome

namespace FS

variable {fs fs' : FS} {host : HostFiles} {depth n m : Nat} {f d e x q : FileId} {name c : Str} {file : File}
  {cs : List Str} {bad : FsFailure → Prop} {δ : FS → FileId → Prop}

/-! ## Entries know their directory -/

/-- The parent of an entry is the directory that owns it, and its name is a component; the root has neither. -/
structure Placed (fs : FS) : Prop where
  entry : ∀ d e file, e ∈ fs.entries d → fs.files.get? e = some file → file.parent = some d ∧ Component file.name
  root : ∀ file, fs.files.get? fs.root = some file → file.parent = none ∧ file.name = []

/-- A change in which no file moves and no entry is new. -/
theorem Placed.shrink (h : fs.Placed) (ht : fs.Tree) (hroot : fs'.root = fs.root)
    (he : ∀ q, ∀ e ∈ fs'.entries q, e ∈ fs.entries q)
    (hfile : ∀ q old file, fs.files.get? q = some old → fs'.files.get? q = some file →
      file.parent = old.parent ∧ file.name = old.name) : fs'.Placed := by
  constructor
  · intro d e file hmem hget
    obtain ⟨old, hold⟩ := ht.live d e (he d e hmem)
    obtain ⟨hparent, hname⟩ := hfile e old file hold hget
    rw [hparent, hname]
    exact h.entry d e old (he d e hmem) hold
  · intro file hget
    rw [hroot] at hget
    obtain ⟨old, hold, -⟩ := ht.rootDir
    obtain ⟨hparent, hname⟩ := hfile fs.root old file hold hget
    rw [hparent, hname]
    exact h.root old hold

/-- A file that was out of the tree enters a directory. -/
theorem Placed.enter (h : fs.Placed) (ht : fs.Tree) (hloose : fs.Loose f) (hroot : fs'.root = fs.root)
    (he : ∀ q, fs'.entries q = if q = d then fs.entries q ++ [f] else fs.entries q)
    (hnew : ∀ file, fs'.files.get? f = some file → file.parent = some d ∧ Component file.name)
    (hfile : ∀ q old file, q ≠ f → fs.files.get? q = some old → fs'.files.get? q = some file →
      file.parent = old.parent ∧ file.name = old.name) : fs'.Placed := by
  have hold : ∀ q e file, e ∈ fs.entries q → fs'.files.get? e = some file → file.parent = some q ∧ Component file.name := by
    intro q e file hmem hget
    obtain ⟨old, hold⟩ := ht.live q e hmem
    have hne : e ≠ f := by
      rintro rfl
      exact hloose.outside q hmem
    obtain ⟨hparent, hname⟩ := hfile e old file hne hold hget
    rw [hparent, hname]
    exact h.entry q e old hmem hold
  constructor
  · intro q e file hmem hget
    rw [he] at hmem
    split at hmem
    · next hq =>
      subst hq
      rcases List.mem_append.1 hmem with hmem | hmem
      · exact hold q e file hmem hget
      · obtain rfl := List.mem_singleton.1 hmem
        exact hnew file hget
    · exact hold q e file hmem hget
  · intro file hget
    rw [hroot] at hget
    obtain ⟨old, holdroot, -⟩ := ht.rootDir
    obtain ⟨hparent, hname⟩ := hfile fs.root old file hloose.root.symm holdroot hget
    rw [hparent, hname]
    exact h.root old holdroot

/-- A directory that gets other entries keeps its parent and its name. -/
theorem File.placed_withEntries {es : List FileId} :
    (file.withEntries es).parent = file.parent ∧ (file.withEntries es).name = file.name := by
  unfold File.withEntries
  split <;> exact ⟨rfl, rfl⟩

/-- The file that enters gets its parent; every other file keeps its own. -/
theorem get?_attach_self (h : (fs.attach d f).files.get? f = some file) :
    file.parent = some d ∧ ∃ old, fs.files.get? f = some old ∧ file.name = old.name := by
  unfold attach at h
  rw [get?_modifyFile, if_pos rfl, get?_modifyFile, Option.map_eq_some_iff] at h
  obtain ⟨mid, hmid, rfl⟩ := h
  refine ⟨rfl, ?_⟩
  split at hmid
  · obtain ⟨old, hold, rfl⟩ := Option.map_eq_some_iff.1 hmid
    exact ⟨old, hold, File.placed_withEntries.2⟩
  · exact ⟨mid, hmid, rfl⟩

theorem get?_attach_ne {old : File} (hne : q ≠ f) (hold : fs.files.get? q = some old)
    (h : (fs.attach d f).files.get? q = some file) : file.parent = old.parent ∧ file.name = old.name := by
  unfold attach at h
  rw [get?_modifyFile, if_neg hne, get?_modifyFile, hold] at h
  split at h
  · obtain rfl := Option.some.inj h
    exact File.placed_withEntries
  · obtain rfl := Option.some.inj h
    exact ⟨rfl, rfl⟩

/-- What is known of the name of an addition. -/
abbrev Named : FS → FileId → Str → Prop := fun _ _ name => Component name

theorem allows_named : Allows Named := fun _ _ _ hname _ => hname

theorem Placed.edit (h : fs.Placed) (ht : fs.Tree) (hedit : Edit Named δ fs fs') : fs'.Placed := by
  cases hedit with
  | modify f g hg =>
    refine h.shrink ht rfl (fun q e he => ?_) fun q old file hold hget => ?_
    · rwa [entries_modifyFile fun file hfile => (hg file hfile).entries] at he
    · rw [get?_modifyFile] at hget
      split at hget
      · next hq =>
        subst hq
        rw [hold] at hget
        obtain rfl := Option.some.inj hget
        exact ⟨(hg old hold).parent, (hg old hold).name⟩
      · obtain rfl := Option.some.inj (hold.symm.trans hget)
        exact ⟨rfl, rfl⟩
  | add d file hd hfile hname =>
    refine h.enter ht ht.loose_next rfl (entries_addFile hd hfile.entries) (fun file' hget => ?_) fun q old file' hne hold hget => ?_
    · obtain ⟨hparent, old, hold, heq⟩ := get?_attach_self hget
      have hold : (fs.allocFile file).files.get? fs.files.next = some old := hold
      rw [get?_allocFile, if_pos rfl] at hold
      obtain rfl := Option.some.inj hold
      exact ⟨hparent, heq ▸ hname⟩
    · have hmid : (fs.allocFile file).files.get? q = some old := by rw [get?_allocFile, if_neg hne, hold]
      exact get?_attach_ne hne hmid hget
  | take d e hd =>
    refine h.shrink ht rfl (fun q x hx => ?_) fun q old file hold hget => ?_
    · rw [entries_replace hd (h := fun es => es.erase e)] at hx
      split at hx
      · exact List.mem_of_mem_erase hx
      · exact hx
    · rw [get?_modifyFile, hold] at hget
      split at hget
      · obtain rfl := Option.some.inj hget
        exact File.placed_withEntries
      · obtain rfl := Option.some.inj hget
        exact ⟨rfl, rfl⟩
  | attach d f name hd hf hloose hname =>
    refine h.enter ht hloose rfl (entries_renamed hd) (fun file hget => ?_) fun q old file hne hold hget => ?_
    · obtain ⟨hparent, mid, hmid, heq⟩ := get?_attach_self hget
      unfold renameFile at hmid
      rw [get?_modifyFile, if_pos rfl, Option.map_eq_some_iff] at hmid
      obtain ⟨old, -, rfl⟩ := hmid
      exact ⟨hparent, heq ▸ hname⟩
    · have hmid : (fs.renameFile f d name).files.get? q = some old := by
        unfold renameFile
        rw [get?_modifyFile, if_neg hne, hold]
      exact get?_attach_ne hne hmid hget
  | destroy f hloose hδ =>
    refine h.shrink ht rfl (fun q x hx => ?_) fun q old file hold hget => ?_
    · rw [entries_destroy] at hx
      split at hx
      · cases hx
      · exact hx
    · rw [get?_destroy, hold] at hget
      split at hget
      · cases hget
      · obtain rfl := Option.some.inj hget
        exact ⟨rfl, rfl⟩

theorem Placed.change (h : fs.Placed) (ht : fs.Tree) (hchange : Change Named δ fs fs') : fs'.Placed := by
  cases hchange with
  | edit hedit => exact h.edit ht hedit
  | same hsame =>
    refine h.shrink ht hsame.root (fun q e he => hsame.entries q ▸ he) fun q old file hold hget => ?_
    obtain ⟨file', hfile', hnode⟩ := hsame.file q old hold
    obtain rfl := Option.some.inj (hget.symm.trans hfile')
    exact ⟨hnode.parent, hnode.name⟩
  | orphan file hfile =>
    refine h.shrink ht rfl (fun q e he => entries_allocOrphan hfile q ▸ he) fun q old file' hold hget => ?_
    have hne : q ≠ fs.files.next := Nat.ne_of_lt (Heap.Live.lt_next ⟨old, hold⟩)
    have hget : (fs.allocFile file).files.get? q = some file' := hget
    rw [get?_allocFile, if_neg hne] at hget
    obtain rfl := Option.some.inj (hold.symm.trans hget)
    exact ⟨rfl, rfl⟩
  | dropOrphan f =>
    refine h.shrink ht root_removeFromOrphans (fun q e he => ?_) fun q old file hold hget => ?_
    · rw [entries_removeFromOrphans] at he
      split at he
      · cases he
      · exact he
    · rw [get?_removeFromOrphans] at hget
      split at hget
      · cases hget
      · obtain rfl := Option.some.inj (hold.symm.trans hget)
        exact ⟨rfl, rfl⟩

theorem Placed.changes (h : fs.Placed) (ht : fs.Tree) (hchanges : Changes Named δ fs fs') : fs'.Placed := by
  induction hchanges with
  | refl => exact h
  | tail hbefore hchange ih => exact ih.change (ht.changes hbefore) hchange

theorem bare_placed : bare.Placed := by
  constructor
  · intro d e file hmem
    cases d with
    | zero => cases hmem
    | succ d =>
      have hnone : bare.entries (d + 1) = [] := entries_of_none (by simp [bare, Heap.alloc, Heap.empty, Heap.get?])
      rw [hnone] at hmem
      cases hmem
  · intro file hget
    obtain rfl := Option.some.inj hget
    exact ⟨rfl, rfl⟩

/-- The last component of a path is the name of the file that is added there. -/
theorem admits_named (fs : FS) (host : HostFiles) (depth : Nat) (path : Path) : Admits Named fs host depth path :=
  fun _ _ name hname _ => path.proper name (List.mem_of_getLast? hname)

/-! ## Levels -/

/-- The files that are so many entries away from the root. -/
inductive Below (fs : FS) : Nat → FileId → Prop where
  | root : Below fs 0 fs.root
  | entry {n : Nat} {d e : FileId} (h : Below fs n d) (he : e ∈ fs.entries d) : Below fs (n + 1) e

theorem Below.unique (ht : fs.Tree) (h : fs.Below n f) (h' : fs.Below m f) : n = m := by
  induction h generalizing m with
  | root =>
    cases h' with
    | root => rfl
    | entry h' he => exact absurd he (ht.rootOutside _)
  | @entry n d e h he ih =>
    cases h' with
    | root => exact absurd he (ht.rootOutside _)
    | @entry m d' _ h' he' =>
      obtain rfl := ht.owned d d' e he he'
      rw [ih h']

theorem Below.live (ht : fs.Tree) (h : fs.Below n f) : fs.files.Live f := by
  cases h with
  | root => exact ht.rootDir.live
  | entry _ he => exact ht.live _ _ he

/-- There is a file on each of the levels above. -/
theorem Below.chain (ht : fs.Tree) (h : fs.Below n f) :
    ∃ files : List FileId, files.length = n + 1 ∧ files.Nodup ∧ ∀ x ∈ files, ∃ k ≤ n, fs.Below k x := by
  induction h with
  | root => exact ⟨[fs.root], rfl, List.nodup_singleton _, fun x hx => ⟨0, Nat.le_refl 0, List.mem_singleton.1 hx ▸ .root⟩⟩
  | @entry n d e h he ih =>
    obtain ⟨files, hlength, hnodup, hbelow⟩ := ih
    have hnew : fs.Below (n + 1) e := h.entry he
    refine ⟨e :: files, by rw [List.length_cons, hlength], List.nodup_cons.2 ⟨?_, hnodup⟩, ?_⟩
    · intro hmem
      obtain ⟨k, hk, hold⟩ := hbelow e hmem
      have heq := hold.unique ht hnew
      omega
    · intro x hx
      rcases List.mem_cons.1 hx with rfl | hx
      · exact ⟨n + 1, Nat.le_refl _, hnew⟩
      · obtain ⟨k, hk, hold⟩ := hbelow x hx
        exact ⟨k, Nat.le_succ_of_le hk, hold⟩

theorem Below.lt_next (ht : fs.Tree) (h : fs.Below n f) : n < fs.files.next := by
  obtain ⟨files, hlength, hnodup, hbelow⟩ := h.chain ht
  have hsub : files ⊆ List.range fs.files.next := by
    intro x hx
    obtain ⟨k, -, hx⟩ := hbelow x hx
    exact List.mem_range.2 (hx.live ht).lt_next
  have hle := (hnodup.subperm hsub).length_le
  rw [List.length_range] at hle
  omega

theorem Below.addFile (hd : fs.IsDir d) (hfile : file.entries = []) (h : fs.Below n f) : (fs.addFile d file).1.Below n f := by
  induction h with
  | root => exact .root
  | @entry n q e h he ih =>
    refine ih.entry ?_
    rw [entries_addFile hd hfile]
    split
    · exact List.mem_append_left _ he
    · exact he

/-! ## Paths -/

theorem Placed.directoryNames (h : fs.Placed) (ht : fs.Tree) (hd : fs.Below n d) (hnm : n < m) :
    ∃ names, fs.directoryNames m (some d) = .ok names ∧ ∀ name ∈ names, name = [] ∨ Component name := by
  induction hd generalizing m with
  | root =>
    obtain ⟨directory, hdir, -⟩ := ht.rootDir
    obtain ⟨hparent, hname⟩ := h.root directory hdir
    obtain ⟨m, rfl⟩ := Nat.exists_eq_add_one_of_ne_zero (Nat.ne_of_gt hnm)
    refine ⟨[] ++ [directory.name], bind_eq_ok.2 ⟨directory, file_eq_ok.2 hdir, bind_eq_ok.2 ⟨[], ?_, rfl⟩⟩, ?_⟩
    · rw [hparent]
      cases m <;> rfl
    · intro name hmem
      obtain rfl := List.mem_singleton.1 hmem
      exact .inl hname
  | @entry n d e _ he ih =>
    obtain ⟨directory, hdir⟩ := ht.live d e he
    obtain ⟨hparent, hname⟩ := h.entry d e directory he hdir
    obtain ⟨m, rfl⟩ := Nat.exists_eq_add_one_of_ne_zero (Nat.ne_of_gt (Nat.lt_of_le_of_lt (Nat.zero_le _) hnm))
    obtain ⟨above, habove, hnames⟩ := ih (Nat.lt_of_succ_lt_succ hnm)
    refine ⟨above ++ [directory.name], bind_eq_ok.2 ⟨directory, file_eq_ok.2 hdir, bind_eq_ok.2 ⟨above, ?_, rfl⟩⟩, ?_⟩
    · rw [hparent]
      exact habove
    · intro name hmem
      rcases List.mem_append.1 hmem with hmem | hmem
      · exact hnames name hmem
      · obtain rfl := List.mem_singleton.1 hmem
        exact .inr hname

/-- Every file below the root has a path. -/
theorem Placed.path (h : fs.Placed) (ht : fs.Tree) (hf : fs.Below n f) : ∃ path, fs.path f = .ok path := by
  have hcreate : ∀ {file : File} {names : List Str}, fs.files.get? f = some file →
      fs.directoryNames (fs.files.next + 1) file.parent = .ok names →
      (∃ path, Path.tryCreate (((names.filter fun name => name ≠ []) ++ [file.name]).flatMap fun name => '/' :: name) = some path) →
      ∃ path, fs.path f = .ok path := by
    rintro file names hfile hnames ⟨path, hpath⟩
    refine ⟨path, bind_eq_ok.2 ⟨file, file_eq_ok.2 hfile, bind_eq_ok.2 ⟨names, hnames, ?_⟩⟩⟩
    dsimp only
    rw [hpath]
  cases hf with
  | root =>
    obtain ⟨directory, hdir, -⟩ := ht.rootDir
    obtain ⟨hparent, hname⟩ := h.root directory hdir
    have hnames : fs.directoryNames (fs.files.next + 1) directory.parent = .ok [] := by
      rw [hparent]
      rfl
    refine hcreate hdir hnames ?_
    rw [hname]
    exact ⟨_, rfl⟩
  | @entry n d _ hd he =>
    obtain ⟨file, hfile⟩ := ht.live d f he
    obtain ⟨hparent, hname⟩ := h.entry d f file he hfile
    obtain ⟨names, hnames, hall⟩ := h.directoryNames ht hd (Nat.lt_succ_of_lt (hd.lt_next ht))
    refine hcreate hfile (hparent ▸ hnames) ?_
    have hproper : ∀ c ∈ (names.filter fun name => name ≠ []) ++ [file.name], Component c := by
      intro c hc
      rcases List.mem_append.1 hc with hc | hc
      · obtain ⟨hc, hne⟩ := List.mem_filter.1 hc
        exact (hall c hc).resolve_left (of_decide_eq_true hne)
      · exact List.mem_singleton.1 hc ▸ hname
    obtain ⟨path, hpath, -⟩ := Path.tryCreate_flatMap hproper
    exact ⟨path, hpath⟩

/-! ## The directories that are added -/

theorem Placed.tryAddHostDirectory (h : fs.Placed) (host : HostFiles) (ht : fs.Tree) (hd : fs.Below n d) (hname : Component name)
    (hnone : fs.tryGetEntry d name = .ok none) :
    fs.tryAddHostDirectory host d name =
      .ok ((fs.addFile d (.new name (.directory (.host false) []))).1, some fs.files.next) ∨
    fs.tryAddHostDirectory host d name = .ok (fs, none) := by
  obtain ⟨path, hpath⟩ := h.path ht hd
  obtain ⟨appended, happended, -⟩ := path.tryAppend_component hname
  cases hhost : host.directory appended with
  | true =>
    left
    refine bind_eq_ok.2 ⟨none, hnone, bind_eq_ok.2 ⟨path, hpath, ?_⟩⟩
    rw [happended]
    show (if host.directory appended = true then _ else _) = _
    rw [if_pos hhost]
    exact bind_eq_ok.2 ⟨name, last_tryAppend hname happended, rfl⟩
  | false =>
    right
    refine bind_eq_ok.2 ⟨none, hnone, bind_eq_ok.2 ⟨path, hpath, ?_⟩⟩
    rw [happended]
    show (if host.directory appended = true then _ else _) = _
    rw [hhost]
    rfl

theorem Placed.tryAddShadowDirectory (h : fs.Placed) (ht : fs.Tree) (hd : fs.Below n d) (hname : Component name)
    (hnone : fs.tryGetEntry d name = .ok none) :
    fs.tryAddShadowDirectory d name = .ok ((fs.addFile d (.new name (.directory .shadow []))).1, some fs.files.next) := by
  obtain ⟨path, hpath⟩ := h.path ht hd
  obtain ⟨appended, happended, -⟩ := path.tryAppend_component hname
  refine bind_eq_ok.2 ⟨none, hnone, bind_eq_ok.2 ⟨path, hpath, ?_⟩⟩
  rw [happended]
  exact bind_eq_ok.2 ⟨name, last_tryAppend hname happended, rfl⟩

theorem ensureFrom_of_directory (h : fs.tryGetSubDirectory d c = .ok (some x)) :
    ensureFrom host depth fs d (c :: cs) = ensureFrom host depth fs x cs := by
  rw [ensureFrom, h]
  rfl

/-- What `ensurePathImpl` does with the file a link leads to. -/
def ensureTarget (host : HostFiles) (depth : Nat) (fs : FS) (cs : List Str) : Option FileId → Except FsFailure (FS × Option FileId)
  | none => .ok (fs, none)
  | some target => do
    let file ← fs.file target
    if file.isDirectory then ensureFrom host depth fs target cs else .ok (fs, none)

theorem ensureFrom_of_link {link : Str} (h : fs.tryGetLink d c = .ok (some link)) :
    ensureFrom host depth fs d (c :: cs) = fs.resolveSymlink depth link >>= ensureTarget host depth fs cs := by
  rw [ensureFrom, tryGetSubDirectory_of_link h]
  show (fs.tryGetLink d c >>= _) = _
  rw [h]
  rfl

theorem ensureTarget_of_file (hfile : fs.files.get? x = some file) : ensureTarget host depth fs cs (some x) =
    if file.isDirectory then ensureFrom host depth fs x cs else .ok (fs, none) := by
  rw [ensureTarget, file_eq_ok.2 hfile]
  rfl

/-- An entry that is neither a directory nor a link is in the way. -/
theorem ensureFrom_of_other (hsub : fs.tryGetSubDirectory d c = .ok none) (hlink : fs.tryGetLink d c = .ok none)
    (hentry : fs.tryGetEntry d c = .ok (some e)) : ensureFrom host depth fs d (c :: cs) = .error .verification := by
  have hhost : fs.tryAddHostDirectory host d c = .ok (fs, none) := bind_eq_ok.2 ⟨some e, hentry, rfl⟩
  have hshadow : fs.tryAddShadowDirectory d c = .ok (fs, none) := bind_eq_ok.2 ⟨some e, hentry, rfl⟩
  rw [ensureFrom, hsub]
  show (fs.tryGetLink d c >>= _) = _
  rw [hlink]
  show (fs.tryAddHostDirectory host d c >>= _) = _
  rw [hhost]
  show (fs.tryAddShadowDirectory d c >>= _) = _
  rw [hshadow]
  rfl

/-- A directory that is missing is added. -/
theorem ensureFrom_of_missing (host : HostFiles) (depth : Nat) (cs : List Str) (h : fs.Placed) (ht : fs.Tree) (hd : fs.Below n d)
    (hname : Component c) (hnone : fs.tryGetEntry d c = .ok none) : ∃ cls, ensureFrom host depth fs d (c :: cs) =
      ensureFrom host depth (fs.addFile d (.new c (.directory cls []))).1 fs.files.next cs := by
  have hsub : fs.tryGetSubDirectory d c = .ok none := tryGetSubDirectory_eq_ok.2 (.inl ⟨hnone, rfl⟩)
  rcases h.tryAddHostDirectory host ht hd hname hnone with hadd | hadd
  · refine ⟨.host false, ?_⟩
    rw [ensureFrom, hsub]
    show (fs.tryGetLink d c >>= _) = _
    rw [tryGetLink_of_none hnone]
    show (fs.tryAddHostDirectory host d c >>= _) = _
    rw [hadd]
    rfl
  · refine ⟨.shadow, ?_⟩
    rw [ensureFrom, hsub]
    show (fs.tryGetLink d c >>= _) = _
    rw [tryGetLink_of_none hnone]
    show (fs.tryAddHostDirectory host d c >>= _) = _
    rw [hadd]
    show (fs.tryAddShadowDirectory d c >>= _) = _
    rw [h.tryAddShadowDirectory ht hd hname hnone]
    rfl

/-- Where a directory is missing, it and those behind it are added. -/
theorem ensureFrom_of_vacant (host : HostFiles) (depth : Nat) (h : fs.Placed) (ht : fs.Tree) (hb : fs.Below n d) (hd : fs.IsDir d)
    (hcs : ∀ p ∈ c :: cs, Component p) (hnone : fs.tryGetEntry d c = .ok none) :
    ∃ r, ensureFrom host depth fs d (c :: cs) = .ok r := by
  induction cs generalizing fs d n c with
  | nil =>
    obtain ⟨cls, heq⟩ := ensureFrom_of_missing host depth [] h ht hb (hcs c List.mem_cons_self) hnone
    exact ⟨_, heq⟩
  | cons c' cs ih =>
    have hc := hcs c List.mem_cons_self
    obtain ⟨cls, heq⟩ := ensureFrom_of_missing host depth (c' :: cs) h ht hb hc hnone
    have hadd : Edit Named (fun _ _ => True) fs (fs.addFile d (.new c (.directory cls []))).1 :=
      .add d _ hd fresh_directory hc
    have hdir : (fs.addFile d (.new c (.directory cls []))).1.IsDir fs.files.next := isDir_addFile_next
    have hempty : (fs.addFile d (.new c (.directory cls []))).1.entries fs.files.next = [] := entries_addFile_next hd rfl
    have hnext : fs.files.next ∈ (fs.addFile d (.new c (.directory cls []))).1.entries d := by
      rw [entries_addFile hd rfl, if_pos rfl]
      exact List.mem_append_right _ (List.mem_singleton_self _)
    rw [heq]
    refine ih (h.edit ht hadd) (ht.addFile hd rfl) ((hb.addFile hd rfl).entry hnext) hdir
      (fun p hp => hcs p (List.mem_cons_of_mem _ hp)) (tryGetEntry_eq_ok.2 ⟨hdir.live, ?_⟩)
    rw [hempty]
    rfl

/-- An entry that is neither a directory nor a link. -/
def Plain (fs : FS) (d : FileId) (c : Str) : Prop :=
  ∃ e file, fs.tryGetEntry d c = .ok (some e) ∧ fs.files.get? e = some file ∧ file.isDirectory = false ∧ file.link? = none

/-- The walk from a directory over components comes to a file that is neither a directory nor a link. -/
def BlockedFrom (fs : FS) (d : FileId) (cs : List Str) : Prop := fs.Meets fs.Plain d cs

theorem not_plain_of_directory (h : fs.tryGetSubDirectory d c = .ok (some x)) : ¬ fs.Plain d c := by
  rintro ⟨e, file, hentry, hfile, hdir, -⟩
  obtain ⟨hentry', directory, hdirectory, hisdir⟩ := tryGetSubDirectory_eq_some.1 h
  obtain rfl := Option.some.inj (Except.ok.inj (hentry.symm.trans hentry'))
  obtain rfl := Option.some.inj (hfile.symm.trans hdirectory)
  rw [hdir] at hisdir
  cases hisdir

theorem not_plain_of_link {link : Str} (h : fs.tryGetLink d c = .ok (some link)) : ¬ fs.Plain d c := by
  rintro ⟨e, file, hentry, hfile, -, hplain⟩
  obtain ⟨e', file', hentry', hfile', hlink⟩ := tryGetLink_some h
  obtain rfl := Option.some.inj (Except.ok.inj (hentry.symm.trans hentry'))
  obtain rfl := Option.some.inj (hfile.symm.trans hfile')
  rw [hplain] at hlink
  cases hlink

theorem Below.subdir (h : fs.Below n d) (hsub : fs.tryGetSubDirectory d c = .ok (some x)) : fs.Below (n + 1) x :=
  h.entry (tryGetEntry_some (tryGetSubDirectory_eq_some.1 hsub).1).1

/-- What a walk reaches is below the root. -/
theorem Reaches.isBelow {rest : List Str} (h : fs.Reaches d cs x rest) (hd : ∃ n, fs.Below n d) : ∃ n, fs.Below n x := by
  induction h with
  | here d cs => exact hd
  | subdir hsub _ ih =>
    obtain ⟨n, hn⟩ := hd
    exact ih ⟨n + 1, hn.subdir hsub⟩
  | link _ _ _ _ htarget ih => exact ih (htarget ⟨0, .root⟩)

/-- Behind a directory a walk comes to what it comes to from there. -/
theorem meets_of_directory {P : FileId → Str → Prop} (hsub : fs.tryGetSubDirectory d c = .ok (some x)) (hP : ¬ P d c) :
    fs.Meets P d (c :: cs) ↔ fs.Meets P x cs := by
  constructor
  · intro h
    rcases h.cases with h | ⟨y, hy, h⟩ | ⟨link, path, y, hlink, -, -, -⟩
    · exact absurd h hP
    · obtain rfl := Option.some.inj (Except.ok.inj (hsub.symm.trans hy))
      exact h
    · rw [tryGetSubDirectory_of_link hlink] at hsub
      cases hsub
  · exact fun h => h.subdir hsub

/-- Where a component leads nowhere, a walk comes to nothing behind it. -/
theorem meets_of_none {P : FileId → Str → Prop} (hsub : fs.tryGetSubDirectory d c = .ok none)
    (hlink : fs.tryGetLink d c = .ok none) : fs.Meets P d (c :: cs) ↔ P d c := by
  constructor
  · intro h
    rcases h.cases with h | ⟨y, hy, -⟩ | ⟨link, path, y, hy, -, -, -⟩
    · exact h
    · rw [hsub] at hy
      cases hy
    · rw [hlink] at hy
      cases hy
  · exact Meets.here

/-- `ensurePathImpl` fails for a bad reason exactly if a link that it asks for does, or a file is in its way. -/
theorem Follows.ensureFrom_avoids_iff (hr : fs.Follows bad (fs.resolveSymlink depth)) (h : fs.Placed) (ht : fs.Tree)
    (hb : fs.Below n d) (hd : fs.IsDir d) (hcs : ∀ c ∈ cs, Component c) :
    Avoids bad (ensureFrom host depth fs d cs) ↔
      (∀ link, fs.AskedFrom d cs link → Avoids bad (fs.resolveSymlink depth link)) ∧
        (bad .verification → ¬ fs.BlockedFrom d cs) := by
  induction cs generalizing d n with
  | nil => exact ⟨fun _ => ⟨fun _ hasked => absurd hasked not_meets_nil, fun _ => not_meets_nil⟩, fun _ => trivial⟩
  | cons c cs ih =>
    have hcs' : ∀ c ∈ cs, Component c := fun c hc => hcs c (List.mem_cons_of_mem _ hc)
    cases ht.found hd c with
    | directory x hsub hlink =>
      have hasked : ∀ link, fs.AskedFrom d (c :: cs) link ↔ fs.AskedFrom x cs link := by
        intro link
        refine meets_of_directory hsub fun hget => ?_
        rw [hlink] at hget
        cases hget
      have hblocked : fs.BlockedFrom d (c :: cs) ↔ fs.BlockedFrom x cs := meets_of_directory hsub (not_plain_of_directory hsub)
      rw [ensureFrom_of_directory hsub, ih (hb.subdir hsub) (tryGetSubDirectory_eq_some.1 hsub).2 hcs', hblocked]
      simp only [hasked]
    | symlink link hsub hlink =>
      have honward : ∀ {P : FileId → Str → Prop}, fs.Meets P d (c :: cs) → P d c ∨
          ∃ path x, targetPath link = .ok path ∧ fs.Reaches fs.root path.components x [] ∧ fs.Meets P x cs := by
        intro P hmeets
        rcases hmeets.cases with hP | ⟨x, hx, -⟩ | ⟨link', path, x, hlink', hpath, htarget, hmeets⟩
        · exact .inl hP
        · rw [hsub] at hx
          cases hx
        · obtain rfl := Option.some.inj (Except.ok.inj (hlink.symm.trans hlink'))
          exact .inr ⟨path, x, hpath, htarget, hmeets⟩
      rw [ensureFrom_of_link hlink, avoids_bind_iff]
      constructor
      · rintro ⟨hends, htail⟩
        have hnext : ∀ path x, targetPath link = .ok path → fs.Reaches fs.root path.components x [] →
            (∀ link', fs.AskedFrom x cs link' → Avoids bad (fs.resolveSymlink depth link')) ∧
              (bad .verification → ¬ fs.BlockedFrom x cs) := by
          intro path x hpath htarget
          have hxdir := htarget.isDir ht.rootDir ht.rootDir
          obtain ⟨k, hbelow⟩ := htarget.isBelow ⟨0, .root⟩
          obtain ⟨directory, hdir, hdirectory⟩ := hxdir
          have hrest := htail (some x) (hr.complete link path x hpath htarget hends)
          rw [ensureTarget_of_file hdir, if_pos hdirectory] at hrest
          exact (ih hbelow ⟨directory, hdir, hdirectory⟩ hcs').1 hrest
        refine ⟨fun link' hasked => ?_, fun hbad hblocked => ?_⟩
        · rcases honward hasked with hget | ⟨path, x, hpath, htarget, hasked⟩
          · obtain rfl := Option.some.inj (Except.ok.inj (hlink.symm.trans hget))
            exact hends
          · exact (hnext path x hpath htarget).1 link' hasked
        · rcases honward hblocked with hplain | ⟨path, x, hpath, htarget, hblocked⟩
          · exact not_plain_of_link hlink hplain
          · exact (hnext path x hpath htarget).2 hbad hblocked
      · rintro ⟨hasked, hblocked⟩
        refine ⟨hasked link (Meets.here hlink), ?_⟩
        intro r hresolve
        cases r with
        | none => trivial
        | some x =>
          obtain ⟨file, hfile⟩ := hr.live link x hresolve
          rw [ensureTarget_of_file hfile]
          split
          · next hdirectory =>
            obtain ⟨path, hpath, htarget⟩ := hr.sound link x hresolve ⟨file, hfile, hdirectory⟩
            obtain ⟨k, hbelow⟩ := htarget.isBelow ⟨0, .root⟩
            refine (ih hbelow ⟨file, hfile, hdirectory⟩ hcs').2 ⟨fun link' h => ?_, fun hbad h => ?_⟩
            · exact hasked link' (Meets.through hlink hpath htarget h)
            · exact hblocked hbad (Meets.through hlink hpath htarget h)
          · trivial
    | other e file hsub hlink hentry hfile hdir hplain =>
      rw [ensureFrom_of_other hsub hlink hentry]
      have hblocked : fs.BlockedFrom d (c :: cs) := (meets_of_none hsub hlink).2 ⟨e, file, hentry, hfile, hdir, hplain⟩
      refine ⟨fun hends => ⟨?_, fun hbad => absurd hbad hends⟩, fun hends hbad => hends.2 hbad hblocked⟩
      intro link hasked
      have hget := (meets_of_none hsub hlink).1 hasked
      rw [hlink] at hget
      cases hget
    | missing hsub hlink hentry =>
      obtain ⟨r, heq⟩ := ensureFrom_of_vacant host depth h ht hb hd hcs hentry
      rw [heq]
      refine ⟨fun _ => ⟨fun link hasked => ?_, fun _ hblocked => ?_⟩, fun _ => trivial⟩
      · have hget := (meets_of_none hsub hlink).1 hasked
        rw [hlink] at hget
        cases hget
      · obtain ⟨e, file, hget, -⟩ := (meets_of_none hsub hlink).1 hblocked
        rw [hentry] at hget
        cases hget

end FS

namespace FileState

open FS

theorem admitted_named (host : HostFiles) (depth : Nat) (fs : FS) (call : FileCall) : Admitted Named host depth fs call := by
  cases call with
  | «open» path accessMode creationFlags statusFlags => exact fun _ _ _ => admits_named fs host depth path
  | rename oldpath newpath => exact fun fs1 _ _ => admits_named fs1 host depth newpath
  | readlink path bufferSize => exact fun _ => admits_named fs host depth path
  | resetProcFS pid program =>
    have hproc : Component PROC := by decide
    refine ⟨hproc, fun fs1 _ _ => admits_named fs1 host depth procSelf, fun _ fs2 _ _ _ => ?_⟩
    exact admits_named fs2 host depth (procExe pid)
  | _ => exact trivial

/-- In every state of every run the entries know their directories. -/
theorem reachable_placed {depth : Nat} {s : FileState} (h : (machine depth).Reachable s) : s.fs.Placed := by
  have hkeep : s.fs.Tree ∧ s.fs.Placed := by
    refine h.invariant (fun s => s.fs.Tree ∧ s.fs.Placed) (fun s hnew => ?_) fun s a s' hs hstep => ?_
    · refine ⟨(tree_of_isNew hnew).1, ?_⟩
      obtain ⟨⟨host, ttypath, hfs⟩, -, -⟩ := hnew
      exact bare_placed.changes bare_tree (new_edits (δ := fun _ _ => True) allows_named hfs).changes
    · obtain ⟨answer, hact⟩ := step_some hstep
      have hchanges : Changes Named (fun _ _ => True) s.fs s'.fs :=
        act_changes allows_named (fun _ _ => trivial) hs.1 (fun _ call _ => admitted_named a.1 depth s.fs call) hact
      exact ⟨hs.1.changes hchanges, hs.2.changes hs.1 hchanges⟩
  exact hkeep.2

end FileState

end X64Emulator
