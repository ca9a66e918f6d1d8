import X64Emulator.Lemmas.FileCalls

/-!
# Lookups while the tree grows

What a lookup finds it still finds after entries are added behind those that are there. The directories that `ensurePathImpl`
makes are a chain below the first place where a component is missing, and nothing else of the tree changes.
-/

namespace X64Emulator

open Outcome

namespace FS

variable {fs fs' fs'' : FS} {host : HostFiles} {depth : Nat} {f d e x : FileId} {name c : Str} {file : File} {path : Path}
  {cs : List Str} {resolve resolve' : Str → Except FsFailure (Option FileId)}

/-! ## Entries -/

/-- No directory holds two entries with the same name. -/
def NamesUnique (fs : FS) : Prop := ∀ d, ((fs.entries d).map fs.nameOf).Nodup

/-- The first entry is the one that is found, if it has the name. -/
theorem findEntry_cons {es : List FileId} (hfile : fs.files.get? x = some file) :
    fs.findEntry name (x :: es) = if file.name = name then .ok (some x) else fs.findEntry name es := by
  rw [findEntry, file_eq_ok.2 hfile]
  rfl

/-- Where all entries exist and none has the name, nothing is found. -/
theorem findEntry_eq_none {es : List FileId} (hl : ∀ e ∈ es, fs.files.Live e) (hv : ∀ e ∈ es, fs.nameOf e ≠ some name) :
    fs.findEntry name es = .ok none := by
  induction es with
  | nil => rfl
  | cons x es ih =>
    obtain ⟨file, hfile⟩ := hl x List.mem_cons_self
    have hne : file.name ≠ name := fun h => hv x List.mem_cons_self (by rw [nameOf, hfile, Option.map_some, h])
    rw [findEntry_cons hfile, if_neg hne]
    exact ih (fun e he => hl e (List.mem_cons_of_mem _ he)) fun e he => hv e (List.mem_cons_of_mem _ he)

theorem Tree.tryGetEntry_eq_none (ht : fs.Tree) (hd : fs.files.Live d) (hv : fs.Vacant d name) :
    fs.tryGetEntry d name = .ok none :=
  tryGetEntry_eq_ok.2 ⟨hd, findEntry_eq_none (fun e he => ht.live d e he) hv⟩

/-- A search among entries that exist does not fail. -/
theorem findEntry_ne_error {es : List FileId} (hl : ∀ e ∈ es, fs.files.Live e) {err : FsFailure} :
    fs.findEntry name es ≠ .error err := by
  induction es with
  | nil => exact fun h => nomatch h
  | cons x es ih =>
    obtain ⟨file, hfile⟩ := hl x List.mem_cons_self
    rw [findEntry_cons hfile]
    split
    · exact fun h => nomatch h
    · exact ih fun e he => hl e (List.mem_cons_of_mem _ he)

/-- The first entry with a name is found whatever comes behind it. -/
theorem findEntry_append {es es' : List FileId} (h : fs.findEntry name es = .ok (some e)) :
    fs.findEntry name (es ++ es') = .ok (some e) := by
  induction es with
  | nil => cases h
  | cons x es ih =>
    obtain ⟨file, hfile, h⟩ := bind_eq_ok.1 h
    rw [List.cons_append, findEntry_cons (file_eq_ok.1 hfile)]
    split at h
    · next hname => exact (if_pos hname).trans h
    · next hname => exact (if_neg hname).trans (ih h)

/-- Behind entries without the name, the entry that has it is found. -/
theorem findEntry_last {es : List FileId} (hl : ∀ e ∈ es, fs.files.Live e) (hv : ∀ e ∈ es, fs.nameOf e ≠ some name)
    (hf : fs.nameOf f = some name) : fs.findEntry name (es ++ [f]) = .ok (some f) := by
  induction es with
  | nil =>
    unfold nameOf at hf
    rw [Option.map_eq_some_iff] at hf
    obtain ⟨file, hfile, hname⟩ := hf
    rw [List.nil_append, findEntry_cons hfile, if_pos hname]
  | cons x es ih =>
    obtain ⟨file, hfile⟩ := hl x List.mem_cons_self
    have hne : file.name ≠ name := fun h => hv x List.mem_cons_self (by rw [nameOf, hfile, Option.map_some, h])
    rw [List.cons_append, findEntry_cons hfile, if_neg hne]
    exact ih (fun e he => hl e (List.mem_cons_of_mem _ he)) fun e he => hv e (List.mem_cons_of_mem _ he)

/-- A search depends on the names of the entries only. -/
theorem findEntry_congr {es : List FileId} (hn : ∀ e ∈ es, fs'.nameOf e = fs.nameOf e) {r : Option FileId}
    (h : fs.findEntry name es = .ok r) : fs'.findEntry name es = .ok r := by
  induction es generalizing r with
  | nil => exact h
  | cons x es ih =>
    obtain ⟨file, hfile, h⟩ := bind_eq_ok.1 h
    rw [file_eq_ok] at hfile
    have hx := hn x List.mem_cons_self
    rw [nameOf, nameOf, hfile, Option.map_some, Option.map_eq_some_iff] at hx
    obtain ⟨file', hfile', hname'⟩ := hx
    rw [findEntry_cons hfile', hname']
    split at h
    · next hname => exact (if_pos hname).trans h
    · next hname => exact (if_neg hname).trans (ih (fun e he => hn e (List.mem_cons_of_mem _ he)) h)

/-! ## Growing -/

/-- What a lookup finds it still finds, and directories and links are what they were. -/
structure Grows (fs fs' : FS) : Prop where
  root : fs'.root = fs.root
  file : ∀ q file, fs.files.get? q = some file →
    ∃ file', fs'.files.get? q = some file' ∧ file'.isDirectory = file.isDirectory ∧ file'.link? = file.link?
  entry : ∀ d name e, fs.tryGetEntry d name = .ok (some e) → fs'.tryGetEntry d name = .ok (some e)

theorem Grows.refl (fs : FS) : fs.Grows fs := ⟨rfl, fun _ file h => ⟨file, h, rfl, rfl⟩, fun _ _ _ h => h⟩

theorem Grows.trans (h : fs.Grows fs') (h' : fs'.Grows fs'') : fs.Grows fs'' := by
  refine ⟨h'.root.trans h.root, fun q file hfile => ?_, fun d name e he => h'.entry d name e (h.entry d name e he)⟩
  obtain ⟨file1, hfile1, hdir1, hlink1⟩ := h.file q file hfile
  obtain ⟨file2, hfile2, hdir2, hlink2⟩ := h'.file q file1 hfile1
  exact ⟨file2, hfile2, hdir2.trans hdir1, hlink2.trans hlink1⟩

theorem Grows.live (h : fs.Grows fs') (hf : fs.files.Live f) : fs'.files.Live f := by
  obtain ⟨file, hfile⟩ := hf
  obtain ⟨file', hfile', -⟩ := h.file f file hfile
  exact ⟨file', hfile'⟩

theorem Grows.isDir (h : fs.Grows fs') (hd : fs.IsDir d) : fs'.IsDir d := by
  obtain ⟨directory, hdir, hdirectory⟩ := hd
  obtain ⟨directory', hdir', hdirectory', -⟩ := h.file d directory hdir
  exact ⟨directory', hdir', hdirectory'.trans hdirectory⟩

/-- Entries behind those that are there. -/
theorem Grows.of_entries (hroot : fs'.root = fs.root)
    (hfile : ∀ q file, fs.files.get? q = some file →
      ∃ file', fs'.files.get? q = some file' ∧ file'.isDirectory = file.isDirectory ∧ file'.link? = file.link?)
    (hn : ∀ d e, e ∈ fs.entries d → fs'.nameOf e = fs.nameOf e)
    (he : ∀ d, ∃ es, fs'.entries d = fs.entries d ++ es) : fs.Grows fs' := by
  refine ⟨hroot, hfile, fun d name e h => ?_⟩
  obtain ⟨⟨directory, hdir⟩, hfind⟩ := tryGetEntry_eq_ok.1 h
  obtain ⟨directory', hdir', -⟩ := hfile d directory hdir
  obtain ⟨es, hes⟩ := he d
  exact tryGetEntry_eq_ok.2 ⟨⟨directory', hdir'⟩, hes ▸ findEntry_append (findEntry_congr (hn d) hfind)⟩

/-- A link is not a directory. -/
theorem File.not_isDirectory_of_link {link : Str} (h : file.link? = some link) : file.isDirectory = false := by
  unfold File.link? at h
  unfold File.isDirectory
  split at h
  · next hk => rw [hk]
  · cases h

theorem Grows.enter (h : fs.Grows fs') (hr : ∀ link t, resolve link = .ok (some t) → resolve' link = .ok (some t))
    (he : fs.enter resolve d c = .ok (some e)) : fs'.enter resolve' d c = .ok (some e) := by
  rw [enter_eq_some] at he ⊢
  rcases he with he | ⟨-, link, hlink, htarget, hdir⟩
  · rw [tryGetSubDirectory_eq_some] at he ⊢
    exact .inl ⟨h.entry d c e he.1, h.isDir he.2⟩
  · obtain ⟨x, file, hx, hfile, hfilelink⟩ := tryGetLink_some hlink
    obtain ⟨file', hfile', -, hlink'⟩ := h.file x file hfile
    have hfilelink' := hlink'.trans hfilelink
    refine .inr ⟨tryGetSubDirectory_eq_ok.2 (.inr ⟨x, file', h.entry d c x hx, hfile', ?_⟩), link, ?_, hr _ _ htarget, h.isDir hdir⟩
    · rw [File.not_isDirectory_of_link hfilelink']
      rfl
    · exact tryGetLink_of (h.entry d c x hx) hfile' hfilelink'

theorem Grows.enterDirectory (h : fs.Grows fs') (he : fs.tryGetSubDirectory d c = .ok (some e)) :
    fs'.enter resolve d c = .ok (some e) := by
  obtain ⟨hentry, hdir⟩ := tryGetSubDirectory_eq_some.1 he
  exact enter_eq_some.2 (.inl (tryGetSubDirectory_eq_some.2 ⟨h.entry d c e hentry, h.isDir hdir⟩))

theorem walk_cons : fs.walk resolve d (c :: cs) = .ok (some e) ↔
    ∃ x, fs.enter resolve d c = .ok (some x) ∧ fs.walk resolve x cs = .ok (some e) := by
  rw [walk, bind_eq_ok]
  constructor
  · rintro ⟨r, hr, h⟩
    cases r with
    | none => cases h
    | some x => exact ⟨x, hr, h⟩
  · rintro ⟨x, hx, h⟩
    exact ⟨some x, hx, h⟩

theorem Grows.walk (h : fs.Grows fs') (hr : ∀ link t, resolve link = .ok (some t) → resolve' link = .ok (some t))
    (hw : fs.walk resolve d cs = .ok (some e)) : fs'.walk resolve' d cs = .ok (some e) := by
  induction cs generalizing d with
  | nil => exact hw
  | cons c cs ih =>
    obtain ⟨x, hx, hw⟩ := walk_cons.1 hw
    exact walk_cons.2 ⟨x, h.enter hr hx, ih hw⟩

/-- What is found at a path: the root, or the entry in the directory that the other components lead to, or what its link leads
to. -/
theorem lookupIn_eq_some {follow : FollowSymlink} : fs.lookupIn resolve path follow = .ok (some e) ↔
    (path.components = [] ∧ e = fs.root) ∨
    (∃ last dir entry file, path.components.getLast? = some last ∧
      fs.walk resolve fs.root path.components.dropLast = .ok (some dir) ∧ fs.tryGetEntry dir last = .ok (some entry) ∧
      fs.files.get? entry = some file ∧
      ((∃ link, file.link? = some link ∧ follow = .YES ∧ resolve link = .ok (some e)) ∨
        ((file.link? = none ∨ follow = .NO) ∧ entry = e))) := by
  unfold lookupIn
  cases hlast : path.components.getLast? with
  | none =>
    rw [List.getLast?_eq_none_iff] at hlast
    simp only [hlast, Except.ok.injEq, Option.some.injEq, true_and]
    constructor
    · exact fun h => .inl h.symm
    · rintro (h | ⟨last, dir, entry, file, h, -⟩)
      · exact h.symm
      · cases h
  | some last =>
    have hne : path.components ≠ [] := fun h => by rw [h] at hlast; cases hlast
    dsimp only
    rw [bind_eq_ok]
    constructor
    · rintro ⟨dir, hdir, h⟩
      cases dir with
      | none => cases h
      | some dir =>
        obtain ⟨entry, hentry, h⟩ := bind_eq_ok.1 h
        cases entry with
        | none => cases h
        | some entry =>
          obtain ⟨file, hfile, h⟩ := bind_eq_ok.1 h
          refine .inr ⟨last, dir, entry, file, rfl, hdir, hentry, file_eq_ok.1 hfile, ?_⟩
          cases hlink : file.link? with
          | none =>
            rw [hlink] at h
            exact .inr ⟨.inl rfl, Option.some.inj (Except.ok.inj h)⟩
          | some link =>
            rw [hlink] at h
            cases follow with
            | NO => exact .inr ⟨.inr rfl, Option.some.inj (Except.ok.inj h)⟩
            | YES => exact .inl ⟨link, rfl, rfl, h⟩
    · rintro (⟨h, -⟩ | ⟨last', dir, entry, file, hlast', hdir, hentry, hfile, h⟩)
      · exact absurd h hne
      · obtain rfl := Option.some.inj hlast'
        refine ⟨some dir, hdir, bind_eq_ok.2 ⟨some entry, hentry, bind_eq_ok.2 ⟨file, file_eq_ok.2 hfile, ?_⟩⟩⟩
        rcases h with ⟨link, hlink, rfl, hresolve⟩ | ⟨hno, rfl⟩
        · rw [hlink]
          exact hresolve
        · rcases hno with hno | rfl
          · rw [hno]
          · cases file.link? <;> rfl

theorem Grows.lookupIn (h : fs.Grows fs') (hr : ∀ link t, resolve link = .ok (some t) → resolve' link = .ok (some t))
    {follow : FollowSymlink} (he : fs.lookupIn resolve path follow = .ok (some e)) :
    fs'.lookupIn resolve' path follow = .ok (some e) := by
  rw [lookupIn_eq_some] at he ⊢
  rcases he with ⟨hnil, rfl⟩ | ⟨last, dir, entry, file, hlast, hdir, hentry, hfile, he⟩
  · exact .inl ⟨hnil, h.root.symm⟩
  · obtain ⟨file', hfile', -, hlink'⟩ := h.file entry file hfile
    refine .inr ⟨last, dir, entry, file', hlast, h.root ▸ h.walk hr hdir, h.entry _ _ _ hentry, hfile', ?_⟩
    rw [hlink']
    rcases he with ⟨link, hlink, hfollow, hresolve⟩ | he
    · exact .inl ⟨link, hlink, hfollow, hr _ _ hresolve⟩
    · exact .inr he

/-- What a link leads to it still leads to. -/
theorem Grows.resolveSymlink (h : fs.Grows fs') {link : Str} {t : FileId} (hr : fs.resolveSymlink depth link = .ok (some t)) :
    fs'.resolveSymlink depth link = .ok (some t) := by
  induction depth generalizing link t with
  | zero => cases hr
  | succ depth ih =>
    rw [FS.resolveSymlink] at hr ⊢
    split at hr
    · cases hr
    · next hne =>
      rw [if_neg hne]
      obtain ⟨path, hpath, hr⟩ := bind_eq_ok.1 hr
      exact bind_eq_ok.2 ⟨path, hpath, h.lookupIn (fun link t => ih) hr⟩

theorem Grows.tryGetFile (h : fs.Grows fs') {follow : FollowSymlink} (he : fs.tryGetFile depth path follow = .ok (some e)) :
    fs'.tryGetFile depth path follow = .ok (some e) := h.lookupIn (fun _ _ => h.resolveSymlink) he

/-! ## Where the directories of a path are made -/

theorem nameOf_modifyFile {g : File → File} (hg : ∀ file, (g file).name = file.name) (q : FileId) :
    (fs.modifyFile f g).nameOf q = fs.nameOf q := by
  unfold nameOf
  rw [get?_modifyFile]
  split
  · cases fs.files.get? q with
    | none => rfl
    | some file => exact congrArg some (hg file)
  · rfl

theorem nameOf_attach (q : FileId) : (fs.attach d f).nameOf q = fs.nameOf q := by
  unfold attach
  rw [nameOf_modifyFile, nameOf_modifyFile]
  · exact fun _ => File.name_withEntries
  · exact fun _ => rfl

theorem nameOf_addFile (q : FileId) :
    (fs.addFile d file).1.nameOf q = if q = fs.files.next then some file.name else fs.nameOf q := by
  rw [addFile_eq, nameOf_attach, nameOf, get?_allocFile]
  split <;> rfl

theorem nameOf_addFile_of_live (hl : fs.files.Live f) : (fs.addFile d file).1.nameOf f = fs.nameOf f := by
  rw [nameOf_addFile, if_neg (Nat.ne_of_lt hl.lt_next)]

theorem Tree.addFile (ht : fs.Tree) (hd : fs.IsDir d) (hfile : file.entries = []) : (fs.addFile d file).1.Tree :=
  ht.enter ht.loose_next (entries_addFile hd hfile) (fun _ hq => live_addFile.2 hq) rfl rfl ht.rootDir.addFile

theorem Tree.grows_addFile (ht : fs.Tree) (hd : fs.IsDir d) (file : File) (hfile : file.entries = []) : fs.Grows (fs.addFile d file).1 := by
  refine .of_entries rfl (fun q old hold => ?_) (fun q e he => nameOf_addFile_of_live (ht.live q e he)) fun q => ?_
  · have hne : q ≠ fs.files.next := Nat.ne_of_lt (Heap.Live.lt_next ⟨old, hold⟩)
    obtain ⟨g, hg, hsame⟩ := get?_attach (fs.allocFile file) d fs.files.next q
    rw [get?_allocFile, if_neg hne, hold] at hg
    exact ⟨g old, hg, (hsame old).2.2.1, (hsame old).2.2.2.1⟩
  · rw [entries_addFile hd hfile]
    split
    · exact ⟨_, rfl⟩
    · exact ⟨[], (List.append_nil _).symm⟩

/-- A file that is added where its name is vacant is found there. -/
theorem Tree.tryGetEntry_addFile (ht : fs.Tree) (hd : fs.IsDir d) (file : File) (hfile : file.entries = []) (hv : fs.Vacant d file.name) :
    (fs.addFile d file).1.tryGetEntry d file.name = .ok (some fs.files.next) := by
  refine tryGetEntry_eq_ok.2 ⟨hd.addFile.live, ?_⟩
  rw [entries_addFile hd hfile, if_pos rfl]
  refine findEntry_last (fun e he => live_addFile.2 (.inr (ht.live d e he))) (fun e he => ?_) ?_
  · rw [nameOf_addFile_of_live (ht.live d e he)]
    exact hv e he
  · rw [nameOf_addFile, if_pos rfl]

/-- Directories are made below an empty one, a chain with one for each component. -/
structure Built (fs : FS) (d : FileId) (cs : List Str) (fs' : FS) (e : FileId) : Prop where
  tree : fs'.Tree
  grows : fs.Grows fs'
  empty : fs'.entries e = []
  isDir : fs'.IsDir e
  others : ∀ q, fs.files.Live q → q ≠ d → fs'.entries q = fs.entries q
  names : ∀ q, fs.files.Live q → fs'.nameOf q = fs.nameOf q
  walk : ∀ resolve, fs'.walk resolve d cs = .ok (some e)
  fresh : e = d ∨ ¬ fs.files.Live e

theorem enter_of_empty (hd : fs.IsDir d) (hempty : fs.entries d = []) : fs.enter resolve d c ≠ .ok (some x) := by
  intro h
  have hnone : fs.tryGetEntry d c = .ok none := tryGetEntry_eq_ok.2 ⟨hd.live, hempty ▸ rfl⟩
  rcases enter_eq_some.1 h with h | ⟨-, link, hlink, -⟩
  · have hx := (tryGetSubDirectory_some h).1
    rw [hnone] at hx
    cases hx
  · obtain ⟨e, file, he, -⟩ := tryGetLink_some hlink
    rw [hnone] at he
    cases he

/-- Below an empty directory every component is missing. -/
theorem ensureFrom_built (hcs : ∀ c ∈ cs, Component c) (ht : fs.Tree) (hd : fs.IsDir d) (hempty : fs.entries d = [])
    (h : ensureFrom host depth fs d cs = .ok (fs', some e)) : Built fs d cs fs' e := by
  induction cs generalizing fs d with
  | nil =>
    obtain ⟨rfl, he⟩ := ok_pair h
    obtain rfl := Option.some.inj he
    exact ⟨ht, .refl _, hempty, hd, fun _ _ _ => rfl, fun _ _ => rfl, fun _ => rfl, .inl rfl⟩
  | cons c cs ih =>
    have hcs' : ∀ c ∈ cs, Component c := fun c hc => hcs c (List.mem_cons_of_mem _ hc)
    rcases ensureFrom_cons (hcs c List.mem_cons_self) h with ⟨x, hx, -⟩ | ⟨cls, hvacant, h⟩ | ⟨hnone, -⟩
    · exact absurd hx (enter_of_empty hd hempty)
    · have hb := ih hcs' (ht.addFile hd rfl) isDir_addFile_next (entries_addFile_next hd rfl) h
      have hgrows := ht.grows_addFile hd (.new c (.directory cls [])) rfl
      have hentry := ht.tryGetEntry_addFile hd (.new c (.directory cls [])) rfl (tryGetEntry_none hvacant)
      have hnext : ∀ q, fs.files.Live q → q ≠ fs.files.next := fun q hq => Nat.ne_of_lt hq.lt_next
      refine ⟨hb.tree, hgrows.trans hb.grows, hb.empty, hb.isDir, fun q hq hne => ?_, fun q hq => ?_, fun resolve => ?_, .inr fun he => ?_⟩
      · rw [hb.others q (live_addFile.2 (.inr hq)) (hnext q hq), entries_addFile hd rfl, if_neg hne]
      · rw [hb.names q (live_addFile.2 (.inr hq)), nameOf_addFile_of_live hq]
      · exact walk_cons.2 ⟨fs.files.next,
          hb.grows.enterDirectory (tryGetSubDirectory_eq_some.2 ⟨hentry, isDir_addFile_next⟩), hb.walk resolve⟩
      · rcases hb.fresh with rfl | hfresh
        · exact hnext _ he rfl
        · exact hfresh (live_addFile.2 (.inr he))
    · cases hnone

/-- The directories of a path are all there, or they are made below the first place where one is missing: the place is in a
directory `x` that the path leads to, and a single entry `c` is added to the directories that were there. -/
inductive Ensured (depth : Nat) (fs : FS) (d : FileId) (cs : List Str) (fs' : FS) (e : FileId) : Prop where
  | there (same : fs' = fs) (walk : fs.walk (fs.resolveSymlink depth) d cs = .ok (some e))
  | made (pre post : List Str) (c : Str) (x n : FileId) (split : cs = pre ++ c :: post)
      (walk : fs.walk (fs.resolveSymlink depth) d pre = .ok (some x)) (vacant : fs.tryGetEntry x c = .ok none)
      (here : fs'.entries x = fs.entries x ++ [n]) (name : fs'.nameOf n = some c)
      (others : ∀ q, fs.files.Live q → q ≠ x → fs'.entries q = fs.entries q)
      (names : ∀ q, fs.files.Live q → fs'.nameOf q = fs.nameOf q) (grows : fs.Grows fs')
      (reached : fs'.walk (fs'.resolveSymlink depth) d cs = .ok (some e)) (empty : fs'.entries e = [])
      (fresh : ¬ fs.files.Live e)

theorem ensureFrom_ensured (hcs : ∀ c ∈ cs, Component c) (ht : fs.Tree) (hd : fs.IsDir d)
    (h : ensureFrom host depth fs d cs = .ok (fs', some e)) : Ensured depth fs d cs fs' e := by
  induction cs generalizing d with
  | nil =>
    obtain ⟨rfl, he⟩ := ok_pair h
    obtain rfl := Option.some.inj he
    exact .there rfl rfl
  | cons c cs ih =>
    have hcs' : ∀ c ∈ cs, Component c := fun c hc => hcs c (List.mem_cons_of_mem _ hc)
    rcases ensureFrom_cons (hcs c List.mem_cons_self) h with ⟨x, hx, hxdir, h⟩ | ⟨cls, hvacant, h⟩ | ⟨hnone, -⟩
    · cases ih hcs' hxdir h with
      | there same walk => exact .there same (walk_cons.2 ⟨x, hx, walk⟩)
      | made pre post c' y n split walk vacant here name others names grows reached empty fresh =>
        refine .made (c :: pre) post c' y n (by rw [split, List.cons_append]) (walk_cons.2 ⟨x, hx, walk⟩) vacant here name others
          names grows (walk_cons.2 ⟨x, ?_, reached⟩) empty fresh
        exact grows.enter (fun _ _ => grows.resolveSymlink) hx
    · have hb := ensureFrom_built hcs' (ht.addFile hd rfl) isDir_addFile_next (entries_addFile_next hd rfl) h
      have hgrows := ht.grows_addFile hd (.new c (.directory cls [])) rfl
      have hentry := ht.tryGetEntry_addFile hd (.new c (.directory cls [])) rfl (tryGetEntry_none hvacant)
      have hnext : ∀ q, fs.files.Live q → q ≠ fs.files.next := fun q hq => Nat.ne_of_lt hq.lt_next
      refine .made [] cs c d fs.files.next rfl rfl hvacant ?_ ?_ (fun q hq hne => ?_) (fun q hq => ?_) (hgrows.trans hb.grows)
        ?_ hb.empty fun he => ?_
      · rw [hb.others d hd.addFile.live hd.ne_next, entries_addFile hd rfl, if_pos rfl]
      · rw [hb.names _ (live_addFile.2 (.inl rfl)), nameOf_addFile, if_pos rfl]
        rfl
      · rw [hb.others q (live_addFile.2 (.inr hq)) (hnext q hq), entries_addFile hd rfl, if_neg hne]
      · rw [hb.names q (live_addFile.2 (.inr hq)), nameOf_addFile_of_live hq]
      · exact walk_cons.2 ⟨fs.files.next,
          hb.grows.enterDirectory (tryGetSubDirectory_eq_some.2 ⟨hentry, isDir_addFile_next⟩), hb.walk _⟩
      · rcases hb.fresh with rfl | hfresh
        · exact hnext _ he rfl
        · exact hfresh (live_addFile.2 (.inr he))
    · cases hnone

/-- After an operation has made the directories of a path, the last name is vacant exactly when nothing was at the path. -/
theorem vacant_of_tryGetFile_none (ht : fs.Tree) (hname : path.components.getLast? = some name)
    (hnone : ∀ f, fs.tryGetFile depth path .NO ≠ .ok (some f))
    (h : fs.ensurePathExceptLast host depth path = .ok (fs', some e)) : fs'.Vacant e name := by
  have hcs : ∀ c ∈ path.components.dropLast, Component c := fun c hc => path.proper c (List.dropLast_subset _ hc)
  cases ensureFrom_ensured hcs ht ht.rootDir h with
  | there same walk =>
    subst same
    intro x hx hxname
    obtain ⟨file, hfile⟩ := ht.live e x hx
    have hentry : ∃ y, fs'.findEntry name (fs'.entries e) = .ok (some y) := by
      cases hfind : fs'.findEntry name (fs'.entries e) with
      | error err =>
        exact absurd hfind (findEntry_ne_error (fun y hy => ht.live e y hy))
      | ok r =>
        cases r with
        | none => exact absurd hxname (findEntry_none hfind x hx)
        | some y => exact ⟨y, rfl⟩
    obtain ⟨y, hy⟩ := hentry
    obtain ⟨fy, hfy⟩ := ht.live e y (findEntry_some hy).1
    refine hnone y (lookupIn_eq_some.2 (.inr ⟨name, e, y, fy, hname, walk, ?_, hfy, .inr ⟨.inr rfl, rfl⟩⟩))
    exact tryGetEntry_eq_ok.2 ⟨(isDir_of_mem_entries hx).live, hy⟩
  | made pre post c x n split walk vacant here name others names grows reached empty fresh =>
    intro y hy
    rw [empty] at hy
    cases hy

end FS

end X64Emulator
