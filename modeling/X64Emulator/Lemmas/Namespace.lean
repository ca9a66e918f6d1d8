import Mathlib.Data.List.Induction
import Mathlib.Data.List.Nodup
import X64Emulator.Lemmas.FileLookup

/-!
# Names of entries

No change of the tree makes two entries of one directory with the same name, as long as every addition is at a vacant name.
Where the names are unique a lookup finds an entry by its name alone, and a rename moves what is found at the old path to the
new one.
-/

namespace X64Emulator

open Outcome

namespace FS

variable {fs fs' : FS} {host : HostFiles} {depth : Nat} {f d e x : FileId} {name c : Str} {file : File} {path oldpath newpath : Path}
  {cs : List Str} {resolve : Str → Except FsFailure (Option FileId)} {δ : FS → FileId → Prop}

/-! ## Names stay unique -/

theorem SameTree.namesUnique (h : fs.SameTree fs') (hu : fs.NamesUnique) : fs'.NamesUnique := by
  intro q
  have hn : fs'.nameOf = fs.nameOf := funext h.nameOf
  rw [h.entries, hn]
  exact hu q

/-- Fewer entries, with the names they had. -/
theorem NamesUnique.shrink (hu : fs.NamesUnique) (he : ∀ q, (fs'.entries q).Sublist (fs.entries q))
    (hn : ∀ q e, e ∈ fs'.entries q → fs'.nameOf e = fs.nameOf e) : fs'.NamesUnique := by
  intro q
  rw [List.map_congr_left (hn q)]
  exact (hu q).sublist ((he q).map _)

/-- One more entry, at a vacant name. -/
theorem NamesUnique.enter (hu : fs.NamesUnique) (hv : fs.Vacant d name)
    (he : ∀ q, fs'.entries q = if q = d then fs.entries q ++ [e] else fs.entries q)
    (hn : ∀ q x, x ∈ fs.entries q → fs'.nameOf x = fs.nameOf x) (hname : fs'.nameOf e = some name) : fs'.NamesUnique := by
  intro q
  rw [he]
  split
  · next hq =>
    subst hq
    rw [List.map_append, List.map_congr_left (hn q), List.map_singleton, hname, List.nodup_append]
    refine ⟨hu q, by simp, fun y hy z hz => ?_⟩
    obtain ⟨x, hx, rfl⟩ := List.mem_map.1 hy
    rw [List.mem_singleton.1 hz]
    exact hv x hx
  · rw [List.map_congr_left (hn q)]
    exact hu q

theorem entries_take_sublist (hd : fs.IsDir d) (e q : FileId) :
    List.Sublist ((fs.modifyFile d fun directory => directory.withEntries (directory.entries.erase e)).entries q) (fs.entries q) := by
  rw [entries_replace hd (h := fun es => es.erase e)]
  split
  · exact List.erase_sublist
  · exact List.Sublist.refl _

theorem nameOf_renamed (hf : fs.files.Live f) (q : FileId) :
    ((fs.renameFile f d name).attach d f).nameOf q = if q = f then some name else fs.nameOf q := by
  obtain ⟨file, hfile⟩ := hf
  rw [nameOf_attach, renameFile, nameOf, get?_modifyFile]
  split
  · next hq => rw [hq, hfile]; rfl
  · rfl

theorem nameOf_destroy_of_not_mem {q : FileId} (hq : q ∉ fs.doomed f) : (fs.destroy f).nameOf q = fs.nameOf q := by
  rw [nameOf, get?_destroy, if_neg hq, nameOf]

theorem NamesUnique.edit (hu : fs.NamesUnique) (ht : fs.Tree) (h : Edit Vacant δ fs fs') : fs'.NamesUnique := by
  cases h with
  | modify f g hg =>
    refine hu.shrink (fun q => ?_) fun q e _ => ?_
    · rw [entries_modifyFile fun file hf => (hg file hf).entries]
    · unfold nameOf
      rw [get?_modifyFile]
      split
      · next he =>
        subst he
        cases hfile : fs.files.get? e with
        | none => rfl
        | some file => exact congrArg some (hg file hfile).name
      · rfl
  | add d file hd hfile hv =>
    refine hu.enter hv (entries_addFile hd hfile.entries) (fun q x hx => nameOf_addFile_of_live (ht.live q x hx)) ?_
    rw [nameOf_addFile, if_pos rfl]
  | take d e hd =>
    refine hu.shrink (entries_take_sublist hd e) fun q x _ => ?_
    rw [nameOf_modifyFile]
    exact fun _ => File.name_withEntries
  | attach d f name hd hf hloose hv =>
    refine hu.enter hv (entries_renamed hd) (fun q x hx => ?_) ?_
    · rw [nameOf_renamed hf, if_neg]
      rintro rfl
      exact hloose.outside q hx
    · rw [nameOf_renamed hf, if_pos rfl]
  | destroy f hloose _ =>
    have hsub : ∀ q, ((fs.destroy f).entries q).Sublist (fs.entries q) := by
      intro q
      rw [entries_destroy]
      split
      · exact List.nil_sublist _
      · exact List.Sublist.refl _
    refine hu.shrink hsub fun q x hx => nameOf_destroy_of_not_mem ?_
    rw [entries_destroy] at hx
    split at hx
    · cases hx
    · next hq => exact ht.not_mem_doomed hloose hx hq

theorem NamesUnique.change (hu : fs.NamesUnique) (ht : fs.Tree) (h : Change Vacant δ fs fs') : fs'.NamesUnique := by
  cases h with
  | edit h => exact hu.edit ht h
  | same h => exact h.namesUnique hu
  | orphan file hfile =>
    refine hu.shrink (fun q => ?_) fun q x hx => ?_
    · rw [entries_allocOrphan hfile]
    · rw [entries_allocOrphan hfile] at hx
      have hne : x ≠ fs.files.next := Nat.ne_of_lt (ht.live q x hx).lt_next
      exact congrArg (Option.map File.name) ((get?_allocFile x).trans (if_neg hne))
  | dropOrphan f =>
    refine hu.shrink (fun q => ?_) fun q x hx => ?_
    · rw [entries_removeFromOrphans]
      split
      · exact List.nil_sublist _
      · exact List.Sublist.refl _
    · rw [entries_removeFromOrphans] at hx
      split at hx
      · cases hx
      · rw [nameOf, get?_removeFromOrphans, if_neg, nameOf]
        rintro ⟨ho, rfl⟩
        exact ht.orphan x ho q hx

theorem NamesUnique.changes (hu : fs.NamesUnique) (ht : fs.Tree) (h : Changes Vacant δ fs fs') : fs'.NamesUnique := by
  induction h with
  | refl => exact hu
  | tail hbefore hchange ih => exact ih.change (ht.changes hbefore) hchange

/-! ## Lookups by name -/

theorem findEntry_of_mem {es : List FileId} (hl : ∀ e ∈ es, fs.files.Live e) (hu : (es.map fs.nameOf).Nodup) (he : e ∈ es)
    (hname : fs.nameOf e = some name) : fs.findEntry name es = .ok (some e) := by
  cases hfind : fs.findEntry name es with
  | error err => exact absurd hfind (findEntry_ne_error hl)
  | ok r =>
    cases r with
    | none => exact absurd hname (findEntry_none hfind e he)
    | some x =>
      obtain ⟨hx, hxname⟩ := findEntry_some hfind
      rw [List.inj_on_of_nodup_map hu hx he (hxname.trans hname.symm)]

/-- An entry is found by its name. -/
theorem NamesUnique.tryGetEntry_eq_some (hu : fs.NamesUnique) (ht : fs.Tree) :
    fs.tryGetEntry d name = .ok (some e) ↔ e ∈ fs.entries d ∧ fs.nameOf e = some name := by
  constructor
  · exact tryGetEntry_some
  · rintro ⟨he, hname⟩
    exact tryGetEntry_eq_ok.2 ⟨(isDir_of_mem_entries he).live, findEntry_of_mem (fun x hx => ht.live d x hx) (hu d) he hname⟩

/-! ## Walks without links -/

theorem walkDirectories_cons : fs.walkDirectories d (c :: cs) = .ok (some e) ↔
    ∃ x, fs.tryGetSubDirectory d c = .ok (some x) ∧ fs.walkDirectories x cs = .ok (some e) := by
  rw [walkDirectories, bind_eq_ok]
  constructor
  · rintro ⟨r, hr, h⟩
    cases r with
    | none => cases h
    | some x => exact ⟨x, hr, h⟩
  · rintro ⟨x, hx, h⟩
    exact ⟨some x, hx, h⟩

theorem walkDirectories_append {cs' : List Str} : fs.walkDirectories d (cs ++ cs') = .ok (some e) ↔
    ∃ x, fs.walkDirectories d cs = .ok (some x) ∧ fs.walkDirectories x cs' = .ok (some e) := by
  induction cs generalizing d with
  | nil =>
    constructor
    · exact fun h => ⟨d, rfl, h⟩
    · rintro ⟨x, hx, h⟩
      obtain rfl := Option.some.inj (Except.ok.inj hx)
      exact h
  | cons c cs ih =>
    rw [List.cons_append, walkDirectories_cons]
    constructor
    · rintro ⟨y, hy, h⟩
      obtain ⟨x, hx, h⟩ := ih.1 h
      exact ⟨x, walkDirectories_cons.2 ⟨y, hy, hx⟩, h⟩
    · rintro ⟨x, hx, h⟩
      obtain ⟨y, hy, hx⟩ := walkDirectories_cons.1 hx
      exact ⟨y, hy, ih.2 ⟨x, hx, h⟩⟩

theorem walk_of_walkDirectories (h : fs.walkDirectories d cs = .ok (some e)) : fs.walk resolve d cs = .ok (some e) := by
  induction cs generalizing d with
  | nil => exact h
  | cons c cs ih =>
    obtain ⟨x, hx, h⟩ := walkDirectories_cons.1 h
    exact walk_cons.2 ⟨x, enter_eq_some.2 (.inl hx), ih h⟩

/-- The last step of a walk that is not empty. -/
theorem walkDirectories_snoc (h : fs.walkDirectories d (cs ++ [c]) = .ok (some e)) :
    ∃ x, fs.walkDirectories d cs = .ok (some x) ∧ e ∈ fs.entries x ∧ fs.nameOf e = some c := by
  obtain ⟨x, hx, h⟩ := walkDirectories_append.1 h
  obtain ⟨y, hy, h⟩ := walkDirectories_cons.1 h
  obtain rfl := Option.some.inj (Except.ok.inj h)
  exact ⟨x, hx, tryGetEntry_some (tryGetSubDirectory_some hy).1⟩

/-- A directory is reached from the root by one path only: each directory has one owner, and the root has none. -/
theorem Tree.walkDirectories_inj (ht : fs.Tree) {cs' : List Str} (h : fs.walkDirectories fs.root cs = .ok (some d))
    (h' : fs.walkDirectories fs.root cs' = .ok (some d)) : cs = cs' := by
  induction cs using List.reverseRecOn generalizing d cs' with
  | nil =>
    obtain rfl := Option.some.inj (Except.ok.inj h)
    cases cs' using List.reverseRecOn with
    | nil => rfl
    | append_singleton cs' c =>
      obtain ⟨x, -, hmem, -⟩ := walkDirectories_snoc h'
      exact absurd hmem (ht.rootOutside x)
  | append_singleton cs c ih =>
    obtain ⟨x, hx, hmem, hname⟩ := walkDirectories_snoc h
    cases cs' using List.reverseRecOn with
    | nil =>
      obtain rfl := Option.some.inj (Except.ok.inj h')
      exact absurd hmem (ht.rootOutside x)
    | append_singleton cs' c' =>
      obtain ⟨x', hx', hmem', hname'⟩ := walkDirectories_snoc h'
      obtain rfl := ht.owned x x' d hmem hmem'
      rw [ih hx hx', Option.some.inj (hname.symm.trans hname')]

/-! ## Taking an entry -/

/-- The entry at a path, which directories alone lead to. -/
def EntryAt (fs : FS) (path : Path) (f : FileId) : Prop :=
  ∃ dir name, fs.walkDirectories fs.root path.components.dropLast = .ok (some dir) ∧ path.components.getLast? = some name ∧
    fs.tryGetEntry dir name = .ok (some f)

theorem EntryAt.tryGetFile (ht : fs.Tree) (h : fs.EntryAt path f) : fs.tryGetFile depth path .NO = .ok (some f) := by
  obtain ⟨dir, name, hwalk, hname, hentry⟩ := h
  obtain ⟨file, hfile⟩ := ht.live dir f (tryGetEntry_some hentry).1
  exact lookupIn_eq_some.2 (.inr ⟨name, dir, f, file, hname, walk_of_walkDirectories hwalk, hentry, hfile, .inr ⟨.inr rfl, rfl⟩⟩)

/-- The tree without an entry of a directory. -/
def without (fs : FS) (d e : FileId) : FS := fs.modifyFile d fun directory => directory.withEntries (directory.entries.erase e)

theorem nameOf_without (q : FileId) : (fs.without d e).nameOf q = fs.nameOf q := nameOf_modifyFile (fun _ => File.name_withEntries) q

theorem get?_without (fs : FS) (d e q : FileId) : ∃ g : File → File, (fs.without d e).files.get? q = (fs.files.get? q).map g ∧
    ∀ file, (g file).isDirectory = file.isDirectory ∧ (g file).link? = file.link? := by
  rw [without, get?_modifyFile]
  split
  · exact ⟨_, rfl, fun file => ⟨File.isDirectory_withEntries, File.link?_withEntries⟩⟩
  · exact ⟨id, by simp, fun file => ⟨rfl, rfl⟩⟩

/-- What is found after an entry was taken was found before. -/
theorem grows_of_without (ht : fs.Tree) (hu : fs.NamesUnique) (hd : fs.IsDir d) : (fs.without d e).Grows fs := by
  refine ⟨rfl, fun q file hfile => ?_, fun q name x hx => ?_⟩
  · obtain ⟨g, hg, hsame⟩ := get?_without fs d e q
    rw [hg, Option.map_eq_some_iff] at hfile
    obtain ⟨file', hfile', rfl⟩ := hfile
    exact ⟨file', hfile', (hsame file').1.symm, (hsame file').2.symm⟩
  · obtain ⟨hmem, hname⟩ := tryGetEntry_some hx
    exact (hu.tryGetEntry_eq_some ht).2 ⟨(entries_take_sublist hd e q).subset hmem, nameOf_without x ▸ hname⟩

/-- The name of the entry that was taken is vacant. -/
theorem vacant_without (hu : fs.NamesUnique) (ht : fs.Tree) (he : e ∈ fs.entries d) (hname : fs.nameOf e = some name) :
    (fs.without d e).Vacant d name := by
  intro x hx hxname
  rw [nameOf_without] at hxname
  rw [without, entries_replace (isDir_of_mem_entries he) (h := fun es => es.erase e), if_pos rfl] at hx
  have hxe : x = e := List.inj_on_of_nodup_map (hu d) (List.mem_of_mem_erase hx) he (hxname.trans hname.symm)
  subst hxe
  exact (ht.nodup d).not_mem_erase hx

/-- The directory of the entry that was taken is still where it was: the path to it does not lead through it. -/
theorem walkDirectories_without (ht : fs.Tree) (hd : fs.IsDir d) {pre : List Str}
    (hpre : fs.walkDirectories fs.root pre = .ok (some x)) (h : fs.walkDirectories x cs = .ok (some d)) :
    (fs.without d e).walkDirectories x cs = .ok (some d) := by
  induction cs generalizing x pre with
  | nil => exact h
  | cons c cs ih =>
    have hne : x ≠ d := by
      rintro rfl
      have heq := ht.walkDirectories_inj hpre (walkDirectories_append.2 ⟨x, hpre, h⟩)
      simp at heq
    obtain ⟨y, hy, h⟩ := walkDirectories_cons.1 h
    obtain ⟨hentry, hydir⟩ := tryGetSubDirectory_eq_some.1 hy
    obtain ⟨hxlive, hfind⟩ := tryGetEntry_eq_ok.1 hentry
    have hentries : (fs.without d e).entries x = fs.entries x := by
      rw [without, entries_replace hd (h := fun es => es.erase e), if_neg hne]
    refine walkDirectories_cons.2 ⟨y, tryGetSubDirectory_eq_some.2 ⟨tryGetEntry_eq_ok.2 ⟨live_modifyFile.2 hxlive, ?_⟩, ?_⟩, ?_⟩
    · rw [hentries]
      exact findEntry_congr (fun e _ => nameOf_without e) hfind
    · exact hydir.modifyFile fun _ _ => File.isDirectory_withEntries
    · have hstep : fs.walkDirectories x [c] = .ok (some y) := walkDirectories_cons.2 ⟨y, hy, by rfl⟩
      exact ih (walkDirectories_append.2 ⟨x, hpre, hstep⟩) h

theorem tryTakeFile_entryAt (h : fs.tryTakeFile path = .ok (fs', some e)) :
    fs.EntryAt path e ∧ ∃ dir name, fs.walkDirectories fs.root path.components.dropLast = .ok (some dir) ∧
      path.components.getLast? = some name ∧ e ∈ fs.entries dir ∧ fs.nameOf e = some name ∧ fs' = fs.without dir e := by
  obtain ⟨dir, name, hwalk, hname, htake⟩ := tryTakeFile_some h
  obtain ⟨hmem, hename, hfs⟩ := tryTakeEntry_some htake
  refine ⟨⟨dir, name, hwalk, hname, ?_⟩, dir, name, hwalk, hname, hmem, hename, hfs⟩
  obtain ⟨r, hr, htake⟩ := bind_eq_ok.1 htake
  cases r with
  | none => cases (ok_pair htake).2
  | some y =>
    obtain rfl := Option.some.inj (ok_pair htake).2
    exact hr

end FS

/-- The first components of a path. -/
def Path.take (path : Path) (n : Nat) : Path :=
  ⟨path.components.take n, fun c hc => path.proper c (List.mem_of_mem_take hc)⟩

namespace FS

variable {fs fs' : FS} {host : HostFiles} {depth : Nat} {f d e x : FileId} {name c : Str} {file : File} {path oldpath newpath : Path}
  {cs : List Str} {resolve : Str → Except FsFailure (Option FileId)} {δ : FS → FileId → Prop}

/-! ## Renaming -/

/-- Nothing is at the new path, and the file at the old path is not one of the directories or links on the way to it. -/
structure Free (fs : FS) (depth : Nat) (f : FileId) (newpath : Path) : Prop where
  target : ∀ g, fs.tryGetFile depth newpath .NO ≠ .ok (some g)
  way : ∀ n, fs.tryGetFile depth (newpath.take n) .NO ≠ .ok (some f)

/-- After the directories of a path are made, the path leads to the last of them. -/
theorem Ensured.reached (h : Ensured depth fs d cs fs' e) : fs'.walk (fs'.resolveSymlink depth) d cs = .ok (some e) := by
  cases h with
  | there same walk => exact same ▸ walk
  | made _ _ _ _ _ _ _ _ _ _ _ _ _ reached _ _ => exact reached

theorem getLast?_take_succ {pre post : List Str} (h : newpath.components.dropLast = pre ++ c :: post) :
    (newpath.take (pre.length + 1)).components.getLast? = some c ∧
      (newpath.take (pre.length + 1)).components.dropLast = pre := by
  have htake : (newpath.take (pre.length + 1)).components = pre ++ [c] := by
    have hprefix : newpath.components.dropLast <+: newpath.components := List.dropLast_prefix _
    rw [h] at hprefix
    obtain ⟨rest, hrest⟩ := hprefix
    change newpath.components.take (pre.length + 1) = pre ++ [c]
    rw [← hrest, List.append_assoc, List.take_append, List.take_of_length_le (by omega)]
    simp
  rw [htake]
  exact ⟨by simp, by simp⟩

theorem Ensured.grows (h : Ensured depth fs d cs fs' e) : fs.Grows fs' := by
  cases h with
  | there same walk => exact same ▸ .refl _
  | made _ _ _ _ _ _ _ _ _ _ _ _ grows _ _ _ => exact grows

/-- On the way to the new path, and at it, there is another place than the one of the file at the old path. -/
theorem Free.elsewhere (h : fs.Free depth f newpath) (hf : fs.files.Live f) (hentry : fs.tryGetEntry d name = .ok (some f))
    (hwalk : fs.walk (fs.resolveSymlink depth) fs.root path.components.dropLast = .ok (some d))
    (hname : path.components.getLast? = some name) (hpath : path = newpath ∨ ∃ n, path = newpath.take n) : False := by
  obtain ⟨file, hfile⟩ := hf
  have hfound : fs.tryGetFile depth path .NO = .ok (some f) :=
    lookupIn_eq_some.2 (.inr ⟨name, d, f, file, hname, hwalk, hentry, hfile, .inr ⟨.inr rfl, rfl⟩⟩)
  rcases hpath with rfl | ⟨n, rfl⟩
  · exact h.target f hfound
  · exact h.way n hfound

theorem lookupIn_of_vacant {follow : FollowSymlink} (hname : path.components.getLast? = some name)
    (hwalk : fs.walk resolve fs.root path.components.dropLast = .ok (some d)) (hnone : fs.tryGetEntry d name = .ok none) :
    fs.lookupIn resolve path follow = .ok none := by
  unfold lookupIn
  rw [hname]
  exact bind_eq_ok.2 ⟨some d, hwalk, bind_eq_ok.2 ⟨none, hnone, rfl⟩⟩

theorem grows_renamed (hd : fs.IsDir d) (hloose : fs.Loose f) (hf : fs.files.Live f) :
    fs.Grows ((fs.renameFile f d name).attach d f) := by
  refine .of_entries rfl (fun q file hfile => ?_) (fun q e he => ?_) fun q => ?_
  · obtain ⟨g, hg, hsame⟩ := get?_attach (fs.renameFile f d name) d f q
    rw [renameFile, get?_modifyFile] at hg
    split at hg
    · rw [hfile] at hg
      exact ⟨_, hg, (hsame _).2.2.1, (hsame _).2.2.2.1⟩
    · rw [hfile] at hg
      exact ⟨_, hg, (hsame _).2.2.1, (hsame _).2.2.2.1⟩
  · rw [nameOf_renamed hf, if_neg]
    rintro rfl
    exact hloose.outside q he
  · rw [entries_renamed hd]
    split
    · exact ⟨_, rfl⟩
    · exact ⟨[], (List.append_nil _).symm⟩

/-- After the directories of the new path are made and the file is added, its old name is vacant in its old directory. -/
theorem vacant_renamed {fs1 fs2 : FS} {newdir : FileId} {newname oldname : Str} (hu : fs.NamesUnique) (ht : fs.Tree)
    (hfree : fs.Free depth f newpath) (hmem : f ∈ fs.entries d) (hfname : fs.nameOf f = some oldname)
    (hfs1 : fs1 = fs.without d f) (hensured : Ensured depth fs1 fs1.root newpath.components.dropLast fs2 newdir)
    (ht1 : fs1.Tree) (hnewname : newpath.components.getLast? = some newname) (hnewdir : fs2.IsDir newdir)
    (hloose : fs2.Loose f) (hlive : fs2.files.Live f) :
    ((fs2.renameFile f newdir newname).attach newdir f).Vacant d oldname := by
  have hdir := isDir_of_mem_entries hmem
  have hback : fs1.Grows fs := hfs1 ▸ grows_of_without ht hu hdir
  have hdir1 : fs1.files.Live d := hfs1 ▸ live_modifyFile.2 hdir.live
  have hv1 : fs1.Vacant d oldname := hfs1 ▸ vacant_without hu ht hmem hfname
  have hentry := (hu.tryGetEntry_eq_some ht).2 ⟨hmem, hfname⟩
  have hflive := ht.live d f hmem
  have hroot : fs1.root = fs.root := hback.root.symm
  have hnames : ∀ q y, y ∈ fs2.entries q → ((fs2.renameFile f newdir newname).attach newdir f).nameOf y = fs2.nameOf y := by
    intro q y hy
    rw [nameOf_renamed hlive, if_neg]
    rintro rfl
    exact hloose.outside q hy
  intro y hy hyname
  rw [entries_renamed hnewdir] at hy
  cases hensured with
  | there same walk =>
    subst same
    split at hy
    · next hd =>
      rcases List.mem_append.1 hy with hy | hy
      · exact hv1 y hy (hnames d y hy ▸ hyname)
      · obtain rfl := List.mem_singleton.1 hy
        rw [nameOf_renamed hlive, if_pos rfl] at hyname
        have hwalk := hback.walk (fun _ _ => hback.resolveSymlink) walk
        exact hfree.elsewhere hflive hentry (hroot ▸ hd ▸ hwalk) (hnewname.trans hyname) (.inl rfl)
    · exact hv1 y hy (hnames d y hy ▸ hyname)
  | made pre post c x n split walk vacant here name others names grows reached empty fresh =>
    rw [if_neg fun hd : d = newdir => fresh (hd ▸ hdir1)] at hy
    have hyname := hnames d y hy ▸ hyname
    by_cases hx : d = x
    · subst hx
      rw [here] at hy
      rcases List.mem_append.1 hy with hy | hy
      · exact hv1 y hy (names y (ht1.live d y hy) ▸ hyname)
      · obtain rfl := List.mem_singleton.1 hy
        obtain ⟨hlast, hinit⟩ := getLast?_take_succ split
        have hwalk := hback.walk (fun _ _ => hback.resolveSymlink) walk
        refine hfree.elsewhere hflive hentry ?_ (hlast.trans (name.symm.trans hyname)) (.inr ⟨_, rfl⟩)
        rw [hinit, ← hroot]
        exact hwalk
    · rw [others d hdir1 hx] at hy
      exact hv1 y hy (names y (ht1.live d y hy) ▸ hyname)

/-- A rename that succeeds, where the new path is free: the file that was at the old path is at the new one, and nothing is at the
old path. -/
theorem rename_moves (ht : fs.Tree) (hu : fs.NamesUnique) (hfree : ∀ f, fs.EntryAt oldpath f → fs.Free depth f newpath)
    (h : fs.rename host depth oldpath newpath = .ok (fs', 0)) :
    ∃ f, fs.EntryAt oldpath f ∧ fs'.tryGetFile depth newpath .NO = .ok (some f) ∧
      ∀ follow, fs'.tryGetFile depth oldpath follow = .ok none := by
  rcases rename_cases h with ⟨-, hn, -⟩ | ⟨fs1, f, fs2, newdir, newname, htake, hnewname, hensure, -, rfl⟩
  · cases hn
  obtain ⟨hat, dir, oldname, holdwalk, holdname, hmem, hfname, hfs1⟩ := tryTakeFile_entryAt htake
  obtain ⟨hedit, hloose1, hlive1⟩ := tryTakeFile_loose (φ := Vacant) (δ := fun _ _ => True) ht htake
  have hfree := hfree f hat
  have hdir := isDir_of_mem_entries hmem
  have ht1 := ht.edit hedit
  have hcs : ∀ c ∈ newpath.components.dropLast, Component c := fun c hc => newpath.proper c (List.dropLast_subset _ hc)
  have hback : fs1.Grows fs := hfs1 ▸ grows_of_without ht hu hdir
  have hensured := ensureFrom_ensured hcs ht1 ht1.rootDir hensure
  obtain ⟨hloose2, hlive2⟩ := ensurePathExceptLast_loose ht1 hloose1 hlive1 hensure
  obtain ⟨hedits, hnewdir⟩ := ensurePathExceptLast_edits (φ := fun _ _ _ => True) (δ := fun _ _ => True) allows_any ht1 hensure
  have ht2 := ht1.edits hedits
  have hnewdir := hnewdir newdir rfl
  have hvacant : fs2.Vacant newdir newname :=
    vacant_of_tryGetFile_none ht1 hnewname (fun g hg => hfree.target g (hback.tryGetFile hg)) hensure
  have hgrows : fs2.Grows ((fs2.renameFile f newdir newname).attach newdir f) := grows_renamed hnewdir hloose2 hlive2
  have hname : ((fs2.renameFile f newdir newname).attach newdir f).nameOf f = some newname := by
    rw [nameOf_renamed hlive2, if_pos rfl]
  have hfound : ∀ y ∈ fs2.entries newdir, ((fs2.renameFile f newdir newname).attach newdir f).nameOf y ≠ some newname := by
    intro y hy
    rw [nameOf_renamed hlive2, if_neg]
    · exact hvacant y hy
    · rintro rfl
      exact hloose2.outside newdir hy
  have hroot : fs2.root = fs1.root := hensured.grows.root
  refine ⟨f, hat, ?_, fun follow => ?_⟩
  · -- the way to the new directory is what it was, and the file is the only entry there with the new name
    obtain ⟨file, hfile⟩ := hgrows.live hlive2
    refine lookupIn_eq_some.2 (.inr ⟨newname, newdir, f, file, hnewname, ?_, ?_, hfile, .inr ⟨.inr rfl, rfl⟩⟩)
    · exact hgrows.walk (fun _ _ => hgrows.resolveSymlink) (hroot ▸ hensured.reached)
    · refine tryGetEntry_eq_ok.2 ⟨(hgrows.isDir hnewdir).live, ?_⟩
      rw [entries_renamed hnewdir, if_pos rfl]
      exact findEntry_last (fun y hy => hgrows.live (ht2.live newdir y hy)) hfound hname
  · -- the way to the old directory is what it was, and its entry has gone
    have hgrows1 := hensured.grows.trans hgrows
    have hwalk1 : fs1.walkDirectories fs.root oldpath.components.dropLast = .ok (some dir) :=
      hfs1 ▸ walkDirectories_without ht hdir (show fs.walkDirectories fs.root [] = .ok (some fs.root) from rfl) holdwalk
    have ht' := ht2.edit (.attach (φ := fun _ _ _ => True) (δ := fun _ _ => True) newdir f newname hnewdir hlive2 hloose2 trivial)
    have hdir1 : fs1.files.Live dir := hfs1 ▸ live_modifyFile.2 hdir.live
    refine lookupIn_of_vacant holdname ?_ (ht'.tryGetEntry_eq_none (hgrows1.live hdir1) ?_)
    · exact hgrows1.root.trans hback.root.symm ▸ hgrows1.walk (fun _ _ => hgrows1.resolveSymlink) (walk_of_walkDirectories hwalk1)
    · exact vacant_renamed hu ht hfree hmem hfname hfs1 hensured ht1 hnewname hnewdir hloose2 hlive2

/-! ## The additions of a call -/

/-- Where nothing was at a path, what is added there is added at a vacant name. -/
theorem admits_of_tryGetFile_none (ht : fs.Tree) (hnone : ∀ f, fs.tryGetFile depth path .NO ≠ .ok (some f)) :
    Admits Vacant fs host depth path :=
  fun _ _ _ hname hensure => vacant_of_tryGetFile_none ht hname hnone hensure

theorem bare_tree : bare.Tree := by
  have hentries : ∀ d, bare.entries d = [] := by
    intro d
    cases d with
    | zero => rfl
    | succ d => exact entries_of_none (by simp [bare, Heap.alloc, Heap.empty, Heap.get?])
  have hnone : ∀ f, f ∉ bare.orphanFiles := fun f => List.not_mem_nil
  refine ⟨fun d e he => ?_, fun d => ?_, fun d _ e he => ?_, fun f hf => absurd hf (hnone f), fun f hf => absurd hf (hnone f),
    ⟨_, rfl, rfl⟩, fun d he => ?_, hnone bare.root⟩
  · rw [hentries] at he
    cases he
  · rw [hentries]
    exact List.nodup_nil
  · rw [hentries] at he
    cases he
  · rw [hentries] at he
    cases he

theorem bare_namesUnique : bare.NamesUnique := by
  intro d
  cases d with
  | zero => exact List.nodup_nil
  | succ d =>
    rw [entries_of_none (by simp [bare, Heap.alloc, Heap.empty, Heap.get?])]
    exact List.nodup_nil

/-- What the constructor makes. -/
theorem new_edits {φ : FS → FileId → Str → Prop} (hφ : Allows φ) {ttypath : Path} (h : FS.new host depth ttypath = .ok fs) :
    Edits φ δ bare fs := by
  obtain ⟨device, hdevice, h⟩ := bind_eq_ok.1 h
  cases device with
  | none => cases h
  | some kind =>
    obtain ⟨name, hname, h⟩ := bind_eq_ok.1 h
    obtain ⟨⟨fs1, dir⟩, hensure, h⟩ := bind_eq_ok.1 h
    cases dir with
    | none => cases h
    | some dir =>
      obtain rfl := Except.ok.inj h
      obtain ⟨hedits, hdir⟩ := ensurePathExceptLast_edits (δ := δ) hφ bare_tree hensure
      have hcs : ∀ c ∈ ttypath.components.dropLast, Component c := fun c hc => ttypath.proper c (List.dropLast_subset _ hc)
      have hbuilt := ensureFrom_built hcs bare_tree bare_tree.rootDir (by rfl) hensure
      have hfresh : (File.new name kind).Fresh := by
        unfold terminal at hdevice
        split at hdevice
        · cases hdevice
        · have hdevice := Except.ok.inj hdevice
          split at hdevice
          · obtain rfl := Option.some.inj hdevice
            exact ⟨rfl, rfl, rfl⟩
          · cases hdevice
      have hname : Component name := ttypath.proper name (List.mem_of_getLast? (Path.last_eq_ok.1 hname))
      refine hedits.tail (.add dir _ (hdir dir rfl) hfresh (hφ _ _ _ hname fun e he => ?_))
      rw [hbuilt.empty] at he
      cases he

theorem pidName_ne_self (pid : Nat) : pidName pid ≠ SELF := by
  intro h
  have hmem : 's' ∈ pidName pid := h ▸ List.mem_cons_self
  exact absurd (isDigit_of_mem_pidName hmem) (by decide)

/-- `resetProcFS` adds everything at vacant names when there is no `/proc` yet. -/
theorem admitsProc_of_vacant (ht : fs.Tree) (hv : fs.Vacant fs.root PROC) (pid : Nat) : AdmitsProc Vacant fs host depth pid := by
  -- the new directory is what `/proc` leads to, and it holds the directory of the process only
  have hproc : ∀ fs1 piddir, (fs.addFile fs.root (.new PROC (.directory .proc []))).1.tryAddShadowDirectory fs.files.next
      (pidName pid) = .ok (fs1, some piddir) → fs1.Tree ∧ fs1.root = fs.root ∧
      fs1.tryGetSubDirectory fs.root PROC = .ok (some fs.files.next) ∧
      fs1.tryGetSubDirectory fs.files.next (pidName pid) = .ok (some piddir) ∧ fs1.entries fs.files.next = [piddir] ∧
      fs1.nameOf piddir = some (pidName pid) ∧ fs1.entries piddir = [] := by
    intro fs1 piddir hadd
    obtain ⟨hvacant, rfl, rfl⟩ := tryAddShadowDirectory_some (component_pidName pid) hadd
    have hta : (fs.addFile fs.root (.new PROC (.directory .proc []))).1.Tree := ht.addFile ht.rootDir rfl
    have hdir : (fs.addFile fs.root (.new PROC (.directory .proc []))).1.IsDir fs.files.next := isDir_addFile_next
    have hgrows := hta.grows_addFile hdir (.new (pidName pid) (.directory .shadow [])) rfl
    have hentry := ht.tryGetEntry_addFile ht.rootDir (.new PROC (.directory .proc [])) rfl hv
    have hpid := hta.tryGetEntry_addFile hdir (.new (pidName pid) (.directory .shadow [])) rfl (tryGetEntry_none hvacant)
    refine ⟨hta.addFile hdir rfl, rfl, ?_, ?_, ?_, ?_, entries_addFile_next hdir rfl⟩
    · exact tryGetSubDirectory_eq_some.2 ⟨hgrows.entry _ _ _ hentry, hgrows.isDir hdir⟩
    · exact tryGetSubDirectory_eq_some.2 ⟨hpid, isDir_addFile_next⟩
    · rw [entries_addFile hdir rfl, if_pos rfl, entries_addFile_next ht.rootDir rfl]
      rfl
    · rw [nameOf_addFile, if_pos rfl]
      rfl
  refine ⟨hv, fun fs1 piddir hadd => ?_, fun fs1 fs2 piddir hadd hlink => ?_⟩
  · obtain ⟨ht1, hroot, hsub, -, hentries, hname, -⟩ := hproc fs1 piddir hadd
    refine admits_of_tryGetFile_none ht1 fun f hf => ?_
    obtain ⟨hnil, -⟩ | ⟨last, dir, entry, file, hlast, hwalk, hentry, -⟩ := lookupIn_eq_some.1 hf
    · cases hnil
    · obtain rfl := Option.some.inj hlast
      obtain ⟨x, hx, hwalk⟩ := walk_cons.1 hwalk
      obtain rfl := Option.some.inj (Except.ok.inj hwalk)
      rw [hroot, enter_eq_some.2 (.inl hsub)] at hx
      obtain rfl := Option.some.inj (Except.ok.inj hx)
      obtain ⟨hmem, hself⟩ := tryGetEntry_some hentry
      rw [hentries, List.mem_singleton] at hmem
      rw [hmem, hname] at hself
      exact pidName_ne_self pid (Option.some.inj hself)
  · obtain ⟨ht1, hroot, hsub, hpid, hentries, -, hempty⟩ := hproc fs1 piddir hadd
    obtain ⟨name, -, hlink⟩ := bind_eq_ok.1 hlink
    obtain ⟨⟨fs1', parent⟩, hensure, hlink⟩ := bind_eq_ok.1 hlink
    cases parent with
    | none => cases hlink
    | some parent =>
      obtain rfl := Except.ok.inj hlink
      have hproc1 : ∀ resolve, fs1.enter resolve fs1.root PROC = .ok (some fs.files.next) :=
        fun resolve => hroot ▸ enter_eq_some.2 (.inl hsub)
      have hcs : ∀ c ∈ procSelf.components.dropLast, Component c := fun c hc => procSelf.proper c (List.dropLast_subset _ hc)
      obtain ⟨rfl, rfl⟩ : fs1' = fs1 ∧ parent = fs.files.next := by
        cases ensureFrom_ensured hcs ht1 ht1.rootDir hensure with
        | there same walk =>
          obtain ⟨x, hx, walk⟩ := walk_cons.1 walk
          obtain rfl := Option.some.inj (Except.ok.inj walk)
          exact ⟨same, Option.some.inj (Except.ok.inj (hx.symm.trans (hproc1 _)))⟩
        | made pre post c x n split walk vacant =>
          have hpre : pre = [] ∧ c = PROC := by
            cases pre with
            | nil => exact ⟨rfl, (List.cons.inj split).1.symm⟩
            | cons a pre => simp [procSelf] at split
          obtain ⟨rfl, rfl⟩ := hpre
          obtain rfl := Option.some.inj (Except.ok.inj walk)
          rw [hroot, (tryGetSubDirectory_some hsub).1] at vacant
          cases vacant
      have hdir := (tryGetSubDirectory_some hsub).2
      have hgrows := ht1.grows_addFile hdir (.new name (.symlink (procPid pid).absolute)) rfl
      have hne : piddir ≠ fs.files.next := by
        rintro rfl
        rw [hempty] at hentries
        cases hentries
      refine admits_of_tryGetFile_none (ht1.addFile hdir rfl) fun f hf => ?_
      obtain ⟨hnil, -⟩ | ⟨last, dir, entry, file, hlast, hwalk, hentry, -⟩ := lookupIn_eq_some.1 hf
      · cases hnil
      · obtain ⟨x, hx, hwalk⟩ := walk_cons.1 hwalk
        obtain rfl := Option.some.inj (Except.ok.inj (hx.symm.trans (hgrows.enterDirectory (hroot ▸ hsub))))
        obtain ⟨y, hy, hwalk⟩ := walk_cons.1 hwalk
        obtain rfl := Option.some.inj (Except.ok.inj (hy.symm.trans (hgrows.enterDirectory hpid)))
        obtain rfl := Option.some.inj (Except.ok.inj hwalk)
        have hmem := (tryGetEntry_some hentry).1
        rw [entries_addFile hdir rfl, if_neg hne, hempty] at hmem
        cases hmem

end FS

end X64Emulator
