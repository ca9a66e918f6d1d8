import X64Emulator.Lemmas.TreeNodes
import X64Emulator.Lib.BoundedRecursion

/-!
# How far links are followed

A walk over the components of a path reaches directories, and it asks for the links it meets on the way. The resolution of a link
walks over the path of its target, so a link asks for other links. What the walks reach is said without the depth of the stack;
that a lookup ends within a depth is then `BoundedRecursion.EndsWithin`, with the links for arguments.
-/

namespace X64Emulator

open Outcome BoundedRecursion Relation

namespace FS

variable {fs : FS} {depth : Nat} {f d e x y : FileId} {c link link' : Str} {file : File} {path : Path} {cs rest : List Str}
  {resolve : Str → Except FsFailure (Option FileId)} {bad : FsFailure → Prop} {P : FileId → Str → Prop}

/-! ## What a walk reaches -/

/-- The walk from a directory over components reaches another one with some of the components ahead. A component leads to the
directory that is its entry, or to the one that the target of its link leads to. -/
inductive Reaches (fs : FS) : FileId → List Str → FileId → List Str → Prop where
  | here (d : FileId) (cs : List Str) : Reaches fs d cs d cs
  | subdir {d x y : FileId} {c : Str} {cs rest : List Str} (h : fs.tryGetSubDirectory d c = .ok (some x))
      (onward : Reaches fs x cs y rest) : Reaches fs d (c :: cs) y rest
  | link {d x y : FileId} {c link : Str} {cs rest : List Str} {path : Path} (h : fs.tryGetLink d c = .ok (some link))
      (hpath : targetPath link = .ok path) (target : Reaches fs fs.root path.components x [])
      (onward : Reaches fs x cs y rest) : Reaches fs d (c :: cs) y rest

/-- The walk from a directory over components comes to one of them that is so. -/
def Meets (fs : FS) (P : FileId → Str → Prop) (d : FileId) (cs : List Str) : Prop :=
  ∃ x c rest, fs.Reaches d cs x (c :: rest) ∧ P x c

/-- The walk from a directory over components asks for a link. -/
def AskedFrom (fs : FS) (d : FileId) (cs : List Str) (link : Str) : Prop :=
  fs.Meets (fun x c => fs.tryGetLink x c = .ok (some link)) d cs

/-- The resolution of a link asks for another one. -/
def Asks (fs : FS) (link link' : Str) : Prop :=
  ∃ path, targetPath link = .ok path ∧ fs.AskedFrom fs.root path.components link'

/-- A link that is empty, or the pathname of a path. `resolveSymlink` verifies this. -/
def Resolvable (link : Str) : Prop := link = [] ∨ ∃ path, targetPath link = .ok path

theorem Reaches.isDir (hr : fs.IsDir fs.root) (hd : fs.IsDir d) (h : fs.Reaches d cs x rest) : fs.IsDir x := by
  induction h with
  | here d cs => exact hd
  | subdir h _ ih => exact ih (tryGetSubDirectory_eq_some.1 h).2
  | link _ _ _ _ htarget ih => exact ih (htarget hr)

theorem Meets.here (h : P d c) : fs.Meets P d (c :: cs) := ⟨d, c, cs, .here d (c :: cs), h⟩

theorem Meets.subdir (h : fs.tryGetSubDirectory d c = .ok (some x)) (hmeets : fs.Meets P x cs) : fs.Meets P d (c :: cs) := by
  obtain ⟨y, c', rest, hreaches, hP⟩ := hmeets
  exact ⟨y, c', rest, .subdir h hreaches, hP⟩

theorem Meets.through (h : fs.tryGetLink d c = .ok (some link)) (hpath : targetPath link = .ok path)
    (htarget : fs.Reaches fs.root path.components x []) (hmeets : fs.Meets P x cs) : fs.Meets P d (c :: cs) := by
  obtain ⟨y, c', rest, hreaches, hP⟩ := hmeets
  exact ⟨y, c', rest, .link h hpath htarget hreaches, hP⟩

theorem not_meets_nil : ¬ fs.Meets P d [] := by
  rintro ⟨x, c, rest, hreaches, -⟩
  cases hreaches

/-- What a walk comes to is its first component, or it is behind the directory that this one leads to. -/
theorem Meets.cases (h : fs.Meets P d (c :: cs)) : P d c ∨
    (∃ x, fs.tryGetSubDirectory d c = .ok (some x) ∧ fs.Meets P x cs) ∨
    (∃ link path x, fs.tryGetLink d c = .ok (some link) ∧ targetPath link = .ok path ∧
      fs.Reaches fs.root path.components x [] ∧ fs.Meets P x cs) := by
  obtain ⟨y, c', rest, hreaches, hP⟩ := h
  cases hreaches with
  | here => exact .inl hP
  | subdir hsub onward => exact .inr (.inl ⟨_, hsub, y, c', rest, onward, hP⟩)
  | link hlink hpath target onward => exact .inr (.inr ⟨_, _, _, hlink, hpath, target, y, c', rest, onward, hP⟩)

/-- The links that are asked for are those of files. -/
theorem finite_links (fs : FS) : {link | ∃ d c, fs.tryGetLink d c = .ok (some link)}.Finite := by
  refine ((Set.finite_lt_nat fs.files.next).image fun f => ((fs.files.get? f).bind File.link?).getD []).subset ?_
  rintro link ⟨d, c, h⟩
  obtain ⟨e, file, -, hfile, hlink⟩ := tryGetLink_some h
  exact ⟨e, Heap.Live.lt_next ⟨file, hfile⟩, by simp [hfile, hlink]⟩

theorem finite_askedFrom (fs : FS) (d : FileId) (cs : List Str) : {link | fs.AskedFrom d cs link}.Finite :=
  fs.finite_links.subset fun _ ⟨x, c, _, _, h⟩ => ⟨x, c, h⟩

theorem finite_asks (fs : FS) (link : Str) : {link' | fs.Asks link link'}.Finite :=
  fs.finite_links.subset fun _ ⟨_, _, x, c, _, _, h⟩ => ⟨x, c, h⟩

theorem finite_asks_later (fs : FS) (link : Str) : {link' | ReflTransGen fs.Asks link link'}.Finite := by
  refine (fs.finite_links.insert link).subset fun link' h => ?_
  rcases ReflTransGen.cases_tail h with rfl | ⟨_, -, _, -, x, c, _, -, hlink⟩
  · exact Set.mem_insert _ _
  · exact Set.mem_insert_of_mem _ ⟨x, c, hlink⟩

/-! ## Walks that end -/

/-- What a component of a walk may be: a directory, a link, another file, or nothing. -/
inductive Found (fs : FS) (d : FileId) (c : Str) : Prop where
  | directory (x : FileId) (sub : fs.tryGetSubDirectory d c = .ok (some x)) (link : fs.tryGetLink d c = .ok none)
  | symlink (link : Str) (sub : fs.tryGetSubDirectory d c = .ok none) (link : fs.tryGetLink d c = .ok (some link))
  | other (e : FileId) (file : File) (sub : fs.tryGetSubDirectory d c = .ok none) (link : fs.tryGetLink d c = .ok none)
      (entry : fs.tryGetEntry d c = .ok (some e)) (hfile : fs.files.get? e = some file) (directory : file.isDirectory = false)
      (plain : file.link? = none)
  | missing (sub : fs.tryGetSubDirectory d c = .ok none) (link : fs.tryGetLink d c = .ok none)
      (entry : fs.tryGetEntry d c = .ok none)

theorem File.link?_of_isDirectory (h : file.isDirectory = true) : file.link? = none := by
  cases hlink : file.link? with
  | none => rfl
  | some link =>
    rw [File.not_isDirectory_of_link hlink] at h
    cases h

theorem tryGetLink_of_none (h : fs.tryGetEntry d c = .ok none) : fs.tryGetLink d c = .ok none := bind_eq_ok.2 ⟨none, h, rfl⟩

theorem tryGetLink_of_plain (he : fs.tryGetEntry d c = .ok (some e)) (hfile : fs.files.get? e = some file)
    (hplain : file.link? = none) : fs.tryGetLink d c = .ok none := by
  unfold tryGetLink
  refine bind_eq_ok.2 ⟨some e, he, bind_eq_ok.2 ⟨file, file_eq_ok.2 hfile, ?_⟩⟩
  rw [hplain]

theorem Tree.tryGetEntry_ok (ht : fs.Tree) (hd : fs.files.Live d) : ∃ r, fs.tryGetEntry d c = .ok r := by
  cases hr : fs.tryGetEntry d c with
  | ok r => exact ⟨r, rfl⟩
  | error err =>
    obtain ⟨directory, hdir⟩ := hd
    rw [tryGetEntry, file_eq_ok.2 hdir] at hr
    exact absurd hr (findEntry_ne_error fun e he => ht.live d e (entries_eq hdir ▸ he))

theorem Tree.found (ht : fs.Tree) (hd : fs.IsDir d) (c : Str) : fs.Found d c := by
  obtain ⟨r, hr⟩ := ht.tryGetEntry_ok hd.live (c := c)
  cases r with
  | none => exact .missing (tryGetSubDirectory_eq_ok.2 (.inl ⟨hr, rfl⟩)) (tryGetLink_of_none hr) hr
  | some e =>
    obtain ⟨file, hfile⟩ := ht.live d e (tryGetEntry_some hr).1
    have hsub : fs.tryGetSubDirectory d c = .ok (if file.isDirectory then some e else none) :=
      tryGetSubDirectory_eq_ok.2 (.inr ⟨e, file, hr, hfile, rfl⟩)
    cases hdir : file.isDirectory with
    | true =>
      have hplain := File.link?_of_isDirectory hdir
      rw [hdir] at hsub
      exact .directory e hsub (tryGetLink_of_plain hr hfile hplain)
    | false =>
      rw [hdir] at hsub
      cases hlink : file.link? with
      | none => exact .other e file hsub (tryGetLink_of_plain hr hfile hlink) hr hfile hdir hlink
      | some link => exact .symlink link hsub (tryGetLink_of hr hfile hlink)

theorem enter_of_directory (h : fs.tryGetSubDirectory d c = .ok (some x)) : fs.enter resolve d c = .ok (some x) :=
  bind_eq_ok.2 ⟨some x, h, rfl⟩

theorem enter_of_none (hsub : fs.tryGetSubDirectory d c = .ok none) (hlink : fs.tryGetLink d c = .ok none) :
    fs.enter resolve d c = .ok none := bind_eq_ok.2 ⟨none, hsub, bind_eq_ok.2 ⟨none, hlink, rfl⟩⟩

/-- The directory a link leads to, if its target is one. -/
def directoryAt (fs : FS) : Option FileId → Except FsFailure (Option FileId)
  | none => .ok none
  | some target => do
    let file ← fs.file target
    .ok (if file.isDirectory then some target else none)

theorem enter_of_link (hsub : fs.tryGetSubDirectory d c = .ok none) (hlink : fs.tryGetLink d c = .ok (some link)) :
    fs.enter resolve d c = resolve link >>= fs.directoryAt := by
  unfold enter
  rw [hsub]
  show (fs.tryGetLink d c >>= _) = _
  rw [hlink]
  rfl

theorem walk_of_enter (h : fs.enter resolve d c = .ok (some x)) : fs.walk resolve d (c :: cs) = fs.walk resolve x cs := by
  rw [walk, h]
  rfl

theorem walk_of_enter_none (h : fs.enter resolve d c = .ok none) : fs.walk resolve d (c :: cs) = .ok none := by
  rw [walk, h]
  rfl

/-- How links are followed: to the directories that walks reach, unless one fails for a bad reason. -/
structure Follows (fs : FS) (bad : FsFailure → Prop) (resolve : Str → Except FsFailure (Option FileId)) : Prop where
  live : ∀ link t, resolve link = .ok (some t) → fs.files.Live t
  sound : ∀ link t, resolve link = .ok (some t) → fs.IsDir t →
    ∃ path, targetPath link = .ok path ∧ fs.Reaches fs.root path.components t []
  complete : ∀ link path t, targetPath link = .ok path → fs.Reaches fs.root path.components t [] → Avoids bad (resolve link) →
    resolve link = .ok (some t)

theorem tryGetSubDirectory_of_link (h : fs.tryGetLink d c = .ok (some link)) : fs.tryGetSubDirectory d c = .ok none := by
  obtain ⟨e, file, he, hfile, hlink⟩ := tryGetLink_some h
  refine tryGetSubDirectory_eq_ok.2 (.inr ⟨e, file, he, hfile, ?_⟩)
  rw [File.not_isDirectory_of_link hlink]
  rfl

/-- A walk that fails for no bad reason goes on from where it comes to. -/
theorem Follows.walk_eq (hr : fs.Follows bad resolve) (ht : fs.Tree) (h : fs.Reaches d cs y rest)
    (hends : Avoids bad (fs.walk resolve d cs)) : fs.walk resolve d cs = fs.walk resolve y rest := by
  induction h with
  | here d cs => rfl
  | subdir h _ ih =>
    rw [walk_of_enter (enter_of_directory h)] at hends ⊢
    exact ih hends
  | @link d x y c link cs rest path hlink hpath htarget _ _ ih =>
    have hsub := tryGetSubDirectory_of_link hlink
    have hasked : Avoids bad (resolve link) := by
      rw [walk, enter_of_link hsub hlink] at hends
      exact (avoids_bind_iff.1 (avoids_bind_iff.1 hends).1).1
    have hresolve := hr.complete _ _ _ hpath htarget hasked
    have henter := enter_eq_some.2 (.inr ⟨hsub, _, hlink, hresolve, htarget.isDir ht.rootDir ht.rootDir⟩)
    rw [walk_of_enter henter] at hends ⊢
    exact ih hends

theorem Follows.reaches (hr : fs.Follows bad resolve) (h : fs.walk resolve d cs = .ok (some y)) : fs.Reaches d cs y [] := by
  induction cs generalizing d with
  | nil =>
    obtain rfl := Option.some.inj (Except.ok.inj h)
    exact .here d []
  | cons c cs ih =>
    obtain ⟨x, henter, h⟩ := walk_cons.1 h
    rcases enter_eq_some.1 henter with hsub | ⟨-, link, hlink, hresolve, hdir⟩
    · exact .subdir hsub (ih h)
    · obtain ⟨path, hpath, htarget⟩ := hr.sound link x hresolve hdir
      exact .link hlink hpath htarget (ih h)

/-- A walk fails for a bad reason exactly if the resolution of a link that it asks for does. -/
theorem Follows.walk_avoids_iff (hr : fs.Follows bad resolve) (ht : fs.Tree) (hd : fs.IsDir d) :
    Avoids bad (fs.walk resolve d cs) ↔ ∀ link, fs.AskedFrom d cs link → Avoids bad (resolve link) := by
  constructor
  · rintro hends link ⟨x, c, rest, hreaches, hlink⟩
    rw [hr.walk_eq ht hreaches hends, walk, enter_of_link (tryGetSubDirectory_of_link hlink) hlink] at hends
    exact (avoids_bind_iff.1 (avoids_bind_iff.1 hends).1).1
  · intro hasked
    induction cs generalizing d with
    | nil => trivial
    | cons c cs ih =>
      cases ht.found hd c with
      | directory x hsub hlink =>
        rw [walk_of_enter (enter_of_directory hsub)]
        exact ih (tryGetSubDirectory_eq_some.1 hsub).2 fun link h => hasked link (Meets.subdir hsub h)
      | symlink link hsub hlink =>
        have hends : Avoids bad (resolve link) := hasked link (.here hlink)
        have henter : fs.enter resolve d c = resolve link >>= fs.directoryAt := enter_of_link hsub hlink
        cases hresolve : resolve link with
        | error err =>
          rw [hresolve] at hends henter
          rw [walk, henter]
          exact hends
        | ok r =>
          cases r with
          | none =>
            rw [hresolve] at henter
            rw [walk_of_enter_none henter]
            trivial
          | some t =>
            obtain ⟨file, hfile⟩ := hr.live link t hresolve
            cases hdir : file.isDirectory with
            | true =>
              have htdir : fs.IsDir t := ⟨file, hfile, hdir⟩
              obtain ⟨path, hpath, htarget⟩ := hr.sound link t hresolve htdir
              rw [walk_of_enter (enter_eq_some.2 (.inr ⟨hsub, link, hlink, hresolve, htdir⟩))]
              exact ih htdir fun link' h => hasked link' (Meets.through hlink hpath htarget h)
            | false =>
              rw [hresolve] at henter
              have hnone : fs.enter resolve d c = .ok none := by
                rw [henter]
                refine bind_eq_ok.2 ⟨some t, rfl, bind_eq_ok.2 ⟨file, file_eq_ok.2 hfile, ?_⟩⟩
                rw [hdir]
                rfl
              rw [walk_of_enter_none hnone]
              trivial
      | other e file hsub hlink =>
        rw [walk_of_enter_none (enter_of_none hsub hlink)]
        trivial
      | missing hsub hlink =>
        rw [walk_of_enter_none (enter_of_none hsub hlink)]
        trivial

/-! ## Lookups -/

/-- The components of a path whose links a lookup follows. -/
def followed (path : Path) : FollowSymlink → List Str
  | .YES => path.components
  | .NO => path.components.dropLast

theorem walk_snoc : fs.walk resolve d (cs ++ [c]) =
    fs.walk resolve d cs >>= fun r => match r with
      | some x => fs.enter resolve x c
      | none => .ok none := by
  induction cs generalizing d with
  | nil =>
    show (fs.enter resolve d c >>= _) = fs.enter resolve d c
    cases fs.enter resolve d c with
    | error err => rfl
    | ok r => cases r <;> rfl
  | cons c' cs ih =>
    rw [List.cons_append, walk, walk]
    cases fs.enter resolve d c' with
    | error err => rfl
    | ok r =>
      cases r with
      | none => rfl
      | some x => exact ih

theorem walk_isDir (hd : fs.IsDir d) (h : fs.walk resolve d cs = .ok (some x)) : fs.IsDir x := by
  induction cs generalizing d with
  | nil =>
    obtain rfl := Option.some.inj (Except.ok.inj h)
    exact hd
  | cons c cs ih =>
    obtain ⟨y, henter, h⟩ := walk_cons.1 h
    refine ih ?_ h
    rcases enter_eq_some.1 henter with hsub | ⟨-, -, -, -, hdir⟩
    · exact (tryGetSubDirectory_eq_some.1 hsub).2
    · exact hdir

theorem walk_snoc_eq_some : fs.walk resolve d (cs ++ [c]) = .ok (some x) ↔
    ∃ y, fs.walk resolve d cs = .ok (some y) ∧ fs.enter resolve y c = .ok (some x) := by
  rw [walk_snoc, bind_eq_ok]
  constructor
  · rintro ⟨r, hwalk, h⟩
    cases r with
    | none => cases h
    | some y => exact ⟨y, hwalk, h⟩
  · rintro ⟨y, hwalk, henter⟩
    exact ⟨some y, hwalk, henter⟩

/-- A lookup that follows every link finds a directory exactly if the walk over all components leads to it. -/
theorem lookupIn_directory_iff (hroot : fs.IsDir fs.root) :
    fs.lookupIn resolve path .YES = .ok (some x) ∧ fs.IsDir x ↔ fs.walk resolve fs.root path.components = .ok (some x) := by
  constructor
  · rintro ⟨h, hdir⟩
    rcases lookupIn_eq_some.1 h with ⟨hnil, rfl⟩ | ⟨last, dir, entry, file, hlast, hwalk, hentry, hfile, h⟩
    · rw [hnil]
      rfl
    · obtain ⟨pre, hpre⟩ := List.getLast?_eq_some_iff.1 hlast
      rw [hpre, List.dropLast_concat] at hwalk
      rw [hpre, walk_snoc_eq_some]
      refine ⟨dir, hwalk, enter_eq_some.2 ?_⟩
      rcases h with ⟨link, hlink, -, hresolve⟩ | ⟨-, rfl⟩
      · have hget := tryGetLink_of hentry hfile hlink
        exact .inr ⟨tryGetSubDirectory_of_link hget, link, hget, hresolve, hdir⟩
      · exact .inl (tryGetSubDirectory_eq_some.2 ⟨hentry, hdir⟩)
  · intro h
    refine ⟨lookupIn_eq_some.2 ?_, walk_isDir hroot h⟩
    cases hlast : path.components.getLast? with
    | none =>
      rw [List.getLast?_eq_none_iff] at hlast
      rw [hlast] at h
      exact .inl ⟨hlast, (Option.some.inj (Except.ok.inj h)).symm⟩
    | some last =>
      obtain ⟨pre, hpre⟩ := List.getLast?_eq_some_iff.1 hlast
      rw [hpre, walk_snoc_eq_some] at h
      obtain ⟨dir, hwalk, henter⟩ := h
      have hdrop : path.components.dropLast = pre := by rw [hpre, List.dropLast_concat]
      rw [← hdrop] at hwalk
      rcases enter_eq_some.1 henter with hsub | ⟨-, link, hlink, hresolve, -⟩
      · obtain ⟨hentry, file, hfile, hdir⟩ := tryGetSubDirectory_eq_some.1 hsub
        have hplain := File.link?_of_isDirectory hdir
        exact .inr ⟨last, dir, x, file, rfl, hwalk, hentry, hfile, .inr ⟨.inl hplain, rfl⟩⟩
      · obtain ⟨entry, file, hentry, hfile, hlink⟩ := tryGetLink_some hlink
        exact .inr ⟨last, dir, entry, file, rfl, hwalk, hentry, hfile, .inl ⟨link, hlink, rfl, hresolve⟩⟩

/-- The last component of a lookup, in the directory that the others lead to. -/
def lookupLast (fs : FS) (resolve : Str → Except FsFailure (Option FileId)) (follow : FollowSymlink) (last : Str) :
    Option FileId → Except FsFailure (Option FileId)
  | none => .ok none
  | some dir => do
    match ← fs.tryGetEntry dir last with
    | none => .ok none
    | some entry => do
      let file ← fs.file entry
      match file.link?, follow with
      | some link, .YES => resolve link
      | _, _ => .ok (some entry)

theorem lookupIn_of_getLast? {follow : FollowSymlink} (h : path.components.getLast? = some c) :
    fs.lookupIn resolve path follow = fs.walk resolve fs.root path.components.dropLast >>= fs.lookupLast resolve follow c := by
  unfold lookupIn
  rw [h]
  dsimp only
  congr

theorem lookupLast_avoids (ht : fs.Tree) (hd : fs.IsDir d) : Avoids bad (fs.lookupLast resolve .NO c (some d)) := by
  obtain ⟨r, hr⟩ := ht.tryGetEntry_ok hd.live (c := c)
  rw [lookupLast, hr]
  cases r with
  | none => trivial
  | some e =>
    obtain ⟨file, hfile⟩ := ht.live d e (tryGetEntry_some hr).1
    refine avoids_bind_iff.2 ⟨trivial, ?_⟩
    intro r hr
    obtain rfl := Except.ok.inj hr
    refine avoids_bind_iff.2 ⟨?_, ?_⟩
    · rw [file_eq_ok.2 hfile]
      trivial
    · intro file' _
      cases file'.link? <;> trivial

/-- A file that is no link is found where it is. -/
theorem lookupLast_of_plain {follow : FollowSymlink} (he : fs.tryGetEntry d c = .ok (some e)) (hfile : fs.files.get? e = some file)
    (hplain : file.link? = none) : fs.lookupLast resolve follow c (some d) = .ok (some e) := by
  refine bind_eq_ok.2 ⟨some e, he, bind_eq_ok.2 ⟨file, file_eq_ok.2 hfile, ?_⟩⟩
  rw [hplain]

theorem lookupLast_of_link (h : fs.tryGetLink d c = .ok (some link)) :
    fs.lookupLast resolve .YES c (some d) = resolve link := by
  obtain ⟨e, file, he, hfile, hlink⟩ := tryGetLink_some h
  rw [lookupLast, he]
  show (fs.file e >>= _) = _
  rw [file_eq_ok.2 hfile]
  show (match file.link?, FollowSymlink.YES with | some link, .YES => resolve link | _, _ => .ok (some e)) = resolve link
  rw [hlink]

theorem lookupLast_avoids_iff (hr : fs.Follows bad resolve) (ht : fs.Tree) (hd : fs.IsDir d) :
    Avoids bad (fs.lookupLast resolve .YES c (some d)) ↔ Avoids bad (fs.enter resolve d c) := by
  cases ht.found hd c with
  | directory x hsub hlink =>
    obtain ⟨hentry, file, hfile, hdir⟩ := tryGetSubDirectory_eq_some.1 hsub
    have hplain := File.link?_of_isDirectory hdir
    rw [lookupLast_of_plain hentry hfile hplain, enter_of_directory hsub]
  | symlink link hsub hlink =>
    rw [lookupLast_of_link hlink, enter_of_link hsub hlink, avoids_bind_iff]
    refine ⟨fun h => ⟨h, ?_⟩, fun h => h.1⟩
    intro r hresolve
    cases r with
    | none => trivial
    | some t =>
      obtain ⟨file, hfile⟩ := hr.live link t hresolve
      refine avoids_bind_iff.2 ⟨?_, fun _ _ => trivial⟩
      rw [file_eq_ok.2 hfile]
      trivial
  | other e file hsub hlink hentry hfile hdir hplain =>
    rw [lookupLast_of_plain hentry hfile hplain, enter_of_none hsub hlink]
    exact Iff.rfl
  | missing hsub hlink hentry =>
    rw [lookupLast, hentry, enter_of_none hsub hlink]
    exact Iff.rfl

/-- A lookup fails for a bad reason exactly if the walk over the components whose links it follows does. -/
theorem Follows.lookupIn_avoids_iff (hr : fs.Follows bad resolve) (ht : fs.Tree) {follow : FollowSymlink} :
    Avoids bad (fs.lookupIn resolve path follow) ↔ Avoids bad (fs.walk resolve fs.root (followed path follow)) := by
  cases hlast : path.components.getLast? with
  | none =>
    have hnil := List.getLast?_eq_none_iff.1 hlast
    have hfollowed : followed path follow = [] := by
      cases follow <;> simp [followed, hnil]
    rw [hfollowed, lookupIn, hlast]
    exact Iff.rfl
  | some last =>
    rw [lookupIn_of_getLast? hlast, avoids_bind_iff]
    cases follow with
    | NO =>
      refine ⟨fun h => h.1, fun h => ⟨h, ?_⟩⟩
      intro r hwalk
      cases r with
      | none => trivial
      | some dir => exact lookupLast_avoids ht (walk_isDir ht.rootDir hwalk)
    | YES =>
      obtain ⟨pre, hpre⟩ := List.getLast?_eq_some_iff.1 hlast
      show _ ↔ Avoids bad (fs.walk resolve fs.root path.components)
      rw [hpre, List.dropLast_concat, walk_snoc, avoids_bind_iff]
      refine and_congr_right fun _ => forall_congr' fun r => ?_
      refine imp_congr_right fun hwalk => ?_
      cases r with
      | none => exact Iff.rfl
      | some dir => exact lookupLast_avoids_iff hr ht (walk_isDir ht.rootDir hwalk)

/-! ## The depth of the stack -/

/-- With any depth links lead to where the walks over their targets do. -/
theorem follows_resolveSymlink (ht : fs.Tree) (hbad : bad .stackOverflow) (depth : Nat) : fs.Follows bad (fs.resolveSymlink depth) := by
  have hlive : ∀ link t, fs.resolveSymlink depth link = .ok (some t) → fs.files.Live t :=
    fun link t h => resolveSymlink_keeps ht.rootDir.live ht.live h
  induction depth with
  | zero =>
    refine ⟨hlive, ?_, ?_⟩
    · intro link t h
      cases h
    · intro link path t _ _ hends
      exact absurd hbad hends
  | succ depth ih =>
    have hr := ih fun link t h => resolveSymlink_keeps ht.rootDir.live ht.live h
    refine ⟨hlive, ?_, ?_⟩
    · intro link t h hdir
      rw [resolveSymlink] at h
      split at h
      · cases h
      · obtain ⟨path, hpath, h⟩ := bind_eq_ok.1 h
        exact ⟨path, hpath, hr.reaches ((lookupIn_directory_iff ht.rootDir).1 ⟨h, hdir⟩)⟩
    · intro link path t hpath htarget hends
      have hne : link ≠ [] := by
        rintro rfl
        cases hpath
      have hresolve : fs.resolveSymlink (depth + 1) link = fs.lookupIn (fs.resolveSymlink depth) path .YES := by
        rw [resolveSymlink, if_neg hne, hpath]
        rfl
      rw [hresolve] at hends ⊢
      have hwalk := hr.walk_eq ht htarget ((hr.lookupIn_avoids_iff ht).1 hends)
      exact ((lookupIn_directory_iff ht.rootDir).2 hwalk).1

theorem targetPath_error {err : FsFailure} (h : targetPath link = .error err) : err = .verification := by
  unfold targetPath require check at h
  split at h
  · cases hcreate : Path.tryCreate link with
    | some path =>
      rw [hcreate] at h
      cases h
    | none =>
      rw [hcreate] at h
      exact (Except.error.inj h).symm
  · exact (Except.error.inj h).symm

/-- What a link must be where a failed `verify` is bad. -/
def Works (bad : FsFailure → Prop) (link : Str) : Prop := bad .verification → Resolvable link

/-- The resolution of a link fails for a bad reason exactly if it does not end within the depth. -/
theorem resolveSymlink_avoids_iff (ht : fs.Tree) (hbad : bad .stackOverflow) :
    Avoids bad (fs.resolveSymlink depth link) ↔ EndsWithin fs.Asks (Works bad) depth link := by
  induction depth generalizing link with
  | zero =>
    show ¬ bad .stackOverflow ↔ False
    exact iff_false_intro fun h => h hbad
  | succ depth ih =>
    have hr := follows_resolveSymlink ht hbad depth
    rw [resolveSymlink]
    split
    · next hnil =>
      subst hnil
      refine ⟨fun _ => ⟨fun _ => .inl rfl, ?_⟩, fun _ => trivial⟩
      rintro link' ⟨path, hpath, -⟩
      cases hpath
    · next hne =>
      cases hpath : targetPath link with
      | error err =>
        obtain rfl := targetPath_error hpath
        constructor
        · intro h
          refine ⟨fun hverify => absurd hverify h, ?_⟩
          rintro link' ⟨path, hpath', -⟩
          rw [hpath] at hpath'
          cases hpath'
        · intro h hverify
          rcases h.1 hverify with hnil | ⟨path, hpath'⟩
          · exact hne hnil
          · rw [hpath] at hpath'
            cases hpath'
      | ok path =>
        show Avoids bad (fs.lookupIn (fs.resolveSymlink depth) path .YES) ↔ _
        rw [hr.lookupIn_avoids_iff ht, hr.walk_avoids_iff ht ht.rootDir]
        constructor
        · intro h
          refine ⟨fun _ => .inr ⟨path, hpath⟩, ?_⟩
          rintro link' ⟨path', hpath', hasked⟩
          obtain rfl := Except.ok.inj (hpath.symm.trans hpath')
          exact ih.1 (h link' hasked)
        · intro h link' hasked
          exact ih.2 (h.2 link' ⟨path, hpath, hasked⟩)

/-- No link after a link leads back to itself, and all of them are as they must be. -/
def Bounded (fs : FS) (bad : FsFailure → Prop) (link : Str) : Prop :=
  ∀ link', ReflTransGen fs.Asks link link' → Works bad link' ∧ ¬ TransGen fs.Asks link' link'

/-- With enough depth no link of a list fails for a bad reason, exactly if each is bounded. -/
theorem exists_depth_iff (ht : fs.Tree) (hbad : bad .stackOverflow) {links : Set Str} (hfin : links.Finite) :
    (∃ depth, ∀ link ∈ links, Avoids bad (fs.resolveSymlink depth link)) ↔ ∀ link ∈ links, fs.Bounded bad link := by
  simp only [resolveSymlink_avoids_iff ht hbad]
  constructor
  · rintro ⟨depth, h⟩ link hmem
    exact (exists_endsWithin_iff (fs.finite_asks_later link) fs.finite_asks).1 ⟨depth, h link hmem⟩
  · intro h
    exact exists_common hfin fun link hmem => (exists_endsWithin_iff (fs.finite_asks_later link) fs.finite_asks).2 (h link hmem)

/-- With enough depth a lookup does not fail for a bad reason, exactly if the links it asks for are bounded. -/
theorem tryGetFile_avoids_iff (bad : FsFailure → Prop) (ht : fs.Tree) (hbad : bad .stackOverflow) (path : Path) (follow : FollowSymlink) :
    (∃ depth, Avoids bad (fs.tryGetFile depth path follow)) ↔
      ∀ link, fs.AskedFrom fs.root (followed path follow) link → fs.Bounded bad link := by
  refine Iff.trans (exists_congr fun depth => ?_) (exists_depth_iff ht hbad (fs.finite_askedFrom fs.root (followed path follow)))
  have hr := follows_resolveSymlink ht hbad depth
  rw [tryGetFile, hr.lookupIn_avoids_iff ht, hr.walk_avoids_iff ht ht.rootDir]
  exact Iff.rfl

end FS

end X64Emulator
