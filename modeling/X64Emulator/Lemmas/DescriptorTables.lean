import Mathlib.Data.List.Perm.Basic
import X64Emulator.Lemmas.FileCounts

/-!
# The descriptor tables and the counts

The open descriptors are those of the slots of all tables. A call changes them and the file system together, in the steps of
`Shift`: what each of these keeps, every call keeps.
-/

namespace X64Emulator

open Outcome

namespace FileDescriptors

variable {fds : FileDescriptors} {fd : Int} {n : Nat} {descriptor : FileDescriptor}

/-- The open file descriptions that the slots of a table refer to. -/
def descriptions (fds : FileDescriptors) : List DescriptionId :=
  fds.filterMap fun slot => slot.map FileDescriptor.openFileDescription

theorem descriptions_append {fds' : FileDescriptors} : descriptions (fds ++ fds') = descriptions fds ++ descriptions fds' :=
  List.filterMap_append

theorem descriptions_set_some (descriptor : FileDescriptor) (h : fds[n]? = some none) :
    (descriptions (fds.set n (some descriptor))).Perm (descriptor.openFileDescription :: descriptions fds) := by
  induction fds generalizing n with
  | nil => cases h
  | cons slot fds ih =>
    cases n with
    | zero =>
      obtain rfl := Option.some.inj h
      exact List.Perm.refl _
    | succ n =>
      have ih := ih (n := n) h
      rw [List.set_cons_succ]
      cases slot with
      | none => exact ih
      | some other => exact (ih.cons _).trans (List.Perm.swap _ _ _)

/-- One more descriptor, in a slot that is free or does not exist yet. -/
theorem descriptions_put (descriptor : FileDescriptor) (h : fds[n]?.join = none) :
    (descriptions (fds.put n descriptor)).Perm (descriptor.openFileDescription :: descriptions fds) := by
  have hslot : (fds ++ List.replicate (n + 1 - fds.length) none)[n]? = some none := by
    rcases Nat.lt_or_ge n fds.length with hlt | hge
    · rw [List.getElem?_append_left hlt]
      rw [List.getElem?_eq_getElem hlt] at h ⊢
      exact congrArg some h
    · rw [List.getElem?_append_right hge, List.getElem?_replicate, if_pos (by omega)]
  have hnone : descriptions (List.replicate (n + 1 - fds.length) none) = [] := by
    rw [descriptions, List.filterMap_eq_nil_iff]
    intro slot hslot
    rw [List.eq_of_mem_replicate hslot]
    rfl
  have hput := descriptions_set_some descriptor hslot
  rwa [descriptions_append, hnone, List.append_nil] at hput

/-- One descriptor less. -/
theorem descriptions_clear (h : fds[n]? = some (some descriptor)) :
    (descriptions fds).Perm (descriptor.openFileDescription :: descriptions (fds.clear n)) := by
  have hlt : n < fds.length := (List.getElem?_eq_some_iff.1 h).1
  have hset : (fds.clear n).set n (some descriptor) = fds := by
    rw [clear, List.set_set]
    refine List.ext_getElem? fun i => ?_
    rw [List.getElem?_set]
    split
    · next hi => rw [← hi, h]
    · rfl
  have hclear : (fds.clear n)[n]? = some none := by rw [clear, List.getElem?_set_self hlt]
  have hperm := descriptions_set_some descriptor hclear
  rwa [hset] at hperm

/-- A slot that is cleared before it is set. -/
theorem put_clear (hlt : n < fds.length) : fds.put n descriptor = (fds.clear n).put n descriptor := by
  have hlen : n + 1 - fds.length = 0 := by omega
  rw [put, put, clear, List.length_set, hlen, List.replicate_zero, List.append_nil, List.append_nil, List.set_set]

theorem findFileDescriptor_eq_some : fds.findFileDescriptor fd = some descriptor ↔ 0 ≤ fd ∧ fds[fd.toNat]? = some (some descriptor) := by
  unfold findFileDescriptor
  split
  · next hneg => exact ⟨fun h => (nomatch h), fun h => absurd h.1 (Int.not_le.2 hneg)⟩
  · next hpos =>
    rw [Option.join_eq_some_iff]
    exact ⟨fun h => ⟨Int.not_lt.1 hpos, h⟩, fun h => h.2⟩

theorem findFileDescriptor_eq_none (hpos : 0 ≤ fd) (h : fds.findFileDescriptor fd = none) : fds[fd.toNat]?.join = none := by
  unfold findFileDescriptor at h
  rwa [if_neg (Int.not_lt.2 hpos)] at h

/-- The slot that is allocated is free. -/
theorem allocateFd_free : fds[fds.allocateFd]?.join = none := by
  unfold allocateFd
  rcases Nat.lt_or_ge (fds.findIdx (·.isNone)) fds.length with hlt | hge
  · have hnone := List.findIdx_getElem (w := hlt)
    rw [List.getElem?_eq_getElem hlt]
    cases hslot : fds[fds.findIdx (·.isNone)] with
    | none => rfl
    | some other =>
      rw [hslot] at hnone
      cases hnone
  · rw [List.getElem?_eq_none hge]
    rfl

theorem descriptions_insert : (descriptions (fds.insert descriptor)).Perm (descriptor.openFileDescription :: descriptions fds) :=
  descriptions_put descriptor allocateFd_free

end FileDescriptors

/-! ## The steps of a call -/

/-- A step of the file system and the open descriptors. What is known of an addition is `φ`, of a file that is destroyed `δ`, and
of a close `κ`; the data of pipes change only if `μ` allows it. -/
inductive Shift (φ : FS → FileId → Str → Prop) (δ : FS → FileId → Prop) (κ : FS → DescriptionId → Prop) (μ : Prop) (depth : Nat) :
    FS × List DescriptionId → FS × List DescriptionId → Prop where
  | silent {fs fs' : FS} {ds : List DescriptionId} (h : FS.Silent φ δ μ fs fs') : Shift φ δ κ μ depth (fs, ds) (fs', ds)
  | openNode {fs fs' : FS} {ds : List DescriptionId} {descriptor : FileDescriptor} (f : FileId) (accessMode : AccessMode)
      (statusFlags : StatusFlags) (closeOnExec : Bool)
      (h : fs.openNode f accessMode statusFlags closeOnExec = .ok (fs', descriptor)) :
      Shift φ δ κ μ depth (fs, ds) (fs', descriptor.openFileDescription :: ds)
  | insertNode {fs fs' : FS} {ds : List DescriptionId} {descriptor : FileDescriptor} (file : File) (accessMode : AccessMode)
      (statusFlags : StatusFlags) (closeOnExec : Bool) (hfile : file.Fresh)
      (h : fs.insertNode file accessMode statusFlags closeOnExec = .ok (fs', descriptor)) :
      Shift φ δ κ μ depth (fs, ds) (fs', descriptor.openFileDescription :: ds)
  | pipe2 {fs fs' : FS} {ds : List DescriptionId} {reader writer : FileDescriptor} (statusFlags : StatusFlags) (closeOnExec : Bool)
      (h : fs.pipe2 statusFlags closeOnExec = .ok (fs', reader, writer)) :
      Shift φ δ κ μ depth (fs, ds) (fs', writer.openFileDescription :: reader.openFileDescription :: ds)
  | ref {fs fs' : FS} {ds : List DescriptionId} (d : DescriptionId) (f : FileId) (hd : fs.fileOf d = some f)
      (h : fs.ref f = .ok fs') : Shift φ δ κ μ depth (fs, ds) (fs', d :: ds)
  | close {fs fs' : FS} {ds : List DescriptionId} (descriptor : FileDescriptor) (hκ : κ fs descriptor.openFileDescription)
      (h : fs.close depth descriptor = .ok fs') : Shift φ δ κ μ depth (fs, descriptor.openFileDescription :: ds) (fs', ds)
  | perm {fs : FS} {ds ds' : List DescriptionId} (h : ds.Perm ds') : Shift φ δ κ μ depth (fs, ds) (fs, ds')

abbrev Shifts (φ : FS → FileId → Str → Prop) (δ : FS → FileId → Prop) (κ : FS → DescriptionId → Prop) (μ : Prop) (depth : Nat) :
    FS × List DescriptionId → FS × List DescriptionId → Prop := Relation.ReflTransGen (Shift φ δ κ μ depth)

section Shift

variable {φ : FS → FileId → Str → Prop} {δ : FS → FileId → Prop} {κ : FS → DescriptionId → Prop} {μ : Prop} {depth : Nat}
  {fs fs' : FS} {ds ds' : List DescriptionId}

theorem Shift.sound (hs : fs.Sound ds) (h : Shift φ δ κ μ depth (fs, ds) (fs', ds')) : fs'.Sound ds' := by
  cases h with
  | silent h => exact hs.silents (.single h)
  | openNode f accessMode statusFlags closeOnExec h => exact hs.openNode h
  | insertNode file accessMode statusFlags closeOnExec hfile h => exact hs.insertNode hfile h
  | pipe2 statusFlags closeOnExec h => exact hs.pipe2 h
  | ref d f hd h => exact hs.ref hd h
  | close descriptor hκ h => exact hs.close h
  | perm h => exact hs.perm h

/-- What each step keeps, the steps keep. -/
theorem Shifts.keep {I : FS → List DescriptionId → Prop}
    (hstep : ∀ fs ds fs' ds', fs.Sound ds → I fs ds → Shift φ δ κ μ depth (fs, ds) (fs', ds') → I fs' ds')
    (hs : fs.Sound ds) (hI : I fs ds) (h : Shifts φ δ κ μ depth (fs, ds) (fs', ds')) : fs'.Sound ds' ∧ I fs' ds' := by
  have key : ∀ p q, Shifts φ δ κ μ depth p q → p.1.Sound p.2 ∧ I p.1 p.2 → q.1.Sound q.2 ∧ I q.1 q.2 := by
    intro p q h hp
    induction h with
    | refl => exact hp
    | tail _ hshift ih => exact ⟨hshift.sound ih.1, hstep _ _ _ _ ih.1 ih.2 hshift⟩
  exact key (fs, ds) (fs', ds') h ⟨hs, hI⟩

theorem Shifts.sound (hs : fs.Sound ds) (h : Shifts φ δ κ μ depth (fs, ds) (fs', ds')) : fs'.Sound ds' :=
  (h.keep (I := fun _ _ => True) (fun _ _ _ _ _ _ _ => trivial) hs trivial).1

theorem silents_shifts (h : FS.Silents φ δ μ fs fs') : Shifts φ δ κ μ depth (fs, ds) (fs', ds) := by
  induction h with
  | refl => exact .refl
  | tail _ hsilent ih => exact ih.tail (.silent hsilent)

theorem opens_shifts {descriptor : FileDescriptor} (h : FS.Opens φ δ fs fs' descriptor) :
    Shifts φ δ κ μ depth (fs, ds) (fs', descriptor.openFileDescription :: ds) := by
  obtain ⟨f, accessMode, statusFlags, closeOnExec, before, opened, after⟩ := h
  exact ((silents_shifts before.silents).tail (.openNode f accessMode statusFlags closeOnExec opened)).trans
    (silents_shifts after.silents)

end Shift

namespace FileState

open FS FileDescriptors

variable {s s' : FileState} {fs fs' : FS} {host : HostFiles} {depth table : Nat} {fds fds' : FileDescriptors} {fd : Int}
  {answer : FileAnswer} {descriptor : FileDescriptor} {d : DescriptionId} {f : FileId} {φ : FS → FileId → Str → Prop}
  {δ : FS → FileId → Prop} {κ : FS → DescriptionId → Prop} {μ : Prop}

/-- The descriptors of all slots of all tables. -/
def openDescriptions (s : FileState) : List DescriptionId := s.tables.flatMap descriptions

theorem perm_of_getElem? (h : s.tables[table]? = some fds) :
    s.openDescriptions.Perm (descriptions fds ++ (s.tables.eraseIdx table).flatMap descriptions) := by
  obtain ⟨hlt, hget⟩ := List.getElem?_eq_some_iff.1 h
  have hperm := (List.getElem_cons_eraseIdx_perm hlt).symm.flatMap_right descriptions
  rwa [hget, List.flatMap_cons] at hperm

theorem perm_setTable (fds' : FileDescriptors) (h : s.tables[table]? = some fds) :
    (s.setTable table fds').openDescriptions.Perm (descriptions fds' ++ (s.tables.eraseIdx table).flatMap descriptions) := by
  have hlt : table < s.tables.length := (List.getElem?_eq_some_iff.1 h).1
  have hset : (s.setTable table fds').tables[table]? = some fds' := List.getElem?_set_self hlt
  have hperm := perm_of_getElem? hset
  rwa [setTable, List.eraseIdx_set_eq] at hperm

/-- A table gets one more descriptor. -/
theorem perm_cons (h : s.tables[table]? = some fds) (hperm : (descriptions fds').Perm (d :: descriptions fds)) :
    (s.setTable table fds').openDescriptions.Perm (d :: s.openDescriptions) :=
  (perm_setTable fds' h).trans ((hperm.append_right _).trans ((perm_of_getElem? h).symm.cons d))

/-- The steps from one state to another. -/
def Shifts (φ : FS → FileId → Str → Prop) (δ : FS → FileId → Prop) (κ : FS → DescriptionId → Prop) (μ : Prop) (depth : Nat)
    (s s' : FileState) : Prop :=
  X64Emulator.Shifts φ δ κ μ depth (s.fs, s.openDescriptions) (s'.fs, s'.openDescriptions)

theorem Shifts.refl (s : FileState) : s.Shifts φ δ κ μ depth s := Relation.ReflTransGen.refl

theorem Shifts.trans {s'' : FileState} (h : s.Shifts φ δ κ μ depth s') (h' : s'.Shifts φ δ κ μ depth s'') :
    s.Shifts φ δ κ μ depth s'' := Relation.ReflTransGen.trans h h'

/-- The tables stay as they are. -/
theorem shifts_of_silents (htables : s'.tables = s.tables) (h : Silents φ δ μ s.fs s'.fs) : s.Shifts φ δ κ μ depth s' := by
  unfold Shifts openDescriptions
  rw [htables]
  exact silents_shifts h

/-- A descriptor that was counted is placed. -/
theorem place_shifts (htable : s.tables[table]? = some fds)
    (h : X64Emulator.Shifts φ δ κ μ depth (s.fs, s.openDescriptions) (fs', descriptor.openFileDescription :: s.openDescriptions)) :
    s.Shifts φ δ κ μ depth (s.place table fds fs' descriptor).1 :=
  h.tail (.perm (perm_cons (s := { s with fs := fs' }) htable descriptions_insert).symm)

/-- What is known of the closes and the destroyed files of a call. -/
def Careful (δ : FS → FileId → Prop) (κ : FS → DescriptionId → Prop) (depth : Nat) (s : FileState) (table : Nat)
    (fds : FileDescriptors) : FileCall → Prop
  | .unlink path => ∀ f file, s.fs.tryGetFile depth path .YES = .ok (some f) → s.fs.files.get? f = some file →
      file.refCount = 0 → ∀ fs1 taken, s.fs.tryTakeFile path = .ok (fs1, some taken) → δ fs1 taken
  | .close fd => ∀ descriptor, fds.findFileDescriptor fd = some descriptor → κ s.fs descriptor.openFileDescription
  | .closeAll => ∀ n t fds' descriptor, n < fds.length → (List.range n).foldlM (closeSlot depth table) s = .ok t →
      t.tables[table]? = some fds' → fds'.findFileDescriptor n = some descriptor → κ t.fs descriptor.openFileDescription
  | .dup2 oldfd newfd | .dup3 oldfd newfd _ => oldfd ≠ newfd → (fds.findFileDescriptor oldfd).isSome = true →
      ∀ descriptor, fds.findFileDescriptor newfd = some descriptor → κ s.fs descriptor.openFileDescription
  | _ => True

theorem careful_of_any (hδ : ∀ fs f, δ fs f) (hκ : ∀ fs d, κ fs d) (call : FileCall) : s.Careful δ κ depth table fds call := by
  cases call with
  | unlink path => exact fun _ _ _ _ _ _ _ _ => hδ _ _
  | close fd => exact fun _ _ => hκ _ _
  | closeAll => exact fun _ _ _ _ _ _ _ _ => hκ _ _
  | dup2 oldfd newfd => exact fun _ _ _ _ => hκ _ _
  | dup3 oldfd newfd closeOnExec => exact fun _ _ _ _ => hκ _ _
  | _ => exact trivial

theorem close_shifts (htable : s.tables[table]? = some fds)
    (hκ : ∀ descriptor, fds.findFileDescriptor fd = some descriptor → κ s.fs descriptor.openFileDescription)
    (h : s.close depth table fds fd = .ok (s', answer)) : s.Shifts φ δ κ μ depth s' := by
  rcases close_cases h with ⟨-, rfl⟩ | ⟨descriptor, fs1, hfind, hclose, rfl⟩
  · exact .refl s'
  · obtain ⟨-, hslot⟩ := findFileDescriptor_eq_some.1 hfind
    have hperm := (perm_of_getElem? htable).trans ((descriptions_clear hslot).append_right _)
    have hbefore := hperm.trans ((perm_setTable (fds.clear fd.toNat) htable).symm.cons _)
    exact Relation.ReflTransGen.head (.perm hbefore) (.single (.close descriptor (hκ descriptor hfind) hclose))

/-- The closes of the first slots, each in the state that those before it leave. -/
theorem closeSlots_shifts {n : Nat} (hκ : ∀ i t fds descriptor, i < n →
      (List.range i).foldlM (closeSlot depth table) s = .ok t → t.tables[table]? = some fds →
      fds.findFileDescriptor i = some descriptor → κ t.fs descriptor.openFileDescription)
    (h : (List.range n).foldlM (closeSlot depth table) s = .ok s') : s.Shifts φ δ κ μ depth s' := by
  induction n generalizing s' with
  | zero =>
    obtain rfl := Except.ok.inj h
    exact .refl s
  | succ n ih =>
    rw [List.range_succ, List.foldlM_append] at h
    obtain ⟨t, ht, h⟩ := bind_eq_ok.1 h
    obtain ⟨t', hslot, h⟩ := bind_eq_ok.1 h
    obtain rfl := Except.ok.inj h
    refine (ih (fun i t fds descriptor hi => hκ i t fds descriptor (Nat.lt_succ_of_lt hi)) ht).trans ?_
    rcases closeSlot_cases hslot with ⟨-, rfl⟩ | ⟨fds, answer, htable, hclose⟩
    · exact .refl t'
    · exact close_shifts htable (fun descriptor hfind => hκ n t fds descriptor (Nat.lt_succ_self n) ht htable hfind) hclose

theorem replace_shifts (htable : s.tables[table]? = some fds) {source : FileDescriptor} {newfd : Int} {closeOnExec : Bool}
    (hκ : ∀ descriptor, fds.findFileDescriptor newfd = some descriptor → κ s.fs descriptor.openFileDescription)
    (h : s.replace depth table fds source newfd closeOnExec = .ok (s', answer)) : s.Shifts φ δ κ μ depth s' := by
  obtain ⟨s1, answer1, ofd, fs2, hclose, hofd, href, hpos, rfl⟩ := replace_cases h
  have hof : s1.fs.fileOf source.openFileDescription = some ofd.file := by rw [fileOf, hofd]; rfl
  -- the slot of the target is free by now
  obtain ⟨fds1, htable1, hput, hfree⟩ : ∃ fds1 : FileDescriptors, s1.tables[table]? = some fds1 ∧
      fds.put newfd.toNat ⟨source.openFileDescription, closeOnExec⟩ = fds1.put newfd.toNat ⟨source.openFileDescription, closeOnExec⟩ ∧
      fds1[newfd.toNat]?.join = none := by
    rcases close_cases hclose with ⟨hnone, rfl⟩ | ⟨descriptor, fs1, hfind, -, rfl⟩
    · exact ⟨fds, htable, rfl, findFileDescriptor_eq_none hpos hnone⟩
    · obtain ⟨-, hslot⟩ := findFileDescriptor_eq_some.1 hfind
      have hlt : newfd.toNat < fds.length := (List.getElem?_eq_some_iff.1 hslot).1
      have hltable : table < s.tables.length := (List.getElem?_eq_some_iff.1 htable).1
      refine ⟨fds.clear newfd.toNat, List.getElem?_set_self hltable, put_clear hlt, ?_⟩
      rw [clear, List.getElem?_set_self hlt]
      rfl
  rw [hput]
  have hperm := perm_cons (s := { s1 with fs := fs2 }) htable1
    (descriptions_put ⟨source.openFileDescription, closeOnExec⟩ hfree)
  refine (close_shifts htable hκ hclose).trans ?_
  exact Relation.ReflTransGen.head (.ref _ _ hof href) (.single (.perm hperm.symm))

theorem refSlots_shifts {slots : List (Option FileDescriptor)} {ds : List DescriptionId}
    (h : slots.foldlM refSlot fs = .ok fs') : X64Emulator.Shifts φ δ κ μ depth (fs, ds) (fs', descriptions slots ++ ds) := by
  induction slots generalizing fs ds with
  | nil => exact Except.ok.inj h ▸ .refl
  | cons slot slots ih =>
    rw [List.foldlM_cons] at h
    obtain ⟨fs1, hslot, hrest⟩ := bind_eq_ok.1 h
    rcases refSlot_cases hslot with ⟨rfl, rfl⟩ | ⟨descriptor, ofd, rfl, hofd, href⟩
    · exact ih hrest
    · exact ((ih hrest).head (.ref _ _ (by rw [fileOf, hofd]; rfl) href)).tail (.perm List.perm_middle)

theorem clone_shifts {fs1 : FS} (h : fds.foldlM refSlot s.fs = .ok fs1) :
    s.Shifts φ δ κ μ depth { s with fs := fs1, tables := s.tables ++ [fds] } := by
  refine Relation.ReflTransGen.tail (refSlots_shifts h) (.perm ?_)
  simp only [openDescriptions, List.flatMap_append, List.flatMap_cons, List.flatMap_nil, List.append_nil]
  exact List.perm_append_comm

theorem socket_shifts (htable : s.tables[table]? = some fds) {domain : Int} {raw nonBlock closeOnExec : Bool}
    {result : ErrnoOr FileDescriptor} (h : s.fs.socket host domain raw nonBlock closeOnExec = .ok (fs', result)) :
    s.Shifts φ δ κ μ depth (s.placeOr table fds fs' result).1 := by
  unfold FS.socket at h
  split at h
  · obtain ⟨⟨fs1, descriptor⟩, hinsert, h⟩ := bind_eq_ok.1 h
    obtain ⟨rfl, rfl⟩ := ok_pair h
    exact place_shifts htable (.single (.insertNode _ _ _ _ ⟨rfl, rfl, rfl⟩ hinsert))
  · obtain ⟨rfl, rfl⟩ := ok_pair h
    exact .refl s

/-- A read or a write, which may change the data of a pipe. -/
def movesData : FileCall → Bool
  | .read _ _ | .pread _ _ _ | .write _ _ | .pwrite _ _ _ => true
  | _ => false

/-- Every call is made of the steps. -/
theorem perform_shifts (ht : s.fs.Tree) (htable : s.tables[table]? = some fds) {call : FileCall} (hφ : Allows φ)
    (hadmitted : Admitted φ host depth s.fs call) (hcareful : s.Careful δ κ depth table fds call) (hμ : movesData call = true → μ)
    (h : s.perform host depth table fds call = .ok (s', answer)) : s.Shifts φ δ κ μ depth s' := by
  cases performed h with
  | refused => exact .refl s
  | @«open» path accessMode creationFlags statusFlags fs1 result hopen =>
    have hgives := openPath_gives (δ := δ) hφ ht hadmitted hopen
    cases result with
    | ok descriptor => exact place_shifts htable (opens_shifts hgives)
    | error errno =>
      obtain rfl : fs1 = s.fs := hgives
      exact .refl s
  | close hclose => exact close_shifts htable hcareful hclose
  | closeAll hclose => exact closeSlots_shifts hcareful hclose
  | dup hfind hofd href => exact place_shifts htable (.single (.ref _ _ (by rw [fileOf, hofd]; rfl) href))
  | dup2 hne hfind hreplace => exact replace_shifts htable (hcareful hne (by rw [hfind]; rfl)) hreplace
  | dup3 hne hfind hreplace => exact replace_shifts htable (hcareful hne (by rw [hfind]; rfl)) hreplace
  | clone href => exact clone_shifts href
  | memfd_create hcreate =>
    obtain ⟨-, -, hinsert⟩ := bind_eq_ok.1 hcreate
    exact place_shifts htable (.single (.insertNode _ _ _ _ ⟨rfl, rfl, rfl⟩ hinsert))
  | eventfd2 hcreate =>
    obtain ⟨-, -, hinsert⟩ := bind_eq_ok.1 hcreate
    exact place_shifts htable (.single (.insertNode _ _ _ _ ⟨rfl, rfl, rfl⟩ hinsert))
  | epoll_create1 hcreate => exact place_shifts htable (.single (.insertNode _ _ _ _ ⟨rfl, rfl, rfl⟩ hcreate))
  | socket hsocket => exact socket_shifts htable hsocket
  | @pipe2 statusFlags closeOnExec fs1 reader writer hpipe =>
    have hperm : (descriptions ((fds.insert reader).insert writer)).Perm
        (writer.openFileDescription :: reader.openFileDescription :: descriptions fds) :=
      descriptions_insert.trans (descriptions_insert.cons _)
    have hafter := (perm_setTable (s := { s with fs := fs1 }) ((fds.insert reader).insert writer) htable).trans
      ((hperm.append_right _).trans (((perm_of_getElem? htable).symm.cons _).cons _))
    exact Relation.ReflTransGen.head (.pipe2 statusFlags closeOnExec hpipe) (.single (.perm hafter.symm))
  | mkdir hmkdir => exact shifts_of_silents rfl (mkdir_edits hφ ht hmkdir).silents
  | rename hrename => exact shifts_of_silents rfl (rename_edits hφ ht hadmitted hrename).silents
  | unlink hunlink => exact shifts_of_silents rfl (unlink_edits ht hcareful hunlink).silents
  | readlink hreadlink => exact shifts_of_silents rfl (readlink_edits hφ ht hadmitted hreadlink).silents
  | resetProcFS hreset => exact shifts_of_silents rfl (resetProcFS_edits hφ ht hadmitted hreset).silents
  | read _ hread => exact shifts_of_silents rfl (read_silents (hμ rfl) hread)
  | pread _ hread =>
    obtain ⟨ofd, -, hread, -⟩ := pread_cases hread
    exact shifts_of_silents rfl (readFile_silents (hμ rfl) hread)
  | write _ hwrite => exact shifts_of_silents rfl (write_silents (hμ rfl) hwrite)
  | pwrite _ hwrite => exact shifts_of_silents rfl (pwrite_silents (hμ rfl) hwrite)
  | lseek _ hseek => exact shifts_of_silents rfl (lseek_silents hseek)
  | ftruncate _ htruncate => exact shifts_of_silents rfl (ftruncate_silents htruncate)
  | setNonBlocking _ hset => exact shifts_of_silents rfl (setNonBlocking_silents hset)

theorem tryUnblock_shifts {index : Nat} {blocker : BlockedRead} (hμ : μ)
    (h : s.tryUnblock host index blocker = .ok (s', answer)) : s.Shifts φ δ κ μ depth s' := by
  rcases tryUnblock_cases h with ⟨-, hfs, htables, -⟩ | ⟨descriptor, fs1, result, -, hread, rfl, htables, -⟩
  · exact shifts_of_silents htables (hfs ▸ .refl)
  · exact shifts_of_silents htables (read_silents hμ hread)

end FileState

end X64Emulator
