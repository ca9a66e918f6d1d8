import X64Emulator.Lemmas.DescriptorTables

/-!
# Duplicating descriptors

`dup`, `dup2` and `dup3` make a slot of the table share the open file description of another one. What they do with the files
(the target is closed, the file of the source gets a reference) may fail for reasons of its own; what they do with the table
goes wrong for a target that is no slot.
-/

namespace X64Emulator

open Outcome FileDescriptors

/-- A call that duplicates a descriptor; its arguments are the integers of the guest. -/
inductive Duplication where
  | dup (fd : BitVec 32)
  | dup2 (oldfd newfd : BitVec 32)
  | dup3 (oldfd newfd : BitVec 32) (closeOnExec : Bool)
deriving DecidableEq, Repr

namespace FileState

/-- The descriptor in a slot of a table. -/
def slot? (s : FileState) (table n : Nat) : Option FileDescriptor := ((s.tables[table]?.getD [])[n]?).join

end FileState

namespace Duplication

variable {s s' : FileState} {host : HostFiles} {depth table : Nat} {fds : FileDescriptors}

def call : Duplication → FileCall
  | .dup fd => .dup fd.toInt
  | .dup2 oldfd newfd => .dup2 oldfd.toInt newfd.toInt
  | .dup3 oldfd newfd closeOnExec => .dup3 oldfd.toInt newfd.toInt closeOnExec

/-- The descriptor that is duplicated. -/
def source (fds : FileDescriptors) : Duplication → Option FileDescriptor
  | .dup fd => fds.findFileDescriptor fd.toInt
  | .dup2 oldfd _ | .dup3 oldfd _ _ => fds.findFileDescriptor oldfd.toInt

/-- The file of a descriptor gets a reference. -/
def refer (fs : FS) (descriptor : FileDescriptor) : Except FsFailure FS := do
  let ofd ← fs.description descriptor.openFileDescription
  fs.ref ofd.file

/-- What was in the slot of the target is closed, and the file of the source gets a reference. -/
def swap (depth : Nat) (fs : FS) (target : Option FileDescriptor) (source : FileDescriptor) : Except FsFailure FS :=
  match target with
  | none => refer fs source
  | some descriptor => do
    let fs ← fs.close depth descriptor
    refer fs source

/-- What a call does with the files once its source is found. -/
def workOn (depth : Nat) (fs : FS) (fds : FileDescriptors) (source : FileDescriptor) : Duplication → Except FsFailure FS
  | .dup _ => refer fs source
  | .dup2 oldfd newfd | .dup3 oldfd newfd _ =>
    if oldfd = newfd then .ok fs else swap depth fs (fds.findFileDescriptor newfd.toInt) source

/-- What a call does with the files. -/
def work (depth : Nat) (fs : FS) (fds : FileDescriptors) (c : Duplication) : Except FsFailure FS :=
  match c.source fds with
  | none => .ok fs
  | some source => c.workOn depth fs fds source

/-- The slot that a call may give: the lowest that is free, or the target. -/
def Gives (fds : FileDescriptors) (n : Nat) : Duplication → Prop
  | .dup _ => fds[n]?.join = none ∧ ∀ i < n, fds[i]?.join ≠ none
  | .dup2 _ newfd | .dup3 _ newfd _ => newfd.toInt = n

/-- After the call the slot shares the open file description of the source, and no other slot of any table is changed. -/
structure Shares (s s' : FileState) (table n : Nat) (source : FileDescriptor) : Prop where
  shared : (s'.slot? table n).map FileDescriptor.openFileDescription = some source.openFileDescription
  others : ∀ t i, ¬ (t = table ∧ i = n) → s'.slot? t i = s.slot? t i

/-- The calls that are to be refused: the source is not open, or `dup3` is given equal numbers. -/
def Refused (fds : FileDescriptors) : Duplication → Prop
  | .dup fd => fds.findFileDescriptor fd.toInt = none
  | .dup2 oldfd _ => fds.findFileDescriptor oldfd.toInt = none
  | .dup3 oldfd newfd _ => oldfd = newfd ∨ fds.findFileDescriptor oldfd.toInt = none

/-- The call fails only where its work on the files does. Otherwise it gives an error number and changes nothing, and that where it
is to be refused; or it gives a slot that shares the description of the source, and the files are as the work leaves them. -/
structure Right (c : Duplication) (depth : Nat) (s : FileState) (table : Nat) (fds : FileDescriptors)
    (res : Except FsFailure (FileState × FileAnswer)) : Prop where
  fails : ∀ e, c.work depth s.fs fds = .error e → res = .error e
  ends : ∀ fs, c.work depth s.fs fds = .ok fs → ∃ s' n, res = .ok (s', .value n) ∧
    (n < 0 ↔ c.Refused fds) ∧ (n < 0 → (n = -EBADF ∨ n = -EINVAL) ∧ s' = s) ∧
    (0 ≤ n → s'.fs = fs ∧ c.Gives fds n.toNat ∧ ∃ source, c.source fds = some source ∧ Shares s s' table n.toNat source)

/-- The target is a slot that a table can have, if the call gets so far. -/
def InTable (fds : FileDescriptors) : Duplication → Prop
  | .dup _ => True
  | .dup2 oldfd newfd | .dup3 oldfd newfd _ =>
    fds.findFileDescriptor oldfd.toInt = none ∨ oldfd = newfd ∨ (0 ≤ newfd.toInt ∧ newfd.toInt < 2 ^ 31 - 1)

theorem join_put (fds : FileDescriptors) (fd : Nat) (descriptor : FileDescriptor) (i : Nat) :
    (fds.put fd descriptor)[i]?.join = if i = fd then some descriptor else fds[i]?.join := by
  have hlength : fd < (fds ++ List.replicate (fd + 1 - fds.length) none).length := by
    rw [List.length_append, List.length_replicate]
    omega
  split
  · next heq =>
    rw [heq, put, List.getElem?_set_self hlength]
    rfl
  · next hne =>
    rw [put, List.getElem?_set_ne (Ne.symm hne)]
    rcases Nat.lt_or_ge i fds.length with hlt | hge
    · rw [List.getElem?_append_left hlt]
    · rw [List.getElem?_append_right hge, List.getElem?_replicate, List.getElem?_eq_none hge]
      split <;> rfl

/-- A table that differs in one slot. -/
theorem shares_setTable (fs : FS) {n : Nat} (source : FileDescriptor) (closeOnExec : Bool) (htable : s.tables[table]? = some fds)
    (tables : List FileDescriptors) (htables : tables = s.tables ∨ tables = s.tables.set table (fds.clear n)) :
    Shares s (FileState.setTable { s with fs := fs, tables := tables } table
      (fds.put n ⟨source.openFileDescription, closeOnExec⟩)) table n source := by
  have hlt : table < s.tables.length := (List.getElem?_eq_some_iff.1 htable).1
  have hset : tables.set table (fds.put n ⟨source.openFileDescription, closeOnExec⟩) =
      s.tables.set table (fds.put n ⟨source.openFileDescription, closeOnExec⟩) := by
    rcases htables with rfl | rfl
    · rfl
    · rw [List.set_set]
  constructor
  · rw [FileState.slot?, FileState.setTable, hset, List.getElem?_set_self hlt, Option.getD_some, join_put, if_pos rfl]
    rfl
  · intro t i hne
    rw [FileState.slot?, FileState.setTable, hset, FileState.slot?]
    by_cases ht : t = table
    · subst ht
      rw [List.getElem?_set_self hlt, htable, Option.getD_some, Option.getD_some, join_put, if_neg fun hi => hne ⟨rfl, hi⟩]
    · rw [List.getElem?_set_ne (Ne.symm ht)]

/-- The tables once the target is closed. -/
def closedTables (s : FileState) (table : Nat) (fds : FileDescriptors) (newfd : Int) : List FileDescriptors :=
  match fds.findFileDescriptor newfd with
  | none => s.tables
  | some _ => s.tables.set table (fds.clear newfd.toNat)

/-- `replace` as its work on the files, and what is left once that is done. -/
theorem replace_eq (source : FileDescriptor) (newfd : Int) (closeOnExec : Bool) :
    s.replace depth table fds source newfd closeOnExec = (do
      let fs ← swap depth s.fs (fds.findFileDescriptor newfd) source
      check (0 ≤ newfd) .outOfBounds
      check (newfd < 2 ^ 31 - 1) .overflow
      .ok (FileState.setTable { s with fs := fs, tables := closedTables s table fds newfd } table
        (fds.put newfd.toNat ⟨source.openFileDescription, closeOnExec⟩), .value newfd)) := by
  unfold FileState.replace FileState.close closedTables swap
  cases fds.findFileDescriptor newfd with
  | none =>
    unfold refer
    simp only [ok_bind, bind_assoc]
  | some descriptor =>
    unfold refer
    simp only [ok_bind, bind_assoc]
    rfl

theorem closedTables_cases (s : FileState) (table : Nat) (fds : FileDescriptors) (newfd : Int) :
    closedTables s table fds newfd = s.tables ∨ closedTables s table fds newfd = s.tables.set table (fds.clear newfd.toNat) := by
  unfold closedTables
  split
  · exact .inl rfl
  · exact .inr rfl

variable {source : FileDescriptor} {newfd : BitVec 32} {c : Duplication}

/-- The target is replaced where it is a slot that a table can have. -/
theorem replace_right {newfd : Int} (closeOnExec : Bool) {fs : FS}
    (htable : s.tables[table]? = some fds) (hpos : 0 ≤ newfd) (hlt : newfd < 2 ^ 31 - 1)
    (hwork : swap depth s.fs (fds.findFileDescriptor newfd) source = .ok fs) :
    ∃ s', s.replace depth table fds source newfd closeOnExec = .ok (s', .value newfd) ∧ s'.fs = fs ∧
      Shares s s' table newfd.toNat source := by
  refine ⟨_, ?_, rfl, shares_setTable fs source closeOnExec htable _ (closedTables_cases s table fds newfd)⟩
  rw [replace_eq, hwork, ok_bind, (check_eq_ok (u := ())).2 hpos, ok_bind, (check_eq_ok (u := ())).2 hlt, ok_bind]

theorem replace_fails {newfd : Int} (closeOnExec : Bool) {e : FsFailure}
    (hwork : swap depth s.fs (fds.findFileDescriptor newfd) source = .error e) :
    s.replace depth table fds source newfd closeOnExec = .error e := by
  rw [replace_eq, hwork, error_bind]

/-- The lowest free slot is the one that is allocated. -/
theorem gives_allocateFd (fds : FileDescriptors) (fd : BitVec 32) : (dup fd).Gives fds fds.allocateFd := by
  refine ⟨allocateFd_free, fun i hi => ?_⟩
  have hlt : i < fds.length := Nat.lt_of_lt_of_le hi List.findIdx_le_length
  have hsome := List.not_of_lt_findIdx hi
  rw [List.getElem?_eq_getElem hlt]
  cases hslot : fds[i] with
  | none =>
    rw [hslot] at hsome
    cases hsome
  | some descriptor => exact Option.some_ne_none _

/-- The source shares its own description. -/
theorem shares_self {fd : Int} (htable : s.tables[table]? = some fds)
    (hfind : fds.findFileDescriptor fd = some source) : Shares s s table fd.toNat source := by
  refine ⟨?_, fun _ _ _ => rfl⟩
  obtain ⟨-, hslot⟩ := findFileDescriptor_eq_some.1 hfind
  rw [FileState.slot?, htable, Option.getD_some, hslot]
  rfl

theorem work_of_none (h : c.source fds = none) : c.work depth s.fs fds = .ok s.fs := by
  unfold work
  rw [h]

theorem work_of_some (h : c.source fds = some source) :
    c.work depth s.fs fds = c.workOn depth s.fs fds source := by
  unfold work
  rw [h]

/-- A call that is refused before it does anything. -/
theorem right_refused {res : Except FsFailure (FileState × FileAnswer)} {n : Int}
    (hwork : c.work depth s.fs fds = .ok s.fs) (hres : res = .ok (s, .value n)) (hn : n = -EBADF ∨ n = -EINVAL)
    (hrefused : c.Refused fds) : c.Right depth s table fds res := by
  have hneg : n < 0 := by rcases hn with rfl | rfl <;> decide
  refine ⟨fun e he => ?_, fun fs hfs =>
    ⟨s, n, hres, iff_of_true hneg hrefused, fun _ => ⟨hn, rfl⟩, fun h => absurd h (by omega)⟩⟩
  rw [hwork] at he
  cases he

theorem dup_right (htable : s.tables[table]? = some fds) (fd : BitVec 32) :
    (dup fd).Right depth s table fds (s.dup table fds fd.toInt) := by
  cases hfind : fds.findFileDescriptor fd.toInt with
  | none =>
    have hres : s.dup table fds fd.toInt = .ok (s, .value (-EBADF)) := by rw [FileState.dup, hfind]
    exact right_refused (work_of_none hfind) hres (.inl rfl) hfind
  | some source =>
    have hwork : (dup fd).work depth s.fs fds = refer s.fs source := work_of_some hfind
    have hres : s.dup table fds fd.toInt =
        (refer s.fs source >>= fun fs => .ok (s.place table fds fs ⟨source.openFileDescription, false⟩)) := by
      rw [FileState.dup, hfind, refer, bind_assoc]
    rw [hres]
    refine ⟨fun e he => ?_, fun fs hfs => ?_⟩
    · rw [← hwork, he, error_bind]
    · rw [← hwork, hfs, ok_bind]
      have hopen : ¬ (dup fd).Refused fds := by rw [Refused, hfind]; exact Option.some_ne_none _
      refine ⟨_, fds.allocateFd, rfl, iff_of_false (by omega) hopen, fun h => absurd h (by omega), fun _ => ?_⟩
      exact ⟨rfl, gives_allocateFd fds fd, source, hfind, shares_setTable fs source false htable s.tables (.inl rfl)⟩

/-- A call that replaces its target. -/
theorem right_replace {closeOnExec : Bool}
    (htable : s.tables[table]? = some fds) (hsource : c.source fds = some source) (hopen : ¬ c.Refused fds)
    (hgives : ∀ n : Nat, newfd.toInt = n → c.Gives fds n)
    (hwork : c.workOn depth s.fs fds source = swap depth s.fs (fds.findFileDescriptor newfd.toInt) source)
    (hpos : 0 ≤ newfd.toInt) (hlt : newfd.toInt < 2 ^ 31 - 1) :
    c.Right depth s table fds (s.replace depth table fds source newfd.toInt closeOnExec) := by
  have hwork : c.work depth s.fs fds = swap depth s.fs (fds.findFileDescriptor newfd.toInt) source :=
    (work_of_some hsource).trans hwork
  refine ⟨fun e he => replace_fails closeOnExec (hwork ▸ he), fun fs hfs => ?_⟩
  obtain ⟨s', hres, hfs', hshares⟩ := replace_right closeOnExec htable hpos hlt (hwork ▸ hfs)
  refine ⟨s', newfd.toInt, hres, iff_of_false (by omega) hopen, fun h => absurd h (by omega), fun _ => ?_⟩
  exact ⟨hfs', hgives _ (Int.toNat_of_nonneg hpos).symm, source, hsource, hshares⟩

theorem dup2_of_some {oldfd : BitVec 32}
    (hfind : fds.findFileDescriptor oldfd.toInt = some source) (hne : oldfd ≠ newfd) :
    s.dup2 depth table fds oldfd.toInt newfd.toInt = s.replace depth table fds source newfd.toInt false := by
  rw [FileState.dup2, hfind]
  exact if_neg fun h => hne (BitVec.toInt_inj.1 h)

theorem dup3_of_some {oldfd : BitVec 32} (closeOnExec : Bool)
    (hfind : fds.findFileDescriptor oldfd.toInt = some source) (hne : oldfd ≠ newfd) :
    s.dup3 depth table fds oldfd.toInt newfd.toInt closeOnExec = s.replace depth table fds source newfd.toInt closeOnExec := by
  rw [FileState.dup3, if_neg fun h => hne (BitVec.toInt_inj.1 h), hfind]

theorem dup2_right (htable : s.tables[table]? = some fds) {oldfd : BitVec 32} (h : (dup2 oldfd newfd).InTable fds) :
    (dup2 oldfd newfd).Right depth s table fds (s.dup2 depth table fds oldfd.toInt newfd.toInt) := by
  cases hfind : fds.findFileDescriptor oldfd.toInt with
  | none =>
    have hres : s.dup2 depth table fds oldfd.toInt newfd.toInt = .ok (s, .value (-EBADF)) := by rw [FileState.dup2, hfind]
    exact right_refused (work_of_none hfind) hres (.inl rfl) hfind
  | some source =>
    have hopen : ¬ (dup2 oldfd newfd).Refused fds := by rw [Refused, hfind]; exact Option.some_ne_none _
    by_cases heq : oldfd = newfd
    · subst heq
      obtain ⟨hpos, -⟩ := findFileDescriptor_eq_some.1 hfind
      have hwork : (dup2 oldfd oldfd).work depth s.fs fds = .ok s.fs :=
        (work_of_some (c := dup2 oldfd oldfd) hfind).trans (if_pos rfl)
      have hres : s.dup2 depth table fds oldfd.toInt oldfd.toInt = .ok (s, .value oldfd.toInt) := by
        rw [FileState.dup2, hfind]
        exact if_pos rfl
      refine ⟨fun e he => ?_, fun fs hfs =>
        ⟨s, oldfd.toInt, hres, iff_of_false (by omega) hopen, fun h => absurd h (by omega), fun _ => ?_⟩⟩
      · rw [hwork] at he
        cases he
      · exact ⟨Except.ok.inj (hwork.symm.trans hfs), (Int.toNat_of_nonneg hpos).symm, source, hfind, shares_self htable hfind⟩
    · obtain ⟨hpos, hlt⟩ := (h.resolve_left (by rw [hfind]; exact Option.some_ne_none _)).resolve_left heq
      rw [dup2_of_some hfind heq]
      exact right_replace htable hfind hopen (fun _ hn => hn) (if_neg heq) hpos hlt

theorem dup3_right (htable : s.tables[table]? = some fds) {oldfd : BitVec 32} {closeOnExec : Bool}
    (h : (dup3 oldfd newfd closeOnExec).InTable fds) :
    (dup3 oldfd newfd closeOnExec).Right depth s table fds (s.dup3 depth table fds oldfd.toInt newfd.toInt closeOnExec) := by
  by_cases heq : oldfd = newfd
  · subst heq
    have hwork : (dup3 oldfd oldfd closeOnExec).work depth s.fs fds = .ok s.fs := by
      cases hfind : fds.findFileDescriptor oldfd.toInt with
      | none => exact work_of_none hfind
      | some source => exact (work_of_some (c := dup3 oldfd oldfd closeOnExec) hfind).trans (if_pos rfl)
    exact right_refused hwork (if_pos rfl) (.inr rfl) (.inl rfl)
  · cases hfind : fds.findFileDescriptor oldfd.toInt with
    | none =>
      have hres : s.dup3 depth table fds oldfd.toInt newfd.toInt closeOnExec = .ok (s, .value (-EBADF)) := by
        rw [FileState.dup3, if_neg fun h => heq (BitVec.toInt_inj.1 h), hfind]
      exact right_refused (work_of_none hfind) hres (.inl rfl) (.inr hfind)
    | some source =>
      have hopen : ¬ (dup3 oldfd newfd closeOnExec).Refused fds := by
        rw [Refused, hfind, not_or]
        exact ⟨heq, Option.some_ne_none _⟩
      obtain ⟨hpos, hlt⟩ := (h.resolve_left (by rw [hfind]; exact Option.some_ne_none _)).resolve_left heq
      rw [dup3_of_some closeOnExec hfind heq]
      exact right_replace htable hfind hopen (fun _ hn => hn) (if_neg heq) hpos hlt

theorem findFileDescriptor_outside (hlength : fds.length < 2 ^ 31)
    (houtside : ¬ (0 ≤ newfd.toInt ∧ newfd.toInt < 2 ^ 31 - 1)) : fds.findFileDescriptor newfd.toInt = none := by
  cases hfind : fds.findFileDescriptor newfd.toInt with
  | none => rfl
  | some descriptor =>
    obtain ⟨hpos, hslot⟩ := findFileDescriptor_eq_some.1 hfind
    have hlt := (List.getElem?_eq_some_iff.1 hslot).1
    omega

/-- The file of the source exists. -/
def Lives (fs : FS) (fds : FileDescriptors) (c : Duplication) : Prop :=
  ∀ source, c.source fds = some source → ∃ fs', refer fs source = .ok fs'

/-- A target that no table can have is not refused: the access goes past the table. -/
theorem not_right_outside (closeOnExec : Bool)
    (hlength : fds.length < 2 ^ 31) (hlives : c.Lives s.fs fds) (hsource : c.source fds = some source)
    (hwork : c.workOn depth s.fs fds source = swap depth s.fs (fds.findFileDescriptor newfd.toInt) source)
    (houtside : ¬ (0 ≤ newfd.toInt ∧ newfd.toInt < 2 ^ 31 - 1)) :
    ¬ c.Right depth s table fds (s.replace depth table fds source newfd.toInt closeOnExec) := by
  obtain ⟨fs, hrefer⟩ := hlives source hsource
  have hnone := findFileDescriptor_outside hlength houtside
  have hok : c.work depth s.fs fds = .ok fs := by rw [work_of_some hsource, hwork, hnone, swap, hrefer]
  intro hright
  obtain ⟨s', n, hres, -⟩ := hright.ends fs hok
  rw [replace_eq, hnone, swap, hrefer, ok_bind] at hres
  obtain ⟨_, hpos, hres⟩ := bind_eq_ok.1 hres
  obtain ⟨_, hlt, -⟩ := bind_eq_ok.1 hres
  exact houtside ⟨check_eq_ok.1 hpos, check_eq_ok.1 hlt⟩

/-- A duplication does what it says for a target that is a slot, and, where the file of its source exists, for no other. A
table has no more slots than there are integers for them. -/
theorem duplicates_iff (host : HostFiles) (depth : Nat) (s : FileState) (table : Nat) (fds : FileDescriptors)
    (htable : s.tables[table]? = some fds) (c : Duplication) :
    (c.InTable fds → c.Right depth s table fds (s.perform host depth table fds c.call)) ∧
    (fds.length < 2 ^ 31 → c.Lives s.fs fds → c.Right depth s table fds (s.perform host depth table fds c.call) →
      c.InTable fds) := by
  constructor
  · intro h
    cases c with
    | dup fd => exact dup_right htable fd
    | dup2 oldfd newfd => exact dup2_right htable h
    | dup3 oldfd newfd closeOnExec => exact dup3_right htable h
  · intro hlength hlives hright
    cases c with
    | dup fd => trivial
    | dup2 oldfd newfd =>
      by_contra hin
      obtain ⟨hsome, hne, houtside⟩ : fds.findFileDescriptor oldfd.toInt ≠ none ∧ oldfd ≠ newfd ∧
          ¬ (0 ≤ newfd.toInt ∧ newfd.toInt < 2 ^ 31 - 1) := by simpa only [InTable, not_or] using hin
      obtain ⟨source, hsource⟩ := Option.ne_none_iff_exists'.1 hsome
      have hcall : s.perform host depth table fds (dup2 oldfd newfd).call =
        s.replace depth table fds source newfd.toInt false := dup2_of_some hsource hne
      exact not_right_outside _ hlength hlives hsource (if_neg hne) houtside (hcall ▸ hright)
    | dup3 oldfd newfd closeOnExec =>
      by_contra hin
      obtain ⟨hsome, hne, houtside⟩ : fds.findFileDescriptor oldfd.toInt ≠ none ∧ oldfd ≠ newfd ∧
          ¬ (0 ≤ newfd.toInt ∧ newfd.toInt < 2 ^ 31 - 1) := by simpa only [InTable, not_or] using hin
      obtain ⟨source, hsource⟩ := Option.ne_none_iff_exists'.1 hsome
      have hcall : s.perform host depth table fds (dup3 oldfd newfd closeOnExec).call =
        s.replace depth table fds source newfd.toInt closeOnExec := dup3_of_some closeOnExec hsource hne
      exact not_right_outside _ hlength hlives hsource (if_neg hne) houtside (hcall ▸ hright)

/-- A process with an eventfd in its first slot. -/
def oneEvent : FileState where
  fs := ((FS.bare.eventfd2 0 false false false).toOption.map Prod.fst).getD FS.bare
  tables := [[some ⟨0, false⟩]]
  readBlockers := []

theorem oneEvent_lives (c : Duplication) : c.Lives oneEvent.fs [some ⟨0, false⟩] := by
  have hlives : ∀ fd source, FileDescriptors.findFileDescriptor [some ⟨0, false⟩] fd = some source →
      ∃ fs', refer oneEvent.fs source = .ok fs' := by
    intro fd source hfind
    obtain ⟨-, hslot⟩ := findFileDescriptor_eq_some.1 hfind
    obtain ⟨hlt, hslot⟩ := List.getElem?_eq_some_iff.1 hslot
    have hzero : fd.toNat = 0 := Nat.lt_one_iff.1 hlt
    simp only [hzero] at hslot
    obtain rfl := Option.some.inj hslot
    exact ⟨_, rfl⟩
  cases c <;> exact fun source hsource => hlives _ source hsource

theorem duplicates_iff_fifth :
    (dup2 0 5).Right 1 oneEvent 0 [some ⟨0, false⟩] (oneEvent.perform bareHost 1 0 [some ⟨0, false⟩] (dup2 0 5).call) ∧
    (dup2 0 5).InTable [some ⟨0, false⟩] := by
  have hin : (dup2 0 5).InTable [some ⟨0, false⟩] := .inr (.inr ⟨by decide, by decide⟩)
  obtain ⟨hright, honly⟩ := duplicates_iff bareHost 1 oneEvent 0 [some ⟨0, false⟩] rfl (dup2 0 5)
  exact ⟨hright hin, honly (by decide) (oneEvent_lives _) (hright hin)⟩

/-- A target of minus one is not refused. -/
theorem duplicates_fails :
    ¬ (dup2 0 (-1)).Right 1 oneEvent 0 [some ⟨0, false⟩] (oneEvent.perform bareHost 1 0 [some ⟨0, false⟩] (dup2 0 (-1)).call) :=
  not_right_outside false (by decide) (oneEvent_lives _) rfl rfl (by decide)

end Duplication

end X64Emulator
