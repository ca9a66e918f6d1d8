import Mathlib.Data.List.ReduceOption
import X64Emulator.Lemmas.DescriptorSlots

/-!
# What the interest lists point to

Nothing takes an entry out of an interest list when the last descriptor of its description is closed, and an entry for a descriptor
that is not there points to nothing. An event that is taken for an instance has no list at all. Where no step does any of that,
every entry points to a description that a slot still owns, and waiting never uses one that was destroyed.
-/

namespace X64Emulator

open Outcome

namespace FS

variable {fs fs' fs'' : FS} {f : FileId} {depth : Nat}

theorem hasInterestList_iff : fs.hasInterestList f = true ↔ ∃ file, fs.files.get? f = some file ∧ file.kind = .epoll := by
  simp [hasInterestList]

/-- Every epoll instance was one before. -/
def NoNewEpoll (fs fs' : FS) : Prop := ∀ f, fs'.hasInterestList f = true → fs.hasInterestList f = true

theorem NoNewEpoll.refl (fs : FS) : fs.NoNewEpoll fs := fun _ h => h

theorem NoNewEpoll.trans (h : fs.NoNewEpoll fs') (h' : fs'.NoNewEpoll fs'') : fs.NoNewEpoll fs'' := fun f hf => h f (h' f hf)

theorem NoNewEpoll.modifyFile {g : File → File}
    (hg : ∀ file, fs.files.get? f = some file → (g file).kind = .epoll → file.kind = .epoll) :
    fs.NoNewEpoll (fs.modifyFile f g) := by
  intro q hq
  obtain ⟨file, hfile, hkind⟩ := hasInterestList_iff.1 hq
  rw [get?_modifyFile] at hfile
  split at hfile
  · next hqf =>
    subst hqf
    obtain ⟨old, hold, rfl⟩ := Option.map_eq_some_iff.1 hfile
    exact hasInterestList_iff.2 ⟨old, hold, hg old hold hkind⟩
  · exact hasInterestList_iff.2 ⟨file, hfile, hkind⟩

theorem NoNewEpoll.destroy (fs : FS) (f : FileId) : fs.NoNewEpoll (fs.destroy f) := by
  intro q hq
  obtain ⟨file, hfile, hkind⟩ := hasInterestList_iff.1 hq
  rw [get?_destroy] at hfile
  split at hfile
  · cases hfile
  · exact hasInterestList_iff.2 ⟨file, hfile, hkind⟩

theorem NoNewEpoll.removeFromOrphans (fs : FS) (f : FileId) : fs.NoNewEpoll (fs.removeFromOrphans f) := by
  intro q hq
  obtain ⟨file, hfile, hkind⟩ := hasInterestList_iff.1 hq
  rw [get?_removeFromOrphans] at hfile
  split at hfile
  · cases hfile
  · exact hasInterestList_iff.2 ⟨file, hfile, hkind⟩

theorem kind_withEntries {file : File} {es : List FileId} (h : (file.withEntries es).kind = .epoll) : file.kind = .epoll := by
  unfold File.withEntries at h
  split at h
  · cases h
  · exact h

theorem unlink_noNewEpoll {path : Path} {n : Int} (h : fs.unlink depth path = .ok (fs', n)) : fs.NoNewEpoll fs' := by
  rcases unlink_cases h with ⟨-, -, rfl⟩ | ⟨f, file, -, -, -, ⟨-, rfl⟩ | ⟨-, rfl⟩ | ⟨-, fs1, taken, htake, rfl⟩⟩
  · exact .refl fs'
  · exact .modifyFile fun _ _ hkind => hkind
  · exact .refl fs'
  · obtain ⟨d, name, -, -, htake⟩ := tryTakeFile_some htake
    obtain ⟨-, -, rfl⟩ := tryTakeEntry_some htake
    exact NoNewEpoll.trans (.modifyFile fun _ _ hkind => kind_withEntries hkind) (.destroy _ _)

theorem closeFile_noNewEpoll (h : fs.closeFile f = .ok fs') : fs.NoNewEpoll fs' := by
  obtain ⟨file, -, ⟨-, rfl | ⟨cls, cls', entries, -, rfl⟩⟩ | ⟨p, side, -, -, rfl⟩⟩ := closeFile_cases h
  · exact .refl fs'
  · exact .modifyFile fun _ _ hkind => by cases hkind
  · exact .refl fs

theorem close_noNewEpoll {descriptor : FileDescriptor} (h : fs.close depth descriptor = .ok fs') : fs.NoNewEpoll fs' := by
  obtain ⟨ofd, fs1, file, -, hunref, -, hrest⟩ := close_cases h
  obtain ⟨_, -, -, rfl⟩ := unref_eq_ok hunref
  have hunref : fs.NoNewEpoll (fs.modifyFile ofd.file fun file => { file with refCount := file.refCount - 1 }) :=
    .modifyFile fun _ _ hkind => hkind
  rcases hrest with ⟨-, hlast⟩ | ⟨-, rfl⟩
  · obtain ⟨fs2, file2, hclose, -, ⟨-, rfl⟩ | ⟨-, path, fs3, n, -, hunlink, rfl⟩⟩ := lastClose_cases hlast
    · exact hunref.trans (closeFile_noNewEpoll hclose)
    · exact hunref.trans ((closeFile_noNewEpoll hclose).trans ((unlink_noNewEpoll hunlink).trans (.removeFromOrphans _ _)))
  · exact hunref

end FS

namespace InterestList

variable {l l' : InterestList} {ofd : Option DescriptionId} {event : EpollEvents} {data : Nat}

theorem addEntry_eq_ok (h : l.addEntry ofd event data = .ok l') : (∀ entry ∈ l, entry.ofd ≠ ofd) ∧ l' = l ++ [⟨ofd, event, data⟩] := by
  obtain ⟨_, hnew, h⟩ := bind_eq_ok.1 h
  exact ⟨check_eq_ok.1 hnew, (Except.ok.inj h).symm⟩

/-- A changed list points to the same descriptions. -/
theorem changeEntry_eq_ok (h : l.changeEntry ofd event data = .ok l') : l'.map EpollEntry.ofd = l.map EpollEntry.ofd := by
  unfold changeEntry at h
  split at h
  · cases h
  · next i hi =>
    rw [← Except.ok.inj h, List.map_set]
    obtain ⟨hlt, hentry, -⟩ := List.findIdx?_eq_some_iff_getElem.1 hi
    refine List.ext_getElem? fun j => ?_
    rw [List.getElem?_set]
    split
    · next hij =>
      subst hij
      rw [List.length_map, if_pos hlt, List.getElem?_map, List.getElem?_eq_getElem hlt, Option.map_some]
      exact congrArg some (of_decide_eq_true hentry).symm
    · rfl

theorem deleteEntry_sublist (l : InterestList) (ofd : Option DescriptionId) : (l.deleteEntry ofd).1.Sublist l := by
  unfold deleteEntry
  split
  · exact List.Sublist.refl l
  · exact List.filter_sublist

end InterestList

namespace FileState

open FileDescriptors

variable {s s' : FileState} {depth table : Nat} {fds : FileDescriptors} {host : HostFiles} {answer : FileAnswer}
  {lists : FileId → InterestList}

/-- The entries of a list point to descriptions that slots own. -/
def Owned (s : FileState) (l : InterestList) : Prop := ∀ o ∈ l.map EpollEntry.ofd, ∃ d, o = some d ∧ s.owns d = true

/-- Every description in the list of an instance has a slot other than one that is about to be closed. -/
def SparesSlot (lists : FileId → InterestList) (s : FileState) (table n : Nat) : Prop :=
  ∀ f d, s.fs.hasInterestList f = true → some d ∈ (lists f).map EpollEntry.ofd →
    ∃ t m descriptor, s.SlotAt t m descriptor ∧ descriptor.openFileDescription = d ∧ ¬ (t = table ∧ m = n)

/-- A call closes no slot that is the last one of a description in a list. The slots of a table that is closed go one after the
other. -/
def SparesListed (depth : Nat) (lists : FileId → InterestList) (s : FileState) (table : Nat) (fds : FileDescriptors) :
    FileCall → Prop
  | .closeAll => ∀ n < fds.length, ∀ t, (List.range n).foldlM (closeSlot depth table) s = .ok t → SparesSlot lists t table n
  | call => ∀ n, Closes fds n call → SparesSlot lists s table n

/-- A slot that is spared keeps the lists owned. -/
theorem Owned.kept {f : FileId} {n : Nat} (h : s.Owned (lists f)) (hf : s.fs.hasInterestList f = true) (hspares : SparesSlot lists s table n)
    (hkeep : ∀ t m descriptor, s.SlotAt t m descriptor → ¬ (t = table ∧ m = n) → s'.SlotAt t m descriptor) :
    s'.Owned (lists f) := by
  intro o ho
  obtain ⟨d, rfl, -⟩ := h o ho
  obtain ⟨t, m, descriptor, hslot, hd, hne⟩ := hspares f d hf ho
  exact ⟨d, rfl, owns_iff.2 ⟨t, m, descriptor, hkeep t m descriptor hslot hne, hd⟩⟩

/-- The turns of a loop that closes the slots of a table. -/
theorem closeSlots_owned {n : Nat} {f : FileId} (h : s.Owned (lists f))
    (hspares : ∀ i < n, ∀ t, (List.range i).foldlM (closeSlot depth table) s = .ok t → SparesSlot lists t table i)
    (hclose : (List.range n).foldlM (closeSlot depth table) s = .ok s') :
    s.fs.NoNewEpoll s'.fs ∧ (s'.fs.hasInterestList f = true → s'.Owned (lists f)) := by
  induction n generalizing s' with
  | zero =>
    obtain rfl := Except.ok.inj hclose
    exact ⟨.refl _, fun _ => h⟩
  | succ n ih =>
    rw [List.range_succ, List.foldlM_append] at hclose
    obtain ⟨t, ht, hclose⟩ := bind_eq_ok.1 hclose
    obtain ⟨t', hslot, hclose⟩ := bind_eq_ok.1 hclose
    obtain rfl := Except.ok.inj hclose
    obtain ⟨hnew, howned⟩ := ih (fun i hi => hspares i (Nat.lt_succ_of_lt hi)) ht
    have hturn := hspares n (Nat.lt_succ_self n) t ht
    rcases closeSlot_cases hslot with ⟨-, rfl⟩ | ⟨fds1, answer1, htable, hcall⟩
    · exact ⟨hnew, howned⟩
    · have hback : t.fs.NoNewEpoll t'.fs := by
        rcases close_cases hcall with ⟨-, rfl⟩ | ⟨descriptor, fs1, -, hfs, rfl⟩
        · exact .refl _
        · exact FS.close_noNewEpoll hfs
      refine ⟨hnew.trans hback, ?_⟩
      intro hf
      refine (howned (hback f hf)).kept (hback f hf) hturn ?_
      intro u m descriptor hat hne
      exact hat.close htable (fun hu heq => hne ⟨hu, (Int.ofNat_inj.1 heq).symm⟩) hcall

/-- A call other than the one that closes a table closes at most one slot. -/
theorem closes_unique {call : FileCall} {n m : Nat} (hne : call ≠ .closeAll) (h : Closes fds n call) (h' : Closes fds m call) :
    m = n := by
  cases call with
  | close fd => exact Int.ofNat_inj.1 (Eq.trans (Eq.symm h') h)
  | closeAll => exact absurd rfl hne
  | dup2 oldfd newfd => exact Int.ofNat_inj.1 (h'.2.2.symm.trans h.2.2)
  | dup3 oldfd newfd closeOnExec => exact Int.ofNat_inj.1 (h'.2.2.symm.trans h.2.2)
  | _ => exact h.elim

/-- A call that spares what is listed keeps the lists of the instances that it leaves owned. -/
theorem perform_owned {call : FileCall} {f : FileId} (h : s.Owned (lists f)) (hf : s.fs.hasInterestList f = true)
    (htable : s.tables[table]? = some fds) (hspares : s.SparesListed depth lists table fds call)
    (hcall : s.perform host depth table fds call = .ok (s', answer)) (hf' : s'.fs.hasInterestList f = true) : s'.Owned (lists f) := by
  by_cases hall : call = .closeAll
  · subst hall
    obtain ⟨s1, hclose, hcall⟩ := bind_eq_ok.1 hcall
    obtain rfl : _ = s' := (ok_pair hcall).1
    exact (closeSlots_owned h hspares hclose).2 hf'
  · have hspares : ∀ n, Closes fds n call → SparesSlot lists s table n := by
      cases call with
      | closeAll => exact absurd rfl hall
      | _ => exact hspares
    by_cases hcloses : ∃ n, Closes fds n call
    · obtain ⟨n, hn⟩ := hcloses
      refine h.kept hf (hspares n hn) ?_
      intro t m descriptor hat hne
      exact hat.perform htable (fun hm => hne ⟨hm.1, closes_unique hall hn hm.2⟩) hcall
    · intro o ho
      obtain ⟨d, rfl, howns⟩ := h o ho
      obtain ⟨t, n, descriptor, hat, hd⟩ := owns_iff.1 howns
      exact ⟨d, rfl, owns_iff.2 ⟨t, n, descriptor, hat.perform htable (fun hn => hcloses ⟨n, hn.2⟩) hcall, hd⟩⟩

/-- The actions that close no slot. -/
theorem act_owned {l : InterestList} {action : FileAction} (h : s.Owned l) (haction : ∀ table call, action ≠ .call table call)
    (hact : s.act depth host action = .ok (s', answer)) : s'.Owned l := by
  intro o ho
  obtain ⟨d, rfl, howns⟩ := h o ho
  obtain ⟨t, n, descriptor, hat, hd⟩ := owns_iff.1 howns
  exact ⟨d, rfl, owns_iff.2 ⟨t, n, descriptor, hat.act (fun table _ call hcall => absurd hcall (haction table call)) hact, hd⟩⟩

end FileState

namespace EpollState

/-- What the interest lists are to be: those of an instance point to descriptions that slots own, and to none twice. -/
def Live (s : EpollState) : Prop :=
  ∀ f, s.files.fs.hasInterestList f = true →
    s.files.Owned (s.interestLists f) ∧ ((s.interestLists f).map EpollEntry.ofd).Nodup

/-- The descriptor refers to an event. -/
def refersToEvent (s : EpollState) (fds : FileDescriptors) (epfd : Int) : Bool :=
  match (fds.findFileDescriptor epfd).bind fun descriptor => (s.files.fs.descriptions.get? descriptor.openFileDescription).bind
      fun ofd => s.files.fs.files.get? ofd.file with
  | some file => match file.kind with
    | .event _ => true
    | _ => false
  | none => false

/-- A step closes no slot that is the last one of a description in a list, adds no entry for a descriptor that is not there, and
takes no event for an instance. -/
def Spares (depth : Nat) (s : EpollState) : EpollAction → Prop
  | .files _ (.call table call) => ∀ fds, s.files.tables[table]? = some fds →
      s.files.SparesListed depth s.interestLists table fds call
  | .files _ _ => True
  | .epoll_ctl table epfd op fd _ _ => ∀ fds, s.files.tables[table]? = some fds → s.refersToEvent fds epfd = false ∧
      (op = EPOLL_CTL_ADD → ∀ f, s.instance? fds epfd = .ok (some f) → (fds.findFileDescriptor fd).isSome = true)

variable {s s' : EpollState} {depth : Nat}

theorem live_of_isNew (h : (machine depth).init s) : s.Live := by
  intro f _
  rw [h.2 f]
  refine ⟨?_, List.nodup_nil⟩
  intro o ho
  cases ho

/-- The interest list of one instance is replaced by one that is right. -/
theorem Live.setInterestList {f : FileId} {l : InterestList} (h : s.Live) (hl : s.files.Owned l)
    (hnodup : (l.map EpollEntry.ofd).Nodup) : (s.setInterestList f l).Live := by
  intro g hg
  by_cases hgf : g = f
  · simp only [EpollState.setInterestList, if_pos hgf]
    exact ⟨hl, hnodup⟩
  · simp only [EpollState.setInterestList, if_neg hgf]
    exact h g hg

theorem instance?_hasInterestList {fds : FileDescriptors} {epfd : Int} {f : FileId} (h : s.instance? fds epfd = .ok (some f)) :
    s.files.fs.hasInterestList f = true := by
  unfold instance? at h
  split at h
  · cases h
  · obtain ⟨ofd, -, h⟩ := bind_eq_ok.1 h
    obtain ⟨file, hfile, h⟩ := bind_eq_ok.1 h
    split at h
    · obtain ⟨_, hkind, h⟩ := bind_eq_ok.1 h
      obtain rfl := Option.some.inj (Except.ok.inj h)
      exact FS.hasInterestList_iff.2 ⟨file, FS.file_eq_ok.1 hfile, check_eq_ok.1 hkind⟩
    · cases h

/-- The events are what is cast to an instance and is none. -/
theorem instance?_miscast_iff (s : EpollState) (fds : FileDescriptors) (epfd : Int) :
    s.instance? fds epfd = .error .miscast ↔ s.refersToEvent fds epfd = true := by
  unfold instance? refersToEvent
  cases fds.findFileDescriptor epfd with
  | none => simp
  | some descriptor =>
    cases hofd : s.files.fs.descriptions.get? descriptor.openFileDescription with
    | none => simp [FS.description, hofd, Bind.bind, Except.bind]
    | some ofd =>
      cases hfile : s.files.fs.files.get? ofd.file with
      | none => simp [FS.description, FS.file, hofd, hfile, Bind.bind, Except.bind]
      | some file =>
        cases hkind : file.kind <;>
          simp [FS.description, FS.file, File.isEpoll, check, hofd, hfile, hkind, Bind.bind, Except.bind]

/-- `epoll_ctl` keeps the lists right, unless it adds an entry for a descriptor that is not there. -/
theorem Live.epoll_ctl {table : Nat} {fds : FileDescriptors} {epfd op fd : Int} {events : EpollEvents} {data : Nat} {ret : Int}
    (h : s.Live) (htable : s.files.tables[table]? = some fds)
    (hadd : op = EPOLL_CTL_ADD → ∀ f, s.instance? fds epfd = .ok (some f) → (fds.findFileDescriptor fd).isSome = true)
    (hctl : s.epoll_ctl fds epfd op fd events data = .ok (s', ret)) : s'.Live := by
  obtain ⟨instance', hinstance, hctl⟩ := bind_eq_ok.1 hctl
  cases instance' with
  | none =>
    obtain rfl := (ok_pair hctl).1
    exact h
  | some f =>
    obtain ⟨howned, hnodup⟩ := h f (instance?_hasInterestList hinstance)
    dsimp only at hctl
    split at hctl
    · next hop =>
      -- an entry is added for a descriptor of the caller
      obtain ⟨l, hl, hctl⟩ := bind_eq_ok.1 hctl
      obtain rfl := (ok_pair hctl).1
      obtain ⟨hnew, rfl⟩ := InterestList.addEntry_eq_ok hl
      obtain ⟨descriptor, hfind⟩ := Option.isSome_iff_exists.1 (hadd hop f hinstance)
      have howns : s.files.owns descriptor.openFileDescription = true :=
        FileState.owns_iff.2 ⟨table, fd.toNat, descriptor, ⟨fds, htable, (FileDescriptors.findFileDescriptor_eq_some.1 hfind).2⟩, rfl⟩
      rw [hfind] at hnew ⊢
      refine h.setInterestList ?_ ?_
      · intro o ho
        rw [List.map_append, List.mem_append] at ho
        rcases ho with ho | ho
        · exact howned o ho
        · obtain rfl := List.mem_singleton.1 ho
          exact ⟨_, rfl, howns⟩
      · rw [List.map_append, List.nodup_append]
        refine ⟨hnodup, List.nodup_singleton _, ?_⟩
        intro o ho o' ho' heq
        obtain rfl := List.mem_singleton.1 ho'
        obtain ⟨entry, hentry, rfl⟩ := List.mem_map.1 ho
        exact hnew entry hentry heq
    · split at hctl
      · obtain ⟨l, hl, hctl⟩ := bind_eq_ok.1 hctl
        obtain rfl := (ok_pair hctl).1
        have hsame := InterestList.changeEntry_eq_ok hl
        refine h.setInterestList ?_ (hsame ▸ hnodup)
        intro o ho
        exact howned o (hsame ▸ ho)
      · obtain ⟨_, -, hctl⟩ := bind_eq_ok.1 hctl
        obtain rfl := (ok_pair hctl).1
        have hsub := InterestList.deleteEntry_sublist (s.interestLists f)
          ((fds.findFileDescriptor fd).map FileDescriptor.openFileDescription)
        refine h.setInterestList ?_ ((hsub.map _).nodup hnodup)
        intro o ho
        exact howned o ((hsub.map _).subset ho)

theorem live_step {a : EpollAction} (h : s.Live) (hspares : s.Spares depth a) (hstep : (machine depth).step s a = some s') :
    s'.Live := by
  have hact := toOption_eq_some.1 hstep
  cases a with
  | files host action =>
    obtain ⟨⟨files, answer⟩, hfiles, hact⟩ := bind_eq_ok.1 hact
    obtain rfl := Except.ok.inj hact
    intro f hf
    dsimp only
    split
    · next hbefore =>
      obtain ⟨howned, hnodup⟩ := h f hbefore
      refine ⟨?_, hnodup⟩
      cases action with
      | call table call =>
        rcases FileState.act_cases hfiles with ⟨table', fds, call', heq, htable, hcall⟩ | ⟨_, _, heq, -⟩ | ⟨_, heq, -⟩
        · cases heq
          exact FileState.perform_owned howned hbefore htable (hspares fds htable) hcall hf
        · cases heq
        · cases heq
      | tryUnblock index => exact FileState.act_owned howned (fun _ _ heq => by cases heq) hfiles
      | forget index => exact FileState.act_owned howned (fun _ _ heq => by cases heq) hfiles
    · refine ⟨?_, List.nodup_nil⟩
      intro o ho
      cases ho
  | epoll_ctl table epfd op fd events data =>
    simp only [act] at hact
    split at hact
    · cases hact
    · next fds htable =>
      obtain ⟨⟨s1, ret⟩, hctl, hact⟩ := bind_eq_ok.1 hact
      obtain rfl := Except.ok.inj hact
      exact h.epoll_ctl htable (hspares fds htable).2 hctl

/-- Waiting on an instance uses only descriptions that slots own, and what it reports is reported for one of them. -/
structure WaitsSafely (s : EpollState) (polls : HostPolls) (f : FileId) : Prop where
  alive : s.doEpollWait polls f ≠ .error .destroyed
  reported : ∀ events, s.doEpollWait polls f = .ok events → ∀ event ∈ events, ∃ entry ∈ s.interestLists f, ∃ d,
    entry.ofd = some d ∧ s.files.owns d = true ∧ event.data = entry.data

/-- An entry of a description that is owned gives a failure of the files, or an event with the data of the entry. -/
theorem waitEntry_owned {entry : EpollEntry} {d : DescriptionId} (polls : HostPolls) (hofd : entry.ofd = some d)
    (howns : s.files.owns d = true) : Post (· = .destroyed) (fun event? => ∀ event, event? = some event → event.data = entry.data)
      (s.waitEntry polls entry) := by
  have hfiles : ∀ {α : Type} (x : Except FsFailure α), Post (· = EpollFailure.destroyed) (fun _ => True) (x.mapError .files) := by
    intro α x
    cases x with
    | ok a => exact trivial
    | error e => exact fun h => by cases h
  unfold waitEntry
  rw [hofd]
  refine Post.bind (Post.bind (Post.check fun _ => howns) fun _ _ => hfiles _) fun ofd _ => Post.bind (hfiles _) fun file _ =>
    Post.bind (Post.check fun h => by cases h) fun _ _ => Post.bind (Post.check fun h => by cases h) fun _ _ =>
    Post.bind (hfiles _) fun readable _ => Post.bind (hfiles _) fun writable _ => Post.ok ?_
  intro event hevent
  split at hevent
  · cases hevent
  · rw [← Option.some.inj hevent]

theorem Live.waits (h : s.Live) {f : FileId} (hf : s.files.fs.hasInterestList f = true) (polls : HostPolls) : s.WaitsSafely polls f := by
  obtain ⟨howned, -⟩ := h f hf
  have hentry : ∀ entry ∈ s.interestLists f, ∃ d, entry.ofd = some d ∧ s.files.owns d = true := by
    intro entry hmem
    exact howned entry.ofd (List.mem_map_of_mem hmem)
  have hpost : Post (· = .destroyed) (fun events => ∀ event ∈ events, ∃ entry ∈ s.interestLists f, ∃ d,
      entry.ofd = some d ∧ s.files.owns d = true ∧ event.data = entry.data) (s.doEpollWait polls f) := by
    refine Post.bind (Post.mapM (p := fun entry event? => (∃ d, entry.ofd = some d ∧ s.files.owns d = true) ∧
      ∀ event, event? = some event → event.data = entry.data) ?_) fun events hevents => Post.ok ?_
    · intro entry hmem
      obtain ⟨d, hofd, howns⟩ := hentry entry hmem
      exact Post.mono (waitEntry_owned polls hofd howns) fun event? hevent => ⟨⟨d, hofd, howns⟩, hevent⟩
    · intro event hevent
      obtain ⟨entry, hmem, ⟨d, hofd, howns⟩, hdata⟩ := exists_of_forall₂_right hevents (List.reduceOption_mem_iff.1 hevent)
      exact ⟨entry, hmem, d, hofd, howns, hdata event rfl⟩
  exact ⟨fun herror => hpost.of_error herror rfl, fun events hok => hpost.of_ok hok⟩

/-- In every run whose steps spare what is listed, the lists are right and waiting on an instance is safe. What is given for an
instance is cast to one that it is not exactly if it is an event. -/
theorem interest_live (h : (machine depth).ReachableUnder (Spares depth) s) : s.Live ∧
    (∀ polls f, s.files.fs.hasInterestList f = true → s.WaitsSafely polls f) ∧
    ∀ fds epfd, s.instance? fds epfd = .error .miscast ↔ s.refersToEvent fds epfd = true := by
  have hlive : s.Live := h.invariant Live (fun s hs => live_of_isNew hs)
    (fun s a s' _ hs hspares hstep => live_step hs hspares hstep)
  exact ⟨hlive, fun polls f hf => hlive.waits hf polls, s.instance?_miscast_iff⟩

section Samples

/-- A call of the first process. -/
def calls (call : FileCall) : EpollAction := .files bareHost (.call 0 call)

/-- The first process creates an epoll instance and an event, and waits for the event to be readable. -/
def listsEvent : List EpollAction :=
  [calls (.epoll_create1 false), calls (.eventfd2 0 false false false), .epoll_ctl 0 0 EPOLL_CTL_ADD 1 .CAN_READ 7]

def firstEpoll : EpollState := ⟨FileState.first, fun _ => []⟩

theorem firstEpoll_isNew : (machine 1).init firstEpoll := ⟨FileState.first_isNew, fun _ => rfl⟩

theorem spares_of_no_close {s : EpollState} {call : FileCall} (hall : call ≠ .closeAll)
    (hnone : ∀ fds n, ¬ FileState.Closes fds n call) : s.Spares 1 (calls call) := by
  intro fds _
  cases call with
  | closeAll => exact absurd rfl hall
  | _ => exact fun n hn => absurd hn (hnone fds n)

/-- The second descriptor of the event is what the list still points to when the first is closed. -/
theorem interest_live_dup : ∃ s, (machine 1).ReachableUnder (Spares 1) s ∧ s.interestLists 3 = [⟨some 1, 5, 7⟩] ∧
    s.files.tables = [[some ⟨0, false⟩, none, some ⟨1, false⟩]] ∧ s.Live ∧
    (∀ polls f, s.files.fs.hasInterestList f = true → s.WaitsSafely polls f) ∧
    ∀ fds epfd, s.instance? fds epfd = .error .miscast ↔ s.refersToEvent fds epfd = true := by
  have hrun : (((machine 1).run firstEpoll [calls (.epoll_create1 false), calls (.eventfd2 0 false false false)]).bind fun s2 =>
      ((machine 1).step s2 (.epoll_ctl 0 0 EPOLL_CTL_ADD 1 .CAN_READ 7)).bind fun s3 =>
      ((machine 1).run s3 [calls (.dup 1)]).bind fun s4 => ((machine 1).step s4 (calls (.close 1))).map fun s5 =>
        decide (s2.files.tables = [[some ⟨0, false⟩, some ⟨1, false⟩]] ∧
          s2.refersToEvent [some ⟨0, false⟩, some ⟨1, false⟩] 0 = false ∧
          s4.files.tables = [[some ⟨0, false⟩, some ⟨1, false⟩, some ⟨1, false⟩]] ∧
          s5.interestLists 3 = [⟨some 1, 5, 7⟩] ∧ s5.files.tables = [[some ⟨0, false⟩, none, some ⟨1, false⟩]])) =
      some true := by decide
  obtain ⟨s2, h2, hrun⟩ := Option.bind_eq_some_iff.1 hrun
  obtain ⟨s3, h3, hrun⟩ := Option.bind_eq_some_iff.1 hrun
  obtain ⟨s4, h4, hrun⟩ := Option.bind_eq_some_iff.1 hrun
  obtain ⟨s5, h5, hfound⟩ := Option.map_eq_some_iff.1 hrun
  obtain ⟨ht2, hevent, ht4, hlist, ht5⟩ := of_decide_eq_true hfound
  have hr2 : (machine 1).ReachableUnder (Spares 1) s2 := by
    refine .run _ (.init firstEpoll_isNew) ?_ h2
    intro a ha s
    rcases List.mem_cons.1 ha with rfl | ha
    · exact spares_of_no_close (by simp) fun _ _ h => h
    · obtain rfl := List.mem_singleton.1 ha
      exact spares_of_no_close (by simp) fun _ _ h => h
  have hr3 : (machine 1).ReachableUnder (Spares 1) s3 := by
    refine .step _ hr2 ?_ h3
    intro fds hfds
    rw [ht2] at hfds
    obtain rfl := Option.some.inj hfds
    exact ⟨hevent, fun _ _ _ => rfl⟩
  have hr4 : (machine 1).ReachableUnder (Spares 1) s4 := by
    refine .run _ hr3 ?_ h4
    intro a ha s
    obtain rfl := List.mem_singleton.1 ha
    exact spares_of_no_close (by simp) fun _ _ h => h
  have hlive4 : s4.Live := hr4.invariant Live (fun s hs => live_of_isNew hs) fun s a s' _ hs hspares hstep =>
    live_step hs hspares hstep
  have hr5 : (machine 1).ReachableUnder (Spares 1) s5 := by
    refine .step _ hr4 ?_ h5
    intro fds _ n hn f d hf hd
    obtain rfl : 1 = n := Int.ofNat_inj.1 hn
    obtain ⟨_, hsome, howns⟩ := (hlive4 f hf).1 _ hd
    obtain rfl := Option.some.inj hsome
    obtain ⟨t, m, descriptor, ⟨fds', ht, hm⟩, rfl⟩ := FileState.owns_iff.1 howns
    rw [ht4] at ht
    obtain ⟨rfl, rfl⟩ : t = 0 ∧ fds' = [some ⟨0, false⟩, some ⟨1, false⟩, some ⟨1, false⟩] := by
      cases t with
      | zero => exact ⟨rfl, (Option.some.inj ht).symm⟩
      | succ t => simp at ht
    by_cases hm1 : m = 1
    · -- the third slot refers to the same description
      subst hm1
      obtain rfl : _ = descriptor := Option.some.inj (Option.some.inj hm)
      exact ⟨0, 2, ⟨1, false⟩, ⟨_, by rw [ht4]; rfl, rfl⟩, rfl, by decide⟩
    · exact ⟨0, m, descriptor, ⟨_, by rw [ht4]; rfl, hm⟩, rfl, fun h => hm1 h.2⟩
  exact ⟨s5, hr5, hlist, ht5, interest_live hr5⟩

/-- The event is closed, and its description stays in the list. Another event is taken for an instance. -/
theorem interest_live_fails : ∃ s, (machine 1).Reachable s ∧ s.files.fs.hasInterestList 3 = true ∧
    s.interestLists 3 = [⟨some 1, 5, 7⟩] ∧ s.files.owns 1 = false ∧ s.doEpollWait silentHost 3 = .error .destroyed ∧
    ∀ fds ∈ s.files.tables, s.instance? fds 2 = .error .miscast := by
  have hrun : ((machine 1).run firstEpoll (listsEvent ++ [calls (.eventfd2 0 false false false), calls (.close 1)])).map (fun s =>
      decide (s.files.fs.hasInterestList 3 = true ∧ s.interestLists 3 = [⟨some 1, 5, 7⟩] ∧ s.files.owns 1 = false ∧
        s.doEpollWait silentHost 3 = .error .destroyed ∧ ∀ fds ∈ s.files.tables, s.instance? fds 2 = .error .miscast)) =
      some true := by decide
  obtain ⟨s, hs, hfound⟩ := Option.map_eq_some_iff.1 hrun
  exact ⟨s, (Machine.Reachable.init firstEpoll_isNew).run _ hs, of_decide_eq_true hfound⟩

end Samples

end EpollState

end X64Emulator
