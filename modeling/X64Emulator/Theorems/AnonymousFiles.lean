import X64Emulator.Epoll
import X64Emulator.Lemmas.DescriptorSlots
import X64Emulator.Lemmas.TreeNodes

/-!
# Files that no directory owns

Closing the last descriptor of a memory file, a pipe, an event, an epoll instance or a socket unlinks the path that is made of its
name, as if it were in the root. The tree is as it was at the end of a run that uses such files only exactly if at every closing
nothing of the tree is at that path, or nothing that goes.
-/

namespace X64Emulator

open Outcome

/-- What processes do with descriptors and files, interest lists and several buffers included. -/
inductive FileUse where
  | epoll (action : EpollAction)
  | transfer (host : HostFiles) (table : Nat) (fd : Int) (transfer : Transfer)

namespace EpollState

def use (depth : Nat) (s : EpollState) : FileUse → Except FsFailure EpollState
  | .epoll action => s.act depth action
  | .transfer host table fd transfer =>
    match s.files.tables[table]? with
    | none => .error .outOfBounds
    | some fds =>
      match fds.findFileDescriptor fd with
      | none => .ok s
      | some descriptor => do
        let (fs, _) ← s.files.fs.transfer host descriptor.openFileDescription transfer
        .ok { s with files := { s.files with fs := fs } }

/-- The steps of all processes in any order, from a file system as its constructor leaves it. -/
def uses (depth : Nat) : Machine EpollState FileUse where
  init s := (machine depth).init s
  step s a := (s.use depth a).toOption

end EpollState

namespace FileState

open FS FileDescriptors

variable {s s' : FileState} {fs fs' : FS} {host : HostFiles} {depth table : Nat} {fds : FileDescriptors} {fd : Int} {answer : FileAnswer}

/-- The turns of the loop that closes the slots of a table. -/
def slots (depth table : Nat) : Machine FileState Nat where
  init _ := True
  step s n := (closeSlot depth table s n).toOption

/-- The descriptor refers to a file outside the tree, if it is there. -/
def Anonymous (s : FileState) (fds : FileDescriptors) (fd : Int) : Prop :=
  ∀ descriptor, fds.findFileDescriptor fd = some descriptor → s.fs.RefersOutside descriptor.openFileDescription

/-- A call creates a file that no directory owns, or it uses descriptors of such files only. -/
def AnonymousCall (s : FileState) (fds : FileDescriptors) : FileCall → Prop
  | .memfd_create _ _ _ | .eventfd2 _ _ _ _ | .epoll_create1 _ | .socket _ _ _ _ | .pipe2 _ _ => True
  | .close fd | .dup fd | .read fd _ | .pread fd _ _ | .write fd _ | .pwrite fd _ _ | .lseek fd _ _ | .ftruncate fd _
  | .setNonBlocking fd _ => s.Anonymous fds fd
  | .dup2 oldfd newfd | .dup3 oldfd newfd _ => s.Anonymous fds oldfd ∧ s.Anonymous fds newfd
  | .clone | .closeAll => ∀ fd, s.Anonymous fds fd
  | .open _ _ _ _ | .mkdir _ | .rename _ _ | .unlink _ | .readlink _ _ | .resetProcFS _ _ => False

/-- Closing the descriptor takes nothing out of the tree. -/
def Quiet (depth : Nat) (s : FileState) (fds : FileDescriptors) (fd : Int) : Prop :=
  ∀ descriptor, fds.findFileDescriptor fd = some descriptor → s.fs.ClosesQuietly depth descriptor.openFileDescription

def QuietSlot (depth table : Nat) (s : FileState) (n : Nat) : Prop :=
  ∀ fds, s.tables[table]? = some fds → s.Quiet depth fds n

/-- What a call closes takes nothing out of the tree. -/
def QuietCall (depth table : Nat) (s : FileState) (fds : FileDescriptors) : FileCall → Prop
  | .close fd => s.Quiet depth fds fd
  | .closeAll => (slots depth table).Along (QuietSlot depth table) s (List.range fds.length)
  | .dup2 oldfd newfd | .dup3 oldfd newfd _ =>
    oldfd ≠ newfd → (fds.findFileDescriptor oldfd).isSome = true → s.Quiet depth fds newfd
  | _ => True

/-- The tree fades at most, and it is kept exactly under a condition. -/
def Wears (fs fs' : FS) (c : Prop) : Prop := fs.Fades fs' ∧ (fs.KeepsTree fs' ↔ c)

theorem Wears.of_keeps (h : fs.KeepsTree fs') {c : Prop} (hc : c) : Wears fs fs' c := ⟨h.fades, fun _ => hc, fun _ => h⟩

theorem Wears.then_keeps {fs'' : FS} {c : Prop} (h : Wears fs fs' c) (hkeeps : fs'.KeepsTree fs'') : Wears fs fs'' c := by
  refine ⟨h.1.trans hkeeps.fades, ?_⟩
  rw [← h.2]
  exact ⟨fun h' => h'.trans hkeeps.symm, fun h' => h'.trans hkeeps⟩

theorem close_wears (ht : s.fs.Tree) (hout : s.Anonymous fds fd) (h : s.close depth table fds fd = .ok (s', answer)) :
    Wears s.fs s'.fs (s.Quiet depth fds fd) := by
  rcases close_cases h with ⟨hnone, rfl⟩ | ⟨descriptor, fs1, hfind, hclose, rfl⟩
  · refine .of_keeps (.refl _) ?_
    intro descriptor hfind
    rw [hnone] at hfind
    cases hfind
  · obtain ⟨hfades, hiff⟩ := FS.close_fades ht (hout descriptor hfind) hclose
    refine ⟨hfades, hiff.trans ⟨?_, fun hq => hq descriptor hfind⟩⟩
    intro hq other hother
    obtain rfl := Option.some.inj (hfind.symm.trans hother)
    exact hq

/-- A descriptor of a file outside the tree stays one when another is closed. -/
theorem refersOutside_close {d : DescriptionId} (hd : s.fs.RefersOutside d) (hfades : s.fs.Fades s'.fs)
    (h : s.close depth table fds fd = .ok (s', answer)) : s'.fs.RefersOutside d := by
  rcases close_cases h with ⟨-, rfl⟩ | ⟨descriptor, fs1, -, hclose, rfl⟩
  · exact hd
  · exact hd.close hfades hclose

theorem findFileDescriptor_clear {n : Nat} {descriptor : FileDescriptor}
    (h : (fds.clear n).findFileDescriptor fd = some descriptor) : fds.findFileDescriptor fd = some descriptor := by
  obtain ⟨hpos, hslot⟩ := findFileDescriptor_eq_some.1 h
  refine findFileDescriptor_eq_some.2 ⟨hpos, ?_⟩
  unfold clear at hslot
  rw [List.getElem?_set] at hslot
  split at hslot
  · split at hslot
    · cases hslot
    · cases hslot
  · exact hslot

/-- What holds before each turn of the loop that closes a table of files outside the tree. -/
structure AllAnonymous (table : Nat) (s : FileState) : Prop where
  tree : s.fs.Tree
  slots : ∀ fds, s.tables[table]? = some fds → ∀ fd, s.Anonymous fds fd

theorem AllAnonymous.closeSlot {n : Nat} (h : AllAnonymous table s) (hstep : closeSlot depth table s n = .ok s') :
    AllAnonymous table s' ∧ Wears s.fs s'.fs (QuietSlot depth table s n) := by
  rcases closeSlot_cases hstep with ⟨hnone, rfl⟩ | ⟨fds, answer, htable, hclose⟩
  · refine ⟨h, .of_keeps (.refl _) ?_⟩
    intro fds hfds
    rw [hnone] at hfds
    cases hfds
  · obtain ⟨hfades, hiff⟩ := close_wears h.tree (h.slots fds htable n) hclose
    refine ⟨⟨h.tree.changes (close_changes (φ := fun _ _ _ => True) (δ := fun _ _ => True) (fun _ _ => trivial) h.tree hclose), ?_⟩,
      hfades, hiff.trans ⟨?_, fun hq => hq fds htable⟩⟩
    · intro fds' hfds' fd descriptor hfind
      have hbefore : s.fs.RefersOutside descriptor.openFileDescription := by
        rcases close_cases hclose with ⟨-, rfl⟩ | ⟨other, fs1, -, -, rfl⟩
        · exact h.slots fds' hfds' fd descriptor hfind
        · have hset : (s.tables.set table (fds.clear (n : Int).toNat))[table]? = some fds' := hfds'
          rw [List.getElem?_set_self (List.getElem?_eq_some_iff.1 htable).1] at hset
          obtain rfl := Option.some.inj hset
          exact h.slots fds htable fd descriptor (findFileDescriptor_clear hfind)
      exact refersOutside_close hbefore hfades hclose
    · intro hq fds' hfds'
      obtain rfl := Option.some.inj (htable.symm.trans hfds')
      exact hq

theorem foldlM_toOption {α β : Type} {f : β → α → Except FsFailure β} {l : List α} {b b' : β} (h : l.foldlM f b = .ok b') :
    l.foldlM (fun b a => (f b a).toOption) b = some b' := by
  induction l generalizing b with
  | nil => exact congrArg some (Except.ok.inj h)
  | cons a l ih =>
    rw [List.foldlM_cons] at h ⊢
    obtain ⟨b1, hstep, h⟩ := bind_eq_ok.1 h
    exact Option.bind_eq_some_iff.2 ⟨b1, toOption_eq_some.2 hstep, ih h⟩

/-- A table of files outside the tree is closed. -/
theorem closeAll_wears {ns : List Nat} (h : AllAnonymous table s) (hclose : ns.foldlM (closeSlot depth table) s = .ok s') :
    Wears s.fs s'.fs ((slots depth table).Along (QuietSlot depth table) s ns) := by
  have hrun : (slots depth table).run s ns = some s' := foldlM_toOption hclose
  obtain ⟨-, hfades, hiff⟩ := Machine.run_back_iff (I := AllAnonymous table) (A := fun _ _ => True)
    (r := fun s t => s.fs.Fades t.fs) (fun s => .refl s.fs) (fun _ _ _ h h' => h.trans h') (by
      intro s n t hI _ hstep
      obtain ⟨hI', hfades, hiff⟩ := hI.closeSlot (toOption_eq_some.1 hstep)
      exact ⟨hI', hfades, (keepsTree_iff hfades).symm.trans hiff⟩) h (Machine.along_of_forall fun _ _ => trivial) hrun
  exact ⟨hfades, (keepsTree_iff hfades).trans hiff⟩

theorem replace_wears (ht : s.fs.Tree) {source : FileDescriptor} {newfd : Int} {closeOnExec : Bool}
    (hsource : s.fs.RefersOutside source.openFileDescription) (hout : s.Anonymous fds newfd)
    (h : s.replace depth table fds source newfd closeOnExec = .ok (s', answer)) :
    Wears s.fs s'.fs (s.Quiet depth fds newfd) := by
  obtain ⟨s1, answer1, ofd, fs2, hclose, hofd, href, -, rfl⟩ := replace_cases h
  have hwears := close_wears ht hout hclose
  have hafter := refersOutside_close hsource hwears.1 hclose
  obtain ⟨-, rfl⟩ := ref_eq_ok.1 href
  exact hwears.then_keeps (.modifyFile (outside_of_get? hofd hafter))

/-- `dup2` and `dup3` close the target only where they replace it. -/
theorem replaced_wears (ht : s.fs.Tree) {oldfd newfd : Int} {closeOnExec : Bool} (hold : s.Anonymous fds oldfd)
    (hnew : s.Anonymous fds newfd) {source : FileDescriptor} (hfind : fds.findFileDescriptor oldfd = some source)
    (hne : oldfd ≠ newfd) (h : s.replace depth table fds source newfd closeOnExec = .ok (s', answer)) :
    Wears s.fs s'.fs (oldfd ≠ newfd → (fds.findFileDescriptor oldfd).isSome = true → s.Quiet depth fds newfd) := by
  obtain ⟨hfades, hiff⟩ := replace_wears ht (hold source hfind) hnew h
  refine ⟨hfades, hiff.trans ⟨fun hq _ _ => hq, ?_⟩⟩
  intro hq
  exact hq hne (by rw [hfind]; rfl)

theorem insertNode_keepsTree {file : File} {accessMode : AccessMode} {statusFlags : StatusFlags} {closeOnExec : Bool}
    {descriptor : FileDescriptor} (h : fs.insertNode file accessMode statusFlags closeOnExec = .ok (fs', descriptor)) :
    fs.KeepsTree fs' := by
  obtain ⟨fs1, href, h⟩ := bind_eq_ok.1 h
  obtain rfl := (ok_pair h).1
  obtain ⟨-, rfl⟩ := ref_eq_ok.1 href
  have hdescribe : (fs.allocOrphan file).KeepsTree ((fs.allocOrphan file).describe fs.files.next accessMode statusFlags) :=
    .of_files rfl rfl rfl
  refine ((KeepsTree.allocOrphan fs file).trans hdescribe).trans (KeepsTree.modifyFile ?_)
  exact node_of_mem (List.mem_append_right _ (List.mem_singleton_self _))

theorem pipe2_keepsTree {statusFlags : StatusFlags} {closeOnExec : Bool} {reader writer : FileDescriptor}
    (h : fs.pipe2 statusFlags closeOnExec = .ok (fs', reader, writer)) : fs.KeepsTree fs' := by
  obtain ⟨⟨fs1, r⟩, hreader, h⟩ := bind_eq_ok.1 h
  obtain ⟨⟨fs2, w⟩, hwriter, h⟩ := bind_eq_ok.1 h
  obtain rfl := (ok_pair h).1
  have hpipe : fs.KeepsTree { fs with pipes := fs.pipes.alloc ⟨[], [fs.files.next], [fs.files.next + 1], false⟩ } :=
    .of_files rfl rfl rfl
  exact hpipe.trans ((insertNode_keepsTree hreader).trans (insertNode_keepsTree hwriter))

theorem socket_keepsTree {domain : Int} {raw nonBlock closeOnExec : Bool} {result : ErrnoOr FileDescriptor}
    (h : fs.socket host domain raw nonBlock closeOnExec = .ok (fs', result)) : fs.KeepsTree fs' := by
  unfold FS.socket at h
  split at h
  · obtain ⟨⟨fs1, descriptor⟩, hinsert, h⟩ := bind_eq_ok.1 h
    obtain rfl := (ok_pair h).1
    exact insertNode_keepsTree hinsert
  · obtain rfl := (ok_pair h).1
    exact .refl _

/-- The descriptors of a table are counted once more each. -/
theorem refSlots_untouched {slots : List (Option FileDescriptor)}
    (hout : ∀ descriptor, some descriptor ∈ slots → fs.RefersOutside descriptor.openFileDescription)
    (h : slots.foldlM refSlot fs = .ok fs') : fs.Untouched fs' := by
  induction slots generalizing fs with
  | nil => exact Except.ok.inj h ▸ .refl fs
  | cons slot rest ih =>
    rw [List.foldlM_cons] at h
    obtain ⟨fs1, hslot, h⟩ := bind_eq_ok.1 h
    have hfirst : fs.Untouched fs1 := by
      rcases refSlot_cases hslot with ⟨-, rfl⟩ | ⟨descriptor, ofd, rfl, hofd, href⟩
      · exact .refl _
      · obtain ⟨-, rfl⟩ := ref_eq_ok.1 href
        exact .modifyFile (outside_of_get? hofd (hout descriptor List.mem_cons_self))
    refine hfirst.trans (ih ?_ h)
    intro descriptor hmem
    exact hfirst.refersOutside (hout descriptor (List.mem_cons_of_mem _ hmem))

theorem Anonymous.of_mem (hout : ∀ fd, s.Anonymous fds fd) {descriptor : FileDescriptor} (h : some descriptor ∈ fds) :
    s.fs.RefersOutside descriptor.openFileDescription := by
  obtain ⟨n, hn⟩ := List.getElem?_of_mem h
  refine hout n descriptor (findFileDescriptor_eq_some.2 ⟨Int.natCast_nonneg n, ?_⟩)
  exact hn

/-- A call that is refused closes nothing. -/
theorem quietCall_of_refused {call : FileCall} (h : Refused fds call) : s.QuietCall depth table fds call := by
  cases call with
  | close | closeAll => exact h.elim
  | dup2 | dup3 =>
    intro hne hsome
    rcases h with hnone | heq
    · rw [hnone] at hsome
      cases hsome
    · exact absurd heq hne
  | _ => trivial

/-- A call that uses files outside the tree only. -/
theorem perform_wears (ht : s.fs.Tree) (htable : s.tables[table]? = some fds) {call : FileCall} (hcall : s.AnonymousCall fds call)
    (h : s.perform host depth table fds call = .ok (s', answer)) : Wears s.fs s'.fs (s.QuietCall depth table fds call) := by
  cases performed h with
  | refused hrefused => exact .of_keeps (.refl _) (quietCall_of_refused hrefused)
  | close hclose => exact close_wears ht hcall hclose
  | closeAll hclose =>
    refine closeAll_wears ⟨ht, ?_⟩ hclose
    intro fds' hfds'
    obtain rfl := Option.some.inj (htable.symm.trans hfds')
    exact hcall
  | dup hfind hofd href =>
    obtain ⟨-, rfl⟩ := ref_eq_ok.1 href
    exact .of_keeps (.modifyFile (outside_of_get? hofd (hcall _ hfind))) trivial
  | dup2 hne hfind hreplace => exact replaced_wears ht hcall.1 hcall.2 hfind hne hreplace
  | dup3 hne hfind hreplace => exact replaced_wears ht hcall.1 hcall.2 hfind hne hreplace
  | clone href => exact .of_keeps (refSlots_untouched (fun descriptor hmem => Anonymous.of_mem hcall hmem) href).toKeepsTree trivial
  | memfd_create hcreate =>
    obtain ⟨-, -, hinsert⟩ := bind_eq_ok.1 hcreate
    exact .of_keeps (insertNode_keepsTree hinsert) trivial
  | eventfd2 hcreate =>
    obtain ⟨-, -, hinsert⟩ := bind_eq_ok.1 hcreate
    exact .of_keeps (insertNode_keepsTree hinsert) trivial
  | epoll_create1 hcreate => exact .of_keeps (insertNode_keepsTree hcreate) trivial
  | socket hsocket =>
    rw [placeOr_fs]
    exact .of_keeps (socket_keepsTree hsocket) trivial
  | pipe2 hpipe => exact .of_keeps (pipe2_keepsTree hpipe) trivial
  | «open» | mkdir | rename | unlink | readlink | resetProcFS => exact hcall.elim
  | read hfind hread => exact .of_keeps (read_untouched (hcall _ hfind) hread).toKeepsTree trivial
  | pread hfind hread => exact .of_keeps (pread_untouched (hcall _ hfind) hread).toKeepsTree trivial
  | write hfind hwrite => exact .of_keeps (write_untouched (hcall _ hfind) hwrite).toKeepsTree trivial
  | pwrite hfind hwrite => exact .of_keeps (pwrite_untouched (hcall _ hfind) hwrite).toKeepsTree trivial
  | lseek _ hseek => exact .of_keeps (lseek_untouched hseek).toKeepsTree trivial
  | ftruncate hfind htruncate => exact .of_keeps (ftruncate_untouched (hcall _ hfind) htruncate).toKeepsTree trivial
  | setNonBlocking _ hset => exact .of_keeps (setNonBlocking_untouched hset).toKeepsTree trivial

theorem tryUnblock_keepsTree {index : Nat} {blocker : BlockedRead}
    (hout : s.Anonymous (s.tables[blocker.table]?.getD []) blocker.fd)
    (h : s.tryUnblock host index blocker = .ok (s', answer)) : s.fs.KeepsTree s'.fs := by
  rcases tryUnblock_cases h with ⟨-, hfs, -⟩ | ⟨descriptor, fs1, result, hfind, hread, rfl, -⟩
  · rw [hfs]
    exact .refl _
  · exact (read_untouched (hout descriptor hfind) hread).toKeepsTree

end FileState

namespace EpollState

open FS FileState

variable {s s' : EpollState} {depth : Nat} {action : FileUse}

/-- An action creates a file that no directory owns, or it uses such files only. -/
def UsesAnonymous (s : EpollState) : FileUse → Prop
  | .epoll (.files _ (.call table call)) => ∀ fds, s.files.tables[table]? = some fds → s.files.AnonymousCall fds call
  | .epoll (.files _ (.tryUnblock index)) => ∀ blocker, s.files.readBlockers[index]? = some blocker →
      s.files.Anonymous (s.files.tables[blocker.table]?.getD []) blocker.fd
  | .epoll (.files _ (.forget _)) | .epoll (.epoll_ctl _ _ _ _ _ _) => True
  | .transfer _ table fd _ => ∀ fds, s.files.tables[table]? = some fds → s.files.Anonymous fds fd

/-- What an action closes takes nothing out of the tree. -/
def UsesQuietly (depth : Nat) (s : EpollState) : FileUse → Prop
  | .epoll (.files _ (.call table call)) => ∀ fds, s.files.tables[table]? = some fds → s.files.QuietCall depth table fds call
  | _ => True

theorem epoll_ctl_files {fds : FileDescriptors} {epfd op fd : Int} {events : EpollEvents} {data : Nat} {ret : Int}
    (h : s.epoll_ctl fds epfd op fd events data = .ok (s', ret)) : s'.files = s.files := by
  obtain ⟨instance', -, h⟩ := bind_eq_ok.1 h
  cases instance' with
  | none => rw [(ok_pair h).1]
  | some f =>
    dsimp only at h
    split at h
    · obtain ⟨l, -, h⟩ := bind_eq_ok.1 h
      rw [← (ok_pair h).1]
      rfl
    · split at h
      · obtain ⟨l, -, h⟩ := bind_eq_ok.1 h
        rw [← (ok_pair h).1]
        rfl
      · obtain ⟨_, -, h⟩ := bind_eq_ok.1 h
        rw [← (ok_pair h).1]
        rfl

/-- An action is one on files, or it leaves them alone, or it moves bytes through a descriptor. -/
theorem use_cases (h : s.use depth action = .ok s') :
    (∃ host a answer, action = .epoll (.files host a) ∧ s.files.act depth host a = .ok (s'.files, answer)) ∨
    (∃ table epfd op fd events data, action = .epoll (.epoll_ctl table epfd op fd events data) ∧ s'.files = s.files) ∨
    (∃ host table fd transfer fds, action = .transfer host table fd transfer ∧ s.files.tables[table]? = some fds ∧
      ((fds.findFileDescriptor fd = none ∧ s' = s) ∨ ∃ descriptor fs answer, fds.findFileDescriptor fd = some descriptor ∧
        s.files.fs.transfer host descriptor.openFileDescription transfer = .ok (fs, answer) ∧ s'.files.fs = fs)) := by
  cases action with
  | epoll action =>
    cases action with
    | files host a =>
      obtain ⟨⟨files, answer⟩, hact, h⟩ := bind_eq_ok.1 h
      obtain rfl := Except.ok.inj h
      exact .inl ⟨host, a, answer, rfl, hact⟩
    | epoll_ctl table epfd op fd events data =>
      simp only [use, act] at h
      split at h
      · cases h
      · next fds htable =>
        obtain ⟨⟨s1, ret⟩, hctl, h⟩ := bind_eq_ok.1 h
        obtain rfl := Except.ok.inj h
        exact .inr (.inl ⟨table, epfd, op, fd, events, data, rfl, epoll_ctl_files hctl⟩)
  | transfer host table fd transfer =>
    simp only [use] at h
    split at h
    · cases h
    · next fds htable =>
      refine .inr (.inr ⟨host, table, fd, transfer, fds, rfl, htable, ?_⟩)
      split at h
      · next hnone => exact .inl ⟨hnone, (Except.ok.inj h).symm⟩
      · next descriptor hfind =>
        obtain ⟨⟨fs, answer⟩, htransfer, h⟩ := bind_eq_ok.1 h
        obtain rfl := Except.ok.inj h
        exact .inr ⟨descriptor, fs, answer, hfind, htransfer, rfl⟩

/-- The directories are a tree after every action. -/
theorem use_tree (ht : s.files.fs.Tree) (h : s.use depth action = .ok s') : s'.files.fs.Tree := by
  rcases use_cases h with ⟨host, a, answer, -, hact⟩ | ⟨table, epfd, op, fd, events, data, -, hfiles⟩ |
    ⟨host, table, fd, transfer, fds, -, -, ⟨-, rfl⟩ | ⟨descriptor, fs, answer, -, htransfer, rfl⟩⟩
  · exact ht.changes (act_changes (φ := fun _ _ _ => True) (δ := fun _ _ => True) allows_any (fun _ _ => trivial) ht
      (fun _ call _ => admitted_any host depth s.files.fs call) hact)
  · exact hfiles ▸ ht
  · exact ht
  · exact ht.transfer htransfer

theorem uses_tree (h : (uses depth).Reachable s) : s.files.fs.Tree :=
  h.invariant (fun s => s.files.fs.Tree) (fun _ hs => (tree_of_isNew (And.left hs)).1) fun _ _ _ ht hstep =>
    use_tree ht (toOption_eq_some.1 hstep)

/-- An action that uses files outside the tree only takes things out of the tree at most, and leaves all of it exactly if what it
closes does. -/
theorem use_wears (ht : s.files.fs.Tree) (huses : s.UsesAnonymous action) (h : s.use depth action = .ok s') :
    Wears s.files.fs s'.files.fs (s.UsesQuietly depth action) := by
  rcases use_cases h with ⟨host, a, answer, rfl, hact⟩ | ⟨table, epfd, op, fd, events, data, rfl, hfiles⟩ |
    ⟨host, table, fd, transfer, fds, rfl, htable, ⟨-, rfl⟩ | ⟨descriptor, fs, answer, hfind, htransfer, rfl⟩⟩
  · rcases act_cases hact with ⟨table, fds, call, rfl, htable, hcall⟩ | ⟨index, blocker, rfl, hblocker, htry⟩ | ⟨index, rfl, hforget⟩
    · obtain ⟨hfades, hiff⟩ := perform_wears ht htable (huses fds htable) hcall
      refine ⟨hfades, hiff.trans ⟨?_, fun hq => hq fds htable⟩⟩
      intro hq fds' hfds'
      obtain rfl := Option.some.inj (htable.symm.trans hfds')
      exact hq
    · exact .of_keeps (tryUnblock_keepsTree (huses blocker hblocker) htry) trivial
    · rw [hforget]
      exact .of_keeps (.refl _) trivial
  · rw [hfiles]
    exact .of_keeps (.refl _) trivial
  · exact .of_keeps (.refl _) trivial
  · exact .of_keeps (transfer_untouched (huses fds htable descriptor hfind) htransfer).toKeepsTree trivial

/-- From every state that a run reaches: a run that creates, uses and closes files outside the tree leaves every file of the tree
as it was exactly if nothing of the tree that goes is at the path of a file whose last descriptor is closed. -/
theorem keepsTree_run_iff (h : (uses depth).Reachable s) {run : List FileUse}
    (hanonymous : (uses depth).Along UsesAnonymous s run) (hrun : (uses depth).run s run = some s') :
    s.files.fs.KeepsTree s'.files.fs ↔ (uses depth).Along (UsesQuietly depth) s run := by
  obtain ⟨-, hfades, hiff⟩ := Machine.run_back_iff (I := fun s => s.files.fs.Tree) (A := UsesAnonymous)
    (r := fun s t => s.files.fs.Fades t.files.fs) (fun s => .refl s.files.fs) (fun _ _ _ h h' => h.trans h') (by
      intro s a t ht ha hstep
      have huse := toOption_eq_some.1 hstep
      obtain ⟨hfades, hiff⟩ := use_wears ht ha huse
      exact ⟨use_tree ht huse, hfades, (keepsTree_iff hfades).symm.trans hiff⟩) (uses_tree h) hanonymous hrun
  exact (keepsTree_iff hfades).trans hiff

section Samples

/-- A call of the first process. -/
def usesFile (call : FileCall) : FileUse := .epoll (.files bareHost (.call 0 call))

/-- The first process creates a file and closes it. -/
def createsNamed : List FileUse := [usesFile (.open ⟨[['n']], by decide⟩ ⟨true, true⟩ { creat := true } {}), usesFile (.close 0)]

/-- It creates a memory file and closes it. -/
def usesMemory (name : Str) : List FileUse := [usesFile (.memfd_create name false false), usesFile (.close 0)]

def firstUses : EpollState := ⟨FileState.first, fun _ => []⟩

theorem firstUses_isNew : (uses 1).init firstUses := ⟨FileState.first_isNew, fun _ => rfl⟩

/-- The descriptor that is closed is that of a memory file. -/
theorem along_usesMemory {s t : EpollState} {name : Str} (hstep : (uses 1).step s (usesFile (.memfd_create name false false)) = some t)
    (htables : t.files.tables = [[some ⟨1, false⟩]]) (hof : t.files.fs.fileOf 1 = some 4) (hnode : t.files.fs.node 4 = none) :
    (uses 1).Along UsesAnonymous s (usesMemory name) := by
  refine ⟨fun _ _ => trivial, ?_⟩
  intro t' ht'
  obtain rfl := Option.some.inj (hstep.symm.trans ht')
  refine ⟨?_, fun _ _ => trivial⟩
  intro fds hfds descriptor hfind f hf
  rw [htables] at hfds
  obtain rfl := Option.some.inj hfds
  obtain rfl := Option.some.inj hfind
  obtain rfl := Option.some.inj (hof.symm.trans hf)
  exact hnode

theorem run_usesMemory {s t s' : EpollState} {name : Str} (hstep : (uses 1).step s (usesFile (.memfd_create name false false)) = some t)
    (hclose : (uses 1).step t (usesFile (.close 0)) = some s') : (uses 1).run s (usesMemory name) = some s' := by
  simp only [usesMemory, Machine.run, List.foldlM_cons, List.foldlM_nil, hstep, hclose, Option.bind_eq_bind, Option.bind_some,
    Option.pure_def]

/-- A memory file with a name that no path leads to is created and closed. -/
theorem keepsTree_run_unnamed : ∃ s s', (uses 1).Reachable s ∧ (uses 1).run s (usesMemory ['m']) = some s' ∧
    (s.files.fs.node 3).isSome = true ∧ s.files.fs.KeepsTree s'.files.fs := by
  have hrun : ((uses 1).run firstUses createsNamed).bind (fun s =>
      ((uses 1).step s (usesFile (.memfd_create ['m'] false false))).bind fun t => ((uses 1).step t (usesFile (.close 0))).map fun _ =>
        decide ((s.files.fs.node 3).isSome = true ∧ t.files.tables = [[some ⟨1, false⟩]] ∧
          t.files.fs.fileOf 1 = some 4 ∧ t.files.fs.node 4 = none ∧ t.files.fs.path 4 = .ok ⟨[['m']], by decide⟩ ∧
          t.files.fs.tryGetFile 1 ⟨[['m']], by decide⟩ .YES = .ok none)) = some true := by decide
  obtain ⟨s, hs, hrun⟩ := Option.bind_eq_some_iff.1 hrun
  obtain ⟨t, ht, hrun⟩ := Option.bind_eq_some_iff.1 hrun
  obtain ⟨s', hs', hfound⟩ := Option.map_eq_some_iff.1 hrun
  obtain ⟨hfile, htables, hof, hnode, hpath, hnone⟩ := of_decide_eq_true hfound
  have hreach : (uses 1).Reachable s := (Machine.Reachable.init firstUses_isNew).run _ hs
  have hruns := run_usesMemory ht hs'
  refine ⟨s, s', hreach, hruns, hfile, (keepsTree_run_iff hreach (along_usesMemory ht htables hof hnode) hruns).2 ?_⟩
  refine ⟨fun _ _ => trivial, ?_⟩
  intro t' ht'
  obtain rfl := Option.some.inj (ht.symm.trans ht')
  refine ⟨?_, fun _ _ => trivial⟩
  intro fds hfds descriptor hfind f file path hf _ _ _ hp g gfile hg
  rw [htables] at hfds
  obtain rfl := Option.some.inj hfds
  obtain rfl := Option.some.inj hfind
  obtain rfl := Option.some.inj (hof.symm.trans hf)
  obtain rfl := Except.ok.inj (hpath.symm.trans hp)
  rw [hnone] at hg
  cases hg

/-- A memory file with the name of a file is created and closed: the file is gone. -/
theorem keepsTree_run_fails : ¬ ∀ (s s' : EpollState) (run : List FileUse), (uses 1).Reachable s →
    (uses 1).Along UsesAnonymous s run → (uses 1).run s run = some s' → s.files.fs.KeepsTree s'.files.fs := by
  intro hall
  have hrun : ((uses 1).run firstUses createsNamed).bind (fun s =>
      ((uses 1).step s (usesFile (.memfd_create ['n'] false false))).bind fun t => ((uses 1).step t (usesFile (.close 0))).map fun s' =>
        decide ((s.files.fs.node 3).isSome = true ∧ t.files.tables = [[some ⟨1, false⟩]] ∧
          t.files.fs.fileOf 1 = some 4 ∧ t.files.fs.node 4 = none ∧ s'.files.fs.node 3 = none)) = some true := by
    decide
  obtain ⟨s, hs, hrun⟩ := Option.bind_eq_some_iff.1 hrun
  obtain ⟨t, ht, hrun⟩ := Option.bind_eq_some_iff.1 hrun
  obtain ⟨s', hs', hfound⟩ := Option.map_eq_some_iff.1 hrun
  obtain ⟨hfile, htables, hof, hnode, hgone⟩ := of_decide_eq_true hfound
  have hkeeps := hall s s' (usesMemory ['n']) ((Machine.Reachable.init firstUses_isNew).run _ hs)
    (along_usesMemory ht htables hof hnode) (run_usesMemory ht hs')
  rw [← hkeeps.node 3, hgone] at hfile
  cases hfile

end Samples

end EpollState

end X64Emulator
