import X64Emulator.Lemmas.FileRuns

/-!
# What stays of a file

A file that was destroyed does not come back, since the number of an allocation is not used again, and a file that is marked to go
when it is closed stays marked as long as it is there. Both hold from any step on, along every run.
-/

namespace X64Emulator

open Outcome

/-- Entries are no mark. -/
theorem File.deleteAfterClose_withEntries {file : File} {es : List FileId} :
    (file.withEntries es).deleteAfterClose = file.deleteAfterClose := by
  unfold File.withEntries
  split <;> rfl

namespace FS

variable {fs fs' fs'' : FS} {f d : FileId} {host : HostFiles} {depth : Nat} {path : Path} {descriptor : FileDescriptor}
  {accessMode : AccessMode} {statusFlags : StatusFlags} {closeOnExec : Bool}

/-- No file that was there before comes back, and marks stay. -/
structure Ages (fs fs' : FS) : Prop where
  next : fs.files.next ≤ fs'.files.next
  file : ∀ f < fs.files.next, ∀ file', fs'.files.get? f = some file' →
    ∃ file, fs.files.get? f = some file ∧ (file.deleteAfterClose = true → file'.deleteAfterClose = true)

/-- Only the files count. -/
theorem Ages.of_files (h : fs'.files = fs.files) : fs.Ages fs' := by
  refine ⟨Nat.le_of_eq (by rw [h]), ?_⟩
  intro f _ file' hfile'
  rw [h] at hfile'
  exact ⟨file', hfile', id⟩

/-- Without a step nothing ages. -/
theorem Ages.refl (fs : FS) : fs.Ages fs := .of_files rfl

/-- Steps behind each other. -/
theorem Ages.trans (h : fs.Ages fs') (h' : fs'.Ages fs'') : fs.Ages fs'' := by
  refine ⟨Nat.le_trans h.next h'.next, ?_⟩
  intro f hf file'' hfile''
  obtain ⟨file', hfile', hmark'⟩ := h'.file f (Nat.lt_of_lt_of_le hf h.next) file'' hfile''
  obtain ⟨file, hfile, hmark⟩ := h.file f hf file' hfile'
  exact ⟨file, hfile, fun hfile => hmark' (hmark hfile)⟩

/-- A file may change where it keeps its mark. -/
theorem Ages.modifyFile {g : File → File} (hg : ∀ file, file.deleteAfterClose = true → (g file).deleteAfterClose = true) :
    fs.Ages (fs.modifyFile f g) := by
  refine ⟨Nat.le_of_eq next_modifyFile.symm, ?_⟩
  intro q _ file' hfile'
  rw [get?_modifyFile] at hfile'
  split at hfile'
  · obtain ⟨file, hfile, rfl⟩ := Option.map_eq_some_iff.1 hfile'
    exact ⟨file, hfile, hg file⟩
  · exact ⟨file', hfile', id⟩

/-- A new file has a new number. -/
theorem Ages.allocFile (fs : FS) (file : File) : fs.Ages (fs.allocFile file) := by
  refine ⟨?_, ?_⟩
  · show fs.files.next ≤ (fs.files.alloc file).next
    rw [Heap.next_alloc]
    exact Nat.le_succ _
  · intro q hq file' hfile'
    rw [get?_allocFile, if_neg (Nat.ne_of_lt hq)] at hfile'
    exact ⟨file', hfile', id⟩

/-- A new file without a directory. -/
theorem Ages.allocOrphan (fs : FS) (file : File) : fs.Ages (fs.allocOrphan file) :=
  (Ages.allocFile fs file).trans (.of_files rfl)

/-- A file is destroyed. -/
theorem Ages.destroy (fs : FS) (f : FileId) : fs.Ages (fs.destroy f) := by
  refine ⟨Nat.le_of_eq Heap.next_freeAll.symm, ?_⟩
  intro q _ file' hfile'
  rw [get?_destroy] at hfile'
  split at hfile'
  · cases hfile'
  · exact ⟨file', hfile', id⟩

/-- A file is destroyed if no directory has it. -/
theorem Ages.removeFromOrphans (fs : FS) (f : FileId) : fs.Ages (fs.removeFromOrphans f) := by
  refine ⟨?_, ?_⟩
  · unfold FS.removeFromOrphans
    split
    · exact Nat.le_of_eq Heap.next_freeAll.symm
    · exact Nat.le_refl _
  · intro q _ file' hfile'
    rw [get?_removeFromOrphans] at hfile'
    split at hfile'
    · cases hfile'
    · exact ⟨file', hfile', id⟩

/-- A file that is gone stays gone. -/
theorem Ages.gone (h : fs.Ages fs') (hlt : f < fs.files.next) (hf : ¬ fs.files.Live f) : ¬ fs'.files.Live f := by
  rintro ⟨file', hfile'⟩
  obtain ⟨file, hfile, -⟩ := h.file f hlt file' hfile'
  exact hf ⟨file, hfile⟩

/-! ## Operations -/

/-- A file gets a directory. -/
theorem attach_ages (fs : FS) (d f : FileId) : fs.Ages (fs.attach d f) := by
  have hfirst : fs.Ages (fs.modifyFile d fun directory => directory.withEntries (directory.entries ++ [f])) := by
    refine .modifyFile ?_
    intro file hfile
    rw [File.deleteAfterClose_withEntries]
    exact hfile
  exact hfirst.trans (.modifyFile fun _ hfile => hfile)

/-- A directory gets a new file. -/
theorem addFile_ages (fs : FS) (d : FileId) (file : File) : fs.Ages (fs.addFile d file).1 :=
  (Ages.allocFile fs file).trans (attach_ages _ d fs.files.next)

/-- A directory loses an entry. -/
theorem without_ages (fs : FS) (d e : FileId) : fs.Ages (fs.without d e) := by
  refine .modifyFile ?_
  intro file hfile
  rw [File.deleteAfterClose_withEntries]
  exact hfile

/-- Missing directories are made. -/
theorem ensureFrom_ages {cs : List Str} (hcs : ∀ c ∈ cs, Component c) (hd : fs.IsDir d) {r : Option FileId}
    (h : ensureFrom host depth fs d cs = .ok (fs', r)) : fs.Ages fs' := by
  refine (ensureFrom_induction (I := fun fs1 _ => fs.Ages fs1) (J := fun fs1 => fs.Ages fs1) (fun _ _ hI => hI)
    (fun _ _ _ hI _ => hI) ?_ hcs hd (.refl fs) h).1
  intro fs1 d1 name cls hI _ _ _
  exact hI.trans (addFile_ages fs1 d1 _)

/-- The directories of a path are made. -/
theorem ensurePathExceptLast_ages (ht : fs.Tree) {r : Option FileId}
    (h : fs.ensurePathExceptLast host depth path = .ok (fs', r)) : fs.Ages fs' :=
  ensureFrom_ages (fun c hc => path.proper c (List.dropLast_subset _ hc)) ht.rootDir h

/-- A file gets a description. -/
theorem openNode_ages (h : fs.openNode f accessMode statusFlags closeOnExec = .ok (fs', descriptor)) : fs.Ages fs' := by
  obtain ⟨-, rfl, -⟩ := openNode_eq_ok h
  have hdescribe : fs.Ages (fs.describe f accessMode statusFlags) := .of_files rfl
  exact hdescribe.trans (.modifyFile fun _ hfile => hfile)

/-- A file without a name is made and opened. -/
theorem insertNode_ages {file : File} (h : fs.insertNode file accessMode statusFlags closeOnExec = .ok (fs', descriptor)) :
    fs.Ages fs' :=
  (Ages.allocOrphan fs file).trans (openNode_ages h)

/-- A file is opened on the host. -/
theorem openFile_ages (h : fs.openFile host f = .ok fs') : fs.Ages fs' := by
  obtain ⟨file, -, h⟩ := bind_eq_ok.1 h
  split at h
  · obtain ⟨path, -, h⟩ := bind_eq_ok.1 h
    obtain ⟨-, -, h⟩ := bind_eq_ok.1 h
    obtain rfl := Except.ok.inj h
    exact .modifyFile fun _ hfile => hfile
  · exact Except.ok.inj h ▸ .refl fs

/-- A file is made and opened. -/
theorem create_ages (ht : fs.Tree) {kind : FileKind}
    (h : fs.create host depth path kind accessMode statusFlags closeOnExec = .ok (fs', descriptor)) : fs.Ages fs' := by
  obtain ⟨name, fs1, parent, fs2, -, hensure, hopen, hnode⟩ := create_eq_ok h
  have hadded := (ensurePathExceptLast_ages ht hensure).trans (addFile_ages fs1 parent (.new name kind))
  exact hadded.trans ((openFile_ages hopen).trans (openNode_ages hnode))

/-- `FS::open` -/
theorem openPath_ages (ht : fs.Tree) {creationFlags : CreationFlags} {result : ErrnoOr FileDescriptor}
    (h : fs.openPath host depth path accessMode creationFlags statusFlags = .ok (fs', result)) : fs.Ages fs' := by
  rcases openPath_cases h with ⟨f, fs1, descriptor, -, -, hnode, hopen⟩ | ⟨kind, descriptor, -, -, -, hcreate⟩ | ⟨-, -, -, rfl⟩
  · exact (openNode_ages hnode).trans (openFile_ages hopen)
  · exact create_ages ht hcreate
  · exact .refl fs'

/-- A directory is made. -/
theorem mkdir_ages (ht : fs.Tree) {n : Int} (h : fs.mkdir host depth path = .ok (fs', n)) : fs.Ages fs' := by
  obtain ⟨⟨fs1, r⟩, hensure, h⟩ := bind_eq_ok.1 h
  obtain rfl := (ok_pair h).1
  exact ensureFrom_ages path.proper ht.rootDir hensure

/-- A file goes to another directory. -/
theorem rename_ages (ht : fs.Tree) {oldpath newpath : Path} {n : Int} (h : fs.rename host depth oldpath newpath = .ok (fs', n)) :
    fs.Ages fs' := by
  rcases rename_cases h with ⟨-, -, rfl⟩ | ⟨fs1, f, fs2, newdir, name, htake, -, hensure, -, rfl⟩
  · exact .refl _
  · have ht1 := ht.edit (tryTakeFile_loose (φ := fun _ _ _ => True) (δ := fun _ _ => True) ht htake).1
    obtain ⟨-, dir, oldname, -, -, -, -, rfl⟩ := tryTakeFile_entryAt htake
    have hrename : fs2.Ages (fs2.renameFile f newdir name) := .modifyFile fun _ hfile => hfile
    exact (without_ages fs dir f).trans ((ensurePathExceptLast_ages ht1 hensure).trans (hrename.trans (attach_ages _ newdir f)))

/-- A file is marked, or loses its entry. -/
theorem unlink_ages {n : Int} (h : fs.unlink depth path = .ok (fs', n)) : fs.Ages fs' := by
  rcases unlink_cases h with ⟨-, -, rfl⟩ | ⟨g, gfile, -, -, -, ⟨-, rfl⟩ | ⟨-, rfl⟩ | ⟨-, fs1, taken, htake, rfl⟩⟩
  · exact .refl _
  · exact .modifyFile fun _ _ => rfl
  · exact .refl _
  · obtain ⟨-, dir, name, -, -, -, -, rfl⟩ := tryTakeFile_entryAt htake
    exact (without_ages fs dir taken).trans (.destroy _ taken)

/-- A link may have to be looked up on the host. -/
theorem readlink_ages (ht : fs.Tree) {bufferSize : Nat} {result : ErrnoOr Str}
    (h : fs.readlink host depth path bufferSize = .ok (fs', result)) : fs.Ages fs' := by
  obtain ⟨r, -, h⟩ := bind_eq_ok.1 h
  cases r with
  | some f =>
    obtain ⟨file, -, h⟩ := bind_eq_ok.1 h
    split at h
    · exact (ok_pair h).1 ▸ .refl fs
    · exact (ok_pair h).1 ▸ .refl fs
  | none =>
    dsimp only at h
    split at h
    · exact (ok_pair h).1 ▸ .refl fs
    · obtain ⟨name, -, h⟩ := bind_eq_ok.1 h
      obtain ⟨⟨fs1, parent⟩, hensure, h⟩ := bind_eq_ok.1 h
      cases parent with
      | none => cases h
      | some parent =>
        obtain rfl := (ok_pair h).1
        exact (ensurePathExceptLast_ages ht hensure).trans (addFile_ages fs1 parent _)

/-- A link is made. -/
theorem addLink_ages (ht : fs.Tree) {link : Str} (h : fs.addLink host depth path link = .ok fs') : fs.Ages fs' := by
  obtain ⟨name, -, h⟩ := bind_eq_ok.1 h
  obtain ⟨⟨fs1, parent⟩, hensure, h⟩ := bind_eq_ok.1 h
  cases parent with
  | none => cases h
  | some parent =>
    obtain rfl := Except.ok.inj h
    exact (ensurePathExceptLast_ages ht hensure).trans (addFile_ages fs1 parent _)

/-- The files of a process in `/proc` are made anew. -/
theorem resetProcFS_ages (ht : fs.Tree) {pid : Nat} {program : Path} (h : fs.resetProcFS host depth pid program = .ok fs') :
    fs.Ages fs' := by
  obtain ⟨fs1, fs2, piddir, hadd, hself, hexe⟩ := resetProcFS_eq_ok h
  obtain ⟨-, rfl, -⟩ := tryAddShadowDirectory_some (component_pidName pid) hadd
  have ht1 : (fs.addFile fs.root (.new PROC (.directory .proc []))).1.Tree := ht.addFile ht.rootDir rfl
  have ht2 : ((fs.addFile fs.root (.new PROC (.directory .proc []))).1.addFile fs.files.next
      (.new (pidName pid) (.directory .shadow []))).1.Tree := ht1.addFile isDir_addFile_next rfl
  have hfirst := (addFile_ages fs fs.root (.new PROC (.directory .proc []))).trans
    (addFile_ages _ fs.files.next (.new (pidName pid) (.directory .shadow [])))
  have ht3 := ht2.edits (addLink_edits (φ := fun _ _ _ => True) (δ := fun _ _ => True) allows_any ht2
    (fun _ _ _ _ _ => trivial) hself)
  exact hfirst.trans ((addLink_ages ht2 hself).trans (addLink_ages ht3 hexe))

/-- Two endpoints are made. -/
theorem pipe2_ages {reader writer : FileDescriptor} (h : fs.pipe2 statusFlags closeOnExec = .ok (fs', reader, writer)) :
    fs.Ages fs' := by
  obtain ⟨⟨fs1, r⟩, hreader, h⟩ := bind_eq_ok.1 h
  obtain ⟨⟨fs2, w⟩, hwriter, h⟩ := bind_eq_ok.1 h
  obtain rfl := (ok_pair h).1
  have hpipe : fs.Ages { fs with pipes := fs.pipes.alloc ⟨[], [fs.files.next], [fs.files.next + 1], false⟩ } := .of_files rfl
  exact hpipe.trans ((insertNode_ages hreader).trans (insertNode_ages hwriter))

/-- A socket is made. -/
theorem socket_ages {domain : Int} {raw nonBlock : Bool} {result : ErrnoOr FileDescriptor}
    (h : fs.socket host domain raw nonBlock closeOnExec = .ok (fs', result)) : fs.Ages fs' := by
  unfold FS.socket at h
  split at h
  · obtain ⟨⟨fs1, descriptor⟩, hinsert, h⟩ := bind_eq_ok.1 h
    obtain rfl := (ok_pair h).1
    exact insertNode_ages hinsert
  · exact (ok_pair h).1 ▸ .refl fs

/-- A reference is counted. -/
theorem ref_ages (h : fs.ref f = .ok fs') : fs.Ages fs' := by
  obtain ⟨-, rfl⟩ := ref_eq_ok.1 h
  exact .modifyFile fun _ hfile => hfile

/-- A file is closed, and an endpoint leaves its pipe. -/
theorem closeFile_ages (h : fs.closeFile f = .ok fs') : fs.Ages fs' := by
  obtain ⟨file, -, ⟨-, rfl | ⟨cls, cls', entries, -, rfl⟩⟩ | ⟨p, side, -, -, rfl⟩⟩ := closeFile_cases h
  · exact .refl _
  · exact .modifyFile fun _ hfile => hfile
  · exact .of_files rfl

/-- A descriptor is closed. -/
theorem close_ages (h : fs.close depth descriptor = .ok fs') : fs.Ages fs' := by
  obtain ⟨ofd, fs1, file1, -, hunref, -, hrest⟩ := close_cases h
  obtain ⟨file, -, -, rfl⟩ := unref_eq_ok hunref
  have hcounted : fs.Ages (fs.modifyFile ofd.file fun file => { file with refCount := file.refCount - 1 }) :=
    .modifyFile fun _ hfile => hfile
  rcases hrest with ⟨-, hlast⟩ | ⟨-, rfl⟩
  · obtain ⟨fs2, file2, hclose, -, ⟨-, rfl⟩ | ⟨-, path, fs3, n, -, hunlink, rfl⟩⟩ := lastClose_cases hlast
    · exact hcounted.trans (closeFile_ages hclose)
    · exact hcounted.trans ((closeFile_ages hclose).trans ((unlink_ages hunlink).trans (.removeFromOrphans fs3 ofd.file)))
  · exact hcounted

section Transfers

variable {ofd : OpenFileDescription} {count : Nat} {buf : List UInt8} {result : ReadResult} {offset n : Int}

/-- A read leaves the file as it is. -/
theorem readFile_ages (h : fs.readFile host ofd count = .ok (fs', result)) : fs.Ages fs' := by
  obtain ⟨file, -, ⟨p, side, -, hread⟩ | ⟨-, -, rfl⟩ | ⟨counter, -, -, rfl⟩⟩ := readFile_cases h
  · obtain ⟨pipe, -, ⟨-, -, -, rfl⟩ | ⟨-, -, -, rfl⟩ | ⟨-, -, rfl⟩⟩ := readPipe_cases hread
    · exact .refl _
    · exact .refl _
    · exact .of_files rfl
  · exact .refl _
  · exact .modifyFile fun _ hfile => hfile

/-- `FS::read` -/
theorem read_ages (h : fs.read host d count = .ok (fs', result)) : fs.Ages fs' := by
  obtain ⟨ofd, fs1, -, hread, ⟨data, -, rfl⟩ | ⟨-, rfl⟩⟩ := read_cases h
  · exact (readFile_ages hread).trans (.of_files rfl)
  · exact readFile_ages hread

/-- A read at an offset. -/
theorem pread_ages (h : fs.pread host d count offset = .ok (fs', result)) : fs.Ages fs' := by
  obtain ⟨ofd, -, hread, -⟩ := pread_cases h
  exact readFile_ages hread

/-- A write keeps the mark. -/
theorem writeFile_ages {offset : Int} (h : fs.writeFile host ofd buf = .ok (fs', offset, n)) : fs.Ages fs' := by
  obtain ⟨file, -, ⟨p, side, -, -, -, rfl⟩ | ⟨-, rfl | ⟨kind, -, rfl⟩⟩⟩ := writeFile_cases h
  · exact .of_files rfl
  · exact .refl _
  · exact .modifyFile fun _ hfile => hfile

/-- `FS::write` -/
theorem write_ages (h : fs.write host d buf = .ok (fs', n)) : fs.Ages fs' := by
  obtain ⟨ofd, file, -, -, ⟨-, -, rfl⟩ | ⟨-, fs1, offset, nbytes, newoffset, hwrite, -, -, rfl⟩⟩ := write_cases h
  · exact .refl _
  · exact (writeFile_ages hwrite).trans (.of_files rfl)

/-- A write at an offset. -/
theorem pwrite_ages (h : fs.pwrite host d buf offset = .ok (fs', n)) : fs.Ages fs' := by
  obtain ⟨ofd, file, -, -, ⟨-, -, rfl⟩ | ⟨-, after, hwrite⟩⟩ := pwrite_cases h
  · exact .refl _
  · exact writeFile_ages hwrite

/-- An offset is set. -/
theorem lseek_ages {whence : Whence} (h : fs.lseek host d offset whence = .ok (fs', n)) : fs.Ages fs' := by
  obtain ⟨ofd, -, -, ⟨-, rfl⟩ | ⟨-, rfl⟩⟩ := lseek_cases h
  · exact .refl _
  · exact .of_files rfl

/-- A file gets another length. -/
theorem ftruncate_ages {length : Int} (h : fs.ftruncate d length = .ok (fs', n)) : fs.Ages fs' := by
  obtain ⟨ofd, file, data, -, -, -, -, -, rfl⟩ := ftruncate_cases h
  exact .modifyFile fun _ hfile => hfile

/-- Flags are set. -/
theorem setNonBlocking_ages {nonBlocking : Bool} (h : fs.setNonBlocking d nonBlocking = .ok fs') : fs.Ages fs' := by
  obtain ⟨-, rfl⟩ := setNonBlocking_eq_ok h
  exact .of_files rfl

end Transfers

end FS

namespace FileState

open FS

variable {s s' : FileState} {fs : FS} {host : HostFiles} {depth table : Nat} {fds : FileDescriptors} {fd : Int} {answer : FileAnswer}

/-- A descriptor is closed. -/
theorem close_ages (h : s.close depth table fds fd = .ok (s', answer)) : s.fs.Ages s'.fs := by
  rcases close_cases h with ⟨-, rfl⟩ | ⟨descriptor, fs1, -, hclose, rfl⟩
  · exact .refl _
  · exact FS.close_ages hclose

/-- A slot is closed and filled. -/
theorem replace_ages {source : FileDescriptor} {newfd : Int} {closeOnExec : Bool}
    (h : s.replace depth table fds source newfd closeOnExec = .ok (s', answer)) : s.fs.Ages s'.fs := by
  obtain ⟨s1, answer1, ofd, fs2, hclose, -, href, -, rfl⟩ := replace_cases h
  exact (close_ages hclose).trans (ref_ages href)

/-- Any call. -/
theorem perform_ages (ht : s.fs.Tree) {call : FileCall} (h : s.perform host depth table fds call = .ok (s', answer)) :
    s.fs.Ages s'.fs := by
  cases performed h with
  | refused => exact .refl _
  | «open» hopen =>
    rw [placeOr_fs]
    exact openPath_ages ht hopen
  | close hclose => exact close_ages hclose
  | closeAll hclose =>
    refine foldlM_ok (I := fun s1 => s.fs.Ages s1.fs) (fun s1 i s2 hI h => ?_) (.refl _) hclose
    rcases closeSlot_cases h with ⟨-, rfl⟩ | ⟨fds, answer, -, hclose⟩
    · exact hI
    · exact hI.trans (close_ages hclose)
  | dup _ _ href => exact ref_ages href
  | dup2 _ _ hreplace => exact replace_ages hreplace
  | dup3 _ _ hreplace => exact replace_ages hreplace
  | clone href =>
    refine foldlM_ok (I := fun fs1 => s.fs.Ages fs1) (fun fs1 slot fs2 hI h => ?_) (.refl _) href
    rcases refSlot_cases h with ⟨-, rfl⟩ | ⟨descriptor, ofd, -, -, href⟩
    · exact hI
    · exact hI.trans (ref_ages href)
  | memfd_create hcreate =>
    obtain ⟨-, -, hinsert⟩ := bind_eq_ok.1 hcreate
    exact insertNode_ages hinsert
  | eventfd2 hcreate =>
    obtain ⟨-, -, hinsert⟩ := bind_eq_ok.1 hcreate
    exact insertNode_ages hinsert
  | epoll_create1 hcreate => exact insertNode_ages hcreate
  | socket hsocket =>
    rw [placeOr_fs]
    exact socket_ages hsocket
  | pipe2 hpipe => exact pipe2_ages hpipe
  | mkdir hmkdir => exact mkdir_ages ht hmkdir
  | rename hrename => exact rename_ages ht hrename
  | unlink hunlink => exact unlink_ages hunlink
  | readlink hreadlink => exact readlink_ages ht hreadlink
  | resetProcFS hreset => exact resetProcFS_ages ht hreset
  | read _ hread => exact read_ages hread
  | pread _ hread => exact pread_ages hread
  | write _ hwrite => exact write_ages hwrite
  | pwrite _ hwrite => exact pwrite_ages hwrite
  | lseek _ hseek => exact lseek_ages hseek
  | ftruncate _ htruncate => exact ftruncate_ages htruncate
  | setNonBlocking _ hset => exact setNonBlocking_ages hset

/-- No step of a run brings a file back or takes a mark away. -/
theorem act_ages (ht : s.fs.Tree) {action : FileAction} (h : s.act depth host action = .ok (s', answer)) : s.fs.Ages s'.fs := by
  rcases act_cases h with ⟨table, fds, call, rfl, -, h⟩ | ⟨index, blocker, -, -, h⟩ | ⟨index, -, rfl⟩
  · exact perform_ages ht h
  · rcases tryUnblock_cases h with ⟨-, hfs, -⟩ | ⟨descriptor, fs1, result, -, hread, rfl, -⟩
    · exact hfs ▸ .refl _
    · exact read_ages hread
  · exact .refl _

/-- No run does. -/
theorem run_ages {run : List (HostFiles × FileAction)} (ht : s.fs.Tree) (h : (machine depth).run s run = some s') :
    s.fs.Ages s'.fs ∧ s'.fs.Tree := by
  induction run generalizing s with
  | nil =>
    simp only [Machine.run, List.foldlM_nil, Option.pure_def, Option.some.injEq] at h
    exact h ▸ ⟨.refl _, ht⟩
  | cons a run ih =>
    simp only [Machine.run, List.foldlM_cons, Option.bind_eq_bind, Option.bind_eq_some_iff] at h
    obtain ⟨t, hstep, h⟩ := h
    obtain ⟨answer, hact⟩ := step_some hstep
    have htree : t.fs.Tree := ht.changes (act_changes (φ := fun _ _ _ => True) (δ := fun _ _ => True) allows_any
      (fun _ _ => trivial) ht (fun _ call _ => admitted_any a.1 depth s.fs call) hact)
    obtain ⟨hages, ht'⟩ := ih htree h
    exact ⟨(act_ages ht hact).trans hages, ht'⟩

end FileState

end X64Emulator
