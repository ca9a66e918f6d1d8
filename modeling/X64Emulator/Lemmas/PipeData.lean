import X64Emulator.Lemmas.FileRuns

/-!
# The bytes in the pipes

What a step takes out of the buffers of the pipes, at the front, and what it puts in, at the end. Only reads and writes of
endpoints move bytes: the other steps leave every buffer as it is, and a new pipe is empty.
-/

namespace X64Emulator

open Outcome

namespace FS

variable {fs fs' fs'' : FS} {host : HostFiles} {depth : Nat} {f : FileId} {d : DescriptionId} {p : PipeId} {count : Nat}
  {result : ReadResult} {buf : List UInt8} {ds ds' : List DescriptionId} {φ : FS → FileId → Str → Prop} {δ : FS → FileId → Prop}
  {κ : FS → DescriptionId → Prop} {took put : PipeId → List UInt8}

/-- The pipe of the endpoint that an open file description refers to. -/
def pipeOf (fs : FS) (d : DescriptionId) : Option PipeId :=
  ((fs.fileOf d).bind fs.files.get?).bind fun file => file.endpoint?.map Prod.fst

theorem pipeOf_eq {ofd : OpenFileDescription} {file : File} (hofd : fs.descriptions.get? d = some ofd)
    (hfile : fs.files.get? ofd.file = some file) : fs.pipeOf d = file.endpoint?.map Prod.fst := by
  simp [pipeOf, fileOf, hofd, hfile]

theorem endpoint?_of_kind {file : File} {side : PipeSide} (h : file.kind = .pipeEndpoint p side) :
    file.endpoint? = some (p, side) := by simp [File.endpoint?, h]

/-- What is taken out of the buffers, and what is put in. -/
structure Moves (fs fs' : FS) (took put : PipeId → List UInt8) : Prop where
  next : fs.pipes.next ≤ fs'.pipes.next
  data : ∀ p pipe', fs'.pipes.get? p = some pipe' →
    (∃ pipe, fs.pipes.get? p = some pipe ∧ took p ++ pipe'.data = pipe.data ++ put p) ∨
    (fs.pipes.next ≤ p ∧ pipe'.data = [] ∧ took p = [] ∧ put p = [])
  live : ∀ p, took p ≠ [] ∨ put p ≠ [] → fs'.pipes.Live p

/-- No bytes move. -/
abbrev SameData (fs fs' : FS) : Prop := fs.Moves fs' (fun _ => []) (fun _ => [])

theorem SameData.of_pipes (h : fs'.pipes = fs.pipes) : fs.SameData fs' := by
  refine ⟨Nat.le_of_eq (by rw [h]), ?_, ?_⟩
  · intro p pipe' hp
    rw [h] at hp
    exact .inl ⟨pipe', hp, by simp⟩
  · intro p hp
    simp at hp

theorem SameData.trans (h : fs.SameData fs') (h' : fs'.SameData fs'') : fs.SameData fs'' := by
  refine ⟨Nat.le_trans h.next h'.next, ?_, ?_⟩
  · intro p pipe'' hp
    rcases h'.data p pipe'' hp with ⟨pipe', hpipe', hdata'⟩ | ⟨hnew, hdata', -, -⟩
    · have hdata' : pipe''.data = pipe'.data := by simpa using hdata'
      rcases h.data p pipe' hpipe' with ⟨pipe, hpipe, hdata⟩ | ⟨hnew, hdata, -, -⟩
      · exact .inl ⟨pipe, hpipe, by rw [hdata']; exact hdata⟩
      · exact .inr ⟨hnew, hdata'.trans hdata, rfl, rfl⟩
    · exact .inr ⟨Nat.le_trans h.next hnew, hdata', rfl, rfl⟩
  · intro p hp
    simp at hp

/-! ## Steps that move no bytes -/

theorem Edit.pipes (h : Edit φ δ fs fs') : fs'.pipes = fs.pipes := by
  cases h <;> rfl

theorem Edits.pipes (h : Edits φ δ fs fs') : fs'.pipes = fs.pipes := by
  induction h with
  | refl => rfl
  | tail _ hedit ih => exact hedit.pipes.trans ih

theorem Silent.sameData (h : Silent φ δ False fs fs') : fs.SameData fs' := by
  cases h with
  | edit h => exact .of_pipes h.pipes
  | pipe p g hμ => exact hμ.elim
  | description d g => exact .of_pipes rfl

theorem data_closedEndpoint (pipe : Pipe) : (closedEndpoint f pipe).data = pipe.data := rfl

theorem closeFile_sameData (h : fs.closeFile f = .ok fs') : fs.SameData fs' := by
  obtain ⟨file, hfile, ⟨-, rfl | ⟨cls, cls', entries, -, rfl⟩⟩ | ⟨p, side, -, -, rfl⟩⟩ := closeFile_cases h
  · exact .of_pipes rfl
  · exact .of_pipes rfl
  · have hnext : (fs.modifyPipe p (closedEndpoint f)).removeClosedPipes.pipes.next = fs.pipes.next :=
      Heap.next_freeAll.trans Heap.next_modify
    refine ⟨Nat.le_of_eq hnext.symm, ?_, ?_⟩
    · intro q pipe' hq
      rw [get?_removeClosedPipes, Option.filter_eq_some_iff, get?_modifyPipe] at hq
      left
      obtain ⟨hq, -⟩ := hq
      split at hq
      · obtain ⟨pipe, hpipe, rfl⟩ := Option.map_eq_some_iff.1 hq
        exact ⟨pipe, hpipe, by simp [data_closedEndpoint]⟩
      · exact ⟨pipe', hq, by simp⟩
    · intro q hq
      simp at hq

theorem unlink_pipes {path : Path} {n : Int} (h : fs.unlink depth path = .ok (fs', n)) : fs'.pipes = fs.pipes := by
  rcases unlink_cases h with ⟨-, -, rfl⟩ | ⟨g, gfile, -, -, -, ⟨-, rfl⟩ | ⟨-, rfl⟩ | ⟨-, fs1, taken, htake, rfl⟩⟩
  · rfl
  · rfl
  · rfl
  · obtain ⟨-, dir, name, -, -, -, -, rfl⟩ := tryTakeFile_entryAt htake
    rfl

theorem close_sameData {descriptor : FileDescriptor} (h : fs.close depth descriptor = .ok fs') : fs.SameData fs' := by
  obtain ⟨ofd, fs1, file, -, hunref, -, hrest⟩ := close_cases h
  obtain ⟨file0, -, -, rfl⟩ := unref_eq_ok hunref
  have hfirst : fs.SameData (fs.modifyFile ofd.file fun file => { file with refCount := file.refCount - 1 }) := .of_pipes rfl
  rcases hrest with ⟨-, hlast⟩ | ⟨-, rfl⟩
  · obtain ⟨fs2, file2, hclose, -, ⟨-, rfl⟩ | ⟨-, path, fs3, n, -, hunlink, rfl⟩⟩ := lastClose_cases hlast
    · exact hfirst.trans (closeFile_sameData hclose)
    · have hpipes : (fs3.removeFromOrphans ofd.file).pipes = fs2.pipes :=
        (removeFromOrphans_frame fs3 ofd.file).2.1.trans (unlink_pipes hunlink)
      exact (hfirst.trans (closeFile_sameData hclose)).trans (.of_pipes hpipes)
  · exact hfirst

theorem pipe2_sameData {statusFlags : StatusFlags} {closeOnExec : Bool} {reader writer : FileDescriptor}
    (h : fs.pipe2 statusFlags closeOnExec = .ok (fs', reader, writer)) : fs.SameData fs' := by
  obtain ⟨hpipes, -⟩ := pipe2_frame h
  have hnext : fs'.pipes.next = fs.pipes.next + 1 := by rw [hpipes, Heap.next_alloc]
  refine ⟨by omega, ?_, ?_⟩
  · intro q pipe' hq
    rw [hpipes] at hq
    by_cases hnew : q = fs.pipes.next
    · subst hnew
      rw [Heap.get?_alloc_next] at hq
      obtain rfl := Option.some.inj hq
      exact .inr ⟨Nat.le_refl _, rfl, rfl, rfl⟩
    · rw [Heap.get?_alloc_of_ne hnew] at hq
      exact .inl ⟨pipe', hq, by simp⟩
  · intro q hq
    simp at hq

/-- The steps of the tables that are no reads and no writes move no bytes. -/
theorem sameData_shift (h : Shift φ δ κ False depth (fs, ds) (fs', ds')) : fs.SameData fs' := by
  cases h with
  | silent h => exact h.sameData
  | openNode f accessMode statusFlags closeOnExec h => exact .of_pipes (openNode_frame h).1
  | insertNode file accessMode statusFlags closeOnExec hfile h => exact .of_pipes (openNode_frame h).1
  | pipe2 statusFlags closeOnExec h => exact pipe2_sameData h
  | ref d f hd h =>
    obtain ⟨-, rfl⟩ := ref_eq_ok.1 h
    exact .of_pipes rfl
  | close descriptor hκ h => exact close_sameData h
  | perm h => exact .of_pipes rfl

/-! ## Reads and writes -/

theorem read_pipe (h : fs.read host d count = .ok (fs', result)) :
    (fs.pipeOf d = none ∧ fs'.pipes = fs.pipes) ∨ ∃ p ofd fs1, fs.pipeOf d = some p ∧ fs.descriptions.get? d = some ofd ∧
      fs.readPipe p ofd.statusFlags.nonblock count = .ok (fs1, result) ∧ fs'.pipes = fs1.pipes := by
  obtain ⟨ofd, fs1, hofd, hread, hafter⟩ := read_cases h
  have hpipes : fs'.pipes = fs1.pipes := by
    rcases hafter with ⟨data, -, rfl⟩ | ⟨-, rfl⟩ <;> rfl
  obtain ⟨file, hfile, ⟨p, side, hkind, hread⟩ | ⟨hend, -, rfl⟩ | ⟨counter, hkind, -, rfl⟩⟩ := readFile_cases hread
  · exact .inr ⟨p, ofd, fs1, by rw [pipeOf_eq hofd hfile, endpoint?_of_kind hkind]; rfl, hofd, hread, hpipes⟩
  · exact .inl ⟨by rw [pipeOf_eq hofd hfile, hend]; rfl, hpipes⟩
  · exact .inl ⟨by rw [pipeOf_eq hofd hfile, File.endpoint?, hkind]; rfl, hpipes⟩

theorem pread_pipe {offset : Int} (h : fs.pread host d count offset = .ok (fs', result)) :
    (fs.pipeOf d = none ∧ fs'.pipes = fs.pipes) ∨ ∃ p ofd fs1, fs.pipeOf d = some p ∧ fs.descriptions.get? d = some ofd ∧
      fs.readPipe p ofd.statusFlags.nonblock count = .ok (fs1, result) ∧ fs'.pipes = fs1.pipes := by
  obtain ⟨ofd, hofd, hread, -⟩ := pread_cases h
  obtain ⟨file, hfile, ⟨p, side, hkind, hread⟩ | ⟨hend, -, rfl⟩ | ⟨counter, hkind, -, rfl⟩⟩ := readFile_cases hread
  · exact .inr ⟨p, ofd, fs', by rw [pipeOf_eq hofd hfile, endpoint?_of_kind hkind]; rfl, hofd, hread, rfl⟩
  · exact .inl ⟨by rw [pipeOf_eq hofd hfile, hend]; rfl, rfl⟩
  · exact .inl ⟨by rw [pipeOf_eq hofd hfile, File.endpoint?, hkind]; rfl, rfl⟩

/-- What a read of a pipe gives: the first bytes; or nothing, where there is nothing and no writer; or it would block. -/
theorem readPipe_result {nonBlocking : Bool} {pipe : Pipe} (hpipe : fs.pipes.get? p = some pipe)
    (h : fs.readPipe p nonBlocking count = .ok (fs', result)) :
    result = if pipe.data = [] then
        if pipe.writeEndpoints = [] then .bytes [] else if nonBlocking then .error (-EAGAIN) else .blocked
      else .bytes (pipe.data.take count) := by
  obtain ⟨pipe', hpipe', h⟩ := bind_eq_ok.1 h
  rw [pipe_eq_ok] at hpipe'
  obtain rfl := Option.some.inj (hpipe.symm.trans hpipe')
  split at h
  · next hdata =>
    rw [if_pos hdata]
    split at h
    · next hwriters => exact (ok_pair h).2.symm.trans (if_pos hwriters).symm
    · next hwriters =>
      rw [if_neg hwriters]
      split at h
      · next hnon => exact (ok_pair h).2.symm.trans (if_pos hnon).symm
      · next hnon => exact (ok_pair h).2.symm.trans (if_neg hnon).symm
  · next hdata => exact (ok_pair h).2.symm.trans (if_neg hdata).symm

/-- The bytes that a read gives. -/
def readBytes : ReadResult → List UInt8
  | .bytes data => data
  | _ => []

/-- The bytes for one pipe. -/
def only (p : PipeId) (bytes : List UInt8) (q : PipeId) : List UInt8 := if q = p then bytes else []

theorem readPipe_moves {nonBlocking : Bool} (h : fs.readPipe p nonBlocking count = .ok (fs', result)) :
    fs.Moves fs' (only p (readBytes result)) (fun _ => []) := by
  have hsame : fs' = fs → readBytes result = [] → fs.Moves fs' (only p (readBytes result)) (fun _ => []) := by
    rintro rfl hnone
    have hempty : only p (readBytes result) = fun _ => [] := by
      funext q
      simp [only, hnone]
    rw [hempty]
    exact SameData.of_pipes rfl
  obtain ⟨pipe, hpipe, ⟨-, -, rfl, hfs⟩ | ⟨-, -, rfl | rfl, hfs⟩ | ⟨-, rfl, rfl⟩⟩ := readPipe_cases h
  · exact hsame hfs rfl
  · exact hsame hfs rfl
  · exact hsame hfs rfl
  · refine ⟨Nat.le_of_eq Heap.next_modify.symm, ?_, ?_⟩
    · intro q pipe' hq
      rw [get?_modifyPipe] at hq
      left
      split at hq
      · next hqp =>
        subst hqp
        rw [hpipe] at hq
        obtain rfl := Option.some.inj hq
        exact ⟨pipe, hpipe, by simp [only, readBytes]⟩
      · next hqp => exact ⟨pipe', hq, by simp [only, hqp]⟩
    · intro q hq
      have hqp : q = p := by
        by_contra hne
        simp [only, hne] at hq
      subst hqp
      exact ⟨_, by rw [get?_modifyPipe, if_pos rfl, hpipe]; rfl⟩

theorem Moves.of_pipes (h : fs.Moves fs' took put) (hp : fs''.pipes = fs'.pipes) : fs.Moves fs'' took put := by
  refine ⟨hp ▸ h.next, ?_, ?_⟩
  · intro p pipe' hpipe'
    exact h.data p pipe' (hp ▸ hpipe')
  · intro p hmoved
    rw [hp]
    exact h.live p hmoved

theorem append_moves (hl : fs.pipes.Live p) :
    fs.Moves (fs.modifyPipe p fun pipe => { pipe with data := pipe.data ++ buf }) (fun _ => []) (only p buf) := by
  obtain ⟨pipe, hpipe⟩ := hl
  refine ⟨Nat.le_of_eq Heap.next_modify.symm, ?_, ?_⟩
  · intro q pipe' hq
    rw [get?_modifyPipe] at hq
    left
    split at hq
    · next hqp =>
      subst hqp
      rw [hpipe] at hq
      obtain rfl := Option.some.inj hq
      exact ⟨pipe, hpipe, by simp [only]⟩
    · next hqp => exact ⟨pipe', hq, by simp [only, hqp]⟩
  · intro q hq
    have hqp : q = p := by
      by_contra hne
      simp [only, hne] at hq
    subst hqp
    exact ⟨_, by rw [get?_modifyPipe, if_pos rfl, hpipe]; rfl⟩

/-- A write to the file of an endpoint, or to another. -/
theorem writeFile_pipe (ofd : OpenFileDescription) {file : File} {offset n : Int} (hfile : fs.files.get? ofd.file = some file)
    (h : fs.writeFile host ofd buf = .ok (fs', offset, n)) :
    (file.endpoint? = none ∧ fs'.pipes = fs.pipes) ∨ ∃ p side, file.endpoint? = some (p, side) ∧ n = buf.length ∧
      fs.Moves fs' (fun _ => []) (only p buf) := by
  obtain ⟨file', hfile', ⟨p, side, hkind, hlive, hn, rfl⟩ | ⟨hend, rfl | ⟨kind, -, rfl⟩⟩⟩ := writeFile_cases h
  · obtain rfl := Option.some.inj (hfile.symm.trans hfile')
    exact .inr ⟨p, side, endpoint?_of_kind hkind, hn, append_moves hlive⟩
  · obtain rfl := Option.some.inj (hfile.symm.trans hfile')
    exact .inl ⟨hend, rfl⟩
  · obtain rfl := Option.some.inj (hfile.symm.trans hfile')
    exact .inl ⟨hend, rfl⟩

theorem write_pipe {n : Int} (h : fs.write host d buf = .ok (fs', n)) :
    (fs.pipeOf d = none ∧ fs'.pipes = fs.pipes) ∨ ∃ p, fs.pipeOf d = some p ∧ ((n = -EBADF ∧ fs'.pipes = fs.pipes) ∨
      (n = buf.length ∧ fs.Moves fs' (fun _ => []) (only p buf))) := by
  obtain ⟨ofd, file, hofd, hfile, ⟨-, hn, rfl⟩ | ⟨-, fs1, offset, nbytes, newoffset, hwrite, rfl, -, rfl⟩⟩ := write_cases h
  · rw [pipeOf_eq hofd hfile]
    cases file.endpoint? with
    | none => exact .inl ⟨rfl, rfl⟩
    | some e => exact .inr ⟨e.1, rfl, .inl ⟨hn, rfl⟩⟩
  · rw [pipeOf_eq hofd hfile]
    rcases writeFile_pipe ofd hfile hwrite with ⟨hend, hpipes⟩ | ⟨p, side, hend, hn, hmoves⟩
    · exact .inl ⟨by rw [hend]; rfl, hpipes⟩
    · exact .inr ⟨p, by rw [hend]; rfl, .inr ⟨hn, hmoves.of_pipes rfl⟩⟩

theorem pwrite_pipe {offset n : Int} (h : fs.pwrite host d buf offset = .ok (fs', n)) :
    (fs.pipeOf d = none ∧ fs'.pipes = fs.pipes) ∨ ∃ p, fs.pipeOf d = some p ∧ ((n = -EBADF ∧ fs'.pipes = fs.pipes) ∨
      (n = buf.length ∧ fs.Moves fs' (fun _ => []) (only p buf))) := by
  obtain ⟨ofd, file, hofd, hfile, ⟨-, hn, rfl⟩ | ⟨-, after, hwrite⟩⟩ := pwrite_cases h
  · rw [pipeOf_eq hofd hfile]
    cases file.endpoint? with
    | none => exact .inl ⟨rfl, rfl⟩
    | some e => exact .inr ⟨e.1, rfl, .inl ⟨hn, rfl⟩⟩
  · rw [pipeOf_eq hofd hfile]
    rcases writeFile_pipe { ofd with offset := offset } hfile hwrite with ⟨hend, hpipes⟩ | ⟨p, side, hend, hn, hmoves⟩
    · exact .inl ⟨by rw [hend]; rfl, hpipes⟩
    · exact .inr ⟨p, by rw [hend]; rfl, .inr ⟨hn, hmoves⟩⟩

end FS

end X64Emulator
