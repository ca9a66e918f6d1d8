import X64Emulator.Lemmas.FileOperations
import X64Emulator.Lib.Machine

/-!
# The calls as changes of the tree

Every call of a process changes the tree in elementary steps, besides opening and closing files, and reading and writing them.
What holds of every addition a call may make is its `Admitted`.
-/

namespace X64Emulator

open Outcome

namespace FS

variable {fs fs' : FS} {host : HostFiles} {depth : Nat} {d : DescriptionId} {φ : FS → FileId → Str → Prop}
  {δ : FS → FileId → Prop} {μ : Prop}

/-- A change of the file system as far as the tree goes. -/
inductive Change (φ : FS → FileId → Str → Prop) (δ : FS → FileId → Prop) : FS → FS → Prop where
  | edit {fs fs' : FS} (h : Edit φ δ fs fs') : Change φ δ fs fs'
  | same {fs fs' : FS} (h : fs.SameTree fs') : Change φ δ fs fs'
  | orphan {fs : FS} (file : File) (hfile : file.entries = []) : Change φ δ fs (fs.allocOrphan file)
  | dropOrphan {fs : FS} (f : FileId) : Change φ δ fs (fs.removeFromOrphans f)

abbrev Changes (φ : FS → FileId → Str → Prop) (δ : FS → FileId → Prop) : FS → FS → Prop := Relation.ReflTransGen (Change φ δ)

/-- Edits are changes. -/
theorem Edits.changes (h : Edits φ δ fs fs') : Changes φ δ fs fs' := by
  induction h with
  | refl => exact .refl
  | tail _ hedit ih => exact ih.tail (.edit hedit)

/-- The same tree is no change. -/
theorem SameTree.changes (h : fs.SameTree fs') : Changes φ δ fs fs' := .single (.same h)

/-- A change leaves a tree. -/
theorem Tree.change (ht : fs.Tree) (h : Change φ δ fs fs') : fs'.Tree := by
  cases h with
  | edit h => exact ht.edit h
  | same h => exact h.tree ht
  | orphan file hfile => exact ht.allocOrphan hfile
  | dropOrphan f => exact ht.removeFromOrphans

/-- Changes leave a tree. -/
theorem Tree.changes (ht : fs.Tree) (h : Changes φ δ fs fs') : fs'.Tree := by
  induction h with
  | refl => exact ht
  | tail _ hchange ih => exact ih.change hchange

/-- Opening changes. -/
theorem Opens.changes {descriptor : FileDescriptor} (h : Opens φ δ fs fs' descriptor) : Changes φ δ fs fs' := by
  obtain ⟨f, accessMode, statusFlags, closeOnExec, before, opened, after⟩ := h
  exact (before.changes.tail (.same (openNode_sameTree opened))).trans after.changes

/-- Opening a new orphan changes. -/
theorem insertNode_changes {file : File} (hfile : file.entries = []) {accessMode : AccessMode} {statusFlags : StatusFlags}
    {closeOnExec : Bool} {descriptor : FileDescriptor}
    (h : fs.insertNode file accessMode statusFlags closeOnExec = .ok (fs', descriptor)) : Changes φ δ fs fs' :=
  .head (.orphan file hfile) (openNode_sameTree h).changes

/-- A step that leaves the counts, the endpoints and what descriptions refer to as they are. It changes the data of a pipe only
if `μ` allows it. -/
inductive Silent (φ : FS → FileId → Str → Prop) (δ : FS → FileId → Prop) (μ : Prop) : FS → FS → Prop where
  | edit {fs fs' : FS} (h : Edit φ δ fs fs') : Silent φ δ μ fs fs'
  | pipe {fs : FS} (p : PipeId) (g : Pipe → Pipe) (hμ : μ) (hg : ∀ pipe, (g pipe).readEndpoints = pipe.readEndpoints ∧
      (g pipe).writeEndpoints = pipe.writeEndpoints ∧ (g pipe).isClosed = pipe.isClosed) : Silent φ δ μ fs (fs.modifyPipe p g)
  | description {fs : FS} (d : DescriptionId) (g : OpenFileDescription → OpenFileDescription)
      (hg : ∀ ofd, (g ofd).file = ofd.file) : Silent φ δ μ fs (fs.modifyDescription d g)

abbrev Silents (φ : FS → FileId → Str → Prop) (δ : FS → FileId → Prop) (μ : Prop) : FS → FS → Prop :=
  Relation.ReflTransGen (Silent φ δ μ)

/-- Edits are silent. -/
theorem Edits.silents (h : Edits φ δ fs fs') : Silents φ δ μ fs fs' := by
  induction h with
  | refl => exact .refl
  | tail _ hedit ih => exact ih.tail (.edit hedit)

/-- Silent steps are changes. -/
theorem Silents.changes (h : Silents φ δ μ fs fs') : Changes φ δ fs fs' := by
  induction h with
  | refl => exact .refl
  | tail _ hsilent ih =>
    cases hsilent with
    | edit hedit => exact ih.tail (.edit hedit)
    | pipe p g _ _ => exact ih.tail (.same (.of_files rfl rfl rfl))
    | description d g _ => exact ih.tail (.same (.of_files rfl rfl rfl))

/-- Counting down changes no tree. -/
theorem unref_changes {f : FileId} (h : fs.unref f = .ok fs') : Changes φ δ fs fs' := by
  obtain ⟨file, -, -, rfl⟩ := unref_eq_ok h
  exact (SameTree.count (k := (· - 1))).changes

/-- Counting up changes no tree. -/
theorem ref_changes {f : FileId} (h : fs.ref f = .ok fs') : Changes φ δ fs fs' := by
  obtain ⟨-, rfl⟩ := ref_eq_ok.1 h
  exact (SameTree.count (k := (· + 1))).changes

/-- Closing a file keeps the tree. -/
theorem closeFile_sameTree {f : FileId} (h : fs.closeFile f = .ok fs') : fs.SameTree fs' := by
  obtain ⟨file, hfile, ⟨-, rfl | ⟨cls, cls', entries, hkind, rfl⟩⟩ | ⟨p, side, -, -, rfl⟩⟩ := closeFile_cases h
  · exact .refl _
  · refine .modifyFile fun file' hfile' => ?_
    obtain rfl := Option.some.inj (hfile.symm.trans hfile')
    exact (similar_handle hkind).toSameNode
  · exact .of_files rfl rfl rfl

/-- The last close removes a file at most. -/
theorem lastClose_changes (hδ : ∀ fs f, δ fs f) (ht : fs.Tree) {f : FileId} (h : fs.lastClose depth f = .ok fs') :
    Changes φ δ fs fs' := by
  obtain ⟨fs1, file, hclose, -, ⟨-, rfl⟩ | ⟨-, path, fs2, n, -, hunlink, rfl⟩⟩ := lastClose_cases h
  · exact (closeFile_sameTree hclose).changes
  · have hclosed : Changes φ δ fs fs1 := (closeFile_sameTree hclose).changes
    exact (hclosed.trans (unlink_edits (ht.changes hclosed) (fun _ _ _ _ _ _ _ _ => hδ _ _) hunlink).changes).tail (.dropOrphan f)

/-- Closing removes a file at most. -/
theorem close_changes (hδ : ∀ fs f, δ fs f) (ht : fs.Tree) {descriptor : FileDescriptor}
    (h : fs.close depth descriptor = .ok fs') : Changes φ δ fs fs' := by
  obtain ⟨ofd, fs1, file, -, hunref, -, ⟨-, hlast⟩ | ⟨-, rfl⟩⟩ := close_cases h
  · have hcount : Changes φ δ fs fs1 := unref_changes hunref
    exact hcount.trans (lastClose_changes hδ (ht.changes hcount) hlast)
  · exact unref_changes hunref

/-- A new pipe brings two orphans. -/
theorem pipe2_changes {statusFlags : StatusFlags} {closeOnExec : Bool} {reader writer : FileDescriptor}
    (h : fs.pipe2 statusFlags closeOnExec = .ok (fs', reader, writer)) : Changes φ δ fs fs' := by
  obtain ⟨⟨fs1, r⟩, hreader, h⟩ := bind_eq_ok.1 h
  obtain ⟨⟨fs2, w⟩, hwriter, h⟩ := bind_eq_ok.1 h
  obtain ⟨rfl, -⟩ := ok_pair h
  have hsame : fs.SameTree { fs with pipes := fs.pipes.alloc ⟨[], [fs.files.next], [fs.files.next + 1], false⟩ } :=
    .of_files rfl rfl rfl
  exact hsame.changes.trans ((insertNode_changes rfl hreader).trans (insertNode_changes rfl hwriter))

/-! ## Reading and writing -/

/-- Only the kind of the file changes, to one that the tree does not tell apart. -/
theorem kind_silents {f : FileId} {file : File} {kind : FileKind} (hfile : fs.files.get? f = some file)
    (hsimilar : file.Similar { file with kind := kind }) :
    Silents φ δ μ fs (fs.modifyFile f fun file => { file with kind := kind }) := by
  refine .single (.edit (.modify f _ fun file' hfile' => ?_))
  obtain rfl := Option.some.inj (hfile.symm.trans hfile')
  exact hsimilar

/-- Contents are not told apart. -/
theorem similar_shadowFile {file : File} {data data' : List UInt8} (h : file.kind = .shadowFile data) :
    file.Similar { file with kind := .shadowFile data' } :=
  .of_contents (by simp [File.entries, h]) (by simp [File.isDirectory, h]) (by simp [File.link?, h]) (by simp [File.endpoint?, h])

/-- Counters are not told apart. -/
theorem similar_event {file : File} {counter counter' : Nat} (h : file.kind = .event counter) :
    file.Similar { file with kind := .event counter' } :=
  .of_contents (by simp [File.entries, h]) (by simp [File.isDirectory, h]) (by simp [File.link?, h]) (by simp [File.endpoint?, h])

/-- A description is found where it exists. -/
theorem description_eq_ok {ofd : OpenFileDescription} : fs.description d = .ok ofd ↔ fs.descriptions.get? d = some ofd := by
  unfold description
  split
  · next h => rw [h, Except.ok.injEq, Option.some.injEq]
  · next h => rw [h]; simp

/-- A pipe is found where it exists. -/
theorem pipe_eq_ok {p : PipeId} {pipe : Pipe} : fs.pipe p = .ok pipe ↔ fs.pipes.get? p = some pipe := by
  unfold FS.pipe
  split
  · next h => rw [h, Except.ok.injEq, Option.some.injEq]
  · next h => rw [h]; simp

/-- `Pipe::read` finds nothing and there is no writer, or it would block, or it takes the first bytes. -/
theorem readPipe_cases {p : PipeId} {nonBlocking : Bool} {size : Nat} {result : ReadResult}
    (h : fs.readPipe p nonBlocking size = .ok (fs', result)) :
    ∃ pipe, fs.pipes.get? p = some pipe ∧
      ((pipe.data = [] ∧ pipe.writeEndpoints = [] ∧ result = .bytes [] ∧ fs' = fs) ∨
      (pipe.data = [] ∧ pipe.writeEndpoints ≠ [] ∧ (result = .error (-EAGAIN) ∨ result = .blocked) ∧ fs' = fs) ∨
      (pipe.data ≠ [] ∧ result = .bytes (pipe.data.take size) ∧
        fs' = fs.modifyPipe p fun pipe => { pipe with data := pipe.data.drop size })) := by
  obtain ⟨pipe, hpipe, h⟩ := bind_eq_ok.1 h
  rw [pipe_eq_ok] at hpipe
  refine ⟨pipe, hpipe, ?_⟩
  split at h
  · next hdata =>
    split at h
    · next hwriters =>
      obtain ⟨rfl, rfl⟩ := ok_pair h
      exact .inl ⟨hdata, hwriters, rfl, rfl⟩
    · next hwriters =>
      split at h
      · obtain ⟨rfl, rfl⟩ := ok_pair h
        exact .inr (.inl ⟨hdata, hwriters, .inl rfl, rfl⟩)
      · obtain ⟨rfl, rfl⟩ := ok_pair h
        exact .inr (.inl ⟨hdata, hwriters, .inr rfl, rfl⟩)
  · next hdata =>
    obtain ⟨rfl, rfl⟩ := ok_pair h
    exact .inr (.inr ⟨hdata, rfl, rfl⟩)

variable {ofd : OpenFileDescription} {count : Nat} {result : ReadResult} {buf : List UInt8}

/-- A read of an endpoint is one of its pipe; one of any other file changes its kind at most, and does not block. -/
theorem readFile_cases (h : fs.readFile host ofd count = .ok (fs', result)) :
    ∃ file, fs.files.get? ofd.file = some file ∧
      ((∃ p side, file.kind = .pipeEndpoint p side ∧ fs.readPipe p ofd.statusFlags.nonblock count = .ok (fs', result)) ∨
      (file.endpoint? = none ∧ result ≠ .blocked ∧ fs' = fs) ∨
      (∃ counter, file.kind = .event counter ∧ result ≠ .blocked ∧
        fs' = fs.modifyFile ofd.file fun file => { file with kind := .event 0 })) := by
  obtain ⟨file, hfile, h⟩ := bind_eq_ok.1 h
  rw [file_eq_ok] at hfile
  refine ⟨file, hfile, ?_⟩
  have hplain : ∀ {r : ReadResult}, file.endpoint? = none → r ≠ .blocked → (.ok (fs, r) : Except FsFailure (FS × ReadResult)) =
      .ok (fs', result) → file.endpoint? = none ∧ result ≠ .blocked ∧ fs' = fs := by
    intro r hend hr heq
    obtain ⟨rfl, rfl⟩ := ok_pair heq
    exact ⟨hend, hr, rfl⟩
  have hhost : ∀ r, hostRead r ≠ .blocked := by
    intro r
    cases r <;> simp [hostRead]
  split at h
  · next hk => exact .inr (.inl (hplain (by simp [File.endpoint?, hk]) (by simp) h))
  · next hk =>
    split at h
    · exact .inr (.inl (hplain (by simp [File.endpoint?, hk]) (by simp) h))
    · exact .inr (.inl (hplain (by simp [File.endpoint?, hk]) (by simp) h))
  · next p side hk => exact .inl ⟨p, side, hk, h⟩
  · next counter hk =>
    split at h
    · exact .inr (.inl (hplain (by simp [File.endpoint?, hk]) (by simp) h))
    · split at h
      · split at h
        · exact .inr (.inl (hplain (by simp [File.endpoint?, hk]) (by simp) h))
        · cases h
      · obtain ⟨rfl, rfl⟩ := ok_pair h
        exact .inr (.inr ⟨counter, hk, by simp, rfl⟩)
  · next hk => exact .inr (.inl (hplain (by simp [File.endpoint?, hk]) (by simp) h))
  · next hk =>
    split at h
    · exact .inr (.inl (hplain (by simp [File.endpoint?, hk]) (by simp) h))
    · exact .inr (.inl (hplain (by simp [File.endpoint?, hk]) (hhost _) h))
  · next hk => exact .inr (.inl (hplain (by simp [File.endpoint?, hk]) (hhost _) h))
  · next hk => exact .inr (.inl (hplain (by simp [File.endpoint?, hk]) (hhost _) h))
  · next hk => exact .inr (.inl (hplain (by simp [File.endpoint?, hk]) (hhost _) h))
  · cases h
  · cases h

/-- `FS::read` is a read of the file, and the offset advances by what it gives. -/
theorem read_cases (h : fs.read host d count = .ok (fs', result)) :
    ∃ ofd fs1, fs.descriptions.get? d = some ofd ∧ fs.readFile host ofd count = .ok (fs1, result) ∧
      ((∃ data, result = .bytes data ∧
        fs' = fs1.modifyDescription d fun ofd => { ofd with offset := ofd.offset + data.length }) ∨
      ((∀ data, result ≠ .bytes data) ∧ fs' = fs1)) := by
  obtain ⟨ofd, hofd, h⟩ := bind_eq_ok.1 h
  obtain ⟨⟨fs1, r⟩, hread, h⟩ := bind_eq_ok.1 h
  refine ⟨ofd, fs1, description_eq_ok.1 hofd, ?_⟩
  cases r with
  | bytes data =>
    obtain ⟨-, -, h⟩ := bind_eq_ok.1 h
    obtain ⟨rfl, rfl⟩ := ok_pair h
    exact ⟨hread, .inl ⟨data, rfl, rfl⟩⟩
  | error errno =>
    obtain ⟨rfl, rfl⟩ := ok_pair h
    exact ⟨hread, .inr ⟨by simp, rfl⟩⟩
  | blocked =>
    obtain ⟨rfl, rfl⟩ := ok_pair h
    exact ⟨hread, .inr ⟨by simp, rfl⟩⟩

variable {offset n : Int}

/-- `FS::pread` is a read of the file with an offset of its own. -/
theorem pread_cases (h : fs.pread host d count offset = .ok (fs', result)) :
    ∃ ofd, fs.descriptions.get? d = some ofd ∧ fs.readFile host { ofd with offset := offset } count = .ok (fs', result) ∧
      result ≠ .blocked := by
  obtain ⟨ofd, hofd, h⟩ := bind_eq_ok.1 h
  obtain ⟨⟨fs1, r⟩, hread, h⟩ := bind_eq_ok.1 h
  refine ⟨ofd, description_eq_ok.1 hofd, ?_⟩
  cases r with
  | blocked => cases h
  | bytes data =>
    obtain ⟨rfl, rfl⟩ := ok_pair h
    exact ⟨hread, by simp⟩
  | error errno =>
    obtain ⟨rfl, rfl⟩ := ok_pair h
    exact ⟨hread, by simp⟩

/-- Where `ShadowFile::write` writes: at the end, or at the offset it is given. -/
def writeOffset (ofd : OpenFileDescription) (data : List UInt8) : Int :=
  if ofd.statusFlags.append then (data.length : Int) else ofd.offset

/-- A write to a shadow file fails or goes to its offset. -/
theorem writeShadow_cases {data : List UInt8} {nbytes : Int}
    (h : fs.writeShadow ofd data buf = .ok (fs', offset, nbytes)) :
    offset = writeOffset ofd data ∧ ((offset < 0 ∧ nbytes = -EINVAL ∧ fs' = fs) ∨
      (0 ≤ offset ∧ offset.toNat + buf.length ≤ OFF_MAX ∧ nbytes = buf.length ∧
        fs' = fs.modifyFile ofd.file fun file => { file with kind := .shadowFile (overwrite data offset.toNat buf) })) := by
  change (if writeOffset ofd data < 0 then (.ok (fs, writeOffset ofd data, -EINVAL) : Except FsFailure (FS × Int × Int))
    else _) = _ at h
  split at h
  · next hneg =>
    obtain ⟨rfl, hpair⟩ := ok_pair h
    obtain ⟨rfl, rfl⟩ := Prod.ext_iff.1 hpair
    exact ⟨rfl, .inl ⟨hneg, rfl, rfl⟩⟩
  · next hpos =>
    obtain ⟨_, hlength, h⟩ := bind_eq_ok.1 h
    obtain ⟨rfl, hpair⟩ := ok_pair h
    obtain ⟨rfl, rfl⟩ := Prod.ext_iff.1 hpair
    exact ⟨rfl, .inr ⟨Int.not_lt.1 hpos, check_eq_ok.1 hlength, rfl, rfl⟩⟩

/-- A write goes to the pipe of an endpoint, or it changes the contents of a file of this file system or of none. -/
theorem writeFile_cases {nbytes : Int} (h : fs.writeFile host ofd buf = .ok (fs', offset, nbytes)) :
    ∃ file, fs.files.get? ofd.file = some file ∧
      ((∃ p side, file.kind = .pipeEndpoint p side ∧ fs.pipes.Live p ∧ nbytes = buf.length ∧
        fs' = fs.modifyPipe p fun pipe => { pipe with data := pipe.data ++ buf }) ∨
      (file.endpoint? = none ∧ (fs' = fs ∨ ∃ kind, file.Similar { file with kind := kind } ∧
        fs' = fs.modifyFile ofd.file fun file => { file with kind := kind }))) := by
  obtain ⟨file, hfile, h⟩ := bind_eq_ok.1 h
  rw [file_eq_ok] at hfile
  refine ⟨file, hfile, ?_⟩
  have hsame : ∀ {r : Int × Int}, (.ok (fs, r) : Except FsFailure (FS × Int × Int)) = .ok (fs', offset, nbytes) → fs' = fs := by
    intro r heq
    exact (ok_pair heq).1.symm
  split at h
  · next data hk =>
    refine .inr ⟨by simp [File.endpoint?, hk], ?_⟩
    obtain ⟨-, ⟨-, -, rfl⟩ | ⟨-, -, -, rfl⟩⟩ := writeShadow_cases h
    · exact .inl rfl
    · exact .inr ⟨_, similar_shadowFile hk, rfl⟩
  · next p side hk =>
    obtain ⟨pipe, hpipe, h⟩ := bind_eq_ok.1 h
    obtain ⟨rfl, hr⟩ := ok_pair h
    exact .inl ⟨p, side, hk, ⟨pipe, pipe_eq_ok.1 hpipe⟩, (Prod.ext_iff.1 hr).2.symm, rfl⟩
  · next counter hk =>
    refine .inr ⟨by simp [File.endpoint?, hk], ?_⟩
    split at h
    · exact .inl (hsame h)
    · split at h
      · exact .inl (hsame h)
      · obtain ⟨-, -, h⟩ := bind_eq_ok.1 h
        obtain ⟨rfl, -⟩ := ok_pair h
        exact .inr ⟨_, similar_event hk, rfl⟩
  · next hk => exact .inr ⟨by simp [File.endpoint?, hk], .inl (hsame h)⟩
  · next hk => exact .inr ⟨by simp [File.endpoint?, hk], .inl (hsame h)⟩
  · next hk => exact .inr ⟨by simp [File.endpoint?, hk], .inl (hsame h)⟩
  · next hk => exact .inr ⟨by simp [File.endpoint?, hk], .inl (hsame h)⟩
  · cases h
  · cases h
  · cases h
  · cases h

/-- `FS::write` is refused, or it is a write of the file, and the offset is the one after it. -/
theorem write_cases (h : fs.write host d buf = .ok (fs', n)) :
    ∃ ofd file, fs.descriptions.get? d = some ofd ∧ fs.files.get? ofd.file = some file ∧
      ((file.isWritable = .ok false ∧ n = -EBADF ∧ fs' = fs) ∨
      (file.isWritable = .ok true ∧ ∃ fs1 offset nbytes newoffset, fs.writeFile host ofd buf = .ok (fs1, offset, nbytes) ∧
        n = nbytes ∧ newoffset = (if nbytes < 0 then offset else offset + nbytes) ∧
        fs' = fs1.modifyDescription d fun ofd => { ofd with offset := newoffset })) := by
  obtain ⟨ofd, hofd, h⟩ := bind_eq_ok.1 h
  obtain ⟨file, hfile, h⟩ := bind_eq_ok.1 h
  obtain ⟨writable, hwritable, h⟩ := bind_eq_ok.1 h
  refine ⟨ofd, file, description_eq_ok.1 hofd, file_eq_ok.1 hfile, ?_⟩
  cases writable with
  | false =>
    obtain ⟨rfl, rfl⟩ := ok_pair h
    exact .inl ⟨hwritable, rfl, rfl⟩
  | true =>
    refine .inr ⟨hwritable, ?_⟩
    obtain ⟨⟨fs1, offset, nbytes⟩, hwrite, h⟩ := bind_eq_ok.1 h
    dsimp only at h
    split at h
    · next hneg =>
      obtain ⟨rfl, rfl⟩ := ok_pair h
      exact ⟨fs1, offset, nbytes, offset, hwrite, rfl, by rw [if_pos hneg], rfl⟩
    · next hpos =>
      obtain ⟨-, -, h⟩ := bind_eq_ok.1 h
      obtain ⟨rfl, rfl⟩ := ok_pair h
      exact ⟨fs1, offset, nbytes, offset + nbytes, hwrite, rfl, by rw [if_neg hpos], rfl⟩

/-- `FS::pwrite` is refused, or it is a write of the file with an offset of its own. -/
theorem pwrite_cases (h : fs.pwrite host d buf offset = .ok (fs', n)) :
    ∃ ofd file, fs.descriptions.get? d = some ofd ∧ fs.files.get? ofd.file = some file ∧
      ((file.isWritable = .ok false ∧ n = -EBADF ∧ fs' = fs) ∨
      (file.isWritable = .ok true ∧ ∃ after, fs.writeFile host { ofd with offset := offset } buf = .ok (fs', after, n))) := by
  obtain ⟨ofd, hofd, h⟩ := bind_eq_ok.1 h
  obtain ⟨file, hfile, h⟩ := bind_eq_ok.1 h
  obtain ⟨writable, hwritable, h⟩ := bind_eq_ok.1 h
  refine ⟨ofd, file, description_eq_ok.1 hofd, file_eq_ok.1 hfile, ?_⟩
  cases writable with
  | false =>
    obtain ⟨rfl, rfl⟩ := ok_pair h
    exact .inl ⟨hwritable, rfl, rfl⟩
  | true =>
    obtain ⟨⟨fs1, after, nbytes⟩, hwrite, h⟩ := bind_eq_ok.1 h
    obtain ⟨rfl, rfl⟩ := ok_pair h
    exact .inr ⟨hwritable, after, hwrite⟩

/-- `FS::lseek` sets the offset of the description, or nothing. -/
theorem lseek_cases {whence : Whence} (h : fs.lseek host d offset whence = .ok (fs', n)) :
    ∃ ofd, fs.descriptions.get? d = some ofd ∧ fs.seekFile host ofd offset whence = .ok n ∧
      ((n < 0 ∧ fs' = fs) ∨ (0 ≤ n ∧ fs' = fs.modifyDescription d fun ofd => { ofd with offset := n })) := by
  obtain ⟨ofd, hofd, h⟩ := bind_eq_ok.1 h
  obtain ⟨newoffset, hseek, h⟩ := bind_eq_ok.1 h
  refine ⟨ofd, description_eq_ok.1 hofd, ?_⟩
  split at h
  · next hneg =>
    obtain ⟨rfl, rfl⟩ := ok_pair h
    exact ⟨hseek, .inl ⟨hneg, rfl⟩⟩
  · next hpos =>
    obtain ⟨rfl, rfl⟩ := ok_pair h
    exact ⟨hseek, .inr ⟨Int.not_lt.1 hpos, rfl⟩⟩

/-- `FS::ftruncate` changes the data of a file. -/
theorem ftruncate_cases {length : Int} (h : fs.ftruncate d length = .ok (fs', n)) :
    ∃ ofd file data, fs.descriptions.get? d = some ofd ∧ fs.files.get? ofd.file = some file ∧
      file.kind = .shadowFile data ∧ (0 ≤ length ∧ length ≤ OFF_MAX) ∧ n = 0 ∧
      fs' = fs.modifyFile ofd.file fun file => { file with kind := .shadowFile (resize data length.toNat) } := by
  obtain ⟨ofd, hofd, h⟩ := bind_eq_ok.1 h
  obtain ⟨file, hfile, h⟩ := bind_eq_ok.1 h
  split at h
  · next data hkind =>
    obtain ⟨_, hlength, h⟩ := bind_eq_ok.1 h
    obtain ⟨rfl, rfl⟩ := ok_pair h
    exact ⟨ofd, file, data, description_eq_ok.1 hofd, file_eq_ok.1 hfile, hkind, check_eq_ok.1 hlength, rfl, rfl⟩
  · cases h

/-- The flag is set in a description that exists. -/
theorem setNonBlocking_eq_ok {nonBlocking : Bool} (h : fs.setNonBlocking d nonBlocking = .ok fs') :
    fs.descriptions.Live d ∧
      fs' = fs.modifyDescription d fun ofd => { ofd with statusFlags := { ofd.statusFlags with nonblock := nonBlocking } } := by
  obtain ⟨ofd, hofd, h⟩ := bind_eq_ok.1 h
  exact ⟨⟨ofd, description_eq_ok.1 hofd⟩, (Except.ok.inj h).symm⟩

/-- Reading is silent. -/
theorem readFile_silents (hμ : μ) (h : fs.readFile host ofd count = .ok (fs', result)) : Silents φ δ μ fs fs' := by
  obtain ⟨file, hfile, ⟨p, side, -, hread⟩ | ⟨-, -, rfl⟩ | ⟨counter, hkind, -, rfl⟩⟩ := readFile_cases h
  · obtain ⟨pipe, -, ⟨-, -, -, rfl⟩ | ⟨-, -, -, rfl⟩ | ⟨-, -, rfl⟩⟩ := readPipe_cases hread
    · exact .refl
    · exact .refl
    · exact .single (.pipe p _ hμ fun _ => ⟨rfl, rfl, rfl⟩)
  · exact .refl
  · exact kind_silents hfile (similar_event hkind)

/-- Writing is silent. -/
theorem writeFile_silents (hμ : μ) {nbytes : Int} (h : fs.writeFile host ofd buf = .ok (fs', offset, nbytes)) :
    Silents φ δ μ fs fs' := by
  obtain ⟨file, hfile, ⟨p, side, -, -, -, rfl⟩ | ⟨-, rfl | ⟨kind, hsimilar, rfl⟩⟩⟩ := writeFile_cases h
  · exact .single (.pipe p _ hμ fun _ => ⟨rfl, rfl, rfl⟩)
  · exact .refl
  · exact kind_silents hfile hsimilar

/-- `read` is silent. -/
theorem read_silents (hμ : μ) (h : fs.read host d count = .ok (fs', result)) : Silents φ δ μ fs fs' := by
  obtain ⟨ofd, fs1, -, hread, ⟨data, -, rfl⟩ | ⟨-, rfl⟩⟩ := read_cases h
  · exact (readFile_silents hμ hread).tail (.description d _ fun _ => rfl)
  · exact readFile_silents hμ hread

/-- `write` is silent. -/
theorem write_silents (hμ : μ) (h : fs.write host d buf = .ok (fs', n)) : Silents φ δ μ fs fs' := by
  obtain ⟨ofd, file, -, -, ⟨-, -, rfl⟩ | ⟨-, fs1, offset, nbytes, newoffset, hwrite, -, -, rfl⟩⟩ := write_cases h
  · exact .refl
  · exact (writeFile_silents hμ hwrite).tail (.description d _ fun _ => rfl)

/-- `pwrite` is silent. -/
theorem pwrite_silents (hμ : μ) (h : fs.pwrite host d buf offset = .ok (fs', n)) : Silents φ δ μ fs fs' := by
  obtain ⟨ofd, file, -, -, ⟨-, -, rfl⟩ | ⟨-, after, hwrite⟩⟩ := pwrite_cases h
  · exact .refl
  · exact writeFile_silents hμ hwrite

/-- `lseek` is silent. -/
theorem lseek_silents {whence : Whence} (h : fs.lseek host d offset whence = .ok (fs', n)) :
    Silents φ δ μ fs fs' := by
  obtain ⟨ofd, -, -, ⟨-, rfl⟩ | ⟨-, rfl⟩⟩ := lseek_cases h
  · exact .refl
  · exact .single (.description d _ fun _ => rfl)

/-- `ftruncate` is silent. -/
theorem ftruncate_silents {length : Int} (h : fs.ftruncate d length = .ok (fs', n)) : Silents φ δ μ fs fs' := by
  obtain ⟨ofd, file, data, -, hfile, hkind, -, -, rfl⟩ := ftruncate_cases h
  exact kind_silents hfile (similar_shadowFile hkind)

/-- A flag of a description is silent. -/
theorem setNonBlocking_silents {nonBlocking : Bool} (h : fs.setNonBlocking d nonBlocking = .ok fs') : Silents φ δ μ fs fs' := by
  obtain ⟨-, rfl⟩ := setNonBlocking_eq_ok h
  exact .single (.description d _ fun _ => rfl)

/-- Giving a descriptor changes. -/
theorem Gives.changes {result : ErrnoOr FileDescriptor} (h : Gives φ δ fs fs' result) : Changes φ δ fs fs' := by
  cases result with
  | ok descriptor => exact Opens.changes h
  | error errno =>
    obtain rfl : fs' = fs := h
    exact .refl

end FS

/-! ## The calls -/

namespace FileState

open FS

variable {φ : FS → FileId → Str → Prop} {δ : FS → FileId → Prop} {s s' : FileState} {fs fs' : FS} {host : HostFiles} {depth table : Nat}
  {fds : FileDescriptors} {fd : Int} {answer : FileAnswer}

/-- The additions a call may make are ones of which `φ` holds. -/
def Admitted (φ : FS → FileId → Str → Prop) (host : HostFiles) (depth : Nat) (fs : FS) : FileCall → Prop
  | .open path accessMode creationFlags statusFlags => ∀ kind, fs.tryGetFile depth path .YES = .ok none →
      newFile host path accessMode creationFlags { statusFlags with largefile := true } = .ok (some kind) →
      Admits φ fs host depth path
  | .rename oldpath newpath => ∀ fs1 f, fs.tryTakeFile oldpath = .ok (fs1, some f) → Admits φ fs1 host depth newpath
  | .readlink path _ => fs.tryGetFile depth path .NO = .ok none → Admits φ fs host depth path
  | .resetProcFS pid _ => AdmitsProc φ fs host depth pid
  | _ => True

/-- `FileDescriptors::close` finds no descriptor, or closes it and clears its slot. -/
theorem close_cases (h : s.close depth table fds fd = .ok (s', answer)) :
    (fds.findFileDescriptor fd = none ∧ s' = s) ∨
    (∃ descriptor fs1, fds.findFileDescriptor fd = some descriptor ∧ s.fs.close depth descriptor = .ok fs1 ∧
      s' = { s with fs := fs1 }.setTable table (fds.clear fd.toNat)) := by
  unfold close at h
  split at h
  · next hnone => exact .inl ⟨hnone, (ok_pair h).1.symm⟩
  · next descriptor hfind =>
    obtain ⟨fs1, hclose, h⟩ := bind_eq_ok.1 h
    exact .inr ⟨descriptor, fs1, hfind, hclose, (ok_pair h).1.symm⟩

/-- Closing removes a file at most. -/
theorem close_changes (hδ : ∀ fs f, δ fs f) (ht : s.fs.Tree) (h : s.close depth table fds fd = .ok (s', answer)) : Changes φ δ s.fs s'.fs := by
  rcases close_cases h with ⟨-, rfl⟩ | ⟨descriptor, fs1, -, hclose, rfl⟩
  · exact .refl
  · exact FS.close_changes hδ ht hclose

/-- A slot without a table is left, others are closed. -/
theorem closeSlot_cases {i : Nat} (h : closeSlot depth table s i = .ok s') :
    (s.tables[table]? = none ∧ s' = s) ∨
    (∃ fds answer, s.tables[table]? = some fds ∧ s.close depth table fds i = .ok (s', answer)) := by
  unfold closeSlot at h
  split at h
  · next hnone => exact .inl ⟨hnone, (Except.ok.inj h).symm⟩
  · next fds hfds =>
    obtain ⟨⟨s1, answer⟩, hclose, h⟩ := bind_eq_ok.1 h
    obtain rfl := Except.ok.inj h
    exact .inr ⟨fds, answer, hfds, hclose⟩

/-- A loop whose turns each succeed keeps what each turn keeps. -/
theorem foldlM_ok {α β : Type} {I : β → Prop} {f : β → α → Except FsFailure β} {l : List α} {b b' : β}
    (hf : ∀ b a b', I b → f b a = .ok b' → I b') (hI : I b) (h : l.foldlM f b = .ok b') : I b' := by
  induction l generalizing b with
  | nil => exact Except.ok.inj h ▸ hI
  | cons a l ih =>
    rw [List.foldlM_cons] at h
    obtain ⟨b1, h1, h⟩ := bind_eq_ok.1 h
    exact ih (hf b a b1 hI h1) h

/-- Closing a list of slots removes files at most. -/
theorem closeAll_changes (hδ : ∀ fs f, δ fs f) (ht : s.fs.Tree) {slots : List Nat} (h : slots.foldlM (closeSlot depth table) s = .ok s') :
    Changes φ δ s.fs s'.fs := by
  refine foldlM_ok (I := fun s1 => Changes φ δ s.fs s1.fs) (fun s1 i s2 hI h => ?_) .refl h
  rcases closeSlot_cases h with ⟨-, rfl⟩ | ⟨fds, answer, -, hclose⟩
  · exact hI
  · exact hI.trans (close_changes hδ (ht.changes hI) hclose)

/-- What `dup2` and `dup3` do: the target is closed, and then one more descriptor of the source's file is counted and put there. -/
theorem replace_cases {source : FileDescriptor} {newfd : Int} {closeOnExec : Bool}
    (h : s.replace depth table fds source newfd closeOnExec = .ok (s', answer)) :
    ∃ s1 answer1 ofd fs2, s.close depth table fds newfd = .ok (s1, answer1) ∧
      s1.fs.descriptions.get? source.openFileDescription = some ofd ∧ s1.fs.ref ofd.file = .ok fs2 ∧ 0 ≤ newfd ∧
      s' = { s1 with fs := fs2 }.setTable table (fds.put newfd.toNat ⟨source.openFileDescription, closeOnExec⟩) := by
  obtain ⟨⟨s1, answer1⟩, hclose, h⟩ := bind_eq_ok.1 h
  obtain ⟨ofd, hofd, h⟩ := bind_eq_ok.1 h
  obtain ⟨fs2, href, h⟩ := bind_eq_ok.1 h
  obtain ⟨_, hneg, h⟩ := bind_eq_ok.1 h
  obtain ⟨-, -, h⟩ := bind_eq_ok.1 h
  exact ⟨s1, answer1, ofd, fs2, hclose, description_eq_ok.1 hofd, href, check_eq_ok.1 hneg,
    (ok_pair h).1.symm⟩

/-- Replacing a descriptor removes a file at most. -/
theorem replace_changes (hδ : ∀ fs f, δ fs f) (ht : s.fs.Tree) {source : FileDescriptor} {newfd : Int} {closeOnExec : Bool}
    (h : s.replace depth table fds source newfd closeOnExec = .ok (s', answer)) : Changes φ δ s.fs s'.fs := by
  obtain ⟨s1, answer1, ofd, fs2, hclose, -, href, -, rfl⟩ := replace_cases h
  exact (close_changes hδ ht hclose).trans (ref_changes href)

/-- A call through a descriptor that is not there, or a duplicate onto the descriptor itself. -/
def Refused (fds : FileDescriptors) : FileCall → Prop
  | .dup fd | .read fd _ | .pread fd _ _ | .write fd _ | .pwrite fd _ _ | .lseek fd _ _ | .ftruncate fd _ | .setNonBlocking fd _ =>
    fds.findFileDescriptor fd = none
  | .dup2 oldfd newfd | .dup3 oldfd newfd _ => fds.findFileDescriptor oldfd = none ∨ oldfd = newfd
  | _ => False

/-- `dup2` and `dup3` give an error or the descriptor itself, or they replace the target. -/
theorem dup2_cases {oldfd newfd : Int} (h : s.dup2 depth table fds oldfd newfd = .ok (s', answer)) :
    (Refused fds (.dup2 oldfd newfd) ∧ s' = s) ∨
    (∃ source, fds.findFileDescriptor oldfd = some source ∧ oldfd ≠ newfd ∧
      s.replace depth table fds source newfd false = .ok (s', answer)) := by
  unfold dup2 at h
  split at h
  · next hnone => exact .inl ⟨.inl hnone, (ok_pair h).1.symm⟩
  · next source hfind =>
    split at h
    · next heq => exact .inl ⟨.inr heq, (ok_pair h).1.symm⟩
    · next hne => exact .inr ⟨source, hfind, hne, h⟩

/-- `dup3` is refused or replaces. -/
theorem dup3_cases {oldfd newfd : Int} {closeOnExec : Bool}
    (h : s.dup3 depth table fds oldfd newfd closeOnExec = .ok (s', answer)) :
    (Refused fds (.dup3 oldfd newfd closeOnExec) ∧ s' = s) ∨
    (∃ source, fds.findFileDescriptor oldfd = some source ∧ oldfd ≠ newfd ∧
      s.replace depth table fds source newfd closeOnExec = .ok (s', answer)) := by
  unfold dup3 at h
  split at h
  · next heq => exact .inl ⟨.inr heq, (ok_pair h).1.symm⟩
  · next hne =>
    split at h
    · next hnone => exact .inl ⟨.inl hnone, (ok_pair h).1.symm⟩
    · next source hfind => exact .inr ⟨source, hfind, hne, h⟩

/-- A slot that is taken counts its file up. -/
theorem refSlot_cases {slot : Option FileDescriptor} (h : refSlot fs slot = .ok fs') :
    (slot = none ∧ fs' = fs) ∨ ∃ descriptor ofd, slot = some descriptor ∧
      fs.descriptions.get? descriptor.openFileDescription = some ofd ∧ fs.ref ofd.file = .ok fs' := by
  cases slot with
  | none => exact .inl ⟨rfl, (Except.ok.inj h).symm⟩
  | some descriptor =>
    obtain ⟨ofd, hofd, href⟩ := bind_eq_ok.1 h
    exact .inr ⟨descriptor, ofd, rfl, description_eq_ok.1 hofd, href⟩

/-- Counting up a table changes no tree. -/
theorem refSlots_changes {slots : List (Option FileDescriptor)} (h : slots.foldlM refSlot fs = .ok fs') : Changes φ δ fs fs' := by
  refine foldlM_ok (I := fun fs1 => Changes φ δ fs fs1) (fun fs1 slot fs2 hI h => ?_) .refl h
  rcases refSlot_cases h with ⟨-, rfl⟩ | ⟨descriptor, ofd, -, -, href⟩
  · exact hI
  · exact hI.trans (ref_changes href)

/-- Placing a descriptor leaves the files. -/
theorem placeOr_fs {result : ErrnoOr FileDescriptor} : (s.placeOr table fds fs result).1.fs = fs := by
  cases result <;> rfl

theorem tryUnblock_cases {index : Nat} {blocker : BlockedRead} (h : s.tryUnblock host index blocker = .ok (s', answer)) :
    ((s.tables[blocker.table]?.getD []).findFileDescriptor blocker.fd = none ∧ s'.fs = s.fs ∧ s'.tables = s.tables ∧
      s'.readBlockers = s.readBlockers.eraseIdx index ∧ answer = .read (.error (-EBADF))) ∨
    (∃ descriptor fs1 result, (s.tables[blocker.table]?.getD []).findFileDescriptor blocker.fd = some descriptor ∧
      s.fs.read host descriptor.openFileDescription blocker.count = .ok (fs1, result) ∧ s'.fs = fs1 ∧ s'.tables = s.tables ∧
      answer = .read result ∧ s'.readBlockers = if result = .blocked then s.readBlockers else s.readBlockers.eraseIdx index) := by
  unfold tryUnblock at h
  split at h
  · next hnone =>
    obtain ⟨rfl, rfl⟩ := ok_pair h
    exact .inl ⟨hnone, rfl, rfl, rfl, rfl⟩
  · next descriptor hfind =>
    obtain ⟨⟨fs1, result⟩, hread, h⟩ := bind_eq_ok.1 h
    refine .inr ⟨descriptor, fs1, result, hfind, hread, ?_⟩
    cases result with
    | blocked =>
      obtain ⟨rfl, rfl⟩ := ok_pair h
      exact ⟨rfl, rfl, rfl, by rw [if_pos rfl]⟩
    | bytes data =>
      obtain ⟨rfl, rfl⟩ := ok_pair h
      exact ⟨rfl, rfl, rfl, by rw [if_neg (by simp)]⟩
    | error errno =>
      obtain ⟨rfl, rfl⟩ := ok_pair h
      exact ⟨rfl, rfl, rfl, by rw [if_neg (by simp)]⟩

/-- A call on a descriptor that is not open answers; others go through. -/
theorem through_cases {absent : FileAnswer} {f : DescriptionId → Except FsFailure (FileState × FileAnswer)}
    (h : s.through fds fd absent f = .ok (s', answer)) :
    (fds.findFileDescriptor fd = none ∧ s' = s ∧ answer = absent) ∨
      ∃ descriptor, fds.findFileDescriptor fd = some descriptor ∧ f descriptor.openFileDescription = .ok (s', answer) := by
  unfold through at h
  split at h
  · next hnone =>
    obtain ⟨rfl, rfl⟩ := ok_pair h
    exact .inl ⟨hnone, rfl, rfl⟩
  · next descriptor hfind => exact .inr ⟨descriptor, hfind, h⟩

/-- What each call does where it succeeds: what it asks of the file system, the state it leaves and what it answers. -/
inductive Performed (s : FileState) (host : HostFiles) (depth table : Nat) (fds : FileDescriptors) :
    FileCall → FileState → FileAnswer → Prop where
  | refused {call : FileCall} {answer : FileAnswer} (hrefused : Refused fds call) : s.Performed host depth table fds call s answer
  | «open» {path : Path} {accessMode : AccessMode} {creationFlags : CreationFlags} {statusFlags : StatusFlags} {fs : FS}
      {result : ErrnoOr FileDescriptor}
      (hopen : s.fs.openPath host depth path accessMode creationFlags statusFlags = .ok (fs, result)) :
      s.Performed host depth table fds (.open path accessMode creationFlags statusFlags) (s.placeOr table fds fs result).1
        (s.placeOr table fds fs result).2
  | close {fd : Int} {s' : FileState} {answer : FileAnswer} (hclose : s.close depth table fds fd = .ok (s', answer)) :
      s.Performed host depth table fds (.close fd) s' answer
  | closeAll {s' : FileState} (hclose : (List.range fds.length).foldlM (closeSlot depth table) s = .ok s') :
      s.Performed host depth table fds .closeAll s' (.value 0)
  | dup {fd : Int} {descriptor : FileDescriptor} {ofd : OpenFileDescription} {fs : FS}
      (hfind : fds.findFileDescriptor fd = some descriptor)
      (hofd : s.fs.descriptions.get? descriptor.openFileDescription = some ofd) (href : s.fs.ref ofd.file = .ok fs) :
      s.Performed host depth table fds (.dup fd) (s.place table fds fs ⟨descriptor.openFileDescription, false⟩).1
        (s.place table fds fs ⟨descriptor.openFileDescription, false⟩).2
  | dup2 {oldfd newfd : Int} {source : FileDescriptor} {s' : FileState} {answer : FileAnswer} (hne : oldfd ≠ newfd)
      (hfind : fds.findFileDescriptor oldfd = some source)
      (hreplace : s.replace depth table fds source newfd false = .ok (s', answer)) :
      s.Performed host depth table fds (.dup2 oldfd newfd) s' answer
  | dup3 {oldfd newfd : Int} {closeOnExec : Bool} {source : FileDescriptor} {s' : FileState} {answer : FileAnswer}
      (hne : oldfd ≠ newfd) (hfind : fds.findFileDescriptor oldfd = some source)
      (hreplace : s.replace depth table fds source newfd closeOnExec = .ok (s', answer)) :
      s.Performed host depth table fds (.dup3 oldfd newfd closeOnExec) s' answer
  | clone {fs : FS} (href : fds.foldlM refSlot s.fs = .ok fs) :
      s.Performed host depth table fds .clone { s with fs := fs, tables := s.tables ++ [fds] } (.value 0)
  | memfd_create {name : Str} {otherFlags closeOnExec : Bool} {fs : FS} {descriptor : FileDescriptor}
      (hcreate : s.fs.memfd_create name otherFlags closeOnExec = .ok (fs, descriptor)) :
      s.Performed host depth table fds (.memfd_create name otherFlags closeOnExec) (s.place table fds fs descriptor).1
        (s.place table fds fs descriptor).2
  | eventfd2 {initval : Nat} {semaphore nonBlock closeOnExec : Bool} {fs : FS} {descriptor : FileDescriptor}
      (hcreate : s.fs.eventfd2 initval semaphore nonBlock closeOnExec = .ok (fs, descriptor)) :
      s.Performed host depth table fds (.eventfd2 initval semaphore nonBlock closeOnExec) (s.place table fds fs descriptor).1
        (s.place table fds fs descriptor).2
  | epoll_create1 {closeOnExec : Bool} {fs : FS} {descriptor : FileDescriptor}
      (hcreate : s.fs.epoll_create1 closeOnExec = .ok (fs, descriptor)) :
      s.Performed host depth table fds (.epoll_create1 closeOnExec) (s.place table fds fs descriptor).1
        (s.place table fds fs descriptor).2
  | socket {domain : Int} {raw nonBlock closeOnExec : Bool} {fs : FS} {result : ErrnoOr FileDescriptor}
      (hsocket : s.fs.socket host domain raw nonBlock closeOnExec = .ok (fs, result)) :
      s.Performed host depth table fds (.socket domain raw nonBlock closeOnExec) (s.placeOr table fds fs result).1
        (s.placeOr table fds fs result).2
  | pipe2 {statusFlags : StatusFlags} {closeOnExec : Bool} {fs : FS} {reader writer : FileDescriptor}
      (hpipe : s.fs.pipe2 statusFlags closeOnExec = .ok (fs, reader, writer)) :
      s.Performed host depth table fds (.pipe2 statusFlags closeOnExec)
        ({ s with fs := fs }.setTable table ((fds.insert reader).insert writer))
        (.pair fds.allocateFd (fds.insert reader).allocateFd)
  | mkdir {path : Path} {fs : FS} {n : Int} (hmkdir : s.fs.mkdir host depth path = .ok (fs, n)) :
      s.Performed host depth table fds (.mkdir path) { s with fs := fs } (.value n)
  | rename {oldpath newpath : Path} {fs : FS} {n : Int} (hrename : s.fs.rename host depth oldpath newpath = .ok (fs, n)) :
      s.Performed host depth table fds (.rename oldpath newpath) { s with fs := fs } (.value n)
  | unlink {path : Path} {fs : FS} {n : Int} (hunlink : s.fs.unlink depth path = .ok (fs, n)) :
      s.Performed host depth table fds (.unlink path) { s with fs := fs } (.value n)
  | readlink {path : Path} {bufferSize : Nat} {fs : FS} {result : ErrnoOr Str}
      (hreadlink : s.fs.readlink host depth path bufferSize = .ok (fs, result)) :
      s.Performed host depth table fds (.readlink path bufferSize) { s with fs := fs } (.link result)
  | resetProcFS {pid : Nat} {programFilePath : Path} {fs : FS}
      (hreset : s.fs.resetProcFS host depth pid programFilePath = .ok fs) :
      s.Performed host depth table fds (.resetProcFS pid programFilePath) { s with fs := fs } (.value 0)
  | read {fd : Int} {count : Nat} {descriptor : FileDescriptor} {fs : FS} {result : ReadResult}
      (hfind : fds.findFileDescriptor fd = some descriptor)
      (hread : s.fs.read host descriptor.openFileDescription count = .ok (fs, result)) :
      s.Performed host depth table fds (.read fd count)
        { s with fs := fs, readBlockers := if result = .blocked then s.readBlockers ++ [⟨table, fd, count⟩] else s.readBlockers }
        (.read result)
  | pread {fd : Int} {count : Nat} {offset : Int} {descriptor : FileDescriptor} {fs : FS} {result : ReadResult}
      (hfind : fds.findFileDescriptor fd = some descriptor)
      (hread : s.fs.pread host descriptor.openFileDescription count offset = .ok (fs, result)) :
      s.Performed host depth table fds (.pread fd count offset) { s with fs := fs } (.read result)
  | write {fd : Int} {buf : List UInt8} {descriptor : FileDescriptor} {fs : FS} {n : Int}
      (hfind : fds.findFileDescriptor fd = some descriptor)
      (hwrite : s.fs.write host descriptor.openFileDescription buf = .ok (fs, n)) :
      s.Performed host depth table fds (.write fd buf) { s with fs := fs } (.value n)
  | pwrite {fd : Int} {buf : List UInt8} {offset : Int} {descriptor : FileDescriptor} {fs : FS} {n : Int}
      (hfind : fds.findFileDescriptor fd = some descriptor)
      (hwrite : s.fs.pwrite host descriptor.openFileDescription buf offset = .ok (fs, n)) :
      s.Performed host depth table fds (.pwrite fd buf offset) { s with fs := fs } (.value n)
  | lseek {fd : Int} {offset : Int} {whence : Whence} {descriptor : FileDescriptor} {fs : FS} {n : Int}
      (hfind : fds.findFileDescriptor fd = some descriptor)
      (hseek : s.fs.lseek host descriptor.openFileDescription offset whence = .ok (fs, n)) :
      s.Performed host depth table fds (.lseek fd offset whence) { s with fs := fs } (.value n)
  | ftruncate {fd : Int} {length : Int} {descriptor : FileDescriptor} {fs : FS} {n : Int}
      (hfind : fds.findFileDescriptor fd = some descriptor)
      (htruncate : s.fs.ftruncate descriptor.openFileDescription length = .ok (fs, n)) :
      s.Performed host depth table fds (.ftruncate fd length) { s with fs := fs } (.value n)
  | setNonBlocking {fd : Int} {nonBlocking : Bool} {descriptor : FileDescriptor} {fs : FS}
      (hfind : fds.findFileDescriptor fd = some descriptor)
      (hset : s.fs.setNonBlocking descriptor.openFileDescription nonBlocking = .ok fs) :
      s.Performed host depth table fds (.setNonBlocking fd nonBlocking) { s with fs := fs } (.value 0)

/-- Every call does what it is performed as. -/
theorem performed {call : FileCall} (h : s.perform host depth table fds call = .ok (s', answer)) :
    s.Performed host depth table fds call s' answer := by
  cases call with
  | «open» path accessMode creationFlags statusFlags =>
    obtain ⟨⟨fs1, result⟩, hopen, h⟩ := bind_eq_ok.1 h
    obtain ⟨rfl, rfl⟩ := ok_pair h
    exact .open hopen
  | close fd => exact .close h
  | closeAll =>
    obtain ⟨s1, hclose, h⟩ := bind_eq_ok.1 h
    obtain ⟨rfl, rfl⟩ := ok_pair h
    exact .closeAll hclose
  | dup fd =>
    rw [perform] at h
    unfold dup at h
    split at h
    · next hnone =>
      obtain ⟨rfl, rfl⟩ := ok_pair h
      exact .refused hnone
    · next descriptor hfind =>
      obtain ⟨ofd, hofd, h⟩ := bind_eq_ok.1 h
      obtain ⟨fs1, href, h⟩ := bind_eq_ok.1 h
      obtain ⟨rfl, rfl⟩ := ok_pair h
      exact .dup hfind (description_eq_ok.1 hofd) href
  | dup2 oldfd newfd =>
    rcases dup2_cases h with ⟨hrefused, rfl⟩ | ⟨source, hfind, hne, hreplace⟩
    · exact .refused hrefused
    · exact .dup2 hne hfind hreplace
  | dup3 oldfd newfd closeOnExec =>
    rcases dup3_cases h with ⟨hrefused, rfl⟩ | ⟨source, hfind, hne, hreplace⟩
    · exact .refused hrefused
    · exact .dup3 hne hfind hreplace
  | clone =>
    obtain ⟨fs1, href, h⟩ := bind_eq_ok.1 h
    obtain ⟨rfl, rfl⟩ := ok_pair h
    exact .clone href
  | memfd_create name otherFlags closeOnExec =>
    obtain ⟨⟨fs1, descriptor⟩, hcreate, h⟩ := bind_eq_ok.1 h
    obtain ⟨rfl, rfl⟩ := ok_pair h
    exact .memfd_create hcreate
  | eventfd2 initval semaphore nonBlock closeOnExec =>
    obtain ⟨⟨fs1, descriptor⟩, hcreate, h⟩ := bind_eq_ok.1 h
    obtain ⟨rfl, rfl⟩ := ok_pair h
    exact .eventfd2 hcreate
  | epoll_create1 closeOnExec =>
    obtain ⟨⟨fs1, descriptor⟩, hcreate, h⟩ := bind_eq_ok.1 h
    obtain ⟨rfl, rfl⟩ := ok_pair h
    exact .epoll_create1 hcreate
  | socket domain raw nonBlock closeOnExec =>
    obtain ⟨⟨fs1, result⟩, hsocket, h⟩ := bind_eq_ok.1 h
    obtain ⟨rfl, rfl⟩ := ok_pair h
    exact .socket hsocket
  | pipe2 statusFlags closeOnExec =>
    obtain ⟨⟨fs1, reader, writer⟩, hpipe, h⟩ := bind_eq_ok.1 h
    obtain ⟨rfl, rfl⟩ := ok_pair h
    exact .pipe2 hpipe
  | mkdir path =>
    obtain ⟨⟨fs1, n⟩, hmkdir, h⟩ := bind_eq_ok.1 h
    obtain ⟨rfl, rfl⟩ := ok_pair h
    exact .mkdir hmkdir
  | rename oldpath newpath =>
    obtain ⟨⟨fs1, n⟩, hrename, h⟩ := bind_eq_ok.1 h
    obtain ⟨rfl, rfl⟩ := ok_pair h
    exact .rename hrename
  | unlink path =>
    obtain ⟨⟨fs1, n⟩, hunlink, h⟩ := bind_eq_ok.1 h
    obtain ⟨rfl, rfl⟩ := ok_pair h
    exact .unlink hunlink
  | readlink path bufferSize =>
    obtain ⟨⟨fs1, result⟩, hreadlink, h⟩ := bind_eq_ok.1 h
    obtain ⟨rfl, rfl⟩ := ok_pair h
    exact .readlink hreadlink
  | resetProcFS pid programFilePath =>
    obtain ⟨fs1, hreset, h⟩ := bind_eq_ok.1 h
    obtain ⟨rfl, rfl⟩ := ok_pair h
    exact .resetProcFS hreset
  | read fd count =>
    rw [perform] at h
    unfold FileState.read at h
    split at h
    · next hnone =>
      obtain ⟨rfl, rfl⟩ := ok_pair h
      exact .refused hnone
    · next descriptor hfind =>
      obtain ⟨⟨fs1, result⟩, hread, h⟩ := bind_eq_ok.1 h
      -- only a read that blocks leaves a blocker
      have hperformed : s.Performed host depth table fds (.read fd count) _ _ := .read hfind hread
      cases result with
      | blocked =>
        obtain ⟨rfl, rfl⟩ := ok_pair h
        rwa [if_pos rfl] at hperformed
      | bytes data =>
        obtain ⟨rfl, rfl⟩ := ok_pair h
        rwa [if_neg (by simp)] at hperformed
      | error errno =>
        obtain ⟨rfl, rfl⟩ := ok_pair h
        rwa [if_neg (by simp)] at hperformed
  | pread fd count offset =>
    rw [perform] at h
    rcases through_cases h with ⟨hnone, rfl, -⟩ | ⟨descriptor, hfind, h⟩
    · exact .refused hnone
    · obtain ⟨⟨fs1, result⟩, hread, h⟩ := bind_eq_ok.1 h
      obtain ⟨rfl, rfl⟩ := ok_pair h
      exact .pread hfind hread
  | write fd buf =>
    rw [perform] at h
    rcases through_cases h with ⟨hnone, rfl, -⟩ | ⟨descriptor, hfind, h⟩
    · exact .refused hnone
    · obtain ⟨⟨fs1, n⟩, hwrite, h⟩ := bind_eq_ok.1 h
      obtain ⟨rfl, rfl⟩ := ok_pair h
      exact .write hfind hwrite
  | pwrite fd buf offset =>
    rw [perform] at h
    rcases through_cases h with ⟨hnone, rfl, -⟩ | ⟨descriptor, hfind, h⟩
    · exact .refused hnone
    · obtain ⟨⟨fs1, n⟩, hwrite, h⟩ := bind_eq_ok.1 h
      obtain ⟨rfl, rfl⟩ := ok_pair h
      exact .pwrite hfind hwrite
  | lseek fd offset whence =>
    rw [perform] at h
    rcases through_cases h with ⟨hnone, rfl, -⟩ | ⟨descriptor, hfind, h⟩
    · exact .refused hnone
    · obtain ⟨⟨fs1, n⟩, hseek, h⟩ := bind_eq_ok.1 h
      obtain ⟨rfl, rfl⟩ := ok_pair h
      exact .lseek hfind hseek
  | ftruncate fd length =>
    rw [perform] at h
    rcases through_cases h with ⟨hnone, rfl, -⟩ | ⟨descriptor, hfind, h⟩
    · exact .refused hnone
    · obtain ⟨⟨fs1, n⟩, htruncate, h⟩ := bind_eq_ok.1 h
      obtain ⟨rfl, rfl⟩ := ok_pair h
      exact .ftruncate hfind htruncate
  | setNonBlocking fd nonBlocking =>
    rw [perform] at h
    rcases through_cases h with ⟨hnone, rfl, -⟩ | ⟨descriptor, hfind, h⟩
    · exact .refused hnone
    · obtain ⟨fs1, hset, h⟩ := bind_eq_ok.1 h
      obtain ⟨rfl, rfl⟩ := ok_pair h
      exact .setNonBlocking hfind hset

/-- A new socket is an orphan. -/
theorem socket_changes {domain : Int} {raw nonBlock closeOnExec : Bool} {result : ErrnoOr FileDescriptor}
    (h : fs.socket host domain raw nonBlock closeOnExec = .ok (fs', result)) : Changes φ δ fs fs' := by
  unfold FS.socket at h
  split at h
  · obtain ⟨⟨fs1, descriptor⟩, hinsert, h⟩ := bind_eq_ok.1 h
    obtain ⟨rfl, -⟩ := ok_pair h
    exact insertNode_changes rfl hinsert
  · obtain ⟨rfl, -⟩ := ok_pair h
    exact .refl

/-- Every call changes the tree in elementary steps. -/
theorem perform_changes (hφ : Allows φ) (hδ : ∀ fs f, δ fs f) (ht : s.fs.Tree) {call : FileCall} (hadmitted : Admitted φ host depth s.fs call)
    (h : s.perform host depth table fds call = .ok (s', answer)) : Changes φ δ s.fs s'.fs := by
  cases performed h with
  | refused => exact .refl
  | «open» hopen =>
    rw [placeOr_fs]
    exact (openPath_gives hφ ht hadmitted hopen).changes
  | close hclose => exact close_changes hδ ht hclose
  | closeAll hclose => exact closeAll_changes hδ ht hclose
  | dup _ _ href => exact ref_changes href
  | dup2 _ _ hreplace => exact replace_changes hδ ht hreplace
  | dup3 _ _ hreplace => exact replace_changes hδ ht hreplace
  | clone href => exact refSlots_changes href
  | memfd_create hcreate =>
    obtain ⟨-, -, hinsert⟩ := bind_eq_ok.1 hcreate
    exact insertNode_changes rfl hinsert
  | eventfd2 hcreate =>
    obtain ⟨-, -, hinsert⟩ := bind_eq_ok.1 hcreate
    exact insertNode_changes rfl hinsert
  | epoll_create1 hcreate => exact insertNode_changes rfl hcreate
  | socket hsocket =>
    rw [placeOr_fs]
    exact socket_changes hsocket
  | pipe2 hpipe => exact pipe2_changes hpipe
  | mkdir hmkdir => exact (mkdir_edits hφ ht hmkdir).changes
  | rename hrename => exact (rename_edits hφ ht hadmitted hrename).changes
  | unlink hunlink => exact (unlink_edits ht (fun _ _ _ _ _ _ _ _ => hδ _ _) hunlink).changes
  | readlink hreadlink => exact (readlink_edits hφ ht hadmitted hreadlink).changes
  | resetProcFS hreset => exact (resetProcFS_edits hφ ht hadmitted hreset).changes
  | read _ hread => exact (read_silents (μ := True) trivial hread).changes
  | pread _ hread =>
    obtain ⟨ofd, -, hread, -⟩ := pread_cases hread
    exact (readFile_silents (μ := True) trivial hread).changes
  | write _ hwrite => exact (write_silents (μ := True) trivial hwrite).changes
  | pwrite _ hwrite => exact (pwrite_silents (μ := True) trivial hwrite).changes
  | lseek _ hseek => exact (lseek_silents (μ := True) hseek).changes
  | ftruncate _ htruncate => exact (ftruncate_silents (μ := True) htruncate).changes
  | setNonBlocking _ hset => exact (setNonBlocking_silents (μ := True) hset).changes

/-- A step is a call of a process, or a blocked read that is tried again, or a blocker that goes. -/
theorem act_cases {a : FileAction} (h : s.act depth host a = .ok (s', answer)) :
    (∃ table fds call, a = .call table call ∧ s.tables[table]? = some fds ∧
      s.perform host depth table fds call = .ok (s', answer)) ∨
    (∃ index blocker, a = .tryUnblock index ∧ s.readBlockers[index]? = some blocker ∧
      s.tryUnblock host index blocker = .ok (s', answer)) ∨
    (∃ index, a = .forget index ∧ s' = { s with readBlockers := s.readBlockers.eraseIdx index }) := by
  cases a with
  | call table call =>
    simp only [act] at h
    split at h
    · cases h
    · next fds hfds => exact .inl ⟨table, fds, call, rfl, hfds, h⟩
  | tryUnblock index =>
    simp only [act] at h
    split at h
    · cases h
    · next blocker hblocker => exact .inr (.inl ⟨index, blocker, rfl, hblocker, h⟩)
  | forget index => exact .inr (.inr ⟨index, rfl, (ok_pair h).1.symm⟩)

/-- Every action changes the tree as admitted. -/
theorem act_changes (hφ : Allows φ) (hδ : ∀ fs f, δ fs f) (ht : s.fs.Tree) {a : FileAction}
    (hadmitted : ∀ table call, a = .call table call → Admitted φ host depth s.fs call)
    (h : s.act depth host a = .ok (s', answer)) : Changes φ δ s.fs s'.fs := by
  rcases act_cases h with ⟨table, fds, call, rfl, -, h⟩ | ⟨index, blocker, -, -, h⟩ | ⟨index, -, rfl⟩
  · exact perform_changes hφ hδ ht (hadmitted table call rfl) h
  · rcases tryUnblock_cases h with ⟨-, hfs, -⟩ | ⟨descriptor, fs1, result, -, hread, rfl, -⟩
    · exact hfs ▸ .refl
    · exact (read_silents (μ := True) trivial hread).changes
  · exact .refl

end FileState

end X64Emulator
