import X64Emulator.Lemmas.FileCalls

/-!
# Counting the descriptors

`Counted` says that the count of each file is the number of open descriptors that refer to it, and `Piped` that the endpoints of
a pipe are the orphans that exist for it. The calls count by hand: each lemma says of which descriptors the counts are right
after one of their steps.
-/

namespace X64Emulator

open Outcome

/-- The endpoints of one side of a pipe. -/
def Pipe.endpoints (pipe : Pipe) : PipeSide → List FileId
  | .READ => pipe.readEndpoints
  | .WRITE => pipe.writeEndpoints

namespace FS

variable {fs fs' fs'' : FS} {host : HostFiles} {depth : Nat} {f : FileId} {d : DescriptionId} {p : PipeId} {side : PipeSide}
  {file : File} {ds : List DescriptionId} {φ : FS → FileId → Str → Prop} {δ : FS → FileId → Prop}
  {μ : Prop}

/-- The file that an open file description refers to. -/
def fileOf (fs : FS) (d : DescriptionId) : Option FileId := (fs.descriptions.get? d).map OpenFileDescription.file

/-- How many of the descriptors refer to a file. -/
def references (fs : FS) (ds : List DescriptionId) (f : FileId) : Nat := ds.countP fun d => fs.fileOf d = some f

/-- The counts are those of the descriptors `ds`. -/
structure Counted (fs : FS) (ds : List DescriptionId) : Prop where
  count : ∀ f file, fs.files.get? f = some file → file.refCount = fs.references ds f
  described : ∀ d ∈ ds, ∃ f, fs.fileOf d = some f
  known : ∀ d f, fs.fileOf d = some f → f < fs.files.next

/-- The file is an endpoint of the pipe. -/
def IsEndpoint (fs : FS) (f : FileId) (p : PipeId) (side : PipeSide) : Prop :=
  ∃ file, fs.files.get? f = some file ∧ file.endpoint? = some (p, side)

/-- The endpoints of the pipes are the files that say so, orphans all of them, and a pipe without endpoints is gone. -/
structure Piped (fs : FS) : Prop where
  opened : ∀ p pipe, fs.pipes.get? p = some pipe → pipe.isClosed = false
  ends : ∀ p pipe side f, fs.pipes.get? p = some pipe → (f ∈ pipe.endpoints side ↔ fs.IsEndpoint f p side)
  live : ∀ f p side, fs.IsEndpoint f p side → fs.pipes.Live p
  orphan : ∀ f p side, fs.IsEndpoint f p side → f ∈ fs.orphanFiles

/-- Every endpoint is an orphan. -/
def EndsOrphan (fs : FS) : Prop := ∀ f p side, fs.IsEndpoint f p side → f ∈ fs.orphanFiles

/-- Every endpoint has a descriptor. -/
def Held (fs : FS) (ds : List DescriptionId) : Prop := ∀ f p side, fs.IsEndpoint f p side → ∃ d ∈ ds, fs.fileOf d = some f

/-- The order of the descriptors does not matter. -/
theorem references_perm {ds' : List DescriptionId} (h : ds.Perm ds') : fs.references ds f = fs.references ds' f :=
  h.countP_eq _

/-- The order of the descriptors does not matter. -/
theorem Counted.perm {ds' : List DescriptionId} (hc : fs.Counted ds) (h : ds.Perm ds') : fs.Counted ds' :=
  ⟨fun f file hfile => (hc.count f file hfile).trans (references_perm h), fun d hd => hc.described d (h.mem_iff.2 hd), hc.known⟩

/-- One more descriptor is one more reference. -/
theorem references_cons : fs.references (d :: ds) f = fs.references ds f + if fs.fileOf d = some f then 1 else 0 := by
  rw [references, List.countP_cons, references]
  by_cases h : fs.fileOf d = some f <;> simp [h]

/-- References are counted by the files the descriptors refer to. -/
theorem references_congr (h : ∀ d ∈ ds, fs'.fileOf d = fs.fileOf d) : fs'.references ds f = fs.references ds f := by
  refine List.countP_congr fun d hd => ?_
  rw [h d hd]

/-- No description refers to a file that does not exist yet. -/
theorem Counted.references_new (hc : fs.Counted ds) (hf : fs.files.next ≤ f) : fs.references ds f = 0 := by
  rw [references, List.countP_eq_zero]
  intro d _ hd
  exact absurd (hc.known d f (by simpa using hd)) (Nat.not_lt.2 hf)

/-- An endpoint exists. -/
theorem IsEndpoint.live (h : fs.IsEndpoint f p side) : fs.files.Live f := by
  obtain ⟨file, hfile, -⟩ := h
  exact ⟨file, hfile⟩

/-- An endpoint has one pipe and one side. -/
theorem IsEndpoint.unique {p' : PipeId} {side' : PipeSide} (h : fs.IsEndpoint f p side) (h' : fs.IsEndpoint f p' side') :
    p = p' ∧ side = side' := by
  obtain ⟨file, hfile, hend⟩ := h
  obtain ⟨file', hfile', hend'⟩ := h'
  obtain rfl := Option.some.inj (hfile.symm.trans hfile')
  exact Prod.ext_iff.1 (Option.some.inj (hend.symm.trans hend'))

/-! ## Steps that count nothing -/

/-- Files come with a count of 0 and go, unless they are endpoints; nothing else changes that the counts and the pipes are
about. -/
structure Quiet (fs fs' : FS) : Prop where
  file : ∀ f file', fs'.files.get? f = some file' →
    (∃ file, fs.files.get? f = some file ∧ file'.refCount = file.refCount ∧ file'.endpoint? = file.endpoint?) ∨
    (fs.files.next ≤ f ∧ file'.refCount = 0 ∧ file'.endpoint? = none)
  next : fs.files.next ≤ fs'.files.next
  endpoint : ∀ f p side, fs.IsEndpoint f p side → fs'.files.Live f
  fileOf : ∀ d, fs'.fileOf d = fs.fileOf d
  pipe : ∀ p pipe', fs'.pipes.get? p = some pipe' → ∃ pipe, fs.pipes.get? p = some pipe ∧
    pipe'.isClosed = pipe.isClosed ∧ ∀ side, pipe'.endpoints side = pipe.endpoints side
  pipeLive : ∀ p, fs.pipes.Live p → fs'.pipes.Live p
  orphanFiles : fs'.orphanFiles = fs.orphanFiles

theorem Quiet.refl (fs : FS) : fs.Quiet fs :=
  ⟨fun _ file' h => .inl ⟨file', h, rfl, rfl⟩, Nat.le_refl _, fun _ _ _ h => h.live, fun _ => rfl,
    fun _ pipe' h => ⟨pipe', h, rfl, fun _ => rfl⟩, fun _ h => h, rfl⟩

/-- An endpoint stays one, and no file becomes one. -/
theorem Quiet.isEndpoint (h : fs.Quiet fs') : fs'.IsEndpoint f p side ↔ fs.IsEndpoint f p side := by
  constructor
  · rintro ⟨file', hfile', hend⟩
    rcases h.file f file' hfile' with ⟨file, hfile, -, hsame⟩ | ⟨-, -, hnone⟩
    · exact ⟨file, hfile, hsame.symm.trans hend⟩
    · rw [hnone] at hend
      cases hend
  · intro hf
    obtain ⟨file', hfile'⟩ := h.endpoint f p side hf
    obtain ⟨old, hold, hend⟩ := hf
    rcases h.file f file' hfile' with ⟨file, hfile, -, hsame⟩ | ⟨hnew, -, -⟩
    · obtain rfl := Option.some.inj (hold.symm.trans hfile)
      exact ⟨file', hfile', hsame.trans hend⟩
    · exact absurd (Heap.Live.lt_next ⟨old, hold⟩) (Nat.not_lt.2 hnew)

theorem Quiet.trans (h : fs.Quiet fs') (h' : fs'.Quiet fs'') : fs.Quiet fs'' where
  file f file'' hfile'' := by
    rcases h'.file f file'' hfile'' with ⟨file', hfile', hcount', hend'⟩ | ⟨hnew, hzero, hnone⟩
    · rcases h.file f file' hfile' with ⟨file, hfile, hcount, hend⟩ | ⟨hnew, hzero, hnone⟩
      · exact .inl ⟨file, hfile, hcount'.trans hcount, hend'.trans hend⟩
      · exact .inr ⟨hnew, hcount'.trans hzero, hend'.trans hnone⟩
    · exact .inr ⟨Nat.le_trans h.next hnew, hzero, hnone⟩
  next := Nat.le_trans h.next h'.next
  endpoint f p side hf := h'.endpoint f p side (h.isEndpoint.2 hf)
  fileOf d := (h'.fileOf d).trans (h.fileOf d)
  pipe p pipe'' hpipe'' := by
    obtain ⟨pipe', hpipe', hclosed', hends'⟩ := h'.pipe p pipe'' hpipe''
    obtain ⟨pipe, hpipe, hclosed, hends⟩ := h.pipe p pipe' hpipe'
    exact ⟨pipe, hpipe, hclosed'.trans hclosed, fun side => (hends' side).trans (hends side)⟩
  pipeLive p hp := h'.pipeLive p (h.pipeLive p hp)
  orphanFiles := h'.orphanFiles.trans h.orphanFiles

/-- A quiet change keeps the references. -/
theorem Quiet.references (h : fs.Quiet fs') : fs'.references ds f = fs.references ds f :=
  references_congr fun d _ => h.fileOf d

/-- A quiet change keeps the counts right. -/
theorem Quiet.counted (h : fs.Quiet fs') (hc : fs.Counted ds) : fs'.Counted ds := by
  refine ⟨fun f file' hfile' => ?_, fun d hd => ?_, fun d f hf => ?_⟩
  · rw [h.references]
    rcases h.file f file' hfile' with ⟨file, hfile, hcount, -⟩ | ⟨hnew, hzero, -⟩
    · exact hcount.trans (hc.count f file hfile)
    · exact hzero.trans (hc.references_new hnew).symm
  · obtain ⟨f, hf⟩ := hc.described d hd
    exact ⟨f, (h.fileOf d).trans hf⟩
  · exact Nat.lt_of_lt_of_le (hc.known d f ((h.fileOf d).symm.trans hf)) h.next

/-- A quiet change keeps the pipes right. -/
theorem Quiet.piped (h : fs.Quiet fs') (hp : fs.Piped) : fs'.Piped := by
  refine ⟨fun p pipe' hpipe' => ?_, fun p pipe' side f hpipe' => ?_, fun f p side hf => ?_, fun f p side hf => ?_⟩
  · obtain ⟨pipe, hpipe, hclosed, -⟩ := h.pipe p pipe' hpipe'
    exact hclosed.trans (hp.opened p pipe hpipe)
  · obtain ⟨pipe, hpipe, -, hends⟩ := h.pipe p pipe' hpipe'
    rw [hends side, h.isEndpoint]
    exact hp.ends p pipe side f hpipe
  · exact h.pipeLive p (hp.live f p side (h.isEndpoint.1 hf))
  · exact h.orphanFiles ▸ hp.orphan f p side (h.isEndpoint.1 hf)

/-- Nothing but the files changes, and each file keeps its count and its endpoint. -/
theorem Quiet.of_files (hfile : ∀ q, ∃ g : File → File, fs'.files.get? q = (fs.files.get? q).map g ∧
      ∀ file, fs.files.get? q = some file → (g file).refCount = file.refCount ∧ (g file).endpoint? = file.endpoint?)
    (hnext : fs'.files.next = fs.files.next) (hd : fs'.descriptions = fs.descriptions) (hp : fs'.pipes = fs.pipes)
    (ho : fs'.orphanFiles = fs.orphanFiles) : fs.Quiet fs' where
  file f file' hfile' := by
    obtain ⟨g, hg, hsame⟩ := hfile f
    rw [hg, Option.map_eq_some_iff] at hfile'
    obtain ⟨file, hf, rfl⟩ := hfile'
    exact .inl ⟨file, hf, hsame file hf⟩
  next := Nat.le_of_eq hnext.symm
  endpoint f p side hf := by
    obtain ⟨file, hf, -⟩ := hf
    obtain ⟨g, hg, -⟩ := hfile f
    exact ⟨g file, by rw [hg, hf]; rfl⟩
  fileOf d := by rw [FS.fileOf, hd, FS.fileOf]
  pipe p pipe' hpipe' := ⟨pipe', hp ▸ hpipe', rfl, fun _ => rfl⟩
  pipeLive p hlive := hp ▸ hlive
  orphanFiles := ho

/-- A change that keeps count and endpoint is quiet. -/
theorem quiet_modifyFile {g : File → File} (hg : ∀ file, fs.files.get? f = some file →
    (g file).refCount = file.refCount ∧ (g file).endpoint? = file.endpoint?) : fs.Quiet (fs.modifyFile f g) := by
  refine .of_files (fun q => ?_) next_modifyFile rfl rfl rfl
  rw [get?_modifyFile]
  split
  · next hq => exact ⟨g, rfl, fun file hfile => hg file (hq ▸ hfile)⟩
  · exact ⟨id, by simp, fun _ _ => ⟨rfl, rfl⟩⟩

/-- A new file that nothing refers to is quiet. -/
theorem quiet_allocFile (hfile : file.refCount = 0) (hend : file.endpoint? = none) : fs.Quiet (fs.allocFile file) := by
  refine ⟨fun f file' hf => ?_, ?_, fun f p side hf => live_allocFile.2 (.inr hf.live), fun _ => rfl,
    fun p pipe' hp => ⟨pipe', hp, rfl, fun _ => rfl⟩, fun _ hp => hp, rfl⟩
  · rw [get?_allocFile] at hf
    split at hf
    · next hq =>
      obtain rfl := Option.some.inj hf
      exact .inr ⟨Nat.le_of_eq hq.symm, hfile, hend⟩
    · exact .inl ⟨file', hf, rfl, rfl⟩
  · simp [allocFile, Heap.alloc, Heap.next]

/-- Attaching is quiet. -/
theorem quiet_attach {d : FileId} : fs.Quiet (fs.attach d f) := by
  refine .of_files (fun q => ?_) ?_ rfl rfl rfl
  · obtain ⟨g, hg, hsame⟩ := get?_attach fs d f q
    exact ⟨g, hg, fun file _ => ⟨(hsame file).1, (hsame file).2.2.2.2⟩⟩
  · rw [attach, next_modifyFile, next_modifyFile]

/-- What is destroyed with a file that was taken from the tree is no orphan. -/
theorem quiet_destroy (ht : fs.Tree) (hends : fs.EndsOrphan) (hloose : fs.Loose f) : fs.Quiet (fs.destroy f) := by
  refine ⟨fun x file' hx => ?_, Nat.le_of_eq Heap.next_freeAll.symm, fun x p side hx => ?_, fun _ => rfl,
    fun p pipe' hp => ⟨pipe', hp, rfl, fun _ => rfl⟩, fun _ hp => hp, rfl⟩
  · rw [get?_destroy] at hx
    split at hx
    · cases hx
    · exact .inl ⟨file', hx, rfl, rfl⟩
  · have ho := hends x p side hx
    exact live_destroy (not_mem_doomed_of_outside (ht.orphan x ho) fun he => hloose.orphan (he ▸ ho)) hx.live

/-- An edit of a tree is quiet. -/
theorem Edit.quiet (ht : fs.Tree) (hends : fs.EndsOrphan) (h : Edit φ δ fs fs') : fs.Quiet fs' := by
  cases h with
  | modify f g hg => exact quiet_modifyFile fun file hfile => ⟨(hg file hfile).refCount, (hg file hfile).endpoint⟩
  | add d file hd hfile hφ => exact (quiet_allocFile hfile.refCount hfile.endpoint).trans quiet_attach
  | take d e hd => exact quiet_modifyFile fun file _ => ⟨File.refCount_withEntries, File.endpoint?_withEntries⟩
  | attach d f name hd hf hout hφ =>
    have hrename : fs.Quiet (fs.renameFile f d name) := quiet_modifyFile fun _ _ => ⟨rfl, rfl⟩
    exact hrename.trans quiet_attach
  | destroy f hout hδ => exact quiet_destroy ht hends hout

/-- A change of what a pipe holds is quiet. -/
theorem quiet_modifyPipe {g : Pipe → Pipe} (hg : ∀ pipe, (g pipe).readEndpoints = pipe.readEndpoints ∧
    (g pipe).writeEndpoints = pipe.writeEndpoints ∧ (g pipe).isClosed = pipe.isClosed) : fs.Quiet (fs.modifyPipe p g) := by
  have hget : ∀ q, (fs.modifyPipe p g).pipes.get? q = if q = p then (fs.pipes.get? q).map g else fs.pipes.get? q := by
    intro q
    split
    · next hq => rw [hq]; exact Heap.get?_modify_self
    · next hq => exact Heap.get?_modify_of_ne hq
  refine ⟨fun f file' hf => .inl ⟨file', hf, rfl, rfl⟩, Nat.le_refl _, fun f q side hf => hf.live, fun d => rfl, fun q pipe' hq => ?_,
    fun q hq => ?_, rfl⟩
  · rw [hget] at hq
    split at hq
    · rw [Option.map_eq_some_iff] at hq
      obtain ⟨pipe, hpipe, rfl⟩ := hq
      refine ⟨pipe, hpipe, (hg pipe).2.2, fun side => ?_⟩
      cases side with
      | READ => exact (hg pipe).1
      | WRITE => exact (hg pipe).2.1
    · exact ⟨pipe', hq, rfl, fun _ => rfl⟩
  · obtain ⟨pipe, hpipe⟩ := hq
    unfold Heap.Live
    rw [hget, hpipe]
    split
    · exact ⟨g pipe, rfl⟩
    · exact ⟨pipe, rfl⟩

/-- A change that keeps the file of a description is quiet. -/
theorem quiet_modifyDescription {g : OpenFileDescription → OpenFileDescription} (hg : ∀ ofd, (g ofd).file = ofd.file) :
    fs.Quiet (fs.modifyDescription d g) := by
  refine ⟨fun f file' hf => .inl ⟨file', hf, rfl, rfl⟩, Nat.le_refl _, fun f q side hf => hf.live, fun e => ?_,
    fun q pipe' hq => ⟨pipe', hq, rfl, fun _ => rfl⟩, fun q hq => hq, rfl⟩
  unfold FS.fileOf
  by_cases he : e = d
  · rw [he]
    change (((fs.descriptions.modify d g).get? d).map _) = _
    rw [Heap.get?_modify_self, Option.map_map]
    exact congrArg (fun k => (fs.descriptions.get? d).map k) (funext hg)
  · exact congrArg (Option.map OpenFileDescription.file) (Heap.get?_modify_of_ne he)

/-- A silent step is quiet. -/
theorem Silent.quiet (ht : fs.Tree) (hends : fs.EndsOrphan) (h : Silent φ δ μ fs fs') : fs.Quiet fs' := by
  cases h with
  | edit h => exact h.quiet ht hends
  | pipe p g _ hg => exact quiet_modifyPipe hg
  | description d g hg => exact quiet_modifyDescription hg

/-- Endpoints stay orphans. -/
theorem Quiet.endsOrphan (h : fs.Quiet fs') (hends : fs.EndsOrphan) : fs'.EndsOrphan :=
  fun f p side hf => h.orphanFiles ▸ hends f p side (h.isEndpoint.1 hf)

/-- Endpoints keep their descriptors. -/
theorem Quiet.held (h : fs.Quiet fs') (hheld : fs.Held ds) : fs'.Held ds := by
  intro f p side hf
  obtain ⟨d, hmem, hd⟩ := hheld f p side (h.isEndpoint.1 hf)
  exact ⟨d, hmem, (h.fileOf d).trans hd⟩

/-- Silent steps are quiet. -/
theorem Silents.quiet (ht : fs.Tree) (hends : fs.EndsOrphan) (h : Silents φ δ μ fs fs') : fs.Quiet fs' := by
  induction h with
  | refl => exact .refl _
  | tail hbefore hsilent ih => exact ih.trans (hsilent.quiet (ht.changes (Silents.changes hbefore)) (ih.endsOrphan hends))

/-- Edits are quiet. -/
theorem Edits.quiet (ht : fs.Tree) (hends : fs.EndsOrphan) (h : Edits φ δ fs fs') : fs.Quiet fs' := (h.silents (μ := True)).quiet ht hends

/-! ## Counting up and down -/

variable {accessMode : AccessMode} {statusFlags : StatusFlags} {closeOnExec : Bool}
variable {descriptor reader writer : FileDescriptor}

/-- The new description refers to its file. -/
theorem fileOf_describe (fs : FS) (d : DescriptionId) :
    (fs.describe f accessMode statusFlags).fileOf d = if d = fs.descriptions.next then some f else fs.fileOf d := by
  unfold FS.fileOf describe
  split
  · next hd => rw [hd, Heap.get?_alloc_next]; rfl
  · next hd => rw [Heap.get?_alloc_of_ne hd]

/-- A description that refers to a file was made. -/
theorem lt_next_of_fileOf (h : fs.fileOf d = some f) : d < fs.descriptions.next := by
  unfold FS.fileOf at h
  rw [Option.map_eq_some_iff] at h
  obtain ⟨ofd, hofd, -⟩ := h
  exact Heap.Live.lt_next ⟨ofd, hofd⟩

/-- A new description, whose file is counted for it. -/
theorem openNode_counted (hc : fs.Counted ds)
    (h : fs.openNode f accessMode statusFlags closeOnExec = .ok (fs', descriptor)) :
    fs'.Counted (descriptor.openFileDescription :: ds) := by
  obtain ⟨hf, rfl, hd⟩ := openNode_eq_ok h
  rw [hd]
  have hnew : ∀ d ∈ ds, d ≠ fs.descriptions.next := by
    intro d hd
    obtain ⟨x, hx⟩ := hc.described d hd
    exact Nat.ne_of_lt (lt_next_of_fileOf hx)
  refine ⟨fun x file' hx => ?_, fun d hd => ?_, fun d x hx => ?_⟩
  · rw [references_cons]
    change _ = (fs.describe f accessMode statusFlags).references ds x +
      if (fs.describe f accessMode statusFlags).fileOf fs.descriptions.next = some x then 1 else 0
    rw [fileOf_describe, if_pos rfl, references_congr fun d hd => ?_]
    · rw [get?_modifyFile] at hx
      split at hx
      · next hxf =>
        subst hxf
        obtain ⟨file, hfile, rfl⟩ := Option.map_eq_some_iff.1 hx
        rw [if_pos rfl, ← hc.count x file hfile]
      · next hxf =>
        rw [if_neg (fun he => hxf (Option.some.inj he).symm), Nat.add_zero]
        exact hc.count x file' hx
    · rw [fileOf_describe, if_neg (hnew d hd)]
  · change ∃ x, (fs.describe f accessMode statusFlags).fileOf d = some x
    rw [fileOf_describe]
    rcases List.mem_cons.1 hd with rfl | hd
    · exact ⟨f, if_pos rfl⟩
    · obtain ⟨x, hx⟩ := hc.described d hd
      exact ⟨x, by rw [if_neg (hnew d hd), hx]⟩
  · change (fs.describe f accessMode statusFlags).fileOf d = some x at hx
    rw [fileOf_describe] at hx
    rw [next_modifyFile]
    split at hx
    · obtain rfl := Option.some.inj hx
      exact hf.lt_next
    · exact hc.known d x hx

/-- A reference more for a descriptor more. -/
theorem ref_counted (hc : fs.Counted ds) (hd : fs.fileOf d = some f) (h : fs.ref f = .ok fs') : fs'.Counted (d :: ds) := by
  obtain ⟨hf, rfl⟩ := ref_eq_ok.1 h
  refine ⟨fun x file' hx => ?_, fun e he => ?_, fun e x hx => ?_⟩
  · rw [references_cons]
    change _ = fs.references ds x + if fs.fileOf d = some x then 1 else 0
    rw [get?_modifyFile] at hx
    rw [hd]
    split at hx
    · next hxf =>
      subst hxf
      obtain ⟨file, hfile, rfl⟩ := Option.map_eq_some_iff.1 hx
      rw [if_pos rfl, ← hc.count x file hfile]
    · next hxf =>
      rw [if_neg (fun he => hxf (Option.some.inj he).symm), Nat.add_zero]
      exact hc.count x file' hx
  · rcases List.mem_cons.1 he with rfl | he
    · exact ⟨f, hd⟩
    · exact hc.described e he
  · rw [next_modifyFile]
    exact hc.known e x hx

/-- A reference less for a descriptor less. -/
theorem unref_counted (hc : fs.Counted (d :: ds)) (hd : fs.fileOf d = some f) (h : fs.unref f = .ok fs') : fs'.Counted ds := by
  obtain ⟨file, hfile, hcount, rfl⟩ := unref_eq_ok h
  refine ⟨fun x file' hx => ?_, fun e he => hc.described e (List.mem_cons_of_mem _ he), fun e x hx => ?_⟩
  · change _ = fs.references ds x
    rw [get?_modifyFile] at hx
    split at hx
    · next hxf =>
      subst hxf
      rw [hfile] at hx
      obtain rfl := Option.some.inj hx
      have hx := hc.count x file hfile
      rw [references_cons, hd, if_pos rfl] at hx
      exact Nat.sub_eq_of_eq_add hx
    · next hxf =>
      have hx := hc.count x file' hx
      rw [references_cons, hd, if_neg (fun he => hxf (Option.some.inj he).symm)] at hx
      exact hx
  · rw [next_modifyFile]
    exact hc.known e x hx

/-- Files that go leave the counts of the others right. -/
theorem Counted.gone (hc : fs.Counted ds) (hfile : ∀ f file, fs'.files.get? f = some file → fs.files.get? f = some file)
    (hd : fs'.descriptions = fs.descriptions) (hnext : fs'.files.next = fs.files.next) : fs'.Counted ds := by
  have hof : ∀ d, fs'.fileOf d = fs.fileOf d := fun d => by rw [FS.fileOf, hd, FS.fileOf]
  refine ⟨fun f file hf => ?_, fun d hd => ?_, fun d f hf => ?_⟩
  · rw [references_congr fun d _ => hof d]
    exact hc.count f file (hfile f file hf)
  · obtain ⟨f, hf⟩ := hc.described d hd
    exact ⟨f, (hof d).trans hf⟩
  · rw [hnext]
    exact hc.known d f ((hof d).symm.trans hf)

/-- A new orphan has no reference. -/
theorem allocOrphan_counted (hc : fs.Counted ds) (hfile : file.refCount = 0) : (fs.allocOrphan file).Counted ds := by
  refine ⟨fun f file' hf => ?_, hc.described, fun d f hf => ?_⟩
  · change (fs.allocFile file).files.get? f = some file' at hf
    change _ = fs.references ds f
    rw [get?_allocFile] at hf
    split at hf
    · next hq =>
      obtain rfl := Option.some.inj hf
      rw [hfile, hc.references_new (Nat.le_of_eq hq.symm)]
    · exact hc.count f file' hf
  · rw [allocOrphan, Heap.next_alloc]
    exact Nat.lt_succ_of_lt (hc.known d f hf)

/-- A file that is no endpoint is created and opened. -/
theorem insertNode_counted (hc : fs.Counted ds) (hfile : file.refCount = 0)
    (h : fs.insertNode file accessMode statusFlags closeOnExec = .ok (fs', descriptor)) :
    fs'.Counted (descriptor.openFileDescription :: ds) :=
  openNode_counted (allocOrphan_counted hc hfile) h

/-! ## Pipes -/

/-- Counts, descriptions and flags are no part of the pipes. -/
theorem Piped.congr (hp : fs.Piped) (he : ∀ f p side, fs'.IsEndpoint f p side ↔ fs.IsEndpoint f p side)
    (hpipes : fs'.pipes = fs.pipes) (ho : ∀ f p side, fs.IsEndpoint f p side → f ∈ fs'.orphanFiles) : fs'.Piped := by
  refine ⟨fun p pipe h => hp.opened p pipe (hpipes ▸ h), fun p pipe side f h => ?_, fun f p side hf => ?_, fun f p side hf => ?_⟩
  · rw [he]
    exact hp.ends p pipe side f (hpipes ▸ h)
  · exact hpipes ▸ hp.live f p side ((he f p side).1 hf)
  · exact ho f p side ((he f p side).1 hf)

/-- A change that keeps the endpoints. -/
theorem isEndpoint_modifyFile {g : File → File} (hg : ∀ file, (g file).endpoint? = file.endpoint?) {q : FileId} :
    (fs.modifyFile f g).IsEndpoint q p side ↔ fs.IsEndpoint q p side := by
  unfold IsEndpoint
  rw [get?_modifyFile]
  split
  · constructor
    · rintro ⟨file', hfile', hend⟩
      obtain ⟨file, hfile, rfl⟩ := Option.map_eq_some_iff.1 hfile'
      exact ⟨file, hfile, (hg file).symm.trans hend⟩
    · rintro ⟨file, hfile, hend⟩
      exact ⟨g file, by rw [hfile]; rfl, (hg file).trans hend⟩
  · exact Iff.rfl

/-- Counting touches no pipe. -/
theorem Piped.count {k : Nat → Nat} (hp : fs.Piped) :
    (fs.modifyFile f fun file => { file with refCount := k file.refCount }).Piped :=
  hp.congr (fun _ _ _ => isEndpoint_modifyFile (g := fun file => { file with refCount := k file.refCount }) fun _ => rfl) rfl hp.orphan

/-- Opening touches no pipe. -/
theorem openNode_piped (hp : fs.Piped)
    (h : fs.openNode f accessMode statusFlags closeOnExec = .ok (fs', descriptor)) : fs'.Piped := by
  obtain ⟨-, rfl, -⟩ := openNode_eq_ok h
  have hdescribe : (fs.describe f accessMode statusFlags).Piped := hp.congr (fun _ _ _ => Iff.rfl) rfl hp.orphan
  exact hdescribe.count (k := (· + 1))

/-- Counting up touches no pipe. -/
theorem ref_piped (hp : fs.Piped) (h : fs.ref f = .ok fs') : fs'.Piped := by
  obtain ⟨-, rfl⟩ := ref_eq_ok.1 h
  exact hp.count (k := (· + 1))

/-- Counting down touches no pipe. -/
theorem unref_piped (hp : fs.Piped) (h : fs.unref f = .ok fs') : fs'.Piped := by
  obtain ⟨file, -, -, rfl⟩ := unref_eq_ok h
  exact hp.count (k := (· - 1))

/-- The endpoints beside a new orphan. -/
theorem isEndpoint_allocOrphan {q : FileId} : (fs.allocOrphan file).IsEndpoint q p side ↔
    (q = fs.files.next ∧ file.endpoint? = some (p, side)) ∨ fs.IsEndpoint q p side := by
  have hget : (fs.allocOrphan file).files.get? q = if q = fs.files.next then some file else fs.files.get? q := get?_allocFile q
  unfold IsEndpoint
  rw [hget]
  split
  · next hq =>
    constructor
    · rintro ⟨file', hfile', hend⟩
      obtain rfl := Option.some.inj hfile'
      exact .inl ⟨hq, hend⟩
    · rintro (⟨-, hend⟩ | ⟨file', hfile', -⟩)
      · exact ⟨file, rfl, hend⟩
      · rw [hq, Heap.get?_next] at hfile'
        cases hfile'
  · next hq => exact ⟨.inr, fun h => h.resolve_left fun h => hq h.1⟩

/-- A new orphan that is no endpoint touches no pipe. -/
theorem allocOrphan_piped (hp : fs.Piped) (hend : file.endpoint? = none) : (fs.allocOrphan file).Piped := by
  refine hp.congr (fun f p side => ?_) rfl fun f p side hf => List.mem_append_left _ (hp.orphan f p side hf)
  rw [isEndpoint_allocOrphan, hend]
  simp

/-- Opening a new orphan touches no pipe. -/
theorem insertNode_piped (hp : fs.Piped) (hend : file.endpoint? = none)
    (h : fs.insertNode file accessMode statusFlags closeOnExec = .ok (fs', descriptor)) : fs'.Piped :=
  openNode_piped (allocOrphan_piped hp hend) h

/-- The steps of `FS::pipe2`. -/
theorem pipe2_eq_ok (h : fs.pipe2 statusFlags closeOnExec = .ok (fs', reader, writer)) :
    ∃ fs1, FS.insertNode { fs with pipes := fs.pipes.alloc ⟨[], [fs.files.next], [fs.files.next + 1], false⟩ }
        (.new File.ANONYMOUS (.pipeEndpoint fs.pipes.next .READ)) ⟨true, false⟩ statusFlags closeOnExec = .ok (fs1, reader) ∧
      fs1.insertNode (.new File.ANONYMOUS (.pipeEndpoint fs.pipes.next .WRITE)) ⟨false, true⟩ statusFlags closeOnExec =
        .ok (fs', writer) := by
  obtain ⟨⟨fs1, r⟩, hreader, h⟩ := bind_eq_ok.1 h
  obtain ⟨⟨fs2, w⟩, hwriter, h⟩ := bind_eq_ok.1 h
  obtain ⟨rfl, hpair⟩ := ok_pair h
  obtain ⟨rfl, rfl⟩ := Prod.ext_iff.1 hpair
  exact ⟨fs1, hreader, hwriter⟩

/-- A new pipe counts its two descriptors. -/
theorem pipe2_counted (hc : fs.Counted ds)
    (h : fs.pipe2 statusFlags closeOnExec = .ok (fs', reader, writer)) :
    fs'.Counted (writer.openFileDescription :: reader.openFileDescription :: ds) := by
  obtain ⟨fs1, hreader, hwriter⟩ := pipe2_eq_ok h
  have hc0 : FS.Counted { fs with pipes := fs.pipes.alloc ⟨[], [fs.files.next], [fs.files.next + 1], false⟩ } ds :=
    ⟨hc.count, hc.described, hc.known⟩
  exact insertNode_counted (insertNode_counted hc0 rfl hreader) rfl hwriter

/-- What opening a file leaves as it is. -/
theorem openNode_frame (h : fs.openNode f accessMode statusFlags closeOnExec = .ok (fs', descriptor)) :
    fs'.pipes = fs.pipes ∧ fs'.orphanFiles = fs.orphanFiles ∧ fs'.files.next = fs.files.next ∧
      (∀ q p side, fs'.IsEndpoint q p side ↔ fs.IsEndpoint q p side) ∧
      fs'.fileOf descriptor.openFileDescription = some f ∧ ∀ d x, fs.fileOf d = some x → fs'.fileOf d = some x := by
  obtain ⟨-, rfl, hd⟩ := openNode_eq_ok h
  refine ⟨rfl, rfl, next_modifyFile, fun q p side => ?_, ?_, fun d x hx => ?_⟩
  · have hdescribe : (fs.describe f accessMode statusFlags).IsEndpoint q p side ↔ fs.IsEndpoint q p side := Iff.rfl
    exact (isEndpoint_modifyFile (g := fun file => { file with refCount := file.refCount + 1 }) fun _ => rfl).trans hdescribe
  · rw [hd]
    exact (fileOf_describe fs _).trans (if_pos rfl)
  · exact (fileOf_describe fs d).trans ((if_neg (Nat.ne_of_lt (lt_next_of_fileOf hx))).trans hx)

/-- Opening leaves every endpoint its descriptor. -/
theorem openNode_held
    (hheld : fs.Held ds) (h : fs.openNode f accessMode statusFlags closeOnExec = .ok (fs', descriptor)) :
    fs'.Held (descriptor.openFileDescription :: ds) := by
  obtain ⟨-, -, -, hend, -, hof⟩ := openNode_frame h
  intro x p side hx
  obtain ⟨d, hmem, hd⟩ := hheld x p side ((hend x p side).1 hx)
  exact ⟨d, List.mem_cons_of_mem _ hmem, hof d x hd⟩

/-- A further descriptor takes none away. -/
theorem ref_held (hheld : fs.Held ds) (h : fs.ref f = .ok fs') : fs'.Held (d :: ds) := by
  obtain ⟨-, rfl⟩ := ref_eq_ok.1 h
  intro x p side hx
  obtain ⟨e, hmem, he⟩ := hheld x p side
    ((isEndpoint_modifyFile (g := fun file => { file with refCount := file.refCount + 1 }) fun _ => rfl).1 hx)
  exact ⟨e, List.mem_cons_of_mem _ hmem, he⟩

/-- Opening a new orphan leaves every endpoint its descriptor. -/
theorem insertNode_held (hheld : fs.Held ds) (hend : file.endpoint? = none)
    (h : fs.insertNode file accessMode statusFlags closeOnExec = .ok (fs', descriptor)) :
    fs'.Held (descriptor.openFileDescription :: ds) := by
  have hbefore : (fs.allocOrphan file).Held ds := by
    intro x p side hx
    rw [isEndpoint_allocOrphan, hend] at hx
    exact hheld x p side (hx.resolve_left fun hx => by cases hx.2)
  exact openNode_held hbefore h

/-- What a new pipe adds. -/
theorem pipe2_frame (h : fs.pipe2 statusFlags closeOnExec = .ok (fs', reader, writer)) :
    fs'.pipes = fs.pipes.alloc ⟨[], [fs.files.next], [fs.files.next + 1], false⟩ ∧
      fs'.orphanFiles = fs.orphanFiles ++ [fs.files.next] ++ [fs.files.next + 1] ∧
      (∀ q p side, fs'.IsEndpoint q p side ↔ (q = fs.files.next + 1 ∧ p = fs.pipes.next ∧ side = .WRITE) ∨
        (q = fs.files.next ∧ p = fs.pipes.next ∧ side = .READ) ∨ fs.IsEndpoint q p side) ∧
      fs'.fileOf reader.openFileDescription = some fs.files.next ∧
      fs'.fileOf writer.openFileDescription = some (fs.files.next + 1) ∧
      ∀ d x, fs.fileOf d = some x → fs'.fileOf d = some x := by
  obtain ⟨fs1, hreader, hwriter⟩ := pipe2_eq_ok h
  obtain ⟨hpipes1, ho1, hnext1, hend1, hd1, hof1⟩ := openNode_frame hreader
  obtain ⟨hpipes2, ho2, -, hend2, hd2, hof2⟩ := openNode_frame hwriter
  have hnext : fs1.files.next = fs.files.next + 1 := hnext1.trans Heap.next_alloc
  dsimp only at ho1 ho2
  rw [hnext] at ho2 hd2
  refine ⟨hpipes2.trans hpipes1, by rw [ho2, ho1], fun q p side => ?_, hof2 _ _ hd1, hd2, fun d x hx => hof2 d x (hof1 d x hx)⟩
  have hpair : ∀ {s : PipeSide}, some (fs.pipes.next, s) = some (p, side) ↔ p = fs.pipes.next ∧ side = s := by
    intro s
    rw [Option.some.injEq, Prod.mk.injEq]
    exact ⟨fun h => ⟨h.1.symm, h.2.symm⟩, fun h => ⟨h.1.symm, h.2.symm⟩⟩
  refine ((hend2 q p side).trans isEndpoint_allocOrphan).trans ?_
  rw [hnext, hend1 q p side]
  refine Iff.trans (or_congr (and_congr_right fun _ => hpair) isEndpoint_allocOrphan) ?_
  exact or_congr_right (or_congr (and_congr_right fun _ => hpair) Iff.rfl)

/-- A new pipe knows its endpoints. -/
theorem pipe2_piped (hp : fs.Piped)
    (h : fs.pipe2 statusFlags closeOnExec = .ok (fs', reader, writer)) : fs'.Piped := by
  obtain ⟨hpipes, ho, hend, -⟩ := pipe2_frame h
  have hold : ∀ {f p side}, fs.IsEndpoint f p side → p ≠ fs.pipes.next ∧ f ≠ fs.files.next ∧ f ≠ fs.files.next + 1 := by
    intro f p side hf
    have hlt := hf.live.lt_next
    exact ⟨Nat.ne_of_lt (hp.live f p side hf).lt_next, Nat.ne_of_lt hlt, Nat.ne_of_lt (Nat.lt_succ_of_lt hlt)⟩
  refine ⟨fun p pipe hpipe => ?_, fun p pipe side f hpipe => ?_, fun f p side hf => ?_, fun f p side hf => ?_⟩
  · rw [hpipes] at hpipe
    by_cases hpn : p = fs.pipes.next
    · rw [hpn, Heap.get?_alloc_next] at hpipe
      rw [← Option.some.inj hpipe]
    · rw [Heap.get?_alloc_of_ne hpn] at hpipe
      exact hp.opened p pipe hpipe
  · rw [hpipes] at hpipe
    rw [hend]
    by_cases hpn : p = fs.pipes.next
    · rw [hpn, Heap.get?_alloc_next] at hpipe
      rw [← Option.some.inj hpipe]
      have hno : ¬ fs.IsEndpoint f p side := fun hf => (hold hf).1 hpn
      cases side with
      | READ => simp [Pipe.endpoints, hpn, hpn ▸ hno]
      | WRITE => simp [Pipe.endpoints, hpn, hpn ▸ hno]
    · rw [Heap.get?_alloc_of_ne hpn] at hpipe
      rw [hp.ends p pipe side f hpipe]
      simp [hpn]
  · rw [hpipes]
    rcases (hend f p side).1 hf with ⟨-, rfl, -⟩ | ⟨-, rfl, -⟩ | hf
    · exact ⟨_, Heap.get?_alloc_next⟩
    · exact ⟨_, Heap.get?_alloc_next⟩
    · obtain ⟨pipe, hpipe⟩ := hp.live f p side hf
      exact ⟨pipe, by rw [Heap.get?_alloc_of_ne (hold hf).1, hpipe]⟩
  · rw [ho]
    rcases (hend f p side).1 hf with ⟨rfl, -⟩ | ⟨rfl, -⟩ | hf
    · simp
    · simp
    · simp [hp.orphan f p side hf]

/-- A new pipe has its two descriptors. -/
theorem pipe2_held (hheld : fs.Held ds) (h : fs.pipe2 statusFlags closeOnExec = .ok (fs', reader, writer)) :
    fs'.Held (writer.openFileDescription :: reader.openFileDescription :: ds) := by
  obtain ⟨-, -, hend, hreader, hwriter, hof⟩ := pipe2_frame h
  intro x p side hx
  rcases (hend x p side).1 hx with ⟨rfl, -⟩ | ⟨rfl, -⟩ | hx
  · exact ⟨_, List.mem_cons_self, hwriter⟩
  · exact ⟨_, List.mem_cons_of_mem _ List.mem_cons_self, hreader⟩
  · obtain ⟨d, hmem, hd⟩ := hheld x p side hx
    exact ⟨d, List.mem_cons_of_mem _ (List.mem_cons_of_mem _ hmem), hof d x hd⟩

/-! ## Closing -/

/-- A change of a pipe is seen at that pipe. -/
theorem get?_modifyPipe {g : Pipe → Pipe} (q : PipeId) :
    (fs.modifyPipe p g).pipes.get? q = if q = p then (fs.pipes.get? q).map g else fs.pipes.get? q := by
  split
  · next hq => rw [hq]; exact Heap.get?_modify_self
  · next hq => exact Heap.get?_modify_of_ne hq

/-- The pipes that are open stay. -/
theorem get?_removeClosedPipes (q : PipeId) :
    fs.removeClosedPipes.pipes.get? q = (fs.pipes.get? q).filter fun pipe => !pipe.isClosed := by
  cases hq : fs.pipes.get? q with
  | none =>
    by_cases hmem : q ∈ (List.range fs.pipes.next).filter fun p => ((fs.pipes.get? p).map Pipe.isClosed).getD false
    · exact Heap.get?_freeAll_of_mem hmem
    · exact (Heap.get?_freeAll_of_not_mem hmem).trans hq
  | some pipe =>
    have hlt : q < fs.pipes.next := Heap.Live.lt_next ⟨pipe, hq⟩
    cases hclosed : pipe.isClosed with
    | true =>
      rw [Option.filter_some, hclosed]
      exact Heap.get?_freeAll_of_mem (List.mem_filter.2 ⟨List.mem_range.2 hlt, by simp [hq, hclosed]⟩)
    | false =>
      rw [Option.filter_some, hclosed]
      refine (Heap.get?_freeAll_of_not_mem fun hmem => ?_).trans hq
      have hno := (List.mem_filter.1 hmem).2
      simp [hq, hclosed] at hno

/-- The pipes after an endpoint of one is closed. -/
theorem get?_closed (hp : fs.Piped) (q : PipeId) {pipe' : Pipe} :
    (fs.modifyPipe p (closedEndpoint f)).removeClosedPipes.pipes.get? q = some pipe' ↔
      (q ≠ p ∧ fs.pipes.get? q = some pipe') ∨
      (q = p ∧ ∃ pipe, fs.pipes.get? p = some pipe ∧ pipe' = closedEndpoint f pipe ∧ pipe'.isClosed = false) := by
  rw [get?_removeClosedPipes, get?_modifyPipe]
  by_cases hq : q = p
  · rw [if_pos hq, Option.filter_eq_some_iff, Option.map_eq_some_iff, hq]
    simp only [ne_eq, not_true_eq_false, false_and, true_and, false_or, Bool.not_eq_true']
    constructor
    · rintro ⟨⟨pipe, hpipe, rfl⟩, hclosed⟩
      exact ⟨pipe, hpipe, rfl, hclosed⟩
    · rintro ⟨pipe, hpipe, rfl, hclosed⟩
      exact ⟨⟨pipe, hpipe, rfl⟩, hclosed⟩
  · rw [if_neg hq, Option.filter_eq_some_iff]
    simp only [ne_eq, hq, not_false_eq_true, true_and, false_and, or_false, Bool.not_eq_true']
    exact ⟨fun h => h.1, fun h => ⟨h, hp.opened q pipe' h⟩⟩

/-- An endpoint that is closed is no longer listed. -/
theorem endpoints_closedEndpoint {pipe : Pipe} {x : FileId} :
    x ∈ (closedEndpoint f pipe).endpoints side ↔ x ∈ pipe.endpoints side ∧ x ≠ f := by
  cases side <;> simp [closedEndpoint, Pipe.endpoints]

/-- A pipe is open while an endpoint is. -/
theorem isClosed_closedEndpoint {pipe : Pipe} {x : FileId} (hopen : pipe.isClosed = false)
    (hx : x ∈ (closedEndpoint f pipe).endpoints side) : (closedEndpoint f pipe).isClosed = false := by
  obtain ⟨hmem, hne⟩ := endpoints_closedEndpoint.1 hx
  cases side with
  | READ =>
    simp only [closedEndpoint, hopen, Bool.false_or, Bool.and_eq_false_iff]
    exact .inl (List.isEmpty_eq_false_iff.2 (List.ne_nil_of_mem (List.mem_filter.2 ⟨hmem, by simpa using hne⟩)))
  | WRITE =>
    simp only [closedEndpoint, hopen, Bool.false_or, Bool.and_eq_false_iff]
    exact .inr (List.isEmpty_eq_false_iff.2 (List.ne_nil_of_mem (List.mem_filter.2 ⟨hmem, by simpa using hne⟩)))

/-- The other endpoints stay. -/
theorem isEndpoint_removeFromOrphans {q : FileId} (hf : f ∈ fs.orphanFiles) :
    (fs.removeFromOrphans f).IsEndpoint q p side ↔ fs.IsEndpoint q p side ∧ q ≠ f := by
  unfold IsEndpoint
  rw [get?_removeFromOrphans]
  by_cases hq : q = f
  · simp [hf, hq]
  · simp [hq]

/-- The other orphans stay. -/
theorem mem_removeFromOrphans {x : FileId} (hx : x ∈ fs.orphanFiles) (hne : x ≠ f) :
    x ∈ (fs.removeFromOrphans f).orphanFiles := by
  unfold removeFromOrphans
  split
  · exact List.mem_filter.2 ⟨hx, by simpa using hne⟩
  · exact hx

/-- Removing an orphan touches neither descriptions nor pipes. -/
theorem removeFromOrphans_frame (fs : FS) (f : FileId) : (fs.removeFromOrphans f).descriptions = fs.descriptions ∧
    (fs.removeFromOrphans f).pipes = fs.pipes ∧ (fs.removeFromOrphans f).files.next = fs.files.next := by
  unfold removeFromOrphans
  split
  · exact ⟨rfl, rfl, Heap.next_freeAll⟩
  · exact ⟨rfl, rfl, rfl⟩

/-- The last descriptor of an endpoint is closed: the endpoint goes, and the pipe when it was the only one. -/
theorem Piped.closed (hp : fs.Piped) (hf : fs.IsEndpoint f p side)
    (hq : (fs.modifyPipe p (closedEndpoint f)).removeClosedPipes.Quiet fs') : (fs'.removeFromOrphans f).Piped := by
  have ho : f ∈ fs'.orphanFiles := hq.orphanFiles ▸ hp.orphan f p side hf
  have hend : ∀ x q s, (fs'.removeFromOrphans f).IsEndpoint x q s ↔ fs.IsEndpoint x q s ∧ x ≠ f :=
    fun x q s => (isEndpoint_removeFromOrphans ho).trans (and_congr_left fun _ => hq.isEndpoint)
  have hpipes : (fs'.removeFromOrphans f).pipes = fs'.pipes := (removeFromOrphans_frame _ _).2.1
  refine ⟨fun q pipe' hpipe' => ?_, fun q pipe' s x hpipe' => ?_, fun x q s hx => ?_, fun x q s hx => ?_⟩
  · obtain ⟨pipe1, hpipe1, hclosed, -⟩ := hq.pipe q pipe' (hpipes ▸ hpipe')
    rw [hclosed]
    rcases (get?_closed hp q).1 hpipe1 with ⟨-, hpipe⟩ | ⟨-, pipe, -, -, hopen⟩
    · exact hp.opened q pipe1 hpipe
    · exact hopen
  · obtain ⟨pipe1, hpipe1, -, hends⟩ := hq.pipe q pipe' (hpipes ▸ hpipe')
    rw [hends, hend]
    rcases (get?_closed hp q).1 hpipe1 with ⟨hne, hpipe⟩ | ⟨rfl, pipe, hpipe, rfl, -⟩
    · rw [hp.ends q pipe1 s x hpipe]
      refine ⟨fun hx => ⟨hx, ?_⟩, fun hx => hx.1⟩
      rintro rfl
      exact hne (hx.unique hf).1
    · rw [endpoints_closedEndpoint, hp.ends q pipe s x hpipe]
  · obtain ⟨hx, hne⟩ := (hend x q s).1 hx
    refine hpipes ▸ hq.pipeLive q ?_
    obtain ⟨pipe, hpipe⟩ := hp.live x q s hx
    by_cases hqp : q = p
    · subst hqp
      have hmem : x ∈ (closedEndpoint f pipe).endpoints s :=
        endpoints_closedEndpoint.2 ⟨(hp.ends q pipe s x hpipe).2 hx, hne⟩
      exact ⟨_, (get?_closed hp q).2 (.inr ⟨rfl, pipe, hpipe, rfl, isClosed_closedEndpoint (hp.opened q pipe hpipe) hmem⟩)⟩
    · exact ⟨pipe, (get?_closed hp q).2 (.inl ⟨hqp, hpipe⟩)⟩
  · obtain ⟨hx, hne⟩ := (hend x q s).1 hx
    exact mem_removeFromOrphans (hq.orphanFiles ▸ hp.orphan x q s hx) hne

/-- An orphan that is no endpoint goes. -/
theorem Piped.dropped (hp : fs.Piped) (hf : ∀ p side, ¬ fs.IsEndpoint f p side) : (fs.removeFromOrphans f).Piped := by
  have hne : ∀ {x q s}, fs.IsEndpoint x q s → x ≠ f := by
    rintro x q s hx rfl
    exact hf q s hx
  refine hp.congr (fun x q s => ?_) (removeFromOrphans_frame _ _).2.1 fun x q s hx => mem_removeFromOrphans (hp.orphan x q s hx) (hne hx)
  by_cases ho : f ∈ fs.orphanFiles
  · rw [isEndpoint_removeFromOrphans ho]
    exact ⟨fun h => h.1, fun h => ⟨h, hne h⟩⟩
  · unfold removeFromOrphans
    rw [if_neg ho]

/-- Removing an orphan keeps the counts right. -/
theorem removeFromOrphans_counted (hc : fs.Counted ds) : (fs.removeFromOrphans f).Counted ds := by
  obtain ⟨hd, -, hnext⟩ := removeFromOrphans_frame fs f
  refine hc.gone (fun x file hx => ?_) hd hnext
  rw [get?_removeFromOrphans] at hx
  split at hx
  · cases hx
  · exact hx

/-- Descriptions refer where they did. -/
theorem fileOf_removeFromOrphans : (fs.removeFromOrphans f).fileOf d = fs.fileOf d := by
  rw [FS.fileOf, (removeFromOrphans_frame _ _).1, FS.fileOf]

/-- What the counts and the pipes have in common with the descriptors. -/
structure Sound (fs : FS) (ds : List DescriptionId) : Prop where
  tree : fs.Tree
  counted : fs.Counted ds
  piped : fs.Piped
  held : fs.Held ds

/-- The order of the descriptors does not matter. -/
theorem Sound.perm {ds' : List DescriptionId} (h : fs.Sound ds) (hperm : ds.Perm ds') : fs.Sound ds' := by
  refine ⟨h.tree, h.counted.perm hperm, h.piped, fun f p side hf => ?_⟩
  obtain ⟨d, hmem, hd⟩ := h.held f p side hf
  exact ⟨d, hperm.mem_iff.1 hmem, hd⟩

/-- Silent steps keep it sound. -/
theorem Sound.silents (h : fs.Sound ds) (hs : Silents φ δ μ fs fs') : fs'.Sound ds := by
  have hq := hs.quiet h.tree h.piped.orphan
  exact ⟨h.tree.changes hs.changes, hq.counted h.counted, hq.piped h.piped, hq.held h.held⟩

/-- Edits keep it sound. -/
theorem Sound.edits (h : fs.Sound ds) (hs : Edits φ δ fs fs') : fs'.Sound ds := h.silents (hs.silents (μ := True))

/-- Opening a file keeps it sound. -/
theorem Sound.openNode
    (hs : fs.Sound ds) (h : fs.openNode f accessMode statusFlags closeOnExec = .ok (fs', descriptor)) :
    fs'.Sound (descriptor.openFileDescription :: ds) :=
  ⟨(openNode_sameTree h).tree hs.tree, openNode_counted hs.counted h, openNode_piped hs.piped h, openNode_held hs.held h⟩

/-- Counting up keeps it sound. -/
theorem Sound.ref (hs : fs.Sound ds) (hd : fs.fileOf d = some f) (h : fs.ref f = .ok fs') : fs'.Sound (d :: ds) := by
  refine ⟨?_, ref_counted hs.counted hd h, ref_piped hs.piped h, ref_held hs.held h⟩
  exact hs.tree.changes (ref_changes (φ := fun _ _ _ => True) (δ := fun _ _ => True) h)

/-- Opening a new orphan keeps it sound. -/
theorem Sound.insertNode (hs : fs.Sound ds) (hfile : file.Fresh)
    (h : fs.insertNode file accessMode statusFlags closeOnExec = .ok (fs', descriptor)) :
    fs'.Sound (descriptor.openFileDescription :: ds) :=
  ⟨(openNode_sameTree h).tree (hs.tree.allocOrphan hfile.entries), insertNode_counted hs.counted hfile.refCount h,
    insertNode_piped hs.piped hfile.endpoint h, insertNode_held hs.held hfile.endpoint h⟩

/-- A new pipe keeps it sound. -/
theorem Sound.pipe2 (hs : fs.Sound ds) (h : fs.pipe2 statusFlags closeOnExec = .ok (fs', reader, writer)) :
    fs'.Sound (writer.openFileDescription :: reader.openFileDescription :: ds) := by
  refine ⟨?_, pipe2_counted hs.counted h, pipe2_piped hs.piped h, pipe2_held hs.held h⟩
  exact hs.tree.changes (pipe2_changes (φ := fun _ _ _ => True) (δ := fun _ _ => True) h)

/-- What the last close leaves, besides the tree: the counts of the others, and the other endpoints. -/
theorem lastClose_sound (ht : fs.Tree) (hc : fs.Counted ds) (hp : fs.Piped) (h : fs.lastClose depth f = .ok fs') :
    fs'.Counted ds ∧ fs'.Piped ∧ (∀ d, fs'.fileOf d = fs.fileOf d) ∧
      ∀ x p side, fs'.IsEndpoint x p side → fs.IsEndpoint x p side ∧ x ≠ f := by
  obtain ⟨fs1, file1, hclose, hfile1, hrest⟩ := lastClose_cases h
  obtain ⟨file, hfile, ⟨hend, hfs1⟩ | ⟨p, side, hend, -, hfs1⟩⟩ := closeFile_cases hclose
  · have hno : ∀ p side, ¬ fs.IsEndpoint f p side := by
      rintro p side ⟨file', hfile', hend'⟩
      obtain rfl := Option.some.inj (hfile.symm.trans hfile')
      rw [hend] at hend'
      cases hend'
    have hq1 : fs.Quiet fs1 := by
      rcases hfs1 with rfl | ⟨cls, cls', entries, hkind, rfl⟩
      · exact .refl _
      · refine quiet_modifyFile fun file' hfile' => ?_
        obtain rfl := Option.some.inj (hfile.symm.trans hfile')
        exact ⟨rfl, (similar_handle hkind).endpoint⟩
    have hne : ∀ {fs2 : FS}, fs.Quiet fs2 → ∀ x p side, fs2.IsEndpoint x p side → fs.IsEndpoint x p side ∧ x ≠ f := by
      intro fs2 hq2 x p side hx
      have hx := hq2.isEndpoint.1 hx
      refine ⟨hx, ?_⟩
      rintro rfl
      exact hno p side hx
    rcases hrest with ⟨-, rfl⟩ | ⟨-, path, fs2, n, -, hunlink, rfl⟩
    · exact ⟨hq1.counted hc, hq1.piped hp, hq1.fileOf, hne hq1⟩
    · have ht1 := (closeFile_sameTree hclose).tree ht
      have hedits : Edits (fun _ _ _ => True) (fun _ _ => True) fs1 fs2 := unlink_edits ht1 (fun _ _ _ _ _ _ _ _ => trivial) hunlink
      have hq2 := hq1.trans (hedits.quiet ht1 (hq1.endsOrphan hp.orphan))
      have hno2 : ∀ p side, ¬ fs2.IsEndpoint f p side := fun p side hx => hno p side (hq2.isEndpoint.1 hx)
      refine ⟨removeFromOrphans_counted (hq2.counted hc), (hq2.piped hp).dropped hno2, fun d => ?_, fun x p side hx => hne hq2 x p side ?_⟩
      · exact fileOf_removeFromOrphans.trans (hq2.fileOf d)
      · by_cases ho : f ∈ fs2.orphanFiles
        · exact ((isEndpoint_removeFromOrphans ho).1 hx).1
        · unfold removeFromOrphans at hx
          rwa [if_neg ho] at hx
  · have hkind : (!file1.keepAfterClose || file1.deleteAfterClose) = true := by
      have hsame : fs1.files.get? f = fs.files.get? f := by rw [hfs1]; rfl
      rw [hfile1, hfile] at hsame
      obtain rfl := Option.some.inj hsame
      unfold File.endpoint? at hend
      unfold File.keepAfterClose
      split at hend
      · next hk => rw [hk]; rfl
      · cases hend
    rcases hrest with ⟨hkeep, -⟩ | ⟨-, path, fs2, n, -, hunlink, rfl⟩
    · rw [hkind] at hkeep
      cases hkeep
    · have hf : fs.IsEndpoint f p side := ⟨file, hfile, hend⟩
      have ht1 := (closeFile_sameTree hclose).tree ht
      have hends1 : fs1.EndsOrphan := by
        rw [hfs1]
        exact hp.orphan
      have hedits : Edits (fun _ _ _ => True) (fun _ _ => True) fs1 fs2 := unlink_edits ht1 (fun _ _ _ _ _ _ _ _ => trivial) hunlink
      have hq := hedits.quiet ht1 hends1
      have hc1 : fs1.Counted ds := hfs1 ▸ ⟨hc.count, hc.described, hc.known⟩
      have hof1 : ∀ d, fs1.fileOf d = fs.fileOf d := fun d => by rw [hfs1]; rfl
      have hend1 : ∀ x q s, fs1.IsEndpoint x q s ↔ fs.IsEndpoint x q s := fun x q s => by rw [hfs1]; rfl
      refine ⟨removeFromOrphans_counted (hq.counted hc1), hp.closed hf (hfs1 ▸ hq), fun d => ?_, fun x q s hx => ?_⟩
      · exact fileOf_removeFromOrphans.trans ((hq.fileOf d).trans (hof1 d))
      · have ho : f ∈ fs2.orphanFiles := hq.orphanFiles ▸ hends1 f p side ((hend1 f p side).2 hf)
        obtain ⟨hx, hne⟩ := (isEndpoint_removeFromOrphans ho).1 hx
        exact ⟨(hend1 x q s).1 (hq.isEndpoint.1 hx), hne⟩

/-- Closing a descriptor leaves the open file descriptions as they are. -/
theorem Sound.close_fileOf (hs : fs.Sound (descriptor.openFileDescription :: ds))
    (h : fs.close depth descriptor = .ok fs') (d : DescriptionId) : fs'.fileOf d = fs.fileOf d := by
  obtain ⟨ofd, fs1, file1, hofd, hunref, hfile1, hrest⟩ := close_cases h
  have hd : fs.fileOf descriptor.openFileDescription = some ofd.file := by rw [FS.fileOf, hofd]; rfl
  have hc1 := unref_counted hs.counted hd hunref
  have hp1 := unref_piped hs.piped hunref
  have ht1 := hs.tree.changes (unref_changes (φ := fun _ _ _ => True) (δ := fun _ _ => True) hunref)
  have hof1 : fs1.fileOf d = fs.fileOf d := by
    obtain ⟨file, -, -, rfl⟩ := unref_eq_ok hunref
    rfl
  rcases hrest with ⟨-, hlast⟩ | ⟨-, rfl⟩
  · exact ((lastClose_sound ht1 hc1 hp1 hlast).2.2.1 d).trans hof1
  · exact hof1

/-- Closing a descriptor leaves the counts of the others right. -/
theorem Sound.close (hs : fs.Sound (descriptor.openFileDescription :: ds))
    (h : fs.close depth descriptor = .ok fs') : fs'.Sound ds := by
  have ht' : fs'.Tree := hs.tree.changes
    (close_changes (φ := fun _ _ _ => True) (δ := fun _ _ => True) (fun _ _ => trivial) hs.tree h)
  obtain ⟨ofd, fs1, file1, hofd, hunref, hfile1, hrest⟩ := close_cases h
  have hd : fs.fileOf descriptor.openFileDescription = some ofd.file := by rw [FS.fileOf, hofd]; rfl
  have hc1 := unref_counted hs.counted hd hunref
  have hp1 := unref_piped hs.piped hunref
  have ht1 := hs.tree.changes (unref_changes (φ := fun _ _ _ => True) (δ := fun _ _ => True) hunref)
  have hof1 : ∀ d, fs1.fileOf d = fs.fileOf d := by
    obtain ⟨file, -, -, rfl⟩ := unref_eq_ok hunref
    exact fun _ => rfl
  have hend1 : ∀ x p side, fs1.IsEndpoint x p side → fs.IsEndpoint x p side := by
    obtain ⟨file, -, -, rfl⟩ := unref_eq_ok hunref
    exact fun x p side => (isEndpoint_modifyFile (g := fun file => { file with refCount := file.refCount - 1 }) fun _ => rfl).1
  -- an endpoint of another file has a descriptor among the others
  have hothers : ∀ x p side, fs.IsEndpoint x p side → x ≠ ofd.file → ∃ d ∈ ds, fs.fileOf d = some x := by
    intro x p side hx hne
    obtain ⟨d, hmem, hdx⟩ := hs.held x p side hx
    rcases List.mem_cons.1 hmem with rfl | hmem
    · exact absurd (Option.some.inj (hd.symm.trans hdx)).symm hne
    · exact ⟨d, hmem, hdx⟩
  rcases hrest with ⟨hzero, hlast⟩ | ⟨hcount, rfl⟩
  · obtain ⟨hc', hp', hof', hend'⟩ := lastClose_sound ht1 hc1 hp1 hlast
    refine ⟨ht', hc', hp', fun x p side hx => ?_⟩
    obtain ⟨hx, hne⟩ := hend' x p side hx
    obtain ⟨d, hmem, hdx⟩ := hothers x p side (hend1 x p side hx) hne
    exact ⟨d, hmem, (hof' d).trans ((hof1 d).trans hdx)⟩
  · refine ⟨ht1, hc1, hp1, fun x p side hx => ?_⟩
    by_cases hne : x = ofd.file
    · subst hne
      rw [hc1.count _ file1 hfile1] at hcount
      obtain ⟨d, hmem, hdx⟩ := List.countP_pos_iff.1 (Nat.pos_of_ne_zero hcount)
      exact ⟨d, hmem, by simpa using hdx⟩
    · obtain ⟨d, hmem, hdx⟩ := hothers x p side (hend1 x p side hx) hne
      exact ⟨d, hmem, (hof1 d).trans hdx⟩

end FS

end X64Emulator
