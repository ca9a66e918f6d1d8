import X64Emulator.Transfers
import X64Emulator.Lemmas.OpenFiles

/-!
# What the tree keeps

The files of the tree are those that are there and no orphans. `Fades` compares two states of the tree in which no file is new and
no entry is added, and `KeepsTree` says that every file of the tree is as it was.
-/

namespace X64Emulator

open Outcome

namespace File

variable {file file' file'' : File}

/-- The file has lost entries at most, and it may have been marked to go when it is closed. -/
def Fades (file file' : File) : Prop :=
  ∃ es flag, es.Sublist file.entries ∧ (file.deleteAfterClose = true → flag = true) ∧
    file' = { file.withEntries es with deleteAfterClose := flag }

/-- A file with its own entries is itself. -/
theorem withEntries_self : file.withEntries file.entries = file := by
  obtain ⟨refCount, deleteAfterClose, parent, name, kind⟩ := file
  cases kind <;> rfl

/-- The last entries given are those that stay. -/
theorem withEntries_withEntries {es es' : List FileId} {flag : Bool} :
    ({ file.withEntries es with deleteAfterClose := flag } : File).withEntries es' =
      { file.withEntries es' with deleteAfterClose := flag } := by
  obtain ⟨refCount, deleteAfterClose, parent, name, kind⟩ := file
  cases kind <;> rfl

/-- The entries of a file that faded. -/
theorem entries_sublist {es : List FileId} {flag : Bool} (h : es.Sublist file.entries) :
    ({ file.withEntries es with deleteAfterClose := flag } : File).entries.Sublist es := by
  obtain ⟨refCount, deleteAfterClose, parent, name, kind⟩ := file
  cases kind with
  | directory cls entries => exact List.Sublist.refl es
  | _ => exact List.nil_sublist es

theorem Fades.refl (file : File) : file.Fades file :=
  ⟨file.entries, file.deleteAfterClose, List.Sublist.refl _, id, by rw [withEntries_self]⟩

theorem Fades.trans (h : file.Fades file') (h' : file'.Fades file'') : file.Fades file'' := by
  obtain ⟨es, flag, hes, hflag, rfl⟩ := h
  obtain ⟨es', flag', hes', hflag', rfl⟩ := h'
  refine ⟨es', flag', (hes'.trans (entries_sublist hes)).trans hes, fun hfile => hflag' (hflag hfile), ?_⟩
  rw [withEntries_withEntries]

/-- A file that fades and comes back has not changed. -/
theorem Fades.antisymm (h : file.Fades file') (h' : file'.Fades file) : file' = file := by
  obtain ⟨es, flag, hes, hflag, rfl⟩ := h
  obtain ⟨es', flag', hes', hflag', hback⟩ := h'
  rw [withEntries_withEntries] at hback
  have hsame : file.entries.Sublist es' := by
    have hentries : ({ file.withEntries es' with deleteAfterClose := flag' } : File).entries.Sublist es' :=
      entries_sublist ((hes'.trans (entries_sublist hes)).trans hes)
    rw [← hback] at hentries
    exact hentries
  have heq : es = file.entries := by
    refine hes.antisymm ?_
    exact hsame.trans (hes'.trans (entries_sublist hes))
  have hmark : flag = file.deleteAfterClose := by
    have hmarked : file.deleteAfterClose = flag' := by rw [hback]
    cases hf : flag with
    | false =>
      cases hd : file.deleteAfterClose with
      | false => rfl
      | true => exact hf.symm.trans (hflag hd)
    | true => exact (hmarked.trans (hflag' hf)).symm
  rw [heq, hmark, withEntries_self]

end File

namespace FS

variable {fs fs' fs'' : FS} {f d : FileId} {depth : Nat} {path : Path}

/-- The file of a pointer, if it is one of the tree. -/
def node (fs : FS) (f : FileId) : Option File := if f ∈ fs.orphanFiles then none else fs.files.get? f

/-- Every file of the tree is as it was, and none is new. -/
structure KeepsTree (fs fs' : FS) : Prop where
  root : fs'.root = fs.root
  node : ∀ f, fs'.node f = fs.node f

/-- No file of the tree is new, and those that are still there have faded at most. -/
structure Fades (fs fs' : FS) : Prop where
  root : fs'.root = fs.root
  node : ∀ f file', fs'.node f = some file' → ∃ file, fs.node f = some file ∧ file.Fades file'

/-- An orphan is no node. -/
theorem node_of_mem (h : f ∈ fs.orphanFiles) : fs.node f = none := if_pos h

/-- A node is a file that is no orphan. -/
theorem node_eq_some {file : File} : fs.node f = some file ↔ f ∉ fs.orphanFiles ∧ fs.files.get? f = some file := by
  unfold node
  split
  · next h => exact ⟨fun hnone => (by cases hnone), fun hnot => absurd h hnot.1⟩
  · next h => exact ⟨fun hfile => ⟨h, hfile⟩, fun hfile => hfile.2⟩

theorem KeepsTree.refl (fs : FS) : fs.KeepsTree fs := ⟨rfl, fun _ => rfl⟩

theorem KeepsTree.trans (h : fs.KeepsTree fs') (h' : fs'.KeepsTree fs'') : fs.KeepsTree fs'' :=
  ⟨h'.root.trans h.root, fun f => (h'.node f).trans (h.node f)⟩

theorem KeepsTree.symm (h : fs.KeepsTree fs') : fs'.KeepsTree fs := ⟨h.root.symm, fun f => (h.node f).symm⟩

/-- A tree that is kept has faded at most. -/
theorem KeepsTree.fades (h : fs.KeepsTree fs') : fs.Fades fs' :=
  ⟨h.root, fun f file' hfile' => ⟨file', h.node f ▸ hfile', .refl file'⟩⟩

theorem Fades.refl (fs : FS) : fs.Fades fs := (KeepsTree.refl fs).fades

theorem Fades.trans (h : fs.Fades fs') (h' : fs'.Fades fs'') : fs.Fades fs'' := by
  refine ⟨h'.root.trans h.root, ?_⟩
  intro f file'' hfile''
  obtain ⟨file', hfile', hfades'⟩ := h'.node f file'' hfile''
  obtain ⟨file, hfile, hfades⟩ := h.node f file' hfile'
  exact ⟨file, hfile, hfades.trans hfades'⟩

/-- A file that is not in the tree does not come into it. -/
theorem Fades.outside (h : fs.Fades fs') (hf : fs.node f = none) : fs'.node f = none := by
  cases hfile' : fs'.node f with
  | none => rfl
  | some file' =>
    obtain ⟨file, hfile, -⟩ := h.node f file' hfile'
    rw [hf] at hfile
    cases hfile

/-- The tree is kept exactly if it does not even fade. -/
theorem keepsTree_iff (h : fs.Fades fs') : fs.KeepsTree fs' ↔ fs'.Fades fs := by
  constructor
  · exact fun hkeeps => hkeeps.symm.fades
  · intro hback
    refine ⟨h.root, ?_⟩
    intro f
    cases hfile : fs.node f with
    | none => exact h.outside hfile
    | some file =>
      obtain ⟨file', hfile', hfades'⟩ := hback.node f file hfile
      obtain ⟨old, hold, hfades⟩ := h.node f file' hfile'
      obtain rfl := Option.some.inj (hold.symm.trans hfile)
      rw [hfile', hfades.antisymm hfades']

/-! ## Operations on files outside the tree -/

/-- The same files, orphans and root keep the tree. -/
theorem KeepsTree.of_files (hf : fs'.files = fs.files) (ho : fs'.orphanFiles = fs.orphanFiles) (hr : fs'.root = fs.root) :
    fs.KeepsTree fs' := by
  refine ⟨hr, ?_⟩
  intro f
  rw [FS.node, FS.node, hf, ho]

/-- A change outside the tree keeps it. -/
theorem KeepsTree.modifyFile {g : File → File} (hf : fs.node f = none) : fs.KeepsTree (fs.modifyFile f g) := by
  refine ⟨rfl, ?_⟩
  intro q
  show (if q ∈ fs.orphanFiles then none else (fs.modifyFile f g).files.get? q) = fs.node q
  rw [get?_modifyFile]
  by_cases hq : q = f
  · subst hq
    rw [hf, if_pos rfl]
    unfold FS.node at hf
    split at hf
    · next hmem => exact if_pos hmem
    · next hmem => rw [if_neg hmem, hf, Option.map_none]
  · rw [if_neg hq]
    rfl

/-- Removing an orphan keeps the tree. -/
theorem KeepsTree.removeFromOrphans (fs : FS) (f : FileId) : fs.KeepsTree (fs.removeFromOrphans f) := by
  refine ⟨root_removeFromOrphans, ?_⟩
  intro q
  by_cases hf : f ∈ fs.orphanFiles
  · by_cases hq : q = f
    · subst hq
      have hgone : (fs.removeFromOrphans q).files.get? q = none := by
        rw [get?_removeFromOrphans, if_pos ⟨hf, rfl⟩]
      rw [node_of_mem hf, FS.node, hgone]
      split <;> rfl
    · have hmem : q ∈ (fs.removeFromOrphans f).orphanFiles ↔ q ∈ fs.orphanFiles := by
        unfold FS.removeFromOrphans
        rw [if_pos hf]
        simp [hq]
      have hsame : (fs.removeFromOrphans f).files.get? q = fs.files.get? q := by
        rw [get?_removeFromOrphans, if_neg fun h => hq h.2]
      rw [FS.node, FS.node, hsame]
      simp only [hmem]
  · rw [FS.removeFromOrphans, if_neg hf]

/-- A new orphan keeps the tree. -/
theorem KeepsTree.allocOrphan (fs : FS) (file : File) : fs.KeepsTree (fs.allocOrphan file) := by
  refine ⟨rfl, ?_⟩
  intro q
  have hmem : q ∈ (fs.allocOrphan file).orphanFiles ↔ q ∈ fs.orphanFiles ∨ q = fs.files.next := by
    simp [FS.allocOrphan]
  by_cases hq : q = fs.files.next
  · have hnew : fs.node q = none := by
      rw [FS.node, hq, Heap.get?_next]
      split <;> rfl
    rw [hnew, node_of_mem (hmem.2 (.inr hq))]
  · show (if q ∈ (fs.allocOrphan file).orphanFiles then none else (fs.files.alloc file).get? q) = fs.node q
    rw [Heap.get?_alloc_of_ne hq, FS.node]
    simp only [hmem, hq, or_false]

/-- The description refers to a file outside the tree. -/
def RefersOutside (fs : FS) (d : DescriptionId) : Prop := ∀ f, fs.fileOf d = some f → fs.node f = none

/-- The tree and what lets descriptions refer to files outside it are kept. -/
structure Untouched (fs fs' : FS) : Prop extends fs.KeepsTree fs' where
  fileOf : ∀ d, fs'.fileOf d = fs.fileOf d

theorem Untouched.refl (fs : FS) : fs.Untouched fs := ⟨.refl fs, fun _ => rfl⟩

theorem Untouched.trans (h : fs.Untouched fs') (h' : fs'.Untouched fs'') : fs.Untouched fs'' :=
  ⟨h.toKeepsTree.trans h'.toKeepsTree, fun d => (h'.fileOf d).trans (h.fileOf d)⟩

/-- A change outside the tree leaves it untouched. -/
theorem Untouched.modifyFile {g : File → File} (hf : fs.node f = none) : fs.Untouched (fs.modifyFile f g) :=
  ⟨.modifyFile hf, fun _ => rfl⟩

/-- A change of a pipe leaves the tree untouched. -/
theorem Untouched.modifyPipe (fs : FS) (p : PipeId) (g : Pipe → Pipe) : fs.Untouched (fs.modifyPipe p g) :=
  ⟨.of_files rfl rfl rfl, fun _ => rfl⟩

/-- A description keeps its file. -/
theorem fileOf_modifyDescription {g : OpenFileDescription → OpenFileDescription} (hg : ∀ ofd, (g ofd).file = ofd.file)
    (q : DescriptionId) : (fs.modifyDescription d g).fileOf q = fs.fileOf q := by
  unfold fileOf modifyDescription
  by_cases hq : q = d
  · subst hq
    rw [Heap.get?_modify_self, Option.map_map]
    exact congrFun (congrArg Option.map (funext hg)) _
  · rw [Heap.get?_modify_of_ne hq]

/-- A change of a description leaves the tree untouched. -/
theorem Untouched.modifyDescription {g : OpenFileDescription → OpenFileDescription} (hg : ∀ ofd, (g ofd).file = ofd.file) :
    fs.Untouched (fs.modifyDescription d g) :=
  ⟨.of_files rfl rfl rfl, fun q => fileOf_modifyDescription hg q⟩

/-- What refers outside an untouched tree still does. -/
theorem Untouched.refersOutside {d : DescriptionId} (h : fs.Untouched fs') (hd : fs.RefersOutside d) : fs'.RefersOutside d := by
  intro f hf
  rw [h.fileOf] at hf
  rw [h.node]
  exact hd f hf

section Transfers

variable {host : HostFiles} {ofd : OpenFileDescription} {count : Nat} {buf : List UInt8} {result : ReadResult}

/-- The file of a description that refers outside. -/
theorem outside_of_get? (h : fs.descriptions.get? d = some ofd) (hd : fs.RefersOutside d) : fs.node ofd.file = none := by
  refine hd ofd.file ?_
  rw [fileOf, h]
  rfl

/-- Reading a file outside the tree. -/
theorem readFile_untouched (h : fs.readFile host ofd count = .ok (fs', result)) (hf : fs.node ofd.file = none) :
    fs.Untouched fs' := by
  obtain ⟨file, -, ⟨p, side, -, hread⟩ | ⟨-, -, rfl⟩ | ⟨counter, -, -, rfl⟩⟩ := readFile_cases h
  · obtain ⟨pipe, -, ⟨-, -, -, rfl⟩ | ⟨-, -, -, rfl⟩ | ⟨-, -, rfl⟩⟩ := readPipe_cases hread
    · exact .refl _
    · exact .refl _
    · exact .modifyPipe _ _ _
  · exact .refl _
  · exact .modifyFile hf

/-- `read` of a file outside the tree. -/
theorem read_untouched (hd : fs.RefersOutside d) (h : fs.read host d count = .ok (fs', result)) : fs.Untouched fs' := by
  obtain ⟨ofd, fs1, hofd, hread, ⟨data, -, rfl⟩ | ⟨-, rfl⟩⟩ := read_cases h
  · exact (readFile_untouched hread (outside_of_get? hofd hd)).trans (.modifyDescription fun _ => rfl)
  · exact readFile_untouched hread (outside_of_get? hofd hd)

/-- `pread` of a file outside the tree. -/
theorem pread_untouched {offset : Int} (hd : fs.RefersOutside d) (h : fs.pread host d count offset = .ok (fs', result)) :
    fs.Untouched fs' := by
  obtain ⟨ofd, hofd, hread, -⟩ := pread_cases h
  have hnode := outside_of_get? hofd hd
  exact readFile_untouched hread hnode

/-- Writing a file outside the tree. -/
theorem writeFile_untouched {offset n : Int} (h : fs.writeFile host ofd buf = .ok (fs', offset, n))
    (hf : fs.node ofd.file = none) : fs.Untouched fs' := by
  obtain ⟨file, -, ⟨p, side, -, -, -, rfl⟩ | ⟨-, rfl | ⟨kind, -, rfl⟩⟩⟩ := writeFile_cases h
  · exact .modifyPipe _ _ _
  · exact .refl _
  · exact .modifyFile hf

/-- `write` to a file outside the tree. -/
theorem write_untouched {n : Int} (hd : fs.RefersOutside d) (h : fs.write host d buf = .ok (fs', n)) : fs.Untouched fs' := by
  obtain ⟨ofd, file, hofd, -, ⟨-, -, rfl⟩ | ⟨-, fs1, offset, nbytes, newoffset, hwrite, -, -, rfl⟩⟩ := write_cases h
  · exact .refl _
  · exact (writeFile_untouched hwrite (outside_of_get? hofd hd)).trans (.modifyDescription fun _ => rfl)

/-- `pwrite` to a file outside the tree. -/
theorem pwrite_untouched {offset n : Int} (hd : fs.RefersOutside d) (h : fs.pwrite host d buf offset = .ok (fs', n)) :
    fs.Untouched fs' := by
  obtain ⟨ofd, file, hofd, -, ⟨-, -, rfl⟩ | ⟨-, after, hwrite⟩⟩ := pwrite_cases h
  · exact .refl _
  · have hnode := outside_of_get? hofd hd
    exact writeFile_untouched hwrite hnode

/-- `lseek` leaves every tree untouched. -/
theorem lseek_untouched {offset n : Int} {whence : Whence} (h : fs.lseek host d offset whence = .ok (fs', n)) :
    fs.Untouched fs' := by
  obtain ⟨ofd, -, -, ⟨-, rfl⟩ | ⟨-, rfl⟩⟩ := lseek_cases h
  · exact .refl _
  · exact .modifyDescription fun _ => rfl

/-- `ftruncate` of a file outside the tree. -/
theorem ftruncate_untouched {length n : Int} (hd : fs.RefersOutside d) (h : fs.ftruncate d length = .ok (fs', n)) :
    fs.Untouched fs' := by
  obtain ⟨ofd, file, data, hofd, -, -, -, -, rfl⟩ := ftruncate_cases h
  exact .modifyFile (outside_of_get? hofd hd)

/-- A flag of a description leaves the tree untouched. -/
theorem setNonBlocking_untouched {nonBlocking : Bool} (h : fs.setNonBlocking d nonBlocking = .ok fs') : fs.Untouched fs' := by
  obtain ⟨-, rfl⟩ := setNonBlocking_eq_ok h
  exact .modifyDescription fun _ => rfl

/-- A write and the offset it leaves. -/
theorem writeDescription_cases {n : Int} (h : fs.writeDescription host d buf = .ok (fs', n)) :
    ∃ ofd fs1 offset nbytes newoffset, fs.descriptions.get? d = some ofd ∧ fs.writeFile host ofd buf = .ok (fs1, offset, nbytes) ∧
      fs' = fs1.modifyDescription d fun ofd => { ofd with offset := newoffset } := by
  obtain ⟨ofd, hofd, h⟩ := bind_eq_ok.1 h
  obtain ⟨⟨fs1, offset, nbytes⟩, hwrite, h⟩ := bind_eq_ok.1 h
  dsimp only at h
  split at h
  · exact ⟨ofd, fs1, offset, nbytes, offset, description_eq_ok.1 hofd, hwrite, (ok_pair h).1.symm⟩
  · obtain ⟨_, -, h⟩ := bind_eq_ok.1 h
    exact ⟨ofd, fs1, offset, nbytes, offset + nbytes, description_eq_ok.1 hofd, hwrite, (ok_pair h).1.symm⟩

/-- A write through a description that refers outside. -/
theorem writeDescription_untouched {n : Int} (hd : fs.RefersOutside d) (h : fs.writeDescription host d buf = .ok (fs', n)) :
    fs.Untouched fs' := by
  obtain ⟨ofd, fs1, offset, nbytes, newoffset, hofd, hwrite, rfl⟩ := writeDescription_cases h
  exact (writeFile_untouched hwrite (outside_of_get? hofd hd)).trans (.modifyDescription fun _ => rfl)

/-- What one buffer of a call with several keeps, the call keeps. -/
theorem readBuffers_keeps {I : FS → Prop} (hread : ∀ fs fs' count result, I fs → fs.read host d count = .ok (fs', result) → I fs')
    {buffers buffers' : List (List UInt8)} {nbytes n : Int} (hI : I fs)
    (h : readBuffers host d buffers fs nbytes = .ok (fs', n, buffers')) : I fs' := by
  induction buffers generalizing fs fs' nbytes n buffers' with
  | nil => exact (ok_pair h).1 ▸ hI
  | cons buf rest ih =>
    obtain ⟨⟨fs1, ret, buf'⟩, hbuffer, h⟩ := bind_eq_ok.1 h
    have hI1 : I fs1 := by
      obtain ⟨⟨fs2, result⟩, hbytes, hbuffer⟩ := bind_eq_ok.1 hbuffer
      have hI2 := hread fs fs2 buf.length result hI hbytes
      cases result with
      | blocked => cases hbuffer
      | error errno => exact (ok_pair hbuffer).1 ▸ hI2
      | bytes data =>
        obtain ⟨_, -, hbuffer⟩ := bind_eq_ok.1 hbuffer
        exact (ok_pair hbuffer).1 ▸ hI2
    dsimp only at h
    split at h
    · exact (ok_pair h).1 ▸ hI1
    · obtain ⟨⟨fs2, n', rest'⟩, hrest, h⟩ := bind_eq_ok.1 h
      exact (ok_pair h).1 ▸ ih hI1 hrest

/-- What each write keeps is kept by all. -/
theorem writeBuffers_keeps {I : FS → Prop}
    (hwrite : ∀ fs fs' buf n, I fs → fs.writeDescription host d buf = .ok (fs', n) → I fs') {buffers : List (List UInt8)}
    {nbytes n : Int} (hI : I fs) (h : writeBuffers host d buffers fs nbytes = .ok (fs', n)) : I fs' := by
  induction buffers generalizing fs nbytes with
  | nil => exact (ok_pair h).1 ▸ hI
  | cons buf rest ih =>
    obtain ⟨⟨fs1, ret⟩, hbuffer, h⟩ := bind_eq_ok.1 h
    have hI1 := hwrite fs fs1 buf ret hI hbuffer
    dsimp only at h
    split at h
    · exact (ok_pair h).1 ▸ hI1
    · exact ih hI1 h

/-- What reads and writes keep, the six calls keep. -/
theorem transfer_keeps {I : FS → Prop} {t : Transfer} {answer : TransferAnswer}
    (hread : ∀ fs fs' count result, I fs → fs.read host d count = .ok (fs', result) → I fs')
    (hpread : ∀ fs fs' count offset result, I fs → fs.pread host d count offset = .ok (fs', result) → I fs')
    (hwrite : ∀ fs fs' buf n, I fs → fs.write host d buf = .ok (fs', n) → I fs')
    (hpwrite : ∀ fs fs' buf offset n, I fs → fs.pwrite host d buf offset = .ok (fs', n) → I fs')
    (hbuffer : ∀ fs fs' buf n, I fs → fs.writeDescription host d buf = .ok (fs', n) → I fs') (hI : I fs)
    (h : fs.transfer host d t = .ok (fs', answer)) : I fs' := by
  cases t with
  | read count =>
    obtain ⟨⟨fs1, result⟩, hcall, h⟩ := bind_eq_ok.1 h
    exact (ok_pair h).1 ▸ hread fs fs1 count result hI hcall
  | pread count offset =>
    obtain ⟨⟨fs1, result⟩, hcall, h⟩ := bind_eq_ok.1 h
    exact (ok_pair h).1 ▸ hpread fs fs1 count offset result hI hcall
  | readv buffers =>
    obtain ⟨⟨fs1, n, buffers'⟩, hcall, h⟩ := bind_eq_ok.1 h
    obtain rfl := (ok_pair h).1
    obtain ⟨ofd, -, hcall⟩ := bind_eq_ok.1 hcall
    obtain ⟨file, -, hcall⟩ := bind_eq_ok.1 hcall
    obtain ⟨readable, -, hcall⟩ := bind_eq_ok.1 hcall
    split at hcall
    · exact readBuffers_keeps hread hI hcall
    · exact (ok_pair hcall).1 ▸ hI
  | write buf =>
    obtain ⟨⟨fs1, n⟩, hcall, h⟩ := bind_eq_ok.1 h
    exact (ok_pair h).1 ▸ hwrite fs fs1 buf n hI hcall
  | pwrite buf offset =>
    obtain ⟨⟨fs1, n⟩, hcall, h⟩ := bind_eq_ok.1 h
    exact (ok_pair h).1 ▸ hpwrite fs fs1 buf offset n hI hcall
  | writev buffers =>
    obtain ⟨⟨fs1, n⟩, hcall, h⟩ := bind_eq_ok.1 h
    obtain rfl := (ok_pair h).1
    obtain ⟨ofd, -, hcall⟩ := bind_eq_ok.1 hcall
    obtain ⟨file, -, hcall⟩ := bind_eq_ok.1 hcall
    obtain ⟨writable, -, hcall⟩ := bind_eq_ok.1 hcall
    split at hcall
    · exact writeBuffers_keeps hbuffer hI hcall
    · exact (ok_pair hcall).1 ▸ hI

/-- A transfer through a description of a file outside the tree leaves the tree as it is. -/
theorem transfer_untouched {t : Transfer} {answer : TransferAnswer} (hd : fs.RefersOutside d)
    (h : fs.transfer host d t = .ok (fs', answer)) : fs.Untouched fs' := by
  refine transfer_keeps (I := fun fs1 => fs.Untouched fs1) ?_ ?_ ?_ ?_ ?_ (.refl fs) h
  · intro fs1 fs2 count result h1 hcall
    exact h1.trans (read_untouched (h1.refersOutside hd) hcall)
  · intro fs1 fs2 count offset result h1 hcall
    exact h1.trans (pread_untouched (h1.refersOutside hd) hcall)
  · intro fs1 fs2 buf n h1 hcall
    exact h1.trans (write_untouched (h1.refersOutside hd) hcall)
  · intro fs1 fs2 buf offset n h1 hcall
    exact h1.trans (pwrite_untouched (h1.refersOutside hd) hcall)
  · intro fs1 fs2 buf n h1 hcall
    exact h1.trans (writeDescription_untouched (h1.refersOutside hd) hcall)

/-- A transfer through any description keeps the shape of the tree. -/
theorem Tree.transfer {t : Transfer} {answer : TransferAnswer} (ht : fs.Tree) (h : fs.transfer host d t = .ok (fs', answer)) :
    fs'.Tree := by
  refine transfer_keeps (I := FS.Tree) ?_ ?_ ?_ ?_ ?_ ht h
  · intro fs1 fs2 count result ht1 hcall
    exact ht1.changes (read_silents (φ := fun _ _ _ => True) (δ := fun _ _ => True) (μ := True) trivial hcall).changes
  · intro fs1 fs2 count offset result ht1 hcall
    obtain ⟨ofd, -, hcall, -⟩ := pread_cases hcall
    exact ht1.changes (readFile_silents (φ := fun _ _ _ => True) (δ := fun _ _ => True) (μ := True) trivial hcall).changes
  · intro fs1 fs2 buf n ht1 hcall
    exact ht1.changes (write_silents (φ := fun _ _ _ => True) (δ := fun _ _ => True) (μ := True) trivial hcall).changes
  · intro fs1 fs2 buf offset n ht1 hcall
    exact ht1.changes (pwrite_silents (φ := fun _ _ _ => True) (δ := fun _ _ => True) (μ := True) trivial hcall).changes
  · intro fs1 fs2 buf n ht1 hcall
    obtain ⟨ofd, fs3, offset, nbytes, newoffset, -, hwrite, rfl⟩ := writeDescription_cases hcall
    have ht3 : fs3.Tree :=
      ht1.changes (writeFile_silents (φ := fun _ _ _ => True) (δ := fun _ _ => True) (μ := True) trivial hwrite).changes
    have hsame : fs3.SameTree (fs3.modifyDescription d fun ofd => { ofd with offset := newoffset }) := .of_files rfl rfl rfl
    exact hsame.tree ht3

end Transfers

/-! ## Unlinking and closing -/

/-- A lookup finds the root or an entry, if links lead to such files. -/
theorem lookupIn_keeps {P : FileId → Prop} (hroot : P fs.root) (hentry : ∀ d e, e ∈ fs.entries d → P e)
    {resolve : Str → Except FsFailure (Option FileId)} {follow : FollowSymlink} (hr : ∀ link g, resolve link = .ok (some g) → P g)
    (h : fs.lookupIn resolve path follow = .ok (some f)) : P f := by
  rcases lookupIn_eq_some.1 h with ⟨-, rfl⟩ | ⟨last, dir, entry, file, -, -, hfound, -, ⟨link, -, -, hlink⟩ | ⟨-, rfl⟩⟩
  · exact hroot
  · exact hr link f hlink
  · exact hentry dir _ (tryGetEntry_some hfound).1

/-- What holds of the root and passes to entries holds of what a link resolves to. -/
theorem resolveSymlink_keeps {P : FileId → Prop} (hroot : P fs.root) (hentry : ∀ d e, e ∈ fs.entries d → P e) {link : Str}
    (h : fs.resolveSymlink depth link = .ok (some f)) : P f := by
  induction depth generalizing link f with
  | zero => cases h
  | succ depth ih =>
    rw [resolveSymlink] at h
    split at h
    · cases h
    · obtain ⟨target, -, h⟩ := bind_eq_ok.1 h
      exact lookupIn_keeps hroot hentry (fun link g hg => ih hg) h

/-- What holds of the root and of every entry holds of what a lookup finds. -/
theorem tryGetFile_keeps {P : FileId → Prop} (hroot : P fs.root) (hentry : ∀ d e, e ∈ fs.entries d → P e) {follow : FollowSymlink}
    (h : fs.tryGetFile depth path follow = .ok (some f)) : P f :=
  lookupIn_keeps hroot hentry (fun _ _ hg => resolveSymlink_keeps hroot hentry hg) h

/-- A path leads to no orphan. -/
theorem Tree.tryGetFile_inside (ht : fs.Tree) {follow : FollowSymlink} (h : fs.tryGetFile depth path follow = .ok (some f)) :
    f ∉ fs.orphanFiles :=
  tryGetFile_keeps (P := fun f => f ∉ fs.orphanFiles) ht.rootOrphan (fun d e he ho => ht.orphan e ho d he) h

/-- A path leads to a file that exists. -/
theorem Tree.tryGetFile_live (ht : fs.Tree) {follow : FollowSymlink} (h : fs.tryGetFile depth path follow = .ok (some f)) :
    fs.files.Live f :=
  tryGetFile_keeps (P := fs.files.Live) ht.rootDir.live ht.live h

/-- Unlinking the path changes nothing in the tree: nothing is there, or it is open and goes anyway once it is closed, or it is
there through a link of a directory only. -/
def Unlisted (fs : FS) (depth : Nat) (path : Path) : Prop :=
  ∀ g gfile, fs.tryGetFile depth path .YES = .ok (some g) → fs.files.get? g = some gfile →
    if gfile.refCount = 0 then ∀ e, ¬ fs.EntryAt path e else gfile.deleteAfterClose = true

/-- Unlinking takes from the tree at most. -/
theorem unlink_fades {n : Int} (h : fs.unlink depth path = .ok (fs', n)) : fs.Fades fs' := by
  rcases unlink_cases h with ⟨-, -, rfl⟩ | ⟨g, gfile, -, -, -, ⟨-, rfl⟩ | ⟨-, rfl⟩ | ⟨-, fs1, taken, htake, rfl⟩⟩
  · exact .refl _
  · refine ⟨rfl, ?_⟩
    intro f file' hfile'
    obtain ⟨hmem, hfile'⟩ := node_eq_some.1 hfile'
    rw [get?_modifyFile] at hfile'
    split at hfile'
    · obtain ⟨file, hfile, rfl⟩ := Option.map_eq_some_iff.1 hfile'
      exact ⟨file, node_eq_some.2 ⟨hmem, hfile⟩, file.entries, true, List.Sublist.refl _, fun _ => rfl, by rw [File.withEntries_self]⟩
    · exact ⟨file', node_eq_some.2 ⟨hmem, hfile'⟩, .refl file'⟩
  · exact .refl _
  · obtain ⟨-, dir, name, -, -, -, -, rfl⟩ := tryTakeFile_entryAt htake
    refine ⟨rfl, ?_⟩
    intro f file' hfile'
    obtain ⟨hmem, hfile'⟩ := node_eq_some.1 hfile'
    rw [get?_destroy] at hfile'
    split at hfile'
    · cases hfile'
    · rw [without, get?_modifyFile] at hfile'
      split at hfile'
      · obtain ⟨file, hfile, rfl⟩ := Option.map_eq_some_iff.1 hfile'
        refine ⟨file, node_eq_some.2 ⟨hmem, hfile⟩, file.entries.erase taken, file.deleteAfterClose, List.erase_sublist, id, ?_⟩
        obtain ⟨refCount, deleteAfterClose, parent, name, kind⟩ := file
        cases kind <;> rfl
      · exact ⟨file', node_eq_some.2 ⟨hmem, hfile'⟩, .refl file'⟩

/-- A file is doomed with itself. -/
theorem mem_doomed_self (fs : FS) (f : FileId) : f ∈ fs.doomed f := by
  unfold doomed
  cases fs.files.next with
  | zero => exact List.mem_singleton_self f
  | succ n => exact List.mem_cons_self

/-- A file that is there without descriptors has its entry taken out and is destroyed, if directories alone lead to an entry. -/
theorem unlink_unused {g : FileId} {gfile : File} {n : Int} (hg : fs.tryGetFile depth path .YES = .ok (some g))
    (hgfile : fs.files.get? g = some gfile) (hzero : gfile.refCount = 0) (h : fs.unlink depth path = .ok (fs', n)) :
    (fs' = fs ∧ ∀ e, ¬ fs.EntryAt path e) ∨
      ∃ fs1 taken, fs.tryTakeFile path = .ok (fs1, some taken) ∧ fs' = fs1.destroy taken := by
  obtain ⟨found, hfound, h⟩ := bind_eq_ok.1 h
  obtain rfl := Except.ok.inj (hfound.symm.trans hg)
  obtain ⟨file, hfile, h⟩ := bind_eq_ok.1 h
  obtain rfl := Option.some.inj ((file_eq_ok.1 hfile).symm.trans hgfile)
  rw [if_neg (by omega)] at h
  obtain ⟨⟨fs1, r⟩, htake, h⟩ := bind_eq_ok.1 h
  cases r with
  | some taken => exact .inr ⟨fs1, taken, htake, (ok_pair h).1.symm⟩
  | none =>
    have hsame : fs1 = fs' := (ok_pair h).1
    refine .inl ⟨hsame.symm.trans (tryTakeFile_none htake), ?_⟩
    rintro e ⟨dir, name, hwalk, hname, hentry⟩
    obtain ⟨dir', hdir', htake⟩ := bind_eq_ok.1 htake
    obtain rfl := Except.ok.inj (hdir'.symm.trans hwalk)
    obtain ⟨name', hname', htake⟩ := bind_eq_ok.1 htake
    obtain rfl := Option.some.inj ((Path.last_eq_ok.1 hname').symm.trans hname)
    obtain ⟨entry', hentry', htake⟩ := bind_eq_ok.1 htake
    obtain rfl := Except.ok.inj (hentry'.symm.trans hentry)
    cases (ok_pair htake).2

/-- Exactly when unlinking changes nothing in the tree. -/
theorem unlink_keepsTree_iff (ht : fs.Tree) {n : Int} (h : fs.unlink depth path = .ok (fs', n)) :
    fs.KeepsTree fs' ↔ fs.Unlisted depth path := by
  rcases unlink_cases h with ⟨hnone, -, rfl⟩ | ⟨g, gfile, hg, hgfile, -, hrest⟩
  · refine ⟨?_, fun _ => .refl _⟩
    intro _ g gfile hg
    rw [hnone] at hg
    cases hg
  · have hiff : fs.Unlisted depth path ↔ if gfile.refCount = 0 then ∀ e, ¬ fs.EntryAt path e else gfile.deleteAfterClose = true := by
      refine ⟨fun hun => hun g gfile hg hgfile, ?_⟩
      intro hfound g' gfile' hg' hgfile'
      obtain rfl := Option.some.inj (Except.ok.inj (hg'.symm.trans hg))
      obtain rfl := Option.some.inj (hgfile'.symm.trans hgfile)
      exact hfound
    rw [hiff]
    have hnode : fs.node g = some gfile := node_eq_some.2 ⟨ht.tryGetFile_inside hg, hgfile⟩
    by_cases hzero : gfile.refCount = 0
    · rw [if_pos hzero]
      rcases unlink_unused hg hgfile hzero h with ⟨rfl, hno⟩ | ⟨fs1, taken, htake, rfl⟩
      · exact ⟨fun _ => hno, fun _ => .refl _⟩
      · -- the entry that is taken out was in the tree, and it is destroyed
        obtain ⟨hat, dir, name, -, -, hmem, -, rfl⟩ := tryTakeFile_entryAt htake
        refine ⟨?_, fun hno => absurd hat (hno taken)⟩
        intro hkeeps
        obtain ⟨file, hfile⟩ := ht.live dir taken hmem
        have hbefore : fs.node taken = some file := node_eq_some.2 ⟨fun ho => ht.orphan taken ho dir hmem, hfile⟩
        rw [← hkeeps.node taken] at hbefore
        have hgone := (node_eq_some.1 hbefore).2
        rw [get?_destroy, if_pos (mem_doomed_self _ _)] at hgone
        cases hgone
    · rw [if_neg hzero]
      rcases hrest with ⟨-, rfl⟩ | ⟨hz, -⟩ | ⟨hz, -⟩
      · constructor
        · intro hkeeps
          have hafter := hkeeps.node g
          rw [hnode, node_eq_some, get?_modifyFile, if_pos rfl, hgfile] at hafter
          rw [← Option.some.inj hafter.2]
        · intro hflag
          refine ⟨rfl, ?_⟩
          intro f
          show (if f ∈ fs.orphanFiles then none else (fs.modifyFile g _).files.get? f) = fs.node f
          rw [get?_modifyFile, node]
          by_cases hf : f = g
          · subst hf
            have hsame : ({ gfile with deleteAfterClose := true } : File) = gfile := by rw [← hflag]
            rw [if_pos rfl, hgfile, Option.map_some, hsame]
          · rw [if_neg hf]
      · exact absurd hz hzero
      · exact absurd hz hzero

/-- The same tree unlists the same paths. -/
theorem Unlisted.same (h : fs.Unlisted depth path) (ht : fs.Tree) (hsame : fs.SameTree fs') (hkeeps : fs.KeepsTree fs') :
    fs'.Unlisted depth path := by
  intro g gfile hg hgfile
  have hnode : fs'.node g = some gfile := node_eq_some.2 ⟨(hsame.tree ht).tryGetFile_inside hg, hgfile⟩
  rw [hkeeps.node g] at hnode
  have hbefore := h g gfile (hsame.symm.grows.tryGetFile hg) (node_eq_some.1 hnode).2
  split
  · next hzero =>
    rw [if_pos hzero] at hbefore
    intro e he
    exact hbefore e (hsame.symm.grows.entryAt he)
  · next hzero =>
    rw [if_neg hzero] at hbefore
    exact hbefore

/-- Where closing a descriptor is the last use of its file, and the file goes then, its path leads to nothing in the tree that
goes too. -/
def ClosesQuietly (fs : FS) (depth : Nat) (d : DescriptionId) : Prop :=
  ∀ f file path, fs.fileOf d = some f → fs.files.get? f = some file → file.refCount = 1 →
    (!file.keepAfterClose || file.deleteAfterClose) = true → fs.path f = .ok path → fs.Unlisted depth path

/-- Closing a file outside the tree keeps it. -/
theorem closeFile_keepsTree (hf : fs.node f = none) (h : fs.closeFile f = .ok fs') : fs.KeepsTree fs' := by
  obtain ⟨file, -, ⟨-, rfl | ⟨cls, cls', entries, -, rfl⟩⟩ | ⟨p, side, -, -, rfl⟩⟩ := closeFile_cases h
  · exact .refl _
  · exact .modifyFile hf
  · exact .of_files rfl rfl rfl

/-- Closing a descriptor of a file outside the tree takes things out of the tree at most, and leaves all of it exactly if the
path of the file leads to nothing that goes too. -/
theorem close_fades (ht : fs.Tree) {descriptor : FileDescriptor} (hd : fs.RefersOutside descriptor.openFileDescription)
    (h : fs.close depth descriptor = .ok fs') :
    fs.Fades fs' ∧ (fs.KeepsTree fs' ↔ fs.ClosesQuietly depth descriptor.openFileDescription) := by
  obtain ⟨ofd, fs1, file1, hofd, hunref, hfile1, hrest⟩ := close_cases h
  have hfileOf : fs.fileOf descriptor.openFileDescription = some ofd.file := by
    rw [fileOf, hofd]
    rfl
  have hf : fs.node ofd.file = none := hd ofd.file hfileOf
  obtain ⟨file, hfile, hpos, rfl⟩ := unref_eq_ok hunref
  have hkeeps1 : fs.KeepsTree (fs.modifyFile ofd.file fun file => { file with refCount := file.refCount - 1 }) := .modifyFile hf
  have hsame1 : fs.SameTree (fs.modifyFile ofd.file fun file => { file with refCount := file.refCount - 1 }) :=
    SameTree.count (k := (· - 1))
  rw [get?_modifyFile, if_pos rfl, hfile] at hfile1
  obtain rfl := Option.some.inj hfile1
  rcases hrest with ⟨hzero, hlast⟩ | ⟨hne, rfl⟩
  · have hone : file.refCount = 1 := by
      have : file.refCount - 1 = 0 := hzero
      omega
    obtain ⟨fs2, file2, hclose, hfile2, hrest⟩ := lastClose_cases hlast
    have hkeeps2 := hkeeps1.trans (closeFile_keepsTree ((hkeeps1.node _).trans hf) hclose)
    have hsame2 := hsame1.trans (closeFile_sameTree hclose)
    obtain ⟨file2', hfile2', -, hkept, hflag⟩ := closeFile_kept hclose (q := ofd.file)
      (by rw [get?_modifyFile, if_pos rfl, hfile]; rfl)
    obtain rfl := Option.some.inj (hfile2'.symm.trans hfile2)
    rw [hkept, hflag] at hrest
    rcases hrest with ⟨hstays, rfl⟩ | ⟨hgoes, path, fs3, n, hpath, hunlink, rfl⟩
    · refine ⟨hkeeps2.fades, fun _ => ?_, fun _ => hkeeps2⟩
      intro f' file' path' hf' hfile' _ hgoes _
      obtain rfl := Option.some.inj (hf'.symm.trans hfileOf)
      obtain rfl := Option.some.inj (hfile'.symm.trans hfile)
      have hstays : (!file'.keepAfterClose || file'.deleteAfterClose) = false := hstays
      rw [hstays] at hgoes
      cases hgoes
    · have hremoved := KeepsTree.removeFromOrphans fs3 ofd.file
      refine ⟨hkeeps2.fades.trans ((unlink_fades hunlink).trans hremoved.fades), ?_⟩
      have hpath0 : fs.path ofd.file = .ok path := hsame2.symm.path hpath
      have hquiet : fs.ClosesQuietly depth descriptor.openFileDescription ↔ fs2.Unlisted depth path := by
        constructor
        · intro hq
          exact (hq ofd.file file path hfileOf hfile hone hgoes hpath0).same ht hsame2 hkeeps2
        · intro hun f' file' path' hf' _ _ _ hpath'
          obtain rfl := Option.some.inj (hf'.symm.trans hfileOf)
          obtain rfl := Except.ok.inj (hpath'.symm.trans hpath0)
          exact hun.same (hsame2.tree ht) hsame2.symm hkeeps2.symm
      rw [hquiet, ← unlink_keepsTree_iff (hsame2.tree ht) hunlink]
      constructor
      · intro hkeeps
        exact hkeeps2.symm.trans (hkeeps.trans hremoved.symm)
      · intro hkeeps
        exact hkeeps2.trans (hkeeps.trans hremoved)
  · refine ⟨hkeeps1.fades, fun _ => ?_, fun _ => hkeeps1⟩
    intro f' file' path' hf' hfile' hone' _ _
    obtain rfl := Option.some.inj (hf'.symm.trans hfileOf)
    obtain rfl := Option.some.inj (hfile'.symm.trans hfile)
    have hne : file'.refCount - 1 ≠ 0 := hne
    omega

/-- Closing a file leaves the descriptions. -/
theorem closeFile_descriptions (h : fs.closeFile f = .ok fs') : fs'.descriptions = fs.descriptions := by
  obtain ⟨file, -, ⟨-, rfl | ⟨cls, cls', entries, -, rfl⟩⟩ | ⟨p, side, -, -, rfl⟩⟩ := closeFile_cases h
  · rfl
  · rfl
  · rfl

/-- Unlinking leaves the descriptions. -/
theorem unlink_descriptions {n : Int} (h : fs.unlink depth path = .ok (fs', n)) : fs'.descriptions = fs.descriptions := by
  rcases unlink_cases h with ⟨-, -, rfl⟩ | ⟨g, gfile, -, -, -, ⟨-, rfl⟩ | ⟨-, rfl⟩ | ⟨-, fs1, taken, htake, rfl⟩⟩
  · rfl
  · rfl
  · rfl
  · obtain ⟨-, dir, name, -, -, -, -, rfl⟩ := tryTakeFile_entryAt htake
    rfl

/-- Closing a descriptor leaves the descriptions. -/
theorem close_descriptions {descriptor : FileDescriptor} (h : fs.close depth descriptor = .ok fs') :
    fs'.descriptions = fs.descriptions := by
  obtain ⟨ofd, fs1, file1, -, hunref, -, hrest⟩ := close_cases h
  obtain ⟨file, -, -, rfl⟩ := unref_eq_ok hunref
  rcases hrest with ⟨-, hlast⟩ | ⟨-, rfl⟩
  · obtain ⟨fs2, file2, hclose, -, ⟨-, rfl⟩ | ⟨-, path, fs3, n, -, hunlink, rfl⟩⟩ := lastClose_cases hlast
    · have hclosed := closeFile_descriptions hclose
      exact hclosed
    · have hclosed := closeFile_descriptions hclose
      exact (removeFromOrphans_frame fs3 ofd.file).1.trans ((unlink_descriptions hunlink).trans hclosed)
  · rfl

/-- A description of a file outside the tree still refers to one when a descriptor was closed. -/
theorem RefersOutside.close {d : DescriptionId} {descriptor : FileDescriptor} (hd : fs.RefersOutside d) (hfades : fs.Fades fs')
    (h : fs.close depth descriptor = .ok fs') : fs'.RefersOutside d := by
  intro f hf
  rw [fileOf, close_descriptions h] at hf
  exact hfades.outside (hd f hf)

end FS

end X64Emulator
