import X64Emulator.Lemmas.FileRuns
import X64Emulator.Transfers

/-!
# Access modes

A transfer through a descriptor should be refused when the descriptor was not opened for it. The calls look at the file only,
and those that read into one buffer do not look at anything.
-/

namespace X64Emulator

open Outcome

namespace Transfer

/-- The answer of a transfer that is refused: the error number, and the buffers as they were. -/
def refused : Transfer → TransferAnswer
  | .read _ | .pread _ _ => .read (.error (-EBADF))
  | .readv buffers => .count (-EBADF) buffers
  | .write buf | .pwrite buf _ => .count (-EBADF) [buf]
  | .writev buffers => .count (-EBADF) buffers

/-- The descriptor was opened for the transfer; reading needs a file that can be read as well. -/
def Permitted (t : Transfer) (ofd : OpenFileDescription) (file : File) : Prop :=
  match t with
  | .read _ | .pread _ _ | .readv _ => ofd.accessMode.read = true ∧ file.isReadable = .ok true
  | .write _ | .pwrite _ _ | .writev _ => ofd.accessMode.write = true

/-- The call looks at the file, and the file refuses. -/
def Checked (t : Transfer) (file : File) : Prop :=
  match t with
  | .read _ | .pread _ _ => False
  | .readv _ => file.isReadable = .ok false
  | .write _ | .pwrite _ _ | .writev _ => file.isWritable = .ok false

end Transfer

namespace FS

variable {fs fs' : FS} {host : HostFiles} {d : DescriptionId} {ofd : OpenFileDescription} {file : File} {count : Nat}
  {buf : List UInt8} {buffers buffers' : List (List UInt8)} {result : ReadResult} {t : Transfer}

/-- Whatever the host answers, a transfer that the descriptor was not opened for is refused, and nothing changes. -/
def Enforces (fs : FS) (d : DescriptionId) (t : Transfer) (ofd : OpenFileDescription) (file : File) : Prop :=
  ¬ t.Permitted ofd file → ∀ host, fs.transfer host d t = .ok (fs, t.refused)

/-! ## What refuses -/

theorem transfer_of_checked (hd : fs.descriptions.get? d = some ofd) (hfile : fs.files.get? ofd.file = some file)
    (h : t.Checked file) : fs.transfer host d t = .ok (fs, t.refused) := by
  cases t with
  | read count => exact h.elim
  | pread count offset => exact h.elim
  | readv buffers =>
    have hrefused : fs.readv host d buffers = .ok (fs, -EBADF, buffers) :=
      bind_eq_ok.2 ⟨ofd, description_eq_ok.2 hd, bind_eq_ok.2 ⟨file, file_eq_ok.2 hfile, bind_eq_ok.2 ⟨false, h, rfl⟩⟩⟩
    exact bind_eq_ok.2 ⟨_, hrefused, rfl⟩
  | write buf =>
    have hrefused : fs.write host d buf = .ok (fs, -EBADF) :=
      bind_eq_ok.2 ⟨ofd, description_eq_ok.2 hd, bind_eq_ok.2 ⟨file, file_eq_ok.2 hfile, bind_eq_ok.2 ⟨false, h, rfl⟩⟩⟩
    exact bind_eq_ok.2 ⟨_, hrefused, rfl⟩
  | pwrite buf offset =>
    have hrefused : fs.pwrite host d buf offset = .ok (fs, -EBADF) :=
      bind_eq_ok.2 ⟨ofd, description_eq_ok.2 hd, bind_eq_ok.2 ⟨file, file_eq_ok.2 hfile, bind_eq_ok.2 ⟨false, h, rfl⟩⟩⟩
    exact bind_eq_ok.2 ⟨_, hrefused, rfl⟩
  | writev buffers =>
    have hrefused : fs.writev host d buffers = .ok (fs, -EBADF) :=
      bind_eq_ok.2 ⟨ofd, description_eq_ok.2 hd, bind_eq_ok.2 ⟨file, file_eq_ok.2 hfile, bind_eq_ok.2 ⟨false, h, rfl⟩⟩⟩
    exact bind_eq_ok.2 ⟨_, hrefused, rfl⟩

/-! ## What does not -/

/-- Where the host refuses nothing, no read of a file gives the error number. -/
theorem readFile_not_refused (h : fs.readFile bareHost ofd count = .ok (fs', result)) : result ≠ .error (-EBADF) := by
  obtain ⟨file, -, h⟩ := bind_eq_ok.1 h
  rintro rfl
  have hsame : ∀ {r : ReadResult}, (.ok (fs, r) : Except FsFailure (FS × ReadResult)) = .ok (fs', .error (-EBADF)) →
      r = .error (-EBADF) := by
    intro r heq
    exact (ok_pair heq).2
  split at h
  · exact absurd (hsame h) (by decide)
  · split at h
    · exact absurd (hsame h) (by decide)
    · cases hsame h
  · obtain ⟨pipe, -, ⟨-, -, hr, -⟩ | ⟨-, -, hr | hr, -⟩ | ⟨-, hr, -⟩⟩ := readPipe_cases h
    · cases hr
    · exact absurd hr (by decide)
    · cases hr
    · cases hr
  · split at h
    · exact absurd (hsame h) (by decide)
    · split at h
      · split at h
        · exact absurd (hsame h) (by decide)
        · cases h
      · cases (ok_pair h).2
  · cases hsame h
  · split at h
    · exact absurd (hsame h) (by decide)
    · cases hsame h
  · cases hsame h
  · cases hsame h
  · cases hsame h
  · cases h
  · cases h

theorem read_not_refused (h : fs.read bareHost d count = .ok (fs', result)) : result ≠ .error (-EBADF) := by
  obtain ⟨ofd, fs1, -, hread, -⟩ := read_cases h
  exact readFile_not_refused hread

theorem pread_not_refused {offset : Int} (h : fs.pread bareHost d count offset = .ok (fs', result)) :
    result ≠ .error (-EBADF) := by
  obtain ⟨ofd, -, hread, -⟩ := pread_cases h
  exact readFile_not_refused hread

theorem readBuffer_not_refused {n : Int} {buf' : List UInt8} (h : fs.readBuffer bareHost d buf = .ok (fs', n, buf')) :
    n ≠ -EBADF := by
  obtain ⟨⟨fs1, result⟩, hread, h⟩ := bind_eq_ok.1 h
  have hresult := read_not_refused hread
  cases result with
  | blocked => cases h
  | error errno =>
    obtain ⟨-, h⟩ := ok_pair h
    rintro rfl
    exact hresult (congrArg ReadResult.error (Prod.mk.inj h).1)
  | bytes data =>
    obtain ⟨_, -, h⟩ := bind_eq_ok.1 h
    obtain ⟨-, h⟩ := ok_pair h
    have hn := (Prod.mk.inj h).1
    have hbadf : (-EBADF : Int) < 0 := by decide
    omega

/-- The loop ends with the error number of a turn, or with a number of bytes. -/
theorem readBuffers_not_refused {nbytes n : Int} (hpos : 0 ≤ nbytes)
    (h : readBuffers bareHost d buffers fs nbytes = .ok (fs', n, buffers')) : n ≠ -EBADF := by
  induction buffers generalizing fs fs' nbytes n buffers' with
  | nil =>
    obtain ⟨-, h⟩ := ok_pair h
    have hn := (Prod.mk.inj h).1
    have hbadf : (-EBADF : Int) < 0 := by decide
    omega
  | cons buf rest ih =>
    obtain ⟨⟨fs1, ret, buf'⟩, hbuffer, h⟩ := bind_eq_ok.1 h
    dsimp only at h
    split at h
    · obtain ⟨-, h⟩ := ok_pair h
      rw [← (Prod.mk.inj h).1]
      exact readBuffer_not_refused hbuffer
    · next hret =>
      obtain ⟨⟨fs2, n', rest'⟩, hrest, h⟩ := bind_eq_ok.1 h
      obtain ⟨-, h⟩ := ok_pair h
      rw [← (Prod.mk.inj h).1]
      have hsum : 0 ≤ nbytes + ret := by omega
      exact ih hsum hrest

/-- Where the host refuses nothing, no write to a file gives the error number. -/
theorem writeFile_not_refused {offset n : Int} (h : fs.writeFile bareHost ofd buf = .ok (fs', offset, n)) : n ≠ -EBADF := by
  have hbadf : (-EBADF : Int) < 0 := by decide
  have heinval : (-EINVAL : Int) ≠ -EBADF := by decide
  have hgives : ∀ {r : FS × Int × Int}, (.ok r : Except FsFailure (FS × Int × Int)) = .ok (fs', offset, n) → r.2.2 = n := by
    intro r heq
    rw [Except.ok.inj heq]
  obtain ⟨file, -, h⟩ := bind_eq_ok.1 h
  split at h
  · obtain ⟨-, ⟨-, rfl, -⟩ | ⟨-, -, rfl, -⟩⟩ := writeShadow_cases h
    · exact heinval
    · omega
  · obtain ⟨_, -, h⟩ := bind_eq_ok.1 h
    have hn := hgives h
    dsimp only at hn
    omega
  · split at h
    · exact hgives h ▸ heinval
    · split at h
      · exact hgives h ▸ heinval
      · obtain ⟨_, -, h⟩ := bind_eq_ok.1 h
        have hn := hgives h
        dsimp only at hn
        omega
  · have hn := hgives h
    dsimp only at hn
    omega
  · exact hgives h ▸ heinval
  · have hn := hgives h
    simp only [bareHost] at hn
    omega
  · have hn := hgives h
    simp only [bareHost] at hn
    omega
  · cases h
  · cases h
  · cases h
  · cases h

theorem writeDescription_not_refused {n : Int} (h : fs.writeDescription bareHost d buf = .ok (fs', n)) : n ≠ -EBADF := by
  obtain ⟨ofd, -, h⟩ := bind_eq_ok.1 h
  obtain ⟨⟨fs1, offset, nbytes⟩, hwrite, h⟩ := bind_eq_ok.1 h
  have hne := writeFile_not_refused hwrite
  dsimp only at h
  split at h
  · exact (ok_pair h).2 ▸ hne
  · obtain ⟨_, -, h⟩ := bind_eq_ok.1 h
    exact (ok_pair h).2 ▸ hne

theorem writeBuffers_not_refused {nbytes n : Int} (hpos : 0 ≤ nbytes)
    (h : writeBuffers bareHost d buffers fs nbytes = .ok (fs', n)) : n ≠ -EBADF := by
  induction buffers generalizing fs fs' nbytes n with
  | nil =>
    have hn := (ok_pair h).2
    have hbadf : (-EBADF : Int) < 0 := by decide
    omega
  | cons buf rest ih =>
    obtain ⟨⟨fs1, ret⟩, hbuffer, h⟩ := bind_eq_ok.1 h
    dsimp only at h
    split at h
    · exact (ok_pair h).2 ▸ writeDescription_not_refused hbuffer
    · next hret => exact ih (by omega) h

/-- Where the host refuses nothing, only a call that looks at the file refuses. -/
theorem checked_of_refused (hd : fs.descriptions.get? d = some ofd) (hfile : fs.files.get? ofd.file = some file)
    (h : fs.transfer bareHost d t = .ok (fs', t.refused)) : t.Checked file := by
  cases t with
  | read count =>
    obtain ⟨⟨fs1, result⟩, hread, h⟩ := bind_eq_ok.1 h
    have hresult := TransferAnswer.read.inj (ok_pair h).2
    exact absurd hresult (read_not_refused hread)
  | pread count offset =>
    obtain ⟨⟨fs1, result⟩, hread, h⟩ := bind_eq_ok.1 h
    have hresult := TransferAnswer.read.inj (ok_pair h).2
    exact absurd hresult (pread_not_refused hread)
  | readv buffers =>
    obtain ⟨⟨fs1, n, buffers1⟩, hread, h⟩ := bind_eq_ok.1 h
    obtain ⟨hn, -⟩ := TransferAnswer.count.inj (ok_pair h).2
    obtain ⟨ofd', hofd', hread⟩ := bind_eq_ok.1 hread
    obtain rfl := Option.some.inj (hd.symm.trans (description_eq_ok.1 hofd'))
    obtain ⟨file', hfile', hread⟩ := bind_eq_ok.1 hread
    obtain rfl := Option.some.inj (hfile.symm.trans (file_eq_ok.1 hfile'))
    obtain ⟨readable, hreadable, hread⟩ := bind_eq_ok.1 hread
    cases readable with
    | false => exact hreadable
    | true => exact absurd hn (readBuffers_not_refused (Int.le_refl 0) hread)
  | write buf =>
    obtain ⟨⟨fs1, n⟩, hwrite, h⟩ := bind_eq_ok.1 h
    obtain ⟨hn, -⟩ := TransferAnswer.count.inj (ok_pair h).2
    obtain ⟨ofd', file', hofd', hfile', ⟨hfalse, -⟩ | ⟨-, fs2, offset, nbytes, newoffset, hwrites, rfl, -⟩⟩ := write_cases hwrite
    · obtain rfl := Option.some.inj (hd.symm.trans hofd')
      obtain rfl := Option.some.inj (hfile.symm.trans hfile')
      exact hfalse
    · exact absurd hn (writeFile_not_refused hwrites)
  | pwrite buf offset =>
    obtain ⟨⟨fs1, n⟩, hwrite, h⟩ := bind_eq_ok.1 h
    obtain ⟨hn, -⟩ := TransferAnswer.count.inj (ok_pair h).2
    obtain ⟨ofd', hofd', hwrite⟩ := bind_eq_ok.1 hwrite
    obtain rfl := Option.some.inj (hd.symm.trans (description_eq_ok.1 hofd'))
    obtain ⟨file', hfile', hwrite⟩ := bind_eq_ok.1 hwrite
    obtain rfl := Option.some.inj (hfile.symm.trans (file_eq_ok.1 hfile'))
    obtain ⟨writable, hwritable, hwrite⟩ := bind_eq_ok.1 hwrite
    cases writable with
    | false => exact hwritable
    | true =>
      obtain ⟨⟨fs2, offset', nbytes⟩, hwrites, hwrite⟩ := bind_eq_ok.1 hwrite
      obtain rfl := (ok_pair hwrite).2
      exact absurd hn (writeFile_not_refused hwrites)
  | writev buffers =>
    obtain ⟨⟨fs1, n⟩, hwrite, h⟩ := bind_eq_ok.1 h
    obtain ⟨hn, -⟩ := TransferAnswer.count.inj (ok_pair h).2
    obtain ⟨ofd', hofd', hwrite⟩ := bind_eq_ok.1 hwrite
    obtain rfl := Option.some.inj (hd.symm.trans (description_eq_ok.1 hofd'))
    obtain ⟨file', hfile', hwrite⟩ := bind_eq_ok.1 hwrite
    obtain rfl := Option.some.inj (hfile.symm.trans (file_eq_ok.1 hfile'))
    obtain ⟨writable, hwritable, hwrite⟩ := bind_eq_ok.1 hwrite
    cases writable with
    | false => exact hwritable
    | true => exact absurd hn (writeBuffers_not_refused (Int.le_refl 0) hwrite)

/-- The access mode of a description is enforced exactly where it permits the transfer, or where the call looks at the file and
the file refuses. -/
theorem enforces_iff (hd : fs.descriptions.get? d = some ofd) (hfile : fs.files.get? ofd.file = some file) :
    fs.Enforces d t ofd file ↔ t.Permitted ofd file ∨ t.Checked file := by
  constructor
  · intro h
    by_cases hpermitted : t.Permitted ofd file
    · exact .inl hpermitted
    · exact .inr (checked_of_refused hd hfile (h hpermitted bareHost))
  · rintro (hpermitted | hchecked) hnot host
    · exact absurd hpermitted hnot
    · exact transfer_of_checked hd hfile hchecked

end FS

namespace FileState

open FS

/-! ## Samples -/

def pathF : Path := ⟨[['f']], by decide⟩

/-- The first process creates a file that it may only write, writes a byte to it, and opens it again to read it. -/
def writesAndReads : List (HostFiles × FileAction) :=
  [calls (.open pathF ⟨false, true⟩ { creat := true } {}), calls (.pwrite 0 [7] 0), calls (.open pathF ⟨true, false⟩ {} {})]

/-- The end of a pipe that is read does not take a write. -/
theorem enforces_read_end : ∃ s, (machine 1).Reachable s ∧ ∃ ofd file, s.fs.descriptions.get? 0 = some ofd ∧
    s.fs.files.get? ofd.file = some file ∧ ofd.accessMode.write = false ∧ s.fs.Enforces 0 (.write [7]) ofd file := by
  have hrun : ((machine 1).run first [createsPipe]).map (fun s =>
      decide ((s.fs.descriptions.get? 0).map (fun ofd => (ofd.file, ofd.accessMode.write)) = some (3, false) ∧
        (s.fs.files.get? 3).map File.kind = some (.pipeEndpoint 0 .READ))) = some true := by decide
  obtain ⟨s, hs, hfound⟩ := Option.map_eq_some_iff.1 hrun
  obtain ⟨hofd, hfile⟩ := of_decide_eq_true hfound
  obtain ⟨ofd, hofd, hfields⟩ := Option.map_eq_some_iff.1 hofd
  obtain ⟨hfileId, hmode⟩ := Prod.mk.inj hfields
  obtain ⟨file, hfile, hkind⟩ := Option.map_eq_some_iff.1 hfile
  rw [← hfileId] at hfile
  refine ⟨s, (Machine.Reachable.init first_isNew).run _ hs, ofd, file, hofd, hfile, hmode, ?_⟩
  refine (enforces_iff hofd hfile).2 (.inr ?_)
  show file.isWritable = .ok false
  rw [File.isWritable, hkind]
  rfl

/-- A byte is read through the descriptor that was opened for writing, and one is written through the one that was opened for
reading. -/
theorem enforces_fails : ∃ s, (machine 1).Reachable s ∧
    (∃ ofd file, s.fs.descriptions.get? 0 = some ofd ∧ s.fs.files.get? ofd.file = some file ∧ ofd.accessMode = ⟨false, true⟩ ∧
      (s.fs.transfer bareHost 0 (.pread 1 0)).map Prod.snd = .ok (.read (.bytes [7])) ∧
      ¬ s.fs.Enforces 0 (.pread 1 0) ofd file) ∧
    ∃ ofd file, s.fs.descriptions.get? 1 = some ofd ∧ s.fs.files.get? ofd.file = some file ∧ ofd.accessMode = ⟨true, false⟩ ∧
      file.kind = .shadowFile [7] ∧ (s.fs.transfer bareHost 1 (.write [8])).map
        (fun r => (r.2, (r.1.files.get? ofd.file).map File.kind)) = .ok (.count 1 [[8]], some (.shadowFile [8])) ∧
      ¬ s.fs.Enforces 1 (.write [8]) ofd file := by
  have hrun : ((machine 1).run first writesAndReads).map (fun s =>
      decide (s.fs.descriptions.get? 0 = some ⟨3, 0, ⟨false, true⟩, { largefile := true }⟩ ∧
        s.fs.descriptions.get? 1 = some ⟨3, 0, ⟨true, false⟩, { largefile := true }⟩ ∧
        (s.fs.files.get? 3).map File.kind = some (.shadowFile [7]) ∧
        (s.fs.transfer bareHost 0 (.pread 1 0)).map Prod.snd = .ok (.read (.bytes [7])) ∧
        (s.fs.transfer bareHost 1 (.write [8])).map (fun r => (r.2, (r.1.files.get? 3).map File.kind)) =
          .ok (.count 1 [[8]], some (.shadowFile [8])))) = some true := by decide
  obtain ⟨s, hs, hfound⟩ := Option.map_eq_some_iff.1 hrun
  obtain ⟨hreader, hwriter, hfile, hread, hwrite⟩ := of_decide_eq_true hfound
  obtain ⟨file, hfile, hkind⟩ := Option.map_eq_some_iff.1 hfile
  refine ⟨s, (Machine.Reachable.init first_isNew).run _ hs, ⟨_, file, hreader, hfile, rfl, hread, ?_⟩,
    _, file, hwriter, hfile, rfl, hkind, hwrite, ?_⟩
  · intro henforces
    have hrefused := henforces (fun h => Bool.false_ne_true h.1) bareHost
    rw [hrefused] at hread
    cases TransferAnswer.read.inj (Except.ok.inj hread)
  · intro henforces
    have hrefused := henforces (fun h => Bool.false_ne_true h) bareHost
    rw [hrefused] at hwrite
    have hcount := (TransferAnswer.count.inj (ok_pair hwrite).1).1
    exact absurd hcount (by decide)

end FileState

end X64Emulator
