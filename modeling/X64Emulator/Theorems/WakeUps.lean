import X64Emulator.Epoll
import X64Emulator.Lemmas.FileRuns
import X64Emulator.Lemmas.Readiness
import X64Emulator.Theorems.Polling
import Mathlib.Data.List.ReduceOption

/-!
# Readiness and reading and writing

A pipe without data is not ready to be read, though a read of it returns at once when it has no write end left, so a thread that
waits for its end is not woken. An event is ready to be written though a write of a value that does not fit fails.
-/

namespace X64Emulator

open Outcome

namespace FS

variable {fs : FS} {polls : HostPolls} {host : HostFiles} {d : DescriptionId} {ofd : OpenFileDescription} {file : File}
  {size : Nat} {buf : List UInt8}

/-- A result of a read that does not make the caller wait, nor tells it to try again. -/
def Complete (result : ReadResult) : Prop := result ≠ .blocked ∧ result ≠ .error (-EAGAIN)

/-- A read that gives its data, or the end of the file, at once. -/
def ReadsAtOnce (fs : FS) (host : HostFiles) (d : DescriptionId) (size : Nat) : Prop :=
  ∃ fs' result, fs.read host d size = .ok (fs', result) ∧ Complete result

/-- A write that neither blocks, which none does, nor fails. -/
def WritesAtOnce (fs : FS) (host : HostFiles) (d : DescriptionId) (buf : List UInt8) : Prop := ∃ r, fs.write host d buf = .ok r

/-- A thread that polls for reading the description does not stay blocked. -/
def PollWakes (fs : FS) (polls : HostPolls) (d : DescriptionId) : Prop :=
  ∀ fds pollfds timeout pollfd descriptor, pollfd ∈ pollfds → fds.findFileDescriptor pollfd.fd = some descriptor →
    descriptor.openFileDescription = d → pollfd.testRead = true → fs.tryUnblockPoll polls fds pollfds timeout ≠ .ok none

/-- A thread that selects the description for reading does not stay blocked. -/
def SelectWakes (fs : FS) (polls : HostPolls) (d : DescriptionId) : Prop :=
  ∀ fds nfds data timeout (fd : Nat) descriptor, (fd : Int) < nfds → data.readfds.test fd = true →
    fds.findFileDescriptor fd = some descriptor → descriptor.openFileDescription = d →
    fs.tryUnblockSelect polls fds nfds data timeout ≠ .ok none

/-- A thread that waits on an instance that lists the description for reading does not stay blocked. -/
def EpollWakes (fs : FS) (polls : HostPolls) (d : DescriptionId) : Prop :=
  ∀ (s : EpollState) fds epfd f maxevents timeout entry, s.files.fs = fs → s.instance? fds epfd = .ok (some f) →
    0 < maxevents → entry ∈ s.interestLists f → entry.ofd = some d → entry.event.test .CAN_READ = true →
    s.tryUnblockEpollWait polls fds epfd maxevents timeout ≠ .ok none

/-- What is to hold of one description of a file, with a size to read and bytes to write. -/
structure ReadinessAgrees (fs : FS) (polls : HostPolls) (host : HostFiles) (d : DescriptionId) (f : FileId) (size : Nat)
    (buf : List UInt8) : Prop where
  canRead : fs.canRead polls f = .ok true ↔ fs.ReadsAtOnce host d size
  canWrite : fs.canWrite polls f = .ok true → fs.WritesAtOnce host d buf
  poll : fs.ReadsAtOnce host d size → fs.PollWakes polls d
  select : fs.ReadsAtOnce host d size → fs.SelectWakes polls d
  epoll : fs.ReadsAtOnce host d size → fs.EpollWakes polls d

/-- The files that this is about, with a size that is read from them and the fewest bytes that are written to them. -/
def Sized (file : File) (size : Nat) (buf : List UInt8) : Prop :=
  match file.kind with
  | .pipeEndpoint _ _ => 0 < size ∧ buf.length = 1
  | .event _ => 8 ≤ size ∧ buf.length = 8
  | _ => False

/-- A pipe with data or a write end; an event to which the value fits, or is one that is refused. -/
def Answerable (fs : FS) (file : File) (buf : List UInt8) : Prop :=
  match file.kind with
  | .pipeEndpoint p _ => ∀ pipe, fs.pipes.get? p = some pipe → pipe.data ≠ [] ∨ pipe.writeEndpoints ≠ []
  | .event counter => counter < 2 ^ 64 - 2 → valueOf buf = 2 ^ 64 - 1 ∨ counter + valueOf buf < 2 ^ 64 - 2
  | _ => True

/-! ## Waking -/

theorem canRead_of_pollable {descriptor : FileDescriptor} {f : FileId} (hd : fs.descriptions.get? d = some ofd)
    (hdescriptor : descriptor.openFileDescription = d) (hf : fs.pollable descriptor = .ok f) : f = ofd.file := by
  obtain ⟨ofd', hofd, hf⟩ := bind_eq_ok.1 hf
  obtain ⟨file, -, hf⟩ := bind_eq_ok.1 hf
  obtain ⟨_, -, hf⟩ := bind_eq_ok.1 hf
  rw [hdescriptor] at hofd
  obtain rfl := Option.some.inj (hd.symm.trans (description_eq_ok.1 hofd))
  exact (Except.ok.inj hf).symm

/-- What is tested for reading is what the file says. -/
theorem Asked.readable {descriptor : FileDescriptor} {testWrite readable writable : Bool} (hd : fs.descriptions.get? d = some ofd)
    (hdescriptor : descriptor.openFileDescription = d) (hready : fs.canRead polls ofd.file = .ok true)
    (h : fs.Asked polls descriptor true testWrite readable writable) : readable = true := by
  obtain ⟨f, hf, hr, -⟩ := h.answers
  obtain rfl := canRead_of_pollable hd hdescriptor hf
  rw [tested, if_pos rfl, hready] at hr
  exact (Except.ok.inj hr).symm

theorem marked_read_ne_none (revents : PollEvent) (writable : Bool) :
    (revents.mark true .CAN_READ).mark writable .CAN_WRITE ≠ .NONE := by
  intro h
  have hread : revents ||| .CAN_READ = .NONE := by
    cases writable with
    | false => exact h
    | true => exact (BitVec.or_eq_zero_iff.1 h).1
  exact absurd (BitVec.or_eq_zero_iff.1 hread).2 (by decide)

theorem poll_wakes (hd : fs.descriptions.get? d = some ofd) (hready : fs.canRead polls ofd.file = .ok true) :
    fs.PollWakes polls d := by
  intro fds pollfds timeout pollfd descriptor hmem hfind hdescriptor htest hblocked
  obtain ⟨polled, hpolled, hblocked⟩ := bind_eq_ok.1 hblocked
  -- the entry is reported, so the count is not zero
  have hcount : nzrevents polled > 0 := by
    obtain ⟨r, hr, hturn⟩ := exists_of_forall₂_left (mapM_eq_ok.1 hpolled) hmem
    rw [pollAgain, hfind] at hturn
    obtain ⟨readable, writable, hasked, rfl⟩ := pollFile_eq_ok.1 hturn
    rw [htest] at hasked
    obtain rfl := hasked.readable hd hdescriptor hready
    refine List.countP_pos_iff.2 ⟨_, hr, ?_⟩
    exact decide_eq_true (marked_read_ne_none _ _)
  rw [if_pos hcount] at hblocked
  cases hblocked

theorem select_wakes (hd : fs.descriptions.get? d = some ofd) (hready : fs.canRead polls ofd.file = .ok true) :
    fs.SelectWakes polls d := by
  intro fds nfds data timeout fd descriptor hlt htest hfind hdescriptor hblocked
  obtain ⟨⟨after, ret⟩, himm, hblocked⟩ := bind_eq_ok.1 hblocked
  obtain ⟨_, hnfds, hfrom⟩ := bind_eq_ok.1 himm
  dsimp only at hblocked
  split at hblocked
  · cases hblocked
  · next hstays =>
    simp only [not_or] at hstays
    obtain ⟨hret, hcount, -⟩ := hstays
    rcases selectFrom_cases hfrom with herror | ⟨-, hpassed⟩
    · exact hret (herror ▸ by decide)
    · -- the bit is still there
      have hslot : (selected fds nfds.toNat)[fd]? = some (some descriptor) := by
        have hnat : fd < nfds.toNat := by omega
        simp [selected, hnat, hfind]
      obtain ⟨descriptor', heq, hasked⟩ := hpassed.inside fd _ (Nat.zero_le fd) hslot (.inl htest)
      obtain rfl := Option.some.inj heq
      rw [htest] at hasked
      have hread := hasked.readable hd hdescriptor hready
      have hnone := (SelectData.count_eq_zero.1 (Nat.eq_zero_of_not_pos hcount)).1 fd
      rw [hread] at hnone
      cases hnone

theorem added_read_ne_zero (writable : Bool) : (EpollEvents.addIf 0 true .CAN_READ).addIf writable .CAN_WRITE ≠ 0 := by
  cases writable <;> decide

/-- The turn for an entry of the description reports an event. -/
theorem waitEntry_reports {s : EpollState} {entry : EpollEntry} {event? : Option EpollEvent} (hfs : s.files.fs = fs)
    (hd : fs.descriptions.get? d = some ofd) (hready : fs.canRead polls ofd.file = .ok true) (hofd : entry.ofd = some d)
    (htest : entry.event.test .CAN_READ = true) (h : s.waitEntry polls entry = .ok event?) : event? ≠ none := by
  unfold EpollState.waitEntry at h
  rw [hofd] at h
  obtain ⟨ofd', hofd', h⟩ := bind_eq_ok.1 h
  obtain ⟨_, -, hofd'⟩ := bind_eq_ok.1 hofd'
  rw [mapError_eq_ok, hfs, description_eq_ok] at hofd'
  obtain rfl := Option.some.inj (hd.symm.trans hofd')
  obtain ⟨file, -, h⟩ := bind_eq_ok.1 h
  obtain ⟨_, -, h⟩ := bind_eq_ok.1 h
  obtain ⟨_, -, h⟩ := bind_eq_ok.1 h
  obtain ⟨readable, hread, h⟩ := bind_eq_ok.1 h
  obtain ⟨writable, -, h⟩ := bind_eq_ok.1 h
  rw [mapError_eq_ok, hfs, htest, tested, if_pos rfl, hready] at hread
  obtain rfl := Except.ok.inj hread
  rw [← Except.ok.inj h, if_neg (added_read_ne_zero writable)]
  exact Option.some_ne_none _

theorem epoll_wakes (hd : fs.descriptions.get? d = some ofd) (hready : fs.canRead polls ofd.file = .ok true) :
    fs.EpollWakes polls d := by
  intro s fds epfd f maxevents timeout entry hfs hinstance hmax hmem hofd htest hblocked
  obtain ⟨instance', hinstance', hblocked⟩ := bind_eq_ok.1 hblocked
  obtain rfl := Except.ok.inj (hinstance.symm.trans (mapError_eq_ok.1 hinstance'))
  obtain ⟨events, hevents, hblocked⟩ := bind_eq_ok.1 hblocked
  obtain ⟨turns, hturns, hevents⟩ := bind_eq_ok.1 hevents
  have hne : events.take maxevents ≠ [] := by
    obtain ⟨event?, hevent, hturn⟩ := exists_of_forall₂_left (mapM_eq_ok.1 hturns) hmem
    obtain ⟨event, rfl⟩ := Option.ne_none_iff_exists'.1 (waitEntry_reports hfs hd hready hofd htest hturn)
    have hin : event ∈ events := by
      rw [← Except.ok.inj hevents]
      exact List.reduceOption_mem_iff.2 hevent
    obtain ⟨m, rfl⟩ := Nat.exists_eq_succ_of_ne_zero (Nat.ne_of_gt hmax)
    cases events with
    | nil => cases hin
    | cons x xs => exact List.cons_ne_nil _ _
  rw [if_pos hne] at hblocked
  cases hblocked

/-! ## Reading and writing -/

theorem canRead_eq (hfile : fs.files.get? ofd.file = some file) : fs.canRead polls ofd.file = match file.kind with
    | .pipeEndpoint p _ => do
      let pipe ← fs.pipe p
      .ok (!pipe.data.isEmpty)
    | .event counter => .ok (decide (0 < counter))
    | .hostFile | .hostDevice | .tty | .socket => .ok (polls.canRead ofd.file)
    | .directory _ _ | .shadowFile _ | .nullDevice | .epoll => .ok false
    | .symlink _ => .error .verification := by
  rw [canRead, file_eq_ok.2 hfile]
  rfl

/-- The ends of pipes, and events, have no offset of the host. -/
theorem advanceInternalOffset_ok {f : FileId} {n : Int} (hfile : fs.files.get? f = some file)
    (hkind : (∃ p side, file.kind = .pipeEndpoint p side) ∨ ∃ counter, file.kind = .event counter) :
    fs.advanceInternalOffset host f n = .ok () := by
  rw [advanceInternalOffset, file_eq_ok.2 hfile]
  rcases hkind with ⟨p, side, hkind⟩ | ⟨counter, hkind⟩
  · simp only [bind, Except.bind, hkind]
  · simp only [bind, Except.bind, hkind]

/-- A read is complete exactly when that of the file is, whose offset then only advances. -/
theorem readsAtOnce_iff (hd : fs.descriptions.get? d = some ofd) (hfile : fs.files.get? ofd.file = some file)
    (hkind : (∃ p side, file.kind = .pipeEndpoint p side) ∨ ∃ counter, file.kind = .event counter) :
    fs.ReadsAtOnce host d size ↔ ∃ fs1 result, fs.readFile host ofd size = .ok (fs1, result) ∧ Complete result := by
  constructor
  · rintro ⟨fs', result, hread, hcomplete⟩
    obtain ⟨ofd', fs1, hofd', hfrom, -⟩ := read_cases hread
    obtain rfl := Option.some.inj (hd.symm.trans hofd')
    exact ⟨fs1, result, hfrom, hcomplete⟩
  · rintro ⟨fs1, result, hread, hcomplete⟩
    cases result with
    | blocked => exact absurd rfl hcomplete.1
    | error errno => exact ⟨fs1, _, bind_eq_ok.2 ⟨ofd, description_eq_ok.2 hd, bind_eq_ok.2 ⟨_, hread, rfl⟩⟩, hcomplete⟩
    | bytes data =>
      have hadvance : fs1.advanceInternalOffset host ofd.file data.length = .ok () := by
        obtain ⟨file', hfile', ⟨p, side, -, hpipe⟩ | ⟨-, -, rfl⟩ | ⟨counter, -, -, rfl⟩⟩ := readFile_cases hread
        · obtain ⟨pipe, -, ⟨-, -, -, rfl⟩ | ⟨-, -, -, rfl⟩ | ⟨-, -, rfl⟩⟩ := readPipe_cases hpipe
          · exact advanceInternalOffset_ok hfile hkind
          · exact advanceInternalOffset_ok hfile hkind
          · exact advanceInternalOffset_ok hfile hkind
        · exact advanceInternalOffset_ok hfile hkind
        · have hemptied : (fs.modifyFile ofd.file fun file => { file with kind := .event 0 }).files.get? ofd.file =
              some { file' with kind := .event 0 } := by
            rw [get?_modifyFile, if_pos rfl, hfile']
            rfl
          exact advanceInternalOffset_ok hemptied (.inr ⟨0, rfl⟩)
      exact ⟨_, _, bind_eq_ok.2 ⟨ofd, description_eq_ok.2 hd, bind_eq_ok.2 ⟨_, hread, bind_eq_ok.2 ⟨(), hadvance, rfl⟩⟩⟩, hcomplete⟩

theorem complete_bytes (data : List UInt8) : Complete (.bytes data) := by
  constructor
  · intro h
    cases h
  · intro h
    cases h

/-- A read of an end of a pipe is complete when there is data, or when nothing is left to write any. -/
theorem readsAtOnce_pipe {p : PipeId} {side : PipeSide} (hd : fs.descriptions.get? d = some ofd)
    (hfile : fs.files.get? ofd.file = some file) (hkind : file.kind = .pipeEndpoint p side) :
    fs.ReadsAtOnce host d size ↔ ∃ pipe, fs.pipes.get? p = some pipe ∧ (pipe.data ≠ [] ∨ pipe.writeEndpoints = []) := by
  have hread : fs.readFile host ofd size = fs.readPipe p ofd.statusFlags.nonblock size := by
    rw [readFile, file_eq_ok.2 hfile]
    simp only [bind, Except.bind, hkind]
  rw [readsAtOnce_iff hd hfile (.inl ⟨p, side, hkind⟩), hread]
  constructor
  · rintro ⟨fs1, result, hresult, hcomplete⟩
    obtain ⟨pipe, hpipe, ⟨-, hends, -⟩ | ⟨-, -, hwaits, -⟩ | ⟨hdata, -⟩⟩ := readPipe_cases hresult
    · exact ⟨pipe, hpipe, .inr hends⟩
    · rcases hwaits with rfl | rfl
      · exact absurd rfl hcomplete.2
      · exact absurd rfl hcomplete.1
    · exact ⟨pipe, hpipe, .inl hdata⟩
  · rintro ⟨pipe, hpipe, hready⟩
    by_cases hdata : pipe.data = []
    · have hends := hready.resolve_left (not_not.2 hdata)
      refine ⟨fs, .bytes [], bind_eq_ok.2 ⟨pipe, pipe_eq_ok.2 hpipe, ?_⟩, complete_bytes _⟩
      rw [if_pos hdata, if_pos hends]
    · refine ⟨fs.modifyPipe p fun pipe => { pipe with data := pipe.data.drop size }, .bytes (pipe.data.take size),
        bind_eq_ok.2 ⟨pipe, pipe_eq_ok.2 hpipe, ?_⟩, complete_bytes _⟩
      rw [if_neg hdata]

/-- A read of an event is complete when its counter is not zero. -/
theorem readsAtOnce_event {counter : Nat} (hd : fs.descriptions.get? d = some ofd) (hfile : fs.files.get? ofd.file = some file)
    (hkind : file.kind = .event counter) (hsize : 8 ≤ size) : fs.ReadsAtOnce host d size ↔ 0 < counter := by
  have hread : fs.readFile host ofd size = if counter = 0 then
      if ofd.statusFlags.nonblock then .ok (fs, .error (-EAGAIN)) else .error .verification
      else .ok (fs.modifyFile ofd.file fun file => { file with kind := .event 0 }, .bytes (bytesOf counter)) := by
    rw [readFile, file_eq_ok.2 hfile]
    simp only [bind, Except.bind, hkind]
    rw [if_neg (Nat.not_lt.2 hsize)]
  rw [readsAtOnce_iff hd hfile (.inr ⟨counter, hkind⟩), hread]
  constructor
  · rintro ⟨fs1, result, hresult, hcomplete⟩
    refine Nat.pos_of_ne_zero fun hzero => ?_
    rw [if_pos hzero] at hresult
    split at hresult
    · exact hcomplete.2 (ok_pair hresult).2.symm
    · cases hresult
  · intro hpos
    rw [if_neg (Nat.ne_of_gt hpos)]
    exact ⟨_, _, rfl, complete_bytes _⟩

/-- A write to a file that can be written is one of the file, after which its offset advances. -/
theorem writesAtOnce_of {fs1 : FS} {offset n : Int} (hd : fs.descriptions.get? d = some ofd)
    (hfile : fs.files.get? ofd.file = some file) (hwritable : file.isWritable = .ok true)
    (hwrite : fs.writeFile host ofd buf = .ok (fs1, offset, n)) (hadvance : fs1.advanceInternalOffset host ofd.file n = .ok ()) :
    fs.WritesAtOnce host d buf := by
  have hwrites : ∀ r, (if n < 0 then .ok (fs1.modifyDescription d fun ofd => { ofd with offset := offset }, n)
      else do
        fs1.advanceInternalOffset host ofd.file n
        .ok (fs1.modifyDescription d fun ofd => { ofd with offset := offset + n }, n) : Except FsFailure (FS × Int)) = .ok r →
      fs.WritesAtOnce host d buf := by
    intro r hr
    exact ⟨r, bind_eq_ok.2 ⟨ofd, description_eq_ok.2 hd, bind_eq_ok.2 ⟨file, file_eq_ok.2 hfile, bind_eq_ok.2 ⟨true, hwritable,
      bind_eq_ok.2 ⟨(fs1, offset, n), hwrite, hr⟩⟩⟩⟩⟩
  by_cases hneg : n < 0
  · exact hwrites _ (if_pos hneg)
  · exact hwrites _ ((if_neg hneg).trans (bind_eq_ok.2 ⟨(), hadvance, rfl⟩))

/-- A write to an end of a pipe is refused at the end that is read, and takes the bytes at the other one. -/
theorem writesAtOnce_pipe {p : PipeId} {side : PipeSide} {pipe : Pipe} (hd : fs.descriptions.get? d = some ofd)
    (hfile : fs.files.get? ofd.file = some file) (hkind : file.kind = .pipeEndpoint p side) (hpipe : fs.pipes.get? p = some pipe) :
    fs.WritesAtOnce host d buf := by
  have hwritable : file.isWritable = .ok (decide (side = .WRITE)) := by
    rw [File.isWritable, hkind]
  cases side with
  | READ =>
    exact ⟨(fs, -EBADF), bind_eq_ok.2 ⟨ofd, description_eq_ok.2 hd, bind_eq_ok.2 ⟨file, file_eq_ok.2 hfile, bind_eq_ok.2
      ⟨false, hwritable, rfl⟩⟩⟩⟩
  | WRITE =>
    have hwrite : fs.writeFile host ofd buf =
        .ok (fs.modifyPipe p fun pipe => { pipe with data := pipe.data ++ buf }, ofd.offset, buf.length) := by
      rw [writeFile, file_eq_ok.2 hfile]
      simp only [bind, Except.bind, hkind, pipe_eq_ok.2 hpipe]
    exact writesAtOnce_of hd hfile hwritable hwrite (advanceInternalOffset_ok hfile (.inl ⟨p, .WRITE, hkind⟩))

/-- A write to an event is refused, or it takes a value that fits. -/
theorem writesAtOnce_event {counter : Nat} (hd : fs.descriptions.get? d = some ofd) (hfile : fs.files.get? ofd.file = some file)
    (hkind : file.kind = .event counter) (hlength : buf.length = 8) : fs.WritesAtOnce host d buf ↔
      valueOf buf = 2 ^ 64 - 1 ∨ valueOf buf < u64 (2 ^ 65 - 2 - counter) := by
  have hwritable : file.isWritable = .ok true := by
    rw [File.isWritable, hkind]
  have htake : buf.take 8 = buf := by
    rw [← hlength, List.take_length]
  have hwrites : fs.writeFile host ofd buf = if valueOf buf = 2 ^ 64 - 1 then .ok (fs, ofd.offset, -EINVAL)
      else (require (valueOf buf < u64 (2 ^ 65 - 2 - counter)) >>= fun _ =>
        .ok (fs.modifyFile ofd.file fun file => { file with kind := .event (counter + valueOf buf) }, ofd.offset, 8)) := by
    rw [writeFile, file_eq_ok.2 hfile]
    simp only [bind, Except.bind, hkind, htake]
    rw [if_neg (by omega)]
  constructor
  · rintro ⟨⟨fs', n⟩, h⟩
    obtain ⟨ofd', file', hofd', hfile', ⟨hrefused, -⟩ | ⟨-, fs1, offset, nbytes, newoffset, hwrite, -⟩⟩ := write_cases h
    · obtain rfl := Option.some.inj (hd.symm.trans hofd')
      obtain rfl := Option.some.inj (hfile.symm.trans hfile')
      rw [hwritable] at hrefused
      cases hrefused
    · obtain rfl := Option.some.inj (hd.symm.trans hofd')
      rw [hwrites] at hwrite
      split at hwrite
      · next hlast => exact .inl hlast
      · obtain ⟨_, hfits, -⟩ := bind_eq_ok.1 hwrite
        exact .inr (check_eq_ok.1 hfits)
  · intro hvalue
    by_cases hlast : valueOf buf = 2 ^ 64 - 1
    · refine writesAtOnce_of hd hfile hwritable (hwrites.trans (if_pos hlast)) ?_
      exact advanceInternalOffset_ok hfile (.inr ⟨counter, hkind⟩)
    · have hfits := hvalue.resolve_left hlast
      refine writesAtOnce_of hd hfile hwritable ((hwrites.trans (if_neg hlast)).trans (bind_eq_ok.2 ⟨(), check_eq_ok.2 hfits, rfl⟩)) ?_
      have hadded : (fs.modifyFile ofd.file fun file => { file with kind := .event (counter + valueOf buf) }).files.get? ofd.file =
          some { file with kind := .event (counter + valueOf buf) } := by
        rw [get?_modifyFile, if_pos rfl, hfile]
        rfl
      exact advanceInternalOffset_ok hadded (.inr ⟨_, rfl⟩)

/-- What still fits into an event that is ready to be written. -/
theorem u64_room {counter : Nat} (h : counter < 2 ^ 64 - 2) : u64 (2 ^ 65 - 2 - counter) = 2 ^ 64 - 2 - counter := by
  rw [u64]
  omega

/-- Waiting is answered as soon as the file is ready, if it is ready as soon as a read of it is complete. -/
theorem readinessAgrees_of (hd : fs.descriptions.get? d = some ofd)
    (hread : fs.canRead polls ofd.file = .ok true ↔ fs.ReadsAtOnce host d size)
    (hwrite : fs.canWrite polls ofd.file = .ok true → fs.WritesAtOnce host d buf) :
    fs.ReadinessAgrees polls host d ofd.file size buf where
  canRead := hread
  canWrite := hwrite
  poll h := poll_wakes hd (hread.2 h)
  select h := select_wakes hd (hread.2 h)
  epoll h := epoll_wakes hd (hread.2 h)

theorem pipe_agrees_iff {p : PipeId} {side : PipeSide} (hd : fs.descriptions.get? d = some ofd)
    (hfile : fs.files.get? ofd.file = some file) (hkind : file.kind = .pipeEndpoint p side) :
    fs.ReadinessAgrees polls host d ofd.file size buf ↔
      ∀ pipe, fs.pipes.get? p = some pipe → pipe.data ≠ [] ∨ pipe.writeEndpoints ≠ [] := by
  have hcan : fs.canRead polls ofd.file = .ok true ↔ ∃ pipe, fs.pipes.get? p = some pipe ∧ pipe.data ≠ [] := by
    rw [canRead_eq hfile, hkind]
    constructor
    · intro hready
      obtain ⟨pipe, hpipe, hdata⟩ := bind_eq_ok.1 hready
      refine ⟨pipe, pipe_eq_ok.1 hpipe, fun hempty => ?_⟩
      rw [hempty] at hdata
      cases hdata
    · rintro ⟨pipe, hpipe, hdata⟩
      refine bind_eq_ok.2 ⟨pipe, pipe_eq_ok.2 hpipe, ?_⟩
      rw [List.isEmpty_eq_false_iff.2 hdata]
      rfl
  have hreads : fs.ReadsAtOnce host d size ↔ _ := readsAtOnce_pipe hd hfile hkind
  constructor
  · intro hagrees pipe hpipe
    by_contra hnot
    obtain ⟨hdata, hends⟩ := not_or.1 hnot
    -- the end of the file is read, but nobody is told
    obtain ⟨pipe', hpipe', hdata'⟩ := hcan.1 (hagrees.canRead.2 (hreads.2 ⟨pipe, hpipe, .inr (not_not.1 hends)⟩))
    obtain rfl := Option.some.inj (hpipe.symm.trans hpipe')
    exact hdata hdata'
  · intro hanswers
    refine readinessAgrees_of hd ?_ ?_
    · rw [hreads, hcan]
      constructor
      · rintro ⟨pipe, hpipe, hdata⟩
        exact ⟨pipe, hpipe, .inl hdata⟩
      · rintro ⟨pipe, hpipe, hready⟩
        refine ⟨pipe, hpipe, fun hempty => ?_⟩
        rcases hanswers pipe hpipe with hdata | hends
        · exact hdata hempty
        · exact hends (hready.resolve_left (not_not.2 hempty))
    · intro hready
      rw [canWrite, file_eq_ok.2 hfile] at hready
      simp only [bind, Except.bind, hkind] at hready
      split at hready
      · cases hready
      · next pipe hpipe => exact writesAtOnce_pipe hd hfile hkind (pipe_eq_ok.1 hpipe)

theorem event_agrees_iff {counter : Nat} (hd : fs.descriptions.get? d = some ofd) (hfile : fs.files.get? ofd.file = some file)
    (hkind : file.kind = .event counter) (hsize : 8 ≤ size) (hlength : buf.length = 8) :
    fs.ReadinessAgrees polls host d ofd.file size buf ↔
      counter < 2 ^ 64 - 2 → valueOf buf = 2 ^ 64 - 1 ∨ counter + valueOf buf < 2 ^ 64 - 2 := by
  have hcan : fs.canRead polls ofd.file = .ok (decide (0 < counter)) := by
    rw [canRead_eq hfile, hkind]
  have hready : fs.canWrite polls ofd.file = .ok (decide (counter < 2 ^ 64 - 2)) := by
    rw [canWrite, file_eq_ok.2 hfile]
    simp only [bind, Except.bind, hkind]
  have hreads : fs.ReadsAtOnce host d size ↔ _ := readsAtOnce_event hd hfile hkind hsize
  have hwrites : fs.WritesAtOnce host d buf ↔ _ := writesAtOnce_event hd hfile hkind hlength
  constructor
  · intro hagrees hroom
    have hwrite := hwrites.1 (hagrees.canWrite (hready.trans (congrArg Except.ok (decide_eq_true hroom))))
    rw [u64_room hroom] at hwrite
    omega
  · intro hanswers
    refine readinessAgrees_of hd ?_ ?_
    · rw [hreads, hcan]
      constructor
      · intro h
        exact of_decide_eq_true (Except.ok.inj h)
      · intro hpos
        rw [decide_eq_true hpos]
    · intro h
      have hroom : counter < 2 ^ 64 - 2 := by
        rw [hready] at h
        exact of_decide_eq_true (Except.ok.inj h)
      rw [hwrites, u64_room hroom]
      have := hanswers hroom
      omega

/-- A description of an end of a pipe, or of an event, is ready when and only when reading and writing go through, and wakes those
who wait for it, exactly if there is data to read or an end to write more, and if what is written fits. -/
theorem readiness_agrees_iff (hd : fs.descriptions.get? d = some ofd) (hfile : fs.files.get? ofd.file = some file)
    (hsized : Sized file size buf) : fs.ReadinessAgrees polls host d ofd.file size buf ↔ fs.Answerable file buf := by
  unfold Sized at hsized
  unfold Answerable
  split at hsized
  · next p side hkind => exact pipe_agrees_iff hd hfile hkind
  · next counter hkind => exact event_agrees_iff hd hfile hkind hsized.1 hsized.2
  · exact hsized.elim

end FS

namespace FileState

open FS

/-! ## Samples -/

/-- A pipe with its two ends open, and nothing in it. -/
theorem readiness_agrees_fresh_pipe : ∃ s, (machine 1).Reachable s ∧
    s.fs.ReadinessAgrees silentHost bareHost 0 3 1 [7] := by
  have hrun : ((machine 1).run first [createsPipe]).map (fun s =>
      decide ((s.fs.descriptions.get? 0).map OpenFileDescription.file = some 3 ∧
        (s.fs.files.get? 3).map File.kind = some (.pipeEndpoint 0 .READ) ∧
        (s.fs.pipes.get? 0).map Pipe.writeEndpoints = some [4])) = some true := by decide
  obtain ⟨s, hs, hfound⟩ := Option.map_eq_some_iff.1 hrun
  obtain ⟨hofd, hfile, hends⟩ := of_decide_eq_true hfound
  obtain ⟨ofd, hofd, hfileId⟩ := Option.map_eq_some_iff.1 hofd
  obtain ⟨file, hfile, hkind⟩ := Option.map_eq_some_iff.1 hfile
  obtain ⟨pipe, hpipe, hends⟩ := Option.map_eq_some_iff.1 hends
  refine ⟨s, (Machine.Reachable.init first_isNew).run _ hs, ?_⟩
  have hsized : Sized file 1 [7] := by
    rw [Sized, hkind]
    exact ⟨Nat.one_pos, rfl⟩
  have hanswers : s.fs.Answerable file [7] := by
    rw [Answerable, hkind]
    intro pipe' hpipe'
    obtain rfl := Option.some.inj (hpipe.symm.trans hpipe')
    exact .inr (by simp [hends])
  rw [← hfileId] at hfile ⊢
  exact (readiness_agrees_iff hofd hfile hsized).2 hanswers

/-- The end of a pipe that nothing can write to any more reads as empty at once, but is not ready, and a poll of it stays
blocked. An event with the largest counter that is ready to be written does not take a write of one. -/
theorem readiness_agrees_fails :
    (∃ s, (machine 1).Reachable s ∧ ∃ fds, s.tables = [fds] ∧ s.fs.ReadsAtOnce bareHost 0 1 ∧
      s.fs.canRead silentHost 3 = .ok false ∧ s.fs.tryUnblockPoll silentHost fds [⟨0, .CAN_READ, .NONE⟩] false = .ok none) ∧
    ∃ s, (machine 1).Reachable s ∧ s.fs.canWrite silentHost 3 = .ok true ∧ ¬ s.fs.WritesAtOnce bareHost 0 (bytesOf 1) := by
  constructor
  · have hrun : ((machine 1).run first [createsPipe, calls (.close 1)]).map (fun s =>
        decide (s.tables = [[some ⟨0, false⟩, none]] ∧ (s.fs.read bareHost 0 1).map Prod.snd = .ok (.bytes []) ∧
          s.fs.canRead silentHost 3 = .ok false ∧
          s.fs.tryUnblockPoll silentHost [some ⟨0, false⟩, none] [⟨0, .CAN_READ, .NONE⟩] false = .ok none)) =
        some true := by decide
    obtain ⟨s, hs, hfound⟩ := Option.map_eq_some_iff.1 hrun
    obtain ⟨htables, hread, hready, hpoll⟩ := of_decide_eq_true hfound
    obtain ⟨⟨fs', result⟩, hread, rfl⟩ := map_eq_ok.1 hread
    exact ⟨s, (Machine.Reachable.init first_isNew).run _ hs, _, htables, ⟨fs', _, hread, complete_bytes _⟩, hready, hpoll⟩
  · have hrun : ((machine 1).run first [createsEvent 0, calls (.write 0 (bytesOf (2 ^ 64 - 3)))]).map (fun s =>
        decide (s.fs.canWrite silentHost 3 = .ok true ∧
          (s.fs.write bareHost 0 (bytesOf 1)).map Prod.snd = .error .verification)) = some true := by decide
    obtain ⟨s, hs, hfound⟩ := Option.map_eq_some_iff.1 hrun
    obtain ⟨hready, hwrite⟩ := of_decide_eq_true hfound
    refine ⟨s, (Machine.Reachable.init first_isNew).run _ hs, hready, ?_⟩
    rintro ⟨r, hr⟩
    rw [hr] at hwrite
    cases hwrite

end FileState

end X64Emulator
