import X64Emulator.Lemmas.PipeData

/-!
# Pipes as streams

A run together with a record of the bytes that were written to each pipe and of those that reads returned from it, the reads of
blocked threads that the scheduler tries again among them. Reads and writes are `Sys::read` and `Sys::write`, with one buffer.
-/

namespace X64Emulator

open Outcome

namespace FileState

open FS

variable {depth : Nat} {s s' : FileState} {host : HostFiles} {action : FileAction} {answer : FileAnswer} {d : DescriptionId}
  {p : PipeId} {count : Nat}

/-- The open file description of a slot. -/
def descriptorAt (s : FileState) (table : Nat) (fd : Int) : Option DescriptionId :=
  ((s.tables[table]?.getD []).findFileDescriptor fd).map FileDescriptor.openFileDescription

/-- What an action reads from, and how many bytes it asks for. -/
def readsFrom (s : FileState) : FileAction → Option (DescriptionId × Nat)
  | .call table (.read fd count) | .call table (.pread fd count _) => (s.descriptorAt table fd).map fun d => (d, count)
  | .tryUnblock index =>
    s.readBlockers[index]?.bind fun blocker => (s.descriptorAt blocker.table blocker.fd).map fun d => (d, blocker.count)
  | _ => none

/-- What an action writes to, and the bytes it writes. -/
def writesTo (s : FileState) : FileAction → Option (DescriptionId × List UInt8)
  | .call table (.write fd buf) | .call table (.pwrite fd buf _) => (s.descriptorAt table fd).map fun d => (d, buf)
  | _ => none

/-- The bytes that a read returned. -/
def returnedBytes : FileAnswer → List UInt8
  | .read result => readBytes result
  | _ => []

/-- Of the bytes of a write, those that were accepted. -/
def acceptedBytes (buf : List UInt8) : FileAnswer → List UInt8
  | .value n => buf.take n.toNat
  | _ => []

/-- The bytes that an action returned from each pipe. -/
def taken (s : FileState) (action : FileAction) (answer : FileAnswer) (p : PipeId) : List UInt8 :=
  match s.readsFrom action with
  | some (d, _) => if s.fs.pipeOf d = some p then returnedBytes answer else []
  | none => []

/-- The bytes that an action wrote to each pipe. -/
def given (s : FileState) (action : FileAction) (answer : FileAnswer) (p : PipeId) : List UInt8 :=
  match s.writesTo action with
  | some (d, buf) => if s.fs.pipeOf d = some p then acceptedBytes buf answer else []
  | none => []

/-- A slot refers to a write endpoint of the pipe. -/
def WriterOpen (s : FileState) (p : PipeId) : Prop :=
  ∃ d ∈ s.openDescriptions, ∃ f, s.fs.fileOf d = some f ∧ s.fs.IsEndpoint f p .WRITE

end FileState

/-- A state, with the bytes written to each pipe and the bytes returned from it so far. -/
structure PipeLog where
  state : FileState
  written : PipeId → List UInt8
  returned : PipeId → List UInt8

namespace PipeLog

open FileState

/-- One step, which is recorded. -/
def step (depth : Nat) (l : PipeLog) (a : HostFiles × FileAction) : Option PipeLog :=
  match l.state.act depth a.1 a.2 with
  | .ok (s', answer) => some {
      state := s'
      written := fun p => l.written p ++ l.state.given a.2 answer p
      returned := fun p => l.returned p ++ l.state.taken a.2 answer p }
  | .error _ => none

/-- The machine of the files, with the record. -/
def machine (depth : Nat) : Machine PipeLog (HostFiles × FileAction) where
  init l := l.state.IsNew depth ∧ (∀ p, l.written p = []) ∧ ∀ p, l.returned p = []
  step := step depth

end PipeLog

namespace FileState

open FS

variable {depth : Nat} {s s' : FileState} {host : HostFiles} {action : FileAction} {answer : FileAnswer} {d : DescriptionId}
  {p : PipeId} {count : Nat} {table : Nat} {fds : FileDescriptors} {fd : Int}

theorem descriptorAt_eq (htable : s.tables[table]? = some fds) :
    s.descriptorAt table fd = (fds.findFileDescriptor fd).map FileDescriptor.openFileDescription := by
  rw [descriptorAt, htable]
  rfl

theorem taken_of_reads (h : s.readsFrom action = some (d, count)) (hp : s.fs.pipeOf d = some p) :
    s.taken action answer = only p (returnedBytes answer) := by
  funext q
  unfold taken
  rw [h]
  simp only [hp, Option.some.injEq, only]
  simp only [eq_comm]

theorem taken_of_none (h : ∀ d count, s.readsFrom action = some (d, count) → s.fs.pipeOf d = none) :
    s.taken action answer = fun _ => [] := by
  funext q
  unfold taken
  split
  · next d count hreads => simp [h d count hreads]
  · rfl

theorem given_of_writes {buf : List UInt8} (h : s.writesTo action = some (d, buf)) (hp : s.fs.pipeOf d = some p) :
    s.given action answer = only p (acceptedBytes buf answer) := by
  funext q
  unfold given
  rw [h]
  simp only [hp, Option.some.injEq, only]
  simp only [eq_comm]

theorem given_of_none (h : ∀ d buf, s.writesTo action = some (d, buf) → s.fs.pipeOf d = none) :
    s.given action answer = fun _ => [] := by
  funext q
  unfold given
  split
  · next d buf hwrites => simp [h d buf hwrites]
  · rfl

/-- An action that moves no bytes. -/
theorem moves_of_quiet (hs : s.fs.Sound s.openDescriptions) (hquiet : actionMovesData action = false)
    (h : s.act depth host action = .ok (s', answer)) : s.fs.SameData s'.fs := by
  have hshifts : s.Shifts (fun _ _ _ => True) (fun _ _ => True) (fun _ _ => True) False depth s' :=
    act_shifts hs.tree allows_any (fun _ call _ => admitted_any host depth s.fs call)
      (fun _ _ call _ _ => careful_of_any (fun _ _ => trivial) (fun _ _ => trivial) call) (by simp [hquiet]) h
  refine (hshifts.keep (I := fun fs _ => s.fs.SameData fs) ?_ hs (.of_pipes rfl)).2
  intro fs ds fs' ds' _ hsame hshift
  exact hsame.trans (sameData_shift hshift)

theorem moves_of_read {result : ReadResult} (hreads : s.readsFrom action = some (d, count))
    (hwrites : s.writesTo action = none) (h : (s.fs.pipeOf d = none ∧ s'.fs.pipes = s.fs.pipes) ∨
      ∃ p ofd fs1, s.fs.pipeOf d = some p ∧ s.fs.descriptions.get? d = some ofd ∧
        s.fs.readPipe p ofd.statusFlags.nonblock count = .ok (fs1, result) ∧ s'.fs.pipes = fs1.pipes) :
    s.fs.Moves s'.fs (s.taken action (.read result)) (s.given action (.read result)) := by
  rw [given_of_none (by simp [hwrites])]
  rcases h with ⟨hnone, hpipes⟩ | ⟨p, ofd, fs1, hp, -, hread, hpipes⟩
  · rw [taken_of_none]
    · exact SameData.of_pipes hpipes
    · intro d' count' hd'
      obtain ⟨rfl, -⟩ := Prod.ext_iff.1 (Option.some.inj (hreads.symm.trans hd'))
      exact hnone
  · rw [taken_of_reads hreads hp]
    exact (readPipe_moves hread).of_pipes hpipes

theorem moves_of_write {buf : List UInt8} {n : Int} (hreads : s.readsFrom action = none)
    (hwrites : s.writesTo action = some (d, buf)) (h : (s.fs.pipeOf d = none ∧ s'.fs.pipes = s.fs.pipes) ∨
      ∃ p, s.fs.pipeOf d = some p ∧ ((n = -EBADF ∧ s'.fs.pipes = s.fs.pipes) ∨
        (n = buf.length ∧ s.fs.Moves s'.fs (fun _ => []) (only p buf)))) :
    s.fs.Moves s'.fs (s.taken action (.value n)) (s.given action (.value n)) := by
  rw [taken_of_none (by simp [hreads])]
  rcases h with ⟨hnone, hpipes⟩ | ⟨p, hp, ⟨rfl, hpipes⟩ | ⟨rfl, hmoves⟩⟩
  · rw [given_of_none]
    · exact SameData.of_pipes hpipes
    · intro d' buf' hd'
      obtain ⟨rfl, -⟩ := Prod.ext_iff.1 (Option.some.inj (hwrites.symm.trans hd'))
      exact hnone
  · have hnone : s.given action (.value (-EBADF)) = fun _ => [] := by
      rw [given_of_writes hwrites hp]
      funext q
      simp [only, acceptedBytes, EBADF]
    rw [hnone]
    exact SameData.of_pipes hpipes
  · rw [given_of_writes hwrites hp]
    simpa [acceptedBytes] using hmoves

theorem moves_of_nothing (hreads : s.readsFrom action = none) (hwrites : s.writesTo action = none)
    (h : s.fs.SameData s'.fs) : s.fs.Moves s'.fs (s.taken action answer) (s.given action answer) := by
  rw [taken_of_none (by simp [hreads]), given_of_none (by simp [hwrites])]
  exact h

/-- What one action moves: what it returned comes from the front of a buffer, what it wrote goes to the end. -/
theorem act_moves (hs : s.fs.Sound s.openDescriptions) (h : s.act depth host action = .ok (s', answer)) :
    s.fs.Moves s'.fs (s.taken action answer) (s.given action answer) := by
  cases hquiet : actionMovesData action with
  | false =>
    refine moves_of_nothing ?_ ?_ (moves_of_quiet hs hquiet h)
    · cases action with
      | call table call => cases call <;> first | rfl | cases hquiet
      | tryUnblock index => cases hquiet
      | forget index => rfl
    · cases action with
      | call table call => cases call <;> first | rfl | cases hquiet
      | tryUnblock index => cases hquiet
      | forget index => rfl
  | true =>
    rcases act_cases h with ⟨table, fds, call, rfl, htable, hperform⟩ | ⟨index, blocker, rfl, hblocker, htry⟩ | ⟨index, rfl, -⟩
    · cases performed hperform with
      | @refused call _ hrefused =>
        refine moves_of_nothing ?_ ?_ (SameData.of_pipes rfl)
        · cases call with
          | read | pread =>
            rw [readsFrom, descriptorAt_eq htable, show fds.findFileDescriptor _ = none from hrefused]
            rfl
          | _ => rfl
        · cases call with
          | write | pwrite =>
            rw [writesTo, descriptorAt_eq htable, show fds.findFileDescriptor _ = none from hrefused]
            rfl
          | _ => rfl
      | read hfind hread =>
        refine moves_of_read ?_ rfl (read_pipe hread)
        rw [readsFrom, descriptorAt_eq htable, hfind]
        rfl
      | pread hfind hread =>
        refine moves_of_read ?_ rfl (pread_pipe hread)
        rw [readsFrom, descriptorAt_eq htable, hfind]
        rfl
      | write hfind hwrite =>
        refine moves_of_write rfl ?_ (write_pipe hwrite)
        rw [writesTo, descriptorAt_eq htable, hfind]
        rfl
      | pwrite hfind hwrite =>
        refine moves_of_write rfl ?_ (pwrite_pipe hwrite)
        rw [writesTo, descriptorAt_eq htable, hfind]
        rfl
      | _ => cases hquiet
    · rcases tryUnblock_cases htry with ⟨hnone, hfs, -⟩ | ⟨descriptor, fs1, result, hfind, hread, rfl, -, rfl, -⟩
      · refine moves_of_nothing ?_ rfl (SameData.of_pipes (by rw [hfs]))
        rw [readsFrom, hblocker, Option.bind_some, descriptorAt, hnone]
        rfl
      · refine moves_of_read (d := descriptor.openFileDescription) ?_ rfl (read_pipe hread)
        rw [readsFrom, hblocker, Option.bind_some, descriptorAt, hfind]
        rfl
    · cases hquiet

end FileState

namespace PipeLog

open FS FileState

variable {depth : Nat} {l l' : PipeLog}

theorem step_some {a : HostFiles × FileAction} (h : (machine depth).step l a = some l') :
    ∃ answer, l.state.act depth a.1 a.2 = .ok (l'.state, answer) ∧
      (∀ p, l'.written p = l.written p ++ l.state.given a.2 answer p) ∧
      ∀ p, l'.returned p = l.returned p ++ l.state.taken a.2 answer p := by
  change step depth l a = some l' at h
  unfold step at h
  split at h
  · next s' answer hact =>
    obtain rfl := Option.some.inj h
    exact ⟨answer, hact, fun _ => rfl, fun _ => rfl⟩
  · cases h

/-- What was returned and what is buffered is what was written. -/
structure InOrder (l : PipeLog) : Prop where
  stream : ∀ p pipe, l.state.fs.pipes.get? p = some pipe → l.returned p ++ pipe.data = l.written p
  started : ∀ p, l.returned p <+: l.written p
  unused : ∀ p, l.state.fs.pipes.next ≤ p → l.written p = [] ∧ l.returned p = []

theorem InOrder.moves {a : HostFiles × FileAction} {answer : FileAnswer} (h : l.InOrder)
    (hm : l.state.fs.Moves l'.state.fs (l.state.taken a.2 answer) (l.state.given a.2 answer))
    (hwritten : ∀ p, l'.written p = l.written p ++ l.state.given a.2 answer p)
    (hreturned : ∀ p, l'.returned p = l.returned p ++ l.state.taken a.2 answer p) : l'.InOrder := by
  have hstream : ∀ p pipe', l'.state.fs.pipes.get? p = some pipe' → l'.returned p ++ pipe'.data = l'.written p := by
    intro p pipe' hpipe'
    rw [hwritten, hreturned]
    rcases hm.data p pipe' hpipe' with ⟨pipe, hpipe, hdata⟩ | ⟨hnew, hdata, htook, hput⟩
    · rw [List.append_assoc, hdata, ← List.append_assoc, h.stream p pipe hpipe]
    · obtain ⟨hw, hr⟩ := h.unused p hnew
      rw [hw, hr, hdata, htook, hput]
      rfl
  have hquiet : ∀ p, ¬ l'.state.fs.pipes.Live p → l'.written p = l.written p ∧ l'.returned p = l.returned p := by
    intro p hp
    rw [hwritten, hreturned]
    have hnone : ∀ {took put : List UInt8}, (took ≠ [] ∨ put ≠ [] → l'.state.fs.pipes.Live p) → took = [] ∧ put = [] := by
      intro took put hlive
      by_contra hne
      rw [not_and_or] at hne
      exact hp (hlive hne)
    obtain ⟨htook, hput⟩ := hnone (hm.live p)
    rw [htook, hput, List.append_nil, List.append_nil]
    exact ⟨rfl, rfl⟩
  refine ⟨hstream, ?_, ?_⟩
  · intro p
    by_cases hp : l'.state.fs.pipes.Live p
    · obtain ⟨pipe', hpipe'⟩ := hp
      exact ⟨pipe'.data, hstream p pipe' hpipe'⟩
    · obtain ⟨hw, hr⟩ := hquiet p hp
      rw [hw, hr]
      exact h.started p
  · intro p hp
    have hdead : ¬ l'.state.fs.pipes.Live p := fun hlive => Nat.not_lt.2 hp hlive.lt_next
    obtain ⟨hw, hr⟩ := hquiet p hdead
    rw [hw, hr]
    exact h.unused p (Nat.le_trans hm.next hp)

theorem reachable_inOrder (h : (machine depth).Reachable l) : (FileState.machine depth).Reachable l.state ∧ l.InOrder := by
  refine h.invariant (fun l => (FileState.machine depth).Reachable l.state ∧ l.InOrder) ?_ ?_
  · rintro l ⟨hnew, hwritten, hreturned⟩
    refine ⟨.init hnew, ?_, ?_, ?_⟩
    · intro p pipe hpipe
      obtain ⟨⟨host, ttypath, hfs⟩, -, -⟩ := hnew
      have hpipes : l.state.fs.pipes = bare.pipes := (new_edits (δ := fun _ _ => True) allows_any hfs).pipes
      rw [hpipes, show bare.pipes = Heap.empty from rfl, Heap.get?_empty] at hpipe
      cases hpipe
    · intro p
      simp [hreturned, hwritten]
    · intro p _
      exact ⟨hwritten p, hreturned p⟩
  · rintro l a l' ⟨hr, hinOrder⟩ hstep
    obtain ⟨answer, hact, hwritten, hreturned⟩ := step_some hstep
    have hr' : (FileState.machine depth).Reachable l'.state := hr.step a (by simp [FileState.machine, hact, Except.toOption])
    exact ⟨hr', hinOrder.moves (act_moves (reachable_sound hr) hact) hwritten hreturned⟩

end PipeLog

namespace FileState

open FS

variable {depth : Nat} {s s' : FileState} {host : HostFiles} {action : FileAction} {answer : FileAnswer} {d : DescriptionId}
  {p : PipeId} {count : Nat}

/-- The write endpoints that a pipe knows are those that slots refer to. -/
theorem writerOpen_iff {pipe : Pipe} (hs : s.fs.Sound s.openDescriptions) (hpipe : s.fs.pipes.get? p = some pipe) :
    s.WriterOpen p ↔ pipe.writeEndpoints ≠ [] := by
  constructor
  · rintro ⟨d, -, f, -, hend⟩
    exact List.ne_nil_of_mem ((hs.piped.ends p pipe .WRITE f hpipe).2 hend)
  · intro hne
    obtain ⟨f, hf⟩ := List.exists_mem_of_ne_nil _ hne
    have hend := (hs.piped.ends p pipe .WRITE f hpipe).1 hf
    obtain ⟨d, hd, hfd⟩ := hs.held f p .WRITE hend
    exact ⟨d, hd, f, hfd, hend⟩

/-- Every read of an endpoint is one of the pipe. -/
theorem act_readPipe (hreads : s.readsFrom action = some (d, count)) (hp : s.fs.pipeOf d = some p)
    (h : s.act depth host action = .ok (s', answer)) : ∃ ofd fs1 result, s.fs.descriptions.get? d = some ofd ∧
      s.fs.readPipe p ofd.statusFlags.nonblock count = .ok (fs1, result) ∧ answer = .read result := by
  rcases act_cases h with ⟨table, fds, call, rfl, htable, hperform⟩ | ⟨index, blocker, rfl, hblocker, htry⟩ | ⟨index, rfl, -⟩
  · cases performed hperform with
    | @refused call _ hrefused =>
      cases call with
      | read | pread =>
        rw [readsFrom, descriptorAt_eq htable, show fds.findFileDescriptor _ = none from hrefused] at hreads
        cases hreads
      | _ => cases hreads
    | @read _ _ _ _ result hfind hread =>
      rw [readsFrom, descriptorAt_eq htable, hfind] at hreads
      obtain ⟨rfl, rfl⟩ := Prod.ext_iff.1 (Option.some.inj hreads)
      rcases read_pipe hread with ⟨hnone, -⟩ | ⟨q, ofd, fs2, hq, hofd, hpipe, -⟩
      · cases hnone.symm.trans hp
      · obtain rfl := Option.some.inj (hq.symm.trans hp)
        exact ⟨ofd, fs2, result, hofd, hpipe, rfl⟩
    | @pread _ _ _ _ _ result hfind hread =>
      rw [readsFrom, descriptorAt_eq htable, hfind] at hreads
      obtain ⟨rfl, rfl⟩ := Prod.ext_iff.1 (Option.some.inj hreads)
      rcases pread_pipe hread with ⟨hnone, -⟩ | ⟨q, ofd, fs2, hq, hofd, hpipe, -⟩
      · cases hnone.symm.trans hp
      · obtain rfl := Option.some.inj (hq.symm.trans hp)
        exact ⟨ofd, fs2, result, hofd, hpipe, rfl⟩
    | _ => cases hreads
  · rw [readsFrom, hblocker, Option.bind_some, descriptorAt] at hreads
    rcases tryUnblock_cases htry with ⟨hnone, -⟩ | ⟨descriptor, fs1, result, hfind, hread, -, -, rfl, -⟩
    · rw [hnone] at hreads
      cases hreads
    · rw [hfind] at hreads
      obtain ⟨rfl, rfl⟩ := Prod.ext_iff.1 (Option.some.inj hreads)
      rcases read_pipe hread with ⟨hnone, -⟩ | ⟨q, ofd, fs2, hq, hofd, hpipe, -⟩
      · cases hnone.symm.trans hp
      · obtain rfl := Option.some.inj (hq.symm.trans hp)
        exact ⟨ofd, fs2, result, hofd, hpipe, rfl⟩
  · cases hreads

end FileState

namespace PipeLog

open FS FileState

variable {depth : Nat} {l : PipeLog}

/-- In every run: what was returned from a pipe, followed by what is buffered, is what was written to it; and a read of an
endpoint for a positive count, at once or tried again, gives nothing only if nothing is buffered and no write endpoint is open, and
it blocks, or refuses to when it must not block, only if nothing is buffered and a write endpoint is open. -/
theorem pipe_stream (h : (machine depth).Reachable l) :
    (∀ p pipe, l.state.fs.pipes.get? p = some pipe → l.returned p ++ pipe.data = l.written p) ∧
    (∀ p, l.returned p <+: l.written p) ∧
    ∀ host action s' answer d count p, l.state.act depth host action = .ok (s', answer) →
      l.state.readsFrom action = some (d, count) → l.state.fs.pipeOf d = some p →
      ∃ pipe ofd, l.state.fs.pipes.get? p = some pipe ∧ l.state.fs.descriptions.get? d = some ofd ∧
        (answer = .read (.bytes []) → 0 < count → pipe.data = [] ∧ ¬ l.state.WriterOpen p) ∧
        (answer = .read .blocked → pipe.data = [] ∧ l.state.WriterOpen p ∧ ofd.statusFlags.nonblock = false) ∧
        ∀ errno, answer = .read (.error errno) →
          errno = -EAGAIN ∧ pipe.data = [] ∧ l.state.WriterOpen p ∧ ofd.statusFlags.nonblock = true := by
  obtain ⟨hr, hinOrder⟩ := reachable_inOrder h
  have hs := reachable_sound hr
  refine ⟨hinOrder.stream, hinOrder.started, ?_⟩
  intro host action s' answer d count p hact hreads hp
  obtain ⟨ofd, fs1, result, hofd, hread, rfl⟩ := act_readPipe hreads hp hact
  obtain ⟨pipe, hpipe, -⟩ := readPipe_cases hread
  have hresult := readPipe_result hpipe hread
  have hwriter := writerOpen_iff hs hpipe
  have hblocks : (∀ data, result ≠ .bytes data) → pipe.data = [] ∧ l.state.WriterOpen p ∧
      result = if ofd.statusFlags.nonblock then .error (-EAGAIN) else .blocked := by
    intro hno
    by_cases hdata : pipe.data = []
    · rw [if_pos hdata] at hresult
      by_cases hwriters : pipe.writeEndpoints = []
      · rw [if_pos hwriters] at hresult
        exact absurd hresult (hno _)
      · rw [if_neg hwriters] at hresult
        exact ⟨hdata, hwriter.2 hwriters, hresult⟩
    · rw [if_neg hdata] at hresult
      exact absurd hresult (hno _)
  refine ⟨pipe, ofd, hpipe, hofd, ?_, ?_, ?_⟩
  · intro hnothing hcount
    obtain rfl := FileAnswer.read.inj hnothing
    by_cases hdata : pipe.data = []
    · rw [if_pos hdata] at hresult
      by_cases hwriters : pipe.writeEndpoints = []
      · exact ⟨hdata, fun hopen => hwriter.1 hopen hwriters⟩
      · rw [if_neg hwriters] at hresult
        split at hresult <;> cases hresult
    · rw [if_neg hdata, ReadResult.bytes.injEq, eq_comm, List.take_eq_nil_iff] at hresult
      rcases hresult with rfl | hnil
      · exact absurd hcount (Nat.lt_irrefl 0)
      · exact absurd hnil hdata
  · intro hblocked
    obtain rfl := FileAnswer.read.inj hblocked
    obtain ⟨hdata, hopen, heq⟩ := hblocks (by simp)
    refine ⟨hdata, hopen, ?_⟩
    cases hnon : ofd.statusFlags.nonblock with
    | true =>
      rw [hnon] at heq
      cases heq
    | false => rfl
  · intro errno herror
    obtain rfl := FileAnswer.read.inj herror
    obtain ⟨hdata, hopen, heq⟩ := hblocks (by simp)
    cases hnon : ofd.statusFlags.nonblock with
    | true =>
      rw [hnon] at heq
      exact ⟨ReadResult.error.inj heq, hdata, hopen, rfl⟩
    | false =>
      rw [hnon] at heq
      cases heq

/-- The first process makes a pipe, writes three bytes and reads two. -/
def pipeRun : List (HostFiles × FileAction) :=
  [createsPipe, calls (.write 1 [1, 2, 3]), calls (.read 0 2)]

theorem pipe_stream_sample : ∃ l, (machine 1).Reachable l ∧ l.returned 0 = [1, 2] ∧ l.written 0 = [1, 2, 3] ∧
    ∃ pipe, l.state.fs.pipes.get? 0 = some pipe ∧ pipe.data = [3] ∧ l.returned 0 ++ pipe.data = l.written 0 := by
  have hrun : (((machine 1).run ⟨first, fun _ => [], fun _ => []⟩ pipeRun).bind fun l =>
      (l.state.fs.pipes.get? 0).map fun pipe => (l.returned 0, l.written 0, pipe.data)) = some ([1, 2], [1, 2, 3], [3]) := by
    decide
  obtain ⟨l, hl, hrun⟩ := Option.bind_eq_some_iff.1 hrun
  obtain ⟨pipe, hpipe, hfound⟩ := Option.map_eq_some_iff.1 hrun
  obtain ⟨hreturned, hfound⟩ := Prod.ext_iff.1 hfound
  obtain ⟨hwritten, hdata⟩ := Prod.ext_iff.1 hfound
  have hinit : (machine 1).init ⟨first, fun _ => [], fun _ => []⟩ := ⟨first_isNew, fun _ => rfl, fun _ => rfl⟩
  have hreach : (machine 1).Reachable l := (Machine.Reachable.init hinit).run _ hl
  exact ⟨l, hreach, hreturned, hwritten, pipe, hpipe, hdata, (pipe_stream hreach).1 0 pipe hpipe⟩

end PipeLog

end X64Emulator
