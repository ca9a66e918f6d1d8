import X64Emulator.Lemmas.FileRuns
import X64Emulator.Lemmas.Readiness

/-!
# The two paths of poll

The path that answers at once keeps the events that the guest left in its array, reports the descriptors that are not there, and
returns zero. The path of the blocker clears the events, fails on descriptors that are not there, and counts. They agree where
nothing is to be reported and nothing was left.
-/

namespace X64Emulator

open Outcome

namespace PollEvent

theorem mark_eq_none {revents event : PollEvent} {ready : Bool} (hevent : event ≠ NONE) :
    revents.mark ready event = NONE ↔ revents = NONE ∧ ready = false := by
  cases ready with
  | false => simp [mark]
  | true =>
    simp only [mark, if_true, NONE, BitVec.ofNat_eq_ofNat, BitVec.or_eq_zero_iff]
    constructor
    · intro h
      exact absurd h.2 hevent
    · rintro ⟨-, h⟩
      cases h

end PollEvent

/-- An entry as the guest writes it before its first call. -/
def PollFd.cleared (pollfd : PollFd) : PollFd := { pollfd with revents := .NONE }

namespace FS

variable {fs : FS} {polls : HostPolls} {fds : FileDescriptors}

/-- The events that a turn leaves are none exactly where none were there and none are added. -/
theorem marked_eq_none {revents : PollEvent} {readable writable : Bool} :
    (revents.mark readable .CAN_READ).mark writable .CAN_WRITE = .NONE ↔
      revents = .NONE ∧ readable = false ∧ writable = false := by
  rw [PollEvent.mark_eq_none (by decide), PollEvent.mark_eq_none (by decide), and_assoc]

/-- An entry of a file that is open and pollable, in which no events were left and none of those asked for are to be reported. -/
def Idle (fs : FS) (polls : HostPolls) (fds : FileDescriptors) (pollfd : PollFd) : Prop :=
  pollfd.revents = .NONE ∧
    ∃ descriptor, fds.findFileDescriptor pollfd.fd = some descriptor ∧
      fs.Asked polls descriptor pollfd.testRead pollfd.testWrite false false

/-- The turn that answers at once reports nothing exactly for an idle entry. -/
theorem pollNow_reports_nothing {pollfd r : PollFd} (h : fs.pollNow polls fds pollfd = .ok r) :
    r.revents = .NONE ↔ fs.Idle polls fds pollfd := by
  unfold pollNow at h
  cases hfind : fds.findFileDescriptor pollfd.fd with
  | none =>
    rw [hfind] at h
    rw [← Except.ok.inj h]
    constructor
    · intro hnone
      exact absurd (BitVec.or_eq_zero_iff.1 hnone).2 (by decide)
    · rintro ⟨-, descriptor, hdescriptor, -⟩
      rw [hfind] at hdescriptor
      cases hdescriptor
  | some descriptor =>
    rw [hfind] at h
    obtain ⟨readable, writable, hasked, rfl⟩ := pollFile_eq_ok.1 h
    rw [marked_eq_none]
    constructor
    · rintro ⟨hleft, rfl, rfl⟩
      exact ⟨hleft, descriptor, hfind, hasked⟩
    · rintro ⟨hleft, descriptor', hfind', hasked'⟩
      obtain rfl := Option.some.inj (hfind.symm.trans hfind')
      exact ⟨hleft, hasked.unique hasked'⟩

/-- Both turns leave an idle entry as it is. -/
theorem Idle.unchanged {pollfd : PollFd} (h : fs.Idle polls fds pollfd) :
    fs.pollNow polls fds pollfd = .ok pollfd ∧ fs.pollAgain polls fds pollfd = .ok pollfd := by
  obtain ⟨hleft, descriptor, hfind, hasked⟩ := h
  have hfile : fs.pollFile polls descriptor pollfd .NONE = .ok pollfd := by
    refine pollFile_eq_ok.2 ⟨false, false, hasked, ?_⟩
    cases pollfd
    exact congrArg _ hleft
  constructor
  · rw [pollNow, hfind, hleft]
    exact hfile
  · rw [pollAgain, hfind]
    exact hfile

/-- For an entry of an open file the two turns report the same exactly where all events that were left are reported anew. -/
theorem revents_agree_iff {pollfd now again : PollFd} (hnow : fs.pollNow polls fds pollfd = .ok now)
    (hagain : fs.pollAgain polls fds pollfd = .ok again) :
    now.revents = again.revents ↔ pollfd.revents ||| again.revents = again.revents := by
  cases hfind : fds.findFileDescriptor pollfd.fd with
  | none =>
    rw [pollAgain, hfind] at hagain
    cases hagain
  | some descriptor =>
    rw [pollNow, hfind] at hnow
    rw [pollAgain, hfind] at hagain
    obtain ⟨readable, writable, hasked, rfl⟩ := pollFile_eq_ok.1 hnow
    obtain ⟨readable', writable', hasked', rfl⟩ := pollFile_eq_ok.1 hagain
    obtain ⟨rfl, rfl⟩ := hasked.unique hasked'
    have hor : (pollfd.revents.mark readable .CAN_READ).mark writable .CAN_WRITE =
        pollfd.revents ||| (PollEvent.NONE.mark readable .CAN_READ).mark writable .CAN_WRITE := by
      cases readable <;> cases writable <;> simp [PollEvent.mark, PollEvent.NONE, BitVec.or_assoc]
    rw [hor]

/-- What is to hold of one array at one instant, at which the blocker has waited long enough to give a result in any case: both paths
give a result, in which they report the same events whatever the guest left in its array, and both return the number of entries
that they report something for. -/
def PollAgrees (fs : FS) (polls : HostPolls) (fds : FileDescriptors) (pollfds : List PollFd) : Prop :=
  ∃ now ret again, fs.pollImmediate polls fds pollfds = .ok (now, ret) ∧
    fs.tryUnblockPoll polls fds pollfds true = .ok (some (again, ret)) ∧
    now.map PollFd.revents = again.map PollFd.revents ∧ ret = nzrevents now ∧
    (∃ fresh, fs.pollImmediate polls fds (pollfds.map PollFd.cleared) = .ok (fresh, ret) ∧
      fresh.map PollFd.revents = now.map PollFd.revents)

theorem nzrevents_eq_zero {pollfds : List PollFd} :
    nzrevents pollfds = 0 ↔ ∀ pollfd ∈ pollfds, pollfd.revents = .NONE := by
  simp [nzrevents, List.countP_eq_zero]

theorem idle_of_turns {pollfds rfds : List PollFd}
    (hturns : List.Forall₂ (fun p r => fs.pollNow polls fds p = .ok r) pollfds rfds) (hnothing : ∀ r ∈ rfds, r.revents = .NONE) :
    ∀ pollfd ∈ pollfds, fs.Idle polls fds pollfd := by
  induction hturns with
  | nil =>
    intro pollfd hmem
    cases hmem
  | cons hturn hturns ih =>
    intro pollfd hmem
    rcases List.mem_cons.1 hmem with rfl | hmem
    · exact (pollNow_reports_nothing hturn).1 (hnothing _ List.mem_cons_self)
    · exact ih (fun r hr => hnothing r (List.mem_cons_of_mem _ hr)) pollfd hmem

/-- The two paths agree exactly where every entry is idle. -/
theorem poll_agrees_iff (fs : FS) (polls : HostPolls) (fds : FileDescriptors) (pollfds : List PollFd) :
    fs.PollAgrees polls fds pollfds ↔ ∀ pollfd ∈ pollfds, fs.Idle polls fds pollfd := by
  constructor
  · rintro ⟨now, ret, again, hnow, -, -, hcount, -⟩
    obtain ⟨rfds, hturns, h⟩ := bind_eq_ok.1 hnow
    obtain ⟨rfl, rfl⟩ := ok_pair h
    -- the path that answers at once returns zero, so it reports nothing
    exact idle_of_turns (mapM_eq_ok.1 hturns) (nzrevents_eq_zero.1 (Int.ofNat_eq_zero.1 hcount.symm))
  · intro hidle
    have hnow : fs.pollImmediate polls fds pollfds = .ok (pollfds, 0) :=
      bind_eq_ok.2 ⟨pollfds, mapM_eq_ok.2 (List.forall₂_same.2 fun p hp => (hidle p hp).unchanged.1), rfl⟩
    have hpolled : fs.doPoll polls fds pollfds = .ok pollfds :=
      mapM_eq_ok.2 (List.forall₂_same.2 fun p hp => (hidle p hp).unchanged.2)
    have hcount : nzrevents pollfds = 0 := nzrevents_eq_zero.2 fun p hp => (hidle p hp).1
    have hcleared : pollfds.map PollFd.cleared = pollfds := by
      refine List.map_congr_left (fun p hp => ?_) |>.trans (List.map_id pollfds)
      cases p
      exact congrArg _ (hidle _ hp).1.symm
    refine ⟨pollfds, 0, pollfds, hnow, bind_eq_ok.2 ⟨pollfds, hpolled, ?_⟩, rfl, ?_, pollfds, ?_, rfl⟩
    · rw [hcount]
      rfl
    · rw [hcount]
      rfl
    · rw [hcleared]
      exact hnow

end FS

namespace FileState

/-- An event that can be read is reported by both paths, but the one that answers at once returns zero. -/
theorem poll_agrees_fails : ∃ s, (machine 1).Reachable s ∧ ∃ fds, s.tables = [fds] ∧
    s.fs.pollImmediate silentHost fds [⟨0, .CAN_READ, .NONE⟩] = .ok ([⟨0, .CAN_READ, .CAN_READ⟩], 0) ∧
    s.fs.tryUnblockPoll silentHost fds [⟨0, .CAN_READ, .NONE⟩] true = .ok (some ([⟨0, .CAN_READ, .CAN_READ⟩], 1)) ∧
    ¬ s.fs.PollAgrees silentHost fds [⟨0, .CAN_READ, .NONE⟩] := by
  have hrun : ((machine 1).run first [createsEvent 1]).map (fun s =>
      decide (s.tables = [[some ⟨0, false⟩]] ∧
        s.fs.pollImmediate silentHost [some ⟨0, false⟩] [⟨0, .CAN_READ, .NONE⟩] = .ok ([⟨0, .CAN_READ, .CAN_READ⟩], 0) ∧
        s.fs.tryUnblockPoll silentHost [some ⟨0, false⟩] [⟨0, .CAN_READ, .NONE⟩] true =
          .ok (some ([⟨0, .CAN_READ, .CAN_READ⟩], 1)))) = some true := by decide
  obtain ⟨s, hs, hfound⟩ := Option.map_eq_some_iff.1 hrun
  obtain ⟨htables, hnow, hagain⟩ := of_decide_eq_true hfound
  refine ⟨s, (Machine.Reachable.init first_isNew).run _ hs, _, htables, hnow, hagain, ?_⟩
  rintro ⟨now, ret, again, hnow', hagain', -⟩
  have hzero := (ok_pair (hnow.symm.trans hnow')).2
  have hone := (Prod.mk.inj (Option.some.inj (Except.ok.inj (hagain.symm.trans hagain')))).2
  omega

end FileState

end X64Emulator
