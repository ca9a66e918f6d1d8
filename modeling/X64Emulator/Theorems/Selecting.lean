import X64Emulator.Lemmas.FileRuns
import X64Emulator.Lemmas.Readiness

/-!
# The two paths of select

Both paths share the loop over the descriptors. The path that answers at once returns zero or an error, and leaves the sets as they
were when there is an error; the path of the blocker counts the bits of all three sets, the untested ones among them. They agree
where no bit is left at the end.
-/

namespace X64Emulator

open Outcome

namespace FS

variable {fs : FS} {polls : HostPolls} {fds : FileDescriptors} {nfds : Int} {data : SelectData}

theorem getElem?_selected {n k : Nat} {slot : Option FileDescriptor} :
    (selected fds n)[k]? = some slot ↔ k < n ∧ fds.findFileDescriptor k = slot := by
  by_cases hk : k < n
  · simp [selected, hk]
  · simp [selected, hk]

theorem length_selected (fds : FileDescriptors) (n : Nat) : (selected fds n).length = n := by simp [selected]

/-- The file of a number is open and ready. -/
def IsReady (fs : FS) (fds : FileDescriptors) (ready : FileId → Except FsFailure Bool) (fd : Nat) : Prop :=
  ∃ descriptor f, fds.findFileDescriptor fd = some descriptor ∧ fs.pollable descriptor = .ok f ∧ ready f = .ok true

/-- A set after the call has the bits below `nfds` that it had before and whose files are ready. -/
def ExactlyReady (fs : FS) (fds : FileDescriptors) (nfds : Int) (ready : FileId → Except FsFailure Bool) (before after : FdSet) :
    Prop :=
  ∀ fd : Nat, after.test fd = true ↔ (fd : Int) < nfds ∧ before.test fd = true ∧ fs.IsReady fds ready fd

/-- What is to hold of one call at one instant, at which the blocker has waited long enough to give a result in any case: both paths
give the same sets and the same value, the sets have exactly the bits below `nfds` whose files are ready, and the value is their
number. No file is ever in an exceptional state, and of that set only the bits from `nfds` on are asked to be gone. -/
def SelectAgrees (fs : FS) (polls : HostPolls) (fds : FileDescriptors) (nfds : Int) (data : SelectData) : Prop :=
  ∃ after ret, fs.selectNow polls fds nfds data = .ok (after, ret) ∧
    fs.tryUnblockSelect polls fds nfds data true = .ok (some (after, ret)) ∧
    fs.ExactlyReady fds nfds (fs.canRead polls) data.readfds after.readfds ∧
    fs.ExactlyReady fds nfds (fs.canWrite polls) data.writefds after.writefds ∧
    (∀ fd : Nat, after.exceptfds.test fd = true → (fd : Int) < nfds) ∧ ret = after.count

/-- A number of descriptors that the sets can hold, an empty exception set, and only bits below that number, of files that are open
and not ready for what they are tested for. -/
structure Unready (fs : FS) (polls : HostPolls) (fds : FileDescriptors) (nfds : Int) (data : SelectData) : Prop where
  nonneg : 0 ≤ nfds
  le : nfds ≤ FD_SETSIZE
  exceptfds : ∀ fd, data.exceptfds.test fd = false
  tested : ∀ fd : Nat, data.readfds.test fd = true ∨ data.writefds.test fd = true → (fd : Int) < nfds ∧
    ∃ descriptor, fds.findFileDescriptor fd = some descriptor ∧
      fs.Asked polls descriptor (data.readfds.test fd) (data.writefds.test fd) false false

theorem selectNow_eq_ok {after : SelectData} {ret : Int} (h : fs.selectNow polls fds nfds data = .ok (after, ret)) (hret : 0 ≤ ret) :
    0 ≤ nfds ∧ ret = 0 ∧ fs.selectFrom polls 0 (selected fds nfds.toNat) data = .ok (after, 0) ∧
      fs.Passed polls 0 (selected fds nfds.toNat) data after := by
  obtain ⟨⟨sets, value⟩, himm, h⟩ := bind_eq_ok.1 h
  obtain ⟨_, hnfds, hfrom⟩ := bind_eq_ok.1 himm
  dsimp only at h
  rcases selectFrom_cases hfrom with hvalue | ⟨hvalue, hpassed⟩
  · -- the error is negative
    rw [if_pos (by rw [hvalue]; decide)] at h
    obtain ⟨-, rfl⟩ := ok_pair h
    rw [hvalue] at hret
    exact absurd hret (by decide)
  · rw [if_neg (by omega)] at h
    obtain ⟨rfl, rfl⟩ := ok_pair h
    rw [hvalue] at hfrom
    exact ⟨check_eq_ok.1 hnfds, hvalue, hfrom, hpassed⟩

/-- Where no bit is left at the end there was none but of files that are not ready. -/
theorem Passed.unready {after : SelectData} (hnfds : 0 ≤ nfds) (h : fs.Passed polls 0 (selected fds nfds.toNat) data after)
    (hnone : after.count = 0) : fs.Unready polls fds nfds data := by
  obtain ⟨hread, hwrite, hexcept⟩ := SelectData.count_eq_zero.1 hnone
  have hlen := length_selected fds nfds.toNat
  refine ⟨hnfds, ?_, ?_, ?_⟩
  · by_cases hzero : nfds.toNat = 0
    · have : (0 : Int) ≤ FD_SETSIZE := Int.natCast_nonneg _
      omega
    · have := h.bound (List.ne_nil_of_length_pos (by omega))
      omega
  · rw [← h.exceptfds]
    exact hexcept
  · intro fd htest
    have hlt : fd < nfds.toNat := by
      by_contra hge
      -- a bit from `nfds` on would still be there
      obtain ⟨hr, hw⟩ := h.outside fd (.inr (by omega))
      rw [← hr, ← hw, hread, hwrite] at htest
      exact absurd htest (by decide)
    obtain ⟨descriptor, hslot, hasked⟩ := h.inside fd _ (Nat.zero_le fd) (getElem?_selected.2 ⟨hlt, rfl⟩) htest
    rw [hread, hwrite] at hasked
    exact ⟨by omega, descriptor, hslot, hasked⟩

/-- A set with no bit is exactly ready where what is asked says no. -/
theorem exactlyReady_of_none {ready : FileId → Except FsFailure Bool} {before after : FdSet} (hafter : ∀ fd, after.test fd = false)
    (hbefore : ∀ fd : Nat, before.test fd = true → ¬ fs.IsReady fds ready fd) : fs.ExactlyReady fds nfds ready before after := by
  intro fd
  rw [hafter fd]
  constructor
  · intro h
    cases h
  · rintro ⟨-, htest, hready⟩
    exact absurd hready (hbefore fd htest)

theorem Unready.not_ready {fd : Nat} (h : fs.Unready polls fds nfds data) :
    (data.readfds.test fd = true → ¬ fs.IsReady fds (fs.canRead polls) fd) ∧
      (data.writefds.test fd = true → ¬ fs.IsReady fds (fs.canWrite polls) fd) := by
  constructor
  · rintro htest ⟨descriptor', f', hfind', hf', hready⟩
    obtain ⟨-, descriptor, hfind, hasked⟩ := h.tested fd (.inl htest)
    obtain ⟨f, hf, hr, -⟩ := hasked.answers
    obtain rfl := Option.some.inj (hfind.symm.trans hfind')
    obtain rfl := Except.ok.inj (hf.symm.trans hf')
    rw [htest, FS.tested, if_pos rfl, hready] at hr
    cases hr
  · rintro htest ⟨descriptor', f', hfind', hf', hready⟩
    obtain ⟨-, descriptor, hfind, hasked⟩ := h.tested fd (.inr htest)
    obtain ⟨f, hf, -, hw⟩ := hasked.answers
    obtain rfl := Option.some.inj (hfind.symm.trans hfind')
    obtain rfl := Except.ok.inj (hf.symm.trans hf')
    rw [htest, FS.tested, if_pos rfl, hready] at hw
    cases hw

/-- The loop takes the bits of files that are not ready. -/
theorem Unready.passes (h : fs.Unready polls fds nfds data) : ∃ after,
    fs.selectImmediate polls fds nfds data = .ok (after, 0) ∧ after.count = 0 := by
  have hlen := length_selected fds nfds.toNat
  have hle := h.le
  have hnonneg := h.nonneg
  have hpasses : ∃ after, fs.selectFrom polls 0 (selected fds nfds.toNat) data = .ok (after, 0) := by
    refine selectFrom_passes (fun _ => by omega) ?_
    intro k slot _ hslot htest
    obtain ⟨-, descriptor, hfind, hasked⟩ := h.tested k htest
    exact ⟨descriptor, false, false, (getElem?_selected.1 hslot).2.symm.trans hfind, hasked⟩
  obtain ⟨after, hfrom⟩ := hpasses
  refine ⟨after, bind_eq_ok.2 ⟨(), check_eq_ok.2 hnonneg, hfrom⟩, ?_⟩
  rcases selectFrom_cases hfrom with herror | ⟨-, hpassed⟩
  · exact absurd herror (by decide)
  · have hgone : ∀ k, after.readfds.test k = false ∧ after.writefds.test k = false := by
      intro k
      by_cases htest : data.readfds.test k = true ∨ data.writefds.test k = true
      · obtain ⟨hlt, descriptor, hfind, hasked⟩ := h.tested k htest
        obtain ⟨descriptor', hslot, hasked'⟩ := hpassed.inside k _ (Nat.zero_le k) (getElem?_selected.2 ⟨by omega, rfl⟩) htest
        obtain rfl := Option.some.inj (hfind.symm.trans hslot)
        obtain ⟨hr, hw⟩ := hasked.unique hasked'
        exact ⟨hr.symm, hw.symm⟩
      · obtain ⟨hr, hw⟩ := not_or.1 htest
        exact hpassed.untested k (Bool.eq_false_iff.2 hr) (Bool.eq_false_iff.2 hw)
    refine SelectData.count_eq_zero.2 ⟨fun k => (hgone k).1, fun k => (hgone k).2, ?_⟩
    rw [hpassed.exceptfds]
    exact h.exceptfds

/-- The two paths agree, and on what they should say, exactly where every bit is that of a file that is not ready. -/
theorem select_agrees_iff (fs : FS) (polls : HostPolls) (fds : FileDescriptors) (nfds : Int) (data : SelectData) :
    fs.SelectAgrees polls fds nfds data ↔ fs.Unready polls fds nfds data := by
  constructor
  · rintro ⟨after, ret, hnow, -, -, -, -, hcount⟩
    obtain ⟨hnfds, hzero, -, hpassed⟩ := selectNow_eq_ok hnow (by omega)
    -- the path that answers at once returns zero, so no bit is left
    exact hpassed.unready hnfds (by omega)
  · intro h
    obtain ⟨after, himm, hnone⟩ := h.passes
    obtain ⟨hread, hwrite, hexcept⟩ := SelectData.count_eq_zero.1 hnone
    refine ⟨after, 0, bind_eq_ok.2 ⟨_, himm, rfl⟩, bind_eq_ok.2 ⟨_, himm, ?_⟩, ?_, ?_, ?_, ?_⟩
    · dsimp only
      rw [if_pos (.inr (.inr rfl)), hnone]
      rfl
    · exact exactlyReady_of_none hread fun fd => h.not_ready.1
    · exact exactlyReady_of_none hwrite fun fd => h.not_ready.2
    · intro fd htest
      rw [hexcept] at htest
      cases htest
    · rw [hnone]
      rfl

end FS

namespace FileState

/-- An event that can be read is found by both paths, but the one that answers at once returns zero; and a bit beyond `nfds` stays
in the set of both, where only the blocker counts it. -/
theorem select_agrees_fails : ∃ s, (machine 1).Reachable s ∧ ∃ fds, s.tables = [fds] ∧
    s.fs.selectNow silentHost fds 1 ⟨1, 0, 0⟩ = .ok (⟨1, 0, 0⟩, 0) ∧
    s.fs.tryUnblockSelect silentHost fds 1 ⟨1, 0, 0⟩ true = .ok (some (⟨1, 0, 0⟩, 1)) ∧
    s.fs.selectNow silentHost fds 0 ⟨2, 0, 0⟩ = .ok (⟨2, 0, 0⟩, 0) ∧
    s.fs.tryUnblockSelect silentHost fds 0 ⟨2, 0, 0⟩ true = .ok (some (⟨2, 0, 0⟩, 1)) ∧
    ¬ s.fs.SelectAgrees silentHost fds 1 ⟨1, 0, 0⟩ ∧ ¬ s.fs.SelectAgrees silentHost fds 0 ⟨2, 0, 0⟩ := by
  have hrun : ((machine 1).run first [createsEvent 1]).map (fun s =>
      decide (s.tables = [[some ⟨0, false⟩]] ∧
        s.fs.selectNow silentHost [some ⟨0, false⟩] 1 ⟨1, 0, 0⟩ = .ok (⟨1, 0, 0⟩, 0) ∧
        s.fs.tryUnblockSelect silentHost [some ⟨0, false⟩] 1 ⟨1, 0, 0⟩ true = .ok (some (⟨1, 0, 0⟩, 1)) ∧
        s.fs.selectNow silentHost [some ⟨0, false⟩] 0 ⟨2, 0, 0⟩ = .ok (⟨2, 0, 0⟩, 0) ∧
        s.fs.tryUnblockSelect silentHost [some ⟨0, false⟩] 0 ⟨2, 0, 0⟩ true = .ok (some (⟨2, 0, 0⟩, 1)))) = some true := by
    decide +kernel
  obtain ⟨s, hs, hfound⟩ := Option.map_eq_some_iff.1 hrun
  obtain ⟨htables, hnow, hagain, hnow', hagain'⟩ := of_decide_eq_true hfound
  refine ⟨s, (Machine.Reachable.init first_isNew).run _ hs, _, htables, hnow, hagain, hnow', hagain', ?_, ?_⟩
  · rintro ⟨after, ret, hn, ha, -⟩
    have hzero := (ok_pair (hnow.symm.trans hn)).2
    have hone := (Prod.mk.inj (Option.some.inj (Except.ok.inj (hagain.symm.trans ha)))).2
    omega
  · rintro ⟨after, ret, hn, ha, -⟩
    have hzero := (ok_pair (hnow'.symm.trans hn)).2
    have hone := (Prod.mk.inj (Option.some.inj (Except.ok.inj (hagain'.symm.trans ha)))).2
    omega

end FileState

end X64Emulator
