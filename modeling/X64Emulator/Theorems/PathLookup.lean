import X64Emulator.Lemmas.DirectoryPaths

/-!
# Where lookups end

`resolveSymlink` is given a limit that it never counts up to: each link it meets on its way is resolved in turn. So a lookup ends
exactly if no link that it asks for comes back to itself. Then it gives a file or none, unless a `verify` fails on the way.
-/

namespace X64Emulator

open Outcome Relation

namespace FS

variable {fs : FS} {host : HostFiles} {c link : Str} {path : Path} {cs : List Str}

/-- The resolution of a link comes to one that its own resolution asks for. -/
def Circular (fs : FS) (link : Str) : Prop := ∃ link', ReflTransGen fs.Asks link link' ∧ TransGen fs.Asks link' link'

/-- Each link that the resolution of a link comes to is empty or the pathname of a path. -/
def AllResolvable (fs : FS) (link : Str) : Prop := ∀ link', ReflTransGen fs.Asks link link' → Resolvable link'

/-- With enough depth `ensurePathImpl` does not fail for a bad reason, exactly if the links it asks for are bounded and no file is
in its way. -/
theorem ensureFrom_avoids_iff (bad : FsFailure → Prop) (h : fs.Placed) (ht : fs.Tree) (hbad : bad .stackOverflow) (host : HostFiles) (path : Path) :
    (∃ depth, Avoids bad (ensureFrom host depth fs fs.root path.components)) ↔
      (∀ link, fs.AskedFrom fs.root path.components link → fs.Bounded bad link) ∧
        (bad .verification → ¬ fs.BlockedFrom fs.root path.components) := by
  have hdepth := exists_depth_iff ht hbad (fs.finite_askedFrom fs.root path.components)
  constructor
  · rintro ⟨depth, hends⟩
    have hr := follows_resolveSymlink ht hbad depth
    obtain ⟨hlinks, hblocked⟩ := (hr.ensureFrom_avoids_iff h ht .root ht.rootDir path.proper).1 hends
    exact ⟨hdepth.1 ⟨depth, hlinks⟩, hblocked⟩
  · rintro ⟨hlinks, hblocked⟩
    obtain ⟨depth, hlinks⟩ := hdepth.2 hlinks
    have hr := follows_resolveSymlink ht hbad depth
    exact ⟨depth, (hr.ensureFrom_avoids_iff h ht .root ht.rootDir path.proper).2 ⟨hlinks, hblocked⟩⟩

theorem bounded_stackOverflow : fs.Bounded (· = .stackOverflow) link ↔ ¬ fs.Circular link := by
  constructor
  · rintro h ⟨link', hlater, hcycle⟩
    exact (h link' hlater).2 hcycle
  · intro h link' hlater
    refine ⟨fun hbad => ?_, fun hcycle => h ⟨link', hlater, hcycle⟩⟩
    cases hbad

theorem bounded_any : fs.Bounded (fun _ => True) link ↔ ¬ fs.Circular link ∧ fs.AllResolvable link := by
  constructor
  · intro h
    refine ⟨?_, fun link' hlater => (h link' hlater).1 trivial⟩
    rintro ⟨link', hlater, hcycle⟩
    exact (h link' hlater).2 hcycle
  · rintro ⟨hcircular, hall⟩ link' hlater
    exact ⟨fun _ => hall link' hlater, fun hcycle => hcircular ⟨link', hlater, hcycle⟩⟩

end FS

namespace FileState

open FS

variable {depth : Nat} {s : FileState}

/-- In every state of every run: a lookup ends exactly if none of the links it asks for is circular, and so does
`ensurePathImpl`. It ends with a file, a directory or nothing exactly if besides each link it comes to can be resolved, and, where
directories are to be made, no other file is in their place. -/
theorem lookups_end_iff (h : (machine depth).Reachable s) (host : HostFiles) (path : Path) :
    (∀ follow,
      ((∃ n, s.fs.tryGetFile n path follow ≠ .error .stackOverflow) ↔
        ∀ link, s.fs.AskedFrom s.fs.root (followed path follow) link → ¬ s.fs.Circular link) ∧
      ((∃ n r, s.fs.tryGetFile n path follow = .ok r) ↔
        ∀ link, s.fs.AskedFrom s.fs.root (followed path follow) link → ¬ s.fs.Circular link ∧ s.fs.AllResolvable link)) ∧
    ((∃ n, ensureFrom host n s.fs s.fs.root path.components ≠ .error .stackOverflow) ↔
      ∀ link, s.fs.AskedFrom s.fs.root path.components link → ¬ s.fs.Circular link) ∧
    ((∃ n r, ensureFrom host n s.fs s.fs.root path.components = .ok r) ↔
      (∀ link, s.fs.AskedFrom s.fs.root path.components link → ¬ s.fs.Circular link ∧ s.fs.AllResolvable link) ∧
        ¬ s.fs.BlockedFrom s.fs.root path.components) := by
  have ht := reachable_tree h
  have hp := reachable_placed h
  refine ⟨fun follow => ⟨?_, ?_⟩, ?_, ?_⟩
  · have hends := tryGetFile_avoids_iff (· = .stackOverflow) ht rfl path follow
    simp only [avoids_eq_iff, bounded_stackOverflow] at hends
    exact hends
  · have hends := tryGetFile_avoids_iff (fun _ => True) ht trivial path follow
    simp only [avoids_all_iff, bounded_any] at hends
    exact hends
  · have hends := ensureFrom_avoids_iff (· = .stackOverflow) hp ht rfl host path
    simp only [avoids_eq_iff, bounded_stackOverflow] at hends
    rw [hends]
    refine ⟨fun h => h.1, fun h => ⟨h, fun hbad => ?_⟩⟩
    cases hbad
  · have hends := ensureFrom_avoids_iff (fun _ => True) hp ht trivial host path
    simp only [avoids_all_iff, bounded_any, true_implies] at hends
    exact hends

section Samples

/-- A link to the path it is at. -/
theorem resolveSymlink_of_loop {fs : FS} {c link : Str} {path : Path} (hlink : fs.tryGetLink fs.root c = .ok (some link))
    (hpath : targetPath link = .ok path) (hc : path.components = [c]) (n : Nat) :
    fs.resolveSymlink n link = .error .stackOverflow := by
  induction n with
  | zero => rfl
  | succ n ih =>
    have hne : link ≠ [] := by
      rintro rfl
      cases hpath
    have hlast : path.components.getLast? = some c := by rw [hc, List.getLast?_singleton]
    rw [resolveSymlink, if_neg hne, hpath]
    show fs.lookupIn (fs.resolveSymlink n) path .YES = _
    rw [lookupIn_of_getLast? hlast, hc]
    show fs.lookupLast (fs.resolveSymlink n) .YES c (some fs.root) = _
    rw [lookupLast_of_link hlink, ih]

/-- The path of the link. -/
def pathL : Path := ⟨[['l']], by decide⟩

/-- A process asks for a link that the host has. -/
def readsLink (link : Str) : HostFiles × FileAction :=
  ({ bareHost with readlink := fun path => if path = pathL then some link else none }, .call 0 (.readlink pathL 1))

/-- A link to the root is asked for, and it can be followed. -/
theorem lookups_end_root : ∃ s, (machine 1).Reachable s ∧ s.fs.tryGetFile 1 pathL .YES = .ok (some s.fs.root) ∧
    s.fs.AskedFrom s.fs.root pathL.components ['/'] ∧
    ∀ link, s.fs.AskedFrom s.fs.root pathL.components link → ¬ s.fs.Circular link ∧ s.fs.AllResolvable link := by
  have hrun : ((machine 1).step first (readsLink ['/'])).map (fun s =>
      decide (s.fs.tryGetFile 1 pathL .YES = .ok (some s.fs.root) ∧ s.fs.tryGetLink s.fs.root ['l'] = .ok (some ['/']))) =
        some true := by decide
  obtain ⟨s, hs, hfound⟩ := Option.map_eq_some_iff.1 hrun
  obtain ⟨hlookup, hlink⟩ := of_decide_eq_true hfound
  have hreach : (machine 1).Reachable s := (Machine.Reachable.init first_isNew).step _ hs
  exact ⟨s, hreach, hlookup, Meets.here hlink, ((lookups_end_iff hreach bareHost pathL).1 .YES).2.1 ⟨1, _, hlookup⟩⟩

/-- A link that the host has leads to itself. After it was read, no lookup of its path ends, whatever the depth. -/
theorem lookups_end_fails : ∃ s, (machine 1).Reachable s ∧
    (∀ n, s.fs.tryGetFile n pathL .YES = .error .stackOverflow) ∧
    ∀ host n, ensureFrom host n s.fs s.fs.root pathL.components = .error .stackOverflow := by
  have hrun : ((machine 1).step first (readsLink ['/', 'l'])).map (fun s =>
      decide (s.fs.tryGetLink s.fs.root ['l'] = .ok (some ['/', 'l']))) = some true := by decide
  obtain ⟨s, hs, hfound⟩ := Option.map_eq_some_iff.1 hrun
  have hlink := of_decide_eq_true hfound
  have hpath : targetPath ['/', 'l'] = .ok pathL := by decide
  have hloop := resolveSymlink_of_loop hlink hpath rfl
  refine ⟨s, (Machine.Reachable.init first_isNew).step _ hs, fun n => ?_, fun host n => ?_⟩
  · have hlast : pathL.components.getLast? = some ['l'] := rfl
    rw [tryGetFile, lookupIn_of_getLast? hlast]
    show s.fs.lookupLast (s.fs.resolveSymlink n) .YES ['l'] (some s.fs.root) = _
    rw [lookupLast_of_link hlink, hloop]
  · show ensureFrom host n s.fs s.fs.root [['l']] = _
    rw [ensureFrom_of_link hlink, hloop]
    rfl

end Samples

end FileState

end X64Emulator
