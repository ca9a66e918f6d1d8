import X64Emulator.Lemmas.DescriptorTables
import X64Emulator.Lemmas.Namespace

/-!
# Runs of the file system

One step of the machine is made of the steps of the tables, so what these keep holds in every state of every run. Of every run,
without any condition, this is `FS.Sound`.
-/

namespace X64Emulator

open Outcome

namespace FS

theorem bare_sound : bare.Sound [] := by
  have hfile : ∀ f file, bare.files.get? f = some file → f = 0 ∧ file = .new [] (.directory (.host false) []) := by
    intro f file h
    cases f with
    | zero => exact ⟨rfl, (Option.some.inj h).symm⟩
    | succ f => simp [bare, Heap.alloc, Heap.empty, Heap.get?] at h
  have hends : ∀ f p side, ¬ bare.IsEndpoint f p side := by
    rintro f p side ⟨file, hf, hend⟩
    obtain ⟨-, rfl⟩ := hfile f file hf
    cases hend
  have hpipes : ∀ p pipe, bare.pipes.get? p ≠ some pipe := by
    intro p pipe h
    rw [show bare.pipes = Heap.empty from rfl, Heap.get?_empty] at h
    cases h
  refine ⟨bare_tree, ⟨?_, ?_, ?_⟩, ⟨?_, ?_, ?_, ?_⟩, ?_⟩
  · intro f file h
    obtain ⟨-, rfl⟩ := hfile f file h
    rfl
  · intro d hd
    cases hd
  · intro d f h
    rw [fileOf, show bare.descriptions = Heap.empty from rfl, Heap.get?_empty] at h
    cases h
  · intro p pipe h
    exact absurd h (hpipes p pipe)
  · intro p pipe side f h
    exact absurd h (hpipes p pipe)
  · intro f p side h
    exact absurd h (hends f p side)
  · intro f p side h
    exact absurd h (hends f p side)
  · intro f p side h
    exact absurd h (hends f p side)

end FS

namespace FileState

open FS

variable {s s' : FileState} {host : HostFiles} {depth : Nat} {action : FileAction} {answer : FileAnswer}
  {φ : FS → FileId → Str → Prop} {δ : FS → FileId → Prop} {κ : FS → DescriptionId → Prop} {μ : Prop}

theorem step_some {a : HostFiles × FileAction} (h : (machine depth).step s a = some s') :
    ∃ answer, s.act depth a.1 a.2 = .ok (s', answer) := by
  obtain ⟨⟨t, answer⟩, hact, rfl⟩ := Option.map_eq_some_iff.1 h
  exact ⟨answer, toOption_eq_some.1 hact⟩

theorem openDescriptions_of_isNew (h : s.IsNew depth) : s.openDescriptions = [] := by
  rw [openDescriptions, h.2.1]
  rfl

theorem tree_of_isNew (h : s.IsNew depth) : s.fs.Tree ∧ s.fs.NamesUnique := by
  obtain ⟨⟨host, ttypath, hnew⟩, -, -⟩ := h
  have hedits := Edits.changes (new_edits (δ := fun _ _ => True) allows_vacant hnew)
  exact ⟨bare_tree.changes hedits, bare_namesUnique.changes bare_tree hedits⟩

theorem sound_of_isNew (h : s.IsNew depth) : s.fs.Sound s.openDescriptions := by
  rw [openDescriptions_of_isNew h]
  obtain ⟨⟨host, ttypath, hnew⟩, -, -⟩ := h
  exact bare_sound.edits (new_edits (δ := fun _ _ => True) allows_any hnew)

/-- Every place admits a file, if nothing is asked of it. -/
theorem admitted_any (host : HostFiles) (depth : Nat) (fs : FS) (call : FileCall) : Admitted (fun _ _ _ => True) host depth fs call := by
  cases call with
  | «open» path accessMode creationFlags statusFlags => exact fun _ _ _ _ _ _ _ _ => trivial
  | rename oldpath newpath => exact fun _ _ _ _ _ _ _ _ => trivial
  | readlink path bufferSize => exact fun _ _ _ _ _ _ => trivial
  | resetProcFS pid program => exact ⟨trivial, fun _ _ _ _ _ _ _ _ => trivial, fun _ _ _ _ _ _ _ _ _ _ => trivial⟩
  | _ => exact trivial

/-- The actions that move bytes through a file. -/
def actionMovesData : FileAction → Bool
  | .call _ call => movesData call
  | .tryUnblock _ => true
  | .forget _ => false

/-- Every action is made of the steps of the tables. -/
theorem act_shifts (ht : s.fs.Tree) (hφ : Allows φ)
    (hadmitted : ∀ table call, action = .call table call → Admitted φ host depth s.fs call)
    (hcareful : ∀ table fds call, action = .call table call → s.tables[table]? = some fds → s.Careful δ κ depth table fds call)
    (hμ : actionMovesData action = true → μ) (h : s.act depth host action = .ok (s', answer)) : s.Shifts φ δ κ μ depth s' := by
  rcases act_cases h with ⟨table, fds, call, rfl, htable, hperform⟩ | ⟨index, blocker, rfl, -, htry⟩ | ⟨index, rfl, rfl⟩
  · exact perform_shifts ht htable hφ (hadmitted table call rfl) (hcareful table fds call rfl htable) hμ hperform
  · exact tryUnblock_shifts (hμ rfl) htry
  · exact .refl _

/-- The counts and the pipes are right in every state of every run. -/
theorem reachable_sound (h : (machine depth).Reachable s) : s.fs.Sound s.openDescriptions := by
  refine h.invariant (fun s => s.fs.Sound s.openDescriptions) (fun s h => sound_of_isNew h) ?_
  intro s a s' hs hstep
  obtain ⟨answer, hact⟩ := step_some hstep
  have hshifts : s.Shifts (fun _ _ _ => True) (fun _ _ => True) (fun _ _ => True) True depth s' :=
    act_shifts hs.tree allows_any (fun _ call _ => admitted_any a.1 depth s.fs call)
      (fun _ _ call _ _ => careful_of_any (fun _ _ => trivial) (fun _ _ => trivial) call) (fun _ => trivial) hact
  exact X64Emulator.Shifts.sound hs hshifts

/-- The directories are a tree in every state of every run. -/
theorem reachable_tree (h : (machine depth).Reachable s) : s.fs.Tree := (reachable_sound h).tree

/-- A call of the first process, on a host without files. -/
def calls (call : FileCall) : HostFiles × FileAction := (bareHost, .call 0 call)

def creates (path : Path) : HostFiles × FileAction := calls (.open path ⟨true, true⟩ { creat := true } {})

/-- An event with a counter. -/
def createsEvent (initval : Nat) : HostFiles × FileAction := calls (.eventfd2 initval false false false)

def createsPipe : HostFiles × FileAction := calls (.pipe2 {} false)

def createsMemory (name : Str) : HostFiles × FileAction := calls (.memfd_create name false false)

end FileState

end X64Emulator
