import X64Emulator.Epoll
import X64Emulator.Lemmas.FileRuns

/-!
# The slots that a call leaves alone

A call closes the descriptors of some slots of the table of its process. All other slots keep their descriptors, in every table.
-/

namespace X64Emulator

open Outcome

namespace FileDescriptors

variable {fds : FileDescriptors} {n fd : Nat} {descriptor other : FileDescriptor}

theorem getElem?_put (hne : n ≠ fd) (h : fds[n]? = some (some descriptor)) : (fds.put fd other)[n]? = some (some descriptor) := by
  have hlt : n < fds.length := (List.getElem?_eq_some_iff.1 h).1
  rw [put, List.getElem?_set_ne (Ne.symm hne), List.getElem?_append_left hlt]
  exact h

/-- A slot that holds a descriptor is not the one that is allocated. -/
theorem getElem?_insert (h : fds[n]? = some (some descriptor)) : (fds.insert other)[n]? = some (some descriptor) := by
  refine getElem?_put ?_ h
  rintro rfl
  have hfree : fds[fds.allocateFd]?.join = none := allocateFd_free
  rw [h] at hfree
  cases hfree

theorem getElem?_clear (hne : n ≠ fd) (h : fds[n]? = some (some descriptor)) : (fds.clear fd)[n]? = some (some descriptor) := by
  rw [clear, List.getElem?_set_ne (Ne.symm hne)]
  exact h

end FileDescriptors

namespace FileState

open FileDescriptors

variable {s s' : FileState} {fs : FS} {host : HostFiles} {depth table t n : Nat} {fds fds' : FileDescriptors} {fd : Int}
  {answer : FileAnswer} {descriptor : FileDescriptor}

/-- The slot of a table holds a descriptor. -/
def SlotAt (s : FileState) (t n : Nat) (descriptor : FileDescriptor) : Prop :=
  ∃ fds, s.tables[t]? = some fds ∧ fds[n]? = some (some descriptor)

theorem owns_iff {d : DescriptionId} : s.owns d = true ↔ ∃ t n descriptor, s.SlotAt t n descriptor ∧
    descriptor.openFileDescription = d := by
  simp only [owns, List.any_eq_true, decide_eq_true_eq, Option.map_eq_some_iff]
  constructor
  · rintro ⟨fds, hfds, slot, hslot, descriptor, rfl, hd⟩
    obtain ⟨t, ht⟩ := List.getElem?_of_mem hfds
    obtain ⟨n, hn⟩ := List.getElem?_of_mem hslot
    exact ⟨t, n, descriptor, ⟨fds, ht, hn⟩, hd⟩
  · rintro ⟨t, n, descriptor, ⟨fds, ht, hn⟩, hd⟩
    exact ⟨fds, List.mem_of_getElem? ht, some descriptor, List.mem_of_getElem? hn, descriptor, rfl, hd⟩

theorem SlotAt.of_tables (h : s.SlotAt t n descriptor) (htables : s'.tables = s.tables) : s'.SlotAt t n descriptor := by
  obtain ⟨fds, ht, hn⟩ := h
  exact ⟨fds, htables ▸ ht, hn⟩

/-- A table is replaced by one that keeps the slot. -/
theorem SlotAt.setTable (h : s.SlotAt t n descriptor) (htable : s.tables[table]? = some fds)
    (hkeep : t = table → fds[n]? = some (some descriptor) → fds'[n]? = some (some descriptor)) :
    (s.setTable table fds').SlotAt t n descriptor := by
  obtain ⟨fdsT, ht, hn⟩ := h
  by_cases heq : t = table
  · subst heq
    obtain rfl := Option.some.inj (htable.symm.trans ht)
    refine ⟨fds', ?_, hkeep rfl hn⟩
    exact List.getElem?_set_self (List.getElem?_eq_some_iff.1 ht).1
  · refine ⟨fdsT, ?_, hn⟩
    rw [FileState.setTable, List.getElem?_set_ne (Ne.symm heq)]
    exact ht

/-- The slots that a call of a process closes, in the table of the process. -/
def Closes (fds : FileDescriptors) (n : Nat) : FileCall → Prop
  | .close fd => fd = n
  | .closeAll => True
  | .dup2 oldfd newfd | .dup3 oldfd newfd _ => oldfd ≠ newfd ∧ (fds.findFileDescriptor oldfd).isSome = true ∧ newfd = n
  | _ => False

theorem SlotAt.close (h : s.SlotAt t n descriptor) (htable : s.tables[table]? = some fds) (hne : t = table → fd ≠ n)
    (hclose : s.close depth table fds fd = .ok (s', answer)) : s'.SlotAt t n descriptor := by
  rcases close_cases hclose with ⟨-, rfl⟩ | ⟨other, fs1, hfind, -, rfl⟩
  · exact h
  · obtain ⟨hpos, -⟩ := findFileDescriptor_eq_some.1 hfind
    refine SlotAt.setTable (s := { s with fs := fs1 }) h htable ?_
    intro ht hn
    exact getElem?_clear (by have := hne ht; omega) hn

theorem SlotAt.closeSlot {i : Nat} (h : s.SlotAt t n descriptor) (hne : t ≠ table)
    (hclose : FileState.closeSlot depth table s i = .ok s') : s'.SlotAt t n descriptor := by
  rcases closeSlot_cases hclose with ⟨-, rfl⟩ | ⟨fds, answer, htable, hclose⟩
  · exact h
  · exact h.close htable (fun ht => absurd ht hne) hclose

theorem SlotAt.replace {source : FileDescriptor} {newfd : Int} {closeOnExec : Bool} (h : s.SlotAt t n descriptor)
    (htable : s.tables[table]? = some fds) (hne : t = table → newfd ≠ n)
    (hreplace : s.replace depth table fds source newfd closeOnExec = .ok (s', answer)) : s'.SlotAt t n descriptor := by
  obtain ⟨s1, answer1, ofd, fs2, hclose, -, -, hpos, rfl⟩ := replace_cases hreplace
  by_cases ht : t = table
  · subst ht
    -- the new table is the old one but for the slot that is replaced
    obtain ⟨fdsT, htT, hn⟩ := h
    obtain rfl := Option.some.inj (htable.symm.trans htT)
    have hlen : t < s1.tables.length := by
      obtain ⟨fds1, ht1, -⟩ := SlotAt.close ⟨fds, htT, hn⟩ htable hne hclose
      exact (List.getElem?_eq_some_iff.1 ht1).1
    refine ⟨_, List.getElem?_set_self hlen, getElem?_put ?_ hn⟩
    have := hne rfl
    omega
  · obtain ⟨fdsT, ht1, hn⟩ := h.close htable hne hclose
    refine ⟨fdsT, ?_, hn⟩
    rw [FileState.setTable, List.getElem?_set_ne (Ne.symm ht)]
    exact ht1

theorem SlotAt.place {opened : FileDescriptor} (h : s.SlotAt t n descriptor) (htable : s.tables[table]? = some fds) :
    (s.place table fds fs opened).1.SlotAt t n descriptor :=
  SlotAt.setTable (s := { s with fs := fs }) h htable fun _ hn => getElem?_insert hn

theorem SlotAt.placeOr {result : ErrnoOr FileDescriptor} (h : s.SlotAt t n descriptor) (htable : s.tables[table]? = some fds) :
    (s.placeOr table fds fs result).1.SlotAt t n descriptor := by
  cases result with
  | ok opened => exact h.place htable
  | error errno => exact h

/-- A call keeps the slots that it does not close. -/
theorem SlotAt.perform {call : FileCall} (h : s.SlotAt t n descriptor) (htable : s.tables[table]? = some fds)
    (hclose : ¬ (t = table ∧ Closes fds n call)) (hcall : s.perform host depth table fds call = .ok (s', answer)) :
    s'.SlotAt t n descriptor := by
  cases performed hcall with
  | «open» | socket => exact h.placeOr htable
  | close hfd => exact h.close htable (fun ht heq => hclose ⟨ht, heq⟩) hfd
  | closeAll hall =>
    have hne : t ≠ table := fun ht => hclose ⟨ht, trivial⟩
    exact foldlM_ok (I := fun s1 => s1.SlotAt t n descriptor) (fun s1 i s2 hI hslot => hI.closeSlot hne hslot) h hall
  | dup2 hne hfind hreplace => exact h.replace htable (fun ht heq => hclose ⟨ht, hne, by rw [hfind]; rfl, heq⟩) hreplace
  | dup3 hne hfind hreplace => exact h.replace htable (fun ht heq => hclose ⟨ht, hne, by rw [hfind]; rfl, heq⟩) hreplace
  | clone =>
    obtain ⟨fdsT, ht, hn⟩ := h
    exact ⟨fdsT, by rw [List.getElem?_append_left (List.getElem?_eq_some_iff.1 ht).1]; exact ht, hn⟩
  | dup | memfd_create | eventfd2 | epoll_create1 => exact h.place htable
  | @pipe2 statusFlags closeOnExec fs1 reader writer =>
    exact SlotAt.setTable (s := { s with fs := fs1 }) h htable fun _ hn => getElem?_insert (getElem?_insert hn)
  | refused | mkdir | rename | unlink | readlink | resetProcFS => exact h
  | read | pread | write | pwrite | lseek | ftruncate | setNonBlocking => exact h

/-- An action keeps the slots that it does not close. -/
theorem SlotAt.act {action : FileAction} (h : s.SlotAt t n descriptor)
    (hclose : ∀ table fds call, action = .call table call → s.tables[table]? = some fds → ¬ (t = table ∧ Closes fds n call))
    (hact : s.act depth host action = .ok (s', answer)) : s'.SlotAt t n descriptor := by
  rcases act_cases hact with ⟨table, fds, call, rfl, htable, hcall⟩ | ⟨index, blocker, rfl, -, htry⟩ | ⟨index, rfl, rfl⟩
  · exact h.perform htable (hclose table fds call rfl htable) hcall
  · rcases tryUnblock_cases htry with ⟨-, -, htables, -⟩ | ⟨other, fs1, result, -, -, -, htables, -⟩
    · exact h.of_tables htables
    · exact h.of_tables htables
  · exact h

end FileState

end X64Emulator
