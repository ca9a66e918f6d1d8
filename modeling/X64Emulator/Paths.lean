import Mathlib.Tactic.Common

/-!
# Paths

A `Path` is the list of the components of an absolute pathname. `Path::tryCreate` is the only way from a pathname to a path, and
a component it keeps is no part of the notation of pathnames; a `Path` carries that of all of its components.
-/

namespace X64Emulator

/-- The characters of a `std::string`. -/
abbrev Str := List Char

/-- A name that `Path::tryCreate` keeps as a component. -/
def Component (name : Str) : Prop := name ≠ [] ∧ name ≠ ['.'] ∧ name ≠ ['.', '.'] ∧ '/' ∉ name

instance (name : Str) : Decidable (Component name) := inferInstanceAs (Decidable (_ ∧ _ ∧ _ ∧ _))

structure Path where
  components : List Str
  proper : ∀ c ∈ components, Component c
deriving DecidableEq

namespace Path

/-- The loop of `Path::tryCreate` over the pieces between the slashes. -/
def collect (components : List Str) : List Str → Option (List Str)
  | [] => some components
  | piece :: pieces =>
    if piece = [] ∨ piece = ['.'] then collect components pieces
    else if piece = ['.', '.'] then
      if components = [] then none else collect components.dropLast pieces
    else collect (components ++ [piece]) pieces

theorem proper_collect {components pieces cs : List Str} (hc : ∀ c ∈ components, Component c) (hp : ∀ p ∈ pieces, '/' ∉ p)
    (h : collect components pieces = some cs) : ∀ c ∈ cs, Component c := by
  induction pieces generalizing components with
  | nil =>
    simp only [collect, Option.some.injEq] at h
    exact h ▸ hc
  | cons piece pieces ih =>
    have hps : ∀ p ∈ pieces, '/' ∉ p := fun p hp' => hp p (List.mem_cons_of_mem _ hp')
    rw [collect] at h
    split at h
    · exact ih hc hps h
    · next hne =>
      split at h
      · split at h
        · cases h
        · exact ih (fun c hc' => hc c (List.dropLast_subset _ hc')) hps h
      · next hdots =>
        refine ih (fun c hc' => ?_) hps h
        rcases List.mem_append.1 hc' with hc' | hc'
        · exact hc c hc'
        · obtain rfl := List.mem_singleton.1 hc'
          exact ⟨fun he => hne (.inl he), fun he => hne (.inr he), hdots, hp _ List.mem_cons_self⟩

theorem not_mem_of_mem_splitOn {xs p : Str} (h : p ∈ xs.splitOn '/') : '/' ∉ p := by
  induction xs generalizing p with
  | nil =>
    rw [List.splitOn_nil, List.mem_singleton] at h
    simp [h]
  | cons x xs ih =>
    rw [List.splitOn_cons_eq_if_modifyHead] at h
    split at h
    · rcases List.mem_cons.1 h with rfl | h
      · simp
      · exact ih h
    · next hx =>
      cases hs : xs.splitOn '/' with
      | nil => exact absurd hs (List.splitOn_ne_nil _ _)
      | cons q qs =>
        rw [hs, List.modifyHead_cons] at h
        rcases List.mem_cons.1 h with rfl | h
        · have hq := ih (hs ▸ List.mem_cons_self)
          have hne : x ≠ '/' := by simpa using hx
          simp [hq, hne.symm]
        · exact ih (hs ▸ List.mem_cons_of_mem _ h)

/-- `Path::tryCreate` of a pathname that begins with a slash. -/
def tryCreate (pathname : Str) : Option Path :=
  match h : collect [] ((pathname.drop 1).splitOn '/') with
  | some components =>
    some ⟨components, proper_collect (by simp) (fun _ hp => not_mem_of_mem_splitOn hp) h⟩
  | none => none

/-- `Path::absolute` -/
def absolute (path : Path) : Str :=
  if path.components = [] then ['/'] else path.components.flatMap fun component => '/' :: component

/-- `Path::tryAppend` -/
def tryAppend (path : Path) (element : Str) : Option Path := tryCreate (path.absolute ++ '/' :: element)

theorem tryCreate_eq_some {pathname : Str} {path : Path} (h : tryCreate pathname = some path) :
    collect [] ((pathname.drop 1).splitOn '/') = some path.components := by
  unfold tryCreate at h
  split at h
  · next heq =>
    rw [← Option.some.inj h]
    exact heq
  · cases h

theorem collect_append_singleton {components pieces : List Str} {c : Str} (hc : Component c) :
    collect components (pieces ++ [c]) = (collect components pieces).map (· ++ [c]) := by
  induction pieces generalizing components with
  | nil =>
    obtain ⟨h1, h2, h3, -⟩ := hc
    simp [collect, h1, h2, h3]
  | cons piece pieces ih =>
    simp only [List.cons_append, collect]
    split
    · exact ih
    · split
      · split
        · rfl
        · exact ih
      · exact ih

theorem absolute_ne_nil (path : Path) : path.absolute ≠ [] := by
  unfold absolute
  split
  · simp
  · next h =>
    cases hc : path.components with
    | nil => exact absurd hc h
    | cons c cs => simp

/-- What is appended to a path is its last component. -/
theorem getLast?_tryAppend {path appended : Path} {name : Str} (hname : Component name)
    (h : path.tryAppend name = some appended) : appended.components.getLast? = some name := by
  have hc := tryCreate_eq_some h
  cases ha : path.absolute with
  | nil => exact absurd ha path.absolute_ne_nil
  | cons x xs =>
    rw [ha, List.cons_append, List.drop_succ_cons, List.drop_zero, List.splitOn_append_cons_self,
      List.splitOn_eq_singleton hname.2.2.2, collect_append_singleton hname, Option.map_eq_some_iff] at hc
    obtain ⟨cs, -, hcs⟩ := hc
    rw [← hcs, List.getLast?_append, List.getLast?_singleton, Option.some_or]

/-- Components are collected as they are. -/
theorem collect_of_components {components pieces : List Str} (h : ∀ p ∈ pieces, Component p) :
    collect components pieces = some (components ++ pieces) := by
  induction pieces generalizing components with
  | nil => rw [collect, List.append_nil]
  | cons piece pieces ih =>
    obtain ⟨h1, h2, h3, -⟩ := h piece List.mem_cons_self
    rw [collect, if_neg (not_or.2 ⟨h1, h2⟩), if_neg h3, ih fun p hp => h p (List.mem_cons_of_mem _ hp), List.append_assoc,
      List.singleton_append]

theorem splitOn_flatMap {c : Str} {cs : List Str} (h : ∀ p ∈ c :: cs, Component p) :
    (((c :: cs).flatMap fun p => '/' :: p).drop 1).splitOn '/' = c :: cs := by
  rw [List.flatMap_cons, List.cons_append, List.drop_succ_cons, List.drop_zero]
  have hc := List.splitOn_eq_singleton (h c List.mem_cons_self).2.2.2
  induction cs generalizing c with
  | nil => rw [List.flatMap_nil, List.append_nil, hc]
  | cons c' cs ih =>
    have h' : ∀ p ∈ c' :: cs, Component p := fun p hp => h p (List.mem_cons_of_mem _ hp)
    rw [List.flatMap_cons, List.cons_append, List.splitOn_append_cons_self, hc,
      ih h' (List.splitOn_eq_singleton (h' c' List.mem_cons_self).2.2.2), List.singleton_append]

theorem tryCreate_of_collect {pathname : Str} {cs : List Str} (h : collect [] ((pathname.drop 1).splitOn '/') = some cs) :
    ∃ path, tryCreate pathname = some path ∧ path.components = cs := by
  unfold tryCreate
  split
  · next components heq => exact ⟨_, rfl, Option.some.inj (heq.symm.trans h)⟩
  · next heq =>
    rw [heq] at h
    cases h

/-- The pathname with a slash before each component is that of the path with these components. -/
theorem tryCreate_flatMap {cs : List Str} (h : ∀ c ∈ cs, Component c) :
    ∃ path, tryCreate (cs.flatMap fun c => '/' :: c) = some path ∧ path.components = cs := by
  refine tryCreate_of_collect ?_
  cases cs with
  | nil => decide
  | cons c cs => rw [splitOn_flatMap h, collect_of_components h, List.nil_append]

/-- A component can be appended to every path. -/
theorem tryAppend_component (path : Path) {name : Str} (hname : Component name) :
    ∃ appended, path.tryAppend name = some appended ∧ appended.components = path.components ++ [name] := by
  unfold tryAppend absolute
  split
  · next hnil =>
    refine tryCreate_of_collect ?_
    show collect [] (('/' :: name).splitOn '/') = some (path.components ++ [name])
    obtain ⟨h1, h2, h3, hslash⟩ := hname
    rw [List.splitOn_cons_eq_if_modifyHead, if_pos (beq_self_eq_true '/'), List.splitOn_eq_singleton hslash, hnil]
    simp [collect, h1, h2, h3]
  · have happ : path.components.flatMap (fun c => '/' :: c) ++ '/' :: name = (path.components ++ [name]).flatMap fun c => '/' :: c := by
      rw [List.flatMap_append, List.flatMap_singleton]
    rw [happ]
    refine tryCreate_flatMap fun c hc => ?_
    rcases List.mem_append.1 hc with hc | hc
    · exact path.proper c hc
    · exact List.mem_singleton.1 hc ▸ hname

end Path

/-- `fmt::format("{}", pid)` -/
def pidName (pid : Nat) : Str := Nat.toDigits 10 pid

theorem isDigit_of_mem_pidName {pid : Nat} {c : Char} (hc : c ∈ pidName pid) : c.isDigit = true :=
  Nat.isDigit_of_mem_toDigits (by decide) (by decide) hc

/-- A name with a digit in it for each character is a component. -/
theorem component_pidName (pid : Nat) : Component (pidName pid) := by
  have hno : ∀ c : Char, c.isDigit = false → c ∉ pidName pid := by
    intro c hc hmem
    rw [isDigit_of_mem_pidName hmem] at hc
    cases hc
  refine ⟨Nat.toDigits_ne_nil, fun h => ?_, fun h => ?_, hno '/' (by decide)⟩
  · exact hno '.' (by decide) (h ▸ List.mem_cons_self)
  · exact hno '.' (by decide) (h ▸ List.mem_cons_self)

end X64Emulator
