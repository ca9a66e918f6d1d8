import X64Emulator.Lib.Outcome
import X64Emulator.Paths

/-!
# The creation of paths

`Path::tryCreate` goes over a pathname with positions into the string. Here it is modelled as it does that, with the failures
that the source has or that the library it uses has; `Path.tryCreate` is the same without the positions.
-/

namespace X64Emulator

open Outcome

inductive PathFailure where
  /-- A `verify` does not hold. -/
  | verify
  /-- `std::string::substr` throws for a position behind the end. -/
  | outOfRange
deriving DecidableEq, Repr

namespace Path

/-- `std::string::find` of a character; `none` is `npos`. -/
def find (pathname : Str) (c : Char) (pos : Nat) : Option Nat :=
  ((pathname.drop pos).findIdx? (· = c)).map (pos + ·)

/-- `std::string::substr`; `none` is `npos - pos`, which reaches to the end of every string. -/
def substr (pathname : Str) (pos : Nat) (count : Option Nat) : Except PathFailure Str := do
  check (pos ≤ pathname.length) .outOfRange
  match count with
  | none => .ok (pathname.drop pos)
  | some count => .ok ((pathname.drop pos).take count)

/-- What a turn of the loop does with its component. -/
def keep (components : List Str) (component : Str) : Option (List Str) :=
  if component = [] ∨ component = ['.'] then some components
  else if component = ['.', '.'] then
    if components = [] then none else some components.dropLast
  else some (components ++ [component])

variable {pathname : Str}

theorem find_eq_some {c : Char} {pos n : Nat} (h : find pathname c pos = some n) :
    pos ≤ n ∧ n < pathname.length := by
  rw [find, Option.map_eq_some_iff] at h
  obtain ⟨i, hi, rfl⟩ := h
  obtain ⟨hlt, -⟩ := List.findIdx?_eq_some_iff_getElem.1 hi
  rw [List.length_drop] at hlt
  omega

/-- The loop of `Path::tryCreate` from a position on. -/
def parse (pathname : Str) (pos : Nat) (components : List Str) : Except PathFailure (Option (List Str)) :=
  match _h : find pathname '/' pos with
  | none => do
    let component ← substr pathname pos none
    .ok (keep components component)
  | some nextPos => do
    let component ← substr pathname pos (some (nextPos - pos))
    match keep components component with
    | none => .ok none
    | some components => parse pathname (nextPos + 1) components
termination_by pathname.length - pos
decreasing_by
  have := find_eq_some ‹_›
  omega

theorem collect_eq_foldlM (components pieces : List Str) : collect components pieces = pieces.foldlM keep components := by
  induction pieces generalizing components with
  | nil => rfl
  | cons piece pieces ih =>
    rw [collect, List.foldlM_cons, keep]
    split
    · exact ih components
    · split
      · split
        · rfl
        · exact ih _
      · exact ih _

theorem find_eq_none {c : Char} {pos : Nat} (h : find pathname c pos = none) : c ∉ pathname.drop pos := by
  rw [find, Option.map_eq_none_iff, List.findIdx?_eq_none_iff] at h
  intro hmem
  simpa using h c hmem

/-- What is in front of the character that `find` finds, and what is behind it. -/
theorem drop_of_find {c : Char} {pos n : Nat} (h : find pathname c pos = some n) :
    pathname.drop pos = (pathname.drop pos).take (n - pos) ++ c :: pathname.drop (n + 1) ∧
      c ∉ (pathname.drop pos).take (n - pos) := by
  rw [find, Option.map_eq_some_iff] at h
  obtain ⟨i, hi, rfl⟩ := h
  obtain ⟨hlt, hc, hbefore⟩ := List.findIdx?_eq_some_iff_getElem.1 hi
  have hdrop : pathname.drop (pos + i + 1) = (pathname.drop pos).drop (i + 1) := by rw [List.drop_drop, Nat.add_assoc]
  rw [Nat.add_sub_cancel_left, hdrop]
  generalize pathname.drop pos = rest at *
  constructor
  · have hget : rest[i] = c := by simpa using hc
    rw [← hget, ← List.drop_eq_getElem_cons hlt, List.take_append_drop]
  · intro hmem
    obtain ⟨j, hj, hget⟩ := List.getElem_of_mem hmem
    rw [List.length_take] at hj
    rw [List.getElem_take] at hget
    exact hbefore j (by omega) (by simpa using hget)

/-- From a position in the string the loop goes over the pieces between the slashes, and no position is behind the end. -/
theorem parse_eq {pos : Nat} (hpos : pos ≤ pathname.length) (components : List Str) :
    parse pathname pos components = .ok (((pathname.drop pos).splitOn '/').foldlM keep components) := by
  fun_induction parse pathname pos components with
  | case1 pos components hfind =>
    have hpiece := List.splitOn_eq_singleton (find_eq_none hfind)
    rw [substr, (check_eq_ok (u := ())).2 hpos, hpiece, List.foldlM_cons]
    simp [ok_bind]
  | case2 pos components nextPos hfind ih =>
    obtain ⟨hdrop, hpiece⟩ := drop_of_find hfind
    have hnext := find_eq_some hfind
    have hsplit : (pathname.drop pos).splitOn '/' =
        (pathname.drop pos).take (nextPos - pos) :: (pathname.drop (nextPos + 1)).splitOn '/' := by
      conv_lhs => rw [hdrop]
      rw [List.splitOn_append_cons_self, List.splitOn_eq_singleton hpiece, List.singleton_append]
    rw [substr, (check_eq_ok (u := ())).2 hpos, hsplit, List.foldlM_cons]
    simp only [ok_bind]
    cases hkeep : keep components ((pathname.drop pos).take (nextPos - pos)) with
    | none => rfl
    | some kept => exact ih kept (by omega)

theorem parse_of_lt {pos : Nat} (hpos : pathname.length < pos) (components : List Str) :
    parse pathname pos components = .error .outOfRange := by
  have hcheck : check (pos ≤ pathname.length) PathFailure.outOfRange = .error .outOfRange := by
    rw [check, if_neg (by omega)]
  unfold parse
  split <;> rw [substr, hcheck] <;> rfl

/-- A name that the loop keeps is a component. -/
theorem proper_parse {pos : Nat} {components : List Str} (h : parse pathname pos [] = .ok (some components)) :
    ∀ c ∈ components, Component c := by
  by_cases hpos : pos ≤ pathname.length
  · rw [parse_eq hpos, ← collect_eq_foldlM] at h
    exact proper_collect (by simp) (fun _ hp => not_mem_of_mem_splitOn hp) (Except.ok.inj h)
  · rw [parse_of_lt (by omega)] at h
    cases h

/-- `Path::tryCreate`. A pathname that does not begin with a slash goes through `Path::tryJoin`, which calls back without a
directory. -/
def tryCreateFrom (pathname cwd : Str) : Except PathFailure (Option Path) :=
  if pathname = [] then .error .verify
  else if pathname.head? ≠ some '/' then tryCreateFrom (cwd ++ '/' :: pathname) []
  else
    match h : parse pathname 1 [] with
    | .error e => .error e
    | .ok none => .ok none
    | .ok (some components) => .ok (some ⟨components, proper_parse h⟩)
termination_by if pathname.head? = some '/' then 0 else if cwd = [] then 1 else 2
decreasing_by
  rename_i hslash
  rw [if_neg hslash]
  cases cwd with
  | nil => simp
  | cons c cwd => split <;> simp

/-- `Path::tryJoin` -/
def tryJoin (pre suffix : Str) : Except PathFailure (Option Path) := tryCreateFrom (pre ++ '/' :: suffix) []

/-- `FS::resolvePath`; there may be no working directory. -/
def resolvePath (cwd : Option Path) (pathname : Str) : Except PathFailure (Option Path) :=
  if pathname = [] then .ok none
  else if pathname.head? = some '/' then tryCreateFrom pathname []
  else
    match cwd with
    | none => .error .verify
    | some path => tryCreateFrom pathname path.absolute

/-- `Path::tryCreate` of an absolute pathname does not look at the working directory, and it fails no verify. -/
theorem tryCreateFrom_absolute (h : pathname.head? = some '/') (cwd : Str) :
    tryCreateFrom pathname cwd = .ok (tryCreate pathname) := by
  have hne : pathname ≠ [] := by
    rintro rfl
    cases h
  have hlength : 1 ≤ pathname.length := List.length_pos_of_ne_nil hne
  have hparse : parse pathname 1 [] = .ok (collect [] ((pathname.drop 1).splitOn '/')) := by
    rw [parse_eq hlength, collect_eq_foldlM]
  unfold tryCreateFrom
  rw [if_neg hne, if_neg (not_not_intro h)]
  split
  · next hres => cases hparse.symm.trans hres
  · next hres =>
    have hnone := Except.ok.inj (hparse.symm.trans hres)
    cases hcreate : tryCreate pathname with
    | none => rfl
    | some path => cases (tryCreate_eq_some hcreate).symm.trans hnone
  · next components hres =>
    obtain ⟨path, hcreate, rfl⟩ := tryCreate_of_collect (Except.ok.inj (hparse.symm.trans hres))
    rw [hcreate]

theorem head?_absolute (path : Path) : path.absolute.head? = some '/' := by
  unfold absolute
  split
  · rfl
  · next hne =>
    cases hc : path.components with
    | nil => exact absurd hc hne
    | cons c cs => rfl

/-- Every string can be appended to a path, the empty one too. -/
theorem tryJoin_absolute (path : Path) (element : Str) : tryJoin path.absolute element = .ok (path.tryAppend element) := by
  refine tryCreateFrom_absolute ?_ []
  rw [List.head?_append_of_ne_nil _ path.absolute_ne_nil, head?_absolute]

/-- A relative pathname is appended to the pathname of the working directory. -/
theorem tryCreateFrom_relative (hne : pathname ≠ []) (h : pathname.head? ≠ some '/') (path : Path) :
    tryCreateFrom pathname path.absolute = .ok (path.tryAppend pathname) := by
  rw [tryCreateFrom, if_neg hne, if_pos h]
  exact tryJoin_absolute path pathname

end Path

end X64Emulator
