import X64Emulator.PathCreation

/-!
# Normalization of paths

A pathname is a list of segments between slashes. A path is what is left when they are gone through from the left: a segment is
dropped, removes the component before it, or is kept. The positions of the source's loop do not show in the result.
-/

namespace X64Emulator

namespace Path

/-- The segments of a pathname; one that begins with a slash begins with an empty segment. -/
def segments (pathname : Str) : List Str := pathname.splitOn '/'

/-- Some `..` comes after no more components than there are `..` before it, when a number of components is there at the start. -/
def Unmatched (depth : Nat) (segments : List Str) : Prop :=
  ∃ before after, segments = before ++ ['.', '.'] :: after ∧
    depth + before.countP (fun segment => Component segment) ≤ before.count ['.', '.']

/-- A segment that changes the number of components that are left, and does not come too early itself. -/
theorem unmatched_cons {depth left : Nat} {segment : Str} (segments : List Str) (hearly : segment = ['.', '.'] → depth ≠ 0)
    (hleft : ∀ before : List Str, depth + (segment :: before).countP (fun segment => Component segment) ≤
      (segment :: before).count ['.', '.'] ↔ left + before.countP (fun segment => Component segment) ≤ before.count ['.', '.']) :
    Unmatched depth (segment :: segments) ↔ Unmatched left segments := by
  constructor
  · rintro ⟨before, after, heq, hle⟩
    cases before with
    | nil =>
      obtain ⟨rfl, -⟩ := List.cons.inj heq
      exact absurd (Nat.le_zero.1 hle) (hearly rfl)
    | cons segment' before =>
      obtain ⟨rfl, rfl⟩ := List.cons.inj heq
      exact ⟨before, after, rfl, (hleft before).1 hle⟩
  · rintro ⟨before, after, rfl, hle⟩
    exact ⟨segment :: before, after, rfl, (hleft before).2 hle⟩

theorem not_component_nil : ¬ Component [] := fun h => h.1 rfl

theorem not_component_dots : ¬ Component ['.', '.'] := fun h => h.2.2.1 rfl

/-- The loop fails exactly at a `..` for which no component is left. -/
theorem foldlM_keep_eq_none_iff {components pieces : List Str} (hpieces : ∀ piece ∈ pieces, '/' ∉ piece) :
    pieces.foldlM keep components = none ↔ Unmatched components.length pieces := by
  induction pieces generalizing components with
  | nil =>
    refine iff_of_false (by simp) ?_
    rintro ⟨before, after, heq, -⟩
    cases before <;> cases heq
  | cons piece pieces ih =>
    have hrest : ∀ p ∈ pieces, '/' ∉ p := fun p hp => hpieces p (List.mem_cons_of_mem _ hp)
    rw [List.foldlM_cons, keep]
    by_cases hskip : piece = [] ∨ piece = ['.']
    · have hname : ¬ Component piece := fun h => hskip.elim h.1 h.2.1
      have hdots : piece ≠ ['.', '.'] := by rcases hskip with rfl | rfl <;> decide
      rw [if_pos hskip, Option.bind_eq_bind, Option.bind_some, ih hrest]
      exact (unmatched_cons pieces (fun h => absurd h hdots) fun before => by simp [hname, hdots]).symm
    · by_cases hdots : piece = ['.', '.']
      · subst hdots
        rw [if_neg hskip, if_pos rfl]
        by_cases hnil : components = []
        · subst hnil
          exact iff_of_true rfl ⟨[], pieces, rfl, by simp⟩
        · have hlength := List.length_pos_of_ne_nil hnil
          rw [if_neg hnil, Option.bind_eq_bind, Option.bind_some, ih hrest, List.length_dropLast]
          refine (unmatched_cons pieces (fun _ => by omega) fun before => ?_).symm
          rw [List.countP_cons_of_neg (by simpa using not_component_dots), List.count_cons_self]
          omega
      · have hname : Component piece := ⟨fun h => hskip (.inl h), fun h => hskip (.inr h), hdots, hpieces _ List.mem_cons_self⟩
        rw [if_neg hskip, if_neg hdots, Option.bind_eq_bind, Option.bind_some, ih hrest, List.length_append, List.length_singleton]
        refine (unmatched_cons pieces (fun h => absurd h hdots) fun before => ?_).symm
        rw [List.countP_cons_of_pos (by simpa using hname), List.count_cons_of_ne hdots]
        omega

theorem segments_absolute {pathname : Str} (h : pathname.head? = some '/') :
    segments pathname = [] :: segments (pathname.drop 1) := by
  cases pathname with
  | nil => cases h
  | cons c rest =>
    obtain rfl := Option.some.inj h
    exact List.splitOn_append_cons_self [] rest

/-- The components of a path that is made from an absolute pathname. -/
theorem map_components_tryCreate (pathname : Str) :
    (tryCreate pathname).map components = (segments (pathname.drop 1)).foldlM keep [] := by
  rw [segments, ← collect_eq_foldlM]
  cases hcollect : collect [] ((pathname.drop 1).splitOn '/') with
  | none =>
    cases hcreate : tryCreate pathname with
    | none => rfl
    | some path => cases (tryCreate_eq_some hcreate).symm.trans hcollect
  | some cs =>
    obtain ⟨path, hcreate, rfl⟩ := tryCreate_of_collect hcollect
    rw [hcreate]
    rfl

theorem eq_of_components {path path' : Path} (h : path.components = path'.components) : path = path' := by
  cases path
  cases path'
  cases h
  rfl

/-- The segments of the pathname of a path give its components back. -/
theorem foldlM_absolute (path : Path) : (segments (path.absolute.drop 1)).foldlM keep [] = some path.components := by
  rw [segments, ← collect_eq_foldlM, absolute]
  split
  · next hnil =>
    rw [hnil]
    rfl
  · next hne =>
    cases hc : path.components with
    | nil => exact absurd hc hne
    | cons c cs =>
      have hproper : ∀ p ∈ c :: cs, Component p := hc ▸ path.proper
      rw [splitOn_flatMap hproper, collect_of_components hproper, List.nil_append]

theorem tryCreate_absolute (path : Path) : tryCreate path.absolute = some path := by
  have hmap := (map_components_tryCreate path.absolute).trans path.foldlM_absolute
  obtain ⟨path', hcreate, hcomponents⟩ := Option.map_eq_some_iff.1 hmap
  rw [hcreate, eq_of_components hcomponents]

/-- What is appended to a path goes on from its components. -/
theorem map_components_tryAppend (path : Path) (element : Str) :
    (path.tryAppend element).map components = (segments element).foldlM keep path.components := by
  have hsegments : segments ((path.absolute ++ '/' :: element).drop 1) = segments (path.absolute.drop 1) ++ segments element := by
    cases ha : path.absolute with
    | nil => exact absurd ha path.absolute_ne_nil
    | cons c rest => exact List.splitOn_append_cons_self rest element
  rw [tryAppend, map_components_tryCreate, hsegments, List.foldlM_append, foldlM_absolute]
  rfl

/-- Two strings that are appended one after the other are appended with a slash between them. -/
theorem tryAppend_append {path next : Path} {first second : Str} (h : path.tryAppend first = some next) :
    path.tryAppend (first ++ '/' :: second) = next.tryAppend second := by
  have hnext : (segments first).foldlM keep path.components = some next.components := by
    rw [← map_components_tryAppend, h]
    rfl
  have hmap : (path.tryAppend (first ++ '/' :: second)).map components = (next.tryAppend second).map components := by
    rw [map_components_tryAppend, map_components_tryAppend, segments, List.splitOn_append_cons_self, List.foldlM_append]
    exact congrArg (· >>= fun cs => (segments second).foldlM keep cs) hnext
  exact Option.map_injective (fun _ _ => eq_of_components) hmap

/-- A relative pathname is one that is neither empty nor absolute. -/
def Relative (pathname : Str) : Prop := pathname ≠ [] ∧ pathname.head? ≠ some '/'

theorem resolvePath_relative {pathname : Str} (h : Relative pathname) (path : Path) :
    resolvePath (some path) pathname = .ok (path.tryAppend pathname) := by
  rw [resolvePath, if_neg h.1, if_neg h.2]
  exact tryCreateFrom_relative h.1 h.2 path

/-- An absolute pathname gives a path, or none at a `..` that has nothing to remove; no verify fails and no position is behind
the end. A path resolves every string by the fold of the string's segments over its components, and two strings as the one
string with a slash between them. -/
theorem paths_normalize :
    (∀ (pathname cwd : Str), pathname.head? = some '/' →
      ∃ res, tryCreateFrom pathname cwd = .ok res ∧ (res = none ↔ Unmatched 0 (segments pathname)) ∧
        ∀ path, res = some path →
          (∀ c ∈ path.components, '/' ∉ c ∧ c ≠ [] ∧ c ≠ ['.'] ∧ c ≠ ['.', '.']) ∧
          tryCreateFrom path.absolute cwd = .ok (some path)) ∧
    (∀ (path : Path) (element : Str), ∃ res, tryJoin path.absolute element = .ok res ∧
      res.map components = (segments element).foldlM keep path.components ∧
      (Relative element → tryCreateFrom element path.absolute = .ok res ∧ resolvePath (some path) element = .ok res)) ∧
    (∀ (path next : Path) (first second : Str), tryJoin path.absolute first = .ok (some next) →
      tryJoin path.absolute (first ++ '/' :: second) = tryJoin next.absolute second) ∧
    ∀ (path next : Path) (first second : Str), Relative first → Relative second →
      resolvePath (some path) first = .ok (some next) →
      resolvePath (some path) (first ++ '/' :: second) = resolvePath (some next) second := by
  refine ⟨?_, ?_, ?_, ?_⟩
  · intro pathname cwd habsolute
    refine ⟨tryCreate pathname, tryCreateFrom_absolute habsolute cwd, ?_, ?_⟩
    · have hfirst : Unmatched 0 (segments pathname) ↔ Unmatched 0 (segments (pathname.drop 1)) := by
        rw [segments_absolute habsolute]
        exact unmatched_cons _ (by simp) fun before => by simp [not_component_nil]
      have hfold : (segments (pathname.drop 1)).foldlM keep [] = none ↔ Unmatched 0 (segments (pathname.drop 1)) :=
        foldlM_keep_eq_none_iff fun _ hp => not_mem_of_mem_splitOn hp
      rw [hfirst, ← hfold, ← map_components_tryCreate, Option.map_eq_none_iff]
    · intro path _
      refine ⟨fun c hc => ?_, ?_⟩
      · obtain ⟨h1, h2, h3, hslash⟩ := path.proper c hc
        exact ⟨hslash, h1, h2, h3⟩
      · rw [tryCreateFrom_absolute path.head?_absolute, tryCreate_absolute]
  · intro path element
    refine ⟨_, tryJoin_absolute path element, map_components_tryAppend path element, fun hrelative => ?_⟩
    exact ⟨tryCreateFrom_relative hrelative.1 hrelative.2 path, resolvePath_relative hrelative path⟩
  · intro path next first second hfirst
    rw [tryJoin_absolute] at hfirst
    rw [tryJoin_absolute, tryJoin_absolute, tryAppend_append (Except.ok.inj hfirst)]
  · intro path next first second hfirst hsecond hresolve
    rw [resolvePath_relative hfirst] at hresolve
    have hboth : Relative (first ++ '/' :: second) := by
      refine ⟨by simp, ?_⟩
      rw [List.head?_append_of_ne_nil _ hfirst.1]
      exact hfirst.2
    rw [resolvePath_relative hboth, resolvePath_relative hsecond, tryAppend_append (Except.ok.inj hresolve)]

theorem paths_normalize_dots :
    tryCreateFrom ['/', 'a', '/', '.', '.', '/', '.', '.'] [] = .ok none ∧
    resolvePath (some ⟨[['a']], by decide⟩) ['b', '/', '.', '.'] = resolvePath (some ⟨[['a'], ['b']], by decide⟩) ['.', '.'] := by
  obtain ⟨hcreate, happend, -, hresolve⟩ := paths_normalize
  constructor
  · obtain ⟨res, hres, hnone, -⟩ := hcreate ['/', 'a', '/', '.', '.', '/', '.', '.'] [] rfl
    have hunmatched : Unmatched 0 (segments ['/', 'a', '/', '.', '.', '/', '.', '.']) :=
      ⟨[[], ['a'], ['.', '.']], [], by decide, by decide⟩
    rw [hres, hnone.2 hunmatched]
  · have hb : Relative ['b'] := ⟨by decide, by decide⟩
    refine hresolve ⟨[['a']], by decide⟩ ⟨[['a'], ['b']], by decide⟩ ['b'] ['.', '.'] hb ⟨by decide, by decide⟩ ?_
    obtain ⟨res, -, hcomponents, hrelative⟩ := happend ⟨[['a']], by decide⟩ ['b']
    rw [(hrelative hb).2]
    have hkept : res.map components = some [['a'], ['b']] := hcomponents.trans (by decide)
    obtain ⟨path, rfl, hpath⟩ := Option.map_eq_some_iff.1 hkept
    exact congrArg (fun path => Except.ok (some path)) (eq_of_components hpath)

end Path

end X64Emulator
