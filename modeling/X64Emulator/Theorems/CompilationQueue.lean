import X64Emulator.Lemmas.CodeViews

/-!
# The compilation queue

Compiling a segment pushes the segments after it, so the queue grows while it is worked through. Every segment is handed to the
compiler at most once, and only then does it push anything: the segments that were not attempted yet, and below them the
length of the queue, say why it becomes empty.
-/

namespace X64Emulator

open Outcome

/-- A segment that is handed to the compiler, with its counters at that moment. -/
structure Attempt where
  segment : Nat
  calls : Nat
  callsForCompilation : Nat
deriving DecidableEq, Repr

namespace CodeCache

variable {c c' : CodeCache} {compiler : SegmentCompiler} {this p x : Nat} {s : CodeSegment} {attempted queue : List Nat}

/-- `tryCompile`, with the segment that is handed to the compiler. -/
def tryCompileLogged (c : CodeCache) (compiler : SegmentCompiler) (this : Nat) :
    Except LinkFailure ((CodeCache × List Nat) × List Attempt) := do
  let s ← c.segment this
  if s.calls < s.callsForCompilation then
    .ok ((c.modify this fun s => { s with callsForCompilation := s.callsForCompilation / 2 }, []), [])
  else if s.compilationAttempted then .ok ((c, []), [])
  else
    let c' ← c.installIf this (compiler this)
    .ok ((c'.modify this fun s => { s with compilationAttempted := true }, s.toCompile),
      [⟨this, s.calls, s.callsForCompilation⟩])

/-- `process`, with the segments that are handed to the compiler, in their order. -/
def processLogged (compiler : SegmentCompiler) : Nat → List Nat → CodeCache → Except LinkFailure (CodeCache × List Attempt)
  | _, [], c => .ok (c, [])
  | 0, _ :: _, _ => .error .unfinished
  | turns + 1, p :: queue, c => do
    let ((c, pushed), attempts) ← c.tryCompileLogged compiler p
    let (c, more) ← processLogged compiler turns (pushed.reverse ++ queue) c
    .ok (c, attempts ++ more)

theorem tryCompileLogged_fst : (·.1) <$> c.tryCompileLogged compiler this = c.tryCompile compiler this := by
  unfold tryCompileLogged tryCompile
  cases c.segment this with
  | error e => rfl
  | ok s =>
    simp only [bind, Except.bind]
    split
    · rfl
    · split
      · rfl
      · cases c.installIf this (compiler this) <;> rfl

/-- The log changes nothing. -/
theorem processLogged_fst {turns : Nat} : (·.1) <$> processLogged compiler turns queue c = process compiler turns queue c := by
  induction turns generalizing queue c with
  | zero => cases queue <;> rfl
  | succ turns ih =>
    cases queue with
    | nil => rfl
    | cons p queue =>
      simp only [process, processLogged, ← tryCompileLogged_fst]
      cases c.tryCompileLogged compiler p with
      | error e => rfl
      | ok r =>
        simp only [bind, Except.bind, Functor.map, Except.map, ← ih]
        cases processLogged compiler turns (r.1.2.reverse ++ queue) r.1.1 <;> rfl

section Visits

/-- What the queue depends on in a segment. -/
def view (c : CodeCache) (p : Nat) : Option (List Nat × Bool) :=
  (c.segments.get? p).map fun s => (s.linked, s.compilationAttempted)

/-- The links are the same, and these segments were attempted in between. -/
def Visited (c : CodeCache) (attempted : List Nat) (c' : CodeCache) : Prop :=
  ∀ p, c'.view p = (c.view p).map fun v => (v.1, v.2 || decide (p ∈ attempted))

theorem Visited.refl (c : CodeCache) : c.Visited [] c := by
  intro p
  cases c.view p <;> simp

theorem Visited.trans {c'' : CodeCache} {later : List Nat} (h : c.Visited attempted c') (h' : c'.Visited later c'') :
    c.Visited (attempted ++ later) c'' := by
  intro p
  rw [h', h, Option.map_map]
  congr 1
  funext v
  simp [Bool.or_assoc]

theorem Visited.live (h : c.Visited attempted c') : c'.segments.Live p ↔ c.segments.Live p := by
  have hview : ∀ c : CodeCache, c.segments.Live p ↔ (c.view p).isSome := by
    intro c
    simp [Heap.Live, view, Option.isSome_iff_exists]
  rw [hview c', hview c, h p, Option.isSome_map]

/-- What a segment was before the visits. -/
theorem Visited.before {s' : CodeSegment} (h : c.Visited attempted c') (hs' : c'.segments.get? p = some s') :
    ∃ s, c.segments.get? p = some s ∧ s'.linked = s.linked ∧
      s'.compilationAttempted = (s.compilationAttempted || decide (p ∈ attempted)) := by
  have hp := h p
  rw [view, view, hs', Option.map_some, Option.map_map] at hp
  obtain ⟨s, hs, heq⟩ := Option.map_eq_some_iff.1 hp.symm
  obtain ⟨hlinked, hattempted⟩ := Prod.mk.inj heq
  exact ⟨s, hs, hlinked.symm, hattempted.symm⟩

/-- What has become of a segment after the visits. -/
theorem Visited.after (h : c.Visited attempted c') (hs : c.segments.get? p = some s) :
    ∃ s', c'.segments.get? p = some s' ∧ s'.compilationAttempted = (s.compilationAttempted || decide (p ∈ attempted)) := by
  obtain ⟨s', hs'⟩ := h.live.2 ⟨s, hs⟩
  obtain ⟨s₀, hs₀, -, hattempted⟩ := h.before hs'
  obtain rfl : s₀ = s := Option.some.inj (hs₀.symm.trans hs)
  exact ⟨s', hs', hattempted⟩

theorem Visited.closed (h : c.Visited attempted c') (hc : c.Closed) : c'.Closed := by
  intro p s' hs' x hx
  obtain ⟨s, hs, hlinked, -⟩ := h.before hs'
  exact h.live.2 (hc p s hs x (hlinked ▸ hx))

/-- Native code is no matter to the queue. -/
theorem visited_of_agree (h : Agree CodeSegment.withoutCode c c') : c.Visited [] c' := by
  have hview : Agree (fun s => (s.linked, s.compilationAttempted)) c c' :=
    h.of_view (fun s => (s.linked, s.compilationAttempted)) fun s => by rw [CodeSegment.linked_withoutCode]; rfl
  intro p
  rw [view, view, hview.view p]
  cases c.segments.get? p <;> simp

/-- A segment changes in what the queue does not depend on, or because it was attempted. -/
theorem visited_modify {f : CodeSegment → CodeSegment} (hlinked : ∀ s, c.segments.get? this = some s → (f s).linked = s.linked)
    (hattempted : ∀ s, c.segments.get? this = some s →
      (f s).compilationAttempted = (s.compilationAttempted || decide (this ∈ attempted)))
    (honly : ∀ p ∈ attempted, p = this) : c.Visited attempted (c.modify this f) := by
  intro p
  by_cases hp : p = this
  · subst hp
    cases hs : c.segments.get? p with
    | none => simp [view, modify, Heap.get?_modify_self, hs]
    | some s => simp [view, modify, Heap.get?_modify_self, hs, hlinked s hs, hattempted s hs]
  · have hnot : p ∉ attempted := fun hmem => hp (honly p hmem)
    cases hs : c.segments.get? p with
    | none => simp [view, get?_modify_of_ne hp, hs]
    | some s => simp [view, get?_modify_of_ne hp, hs, hnot]

end Visits

/-- One turn of the queue: the segment is attempted and pushes the ones after it, or nothing is pushed. -/
theorem tryCompileLogged_total (compiler : SegmentCompiler) (hc : c.Closed) (hs : c.segments.get? this = some s) :
    (∃ c', c.tryCompileLogged compiler this = .ok ((c', []), []) ∧ c.Visited [] c') ∨
    (s.compilationAttempted = false ∧ s.callsForCompilation ≤ s.calls ∧
      ∃ c', c.tryCompileLogged compiler this = .ok ((c', s.toCompile), [⟨this, s.calls, s.callsForCompilation⟩]) ∧
        c.Visited [this] c') := by
  have hsegment : c.segment this = .ok s := by
    unfold segment
    rw [hs]
  unfold tryCompileLogged
  rw [hsegment]
  simp only [bind, Except.bind]
  split
  · exact Or.inl ⟨_, rfl, visited_modify (fun _ _ => rfl) (fun t _ => by simp) fun _ hp => by cases hp⟩
  · next hcalls =>
    split
    · exact Or.inl ⟨c, rfl, .refl c⟩
    · next hnew =>
      have hpatched : Post (fun _ => True) (Agree CodeSegment.withoutCode c) (c.installIf this (compiler this)) :=
        installIf_agree (fun _ => hc) fun _ => ⟨s, hs⟩
      obtain ⟨c₁, hinstall, h₁⟩ := hpatched.total
      rw [hinstall]
      have hflag : c₁.Visited [this] (c₁.modify this fun s => { s with compilationAttempted := true }) :=
        visited_modify (fun _ _ => rfl) (fun t _ => by simp) fun _ hp => List.mem_singleton.1 hp
      exact Or.inr ⟨by simpa using hnew, by omega, _, rfl, (visited_of_agree h₁).trans hflag⟩

/-- What a run of the queue has done: the segments of its log are those it attempted, each of them once. -/
structure Processed (c c' : CodeCache) (attempts : List Attempt) : Prop where
  visited : c.Visited (attempts.map (·.segment)) c'
  once : (attempts.map (·.segment)).Nodup
  fresh : ∀ a ∈ attempts, ∃ s, c.segments.get? a.segment = some s ∧ s.compilationAttempted = false
  hot : ∀ a ∈ attempts, a.callsForCompilation ≤ a.calls

theorem Processed.skip {c₁ : CodeCache} {attempts : List Attempt} (h₁ : c.Visited [] c₁) (h : c₁.Processed c' attempts) :
    c.Processed c' attempts := by
  refine ⟨h₁.trans h.visited, h.once, fun a ha => ?_, h.hot⟩
  obtain ⟨s₁, hs₁, hnew⟩ := h.fresh a ha
  obtain ⟨s, hs, -, hattempted⟩ := h₁.before hs₁
  exact ⟨s, hs, by simpa [hnew] using hattempted.symm⟩

theorem Processed.attempt {c₁ : CodeCache} {attempts : List Attempt} {a : Attempt} (hs : c.segments.get? a.segment = some s)
    (hnew : s.compilationAttempted = false) (hhot : a.callsForCompilation ≤ a.calls) (h₁ : c.Visited [a.segment] c₁)
    (h : c₁.Processed c' attempts) : c.Processed c' (a :: attempts) := by
  have hbefore : ∀ b ∈ attempts, b.segment ≠ a.segment ∧
      ∃ t, c.segments.get? b.segment = some t ∧ t.compilationAttempted = false := by
    intro b hb
    obtain ⟨t₁, ht₁, hfresh⟩ := h.fresh b hb
    obtain ⟨t, ht, -, hattempted⟩ := h₁.before ht₁
    rw [hfresh] at hattempted
    obtain ⟨hold, hne⟩ := Bool.or_eq_false_iff.1 hattempted.symm
    exact ⟨by simpa using hne, t, ht, hold⟩
  refine ⟨h₁.trans h.visited, List.nodup_cons.2 ⟨fun hmem => ?_, h.once⟩, fun b hb => ?_, fun b hb => ?_⟩
  · obtain ⟨b, hb, heq⟩ := List.mem_map.1 hmem
    exact (hbefore b hb).1 heq
  · rcases List.mem_cons.1 hb with rfl | hb
    · exact ⟨s, hs, hnew⟩
    · exact (hbefore b hb).2
  · rcases List.mem_cons.1 hb with rfl | hb
    · exact hhot
    · exact h.hot b hb

/-- Some number of turns empties the queue, and with more turns the run is the same. -/
def Empties (compiler : SegmentCompiler) (queue : List Nat) (c : CodeCache) : Prop :=
  ∃ turns c' attempts, (∀ more, turns ≤ more → processLogged compiler more queue c = .ok (c', attempts)) ∧ c.Processed c' attempts

theorem empties_nil : Empties compiler [] c := by
  refine ⟨0, c, [], fun more _ => by cases more <;> rfl, ⟨.refl c, List.nodup_nil, fun a ha => ?_, fun a ha => ?_⟩⟩
  · cases ha
  · cases ha

/-- A run of the queue is its first turn and a run of what is on the queue then. -/
theorem empties_cons {c₁ : CodeCache} {pushed : List Nat} {attempts : List Attempt}
    (hturn : c.tryCompileLogged compiler this = .ok ((c₁, pushed), attempts)) (h : Empties compiler (pushed.reverse ++ queue) c₁)
    (hprocessed : ∀ c' more, c₁.Processed c' more → c.Processed c' (attempts ++ more)) :
    Empties compiler (this :: queue) c := by
  obtain ⟨turns, c', later, hrun, hlater⟩ := h
  refine ⟨turns + 1, c', attempts ++ later, fun more hmore => ?_, hprocessed c' later hlater⟩
  obtain ⟨more, rfl⟩ : ∃ k, more = k + 1 := ⟨more - 1, by omega⟩
  simp only [processLogged, hturn, bind, Except.bind, hrun more (by omega)]

/-- The queue becomes empty. The induction is on the segments that may not have been attempted yet, and inside on the queue. -/
theorem empties (compiler : SegmentCompiler) {pending : List Nat} (hc : c.Closed) (hqueue : ∀ x ∈ queue, c.segments.Live x)
    (hpending : ∀ p s, c.segments.get? p = some s → s.compilationAttempted = false → p ∈ pending) :
    Empties compiler queue c := by
  induction hn : pending.length using Nat.strongRecOn generalizing pending queue c with
  | _ n ih =>
    induction queue generalizing c with
    | nil => exact empties_nil
    | cons this queue ihq =>
      obtain ⟨s, hs⟩ := hqueue this List.mem_cons_self
      have hrest : ∀ x ∈ queue, c.segments.Live x := fun x hx => hqueue x (List.mem_cons_of_mem _ hx)
      rcases tryCompileLogged_total compiler hc hs with ⟨c₁, hturn, h₁⟩ | ⟨hnew, hhot, c₁, hturn, h₁⟩
      · -- nothing is pushed, and the queue is shorter
        refine empties_cons hturn (ihq (h₁.closed hc) (fun x hx => h₁.live.2 (hrest x hx)) fun p s' hs' hfresh => ?_)
          fun c' more hmore => hmore.skip h₁
        obtain ⟨s₀, hs₀, -, hattempted⟩ := h₁.before hs'
        exact hpending p s₀ hs₀ (by simpa [hfresh] using hattempted.symm)
      · -- the segments after it are pushed, but it is not attempted again
        have hmem : this ∈ pending := hpending this s hs hnew
        have hless : (pending.filter (· ≠ this)).length < n := by
          rw [← hn]
          exact List.length_filter_lt_length_iff_exists.2 ⟨this, hmem, by simp⟩
        refine empties_cons hturn (ih _ hless (h₁.closed hc) (fun x hx => ?_) (fun p s' hs' hfresh => ?_) rfl)
          fun c' more hmore => hmore.attempt hs hnew hhot h₁
        · rcases List.mem_append.1 hx with hx | hx
          · exact h₁.live.2 (hc this s hs x (List.mem_append_left _ (List.mem_reverse.1 hx)))
          · exact h₁.live.2 (hrest x hx)
        · obtain ⟨s₀, hs₀, -, hattempted⟩ := h₁.before hs'
          rw [hfresh] at hattempted
          obtain ⟨hold, hne⟩ := Bool.or_eq_false_iff.1 hattempted.symm
          exact List.mem_filter.2 ⟨hpending p s₀ hs₀ hold, by simpa using hne⟩

/-- On every graph of segments the queue becomes empty, and until then each segment is handed to the compiler at most once, and
never while it has been called less often than its threshold says. -/
theorem process_empties (compiler : SegmentCompiler) (hc : c.Closed) (hthis : c.segments.Live this) :
    ∃ turns c' attempts,
      (∀ more, turns ≤ more → process compiler more [this] c = .ok c' ∧
        processLogged compiler more [this] c = .ok (c', attempts)) ∧
      (attempts.map (·.segment)).Nodup ∧
      ∀ a ∈ attempts, a.callsForCompilation ≤ a.calls ∧
        (∃ s, c.segments.get? a.segment = some s ∧ s.compilationAttempted = false) ∧
        ∃ s', c'.segments.get? a.segment = some s' ∧ s'.compilationAttempted = true := by
  have hall : ∀ p s, c.segments.get? p = some s → s.compilationAttempted = false → p ∈ List.range c.segments.next :=
    fun p s hs _ => List.mem_range.2 (Heap.Live.lt_next ⟨s, hs⟩)
  have hqueue : ∀ x ∈ [this], c.segments.Live x := by
    intro x hx
    exact List.mem_singleton.1 hx ▸ hthis
  obtain ⟨turns, c', attempts, hrun, h⟩ := empties compiler hc hqueue hall
  refine ⟨turns, c', attempts, fun more hmore => ⟨?_, hrun more hmore⟩, h.once, fun a ha => ⟨h.hot a ha, h.fresh a ha, ?_⟩⟩
  · rw [← processLogged_fst, hrun more hmore]
    rfl
  · obtain ⟨s, hs, -⟩ := h.fresh a ha
    obtain ⟨s', hs', hattempted⟩ := h.visited.after hs
    exact ⟨s', hs', by simp [hattempted, List.mem_map_of_mem ha]⟩

/-- A loop that was called often enough: it is its own successor, and the block after it leads back to it. -/
def loopRun : List CodeAction :=
  [.fetchSegment ⟨4096, 4112, true, false⟩, .fetchSegment ⟨4112, 4128, true, false⟩, .addSuccessor 0 0, .addSuccessor 0 1,
    .addSuccessor 1 0] ++ (List.replicate 8 [CodeAction.onCall 0 (fun _ => none) 1, .onCpuCall 0]).flatten

theorem process_empties_loop : ∃ c, machine.run (initial true) loopRun = some c ∧
    ∃ turns c' attempts,
      (∀ more, turns ≤ more → process (fun _ => some ⟨none, none, none⟩) more [0] c = .ok c' ∧
        processLogged (fun _ => some ⟨none, none, none⟩) more [0] c = .ok (c', attempts)) ∧
      (attempts.map (·.segment)).Nodup ∧
      ∀ a ∈ attempts, a.callsForCompilation ≤ a.calls ∧
        (∃ s, c.segments.get? a.segment = some s ∧ s.compilationAttempted = false) ∧
        ∃ s', c'.segments.get? a.segment = some s' ∧ s'.compilationAttempted = true := by
  have hrun : (machine.run (initial true) loopRun).map (fun c => (c.segments.get? 0).isSome) = some true := by decide
  obtain ⟨c, hc, hlive⟩ := Option.map_eq_some_iff.1 hrun
  have hstart : machine.ReachableUnder LeavesNoTrace (initial true) := .init ⟨true, rfl⟩
  have hreach : machine.ReachableUnder LeavesNoTrace c := by
    refine hstart.run loopRun (fun action haction c => ?_) hc
    simp only [loopRun, List.mem_append, List.mem_cons, List.not_mem_nil, or_false, List.mem_flatten, List.mem_replicate] at haction
    rcases haction with (rfl | rfl | rfl | rfl | rfl) | ⟨_, ⟨-, rfl⟩, haction⟩
    all_goals try trivial
    simp only [List.mem_cons, List.not_mem_nil, or_false] at haction
    rcases haction with rfl | rfl <;> trivial
  have hinv : c.Inv True := reachableUnder_inv (fun _ _ htrace _ => htrace) hreach
  exact ⟨c, hc, process_empties _ hinv.closed (Option.isSome_iff_exists.1 hlive)⟩

-- the loop is attempted once; the block after it was not called yet, so its threshold is halved
example : ((machine.run (initial true) loopRun).bind fun c => (processLogged (fun _ => some ⟨none, none, none⟩) 5 [0] c).toOption).map
    (fun r => (r.2, (r.1.segments.get? 1).map (·.callsForCompilation))) = some ([⟨0, 8, 4⟩], some 512) := by decide

end CodeCache

end X64Emulator
