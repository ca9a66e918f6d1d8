import X64Emulator.Lemmas.IntervalCuts

/-!
# Looking intervals up

Intervals stay sorted and apart as long as none is reserved over one that begins before it. A lookup finds the first interval that
does not end before a value, which is the one the value is in unless the value is the end of an interval or in front of one.
-/

namespace X64Emulator

namespace IntervalVector

variable {T : Type} {v : IntervalVector T} {value : Nat}

/-- `find` finds the interval that a value is in, and nothing when it is in none. -/
def FindsRight (v : IntervalVector T) (value : Nat) : Prop :=
  (∀ a ∈ v.values, Covers a value → v.find value = some a) ∧
    ((∀ a ∈ v.values, ¬ Covers a value) → v.find value = none)

/-- `add` puts an item into the interval that a value is in. -/
def AddsRight (v : IntervalVector T) (value : Nat) : Prop :=
  ∀ item before a after, v.values = before ++ a :: after → Covers a value →
    v.add value item = some ⟨before ++ { a with items := a.items ++ [item] } :: after⟩

/-- The value is not the end of an interval, and it is in an interval or past all of them. -/
def Findable (v : IntervalVector T) (value : Nat) : Prop :=
  (∀ a ∈ v.values, a.end_ ≠ value) ∧ ((∃ a ∈ v.values, Covers a value) ∨ ∀ a ∈ v.values, a.end_ < value)

theorem Wf.findsRight_iff (h : v.Wf) (value : Nat) : v.FindsRight value ↔ v.Findable value := by
  rcases h.find_cases value with ⟨hfind, hall⟩ | ⟨before, a, after, hvalues, -, hfind, hbefore, hle⟩
  · refine iff_of_true ⟨fun a ha hcovers => ?_, fun _ => hfind⟩ ⟨fun a ha => Nat.ne_of_lt (hall a ha), .inr hall⟩
    exact absurd hcovers.2 (Nat.lt_asymm (hall a ha))
  · have ha : a ∈ v.values := by rw [hvalues]; simp
    obtain ⟨hne, hlow, hhigh⟩ := h.append_cons hvalues
    unfold FindsRight Findable
    rw [hfind]
    by_cases hcovers : Covers a value
    · refine iff_of_true ⟨fun b hb hb' => ?_, fun hnone => absurd hcovers (hnone a ha)⟩ ⟨fun b hb => ?_, .inl ⟨a, ha, hcovers⟩⟩
      · rw [h.ordered.eq_of_shared ha hb hcovers hb']
      · rw [hvalues, List.mem_append, List.mem_cons] at hb
        rcases hb with hb | rfl | hb
        · exact Nat.ne_of_lt (hbefore b hb)
        · exact Nat.ne_of_gt hcovers.2
        · have hb' := hhigh b hb
          have := hcovers.2
          omega
    · refine iff_of_false ?_ ?_
      · rintro ⟨hsome, hnone⟩
        by_cases hany : ∃ b ∈ v.values, Covers b value
        · obtain ⟨b, hb, hb'⟩ := hany
          obtain rfl := Option.some.inj (hsome b hb hb')
          exact hcovers hb'
        · cases hnone fun b hb hb' => hany ⟨b, hb, hb'⟩
      · rintro ⟨hends, ⟨b, hb, hb'⟩ | hpast⟩
        · -- The value is before the end of the interval that is found, so it is in none behind it.
          have hend := hends a ha
          rw [hvalues, List.mem_append, List.mem_cons] at hb
          rcases hb with hb | rfl | hb
          · exact absurd hb'.2 (Nat.lt_asymm (hbefore b hb))
          · exact hcovers hb'
          · have := (hhigh b hb).1
            have := hb'.1
            omega
        · exact absurd (hpast a ha) (Nat.not_lt.2 hle)

theorem Wf.addsRight (h : v.Wf) (hfindable : v.Findable value) : v.AddsRight value := by
  intro item before a after hvalues hcovers
  obtain ⟨hne, hlow, hhigh⟩ := h.append_cons hvalues
  have hposition : v.findPosition value = before.length := by
    unfold findPosition
    rw [hvalues]
    refine BinarySearch.partitionPoint_append (fun b hb => ?_) (List.forall_mem_cons.2 ⟨?_, fun b hb => ?_⟩)
    · have hend := hfindable.1 b (by rw [hvalues]; simp [hb])
      have := (hlow b hb).1
      have := hcovers.1
      simp only [decide_eq_true_eq]
      omega
    · have := hcovers.2
      simp only [decide_eq_false_iff_not]
      omega
    · have hb' := hhigh b hb
      have := hcovers.2
      simp only [decide_eq_false_iff_not]
      omega
  unfold IntervalVector.add find
  simp only [hposition, hvalues]
  simp

variable [Item T]

/-- In every run whose steps keep the intervals apart, they stay sorted and apart. Looking a value up and adding an item at it are
right exactly where the value is not the end of an interval, and is in an interval or past all of them, and a removal has a result
exactly where it meets the condition on the steps. -/
theorem lookup_iff (h : (machine T).ReachableUnder KeepsApart v) :
    v.Wf ∧ (∀ value, (v.FindsRight value ∧ v.AddsRight value) ↔ v.Findable value) ∧
      ∀ start end_, (∃ v', v.remove start end_ = some v') ↔ v.KeepsApart (.remove start end_) := by
  have hwf := reachable_wf h
  refine ⟨hwf, fun value => ⟨fun hright => (hwf.findsRight_iff value).1 hright.1, fun hfindable => ?_⟩, hwf.remove_isSome_iff⟩
  exact ⟨(hwf.findsRight_iff value).2 hfindable, hwf.addsRight hfindable⟩

/-- Two intervals that touch, the second of them split, and one behind a gap. -/
def touchingRun : List (IntervalAction AddressRange) :=
  [.reserve 0 16, .reserve 16 48, .add 20 ⟨20, 24⟩, .split 32, .reserve 64 80]

theorem lookup_iff_sample : ∃ v : IntervalVector AddressRange, (machine AddressRange).run ⟨[]⟩ touchingRun = some v ∧
    v.values = [⟨0, 16, []⟩, ⟨16, 32, [⟨20, 24⟩]⟩, ⟨32, 48, []⟩, ⟨64, 80, []⟩] ∧ v.FindsRight 20 ∧ v.AddsRight 20 := by
  have hrun : ((machine AddressRange).checked KeepsApart).run ⟨[]⟩ touchingRun =
      some ⟨[⟨0, 16, []⟩, ⟨16, 32, [⟨20, 24⟩]⟩, ⟨32, 48, []⟩, ⟨64, 80, []⟩]⟩ := by decide
  have hreach := (Machine.ReachableUnder.init rfl :
    (machine AddressRange).ReachableUnder KeepsApart ⟨[]⟩).run_checked touchingRun hrun
  have hright := ((lookup_iff hreach).2.1 20).2 ⟨by decide, .inl ⟨⟨16, 32, [⟨20, 24⟩]⟩, by simp, by simp [Covers]⟩⟩
  exact ⟨_, by decide, rfl, hright⟩

/-- The first interval is found at the address where the second one begins, an interval in front of a gap is found in the gap, an
interval can be reserved over one that begins before it, and a removal from the last interval back to the first has no result. -/
theorem lookup_fails : ∃ v : IntervalVector AddressRange, (machine AddressRange).run ⟨[]⟩ touchingRun = some v ∧
    ¬ v.FindsRight 16 ∧ ¬ v.FindsRight 56 ∧ ∃ v', v.step (.reserve 70 90) = some v' ∧
      ¬ Ranges.Ordered IntervalValue.start IntervalValue.end_ v'.values ∧ v.step (.remove 80 8) = none := by
  refine ⟨⟨[⟨0, 16, []⟩, ⟨16, 32, [⟨20, 24⟩]⟩, ⟨32, 48, []⟩, ⟨64, 80, []⟩]⟩, by decide, fun h => ?_, fun h => ?_, _, rfl, ?_⟩
  · exact absurd (h.1 ⟨16, 32, [⟨20, 24⟩]⟩ (by simp) (by simp [Covers])) (by decide)
  · exact absurd (h.2 (by simp [Covers])) (by decide)
  · unfold Ranges.Ordered
    decide

end IntervalVector

end X64Emulator
