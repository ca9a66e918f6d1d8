import X64Emulator.Lemmas.Time

/-!
# Arithmetic on times

A sum of a time and a difference counts what both count. Its rest is below one second, and the comparisons agree with the
counts, unless the rests of the two add up to exactly one second.
-/

namespace X64Emulator

namespace PreciseTime

variable {a b : PreciseTime} {da db : TimeDifference} {ns : Nat}

/-- What a number of nanoseconds and the sums of two times with two differences have to be. -/
structure SoundSums (a b : PreciseTime) (da db : TimeDifference) (ns : Nat) : Prop where
  count_add : (a.add da).count = a.count + da.count ∧ (b.add db).count = b.count + db.count
  count_fromNanoSeconds : (TimeDifference.fromNanoSeconds ns).count = ns
  normalized_add : (a.add da).normalized ∧ (b.add db).normalized
  normalized_fromNanoSeconds : (TimeDifference.fromNanoSeconds ns).normalized
  lt_iff : (a.add da).lt (b.add db) = true ↔ (a.add da).count < (b.add db).count
  gt_iff : (a.add da).gt (b.add db) = true ↔ (b.add db).count < (a.add da).count

/-- The arithmetic of times is right exactly where no rests add up to one second, and no difference is one second. -/
theorem soundSums_iff (ha : a.total + da.total < 2 ^ 64) (hb : b.total + db.total < 2 ^ 64) (hns : ns < 2 ^ 64) :
    SoundSums a b da db ns ↔ a.nanoseconds + da.nanoseconds ≠ NS_PER_S ∧ b.nanoseconds + db.nanoseconds ≠ NS_PER_S ∧
      ns ≠ NS_PER_S := by
  rw [← PreciseTime.normalized_add ha, ← PreciseTime.normalized_add hb, ← TimeDifference.normalized_fromNanoSeconds]
  constructor
  · intro h
    exact ⟨h.normalized_add.1, h.normalized_add.2, h.normalized_fromNanoSeconds⟩
  · rintro ⟨hnormalA, hnormalB, hnormal⟩
    have htotalA : (a.add da).total < 2 ^ 64 := by rw [total_add ha]; exact ha
    have htotalB : (b.add db).total < 2 ^ 64 := by rw [total_add hb]; exact hb
    refine ⟨⟨PreciseTime.count_add ha, PreciseTime.count_add hb⟩, TimeDifference.count_fromNanoSeconds hns,
      ⟨hnormalA, hnormalB⟩, hnormal, ?_, ?_⟩
    · rw [lt_iff_total hnormalA hnormalB, count_eq htotalA, count_eq htotalB]
    · rw [gt_eq_lt, lt_iff_total hnormalB hnormalA, count_eq htotalA, count_eq htotalB]

theorem soundSums_sample : SoundSums ⟨5, 600000000⟩ ⟨6, 0⟩ ⟨0, 500000000⟩ ⟨0, 100000000⟩ 1500000000 :=
  (soundSums_iff (by decide) (by decide) (by decide)).2 (by decide)

/-- A poll that waits for a second: the difference is not carried over, and the time limit it gives is less than a time that
counts the same nanoseconds. -/
theorem soundSums_fails : ¬ SoundSums ⟨5, 0⟩ ⟨5, 500000000⟩ (TimeDifference.fromNanoSeconds (1000 * 1000000)) ⟨0, 600000000⟩
    (1000 * 1000000) ∧
    (add ⟨5, 0⟩ (TimeDifference.fromNanoSeconds (1000 * 1000000))).lt ⟨6, 0⟩ = true ∧
    (add ⟨5, 0⟩ (TimeDifference.fromNanoSeconds (1000 * 1000000))).count = count ⟨6, 0⟩ := by
  refine ⟨?_, by decide, by decide⟩
  intro h
  exact absurd h.normalized_fromNanoSeconds (by unfold TimeDifference.normalized; decide)

end PreciseTime

end X64Emulator
