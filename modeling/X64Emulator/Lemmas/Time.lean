import X64Emulator.Timers

/-!
# Counts of nanoseconds

A time is a number of seconds and a rest. Sums carry full seconds over only past the threshold, so a rest of exactly one second
can stay in the rest; what holds of counts and comparisons is stated for rests up to that threshold.
-/

namespace X64Emulator

namespace TimeDifference

/-- The nanoseconds of a difference, however large. -/
def total (dt : TimeDifference) : Nat := dt.seconds * NS_PER_S + dt.nanoseconds

def normalized (dt : TimeDifference) : Prop := dt.nanoseconds < NS_PER_S

theorem count_eq {dt : TimeDifference} (h : dt.total < 2 ^ 64) : dt.count = dt.total := by
  unfold count total u64 NS_PER_S at *
  omega

theorem total_fromNanoSeconds (ns : Nat) : (fromNanoSeconds ns).total = ns := by
  unfold fromNanoSeconds total NS_PER_S
  split <;> simp only <;> omega

theorem count_fromNanoSeconds {ns : Nat} (h : ns < 2 ^ 64) : (fromNanoSeconds ns).count = ns := by
  have htotal := total_fromNanoSeconds ns
  rw [count_eq (by omega), htotal]

/-- Only a difference of one second is left as it is. -/
theorem normalized_fromNanoSeconds {ns : Nat} : (fromNanoSeconds ns).normalized ↔ ns ≠ NS_PER_S := by
  unfold fromNanoSeconds normalized NS_PER_S
  split <;> simp only <;> omega

end TimeDifference

namespace PreciseTime

variable {a b t : PreciseTime} {dt : TimeDifference}

/-- The nanoseconds of a time, however large. -/
def total (t : PreciseTime) : Nat := t.seconds * NS_PER_S + t.nanoseconds

def normalized (t : PreciseTime) : Prop := t.nanoseconds < NS_PER_S

theorem count_eq (h : t.total < 2 ^ 64) : t.count = t.total := by
  unfold count total u64 NS_PER_S at *
  omega

/-- Where nothing wraps, full seconds are carried over past the threshold. -/
theorem add_eq (h : t.total + dt.total < 2 ^ 64) :
    t.add dt = if NS_PER_S < t.nanoseconds + dt.nanoseconds then
        ⟨t.seconds + dt.seconds + (t.nanoseconds + dt.nanoseconds) / NS_PER_S, (t.nanoseconds + dt.nanoseconds) % NS_PER_S⟩
      else ⟨t.seconds + dt.seconds, t.nanoseconds + dt.nanoseconds⟩ := by
  unfold total TimeDifference.total NS_PER_S at h
  have hnanoseconds : t.nanoseconds + dt.nanoseconds < 2 ^ 64 := by omega
  have hseconds : t.seconds + dt.seconds + (t.nanoseconds + dt.nanoseconds) / 1000000000 < 2 ^ 64 := by omega
  simp only [add, NS_PER_S, u64_of_lt hnanoseconds, u64_of_lt (Nat.lt_of_le_of_lt (Nat.le_add_right _ _) hseconds),
    u64_of_lt hseconds]
  rfl

theorem total_add (h : t.total + dt.total < 2 ^ 64) : (t.add dt).total = t.total + dt.total := by
  rw [add_eq h]
  unfold total TimeDifference.total NS_PER_S
  split <;> simp only <;> omega

theorem count_add (h : t.total + dt.total < 2 ^ 64) : (t.add dt).count = t.count + dt.count := by
  have htotal := total_add h
  rw [count_eq (by omega), count_eq (by omega), TimeDifference.count_eq (by omega), htotal]

/-- The rest of a sum is below the threshold unless the rests add up to one second. -/
theorem normalized_add (h : t.total + dt.total < 2 ^ 64) :
    (t.add dt).normalized ↔ t.nanoseconds + dt.nanoseconds ≠ NS_PER_S := by
  rw [add_eq h]
  unfold normalized NS_PER_S
  split <;> simp only <;> omega

theorem lt_iff_total (ha : a.normalized) (hb : b.normalized) : a.lt b = true ↔ a.total < b.total := by
  unfold lt total normalized NS_PER_S at *
  split
  · simp only [true_iff]
    omega
  · split
    · simp only [Bool.false_eq_true, false_iff]
      omega
    · simp only [decide_eq_true_eq]
      omega

theorem gt_eq_lt (a b : PreciseTime) : a.gt b = b.lt a := rfl

/-- The rest of a time is at most the threshold, as carrying leaves it. -/
def carried (t : PreciseTime) : Prop := t.nanoseconds ≤ NS_PER_S

/-- Times are compared by their seconds first, which a rest of one second does not contradict. -/
theorem total_le_of_lt (ha : a.carried) (h : a.lt b = true) : a.total ≤ b.total := by
  unfold lt total carried NS_PER_S at *
  split at h
  · omega
  · split at h
    · cases h
    · simp only [decide_eq_true_eq] at h
      omega

theorem total_le_of_not_lt (hb : b.carried) (h : a.lt b = false) : b.total ≤ a.total := by
  unfold lt total carried NS_PER_S at *
  split at h
  · cases h
  · split at h
    · omega
    · simp only [decide_eq_false_iff_not] at h
      omega

theorem carried_max (ha : a.carried) (hb : b.carried) : (a.max b).carried := by
  unfold max
  split
  · exact hb
  · exact ha

theorem total_max (ha : a.carried) (hb : b.carried) : (a.max b).total = Max.max a.total b.total := by
  unfold max
  split
  · next h => exact (Nat.max_eq_right (total_le_of_lt ha h)).symm
  · next h => exact (Nat.max_eq_left (total_le_of_not_lt hb (by simpa using h))).symm

/-- The larger of two times is not before the first. -/
theorem max_not_lt (a b : PreciseTime) : (a.max b).lt a = false := by
  unfold max
  split
  · next h =>
    unfold lt at *
    split at h
    · next hlt => rw [if_neg (Nat.lt_asymm hlt), if_pos hlt]
    · next hle =>
      split at h
      · cases h
      · next hge =>
        rw [if_neg hge, if_neg hle]
        simp only [decide_eq_true_eq, decide_eq_false_iff_not] at *
        exact Nat.lt_asymm h
  · unfold lt
    simp

theorem carried_add (ht : t.total + dt.total < 2 ^ 64) : (t.add dt).carried := by
  rw [add_eq ht]
  unfold carried NS_PER_S
  split
  · exact Nat.le_of_lt (Nat.mod_lt _ (by decide))
  · next h => exact Nat.not_lt.1 h

end PreciseTime

namespace ThreadTime

variable {t : ThreadTime}

/-- The time of a thread, however large. -/
def total (t : ThreadTime) : Nat := t.waitTime + t.nbInstructions

theorem ns_eq (h : t.total < 2 ^ 64) : t.ns = t.total := u64_of_lt h

/-- A thread's time is set to the current one, which is not before it. -/
theorem setSlice_eq_some {current : Nat} (h : t.total ≤ current) (hcurrent : current < 2 ^ 64) (sliceDuration : Nat) :
    ∃ t', t.setSlice current sliceDuration = some t' ∧ t'.total = current := by
  have hlt : t.waitTime + t.nbInstructions < 2 ^ 64 := Nat.lt_of_le_of_lt h hcurrent
  have hle : t.nbInstructions ≤ current := Nat.le_trans (Nat.le_add_left _ _) h
  have hverify : u64 (t.waitTime + t.nbInstructions) ≤ current := by
    rw [u64_of_lt hlt]
    exact h
  refine ⟨{ t with waitTime := sub64 current t.nbInstructions, instructionLimit := u64 (t.nbInstructions + sliceDuration) },
    ?_, ?_⟩
  · unfold setSlice
    rw [verify_of hverify]
    rfl
  · show sub64 current t.nbInstructions + t.nbInstructions = current
    unfold sub64 u64
    omega

theorem total_tick {count : Nat} (h : t.total + count < 2 ^ 64) : (t.tick count).total = t.total + count := by
  have hlt : t.nbInstructions + count < 2 ^ 64 := by
    unfold total at h
    omega
  show t.waitTime + u64 (t.nbInstructions + count) = t.waitTime + t.nbInstructions + count
  rw [u64_of_lt hlt, Nat.add_assoc]

end ThreadTime

end X64Emulator
