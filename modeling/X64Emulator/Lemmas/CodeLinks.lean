import X64Emulator.CodeSegments

/-!
# The graph of successors and predecessors

Segments record their links in both directions. `Graph` says that the two records agree and that no link leaves a set of
segments; it speaks of two sets, since a segment that is being removed may still be pointed to while its own records are no
longer to be trusted.
-/

namespace X64Emulator

open Outcome

namespace AddressMap

variable {m : AddressMap} {address k v x : Nat} {e : Nat × Nat}

theorem mem_targets : x ∈ m.targets ↔ ∃ k, (k, x) ∈ m.entries := by simp [targets]

theorem find_eq_none : m.find k = none ↔ ∀ e ∈ m.entries, e.1 ≠ k := by simp [find]

theorem mem_of_find (h : m.find k = some v) : (k, v) ∈ m.entries := by
  unfold find at h
  obtain ⟨e, he, rfl⟩ := Option.map_eq_some_iff.1 h
  obtain rfl : e.1 = k := by simpa using List.find?_some he
  exact List.mem_of_find?_eq_some he

theorem mem_erase : e ∈ (m.erase k).entries ↔ e ∈ m.entries ∧ e.1 ≠ k := by simp [erase]

theorem find_erase (h : address ≠ k) : (m.erase k).find address = m.find address := by
  unfold find erase
  rw [List.find?_filter]
  congr 2
  funext e
  by_cases he : e.1 = address <;> simp [he, h]

theorem mem_insert (h : e ∈ (m.insert k v).entries) : e = (k, v) ∨ e ∈ m.entries := by
  unfold insert at h
  split at h
  · exact Or.inr h
  · exact List.mem_cons.1 h

theorem find_insert_of_ne (h : address ≠ k) : (m.insert k v).find address = m.find address := by
  unfold insert
  split
  · rfl
  · simp [find, Ne.symm h]

theorem find_insert_self (h : m.find k = none) : (m.insert k v).find k = some v := by
  unfold insert
  rw [if_neg (by simp [h])]
  simp [find]

/-- Where an address can only lead to one segment, inserting it adds that segment. -/
theorem mem_targets_insert (h : ∀ e ∈ m.entries, e.1 = k → e.2 = v) :
    x ∈ (m.insert k v).targets ↔ x = v ∨ x ∈ m.targets := by
  unfold insert
  split
  · next hk =>
    obtain ⟨w, hw⟩ := Option.isSome_iff_exists.1 hk
    have hmem := mem_of_find hw
    obtain rfl : w = v := h _ hmem rfl
    refine ⟨Or.inr, fun hx => hx.elim (fun he => ?_) id⟩
    exact he ▸ mem_targets.2 ⟨k, hmem⟩
  · simp [targets]

end AddressMap

/-- What a segment records of the links between segments. -/
structure Links where
  start : Nat
  successors : AddressMap
  predecessors : AddressMap

def CodeSegment.links (s : CodeSegment) : Links := ⟨s.start, s.successors, s.predecessors⟩

/-- The links of the segments in `B` agree in both directions, and no link of a segment in `A` leaves `A`. -/
structure Graph (A B : Nat → Prop) (L : Nat → Option Links) (find : Nat → Option Nat) : Prop where
  sub : ∀ p, B p → A p
  there : ∀ p, A p → ∃ l, L p = some l
  successors : ∀ p l, A p → L p = some l → ∀ e ∈ l.successors.entries, A e.2 ∧ ∃ m, L e.2 = some m ∧ m.start = e.1
  predecessors : ∀ p l, A p → L p = some l → ∀ e ∈ l.predecessors.entries, A e.2 ∧ ∃ m, L e.2 = some m ∧ m.start = e.1
  back : ∀ p l q m, B p → B q → L p = some l → L q = some m → (q ∈ l.successors.targets ↔ p ∈ m.predecessors.targets)
  distinct : ∀ p l q m, A p → A q → L p = some l → L q = some m → l.start = m.start → p = q
  found : ∀ p l, B p → L p = some l → find l.start = some p

namespace Graph

variable {A B : Nat → Prop} {L : Nat → Option Links} {find : Nat → Option Nat} {p q : Nat} {l l' m : Links}

/-- An address leads to one segment only. -/
theorem key (h : Graph A B L find) (hp : A p) (hl : L p = some l) (hq : A q) (hm : L q = some m) {e : Nat × Nat}
    (he : e ∈ l.successors.entries ∨ e ∈ l.predecessors.entries) : e.1 = m.start ↔ e.2 = q := by
  obtain ⟨hA, n, hn, hstart⟩ : A e.2 ∧ ∃ n, L e.2 = some n ∧ n.start = e.1 :=
    he.elim (h.successors p l hp hl e) (h.predecessors p l hp hl e)
  constructor
  · intro heq
    exact h.distinct e.2 n q m hA hq hn hm (hstart.trans heq)
  · rintro rfl
    rw [hn] at hm
    exact hstart.symm.trans (congrArg Links.start (Option.some.inj hm))

/-- A segment loses links, none of them between two segments of `B`. -/
theorem shrink (h : Graph A B L find) (hl : L p = some l) (hstart : l'.start = l.start)
    (hsucc : ∀ e ∈ l'.successors.entries, e ∈ l.successors.entries)
    (hpred : ∀ e ∈ l'.predecessors.entries, e ∈ l.predecessors.entries)
    (hkeepS : B p → ∀ q, B q → q ∈ l.successors.targets → q ∈ l'.successors.targets)
    (hkeepP : B p → ∀ q, B q → q ∈ l.predecessors.targets → q ∈ l'.predecessors.targets) :
    Graph A B (Function.update L p (some l')) find := by
  have hget : ∀ q m', Function.update L p (some l') q = some m' →
      ∃ m, L q = some m ∧ m'.start = m.start ∧ (∀ e ∈ m'.successors.entries, e ∈ m.successors.entries) ∧
        (∀ e ∈ m'.predecessors.entries, e ∈ m.predecessors.entries) ∧
        (B q → ∀ r, B r → (r ∈ m'.successors.targets ↔ r ∈ m.successors.targets)) ∧
        (B q → ∀ r, B r → (r ∈ m'.predecessors.targets ↔ r ∈ m.predecessors.targets)) := by
    intro q m' hm'
    by_cases hq : q = p
    · subst hq
      rw [Function.update_self] at hm'
      obtain rfl := Option.some.inj hm'
      refine ⟨l, hl, hstart, hsucc, hpred, fun hB r hr => ⟨fun hmem => ?_, hkeepS hB r hr⟩,
        fun hB r hr => ⟨fun hmem => ?_, hkeepP hB r hr⟩⟩
      · obtain ⟨k, hk⟩ := AddressMap.mem_targets.1 hmem
        exact AddressMap.mem_targets.2 ⟨k, hsucc _ hk⟩
      · obtain ⟨k, hk⟩ := AddressMap.mem_targets.1 hmem
        exact AddressMap.mem_targets.2 ⟨k, hpred _ hk⟩
    · rw [Function.update_of_ne hq] at hm'
      exact ⟨m', hm', rfl, fun _ he => he, fun _ he => he, fun _ _ _ => Iff.rfl, fun _ _ _ => Iff.rfl⟩
  have hput : ∀ q m, L q = some m → ∃ m', Function.update L p (some l') q = some m' ∧ m'.start = m.start := by
    intro q m hm
    by_cases hq : q = p
    · subst hq
      rw [hl] at hm
      exact ⟨l', Function.update_self .., Option.some.inj hm ▸ hstart⟩
    · exact ⟨m, by rwa [Function.update_of_ne hq], rfl⟩
  refine ⟨h.sub, fun q hq => ?_, fun q m' hq hm' e he => ?_, fun q m' hq hm' e he => ?_,
    fun q m' r n' hq hr hm' hn' => ?_, fun q m' r n' hq hr hm' hn' heq => ?_, fun q m' hq hm' => ?_⟩
  · obtain ⟨m, hm⟩ := h.there q hq
    obtain ⟨m', hm', -⟩ := hput q m hm
    exact ⟨m', hm'⟩
  · obtain ⟨m, hm, -, hs, -⟩ := hget q m' hm'
    obtain ⟨hA, n, hn, hkey⟩ := h.successors q m hq hm e (hs e he)
    obtain ⟨n', hn', hns⟩ := hput _ _ hn
    exact ⟨hA, n', hn', hns.trans hkey⟩
  · obtain ⟨m, hm, -, -, hs, -⟩ := hget q m' hm'
    obtain ⟨hA, n, hn, hkey⟩ := h.predecessors q m hq hm e (hs e he)
    obtain ⟨n', hn', hns⟩ := hput _ _ hn
    exact ⟨hA, n', hn', hns.trans hkey⟩
  · obtain ⟨m, hm, -, -, -, hms, -⟩ := hget q m' hm'
    obtain ⟨n, hn, -, -, -, -, hnp⟩ := hget r n' hn'
    rw [hms hq r hr, hnp hr q hq]
    exact h.back q m r n hq hr hm hn
  · obtain ⟨m, hm, hms, -⟩ := hget q m' hm'
    obtain ⟨n, hn, hns, -⟩ := hget r n' hn'
    exact h.distinct q m r n hq hr hm hn (hms.symm.trans (heq.trans hns))
  · obtain ⟨m, hm, hms, -⟩ := hget q m' hm'
    rw [hms]
    exact h.found q m hq hm

/-- A segment is going to be removed: its records need not agree any more, and its address is not looked up. -/
theorem leave {S : Nat} {lS : Links} {find' : Nat → Option Nat} (h : Graph A A L find) (hS : A S) (hlS : L S = some lS)
    (hfind : ∀ k, k ≠ lS.start → find' k = find k) : Graph A (fun p => A p ∧ p ≠ S) L find' := by
  refine ⟨fun p hp => hp.1, h.there, h.successors, h.predecessors, fun p l q m hp hq => h.back p l q m hp.1 hq.1,
    h.distinct, fun p l hp hl => ?_⟩
  rw [hfind l.start fun heq => hp.2 (h.distinct p l S lS hp.1 hS hl hlS heq)]
  exact h.found p l hp.1 hl

/-- No segment of `B` is linked with one that is not. -/
theorem restrict (h : Graph A B L find) (hsucc : ∀ p l, B p → L p = some l → ∀ x ∈ l.successors.targets, B x)
    (hpred : ∀ p l, B p → L p = some l → ∀ x ∈ l.predecessors.targets, B x) : Graph B B L find := by
  refine ⟨fun _ hp => hp, fun p hp => h.there p (h.sub p hp), fun p l hp hl e he => ?_, fun p l hp hl e he => ?_, h.back,
    fun p l q m hp hq => h.distinct p l q m (h.sub p hp) (h.sub q hq), h.found⟩
  · exact ⟨hsucc p l hp hl e.2 (AddressMap.mem_targets.2 ⟨e.1, he⟩), (h.successors p l (h.sub p hp) hl e he).2⟩
  · exact ⟨hpred p l hp hl e.2 (AddressMap.mem_targets.2 ⟨e.1, he⟩), (h.predecessors p l (h.sub p hp) hl e he).2⟩

/-- A link from `p` to `q` is recorded by both. -/
def linkAt (p q startP startQ x : Nat) (l : Links) : Links where
  start := l.start
  successors := if x = p then l.successors.insert startQ q else l.successors
  predecessors := if x = q then l.predecessors.insert startP p else l.predecessors

def link (L : Nat → Option Links) (p q startP startQ x : Nat) : Option Links := (L x).map (linkAt p q startP startQ x)

theorem linked (h : Graph A A L find) (hp : A p) (hl : L p = some l) (hq : A q) (hm : L q = some m) :
    Graph A A (link L p q l.start m.start) find := by
  have hget : ∀ x n', link L p q l.start m.start x = some n' → ∃ n, L x = some n ∧ n'.start = n.start ∧
      n'.successors = (if x = p then n.successors.insert m.start q else n.successors) ∧
      n'.predecessors = (if x = q then n.predecessors.insert l.start p else n.predecessors) := by
    intro x n' hn'
    obtain ⟨n, hn, rfl⟩ := Option.map_eq_some_iff.1 hn'
    exact ⟨n, hn, rfl, rfl, rfl⟩
  have hput : ∀ x n, L x = some n → ∃ n', link L p q l.start m.start x = some n' ∧ n'.start = n.start := by
    intro x n hn
    exact ⟨linkAt p q l.start m.start x n, by rw [link, hn, Option.map_some], rfl⟩
  have hsucc : ∀ x n (n' : Links), A x → L x = some n →
      n'.successors = (if x = p then n.successors.insert m.start q else n.successors) → ∀ y,
      (y ∈ n'.successors.targets ↔ (x = p ∧ y = q) ∨ y ∈ n.successors.targets) := by
    intro x n n' hx hn hn' y
    rw [hn']
    split
    · next hxp => simp [AddressMap.mem_targets_insert fun e he hk => (h.key hx hn hq hm (.inl he)).1 hk, hxp]
    · next hxp => simp [hxp]
  have hpred : ∀ x n (n' : Links), A x → L x = some n →
      n'.predecessors = (if x = q then n.predecessors.insert l.start p else n.predecessors) → ∀ y,
      (y ∈ n'.predecessors.targets ↔ (x = q ∧ y = p) ∨ y ∈ n.predecessors.targets) := by
    intro x n n' hx hn hn' y
    rw [hn']
    split
    · next hxq => simp [AddressMap.mem_targets_insert fun e he hk => (h.key hx hn hp hl (.inr he)).1 hk, hxq]
    · next hxq => simp [hxq]
  refine ⟨h.sub, fun x hx => ?_, fun x n' hx hn' e he => ?_, fun x n' hx hn' e he => ?_,
    fun x n' y o' hx hy hn' ho' => ?_, fun x n' y o' hx hy hn' ho' heq => ?_, fun x n' hx hn' => ?_⟩
  · obtain ⟨n, hn⟩ := h.there x hx
    obtain ⟨n', hn', -⟩ := hput x n hn
    exact ⟨n', hn'⟩
  · obtain ⟨n, hn, -, hs, -⟩ := hget x n' hn'
    have hold : e = (m.start, q) ∨ e ∈ n.successors.entries := by
      rw [hs] at he
      split at he
      · exact AddressMap.mem_insert he
      · exact Or.inr he
    rcases hold with rfl | hold
    · obtain ⟨m', hm', hstart⟩ := hput q m hm
      exact ⟨hq, m', hm', hstart⟩
    · obtain ⟨hA, o, ho, hkey⟩ := h.successors x n hx hn e hold
      obtain ⟨o', ho', hstart⟩ := hput _ _ ho
      exact ⟨hA, o', ho', hstart.trans hkey⟩
  · obtain ⟨n, hn, -, -, hs⟩ := hget x n' hn'
    have hold : e = (l.start, p) ∨ e ∈ n.predecessors.entries := by
      rw [hs] at he
      split at he
      · exact AddressMap.mem_insert he
      · exact Or.inr he
    rcases hold with rfl | hold
    · obtain ⟨l', hl', hstart⟩ := hput p l hl
      exact ⟨hp, l', hl', hstart⟩
    · obtain ⟨hA, o, ho, hkey⟩ := h.predecessors x n hx hn e hold
      obtain ⟨o', ho', hstart⟩ := hput _ _ ho
      exact ⟨hA, o', ho', hstart.trans hkey⟩
  · obtain ⟨n, hn, -, hs, -⟩ := hget x n' hn'
    obtain ⟨o, ho, -, -, hr⟩ := hget y o' ho'
    rw [hsucc x n n' hx hn hs y, hpred y o o' hy ho hr x, h.back x n y o hx hy hn ho, and_comm]
  · obtain ⟨n, hn, hns, -⟩ := hget x n' hn'
    obtain ⟨o, ho, hos, -⟩ := hget y o' ho'
    exact h.distinct x n y o hx hy hn ho (hns.symm.trans (heq.trans hos))
  · obtain ⟨n, hn, hns, -⟩ := hget x n' hn'
    rw [hns]
    exact h.found x n hx hn

/-- A segment for an address that has none. -/
theorem added {find' : Nat → Option Nat} {A' : Nat → Prop} (h : Graph A A L find) (hA : ∀ x, A' x ↔ x = p ∨ A x) (hp : ¬ A p) (hsucc : l.successors = .empty)
    (hpred : l.predecessors = .empty) (hnew : find l.start = none) (hfind : find' l.start = some p)
    (hkeep : ∀ k, k ≠ l.start → find' k = find k) : Graph A' A' (Function.update L p (some l)) find' := by
  have hget : ∀ x m, A' x → Function.update L p (some l) x = some m → (x = p ∧ m = l) ∨ (x ≠ p ∧ A x ∧ L x = some m) := by
    intro x m hx hm
    by_cases hxp : x = p
    · subst hxp
      rw [Function.update_self] at hm
      exact Or.inl ⟨rfl, (Option.some.inj hm).symm⟩
    · rw [Function.update_of_ne hxp] at hm
      exact Or.inr ⟨hxp, ((hA x).1 hx).resolve_left hxp, hm⟩
  have hput : ∀ x m, A x → L x = some m → A' x ∧ Function.update L p (some l) x = some m := by
    intro x m hx hm
    refine ⟨(hA x).2 (.inr hx), ?_⟩
    rwa [Function.update_of_ne]
    rintro rfl
    exact hp hx
  have hother : ∀ x m, A x → L x = some m → m.start ≠ l.start := by
    intro x m hx hm heq
    rw [← heq, h.found x m hx hm] at hnew
    cases hnew
  have hnone : ∀ x, x ∈ AddressMap.empty.targets → False := fun x hx => by cases hx
  refine ⟨fun _ hx => hx, fun x hx => ?_, fun x m hx hm e he => ?_, fun x m hx hm e he => ?_,
    fun x m y n hx hy hm hn => ?_, fun x m y n hx hy hm hn heq => ?_, fun x m hx hm => ?_⟩
  · rcases (hA x).1 hx with rfl | hx
    · exact ⟨l, Function.update_self ..⟩
    · obtain ⟨m, hm⟩ := h.there x hx
      exact ⟨m, (hput x m hx hm).2⟩
  · rcases hget x m hx hm with ⟨rfl, rfl⟩ | ⟨-, hxA, hxL⟩
    · rw [hsucc] at he
      cases he
    · obtain ⟨hy, n, hn, hkey⟩ := h.successors x m hxA hxL e he
      exact ⟨(hput _ n hy hn).1, n, (hput _ n hy hn).2, hkey⟩
  · rcases hget x m hx hm with ⟨rfl, rfl⟩ | ⟨-, hxA, hxL⟩
    · rw [hpred] at he
      cases he
    · obtain ⟨hy, n, hn, hkey⟩ := h.predecessors x m hxA hxL e he
      exact ⟨(hput _ n hy hn).1, n, (hput _ n hy hn).2, hkey⟩
  · rcases hget x m hx hm with ⟨rfl, rfl⟩ | ⟨-, hxA, hxL⟩
    · -- a new segment is linked with none
      rcases hget y n hy hn with ⟨rfl, rfl⟩ | ⟨-, hyA, hyL⟩
      · rw [hsucc, hpred]
      · refine ⟨fun hmem => (hnone _ (hsucc ▸ hmem)).elim, fun hmem => ?_⟩
        obtain ⟨k, hk⟩ := AddressMap.mem_targets.1 hmem
        exact absurd (h.predecessors y n hyA hyL _ hk).1 hp
    · rcases hget y n hy hn with ⟨rfl, rfl⟩ | ⟨-, hyA, hyL⟩
      · refine ⟨fun hmem => ?_, fun hmem => (hnone _ (hpred ▸ hmem)).elim⟩
        obtain ⟨k, hk⟩ := AddressMap.mem_targets.1 hmem
        exact absurd (h.successors x m hxA hxL _ hk).1 hp
      · exact h.back x m y n hxA hyA hxL hyL
  · rcases hget x m hx hm with ⟨rfl, rfl⟩ | ⟨-, hxA, hxL⟩
    · rcases hget y n hy hn with ⟨rfl, -⟩ | ⟨-, hyA, hyL⟩
      · rfl
      · exact absurd heq.symm (hother y n hyA hyL)
    · rcases hget y n hy hn with ⟨rfl, rfl⟩ | ⟨-, hyA, hyL⟩
      · exact absurd heq (hother x m hxA hxL)
      · exact h.distinct x m y n hxA hyA hxL hyL heq
  · rcases hget x m hx hm with ⟨rfl, rfl⟩ | ⟨-, hxA, hxL⟩
    · exact hfind
    · rw [hkeep _ (hother x m hxA hxL)]
      exact h.found x m hxA hxL

end Graph

end X64Emulator
