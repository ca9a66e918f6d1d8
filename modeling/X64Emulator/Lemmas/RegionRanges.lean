import X64Emulator.Lemmas.RegionNotices

/-!
# What a callback knows of the executable ranges

A callback that keeps the executable ranges gains a range or loses one with each call it hears. What the calls of an address space
tell it fits what it knows: a range it gains shares no address with another, and a range it loses is one that it has.
-/

namespace X64Emulator

namespace Notification

/-- The range that becomes executable. -/
def gained : Notification → Option (Nat × Nat)
  | .onRegionCreation base length prot => if prot.exec then some (base, base + length) else none
  | .onRegionProtectionChange base length protBefore protAfter =>
    if protBefore.exec = false ∧ protAfter.exec = true then some (base, base + length) else none
  | .onRegionDestruction _ _ _ => none

/-- The range that is not executable any more. -/
def lost : Notification → Option (Nat × Nat)
  | .onRegionCreation _ _ _ => none
  | .onRegionProtectionChange base length protBefore protAfter =>
    if protBefore.exec = true ∧ protAfter.exec = false then some (base, base + length) else none
  | .onRegionDestruction base length prot => if prot.exec then some (base, base + length) else none

/-- The ranges a callback knows of once it was called. -/
def record (n : Notification) (known : Nat × Nat → Prop) (range : Nat × Nat) : Prop :=
  (known range ∧ n.lost ≠ some range) ∨ n.gained = some range

/-- Two ranges that share no address. -/
def Separate (range other : Nat × Nat) : Prop := range.2 ≤ other.1 ∨ other.2 ≤ range.1

/-- A range that is gained is new, and one that is lost was there. -/
structure Fits (known : Nat × Nat → Prop) (n : Notification) : Prop where
  gained : ∀ range, n.gained = some range → range.1 < range.2 ∧ range.2 < 2 ^ 64 ∧ ∀ other, known other → Separate range other
  lost : ∀ range, n.lost = some range → known range

/-- The calls fit what is known, one after the other, and lead to what is known after them. -/
def Follows (known : Nat × Nat → Prop) : List Notification → (Nat × Nat → Prop) → Prop
  | [], known' => known' = known
  | n :: log, known' => n.Fits known ∧ Follows (n.record known) log known'

theorem Follows.append {known known' known'' : Nat × Nat → Prop} {log log' : List Notification} (h : Follows known log known')
    (h' : Follows known' log' known'') : Follows known (log ++ log') known'' := by
  induction log generalizing known with
  | nil =>
    obtain rfl : known' = known := h
    exact h'
  | cons n log ih => exact ⟨h.1, ih h.2⟩

/-- A call that tells nothing of executable ranges. -/
theorem record_silent {known : Nat × Nat → Prop} {n : Notification} (hg : n.gained = none) (hl : n.lost = none) :
    n.record known = known := by
  funext range
  simp [record, hg, hl]

end Notification

namespace AddressSpace

open MmuRegion Notification

/-- The ranges of the executable regions. -/
def executableRanges (s : AddressSpace) (range : Nat × Nat) : Prop :=
  ∃ r ∈ s.regions, r.prot.exec = true ∧ (r.base, r.top) = range

/-- Between two states the callbacks heard what became of the executable ranges. -/
def Reports (s s' : AddressSpace) : Prop :=
  ∃ log, s'.notifications = s.notifications ++ log ∧ Follows s.executableRanges log s'.executableRanges

theorem Reports.refl (s : AddressSpace) : s.Reports s := ⟨[], by simp, rfl⟩

variable {s s' : AddressSpace}

theorem Reports.trans {s'' : AddressSpace} (h : s.Reports s') (h' : s'.Reports s'') : s.Reports s'' := by
  obtain ⟨log, hlog, hfollows⟩ := h
  obtain ⟨log', hlog', hfollows'⟩ := h'
  exact ⟨log ++ log', by rw [hlog', hlog, List.append_assoc], hfollows.append hfollows'⟩

theorem reports_of_places (hr : s'.regions.map place = s.regions.map place)
    (hn : s'.notifications = s.notifications) : s.Reports s' := by
  refine ⟨[], by rw [hn, List.append_nil], ?_⟩
  have hranges : ∀ t : AddressSpace, t.executableRanges =
      fun range => ∃ v ∈ t.regions.map place, v.2.2.exec = true ∧ (v.1, v.1 + v.2.1) = range := by
    intro t
    funext range
    simp only [List.mem_map, exists_exists_and_eq_and]
    rfl
  show s'.executableRanges = s.executableRanges
  rw [hranges, hranges, hr]

/-- Different regions have different ranges. -/
theorem Wf.eq_of_range (h : s.Wf) {r q : MmuRegion} (hr : r ∈ s.regions) (hq : q ∈ s.regions)
    (heq : (r.base, r.top) = (q.base, q.top)) : r = q := by
  have hlt := (h.sound r hr).lt
  have hbase := (Prod.mk.inj heq).1
  have htop := (Prod.mk.inj heq).2
  exact h.eq_of_shared (a := r.base) hr hq (by omega) (by omega)

theorem Wf.executableRanges_iff (h : s.Wf) {r : MmuRegion} (hr : r ∈ s.regions) :
    s.executableRanges (r.base, r.top) ↔ r.prot.exec = true := by
  constructor
  · rintro ⟨q, hq, he, heq⟩
    exact h.eq_of_range hq hr heq ▸ he
  · exact fun he => ⟨r, hr, he, rfl⟩

theorem Added.reports {r : MmuRegion} (h : s.Added r s') : s.Reports s' := by
  refine ⟨_, h.notifications, ⟨fun range hgained => ?_, fun range hlost => by simp [lost] at hlost⟩, ?_⟩
  · simp only [gained, Option.ite_none_right_eq_some, Option.some.injEq] at hgained
    obtain ⟨-, rfl⟩ := hgained
    refine ⟨h.sound.lt, Nat.lt_of_le_of_lt h.sound.top_le s.memorySize_lt, ?_⟩
    rintro other ⟨q, hq, -, rfl⟩
    exact (h.apart q hq).symm
  · show s'.executableRanges = record _ _
    funext range
    simp only [record, lost, gained, ne_eq, reduceCtorEq, not_false_eq_true, and_true, Option.ite_none_right_eq_some,
      Option.some.injEq, eq_iff_iff]
    constructor
    · rintro ⟨q, hq, he, heq⟩
      rcases (h.mem_regions q).1 hq with rfl | hq
      · exact Or.inr ⟨he, heq⟩
      · exact Or.inl ⟨q, hq, he, heq⟩
    · rintro (⟨q, hq, he, heq⟩ | ⟨he, heq⟩)
      · exact ⟨q, (h.mem_regions q).2 (Or.inr hq), he, heq⟩
      · exact ⟨r.settled, (h.mem_regions _).2 (Or.inl rfl), he, heq⟩

theorem Taken.reports (hw : s.Wf) {r : MmuRegion} (hr : r ∈ s.regions) (h : s.Taken r s') : s.Reports s' := by
  refine ⟨_, h.notifications, ⟨fun range hgained => by simp [gained] at hgained, fun range hlost => ?_⟩, ?_⟩
  · simp only [lost, Option.ite_none_right_eq_some, Option.some.injEq] at hlost
    obtain ⟨he, rfl⟩ := hlost
    exact ⟨r, hr, he, rfl⟩
  · show s'.executableRanges = record _ _
    funext range
    simp only [record, lost, gained, reduceCtorEq, or_false, ne_eq, Option.ite_none_right_eq_some, Option.some.injEq, not_and,
      eq_iff_iff]
    constructor
    · rintro ⟨q, hq, he, rfl⟩
      obtain ⟨hq, hne⟩ := (h.mem_regions q).1 hq
      exact ⟨⟨q, hq, he, rfl⟩, fun _ heq => hne (hw.eq_of_range hq hr heq.symm)⟩
    · rintro ⟨⟨q, hq, he, rfl⟩, hout⟩
      refine ⟨q, (h.mem_regions q).2 ⟨hq, ?_⟩, he, rfl⟩
      rintro rfl
      exact hout he rfl

/-- A region leaves the table and its parts join it. -/
theorem SplitAt.reports (hw : s.Wf) {address : Nat} (h : s.SplitAt address s') : s.Reports s' := by
  rcases h.regions with ⟨rfl, -⟩ | ⟨r, hr, hlow, hhigh, hmem, -, hlog⟩
  · exact Reports.refl s'
  · have hlimit := Nat.lt_of_le_of_lt (hw.sound r hr).top_le s.memorySize_lt
    have hbelow : r.base + (address - r.base) = address := by omega
    have habove : address + (r.top - address) = r.top := by omega
    have hother : ∀ q ∈ s.regions, q ≠ r → q.top ≤ r.base ∨ r.top ≤ q.base := by
      intro q hq hne
      by_contra hshared
      have h1 := (hw.sound q hq).lt
      have h2 := (hw.sound r hr).lt
      exact hne (hw.eq_of_shared (a := max q.base r.base) hq hr (by omega) (by omega))
    -- what is known after the region left, and after its first part joined
    have hleft : ∀ range, (Notification.onRegionDestruction r.base r.size r.prot).record s.executableRanges range →
        ∃ q ∈ s.regions, q ≠ r ∧ q.prot.exec = true ∧ (q.base, q.top) = range := by
      rintro _ (⟨⟨q, hq, he, rfl⟩, hout⟩ | hgained)
      · refine ⟨q, hq, ?_, he, rfl⟩
        rintro rfl
        exact hout (by simp [lost, he, top])
      · simp [gained] at hgained
    refine ⟨_, hlog, ⟨fun range hgained => by simp [gained] at hgained, fun range hlost => ?_⟩,
      ⟨fun range hgained => ?_, fun range hlost => by simp [lost] at hlost⟩,
      ⟨fun range hgained => ?_, fun range hlost => by simp [lost] at hlost⟩, ?_⟩
    · simp only [lost, Option.ite_none_right_eq_some, Option.some.injEq] at hlost
      obtain ⟨he, rfl⟩ := hlost
      exact ⟨r, hr, he, rfl⟩
    · simp only [gained, Option.ite_none_right_eq_some, Option.some.injEq, hbelow] at hgained
      obtain ⟨-, rfl⟩ := hgained
      refine ⟨hlow, by omega, fun other hknown => ?_⟩
      obtain ⟨q, hq, hne, -, rfl⟩ := hleft other hknown
      have := hother q hq hne
      show address ≤ q.base ∨ q.top ≤ r.base
      omega
    · simp only [gained, Option.ite_none_right_eq_some, Option.some.injEq, habove] at hgained
      obtain ⟨-, rfl⟩ := hgained
      refine ⟨hhigh, hlimit, fun other hknown => ?_⟩
      rcases hknown with ⟨hknown, -⟩ | hbelowRange
      · obtain ⟨q, hq, hne, -, rfl⟩ := hleft other hknown
        have := hother q hq hne
        show r.top ≤ q.base ∨ q.top ≤ address
        omega
      · simp only [gained, Option.ite_none_right_eq_some, Option.some.injEq, hbelow] at hbelowRange
        obtain ⟨-, rfl⟩ := hbelowRange
        exact Or.inr (Nat.le_refl _)
    · show s'.executableRanges = record _ (record _ (record _ _))
      funext range
      simp only [record, lost, gained, reduceCtorEq, or_false, ne_eq, not_false_eq_true, and_true, Option.ite_none_right_eq_some,
        Option.some.injEq, not_and, hbelow, habove, eq_iff_iff]
      constructor
      · rintro ⟨q, hq, he, rfl⟩
        rcases (hmem q).1 hq with rfl | rfl | ⟨hq, hne⟩
        · exact Or.inr ⟨he, by rw [top_above (Nat.le_of_lt hhigh)]; rfl⟩
        · exact Or.inl (Or.inr ⟨he, by rw [top_below (Nat.le_of_lt hlow)]; rfl⟩)
        · exact Or.inl (Or.inl ⟨⟨q, hq, he, rfl⟩, fun _ heq => hne (hw.eq_of_range hq hr heq.symm)⟩)
      · rintro ((⟨⟨q, hq, he, rfl⟩, hout⟩ | ⟨he, rfl⟩) | ⟨he, rfl⟩)
        · refine ⟨q, (hmem q).2 (Or.inr (Or.inr ⟨hq, ?_⟩)), he, rfl⟩
          rintro rfl
          exact hout he rfl
        · exact ⟨r.below address, (hmem _).2 (Or.inr (Or.inl rfl)), he, by rw [top_below (Nat.le_of_lt hlow)]; rfl⟩
        · exact ⟨r.above address s.nextRegion, (hmem _).2 (Or.inl rfl), he, by rw [top_above (Nat.le_of_lt hhigh)]; rfl⟩

/-- Regions in order that change their protection one after the other: each of them takes its own range with it. -/
theorem follows_protectionChange {known : Nat × Nat → Prop} (prot : Prot) {limit : Nat} {l : List MmuRegion} (hlimit : limit < 2 ^ 64)
    (ho : Ranges.Ordered MmuRegion.base top l) (hs : ∀ r ∈ l, r.Sound limit)
    (hk : ∀ r ∈ l, known (r.base, r.top) ↔ r.prot.exec = true)
    (ha : ∀ r ∈ l, ∀ other, known other → other ≠ (r.base, r.top) → Separate (r.base, r.top) other) :
    Follows known (l.map (protectionChange prot))
      fun range => if ∃ r ∈ l, (r.base, r.top) = range then prot.exec = true else known range := by
  induction l generalizing known with
  | nil => simp [Follows]
  | cons r l ih =>
    obtain ⟨hr, hl⟩ := List.pairwise_cons.1 ho
    have hne : ∀ q ∈ l, (q.base, q.top) ≠ (r.base, r.top) := by
      intro q hq heq
      have h1 := hr q hq
      have h2 := (hs r List.mem_cons_self).lt
      have h3 := (Prod.mk.inj heq).1
      omega
    -- what is known of a range once the region has the protection
    have hrecord : ∀ range, (protectionChange prot r).record known range ↔
        if (r.base, r.top) = range then prot.exec = true else known range := by
      intro range
      have hrange := hk r List.mem_cons_self
      simp only [record, lost, gained, protectionChange, ne_eq, Option.ite_none_right_eq_some, Option.some.injEq]
      show (known range ∧ ¬ ((r.prot.exec = true ∧ prot.exec = false) ∧ (r.base, r.top) = range)) ∨
        ((r.prot.exec = false ∧ prot.exec = true) ∧ (r.base, r.top) = range) ↔ _
      by_cases heq : (r.base, r.top) = range
      · subst heq
        rw [hrange]
        cases r.prot.exec <;> cases prot.exec <;> simp
      · simp [heq]
    have hfits : (protectionChange prot r).Fits known := by
      refine ⟨fun range hgained => ?_, fun range hlost => ?_⟩
      · simp only [protectionChange, gained, Option.ite_none_right_eq_some, Option.some.injEq] at hgained
        obtain ⟨⟨hbefore, -⟩, rfl⟩ := hgained
        have hsound := hs r List.mem_cons_self
        refine ⟨hsound.lt, Nat.lt_of_le_of_lt hsound.top_le hlimit, fun other hother => ha r List.mem_cons_self other hother ?_⟩
        rintro rfl
        rw [(hk r List.mem_cons_self).1 hother] at hbefore
        cases hbefore
      · simp only [protectionChange, lost, Option.ite_none_right_eq_some, Option.some.injEq] at hlost
        obtain ⟨⟨hbefore, -⟩, rfl⟩ := hlost
        exact (hk r List.mem_cons_self).2 hbefore
    refine ⟨hfits, ?_⟩
    have hknown : ∀ q ∈ l, (protectionChange prot r).record known (q.base, q.top) ↔ q.prot.exec = true := by
      intro q hq
      rw [hrecord, if_neg (hne q hq).symm]
      exact hk q (List.mem_cons_of_mem _ hq)
    have hrest := ih hl (fun q hq => hs q (List.mem_cons_of_mem _ hq)) hknown (fun q hq other hother hneq => ?_)
    · have hend : (fun range => if ∃ q ∈ l, (q.base, q.top) = range then prot.exec = true else
          (protectionChange prot r).record known range) =
          fun range => if ∃ q ∈ r :: l, (q.base, q.top) = range then prot.exec = true else known range := by
        funext range
        rw [hrecord]
        by_cases hmem : ∃ q ∈ l, (q.base, q.top) = range
        · rw [if_pos hmem, if_pos (hmem.imp fun q hq => ⟨List.mem_cons_of_mem _ hq.1, hq.2⟩)]
        · rw [if_neg hmem]
          refine if_congr ?_ rfl rfl
          simp only [List.mem_cons, exists_eq_or_imp, hmem, or_false]
      exact hend ▸ hrest
    · rw [hrecord] at hother
      by_cases heq : (r.base, r.top) = other
      · subst heq
        exact Or.inr (hr q hq)
      · rw [if_neg heq] at hother
        exact ha q (List.mem_cons_of_mem _ hq) other hother hneq

/-- The executable ranges once some of the regions have another protection. -/
theorem Wf.protect_ranges (h : s.Wf) (inside : MmuRegion → Bool) (prot : Prot) (range : Nat × Nat) :
    (∃ q ∈ s.regions.map (fun r => if inside r then { r with prot := prot } else r),
        q.prot.exec = true ∧ (q.base, q.top) = range) ↔
      if ∃ r ∈ s.regions.filter inside, (r.base, r.top) = range then prot.exec = true else s.executableRanges range := by
  split
  · next hin =>
    obtain ⟨r, hr, rfl⟩ := hin
    obtain ⟨hr, hin⟩ := List.mem_filter.1 hr
    refine ⟨?_, fun he => ⟨{ r with prot := prot }, List.mem_map.2 ⟨r, hr, by rw [if_pos hin]⟩, he, rfl⟩⟩
    rintro ⟨q, hq, he, heq⟩
    obtain ⟨r', hr', rfl⟩ := List.mem_map.1 hq
    have heq' : (r'.base, r'.top) = (r.base, r.top) := by
      rw [← heq]
      split <;> rfl
    obtain rfl := h.eq_of_range hr' hr heq'
    rw [if_pos hin] at he
    exact he
  · next hout =>
    have hkeep : ∀ r ∈ s.regions, (r.base, r.top) = range → inside r = false := by
      intro r hr heq
      by_contra hin
      exact hout ⟨r, List.mem_filter.2 ⟨hr, by simpa using hin⟩, heq⟩
    constructor
    · rintro ⟨q, hq, he, heq⟩
      obtain ⟨r, hr, rfl⟩ := List.mem_map.1 hq
      have heq' : (r.base, r.top) = range := by
        rw [← heq]
        split <;> rfl
      simp only [hkeep r hr heq', Bool.false_eq_true, if_false] at he
      exact ⟨r, hr, he, heq'⟩
    · rintro ⟨r, hr, he, heq⟩
      exact ⟨r, List.mem_map.2 ⟨r, hr, by simp [hkeep r hr heq]⟩, he, heq⟩

theorem Wf.protectRegions_reports {host : Host} (h : s.Wf) {address end_ : Nat} {prot : Prot}
    {l : List MmuRegion} {memory : Memory} {log : List Notification}
    (hp : AddressSpace.protectRegions host address end_ prot s.regions s.memory s.notifications = some (l, memory, log)) :
    s.Reports { s with regions := l, memory := memory, notifications := log } := by
  have hmem : ∀ r ∈ s.regions.filter (·.intersectsRange address end_), r ∈ s.regions := fun r hr => (List.mem_filter.1 hr).1
  have hfollows := follows_protectionChange prot s.memorySize_lt
    (h.ordered.filter (·.intersectsRange address end_)) (fun r hr => h.sound r (hmem r hr))
    (fun r hr => h.executableRanges_iff (hmem r hr)) (fun r hr other hother hne => ?_)
  · refine ⟨_, protectRegions_notifications hp, ?_⟩
    obtain ⟨rfl, -⟩ := protectRegions_eq_some h.settled hp
    have hend := funext fun range => propext (h.protect_ranges (·.intersectsRange address end_) prot range)
    exact Eq.subst (motive := Follows _ _) hend.symm hfollows
  · obtain ⟨q, hq, -, rfl⟩ := hother
    have hr' := hmem r hr
    have h1 := (h.sound q hq).lt
    have h2 := (h.sound r hr').lt
    by_contra hshared
    change ¬ (r.top ≤ q.base ∨ q.top ≤ r.base) at hshared
    have heq := h.eq_of_shared (a := max q.base r.base) hq hr' (by omega) (by omega)
    exact hne (heq ▸ rfl)

theorem Change.reports (h : s.Change s') (hw : s.Wf) : s.Reports s' := by
  cases h with
  | quiet _ hr hn _ => exact reports_of_places hr hn
  | added r h => exact h.reports
  | taken r hr h => exact h.reports hw hr
  | split address h => exact h.reports hw
  | protects host address end_ prot l memory log h => exact hw.protectRegions_reports h

/-- Every call tells the callbacks what becomes of the executable ranges. -/
theorem step_reports {host : Host} (call : MmuCall) (h : s.Wf) (hs : s.step host call = some s') :
    s.Reports s' :=
  ((step_changes call h hs).induct Reports.refl (fun _ _ _ => Reports.trans) (fun _ _ hw hc => hc.reports hw) h).2

end AddressSpace

end X64Emulator
