import X64Emulator.Lemmas.RegionChanges

/-!
# What a callback knows of the executable pages

A callback that keeps the set of executable pages adds the pages of an executable region that is created, follows a change of
the right to execute, and drops the pages of an executable region that goes. The set it keeps is the set of executable pages
of the regions, whatever calls the address space serves.
-/

namespace X64Emulator

/-- The pages from an address on. -/
def pagesOf (base length page : Nat) : Bool := decide (base ≤ page * PAGE_SIZE) && decide (page * PAGE_SIZE < base + length)

/-- The executable pages a callback knows of once it was called. -/
def Notification.hear (known : Nat → Bool) : Notification → Nat → Bool
  | .onRegionCreation base length prot => fun page => known page || (prot.exec && pagesOf base length page)
  | .onRegionProtectionChange base length protBefore protAfter => fun page =>
    if protBefore.exec = protAfter.exec then known page
    else if pagesOf base length page then protAfter.exec else known page
  | .onRegionDestruction base length prot => fun page => known page && !(prot.exec && pagesOf base length page)

/-- The executable pages a callback knows of after it heard a list of calls. -/
def heard (known : Nat → Bool) (log : List Notification) : Nat → Bool := log.foldl Notification.hear known

@[simp] theorem heard_nil (known : Nat → Bool) : heard known [] = known := rfl

@[simp] theorem heard_cons (known : Nat → Bool) (n : Notification) (log : List Notification) :
    heard known (n :: log) = heard (n.hear known) log := rfl

theorem heard_append (known : Nat → Bool) (log log' : List Notification) :
    heard known (log ++ log') = heard (heard known log) log' := List.foldl_append

namespace AddressSpace

open MmuRegion

/-- The pages of the executable regions. -/
def executablePages (s : AddressSpace) (page : Nat) : Bool := s.regions.any (fun r => r.prot.exec && decide (r.Covers page))

/-- Between two states the callbacks heard what became of the executable pages. -/
def Tells (s s' : AddressSpace) : Prop :=
  ∃ log, s'.notifications = s.notifications ++ log ∧ heard s.executablePages log = s'.executablePages

/-- What holds between the states before and after any call: the callbacks heard of it, and nothing more is reserved. -/
structure Evolves (s s' : AddressSpace) : Prop where
  told : s.Tells s'
  topOfReserved : s'.topOfReserved = s.topOfReserved

theorem Evolves.refl (s : AddressSpace) : s.Evolves s := ⟨⟨[], by simp, rfl⟩, rfl⟩

variable {s s' : AddressSpace}

theorem Evolves.trans {s'' : AddressSpace} (h : s.Evolves s') (h' : s'.Evolves s'') : s.Evolves s'' := by
  obtain ⟨log, h1, h2⟩ := h.told
  obtain ⟨log', h1', h2'⟩ := h'.told
  refine ⟨⟨log ++ log', ?_, ?_⟩, h'.topOfReserved.trans h.topOfReserved⟩
  · rw [h1', h1, List.append_assoc]
  · rw [heard_append, h2, h2']

theorem executablePages_eq_true {page : Nat} :
    s.executablePages page = true ↔ ∃ r ∈ s.regions, r.prot.exec = true ∧ r.Covers page := by
  simp only [executablePages, List.any_eq_true, Bool.and_eq_true, decide_eq_true_iff]

theorem pagesOf_eq_true {r : MmuRegion} {page : Nat} : pagesOf r.base r.size page = true ↔ r.Covers page := by
  simp only [pagesOf, Covers, top, Bool.and_eq_true, decide_eq_true_iff]

theorem Added.evolves {r : MmuRegion} (h : s.Added r s') : s.Evolves s' := by
  refine ⟨⟨_, h.notifications, ?_⟩, h.topOfReserved⟩
  funext page
  rw [heard_cons, heard_nil, Bool.eq_iff_iff, executablePages_eq_true]
  simp only [Notification.hear, Bool.or_eq_true, Bool.and_eq_true, executablePages_eq_true, pagesOf_eq_true]
  constructor
  · rintro (⟨q, hq, he, hc⟩ | ⟨he, hc⟩)
    · exact ⟨q, (h.mem_regions q).2 (Or.inr hq), he, hc⟩
    · exact ⟨r.settled, (h.mem_regions _).2 (Or.inl rfl), he, hc⟩
  · rintro ⟨q, hq, he, hc⟩
    rcases (h.mem_regions q).1 hq with rfl | hq
    · exact Or.inr ⟨he, hc⟩
    · exact Or.inl ⟨q, hq, he, hc⟩

theorem Taken.evolves (hw : s.Wf) {r : MmuRegion} (hr : r ∈ s.regions) (h : s.Taken r s') : s.Evolves s' := by
  refine ⟨⟨_, h.notifications, ?_⟩, h.topOfReserved⟩
  funext page
  rw [heard_cons, heard_nil, Bool.eq_iff_iff, executablePages_eq_true]
  simp only [Notification.hear, Bool.and_eq_true, executablePages_eq_true, Bool.not_eq_true', Bool.and_eq_false_iff]
  constructor
  · rintro ⟨⟨q, hq, he, hc⟩, hout⟩
    refine ⟨q, (h.mem_regions q).2 ⟨hq, ?_⟩, he, hc⟩
    rintro rfl
    rcases hout with hout | hout
    · rw [he] at hout
      cases hout
    · rw [pagesOf_eq_true.2 hc] at hout
      cases hout
  · rintro ⟨q, hq, he, hc⟩
    obtain ⟨hq, hne⟩ := (h.mem_regions q).1 hq
    refine ⟨⟨q, hq, he, hc⟩, Or.inr ?_⟩
    -- a page of another region is none of the region that went
    rw [Bool.eq_false_iff, Ne, pagesOf_eq_true]
    intro hrc
    exact hne (hw.eq_of_shared hq hr hc hrc)

/-- The parts of a region hold the pages of the region. -/
theorem SplitAt.evolves (hw : s.Wf) {address : Nat} (h : s.SplitAt address s') : s.Evolves s' := by
  rcases h.regions with ⟨rfl, -⟩ | ⟨r, hr, h1, h2, hmem, -, hlog⟩
  · exact Evolves.refl s'
  · refine ⟨⟨_, hlog, ?_⟩, h.topOfReserved⟩
    funext page
    simp only [heard_cons, heard_nil]
    rw [Bool.eq_iff_iff, executablePages_eq_true]
    simp only [Notification.hear, Bool.or_eq_true, Bool.and_eq_true, executablePages_eq_true, Bool.not_eq_true',
      Bool.and_eq_false_iff, pagesOf, decide_eq_true_iff, decide_eq_false_iff_not]
    constructor
    · rintro ((⟨⟨q, hq, he, hc⟩, hout⟩ | ⟨he, hlow⟩) | ⟨he, hhigh⟩)
      · refine ⟨q, (hmem q).2 (Or.inr (Or.inr ⟨hq, ?_⟩)), he, hc⟩
        rintro rfl
        simp only [he, Bool.true_eq_false, false_or] at hout
        simp only [Covers, top] at hc
        omega
      · refine ⟨r.below address, (hmem _).2 (Or.inr (Or.inl rfl)), he, hlow.1, ?_⟩
        exact hlow.2
      · refine ⟨r.above address s.nextRegion, (hmem _).2 (Or.inl rfl), he, hhigh.1, ?_⟩
        exact hhigh.2
    · rintro ⟨q, hq, he, hc⟩
      rcases (hmem q).1 hq with rfl | rfl | ⟨hq, hne⟩
      · exact Or.inr ⟨he, hc⟩
      · exact Or.inl (Or.inr ⟨he, hc⟩)
      · refine Or.inl (Or.inl ⟨⟨q, hq, he, hc⟩, Or.inr ?_⟩)
        by_contra hin
        refine hne (hw.eq_of_shared hq hr hc ?_)
        simp only [top]
        omega

/-! ## The loop of `mprotect` -/

/-- What the callbacks hear of a region whose protection changes. -/
def protectionChange (prot : Prot) (r : MmuRegion) : Notification := .onRegionProtectionChange r.base r.size r.prot prot

theorem protectRegions_notifications {host : Host} {address end_ : Nat} {prot : Prot} {l l' : List MmuRegion}
    {memory memory' : Memory} {log log' : List Notification}
    (h : protectRegions host address end_ prot l memory log = some (l', memory', log')) :
    log' = log ++ (l.filter (·.intersectsRange address end_)).map (protectionChange prot) := by
  induction l generalizing memory memory' log l' with
  | nil =>
    simp only [protectRegions, Option.some.injEq, Prod.mk.injEq] at h
    obtain ⟨-, -, rfl⟩ := h
    simp
  | cons r l ih =>
    rw [protectRegions] at h
    split at h
    · next hout =>
      simp only [Option.bind_eq_bind, Option.bind_eq_some_iff, Prod.exists, Option.some.injEq, Prod.mk.injEq] at h
      obtain ⟨l1, m1, log1, hrest, -, -, rfl⟩ := h
      rw [Bool.not_eq_true'] at hout
      rw [ih hrest, List.filter_cons_of_neg (by simp [hout])]
    · next hin =>
      simp only [Option.bind_eq_bind, Option.bind_eq_some_iff, Prod.exists, Option.some.injEq, Prod.mk.injEq] at h
      obtain ⟨r1, m0, -, l1, m1, log1, hrest, -, -, rfl⟩ := h
      simp only [Bool.not_eq_true', Bool.not_eq_false] at hin
      rw [ih hrest, List.filter_cons_of_pos (by exact hin), List.map_cons, List.append_assoc]
      rfl

/-- Regions in order that change their protection one after the other: each page hears of its own region only. -/
theorem heard_protectionChange {known : Nat → Bool} {prot : Prot} {l : List MmuRegion}
    (ho : Ranges.Ordered MmuRegion.base top l) (hk : ∀ r ∈ l, ∀ page, r.Covers page → known page = r.prot.exec)
    (page : Nat) : heard known (l.map (protectionChange prot)) page =
      if ∃ r ∈ l, r.Covers page then prot.exec else known page := by
  induction l generalizing known with
  | nil => simp
  | cons r l ih =>
    obtain ⟨hr, hl⟩ := List.pairwise_cons.1 ho
    have hapart : ∀ q ∈ l, ∀ page, q.Covers page → ¬ r.Covers page := by
      intro q hq page hc hrc
      have := hr q hq
      simp only [Covers] at hc hrc
      omega
    have hother : ∀ page, ¬ r.Covers page → (protectionChange prot r).hear known page = known page := by
      intro page hc
      rw [← pagesOf_eq_true, Bool.not_eq_true] at hc
      simp [protectionChange, Notification.hear, hc]
    rw [List.map_cons, heard_cons, ih hl]
    · by_cases hc : r.Covers page
      · have hno : ¬ ∃ q ∈ l, q.Covers page := by
          rintro ⟨q, hq, hqc⟩
          exact hapart q hq page hqc hc
        have hyes : ∃ q ∈ r :: l, q.Covers page := ⟨r, List.mem_cons_self, hc⟩
        have hsame := hk r List.mem_cons_self page hc
        rw [if_neg hno, if_pos hyes]
        simp only [protectionChange, Notification.hear, pagesOf_eq_true.2 hc, hsame, if_true]
        split
        · next heq => exact heq
        · rfl
      · have hiff : (∃ q ∈ r :: l, q.Covers page) ↔ ∃ q ∈ l, q.Covers page := by
          simp only [List.mem_cons, or_and_right, exists_or, exists_eq_left, hc, false_or]
        simp only [hiff, hother page hc]
    · intro q hq page hc
      rw [hother page (hapart q hq page hc)]
      exact hk q (List.mem_cons_of_mem _ hq) page hc

theorem Wf.protectRegions_evolves {host : Host} (h : s.Wf) {address end_ : Nat} {prot : Prot}
    {l : List MmuRegion} {memory : Memory} {log : List Notification}
    (hp : AddressSpace.protectRegions host address end_ prot s.regions s.memory s.notifications = some (l, memory, log)) :
    s.Evolves { s with regions := l, memory := memory, notifications := log } := by
  refine ⟨⟨_, protectRegions_notifications hp, ?_⟩, rfl⟩
  obtain ⟨rfl, -⟩ := protectRegions_eq_some h.settled hp
  funext page
  rw [heard_protectionChange (h.ordered.filter _), Bool.eq_iff_iff, executablePages_eq_true]
  · split
    · next hmeet =>
      obtain ⟨r, hmem, hc⟩ := hmeet
      obtain ⟨hr, hin⟩ := List.mem_filter.1 hmem
      constructor
      · intro he
        exact ⟨{ r with prot := prot }, List.mem_map.2 ⟨r, hr, by rw [if_pos hin]⟩, he, hc⟩
      · rintro ⟨q, hq, he, hqc⟩
        obtain ⟨r', hr', rfl⟩ := List.mem_map.1 hq
        have hr'c : r'.Covers page := by
          split at hqc <;> exact hqc
        have heq := h.eq_of_shared hr' hr hr'c hc
        subst heq
        rw [if_pos hin] at he
        exact he
    · next hmiss =>
      have hkeep : ∀ r ∈ s.regions, r.Covers page → r.intersectsRange address end_ = false := by
        intro r hr hc
        by_contra hin
        exact hmiss ⟨r, List.mem_filter.2 ⟨hr, by simpa using hin⟩, hc⟩
      rw [executablePages_eq_true]
      constructor
      · rintro ⟨r, hr, he, hc⟩
        exact ⟨r, List.mem_map.2 ⟨r, hr, by simp [hkeep r hr hc]⟩, he, hc⟩
      · rintro ⟨q, hq, he, hqc⟩
        obtain ⟨r, hr, rfl⟩ := List.mem_map.1 hq
        have hrc : r.Covers page := by
          split at hqc <;> exact hqc
        simp only [hkeep r hr hrc, Bool.false_eq_true, if_false] at he
        exact ⟨r, hr, he, hrc⟩
  · intro r hr page hc
    have hr := (List.mem_filter.1 hr).1
    rw [Bool.eq_iff_iff, executablePages_eq_true]
    constructor
    · rintro ⟨q, hq, he, hqc⟩
      rw [← h.eq_of_shared hq hr hqc hc]
      exact he
    · intro he
      exact ⟨r, hr, he, hc⟩

/-- A quiet change leaves the executable pages as they are. -/
theorem evolves_of_places (hr : s'.regions.map place = s.regions.map place)
    (hn : s'.notifications = s.notifications) (ht : s'.topOfReserved = s.topOfReserved) : s.Evolves s' := by
  refine ⟨⟨[], by rw [hn, List.append_nil], ?_⟩, ht⟩
  funext page
  have hpages : ∀ t : AddressSpace, t.executablePages page =
      (t.regions.map place).any fun v => v.2.2.exec && decide (v.1 ≤ page * PAGE_SIZE ∧ page * PAGE_SIZE < v.1 + v.2.1) :=
    fun t => by rw [List.any_map]; rfl
  rw [heard_nil, hpages, hpages, hr]

theorem Change.evolves (h : s.Change s') (hw : s.Wf) : s.Evolves s' := by
  cases h with
  | quiet _ hr hn ht => exact evolves_of_places hr hn ht
  | added r h => exact h.evolves
  | taken r hr h => exact h.evolves hw hr
  | split address h => exact h.evolves hw
  | protects host address end_ prot l memory log h => exact hw.protectRegions_evolves h

theorem Changes.evolves (h : s.Changes s') (hw : s.Wf) : s.Evolves s' :=
  (h.induct Evolves.refl (fun _ _ _ => Evolves.trans) (fun _ _ hw h => h.evolves hw) hw).2

/-- Every call tells the callbacks what becomes of the executable pages, and reserves nothing. -/
theorem step_evolves {host : Host} (call : MmuCall) (h : s.Wf) (hs : s.step host call = some s') :
    s.Evolves s' := (step_changes call h hs).evolves h

/-- Nothing is ever reserved. -/
theorem reachable_topOfReserved {host : Host} (h : (machine host).Reachable s) : s.topOfReserved = 0 := by
  have hboth : s.Wf ∧ s.topOfReserved = 0 := by
    refine h.invariant (fun s => s.Wf ∧ s.topOfReserved = 0) ?_ ?_
    · rintro s ⟨mb, memory, rfl⟩
      exact ⟨empty_wf mb memory, rfl⟩
    · rintro s call s' ⟨hw, hzero⟩ hs
      exact ⟨step_wf call hw hs, (step_evolves call hw hs).topOfReserved.trans hzero⟩
  exact hboth.2

/-- Over a whole run a callback that heard everything knows the executable pages. -/
theorem reachable_heard {host : Host} (h : (machine host).Reachable s) :
    heard (fun _ => false) s.notifications = s.executablePages := by
  have hboth : s.Wf ∧ heard (fun _ => false) s.notifications = s.executablePages := by
    refine h.invariant (fun s => s.Wf ∧ heard (fun _ => false) s.notifications = s.executablePages) ?_ ?_
    · rintro s ⟨mb, memory, rfl⟩
      exact ⟨empty_wf mb memory, rfl⟩
    · rintro s call s' ⟨hw, hheard⟩ hs
      obtain ⟨log, hlog, htold⟩ := (step_evolves call hw hs).told
      exact ⟨step_wf call hw hs, by rw [hlog, heard_append, hheard, htold]⟩
  exact hboth.2

end AddressSpace

end X64Emulator
