import X64Emulator.Lemmas.RegionCalls

/-!
# What the calls do to the pages

The user of an address space sees its pages: the name and the protection of the region that holds each of them. A split is not
seen by pages, and once a range is split at both ends its regions are inside it or outside it.
-/

namespace X64Emulator

namespace AddressSpace

open MmuRegion

/-- The length of a mapping in whole pages, as a number that does not wrap. -/
def roundedLength (length : Nat) : Nat := (length + PAGE_SIZE - 1) / PAGE_SIZE * PAGE_SIZE

/-- What an address space says of a page: the name and the protection of its region. -/
def pageInfo (s : AddressSpace) (page : Nat) : Option (String × Prot) :=
  (s.findAddress (page * PAGE_SIZE)).map (fun r => (r.name, r.prot))

variable {s : AddressSpace} {address end_ : Nat} {r : MmuRegion} {l : List MmuRegion}

theorem Wf.pageInfo_eq_some (h : s.Wf) {page : Nat} {info : String × Prot} :
    s.pageInfo page = some info ↔ ∃ r ∈ s.regions, r.Covers page ∧ (r.name, r.prot) = info := by
  simp only [pageInfo, Option.map_eq_some_iff, h.findAddress_eq_some, and_assoc, Covers]

/-- A split is not seen by pages. -/
theorem SplitAt.pageInfo_eq {s' : AddressSpace} (hw : s.Wf) (h : s.SplitAt address s') (page : Nat) :
    s'.pageInfo page = s.pageInfo page := by
  apply Option.ext
  intro info
  rw [h.wf.pageInfo_eq_some, hw.pageInfo_eq_some]
  constructor
  · rintro ⟨q, hq, hc, rfl⟩
    rcases h.regions with ⟨rfl, -⟩ | ⟨r, hr, h1, h2, hmem, -⟩
    · exact ⟨q, hq, hc, rfl⟩
    · simp only [Covers] at hc
      rcases (hmem q).1 hq with rfl | rfl | ⟨hq, -⟩
      · rw [top_above (Nat.le_of_lt h2)] at hc
        exact ⟨r, hr, ⟨Nat.le_trans (Nat.le_of_lt h1) hc.1, hc.2⟩, rfl⟩
      · rw [top_below (Nat.le_of_lt h1)] at hc
        exact ⟨r, hr, ⟨hc.1, Nat.lt_trans hc.2 h2⟩, rfl⟩
      · exact ⟨q, hq, hc, rfl⟩
  · rintro ⟨r, hr, hc, rfl⟩
    rcases h.mem_or_parts hr with hr | ⟨h1, h2, hb, ha⟩
    · exact ⟨r, hr, hc, rfl⟩
    · by_cases hlt : page * PAGE_SIZE < address
      · exact ⟨_, hb, ⟨hc.1, by rw [top_below (Nat.le_of_lt h1)]; exact hlt⟩, rfl⟩
      · exact ⟨_, ha, ⟨Nat.le_of_not_lt hlt, by rw [top_above (Nat.le_of_lt h2)]; exact hc.2⟩, rfl⟩

theorem pageRoundUp_eq {length : Nat} (h : roundedLength length < 2 ^ 64) :
    pageRoundUp length = roundedLength length := by
  simp only [roundedLength, pageRoundUp, u64, PAGE_SIZE_eq] at *
  omega

/-- The space after a range was mapped afresh: one new region is all there is of the range, and the rest is as it was. -/
structure Mapped (s : AddressSpace) (address length : Nat) (prot : Prot) (s' : AddressSpace) : Prop where
  region : ∃ r ∈ s'.regions, r.base = address ∧ r.size = length ∧ r.prot = prot ∧ (∀ q ∈ s.regions, q.ptr ≠ r.ptr) ∧
    ∀ q ∈ s'.regions, q.intersectsRange address (address + length) → q = r
  zero : ∀ a, address ≤ a → a < address + length → s'.memory a = 0
  page_outside : ∀ page, page * PAGE_SIZE < address ∨ address + length ≤ page * PAGE_SIZE → s'.pageInfo page = s.pageInfo page
  byte_outside : ∀ a, a < address ∨ address + length ≤ a → s'.memory a = s.memory a

/-- The page begins in a range. -/
def InRange (address length page : Nat) : Prop := address ≤ page * PAGE_SIZE ∧ page * PAGE_SIZE < address + length

instance (address length page : Nat) : Decidable (InRange address length page) := inferInstanceAs (Decidable (_ ∧ _))

/-- A region that no other region of the list straddles stays so when a region is split elsewhere. -/
theorem SplitAt.straddle_free {s' : AddressSpace} {at_ a : Nat} (h : s.SplitAt at_ s')
    (hno : ∀ q ∈ s.regions, q.top ≤ a ∨ a ≤ q.base) : ∀ q ∈ s'.regions, q.top ≤ a ∨ a ≤ q.base := by
  intro q hq
  rcases h.regions with ⟨rfl, -⟩ | ⟨r, hr, h1, h2, hmem, -⟩
  · exact hno q hq
  · have hrno := hno r hr
    rcases (hmem q).1 hq with rfl | rfl | ⟨hq, -⟩
    · rw [top_above (Nat.le_of_lt h2)]
      simp only [above]
      omega
    · rw [top_below (Nat.le_of_lt h1)]
      simp only [below]
      omega
    · exact hno q hq

/-- After the splits at both ends of a range, a region that meets the range is inside it. -/
structure Bounded (s : AddressSpace) (address end_ : Nat) (s' : AddressSpace) : Prop where
  wf : s'.Wf
  inside : ∀ q ∈ s'.regions, q.intersectsRange address end_ → address ≤ q.base ∧ q.top ≤ end_
  pageInfo : ∀ page, s'.pageInfo page = s.pageInfo page
  memory : s'.memory = s.memory
  virtualMemoryInMB : s'.virtualMemoryInMB = s.virtualMemoryInMB

theorem Wf.bounded {s1 s2 : AddressSpace} (hw : s.Wf) (h1 : s.SplitAt address s1)
    (h2 : s1.SplitAt end_ s2) : s.Bounded address end_ s2 := by
  have hlow := h2.straddle_free (h1.le_or_le hw)
  have hhigh := h2.le_or_le h1.wf
  refine ⟨h2.wf, ?_, ?_, ?_, ?_⟩
  · intro q hq hmeet
    have hend := h2.wf.end_eq hq
    have h3 := hlow q hq
    have h4 := hhigh q hq
    simp only [intersectsRange, hend, decide_eq_true_iff] at hmeet
    omega
  · intro page
    rw [h2.pageInfo_eq h1.wf, h1.pageInfo_eq hw]
  · rw [h2.memory, h1.memory]
  · rw [h2.virtualMemoryInMB, h1.virtualMemoryInMB]

theorem Bounded.memorySize {s' : AddressSpace} (h : s.Bounded address end_ s') :
    s'.memorySize = s.memorySize := by
  rw [AddressSpace.memorySize, AddressSpace.memorySize, h.virtualMemoryInMB]

/-- The splits at both ends of a range succeed. -/
theorem Wf.bounded_isSome {host : Host} (h : s.Wf)
    (ha : address % PAGE_SIZE = 0) (he : end_ % PAGE_SIZE = 0) (hg : host.Grants s.memorySize) :
    ∃ s1 s2, s.split host address = some s1 ∧ s1.split host end_ = some s2 ∧ s.SplitAt address s1 ∧
      s1.SplitAt end_ s2 ∧ s.Bounded address end_ s2 := by
  obtain ⟨s1, h1⟩ := h.split_isSome ha hg
  have hs1 := h.split h1
  obtain ⟨s2, h2⟩ := hs1.wf.split_isSome he (by rw [hs1.memorySize]; exact hg)
  have hs2 := hs1.wf.split h2
  exact ⟨s1, s2, h1, h2, hs1, hs2, h.bounded hs1 hs2⟩

/-- A region of a well-formed space that holds a page of a range meets the range, and the other way round. -/
theorem Wf.intersects_iff (h : s.Wf) (hr : r ∈ s.regions) :
    r.intersectsRange address end_ ↔ max r.base address < min r.top end_ := by
  rw [intersectsRange, h.end_eq hr, decide_eq_true_iff]

theorem Wf.pageInfo_eq_none (h : s.Wf) {page : Nat} :
    s.pageInfo page = none ↔ ∀ r ∈ s.regions, ¬ r.Covers page := by
  rw [pageInfo, Option.map_eq_none_iff, h.findAddress_eq_none]
  rfl

/-- A region of zeros that joins a space where its range is free maps the range. -/
theorem Added.mapped {s' : AddressSpace} (hw : s.Wf) (hf : s.Fresh r) (h : s.Added r s')
    (hz : r.requiresMemsetToZero = true) : s.Mapped r.base r.size r.prot s' := by
  have hmemory : s'.memory = memsetZero s.memory r.base r.size := by rw [h.memory, if_pos hz]
  refine ⟨⟨r.settled, (h.mem_regions _).2 (Or.inl rfl), rfl, rfl, rfl, hf.2, ?_⟩, ?_, ?_, ?_⟩
  · intro q hq hmeet
    rcases (h.mem_regions q).1 hq with rfl | hq
    · rfl
    · have hapart := h.apart q hq
      rw [hw.intersects_iff hq] at hmeet
      simp only [top] at hapart hmeet
      omega
  · intro a h1 h2
    rw [hmemory, memsetZero, if_pos ⟨h1, h2⟩]
  · intro page hpage
    apply Option.ext
    intro info
    rw [h.wf.pageInfo_eq_some, hw.pageInfo_eq_some]
    constructor
    · rintro ⟨q, hq, hc, rfl⟩
      rcases (h.mem_regions q).1 hq with rfl | hq
      · have hc : r.base ≤ page * PAGE_SIZE ∧ page * PAGE_SIZE < r.base + r.size := hc
        omega
      · exact ⟨q, hq, hc, rfl⟩
    · rintro ⟨q, hq, hc, rfl⟩
      exact ⟨q, (h.mem_regions q).2 (Or.inr hq), hc, rfl⟩
  · intro a ha
    rw [hmemory, memsetZero, if_neg (by omega)]

/-! ## The check of `mprotect` -/

/-- The regions of a list that meet a range. -/
def meeting (address end_ : Nat) (l : List MmuRegion) : List MmuRegion := l.filter (fun r => r.intersectsRange address end_)

theorem meeting_cons_pos
    (h : r.intersectsRange address end_ = true) : meeting address end_ (r :: l) = r :: meeting address end_ l :=
  List.filter_cons_of_pos h

theorem meeting_cons_neg
    (h : ¬ r.intersectsRange address end_ = true) : meeting address end_ (r :: l) = meeting address end_ l :=
  List.filter_cons_of_neg h

theorem Wf.mem_meeting (h : s.Wf) :
    r ∈ meeting address end_ s.regions ↔ r ∈ s.regions ∧ max r.base address < min r.top end_ := by
  rw [meeting, List.mem_filter]
  exact and_congr_right fun hr => h.intersects_iff hr

theorem contiguous_some_iff {last : Nat} :
    contiguous address end_ (some last) l ↔ (∀ r ∈ (meeting address end_ l).head?, last = r.base) ∧
      (meeting address end_ l).IsChain (fun a b => a.end_ = b.base) := by
  induction l generalizing last with
  | nil => simp [contiguous, meeting]
  | cons r l ih =>
    rw [contiguous]
    by_cases hin : r.intersectsRange address end_ = true
    · rw [meeting_cons_pos hin, List.isChain_cons, ← ih]
      simp only [hin, Bool.not_true, Bool.false_eq_true, if_false, Option.isSome_some, Bool.true_and, ne_eq,
        Option.some.injEq, decide_eq_true_iff, List.head?_cons, Option.mem_some_iff, forall_eq']
      split
      · next hne => simp [hne]
      · next heq => simp [not_not.1 heq]
    · rw [meeting_cons_neg hin, ← ih]
      simp [hin]

theorem contiguous_none_iff : contiguous address end_ none l ↔ meeting address end_ l ≠ [] ∧
      (meeting address end_ l).IsChain (fun a b => a.end_ = b.base) := by
  induction l with
  | nil => simp [contiguous, meeting]
  | cons r l ih =>
    rw [contiguous]
    by_cases hin : r.intersectsRange address end_ = true
    · rw [meeting_cons_pos hin, List.isChain_cons, ← contiguous_some_iff]
      simp [hin]
    · rw [meeting_cons_neg hin, ← ih]
      simp [hin]

end AddressSpace

/-! ## New mappings and their protections -/

namespace AddressSpace

open MmuRegion

/-! ## The check of a range -/

variable {s s' : AddressSpace} {length : UInt64} {host : Host} {prot : Prot} {base : Nat}

/-- A mapped page of a range belongs to a region that meets the range. -/
theorem Wf.mapped_iff (h : s.Wf) {page : Nat} : s.pageInfo page ≠ none ↔ ∃ r ∈ s.regions, r.Covers page := by
  rw [Ne, h.pageInfo_eq_none]
  simp only [not_forall, not_not, exists_prop]

/-- The page of the first address that a region shares with a range. -/
def firstShared (address : Nat) (r : MmuRegion) : Nat := max r.base address / PAGE_SIZE

theorem Wf.firstShared_spec (h : s.Wf) {address length : Nat} (ha : address % PAGE_SIZE = 0)
    {r : MmuRegion} (hr : r ∈ meeting address (address + length) s.regions) :
    firstShared address r * PAGE_SIZE = max r.base address ∧ InRange address length (firstShared address r) ∧
      s.pageInfo (firstShared address r) ≠ none := by
  obtain ⟨hr, hmeet⟩ := h.mem_meeting.1 hr
  have hb := (h.sound r hr).base_aligned
  have heq : firstShared address r * PAGE_SIZE = max r.base address := by
    simp only [firstShared, PAGE_SIZE_eq] at *
    omega
  refine ⟨heq, ?_, ?_⟩
  · rw [InRange, heq]
    omega
  · rw [h.mapped_iff]
    refine ⟨r, hr, ?_⟩
    rw [Covers, heq]
    omega

/-- The check passes exactly when a page of the range is mapped and none is missing between two that are. -/
theorem Wf.contiguous_iff (h : s.Wf) {address : Nat} (length : Nat) (ha : address % PAGE_SIZE = 0) :
    contiguous address (address + length) none s.regions ↔
      (∃ page, InRange address length page ∧ s.pageInfo page ≠ none) ∧
      ∀ p q r, p < q → q < r → InRange address length p → InRange address length r →
        s.pageInfo p ≠ none → s.pageInfo r ≠ none → s.pageInfo q ≠ none := by
  have hsound : ∀ r ∈ meeting address (address + length) s.regions, r.base < r.top :=
    fun r hr => (h.sound r (h.mem_meeting.1 hr).1).lt
  have hchain : (meeting address (address + length) s.regions).IsChain (fun a b => a.end_ = b.base) ↔
      (meeting address (address + length) s.regions).IsChain (fun a b => a.top = b.base) := by
    refine List.IsChain.iff_of_mem_imp fun a b ha _ => ?_
    rw [h.end_eq (h.mem_meeting.1 ha).1]
  have hmeets : ∀ page, InRange address length page → s.pageInfo page ≠ none →
      ∃ r ∈ meeting address (address + length) s.regions, r.Covers page := by
    intro page hin hmapped
    obtain ⟨r, hr, hc⟩ := h.mapped_iff.1 hmapped
    refine ⟨r, h.mem_meeting.2 ⟨hr, ?_⟩, hc⟩
    simp only [InRange, Covers] at hin hc
    omega
  have hordered : Ranges.Ordered MmuRegion.base top (meeting address (address + length) s.regions) := h.ordered.filter _
  rw [contiguous_none_iff, hchain, hordered.touching_iff hsound]
  refine and_congr ?_ ?_
  · constructor
    · intro hne
      obtain ⟨r, hr⟩ := List.exists_mem_of_ne_nil _ hne
      exact ⟨firstShared address r, (h.firstShared_spec ha hr).2⟩
    · rintro ⟨page, hin, hmapped⟩
      obtain ⟨r, hr, -⟩ := hmeets page hin hmapped
      exact List.ne_nil_of_mem hr
  · constructor
    · intro hall p q r hpq hqr hp hr hpm hrm
      obtain ⟨a, ha', hac⟩ := hmeets p hp hpm
      obtain ⟨b, hb', hbc⟩ := hmeets r hr hrm
      simp only [Covers] at hac hbc
      have hq : p * PAGE_SIZE < q * PAGE_SIZE ∧ q * PAGE_SIZE < r * PAGE_SIZE := by
        simp only [PAGE_SIZE_eq]
        omega
      obtain ⟨c, hc, hcq⟩ := hall a ha' b hb' (q * PAGE_SIZE) (by omega) (by omega)
      exact h.mapped_iff.2 ⟨c, (h.mem_meeting.1 hc).1, hcq⟩
    · intro hall a ha' b hb' x hxa hxb
      by_contra hno
      have hmiss : ∀ c ∈ s.regions, c.base ≤ x → x < c.top → max c.base address < min c.top (address + length) → False :=
        fun c hc h1 h2 hmeet => hno ⟨c, h.mem_meeting.2 ⟨hc, hmeet⟩, h1, h2⟩
      obtain ⟨hac, ham⟩ := h.mem_meeting.1 ha'
      obtain ⟨hbc, hbm⟩ := h.mem_meeting.1 hb'
      -- the missed point is past the one region and before the other, so its page is between two of theirs
      have hpast : a.top ≤ x := by
        by_contra hlt
        exact hmiss a hac hxa (by omega) ham
      have hbefore : x < b.base := by
        by_contra hge
        exact hmiss b hbc (by omega) hxb hbm
      obtain ⟨hpa, hain, hamapped⟩ := h.firstShared_spec ha ha'
      obtain ⟨hpb, hbin, hbmapped⟩ := h.firstShared_spec ha hb'
      have hata := (h.sound a hac).base_aligned
      have hats := (h.sound a hac).size_aligned
      have hbta := (h.sound b hbc).base_aligned
      refine hall (firstShared address a) (x / PAGE_SIZE) (firstShared address b) ?_ ?_ hain hbin hamapped hbmapped ?_
      · simp only [firstShared, top, PAGE_SIZE_eq] at *
        omega
      · simp only [firstShared, PAGE_SIZE_eq] at *
        omega
      · rw [h.pageInfo_eq_none]
        intro c hc hcx
        have hcx := ((h.sound c hc).covers_page x).1 hcx
        exact hmiss c hc hcx.1 hcx.2 (by omega)

/-! ## The change of a range -/

/-- Once the range is split off, the loop changes the protection of its pages and of no other page. -/
theorem Bounded.protected {s2 : AddressSpace} {address end_ : Nat} (hb : s.Bounded address end_ s2)
    {l : List MmuRegion} {memory : Memory} {log : List Notification}
    (hp : protectRegions host address end_ prot s2.regions s2.memory s2.notifications = some (l, memory, log)) (page : Nat) :
    ({ s2 with regions := l, memory := memory, notifications := log } : AddressSpace).pageInfo page =
      if address ≤ page * PAGE_SIZE ∧ page * PAGE_SIZE < end_ then (s.pageInfo page).map (fun i => (i.1, prot))
      else s.pageInfo page := by
  have hwf := hb.wf.protectRegions hp
  obtain ⟨rfl, -⟩ := protectRegions_eq_some hb.wf.settled hp
  rw [← hb.pageInfo]
  -- a region that covers the page meets the range exactly when the page is in it
  have hmeets : ∀ q ∈ s2.regions, q.Covers page →
      (q.intersectsRange address end_ = true ↔ address ≤ page * PAGE_SIZE ∧ page * PAGE_SIZE < end_) := by
    intro q hq hc
    simp only [Covers] at hc
    constructor
    · intro hin
      obtain ⟨h1, h2⟩ := hb.inside q hq hin
      omega
    · intro hin
      rw [hb.wf.intersects_iff hq]
      omega
  have hmap : ∀ info, ({ s2 with regions := s2.regions.map (fun r => if r.intersectsRange address end_ then
        { r with prot := prot } else r), memory := memory, notifications := log } : AddressSpace).pageInfo page = some info ↔
      ∃ q ∈ s2.regions, q.Covers page ∧ (q.name, if q.intersectsRange address end_ then prot else q.prot) = info := by
    intro info
    rw [hwf.pageInfo_eq_some]
    constructor
    · rintro ⟨r, hr, hc, rfl⟩
      obtain ⟨q, hq, rfl⟩ := List.mem_map.1 hr
      refine ⟨q, hq, ?_, ?_⟩
      · split at hc <;> exact hc
      · split <;> rfl
    · rintro ⟨q, hq, hc, rfl⟩
      refine ⟨_, List.mem_map.2 ⟨q, hq, rfl⟩, ?_, ?_⟩
      · split <;> exact hc
      · split <;> rfl
  apply Option.ext
  intro info
  rw [hmap]
  split
  · next hin =>
    simp only [Option.map_eq_some_iff, hb.wf.pageInfo_eq_some]
    constructor
    · rintro ⟨q, hq, hc, rfl⟩
      exact ⟨(q.name, q.prot), ⟨q, hq, hc, rfl⟩, by rw [if_pos ((hmeets q hq hc).2 hin)]⟩
    · rintro ⟨_, ⟨q, hq, hc, rfl⟩, rfl⟩
      exact ⟨q, hq, hc, by rw [if_pos ((hmeets q hq hc).2 hin)]⟩
  · next hout =>
    rw [hb.wf.pageInfo_eq_some]
    refine exists_congr fun q => and_congr_right fun hq => and_congr_right fun hc => ?_
    rw [if_neg (fun hin => hout ((hmeets q hq hc).1 hin))]

/-- The regions that meet the range leave a space whose regions are inside the range or outside it. -/
theorem Bounded.dropped {s2 : AddressSpace} {address end_ : Nat} (hb : s.Bounded address end_ s2)
    (hd : s2.Dropped (s2.regions.filter (·.intersectsRange address end_)) s') (page : Nat) :
    s'.pageInfo page = if address ≤ page * PAGE_SIZE ∧ page * PAGE_SIZE < end_ then none else s.pageInfo page := by
  have hmeets : ∀ q ∈ s2.regions, q.Covers page → address ≤ page * PAGE_SIZE → page * PAGE_SIZE < end_ →
      q.intersectsRange address end_ = true := by
    intro q hq hc h1 h2
    rw [hb.wf.intersects_iff hq]
    simp only [Covers] at hc
    omega
  rw [← hb.pageInfo]
  split
  · next hin =>
    rw [hd.wf.pageInfo_eq_none]
    intro q hq hc
    obtain ⟨hq, hkept⟩ := (hd.mem_regions q).1 hq
    exact hkept (List.mem_filter.2 ⟨hq, hmeets q hq hc hin.1 hin.2⟩)
  · next hout =>
    apply Option.ext
    intro info
    rw [hd.wf.pageInfo_eq_some, hb.wf.pageInfo_eq_some]
    constructor
    · rintro ⟨q, hq, hc, rfl⟩
      exact ⟨q, ((hd.mem_regions q).1 hq).1, hc, rfl⟩
    · rintro ⟨q, hq, hc, rfl⟩
      refine ⟨q, (hd.mem_regions q).2 ⟨hq, fun hdrop => hout ?_⟩, hc, rfl⟩
      -- the region is inside the range, and so is its page
      obtain ⟨h1, h2⟩ := hb.inside q hq (List.mem_filter.1 hdrop).2
      simp only [Covers] at hc
      omega

/-! ## New regions -/

/-- The stations of a mapping that may replace others. -/
def Replaced (s : AddressSpace) (r : MmuRegion) (s' : AddressSpace) : Prop :=
  ∃ s1 s2 s3, s.SplitAt r.base s1 ∧ s1.SplitAt r.top s2 ∧ s2.Dropped (s2.toErase r) s3 ∧ s3.Added r s'

/-- The region that a mapping makes. -/
def newRegion (s : AddressSpace) (base length : Nat) (prot : Prot) : MmuRegion :=
  ⟨s.nextRegion, base, length, prot, "", true, false⟩

/-- The new region joins the others, or it takes the place of some. -/
theorem Wf.mmap_made (h : s.Wf) {addr : UInt64} {flags : MapFlags}
    (hm : s.mmap host addr length prot flags = some (some base, s')) :
    (s.newRegion base (roundedLength length.toNat) prot).Sound s.memorySize ∧
      ((flags.fixed = true ∧ flags.noReplace = false ∧ base = addr.toNat ∧ ({ s with nextRegion := s.nextRegion + 1 } :
          AddressSpace).Replaced (s.newRegion base (roundedLength length.toNat) prot) s') ∨
        (¬ (flags.fixed = true ∧ flags.noReplace = false) ∧ ({ s with nextRegion := s.nextRegion + 1 } :
          AddressSpace).Added (s.newRegion base (roundedLength length.toNat) prot) s')) := by
  obtain ⟨base', hbase, ⟨hnone, -⟩ | ⟨heq, r, s1, hmake, hplace⟩⟩ := mmap_cases hm
  · cases hnone
  obtain rfl := Option.some.inj heq
  have hlt := mmapBase_lt hbase
  obtain ⟨hle, rfl, hwf, hfresh, rfl⟩ := h.makeRegion hmake
  have hsound : (s.newRegion base (pageRoundUp length.toNat) prot).Sound s.memorySize :=
    hwf.placeRegion_sound hfresh hlt (pageRoundUp_lt _) hle hplace
  have hround : pageRoundUp length.toNat = roundedLength length.toNat := by
    have hpos := hsound.nonempty
    have hlen := length.toNat_lt
    simp only [newRegion, pageRoundUp, roundedLength, u64, PAGE_SIZE_eq] at hpos ⊢
    omega
  rw [← hround]
  refine ⟨hsound, ?_⟩
  have hend := hsound.end_eq s.memorySize_lt
  unfold AddressSpace.placeRegion at hplace
  split at hplace
  · next hreplace =>
    rw [Bool.and_eq_true, Bool.not_eq_true'] at hreplace
    refine .inl ⟨hreplace.1, hreplace.2, ?_, ?_⟩
    · rw [mmapBase, if_pos hreplace.1] at hbase
      exact (Option.some.inj hbase).symm
    · obtain ⟨s1, s2, s3, h1, h2, h3, h4⟩ := addRegionAndEraseExisting_eq_some hplace
      have hs1 := hwf.split h1
      have hs2 := hs1.wf.split h2
      obtain ⟨hsub, hnodup⟩ := hs2.wf.toErase (s.newRegion base (pageRoundUp length.toNat) prot)
      have hs3 := hs2.wf.dropRegions hsub hnodup h3
      have hsize : s3.memorySize = s.memorySize := by rw [hs3.memorySize, hs2.memorySize, hs1.memorySize]; rfl
      refine ⟨s1, s2, s3, hs1, ?_, hs3, ?_⟩
      · rw [← hend]
        exact hs2
      · exact hs3.wf.addRegion_sound (hs3.fresh (hs2.fresh (hs1.fresh hfresh))) (by rw [hsize]; exact hsound) h4
  · next hjoin =>
    rw [Bool.and_eq_true, Bool.not_eq_true'] at hjoin
    exact .inr ⟨hjoin, hwf.addRegion_sound hfresh hsound hplace⟩

/-- The new region is in the table, and full of zeros. -/
theorem Added.made {r : MmuRegion} (h : s.Added r s') (hz : r.requiresMemsetToZero = true) :
    r.settled ∈ s'.regions ∧ (∀ a, r.base ≤ a → a < r.top → s'.memory a = 0) := by
  refine ⟨(h.mem_regions _).2 (.inl rfl), fun a h1 h2 => ?_⟩
  rw [h.memory, if_pos hz, memsetZero, if_pos ⟨h1, h2⟩]

theorem Wf.mmap_region (h : s.Wf) {addr : UInt64} {flags : MapFlags}
    (hm : s.mmap host addr length prot flags = some (some base, s')) :
    s'.Wf ∧ s'.memorySize = s.memorySize ∧ (s.newRegion base (roundedLength length.toNat) prot).settled ∈ s'.regions ∧
      ∀ a, base ≤ a → a < base + roundedLength length.toNat → s'.memory a = 0 := by
  obtain ⟨-, ⟨-, -, -, s1, s2, s3, h1, h2, h3, h4⟩ | ⟨-, h4⟩⟩ := h.mmap_made hm
  · have hsize : s'.memorySize = s.memorySize := by
      rw [h4.memorySize, h3.memorySize, h2.memorySize, h1.memorySize]
      rfl
    exact ⟨h4.wf, hsize, h4.made rfl⟩
  · exact ⟨h4.wf, h4.memorySize, h4.made rfl⟩

/-! ## Ranges of one protection -/

/-- One region is all there is of a range. -/
def Holds (s : AddressSpace) (base length : Nat) (prot : Prot) : Prop :=
  ∀ page, InRange base length page → ∃ name, s.pageInfo page = some (name, prot)

theorem Wf.holds (h : s.Wf) {r : MmuRegion} (hr : r ∈ s.regions) : s.Holds r.base r.size r.prot := by
  intro page hin
  exact ⟨r.name, h.pageInfo_eq_some.2 ⟨r, hr, hin, rfl⟩⟩

theorem inRange_first {length : Nat} (hb : base % PAGE_SIZE = 0) (hpos : 0 < length) :
    InRange base length (base / PAGE_SIZE) := by
  simp only [InRange, PAGE_SIZE_eq] at *
  omega

theorem findAddress_of_holds {length : Nat} (hb : base % PAGE_SIZE = 0)
    (hpos : 0 < length) (hh : s.Holds base length prot) : ∃ r, s.findAddress base = some r ∧ r.prot = prot := by
  have hpage : base / PAGE_SIZE * PAGE_SIZE = base := by
    simp only [PAGE_SIZE_eq] at *
    omega
  obtain ⟨name, hinfo⟩ := hh _ (inRange_first hb hpos)
  rw [pageInfo, hpage] at hinfo
  obtain ⟨r, hr, hrest⟩ := Option.map_eq_some_iff.1 hinfo
  exact ⟨r, hr, (Prod.mk.inj hrest).2⟩

/-- The check of `mprotect` passes where all pages of a range have one protection. -/
theorem Wf.contiguous_of_holds (h : s.Wf) {length : Nat} (hb : base % PAGE_SIZE = 0)
    (hpos : 0 < length) (hh : s.Holds base length prot) : contiguous base (base + length) none s.regions = true := by
  have hfirst := inRange_first hb hpos
  refine (h.contiguous_iff _ hb).2 ⟨⟨base / PAGE_SIZE, hfirst, ?_⟩, ?_⟩
  · obtain ⟨name, hinfo⟩ := hh _ hfirst
    rw [hinfo]
    exact Option.some_ne_none _
  · intro p q r hpq hqr hpin hrin _ _
    have hqin : InRange base length q :=
      ⟨Nat.le_trans hpin.1 (Nat.mul_le_mul_right _ (Nat.le_of_lt hpq)),
        Nat.lt_of_le_of_lt (Nat.mul_le_mul_right _ (Nat.le_of_lt hqr)) hrin.2⟩
    obtain ⟨name, hinfo⟩ := hh q hqin
    rw [hinfo]
    exact Option.some_ne_none _

theorem Wf.mprotect_memorySize (h : s.Wf) {address : UInt64} {result : Int}
    (hm : s.mprotect host address length prot = some (result, s')) : s'.memorySize = s.memorySize := by
  obtain ⟨-, rfl⟩ | ⟨-, s1, s2, l, memory, log, h1, h2, -, rfl⟩ := mprotect_cases hm
  · rfl
  · have hs1 := h.split h1
    exact (hs1.wf.split h2).memorySize.trans hs1.memorySize

/-! ## What the calls do to protections -/

/-- The protection of a page. -/
def protAt (s : AddressSpace) (page : Nat) : Option Prot := (s.pageInfo page).map (·.2)

theorem protAt_eq_none {page : Nat} : s.protAt page = none ↔ s.pageInfo page = none := Option.map_eq_none_iff

theorem Holds.protAt {length page : Nat} (h : s.Holds base length prot)
    (hin : InRange base length page) : s.protAt page = some prot := by
  obtain ⟨name, hinfo⟩ := h page hin
  rw [AddressSpace.protAt, hinfo]
  rfl

/-- Behind the reserved range nothing is mapped. -/
theorem Wf.protAt_beyond (h : s.Wf) {page : Nat} (hpage : s.memorySize ≤ page * PAGE_SIZE) :
    s.protAt page = none := by
  rw [protAt_eq_none, h.pageInfo_eq_none]
  intro r hr hc
  have htop := (h.sound r hr).top_le
  simp only [Covers] at hc
  omega

/-- A mapping that replaces nothing takes a range that was free. -/
theorem Wf.mmap_mapped (h : s.Wf) {addr : UInt64} {flags : MapFlags}
    (hm : s.mmap host addr length prot flags = some (some base, s'))
    (hflags : ¬ (flags.fixed = true ∧ flags.noReplace = false)) :
    (s.newRegion base (roundedLength length.toNat) prot).Sound s.memorySize ∧ s'.Wf ∧ s'.memorySize = s.memorySize ∧
      s.Mapped base (roundedLength length.toNat) prot s' ∧
      ∀ page, InRange base (roundedLength length.toNat) page → s.pageInfo page = none := by
  obtain ⟨hsound, ⟨hfixed, hno, -⟩ | ⟨-, hadded⟩⟩ := h.mmap_made hm
  · exact absurd ⟨hfixed, hno⟩ hflags
  have hwf : ({ s with nextRegion := s.nextRegion + 1 } : AddressSpace).Wf := h.congr rfl rfl rfl rfl (Nat.le_succ _)
  have hfresh : ({ s with nextRegion := s.nextRegion + 1 } : AddressSpace).Fresh
      (s.newRegion base (roundedLength length.toNat) prot) :=
    ⟨Nat.lt_succ_self _, fun q hq => Nat.ne_of_lt (h.ptr_lt q hq)⟩
  have hmapped := hadded.mapped hwf hfresh rfl
  have hrange : s.Mapped base (roundedLength length.toNat) prot s' :=
    ⟨hmapped.region, hmapped.zero, hmapped.page_outside, hmapped.byte_outside⟩
  refine ⟨hsound, hadded.wf, hadded.memorySize, hrange, ?_⟩
  intro page hin
  rw [h.pageInfo_eq_none]
  intro q hq hc
  have hapart := hadded.apart q hq
  simp only [top, newRegion, Covers, InRange] at hapart hc hin
  omega

theorem mmap_fixed_base {addr : UInt64} {flags : MapFlags}
    (hfixed : flags.fixed = true) (hm : s.mmap host addr length prot flags = some (some base, s')) : base = addr.toNat := by
  simp only [AddressSpace.mmap, mmapBase, hfixed, if_true, Option.bind_eq_bind, Option.bind_some, Option.bind_eq_some_iff,
    verify_eq_some, exists_const] at hm
  obtain ⟨-, hm⟩ := hm
  split at hm
  · simp at hm
  · simp only [Option.bind_eq_some_iff, Option.some.injEq, Prod.mk.injEq] at hm
    obtain ⟨_, -, _, -, rfl, -⟩ := hm
    rfl

theorem Mapped.holds {length : Nat} (h : s.Mapped base length prot s') (hw : s'.Wf) :
    s'.Holds base length prot := by
  obtain ⟨r, hr, rfl, rfl, rfl, -⟩ := h.region
  exact hw.holds hr

/-- A range of one protection takes another one, unless that is both writable and executable. -/
theorem Wf.mprotect_protAt (h : s.Wf) {base : UInt64} {prot' : Prot}
    {result : Int} (hb : base.toNat % PAGE_SIZE = 0) (hpos : 0 < roundedLength length.toNat)
    (hlt : base.toNat + roundedLength length.toNat < 2 ^ 64) (hh : s.Holds base.toNat (roundedLength length.toNat) prot)
    (hm : s.mprotect host base length prot' = some (result, s')) :
    s'.memory = s.memory ∧ ∀ page, s'.protAt page =
      if InRange base.toNat (roundedLength length.toNat) page ∧ ¬ (prot'.exec && prot'.write) = true then some prot'
      else s.protAt page := by
  have hround := pageRoundUp_eq (show roundedLength length.toNat < 2 ^ 64 by omega)
  have hend : u64 (base.toNat + pageRoundUp length.toNat) = base.toNat + roundedLength length.toNat := by
    rw [hround]
    exact u64_of_lt hlt
  have hcontiguous := h.contiguous_of_holds hb hpos hh
  simp only [AddressSpace.mprotect, hend, hcontiguous, Option.bind_eq_bind, Option.bind_eq_some_iff, verify_eq_some,
    exists_const] at hm
  obtain ⟨-, hm⟩ := hm
  split at hm
  · next hboth =>
    obtain ⟨-, rfl⟩ := Prod.mk.inj (Option.some.inj hm)
    refine ⟨rfl, fun page => ?_⟩
    rw [if_neg fun hin => hin.2 hboth]
  · next hnot =>
    simp only [Bool.not_true, Bool.false_eq_true, if_false, Option.bind_eq_some_iff, Prod.exists, Option.some.injEq,
      Prod.mk.injEq] at hm
    obtain ⟨s1, h1, s2, h2, l, memory, log, hloop, -, rfl⟩ := hm
    have hs1 := h.split h1
    have hbounded := h.bounded hs1 (hs1.wf.split h2)
    refine ⟨?_, fun page => ?_⟩
    · rw [← hbounded.memory]
      exact (protectRegions_eq_some hbounded.wf.settled hloop).2
    · have hpages := hbounded.protected hloop page
      by_cases hin : InRange base.toNat (roundedLength length.toNat) page
      · obtain ⟨name, hinfo⟩ := hh page hin
        rw [hinfo] at hpages
        rw [if_pos ⟨hin, hnot⟩, protAt, hpages.trans (if_pos hin)]
        rfl
      · rw [if_neg fun hboth => hin hboth.1, protAt, hpages.trans (if_neg hin), protAt]

theorem Wf.setRegionName_protAt (h : s.Wf) {address : UInt64} {name : String}
    (hm : s.setRegionName address name = some s') :
    s'.memory = s.memory ∧ s'.memorySize = s.memorySize ∧ ∀ page, s'.protAt page = s.protAt page := by
  have hwf := h.setRegionName hm
  simp only [AddressSpace.setRegionName, Option.bind_eq_bind, Option.bind_eq_some_iff, Option.some.injEq] at hm
  obtain ⟨r, -, rfl⟩ := hm
  refine ⟨rfl, rfl, fun page => ?_⟩
  apply Option.ext
  intro prot
  simp only [protAt, Option.map_eq_some_iff, h.pageInfo_eq_some, hwf.pageInfo_eq_some]
  constructor
  · rintro ⟨info, ⟨x, hx, hc, rfl⟩, rfl⟩
    obtain ⟨q, hq, rfl⟩ := List.mem_map.1 hx
    refine ⟨_, ⟨q, hq, ?_, rfl⟩, ?_⟩
    · split at hc <;> exact hc
    · split <;> rfl
  · rintro ⟨info, ⟨q, hq, hc, rfl⟩, rfl⟩
    refine ⟨_, ⟨_, List.mem_map.2 ⟨q, hq, rfl⟩, ?_, rfl⟩, ?_⟩
    · split <;> exact hc
    · split <;> rfl

/-- The pages outside of a range stay when the range is unmapped. -/
theorem Wf.munmap_outside (h : s.Wf) {address : UInt64} {result : Int}
    (hm : s.munmap host address length = some (result, s')) :
    s'.memorySize = s.memorySize ∧
      ∀ page, page * PAGE_SIZE < address.toNat ∨ u64 (address.toNat + pageRoundUp length.toNat) ≤ page * PAGE_SIZE →
        s'.pageInfo page = s.pageInfo page := by
  obtain ⟨s1, s2, h1, h2, h3⟩ := munmap_eq_some hm
  have hs1 := h.split h1
  have hbounded := h.bounded hs1 (hs1.wf.split h2)
  have hdropped := hbounded.wf.dropRegions (fun r hr => (List.mem_filter.1 hr).1) (hbounded.wf.nodup.filter _) h3
  refine ⟨hdropped.memorySize.trans hbounded.memorySize, fun page hout => ?_⟩
  rw [hbounded.dropped hdropped]
  exact if_neg fun hin => by omega

end AddressSpace

end X64Emulator
