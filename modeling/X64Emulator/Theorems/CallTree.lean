import X64Emulator.Lemmas.ProfileData
import Mathlib.Data.List.Perm.Basic

/-!
# The call tree of a profile

What the viewer shows of a thread whose calls and returns have increasing ticks should be its call tree: one range for each
call, from the call to the return that belongs to it, with the symbol of the address and the number of ranges around it. The
loop stops where the calls or the returns end, and what comes after is lost; it does not look whether a return has a call.
-/

namespace X64Emulator
namespace Profile

open Nesting

/-! ## What the viewer should show -/

namespace ThreadProfilingData

def events (t : ThreadProfilingData) : List Event := merged t.callEvents t.retEvents

/-- The calls and returns have strictly increasing ticks. -/
def Recorded (t : ThreadProfilingData) : Prop := Increasing t.callEvents t.retEvents

/-- No return occurs with an empty stack. -/
def Returns (t : ThreadProfilingData) : Prop := Brackets.Balanced Event.opens Event.closes t.events

def lastTick (t : ThreadProfilingData) : Nat := (t.events.getLast?.map Event.time).getD 0

/-- Where the range of the call at a tick ends: at its return, or just after the last tick if it never returns. -/
def EndsAt (t : ThreadProfilingData) (begin end_ : Nat) : Prop :=
  Matches t.events begin end_ ∨ (¬ ∃ stop, Matches t.events begin stop) ∧ end_ = t.lastTick + 1

end ThreadProfilingData

def ProfileRange.encloses (q p : ProfileRange) : Bool :=
  decide (q.range.begin < p.range.begin) && decide (p.range.end_ ≤ q.range.end_)

/-- The data is the call tree of a thread: a range for each call, in their order, with its end, its symbol and the number of
ranges around it, and any two of them nested or disjoint. -/
structure IsCallTree (table : ProfilingSymbolTable) (t : ThreadProfilingData) (d : AllProfileData) : Prop where
  ranges : List.Forall₂ (fun c p => p.range.begin = c.tick ∧ t.EndsAt c.tick.toNat p.range.end_.toNat ∧
    d.symbols[p.symbolIndex.toNat]? = some (symbolName table c.address) ∧
    p.depth.toNat = d.profileRanges.countP fun q => q.encloses p) t.callEvents d.profileRanges
  nested : d.profileRanges.Pairwise fun p q =>
    p.range.end_ ≤ q.range.begin ∨ (p.range.begin ≤ q.range.begin ∧ q.range.end_ ≤ p.range.end_)

/-- The viewer shows the call tree of the first thread, or nothing when a return has no call. -/
def ShowsCallTree (data : ProfilingData) (t : ThreadProfilingData) : Prop :=
  (t.Returns → ∃ d, tryCreate data = .ok (some d) ∧ IsCallTree data.symbolTable t d) ∧
  (¬ t.Returns → tryCreate data = .ok none)

/-! ## The events of a thread -/

section Events

variable {calls : List CallEvent} {rets : List RetEvent}

theorem merged_increasing (h : Increasing calls rets) : (merged calls rets).Pairwise fun e e' => e.time < e'.time := by
  have hcalls : (calls.map CallEvent.event).Pairwise fun e e' : Event => e.time < e'.time :=
    List.pairwise_map.2 (h.callEvents.imp UInt64.lt_iff_toNat_lt.1)
  have hrets : (rets.map RetEvent.event).Pairwise fun e e' : Event => e.time < e'.time :=
    List.pairwise_map.2 (h.retEvents.imp UInt64.lt_iff_toNat_lt.1)
  have hsorted : (merged calls rets).Pairwise fun e e' => e.time ≤ e'.time := by
    have hmerge := @List.pairwise_merge _ (fun a b : Event => decide (a.time ≤ b.time))
      (fun a b c hab hbc => by simp only [decide_eq_true_eq] at *; omega)
      (fun a b => by simp only [Bool.or_eq_true, decide_eq_true_eq]; omega) _ _
      (hcalls.imp fun hlt => decide_eq_true hlt.le) (hrets.imp fun hlt => decide_eq_true hlt.le)
    exact hmerge.imp of_decide_eq_true
  have hapart : (calls.map CallEvent.event ++ rets.map RetEvent.event).Pairwise fun e e' : Event => e.time ≠ e'.time := by
    refine List.pairwise_append.2 ⟨hcalls.imp ne_of_lt, hrets.imp ne_of_lt, ?_⟩
    intro e he e' he' heq
    obtain ⟨c, hc, rfl⟩ := List.mem_map.1 he
    obtain ⟨r, hr, rfl⟩ := List.mem_map.1 he'
    exact h.apart c hc r hr (UInt64.toNat_inj.1 heq)
  have hdistinct := (merged_perm calls rets).symm.pairwise hapart fun hne => hne.symm
  exact (hsorted.and hdistinct).imp fun hboth => lt_of_le_of_ne hboth.1 hboth.2

theorem addresses_merged (calls : List CallEvent) (rets : List RetEvent) :
    addresses (merged calls rets) = calls.map (·.address) := by
  induction calls generalizing rets with
  | nil => simp [merged_nil_left]
  | cons c calls ihcalls =>
    induction rets with
    | nil => rw [merged_nil_right, addresses_calls]
    | cons r rets ihrets =>
      rw [merged_cons]
      split
      · rw [← List.singleton_append, addresses_append, ihcalls, addresses_call]
        rfl
      · rw [← List.singleton_append, addresses_append, ihrets, addresses_ret]
        rfl

theorem countP_opens (calls : List CallEvent) (rets : List RetEvent) :
    (calls.map CallEvent.event ++ rets.map RetEvent.event).countP Event.opens = calls.length := by
  have hcalls : (calls.map CallEvent.event).countP Event.opens = (calls.map CallEvent.event).length :=
    List.countP_eq_length.2 fun e he => by
      obtain ⟨c, -, rfl⟩ := List.mem_map.1 he
      rfl
  have hrets : (rets.map RetEvent.event).countP Event.opens = 0 :=
    List.countP_eq_zero.2 fun e he => by
      obtain ⟨r, -, rfl⟩ := List.mem_map.1 he
      exact Bool.false_ne_true
  rw [List.countP_append, hcalls, hrets, List.length_map, Nat.add_zero]

theorem countP_closes (calls : List CallEvent) (rets : List RetEvent) :
    (calls.map CallEvent.event ++ rets.map RetEvent.event).countP Event.closes = rets.length := by
  have hcalls : (calls.map CallEvent.event).countP Event.closes = 0 :=
    List.countP_eq_zero.2 fun e he => by
      obtain ⟨c, -, rfl⟩ := List.mem_map.1 he
      exact Bool.false_ne_true
  have hrets : (rets.map RetEvent.event).countP Event.closes = (rets.map RetEvent.event).length :=
    List.countP_eq_length.2 fun e he => by
      obtain ⟨r, -, rfl⟩ := List.mem_map.1 he
      rfl
  rw [List.countP_append, hcalls, hrets, List.length_map, Nat.zero_add]

theorem opened_merged (calls : List CallEvent) (rets : List RetEvent) :
    (calls.map CallEvent.event ++ rets.map RetEvent.event).filterMap Event.opened? =
      calls.map fun c => (c.tick.toNat, c.address) := by
  have hcalls : (calls.map CallEvent.event).filterMap Event.opened? = calls.map fun c => (c.tick.toNat, c.address) := by
    induction calls with
    | nil => rfl
    | cons c calls ih => simpa [CallEvent.event, Event.opened?] using ih
  have hrets : (rets.map RetEvent.event).filterMap Event.opened? = ([] : List (Nat × UInt64)) := by
    refine List.filterMap_eq_nil_iff.2 ?_
    intro e he
    obtain ⟨r, -, rfl⟩ := List.mem_map.1 he
    rfl
  rw [List.filterMap_append, hcalls, hrets, List.append_nil]

theorem exists_call_of_opening {t : Nat} {a : UInt64} (h : .opening t a ∈ merged calls rets) :
    ∃ c ∈ calls, c.tick.toNat = t ∧ c.address = a := by
  have hmem := (merged_perm calls rets).mem_iff.1 h
  rcases List.mem_append.1 hmem with hmem | hmem
  · obtain ⟨c, hc, heq⟩ := List.mem_map.1 hmem
    cases heq
    exact ⟨c, hc, rfl, rfl⟩
  · obtain ⟨r, -, heq⟩ := List.mem_map.1 hmem
    cases heq

theorem exists_ret_of_closing {t : Nat} (h : .closing t ∈ merged calls rets) : ∃ r ∈ rets, r.tick.toNat = t := by
  have hmem := (merged_perm calls rets).mem_iff.1 h
  rcases List.mem_append.1 hmem with hmem | hmem
  · obtain ⟨c, -, heq⟩ := List.mem_map.1 hmem
    cases heq
  · obtain ⟨r, hr, heq⟩ := List.mem_map.1 hmem
    cases heq
    exact ⟨r, hr, rfl⟩

end Events

/-! ## The sorted ranges -/

theorem dfsSorted_iff {a b : ProfileRange} : dfsSorted a b ↔ a.range.begin.toNat < b.range.begin.toNat ∨
    (a.range.begin.toNat = b.range.begin.toNat ∧ b.range.end_.toNat ≤ a.range.end_.toNat) := by
  simp only [dfsSorted, dfsOrder, gt_iff_lt, UInt64.lt_iff_toNat_lt]
  split_ifs <;> simp <;> omega

instance : Std.Total dfsSorted := ⟨fun a b => by rw [dfsSorted_iff, dfsSorted_iff]; omega⟩

instance : IsTrans ProfileRange dfsSorted := ⟨fun a b c => by simp only [dfsSorted_iff]; omega⟩

/-- A list of ranges that is not empty has a range for every system call. -/
theorem syscallRange_isOk {ranges : List ProfileRange} (hne : ranges ≠ []) (event : SyscallEvent) :
    ∃ pr, syscallRange ranges event = .ok pr := by
  unfold syscallRange
  cases hget : ranges[BinarySearch.partitionPoint (fun pr => dfsOrder pr ⟨⟨event.tick, event.tick⟩, 0, 0⟩) ranges]? with
  | some pr => exact ⟨_, by simp only [hget]; rfl⟩
  | none =>
    obtain ⟨last, hlast⟩ := Option.isSome_iff_exists.1 (List.getLast?_isSome.2 hne)
    exact ⟨_, by simp only [hget, hlast]; rfl⟩

section Creating

variable {data : ProfilingData} {t : ThreadProfilingData} {rest : List ThreadProfilingData}

theorem tryCreate_of_run {w : Walk} (hdata : data.threadProfilingData = t :: rest) (hcalls : t.callEvents ≠ [])
    (hrets : t.retEvents ≠ []) (hrun : Walk.run data.symbolTable t.callEvents t.retEvents .initial = .ok w)
    (hne : w.allRanges ≠ []) :
    ∃ d, tryCreate data = .ok (some d) ∧ d.profileRanges = w.allRanges.insertionSort dfsSorted ∧ d.symbols = w.symbols := by
  have hsorted : w.allRanges.insertionSort dfsSorted ≠ [] := by
    intro hnil
    have hperm := List.perm_insertionSort dfsSorted w.allRanges
    rw [hnil] at hperm
    exact hne (List.perm_nil.1 hperm.symm)
  have hsyscalls : ∃ rs, (t.syscallEvents.insertionSort fun a b => a.tick ≤ b.tick).mapM
      (syscallRange (w.allRanges.insertionSort dfsSorted)) = .ok rs := by
    generalize t.syscallEvents.insertionSort (fun a b => a.tick ≤ b.tick) = events
    induction events with
    | nil => exact ⟨[], rfl⟩
    | cons e events ih =>
      obtain ⟨pr, hpr⟩ := syscallRange_isOk hsorted e
      obtain ⟨rs, hrs⟩ := ih
      exact ⟨pr :: rs, by rw [List.mapM_cons, hpr, hrs]; rfl⟩
  obtain ⟨rs, hrs⟩ := hsyscalls
  refine ⟨⟨w.allRanges.insertionSort dfsSorted, rs, w.symbols, w.maxTick, w.maxDepth⟩, ?_, rfl, rfl⟩
  simp only [tryCreate, hdata, List.isEmpty_eq_false_iff.2 hcalls, List.isEmpty_eq_false_iff.2 hrets, Bool.or_self, hrun,
    Outcome.ok_bind, hrs]
  rfl

theorem tryCreate_ne_none (hdata : data.threadProfilingData = t :: rest) (hcalls : t.callEvents ≠ [])
    (hrets : t.retEvents ≠ []) : tryCreate data ≠ .ok none := by
  intro hnone
  simp only [tryCreate, hdata, List.isEmpty_eq_false_iff.2 hcalls, List.isEmpty_eq_false_iff.2 hrets, Bool.or_self] at hnone
  obtain ⟨w, -, hnone⟩ := Outcome.bind_eq_ok.1 hnone
  obtain ⟨syscallRanges, -, hnone⟩ := Outcome.bind_eq_ok.1 hnone
  cases hnone

theorem tryCreate_of_empty (hdata : data.threadProfilingData = t :: rest) (hempty : t.callEvents = [] ∨ t.retEvents = []) :
    tryCreate data = .ok none := by
  rcases hempty with hempty | hempty <;> simp [tryCreate, hdata, hempty]

end Creating

/-! ## A thread that returns from everything -/

section Shown

variable {table : ProfilingSymbolTable} {t : ThreadProfilingData} {spans : List (Span Nat UInt64)}

/-- The spans of a thread whose calls have all returned, put in the order of the ranges. -/
structure Sorted (table : ProfilingSymbolTable) (t : ThreadProfilingData) (spans sorted : List (Span Nat UInt64)) : Prop where
  perm : sorted.Perm spans
  starts : sorted.Pairwise fun p q => p.start < q.start
  heads : (sorted.map fun p => (p.start, p.item)) = t.callEvents.map fun c => (c.tick.toNat, c.address)
  ranges : (spans.map (spanRange table (t.callEvents.map (·.address)))).insertionSort dfsSorted =
    sorted.map (spanRange table (t.callEvents.map (·.address)))

theorem start_lt (hruns : Runs t.events ⟨[], spans⟩) {p : Span Nat UInt64} (hp : p ∈ spans) :
    ∃ c ∈ t.callEvents, c.tick.toNat = p.start ∧ c.address = p.item := by
  have hmem : (p.start, p.item) ∈ t.events.filterMap Event.opened? :=
    hruns.perm.mem_iff.1 (by simpa using ⟨p, hp, rfl, rfl⟩)
  obtain ⟨e, he, heq⟩ := List.mem_filterMap.1 hmem
  cases e with
  | opening t' a =>
    cases heq
    exact exists_call_of_opening he
  | closing t' => cases heq

theorem stop_lt (hruns : Runs t.events ⟨[], spans⟩) {p : Span Nat UInt64} (hp : p ∈ spans) :
    ∃ r ∈ t.retEvents, r.tick.toNat = p.stop := by
  obtain ⟨before, a, between, after, heq, -⟩ := hruns.matches p hp
  have hmem : Event.closing p.stop ∈ t.events := by simp [heq]
  exact @exists_ret_of_closing t.callEvents _ _ hmem

variable (table) in
theorem begin_spanRange (hruns : Runs t.events ⟨[], spans⟩) (all : List UInt64) {p : Span Nat UInt64} (hp : p ∈ spans) :
    (spanRange table all p).range.begin.toNat = p.start := by
  obtain ⟨c, -, hc, -⟩ := start_lt hruns hp
  rw [← hc]
  simp [spanRange, rangeOf, ← hc]

variable (table) in
theorem end_spanRange (hruns : Runs t.events ⟨[], spans⟩) (all : List UInt64) {p : Span Nat UInt64} (hp : p ∈ spans) :
    (spanRange table all p).range.end_.toNat = p.stop := by
  obtain ⟨r, -, hr⟩ := stop_lt hruns hp
  simp [spanRange, rangeOf, ← hr]

variable (table) in
theorem exists_sorted (hrecorded : t.Recorded) (hruns : Runs t.events ⟨[], spans⟩) : ∃ sorted, Sorted table t spans sorted := by
  have hperm := List.perm_insertionSort dfsSorted (spans.map (spanRange table (t.callEvents.map (·.address))))
  obtain ⟨sorted, hsorted, hspans⟩ := (congrFun₂ (List.eq_map_comp_perm _) _ spans).mpr hperm
  have hcalls : (t.callEvents.map fun c => (c.tick.toNat, c.address)).Pairwise fun x y => x.1 < y.1 :=
    List.pairwise_map.2 (hrecorded.callEvents.imp UInt64.lt_iff_toNat_lt.1)
  have hheads : (sorted.map fun p => (p.start, p.item)).Perm (t.callEvents.map fun c => (c.tick.toNat, c.address)) := by
    have hopened := hruns.perm
    rw [List.map_nil, List.append_nil] at hopened
    have hevents := (merged_perm t.callEvents t.retEvents).filterMap Event.opened?
    rw [opened_merged] at hevents
    exact (hspans.map _).trans (hopened.trans hevents)
  have hstarts : sorted.Pairwise fun p q => p.start < q.start := by
    have hle : sorted.Pairwise fun p q => p.start ≤ q.start := by
      have hpairwise := List.pairwise_insertionSort dfsSorted (spans.map (spanRange table (t.callEvents.map (·.address))))
      rw [hsorted] at hpairwise
      refine (List.pairwise_map.1 hpairwise).imp_of_mem ?_
      intro p q hp hq hpq
      have hbegin := begin_spanRange table hruns (t.callEvents.map (·.address)) (hspans.mem_iff.1 hp)
      have hbegin' := begin_spanRange table hruns (t.callEvents.map (·.address)) (hspans.mem_iff.1 hq)
      rw [dfsSorted_iff, hbegin, hbegin'] at hpq
      omega
    have hne : sorted.Pairwise fun p q => p.start ≠ q.start := by
      have hapart := hheads.symm.pairwise (hcalls.imp ne_of_lt) fun hne => hne.symm
      rwa [List.pairwise_map] at hapart
    exact (hle.and hne).imp fun hboth => lt_of_le_of_ne hboth.1 hboth.2
  have hsame : (sorted.map fun p => (p.start, p.item)) = t.callEvents.map fun c => (c.tick.toNat, c.address) := by
    refine @List.Perm.eq_of_pairwise _ (fun x y => x.1 < y.1) _ _ ?_ (List.pairwise_map.2 hstarts) hcalls hheads
    intro x y _ _ hxy hyx
    exact absurd hyx (lt_asymm hxy)
  exact ⟨sorted, hspans, hstarts, hsame, hsorted⟩

/-! ### What the ranges say -/

variable {sorted : List (Span Nat UInt64)} {all : List UInt64}

/-- The number of ranges around a range is the depth of its span. -/
theorem countP_encloses (hrecorded : t.Recorded) (hruns : Runs t.events ⟨[], spans⟩) (hsorted : sorted.Perm spans)
    {p : Span Nat UInt64} (hp : p ∈ spans) :
    (sorted.map (spanRange table all)).countP (fun q => q.encloses (spanRange table all p)) = p.depth := by
  have hnested := (hruns.nested (merged_increasing hrecorded)).depth p hp
  rw [List.countP_nil, Nat.add_zero] at hnested
  rw [hnested, List.countP_map, ← hsorted.countP_eq]
  refine List.countP_congr ?_
  intro q hq
  have hq := hsorted.mem_iff.1 hq
  simp only [Function.comp_apply, ProfileRange.encloses, Bool.and_eq_true, decide_eq_true_eq, UInt64.lt_iff_toNat_lt,
    UInt64.le_iff_toNat_le, begin_spanRange table hruns all hp, begin_spanRange table hruns all hq, end_spanRange table hruns all hp,
    end_spanRange table hruns all hq]
  rfl

/-- The ranges are nested or disjoint. -/
theorem ranges_nested (hrecorded : t.Recorded) (hruns : Runs t.events ⟨[], spans⟩) (hsorted : sorted.Perm spans)
    (hstarts : sorted.Pairwise fun p q => p.start < q.start) :
    (sorted.map (spanRange table all)).Pairwise fun p q =>
      p.range.end_ ≤ q.range.begin ∨ (p.range.begin ≤ q.range.begin ∧ q.range.end_ ≤ p.range.end_) := by
  have hnested := hruns.nested (merged_increasing hrecorded)
  have hlaminar : spans.Pairwise fun p q =>
      p.stop < q.start ∨ q.stop < p.start ∨ (q.start < p.start ∧ p.stop < q.stop) ∨ (p.start < q.start ∧ q.stop < p.stop) := by
    refine hnested.closed.imp ?_
    intro p q hpq
    omega
  have hsame := hsorted.symm.pairwise hlaminar fun hpq => by omega
  refine List.pairwise_map.2 ((hsame.and hstarts).imp_of_mem ?_)
  intro p q hp hq hboth
  have hp := hsorted.mem_iff.1 hp
  have hq := hsorted.mem_iff.1 hq
  have hproper := hnested.proper q hq
  simp only [UInt64.le_iff_toNat_le, begin_spanRange table hruns all hp, begin_spanRange table hruns all hq,
    end_spanRange table hruns all hp, end_spanRange table hruns all hq]
  omega

end Shown

/-! ## Where the loop stops -/

section Stopping

variable {table : ProfilingSymbolTable} {t : ThreadProfilingData}

variable (table) in
/-- The loop on a thread that has calls and returns and whose returns all have a call. -/
theorem run_thread (hrecorded : t.Recorded) (hreturns : t.Returns) (hcalls : t.callEvents ≠ []) :
    ∃ w s taken calls' rets', Walk.run table t.callEvents t.retEvents .initial = .ok w ∧ Runs taken s ∧
      Follows table (t.callEvents.map (·.address)) w taken s ∧
      t.events = taken ++ (calls'.map CallEvent.event ++ rets'.map RetEvent.event) ∧
      ((calls' = [] ∧ rets' ≠ []) ∨ (calls' ≠ [] ∧ rets' = [])) ∧
      (calls' = [] → ∃ front c, taken = front ++ [CallEvent.event c]) := by
  rcases run_spec (.inl hcalls) (merged_increasing hrecorded) rfl .nil (@follows_initial table _) with
    ⟨-, hfailed⟩ | ⟨w, s, taken, calls', rets', hok, hruns, hfollows, hevents, hleft, -, hlast⟩
  · exact absurd hreturns hfailed
  · exact ⟨w, s, taken, calls', rets', hok, hruns, hfollows, hevents, hleft, hlast hcalls⟩

theorem callEvents_le_last (hrecorded : t.Recorded) {c : CallEvent} (hlast : t.callEvents.getLast? = some c) :
    ∀ c' ∈ t.callEvents, c'.tick.toNat ≤ c.tick.toNat := by
  obtain ⟨front, hfront⟩ := List.getLast?_eq_some_iff.1 hlast
  intro c' hc'
  have hpairwise := hrecorded.callEvents
  rw [hfront] at hpairwise hc'
  rcases List.mem_append.1 hc' with hc' | hc'
  · exact (UInt64.lt_iff_toNat_lt.1 ((List.pairwise_append.1 hpairwise).2.2 c' hc' c (by simp))).le
  · rw [List.mem_singleton.1 hc']

theorem retEvents_le_last (hrecorded : t.Recorded) {r : RetEvent} (hlast : t.retEvents.getLast? = some r) :
    ∀ r' ∈ t.retEvents, r'.tick.toNat ≤ r.tick.toNat := by
  obtain ⟨front, hfront⟩ := List.getLast?_eq_some_iff.1 hlast
  intro r' hr'
  have hpairwise := hrecorded.retEvents
  rw [hfront] at hpairwise hr'
  rcases List.mem_append.1 hr' with hr' | hr'
  · exact (UInt64.lt_iff_toNat_lt.1 ((List.pairwise_append.1 hpairwise).2.2 r' hr' r (by simp))).le
  · rw [List.mem_singleton.1 hr']

theorem mem_events_call {c : CallEvent} (hc : c ∈ t.callEvents) : c.event ∈ t.events :=
  (merged_perm _ _).mem_iff.2 (List.mem_append_left _ (List.mem_map_of_mem hc))

theorem mem_events_ret {r : RetEvent} (hr : r ∈ t.retEvents) : r.event ∈ t.events :=
  (merged_perm _ _).mem_iff.2 (List.mem_append_right _ (List.mem_map_of_mem hr))

theorem mem_callEvents {c : CallEvent} (hc : c.event ∈ t.events) : ∃ c' ∈ t.callEvents, c'.tick.toNat = c.tick.toNat := by
  obtain ⟨c', hc', htick, -⟩ := exists_call_of_opening hc
  exact ⟨c', hc', htick⟩

theorem mem_retEvents {r : RetEvent} (hr : r.event ∈ t.events) : r ∈ t.retEvents := by
  obtain ⟨r', hr', htick⟩ := exists_ret_of_closing hr
  have heq : r' = r := by
    cases r'
    cases r
    exact congrArg RetEvent.mk (UInt64.toNat_inj.1 htick)
  exact heq ▸ hr'

/-- The events that the loop has taken and those it has not: how many calls and returns there are of each. -/
theorem counts_of_taken {taken : List Event} {calls' : List CallEvent} {rets' : List RetEvent}
    (hevents : t.events = taken ++ (calls'.map CallEvent.event ++ rets'.map RetEvent.event)) :
    t.callEvents.length = taken.countP Event.opens + calls'.length ∧
    t.retEvents.length = taken.countP Event.closes + rets'.length := by
  have hopens := (merged_perm t.callEvents t.retEvents).countP_eq Event.opens
  have hcloses := (merged_perm t.callEvents t.retEvents).countP_eq Event.closes
  rw [countP_opens] at hopens
  rw [countP_closes] at hcloses
  have hopens' := congrArg (List.countP Event.opens) hevents
  have hcloses' := congrArg (List.countP Event.closes) hevents
  rw [List.countP_append, countP_opens] at hopens'
  rw [List.countP_append, countP_closes] at hcloses'
  exact ⟨hopens.symm.trans hopens', hcloses.symm.trans hcloses'⟩

/-- An event that a sequence of increasing times ends with is the latest. -/
theorem time_le_last {front : List Event} {last : Event} (htimes : (front ++ [last]).Pairwise fun e e' => e.time < e'.time) :
    ∀ e ∈ front ++ [last], e.time ≤ last.time := by
  intro e he
  rcases List.mem_append.1 he with he | he
  · exact ((List.pairwise_append.1 htimes).2.2 e he last (by simp)).le
  · rw [List.mem_singleton.1 he]

/-- The last call that the loop takes is the last call of the thread. -/
theorem last_call {front : List Event} {last c : CallEvent} {rets' : List RetEvent} (hrecorded : t.Recorded)
    (hevents : t.events = (front ++ [last.event]) ++ rets'.map RetEvent.event) (hc : t.callEvents.getLast? = some c) :
    last.tick.toNat = c.tick.toNat := by
  have htimes : t.events.Pairwise fun e e' => e.time < e'.time := merged_increasing hrecorded
  have hle : last.tick.toNat ≤ c.tick.toNat := by
    obtain ⟨c', hc', htick⟩ := mem_callEvents (t := t) (c := last) (by simp [hevents])
    exact htick ▸ callEvents_le_last hrecorded hc c' hc'
  have hge : c.tick.toNat ≤ last.tick.toNat := by
    have hmem := mem_events_call (List.mem_of_getLast? hc)
    rw [hevents] at hmem htimes
    rcases List.mem_append.1 hmem with hmem | hmem
    · exact time_le_last (List.pairwise_append.1 htimes).1 _ hmem
    · simp [RetEvent.event, CallEvent.event] at hmem
  exact le_antisymm hle hge

variable (table) in
/-- Where the last event returns, just after the last call, from the only call that is open, the loop leaves that call on the
stack and gives it the end it should have. -/
theorem run_complete (hrecorded : t.Recorded) (hreturns : t.Returns) (hlength : t.retEvents.length = t.callEvents.length)
    {c : CallEvent} {r : RetEvent} (hc : t.callEvents.getLast? = some c) (hr : t.retEvents.getLast? = some r)
    (hnext : r.tick.toNat = c.tick.toNat + 1) :
    ∃ w spans, Walk.run table t.callEvents t.retEvents .initial = .ok w ∧ Runs t.events ⟨[], spans⟩ ∧
      w.allRanges = spans.map (spanRange table (t.callEvents.map (·.address))) ∧
      w.symbols = symbolNames table (t.callEvents.map (·.address)) := by
  have hcmem := List.mem_of_getLast? hc
  have hrmem := List.mem_of_getLast? hr
  obtain ⟨w, s, taken, calls', rets', hok, hruns, hfollows, hevents, hleft, hlast⟩ :=
    run_thread table hrecorded hreturns (List.ne_nil_of_mem hcmem)
  have htimes : t.events.Pairwise fun e e' => e.time < e'.time := merged_increasing hrecorded
  obtain ⟨hopens, hcloses⟩ := counts_of_taken hevents
  rw [hevents] at htimes
  have hlater := (List.pairwise_append.1 htimes).2.2
  -- no call comes after the last return
  have hcalls' : calls' = [] := by
    by_contra hne
    obtain rfl : rets' = [] := hleft.elim (fun h => absurd h.1 hne) (·.2)
    obtain ⟨c', calls'', rfl⟩ := List.exists_cons_of_ne_nil hne
    have hrtaken : r.event ∈ taken := by
      have hmem := mem_events_ret hrmem
      rw [hevents] at hmem
      rcases List.mem_append.1 hmem with hmem | hmem
      · exact hmem
      · simp [RetEvent.event, CallEvent.event] at hmem
    have hlt : r.tick.toNat < c'.tick.toNat := hlater _ hrtaken c'.event (by simp)
    have hc' : c'.event ∈ t.events := by simp [hevents]
    obtain ⟨c'', hmem, htick⟩ := mem_callEvents hc'
    have hle := callEvents_le_last hrecorded hc c'' hmem
    omega
  subst hcalls'
  obtain ⟨front, last, rfl⟩ := hlast rfl
  have hlastevents : t.events = (front ++ [last.event]) ++ rets'.map RetEvent.event := by simpa using hevents
  have hlastcall := last_call hrecorded hlastevents hc
  -- the return just after the last call is the only one that the loop has not taken
  have hret : ∀ r' ∈ rets', r'.tick.toNat = c.tick.toNat + 1 := by
    intro r' hr'
    have hlt : last.tick.toNat < r'.tick.toNat := hlater last.event (by simp) r'.event (by simpa using ⟨r', hr', rfl⟩)
    have hmem : r'.event ∈ t.events := by
      rw [hevents]
      exact List.mem_append_right _ (by simpa using ⟨r', hr', rfl⟩)
    have hle := retEvents_le_last hrecorded hr r' (mem_retEvents hmem)
    omega
  obtain ⟨r', rfl⟩ : ∃ r', rets' = [r'] := by
    have hpairwise : rets'.Pairwise fun r r' => r.tick.toNat < r'.tick.toNat := by
      have hrets := (List.pairwise_append.1 htimes).2.1
      simp only [List.map_nil, List.nil_append, List.pairwise_map] at hrets
      exact hrets
    obtain ⟨r₁, rest, rfl⟩ := List.exists_cons_of_ne_nil (hleft.elim (·.2) fun h => absurd rfl h.1)
    cases rest with
    | nil => exact ⟨r₁, rfl⟩
    | cons r₂ rest =>
      have hlt := (List.pairwise_cons.1 hpairwise).1 r₂ (by simp)
      rw [hret r₁ (by simp), hret r₂ (by simp)] at hlt
      exact absurd hlt (lt_irrefl _)
  have htick := hret r' (by simp)
  have hopened : ∃ top, s.opened = [top] := by
    have hcounts := hruns.counts.1
    simp only [List.length_nil, List.length_singleton] at hopens hcloses
    exact List.length_eq_one_iff.1 (by omega)
  obtain ⟨top, htop⟩ := hopened
  obtain ⟨opened, closed⟩ := s
  subst htop
  have hmax : w.maxTick.toNat = c.tick.toNat := by
    rw [hfollows.maxTick, List.getLast?_concat]
    exact hlastcall
  have hend : w.maxTick + 1 = UInt64.ofNat r'.tick.toNat := by
    rw [UInt64.ofNat_toNat]
    refine UInt64.toNat_inj.1 ?_
    have hlt := r'.tick.toNat_lt
    simp [hmax, htick]
    omega
  have hallruns := hruns.closing r'.tick.toNat
  refine ⟨w, closed ++ [⟨top, r'.tick.toNat⟩], hok, ?_, ?_, ?_⟩
  · rw [hevents]
    exact hallruns
  · simp [Walk.allRanges, hfollows.profileRanges, hfollows.stack, spanRange, rangeOf, hend]
  · have hsame : addresses (front ++ [last.event]) = t.callEvents.map (·.address) := by
      have hall : addresses t.events = t.callEvents.map (·.address) := addresses_merged ..
      rw [hevents, addresses_append] at hall
      exact (List.append_nil _).symm.trans hall
    rw [hfollows.symbols, hsame]

/-- Two ways to cut a sequence where its times pass a bound are the same. -/
theorem append_eq_of_times {a b p q : List Event} {y : Event} {bound : Nat} (heq : a ++ b = p ++ y :: q)
    (ha : ∀ e ∈ a, e.time ≤ bound) (hb : ∀ e ∈ b, bound < e.time) (hp : ∀ e ∈ p, e.time ≤ bound) (hy : bound < y.time) :
    a = p ∧ b = y :: q := by
  rcases List.append_eq_append_iff.1 heq with ⟨m, rfl, hm⟩ | ⟨m, rfl, hm⟩
  · cases m with
    | nil => exact ⟨(List.append_nil _).symm, hm⟩
    | cons e m =>
      have hlow := hp e (by simp)
      have hhigh := hb e (by simp [hm])
      omega
  · cases m with
    | nil => exact ⟨List.append_nil _, hm.symm⟩
    | cons e m =>
      obtain ⟨rfl, -⟩ := List.cons.inj hm
      have hlow := ha y (by simp)
      omega

/-- What the viewer gives a call that the loop leaves on the stack is right only for the last call of the thread, when the return
just after it is its own. -/
theorem open_call_right {front : List Event} {last : CallEvent} {r : RetEvent} {rets : List RetEvent} {begin : Nat}
    (hrecorded : t.Recorded) (hevents : t.events = (front ++ [last.event]) ++ (r :: rets).map RetEvent.event)
    (hends : t.EndsAt begin (last.tick.toNat + 1)) : begin = last.tick.toNat ∧ r.tick.toNat = last.tick.toNat + 1 := by
  have htimes : t.events.Pairwise fun e e' => e.time < e'.time := merged_increasing hrecorded
  have hearly : ∀ e ∈ front ++ [last.event], e.time ≤ last.tick.toNat := by
    rw [hevents] at htimes
    exact time_le_last (List.pairwise_append.1 htimes).1
  have hlate : ∀ e ∈ (r :: rets).map RetEvent.event, last.tick.toNat < e.time := by
    rw [hevents] at htimes
    exact fun e he => (List.pairwise_append.1 htimes).2.2 last.event (by simp) e he
  rcases hends with ⟨before, a, between, after, hmatch, heven⟩ | ⟨-, hend⟩
  · -- what comes before the return is what the loop has taken, and it ends with a call
    have hcut : (before ++ .opening begin a :: between) ++ .closing (last.tick.toNat + 1) :: after = t.events := by
      rw [hmatch]
      simp
    have hbefore : ∀ e ∈ before ++ .opening begin a :: between, e.time ≤ last.tick.toNat := by
      rw [← hcut] at htimes
      intro e he
      exact Nat.lt_succ_iff.1 ((List.pairwise_append.1 htimes).2.2 e he (.closing (last.tick.toNat + 1)) (by simp))
    obtain ⟨htaken, hret⟩ := append_eq_of_times (hevents.symm.trans hcut.symm) hearly hlate hbefore (Nat.lt_succ_self _)
    rcases List.eq_nil_or_concat between with rfl | ⟨between, e, rfl⟩
    · obtain ⟨-, hsame⟩ := List.append_inj' htaken rfl
      obtain ⟨hsame, -⟩ := List.cons.inj hsame
      obtain ⟨hfirst, -⟩ := List.cons.inj hret
      exact ⟨(congrArg Event.time hsame).symm, congrArg Event.time hfirst⟩
    · have hsplit : front ++ [last.event] = (before ++ .opening begin a :: between) ++ [e] := by simpa using htaken
      obtain ⟨-, hsame⟩ := List.append_inj' hsplit rfl
      obtain ⟨rfl, -⟩ := List.cons.inj hsame
      exact (heven.ne_concat (m := between) last.tick.toNat last.address (by simp [CallEvent.event])).elim
  · have hlasttick : last.tick.toNat < t.lastTick := by
      obtain ⟨e, he⟩ := Option.isSome_iff_exists.1 (List.getLast?_isSome.2 (List.cons_ne_nil r.event (rets.map RetEvent.event)))
      have hlt := hlate e (by simpa using List.mem_of_getLast? he)
      simpa [ThreadProfilingData.lastTick, hevents, List.getLast?_append, he] using hlt
    omega

end Stopping

/-! ## When the viewer shows the call tree -/

/-- The last event of the thread is the return just after its last call, and every call has returned. -/
def ThreadProfilingData.EndsWithReturn (t : ThreadProfilingData) : Prop :=
  t.retEvents.length = t.callEvents.length ∧
  ∃ c r, t.callEvents.getLast? = some c ∧ t.retEvents.getLast? = some r ∧ r.tick.toNat = c.tick.toNat + 1

/-- At every call fewer than `2 ^ 32` calls are open. -/
def ThreadProfilingData.DepthsFit (t : ThreadProfilingData) : Prop :=
  ∀ before c after, t.events = before ++ CallEvent.event c :: after →
    before.countP Event.opens - before.countP Event.closes < 2 ^ 32

/-- The symbols of the called addresses keep their name when their index is cut to 32 bits. -/
def SymbolsFit (table : ProfilingSymbolTable) (t : ThreadProfilingData) : Prop :=
  let names := symbolNames table (t.callEvents.map (·.address))
  ∀ k < names.length, names[k % 2 ^ 32]? = names[k]?

section Exact

variable {data : ProfilingData} {t : ThreadProfilingData} {rest : List ThreadProfilingData}

/-- A thread that does not return has no return without a call. -/
theorem returns_of_no_returns (hrets : t.retEvents = []) : t.Returns := by
  intro p hp
  have hcloses : p.countP Event.closes ≤ t.events.countP Event.closes := hp.sublist.countP_le
  rw [ThreadProfilingData.events, (merged_perm _ _).countP_eq, countP_closes, hrets] at hcloses
  simp only [List.length_nil] at hcloses
  omega

theorem depthsFit_iff {spans : List (Span Nat UInt64)} (hruns : Runs t.events ⟨[], spans⟩) :
    t.DepthsFit ↔ ∀ p ∈ spans, p.depth < 2 ^ 32 := by
  constructor
  · intro hfit p hp
    obtain ⟨before, after, hsplit, hdepth⟩ := hruns.opening_of_mem (.inr ⟨p, hp, rfl⟩)
    have hmem : Event.opening p.start p.item ∈ t.events := by simp [hsplit]
    obtain ⟨c, -, hc, haddress⟩ := exists_call_of_opening hmem
    have hevent : Event.opening p.start p.item = c.event := by rw [CallEvent.event, hc, haddress]
    rw [hdepth]
    exact hfit before c after (hevent ▸ hsplit)
  · intro hfit before c after hsplit
    obtain ⟨e, he, -, hdepth⟩ := hruns.depth hsplit
    rcases he with he | ⟨p, hp, rfl⟩
    · simp at he
    · exact hdepth ▸ hfit p hp

theorem symbolsFit_iff {table : ProfilingSymbolTable} : SymbolsFit table t ↔ ∀ c ∈ t.callEvents,
    (symbolNames table (t.callEvents.map (·.address)))[
      symbolPosition table (t.callEvents.map (·.address)) c.address % 2 ^ 32]? = some (symbolName table c.address) := by
  constructor
  · intro hfit c hc
    have hmem : c.address ∈ t.callEvents.map (·.address) := List.mem_map.2 ⟨c, hc, rfl⟩
    have hget := symbolNames_position table hmem
    rw [hfit _ (List.getElem?_eq_some_iff.1 hget).1]
    exact hget
  · intro hfit k hk
    rcases Nat.eq_zero_or_pos k with rfl | hpos
    · rfl
    · obtain ⟨a, ha, rfl⟩ := exists_symbolPosition hpos hk
      obtain ⟨c, hc, rfl⟩ := List.mem_map.1 ha
      rw [hfit c hc, symbolNames_position _ ha]

/-- Where every call has returned, the ranges are the call tree when depths and symbol indices fit. -/
theorem isCallTree_iff {table : ProfilingSymbolTable} {spans sorted : List (Span Nat UInt64)} {d : AllProfileData}
    (hrecorded : t.Recorded) (hruns : Runs t.events ⟨[], spans⟩) (hsorted : Sorted table t spans sorted)
    (hranges : d.profileRanges = sorted.map (spanRange table (t.callEvents.map (·.address))))
    (hsymbols : d.symbols = symbolNames table (t.callEvents.map (·.address))) :
    IsCallTree table t d ↔ t.DepthsFit ∧ SymbolsFit table t := by
  have hmatched : List.Forall₂ (fun c p => (c.tick.toNat, c.address) = (p.start, p.item)) t.callEvents sorted := by
    have hheads : List.Forall₂ (· = ·) (t.callEvents.map fun c => (c.tick.toNat, c.address))
        (sorted.map fun p => (p.start, p.item)) := by
      rw [List.forall₂_eq_eq_eq]
      exact hsorted.heads.symm
    simpa only [List.forall₂_map_left_iff, List.forall₂_map_right_iff] using hheads
  have hzip := List.forall₂_iff_zip.1 hmatched
  -- what the tree asks of a call and its span is that the two indices fit
  have hone : ∀ c p, (c, p) ∈ t.callEvents.zip sorted →
      (((spanRange table (t.callEvents.map (·.address)) p).range.begin = c.tick ∧
        t.EndsAt c.tick.toNat (spanRange table (t.callEvents.map (·.address)) p).range.end_.toNat ∧
        d.symbols[(spanRange table (t.callEvents.map (·.address)) p).symbolIndex.toNat]? = some (symbolName table c.address) ∧
        (spanRange table (t.callEvents.map (·.address)) p).depth.toNat =
          d.profileRanges.countP fun q => q.encloses (spanRange table (t.callEvents.map (·.address)) p)) ↔
      (symbolNames table (t.callEvents.map (·.address)))[
        symbolPosition table (t.callEvents.map (·.address)) c.address % 2 ^ 32]? = some (symbolName table c.address) ∧
      p.depth < 2 ^ 32) := by
    intro c p hcp
    obtain ⟨htick, haddress⟩ := Prod.mk.inj (hzip.2 hcp)
    have hp : p ∈ spans := hsorted.perm.mem_iff.1 (List.of_mem_zip hcp).2
    have hbegin : (spanRange table (t.callEvents.map (·.address)) p).range.begin = c.tick :=
      UInt64.toNat_inj.1 ((begin_spanRange _ hruns _ hp).trans htick.symm)
    have hends : t.EndsAt c.tick.toNat (spanRange table (t.callEvents.map (·.address)) p).range.end_.toNat := by
      rw [end_spanRange table hruns _ hp, htick]
      exact .inl (hruns.matches p hp)
    have hindex : (spanRange table (t.callEvents.map (·.address)) p).symbolIndex.toNat =
        symbolPosition table (t.callEvents.map (·.address)) c.address % 2 ^ 32 := by
      rw [haddress]
      exact UInt32.toNat_ofNat'
    have hdepth : (spanRange table (t.callEvents.map (·.address)) p).depth.toNat = p.depth % 2 ^ 32 := UInt32.toNat_ofNat'
    rw [hranges, countP_encloses hrecorded hruns hsorted.perm hp, hsymbols, hindex, hdepth]
    constructor
    · rintro ⟨-, -, hname, hfits⟩
      exact ⟨hname, hfits ▸ Nat.mod_lt _ (Nat.two_pow_pos 32)⟩
    · rintro ⟨hname, hfits⟩
      exact ⟨hbegin, hends, hname, Nat.mod_eq_of_lt hfits⟩
  have hpairs : List.Forall₂ (fun c p => (c, p) ∈ t.callEvents.zip sorted) t.callEvents sorted :=
    List.forall₂_iff_zip.2 ⟨hzip.1, fun h => h⟩
  constructor
  · intro htree
    have hforall := htree.ranges
    rw [hranges, List.forall₂_map_right_iff, ← hranges] at hforall
    have hboth := List.forall₂_iff_zip.1 hforall
    constructor
    · rw [depthsFit_iff hruns]
      intro p hp
      obtain ⟨c, -, hc⟩ := Outcome.exists_of_forall₂_right hpairs (hsorted.perm.mem_iff.2 hp)
      exact ((hone c p hc).1 (hboth.2 hc)).2
    · rw [symbolsFit_iff]
      intro c hc
      obtain ⟨p, -, hp⟩ := Outcome.exists_of_forall₂_left hpairs hc
      exact ((hone c p hp).1 (hboth.2 hp)).1
  · rintro ⟨hdepths, hnames⟩
    rw [depthsFit_iff hruns] at hdepths
    rw [symbolsFit_iff] at hnames
    constructor
    · rw [hranges, List.forall₂_map_right_iff, ← hranges]
      refine List.forall₂_iff_zip.2 ⟨hzip.1, ?_⟩
      intro c p hcp
      have hmem := List.of_mem_zip hcp
      exact (hone c p hcp).2 ⟨hnames c hmem.1, hdepths p (hsorted.perm.mem_iff.1 hmem.2)⟩
    · rw [hranges]
      exact ranges_nested hrecorded hruns hsorted.perm hsorted.starts

/-- Ranges for all calls end where they should only when the thread ends with the return of its last call. -/
theorem endsWithReturn_of_shown (hdata : data.threadProfilingData = t :: rest) (hrecorded : t.Recorded)
    (hreturns : t.Returns) {d : AllProfileData} (hd : tryCreate data = .ok (some d))
    (htree : IsCallTree data.symbolTable t d) : t.EndsWithReturn := by
  have hcalls : t.callEvents ≠ [] := fun hempty => by simp [tryCreate_of_empty hdata (.inl hempty)] at hd
  have hrets : t.retEvents ≠ [] := fun hempty => by simp [tryCreate_of_empty hdata (.inr hempty)] at hd
  obtain ⟨w, s, taken, calls', rets', hok, hruns, hfollows, hevents, hleft, hlast⟩ :=
    run_thread data.symbolTable hrecorded hreturns hcalls
  obtain ⟨hopens, hcloses⟩ := counts_of_taken hevents
  have hcounts := hruns.counts
  have hlengths : w.allRanges.length = taken.countP Event.opens := by
    simp [Walk.allRanges, hfollows.profileRanges, hfollows.stack]
    omega
  have hsome : 0 < taken.countP Event.opens := by
    have hcallslength := List.length_pos_iff.2 hcalls
    have hretslength := List.length_pos_iff.2 hrets
    rcases hleft with ⟨rfl, -⟩ | ⟨-, rfl⟩
    · simp only [List.length_nil] at hopens
      omega
    · simp only [List.length_nil] at hcloses
      omega
  obtain ⟨d', hd', hranges, -⟩ := tryCreate_of_run hdata hcalls hrets hok (List.length_pos_iff.1 (hlengths ▸ hsome))
  obtain rfl : d' = d := Option.some.inj (Except.ok.inj (hd'.symm.trans hd))
  have hperm : d'.profileRanges.Perm w.allRanges := hranges ▸ List.perm_insertionSort ..
  -- every call has a range, so that the loop has taken every call
  obtain rfl : calls' = [] := by
    have hsame := htree.ranges.length_eq.trans hperm.length_eq
    exact List.length_eq_zero_iff.1 (by omega)
  obtain ⟨front, last, rfl⟩ := hlast rfl
  obtain ⟨r, rets, rfl⟩ := List.exists_cons_of_ne_nil (hleft.elim (·.2) fun h => absurd rfl h.1)
  have hsplit : t.events = (front ++ [last.event]) ++ (r :: rets).map RetEvent.event := by simpa using hevents
  have htimes : t.events.Pairwise fun e e' => e.time < e'.time := merged_increasing hrecorded
  have hmax : w.maxTick.toNat = last.tick.toNat := by
    rw [hfollows.maxTick, List.getLast?_concat]
    rfl
  have hend : (w.maxTick + 1).toNat = last.tick.toNat + 1 := by
    have hlt : last.tick.toNat < r.tick.toNat := by
      rw [hsplit] at htimes
      exact (List.pairwise_append.1 htimes).2.2 last.event (by simp) r.event (by simp)
    have hbound := r.tick.toNat_lt
    simp [hmax]
    omega
  -- a call that is still open begins with the last call, and the return just after that is the next
  have hopen : ∀ e ∈ s.opened, e.start = last.tick.toNat ∧ r.tick.toNat = last.tick.toNat + 1 := by
    intro e he
    have hmem : rangeOf data.symbolTable (t.callEvents.map (·.address)) e (w.maxTick + 1) ∈ d'.profileRanges := by
      refine hperm.mem_iff.2 (List.mem_append_right _ ?_)
      rw [hfollows.stack]
      simp only [List.map_map, List.mem_map]
      exact ⟨e, he, rfl⟩
    obtain ⟨c, hc, hbegin, hends, -, -⟩ := Outcome.exists_of_forall₂_right htree.ranges hmem
    have hstart : c.tick.toNat = e.start := by
      have hopened : (e.start, e.item) ∈ (front ++ [last.event]).filterMap Event.opened? :=
        hruns.perm.mem_iff.1 (List.mem_append_right _ (List.mem_map.2 ⟨e, he, rfl⟩))
      obtain ⟨x, hx, heq⟩ := List.mem_filterMap.1 hopened
      cases x with
      | closing t' => cases heq
      | opening t' a =>
        cases heq
        have hxevents : .opening e.start e.item ∈ t.events := by
          rw [hsplit]
          exact List.mem_append_left _ hx
        obtain ⟨c', -, hc', -⟩ := exists_call_of_opening hxevents
        rw [← hbegin, ← hc']
        simp [rangeOf, ← hc']
    have hends : t.EndsAt c.tick.toNat (w.maxTick + 1).toNat := hends
    rw [hend, hstart] at hends
    exact open_call_right hrecorded hsplit hends
  have hone : s.opened.length ≤ 1 := by
    have hnested := ((hruns.nested (by
      rw [hsplit] at htimes
      exact (List.pairwise_append.1 htimes).1)).opened)
    rcases hstack : s.opened with _ | ⟨e₁, _ | ⟨e₂, es⟩⟩
    · exact Nat.zero_le _
    · exact Nat.le_refl _
    · rw [hstack] at hnested
      have hlt := (List.pairwise_cons.1 hnested).1 e₂ (by simp)
      rw [(hopen e₁ (by simp [hstack])).1, (hopen e₂ (by simp [hstack])).1] at hlt
      exact absurd hlt (lt_irrefl _)
  have hbalanced : t.retEvents.length ≤ t.callEvents.length := by
    have hle := hreturns.le
    rwa [ThreadProfilingData.events, (merged_perm _ _).countP_eq, (merged_perm _ _).countP_eq, countP_opens,
      countP_closes] at hle
  simp only [List.length_nil, List.length_cons] at hopens hcloses
  obtain rfl : rets = [] := List.length_eq_zero_iff.1 (by omega)
  simp only [List.length_nil] at hcloses
  obtain ⟨e, he⟩ : ∃ e, e ∈ s.opened := List.exists_mem_of_length_pos (by omega)
  obtain ⟨c, hc⟩ := Option.isSome_iff_exists.1 (List.getLast?_isSome.2 hcalls)
  obtain ⟨r', hr'⟩ := Option.isSome_iff_exists.1 (List.getLast?_isSome.2 hrets)
  have hlastcall := last_call hrecorded hsplit hc
  have hlastret : r'.tick.toNat = r.tick.toNat := by
    have hrmem : r.event ∈ t.events := by simp [hsplit]
    have hge := retEvents_le_last hrecorded hr' r (mem_retEvents hrmem)
    have hmem := mem_events_ret (List.mem_of_getLast? hr')
    rw [hsplit] at hmem htimes
    have hle := time_le_last htimes _ hmem
    exact le_antisymm hle hge
  refine ⟨by omega, c, r', hc, hr', ?_⟩
  rw [hlastret, ← hlastcall]
  exact (hopen e he).2

/-- The viewer shows the call tree of a thread whose returns all have a call exactly if the thread ends with the return just after
its last call, from everything it called, and depths and symbol indices fit. It shows nothing for a thread with a return that has
no call exactly if that thread calls nothing. -/
theorem showsCallTree_iff (hdata : data.threadProfilingData = t :: rest) (hrecorded : t.Recorded) :
    ShowsCallTree data t ↔
      (t.Returns → t.EndsWithReturn ∧ t.DepthsFit ∧ SymbolsFit data.symbolTable t) ∧
      (¬ t.Returns → t.callEvents = []) := by
  have hcomplete : t.Returns → t.EndsWithReturn → ∃ d, tryCreate data = .ok (some d) ∧
      (IsCallTree data.symbolTable t d ↔ t.DepthsFit ∧ SymbolsFit data.symbolTable t) := by
    rintro hreturns ⟨hlength, c, r, hc, hr, hnext⟩
    obtain ⟨w, spans, hok, hruns, hranges, hsymbols⟩ :=
      run_complete data.symbolTable hrecorded hreturns hlength hc hr hnext
    obtain ⟨sorted, hsorted⟩ := exists_sorted data.symbolTable hrecorded hruns
    have hcalls := List.ne_nil_of_mem (List.mem_of_getLast? hc)
    have hne : w.allRanges ≠ [] := by
      intro hnil
      have hlengths := congrArg List.length hsorted.heads
      rw [hranges, List.map_eq_nil_iff] at hnil
      rw [List.length_map, List.length_map, hsorted.perm.length_eq, hnil] at hlengths
      exact hcalls (List.length_eq_zero_iff.1 hlengths.symm)
    obtain ⟨d, hd, hdranges, hdsymbols⟩ :=
      tryCreate_of_run hdata hcalls (List.ne_nil_of_mem (List.mem_of_getLast? hr)) hok hne
    rw [hranges, hsorted.ranges] at hdranges
    exact ⟨d, hd, isCallTree_iff hrecorded hruns hsorted hdranges (hdsymbols.trans hsymbols)⟩
  constructor
  · rintro ⟨hshown, hfailed⟩
    constructor
    · intro hreturns
      obtain ⟨d, hd, htree⟩ := hshown hreturns
      have hends := endsWithReturn_of_shown hdata hrecorded hreturns hd htree
      obtain ⟨d', hd', hiff⟩ := hcomplete hreturns hends
      obtain rfl : d' = d := Option.some.inj (Except.ok.inj (hd'.symm.trans hd))
      exact ⟨hends, hiff.1 htree⟩
    · intro hreturns
      have hnone := hfailed hreturns
      by_contra hcalls
      exact tryCreate_ne_none hdata hcalls (fun hempty => hreturns (returns_of_no_returns hempty)) hnone
  · rintro ⟨hshown, hfailed⟩
    constructor
    · intro hreturns
      obtain ⟨hends, hfits⟩ := hshown hreturns
      obtain ⟨d, hd, hiff⟩ := hcomplete hreturns hends
      exact ⟨d, hd, hiff.2 hfits⟩
    · intro hreturns
      exact tryCreate_of_empty hdata (.inl (hfailed hreturns))

/-- Fewer than `2 ^ 32` calls: the depths and the symbol indices fit. -/
theorem fits_of_length (table : ProfilingSymbolTable) (hlength : t.callEvents.length < 2 ^ 32) :
    t.DepthsFit ∧ SymbolsFit table t := by
  constructor
  · intro before c after hsplit
    have hopens : before.countP Event.opens ≤ t.events.countP Event.opens := by
      rw [hsplit, List.countP_append]
      exact Nat.le_add_right ..
    rw [ThreadProfilingData.events, (merged_perm _ _).countP_eq, countP_opens] at hopens
    omega
  · intro k hk
    have hnames := length_namedAddresses_le table (t.callEvents.map (·.address))
    rw [length_symbolNames] at hk
    rw [List.length_map] at hnames
    rw [Nat.mod_eq_of_lt (by omega)]

end Exact

/-- A thread that calls two functions, one from the other, and the first of them again. -/
def threeCalls : ThreadProfilingData where
  callEvents := [⟨1, 0x1000⟩, ⟨2, 0x2000⟩, ⟨5, 0x1000⟩]
  retEvents := [⟨3⟩, ⟨4⟩, ⟨6⟩]
  syscallEvents := []

/-- A thread that takes some time between its only call and its return. -/
def lateReturn : ThreadProfilingData where
  callEvents := [⟨1, 0x1000⟩]
  retEvents := [⟨5⟩]
  syscallEvents := []

def recording (t : ThreadProfilingData) : ProfilingData := ⟨[t], ⟨[(0x1000, "main")]⟩⟩

theorem threeCalls_recorded : threeCalls.Recorded := by constructor <;> decide

theorem lateReturn_recorded : lateReturn.Recorded := by constructor <;> decide

theorem threeCalls_returns : threeCalls.Returns := by
  have hevents : threeCalls.events =
      [.opening 1 0x1000, .opening 2 0x2000, .closing 3, .closing 4, .opening 5 0x1000, .closing 6] := by
    simp [ThreadProfilingData.events, threeCalls, merged_cons, merged_nil_left, CallEvent.event, RetEvent.event]
  rw [ThreadProfilingData.Returns, hevents]
  decide

theorem lateReturn_returns : lateReturn.Returns := by
  have hevents : lateReturn.events = [.opening 1 0x1000, .closing 5] := by
    simp [ThreadProfilingData.events, lateReturn, merged_cons, merged_nil_left, CallEvent.event, RetEvent.event]
  rw [ThreadProfilingData.Returns, hevents]
  decide

/-- The viewer shows the call tree of the three calls. -/
theorem threeCalls_shown : ShowsCallTree (recording threeCalls) threeCalls := by
  have hends : threeCalls.EndsWithReturn := ⟨rfl, _, _, rfl, rfl, by decide⟩
  refine (showsCallTree_iff rfl threeCalls_recorded).2 ⟨fun _ => ⟨hends, ?_⟩, fun h => absurd threeCalls_returns h⟩
  exact fits_of_length _ (by decide)

/-- The range of a call that returns after some time ends just after the call. -/
theorem lateReturn_wrong : lateReturn.Recorded ∧ ¬ ShowsCallTree (recording lateReturn) lateReturn := by
  refine ⟨lateReturn_recorded, fun hshown => ?_⟩
  obtain ⟨d, hd, htree⟩ := hshown.1 lateReturn_returns
  obtain ⟨-, c, r, hc, hr, hnext⟩ := endsWithReturn_of_shown rfl lateReturn_recorded lateReturn_returns hd htree
  cases hc
  cases hr
  exact absurd hnext (by decide)

end Profile
end X64Emulator
