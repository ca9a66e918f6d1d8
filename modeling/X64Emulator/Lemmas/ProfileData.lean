import X64Emulator.ProfileData
import X64Emulator.Lib.Nesting
import Mathlib.Data.List.Sort

/-!
# The walk over the events of a thread

The two kinds of events, put together in the order of their ticks, open and close ranges. The loop follows the stack of that
sequence as far as both kinds last: its ranges are the spans of the stack, and its symbols those of the addresses called.
-/

namespace X64Emulator
namespace Profile

open Nesting

/-- An event of a thread: a call opens the range of its address, and a return closes what was called last. -/
abbrev Event := Nesting.Event Nat UInt64

def CallEvent.event (e : CallEvent) : Event := .opening e.tick.toNat e.address

def RetEvent.event (e : RetEvent) : Event := .closing e.tick.toNat

/-- Calls and returns in the order of their ticks. -/
def merged (calls : List CallEvent) (rets : List RetEvent) : List Event :=
  (calls.map CallEvent.event).merge (rets.map RetEvent.event) fun a b => a.time ≤ b.time

/-- The addresses called, in the order of the calls. -/
def addresses (l : List Event) : List UInt64 := (l.filterMap Event.opened?).map (·.2)

theorem merged_nil_left (rets : List RetEvent) : merged [] rets = rets.map RetEvent.event := by simp [merged]

theorem merged_nil_right (calls : List CallEvent) : merged calls [] = calls.map CallEvent.event := by simp [merged]

theorem merged_cons {c : CallEvent} {r : RetEvent} {calls : List CallEvent} {rets : List RetEvent} :
    merged (c :: calls) (r :: rets) =
      if c.tick.toNat ≤ r.tick.toNat then c.event :: merged calls (r :: rets) else r.event :: merged (c :: calls) rets := by
  unfold merged
  rw [List.map_cons, List.map_cons, List.cons_merge_cons]
  by_cases h : c.tick.toNat ≤ r.tick.toNat
  · rw [if_pos h]
    exact if_pos (decide_eq_true h)
  · rw [if_neg h]
    exact if_neg fun hle => h (of_decide_eq_true hle)

theorem merged_perm (calls : List CallEvent) (rets : List RetEvent) :
    (merged calls rets).Perm (calls.map CallEvent.event ++ rets.map RetEvent.event) := List.merge_perm_append _

@[simp] theorem addresses_append (l m : List Event) : addresses (l ++ m) = addresses l ++ addresses m := by
  simp [addresses]

@[simp] theorem addresses_call (c : CallEvent) : addresses [c.event] = [c.address] := rfl

@[simp] theorem addresses_ret (r : RetEvent) : addresses [r.event] = [] := rfl

@[simp] theorem addresses_calls (calls : List CallEvent) :
    addresses (calls.map CallEvent.event) = calls.map (·.address) := by
  induction calls with
  | nil => rfl
  | cons c calls ih => simpa [addresses, CallEvent.event, Event.opened?] using ih

@[simp] theorem addresses_rets (rets : List RetEvent) : addresses (rets.map RetEvent.event) = [] := by
  induction rets with
  | nil => rfl
  | cons r rets ih => simp [addresses, RetEvent.event, Event.opened?]

/-! ## Symbols -/

section Symbols

variable (table : ProfilingSymbolTable)

/-- The addresses that have a symbol, each where it comes first. -/
def namedAddresses (as : List UInt64) : List UInt64 := as.eraseDups.filter fun a => (table.findSymbol a).isSome

/-- The symbols of the viewer: the unknown one, and those of the addresses. -/
def symbolNames (as : List UInt64) : List String := "???" :: (namedAddresses table as).filterMap table.findSymbol

/-- The symbol of an address. -/
def symbolName (a : UInt64) : String := (table.findSymbol a).getD "???"

/-- Where the symbol of an address stands. -/
def symbolPosition (as : List UInt64) (a : UInt64) : Nat :=
  if (table.findSymbol a).isSome then (namedAddresses table as).idxOf a + 1 else 0

variable {table} {as bs : List UInt64} {a : UInt64}

theorem mem_namedAddresses : a ∈ namedAddresses table as ↔ a ∈ as ∧ (table.findSymbol a).isSome = true := by
  simp [namedAddresses]

theorem eraseDups_singleton : [a].eraseDups = [a] := by simp [List.eraseDups_cons]

theorem eraseDups_concat : (as ++ [a]).eraseDups = if a ∈ as then as.eraseDups else as.eraseDups ++ [a] := by
  rw [List.eraseDups_append]
  split
  · next ha => simp [List.removeAll, ha]
  · next ha => simp [List.removeAll, ha, eraseDups_singleton]

theorem nodup_eraseDups (as : List UInt64) : as.eraseDups.Nodup := by
  induction as using List.reverseRecOn with
  | nil => simp
  | append_singleton as a ih =>
    rw [eraseDups_concat]
    split
    · exact ih
    · next ha =>
      refine List.nodup_append.2 ⟨ih, List.nodup_singleton a, ?_⟩
      intro b hb c hc hbc
      rw [hbc, List.mem_singleton.1 hc, List.mem_eraseDups] at hb
      exact ha hb

variable (table) in
theorem length_namedAddresses_le (as : List UInt64) : (namedAddresses table as).length ≤ as.length := by
  refine (List.length_filter_le ..).trans ?_
  induction as using List.reverseRecOn with
  | nil => simp
  | append_singleton as a ih =>
    rw [eraseDups_concat, List.length_append]
    split
    · exact Nat.le_add_right_of_le ih
    · simpa using ih

theorem namedAddresses_append :
    namedAddresses table (as ++ bs) = namedAddresses table as ++ namedAddresses table (bs.removeAll as) := by
  simp [namedAddresses, List.eraseDups_append]

theorem symbolNames_of_mem (ha : a ∈ as) : symbolNames table (as ++ [a]) = symbolNames table as := by
  simp only [symbolNames, namedAddresses, eraseDups_concat, ha, if_true]

theorem symbolNames_of_not_mem (ha : a ∉ as) :
    symbolNames table (as ++ [a]) = symbolNames table as ++ (table.findSymbol a).toList := by
  cases hfind : table.findSymbol a with
  | none => simp [symbolNames, namedAddresses, eraseDups_concat, ha, hfind]
  | some name => simp [symbolNames, namedAddresses, eraseDups_concat, ha, hfind]

theorem length_symbolNames : (symbolNames table as).length = (namedAddresses table as).length + 1 := by
  have hall : ∀ l : List UInt64, (∀ a ∈ l, (table.findSymbol a).isSome = true) →
      (l.filterMap table.findSymbol).length = l.length := by
    intro l hl
    induction l with
    | nil => rfl
    | cons a l ih =>
      obtain ⟨name, hname⟩ := Option.isSome_iff_exists.1 (hl a List.mem_cons_self)
      simp [hname, ih fun b hb => hl b (List.mem_cons_of_mem _ hb)]
  simp [symbolNames, hall _ fun a ha => (mem_namedAddresses.1 ha).2]

theorem symbolPosition_append (ha : a ∈ as) : symbolPosition table (as ++ bs) a = symbolPosition table as a := by
  unfold symbolPosition
  split
  · next hsome =>
    rw [namedAddresses_append, List.idxOf_append_of_mem (mem_namedAddresses.2 ⟨ha, hsome⟩)]
  · rfl

/-- An address that is new gets the place after the symbols there are. -/
theorem symbolPosition_new {name : String} (ha : a ∉ as) (hname : table.findSymbol a = some name) :
    symbolPosition table (as ++ [a]) a = (symbolNames table as).length := by
  have hnot : a ∉ namedAddresses table as := fun h => ha (mem_namedAddresses.1 h).1
  have hone : namedAddresses table [a] = [a] := by simp [namedAddresses, eraseDups_singleton, hname]
  have hrest : [a].removeAll as = [a] := by simp [List.removeAll, ha]
  rw [symbolPosition, hname, namedAddresses_append, hrest, hone, length_symbolNames,
    List.idxOf_append_of_notMem hnot]
  simp

theorem getElem?_filterMap_of_isSome {l : List UInt64} (hl : ∀ a ∈ l, (table.findSymbol a).isSome = true) (i : Nat) :
    (l.filterMap table.findSymbol)[i]? = l[i]?.bind table.findSymbol := by
  induction l generalizing i with
  | nil => simp
  | cons a l ih =>
    obtain ⟨name, hname⟩ := Option.isSome_iff_exists.1 (hl a List.mem_cons_self)
    rw [List.filterMap_cons, hname]
    cases i with
    | zero => simp [hname]
    | succ i => simpa using ih (fun b hb => hl b (List.mem_cons_of_mem _ hb)) i

variable (table) in
/-- The symbol of an address stands at its position. -/
theorem symbolNames_position (ha : a ∈ as) : (symbolNames table as)[symbolPosition table as a]? = some (symbolName table a) := by
  unfold symbolPosition symbolName
  cases hname : table.findSymbol a with
  | none => rfl
  | some name =>
    have hmem : a ∈ namedAddresses table as := mem_namedAddresses.2 ⟨ha, by simp [hname]⟩
    have hall : ∀ b ∈ namedAddresses table as, (table.findSymbol b).isSome = true := fun b hb => (mem_namedAddresses.1 hb).2
    have hget := getElem?_filterMap_of_isSome hall ((namedAddresses table as).idxOf a)
    rw [List.getElem?_idxOf hmem] at hget
    simpa [symbolNames, hname] using hget

/-- Every position but the first is that of an address. -/
theorem exists_symbolPosition {k : Nat} (hk : 0 < k) (hlt : k < (symbolNames table as).length) :
    ∃ a ∈ as, symbolPosition table as a = k := by
  rw [length_symbolNames] at hlt
  have hlt' : k - 1 < (namedAddresses table as).length := by omega
  have hmem := mem_namedAddresses.1 (List.getElem_mem hlt')
  refine ⟨_, hmem.1, ?_⟩
  have hnodup : (namedAddresses table as).Nodup := (nodup_eraseDups as).filter _
  rw [symbolPosition, if_pos hmem.2, hnodup.idxOf_getElem]
  omega

end Symbols

/-! ## The loop -/

section Loop

variable (table : ProfilingSymbolTable) (all : List UInt64)

/-- The range of something that was called, where `all` are the addresses called in the whole sequence. -/
def rangeOf (e : Entry Nat UInt64) (end_ : UInt64) : ProfileRange :=
  ⟨⟨UInt64.ofNat e.start, end_⟩, UInt32.ofNat (symbolPosition table all e.item), UInt32.ofNat e.depth⟩

/-- The range of something that returned. -/
def spanRange (p : Span Nat UInt64) : ProfileRange := rangeOf table all p.toEntry (UInt64.ofNat p.stop)

/-- The variables of the loop after a sequence of events that leads to a stack. -/
structure Follows (w : Walk) (l : List Event) (s : Stack Nat UInt64) : Prop where
  stack : w.stack = s.opened.map fun e => rangeOf table all e 0xffffffffffffffff
  profileRanges : w.profileRanges = s.closed.map (spanRange table all)
  symbols : w.symbols = symbolNames table (addresses l)
  known : ∀ a, w.addressToSymbolIndex.lookup a =
    if a ∈ addresses l then some (UInt32.ofNat (symbolPosition table all a)) else none
  maxTick : w.maxTick.toNat = (l.getLast?.map Event.time).getD 0

variable {table all} {w : Walk} {l : List Event} {s : Stack Nat UInt64}

theorem follows_initial : Follows table all .initial [] .empty where
  stack := rfl
  profileRanges := rfl
  symbols := by simp [Walk.initial, symbolNames, addresses, namedAddresses]
  known a := by simp [Walk.initial, addresses]
  maxTick := rfl

variable (table) in
theorem symbolPosition_of_prefix {as : List UInt64} {a : UInt64} (hall : as <+: all) (ha : a ∈ as) :
    symbolPosition table all a = symbolPosition table as a := by
  obtain ⟨rest, rfl⟩ := hall
  exact symbolPosition_append ha

/-- The index that an address gets, and what it leaves of the variables. -/
theorem symbolIndexOf_spec (h : Follows table all w l s) {a : UInt64} (hall : addresses l ++ [a] <+: all) :
    ∃ w', w.symbolIndexOf table a = (UInt32.ofNat (symbolPosition table all a), w') ∧
      w'.stack = w.stack ∧ w'.profileRanges = w.profileRanges ∧ w'.maxTick = w.maxTick ∧
      w'.symbols = symbolNames table (addresses l ++ [a]) ∧
      ∀ b, w'.addressToSymbolIndex.lookup b =
        if b ∈ addresses l ++ [a] then some (UInt32.ofNat (symbolPosition table all b)) else none := by
  by_cases ha : a ∈ addresses l
  · refine ⟨w, ?_, rfl, rfl, rfl, ?_, ?_⟩
    · simp only [Walk.symbolIndexOf, h.known, ha, if_true]
    · rw [symbolNames_of_mem ha, h.symbols]
    · intro b
      rw [h.known b]
      by_cases hb : b = a
      · simp [hb, ha]
      · simp [hb]
  · have hposition := symbolPosition_of_prefix table hall (List.mem_append_right _ (List.mem_singleton_self a))
    have hlookup : ∀ b (i : UInt32), i = UInt32.ofNat (symbolPosition table all a) →
        ((a, i) :: w.addressToSymbolIndex).lookup b =
          if b ∈ addresses l ++ [a] then some (UInt32.ofNat (symbolPosition table all b)) else none := by
      intro b i hi
      by_cases hb : b = a
      · simp [hb, hi]
      · have hne : (b == a) = false := by simpa using hb
        simp [List.lookup_cons, hne, h.known, hb]
    cases hname : table.findSymbol a with
    | none =>
      have hzero : symbolPosition table all a = 0 := by simp [symbolPosition, hname]
      refine ⟨{ w with addressToSymbolIndex := (a, unknownSymbolIndex) :: w.addressToSymbolIndex }, ?_, rfl, rfl, rfl, ?_,
        fun b => hlookup b unknownSymbolIndex ?_⟩
      · simp only [Walk.symbolIndexOf, h.known, ha, hname, hzero, if_false]
        rfl
      · simp [symbolNames_of_not_mem ha, hname, h.symbols]
      · rw [hzero]
        rfl
    | some name =>
      have hnew : symbolPosition table all a = w.symbols.length := by
        rw [hposition, symbolPosition_new ha hname, h.symbols]
      refine ⟨{ w with
          addressToSymbolIndex := (a, UInt32.ofNat w.symbols.length) :: w.addressToSymbolIndex
          symbols := w.symbols ++ [name] }, ?_, rfl, rfl, rfl, ?_, fun b => hlookup b (UInt32.ofNat w.symbols.length) ?_⟩
      · simp only [Walk.symbolIndexOf, h.known, ha, hname, hnew, if_false]
      · simp [symbolNames_of_not_mem ha, hname, h.symbols]
      · rw [hnew]

/-- The last tick so far is before one that all events so far are before. -/
theorem Follows.maxTick_le (h : Follows table all w l s) {t : Nat} (ht : ∀ x ∈ l, x.time < t) : w.maxTick.toNat ≤ t := by
  rw [h.maxTick]
  cases hlast : l.getLast? with
  | none => simp
  | some x => exact (ht x (List.mem_of_getLast? hlast)).le

theorem toNat_max_of_le {a b : UInt64} (h : a.toNat ≤ b.toNat) : (max a b).toNat = b.toNat := by
  have hmax : max a b = b := if_pos (UInt64.le_iff_toNat_le.2 h)
  rw [hmax]

/-- A call opens a range. -/
theorem Follows.call (h : Follows table all w l s) {e : CallEvent} (hall : addresses l ++ [e.address] <+: all)
    (hbefore : ∀ x ∈ l, x.time < e.tick.toNat) :
    Follows table all (w.call table e) (l ++ [e.event]) (s.push e.tick.toNat e.address) := by
  obtain ⟨w', hindex, hstack, hranges, hmax, hsymbols, hknown⟩ := symbolIndexOf_spec h hall
  have haddresses : addresses (l ++ [e.event]) = addresses l ++ [e.address] := addresses_append ..
  have hlength : s.opened.length = w'.stack.length := by rw [hstack, h.stack, List.length_map]
  constructor
  · simp [Walk.call, hindex, Stack.push, rangeOf, hstack, h.stack]
  · simp [Walk.call, hindex, Stack.push, hranges, h.profileRanges]
  · simp [Walk.call, hindex, hsymbols, haddresses]
  · simpa [Walk.call, hindex, haddresses] using hknown
  · have hle := h.maxTick_le hbefore
    simp [Walk.call, hindex, hmax, toNat_max_of_le hle, CallEvent.event, Event.time]

/-- A return closes the range on the top of the stack. -/
theorem Follows.ret {top : Entry Nat UInt64} {rest : List (Entry Nat UInt64)} {spans : List (Span Nat UInt64)}
    (h : Follows table all w l ⟨top :: rest, spans⟩) {e : RetEvent} (hbefore : ∀ x ∈ l, x.time < e.tick.toNat) :
    ∃ w', w.ret e = .ok w' ∧ Follows table all w' (l ++ [e.event]) ⟨rest, spans ++ [⟨top, e.tick.toNat⟩]⟩ := by
  have hstack := h.stack
  rw [List.map_cons] at hstack
  have haddresses : addresses (l ++ [e.event]) = addresses l := by simp
  simp only [Walk.ret, hstack]
  refine ⟨_, rfl, ?_⟩
  constructor
  · rfl
  · simp [h.profileRanges, spanRange, rangeOf]
  · rw [haddresses]
    exact h.symbols
  · rw [haddresses]
    exact h.known
  · have hle := h.maxTick_le hbefore
    simp [toNat_max_of_le hle, RetEvent.event, Event.time]

theorem Follows.ret_empty {spans : List (Span Nat UInt64)} (h : Follows table all w l ⟨[], spans⟩) (e : RetEvent) :
    w.ret e = .error .emptyStack := by
  have hstack : w.stack = [] := h.stack
  simp only [Walk.ret, hstack]

/-- The calls and returns of a trace have increasing ticks. -/
structure Increasing (calls : List CallEvent) (rets : List RetEvent) : Prop where
  callEvents : calls.Pairwise fun c c' => c.tick < c'.tick
  retEvents : rets.Pairwise fun r r' => r.tick < r'.tick
  apart : ∀ c ∈ calls, ∀ r ∈ rets, c.tick ≠ r.tick

/-- What the loop does: it fails when the events close what is not open; otherwise it has taken the events as far as both kinds
last, the last call being the last of them when no call is left. -/
theorem run_spec {calls : List CallEvent} {rets : List RetEvent} (hne : calls ≠ [] ∨ rets ≠ [])
    (htimes : (l ++ merged calls rets).Pairwise fun e e' => e.time < e'.time)
    (hall : addresses l ++ calls.map (·.address) = all) (hruns : Runs l s) (h : Follows table all w l s) :
    (Walk.run table calls rets w = .error .emptyStack ∧
      ¬ Brackets.Balanced Event.opens Event.closes (l ++ merged calls rets)) ∨
    ∃ w' s' taken calls' rets', Walk.run table calls rets w = .ok w' ∧ Runs taken s' ∧ Follows table all w' taken s' ∧
      l ++ merged calls rets = taken ++ (calls'.map CallEvent.event ++ rets'.map RetEvent.event) ∧
      ((calls' = [] ∧ rets' ≠ []) ∨ (calls' ≠ [] ∧ rets' = [])) ∧ (calls = [] → taken = l) ∧
      (calls ≠ [] → calls' = [] → ∃ front c, taken = front ++ [CallEvent.event c]) := by
  induction calls, rets, w using Walk.run.induct table generalizing l s with
  | case1 rets w =>
    refine .inr ⟨w, s, l, [], rets, by simp [Walk.run], hruns, h, ?_, .inl ⟨rfl, by simpa using hne⟩, fun _ => rfl, by simp⟩
    simp [merged_nil_left]
  | case2 c calls w =>
    refine .inr ⟨w, s, l, c :: calls, [], by simp [Walk.run], hruns, h, ?_, .inr ⟨by simp, rfl⟩, by simp, by simp⟩
    simp [merged_nil_right]
  | case3 c calls r rets w ihcall ihret =>
    rw [merged_cons] at htimes ⊢
    by_cases hle : c.tick.toNat ≤ r.tick.toNat
    · rw [if_pos hle] at htimes ⊢
      obtain ⟨-, hlater, hbefore⟩ := List.pairwise_append.1 htimes
      have hmem : r.event ∈ merged calls (r :: rets) := (merged_perm _ _).mem_iff.2 (by simp)
      have hlt : c.tick.toNat < r.tick.toNat := (List.pairwise_cons.1 hlater).1 _ hmem
      have hrun : Walk.run table (c :: calls) (r :: rets) w = Walk.run table calls (r :: rets) (w.call table c) := by
        rw [Walk.run, Outcome.check, if_pos fun heq => absurd hlt (by rw [heq]; exact lt_irrefl _), Outcome.ok_bind,
          if_pos (UInt64.lt_iff_toNat_lt.2 hlt)]
      have hprefix : addresses l ++ [c.address] <+: all := ⟨calls.map (·.address), by simpa using hall⟩
      have hcall := h.call hprefix fun x hx => hbefore x hx _ List.mem_cons_self
      have hcut : l ++ c.event :: merged calls (r :: rets) = (l ++ [c.event]) ++ merged calls (r :: rets) := by simp
      rw [hrun, hcut]
      rw [hcut] at htimes
      rcases ihcall (.inr (by simp)) htimes (by simpa using hall) (hruns.opening _ _) hcall with
        hfailed | ⟨w', s', taken, calls', rets', hok, hruns', hfollows, hevents, hleft, hnone, hlast⟩
      · exact .inl hfailed
      · refine .inr ⟨w', s', taken, calls', rets', hok, hruns', hfollows, hevents, hleft, by simp, fun _ hempty => ?_⟩
        by_cases hcalls : calls = []
        · exact ⟨l, c, hnone hcalls⟩
        · exact hlast hcalls hempty
    · rw [if_neg hle] at htimes ⊢
      obtain ⟨-, hlater, hbefore⟩ := List.pairwise_append.1 htimes
      have hrun : Walk.run table (c :: calls) (r :: rets) w =
          (w.ret r).bind fun w => Walk.run table (c :: calls) rets w := by
        rw [Walk.run, Outcome.check, if_pos fun heq => hle (by rw [heq]), Outcome.ok_bind,
          if_neg fun hlt => hle (UInt64.lt_iff_toNat_lt.1 hlt).le]
        rfl
      have hcut : l ++ r.event :: merged (c :: calls) rets = (l ++ [r.event]) ++ merged (c :: calls) rets := by simp
      obtain ⟨opened, spans⟩ := s
      cases opened with
      | nil =>
        left
        refine ⟨by rw [hrun, h.ret_empty]; rfl, ?_⟩
        intro hbalanced
        -- the return closes more than the calls before it opened
        have hle := hbalanced (l ++ [r.event]) ⟨merged (c :: calls) rets, hcut.symm⟩
        have hcounts := hruns.counts.1
        simp [RetEvent.event, Event.opens, Event.closes] at hle hcounts
        omega
      | cons top rest =>
        obtain ⟨w', hret, hfollows⟩ := h.ret fun x hx => hbefore x hx _ List.mem_cons_self
        rw [hrun, hret, hcut]
        rw [hcut] at htimes
        rcases ihret w' (.inl (by simp)) htimes (by simpa using hall) (hruns.closing _) hfollows with
          hfailed | ⟨w'', s', taken, calls', rets', hok, hruns', hfollows', hevents, hleft, -, hlast⟩
        · exact .inl hfailed
        · exact .inr ⟨w'', s', taken, calls', rets', hok, hruns', hfollows', hevents, hleft, by simp, hlast⟩

end Loop

end Profile
end X64Emulator
