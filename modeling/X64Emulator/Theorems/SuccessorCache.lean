import X64Emulator.Lemmas.CodeDestinations

/-!
# The slots of a segment with fixed destinations

A segment that ends at one of two addresses keeps the segments that follow it in two slots. The search for a segment ends at the
first empty slot, so the slots work as long as they are filled from the front. A removal that empties the first slot and leaves
the second breaks this, and the condition on a run is that none does.
-/

namespace X64Emulator

open Outcome

namespace CodeSegment

variable {slots slots' : List FixedDestination} {xs : List Nat} {x i : Nat}

/-- The segments in the slots. -/
def nexts (slots : List FixedDestination) : List (Option Nat) := slots.map (·.next)

/-- The slots that hold these segments, from the front. -/
def seats (xs : List Nat) : List (Option Nat) := xs.map some ++ List.replicate (CACHE_SIZE - xs.length) none

theorem nexts_create {block : BasicBlock} : nexts (create block).fixedDestinationInfo = seats [] := rfl

theorem filterMap_nexts (h : nexts slots = seats xs) : slots.filterMap (·.next) = xs := by
  have hmap : slots.filterMap (·.next) = (nexts slots).filterMap id := by
    rw [nexts, List.filterMap_map]
    rfl
  rw [hmap, h, seats, List.filterMap_append, List.filterMap_map]
  simp

theorem mem_seats : some x ∈ seats xs ↔ x ∈ xs := by simp [seats]

theorem nexts_eq_cons {slot : FixedDestination} {o : Option Nat} {os : List (Option Nat)} :
    nexts (slot :: slots) = o :: os ↔ slot.next = o ∧ nexts slots = os := List.cons_eq_cons

/-- The first empty slot is the one after the segments. -/
theorem addFixed_seats {n : Nat} (h : nexts slots = xs.map some ++ List.replicate (n + 1) none) :
    ∃ slots', addFixed x slots = .ok slots' ∧ nexts slots' = xs.map some ++ some x :: List.replicate n none := by
  induction xs generalizing slots with
  | nil =>
    cases slots with
    | nil => cases h
    | cons slot slots =>
      obtain ⟨hslot, hslots⟩ := nexts_eq_cons.1 h
      refine ⟨⟨some x, 1⟩ :: slots, ?_, nexts_eq_cons.2 ⟨rfl, hslots⟩⟩
      unfold addFixed
      rw [hslot]
  | cons y ys ih =>
    cases slots with
    | nil => cases h
    | cons slot slots =>
      obtain ⟨hslot, hslots⟩ := nexts_eq_cons.1 h
      obtain ⟨slots', hadd, hnexts⟩ := ih hslots
      refine ⟨slot :: slots', ?_, nexts_eq_cons.2 ⟨hslot, hnexts⟩⟩
      unfold addFixed
      rw [hslot, hadd]
      rfl

/-- The slot that was hit may change places with the one before it. -/
theorem hit_seats (h : nexts slots = seats xs) (hi : i < xs.length) (hlength : xs.length ≤ CACHE_SIZE) :
    ∃ xs', xs'.Perm xs ∧ nexts (hit i slots) = seats xs' := by
  obtain ⟨a, b, rfl⟩ : ∃ a b, slots = [a, b] := by
    refine List.length_eq_two.1 ?_
    have hslots := congrArg List.length h
    simp only [nexts, seats, List.length_map, List.length_append, List.length_replicate] at hslots
    exact hslots.trans (Nat.add_sub_cancel' hlength)
  cases i with
  | zero => exact ⟨xs, .refl _, h⟩
  | succ i =>
    have htwo : xs.length = 2 := by
      have : CACHE_SIZE = 2 := rfl
      omega
    obtain ⟨x, y, rfl⟩ := List.length_eq_two.1 htwo
    obtain rfl : i = 0 := by
      rw [htwo] at hi
      omega
    obtain ⟨ha, hb⟩ := nexts_eq_cons.1 h
    obtain ⟨hb, -⟩ := nexts_eq_cons.1 hb
    by_cases hcount : b.nextCount + 1 > a.nextCount
    · refine ⟨[y, x], .swap x y [], ?_⟩
      simp [hit, hcount, nexts, ha, hb, seats, CACHE_SIZE]
    · refine ⟨[x, y], .refl _, ?_⟩
      simp [hit, hcount, nexts, ha, hb, seats, CACHE_SIZE]

end CodeSegment

namespace CodeCache

open X64Emulator.CodeSegment (nexts seats nexts_eq_cons)

variable {c c' : CodeCache} {this other p q address i n : Nat} {s s' o : CodeSegment} {slots slots' : List FixedDestination}
  {xs : List Nat}

theorem segment_eq (hs : c.segments.get? p = some s) : c.segment p = .ok s := by
  unfold segment
  rw [hs]

section Searching

/-- The search finds a segment that is in the slots. -/
theorem slotOf_seats (h : nexts slots = xs.map some ++ List.replicate n none) (hlive : ∀ x ∈ xs, c.segments.Live x)
    (hother : other ∈ xs) (honly : ∀ x ∈ xs, ∀ t, c.segments.get? x = some t → (t.start = address ↔ x = other)) :
    ∃ i slot, c.slotOf address slots = .ok (some i) ∧ slots[i]? = some slot ∧ slot.next = some other := by
  induction xs generalizing slots with
  | nil => cases hother
  | cons y ys ih =>
    cases slots with
    | nil => cases h
    | cons slot slots =>
      obtain ⟨hslot, hslots⟩ := nexts_eq_cons.1 h
      obtain ⟨t, ht⟩ := hlive y List.mem_cons_self
      have hturn : c.slotOf address (slot :: slots) =
          if t.start = address then .ok (some 0) else (Option.map (· + 1)) <$> c.slotOf address slots := by
        rw [slotOf, hslot]
        simp only [segment_eq ht, bind, Except.bind]
      by_cases hstart : t.start = address
      · refine ⟨0, slot, hturn.trans (if_pos hstart), rfl, ?_⟩
        rw [hslot, (honly y List.mem_cons_self t ht).1 hstart]
      · have hne : other ≠ y := fun heq => hstart ((honly y List.mem_cons_self t ht).2 heq.symm)
        obtain ⟨i, found, hfound, hget, hnext⟩ := ih hslots (fun x hx => hlive x (List.mem_cons_of_mem _ hx))
          ((List.mem_cons.1 hother).resolve_left hne) fun x hx => honly x (List.mem_cons_of_mem _ hx)
        refine ⟨i + 1, found, ?_, hget, hnext⟩
        rw [hturn, if_neg hstart, hfound]
        rfl

/-- The search never ends in an empty slot. -/
theorem slotOf_lt (h : nexts slots = xs.map some ++ List.replicate n none) (hfound : c.slotOf address slots = .ok (some i)) :
    i < xs.length := by
  induction xs generalizing slots i with
  | nil =>
    cases slots with
    | nil => cases hfound
    | cons slot slots =>
      cases n with
      | zero => cases h
      | succ n =>
        obtain ⟨hslot, -⟩ := nexts_eq_cons.1 h
        rw [slotOf, hslot] at hfound
        cases hfound
  | cons y ys ih =>
    cases slots with
    | nil => cases h
    | cons slot slots =>
      obtain ⟨hslot, hslots⟩ := nexts_eq_cons.1 h
      rw [slotOf, hslot] at hfound
      obtain ⟨t, -, hrest⟩ := bind_eq_ok.1 hfound
      split at hrest
      · obtain rfl := Option.some.inj (Except.ok.inj hrest)
        simp
      · cases hlater : c.slotOf address slots with
        | error e =>
          rw [hlater] at hrest
          cases hrest
        | ok found =>
          rw [hlater] at hrest
          cases found with
          | none => cases hrest
          | some j =>
            obtain rfl : j + 1 = i := Option.some.inj (Except.ok.inj hrest)
            have := ih hslots hlater
            simpa using this

end Searching

/-- The segments that an action leaves in the slots of the segment `q`. -/
inductive SlotMove (c : CodeCache) (action : CodeAction) (q : Nat) (slots : List FixedDestination) (after : List (Option Nat)) : Prop
  | same (h : after = nexts slots)
  | found (address i : Nat) (hi : c.slotOf address slots = .ok (some i)) (h : after = nexts (CodeSegment.hit i slots))
  | added (other : Nat) (slots' : List FixedDestination) (ha : action = .addSuccessor q other)
      (hadd : CodeSegment.addFixed other slots = .ok slots') (h : after = nexts slots')
  | removed (victims : List Nat) (ha : action = .removeSegments victims) (hq : q ∉ victims)
      (h : List.Forall₂ (fun next next' : Option Nat => next' = next ∨ next' = none ∧ ∃ x ∈ victims, next = some x)
        (nexts slots) after)

/-- What an action makes of a segment: it is new, or it has the same basic block. -/
def Moved (c : CodeCache) (action : CodeAction) (q : Nat) (s' : CodeSegment) : Prop :=
  (c.segments.get? q = none ∧ nexts s'.fixedDestinationInfo = seats []) ∨
  ∃ s, c.segments.get? q = some s ∧ s'.cpuBasicBlock = s.cpuBasicBlock ∧
    (SlotMove c action q s.fixedDestinationInfo (nexts s'.fixedDestinationInfo))

section Moves

variable {action : CodeAction}

/-- The basic block of a segment and the segments in its slots. -/
def slotView (s : CodeSegment) : BasicBlock × List (Option Nat) := (s.cpuBasicBlock, nexts s.fixedDestinationInfo)

theorem Agree.moved (h : Agree slotView c c') (hs' : c'.segments.get? q = some s') : c.Moved action q s' := by
  obtain ⟨s, hs, heq⟩ := h.before hs'
  obtain ⟨hblock, hnexts⟩ := Prod.mk.inj heq
  exact Or.inr ⟨s, hs, hblock, .same hnexts⟩

theorem fetchSegment_moved {block : BasicBlock} (hs' : (c.fetchSegment block).2.segments.get? q = some s') :
    c.Moved action q s' := by
  unfold fetchSegment at hs'
  split at hs'
  · exact (Agree.refl slotView c).moved hs'
  · by_cases hq : q = c.segments.next
    · subst hq
      obtain rfl := Option.some.inj (Heap.get?_alloc_next.symm.trans hs')
      exact Or.inl ⟨Heap.get?_next, CodeSegment.nexts_create⟩
    · exact (Agree.refl slotView c).moved ((Heap.get?_alloc_of_ne hq).symm.trans hs')

theorem findNext_moved : Yields (fun r => ∀ q s', r.2.segments.get? q = some s' → c.Moved action q s')
    (c.findNext this address) := by
  refine Post.bind (segment_found False.elim) fun s hs => Post.ite (fun _ => ?_) fun _ =>
    Post.ok fun q s' hs' => (Agree.refl slotView c).moved hs'
  refine Post.bind (Post.self _) fun found hfound => ?_
  cases found with
  | none => exact Post.ok fun q s' hs' => (Agree.refl slotView c).moved hs'
  | some i =>
    refine Post.ok fun q s' hs' => ?_
    rcases get?_modify hs' with ⟨rfl, t, ht, rfl⟩ | ⟨-, hs⟩
    · obtain rfl : t = s := Option.some.inj (ht.symm.trans hs)
      exact Or.inr ⟨t, ht, rfl, .found address i hfound rfl⟩
    · exact (Agree.refl slotView c).moved hs

theorem addSuccessor_moved : Yields (fun c' => ∀ q s', c'.segments.get? q = some s' →
    c.Moved (.addSuccessor this other) q s') (c.addSuccessor this other) := by
  refine Post.bind (segment_found False.elim) fun s hs => Post.bind (segment_found False.elim) fun o _ => ?_
  have hadd : Yields (fun t : CodeSegment => t.cpuBasicBlock = s.cpuBasicBlock ∧
      SlotMove c (.addSuccessor this other) this s.fixedDestinationInfo (nexts t.fixedDestinationInfo))
      (s.addSuccessor other o.start o.jitBasicBlock) := by
    refine Post.ite (fun _ => ?_) fun _ => Post.ite (fun _ => Post.ok ⟨rfl, .same rfl⟩) fun _ => Post.ok ⟨rfl, .same rfl⟩
    exact Post.bind (Post.self _) fun slots' hslots' => Post.ok ⟨rfl, .added other slots' rfl hslots' rfl⟩
  refine Post.bind hadd fun t ⟨hblock, hmove⟩ => ?_
  have hsync : Yields (Agree slotView (c.modify this fun _ => t))
      ((c.modify this fun _ => t).syncIf (!s.endsWithFixedDestinationJump && (s.successors.find o.start).isNone) this) := by
    refine Post.ite (fun _ => ?_) fun _ => Post.ok (.refl _ _)
    exact Post.mono (syncBlockLookupTable_agree False.elim False.elim) fun _ h => h.of_view slotView fun _ => rfl
  refine Post.bind hsync fun c₁ h₁ => Post.ok fun q s' hs' => ?_
  have hlast : Agree slotView c₁ (c₁.modify other (·.addPredecessor s.start this)) := agree_modify fun _ _ => rfl
  obtain ⟨u, hu, heq⟩ := (h₁.trans hlast).before hs'
  obtain ⟨hsame, hnexts⟩ := Prod.mk.inj heq
  rcases get?_modify hu with ⟨rfl, s₀, hs₀, rfl⟩ | ⟨-, hu⟩
  · exact Or.inr ⟨s, hs, hsame.trans hblock, hnexts ▸ hmove⟩
  · exact Or.inr ⟨u, hu, hsame, .same hnexts⟩

theorem addReturn_moved : Yields (fun c' => ∀ q s', c'.segments.get? q = some s' → c.Moved action q s')
    (c.addReturn this other) := by
  refine Post.skip fun s => Post.skip fun o => Post.skip fun _ =>
    Post.skip fun _ => Post.ok fun q s' hs' => ?_
  have hfirst : Agree slotView c (c.modify this (·.addReturn other)) := agree_modify fun _ _ => rfl
  have hlast : Agree slotView (c.modify this (·.addReturn other)) _ :=
    agree_modify (p := other) (f := (·.addCallPredecessor s.start this)) fun _ _ => rfl
  exact (hfirst.trans hlast).moved hs'

theorem removeSegments_moved {victims : List Nat} (hown : c.OwnBlocks) :
    Yields (fun c' => ∀ q s', c'.segments.get? q = some s' → c.Moved (.removeSegments victims) q s')
      (c.removeSegments victims) := by
  refine Post.mono (removeSegments_purged hown) fun c' h q s' hs' => ?_
  obtain ⟨hq, s, hs, hpurged⟩ := h q s' hs'
  exact Or.inr ⟨s, hs, hpurged.block, .removed victims rfl hq
    (List.forall₂_map_left_iff.2 (List.forall₂_map_right_iff.2 (hpurged.slots hq)))⟩

/-- Every action moves the segments in slots in one of these ways. -/
theorem exec_moved (hown : c.OwnBlocks) (action : CodeAction) :
    Yields (fun c' => ∀ q s', c'.segments.get? q = some s' → c.Moved action q s') (c.exec action) := by
  cases action with
  | fetchSegment block => exact Post.ok fun q s' hs' => fetchSegment_moved hs'
  | findNext this address => exact Post.map findNext_moved
  | addSuccessor this other => exact addSuccessor_moved
  | addReturn this other => exact addReturn_moved
  | onCpuCall this =>
    have hview : Agree slotView c (c.modify this (·.onCpuCall)) := agree_modify fun _ _ => rfl
    exact Post.ok fun q s' hs' => hview.moved hs'
  | onCall this compiler turns =>
    exact Post.mono process_agree fun c' h q s' hs' => (h.of_view slotView fun _ => rfl).moved hs'
  | tryPatch this =>
    exact Post.mono (tryPatch_agree False.elim False.elim) fun c' h q s' hs' => (h.of_view slotView fun _ => rfl).moved hs'
  | removeSegments victims => exact removeSegments_moved hown

end Moves

variable {dest : Nat → Nat × Nat} {action : CodeAction} {victims : List Nat} {t : CodeSegment}

/-- A segment that ends with a jump ends at one of two addresses, and gets a successor only after it was searched for in vain. -/
def AsExecuted (dest : Nat → Nat × Nat) (c : CodeCache) : CodeAction → Prop
  | .addSuccessor this other => ∀ s ∈ c.segments.get? this, ∀ o ∈ c.segments.get? other, s.endsWithFixedDestinationJump = true →
      (o.start = (dest this).1 ∨ o.start = (dest this).2) ∧ (c.findNext this o.start).toOption.map (·.1) = some none
  | _ => True

instance (dest : Nat → Nat × Nat) (c : CodeCache) : DecidablePred (c.AsExecuted dest)
  | .addSuccessor _ _ => inferInstanceAs (Decidable (∀ s ∈ _, ∀ o ∈ _, _ → _))
  | .fetchSegment _ | .findNext _ _ | .addReturn _ _ | .onCpuCall _ | .onCall _ _ _ | .tryPatch _ | .removeSegments _ =>
    inferInstanceAs (Decidable True)

/-- No removal takes the segment in the first slot of a segment that stays and leaves the one in the second slot. -/
def LeavesNoHole (c : CodeCache) : CodeAction → Prop
  | .removeSegments segments => ∀ q, ∀ s ∈ c.segments.get? q, q ∉ segments → ∀ x ∈ s.fixedDestinationInfo[0]?.bind FixedDestination.next,
      ∀ y ∈ s.fixedDestinationInfo[1]?.bind FixedDestination.next, x ∈ segments → y ∈ segments
  | _ => True

instance (c : CodeCache) : DecidablePred c.LeavesNoHole
  | .removeSegments segments => decidable_of_iff (∀ q ∈ List.range c.segments.next, ∀ s ∈ c.segments.get? q, q ∉ segments →
      ∀ x ∈ s.fixedDestinationInfo[0]?.bind FixedDestination.next, ∀ y ∈ s.fixedDestinationInfo[1]?.bind FixedDestination.next,
        x ∈ segments → y ∈ segments)
      ⟨fun h q s hs => h q (List.mem_range.2 (Heap.Live.lt_next ⟨s, hs⟩)) s hs, fun h q _ => h q⟩
  | .fetchSegment _ | .findNext _ _ | .addSuccessor _ _ | .addReturn _ _ | .onCpuCall _ | .onCall _ _ _ | .tryPatch _ =>
    inferInstanceAs (Decidable True)

def Orderly (dest : Nat → Nat × Nat) (c : CodeCache) (action : CodeAction) : Prop :=
  c.AsExecuted dest action ∧ c.LeavesNoHole action

instance (dest : Nat → Nat × Nat) (c : CodeCache) (action : CodeAction) : Decidable (Orderly dest c action) :=
  inferInstanceAs (Decidable (_ ∧ _))

/-- The segments in the slots of the segment `q`: they exist, and each is at one of the addresses where `q` ends. -/
structure Seating (dest : Nat → Nat × Nat) (c : CodeCache) (q : Nat) (slots : List FixedDestination) (xs : List Nat) : Prop where
  filled : nexts slots = seats xs
  length : xs.length ≤ CodeSegment.CACHE_SIZE
  nodup : xs.Nodup
  starts : ∀ x ∈ xs, ∃ t, c.segments.get? x = some t ∧ (t.start = (dest q).1 ∨ t.start = (dest q).2)

def Seated (dest : Nat → Nat × Nat) (c : CodeCache) : Prop := ∀ q s, c.segments.get? q = some s →
  s.endsWithFixedDestinationJump = true → ∃ xs, Seating dest c q s.fixedDestinationInfo xs

/-- No other segment starts where this one does. -/
theorem Inv.start_iff (h : c.Inv False) (ho : c.segments.get? other = some o) (ht : c.segments.get? p = some t) :
    t.start = o.start ↔ p = other := by
  constructor
  · exact fun heq => h.graph.distinct p t.links other o.links ⟨t, ht⟩ ⟨o, ho⟩ (links_eq ht) (links_eq ho) heq
  · rintro rfl
    rw [Option.some.inj (ht.symm.trans ho)]

/-- The segments in the slots are found. -/
theorem Seating.findNext (h : c.Inv False) (hs : c.segments.get? this = some s) (hfixed : s.endsWithFixedDestinationJump = true)
    (hseating : Seating dest c this s.fixedDestinationInfo xs) (hother : other ∈ xs) (ho : c.segments.get? other = some o) :
    ∃ c', c.findNext this o.start = .ok (some other, c') := by
  have hlive : ∀ x ∈ xs, c.segments.Live x := by
    intro x hx
    obtain ⟨t, ht, -⟩ := hseating.starts x hx
    exact ⟨t, ht⟩
  obtain ⟨i, slot, hfound, hslot, hnext⟩ := slotOf_seats hseating.filled hlive hother fun x _ t ht => h.start_iff ho ht
  unfold CodeCache.findNext
  simp only [segment_eq hs, bind, Except.bind, hfixed, if_true, hfound, hslot, Option.bind_some, hnext]
  exact ⟨_, rfl⟩

/-- A segment that was searched for in vain is not in the slots, and one of the slots is free. -/
theorem Seating.free (h : c.Inv False) (hs : c.segments.get? this = some s) (hfixed : s.endsWithFixedDestinationJump = true)
    (hseating : Seating dest c this s.fixedDestinationInfo xs) (ho : c.segments.get? other = some o)
    (hC : c.AsExecuted dest (.addSuccessor this other)) : other ∉ xs ∧ xs.length < CodeSegment.CACHE_SIZE := by
  obtain ⟨hstart, hnone⟩ := hC s hs o ho hfixed
  have hnot : ∀ x ∈ xs, ∀ t, c.segments.get? x = some t → t.start ≠ o.start := by
    intro x hx t ht heq
    obtain ⟨c', hfound⟩ := hseating.findNext h hs hfixed hx ht
    rw [heq] at hfound
    rw [hfound] at hnone
    cases hnone
  refine ⟨fun hmem => hnot other hmem o ho rfl, Nat.lt_of_le_of_ne hseating.length fun htwo => ?_⟩
  obtain ⟨x, y, rfl⟩ := List.length_eq_two.1 htwo
  obtain ⟨t, ht, hx⟩ := hseating.starts x (by simp)
  obtain ⟨u, hu, hy⟩ := hseating.starts y (by simp)
  have hxy : t.start ≠ u.start := by
    intro heq
    have hnodup := hseating.nodup
    simp [(h.start_iff hu ht).1 heq] at hnodup
  have hxo := hnot x (by simp) t ht
  have hyo := hnot y (by simp) u hu
  omega

/-- A segment with a free slot gets its successor. -/
theorem Seating.addSuccessor (hs : c.segments.get? this = some s) (hfixed : s.endsWithFixedDestinationJump = true)
    (hseating : Seating dest c this s.fixedDestinationInfo xs) (hfree : xs.length < CodeSegment.CACHE_SIZE)
    (ho : c.segments.get? other = some o) : ∃ c' s', c.addSuccessor this other = .ok c' ∧ c'.segments.get? this = some s' ∧
      nexts s'.fixedDestinationInfo = seats (xs ++ [other]) := by
  obtain ⟨n, hn⟩ : ∃ n, CodeSegment.CACHE_SIZE - xs.length = n + 1 := ⟨CodeSegment.CACHE_SIZE - xs.length - 1, by omega⟩
  have hnexts := hseating.filled
  rw [seats, hn] at hnexts
  obtain ⟨slots', hadd, hslots'⟩ := CodeSegment.addFixed_seats (x := other) hnexts
  have hseats : nexts slots' = seats (xs ++ [other]) := by
    have hlength : CodeSegment.CACHE_SIZE - (xs ++ [other]).length = n := by
      rw [List.length_append, List.length_singleton]
      omega
    rw [hslots', seats, hlength, List.map_append, List.append_assoc]
    rfl
  unfold CodeCache.addSuccessor CodeSegment.addSuccessor
  simp only [segment_eq hs, segment_eq ho, bind, Except.bind, hfixed, if_true, hadd, syncIf, Bool.not_true, Bool.false_and]
  have hview : Agree slotView (c.modify this fun _ => { s with
      fixedDestinationInfo := slots', successors := s.successors.insert o.start other }) _ :=
    agree_modify (p := other) (f := (·.addPredecessor s.start this)) fun _ _ => rfl
  obtain ⟨s', hs', heq⟩ := hview.after (get?_modify_self hs)
  exact ⟨_, s', rfl, hs', (Prod.mk.inj heq).2.trans hseats⟩

/-- The segments after a removal, when none of those that are removed is left. -/
theorem removed_eq {after : List (Option Nat)} {before : List (Option Nat)}
    (h : List.Forall₂ (fun next next' : Option Nat => next' = next ∨ next' = none ∧ ∃ x ∈ victims, next = some x) before after)
    (hgone : ∀ x, some x ∈ after → x ∉ victims) : after = before.map (·.filter (· ∉ victims)) := by
  induction h with
  | nil => rfl
  | @cons next next' before after hhead _ ih =>
    rw [List.map_cons, ← ih fun x hx => hgone x (List.mem_cons_of_mem _ hx)]
    congr 1
    rcases hhead with rfl | ⟨rfl, x, hx, rfl⟩
    · cases hnext : next' with
      | none => rfl
      | some x => simp [Option.filter, hgone x (hnext ▸ List.mem_cons_self)]
    · simp [Option.filter, hx]

/-- A removal that leaves no hole keeps the slots filled from the front. -/
theorem seats_removed (hlength : xs.length ≤ CodeSegment.CACHE_SIZE)
    (hhole : ∀ x y, seats xs = [some x, some y] → x ∈ victims → y ∈ victims) :
    (seats xs).map (·.filter (· ∉ victims)) = seats (xs.filter (· ∉ victims)) := by
  match xs, hlength with
  | [], _ => rfl
  | [x], _ =>
    by_cases hx : x ∈ victims <;> simp [seats, CodeSegment.CACHE_SIZE, Option.filter, hx, List.replicate]
  | [x, y], _ =>
    have himp := hhole x y rfl
    by_cases hx : x ∈ victims
    · simp [seats, CodeSegment.CACHE_SIZE, Option.filter, hx, himp hx, List.replicate]
    · by_cases hy : y ∈ victims <;> simp [seats, CodeSegment.CACHE_SIZE, Option.filter, hx, hy]

/-- A segment that is still there starts where it did. -/
theorem Moved.start (h : c.Moved action p s') (hs : c.segments.get? p = some s) : s'.cpuBasicBlock = s.cpuBasicBlock := by
  rcases h with ⟨hnone, -⟩ | ⟨s₀, hs₀, hblock, -⟩
  · rw [hs] at hnone
    cases hnone
  · rw [hblock, Option.some.inj (hs₀.symm.trans hs)]

/-- One action: the slots are filled from the front again, and a segment that was in them and still exists is in them. -/
theorem Seating.step (hinv : c.Inv False) (hinv' : c'.Inv False) (hC : Orderly dest c action) (henabled : c.enabled action)
    (hexec : c.exec action = .ok c') (hs : c.segments.get? q = some s) (hs' : c'.segments.get? q = some s')
    (hfixed : s.endsWithFixedDestinationJump = true) (h : Seating dest c q s.fixedDestinationInfo xs) :
    ∃ xs', Seating dest c' q s'.fixedDestinationInfo xs' ∧ ∀ x ∈ xs, c'.segments.Live x → x ∈ xs' := by
  have hmoved := (exec_moved hinv.ownBlocks action).of_ok hexec
  -- it is enough to look at the segments in the state before
  have hfinish : ∀ xs', CodeSegment.nexts s'.fixedDestinationInfo = seats xs' → xs'.length ≤ CodeSegment.CACHE_SIZE → xs'.Nodup →
      (∀ x ∈ xs', ∃ t, c.segments.get? x = some t ∧ (t.start = (dest q).1 ∨ t.start = (dest q).2)) →
      Seating dest c' q s'.fixedDestinationInfo xs' := by
    refine fun xs' hfilled hlength hnodup hstarts => ⟨hfilled, hlength, hnodup, fun x hx => ?_⟩
    have hmem : some x ∈ CodeSegment.nexts s'.fixedDestinationInfo := by
      rw [hfilled]
      exact CodeSegment.mem_seats.2 hx
    obtain ⟨slot, hslot, hnext⟩ := List.mem_map.1 hmem
    obtain ⟨t', ht'⟩ := hinv'.slot_live hs' hslot hnext
    obtain ⟨t, ht, hstart⟩ := hstarts x hx
    have hsame : t'.start = t.start := congrArg BasicBlock.start ((hmoved x t' ht').start ht)
    exact ⟨t', ht', by rwa [hsame]⟩
  rcases hmoved q s' hs' with ⟨hnone, -⟩ | ⟨s₀, hs₀, -, hmove⟩
  · rw [hs] at hnone
    cases hnone
  obtain rfl : s₀ = s := Option.some.inj (hs₀.symm.trans hs)
  cases hmove with
  | same hsame => exact ⟨xs, hfinish xs (hsame.trans h.filled) h.length h.nodup h.starts, fun _ hx _ => hx⟩
  | found address i hi hhit =>
    obtain ⟨xs', hperm, hfilled⟩ := CodeSegment.hit_seats h.filled (slotOf_lt h.filled hi) h.length
    refine ⟨xs', hfinish xs' (hhit.trans hfilled) ?_ (hperm.nodup_iff.2 h.nodup) fun x hx => h.starts x (hperm.mem_iff.1 hx),
      fun _ hx _ => hperm.mem_iff.2 hx⟩
    rw [hperm.length_eq]
    exact h.length
  | added other slots' haction hadd hslots' =>
    subst haction
    obtain ⟨o, ho⟩ := henabled.2
    obtain ⟨hnot, hfree⟩ := h.free hinv hs hfixed ho hC.1
    obtain ⟨c₁, s₁, hexec₁, hs₁, hfilled⟩ := h.addSuccessor hs hfixed hfree ho
    obtain rfl : c₁ = c' := Except.ok.inj (hexec₁.symm.trans hexec)
    obtain rfl : s₁ = s' := Option.some.inj (hs₁.symm.trans hs')
    refine ⟨xs ++ [other], hfinish _ hfilled ?_ ?_ fun x hx => ?_, fun _ hx _ => List.mem_append_left _ hx⟩
    · rw [List.length_append, List.length_singleton]
      exact hfree
    · refine List.nodup_append.2 ⟨h.nodup, by simp, fun x hx y hy => ?_⟩
      rw [List.mem_singleton.1 hy]
      rintro rfl
      exact hnot hx
    · rcases List.mem_append.1 hx with hx | hx
      · exact h.starts x hx
      · exact ⟨o, List.mem_singleton.1 hx ▸ ho, (hC.1 s₀ hs o ho hfixed).1⟩
  | removed victims haction hq hslots' =>
    subst haction
    have hgone : ∀ x, c'.segments.Live x → x ∉ victims := by
      rintro x ⟨t, ht⟩
      exact ((removeSegments_purged hinv.ownBlocks).of_ok hexec x t ht).1
    have hafter := removed_eq hslots' fun x hx => by
      obtain ⟨slot, hslot, hnext⟩ := List.mem_map.1 hx
      exact hgone x (hinv'.slot_live hs' hslot hnext)
    have hhole : ∀ x y, seats xs = [some x, some y] → x ∈ victims → y ∈ victims := by
      intro x y hxy
      obtain ⟨a, b, hab⟩ : ∃ a b, s₀.fixedDestinationInfo = [a, b] := by
        refine List.length_eq_two.1 ?_
        have hlength := congrArg List.length (h.filled.trans hxy)
        simpa [CodeSegment.nexts] using hlength
      have hboth := h.filled.trans hxy
      rw [hab] at hboth
      obtain ⟨ha, hb⟩ := nexts_eq_cons.1 hboth
      obtain ⟨hb, -⟩ := nexts_eq_cons.1 hb
      exact hC.2 q s₀ hs hq x (by simp [hab, ha]) y (by simp [hab, hb])
    rw [h.filled, seats_removed h.length hhole] at hafter
    refine ⟨xs.filter (· ∉ victims), hfinish _ hafter (Nat.le_trans (List.length_filter_le _ _) h.length) (h.nodup.filter _)
      fun x hx => h.starts x (List.mem_filter.1 hx).1, fun x hx hlive => List.mem_filter.2 ⟨hx, ?_⟩⟩
    simpa using hgone x hlive

/-- The slots of every segment are filled from the front, in every run whose actions are orderly. -/
theorem reachable_seated (h : machine.ReachableUnder (Orderly dest) c) : c.Inv False ∧ Seated dest c := by
  induction h with
  | init hinit =>
    obtain ⟨jitChainingEnabled, rfl⟩ := hinit
    exact ⟨initial_inv False jitChainingEnabled, fun q s hs => by cases hs⟩
  | @step c c' action _ hC hstep ih =>
    obtain ⟨hinv, hseated⟩ := ih
    obtain ⟨henabled, hexec⟩ := step_some hstep
    have hinv' : c'.Inv False := (exec_post hinv henabled False.elim).of_ok hexec
    refine ⟨hinv', fun q s' hs' hfixed' => ?_⟩
    rcases (exec_moved hinv.ownBlocks action).of_ok hexec q s' hs' with ⟨-, hempty⟩ | ⟨s, hs, hblock, -⟩
    · exact ⟨[], hempty, Nat.zero_le _, List.nodup_nil, fun x hx => by cases hx⟩
    · have hfixed : s.endsWithFixedDestinationJump = true := (CodeSegment.ends_congr hblock).symm.trans hfixed'
      obtain ⟨xs, hseating⟩ := hseated q s hs hfixed
      obtain ⟨xs', hseating', -⟩ := hseating.step hinv hinv' hC henabled hexec hs hs' hfixed
      exact ⟨xs', hseating'⟩

/-- The segment `other` was added as a successor of `this` in a run whose actions meet a condition, and neither of them was
removed since. -/
inductive Added (C : CodeCache → CodeAction → Prop) (this other : Nat) : CodeCache → Prop
  | added {c c' : CodeCache} (h : machine.ReachableUnder C c) (hC : C c (.addSuccessor this other))
      (hs : c.step (.addSuccessor this other) = some c') : Added C this other c'
  | later {c c' : CodeCache} (action : CodeAction) (h : Added C this other c) (hC : C c action) (hs : c.step action = some c')
      (hthis : c'.segments.Live this) (hother : c'.segments.Live other) : Added C this other c'

theorem Added.reachable {C : CodeCache → CodeAction → Prop} (h : Added C this other c) : machine.ReachableUnder C c := by
  induction h with
  | added h hC hs => exact h.step _ hC hs
  | later action _ hC hs _ _ ih => exact ih.step action hC hs

/-- As long as both exist the one is in the slots of the other. -/
theorem Added.seat (h : Added (Orderly dest) this other c) : ∃ s, c.segments.get? this = some s ∧
    (s.endsWithFixedDestinationJump = true → ∃ xs, Seating dest c this s.fixedDestinationInfo xs ∧ other ∈ xs) := by
  induction h with
  | @added c c' hreach hC hstep =>
    obtain ⟨hinv, hseated⟩ := reachable_seated hreach
    obtain ⟨-, hseated'⟩ := reachable_seated (hreach.step _ hC hstep)
    obtain ⟨henabled, hexec⟩ := step_some hstep
    obtain ⟨s, hs⟩ := henabled.1
    obtain ⟨o, ho⟩ := henabled.2
    obtain ⟨s', hs'⟩ := ((addSuccessor_post hinv henabled.1 henabled.2).of_ok hexec).live this ⟨s, hs⟩
    refine ⟨s', hs', fun hfixed' => ?_⟩
    have hblock := (addSuccessor_moved.of_ok hexec this s' hs').start hs
    have hfixed : s.endsWithFixedDestinationJump = true := (CodeSegment.ends_congr hblock).symm.trans hfixed'
    obtain ⟨xs, hseating⟩ := hseated this s hs hfixed
    obtain ⟨-, hfree⟩ := hseating.free hinv hs hfixed ho hC.1
    obtain ⟨c₁, s₁, hexec₁, hs₁, hfilled⟩ := hseating.addSuccessor hs hfixed hfree ho
    obtain rfl : c₁ = c' := Except.ok.inj (hexec₁.symm.trans hexec)
    obtain rfl : s₁ = s' := Option.some.inj (hs₁.symm.trans hs')
    obtain ⟨xs', hseating'⟩ := hseated' this s₁ hs₁ hfixed'
    refine ⟨xs', hseating', CodeSegment.mem_seats.1 ?_⟩
    rw [← hseating'.filled, hfilled]
    exact CodeSegment.mem_seats.2 (by simp)
  | @later c c' action hadded hC hstep hthis hother ih =>
    obtain ⟨hinv, -⟩ := reachable_seated hadded.reachable
    obtain ⟨hinv', -⟩ := reachable_seated (hadded.reachable.step _ hC hstep)
    obtain ⟨henabled, hexec⟩ := step_some hstep
    obtain ⟨s, hs, hxs⟩ := ih
    obtain ⟨s', hs'⟩ := hthis
    refine ⟨s', hs', fun hfixed' => ?_⟩
    have hblock := ((exec_moved hinv.ownBlocks action).of_ok hexec this s' hs').start hs
    have hfixed : s.endsWithFixedDestinationJump = true := (CodeSegment.ends_congr hblock).symm.trans hfixed'
    obtain ⟨xs, hseating, hmem⟩ := hxs hfixed
    obtain ⟨xs', hseating', hkept⟩ := hseating.step hinv hinv' hC henabled hexec hs hs' hfixed
    exact ⟨xs', hseating', hkept other hmem hother⟩

/-- In a run whose actions are orderly a segment that is to be added finds a free slot, no segment is in two slots, and a segment
that was added is found until it is removed. -/
theorem fixed_destinations (h : machine.ReachableUnder (Orderly dest) c) (hs : c.segments.get? this = some s)
    (hfixed : s.endsWithFixedDestinationJump = true) :
    (∀ other, c.segments.Live other → c.AsExecuted dest (.addSuccessor this other) → ∃ c', c.addSuccessor this other = .ok c') ∧
    ((s.fixedDestinationInfo.filterMap (·.next)).Nodup ∧
      ∀ x ∈ s.fixedDestinationInfo.filterMap (·.next), c.segments.Live x) ∧
    ∀ other o, Added (Orderly dest) this other c → c.segments.get? other = some o →
      ∃ c', c.findNext this o.start = .ok (some other, c') := by
  obtain ⟨hinv, hseated⟩ := reachable_seated h
  obtain ⟨xs, hseating⟩ := hseated this s hs hfixed
  rw [CodeSegment.filterMap_nexts hseating.filled]
  refine ⟨fun other ⟨o, ho⟩ hC => ?_, ⟨hseating.nodup, fun x hx => ?_⟩, fun other o hadded ho => ?_⟩
  · obtain ⟨-, hfree⟩ := hseating.free hinv hs hfixed ho hC
    obtain ⟨c', -, hadd, -⟩ := hseating.addSuccessor hs hfixed hfree ho
    exact ⟨c', hadd⟩
  · obtain ⟨t, ht, -⟩ := hseating.starts x hx
    exact ⟨t, ht⟩
  · obtain ⟨s₀, hs₀, hxs⟩ := hadded.seat
    obtain rfl : s₀ = s := Option.some.inj (hs₀.symm.trans hs)
    obtain ⟨ys, hys, hmem⟩ := hxs hfixed
    exact hys.findNext hinv hs hfixed hmem ho

/-- A conditional jump at `4096` to `8192`, and the blocks on both of its sides. -/
def jumpRun : List CodeAction :=
  [.fetchSegment ⟨4096, 4112, true, false⟩, .fetchSegment ⟨4112, 4128, false, false⟩, .fetchSegment ⟨8192, 8208, false, false⟩,
    .addSuccessor 0 1, .findNext 0 4112, .addSuccessor 0 2]

def jumpDestinations (_ : Nat) : Nat × Nat := (4112, 8192)

/-- The block the jump leads to is removed, and fetched and added again. -/
theorem fixed_destinations_jump : ∃ c s, (machine.checked (Orderly jumpDestinations)).run (initial true)
      (jumpRun ++ [.removeSegments [2], .fetchSegment ⟨8192, 8208, false, false⟩, .addSuccessor 0 3]) = some c ∧
    c.segments.get? 0 = some s ∧
    (∀ other, c.segments.Live other → c.AsExecuted jumpDestinations (.addSuccessor 0 other) → ∃ c', c.addSuccessor 0 other = .ok c') ∧
    ((s.fixedDestinationInfo.filterMap (·.next)).Nodup ∧
      ∀ x ∈ s.fixedDestinationInfo.filterMap (·.next), c.segments.Live x) ∧
    ∀ other o, Added (Orderly jumpDestinations) 0 other c → c.segments.get? other = some o →
      ∃ c', c.findNext 0 o.start = .ok (some other, c') := by
  have hrun : ((machine.checked (Orderly jumpDestinations)).run (initial true)
      (jumpRun ++ [.removeSegments [2], .fetchSegment ⟨8192, 8208, false, false⟩, .addSuccessor 0 3])).map (fun c =>
      (c.segments.get? 0).map (·.endsWithFixedDestinationJump)) = some (some true) := by decide
  obtain ⟨c, hc, hview⟩ := Option.map_eq_some_iff.1 hrun
  obtain ⟨s, hs, hfixed⟩ := Option.map_eq_some_iff.1 hview
  have hstart : machine.ReachableUnder (Orderly jumpDestinations) (initial true) := .init ⟨true, rfl⟩
  exact ⟨c, s, hc, hs, fixed_destinations (hstart.run_checked _ hc) hs hfixed⟩

/-- The block after the jump is removed, and the jump is taken again. -/
def holeRun : List CodeAction := jumpRun ++ [.removeSegments [1], .findNext 0 8192, .addSuccessor 0 2]

/-- The block the jump leads to is in both slots. -/
theorem fixed_destinations_fails : ¬ ∀ dest c this s, machine.ReachableUnder (AsExecuted dest) c → c.segments.get? this = some s →
    s.endsWithFixedDestinationJump = true →
    (∀ other, c.segments.Live other → c.AsExecuted dest (.addSuccessor this other) → ∃ c', c.addSuccessor this other = .ok c') ∧
    ((s.fixedDestinationInfo.filterMap (·.next)).Nodup ∧
      ∀ x ∈ s.fixedDestinationInfo.filterMap (·.next), c.segments.Live x) ∧
    ∀ other o, Added (AsExecuted dest) this other c → c.segments.get? other = some o →
      ∃ c', c.findNext this o.start = .ok (some other, c') := by
  intro h
  have hrun : ((machine.checked (AsExecuted jumpDestinations)).run (initial true) holeRun).map (fun c =>
      (c.segments.get? 0).map fun s => (s.endsWithFixedDestinationJump, s.fixedDestinationInfo.filterMap (·.next))) =
      some (some (true, [2, 2])) := by decide
  obtain ⟨c, hc, hview⟩ := Option.map_eq_some_iff.1 hrun
  obtain ⟨s, hs, hview⟩ := Option.map_eq_some_iff.1 hview
  obtain ⟨hfixed, hslots⟩ := Prod.mk.inj hview
  have hstart : machine.ReachableUnder (AsExecuted jumpDestinations) (initial true) := .init ⟨true, rfl⟩
  have hnodup := (h jumpDestinations c 0 s (hstart.run_checked holeRun hc) hs hfixed).2.1.1
  rw [hslots] at hnodup
  exact absurd hnodup (by decide)

-- the block after the jump is fetched again, and no slot is left for it
example : ((machine.checked (AsExecuted jumpDestinations)).run (initial true)
    (holeRun ++ [.fetchSegment ⟨4112, 4128, false, false⟩])).map (fun c => (decide (c.AsExecuted jumpDestinations (.addSuccessor 0 3)),
      (c.addSuccessor 0 3).toOption.isNone)) = some (true, true) := by decide

end CodeCache

end X64Emulator
