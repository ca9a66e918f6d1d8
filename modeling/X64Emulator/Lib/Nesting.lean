import Mathlib.Data.List.Induction
import Mathlib.Data.List.Infix
import Mathlib.Order.Basic
import Mathlib.Order.Lattice
import Mathlib.Tactic.Common

/-!
# Openings and closings, and nested spans

In a sequence some elements open something and some close it. It is balanced when no beginning of it closes more than it opens.

At increasing times something is opened, or what was opened last is closed. A stack holds what is open. Every closing makes a
span of it, with as its depth the number of things it was opened in; the spans are nested or apart, the depth of a span is the
number of spans around it, and what lies between the two ends of a span is balanced.
-/

namespace Brackets

variable {α : Type*} (opens closes : α → Bool)

def Balanced (l : List α) : Prop := ∀ p, p <+: l → p.countP closes ≤ p.countP opens

variable {opens closes} {l m : List α} {a : α}

instance : Decidable (Balanced opens closes l) :=
  decidable_of_iff (∀ p ∈ l.inits, p.countP closes ≤ p.countP opens) (by simp [Balanced])

@[simp] theorem balanced_nil : Balanced opens closes [] := by
  intro p hp
  rw [List.prefix_nil.1 hp]
  exact Nat.le_refl _

theorem Balanced.le (h : Balanced opens closes l) : l.countP closes ≤ l.countP opens := h l (List.prefix_refl l)

theorem balanced_concat_iff :
    Balanced opens closes (l ++ [a]) ↔ Balanced opens closes l ∧ (l ++ [a]).countP closes ≤ (l ++ [a]).countP opens := by
  constructor
  · intro h
    exact ⟨fun p hp => h p (hp.trans (List.prefix_append _ _)), h.le⟩
  · rintro ⟨h, hle⟩ p hp
    rcases List.prefix_concat_iff.1 hp with rfl | hp
    · exact hle
    · exact h p hp

theorem Balanced.opening (h : Balanced opens closes l) (hopen : opens a = true) (hclose : closes a = false) :
    Balanced opens closes (l ++ [a]) := by
  refine balanced_concat_iff.2 ⟨h, ?_⟩
  have hle := h.le
  simp only [List.countP_append, List.countP_singleton, hopen, hclose]
  simp
  omega

/-- As many closings fit behind a balanced sequence as there are openings that are not closed. -/
theorem Balanced.closings (h : Balanced opens closes l) (hm : ∀ a ∈ m, opens a = false ∧ closes a = true)
    (hle : l.countP closes + m.length ≤ l.countP opens) : Balanced opens closes (l ++ m) := by
  induction m generalizing l with
  | nil => rwa [List.append_nil]
  | cons a m ih =>
    obtain ⟨hopen, hclose⟩ := hm a (List.mem_cons_self ..)
    have hcounts : (l ++ [a]).countP closes = l.countP closes + 1 ∧ (l ++ [a]).countP opens = l.countP opens := by
      simp [hopen, hclose]
    rw [List.length_cons] at hle
    rw [← List.singleton_append, ← List.append_assoc]
    apply ih
    · exact balanced_concat_iff.2 ⟨h, by omega⟩
    · intro b hb
      exact hm b (List.mem_cons_of_mem _ hb)
    · omega

end Brackets

namespace Nesting

variable {τ α : Type*}

inductive Event (τ α : Type*) where
  | opening (time : τ) (item : α)
  | closing (time : τ)
deriving DecidableEq

namespace Event

def time : Event τ α → τ
  | opening t _ => t
  | closing t => t

def opens : Event τ α → Bool
  | opening _ _ => true
  | closing _ => false

def closes : Event τ α → Bool
  | opening _ _ => false
  | closing _ => true

/-- When what was opened, if something was. -/
def opened? : Event τ α → Option (τ × α)
  | opening t a => some (t, a)
  | closing _ => none

end Event

/-- Something that was opened, with the number of things that were open. -/
structure Entry (τ α : Type*) where
  start : τ
  item : α
  depth : Nat

/-- Something that was closed. -/
structure Span (τ α : Type*) extends Entry τ α where
  stop : τ

/-- What is open, the last first, and what was closed, the last one last. -/
structure Stack (τ α : Type*) where
  opened : List (Entry τ α)
  closed : List (Span τ α)

def Stack.empty : Stack τ α := ⟨[], []⟩

def Stack.push (s : Stack τ α) (t : τ) (a : α) : Stack τ α := { s with opened := ⟨t, a, s.opened.length⟩ :: s.opened }

/-- A sequence of events and the stack after it. -/
inductive Runs : List (Event τ α) → Stack τ α → Prop where
  | nil : Runs [] .empty
  | opening {l : List (Event τ α)} {s : Stack τ α} (t : τ) (a : α) (h : Runs l s) : Runs (l ++ [.opening t a]) (s.push t a)
  | closing {l : List (Event τ α)} {e : Entry τ α} {rest : List (Entry τ α)} {spans : List (Span τ α)} (t : τ)
      (h : Runs l ⟨e :: rest, spans⟩) : Runs (l ++ [.closing t]) ⟨rest, spans ++ [⟨e, t⟩]⟩

/-- A balanced sequence that leaves nothing open. -/
def Even (l : List (Event τ α)) : Prop :=
  Brackets.Balanced Event.opens Event.closes l ∧ l.countP Event.closes = l.countP Event.opens

/-- The closing at one time closes what was opened at another. -/
def Matches (l : List (Event τ α)) (start stop : τ) : Prop :=
  ∃ before a between after, l = before ++ .opening start a :: (between ++ .closing stop :: after) ∧ Even between

variable {l m : List (Event τ α)} {s : Stack τ α}

/-! ## What is counted -/

theorem Runs.counts (h : Runs l s) :
    s.opened.length + l.countP Event.closes = l.countP Event.opens ∧ s.closed.length = l.countP Event.closes := by
  induction h with
  | nil => simp [Stack.empty]
  | opening t a h ih =>
    simp only [Stack.push, List.length_cons, List.countP_append, List.countP_singleton, Event.opens, Event.closes]
    simp
    omega
  | closing t h ih =>
    simp only [List.length_append, List.length_cons, List.countP_append, List.countP_singleton, Event.opens, Event.closes] at ih ⊢
    simp
    omega

/-- Everything that was opened is open or was closed. -/
theorem Runs.perm (h : Runs l s) :
    (s.closed.map (fun p => (p.start, p.item)) ++ s.opened.map (fun e => (e.start, e.item))).Perm
      (l.filterMap Event.opened?) := by
  induction h with
  | nil => exact .nil
  | opening t a h ih =>
    simp only [Stack.push, List.map_cons, List.filterMap_append, List.filterMap_cons, Event.opened?, List.filterMap_nil]
    exact (List.perm_middle.trans (List.perm_append_singleton _ _).symm).trans (ih.append_right _)
  | closing t h ih =>
    have hlast : [Event.closing t].filterMap Event.opened? = ([] : List (τ × α)) := rfl
    rw [List.filterMap_append, hlast, List.append_nil]
    simpa using ih

/-- What was opened carries the number of things that were open. -/
theorem Runs.depth (h : Runs l s) {before after : List (Event τ α)} {t : τ} {a : α}
    (hl : l = before ++ .opening t a :: after) :
    ∃ e : Entry τ α, (e ∈ s.opened ∨ ∃ p ∈ s.closed, p.toEntry = e) ∧ e.start = t ∧
      e.depth = before.countP Event.opens - before.countP Event.closes := by
  induction h generalizing after with
  | nil => simp at hl
  | @opening l s t' a' h ih =>
    rcases List.eq_nil_or_concat after with rfl | ⟨after, last, rfl⟩
    · obtain ⟨rfl, hlast⟩ := List.append_inj' hl rfl
      cases hlast
      have hcounts := h.counts.1
      exact ⟨_, .inl List.mem_cons_self, rfl, by simp only; omega⟩
    · have hl' : l ++ [.opening t' a'] = (before ++ .opening t a :: after) ++ [last] := by simpa using hl
      obtain ⟨e, he, hstart⟩ := ih (List.append_inj' hl' rfl).1
      exact ⟨e, he.imp_left (List.mem_cons_of_mem _), hstart⟩
  | @closing l top rest spans t' h ih =>
    rcases List.eq_nil_or_concat after with rfl | ⟨after, last, rfl⟩
    · cases (List.append_inj' hl rfl).2
    · have hl' : l ++ [.closing t'] = (before ++ .opening t a :: after) ++ [last] := by simpa using hl
      obtain ⟨e, he, hstart⟩ := ih (List.append_inj' hl' rfl).1
      refine ⟨e, ?_, hstart⟩
      rcases he with he | ⟨p, hp, hpe⟩
      · rcases List.mem_cons.1 he with rfl | he
        · exact .inr ⟨⟨e, t'⟩, by simp, rfl⟩
        · exact .inl he
      · exact .inr ⟨p, List.mem_append_left _ hp, hpe⟩

/-- Everything on the stack was opened, with the number of things that were open then. -/
theorem Runs.opening_of_mem (h : Runs l s) {e : Entry τ α} (he : e ∈ s.opened ∨ ∃ p ∈ s.closed, p.toEntry = e) :
    ∃ before after, l = before ++ .opening e.start e.item :: after ∧
      e.depth = before.countP Event.opens - before.countP Event.closes := by
  induction h with
  | nil => simp [Stack.empty] at he
  | @opening l s t a h ih =>
    rcases he with he | he
    · rcases List.mem_cons.1 he with rfl | he
      · have hcounts := h.counts.1
        exact ⟨l, [], rfl, by simp only; omega⟩
      · obtain ⟨before, after, rfl, hdepth⟩ := ih (.inl he)
        exact ⟨before, after ++ [.opening t a], by simp, hdepth⟩
    · obtain ⟨before, after, rfl, hdepth⟩ := ih (.inr he)
      exact ⟨before, after ++ [.opening t a], by simp, hdepth⟩
  | @closing l top rest spans t h ih =>
    have hbefore : e ∈ top :: rest ∨ ∃ p ∈ spans, p.toEntry = e := by
      rcases he with he | ⟨p, hp, rfl⟩
      · exact .inl (List.mem_cons_of_mem _ he)
      · rcases List.mem_append.1 hp with hp | hp
        · exact .inr ⟨p, hp, rfl⟩
        · obtain rfl := List.mem_singleton.1 hp
          exact .inl List.mem_cons_self
    obtain ⟨before, after, rfl, hdepth⟩ := ih hbefore
    exact ⟨before, after ++ [.closing t], by simp, hdepth⟩

/-! ## What lies between the ends -/

theorem even_nil : Even ([] : List (Event τ α)) := ⟨Brackets.balanced_nil, rfl⟩

theorem Even.append (hl : Even l) (hm : Even m) : Even (l ++ m) := by
  constructor
  · intro p hp
    rcases List.prefix_or_prefix_of_prefix hp (List.prefix_append l m) with hp' | ⟨q, rfl⟩
    · exact hl.1 p hp'
    · rw [List.countP_append, List.countP_append, hl.2]
      exact Nat.add_le_add_left (hm.1 q ((List.prefix_append_right_inj l).1 hp)) _
  · rw [List.countP_append, List.countP_append, hl.2, hm.2]

/-- Something opened before a sequence that leaves nothing open, and closed after it. -/
theorem Even.wrap (h : Even l) (t t' : τ) (a : α) : Even (.opening t a :: (l ++ [.closing t'])) := by
  constructor
  · intro p hp
    cases p with
    | nil => exact Nat.le_refl _
    | cons e q =>
      obtain ⟨rfl, hq⟩ := List.cons_prefix_cons.1 hp
      rcases List.prefix_concat_iff.1 hq with rfl | hq
      · simp [List.countP_cons, Event.opens, Event.closes, h.2]
      · have hle := h.1 q hq
        simp [List.countP_cons, Event.opens, Event.closes]
        omega
  · simp [List.countP_cons, Event.opens, Event.closes, h.2]

/-- A sequence that does not open more than it closes does not end with an opening. -/
theorem Even.ne_concat (h : Even l) (t : τ) (a : α) : l ≠ m ++ [.opening t a] := by
  rintro rfl
  have hle := h.1 m (List.prefix_append ..)
  have heq := h.2
  simp [Event.opens, Event.closes] at heq
  omega

theorem Matches.append {start stop : τ} (h : Matches l start stop) (m : List (Event τ α)) : Matches (l ++ m) start stop := by
  obtain ⟨before, a, between, after, rfl, heven⟩ := h
  exact ⟨before, a, between, after ++ m, by simp, heven⟩

/-- A sequence that leaves some entries open: between them it leaves nothing open. -/
inductive Leaves : List (Event τ α) → List (Entry τ α) → Prop where
  | nil {l : List (Event τ α)} (h : Even l) : Leaves l []
  | cons {l m : List (Event τ α)} {es : List (Entry τ α)} {e : Entry τ α} (h : Leaves l es) (hm : Even m) :
      Leaves (l ++ .opening e.start e.item :: m) (e :: es)

theorem Leaves.append {es : List (Entry τ α)} (h : Leaves l es) (hm : Even m) : Leaves (l ++ m) es := by
  cases h with
  | nil h => exact .nil (h.append hm)
  | @cons l m' es e h hm' =>
    have hcons := Leaves.cons (e := e) h (hm'.append hm)
    simpa using hcons

theorem Runs.leaves (h : Runs l s) : Leaves l s.opened := by
  induction h with
  | nil => exact .nil even_nil
  | @opening l s t a h ih => exact .cons (e := ⟨t, a, s.opened.length⟩) ih even_nil
  | @closing l e rest spans t h ih =>
    cases ih with
    | @cons l m _ _ hrest hm =>
      have hwhole := hrest.append (hm.wrap e.start t e.item)
      simpa using hwhole

/-- A span ends with the closing that belongs to its opening. -/
theorem Runs.matches (h : Runs l s) : ∀ p ∈ s.closed, Matches l p.start p.stop := by
  induction h with
  | nil => simp [Stack.empty]
  | opening t a h ih =>
    intro p hp
    exact (ih p hp).append _
  | @closing l e rest spans t h ih =>
    intro p hp
    rcases List.mem_append.1 hp with hp | hp
    · exact (ih p hp).append _
    · obtain rfl := List.mem_singleton.1 hp
      have hleaves := h.leaves
      cases hleaves with
      | @cons l m _ _ hrest hm => exact ⟨l, e.item, m, [], by simp, hm⟩

/-! ## Events at increasing times -/

section Times

variable [LinearOrder τ]

/-- One span is around another. -/
def Encloses (q p : Span τ α) : Prop := q.start < p.start ∧ p.stop ≤ q.stop

instance (q p : Span τ α) : Decidable (Encloses q p) := inferInstanceAs (Decidable (_ ∧ _))

/-- The spans of a stack are nested or apart, what is open is around what was opened later, and the depth of a span is the number
of spans and open things around it. -/
structure Stack.Nested (s : Stack τ α) : Prop where
  proper : ∀ p ∈ s.closed, p.start < p.stop
  opened : s.opened.Pairwise fun e e' => e'.start < e.start
  closed : s.closed.Pairwise fun p q => p.stop < q.stop ∧ (p.stop < q.start ∨ q.start < p.start)
  across : ∀ p ∈ s.closed, ∀ e ∈ s.opened, p.stop < e.start ∨ e.start < p.start
  depth : ∀ p ∈ s.closed, p.depth = s.closed.countP (fun q => Encloses q p) + s.opened.countP (fun e => e.start < p.start)
  level : ∀ above e below, s.opened = above ++ e :: below → e.depth = below.length

/-- Everything on the stack happened before a time. -/
def Stack.Before (s : Stack τ α) (t : τ) : Prop := (∀ e ∈ s.opened, e.start < t) ∧ ∀ p ∈ s.closed, p.stop < t

theorem Stack.Nested.push (h : s.Nested) {t : τ} (hbefore : s.Before t) (hproper : ∀ p ∈ s.closed, p.start < t) (a : α) :
    (s.push t a).Nested where
  proper := h.proper
  opened := List.pairwise_cons.2 ⟨hbefore.1, h.opened⟩
  closed := h.closed
  across p hp e he := by
    rcases List.mem_cons.1 he with rfl | he
    · exact .inl (hbefore.2 p hp)
    · exact h.across p hp e he
  depth p hp := by
    have hnot : ¬ t < p.start := not_lt.2 (hproper p hp).le
    simp only [Stack.push, List.countP_cons, hnot, decide_false, Bool.false_eq_true, if_false, Nat.add_zero]
    exact h.depth p hp
  level above e below heq := by
    cases above with
    | nil =>
      obtain ⟨rfl, rfl⟩ := List.cons.inj heq
      rfl
    | cons e' above => exact h.level above e below (List.cons.inj heq).2

theorem Stack.Nested.pop {e : Entry τ α} {rest : List (Entry τ α)} {spans : List (Span τ α)} {t : τ}
    (h : Stack.Nested ⟨e :: rest, spans⟩) (hbefore : Stack.Before ⟨e :: rest, spans⟩ t) :
    Stack.Nested ⟨rest, spans ++ [⟨e, t⟩]⟩ where
  proper p hp := by
    rcases List.mem_append.1 hp with hp | hp
    · exact h.proper p hp
    · obtain rfl := List.mem_singleton.1 hp
      exact hbefore.1 e List.mem_cons_self
  opened := (List.pairwise_cons.1 h.opened).2
  closed := by
    refine List.pairwise_append.2 ⟨h.closed, List.pairwise_singleton .., ?_⟩
    intro p hp q hq
    obtain rfl := List.mem_singleton.1 hq
    exact ⟨hbefore.2 p hp, h.across p hp e List.mem_cons_self⟩
  across p hp e' he' := by
    rcases List.mem_append.1 hp with hp | hp
    · exact h.across p hp e' (List.mem_cons_of_mem _ he')
    · obtain rfl := List.mem_singleton.1 hp
      exact .inr ((List.pairwise_cons.1 h.opened).1 e' he')
  depth p hp := by
    rw [List.countP_append, List.countP_singleton]
    rcases List.mem_append.1 hp with hp | hp
    · -- the closed thing is around the span exactly if it was when it was open
      have hiff : Encloses ⟨e, t⟩ p ↔ e.start < p.start := ⟨fun hq => hq.1, fun hq => ⟨hq, (hbefore.2 p hp).le⟩⟩
      have hdepth := h.depth p hp
      simp only [List.countP_cons, decide_eq_true_eq] at hdepth
      simp only [hiff, decide_eq_true_eq]
      omega
    · obtain rfl := List.mem_singleton.1 hp
      have hopened := (List.pairwise_cons.1 h.opened).1
      have hnone : spans.countP (fun q => Encloses q ⟨e, t⟩) = 0 := by
        refine List.countP_eq_zero.2 ?_
        intro q hq
        simp only [decide_eq_true_eq]
        exact fun hq' => not_le.2 (hbefore.2 q hq) hq'.2
      have hself : ¬ Encloses (⟨e, t⟩ : Span τ α) ⟨e, t⟩ := fun hq => lt_irrefl _ hq.1
      have hall : rest.countP (fun e' => e'.start < e.start) = rest.length :=
        List.countP_eq_length.2 fun e' he' => by simpa using hopened e' he'
      simp only [hnone, hself, hall, decide_false, Bool.false_eq_true, if_false, Nat.zero_add]
      exact h.level [] e rest rfl
  level above e' below heq := by
    subst heq
    exact h.level (e :: above) e' below rfl

theorem Runs.before (h : Runs l s) {t : τ} (ht : ∀ e ∈ l, e.time < t) : s.Before t := by
  induction h with
  | nil => exact ⟨by simp [Stack.empty], by simp [Stack.empty]⟩
  | opening t' a h ih =>
    have ih := ih fun e he => ht e (List.mem_append_left _ he)
    exact ⟨List.forall_mem_cons.2 ⟨ht (.opening t' a) (by simp), ih.1⟩, ih.2⟩
  | @closing l e rest spans t' h ih =>
    have ih := ih fun e he => ht e (List.mem_append_left _ he)
    refine ⟨fun e' he' => ih.1 e' (List.mem_cons_of_mem _ he'), ?_⟩
    intro p hp
    rcases List.mem_append.1 hp with hp | hp
    · exact ih.2 p hp
    · obtain rfl := List.mem_singleton.1 hp
      exact ht (.closing t') (by simp)

theorem Runs.nested (h : Runs l s) (htimes : l.Pairwise fun e e' => e.time < e'.time) : s.Nested := by
  induction h with
  | nil => constructor <;> simp [Stack.empty]
  | opening t a h ih =>
    obtain ⟨hl, -, hlast⟩ := List.pairwise_append.1 htimes
    have hbefore := h.before fun e he => hlast e he _ (List.mem_singleton_self _)
    have hnested := ih hl
    exact hnested.push hbefore (fun p hp => (hnested.proper p hp).trans (hbefore.2 p hp)) a
  | closing t h ih =>
    obtain ⟨hl, -, hlast⟩ := List.pairwise_append.1 htimes
    exact (ih hl).pop (h.before fun e he => hlast e he _ (List.mem_singleton_self _))

end Times

end Nesting
