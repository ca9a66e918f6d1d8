import Mathlib.Data.List.Forall2
import Mathlib.Tactic.Common

/-!
# Postconditions of computations that may fail

A computation gives a value or fails for a reason. `Post bad p x` says of a computation `x` that it does not fail for a bad
reason, and that a value it gives satisfies `p`. The rules follow the way computations are put together.
-/

namespace Outcome

universe u v

variable {ε : Type u} {α β : Type v} {bad : ε → Prop}

/-- The computation does not fail for a bad reason, and its value satisfies the postcondition. -/
def Post (bad : ε → Prop) (p : α → Prop) : Except ε α → Prop
  | .ok a => p a
  | .error e => ¬ bad e

/-- A value that the computation gives satisfies the postcondition; it may fail for any reason. -/
abbrev Yields (p : α → Prop) (x : Except ε α) : Prop := Post (fun _ => False) p x

/-- A condition that must hold, with the reason for the failure when it does not. -/
def check (c : Prop) [Decidable c] (e : ε) : Except ε Unit := if c then .ok () else .error e

theorem Post.ok {p : α → Prop} {a : α} (h : p a) : Post bad p (Except.ok a : Except ε α) := h

theorem Post.error {p : α → Prop} {e : ε} (h : ¬ bad e) : Post bad p (Except.error e : Except ε α) := h

theorem Post.bind {p : α → Prop} {q : β → Prop} {x : Except ε α} {f : α → Except ε β} (h : Post bad p x)
    (hf : ∀ a, p a → Post bad q (f a)) : Post bad q (x >>= f) := by
  cases x with
  | ok a => exact hf a h
  | error e => exact h

theorem Post.map {p : β → Prop} {x : Except ε α} {f : α → β} (h : Post bad (fun a => p (f a)) x) :
    Post bad p (f <$> x) := by
  cases x with
  | ok a => exact h
  | error e => exact h

/-- The failures are those of another computation under new names. -/
theorem Post.mapError {ε' : Type*} {f : ε' → ε} {p : α → Prop} {x : Except ε' α} (h : Post (fun e => bad (f e)) p x) :
    Post bad p (x.mapError f) := by
  cases x with
  | ok a => exact h
  | error e => exact h

theorem Post.mono {p q : α → Prop} {x : Except ε α} (h : Post bad p x) (hpq : ∀ a, p a → q a) : Post bad q x := by
  cases x with
  | ok a => exact hpq a h
  | error e => exact h

/-- Fewer failures are bad. -/
theorem Post.anti {bad' : ε → Prop} {p : α → Prop} {x : Except ε α} (h : Post bad p x) (hbad : ∀ e, bad' e → bad e) :
    Post bad' p x := by
  cases x with
  | ok a => exact h
  | error e => exact fun he => h (hbad e he)

theorem Post.and {p q : α → Prop} {x : Except ε α} (hp : Post bad p x) (hq : Post bad q x) :
    Post bad (fun a => p a ∧ q a) x := by
  cases x with
  | ok a => exact ⟨hp, hq⟩
  | error e => exact hp

/-- Where no failure is bad and nothing is asked of the value. -/
theorem Post.any (x : Except ε α) : Post (fun _ => False) (fun _ => True) x := by
  cases x with
  | ok a => exact trivial
  | error e => exact id

/-- A computation whose value does not matter, where any failure is allowed. -/
theorem Post.skip {q : β → Prop} {x : Except ε α} {f : α → Except ε β} (hf : ∀ a, Yields q (f a)) : Yields q (x >>= f) :=
  Post.bind (Post.any x) fun a _ => hf a

/-- The value of a computation is the one it gives. -/
theorem Post.self (x : Except ε α) : Post (fun _ => False) (fun a => x = .ok a) x := by
  cases x with
  | ok a => rfl
  | error e => exact id

/-- A computation that fails for no reason gives a value. -/
theorem Post.total {p : α → Prop} {x : Except ε α} (h : Post (fun _ => True) p x) : ∃ a, x = .ok a ∧ p a := by
  cases x with
  | ok a => exact ⟨a, rfl, h⟩
  | error e => exact absurd trivial h

theorem ok_bind (a : α) (f : α → Except ε β) : (Except.ok a >>= f) = f a := rfl

theorem error_bind (e : ε) (f : α → Except ε β) : (Except.error e >>= f) = .error e := rfl

/-- Pairs that two computations give are equal part by part. -/
theorem ok_pair {a c : α} {b d : β} (h : (.ok (a, b) : Except ε (α × β)) = .ok (c, d)) : a = c ∧ b = d :=
  Prod.mk.inj (Except.ok.inj h)

/-- A computation in two parts gives a value when both parts do. -/
theorem bind_eq_ok {x : Except ε α} {f : α → Except ε β} {b : β} : x >>= f = .ok b ↔ ∃ a, x = .ok a ∧ f a = .ok b := by
  cases x with
  | ok a => exact ⟨fun h => ⟨a, rfl, h⟩, fun ⟨_, ha, h⟩ => Except.ok.inj ha ▸ h⟩
  | error e => exact ⟨fun h => (nomatch h), fun ⟨_, ha, _⟩ => (nomatch ha)⟩

theorem map_eq_ok {x : Except ε α} {f : α → β} {b : β} : f <$> x = .ok b ↔ ∃ a, x = .ok a ∧ f a = b := by
  cases x with
  | ok a => simp [Functor.map, Except.map]
  | error e => simp [Functor.map, Except.map]

/-- New names for the failures leave the value. -/
theorem mapError_eq_ok {ε' : Type*} {f : ε → ε'} {x : Except ε α} {a : α} : x.mapError f = .ok a ↔ x = .ok a := by
  cases x with
  | ok b => simp [Except.mapError]
  | error e => simp [Except.mapError]

theorem toOption_eq_some {x : Except ε α} {a : α} : x.toOption = some a ↔ x = .ok a := by
  cases x with
  | ok b => simp [Except.toOption]
  | error e => simp [Except.toOption]

/-- A step that is taken only where it is enabled, and that gives nothing where it fails. -/
theorem enabled_toOption_eq_some {c : Prop} [Decidable c] {x : Except ε α} {a : α} :
    (if c then x.toOption else none) = some a ↔ c ∧ x = .ok a := by
  split
  · next hc => simp [hc, toOption_eq_some]
  · next hc => simp [hc]

theorem check_eq_ok {c : Prop} [Decidable c] {e : ε} {u : Unit} : check c e = .ok u ↔ c := by
  unfold check
  split
  · next hc => exact ⟨fun _ => hc, fun _ => rfl⟩
  · next hc => exact ⟨fun h => (nomatch h), fun h => absurd h hc⟩

/-- A check fails badly only when its reason is bad and its condition is false. -/
theorem Post.check {c : Prop} [Decidable c] {e : ε} (h : bad e → c) : Post bad (fun _ => c) (Outcome.check c e) := by
  unfold Outcome.check
  split
  · next hc => exact hc
  · next hc => exact fun he => hc (h he)

theorem Post.ite {p : α → Prop} {c : Prop} [Decidable c] {x y : Except ε α} (hx : c → Post bad p x)
    (hy : ¬ c → Post bad p y) : Post bad p (if c then x else y) := by
  split
  · next hc => exact hx hc
  · next hc => exact hy hc

/-- What a postcondition says of a value that was given. -/
theorem Post.of_ok {p : α → Prop} {x : Except ε α} {a : α} (h : Post bad p x) (hx : x = .ok a) : p a := by
  subst hx
  exact h

/-- What a postcondition says of a failure. -/
theorem Post.of_error {p : α → Prop} {x : Except ε α} {e : ε} (h : Post bad p x) (hx : x = .error e) : ¬ bad e := by
  subst hx
  exact h

/-- A loop keeps what each of its turns keeps. -/
theorem Post.foldlM {p : β → Prop} {f : β → α → Except ε β} {l : List α} {b : β} (h : p b)
    (hf : ∀ b a, a ∈ l → p b → Post bad p (f b a)) : Post bad p (l.foldlM f b) := by
  induction l generalizing b with
  | nil => exact h
  | cons a l ih =>
    rw [List.foldlM_cons]
    exact Post.bind (hf b a List.mem_cons_self h) fun b' hb' =>
      ih hb' (fun b a ha => hf b a (List.mem_cons_of_mem _ ha))

/-- The same, where what holds may speak of the turns that are still to come. -/
theorem Post.foldlM_rest {p : List α → β → Prop} {f : β → α → Except ε β} {l : List α} {b : β} (h : p l b)
    (hf : ∀ b a rest, p (a :: rest) b → Post bad (p rest) (f b a)) : Post bad (p []) (l.foldlM f b) := by
  induction l generalizing b with
  | nil => exact h
  | cons a l ih =>
    rw [List.foldlM_cons]
    exact Post.bind (hf b a l h) fun b' hb' => ih hb'

/-- What a loop collects satisfies what each of its turns gives. -/
theorem Post.mapM {p : α → β → Prop} {f : α → Except ε β} {l : List α} (hf : ∀ a ∈ l, Post bad (p a) (f a)) :
    Post bad (List.Forall₂ p l) (l.mapM f) := by
  induction l with
  | nil => exact .nil
  | cons a l ih =>
    rw [List.mapM_cons]
    exact Post.bind (hf a List.mem_cons_self) fun b hb =>
      Post.bind (ih fun a ha => hf a (List.mem_cons_of_mem _ ha)) fun l' hl' => .cons hb hl'

/-- A loop that collects gives what each of its turns gives. -/
theorem mapM_eq_ok {f : α → Except ε β} {l : List α} {l' : List β} :
    l.mapM f = .ok l' ↔ List.Forall₂ (fun a b => f a = .ok b) l l' := by
  induction l generalizing l' with
  | nil =>
    rw [List.mapM_nil]
    constructor
    · intro h
      cases h
      exact .nil
    · intro h
      cases h
      rfl
  | cons a l ih =>
    rw [List.mapM_cons, bind_eq_ok]
    constructor
    · rintro ⟨b, hb, h⟩
      obtain ⟨bs, hbs, h⟩ := bind_eq_ok.1 h
      rw [← Except.ok.inj h]
      exact .cons hb (ih.1 hbs)
    · intro h
      cases h with
      | cons hb hbs => exact ⟨_, hb, bind_eq_ok.2 ⟨_, ih.2 hbs, rfl⟩⟩

theorem mapM_of_ok {f : α → Except ε β} {g : α → β} {l : List α} (h : ∀ a ∈ l, f a = .ok (g a)) :
    l.mapM f = .ok (l.map g) := by
  induction l with
  | nil => rfl
  | cons a l ih =>
    rw [List.mapM_cons, h a List.mem_cons_self, ok_bind, ih fun a ha => h a (List.mem_cons_of_mem _ ha)]
    rfl

/-- A loop that collects fails where one of its turns does, when there is one way to fail. -/
theorem mapM_of_error {f : α → Except ε β} {g : α → β} {e : ε} {l : List α} (h : ∀ a ∈ l, f a = .ok (g a) ∨ f a = .error e)
    (herror : ∃ a ∈ l, f a = .error e) : l.mapM f = .error e := by
  induction l with
  | nil => simp at herror
  | cons a l ih =>
    rw [List.mapM_cons]
    rcases h a List.mem_cons_self with hok | hfailed
    · have hrest : ∃ a ∈ l, f a = .error e := by
        obtain ⟨b, hb, hfailed⟩ := herror
        rcases List.mem_cons.1 hb with rfl | hb
        · rw [hok] at hfailed
          cases hfailed
        · exact ⟨b, hb, hfailed⟩
      rw [hok, ok_bind, ih (fun a ha => h a (List.mem_cons_of_mem _ ha)) hrest]
      rfl
    · rw [hfailed]
      rfl

/-- An element of the first of two related lists is related to one of the second. -/
theorem exists_of_forall₂_left {α β : Type*} {R : α → β → Prop} {l : List α} {l' : List β} (h : List.Forall₂ R l l') {a : α}
    (ha : a ∈ l) : ∃ b ∈ l', R a b := by
  induction h with
  | nil => cases ha
  | cons hab _ ih =>
    rcases List.mem_cons.1 ha with rfl | ha
    · exact ⟨_, List.mem_cons_self, hab⟩
    · obtain ⟨b, hb, hR⟩ := ih ha
      exact ⟨b, List.mem_cons_of_mem _ hb, hR⟩

/-- An element of the second of two related lists is related to one of the first. -/
theorem exists_of_forall₂_right {α β : Type*} {R : α → β → Prop} {l : List α} {l' : List β} (h : List.Forall₂ R l l') {b : β}
    (hb : b ∈ l') : ∃ a ∈ l, R a b := exists_of_forall₂_left h.flip hb

/-! ## Failures alone -/

/-- The computation does not fail for a bad reason. -/
abbrev Avoids (bad : ε → Prop) (x : Except ε α) : Prop := Post bad (fun _ => True) x

/-- A computation in two parts avoids what both parts avoid. -/
theorem avoids_bind_iff {x : Except ε α} {f : α → Except ε β} :
    Avoids bad (x >>= f) ↔ Avoids bad x ∧ ∀ a, x = .ok a → Avoids bad (f a) := by
  cases x with
  | ok a =>
    constructor
    · intro h
      refine ⟨trivial, ?_⟩
      intro b hb
      exact Except.ok.inj hb ▸ h
    · intro h
      exact h.2 a rfl
  | error e =>
    constructor
    · intro h
      refine ⟨h, ?_⟩
      intro a ha
      cases ha
    · intro h
      exact h.1

/-- Where every failure is bad, to avoid them all is to give a value. -/
theorem avoids_all_iff {x : Except ε α} : Avoids (fun _ => True) x ↔ ∃ a, x = .ok a := by
  constructor
  · intro h
    obtain ⟨a, ha, -⟩ := h.total
    exact ⟨a, ha⟩
  · rintro ⟨a, rfl⟩
    trivial

theorem avoids_eq_iff {e : ε} {x : Except ε α} : Avoids (· = e) x ↔ x ≠ .error e := by
  cases x with
  | ok a => simp [Avoids, Post]
  | error e' => simp [Avoids, Post]

end Outcome
