import Mathlib.Data.List.Chain
import Mathlib.Data.List.Pairwise
import Mathlib.Data.List.TakeWhile
import Mathlib.Tactic.Common

/-!
# Lists of ranges in order

A range is anything with a first point `lo` and a point `hi` just past its last. A list of ranges is in order when each of
them ends before the next begins, and a new range joins the list where a binary search for its first point puts it.
-/

namespace Ranges

variable {α : Type*} (lo hi : α → Nat)

/-- Each range of the list ends before the later ones begin. -/
def Ordered (l : List α) : Prop := l.Pairwise (fun a b => hi a ≤ lo b)

/-- The list with `x` put before the first range that does not begin before it. -/
def insert (x : α) (l : List α) : List α :=
  l.takeWhile (fun a => decide (lo a < lo x)) ++ x :: l.dropWhile (fun a => decide (lo a < lo x))

variable {lo hi}

theorem insert_perm (x : α) (l : List α) : (insert lo x l).Perm (x :: l) := by
  have h : (insert lo x l).Perm (x :: (l.takeWhile (fun a => decide (lo a < lo x)) ++
      l.dropWhile (fun a => decide (lo a < lo x)))) := List.perm_middle
  rwa [List.takeWhile_append_dropWhile] at h

@[simp] theorem mem_insert {x y : α} {l : List α} : y ∈ insert lo x l ↔ y = x ∨ y ∈ l := by
  rw [(insert_perm x l).mem_iff, List.mem_cons]

/-- A range that begins after all of a list joins it at the end. -/
theorem insert_of_forall_lt {x : α} {l : List α} (h : ∀ a ∈ l, lo a < lo x) : insert lo x l = l ++ [x] := by
  have hall : ∀ a ∈ l, decide (lo a < lo x) = true := fun a ha => decide_eq_true (h a ha)
  rw [insert, List.takeWhile_eq_self_iff.2 hall, List.dropWhile_eq_nil_iff.2 hall]

theorem lt_of_mem_takeWhile {x a : α} {l : List α} (h : a ∈ l.takeWhile (fun a => decide (lo a < lo x))) :
    lo a < lo x := by
  have := List.mem_takeWhile_imp h
  simpa using this

/-- In a list in order, what the search leaves behind the insertion point begins no earlier than the new range. -/
theorem Ordered.le_of_mem_dropWhile {x a : α} {l : List α} (h : Ordered lo hi l) (hne : ∀ a ∈ l, lo a < hi a)
    (ha : a ∈ l.dropWhile (fun a => decide (lo a < lo x))) : lo x ≤ lo a := by
  induction l with
  | nil => simp at ha
  | cons b l ih =>
    obtain ⟨hb, hl⟩ := List.pairwise_cons.1 h
    by_cases hlt : lo b < lo x
    · rw [List.dropWhile_cons_of_pos (by simpa using hlt)] at ha
      exact ih hl (fun a ha => hne a (List.mem_cons_of_mem _ ha)) ha
    · rw [List.dropWhile_cons_of_neg (by simpa using hlt)] at ha
      rcases List.mem_cons.1 ha with rfl | ha
      · omega
      · have h1 := hb a ha
        have h2 := hne b List.mem_cons_self
        omega

/-- A range disjoint from all of a list in order joins it in order. -/
theorem Ordered.insert {x : α} {l : List α} (h : Ordered lo hi l) (hne : ∀ a ∈ l, lo a < hi a) (hx : lo x < hi x)
    (hd : ∀ a ∈ l, hi a ≤ lo x ∨ hi x ≤ lo a) : Ordered lo hi (Ranges.insert lo x l) := by
  have hsplit : Ordered lo hi (l.takeWhile (fun a => decide (lo a < lo x)) ++
      l.dropWhile (fun a => decide (lo a < lo x))) := by
    rw [List.takeWhile_append_dropWhile]
    exact h
  obtain ⟨h1, h2, h3⟩ := List.pairwise_append.1 hsplit
  refine List.pairwise_append.2 ⟨h1, List.pairwise_cons.2 ⟨?_, h2⟩, ?_⟩
  · intro a ha
    have hle := h.le_of_mem_dropWhile hne ha
    have hal := (List.dropWhile_sublist _).subset ha
    rcases hd a hal with hd | hd
    · have := hne a hal
      omega
    · exact hd
  · intro a ha b hb
    have hlt := lt_of_mem_takeWhile ha
    have hal := (List.takeWhile_sublist _).subset ha
    rcases List.mem_cons.1 hb with rfl | hb
    · rcases hd a hal with hd | hd
      · exact hd
      · omega
    · exact h3 a ha b hb

/-- Two ranges of a list in order that share a point are the same range. -/
theorem Ordered.eq_of_shared {a b : α} {l : List α} (h : Ordered lo hi l) (ha : a ∈ l) (hb : b ∈ l) {p : Nat}
    (hap : lo a ≤ p ∧ p < hi a) (hbp : lo b ≤ p ∧ p < hi b) : a = b := by
  by_contra hne
  have hor : hi a ≤ lo b ∨ hi b ≤ lo a := by
    have hs : l.Pairwise (fun a b => hi a ≤ lo b ∨ hi b ≤ lo a) := h.imp Or.inl
    have : Std.Symm (fun a b : α => hi a ≤ lo b ∨ hi b ≤ lo a) := ⟨fun _ _ hxy => hxy.symm⟩
    exact hs.forall ha hb hne
  rcases hor with h1 | h1 <;> omega

theorem Ordered.filter {l : List α} (h : Ordered lo hi l) (p : α → Bool) : Ordered lo hi (l.filter p) :=
  List.Pairwise.filter p h

/-- The ranges of a list in order touch each other exactly when they miss no point between any two of them. -/
theorem Ordered.touching_iff {l : List α} (h : Ordered lo hi l) (hne : ∀ a ∈ l, lo a < hi a) :
    l.IsChain (fun a b => hi a = lo b) ↔
      ∀ a ∈ l, ∀ b ∈ l, ∀ p, lo a ≤ p → p < hi b → ∃ c ∈ l, lo c ≤ p ∧ p < hi c := by
  induction l with
  | nil => simp
  | cons a l ih =>
    obtain ⟨ha, hl⟩ := List.pairwise_cons.1 h
    have hnel : ∀ b ∈ l, lo b < hi b := fun b hb => hne b (List.mem_cons_of_mem _ hb)
    have hpast : ∀ b ∈ l, ∀ p, lo b ≤ p → ¬ p < hi a := by
      intro b hb p hp hlt
      have := ha b hb
      omega
    cases l with
    | nil => simpa using fun p h1 h2 => And.intro h1 h2
    | cons b l =>
      rw [List.isChain_cons_cons, ih hl hnel]
      constructor
      · rintro ⟨hab, hall⟩ x hx y hy p hxp hpy
        by_cases hpa : p < hi a
        · rcases List.mem_cons.1 hx with rfl | hx
          · exact ⟨x, List.mem_cons_self, hxp, hpa⟩
          · exact absurd hpa (hpast x hx p hxp)
        · -- the point is past the first range, so the second range can stand for it
          rcases List.mem_cons.1 hy with rfl | hyl
          · exact absurd hpy hpa
          · obtain ⟨c, hc, hcp⟩ : ∃ c ∈ b :: l, lo c ≤ p ∧ p < hi c := by
              rcases List.mem_cons.1 hx with rfl | hx
              · exact hall b List.mem_cons_self y hyl p (by omega) hpy
              · exact hall x hx y hyl p hxp hpy
            exact ⟨c, List.mem_cons_of_mem _ hc, hcp⟩
      · intro hall
        have hab := ha b List.mem_cons_self
        have hb := hnel b List.mem_cons_self
        have halt := hne a List.mem_cons_self
        refine ⟨?_, ?_⟩
        · obtain ⟨c, hc, hcp⟩ := hall a List.mem_cons_self b (List.mem_cons_of_mem _ List.mem_cons_self) (min (hi a) (lo b))
            (by omega) (by omega)
          rcases List.mem_cons.1 hc with rfl | hc
          · omega
          · rcases List.mem_cons.1 hc with rfl | hc
            · omega
            · have hbc := (List.pairwise_cons.1 hl).1 c hc
              omega
        · intro x hx y hy p hxp hpy
          obtain ⟨c, hc, hcp⟩ := hall x (List.mem_cons_of_mem _ hx) y (List.mem_cons_of_mem _ hy) p hxp hpy
          rcases List.mem_cons.1 hc with rfl | hc
          · exact absurd hcp.2 (hpast x hx p hxp)
          · exact ⟨c, hc, hcp⟩

end Ranges
