import Mathlib.Data.Fintype.Card
import Mathlib.Data.Set.Finite.Lattice
import Mathlib.Logic.Relation
import Mathlib.Order.WellFounded

/-!
# Recursion of bounded depth

A procedure calls itself, and the arguments it does so with are given by a relation. With a bound on the depth of the recursion a
call ends if it works by itself and the calls it makes end within a depth of one less. Where finitely many arguments are met, a
call ends within some depth exactly if all calls after it work and none of them comes back to its own argument.
-/

namespace BoundedRecursion

open Relation

variable {α : Type*} {calls : α → α → Prop} {works : α → Prop} {a b : α} {m n : Nat}

/-- A call ends within a depth. -/
def EndsWithin (calls : α → α → Prop) (works : α → Prop) : Nat → α → Prop
  | 0, _ => False
  | n + 1, a => works a ∧ ∀ b, calls a b → EndsWithin calls works n b

theorem EndsWithin.succ (h : EndsWithin calls works n a) : EndsWithin calls works (n + 1) a := by
  induction n generalizing a with
  | zero => exact h.elim
  | succ n ih => exact ⟨h.1, fun b hb => ih (h.2 b hb)⟩

theorem EndsWithin.mono (h : EndsWithin calls works m a) (hmn : m ≤ n) : EndsWithin calls works n a := by
  induction hmn with
  | refl => exact h
  | step _ ih => exact ih.succ

/-- Of finitely many calls that end, all end within one depth. -/
theorem exists_common {s : Set α} (hs : s.Finite) (h : ∀ a ∈ s, ∃ n, EndsWithin calls works n a) :
    ∃ n, ∀ a ∈ s, EndsWithin calls works n a := by
  choose! depth hdepth using h
  obtain ⟨n, hn⟩ := (hs.image depth).bddAbove
  exact ⟨n, fun a ha => (hdepth a ha).mono (hn ⟨a, ha, rfl⟩)⟩

theorem EndsWithin.acc (h : EndsWithin calls works n a) : Acc (fun b a => calls a b) a := by
  induction n generalizing a with
  | zero => exact h.elim
  | succ n ih => exact .intro a fun b hb => ih (h.2 b hb)

theorem EndsWithin.here (h : EndsWithin calls works n a) : works a := by
  cases n with
  | zero => exact h.elim
  | succ n => exact h.1

/-- The calls after one that ends do so as well. -/
theorem EndsWithin.later (h : EndsWithin calls works n a) (hb : ReflTransGen calls a b) : ∃ m, EndsWithin calls works m b := by
  induction hb with
  | refl => exact ⟨n, h⟩
  | tail _ hcall ih =>
    obtain ⟨m, hm⟩ := ih
    cases m with
    | zero => exact hm.elim
    | succ m => exact ⟨m, hm.2 _ hcall⟩

theorem exists_of_acc (hfin : ∀ a, {b | calls a b}.Finite) (hacc : Acc (fun b a => calls a b) a)
    (hworks : ∀ b, ReflTransGen calls a b → works b) : ∃ n, EndsWithin calls works n a := by
  induction hacc with
  | intro a _ ih =>
    have hends : ∀ b ∈ {b | calls a b}, ∃ n, EndsWithin calls works n b :=
      fun b hb => ih b hb fun c hc => hworks c (.head hb hc)
    obtain ⟨n, hn⟩ := exists_common (hfin a) hends
    exact ⟨n + 1, hworks a .refl, hn⟩

/-- Among finitely many arguments there is no end to the calls only if one of them comes back. -/
theorem acc_of_no_cycle (hfin : {b | ReflTransGen calls a b}.Finite) (h : ∀ b, ReflTransGen calls a b → ¬ TransGen calls b b) :
    Acc (fun b a => calls a b) a := by
  have : Finite {b // ReflTransGen calls a b} := hfin
  let later : {b // ReflTransGen calls a b} → {b // ReflTransGen calls a b} → Prop := fun x y => TransGen calls y.1 x.1
  have htrans : IsTrans _ later := ⟨fun x y z hxy hyz => hyz.trans hxy⟩
  have hirrefl : Std.Irrefl later := ⟨fun x => h x.1 x.2⟩
  have hwf : WellFounded later := Finite.wellFounded_of_trans_of_irrefl later
  have key : ∀ x : {b // ReflTransGen calls a b}, Acc (fun b a => calls a b) x.1 := by
    intro x
    induction x using hwf.induction with
    | h x ih => exact .intro x.1 fun b hb => ih ⟨b, x.2.tail hb⟩ (.single hb)
  exact key ⟨a, .refl⟩

theorem no_cycle_of_acc (h : Acc (fun b a => calls a b) a) : ¬ TransGen calls a a := by
  induction h with
  | intro a _ ih =>
    intro hcycle
    obtain ⟨b, hab, hba⟩ := TransGen.head'_iff.1 hcycle
    exact ih b hab (TransGen.tail' hba hab)

/-- A call ends within some depth exactly if all calls after it work and none of them comes back to its own argument. -/
theorem exists_endsWithin_iff (hfin : {b | ReflTransGen calls a b}.Finite) (hcalls : ∀ a, {b | calls a b}.Finite) :
    (∃ n, EndsWithin calls works n a) ↔ ∀ b, ReflTransGen calls a b → works b ∧ ¬ TransGen calls b b := by
  constructor
  · rintro ⟨n, hn⟩ b hb
    obtain ⟨m, hm⟩ := hn.later hb
    exact ⟨hm.here, no_cycle_of_acc hm.acc⟩
  · intro h
    exact exists_of_acc hcalls (acc_of_no_cycle hfin fun b hb => (h b hb).2) fun b hb => (h b hb).1

end BoundedRecursion
