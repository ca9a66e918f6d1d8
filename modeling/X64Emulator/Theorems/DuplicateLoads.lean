import X64Emulator.Lemmas.Aliasing
import X64Emulator.Lemmas.Passes

/-!
# Duplicate loads

A load is taken to be useless behind the same load, when nothing in between may write its register, its address or its bytes. The
alias test does not see that accesses of 64 bits overlap when they are 4 bytes apart, and no test sees that the first load has
moved its own address.
-/

namespace X64Emulator

namespace Ir

open IrGenerator Instruction

/-- In a state, a store changes bytes of a load that the alias test does not compare with those it stores to. -/
def storeOverlooked (cpu : Cpu) (store load : Instruction) (s : State) : Prop :=
  ∃ m m', store.out.memory = some m ∧ load.in1.memory = some m' ∧
    ¬ (m.encoding.base = m'.encoding.base ∧ cpu.segmentBase m.segment = cpu.segmentBase m'.segment ∧ store.out.size ≠ 16 ∧
      (store.out.size = 8 → (m.encoding.displacement.toInt - m'.encoding.displacement.toInt).natAbs ≠ 4)) ∧
    ∃ a, store.out.covers cpu s (.mem a) = true ∧ load.in1.covers cpu s (.mem a) = true

/-- What the pass removes is a second load, behind moves that write neither the register, nor the address, nor what the alias test
takes for the bytes. -/
theorem Found.duplicate {front passed l : List Instruction} {curr next : Instruction}
    (h : Found duplicateVerdict front curr passed next l) :
    ((curr.op = .mov ∧ next.op = .mov) ∧ next.out = curr.out ∧ next.in1 = curr.in1) ∧ curr.out.isRegister = true ∧
      ∃ m, curr.in1.memory = some m ∧ ∀ ins ∈ passed, ins.op = .mov ∧ ins.out.mayAlias curr.out = false ∧
        ins.out.mayAliasGpr m.encoding.base = false ∧ ins.out.mayAliasGpr m.encoding.index = false ∧
        ins.out.mayAlias curr.in1 = false := by
  obtain ⟨v, hv, hnext, hpassed⟩ := h.verdict
  rw [duplicateVerdict] at hv
  split at hv
  · exact absurd hv (by simp)
  rename_i hcurr
  split at hv
  · exact absurd hv (by simp)
  rename_i hregister
  cases hm : curr.in1.memory with
  | none => exact absurd hv (by simp [hm])
  | some m =>
    simp only [hm, Option.some.injEq] at hv
    subst hv
    beta_reduce at hnext hpassed
    refine ⟨?_, by simpa using hregister, m, rfl, fun ins hins => ?_⟩
    · split at hnext
      · exact absurd hnext (by decide)
      rename_i hop
      split at hnext
      · rename_i hsame
        simp only [Bool.and_eq_true, decide_eq_true_eq] at hsame
        exact ⟨⟨not_not.1 hcurr, not_not.1 hop⟩, hsame⟩
      · split at hnext <;> exact absurd hnext (by decide)
    · have hpass := hpassed ins hins
      split at hpass
      · exact absurd hpass (by decide)
      rename_i hop
      split at hpass
      · exact absurd hpass (by decide)
      split at hpass
      · exact absurd hpass (by decide)
      rename_i hwrites
      simp only [Bool.or_eq_true, not_or, Bool.not_eq_true, writesTo, writesToGpr] at hwrites
      obtain ⟨⟨⟨hdst, hbase⟩, hindex⟩, hsrc⟩ := hwrites
      refine ⟨not_not.1 hop, ?_, ?_, ?_, ?_⟩
      · by_contra ha
        rw [if_pos (by simpa using ha)] at hdst
        exact absurd hdst (by decide)
      · by_contra ha
        rw [if_pos (by simpa using ha)] at hbase
        exact absurd hbase (by decide)
      · by_contra ha
        rw [if_pos (by simpa using ha)] at hindex
        exact absurd hindex (by decide)
      · by_contra ha
        rw [if_pos (by simpa using ha)] at hsrc
        exact absurd hsrc (by decide)

/-- A move the pass looks past stays off the load, but for a store that is overlooked. -/
theorem staysOff_of_passed {cpu : Cpu} {s : State} {ins load : Instruction} {m : Mem} (hop : ins.op = .mov)
    (hregister : load.out.isRegister = true) (hm : load.in1.memory = some m)
    (hdst : ins.out.mayAlias load.out = false) (hbase : ins.out.mayAliasGpr m.encoding.base = false)
    (hindex : ins.out.mayAliasGpr m.encoding.index = false) (hsrc : ins.out.mayAlias load.in1 = false)
    (h : ¬ storeOverlooked cpu ins load s) : staysOff cpu load.out load.in1 ins s := by
  intro l hl
  rw [changes, if_pos (isMove_of_op (.inl hop))] at hl
  refine ⟨?_, Operand.not_addressed_of_mayAliasGpr hm hbase hindex hl, Operand.addressed_of_isRegister hregister l,
    Operand.not_written_of_mayAlias hregister hdst hl⟩
  · by_contra hc
    have hcovers : load.in1.covers cpu s l = true := by simpa using hc
    obtain ⟨a, rfl⟩ := Operand.covers_of_memory hm hcovers
    obtain ⟨m', hm'⟩ : ∃ m', ins.out.memory = some m' := by
      obtain ⟨i, -, hi⟩ := Operand.written_iff.1 hl
      cases hout : ins.out <;> rw [hout] at hi <;> simp only [Operand.place, Place.index, reduceCtorEq] at hi
      all_goals exact ⟨_, rfl⟩
    have hstore : ins.out.covers cpu s (.mem a) = true := by rwa [Operand.covers_mem hm', ← Operand.written_mem hm']
    obtain ⟨hsame, hsegment, hsize, hfour⟩ := not_not.1 fun hnot => h ⟨m', m, hm', hm, hnot, a, hstore, hcovers⟩
    have h128 : ∀ x, ins.out ≠ .m128 x := fun x hx => hsize (by rw [hx]; rfl)
    have hapart := Operand.apart_of_mayAlias hm' hm h128 hsame hsrc hsegment hfour hstore
    exact absurd hcovers (by simp [hapart])

/-- Of memory operands with the same base that can be the same byte, the test says so, but for those of which it misses that.
In a run in which a load does not overwrite its own address and no store behind it is overlooked, the second load that the pass
removes does nothing, and the block does the same without it. -/
theorem duplicateLoads_iff (ir : IR) :
    (∀ (op other : Operand) (m m' : Mem), op.memory = some m → other.memory = some m' →
      m.encoding.base = m'.encoding.base →
      ((op.canOverlap other → op.mayAlias other = true) ↔ (op.canOverlap other → op.overlapMissed other = false))) ∧
    (∃ ir', ir.removeInstructions (duplicateInstructionElimination ir) = some ir' ∧ ∀ cpu s,
        (∀ front curr passed next, Found duplicateVerdict front curr passed next ir.instructions →
          (front ++ curr :: passed).length ∈ duplicateInstructionElimination ir →
          overwritesAddress curr.out curr.in1 = false ∧ ∀ before ins behind, passed = before ++ ins :: behind →
            ¬ storeOverlooked cpu ins curr (run cpu (front ++ curr :: before) s)) →
        (∀ before next behind, ir.instructions = before ++ next :: behind →
          before.length ∈ duplicateInstructionElimination ir → next.exec cpu (run cpu before s) = run cpu before s) ∧
        run cpu ir'.instructions s = run cpu ir.instructions s) := by
  constructor
  · intro op other m m' hm hm' hbase
    exact forall_congr' fun hover => Operand.mayAlias_iff hm hm' hbase hover
  · obtain ⟨ir', hir', hrun⟩ := run_removeInstructions (scan_sound duplicateVerdict) ir
    refine ⟨ir', hir', fun cpu s hclear => ?_⟩
    have hnoop : ∀ before next behind, ir.instructions = before ++ next :: behind →
        before.length ∈ duplicateInstructionElimination ir → next.exec cpu (run cpu before s) = run cpu before s := by
      intro before next behind hl hmem
      have hmem' := hmem
      rw [duplicateInstructionElimination, hl] at hmem'
      obtain ⟨front, curr, passed, rfl, hfound⟩ := found_of_mem_scan hmem'
      rw [← hl] at hfound
      obtain ⟨⟨⟨hcurr, hnext⟩, hout, hin⟩, hregister, m, hm, hpassed⟩ := hfound.duplicate
      obtain ⟨hown, hstores⟩ := hclear front curr passed next hfound hmem
      have hcurr' : ∀ t, curr.exec cpu t = move cpu curr.out curr.in1 t := exec_of_isMove (isMove_of_op (.inl hcurr))
      rw [exec_of_isMove (isMove_of_op (.inl hnext)), hin, hout, run_append, run_cons, hcurr']
      refine move_fixed_run (move_twice hregister hm hown) fun before' ins behind' hsplit => ?_
      have hins : ins ∈ passed := by
        rw [hsplit]
        exact List.mem_append_right _ List.mem_cons_self
      obtain ⟨hop, hdst, hbase, hindex, hsrc⟩ := hpassed ins hins
      have hstate := hstores before' ins behind' hsplit
      rw [run_append, run_cons, hcurr'] at hstate
      exact staysOff_of_passed hop hregister hm hdst hbase hindex hsrc hstate
    exact ⟨hnoop, hrun cpu s hnoop⟩

/-- Two loads of the same bytes, with a store to others in between. -/
theorem duplicateLoads_iff_sample :
    let slot (displacement : Int32) : Operand := .m64 ⟨.ds, ⟨.rbx, .zero, 1, displacement⟩⟩
    let load : Instruction := { op := .mov, out := .r64 .rax, in1 := slot 0 }
    let store : Instruction := { op := .mov, out := slot 8, in1 := .r64 .rcx }
    (((slot 0).canOverlap (slot 8) → (slot 0).mayAlias (slot 8) = true) ↔
      ((slot 0).canOverlap (slot 8) → (slot 0).overlapMissed (slot 8) = false)) ∧
      ∃ ir', IR.removeInstructions { instructions := [load, store, load] }
          (duplicateInstructionElimination { instructions := [load, store, load] }) = some ir' ∧
        ∀ cpu s, run cpu ir'.instructions s = run cpu [load, store, load] s := by
  intro slot load store
  obtain ⟨halias, ir', hir', hrun⟩ := duplicateLoads_iff { instructions := [load, store, load] }
  refine ⟨halias (slot 0) (slot 8) _ _ rfl rfl rfl, ?_⟩
  refine ⟨ir', hir', fun cpu s => (hrun cpu s fun front curr passed next hfound hmem => ?_).2⟩
  obtain ⟨behind, hsplit⟩ := hfound.split
  obtain ⟨-, hregister, -⟩ := hfound.duplicate
  have hpicked : duplicateInstructionElimination { instructions := [load, store, load] } = [2] := by decide
  rw [hpicked, List.mem_singleton] at hmem
  have hsplit' : [load, store] ++ [load] = front ++ curr :: passed ++ next :: behind := hsplit
  obtain ⟨hbefore, hrest⟩ := List.append_inj hsplit' hmem.symm
  cases front with
  | nil =>
    obtain ⟨rfl, rfl⟩ := List.cons.inj hbefore
    refine ⟨by decide, fun before ins after hpassed => ?_⟩
    cases before with
    | nil =>
      obtain ⟨rfl, -⟩ := List.cons.inj hpassed
      rintro ⟨m, m', hm, hm', hknown, -⟩
      obtain rfl : _ = m := Option.some.inj hm
      obtain rfl : _ = m' := Option.some.inj hm'
      exact hknown ⟨rfl, rfl, by decide, fun _ => by decide⟩
    | cons _ before => simp at hpassed
  | cons first front =>
    -- the store is no load
    have hstore : store = curr := by
      cases front with
      | nil => exact (List.cons.inj (List.cons.inj hbefore).2).1
      | cons _ front => simp at hbefore
    exact absurd (hstore ▸ hregister) (by decide)

/-- A store of 64 bits four bytes behind a load of 64 bits is not taken for a write of what it loads. -/
theorem duplicateLoads_iff_fails :
    (¬ ∀ (op other : Operand) (m m' : Mem), op.memory = some m → other.memory = some m' →
      m.encoding.base = m'.encoding.base → op.canOverlap other → op.mayAlias other = true) ∧
    ¬ ∀ (ir : IR) before next behind,
      ir.instructions = before ++ next :: behind → before.length ∈ duplicateInstructionElimination ir →
        ∀ cpu s, next.exec cpu (run cpu before s) = run cpu before s := by
  let slot (displacement : Int32) : Operand := .m64 ⟨.ds, ⟨.rbx, .zero, 1, displacement⟩⟩
  constructor
  · intro h
    have halias := h (slot 0) (slot 4) _ _ rfl rfl rfl ⟨⟨0, 0, fun _ s => s⟩, fun _ => 0, .mem 4, by decide, by decide⟩
    exact absurd halias (by decide)
  · intro h
    let load : Instruction := { op := .mov, out := .r64 .rax, in1 := slot 0 }
    let store : Instruction := { op := .mov, out := slot 4, in1 := .r64 .rcx }
    have hrun := h { instructions := [load, store, load] } [load, store] load [] rfl (by decide)
      ⟨0, 0, fun _ s => s⟩ (fun l => if l = .gpr .rcx 0 then 1 else 0)
    exact absurd (congrFun hrun (.gpr .rax 4)) (by decide)

end Ir

end X64Emulator
