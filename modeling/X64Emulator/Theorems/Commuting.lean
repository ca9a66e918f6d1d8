import X64Emulator.Lemmas.Commuting
import X64Emulator.Lemmas.ReadBack
import X64Emulator.Lemmas.Passes

/-!
# Instructions that commute

The test compares what one instruction writes with what the other reads, and most pairs it accepts can be exchanged. It does not
compare what the two of them write, nor what they use without naming it; and it takes addresses with different base registers to
be different.
-/

namespace X64Emulator

namespace Ir

open IrGenerator Instruction

/-- What the pass removes is a move that does the opposite of an earlier one, with which everything in between commutes. -/
theorem Found.delayed {front passed l : List Instruction} {curr next : Instruction}
    (h : Found delayedVerdict front curr passed next l) :
    (isMov curr.op = true ∧ isMov next.op = true ∧ next.in1 = curr.out ∧ next.out = curr.in1) ∧
      ∀ ins ∈ passed, canCommute curr ins = true := by
  obtain ⟨v, hv, hnext, hpassed⟩ := h.verdict
  rw [delayedVerdict] at hv
  split at hv
  · exact absurd hv (by simp)
  rename_i hcurr
  obtain rfl := Option.some.inj hv
  simp only [Bool.not_eq_true', Bool.not_eq_false] at hcurr
  beta_reduce at hnext hpassed
  constructor
  · split at hnext
    · rename_i hmirror
      simp only [Bool.and_eq_true, decide_eq_true_eq] at hmirror
      exact ⟨hcurr, hmirror.1.1, hmirror.1.2, hmirror.2⟩
    · split at hnext <;> exact absurd hnext (by decide)
  · intro ins hins
    have hpass := hpassed ins hins
    split at hpass
    · exact absurd hpass (by decide)
    split at hpass
    · assumption
    · exact absurd hpass (by decide)

theorem isMove_of_isMov {ins : Instruction} (h : isMov ins.op = true) : ins.isMove = true := by
  simp only [isMov, Bool.or_eq_true, decide_eq_true_eq] at h
  exact isMove_of_op h

theorem bothWays_of_emits {curr next : Instruction} (hcurr : isMov curr.op = true) (hnext : isMov next.op = true)
    (hin : next.in1 = curr.out) (hout : next.out = curr.in1) (hec : emits curr = true) (hen : emits next = true) :
    bothWays curr.out curr.in1 = true := by
  simp only [isMov, Bool.or_eq_true, decide_eq_true_eq] at hcurr hnext
  rw [emits, hin, hout] at hen
  rw [emits] at hec
  rcases hcurr with hcurr | hcurr <;> rcases hnext with hnext | hnext <;> simp only [hcurr, hnext] at hec hen
  · simp [bothWays, hec, hen]
  · cases hd : curr.out <;> cases hs : curr.in1 <;> simp [movs, movas, hd, hs] at hec hen
  · cases hd : curr.out <;> cases hs : curr.in1 <;> simp [movs, movas, hd, hs] at hec hen
  · simp [bothWays, hec, hen]

/-- What stays off a move stays off the opposite one, when that reads back. -/
theorem staysOff_of_apart {cpu : Cpu} {s : State} {curr ins : Instruction} (hmove : curr.isMove = true)
    (hback : readsBack curr.out curr.in1 = true) (h : Apart cpu curr ins s) : staysOff cpu curr.in1 curr.out ins s := by
  intro l hl
  have hdepends := h.read' l hl
  have hchanges : curr.out.written cpu s l = false := by
    by_contra hw
    refine h.write l ?_ hl
    rw [changes, if_pos hmove]
    simpa using hw
  rw [depends, if_pos hmove] at hdepends
  simp only [Bool.or_eq_true, not_or, Bool.not_eq_true] at hdepends
  have hcovers : curr.out.covers cpu s l = false := by
    by_contra hc
    obtain ⟨i, hi, hindex⟩ := Operand.covers_iff.1 (by simpa using hc)
    exact absurd (Operand.written_iff.2 ⟨i, hi.trans_le (Operand.size_le_span _), hindex⟩) (by simp [hchanges])
  refine ⟨hcovers, hdepends.2, hdepends.1.2, ?_⟩
  have hout := hdepends.1.1
  generalize curr.in1 = src at hback hout ⊢
  cases src with
  | r32 reg =>
    -- the only operand of which a write changes more than its bytes
    simp only [readsBack, Bool.and_eq_true, decide_eq_true_eq] at hback
    exact hback.1.1 ▸ hchanges
  | _ => exact hout

/-- Two instructions that the test accepts can be exchanged in any state in which they have no conflict that it does not look for.
In a run in which that is so of a move and all that the pass looks past, and in which the moves read back, what the pass removes
does nothing, and the block does the same without it. -/
theorem canCommute_sound (cpu : Cpu) :
    (∀ (a b : Instruction) (s : State), canCommute a b = true → nothingOverlooked cpu a b s →
      run cpu [a, b] s = run cpu [b, a] s) ∧
    (∀ ir : IR, (∀ ins ∈ ir.instructions, emits ins = true) →
      ∃ ir', ir.removeInstructions (delayedReadBackElimination ir) = some ir' ∧ ∀ s,
        (∀ front curr passed next, Found delayedVerdict front curr passed next ir.instructions →
          (front ++ curr :: passed).length ∈ delayedReadBackElimination ir →
          readsBack curr.out curr.in1 = true ∧ ∀ before ins behind, passed = before ++ ins :: behind →
            nothingOverlooked cpu curr ins (run cpu (front ++ curr :: before) s)) →
        (∀ before next behind, ir.instructions = before ++ next :: behind → before.length ∈ delayedReadBackElimination ir →
          next.exec cpu (run cpu before s) = run cpu before s) ∧
        run cpu ir'.instructions s = run cpu ir.instructions s) := by
  constructor
  · intro a b s h hs
    exact (exec_bounds cpu a).commute (exec_bounds cpu b) (apart_of_canCommute h hs)
  · intro ir hemits
    obtain ⟨ir', hir', hrun⟩ := run_removeInstructions (scan_sound delayedVerdict) ir
    refine ⟨ir', hir', fun s hclear => ?_⟩
    have hnoop : ∀ before next behind, ir.instructions = before ++ next :: behind →
        before.length ∈ delayedReadBackElimination ir → next.exec cpu (run cpu before s) = run cpu before s := by
      intro before next behind hl hmem
      have hmem' := hmem
      rw [delayedReadBackElimination, hl] at hmem'
      obtain ⟨front, curr, passed, rfl, hfound⟩ := found_of_mem_scan hmem'
      rw [← hl] at hfound
      obtain ⟨⟨hcurr, hnext, hin, hout⟩, hcommute⟩ := hfound.delayed
      obtain ⟨hback, hover⟩ := hclear front curr passed next hfound hmem
      have hboth := bothWays_of_emits hcurr hnext hin hout (hemits curr (by simp [hl])) (hemits next (by simp [hl]))
      rw [exec_of_isMove (isMove_of_isMov hnext), hin, hout, run_append, run_cons, exec_of_isMove (isMove_of_isMov hcurr)]
      refine move_fixed_run (move_back hboth hback) fun before' ins behind' hsplit => ?_
      have hstate := hover before' ins behind' hsplit
      rw [run_append, run_cons, exec_of_isMove (isMove_of_isMov hcurr)] at hstate
      refine staysOff_of_apart (isMove_of_isMov hcurr) hback (apart_of_canCommute (hcommute ins ?_) hstate)
      rw [hsplit]
      exact List.mem_append_right _ List.mem_cons_self
    exact ⟨hnoop, hrun cpu s hnoop⟩

/-- A register that is stored, and loaded again behind a load from another address of the register block. -/
theorem canCommute_sound_sample :
    let slot (displacement : Int32) : Operand := .m64 ⟨.ds, ⟨.rsi, .zero, 1, displacement⟩⟩
    let save : Instruction := { op := .mov, out := slot 8, in1 := .r64 .rax }
    let load : Instruction := { op := .mov, out := .r64 .rbx, in1 := slot 16 }
    let restore : Instruction := { op := .mov, out := .r64 .rax, in1 := slot 8 }
    ∀ cpu, (∀ s, run cpu [save, load] s = run cpu [load, save] s) ∧
      ∃ ir', IR.removeInstructions { instructions := [save, load, restore] }
          (delayedReadBackElimination { instructions := [save, load, restore] }) = some ir' ∧
        ∀ s, run cpu ir'.instructions s = run cpu [save, load, restore] s := by
  intro slot save load restore
  have hclear : ∀ cpu s, nothingOverlooked cpu save load s := by
    intro cpu s m m' hm hm'
    obtain rfl : _ = m := Option.some.inj hm
    obtain rfl : _ = m' := Option.some.inj hm'
    simp [Mem.compared]
  intro cpu
  refine ⟨fun s => (canCommute_sound cpu).1 save load s (by decide) (hclear cpu s), ?_⟩
  obtain ⟨ir', hir', hrun⟩ := (canCommute_sound cpu).2 { instructions := [save, load, restore] } (by decide)
  refine ⟨ir', hir', fun s => (hrun s fun front curr passed next hfound hmem => ?_).2⟩
  obtain ⟨behind, hsplit⟩ := hfound.split
  obtain ⟨⟨-, -, hin, -⟩, -⟩ := hfound.delayed
  have hpicked : delayedReadBackElimination { instructions := [save, load, restore] } = [2] := by decide
  rw [hpicked, List.mem_singleton] at hmem
  have hsplit' : [save, load] ++ [restore] = front ++ curr :: passed ++ next :: behind := hsplit
  obtain ⟨hbefore, hrest⟩ := List.append_inj hsplit' hmem.symm
  obtain ⟨rfl, -⟩ := List.cons.inj hrest
  cases front with
  | nil =>
    obtain ⟨rfl, rfl⟩ := List.cons.inj hbefore
    refine ⟨by decide, fun before ins after hpassed => ?_⟩
    cases before with
    | nil =>
      obtain ⟨rfl, -⟩ := List.cons.inj hpassed
      exact hclear _ _
    | cons _ before => simp at hpassed
  | cons first front =>
    -- the load itself is not what the last instruction reads back
    have hload : load = curr := by
      cases front with
      | nil => exact (List.cons.inj (List.cons.inj hbefore).2).1
      | cons _ front => simp at hbefore
    exact absurd (hload ▸ hin) (by decide)

/-- `mov xmm0, xmm1` and `mov xmm0, xmm2` are taken to commute, and `mova xmm1, [rcx]` is taken to read back what
`mova [rcx], xmm1` has stored behind `movu [rcx], xmm2`. -/
theorem canCommute_fails :
    (¬ ∀ a b : Instruction, canCommute a b = true → ∀ cpu s, run cpu [a, b] s = run cpu [b, a] s) ∧
    ¬ ∀ ir : IR, (∀ ins ∈ ir.instructions, emits ins = true) → ∀ before next behind,
      ir.instructions = before ++ next :: behind → before.length ∈ delayedReadBackElimination ir →
        ∀ cpu s, next.exec cpu (run cpu before s) = run cpu before s := by
  constructor
  · intro h
    have hrun := h { op := .mov, out := .xmm .xmm0, in1 := .xmm .xmm1 } { op := .mov, out := .xmm .xmm0, in1 := .xmm .xmm2 }
      (by decide) ⟨0, 0, fun _ s => s⟩ (fun l => if l = .xmm .xmm1 0 then 1 else 0)
    exact absurd (congrFun hrun (.xmm .xmm0 0)) (by decide)
  · intro h
    let slot : Operand := .m128 ⟨.ds, ⟨.rcx, .zero, 1, 0⟩⟩
    have hrun := h { instructions := [{ op := .mova, out := slot, in1 := .xmm .xmm1 },
        { op := .movu, out := slot, in1 := .xmm .xmm2 }, { op := .mova, out := .xmm .xmm1, in1 := slot }] } (by decide)
      [{ op := .mova, out := slot, in1 := .xmm .xmm1 }, { op := .movu, out := slot, in1 := .xmm .xmm2 }]
      { op := .mova, out := .xmm .xmm1, in1 := slot } [] rfl (by decide) ⟨0, 0, fun _ s => s⟩
      (fun l => if l = .xmm .xmm2 0 then 1 else 0)
    exact absurd (congrFun hrun (.xmm .xmm1 0)) (by decide)

end Ir

end X64Emulator
