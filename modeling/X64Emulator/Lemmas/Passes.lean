import X64Emulator.Lemmas.Execution
import X64Emulator.Lemmas.IrEditing
import X64Emulator.Optimizer

/-!
# What the passes pick

A pass picks positions of the block, none of them twice. The loops that look ahead start again behind what they remove, which is
why their positions go up. A move that changes nothing in a state changes nothing behind instructions that stay off its operands.
When that is so of every move a pass picks, the block does the same without them.
-/

namespace X64Emulator

namespace Ir

open Positions

/-- The positions a pass picks are positions of the block, and distinct. -/
structure Sound (select : Selection) : Prop where
  nodup : ∀ ir, (select ir).Nodup
  inside : ∀ ir : IR, ∀ p ∈ select ir, p < ir.instructions.length

theorem deadCodeElimination_sound : Sound deadCodeElimination := by
  constructor
  · intro ir
    exact (List.nodup_reverse.2 List.nodup_range).filter _
  · intro ir p hp
    simpa using (List.mem_filter.1 hp).1

theorem immediateReadBackElimination_sound : Sound immediateReadBackElimination := by
  constructor
  · intro ir
    have hnodup : (List.range' 1 (ir.instructions.length - 1)).Nodup := List.nodup_range'
    exact hnodup.filter _
  · intro ir p hp
    have hmem := (List.mem_filter.1 hp).1
    rw [List.mem_range'_1] at hmem
    omega

section

variable {verdict : Instruction → Verdict} {verdicts : Instruction → Option (Instruction → Verdict)}

/-- The loop over `j` finds an instruction of the rest, behind others that it has passed. -/
theorem lookAhead_eq_some {i j : Nat} {rest : List Instruction} (h : lookAhead verdict i rest = some j) :
    ∃ before next behind, rest = before ++ next :: behind ∧ j = i + before.length ∧ verdict next = .remove ∧
      ∀ ins ∈ before, verdict ins = .pass := by
  induction rest generalizing i with
  | nil => simp [lookAhead] at h
  | cons next rest ih =>
    rw [lookAhead] at h
    cases hv : verdict next with
    | remove =>
      rw [hv] at h
      obtain rfl : i = j := by simpa using h
      exact ⟨[], next, rest, rfl, rfl, hv, by simp⟩
    | pass =>
      rw [hv] at h
      obtain ⟨before, found, behind, rfl, rfl, hfound, hpassed⟩ := ih h
      refine ⟨next :: before, found, behind, rfl, ?_, hfound, ?_⟩
      · rw [List.length_cons]
        omega
      · intro ins hins
        rcases List.mem_cons.1 hins with rfl | hins
        · exact hv
        · exact hpassed ins hins
    | stop =>
      rw [hv] at h
      simp at h

/-- What a scan picks: going up, behind what it skips, and inside the list. -/
theorem scan_sorted (skip i : Nat) (l : List Instruction) : (scan verdicts skip i l).Pairwise (· < ·) ∧
    ∀ p ∈ scan verdicts skip i l, i + skip ≤ p ∧ p < i + l.length := by
  induction l generalizing skip i with
  | nil => simp [scan]
  | cons curr rest ih =>
    cases skip with
    | succ skip =>
      rw [scan]
      obtain ⟨hsorted, hinside⟩ := ih skip (i + 1)
      refine ⟨hsorted, fun p hp => ?_⟩
      have := hinside p hp
      rw [List.length_cons]
      omega
    | zero =>
      rw [scan]
      cases hj : (verdicts curr).bind fun v => lookAhead v (i + 1) rest with
      | none =>
        obtain ⟨hsorted, hinside⟩ := ih 0 (i + 1)
        refine ⟨hsorted, fun p hp => ?_⟩
        have := hinside p hp
        rw [List.length_cons]
        omega
      | some j =>
        obtain ⟨v, -, hlook⟩ := Option.bind_eq_some_iff.1 hj
        obtain ⟨before, next, behind, rfl, rfl, -, -⟩ := lookAhead_eq_some hlook
        obtain ⟨hsorted, hinside⟩ := ih (i + 1 + before.length + 1 - i) (i + 1)
        simp only [List.length_append, List.length_cons] at hinside ⊢
        refine ⟨List.pairwise_cons.2 ⟨fun p hp => ?_, hsorted⟩, fun p hp => ?_⟩
        · have := hinside p hp
          omega
        · rcases List.mem_cons.1 hp with rfl | hp
          · omega
          · have := hinside p hp
            omega

/-- The loop has found `next` from `curr` on, behind instructions it has passed. -/
structure Found (verdicts : Instruction → Option (Instruction → Verdict)) (front : List Instruction) (curr : Instruction)
    (passed : List Instruction) (next : Instruction) (l : List Instruction) : Prop where
  split : ∃ behind, l = front ++ curr :: passed ++ next :: behind
  verdict : ∃ v, verdicts curr = some v ∧ v next = .remove ∧ ∀ ins ∈ passed, v ins = .pass

theorem Found.cons {front passed l : List Instruction} {curr next : Instruction}
    (h : Found verdicts front curr passed next l) (ins : Instruction) :
    Found verdicts (ins :: front) curr passed next (ins :: l) := by
  obtain ⟨behind, rfl⟩ := h.split
  exact ⟨⟨behind, rfl⟩, h.verdict⟩

/-- What a scan picks has been found from an instruction before it. -/
theorem mem_scan {skip i p : Nat} {l : List Instruction} (h : p ∈ scan verdicts skip i l) :
    ∃ front curr passed next, Found verdicts front curr passed next l ∧ p = i + front.length + 1 + passed.length := by
  induction l generalizing skip i with
  | nil => simp [scan] at h
  | cons curr rest ih =>
    have hrest : ∀ {skip}, p ∈ scan verdicts skip (i + 1) rest → ∃ front curr' passed next,
        Found verdicts front curr' passed next (curr :: rest) ∧ p = i + front.length + 1 + passed.length := by
      intro skip hmem
      obtain ⟨front, curr', passed, next, hfound, rfl⟩ := ih hmem
      refine ⟨curr :: front, curr', passed, next, hfound.cons curr, ?_⟩
      rw [List.length_cons]
      omega
    cases skip with
    | succ skip => exact hrest h
    | zero =>
      rw [scan] at h
      cases hj : (verdicts curr).bind fun v => lookAhead v (i + 1) rest with
      | none =>
        rw [hj] at h
        exact hrest h
      | some j =>
        rw [hj] at h
        rcases List.mem_cons.1 h with rfl | h
        · obtain ⟨v, hv, hlook⟩ := Option.bind_eq_some_iff.1 hj
          obtain ⟨passed, next, behind, rfl, rfl, hnext, hpassed⟩ := lookAhead_eq_some hlook
          exact ⟨[], curr, passed, next, ⟨⟨behind, rfl⟩, v, hv, hnext, hpassed⟩, rfl⟩
        · exact hrest h

/-- The same for what stands behind a given part of the list. -/
theorem found_of_mem_scan {before behind : List Instruction} {next : Instruction}
    (h : before.length ∈ scan verdicts 0 0 (before ++ next :: behind)) :
    ∃ front curr passed, before = front ++ curr :: passed ∧ Found verdicts front curr passed next (before ++ next :: behind) := by
  obtain ⟨front, curr, passed, next', hfound, hlen⟩ := mem_scan h
  obtain ⟨behind', hsplit⟩ := hfound.split
  have hlen' : before.length = (front ++ curr :: passed).length := by
    rw [hlen, List.length_append, List.length_cons]
    omega
  obtain ⟨hbefore, hnext⟩ := List.append_inj hsplit hlen'
  obtain ⟨rfl, -⟩ := List.cons.inj hnext
  exact ⟨front, curr, passed, hbefore, hfound⟩

theorem scan_sound (verdicts : Instruction → Option (Instruction → Verdict)) :
    Sound fun ir => scan verdicts 0 0 ir.instructions := by
  constructor
  · intro ir
    exact (scan_sorted 0 0 ir.instructions).1.imp fun hlt => Nat.ne_of_lt hlt
  · intro ir p hp
    have := (scan_sorted 0 0 ir.instructions).2 p hp
    omega

end

theorem passes_sound : ∀ pass ∈ Optimizer.passes, Sound pass.select := by
  intro pass hpass
  simp only [Optimizer.passes, List.mem_cons, List.not_mem_nil, or_false] at hpass
  rcases hpass with rfl | rfl | rfl | rfl
  · exact deadCodeElimination_sound
  · exact immediateReadBackElimination_sound
  · exact scan_sound delayedVerdict
  · exact scan_sound duplicateVerdict

/-! ## Rounds -/

/-- `ir'` is `ir` with some of its instructions deleted. -/
def Trims (ir ir' : IR) : Prop := ∃ kept, Kept ir.instructions.length kept ∧ ir' = ir.restrict kept

theorem Trims.refl (ir : IR) : Trims ir ir := ⟨_, kept_range _, ir.restrict_all.symm⟩

theorem Trims.trans {a b c : IR} (h₁ : Trims a b) (h₂ : Trims b c) : Trims a c := by
  obtain ⟨k₁, hk₁, rfl⟩ := h₁
  obtain ⟨k₂, hk₂, rfl⟩ := h₂
  rw [IR.instructions_restrict, length_pick hk₁.inside] at hk₂
  exact ⟨_, hk₁.pick hk₂, IR.restrict_restrict hk₁ hk₂⟩

theorem Trims.length_le {a b : IR} (h : Trims a b) : b.instructions.length ≤ a.instructions.length := by
  obtain ⟨kept, hk, rfl⟩ := h
  rw [IR.instructions_restrict, length_pick hk.inside]
  have hsub : kept ⊆ List.range a.instructions.length := fun k hin => List.mem_range.2 (hk.inside k hin)
  simpa using (hk.nodup.subperm hsub).length_le

/-- A pass that has changed something has deleted at least one instruction. -/
theorem optimize_spec {pass : OptimizationPass} (h : Sound pass.select) (ir : IR) (stats : Stats) :
    ∃ p, pass.optimize ir stats = some p ∧ Trims ir p.ir ∧ (p.didSomething = false → p.ir = ir ∧ pass.select ir = []) ∧
      (p.didSomething = true → p.ir.instructions.length + (pass.select ir).length = ir.instructions.length ∧
        pass.select ir ≠ []) := by
  rw [OptimizationPass.optimize]
  cases hselect : pass.select ir with
  | nil => exact ⟨_, rfl, Trims.refl ir, fun _ => ⟨rfl, rfl⟩, fun hdid => absurd hdid (by simp)⟩
  | cons q positions =>
    have hnodup := hselect ▸ h.nodup ir
    have hinside := hselect ▸ h.inside ir
    have hkept := kept_without ir.instructions.length (q :: positions)
    refine ⟨⟨true, ir.restrict _, pass.count (q :: positions).length.toUInt32 stats⟩, ?_, ⟨_, hkept, rfl⟩,
      fun hdid => absurd hdid (by simp), fun _ => ⟨?_, by simp⟩⟩
    · rw [IR.removeInstructions_eq hnodup hinside]
      rfl
    · rw [IR.instructions_restrict, length_pick hkept.inside]
      exact length_without hnodup hinside

namespace Optimizer

/-- A round deletes instructions, and when it has changed nothing no pass picks anything. -/
theorem foldlM_turn {passes : List OptimizationPass} (h : ∀ pass ∈ passes, Sound pass.select) (p₀ : Progress) :
    ∃ p, passes.foldlM turn p₀ = some p ∧ Trims p₀.ir p.ir ∧
      (p.didSomething = false → p₀.didSomething = false ∧ p.ir = p₀.ir ∧ ∀ pass ∈ passes, pass.select p₀.ir = []) ∧
      (p.didSomething = true → p₀.didSomething = true ∨ p.ir.instructions.length < p₀.ir.instructions.length) := by
  induction passes generalizing p₀ with
  | nil => exact ⟨p₀, rfl, Trims.refl _, fun hdid => ⟨hdid, rfl, by simp⟩, fun hdid => .inl hdid⟩
  | cons pass passes ih =>
    obtain ⟨r, hr, htrims, hsame, hless⟩ := optimize_spec (h pass List.mem_cons_self) p₀.ir p₀.stats
    have hturn : turn p₀ pass = some { r with didSomething := p₀.didSomething || r.didSomething } := by
      rw [turn, hr]
      rfl
    obtain ⟨p, hp, htrims', hsame', hless'⟩ := ih (fun q hq => h q (List.mem_cons_of_mem _ hq))
      { r with didSomething := p₀.didSomething || r.didSomething }
    refine ⟨p, by rw [List.foldlM_cons, hturn]; exact hp, htrims.trans htrims', fun hdid => ?_, fun hdid => ?_⟩
    · obtain ⟨hnone, heq, hall⟩ := hsame' hdid
      simp only [Bool.or_eq_false_iff] at hnone
      obtain ⟨hir, hselect⟩ := hsame hnone.2
      simp only [hir] at heq hall
      refine ⟨hnone.1, heq, fun q hq => ?_⟩
      rcases List.mem_cons.1 hq with rfl | hq
      · exact hselect
      · exact hall q hq
    · have hle := htrims'.length_le
      rcases hless' hdid with hsome | hlt
      · simp only [Bool.or_eq_true] at hsome
        rcases hsome with hsome | hsome
        · exact .inl hsome
        · obtain ⟨hlen, hne⟩ := hless hsome
          have hpos := List.length_pos_iff.2 hne
          simp only at hle
          exact .inr (by omega)
      · have hle₀ := htrims.length_le
        simp only at hlt
        exact .inr (by omega)

/-- The rounds end, when there may be more of them than there are instructions. -/
theorem rounds_spec {passes : List OptimizationPass} (h : ∀ pass ∈ passes, Sound pass.select) (ir : IR) (stats : Stats) :
    ∃ p : Progress, Trims ir p.ir ∧ (∀ pass ∈ passes, pass.select p.ir = []) ∧
      ∀ fuel, ir.instructions.length < fuel → rounds passes fuel ir stats = some p := by
  induction hn : ir.instructions.length using Nat.strong_induction_on generalizing ir stats with
  | _ n ih =>
    obtain ⟨p, hp, htrims, hsame, hless⟩ := foldlM_turn h ⟨false, ir, stats⟩
    have hround : round passes ir stats = some p := hp
    cases hdid : p.didSomething with
    | false =>
      obtain ⟨-, heq, hall⟩ := hsame hdid
      simp only at heq hall
      refine ⟨p, htrims, by rwa [heq], fun fuel hfuel => ?_⟩
      obtain ⟨fuel, rfl⟩ : ∃ m, fuel = m + 1 := ⟨fuel - 1, by omega⟩
      simp [rounds, hround, hdid]
    | true =>
      have hlt : p.ir.instructions.length < n := by
        rcases hless hdid with hbad | hlt
        · simp at hbad
        · exact hn ▸ hlt
      obtain ⟨q, hq, hall, hrounds⟩ := ih p.ir.instructions.length hlt p.ir p.stats rfl
      refine ⟨q, htrims.trans hq, hall, fun fuel hfuel => ?_⟩
      obtain ⟨fuel, rfl⟩ : ∃ m, fuel = m + 1 := ⟨fuel - 1, by omega⟩
      simp [rounds, hround, hdid, hrounds fuel (by omega)]

theorem optimize_ends (ir : IR) (stats : Stats) : ∃ result : IR × Stats, Trims ir result.1 ∧
    ∀ fuel, ir.instructions.length < fuel → optimize fuel ir stats = some result := by
  obtain ⟨p, htrims, -, hrounds⟩ := rounds_spec passes_sound ir stats
  refine ⟨(p.ir, { p.stats with
    removedInstructions := p.stats.removedInstructions + (ir.instructions.length - p.ir.instructions.length).toUInt32 }),
    htrims, fun fuel hfuel => ?_⟩
  rw [optimize, hrounds fuel hfuel]
  rfl

end Optimizer

/-! ## Removing moves that do nothing -/

variable {cpu : Cpu} {s : State} {dst src : Operand}

/-- In a state, an instruction stays off the operands of a move. -/
def staysOff (cpu : Cpu) (dst src : Operand) (ins : Instruction) (s : State) : Prop :=
  ∀ l, ins.changes cpu s l = true →
    src.covers cpu s l = false ∧ src.addressed l = false ∧ dst.addressed l = false ∧ dst.written cpu s l = false

theorem move_fixed_past {ins : Instruction} (h : staysOff cpu dst src ins s) (hs : move cpu dst src s = s) :
    move cpu dst src (ins.exec cpu s) = ins.exec cpu s := by
  refine (move_bounds cpu dst src).fixed (Instruction.exec_bounds cpu ins) hs (fun l hl => ?_) fun l hl => ?_
  · simp [h l hl]
  · simp [h l hl]

theorem move_fixed_run {passed : List Instruction} (hs : move cpu dst src s = s)
    (h : ∀ before ins behind, passed = before ++ ins :: behind → staysOff cpu dst src ins (run cpu before s)) :
    move cpu dst src (run cpu passed s) = run cpu passed s := by
  induction passed generalizing s with
  | nil => exact hs
  | cons ins passed ih =>
    refine ih (move_fixed_past (h [] ins passed rfl) hs) fun before other behind heq => ?_
    exact h (ins :: before) other behind (by rw [heq, List.cons_append])

@[simp] theorem run_append (l₁ l₂ : List Instruction) : run cpu (l₁ ++ l₂) s = run cpu l₂ (run cpu l₁ s) := List.foldl_append

@[simp] theorem run_cons (ins : Instruction) (l : List Instruction) : run cpu (ins :: l) s = run cpu l (ins.exec cpu s) := rfl

/-- A block does the same without instructions that do nothing where they stand. -/
theorem run_removeInstructions {select : Selection} (hsound : Sound select) (ir : IR) :
    ∃ ir', ir.removeInstructions (select ir) = some ir' ∧ ∀ cpu s,
      (∀ before ins behind, ir.instructions = before ++ ins :: behind → before.length ∈ select ir →
        ins.exec cpu (run cpu before s) = run cpu before s) →
      run cpu ir'.instructions s = run cpu ir.instructions s :=
  ⟨_, IR.removeInstructions_eq (hsound.nodup ir) (hsound.inside ir), fun _ _ h => foldl_pick_without h⟩

end Ir

end X64Emulator
