import X64Emulator.Lemmas.ReadBack
import X64Emulator.Lemmas.Passes

/-!
# Reading back at once

The pass takes the second of two opposite moves to be useless because of how their operands are written. It is wrong where the
second move clears the rest of a register, where the first one copies only a part, and where the first one moves the address of
its own operand.
-/

namespace X64Emulator

namespace Ir

open IrGenerator

theorem mem_immediateReadBack {ir : IR} {before behind : List Instruction} {curr : Instruction}
    (hl : ir.instructions = before ++ curr :: behind) (hmem : before.length ∈ immediateReadBackElimination ir) :
    ∃ front prev, before = front ++ [prev] ∧ prev.op = .mov ∧ curr.op = .mov ∧ mirrors prev curr = true := by
  obtain ⟨hrange, htest⟩ := List.mem_filter.1 hmem
  have hpos : 0 < before.length := by
    have := (List.mem_range'_1.1 hrange).1
    omega
  obtain ⟨front, prev, rfl⟩ := (List.eq_nil_or_concat' before).resolve_left (List.length_pos_iff.1 hpos)
  have hcurr : (front ++ [prev] ++ curr :: behind)[(front ++ [prev]).length]? = some curr := by simp
  have hprev : (front ++ [prev] ++ curr :: behind)[(front ++ [prev]).length - 1]? = some prev := by simp
  rw [hl, hcurr, hprev] at htest
  simp only [Bool.and_eq_true, decide_eq_true_eq] at htest
  exact ⟨front, prev, rfl, htest.1.1, htest.1.2, htest.2⟩

/-- Two opposite moves, of which the pass removes the second. -/
theorem mirrors_eq {prev curr : Instruction} (h : mirrors prev curr = true) : curr.out = prev.in1 ∧ curr.in1 = prev.out := by
  simp only [mirrors, Bool.and_eq_true, decide_eq_true_eq] at h
  exact ⟨h.1.symm, h.2.symm⟩

theorem exec_of_mov {ins : Instruction} (h : ins.op = .mov) (cpu : Cpu) (s : State) :
    ins.exec cpu s = move cpu ins.out ins.in1 s :=
  Instruction.exec_of_isMove (by simp [Instruction.isMove, h]) s

theorem movs_of_mirrors {prev curr : Instruction} (hp : prev.op = .mov) (hc : curr.op = .mov) (hep : emits prev = true)
    (hec : emits curr = true) (h : mirrors prev curr = true) :
    movs prev.out prev.in1 = true ∧ movs prev.in1 prev.out = true := by
  obtain ⟨hout, hin⟩ := mirrors_eq h
  rw [emits, hp] at hep
  rw [emits, hc, hout, hin] at hec
  exact ⟨hep, hec⟩

/-- The second of two opposite moves that the pass matches changes nothing, whatever the state, exactly when it reads back; and when
that is so of all the pass removes, the block does the same without them. -/
theorem immediateReadBack_iff (ir : IR) (hemits : ∀ ins ∈ ir.instructions, emits ins = true) :
    (∀ before prev curr behind, ir.instructions = before ++ prev :: curr :: behind →
      (before ++ [prev]).length ∈ immediateReadBackElimination ir → ∀ cpu,
        ((∀ s, run cpu [prev, curr] s = run cpu [prev] s) ↔ readsBack prev.out prev.in1 = true)) ∧
    ((∀ before prev curr behind, ir.instructions = before ++ prev :: curr :: behind →
      (before ++ [prev]).length ∈ immediateReadBackElimination ir → readsBack prev.out prev.in1 = true) →
      ∃ ir', ir.removeInstructions (immediateReadBackElimination ir) = some ir' ∧
        ∀ cpu s, run cpu ir'.instructions s = run cpu ir.instructions s) := by
  constructor
  · intro before prev curr behind hl hmem cpu
    have hl' : ir.instructions = (before ++ [prev]) ++ curr :: behind := by simp [hl]
    obtain ⟨front, prev', hfront, hp, hc, hmirror⟩ := mem_immediateReadBack hl' hmem
    obtain ⟨-, rfl⟩ := List.append_singleton_inj.1 hfront
    obtain ⟨hout, hin⟩ := mirrors_eq hmirror
    have hmovs := movs_of_mirrors hp hc (hemits prev (by simp [hl])) (hemits curr (by simp [hl])) hmirror
    have hboth : bothWays prev.out prev.in1 = true := by simp [bothWays, hmovs]
    simp only [run, List.foldl_cons, List.foldl_nil, exec_of_mov hp, exec_of_mov hc, hout, hin]
    constructor
    · intro h
      by_contra hback
      obtain ⟨s, hs⟩ := exists_not_move_back hmovs (by simpa using hback) cpu
      exact hs (h s)
    · intro hback s
      exact move_back hboth hback
  · intro hback
    obtain ⟨ir', hir', hrun⟩ := run_removeInstructions immediateReadBackElimination_sound ir
    refine ⟨ir', hir', fun cpu s => hrun cpu s fun before curr behind hl hmem => ?_⟩
    obtain ⟨front, prev, rfl, hp, hc, hmirror⟩ := mem_immediateReadBack hl hmem
    obtain ⟨hout, hin⟩ := mirrors_eq hmirror
    have hmovs := movs_of_mirrors hp hc (hemits prev (by simp [hl])) (hemits curr (by simp [hl])) hmirror
    rw [run_append, run_cons, exec_of_mov hp, exec_of_mov hc, hout, hin]
    exact move_back (by simp [bothWays, hmovs]) (hback front prev curr behind (by simp [hl]) hmem)

/-- A 64 bit register that is saved in another one and read back. -/
theorem immediateReadBack_iff_sample :
    let save : Instruction := { op := .mov, out := .r64 .rbx, in1 := .r64 .rcx }
    let restore : Instruction := { op := .mov, out := .r64 .rcx, in1 := .r64 .rbx }
    (∀ cpu, ((∀ s, run cpu [save, restore] s = run cpu [save] s) ↔ readsBack save.out save.in1 = true)) ∧
      ∃ ir', IR.removeInstructions { instructions := [save, restore] }
          (immediateReadBackElimination { instructions := [save, restore] }) = some ir' ∧
        ∀ cpu s, run cpu ir'.instructions s = run cpu [save, restore] s := by
  intro save restore
  have hblock := immediateReadBack_iff { instructions := [save, restore] } (by decide)
  refine ⟨hblock.1 [] save restore [] rfl (by decide), hblock.2 fun before prev curr behind hl hmem => ?_⟩
  cases before with
  | nil =>
    obtain ⟨rfl, -⟩ := List.cons.inj hl
    rfl
  | cons first before =>
    have hlen := congrArg List.length hl
    simp only [List.length_append, List.length_cons, List.length_nil] at hlen
    omega

/-- `mov eax, ecx; mov ecx, eax` clears the upper half of `rcx`. -/
theorem immediateReadBack_fails : ¬ ∀ prev curr : Instruction, prev.op = .mov → curr.op = .mov → emits prev = true →
    emits curr = true → mirrors prev curr = true → ∀ cpu s, run cpu [prev, curr] s = run cpu [prev] s := by
  intro h
  have hrun := h { op := .mov, out := .r32 .eax, in1 := .r32 .ecx } { op := .mov, out := .r32 .ecx, in1 := .r32 .eax }
    rfl rfl rfl rfl rfl ⟨0, 0, fun _ s => s⟩ (fun _ => 1)
  exact absurd (congrFun hrun (.gpr .rcx 7)) (by decide)

end Ir

end X64Emulator
