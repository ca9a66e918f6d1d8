import X64Emulator.Compiler
import X64Emulator.Lemmas.CodeGeneration
import X64Emulator.Lemmas.IrEditing
import X64Emulator.Lemmas.Passes
import Mathlib.Algebra.Group.Int.Defs

/-!
# The layout of native code

The code of a block is the codes of its instructions behind each other. Every offset that is reported goes to where the code of
an instruction begins, and so does every jump, as far as the 32 bits of its displacement reach. The code that keeps the call
stack takes the place of the instructions that were left for it, and of nothing else.
-/

namespace X64Emulator

open Ir Assembler Patching

namespace CodeGenerator

variable {hasMultibyteNop : Bool} {encode : Instruction → Option Code} {ir : IR} {ins : Instruction}
  {fragments : List (Fragment UInt8)} {positions : Nat → Nat} {bb : NativeBasicBlock}

/-! ## Jumps -/

/-- A distance that a displacement can hold. -/
def InReach (distance : Int) : Prop := -2 ^ 31 ≤ distance ∧ distance < 2 ^ 31

theorem toInt_displacement (position q : Nat) :
    (UInt64.ofNat position - UInt64.ofNat q - 4).toUInt32.toInt32.toInt = ((position : Int) - q - 4).bmod (2 ^ 32) := by
  have hmod : (UInt64.ofNat position - UInt64.ofNat q - 4).toUInt32.toNat = (((position : Int) - q - 4) % 2 ^ 32).toNat := by
    simp only [UInt64.toNat_toUInt32, UInt64.toNat_sub, UInt64.toNat_ofNat', UInt64.toNat_ofNat]
    omega
  have htoInt : ∀ x : UInt32, x.toInt32.toInt = (x.toNat : Int).bmod (2 ^ 32) := by
    intro x
    rw [← UInt32.toNat_toBitVec]
    exact BitVec.toInt_eq_toNat_bmod x.toBitVec
  rw [htoInt, hmod, Int.toNat_of_nonneg (by omega)]
  exact Int.emod_bmod ..

theorem bmod_eq_iff (d : Int) : d.bmod (2 ^ 32) = d ↔ InReach d := by
  rw [InReach, Int.bmod]
  split <;> omega

theorem start_succ {it : Fragment UInt8} {i : Nat} (h : fragments[i]? = some it) :
    start fragments (i + 1) = start fragments i + (it.draft hole).length := offset_succ (getElem?_drafts hole h)

/-- Linking does not move the instructions. -/
theorem offset_links (i : Nat) : offset (links hole (fun l => displacement (positions l)) fragments) i = start fragments i := by
  have hlen : ∀ l q, (displacement (positions l) q).length = hole.length := fun _ _ => rfl
  exact offset_congr (length_links hlen) i

theorem takeJump_displacement {opcode : Code} (h : IsJumpOpcode opcode) (position q : Nat) (rest : Code) :
    MachineCode.takeJump (opcode ++ (displacement position q ++ rest)) =
      some (opcode.length + 4, (UInt64.ofNat position - UInt64.ofNat q - 4).toUInt32.toInt32) := by
  rw [MachineCode.takeJump, h.read, Option.bind_some, if_pos h.isJump, displacement, MachineCode.take32_write32]
  rfl

/-- A jump goes to the position of its label, as far as 32 bits reach. -/
theorem leadsTo_links {i l : Nat} {opcode : Code} (hget : fragments[i]? = some (.jump opcode l)) (hopcode : IsJumpOpcode opcode) :
    MachineCode.leadsTo (links hole (fun l => displacement (positions l)) fragments).flatten (start fragments i) =
      some (start fragments (i + 1) + ((positions l : Int) - start fragments (i + 1)).bmod (2 ^ 32)) := by
  have hdrop := drop_offset (getElem?_links hole (fun l => displacement (positions l)) hget)
  rw [offset_links] at hdrop
  have hstart := start_succ hget
  rw [Fragment.draft, List.length_append, length_hole] at hstart
  have hdistance : (positions l : Int) - (start fragments i + opcode.length : Nat) - 4 =
      positions l - (start fragments i + (opcode.length + 4) : Nat) := by omega
  rw [MachineCode.leadsTo, hdrop, Fragment.linked, List.append_assoc, takeJump_displacement hopcode, Option.map_some, hstart,
    ← hdistance]
  simp only [toInt_displacement]
  rfl

/-! ## The layout -/

/-- The bytes that are emitted for an instruction by itself, with no displacement yet if it is a jump. -/
def instructionCode (hasMultibyteNop : Bool) (encode : Instruction → Option Code) (labels : List Nat) (ins : Instruction) :
    Option Code :=
  (emit hasMultibyteNop encode { labels := labels.map fun _ => {} } ins).map Assembler.code

/-- How many bytes of an instruction are known when it is emitted: all but a displacement. -/
def known (ins : Instruction) (code : Code) : Nat := if (jumpLabel ins).isSome then code.length - 4 else code.length

/-- The offset of an anchor that designates an instruction. -/
def offsetOf (ir : IR) (codes : List Code) (anchor : Option Nat) : Option Nat :=
  (anchor.filter (· < ir.instructions.length)).map (offset codes)

/-- The code of a block is laid out as the codes of the instructions behind each other, and what jumps or is reported goes to
where they begin. -/
structure Layout (ir : IR) (codes : List Code) (bb : NativeBasicBlock) : Prop where
  size : bb.nativecode.length = codes.flatten.length
  code : ∀ (i : Nat) ins code k, ir.instructions[i]? = some ins → codes[i]? = some code → k < known ins code →
    bb.nativecode[offset codes i + k]? = code[k]?
  jump : ∀ (i : Nat) ins label target, ir.instructions[i]? = some ins → jumpLabel ins = some label →
    ir.labels[label]? = some target → target < ir.instructions.length →
    (MachineCode.leadsTo bb.nativecode (offset codes i) = some (offset codes target : Int) ↔
      InReach (offset codes target - offset codes (i + 1)))
  landing : bb.offsetOfJumpLandingPad = offsetOf ir codes ir.jumpLanding
  continuing : bb.offsetOfReplaceableJumpToContinuingBlock = offsetOf ir codes ir.jumpToNext
  conditional : bb.offsetOfReplaceableJumpToConditionalBlock = offsetOf ir codes ir.jumpToOther
  push : bb.offsetOfReplaceableCallstackPush =
    (ir.pushCallstack.filter (·.1 < ir.instructions.length)).map fun p => (offset codes p.1, p.2)
  pop : bb.offsetOfReplaceableCallstackPop = offsetOf ir codes ir.popCallstack

theorem instructionCode_eq {labels : List Nat} {it : Fragment UInt8} (hfragment : fragment hasMultibyteNop encode ins = some it)
    (hinside : ∀ opcode l, it = .jump opcode l → l < labels.length) :
    instructionCode hasMultibyteNop encode labels ins = some (it.draft hole) := by
  rw [instructionCode, emit_eq, hfragment, Option.bind_some]
  cases it with
  | plain code => rfl
  | jump opcode l =>
    have hlt : l < (labels.map fun _ => ({} : Label)).length := by
      rw [List.length_map]
      exact hinside opcode l rfl
    rw [append, writeDisplacement, write, if_pos hlt, Option.map_some]
    rfl

/-- An instruction of the block, and what it became. -/
theorem exists_fragment {i : Nat} (hfragments : ir.instructions.map (fragment hasMultibyteNop encode) = fragments.map some)
    (hi : ir.instructions[i]? = some ins) : ∃ it, fragments[i]? = some it ∧ fragment hasMultibyteNop encode ins = some it := by
  have h := congrArg (·[i]?) hfragments
  simp only [List.getElem?_map, hi, Option.map_some] at h
  obtain ⟨it, hget, heq⟩ := Option.map_eq_some_iff.1 h.symm
  exact ⟨it, hget, heq.symm⟩

theorem Generated.laidOut (hfragments : ir.instructions.map (fragment hasMultibyteNop encode) = fragments.map some)
    (h : Generated ir fragments positions bb) : Layout ir (drafts hole fragments) bb := by
  have hlength : fragments.length = ir.instructions.length := by simpa using (congrArg List.length hfragments).symm
  have hlen : ∀ l q, (displacement (positions l) q).length = hole.length := fun _ _ => rfl
  refine ⟨?_, ?_, ?_, ?_, ?_, ?_, ?_, ?_⟩
  · rw [h.nativecode, List.length_flatten, List.length_flatten, length_links hlen]
  · intro i ins code k hi hcode hk
    obtain ⟨it, hget, hfragment⟩ := exists_fragment hfragments hi
    obtain rfl := Option.some.inj ((getElem?_drafts hole hget).symm.trans hcode)
    have hlinked := getElem?_links hole (fun l => displacement (positions l)) hget
    rw [h.nativecode, ← offset_congr (length_links hlen) i]
    rcases fragment_cases hfragment with ⟨code, rfl, hnone⟩ | ⟨opcode, label, rfl, hlabel, -⟩
    · rw [known, hnone] at hk
      exact getElem?_flatten hlinked hk
    · rw [known, hlabel, Option.isSome_some, if_pos rfl, Fragment.draft, List.length_append, length_hole] at hk
      rw [getElem?_flatten hlinked (by rw [Fragment.linked, List.length_append]; omega), Fragment.linked, Fragment.draft,
        List.getElem?_append_left (by omega), List.getElem?_append_left (by omega)]
  · intro i ins label target hi hlabel htarget hlt
    obtain ⟨it, hget, hfragment⟩ := exists_fragment hfragments hi
    rcases fragment_cases hfragment with ⟨code, rfl, hnone⟩ | ⟨opcode, label', rfl, hlabel', hopcode⟩
    · rw [hlabel] at hnone
      cases hnone
    · obtain rfl := Option.some.inj (hlabel.symm.trans hlabel')
      rw [h.nativecode, ← bmod_eq_iff]
      change MachineCode.leadsTo _ (start fragments i) = some (start fragments target : Int) ↔
        ((start fragments target : Int) - start fragments (i + 1)).bmod (2 ^ 32) = start fragments target - start fragments (i + 1)
      rw [leadsTo_links hget hopcode, h.position label target htarget (by omega), Option.some.injEq]
      omega
  · rw [h.landing, taken, hlength]
    rfl
  · rw [h.continuing, taken, hlength]
    rfl
  · rw [h.conditional, taken, hlength]
    rfl
  · rw [h.push, takenPush, hlength]
    rfl
  · rw [h.pop, taken, hlength]
    rfl

theorem tryGenerate_laidOut (h : tryGenerate hasMultibyteNop encode ir = some bb) : ∃ codes : List Code,
    ir.instructions.map (instructionCode hasMultibyteNop encode ir.labels) = codes.map some ∧ Layout ir codes bb := by
  obtain ⟨fragments, positions, hfragments, hgenerated⟩ := tryGenerate_spec h
  refine ⟨drafts hole fragments, List.ext_getElem? fun i => ?_, hgenerated.laidOut hfragments⟩
  rw [List.getElem?_map, List.getElem?_map]
  cases hi : ir.instructions[i]? with
  | none =>
    have hlength : fragments.length = ir.instructions.length := by simpa using (congrArg List.length hfragments).symm
    rw [List.getElem?_eq_none (by rw [length_drafts, hlength]; exact List.getElem?_eq_none_iff.1 hi)]
    rfl
  | some ins =>
    obtain ⟨it, hget, hfragment⟩ := exists_fragment hfragments hi
    have hcode := instructionCode_eq hfragment fun opcode l heq => hgenerated.inside i opcode l (hget.trans (congrArg some heq))
    rw [getElem?_drafts hole hget, Option.map_some, Option.map_some, hcode]

end CodeGenerator

namespace Compiler

open CodeGenerator

variable {hasMultibyteNop : Bool} {encode : Instruction → Option Code} {ir : IR} {bb : CodeGenerator.NativeBasicBlock}
  {codes : List Code}

/-! ## The code of the call stack -/

/-- An anchor designates an instruction that was left for some code: it becomes as many bytes. -/
def Reserves (code : Option Code) (instructions : List Instruction) (anchor : Option Nat) : Prop :=
  ∀ p, anchor = some p → ∃ bytes, code = some bytes ∧ instructions[p]? = some (IrGenerator.uds bytes.length)

/-- The instructions at which the code of the call stack is put in are the ones that were left for it. -/
structure Placeholders (ir : IR) : Prop where
  push : Reserves (pushCallstackCode 0x0 .GPR0 .GPR1) ir.instructions (ir.pushCallstack.map Prod.fst)
  pop : Reserves (popCallstackCode .GPR0 .GPR0 .GPR1) ir.instructions ir.popCallstack

theorem length_pushCallstackCode : (pushCallstackCode 0x0 .GPR0 .GPR1).map List.length = some 36 := by decide

theorem length_popCallstackCode : (popCallstackCode .GPR0 .GPR0 .GPR1).map List.length = some 43 := by decide

theorem length_udsLoop (count : Nat) : (udsLoop count).length = count := by
  induction count using udsLoop.induct with
  | case1 count ih => simp [udsLoop, ud, write16, ih]
  | case2 count _ ih => simp [udsLoop, nop, ih]
  | case3 => rfl

theorem instructionCode_uds {labels : List Nat} {n : Nat} (h2 : 2 ≤ n) (hlt : n < 2 ^ 32) :
    instructionCode hasMultibyteNop encode labels (IrGenerator.uds n) = some (udsLoop n) := by
  have hcount : n.toUInt32.toNat = n := Nat.mod_eq_of_lt hlt
  simp only [instructionCode, emit, IrGenerator.uds, Operand.asU32, hcount, Assembler.uds, if_pos h2, Option.bind_eq_bind,
    Option.bind_some, Option.map_some, write, List.nil_append]

variable {code : Option Code} {anchor : Option Nat} {calls : List IrGenerator.Call} {instructions : List Instruction}

/-- The bytes that were left for some code, in the code of a block. -/
theorem Reserves.at_offset {bytes : Code} {n o : Nat}
    (h : Reserves code ir.instructions anchor) (hn : code.map List.length = some n) (h2 : 2 ≤ n) (hlt : n < 2 ^ 32)
    (hcode : code = some bytes) (ho : offsetOf ir codes anchor = some o)
    (hcodes : ir.instructions.map (instructionCode hasMultibyteNop encode ir.labels) = codes.map some) :
    ∃ i, anchor = some i ∧ o = offset codes i ∧ offset codes (i + 1) = o + bytes.length ∧
      o + bytes.length ≤ codes.flatten.length := by
  obtain ⟨i, hi, rfl⟩ := Option.map_eq_some_iff.1 ho
  obtain ⟨hi, -⟩ := Option.filter_eq_some_iff.1 hi
  obtain ⟨_, heq, hins⟩ := h i hi
  obtain rfl := Option.some.inj (hcode.symm.trans heq)
  obtain rfl : bytes.length = n := by simpa [hcode] using hn
  have hget := congrArg (·[i]?) hcodes
  simp only [List.getElem?_map, hins, Option.map_some, instructionCode_uds h2 hlt] at hget
  obtain ⟨written, hwritten, heq⟩ := Option.map_eq_some_iff.1 hget.symm
  obtain rfl := Option.some.inj heq
  have hnext := offset_succ hwritten
  have hfits := offset_add_le hwritten
  rw [length_udsLoop] at hnext hfits
  exact ⟨i, hi, rfl, hnext, hfits⟩

/-- Copying code changes nothing but the bytes it is copied to. -/
theorem replace_spec (bb : CodeGenerator.NativeBasicBlock) {offset : Option Nat} (code : Code)
    (h : ∀ o, offset = some o → o + code.length ≤ bb.nativecode.length) :
    ∃ bb', replace bb offset (some code) = some bb' ∧ bb'.nativecode.length = bb.nativecode.length ∧
      bb'.offsetOfReplaceableCallstackPop = bb.offsetOfReplaceableCallstackPop ∧
      ∀ k, bb'.nativecode[k]? ≠ bb.nativecode[k]? → ∃ o, offset = some o ∧ o ≤ k ∧ k < o + code.length := by
  cases offset with
  | none => exact ⟨bb, rfl, rfl, rfl, fun k hk => absurd rfl hk⟩
  | some o =>
    have hin := h o rfl
    refine ⟨{ bb with nativecode := overwrite bb.nativecode o code }, if_pos hin, length_overwrite hin, rfl, ?_⟩
    intro k hk
    rw [getElem?_overwrite hin] at hk
    by_cases hcovers : o ≤ k ∧ k < o + code.length
    · exact ⟨o, rfl, hcovers⟩
    · exact absurd (if_neg hcovers) hk

/-- Two versions of the code of a block that differ in the instructions that were left for the code of the call stack only. -/
structure Replaced (ir : IR) (codes : List Code) (bb bb' : CodeGenerator.NativeBasicBlock) : Prop where
  size : bb'.nativecode.length = bb.nativecode.length
  kept : ∀ k, bb'.nativecode[k]? ≠ bb.nativecode[k]? → ∃ i, (ir.pushCallstack.map Prod.fst = some i ∨ ir.popCallstack = some i) ∧
    offset codes i ≤ k ∧ k < offset codes (i + 1)

theorem tryCompile_spec (hplaceholders : Placeholders ir) (hbb : tryGenerate hasMultibyteNop encode ir = some bb)
    (hcodes : ir.instructions.map (instructionCode hasMultibyteNop encode ir.labels) = codes.map some)
    (hlaidOut : Layout ir codes bb) :
    ∃ bb', tryCompile hasMultibyteNop encode (some ir) = some bb' ∧ Replaced ir codes bb bb' := by
  obtain ⟨pushCode, hpushCode, -⟩ := Option.map_eq_some_iff.1 length_pushCallstackCode
  obtain ⟨popCode, hpopCode, -⟩ := Option.map_eq_some_iff.1 length_popCallstackCode
  have hpushAt : bb.offsetOfReplaceableCallstackPush.map Prod.fst = offsetOf ir codes (ir.pushCallstack.map Prod.fst) := by
    rw [hlaidOut.push, offsetOf, Option.filter_map, Option.map_map, Option.map_map]
    rfl
  have hpush := fun o ho => hplaceholders.push.at_offset (o := o) length_pushCallstackCode (by decide) (by decide) hpushCode
    (hpushAt ▸ ho) hcodes
  have hpop := fun o ho => hplaceholders.pop.at_offset (o := o) length_popCallstackCode (by decide) (by decide) hpopCode
    (hlaidOut.pop ▸ ho) hcodes
  obtain ⟨bb1, hbb1, hsize1, hsame1, hkept1⟩ := replace_spec bb pushCode fun o ho => by
    obtain ⟨i, -, -, -, hfits⟩ := hpush o ho
    rwa [hlaidOut.size]
  obtain ⟨bb2, hbb2, hsize2, -, hkept2⟩ := replace_spec bb1 popCode fun o ho => by
    obtain ⟨i, -, -, -, hfits⟩ := hpop o (hsame1 ▸ ho)
    rwa [hsize1, hlaidOut.size]
  refine ⟨bb2, ?_, hsize2.trans hsize1, ?_⟩
  · simp only [tryCompile, Option.bind_eq_bind, Option.bind_some, hbb, hpushCode, hpopCode, hbb1, hbb2]
  · intro k hk
    by_cases h2 : bb2.nativecode[k]? = bb1.nativecode[k]?
    · obtain ⟨o, ho, hle, hlt⟩ := hkept1 k (by rwa [← h2])
      obtain ⟨i, hi, rfl, hnext, -⟩ := hpush o ho
      exact ⟨i, .inl hi, hle, by omega⟩
    · obtain ⟨o, ho, hle, hlt⟩ := hkept2 k h2
      obtain ⟨i, hi, rfl, hnext, -⟩ := hpop o (hsame1 ▸ ho)
      exact ⟨i, .inr hi, hle, by omega⟩

/-! ## What the generator leaves -/

/-- The calls that say nothing about the call stack. -/
def isPlain : IrGenerator.Call → Bool
  | .reportPushCallstack _ | .reportPopCallstack => false
  | _ => true

/-- Calls that report a push or a pop as `tryCompileCall` and `tryCompileRet` do. -/
inductive Placing : List IrGenerator.Call → Prop
  | nil : Placing []
  | plain {calls : List IrGenerator.Call} {c : IrGenerator.Call} : Placing calls → isPlain c = true → Placing (calls ++ [c])
  | push {calls place : List IrGenerator.Call} {retAddress : UInt64} :
    Placing calls → placePush retAddress = some place → Placing (calls ++ place)
  | pop {calls place : List IrGenerator.Call} : Placing calls → placePop = some place → Placing (calls ++ place)

theorem Placing.append (h : Placing calls) (more : List IrGenerator.Call)
    (hmore : ∀ c ∈ more, isPlain c = true) : Placing (calls ++ more) := by
  induction more generalizing calls with
  | nil => rwa [List.append_nil]
  | cons c more ih =>
    obtain ⟨hc, hrest⟩ := List.forall_mem_cons.1 hmore
    rw [List.append_cons]
    exact ih (h.plain hc) hrest

theorem Reserves.append
    (h : Reserves code instructions anchor) (more : List Instruction) : Reserves code (instructions ++ more) anchor := by
  intro p hp
  obtain ⟨bytes, hcode, hins⟩ := h p hp
  exact ⟨bytes, hcode, by rwa [List.getElem?_append_left (List.getElem?_eq_some_iff.1 hins).1]⟩

theorem Reserves.behind (h : Reserves code instructions anchor) (before : List Instruction) :
    Reserves code (before ++ instructions) (anchor.map (before.length + ·)) := by
  intro p hp
  obtain ⟨q, hq, rfl⟩ := Option.map_eq_some_iff.1 hp
  obtain ⟨bytes, hcode, hins⟩ := h q hq
  exact ⟨bytes, hcode, by rwa [List.getElem?_append_right (Nat.le_add_right ..), Nat.add_sub_cancel_left]⟩

theorem Reserves.or {anchor' : Option Nat}
    (h : Reserves code instructions anchor) (h' : Reserves code instructions anchor') :
    Reserves code instructions (anchor.or anchor') := by
  intro p hp
  rcases Option.or_eq_some_iff.1 hp with hp | ⟨-, hp⟩
  · exact h p hp
  · exact h' p hp

theorem reserves_none (code : Option Code) (instructions : List Instruction) : Reserves code instructions none := nofun

/-- An instruction that is left for some code at the end of others. -/
theorem reserves_last {bytes : Code} (hcode : code = some bytes) (instructions : List Instruction) :
    Reserves code (instructions ++ [IrGenerator.uds bytes.length]) (some instructions.length) := by
  rintro p ⟨⟩
  exact ⟨bytes, hcode, List.getElem?_concat_length ..⟩

/-- What the generator knows of the call stack designates placeholders. -/
structure Placed (g : IrGenerator) : Prop where
  push : Reserves (pushCallstackCode 0x0 .GPR0 .GPR1) g.instructions (g.pushCallstacks.map Prod.fst)
  pop : Reserves (popCallstackCode .GPR0 .GPR0 .GPR1) g.instructions g.popCallstacks

variable {g g' : IrGenerator}

/-- A call that says nothing about the call stack emits at most one instruction. -/
theorem call_plain {c : IrGenerator.Call} (h : g.call c = some g') (hc : isPlain c = true) :
    (∃ instructions, g'.instructions = g.instructions ++ instructions) ∧ g'.pushCallstacks = g.pushCallstacks ∧
      g'.popCallstacks = g.popCallstacks := by
  cases c with
  | emit | jumpCondition | jump =>
    obtain rfl := Option.some.inj h
    exact ⟨⟨_, rfl⟩, rfl, rfl⟩
  | label | putLabel | reportJump =>
    obtain rfl := Option.some.inj h
    exact ⟨⟨[], (List.append_nil _).symm⟩, rfl, rfl⟩
  | reportJumpLanding =>
    rw [IrGenerator.call] at h
    split at h
    · cases h
    · obtain rfl := Option.some.inj h
      exact ⟨⟨[], (List.append_nil _).symm⟩, rfl, rfl⟩
  | reportPushCallstack | reportPopCallstack => cases hc

theorem Placing.placed (h : Placing calls) (hg : calls.foldlM IrGenerator.call {} = some g) : Placed g := by
  induction h generalizing g with
  | nil =>
    obtain rfl := Option.some.inj hg
    exact ⟨reserves_none _ _, reserves_none _ _⟩
  | plain _ hc ih =>
    simp only [List.foldlM_append, List.foldlM_cons, List.foldlM_nil, Option.bind_eq_bind, Option.bind_eq_some_iff,
      Option.pure_def, Option.some.injEq] at hg
    obtain ⟨g1, h1, _, hcall, rfl⟩ := hg
    obtain ⟨⟨instructions, hcode⟩, hpush, hpop⟩ := call_plain hcall hc
    constructor
    · rw [hcode, hpush]
      exact (ih h1).push.append instructions
    · rw [hcode, hpop]
      exact (ih h1).pop.append instructions
  | push _ hplace ih =>
    obtain ⟨code, hcode, rfl⟩ := Option.map_eq_some_iff.1 hplace
    simp only [List.foldlM_append, List.foldlM_cons, List.foldlM_nil, Option.bind_eq_bind, Option.bind_eq_some_iff,
      Option.pure_def, Option.some.injEq, IrGenerator.call, Option.ite_none_left_eq_some] at hg
    obtain ⟨g1, h1, _, ⟨-, rfl⟩, _, rfl, rfl⟩ := hg
    exact ⟨reserves_last hcode g1.instructions, (ih h1).pop.append _⟩
  | pop _ hplace ih =>
    obtain ⟨code, hcode, rfl⟩ := Option.map_eq_some_iff.1 hplace
    simp only [List.foldlM_append, List.foldlM_cons, List.foldlM_nil, Option.bind_eq_bind, Option.bind_eq_some_iff,
      Option.pure_def, Option.some.injEq, IrGenerator.call, Option.ite_none_left_eq_some] at hg
    obtain ⟨g1, h1, _, ⟨-, rfl⟩, _, rfl, rfl⟩ := hg
    exact ⟨(ih h1).push.append _, reserves_last hcode g1.instructions⟩

/-- What every turn of a loop keeps is kept by the loop. -/
theorem foldlM_keeps {α β : Type} {P : β → Prop} {f : β → α → Option β} {l : List α} {b b' : β}
    (hstep : ∀ a ∈ l, ∀ b b', P b → f b a = some b' → P b') (hb : P b) (h : l.foldlM f b = some b') : P b' := by
  induction l generalizing b with
  | nil =>
    obtain rfl := Option.some.inj h
    exact hb
  | cons a l ih =>
    rw [List.foldlM_cons] at h
    obtain ⟨b1, h1, hrest⟩ := Option.bind_eq_some_iff.1 h
    exact ih (fun a ha => hstep a (List.mem_cons_of_mem _ ha)) (hstep a List.mem_cons_self b b1 hb h1) hrest

/-- Closing a label changes jumps only. -/
theorem closeLabel_keeps {instructions' : List Instruction} {entry : IrGenerator.Label × Nat} {p : Nat}
    {ins : Instruction} (hnone : ins.in1.asLabelIndex = none) (hp : instructions[p]? = some ins)
    (h : IrGenerator.closeLabel instructions entry = some instructions') : instructions'[p]? = some ins := by
  refine foldlM_keeps (P := fun instructions : List Instruction => instructions[p]? = some ins) ?_ hp h
  intro q _ l l' hl hset
  simp only [IrGenerator.setLabelIndex, Option.bind_eq_bind, Option.bind_eq_some_iff, Option.some.injEq] at hset
  obtain ⟨jump, hjump, label, hlabel, rfl⟩ := hset
  have hne : q ≠ p := by
    rintro rfl
    obtain rfl := Option.some.inj (hjump.symm.trans hl)
    rw [hnone] at hlabel
    cases hlabel
  rwa [List.getElem?_set_ne hne]

theorem Placed.generateIR (h : Placed g) (hir : g.generateIR = some ir) : Placeholders ir := by
  simp only [IrGenerator.generateIR, Option.bind_eq_bind, Option.bind_eq_some_iff, Option.some.injEq] at hir
  obtain ⟨instructions, hclosed, _, -, _, -, rfl⟩ := hir
  have hkeeps : ∀ code anchor, Reserves code g.instructions anchor → Reserves code instructions anchor := by
    intro code anchor hreserves p hp
    obtain ⟨bytes, hcode, hins⟩ := hreserves p hp
    refine ⟨bytes, hcode, ?_⟩
    exact foldlM_keeps (P := fun instructions : List Instruction => instructions[p]? = some (IrGenerator.uds bytes.length))
      (fun _ _ _ _ => closeLabel_keeps rfl) hins hclosed
  exact ⟨hkeeps _ _ h.push, hkeeps _ _ h.pop⟩

theorem Placing.placeholders (h : Placing calls) (hir : IrGenerator.generated calls = some ir) :
    Placeholders ir := by
  obtain ⟨g, hg, hgenerate⟩ := Option.bind_eq_some_iff.1 hir
  exact (h.placed hg).generateIR hgenerate

/-- Blocks that are put together keep their placeholders. -/
theorem Placeholders.add {ir other w : IR} (h : Placeholders ir) (hother : Placeholders other) (hw : ir.add other = some w) :
    Placeholders w := by
  obtain ⟨-, rfl⟩ := IR.add_eq_some.1 hw
  constructor
  · have hpush : (ir.append other).pushCallstack.map Prod.fst =
        (ir.pushCallstack.map Prod.fst).or ((other.pushCallstack.map Prod.fst).map (ir.instructions.length + ·)) := by
      simp [IR.append, IR.join, IR.renew, Option.map_or, Function.comp_def]
    rw [hpush]
    exact (h.push.append other.instructions).or (hother.push.behind ir.instructions)
  · exact (h.pop.append other.instructions).or (hother.pop.behind ir.instructions)

/-- A block of which nothing about the call stack was said has no placeholders, optimized or not. -/
theorem placeholders_optimized {body body' : IR} {optimizationLevel : Int}
    (hplain : ∀ c ∈ calls, isPlain c = true) (hbody : IrGenerator.generated calls = some body)
    (hoptimized : optimized optimizationLevel body = some body') : Placeholders body' := by
  obtain ⟨g, hg, hgenerate⟩ := Option.bind_eq_some_iff.1 hbody
  have hnone : g.pushCallstacks = none ∧ g.popCallstacks = none := by
    refine foldlM_keeps (P := fun g : IrGenerator => g.pushCallstacks = none ∧ g.popCallstacks = none) ?_ ⟨rfl, rfl⟩ hg
    intro c hc g1 g2 hnone hcall
    obtain ⟨-, hpush, hpop⟩ := call_plain hcall (hplain c hc)
    rwa [hpush, hpop]
  simp only [IrGenerator.generateIR, Option.bind_eq_bind, Option.bind_eq_some_iff, Option.some.injEq] at hgenerate
  obtain ⟨_, -, _, -, _, -, rfl⟩ := hgenerate
  have hnone' : body'.pushCallstack = none ∧ body'.popCallstack = none := by
    rw [optimized] at hoptimized
    split at hoptimized
    · obtain ⟨result, ⟨kept, -, hrestrict⟩, hends⟩ := Optimizer.optimize_ends _ {}
      rw [hends _ (Nat.lt_succ_self _), Option.map_some, Option.some.injEq] at hoptimized
      rw [← hoptimized, hrestrict]
      exact ⟨congrArg (Option.map _) hnone.1, congrArg (Option.map _) hnone.2⟩
    · obtain rfl := Option.some.inj hoptimized
      exact hnone
  constructor
  · rw [hnone'.1]
    exact reserves_none _ _
  · rw [hnone'.2]
    exact reserves_none _ _

theorem tryCompileIR_placeholders {optimizationLevel : Int} {entry body exitPreparation basicBlockExit : List IrGenerator.Call}
    (hentry : Placing entry) (hbody : ∀ c ∈ body, isPlain c = true) (hpreparation : Placing exitPreparation)
    (hexit : Placing basicBlockExit)
    (h : tryCompileIR optimizationLevel entry body exitPreparation basicBlockExit = some ir) : Placeholders ir := by
  simp only [tryCompileIR, Option.bind_eq_bind, Option.bind_eq_some_iff] at h
  obtain ⟨entry', hentry', _, hbody', body', hoptimized, preparation', hpreparation', exit', hexit', _, h1, _, h2, _, h3, h4⟩ := h
  have hempty : Placeholders {} := ⟨reserves_none _ _, reserves_none _ _⟩
  have hwhole := hempty.add (hentry.placeholders hentry') h1
  have hwhole := hwhole.add (placeholders_optimized hbody hbody' hoptimized) h2
  have hwhole := hwhole.add (hpreparation.placeholders hpreparation') h3
  exact hwhole.add (hexit.placeholders hexit') h4

/-- The code of a block is laid out as the codes of its instructions: every reported offset is that of the instruction that was
designated, and a jump goes to the instruction that its label designates just if 32 bits reach there. The code of the call stack
is copied over the instructions that were left for it only, and the compiler leaves them in every block. -/
theorem code_laidOut (hasMultibyteNop : Bool) (encode : Instruction → Option Code) :
    (∀ ir bb, tryGenerate hasMultibyteNop encode ir = some bb → ∃ codes : List Code,
      ir.instructions.map (instructionCode hasMultibyteNop encode ir.labels) = codes.map some ∧ Layout ir codes bb ∧
      (Placeholders ir → ∃ bb', tryCompile hasMultibyteNop encode (some ir) = some bb' ∧ Replaced ir codes bb bb')) ∧
    ∀ optimizationLevel entry body exitPreparation basicBlockExit ir, Placing entry → (∀ c ∈ body, isPlain c = true) →
      Placing exitPreparation → Placing basicBlockExit →
      tryCompileIR optimizationLevel entry body exitPreparation basicBlockExit = some ir → Placeholders ir := by
  constructor
  · intro ir bb hbb
    obtain ⟨codes, hcodes, hlaidOut⟩ := tryGenerate_laidOut hbb
    exact ⟨codes, hcodes, hlaidOut, fun hplaceholders => tryCompile_spec hplaceholders hbb hcodes hlaidOut⟩
  · intro optimizationLevel entry body exitPreparation basicBlockExit ir hentry hbody hpreparation hexit h
    exact tryCompileIR_placeholders hentry hbody hpreparation hexit h

section Samples

/-- A call that is only made under a condition, behind a block that starts with a landing. -/
theorem code_laidOut_sample :
    let entry : List IrGenerator.Call := [.reportJumpLanding, .emit { op := .ret }]
    let basicBlockExit : List IrGenerator.Call :=
      [.label, .jumpCondition .e 0, .reportPushCallstack 0x1234, .emit (IrGenerator.uds 36), .label, .putLabel 1, .jump 0,
        .jump 1, .putLabel 0, .emit { op := .ret }]
    ∃ ir bb codes bb', tryCompileIR 0 entry [] [] basicBlockExit = some ir ∧
      tryGenerate true (fun _ => none) ir = some bb ∧
      ir.instructions.map (instructionCode true (fun _ => none) ir.labels) = codes.map some ∧ Layout ir codes bb ∧
      tryCompile true (fun _ => none) (some ir) = some bb' ∧ Replaced ir codes bb bb' ∧
      bb.offsetOfReplaceableCallstackPush = some (7, 0x1234) ∧ MachineCode.leadsTo bb.nativecode 1 = some 53 ∧
      MachineCode.leadsTo bb.nativecode 48 = some 43 := by
  intro entry basicBlockExit
  obtain ⟨ir, hir, bb, hbb, hfound⟩ : ∃ ir, tryCompileIR 0 entry [] [] basicBlockExit = some ir ∧
      ∃ bb, tryGenerate true (fun _ => none) ir = some bb ∧
        (bb.offsetOfReplaceableCallstackPush = some (7, 0x1234) ∧ MachineCode.leadsTo bb.nativecode 1 = some 53 ∧
          MachineCode.leadsTo bb.nativecode 48 = some 43) := by
    refine ⟨_, rfl, _, rfl, ?_⟩
    decide
  have hplace : placePush 0x1234 = some [.reportPushCallstack 0x1234, .emit (IrGenerator.uds 36)] := by decide
  have hplacing : Placing basicBlockExit := ((Placing.nil.append [.label, .jumpCondition .e 0] (by decide)).push hplace).append
    [.label, .putLabel 1, .jump 0, .jump 1, .putLabel 0, .emit { op := .ret }] (by decide)
  have hplaceholders := (code_laidOut true fun _ => none).2 0 entry [] [] basicBlockExit ir
    (.plain (.plain .nil rfl) rfl) (by simp) .nil hplacing hir
  obtain ⟨codes, hcodes, hlaidOut, hcompile⟩ := (code_laidOut true fun _ => none).1 ir bb hbb
  obtain ⟨bb', hbb', hreplaced⟩ := hcompile hplaceholders
  exact ⟨ir, bb, codes, bb', hir, hbb, hcodes, hlaidOut, hbb', hreplaced, hfound⟩

/-- A jump over `count` bytes. -/
def farJump (count : UInt32) : IR where
  instructions := [{ op := .jmp, in1 := .labelIndex 0 }, { op := .nopN, in1 := .u32 count }, { op := .ret }]
  labels := [2]

theorem length_multibyteNops (count : Nat) : (multibyteNops count).length = count := by
  induction count using multibyteNops.induct with
  | case1 count ih => simp [multibyteNops, write64, ih]
  | case2 count hsmall ih =>
    rw [multibyteNops, List.length_append, ih, length_write32, Nat.add_comm]
    exact hsmall
  | case3 count _ _ ih => simp [multibyteNops, write16, ih]
  | case4 count _ _ _ ih => simp [multibyteNops, nop, ih]
  | case5 => rfl

/-- A jump over 2 GiB of code goes back instead of forward. -/
theorem code_laidOut_fails : ∃ ir bb codes, tryGenerate true (fun _ => none) ir = some bb ∧
    ir.instructions.map (instructionCode true (fun _ => none) ir.labels) = codes.map some ∧
    ir.instructions[0]? = some { op := .jmp, in1 := .labelIndex 0 } ∧ ir.labels[0]? = some 2 ∧ 2 < ir.instructions.length ∧
    MachineCode.leadsTo bb.nativecode (offset codes 0) ≠ some (offset codes 2 : Int) := by
  have hgenerate : ∀ count, ∃ bb, tryGenerate true (fun _ => none) (farJump count) = some bb := fun _ => ⟨_, rfl⟩
  obtain ⟨bb, hbb⟩ := hgenerate 0x80000000
  obtain ⟨codes, hcodes, hlaidOut⟩ := tryGenerate_laidOut hbb
  refine ⟨farJump 0x80000000, bb, codes, hbb, hcodes, rfl, rfl, by decide, fun hleads => ?_⟩
  have hnops : ∀ count, instructionCode true (fun _ => none) [2] { op := .nopN, in1 := .u32 count } =
      some (multibyteNops count.toNat) := fun _ => rfl
  have hget : codes[1]? = some (multibyteNops (0x80000000 : UInt32).toNat) := by
    have hget := congrArg (·[1]?) hcodes
    simp only [List.getElem?_map] at hget
    have hsome : (codes[1]?).map some = some (some (multibyteNops (0x80000000 : UInt32).toNat)) := by
      rw [← hget, ← hnops]
      rfl
    obtain ⟨code, hcode, heq⟩ := Option.map_eq_some_iff.1 hsome
    rw [hcode, heq]
  have hnext := offset_succ hget
  have hcount : (0x80000000 : UInt32).toNat = 2 ^ 31 := by decide
  rw [length_multibyteNops, hcount] at hnext
  have hreach := ((hlaidOut.jump 0 _ 0 2 rfl rfl rfl (by decide)).1 hleads).2
  rw [Nat.zero_add, hnext] at hreach
  omega

end Samples

end Compiler

end X64Emulator
