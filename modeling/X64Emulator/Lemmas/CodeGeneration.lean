import X64Emulator.CodeGenerator
import X64Emulator.MachineCode
import X64Emulator.Lib.Patching

/-!
# Generating code

What the loop over the instructions has written and taken down at any time, and what comes out when the labels are closed: the
pieces that the instructions become, linked.
-/

namespace X64Emulator

open Ir Assembler Patching

namespace CodeGenerator

/-! ## What one instruction becomes -/

/-- What stands for a displacement that is not known. -/
def hole : Code := Assembler.write32 0x87654321

/-- The displacement at `q` of a jump to `position`. -/
def displacement (position q : Nat) : Code := Assembler.write32 (UInt64.ofNat position - UInt64.ofNat q - 4).toUInt32

@[simp] theorem length_write32 (v : UInt32) : (Assembler.write32 v).length = 4 := rfl

@[simp] theorem length_hole : hole.length = 4 := rfl

variable {hasMultibyteNop : Bool} {encode : Instruction → Option Code} {ir : IR} {a a' : Assembler} {ins : Instruction}

/-- Writes what an instruction becomes. -/
def append (a : Assembler) : Fragment UInt8 → Option Assembler
  | .plain code => some (a.write code)
  | .jump opcode label => (a.write opcode).writeDisplacement label

theorem write_write (a : Assembler) (code code' : Code) : (a.write code).write code' = a.write (code ++ code') := by
  simp [write, List.append_assoc]

theorem emit_eq (a : Assembler) (ins : Instruction) :
    emit hasMultibyteNop encode a ins = (fragment hasMultibyteNop encode ins).bind (append a) := by
  unfold emit fragment
  split
  · simp [append, jumpCondition, write_write, Option.bind_assoc]
  · simp [append, jump, Option.bind_map, Function.comp_def]
  · simp [append, Option.map_eq_bind, Option.bind_assoc]
  · simp [append, Option.map_eq_bind, Option.bind_assoc]
  · simp [append]
  · simp [append, Option.bind_map, Function.comp_def]
  · simp [append, Option.map_eq_bind, Option.bind_assoc]
  · simp [append, Option.map_eq_bind, Option.bind_assoc]

/-- The label an instruction jumps to. -/
def jumpLabel (ins : Instruction) : Option Nat :=
  match ins.op with
  | .jcc | .jmp => ins.in1.asLabelIndex
  | _ => none

theorem conditionOpcode_jump {cond : Cond} {c : UInt8} (h : conditionOpcode cond = some c) : c &&& 0xf0 = 0x80 := by
  cases cond <;> simp only [conditionOpcode, Option.some.injEq, reduceCtorEq] at h <;> subst h <;> rfl

/-- The host reads the opcode of a jump as one. -/
structure IsJumpOpcode (opcode : Code) : Prop where
  read : ∀ rest, MachineCode.takeOpcode (opcode ++ rest) = some (opcode, rest)
  isJump : MachineCode.isJump opcode = true

theorem isJumpOpcode_jmp : IsJumpOpcode [0xe9] := ⟨fun _ => rfl, by decide⟩

theorem isJumpOpcode_jcc {cond : Cond} {c : UInt8} (h : conditionOpcode cond = some c) : IsJumpOpcode [0x0F, c] :=
  ⟨fun _ => rfl, by simp [MachineCode.isJump, conditionOpcode_jump h]⟩

/-- An instruction becomes a jump where it has a label. -/
theorem fragment_cases {it : Fragment UInt8} (h : fragment hasMultibyteNop encode ins = some it) :
    (∃ code, it = .plain code ∧ jumpLabel ins = none) ∨
    ∃ opcode label, it = .jump opcode label ∧ jumpLabel ins = some label ∧ IsJumpOpcode opcode := by
  unfold fragment at h
  unfold jumpLabel
  split at h
  case h_1 hop =>
    simp only [Option.bind_eq_bind, Option.bind_eq_some_iff, Option.some.injEq] at h
    obtain ⟨cond, -, label, hlabel, opcode, hopcode, rfl⟩ := h
    exact .inr ⟨_, label, rfl, by simp only [hop, hlabel], isJumpOpcode_jcc hopcode⟩
  case h_2 hop =>
    obtain ⟨label, hlabel, rfl⟩ := Option.map_eq_some_iff.1 h
    exact .inr ⟨_, label, rfl, by simp only [hop, hlabel], isJumpOpcode_jmp⟩
  case h_5 hop =>
    exact .inl ⟨_, (Option.some.inj h).symm, by simp only [hop]⟩
  case h_8 h1 h2 _ _ _ _ _ =>
    obtain ⟨code, -, rfl⟩ := Option.map_eq_some_iff.1 h
    refine .inl ⟨code, rfl, ?_⟩
    split
    · contradiction
    · contradiction
    · rfl
  all_goals
    obtain ⟨code, -, rfl⟩ := Option.map_eq_some_iff.1 h
    exact .inl ⟨_, rfl, by simp only [*]⟩

/-! ## Closing labels -/

/-- The patch of a jump to a label. -/
def patch (label : Label) (q : Nat) : Nat × Code := (q, displacement label.positionInCode q)

theorem set_four {code : Code} {q : Nat} (b0 b1 b2 b3 : UInt8) (h : q + 4 ≤ code.length) :
    (((code.set (q + 0) b0).set (q + 1) b1).set (q + 2) b2).set (q + 3) b3 = overwrite code q [b0, b1, b2, b3] := by
  have hlen : ∀ new : Code, new.length ≤ 4 → (overwrite code q new).length = code.length := by
    intro new hnew
    exact length_overwrite (by omega)
  have h1 : overwrite (overwrite code q [b0]) (q + 1) [b1] = overwrite code q [b0, b1] :=
    overwrite_overwrite (by simp only [List.length_singleton]; omega)
  have h2 : overwrite (overwrite code q [b0, b1]) (q + 2) [b2] = overwrite code q [b0, b1, b2] :=
    overwrite_overwrite (by simp only [List.length_cons, List.length_nil]; omega)
  have h3 : overwrite (overwrite code q [b0, b1, b2]) (q + 3) [b3] = overwrite code q [b0, b1, b2, b3] :=
    overwrite_overwrite (by simp only [List.length_cons, List.length_nil]; omega)
  rw [Nat.add_zero, set_eq_overwrite b0 (by omega), set_eq_overwrite b1 (by rw [hlen _ (by simp)]; omega), h1,
    set_eq_overwrite b2 (by rw [hlen _ (by simp)]; omega), h2, set_eq_overwrite b3 (by rw [hlen _ (by simp)]; omega), h3]

theorem closeLabel_eq {code : Code} {label : Label} (h : ∀ q ∈ label.jumpsToMe, q + 4 ≤ code.length) :
    closeLabel code label = overwriteAll code (label.jumpsToMe.map (patch label)) := by
  obtain ⟨position, jumps⟩ := label
  simp only [closeLabel] at h ⊢
  induction jumps generalizing code with
  | nil => rfl
  | cons q jumps ih =>
    obtain ⟨hq, hrest⟩ := List.forall_mem_cons.1 h
    have hlen : (overwrite code q (displacement position q)).length = code.length := length_overwrite hq
    rw [List.foldl_cons, List.map_cons, set_four _ _ _ _ hq]
    exact ih fun q' hq' => (hrest q' hq').trans_eq hlen.symm

/-- The patches of all jumps. -/
def patches (labels : List Label) : List (Nat × Code) := labels.flatMap fun label => label.jumpsToMe.map (patch label)

theorem mem_patches {labels : List Label} {p : Nat × Code} :
    p ∈ patches labels ↔
      ∃ (l : Nat) (label : Label) (q : Nat), labels[l]? = some label ∧ q ∈ label.jumpsToMe ∧ p = patch label q := by
  simp only [patches, List.mem_flatMap, List.mem_map]
  constructor
  · rintro ⟨label, hlabel, q, hq, rfl⟩
    obtain ⟨l, hl⟩ := List.mem_iff_getElem?.1 hlabel
    exact ⟨l, label, q, hl, hq, rfl⟩
  · rintro ⟨l, label, q, hl, hq, rfl⟩
    exact ⟨label, List.mem_of_getElem? hl, q, hq, rfl⟩

/-- The labels are closed by overwriting with all patches. -/
theorem patchJumps_eq (h : ∀ label ∈ a.labels, ∀ q ∈ label.jumpsToMe, q + 4 ≤ a.code.length) :
    a.patchJumps.code = overwriteAll a.code (patches a.labels) := by
  obtain ⟨code, labels⟩ := a
  simp only [patchJumps] at h ⊢
  induction labels generalizing code with
  | nil => rfl
  | cons label labels ih =>
    obtain ⟨hlabel, hrest⟩ := List.forall_mem_cons.1 h
    have hin : ∀ p ∈ label.jumpsToMe.map (patch label), p.1 + p.2.length ≤ code.length := by
      intro p hp
      obtain ⟨q, hq, rfl⟩ := List.mem_map.1 hp
      exact hlabel q hq
    have hlen := length_overwriteAll hin
    rw [List.foldl_cons, closeLabel_eq hlabel, patches, List.flatMap_cons, overwriteAll_append]
    exact ih _ (by simpa only [hlen] using hrest)

/-! ## The loop over the instructions -/

variable {done : List (Fragment UInt8)} {it : Fragment UInt8} {g g' : Generation}

/-- Where the code of an instruction begins. -/
def start (done : List (Fragment UInt8)) (i : Nat) : Nat := offset (drafts hole done) i

/-- What has been taken down of an anchor when some instructions are done. -/
def taken (done : List (Fragment UInt8)) (anchor : Option Nat) : Option Nat := (anchor.filter (· < done.length)).map (start done)

/-- The same for a push to the call stack, which also has an address. -/
def takenPush (done : List (Fragment UInt8)) (anchor : Option (Nat × UInt64)) : Option (Nat × UInt64) :=
  (anchor.filter (·.1 < done.length)).map fun p => (start done p.1, p.2)

/-- What has been written and taken down when some instructions are done. -/
structure Drafted (ir : IR) (done : List (Fragment UInt8)) (g : Generation) : Prop where
  code : g.assembler.code = (drafts hole done).flatten
  labels : g.assembler.labels.length = ir.labels.length
  position : ∀ (l : Nat) label target, g.assembler.labels[l]? = some label → ir.labels[l]? = some target →
    target < done.length → label.positionInCode = start done target
  jumps : ∀ (l : Nat) label q, g.assembler.labels[l]? = some label →
    (q ∈ label.jumpsToMe ↔ ∃ i opcode, done[i]? = some (.jump opcode l) ∧ q = start done i + opcode.length)
  inside : ∀ (i : Nat) opcode l, done[i]? = some (.jump opcode l) → l < ir.labels.length
  landing : g.offsetOfJumpLandingPad = taken done ir.jumpLanding
  continuing : g.offsetOfReplaceableJumpToContinuingBlock = taken done ir.jumpToNext
  conditional : g.offsetOfReplaceableJumpToConditionalBlock = taken done ir.jumpToOther
  push : g.offsetOfReplaceableCallstackPush = takenPush done ir.pushCallstack
  pop : g.offsetOfReplaceableCallstackPop = taken done ir.popCallstack

theorem start_length (done : List (Fragment UInt8)) : start done done.length = (drafts hole done).flatten.length := by
  rw [← offset_length, length_drafts, start]

/-- Another instruction does not move those that are done, nor the one that comes next. -/
theorem start_snoc {i : Nat} (it : Fragment UInt8) (h : i ≤ done.length) : start (done ++ [it]) i = start done i := by
  rw [start, drafts_append, offset_append_left (by rwa [length_drafts])]
  rfl

theorem anchored_taken (anchor : Option Nat) (it : Fragment UInt8) :
    anchored anchor done.length (drafts hole done).flatten.length (taken done anchor) = taken (done ++ [it]) anchor := by
  rw [← start_length]
  cases anchor with
  | none => rfl
  | some p =>
    simp only [anchored, taken, Option.some.injEq, Option.filter_some, List.length_append, List.length_singleton,
      decide_eq_true_eq]
    rcases Nat.lt_trichotomy p done.length with h | rfl | h
    · rw [if_neg (by omega), if_pos h, if_pos (by omega), Option.map_some, Option.map_some, start_snoc it (by omega)]
    · rw [if_pos rfl, if_pos (by omega), Option.map_some, start_snoc it (Nat.le_refl _)]
    · rw [if_neg (by omega), if_neg (by omega), if_neg (by omega)]
      rfl

theorem reported_takenPush (anchor : Option (Nat × UInt64)) (it : Fragment UInt8) :
    (if anchor.map Prod.fst = some done.length then anchor.map fun p => ((drafts hole done).flatten.length, p.2)
      else takenPush done anchor) = takenPush (done ++ [it]) anchor := by
  rw [← start_length]
  cases anchor with
  | none => rfl
  | some p =>
    simp only [takenPush, Option.map_some, Option.some.injEq, Option.filter_some, List.length_append, List.length_singleton,
      decide_eq_true_eq]
    rcases Nat.lt_trichotomy p.1 done.length with h | h | h
    · rw [if_neg (by omega), if_pos h, if_pos (by omega), Option.map_some, Option.map_some, start_snoc it (by omega)]
    · rw [if_pos h, if_pos (by omega), Option.map_some, start_snoc it (by omega), h]
    · rw [if_neg (by omega), if_neg (by omega), if_neg (by omega)]
      rfl

theorem drafted_initial (ir : IR) : Drafted ir [] { assembler := { labels := ir.labels.map fun _ => {} } } where
  code := rfl
  labels := List.length_map ..
  position _ _ _ _ _ h := absurd h (Nat.not_lt_zero _)
  jumps l label q h := by
    obtain ⟨_, -, rfl⟩ := Option.map_eq_some_iff.1 (List.getElem?_map .. ▸ h)
    simp
  inside _ _ _ h := by simp at h
  landing := by cases ir.jumpLanding <;> simp [taken]
  continuing := by cases ir.jumpToNext <;> simp [taken]
  conditional := by cases ir.jumpToOther <;> simp [taken]
  push := by cases ir.pushCallstack <;> simp [takenPush]
  pop := by cases ir.popCallstack <;> simp [taken]

/-- What an assembler is after it has written what an instruction becomes. -/
structure Appended (a : Assembler) (it : Fragment UInt8) (a' : Assembler) : Prop where
  code : a'.code = a.code ++ it.draft hole
  labels : a'.labels.length = a.labels.length
  label : ∀ (l : Nat) label', a'.labels[l]? = some label' → ∃ label, a.labels[l]? = some label ∧
    label'.positionInCode = label.positionInCode ∧
    ∀ q, q ∈ label'.jumpsToMe ↔ q ∈ label.jumpsToMe ∨ ∃ opcode, it = .jump opcode l ∧ q = a.code.length + opcode.length
  inside : ∀ opcode l, it = .jump opcode l → l < a.labels.length

theorem append_spec (h : append a it = some a') : Appended a it a' := by
  cases it with
  | plain code =>
    obtain rfl := Option.some.inj h
    exact ⟨rfl, rfl, fun l label' hl => ⟨label', hl, rfl, fun q => by simp⟩, fun _ _ h => by cases h⟩
  | jump opcode index =>
    rw [append, writeDisplacement] at h
    split at h
    case isFalse => cases h
    case isTrue hlt =>
      obtain rfl := Option.some.inj h
      refine ⟨by simp [write, Fragment.draft, hole], by simp [write], ?_, ?_⟩
      · intro l label' hl
        simp only [write, List.getElem?_modify] at hl
        obtain ⟨label, hlabel, heq⟩ := Option.map_eq_some_iff.1 hl
        by_cases hindex : index = l
        · subst hindex
          rw [if_pos rfl] at heq
          subst heq
          exact ⟨label, hlabel, rfl, fun q => by simp⟩
        · rw [if_neg hindex] at heq
          subst heq
          exact ⟨label, hlabel, rfl, fun q => by simp [hindex]⟩
      · rintro _ _ ⟨⟩
        exact hlt

theorem getElem?_snoc {it' : Fragment UInt8} {i : Nat} :
    (done ++ [it])[i]? = some it' ↔ done[i]? = some it' ∨ i = done.length ∧ it = it' := by
  rcases Nat.lt_trichotomy i done.length with h | rfl | h
  · rw [List.getElem?_append_left h]
    exact ⟨.inl, fun h' => h'.resolve_right fun h' => by omega⟩
  · simp
  · rw [List.getElem?_eq_none (by simp; omega), List.getElem?_eq_none (by omega)]
    constructor
    · intro h'
      cases h'
    · rintro (h' | ⟨h', -⟩)
      · cases h'
      · omega

/-- What is there before an instruction is there behind it as well, with what is added for it. -/
theorem Drafted.step (hd : Drafted ir done g) (h : step hasMultibyteNop encode ir done.length ins g = some g') :
    ∃ it, fragment hasMultibyteNop encode ins = some it ∧ Drafted ir (done ++ [it]) g' := by
  simp only [CodeGenerator.step, emit_eq, Option.bind_eq_bind, Option.bind_eq_some_iff, Option.some.injEq] at h
  obtain ⟨a', ⟨it, hfragment, happend⟩, rfl⟩ := h
  obtain ⟨hcode, hlabels, hlabel, hinside⟩ := append_spec happend
  simp only [report, putLabels] at hcode hlabels hlabel hinside
  rw [hd.code] at hcode hlabel
  have hlength : (done ++ [it]).length = done.length + 1 := List.length_append ..
  have hbefore : ∀ (l : Nat) label', a'.labels[l]? = some label' → ∃ label, g.assembler.labels[l]? = some label ∧
      label'.positionInCode = (if ir.labels[l]? = some done.length then start done done.length else label.positionInCode) ∧
      ∀ q, q ∈ label'.jumpsToMe ↔
        q ∈ label.jumpsToMe ∨ ∃ opcode, it = .jump opcode l ∧ q = start done done.length + opcode.length := by
    intro l label' hl
    obtain ⟨label1, hl1, hposition, hjumps⟩ := hlabel l label' hl
    rw [List.getElem?_mapIdx] at hl1
    obtain ⟨label, hl0, rfl⟩ := Option.map_eq_some_iff.1 hl1
    rw [← start_length] at hjumps hposition
    refine ⟨label, hl0, ?_, ?_⟩
    · rw [hposition]
      simp only [decide_eq_true_eq]
      split <;> rfl
    · intro q
      rw [hjumps]
      simp only [decide_eq_true_eq]
      split <;> rfl
  refine ⟨it, hfragment, ?_, ?_, ?_, ?_, ?_, ?_, ?_, ?_, ?_, ?_⟩
  · rw [hcode, drafts_append, List.flatten_append]
    simp [drafts]
  · rw [hlabels, List.length_mapIdx, hd.labels]
  · intro l label' target hl htarget hlt
    obtain ⟨label, hl0, hposition, -⟩ := hbefore l label' hl
    rw [hposition, htarget]
    by_cases heq : target = done.length
    · rw [if_pos (by rw [heq]), heq, start_snoc it (Nat.le_refl _)]
    · rw [if_neg (by simpa using heq), start_snoc it (by omega)]
      exact hd.position l label target hl0 htarget (by omega)
  · intro l label' q hl
    obtain ⟨label, hl0, -, hjumps⟩ := hbefore l label' hl
    rw [hjumps, hd.jumps l label q hl0]
    constructor
    · rintro (⟨i, opcode, hget, rfl⟩ | ⟨opcode, rfl, rfl⟩)
      · have hi := (List.getElem?_eq_some_iff.1 hget).1
        exact ⟨i, opcode, getElem?_snoc.2 (.inl hget), by rw [start_snoc it (by omega)]⟩
      · exact ⟨done.length, opcode, getElem?_snoc.2 (.inr ⟨rfl, rfl⟩), by rw [start_snoc _ (Nat.le_refl _)]⟩
    · rintro ⟨i, opcode, hget, rfl⟩
      rcases getElem?_snoc.1 hget with hget | ⟨rfl, rfl⟩
      · have hi := (List.getElem?_eq_some_iff.1 hget).1
        exact .inl ⟨i, opcode, hget, by rw [start_snoc it (by omega)]⟩
      · exact .inr ⟨opcode, rfl, by rw [start_snoc _ (Nat.le_refl _)]⟩
  · intro i opcode l hget
    rcases getElem?_snoc.1 hget with hget | ⟨-, heq⟩
    · exact hd.inside i opcode l hget
    · have hlt := hinside opcode l heq
      rwa [List.length_mapIdx, hd.labels] at hlt
  · simp only [report, putLabels, hd.code, hd.landing]
    exact anchored_taken _ it
  · simp only [report, putLabels, hd.code, hd.continuing]
    exact anchored_taken _ it
  · simp only [report, putLabels, hd.code, hd.conditional]
    exact anchored_taken _ it
  · simp only [report, putLabels, hd.code, hd.push]
    exact reported_takenPush _ it
  · simp only [report, putLabels, hd.code, hd.pop]
    exact anchored_taken _ it

theorem Drafted.run {instructions : List Instruction} (hd : Drafted ir done g)
    (h : generateFrom hasMultibyteNop encode ir done.length g instructions = some g') :
    ∃ fragments, instructions.map (fragment hasMultibyteNop encode) = fragments.map some ∧ Drafted ir (done ++ fragments) g' := by
  induction instructions generalizing done g with
  | nil =>
    obtain rfl := Option.some.inj h
    exact ⟨[], rfl, by rwa [List.append_nil]⟩
  | cons ins instructions ih =>
    simp only [generateFrom, Option.bind_eq_bind, Option.bind_eq_some_iff] at h
    obtain ⟨g1, hstep, hrest⟩ := h
    obtain ⟨it, hfragment, hd1⟩ := hd.step hstep
    obtain ⟨fragments, hfragments, hd'⟩ := ih hd1 (by rwa [List.length_append])
    exact ⟨it :: fragments, by rw [List.map_cons, List.map_cons, hfragment, hfragments], by rwa [List.append_cons]⟩

/-! ## The code that comes out -/

/-- The code of a block, and the offsets that are reported for it. -/
structure Generated (ir : IR) (fragments : List (Fragment UInt8)) (positions : Nat → Nat) (bb : NativeBasicBlock) : Prop where
  inside : ∀ (i : Nat) opcode l, fragments[i]? = some (.jump opcode l) → l < ir.labels.length
  nativecode : bb.nativecode = (links hole (fun l => displacement (positions l)) fragments).flatten
  position : ∀ l target, ir.labels[l]? = some target → target < fragments.length → positions l = start fragments target
  landing : bb.offsetOfJumpLandingPad = taken fragments ir.jumpLanding
  continuing : bb.offsetOfReplaceableJumpToContinuingBlock = taken fragments ir.jumpToNext
  conditional : bb.offsetOfReplaceableJumpToConditionalBlock = taken fragments ir.jumpToOther
  push : bb.offsetOfReplaceableCallstackPush = takenPush fragments ir.pushCallstack
  pop : bb.offsetOfReplaceableCallstackPop = taken fragments ir.popCallstack

theorem tryGenerate_spec {bb : NativeBasicBlock} (h : tryGenerate hasMultibyteNop encode ir = some bb) :
    ∃ fragments positions, ir.instructions.map (fragment hasMultibyteNop encode) = fragments.map some ∧
      Generated ir fragments positions bb := by
  simp only [tryGenerate, Option.bind_eq_bind, Option.bind_eq_some_iff, Option.some.injEq] at h
  obtain ⟨g, hg, rfl⟩ := h
  obtain ⟨fragments, hfragments, hd⟩ := (drafted_initial ir).run hg
  rw [List.nil_append] at hd
  let positions : Nat → Nat := fun l => (g.assembler.labels[l]?.map Label.positionInCode).getD 0
  have hposition : ∀ (l : Nat) label, g.assembler.labels[l]? = some label → positions l = label.positionInCode := by
    intro l label hl
    simp only [positions, hl, Option.map_some, Option.getD_some]
  have hlabel : ∀ l, l < ir.labels.length → ∃ label, g.assembler.labels[l]? = some label := by
    intro l hl
    exact ⟨_, List.getElem?_eq_getElem (hd.labels.symm ▸ hl)⟩
  have hbounds : ∀ label ∈ g.assembler.labels, ∀ q ∈ label.jumpsToMe, q + 4 ≤ g.assembler.code.length := by
    intro label hmem q hq
    obtain ⟨l, hl⟩ := List.mem_iff_getElem?.1 hmem
    obtain ⟨i, opcode, hget, rfl⟩ := (hd.jumps l label q hl).1 hq
    have hfits := offset_add_le (getElem?_drafts hole hget)
    rw [Fragment.draft, List.length_append, length_hole, ← hd.code] at hfits
    rw [start]
    omega
  refine ⟨fragments, positions, hfragments, hd.inside, ?_, ?_, hd.landing, hd.continuing, hd.conditional, hd.push, hd.pop⟩
  · rw [patchJumps_eq hbounds, hd.code]
    have hlen : ∀ l q, (displacement (positions l) q).length = hole.length := fun _ _ => rfl
    refine overwriteAll_drafts hlen fun p => ?_
    rw [mem_patches]
    constructor
    · rintro ⟨l, label, q, hl, hq, rfl⟩
      obtain ⟨i, opcode, hget, rfl⟩ := (hd.jumps l label q hl).1 hq
      exact ⟨i, opcode, l, hget, by rw [hposition l label hl]; rfl⟩
    · rintro ⟨i, opcode, l, hget, rfl⟩
      obtain ⟨label, hl⟩ := hlabel l (hd.inside i opcode l hget)
      exact ⟨l, label, _, hl, (hd.jumps l label _ hl).2 ⟨i, opcode, hget, rfl⟩, by rw [hposition l label hl]; rfl⟩
  · intro l target htarget hlt
    obtain ⟨label, hl⟩ := hlabel l (List.getElem?_eq_some_iff.1 htarget).1
    rw [hposition l label hl, hd.position l label target hl htarget hlt]

end CodeGenerator

end X64Emulator
