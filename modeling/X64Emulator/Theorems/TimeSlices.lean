import Mathlib.Data.List.ReduceOption
import X64Emulator.Theorems.CallStack

/-!
# Time slices and compiled code

The loop of the virtual machine looks at a thread's instruction limit before each block it enters. Native code that jumps to
native code never does, so the condition on a run is one on how its blocks are linked: the chains that begin where native code
begins are no longer than what is left of the slice, or little longer.
-/

namespace X64Emulator

open Outcome

/-- The instructions between two values of a tick counter that `TICK_LIMIT_MASK` tells apart. -/
def TICK_GRANULARITY : Nat := 2 ^ 20

/-- A basic block has just been entered. -/
def VmMode.IsEntry : VmMode → Prop
  | .interpreting _ | .native _ _ _ => True
  | .idle | .loop _ | .executed _ => False

namespace Vm

variable {vm vm' : Vm}

/-- The compiled blocks that the end of the native code of a block is linked with, each with the call stack that it finds: those
that its jumps were patched to, those in its table, and where it returns the one on the call stack, unless that is null. -/
def linksOf (code : NativeCode) (b : JitBasicBlock) (cs : Callstack) : List (Nat × Callstack) :=
  let pushed := (cs.pushCallstack (pushAt b (code.native.offsetOfReplaceableCallstackPush.map (·.1)))).toOption.toList
  let found := b.variableDestinationTable.addresses.filterMap (lookup b.variableDestinationTable)
  match code.block.branch with
  | .fixedDestinationJump => [jumpAt b code.native.offsetOfReplaceableJumpToConditionalBlock,
      jumpAt b code.native.offsetOfReplaceableJumpToContinuingBlock].reduceOption ×ˢ [cs]
  | .directCall => (jumpAt b code.native.offsetOfReplaceableJumpToConditionalBlock).toList ×ˢ pushed
  | .indirectCall => found ×ˢ pushed
  | .indirectJump => found ×ˢ [cs]
  | .ret => match cs.popCallstack with
    | .ok (some target, cs) => [(target, cs)]
    | _ => []
  | .other => []

/-- The blocks that a compiled block is linked with. -/
def links (vm : Vm) (block : Nat) (cs : Callstack) : List (Nat × Callstack) :=
  (vm.cache.blocks.get? block).toList.flatMap fun b => linksOf (vm.nativeCode block) b cs

/-- A chain of linked blocks has so many instructions, without those of its last block. -/
inductive Chain (vm : Vm) : Nat → Callstack → Nat → Prop where
  | last (block : Nat) (cs : Callstack) : Chain vm block cs 0
  | link {block next : Nat} {cs cs' : Callstack} {n : Nat} (hlink : (next, cs') ∈ vm.links block cs) (h : Chain vm next cs' n) :
    Chain vm block cs ((vm.nativeCode block).block.nbInstructions + n)

/-- The condition on a step of a run: the chains of linked blocks from the one with which native code begins are not longer than
what is left of the slice and the granularity. -/
def ChainsEnd (vm : Vm) : VmAction → Prop
  | .runNative _ _ => ∀ block left, vm.mode = .native block 0 left → ∀ n, vm.Chain block vm.callstack n →
      n ≤ left + TICK_GRANULARITY
  | _ => True

/-- What the entry of a block knows of the time: native code has used up what was left of the slice, and the chains that go on
from it end soon. -/
def InTime (vm : Vm) (time : ThreadTime) : VmMode → Prop
  | .interpreting _ => time.nbInstructions ≤ time.instructionLimit
  | .native block sinceCheck leftAtCheck => leftAtCheck ≤ time.instructionLimit ∧
      time.nbInstructions ≤ time.instructionLimit - leftAtCheck + sinceCheck ∧
      (sinceCheck = 0 ∨ ∀ n, vm.Chain block vm.callstack n → sinceCheck + n ≤ leftAtCheck + TICK_GRANULARITY)
  | .idle | .loop _ | .executed _ => True

theorem InTime.within {time : ThreadTime} {mode : VmMode} (h : vm.InTime time mode) (hentry : mode.IsEntry) :
    time.nbInstructions ≤ time.instructionLimit + TICK_GRANULARITY := by
  cases mode with
  | interpreting segment => exact Nat.le_trans h (Nat.le_add_right _ _)
  | native block sinceCheck leftAtCheck =>
    obtain ⟨hleft, hused, hstart | hchains⟩ := h
    · omega
    · have hsince := hchains 0 (.last _ _)
      omega
  | idle => exact hentry.elim
  | loop next => exact hentry.elim
  | executed segment => exact hentry.elim

theorem lookup_mem {table : BlockLookupTable} {address target : Nat} (h : lookup table address = some target) :
    target ∈ table.addresses.filterMap (lookup table) := by
  obtain ⟨p, hp, -⟩ := Option.bind_eq_some_iff.1 h
  obtain rfl : p.1 = address := by simpa using List.find?_some hp
  exact List.mem_filterMap.2 ⟨p.1, (List.of_mem_zip (List.mem_of_find?_eq_some hp)).1, h⟩

theorem pushReturn_pushes {code : NativeCode} {b : JitBasicBlock} :
    Yields (fun vm' => vm'.thread.time = vm.thread.time ∧ vm'.cache = vm.cache ∧ vm'.nativeCode = vm.nativeCode ∧
      vm.callstack.pushCallstack (pushAt b (code.native.offsetOfReplaceableCallstackPush.map (·.1))) = .ok vm'.callstack)
      (vm.pushReturn code b) := by
  unfold pushReturn
  refine Post.bind (Post.self _) fun cs hcs => Post.ok ⟨rfl, rfl, rfl, hcs⟩

/-- The end of native code leads only to a block that it is linked with, and changes neither the time nor what was compiled. -/
theorem nativeBranch_links {code : NativeCode} {b : JitBasicBlock} {isTaken : Bool} {rip : Nat} :
    Yields (fun r => r.2.thread.time = vm.thread.time ∧ r.2.cache = vm.cache ∧ r.2.nativeCode = vm.nativeCode ∧
      ∀ target, r.1 = some target → (target, r.2.callstack) ∈ linksOf code b vm.callstack) (vm.nativeBranch code b isTaken rip) := by
  have hpushed : ∀ {cs : Callstack} {o : Option Nat}, vm.callstack.pushCallstack o = .ok cs →
      cs ∈ (vm.callstack.pushCallstack o).toOption.toList := by
    intro cs o h
    rw [h]
    exact List.mem_singleton_self cs
  unfold nativeBranch linksOf
  cases code.block.branch with
  | fixedDestinationJump =>
    refine Post.ok ⟨rfl, rfl, rfl, fun target htarget => List.pair_mem_product.2 ⟨List.reduceOption_mem_iff.2 ?_, List.mem_singleton_self _⟩⟩
    dsimp only at htarget
    split at htarget
    · simp [htarget]
    · simp [htarget]
  | directCall =>
    refine Post.bind pushReturn_pushes fun vm' hvm' => Post.ok ⟨hvm'.1, hvm'.2.1, hvm'.2.2.1, fun target htarget => ?_⟩
    exact List.pair_mem_product.2 ⟨Option.mem_toList.2 htarget, hpushed hvm'.2.2.2⟩
  | indirectCall =>
    refine Post.bind pushReturn_pushes fun vm' hvm' => Post.ok ⟨hvm'.1, hvm'.2.1, hvm'.2.2.1, fun target htarget => ?_⟩
    exact List.pair_mem_product.2 ⟨lookup_mem htarget, hpushed hvm'.2.2.2⟩
  | indirectJump =>
    exact Post.ok ⟨rfl, rfl, rfl, fun target htarget => List.pair_mem_product.2 ⟨lookup_mem htarget, List.mem_singleton_self _⟩⟩
  | ret =>
    refine Post.bind (Post.self _) fun ⟨o, cs⟩ hr => Post.ok ⟨rfl, rfl, rfl, fun target htarget => ?_⟩
    obtain rfl : o = some target := htarget
    rw [hr]
    exact List.mem_singleton_self _
  | other => exact Post.ok ⟨rfl, rfl, rfl, fun target htarget => by cases htarget⟩

/-- Running native code changes no link. -/
theorem Chain.congr {block n : Nat} {cs : Callstack} (h : vm'.Chain block cs n) (hcache : vm'.cache = vm.cache)
    (hcode : vm'.nativeCode = vm.nativeCode) : vm.Chain block cs n := by
  induction h with
  | last block cs => exact .last block cs
  | link hlink _ ih =>
    unfold links at hlink
    rw [hcache, hcode] at hlink
    rw [hcode]
    exact .link hlink ih

theorem runNative_inTime {block sinceCheck leftAtCheck rip : Nat} {isTaken : Bool}
    (h : vm.InTime vm.thread.time (.native block sinceCheck leftAtCheck))
    (hchains : ∀ n, vm.Chain block vm.callstack n → sinceCheck + n ≤ leftAtCheck + TICK_GRANULARITY) :
    Yields (fun vm' => vm'.InTime vm'.thread.time vm'.mode)
      (vm.runNative block sinceCheck leftAtCheck isTaken rip) := by
  unfold runNative
  split
  · exact Post.error id
  · next b hb =>
    refine Post.bind nativeBranch_links fun r hr => Post.ok ?_
    obtain ⟨target, vm₁⟩ := r
    obtain ⟨htime, hcache, hcode, hlinked⟩ := hr
    cases target with
    | none => trivial
    | some target =>
      obtain ⟨hleft, hused, -⟩ := h
      have hticks : u64 (vm.thread.time.nbInstructions + (vm.nativeCode block).block.nbInstructions) ≤
          vm.thread.time.nbInstructions + (vm.nativeCode block).block.nbInstructions := Nat.mod_le _ _
      have hlink : (target, vm₁.callstack) ∈ vm.links block vm.callstack := by
        unfold links
        rw [hb]
        exact List.mem_flatMap.2 ⟨b, List.mem_singleton_self b, hlinked target rfl⟩
      change InTime _ vm₁.thread.time (.native target _ leftAtCheck)
      rw [htime]
      refine ⟨hleft, Nat.le_trans hticks ?_, .inr fun n hn => ?_⟩
      · change _ ≤ vm.thread.time.instructionLimit - leftAtCheck + (sinceCheck + (vm.nativeCode block).block.nbInstructions)
        omega
      · have hchain := hchains _ (.link hlink (hn.congr hcache hcode))
        omega

theorem enter_inTime {next turns : Nat} {compiler : SegmentCompiler} :
    Yields (fun vm' => vm'.InTime vm'.thread.time vm'.mode) (vm.enter next compiler turns) := by
  refine Post.ite (fun _ => Post.skip fun _ => Post.ok trivial) fun hstop => ?_
  have hlt : vm.thread.time.nbInstructions < vm.thread.time.instructionLimit := by
    simpa [ThreadTime.isStopAsked] using hstop
  refine Post.skip fun s => Post.skip fun _ => Post.skip fun cache => ?_
  refine Post.skip fun s' => ?_
  split
  · refine Post.ok ⟨Nat.sub_le _ _, ?_, .inl rfl⟩
    change vm.thread.time.nbInstructions ≤ vm.thread.time.instructionLimit -
      (vm.thread.time.instructionLimit - vm.thread.time.nbInstructions) + 0
    omega
  · exact Post.ok (Nat.le_of_lt hlt)

/-- A step that ends where no block has been entered. -/
theorem inTime_of_mode {time : ThreadTime} {mode : VmMode} (h : ¬ mode.IsEntry) : vm.InTime time mode := by
  cases mode with
  | interpreting segment => exact absurd trivial h
  | native block sinceCheck leftAtCheck => exact absurd trivial h
  | idle => trivial
  | loop next => trivial
  | executed segment => trivial

theorem exec_inTime {action : VmAction} (h : vm.InTime vm.thread.time vm.mode) (henabled : vm.enabled action = true)
    (hend : vm.ChainsEnd action) :
    Yields (fun vm' => vm'.InTime vm'.thread.time vm'.mode) (vm.exec action) := by
  have hidle : vm.mode = .idle → ¬ vm.mode.IsEntry := by
    intro hmode
    rw [hmode]
    exact id
  cases action with
  | switchThread threadId => exact Post.ok (inTime_of_mode (hidle (of_decide_eq_true henabled)))
  | setSlice current sliceDuration =>
    simp only [exec]
    split
    · exact Post.error id
    · exact Post.ok (inTime_of_mode (hidle (of_decide_eq_true henabled)))
  | removeSegments segments =>
    have hmode := hidle (of_decide_eq_true (Bool.and_eq_true_iff.1 henabled).1)
    exact Post.skip fun _ => Post.ok (inTime_of_mode hmode)
  | execute block => exact Post.skip fun _ => Post.ok trivial
  | enter compiler turns =>
    simp only [exec]
    split
    · exact enter_inTime
    · exact Post.ok h
  | interpret isStackChanged entersSyscall rip =>
    simp only [exec]
    split
    · exact Post.skip fun _ => Post.skip fun _ => Post.ok trivial
    · exact Post.ok h
  | runNative isTaken rip =>
    simp only [exec]
    split
    · next block sinceCheck leftAtCheck hmode =>
      rw [hmode] at h
      refine runNative_inTime h ?_
      rcases h.2.2 with rfl | hchains
      · intro n hn
        rw [Nat.zero_add]
        exact hend block leftAtCheck hmode n hn
      · exact hchains
    · exact Post.ok h
  | finish block returnBlock =>
    simp only [exec]
    split
    · exact Post.skip fun _ => Post.skip fun _ => Post.skip fun _ => Post.ok trivial
    · exact Post.ok h

/-- Where the chains of linked blocks that native code begins end in time, no block is entered when the thread's ticks are beyond
its limit by more than the granularity. -/
theorem slice_respected (h : machine.ReachableUnder ChainsEnd vm) (hentry : vm.mode.IsEntry) :
    vm.thread.time.nbInstructions ≤ vm.thread.time.instructionLimit + TICK_GRANULARITY := by
  have hin : vm.InTime vm.thread.time vm.mode := by
    refine h.invariant (fun vm => vm.InTime vm.thread.time vm.mode) (fun vm hnew => ?_) fun vm action vm' _ hin hend hs => ?_
    · rw [hnew.idle]
      trivial
    · obtain ⟨henabled, hexec⟩ := step_some hs
      exact (exec_inTime hin henabled hend).of_ok hexec
  exact hin.within hentry

/-- The chains from a block are not longer than a number of instructions, and have fewer than so many blocks. -/
def chainsWithin (vm : Vm) : Nat → Nat → Callstack → Nat → Bool
  | 0, _, _, _ => false
  | turns + 1, block, cs, most => (vm.links block cs).all fun next => decide ((vm.nativeCode block).block.nbInstructions ≤ most) &&
      vm.chainsWithin turns next.1 next.2 (most - (vm.nativeCode block).block.nbInstructions)

theorem Chain.le_of_chainsWithin {turns block most n : Nat} {cs : Callstack} (hchain : vm.Chain block cs n)
    (h : vm.chainsWithin turns block cs most = true) : n ≤ most := by
  induction hchain generalizing turns most with
  | last block cs => exact Nat.zero_le _
  | link hlink _ ih =>
    cases turns with
    | zero => cases h
    | succ turns =>
      have hnext := List.all_eq_true.1 h _ hlink
      simp only [Bool.and_eq_true, decide_eq_true_eq] at hnext
      have hle := ih hnext.2
      omega

/-- A check of the condition on a step that finds chains of a few blocks only. -/
def chainsEndIn (turns : Nat) (vm : Vm) : VmAction → Bool
  | .runNative _ _ => match vm.mode with
    | .native block _ left => vm.chainsWithin turns block vm.callstack (left + TICK_GRANULARITY)
    | _ => true
  | _ => true

theorem chainsEnd_of_chainsEndIn {turns : Nat} {action : VmAction} (h : vm.chainsEndIn turns action = true) :
    vm.ChainsEnd action := by
  cases action with
  | runNative isTaken rip =>
    intro block left hmode n hchain
    simp only [chainsEndIn, hmode] at h
    exact hchain.le_of_chainsWithin h
  | _ => trivial

/-- The fourth block ends with a system call, which the compiler does not take. -/
def withoutFourth : VmAction → VmAction
  | .enter _ turns => .enter (fun p => if p = 3 then none else compilerOf p) turns
  | action => action

/-- A loop that calls and makes a system call goes round until its other blocks are compiled. Then the call and the return run in
compiled code. -/
def returnedRun : List VmAction :=
  List.map withoutFourth (startAt 0x1000 ++ (List.replicate 8 (interpreted 0x1000 0x2000 ++ interpreted 0x2000 0x1005 ++
    interpreted 0x1005 0x3000 ++ interpreted 0x3000 0x1000)).flatten ++
    [.enter compilerOf 10, .runNative true 0x2000, .runNative true 0x1005])

/-- The compiled code of the call goes on in that of the block it calls, and this in that of the block after the call. -/
theorem slice_respected_returned : ∃ vm, machine.ReachableUnder ChainsEnd vm ∧ vm.mode = .native 1 2 999968 ∧
    vm.thread.time.nbInstructions ≤ vm.thread.time.instructionLimit + TICK_GRANULARITY := by
  have hrun : ((machine.checked fun vm action => vm.chainsEndIn 4 action = true).run (newVm 0x1000) returnedRun).map (·.mode) =
      some (.native 1 2 999968) := by decide +kernel
  obtain ⟨vm, hvm, hmode⟩ := Option.map_eq_some_iff.1 hrun
  have hreach : machine.ReachableUnder (fun vm action => vm.chainsEndIn 4 action = true) vm :=
    (Machine.ReachableUnder.init (newVm_isNew 0x1000)).run_checked _ hvm
  have hreach : machine.ReachableUnder ChainsEnd vm := hreach.mono fun _ _ => chainsEnd_of_chainsEndIn
  exact ⟨vm, hreach, hmode, slice_respected hreach (by rw [hmode]; trivial)⟩

section Spinning

/-- A block that jumps to itself, with a place in its code for the jump. -/
def spinBlock : GuestBlock := ⟨0x3000, 0x3002, 1, .fixedDestinationJump⟩

def spinCode : NativeBasicBlock := ⟨none, some 16, none⟩

def spinCompiler (_ : Nat) : Option NativeBasicBlock := some spinCode

/-- The block is interpreted until it is compiled, and its code is patched to jump to itself. -/
def spinRun : List VmAction :=
  [.setSlice 0 1000000, .execute spinBlock] ++
    (List.replicate 8 [.enter spinCompiler 10, .interpret false false 0x3000, .finish spinBlock (blockAt 0x3002)]).flatten ++
    [.enter spinCompiler 10]

/-- Native code is at the entry of a block whose own jump leads to it. -/
structure Spinning (vm : Vm) (sinceCheck leftAtCheck : Nat) : Prop where
  mode : vm.mode = .native 0 sinceCheck leftAtCheck
  code : vm.nativeCode 0 = ⟨spinBlock, spinCode⟩
  block : (vm.cache.blocks.get? 0).map (jumpAt · (some 16)) = some (some 0)

theorem Spinning.turn {sinceCheck leftAtCheck : Nat} (h : vm.Spinning sinceCheck leftAtCheck) :
    ∃ vm', vm.step (.runNative true 0x3000) = some vm' ∧ vm'.Spinning (sinceCheck + 1) leftAtCheck ∧
      vm'.thread.time = vm.thread.time.tick 1 := by
  obtain ⟨b, hb, hjump⟩ := Option.map_eq_some_iff.1 h.block
  refine ⟨{ (vm.setTime (vm.thread.time.tick 1)).setRip 0x3000 with mode := .native 0 (sinceCheck + 1) leftAtCheck }, ?_,
    ⟨rfl, h.code, h.block⟩, rfl⟩
  simp [step, enabled, exec, h.mode, runNative, hb, h.code, nativeBranch, spinBlock, spinCode, hjump, Except.toOption,
    bind, Except.bind, setTime, setRip]

/-- It goes round as often as one likes. -/
theorem Spinning.turns {sinceCheck leftAtCheck : Nat} (h : vm.Spinning sinceCheck leftAtCheck) (n : Nat)
    (hn : vm.thread.time.nbInstructions + n < 2 ^ 64) :
    ∃ vm', machine.run vm (List.replicate n (.runNative true 0x3000)) = some vm' ∧ vm'.Spinning (sinceCheck + n) leftAtCheck ∧
      vm'.thread.time = { vm.thread.time with nbInstructions := vm.thread.time.nbInstructions + n } := by
  induction n generalizing vm sinceCheck with
  | zero => exact ⟨vm, rfl, h, rfl⟩
  | succ n ih =>
    obtain ⟨vm₁, hstep, h₁, htime₁⟩ := h.turn
    have htick : vm₁.thread.time.nbInstructions = vm.thread.time.nbInstructions + 1 := by
      rw [htime₁]
      exact u64_of_lt (by omega)
    obtain ⟨vm₂, hrun, h₂, htime₂⟩ := ih h₁ (by omega)
    refine ⟨vm₂, ?_, ?_, ?_⟩
    · rw [List.replicate_succ, Machine.run, List.foldlM_cons]
      change (vm.step (.runNative true 0x3000)).bind _ = _
      rw [hstep]
      exact hrun
    · rw [Nat.add_comm n 1, ← Nat.add_assoc]
      exact h₂
    · rw [htime₂, htick, Nat.add_assoc, Nat.add_comm 1 n, htime₁]
      rfl

/-- The block is entered twice a slice and more after the limit. -/
theorem slice_respected_fails : ¬ ∀ vm, machine.Reachable vm → vm.mode.IsEntry →
    vm.thread.time.nbInstructions ≤ vm.thread.time.instructionLimit + TICK_GRANULARITY := by
  intro hall
  have hrun : (machine.run (newVm 0x3000) spinRun).map (fun vm => (vm.mode, vm.nativeCode 0,
      (vm.cache.blocks.get? 0).map (jumpAt · (some 16)), vm.thread.time)) =
      some (.native 0 0 999992, ⟨spinBlock, spinCode⟩, some (some 0), ⟨0, 8, 1000000⟩) := by decide
  obtain ⟨vm, hvm, heq⟩ := Option.map_eq_some_iff.1 hrun
  simp only [Prod.mk.injEq] at heq
  obtain ⟨hmode, hcode, hblock, htime⟩ := heq
  have hticks : vm.thread.time.nbInstructions = 8 := by rw [htime]
  obtain ⟨vm', hturns, hspinning, htime'⟩ := Spinning.turns ⟨hmode, hcode, hblock⟩ (2 ^ 22) (by rw [hticks]; decide)
  have hreach := ((Machine.Reachable.init (newVm_isNew 0x3000)).run _ hvm).run _ hturns
  have hle := hall vm' hreach (by rw [hspinning.mode]; trivial)
  rw [htime', htime] at hle
  exact absurd hle (by decide)

end Spinning

end Vm

end X64Emulator
