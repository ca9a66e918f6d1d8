import X64Emulator.Lemmas.CallStack

/-!
# The call stack of the JIT

The JIT never looks at the size of its call stack before it pushes, pops or clears. Calls and returns that keep the size inside
the array, and returns to where the matching call left off, are what the condition on a run asks for.
-/

namespace X64Emulator

open Outcome

namespace Vm

variable {vm vm' : Vm}

/-- What a call or a return must find on the call stack: room for one more entry, or an entry. In compiled code the entry is null,
or the guest returns to where its call left off. In the interpreter there is also an entry after the last one. -/
def BalancedBranch (vm : Vm) (isCompiled : Bool) (rip : Nat) : BranchKind → Prop
  | .directCall | .indirectCall => vm.callstack.size < Callstack.CAPACITY
  | .ret => 0 < vm.callstack.size ∧
    if isCompiled then vm.callstack.entries (vm.callstack.size - 1) = none ∨ vm.thread.returnAddress (vm.callstack.size - 1) = rip
    else vm.callstack.size < Callstack.CAPACITY
  | _ => True

/-- The branch at the end of the block that is about to run. -/
def nextBranch (vm : Vm) : BranchKind :=
  match vm.mode with
  | .interpreting segment => (vm.guestBlock segment).branch
  | .native block _ _ => (vm.nativeCode block).block.branch
  | _ => .other

/-- The condition on a step of a run. -/
def Balanced (vm : Vm) : VmAction → Prop
  | .interpret _ _ rip => vm.BalancedBranch false rip vm.nextBranch
  | .runNative _ rip => vm.BalancedBranch true rip vm.nextBranch
  | _ => True

instance {isCompiled : Bool} {rip : Nat} : DecidablePred (vm.BalancedBranch isCompiled rip)
  | .directCall | .indirectCall => inferInstanceAs (Decidable (_ < _))
  | .ret =>
    match isCompiled with
    | true => inferInstanceAs (Decidable (_ ∧ (_ ∨ _)))
    | false => inferInstanceAs (Decidable (_ ∧ _))
  | .fixedDestinationJump | .indirectJump | .other => inferInstanceAs (Decidable True)

instance : DecidablePred vm.Balanced
  | .interpret _ _ _ | .runNative _ _ => inferInstanceAs (Decidable (BalancedBranch _ _ _ _))
  | .switchThread _ | .setSlice _ _ | .removeSegments _ | .execute _ | .enter _ _ | .finish _ _ =>
    inferInstanceAs (Decidable True)

/-- The time of a thread says nothing of its calls. -/
theorem Sound.setTime {time : ThreadTime} (h : vm.Sound) : (vm.setTime time).Sound :=
  ⟨⟨h.coded.returning, h.coded.code⟩, h.size_le, h.running, h.suspended, h.parked⟩

theorem Sound.setRip {rip : Nat} (h : vm.Sound) : (vm.setRip rip).Sound :=
  ⟨⟨h.coded.returning, h.coded.code⟩, h.size_le, h.running, h.suspended, h.parked⟩

/-- The live call stack and the return addresses of its thread change, and the loop goes on. -/
theorem Sound.withCall {callstack : Callstack} {returnAddress : Nat → Nat} (h : vm.Sound)
    (hcs : callstack.Faithful vm.Leads returnAddress) (mode : VmMode) (hmode : mode ≠ .idle) :
    { vm with callstack := callstack, thread := { vm.thread with returnAddress := returnAddress }, mode := mode : Vm }.Sound :=
  ⟨⟨h.coded.returning, h.coded.code⟩, hcs.size_le, fun _ => hcs, fun heq => absurd heq hmode, h.parked⟩

theorem Sound.setMode (h : vm.Sound) (hrunning : vm.mode ≠ .idle) (mode : VmMode) (hmode : mode ≠ .idle) :
    { vm with mode := mode }.Sound := h.withCall (h.running hrunning) mode hmode

theorem notifyStackChange_post {isChanged : Bool} (h : vm.Sound) (hrunning : vm.mode ≠ .idle) :
    Post IsOutOfBounds (fun vm' => vm'.Sound ∧ vm'.mode = vm.mode ∧ vm'.callstack.size = vm.callstack.size)
      (vm.notifyStackChange isChanged) := by
  refine Post.ite (fun _ => ?_) fun _ => Post.ok ⟨h, rfl, rfl⟩
  refine Post.bind (Callstack.nukeCallstack_post (h.running hrunning)) fun callstack hcs => Post.ok ⟨?_, rfl, hcs.2⟩
  exact h.withCall hcs.1 vm.mode hrunning

theorem notifyBranch_post {block : GuestBlock} {rip : Nat} (h : vm.Sound) (hrunning : vm.mode ≠ .idle)
    (hbalanced : vm.BalancedBranch false rip block.branch) :
    Post IsOutOfBounds (fun vm' => vm'.Sound ∧ vm'.mode = vm.mode) (vm.notifyBranch block) := by
  have hcall : vm.callstack.size < Callstack.CAPACITY → Post IsOutOfBounds (fun vm' => vm'.Sound ∧ vm'.mode = vm.mode) (do
      let callstack ← vm.callstack.notifyCall
      .ok (vm.withCall callstack block.end_)) := by
    intro hsize
    have hnotify : Post IsOutOfBounds (Callstack.Faithful vm.Leads
        (Callstack.called vm.thread.returnAddress vm.callstack.size block.end_)) vm.callstack.notifyCall :=
      Callstack.notifyCall_post (h.running hrunning) hsize
    refine Post.bind hnotify fun callstack hcs => Post.ok ⟨?_, rfl⟩
    exact h.withCall hcs vm.mode hrunning
  unfold notifyBranch
  cases hbranch : block.branch with
  | directCall =>
    rw [hbranch] at hbalanced
    exact hcall hbalanced
  | indirectCall =>
    rw [hbranch] at hbalanced
    exact hcall hbalanced
  | ret =>
    rw [hbranch] at hbalanced
    refine Post.bind (Callstack.notifyRet_post (h.running hrunning) hbalanced.1 hbalanced.2) fun callstack hcs => Post.ok ⟨?_, rfl⟩
    exact h.withCall hcs vm.mode hrunning
  | fixedDestinationJump => exact Post.ok ⟨h, rfl⟩
  | indirectJump => exact Post.ok ⟨h, rfl⟩
  | other => exact Post.ok ⟨h, rfl⟩

theorem interpret_post {segment rip : Nat} {isStackChanged entersSyscall : Bool} (h : vm.Sound) (hrunning : vm.mode ≠ .idle)
    (hbalanced : vm.BalancedBranch false rip (vm.guestBlock segment).branch) :
    Post IsOutOfBounds Sound (vm.interpret segment isStackChanged entersSyscall rip) := by
  refine Post.bind (notifyStackChange_post h hrunning) fun vm₁ h₁ => ?_
  have hbalanced₁ : vm₁.BalancedBranch false rip (vm.guestBlock segment).branch := by
    revert hbalanced
    unfold BalancedBranch
    rw [h₁.2.2]
    exact id
  refine Post.bind (notifyBranch_post h₁.1 (h₁.2.1 ▸ hrunning) hbalanced₁) fun vm₂ h₂ => Post.ok ?_
  refine h₂.1.setTime.setRip.setMode ?_ _ (by simp)
  exact fun heq => hrunning (h₁.2.1.symm.trans (h₂.2.symm.trans heq))

/-- What patched code pushes is the code of the block after the call. -/
theorem Coded.pushAt (h : vm.Coded) {block : Nat} {b : JitBasicBlock} (hb : vm.cache.blocks.get? block = some b)
    {offset : Option Nat} {target : Nat} (ht : Vm.pushAt b offset = some target) :
    vm.Leads target (vm.nativeCode block).block.end_ := by
  obtain ⟨patch, hpatch, htarget⟩ := Option.bind_eq_some_iff.1 ht
  obtain ⟨e, he, rfl⟩ := Option.map_eq_some_iff.1 hpatch
  obtain ⟨o, -, hfind⟩ := Option.bind_eq_some_iff.1 he
  have hmem := List.mem_of_find?_eq_some hfind
  obtain ⟨k, patch⟩ := e
  cases patch with
  | jumpTo t => cases htarget
  | pushCallstack t =>
    obtain rfl : t = target := Option.some.inj htarget
    obtain ⟨q, hq, hstart⟩ := h.returning.pushes block b k t hb hmem
    rw [h.code block b.currentBb ⟨b, hb, rfl⟩]
    exact ⟨q, hq, hstart⟩

theorem pushReturn_post {block : Nat} {b : JitBasicBlock} (h : vm.Sound) (hrunning : vm.mode ≠ .idle)
    (hb : vm.cache.blocks.get? block = some b) (hsize : vm.callstack.size < Callstack.CAPACITY) :
    Post IsOutOfBounds (fun vm' => vm'.Sound ∧ vm'.mode = vm.mode) (vm.pushReturn (vm.nativeCode block) b) := by
  have hentry : ∀ target, Vm.pushAt b ((vm.nativeCode block).native.offsetOfReplaceableCallstackPush.map (·.1)) = some target →
      vm.Leads target (vm.nativeCode block).block.end_ := fun target ht => h.coded.pushAt hb ht
  refine Post.bind (Callstack.pushCallstack_post (h.running hrunning) hsize hentry) fun callstack hcs => Post.ok ⟨?_, rfl⟩
  exact h.withCall hcs vm.mode hrunning

theorem nativeBranch_post {block : Nat} {b : JitBasicBlock} {isTaken : Bool} {rip : Nat} (h : vm.Sound) (hrunning : vm.mode ≠ .idle)
    (hb : vm.cache.blocks.get? block = some b) (hbalanced : vm.BalancedBranch true rip (vm.nativeCode block).block.branch) :
    Post IsOutOfBounds (fun r => r.2.Sound ∧ r.2.mode = vm.mode) (vm.nativeBranch (vm.nativeCode block) b isTaken rip) := by
  unfold nativeBranch
  cases hbranch : (vm.nativeCode block).block.branch with
  | directCall =>
    rw [hbranch] at hbalanced
    exact Post.bind (pushReturn_post h hrunning hb hbalanced) fun _ hvm => Post.ok hvm
  | indirectCall =>
    rw [hbranch] at hbalanced
    exact Post.bind (pushReturn_post h hrunning hb hbalanced) fun _ hvm => Post.ok hvm
  | ret =>
    rw [hbranch] at hbalanced
    refine Post.bind (Callstack.popCallstack_post (h.running hrunning) hbalanced.1) fun r hr => ?_
    exact Post.ok ⟨h.withCall hr.1 vm.mode hrunning, rfl⟩
  | fixedDestinationJump => exact Post.ok ⟨h, rfl⟩
  | indirectJump => exact Post.ok ⟨h, rfl⟩
  | other => exact Post.ok ⟨h, rfl⟩

theorem runNative_post {block sinceCheck leftAtCheck rip : Nat} {isTaken : Bool} (h : vm.Sound) (hrunning : vm.mode ≠ .idle)
    (hbalanced : vm.BalancedBranch true rip (vm.nativeCode block).block.branch) :
    Post IsOutOfBounds Sound (vm.runNative block sinceCheck leftAtCheck isTaken rip) := by
  unfold runNative
  split
  · exact Post.error fun he => by cases he
  · next b hb =>
    refine Post.bind (nativeBranch_post h.setTime.setRip hrunning hb hbalanced) fun r hr => Post.ok ?_
    refine hr.1.setMode (hr.2 ▸ hrunning) _ ?_
    split <;> simp

/-- Another thread gets its turn. -/
theorem Sound.switchThread (h : vm.Sound) (hidle : vm.mode = .idle) (threadId : Nat) :
    Post IsOutOfBounds Sound (vm.exec (.switchThread threadId)) := by
  have hparked : ∀ t, (if t = vm.threadId then vm.thread else vm.parked t).savedJitState.Faithful vm.Leads
      (if t = vm.threadId then vm.thread else vm.parked t).returnAddress := by
    intro t
    split
    · exact h.suspended hidle
    · exact h.parked t
  exact Post.ok ⟨⟨h.coded.returning, h.coded.code⟩, h.size_le, fun hne => absurd hidle hne, fun _ => hparked threadId, hparked⟩

theorem Sound.removeSegments (h : vm.Sound) (hidle : vm.mode = .idle) (segments : List Nat) :
    Post IsOutOfBounds Sound (vm.exec (.removeSegments segments)) := by
  refine Post.bind (mapError_post CodeCache.removeSegments_stable) fun cache hcache => Post.ok ?_
  have hgrown := h.coded.stable hcache
  exact ⟨hgrown.coded, h.size_le, fun hne => absurd hidle hne, fun _ => (h.suspended hidle).mono hgrown.leads,
    fun t => (h.parked t).mono hgrown.leads⟩

theorem Sound.execute (h : vm.Sound) (hidle : vm.mode = .idle) (block : GuestBlock) :
    Post IsOutOfBounds Sound (vm.exec (.execute block)) := by
  refine Post.bind (Callstack.setCallstack_post (h.suspended hidle)) fun callstack hcs => Post.ok ?_
  have hcoded : { vm with callstack := callstack : Vm }.Coded := ⟨h.coded.returning, h.coded.code⟩
  have hgrown := hcoded.fetchSegment block
  refine ⟨⟨hgrown.coded.returning, hgrown.coded.code⟩, hcs.size_le, fun _ => hcs.mono hgrown.leads, fun heq => ?_,
    fun t => (h.parked t).mono hgrown.leads⟩
  cases heq

theorem exec_post {action : VmAction} (h : vm.Sound) (henabled : vm.enabled action = true) (hbalanced : vm.Balanced action) :
    Post IsOutOfBounds Sound (vm.exec action) := by
  cases action with
  | switchThread threadId => exact h.switchThread (of_decide_eq_true henabled) threadId
  | setSlice current sliceDuration =>
    simp only [exec]
    split
    · exact Post.error fun he => by cases he
    · exact Post.ok h.setTime
  | removeSegments segments => exact h.removeSegments (of_decide_eq_true (Bool.and_eq_true_iff.1 henabled).1) segments
  | execute block => exact h.execute (of_decide_eq_true (Bool.and_eq_true_iff.1 henabled).1) block
  | enter compiler turns =>
    simp only [exec]
    split
    · next hmode => exact enter_post h (by simp [hmode])
    · exact Post.ok h
  | interpret isStackChanged entersSyscall rip =>
    simp only [exec]
    split
    · next segment hmode =>
      simp only [Balanced, nextBranch, hmode] at hbalanced
      exact interpret_post h (by simp [hmode]) hbalanced
    · exact Post.ok h
  | runNative isTaken rip =>
    simp only [exec]
    split
    · next block sinceCheck leftAtCheck hmode =>
      simp only [Balanced, nextBranch, hmode] at hbalanced
      exact runNative_post h (by simp [hmode]) hbalanced
    · exact Post.ok h
  | finish block returnBlock =>
    simp only [exec]
    split
    · next current hmode => exact finish_post h (by simp [hmode])
    · exact Post.ok h

theorem isNew_sound (h : vm.IsNew) : vm.Sound := by
  obtain ⟨jitChainingEnabled, hcache⟩ := h.cache
  have hempty : ∀ block p, ¬ vm.cache.CompiledFor block p := by
    rintro block p ⟨b, hb, -⟩
    rw [hcache] at hb
    simp [CodeCache.initial, Heap.get?_empty] at hb
  have hreturning : vm.cache.Returning vm.guestBlock fun _ _ => False := hcache ▸ CodeCache.initial_returning jitChainingEnabled
  refine ⟨⟨{ hreturning with before := fun _ _ => id }, fun block p hp => absurd hp (hempty block p)⟩, h.callstack.size_le,
    fun hne => absurd h.idle hne, fun _ => h.thread.faithful, fun t => (h.parked t).faithful⟩

theorem step_some {action : VmAction} (hs : vm.step action = some vm') :
    vm.enabled action = true ∧ vm.exec action = .ok vm' :=
  enabled_toOption_eq_some.1 hs

theorem reachableUnder_sound (h : machine.ReachableUnder Balanced vm) : vm.Sound := by
  refine h.invariant Sound (fun vm hnew => isNew_sound hnew) fun vm action vm' _ hsound hbalanced hs => ?_
  obtain ⟨henabled, hexec⟩ := step_some hs
  exact (exec_post hsound henabled hbalanced).of_ok hexec

/-- Where calls and returns are balanced, the call stack stays inside its array, no step accesses anything outside of it, and an
entry that a compiled return pops is the code of the block at the address that it returns to. -/
theorem callstack_faithful (h : machine.ReachableUnder Balanced vm) :
    vm.callstack.size ≤ Callstack.CAPACITY ∧
    (∀ action, vm.enabled action = true → vm.Balanced action → vm.exec action ≠ .error .outOfBounds) ∧
    ∀ block sinceCheck leftAtCheck isTaken rip target callstack, vm.mode = .native block sinceCheck leftAtCheck →
      (vm.nativeCode block).block.branch = .ret → vm.Balanced (.runNative isTaken rip) →
      vm.callstack.popCallstack = .ok (some target, callstack) → (vm.nativeCode target).block.start = rip := by
  have hsound := reachableUnder_sound h
  refine ⟨hsound.size_le, fun action henabled hbalanced hexec => ?_, fun block sinceCheck leftAtCheck isTaken rip target callstack
    hmode hbranch hbalanced hpop => ?_⟩
  · exact (exec_post hsound henabled hbalanced).of_error hexec rfl
  · simp only [Balanced, nextBranch, hmode, hbranch, BalancedBranch, if_true] at hbalanced
    obtain ⟨h0, hreturn⟩ := hbalanced
    have hfaithful := hsound.running (by simp [hmode])
    have hentry : some target = vm.callstack.entries (vm.callstack.size - 1) :=
      ((Callstack.popCallstack_post hfaithful h0).of_ok hpop).2
    obtain ⟨p, hp, hstart⟩ := hfaithful.entries _ (Nat.sub_lt h0 Nat.one_pos) target hentry.symm
    rw [hsound.coded.code target p hp, hstart]
    exact hreturn.resolve_left fun hnone => by
      rw [hnone] at hentry
      cases hentry

section Samples

/-- A function at 0x2000 that returns at once, and a loop that calls it. -/
def callBlock : GuestBlock := ⟨0x1000, 0x1005, 1, .directCall⟩

def returnBlock : GuestBlock := ⟨0x1005, 0x100a, 1, .fixedDestinationJump⟩

def calledBlock : GuestBlock := ⟨0x2000, 0x2001, 1, .ret⟩

def blockAt (address : Nat) : GuestBlock :=
  if address = 0x1000 then callBlock
  else if address = 0x1005 then returnBlock
  else if address = 0x2000 then calledBlock
  else ⟨address, address + 1, 1, .other⟩

/-- The code of the call has places for its jump and for what it pushes. -/
def compilerOf (p : Nat) : Option NativeBasicBlock :=
  if p = 0 then some ⟨none, some 64, some (32, 4096)⟩ else if p = 2 then some ⟨none, some 16, none⟩ else some ⟨none, none, none⟩

def newThread (rip : Nat) : ThreadContext := ⟨.zero, rip, .empty, fun _ => 0⟩

def newVm (rip : Nat) : Vm where
  cache := .initial true
  jitCallChainingEnabled := true
  guestBlock := blockAt
  nativeCode _ := ⟨callBlock, ⟨none, none, none⟩⟩
  callstack := .empty
  mode := .idle
  threadId := 0
  thread := newThread rip
  parked _ := newThread rip

theorem newVm_isNew (rip : Nat) : (newVm rip).IsNew := by
  have hnew : Callstack.empty.IsNew := ⟨Nat.zero_le _, fun _ => rfl⟩
  exact ⟨⟨true, rfl⟩, rfl, hnew, hnew, fun _ => hnew⟩

def startAt (rip : Nat) : List VmAction := [.setSlice 0 1000000, .execute (blockAt rip)]

/-- A turn of the loop in which the block at an address is interpreted and goes on at another. -/
def interpreted (address next : Nat) : List VmAction :=
  [.enter compilerOf 10, .interpret false false next, .finish (blockAt next) (blockAt (blockAt address).end_)]

/-- The loop goes round until its blocks are compiled. The call then runs in compiled code, and the return is about to. -/
def calledRun : List VmAction :=
  startAt 0x1000 ++ (List.replicate 8 (interpreted 0x1000 0x2000 ++ interpreted 0x2000 0x1005 ++ interpreted 0x1005 0x1000)).flatten ++
    [.enter compilerOf 10, .runNative true 0x2000]

/-- The return pops the code of the block after the call. -/
theorem callstack_faithful_called : ∃ vm, machine.ReachableUnder Balanced vm ∧ vm.callstack.size = 1 ∧
    vm.callstack.entries 0 = some 1 ∧ (vm.nativeCode 1).block.start = 0x1005 := by
  have hrun : ((machine.checked Balanced).run (newVm 0x1000) calledRun).map (fun vm => (vm.mode, vm.callstack.size,
      vm.callstack.entries 0, vm.thread.returnAddress 0, (vm.nativeCode 2).block.branch)) =
      some (.native 2 1 999976, 1, some 1, 0x1005, .ret) := by decide +kernel
  obtain ⟨vm, hvm, heq⟩ := Option.map_eq_some_iff.1 hrun
  simp only [Prod.mk.injEq] at heq
  obtain ⟨hmode, hsize, hentry, hreturn, hbranch⟩ := heq
  have hreach : machine.ReachableUnder Balanced vm := (Machine.ReachableUnder.init (newVm_isNew 0x1000)).run_checked _ hvm
  have hbalanced : vm.Balanced (.runNative true 0x1005) := by
    simp only [Balanced, nextBranch, hmode, hbranch, BalancedBranch, hsize, hreturn]
    exact ⟨Nat.one_pos, Or.inr trivial⟩
  have hpop : vm.callstack.popCallstack = .ok (some 1, { vm.callstack.set 0 none with size := 0 }) := by
    have hsub : sub64 1 1 = 0 := by decide
    unfold Callstack.popCallstack
    simp only [hsize, hsub, hentry]
    rfl
  exact ⟨vm, hreach, hsize, hentry, (callstack_faithful hreach).2.2 2 1 999976 true 0x1005 1 _ hmode hbranch hbalanced hpop⟩

/-- A thread that returns where nothing was called: the size goes from 0 to the last `u64`. -/
theorem callstack_faithful_fails : ¬ ∀ vm, machine.Reachable vm → vm.callstack.size ≤ Callstack.CAPACITY := by
  intro hall
  have hrun : (machine.run (newVm 0x2000) (startAt 0x2000 ++ [.enter compilerOf 10, .interpret false false 0x1000])).map
      (·.callstack.size) = some (2 ^ 64 - 1) := by decide +kernel
  obtain ⟨vm, hvm, hsize⟩ := Option.map_eq_some_iff.1 hrun
  have hle := hall vm ((Machine.Reachable.init (newVm_isNew 0x2000)).run _ hvm)
  rw [hsize] at hle
  exact absurd hle (by decide)

end Samples

end Vm

end X64Emulator
