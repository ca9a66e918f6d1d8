import X64Emulator.Lemmas.CodeReturns

/-!
# What the entries of the call stack lead to

`Faithful` says of a call stack that it is inside its array and that each of its entries is the code of the block at the
address its call returns to. The steps of the loop keep it, for the live call stack and for those that were saved.
-/

namespace X64Emulator

open Outcome

/-- The failure that must not happen: an access outside of the call stack. -/
def IsOutOfBounds (e : VmFailure) : Prop := e = .outOfBounds

namespace Callstack

variable {cs cs' : Callstack} {leads leads' : Nat → Nat → Prop} {returnAddress : Nat → Nat}

/-- The entries of a call stack lead to the blocks at the addresses the calls return to. -/
structure Faithful (leads : Nat → Nat → Prop) (returnAddress : Nat → Nat) (cs : Callstack) : Prop where
  size_le : cs.size ≤ CAPACITY
  entries : ∀ i, i < cs.size → ∀ target, cs.entries i = some target → leads target (returnAddress i)

theorem Faithful.mono (h : cs.Faithful leads returnAddress) (hleads : ∀ target start, leads target start → leads' target start) :
    cs.Faithful leads' returnAddress :=
  ⟨h.size_le, fun i hi target ht => hleads _ _ (h.entries i hi target ht)⟩

theorem IsNew.faithful (h : cs.IsNew) : cs.Faithful leads returnAddress := by
  refine ⟨h.size_le, fun i _ target ht => ?_⟩
  rw [h.null i] at ht
  cases ht

theorem u64_size (h : cs.size ≤ CAPACITY) : u64 (cs.size + 1) = cs.size + 1 :=
  u64_of_lt (by unfold CAPACITY at h; omega)

theorem sub64_size (h0 : 0 < cs.size) (h : cs.size ≤ CAPACITY) : sub64 cs.size 1 = cs.size - 1 := by
  unfold sub64 u64
  unfold CAPACITY at h
  omega

theorem sub64_succ (h : cs.size ≤ CAPACITY) : sub64 (cs.size + 1) 1 = cs.size := by
  unfold sub64 u64
  unfold CAPACITY at h
  omega

/-- The return addresses after a call. -/
def called (returnAddress : Nat → Nat) (size address : Nat) : Nat → Nat := fun i => if i = size then address else returnAddress i

/-- An entry for a call is put after the last one. -/
theorem Faithful.push {entry : Option Nat} {address : Nat} (h : cs.Faithful leads returnAddress) (hsize : cs.size < CAPACITY)
    (hentry : ∀ target, entry = some target → leads target address) :
    Faithful leads (called returnAddress cs.size address) { cs.set cs.size entry with size := cs.size + 1 } := by
  refine ⟨hsize, fun i hi target ht => ?_⟩
  simp only [set] at ht
  unfold called
  split
  · next heq =>
    rw [if_pos heq] at ht
    exact hentry target ht
  · next hne =>
    rw [if_neg hne] at ht
    exact h.entries i (by simp only at hi; omega) target ht

/-- The last entry is dropped, and another cleared. -/
theorem Faithful.drop {k size : Nat} (h : cs.Faithful leads returnAddress) (hsize : size ≤ cs.size) :
    Faithful leads returnAddress { cs.set k none with size := size } := by
  refine ⟨Nat.le_trans hsize h.size_le, fun i hi target ht => ?_⟩
  simp only [set] at ht
  split at ht
  · cases ht
  · exact h.entries i (Nat.lt_of_lt_of_le hi hsize) target ht

theorem access_post {i : Nat} (hi : i < CAPACITY) : Post IsOutOfBounds (fun _ => True) (access i) :=
  Post.mono (Post.check fun _ => hi) fun _ _ => trivial

theorem notifyCall_post {address : Nat} (h : cs.Faithful leads returnAddress) (hsize : cs.size < CAPACITY) :
    Post IsOutOfBounds (Faithful leads (called returnAddress cs.size address)) cs.notifyCall := by
  refine Post.bind (access_post hsize) fun _ _ => Post.ok ?_
  rw [u64_size h.size_le]
  exact h.push hsize fun target ht => by cases ht

theorem notifyRet_post (h : cs.Faithful leads returnAddress) (h0 : 0 < cs.size) (hsize : cs.size < CAPACITY) :
    Post IsOutOfBounds (Faithful leads returnAddress) cs.notifyRet := by
  unfold notifyRet
  refine Post.bind (access_post hsize) fun _ _ => Post.ok ?_
  rw [sub64_size h0 h.size_le]
  exact h.drop (Nat.sub_le _ _)

theorem nukeCallstack_post (h : cs.Faithful leads returnAddress) :
    Post IsOutOfBounds (fun cs' => cs'.Faithful leads returnAddress ∧ cs'.size = cs.size) cs.nukeCallstack := by
  refine Post.bind (Post.check fun _ => h.size_le) fun _ _ => Post.ok ⟨⟨h.size_le, fun i hi target ht => ?_⟩, rfl⟩
  simp only at hi ht
  rw [if_pos hi] at ht
  cases ht

/-- A thread's call stack is put in place: it is refused, or it is faithful there too. -/
theorem setCallstack_post (h : cs'.Faithful leads returnAddress) :
    Post IsOutOfBounds (Faithful leads returnAddress) (cs.setCallstack cs') := by
  refine Post.bind (Post.check fun he => by cases he) fun _ _ => Post.ok ⟨h.size_le, fun i hi target ht => ?_⟩
  simp only at hi ht
  rw [if_pos hi] at ht
  exact h.entries i hi target ht

theorem pushCallstack_post {entry : Option Nat} {address : Nat} (h : cs.Faithful leads returnAddress)
    (hsize : cs.size < CAPACITY) (hentry : ∀ target, entry = some target → leads target address) :
    Post IsOutOfBounds (Faithful leads (called returnAddress cs.size address)) (cs.pushCallstack entry) := by
  unfold pushCallstack
  simp only [u64_size h.size_le, sub64_succ h.size_le]
  exact Post.bind (access_post hsize) fun _ _ => Post.ok (h.push hsize hentry)

/-- The entry that is popped is the last one. -/
theorem popCallstack_post (h : cs.Faithful leads returnAddress) (h0 : 0 < cs.size) :
    Post IsOutOfBounds (fun r => r.2.Faithful leads returnAddress ∧ r.1 = cs.entries (cs.size - 1)) cs.popCallstack := by
  unfold popCallstack
  simp only [sub64_size h0 h.size_le]
  have hlast : cs.size - 1 < CAPACITY := Nat.lt_of_lt_of_le (Nat.sub_lt h0 Nat.one_pos) h.size_le
  exact Post.bind (access_post hlast) fun _ _ => Post.ok ⟨h.drop (Nat.sub_le _ _), rfl⟩

end Callstack

namespace Vm

variable {vm vm' : Vm}

/-- The compiled block is native code for instructions that begin at the address. -/
def Leads (vm : Vm) (target start : Nat) : Prop := ∃ p, vm.cache.CompiledFor target p ∧ (vm.guestBlock p).start = start

/-- The native code of every compiled block is that of the instructions of its segment. -/
structure Coded (vm : Vm) : Prop where
  returning : vm.cache.Returning vm.guestBlock vm.cache.CompiledFor
  code : ∀ block p, vm.cache.CompiledFor block p → (vm.nativeCode block).block = vm.guestBlock p

/-- The call stacks of the process: the live one while a thread runs, and the saved ones. -/
structure Sound (vm : Vm) : Prop where
  coded : vm.Coded
  size_le : vm.callstack.size ≤ Callstack.CAPACITY
  running : vm.mode ≠ .idle → vm.callstack.Faithful vm.Leads vm.thread.returnAddress
  suspended : vm.mode = .idle → vm.thread.savedJitState.Faithful vm.Leads vm.thread.returnAddress
  parked : ∀ t, (vm.parked t).savedJitState.Faithful vm.Leads (vm.parked t).returnAddress

/-- The code of the process has grown; nothing else of the virtual machine has changed. -/
structure Grown (vm vm' : Vm) : Prop where
  coded : vm'.Coded
  leads : ∀ target start, vm.Leads target start → vm'.Leads target start
  callstack : vm'.callstack = vm.callstack
  thread : vm'.thread = vm.thread
  parked : vm'.parked = vm.parked

theorem Coded.grown (h : vm.Coded) : vm.Grown vm := ⟨h, fun _ _ => id, rfl, rfl, rfl⟩

theorem Grown.trans {vm'' : Vm} (h : vm.Grown vm') (h' : vm'.Grown vm'') : vm.Grown vm'' :=
  ⟨h'.coded, fun target start hl => h'.leads target start (h.leads target start hl), h'.callstack.trans h.callstack,
    h'.thread.trans h.thread, h'.parked.trans h.parked⟩

/-- The links between segments change, and nothing is compiled. -/
theorem Coded.withCache {cache : CodeCache} (h : vm.Coded) (hreturning : cache.Returning vm.guestBlock vm.cache.CompiledFor)
    (hcompiled : vm.cache.NothingCompiled cache) : vm.Grown { vm with cache := cache } := by
  refine ⟨⟨?_, fun block p hp => h.code block p (hcompiled block p hp)⟩, fun target start hl => ?_, rfl, rfl, rfl⟩
  · exact { hreturning with before := fun _ _ => id }
  · obtain ⟨p, hp, hstart⟩ := hl
    exact ⟨p, hreturning.before target p hp, hstart⟩

theorem Coded.stable {cache : CodeCache} (h : vm.Coded) (hs : vm.cache.Stable cache) : vm.Grown { vm with cache := cache } :=
  h.withCache (h.returning.stable hs) hs.nothingCompiled

/-- What was compiled is recorded. -/
theorem Coded.recordCode {cache : CodeCache} {compiler : SegmentCompiler} (h : vm.Coded)
    (hreturning : cache.Returning vm.guestBlock vm.cache.CompiledFor) :
    vm.Grown ({ vm with cache := cache }.recordCode vm.cache compiler) := by
  refine ⟨⟨?_, fun block p hp => ?_⟩, fun target start hl => ?_, rfl, rfl, rfl⟩
  · exact { hreturning with before := fun _ _ => id }
  · obtain ⟨b, hb, rfl⟩ := hp
    simp only [Vm.recordCode]
    cases hold : vm.cache.blocks.get? block with
    | none =>
      change cache.blocks.get? block = some b at hb
      rw [hb]
    | some b₀ =>
      have heq : b₀.currentBb = b.currentBb := (hreturning.before block _ ⟨b₀, hold, rfl⟩).unique ⟨b, hb, rfl⟩
      exact (h.code block _ ⟨b₀, hold, rfl⟩).trans (congrArg vm.guestBlock heq)
  · obtain ⟨p, hp, hstart⟩ := hl
    exact ⟨p, hreturning.before target p hp, hstart⟩

theorem Coded.fetchSegment (h : vm.Coded) (block : GuestBlock) : vm.Grown (vm.fetchSegment block).2 := by
  have hfor : ∀ target p, (vm.cache.fetchSegment block.basicBlock).2.CompiledFor target p ↔ vm.cache.CompiledFor target p := by
    intro target p
    unfold CodeCache.fetchSegment
    split <;> rfl
  have hold : ∀ target p, vm.cache.CompiledFor target p →
      (if vm.cache.segments.next ≤ p then block else vm.guestBlock p) = vm.guestBlock p :=
    fun target p hp => if_neg (Nat.not_le.2 (h.returning.owner target p hp))
  refine ⟨⟨?_, fun target p hp => ?_⟩, fun target start hl => ?_, rfl, rfl, rfl⟩
  · exact { CodeCache.fetchSegment_returning h.returning with before := fun _ _ => id }
  · have hp' := (hfor target p).1 hp
    exact (h.code target p hp').trans (hold target p hp').symm
  · obtain ⟨p, hp, hstart⟩ := hl
    exact ⟨p, (hfor target p).2 hp, (congrArg GuestBlock.start (hold target p hp)).trans hstart⟩

/-- The virtual machine goes on with a thread whose call stack is faithful. -/
theorem Grown.sound (h : vm.Grown vm') (hs : vm.Sound) (hrunning : vm.mode ≠ .idle) (mode : VmMode) (hmode : mode ≠ .idle) :
    { vm' with mode := mode }.Sound := by
  refine ⟨⟨h.coded.returning, h.coded.code⟩, ?_, fun _ => ?_, fun heq => absurd heq hmode, fun t => ?_⟩
  · exact h.callstack.symm ▸ hs.size_le
  · have hfaithful := (hs.running hrunning).mono h.leads
    rw [← h.callstack, ← h.thread] at hfaithful
    exact hfaithful
  · have hfaithful := (hs.parked t).mono h.leads
    rw [← h.parked] at hfaithful
    exact hfaithful

section Loop

theorem mapError_post {α : Type} {p : α → Prop} {x : Except LinkFailure α} (h : Yields p x) :
    Post IsOutOfBounds p (x.mapError .link) := by
  refine Post.mapError (h.anti fun e he => ?_)
  cases he

theorem findNextSegment_post {current : Nat} {block : GuestBlock} (h : vm.Coded) :
    Post IsOutOfBounds (fun r => vm.Grown r.2) (vm.findNextSegment current block) := by
  refine Post.bind (mapError_post CodeCache.findNext_stable) fun r hr => ?_
  obtain ⟨found, cache⟩ := r
  have hfind := h.stable hr
  cases found with
  | some next => exact Post.ok hfind
  | none =>
    have hfetch := hfind.coded.fetchSegment block
    refine Post.bind (mapError_post CodeCache.addSuccessor_stable) fun cache' hcache' => Post.ok ?_
    exact (hfind.trans hfetch).trans (hfetch.coded.stable hcache')

theorem patchJumps_post {current next : Nat} (h : vm.Coded) : Post IsOutOfBounds vm.Grown (vm.patchJumps current next) := by
  refine Post.bind (mapError_post (Post.any _)) fun s _ => Post.bind (mapError_post (Post.any _)) fun n _ => ?_
  refine Post.ite (fun _ => ?_) fun _ => Post.ok h.grown
  refine Post.bind (mapError_post ((CodeCache.tryPatch_returning h.returning).and CodeCache.tryPatch_nothingCompiled))
    fun cache hcache => Post.ok (h.withCache hcache.1 hcache.2)

theorem patchReturn_post {current : Nat} {returnBlock : GuestBlock} (h : vm.Coded) :
    Post IsOutOfBounds vm.Grown (vm.patchReturn current returnBlock) := by
  have hfetch := h.fetchSegment returnBlock
  generalize hfetched : (vm.fetchSegment returnBlock).2 = fetched at hfetch
  have hcall : Post IsOutOfBounds vm.Grown (if fetched.jitCallChainingEnabled then do
        let cache ← (fetched.cache.addReturn current (vm.fetchSegment returnBlock).1).mapError .link
        let cache ← (cache.tryPatch current).mapError .link
        .ok { fetched with cache := cache }
      else .ok fetched) := by
    refine Post.ite (fun _ => ?_) fun _ => Post.ok hfetch
    have hadd : Yields (fun cache => cache.Returning fetched.guestBlock fetched.cache.CompiledFor ∧
        fetched.cache.NothingCompiled cache) (fetched.cache.addReturn current (vm.fetchSegment returnBlock).1) := by
      refine (CodeCache.addReturn_returning hfetch.coded.returning).and ?_
      refine Post.skip fun _ => Post.skip fun _ => ?_
      exact Post.skip fun _ => Post.skip fun _ => Post.ok fun _ _ => id
    refine Post.bind (mapError_post hadd) fun cache hcache => ?_
    refine Post.bind (mapError_post ((CodeCache.tryPatch_returning hcache.1).and CodeCache.tryPatch_nothingCompiled))
      fun cache' hcache' => Post.ok ?_
    exact hfetch.trans (hfetch.coded.withCache hcache'.1 (hcache.2.trans hcache'.2))
  subst hfetched
  unfold patchReturn
  split
  · exact hcall
  · exact hcall
  · exact Post.ok h.grown

theorem finish_post {current : Nat} {block returnBlock : GuestBlock} (h : vm.Sound) (hrunning : vm.mode ≠ .idle) :
    Post IsOutOfBounds Sound (vm.finish current block returnBlock) := by
  refine Post.bind (findNextSegment_post h.coded) fun r hr => ?_
  obtain ⟨next, vm₁⟩ := r
  refine Post.bind (patchJumps_post hr.coded) fun vm₂ h₂ => Post.bind (patchReturn_post h₂.coded) fun vm₃ h₃ => Post.ok ?_
  exact ((hr.trans h₂).trans h₃).sound h hrunning _ (by simp)

theorem leave_post (h : vm.Sound) (hrunning : vm.mode ≠ .idle) : Post IsOutOfBounds Sound vm.leave := by
  refine Post.bind (Post.check fun he => by cases he) fun _ _ => Post.ok ?_
  refine ⟨⟨h.coded.returning, h.coded.code⟩, h.size_le, fun hne => absurd rfl hne, fun _ => ?_, h.parked⟩
  have hfaithful := h.running hrunning
  refine ⟨h.size_le, fun i hi target ht => ?_⟩
  simp only at hi ht
  rw [if_pos hi] at ht
  exact hfaithful.entries i hi target ht

theorem enter_post {next turns : Nat} {compiler : SegmentCompiler} (h : vm.Sound) (hrunning : vm.mode ≠ .idle) :
    Post IsOutOfBounds Sound (vm.enter next compiler turns) := by
  refine Post.ite (fun _ => leave_post h hrunning) fun _ => ?_
  refine Post.bind (mapError_post (Post.any _)) fun s _ => Post.bind (Post.check fun he => by cases he) fun _ _ => ?_
  refine Post.bind (mapError_post (CodeCache.process_returning h.coded.returning)) fun cache hcache => ?_
  have hgrown := @Coded.recordCode vm cache compiler h.coded hcache
  refine Post.bind (mapError_post (Post.any _)) fun s _ => ?_
  split
  · exact Post.ok (hgrown.sound h hrunning _ (by simp))
  · have hcalls := hgrown.coded.stable (CodeCache.stable_modify (p := next) (f := (·.onCpuCall)) fun _ _ =>
      ⟨rfl, rfl, fun _ h => h⟩)
    exact Post.ok ((hgrown.trans hcalls).sound h hrunning _ (by simp))

end Loop

end Vm

end X64Emulator
