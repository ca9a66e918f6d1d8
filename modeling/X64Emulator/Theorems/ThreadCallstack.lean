import X64Emulator.ThreadCallstack
import X64Emulator.Lib.Nesting

/-!
# The bookkeeping of calls in the interpreter

The guest decides when its calls return. A return removes the last frame without asking whether there is one, and the return is
recorded before that. Where every return has a call that it matches, and one that the thread made itself while the profiler listens,
the three vectors stay as long as each other and no beginning of the record has more returns than calls.
-/

namespace X64Emulator

open Brackets

namespace ThreadCallstackData

/-- The three vectors have one element for each frame. -/
structure Aligned (d : ThreadCallstackData) : Prop where
  callpoint : d.callpoint.length = d.stack.length
  callstack : d.callstack.length = d.stack.length

theorem Aligned.empty : Aligned {} := ⟨rfl, rfl⟩

theorem Aligned.pushCallstack {d : ThreadCallstackData} (h : d.Aligned) (stackptr src dst : UInt64) :
    (d.pushCallstack stackptr src dst).Aligned :=
  ⟨congrArg (· + 1) h.callpoint, congrArg (· + 1) h.callstack⟩

/-- A pop removes the last frame, if there is one. -/
theorem Aligned.popCallstack {d : ThreadCallstackData} (h : d.Aligned) (hne : d.stack ≠ []) :
    ∃ address d', d.popCallstack = some (address, d') ∧ d'.Aligned ∧ d'.stack = d.stack.tail := by
  obtain ⟨stack, callpoint, callstack⟩ := d
  obtain ⟨hcallpoint, hcallstack⟩ := h
  cases stack with
  | nil => exact absurd rfl hne
  | cons s stack =>
    cases callpoint with
    | nil => simp at hcallpoint
    | cons c callpoint =>
      cases callstack with
      | nil => simp at hcallstack
      | cons a callstack =>
        refine ⟨a, { stack := stack, callpoint := callpoint, callstack := callstack }, rfl, ⟨?_, ?_⟩, rfl⟩
        · simpa using hcallpoint
        · simpa using hcallstack

/-- A pop meets empty vectors where there is no frame. -/
theorem popCallstack_eq_none {d : ThreadCallstackData} (h : d.stack = []) : d.popCallstack = none := by
  unfold popCallstack
  rw [h]
  cases d.callstack.head? <;> rfl

/-- The loop removes the frames below the new stack pointer and counts them. -/
theorem popLoop_spec (stackptr : UInt64) {stack callpoint callstack : List UInt64} (hcallpoint : callpoint.length = stack.length)
    (hcallstack : callstack.length = stack.length) (iterations : UInt32) :
    ∃ d', popLoop stackptr callpoint callstack iterations stack =
        some (iterations + UInt32.ofNat (stack.takeWhile fun stack => ¬ stackptr ≤ stack).length, d') ∧
      d'.Aligned ∧ d'.stack = stack.dropWhile fun stack => ¬ stackptr ≤ stack := by
  induction stack generalizing callpoint callstack iterations with
  | nil =>
    refine ⟨{ stack := [], callpoint := callpoint, callstack := callstack }, ?_, ⟨hcallpoint, hcallstack⟩, rfl⟩
    simp [popLoop]
  | cons s stack ih =>
    by_cases hstop : stackptr ≤ s
    · refine ⟨{ stack := s :: stack, callpoint := callpoint, callstack := callstack }, ?_, ⟨hcallpoint, hcallstack⟩, ?_⟩
      · simp [popLoop, hstop]
      · simp [hstop]
    · cases callpoint with
      | nil => simp at hcallpoint
      | cons c callpoint =>
        cases callstack with
        | nil => simp at hcallstack
        | cons a callstack =>
          have hcallpoint : callpoint.length = stack.length := by simpa using hcallpoint
          have hcallstack : callstack.length = stack.length := by simpa using hcallstack
          obtain ⟨d', hloop, haligned, hstack⟩ := ih hcallpoint hcallstack (iterations + 1)
          refine ⟨d', ?_, haligned, ?_⟩
          · rw [popLoop, if_neg hstop, List.takeWhile_cons_of_pos (by simpa using hstop), List.length_cons]
            simp only [List.tail?_cons, Option.bind_eq_bind, Option.bind_some, hloop]
            rw [UInt32.add_assoc, UInt32.ofNat_add, UInt32.add_comm 1]
            rfl
          · rw [List.dropWhile_cons_of_pos (by simpa using hstop), hstack]

/-- A change of the stack pointer removes the frames below it, whatever frames there are. -/
theorem Aligned.popCallstackUntil {d : ThreadCallstackData} (h : d.Aligned) (stackptr : UInt64) :
    ∃ d', d.popCallstackUntil stackptr =
        some (UInt32.ofNat (d.stack.takeWhile fun stack => ¬ stackptr ≤ stack).length, d') ∧
      d'.Aligned ∧ d'.stack = d.stack.dropWhile fun stack => ¬ stackptr ≤ stack := by
  obtain ⟨d', hloop, haligned, hstack⟩ := popLoop_spec stackptr h.callpoint h.callstack 0
  refine ⟨d', ?_, haligned, hstack⟩
  rw [ThreadCallstackData.popCallstackUntil, hloop, UInt32.zero_add]

end ThreadCallstackData

namespace ThreadProfileData

variable {d : ThreadProfileData}

/-- The queues hold what is recorded, and no beginning of the record has more returns than calls. -/
structure Balanced (d : ThreadProfileData) : Prop where
  callEvents : d.callEvents = d.recorded.filterMap ProfileEvent.asCall
  retEvents : d.retEvents = d.recorded.filterMap ProfileEvent.asRet
  balanced : Brackets.Balanced ProfileEvent.isCall ProfileEvent.isRet d.recorded

def calls (d : ThreadProfileData) : Nat := d.recorded.countP ProfileEvent.isCall

def rets (d : ThreadProfileData) : Nat := d.recorded.countP ProfileEvent.isRet

theorem Balanced.setProfiling (isProfiling : Bool) : (({} : ThreadProfileData).setProfiling isProfiling).Balanced :=
  ⟨rfl, rfl, balanced_nil⟩

theorem Balanced.pushCallstack (h : d.Balanced) (time function : UInt64) : (d.pushCallstack time function).Balanced := by
  rw [ThreadProfileData.pushCallstack]
  split
  · exact ⟨by simp [h.callEvents, ProfileEvent.asCall], by simp [h.retEvents, ProfileEvent.asRet], h.balanced.opening rfl rfl⟩
  · exact h

theorem pushCallstack_counts (time function : UInt64) (h : d.isProfiling = true) :
    (d.pushCallstack time function).calls = d.calls + 1 ∧ (d.pushCallstack time function).rets = d.rets := by
  simp [ThreadProfileData.pushCallstack, h, calls, rets, ProfileEvent.isCall, ProfileEvent.isRet]

theorem popCallstack_counts (time : UInt64) (h : d.isProfiling = true) :
    (d.popCallstack time).calls = d.calls ∧ (d.popCallstack time).rets = d.rets + 1 := by
  simp [ThreadProfileData.popCallstack, h, calls, rets, ProfileEvent.isCall, ProfileEvent.isRet]

/-- A return may be recorded while a recorded call is open. -/
theorem Balanced.popCallstack (h : d.Balanced) (time : UInt64) (hopen : d.isProfiling = true → d.rets < d.calls) :
    (d.popCallstack time).Balanced := by
  rw [ThreadProfileData.popCallstack]
  split
  · rename_i hprofiling
    refine ⟨by simp [h.callEvents, ProfileEvent.asCall], by simp [h.retEvents, ProfileEvent.asRet], h.balanced.closings ?_ ?_⟩
    · intro e he
      rw [List.mem_singleton.1 he]
      exact ⟨rfl, rfl⟩
    · exact hopen hprofiling
  · exact h

@[simp] theorem isProfiling_pushCallstack (time function : UInt64) :
    (d.pushCallstack time function).isProfiling = d.isProfiling := by
  rw [ThreadProfileData.pushCallstack]
  split <;> rfl

@[simp] theorem isProfiling_popCallstack (time : UInt64) : (d.popCallstack time).isProfiling = d.isProfiling := by
  rw [ThreadProfileData.popCallstack]
  split <;> rfl

end ThreadProfileData

namespace VMThread

theorem recordReturns_spec (ns : UInt64) {d : ThreadProfileData} (h : d.Balanced) {n : Nat}
    (hopen : d.isProfiling = true → d.rets + n ≤ d.calls) :
    (recordReturns ns d n).Balanced ∧ (recordReturns ns d n).isProfiling = d.isProfiling ∧
    (d.isProfiling = true → (recordReturns ns d n).calls = d.calls ∧ (recordReturns ns d n).rets = d.rets + n) := by
  induction n generalizing d with
  | zero => exact ⟨h, rfl, fun _ => ⟨rfl, rfl⟩⟩
  | succ n ih =>
    have hpop := h.popCallstack ns fun hprofiling => by have := hopen hprofiling; omega
    obtain ⟨hbalanced, hsame, hcounts⟩ := ih hpop (by
      intro hprofiling
      rw [ThreadProfileData.isProfiling_popCallstack] at hprofiling
      have hcounts := ThreadProfileData.popCallstack_counts ns hprofiling
      have := hopen hprofiling
      omega)
    refine ⟨hbalanced, hsame.trans (ThreadProfileData.isProfiling_popCallstack ns), ?_⟩
    intro hprofiling
    have hone := ThreadProfileData.popCallstack_counts ns hprofiling
    have hrest := hcounts ((ThreadProfileData.isProfiling_popCallstack ns).trans hprofiling)
    rw [recordReturns]
    omega

/-! ## Returns that match a call -/

/-- The open calls after a notification, each with the stack pointer that it was made at, the last one first. A return closes the
last one, and a change of the stack those that were made below the new stack pointer. -/
def openAfter (frames : List UInt64) : CpuNotification → List UInt64
  | .call rsp _ _ => rsp :: frames
  | .ret => frames.tail
  | .stackChange stackptr => frames.dropWhile fun frame => ¬ stackptr ≤ frame

/-- Each return has an open call that it closes, and the first `kept` of the open calls are never closed. -/
def Matched (kept : Nat) : List UInt64 → List CpuNotification → Prop
  | _, [] => True
  | frames, n :: rest => (n = .ret → frames ≠ []) ∧ kept ≤ (openAfter frames n).length ∧ Matched kept (openAfter frames n) rest

instance decidableMatched (kept : Nat) : ∀ frames l, Decidable (Matched kept frames l)
  | _, [] => .isTrue trivial
  | frames, n :: rest =>
    have := decidableMatched kept (openAfter frames n) rest
    inferInstanceAs (Decidable (_ ∧ _ ∧ _))

/-- The thread after it was told of something at some times. -/
def told (t : VMThread) (l : List (UInt64 × CpuNotification)) : Option VMThread := l.foldlM (fun t n => t.notify n.1 n.2) t

/-- A thread that begins: made new, or cloned from one that was told of something. -/
inductive Began : VMThread → Prop where
  | created (isProfiling : Bool) : Began (create isProfiling)
  | cloned (isProfiling : Bool) {s t : VMThread} {l : List (UInt64 × CpuNotification)} (h : Began s) (ht : s.told l = some t) :
    Began ((create isProfiling).reportInfoFrom t)

variable {s t t' : VMThread} {n : CpuNotification} {ns : UInt64} {l : List (UInt64 × CpuNotification)}

/-- Only a return without an open call is undefined. -/
theorem notify_defined_iff (h : t.data.Aligned) : (∃ t', t.notify ns n = some t') ↔ (n = .ret → t.data.stack ≠ []) := by
  cases n with
  | call rsp rip address => exact iff_of_true ⟨_, rfl⟩ nofun
  | ret =>
    constructor
    · rintro ⟨t', ht'⟩ - hnil
      simp [notify, popCallstack, ThreadCallstackData.popCallstack_eq_none hnil] at ht'
    · intro hne
      obtain ⟨address, d, hpop, -, -⟩ := h.popCallstack (hne rfl)
      simp [notify, popCallstack, hpop]
  | stackChange stackptr =>
    obtain ⟨d, hpop, -, -⟩ := h.popCallstackUntil stackptr
    refine iff_of_true ?_ nofun
    simp [notify, popCallstackUntil, hpop]

/-- One notification changes the three vectors alike, to the calls that are open after it. -/
theorem notify_data (h : t.data.Aligned) (hnotify : t.notify ns n = some t') :
    t'.data.Aligned ∧ t'.data.stack = openAfter t.data.stack n := by
  cases n with
  | call rsp rip address =>
    obtain rfl := Option.some.inj hnotify
    exact ⟨h.pushCallstack rsp rip address, rfl⟩
  | ret =>
    have hne := (notify_defined_iff h).1 ⟨t', hnotify⟩ rfl
    obtain ⟨address, d, hpop, haligned, hstack⟩ := h.popCallstack hne
    simp only [notify, popCallstack, hpop, Option.bind_eq_bind, Option.bind_some, Option.some.injEq] at hnotify
    subst hnotify
    exact ⟨haligned, hstack⟩
  | stackChange stackptr =>
    obtain ⟨d, hpop, haligned, hstack⟩ := h.popCallstackUntil stackptr
    simp only [notify, popCallstackUntil, hpop, Option.bind_eq_bind, Option.bind_some, Option.some.injEq] at hnotify
    subst hnotify
    exact ⟨haligned, hstack⟩

theorem told_cons {p : UInt64 × CpuNotification} : t.told (p :: l) = (t.notify p.1 p.2).bind fun t' => t'.told l := by
  simp [told, List.foldlM_cons]

theorem told_aligned (h : t.data.Aligned) (ht : t.told l = some t') : t'.data.Aligned := by
  induction l generalizing t with
  | nil =>
    obtain rfl := Option.some.inj ht
    exact h
  | cons p l ih =>
    rw [told_cons, Option.bind_eq_some_iff] at ht
    obtain ⟨t₁, hnotify, ht⟩ := ht
    exact ih (notify_data h hnotify).1 ht

/-- No pop meets an empty vector exactly if each return has a call that it matches. -/
theorem told_defined_iff (h : t.data.Aligned) :
    (∃ t', t.told l = some t') ↔ Matched 0 t.data.stack (l.map Prod.snd) := by
  induction l generalizing t with
  | nil => exact iff_of_true ⟨t, rfl⟩ trivial
  | cons p l ih =>
    have hdefined : (∃ t', t.notify p.1 p.2 = some t') ↔ (p.2 = .ret → t.data.stack ≠ []) := notify_defined_iff h
    simp only [told_cons, Option.bind_eq_some_iff, List.map_cons, Matched, Nat.zero_le, true_and]
    rw [← hdefined]
    constructor
    · rintro ⟨t', t₁, hnotify, ht'⟩
      obtain ⟨haligned, hstack⟩ := notify_data h hnotify
      exact ⟨⟨t₁, hnotify⟩, hstack ▸ (ih haligned).1 ⟨t', ht'⟩⟩
    · rintro ⟨⟨t₁, hnotify⟩, hmatched⟩
      obtain ⟨haligned, hstack⟩ := notify_data h hnotify
      obtain ⟨t', ht'⟩ := (ih haligned).2 (hstack ▸ hmatched)
      exact ⟨t', t₁, hnotify, ht'⟩

theorem Began.aligned (h : Began s) : s.data.Aligned := by
  induction h with
  | created isProfiling => exact .empty
  | cloned isProfiling _ ht ih =>
    have haligned := told_aligned ih ht
    exact haligned

/-- A thread has no events when it begins. -/
theorem Began.balanced (h : Began s) : s.profile.Balanced := by
  cases h with
  | created isProfiling => exact .setProfiling isProfiling
  | cloned isProfiling _ _ => exact .setProfiling isProfiling

/-! ## The record -/

/-- The record is balanced, and its open calls are frames that came after the first `kept`. -/
structure Recorded (kept : Nat) (t : VMThread) : Prop where
  balanced : t.profile.Balanced
  frames : t.profile.isProfiling = true → t.data.stack.length + t.profile.rets ≤ kept + t.profile.calls

/-- One notification that leaves the first frames there leaves the record balanced. -/
theorem Recorded.notify {kept : Nat} (h : Recorded kept t) (haligned : t.data.Aligned) (hnotify : t.notify ns n = some t')
    (hkept : t.profile.isProfiling = true → kept ≤ (openAfter t.data.stack n).length) :
    Recorded kept t' ∧ t'.profile.isProfiling = t.profile.isProfiling := by
  cases n with
  | call rsp rip address =>
    obtain rfl := Option.some.inj hnotify
    refine ⟨⟨h.balanced.pushCallstack ns address, fun hprofiling => ?_⟩, ThreadProfileData.isProfiling_pushCallstack ns address⟩
    have hprofiling : t.profile.isProfiling = true := (ThreadProfileData.isProfiling_pushCallstack ns address).symm.trans hprofiling
    have hcounts := ThreadProfileData.pushCallstack_counts ns address hprofiling
    have hframes := h.frames hprofiling
    simp only [pushCallstack, ThreadCallstackData.pushCallstack, List.length_cons]
    omega
  | ret =>
    have hne := (notify_defined_iff haligned).1 ⟨t', hnotify⟩ rfl
    obtain ⟨address, d, hpop, -, hstack⟩ := haligned.popCallstack hne
    have hpos := List.length_pos_of_ne_nil hne
    have hlength := congrArg List.length hstack
    rw [List.length_tail] at hlength
    simp only [VMThread.notify, VMThread.popCallstack, hpop, Option.bind_eq_bind, Option.bind_some, Option.some.injEq] at hnotify
    subst hnotify
    simp only [openAfter, List.length_tail] at hkept
    have hopen : t.profile.isProfiling = true → t.profile.rets < t.profile.calls := by
      intro hprofiling
      have := hkept hprofiling
      have := h.frames hprofiling
      omega
    refine ⟨⟨h.balanced.popCallstack ns hopen, fun hprofiling => ?_⟩, ThreadProfileData.isProfiling_popCallstack ns⟩
    have hprofiling : t.profile.isProfiling = true := (ThreadProfileData.isProfiling_popCallstack ns).symm.trans hprofiling
    have hcounts := ThreadProfileData.popCallstack_counts ns hprofiling
    have hframes := h.frames hprofiling
    dsimp only
    omega
  | stackChange stackptr =>
    obtain ⟨d, hpop, -, hstack⟩ := haligned.popCallstackUntil stackptr
    have hlength := congrArg List.length (t.data.stack.takeWhile_append_dropWhile (p := fun stack => ¬ stackptr ≤ stack))
    rw [List.length_append] at hlength
    have hremoved := Nat.mod_le (t.data.stack.takeWhile fun stack => ¬ stackptr ≤ stack).length (2 ^ 32)
    rw [← UInt32.toNat_ofNat'] at hremoved
    simp only [VMThread.notify, VMThread.popCallstackUntil, hpop, Option.bind_eq_bind, Option.bind_some,
      Option.some.injEq] at hnotify
    subst hnotify
    have hopen : t.profile.isProfiling = true → t.profile.rets +
        (UInt32.ofNat (t.data.stack.takeWhile fun stack => ¬ stackptr ≤ stack).length).toNat ≤ t.profile.calls := by
      intro hprofiling
      have hkept : kept ≤ (t.data.stack.dropWhile fun stack => ¬ stackptr ≤ stack).length := hkept hprofiling
      have hframes := h.frames hprofiling
      omega
    obtain ⟨hbalanced, hsame, hcounts⟩ := recordReturns_spec ns h.balanced hopen
    refine ⟨⟨hbalanced, fun hprofiling => ?_⟩, hsame⟩
    have hprofiling := hsame.symm.trans hprofiling
    have hcounts := hcounts hprofiling
    have hframes := h.frames hprofiling
    dsimp only
    rw [hstack]
    omega

theorem Recorded.told {kept : Nat} (h : Recorded kept t) (haligned : t.data.Aligned) (ht : t.told l = some t')
    (hmatched : t.profile.isProfiling = true → Matched kept t.data.stack (l.map Prod.snd)) : Recorded kept t' := by
  induction l generalizing t with
  | nil =>
    obtain rfl := Option.some.inj ht
    exact h
  | cons p l ih =>
    rw [told_cons, Option.bind_eq_some_iff] at ht
    obtain ⟨t₁, hnotify, ht⟩ := ht
    obtain ⟨haligned₁, hstack⟩ := notify_data haligned hnotify
    obtain ⟨h₁, hsame⟩ := h.notify haligned hnotify fun hprofiling => (hmatched hprofiling).2.1
    refine ih h₁ haligned₁ ht fun hprofiling => ?_
    rw [hstack]
    exact (hmatched (hsame.symm.trans hprofiling)).2.2

/-- Whatever a thread that begins is told of, no pop meets an empty vector exactly if each return matches a call, and the three
vectors are as long as each other. No beginning of the record has more returns than calls if no notification closes a call that was
open when the thread began, while the profiler listens. -/
theorem callstack_sound (h : Began s) (l : List (UInt64 × CpuNotification)) :
    ((∃ t, s.told l = some t) ↔ Matched 0 s.data.stack (l.map Prod.snd)) ∧
    ∀ t, s.told l = some t → t.data.Aligned ∧
      ((s.profile.isProfiling = true → Matched s.data.stack.length s.data.stack (l.map Prod.snd)) → t.profile.Balanced) := by
  refine ⟨told_defined_iff h.aligned, fun t ht => ⟨told_aligned h.aligned ht, fun hmatched => ?_⟩⟩
  have hbegan : Recorded s.data.stack.length s := by
    refine ⟨h.balanced, fun _ => ?_⟩
    cases h <;> exact Nat.le_refl _
  exact (hbegan.told h.aligned ht hmatched).balanced

/-- Two calls, a change of the stack that discards the second, and a return from the first. -/
def returning : List (UInt64 × CpuNotification) :=
  [(5, .call 0x7fff0000 0x401000 0x402000), (6, .call 0x7ffeff00 0x402010 0x403000), (7, .stackChange 0x7ffeff80), (8, .ret)]

theorem callstack_sound_returns : ∃ t, (create true).told returning = some t ∧ t.data.stack = [] ∧ t.profile.rets = 2 ∧
    t.data.Aligned ∧ t.profile.Balanced := by
  have hsound := callstack_sound (.created true) returning
  obtain ⟨t, ht⟩ := hsound.1.2 (by decide)
  obtain ⟨haligned, hbalanced⟩ := hsound.2 t ht
  have htold : (create true).told returning = some { create true with
      profile := (recordReturns 8 (recordReturns 7 (((create true).profile.pushCallstack 5 0x402000).pushCallstack 6 0x403000) 1) 1)
      functionCalls := 2 } := by decide
  obtain rfl := Option.some.inj (htold.symm.trans ht)
  exact ⟨_, ht, rfl, by decide, haligned, hbalanced fun _ => by decide⟩

/-- A thread that returns before it calls pops empty vectors, and one that is cloned in a call and returns from it records a return
without a call. -/
theorem callstack_unsound :
    ¬ (∀ n : CpuNotification, ∃ t, (create true).notify 0 n = some t) ∧
    ∃ t, ((create true).reportInfoFrom { data := ⟨[0x7fff0000], [0x401000], [0x402000]⟩ }).notify 0 .ret = some t ∧
      ¬ t.profile.Balanced := by
  constructor
  · intro h
    obtain ⟨t, ht⟩ := h .ret
    cases ht
  · refine ⟨_, rfl, ?_⟩
    intro h
    exact absurd h.balanced.le (by decide)

end VMThread

end X64Emulator
