import X64Emulator.ExecutableMemory
import Mathlib.Data.List.Pairwise

/-!
# Blocks of executable memory are apart

A range gives out its chunks in order, so the blocks carved from it and from the other ranges have no byte in common, and a block
that is freed and given again stays the same. A block is as large as it was asked to be unless the size wraps when it is rounded
up to whole chunks.
-/

namespace X64Emulator

namespace MemoryBlock

def Covers (b : MemoryBlock) (address : Nat) : Prop := b.ptr ≤ address ∧ address < b.ptr + b.size

/-- Two blocks have no byte in common. -/
def Apart (b b' : MemoryBlock) : Prop := ∀ address, b.Covers address → ¬ b'.Covers address

theorem Apart.symm {b b' : MemoryBlock} (h : b.Apart b') : b'.Apart b := fun address h' hb => h address hb h'

/-- The block lies in a range. -/
def Inside (b : MemoryBlock) (r : MemRange) : Prop := r.base ≤ b.ptr ∧ b.ptr + b.size ≤ r.base + MemRange.SIZE

end MemoryBlock

namespace MemRange

/-- The first byte behind the chunks that a range has given. -/
def top (r : MemRange) : Nat := r.base + r.firstAvailableChunk * CHUNK_SIZE

/-- Two ranges have no byte in common. -/
def Apart (r r' : MemRange) : Prop := r.base + SIZE ≤ r'.base ∨ r'.base + SIZE ≤ r.base

theorem Apart.symm {r r' : MemRange} (h : r.Apart r') : r'.Apart r := Or.symm h

instance : Std.Symm Apart := ⟨fun _ _ => Apart.symm⟩

/-- The block is one of those that a range has given. -/
def Gave (r : MemRange) (b : MemoryBlock) : Prop := r.base ≤ b.ptr ∧ b.ptr + b.size ≤ r.top

/-- What carving a block does: it begins behind the chunks given so far, and ends behind those given now. -/
structure Carves (r : MemRange) (requestedSize : Nat) (b : MemoryBlock) (r' : MemRange) : Prop where
  base : r'.base = r.base
  first : r'.firstAvailableChunk ≤ NB_CHUNKS
  ptr : b.ptr = r.top
  top : b.ptr + b.size = r'.top
  size : requestedSize ≤ 2 ^ 32 - CHUNK_SIZE → requestedSize ≤ b.size
  wrapped : 2 ^ 32 - CHUNK_SIZE < requestedSize → b.size = 0

theorem tryAllocate_eq_some {r r' : MemRange} {b : MemoryBlock} {requestedSize : Nat} (hr : r.firstAvailableChunk ≤ NB_CHUNKS)
    (hsize : requestedSize < 2 ^ 32) (h : r.tryAllocate requestedSize = some (b, r')) : r.Carves requestedSize b r' := by
  unfold tryAllocate at h
  simp only [Option.ite_none_left_eq_some, Option.some.injEq, Prod.mk.injEq] at h
  obtain ⟨hroom, rfl, rfl⟩ := h
  unfold u32 NB_CHUNKS SIZE CHUNK_SIZE at *
  constructor <;> simp only [top, NB_CHUNKS, SIZE, CHUNK_SIZE] <;> omega

/-- A size that wraps is rounded up to no chunk at all, for which every range has room. -/
theorem tryAllocate_wrapped {r : MemRange} {requestedSize : Nat} (hr : r.firstAvailableChunk ≤ NB_CHUNKS)
    (hsize : requestedSize < 2 ^ 32) (h : 2 ^ 32 - CHUNK_SIZE < requestedSize) : (r.tryAllocate requestedSize).isSome := by
  unfold tryAllocate u32 NB_CHUNKS SIZE CHUNK_SIZE at *
  simp only
  rw [if_neg (by omega)]
  rfl

end MemRange

namespace ExecutableMemory

open MemRange MemoryBlock ExecutableMemoryAllocator

variable {m m' : ExecutableMemory} {a : ExecutableMemoryAllocator} {b : MemoryBlock} {requestedSize : Nat}

/-- The blocks that have been given and those that are kept to be given again. -/
def blocks (m : ExecutableMemory) : List MemoryBlock := m.live ++ m.allocator.freeBlocks

/-- What the host promises: a range that is not null and has no byte in common with the ranges it gave before. -/
def FreshRange (m : ExecutableMemory) : MemoryAction → Prop
  | .allocate _ (some base) => base ≠ 0 ∧ ∀ r ∈ m.allocator.ranges, MemRange.Apart ⟨base, 0⟩ r
  | _ => True

instance (m : ExecutableMemory) : DecidablePred m.FreshRange
  | .allocate _ (some _) => inferInstanceAs (Decidable (_ ∧ ∀ r ∈ _, _ ∨ _))
  | .allocate _ none | .free _ => inferInstanceAs (Decidable True)

/-- The ranges are apart and have given no more chunks than they have, each block is one that a range gave, and no two of them have
a byte in common. -/
structure Inv (m : ExecutableMemory) : Prop where
  ranges : m.allocator.ranges.Pairwise MemRange.Apart
  chunks : ∀ r ∈ m.allocator.ranges, r.firstAvailableChunk ≤ NB_CHUNKS
  given : ∀ b ∈ m.blocks, ∃ r ∈ m.allocator.ranges, r.Gave b
  apart : m.blocks.Pairwise MemoryBlock.Apart

/-- The order of the blocks does not matter, and the ranges may be others with the same chunks given. -/
theorem Inv.of_perm (h : m.Inv) (hranges : m'.allocator.ranges = m.allocator.ranges) (hblocks : m'.blocks.Perm m.blocks) :
    m'.Inv := by
  refine ⟨hranges ▸ h.ranges, hranges ▸ h.chunks, fun b hb => ?_, ?_⟩
  · rw [hranges]
    exact h.given b (hblocks.subset hb)
  · exact (hblocks.pairwise_iff fun h => h.symm).2 h.apart

/-- Fewer blocks are apart too. -/
theorem Inv.of_sublist (h : m.Inv) (hranges : m'.allocator.ranges = m.allocator.ranges)
    (hblocks : m'.blocks.Sublist m.blocks) : m'.Inv := by
  refine ⟨hranges ▸ h.ranges, hranges ▸ h.chunks, fun b hb => ?_, h.apart.sublist hblocks⟩
  rw [hranges]
  exact h.given b (hblocks.subset hb)

/-- A range that the host gives joins the others. -/
theorem Inv.open (h : m.Inv) {base : Nat} (hfresh : ∀ r ∈ m.allocator.ranges, MemRange.Apart ⟨base, 0⟩ r) :
    Inv { m with allocator.ranges := m.allocator.ranges ++ [⟨base, 0⟩] } := by
  refine ⟨?_, ?_, fun b hb => ?_, h.apart⟩
  · refine List.pairwise_append.2 ⟨h.ranges, List.pairwise_singleton _ _, fun r hr r' hr' => ?_⟩
    obtain rfl := List.mem_singleton.1 hr'
    exact (hfresh r hr).symm
  · intro r hr
    rcases List.mem_append.1 hr with hr | hr
    · exact h.chunks r hr
    · obtain rfl := List.mem_singleton.1 hr
      exact Nat.zero_le _
  · obtain ⟨r, hr, hgave⟩ := h.given b hb
    exact ⟨r, List.mem_append_left _ hr, hgave⟩

/-- A block carved from one of the ranges is apart from all blocks given before. -/
theorem Inv.carve (h : m.Inv) {l l' : List MemRange} {r r' : MemRange} (hranges : m.allocator.ranges = l ++ r :: l')
    (hc : r.Carves requestedSize b r') :
    Inv { allocator := { m.allocator with ranges := l ++ r' :: l' }, live := b :: m.live } := by
  have hr : r ∈ m.allocator.ranges := by rw [hranges]; simp
  have hmem : ∀ r₁ ∈ m.allocator.ranges, ∃ r₂ ∈ l ++ r' :: l', r₂.base = r₁.base ∧ r₁.top ≤ r₂.top := by
    intro r₁ hr₁
    rw [hranges] at hr₁
    by_cases heq : r₁ = r
    · subst heq
      refine ⟨r', by simp, hc.base, ?_⟩
      have := hc.ptr
      have := hc.top
      omega
    · refine ⟨r₁, ?_, rfl, Nat.le_refl _⟩
      simp only [List.mem_append, List.mem_cons] at hr₁ ⊢
      tauto
  refine ⟨?_, ?_, ?_, ?_⟩
  · have hpair := h.ranges
    rw [hranges] at hpair
    have hbase : ∀ r₁, MemRange.Apart r₁ r' ↔ MemRange.Apart r₁ r := fun r₁ => by
      unfold MemRange.Apart
      rw [hc.base]
    have hbase' : ∀ r₁, MemRange.Apart r' r₁ ↔ MemRange.Apart r r₁ := fun r₁ => by
      unfold MemRange.Apart
      rw [hc.base]
    simpa only [List.pairwise_append, List.pairwise_cons, List.forall_mem_cons, hbase, hbase'] using hpair
  · intro r₁ hr₁
    have hchunks := h.chunks
    rw [hranges] at hchunks
    simp only [List.mem_append, List.mem_cons] at hr₁ hchunks
    rcases hr₁ with hr₁ | rfl | hr₁
    · exact hchunks r₁ (.inl hr₁)
    · exact hc.first
    · exact hchunks r₁ (.inr (.inr hr₁))
  · intro b₁ hb₁
    rcases List.mem_cons.1 hb₁ with rfl | hb₁
    · refine ⟨r', by simp, ?_, Nat.le_of_eq hc.top⟩
      rw [hc.ptr, hc.base]
      exact Nat.le_add_right _ _
    · obtain ⟨r₁, hr₁, hgave⟩ := h.given b₁ hb₁
      obtain ⟨r₂, hr₂, hbase, htop⟩ := hmem r₁ hr₁
      exact ⟨r₂, hr₂, hbase ▸ hgave.1, Nat.le_trans hgave.2 htop⟩
  · refine List.pairwise_cons.2 ⟨fun b₁ hb₁ => ?_, h.apart⟩
    obtain ⟨r₁, hr₁, hgave⟩ := h.given b₁ hb₁
    have hptr := hc.ptr
    have htop := hc.top
    by_cases heq : r₁ = r
    · -- The block begins behind what its range had given.
      subst heq
      intro address hb hb₁
      have := hgave.2
      have := hb.1
      have := hb₁.2
      omega
    · -- The block lies in another range.
      have hapart := h.ranges.forall hr₁ hr heq
      have hchunks := h.chunks r₁ hr₁
      have hfirst := hc.first
      have hbase := hc.base
      intro address hb hb₁
      have hlow := hb.1
      have hhigh := hb.2
      have hlow₁ := hb₁.1
      have hhigh₁ := hb₁.2
      unfold MemRange.Gave at hgave
      unfold MemRange.Apart at hapart
      unfold MemRange.top NB_CHUNKS SIZE CHUNK_SIZE at *
      omega

/-! ## The calls -/

theorem allocateInRanges_eq_some {ranges ranges' : List MemRange}
    (h : allocateInRanges requestedSize ranges = some (b, ranges')) :
    ∃ l r r' l', ranges = l ++ r :: l' ∧ ranges' = l ++ r' :: l' ∧ r.tryAllocate requestedSize = some (b, r') := by
  induction ranges generalizing ranges' with
  | nil => cases h
  | cons r ranges ih =>
    unfold allocateInRanges at h
    split at h
    · next r' hr =>
      obtain ⟨rfl, rfl⟩ := Prod.mk.inj (Option.some.inj h)
      exact ⟨[], r, _, ranges, rfl, rfl, hr⟩
    · simp only [Option.map_eq_some_iff, Prod.mk.injEq, Prod.exists] at h
      obtain ⟨_, ranges'', hsome, rfl, rfl⟩ := h
      obtain ⟨l, r₁, r₁', l', rfl, rfl, hr⟩ := ih hsome
      exact ⟨r :: l, r₁, r₁', l', rfl, rfl, hr⟩

/-- What an allocation can do: it gives a free block, or carves one from a range, which may be a new one, or gives nothing. -/
theorem allocate_cases (a : ExecutableMemoryAllocator) (requestedSize : Nat) (host : Option Nat) :
    (∃ b free, a.allocate requestedSize host = (some b, { a with freeBlocks := free }) ∧ requestedSize ≤ b.size ∧
      (b :: free).Perm a.freeBlocks) ∨
    (∃ opened l r b r' l', (opened = a.ranges ∨ ∃ base, host = some base ∧ opened = a.ranges ++ [⟨base, 0⟩]) ∧
      opened = l ++ r :: l' ∧ r.tryAllocate requestedSize = some (b, r') ∧
      a.allocate requestedSize host = (some b, { a with ranges := l ++ r' :: l' })) ∨
    (∃ opened, (opened = a.ranges ∨ ∃ base, host = some base ∧ opened = a.ranges ++ [⟨base, 0⟩]) ∧
      a.allocate requestedSize host = (none, { a with ranges := opened })) := by
  unfold allocate
  split
  · next b hb =>
    refine .inl ⟨b, _, rfl, ?_, ?_⟩
    · have hsuitable := List.find?_some hb
      simp only [isSuitable, Bool.and_eq_true, decide_eq_true_eq] at hsuitable
      exact hsuitable.1
    · obtain ⟨-, before, after, hfree, hbefore⟩ := List.find?_eq_some_iff_append.1 hb
      rw [hfree, List.eraseP_append_right _ (by simpa using hbefore), List.eraseP_cons_of_pos (List.find?_some hb)]
      exact List.perm_middle.symm
  · split
    · next b ranges' hsome =>
      obtain ⟨l, r, r', l', hranges, rfl, hr⟩ := allocateInRanges_eq_some hsome
      exact .inr (.inl ⟨_, l, r, b, r', l', .inl rfl, hranges, hr, rfl⟩)
    · split
      · exact .inr (.inr ⟨_, .inl rfl, rfl⟩)
      · next base =>
        split
        · next b r hr => exact .inr (.inl ⟨_, a.ranges, ⟨base, 0⟩, b, r, [], .inr ⟨base, rfl, rfl⟩, rfl, hr, rfl⟩)
        · exact .inr (.inr ⟨_, .inr ⟨base, rfl, rfl⟩, rfl⟩)

/-- The ranges that an allocation looks at, with the one the host gave if it was asked. -/
theorem Inv.opened (h : m.Inv) {opened : List MemRange} {requestedSize : UInt32} {host : Option Nat}
    (hfresh : m.FreshRange (.allocate requestedSize host))
    (hopened : opened = m.allocator.ranges ∨ ∃ base, host = some base ∧ opened = m.allocator.ranges ++ [⟨base, 0⟩]) :
    Inv { m with allocator.ranges := opened } := by
  rcases hopened with rfl | ⟨base, rfl, rfl⟩
  · exact h
  · exact h.open hfresh.2

theorem Inv.step {action : MemoryAction} (h : m.Inv) (hfresh : m.FreshRange action) (hs : m.step action = some m') :
    m'.Inv := by
  cases action with
  | allocate requestedSize host =>
    rcases allocate_cases m.allocator requestedSize.toNat host with ⟨b, free, heq, -, hperm⟩ |
      ⟨opened, l, r, b, r', l', hopened, hranges, hr, heq⟩ | ⟨opened, hopened, heq⟩
    · simp only [ExecutableMemory.step, heq, Option.some.injEq] at hs
      subst hs
      refine h.of_perm rfl ?_
      exact (List.perm_middle.symm.trans (hperm.append_left m.live) :)
    · simp only [ExecutableMemory.step, heq, Option.some.injEq] at hs
      subst hs
      have hinv := h.opened hfresh hopened
      have hmem : r ∈ opened := by rw [hranges]; simp
      exact hinv.carve hranges (tryAllocate_eq_some (hinv.chunks r hmem) requestedSize.toNat_lt hr)
    · simp only [ExecutableMemory.step, heq, Option.some.injEq] at hs
      subst hs
      exact h.opened hfresh hopened
  | free b =>
    simp only [ExecutableMemory.step, Option.ite_none_right_eq_some, Option.some.injEq] at hs
    obtain ⟨hmem, rfl⟩ := hs
    have hlive := List.perm_cons_erase hmem
    unfold ExecutableMemoryAllocator.free
    split
    · refine h.of_perm rfl ?_
      have hperm : (m.live.erase b ++ (m.allocator.freeBlocks ++ [b])).Perm (b :: m.live.erase b ++ m.allocator.freeBlocks) := by
        rw [← List.append_assoc]
        exact List.perm_append_singleton _ _
      exact hperm.trans (hlive.symm.append_right _)
    · exact h.of_sublist rfl (List.erase_sublist.append_right _)

theorem initial_inv : initial.Inv := by
  refine ⟨.nil, ?_, ?_, .nil⟩ <;> simp [initial, blocks]

theorem reachable_inv (h : machine.ReachableUnder FreshRange m) : m.Inv := by
  refine h.invariant Inv ?_ ?_
  · rintro _ rfl
    exact initial_inv
  · intro s action s' _ hinv hfresh hs
    exact hinv.step hfresh hs

/-! ## Sizes -/

/-- An allocation gives a block that is as large as it was asked for and lies in one range, if it gives one. -/
def AllocatesRight (m : ExecutableMemory) (requestedSize : UInt32) (host : Option Nat) : Prop :=
  ∀ b a', m.allocator.allocate requestedSize.toNat host = (some b, a') →
    requestedSize.toNat ≤ b.size ∧ ∃ r ∈ a'.ranges, b.Inside r

theorem Inv.inside (h : m.Inv) (hb : b ∈ m.blocks) : ∃ r ∈ m.allocator.ranges, b.Inside r := by
  obtain ⟨r, hr, hgave⟩ := h.given b hb
  have hchunks := h.chunks r hr
  have htop := hgave.2
  refine ⟨r, hr, hgave.1, ?_⟩
  unfold MemRange.top NB_CHUNKS SIZE CHUNK_SIZE at *
  omega

/-- A recycled or carved block lies in a range, and is large enough unless the size wraps. -/
theorem Inv.allocatesRight (h : m.Inv) {requestedSize : UInt32} {host : Option Nat}
    (hfresh : m.FreshRange (.allocate requestedSize host)) (hsize : requestedSize.toNat ≤ 2 ^ 32 - CHUNK_SIZE) :
    m.AllocatesRight requestedSize host := by
  intro b a' hb
  refine ⟨?_, ?_⟩
  · rcases allocate_cases m.allocator requestedSize.toNat host with ⟨b', free, heq, hle, -⟩ |
      ⟨opened, l, r, b', r', l', hopened, hranges, hr, heq⟩ | ⟨opened, hopened, heq⟩
    · rw [heq] at hb
      cases hb
      exact hle
    · rw [heq] at hb
      cases hb
      have hmem : r ∈ opened := by rw [hranges]; simp
      exact (tryAllocate_eq_some ((h.opened hfresh hopened).chunks r hmem) requestedSize.toNat_lt hr).size hsize
    · rw [heq] at hb
      cases hb
  · have hs : m.step (.allocate requestedSize host) = some ⟨a', b :: m.live⟩ := by
      simp only [ExecutableMemory.step, hb]
      rfl
    exact (h.step hfresh hs).inside (List.mem_append_left _ List.mem_cons_self)

/-- A size that wraps gets no bytes at all, unless there is no range and the host gives none. -/
theorem Inv.allocate_wrapped (h : m.Inv) {requestedSize : UInt32} {host : Option Nat}
    (hsize : 2 ^ 32 - CHUNK_SIZE < requestedSize.toNat) (hright : m.AllocatesRight requestedSize host) :
    m.allocator.ranges = [] ∧ host = none := by
  have hnone : m.allocator.freeBlocks.find? (isSuitable requestedSize.toNat) = none := by
    refine List.find?_eq_none.2 fun b hb hsuitable => ?_
    simp only [isSuitable, Bool.and_eq_true, decide_eq_true_eq] at hsuitable
    obtain ⟨r, -, hinside⟩ := h.inside (b := b) (List.mem_append_right _ hb)
    unfold Inside SIZE at hinside
    unfold CHUNK_SIZE at hsize
    omega
  have hempty : ∀ r : MemRange, r.firstAvailableChunk ≤ NB_CHUNKS → ∃ b r', r.tryAllocate requestedSize.toNat = some (b, r') ∧
      ¬ requestedSize.toNat ≤ b.size := by
    intro r hr
    obtain ⟨⟨b, r'⟩, hsome⟩ := Option.isSome_iff_exists.1 (tryAllocate_wrapped hr requestedSize.toNat_lt hsize)
    refine ⟨b, r', hsome, ?_⟩
    rw [(tryAllocate_eq_some hr requestedSize.toNat_lt hsome).wrapped hsize]
    omega
  cases hranges : m.allocator.ranges with
  | cons r ranges =>
    obtain ⟨b, r', hsome, hlt⟩ := hempty r (h.chunks r (by rw [hranges]; exact List.mem_cons_self))
    refine absurd (hright b { m.allocator with ranges := r' :: ranges } ?_).1 hlt
    unfold allocate
    rw [hnone, hranges]
    simp only [allocateInRanges, hsome]
  | nil =>
    refine ⟨rfl, ?_⟩
    cases host with
    | none => rfl
    | some base =>
      obtain ⟨b, r', hsome, hlt⟩ := hempty ⟨base, 0⟩ (Nat.zero_le _)
      refine absurd (hright b { m.allocator with ranges := [] ++ [r'] } ?_).1 hlt
      unfold allocate
      rw [hnone, hranges]
      simp only [allocateInRanges, hsome]

/-- In every run on fresh ranges of the host, no two blocks have a byte in common, and an allocation gives a block that is large
enough and lies in one range exactly where the size does not wrap, or nothing is given. -/
theorem blocks_apart (h : machine.ReachableUnder FreshRange m) :
    m.blocks.Pairwise MemoryBlock.Apart ∧
      ∀ (requestedSize : UInt32) (host : Option Nat), m.FreshRange (.allocate requestedSize host) →
        (m.AllocatesRight requestedSize host ↔
          requestedSize.toNat ≤ 2 ^ 32 - CHUNK_SIZE ∨ (m.allocator.ranges = [] ∧ host = none)) := by
  have hinv := reachable_inv h
  refine ⟨hinv.apart, fun requestedSize host hfresh => ⟨fun hright => ?_, ?_⟩⟩
  · by_cases hsize : requestedSize.toNat ≤ 2 ^ 32 - CHUNK_SIZE
    · exact .inl hsize
    · exact .inr (hinv.allocate_wrapped (Nat.lt_of_not_le hsize) hright)
  · rintro (hsize | ⟨hranges, rfl⟩)
    · exact hinv.allocatesRight hfresh hsize
    · intro b a' hb
      rcases allocate_cases m.allocator requestedSize.toNat none with ⟨b', free, heq, -, hperm⟩ |
        ⟨opened, l, r, b', r', l', hopened, hsplit, -, heq⟩ | ⟨opened, -, heq⟩
      · obtain ⟨r, hr, -⟩ := hinv.given b' (List.mem_append_right _ (hperm.subset List.mem_cons_self))
        rw [hranges] at hr
        cases hr
      · rcases hopened with rfl | ⟨base, hbase, -⟩
        · rw [hranges] at hsplit
          simp at hsplit
        · cases hbase
      · rw [heq] at hb
        cases hb

/-- A block of 100 bytes is freed and given again for 110, while one of 20 lives. -/
def recycleRun : List MemoryAction :=
  [.allocate 100 (some 0x10000), .allocate 20 none, .free ⟨0x10000, 112⟩, .allocate 110 none]

theorem blocks_apart_sample : ∃ m, machine.run initial recycleRun = some m ∧
    m.live = [⟨0x10000, 112⟩, ⟨0x10070, 32⟩] ∧ m.blocks.Pairwise MemoryBlock.Apart ∧ m.AllocatesRight 500 none := by
  have hrun : (machine.checked FreshRange).run initial recycleRun =
      some ⟨⟨[⟨0x10000, 9⟩], []⟩, [⟨0x10000, 112⟩, ⟨0x10070, 32⟩]⟩ := by decide
  have hreach := (Machine.ReachableUnder.init rfl : machine.ReachableUnder FreshRange initial).run_checked recycleRun hrun
  have hsound := blocks_apart hreach
  exact ⟨_, by decide, rfl, hsound.1, (hsound.2 500 none (by decide)).2 (.inl (by decide))⟩

/-- A size that wraps when it is rounded up is given a block without a byte. -/
theorem blocks_apart_fails : machine.ReachableUnder FreshRange initial ∧
    initial.FreshRange (.allocate 0xFFFFFFF1 (some 0x10000)) ∧ ¬ initial.AllocatesRight 0xFFFFFFF1 (some 0x10000) := by
  refine ⟨.init rfl, ⟨by decide, by simp [initial]⟩, fun hright => ?_⟩
  exact absurd (hright ⟨0x10000, 0⟩ ⟨[⟨0x10000, 0⟩], []⟩ rfl).1 (by decide)

end ExecutableMemory

end X64Emulator
