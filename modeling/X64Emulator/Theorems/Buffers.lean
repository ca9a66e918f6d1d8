import X64Emulator.Buffers

/-!
# Buffers as lists of bytes

Each buffer of a program is a list of bytes, and its members do to the list what their names say. The buffers follow the lists,
share no storage and stay in it as long as every buffer is made with a size that fits in 32 bits; from the first larger size on
they do not.
-/

namespace X64Emulator
namespace Buffers

open Outcome

/-! ## The lists of bytes -/

/-- The bytes of each buffer that exists. -/
abbrev Reference := Nat → Option (List UInt8)

namespace Reference

def set (r : Reference) (b : Nat) (bytes : Option (List UInt8)) : Reference := fun b' => if b' = b then bytes else r b'

/-- A program makes an object only where there is none, uses only objects that exist, shrinks them only to a smaller size and
writes only inside of them. -/
def step (r : Reference) : Op → Option Reference
  | .construct b size => if r b = none then some (r.set b (some (List.replicate size.toNat 0))) else none
  | .constructFilled b size value => if r b = none then some (r.set b (some (List.replicate size.toNat value))) else none
  | .constructFrom b val => if r b = none ∧ val.length < 2 ^ 64 then some (r.set b (some val)) else none
  | .copyConstruct b other => do
    let source ← r other
    if r b = none then some (r.set b (some source)) else none
  | .moveConstruct b other => do
    let source ← r other
    if r b = none then some ((r.set b (some source)).set other (some [])) else none
  | .copyAssign b other => do
    let _ ← r b
    let source ← r other
    some (r.set b (some source))
  | .moveAssign b other => do
    let _ ← r b
    let source ← r other
    if b = other then some r else some ((r.set b (some source)).set other (some []))
  | .shrink b newSize => do
    let bytes ← r b
    if newSize.toNat ≤ bytes.length then some (r.set b (some (bytes.take newSize.toNat))) else none
  | .write b i value => do
    let bytes ← r b
    if i.toNat < bytes.length then some (r.set b (some (bytes.set i.toNat value))) else none
  | .destroy b => do
    let _ ← r b
    some (r.set b none)

def run (ops : List Op) : Option Reference := ops.foldlM step fun _ => none

end Reference

/-- The size with which an operation makes a buffer. -/
def Op.size : Op → Nat
  | .construct _ size => size.toNat
  | .constructFilled _ size _ => size.toNat
  | .constructFrom _ val => val.length
  | _ => 0

section Refinement

variable (InlineBytes : Nat) (garbage : Nat → UInt8)

/-- The buffers are the lists: they have their sizes and contents, and no two of them have the same block. -/
structure Refines (s : State) (r : Reference) : Prop where
  exist : ∀ b, s.buffers b = none ↔ r b = none
  size : ∀ b buffer bytes, s.buffers b = some buffer → r b = some bytes → buffer.size.toNat = bytes.length
  contents : ∀ b buffer bytes, s.buffers b = some buffer → r b = some bytes →
    contents InlineBytes s.blocks buffer = .ok bytes
  apart : ∀ b b' buffer buffer' ptr, s.buffers b = some buffer → s.buffers b' = some buffer' →
    buffer.data = .heapBuffer ptr → buffer'.data = .heapBuffer ptr → b = b'

/-- After every part of the program the buffers are the lists, and no access has left their storage. -/
def Refined (ops : List Op) : Prop :=
  ∀ part, part <+: ops → ∃ s r, State.run InlineBytes garbage part = .ok s ∧ Reference.run part = some r ∧
    Refines InlineBytes s r

end Refinement

/-! ## One buffer -/

section Storage

variable {InlineBytes : Nat} {garbage : Nat → UInt8} {blocks blocks' : Blocks} {b : SVOBuffer} {l : List UInt8}

/-- The buffer holds the bytes: in the object up to the inline size, in a block beyond it. -/
def Holds (InlineBytes : Nat) (blocks : Blocks) (b : SVOBuffer) (l : List UInt8) : Prop :=
  b.size.toNat = l.length ∧
  ((l.length ≤ InlineBytes ∧ ∃ rest, b.data = .stackBuffer (l ++ rest) ∧ (l ++ rest).length = InlineBytes) ∨
    (InlineBytes < l.length ∧ ∃ ptr rest, b.data = .heapBuffer ptr ∧ blocks.get? ptr = some (l ++ rest)))

theorem readBytes_append (l rest : List UInt8) : readBytes (l ++ rest) l.length = .ok l := by
  simp [readBytes, check, ok_bind]

theorem readBytes_all {l : List UInt8} {n : Nat} (h : l.length = n) : readBytes l n = .ok l := by
  subst h
  simp [readBytes, check, ok_bind]

theorem writeBytes_zero {storage bytes : List UInt8} (h : bytes.length ≤ storage.length) :
    writeBytes storage 0 bytes = .ok (bytes ++ storage.drop bytes.length) := by
  simp [writeBytes, check, h, ok_bind, Patching.overwrite]

theorem writeBytes_same {storage bytes : List UInt8} (h : bytes.length = storage.length) :
    writeBytes storage 0 bytes = .ok bytes := by
  rw [writeBytes_zero (Nat.le_of_eq h), h, List.drop_length, List.append_nil]

theorem Holds.congr (h : Holds InlineBytes blocks b l)
    (hsame : ∀ ptr, b.data = .heapBuffer ptr → blocks'.get? ptr = blocks.get? ptr) : Holds InlineBytes blocks' b l := by
  obtain ⟨hsize, hstorage⟩ := h
  refine ⟨hsize, hstorage.imp_right ?_⟩
  rintro ⟨hlt, ptr, rest, hdata, hget⟩
  exact ⟨hlt, ptr, rest, hdata, (hsame ptr hdata).trans hget⟩

theorem Holds.contents (h : Holds InlineBytes blocks b l) : contents InlineBytes blocks b = .ok l := by
  obtain ⟨hsize, ⟨hle, rest, hdata, -⟩ | ⟨hlt, ptr, rest, hdata, hget⟩⟩ := h
  · simp [Buffers.contents, storage, hsize, hle, hdata, Data.stack, ok_bind, readBytes_append]
  · simp [Buffers.contents, storage, hsize, Nat.not_le.2 hlt, hdata, Data.heap, block, hget, ok_bind, readBytes_append]

/-- The block of a buffer, if it has one, is allocated. -/
theorem Holds.live (h : Holds InlineBytes blocks b l) {ptr : Nat} (hdata : b.data = .heapBuffer ptr) : blocks.Live ptr := by
  obtain ⟨-, ⟨-, rest, hdata', -⟩ | ⟨-, ptr', rest, hdata', hget⟩⟩ := h
  · rw [hdata] at hdata'
    cases hdata'
  · rw [hdata] at hdata'
    cases hdata'
    exact ⟨_, hget⟩

/-- What an operation on one buffer leaves of the blocks: those that were allocated and are not the buffer's. -/
def Keeps (blocks blocks' : Blocks) (mine : Nat → Prop) : Prop :=
  ∀ ptr, blocks.Live ptr → ¬ mine ptr → blocks'.get? ptr = blocks.get? ptr

theorem writeBlock_ok {ptr position : Nat} {storage new bytes : List UInt8} (hget : blocks.get? ptr = some storage)
    (hwrite : writeBytes storage position bytes = .ok new) :
    writeBlock blocks ptr position bytes = .ok (blocks.modify ptr fun _ => new) := by
  simp [writeBlock, block, hget, hwrite, ok_bind]

/-- Filling a block of the right size that has just been allocated. -/
theorem fill_fresh (garbage : Nat → UInt8) (blocks : Blocks) {n : Nat} {bytes : List UInt8} (hn : bytes.length = n) :
    ∃ blocks', writeBlock (malloc garbage blocks n).2 blocks.next 0 bytes = .ok blocks' ∧
      blocks'.get? blocks.next = some bytes ∧ Keeps blocks blocks' fun _ => False := by
  refine ⟨_, writeBlock_ok Heap.get?_alloc_next (writeBytes_same (by simpa using hn)), ?_, ?_⟩
  · rw [Heap.get?_modify_self, malloc, Heap.get?_alloc_next]
    rfl
  · intro ptr hlive _
    have hne : ptr ≠ blocks.next := Nat.ne_of_lt hlive.lt_next
    rw [Heap.get?_modify_of_ne hne, malloc, Heap.get?_alloc_of_ne hne]

theorem toNat_toUInt32 {size : UInt64} (h : size.toNat < 2 ^ 32) : size.toUInt32.toNat = size.toNat := by
  simpa using h

/-- What `construct` makes of a size that fits. -/
theorem construct_spec (InlineBytes : Nat) (garbage : Nat → UInt8) (blocks : Blocks) {size : UInt64}
    (hsize : size.toNat < 2 ^ 32) :
    ∃ blocks' b, construct InlineBytes garbage blocks size = .ok (blocks', b) ∧
      Holds InlineBytes blocks' b (List.replicate size.toNat 0) ∧ (Keeps blocks blocks' fun _ => False) ∧
      ∀ ptr, b.data = .heapBuffer ptr → ptr = blocks.next := by
  unfold construct
  split
  · next hle =>
    refine ⟨_, _, rfl, ⟨by simp [toNat_toUInt32 hsize],
      .inl ⟨by simpa using hle, List.replicate (InlineBytes - size.toNat) 0, ?_, ?_⟩⟩, fun _ _ _ => rfl, by simp⟩
    · rw [List.replicate_append_replicate, Nat.add_sub_cancel' hle]
    · simp [hle]
  · next hlt =>
    have hlength : (List.replicate size.toNat (0 : UInt8)).length = size.toNat := List.length_replicate
    obtain ⟨blocks', hfill, hget, hkeeps⟩ := fill_fresh garbage blocks hlength
    refine ⟨blocks', ⟨.heapBuffer blocks.next, size.toUInt32⟩, ?_, ⟨by simp [toNat_toUInt32 hsize],
      .inr ⟨by simpa using hlt, blocks.next, [], rfl, by simpa using hget⟩⟩, hkeeps, by simp⟩
    simp only [malloc] at hfill ⊢
    simp [hfill, ok_bind]

/-- What a write inside of the bytes does to them. -/
theorem writeData_spec (h : Holds InlineBytes blocks b l) (position : Nat) (bytes : List UInt8)
    (hin : position + bytes.length ≤ l.length) :
    ∃ blocks' b', writeData InlineBytes blocks b position bytes = .ok (blocks', b') ∧
      Holds InlineBytes blocks' b' (Patching.overwrite l position bytes) ∧
      (Keeps blocks blocks' fun ptr => b.data = .heapBuffer ptr) ∧
      ∀ ptr, b'.data = .heapBuffer ptr → b.data = .heapBuffer ptr := by
  have hlength := Patching.length_overwrite hin
  have hwrite : ∀ rest, writeBytes (l ++ rest) position bytes = .ok (Patching.overwrite l position bytes ++ rest) := by
    intro rest
    have hle : position + bytes.length ≤ (l ++ rest).length := by
      rw [List.length_append]
      omega
    have hsame : Patching.overwrite (l ++ rest) position bytes = Patching.overwrite l position bytes ++ rest := by
      rw [Patching.overwrite, Patching.overwrite, List.take_append_of_le_length (by omega),
        List.drop_append_of_le_length hin, List.append_assoc, List.append_assoc, List.append_assoc]
    rw [writeBytes, check, if_pos hle, ok_bind, hsame]
  obtain ⟨hsize, ⟨hle, rest, hdata, hrest⟩ | ⟨hlt, ptr, rest, hdata, hget⟩⟩ := h
  · refine ⟨blocks, { b with data := .stackBuffer (Patching.overwrite l position bytes ++ rest) }, ?_,
      ⟨?_, .inl ⟨?_, rest, rfl, ?_⟩⟩, fun _ _ _ => rfl, by simp⟩
    · simp [writeData, hsize, hle, hdata, Data.stack, ok_bind, hwrite]
    · rw [hlength]
      exact hsize
    · rwa [hlength]
    · rwa [List.length_append, hlength, ← List.length_append]
  · refine ⟨blocks.modify ptr fun _ => Patching.overwrite l position bytes ++ rest, b, ?_,
      ⟨?_, .inr ⟨?_, ptr, rest, hdata, ?_⟩⟩, ?_, fun _ h => h⟩
    · simp [writeData, hsize, Nat.not_le.2 hlt, hdata, Data.heap, ok_bind, writeBlock_ok hget (hwrite rest)]
    · rw [hlength]
      exact hsize
    · rwa [hlength]
    · rw [Heap.get?_modify_self, hget]
      rfl
    · intro ptr' _ hmine
      exact Heap.get?_modify_of_ne fun heq => hmine (heq ▸ hdata)

theorem free_ok {ptr : Nat} {bytes : List UInt8} (hget : blocks.get? ptr = some bytes) :
    free blocks ptr = .ok (blocks.freeAll [ptr]) := by
  simp [free, block, hget, ok_bind]

theorem destroy_spec (h : Holds InlineBytes blocks b l) :
    ∃ blocks', destroy InlineBytes blocks b = .ok blocks' ∧ (Keeps blocks blocks' fun ptr => b.data = .heapBuffer ptr) ∧
      blocks'.next = blocks.next := by
  obtain ⟨hsize, ⟨hle, -, -, -⟩ | ⟨hlt, ptr, rest, hdata, hget⟩⟩ := h
  · exact ⟨blocks, by simp [destroy, hsize, Nat.not_lt.2 hle], fun _ _ _ => rfl, rfl⟩
  · refine ⟨blocks.freeAll [ptr], ?_, ?_, Heap.next_freeAll⟩
    · simp [destroy, hsize, hlt, hdata, Data.heap, ok_bind, free_ok hget]
    · intro ptr' _ hmine
      refine Heap.get?_freeAll_of_not_mem ?_
      intro hmem
      exact hmine (List.mem_singleton.1 hmem ▸ hdata)

theorem copyConstruct_spec (garbage : Nat → UInt8) {other : SVOBuffer} (h : Holds InlineBytes blocks other l) :
    ∃ blocks' b, copyConstruct InlineBytes garbage blocks other = .ok (blocks', b) ∧ Holds InlineBytes blocks' b l ∧
      (Keeps blocks blocks' fun _ => False) ∧ ∀ ptr, b.data = .heapBuffer ptr → ptr = blocks.next := by
  have hother : other.size.toUInt64.toNat < 2 ^ 32 := by simpa using other.size.toNat_lt
  obtain ⟨blocks₁, b, hconstruct, hholds, hkeeps, hfresh⟩ :=
    construct_spec InlineBytes garbage blocks hother
  have hother : Holds InlineBytes blocks₁ other l := h.congr fun ptr hdata => hkeeps ptr (h.live hdata) id
  have hsize : b.size.toNat = l.length := by simpa [h.1] using hholds.1
  obtain ⟨-, ⟨hle, rest, hdata, hrest⟩ | ⟨hgt, source, rest, hdata, hget⟩⟩ := hother
  · refine ⟨blocks₁, { b with data := .stackBuffer (l ++ rest) }, ?_, ⟨hsize, .inl ⟨hle, rest, rfl, hrest⟩⟩, hkeeps, by simp⟩
    simp [copyConstruct, hconstruct, ok_bind, hsize, hle, hdata, Data.stack, readBytes_all hrest]
  · obtain ⟨-, ⟨hle, -, -, -⟩ | ⟨-, ptr, rest', hptr, hget'⟩⟩ := hholds
    · simp [h.1] at hle
      omega
    · have hlength : l.length = (List.replicate other.size.toUInt64.toNat (0 : UInt8)).length := by simp [h.1]
      have hwrite : writeBytes (List.replicate other.size.toUInt64.toNat 0 ++ rest') 0 l = .ok (l ++ rest') := by
        rw [writeBytes_zero (by rw [List.length_append]; omega), hlength, List.drop_left]
      refine ⟨blocks₁.modify ptr fun _ => l ++ rest', b, ?_, ⟨hsize, .inr ⟨hgt, ptr, rest', hptr, ?_⟩⟩, ?_, hfresh⟩
      · have hread : readBytes (l ++ rest) b.size.toNat = .ok l := hsize ▸ readBytes_append l rest
        simp only [copyConstruct, hconstruct, ok_bind, hsize, Nat.not_le.2 hgt, if_false, hdata, Data.heap, hptr, block, hget]
        rw [← hsize, hread, ok_bind, writeBlock_ok hget' hwrite, ok_bind]
      · rw [Heap.get?_modify_self, hget']
        rfl
      · intro ptr' hlive hmine
        have hne : ptr' ≠ ptr := fun heq => absurd hlive.lt_next (by rw [heq, hfresh ptr hptr]; exact Nat.lt_irrefl _)
        rw [Heap.get?_modify_of_ne hne]
        exact hkeeps ptr' hlive hmine

theorem copyAssign_spec (garbage : Nat → UInt8) {other : SVOBuffer} {l' : List UInt8}
    (h : Holds InlineBytes blocks b l') (hother : Holds InlineBytes blocks other l)
    (hapart : ∀ ptr, b.data = .heapBuffer ptr → other.data ≠ .heapBuffer ptr) :
    ∃ blocks' b', copyAssign InlineBytes garbage blocks b other = .ok (blocks', b') ∧ Holds InlineBytes blocks' b' l ∧
      (Keeps blocks blocks' fun ptr => b.data = .heapBuffer ptr) ∧ ∀ ptr, b'.data = .heapBuffer ptr → ptr = blocks.next := by
  obtain ⟨blocks₁, hdestroy, hkeeps, hnext⟩ := destroy_spec h
  have hother₁ : Holds InlineBytes blocks₁ other l :=
    hother.congr fun ptr hdata => hkeeps ptr (hother.live hdata) fun hmine => hapart ptr hmine hdata
  obtain ⟨hsize, ⟨hle, rest, hdata, hrest⟩ | ⟨hgt, source, rest, hdata, hget⟩⟩ := hother₁
  · refine ⟨blocks₁, ⟨.stackBuffer (l ++ rest), other.size⟩, ?_, ⟨hsize, .inl ⟨hle, rest, rfl, hrest⟩⟩, hkeeps, by simp⟩
    simp [copyAssign, hdestroy, ok_bind, hsize, hle, hdata, Data.stack, readBytes_all hrest]
  · obtain ⟨blocks₂, hfill, hget₂, hkeeps₂⟩ :=
      fill_fresh garbage blocks₁ hsize.symm
    have hsource : (malloc garbage blocks₁ other.size.toNat).2.get? source = some (l ++ rest) := by
      have hne : source ≠ blocks₁.next := Nat.ne_of_lt (Heap.Live.lt_next ⟨_, hget⟩)
      rw [malloc, Heap.get?_alloc_of_ne hne, hget]
    refine ⟨blocks₂, ⟨.heapBuffer blocks₁.next, other.size⟩, ?_,
      ⟨hsize, .inr ⟨hgt, blocks₁.next, [], rfl, by simpa using hget₂⟩⟩, ?_, ?_⟩
    · have hread : readBytes (l ++ rest) other.size.toNat = .ok l := hsize ▸ readBytes_append l rest
      simp only [malloc] at hfill hsource
      simp only [copyAssign, hdestroy, ok_bind, hsize, Nat.not_le.2 hgt, if_false, hdata, Data.heap, malloc, block]
      rw [← hsize, hsource, ok_bind, hread, ok_bind, hfill, ok_bind]
    · intro ptr hlive hmine
      have hsame := hkeeps ptr hlive hmine
      have hlive₁ : blocks₁.Live ptr := by
        obtain ⟨bytes, hbytes⟩ := hlive
        exact ⟨bytes, hsame.trans hbytes⟩
      exact (hkeeps₂ ptr hlive₁ id).trans hsame
    · intro ptr hptr
      rw [← Data.heapBuffer.inj hptr, hnext]

theorem shrink_spec {newSize : UInt64} (h : Holds InlineBytes blocks b l) (hle : newSize.toNat ≤ l.length) :
    ∃ blocks' b', shrink InlineBytes blocks b newSize = .ok (blocks', b') ∧ Holds InlineBytes blocks' b' (l.take newSize.toNat) ∧
      (Keeps blocks blocks' fun ptr => b.data = .heapBuffer ptr) ∧
      ∀ ptr, b'.data = .heapBuffer ptr → b.data = .heapBuffer ptr := by
  have hbound := b.size.toNat_lt
  have hnew : newSize.toUInt32.toNat = (l.take newSize.toNat).length := by
    rw [toNat_toUInt32 (by rw [← h.1] at hle; omega), List.length_take, Nat.min_eq_left hle]
  have hlength : (l.take newSize.toNat).length = newSize.toNat := by rw [List.length_take, Nat.min_eq_left hle]
  have hsplit : ∀ rest, l ++ rest = l.take newSize.toNat ++ (l.drop newSize.toNat ++ rest) := by
    intro rest
    rw [← List.append_assoc, List.take_append_drop]
  by_cases heq : newSize.toNat = l.length
  · refine ⟨blocks, b, ?_, ?_, fun _ _ _ => rfl, fun _ h => h⟩
    · simp [shrink, check, h.1, heq, ok_bind]
    · rwa [heq, List.take_length]
  · obtain ⟨hsize, ⟨hin, rest, hdata, hrest⟩ | ⟨hgt, ptr, rest, hdata, hget⟩⟩ := h
    · refine ⟨blocks, { b with size := newSize.toUInt32 }, ?_, ⟨hnew, .inl ⟨by omega, l.drop newSize.toNat ++ rest, ?_, ?_⟩⟩,
        fun _ _ _ => rfl, fun _ h => h⟩
      · simp [shrink, check, hsize, hle, heq, hin, ok_bind]
      · rw [← hsplit]
        exact hdata
      · rwa [← hsplit]
    · by_cases hheap : InlineBytes < newSize.toNat
      · refine ⟨blocks, { b with size := newSize.toUInt32 }, ?_,
          ⟨hnew, .inr ⟨by omega, ptr, l.drop newSize.toNat ++ rest, hdata, ?_⟩⟩, fun _ _ _ => rfl, fun _ h => h⟩
        · simp [shrink, check, hsize, hle, heq, Nat.not_le.2 hgt, hheap, ok_bind]
        · rw [← hsplit]
          exact hget
      · -- the first bytes of the block go back into the object
        have hread : readBytes (l ++ rest) InlineBytes = .ok ((l ++ rest).take InlineBytes) := by
          rw [readBytes, check, if_pos (by rw [List.length_append]; omega), ok_bind]
        have htake : (l ++ rest).take InlineBytes =
            l.take newSize.toNat ++ ((l ++ rest).take InlineBytes).drop newSize.toNat := by
          have hfirst : ((l ++ rest).take InlineBytes).take newSize.toNat = l.take newSize.toNat := by
            rw [List.take_take, Nat.min_eq_left (by omega), List.take_append_of_le_length hle]
          rw [← hfirst, List.take_append_drop]
        refine ⟨blocks.freeAll [ptr], ⟨.stackBuffer ((l ++ rest).take InlineBytes), newSize.toUInt32⟩, ?_,
          ⟨hnew, .inl ⟨by omega, _, congrArg Data.stackBuffer htake, ?_⟩⟩, ?_, by simp⟩
        · simp [shrink, check, hsize, hle, heq, Nat.not_le.2 hgt, hheap, ok_bind, hdata, Data.heap, block, hget, hread,
            free_ok hget]
        · rw [← htake, List.length_take, List.length_append]
          omega
        · intro ptr' _ hmine
          refine Heap.get?_freeAll_of_not_mem ?_
          intro hmem
          exact hmine (List.mem_singleton.1 hmem ▸ hdata)

end Storage

/-! ## The buffers of a program -/

section Programs

variable {InlineBytes : Nat} {garbage : Nat → UInt8} {s : State} {r : Reference}

/-- Every buffer holds its bytes, in a block of its own if it has one. -/
structure Inv (InlineBytes : Nat) (s : State) (r : Reference) : Prop where
  each : ∀ b, (s.buffers b = none ∧ r b = none) ∨
    ∃ buffer bytes, s.buffers b = some buffer ∧ r b = some bytes ∧ Holds InlineBytes s.blocks buffer bytes
  apart : ∀ b b' buffer buffer' ptr, s.buffers b = some buffer → s.buffers b' = some buffer' →
    buffer.data = .heapBuffer ptr → buffer'.data = .heapBuffer ptr → b = b'

theorem inv_initial : Inv InlineBytes .initial fun _ => none where
  each _ := .inl ⟨rfl, rfl⟩
  apart _ _ _ _ _ h := nomatch h

variable {bytes : List UInt8} {buffer : SVOBuffer}

theorem Inv.holds (h : Inv InlineBytes s r) {b : Nat} (hb : r b = some bytes) :
    ∃ buffer, s.buffers b = some buffer ∧ Holds InlineBytes s.blocks buffer bytes := by
  rcases h.each b with ⟨-, hnone⟩ | ⟨buffer, bytes', hbuffer, hbytes, hholds⟩
  · rw [hb] at hnone
    cases hnone
  · rw [hb] at hbytes
    cases hbytes
    exact ⟨buffer, hbuffer, hholds⟩

theorem Inv.vacant (h : Inv InlineBytes s r) {b : Nat} (hb : r b = none) : s.buffers b = none := by
  rcases h.each b with ⟨hnone, -⟩ | ⟨buffer, bytes, -, hbytes, -⟩
  · exact hnone
  · rw [hb] at hbytes
    cases hbytes

theorem Inv.refines (h : Inv InlineBytes s r) : Refines InlineBytes s r := by
  have hsome : ∀ b buffer bytes, s.buffers b = some buffer → r b = some bytes → Holds InlineBytes s.blocks buffer bytes := by
    intro b buffer bytes hbuffer hbytes
    obtain ⟨buffer', hbuffer', hholds⟩ := h.holds hbytes
    rw [hbuffer] at hbuffer'
    cases hbuffer'
    exact hholds
  constructor
  · intro b
    rcases h.each b with ⟨hnone, hnone'⟩ | ⟨buffer, bytes, hbuffer, hbytes, -⟩
    · simp [hnone, hnone']
    · simp [hbuffer, hbytes]
  · exact fun b buffer bytes hbuffer hbytes => (hsome b buffer bytes hbuffer hbytes).1
  · exact fun b buffer bytes hbuffer hbytes => (hsome b buffer bytes hbuffer hbytes).contents
  · exact h.apart

/-- What an operation on one buffer keeps of the others. -/
theorem Inv.keeps (h : Inv InlineBytes s r) {b : Nat} {blocks : Blocks} {mine : Nat → Prop} (hkeeps : Keeps s.blocks blocks mine)
    (hmine : ∀ ptr, mine ptr → ∃ buffer, s.buffers b = some buffer ∧ buffer.data = .heapBuffer ptr) {b' : Nat} (hne : b' ≠ b)
    (hbuffer : s.buffers b' = some buffer)
    (hholds : Holds InlineBytes s.blocks buffer bytes) : Holds InlineBytes blocks buffer bytes := by
  refine hholds.congr fun ptr hdata => hkeeps ptr (hholds.live hdata) fun hptr => ?_
  obtain ⟨buffer', hbuffer', hdata'⟩ := hmine ptr hptr
  exact hne (h.apart b' b buffer buffer' ptr hbuffer hbuffer' hdata hdata')

/-- A buffer is made anew, or changed. -/
theorem Inv.set (h : Inv InlineBytes s r) {b : Nat} {blocks : Blocks} {mine : Nat → Prop}
    (hkeeps : Keeps s.blocks blocks mine)
    (hmine : ∀ ptr, mine ptr → ∃ buffer, s.buffers b = some buffer ∧ buffer.data = .heapBuffer ptr)
    (hholds : Holds InlineBytes blocks buffer bytes)
    (hown : ∀ ptr, buffer.data = .heapBuffer ptr → ¬ s.blocks.Live ptr ∨
      ∃ buffer, s.buffers b = some buffer ∧ buffer.data = .heapBuffer ptr) :
    Inv InlineBytes (s.set b blocks (some buffer)) (r.set b (some bytes)) := by
  have hother : ∀ b' buffer' ptr, b' ≠ b → s.buffers b' = some buffer' → buffer'.data = .heapBuffer ptr →
      buffer.data ≠ .heapBuffer ptr := by
    intro b' buffer' ptr hne hbuffer' hdata' hdata
    rcases hown ptr hdata with hfresh | ⟨buffer₀, hbuffer₀, hdata₀⟩
    · rcases h.each b' with ⟨hnone, -⟩ | ⟨buffer'', bytes', hbuffer'', -, hholds'⟩
      · simp [hbuffer'] at hnone
      · rw [hbuffer'] at hbuffer''
        cases hbuffer''
        exact hfresh (hholds'.live hdata')
    · exact hne (h.apart b' b buffer' buffer₀ ptr hbuffer' hbuffer₀ hdata' hdata₀)
  constructor
  · intro b'
    by_cases hb : b' = b
    · right
      exact ⟨buffer, bytes, by simp [State.set, hb], by simp [Reference.set, hb], hholds⟩
    · rcases h.each b' with ⟨hnone, hnone'⟩ | ⟨buffer', bytes', hbuffer', hbytes', hholds'⟩
      · exact .inl ⟨by simpa [State.set, hb] using hnone, by simpa [Reference.set, hb] using hnone'⟩
      · exact .inr ⟨buffer', bytes', by simpa [State.set, hb] using hbuffer', by simpa [Reference.set, hb] using hbytes',
          h.keeps hkeeps hmine hb hbuffer' hholds'⟩
  · intro b₁ b₂ x y ptr hx hy hxdata hydata
    simp only [State.set] at hx hy
    split at hx <;> split at hy
    · next h₁ h₂ => rw [h₁, h₂]
    · next h₁ h₂ =>
      cases hx
      exact absurd hxdata (hother b₂ y ptr h₂ hy hydata)
    · next h₁ h₂ =>
      cases hy
      exact absurd hydata (hother b₁ x ptr h₁ hx hxdata)
    · exact h.apart b₁ b₂ x y ptr hx hy hxdata hydata

/-- A buffer is destroyed. -/
theorem Inv.remove (h : Inv InlineBytes s r) {b : Nat} {blocks : Blocks} {mine : Nat → Prop} (hkeeps : Keeps s.blocks blocks mine)
    (hmine : ∀ ptr, mine ptr → ∃ buffer, s.buffers b = some buffer ∧ buffer.data = .heapBuffer ptr) :
    Inv InlineBytes (s.set b blocks none) (r.set b none) := by
  constructor
  · intro b'
    by_cases hb : b' = b
    · exact .inl ⟨by simp [State.set, hb], by simp [Reference.set, hb]⟩
    · rcases h.each b' with ⟨hnone, hnone'⟩ | ⟨buffer', bytes', hbuffer', hbytes', hholds'⟩
      · exact .inl ⟨by simpa [State.set, hb] using hnone, by simpa [Reference.set, hb] using hnone'⟩
      · exact .inr ⟨buffer', bytes', by simpa [State.set, hb] using hbuffer', by simpa [Reference.set, hb] using hbytes',
          h.keeps hkeeps hmine hb hbuffer' hholds'⟩
  · intro b₁ b₂ x y ptr hx hy hxdata hydata
    simp only [State.set] at hx hy
    split at hx <;> split at hy
    · cases hx
    · cases hx
    · cases hy
    · exact h.apart b₁ b₂ x y ptr hx hy hxdata hydata

theorem holds_movedFrom (blocks : Blocks) : Holds InlineBytes blocks (movedFrom InlineBytes) [] :=
  ⟨rfl, .inl ⟨Nat.zero_le _, List.replicate InlineBytes 0, rfl, by simp⟩⟩

/-- A buffer moves to where there is none. -/
theorem Inv.move (h : Inv InlineBytes s r) {b other : Nat} (hb : s.buffers b = none)
    (hother : s.buffers other = some buffer) (hbytes : r other = some bytes) :
    Inv InlineBytes ((s.set b s.blocks (some buffer)).set other s.blocks (some (movedFrom InlineBytes)))
      ((r.set b (some bytes)).set other (some [])) := by
  have hne : b ≠ other := fun heq => by simp [heq, hother] at hb
  have hholds : Holds InlineBytes s.blocks buffer bytes := by
    obtain ⟨buffer', hbuffer', hholds⟩ := h.holds hbytes
    rw [hother] at hbuffer'
    cases hbuffer'
    exact hholds
  constructor
  · intro b'
    by_cases hb' : b' = other
    · exact .inr ⟨movedFrom InlineBytes, [], by simp [State.set, hb'], by simp [Reference.set, hb'], holds_movedFrom _⟩
    · by_cases hb'' : b' = b
      · exact .inr ⟨buffer, bytes, by simp [State.set, hb'', hne], by simp [Reference.set, hb'', hne], hholds⟩
      · rcases h.each b' with ⟨hnone, hnone'⟩ | ⟨buffer', bytes', hbuffer', hbytes', hholds'⟩
        · exact .inl ⟨by simpa [State.set, hb', hb''] using hnone, by simpa [Reference.set, hb', hb''] using hnone'⟩
        · exact .inr ⟨buffer', bytes', by simpa [State.set, hb', hb''] using hbuffer',
            by simpa [Reference.set, hb', hb''] using hbytes', hholds'⟩
  · -- the block of the buffer goes from one object to the other
    have hcases : ∀ b' x ptr,
        ((s.set b s.blocks (some buffer)).set other s.blocks (some (movedFrom InlineBytes))).buffers b' = some x →
        x.data = .heapBuffer ptr → b' ≠ other ∧ ((b' = b ∧ x = buffer) ∨ (b' ≠ b ∧ s.buffers b' = some x)) := by
      intro b' x ptr hx hdata
      simp only [State.set] at hx
      split at hx
      · cases hx
        cases hdata
      · next hb' =>
        refine ⟨hb', ?_⟩
        split at hx
        · next hb'' => exact .inl ⟨hb'', (Option.some.inj hx).symm⟩
        · next hb'' => exact .inr ⟨hb'', hx⟩
    intro b₁ b₂ x y ptr hx hy hxdata hydata
    obtain ⟨hne₁, hfrom₁⟩ := hcases b₁ x ptr hx hxdata
    obtain ⟨hne₂, hfrom₂⟩ := hcases b₂ y ptr hy hydata
    rcases hfrom₁ with ⟨rfl, rfl⟩ | ⟨-, hfrom₁⟩ <;> rcases hfrom₂ with ⟨rfl, rfl⟩ | ⟨-, hfrom₂⟩
    · rfl
    · exact absurd (h.apart b₂ other y x ptr hfrom₂ hother hydata hxdata) hne₂
    · exact absurd (h.apart b₁ other x y ptr hfrom₁ hother hxdata hydata) hne₁
    · exact h.apart b₁ b₂ x y ptr hfrom₁ hfrom₂ hxdata hydata

theorem State.set_set (s : State) (b : Nat) (blocks blocks' : Blocks) (x y : Option SVOBuffer) :
    (s.set b blocks x).set b blocks' y = s.set b blocks' y := by
  simp only [State.set, State.mk.injEq, true_and]
  funext b'
  split <;> rfl

theorem Reference.set_set (r : Reference) (b : Nat) (x y : Option (List UInt8)) : (r.set b x).set b y = r.set b y := by
  funext b'
  simp only [Reference.set]
  split <;> rfl

/-- A buffer that is made where there was none. -/
theorem Inv.make (h : Inv InlineBytes s r) {b : Nat} {blocks : Blocks}
    (hkeeps : Keeps s.blocks blocks fun _ => False) (hholds : Holds InlineBytes blocks buffer bytes)
    (hfresh : ∀ ptr, buffer.data = .heapBuffer ptr → ptr = s.blocks.next) :
    Inv InlineBytes (s.set b blocks (some buffer)) (r.set b (some bytes)) :=
  h.set hkeeps (fun _ hmine => hmine.elim) hholds fun ptr hdata => .inl fun hlive => by
    have hlt := hlive.lt_next
    rw [hfresh ptr hdata] at hlt
    exact Nat.lt_irrefl _ hlt

/-- A buffer is made and all of its bytes are written. -/
theorem constructWith_spec (InlineBytes : Nat) (garbage : Nat → UInt8) (blocks : Blocks) {size : UInt64}
    (hsize : size.toNat < 2 ^ 32) (hlength : bytes.length = size.toNat) :
    ∃ blocks₁ b₁ blocks₂ b₂, construct InlineBytes garbage blocks size = .ok (blocks₁, b₁) ∧ b₁.size.toNat = bytes.length ∧
      writeData InlineBytes blocks₁ b₁ 0 bytes = .ok (blocks₂, b₂) ∧ Holds InlineBytes blocks₂ b₂ bytes ∧
      (Keeps blocks blocks₂ fun _ => False) ∧ ∀ ptr, b₂.data = .heapBuffer ptr → ptr = blocks.next := by
  obtain ⟨blocks₁, b₁, hconstruct, hholds, hkeeps, hfresh⟩ :=
    construct_spec InlineBytes garbage blocks hsize
  obtain ⟨blocks₂, b₂, hwrite, hholds₂, hkeeps₂, hown⟩ := writeData_spec hholds 0 bytes (by simp [hlength])
  refine ⟨blocks₁, b₁, blocks₂, b₂, hconstruct, by simpa [hlength] using hholds.1, hwrite, ?_, ?_,
    fun ptr hdata => hfresh ptr (hown ptr hdata)⟩
  · simpa [Patching.overwrite, hlength] using hholds₂
  · intro ptr hlive hmine
    have hsame := hkeeps ptr hlive hmine
    have hlive₁ : blocks₁.Live ptr := by
      obtain ⟨bytes, hbytes⟩ := hlive
      exact ⟨bytes, hsame.trans hbytes⟩
    refine (hkeeps₂ ptr hlive₁ fun hdata => ?_).trans hsame
    exact absurd hlive.lt_next (by rw [hfresh ptr hdata]; exact Nat.lt_irrefl _)

/-- One operation that the lists allow, with a size that fits. -/
theorem step_spec (garbage : Nat → UInt8) {r' : Reference} {op : Op} (h : Inv InlineBytes s r) (hstep : r.step op = some r')
    (hsize : op.size < 2 ^ 32) :
    ∃ s', s.step InlineBytes garbage op = .ok s' ∧ Inv InlineBytes s' r' := by
  cases op with
  | construct b size =>
    simp only [Reference.step] at hstep
    split at hstep
    · next hb =>
      cases hstep
      obtain ⟨blocks, buffer, hconstruct, hholds, hkeeps, hfresh⟩ :=
        construct_spec InlineBytes garbage s.blocks hsize
      exact ⟨_, by simp [State.step, State.vacant, check, h.vacant hb, hconstruct, ok_bind], h.make hkeeps hholds hfresh⟩
    · cases hstep
  | constructFilled b size value =>
    simp only [Reference.step] at hstep
    split at hstep
    · next hb =>
      cases hstep
      have hlength : (List.replicate size.toNat value).length = size.toNat := List.length_replicate
      obtain ⟨blocks₁, b₁, blocks, buffer, hconstruct, -, hwrite, hholds, hkeeps, hfresh⟩ :=
        constructWith_spec InlineBytes garbage s.blocks hsize hlength
      have hmade : constructFilled InlineBytes garbage s.blocks size value = .ok (blocks, buffer) := by
        simp [constructFilled, hconstruct, ok_bind, hwrite]
      exact ⟨_, by simp [State.step, State.vacant, check, h.vacant hb, hmade, ok_bind], h.make hkeeps hholds hfresh⟩
    · cases hstep
  | constructFrom b val =>
    simp only [Reference.step] at hstep
    split at hstep
    · next hb =>
      cases hstep
      have hlength : val.length = (UInt64.ofNat val.length).toNat := (UInt64.toNat_ofNat_of_lt' hb.2).symm
      obtain ⟨blocks₁, b₁, blocks, buffer, hconstruct, hb₁, hwrite, hholds, hkeeps, hfresh⟩ :=
        constructWith_spec InlineBytes garbage s.blocks (hlength ▸ hsize) hlength
      have hmade : constructFrom InlineBytes garbage s.blocks val = .ok (blocks, buffer) := by
        simp [constructFrom, hconstruct, ok_bind, hb₁, readBytes_all, hwrite]
      exact ⟨_, by simp [State.step, State.vacant, check, h.vacant hb.1, hmade, ok_bind], h.make hkeeps hholds hfresh⟩
    · cases hstep
  | copyConstruct b other =>
    obtain ⟨bytes, hbytes, hstep⟩ := Option.bind_eq_some_iff.1 hstep
    split at hstep
    · next hb =>
      cases hstep
      obtain ⟨source, hsource, hholds⟩ := h.holds hbytes
      obtain ⟨blocks, buffer, hcopy, hholds', hkeeps, hfresh⟩ := copyConstruct_spec garbage hholds
      exact ⟨_, by simp [State.step, State.vacant, State.object, check, h.vacant hb, hsource, hcopy, ok_bind],
        h.make hkeeps hholds' hfresh⟩
    · cases hstep
  | moveConstruct b other =>
    obtain ⟨bytes, hbytes, hstep⟩ := Option.bind_eq_some_iff.1 hstep
    split at hstep
    · next hb =>
      cases hstep
      obtain ⟨source, hsource, -⟩ := h.holds hbytes
      exact ⟨_, by simp [State.step, State.vacant, State.object, check, h.vacant hb, hsource, ok_bind],
        h.move (h.vacant hb) hsource hbytes⟩
    · cases hstep
  | copyAssign b other =>
    obtain ⟨old, hold, hstep⟩ := Option.bind_eq_some_iff.1 hstep
    obtain ⟨bytes, hbytes, hstep⟩ := Option.bind_eq_some_iff.1 hstep
    cases hstep
    obtain ⟨buffer, hbuffer, hholds⟩ := h.holds hold
    obtain ⟨source, hsource, hholds'⟩ := h.holds hbytes
    by_cases heq : b = other
    · subst heq
      refine ⟨s, by simp [State.step, State.object, hbuffer, ok_bind], ?_⟩
      have hsame : r.set b (some bytes) = r := by
        funext b'
        by_cases hb : b' = b
        · rw [hb, hbytes, Reference.set, if_pos rfl]
        · rw [Reference.set, if_neg hb]
      rwa [hsame]
    · obtain ⟨blocks, buffer', hcopy, hnew, hkeeps, hfresh⟩ := copyAssign_spec garbage hholds hholds'
        fun ptr hdata hdata' => heq (h.apart b other buffer source ptr hbuffer hsource hdata hdata')
      refine ⟨_, by simp [State.step, State.object, hbuffer, hsource, heq, hcopy, ok_bind], h.set hkeeps ?_ hnew ?_⟩
      · exact fun ptr hmine => ⟨buffer, hbuffer, hmine⟩
      · intro ptr hdata
        left
        intro hlive
        have hlt := hlive.lt_next
        rw [hfresh ptr hdata] at hlt
        exact Nat.lt_irrefl _ hlt
  | moveAssign b other =>
    obtain ⟨old, hold, hstep⟩ := Option.bind_eq_some_iff.1 hstep
    obtain ⟨bytes, hbytes, hstep⟩ := Option.bind_eq_some_iff.1 hstep
    obtain ⟨buffer, hbuffer, hholds⟩ := h.holds hold
    obtain ⟨source, hsource, hholds'⟩ := h.holds hbytes
    by_cases heq : b = other
    · subst heq
      rw [if_pos rfl] at hstep
      cases hstep
      exact ⟨s, by simp [State.step, State.object, hbuffer, ok_bind], h⟩
    · rw [if_neg heq] at hstep
      cases hstep
      obtain ⟨blocks, hdestroy, hkeeps, -⟩ := destroy_spec hholds
      -- the old bytes go, and the buffer moves to the place that is left
      have hremoved := h.remove hkeeps fun ptr hmine => ⟨buffer, hbuffer, hmine⟩
      have hvacant : (s.set b blocks none).buffers b = none := by simp [State.set]
      have hsource' : (s.set b blocks none).buffers other = some source := by simp [State.set, Ne.symm heq, hsource]
      have hbytes' : (r.set b none) other = some bytes := by simp [Reference.set, Ne.symm heq, hbytes]
      have hmoved := hremoved.move hvacant hsource' hbytes'
      have hmoves : Buffers.moveAssign InlineBytes s.blocks buffer source = .ok (blocks, source) := by
        simp [Buffers.moveAssign, hdestroy, ok_bind]
      refine ⟨(s.set b blocks (some source)).set other blocks (some (movedFrom InlineBytes)),
        by simp [State.step, State.object, hbuffer, hsource, heq, hmoves, ok_bind], ?_⟩
      rw [State.set_set, Reference.set_set] at hmoved
      exact hmoved
  | shrink b newSize =>
    obtain ⟨bytes, hbytes, hstep⟩ := Option.bind_eq_some_iff.1 hstep
    split at hstep
    · next hle =>
      cases hstep
      obtain ⟨buffer, hbuffer, hholds⟩ := h.holds hbytes
      obtain ⟨blocks, buffer', hshrink, hnew, hkeeps, hown⟩ := shrink_spec hholds hle
      refine ⟨_, by simp [State.step, State.object, hbuffer, hshrink, ok_bind], h.set hkeeps ?_ hnew ?_⟩
      · exact fun ptr hmine => ⟨buffer, hbuffer, hmine⟩
      · exact fun ptr hdata => .inr ⟨buffer, hbuffer, hown ptr hdata⟩
    · cases hstep
  | write b i value =>
    obtain ⟨bytes, hbytes, hstep⟩ := Option.bind_eq_some_iff.1 hstep
    split at hstep
    · next hlt =>
      cases hstep
      obtain ⟨buffer, hbuffer, hholds⟩ := h.holds hbytes
      obtain ⟨blocks, buffer', hwrite, hnew, hkeeps, hown⟩ := writeData_spec hholds i.toNat [value] hlt
      rw [← Patching.set_eq_overwrite value hlt] at hnew
      refine ⟨_, by simp [State.step, State.object, hbuffer, hwrite, ok_bind], h.set hkeeps ?_ hnew ?_⟩
      · exact fun ptr hmine => ⟨buffer, hbuffer, hmine⟩
      · exact fun ptr hdata => .inr ⟨buffer, hbuffer, hown ptr hdata⟩
    · cases hstep
  | destroy b =>
    obtain ⟨bytes, hbytes, hstep⟩ := Option.bind_eq_some_iff.1 hstep
    cases hstep
    obtain ⟨buffer, hbuffer, hholds⟩ := h.holds hbytes
    obtain ⟨blocks, hdestroy, hkeeps, -⟩ := destroy_spec hholds
    exact ⟨_, by simp [State.step, State.object, hbuffer, hdestroy, ok_bind],
      h.remove hkeeps fun ptr hmine => ⟨buffer, hbuffer, hmine⟩⟩

/-- A whole program that the lists allow, all of whose sizes fit. -/
theorem run_spec (garbage : Nat → UInt8) {ops : List Op} (h : Inv InlineBytes s r) {r' : Reference}
    (hrun : ops.foldlM Reference.step r = some r')
    (hsizes : ∀ op ∈ ops, op.size < 2 ^ 32) :
    ∃ s', ops.foldlM (State.step InlineBytes garbage) s = .ok s' ∧ Inv InlineBytes s' r' := by
  induction ops generalizing s r with
  | nil =>
    cases hrun
    exact ⟨s, rfl, h⟩
  | cons op ops ih =>
    rw [List.foldlM_cons] at hrun
    obtain ⟨r₁, hstep, hrun⟩ := Option.bind_eq_some_iff.1 hrun
    obtain ⟨s₁, hstep', h₁⟩ := step_spec garbage h hstep (hsizes op List.mem_cons_self)
    obtain ⟨s', hrun', h'⟩ := ih h₁ hrun fun op hop => hsizes op (List.mem_cons_of_mem _ hop)
    exact ⟨s', by rw [List.foldlM_cons, hstep', ok_bind, hrun'], h'⟩

/-- The lists after a part of a program that they allow. -/
theorem run_part {part ops : List Op} {r' : Reference} (hpart : part <+: ops) (hrun : Reference.run ops = some r') :
    ∃ r, Reference.run part = some r := by
  obtain ⟨rest, rfl⟩ := hpart
  rw [Reference.run, List.foldlM_append] at hrun
  obtain ⟨r, hr, -⟩ := Option.bind_eq_some_iff.1 hrun
  exact ⟨r, hr⟩

/-- An operation leaves a list of its size where it makes a buffer. -/
theorem exists_list_of_size {r' : Reference} {op : Op} (hstep : r.step op = some r') (hsize : 0 < op.size) :
    ∃ b bytes, r' b = some bytes ∧ bytes.length = op.size := by
  cases op with
  | construct b size =>
    simp only [Reference.step] at hstep
    split at hstep
    · cases hstep
      exact ⟨b, _, if_pos rfl, by simp [Op.size]⟩
    · cases hstep
  | constructFilled b size value =>
    simp only [Reference.step] at hstep
    split at hstep
    · cases hstep
      exact ⟨b, _, if_pos rfl, by simp [Op.size]⟩
    · cases hstep
  | constructFrom b val =>
    simp only [Reference.step] at hstep
    split at hstep
    · cases hstep
      exact ⟨b, _, if_pos rfl, rfl⟩
    · cases hstep
  | copyConstruct | moveConstruct | copyAssign | moveAssign | shrink | write | destroy => simp [Op.size] at hsize

/-- A buffer that is made with a size of more than 32 bits has another size. -/
theorem size_of_refined {ops : List Op} (h : Refined InlineBytes garbage ops) {op : Op} (hop : op ∈ ops) : op.size < 2 ^ 32 := by
  rcases Nat.eq_zero_or_pos op.size with hzero | hpos
  · omega
  · obtain ⟨before, after, rfl⟩ := List.append_of_mem hop
    obtain ⟨s, r, -, hr, hrefines⟩ := h (before ++ [op]) ⟨after, by simp⟩
    rw [Reference.run, List.foldlM_append] at hr
    obtain ⟨r₁, -, hr⟩ := Option.bind_eq_some_iff.1 hr
    rw [List.foldlM_cons] at hr
    obtain ⟨r₂, hstep, hr⟩ := Option.bind_eq_some_iff.1 hr
    cases hr
    obtain ⟨b, bytes, hbytes, hlength⟩ := exists_list_of_size hstep hpos
    cases hbuffer : s.buffers b with
    | none =>
      have hnone := (hrefines.exist b).1 hbuffer
      rw [hbytes] at hnone
      cases hnone
    | some buffer =>
      have hsize := hrefines.size b buffer bytes hbuffer hbytes
      have hlt := buffer.size.toNat_lt
      omega

end Programs

/-- The buffers of a program are its lists of bytes exactly if it makes every one of them with a size of 32 bits. -/
theorem refined_iff (InlineBytes : Nat) (garbage : Nat → UInt8) (ops : List Op) (hallowed : (Reference.run ops).isSome = true) :
    Refined InlineBytes garbage ops ↔ ∀ op ∈ ops, op.size < 2 ^ 32 := by
  constructor
  · intro h op hop
    exact size_of_refined h hop
  · intro hsizes part hpart
    obtain ⟨r', hr'⟩ := Option.isSome_iff_exists.1 hallowed
    obtain ⟨r, hr⟩ := run_part hpart hr'
    obtain ⟨s, hs, hinv⟩ := run_spec garbage inv_initial hr fun op hop => hsizes op (hpart.subset hop)
    exact ⟨s, r, hs, hr, hinv.refines⟩

/-- A program that moves, copies and shrinks over the inline size. -/
def crossing : List Op :=
  [.constructFilled 0 40 7, .copyConstruct 1 0, .write 1 39 9, .moveAssign 0 1, .copyAssign 0 0, .shrink 0 20, .destroy 1]

theorem crossing_refined : Refined 32 (fun _ => 0xcc) crossing :=
  (refined_iff 32 (fun _ => 0xcc) crossing (by decide)).2 (by decide)

/-- A buffer of `2 ^ 32 + 5` bytes says that it has five. -/
theorem large_wrong : (Reference.run [.construct 0 0x100000005]).isSome = true ∧
    ¬ Refined 32 (fun _ => 0) [.construct 0 0x100000005] := by
  refine ⟨rfl, fun h => ?_⟩
  have hlt := size_of_refined h List.mem_cons_self
  exact absurd hlt (by decide)

end Buffers
end X64Emulator
