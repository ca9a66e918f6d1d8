import X64Emulator.Lib.LittleEndian
import X64Emulator.ProgramArguments
import X64Emulator.Theorems.FileMapping
import X64Emulator.Theorems.FirstFit

/-!
# The stack of a new program

Whatever its arguments and its environment are, a program finds them where the conventions of its start put them: the words
from the stack pointer on are the number of the arguments, the addresses of null-terminated copies, and the pairs of the
auxiliary vector.
-/

namespace X64Emulator

open MmuRegion AddressSpace

/-! ## What a program finds -/

/-- The word at an address. -/
def word (memory : Memory) (a : Nat) : Nat := LittleEndian.read memory a 8

/-- The words from an address on. -/
def HoldsWords (memory : Memory) (a : Nat) : List UInt64 → Prop
  | [] => True
  | v :: l => word memory a = v.toNat ∧ HoldsWords memory (a + 8) l

/-- A string at an address, and a null behind it. -/
def HoldsString (memory : Memory) (a : Nat) : Bytes → Prop
  | [] => memory a = 0
  | c :: s => memory a = c ∧ HoldsString memory (a + 1) s

/-- A copy of a string. -/
structure Copy where
  address : UInt64
  text : Bytes

/-- The first address past the null of a copy. -/
def Copy.top (c : Copy) : Nat := c.address.toNat + c.text.length + 1

/-- Two copies share no byte. -/
def Copy.Apart (c d : Copy) : Prop := c.top ≤ d.address.toNat ∨ d.top ≤ c.address.toNat

/-- The pairs of the auxiliary vector: what the loader knows, what the host knows, and the null pair. -/
def auxiliaryEntries (host : HostAuxiliary) (auxiliary : Auxiliary) (filepath : UInt64) : List AuxVal :=
  [⟨9, auxiliary.entrypoint⟩, ⟨3, auxiliary.programHeaderTable⟩, ⟨4, auxiliary.programHeaderEntrySize.toUInt64⟩,
    ⟨5, auxiliary.programHeaderCount.toUInt64⟩, ⟨25, auxiliary.randomDataAddress⟩, ⟨15, auxiliary.platformStringAddress⟩,
    ⟨33, 0⟩, ⟨31, filepath⟩] ++
  [11, 13, 12, 14, 23].filterMap (fun type => (host.getauxval type).map (fun value => ⟨type, value⟩)) ++ [⟨0, 0⟩]

/-- A pair of the auxiliary vector as two words. -/
def AuxVal.words (entry : AuxVal) : List UInt64 := [entry.type, entry.value]

/-- What a program finds in its memory, with its strings in a range and its words from the stack pointer on. -/
structure LaidOut (host : HostAuxiliary) (auxiliary : Auxiliary) (programFilePath : Bytes)
    (arguments environmentVariables : List Bytes) (memory : Memory) (base length rsp : Nat) (filepath : Copy)
    (argv envp : List Copy) : Prop where
  aligned : rsp % 16 = 0
  words : HoldsWords memory rsp ((arguments.length + 1).toUInt64 :: filepath.address :: argv.map Copy.address ++
    0 :: envp.map Copy.address ++ 0 :: (auxiliaryEntries host auxiliary filepath.address).flatMap AuxVal.words)
  path : filepath.text = programFilePath
  argumentTexts : argv.map Copy.text = arguments
  environmentTexts : envp.map Copy.text = environmentVariables
  copied : ∀ c ∈ filepath :: argv ++ envp, HoldsString memory c.address.toNat c.text
  inside : ∀ c ∈ filepath :: argv ++ envp, base ≤ c.address.toNat ∧ c.top ≤ base + length
  apart : (filepath :: argv ++ envp).Pairwise Copy.Apart

/-! ## Words and strings in a memory -/

variable {memory memory' : Memory} {a : Nat}

theorem HoldsWords.congr {l : List UInt64} (h : HoldsWords memory a l)
    (hsame : ∀ x, a ≤ x → x < a + 8 * l.length → memory' x = memory x) : HoldsWords memory' a l := by
  induction l generalizing a with
  | nil => trivial
  | cons v l ih =>
    rw [List.length_cons] at hsame
    refine ⟨?_, ih h.2 fun x h1 h2 => hsame x (by omega) (by omega)⟩
    exact (LittleEndian.read_congr fun x h1 h2 => hsame x h1 (by omega)).trans h.1

theorem HoldsWords.left {l l' : List UInt64} (h : HoldsWords memory a (l ++ l')) : HoldsWords memory a l := by
  induction l generalizing a with
  | nil => trivial
  | cons v l ih => exact ⟨h.1, ih h.2⟩

theorem HoldsString.congr {s : Bytes} (h : HoldsString memory a s)
    (hsame : ∀ x, a ≤ x → x ≤ a + s.length → memory' x = memory x) : HoldsString memory' a s := by
  induction s generalizing a with
  | nil => exact (hsame a (Nat.le_refl _) (Nat.le_refl _)).trans h
  | cons c s ih =>
    rw [List.length_cons] at hsame
    exact ⟨(hsame a (Nat.le_refl _) (by omega)).trans h.1, ih h.2 fun x h1 h2 => hsame x (by omega) (by omega)⟩

/-- The bytes of a string with a null behind them. -/
theorem holdsString_of_bytes {s : Bytes} (h : ∀ i, i < (s ++ [0]).length → memory (a + i) = (s ++ [0]).getD i 0) :
    HoldsString memory a s := by
  induction s generalizing a with
  | nil => exact h 0 (Nat.succ_pos 0)
  | cons c s ih =>
    refine ⟨h 0 (Nat.succ_pos _), ih fun i hi => ?_⟩
    have hi := h (i + 1) (Nat.succ_lt_succ hi)
    rwa [← Nat.add_assoc, Nat.add_right_comm] at hi

/-! ## Writable bytes -/

/-- A write of the program to the address is let through. -/
def AddressSpace.Writable (s : AddressSpace) (a : Nat) : Prop := ∃ r, s.findAddress a = some r ∧ r.prot.write = true

namespace AddressSpace

variable {s s' : AddressSpace}

theorem Wf.writable_iff (h : s.Wf) : s.Writable a ↔ ∃ r ∈ s.regions, (r.base ≤ a ∧ a < r.top) ∧ r.prot.write = true := by
  simp only [Writable, h.findAddress_eq_some, and_assoc]

/-- A new region takes no writable byte, and none stops to be writable. -/
theorem Added.writable {r : MmuRegion} (hadd : s.Added r s') (h : s.Wf) (ha : s.Writable a) :
    s'.Writable a ∧ (a < r.base ∨ r.top ≤ a) := by
  obtain ⟨q, hq, hqa, hwrite⟩ := h.writable_iff.1 ha
  have hapart := hadd.apart q hq
  exact ⟨hadd.wf.writable_iff.2 ⟨q, (hadd.mem_regions q).2 (.inr hq), hqa, hwrite⟩, by omega⟩

/-- A mapping without an address is made, or the memory has no place for it. -/
theorem mmap_anywhere {host : Host} (h : (machine host).Reachable s) (hg : host.Grants s.memorySize) (prot : Prot)
    {length : UInt64} (hne : length ≠ 0) (hlt : length.toNat ≤ 2 ^ 63) :
    ∃ res s', s.mmap host 0 length prot ⟨false, false⟩ = some (res, s') ∧ (machine host).Reachable s' ∧
      s'.memorySize = s.memorySize ∧ (∀ a, s.Writable a → s'.Writable a) ∧
      ∀ base, res = some base → (∃ r ∈ s'.regions, r.base = base ∧ r.size = roundedLength length.toNat ∧ r.prot = prot) ∧
        ∀ a, s.Writable a → a < base ∨ base + roundedLength length.toNat ≤ a := by
  have hw := reachable_wf h
  have hz := reachable_topOfReserved h
  have hsum : s.topOfMemoryPageAligned + roundedLength length.toNat < 2 ^ 64 := by
    have htop := (hw.topOfMemory_spec hz).2.1
    have hsmall := s.memorySize_small
    simp only [roundedLength, PAGE_SIZE_eq]
    omega
  have hstep : ∀ {res s'}, s.mmap host 0 length prot ⟨false, false⟩ = some (res, s') → (machine host).Reachable s' := by
    intro res s' hm
    exact .step (.mmap 0 length prot ⟨false, false⟩) h (congrArg (Option.map Prod.snd) hm)
  rcases hw.mmap_firstFit hz hg (show isPageAligned (0 : UInt64).toNat by decide) hne hsum with ⟨base, s', hm, -⟩ | hm
  · obtain ⟨-, ⟨hfixed, -⟩ | ⟨-, hadd⟩⟩ := hw.mmap_made hm
    · cases hfixed
    have hwritable : ∀ a, s.Writable a → s'.Writable a ∧ _ := fun a ha =>
      hadd.writable (hw.congr rfl rfl rfl rfl (Nat.le_succ _)) ha
    refine ⟨some base, s', hm, hstep hm, hadd.memorySize, fun a ha => (hwritable a ha).1, ?_⟩
    rintro _ ⟨⟩
    exact ⟨⟨_, (hadd.made rfl).1, rfl, rfl, rfl⟩, fun a ha => (hwritable a ha).2⟩
  · exact ⟨none, s, hm, h, rfl, fun a ha => ha, fun base hbase => by cases hbase⟩

/-- A region that was found by its base gets its name, and nothing else changes. -/
theorem Wf.setRegionName_of_mem (h : s.Wf) {r : MmuRegion} (hr : r ∈ s.regions) {address : UInt64}
    (haddress : address.toNat = r.base) (name : String) :
    ∃ s', s.setRegionName address name = some s' ∧ { r with name := name } ∈ s'.regions ∧ s'.memory = s.memory ∧
      ∀ a, s.Writable a → s'.Writable a := by
  have hfind : s.findAddress address.toNat = some r :=
    h.findAddress_eq_some.2 ⟨hr, by omega, by have := (h.sound r hr).lt; omega⟩
  let rename : MmuRegion → MmuRegion := fun q => if q.ptr = r.ptr then { q with name := name } else q
  have hname : s.setRegionName address name = some { s with regions := s.regions.map rename } := by
    rw [AddressSpace.setRegionName, hfind]
    rfl
  refine ⟨_, hname, List.mem_map.2 ⟨r, hr, if_pos rfl⟩, rfl, fun a ha => ?_⟩
  obtain ⟨q, hq, hqa, hwrite⟩ := h.writable_iff.1 ha
  refine (h.setRegionName hname).writable_iff.2 ⟨rename q, List.mem_map.2 ⟨q, hq, rfl⟩, ?_⟩
  have hkeep : (rename q).base = q.base ∧ (rename q).top = q.top ∧ (rename q).prot = q.prot := by
    simp only [rename]
    split <;> exact ⟨rfl, rfl, rfl⟩
  rw [hkeep.1, hkeep.2.1, hkeep.2.2]
  exact ⟨hqa, hwrite⟩

end AddressSpace

/-! ## Writing the strings -/

/-- The bytes that strings take with their nulls. -/
def stringsSize : List Bytes → Nat
  | [] => 0
  | s :: l => s.length + 1 + stringsSize l

@[simp]
theorem stringsSize_append (l l' : List Bytes) : stringsSize (l ++ l') = stringsSize l + stringsSize l' := by
  induction l with
  | nil => simp [stringsSize]
  | cons s l ih => simp [stringsSize, ih, Nat.add_assoc]

/-- The copies of strings, one behind the other. -/
def copiesFrom (p : Nat) : List Bytes → List Copy
  | [] => []
  | s :: l => ⟨p.toUInt64, s⟩ :: copiesFrom (p + (s.length + 1)) l

theorem map_text_copiesFrom (p : Nat) (l : List Bytes) : (copiesFrom p l).map Copy.text = l := by
  induction l generalizing p with
  | nil => rfl
  | cons s l ih => simp [copiesFrom, ih]

theorem copiesFrom_append (p : Nat) (l l' : List Bytes) :
    copiesFrom p (l ++ l') = copiesFrom p l ++ copiesFrom (p + stringsSize l) l' := by
  induction l generalizing p with
  | nil => rfl
  | cons s l ih => simp [copiesFrom, stringsSize, ih, Nat.add_assoc]

/-- Copies lie in the range that their strings need. -/
theorem copiesFrom_inside {p : Nat} {l : List Bytes} (hlt : p + stringsSize l < 2 ^ 64) {c : Copy} (hc : c ∈ copiesFrom p l) :
    p ≤ c.address.toNat ∧ c.top ≤ p + stringsSize l := by
  induction l generalizing p with
  | nil => cases hc
  | cons s l ih =>
    rw [stringsSize] at hlt ⊢
    rcases List.mem_cons.1 hc with rfl | hc
    · simp only [Copy.top, toNat_toUInt64 (show p < 2 ^ 64 by omega)]
      omega
    · have := ih (by omega) hc
      omega

theorem copiesFrom_apart {p : Nat} {l : List Bytes} (hlt : p + stringsSize l < 2 ^ 64) :
    (copiesFrom p l).Pairwise Copy.Apart := by
  induction l generalizing p with
  | nil => exact List.Pairwise.nil
  | cons s l ih =>
    rw [stringsSize] at hlt
    refine List.pairwise_cons.2 ⟨fun c hc => .inl ?_, ih (by omega)⟩
    have hinside := copiesFrom_inside (by omega) hc
    simp only [Copy.top, toNat_toUInt64 (show p < 2 ^ 64 by omega)]
    omega

variable {s : AddressSpace}

/-- A string is written, and the next one will go behind it. -/
theorem writeArgument_step (memory : Memory) (positions : List UInt64) {p : Nat} {text : Bytes}
    (hlt : p + (text.length + 1) < 2 ^ 64) (hw : s.Writable p) :
    ∃ memory', ArgumentWriter.writeArgument ⟨{ s with memory := memory }, p.toUInt64, positions⟩ text =
        some ⟨{ s with memory := memory' }, (p + (text.length + 1)).toUInt64, positions ++ [p.toUInt64]⟩ ∧
      HoldsString memory' p text ∧ ∀ a, a < p ∨ p + (text.length + 1) ≤ a → memory' a = memory a := by
  have hp : p.toUInt64.toNat = p := toNat_toUInt64 (by omega)
  have hlength : (text ++ [0]).length = text.length + 1 := List.length_append
  have hlast : (text ++ [0]).getLast? = some 0 := List.getLast?_concat
  have hptr : p.toUInt64 + (text.length + 1).toUInt64 = (p + (text.length + 1)).toUInt64 := (UInt64.ofNat_add ..).symm
  obtain ⟨r, hfind, hwrite⟩ := hw
  let memory' : Memory := fun a => if p ≤ a ∧ a < p + (text.length + 1) then (text ++ [0]).getD (a - p) 0 else memory a
  refine ⟨memory', ?_, holdsString_of_bytes fun i hi => ?_, fun a ha => if_neg (by omega)⟩
  · have hregion : AddressSpace.findAddress { s with memory := memory } p = some r := hfind
    simp only [ArgumentWriter.writeArgument, AddressSpace.copyToMmu, verify_of hlast, hlength, Nat.succ_ne_zero, if_false, hp,
      hregion, verify_of hwrite, hptr, Option.bind_eq_bind, Option.bind_some]
    rfl
  · rw [hlength] at hi
    simp only [memory']
    rw [if_pos (by omega), Nat.add_sub_cancel_left]

/-- A list of strings is written, one behind the other. -/
theorem writeArguments_run (memory : Memory) (positions : List UInt64) (l : List Bytes) {p : Nat} (hlt : p + stringsSize l < 2 ^ 64)
    (hw : ∀ a, p ≤ a → a < p + stringsSize l → s.Writable a) :
    ∃ memory', l.foldlM ArgumentWriter.writeArgument ⟨{ s with memory := memory }, p.toUInt64, positions⟩ =
        some ⟨{ s with memory := memory' }, (p + stringsSize l).toUInt64, positions ++ (copiesFrom p l).map Copy.address⟩ ∧
      (∀ c ∈ copiesFrom p l, HoldsString memory' c.address.toNat c.text) ∧
      ∀ a, a < p ∨ p + stringsSize l ≤ a → memory' a = memory a := by
  induction l generalizing p memory positions with
  | nil => exact ⟨memory, by simp [copiesFrom, stringsSize], by simp [copiesFrom], fun a _ => rfl⟩
  | cons text l ih =>
    rw [stringsSize] at hlt hw
    obtain ⟨memory1, hstep, hheld, hsame1⟩ := writeArgument_step memory positions
      (show p + (text.length + 1) < 2 ^ 64 by omega) (hw p (Nat.le_refl _) (by omega))
    obtain ⟨memory2, hrun, hcopies, hsame2⟩ := ih memory1
      (positions ++ [p.toUInt64]) (show p + (text.length + 1) + stringsSize l < 2 ^ 64 by omega)
      (fun a h1 h2 => hw a (by omega) (by omega))
    refine ⟨memory2, ?_, ?_, fun a ha => ?_⟩
    · have hnext : p + (text.length + 1) + stringsSize l = p + (text.length + 1 + stringsSize l) := Nat.add_assoc ..
      rw [List.append_assoc, hnext] at hrun
      rw [List.foldlM_cons, hstep]
      exact hrun
    · intro c hc
      rcases List.mem_cons.1 hc with rfl | hc
      · have hp : p.toUInt64.toNat = p := toNat_toUInt64 (by omega)
        -- the later copies leave this one alone
        exact HoldsString.congr (hp.symm ▸ hheld) fun x h1 h2 => hsame2 x (.inl (by simp only [hp] at h2; omega))
      · exact hcopies c hc
    · rw [stringsSize] at ha
      exact (hsame2 a (by omega)).trans (hsame1 a (by omega))

/-! ## Pushing the words -/

/-- A word is pushed on others. -/
theorem push64_step (v : UInt64) {rsp : Nat} {words : List UInt64} (hlt : rsp < 2 ^ 64) (hfit : 8 ≤ rsp)
    (hw : s.Writable (rsp - 8)) (hwords : HoldsWords memory rsp words) :
    ∃ memory', Stack.push64 ⟨{ s with memory := memory }, rsp.toUInt64⟩ v =
        some ⟨{ s with memory := memory' }, (rsp - 8).toUInt64⟩ ∧
      HoldsWords memory' (rsp - 8) (v :: words) ∧ ∀ a, a < rsp - 8 ∨ rsp ≤ a → memory' a = memory a := by
  have hrsp : rsp.toUInt64 - 8 = (rsp - 8).toUInt64 := (UInt64.ofNat_sub hfit).symm
  have hnew : (rsp - 8).toUInt64.toNat = rsp - 8 := toNat_toUInt64 (by omega)
  obtain ⟨r, hfind, hwrite⟩ := hw
  let memory' : Memory := fun a =>
    if rsp - 8 ≤ a ∧ a < rsp - 8 + 8 then UInt8.ofNat (v.toNat / 256 ^ (a - (rsp - 8))) else memory a
  have hsame : ∀ a, a < rsp - 8 ∨ rsp ≤ a → memory' a = memory a := fun a ha => if_neg (by omega)
  refine ⟨memory', ?_, ⟨?_, ?_⟩, hsame⟩
  · have hregion : AddressSpace.findAddress { s with memory := memory } (rsp - 8) = some r := hfind
    simp only [Stack.push64, AddressSpace.write64, hrsp, hnew, hregion, verify_of hwrite, Option.bind_eq_bind, Option.bind_some]
    rfl
  · refine (LittleEndian.read_digits fun i hi => ?_).trans (Nat.mod_eq_of_lt v.toNat_lt)
    simp only [memory']
    rw [if_pos (by omega), Nat.add_sub_cancel_left]
  · rw [Nat.sub_add_cancel hfit]
    exact hwords.congr fun x h1 h2 => hsame x (.inr h1)

/-- Words are pushed one after the other, and lie in the opposite order. -/
theorem push64_run (memory : Memory) (l words : List UInt64) {rsp : Nat} (hlt : rsp < 2 ^ 64) (hfit : 8 * l.length ≤ rsp)
    (hw : ∀ a, rsp - 8 * l.length ≤ a → a < rsp → s.Writable a) (hwords : HoldsWords memory rsp words) :
    ∃ memory', l.foldlM Stack.push64 ⟨{ s with memory := memory }, rsp.toUInt64⟩ =
        some ⟨{ s with memory := memory' }, (rsp - 8 * l.length).toUInt64⟩ ∧
      HoldsWords memory' (rsp - 8 * l.length) (l.reverse ++ words) ∧
      ∀ a, a < rsp - 8 * l.length ∨ rsp ≤ a → memory' a = memory a := by
  induction l generalizing rsp memory words with
  | nil => exact ⟨memory, rfl, hwords, fun a _ => rfl⟩
  | cons v l ih =>
    rw [List.length_cons] at hfit hw ⊢
    obtain ⟨memory1, hstep, hwords1, hsame1⟩ := push64_step v hlt (by omega) (hw (rsp - 8) (by omega) (by omega)) hwords
    obtain ⟨memory2, hrun, hwords2, hsame2⟩ := ih memory1 (v :: words) (show rsp - 8 < 2 ^ 64 by omega) (by omega)
      (fun a h1 h2 => hw a (by omega) (by omega)) hwords1
    have hend : rsp - 8 - 8 * l.length = rsp - 8 * (l.length + 1) := by omega
    rw [hend] at hrun hwords2 hsame2
    refine ⟨memory2, ?_, ?_, fun a ha => (hsame2 a (by omega)).trans (hsame1 a (by omega))⟩
    · rw [List.foldlM_cons, hstep]
      exact hrun
    · rw [List.reverse_cons, List.append_assoc]
      exact hwords2

/-! ## The sizes -/

/-- The bytes that the strings of a program need, and the addresses that are counted with them. -/
def neededSize (programFilePath : Bytes) (arguments environmentVariables : List Bytes) : Nat :=
  stringsSize (programFilePath :: arguments ++ environmentVariables) + 8 * (1 + arguments.length + environmentVariables.length)

/-- The words that are pushed; there is one more where they would be odd in number. -/
def stackWords (host : HostAuxiliary) (auxiliary : Auxiliary) (arguments environmentVariables : List Bytes) : Nat :=
  let words := 2 * (auxiliaryEntries host auxiliary 0).length + arguments.length + environmentVariables.length + 4
  words + words % 2

/-- The stack has room for a number of words below an address. -/
def AddressSpace.Fits (s : AddressSpace) (rsp words : Nat) : Prop :=
  8 * words ≤ rsp ∧ ∀ a, rsp - 8 * words ≤ a → a < rsp → s.Writable a

theorem foldl_stringsSize (l : List Bytes) (n : Nat) :
    l.foldl (fun size s => u64 (size + s.length + 1)) (u64 n) = u64 (n + stringsSize l) := by
  induction l generalizing n with
  | nil => simp [stringsSize]
  | cons s l ih =>
    have hstep : u64 (u64 n + s.length + 1) = u64 (n + (s.length + 1)) := by
      unfold u64
      omega
    rw [List.foldl_cons, hstep, ih, stringsSize, Nat.add_assoc]

theorem requiredSize_eq {programFilePath : Bytes} {arguments environmentVariables : List Bytes}
    (h : neededSize programFilePath arguments environmentVariables < 2 ^ 63) :
    requiredSize programFilePath arguments environmentVariables =
      roundedLength (neededSize programFilePath arguments environmentVariables) := by
  have hneeded : neededSize programFilePath arguments environmentVariables = programFilePath.length + 1 + stringsSize arguments +
      stringsSize environmentVariables + 8 * (1 + arguments.length + environmentVariables.length) := by
    simp [neededSize, stringsSize, Nat.add_assoc]
  rw [hneeded] at h ⊢
  simp only [requiredSize, foldl_stringsSize]
  simp only [pageRoundUp, roundedLength, u64, PAGE_SIZE_eq]
  omega

/-! ## The auxiliary vector -/

theorem foldl_addOf (host : HostAuxiliary) (types : List AuxType) (v : AuxiliaryVector) :
    (types.foldl (AuxiliaryVector.addOf host) v).data = v.data ++ (types.filterMap host.auxval).flatMap AuxVal.words := by
  induction types generalizing v with
  | nil => simp
  | cons type types ih =>
    rw [List.foldl_cons, ih, AuxiliaryVector.addOf]
    cases htype : host.auxval type with
    | none => rw [List.filterMap_cons_none htype]
    | some entry => rw [List.filterMap_cons_some htype, List.flatMap_cons, List.append_assoc, AuxVal.words]

/-- The vector is made of its pairs. -/
theorem create_auxiliaryVector (host : HostAuxiliary) (auxiliary : Auxiliary) (filepath : UInt64) :
    (auxiliaryVector host auxiliary filepath).create host =
      some ((auxiliaryEntries host auxiliary filepath).flatMap AuxVal.words) := by
  have hdata : (auxiliaryVector host auxiliary filepath).data = _ :=
    foldl_addOf host [.uid, .gid, .euid, .egid, .secure] _
  rw [AuxiliaryVector.create, hdata, auxiliaryEntries, List.flatMap_append, List.flatMap_append]
  rfl

theorem length_auxiliaryEntries (host : HostAuxiliary) (auxiliary : Auxiliary) (filepath : UInt64) :
    ((auxiliaryEntries host auxiliary filepath).flatMap AuxVal.words).length = 2 * (auxiliaryEntries host auxiliary 0).length := by
  have hwords : ∀ l : List AuxVal, (l.flatMap AuxVal.words).length = 2 * l.length := by
    intro l
    induction l with
    | nil => rfl
    | cons entry l ih => rw [List.flatMap_cons, List.length_append, ih, AuxVal.words, List.length_cons]; simp; omega
  rw [hwords, auxiliaryEntries, auxiliaryEntries]
  simp only [List.length_append, List.length_cons, List.length_nil]

/-! ## The start of a program -/

/-- All the words are pushed: one to align the others if need be, and then the last first. -/
theorem pushWords_run (memory : Memory) {rsp : Nat} (data positions : List UInt64) (argc : UInt64) {words : Nat}
    (hwords : words = data.length + positions.length + 1 + (data.length + positions.length + 1) % 2) (hlt : rsp < 2 ^ 64)
    (hfits : s.Fits rsp words) :
    ∃ memory', Stack.pushWords ⟨{ s with memory := memory }, rsp.toUInt64⟩ data positions argc =
        some ⟨{ s with memory := memory' }, (rsp - 8 * words).toUInt64⟩ ∧
      HoldsWords memory' (rsp - 8 * words) (argc :: positions ++ data) ∧
      ∀ a, a < rsp - 8 * words ∨ rsp ≤ a → memory' a = memory a := by
  let pad : List UInt64 := if (data.length + positions.length + 1) % 2 = 1 then [0] else []
  have hpad : pad.length = (data.length + positions.length + 1) % 2 := by
    simp only [pad]
    split <;> simp <;> omega
  have hlength : (pad ++ data.reverse ++ positions.reverse ++ [argc]).length = words := by
    simp [hpad]
    omega
  obtain ⟨memory', hrun, hheld, hsame⟩ := push64_run memory (pad ++ data.reverse ++ positions.reverse ++ [argc]) [] hlt
    (by rw [hlength]; exact hfits.1) (by rw [hlength]; exact hfits.2) trivial
  rw [hlength] at hrun hheld hsame
  refine ⟨memory', ?_, ?_, hsame⟩
  · have hfirst : ∀ stack : Stack,
        stack.pushAlignment (data.length + positions.length + 1) = pad.foldlM Stack.push64 stack := by
      intro stack
      simp only [Stack.pushAlignment, pad]
      split <;> simp
    rw [← hrun]
    simp [Stack.pushWords, hfirst, List.foldlM_append]
  · have hreverse : (pad ++ data.reverse ++ positions.reverse ++ [argc]).reverse ++ [] =
        (argc :: positions ++ data) ++ pad.reverse := by simp
    rw [hreverse] at hheld
    exact hheld.left

/-- The strings are written into a range of their own: what a program finds of them. -/
theorem writeStrings_run (memory : Memory) {base : Nat} (programFilePath : Bytes) (arguments environmentVariables : List Bytes)
    (hlt : base + stringsSize (programFilePath :: arguments ++ environmentVariables) < 2 ^ 64)
    (hw : ∀ a, base ≤ a → a < base + stringsSize (programFilePath :: arguments ++ environmentVariables) → s.Writable a) :
    ∃ memory' w1 w2, ArgumentWriter.writeArgument ⟨{ s with memory := memory }, base.toUInt64, []⟩ programFilePath = some w1 ∧
      arguments.foldlM ArgumentWriter.writeArgument w1 = some w2 ∧
      ∃ w3, environmentVariables.foldlM ArgumentWriter.writeArgument w2.pushNull = some w3 ∧
        w3.mmu = { s with memory := memory' } ∧
        w3.argumentPositions = (copiesFrom base (programFilePath :: arguments)).map Copy.address ++
          0 :: (copiesFrom (base + stringsSize (programFilePath :: arguments)) environmentVariables).map Copy.address ∧
        (∀ c ∈ copiesFrom base (programFilePath :: arguments ++ environmentVariables),
          HoldsString memory' c.address.toNat c.text) := by
  rw [stringsSize_append] at hlt hw
  obtain ⟨memory1, hargv, hheld1, hsame1⟩ := writeArguments_run (s := s) memory [] (programFilePath :: arguments)
    (show base + _ < 2 ^ 64 by omega) (fun a h1 h2 => hw a h1 (by omega))
  obtain ⟨memory2, henvp, hheld2, hsame2⟩ := writeArguments_run (s := s) memory1
    ((copiesFrom base (programFilePath :: arguments)).map Copy.address ++ [0]) environmentVariables
    (show base + stringsSize (programFilePath :: arguments) + _ < 2 ^ 64 by omega) (fun a h1 h2 => hw a (by omega) (by omega))
  rw [List.foldlM_cons, Option.bind_eq_bind, Option.bind_eq_some_iff] at hargv
  obtain ⟨w1, hfirst, hrest⟩ := hargv
  refine ⟨memory2, w1, _, hfirst, hrest, _, henvp, rfl, by simp, fun c hc => ?_⟩
  rw [copiesFrom_append, List.mem_append] at hc
  rcases hc with hc | hc
  · -- what comes later is written behind the arguments
    have hinside := copiesFrom_inside (show base + _ < 2 ^ 64 by omega) hc
    rw [Copy.top] at hinside
    exact (hheld1 c hc).congr fun x h1 h2 => hsame2 x (.inl (by omega))
  · exact hheld2 c hc

/-- The mapping for the strings is made behind a throwaway page, or the memory has no place for it. -/
theorem mapArguments_cases {host : Host} (h : (machine host).Reachable s) (hg : host.Grants s.memorySize) {size : Nat}
    (hpos : 0 < size) (haligned : size % PAGE_SIZE = 0) (hlt : size ≤ 2 ^ 63) :
    (∃ s', mapArguments host s size = some (none, s')) ∨
    ∃ base s' r, mapArguments host s size = some (some base, s') ∧ s'.Wf ∧ r ∈ s'.regions ∧
      (r.base = base ∧ r.size = size ∧ r.prot = Prot.READ_WRITE) ∧ (∀ a, s.Writable a → s'.Writable a) ∧
      ∀ a, s.Writable a → a < base ∨ base + size ≤ a := by
  have hsize : size.toUInt64.toNat = size := toNat_toUInt64 (by omega)
  have hround : roundedLength size = size := by
    simp only [roundedLength, PAGE_SIZE_eq] at *
    omega
  have hpage : PAGE_SIZE.toUInt64.toNat = PAGE_SIZE := toNat_toUInt64 (by decide)
  obtain ⟨_, s1, hm1, h1, hmemory1, hw1, -⟩ := mmap_anywhere h hg Prot.NONE (show PAGE_SIZE.toUInt64 ≠ 0 by decide)
    (by rw [hpage, PAGE_SIZE_eq]; omega)
  have hne : size.toUInt64 ≠ 0 := by
    intro hzero
    rw [hzero] at hsize
    exact absurd hsize.symm (Nat.ne_of_gt hpos)
  obtain ⟨res, s2, hm2, h2, -, hw2, hbase⟩ := mmap_anywhere h1 (by rw [hmemory1]; exact hg) Prot.READ_WRITE hne
    (by rw [hsize]; exact hlt)
  have hboth : mapArguments host s size = some (res, s2) := by
    simp only [mapArguments, hm1, hm2, Option.bind_eq_bind, Option.bind_some]
  cases res with
  | none => exact .inl ⟨s2, hboth⟩
  | some base =>
    obtain ⟨⟨r, hr, hrbase, hrsize, hrprot⟩, hapart⟩ := hbase base rfl
    rw [hsize, hround] at hrsize hapart
    exact .inr ⟨base, s2, r, hboth, reachable_wf h2, hr, ⟨hrbase, hrsize, hrprot⟩, fun a ha => hw2 a (hw1 a ha),
      fun a ha => hapart a (hw1 a ha)⟩

/-- The stack pointer that a program starts from is a multiple of 16. -/
theorem stackTop_aligned (stackTop : UInt64) : (stackTop &&& 0xFFFFFFFFFFFFFF00).toNat % 16 = 0 := by
  have hlow : (stackTop &&& 0xFFFFFFFFFFFFFF00) &&& 15 = 0 := by
    rw [UInt64.and_assoc]
    exact UInt64.and_zero
  have hnat := congrArg UInt64.toNat hlow
  rw [UInt64.toNat_and] at hnat
  exact (Nat.and_two_pow_sub_one_eq_mod _ 4).symm.trans hnat

/-- The strings and the words of a program in memory, where the mapping for the strings has room for them and lies beside the
stack. -/
theorem pushed_laidOut (auxHost : HostAuxiliary) (auxiliary : Auxiliary) {programFilePath : Bytes}
    {arguments environmentVariables : List Bytes} {base size rsp : Nat} {stackTop : UInt64}
    (hstrings : stringsSize (programFilePath :: arguments ++ environmentVariables) ≤ size) (hlt : base + size < 2 ^ 64)
    (hw : ∀ a, base ≤ a → a < base + size → s.Writable a) (hrsp : (stackTop &&& 0xFFFFFFFFFFFFFF00).toNat = rsp)
    (hfits : s.Fits rsp (stackWords auxHost auxiliary arguments environmentVariables))
    (hbeside : ∀ a, rsp - 8 * stackWords auxHost auxiliary arguments environmentVariables ≤ a → a < rsp →
      a < base ∨ base + size ≤ a) :
    ∃ w1 w2 w3 data memory' rsp' filepath argv envp,
      ArgumentWriter.writeArgument ⟨s, base.toUInt64, []⟩ programFilePath = some w1 ∧
      arguments.foldlM ArgumentWriter.writeArgument w1 = some w2 ∧
      environmentVariables.foldlM ArgumentWriter.writeArgument w2.pushNull = some w3 ∧
      (auxiliaryVector auxHost auxiliary base.toUInt64).create auxHost = some data ∧
      Stack.pushWords ⟨w3.pushNull.mmu, stackTop &&& 0xFFFFFFFFFFFFFF00⟩ data w3.pushNull.argumentPositions
        (arguments.length + 1).toUInt64 = some ⟨{ s with memory := memory' }, rsp'⟩ ∧
      LaidOut auxHost auxiliary programFilePath arguments environmentVariables memory' base size rsp'.toNat filepath argv envp := by
  obtain ⟨memory1, w1, w2, hfirst, hrest, w3, henv, hmmu, hpositions, hheld⟩ :=
    writeStrings_run (s := s) s.memory programFilePath arguments environmentVariables (show base + _ < 2 ^ 64 by omega)
      (fun a h1 h2 => hw a h1 (by omega))
  let data := (auxiliaryEntries auxHost auxiliary base.toUInt64).flatMap AuxVal.words
  let argv := copiesFrom (base + (programFilePath.length + 1)) arguments
  let envp := copiesFrom (base + stringsSize (programFilePath :: arguments)) environmentVariables
  have hcopies : copiesFrom base (programFilePath :: arguments ++ environmentVariables) =
      ⟨base.toUInt64, programFilePath⟩ :: argv ++ envp := copiesFrom_append base (programFilePath :: arguments) environmentVariables
  have hcount : argv.length = arguments.length ∧ envp.length = environmentVariables.length :=
    ⟨by simpa using congrArg List.length (map_text_copiesFrom _ arguments),
      by simpa using congrArg List.length (map_text_copiesFrom _ environmentVariables)⟩
  have hall : w3.pushNull.argumentPositions =
      base.toUInt64 :: argv.map Copy.address ++ 0 :: (envp.map Copy.address ++ [0]) := by
    rw [ArgumentWriter.pushNull, hpositions]
    simp [copiesFrom, argv, envp]
  have hdata : data.length = 2 * (auxiliaryEntries auxHost auxiliary 0).length := length_auxiliaryEntries ..
  have hwords : stackWords auxHost auxiliary arguments environmentVariables =
      data.length + w3.pushNull.argumentPositions.length + 1 + (data.length + w3.pushNull.argumentPositions.length + 1) % 2 := by
    have htotal : data.length + w3.pushNull.argumentPositions.length + 1 =
        2 * (auxiliaryEntries auxHost auxiliary 0).length + arguments.length + environmentVariables.length + 4 := by
      rw [hdata, hall]
      simp [hcount.1, hcount.2]
      omega
    rw [htotal]
    rfl
  obtain ⟨memory2, hpush, hwordsHeld, hsame⟩ := pushWords_run (s := s) memory1 data w3.pushNull.argumentPositions
    (arguments.length + 1).toUInt64 hwords (hrsp ▸ (stackTop &&& 0xFFFFFFFFFFFFFF00).toNat_lt) hfits
  have hnew : (rsp - 8 * stackWords auxHost auxiliary arguments environmentVariables).toUInt64.toNat =
      rsp - 8 * stackWords auxHost auxiliary arguments environmentVariables :=
    toNat_toUInt64 (by have := (stackTop &&& 0xFFFFFFFFFFFFFF00).toNat_lt; omega)
  refine ⟨w1, w2, w3, data, memory2, (rsp - 8 * stackWords auxHost auxiliary arguments environmentVariables).toUInt64,
    ⟨base.toUInt64, programFilePath⟩, argv, envp, hfirst, hrest, henv,
    create_auxiliaryVector .., ?_, ?_⟩
  · rw [← hpush, ← hrsp]
    simp [ArgumentWriter.pushNull, hmmu]
  · have hinside : ∀ c ∈ copiesFrom base (programFilePath :: arguments ++ environmentVariables),
        base ≤ c.address.toNat ∧ c.top ≤ base + size := by
      intro c hc
      have := copiesFrom_inside (Nat.lt_of_le_of_lt (Nat.add_le_add_left hstrings base) hlt) hc
      omega
    refine ⟨?_, ?_, rfl, map_text_copiesFrom _ arguments, map_text_copiesFrom _ environmentVariables, ?_, ?_, ?_⟩
    · rw [hnew]
      have haligned := stackTop_aligned stackTop
      have heven : stackWords auxHost auxiliary arguments environmentVariables % 2 = 0 := by
        rw [hwords]
        omega
      have hroom := hfits.1
      omega
    · rw [hnew]
      rw [hall] at hwordsHeld
      simpa using hwordsHeld
    · rw [← hcopies]
      intro c hc
      obtain ⟨hlow, hhigh⟩ := hinside c hc
      rw [Copy.top] at hhigh
      refine (hheld c hc).congr fun x h1 h2 => hsame x ?_
      -- no byte of a copy is one of the stack
      by_contra hstack
      have := hbeside x (by omega) (by omega)
      omega
    · rw [← hcopies]
      exact hinside
    · rw [← hcopies]
      exact copiesFrom_apart (Nat.lt_of_le_of_lt (Nat.add_le_add_left hstrings base) hlt)

/-- Every program finds its arguments, its environment and its auxiliary vector where it looks for them, unless the memory has
no place for the mapping of the strings. The strings are in the memory of the host, so their sizes add up to less than half of
its addresses. -/
theorem arguments_laidOut (host : Host) (auxHost : HostAuxiliary) {s : AddressSpace} (h : (machine host).Reachable s)
    (hg : host.Grants s.memorySize) (programFilePath : Bytes) (arguments environmentVariables : List Bytes)
    (auxiliary : Auxiliary) (stackTop : UInt64) (hheld : neededSize programFilePath arguments environmentVariables < 2 ^ 63)
    (hfits : s.Fits (stackTop &&& 0xFFFFFFFFFFFFFF00).toNat (stackWords auxHost auxiliary arguments environmentVariables)) :
    (∃ s', mapArguments host s (requiredSize programFilePath arguments environmentVariables) = some (none, s') ∧
      Stack.execStack host auxHost s stackTop programFilePath arguments environmentVariables auxiliary = none) ∨
    ∃ stack region filepath argv envp,
      Stack.execStack host auxHost s stackTop programFilePath arguments environmentVariables auxiliary = some stack ∧
      region ∈ stack.mmu.regions ∧ region.name = "program arguments" ∧
      LaidOut auxHost auxiliary programFilePath arguments environmentVariables stack.mmu.memory region.base region.size
        stack.rsp.toNat filepath argv envp := by
  have hsize := requiredSize_eq hheld
  have hpos : 0 < requiredSize programFilePath arguments environmentVariables := by
    rw [hsize]
    simp only [roundedLength, neededSize, PAGE_SIZE_eq]
    omega
  have haligned : requiredSize programFilePath arguments environmentVariables % PAGE_SIZE = 0 := by
    rw [hsize]
    exact Nat.mul_mod_left _ _
  have hle : requiredSize programFilePath arguments environmentVariables ≤ 2 ^ 63 := by
    rw [hsize]
    simp only [roundedLength, PAGE_SIZE_eq]
    omega
  have hstrings : stringsSize (programFilePath :: arguments ++ environmentVariables) ≤
      requiredSize programFilePath arguments environmentVariables := by
    rw [hsize]
    simp only [roundedLength, neededSize, PAGE_SIZE_eq]
    omega
  rcases mapArguments_cases h hg hpos haligned hle with ⟨s', hmap⟩ |
    ⟨base, s1, r, hmap, hwf, hr, ⟨hrbase, hrsize, hrprot⟩, hkeep, hbeside⟩
  · refine .inl ⟨s', hmap, ?_⟩
    simp only [Stack.execStack, Stack.pushProgramArguments, hmap, Option.bind_eq_bind, Option.bind_some, Option.bind_none]
  · have hsound := hwf.sound r hr
    have htop := hsound.top_le
    have hsmall := s1.memorySize_small
    have hrange : r.top = base + requiredSize programFilePath arguments environmentVariables := by rw [top, hrbase, hrsize]
    have hbase : base.toUInt64.toNat = base := toNat_toUInt64 (by omega)
    obtain ⟨s2, hname, hregion, -, hwritable⟩ := hwf.setRegionName_of_mem hr (hbase.trans hrbase.symm) "program arguments"
    have hfits2 : s2.Fits (stackTop &&& 0xFFFFFFFFFFFFFF00).toNat (stackWords auxHost auxiliary arguments environmentVariables) :=
      ⟨hfits.1, fun a h1 h2 => hwritable a (hkeep a (hfits.2 a h1 h2))⟩
    obtain ⟨w1, w2, w3, data, memory, rsp, filepath, argv, envp, hfirst, hrest, henv, hdata, hpush, hlaid⟩ :=
      pushed_laidOut (s := s2) auxHost auxiliary hstrings (by omega)
        (fun a h1 h2 => hwritable a (hwf.writable_iff.2 ⟨r, hr, ⟨by omega, by omega⟩, by rw [hrprot]; rfl⟩)) rfl hfits2
        (fun a h1 h2 => hbeside a (hfits.2 a h1 h2))
    refine .inr ⟨⟨{ s2 with memory := memory }, rsp⟩, { r with name := "program arguments" }, filepath, argv, envp, ?_,
      hregion, rfl, ?_⟩
    · simp only [Stack.execStack, Stack.pushProgramArguments, hmap, hname, hfirst, hrest, henv, hdata, hpush, Option.bind_eq_bind,
        Option.bind_some]
    · rw [← hrbase, ← hrsize] at hlaid
      exact hlaid

/-- The host of a user's process. -/
def userHost : HostAuxiliary where
  getauxval type := if type = 23 then some 0 else some 1000

/-- A page for the stack. -/
def stackCalls : List MmuCall := [.mmap 0x10000 0x1000 Prot.READ_WRITE ⟨true, true⟩]

/-- The program `/p` with the argument `a` and the variable `E=`. -/
theorem arguments_laidOut_sample : ∃ s, (machine lenientHost).run (empty 1 (fun _ => 0)) stackCalls = some s ∧
    ∃ stack region filepath argv envp,
      Stack.execStack lenientHost userHost s 0x11000 [47, 112] [[97]] [[69, 61]] ⟨0, 0, 0, 0, 0, 0⟩ = some stack ∧
      region ∈ stack.mmu.regions ∧ region.name = "program arguments" ∧
      LaidOut userHost ⟨0, 0, 0, 0, 0, 0⟩ [47, 112] [[97]] [[69, 61]] stack.mmu.memory region.base region.size
        stack.rsp.toNat filepath argv envp := by
  obtain ⟨s, hs⟩ : ∃ s, (machine lenientHost).run (empty 1 (fun _ => 0)) stackCalls = some s :=
    Option.isSome_iff_exists.1 (by decide)
  have hreach : (machine lenientHost).Reachable s :=
    Machine.Reachable.run stackCalls (Machine.Reachable.init ⟨_, _, rfl⟩) hs
  have hregions : s.regions = [⟨0, 0x10000, 0x1000, Prot.READ_WRITE, "", false, true⟩] := by
    have hall : ((machine lenientHost).run (empty 1 (fun _ => 0)) stackCalls).map AddressSpace.regions =
        some [⟨0, 0x10000, 0x1000, Prot.READ_WRITE, "", false, true⟩] := by decide
    rw [hs] at hall
    exact Option.some.inj hall
  have hplace : ((mapArguments lenientHost s 0x1000).bind Prod.fst).isSome = true := by
    have hall : (((machine lenientHost).run (empty 1 (fun _ => 0)) stackCalls).bind
        (fun s => (mapArguments lenientHost s 0x1000).bind Prod.fst)).isSome = true := by decide
    rwa [hs] at hall
  have hfits : s.Fits ((0x11000 : UInt64) &&& 0xFFFFFFFFFFFFFF00).toNat
      (stackWords userHost ⟨0, 0, 0, 0, 0, 0⟩ [[97]] [[69, 61]]) := by
    have hwords : stackWords userHost ⟨0, 0, 0, 0, 0, 0⟩ [[97]] [[69, 61]] = 34 := by decide
    have hrsp : ((0x11000 : UInt64) &&& 0xFFFFFFFFFFFFFF00).toNat = 0x11000 := by decide
    rw [hwords, hrsp]
    refine ⟨by omega, fun a h1 h2 => (reachable_wf hreach).writable_iff.2 ?_⟩
    rw [hregions]
    exact ⟨_, List.mem_singleton.2 rfl, ⟨by simp only; omega, by simp only [top]; omega⟩, rfl⟩
  rcases arguments_laidOut lenientHost userHost hreach (lenientHost_grants _) [47, 112] [[97]] [[69, 61]] ⟨0, 0, 0, 0, 0, 0⟩
      0x11000 (by decide) hfits with ⟨s', hmap, -⟩ | hstack
  · have hsize : requiredSize [47, 112] [[97]] [[69, 61]] = 0x1000 := by decide
    rw [hsize] at hmap
    rw [hmap] at hplace
    cases hplace
  · exact ⟨s, hs, hstack⟩

end X64Emulator
