import X64Emulator.Kernel
import X64Emulator.Lemmas.FileRuns
import X64Emulator.Lemmas.OpenFiles
import X64Emulator.Theorems.FixedMmap
import X64Emulator.Theorems.Protecting

/-!
# Mappings of files

A mapping of a file that cannot be read should leave the address space as it was, and one that can be read should not fail. The
mapping is there before the file is read and it stays, and a mapping that is writable and executable cannot be protected again.
-/

namespace X64Emulator

open Outcome

/-- What is seen of a region. -/
def MmuRegion.shape (r : MmuRegion) : Nat × Nat × Prot × String := (r.base, r.size, r.prot, r.name)

namespace AddressSpace

open MmuRegion

/-- The regions are the same, with their protections and their names, and so are the bytes in them. -/
structure SameSpace (s s' : AddressSpace) : Prop where
  regions : ∀ shape, shape ∈ s'.regions.map MmuRegion.shape ↔ shape ∈ s.regions.map MmuRegion.shape
  contents : ∀ r ∈ s.regions, ∀ a, r.base ≤ a → a < r.top → s'.memory a = s.memory a

/-- A fixed mapping would replace a region of zeros by one like it. -/
def MapsTheSame (s : AddressSpace) (addr length : UInt64) (prot : Prot) (flags : MapFlags) : Prop :=
  flags.fixed = true ∧ flags.noReplace = false ∧ ∃ r ∈ s.regions, r.shape = (addr.toNat, roundedLength length.toNat, prot, "") ∧
    ∀ a, r.base ≤ a → a < r.top → s.memory a = 0

/-! ## What a mapping leaves -/

/-- A split at an end of a region changes nothing. -/
theorem SplitAt.eq_of_end {s s' : AddressSpace} (hw : s.Wf) {address : Nat} (h : s.SplitAt address s') {q : MmuRegion}
    (hq : q ∈ s.regions) (hend : address = q.base ∨ address = q.top) : s' = s := by
  rcases h.regions with ⟨hsame, -⟩ | ⟨r, hr, hlow, hhigh, -⟩
  · exact hsame
  · exfalso
    have hlt := (hw.sound q hq).lt
    rcases hend with rfl | rfl
    · obtain rfl := hw.eq_of_shared hr hq ⟨Nat.le_of_lt hlow, hhigh⟩ ⟨Nat.le_refl _, hlt⟩
      omega
    · have hshared := hw.eq_of_shared (a := q.top - 1) hr hq ⟨by omega, by omega⟩ ⟨by omega, by omega⟩
      subst hshared
      omega

/-- A region that is replaced by one like it leaves no trace, if it was full of zeros. -/
theorem Replaced.same {s s' : AddressSpace} (hw : s.Wf) {r q : MmuRegion} (hr : r.Sound s.memorySize) (h : s.Replaced r s')
    (hz : r.requiresMemsetToZero = true) (hq : q ∈ s.regions) (hshape : q.shape = r.shape)
    (hzero : ∀ a, q.base ≤ a → a < q.top → s.memory a = 0) : s.SameSpace s' := by
  obtain ⟨s1, s2, s3, h1, h2, h3, h4⟩ := h
  obtain ⟨hb, hs, hp, hn⟩ : q.base = r.base ∧ q.size = r.size ∧ q.prot = r.prot ∧ q.name = r.name := by
    simp only [shape, Prod.mk.injEq] at hshape
    exact hshape
  have htop : q.top = r.top := by rw [top, top, hb, hs]
  obtain rfl := h1.eq_of_end hw hq (.inl hb.symm)
  obtain rfl := h2.eq_of_end hw hq (.inr htop.symm)
  have hlt := hr.lt
  -- the one region that goes is the one that is replaced
  have herase : ∀ x, x ∈ s2.toErase r ↔ x = q := by
    intro x
    rw [hw.mem_toErase hr]
    constructor
    · rintro ⟨hx, hfirst | hlast⟩
      · exact hw.eq_of_shared hx hq hfirst ⟨by omega, by omega⟩
      · exact hw.eq_of_shared hx hq hlast ⟨by omega, by omega⟩
    · rintro rfl
      exact ⟨hq, .inl ⟨by omega, by omega⟩⟩
  have hsettled : r.settled.shape = q.shape := hshape.symm
  refine ⟨fun shape => ?_, fun x hx a ha1 ha2 => ?_⟩
  · simp only [List.mem_map, h4.mem_regions, h3.mem_regions, herase]
    constructor
    · rintro ⟨x, rfl | ⟨hx, -⟩, rfl⟩
      · exact ⟨q, hq, hsettled.symm⟩
      · exact ⟨x, hx, rfl⟩
    · rintro ⟨x, hx, rfl⟩
      by_cases heq : x = q
      · subst heq
        exact ⟨r.settled, .inl rfl, hsettled⟩
      · exact ⟨x, .inr ⟨hx, heq⟩, rfl⟩
  · rw [h4.memory, if_pos hz, memsetZero, h3.memory]
    split
    · next hin =>
      have heq := hw.eq_of_shared hx hq ⟨ha1, ha2⟩ ⟨by omega, by simp only [top] at *; omega⟩
      subst heq
      exact (hzero a ha1 ha2).symm
    · rfl

/-- A mapping leaves the space as it was exactly when it replaces a region of zeros by one like it. -/
theorem Wf.mmap_same_iff {host : Host} {s s' : AddressSpace} (h : s.Wf) {addr length : UInt64} {prot : Prot} {flags : MapFlags}
    {base : Nat} (hm : s.mmap host addr length prot flags = some (some base, s')) :
    s.SameSpace s' ↔ s.MapsTheSame addr length prot flags := by
  obtain ⟨-, -, hin, hzero⟩ := h.mmap_region hm
  obtain ⟨hsound, hmade⟩ := h.mmap_made hm
  constructor
  · intro hsame
    obtain ⟨q, hq, hshape⟩ := List.mem_map.1 ((hsame.regions _).1 (List.mem_map.2 ⟨_, hin, rfl⟩))
    obtain ⟨hb, hs, -, -⟩ : q.base = base ∧ q.size = roundedLength length.toNat ∧ q.prot = prot ∧ q.name = "" := by
      simp only [shape, newRegion, Prod.mk.injEq] at hshape
      exact hshape
    rcases hmade with ⟨hfixed, hno, rfl, -⟩ | ⟨-, hadded⟩
    · refine ⟨hfixed, hno, q, hq, hshape, fun a ha1 ha2 => ?_⟩
      rw [← hsame.contents q hq a ha1 ha2]
      exact hzero a (by omega) (by simp only [top] at ha2; omega)
    · exfalso
      have hpos := hsound.nonempty
      have hapart := hadded.apart q hq
      simp only [top, newRegion] at hapart hpos
      omega
  · rintro ⟨hfixed, hno, q, hq, hshape, hqzero⟩
    rcases hmade with ⟨-, -, rfl, hreplaced⟩ | ⟨hnot, -⟩
    · have hwf : ({ s with nextRegion := s.nextRegion + 1 } : AddressSpace).Wf := h.congr rfl rfl rfl rfl (Nat.le_succ _)
      obtain ⟨hregions, hcontents⟩ := hreplaced.same hwf hsound rfl hq hshape hqzero
      exact ⟨hregions, hcontents⟩
    · exact absurd ⟨hfixed, hno⟩ hnot

/-! ## Filling a mapping -/

/-- All of a mapping takes a protection that is not both writable and executable. -/
theorem Wf.mprotect_holds {host : Host} {s : AddressSpace} (h : s.Wf) (hg : host.Grants s.memorySize) {base length : UInt64}
    {prot prot' : Prot} (hb : base.toNat % PAGE_SIZE = 0) (hpos : 0 < roundedLength length.toNat)
    (hlt : base.toNat + roundedLength length.toNat < 2 ^ 64) (hh : s.Holds base.toNat (roundedLength length.toNat) prot)
    (hp : ¬ (prot'.exec && prot'.write) = true) :
    ∃ s', s.mprotect host base length prot' = some (0, s') ∧ s'.Wf ∧ s'.memorySize = s.memorySize ∧
      s'.Holds base.toNat (roundedLength length.toNat) prot' := by
  have hcontiguous := h.contiguous_of_holds hb hpos hh
  obtain ⟨s', hcall, hpages⟩ := h.mprotect_contiguous hg hb hp hlt hcontiguous
  refine ⟨s', hcall, h.mprotect hcall, h.mprotect_memorySize hcall, fun page hin => ?_⟩
  obtain ⟨name, hinfo⟩ := hh page hin
  refine ⟨name, ?_⟩
  rw [hpages, hinfo]
  exact if_pos hin

/-- Bytes can be copied to where the mapping is writable, and only bytes change. -/
theorem copyToMmu_isSome {s : AddressSpace} {dst : UInt64} {r : MmuRegion} (h : s.findAddress dst.toNat = some r)
    (hwrite : r.prot.write = true) (src : Memory) (n : Nat) :
    ∃ memory, s.copyToMmu dst src n = some { s with memory := memory } := by
  unfold copyToMmu
  split
  · exact ⟨s.memory, rfl⟩
  · rw [h]
    exact ⟨_, by rw [Option.bind_eq_bind, Option.bind_some, verify_of hwrite]; rfl⟩

end AddressSpace

theorem ofUnit_eq_ok {α : Type} {x : Option α} {a : α} : ofUnit x = .ok a ↔ x = some a := by
  cases x with
  | none => simp [ofUnit]
  | some b => simp [ofUnit]

namespace FS

variable {fs fs' : FS} {host : HostFiles} {ofd : OpenFileDescription} {count : Nat} {result : ReadResult}

/-- A read changes no name, and no directory. -/
theorem readFile_sameTree (h : fs.readFile host ofd count = .ok (fs', result)) :
    fs.SameTree fs' ∧ fs'.descriptions = fs.descriptions := by
  obtain ⟨file, hfile, ⟨p, side, -, hpipe⟩ | ⟨-, -, rfl⟩ | ⟨counter, hkind, -, rfl⟩⟩ := readFile_cases h
  · obtain ⟨pipe, -, ⟨-, -, -, rfl⟩ | ⟨-, -, -, rfl⟩ | ⟨-, -, rfl⟩⟩ := readPipe_cases hpipe
    · exact ⟨.refl _, rfl⟩
    · exact ⟨.refl _, rfl⟩
    · exact ⟨.of_files rfl rfl rfl, rfl⟩
  · exact ⟨.refl _, rfl⟩
  · refine ⟨.modifyFile fun file' hfile' => ?_, rfl⟩
    obtain rfl := Option.some.inj (hfile.symm.trans hfile')
    exact (similar_event hkind).toSameNode

theorem SameTree.filename (h : fs.SameTree fs') (hd : fs'.descriptions = fs.descriptions) {descriptor : Option FileDescriptor}
    {name : String} (hn : fs.filename descriptor = .ok name) : fs'.filename descriptor = .ok name := by
  cases descriptor with
  | none => exact hn
  | some descriptor =>
    obtain ⟨ofd, hofd, hn⟩ := bind_eq_ok.1 hn
    obtain ⟨path, hpath, hn⟩ := bind_eq_ok.1 hn
    refine bind_eq_ok.2 ⟨ofd, description_eq_ok.2 ?_, bind_eq_ok.2 ⟨path, h.path hpath, hn⟩⟩
    rw [hd]
    exact description_eq_ok.1 hofd

/-- The name of a file is the same after a read of it. -/
theorem preadThrough_filename {descriptor : Option FileDescriptor} {offset : Int}
    (h : fs.preadThrough host descriptor count offset = .ok (fs', result)) (name : String) :
    fs'.filename descriptor = .ok name ↔ fs.filename descriptor = .ok name := by
  have hsame : fs.SameTree fs' ∧ fs'.descriptions = fs.descriptions := by
    cases descriptor with
    | none =>
      obtain rfl := (ok_pair h).1
      exact ⟨.refl _, rfl⟩
    | some descriptor =>
      obtain ⟨ofd, -, hread, -⟩ := pread_cases h
      exact readFile_sameTree hread
  exact ⟨hsame.1.symm.filename hsame.2.symm, hsame.1.filename hsame.2⟩

end FS

namespace MappingState

open AddressSpace

variable {s : MappingState} {host : Host} {hostFiles : HostFiles} {fds : FileDescriptors} {addr length : UInt64} {prot : Prot}
  {flags : SysMapFlags} {fd offset : Int}

/-- The mapping is filled exactly when it is not both writable and executable, and the file has a name. -/
theorem fillMapping_iff (hw : s.mmu.Wf) (hg : host.Grants s.mmu.memorySize) {r : MmuRegion} (hr : r ∈ s.mmu.regions)
    {base : UInt64} (hb : r.base = base.toNat) (hs : r.size = roundedLength length.toNat) (descriptor : Option FileDescriptor)
    (buffer : List UInt8) : (∃ s', s.fillMapping host descriptor base length buffer = .ok s') ↔
      ¬ (r.prot.exec && r.prot.write) = true ∧ ∃ name, s.fs.filename descriptor = .ok name := by
  have hsound := hw.sound r hr
  have haligned := hsound.base_aligned
  have hpos := hsound.nonempty
  have hlt : base.toNat + roundedLength length.toNat < 2 ^ 64 := by
    rw [← hb, ← hs]
    exact Nat.lt_of_le_of_lt hsound.top_le s.mmu.memorySize_lt
  have hh := hw.holds hr
  rw [hb] at haligned
  rw [hs] at hpos
  rw [hb, hs] at hh
  have hsaved : s.mmu.prot base.toNat = r.prot := by
    obtain ⟨q, hq, hprot⟩ := findAddress_of_holds haligned hpos hh
    rw [AddressSpace.prot, hq]
    exact hprot
  -- up to the second change of the protection nothing goes wrong
  have hwritable : ¬ (({ r.prot with write := true, exec := false } : Prot).exec &&
      ({ r.prot with write := true, exec := false } : Prot).write) = true := by simp
  obtain ⟨s1, hprotect, hw1, hsize1, hh1⟩ := hw.mprotect_holds hg haligned hpos hlt hh hwritable
  obtain ⟨q, hq, hqprot⟩ := findAddress_of_holds haligned hpos hh1
  obtain ⟨memory, hcopy⟩ := copyToMmu_isSome hq (by rw [hqprot]) (fun i => buffer.getD i 0) buffer.length
  have hw2 : ({ s1 with memory := memory } : AddressSpace).Wf := hw1.congr rfl rfl rfl rfl (Nat.le_refl _)
  have hg2 : host.Grants ({ s1 with memory := memory } : AddressSpace).memorySize := by
    have hsize2 : ({ s1 with memory := memory } : AddressSpace).memorySize = s.mmu.memorySize := hsize1
    rw [hsize2]
    exact hg
  have hh2 : ({ s1 with memory := memory } : AddressSpace).Holds base.toNat (roundedLength length.toNat) _ := hh1
  have hzero : (0 : Int) ≤ 0 := Int.le_refl 0
  constructor
  · rintro ⟨s', h⟩
    obtain ⟨⟨ret1, mmu1⟩, h1, h⟩ := bind_eq_ok.1 h
    obtain ⟨_, -, h⟩ := bind_eq_ok.1 h
    obtain ⟨mmu2, h2, h⟩ := bind_eq_ok.1 h
    obtain ⟨⟨ret3, mmu3⟩, h3, h⟩ := bind_eq_ok.1 h
    obtain ⟨_, hret, h⟩ := bind_eq_ok.1 h
    obtain ⟨name, hname, -⟩ := bind_eq_ok.1 h
    refine ⟨fun hboth => ?_, name, hname⟩
    -- a protection that is both is refused
    rw [ofUnit_eq_ok, hsaved, AddressSpace.mprotect, if_pos hboth] at h3
    obtain ⟨_, -, h3⟩ := Option.bind_eq_some_iff.1 h3
    obtain ⟨rfl, -⟩ := Prod.mk.inj (Option.some.inj h3)
    exact absurd (check_eq_ok.1 hret) (by decide)
  · rintro ⟨hnot, name, hname⟩
    obtain ⟨s3, hrestore, hw3, -, hh3⟩ := hw2.mprotect_holds hg2 haligned hpos hlt hh2 hnot
    obtain ⟨q3, hq3, -⟩ := findAddress_of_holds haligned hpos hh3
    have hnamed : ∃ s4, s3.setRegionName base name = some s4 := by
      rw [setRegionName, hq3]
      exact ⟨_, rfl⟩
    obtain ⟨s4, hnamed⟩ := hnamed
    refine ⟨{ s with mmu := s4 }, bind_eq_ok.2 ⟨(0, s1), ?_, bind_eq_ok.2 ⟨(), check_eq_ok.2 hzero, bind_eq_ok.2 ⟨_,
      ofUnit_eq_ok.2 hcopy, bind_eq_ok.2 ⟨(0, s3), ?_, bind_eq_ok.2 ⟨(), check_eq_ok.2 hzero, bind_eq_ok.2 ⟨name, hname,
      bind_eq_ok.2 ⟨s4, ofUnit_eq_ok.2 hnamed, rfl⟩⟩⟩⟩⟩⟩⟩⟩
    · rw [ofUnit_eq_ok, hsaved]
      exact hprotect
    · rw [ofUnit_eq_ok, hsaved]
      exact hrestore

/-- What should hold of a mapping of a file: where it fails the space is as it was, and where a mapping without a file is made
it does not fail in the middle. -/
structure MapsCleanly (s : MappingState) (host : Host) (hostFiles : HostFiles) (fds : FileDescriptors) (addr length : UInt64)
    (prot : Prot) (flags : SysMapFlags) (fd offset : Int) : Prop where
  failed : ∀ s' errno, s.sysMmap host hostFiles fds addr length prot flags fd offset = .ok (s', .error errno) →
    s.mmu.SameSpace s'.mmu
  mapped : (∃ base mmu, s.mmu.mmap host addr length prot flags.mapFlags = some (some base, mmu)) →
    ∃ r, s.sysMmap host hostFiles fds addr length prot flags fd offset = .ok r

/-- The descriptor has a number and a file with a name, and a read of the file gives its bytes for a mapping that is not both
writable and executable, or an error for a mapping that replaces one like it. -/
def Mappable (s : MappingState) (hostFiles : HostFiles) (fds : FileDescriptors) (addr length : UInt64) (prot : Prot)
    (flags : SysMapFlags) (fd offset : Int) : Prop :=
  0 ≤ fd ∧ (∃ name, s.fs.filename (fds.findFileDescriptor fd) = .ok name) ∧
    ∃ fs result, s.fs.preadThrough hostFiles (fds.findFileDescriptor fd) length.toNat offset = .ok (fs, result) ∧
      ((∃ data, result = .bytes data ∧ ¬ (prot.exec && prot.write) = true) ∨
        (∃ errno, result = .error errno ∧ s.mmu.MapsTheSame addr length prot flags.mapFlags))

/-- Where the unit makes no mapping, the call fails with it or changes nothing. -/
theorem mapsCleanly_of_not_made (hno : ∀ base mmu, s.mmu.mmap host addr length prot flags.mapFlags ≠ some (some base, mmu)) :
    s.MapsCleanly host hostFiles fds addr length prot flags fd offset := by
  refine ⟨fun s' errno h => ?_, ?_⟩
  · obtain ⟨⟨base?, mmu⟩, hmade, h⟩ := bind_eq_ok.1 h
    rw [ofUnit_eq_ok] at hmade
    cases base? with
    | some base => exact absurd hmade (hno base mmu)
    | none =>
      obtain rfl := (ok_pair h).1
      obtain ⟨base, -, ⟨-, rfl⟩ | ⟨hsome, -⟩⟩ := AddressSpace.mmap_cases hmade
      · exact ⟨fun _ => Iff.rfl, fun _ _ _ _ _ => rfl⟩
      · cases hsome
  · rintro ⟨base, mmu, hmade⟩
    exact absurd hmade (hno base mmu)

/-- Once there is a mapping the file is read, and the call gives the error or fills the mapping. -/
theorem sysMmap_made {base : Nat} {mmu : AddressSpace} (hmap : s.mmu.mmap host addr length prot flags.mapFlags = some (some base, mmu))
    (hfile : flags.isAnonymous = false) (r : MappingState × ErrnoOr Nat) :
    s.sysMmap host hostFiles fds addr length prot flags fd offset = .ok r ↔ 0 ≤ fd ∧
      ∃ fs result, s.fs.preadThrough hostFiles (fds.findFileDescriptor fd) length.toNat offset = .ok (fs, result) ∧
        ((∃ errno name, result = .error errno ∧ fs.filename (fds.findFileDescriptor fd) = .ok name ∧
            r = (⟨mmu, fs⟩, .error errno)) ∨
          ∃ buffer s', result = .bytes buffer ∧ (⟨mmu, fs⟩ : MappingState).fillMapping host (fds.findFileDescriptor fd)
            base.toUInt64 length buffer = .ok s' ∧ r = (s', .ok base)) := by
  constructor
  · intro h
    obtain ⟨made, hmade, h⟩ := bind_eq_ok.1 h
    obtain rfl := Option.some.inj (hmap.symm.trans (ofUnit_eq_ok.1 hmade))
    simp only [hfile, Bool.false_eq_true, if_false] at h
    obtain ⟨_, hfd, h⟩ := bind_eq_ok.1 h
    obtain ⟨⟨fs, result⟩, hread, h⟩ := bind_eq_ok.1 h
    refine ⟨check_eq_ok.1 hfd, fs, result, hread, ?_⟩
    cases result with
    | blocked => cases h
    | error errno =>
      obtain ⟨name, hname, h⟩ := bind_eq_ok.1 h
      exact .inl ⟨errno, name, rfl, hname, (Except.ok.inj h).symm⟩
    | bytes buffer =>
      obtain ⟨s', hfill, h⟩ := bind_eq_ok.1 h
      exact .inr ⟨buffer, s', rfl, hfill, (Except.ok.inj h).symm⟩
  · rintro ⟨hfd, fs, result, hread, hresult⟩
    refine bind_eq_ok.2 ⟨_, ofUnit_eq_ok.2 hmap, ?_⟩
    simp only [hfile, Bool.false_eq_true, if_false]
    refine bind_eq_ok.2 ⟨(), check_eq_ok.2 hfd, bind_eq_ok.2 ⟨_, hread, ?_⟩⟩
    rcases hresult with ⟨errno, name, rfl, hname, rfl⟩ | ⟨buffer, s', rfl, hfill, rfl⟩
    · exact bind_eq_ok.2 ⟨name, hname, rfl⟩
    · exact bind_eq_ok.2 ⟨s', hfill, rfl⟩

/-- A file is mapped cleanly exactly when no mapping is made for it, or it is `Mappable`. -/
theorem mapsCleanly_iff (h : (machine host).Reachable s.mmu) (hg : host.Grants s.mmu.memorySize)
    (hfile : flags.isAnonymous = false) : s.MapsCleanly host hostFiles fds addr length prot flags fd offset ↔
      ((∃ base mmu, s.mmu.mmap host addr length prot flags.mapFlags = some (some base, mmu)) →
        s.Mappable hostFiles fds addr length prot flags fd offset) := by
  have hw := reachable_wf h
  by_cases hmade : ∃ base mmu, s.mmu.mmap host addr length prot flags.mapFlags = some (some base, mmu)
  swap
  · refine iff_of_true (mapsCleanly_of_not_made fun base mmu heq => hmade ⟨base, mmu, heq⟩) ?_
    intro h
    exact absurd h hmade
  obtain ⟨base, mmu, hmap⟩ := hmade
  obtain ⟨hw1, hsize, hin, -⟩ := hw.mmap_region hmap
  have hg1 : host.Grants mmu.memorySize := by
    rw [hsize]
    exact hg
  have hbase : base = base.toUInt64.toNat := by
    have htop := (hw1.sound _ hin).top_le
    have hlt := mmu.memorySize_lt
    simp only [MmuRegion.top, MmuRegion.settled, newRegion] at htop
    rw [Nat.toUInt64, UInt64.toNat_ofNat']
    omega
  have hfills : ∀ fs buffer, (∃ s', (⟨mmu, fs⟩ : MappingState).fillMapping host (fds.findFileDescriptor fd) base.toUInt64 length
      buffer = .ok s') ↔ ¬ (prot.exec && prot.write) = true ∧ ∃ name, fs.filename (fds.findFileDescriptor fd) = .ok name := by
    intro fs buffer
    exact fillMapping_iff (s := ⟨mmu, fs⟩) hw1 hg1 hin hbase rfl _ buffer
  have hcall : ∀ r, s.sysMmap host hostFiles fds addr length prot flags fd offset = .ok r ↔ _ := sysMmap_made hmap hfile
  constructor
  · intro hclean _
    obtain ⟨r, hr⟩ := hclean.mapped ⟨base, mmu, hmap⟩
    obtain ⟨hfd, fs, result, hread, hresult⟩ := (hcall r).1 hr
    rcases hresult with ⟨errno, name, rfl, hname, rfl⟩ | ⟨buffer, s', rfl, hfill, rfl⟩
    · refine ⟨hfd, ⟨name, (FS.preadThrough_filename hread name).1 hname⟩, fs, _, hread, .inr ⟨errno, rfl, ?_⟩⟩
      exact (hw.mmap_same_iff hmap).1 (hclean.failed _ _ hr)
    · obtain ⟨hnot, name, hname⟩ := (hfills fs buffer).1 ⟨s', hfill⟩
      exact ⟨hfd, ⟨name, (FS.preadThrough_filename hread name).1 hname⟩, fs, _, hread, .inl ⟨buffer, rfl, hnot⟩⟩
  · intro hmappable
    obtain ⟨hfd, ⟨name, hname⟩, fs, result, hread, hresult⟩ := hmappable ⟨base, mmu, hmap⟩
    have hname' := (FS.preadThrough_filename hread name).2 hname
    rcases hresult with ⟨buffer, rfl, hnot⟩ | ⟨errno, rfl, hsame⟩
    · obtain ⟨s', hfill⟩ := (hfills fs buffer).2 ⟨hnot, name, hname'⟩
      refine ⟨fun s1 errno h1 => ?_, fun _ => ⟨_, (hcall _).2 ⟨hfd, fs, _, hread, .inr ⟨buffer, s', rfl, hfill, rfl⟩⟩⟩⟩
      -- the call does not give an error
      have hgives := (hcall _).2 ⟨hfd, fs, _, hread, .inr ⟨buffer, s', rfl, hfill, rfl⟩⟩
      have hvalue := (ok_pair (h1.symm.trans hgives)).2
      cases hvalue
    · have hgives := (hcall _).2 ⟨hfd, fs, _, hread, .inl ⟨errno, name, rfl, hname', rfl⟩⟩
      refine ⟨fun s1 errno1 h1 => ?_, fun _ => ⟨_, hgives⟩⟩
      obtain rfl := (ok_pair (h1.symm.trans hgives)).1
      exact (hw.mmap_same_iff hmap).2 hsame

/-! ## Samples -/

/-- The flags of a mapping of a file at an address. -/
def atAddress : SysMapFlags := ⟨false, true, false⟩

/-- A file in memory is mapped for reading. -/
theorem mapsCleanly_read_only : ∃ files, (FileState.machine 1).Reachable files ∧ files.tables = [[some ⟨0, false⟩]] ∧
    (⟨single, files.fs⟩ : MappingState).MapsCleanly lenientHost bareHost [some ⟨0, false⟩] 0x20000 0x1000 ⟨true, false, false⟩
      atAddress 0 0 := by
  have hrun : ((FileState.machine 1).run FileState.first [FileState.createsMemory ['m']]).map (fun files =>
      decide (files.tables = [[some ⟨0, false⟩]] ∧ (files.fs.filename (some ⟨0, false⟩)).isOk = true ∧
        (files.fs.preadThrough bareHost (some ⟨0, false⟩) 0x1000 0).map Prod.snd = .ok (.bytes []))) = some true := by
    decide
  obtain ⟨files, hfiles, hfound⟩ := Option.map_eq_some_iff.1 hrun
  obtain ⟨htables, hname, hread⟩ := of_decide_eq_true hfound
  refine ⟨files, (Machine.Reachable.init FileState.first_isNew).run _ hfiles, htables, ?_⟩
  refine (mapsCleanly_iff single_reachable (lenientHost_grants _) rfl).2 fun _ => ⟨Int.le_refl 0, ?_, ?_⟩
  · cases heq : files.fs.filename (some ⟨0, false⟩) with
    | ok name => exact ⟨name, heq⟩
    | error e =>
      rw [heq] at hname
      cases hname
  · obtain ⟨⟨fs, result⟩, hread, hresult⟩ := map_eq_ok.1 hread
    exact ⟨fs, result, hread, .inl ⟨[], hresult, by decide⟩⟩

/-- A mapping stays though there is no file, and a file is not mapped both writable and executable. -/
theorem mapsCleanly_fails : ∃ files, (FileState.machine 1).Reachable files ∧ files.tables = [[some ⟨0, false⟩]] ∧
    (∃ s', (⟨single, files.fs⟩ : MappingState).sysMmap lenientHost bareHost [some ⟨0, false⟩] 0x20000 0x1000 ⟨true, false, false⟩
      atAddress 7 0 = .ok (s', .error (-EBADF)) ∧ ¬ single.SameSpace s'.mmu) ∧
    (∃ base mmu, single.mmap lenientHost 0x20000 0x1000 ⟨true, true, true⟩ atAddress.mapFlags = some (some base, mmu)) ∧
    (⟨single, files.fs⟩ : MappingState).sysMmap lenientHost bareHost [some ⟨0, false⟩] 0x20000 0x1000 ⟨true, true, true⟩ atAddress
      0 0 = .error .verification := by
  have hrun : ((FileState.machine 1).run FileState.first [FileState.createsMemory ['m']]).map (fun files =>
      decide (files.tables = [[some ⟨0, false⟩]] ∧
        ((⟨single, files.fs⟩ : MappingState).sysMmap lenientHost bareHost [some ⟨0, false⟩] 0x20000 0x1000
            ⟨true, false, false⟩ atAddress 7 0).map (fun r => (r.2, decide ((0x20000, 0x1000, (⟨true, false, false⟩ : Prot), "") ∈
              r.1.mmu.regions.map MmuRegion.shape))) = .ok (.error (-EBADF), true) ∧
        ((⟨single, files.fs⟩ : MappingState).sysMmap lenientHost bareHost [some ⟨0, false⟩] 0x20000 0x1000
            ⟨true, true, true⟩ atAddress 0 0).map Prod.snd = .error .verification)) = some true := by decide
  have hmade : (single.mmap lenientHost 0x20000 0x1000 ⟨true, true, true⟩ atAddress.mapFlags).map Prod.fst =
      some (some 0x20000) := by decide
  have hbefore : (0x20000, 0x1000, (⟨true, false, false⟩ : Prot), "") ∉ single.regions.map MmuRegion.shape := by
    decide
  obtain ⟨files, hfiles, hfound⟩ := Option.map_eq_some_iff.1 hrun
  obtain ⟨htables, hfailed, hboth⟩ := of_decide_eq_true hfound
  refine ⟨files, (Machine.Reachable.init FileState.first_isNew).run _ hfiles, htables, ?_, ?_, ?_⟩
  · obtain ⟨⟨s', errno⟩, hcall, heq⟩ := map_eq_ok.1 hfailed
    obtain ⟨rfl, hin⟩ := Prod.mk.inj heq
    exact ⟨s', hcall, fun hsame => hbefore ((hsame.regions _).1 (of_decide_eq_true hin))⟩
  · obtain ⟨⟨base?, mmu⟩, hmap, rfl⟩ := Option.map_eq_some_iff.1 hmade
    exact ⟨_, mmu, hmap⟩
  · cases heq : (⟨single, files.fs⟩ : MappingState).sysMmap lenientHost bareHost [some ⟨0, false⟩] 0x20000 0x1000
        ⟨true, true, true⟩ atAddress 0 0 with
    | ok r =>
      rw [heq] at hboth
      cases hboth
    | error e =>
      rw [heq] at hboth
      exact congrArg Except.error (Except.error.inj hboth)

end MappingState

end X64Emulator
