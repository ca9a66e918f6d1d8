import X64Emulator.Base
import X64Emulator.Lib.Cells
import X64Emulator.Lib.Machine
import X64Emulator.Lib.Ranges

/-!
# The memory management unit

The regions of an address space, the table that finds the region of a page, and the calls that change them: `mmap`, `munmap`,
`mprotect`, `brk` and `setRegionName`. A call whose verification fails is `none`. What the registered callbacks hear is kept
in the order they hear it, since no call of the unit depends on what a callback does beyond its failing.
-/

namespace X64Emulator

/-- A set of `PROT` flags. -/
structure Prot where
  read : Bool
  write : Bool
  exec : Bool
deriving DecidableEq, Repr

namespace Prot

def NONE : Prot := ⟨false, false, false⟩

def WRITE : Prot := ⟨false, true, false⟩

def READ_WRITE : Prot := ⟨true, true, false⟩

def isNone (p : Prot) : Bool := !p.read && !p.write && !p.exec

end Prot

/-- The `MAP` flags the unit looks at. -/
structure MapFlags where
  fixed : Bool
  noReplace : Bool
deriving DecidableEq, Repr

/-- The protection a host mapping is asked to take: the guest's right to execute is not passed on. -/
structure HostProtection where
  read : Bool
  write : Bool
deriving DecidableEq, Repr

def toHostProtection (prot : Prot) : HostProtection := ⟨prot.read, prot.write⟩

/-- The host: whether it lets a part of the reserved range, given by its offset and size, take a protection. -/
structure Host where
  tryProtectVirtualMemoryRange : Nat → Nat → HostProtection → Bool

/-- A call of a registered `Mmu::Callback`. -/
inductive Notification where
  | onRegionCreation (base length : Nat) (prot : Prot)
  | onRegionProtectionChange (base length : Nat) (protBefore protAfter : Prot)
  | onRegionDestruction (base length : Nat) (prot : Prot)
deriving DecidableEq, Repr

/-- A region object. Two regions with the same fields are still two objects, which `ptr` tells apart. -/
structure MmuRegion where
  ptr : Nat
  base : Nat
  size : Nat
  prot : Prot
  name : String
  requiresMemsetToZero : Bool
  activated : Bool
deriving DecidableEq, Repr

/-- The bytes of the reserved range, by their offset from its base. -/
abbrev Memory := Nat → UInt8

/-- An address space with the unit that works on it. -/
structure AddressSpace where
  regions : List MmuRegion
  regionLookup : List (Option Nat)
  firstUnlookupdableAddress : Nat
  topOfReserved : Nat
  virtualMemoryInMB : UInt32
  memory : Memory
  nextRegion : Nat
  notifications : List Notification

def PAGE_SIZE : Nat := 0x1000

def EACCES : Int := 13

def ENOMEM : Int := 12

def isPageAligned (address : Nat) : Prop := address % PAGE_SIZE = 0

instance (address : Nat) : Decidable (isPageAligned address) := inferInstanceAs (Decidable (_ = _))

def pageRoundUp (address : Nat) : Nat := (u64 (address + PAGE_SIZE - 1) / PAGE_SIZE) * PAGE_SIZE

namespace MmuRegion

def end_ (r : MmuRegion) : Nat := u64 (r.base + r.size)

def contains (r : MmuRegion) (address : Nat) : Bool := decide (r.base ≤ address) && decide (address < r.end_)

def intersectsRange (r : MmuRegion) (base end_ : Nat) : Bool := decide (max r.base base < min r.end_ end_)

def append (r region : MmuRegion) : Option MmuRegion := do
  verify (r.activated = false)
  verify (region.base = r.end_)
  verify (region.prot = r.prot)
  verify (region.name = r.name ∨ region.name = "")
  some { r with size := u64 (r.size + region.size) }

/-- The region cut at an address: what is left of it, and the new region `ptr` with the rest. -/
def splitAt (r : MmuRegion) (address ptr : Nat) : Option (MmuRegion × MmuRegion) := do
  verify (r.activated = false)
  verify (r.contains address)
  verify (address ≠ r.base)
  some ({ r with size := sub64 address r.base },
    { ptr := ptr, base := address, size := sub64 r.end_ address, prot := r.prot, name := r.name,
      requiresMemsetToZero := false, activated := false })

def setEnd (r : MmuRegion) (newEnd : Nat) : Option MmuRegion := do
  verify (r.activated = false)
  some { r with size := pageRoundUp (sub64 (u64 (r.size + newEnd)) r.end_) }

end MmuRegion

/-- The memory with a range set to zero. -/
def memsetZero (memory : Memory) (base size : Nat) : Memory :=
  fun a => if base ≤ a ∧ a < base + size then 0 else memory a

/-- The region and the memory after the host took the protection, the memory zeroed first when the region still needs it. -/
def applyRegionProtection (host : Host) (region : MmuRegion) (prot : Prot) (memory : Memory) :
    Option (MmuRegion × Memory) := do
  if region.requiresMemsetToZero then
    verify (host.tryProtectVirtualMemoryRange region.base region.size (toHostProtection Prot.WRITE))
    verify (host.tryProtectVirtualMemoryRange region.base region.size (toHostProtection prot))
    some ({ region with requiresMemsetToZero := false }, memsetZero memory region.base region.size)
  else
    verify (host.tryProtectVirtualMemoryRange region.base region.size (toHostProtection prot))
    some (region, memory)

/-- One turn of the loop of `fillRegionLookup`: the page is in the table and has no region yet. -/
def fillPage (ptr : Nat) : List (Option Nat) → Nat → Option (List (Option Nat)) :=
  Cells.write (fun cell => cell = some none) (some ptr)

/-- One turn of the loop of `invalidateRegionLookup`: the page is in the table. -/
def clearPage : List (Option Nat) → Nat → Option (List (Option Nat)) :=
  Cells.write (fun cell => cell.isSome) none

namespace AddressSpace

/-- An address space with nothing mapped, over a reserved range that holds any bytes. -/
def empty (virtualMemoryInMB : UInt32) (memory : Memory) : AddressSpace where
  regions := []
  regionLookup := []
  firstUnlookupdableAddress := 0
  topOfReserved := 0
  virtualMemoryInMB := virtualMemoryInMB
  memory := memory
  nextRegion := 0
  notifications := []

/-- The size of the reserved range. -/
def memorySize (s : AddressSpace) : Nat := s.virtualMemoryInMB.toNat * 1024 * 1024

def notify (s : AddressSpace) (n : Notification) : AddressSpace := { s with notifications := s.notifications ++ [n] }

/-- The region object a pointer of the lookup table points to. -/
def regionAt (s : AddressSpace) (ptr : Nat) : Option MmuRegion := s.regions.find? (fun r => r.ptr = ptr)

def findAddress (s : AddressSpace) (address : Nat) : Option MmuRegion :=
  if s.firstUnlookupdableAddress ≤ address then none
  else (s.regionLookup[address / PAGE_SIZE]?.join).bind s.regionAt

def findRegion (s : AddressSpace) (name : String) : Option MmuRegion := s.regions.find? (fun r => r.name = name)

def fillRegionLookup (s : AddressSpace) (region : MmuRegion) : Option AddressSpace := do
  verify (isPageAligned region.base)
  verify (isPageAligned region.end_)
  let startPage := region.base / PAGE_SIZE
  let endPage := region.end_ / PAGE_SIZE
  verify (startPage < endPage)
  let resized := s.regionLookup ++ List.replicate (endPage - s.regionLookup.length) none
  let lookup ← (List.range' startPage (endPage - startPage)).foldlM (fillPage region.ptr) resized
  some { s with
    regionLookup := lookup
    firstUnlookupdableAddress :=
      if s.regionLookup.length < endPage then endPage * PAGE_SIZE else s.firstUnlookupdableAddress }

def invalidateRegionLookup (s : AddressSpace) (region : MmuRegion) : Option AddressSpace := do
  verify (isPageAligned region.base)
  verify (isPageAligned region.end_)
  let startPage := region.base / PAGE_SIZE
  let endPage := region.end_ / PAGE_SIZE
  verify (startPage < endPage)
  verify (endPage ≤ s.regionLookup.length)
  let lookup ← (List.range' startPage (endPage - startPage)).foldlM clearPage s.regionLookup
  some { s with regionLookup := lookup }

/-- The region joins the table; it is written in the list as it is once it is active, since nothing reads the list before. -/
def addRegion (host : Host) (s : AddressSpace) (region : MmuRegion) : Option AddressSpace := do
  verify (∀ r ∈ s.regions, ¬ r.contains region.base ∧ ¬ r.contains (sub64 region.end_ 1))
  let s := s.notify (.onRegionCreation region.base region.size region.prot)
  let s ← s.fillRegionLookup region
  let (region, memory) ← applyRegionProtection host region region.prot s.memory
  some { s with regions := Ranges.insert MmuRegion.base { region with activated := true } s.regions, memory := memory }

/-- The two overloads of `takeRegion`: the first region that matches leaves the table. -/
def takeRegion (host : Host) (s : AddressSpace) (isMatch : MmuRegion → Bool) : Option (MmuRegion × AddressSpace) := do
  let region ← s.regions.find? isMatch
  let (region, memory) ← applyRegionProtection host region Prot.NONE s.memory
  let s ← s.invalidateRegionLookup region
  let s := { s with regions := s.regions.filter (fun r => r.ptr ≠ region.ptr), memory := memory }
  some ({ region with activated := false }, s.notify (.onRegionDestruction region.base region.size region.prot))

/-- `takeRegion(base, size)` -/
def takeRegionAt (host : Host) (s : AddressSpace) (base size : Nat) : Option (MmuRegion × AddressSpace) :=
  s.takeRegion host (fun r => r.base = base && r.size = size)

/-- `takeRegion(name)` -/
def takeRegionNamed (host : Host) (s : AddressSpace) (name : String) : Option (MmuRegion × AddressSpace) :=
  s.takeRegion host (fun r => r.name = name)

def makeRegion (s : AddressSpace) (base size : Nat) (prot : Prot) : Option (MmuRegion × AddressSpace) := do
  verify (u64 (base + size) ≤ s.memorySize)
  verify (isPageAligned base)
  verify (isPageAligned size)
  let region : MmuRegion :=
    { ptr := s.nextRegion, base := base, size := size, prot := prot, name := "",
      requiresMemsetToZero := false, activated := false }
  some (region, { s with nextRegion := s.nextRegion + 1 })

def split (host : Host) (s : AddressSpace) (address : Nat) : Option AddressSpace := do
  verify (isPageAligned address)
  match s.findAddress address with
  | none => some s
  | some containingRegion =>
    if address = containingRegion.base then some s
    else
      let (region, s) ← s.takeRegionAt host containingRegion.base containingRegion.size
      let (region, newRegion) ← region.splitAt address s.nextRegion
      let s ← { s with nextRegion := s.nextRegion + 1 }.addRegion host region
      s.addRegion host newRegion

/-- The regions of a list are taken one after the other, and dropped. -/
def dropRegions (host : Host) (s : AddressSpace) (regionsToRemove : List MmuRegion) : Option AddressSpace :=
  regionsToRemove.foldlM (fun s region => (s.takeRegionAt host region.base region.size).map (·.2)) s

def addRegionAndEraseExisting (host : Host) (s : AddressSpace) (region : MmuRegion) : Option AddressSpace := do
  verify (0 < region.size)
  let s ← s.split host region.base
  let s ← s.split host region.end_
  let s ← s.dropRegions host
    (s.regions.filter (fun r => r.contains region.base || r.contains (sub64 region.end_ 1)))
  s.addRegion host region

def topOfMemoryPageAligned (s : AddressSpace) : Nat :=
  pageRoundUp (s.regions.foldl (fun top r => max top r.end_) s.topOfReserved)

/-- The first of two neighbours of a list that satisfy the predicate. -/
def adjacentFind (p : MmuRegion → MmuRegion → Bool) : List MmuRegion → Option MmuRegion
  | a :: b :: l => if p a b then some a else adjacentFind p (b :: l)
  | _ => none

def firstFitPageAligned (s : AddressSpace) (length : Nat) : Option Nat := do
  verify (0 < length)
  let length := pageRoundUp length
  match adjacentFind (fun a b => decide (u64 (a.end_ + length) ≤ b.base)) s.regions with
  | none => some s.topOfMemoryPageAligned
  | some a => some a.end_

/-- Where `mmap` puts a region of a length. -/
def mmapBase (s : AddressSpace) (address length : Nat) (flags : MapFlags) : Option Nat :=
  if flags.fixed then some address else s.firstFitPageAligned length

/-- How `mmap` gives the region its place: a fixed region that may replace others erases them. -/
def placeRegion (host : Host) (s : AddressSpace) (region : MmuRegion) (flags : MapFlags) : Option AddressSpace :=
  if flags.fixed && !flags.noReplace then s.addRegionAndEraseExisting host region else s.addRegion host region

/-- The result is the base address, or nothing when the reserved range is too short. -/
def mmap (host : Host) (s : AddressSpace) (address length : UInt64) (prot : Prot) (flags : MapFlags) :
    Option (Option Nat × AddressSpace) := do
  verify (isPageAligned address.toNat)
  let length := pageRoundUp length.toNat
  let baseAddress ← s.mmapBase address.toNat length flags
  if s.memorySize < u64 (baseAddress + length) then some (none, s)
  else
    let (region, s) ← s.makeRegion baseAddress length prot
    let s ← s.placeRegion host { region with requiresMemsetToZero := true } flags
    some (some baseAddress, s)

def munmap (host : Host) (s : AddressSpace) (address length : UInt64) : Option (Int × AddressSpace) := do
  verify (isPageAligned address.toNat)
  let address := address.toNat
  let end_ := u64 (address + pageRoundUp length.toNat)
  let s ← s.split host address
  let s ← s.split host end_
  let s ← s.dropRegions host (s.regions.filter (·.intersectsRange address end_))
  some (0, s)

/-- Whether the regions of a list that meet a range follow each other without a hole; `lastEnd` is where the last one ended. -/
def contiguous (address end_ : Nat) : Option Nat → List MmuRegion → Bool
  | lastEnd, [] => lastEnd.isSome
  | lastEnd, r :: l =>
    if !r.intersectsRange address end_ then contiguous address end_ lastEnd l
    else if lastEnd.isSome && decide (lastEnd ≠ some r.base) then false
    else contiguous address end_ (some r.end_) l

/-- The loop of `mprotect` that gives the regions of a range their new protection. -/
def protectRegions (host : Host) (address end_ : Nat) (prot : Prot) :
    List MmuRegion → Memory → List Notification → Option (List MmuRegion × Memory × List Notification)
  | [], memory, notifications => some ([], memory, notifications)
  | r :: l, memory, notifications =>
    if !r.intersectsRange address end_ then do
      let (l, memory, notifications) ← protectRegions host address end_ prot l memory notifications
      some (r :: l, memory, notifications)
    else do
      let notifications := notifications ++ [.onRegionProtectionChange r.base r.size r.prot prot]
      let (r, memory) ← applyRegionProtection host { r with prot := prot } prot memory
      let (l, memory, notifications) ← protectRegions host address end_ prot l memory notifications
      some (r :: l, memory, notifications)

def mprotect (host : Host) (s : AddressSpace) (address length : UInt64) (prot : Prot) : Option (Int × AddressSpace) := do
  verify (isPageAligned address.toNat)
  if prot.exec && prot.write then some (-EACCES, s)
  else
    let address := address.toNat
    let end_ := u64 (address + pageRoundUp length.toNat)
    if !contiguous address end_ none s.regions then some (-ENOMEM, s)
    else
      let s ← s.split host address
      let s ← s.split host end_
      let (regions, memory, notifications) ← protectRegions host address end_ prot s.regions s.memory s.notifications
      some (0, { s with regions := regions, memory := memory, notifications := notifications })

def setRegionName (s : AddressSpace) (address : UInt64) (name : String) : Option AddressSpace := do
  let region ← s.findAddress address.toNat
  some { s with regions := s.regions.map (fun r => if r.ptr = region.ptr then { r with name := name } else r) }

/-- Whether `brk` leaves the break where it is: no change is asked for, or the way to the address is not free. -/
def brkRefused (s : AddressSpace) (heapRegion : MmuRegion) (address : Nat) : Bool :=
  let currentBrk := heapRegion.end_
  decide (address = currentBrk) || decide (s.memorySize < address) ||
    (s.findAddress address).any (fun r => r.ptr ≠ heapRegion.ptr) ||
    s.regions.any (fun r => decide (r.ptr ≠ heapRegion.ptr) && decide (currentBrk ≤ r.base) && decide (r.end_ ≤ address))

def brkGrow (host : Host) (s : AddressSpace) (address : Nat) : Option (Nat × AddressSpace) := do
  let (heap, s) ← s.takeRegionNamed host "heap"
  let extensionBase := heap.end_
  let extensionSize := pageRoundUp (sub64 address heap.end_)
  let (extension, s) ← s.makeRegion extensionBase extensionSize Prot.READ_WRITE
  let s ← s.addRegion host { extension with requiresMemsetToZero := true }
  let (extension, s) ← s.takeRegionAt host extensionBase extensionSize
  let heap ← heap.append extension
  let s ← s.addRegion host heap
  some (heap.end_, s)

def brkShrink (host : Host) (s : AddressSpace) (address : Nat) : Option (Nat × AddressSpace) := do
  let (heap, s) ← s.takeRegionNamed host "heap"
  let heap ← heap.setEnd address
  let s ← s.addRegion host heap
  some (heap.end_, s)

def brk (host : Host) (s : AddressSpace) (address : UInt64) : Option (Nat × AddressSpace) := do
  let heapRegion ← s.findRegion "heap"
  if s.brkRefused heapRegion address.toNat then some (heapRegion.end_, s)
  else if heapRegion.end_ < address.toNat then s.brkGrow host address.toNat
  else s.brkShrink host address.toNat

/-- What the constructor of the unit does to the first pages. -/
def ensureNullPage (host : Host) (s : AddressSpace) : Option AddressSpace :=
  match s.findAddress 0 with
  | none => do
    let (nullpage, s) ← s.makeRegion 0 (16 * PAGE_SIZE) Prot.NONE
    s.addRegion host { nullpage with name := "nullpage" }
  | some maybeNullpage => do
    verify (maybeNullpage.prot.isNone)
    some s

/-- The regions from the last to the first, as the list is when their turn comes. -/
def clearAllRegions (host : Host) (s : AddressSpace) : Option AddressSpace := s.dropRegions host s.regions.reverse

/-- A guest write of one byte. -/
def write8 (s : AddressSpace) (address : UInt64) (value : UInt8) : Option AddressSpace := do
  let region ← s.findAddress address.toNat
  verify (region.prot.write)
  some { s with memory := fun a => if a = address.toNat then value else s.memory a }

/-- `n` bytes are copied to an address in a writable region. -/
def copyToMmu (s : AddressSpace) (dst : UInt64) (src : Memory) (n : Nat) : Option AddressSpace := do
  if n = 0 then some s
  else
    let region ← s.findAddress dst.toNat
    verify (region.prot.write)
    some { s with memory := fun a => if dst.toNat ≤ a ∧ a < dst.toNat + n then src (a - dst.toNat) else s.memory a }

end AddressSpace

/-- An address space that is cloned into, and the source it reads. -/
structure ClonedSpaces where
  target : AddressSpace
  source : AddressSpace

namespace ClonedSpaces

/-- The bytes of a readable region of the source are copied to its clone. -/
def copyReadable (source mmu : AddressSpace) (region : MmuRegion) (base : Nat) : Option AddressSpace :=
  if region.prot.read then
    mmu.copyToMmu base.toUInt64 (fun i => source.memory (region.base + i)) region.size
  else some mmu

/-- One turn of the loop of `AddressSpace::clone`. What `mprotect` returns is not looked at. -/
def cloneRegion (host : Host) (s : ClonedSpaces) (region : MmuRegion) : Option ClonedSpaces := do
  let (base, mmu) ← s.target.mmap host region.base.toUInt64 region.size.toUInt64 Prot.READ_WRITE ⟨true, true⟩
  let base ← base
  let mmu ← mmu.setRegionName base.toUInt64 region.name
  let mmu ← copyReadable s.source mmu region base
  let (_, mmu) ← mmu.mprotect host base.toUInt64 region.size.toUInt64 region.prot
  some { s with target := mmu }

/-- `AddressSpace::clone` -/
def clone (host : Host) (s : ClonedSpaces) : Option ClonedSpaces := do
  verify (s.target.regions = [])
  s.source.regions.foldlM (cloneRegion host) s

end ClonedSpaces

/-- The calls that change an address space. -/
inductive MmuCall where
  | mmap (address length : UInt64) (prot : Prot) (flags : MapFlags)
  | munmap (address length : UInt64)
  | mprotect (address length : UInt64) (prot : Prot)
  | brk (address : UInt64)
  | setRegionName (address : UInt64) (name : String)
  | ensureNullPage
  | clearAllRegions
  | write8 (address : UInt64) (value : UInt8)

namespace AddressSpace

def step (host : Host) (s : AddressSpace) : MmuCall → Option AddressSpace
  | .mmap address length prot flags => (s.mmap host address length prot flags).map (·.2)
  | .munmap address length => (s.munmap host address length).map (·.2)
  | .mprotect address length prot => (s.mprotect host address length prot).map (·.2)
  | .brk address => (s.brk host address).map (·.2)
  | .setRegionName address name => s.setRegionName address name
  | .ensureNullPage => s.ensureNullPage host
  | .clearAllRegions => s.clearAllRegions host
  | .write8 address value => s.write8 address value

/-- The address spaces of a host: any calls in any order from a space with nothing mapped. -/
def machine (host : Host) : Machine AddressSpace MmuCall where
  init s := ∃ virtualMemoryInMB memory, s = empty virtualMemoryInMB memory
  step := step host

end AddressSpace

end X64Emulator
