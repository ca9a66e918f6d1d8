import X64Emulator.Mmu

/-!
# The program arguments

What `ExecVE::exec` puts into the memory of a program: the strings of its arguments and of its environment, in a mapping of
their own, and on the stack their number, their addresses and the auxiliary vector.
-/

namespace X64Emulator

/-- The characters of a string. -/
abbrev Bytes := List UInt8

/-! ## The auxiliary vector -/

/-- `Host::AUX_TYPE` -/
inductive AuxType where
  | nil
  | entrypoint
  | programHeaders
  | programHeaderEntrySize
  | programHeaderCount
  | randomValueAddress
  | platformStringAddress
  | vdsoAddress
  | execFileDescriptor
  | execPathName
  | uid
  | gid
  | euid
  | egid
  | secure
deriving DecidableEq, Repr

/-- `Host::AuxVal` -/
structure AuxVal where
  type : UInt64
  value : UInt64
deriving DecidableEq, Repr

/-- The `getauxval` of the host's library, which may not know a type. -/
structure HostAuxiliary where
  getauxval : UInt64 → Option UInt64

namespace HostAuxiliary

def getDummy (type : UInt64) : Option AuxVal := some ⟨type, 0⟩

def get (host : HostAuxiliary) (type : UInt64) : Option AuxVal := (host.getauxval type).map (fun res => ⟨type, res⟩)

/-- `Host::getauxval`, with the numbers the host gives the types. -/
def auxval (host : HostAuxiliary) : AuxType → Option AuxVal
  | .uid => host.get 11
  | .gid => host.get 13
  | .euid => host.get 12
  | .egid => host.get 14
  | .secure => host.get 23
  | .nil => getDummy 0
  | .entrypoint => getDummy 9
  | .programHeaders => getDummy 3
  | .programHeaderEntrySize => getDummy 4
  | .programHeaderCount => getDummy 5
  | .randomValueAddress => getDummy 25
  | .platformStringAddress => getDummy 15
  | .vdsoAddress => getDummy 33
  | .execFileDescriptor => getDummy 2
  | .execPathName => getDummy 31

end HostAuxiliary

/-- The words of the vector so far. -/
structure AuxiliaryVector where
  data : List UInt64

namespace AuxiliaryVector

/-- `add` of a type: its value is the host's. -/
def addOf (host : HostAuxiliary) (v : AuxiliaryVector) (type : AuxType) : AuxiliaryVector :=
  match host.auxval type with
  | none => v
  | some typeAndValue => ⟨v.data ++ [typeAndValue.type, typeAndValue.value]⟩

/-- `add` of a type and a value. -/
def add (host : HostAuxiliary) (v : AuxiliaryVector) (type : AuxType) (value : UInt64) : AuxiliaryVector :=
  match host.auxval type with
  | none => v
  | some typeAndValue => ⟨v.data ++ [typeAndValue.type, value]⟩

def create (host : HostAuxiliary) (v : AuxiliaryVector) : Option (List UInt64) := do
  let nil ← host.auxval .nil
  some (v.data ++ [nil.type, nil.value])

end AuxiliaryVector

/-! ## The strings -/

/-- What the loader found out about the program. -/
structure Auxiliary where
  entrypoint : UInt64
  programHeaderTable : UInt64
  programHeaderCount : UInt32
  programHeaderEntrySize : UInt32
  randomDataAddress : UInt64
  platformStringAddress : UInt64

/-- The size of the mapping for the strings. -/
def requiredSize (programFilePath : Bytes) (arguments environmentVariables : List Bytes) : Nat :=
  let requiredSize := u64 (programFilePath.length + 1)
  let requiredSize := arguments.foldl (fun size arg => u64 (size + arg.length + 1)) requiredSize
  let requiredSize := environmentVariables.foldl (fun size var => u64 (size + var.length + 1)) requiredSize
  let requiredSize := u64 (requiredSize + 8 * (1 + arguments.length + environmentVariables.length))
  pageRoundUp requiredSize

/-- The mapping for the strings, behind a throwaway page. -/
def mapArguments (host : Host) (s : AddressSpace) (requiredSize : Nat) : Option (Option Nat × AddressSpace) := do
  let (_, s) ← s.mmap host 0 PAGE_SIZE.toUInt64 Prot.NONE ⟨false, false⟩
  s.mmap host 0 requiredSize.toUInt64 Prot.READ_WRITE ⟨false, false⟩

/-- What `writeArgument` works on. -/
structure ArgumentWriter where
  mmu : AddressSpace
  argumentPtr : UInt64
  argumentPositions : List UInt64

namespace ArgumentWriter

def writeArgument (w : ArgumentWriter) (s : Bytes) : Option ArgumentWriter := do
  let buffer := s ++ [0]
  verify (buffer.getLast? = some 0)
  let mmu ← w.mmu.copyToMmu w.argumentPtr (fun i => buffer.getD i 0) buffer.length
  some ⟨mmu, w.argumentPtr + buffer.length.toUInt64, w.argumentPositions ++ [w.argumentPtr]⟩

/-- The null that ends a list of positions. -/
def pushNull (w : ArgumentWriter) : ArgumentWriter := { w with argumentPositions := w.argumentPositions ++ [0] }

end ArgumentWriter

/-- The auxiliary vector of a program whose path was written to an address. -/
def auxiliaryVector (host : HostAuxiliary) (auxiliary : Auxiliary) (filepath : UInt64) : AuxiliaryVector :=
  AuxiliaryVector.mk []
    |>.add host .entrypoint auxiliary.entrypoint
    |>.add host .programHeaders auxiliary.programHeaderTable
    |>.add host .programHeaderEntrySize auxiliary.programHeaderEntrySize.toUInt64
    |>.add host .programHeaderCount auxiliary.programHeaderCount.toUInt64
    |>.add host .randomValueAddress auxiliary.randomDataAddress
    |>.add host .platformStringAddress auxiliary.platformStringAddress
    |>.add host .vdsoAddress 0
    |>.add host .execPathName filepath
    |>.addOf host .uid
    |>.addOf host .gid
    |>.addOf host .euid
    |>.addOf host .egid
    |>.addOf host .secure

/-! ## The stack -/

/-- `Mmu::write64`: the bytes of the word are copied as they lie in the host's memory, the lowest first. -/
def AddressSpace.write64 (s : AddressSpace) (address value : UInt64) : Option AddressSpace := do
  let region ← s.findAddress address.toNat
  verify (region.prot.write)
  some { s with memory := fun a =>
    if address.toNat ≤ a ∧ a < address.toNat + 8 then UInt8.ofNat (value.toNat / 256 ^ (a - address.toNat)) else s.memory a }

/-- The memory and the stack pointer that `push64` works on. -/
structure Stack where
  mmu : AddressSpace
  rsp : UInt64

namespace Stack

def push64 (stack : Stack) (value : UInt64) : Option Stack := do
  let rsp := stack.rsp - 8
  let mmu ← stack.mmu.write64 rsp value
  some ⟨mmu, rsp⟩

/-- The word that lets the others end at a multiple of 16. -/
def pushAlignment (stack : Stack) (nbElementsOnStack : Nat) : Option Stack :=
  if nbElementsOnStack % 2 = 1 then stack.push64 0 else some stack

/-- The words of the auxiliary vector, of the positions and of the number of the arguments, the last first. -/
def pushWords (stack : Stack) (data argumentPositions : List UInt64) (argc : UInt64) : Option Stack := do
  let nbElementsOnStack := data.length + argumentPositions.length + 1
  let stack ← stack.pushAlignment nbElementsOnStack
  let stack ← data.reverse.foldlM push64 stack
  let stack ← argumentPositions.reverse.foldlM push64 stack
  stack.push64 argc

def pushProgramArguments (host : Host) (auxHost : HostAuxiliary) (stack : Stack) (programFilePath : Bytes)
    (arguments environmentVariables : List Bytes) (auxiliary : Auxiliary) : Option Stack := do
  let (argumentPage, mmu) ← mapArguments host stack.mmu (requiredSize programFilePath arguments environmentVariables)
  let argumentPage ← argumentPage
  let mmu ← mmu.setRegionName argumentPage.toUInt64 "program arguments"
  let filepath := argumentPage.toUInt64
  let w ← ArgumentWriter.writeArgument ⟨mmu, filepath, []⟩ programFilePath
  let w ← arguments.foldlM ArgumentWriter.writeArgument w
  let w := w.pushNull
  let w ← environmentVariables.foldlM ArgumentWriter.writeArgument w
  let w := w.pushNull
  let data ← (auxiliaryVector auxHost auxiliary filepath).create auxHost
  pushWords ⟨w.mmu, stack.rsp⟩ data w.argumentPositions (arguments.length + 1).toUInt64

/-- What `ExecVE::exec` does to the stack of the program's first thread. -/
def execStack (host : Host) (auxHost : HostAuxiliary) (mmu : AddressSpace) (stackTop : UInt64) (programFilePath : Bytes)
    (arguments environmentVariables : List Bytes) (auxiliary : Auxiliary) : Option Stack :=
  pushProgramArguments host auxHost ⟨mmu, stackTop &&& 0xFFFFFFFFFFFFFF00⟩ programFilePath arguments environmentVariables auxiliary

end Stack

end X64Emulator
