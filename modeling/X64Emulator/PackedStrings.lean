import X64Emulator.Lib.Masks
import X64Emulator.Packed

/-!
# Comparisons of packed strings

`pcmpistri` and `pcmpestri`. The four templates of the source differ in the width and the number of the elements, and in where the
lengths of the strings come from. Behind them stands what the architecture says of the comparison.
-/

namespace X64Emulator

open Lanes

/-- `DATA_FORMAT` -/
inductive DataFormat where
  | unsignedByte
  | unsignedWord
  | signedByte
  | signedWord
deriving DecidableEq, Repr

/-- `AGGREGATION_OPERATION` -/
inductive Aggregation where
  | equalAny
  | ranges
  | equalEach
  | equalOrdered
deriving DecidableEq, Repr

/-- `POLARITY` -/
inductive Polarity where
  | positive
  | negative
  | maskedPositive
  | maskedNegative
deriving DecidableEq, Repr

/-- `OUTPUT_SELECTION` -/
inductive OutputSelection where
  | leastSignificantIndex
  | mostSignificantIndex
deriving DecidableEq, Repr

namespace CpuImpl

/-! ## The control byte -/

def dataFormat (control : BitVec 8) : DataFormat :=
  let bits := control &&& 0x3
  if bits = 0 then .unsignedByte else if bits = 1 then .unsignedWord else if bits = 2 then .signedByte else .signedWord

def aggregation (control : BitVec 8) : Aggregation :=
  let bits := (control >>> 2) &&& 0x3
  if bits = 0 then .equalAny else if bits = 1 then .ranges else if bits = 2 then .equalEach else .equalOrdered

def polarity (control : BitVec 8) : Polarity :=
  let bits := (control >>> 4) &&& 0x3
  if bits = 0 then .positive else if bits = 1 then .negative else if bits = 2 then .maskedPositive else .maskedNegative

def outputSelection (control : BitVec 8) : OutputSelection :=
  let bits := (control >>> 6) &&& 0x1
  if bits = 0 then .leastSignificantIndex else .mostSignificantIndex

/-! ## The templates -/

/-- The elements of an operand, as numbers. -/
def elements (w : Nat) (signed : Bool) (x : U128) (i : Nat) : Int :=
  if signed then (lane w x.bits i).toInt else (lane w x.bits i).toNat

variable (n : Nat) (ones : BitVec 32) (DST SRC : Nat → Int) (invaliddst invalidsrc : Nat)

/-- The loops of the operations. -/
def intres1 : Aggregation → BitVec 32
  | .equalEach =>
    (List.range n).foldl (fun intres1 i =>
      let overrideIfInvalid (res : Bool) : Bool :=
        if i ≥ invaliddst ∧ i ≥ invalidsrc then true
        else if i ≥ invaliddst then false
        else if i ≥ invalidsrc then false
        else res
      intres1 ||| Masks.flag 32 (overrideIfInvalid (DST i = SRC i)) i) 0
  | .equalAny =>
    (List.range n).foldl (fun intres1 i =>
      (List.range n).foldl (fun intres1 j =>
        let overrideIfInvalid (res : Bool) : Bool := if i ≥ invaliddst ∨ j ≥ invalidsrc then false else res
        intres1 ||| Masks.flag 32 (overrideIfInvalid (DST i = SRC j)) j) intres1) 0
  | .ranges =>
    (List.range n).foldl (fun intres1 j =>
      (List.range (n / 2)).foldl (fun intres1 half =>
        let i := 2 * half
        let overrideIfInvalid (res : Bool) : Bool := if i ≥ invaliddst ∨ j ≥ invalidsrc then false else res
        let overrideIfInvalidp (res : Bool) : Bool := if i + 1 ≥ invaliddst ∨ j ≥ invalidsrc then false else res
        intres1 ||| (Masks.flag 32 (overrideIfInvalid (SRC j ≥ DST i)) j &&&
          Masks.flag 32 (overrideIfInvalidp (SRC j ≤ DST (i + 1))) j)) intres1) 0
  | .equalOrdered =>
    (List.range n).foldl (fun intres1 j =>
      let maskj := ~~~(1#32 <<< j)
      (List.range (n - j)).foldl (fun intres1 i =>
        let k := j + i
        let overrideIfInvalid (res : Bool) : Bool :=
          if i ≥ invaliddst then true else if k ≥ invalidsrc then false else res
        intres1 &&& (maskj ||| Masks.flag 32 (overrideIfInvalid (DST i = SRC k)) j)) intres1) ones

def intres2 (intres1 : BitVec 32) : Polarity → BitVec 32
  | .positive => intres1
  | .negative => ones ^^^ intres1
  | .maskedPositive => intres1
  | .maskedNegative =>
    (List.range n).foldl (fun intres2 i =>
      intres2 ||| ((if i ≥ invalidsrc then intres1 else ~~~intres1) &&& 1#32 <<< i)) 0

def outputIndex (intres2 : BitVec 32) : OutputSelection → Nat
  | .leastSignificantIndex => Masks.lowest intres2 n 0
  | .mostSignificantIndex => if intres2 ≠ 0 then Masks.highest intres2 n else n

/-- `pcmpistri8` and its siblings, behind the lengths. The flags `sign` and `zero` come from the strings. -/
def pcmpstri (control : BitVec 8) (sign zero : Bool) (flags : Flags) : BitVec 32 × Flags :=
  let intres2 := intres2 n ones invalidsrc (intres1 n ones DST SRC invaliddst invalidsrc (aggregation control)) (polarity control)
  (BitVec.ofNat 32 (outputIndex n intres2 (outputSelection control)), { flags with
    carry := intres2 ≠ 0
    overflow := intres2 &&& 1 ≠ 0
    sign := sign
    zero := zero
    parity := false })

/-- Where the first zero is. -/
def implicitLength (string : Nat → Int) : Nat := (List.range n).findIdx fun i => string i = 0

def anyZero (string : Nat → Int) : Bool := (List.range n).any fun i => string i = 0

def explicitLength (len : BitVec 32) : Nat := if len.toInt < -n ∨ len.toInt > n then n else len.toInt.natAbs

variable (signed : Bool) (dst : U128) (lendst : BitVec 32) (src : U128) (lensrc : BitVec 32) (control : BitVec 8) (flags : Flags)

def pcmpistri8 : BitVec 32 × Flags :=
  let DST8 := elements 8 signed dst
  let SRC8 := elements 8 signed src
  pcmpstri 16 0xFFFF DST8 SRC8 (implicitLength 16 DST8) (implicitLength 16 SRC8) control (anyZero 16 DST8) (anyZero 16 SRC8)
    flags

def pcmpistri16 : BitVec 32 × Flags :=
  let DST16 := elements 16 signed dst
  let SRC16 := elements 16 signed src
  pcmpstri 8 0xFF DST16 SRC16 (implicitLength 8 DST16) (implicitLength 8 SRC16) control (anyZero 8 DST16) (anyZero 8 SRC16)
    flags

def pcmpistri : BitVec 32 × Flags :=
  match dataFormat control with
  | .signedByte => pcmpistri8 true dst src control flags
  | .unsignedByte => pcmpistri8 false dst src control flags
  | .signedWord => pcmpistri16 true dst src control flags
  | .unsignedWord => pcmpistri16 false dst src control flags

def pcmpestri8 : BitVec 32 × Flags :=
  let invaliddst := explicitLength 16 lendst
  let invalidsrc := explicitLength 16 lensrc
  pcmpstri 16 0xFFFF (elements 8 signed dst) (elements 8 signed src) invaliddst invalidsrc control (invaliddst < 16)
    (invalidsrc < 16) flags

def pcmpestri16 : BitVec 32 × Flags :=
  let invaliddst := explicitLength 8 lendst
  let invalidsrc := explicitLength 8 lensrc
  pcmpstri 8 0xFF (elements 16 signed dst) (elements 16 signed src) invaliddst invalidsrc control (invaliddst < 8)
    (invalidsrc < 8) flags

def pcmpestri : BitVec 32 × Flags :=
  match dataFormat control with
  | .signedByte => pcmpestri8 true dst lendst src lensrc control flags
  | .unsignedByte => pcmpestri8 false dst lendst src lensrc control flags
  | .signedWord => pcmpestri16 true dst lendst src lensrc control flags
  | .unsignedWord => pcmpestri16 false dst lendst src lensrc control flags

end CpuImpl

/-! ## The architecture -/

/-- Two strings of at most `n` elements. -/
structure StringPair where
  n : Nat
  first : Nat → Int
  second : Nat → Int
  firstLength : Nat
  secondLength : Nat

namespace StringPair

/-- The first zero of a string, or the number of elements. -/
def EndsAt (n : Nat) (string : Nat → Int) (length : Nat) : Prop :=
  length ≤ n ∧ (∀ i < length, string i ≠ 0) ∧ (length < n → string length = 0)

/-- The number of elements of an operand. -/
def count : DataFormat → Nat
  | .unsignedByte => 16
  | .signedByte => 16
  | .unsignedWord => 8
  | .signedWord => 8

/-- The elements of an operand. -/
def operand (x : U128) : DataFormat → Nat → Int
  | .unsignedByte => CpuImpl.elements 8 false x
  | .signedByte => CpuImpl.elements 8 true x
  | .unsignedWord => CpuImpl.elements 16 false x
  | .signedWord => CpuImpl.elements 16 true x

/-- The strings in two operands. -/
def ofOperands (format : DataFormat) (dst src : U128) (firstLength secondLength : Nat) : StringPair :=
  ⟨count format, operand dst format, operand src format, firstLength, secondLength⟩

/-- The comparison of an element of the first string with one of the second. -/
def compares (s : StringPair) (operation : Aggregation) (i j : Nat) : Prop :=
  match operation with
  | .ranges => if i % 2 = 0 then s.first i ≤ s.second j else s.second j ≤ s.first i
  | _ => s.first i = s.second j

/-- What takes its place when one of the elements is behind the end of its string. -/
def overridden (s : StringPair) (operation : Aggregation) (i j : Nat) : Prop :=
  if i < s.firstLength then
    if j < s.secondLength then s.compares operation i j else False
  else
    match operation with
    | .equalAny => False
    | .ranges => False
    | .equalEach => ¬ j < s.secondLength
    | .equalOrdered => True

/-- Bit `j` of the intermediate result. -/
def intRes1 (s : StringPair) (operation : Aggregation) (j : Nat) : Prop :=
  match operation with
  | .equalAny => ∃ i < s.n, s.overridden .equalAny i j
  | .ranges => ∃ i < s.n, i % 2 = 0 ∧ s.overridden .ranges i j ∧ s.overridden .ranges (i + 1) j
  | .equalEach => s.overridden .equalEach j j
  | .equalOrdered => ∀ i, j + i < s.n → s.overridden .equalOrdered i (j + i)

def intRes2 (s : StringPair) (operation : Aggregation) (polarity : Polarity) (j : Nat) : Prop :=
  match polarity with
  | .positive => s.intRes1 operation j
  | .negative => ¬ s.intRes1 operation j
  | .maskedPositive => s.intRes1 operation j
  | .maskedNegative => if j < s.secondLength then ¬ s.intRes1 operation j else s.intRes1 operation j

/-- The least or the most significant place with a bit, or the number of elements if there is none. -/
def IsIndex (n : Nat) (bit : Nat → Prop) (output : OutputSelection) (out : Nat) : Prop :=
  (out = n ∧ ∀ j < n, ¬ bit j) ∨
    (out < n ∧ bit out ∧ ∀ j < n, bit j →
      match output with
      | .leastSignificantIndex => out ≤ j
      | .mostSignificantIndex => j ≤ out)

/-- What a comparison has to return for a control byte, and what it does to the flags. -/
structure Returns (s : StringPair) (control : BitVec 8) (flags : Flags) (result : BitVec 32 × Flags) : Prop where
  index : IsIndex s.n (s.intRes2 (CpuImpl.aggregation control) (CpuImpl.polarity control)) (CpuImpl.outputSelection control)
    result.1.toNat
  carry : result.2.carry = true ↔ ∃ j < s.n, s.intRes2 (CpuImpl.aggregation control) (CpuImpl.polarity control) j
  overflow : result.2.overflow = true ↔ s.intRes2 (CpuImpl.aggregation control) (CpuImpl.polarity control) 0
  sign : result.2.sign = true ↔ s.firstLength < s.n
  zero : result.2.zero = true ↔ s.secondLength < s.n
  parity : result.2.parity = false
  direction : result.2.direction = flags.direction
  identification : result.2.identification = flags.identification

end StringPair

end X64Emulator
