import X64Emulator.Base

/-!
# The call stack of a thread

What the interpreter keeps about the calls of a thread: three vectors with one element for each call, and the calls and returns
that the profiler is told of. The back of a vector is the head of its list. To read or to remove the back of an empty vector is
undefined, and leaves no thread.
-/

namespace X64Emulator

structure CallEvent where
  tick : UInt64
  address : UInt64
deriving DecidableEq, Repr

structure RetEvent where
  tick : UInt64
deriving DecidableEq, Repr

inductive ProfileEvent where
  | call (event : CallEvent)
  | ret (event : RetEvent)
deriving DecidableEq, Repr

namespace ProfileEvent

def isCall : ProfileEvent → Bool
  | .call _ => true
  | .ret _ => false

def isRet : ProfileEvent → Bool
  | .call _ => false
  | .ret _ => true

def asCall : ProfileEvent → Option CallEvent
  | .call event => some event
  | .ret _ => none

def asRet : ProfileEvent → Option RetEvent
  | .call _ => none
  | .ret event => some event

end ProfileEvent

structure ThreadProfileData where
  isProfiling : Bool := false
  callEvents : List CallEvent := []
  retEvents : List RetEvent := []
  /-- The events of both queues in the order in which they are recorded. The source keeps the queues only. -/
  recorded : List ProfileEvent := []
deriving DecidableEq, Repr

namespace ThreadProfileData

def setProfiling (d : ThreadProfileData) (isProfiling : Bool) : ThreadProfileData := { d with isProfiling := isProfiling }

def pushCallstack (d : ThreadProfileData) (time function : UInt64) : ThreadProfileData :=
  if d.isProfiling then
    { d with
      callEvents := d.callEvents ++ [⟨time, function⟩]
      recorded := d.recorded ++ [.call ⟨time, function⟩] }
  else d

def popCallstack (d : ThreadProfileData) (time : UInt64) : ThreadProfileData :=
  if d.isProfiling then
    { d with
      retEvents := d.retEvents ++ [⟨time⟩]
      recorded := d.recorded ++ [.ret ⟨time⟩] }
  else d

end ThreadProfileData

structure ThreadCallstackData where
  stack : List UInt64 := []
  callpoint : List UInt64 := []
  callstack : List UInt64 := []
deriving DecidableEq, Repr

namespace ThreadCallstackData

def pushCallstack (d : ThreadCallstackData) (stackptr src dst : UInt64) : ThreadCallstackData where
  stack := stackptr :: d.stack
  callpoint := src :: d.callpoint
  callstack := dst :: d.callstack

def popCallstack (d : ThreadCallstackData) : Option (UInt64 × ThreadCallstackData) := do
  let address ← d.callstack.head?
  let stack ← d.stack.tail?
  let callstack ← d.callstack.tail?
  let callpoint ← d.callpoint.tail?
  some (address, { stack := stack, callpoint := callpoint, callstack := callstack })

/-- The loop of `popCallstackUntil`, over the vector of stack pointers. -/
def popLoop (stackptr : UInt64) (callpoint callstack : List UInt64) (iterations : UInt32) :
    List UInt64 → Option (UInt32 × ThreadCallstackData)
  | [] => some (iterations, { stack := [], callpoint := callpoint, callstack := callstack })
  | stack :: below =>
    if stackptr ≤ stack then some (iterations, { stack := stack :: below, callpoint := callpoint, callstack := callstack })
    else do
      let callstack ← callstack.tail?
      let callpoint ← callpoint.tail?
      popLoop stackptr callpoint callstack (iterations + 1) below

def popCallstackUntil (d : ThreadCallstackData) (stackptr : UInt64) : Option (UInt32 × ThreadCallstackData) :=
  popLoop stackptr d.callpoint d.callstack 0 d.stack

end ThreadCallstackData

structure VMThread where
  profile : ThreadProfileData := {}
  data : ThreadCallstackData := {}
  functionCalls : UInt64 := 0
deriving DecidableEq, Repr

namespace VMThread

def pushCallstack (t : VMThread) (ns stackptr src dst : UInt64) : VMThread :=
  { t with profile := t.profile.pushCallstack ns dst, data := t.data.pushCallstack stackptr src dst }

def popCallstack (t : VMThread) (ns : UInt64) : Option VMThread := do
  let p ← t.data.popCallstack
  some { t with profile := t.profile.popCallstack ns, data := p.2 }

/-- A return is recorded for each frame that has been removed. -/
def recordReturns (ns : UInt64) (profile : ThreadProfileData) : Nat → ThreadProfileData
  | 0 => profile
  | n + 1 => recordReturns ns (profile.popCallstack ns) n

def popCallstackUntil (t : VMThread) (ns stackptr : UInt64) : Option VMThread := do
  let p ← t.data.popCallstackUntil stackptr
  some { t with profile := recordReturns ns t.profile p.1.toNat, data := p.2 }

/-- The thread that `Process::addThread` makes. -/
def create (isProfiling : Bool) : VMThread := { profile := ({} : ThreadProfileData).setProfiling isProfiling }

/-- What `clone` gives a new thread of the one that it is cloned from: its calls, but not its events. -/
def reportInfoFrom (t other : VMThread) : VMThread := { t with data := other.data }

end VMThread

/-- What the interpreter is told of while a thread runs, with the registers that are read then. -/
inductive CpuNotification where
  | call (rsp rip address : UInt64)
  | ret
  | stackChange (stackptr : UInt64)
deriving DecidableEq, Repr

namespace VMThread

/-- `VM::notifyCall`, `VM::notifyRet` and `VM::notifyStackChange` at the time `ns` of the thread, where there is no JIT. -/
def notify (t : VMThread) (ns : UInt64) : CpuNotification → Option VMThread
  | .call rsp rip address => some ({ t with functionCalls := t.functionCalls + 1 }.pushCallstack ns rsp rip address)
  | .ret => t.popCallstack ns
  | .stackChange stackptr => t.popCallstackUntil ns stackptr

end VMThread

end X64Emulator
