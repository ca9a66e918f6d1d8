import X64Emulator.Base

/-!
# Kernel time

Points in time, differences of them, and the timers that blocked threads look at. A timer shows the time of its last update.
-/

namespace X64Emulator

def NS_PER_S : Nat := 1000000000

structure PreciseTime where
  seconds : Nat
  nanoseconds : Nat
deriving DecidableEq, Repr

structure TimeDifference where
  seconds : Nat
  nanoseconds : Nat
deriving DecidableEq, Repr

namespace TimeDifference

def fromNanoSeconds (ns : Nat) : TimeDifference :=
  if NS_PER_S < ns then ⟨ns / NS_PER_S, ns % NS_PER_S⟩ else ⟨0, ns⟩

def count (dt : TimeDifference) : Nat := u64 (u64 (dt.seconds * NS_PER_S) + dt.nanoseconds)

end TimeDifference

namespace PreciseTime

def zero : PreciseTime := ⟨0, 0⟩

def count (t : PreciseTime) : Nat := u64 (u64 (t.seconds * NS_PER_S) + t.nanoseconds)

/-- `operator<` -/
def lt (a b : PreciseTime) : Bool :=
  if a.seconds < b.seconds then true
  else if b.seconds < a.seconds then false
  else decide (a.nanoseconds < b.nanoseconds)

/-- `operator>` -/
def gt (a b : PreciseTime) : Bool :=
  if b.seconds < a.seconds then true
  else if a.seconds < b.seconds then false
  else decide (b.nanoseconds < a.nanoseconds)

/-- `std::max` -/
def max (a b : PreciseTime) : PreciseTime := if a.lt b then b else a

/-- `operator+` -/
def add (t : PreciseTime) (dt : TimeDifference) : PreciseTime :=
  let nanoseconds := u64 (t.nanoseconds + dt.nanoseconds)
  let seconds := u64 (t.seconds + dt.seconds)
  if NS_PER_S < nanoseconds then ⟨u64 (seconds + nanoseconds / NS_PER_S), nanoseconds % NS_PER_S⟩
  else ⟨seconds, nanoseconds⟩

end PreciseTime

structure Timer where
  id : Int
  now : PreciseTime
deriving DecidableEq, Repr

/-- `Timers::get` -/
def getTimer (timers : List Timer) (id : Int) : Option Timer := timers.find? (fun timer => timer.id = id)

/-- `Timers::getOrTryCreate`, for its effect on the timers. -/
def createTimer (timers : List Timer) (id : Int) : List Timer :=
  if (getTimer timers id).isSome then timers else timers ++ [⟨id, PreciseTime.zero⟩]

/-- `Timer::update` of the timer of an id. -/
def updateTimer (timers : List Timer) (id : Int) (kernelTime : PreciseTime) : List Timer :=
  timers.map (fun timer => if timer.id = id then { timer with now := kernelTime } else timer)

/-- `Timers::updateAll` -/
def updateAllTimers (timers : List Timer) (kernelTime : PreciseTime) : List Timer :=
  timers.map (fun timer => { timer with now := kernelTime })

theorem getTimer_map_isSome {timers : List Timer} {f : Timer → Timer} (hf : ∀ timer, (f timer).id = timer.id) (id : Int) :
    (getTimer (timers.map f) id).isSome = (getTimer timers id).isSome := by
  unfold getTimer
  rw [List.find?_map, Option.isSome_map]
  have hid : ((fun timer : Timer => decide (timer.id = id)) ∘ f) = fun timer => decide (timer.id = id) := by
    funext timer
    simp [hf]
  rw [hid]

/-- A timer that was created stays. -/
theorem getTimer_createTimer {timers : List Timer} {id : Int} (id' : Int) (h : (getTimer timers id).isSome) :
    (getTimer (createTimer timers id') id).isSome := by
  unfold createTimer
  split
  · exact h
  · unfold getTimer at *
    rw [List.find?_append, Option.isSome_or, h, Bool.true_or]

theorem getTimer_updateTimer (timers : List Timer) (id id' : Int) (kernelTime : PreciseTime) :
    (getTimer (updateTimer timers id' kernelTime) id).isSome = (getTimer timers id).isSome := by
  unfold updateTimer
  rw [getTimer_map_isSome]
  intro timer
  split <;> rfl

theorem getTimer_updateAllTimers (timers : List Timer) (id : Int) (kernelTime : PreciseTime) :
    (getTimer (updateAllTimers timers kernelTime) id).isSome = (getTimer timers id).isSome := by
  unfold updateAllTimers
  rw [getTimer_map_isSome]
  exact fun _ => rfl

/-- How long a thread has waited and run, in ticks of its instructions. -/
structure ThreadTime where
  waitTime : Nat
  nbInstructions : Nat
  instructionLimit : Nat
deriving DecidableEq, Repr

namespace ThreadTime

def zero : ThreadTime := ⟨0, 0, 0⟩

def isStopAsked (t : ThreadTime) : Bool := decide (t.instructionLimit ≤ t.nbInstructions)

def ns (t : ThreadTime) : Nat := u64 (t.waitTime + t.nbInstructions)

def tick (t : ThreadTime) (count : Nat) : ThreadTime := { t with nbInstructions := u64 (t.nbInstructions + count) }

def setSlice (t : ThreadTime) (current sliceDuration : Nat) : Option ThreadTime := do
  verify (u64 (t.waitTime + t.nbInstructions) ≤ current)
  some { t with
    waitTime := sub64 current t.nbInstructions
    instructionLimit := u64 (t.nbInstructions + sliceDuration) }

def yield (t : ThreadTime) : ThreadTime := { t with instructionLimit := t.nbInstructions }

end ThreadTime

end X64Emulator
