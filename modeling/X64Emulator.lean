import X64Emulator.Theorems.CallStack
import X64Emulator.Theorems.ChainedCode
import X64Emulator.Theorems.CodeCoherence
import X64Emulator.Theorems.Cloning
import X64Emulator.Theorems.ContextSwitch
import X64Emulator.Theorems.FirstFit
import X64Emulator.Theorems.FailedClone
import X64Emulator.Theorems.FixedMmap
import X64Emulator.Theorems.FutexIsolation
import X64Emulator.Theorems.FutexWake
import X64Emulator.Theorems.HeapBreak
import X64Emulator.Theorems.Namespace
import X64Emulator.Theorems.Pipes
import X64Emulator.Theorems.Protecting
import X64Emulator.Theorems.Unmapping
import X64Emulator.Theorems.ReferenceCounts
import X64Emulator.Theorems.RegionTable
import X64Emulator.Theorems.ThreadLists
import X64Emulator.Theorems.RunningAlone
import X64Emulator.Theorems.TimeSlices
import X64Emulator.Theorems.Anchors
import X64Emulator.Theorems.OptimizerEnds
import X64Emulator.Theorems.ImmediateReadBack
import X64Emulator.Theorems.Commuting
import X64Emulator.Theorems.DuplicateLoads
import X64Emulator.Theorems.IntervalLookup
import X64Emulator.Theorems.IntervalRanges
import X64Emulator.Theorems.SuccessorCache
import X64Emulator.Theorems.LookupTable
import X64Emulator.Theorems.CompilationQueue
import X64Emulator.Theorems.ExecutableMemory
import X64Emulator.Theorems.FutexWakeOp
import X64Emulator.Theorems.SchedulerClock
import X64Emulator.Theorems.PreciseTime
import X64Emulator.Theorems.WaitForChildren
import X64Emulator.Theorems.Polling
import X64Emulator.Theorems.Selecting
import X64Emulator.Theorems.EpollInterest
import X64Emulator.Theorems.WakeUps
import X64Emulator.Theorems.FileMapping
import X64Emulator.Theorems.AccessModes
import X64Emulator.Theorems.AnonymousFiles
import X64Emulator.Theorems.PathLookup
import X64Emulator.Theorems.Unlinking
import X64Emulator.Theorems.Sums
import X64Emulator.Theorems.Products
import X64Emulator.Theorems.Shifts
import X64Emulator.Theorems.Rotates
import X64Emulator.Theorems.PathNormalization
import X64Emulator.Theorems.DescriptorDuplication
import X64Emulator.Theorems.FileLocking
import X64Emulator.Theorems.ProgramStack
import X64Emulator.Theorems.MemoryOperands
import X64Emulator.Theorems.CodeLayout
import X64Emulator.Theorems.PackedShifts
import X64Emulator.Theorems.PackedOperations
import X64Emulator.Theorems.ThreadCallstack
import X64Emulator.Theorems.LockedInstructions
import X64Emulator.Theorems.BitTests
import X64Emulator.Theorems.StringInstructions
import X64Emulator.Theorems.PackedStrings
import X64Emulator.Theorems.BlockLookup
import X64Emulator.Theorems.CallTree
import X64Emulator.Theorems.Buffers
import X64Emulator.Theorems.ElfReader
import X64Emulator.Theorems.ElfLoading
import X64Emulator.Theorems.CompiledInstructions
import X64Emulator.Theorems.RegisterForms
