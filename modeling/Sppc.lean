import Sppc.LinkedList
import Sppc.RingBuffer
import Sppc.Uring
import Sppc.Blocking
import Sppc.Roster
import Sppc.Life
import Sppc.Models
import Sppc.Backends
import Sppc.Run
import Sppc.Handles
import Sppc.Queues
import Sppc.Completions
import Sppc.LockHandoff
import Sppc.Accounts
import Sppc.Retirement
import Sppc.Awaits
import Sppc.Environments
import Sppc.Deadlock
import Sppc.Drain
import Sppc.RingCalls
import Sppc.Windows.Mutex
import Sppc.Windows.Rwlock
import Sppc.Windows.Signals
import Sppc.Barriers
import Sppc.Windows.FdAccounts
import Sppc.Windows.FileOrder
import Sppc.TaskMutex
import Sppc.OnceCalls
import Sppc.Flags
import Sppc.Streams
import Sppc.Destroy
import Sppc.Windows.JoinCalls
import Sppc.Windows.KeyExits
import Sppc.Windows.IocpSleeps
import Sppc.Windows.HeapCalls
import Sppc.ContextSwitch
import Sppc.SparcTasks
import Sppc.Windows.Poll
import Sppc.Framing
import Sppc.Windows.ConsoleOut
import Sppc.Utf16
import Sppc.Windows.ConsoleIn
import Sppc.TaskStacks
import Sppc.StackSizes
import Sppc.Deadlines
import Sppc.ExactDeadlines
import Sppc.Renaming
import Sppc.Bindings.Names
import Sppc.Bindings.Records
import Sppc.Bindings.Layouts
import Sppc.MappedFile
import Sppc.Backtrace.Coff
import Sppc.Readings
import Sppc.Backtrace.Elf
import Sppc.Backtrace.ElfReads
import Sppc.Backtrace.ElfLookups
import Sppc.RingIndices
import Sppc.Windows.IocpAttach
import Sppc.Windows.Nanosleep
import Sppc.Windows.IocpTimes
import Sppc.SpawnAtomic
import Sppc.Fairness
import Sppc.ByteOrder
import Sppc.Select
import Sppc.PollInPlace
import Sppc.RangeLocks
import Sppc.Windows.RecordLocks
import Sppc.Windows.LockRanges
import Sppc.Windows.TimedWaits
import Sppc.Windows.Sockets
import Sppc.Copies
import Sppc.Windows.Copies
import Sppc.FileTree
import Sppc.Windows.Names
import Sppc.Windows.Open
import Sppc.Windows.PollWaits
import Sppc.Windows.Select
import Sppc.Windows.Timevals
import Sppc.AddressSpace
import Sppc.Windows.Munmap
import Sppc.Search
import Sppc.Windows.PathErrno
import Sppc.Backtrace.Report
import Sppc.Bindings.Macros
import Sppc.WaitingLine
import Sppc.Resuming
import Sppc.RunOrder
import Sppc.CondWaits
import Sppc.Regions
import Sppc.Darwin.Madvise
import Sppc.Darwin.TimedLocks
import Sppc.OnceWords
import Sppc.Windows.Mmap
import Sppc.Windows.MapRuns
import Sppc.ThreadBlocks
import Sppc.Backtrace.Reporters
import Sppc.Backtrace.MachO
import Sppc.Backtrace.MachFrames
import Sppc.Windows.Environment
import Sppc.Windows.Links
import Sppc.SpinLocks
import Sppc.RingSetup
