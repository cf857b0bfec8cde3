import Linuxemu.AlternateStack
import Linuxemu.BiasFallback
import Linuxemu.BlockedWait
import Linuxemu.BreakRuns
import Linuxemu.ChdirRuns
import Linuxemu.DeferredUnmap
import Linuxemu.DescriptorTables
import Linuxemu.DirectoryReads
import Linuxemu.ExecHandover
import Linuxemu.ExecSettings
import Linuxemu.FailedLoad
import Linuxemu.FileMapping
import Linuxemu.FileOffsets
import Linuxemu.FinalLinks
import Linuxemu.FutexDeadlines
import Linuxemu.FutexRequeue
import Linuxemu.FutexWakeup
import Linuxemu.GuestLocation
import Linuxemu.GuestStack
import Linuxemu.HostSignal
import Linuxemu.InterpreterPath
import Linuxemu.Lib.Action
import Linuxemu.Lib.BitTable
import Linuxemu.Lib.IntType
import Linuxemu.Lib.Loop
import Linuxemu.LoadedObject
import Linuxemu.MappedCode
import Linuxemu.MmapFailure
import Linuxemu.MprotectFailure
import Linuxemu.NofollowPaths
import Linuxemu.PatchRuns
import Linuxemu.PatchedRuns
import Linuxemu.PathBuffers
import Linuxemu.PathWalk
import Linuxemu.PendingExact
import Linuxemu.PollEvents
import Linuxemu.PollTimeout
import Linuxemu.ProcessEntry
import Linuxemu.ProgramHeaders
import Linuxemu.QueueCounters
import Linuxemu.QueueSlots
import Linuxemu.RegistryPlacement
import Linuxemu.RegistryQueries
import Linuxemu.RegistryRuns
import Linuxemu.RestartedCall
import Linuxemu.SegmentBounds
import Linuxemu.SignalRuns
import Linuxemu.SignalViews
import Linuxemu.SocketReceives
import Linuxemu.SymlinkSteps
import Linuxemu.TemporaryMask
import Linuxemu.Termios
import Linuxemu.ThreadIds
import Linuxemu.ThreadLifecycle
import Linuxemu.Trap
import Linuxemu.UnmapOwnership
