import MmDrivers.Lib.Sections
import MmDrivers.Lib.Probe
import MmDrivers.Lib.Runs
import MmDrivers.Lib.Ring
import MmDrivers.Lib.Layout
import MmDrivers.Lib.Interleaving
import MmDrivers.Lib.Edges
import MmDrivers.Lib.Locks
import MmDrivers.Lib.Loops
import MmDrivers.Lib.Parts
import MmDrivers.Lib.Exclusives
import MmDrivers.Lib.SpinLocks
import MmDrivers.FenceTypes
import MmDrivers.FenceLookup
import MmDrivers.FenceTable
import MmDrivers.FenceMap
import MmDrivers.ClientQueue
import MmDrivers.DeviceTree
import MmDrivers.GivenClients
import MmDrivers.CarveOut
import MmDrivers.FenceSignal
import MmDrivers.JoinFence
import MmDrivers.JoinRun
import MmDrivers.ResetRun
import MmDrivers.DriverRuns
import MmDrivers.ResetClient
import MmDrivers.JoinAccounting
import MmDrivers.QueueErrors
import MmDrivers.OpSections
import MmDrivers.Parties
import MmDrivers.WaitRace
import MmDrivers.Wakeups
import MmDrivers.JoinWaits
import MmDrivers.ArrayWakeups
import MmDrivers.WaitWakeups
import MmDrivers.DataRace
import MmDrivers.LinkRace
import MmDrivers.ClientData
import MmDrivers.RxClients
import MmDrivers.ClientIds
import MmDrivers.IpcMap
import MmDrivers.Registration
import MmDrivers.DriverInit
import MmDrivers.RegisterRuns
import MmDrivers.WaitBits
import MmDrivers.SpecBind
import MmDrivers.DestroyHandle
import MmDrivers.ChildLinks
import MmDrivers.LiveLookups
import MmDrivers.LockBalance
import MmDrivers.QueueReset
import MmDrivers.QueueDrain
import MmDrivers.SyncIoctl
import MmDrivers.FenceWait
import MmDrivers.SyncSession
import MmDrivers.ArrayRefs
import MmDrivers.TableDump
import MmDrivers.ArrayOutcome
import MmDrivers.ArrayAccepts
import MmDrivers.SpecStores
import MmDrivers.BindRace
import MmDrivers.SpecRises
import MmDrivers.BindNesting
import MmDrivers.SpecOrphans
import MmDrivers.ExtDisplay
import MmDrivers.CodecCache
import MmDrivers.DeferredAudio
import MmDrivers.DisplayRegistry
import MmDrivers.CodecRegistration
import MmDrivers.VmLock
import MmDrivers.FenceApi
import MmDrivers.FenceFlags
import MmDrivers.FenceWaiters
import MmDrivers.VmShare
import MmDrivers.DoorbellFlags
import MmDrivers.SectionLocks
import MmDrivers.LockOrder
