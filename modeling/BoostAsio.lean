import BoostAsio.Lib.Threads
import BoostAsio.QueueTransfer
import BoostAsio.Address
import BoostAsio.WorkHolders
import BoostAsio.TearDown
import BoostAsio.Pops
import BoostAsio.Event
import BoostAsio.DescriptorRuns
import BoostAsio.Completion
import BoostAsio.Interest
import BoostAsio.System
import BoostAsio.Wakeup
import BoostAsio.OneThreadMode
import BoostAsio.Lib.Simulation
import BoostAsio.Initialisation
import BoostAsio.FastPath
import BoostAsio.Lifecycle
import BoostAsio.WorkCount
import BoostAsio.Readiness
import BoostAsio.SyncSend
import BoostAsio.SyncRecv
import BoostAsio.SocketErrors
import BoostAsio.RecyclingAllocator
import BoostAsio.EventBatch
import BoostAsio.Interrupts
import BoostAsio.FailedRegistration
import BoostAsio.NestedRuns
import BoostAsio.SocketOptions
import BoostAsio.SocketClose
import BoostAsio.AddressBytes
import BoostAsio.Endpoint
import BoostAsio.MakeAddress
import BoostAsio.ScopeIds
import BoostAsio.TextBuffers
import BoostAsio.ThreadGroup
import BoostAsio.TimedWait
import BoostAsio.BufferSequenceAdapter
import BoostAsio.StopEnds
import BoostAsio.QueueOrder
import BoostAsio.RunLifetime
import BoostAsio.Performs
import BoostAsio.WorkDone
import BoostAsio.RunCount
import BoostAsio.Effort
import BoostAsio.Interrupter
import BoostAsio.LockHierarchy
import BoostAsio.FileDescriptors
import BoostAsio.Stranding
import BoostAsio.ExecutorOp
