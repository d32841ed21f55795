import PiFrame.AvCrc
import PiFrame.BuddyAccesses
import PiFrame.BuddyGeometry
import PiFrame.BuddyLeases
import PiFrame.ConfigLock
import PiFrame.ConfigRecovery
import PiFrame.ConfigStartup
import PiFrame.ConfigSystem
import PiFrame.ConfigThrottle
import PiFrame.ConfigViews
import PiFrame.DiskMounting
import PiFrame.DottedQuads
import PiFrame.DoubleText
import PiFrame.ExportImport
import PiFrame.FailedSaves
import PiFrame.FifoDestruction
import PiFrame.FileCopies
import PiFrame.KeyGenerators
import PiFrame.Limits
import PiFrame.MountTable
import PiFrame.OclockTimer
import PiFrame.PlainNotifications
import PiFrame.ProcListing
import PiFrame.QueryWakeUp
import PiFrame.QueueCreation
import PiFrame.QueueNames
import PiFrame.QueueOpening
import PiFrame.QueueUsers
import PiFrame.ReferenceLedger
import PiFrame.RegisteredParams
import PiFrame.SafeReads
import PiFrame.SafeWrites
import PiFrame.ServiceCommand
import PiFrame.ServiceRequests
import PiFrame.SubServiceIds
import PiFrame.SystemInMemory
import PiFrame.TimerClock
import PiFrame.TimerDeletion
import PiFrame.TimerKeyList
import PiFrame.TimerRepeat
import PiFrame.Transition
import PiFrame.UtilFifo
import PiFrame.ValidProcess
import PiFrame.VmqAdmission
import PiFrame.VmqClient
import PiFrame.VmqContents
import PiFrame.VmqDelivery
import PiFrame.VmqHandles
import PiFrame.VmqItemLimit
import PiFrame.VmqManagers
import PiFrame.VmqNeighbours
import PiFrame.VmqPolling
import PiFrame.VmqWakeups
import PiFrame.VmshmDriver
import PiFrame.VmshmMappings
import PiFrame.WatchdogLookups
import PiFrame.WatchdogRestart
import PiFrame.WatchdogThread
