import HisiRiscv.Lib.BlockStream
import HisiRiscv.Lib.BitString
import HisiRiscv.Lib.ByteBuffer
import HisiRiscv.Lib.Machine
import HisiRiscv.Lib.Ledger
import HisiRiscv.Lib.SerialNumber
import HisiRiscv.Flashboot.Fips180
import HisiRiscv.Flashboot.Sha256
import HisiRiscv.Flashboot.Sha256Theorems
import HisiRiscv.Supplicant.Slots
import HisiRiscv.Supplicant.SlotsTheorems
import HisiRiscv.Supplicant.Lane
import HisiRiscv.Supplicant.Queues
import HisiRiscv.Supplicant.Interleaved
import HisiRiscv.Supplicant.InterleavedTheorems
import HisiRiscv.Supplicant.Ordering
import HisiRiscv.Supplicant.ScanAbort
import HisiRiscv.Supplicant.ScanAbortTheorems
import HisiRiscv.Supplicant.Poll
import HisiRiscv.Supplicant.Delivery
import HisiRiscv.Supplicant.Fifo
import HisiRiscv.Supplicant.Drain
import HisiRiscv.Supplicant.EapolNotification
import HisiRiscv.Supplicant.ScanReservation
import HisiRiscv.Wifi.ScanResult
import HisiRiscv.Wifi.ScanTransaction
import HisiRiscv.Wifi.Connection
import HisiRiscv.Wifi.NativeScan
import HisiRiscv.Wifi.NativeScanTheorems
import HisiRiscv.Lib.Ring
import HisiRiscv.Lib.PrimeField
import HisiRiscv.Lib.BigEndian
import HisiRiscv.Osal.MsgQueue
import HisiRiscv.Osal.MsgQueueTheorems
import HisiRiscv.Osal.EventGroup
import HisiRiscv.Osal.EventGroupTheorems
import HisiRiscv.Osal.Timer
import HisiRiscv.Osal.TimerSlots
import HisiRiscv.Osal.TimerCancel
import HisiRiscv.Osal.TimerFire
import HisiRiscv.Osal.Wait
import HisiRiscv.Osal.WaitTheorems
import HisiRiscv.Netif.Bridge
import HisiRiscv.Netif.Device
import HisiRiscv.Netif.Tokens
import HisiRiscv.Netif.RxQueue
import HisiRiscv.Osal.Spinlock
import HisiRiscv.Flashboot.Boot
import HisiRiscv.Flashboot.BootTheorems
import HisiRiscv.Supplicant.Port
import HisiRiscv.Supplicant.PortTheorems
import HisiRiscv.Wifi.Backend
import HisiRiscv.Wifi.BackendTheorems
import HisiRiscv.Wifi.Handles
import HisiRiscv.Osal.Atomic
import HisiRiscv.Crypto.P256Field
import HisiRiscv.Crypto.Bignum
import HisiRiscv.Crypto.BignumTheorems
import HisiRiscv.Crypto.P256Curve
import HisiRiscv.Crypto.Points
import HisiRiscv.Crypto.PointsTheorems
import HisiRiscv.Lib.Marker
import HisiRiscv.Hil.Record
import HisiRiscv.Hil.Capture
import HisiRiscv.Hil.CaptureTheorems
import HisiRiscv.Hil.Session
import HisiRiscv.Hil.SessionTheorems
import HisiRiscv.Lib.Tiling
import HisiRiscv.Hil.FlashPlan
import HisiRiscv.Hil.FlashPlanTheorems
import HisiRiscv.Lib.OrderedDict
import HisiRiscv.Lib.FileTree
import HisiRiscv.Docs.Site
import HisiRiscv.Docs.SiteTheorems
import HisiRiscv.Lib.PyText
import HisiRiscv.Release.Checksums
import HisiRiscv.Release.ChecksumsTheorems
import HisiRiscv.Lib.Scan
import HisiRiscv.Hil.PairedBoards
import HisiRiscv.Hil.BondMatrix
import HisiRiscv.Hil.BondMatrixTheorems
import HisiRiscv.Hil.Coexistence
import HisiRiscv.Hil.RadioMatrix
import HisiRiscv.Hil.PairedVerdicts
import HisiRiscv.Hil.Persistence
import HisiRiscv.Supplicant.PollBudget
import HisiRiscv.Supplicant.Keys
import HisiRiscv.Wifi.BackendScan
import HisiRiscv.Wifi.BackendScanTheorems
import HisiRiscv.Lib.Tlv
import HisiRiscv.Wifi.Elements
import HisiRiscv.Wifi.ElementsTheorems
import HisiRiscv.Osal.EventTable
import HisiRiscv.Osal.EventWakes
import HisiRiscv.Osal.EventReads
import HisiRiscv.Wifi.DeviceAddress
import HisiRiscv.Netif.Classifier
import HisiRiscv.Osal.Strtol
import HisiRiscv.Osal.StrtolTheorems
import HisiRiscv.Osal.Strstr
import HisiRiscv.Netif.Pbuf
import HisiRiscv.Osal.MsgQueueFaults
import HisiRiscv.Osal.WaitTimeout
import HisiRiscv.Wifi.Frw
import HisiRiscv.Flashboot.Sfc
import HisiRiscv.Osal.SnprintfTheorems
import HisiRiscv.Crypto.ByteObjectsTheorems
import HisiRiscv.Lib.Rejection
import HisiRiscv.Crypto.BignumRand
import HisiRiscv.Lib.PyBytes
import HisiRiscv.Lib.PyNumber
import HisiRiscv.Hil.RustContract
import HisiRiscv.Lib.Greedy
import HisiRiscv.Hil.StageMarkers
import HisiRiscv.Hil.DiagnosticLine
import HisiRiscv.Hil.ReadyOwnership
import HisiRiscv.Hil.ResourceCalibration
import HisiRiscv.Lib.SemVer
import HisiRiscv.Docs.Versions
import HisiRiscv.Wifi.FrwWorker
import HisiRiscv.Lib.StampedRing
import HisiRiscv.Osal.DiagnosticRings
import HisiRiscv.Supplicant.Flow
import HisiRiscv.Wifi.FailedScan
import HisiRiscv.Release.BuildReport
import HisiRiscv.Release.BuildReportTheorems
import HisiRiscv.Lib.DepthFirst
import HisiRiscv.Docs.PlanRegistry
import HisiRiscv.Docs.PlanEntries
import HisiRiscv.Docs.PlanRegistryTheorems
import HisiRiscv.Docs.PlanCycle
import HisiRiscv.Lib.Substitute
import HisiRiscv.Lib.Tokens
import HisiRiscv.Docs.Tutorial
import HisiRiscv.Docs.TutorialTokens
import HisiRiscv.Docs.TutorialPasses
import HisiRiscv.Docs.TutorialBlocks
import HisiRiscv.Docs.TutorialTheorems
import HisiRiscv.Crypto.Service
import HisiRiscv.Crypto.ServiceTheorems
import HisiRiscv.Crypto.ServiceCounters
import HisiRiscv.Crypto.Contention
import HisiRiscv.Crypto.ContentionTheorems
import HisiRiscv.Crypto.ContentionOrder
import HisiRiscv.Crypto.ContentionVerdict
import HisiRiscv.Crypto.ObjectHeap
import HisiRiscv.Crypto.ObjectHeapLookup
import HisiRiscv.Crypto.ObjectHeapCalls
import HisiRiscv.Crypto.ObjectHeapTheorems
import HisiRiscv.Netif.References
import HisiRiscv.Netif.ReferencesTheorems
import HisiRiscv.Netif.ReferencesDelivery
import HisiRiscv.Wifi.PersonalSecurity
import HisiRiscv.Wifi.PersonalRequest
import HisiRiscv.Wifi.BackendLifecycle
import HisiRiscv.Supplicant.EapolTransport
import HisiRiscv.Osal.VendorMemory
