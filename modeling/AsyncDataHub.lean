import AsyncDataHub.InventoryLedger
import AsyncDataHub.InventoryOptimistic
import AsyncDataHub.DistributedLock
import AsyncDataHub.PaymentLedger
import AsyncDataHub.PaymentLate
import AsyncDataHub.PaymentOwner
import AsyncDataHub.PaymentReplay
import AsyncDataHub.CoalescerCancel
import AsyncDataHub.StreamWakeup
import AsyncDataHub.WebhookStatus
import AsyncDataHub.GetOrSetFlight
import AsyncDataHub.LockClients
import AsyncDataHub.CacheBackends
import AsyncDataHub.InventoryLocking
import AsyncDataHub.InventoryVersion
import AsyncDataHub.InventoryLease
import AsyncDataHub.InventoryMixed
import AsyncDataHub.InventoryAgreement
import AsyncDataHub.PaymentAbandon
import AsyncDataHub.TransferLedger
import AsyncDataHub.JobQueueClaims
import AsyncDataHub.JobQueueLifecycle
import AsyncDataHub.TransferRetries
import AsyncDataHub.ConsistencyReads
import AsyncDataHub.ConsistencyUpdates
import AsyncDataHub.BroadcastOrder
import AsyncDataHub.BroadcastIsolation
import AsyncDataHub.AggregateCleanup
import AsyncDataHub.DbLock
import AsyncDataHub.MediaStream
import AsyncDataHub.RemoteHosts
import AsyncDataHub.RemoteStream
import AsyncDataHub.MediaFiles
import AsyncDataHub.StreamFrames
import AsyncDataHub.MvccSerial
import AsyncDataHub.TransferSerial
import AsyncDataHub.MvccWaits
import AsyncDataHub.TransferWaits
import AsyncDataHub.ConsistencySession
import AsyncDataHub.InventorySellout
import AsyncDataHub.SlotOrder
import AsyncDataHub.ConcurrencyLimiter
import AsyncDataHub.GetOrSetAnswers
import AsyncDataHub.JobQueueWaits
import AsyncDataHub.PaymentLostUpdate
import AsyncDataHub.PaymentWaits
