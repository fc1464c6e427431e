import ClusterBroker.ScriptedManager
import ClusterBroker.Metric
import ClusterBroker.Form
import ClusterBroker.QueueService.Setup
import ClusterBroker.Proofs.Desk.Run
import ClusterBroker.Proofs.Ledger.Grants
import ClusterBroker.Proofs.Ledger.Holders
import ClusterBroker.Proofs.Ledger.Reporting
import ClusterBroker.Proofs.Ledger.Intake
import ClusterBroker.Proofs.Desk.Protocol
import ClusterBroker.Proofs.DelayQueue
import ClusterBroker.Proofs.DelayQueue.Order
import ClusterBroker.Proofs.GangControl.Queue
import ClusterBroker.Proofs.GangControl.Books
import ClusterBroker.Proofs.GangControl.Agreement
import ClusterBroker.Proofs.GangControl.Rounds
import ClusterBroker.Proofs.GangControl.Census
import ClusterBroker.Proofs.Broker.Hearing
import ClusterBroker.Proofs.Broker.Placing
import ClusterBroker.Proofs.Broker.Calls
import ClusterBroker.Proofs.Broker.Turns
import ClusterBroker.Proofs.Broker.Run
import ClusterBroker.Proofs.Broker.Control
import ClusterBroker.Proofs.Broker.Admission
import ClusterBroker.Proofs.Broker.Mirror
import ClusterBroker.Proofs.Broker.Transparency
import ClusterBroker.Proofs.Broker.Division
import ClusterBroker.Proofs.Broker.Settling
import ClusterBroker.Proofs.Cache
import ClusterBroker.Proofs.Custody.Traffic
import ClusterBroker.Proofs.Custody.Moves
import ClusterBroker.Proofs.Custody.Caching
import ClusterBroker.Proofs.Custody.Reports
import ClusterBroker.Proofs.Custody.Desk
import ClusterBroker.Proofs.Custody.Errands
import ClusterBroker.Proofs.Custody.Run
import ClusterBroker.Proofs.Custody.Barred
import ClusterBroker.Proofs.Custody.Avoidance
import ClusterBroker.Proofs.Custody.Loss
import ClusterBroker.Proofs.Ledger.Completion
import ClusterBroker.Proofs.GangControl.Neat
import ClusterBroker.Proofs.GangControl.Notes
import ClusterBroker.Proofs.Desk.Closed
import ClusterBroker.Proofs.Broker.Shut
import ClusterBroker.Proofs.Broker.Noting
import ClusterBroker.Proofs.Broker.Standing
import ClusterBroker.Proofs.Broker.Progress
import ClusterBroker.Proofs.Broker.Keeping
import ClusterBroker.Proofs.CachedConnector
import ClusterBroker.Proofs.Custody.Freed
import ClusterBroker.Proofs.Tally.Registry
import ClusterBroker.Proofs.Tally.Cache
import ClusterBroker.Proofs.Tally.Stack
import ClusterBroker.Proofs.Tenant.Share
import ClusterBroker.Proofs.Tenant.Concerns
import ClusterBroker.Proofs.Tenant.Isolation
import ClusterBroker.Proofs.Cache.Search
import ClusterBroker.Proofs.Cache.Index
import ClusterBroker.Proofs.Cache.BestFit
import ClusterBroker.Proofs.Cache.History
import ClusterBroker.Proofs.Recorded
import ClusterBroker.Proofs.QueueService.Apart
import ClusterBroker.Proofs.QueueService.Run
import ClusterBroker.Proofs.QueueService.Shutdown
import ClusterBroker.Proofs.CachedConnector.Serving
import ClusterBroker.Proofs.CachedConnector.Returning
import ClusterBroker.Proofs.Ledger.Course
import ClusterBroker.Proofs.Ledger.Accounting
import ClusterBroker.Proofs.Ledger.Interleaving
import ClusterBroker.Proofs.Ledger.Halting
import ClusterBroker.Proofs.Desk.Batches
import ClusterBroker.Proofs.Desk.Halting
import ClusterBroker.Proofs.Desk.Admission
import ClusterBroker.Proofs.GangControl.Backed
import ClusterBroker.Proofs.Broker.Steady
import ClusterBroker.Proofs.Broker.Atomic
import ClusterBroker.Proofs.Broker.Resting
import ClusterBroker.Proofs.Broker.Rest
import ClusterBroker.Proofs.Broker.Parting
import ClusterBroker.Proofs.Broker.Share
import ClusterBroker.Proofs.Broker.BulkRelease
import ClusterBroker.Proofs.Broker.Resubmission
import ClusterBroker.Proofs.DelayQueue.Agenda
import ClusterBroker.Proofs.DelayQueue.History
import ClusterBroker.Proofs.Listeners.Dispatch
import ClusterBroker.Proofs.Listeners.Isolation
import ClusterBroker.Proofs.Cache.Contents
import ClusterBroker.Proofs.Cache.Recaching
import ClusterBroker.Proofs.CachedConnector.Eviction
import ClusterBroker.Proofs.Ident
import ClusterBroker.Proofs.Form
import ClusterBroker.Proofs.Config.Layers
