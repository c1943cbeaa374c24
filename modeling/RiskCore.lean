import RiskCore.Runs
import RiskCore.Components
import RiskCore.Ledgers
import RiskCore.Histories
import RiskCore.Tables
import RiskCore.Querysets
import RiskCore.Paging
import RiskCore.Tallies
import RiskCore.Projections
import RiskCore.Requests
import RiskCore.Serializability
import RiskCore.Transactions
import RiskCore.Digits
import RiskCore.Texts
import RiskCore.QueryStrings
import RiskCore.Numbering
import RiskCore.Values
import RiskCore.Outbox
import RiskCore.Trails
import RiskCore.Walks
import RiskCore.ClaimService
import RiskCore.ClaimRecords
import RiskCore.ClaimLifecycle
import RiskCore.ClaimMetrics
import RiskCore.ClaimListing
import RiskCore.ClaimSerializability
import RiskCore.ClaimPayouts
import RiskCore.ClaimReplay
import RiskCore.TransitionEndpoint
import RiskCore.ClaimPages
import RiskCore.ClaimNumbering
import RiskCore.ConcurrentFilings
import RiskCore.FilingsApart
import RiskCore.PolicyService
import RiskCore.PolicyRecords
import RiskCore.PolicyCancellation
import RiskCore.PolicySnapshots
import RiskCore.PolicyMetrics
import RiskCore.PolicySerializability
import RiskCore.PolicyWellFormed
import RiskCore.PolicySequence
import RiskCore.PolicyNumbering
import RiskCore.PolicyReadback
import RiskCore.PolicyUpdates
import RiskCore.Atomicity
import RiskCore.StatusWriters
import RiskCore.OutboxRelay
import RiskCore.RelayDelivery
import RiskCore.RelayOrder
import RiskCore.RelayDrain
import RiskCore.RelayFairness
import RiskCore.RelayLocks
import RiskCore.Events
import RiskCore.Payloads
import RiskCore.Offsets
import RiskCore.AuditConsumer
import RiskCore.NotificationConsumer
import RiskCore.ConsumerOffsets
import RiskCore.AuditBroadcasts
import RiskCore.Insertions
import RiskCore.Duplicates
import RiskCore.Deliveries
import RiskCore.Recorders
import RiskCore.Partitions
import RiskCore.Parsers
import RiskCore.Redelivery
import RiskCore.JsonText
import RiskCore.JsonRoundTrip
import RiskCore.RawMessages
import RiskCore.AuditFrames
import RiskCore.Outlets
import RiskCore.Pipeline
import RiskCore.PipelineDelivery
import RiskCore.Deployment
import RiskCore.DeploymentOffsets
import RiskCore.AuditFigures
import RiskCore.AuditTrails
import RiskCore.EventStream
import RiskCore.SocketTokens
import RiskCore.LiveFeed
import RiskCore.TaskRace
import RiskCore.EmailTask
import RiskCore.Recipients
import RiskCore.CircuitBreaker
import RiskCore.PolicyClient
import RiskCore.BreakerTrips
import RiskCore.FilingVerification
import RiskCore.Lookups
