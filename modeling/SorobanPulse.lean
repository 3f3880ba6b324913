import SorobanPulse.Json
import SorobanPulse.Xdr.ScVal
import SorobanPulse.Lib.Run
import SorobanPulse.Lib.Exclusion
import SorobanPulse.Locking.AdvisoryLock
import SorobanPulse.Locking.Leadership
import SorobanPulse.Dedup.ReplicaDedup
import SorobanPulse.Dedup.ReplicaInterleaving
import SorobanPulse.Contracts.ContractTracker
import SorobanPulse.Lib.SqlCondition
import SorobanPulse.Filter.Compilation
import SorobanPulse.Ingest.SorobanEvent
import SorobanPulse.Backfill.EventsFromLedger
import SorobanPulse.Backfill.Datastore
import SorobanPulse.Backfill.RunRange
import SorobanPulse.Ingest.BloomFilter
import SorobanPulse.Ingest.Broadcast
import SorobanPulse.Backfill.EventIds
import SorobanPulse.Tokens.Sep41
import SorobanPulse.Webhook.EventJson
import SorobanPulse.Webhook.Replay
import SorobanPulse.Idempotency.Middleware
import SorobanPulse.Idempotency.Store
import SorobanPulse.Idempotency.Concurrency
import SorobanPulse.Idempotency.Noninterference
import SorobanPulse.RateLimit.CheckRateLimit
import SorobanPulse.RateLimit.Transactions
import SorobanPulse.Lib.Placeholders
import SorobanPulse.Lib.Keyset
import SorobanPulse.Lib.TextCodecs
import SorobanPulse.Events.PaginationParams
import SorobanPulse.Events.Queries
import SorobanPulse.Events.BindOrder
import SorobanPulse.Events.GetEvents
import SorobanPulse.Events.Selection
import SorobanPulse.Events.FilterPaths
import SorobanPulse.Events.CursorWalk
import SorobanPulse.Events.ETag
import SorobanPulse.Sse.Connections
import SorobanPulse.Jsonb
import SorobanPulse.Ingest.Encryption
import SorobanPulse.Lib.PathRouter
import SorobanPulse.Auth.ApiKeys
import SorobanPulse.Auth.Middleware
import SorobanPulse.Auth.Router
import SorobanPulse.Batch.Operations
import SorobanPulse.Batch.Isolation
import SorobanPulse.Lib.After
import SorobanPulse.Sse.Replay
import SorobanPulse.Sse.Resume
import SorobanPulse.Events.TenantReads
import SorobanPulse.Events.TenantIsolation
import SorobanPulse.Lib.Grouping
import SorobanPulse.Ingest.TrueDuplicates
import SorobanPulse.Erasure.Tables
import SorobanPulse.Erasure.Anonymize
import SorobanPulse.Erasure.Reingestion
import SorobanPulse.Ingest.NetworkCheckpoints
import SorobanPulse.Lib.IpAddr
import SorobanPulse.Outbound.Validators
import SorobanPulse.Outbound.SsrfGuard
import SorobanPulse.Subscriptions.DeliveryQueue
import SorobanPulse.Subscriptions.QueuedOnce
import SorobanPulse.Subscriptions.DeliverPending
import SorobanPulse.Subscriptions.Pause
import SorobanPulse.Reencrypt.RotateCredentials
import SorobanPulse.Reencrypt.IntegrationSecrets
import SorobanPulse.Reencrypt.LostWrites
import SorobanPulse.Reencrypt.KeyStore
import SorobanPulse.Lib.CronSyntax
import SorobanPulse.Email.Schedule
import SorobanPulse.Email.Digests
import SorobanPulse.Email.BounceWebhook
import SorobanPulse.Erasure.Redaction
import SorobanPulse.Erasure.AnonymizationWorker
import SorobanPulse.Ingest.LedgerHashes
import SorobanPulse.Erasure.ErasureRequest
import SorobanPulse.Contracts.SpecToAbi
import SorobanPulse.Contracts.AbiDecode
import SorobanPulse.Contracts.SpecDecodes
import SorobanPulse.JsonText
import SorobanPulse.Schema.ObjectSchema
import SorobanPulse.Schema.SchemaValidator
import SorobanPulse.Schema.Evolution
import SorobanPulse.Streaming.QueryStream
import SorobanPulse.Streaming.Delivery
import SorobanPulse.Lib.Nesting
import SorobanPulse.Streaming.StreamingResponse
import SorobanPulse.Streaming.ResponseFlow
import SorobanPulse.Streaming.Truncation
import SorobanPulse.Reencrypt.ConfigLaws
import SorobanPulse.Reencrypt.EventJob
import SorobanPulse.Tokens.Sep41Backfill
import SorobanPulse.Lib.Backlog
import SorobanPulse.Tokens.Backfills
import SorobanPulse.Lib.Pages
import SorobanPulse.Routing.EventRouter
import SorobanPulse.Routing.Conservation
import SorobanPulse.Routing.Idempotency
import SorobanPulse.Lib.Retention
import SorobanPulse.Partitions.LedgerPartitions
import SorobanPulse.Partitions.Archiving
import SorobanPulse.Partitions.Creation
import SorobanPulse.Partitions.Tiling
import SorobanPulse.Caching.InvalidationTask
import SorobanPulse.Caching.Freshness
import SorobanPulse.Lib.Fallible
import SorobanPulse.Integrity.EventRecord
import SorobanPulse.Integrity.Writers
import SorobanPulse.Integrity.Pipeline
import SorobanPulse.Integrity.Effects
import SorobanPulse.Integrity.Preserved
import SorobanPulse.Email.Token
import SorobanPulse.Notifications.Batcher
import SorobanPulse.Events.CursorRoundTrip
import SorobanPulse.Outbound.AlternateIpv4
import SorobanPulse.Subscriptions.BatchDelivery
import SorobanPulse.Lib.Csv
import SorobanPulse.Events.Export
import SorobanPulse.Lib.Reach
import SorobanPulse.Events.RelatedTransactions
import SorobanPulse.Integrity.Masking
import SorobanPulse.Lib.ReadThrough
import SorobanPulse.Events.Aggregations
import SorobanPulse.Events.EventQueryBuilder
import SorobanPulse.RateLimit.Headers
import SorobanPulse.Webhook.CircuitBreaker
import SorobanPulse.Notifications.RetryPolicy
import SorobanPulse.Notifications.BackoffArithmetic
import SorobanPulse.Lib.PopGreatest
import SorobanPulse.Webhook.PriorityQueue
import SorobanPulse.Tokens.ExactAmounts
import SorobanPulse.Lib.ProbedPages
import SorobanPulse.Tokens.LedgerPages
import SorobanPulse.Lib.Binary64
import SorobanPulse.Ingest.BloomRotation
import SorobanPulse.Ingest.CursorSpin
import SorobanPulse.Lib.Median
import SorobanPulse.Rpc.Endpoints
import SorobanPulse.Rpc.Failover
import SorobanPulse.Filter.NormalForm
import SorobanPulse.Lib.Consecutive
import SorobanPulse.Backfill.SplitRange
import SorobanPulse.Backfill.ObjectLayout
import SorobanPulse.JsonLocations
import SorobanPulse.Lib.ReplaceAll
import SorobanPulse.Normalizer.Pointer
import SorobanPulse.Normalizer.Normalize
import SorobanPulse.Normalizer.Rfc6901
import SorobanPulse.Lib.Digits
import SorobanPulse.Xdr.NativeFormat
import SorobanPulse.Xdr.KeyTexts
import SorobanPulse.Lib.FloatText
import SorobanPulse.Lib.Trim
import SorobanPulse.Notifications.ContentFilter
import SorobanPulse.Notifications.PathRenderings
import SorobanPulse.Notifications.FilterComparison
import SorobanPulse.Lib.JsonTokens
import SorobanPulse.Webhook.Template
import SorobanPulse.Webhook.Interpolation
import SorobanPulse.Lib.RateWindows
import SorobanPulse.Notifications.ChannelRateLimit
import SorobanPulse.Auth.Base58
import SorobanPulse.Xdr.ScvalFormat
import SorobanPulse.FeatureFlags.Variants
import SorobanPulse.Contracts.CustomSection
import SorobanPulse.Access.IpAccess
import SorobanPulse.BulkExport.Totals
import SorobanPulse.Batch.NotFound
import SorobanPulse.Caching.SerializationCache
import SorobanPulse.Caching.Coherence
import SorobanPulse.Lib.Joined
import SorobanPulse.JsonInjective
import SorobanPulse.Aggregation.Window
import SorobanPulse.Aggregation.GroupMetrics
import SorobanPulse.Rpc.EventServer
import SorobanPulse.Ingest.RunLoop
import SorobanPulse.Ingest.HonestFetch
import SorobanPulse.Ingest.Completeness
import SorobanPulse.Ingest.ReplayJob
import SorobanPulse.Incidents.Correlation
import SorobanPulse.Webhook.Signing
import SorobanPulse.Subscriptions.Lifecycle
import SorobanPulse.Webhook.Deliver
import SorobanPulse.Lib.Xml
import SorobanPulse.Events.AtomFeed
import SorobanPulse.Lib.TimedCache
import SorobanPulse.Events.FeedCache
