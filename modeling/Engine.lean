import Engine.Auth.Consistent
import Engine.Auth.Decision
import Engine.Auth.OnRequest
import Engine.Auth.Tables
import Engine.Caching.Meets
import Engine.Caching.Memo
import Engine.Chains.ChainId
import Engine.Codec.Base64
import Engine.Codec.Decimal
import Engine.Codec.Integer
import Engine.Codec.Json
import Engine.Concurrent.Alone
import Engine.Concurrent.Answered
import Engine.Concurrent.History
import Engine.Concurrent.Locks
import Engine.Concurrent.Machine
import Engine.Concurrent.Ownership
import Engine.Concurrent.Product
import Engine.Concurrent.Program
import Engine.Concurrent.Protocol
import Engine.Concurrent.Sequential
import Engine.Concurrent.SortedSet
import Engine.Cors.Composed
import Engine.Cors.Configuration
import Engine.Cors.Origins
import Engine.Cors.Vary
import Engine.Cors.Wildcards
import Engine.Cron.Fields
import Engine.Cron.IsValidCron
import Engine.Cron.Progressions
import Engine.Events.Announced
import Engine.Events.Chain
import Engine.Events.Contract
import Engine.Events.DecodedLog
import Engine.Events.Delivered
import Engine.Events.EventFilters
import Engine.Events.EventLogPages
import Engine.Events.FilterUnion
import Engine.Events.Keys
import Engine.Events.Pagination
import Engine.Events.ReceiptFilters
import Engine.Events.ReceiptPages
import Engine.Events.Routing
import Engine.Events.Tables
import Engine.Events.Workers
import Engine.Events.World
import Engine.Fees.Cancellation
import Engine.Fees.Overrides
import Engine.Indexer.BlockTime
import Engine.Indexer.Contract
import Engine.Indexer.Converged
import Engine.Indexer.Coverage
import Engine.Indexer.Cursor
import Engine.Indexer.Manager
import Engine.Indexer.Rows
import Engine.Indexer.Tasks
import Engine.Indexer.World
import Engine.Inserts.AllOrNothing
import Engine.Inserts.Deployments
import Engine.Migration.Handler
import Engine.Migration.Progress
import Engine.Migration.Rows
import Engine.Model.Effect
import Engine.Model.Schedule
import Engine.Model.Types
import Engine.Model.World
import Engine.Nonces.Acquire
import Engine.Nonces.HealthCheck
import Engine.Nonces.Inspected
import Engine.Nonces.Keys
import Engine.Nonces.Keyspace
import Engine.Nonces.Lost
import Engine.Nonces.Monotone
import Engine.Nonces.Ownership
import Engine.Nonces.Places
import Engine.Nonces.PrunedMaps
import Engine.Nonces.Reset
import Engine.Nonces.Resync
import Engine.Nonces.UsedWallets
import Engine.Numbers.Double
import Engine.Numbers.Integral
import Engine.Numbers.Number
import Engine.Numbers.Slices
import Engine.Paging.Keyset
import Engine.Paging.Slices
import Engine.Paging.Table
import Engine.Records.Announced
import Engine.Records.Announcing
import Engine.Records.AtMostOnce
import Engine.Records.Cancelled
import Engine.Records.Contract
import Engine.Records.Engine
import Engine.Records.Errored
import Engine.Records.Idempotent
import Engine.Records.Invariants
import Engine.Records.Mining
import Engine.Records.Notes
import Engine.Records.Provenance
import Engine.Records.Replacements
import Engine.Records.Requests
import Engine.Records.Resends
import Engine.Records.Retried
import Engine.Records.Sending
import Engine.Records.Steps
import Engine.Records.Terminal
import Engine.Records.Windows
import Engine.Recycling.Contract
import Engine.Recycling.Marked
import Engine.Recycling.Unused
import Engine.Revocation.Contract
import Engine.Revocation.Requests
import Engine.Revocation.Revoked
import Engine.Secrets.Configuration
import Engine.Secrets.PasswordMigration
import Engine.Server.RateLimit
import Engine.Server.Relayer
import Engine.Signatures.MintPayload
import Engine.Signatures.RoundTrip
import Engine.Signers.Caches
import Engine.Signers.LocalWallets
import Engine.Signers.Migrated
import Engine.Signers.Transparent
import Engine.Source.Broadcasts
import Engine.Source.Calls
import Engine.Source.CancelRecycledNoncesWorker
import Engine.Source.InsertTransaction
import Engine.Source.MigratePostgresTransactionsWorker
import Engine.Source.MineTransactionWorker
import Engine.Source.NonceResyncWorker
import Engine.Source.Routes
import Engine.Source.SendTransactionWorker
import Engine.Source.Shared
import Engine.Source.Utils
import Engine.Source.WalletNonce
import Engine.Store.Batches
import Engine.Store.Listed
import Engine.Store.Orphans
import Engine.Store.Pruned
import Engine.Store.Pruning
import Engine.Store.Redis
import Engine.Store.Separation
import Engine.Store.StatusLists
import Engine.Store.TransactionDB
import Engine.Text.Pattern
import Engine.Text.RegExp
import Engine.Text.Separated
import Engine.Text.Strings
import Engine.Watch.Contract
import Engine.Watch.Handlers
import Engine.Watch.Jobs
import Engine.Watch.Watched
import Engine.Websocket.Consistent
import Engine.Websocket.Handlers
import Engine.Websocket.Integrity
import Engine.Websocket.Registry
