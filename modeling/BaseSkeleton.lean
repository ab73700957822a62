import BaseSkeleton.Lib.Machine
import BaseSkeleton.Lib.Keyed
import BaseSkeleton.Lib.WorkItem
import BaseSkeleton.Lib.Fallible
import BaseSkeleton.Lib.Indexed
import BaseSkeleton.Lib.Log
import BaseSkeleton.Lib.Words
import BaseSkeleton.Lib.Sorted
import BaseSkeleton.Lib.Languages
import BaseSkeleton.Lib.Search
import BaseSkeleton.Lib.Program
import BaseSkeleton.Lib.Pool
import BaseSkeleton.Lib.Amortised
import BaseSkeleton.Lib.Linearized
import BaseSkeleton.Lib.Registry
import BaseSkeleton.Lib.Gated
import BaseSkeleton.Lib.Awaited
import BaseSkeleton.Lib.Directory
import BaseSkeleton.Job.Model
import BaseSkeleton.Job.Table
import BaseSkeleton.Job.PostgresQueue
import BaseSkeleton.Job.Change
import BaseSkeleton.Job.Run
import BaseSkeleton.Job.RowInvariant
import BaseSkeleton.Job.ClaimFrame
import BaseSkeleton.Job.History
import BaseSkeleton.Job.Fencing
import BaseSkeleton.Job.Attempts
import BaseSkeleton.Job.Retention
import BaseSkeleton.Job.Worker
import BaseSkeleton.Job.WorkerProtocol
import BaseSkeleton.Job.World
import BaseSkeleton.Job.Lease
import BaseSkeleton.Job.LeaseInvariant
import BaseSkeleton.Job.LeasePolls
import BaseSkeleton.Job.MutualExclusion
import BaseSkeleton.Job.Heartbeat
import BaseSkeleton.Job.HealthyLease
import BaseSkeleton.Job.Backoff
import BaseSkeleton.Job.Maintenance
import BaseSkeleton.Job.RenewalPacing
import BaseSkeleton.Job.RenewalRetries
import BaseSkeleton.Text
import BaseSkeleton.Config
import BaseSkeleton.Auth
import BaseSkeleton.Oidc.Jwk
import BaseSkeleton.Oidc.Metadata
import BaseSkeleton.Oidc.Verify
import BaseSkeleton.Oidc.KeyCache
import BaseSkeleton.Oidc.CacheInvariant
import BaseSkeleton.Oidc.SigningKeys
import BaseSkeleton.Oidc.Refresh
import BaseSkeleton.Oidc.Cancellation
import BaseSkeleton.Oidc.Revocation
import BaseSkeleton.Oidc.FirstMatch
import BaseSkeleton.Oidc.ResponseLimit
import BaseSkeleton.CaseMapping
import BaseSkeleton.Users.Domain
import BaseSkeleton.Users.Ports
import BaseSkeleton.Users.Repository
import BaseSkeleton.Users.Stores
import BaseSkeleton.Users.UseCases
import BaseSkeleton.Users.Registration
import BaseSkeleton.Users.Service
import BaseSkeleton.Users.Coherence
import BaseSkeleton.Users.CacheFailures
import BaseSkeleton.Users.CacheRaces
import BaseSkeleton.Users.TextColumns
import BaseSkeleton.Users.Grammar
import BaseSkeleton.Users.Paging
import BaseSkeleton.Users.Alone
import BaseSkeleton.Users.Linearizable
import BaseSkeleton.Users.Registry
import BaseSkeleton.Users.Outbox
import BaseSkeleton.RateLimit.IpAddr
import BaseSkeleton.RateLimit.Extractor
import BaseSkeleton.RateLimit.FieldLines
import BaseSkeleton.Environment
import BaseSkeleton.Job.WorkerLoop
import BaseSkeleton.Job.Delivery
import BaseSkeleton.Job.Acknowledgement
import BaseSkeleton.Job.Progress
import BaseSkeleton.Job.Shutdown
import BaseSkeleton.Http.Metrics
import BaseSkeleton.Http.BearerToken
import BaseSkeleton.Http.Api
import BaseSkeleton.Http.Gate
import BaseSkeleton.Http.Responses
import BaseSkeleton.Http.Registry
import BaseSkeleton.Job.FailureReport
import BaseSkeleton.Scaffold.Name
import BaseSkeleton.Scaffold.Lockfile
import BaseSkeleton.Scaffold.Render
import BaseSkeleton.Bootstrap.MigrationVersion
import BaseSkeleton.Bootstrap.Migrations
import BaseSkeleton.Bootstrap.RunAll
