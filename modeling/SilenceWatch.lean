import SilenceWatch.Clients.Fleets
import SilenceWatch.Pipeline.Retries
import SilenceWatch.Notifications.ChatSenders
import SilenceWatch.Auth.SetupLinks
import SilenceWatch.Billing.Checkout
import SilenceWatch.Projects.Ceiling
import SilenceWatch.Channels.TestAlerts
import SilenceWatch.Config.Plans
import SilenceWatch.Database.Listener
import SilenceWatch.Auth.Sessions
import SilenceWatch.ApiKeys.Resolve
import SilenceWatch.Billing.Forms
import SilenceWatch.Library.Idempotency
import SilenceWatch.Library.FormTree
import SilenceWatch.Library.Percent
import SilenceWatch.Library.Backlog
import SilenceWatch.Checks.Upsert
import SilenceWatch.Ingest.Races
import SilenceWatch.Monitoring.Deadlines
import SilenceWatch.Monitoring.Enforcement
import SilenceWatch.Monitoring.Identity
import SilenceWatch.Pipeline.Announcements
import SilenceWatch.Pipeline.Backlog
import SilenceWatch.Pipeline.Deliveries
import SilenceWatch.Pipeline.Incidents
import SilenceWatch.Pipeline.Leases
import SilenceWatch.Pipeline.Recoveries
import SilenceWatch.Pipeline.Resolutions
import SilenceWatch.Checks.Declared
import SilenceWatch.Checks.Redeclared
import SilenceWatch.Checks.Slug
import SilenceWatch.Quotas.Races
import SilenceWatch.Library.Mirror
import SilenceWatch.Pipeline.States
import SilenceWatch.Pipeline.Outages
import SilenceWatch.Pipeline.Causes
import SilenceWatch.Library.Window
import SilenceWatch.Pipeline.Ceiling
import SilenceWatch.Common.RateLimiter
import SilenceWatch.Ingest.Cache
import SilenceWatch.Ingest.Freshness
import SilenceWatch.Ingest.Revocation
import SilenceWatch.Billing.Events
import SilenceWatch.Billing.Repository
import SilenceWatch.Billing.Deliveries
import SilenceWatch.Billing.Races
import SilenceWatch.Auth.Account
import SilenceWatch.Auth.Lockout
import SilenceWatch.Auth.Registration
import SilenceWatch.Ingest.Budget
import SilenceWatch.Access.ProjectAccess
import SilenceWatch.Checks.History
import SilenceWatch.Checks.Isolation
import SilenceWatch.Library.Cron
import SilenceWatch.Schedule.CronSyntax
import SilenceWatch.Clients.Quartz
import SilenceWatch.Clients.Discovery
import SilenceWatch.Clients.CronTrigger
import SilenceWatch.Clients.APScheduler
import SilenceWatch.Clients.Expressible
import SilenceWatch.Auth.Network
import SilenceWatch.Projects.LastProject
import SilenceWatch.Auth.Signup
import SilenceWatch.Quotas.Reconciled
import SilenceWatch.Monitoring.Durations
import SilenceWatch.Ingest.Parameters
import SilenceWatch.Clients.LaravelClient
import SilenceWatch.Clients.LaravelMonitor
import SilenceWatch.Clients.Dialects
import SilenceWatch.Clients.Drifts
import SilenceWatch.Clients.HeartbeatSender
import SilenceWatch.Clients.CronFilters
import SilenceWatch.Clients.Celery
import SilenceWatch.Clients.LetThrough
import SilenceWatch.Common.RateWindows
import SilenceWatch.Audit.Trail
import SilenceWatch.Checks.Cursors
import SilenceWatch.Checks.Walks
import SilenceWatch.Common.Slugs
import SilenceWatch.Clients.Documented
import SilenceWatch.Schedule.Denotation
import SilenceWatch.Checks.Filters
import SilenceWatch.Library.Aead
import SilenceWatch.Library.Base64
import SilenceWatch.Library.Json
import SilenceWatch.Notifications.Vault
import SilenceWatch.Notifications.Resealer
import SilenceWatch.Library.BlockList
import SilenceWatch.Notifications.SafeHttp
import SilenceWatch.Clients.PythonSender
import SilenceWatch.Billing.Signature
import SilenceWatch.Clients.JavaJson
import SilenceWatch.Clients.Crontabs
import SilenceWatch.Clients.Declarations
import SilenceWatch.Clients.ScheduleReader
import SilenceWatch.Library.Choice
import SilenceWatch.Clients.TaskKeys
import SilenceWatch.Checks.Schema
import SilenceWatch.Clients.Answers
import SilenceWatch.ApiKeys.Service
import SilenceWatch.Common.IntervalRunner
import SilenceWatch.Library.CodePoints
import SilenceWatch.Auth.RecoveryCodes
import SilenceWatch.Auth.RecoveryRaces
import SilenceWatch.Library.Batches
import SilenceWatch.Retention.Purge
import SilenceWatch.Retention.Purged
import SilenceWatch.Clients.Payloads
