import JobScheduler.StateMachine
import JobScheduler.Fencing
import JobScheduler.Attempts
import JobScheduler.Orphans
import JobScheduler.Outbox
import JobScheduler.Recurring
import JobScheduler.Poller
import JobScheduler.Workflow
import JobScheduler.Rows
import JobScheduler.Startup
import JobScheduler.Cancellation
import JobScheduler.DeadLetters
import JobScheduler.Pausing
import JobScheduler.Idempotency
import JobScheduler.Timing
import JobScheduler.RateLimit
import JobScheduler.Isolation
import JobScheduler.Authorization
import JobScheduler.Dependencies
import JobScheduler.Release
import JobScheduler.SkewedBucket
import JobScheduler.ClockSkew
import JobScheduler.Relay
import JobScheduler.Dashboard
import JobScheduler.CircuitBreaker
import JobScheduler.EventOrder
import JobScheduler.Probe
import JobScheduler.Auth
import JobScheduler.Refresh
import JobScheduler.TokenScan
import JobScheduler.Steps
import JobScheduler.ClaimOrder
import JobScheduler.Sequential
import JobScheduler.Stats
import JobScheduler.RateLimitKeys
import JobScheduler.Projects
import JobScheduler.Backoff
import JobScheduler.RetrySchedule
import JobScheduler.Admission
import JobScheduler.RateLimitOptimal
import JobScheduler.Callers
import JobScheduler.Liveness
import JobScheduler.Processes
import JobScheduler.Progress
import JobScheduler.ActiveJobs
import JobScheduler.Deployment
import JobScheduler.Pipeline
import JobScheduler.PollRate
import JobScheduler.Sessions
import JobScheduler.Starvation
import JobScheduler.Membership
import JobScheduler.Settling
import JobScheduler.Completion
import JobScheduler.Paging
import JobScheduler.Housekeeping
import JobScheduler.Accounts
