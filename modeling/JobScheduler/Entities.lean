import Mathlib.Data.Rat.Defs
import Mathlib.Tactic

namespace JobScheduler

/-- A UUID is only ever compared for equality. -/
abbrev Uuid := ℕ

/-- Microseconds since the epoch, PostgreSQL's own resolution. -/
abbrev Timestamp := ℤ

/-- A `serde_json::Value`. Identifiers and times keep a constructor of their own; serde
writes both as strings. -/
inductive Value
  | null
  | bool (b : Bool)
  | number (q : ℚ)
  | string (s : String)
  | uuid (u : Uuid)
  | timestamp (t : Timestamp)
  | array (xs : List Value)
  | object (fields : List (String × Value))

inductive JobStatus
  | pending | queued | claimed | running | completed | scheduled | failed
  deriving DecidableEq, Repr

inductive JobType
  | immediate | delayed | scheduled | recurring | batch
  deriving DecidableEq, Repr

inductive JobPriority
  | low | normal | high | critical
  deriving DecidableEq, Repr

inductive UserRole
  | admin | member | viewer
  deriving DecidableEq, Repr

inductive OutboxEventType
  | jobCompleted | jobFailed | jobRetryScheduled | jobMovedToDlq | jobClaimed
  | queuePaused | queueResumed
  deriving DecidableEq, Repr

structure Job where
  id : Uuid
  queueId : Uuid
  projectId : Uuid
  jobType : JobType
  name : String
  payload : Value
  status : JobStatus
  priority : JobPriority
  attemptCount : Int32
  maxAttempts : Int32
  scheduledAt : Option Timestamp
  nextAttemptAt : Option Timestamp
  cronExpression : Option String
  workerId : Option Uuid
  claimedAt : Option Timestamp
  idempotencyKey : Option String
  correlationId : Uuid
  batchId : Option Uuid
  retryPolicyId : Option Uuid
  createdAt : Timestamp
  updatedAt : Timestamp
  completedAt : Option Timestamp

def Job.canTransitionTo (j : Job) (next : JobStatus) : Bool :=
  match j.status, next with
  | .pending, .queued
  | .queued, .claimed
  | .claimed, .running
  | .running, .completed
  | .running, .scheduled
  | .running, .failed
  | .scheduled, .queued => true
  | _, _ => false

def Job.isRecurring (j : Job) : Bool :=
  j.jobType = .recurring && j.cronExpression.isSome

structure JobExecution where
  id : Uuid
  jobId : Uuid
  workerId : Uuid
  attemptNumber : Int32
  startedAt : Timestamp
  finishedAt : Option Timestamp
  success : Bool
  errorMessage : Option String
  durationMs : Option ℤ
  correlationId : Uuid

structure DeadLetterEntry where
  id : Uuid
  jobId : Uuid
  queueId : Uuid
  projectId : Uuid
  jobName : String
  payload : Value
  lastError : Option String
  attemptCount : Int32
  aiSummary : Option String
  movedToDlqAt : Timestamp
  manuallyRetriedAt : Option Timestamp
  manuallyRetriedBy : Option Uuid

structure OutboxEvent where
  id : Uuid
  eventType : OutboxEventType
  aggregateId : Uuid
  payload : Value
  published : Bool
  publishedAt : Option Timestamp
  createdAt : Timestamp
  correlationId : Uuid

/-- `id` is the fresh identifier and `now` the worker's clock. -/
def OutboxEvent.new (id : Uuid) (now : Timestamp) (eventType : OutboxEventType) (aggregateId : Uuid)
    (payload : Value) (correlationId : Uuid) : OutboxEvent where
  id := id
  eventType := eventType
  aggregateId := aggregateId
  payload := payload
  published := false
  publishedAt := none
  createdAt := now
  correlationId := correlationId

structure Queue where
  id : Uuid
  projectId : Uuid
  name : String
  description : Option String
  concurrencyLimit : Int32
  retryPolicyId : Option Uuid
  isPaused : Bool
  shard : Option Int32
  createdAt : Timestamp
  updatedAt : Timestamp

def Queue.isAcceptingJobs (q : Queue) : Bool := !q.isPaused

structure JobDependency where
  id : Uuid
  dependentJobId : Uuid
  dependencyJobId : Uuid

structure Worker where
  id : Uuid
  name : String
  hostname : String
  isActive : Bool
  registeredAt : Timestamp
  deregisteredAt : Option Timestamp

structure WorkerHeartbeat where
  workerId : Uuid
  lastSeen : Timestamp
  activeJobs : Int32

structure ProjectMember where
  projectId : Uuid
  userId : Uuid
  role : UserRole

end JobScheduler
