import JobScheduler.Query
import JobScheduler.Services

namespace JobScheduler
open Relational

/-! ## What the endpoints write into their bodies -/

/-- The text of a UUID: 32 hexadecimal digits in five groups. -/
def hyphenated (u : Uuid) : String :=
  let digits := (Nat.toDigits 16 u).leftpad 32 '0'
  "-".intercalate
    [String.ofList (digits.take 8), String.ofList ((digits.drop 8).take 4),
      String.ofList ((digits.drop 12).take 4), String.ofList ((digits.drop 16).take 4),
      String.ofList (digits.drop 20)]

def JobStatus.text : JobStatus → String
  | .pending => "pending"
  | .queued => "queued"
  | .claimed => "claimed"
  | .running => "running"
  | .completed => "completed"
  | .scheduled => "scheduled"
  | .failed => "failed"

def JobType.text : JobType → String
  | .immediate => "immediate"
  | .delayed => "delayed"
  | .scheduled => "scheduled"
  | .recurring => "recurring"
  | .batch => "batch"

def JobPriority.text : JobPriority → String
  | .low => "low"
  | .normal => "normal"
  | .high => "high"
  | .critical => "critical"

/-- serde writes `None` as `null`. -/
def Value.option {α : Type} (f : α → Value) (a : Option α) : Value := a.elim .null f

def Value.int (n : ℤ) : Value := .number n

def Job.toValue (j : Job) : Value :=
  .object
    [("id", .uuid j.id), ("queue_id", .uuid j.queueId), ("project_id", .uuid j.projectId),
      ("job_type", .string j.jobType.text), ("name", .string j.name), ("payload", j.payload),
      ("status", .string j.status.text), ("priority", .string j.priority.text),
      ("attempt_count", .int j.attemptCount.toInt), ("max_attempts", .int j.maxAttempts.toInt),
      ("scheduled_at", .option .timestamp j.scheduledAt),
      ("next_attempt_at", .option .timestamp j.nextAttemptAt),
      ("cron_expression", .option .string j.cronExpression), ("worker_id", .option .uuid j.workerId),
      ("claimed_at", .option .timestamp j.claimedAt),
      ("idempotency_key", .option .string j.idempotencyKey), ("correlation_id", .uuid j.correlationId),
      ("batch_id", .option .uuid j.batchId), ("retry_policy_id", .option .uuid j.retryPolicyId),
      ("created_at", .timestamp j.createdAt), ("updated_at", .timestamp j.updatedAt),
      ("completed_at", .option .timestamp j.completedAt)]

def Job.summaryValue (j : Job) : Value :=
  .object
    [("id", .uuid j.id), ("name", .string j.name), ("queue_id", .uuid j.queueId),
      ("status", .string j.status.text), ("priority", .string j.priority.text),
      ("job_type", .string j.jobType.text), ("attempt_count", .int j.attemptCount.toInt),
      ("max_attempts", .int j.maxAttempts.toInt), ("created_at", .timestamp j.createdAt),
      ("updated_at", .timestamp j.updatedAt)]

def JobExecution.toValue (e : JobExecution) : Value :=
  .object
    [("id", .uuid e.id), ("job_id", .uuid e.jobId), ("worker_id", .uuid e.workerId),
      ("attempt_number", .int e.attemptNumber.toInt), ("started_at", .timestamp e.startedAt),
      ("finished_at", .option .timestamp e.finishedAt), ("success", .bool e.success),
      ("error_message", .option .string e.errorMessage), ("duration_ms", .option .int e.durationMs),
      ("correlation_id", .uuid e.correlationId)]

def DeadLetterEntry.toValue (d : DeadLetterEntry) : Value :=
  .object
    [("id", .uuid d.id), ("job_id", .uuid d.jobId), ("queue_id", .uuid d.queueId),
      ("project_id", .uuid d.projectId), ("job_name", .string d.jobName), ("payload", d.payload),
      ("last_error", .option .string d.lastError), ("attempt_count", .int d.attemptCount.toInt),
      ("ai_summary", .option .string d.aiSummary), ("moved_to_dlq_at", .timestamp d.movedToDlqAt),
      ("manually_retried_at", .option .timestamp d.manuallyRetriedAt),
      ("manually_retried_by", .option .uuid d.manuallyRetriedBy)]

def Queue.toValue (q : Queue) : Value :=
  .object
    [("id", .uuid q.id), ("project_id", .uuid q.projectId), ("name", .string q.name),
      ("description", .option .string q.description),
      ("concurrency_limit", .int q.concurrencyLimit.toInt),
      ("retry_policy_id", .option .uuid q.retryPolicyId), ("is_paused", .bool q.isPaused),
      ("shard", .option (fun n : Int32 => .int n.toInt) q.shard), ("created_at", .timestamp q.createdAt),
      ("updated_at", .timestamp q.updatedAt)]

def QueueStats.toValue (s : QueueStats) : Value :=
  .object
    [("queue_id", .uuid s.queueId), ("queue_name", .string s.queueName),
      ("queued_count", .int s.queuedCount), ("running_count", .int s.runningCount),
      ("failed_count", .int s.failedCount), ("completed_count", .int s.completedCount),
      ("dlq_count", .int s.dlqCount)]

/-! ## Errors and responses -/

inductive AppError
  | notFound (msg : String)
  | unauthorized
  | forbidden (msg : String)
  | badRequest (msg : String)
  | conflict (msg : String)
  | internal (msg : String)
  | database (e : SqlError)
  deriving DecidableEq, Repr

structure HttpResponse where
  status : ℕ
  body : Value

def AppError.statusAndMessage : AppError → ℕ × String
  | .notFound msg => (404, msg)
  | .unauthorized => (401, "Unauthorized")
  | .forbidden msg => (403, msg)
  | .badRequest msg => (400, msg)
  | .conflict msg => (409, msg)
  -- what the database said is only logged
  | .database _ => (500, "Database error")
  | .internal msg => (500, msg)

def AppError.intoResponse (e : AppError) : HttpResponse :=
  ⟨e.statusAndMessage.1,
    .object [("error", .object [("code", .int e.statusAndMessage.1), ("message", .string e.statusAndMessage.2)])]⟩

def intoResponse : Except AppError HttpResponse → HttpResponse
  | .ok r => r
  | .error e => e.intoResponse

/-- The claims of the token; `sub` is what `Uuid::parse_str` makes of their subject. -/
structure Claims where
  sub : Option Uuid

def Claims.userId (claims : Claims) : Except AppError Uuid :=
  match claims.sub with
  | some userId => .ok userId
  | none => .error .unauthorized

/-! ## The list queries -/

structure ListJobsQuery where
  limit : ℤ := 20
  offset : ℤ := 0

structure ListDlqQuery where
  projectId : Uuid
  limit : ℤ := 20
  offset : ℤ := 0

/-- `sqlx::Error::to_string` of an error the database reports. -/
def databaseText (msg : String) : String := "error returned from database: " ++ msg

/-- `JobRepository::list_by_queue`, before it is cut to a page. -/
def jobsOfQueue (db : Db) (queueId : Uuid) : List Job :=
  orderByDesc Job.createdAt (db.jobs.rows.filter fun j => decide (j.queueId = queueId))

def listExecutions (db : Db) (jobId : Uuid) : List JobExecution :=
  orderByDesc (fun e => e.attemptNumber.toInt)
    (db.jobExecutions.rows.filter fun e => decide (e.jobId = jobId))

/-- `DlqRepository::list_by_project`, before it is cut to a page. -/
def entriesOfProject (db : Db) (projectId : Uuid) : List DeadLetterEntry :=
  orderByDesc DeadLetterEntry.movedToDlqAt
    (db.deadLetterQueue.rows.filter fun d => decide (d.projectId = projectId))

namespace Handlers

/-! ## `handlers::jobs` -/

/-- `map_create_job_error`, which `cancel_job` uses as well. -/
def mapCreateJobError : JobServiceError → AppError
  | .queueNotFound queueId => .notFound ("Queue " ++ hyphenated queueId ++ " not found")
  | .queuePaused queueId => .conflict ("Queue " ++ hyphenated queueId ++ " is paused")
  | .forbidden => .forbidden "User is not allowed to create jobs in this queue"
  | .invalidCronExpression expr => .badRequest ("Invalid cron expression: " ++ expr)
  | .database e => .database e

def createJob (cron : Cron) (db : Db) (now : Timestamp) (id correlationId : Uuid) (claims : Claims)
    (queueId : Uuid) (req : CreateJobRequest) : Except AppError (HttpResponse × Db) := do
  let userId ← claims.userId
  let (job, db') ←
    (JobScheduler.createJob cron db now id correlationId queueId userId req).mapError mapCreateJobError
  return (⟨201, .object
    [("job_id", .uuid job.id), ("correlation_id", .uuid job.correlationId),
      ("status", .string job.status.text), ("name", .string job.name),
      ("created_at", .timestamp job.createdAt)]⟩, db')

/-- The handler reads no claims. -/
def listJobs (db : Db) (queueId : Uuid) (params : ListJobsQuery) : Except AppError HttpResponse := do
  let jobs ← (page params.limit params.offset (jobsOfQueue db queueId)).mapError fun msg =>
    .internal (databaseText msg)
  return ⟨200, .object
    [("jobs", .array (jobs.map Job.summaryValue)), ("limit", .int params.limit),
      ("offset", .int params.offset)]⟩

/-- The handler reads no claims. -/
def getJob (db : Db) (jobId : Uuid) : Except AppError HttpResponse :=
  match db.jobs.find? jobId with
  | some job => .ok ⟨200, job.toValue⟩
  | none => .error (.notFound ("Job " ++ hyphenated jobId ++ " not found"))

/-- The handler reads no claims. -/
def listJobExecutions (db : Db) (jobId : Uuid) : Except AppError HttpResponse :=
  .ok ⟨200, .object [("executions", .array ((listExecutions db jobId).map JobExecution.toValue))]⟩

def cancelJob (db : Db) (now : Timestamp) (claims : Claims) (jobId : Uuid) :
    Except AppError (HttpResponse × Db) := do
  let userId ← claims.userId
  let db' ← (JobScheduler.cancelJob db now jobId userId).mapError mapCreateJobError
  return (⟨200, .object [("status", .string "cancelled"), ("job_id", .uuid jobId)]⟩, db')

/-! ## `handlers::dlq` -/

def mapRetryError : DlqServiceError → AppError
  | .dlqEntryNotFound dlqId => .notFound ("DLQ entry " ++ hyphenated dlqId ++ " not found")
  | .alreadyRetried dlqId => .conflict ("DLQ entry " ++ hyphenated dlqId ++ " was already retried")
  | .jobNotFound jobId => .notFound ("Original job " ++ hyphenated jobId ++ " not found")
  | .forbidden => .forbidden "User is not allowed to retry this DLQ entry"
  | .database e => .database e

/-- The handler reads no claims. -/
def listDlq (db : Db) (params : ListDlqQuery) : Except AppError HttpResponse := do
  let entries ← (page params.limit params.offset (entriesOfProject db params.projectId)).mapError
    fun msg => .internal (databaseText msg)
  return ⟨200, .object [("entries", .array (entries.map DeadLetterEntry.toValue))]⟩

def retryDlqJob (db : Db) (now : Timestamp) (claims : Claims) (dlqId : Uuid) :
    Except AppError (HttpResponse × Db) := do
  let retriedBy ← claims.userId
  let db' ← (retryJob db now dlqId retriedBy).mapError mapRetryError
  return (⟨200, .object [("status", .string "requeued"), ("dlq_id", .uuid dlqId)]⟩, db')

/-! ## `handlers::queues` -/

structure CreateQueueRequest where
  projectId : Uuid
  name : String
  description : Option String
  concurrencyLimit : Option Int32
  retryPolicyId : Option Uuid

def mapQueueError : QueueServiceError → AppError
  | .queueNotFound queueId => .notFound ("Queue " ++ hyphenated queueId ++ " not found")
  | .forbidden => .forbidden "User is not allowed to access this queue"
  | .database e => .database e

def createQueue (db : Db) (now : Timestamp) (id : Uuid) (claims : Claims) (req : CreateQueueRequest) :
    Except AppError (HttpResponse × Db) := do
  let userId ← claims.userId
  let (queue, db') ← (createQueueFor db now id userId req.projectId req.name req.description
    (req.concurrencyLimit.getD 10) req.retryPolicyId).mapError mapQueueError
  return (⟨201, queue.toValue⟩, db')

def queueStats (db : Db) (claims : Claims) (queueId : Uuid) : Except AppError HttpResponse := do
  let userId ← claims.userId
  let stats ← (getStats db userId queueId).mapError mapQueueError
  return ⟨200, stats.toValue⟩

/-- `pause_queue`, and `resume_queue` for `paused = false`. -/
def setPaused (db : Db) (now : Timestamp) (claims : Claims) (queueId : Uuid) (paused : Bool) :
    Except AppError (HttpResponse × Db) := do
  let userId ← claims.userId
  let db' ← (JobScheduler.pauseQueue db now userId queueId paused).mapError mapQueueError
  return (⟨200, .object
    [("status", .string (if paused then "paused" else "resumed")), ("queue_id", .uuid queueId)]⟩, db')

def pauseQueue (db : Db) (now : Timestamp) (claims : Claims) (queueId : Uuid) :
    Except AppError (HttpResponse × Db) :=
  setPaused db now claims queueId true

def resumeQueue (db : Db) (now : Timestamp) (claims : Claims) (queueId : Uuid) :
    Except AppError (HttpResponse × Db) :=
  setPaused db now claims queueId false

/-! ## `handlers::workflows` -/

/-- The check looks at the project of the dependent job only, and any role passes it. -/
def createDependency (db : Db) (id : Uuid) (claims : Claims) (dependentJobId dependencyJobId : Uuid) :
    Except AppError (HttpResponse × Db) := do
  let userId ← claims.userId
  let some dependentJob := db.jobs.find? dependentJobId
    | .error (.notFound ("Job " ++ hyphenated dependentJobId ++ " not found"))
  let some _ := getMemberRole db dependentJob.projectId userId
    | .error (.forbidden "User is not a member of this project")
  match JobScheduler.createDependency db id dependentJobId dependencyJobId with
  -- the reference to the dependency job is the only constraint left to fail
  | .error _ => .error (.internal (databaseText ("insert or update on table \"job_dependencies\" " ++
      "violates foreign key constraint \"job_dependencies_dependency_job_id_fkey\"")))
  | .ok db' => .ok (⟨201, .object
      [("dependent_job_id", .uuid dependentJobId), ("dependency_job_id", .uuid dependencyJobId),
        ("message", .string "Dependency registered")]⟩, db')

end Handlers
end JobScheduler
