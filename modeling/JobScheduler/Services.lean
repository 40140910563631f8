import JobScheduler.Database

namespace JobScheduler
open Relational

/-- What the `cron` crate answers for an expression: whether it parses as a `Schedule`, and
its first occurrence after a given time. -/
structure Cron where
  parses : String → Bool
  upcoming : String → Timestamp → Option Timestamp

/-! ## `JobService` -/

structure CreateJobRequest where
  name : String
  payload : Value
  jobType : JobType
  priority : Option JobPriority
  maxAttempts : Option Int32
  scheduledAt : Option Timestamp
  cronExpression : Option String
  idempotencyKey : Option String
  batchId : Option Uuid
  retryPolicyId : Option Uuid

inductive JobServiceError
  | queueNotFound (id : Uuid)
  | queuePaused (id : Uuid)
  | forbidden
  | invalidCronExpression (expr : String)
  | database (e : SqlError)
  deriving DecidableEq, Repr

def findByIdempotencyKey (db : Db) (key : String) (queueId : Uuid) : Option Job :=
  db.jobs.rows.find? fun j => decide (j.idempotencyKey = some key) && decide (j.queueId = queueId)

def getMemberRole (db : Db) (projectId userId : Uuid) : Option UserRole :=
  (db.projectMembers.find? (projectId, userId)).map (·.role)

theorem getMemberRole_refers {db : Db} {projectId userId : Uuid} {role : UserRole}
    (h : getMemberRole db projectId userId = some role) :
    projectId ∈ db.parents.projects ∧ userId ∈ db.parents.users := by
  obtain ⟨m, hm, -⟩ := Option.map_eq_some_iff.mp h
  have hkey := Table.key_of_find? hm
  have hrefer := db.members_refer m (Table.mem_of_find? hm)
  simp only [ProjectMember.foreignKeys, Bool.and_eq_true, decide_eq_true_eq] at hrefer
  cases hkey
  exact hrefer

/-- The factory: the initial status depends on the job type, and only delayed and scheduled
jobs keep the requested time. -/
def initialStatus (req : CreateJobRequest) : JobStatus × Option Timestamp :=
  match req.jobType with
  | .immediate => (.queued, none)
  | .delayed | .scheduled => (.scheduled, req.scheduledAt)
  | .recurring => (.queued, none)
  | .batch => (.queued, none)

/-- The cron expression is validated only where a recurring job has one. -/
def validateCron (cron : Cron) (req : CreateJobRequest) : Except JobServiceError Unit :=
  if req.jobType = .recurring then
    match req.cronExpression with
    | some expr => if cron.parses expr then .ok () else .error (.invalidCronExpression expr)
    | none => .ok ()
  else .ok ()

/-- The row `create_job` inserts, for a queue read earlier in the call. -/
def newJob (now : Timestamp) (id correlationId : Uuid) (queue : Queue) (req : CreateJobRequest) : Job where
  id := id
  queueId := queue.id
  projectId := queue.projectId
  jobType := req.jobType
  name := req.name
  payload := req.payload
  status := (initialStatus req).1
  priority := req.priority.getD .normal
  attemptCount := 0
  maxAttempts := req.maxAttempts.getD 3
  scheduledAt := (initialStatus req).2
  nextAttemptAt := none
  cronExpression := req.cronExpression
  workerId := none
  claimedAt := none
  idempotencyKey := req.idempotencyKey
  correlationId := correlationId
  batchId := req.batchId
  retryPolicyId := req.retryPolicyId.or queue.retryPolicyId
  createdAt := now
  updatedAt := now
  completedAt := none

/-- The last statements of `create_job`, after its reads: validation, then the `INSERT`. -/
def createJobInsert (cron : Cron) (db : Db) (now : Timestamp) (id correlationId : Uuid) (queue : Queue)
    (req : CreateJobRequest) : Except JobServiceError (Job × Db) := do
  validateCron cron req
  match insertJob db (newJob now id correlationId queue req) with
  | .ok db' => .ok (newJob now id correlationId queue req, db')
  | .error e => .error (.database e)

theorem createJobInsert_ok {cron : Cron} {db db' : Db} {now : Timestamp} {id correlationId : Uuid}
    {queue : Queue} {req : CreateJobRequest} {job : Job}
    (h : createJobInsert cron db now id correlationId queue req = .ok (job, db')) :
    job = newJob now id correlationId queue req ∧ validateCron cron req = .ok () ∧
      insertJob db job = .ok db' := by
  unfold createJobInsert at h
  cases hv : validateCron cron req with
  | error e => simp [hv, bind, Except.bind] at h
  | ok u =>
    simp only [hv, bind, Except.bind] at h
    split at h
    · rename_i db₁ hi
      cases h
      exact ⟨rfl, rfl, hi⟩
    · cases h

def createJob (cron : Cron) (db : Db) (now : Timestamp) (id correlationId queueId userId : Uuid)
    (req : CreateJobRequest) : Except JobServiceError (Job × Db) := do
  -- a re-submission is answered before any other check
  if let some key := req.idempotencyKey then
    if let some existing := findByIdempotencyKey db key queueId then
      return (existing, db)
  let some queue := db.queues.find? queueId | .error (.queueNotFound queueId)
  if !queue.isAcceptingJobs then
    .error (.queuePaused queueId)
  let some role := getMemberRole db queue.projectId userId | .error .forbidden
  if role = .viewer then
    .error .forbidden
  createJobInsert cron db now id correlationId queue req

/-- A successful call either answers with the existing row and changes nothing, or ends in
its `INSERT`. -/
theorem createJob_ok {cron : Cron} {db db' : Db} {now : Timestamp}
    {id correlationId queueId userId : Uuid} {req : CreateJobRequest} {job : Job}
    (h : createJob cron db now id correlationId queueId userId req = .ok (job, db')) :
    db' = db ∨ ∃ queue, db.queues.find? queueId = some queue ∧
      createJobInsert cron db now id correlationId queue req = .ok (job, db') := by
  unfold createJob at h
  simp only [bind, Except.bind, pure, Except.pure] at h
  cases hq : db.queues.find? queueId with
  | none => repeat' split at h <;> simp_all
  | some queue =>
    -- the early return of the idempotency lookup, the refusals, then the insert
    cases hr : getMemberRole db queue.projectId userId with
    | none => repeat' split at h <;> simp_all
    | some role => repeat' split at h <;> simp_all

def cancellable (j : Job) : Bool :=
  j.status = .pending || j.status = .queued || j.status = .scheduled

/-- The guarded `UPDATE` of `cancel_job`; its row count is not looked at. -/
def cancelJobUpdate (db : Db) (now : Timestamp) (jobId : Uuid) : Db :=
  db.updateJobs (fun j => decide (j.id = jobId) && cancellable j) (Job.cancel now)
    (Job.cancel_id now)

def cancelJob (db : Db) (now : Timestamp) (jobId userId : Uuid) : Except JobServiceError Db := do
  let some job := db.jobs.find? jobId | .error (.queueNotFound jobId)
  let some role := getMemberRole db job.projectId userId | .error .forbidden
  if role = .viewer then
    .error .forbidden
  return cancelJobUpdate db now jobId

theorem cancelJob_ok {db db' : Db} {now : Timestamp} {jobId userId : Uuid}
    (h : cancelJob db now jobId userId = .ok db') : db' = cancelJobUpdate db now jobId := by
  unfold cancelJob at h
  simp only [bind, Except.bind, pure, Except.pure] at h
  split at h
  · split at h
    · split at h
      · cases h
      · cases h
        rfl
    · cases h
  · cases h

/-! ## `DlqService` -/

inductive DlqServiceError
  | dlqEntryNotFound (id : Uuid)
  | alreadyRetried (id : Uuid)
  | jobNotFound (id : Uuid)
  | forbidden
  | database (e : SqlError)
  deriving DecidableEq, Repr

def DeadLetterEntry.markRetried (now : Timestamp) (retriedBy : Uuid) (d : DeadLetterEntry) :
    DeadLetterEntry :=
  { d with manuallyRetriedAt := some now, manuallyRetriedBy := some retriedBy }

theorem DeadLetterEntry.markRetried_id (now : Timestamp) (retriedBy : Uuid) (d : DeadLetterEntry) :
    (d.markRetried now retriedBy).id = d.id := rfl

/-- The transaction of `retry_job`, for the entry read earlier in the call: the job goes back
to `queued` whatever its status, and the entry is marked. -/
def retryJobCommit (db : Db) (now : Timestamp) (entry : DeadLetterEntry) (retriedBy : Uuid) :
    Except DlqServiceError Db :=
  if (db.jobs.find? entry.jobId).isNone then .error (.jobNotFound entry.jobId)
  -- dead_letter_queue.manually_retried_by REFERENCES users(id)
  else if retriedBy ∉ db.parents.users then .error (.database .foreignKeyViolation)
  else .ok
    { db.updateJob entry.jobId (Job.manualRetry now) (Job.manualRetry_id now) with
      deadLetterQueue := db.deadLetterQueue.update (fun d => decide (d.id = entry.id))
        (DeadLetterEntry.markRetried now retriedBy) (DeadLetterEntry.markRetried_id now retriedBy) }

def retryJob (db : Db) (now : Timestamp) (dlqId retriedBy : Uuid) : Except DlqServiceError Db := do
  let some entry := db.deadLetterQueue.find? dlqId | .error (.dlqEntryNotFound dlqId)
  -- the only place where a second retry is refused
  if entry.manuallyRetriedAt.isSome then
    .error (.alreadyRetried dlqId)
  let some role := getMemberRole db entry.projectId retriedBy | .error .forbidden
  if role = .viewer then
    .error .forbidden
  retryJobCommit db now entry retriedBy

theorem retryJobCommit_ok {db db' : Db} {now : Timestamp} {entry : DeadLetterEntry} {retriedBy : Uuid}
    (h : retryJobCommit db now entry retriedBy = .ok db') :
    (∃ r, db.jobs.find? entry.jobId = some r) ∧ retriedBy ∈ db.parents.users ∧ db' =
      { db.updateJob entry.jobId (Job.manualRetry now) (Job.manualRetry_id now) with
        deadLetterQueue := db.deadLetterQueue.update (fun d => decide (d.id = entry.id))
          (DeadLetterEntry.markRetried now retriedBy) (DeadLetterEntry.markRetried_id now retriedBy) } := by
  unfold retryJobCommit at h
  split at h
  · cases h
  · rename_i hr
    split at h
    · cases h
    · rename_i hu
      cases h
      exact ⟨Option.ne_none_iff_exists'.mp (by simpa using hr), not_not.mp hu, rfl⟩

theorem retryJob_ok {db db' : Db} {now : Timestamp} {dlqId retriedBy : Uuid}
    (h : retryJob db now dlqId retriedBy = .ok db') :
    ∃ entry, db.deadLetterQueue.find? dlqId = some entry ∧ entry.manuallyRetriedAt = none ∧
      retryJobCommit db now entry retriedBy = .ok db' := by
  unfold retryJob at h
  cases he : db.deadLetterQueue.find? dlqId with
  | none => simp [he] at h
  | some entry =>
    simp only [he, bind, Except.bind] at h
    refine ⟨entry, rfl, ?_⟩
    cases hn : entry.manuallyRetriedAt with
    | some at' => simp [hn] at h
    | none =>
      simp only [hn, Option.isSome_none, Bool.false_eq_true, if_false] at h
      split at h
      · split at h
        · cases h
        · exact ⟨rfl, h⟩
      · cases h

/-! ## `WorkflowService` -/

/-- `INSERT INTO job_dependencies … ON CONFLICT DO NOTHING`, both jobs being referenced. -/
def createDependency (db : Db) (id dependentJobId dependencyJobId : Uuid) : Except SqlError Db :=
  if db.jobDependencies.rows.any fun d =>
      d.dependentJobId = dependentJobId && d.dependencyJobId = dependencyJobId then .ok db
  else if (db.jobs.find? dependentJobId).isNone || (db.jobs.find? dependencyJobId).isNone then
    .error .foreignKeyViolation
  else
    match db.jobDependencies.insert ⟨id, dependentJobId, dependencyJobId⟩ with
    | none => .ok db
    | some deps => .ok { db with jobDependencies := deps }

theorem createDependency_ok {db db' : Db} {id dependentJobId dependencyJobId : Uuid}
    (h : createDependency db id dependentJobId dependencyJobId = .ok db') :
    db' = db ∨
      (db.jobDependencies.rows.any fun d =>
        d.dependentJobId = dependentJobId && d.dependencyJobId = dependencyJobId) = false ∧
      (∃ dependency, db.jobs.find? dependencyJobId = some dependency) ∧
      ∃ deps, db.jobDependencies.insert ⟨id, dependentJobId, dependencyJobId⟩ = some deps ∧
        db' = { db with jobDependencies := deps } := by
  unfold createDependency at h
  split at h
  · cases h
    exact .inl rfl
  · rename_i hnone
    split at h
    · cases h
    · rename_i hjobs
      split at h
      · cases h
        exact .inl rfl
      · rename_i deps hi
        cases h
        refine .inr ⟨by simpa using hnone, ?_, deps, hi, rfl⟩
        exact Option.ne_none_iff_exists'.mp fun hn => hjobs (by simp [hn])

/-- The write of `on_job_completed` for one dependent job. Nothing calls `on_job_completed`, and
nothing gives a job the status `pending`. -/
def releaseDependent (db : Db) (now : Timestamp) (jobId : Uuid) : Db :=
  db.updateJobs (fun j => decide (j.id = jobId) && decide (j.status = .pending)) (Job.reQueue now)
    (Job.reQueue_id now)

/-! ## `schedule_next_occurrence` -/

inductive RecurringError
  | notRecurring (id : Uuid)
  | missingCronExpression (id : Uuid)
  | invalidCronExpression (expr : String)
  | noFutureOccurrence
  | database (e : SqlError)
  deriving DecidableEq, Repr

/-- The row that `INSERT … SELECT` derives from the completed one. -/
def nextOccurrence (now nextAt : Timestamp) (id correlationId : Uuid) (j : Job) : Job :=
  { j with
    id := id
    status := .scheduled
    attemptCount := 0
    scheduledAt := some nextAt
    nextAttemptAt := none
    workerId := none
    claimedAt := none
    idempotencyKey := none
    correlationId := correlationId
    createdAt := now
    updatedAt := now
    completedAt := none }

/-- `utcNow` is the worker's clock, `now` the database's. -/
def scheduleNextOccurrence (cron : Cron) (db : Db) (now utcNow : Timestamp) (id correlationId : Uuid)
    (job : Job) : Except RecurringError (Job × Db) := do
  if !job.isRecurring then
    .error (.notRecurring job.id)
  let some expression := job.cronExpression | .error (.missingCronExpression job.id)
  if !cron.parses expression then
    .error (.invalidCronExpression expression)
  let some nextAt := cron.upcoming expression utcNow | .error .noFutureOccurrence
  match db.jobs.find? job.id with
  | none => .error (.database .rowNotFound)
  | some row =>
    let next := nextOccurrence now nextAt id correlationId row
    match insertJob db next with
    | .ok db' => .ok (next, db')
    | .error e => .error (.database e)

theorem scheduleNextOccurrence_ok {cron : Cron} {db db' : Db} {now utcNow : Timestamp}
    {id correlationId : Uuid} {job next : Job}
    (h : scheduleNextOccurrence cron db now utcNow id correlationId job = .ok (next, db')) :
    ∃ row nextAt, db.jobs.find? job.id = some row ∧
      next = nextOccurrence now nextAt id correlationId row ∧ insertJob db next = .ok db' := by
  unfold scheduleNextOccurrence at h
  simp only [bind, Except.bind] at h
  split at h
  · cases h
  · split at h
    · split at h
      · cases h
      · split at h
        · rename_i nextAt hn
          split at h
          · cases h
          · rename_i row hrow
            split at h
            · rename_i db₁ hi
              cases h
              exact ⟨row, nextAt, hrow, rfl, hi⟩
            · cases h
        · cases h
    · cases h

/-- Nothing but the database stands in the way of the next occurrence of a recurring job whose
expression has one: its row refers to existing ones, and it takes no idempotency key over. -/
theorem scheduleNextOccurrence_succeeds {cron : Cron} {db : Db} (now : Timestamp) {utcNow nextAt : Timestamp}
    {id : Uuid} (correlationId : Uuid) {job row : Job} {e : String}
    (hrec : job.isRecurring = true) (he : job.cronExpression = some e) (hp : cron.parses e = true)
    (hu : cron.upcoming e utcNow = some nextAt) (hrow : db.jobs.find? job.id = some row)
    (hfk : row.asSubmitted.foreignKeys db = true) (hid : db.jobs.find? id = none) :
    (scheduleNextOccurrence cron db now utcNow id correlationId job).isOk = true := by
  have hins : ∃ db', insertJob db (nextOccurrence now nextAt id correlationId row) = .ok db' :=
    insertJob_succeeds hfk (fun hkey => by cases hkey) hid
  obtain ⟨db', hi⟩ := hins
  simp [scheduleNextOccurrence, hrec, he, hp, hu, hrow, hi, Except.isOk, Except.toBool]

/-! ## `QueueService` -/

inductive QueueServiceError
  | queueNotFound (id : Uuid)
  | forbidden
  | database (e : SqlError)
  deriving DecidableEq, Repr

def requireProjectMember (db : Db) (projectId userId : Uuid) : Except QueueServiceError UserRole :=
  match getMemberRole db projectId userId with
  | some role => .ok role
  | none => .error .forbidden

def requireProjectWriter (db : Db) (projectId userId : Uuid) : Except QueueServiceError Unit := do
  let role ← requireProjectMember db projectId userId
  if role = .viewer then
    .error .forbidden

def queueForAction (db : Db) (queueId userId : Uuid) (requireWriter : Bool) :
    Except QueueServiceError Queue := do
  let some queue := db.queues.find? queueId | .error (.queueNotFound queueId)
  if requireWriter then
    requireProjectWriter db queue.projectId userId
  else
    discard (requireProjectMember db queue.projectId userId)
  return queue

/-- `QueueService::create_queue`; a new queue is not paused and has no shard. -/
def createQueueFor (db : Db) (now : Timestamp) (id userId projectId : Uuid) (name : String)
    (description : Option String) (concurrencyLimit : Int32) (retryPolicyId : Option Uuid) :
    Except QueueServiceError (Queue × Db) := do
  requireProjectWriter db projectId userId
  let queue : Queue :=
    ⟨id, projectId, name, description, concurrencyLimit, retryPolicyId, false, none, now, now⟩
  match createQueue db queue with
  | .ok db' => .ok (queue, db')
  | .error e => .error (.database e)

/-- `pause_queue`, and `resume_queue` for `paused = false`. -/
def pauseQueue (db : Db) (now : Timestamp) (userId queueId : Uuid) (paused : Bool) :
    Except QueueServiceError Db := do
  let queue ← queueForAction db queueId userId true
  return setPaused db now queue.id paused

structure QueueStats where
  queueId : Uuid
  queueName : String
  queuedCount : ℕ
  runningCount : ℕ
  failedCount : ℕ
  completedCount : ℕ
  dlqCount : ℕ
  deriving DecidableEq, Repr

/-- `LEFT JOIN`: a row without a partner is kept once, beside `NULL`. -/
def leftJoin {α β : Type} (rows : List α) (partners : List β) : List (α × Option β) :=
  rows.flatMap fun a => if partners.isEmpty then [(a, none)] else partners.map fun b => (a, some b)

/-- `QueueRepository::get_stats` for a queue row: both joins are on the queue's id. -/
def repositoryStats (db : Db) (q : Queue) : QueueStats :=
  let jobs := leftJoin [q] (db.jobs.rows.filter fun j => decide (j.queueId = q.id))
  let rows := leftJoin jobs (db.deadLetterQueue.rows.filter fun d => decide (d.queueId = q.id))
  let count (status : JobStatus) := rows.countP fun r => r.1.2.any fun j => decide (j.status = status)
  ⟨q.id, q.name, count .queued, count .running, count .failed, count .completed,
    rows.countP fun r => r.2.isSome⟩

theorem countP_leftJoin {α β : Type} (rows : List α) (partners : List β) (p : α → Bool) :
    (leftJoin rows partners).countP (fun r => p r.1) = rows.countP p * max 1 partners.length := by
  induction rows with
  | nil => simp [leftJoin]
  | cons a l ih =>
    rw [leftJoin, List.flatMap_cons, List.countP_append, ← leftJoin, ih, List.countP_cons, Nat.add_mul,
      Nat.add_comm]
    congr 1
    cases partners with
    | nil => cases hp : p a <;> simp [hp]
    | cons b bs => cases hp : p a <;> simp [hp, List.countP_map, Function.comp_def]

theorem countP_leftJoin_partners {α β : Type} (rows : List α) (partners : List β) :
    (leftJoin rows partners).countP (fun r => r.2.isSome) = rows.length * partners.length := by
  induction rows with
  | nil => simp [leftJoin]
  | cons a l ih =>
    rw [leftJoin, List.flatMap_cons, List.countP_append, ← leftJoin, ih, List.length_cons, Nat.add_mul,
      Nat.one_mul, Nat.add_comm]
    congr 1
    cases partners with
    | nil => simp
    | cons b bs => simp [List.countP_map, Function.comp_def]

theorem countP_leftJoin_singleton {α β : Type} (a : α) (partners : List β) (p : β → Bool) :
    (leftJoin [a] partners).countP (fun r => r.2.any p) = partners.countP p := by
  cases partners with
  | nil => simp [leftJoin]
  | cons b bs => simp [leftJoin, List.countP_cons, List.countP_map, Function.comp_def]

theorem length_leftJoin_singleton {α β : Type} (a : α) (partners : List β) :
    (leftJoin [a] partners).length = max 1 partners.length := by
  cases partners with
  | nil => simp [leftJoin]
  | cons b bs => simp [leftJoin]

/-- Both joins are on the queue, so every job is counted once for each dead letter of the queue,
and every dead letter once for each job. -/
theorem repositoryStats_eq (db : Db) (q : Queue) :
    repositoryStats db q =
      let jobs := db.jobs.rows.filter fun j => decide (j.queueId = q.id)
      let entries := (db.deadLetterQueue.rows.filter fun d => decide (d.queueId = q.id)).length
      let count (status : JobStatus) := (jobs.countP fun j => decide (j.status = status)) * max 1 entries
      ⟨q.id, q.name, count .queued, count .running, count .failed, count .completed,
        max 1 jobs.length * entries⟩ := by
  have hcount : ∀ status : JobStatus, ∀ jobs : List Job, ∀ entries : List DeadLetterEntry,
      (leftJoin (leftJoin [q] jobs) entries).countP
          (fun r => r.1.2.any fun j => decide (j.status = status)) =
        (jobs.countP fun j => decide (j.status = status)) * max 1 entries.length := by
    intro status jobs entries
    rw [countP_leftJoin _ _ fun r : Queue × Option Job => r.2.any fun j => decide (j.status = status),
      countP_leftJoin_singleton]
  simp only [repositoryStats, hcount, countP_leftJoin_partners, length_leftJoin_singleton]

def getStats (db : Db) (userId queueId : Uuid) : Except QueueServiceError QueueStats := do
  discard (queueForAction db queueId userId false)
  match db.queues.find? queueId with
  | some q => return repositoryStats db q
  | none => .error (.database .rowNotFound)

end JobScheduler
