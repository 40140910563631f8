import JobScheduler.Table
import JobScheduler.Entities

namespace JobScheduler
open Relational

/-- The primary keys of the tables that foreign keys refer to and no statement below writes. -/
structure ParentKeys where
  users : List Uuid
  projects : List Uuid
  retryPolicies : List Uuid

/-- `queues.project_id` and `queues.retry_policy_id`. -/
def Queue.foreignKeys (parents : ParentKeys) (q : Queue) : Bool :=
  decide (q.projectId ∈ parents.projects) && q.retryPolicyId.all fun p => decide (p ∈ parents.retryPolicies)

/-- `project_members.project_id` and `project_members.user_id`. -/
def ProjectMember.foreignKeys (parents : ParentKeys) (m : ProjectMember) : Bool :=
  decide (m.projectId ∈ parents.projects) && decide (m.userId ∈ parents.users)

/-- The tables of the initial schema that the scheduler works on, under their primary keys. -/
structure Db where
  parents : ParentKeys
  jobs : Table Job.id
  jobExecutions : Table JobExecution.id
  deadLetterQueue : Table DeadLetterEntry.id
  outboxEvents : Table OutboxEvent.id
  jobDependencies : Table JobDependency.id
  queues : Table Queue.id
  workers : Table Worker.id
  workerHeartbeats : Table WorkerHeartbeat.workerId
  projectMembers : Table fun m : ProjectMember => (m.projectId, m.userId)
  queues_refer : ∀ q ∈ queues.rows, q.foreignKeys parents = true
  members_refer : ∀ m ∈ projectMembers.rows, m.foreignKeys parents = true

inductive SqlError
  | foreignKeyViolation
  | uniqueViolation
  | rowNotFound
  | connection
  deriving DecidableEq, Repr

/-! Assignments of the `UPDATE jobs` statements, `now` being `NOW()`. -/

def Job.claim (workerId : Uuid) (now : Timestamp) (j : Job) : Job :=
  { j with status := .claimed, workerId := some workerId, claimedAt := some now, updatedAt := now }

def Job.markRunning (now : Timestamp) (j : Job) : Job :=
  { j with status := .running, updatedAt := now }

def Job.markCompleted (now : Timestamp) (j : Job) : Job :=
  { j with status := .completed, completedAt := some now, updatedAt := now, workerId := none }

def Job.markFailed (attempt : Int32) (now : Timestamp) (j : Job) : Job :=
  { j with status := .failed, attemptCount := attempt, workerId := none, updatedAt := now }

def Job.scheduleRetry (nextAttemptAt : Timestamp) (attempt : Int32) (now : Timestamp) (j : Job) : Job :=
  { j with
    status := .scheduled, nextAttemptAt := some nextAttemptAt, attemptCount := attempt,
    workerId := none, updatedAt := now }

def Job.reQueue (now : Timestamp) (j : Job) : Job :=
  { j with status := .queued, updatedAt := now }

def Job.recover (now : Timestamp) (j : Job) : Job :=
  { j with status := .queued, workerId := none, claimedAt := none, updatedAt := now }

def Job.cancel (now : Timestamp) (j : Job) : Job :=
  { j with status := .failed, updatedAt := now }

def Job.manualRetry (now : Timestamp) (j : Job) : Job :=
  { j with
    status := .queued, workerId := none, claimedAt := none, nextAttemptAt := none,
    completedAt := none, updatedAt := now }

/-- A job as it was submitted: without what the statements of its lifecycle assign. -/
def Job.asSubmitted (j : Job) : Job :=
  { j with
    status := .queued, attemptCount := 0, nextAttemptAt := none, workerId := none, claimedAt := none,
    updatedAt := j.createdAt, completedAt := none }

theorem Job.claim_id (w : Uuid) (now : Timestamp) (j : Job) : (j.claim w now).id = j.id := rfl

theorem Job.markRunning_id (now : Timestamp) (j : Job) : (j.markRunning now).id = j.id := rfl

theorem Job.markCompleted_id (now : Timestamp) (j : Job) : (j.markCompleted now).id = j.id := rfl

theorem Job.markFailed_id (attempt : Int32) (now : Timestamp) (j : Job) :
    (j.markFailed attempt now).id = j.id := rfl

theorem Job.scheduleRetry_id (nextAt : Timestamp) (attempt : Int32) (now : Timestamp) (j : Job) :
    (j.scheduleRetry nextAt attempt now).id = j.id := rfl

theorem Job.reQueue_id (now : Timestamp) (j : Job) : (j.reQueue now).id = j.id := rfl

theorem Job.recover_id (now : Timestamp) (j : Job) : (j.recover now).id = j.id := rfl

theorem Job.cancel_id (now : Timestamp) (j : Job) : (j.cancel now).id = j.id := rfl

theorem Job.manualRetry_id (now : Timestamp) (j : Job) : (j.manualRetry now).id = j.id := rfl

/-- `UPDATE jobs SET f WHERE p`. -/
def Db.updateJobs (db : Db) (p : Job → Bool) (f : Job → Job) (hf : ∀ j, (f j).id = j.id) : Db :=
  { db with jobs := db.jobs.update p f hf }

/-- `UPDATE jobs SET f WHERE id = id`. -/
def Db.updateJob (db : Db) (id : Uuid) (f : Job → Job) (hf : ∀ j, (f j).id = j.id) : Db :=
  db.updateJobs (fun j => decide (j.id = id)) f hf

/-! ## `JobRepository` -/

/-- The `CASE priority` weights of the claim query. -/
def priorityWeight : JobPriority → ℕ
  | .critical => 20
  | .high => 10
  | .normal => 5
  | .low => 1

/-- The `WHERE` clause of the claim query. -/
def claimable (now : Timestamp) (queueId : Uuid) (j : Job) : Bool :=
  j.status = .queued && j.queueId = queueId && j.scheduledAt.all fun t => t ≤ now

/-- `ORDER BY weight DESC, created_at ASC`. -/
def claimsBefore (j k : Job) : Bool :=
  priorityWeight k.priority < priorityWeight j.priority ||
    (priorityWeight j.priority = priorityWeight k.priority && j.createdAt ≤ k.createdAt)

/-- `LIMIT 1` of an ordered selection. -/
def firstBy {α : Type} (before : α → α → Bool) : List α → Option α
  | [] => none
  | a :: as =>
    match firstBy before as with
    | none => some a
    | some b => some (if before a b then a else b)

theorem firstBy_mem {α : Type} {before : α → α → Bool} {l : List α} {a : α}
    (h : firstBy before l = some a) : a ∈ l := by
  induction l generalizing a with
  | nil => cases h
  | cons b l ih =>
    rw [firstBy] at h
    split at h
    · cases h
      exact List.mem_cons_self
    · rename_i c hc
      cases h
      split
      · exact List.mem_cons_self
      · exact List.mem_cons_of_mem _ (ih hc)

/-- The row the inner `SELECT … FOR UPDATE SKIP LOCKED LIMIT 1` locks; `locked` are the rows
other transactions hold locks on. -/
def nextClaimable (db : Db) (now : Timestamp) (queueId : Uuid) (locked : List Uuid) : Option Job :=
  firstBy claimsBefore
    (db.jobs.rows.filter fun j => claimable now queueId j && !locked.contains j.id)

def claimNextJob (db : Db) (now : Timestamp) (queueId workerId : Uuid) (locked : List Uuid) :
    Except SqlError (Option (Job × Db)) :=
  match nextClaimable db now queueId locked with
  | none => .ok none
  | some j =>
    -- jobs.worker_id REFERENCES workers(id)
    if (db.workers.find? workerId).isNone then .error .foreignKeyViolation
    else .ok (some (j.claim workerId now, db.updateJob j.id (Job.claim workerId now) (Job.claim_id workerId now)))

theorem nextClaimable_some {db : Db} {now : Timestamp} {queueId : Uuid} {locked : List Uuid} {j : Job}
    (h : nextClaimable db now queueId locked = some j) :
    db.jobs.find? j.id = some j ∧ claimable now queueId j = true := by
  obtain ⟨hm, hp⟩ := List.mem_filter.mp (firstBy_mem h)
  exact ⟨Table.find?_of_mem hm, (Bool.and_eq_true_iff.mp hp).1⟩

theorem claimNextJob_some {db db' : Db} {now : Timestamp} {queueId workerId : Uuid}
    {locked : List Uuid} {job : Job}
    (h : claimNextJob db now queueId workerId locked = .ok (some (job, db'))) :
    ∃ r, db.jobs.find? r.id = some r ∧ claimable now queueId r = true ∧ job = r.claim workerId now ∧
      db' = db.updateJob r.id (Job.claim workerId now) (Job.claim_id workerId now) := by
  unfold claimNextJob at h
  split at h
  · cases h
  · rename_i r hr
    obtain ⟨hf, hc⟩ := nextClaimable_some hr
    split at h
    · cases h
    · cases h
      exact ⟨r, hf, hc, rfl, rfl⟩

/-- `COALESCE(next_attempt_at, scheduled_at) <= NOW()`, false where both are `NULL`. -/
def dueForPromotion (now : Timestamp) (j : Job) : Bool :=
  j.status = .scheduled && (j.nextAttemptAt.or j.scheduledAt).any fun t => t ≤ now

def reQueueScheduledJobs (db : Db) (now : Timestamp) : Db :=
  db.updateJobs (dueForPromotion now) (Job.reQueue now) (Job.reQueue_id now)

/-- The subquery of `recover_stale_jobs`: a registered worker without a heartbeat, or whose
last one is more than the threshold ago. -/
def isStale (db : Db) (now : Timestamp) (staleThresholdSeconds : ℤ) (workerId : Uuid) : Bool :=
  (db.workers.find? workerId).isSome &&
    match db.workerHeartbeats.find? workerId with
    | none => true
    | some hb => staleThresholdSeconds * 1000000 < now - hb.lastSeen

/-- The `WHERE` clause of `recover_stale_jobs`. -/
def recoverable (db : Db) (now : Timestamp) (staleThresholdSeconds : ℤ) (j : Job) : Bool :=
  (j.status = .claimed || j.status = .running) &&
    j.workerId.any (isStale db now staleThresholdSeconds)

def recoverStaleJobs (db : Db) (now : Timestamp) (staleThresholdSeconds : ℤ) : Db :=
  db.updateJobs (recoverable db now staleThresholdSeconds) (Job.recover now) (Job.recover_id now)

/-- `SELECT COUNT(*) FROM jobs WHERE queue_id = $1 AND status = 'running'`. -/
def countRunningJobs (db : Db) (queueId : Uuid) : ℕ :=
  db.jobs.count fun j => j.queueId = queueId && j.status = .running

/-! ## Inserts, with the constraints of the schema -/

/-- `jobs.queue_id`, `jobs.project_id`, `jobs.worker_id` and `jobs.retry_policy_id`. -/
def Job.foreignKeys (db : Db) (j : Job) : Bool :=
  (db.queues.find? j.queueId).isSome && decide (j.projectId ∈ db.parents.projects) &&
    (j.workerId.all fun w => (db.workers.find? w).isSome) &&
    j.retryPolicyId.all fun p => decide (p ∈ db.parents.retryPolicies)

/-- `jobs`: the primary key and `UNIQUE(queue_id, idempotency_key)`, under which `NULL` keys never
clash, are checked as the row goes in, the foreign keys at the end of the statement. -/
def insertJob (db : Db) (j : Job) : Except SqlError Db :=
  if j.idempotencyKey.isSome &&
      db.jobs.rows.any fun k => k.queueId = j.queueId && k.idempotencyKey = j.idempotencyKey then
    .error .uniqueViolation
  else
    match db.jobs.insert j with
    | none => .error .uniqueViolation
    | some jobs => if j.foreignKeys db then .ok { db with jobs := jobs } else .error .foreignKeyViolation

theorem Job.foreignKeys_asSubmitted {db : Db} {j : Job} (h : j.foreignKeys db = true) :
    j.asSubmitted.foreignKeys db = true := by
  simp only [foreignKeys, Job.asSubmitted, Option.all_none, Bool.and_true, Bool.and_eq_true] at h ⊢
  exact ⟨h.1.1, h.2⟩

theorem insertJob_ok {db db' : Db} {j : Job} (h : insertJob db j = .ok db') :
    j.foreignKeys db = true ∧ ∃ jobs, db.jobs.insert j = some jobs ∧ db' = { db with jobs := jobs } := by
  unfold insertJob at h
  split at h
  · cases h
  · split at h
    · cases h
    · rename_i jobs hj
      split at h
      · rename_i hfk
        cases h
        exact ⟨hfk, jobs, hj, rfl⟩
      · cases h

theorem insertJob_key_new {db db' : Db} {j : Job} (h : insertJob db j = .ok db')
    (hkey : j.idempotencyKey.isSome = true) {r : Job} (hr : r ∈ db.jobs.rows) (hq : r.queueId = j.queueId) :
    r.idempotencyKey ≠ j.idempotencyKey := by
  intro he
  have hclash : (db.jobs.rows.any fun k => k.queueId = j.queueId && k.idempotencyKey = j.idempotencyKey) = true :=
    List.any_eq_true.mpr ⟨r, hr, by simp [hq, he]⟩
  unfold insertJob at h
  rw [hkey, hclash] at h
  cases h

/-- The constraints of `jobs` let a row through that refers to existing rows and whose keys are new. -/
theorem insertJob_succeeds {db : Db} {j : Job} (hfk : j.foreignKeys db = true)
    (hkey : j.idempotencyKey.isSome = true →
      ∀ r ∈ db.jobs.rows, r.queueId = j.queueId → r.idempotencyKey ≠ j.idempotencyKey)
    (hid : db.jobs.find? j.id = none) : ∃ db', insertJob db j = .ok db' := by
  have hclash : (j.idempotencyKey.isSome && db.jobs.rows.any fun k =>
      k.queueId = j.queueId && k.idempotencyKey = j.idempotencyKey) = false := by
    apply Bool.eq_false_iff.mpr
    intro hc
    obtain ⟨hs, hany⟩ := Bool.and_eq_true_iff.mp hc
    obtain ⟨r, hr, he⟩ := List.any_eq_true.mp hany
    simp only [Bool.and_eq_true, decide_eq_true_eq] at he
    exact hkey hs r hr he.1 he.2
  have hnone : db.jobs.insert j ≠ none := by
    rw [Ne, Table.insert_eq_none_iff, hid]
    simp
  obtain ⟨jobs, hj⟩ := Option.ne_none_iff_exists'.mp hnone
  refine ⟨{ db with jobs := jobs }, ?_⟩
  unfold insertJob
  rw [hclash, hj, hfk]
  rfl

/-- `job_executions.job_id` and `dead_letter_queue.job_id` reference `jobs(id)`. -/
def insertExecution (e : JobExecution) : Statement Db := fun db =>
  if (db.jobs.find? e.jobId).isNone then none
  else (db.jobExecutions.insert e).map fun t => { db with jobExecutions := t }

def insertDeadLetter (d : DeadLetterEntry) : Statement Db := fun db =>
  if (db.jobs.find? d.jobId).isNone then none
  else (db.deadLetterQueue.insert d).map fun t => { db with deadLetterQueue := t }

/-- `OutboxRepository::insert_in_tx`. -/
def insertInTx (e : OutboxEvent) : Statement Db := fun db =>
  (db.outboxEvents.insert e).map fun t => { db with outboxEvents := t }

/-! ## `WorkerRepository` -/

def register (db : Db) (now : Timestamp) (workerId : Uuid) (name hostname : String) : Db :=
  let row : Worker := ⟨workerId, name, hostname, true, now, none⟩
  match db.workers.insert row with
  | some workers => { db with workers := workers }
  | none =>
    { db with
      workers := db.workers.update (fun w => decide (w.id = workerId))
        (fun w => { w with isActive := true, deregisteredAt := none }) fun _ => rfl }

theorem register_eq (db : Db) (now : Timestamp) (workerId : Uuid) (name hostname : String) :
    ∃ workers, register db now workerId name hostname = { db with workers := workers } := by
  unfold register
  dsimp only
  split <;> exact ⟨_, rfl⟩

def deregister (db : Db) (now : Timestamp) (workerId : Uuid) : Db :=
  { db with
    workers := db.workers.update (fun w => decide (w.id = workerId))
      (fun w => { w with isActive := false, deregisteredAt := some now }) fun _ => rfl }

/-- Rejected by the foreign key until the worker row exists. -/
def upsertHeartbeat (db : Db) (now : Timestamp) (workerId : Uuid) (activeJobs : Int32) :
    Except SqlError Db :=
  if (db.workers.find? workerId).isNone then .error .foreignKeyViolation
  else
    match db.workerHeartbeats.insert ⟨workerId, now, activeJobs⟩ with
    | some hbs => .ok { db with workerHeartbeats := hbs }
    | none =>
      .ok { db with
        workerHeartbeats := db.workerHeartbeats.update (fun h => decide (h.workerId = workerId))
          (fun h => { h with lastSeen := now, activeJobs := activeJobs }) fun _ => rfl }

theorem upsertHeartbeat_eq {db db' : Db} {now : Timestamp} {workerId : Uuid} {activeJobs : Int32}
    (h : upsertHeartbeat db now workerId activeJobs = .ok db') :
    ∃ hbs, db' = { db with workerHeartbeats := hbs } := by
  unfold upsertHeartbeat at h
  split at h
  · cases h
  · split at h <;> cases h <;> exact ⟨_, rfl⟩

/-! ## `QueueRepository` -/

/-- `queues`: primary key, `UNIQUE(project_id, name)` and the foreign keys. -/
def createQueue (db : Db) (q : Queue) : Except SqlError Db :=
  if db.queues.rows.any fun r => r.projectId = q.projectId && r.name = q.name then
    .error .uniqueViolation
  else if hfresh : q.id ∉ db.queues.rows.map Queue.id then
    if hfk : q.foreignKeys db.parents = true then
      .ok { db with
        queues := ⟨db.queues.rows ++ [q], db.queues.insert_nodup q hfresh⟩
        queues_refer := by
          intro r hr
          rcases List.mem_append.mp hr with hr | hr
          · exact db.queues_refer r hr
          · rw [List.mem_singleton.mp hr]
            exact hfk }
    else .error .foreignKeyViolation
  else .error .uniqueViolation

theorem createQueue_ok {db db' : Db} {q : Queue} (h : createQueue db q = .ok db') :
    ∃ queues hrefer, db.queues.insert q = some queues ∧
      db' = { db with queues := queues, queues_refer := hrefer } := by
  unfold createQueue at h
  split at h
  · cases h
  · split at h
    · rename_i hfresh
      split at h
      · cases h
        exact ⟨_, _, dif_neg hfresh, rfl⟩
      · cases h
    · cases h

def setPaused (db : Db) (now : Timestamp) (queueId : Uuid) (paused : Bool) : Db :=
  { db with
    queues := db.queues.update (fun q => decide (q.id = queueId))
      (fun q => { q with isPaused := paused, updatedAt := now }) fun _ => rfl
    queues_refer := by
      intro r hr
      obtain ⟨q, hq, rfl⟩ := List.mem_map.mp hr
      split <;> exact db.queues_refer q hq }

/-! ## The relay's mark -/

/-- `UPDATE outbox_events SET published = true, published_at = NOW() WHERE id = $1`. -/
def markPublished (db : Db) (now : Timestamp) (eventId : Uuid) : Db :=
  { db with
    outboxEvents := db.outboxEvents.update (fun e => decide (e.id = eventId))
      (fun e => { e with published := true, publishedAt := some now }) fun _ => rfl }

end JobScheduler
