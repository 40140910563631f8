import JobScheduler.Runs
import JobScheduler.Executor

namespace JobScheduler
open Relational Transition

/-- The database, its clock, the worker processes that have died, and the executor tasks. -/
structure Sys where
  db : Db
  now : Timestamp
  crashed : List Uuid
  tasks : Tasks

/-- One atomic step: a statement outside a transaction, or a whole transaction. A request's
earlier `SELECT`s change nothing, so its write carries what they read as data of any value. -/
inductive Label
  | tick (now : Timestamp)
  | register (workerId : Uuid) (name hostname : String)
  | deregister (workerId : Uuid)
  | heartbeat (workerId : Uuid) (activeJobs : Int32)
  | crash (workerId : Uuid)
  | createQueue (queue : Queue)
  | setPaused (queueId : Uuid) (paused : Bool)
  | createJob (id correlationId : Uuid) (queue : Queue) (req : CreateJobRequest)
  | cancelJob (jobId : Uuid)
  | retryJob (dlqId retriedBy : Uuid)
  | retryJobCommit (dlqId retriedBy : Uuid)
  | createDependency (id dependentJobId dependencyJobId : Uuid)
  | releaseDependent (jobId : Uuid)
  | reQueueScheduledJobs
  | recoverStaleJobs (staleThresholdSeconds : ℤ)
  | markPublished (eventId : Uuid)
  | claim (workerId queueId : Uuid) (locked : List Uuid)
  | markRunning (task : ℕ) (startedAt : Timestamp) (outcome : CommitOutcome)
  | finish (task : ℕ) (x : Finish)
  | scheduleNext (task : ℕ) (utcNow : Timestamp) (id correlationId : Uuid) (ok : Bool)
  | die (task : ℕ)

namespace Sys

def withDb (s : Sys) {ε : Type} : Except ε Db → Option Sys
  | .ok db => some { s with db := db }
  | .error _ => none

/-- A claim and the spawning of its executor are one step; without a row, or with an error,
the poller goes on. -/
def claim (s : Sys) (workerId queueId : Uuid) (locked : List Uuid) : Sys :=
  match claimNextJob s.db s.now queueId workerId locked with
  | .ok (some (job, db)) => { s with db := db, tasks := s.tasks.spawn workerId job }
  | .ok none => s
  | .error _ => s

/-- The first `UPDATE` of `execute_job`; on an error, whether or not the row has changed, the
task returns. -/
def markRunning (s : Sys) (t : Task) (startedAt : Timestamp) (outcome : CommitOutcome) : Sys :=
  { s with
    db := if outcome = .lostBefore then s.db
      else s.db.updateJob t.job.id (Job.markRunning s.now) (Job.markRunning_id s.now)
    tasks := if outcome = .acknowledged then s.tasks.setPhase t.id (.running startedAt)
      else s.tasks.drop fun u => decide (u.id = t.id) }

/-- Whether the task goes on after its finish transaction, to schedule the next occurrence. -/
def goesOn (x : Finish) (t : Task) (acked : Bool) : Bool :=
  acked && x.result.isOk && t.job.isRecurring

def finish (s : Sys) (t : Task) (startedAt : Timestamp) (x : Finish) : Sys :=
  { s with
    db := (x.run t startedAt s.now s.db).1
    tasks := if goesOn x t (x.run t startedAt s.now s.db).2 then s.tasks.setPhase t.id .committed
      else s.tasks.drop fun u => decide (u.id = t.id) }

/-- The step after the commit; its error is only logged. -/
def scheduleNext (cron : Cron) (s : Sys) (t : Task) (utcNow : Timestamp) (id correlationId : Uuid)
    (ok : Bool) : Sys :=
  { s with
    db := if ok then
        match scheduleNextOccurrence cron s.db s.now utcNow id correlationId t.job with
        | .ok (_, db) => db
        | .error _ => s.db
      else s.db
    tasks := s.tasks.drop fun u => decide (u.id = t.id) }

/-- The system's steps. A worker process that died does nothing any more: a restarted process
draws a new worker id. -/
def next (cron : Cron) (s : Sys) : Label → Option Sys
  | .tick now => if s.now ≤ now then some { s with now := now } else none
  | .register w name hostname =>
    if w ∈ s.crashed then none else some { s with db := JobScheduler.register s.db s.now w name hostname }
  | .deregister w => if w ∈ s.crashed then none else some { s with db := JobScheduler.deregister s.db s.now w }
  | .heartbeat w activeJobs =>
    if w ∈ s.crashed then none else s.withDb (upsertHeartbeat s.db s.now w activeJobs)
  | .crash w =>
    -- the process takes all its tasks with it, wherever they are
    some { s with
      crashed := w :: s.crashed
      tasks := s.tasks.drop fun t => decide (t.workerId = w) }
  | .createQueue q => s.withDb (JobScheduler.createQueue s.db q)
  | .setPaused queueId paused => some { s with db := JobScheduler.setPaused s.db s.now queueId paused }
  | .createJob id correlationId queue req =>
    s.withDb ((createJobInsert cron s.db s.now id correlationId queue req).map Prod.snd)
  | .cancelJob jobId => some { s with db := cancelJobUpdate s.db s.now jobId }
  | .retryJob dlqId retriedBy => s.withDb (JobScheduler.retryJob s.db s.now dlqId retriedBy)
  | .retryJobCommit dlqId retriedBy =>
    -- the entry was read earlier: whether it had been retried then is not checked again
    match s.db.deadLetterQueue.find? dlqId with
    | some entry => s.withDb (JobScheduler.retryJobCommit s.db s.now entry retriedBy)
    | none => none
  | .createDependency id dependent dependency =>
    s.withDb (JobScheduler.createDependency s.db id dependent dependency)
  | .releaseDependent jobId => some { s with db := JobScheduler.releaseDependent s.db s.now jobId }
  | .reQueueScheduledJobs => some { s with db := JobScheduler.reQueueScheduledJobs s.db s.now }
  | .recoverStaleJobs threshold => some { s with db := JobScheduler.recoverStaleJobs s.db s.now threshold }
  | .markPublished eventId => some { s with db := JobScheduler.markPublished s.db s.now eventId }
  | .claim w queueId locked => if w ∈ s.crashed then none else some (s.claim w queueId locked)
  | .markRunning task startedAt outcome =>
    match s.tasks.find? task with
    | some t => if t.phase = .spawned then some (s.markRunning t startedAt outcome) else none
    | none => none
  | .finish task x =>
    match s.tasks.find? task with
    | some t =>
      -- whatever the row says by now, the task only knows its snapshot
      match t.phase with
      | .running startedAt => some (s.finish t startedAt x)
      | _ => none
    | none => none
  | .scheduleNext task utcNow id correlationId ok =>
    match s.tasks.find? task with
    | some t =>
      if t.phase = .committed then some (s.scheduleNext cron t utcNow id correlationId ok) else none
    | none => none
  | .die task =>
    match s.tasks.find? task with
    | some _ => some { s with tasks := s.tasks.drop fun u => decide (u.id = task) }
    | none => none

/-- No job has been created yet; queues, workers and memberships are arbitrary. -/
structure Initial (s : Sys) : Prop where
  jobs : s.db.jobs.rows = []
  jobExecutions : s.db.jobExecutions.rows = []
  deadLetterQueue : s.db.deadLetterQueue.rows = []
  outboxEvents : s.db.outboxEvents.rows = []
  jobDependencies : s.db.jobDependencies.rows = []
  crashed : s.crashed = []
  tasks : s.tasks.table.rows = []

/-- What `create_job` writes, whenever it succeeds, is nothing or the row of its last step. -/
theorem createJob_step {cron : Cron} {s : Sys} {id correlationId queueId userId : Uuid}
    {req : CreateJobRequest} {job : Job} {db' : Db}
    (h : createJob cron s.db s.now id correlationId queueId userId req = .ok (job, db')) :
    db' = s.db ∨ ∃ queue, s.next cron (.createJob id correlationId queue req) = some { s with db := db' } := by
  rcases createJob_ok h with rfl | ⟨queue, _, hq⟩
  · exact .inl rfl
  · refine .inr ⟨queue, ?_⟩
    simp [next, hq, Except.map, withDb]

theorem cancelJob_step {cron : Cron} {s : Sys} {jobId userId : Uuid} {db' : Db}
    (h : JobScheduler.cancelJob s.db s.now jobId userId = .ok db') :
    s.next cron (.cancelJob jobId) = some { s with db := db' } := by
  rw [cancelJob_ok h]
  rfl

end Sys

def scheduler (cron : Cron) : System Sys Label := ⟨Sys.Initial, Sys.next cron⟩

/-! A small instance, to run the scheduler on. -/

namespace Sample

def cron : Cron := ⟨fun _ => true, fun _ t => some (t + 60000000)⟩

def queue : Queue := ⟨10, 20, "emails", none, 1, none, false, none, 0, 0⟩

def db : Db where
  parents := ⟨[30], [20], []⟩
  jobs := .empty
  jobExecutions := .empty
  deadLetterQueue := .empty
  outboxEvents := .empty
  jobDependencies := .empty
  queues := ⟨[queue], by simp⟩
  workers := .empty
  workerHeartbeats := .empty
  projectMembers := ⟨[⟨20, 30, .admin⟩], by simp⟩
  queues_refer := by decide
  members_refer := by decide

def sys : Sys := ⟨db, 0, [], .none⟩

theorem sys_initial : sys.Initial := ⟨rfl, rfl, rfl, rfl, rfl, rfl, rfl⟩

def request (maxAttempts : Int32) : CreateJobRequest :=
  ⟨"send", .null, .immediate, none, some maxAttempts, none, none, none, none, none⟩

def recurringRequest : CreateJobRequest :=
  ⟨"digest", .null, .recurring, none, none, none, some "0 * * * * *", none, none, none⟩

/-- A finish transaction that goes through, with `n` for its fresh identifiers. -/
def finish (result : Except String Unit) (n : Uuid) : Finish :=
  ⟨result, 5, n, n, n, 5, 5, 5, 10, true, fun _ => false, .acknowledged⟩

end Sample

end JobScheduler
