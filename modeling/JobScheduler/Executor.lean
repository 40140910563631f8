import JobScheduler.Services

namespace JobScheduler
open Relational

/-- How far an `execute_job` invocation has come: spawned, past its mark-running `UPDATE`
(with its `started_at`), or past the acknowledged commit of a recurring job's completion. -/
inductive Phase
  | spawned
  | running (startedAt : Timestamp)
  | committed
  deriving DecidableEq, Repr

/-- An executor task: the worker it runs on and the row its claim returned. -/
structure Task where
  id : ℕ
  workerId : Uuid
  job : Job
  phase : Phase

def Task.inFlight (t : Task) : Bool := t.phase ≠ .committed

/-- What the environment decides in one finish transaction: the handler's result, the clocks
and fresh identifiers, the delay computed for a retry, and which statements fail. -/
structure Finish where
  result : Except String Unit
  finishedAt : Timestamp
  executionId : Uuid
  dlqId : Uuid
  eventId : Uuid
  movedToDlqAt : Timestamp
  eventAt : Timestamp
  retryFrom : Timestamp
  delaySecs : ℤ
  beginOk : Bool
  fails : ℕ → Bool
  commit : CommitOutcome

def Task.attempt (t : Task) : Int32 := t.job.attemptCount + 1

def Task.shouldDlq (t : Task) : Bool := t.attempt ≥ t.job.maxAttempts

def Finish.nextAttemptAt (x : Finish) : Timestamp := x.retryFrom + x.delaySecs * 1000000

def Finish.execution (x : Finish) (t : Task) (startedAt : Timestamp) : JobExecution where
  id := x.executionId
  jobId := t.job.id
  workerId := t.workerId
  attemptNumber := t.attempt
  startedAt := startedAt
  finishedAt := some x.finishedAt
  success := x.result.isOk
  errorMessage := match x.result with
    | .ok _ => none
    | .error msg => some msg
  durationMs := some ((x.finishedAt - startedAt).tdiv 1000)
  correlationId := t.job.correlationId

def Finish.deadLetter (x : Finish) (t : Task) (msg : String) : DeadLetterEntry where
  id := x.dlqId
  jobId := t.job.id
  queueId := t.job.queueId
  projectId := t.job.projectId
  jobName := t.job.name
  payload := t.job.payload
  lastError := some msg
  attemptCount := t.attempt
  aiSummary := none
  movedToDlqAt := x.movedToDlqAt
  manuallyRetriedAt := none
  manuallyRetriedBy := none

def Finish.completedEvent (x : Finish) (t : Task) : OutboxEvent :=
  .new x.eventId x.eventAt .jobCompleted t.job.id
    (.object [("job_id", .uuid t.job.id), ("queue_id", .uuid t.job.queueId)]) t.job.correlationId

def Finish.dlqEvent (x : Finish) (t : Task) (msg : String) : OutboxEvent :=
  .new x.eventId x.eventAt .jobMovedToDlq t.job.id
    (.object [("job_id", .uuid t.job.id), ("queue_id", .uuid t.job.queueId), ("error", .string msg)])
    t.job.correlationId

def Finish.retryEvent (x : Finish) (t : Task) : OutboxEvent :=
  .new x.eventId x.eventAt .jobRetryScheduled t.job.id
    (.object [("job_id", .uuid t.job.id), ("next_attempt_at", .timestamp x.nextAttemptAt),
      ("attempt", .number t.attempt.toInt)])
    t.job.correlationId

/-- The statements of the finish transaction, in the order the branch issues them. None of
them looks at the row's status or owner. -/
def Finish.statements (x : Finish) (t : Task) (startedAt now : Timestamp) : List (Statement Db) :=
  match x.result with
  | .ok _ =>
    [ fun db => some (db.updateJob t.job.id (Job.markCompleted now) (Job.markCompleted_id now)),
      insertExecution (x.execution t startedAt),
      insertInTx (x.completedEvent t) ]
  | .error msg =>
    -- here the execution row comes first
    insertExecution (x.execution t startedAt) ::
      if t.shouldDlq then
        [ fun db => some (db.updateJob t.job.id (Job.markFailed t.attempt now)
            (Job.markFailed_id t.attempt now)),
          insertDeadLetter (x.deadLetter t msg),
          insertInTx (x.dlqEvent t msg) ]
      else
        [ fun db => some (db.updateJob t.job.id (Job.scheduleRetry x.nextAttemptAt t.attempt now)
            (Job.scheduleRetry_id x.nextAttemptAt t.attempt now)),
          insertInTx (x.retryEvent t) ]

/-- The finish transaction: the database it leaves, and whether `commit` returned `Ok`. -/
def Finish.run (x : Finish) (t : Task) (startedAt now : Timestamp) (db : Db) : Db × Bool :=
  if x.beginOk then
    Relational.commit db (issue x.fails 0 (x.statements t startedAt now) (some db)) x.commit
  else (db, false)

/-- Whether the finish transaction takes effect: it was begun, no statement failed, and the
server acted on the `COMMIT`. -/
def Finish.applies (x : Finish) (t : Task) (startedAt now : Timestamp) (db : Db) : Bool :=
  x.beginOk && (issue x.fails 0 (x.statements t startedAt now) (some db)).isSome &&
    x.commit ≠ .lostBefore

def Finish.acked (x : Finish) : Bool := x.beginOk && x.commit = .acknowledged

theorem Finish.run_acked (x : Finish) (t : Task) (startedAt now : Timestamp) (db : Db) :
    (x.run t startedAt now db).2 = x.acked := by
  unfold run acked
  cases x.beginOk <;> cases x.commit <;> rfl

theorem Finish.run_not_applies {x : Finish} {t : Task} {startedAt now : Timestamp} {db : Db}
    (h : x.applies t startedAt now db = false) : (x.run t startedAt now db).1 = db := by
  unfold applies at h
  unfold run
  cases hb : x.beginOk with
  | false => rfl
  | true =>
    cases hi : issue x.fails 0 (x.statements t startedAt now) (some db) with
    | none => cases x.commit <;> rfl
    | some db' =>
      cases hc : x.commit <;> simp [hb, hi, hc] at h
      rfl

theorem Finish.run_applies {x : Finish} {t : Task} {startedAt now : Timestamp} {db : Db}
    (h : x.applies t startedAt now db = true) :
    applyAll (x.statements t startedAt now) db = some (x.run t startedAt now db).1 := by
  simp only [applies, Bool.and_eq_true, decide_eq_true_eq] at h
  obtain ⟨⟨hb, hi⟩, hc⟩ := h
  obtain ⟨db', hi⟩ := Option.isSome_iff_exists.mp hi
  rw [issue_eq_some hi]
  cases hk : x.commit <;> simp_all [run, Relational.commit]

/-- The tables that no finish transaction writes to. -/
structure SameElsewhere (db db' : Db) : Prop where
  parents : db'.parents = db.parents
  jobDependencies : db'.jobDependencies = db.jobDependencies
  queues : db'.queues = db.queues
  workers : db'.workers = db.workers
  workerHeartbeats : db'.workerHeartbeats = db.workerHeartbeats
  projectMembers : db'.projectMembers = db.projectMembers

theorem insertExecution_some {e : JobExecution} {db db' : Db} (h : insertExecution e db = some db') :
    ∃ t, db.jobExecutions.insert e = some t ∧ db' = { db with jobExecutions := t } := by
  unfold insertExecution at h
  split at h
  · cases h
  · obtain ⟨t, ht, rfl⟩ := Option.map_eq_some_iff.mp h
    exact ⟨t, ht, rfl⟩

theorem insertDeadLetter_some {d : DeadLetterEntry} {db db' : Db}
    (h : insertDeadLetter d db = some db') :
    ∃ t, db.deadLetterQueue.insert d = some t ∧ db' = { db with deadLetterQueue := t } := by
  unfold insertDeadLetter at h
  split at h
  · cases h
  · obtain ⟨t, ht, rfl⟩ := Option.map_eq_some_iff.mp h
    exact ⟨t, ht, rfl⟩

theorem insertInTx_some {e : OutboxEvent} {db db' : Db} (h : insertInTx e db = some db') :
    ∃ t, db.outboxEvents.insert e = some t ∧ db' = { db with outboxEvents := t } := by
  obtain ⟨t, ht, rfl⟩ := Option.map_eq_some_iff.mp h
  exact ⟨t, ht, rfl⟩

def Finish.jobUpdate (x : Finish) (t : Task) (now : Timestamp) : Job → Job :=
  match x.result with
  | .ok _ => Job.markCompleted now
  | .error _ =>
    if t.shouldDlq then Job.markFailed t.attempt now
    else Job.scheduleRetry x.nextAttemptAt t.attempt now

theorem Finish.jobUpdate_id (x : Finish) (t : Task) (now : Timestamp) (j : Job) :
    (x.jobUpdate t now j).id = j.id := by
  cases hr : x.result with
  | ok u =>
    rw [jobUpdate, hr]
    rfl
  | error msg =>
    rw [jobUpdate, hr]
    cases t.shouldDlq <;> rfl

def Finish.event (x : Finish) (t : Task) : OutboxEvent :=
  match x.result with
  | .ok _ => x.completedEvent t
  | .error msg => if t.shouldDlq then x.dlqEvent t msg else x.retryEvent t

def Finish.deadLetters (x : Finish) (t : Task) : List DeadLetterEntry :=
  match x.result with
  | .ok _ => []
  | .error msg => if t.shouldDlq then [x.deadLetter t msg] else []

/-- What an applied finish transaction leaves: the job update, one execution row, one event and
at most one dead-letter row, everything else as it was. -/
structure Finish.Applied (x : Finish) (t : Task) (startedAt now : Timestamp) (db db' : Db) : Prop where
  jobs : db'.jobs = (db.updateJob t.job.id (x.jobUpdate t now) (x.jobUpdate_id t now)).jobs
  jobExecutions : db'.jobExecutions.rows = db.jobExecutions.rows ++ [x.execution t startedAt]
  outboxEvents : db'.outboxEvents.rows = db.outboxEvents.rows ++ [x.event t]
  deadLetterQueue : db'.deadLetterQueue.rows = db.deadLetterQueue.rows ++ x.deadLetters t
  elsewhere : SameElsewhere db db'

theorem Finish.applied_of_applyAll {x : Finish} {t : Task} {startedAt now : Timestamp} {db db' : Db}
    (h : applyAll (x.statements t startedAt now) db = some db') : x.Applied t startedAt now db db' := by
  cases hr : x.result with
  | ok u =>
    simp only [statements, hr, applyAll, Option.bind_some, Option.bind_eq_some_iff] at h
    obtain ⟨db₁, h₁, db₂, h₂, h₃⟩ := h
    obtain ⟨t₁, ht₁, rfl⟩ := insertExecution_some h₁
    obtain ⟨t₂, ht₂, rfl⟩ := insertInTx_some h₂
    cases h₃
    have he : x.event t = x.completedEvent t := by simp only [event, hr]
    have hl : x.deadLetters t = [] := by simp only [deadLetters, hr]
    refine ⟨?_, (Table.rows_insert ht₁).1, ?_, ?_, ⟨rfl, rfl, rfl, rfl, rfl, rfl⟩⟩
    · simp only [jobUpdate, hr]
    · rw [he]
      exact (Table.rows_insert ht₂).1
    · rw [hl]
      exact (List.append_nil _).symm
  | error msg =>
    cases hd : t.shouldDlq with
    | true =>
      simp only [statements, hr, hd, if_true, applyAll, Option.bind_some, Option.bind_eq_some_iff] at h
      obtain ⟨db₁, h₁, db₂, h₂, db₃, h₃, h₄⟩ := h
      obtain ⟨t₁, ht₁, rfl⟩ := insertExecution_some h₁
      obtain ⟨t₂, ht₂, rfl⟩ := insertDeadLetter_some h₂
      obtain ⟨t₃, ht₃, rfl⟩ := insertInTx_some h₃
      cases h₄
      have he : x.event t = x.dlqEvent t msg := by simp only [event, hr, hd, if_true]
      have hl : x.deadLetters t = [x.deadLetter t msg] := by simp only [deadLetters, hr, hd, if_true]
      refine ⟨?_, (Table.rows_insert ht₁).1, ?_, ?_, ⟨rfl, rfl, rfl, rfl, rfl, rfl⟩⟩
      · simp only [jobUpdate, hr, hd, if_true]
        rfl
      · rw [he]
        exact (Table.rows_insert ht₃).1
      · rw [hl]
        exact (Table.rows_insert ht₂).1
    | false =>
      simp only [statements, hr, hd, Bool.false_eq_true, if_false, applyAll, Option.bind_some,
        Option.bind_eq_some_iff] at h
      obtain ⟨db₁, h₁, db₂, h₂, h₃⟩ := h
      obtain ⟨t₁, ht₁, rfl⟩ := insertExecution_some h₁
      obtain ⟨t₂, ht₂, rfl⟩ := insertInTx_some h₂
      cases h₃
      have he : x.event t = x.retryEvent t := by simp [event, hr, hd]
      have hl : x.deadLetters t = [] := by simp [deadLetters, hr, hd]
      refine ⟨?_, (Table.rows_insert ht₁).1, ?_, ?_, ⟨rfl, rfl, rfl, rfl, rfl, rfl⟩⟩
      · simp only [jobUpdate, hr, hd, Bool.false_eq_true, if_false]
        rfl
      · rw [he]
        exact (Table.rows_insert ht₂).1
      · rw [hl]
        exact (List.append_nil _).symm

/-- All or nothing: whichever statements fail, and however `begin` and `COMMIT` end, the database is
left as it was or takes the whole transaction. -/
theorem Finish.run_all_or_nothing (x : Finish) (t : Task) (startedAt now : Timestamp) (db : Db) :
    (x.applies t startedAt now db = false ∧ (x.run t startedAt now db).1 = db) ∨
      (x.applies t startedAt now db = true ∧
        x.Applied t startedAt now db (x.run t startedAt now db).1) := by
  cases ha : x.applies t startedAt now db with
  | false => exact .inl ⟨rfl, run_not_applies ha⟩
  | true => exact .inr ⟨rfl, applied_of_applyAll (run_applies ha)⟩

/-- The executor tasks of all workers, each with an identity that is never used again. -/
structure Tasks where
  table : Table Task.id
  nextId : ℕ
  fresh : ∀ t ∈ table.rows, t.id < nextId

namespace Tasks

def none : Tasks := ⟨.empty, 0, by simp⟩

def find? (ts : Tasks) (id : ℕ) : Option Task := ts.table.find? id

theorem nextId_notMem (ts : Tasks) : ts.nextId ∉ ts.table.rows.map Task.id := by
  intro h
  obtain ⟨t, ht, he⟩ := List.mem_map.mp h
  have := ts.fresh t ht
  omega

/-- `tokio::spawn(execute_job(pool, worker_id, job))`. -/
def spawn (ts : Tasks) (workerId : Uuid) (job : Job) : Tasks where
  table := ⟨ts.table.rows ++ [⟨ts.nextId, workerId, job, .spawned⟩],
    ts.table.insert_nodup ⟨ts.nextId, workerId, job, .spawned⟩ ts.nextId_notMem⟩
  nextId := ts.nextId + 1
  fresh := by
    intro t ht
    rcases List.mem_append.mp ht with h | h
    · exact (ts.fresh t h).trans (Nat.lt_succ_self _)
    · rw [List.mem_singleton.mp h]
      exact Nat.lt_succ_self _

def setPhase (ts : Tasks) (id : ℕ) (phase : Phase) : Tasks where
  table := ts.table.update (fun t => decide (t.id = id)) (fun t => { t with phase := phase }) fun _ => rfl
  nextId := ts.nextId
  fresh := by
    intro t ht
    obtain ⟨u, hu, rfl⟩ := List.mem_map.mp ht
    have := ts.fresh u hu
    split <;> exact this

def drop (ts : Tasks) (p : Task → Bool) : Tasks where
  table := ts.table.delete p
  nextId := ts.nextId
  fresh := fun t ht => ts.fresh t (List.mem_filter.mp ht).1

end Tasks

end JobScheduler
