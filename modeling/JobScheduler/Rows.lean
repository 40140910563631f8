import JobScheduler.Frame

namespace JobScheduler
open Relational Transition

structure Job.SameOrigin (r r' : Job) : Prop where
  id : r'.id = r.id
  queueId : r'.queueId = r.queueId
  projectId : r'.projectId = r.projectId
  idempotencyKey : r'.idempotencyKey = r.idempotencyKey

theorem Job.SameOrigin.refl (r : Job) : r.SameOrigin r := ⟨rfl, rfl, rfl, rfl⟩

/-- What a step does to `jobs` as a whole: it rewrites rows in place, or inserts the row of
`create_job` or of `schedule_next_occurrence`. -/
inductive JobsStep (cron : Cron) (s : Sys) : Label → Sys → Prop
  | updated {l : Label} {s' : Sys} (f : Job → Job) (hrows : s'.db.jobs.rows = s.db.jobs.rows.map f)
      (hf : ∀ r : Job, r.SameOrigin (f r)) : JobsStep cron s l s'
  | created {id correlationId : Uuid} {queue : Queue} {req : CreateJobRequest} {s' : Sys}
      (hv : validateCron cron req = .ok ())
      (hi : insertJob s.db (newJob s.now id correlationId queue req) = .ok s'.db) :
      JobsStep cron s (.createJob id correlationId queue req) s'
  | continued {task : ℕ} {utcNow nextAt : Timestamp} {id correlationId : Uuid} {row : Job} {s' : Sys}
      (hrow : row ∈ s.db.jobs.rows)
      (hi : insertJob s.db (nextOccurrence s.now nextAt id correlationId row) = .ok s'.db) :
      JobsStep cron s (.scheduleNext task utcNow id correlationId true) s'

inductive QueuesStep (s : Sys) : Label → Sys → Prop
  | same {l : Label} {s' : Sys} (h : s'.db.queues = s.db.queues) : QueuesStep s l s'
  | created {q : Queue} {s' : Sys} (h : s.db.queues.insert q = some s'.db.queues) :
      QueuesStep s (.createQueue q) s'
  | paused {queueId : Uuid} {paused : Bool} {s' : Sys} (h : s'.db = setPaused s.db s.now queueId paused) :
      QueuesStep s (.setPaused queueId paused) s'

inductive WorkersStep (s : Sys) : Label → Sys → Prop
  | same {l : Label} {s' : Sys} (hw : s'.db.workers = s.db.workers)
      (hh : s'.db.workerHeartbeats = s.db.workerHeartbeats) : WorkersStep s l s'
  | registered {w : Uuid} {name hostname : String} {s' : Sys}
      (h : s'.db = register s.db s.now w name hostname) : WorkersStep s (.register w name hostname) s'
  | deregistered {w : Uuid} {s' : Sys} (h : s'.db = deregister s.db s.now w) :
      WorkersStep s (.deregister w) s'
  | seen {w : Uuid} {activeJobs : Int32} {s' : Sys}
      (h : upsertHeartbeat s.db s.now w activeJobs = .ok s'.db) :
      WorkersStep s (.heartbeat w activeJobs) s'

/-- What a step does to `dead_letter_queue`: new entries, or the mark of a manual retry. -/
inductive DeadStep (s : Sys) : Sys → Prop
  | entered {s' : Sys} (ds : List DeadLetterEntry) (hnew : ∀ d ∈ ds, d.manuallyRetriedBy = none)
      (h : s'.db.deadLetterQueue.rows = s.db.deadLetterQueue.rows ++ ds) : DeadStep s s'
  | marked {s' : Sys} (dlqId retriedBy : Uuid) (huser : retriedBy ∈ s.db.parents.users)
      (h : s'.db.deadLetterQueue.rows = s.db.deadLetterQueue.rows.map fun d =>
        if decide (d.id = dlqId) then d.markRetried s.now retriedBy else d) : DeadStep s s'

/-- A step, table by table. Memberships and what foreign keys refer to are not touched, and the clock does not
go back. -/
structure TableStep (cron : Cron) (s : Sys) (l : Label) (s' : Sys) : Prop where
  now : s.now ≤ s'.now
  jobs : JobsStep cron s l s'
  queues : QueuesStep s l s'
  workers : WorkersStep s l s'
  dead : DeadStep s s'
  parents : s'.db.parents = s.db.parents
  projectMembers : s'.db.projectMembers = s.db.projectMembers

section Steps
variable {cron : Cron} {s s' : Sys} {l : Label}

theorem DeadStep.same (h : s'.db.deadLetterQueue = s.db.deadLetterQueue) : DeadStep s s' :=
  .entered [] (by simp) (by rw [h, List.append_nil])

theorem JobsStep.same (h : s'.db.jobs = s.db.jobs) : JobsStep cron s l s' :=
  .updated id (by rw [h, List.map_id]) fun r => .refl r

theorem JobsStep.of_update {p : Job → Bool} {f : Job → Job}
    (h : s'.db.jobs.rows = s.db.jobs.rows.map fun r => if p r then f r else r)
    (hsame : ∀ r : Job, r.SameOrigin (f r)) : JobsStep cron s l s' := by
  refine .updated _ h fun r => ?_
  split
  · exact hsame r
  · exact .refl r

theorem TableStep.of_jobs (hnow : s.now ≤ s'.now) (hj : JobsStep cron s l s')
    (hq : s'.db.queues = s.db.queues) (hw : s'.db.workers = s.db.workers)
    (hh : s'.db.workerHeartbeats = s.db.workerHeartbeats)
    (hd : s'.db.deadLetterQueue = s.db.deadLetterQueue)
    (hp : s'.db.parents = s.db.parents) (hm : s'.db.projectMembers = s.db.projectMembers) :
    TableStep cron s l s' :=
  ⟨hnow, hj, .same hq, .same hw hh, .same hd, hp, hm⟩

theorem TableStep.of_same (hnow : s.now ≤ s'.now) (hj : s'.db.jobs = s.db.jobs)
    (hq : s'.db.queues = s.db.queues) (hw : s'.db.workers = s.db.workers)
    (hh : s'.db.workerHeartbeats = s.db.workerHeartbeats)
    (hd : s'.db.deadLetterQueue = s.db.deadLetterQueue)
    (hp : s'.db.parents = s.db.parents) (hm : s'.db.projectMembers = s.db.projectMembers) :
    TableStep cron s l s' :=
  .of_jobs hnow (.same hj) hq hw hh hd hp hm

theorem TableStep.of_update {p : Job → Bool} {f : Job → Job} {hf : ∀ r, (f r).id = r.id}
    (hsame : ∀ r : Job, r.SameOrigin (f r)) :
    TableStep cron s l { s with db := s.db.updateJobs p f hf } :=
  .of_jobs le_rfl (.of_update rfl hsame) rfl rfl rfl rfl rfl rfl

theorem tableStep_retry {db' : Db} {entry : DeadLetterEntry} {retriedBy : Uuid}
    (h : retryJobCommit s.db s.now entry retriedBy = .ok db') :
    TableStep cron s l { s with db := db' } := by
  obtain ⟨_, huser, rfl⟩ := retryJobCommit_ok h
  refine ⟨le_rfl, .of_update rfl fun r => ?_, .same rfl, .same rfl rfl, .marked entry.id retriedBy huser rfl, rfl,
    rfl⟩
  exact ⟨rfl, rfl, rfl, rfl⟩

theorem Finish.jobUpdate_sameOrigin (x : Finish) (t : Task) (now : Timestamp) (r : Job) :
    r.SameOrigin (x.jobUpdate t now r) := by
  cases hr : x.result with
  | ok u =>
    rw [jobUpdate, hr]
    exact ⟨rfl, rfl, rfl, rfl⟩
  | error msg =>
    rw [jobUpdate, hr]
    cases t.shouldDlq <;> exact ⟨rfl, rfl, rfl, rfl⟩

theorem Finish.deadLetters_new {x : Finish} {t : Task} {d : DeadLetterEntry} (hd : d ∈ x.deadLetters t) :
    d.manuallyRetriedBy = none := by
  unfold deadLetters at hd
  split at hd
  · cases hd
  · split at hd
    · rw [List.mem_singleton.mp hd]
      rfl
    · cases hd

theorem tableStep_finish (t : Task) (startedAt : Timestamp) (x : Finish) :
    TableStep cron s l (s.finish t startedAt x) := by
  rcases x.run_all_or_nothing t startedAt s.now s.db with ⟨_, hdb⟩ | ⟨_, ha⟩
  · have hdb : (s.finish t startedAt x).db = s.db := hdb
    exact .of_same le_rfl (by rw [hdb]) (by rw [hdb]) (by rw [hdb]) (by rw [hdb]) (by rw [hdb]) (by rw [hdb])
      (by rw [hdb])
  · have ha : x.Applied t startedAt s.now s.db (s.finish t startedAt x).db := ha
    have hj : JobsStep cron s l (s.finish t startedAt x) :=
      .of_update (by rw [ha.jobs]; rfl) (x.jobUpdate_sameOrigin t s.now)
    exact ⟨le_rfl, hj, .same ha.elsewhere.queues,
      .same ha.elsewhere.workers ha.elsewhere.workerHeartbeats,
      .entered _ (fun _ => x.deadLetters_new) ha.deadLetterQueue,
      ha.elsewhere.parents, ha.elsewhere.projectMembers⟩

theorem tableStep_insert {r : Job} {db' : Db} (hi : insertJob s.db r = .ok db') (hs : s'.db = db')
    (hnow : s.now ≤ s'.now) (hj : JobsStep cron s l s') : TableStep cron s l s' := by
  obtain ⟨_, jobs, _, rfl⟩ := insertJob_ok hi
  apply TableStep.of_jobs hnow hj <;> rw [hs]

theorem next_tables (h : s.next cron l = some s') : TableStep cron s l s' := by
  cases sys_step h with
  | tick hnow => exact .of_same hnow rfl rfl rfl rfl rfl rfl rfl
  | @register w name hostname _ =>
    have hreg : WorkersStep s (.register w name hostname)
        { s with db := register s.db s.now w name hostname } := .registered rfl
    obtain ⟨workers, hdb⟩ := register_eq s.db s.now w name hostname
    rw [hdb] at hreg ⊢
    exact ⟨le_rfl, .same rfl, .same rfl, hreg, .same rfl, rfl, rfl⟩
  | deregister _ => exact ⟨le_rfl, .same rfl, .same rfl, .deregistered rfl, .same rfl, rfl, rfl⟩
  | @heartbeat w activeJobs db _ hdb =>
    have hseen : WorkersStep s (.heartbeat w activeJobs) { s with db := db } := .seen hdb
    obtain ⟨hbs, rfl⟩ := upsertHeartbeat_eq hdb
    exact ⟨le_rfl, .same rfl, .same rfl, hseen, .same rfl, rfl, rfl⟩
  | crash | markPublished | notClaimed _ | notScheduled _ _ | die _ =>
    exact .of_same le_rfl rfl rfl rfl rfl rfl rfl rfl
  | createQueue hi => exact ⟨le_rfl, .same rfl, .created hi, .same rfl rfl, .same rfl, rfl, rfl⟩
  | setPaused => exact ⟨le_rfl, .same rfl, .paused rfl, .same rfl rfl, .same rfl, rfl, rfl⟩
  | createJob hv hi => exact tableStep_insert hi rfl le_rfl (.created hv hi)
  | cancelJob | releaseDependent | reQueueScheduledJobs | recoverStaleJobs =>
    exact .of_update fun r => ⟨rfl, rfl, rfl, rfl⟩
  | retryJob _ _ hc | retryJobCommit _ hc => exact tableStep_retry hc
  | createDependency hdb =>
    rcases createDependency_ok hdb with rfl | ⟨_, _, deps, _, rfl⟩ <;>
      exact .of_same le_rfl rfl rfl rfl rfl rfl rfl rfl
  | claimed _ _ _ =>
    refine .of_jobs le_rfl (.of_update rfl fun r => ?_) rfl rfl rfl rfl rfl rfl
    exact ⟨rfl, rfl, rfl, rfl⟩
  | @markRunning t startedAt outcome _ _ =>
    cases outcome with
    | lostBefore => exact .of_same le_rfl rfl rfl rfl rfl rfl rfl rfl
    | acknowledged | lostAfter =>
      refine .of_jobs le_rfl (.of_update rfl fun r => ?_) rfl rfl rfl rfl rfl rfl
      exact ⟨rfl, rfl, rfl, rfl⟩
  | finish _ _ => exact tableStep_finish _ _ _
  | scheduledNext _ _ hrow hi => exact tableStep_insert hi rfl le_rfl (.continued (Table.mem_of_find? hrow) hi)

/-- Rows that appear are those of `create_job` and `schedule_next_occurrence`. -/
theorem JobsStep.origin_of_inserted (h : JobsStep cron s l s') {j : Uuid} {r : Job}
    (hnone : s.db.jobs.find? j = none) (hr : s'.db.jobs.find? j = some r) :
    (∃ id correlationId queue req, l = .createJob id correlationId queue req ∧
      validateCron cron req = .ok () ∧ r = newJob s.now id correlationId queue req) ∨
    ∃ row ∈ s.db.jobs.rows, ∃ task utcNow nextAt id correlationId,
      l = .scheduleNext task utcNow id correlationId true ∧ r = nextOccurrence s.now nextAt id correlationId row := by
  -- an insert leaves every other key as it was
  have hinsert {r₀ : Job} (hi : insertJob s.db r₀ = .ok s'.db) : r = r₀ := by
    obtain ⟨_, jobs, hj, hdb⟩ := insertJob_ok hi
    rw [hdb, Table.find?_insert hj, hnone] at hr
    split at hr
    · exact (Option.some.inj hr).symm
    · cases hr
  cases h with
  | updated f hrows hf =>
    have hmem := Table.mem_of_find? hr
    rw [hrows] at hmem
    obtain ⟨r₀, hm, rfl⟩ := List.mem_map.mp hmem
    have hkey : r₀.id = j := (hf r₀).id.symm.trans (Table.key_of_find? hr)
    rw [← hkey, Table.find?_of_mem hm] at hnone
    cases hnone
  | created hv hi => exact .inl ⟨_, _, _, _, rfl, hv, hinsert hi⟩
  | continued hrow hi => exact .inr ⟨_, hrow, _, _, _, _, _, rfl, hinsert hi⟩

/-! ## What an earlier read can rely on -/

/-- No row disappears, nor changes its origin, its project or its mark; and memberships stay, with what foreign
keys refer to. -/
structure Db.Grows (db db' : Db) : Prop where
  jobs : ∀ j r, db.jobs.find? j = some r → ∃ r', db'.jobs.find? j = some r' ∧ r.SameOrigin r'
  dead : ∀ k d, db.deadLetterQueue.find? k = some d → ∃ d', db'.deadLetterQueue.find? k = some d' ∧
    d'.content = d.content ∧ (d.manuallyRetriedAt.isSome = true → d'.manuallyRetriedAt.isSome = true)
  queues : ∀ k q, db.queues.find? k = some q → ∃ q', db'.queues.find? k = some q' ∧ q'.projectId = q.projectId
  parents : db'.parents = db.parents
  projectMembers : db'.projectMembers = db.projectMembers

theorem Db.Grows.refl (db : Db) : db.Grows db where
  jobs _ r h := ⟨r, h, .refl r⟩
  dead _ d h := ⟨d, h, rfl, fun hm => hm⟩
  queues _ q h := ⟨q, h, rfl⟩
  parents := rfl
  projectMembers := rfl

theorem JobsStep.keeps (h : JobsStep cron s l s') {j : Uuid} {r : Job} (hr : s.db.jobs.find? j = some r) :
    ∃ r', s'.db.jobs.find? j = some r' ∧ r.SameOrigin r' := by
  have hinsert {r₀ : Job} (hi : insertJob s.db r₀ = .ok s'.db) : s'.db.jobs.find? j = some r := by
    obtain ⟨_, jobs, hj, hdb⟩ := insertJob_ok hi
    rw [hdb]
    exact Table.find?_of_insert hj hr
  cases h with
  | updated f hrows hf =>
    refine ⟨f r, ?_, hf r⟩
    rw [Table.find?_of_rows_map hrows (fun r => (hf r).id), hr]
    rfl
  | created _ hi => exact ⟨r, hinsert hi, .refl r⟩
  | continued _ hi => exact ⟨r, hinsert hi, .refl r⟩

theorem DeadStep.keeps (h : DeadStep s s') {k : Uuid} {d : DeadLetterEntry}
    (hd : s.db.deadLetterQueue.find? k = some d) :
    ∃ d', s'.db.deadLetterQueue.find? k = some d' ∧ d'.content = d.content ∧
      (d.manuallyRetriedAt.isSome = true → d'.manuallyRetriedAt.isSome = true) := by
  cases h with
  | entered ds _ hrows => exact ⟨d, Table.find?_of_rows_append hrows hd, rfl, fun hm => hm⟩
  | marked dlqId retriedBy _ hrows =>
    have hkey (d : DeadLetterEntry) :
        (if decide (d.id = dlqId) then d.markRetried s.now retriedBy else d).id = d.id := by
      split <;> rfl
    refine ⟨if decide (d.id = dlqId) then d.markRetried s.now retriedBy else d,
      by rw [Table.find?_of_rows_map hrows hkey, hd]; rfl, ?_, ?_⟩
    · split <;> rfl
    · intro hm
      split
      · rfl
      · exact hm

theorem QueuesStep.keeps (h : QueuesStep s l s') {k : Uuid} {q : Queue} (hq : s.db.queues.find? k = some q) :
    ∃ q', s'.db.queues.find? k = some q' ∧ q'.projectId = q.projectId := by
  cases h with
  | same h => exact ⟨q, by rw [h]; exact hq, rfl⟩
  | created h => exact ⟨q, Table.find?_of_insert h hq, rfl⟩
  | @paused queueId paused _ h =>
    rw [h]
    refine ⟨if decide (q.id = queueId) then { q with isPaused := paused, updatedAt := s.now } else q,
      by rw [setPaused, Table.find?_update, hq]; rfl, ?_⟩
    split <;> rfl

theorem TableStep.grows (h : TableStep cron s l s') : s.db.Grows s'.db where
  jobs _ _ hr := h.jobs.keeps hr
  dead _ _ hd := h.dead.keeps hd
  queues _ _ hq := h.queues.keeps hq
  parents := h.parents
  projectMembers := h.projectMembers

end Steps

end JobScheduler
