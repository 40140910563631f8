import JobScheduler.Handlers
import JobScheduler.Requests

namespace JobScheduler
open Relational

inductive WriteRequest
  | createQueue (req : Handlers.CreateQueueRequest)
  | pauseQueue (queueId : Uuid)
  | resumeQueue (queueId : Uuid)
  | createJob (queueId : Uuid) (req : CreateJobRequest)
  | cancelJob (jobId : Uuid)
  | retryDlqJob (dlqId : Uuid)
  | createDependency (dependentJobId dependencyJobId : Uuid)

def stateAfter {ε α : Type} (db : Db) : Except ε (α × Db) → Db
  | .ok (_, db') => db'
  | .error _ => db

def WriteRequest.perform (cron : Cron) (now : Timestamp) (id correlationId : Uuid) (claims : Claims) (db : Db) :
    WriteRequest → Db
  | .createQueue req => stateAfter db (Handlers.createQueue db now id claims req)
  | .pauseQueue queueId => stateAfter db (Handlers.pauseQueue db now claims queueId)
  | .resumeQueue queueId => stateAfter db (Handlers.resumeQueue db now claims queueId)
  | .createJob queueId req => stateAfter db (Handlers.createJob cron db now id correlationId claims queueId req)
  | .cancelJob jobId => stateAfter db (Handlers.cancelJob db now claims jobId)
  | .retryDlqJob dlqId => stateAfter db (Handlers.retryDlqJob db now claims dlqId)
  | .createDependency dependentJobId dependencyJobId =>
    stateAfter db (Handlers.createDependency db id claims dependentJobId dependencyJobId)

/-- Between two databases a row of the project was inserted or changed. An edge belongs to the
projects of both its jobs. -/
inductive Touches (db db' : Db) (projectId : Uuid) : Prop
  | queue {q : Queue} (h : Table.Changed db.queues db'.queues q) (hp : q.projectId = projectId)
  | job {j : Job} (h : Table.Changed db.jobs db'.jobs j) (hp : j.projectId = projectId)
  | deadLetter {d : DeadLetterEntry} (h : Table.Changed db.deadLetterQueue db'.deadLetterQueue d)
      (hp : d.projectId = projectId)
  | dependency {e : JobDependency} {j : Job} (h : Table.Changed db.jobDependencies db'.jobDependencies e)
      (hj : db.jobs.find? e.dependentJobId = some j ∨ db.jobs.find? e.dependencyJobId = some j)
      (hp : j.projectId = projectId)

def Authorized (cron : Cron) (now : Timestamp) (id correlationId userId : Uuid) (db : Db) (r : WriteRequest) : Prop :=
  ∀ projectId, Touches db (r.perform cron now id correlationId ⟨some userId⟩ db) projectId →
    isWriter db projectId userId = true

/-- The edge goes in: both jobs exist, there is no such edge yet, and its identifier is new. -/
def edgeIsNew (db : Db) (id dependentJobId dependencyJobId : Uuid) : Prop :=
  (∀ e ∈ db.jobDependencies.rows, e.dependentJobId = dependentJobId → e.dependencyJobId ≠ dependencyJobId) ∧
    db.jobDependencies.find? id = none

/-- Where the check of a call covers all it writes: the two calls that write to rows of more than
the project they look at. -/
def CheckCovers (now : Timestamp) (id userId : Uuid) (db : Db) : WriteRequest → Prop
  | .createDependency dependentJobId dependencyJobId =>
    ∀ dependent dependency, db.jobs.find? dependentJobId = some dependent →
      db.jobs.find? dependencyJobId = some dependency → edgeIsNew db id dependentJobId dependencyJobId →
      isMember db dependent.projectId userId = true →
      isWriter db dependent.projectId userId = true ∧ isWriter db dependency.projectId userId = true
  | .retryDlqJob dlqId =>
    ∀ entry job, db.deadLetterQueue.find? dlqId = some entry → entry.manuallyRetriedAt = none →
      db.jobs.find? entry.jobId = some job → isWriter db entry.projectId userId = true →
      job.manualRetry now = job ∨ isWriter db job.projectId userId = true
  | _ => True

section Touches
variable {db : Db} {projectId : Uuid}

theorem not_touches_self : ¬ Touches db db projectId := by
  intro h
  cases h with
  | queue h => exact Table.not_changed_self _ _ h
  | job h => exact Table.not_changed_self _ _ h
  | deadLetter h => exact Table.not_changed_self _ _ h
  | dependency h => exact Table.not_changed_self _ _ h

theorem touches_stateAfter {ε α : Type} {r : Except ε (α × Db)} (h : Touches db (stateAfter db r) projectId) :
    ∃ a db', r = .ok (a, db') ∧ Touches db db' projectId := by
  cases r with
  | error e => exact absurd h not_touches_self
  | ok r => exact ⟨r.1, r.2, rfl, h⟩

theorem touches_stateAfter_map {ε : Type} {r : Except ε Db}
    (h : Touches db (stateAfter db (r.map fun db' => ((), db'))) projectId) :
    ∃ db', r = .ok db' ∧ Touches db db' projectId := by
  cases r with
  | error e => exact absurd h not_touches_self
  | ok db' => exact ⟨db', rfl, h⟩

theorem touches_queues {queues : Table Queue.id} {hrefer : ∀ q ∈ queues.rows, q.foreignKeys db.parents = true}
    (h : Touches db { db with queues := queues, queues_refer := hrefer } projectId) :
    ∃ q, Table.Changed db.queues queues q ∧ q.projectId = projectId := by
  cases h with
  | queue h hp => exact ⟨_, h, hp⟩
  | job h => exact absurd h (Table.not_changed_self _ _)
  | deadLetter h => exact absurd h (Table.not_changed_self _ _)
  | dependency h => exact absurd h (Table.not_changed_self _ _)

theorem touches_jobs {jobs : Table Job.id} (h : Touches db { db with jobs := jobs } projectId) :
    ∃ j, Table.Changed db.jobs jobs j ∧ j.projectId = projectId := by
  cases h with
  | queue h => exact absurd h (Table.not_changed_self _ _)
  | job h hp => exact ⟨_, h, hp⟩
  | deadLetter h => exact absurd h (Table.not_changed_self _ _)
  | dependency h => exact absurd h (Table.not_changed_self _ _)

theorem touches_dependencies {deps : Table JobDependency.id}
    (h : Touches db { db with jobDependencies := deps } projectId) :
    ∃ e j, Table.Changed db.jobDependencies deps e ∧
      (db.jobs.find? e.dependentJobId = some j ∨ db.jobs.find? e.dependencyJobId = some j) ∧
      j.projectId = projectId := by
  cases h with
  | queue h => exact absurd h (Table.not_changed_self _ _)
  | job h => exact absurd h (Table.not_changed_self _ _)
  | deadLetter h => exact absurd h (Table.not_changed_self _ _)
  | dependency h hj hp => exact ⟨_, _, h, hj, hp⟩

end Touches

/-! ## What each call leaves -/

section Calls
variable (cron : Cron) (now : Timestamp) (id correlationId userId : Uuid) (db : Db)

theorem perform_createQueue (req : Handlers.CreateQueueRequest) :
    (WriteRequest.createQueue req).perform cron now id correlationId ⟨some userId⟩ db =
      stateAfter db (createQueueFor db now id userId req.projectId req.name req.description
        (req.concurrencyLimit.getD 10) req.retryPolicyId) := by
  cases hs : createQueueFor db now id userId req.projectId req.name req.description
      (req.concurrencyLimit.getD 10) req.retryPolicyId <;>
    simp [WriteRequest.perform, Handlers.createQueue, Claims.userId, hs, Except.mapError, bind, Except.bind, pure,
      Except.pure, stateAfter]

theorem stateAfter_setPaused (queueId : Uuid) (paused : Bool) :
    stateAfter db (Handlers.setPaused db now ⟨some userId⟩ queueId paused) =
      stateAfter db ((pauseQueue db now userId queueId paused).map fun db' => ((), db')) := by
  cases hs : pauseQueue db now userId queueId paused <;>
    simp [Handlers.setPaused, Claims.userId, hs, Except.mapError, Except.map, bind, Except.bind, pure, Except.pure,
      stateAfter]

theorem perform_createJob (queueId : Uuid) (req : CreateJobRequest) :
    (WriteRequest.createJob queueId req).perform cron now id correlationId ⟨some userId⟩ db =
      stateAfter db (createJob cron db now id correlationId queueId userId req) := by
  cases hs : createJob cron db now id correlationId queueId userId req <;>
    simp [WriteRequest.perform, Handlers.createJob, Claims.userId, hs, Except.mapError, bind, Except.bind, pure,
      Except.pure, stateAfter]

theorem perform_cancelJob (jobId : Uuid) :
    (WriteRequest.cancelJob jobId).perform cron now id correlationId ⟨some userId⟩ db =
      stateAfter db ((cancelJob db now jobId userId).map fun db' => ((), db')) := by
  cases hs : cancelJob db now jobId userId <;>
    simp [WriteRequest.perform, Handlers.cancelJob, Claims.userId, hs, Except.mapError, Except.map, bind,
      Except.bind, pure, Except.pure, stateAfter]

theorem perform_retryDlqJob (dlqId : Uuid) :
    (WriteRequest.retryDlqJob dlqId).perform cron now id correlationId ⟨some userId⟩ db =
      stateAfter db ((retryJob db now dlqId userId).map fun db' => ((), db')) := by
  cases hs : retryJob db now dlqId userId <;>
    simp [WriteRequest.perform, Handlers.retryDlqJob, Claims.userId, hs, Except.mapError, Except.map, bind,
      Except.bind, pure, Except.pure, stateAfter]

theorem perform_createDependency (dependentJobId dependencyJobId : Uuid) :
    (WriteRequest.createDependency dependentJobId dependencyJobId).perform cron now id correlationId
        ⟨some userId⟩ db =
      match db.jobs.find? dependentJobId with
      | none => db
      | some dependent =>
        if isMember db dependent.projectId userId then
          stateAfter db ((createDependency db id dependentJobId dependencyJobId).map fun db' => ((), db'))
        else db := by
  cases hj : db.jobs.find? dependentJobId with
  | none => simp [WriteRequest.perform, Handlers.createDependency, Claims.userId, hj, stateAfter, bind, Except.bind]
  | some dependent =>
    cases hr : getMemberRole db dependent.projectId userId with
    | none =>
      simp [WriteRequest.perform, Handlers.createDependency, Claims.userId, isMember, hj, hr, stateAfter, bind,
        Except.bind]
    | some role =>
      cases hs : createDependency db id dependentJobId dependencyJobId <;>
        simp [WriteRequest.perform, Handlers.createDependency, Claims.userId, isMember, hj, hr, hs, stateAfter,
          Except.map, bind, Except.bind]

end Calls

/-! ## The checks of the services -/

section Checks
variable {cron : Cron} {now : Timestamp} {id correlationId userId : Uuid} {db db' : Db}

theorem requireProjectWriter_ok {projectId : Uuid} (h : requireProjectWriter db projectId userId = .ok ()) :
    isWriter db projectId userId = true := by
  unfold requireProjectWriter requireProjectMember at h
  cases hr : getMemberRole db projectId userId with
  | none => simp [hr, bind, Except.bind] at h
  | some role =>
    by_cases hv : role = .viewer
    · simp [hr, hv, bind, Except.bind] at h
    · exact isWriter_eq hr hv

theorem createQueueFor_ok {projectId : Uuid} {name : String} {description : Option String}
    {concurrencyLimit : Int32} {retryPolicyId : Option Uuid} {q : Queue}
    (h : createQueueFor db now id userId projectId name description concurrencyLimit retryPolicyId = .ok (q, db')) :
    isWriter db projectId userId = true ∧ q.projectId = projectId ∧
      ∃ queues hrefer, db.queues.insert q = some queues ∧
        db' = { db with queues := queues, queues_refer := hrefer } := by
  unfold createQueueFor at h
  cases hw : requireProjectWriter db projectId userId with
  | error e => simp [hw, bind, Except.bind] at h
  | ok _ =>
    simp only [hw, bind, Except.bind] at h
    refine ⟨requireProjectWriter_ok hw, ?_⟩
    split at h
    · rename_i db₁ hc
      cases h
      exact ⟨rfl, createQueue_ok hc⟩
    · cases h

theorem pauseQueue_ok {queueId : Uuid} {paused : Bool} (h : pauseQueue db now userId queueId paused = .ok db') :
    ∃ q, db.queues.find? queueId = some q ∧ isWriter db q.projectId userId = true ∧
      db' = setPaused db now q.id paused := by
  unfold pauseQueue queueForAction at h
  cases hq : db.queues.find? queueId with
  | none => simp [hq, bind, Except.bind] at h
  | some q =>
    cases hw : requireProjectWriter db q.projectId userId with
    | error e => simp [hq, hw, bind, Except.bind] at h
    | ok _ =>
      simp only [hq, hw, bind, Except.bind, if_true, pure, Except.pure, Except.ok.injEq] at h
      exact ⟨q, rfl, requireProjectWriter_ok hw, h.symm⟩

theorem createJob_writes {queueId : Uuid} {req : CreateJobRequest} {job : Job}
    (h : createJob cron db now id correlationId queueId userId req = .ok (job, db')) :
    db' = db ∨ isWriter db job.projectId userId = true ∧
      ∃ jobs, db.jobs.insert job = some jobs ∧ db' = { db with jobs := jobs } := by
  by_cases hnew : ∀ key, req.idempotencyKey = some key → findByIdempotencyKey db key queueId = none
  · rw [createJob_of_new hnew] at h
    split at h
    · cases h
    · rename_i queue hq
      split at h
      · cases h
      · split at h
        · cases h
        · rename_i role hr
          split at h
          · cases h
          · rename_i hv
            obtain ⟨rfl, -, hi⟩ := createJobInsert_ok h
            exact .inr ⟨isWriter_eq hr hv, (insertJob_ok hi).2⟩
  · push Not at hnew
    obtain ⟨key, hkey, hsome⟩ := hnew
    obtain ⟨existing, he⟩ := Option.ne_none_iff_exists'.mp hsome
    rw [createJob_of_existing hkey he] at h
    cases h
    exact .inl rfl

theorem cancelJob_writes {jobId : Uuid} (h : cancelJob db now jobId userId = .ok db') :
    ∃ job, db.jobs.find? jobId = some job ∧ isWriter db job.projectId userId = true ∧
      db' = cancelJobUpdate db now jobId := by
  unfold cancelJob at h
  cases hj : db.jobs.find? jobId with
  | none => simp [hj] at h
  | some job =>
    cases hr : getMemberRole db job.projectId userId with
    | none => simp [hj, hr] at h
    | some role =>
      by_cases hv : role = .viewer
      · simp [hj, hr, hv, bind, Except.bind] at h
      · simp only [hj, hr, hv, bind, Except.bind, if_false, pure, Except.pure, Except.ok.injEq] at h
        exact ⟨job, rfl, isWriter_eq hr hv, h.symm⟩

theorem retryJob_writes {dlqId : Uuid} (h : retryJob db now dlqId userId = .ok db') :
    ∃ entry, db.deadLetterQueue.find? dlqId = some entry ∧ entry.manuallyRetriedAt = none ∧
      isWriter db entry.projectId userId = true ∧ retryJobCommit db now entry userId = .ok db' := by
  obtain ⟨entry, he, hn, hc⟩ := retryJob_ok h
  refine ⟨entry, he, hn, ?_, hc⟩
  cases hr : getMemberRole db entry.projectId userId with
  | none => simp [retryJob, he, hn, hr] at h
  | some role =>
    by_cases hv : role = .viewer
    · simp [retryJob, he, hn, hr, hv, bind, Except.bind] at h
    · exact isWriter_eq hr hv

theorem createDependency_writes {dependentJobId dependencyJobId : Uuid}
    (h : createDependency db id dependentJobId dependencyJobId = .ok db') :
    db' = db ∨ edgeIsNew db id dependentJobId dependencyJobId ∧
      (∃ dependency, db.jobs.find? dependencyJobId = some dependency) ∧
      ∃ deps, db.jobDependencies.insert ⟨id, dependentJobId, dependencyJobId⟩ = some deps ∧
        db' = { db with jobDependencies := deps } := by
  rcases createDependency_ok h with rfl | ⟨hnone, hd, deps, hi, rfl⟩
  · exact .inl rfl
  · refine .inr ⟨⟨fun e he hdep hdep' => ?_, (Table.rows_insert hi).2⟩, hd, deps, hi, rfl⟩
    have hne := List.any_eq_false.mp hnone e he
    simp [hdep, hdep'] at hne

theorem edgeIsNew.any_eq_false {dependentJobId dependencyJobId : Uuid}
    (hnew : edgeIsNew db id dependentJobId dependencyJobId) :
    (db.jobDependencies.rows.any fun e =>
      e.dependentJobId = dependentJobId && e.dependencyJobId = dependencyJobId) = false := by
  rw [List.any_eq_false]
  intro e he hboth
  simp only [Bool.and_eq_true, decide_eq_true_eq] at hboth
  exact hnew.1 e he hboth.1 hboth.2

theorem createDependency_of_new {dependentJobId dependencyJobId : Uuid} {dependent dependency : Job}
    (hd : db.jobs.find? dependentJobId = some dependent) (hd' : db.jobs.find? dependencyJobId = some dependency)
    (hnew : edgeIsNew db id dependentJobId dependencyJobId) :
    ∃ deps, db.jobDependencies.insert ⟨id, dependentJobId, dependencyJobId⟩ = some deps ∧
      createDependency db id dependentJobId dependencyJobId = .ok { db with jobDependencies := deps } := by
  have hins : db.jobDependencies.insert ⟨id, dependentJobId, dependencyJobId⟩ ≠ none := by
    rw [Ne, Table.insert_eq_none_iff, hnew.2]
    simp
  obtain ⟨deps, hi⟩ := Option.ne_none_iff_exists'.mp hins
  refine ⟨deps, hi, ?_⟩
  unfold createDependency
  rw [hnew.any_eq_false, hd, hd', hi]
  rfl

theorem authorized_createQueue (req : Handlers.CreateQueueRequest) :
    Authorized cron now id correlationId userId db (.createQueue req) := by
  intro projectId ht
  rw [perform_createQueue] at ht
  obtain ⟨q₀, db', hs, ht⟩ := touches_stateAfter ht
  obtain ⟨hw, hq, queues, _, hi, rfl⟩ := createQueueFor_ok hs
  obtain ⟨q, hc, rfl⟩ := touches_queues ht
  rw [(Table.changed_insert_iff hi q).mp hc, hq]
  exact hw

theorem authorized_setPaused {queueId projectId : Uuid} {paused : Bool}
    (ht : Touches db (stateAfter db (Handlers.setPaused db now ⟨some userId⟩ queueId paused)) projectId) :
    isWriter db projectId userId = true := by
  rw [stateAfter_setPaused] at ht
  obtain ⟨db', hs, ht⟩ := touches_stateAfter_map ht
  obtain ⟨q, hq, hw, rfl⟩ := pauseQueue_ok hs
  obtain ⟨r, hc, rfl⟩ := touches_queues ht
  have hq' : db.queues.find? q.id = some q := Table.find?_of_mem (Table.mem_of_find? hq)
  obtain ⟨-, hr⟩ := Table.changed_update_of_find? hq' (fun r hr => of_decide_eq_true hr) _ hc
  rcases hr with rfl | rfl <;> exact hw

theorem authorized_createJob (queueId : Uuid) (req : CreateJobRequest) :
    Authorized cron now id correlationId userId db (.createJob queueId req) := by
  intro projectId ht
  rw [perform_createJob] at ht
  obtain ⟨job, db', hs, ht⟩ := touches_stateAfter ht
  rcases createJob_writes hs with rfl | ⟨hw, jobs, hi, rfl⟩
  · exact absurd ht not_touches_self
  · obtain ⟨j, hc, rfl⟩ := touches_jobs ht
    rw [(Table.changed_insert_iff hi j).mp hc]
    exact hw

theorem authorized_cancelJob (jobId : Uuid) :
    Authorized cron now id correlationId userId db (.cancelJob jobId) := by
  intro projectId ht
  rw [perform_cancelJob] at ht
  obtain ⟨db', hs, ht⟩ := touches_stateAfter_map ht
  obtain ⟨job, hj, hw, rfl⟩ := cancelJob_writes hs
  obtain ⟨j, hc, rfl⟩ := touches_jobs ht
  obtain ⟨-, hr⟩ := Table.changed_update_of_find? hj
    (fun r hr => of_decide_eq_true (Bool.and_eq_true_iff.mp hr).1) (Job.cancel_id now) hc
  rcases hr with rfl | rfl <;> exact hw

/-- A retry writes to its entry, whose project is checked, and to the job of the entry. -/
theorem authorized_retryDlqJob_iff (dlqId : Uuid) :
    Authorized cron now id correlationId userId db (.retryDlqJob dlqId) ↔
      CheckCovers now id userId db (.retryDlqJob dlqId) := by
  constructor
  · intro h entry job he hn hj hw
    by_cases hsame : job.manualRetry now = job
    · exact .inl hsame
    · obtain ⟨_, hr, -⟩ := Option.any_eq_true _ _ |>.mp hw
      have hok : retryJobCommit db now entry userId = .ok _ :=
        (if_neg (by simp [hj])).trans (if_neg (not_not.mpr (getMemberRole_refers hr).2))
      refine .inr (h job.projectId (.job (j := job) ?_ rfl))
      rw [perform_retryDlqJob, retryJob_of_waiting he hn hw, hok]
      exact (Table.changed_update_iff _ _ _ (Job.manualRetry_id now) job).mpr
        ⟨job, Table.mem_of_find? hj, decide_eq_true (Table.key_of_find? hj), hsame, .inl rfl⟩
  · intro h projectId ht
    rw [perform_retryDlqJob] at ht
    obtain ⟨db', hs, ht⟩ := touches_stateAfter_map ht
    obtain ⟨entry, he, hn, hw, hc⟩ := retryJob_writes hs
    obtain ⟨⟨job, hj⟩, _, rfl⟩ := retryJobCommit_ok hc
    cases ht with
    | queue hc => exact absurd hc (Table.not_changed_self _ _)
    | dependency hc => exact absurd hc (Table.not_changed_self _ _)
    | @deadLetter d hc hp =>
      have he' : db.deadLetterQueue.find? entry.id = some entry := Table.find?_of_mem (Table.mem_of_find? he)
      obtain ⟨-, hd⟩ := Table.changed_update_of_find? he' (fun r hr => of_decide_eq_true hr)
        (DeadLetterEntry.markRetried_id now userId) hc
      subst hp
      rcases hd with rfl | rfl <;> exact hw
    | @job j hc hp =>
      obtain ⟨hne, hr⟩ := Table.changed_update_of_find? hj (fun r hr => of_decide_eq_true hr)
        (Job.manualRetry_id now) hc
      have hwj := (h entry job he hn hj hw).resolve_left hne
      subst hp
      rcases hr with rfl | rfl <;> exact hwj

/-- An edge is written for any member of the dependent job's project. -/
theorem touches_of_edge {dependentJobId dependencyJobId : Uuid} {dependent dependency : Job}
    (hd : db.jobs.find? dependentJobId = some dependent) (hd' : db.jobs.find? dependencyJobId = some dependency)
    (hnew : edgeIsNew db id dependentJobId dependencyJobId)
    (hm : isMember db dependent.projectId userId = true) :
    Touches db ((WriteRequest.createDependency dependentJobId dependencyJobId).perform cron now id correlationId
        ⟨some userId⟩ db) dependent.projectId ∧
      Touches db ((WriteRequest.createDependency dependentJobId dependencyJobId).perform cron now id correlationId
        ⟨some userId⟩ db) dependency.projectId := by
  obtain ⟨deps, hi, hok⟩ := createDependency_of_new hd hd' hnew
  have hperform : (WriteRequest.createDependency dependentJobId dependencyJobId).perform cron now id
      correlationId ⟨some userId⟩ db = { db with jobDependencies := deps } := by
    rw [perform_createDependency, hd, hok]
    exact if_pos hm
  have hc := (Table.changed_insert_iff hi _).mpr rfl
  rw [hperform]
  exact ⟨.dependency hc (.inl hd) rfl, .dependency hc (.inr hd') rfl⟩

theorem authorized_createDependency_iff (dependentJobId dependencyJobId : Uuid) :
    Authorized cron now id correlationId userId db (.createDependency dependentJobId dependencyJobId) ↔
      CheckCovers now id userId db (.createDependency dependentJobId dependencyJobId) := by
  constructor
  · intro h dependent dependency hd hd' hnew hm
    obtain ⟨ht, ht'⟩ := touches_of_edge hd hd' hnew hm
    exact ⟨h _ ht, h _ ht'⟩
  · intro h projectId ht
    rw [perform_createDependency] at ht
    cases hd : db.jobs.find? dependentJobId with
    | none =>
      rw [hd] at ht
      exact absurd ht not_touches_self
    | some dependent =>
      rw [hd] at ht
      dsimp only at ht
      split at ht
      · rename_i hm
        obtain ⟨db', hs, ht⟩ := touches_stateAfter_map ht
        rcases createDependency_writes hs with rfl | ⟨hnew, ⟨dependency, hd'⟩, deps, hi, rfl⟩
        · exact absurd ht not_touches_self
        · obtain ⟨hw, hw'⟩ := h dependent dependency hd hd' hnew hm
          obtain ⟨e, j, hc, hj, rfl⟩ := touches_dependencies ht
          rw [(Table.changed_insert_iff hi e).mp hc, hd, hd'] at hj
          rcases hj with hj | hj
          · rw [← Option.some_inj.mp hj]
            exact hw
          · rw [← Option.some_inj.mp hj]
            exact hw'
      · exact absurd ht not_touches_self

end Checks

/-- Project authorization of the writes: a call writes only where its user has a writing role,
exactly if the check it makes covers the rows it writes. -/
theorem write_authorization_iff (cron : Cron) (now : Timestamp) (id correlationId userId : Uuid) (db : Db)
    (r : WriteRequest) :
    Authorized cron now id correlationId userId db r ↔ CheckCovers now id userId db r := by
  cases r with
  | createQueue req => exact iff_of_true (authorized_createQueue req) trivial
  | pauseQueue queueId => exact iff_of_true (fun _ => authorized_setPaused) trivial
  | resumeQueue queueId => exact iff_of_true (fun _ => authorized_setPaused) trivial
  | createJob queueId req => exact iff_of_true (authorized_createJob queueId req) trivial
  | cancelJob jobId => exact iff_of_true (authorized_cancelJob jobId) trivial
  | retryDlqJob dlqId => exact authorized_retryDlqJob_iff dlqId
  | createDependency dependentJobId dependencyJobId =>
    exact authorized_createDependency_iff dependentJobId dependencyJobId

namespace Sample

def otherQueue : Queue := { queue with id := 11, projectId := 21 }

/-- Job 100 of project 20 and job 101 of project 21; user 32 is a viewer of the first project and
unknown to the second. -/
def twoProjects : Db :=
  { db with
    parents := ⟨[30, 32], [20, 21], []⟩
    jobs := ⟨[newJob 0 100 100 queue (request 3), newJob 0 101 101 otherQueue (request 3)], by decide⟩
    queues := ⟨[queue, otherQueue], by decide⟩
    projectMembers := ⟨[⟨20, 30, .admin⟩, ⟨20, 32, .viewer⟩], by decide⟩
    queues_refer := by decide
    members_refer := by decide }

theorem viewer_writes_edge :
    (Touches twoProjects ((WriteRequest.createDependency 100 101).perform cron 0 7 0 ⟨some 32⟩ twoProjects) 20 ∧
      getMemberRole twoProjects 20 32 = some .viewer) ∧
    (Touches twoProjects ((WriteRequest.createDependency 100 101).perform cron 0 7 0 ⟨some 32⟩ twoProjects) 21 ∧
      getMemberRole twoProjects 21 32 = none) := by
  have hd : twoProjects.jobs.find? 100 = some (newJob 0 100 100 queue (request 3)) := rfl
  have hd' : twoProjects.jobs.find? 101 = some (newJob 0 101 101 otherQueue (request 3)) := rfl
  have hnew : edgeIsNew twoProjects 7 100 101 := ⟨fun e he => absurd he List.not_mem_nil, rfl⟩
  have hm : isMember twoProjects 20 32 = true := by decide
  exact ⟨⟨(touches_of_edge hd hd' hnew hm).1, by decide⟩, (touches_of_edge hd hd' hnew hm).2, by decide⟩

end Sample

end JobScheduler
