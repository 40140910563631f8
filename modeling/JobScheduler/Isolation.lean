import JobScheduler.Handlers
import JobScheduler.Requests

namespace JobScheduler
open Relational

/-- A request whose answer shows rows of `jobs`, `job_executions` or `dead_letter_queue`. -/
inductive ReadRequest
  | getJob (jobId : Uuid)
  | listJobs (queueId : Uuid) (params : ListJobsQuery)
  | listJobExecutions (jobId : Uuid)
  | listDlq (params : ListDlqQuery)
  | queueStats (queueId : Uuid)
  | createJob (queueId : Uuid) (req : CreateJobRequest)

/-- The answer to a request, on the database as it stands; `id` and `correlationId` are the
identifiers that `create_job` draws. -/
def ReadRequest.respond (cron : Cron) (now : Timestamp) (id correlationId : Uuid) (claims : Claims) (db : Db) :
    ReadRequest → HttpResponse
  | .getJob jobId => intoResponse (Handlers.getJob db jobId)
  | .listJobs queueId params => intoResponse (Handlers.listJobs db queueId params)
  | .listJobExecutions jobId => intoResponse (Handlers.listJobExecutions db jobId)
  | .listDlq params => intoResponse (Handlers.listDlq db params)
  | .queueStats queueId => intoResponse (Handlers.queueStats db claims queueId)
  | .createJob queueId req =>
    intoResponse ((Handlers.createJob cron db now id correlationId claims queueId req).map Prod.fst)

/-! ## Databases that differ in other projects only -/

/-! The key columns: those that identify a row, that a `UNIQUE` constraint is on, or that hold the
key of another row. -/

def Job.keyColumns (j : Job) : Uuid × Uuid × Uuid × Option Uuid × Option String × Option Uuid :=
  (j.id, j.queueId, j.projectId, j.workerId, j.idempotencyKey, j.retryPolicyId)

def JobExecution.keyColumns (e : JobExecution) : Uuid × Uuid × Uuid := (e.id, e.jobId, e.workerId)

def DeadLetterEntry.keyColumns (d : DeadLetterEntry) : Uuid × Uuid × Uuid × Uuid × Option Uuid :=
  (d.id, d.jobId, d.queueId, d.projectId, d.manuallyRetriedBy)

def executionVisible (db : Db) (userId : Uuid) (e : JobExecution) : Prop :=
  ∀ j, db.jobs.find? e.jobId = some j → isMember db j.projectId userId = true

/-- The rows of a table in two databases: the key columns are the same everywhere, and so are the
rows the user may see. -/
def SameRows {ρ κ : Type} (keyColumns : ρ → κ) (visible : ρ → Prop) (rows rows' : List ρ) : Prop :=
  List.Forall₂ (fun r r' => keyColumns r' = keyColumns r ∧ (visible r → r' = r)) rows rows'

/-- Two databases that agree on everything but the non-key columns of jobs, executions and dead
letters of projects the user is no member of. -/
structure AgreeFor (userId : Uuid) (db db' : Db) : Prop where
  jobs : SameRows Job.keyColumns (fun j => isMember db j.projectId userId = true) db.jobs.rows db'.jobs.rows
  jobExecutions : SameRows JobExecution.keyColumns (executionVisible db userId) db.jobExecutions.rows
    db'.jobExecutions.rows
  deadLetterQueue : SameRows DeadLetterEntry.keyColumns (fun d => isMember db d.projectId userId = true)
    db.deadLetterQueue.rows db'.deadLetterQueue.rows
  others : { db' with
    jobs := db.jobs, jobExecutions := db.jobExecutions, deadLetterQueue := db.deadLetterQueue } = db

/-- The user learns nothing from the answer about projects of which they are no member. -/
def Isolated (cron : Cron) (now : Timestamp) (id correlationId userId : Uuid) (db : Db) (r : ReadRequest) : Prop :=
  ∀ db', AgreeFor userId db db' →
    r.respond cron now id correlationId ⟨some userId⟩ db' = r.respond cron now id correlationId ⟨some userId⟩ db

/-- The page shows no row: a bound is refused, the limit is zero, or the offset is past the end. -/
def showsNothing (limit offset : ℤ) (count : ℕ) : Prop := limit ≤ 0 ∨ offset < 0 ∨ count ≤ offset

def OwnRowsOnly (userId : Uuid) (db : Db) : ReadRequest → Prop
  | .getJob jobId => ∀ j, db.jobs.find? jobId = some j → isMember db j.projectId userId = true
  | .listJobs queueId params =>
    showsNothing params.limit params.offset (db.jobs.count fun j => decide (j.queueId = queueId)) ∨
      ∀ j ∈ db.jobs.rows, j.queueId = queueId → isMember db j.projectId userId = true
  | .listJobExecutions jobId =>
    (∀ e ∈ db.jobExecutions.rows, e.jobId ≠ jobId) ∨
      ∀ j, db.jobs.find? jobId = some j → isMember db j.projectId userId = true
  | .listDlq params =>
    showsNothing params.limit params.offset
        (db.deadLetterQueue.count fun d => decide (d.projectId = params.projectId)) ∨
      isMember db params.projectId userId = true
  | .queueStats queueId => ∀ q, db.queues.find? queueId = some q → isMember db q.projectId userId = true →
      ∀ j ∈ db.jobs.rows, j.queueId = queueId → isMember db j.projectId userId = true
  | .createJob queueId req => ∀ key j, req.idempotencyKey = some key →
      findByIdempotencyKey db key queueId = some j → isMember db j.projectId userId = true

section Rows
variable {ρ κ : Type} {keyColumns : ρ → κ} {visible : ρ → Prop} {rows rows' : List ρ} {p : ρ → Bool}

theorem SameRows.filter_eq (h : SameRows keyColumns visible rows rows') (q : κ → Bool)
    (hp : ∀ r, p r = q (keyColumns r)) (hv : ∀ r ∈ rows, p r = true → visible r) :
    rows'.filter p = rows.filter p := by
  refine filter_eq_of_related h ?_ ?_
  · rintro a b ⟨hk, -⟩
    rw [hp, hp, hk]
  · rintro a ha hpa b ⟨-, hb⟩
    exact hb (hv a ha hpa)

theorem SameRows.length_filter (h : SameRows keyColumns visible rows rows') (q : κ → Bool)
    (hp : ∀ r, p r = q (keyColumns r)) : (rows'.filter p).length = (rows.filter p).length := by
  refine (filter_related h ?_).length_eq.symm
  rintro a b ⟨hk, -⟩
  rw [hp, hp, hk]

theorem SameRows.find? (h : SameRows keyColumns visible rows rows') (q : κ → Bool)
    (hp : ∀ r, p r = q (keyColumns r)) :
    Option.Rel (fun r r' => keyColumns r' = keyColumns r ∧ (visible r → r' = r)) (rows.find? p)
      (rows'.find? p) := by
  refine find?_related h ?_
  rintro a b ⟨hk, -⟩
  rw [hp, hp, hk]

theorem SameRows.find?_eq (h : SameRows keyColumns visible rows rows') (q : κ → Bool)
    (hp : ∀ r, p r = q (keyColumns r)) (hv : ∀ r, rows.find? p = some r → visible r) :
    rows'.find? p = rows.find? p := by
  refine eq_of_related (h.find? q hp) ?_
  rintro r hr r' ⟨-, hr'⟩
  exact hr' (hv r hr)

theorem SameRows.isSome_find? (h : SameRows keyColumns visible rows rows') (q : κ → Bool)
    (hp : ∀ r, p r = q (keyColumns r)) : (rows'.find? p).isSome = (rows.find? p).isSome :=
  isSome_of_related (h.find? q hp)

theorem sameRows_map {f : ρ → ρ} (hk : ∀ r, keyColumns (f r) = keyColumns r)
    (hv : ∀ r ∈ rows, visible r → f r = r) : SameRows keyColumns visible rows (rows.map f) :=
  related_map fun r hr => ⟨hk r, hv r hr⟩

theorem sameRows_refl : SameRows keyColumns visible rows rows :=
  List.forall₂_same.mpr fun _ _ => ⟨rfl, fun _ => rfl⟩

end Rows

section Agreement
variable {userId : Uuid} {db db' : Db} (h : AgreeFor userId db db')
include h

theorem AgreeFor.queues : db'.queues = db.queues := by
  simpa using congrArg Db.queues h.others

theorem AgreeFor.getMemberRole (projectId u : Uuid) :
    getMemberRole db' projectId u = getMemberRole db projectId u := by
  have hm : db'.projectMembers = db.projectMembers := by simpa using congrArg Db.projectMembers h.others
  rw [JobScheduler.getMemberRole, hm]
  rfl

theorem AgreeFor.foreignKeys (j : Job) : j.foreignKeys db' = j.foreignKeys db := by
  have hw : db'.workers = db.workers := by simpa using congrArg Db.workers h.others
  have hp : db'.parents = db.parents := by simpa using congrArg Db.parents h.others
  rw [Job.foreignKeys, h.queues, hw, hp, Job.foreignKeys]

/-- Constraints are on key columns, so an `INSERT` fares the same on both. -/
theorem AgreeFor.insertJob (j : Job) :
    (insertJob db' j).map (fun _ => ()) = (insertJob db j).map fun _ => () := by
  have hany : (db'.jobs.rows.any fun k => k.queueId = j.queueId && k.idempotencyKey = j.idempotencyKey) =
      db.jobs.rows.any fun k => k.queueId = j.queueId && k.idempotencyKey = j.idempotencyKey := by
    rw [← List.isSome_find?, ← List.isSome_find?]
    exact h.jobs.isSome_find? (fun k => decide (k.2.1 = j.queueId) && decide (k.2.2.2.2.1 = j.idempotencyKey))
      fun _ => rfl
  have hid : (db'.jobs.insert j).isNone = (db.jobs.insert j).isNone := by
    have hf : (db'.jobs.find? j.id).isSome = (db.jobs.find? j.id).isSome :=
      h.jobs.isSome_find? (fun k => decide (k.1 = j.id)) fun _ => rfl
    rw [Bool.eq_iff_iff, Option.isNone_iff_eq_none, Option.isNone_iff_eq_none, Table.insert_eq_none_iff,
      Table.insert_eq_none_iff, ← Option.isSome_iff_exists, ← Option.isSome_iff_exists, hf]
  unfold JobScheduler.insertJob
  rw [h.foreignKeys, hany]
  split
  · rfl
  · cases hi : db.jobs.insert j <;> cases hi' : db'.jobs.insert j <;>
      simp only [hi, hi', Option.isNone_none, Option.isNone_some, reduceCtorEq] at hid ⊢
    split <;> rfl

theorem AgreeFor.createJobInsert (cron : Cron) (now : Timestamp) (id correlationId : Uuid) (queue : Queue)
    (req : CreateJobRequest) :
    (createJobInsert cron db' now id correlationId queue req).map Prod.fst =
      (createJobInsert cron db now id correlationId queue req).map Prod.fst := by
  have hi := h.insertJob (newJob now id correlationId queue req)
  unfold JobScheduler.createJobInsert
  cases validateCron cron req with
  | error e => rfl
  | ok _ =>
    cases he : JobScheduler.insertJob db (newJob now id correlationId queue req) <;>
      cases he' : JobScheduler.insertJob db' (newJob now id correlationId queue req) <;>
        simp_all [Except.map, bind, Except.bind]

/-- `create_job` reads rows of other calls through the idempotency lookup only. -/
theorem AgreeFor.createJob (cron : Cron) (now : Timestamp) (id correlationId queueId : Uuid)
    (req : CreateJobRequest)
    (hv : ∀ key j, req.idempotencyKey = some key → findByIdempotencyKey db key queueId = some j →
      isMember db j.projectId userId = true) :
    (createJob cron db' now id correlationId queueId userId req).map Prod.fst =
      (createJob cron db now id correlationId queueId userId req).map Prod.fst := by
  have hlookup : ∀ key, req.idempotencyKey = some key →
      findByIdempotencyKey db' key queueId = findByIdempotencyKey db key queueId := by
    intro key hkey
    exact h.jobs.find?_eq (fun k => decide (k.2.2.2.2.1 = some key) && decide (k.2.1 = queueId))
      (fun _ => rfl) fun j hj => hv key j hkey hj
  by_cases hnew : ∀ key, req.idempotencyKey = some key → findByIdempotencyKey db key queueId = none
  · rw [createJob_of_new hnew, createJob_of_new fun key hkey => (hlookup key hkey).trans (hnew key hkey),
      h.queues]
    cases db.queues.find? queueId with
    | none => rfl
    | some queue =>
      dsimp only
      split
      · rfl
      · rw [h.getMemberRole]
        cases JobScheduler.getMemberRole db queue.projectId userId with
        | none => rfl
        | some role =>
          dsimp only
          split
          · rfl
          · exact h.createJobInsert cron now id correlationId queue req
  · push Not at hnew
    obtain ⟨key, hkey, hsome⟩ := hnew
    obtain ⟨j, hj⟩ := Option.ne_none_iff_exists'.mp hsome
    rw [createJob_of_existing hkey hj, createJob_of_existing hkey ((hlookup key hkey).trans hj)]
    rfl

theorem AgreeFor.length_jobs (queueId : Uuid) :
    (jobsOfQueue db' queueId).length = (jobsOfQueue db queueId).length := by
  rw [jobsOfQueue, jobsOfQueue, length_orderByDesc, length_orderByDesc]
  exact h.jobs.length_filter (fun k => decide (k.2.1 = queueId)) fun _ => rfl

theorem AgreeFor.length_entries (projectId : Uuid) :
    (entriesOfProject db' projectId).length = (entriesOfProject db projectId).length := by
  rw [entriesOfProject, entriesOfProject, length_orderByDesc, length_orderByDesc]
  exact h.deadLetterQueue.length_filter (fun k => decide (k.2.2.2.1 = projectId)) fun _ => rfl

/-- The counts of a queue whose jobs the user may all see; of its dead letters only the number
matters. -/
theorem AgreeFor.repositoryStats (q : Queue)
    (hv : ∀ j ∈ db.jobs.rows, j.queueId = q.id → isMember db j.projectId userId = true) :
    repositoryStats db' q = repositoryStats db q := by
  have hjobs : (db'.jobs.rows.filter fun j => decide (j.queueId = q.id)) =
      db.jobs.rows.filter fun j => decide (j.queueId = q.id) :=
    h.jobs.filter_eq (fun k => decide (k.2.1 = q.id)) (fun _ => rfl) fun j hj hq => hv j hj (by simpa using hq)
  have hentries : (db'.deadLetterQueue.rows.filter fun d => decide (d.queueId = q.id)).length =
      (db.deadLetterQueue.rows.filter fun d => decide (d.queueId = q.id)).length :=
    h.deadLetterQueue.length_filter (fun k => decide (k.2.2.1 = q.id)) fun _ => rfl
  rw [repositoryStats_eq, repositoryStats_eq, hjobs, hentries]

end Agreement

/-! ## Answers, written out -/

section Answers
variable (cron : Cron) (now : Timestamp) (id correlationId userId : Uuid) (db : Db)

def createdResponse (job : Job) : HttpResponse :=
  ⟨201, .object
    [("job_id", .uuid job.id), ("correlation_id", .uuid job.correlationId),
      ("status", .string job.status.text), ("name", .string job.name),
      ("created_at", .timestamp job.createdAt)]⟩

theorem respond_createJob (queueId : Uuid) (req : CreateJobRequest) :
    (ReadRequest.createJob queueId req).respond cron now id correlationId ⟨some userId⟩ db =
      match (createJob cron db now id correlationId queueId userId req).map Prod.fst with
      | .ok job => createdResponse job
      | .error e => (Handlers.mapCreateJobError e).intoResponse := by
  cases hc : createJob cron db now id correlationId queueId userId req <;>
    simp [ReadRequest.respond, Handlers.createJob, Claims.userId, hc, Except.mapError, Except.map, bind,
      Except.bind, pure, Except.pure, intoResponse, createdResponse]

theorem getStats_eq (queueId : Uuid) :
    getStats db userId queueId =
      match db.queues.find? queueId with
      | none => .error (.queueNotFound queueId)
      | some q => if isMember db q.projectId userId then .ok (repositoryStats db q) else .error .forbidden := by
  cases hq : db.queues.find? queueId with
  | none =>
    simp only [getStats, queueForAction, hq]
    rfl
  | some q =>
    cases hr : getMemberRole db q.projectId userId <;>
      simp only [getStats, queueForAction, requireProjectMember, isMember, hq, hr] <;> rfl

theorem respond_queueStats (queueId : Uuid) :
    (ReadRequest.queueStats queueId).respond cron now id correlationId ⟨some userId⟩ db =
      match getStats db userId queueId with
      | .ok stats => ⟨200, stats.toValue⟩
      | .error e => (Handlers.mapQueueError e).intoResponse := by
  cases hs : getStats db userId queueId <;>
    simp [ReadRequest.respond, Handlers.queueStats, Claims.userId, hs, Except.mapError, bind, Except.bind,
      pure, Except.pure, intoResponse]

end Answers

/-! ## Answers that own rows determine -/

section Own
variable {cron : Cron} {now : Timestamp} {id correlationId userId : Uuid} {db db' : Db}

theorem AgreeFor.page_jobs (h : AgreeFor userId db db') {queueId : Uuid} {params : ListJobsQuery}
    (hown : OwnRowsOnly userId db (.listJobs queueId params)) :
    page params.limit params.offset (jobsOfQueue db' queueId) =
      page params.limit params.offset (jobsOfQueue db queueId) := by
  rcases hown with hnone | hown
  · refine page_of_empty ?_ (h.length_jobs queueId)
    rw [jobsOfQueue, length_orderByDesc, ← List.countP_eq_length_filter]
    exact hnone
  · have hrows : (db'.jobs.rows.filter fun j => decide (j.queueId = queueId)) =
        db.jobs.rows.filter fun j => decide (j.queueId = queueId) :=
      h.jobs.filter_eq (fun k => decide (k.2.1 = queueId)) (fun _ => rfl) fun j hj hq =>
        hown j hj (of_decide_eq_true hq)
    rw [jobsOfQueue, jobsOfQueue, hrows]

theorem AgreeFor.listExecutions (h : AgreeFor userId db db') {jobId : Uuid}
    (hown : OwnRowsOnly userId db (.listJobExecutions jobId)) :
    listExecutions db' jobId = listExecutions db jobId := by
  have hrows : (db'.jobExecutions.rows.filter fun e => decide (e.jobId = jobId)) =
      db.jobExecutions.rows.filter fun e => decide (e.jobId = jobId) := by
    refine h.jobExecutions.filter_eq (fun k => decide (k.2.1 = jobId)) (fun _ => rfl) fun e he hj => ?_
    have hjob : e.jobId = jobId := of_decide_eq_true hj
    rcases hown with hnone | hown
    · exact absurd hjob (hnone e he)
    · exact fun j hfind => hown j (hjob ▸ hfind)
  rw [JobScheduler.listExecutions, JobScheduler.listExecutions, hrows]

theorem AgreeFor.page_entries (h : AgreeFor userId db db') {params : ListDlqQuery}
    (hown : OwnRowsOnly userId db (.listDlq params)) :
    page params.limit params.offset (entriesOfProject db' params.projectId) =
      page params.limit params.offset (entriesOfProject db params.projectId) := by
  rcases hown with hnone | hown
  · refine page_of_empty ?_ (h.length_entries params.projectId)
    rw [entriesOfProject, length_orderByDesc, ← List.countP_eq_length_filter]
    exact hnone
  · have hrows : (db'.deadLetterQueue.rows.filter fun d => decide (d.projectId = params.projectId)) =
        db.deadLetterQueue.rows.filter fun d => decide (d.projectId = params.projectId) := by
      refine h.deadLetterQueue.filter_eq (fun k => decide (k.2.2.2.1 = params.projectId)) (fun _ => rfl) ?_
      intro d _ hd
      have hproject : d.projectId = params.projectId := of_decide_eq_true hd
      exact hproject ▸ hown
    rw [entriesOfProject, entriesOfProject, hrows]

theorem AgreeFor.getStats (h : AgreeFor userId db db') {queueId : Uuid}
    (hown : OwnRowsOnly userId db (.queueStats queueId)) :
    getStats db' userId queueId = getStats db userId queueId := by
  rw [getStats_eq, getStats_eq, h.queues]
  cases hq : db.queues.find? queueId with
  | none => rfl
  | some q =>
    have hid : q.id = queueId := Table.key_of_find? hq
    dsimp only
    rw [isMember, h.getMemberRole, ← isMember]
    split
    · rename_i hm
      rw [h.repositoryStats q fun j hj hjq => hown q hq hm j hj (hjq.trans hid)]
    · rfl

/-- A request is answered alike on every database that agrees, when all the rows that take part in
the answer are of the user's own projects. -/
theorem isolated_of_ownRows {r : ReadRequest} (hown : OwnRowsOnly userId db r) :
    Isolated cron now id correlationId userId db r := by
  intro db' h
  cases r with
  | getJob jobId =>
    have hj : db'.jobs.find? jobId = db.jobs.find? jobId :=
      h.jobs.find?_eq (fun k => decide (k.1 = jobId)) (fun _ => rfl) hown
    simp only [ReadRequest.respond, Handlers.getJob, hj]
  | listJobs queueId params => simp only [ReadRequest.respond, Handlers.listJobs, h.page_jobs hown]
  | listJobExecutions jobId =>
    simp only [ReadRequest.respond, Handlers.listJobExecutions, h.listExecutions hown]
  | listDlq params => simp only [ReadRequest.respond, Handlers.listDlq, h.page_entries hown]
  | queueStats queueId => rw [respond_queueStats, respond_queueStats, h.getStats hown]
  | createJob queueId req =>
    rw [respond_createJob, respond_createJob, h.createJob cron now id correlationId queueId req hown]

end Own

/-! ## What the rows of other projects give away -/

section Leaks
variable {cron : Cron} {now : Timestamp} {id correlationId userId : Uuid} {db : Db}

theorem Isolated.same {r : ReadRequest} (h : Isolated cron now id correlationId userId db r) {db₁ db₂ : Db}
    (h₁ : AgreeFor userId db db₁) (h₂ : AgreeFor userId db db₂) :
    r.respond cron now id correlationId ⟨some userId⟩ db₁ = r.respond cron now id correlationId ⟨some userId⟩ db₂ :=
  (h db₁ h₁).trans (h db₂ h₂).symm

theorem agreeFor_updateJob {jobId : Uuid} {j : Job} (hj : db.jobs.find? jobId = some j)
    (hforeign : isMember db j.projectId userId = false) {f : Job → Job} (hf : ∀ r, (f r).id = r.id)
    (hk : ∀ r, (f r).keyColumns = r.keyColumns) : AgreeFor userId db (db.updateJob jobId f hf) := by
  refine ⟨sameRows_map (fun r => ?_) (fun r hr hv => ?_), sameRows_refl, sameRows_refl, rfl⟩
  · by_cases hid : r.id = jobId <;> simp [hid, hk]
  · by_cases hid : r.id = jobId
    · have hrj : r = j := by
        have hr' := Table.find?_of_mem hr
        rw [hid, hj] at hr'
        exact (Option.some_inj.mp hr').symm
      rw [hrj, hforeign] at hv
      cases hv
    · simp [hid]

theorem find?_updateJob {jobId : Uuid} {j : Job} (hj : db.jobs.find? jobId = some j) {f : Job → Job}
    (hf : ∀ r, (f r).id = r.id) : (db.updateJob jobId f hf).jobs.find? jobId = some (f j) := by
  show (db.jobs.update _ f hf).find? jobId = some (f j)
  rw [Table.find?_update_key, if_pos rfl, hj]
  rfl

theorem rows_updateJob {jobId : Uuid} {j : Job} (hj : db.jobs.find? jobId = some j) :
    ∃ l₁ l₂, db.jobs.rows = l₁ ++ j :: l₂ ∧ ∀ (f : Job → Job) (hf : ∀ r, (f r).id = r.id),
      (db.updateJob jobId f hf).jobs.rows = l₁ ++ f j :: l₂ :=
  Table.rows_update_key hj

def Job.rename (j : Job) : Job := { j with name := j.name ++ "*" }

theorem Job.rename_id (j : Job) : j.rename.id = j.id := rfl

theorem isolated_getJob {jobId : Uuid} (h : Isolated cron now id correlationId userId db (.getJob jobId)) :
    OwnRowsOnly userId db (.getJob jobId) := by
  intro j hj
  by_contra hm
  have hs := h _ (agreeFor_updateJob hj (Bool.eq_false_iff.mpr hm) Job.rename_id fun _ => rfl)
  have hrenamed := find?_updateJob hj Job.rename_id
  simp only [ReadRequest.respond, Handlers.getJob, hrenamed, hj, intoResponse] at hs
  simp [Job.toValue, Job.rename] at hs

theorem isolated_createJob {queueId : Uuid} {req : CreateJobRequest}
    (h : Isolated cron now id correlationId userId db (.createJob queueId req)) :
    OwnRowsOnly userId db (.createJob queueId req) := by
  intro key j hkey hj
  by_contra hm
  have hfind : db.jobs.find? j.id = some j := Table.find?_of_mem (List.mem_of_find?_eq_some hj)
  have hs := h _ (agreeFor_updateJob hfind (Bool.eq_false_iff.mpr hm) Job.rename_id fun _ => rfl)
  have hrenamed : findByIdempotencyKey (db.updateJob j.id Job.rename Job.rename_id) key queueId =
      some j.rename := by
    show (db.jobs.rows.map _).find? _ = _
    have hp : (fun r : Job => decide (r.idempotencyKey = some key) && decide (r.queueId = queueId)) ∘
        (fun r => if decide (r.id = j.id) then Job.rename r else r) =
        fun r => decide (r.idempotencyKey = some key) && decide (r.queueId = queueId) := by
      funext r
      by_cases hid : r.id = j.id <;> simp [hid, Job.rename]
    rw [List.find?_map, hp, show db.jobs.rows.find? _ = some j from hj]
    simp
  rw [respond_createJob, respond_createJob, createJob_of_existing hkey hj,
    createJob_of_existing hkey hrenamed] at hs
  simp [Except.map, createdResponse, Job.rename] at hs

theorem QueueStats.queuedCount_of_toValue {s s' : QueueStats} (h : s.toValue = s'.toValue) :
    s.queuedCount = s'.queuedCount := by
  simp only [QueueStats.toValue, Value.int, Value.object.injEq, List.cons.injEq, Prod.mk.injEq,
    Value.number.injEq, Int.cast_inj, Int.ofNat_inj, true_and] at h
  exact h.2.2.1

def Job.withStatus (status : JobStatus) (j : Job) : Job := { j with status := status }

theorem Job.withStatus_id (status : JobStatus) (j : Job) : (j.withStatus status).id = j.id := rfl

theorem isolated_queueStats {queueId : Uuid}
    (h : Isolated cron now id correlationId userId db (.queueStats queueId)) :
    OwnRowsOnly userId db (.queueStats queueId) := by
  intro q hq hm j hj hjq
  by_contra hforeign
  have hfind : db.jobs.find? j.id = some j := Table.find?_of_mem hj
  -- the foreign job as a queued one, and as a running one
  have hagree := fun status => agreeFor_updateJob hfind (Bool.eq_false_iff.mpr hforeign)
    (Job.withStatus_id status) fun _ => rfl
  have hs := h.same (hagree .queued) (hagree .running)
  have hid : q.id = queueId := Table.key_of_find? hq
  obtain ⟨l₁, l₂, -, hrows⟩ := rows_updateJob hfind
  have hstats : ∀ status, getStats (db.updateJob j.id (Job.withStatus status) (Job.withStatus_id status)) userId queueId =
      .ok (repositoryStats (db.updateJob j.id (Job.withStatus status) (Job.withStatus_id status)) q) := by
    intro status
    rw [getStats_eq]
    show (match db.queues.find? queueId with
      | none => _
      | some q => if isMember db q.projectId userId then _ else _) = _
    rw [hq]
    exact if_pos hm
  have hqueued : ∀ status, (repositoryStats
      (db.updateJob j.id (Job.withStatus status) (Job.withStatus_id status)) q).queuedCount =
      (((l₁ ++ l₂).filter fun r => decide (r.queueId = q.id)).countP (fun r => decide (r.status = .queued)) +
        if status = .queued then 1 else 0) *
      max 1 (db.deadLetterQueue.rows.filter fun d => decide (d.queueId = q.id)).length := by
    intro status
    have hjobs := hrows (Job.withStatus status) (Job.withStatus_id status)
    have hentries : (db.updateJob j.id (Job.withStatus status) (Job.withStatus_id status)).deadLetterQueue =
      db.deadLetterQueue := rfl
    simp only [repositoryStats_eq, hjobs, hentries]
    congr 1
    simp [Job.withStatus, hjq, hid, List.countP_cons]
    ring
  rw [respond_queueStats, respond_queueStats, hstats, hstats] at hs
  have hcount := QueueStats.queuedCount_of_toValue (HttpResponse.mk.inj hs).2
  rw [hqueued, hqueued, if_pos rfl, if_neg (by decide)] at hcount
  have hpos : 0 < max 1 (db.deadLetterQueue.rows.filter fun d => decide (d.queueId = q.id)).length := by omega
  have := Nat.eq_of_mul_eq_mul_right hpos hcount
  omega

theorem head?_of_listJobs {d₁ d₂ : Db} {queueId : Uuid} {params : ListJobsQuery}
    (hl : 0 < params.limit) (ho : 0 ≤ params.offset)
    (h : (ReadRequest.listJobs queueId params).respond cron now id correlationId ⟨some userId⟩ d₁ =
      (ReadRequest.listJobs queueId params).respond cron now id correlationId ⟨some userId⟩ d₂) :
    (jobsOfQueue d₁ queueId)[params.offset.toNat]?.map Job.summaryValue =
      (jobsOfQueue d₂ queueId)[params.offset.toNat]?.map Job.summaryValue := by
  simp only [ReadRequest.respond, Handlers.listJobs, page_ok hl.le ho, Except.mapError, bind, Except.bind, pure,
    Except.pure, intoResponse, HttpResponse.mk.injEq, Value.object.injEq, List.cons.injEq, Prod.mk.injEq,
    Value.array.injEq, true_and, and_true] at h
  have hhead := congrArg List.head? h
  rwa [List.head?_map, List.head?_map, head?_page hl, head?_page hl] at hhead

def Job.createdOn (t : Timestamp) (j : Job) : Job := { j with createdAt := t }

theorem Job.createdOn_id (t : Timestamp) (j : Job) : (j.createdOn t).id = j.id := rfl

theorem Job.summaryValue_inj {j j' : Job} (h : j.summaryValue = j'.summaryValue) :
    (j.id, j.createdAt) = (j'.id, j'.createdAt) := by
  simp only [Job.summaryValue, Value.object.injEq, List.cons.injEq, Prod.mk.injEq, Value.uuid.injEq,
    Value.timestamp.injEq, true_and, and_true] at h
  exact Prod.ext h.1 h.2.2.2.2.2.2.2.2.1

theorem jobsOfQueue_createdOn {j : Job} (hj : db.jobs.find? j.id = some j) :
    ∃ rest lo hi, lo < hi ∧ ((j.id :: rest.map Job.id).Nodup) ∧
      (db.jobs.count fun r => decide (r.queueId = j.queueId)) = rest.length + 1 ∧
      jobsOfQueue (db.updateJob j.id (Job.createdOn hi) (Job.createdOn_id hi)) j.queueId = j.createdOn hi :: rest ∧
      jobsOfQueue (db.updateJob j.id (Job.createdOn lo) (Job.createdOn_id lo)) j.queueId = rest ++ [j.createdOn lo] := by
  obtain ⟨l₁, l₂, hrows, hupdate⟩ := rows_updateJob hj
  let p : Job → Bool := fun r => decide (r.queueId = j.queueId)
  obtain ⟨lo, hi, hlt, hbounds⟩ := exists_bounds Job.createdAt (l₁.filter p ++ l₂.filter p)
  have hperm := orderByDesc_perm (k := Job.createdAt) (l₁.filter p ++ l₂.filter p)
  have hfilter : ∀ t, (db.updateJob j.id (Job.createdOn t) (Job.createdOn_id t)).jobs.rows.filter p =
      l₁.filter p ++ j.createdOn t :: l₂.filter p := by
    intro t
    rw [hupdate, List.filter_append, List.filter_cons, if_pos]
    exact decide_eq_true rfl
  refine ⟨orderByDesc Job.createdAt (l₁.filter p ++ l₂.filter p), lo, hi, hlt, ?_, ?_, ?_, ?_⟩
  · have hnd : ((j :: (l₁ ++ l₂)).map Job.id).Nodup := by
      refine (List.Perm.map Job.id ?_).nodup_iff.mp db.jobs.nodup
      rw [hrows]
      exact List.perm_middle
    have hsub : (j :: (l₁.filter p ++ l₂.filter p)).Sublist (j :: (l₁ ++ l₂)) :=
      (List.filter_sublist.append List.filter_sublist).cons_cons j
    exact ((hperm.cons j).map Job.id).nodup_iff.mpr (hnd.sublist (hsub.map Job.id))
  · rw [Table.count, List.countP_eq_length_filter, hrows, List.filter_append,
      List.filter_cons, if_pos (decide_eq_true rfl), length_orderByDesc, List.length_append, List.length_append,
      List.length_cons]
    rfl
  · rw [jobsOfQueue, hfilter]
    exact orderByDesc_top _ _ (fun x hx => (hbounds x (List.mem_append_left _ hx)).2)
      fun x hx => (hbounds x (List.mem_append_right _ hx)).2
  · rw [jobsOfQueue, hfilter]
    exact orderByDesc_bottom _ _ (fun x hx => (hbounds x (List.mem_append_left _ hx)).1)
      fun x hx => (hbounds x (List.mem_append_right _ hx)).1

theorem isolated_listJobs {queueId : Uuid} {params : ListJobsQuery}
    (h : Isolated cron now id correlationId userId db (.listJobs queueId params)) :
    OwnRowsOnly userId db (.listJobs queueId params) := by
  by_contra hown
  obtain ⟨hshow, hforeign⟩ := not_or.mp hown
  simp only [showsNothing, not_or, not_le, not_lt] at hshow
  push Not at hforeign
  obtain ⟨j, hj, rfl, hm⟩ := hforeign
  have hfind : db.jobs.find? j.id = some j := Table.find?_of_mem hj
  -- the foreign job as the newest of the queue, and as the oldest
  obtain ⟨rest, lo, hi, hlt, hnd, hcount, hnewest, holdest⟩ := jobsOfQueue_createdOn hfind
  have hagree := fun t => agreeFor_updateJob hfind (Bool.eq_false_iff.mpr hm) (Job.createdOn_id t) fun _ => rfl
  have hhead := head?_of_listJobs hshow.1 hshow.2.1 (h.same (hagree hi) (hagree lo))
  rw [hnewest, holdest] at hhead
  have hkeys : ((j.createdOn hi :: rest).map fun r => (r.id, r.createdAt))[params.offset.toNat]? =
      ((rest ++ [j.createdOn lo]).map fun r => (r.id, r.createdAt))[params.offset.toNat]? := by
    rw [List.getElem?_map, List.getElem?_map]
    exact map_eq_of_map_eq (fun _ _ => Job.summaryValue_inj) hhead
  have hmem : ∀ t, (j.id, t) ∉ rest.map fun r => (r.id, r.createdAt) := by
    intro t ht
    obtain ⟨r, hr, he⟩ := List.mem_map.mp ht
    exact (List.nodup_cons.mp hnd).1 (List.mem_map.mpr ⟨r, hr, (Prod.mk.inj he).1⟩)
  refine getElem?_rotate_ne (n := params.offset.toNat) ?_ (hmem hi) (hmem lo) ?_ ?_
    (by simpa [Job.createdOn] using hkeys)
  · exact fun he => hlt.ne' (Prod.mk.inj he).2
  · refine List.Nodup.of_map Prod.fst ?_
    rw [List.map_map]
    exact (List.nodup_cons.mp hnd).2
  · rw [List.length_map]
    omega

theorem map_map_ne {ρ α : Type} {rows : List ρ} (hne : rows ≠ []) {f : ρ → ρ} {g : ρ → α}
    (h : ∀ r, g (f r) ≠ g r) : (rows.map f).map g ≠ rows.map g := by
  cases rows with
  | nil => exact absurd rfl hne
  | cons a l => exact fun he => h a (List.cons.inj he).1

def JobExecution.flip (e : JobExecution) : JobExecution := { e with success := !e.success }

theorem JobExecution.flip_id (e : JobExecution) : e.flip.id = e.id := rfl

theorem isolated_listJobExecutions {jobId : Uuid}
    (h : Isolated cron now id correlationId userId db (.listJobExecutions jobId)) :
    OwnRowsOnly userId db (.listJobExecutions jobId) := by
  by_contra hown
  obtain ⟨hsome, hforeign⟩ := not_or.mp hown
  push Not at hsome hforeign
  obtain ⟨e, he, hej⟩ := hsome
  obtain ⟨j, hj, hm⟩ := hforeign
  let db' : Db := { db with
    jobExecutions := db.jobExecutions.update (fun e => decide (e.jobId = jobId)) JobExecution.flip
      JobExecution.flip_id }
  have hagree : AgreeFor userId db db' := by
    refine ⟨sameRows_refl, sameRows_map (fun r => ?_) (fun r hr hv => ?_), sameRows_refl, rfl⟩
    · by_cases hr : r.jobId = jobId <;> simp [hr, JobExecution.flip, JobExecution.keyColumns]
    · have hr : r.jobId ≠ jobId := fun hr => hm (hv j (hr ▸ hj))
      simp [hr]
  have hlist : listExecutions db' jobId = (listExecutions db jobId).map JobExecution.flip :=
    orderByDesc_filter_map_if (fun _ => rfl) fun _ => rfl
  have hs := h db' hagree
  simp only [ReadRequest.respond, Handlers.listJobExecutions, intoResponse, hlist, HttpResponse.mk.injEq,
    Value.object.injEq, List.cons.injEq, Prod.mk.injEq, Value.array.injEq, true_and, and_true] at hs
  refine map_map_ne ?_ (fun r => ?_) hs
  · refine List.ne_nil_of_mem ((orderByDesc_perm _).mem_iff.mpr (List.mem_filter.mpr ⟨he, ?_⟩))
    simpa using hej
  · simp [JobExecution.toValue, JobExecution.flip]

def DeadLetterEntry.rename (d : DeadLetterEntry) : DeadLetterEntry := { d with jobName := d.jobName ++ "*" }

theorem DeadLetterEntry.rename_id (d : DeadLetterEntry) : d.rename.id = d.id := rfl

theorem isolated_listDlq {params : ListDlqQuery}
    (h : Isolated cron now id correlationId userId db (.listDlq params)) :
    OwnRowsOnly userId db (.listDlq params) := by
  by_contra hown
  obtain ⟨hshow, hm⟩ := not_or.mp hown
  simp only [showsNothing, not_or, not_le, not_lt] at hshow
  obtain ⟨hl, ho, hcount⟩ := hshow
  let db' : Db := { db with
    deadLetterQueue := db.deadLetterQueue.update (fun d => decide (d.projectId = params.projectId))
      DeadLetterEntry.rename DeadLetterEntry.rename_id }
  have hagree : AgreeFor userId db db' := by
    refine ⟨sameRows_refl, sameRows_refl, sameRows_map (fun r => ?_) (fun r hr hv => ?_), rfl⟩
    · by_cases hr : r.projectId = params.projectId <;>
        simp [hr, DeadLetterEntry.rename, DeadLetterEntry.keyColumns]
    · have hr : r.projectId ≠ params.projectId := fun hr => hm (hr ▸ hv)
      simp [hr]
  have hlist : entriesOfProject db' params.projectId =
      (entriesOfProject db params.projectId).map DeadLetterEntry.rename :=
    orderByDesc_filter_map_if (fun _ => rfl) fun _ => rfl
  have hs := h db' hagree
  simp only [ReadRequest.respond, Handlers.listDlq, page_ok hl.le ho, hlist, Except.mapError, bind, Except.bind,
    pure, Except.pure, intoResponse, HttpResponse.mk.injEq, Value.object.injEq, List.cons.injEq, Prod.mk.injEq,
    Value.array.injEq, true_and, and_true, ← List.map_drop, ← List.map_take] at hs
  refine map_map_ne ?_ (fun r => ?_) hs
  · have hlen : (entriesOfProject db params.projectId).length =
        db.deadLetterQueue.count fun d => decide (d.projectId = params.projectId) := by
      rw [entriesOfProject, length_orderByDesc, Table.count, List.countP_eq_length_filter]
    apply List.ne_nil_of_length_pos
    rw [List.length_take, List.length_drop, hlen]
    omega
  · simp [DeadLetterEntry.toValue, DeadLetterEntry.rename]

end Leaks

/-- Project isolation of the reads: exactly the requests in whose answer no row of another project
takes part are answered without regard to what other projects hold. -/
theorem read_isolation_iff (cron : Cron) (now : Timestamp) (id correlationId userId : Uuid) (db : Db)
    (r : ReadRequest) :
    Isolated cron now id correlationId userId db r ↔ OwnRowsOnly userId db r := by
  constructor
  · intro h
    cases r with
    | getJob jobId => exact isolated_getJob h
    | listJobs queueId params => exact isolated_listJobs h
    | listJobExecutions jobId => exact isolated_listJobExecutions h
    | listDlq params => exact isolated_listDlq h
    | queueStats queueId => exact isolated_queueStats h
    | createJob queueId req => exact isolated_createJob h
  · exact isolated_of_ownRows

namespace Sample

/-- Job 100 of project 20, to which user 31 does not belong. -/
def tenantDb : Db :=
  { db with jobs := ⟨[newJob 0 100 100 queue (request 3)], List.nodup_singleton _⟩ }

theorem foreign_job_shown :
    AgreeFor 31 tenantDb (tenantDb.updateJob 100 Job.rename Job.rename_id) ∧
      (ReadRequest.getJob 100).respond cron 0 0 0 ⟨some 31⟩
          (tenantDb.updateJob 100 Job.rename Job.rename_id) ≠
        (ReadRequest.getJob 100).respond cron 0 0 0 ⟨some 31⟩ tenantDb := by
  have hj : tenantDb.jobs.find? 100 = some (newJob 0 100 100 queue (request 3)) := rfl
  refine ⟨agreeFor_updateJob hj (by decide) Job.rename_id fun _ => rfl, ?_⟩
  have hrenamed := find?_updateJob hj Job.rename_id
  simp only [ReadRequest.respond, Handlers.getJob, hrenamed, hj, intoResponse]
  simp [Job.toValue, Job.rename]

end Sample

end JobScheduler
