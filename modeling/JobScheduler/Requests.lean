import JobScheduler.Poller
import JobScheduler.Rows

namespace JobScheduler
open Relational Transition

/-- A call of a service, as a client submits it. -/
inductive Request
  | createJob (queueId userId : Uuid) (req : CreateJobRequest)
  | cancelJob (jobId userId : Uuid)
  | retryJob (dlqId retriedBy : Uuid)
  | setPaused (queueId userId : Uuid) (paused : Bool)

/-- The next statement of a call that is under way, with what its earlier statements have read. -/
inductive Call
  | createLookup (queueId userId : Uuid) (req : CreateJobRequest)
  | createFind (queueId userId : Uuid) (req : CreateJobRequest)
  | createRole (queue : Queue) (userId : Uuid) (req : CreateJobRequest)
  | createInsert (queue : Queue) (userId : Uuid) (req : CreateJobRequest)
  | cancelFind (jobId userId : Uuid)
  | cancelRole (job : Job) (userId : Uuid)
  | cancelUpdate (job : Job) (userId : Uuid)
  | retryFind (dlqId retriedBy : Uuid)
  | retryCheck (entry : DeadLetterEntry) (retriedBy : Uuid)
  | retryRole (entry : DeadLetterEntry) (retriedBy : Uuid)
  | retryCommit (entry : DeadLetterEntry) (retriedBy : Uuid)
  | pauseFind (queueId userId : Uuid) (paused : Bool)
  | pauseRole (queue : Queue) (userId : Uuid) (paused : Bool)
  | pauseUpdate (queue : Queue) (userId : Uuid) (paused : Bool)

inductive Response
  | created (r : Except JobServiceError Job)
  | cancelled (r : Except JobServiceError Unit)
  | retried (r : Except DlqServiceError Unit)
  | paused (r : Except QueueServiceError Unit)

/-- What the environment decides in one statement: the identifiers drawn, and how it ends. -/
structure Io where
  id : Uuid
  correlationId : Uuid
  outcome : CommitOutcome

/-- A `SELECT` changes nothing; `lost` is the answer when its result does not arrive. -/
def Io.read (io : Io) (db : Db) (lost : Response) (r : Call ⊕ Response) : Db × (Call ⊕ Response) :=
  (db, if io.outcome = .acknowledged then r else .inr lost)

/-- A statement or transaction that writes: what it leaves, and what the caller gets to know. -/
def Io.write {α ε : Type} (io : Io) (db : Db) (lost : ε) (r : Except ε (α × Db)) : Db × Except ε α :=
  match io.outcome, r with
  | .acknowledged, .ok (a, db') => (db', .ok a)
  | .acknowledged, .error e => (db, .error e)
  | .lostAfter, .ok (_, db') => (db', .error lost)
  | _, _ => (db, .error lost)

def Request.start : Request → Call
  | .createJob queueId userId req => .createLookup queueId userId req
  | .cancelJob jobId userId => .cancelFind jobId userId
  | .retryJob dlqId retriedBy => .retryFind dlqId retriedBy
  | .setPaused queueId userId paused => .pauseFind queueId userId paused

namespace Call

/-- One statement of a call, on the database as it is then; the call goes on, or answers. -/
def step (cron : Cron) (db : Db) (now : Timestamp) (io : Io) : Call → Db × (Call ⊕ Response)
  | .createLookup queueId userId req =>
    match req.idempotencyKey with
    | none => (db, .inl (.createFind queueId userId req))
    | some key =>
      io.read db (.created (.error (.database .connection))) <|
        match findByIdempotencyKey db key queueId with
        | some existing => .inr (.created (.ok existing))
        | none => .inl (.createFind queueId userId req)
  | .createFind queueId userId req =>
    io.read db (.created (.error (.database .connection))) <|
      match db.queues.find? queueId with
      | none => .inr (.created (.error (.queueNotFound queueId)))
      | some queue =>
        if !queue.isAcceptingJobs then .inr (.created (.error (.queuePaused queueId)))
        else .inl (.createRole queue userId req)
  | .createRole queue userId req =>
    io.read db (.created (.error (.database .connection))) <|
      match getMemberRole db queue.projectId userId with
      | none => .inr (.created (.error .forbidden))
      | some role =>
        if role = .viewer then .inr (.created (.error .forbidden)) else .inl (.createInsert queue userId req)
  | .createInsert queue _ req =>
    -- the expression is validated before anything is sent
    match validateCron cron req with
    | .error e => (db, .inr (.created (.error e)))
    | .ok _ =>
      let w := io.write db (.database .connection) (createJobInsert cron db now io.id io.correlationId queue req)
      (w.1, .inr (.created w.2))
  | .cancelFind jobId userId =>
    io.read db (.cancelled (.error (.database .connection))) <|
      match db.jobs.find? jobId with
      | none => .inr (.cancelled (.error (.queueNotFound jobId)))
      | some job => .inl (.cancelRole job userId)
  | .cancelRole job userId =>
    io.read db (.cancelled (.error (.database .connection))) <|
      match getMemberRole db job.projectId userId with
      | none => .inr (.cancelled (.error .forbidden))
      | some role =>
        if role = .viewer then .inr (.cancelled (.error .forbidden)) else .inl (.cancelUpdate job userId)
  | .cancelUpdate job _ =>
    let w := io.write db (.database .connection) (.ok ((), cancelJobUpdate db now job.id))
    (w.1, .inr (.cancelled w.2))
  | .retryFind dlqId retriedBy =>
    io.read db (.retried (.error (.database .connection))) <|
      match db.deadLetterQueue.find? dlqId with
      | none => .inr (.retried (.error (.dlqEntryNotFound dlqId)))
      | some entry => .inl (.retryCheck entry retriedBy)
  | .retryCheck entry retriedBy =>
    -- no statement: the entry read before is looked at
    (db, if entry.manuallyRetriedAt.isSome then .inr (.retried (.error (.alreadyRetried entry.id)))
      else .inl (.retryRole entry retriedBy))
  | .retryRole entry retriedBy =>
    io.read db (.retried (.error (.database .connection))) <|
      match getMemberRole db entry.projectId retriedBy with
      | none => .inr (.retried (.error .forbidden))
      | some role =>
        if role = .viewer then .inr (.retried (.error .forbidden)) else .inl (.retryCommit entry retriedBy)
  | .retryCommit entry retriedBy =>
    let w := io.write db (.database .connection) ((retryJobCommit db now entry retriedBy).map fun db' => ((), db'))
    (w.1, .inr (.retried w.2))
  | .pauseFind queueId userId paused =>
    io.read db (.paused (.error (.database .connection))) <|
      match db.queues.find? queueId with
      | none => .inr (.paused (.error (.queueNotFound queueId)))
      | some queue => .inl (.pauseRole queue userId paused)
  | .pauseRole queue userId paused =>
    io.read db (.paused (.error (.database .connection))) <|
      match requireProjectWriter db queue.projectId userId with
      | .error e => .inr (.paused (.error e))
      | .ok _ => .inl (.pauseUpdate queue userId paused)
  | .pauseUpdate queue _ paused =>
    let w := io.write db (.database .connection) (.ok ((), setPaused db now queue.id paused))
    (w.1, .inr (.paused w.2))

def run (cron : Cron) (now : Timestamp) (id correlationId : Uuid) : ℕ → Db → Call → Option (Db × Response)
  | 0, _, _ => none
  | n + 1, db, call =>
    match call.step cron db now ⟨id, correlationId, .acknowledged⟩ with
    | (db', .inl call') => run cron now id correlationId n db' call'
    | (db', .inr r) => some (db', r)

end Call

def reported {α ε : Type} (db : Db) (respond : Except ε α → Response) : Except ε (α × Db) → Db × Response
  | .ok (a, db') => (db', respond (.ok a))
  | .error e => (db, respond (.error e))

/-! ## Without interleaving, a call is the service function -/

section Sequential
variable {cron : Cron} {db : Db} {now : Timestamp} {id correlationId : Uuid}

theorem createJob_of_new {queueId userId : Uuid} {req : CreateJobRequest}
    (h : ∀ key, req.idempotencyKey = some key → findByIdempotencyKey db key queueId = none) :
    createJob cron db now id correlationId queueId userId req =
      match db.queues.find? queueId with
      | none => .error (.queueNotFound queueId)
      | some queue =>
        if !queue.isAcceptingJobs then .error (.queuePaused queueId)
        else
          match getMemberRole db queue.projectId userId with
          | none => .error .forbidden
          | some role =>
            if role = .viewer then .error .forbidden
            else createJobInsert cron db now id correlationId queue req := by
  cases hq : db.queues.find? queueId with
  | none => cases hkey : req.idempotencyKey <;> simp_all [createJob]
  | some queue =>
    cases hr : getMemberRole db queue.projectId userId with
    | none => cases hkey : req.idempotencyKey <;> simp_all [createJob, bind, Except.bind]
    | some role => cases hkey : req.idempotencyKey <;> simp_all [createJob, bind, Except.bind]

theorem createJob_of_existing {queueId userId : Uuid} {req : CreateJobRequest} {key : String} {job : Job}
    (hkey : req.idempotencyKey = some key) (h : findByIdempotencyKey db key queueId = some job) :
    createJob cron db now id correlationId queueId userId req = .ok (job, db) := by
  simp [createJob, hkey, h, pure, Except.pure]

theorem run_createFind {queueId userId : Uuid} {req : CreateJobRequest}
    (h : ∀ key, req.idempotencyKey = some key → findByIdempotencyKey db key queueId = none) :
    (Call.createFind queueId userId req).run cron now id correlationId 3 db =
      some (reported db .created (createJob cron db now id correlationId queueId userId req)) := by
  rw [createJob_of_new h]
  cases hq : db.queues.find? queueId with
  | none => simp [Call.run, Call.step, Io.read, hq, reported]
  | some queue =>
    cases ha : queue.isAcceptingJobs with
    | false => simp [Call.run, Call.step, Io.read, hq, ha, reported]
    | true =>
      cases hr : getMemberRole db queue.projectId userId with
      | none => simp [Call.run, Call.step, Io.read, hq, ha, hr, reported]
      | some role =>
        by_cases hv : role = .viewer
        · simp [Call.run, Call.step, Io.read, hq, ha, hr, hv, reported]
        · cases hc : validateCron cron req with
          | error e =>
            simp [Call.run, Call.step, Io.read, hq, ha, hr, hv, hc, createJobInsert, bind, Except.bind, reported]
          | ok u =>
            cases hi : createJobInsert cron db now id correlationId queue req <;>
              simp [Call.run, Call.step, Io.read, Io.write, hq, ha, hr, hv, hc, hi, reported]

theorem run_createJob (queueId userId : Uuid) (req : CreateJobRequest) :
    (Request.createJob queueId userId req).start.run cron now id correlationId 4 db =
      some (reported db .created (createJob cron db now id correlationId queueId userId req)) := by
  cases hkey : req.idempotencyKey with
  | none =>
    rw [← run_createFind (by simp [hkey])]
    simp [Request.start, hkey, Call.run, Call.step]
  | some key =>
    cases he : findByIdempotencyKey db key queueId with
    | some job =>
      rw [createJob_of_existing hkey he]
      simp [Request.start, hkey, Call.run, Call.step, Io.read, he, reported]
    | none =>
      rw [← run_createFind (by simp [hkey, he])]
      simp [Request.start, hkey, Call.run, Call.step, Io.read, he]

theorem run_cancelJob (jobId userId : Uuid) :
    (Request.cancelJob jobId userId).start.run cron now id correlationId 3 db =
      some (reported db .cancelled ((cancelJob db now jobId userId).map fun db' => ((), db'))) := by
  simp only [Request.start, cancelJob, bind, Except.bind, pure, Except.pure]
  cases hj : db.jobs.find? jobId with
  | none => simp [Call.run, Call.step, Io.read, hj, reported, Except.map]
  | some job =>
    have hid : job.id = jobId := Table.key_of_find? hj
    cases hr : getMemberRole db job.projectId userId with
    | none => simp [Call.run, Call.step, Io.read, hj, hr, reported, Except.map]
    | some role =>
      by_cases hv : role = .viewer <;>
        simp [Call.run, Call.step, Io.read, Io.write, hj, hr, hv, hid, reported, Except.map]

theorem run_retryJob (dlqId retriedBy : Uuid) :
    (Request.retryJob dlqId retriedBy).start.run cron now id correlationId 4 db =
      some (reported db .retried ((retryJob db now dlqId retriedBy).map fun db' => ((), db'))) := by
  simp only [Request.start, retryJob, bind, Except.bind]
  cases hd : db.deadLetterQueue.find? dlqId with
  | none => simp [Call.run, Call.step, Io.read, hd, reported, Except.map]
  | some entry =>
    have hid : entry.id = dlqId := Table.key_of_find? hd
    cases hm : entry.manuallyRetriedAt with
    | some at' => simp [Call.run, Call.step, Io.read, hd, hm, hid, reported, Except.map]
    | none =>
      cases hr : getMemberRole db entry.projectId retriedBy with
      | none => simp [Call.run, Call.step, Io.read, hd, hm, hr, reported, Except.map]
      | some role =>
        by_cases hv : role = .viewer
        · simp [Call.run, Call.step, Io.read, hd, hm, hr, hv, reported, Except.map]
        · cases hc : retryJobCommit db now entry retriedBy <;>
            simp [Call.run, Call.step, Io.read, Io.write, hd, hm, hr, hv, hc, reported, Except.map]

theorem run_pauseQueue (queueId userId : Uuid) (paused : Bool) :
    (Request.setPaused queueId userId paused).start.run cron now id correlationId 3 db =
      some (reported db .paused ((pauseQueue db now userId queueId paused).map fun db' => ((), db'))) := by
  simp only [Request.start, pauseQueue, queueForAction, bind, Except.bind, pure, Except.pure]
  cases hq : db.queues.find? queueId with
  | none => simp [Call.run, Call.step, Io.read, hq, reported, Except.map]
  | some queue =>
    cases hr : requireProjectWriter db queue.projectId userId <;>
      simp [Call.run, Call.step, Io.read, Io.write, hq, hr, reported, Except.map]

end Sequential

/-! ## Calls among the other steps -/

/-- The scheduler with its pollers, and the calls under way, each under its number. -/
structure Api where
  polls : PollSys
  calls : ℕ → Option Call

/-- A step of the scheduler or of a poller, a new call, the next statement of one, or the end of a
call whose client has gone. -/
inductive ApiLabel
  | poll (pl : PollLabel)
  | submit (call : ℕ) (request : Request)
  | advance (call : ℕ) (io : Io)
  | abandon (call : ℕ)

def Label.byRequest : Label → Bool
  | .createJob _ _ _ _ | .cancelJob _ | .retryJob _ _ | .retryJobCommit _ _ | .setPaused _ _ => true
  | _ => false

namespace Api

def core (s : Api) : Sys := s.polls.core

def reply (s : Api) (c : ℕ) (r : Db × (Call ⊕ Response)) : Api where
  polls := { s.polls with core := { s.core with db := r.1 } }
  calls := Function.update s.calls c r.2.getLeft?

@[simp] theorem reply_db (s : Api) (c : ℕ) (r : Db × (Call ⊕ Response)) : (s.reply c r).core.db = r.1 := rfl

@[simp] theorem reply_calls (s : Api) (c : ℕ) (r : Db × (Call ⊕ Response)) :
    (s.reply c r).calls c = r.2.getLeft? := Function.update_self ..

def next (cron : Cron) (s : Api) : ApiLabel → Option Api
  | .poll pl =>
    match pl with
    | .core l => if l.byRequest then none else (s.polls.next cron pl).map fun p => { s with polls := p }
    | _ => (s.polls.next cron pl).map fun p => { s with polls := p }
  | .submit c request =>
    match s.calls c with
    | none => some { s with calls := Function.update s.calls c (some request.start) }
    | some _ => none
  | .advance c io => (s.calls c).map fun call => s.reply c (call.step cron s.core.db s.core.now io)
  | .abandon c => some { s with calls := Function.update s.calls c none }

def response (cron : Cron) (s : Api) : ApiLabel → Option Response
  | .advance c io => (s.calls c).bind fun call => (call.step cron s.core.db s.core.now io).2.getRight?
  | _ => none

structure Initial (s : Api) : Prop where
  polls : s.polls.Initial
  calls : ∀ c, s.calls c = none

end Api

def api (cron : Cron) : System Api ApiLabel := ⟨Api.Initial, Api.next cron⟩

/-! ## Calls as steps of the scheduler -/

/-- The user may write to the project: a member of it, and no viewer. -/
def isWriter (db : Db) (projectId userId : Uuid) : Bool :=
  (getMemberRole db projectId userId).any fun role => decide (role ≠ .viewer)

/-- Membership is a row of `project_members`, whatever its role. -/
def isMember (db : Db) (projectId userId : Uuid) : Bool := (getMemberRole db projectId userId).isSome

/-- The step of the scheduler that a statement of a call is, when it reaches the server. -/
def Call.write (io : Io) (call : Call) : Option Label :=
  if io.outcome = .lostBefore then none
  else
    match call with
    | .createInsert queue _ req => some (.createJob io.id io.correlationId queue req)
    | .cancelUpdate job _ => some (.cancelJob job.id)
    | .retryCommit entry retriedBy => some (.retryJobCommit entry.id retriedBy)
    | .pauseUpdate queue _ paused => some (.setPaused queue.id paused)
    | _ => none

def Api.coreLabel (s : Api) : ApiLabel → Option Label
  | .poll (.core l) => if l.byRequest then none else some l
  | .poll (.claimNextJob w locked) =>
    match s.polls.stage w with
    | .counted q => some (.claim w q.id locked)
    | _ => none
  | .advance c io => (s.calls c).bind (Call.write io)
  | _ => none

def Api.requeued (s : Api) : ApiLabel → Option DeadLetterEntry
  | .advance c io =>
    match s.calls c with
    | some (.retryCommit entry retriedBy) =>
      if io.outcome ≠ .lostBefore && (retryJobCommit s.core.db s.core.now entry retriedBy).isOk then some entry
      else none
    | _ => none
  | _ => none

/-- What still holds of the rows that a call has read, and of the role it has checked. -/
def Call.Known (db : Db) : Call → Prop
  | .createRole queue _ _ | .createInsert queue _ _ =>
    (∃ q, db.queues.find? queue.id = some q ∧ q.projectId = queue.projectId) ∧
      queue.foreignKeys db.parents = true
  | .cancelRole job _ | .cancelUpdate job _ => ∃ r, db.jobs.find? job.id = some r
  | .retryCheck entry _ | .retryRole entry _ =>
    ∃ d, db.deadLetterQueue.find? entry.id = some d ∧ d.content = entry.content
  | .retryCommit entry retriedBy =>
    (∃ d, db.deadLetterQueue.find? entry.id = some d ∧ d.content = entry.content) ∧
      isWriter db entry.projectId retriedBy = true
  | .pauseRole queue _ _ | .pauseUpdate queue _ _ => ∃ q, db.queues.find? queue.id = some q
  | _ => True

section Calls
variable {cron : Cron} {s : Sys} {io : Io} {call call' : Call} {db db' : Db} {now : Timestamp}

theorem isWriter_eq {role : UserRole} {projectId userId : Uuid}
    (h : getMemberRole db projectId userId = some role) (hv : role ≠ .viewer) :
    isWriter db projectId userId = true := by
  simp [isWriter, h, hv]

theorem retryJob_of_waiting {dlqId retriedBy : Uuid} {d : DeadLetterEntry}
    (hd : db.deadLetterQueue.find? dlqId = some d) (hn : d.manuallyRetriedAt = none)
    (hw : isWriter db d.projectId retriedBy = true) :
    retryJob db now dlqId retriedBy = retryJobCommit db now d retriedBy := by
  obtain ⟨role, hr, hv⟩ := Option.any_eq_true _ _ |>.mp hw
  have hv : role ≠ .viewer := by simpa using hv
  simp [retryJob, hd, hn, hr, hv]

theorem Call.Known.grows (h : call.Known db) (hg : db.Grows db') : call.Known db' := by
  have hdead {entry : DeadLetterEntry}
      (hd : ∃ d, db.deadLetterQueue.find? entry.id = some d ∧ d.content = entry.content) :
      ∃ d, db'.deadLetterQueue.find? entry.id = some d ∧ d.content = entry.content := by
    obtain ⟨d, hd, hc⟩ := hd
    obtain ⟨d', hd', hc', _⟩ := hg.dead _ d hd
    exact ⟨d', hd', hc'.trans hc⟩
  cases call with
  | createRole queue _ _ | createInsert queue _ _ =>
    obtain ⟨⟨q, hq, hp⟩, hfk⟩ := h
    obtain ⟨q', hq', hp'⟩ := hg.queues _ q hq
    exact ⟨⟨q', hq', hp'.trans hp⟩, by rw [hg.parents]; exact hfk⟩
  | cancelRole job _ | cancelUpdate job _ =>
    obtain ⟨r, hr⟩ := h
    obtain ⟨r', hr', _⟩ := hg.jobs _ r hr
    exact ⟨r', hr'⟩
  | retryCheck entry _ | retryRole entry _ => exact hdead h
  | retryCommit entry retriedBy =>
    refine ⟨hdead h.1, ?_⟩
    have hw := h.2
    unfold isWriter getMemberRole at hw ⊢
    rw [hg.projectMembers]
    exact hw
  | pauseRole queue _ _ | pauseUpdate queue _ _ =>
    obtain ⟨q, hq⟩ := h
    obtain ⟨q', hq', _⟩ := hg.queues _ q hq
    exact ⟨q', hq'⟩
  | _ => trivial

theorem Io.read_inl {lost : Response} {r : Call ⊕ Response} (h : (io.read db lost r).2 = .inl call) :
    r = .inl call := by
  unfold Io.read at h
  split at h
  · exact h
  · cases h

theorem Io.read_inr {lost answer : Response} {r : Call ⊕ Response} (h : (io.read db lost r).2 = .inr answer) :
    answer = lost ∨ r = .inr answer := by
  unfold Io.read at h
  split at h
  · exact .inr h
  · exact .inl (Sum.inr.inj h).symm

/-- A write either leaves the database alone and is not reported as done, or takes effect. -/
theorem Io.write_cases {α ε : Type} (io : Io) (db : Db) (lost : ε) (r : Except ε (α × Db)) :
    ((io.write db lost r).1 = db ∧ (io.write db lost r).2.isOk = false) ∨
      ∃ a db', r = .ok (a, db') ∧ io.outcome ≠ .lostBefore ∧ (io.write db lost r).1 = db' ∧
        (io.outcome = .acknowledged → (io.write db lost r).2 = .ok a) := by
  unfold Io.write
  cases io.outcome with
  | lostBefore => exact .inl ⟨rfl, rfl⟩
  | acknowledged =>
    cases r with
    | error e => exact .inl ⟨rfl, rfl⟩
    | ok p => exact .inr ⟨p.1, p.2, rfl, by simp, rfl, fun _ => rfl⟩
  | lostAfter =>
    cases r with
    | error e => exact .inl ⟨rfl, rfl⟩
    | ok p => exact .inr ⟨p.1, p.2, rfl, by simp, rfl, by simp⟩

theorem Io.write_ok {α ε : Type} {lost : ε} {r : Except ε (α × Db)} {a : α} (h : (io.write db lost r).2 = .ok a) :
    io.outcome = .acknowledged ∧ ∃ db', r = .ok (a, db') ∧ (io.write db lost r).1 = db' := by
  unfold Io.write at h ⊢
  cases hc : io.outcome with
  | acknowledged =>
    cases r with
    | error e => simp [hc] at h
    | ok p =>
      simp only [hc, Except.ok.injEq] at h
      exact ⟨rfl, p.2, by rw [← h], rfl⟩
  | lostBefore => simp [hc] at h
  | lostAfter => cases r <;> simp [hc] at h

theorem Io.write_done {α ε : Type} (ho : io.outcome ≠ .lostBefore) (lost : ε) (a : α) :
    (io.write db lost (.ok (a, db'))).1 = db' := by
  unfold Io.write
  cases hc : io.outcome with
  | lostBefore => exact absurd hc ho
  | acknowledged | lostAfter => rfl

theorem Call.start_known (request : Request) : request.start.Known db := by
  cases request <;> trivial

theorem Call.Known.step (hk : call.Known db) (h : (call.step cron db now io).2 = .inl call') :
    call'.Known db := by
  cases call with
  | createLookup queueId userId req =>
    simp only [Call.step] at h
    split at h
    · cases h
      trivial
    · have hr := Io.read_inl h
      split at hr <;> cases hr
      trivial
  | createFind queueId userId req =>
    have hr := Io.read_inl h
    split at hr
    · cases hr
    · rename_i queue hq
      split at hr <;> cases hr
      exact ⟨⟨queue, by rw [Table.key_of_find? hq]; exact hq, rfl⟩, db.queues_refer queue (Table.mem_of_find? hq)⟩
  | createRole queue userId req =>
    have hr := Io.read_inl h
    split at hr
    · cases hr
    · split at hr <;> cases hr
      exact hk
  | createInsert queue userId req =>
    simp only [Call.step] at h
    split at h <;> cases h
  | cancelFind jobId userId =>
    have hr := Io.read_inl h
    split at hr
    · cases hr
    · rename_i job hj
      cases hr
      exact ⟨job, by rw [Table.key_of_find? hj]; exact hj⟩
  | cancelRole job userId =>
    have hr := Io.read_inl h
    split at hr
    · cases hr
    · split at hr <;> cases hr
      exact hk
  | retryFind dlqId retriedBy =>
    have hr := Io.read_inl h
    split at hr
    · cases hr
    · rename_i entry hd
      cases hr
      exact ⟨entry, by rw [Table.key_of_find? hd]; exact hd, rfl⟩
  | retryCheck entry retriedBy =>
    simp only [Call.step] at h
    split at h <;> cases h
    exact hk
  | retryRole entry retriedBy =>
    have hr := Io.read_inl h
    split at hr
    · cases hr
    · rename_i role hrole
      split at hr <;> cases hr
      exact ⟨hk, isWriter_eq hrole ‹_›⟩
  | pauseFind queueId userId paused =>
    have hr := Io.read_inl h
    split at hr
    · cases hr
    · rename_i queue hq
      cases hr
      exact ⟨queue, by rw [Table.key_of_find? hq]; exact hq⟩
  | pauseRole queue userId paused =>
    have hr := Io.read_inl h
    split at hr <;> cases hr
    exact hk
  | cancelUpdate _ _ | retryCommit _ _ | pauseUpdate _ _ _ => cases h

theorem content_eq {d entry : DeadLetterEntry} (h : d.content = entry.content) :
    d.id = entry.id ∧ d.jobId = entry.jobId ∧ d.projectId = entry.projectId := by
  simp only [DeadLetterEntry.content, DeadLetterEntry.mk.injEq] at h
  exact ⟨h.1, h.2.1, h.2.2.2.1⟩

theorem retryJobCommit_congr {d entry : DeadLetterEntry} (h : d.content = entry.content) (retriedBy : Uuid) :
    retryJobCommit db now d retriedBy = retryJobCommit db now entry retriedBy := by
  obtain ⟨hid, hjob, _⟩ := content_eq h
  simp only [retryJobCommit, hid, hjob]

/-- A statement of a call changes nothing, or is the step of the scheduler that `Call.write` names. -/
theorem Call.step_write (cron : Cron) (io : Io) (hk : call.Known s.db) :
    (call.step cron s.db s.now io).1 = s.db ∨ ∃ l, call.write io = some l ∧
      s.next cron l = some { s with db := (call.step cron s.db s.now io).1 } := by
  cases call with
  | createLookup queueId userId req =>
    refine .inl ?_
    simp only [Call.step]
    split <;> rfl
  | createInsert queue userId req =>
    simp only [Call.step]
    split
    · exact .inl rfl
    · rcases io.write_cases s.db (.database .connection)
          (createJobInsert cron s.db s.now io.id io.correlationId queue req) with ⟨hdb, _⟩ | ⟨job, db', hr, ho, hdb, _⟩
      · exact .inl hdb
      · refine .inr ⟨_, by rw [Call.write, if_neg ho], ?_⟩
        dsimp only
        rw [hdb]
        simp [Sys.next, hr, Except.map, Sys.withDb]
  | cancelUpdate job userId =>
    rcases io.write_cases s.db (JobServiceError.database .connection)
        (.ok ((), cancelJobUpdate s.db s.now job.id)) with ⟨hdb, _⟩ | ⟨_, db', hr, ho, hdb, _⟩
    · exact .inl hdb
    · cases hr
      refine .inr ⟨_, by rw [Call.write, if_neg ho], ?_⟩
      dsimp only [Call.step]
      rw [hdb]
      rfl
  | retryCommit entry retriedBy =>
    rcases io.write_cases s.db (.database .connection)
        ((retryJobCommit s.db s.now entry retriedBy).map fun db' => ((), db')) with ⟨hdb, _⟩ | ⟨_, db', hr, ho, hdb, _⟩
    · exact .inl hdb
    · obtain ⟨⟨d, hd, hc⟩, _⟩ := hk
      refine .inr ⟨_, by rw [Call.write, if_neg ho], ?_⟩
      dsimp only [Call.step]
      rw [hdb]
      cases hcommit : retryJobCommit s.db s.now entry retriedBy with
      | error e => simp [hcommit, Except.map] at hr
      | ok db₁ =>
        rw [hcommit] at hr
        cases hr
        simp only [Sys.next, hd, retryJobCommit_congr hc, hcommit]
        rfl
  | pauseUpdate queue userId paused =>
    rcases io.write_cases s.db (QueueServiceError.database .connection)
        (.ok ((), setPaused s.db s.now queue.id paused)) with ⟨hdb, _⟩ | ⟨_, db', hr, ho, hdb, _⟩
    · exact .inl hdb
    · cases hr
      refine .inr ⟨_, by rw [Call.write, if_neg ho], ?_⟩
      dsimp only [Call.step]
      rw [hdb]
      rfl
  | _ => exact .inl rfl

end Calls

section Projection
variable {cron : Cron} {s s' : Api} {l : ApiLabel}

theorem Api.next_poll {pl : PollLabel} (h : s.next cron (.poll pl) = some s') :
    ∃ p, s.polls.next cron pl = some p ∧ s' = { s with polls := p } := by
  have hmap : (s.polls.next cron pl).map (fun p => { s with polls := p }) = some s' := by
    cases pl with
    | core l =>
      simp only [next] at h
      split at h
      · cases h
      · exact h
    | _ => exact h
  obtain ⟨p, hp, rfl⟩ := Option.map_eq_some_iff.mp hmap
  exact ⟨p, hp, rfl⟩

theorem Api.next_advance {c : ℕ} {io : Io} {call : Call} (hc : s.calls c = some call)
    (h : s.next cron (.advance c io) = some s') : s' = s.reply c (call.step cron s.core.db s.core.now io) := by
  simpa [next, hc] using h.symm

/-- Seen from the scheduler, every step is one of its own or none. -/
theorem Api.next_core (hk : ∀ c call, s.calls c = some call → call.Known s.core.db)
    (h : s.next cron l = some s') :
    s'.core = s.core ∨ ∃ k, s.coreLabel l = some k ∧ s.core.next cron k = some s'.core := by
  cases l with
  | poll pl =>
    obtain ⟨p, hp, rfl⟩ := next_poll h
    rcases PollSys.next_core hp with hsame | ⟨l, rfl, _, hc⟩ | ⟨w, q, locked, rfl, hstage, hc⟩
    · exact .inl hsame
    · refine .inr ⟨l, ?_, hc⟩
      simp only [next] at h
      split at h
      · cases h
      · rename_i hl
        simp [coreLabel, hl]
    · exact .inr ⟨.claim w q.id locked, by simp only [coreLabel, hstage], hc⟩
  | submit c request =>
    simp only [next] at h
    split at h <;> cases h
    exact .inl rfl
  | abandon c =>
    cases h
    exact .inl rfl
  | advance c io =>
    obtain ⟨call, hcall, rfl⟩ := Option.map_eq_some_iff.mp h
    rcases Call.step_write cron io (hk c call hcall) with hdb | ⟨k, hw, hn⟩
    · refine .inl ?_
      show ({ s.core with db := (call.step cron s.core.db s.core.now io).1 } : Sys) = s.core
      rw [hdb]
    · exact .inr ⟨k, by simp [coreLabel, hcall, hw], hn⟩

theorem Api.coreLabel_byRequest {k : Label} (hl : s.coreLabel l = some k) (hk : k.byRequest = true) :
    ∃ c io call, l = .advance c io ∧ s.calls c = some call ∧ io.outcome ≠ .lostBefore ∧
      call.write io = some k := by
  cases l with
  | poll pl =>
    cases pl with
    | core l =>
      simp only [coreLabel] at hl
      split at hl
      · cases hl
      · rename_i hne
        cases hl
        exact absurd hk hne
    | claimNextJob w locked =>
      simp only [coreLabel] at hl
      split at hl <;> cases hl
      cases hk
    | _ => cases hl
  | advance c io =>
    obtain ⟨call, hcall, hw⟩ := Option.bind_eq_some_iff.mp hl
    refine ⟨c, io, call, rfl, hcall, fun ho => ?_, hw⟩
    simp [Call.write, ho] at hw
  | _ => cases hl

theorem Api.requeued_of_core {dlqId retriedBy : Uuid} {c : Sys}
    (hk : ∀ c call, s.calls c = some call → call.Known s.core.db)
    (hl : s.coreLabel l = some (.retryJobCommit dlqId retriedBy))
    (h : s.core.next cron (.retryJobCommit dlqId retriedBy) = some c) :
    ∃ entry d, s.requeued l = some entry ∧ entry.id = dlqId ∧
      s.core.db.deadLetterQueue.find? dlqId = some d ∧ d.content = entry.content := by
  obtain ⟨c, io, call, rfl, hcall, ho, hw⟩ := coreLabel_byRequest hl rfl
  unfold Call.write at hw
  rw [if_neg ho] at hw
  cases call with
  | retryCommit entry retriedBy' =>
    cases hw
    obtain ⟨⟨d, hd, hc⟩, _⟩ := hk c _ hcall
    have hok : (retryJobCommit s.core.db s.core.now entry retriedBy).isOk = true := by
      simp only [Sys.next, hd, retryJobCommit_congr hc] at h
      obtain ⟨db, hdb, _⟩ := withDb_some h
      rw [hdb]
      rfl
    exact ⟨entry, d, by simp [requeued, hcall, ho, hok], rfl, hd, hc⟩
  | _ => cases hw

theorem Api.next_grows (hk : ∀ c call, s.calls c = some call → call.Known s.core.db)
    (h : s.next cron l = some s') : s.core.db.Grows s'.core.db := by
  rcases next_core hk h with hsame | ⟨k, _, hn⟩
  · rw [hsame]
    exact .refl _
  · exact (next_tables hn).grows

theorem Api.call_before {c : ℕ} {call : Call} (h : s.next cron l = some s') (hc : s'.calls c = some call) :
    s.calls c = some call ∨ (∃ request, l = .submit c request ∧ call = request.start) ∨
      ∃ before io, l = .advance c io ∧ s.calls c = some before ∧
        (before.step cron s.core.db s.core.now io).2 = .inl call := by
  cases l with
  | poll pl =>
    obtain ⟨p, _, rfl⟩ := next_poll h
    exact .inl hc
  | submit c' request =>
    simp only [next] at h
    split at h
    · cases h
      by_cases he : c = c'
      · subst he
        simp only [Function.update_self, Option.some.injEq] at hc
        exact .inr (.inl ⟨request, rfl, hc.symm⟩)
      · exact .inl (by simpa [Function.update_of_ne he] using hc)
    · cases h
  | abandon c' =>
    cases h
    by_cases he : c = c'
    · subst he
      simp at hc
    · exact .inl (by simpa [Function.update_of_ne he] using hc)
  | advance c' io =>
    obtain ⟨before, hbefore, rfl⟩ := Option.map_eq_some_iff.mp h
    by_cases he : c = c'
    · subst he
      simp only [reply_calls, Sum.getLeft?_eq_some_iff] at hc
      exact .inr (.inr ⟨before, io, rfl, hbefore, hc⟩)
    · exact .inl (by simpa [reply, Function.update_of_ne he] using hc)

theorem Api.response_eq {c : ℕ} {io : Io} {call : Call} {answer : Response} (hc : s.calls c = some call)
    (h : s.response cron (.advance c io) = some answer) :
    (call.step cron s.core.db s.core.now io).2 = .inr answer := by
  simpa [response, hc, Sum.getRight?_eq_some_iff] using h

theorem known_of_reachable {ok : Api → ApiLabel → Prop} (h : Reachable (api cron) ok s) :
    ∀ c call, s.calls c = some call → call.Known s.core.db := by
  refine Reachable.invariant (I := fun s => ∀ c call, s.calls c = some call → call.Known s.core.db) ?_ ?_ h
  · intro s (hs : s.Initial) c call hc
    rw [hs.calls c] at hc
    cases hc
  · intro s l s' _ hk _ hn c call hc
    refine Call.Known.grows ?_ (Api.next_grows hk hn)
    rcases Api.call_before hn hc with hsame | ⟨request, _, rfl⟩ | ⟨before, io, _, hbefore, hstep⟩
    · exact hk c call hsame
    · exact Call.start_known request
    · exact (hk c before hbefore).step hstep

/-- The calls under way only restrict the order of the scheduler's steps. -/
theorem core_of_api {ok : Api → ApiLabel → Prop} (h : Reachable (api cron) ok s) :
    Reachable (scheduler cron) (fun _ _ => True) s.core := by
  refine Reachable.project Api.core (fun s (hs : s.Initial) => hs.polls.core) ?_ h
  intro s l s' hr _ hn
  rcases Api.next_core (known_of_reachable hr) hn with hsame | ⟨k, _, hk⟩
  · exact .inl hsame
  · exact .inr ⟨k, trivial, hk⟩

end Projection

namespace Sample

def api : Api := ⟨pollSys, fun _ => none⟩

theorem api_initial : api.Initial := ⟨pollSys_initial, fun _ => rfl⟩

def answered (n : Uuid) : Io := ⟨n, n, .acknowledged⟩

def submitted : List ApiLabel :=
  [.poll (.core (.register 1 "a" "h1")), .submit 0 (.createJob 10 30 (request 3)), .advance 0 (answered 1),
    .advance 0 (answered 2), .advance 0 (answered 3), .advance 0 (answered 100)]

def claimed : List ApiLabel :=
  [.poll (.findById 1 10), .poll (.countRunningJobs 1), .poll (.claimNextJob 1 [])]

end Sample

end JobScheduler
