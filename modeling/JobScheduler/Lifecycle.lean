import JobScheduler.Steps

namespace JobScheduler
open Relational Transition

/-- All that the system holds about one job: its row, its executor tasks, the attempt numbers
of its failed and successful executions, and its dead-letter entries. -/
structure View where
  row : Option Job
  tasks : List Task
  failed : List Int32
  succeeded : List Int32
  dead : List DeadLetterEntry

def Sys.view (s : Sys) (j : Uuid) : View where
  row := s.db.jobs.find? j
  tasks := s.tasks.table.rows.filter fun t => decide (t.job.id = j)
  failed := (s.db.jobExecutions.rows.filter fun e => decide (e.jobId = j) && !e.success).map (·.attemptNumber)
  succeeded := (s.db.jobExecutions.rows.filter fun e => decide (e.jobId = j) && e.success).map (·.attemptNumber)
  dead := s.db.deadLetterQueue.rows.filter fun d => decide (d.jobId = j)

namespace View

def drop (v : View) (p : Task → Bool) : View := { v with tasks := v.tasks.filter fun u => !p u }

def setPhase (v : View) (task : ℕ) (phase : Phase) : View :=
  { v with tasks := v.tasks.map fun u => if decide (u.id = task) then { u with phase := phase } else u }

def endFinish (v : View) (t : Task) (x : Finish) : View :=
  if Sys.goesOn x t x.acked then v.setPhase t.id .committed else v.drop fun u => decide (u.id = t.id)

end View

/-- A row as `create_job` and `schedule_next_occurrence` insert it. -/
structure Job.IsNew (r : Job) : Prop where
  status : r.status = .queued ∨ r.status = .scheduled
  attemptCount : r.attemptCount = 0
  workerId : r.workerId = none
  nextAttemptAt : r.nextAttemptAt = none

def Label.task : Label → Option ℕ
  | .markRunning task _ _ | .finish task _ | .scheduleNext task _ _ _ _ | .die task => some task
  | _ => none

def Sys.actsOn (s : Sys) (l : Label) (j : Uuid) : Bool :=
  (l.task.bind s.tasks.find?).any fun t => decide (t.job.id = j)

/-- The lifecycle of one job: everything a step of the system can do to what it holds about
job `j`. -/
inductive Effect (s : Sys) (j : Uuid) : Label → View → Prop
  | same {l : Label} (ha : s.actsOn l j = false) : Effect s j l (s.view j)
  | inserted {l : Label} {r : Job} (ha : s.actsOn l j = false) (hrow : (s.view j).row = none)
      (hid : r.id = j) (hnew : r.IsNew) (hfk : r.foreignKeys s.db = true) :
      Effect s j l { s.view j with row := some r }
  | cancelled {r : Job} (hrow : (s.view j).row = some r) (hc : cancellable r = true) :
      Effect s j (.cancelJob j) { s.view j with row := some (r.cancel s.now) }
  | promoted {r : Job} (hrow : (s.view j).row = some r) (hd : dueForPromotion s.now r = true) :
      Effect s j .reQueueScheduledJobs { s.view j with row := some (r.reQueue s.now) }
  | released {r : Job} (hrow : (s.view j).row = some r) (hp : r.status = .pending) :
      Effect s j (.releaseDependent j) { s.view j with row := some (r.reQueue s.now) }
  | recovered {r : Job} {threshold : ℤ} (hrow : (s.view j).row = some r)
      (hr : recoverable s.db s.now threshold r = true) :
      Effect s j (.recoverStaleJobs threshold) { s.view j with row := some (r.recover s.now) }
  | retried {l : Label} {r : Job} {entry : DeadLetterEntry} {retriedBy : Uuid}
      (hl : l = .retryJobCommit entry.id retriedBy ∨
        l = .retryJob entry.id retriedBy ∧ entry.manuallyRetriedAt = none)
      (he : entry ∈ (s.view j).dead) (hrow : (s.view j).row = some r) :
      Effect s j l
        { s.view j with
          row := some (r.manualRetry s.now)
          dead := (s.view j).dead.map fun d =>
            if d.id = entry.id then d.markRetried s.now retriedBy else d }
  | claimed {r : Job} {w q : Uuid} {locked : List Uuid} (hrow : (s.view j).row = some r)
      (hc : claimable s.now q r = true) (hw : w ∉ s.crashed) :
      Effect s j (.claim w q locked)
        { s.view j with
          row := some (r.claim w s.now)
          tasks := (s.view j).tasks ++ [⟨s.tasks.nextId, w, r.claim w s.now, .spawned⟩] }
  | started {t : Task} {startedAt : Timestamp} (ht : t ∈ (s.view j).tasks) (hp : t.phase = .spawned) :
      Effect s j (.markRunning t.id startedAt .acknowledged)
        { (s.view j).setPhase t.id (.running startedAt) with
          row := (s.view j).row.map (Job.markRunning s.now) }
  | notStarted {t : Task} {startedAt : Timestamp} (ht : t ∈ (s.view j).tasks) (hp : t.phase = .spawned) :
      Effect s j (.markRunning t.id startedAt .lostBefore) ((s.view j).drop fun u => decide (u.id = t.id))
  | startLost {t : Task} {startedAt : Timestamp} (ht : t ∈ (s.view j).tasks) (hp : t.phase = .spawned) :
      Effect s j (.markRunning t.id startedAt .lostAfter)
        { (s.view j).drop fun u => decide (u.id = t.id) with
          row := (s.view j).row.map (Job.markRunning s.now) }
  | notApplied {t : Task} {startedAt : Timestamp} {x : Finish} (ht : t ∈ (s.view j).tasks)
      (hp : t.phase = .running startedAt) (hx : x.applies t startedAt s.now s.db = false) :
      Effect s j (.finish t.id x) ((s.view j).endFinish t x)
  | completed {t : Task} {startedAt : Timestamp} {x : Finish} (ht : t ∈ (s.view j).tasks)
      (hp : t.phase = .running startedAt) (hx : x.applies t startedAt s.now s.db = true)
      (hr : x.result = .ok ()) :
      Effect s j (.finish t.id x)
        { (s.view j).endFinish t x with
          row := (s.view j).row.map (Job.markCompleted s.now)
          succeeded := (s.view j).succeeded ++ [t.attempt] }
  | deadLettered {t : Task} {startedAt : Timestamp} {x : Finish} {msg : String}
      (ht : t ∈ (s.view j).tasks) (hp : t.phase = .running startedAt)
      (hx : x.applies t startedAt s.now s.db = true) (hr : x.result = .error msg)
      (hd : t.shouldDlq = true) :
      Effect s j (.finish t.id x)
        { (s.view j).endFinish t x with
          row := (s.view j).row.map (Job.markFailed t.attempt s.now)
          failed := (s.view j).failed ++ [t.attempt]
          dead := (s.view j).dead ++ [x.deadLetter t msg] }
  | rescheduled {t : Task} {startedAt : Timestamp} {x : Finish} {msg : String}
      (ht : t ∈ (s.view j).tasks) (hp : t.phase = .running startedAt)
      (hx : x.applies t startedAt s.now s.db = true) (hr : x.result = .error msg)
      (hd : t.shouldDlq = false) :
      Effect s j (.finish t.id x)
        { (s.view j).endFinish t x with
          row := (s.view j).row.map (Job.scheduleRetry x.nextAttemptAt t.attempt s.now)
          failed := (s.view j).failed ++ [t.attempt] }
  | scheduledNext {t : Task} {utcNow : Timestamp} {id correlationId : Uuid} {ok : Bool}
      (ht : t ∈ (s.view j).tasks) (hp : t.phase = .committed) :
      Effect s j (.scheduleNext t.id utcNow id correlationId ok)
        ((s.view j).drop fun u => decide (u.id = t.id))
  | died {t : Task} (ht : t ∈ (s.view j).tasks) :
      Effect s j (.die t.id) ((s.view j).drop fun u => decide (u.id = t.id))
  | crashed {w : Uuid} : Effect s j (.crash w) ((s.view j).drop fun u => decide (u.workerId = w))

/-! ## How the tables and the tasks show in the view -/

theorem Sys.view_congr {s s' : Sys} (j : Uuid) (hj : s'.db.jobs = s.db.jobs)
    (he : s'.db.jobExecutions = s.db.jobExecutions)
    (hd : s'.db.deadLetterQueue = s.db.deadLetterQueue) (ht : s'.tasks = s.tasks) :
    s'.view j = s.view j := by
  simp only [view, hj, he, hd, ht]

theorem Sys.mem_view_tasks {s : Sys} {j : Uuid} {t : Task} :
    t ∈ (s.view j).tasks ↔ t ∈ s.tasks.table.rows ∧ t.job.id = j := by
  simp [view]

theorem Sys.mem_view_dead {s : Sys} {j : Uuid} {d : DeadLetterEntry} :
    d ∈ (s.view j).dead ↔ d ∈ s.db.deadLetterQueue.rows ∧ d.jobId = j := by
  simp [view]

theorem Tasks.other_job {ts : Tasks} {j : Uuid} {t u : Task} (ht : t ∈ ts.table.rows)
    (hu : u ∈ ts.table.rows) (hid : u.id = t.id) (hj : t.job.id ≠ j) : u.job.id ≠ j := by
  rw [List.inj_on_of_nodup_map ts.table.nodup hu ht hid]
  exact hj

theorem Tasks.drop_filter (ts : Tasks) (p : Task → Bool) (j : Uuid) :
    (ts.drop p).table.rows.filter (fun t => decide (t.job.id = j)) =
      (ts.table.rows.filter fun t => decide (t.job.id = j)).filter fun u => !p u := by
  simp only [drop, Table.rows_delete, List.filter_filter, Bool.and_comm]

theorem Tasks.drop_filter_other {ts : Tasks} {j : Uuid} {t : Task} (ht : t ∈ ts.table.rows)
    (hj : t.job.id ≠ j) :
    (ts.drop fun u => decide (u.id = t.id)).table.rows.filter (fun t => decide (t.job.id = j)) =
      ts.table.rows.filter fun t => decide (t.job.id = j) := by
  rw [drop_filter, List.filter_eq_self]
  intro u hu
  obtain ⟨hm, hju⟩ := List.mem_filter.mp hu
  have hne : u.id ≠ t.id := fun he => other_job ht hm he hj (by simpa using hju)
  simpa using hne

theorem Tasks.setPhase_filter (ts : Tasks) (task : ℕ) (phase : Phase) (j : Uuid) :
    (ts.setPhase task phase).table.rows.filter (fun t => decide (t.job.id = j)) =
      (ts.table.rows.filter fun t => decide (t.job.id = j)).map fun u =>
        if decide (u.id = task) then { u with phase := phase } else u := by
  have hcomp : ((fun t : Task => decide (t.job.id = j)) ∘ fun u : Task =>
      if decide (u.id = task) then { u with phase := phase } else u) =
      fun t => decide (t.job.id = j) := by
    funext u
    dsimp only [Function.comp]
    split <;> rfl
  rw [setPhase, Table.rows_update, List.filter_map, hcomp]

theorem Tasks.setPhase_filter_other {ts : Tasks} {j : Uuid} {t : Task} (phase : Phase)
    (ht : t ∈ ts.table.rows) (hj : t.job.id ≠ j) :
    (ts.setPhase t.id phase).table.rows.filter (fun t => decide (t.job.id = j)) =
      ts.table.rows.filter fun t => decide (t.job.id = j) := by
  rw [setPhase_filter]
  conv_rhs => rw [← List.map_id (ts.table.rows.filter _)]
  apply List.map_congr_left
  intro u hu
  obtain ⟨hm, hju⟩ := List.mem_filter.mp hu
  have hne : u.id ≠ t.id := fun he => other_job ht hm he hj (by simpa using hju)
  simp [hne]

theorem newJob_isNew (now : Timestamp) (id correlationId : Uuid) (queue : Queue) (req : CreateJobRequest) :
    (newJob now id correlationId queue req).IsNew := by
  refine ⟨?_, rfl, rfl, rfl⟩
  dsimp only [newJob, initialStatus]
  cases req.jobType <;> simp

theorem nextOccurrence_isNew (now nextAt : Timestamp) (id correlationId : Uuid) (j : Job) :
    (nextOccurrence now nextAt id correlationId j).IsNew := ⟨.inr rfl, rfl, rfl, rfl⟩

/-! ## Every step has an effect -/

section Effects
variable {cron : Cron} {s s' : Sys} (j : Uuid)

/-- A step outside the executor that leaves the four tables of the view alone. -/
theorem effect_frame {l : Label} (hl : l.task = none) (hj : s'.db.jobs = s.db.jobs)
    (he : s'.db.jobExecutions = s.db.jobExecutions)
    (hd : s'.db.deadLetterQueue = s.db.deadLetterQueue) (ht : s'.tasks = s.tasks) :
    Effect s j l (s'.view j) := by
  rw [Sys.view_congr j hj he hd ht]
  exact .same (by simp [Sys.actsOn, hl])

theorem view_updateJobs (s : Sys) (p : Job → Bool) (f : Job → Job) (hf : ∀ r, (f r).id = r.id) :
    Sys.view { s with db := s.db.updateJobs p f hf } j =
      { s.view j with row := (s.view j).row.map fun r => if p r then f r else r } := by
  simp only [Sys.view, Db.updateJobs, Table.find?_update]

theorem effect_updateJobs {l : Label} (hl : l.task = none) {p : Job → Bool} {f : Job → Job}
    {hf : ∀ r, (f r).id = r.id}
    (heff : ∀ r, (s.view j).row = some r → p r = true →
      Effect s j l { s.view j with row := some (f r) }) :
    Effect s j l (Sys.view { s with db := s.db.updateJobs p f hf } j) := by
  rw [view_updateJobs]
  have hsame : Effect s j l (s.view j) := .same (by simp [Sys.actsOn, hl])
  have hkeep (o : Option Job) (ho : o = (s.view j).row) : Effect s j l { s.view j with row := o } := by
    rw [ho]
    exact hsame
  cases hrow : (s.view j).row with
  | none => exact hkeep _ (by rw [hrow]; rfl)
  | some r =>
    cases hp : p r with
    | false => exact hkeep _ (by simp [hrow, hp])
    | true => simpa only [Option.map_some, hp, if_true] using heff r hrow hp

theorem effect_insert {l : Label} {db' : Db} {r : Job} (ha : s.actsOn l j = false) (hnew : r.IsNew)
    (h : insertJob s.db r = .ok db') (hs : s'.db = db')
    (ht : s'.tasks.table.rows.filter (fun t => decide (t.job.id = j)) = (s.view j).tasks) :
    Effect s j l (s'.view j) := by
  obtain ⟨hfk, jobs, hi, rfl⟩ := insertJob_ok h
  have hv : s'.view j = { s.view j with row := if r.id = j then some r else s.db.jobs.find? j } := by
    simp only [Sys.view, hs, Table.find?_insert hi] at ht ⊢
    rw [ht]
  rw [hv]
  by_cases hid : r.id = j
  · rw [if_pos hid]
    exact .inserted ha (by rw [← hid]; exact (Table.rows_insert hi).2) hid hnew hfk
  · rw [if_neg hid]
    exact .same ha

theorem effect_retry {l : Label} {db' : Db} {entry : DeadLetterEntry} {retriedBy : Uuid}
    (hl : l = .retryJobCommit entry.id retriedBy ∨
      l = .retryJob entry.id retriedBy ∧ entry.manuallyRetriedAt = none)
    (he : entry ∈ s.db.deadLetterQueue.rows)
    (h : retryJobCommit s.db s.now entry retriedBy = .ok db') :
    Effect s j l (Sys.view { s with db := db' } j) := by
  have ha : s.actsOn l j = false := by
    rcases hl with rfl | ⟨rfl, _⟩ <;> rfl
  obtain ⟨⟨r, hr⟩, _, rfl⟩ := retryJobCommit_ok h
  have hdead : (s.db.deadLetterQueue.update (fun d => decide (d.id = entry.id))
      (DeadLetterEntry.markRetried s.now retriedBy) (DeadLetterEntry.markRetried_id s.now retriedBy)).rows.filter
        (fun d => decide (d.jobId = j)) =
      (s.view j).dead.map fun d => if d.id = entry.id then d.markRetried s.now retriedBy else d := by
    have hcomp : ((fun d : DeadLetterEntry => decide (d.jobId = j)) ∘ fun d : DeadLetterEntry =>
        if decide (d.id = entry.id) then d.markRetried s.now retriedBy else d) =
        fun d => decide (d.jobId = j) := by
      funext d
      dsimp only [Function.comp]
      split <;> rfl
    rw [Table.rows_update, List.filter_map, hcomp]
    simp only [Sys.view, decide_eq_true_eq]
  have hv : Sys.view { s with db := { s.db.updateJob entry.jobId (Job.manualRetry s.now) (Job.manualRetry_id s.now) with
        deadLetterQueue := s.db.deadLetterQueue.update (fun d => decide (d.id = entry.id))
          (DeadLetterEntry.markRetried s.now retriedBy) (DeadLetterEntry.markRetried_id s.now retriedBy) } } j =
      { s.view j with
        row := if j = entry.jobId then (s.db.jobs.find? entry.jobId).map (Job.manualRetry s.now)
          else s.db.jobs.find? j
        dead := (s.view j).dead.map fun d =>
          if d.id = entry.id then d.markRetried s.now retriedBy else d } := by
    simp only [Sys.view, Db.updateJob, Db.updateJobs, Table.find?_update_key, View.mk.injEq, true_and]
    exact hdead
  rw [hv]
  by_cases hj : j = entry.jobId
  · subst hj
    rw [if_pos rfl, hr]
    exact .retried hl (Sys.mem_view_dead.mpr ⟨he, rfl⟩) hr
  · -- the marked entry is another job's
    have hid : ((s.view j).dead.map fun d => if d.id = entry.id then d.markRetried s.now retriedBy else d) =
        (s.view j).dead := by
      conv_rhs => rw [← List.map_id (s.view j).dead]
      apply List.map_congr_left
      intro d hd
      obtain ⟨hm, hdj⟩ := Sys.mem_view_dead.mp hd
      have hne : d.id ≠ entry.id := by
        intro heq
        rw [List.inj_on_of_nodup_map s.db.deadLetterQueue.nodup hm he heq] at hdj
        exact hj hdj.symm
      rw [if_neg hne]
      rfl
    rw [if_neg hj, hid]
    exact .same ha

theorem effect_claim {w q : Uuid} {locked : List Uuid} {r : Job} (hw : w ∉ s.crashed)
    (hr : s.db.jobs.find? r.id = some r) (hcl : claimable s.now q r = true) :
    Effect s j (.claim w q locked) (Sys.view { s with
      db := s.db.updateJob r.id (Job.claim w s.now) (Job.claim_id w s.now)
      tasks := s.tasks.spawn w (r.claim w s.now) } j) := by
  by_cases hj : r.id = j
  · have hv : Sys.view { s with
          db := s.db.updateJob r.id (Job.claim w s.now) (Job.claim_id w s.now)
          tasks := s.tasks.spawn w (r.claim w s.now) } j =
        { s.view j with
          row := some (r.claim w s.now)
          tasks := (s.view j).tasks ++ [⟨s.tasks.nextId, w, r.claim w s.now, .spawned⟩] } := by
      subst hj
      simp [Sys.view, Db.updateJob, Db.updateJobs, Table.find?_update_key, hr, Tasks.spawn, Job.claim]
    rw [hv]
    exact .claimed (by rw [← hj]; exact hr) hcl hw
  · have hj' : ¬j = r.id := fun h => hj h.symm
    have hv : Sys.view { s with
          db := s.db.updateJob r.id (Job.claim w s.now) (Job.claim_id w s.now)
          tasks := s.tasks.spawn w (r.claim w s.now) } j = s.view j := by
      simp [Sys.view, Db.updateJob, Db.updateJobs, Table.find?_update_key, Tasks.spawn, Job.claim, hj, hj']
    rw [hv]
    exact .same rfl

theorem actsOn_of_mem {l : Label} {t : Task} (hl : l.task = some t.id) (ht : t ∈ s.tasks.table.rows)
    (hj : t.job.id ≠ j) : s.actsOn l j = false := by
  have hf : s.tasks.find? t.id = some t := Table.find?_of_mem ht
  simp [Sys.actsOn, hl, hf, hj]

theorem effect_drop {l : Label} {t : Task} (hl : l.task = some t.id) (ht : t ∈ s.tasks.table.rows)
    (heff : t.job.id = j → Effect s j l ((s.view j).drop fun u => decide (u.id = t.id))) :
    Effect s j l (Sys.view { s with tasks := s.tasks.drop fun u => decide (u.id = t.id) } j) := by
  by_cases hj : t.job.id = j
  · have hv : Sys.view { s with tasks := s.tasks.drop fun u => decide (u.id = t.id) } j =
        (s.view j).drop fun u => decide (u.id = t.id) := by
      simp only [Sys.view, View.drop, Tasks.drop_filter]
    rw [hv]
    exact heff hj
  · have hv : Sys.view { s with tasks := s.tasks.drop fun u => decide (u.id = t.id) } j = s.view j := by
      simp only [Sys.view, Tasks.drop_filter_other ht hj]
    rw [hv]
    exact .same (actsOn_of_mem j hl ht hj)

theorem view_markRunning_other {t : Task} (startedAt : Timestamp) (outcome : CommitOutcome)
    (hm : t ∈ s.tasks.table.rows) (hj : t.job.id ≠ j) :
    (s.markRunning t startedAt outcome).view j = s.view j := by
  have hj' : ¬j = t.job.id := fun h => hj h.symm
  cases outcome <;>
    simp [Sys.markRunning, Sys.view, Db.updateJob, Db.updateJobs, Table.find?_update_key, hj',
      Tasks.setPhase_filter_other _ hm hj, Tasks.drop_filter_other hm hj]

theorem effect_markRunning {t : Task} {startedAt : Timestamp} {outcome : CommitOutcome}
    (hm : t ∈ s.tasks.table.rows) (hp : t.phase = .spawned) :
    Effect s j (.markRunning t.id startedAt outcome) ((s.markRunning t startedAt outcome).view j) := by
  by_cases hj : t.job.id = j
  · subst hj
    have hv := Sys.mem_view_tasks.mpr ⟨hm, rfl⟩
    cases outcome with
    | acknowledged =>
      have he : (s.markRunning t startedAt .acknowledged).view t.job.id =
          { (s.view t.job.id).setPhase t.id (.running startedAt) with
            row := (s.view t.job.id).row.map (Job.markRunning s.now) } := by
        simp [Sys.markRunning, Sys.view, View.setPhase, Db.updateJob, Db.updateJobs,
          Table.find?_update_key, Tasks.setPhase_filter]
      rw [he]
      exact .started hv hp
    | lostBefore =>
      have he : (s.markRunning t startedAt .lostBefore).view t.job.id =
          (s.view t.job.id).drop fun u => decide (u.id = t.id) := by
        simp [Sys.markRunning, Sys.view, View.drop, Tasks.drop_filter]
      rw [he]
      exact .notStarted hv hp
    | lostAfter =>
      have he : (s.markRunning t startedAt .lostAfter).view t.job.id =
          { (s.view t.job.id).drop fun u => decide (u.id = t.id) with
            row := (s.view t.job.id).row.map (Job.markRunning s.now) } := by
        simp [Sys.markRunning, Sys.view, View.drop, Db.updateJob, Db.updateJobs,
          Table.find?_update_key, Tasks.drop_filter]
      rw [he]
      exact .startLost hv hp
  · rw [view_markRunning_other j startedAt outcome hm hj]
    exact .same (actsOn_of_mem j rfl hm hj)

theorem view_finish_tasks (s : Sys) (t : Task) (startedAt : Timestamp) (x : Finish) :
    (s.finish t startedAt x).tasks.table.rows.filter (fun u => decide (u.job.id = j)) =
      ((s.view j).endFinish t x).tasks := by
  simp only [Sys.finish, Finish.run_acked, View.endFinish]
  split
  · exact Tasks.setPhase_filter _ _ _ _
  · exact Tasks.drop_filter _ _ _

theorem view_finish_tasks_other {t : Task} (startedAt : Timestamp) (x : Finish)
    (hm : t ∈ s.tasks.table.rows) (hj : t.job.id ≠ j) :
    (s.finish t startedAt x).tasks.table.rows.filter (fun u => decide (u.job.id = j)) =
      (s.view j).tasks := by
  simp only [Sys.finish]
  split
  · exact Tasks.setPhase_filter_other _ hm hj
  · exact Tasks.drop_filter_other hm hj

@[simp] theorem View.endFinish_row (v : View) (t : Task) (x : Finish) : (v.endFinish t x).row = v.row := by
  unfold endFinish
  split <;> rfl

@[simp] theorem View.endFinish_failed (v : View) (t : Task) (x : Finish) :
    (v.endFinish t x).failed = v.failed := by
  unfold endFinish
  split <;> rfl

@[simp] theorem View.endFinish_succeeded (v : View) (t : Task) (x : Finish) :
    (v.endFinish t x).succeeded = v.succeeded := by
  unfold endFinish
  split <;> rfl

@[simp] theorem View.endFinish_dead (v : View) (t : Task) (x : Finish) : (v.endFinish t x).dead = v.dead := by
  unfold endFinish
  split <;> rfl

theorem View.ext_endFinish {v : View} {t : Task} {x : Finish} {w : View}
    (hr : w.row = v.row) (ht : w.tasks = (v.endFinish t x).tasks) (hf : w.failed = v.failed)
    (hs : w.succeeded = v.succeeded) (hd : w.dead = v.dead) : w = v.endFinish t x := by
  cases w
  simp only at hr ht hf hs hd
  subst hr ht hf hs hd
  unfold endFinish
  split <;> rfl

theorem Finish.deadLetters_jobId {x : Finish} {t : Task} {d : DeadLetterEntry}
    (h : d ∈ x.deadLetters t) : d.jobId = t.job.id := by
  unfold deadLetters at h
  split at h
  · cases h
  · split at h
    · rw [List.mem_singleton.mp h]
      rfl
    · cases h

theorem view_applied {t : Task} {startedAt : Timestamp} {x : Finish}
    (h : x.Applied t startedAt s.now s.db (s.finish t startedAt x).db) :
    (s.finish t startedAt x).view t.job.id =
      { (s.view t.job.id).endFinish t x with
        row := (s.view t.job.id).row.map (x.jobUpdate t s.now)
        failed := (s.view t.job.id).failed ++ if x.result.isOk then [] else [t.attempt]
        succeeded := (s.view t.job.id).succeeded ++ if x.result.isOk then [t.attempt] else []
        dead := (s.view t.job.id).dead ++ x.deadLetters t } := by
  have hdead : (x.deadLetters t).filter (fun d => decide (d.jobId = t.job.id)) = x.deadLetters t := by
    rw [List.filter_eq_self]
    intro d hm
    simpa using Finish.deadLetters_jobId hm
  have htasks := view_finish_tasks t.job.id s t startedAt x
  unfold Sys.view at htasks ⊢
  rw [htasks, h.jobs, h.jobExecutions, h.deadLetterQueue]
  simp only [Db.updateJob, Db.updateJobs, Table.find?_update_key, if_true, List.filter_append, hdead,
    List.map_append]
  cases hx : x.result.isOk <;> simp [Finish.execution, hx]

theorem view_applied_other {t : Task} {startedAt : Timestamp} {x : Finish}
    (h : x.Applied t startedAt s.now s.db (s.finish t startedAt x).db) (hm : t ∈ s.tasks.table.rows)
    (hj : t.job.id ≠ j) : (s.finish t startedAt x).view j = s.view j := by
  have hj' : ¬j = t.job.id := fun he => hj he.symm
  have hdead : (x.deadLetters t).filter (fun d => decide (d.jobId = j)) = [] := by
    rw [List.filter_eq_nil_iff]
    intro d hdm
    simpa [Finish.deadLetters_jobId hdm] using hj
  have htasks := view_finish_tasks_other j startedAt x hm hj
  unfold Sys.view at htasks ⊢
  rw [htasks, h.jobs, h.jobExecutions, h.deadLetterQueue]
  simp only [Db.updateJob, Db.updateJobs, Table.find?_update_key, if_neg hj', List.filter_append, hdead,
    List.append_nil]
  simp [Finish.execution, hj]

theorem effect_finish {t : Task} {startedAt : Timestamp} {x : Finish}
    (hm : t ∈ s.tasks.table.rows) (hp : t.phase = .running startedAt) :
    Effect s j (.finish t.id x) ((s.finish t startedAt x).view j) := by
  by_cases hj : t.job.id = j
  · subst hj
    have hv : t ∈ (s.view t.job.id).tasks := Sys.mem_view_tasks.mpr ⟨hm, rfl⟩
    rcases x.run_all_or_nothing t startedAt s.now s.db with ⟨hx, hdb⟩ | ⟨hx, happ⟩
    · have hdb : (s.finish t startedAt x).db = s.db := hdb
      have he : (s.finish t startedAt x).view t.job.id = (s.view t.job.id).endFinish t x :=
        View.ext_endFinish (by rw [Sys.view, hdb]; rfl) (view_finish_tasks t.job.id s t startedAt x)
          (by rw [Sys.view, hdb]; rfl) (by rw [Sys.view, hdb]; rfl) (by rw [Sys.view, hdb]; rfl)
      rw [he]
      exact .notApplied hv hp hx
    · -- one effect for each branch of `execute_job`
      rw [view_applied happ]
      cases hr : x.result with
      | ok u =>
        simpa [hr, Finish.jobUpdate, Finish.deadLetters, Except.isOk, Except.toBool] using
          Effect.completed (s := s) hv hp hx hr
      | error msg =>
        cases hd : t.shouldDlq with
        | true =>
          simpa [hr, hd, Finish.jobUpdate, Finish.deadLetters, Except.isOk, Except.toBool] using
            Effect.deadLettered (s := s) hv hp hx hr hd
        | false =>
          simpa [hr, hd, Finish.jobUpdate, Finish.deadLetters, Except.isOk, Except.toBool] using
            Effect.rescheduled (s := s) hv hp hx hr hd
  · -- another job sees neither the rows of the transaction nor the end of the task
    have he : (s.finish t startedAt x).view j = s.view j := by
      rcases x.run_all_or_nothing t startedAt s.now s.db with ⟨_, hdb⟩ | ⟨_, happ⟩
      · have hdb : (s.finish t startedAt x).db = s.db := hdb
        have htasks := view_finish_tasks_other j startedAt x hm hj
        unfold Sys.view at htasks ⊢
        rw [htasks, hdb]
      · exact view_applied_other j happ hm hj
    rw [he]
    exact .same (actsOn_of_mem j rfl hm hj)

/-- The successor's row is not the row of the job itself, which exists. -/
theorem effect_scheduledNext {t : Task} {utcNow nextAt : Timestamp} {id correlationId : Uuid} {row : Job}
    {db' : Db} (hm : t ∈ s.tasks.table.rows) (hp : t.phase = .committed)
    (hrow : s.db.jobs.find? t.job.id = some row)
    (hi : insertJob s.db (nextOccurrence s.now nextAt id correlationId row) = .ok db') :
    Effect s j (.scheduleNext t.id utcNow id correlationId true) (Sys.view { s with
      db := db'
      tasks := s.tasks.drop fun u => decide (u.id = t.id) } j) := by
  by_cases hj : t.job.id = j
  · obtain ⟨_, jobs, hins, rfl⟩ := insertJob_ok hi
    have hid : id ≠ j := by
      intro he
      have hnone := (Table.rows_insert hins).2
      rw [show (nextOccurrence s.now nextAt id correlationId row).id = id from rfl, he, ← hj, hrow] at hnone
      cases hnone
    have hv : Sys.view { s with
          db := { s.db with jobs := jobs }
          tasks := s.tasks.drop fun u => decide (u.id = t.id) } j =
        (s.view j).drop fun u => decide (u.id = t.id) := by
      simp only [Sys.view, View.drop, Tasks.drop_filter, Table.find?_insert hins]
      rw [if_neg (show ¬(nextOccurrence s.now nextAt id correlationId row).id = j from hid)]
    rw [hv]
    exact .scheduledNext (Sys.mem_view_tasks.mpr ⟨hm, hj⟩) hp
  · exact effect_insert j (actsOn_of_mem j rfl hm hj) (nextOccurrence_isNew _ _ _ _ _) hi rfl
      (Tasks.drop_filter_other hm hj)

theorem effect_crash {w : Uuid} :
    Effect s j (.crash w)
      (Sys.view { s with
        crashed := w :: s.crashed
        tasks := s.tasks.drop fun t => decide (t.workerId = w) } j) := by
  have hv : Sys.view { s with
        crashed := w :: s.crashed
        tasks := s.tasks.drop fun t => decide (t.workerId = w) } j =
      (s.view j).drop fun u => decide (u.workerId = w) := by
    simp only [Sys.view, View.drop, Tasks.drop_filter]
  rw [hv]
  exact .crashed

/-- Whatever step the system takes, what it does to job `j` is one of the listed effects. -/
theorem next_effect {l : Label} (h : s.next cron l = some s') : Effect s j l (s'.view j) := by
  cases sys_step h with
  | tick _ | deregister _ | setPaused | createQueue _ | markPublished =>
    exact effect_frame j rfl rfl rfl rfl rfl
  | @register w name hostname _ =>
    obtain ⟨workers, hdb⟩ := register_eq s.db s.now w name hostname
    rw [hdb]
    exact effect_frame j rfl rfl rfl rfl rfl
  | heartbeat _ hdb =>
    obtain ⟨hbs, rfl⟩ := upsertHeartbeat_eq hdb
    exact effect_frame j rfl rfl rfl rfl rfl
  | crash => exact effect_crash j
  | createJob _ hi => exact effect_insert j rfl (newJob_isNew _ _ _ _ _) hi rfl rfl
  | cancelJob =>
    refine effect_updateJobs j rfl fun r hrow hp => ?_
    simp only [Bool.and_eq_true, decide_eq_true_eq] at hp
    obtain ⟨rfl, hc⟩ := hp
    obtain rfl := Table.key_of_find? hrow
    exact .cancelled hrow hc
  | retryJob he hn hc => exact effect_retry j (.inr ⟨rfl, hn⟩) he hc
  | retryJobCommit he hc => exact effect_retry j (.inl rfl) he hc
  | createDependency hdb =>
    rcases createDependency_ok hdb with rfl | ⟨_, _, deps, _, rfl⟩ <;> exact effect_frame j rfl rfl rfl rfl rfl
  | releaseDependent =>
    refine effect_updateJobs j rfl fun r hrow hp => ?_
    simp only [Bool.and_eq_true, decide_eq_true_eq] at hp
    obtain ⟨rfl, hs⟩ := hp
    obtain rfl := Table.key_of_find? hrow
    exact .released hrow hs
  | reQueueScheduledJobs => exact effect_updateJobs j rfl fun r hrow hp => .promoted hrow hp
  | recoverStaleJobs => exact effect_updateJobs j rfl fun r hrow hp => .recovered hrow hp
  | claimed hw hr hc => exact effect_claim j hw hr hc
  | notClaimed _ => exact .same rfl
  | markRunning ht hp => exact effect_markRunning j ht hp
  | finish ht hp => exact effect_finish j ht hp
  | scheduledNext ht hp hrow hi => exact effect_scheduledNext j ht hp hrow hi
  | notScheduled ht hp =>
    exact effect_drop j rfl ht fun hj => .scheduledNext (Sys.mem_view_tasks.mpr ⟨ht, hj⟩) hp
  | die ht => exact effect_drop j rfl ht fun hj => .died (Sys.mem_view_tasks.mpr ⟨ht, hj⟩)

end Effects

/-! ## What no step changes -/

structure Job.SameColumns (r r' : Job) : Prop where
  queueId : r'.queueId = r.queueId
  jobType : r'.jobType = r.jobType
  maxAttempts : r'.maxAttempts = r.maxAttempts
  cronExpression : r'.cronExpression = r.cronExpression
  correlationId : r'.correlationId = r.correlationId

theorem Job.SameColumns.refl (r : Job) : r.SameColumns r := ⟨rfl, rfl, rfl, rfl, rfl⟩

theorem Job.SameColumns.trans {r₁ r₂ r₃ : Job} (h : r₁.SameColumns r₂) (h' : r₂.SameColumns r₃) :
    r₁.SameColumns r₃ where
  queueId := h'.queueId.trans h.queueId
  jobType := h'.jobType.trans h.jobType
  maxAttempts := h'.maxAttempts.trans h.maxAttempts
  cronExpression := h'.cronExpression.trans h.cronExpression
  correlationId := h'.correlationId.trans h.correlationId

theorem Job.SameColumns.of_asSubmitted {r r' : Job} (h : r'.asSubmitted = r.asSubmitted) : r.SameColumns r' := by
  simp only [asSubmitted, Job.mk.injEq] at h
  obtain ⟨_, hq, _, ht, _, _, _, _, _, hm, _, _, he, _, _, _, hc, _⟩ := h
  exact ⟨hq, ht, hm, he, hc⟩

structure Task.Becomes (t u : Task) : Prop where
  id : u.id = t.id
  workerId : u.workerId = t.workerId
  job : u.job = t.job
  inFlight : u.inFlight = true → t.inFlight = true

theorem Task.Becomes.refl (t : Task) : t.Becomes t := ⟨rfl, rfl, rfl, fun h => h⟩

namespace View

theorem mem_drop {v : View} {p : Task → Bool} {u : Task} (h : u ∈ (v.drop p).tasks) :
    ∃ t ∈ v.tasks, t.Becomes u := ⟨u, (List.mem_filter.mp h).1, .refl u⟩

theorem mem_setPhase {v : View} {task : ℕ} {phase : Phase} {u : Task}
    (hp : phase ≠ .committed → ∀ t ∈ v.tasks, t.id = task → t.inFlight = true)
    (h : u ∈ (v.setPhase task phase).tasks) : ∃ t ∈ v.tasks, t.Becomes u := by
  obtain ⟨t, hm, rfl⟩ := List.mem_map.mp h
  refine ⟨t, hm, ?_⟩
  by_cases hid : t.id = task
  · rw [if_pos (decide_eq_true hid)]
    refine ⟨rfl, rfl, rfl, fun hf => ?_⟩
    exact hp (by simpa [Task.inFlight] using hf) t hm hid
  · rw [if_neg (by simpa using hid)]
    exact .refl t

theorem mem_endFinish {v : View} {t u : Task} {x : Finish} (h : u ∈ (v.endFinish t x).tasks) :
    ∃ t ∈ v.tasks, t.Becomes u := by
  unfold endFinish at h
  split at h
  · exact mem_setPhase (fun hc => absurd rfl hc) h
  · exact mem_drop h

end View

theorem Sys.eq_of_view_tasks {s : Sys} {j : Uuid} {t u : Task} (ht : t ∈ (s.view j).tasks)
    (hu : u ∈ (s.view j).tasks) (h : t.id = u.id) : t = u :=
  List.inj_on_of_nodup_map s.tasks.table.nodup (mem_view_tasks.mp ht).1 (mem_view_tasks.mp hu).1 h

namespace Effect
variable {s : Sys} {j : Uuid} {l : Label} {v : View}

theorem keeps_submission {j : Uuid} {v : View} (h : Effect s j l v) {r : Job}
    (hrow : (s.view j).row = some r) : ∃ r', v.row = some r' ∧ r'.asSubmitted = r.asSubmitted := by
  have hmap (f : Job → Job) (hf : (f r).asSubmitted = r.asSubmitted) :
      ∃ r', (s.view j).row.map f = some r' ∧ r'.asSubmitted = r.asSubmitted := ⟨f r, by rw [hrow]; rfl, hf⟩
  have hsome (f : Job → Job) {r₀ : Job} (h₀ : (s.view j).row = some r₀)
      (hf : (f r).asSubmitted = r.asSubmitted) :
      ∃ r', some (f r₀) = some r' ∧ r'.asSubmitted = r.asSubmitted := by
    rw [hrow] at h₀
    cases h₀
    exact ⟨f r, rfl, hf⟩
  cases h with
  | same _ | notStarted _ _ | scheduledNext _ _ | died _ | crashed => exact ⟨r, hrow, rfl⟩
  | inserted _ hn _ _ _ => simp [hrow] at hn
  | cancelled h₀ _ => exact hsome (Job.cancel s.now) h₀ rfl
  | promoted h₀ _ | released h₀ _ => exact hsome (Job.reQueue s.now) h₀ rfl
  | recovered h₀ _ => exact hsome (Job.recover s.now) h₀ rfl
  | retried _ _ h₀ => exact hsome (Job.manualRetry s.now) h₀ rfl
  | claimed h₀ _ _ => exact hsome (Job.claim _ s.now) h₀ rfl
  | started _ _ | startLost _ _ | completed _ _ _ _ | deadLettered _ _ _ _ _ | rescheduled _ _ _ _ _ =>
    exact hmap _ rfl
  | notApplied _ _ _ => exact ⟨r, by rw [View.endFinish_row, hrow], rfl⟩

theorem keeps_columns (h : Effect s j l v) {r : Job} (hrow : (s.view j).row = some r) :
    ∃ r', v.row = some r' ∧ r.SameColumns r' := by
  obtain ⟨r', hr', hs⟩ := h.keeps_submission hrow
  exact ⟨r', hr', .of_asSubmitted hs⟩

theorem foreignKeys_of_inserted (h : Effect s j l v) {r : Job} (hnone : (s.view j).row = none)
    (hrow : v.row = some r) : r.foreignKeys s.db = true := by
  have hmap (f : Job → Job) (h : (s.view j).row.map f = some r) : False := by simp [hnone] at h
  cases h with
  | inserted _ _ _ _ hfk =>
    cases hrow
    exact hfk
  | cancelled h₀ _ | promoted h₀ _ | released h₀ _ | recovered h₀ _ | retried _ _ h₀
    | claimed h₀ _ _ => simp [hnone] at h₀
  | same _ | notStarted _ _ | scheduledNext _ _ | died _ | crashed =>
    rw [show (s.view j).row = some r from hrow] at hnone
    cases hnone
  | notApplied _ _ _ =>
    rw [View.endFinish_row, hnone] at hrow
    cases hrow
  | started _ _ | startLost _ _ | completed _ _ _ _ | deadLettered _ _ _ _ _
    | rescheduled _ _ _ _ _ => exact (hmap _ hrow).elim

theorem task_before (h : Effect s j l v) {u : Task} (hu : u ∈ v.tasks) :
    (∃ t ∈ (s.view j).tasks, t.Becomes u) ∨ ∃ r w q locked, l = .claim w q locked ∧
      (s.view j).row = some r ∧ v.row = some (r.claim w s.now) ∧
      u = ⟨s.tasks.nextId, w, r.claim w s.now, .spawned⟩ := by
  cases h with
  | same _ | inserted _ _ _ _ _ | cancelled _ _ | promoted _ _ | released _ _ | recovered _ _
    | retried _ _ _ => exact .inl ⟨u, hu, .refl u⟩
  | claimed hrow hc hw =>
    rename_i r w q locked
    rcases List.mem_append.mp hu with hm | hm
    · exact .inl ⟨u, hm, .refl u⟩
    · exact .inr ⟨r, w, q, locked, rfl, hrow, rfl, List.mem_singleton.mp hm⟩
  | started ht hp =>
    refine .inl (View.mem_setPhase (fun _ t hm hid => ?_) hu)
    rw [Sys.eq_of_view_tasks hm ht hid, Task.inFlight, hp]
    rfl
  | notStarted _ _ | startLost _ _ | scheduledNext _ _ | died _ | crashed =>
    exact .inl (View.mem_drop hu)
  | notApplied _ _ _ | completed _ _ _ _ | deadLettered _ _ _ _ _ | rescheduled _ _ _ _ _ =>
    exact .inl (View.mem_endFinish hu)

end Effect

def Snapshots (v : View) : Prop := ∀ t ∈ v.tasks, ∃ r, v.row = some r ∧ t.job.SameColumns r

theorem Snapshots.step {s : Sys} {j : Uuid} {l : Label} {v : View} (hi : Snapshots (s.view j))
    (h : Effect s j l v) : Snapshots v := by
  intro u hu
  rcases h.task_before hu with ⟨t, ht, hb⟩ | ⟨r, w, q, locked, _, _, hrow, rfl⟩
  · obtain ⟨r, hrow, hc⟩ := hi t ht
    obtain ⟨r', hrow', hc'⟩ := h.keeps_columns hrow
    exact ⟨r', hrow', by rw [hb.job]; exact hc.trans hc'⟩
  · exact ⟨_, hrow, .refl _⟩

theorem Sys.Initial.view_eq {s : Sys} (h : s.Initial) (j : Uuid) : s.view j = ⟨none, [], [], [], []⟩ := by
  simp [view, Table.find?, h.jobs, h.tasks, h.jobExecutions, h.deadLetterQueue]

theorem snapshots_of_reachable {cron : Cron} {ok : Sys → Label → Prop} {s : Sys}
    (h : Reachable (scheduler cron) ok s) (j : Uuid) : Snapshots (s.view j) := by
  refine Reachable.invariant (I := fun s => Snapshots (s.view j)) ?_ ?_ h
  · intro s (hs : s.Initial) t ht
    simp [hs.view_eq] at ht
  · intro s l s' _ hi _ hn
    exact hi.step (next_effect j hn)

end JobScheduler
