import JobScheduler.Exclusive
import JobScheduler.Rows

namespace JobScheduler
open Relational Transition

/-! ## No job runs before it is due -/

/-- The retry time of a job that is with an executor, or on its way to one, has come. -/
def Elapsed (now : Timestamp) (v : View) : Prop :=
  ∀ r, v.row = some r → r.status ≠ .scheduled ∧ r.status ≠ .failed ∧ r.status ≠ .completed →
    ∀ t, r.nextAttemptAt = some t → t ≤ now

section Steps
variable {s : Sys} {j : Uuid} {l : Label} {now : Timestamp} {v : View}

theorem Elapsed.mono {v w : View} {now' : Timestamp} (h : Elapsed now v) (hle : now ≤ now')
    (hrow : w.row = v.row) : Elapsed now' w := by
  intro r hr hs t ht
  rw [hrow] at hr
  exact (h r hr hs t ht).trans hle

theorem Elapsed.of_row {w : View} {r : Job} (hrow : w.row = some r)
    (h : r.status ≠ .scheduled ∧ r.status ≠ .failed ∧ r.status ≠ .completed →
      ∀ t, r.nextAttemptAt = some t → t ≤ now) : Elapsed now w := by
  intro r' hr'
  obtain rfl : r = r' := Option.some.inj (hrow.symm.trans hr')
  exact h

theorem Elapsed.keep {w : View} {r r' : Job} (he : Elapsed now v) (hrow : v.row = some r)
    (hs : r.status ≠ .scheduled ∧ r.status ≠ .failed ∧ r.status ≠ .completed) (hrow' : w.row = some r')
    (hn : r'.nextAttemptAt = r.nextAttemptAt) : Elapsed now w := by
  refine .of_row hrow' fun _ t ht => ?_
  rw [hn] at ht
  exact he r hrow hs t ht

/-- What the promoter lets through has no retry time in the future: `COALESCE` looks at that
time first. -/
theorem nextAttemptAt_of_dueForPromotion {r : Job} (h : dueForPromotion now r = true) {t : Timestamp}
    (ht : r.nextAttemptAt = some t) : t ≤ now := by
  simpa [dueForPromotion, ht] using (Bool.and_eq_true_iff.mp h).2

theorem Elapsed.step (he : Elapsed s.now (s.view j)) (hi : Exclusive (s.view j))
    (h : Effect s j l v) : Elapsed s.now v := by
  cases h with
  | same _ | notStarted _ _ | scheduledNext _ _ | died _ | crashed => exact he.mono le_rfl rfl
  | notApplied _ _ _ => exact he.mono le_rfl (View.endFinish_row _ _ _)
  | inserted _ _ _ hnew _ =>
    refine .of_row rfl fun _ t ht => ?_
    rw [hnew.nextAttemptAt] at ht
    cases ht
  | cancelled _ _ => exact .of_row rfl fun hs => absurd rfl hs.2.1
  | promoted _ hd => exact .of_row rfl fun _ t ht => nextAttemptAt_of_dueForPromotion hd ht
  | released hrow hp => exact he.keep hrow (by simp [hp]) rfl rfl
  | recovered hrow hr =>
    refine he.keep hrow ?_ rfl rfl
    rcases recoverable_status hr with hst | hst <;> simp [hst]
  | retried _ _ _ => exact .of_row rfl fun _ t ht => by cases ht
  | claimed hrow hc _ => exact he.keep hrow (by simp [claimable_status hc]) rfl rfl
  | started ht hp | startLost ht hp =>
    obtain ⟨r, hrow, _, hst⟩ := hi.row_spawned ht hp
    exact he.keep hrow (by simp [hst]) (show _ = some (r.markRunning s.now) by rw [hrow]; rfl) rfl
  | completed ht hp _ _ =>
    obtain ⟨r, hrow, _, _⟩ := hi.row_running ht hp
    exact .of_row (r := r.markCompleted s.now) (by rw [hrow]; rfl) fun hs => absurd rfl hs.2.2
  | deadLettered ht hp _ _ _ =>
    obtain ⟨r, hrow, _, _⟩ := hi.row_running ht hp
    exact .of_row (r := r.markFailed _ s.now) (by rw [hrow]; rfl) fun hs => absurd rfl hs.2.1
  | rescheduled ht hp _ _ _ =>
    obtain ⟨r, hrow, _, _⟩ := hi.row_running ht hp
    exact .of_row (r := r.scheduleRetry _ _ s.now) (by rw [hrow]; rfl) fun hs => absurd rfl hs.1

end Steps

section Runs
variable {cron : Cron} {s : Sys}

theorem elapsed_of_reachable (h : Reachable (scheduler cron) (fun s l => s.orderly l) s) (j : Uuid) :
    Elapsed s.now (s.view j) := by
  refine Reachable.invariant (I := fun s => Elapsed s.now (s.view j)) ?_ ?_ h
  · intro s (hs : s.Initial) r hr
    simp [hs.view_eq] at hr
  · intro s l s' hr he _ hn
    exact (he.step (exclusive_of_orderly hr j) (next_effect j hn)).mono (next_tables hn).now rfl

/-- Whatever job `claim_next_job` takes is due: neither its scheduled time nor its retry time lies
in the future. -/
theorem claimed_jobs_due (h : Reachable (scheduler cron) (fun s l => s.orderly l) s)
    {queueId workerId : Uuid} {locked : List Uuid} {job : Job} {db : Db}
    (hc : claimNextJob s.db s.now queueId workerId locked = .ok (some (job, db))) :
    (∀ t, job.scheduledAt = some t → t ≤ s.now) ∧ ∀ t, job.nextAttemptAt = some t → t ≤ s.now := by
  obtain ⟨r, hrow, hcl, rfl, _⟩ := claimNextJob_some hc
  constructor
  · intro t ht
    have ht : r.scheduledAt = some t := ht
    simpa [claimable, ht] using (Bool.and_eq_true_iff.mp hcl).2
  · exact elapsed_of_reachable h r.id r hrow (by simp [claimable_status hcl])

def Sample.retryClaimable (s : Sys) : Bool :=
  match claimNextJob s.db s.now 10 2 [] with
  | .ok (some (job, _)) => job.nextAttemptAt.isSome
  | _ => false

/-- A job that failed once, waited for its retry time and was left behind by a crash. -/
theorem claimed_jobs_due_sample :
    ∃ s job db, Reachable (scheduler Sample.cron) (fun s l => s.orderly l) s ∧
      claimNextJob s.db s.now 10 2 [] = .ok (some (job, db)) ∧ job.nextAttemptAt.isSome = true ∧
      (∀ t, job.scheduledAt = some t → t ≤ s.now) ∧ ∀ t, job.nextAttemptAt = some t → t ≤ s.now := by
  obtain ⟨_, s, hrun, hp⟩ := Run.exists_of_exec (M := scheduler Sample.cron) Sample.sys_initial
    [.register 1 "a" "h1", .register 2 "b" "h2", .createJob 100 7 Sample.queue (Sample.request 3),
      .claim 1 10 [], .markRunning 0 0 .acknowledged, .finish 0 (Sample.finish (.error "timeout") 1),
      .tick 20000000, .reQueueScheduledJobs, .claim 1 10 [], .crash 1, .recoverStaleJobs 60]
    Sys.orderly (fun _ s => Sample.retryClaimable s) (by decide)
  unfold Sample.retryClaimable at hp
  split at hp
  · rename_i job db hc
    exact ⟨s, job, db, hrun.reachable, hc, hp, claimed_jobs_due hrun.reachable hc⟩
  · cases hp

end Runs

/-! ## Every stored job can still move -/

/-- A scheduled job has a time from which the promoter picks it up, and a recurring one an expression
that the cron parser accepts, so that scheduling its next occurrence fails for no fault of the row. -/
structure Job.CanMove (cron : Cron) (r : Job) : Prop where
  promotable : r.status = .scheduled → ∃ due, r.nextAttemptAt.or r.scheduledAt = some due ∧
    ∀ now, due ≤ now → dueForPromotion now r = true
  recurs : r.jobType = .recurring → ∃ e, r.cronExpression = some e ∧ cron.parses e = true ∧
    ∀ db now utcNow id correlationId err,
      scheduleNextOccurrence cron db now utcNow id correlationId r = .error err →
      err = .noFutureOccurrence ∨ ∃ e, err = .database e

/-- A delayed or scheduled job is requested with its time, and a recurring one with its
expression. -/
def CreateJobRequest.complete (req : CreateJobRequest) : Bool :=
  match req.jobType with
  | .delayed | .scheduled => req.scheduledAt.isSome
  | .recurring => req.cronExpression.isSome
  | .immediate | .batch => true

def Label.requestsComplete : Label → Bool
  | .createJob _ _ _ req => req.complete
  | _ => true

/-- The columns `Job.CanMove` rests on. -/
structure Job.Stored (cron : Cron) (r : Job) : Prop where
  time : r.status = .scheduled → (r.nextAttemptAt.or r.scheduledAt).isSome = true
  expression : r.jobType = .recurring → ∃ e, r.cronExpression = some e ∧ cron.parses e = true

section Movable
variable {cron : Cron} {s s' : Sys} {j : Uuid} {l : Label} {v : View} {r r' : Job}

theorem Job.Stored.canMove (h : r.Stored cron) : r.CanMove cron where
  promotable hs := by
    obtain ⟨due, hdue⟩ := Option.isSome_iff_exists.mp (h.time hs)
    refine ⟨due, hdue, fun now hle => ?_⟩
    simp [dueForPromotion, hs, hdue, hle]
  recurs hr := by
    obtain ⟨e, he, hp⟩ := h.expression hr
    refine ⟨e, he, hp, fun db now utcNow id correlationId err herr => ?_⟩
    have hrec : r.isRecurring = true := by simp [isRecurring, hr, he]
    simp only [scheduleNextOccurrence, hrec, he, hp, bind, Except.bind, Bool.not_true,
      Bool.false_eq_true, if_false] at herr
    split at herr
    · split at herr
      · cases herr
        exact .inr ⟨_, rfl⟩
      · split at herr <;> cases herr
        exact .inr ⟨_, rfl⟩
    · cases herr
      exact .inl rfl

theorem newJob_stored {now : Timestamp} {id correlationId : Uuid} {queue : Queue} {req : CreateJobRequest}
    (hv : validateCron cron req = .ok ()) (hc : req.complete = true) :
    (newJob now id correlationId queue req).Stored cron := by
  unfold CreateJobRequest.complete at hc
  refine ⟨fun hs => ?_, fun hr => ?_⟩
  · have hs : (initialStatus req).1 = .scheduled := hs
    show ((none : Option Timestamp).or (initialStatus req).2).isSome = true
    unfold initialStatus at hs ⊢
    cases ht : req.jobType <;> simp_all
  · have hr : req.jobType = .recurring := hr
    simp only [hr] at hc
    obtain ⟨e, he⟩ := Option.isSome_iff_exists.mp hc
    refine ⟨e, he, ?_⟩
    by_contra hp
    simp [validateCron, hr, he, hp] at hv

theorem nextOccurrence_stored {now nextAt : Timestamp} {id correlationId : Uuid} (h : r.Stored cron) :
    (nextOccurrence now nextAt id correlationId r).Stored cron :=
  ⟨fun _ => rfl, h.expression⟩

/-- The only update that schedules a job stores a retry time with it. -/
theorem Job.Stored.step (hst : r.Stored cron) (h : Effect s j l v) (hrow : (s.view j).row = some r)
    (hrow' : v.row = some r') : r'.Stored cron := by
  have hexpr : r'.jobType = .recurring → ∃ e, r'.cronExpression = some e ∧ cron.parses e = true := by
    obtain ⟨r₁, h₁, hcol⟩ := h.keeps_columns hrow
    obtain rfl : r₁ = r' := Option.some.inj (h₁.symm.trans hrow')
    rw [hcol.jobType, hcol.cronExpression]
    exact hst.expression
  refine ⟨fun hs => ?_, hexpr⟩
  have hsame (h₀ : (s.view j).row = some r') : (r'.nextAttemptAt.or r'.scheduledAt).isSome = true := by
    obtain rfl : r = r' := Option.some.inj (hrow.symm.trans h₀)
    exact hst.time hs
  cases h with
  | same _ | notStarted _ _ | scheduledNext _ _ | died _ | crashed => exact hsame hrow'
  | notApplied _ _ _ => exact hsame (by rw [View.endFinish_row] at hrow'; exact hrow')
  | inserted _ hn _ _ _ => simp [hrow] at hn
  | cancelled _ _ | promoted _ _ | released _ _ | recovered _ _ | retried _ _ _ | claimed _ _ _ =>
    cases hrow'
    cases hs
  | started _ _ | startLost _ _ | completed _ _ _ _ | deadLettered _ _ _ _ _ =>
    rw [hrow] at hrow'
    cases hrow'
    cases hs
  | rescheduled _ _ _ _ _ =>
    rw [hrow] at hrow'
    cases hrow'
    rfl

theorem stored_of_reachable (h : Reachable (scheduler cron) (fun _ l => l.requestsComplete) s) :
    ∀ r ∈ s.db.jobs.rows, r.Stored cron := by
  refine Reachable.invariant (I := fun s => ∀ r ∈ s.db.jobs.rows, r.Stored cron) ?_ ?_ h
  · intro s (hs : s.Initial) r hr
    simp [hs.jobs] at hr
  · intro s l s' _ hi hok hn r' hr'
    have hfind := Table.find?_of_mem hr'
    cases hrow : s.db.jobs.find? r'.id with
    | some r => exact (hi r (Table.mem_of_find? hrow)).step (next_effect r'.id hn) hrow hfind
    | none =>
      rcases (next_tables hn).jobs.origin_of_inserted hrow hfind with
        ⟨id, correlationId, queue, req, rfl, hv, he⟩ | ⟨row, hm, _, _, nextAt, id, correlationId, _, he⟩
      · rw [he]
        exact newJob_stored hv hok
      · rw [he]
        exact nextOccurrence_stored (hi row hm)

/-- Every stored job can still move, in runs that create jobs from complete requests only. -/
theorem stored_jobs_can_move (h : Reachable (scheduler cron) (fun _ l => l.requestsComplete) s)
    (hr : r ∈ s.db.jobs.rows) : r.CanMove cron := (stored_of_reachable h r hr).canMove

end Movable

/-- A recurring job that failed once and waits, and a delayed one. -/
theorem stored_jobs_can_move_sample :
    ∃ s r, Reachable (scheduler Sample.cron) (fun _ l => l.requestsComplete) s ∧ r ∈ s.db.jobs.rows ∧
      r.status = .scheduled ∧ r.jobType = .recurring ∧ r.CanMove Sample.cron := by
  obtain ⟨_, s, hrun, hp⟩ := Run.exists_of_exec (M := scheduler Sample.cron) Sample.sys_initial
    [.register 1 "a" "h1", .createJob 100 7 Sample.queue Sample.recurringRequest,
      .createJob 101 8 Sample.queue { Sample.request 3 with jobType := .delayed, scheduledAt := some 5 },
      .claim 1 10 [], .markRunning 0 0 .acknowledged, .finish 0 (Sample.finish (.error "timeout") 1)]
    (fun _ l => l.requestsComplete)
    (fun _ s => s.db.jobs.rows.any fun r => r.status = .scheduled && r.jobType = .recurring)
    (by decide)
  simp only [List.any_eq_true, Bool.and_eq_true, decide_eq_true_eq] at hp
  obtain ⟨r, hr, hs, ht⟩ := hp
  exact ⟨s, r, hrun.reachable, hr, hs, ht, stored_jobs_can_move hrun.reachable hr⟩

/-- A delayed job without a time is accepted, and the promoter never picks it up. -/
theorem stored_job_stuck :
    ¬∀ (cron : Cron) (s : Sys) (r : Job), Reachable (scheduler cron) (fun _ _ => True) s →
      r ∈ s.db.jobs.rows → r.CanMove cron := by
  intro hall
  obtain ⟨_, s, hrun, hp⟩ := Run.exists_of_exec (M := scheduler Sample.cron) Sample.sys_initial
    [.createJob 100 7 Sample.queue { Sample.request 3 with jobType := .delayed }]
    (fun _ _ => true)
    (fun _ s => s.db.jobs.rows.any fun r => r.status = .scheduled && (r.nextAttemptAt.or r.scheduledAt).isNone)
    (by decide)
  simp only [List.any_eq_true, Bool.and_eq_true, decide_eq_true_eq] at hp
  obtain ⟨r, hr, hs, hnone⟩ := hp
  obtain ⟨due, hdue, _⟩ := (hall _ s r (hrun.reachable.mono fun _ _ _ => trivial) hr).promotable hs
  rw [hdue] at hnone
  cases hnone

end JobScheduler
