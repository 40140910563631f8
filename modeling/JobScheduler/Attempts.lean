import JobScheduler.Accounting

namespace JobScheduler
open Relational Transition

def Sys.starts (s : Sys) (l : Label) (j : Uuid) : Bool :=
  match l with
  | .markRunning _ _ outcome => s.actsOn l j && outcome ≠ .lostBefore
  | _ => false

def startsOf (j : Uuid) (h : List (Sys × Label)) : ℕ := h.countP fun q => q.1.starts q.2 j

def Sys.noRetryOf (s : Sys) (j : Uuid) : Label → Bool
  | .retryJob dlqId _ => (s.db.deadLetterQueue.find? dlqId).all fun d => d.jobId ≠ j
  | .retryJobCommit dlqId _ => (s.db.deadLetterQueue.find? dlqId).all fun d => d.jobId ≠ j
  | _ => true

/-- Recovery does not re-queue job `j` once it is running, nor while a task of it is in flight. -/
def Sys.sparesStarted (s : Sys) (j : Uuid) : Label → Bool
  | .recoverStaleJobs threshold => (s.db.jobs.find? j).all fun r =>
      !recoverable s.db s.now threshold r ||
        (r.status ≠ .running && s.tasks.table.rows.all fun t => !t.inFlight || t.job.id ≠ j)
  | _ => true

theorem Sys.orderlyFor_of_sparesStarted {s : Sys} {j : Uuid} {l : Label} (hn : s.noRetryOf j l = true)
    (hs : s.sparesStarted j l = true) : s.orderlyFor j l = true := by
  cases l with
  | recoverStaleJobs threshold =>
    apply List.all_eq_true.mpr
    intro t ht
    cases hr : s.db.jobs.find? j with
    | none => simp
    | some r =>
      simp only [sparesStarted, hr, Option.all_some, Bool.or_eq_true, Bool.and_eq_true] at hs
      rcases hs with hrec | ⟨_, hall⟩
      · simpa using Or.inr hrec
      · have := List.all_eq_true.mp hall t ht
        simp_all
  | retryJobCommit dlqId retriedBy => exact hn
  | _ => rfl

/-- 1 while an execution of the job has begun and its failure is not recorded. -/
def Job.begun (r : Job) : ℤ := if r.status = .running ∨ r.status = .completed then 1 else 0

/-- The starts so far against the attempt counter, and the counter against its limit. -/
structure Started (n : ℕ) (r : Job) : Prop where
  count : (n : ℤ) = r.attemptCount.toInt + r.begun
  bound : r.attemptCount.toInt + (if r.status = .failed then 0 else 1) ≤ max 1 r.maxAttempts.toInt

structure StartCount (n : ℕ) (v : View) : Prop where
  absent : v.row = none → n = 0
  present : ∀ r, v.row = some r → Started n r

section Steps
variable {n : ℕ} {r r' : Job} {t : Task}

theorem Started.le_maxAttempts (h : Started n r) : (n : ℤ) ≤ max 1 r.maxAttempts.toInt := by
  have hc := h.count
  have hb := h.bound
  unfold Job.begun at hc
  by_cases hf : r.status = .failed
  · simp only [hf, reduceCtorEq, or_self, if_false, if_true] at hc hb
    omega
  · rw [if_neg hf] at hb
    split at hc <;> omega

theorem Started.of_isNew (hnew : r.IsNew) : Started 0 r := by
  have ha : r.attemptCount.toInt = 0 := by rw [hnew.attemptCount]; rfl
  have hbegun : r.begun = 0 := by simp [Job.begun, hnew.ne]
  refine ⟨?_, ?_⟩
  · rw [ha, hbegun]
    rfl
  · rw [ha]
    split <;> omega

theorem Started.restatus (h : Started n r) (hb : r'.begun = r.begun) (hf : r.status ≠ .failed)
    (ha : r'.attemptCount = r.attemptCount) (hm : r'.maxAttempts = r.maxAttempts) : Started n r' := by
  refine ⟨by rw [hb, ha]; exact h.count, ?_⟩
  have hbound := h.bound
  rw [if_neg hf] at hbound
  rw [ha, hm]
  split <;> omega

theorem Started.begin (h : Started n r) (hs : r.status = .claimed) (now : Timestamp) :
    Started (n + 1) (r.markRunning now) := by
  have hc := h.count
  have hb := h.bound
  rw [Job.begun, if_neg (by simp [hs])] at hc
  rw [if_neg (by simp [hs])] at hb
  refine ⟨?_, ?_⟩
  · rw [Job.begun, if_pos (.inl rfl)]
    show ((n + 1 : ℕ) : ℤ) = r.attemptCount.toInt + 1
    omega
  · rw [if_neg (by simp [Job.markRunning])]
    exact hb

theorem Started.attempt_toInt (h : Started n r) (hs : r.status = .running)
    (hat : r.attemptCount = t.job.attemptCount) : t.attempt.toInt = r.attemptCount.toInt + 1 := by
  have hb := h.bound
  have hm := Int32.toInt_lt r.maxAttempts
  rw [if_neg (by simp [hs])] at hb
  rw [hat]
  apply Task.attempt_toInt
  rw [← hat, Int32.lt_iff_toInt_lt, Int32.toInt_maxValue]
  omega

theorem Started.record (h : Started n r) (hs : r.status = .running)
    (hat : r.attemptCount = t.job.attemptCount) (ha : r'.attemptCount = t.attempt)
    (hm : r'.maxAttempts = r.maxAttempts) (hb : r'.begun = 0)
    (hlim : r'.status = .failed ∨ t.attempt.toInt < r.maxAttempts.toInt) : Started n r' := by
  have htoInt := h.attempt_toInt hs hat
  have hc := h.count
  have hbound := h.bound
  rw [Job.begun, if_pos (.inl hs)] at hc
  rw [if_neg (by simp [hs])] at hbound
  refine ⟨by rw [ha, hb, htoInt]; omega, ?_⟩
  rw [ha, hm, htoInt]
  by_cases hf : r'.status = .failed
  · rw [if_pos hf]
    omega
  · have hlt := hlim.resolve_left hf
    rw [if_neg hf]
    omega

theorem StartCount.of_row {w : View} (hrow : w.row = some r) (hs : Started n r) : StartCount n w where
  absent hn := by simp [hrow] at hn
  present r' hr' := by
    rw [hrow] at hr'
    cases hr'
    exact hs

theorem Sys.starts_of_actsOn {s : Sys} {l : Label} {j : Uuid} (h : s.actsOn l j = false) :
    s.starts l j = false := by
  unfold starts
  split
  · simp [h]
  · rfl

theorem Sys.starts_markRunning {s : Sys} {j : Uuid} {startedAt : Timestamp} {outcome : CommitOutcome}
    (ht : t ∈ (s.view j).tasks) :
    s.starts (.markRunning t.id startedAt outcome) j = decide (outcome ≠ .lostBefore) := by
  obtain ⟨hm, rfl⟩ := mem_view_tasks.mp ht
  have hf : s.tasks.find? t.id = some t := Table.find?_of_mem hm
  simp [starts, actsOn, Label.task, hf]

theorem StartCount.step {s : Sys} {j : Uuid} {l : Label} {v : View} (hc : StartCount n (s.view j))
    (hi : Exclusive (s.view j)) (hcol : Snapshots (s.view j)) (hn : s.noRetryOf j l = true)
    (hs : s.sparesStarted j l = true) (h : Effect s j l v) :
    StartCount (n + if s.starts l j then 1 else 0) v := by
  -- the row as it was, by a step that starts nothing
  have hkeep (hst : s.starts l j = false) {w : View} (hw : w.row = (s.view j).row) :
      StartCount (n + if s.starts l j then 1 else 0) w := by
    rw [hst]
    exact ⟨fun h => hc.absent (hw.symm.trans h), fun r h => hc.present r (hw.symm.trans h)⟩
  cases h with
  | same ha => exact hkeep (Sys.starts_of_actsOn ha) rfl
  | inserted ha hrow _ hnew _ =>
    rw [Sys.starts_of_actsOn ha, hc.absent hrow]
    exact .of_row rfl (.of_isNew hnew)
  | cancelled hrow hcan =>
    have hne := cancellable_ne hcan
    exact .of_row rfl ((hc.present _ hrow).restatus (by simp [Job.begun, Job.cancel, hne]) hne.2.2
      rfl rfl)
  | promoted hrow hd =>
    have hst := dueForPromotion_status hd
    exact .of_row rfl ((hc.present _ hrow).restatus (by simp [Job.begun, Job.reQueue, hst])
      (by simp [hst]) rfl rfl)
  | released hrow hst =>
    exact .of_row rfl ((hc.present _ hrow).restatus (by simp [Job.begun, Job.reQueue, hst])
      (by simp [hst]) rfl rfl)
  | recovered hrow hr =>
    -- only a claim that was never started is taken back
    have hfind : s.db.jobs.find? j = some _ := hrow
    simp only [Sys.sparesStarted, hfind, Option.all_some, hr, Bool.not_true, Bool.false_or,
      Bool.and_eq_true, decide_eq_true_eq] at hs
    have hst := (recoverable_status hr).resolve_right hs.1
    exact .of_row rfl ((hc.present _ hrow).restatus (by simp [Job.begun, Job.recover, hst])
      (by simp [hst]) rfl rfl)
  | retried hl he hrow =>
    obtain ⟨hm, hj⟩ := Sys.mem_view_dead.mp he
    rcases hl with rfl | ⟨rfl, _⟩ <;> simp [Sys.noRetryOf, Table.find?_of_mem hm, hj] at hn
  | claimed hrow hcl _ =>
    have hst := claimable_status hcl
    exact .of_row rfl ((hc.present _ hrow).restatus (by simp [Job.begun, Job.claim, hst])
      (by simp [hst]) rfl rfl)
  | started ht hp | startLost ht hp =>
    obtain ⟨r, hrow, _, hst⟩ := hi.row_spawned ht hp
    rw [Sys.starts_markRunning ht]
    exact .of_row (by rw [hrow]; rfl) ((hc.present _ hrow).begin hst s.now)
  | notStarted ht hp => exact hkeep (Sys.starts_markRunning ht) rfl
  | notApplied _ _ _ => exact hkeep rfl (View.endFinish_row _ _ _)
  | completed ht hp _ _ =>
    obtain ⟨r, hrow, hst, _, _⟩ := hi.finish_finds hcol ht hp
    exact .of_row (r := r.markCompleted s.now) (by rw [hrow]; rfl)
      ((hc.present _ hrow).restatus (by simp [Job.begun, Job.markCompleted, hst]) (by simp [hst]) rfl rfl)
  | deadLettered ht hp _ _ _ =>
    obtain ⟨r, hrow, hst, hat, _⟩ := hi.finish_finds hcol ht hp
    exact .of_row (r := r.markFailed _ s.now) (by rw [hrow]; rfl)
      ((hc.present _ hrow).record hst hat rfl rfl (by simp [Job.begun, Job.markFailed]) (.inl rfl))
  | rescheduled ht hp _ _ hd =>
    obtain ⟨r, hrow, hst, hat, hsame⟩ := hi.finish_finds hcol ht hp
    have hlt := not_le.mp (mt (Task.shouldDlq_iff hsame).mpr (by simp [hd]))
    exact .of_row (r := r.scheduleRetry _ _ s.now) (by rw [hrow]; rfl)
      ((hc.present _ hrow).record hst hat rfl rfl (by simp [Job.begun, Job.scheduleRetry]) (.inr hlt))
  | scheduledNext _ _ | died _ | crashed => exact hkeep rfl rfl

end Steps

section Runs
variable {cron : Cron} {h : List (Sys × Label)} {s : Sys} {j : Uuid}

theorem startCount_of_run
    (hr : Run (scheduler cron) (fun s l => s.noRetryOf j l && s.sparesStarted j l) h s) :
    StartCount (startsOf j h) (s.view j) := by
  refine Run.invariant (I := fun h s => StartCount (startsOf j h) (s.view j)) ?_ ?_ hr
  · intro s (hs : s.Initial)
    rw [hs.view_eq]
    exact ⟨fun _ => rfl, fun r hr => by cases hr⟩
  · intro h s l s' hrun hc hok hn
    obtain ⟨hretry, hspare⟩ := Bool.and_eq_true_iff.mp hok
    have hi : Exclusive (s.view j) := by
      refine exclusive_of_reachable (fun s l hl => ?_) hrun.reachable
      obtain ⟨h₁, h₂⟩ := Bool.and_eq_true_iff.mp hl
      exact Sys.orderlyFor_of_sparesStarted h₁ h₂
    rw [startsOf, List.countP_cons]
    exact hc.step hi (snapshots_of_reachable hrun.reachable j) hretry hspare (next_effect j hn)

/-- Executors start a job at most `max(1, max_attempts)` times, as long as recovery does not
re-queue it once it is running or while a task of it is in flight. -/
theorem starts_le_maxAttempts
    (hr : Run (scheduler cron) (fun s l => s.noRetryOf j l && s.sparesStarted j l) h s) (r : Job)
    (hrow : s.db.jobs.find? j = some r) : (startsOf j h : ℤ) ≤ max 1 r.maxAttempts.toInt :=
  ((startCount_of_run hr).present r hrow).le_maxAttempts

/-- Two starts of a job with two attempts: a crash before the first start, a failure, a success. -/
theorem starts_le_maxAttempts_sample :
    ∃ h s r, Run (scheduler Sample.cron) (fun s l => s.noRetryOf 100 l && s.sparesStarted 100 l) h s ∧
      s.db.jobs.find? 100 = some r ∧ startsOf 100 h = 2 ∧
      (startsOf 100 h : ℤ) ≤ max 1 r.maxAttempts.toInt := by
  obtain ⟨h, s, hrun, hp⟩ := Run.exists_of_exec (M := scheduler Sample.cron) Sample.sys_initial
    [.register 1 "a" "h1", .register 2 "b" "h2", .createJob 100 7 Sample.queue (Sample.request 2),
      .claim 1 10 [], .crash 1, .recoverStaleJobs 60, .claim 2 10 [], .markRunning 1 0 .acknowledged,
      .finish 1 (Sample.finish (.error "timeout") 1), .tick 20000000, .reQueueScheduledJobs,
      .claim 2 10 [], .markRunning 2 0 .acknowledged, .finish 2 (Sample.finish (.ok ()) 2)]
    (fun s l => s.noRetryOf 100 l && s.sparesStarted 100 l)
    (fun h s => startsOf 100 h = 2 && (s.db.jobs.find? 100).isSome) (by decide)
  simp only [Bool.and_eq_true, decide_eq_true_eq] at hp
  obtain ⟨r, hrow⟩ := Option.isSome_iff_exists.mp hp.2
  exact ⟨h, s, r, hrun, hrow, hp.1, starts_le_maxAttempts hrun r hrow⟩

/-- With recovery of running jobs there is no such bound: a job with one attempt takes its worker
down, is recovered and started again, and is neither failed nor dead-lettered. -/
theorem starts_exceed_maxAttempts :
    ¬∀ (cron : Cron) (h : List (Sys × Label)) (s : Sys) (j : Uuid) (r : Job),
      Run (scheduler cron) (fun s l => s.noRetryOf j l) h s → s.db.jobs.find? j = some r →
      ¬(r.status = .failed ∧ ∃ d ∈ s.db.deadLetterQueue.rows, d.jobId = j) →
      (startsOf j h : ℤ) ≤ max 1 r.maxAttempts.toInt := by
  intro hall
  obtain ⟨h, s, hrun, hp⟩ := Run.exists_of_exec (M := scheduler Sample.cron) Sample.sys_initial
    [.register 1 "a" "h1", .register 2 "b" "h2", .createJob 100 7 Sample.queue (Sample.request 1),
      .claim 1 10 [], .markRunning 0 0 .acknowledged, .crash 1, .recoverStaleJobs 60, .claim 2 10 [],
      .markRunning 1 0 .acknowledged]
    (fun s l => s.noRetryOf 100 l)
    (fun h s => startsOf 100 h = 2 &&
      (s.db.jobs.find? 100).any fun r => r.status = .running && r.maxAttempts = 1) (by decide)
  simp only [Bool.and_eq_true, Option.any_eq_true, decide_eq_true_eq] at hp
  obtain ⟨hn, r, hrow, hs, hm⟩ := hp
  have hle := hall _ h s 100 r hrun hrow (by simp [hs])
  rw [hn, hm, Int32.toInt_one] at hle
  omega

end Runs

end JobScheduler
