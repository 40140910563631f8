import JobScheduler.Exclusive

namespace JobScheduler
open Relational Transition

/-- The administrative edges, outside the transition table: recovery of a claimed or running
job, cancellation of one that waits, and a dead-letter retry of a failed one. -/
def Sys.adminEdge (s : Sys) (l : Label) (j : Uuid) (before after : JobStatus) : Bool :=
  match l, before, after with
  | .recoverStaleJobs _, .claimed, .queued
  | .recoverStaleJobs _, .running, .queued => true
  | .cancelJob jobId, .pending, .failed
  | .cancelJob jobId, .queued, .failed
  | .cancelJob jobId, .scheduled, .failed => jobId = j
  | .retryJob dlqId _, .failed, .queued =>
    (s.db.deadLetterQueue.find? dlqId).any fun d => decide (d.jobId = j)
  | _, _, _ => false

def Sys.legalMove (s : Sys) (l : Label) (j : Uuid) (r r' : Job) : Prop :=
  r'.status = r.status ∨ r.canTransitionTo r'.status = true ∨
    s.adminEdge l j r.status r'.status = true

theorem Job.canTransitionTo_of_status {r : Job} {a b : JobStatus} (hr : r.status = a)
    (h : ({ r with status := a } : Job).canTransitionTo b = true) : r.canTransitionTo b = true := by
  unfold canTransitionTo at h ⊢
  rw [hr]
  exact h

section Steps
variable {s : Sys} {j : Uuid} {l : Label} {v : View} {r : Job}

/-- `UPDATE`s that run only from one status, which leads to the new one in the table. -/
theorem legalMove_of_table {r' : Job} {a : JobStatus} (hr : r.status = a)
    (h : ({ r with status := a } : Job).canTransitionTo r'.status = true) : s.legalMove l j r r' :=
  .inr (.inl (Job.canTransitionTo_of_status hr h))

theorem Exclusive.legalMove (hi : Exclusive (s.view j)) (hok : s.orderlyFor j l = true)
    (h : Effect s j l v) (hrow : (s.view j).row = some r) :
    ∃ r', v.row = some r' ∧ s.legalMove l j r r' := by
  have hsame : ∃ r', (s.view j).row = some r' ∧ s.legalMove l j r r' := ⟨r, hrow, .inl rfl⟩
  cases h with
  | same _ => exact hsame
  | inserted _ hn _ _ _ => simp [hrow] at hn
  | cancelled h₀ hc =>
    obtain rfl : r = _ := Option.some.inj (hrow.symm.trans h₀)
    refine ⟨_, rfl, .inr (.inr ?_)⟩
    rcases cancellable_status hc with h | h | h <;> simp [Sys.adminEdge, h, Job.cancel]
  | promoted h₀ hd =>
    obtain rfl : r = _ := Option.some.inj (hrow.symm.trans h₀)
    exact ⟨_, rfl, legalMove_of_table (dueForPromotion_status hd) rfl⟩
  | released h₀ hp =>
    obtain rfl : r = _ := Option.some.inj (hrow.symm.trans h₀)
    exact ⟨_, rfl, legalMove_of_table hp rfl⟩
  | recovered h₀ hr =>
    obtain rfl : r = _ := Option.some.inj (hrow.symm.trans h₀)
    refine ⟨_, rfl, .inr (.inr ?_)⟩
    rcases recoverable_status hr with h | h <;> simp [Sys.adminEdge, h, Job.recover]
  | retried hl he h₀ =>
    obtain rfl : r = _ := Option.some.inj (hrow.symm.trans h₀)
    obtain ⟨rfl, hn, hs⟩ := hi.retried hok hl he hrow
    obtain ⟨hm, hj⟩ := Sys.mem_view_dead.mp he
    refine ⟨_, rfl, .inr (.inr ?_)⟩
    simp [Sys.adminEdge, hs, Job.manualRetry, Table.find?_of_mem hm, hj]
  | claimed h₀ hc hw =>
    obtain rfl : r = _ := Option.some.inj (hrow.symm.trans h₀)
    exact ⟨_, rfl, legalMove_of_table (claimable_status hc) rfl⟩
  | started ht hp | startLost ht hp =>
    obtain ⟨r₀, h₀, _, hs⟩ := hi.row_spawned ht hp
    obtain rfl : r = r₀ := Option.some.inj (hrow.symm.trans h₀)
    exact ⟨_, by rw [hrow]; rfl, legalMove_of_table hs rfl⟩
  | notStarted ht hp => exact hsame
  | notApplied ht hp hx =>
    rw [View.endFinish_row]
    exact hsame
  | completed ht hp hx hr =>
    obtain ⟨r₀, h₀, _, hs⟩ := hi.row_running ht hp
    obtain rfl : r = r₀ := Option.some.inj (hrow.symm.trans h₀)
    exact ⟨_, by rw [hrow]; rfl, legalMove_of_table hs rfl⟩
  | deadLettered ht hp hx hr hd =>
    obtain ⟨r₀, h₀, _, hs⟩ := hi.row_running ht hp
    obtain rfl : r = r₀ := Option.some.inj (hrow.symm.trans h₀)
    exact ⟨_, by rw [hrow]; rfl, legalMove_of_table hs rfl⟩
  | rescheduled ht hp hx hr hd =>
    obtain ⟨r₀, h₀, _, hs⟩ := hi.row_running ht hp
    obtain rfl : r = r₀ := Option.some.inj (hrow.symm.trans h₀)
    exact ⟨_, by rw [hrow]; rfl, legalMove_of_table hs rfl⟩
  | scheduledNext ht hp => exact hsame
  | died ht => exact hsame
  | crashed => exact hsame

theorem completed_of_legalMove {r' : Job} (h : s.legalMove l j r r') (hr : r.status = .completed) :
    r'.status = .completed := by
  rcases h with h | h | h
  · rw [h, hr]
  · simp [Job.canTransitionTo, hr] at h
  · rw [hr] at h
    unfold Sys.adminEdge at h
    split at h <;> simp_all

end Steps

section Runs
variable {cron : Cron} {s s' : Sys} {l : Label}

theorem legalMove_of_reachable (h : Reachable (scheduler cron) (fun s l => s.orderly l) s)
    (hok : s.orderly l = true) (hn : s.next cron l = some s') {j : Uuid} {r : Job}
    (hr : s.db.jobs.find? j = some r) :
    ∃ r', s'.db.jobs.find? j = some r' ∧ s.legalMove l j r r' :=
  (exclusive_of_orderly h j).legalMove (Sys.orderlyFor_of_orderly hok j) (next_effect j hn) hr

/-- The raw `UPDATE`s refine the job state machine: each step leaves every job its row, with a
status that is unchanged, reached by an edge of the table, or by an administrative edge; and
`completed` is never left. -/
theorem updates_refine_state_machine (h : Reachable (scheduler cron) (fun s l => s.orderly l) s)
    (hok : s.orderly l = true) (hn : s.next cron l = some s') (j : Uuid) (r : Job)
    (hr : s.db.jobs.find? j = some r) :
    ∃ r', s'.db.jobs.find? j = some r' ∧
      (r'.status = r.status ∨ r.canTransitionTo r'.status = true ∨
        s.adminEdge l j r.status r'.status = true) ∧
      (r.status = .completed → r'.status = .completed) := by
  obtain ⟨r', hr', hm⟩ := legalMove_of_reachable h hok hn hr
  exact ⟨r', hr', hm, completed_of_legalMove hm⟩

/-- The recovery of a running job, after a crash, is such a step. -/
theorem updates_refine_state_machine_sample :
    ∃ s s' r, Reachable (scheduler Sample.cron) (fun s l => s.orderly l) s ∧
      s.next Sample.cron (.recoverStaleJobs 60) = some s' ∧ s.db.jobs.find? 100 = some r ∧
      r.status = .running ∧
      ∃ r', s'.db.jobs.find? 100 = some r' ∧
        (r'.status = r.status ∨ r.canTransitionTo r'.status = true ∨
          s.adminEdge (.recoverStaleJobs 60) 100 r.status r'.status = true) ∧
        (r.status = .completed → r'.status = .completed) := by
  obtain ⟨_, s, hrun, hp⟩ := Run.exists_of_exec (M := scheduler Sample.cron) Sample.sys_initial
    [.register 1 "a" "h1", .createJob 100 7 Sample.queue (Sample.request 3), .claim 1 10 [],
      .markRunning 0 0 .acknowledged, .crash 1]
    Sys.orderly
    (fun _ s => s.orderly (.recoverStaleJobs 60) &&
      (s.db.jobs.find? 100).any fun r => r.status = .running)
    (by decide)
  simp only [Bool.and_eq_true, Option.any_eq_true, decide_eq_true_eq] at hp
  obtain ⟨hok, r, hr, hs⟩ := hp
  exact ⟨s, _, r, hrun.reachable, rfl, hr, hs,
    updates_refine_state_machine hrun.reachable hok rfl 100 r hr⟩

end Runs

end JobScheduler
