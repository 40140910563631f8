import JobScheduler.StateMachine
import JobScheduler.Frame

namespace JobScheduler
open Relational Transition

/-- Where a worker's poller stands in its pass over a queue: nothing read yet, the queue's row read
and not paused, or the running jobs counted and below the limit. -/
inductive Stage
  | idle
  | read (queue : Queue)
  | counted (queue : Queue)

/-- The scheduler together with the poller of every worker. -/
structure PollSys where
  core : Sys
  stage : Uuid → Stage

/-- The statements of the poller, and every step of the scheduler other than a claim. After an
error the poller goes on to the next queue. -/
inductive PollLabel
  | core (l : Label)
  | findById (workerId queueId : Uuid)
  | countRunningJobs (workerId : Uuid)
  | claimNextJob (workerId : Uuid) (locked : List Uuid)
  | giveUp (workerId : Uuid)

namespace PollSys

def setStage (s : PollSys) (w : Uuid) (st : Stage) : PollSys :=
  { s with stage := Function.update s.stage w st }

def findById (s : PollSys) (w queueId : Uuid) : PollSys :=
  match s.core.db.queues.find? queueId with
  | some q => if q.isPaused then s.setStage w .idle else s.setStage w (.read q)
  | none => s.setStage w .idle

/-- `running >= queue.concurrency_limit as i64`, for the limit read before. -/
def countRunningJobs (s : PollSys) (w : Uuid) (q : Queue) : PollSys :=
  if q.concurrencyLimit.toInt ≤ JobScheduler.countRunningJobs s.core.db q.id then s.setStage w .idle
  else s.setStage w (.counted q)

def next (cron : Cron) (s : PollSys) : PollLabel → Option PollSys
  | .core (.claim _ _ _) => none
  | .core l => (s.core.next cron l).map fun c => { s with core := c }
  | .findById w queueId => if w ∈ s.core.crashed then none else
      match s.stage w with
      | .idle => some (s.findById w queueId)
      | _ => none
  | .countRunningJobs w => if w ∈ s.core.crashed then none else
      match s.stage w with
      | .read q => some (s.countRunningJobs w q)
      | _ => none
  | .claimNextJob w locked =>
    match s.stage w with
    | .counted q => (s.core.next cron (.claim w q.id locked)).map fun c =>
        { s.setStage w .idle with core := c }
    | _ => none
  | .giveUp w => some (s.setStage w .idle)

structure Initial (s : PollSys) : Prop where
  core : s.core.Initial
  stage : ∀ w, s.stage w = .idle

end PollSys

def pollers (cron : Cron) : System PollSys PollLabel := ⟨PollSys.Initial, PollSys.next cron⟩

/-- A job that holds a place of its queue: claimed, or running already. -/
def Job.active (r : Job) : Bool := r.status = .claimed || r.status = .running

def activeJobs (db : Db) (queueId : Uuid) : ℕ := db.jobs.count fun r => r.queueId = queueId && r.active

/-- Claims from queue `k` happen only while its claimed and running jobs are fewer than its limit. -/
def PollSys.withRoom (k : Uuid) (s : PollSys) : PollLabel → Bool
  | .core l => s.core.orderly l
  | .claimNextJob w _ =>
    match s.stage w with
    | .counted q => q.id ≠ k || (s.core.db.queues.find? k).any fun q' =>
        (activeJobs s.core.db k : ℤ) < q'.concurrencyLimit.toInt
    | _ => true
  | _ => true

section Projection
variable {cron : Cron} {s s' : PollSys} {pl : PollLabel}

theorem PollSys.next_of_core {l : Label} (h : s.next cron (.core l) = some s') :
    (∀ w q locked, l ≠ .claim w q locked) ∧ ∃ c, s.core.next cron l = some c ∧ s' = { s with core := c } := by
  by_cases hl : ∃ w q locked, l = .claim w q locked
  · obtain ⟨w, q, locked, rfl⟩ := hl
    cases h
  · have hne : ∀ w q locked, l ≠ .claim w q locked := fun w q locked he => hl ⟨w, q, locked, he⟩
    have hmap : (s.core.next cron l).map (fun c => { s with core := c }) = some s' := by
      cases l with
      | claim w q locked => exact absurd rfl (hne w q locked)
      | _ => exact h
    obtain ⟨c, hc, rfl⟩ := Option.map_eq_some_iff.mp hmap
    exact ⟨hne, c, hc, rfl⟩

theorem PollSys.next_core (h : s.next cron pl = some s') :
    s'.core = s.core ∨
      (∃ l, pl = .core l ∧ (∀ w q locked, l ≠ .claim w q locked) ∧ s.core.next cron l = some s'.core) ∨
      ∃ w q locked, pl = .claimNextJob w locked ∧ s.stage w = .counted q ∧
        s.core.next cron (.claim w q.id locked) = some s'.core := by
  cases pl with
  | core l =>
    obtain ⟨hne, c, hc, rfl⟩ := next_of_core h
    exact .inr (.inl ⟨l, rfl, hne, hc⟩)
  | findById w queueId =>
    simp only [next] at h
    split at h
    · cases h
    · split at h <;> cases h
      unfold findById
      split
      · split <;> exact .inl rfl
      · exact .inl rfl
  | countRunningJobs w =>
    simp only [next] at h
    split at h
    · cases h
    · split at h <;> cases h
      unfold PollSys.countRunningJobs
      split <;> exact .inl rfl
  | claimNextJob w locked =>
    simp only [next] at h
    split at h
    · rename_i q hq
      obtain ⟨c, hc, rfl⟩ := Option.map_eq_some_iff.mp h
      exact .inr (.inr ⟨w, q, locked, rfl, hq, hc⟩)
    · cases h
  | giveUp w =>
    cases h
    exact .inl rfl

/-- The pollers only restrict the order of the scheduler's steps. -/
theorem core_of_pollers {k : Uuid} (h : Reachable (pollers cron) (fun s l => s.withRoom k l) s) :
    Reachable (scheduler cron) (fun s l => s.orderly l) s.core := by
  refine Reachable.project PollSys.core (fun s (hs : s.Initial) => hs.core) ?_ h
  intro s pl s' _ hok hn
  rcases PollSys.next_core hn with hsame | ⟨l, rfl, _, hc⟩ | ⟨w, q, locked, rfl, _, hc⟩
  · exact .inl hsame
  · exact .inr ⟨l, hok, hc⟩
  · exact .inr ⟨.claim w q.id locked, rfl, hc⟩

end Projection

section Steps
variable {cron : Cron} {s s' : Sys} {l : Label} {k : Uuid}

theorem Exclusive.active_before {j : Uuid} {v : View} {r' : Job} (hi : Exclusive (s.view j))
    (h : Effect s j l v) (hrow : v.row = some r') (ha : r'.active = true) :
    (∃ r, (s.view j).row = some r ∧ r.active = true ∧ r'.queueId = r.queueId) ∨
      ∃ w locked, l = .claim w r'.queueId locked := by
  -- a branch that leaves a row that is not active
  have hidle {r₀ : Job} (h₀ : some r₀ = some r') (hs : r₀.active = false) : False := by
    cases h₀
    simp [ha] at hs
  have hsame (h₀ : (s.view j).row = some r') : ∃ r, (s.view j).row = some r ∧ r.active = true ∧
      r'.queueId = r.queueId := ⟨r', h₀, ha, rfl⟩
  cases h with
  | same _ | notStarted _ _ | scheduledNext _ _ | died _ | crashed => exact .inl (hsame hrow)
  | notApplied _ _ _ => exact .inl (hsame (by rw [View.endFinish_row] at hrow; exact hrow))
  | inserted _ _ _ hnew _ => exact (hidle hrow (by simp [Job.active, hnew.ne])).elim
  | cancelled _ _ => exact (hidle hrow (by simp [Job.active, Job.cancel])).elim
  | promoted _ _ => exact (hidle hrow (by simp [Job.active, Job.reQueue])).elim
  | released _ _ => exact (hidle hrow (by simp [Job.active, Job.reQueue])).elim
  | recovered _ _ => exact (hidle hrow (by simp [Job.active, Job.recover])).elim
  | retried _ _ _ => exact (hidle hrow (by simp [Job.active, Job.manualRetry])).elim
  | claimed h₀ hc _ =>
    cases hrow
    simp only [claimable, Bool.and_eq_true, decide_eq_true_eq] at hc
    exact .inr ⟨_, _, by rw [← hc.1.2]; rfl⟩
  | started ht hp | startLost ht hp =>
    -- marking a job running takes no further place: it was claimed before
    obtain ⟨r, h₀, _, hs⟩ := hi.row_spawned ht hp
    rw [h₀] at hrow
    cases hrow
    exact .inl ⟨r, h₀, by simp [Job.active, hs], rfl⟩
  | completed ht hp _ _ =>
    obtain ⟨r, h₀, _, _⟩ := hi.row_running ht hp
    rw [h₀] at hrow
    exact (hidle hrow (by simp [Job.active, Job.markCompleted])).elim
  | deadLettered ht hp _ _ _ =>
    obtain ⟨r, h₀, _, _⟩ := hi.row_running ht hp
    rw [h₀] at hrow
    exact (hidle hrow (by simp [Job.active, Job.markFailed])).elim
  | rescheduled ht hp _ _ _ =>
    obtain ⟨r, h₀, _, _⟩ := hi.row_running ht hp
    rw [h₀] at hrow
    exact (hidle hrow (by simp [Job.active, Job.scheduleRetry])).elim

/-- No step but a claim from the queue adds to its active jobs. -/
theorem activeJobs_next (h : Reachable (scheduler cron) (fun s l => s.orderly l) s)
    (hn : s.next cron l = some s') (hl : ∀ w locked, l ≠ .claim w k locked) :
    activeJobs s'.db k ≤ activeJobs s.db k := by
  unfold activeJobs
  refine Table.count_le_of_find? [] fun j r' hr' hp => .inr ?_
  simp only [Bool.and_eq_true, decide_eq_true_eq] at hp
  rcases (exclusive_of_orderly h j).active_before (next_effect j hn) hr' hp.2 with
    ⟨r, hr, ha, hq⟩ | ⟨w, locked, hc⟩
  · exact ⟨r, hr, by simp [ha, ← hq, hp.1]⟩
  · rw [hp.1] at hc
    exact absurd hc (hl w locked)

theorem claim_find? {w q : Uuid} {locked : List Uuid} (hn : s.next cron (.claim w q locked) = some s') :
    ∃ j₀, ∀ j, j ≠ j₀ → s'.db.jobs.find? j = s.db.jobs.find? j := by
  cases sys_step hn with
  | @claimed _ _ _ r _ _ _ =>
    refine ⟨r.id, fun j hj => ?_⟩
    simp only [Db.updateJob, Db.updateJobs, Table.find?_update_key, if_neg hj]
  | notClaimed _ => exact ⟨0, fun _ _ => rfl⟩

theorem activeJobs_claim {w q : Uuid} {locked : List Uuid}
    (hn : s.next cron (.claim w q locked) = some s') : activeJobs s'.db k ≤ activeJobs s.db k + 1 := by
  obtain ⟨j₀, hsame⟩ := claim_find? hn
  refine Table.count_le_of_find? [j₀] fun j r' hr' hp => ?_
  by_cases hj : j = j₀
  · exact .inl (by simp [hj])
  · exact .inr ⟨r', by rw [← hsame j hj]; exact hr', hp⟩

theorem activeJobs_of_no_queue {ok : Sys → Label → Prop} (h : Reachable (scheduler cron) ok s)
    (hk : s.db.queues.find? k = none) : activeJobs s.db k = 0 := by
  rw [activeJobs, Table.count, List.countP_eq_zero]
  intro r hr hp
  simp only [Bool.and_eq_true, decide_eq_true_eq] at hp
  obtain ⟨q, hq⟩ := queue_of_reachable h (Table.find?_of_mem hr)
  rw [hp.1, hk] at hq
  cases hq

theorem countRunningJobs_le_activeJobs (db : Db) (k : Uuid) : countRunningJobs db k ≤ activeJobs db k := by
  apply List.countP_mono_left
  intro r _ h
  simp only [Bool.and_eq_true, decide_eq_true_eq] at h
  simp [h.1, Job.active, h.2]

end Steps

section Runs
variable {cron : Cron} {s s' : PollSys} {pl : PollLabel} {k : Uuid}

def WithinLimit (k : Uuid) (s : PollSys) : Prop :=
  ∀ q, s.core.db.queues.find? k = some q → 0 ≤ q.concurrencyLimit.toInt →
    (activeJobs s.core.db k : ℤ) ≤ q.concurrencyLimit.toInt

/-- The limit after a step is the one before, or the queue is new and empty. -/
theorem WithinLimit.grow {l : Label} (hr : Reachable (scheduler cron) (fun s l => s.orderly l) s.core)
    (hw : WithinLimit k s) (hn : s.core.next cron l = some s'.core)
    (hle : activeJobs s'.core.db k ≤ activeJobs s.core.db k) : WithinLimit k s' := by
  intro q' hq' hpos
  cases hq : s.core.db.queues.find? k with
  | none =>
    have hzero := activeJobs_of_no_queue hr hq
    omega
  | some q =>
    obtain ⟨q₁, hq₁, hlim⟩ := (next_frame hn).queues k q hq
    obtain rfl : q₁ = q' := Option.some.inj (hq₁.symm.trans hq')
    have hold := hw q hq (by rw [← hlim]; exact hpos)
    rw [hlim]
    omega

theorem WithinLimit.step (h : Reachable (pollers cron) (fun s l => s.withRoom k l) s)
    (hw : WithinLimit k s) (hok : s.withRoom k pl = true) (hn : s.next cron pl = some s') :
    WithinLimit k s' := by
  have hcore := core_of_pollers h
  rcases PollSys.next_core hn with hsame | ⟨l, rfl, hl, hc⟩ | ⟨w, q, locked, rfl, hstage, hc⟩
  · intro q' hq' hpos
    rw [hsame] at hq' ⊢
    exact hw q' hq' hpos
  · exact hw.grow hcore hc (activeJobs_next hcore hc fun w locked => hl w k locked)
  · by_cases hk : q.id = k
    · -- the claim takes the last place at most
      intro q' hq' _
      have hone := activeJobs_claim (k := k) hc
      simp only [PollSys.withRoom, hstage, hk, ne_eq, not_true_eq_false, decide_false, Bool.false_or] at hok
      obtain ⟨q₀, hq, hroom⟩ := Option.any_eq_true _ _ |>.mp hok
      obtain ⟨q₁, hq₁, hlim⟩ := (next_frame hc).queues k q₀ hq
      obtain rfl : q₁ = q' := Option.some.inj (hq₁.symm.trans hq')
      have hroom : (activeJobs s.core.db k : ℤ) < q₀.concurrencyLimit.toInt := by simpa using hroom
      rw [hlim]
      omega
    · refine hw.grow hcore hc (activeJobs_next hcore hc fun w' locked' he => hk ?_)
      cases he
      rfl

/-- The running jobs of a queue stay within its concurrency limit, as long as claims from it are made
only while its claimed and running jobs are fewer than the limit. -/
theorem running_le_concurrencyLimit (h : Reachable (pollers cron) (fun s l => s.withRoom k l) s)
    (q : Queue) (hq : s.core.db.queues.find? k = some q) (hpos : 0 ≤ q.concurrencyLimit.toInt) :
    (countRunningJobs s.core.db k : ℤ) ≤ q.concurrencyLimit.toInt := by
  have hw : WithinLimit k s := by
    refine Reachable.invariant (I := WithinLimit k) ?_ ?_ h
    · intro s (hs : s.Initial) q hq hpos
      simpa [activeJobs, Table.count, hs.core.jobs] using hpos
    · intro s pl s' hr hw hok hn
      exact hw.step hr hok hn
  have hle := countRunningJobs_le_activeJobs s.core.db k
  have hact := hw q hq hpos
  omega

end Runs

namespace Sample

def pollSys : PollSys := ⟨sys, fun _ => .idle⟩

theorem pollSys_initial : pollSys.Initial := ⟨sys_initial, fun _ => rfl⟩

def twoWorkers : List PollLabel :=
  [.core (.register 1 "a" "h1"), .core (.register 2 "b" "h2"),
    .core (.createJob 100 7 queue (request 3)), .core (.createJob 101 8 queue (request 3))]

end Sample

/-- The second worker comes after the first one's job has failed and waits for its retry. -/
theorem running_le_concurrencyLimit_sample :
    ∃ s q, Reachable (pollers Sample.cron) (fun s l => s.withRoom 10 l) s ∧
      s.core.db.queues.find? 10 = some q ∧ 0 ≤ q.concurrencyLimit.toInt ∧
      countRunningJobs s.core.db 10 = 1 ∧
      (countRunningJobs s.core.db 10 : ℤ) ≤ q.concurrencyLimit.toInt := by
  obtain ⟨_, s, hrun, hp⟩ := Run.exists_of_exec (M := pollers Sample.cron) Sample.pollSys_initial
    (Sample.twoWorkers ++ [.findById 1 10, .countRunningJobs 1, .findById 2 10, .claimNextJob 1 [],
      .core (.markRunning 0 0 .acknowledged), .core (.finish 0 (Sample.finish (.error "timeout") 1)),
      .countRunningJobs 2, .claimNextJob 2 [], .core (.markRunning 1 0 .acknowledged)])
    (PollSys.withRoom 10)
    (fun _ s => countRunningJobs s.core.db 10 = 1 &&
      (s.core.db.queues.find? 10).any fun q => 0 ≤ q.concurrencyLimit.toInt)
    (by decide)
  simp only [Bool.and_eq_true, Option.any_eq_true, decide_eq_true_eq] at hp
  obtain ⟨hone, q, hq, hpos⟩ := hp
  exact ⟨s, q, hrun.reachable, hq, hpos, hone, running_le_concurrencyLimit hrun.reachable q hq hpos⟩

/-- Two workers count before either has claimed: two jobs run in a queue with limit 1. -/
theorem running_exceeds_concurrencyLimit :
    ¬∀ (cron : Cron) (s : PollSys) (k : Uuid) (q : Queue), Reachable (pollers cron) (fun _ _ => True) s →
      s.core.db.queues.find? k = some q → 0 ≤ q.concurrencyLimit.toInt →
      (countRunningJobs s.core.db k : ℤ) ≤ q.concurrencyLimit.toInt := by
  intro hall
  obtain ⟨_, s, hrun, hp⟩ := Run.exists_of_exec (M := pollers Sample.cron) Sample.pollSys_initial
    (Sample.twoWorkers ++ [.findById 1 10, .countRunningJobs 1, .findById 2 10, .countRunningJobs 2,
      .claimNextJob 1 [], .claimNextJob 2 [], .core (.markRunning 0 0 .acknowledged),
      .core (.markRunning 1 0 .acknowledged)])
    (fun _ _ => true)
    (fun _ s => countRunningJobs s.core.db 10 = 2 &&
      (s.core.db.queues.find? 10).any fun q => q.concurrencyLimit = 1)
    (by decide)
  simp only [Bool.and_eq_true, Option.any_eq_true, decide_eq_true_eq] at hp
  obtain ⟨htwo, q, hq, hlim⟩ := hp
  have hle := hall _ s 10 q (hrun.reachable.mono fun _ _ _ => trivial) hq (by rw [hlim, Int32.toInt_one]; omega)
  rw [htwo, hlim, Int32.toInt_one] at hle
  omega

end JobScheduler
