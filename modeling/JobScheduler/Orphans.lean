import JobScheduler.Exclusive
import JobScheduler.Frame

namespace JobScheduler
open Relational Transition

/-- A job that is claimed or running names its worker, and if that worker process is alive, it
has an executor task for the job in flight. -/
def Sys.NoOrphan (s : Sys) : Prop :=
  ∀ j r, s.db.jobs.find? j = some r → r.status = .claimed ∨ r.status = .running →
    ∃ w, r.workerId = some w ∧ (w ∉ s.crashed →
      ∃ t ∈ s.tasks.table.rows, t.inFlight = true ∧ t.job.id = j ∧ t.workerId = w)

/-- The statements of `execute_job` take effect: the mark-running `UPDATE` is answered, the finish
transaction is begun, fails at no statement and its `COMMIT` reaches the server; and the task
does not die by itself on the way. -/
def Sys.executorsFinish (s : Sys) : Label → Bool
  | .markRunning _ _ outcome => outcome = .acknowledged
  | .finish task x => (s.tasks.find? task).all fun t =>
      match t.phase with
      | .running startedAt => x.applies t startedAt s.now s.db
      | _ => true
  | .die task => (s.tasks.find? task).all fun t => !t.inFlight
  | _ => true

def Held (crashed : List Uuid) (v : View) : Prop :=
  ∀ r, v.row = some r → r.status = .claimed ∨ r.status = .running →
    ∃ w, r.workerId = some w ∧ (w ∉ crashed → ∃ t ∈ v.tasks, t.inFlight = true ∧ t.workerId = w)

section Steps
variable {s : Sys} {j : Uuid} {crashed : List Uuid} {v w : View}

theorem Held.of_row {r : Job} (hrow : w.row = some r)
    (hs : r.status ≠ .claimed ∧ r.status ≠ .running) : Held crashed w := by
  intro r' hr' hlive
  obtain rfl : r = r' := Option.some.inj (hrow.symm.trans hr')
  exact absurd hlive (not_or.mpr hs)

theorem Held.drop {p : Task → Bool} (hh : Held s.crashed v) (hsub : s.crashed ⊆ crashed)
    (hp : ∀ t ∈ v.tasks, t.inFlight = true → t.workerId ∉ crashed → p t = false) :
    Held crashed (v.drop p) := by
  intro r hrow hlive
  obtain ⟨w, hw, ht⟩ := hh r hrow hlive
  refine ⟨w, hw, fun hnc => ?_⟩
  obtain ⟨t, hm, hf, rfl⟩ := ht fun hc => hnc (hsub hc)
  have hkeep : t ∈ (v.drop p).tasks := List.mem_filter.mpr ⟨hm, by simp [hp t hm hf hnc]⟩
  exact ⟨t, hkeep, hf, rfl⟩

theorem Held.drop_task (hh : Held s.crashed (s.view j)) (hsub : s.crashed ⊆ crashed) {t : Task}
    (ht : t ∈ (s.view j).tasks) (hf : t.inFlight = false) :
    Held crashed ((s.view j).drop fun u => decide (u.id = t.id)) := by
  refine hh.drop hsub fun u hu hfu _ => ?_
  apply decide_eq_false
  intro hid
  rw [Sys.eq_of_view_tasks hu ht hid, hf] at hfu
  cases hfu

theorem Sys.executorsFinish_applies {t : Task} {startedAt : Timestamp} {x : Finish}
    (h : s.executorsFinish (.finish t.id x) = true) (ht : t ∈ (s.view j).tasks)
    (hp : t.phase = .running startedAt) : x.applies t startedAt s.now s.db = true := by
  have hf : s.tasks.find? t.id = some t := Table.find?_of_mem (mem_view_tasks.mp ht).1
  simpa only [executorsFinish, hf, Option.all_some, hp] using h

theorem Held.step {l : Label} (hh : Held s.crashed (s.view j)) (hi : Exclusive (s.view j))
    (hx : s.executorsFinish l = true) (h : Effect s j l v) : Held (l.crashes ++ s.crashed) v := by
  have hsub : s.crashed ⊆ l.crashes ++ s.crashed := List.subset_append_right _ _
  cases h with
  | same _ =>
    intro r hrow hlive
    obtain ⟨w, hw, ht⟩ := hh r hrow hlive
    exact ⟨w, hw, fun hnc => ht fun hc => hnc (hsub hc)⟩
  | inserted _ _ _ hnew _ => exact .of_row rfl hnew.ne.1
  | cancelled _ _ => exact .of_row rfl (by simp [Job.cancel])
  | promoted _ _ => exact .of_row rfl (by simp [Job.reQueue])
  | released _ _ => exact .of_row rfl (by simp [Job.reQueue])
  | recovered _ _ => exact .of_row rfl (by simp [Job.recover])
  | retried _ _ _ => exact .of_row rfl (by simp [Job.manualRetry])
  | claimed hrow hc hw =>
    rename_i r w q locked
    intro r' hr' _
    cases hr'
    exact ⟨w, rfl, fun _ => ⟨_, List.mem_append_right _ (List.mem_singleton_self _), rfl, rfl⟩⟩
  | started ht hp =>
    rename_i t startedAt
    obtain ⟨r, hrow, ho, _⟩ := hi.row_spawned ht hp
    intro r' hr' _
    rw [hrow] at hr'
    cases hr'
    refine ⟨t.workerId, ho.workerId, fun _ => ⟨{ t with phase := .running startedAt }, ?_, rfl, rfl⟩⟩
    exact List.mem_map.mpr ⟨t, ht, by simp⟩
  | notStarted _ _ => simp [Sys.executorsFinish] at hx
  | startLost _ _ => simp [Sys.executorsFinish] at hx
  | notApplied ht hp hna =>
    -- the early returns and the ignored commit result end here
    rw [Sys.executorsFinish_applies hx ht hp] at hna
    cases hna
  | completed ht hp _ _ =>
    obtain ⟨r, hrow, _, _⟩ := hi.row_running ht hp
    exact .of_row (r := r.markCompleted s.now) (by rw [hrow]; rfl) (by simp [Job.markCompleted])
  | deadLettered ht hp _ _ _ =>
    obtain ⟨r, hrow, _, _⟩ := hi.row_running ht hp
    exact .of_row (r := r.markFailed _ s.now) (by rw [hrow]; rfl) (by simp [Job.markFailed])
  | rescheduled ht hp _ _ _ =>
    obtain ⟨r, hrow, _, _⟩ := hi.row_running ht hp
    exact .of_row (r := r.scheduleRetry _ _ s.now) (by rw [hrow]; rfl) (by simp [Job.scheduleRetry])
  | scheduledNext ht hp => exact hh.drop_task hsub ht (by simp [Task.inFlight, hp])
  | died ht =>
    have hf : s.tasks.find? _ = some _ := Table.find?_of_mem (Sys.mem_view_tasks.mp ht).1
    exact hh.drop_task hsub ht (by simpa [Sys.executorsFinish, hf] using hx)
  | crashed =>
    -- the jobs of the dead process keep its id, for recovery to find
    rename_i w
    refine hh.drop hsub fun t _ _ hnc => decide_eq_false fun he => hnc ?_
    rw [he]
    exact List.mem_append_left _ (List.mem_singleton_self _)

end Steps

/-- As long as the statements of the executors take effect, and recovery leaves the jobs of tasks
in flight alone, no job is orphaned. -/
theorem no_orphaned_job {cron : Cron} {s : Sys}
    (h : Reachable (scheduler cron) (fun s l => s.orderly l && s.executorsFinish l) s) : s.NoOrphan := by
  have hheld (j : Uuid) : Held s.crashed (s.view j) := by
    refine Reachable.invariant (I := fun s => Held s.crashed (s.view j)) ?_ ?_ h
    · intro s (hs : s.Initial) r hr
      simp [hs.view_eq] at hr
    · intro s l s' hreach hh hok hn
      have hi : Exclusive (s.view j) := exclusive_of_reachable
        (fun _ _ hl => Sys.orderlyFor_of_orderly (Bool.and_eq_true_iff.mp hl).1 j) hreach
      rw [(next_frame hn).crashed]
      exact hh.step hi (Bool.and_eq_true_iff.mp hok).2 (next_effect j hn)
  intro j r hr hlive
  obtain ⟨w, hw, ht⟩ := hheld j r hr hlive
  refine ⟨w, hw, fun hnc => ?_⟩
  obtain ⟨t, hm, hf, hwt⟩ := ht hnc
  obtain ⟨hrow, hj⟩ := Sys.mem_view_tasks.mp hm
  exact ⟨t, hrow, hf, hj, hwt⟩

/-- One job running on a live worker, another left behind by a crash. -/
theorem no_orphaned_job_sample :
    ∃ s, Reachable (scheduler Sample.cron) (fun s l => s.orderly l && s.executorsFinish l) s ∧
      ((s.db.jobs.find? 100).any fun r => r.status = .running && r.workerId = some 1) = true ∧
      ((s.db.jobs.find? 101).any fun r => r.status = .claimed && r.workerId = some 2) = true ∧
      s.NoOrphan := by
  obtain ⟨_, s, hrun, hp⟩ := Run.exists_of_exec (M := scheduler Sample.cron) Sample.sys_initial
    [.register 1 "a" "h1", .register 2 "b" "h2", .createJob 100 7 Sample.queue (Sample.request 3),
      .claim 1 10 [], .markRunning 0 0 .acknowledged, .finish 0 (Sample.finish (.error "timeout") 1),
      .tick 20000000, .reQueueScheduledJobs, .claim 1 10 [], .markRunning 1 20000000 .acknowledged,
      .createJob 101 8 Sample.queue (Sample.request 3), .claim 2 10 [], .crash 2]
    (fun s l => s.orderly l && s.executorsFinish l)
    (fun _ s => ((s.db.jobs.find? 100).any fun r => r.status = .running && r.workerId = some 1) &&
      (s.db.jobs.find? 101).any fun r => r.status = .claimed && r.workerId = some 2)
    (by decide)
  obtain ⟨h₁, h₂⟩ := Bool.and_eq_true_iff.mp hp
  exact ⟨s, hrun.reachable, h₁, h₂, no_orphaned_job hrun.reachable⟩

/-- A failed mark-running `UPDATE` leaves the job claimed by a live worker without a task. -/
theorem orphaned_job_reachable :
    ¬∀ (cron : Cron) (s : Sys), Reachable (scheduler cron) (fun s l => s.orderly l) s → s.NoOrphan := by
  intro hall
  obtain ⟨_, s, hrun, hp⟩ := Run.exists_of_exec (M := scheduler Sample.cron) Sample.sys_initial
    [.register 1 "a" "h1", .createJob 100 7 Sample.queue (Sample.request 3), .claim 1 10 [],
      .markRunning 0 0 .lostBefore]
    Sys.orderly
    (fun _ s => ((s.db.jobs.find? 100).any fun r => r.status = .claimed && r.workerId = some 1) &&
      s.crashed.isEmpty && s.tasks.table.rows.isEmpty)
    (by decide)
  simp only [Bool.and_eq_true, Option.any_eq_true, decide_eq_true_eq, List.isEmpty_iff] at hp
  obtain ⟨⟨⟨r, hr, hs, hw⟩, hcrashed⟩, htasks⟩ := hp
  obtain ⟨w, _, ht⟩ := hall _ s hrun.reachable 100 r hr (.inl hs)
  obtain ⟨t, hm, _⟩ := ht (by simp [hcrashed])
  simp [htasks] at hm

end JobScheduler
