import JobScheduler.Exclusive
import JobScheduler.Frame

namespace JobScheduler
open Relational Transition

/-- Recovery takes the job away from a task: the row it re-queues still carries the worker and
the claim time the task was given. -/
def Sys.takesFrom (s : Sys) (l : Label) (task : ℕ) : Bool :=
  match l with
  | .recoverStaleJobs threshold =>
    (s.tasks.find? task).any fun t => (s.db.jobs.find? t.job.id).any fun r =>
      recoverable s.db s.now threshold r && r.workerId = some t.workerId &&
        r.claimedAt = t.job.claimedAt
  | _ => false

/-- After the steps `h`, an executor task's step `l` changes its job's row only while the row
carries the worker and the claim the task was given, and only if no recovery has taken the job
from it. -/
def Fenced (h : List (Sys × Label)) (s : Sys) (l : Label) (s' : Sys) : Prop :=
  ∀ t ∈ s.tasks.table.rows, l.task = some t.id →
    s'.db.jobs.find? t.job.id ≠ s.db.jobs.find? t.job.id →
    (∃ r, s.db.jobs.find? t.job.id = some r ∧ r.workerId = some t.workerId ∧
      r.claimedAt = t.job.claimedAt) ∧
    ∀ q ∈ h, q.1.takesFrom q.2 t.id = false

/-! ## The life of a task -/

theorem Task.Becomes.trans {t u w : Task} (h : t.Becomes u) (h' : u.Becomes w) : t.Becomes w where
  id := h'.id.trans h.id
  workerId := h'.workerId.trans h.workerId
  job := h'.job.trans h.job
  inFlight := fun hf => h.inFlight (h'.inFlight hf)

section Tasks
variable {cron : Cron} {s s' : Sys} {l : Label}

theorem next_task_before (h : s.next cron l = some s') {t : Task} (ht : t ∈ s'.tasks.table.rows) :
    (∃ t₀ ∈ s.tasks.table.rows, t₀.Becomes t) ∨ t.id = s.tasks.nextId := by
  have hv : t ∈ (s'.view t.job.id).tasks := Sys.mem_view_tasks.mpr ⟨ht, rfl⟩
  rcases (next_effect t.job.id h).task_before hv with ⟨t₀, hm, hb⟩ | ⟨r, w, q, locked, _, _, _, he⟩
  · exact .inl ⟨t₀, (Sys.mem_view_tasks.mp hm).1, hb⟩
  · exact .inr (by rw [he])

/-- A task met earlier in the run under the same number is the same task, not further on. -/
theorem task_history {ok : Sys → Label → Prop} {h : List (Sys × Label)}
    (hr : Run (scheduler cron) ok h s) : ∀ q ∈ h, q.1.tasks.nextId ≤ s.tasks.nextId ∧
      ∀ u ∈ q.1.tasks.table.rows, ∀ t ∈ s.tasks.table.rows, t.id = u.id → u.Becomes t := by
  induction hr with
  | start _ =>
    intro q hq
    cases hq
  | step _ _ hn ih =>
    -- a task of the new state is an old one or has the number `nextId`, which no earlier task had
    rename_i h s s' l _ _
    intro q hq
    have hmono := (next_frame hn).nextId
    rcases List.mem_cons.mp hq with rfl | hq
    · refine ⟨hmono, fun u hu t ht hid => ?_⟩
      rcases next_task_before hn ht with ⟨t₀, hm, hb⟩ | hnew
      · rwa [List.inj_on_of_nodup_map s.tasks.table.nodup hu hm (hid.symm.trans hb.id)]
      · have := s.tasks.fresh u hu
        omega
    · obtain ⟨hle, hold⟩ := ih q hq
      refine ⟨hle.trans hmono, fun u hu t ht hid => ?_⟩
      rcases next_task_before hn ht with ⟨t₀, hm, hb⟩ | hnew
      · exact (hold u hu t₀ hm (hb.id.symm.trans hid)).trans hb
      · have := q.1.tasks.fresh u hu
        omega

theorem Effect.inFlight_of_write {v : View} {t : Task} (h : Effect s t.job.id l v)
    (ht : t ∈ (s.view t.job.id).tasks) (hl : l.task = some t.id)
    (hne : v.row ≠ (s.view t.job.id).row) : t.inFlight = true := by
  have hsame {t' : Task} (ht' : t' ∈ (s.view t.job.id).tasks) (he : some t'.id = some t.id) : t' = t :=
    Sys.eq_of_view_tasks ht' ht (Option.some.inj he)
  have hact : s.actsOn l t.job.id = true := by
    have hf : s.tasks.find? t.id = some t := Table.find?_of_mem (Sys.mem_view_tasks.mp ht).1
    simp [Sys.actsOn, hl, hf]
  cases h with
  | same _ => exact absurd rfl hne
  | inserted ha _ _ _ _ => simp [hact] at ha
  | cancelled _ _ | promoted _ _ | released _ _ | recovered _ _ | claimed _ _ _ | crashed => cases hl
  | retried hl' _ _ => rcases hl' with rfl | ⟨rfl, _⟩ <;> cases hl
  | started ht' hp | startLost ht' hp =>
    rw [← hsame ht' hl]
    exact Task.inFlight_spawned hp
  | notStarted _ _ | scheduledNext _ _ | died _ => exact absurd rfl hne
  | notApplied _ _ _ => exact absurd (View.endFinish_row _ _ _) hne
  | completed ht' hp _ _ | deadLettered ht' hp _ _ _ | rescheduled ht' hp _ _ _ =>
    rw [← hsame ht' hl]
    exact Task.inFlight_running hp

end Tasks

/-! ## Fencing in orderly runs -/

theorem Sys.orderly_takesFrom {s : Sys} {l : Label} {t : Task} (hok : s.orderly l = true)
    (ht : t ∈ s.tasks.table.rows) (hf : t.inFlight = true) : s.takesFrom l t.id = false := by
  cases l with
  | recoverStaleJobs threshold =>
    have hall := List.all_eq_true.mp hok t ht
    have hfind : s.tasks.find? t.id = some t := Table.find?_of_mem ht
    simp only [takesFrom, hfind, Option.any_some]
    cases hrow : s.db.jobs.find? t.job.id with
    | none => rfl
    | some r =>
      simp only [hf, hrow, Bool.not_true, Bool.false_or, Option.all_some, Bool.not_eq_true'] at hall
      simp [hall]
  | _ => rfl

/-- While recovery leaves the jobs of tasks in flight alone, executors are fenced. -/
theorem executor_writes_fenced {cron : Cron} {h : List (Sys × Label)} {s s' : Sys} {l : Label}
    (hr : Run (scheduler cron) (fun s l => s.orderly l) h s) (hn : s.next cron l = some s') :
    Fenced h s l s' := by
  intro t ht hl hne
  have hv : t ∈ (s.view t.job.id).tasks := Sys.mem_view_tasks.mpr ⟨ht, rfl⟩
  have hf : t.inFlight = true := (next_effect t.job.id hn).inFlight_of_write hv hl hne
  obtain ⟨r, hrow, ho⟩ := (exclusive_of_orderly hr.reachable t.job.id).owner t hv hf
  refine ⟨⟨r, hrow, ho.workerId, ho.claimedAt⟩, fun q hq => ?_⟩
  cases hu : q.1.tasks.find? t.id with
  | none =>
    unfold Sys.takesFrom
    split
    · simp [hu]
    · rfl
  | some u =>
    obtain ⟨hm, hid⟩ := Tasks.find?_some hu
    have hb := (task_history hr q hq).2 u hm t ht hid.symm
    rw [← hid]
    exact Sys.orderly_takesFrom (hr.ok_of_mem hq) hm (hb.inFlight hf)

/-- A second claim after a crash: the mark-running step of the new task is fenced. -/
theorem executor_writes_fenced_sample :
    ∃ h s s', Run (scheduler Sample.cron) (fun s l => s.orderly l) h s ∧
      s.next Sample.cron (.markRunning 1 0 .acknowledged) = some s' ∧ Fenced h s (.markRunning 1 0 .acknowledged) s' := by
  obtain ⟨h, s, hrun, hp⟩ := Run.exists_of_exec (M := scheduler Sample.cron) Sample.sys_initial
    [.register 1 "a" "h1", .register 2 "b" "h2", .createJob 100 7 Sample.queue (Sample.request 3),
      .claim 1 10 [], .markRunning 0 0 .acknowledged, .crash 1, .recoverStaleJobs 60, .claim 2 10 []]
    Sys.orderly (fun _ s => (s.next Sample.cron (.markRunning 1 0 .acknowledged)).isSome) (by decide)
  obtain ⟨s', hn⟩ := Option.isSome_iff_exists.mp hp
  exact ⟨h, s, s', hrun, hn, executor_writes_fenced hrun hn⟩

/-- Without that condition they are not: worker 1 is slow to start, its heartbeat goes stale, the
job is recovered and claimed by worker 2, and worker 1 then marks it running. -/
theorem executor_writes_not_fenced :
    ¬∀ (cron : Cron) (h : List (Sys × Label)) (s s' : Sys) (l : Label),
      Run (scheduler cron) (fun _ _ => True) h s → s.next cron l = some s' → Fenced h s l s' := by
  intro hall
  obtain ⟨h, s, hrun, hp⟩ := Run.exists_of_exec (M := scheduler Sample.cron) Sample.sys_initial
    [.register 1 "a" "h1", .heartbeat 1 0, .register 2 "b" "h2",
      .createJob 100 7 Sample.queue (Sample.request 3), .claim 1 10 [], .tick 61000000,
      .recoverStaleJobs 60, .claim 2 10 []]
    (fun _ _ => true)
    (fun _ s => ((s.tasks.find? 0).any fun t => t.job.id = 100 && t.workerId = 1) &&
      ((s.db.jobs.find? 100).any fun r => r.status = .claimed && r.workerId = some 2) &&
      (s.next Sample.cron (.markRunning 0 0 .acknowledged)).any fun s' =>
        (s'.db.jobs.find? 100).any fun r => r.status = .running)
    (by decide)
  simp only [Bool.and_eq_true, Option.any_eq_true, decide_eq_true_eq] at hp
  obtain ⟨⟨⟨t, ht, hj, hw⟩, r, hr, hs, hown⟩, s', hn, r', hr', hs'⟩ := hp
  obtain ⟨hm, hid⟩ := Tasks.find?_some ht
  have hchange : s'.db.jobs.find? t.job.id ≠ s.db.jobs.find? t.job.id := by
    rw [hj, hr, hr']
    intro he
    rw [Option.some.inj he, hs] at hs'
    cases hs'
  have hrun' : Run (scheduler Sample.cron) (fun _ _ => True) h s := hrun.mono fun _ _ _ => trivial
  obtain ⟨⟨r₀, hr₀, hw₀, _⟩, _⟩ := hall _ h s s' _ hrun' hn t hm (by rw [hid]; rfl) hchange
  rw [hj, hr] at hr₀
  cases hr₀
  rw [hown, hw] at hw₀
  cases hw₀

end JobScheduler
