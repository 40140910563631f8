import JobScheduler.Lifecycle

namespace JobScheduler
open Relational Transition

/-- Recovery leaves job `j` alone while an executor task of it is in flight, and `retry_job`
is one step for it. -/
def Sys.orderlyFor (s : Sys) (j : Uuid) : Label → Bool
  | .recoverStaleJobs threshold =>
    s.tasks.table.rows.all fun t => !t.inFlight || t.job.id ≠ j ||
      (s.db.jobs.find? j).all fun r => !recoverable s.db s.now threshold r
  | .retryJobCommit dlqId _ => (s.db.deadLetterQueue.find? dlqId).all fun d => d.jobId ≠ j
  | _ => true

/-- The step model of exclusive execution: recovery fires only for jobs whose executor task is no
longer in flight, and `retry_job` is one step. -/
def Sys.orderly (s : Sys) : Label → Bool
  | .recoverStaleJobs threshold =>
    s.tasks.table.rows.all fun t => !t.inFlight ||
      (s.db.jobs.find? t.job.id).all fun r => !recoverable s.db s.now threshold r
  | .retryJobCommit _ _ => false
  | _ => true

theorem Sys.orderlyFor_of_orderly {s : Sys} {l : Label} (h : s.orderly l = true) (j : Uuid) :
    s.orderlyFor j l = true := by
  cases l with
  | recoverStaleJobs threshold =>
    apply List.all_eq_true.mpr
    intro t ht
    have hall := List.all_eq_true.mp h t ht
    by_cases hj : t.job.id = j
    · subst hj
      simpa using hall
    · simp [hj]
  | retryJobCommit dlqId retriedBy => cases h
  | _ => rfl

/-- The row is as the task's own steps left it: nobody else has written to it since the claim. -/
structure Task.Owns (t : Task) (r : Job) : Prop where
  status : r.status = if t.phase = .spawned then .claimed else .running
  workerId : r.workerId = some t.workerId
  claimedAt : r.claimedAt = t.job.claimedAt
  attemptCount : r.attemptCount = t.job.attemptCount

/-- What ties the tasks, the row and the dead-letter entries of one job together. -/
structure Exclusive (v : View) : Prop where
  single : ∀ t ∈ v.tasks, ∀ u ∈ v.tasks, t.inFlight = true → u.inFlight = true → t.id = u.id
  owner : ∀ t ∈ v.tasks, t.inFlight = true → ∃ r, v.row = some r ∧ t.Owns r
  deadSingle : ∀ d ∈ v.dead, ∀ e ∈ v.dead,
    d.manuallyRetriedAt = none → e.manuallyRetriedAt = none → d.id = e.id
  deadFailed : ∀ d ∈ v.dead, d.manuallyRetriedAt = none → ∃ r, v.row = some r ∧ r.status = .failed

/-! ## Tasks after a step -/

theorem Task.inFlight_spawned {t : Task} (h : t.phase = .spawned) : t.inFlight = true := by
  simp [inFlight, h]

theorem Task.inFlight_running {t : Task} {startedAt : Timestamp} (h : t.phase = .running startedAt) :
    t.inFlight = true := by
  simp [inFlight, h]

theorem View.endFinish_idle {v : View} {t u : Task} {x : Finish}
    (hs : ∀ u ∈ v.tasks, u.inFlight = true → u.id = t.id) (hu : u ∈ (v.endFinish t x).tasks) :
    u.inFlight = false := by
  unfold endFinish at hu
  split at hu
  · obtain ⟨u₀, hm, rfl⟩ := List.mem_map.mp hu
    by_cases hid : u₀.id = t.id
    · simp [hid, Task.inFlight]
    · simp only [hid, decide_false, Bool.false_eq_true, if_false]
      exact Bool.eq_false_iff.mpr fun hf => hid (hs u₀ hm hf)
  · obtain ⟨hm, hid⟩ := List.mem_filter.mp hu
    have hne : u.id ≠ t.id := by simpa using hid
    exact Bool.eq_false_iff.mpr fun hf => hne (hs u hm hf)

namespace Exclusive
variable {v w : View}

/-- A row that is not claimed or running has no task in flight. -/
theorem idle (hi : Exclusive v) {r : Job} (hrow : v.row = some r)
    (hs : r.status ≠ .claimed ∧ r.status ≠ .running) : ∀ t ∈ v.tasks, t.inFlight = false := by
  intro t ht
  apply Bool.eq_false_iff.mpr
  intro hf
  obtain ⟨r', hr', ho⟩ := hi.owner t ht hf
  rw [hrow] at hr'
  cases hr'
  have hst := ho.status
  split at hst
  · exact hs.1 hst
  · exact hs.2 hst

/-- A row that is not failed has no entry waiting to be retried. -/
theorem clean (hi : Exclusive v) {r : Job} (hrow : v.row = some r) (hs : r.status ≠ .failed) :
    ∀ d ∈ v.dead, d.manuallyRetriedAt ≠ none := by
  intro d hd hn
  obtain ⟨r', hr', hf⟩ := hi.deadFailed d hd hn
  rw [hrow] at hr'
  cases hr'
  exact hs hf

theorem row_spawned (hi : Exclusive v) {t : Task} (ht : t ∈ v.tasks) (hp : t.phase = .spawned) :
    ∃ r, v.row = some r ∧ t.Owns r ∧ r.status = .claimed := by
  obtain ⟨r, hr, ho⟩ := hi.owner t ht (Task.inFlight_spawned hp)
  exact ⟨r, hr, ho, by rw [ho.status, if_pos hp]⟩

theorem row_running (hi : Exclusive v) {t : Task} {startedAt : Timestamp} (ht : t ∈ v.tasks)
    (hp : t.phase = .running startedAt) : ∃ r, v.row = some r ∧ t.Owns r ∧ r.status = .running := by
  obtain ⟨r, hr, ho⟩ := hi.owner t ht (Task.inFlight_running hp)
  exact ⟨r, hr, ho, by simp [ho.status, hp]⟩

/-- What a finish transaction finds: the row is running and is that of the snapshot. -/
theorem finish_finds (hi : Exclusive v) (hc : Snapshots v) {t : Task} {startedAt : Timestamp}
    (ht : t ∈ v.tasks) (hp : t.phase = .running startedAt) :
    ∃ r, v.row = some r ∧ r.status = .running ∧ r.attemptCount = t.job.attemptCount ∧
      t.job.SameColumns r := by
  obtain ⟨r, hrow, ho, hs⟩ := hi.row_running ht hp
  obtain ⟨r', hrow', hcol⟩ := hc t ht
  obtain rfl : r = r' := Option.some.inj (hrow.symm.trans hrow')
  exact ⟨r, hrow, hs, ho.attemptCount, hcol⟩

theorem endFinish_idle (hi : Exclusive v) {t : Task} {startedAt : Timestamp} (x : Finish)
    (ht : t ∈ v.tasks) (hp : t.phase = .running startedAt) :
    ∀ u ∈ (v.endFinish t x).tasks, u.inFlight = false := by
  intro u hu
  refine View.endFinish_idle (fun u' hu' hf => ?_) hu
  exact hi.single u' hu' t ht hf (Task.inFlight_running hp)

/-- Nothing in flight and nothing waiting to be retried. -/
theorem of_idle_clean (hidle : ∀ t ∈ w.tasks, t.inFlight = false)
    (hclean : ∀ d ∈ w.dead, d.manuallyRetriedAt ≠ none) : Exclusive w where
  single t ht u _ hf _ := by simp [hidle t ht] at hf
  owner t ht hf := by simp [hidle t ht] at hf
  deadSingle d hd e _ hn _ := absurd hn (hclean d hd)
  deadFailed d hd hn := absurd hn (hclean d hd)

/-- Only `t` is in flight, it owns the row, and nothing is waiting to be retried. -/
theorem of_single {t : Task} {r : Job} (hrow : w.row = some r) (ho : t.Owns r)
    (honly : ∀ u ∈ w.tasks, u.inFlight = true → u = t)
    (hclean : ∀ d ∈ w.dead, d.manuallyRetriedAt ≠ none) : Exclusive w where
  single u hu u' hu' hf hf' := by rw [honly u hu hf, honly u' hu' hf']
  owner u hu hf := by
    rw [honly u hu hf]
    exact ⟨r, hrow, ho⟩
  deadSingle d hd _ _ hn _ := absurd hn (hclean d hd)
  deadFailed d hd hn := absurd hn (hclean d hd)

theorem of_endFinish (hi : Exclusive v) {t : Task} {startedAt : Timestamp} {x : Finish}
    (ht : t ∈ v.tasks) (hp : t.phase = .running startedAt) (hts : w.tasks = (v.endFinish t x).tasks)
    (hd : w.dead = v.dead) : Exclusive w := by
  obtain ⟨r, hrow, _, hs⟩ := hi.row_running ht hp
  apply of_idle_clean
  · rw [hts]
    exact hi.endFinish_idle x ht hp
  · rw [hd]
    exact hi.clean hrow (by simp [hs])

theorem of_drop (hi : Exclusive v) (p : Task → Bool) : Exclusive (v.drop p) where
  single t ht u hu := hi.single t (List.mem_filter.mp ht).1 u (List.mem_filter.mp hu).1
  owner t ht := hi.owner t (List.mem_filter.mp ht).1
  deadSingle := hi.deadSingle
  deadFailed := hi.deadFailed

end Exclusive

theorem Sys.orderlyFor_recover {s : Sys} {j : Uuid} {threshold : ℤ} {r : Job}
    (hok : s.orderlyFor j (.recoverStaleJobs threshold) = true) (hrow : (s.view j).row = some r)
    (hr : recoverable s.db s.now threshold r = true) : ∀ t ∈ (s.view j).tasks, t.inFlight = false := by
  intro t ht
  obtain ⟨hm, hj⟩ := mem_view_tasks.mp ht
  have hall := List.all_eq_true.mp hok t hm
  rw [show s.db.jobs.find? j = some r from hrow] at hall
  simpa [hr, hj] using hall

theorem recoverable_status {db : Db} {now : Timestamp} {threshold : ℤ} {r : Job}
    (h : recoverable db now threshold r = true) : r.status = .claimed ∨ r.status = .running := by
  simp only [recoverable, Bool.and_eq_true, Bool.or_eq_true, decide_eq_true_eq] at h
  exact h.1

theorem claimable_status {now : Timestamp} {q : Uuid} {r : Job} (h : claimable now q r = true) :
    r.status = .queued := by
  simp only [claimable, Bool.and_eq_true, decide_eq_true_eq] at h
  exact h.1.1

/-- A job that becomes `claimed` is due in its queue, and claimed from it. -/
theorem Effect.claim_of_claimed {s : Sys} {j : Uuid} {l : Label} {v : View} {r r' : Job} (h : Effect s j l v)
    (hrow : (s.view j).row = some r) (hs : r.status ≠ .claimed) (hrow' : v.row = some r')
    (hs' : r'.status = .claimed) :
    ∃ w locked, l = .claim w r.queueId locked ∧ w ∉ s.crashed ∧ claimable s.now r.queueId r = true := by
  have hsame (h₀ : (s.view j).row = some r') :
      ∃ w locked, l = .claim w r.queueId locked ∧ w ∉ s.crashed ∧ claimable s.now r.queueId r = true := by
    obtain rfl : r = r' := Option.some.inj (hrow.symm.trans h₀)
    exact absurd hs' hs
  cases h with
  | same _ | notStarted _ _ | scheduledNext _ _ | died _ | crashed => exact hsame hrow'
  | notApplied _ _ _ => exact hsame (by rw [View.endFinish_row] at hrow'; exact hrow')
  | inserted _ hn _ _ _ => simp [hrow] at hn
  | cancelled _ _ | promoted _ _ | released _ _ | recovered _ _ | retried _ _ _ =>
    cases hrow'
    cases hs'
  | started _ _ | startLost _ _ | completed _ _ _ _ | deadLettered _ _ _ _ _ | rescheduled _ _ _ _ _ =>
    rw [hrow] at hrow'
    cases hrow'
    cases hs'
  | claimed h₀ hc hw =>
    obtain rfl : r = _ := Option.some.inj (hrow.symm.trans h₀)
    have hq := hc
    simp only [claimable, Bool.and_eq_true, decide_eq_true_eq] at hq
    rw [hq.1.2]
    exact ⟨_, _, rfl, hw, hc⟩

theorem dueForPromotion_status {now : Timestamp} {r : Job} (h : dueForPromotion now r = true) :
    r.status = .scheduled := by
  simp only [dueForPromotion, Bool.and_eq_true, decide_eq_true_eq] at h
  exact h.1

theorem cancellable_status {r : Job} (h : cancellable r = true) :
    r.status = .pending ∨ r.status = .queued ∨ r.status = .scheduled := by
  simpa only [cancellable, Bool.or_eq_true, decide_eq_true_eq, or_assoc] using h

theorem cancellable_ne {r : Job} (h : cancellable r = true) :
    (r.status ≠ .claimed ∧ r.status ≠ .running) ∧ r.status ≠ .completed ∧ r.status ≠ .failed := by
  rcases cancellable_status h with h | h | h <;> simp [h]

theorem recoverable_ne {db : Db} {now : Timestamp} {threshold : ℤ} {r : Job}
    (h : recoverable db now threshold r = true) : r.status ≠ .completed ∧ r.status ≠ .failed := by
  rcases recoverable_status h with h | h <;> simp [h]

theorem Job.IsNew.ne {r : Job} (h : r.IsNew) :
    (r.status ≠ .claimed ∧ r.status ≠ .running) ∧ r.status ≠ .completed := by
  rcases h.status with h | h <;> simp [h]

/-! ## The invariant over runs -/

/-- In an orderly run `retry_job` finds its job failed, and its entry waiting. -/
theorem Exclusive.retried {s : Sys} {j : Uuid} {l : Label} {r : Job} {entry : DeadLetterEntry}
    {retriedBy : Uuid} (hi : Exclusive (s.view j)) (hok : s.orderlyFor j l = true)
    (hl : l = .retryJobCommit entry.id retriedBy ∨
      l = .retryJob entry.id retriedBy ∧ entry.manuallyRetriedAt = none)
    (he : entry ∈ (s.view j).dead) (hrow : (s.view j).row = some r) :
    l = .retryJob entry.id retriedBy ∧ entry.manuallyRetriedAt = none ∧ r.status = .failed := by
  rcases hl with rfl | ⟨rfl, hn⟩
  · obtain ⟨hm, hj⟩ := Sys.mem_view_dead.mp he
    simp [Sys.orderlyFor, Table.find?_of_mem hm, hj] at hok
  · obtain ⟨r', hr', hf⟩ := hi.deadFailed entry he hn
    rw [hrow] at hr'
    cases hr'
    exact ⟨rfl, hn, hf⟩

theorem Exclusive.step {s : Sys} {j : Uuid} {l : Label} {v : View} (hi : Exclusive (s.view j))
    (hok : s.orderlyFor j l = true) (h : Effect s j l v) : Exclusive v := by
  cases h with
  | same _ => exact hi
  | inserted _ hrow _ _ _ =>
    -- without a row there was neither a task in flight nor an entry
    refine of_idle_clean (fun t ht => Bool.eq_false_iff.mpr fun hf => ?_) fun d hd hn => ?_
    · obtain ⟨r, hr, _⟩ := hi.owner t ht hf
      simp [hrow] at hr
    · obtain ⟨r, hr, _⟩ := hi.deadFailed d hd hn
      simp [hrow] at hr
  | cancelled hrow hc =>
    have hne := cancellable_ne hc
    exact of_idle_clean (hi.idle hrow hne.1) (hi.clean hrow hne.2.2)
  | promoted hrow hd =>
    have hs := dueForPromotion_status hd
    exact of_idle_clean (hi.idle hrow (by simp [hs])) (hi.clean hrow (by simp [hs]))
  | released hrow hs =>
    exact of_idle_clean (hi.idle hrow (by simp [hs])) (hi.clean hrow (by simp [hs]))
  | recovered hrow hr =>
    exact of_idle_clean (Sys.orderlyFor_recover hok hrow hr) (hi.clean hrow (recoverable_ne hr).2)
  | retried hl he hrow =>
    -- the entry retried was the only one waiting, so none is left
    obtain ⟨_, hn, hs⟩ := hi.retried hok hl he hrow
    refine of_idle_clean (hi.idle hrow (by simp [hs])) fun d hd hdn => ?_
    obtain ⟨d₀, hm, rfl⟩ := List.mem_map.mp hd
    split at hdn
    · simp [DeadLetterEntry.markRetried] at hdn
    · rename_i hne
      exact hne (hi.deadSingle d₀ hm _ he hdn hn)
  | claimed hrow hc hw =>
    rename_i r w q locked
    have hs := claimable_status hc
    have hidle := hi.idle hrow (by simp [hs])
    -- the task just spawned is the only one in flight
    refine of_single (t := ⟨s.tasks.nextId, w, r.claim w s.now, .spawned⟩) rfl
      ⟨by simp [Job.claim], rfl, rfl, rfl⟩ (fun t ht hf => ?_) (hi.clean hrow (by simp [hs]))
    rcases List.mem_append.mp ht with h | h
    · simp [hidle t h] at hf
    · exact List.mem_singleton.mp h
  | started ht hp =>
    rename_i t startedAt
    obtain ⟨r, hrow, ho, hs⟩ := hi.row_spawned ht hp
    -- the others are past their finish transaction, or `t` would not be alone
    have ho' : Task.Owns { t with phase := .running startedAt } (r.markRunning s.now) :=
      ⟨by simp [Job.markRunning], ho.workerId, ho.claimedAt, ho.attemptCount⟩
    refine of_single (by rw [hrow]; rfl) ho' (fun u hu hf => ?_) (hi.clean hrow (by simp [hs]))
    obtain ⟨u₀, hm, rfl⟩ := List.mem_map.mp hu
    by_cases hid : u₀.id = t.id
    · simp [Sys.eq_of_view_tasks hm ht hid]
    · simp only [hid, decide_false, Bool.false_eq_true, if_false] at hf
      exact absurd (hi.single u₀ hm t ht hf (Task.inFlight_spawned hp)) hid
  | notStarted ht hp => exact hi.of_drop _
  | startLost ht hp =>
    rename_i t startedAt
    obtain ⟨r, hrow, _, hs⟩ := hi.row_spawned ht hp
    refine of_idle_clean (fun u hu => Bool.eq_false_iff.mpr fun hf => ?_) (hi.clean hrow (by simp [hs]))
    obtain ⟨hm, hne⟩ := List.mem_filter.mp hu
    have hid := hi.single u hm t ht hf (Task.inFlight_spawned hp)
    simp [hid] at hne
  | notApplied ht hp hx => exact hi.of_endFinish ht hp rfl (View.endFinish_dead _ _ _)
  | completed ht hp hx hr => exact hi.of_endFinish ht hp rfl (View.endFinish_dead _ _ _)
  | deadLettered ht hp hx hr hd =>
    rename_i t startedAt x msg
    obtain ⟨r, hrow, _, hs⟩ := hi.row_running ht hp
    have hclean := hi.clean hrow (by simp [hs])
    have hidle := hi.endFinish_idle x ht hp
    -- the entry just inserted is the only one waiting
    have hnew : ∀ d ∈ (s.view j).dead ++ [x.deadLetter t msg], d.manuallyRetriedAt = none →
        d = x.deadLetter t msg := by
      intro d hd hn
      rcases List.mem_append.mp hd with h | h
      · exact absurd hn (hclean d h)
      · exact List.mem_singleton.mp h
    refine ⟨fun u hu _ _ hf _ => ?_, fun u hu hf => ?_, fun d hd e he hn hn' => ?_, fun d _ _ => ?_⟩
    · simp [hidle u hu] at hf
    · simp [hidle u hu] at hf
    · rw [hnew d hd hn, hnew e he hn']
    · rw [hrow]
      exact ⟨_, rfl, rfl⟩
  | rescheduled ht hp hx hr hd => exact hi.of_endFinish ht hp rfl (View.endFinish_dead _ _ _)
  | scheduledNext ht hp => exact hi.of_drop _
  | died ht => exact hi.of_drop _
  | crashed => exact hi.of_drop _

section Runs
variable {cron : Cron} {s s' : Sys}

theorem exclusive_of_reachable {ok : Sys → Label → Prop} {j : Uuid}
    (hok : ∀ s l, ok s l → s.orderlyFor j l = true) (h : Reachable (scheduler cron) ok s) :
    Exclusive (s.view j) := by
  refine Reachable.invariant (I := fun s => Exclusive (s.view j)) ?_ ?_ h
  · intro s (hs : s.Initial)
    rw [hs.view_eq]
    exact .of_idle_clean (by simp) (by simp)
  · intro s l s' _ hi hl hn
    exact hi.step (hok s l hl) (next_effect j hn)

theorem exclusive_of_orderly (h : Reachable (scheduler cron) (fun s l => s.orderly l) s) (j : Uuid) :
    Exclusive (s.view j) :=
  exclusive_of_reachable (fun _ _ hl => Sys.orderlyFor_of_orderly hl j) h

/-- At most one executor task is in flight for any job, and while one is, the row is claimed or
running under that task's worker and attempt count. -/
theorem exclusive_execution (h : Reachable (scheduler cron) (fun s l => s.orderly l) s) (j : Uuid) :
    s.tasks.table.count (fun t => t.inFlight && decide (t.job.id = j)) ≤ 1 ∧
      ∀ t ∈ s.tasks.table.rows, t.inFlight = true → t.job.id = j →
        ∃ r, s.db.jobs.find? j = some r ∧ (r.status = .claimed ∨ r.status = .running) ∧
          r.workerId = some t.workerId ∧ r.attemptCount = t.job.attemptCount := by
  have hi := exclusive_of_orderly h j
  constructor
  · apply Table.count_le_one
    intro t ht u hu hpt hpu
    simp only [Bool.and_eq_true, decide_eq_true_eq] at hpt hpu
    exact hi.single t (Sys.mem_view_tasks.mpr ⟨ht, hpt.2⟩) u (Sys.mem_view_tasks.mpr ⟨hu, hpu.2⟩)
      hpt.1 hpu.1
  · intro t ht hf hj
    obtain ⟨r, hrow, ho⟩ := hi.owner t (Sys.mem_view_tasks.mpr ⟨ht, hj⟩) hf
    refine ⟨r, hrow, ?_, ho.workerId, ho.attemptCount⟩
    rw [ho.status]
    split
    · exact .inl rfl
    · exact .inr rfl

/-- A failure, a retry on another worker, its crash, recovery and a third claim. -/
theorem exclusive_execution_sample :
    ∃ s, Reachable (scheduler Sample.cron) (fun s l => s.orderly l) s ∧
      (s.tasks.table.count fun t => t.inFlight && decide (t.job.id = 100)) = 1 ∧
      ∀ t ∈ s.tasks.table.rows, t.inFlight = true → t.job.id = 100 →
        ∃ r, s.db.jobs.find? 100 = some r ∧ (r.status = .claimed ∨ r.status = .running) ∧
          r.workerId = some t.workerId ∧ r.attemptCount = t.job.attemptCount := by
  obtain ⟨_, s, hrun, hone⟩ := Run.exists_of_exec (M := scheduler Sample.cron) Sample.sys_initial
    [.register 1 "a" "h1", .register 2 "b" "h2", .createJob 100 7 Sample.queue (Sample.request 3),
      .claim 1 10 [], .markRunning 0 0 .acknowledged, .finish 0 (Sample.finish (.error "timeout") 1),
      .tick 20000000, .reQueueScheduledJobs, .claim 2 10 [], .markRunning 1 20000000 .acknowledged, .crash 2,
      .recoverStaleJobs 60, .claim 1 10 []]
    Sys.orderly (fun _ s => (s.tasks.table.count fun t => t.inFlight && decide (t.job.id = 100)) = 1)
    (by decide)
  exact ⟨s, hrun.reachable, by simpa using hone, (exclusive_execution hrun.reachable 100).2⟩

end Runs

end JobScheduler
