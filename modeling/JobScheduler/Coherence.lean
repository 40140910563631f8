import JobScheduler.Startup
import JobScheduler.DeadLetters

namespace JobScheduler
open Relational Transition

def Db.registered (db : Db) (workerId : Uuid) : Bool := (db.workers.find? workerId).isSome

/-! ## What the rows say about each other -/

/-- The project of a job is that of its queue and exists, its worker is registered, and its retry policy exists. -/
structure Job.Refers (db : Db) (j : Job) : Prop where
  queue : ∃ q, db.queues.find? j.queueId = some q ∧ q.projectId = j.projectId
  project : j.projectId ∈ db.parents.projects
  worker : ∀ w, j.workerId = some w → db.registered w = true
  retryPolicy : ∀ p, j.retryPolicyId = some p → p ∈ db.parents.retryPolicies

/-- An executor works on a job as it was submitted, for a registered worker. -/
structure Task.Refers (db : Db) (t : Task) : Prop where
  job : ∃ j, db.jobs.find? t.job.id = some j ∧ j.asSubmitted = t.job.asSubmitted
  worker : db.registered t.workerId = true

/-- The schema has neither `worker_id` nor `correlation_id` refer to anything. -/
structure JobExecution.Refers (db : Db) (e : JobExecution) : Prop where
  job : ∃ j, db.jobs.find? e.jobId = some j ∧ j.correlationId = e.correlationId
  worker : db.registered e.workerId = true

/-- Of the columns copied from the job the schema has only `job_id` refer to it; who retried it by hand is a user. -/
structure DeadLetterEntry.Refers (db : Db) (d : DeadLetterEntry) : Prop where
  job : ∃ j, db.jobs.find? d.jobId = some j ∧ j.queueId = d.queueId ∧ j.projectId = d.projectId ∧
    j.name = d.jobName ∧ j.payload = d.payload
  retriedBy : ∀ u, d.manuallyRetriedBy = some u → u ∈ db.parents.users

/-- The schema has `aggregate_id` refer to nothing. -/
structure OutboxEvent.Refers (db : Db) (e : OutboxEvent) : Prop where
  job : ∃ j, db.jobs.find? e.aggregateId = some j ∧ j.correlationId = e.correlationId
  payload : ∃ fields, e.payload = .object (("job_id", .uuid e.aggregateId) :: fields)

/-- Every copy of a column agrees with the column it was copied from, and every identifier is one
of a row that exists. -/
structure Sys.Coherent (s : Sys) : Prop where
  jobs : ∀ j ∈ s.db.jobs.rows, j.Refers s.db
  tasks : ∀ t ∈ s.tasks.table.rows, t.Refers s.db
  jobExecutions : ∀ e ∈ s.db.jobExecutions.rows, e.Refers s.db
  deadLetterQueue : ∀ d ∈ s.db.deadLetterQueue.rows, d.Refers s.db
  outboxEvents : ∀ e ∈ s.db.outboxEvents.rows, e.Refers s.db

def Sys.queueRead (s : Sys) : Label → Bool
  | .createJob _ _ queue _ => (s.db.queues.find? queue.id).any fun q => q.projectId = queue.projectId
  | _ => true

/-! ## What every step carries over -/

structure Db.Carries (db db' : Db) : Prop where
  jobs : ∀ k j, db.jobs.find? k = some j → ∃ j', db'.jobs.find? k = some j' ∧ j'.asSubmitted = j.asSubmitted
  queues : ∀ k q, db.queues.find? k = some q → ∃ q', db'.queues.find? k = some q' ∧ q'.projectId = q.projectId
  workers : ∀ w, db.registered w = true → db'.registered w = true

theorem Job.of_asSubmitted {j j' : Job} (h : j'.asSubmitted = j.asSubmitted) :
    j'.queueId = j.queueId ∧ j'.projectId = j.projectId ∧ j'.name = j.name ∧ j'.payload = j.payload ∧
      j'.correlationId = j.correlationId := by
  simp only [asSubmitted, Job.mk.injEq] at h
  obtain ⟨_, hq, hp, _, hn, hy, _, _, _, _, _, _, _, _, _, _, hc, _⟩ := h
  exact ⟨hq, hp, hn, hy, hc⟩

section Steps
variable {cron : Cron} {s s' : Sys} {l : Label} {db db' : Db}

/-- No row of `workers` is ever deleted. -/
theorem WorkersStep.keeps (h : WorkersStep s l s') {w : Uuid} (hw : s.db.registered w = true) :
    s'.db.registered w = true := by
  unfold Db.registered at hw ⊢
  cases h with
  | same hsame _ => rwa [hsame]
  | registered hdb =>
    rw [hdb, register_workers]
    split
    · rfl
    · exact hw
  | deregistered hdb =>
    have hreg : ((s'.db.workers.find? w).map Worker.registeredAt).isSome = true := by
      rw [hdb, deregister_workers, Option.isSome_map]
      exact hw
    rwa [Option.isSome_map] at hreg
  | seen hdb =>
    rw [(upsertHeartbeat_ok hdb).2.1]
    exact hw

theorem next_carries (h : s.next cron l = some s') : s.db.Carries s'.db where
  jobs k _ hj := (next_effect k h).keeps_submission hj
  queues := (next_tables h).grows.queues
  workers _ hw := (next_tables h).workers.keeps hw

/-! ## Every step keeps the references -/

theorem Job.Refers.of_queue {q : Queue} {j : Job} (hq : db.queues.find? j.queueId = some q)
    (hp : q.projectId = j.projectId) (hfk : j.asSubmitted.foreignKeys db' = true) (hc : db.Carries db')
    (hw : ∀ w, j.workerId = some w → db'.registered w = true) : j.Refers db' := by
  simp only [Job.foreignKeys, Bool.and_eq_true, decide_eq_true_eq] at hfk
  obtain ⟨⟨⟨-, hproject⟩, -⟩, hpolicy⟩ := hfk
  obtain ⟨q', hq', hp'⟩ := hc.queues _ q hq
  refine ⟨⟨q', hq', hp'.trans hp⟩, hproject, hw, fun p he => ?_⟩
  have he : j.asSubmitted.retryPolicyId = some p := he
  rw [he] at hpolicy
  simpa using hpolicy

theorem Task.Refers.carry {t t' : Task} (h : t.Refers db) (hc : db.Carries db') (hb : t.Becomes t') :
    t'.Refers db' := by
  obtain ⟨j, hj, hs⟩ := h.job
  obtain ⟨j', hj', hs'⟩ := hc.jobs _ j hj
  exact ⟨⟨j', by rw [hb.job]; exact hj', by rw [hb.job, hs', hs]⟩, by rw [hb.workerId]; exact hc.workers _ h.worker⟩

theorem JobExecution.Refers.carry {e : JobExecution} (h : e.Refers db) (hc : db.Carries db') : e.Refers db' := by
  obtain ⟨j, hj, he⟩ := h.job
  obtain ⟨j', hj', hs⟩ := hc.jobs _ j hj
  obtain ⟨_, _, _, _, hcorr⟩ := Job.of_asSubmitted hs
  exact ⟨⟨j', hj', hcorr.trans he⟩, hc.workers _ h.worker⟩

theorem DeadLetterEntry.Refers.carry {d d' : DeadLetterEntry} (h : d.Refers db) (hc : db.Carries db')
    (hd : d'.content = d.content) (hu : ∀ u, d'.manuallyRetriedBy = some u → u ∈ db'.parents.users) :
    d'.Refers db' := by
  simp only [content, mk.injEq] at hd
  obtain ⟨_, hjob, hqueue, hproject, hname, hpayload, _⟩ := hd
  obtain ⟨j, hj, h₁, h₂, h₃, h₄⟩ := h.job
  obtain ⟨j', hj', hs⟩ := hc.jobs _ j hj
  obtain ⟨hq, hp, hn, hy, _⟩ := Job.of_asSubmitted hs
  refine ⟨⟨j', by rw [hjob]; exact hj', ?_, ?_, ?_, ?_⟩, hu⟩
  · rw [hq, h₁, hqueue]
  · rw [hp, h₂, hproject]
  · rw [hn, h₃, hname]
  · rw [hy, h₄, hpayload]

theorem OutboxEvent.Refers.carry {e e' : OutboxEvent} (h : e.Refers db) (hc : db.Carries db')
    (he : e'.content = e.content) : e'.Refers db' := by
  simp only [content, mk.injEq] at he
  obtain ⟨_, _, hagg, hpayload, _, _, _, hcorr⟩ := he
  obtain ⟨j, hj, h₁⟩ := h.job
  obtain ⟨j', hj', hs⟩ := hc.jobs _ j hj
  obtain ⟨_, _, _, _, hc'⟩ := Job.of_asSubmitted hs
  obtain ⟨fields, hf⟩ := h.payload
  exact ⟨⟨j', by rw [hagg]; exact hj', by rw [hc', h₁, hcorr]⟩, fields, by rw [hpayload, hf, hagg]⟩

/-! What a finish transaction adds is copied from the task's snapshot of its job. -/

theorem Task.Refers.execution {t : Task} (h : t.Refers db) (x : Finish) (startedAt : Timestamp) :
    (x.execution t startedAt).Refers db := by
  obtain ⟨j, hj, hs⟩ := h.job
  obtain ⟨_, _, _, _, hcorr⟩ := Job.of_asSubmitted hs
  exact ⟨⟨j, hj, hcorr⟩, h.worker⟩

theorem Task.Refers.deadLetter {t : Task} (h : t.Refers db) {x : Finish} {d : DeadLetterEntry}
    (hd : d ∈ x.deadLetters t) : d.Refers db := by
  obtain ⟨j, hj, hs⟩ := h.job
  obtain ⟨hq, hp, hn, hy, _⟩ := Job.of_asSubmitted hs
  refine ⟨?_, fun u hu => by rw [x.deadLetters_new hd] at hu; cases hu⟩
  unfold Finish.deadLetters at hd
  split at hd
  · cases hd
  · split at hd
    · rw [List.mem_singleton.mp hd]
      exact ⟨j, hj, hq, hp, hn, hy⟩
    · cases hd

theorem Task.Refers.event {t : Task} (h : t.Refers db) (x : Finish) : (x.event t).Refers db := by
  obtain ⟨j, hj, hs⟩ := h.job
  obtain ⟨_, _, _, _, hcorr⟩ := Job.of_asSubmitted hs
  unfold Finish.event
  split
  · exact ⟨⟨j, hj, hcorr⟩, _, rfl⟩
  · split <;> exact ⟨⟨j, hj, hcorr⟩, _, rfl⟩

theorem claim_registered {w q : Uuid} {locked : List Uuid} (h : s.next cron (.claim w q locked) = some s') :
    s' = s ∨ s.db.registered w = true := by
  simp only [Sys.next] at h
  split at h
  · cases h
  · cases h
    unfold Sys.claim claimNextJob
    cases hn : nextClaimable s.db s.now q locked with
    | none => exact .inl rfl
    | some j =>
      cases hw : s.db.workers.find? w with
      | none => exact .inl (by simp)
      | some k =>
        right
        rw [Db.registered, hw]
        rfl

/-- The worker of a job was its worker before the step and holds it since the same time, or is alive and
claims the job in this step; and only an active job has one. -/
theorem Effect.worker_before {j : Uuid} {v : View} (h : Effect s j l v) {r' : Job} (hrow : v.row = some r')
    {w : Uuid} (hw : r'.workerId = some w) :
    (∃ r, (s.view j).row = some r ∧ r.workerId = some w ∧ r.claimedAt = r'.claimedAt ∧
      (r.active = true → r'.active = true)) ∨
      r'.active = true ∧ r'.claimedAt = some s.now ∧ w ∉ s.crashed ∧ ∃ q locked, l = .claim w q locked := by
  -- a branch that leaves the row without a worker
  have hfree (f : Job → Job) (hf : ∀ r, (f r).workerId = none) (h₀ : (s.view j).row.map f = some r') : False := by
    obtain ⟨r, _, rfl⟩ := Option.map_eq_some_iff.mp h₀
    rw [hf] at hw
    cases hw
  have hsame (h₀ : (s.view j).row = some r') :
      ∃ r, (s.view j).row = some r ∧ r.workerId = some w ∧ r.claimedAt = r'.claimedAt ∧
        (r.active = true → r'.active = true) :=
    ⟨r', h₀, hw, rfl, fun ha => ha⟩
  cases h with
  | same _ | notStarted _ _ | scheduledNext _ _ | died _ | crashed => exact .inl (hsame hrow)
  | notApplied _ _ _ => exact .inl (hsame (by rw [View.endFinish_row] at hrow; exact hrow))
  | inserted _ _ _ hnew _ =>
    cases hrow
    rw [hnew.workerId] at hw
    cases hw
  | @cancelled r h₀ hc =>
    cases hrow
    refine .inl ⟨r, h₀, hw, rfl, fun ha => ?_⟩
    simp only [cancellable, Job.active, Bool.or_eq_true, decide_eq_true_eq] at hc ha
    rcases ha with ha | ha <;> simp [ha] at hc
  | @promoted r h₀ hd =>
    cases hrow
    refine .inl ⟨r, h₀, hw, rfl, fun ha => ?_⟩
    simp only [dueForPromotion, Bool.and_eq_true, decide_eq_true_eq] at hd
    simp [Job.active, hd.1] at ha
  | @released r h₀ hp =>
    cases hrow
    refine .inl ⟨r, h₀, hw, rfl, fun ha => ?_⟩
    simp [Job.active, hp] at ha
  | recovered _ _ | retried _ _ _ =>
    cases hrow
    cases hw
  | claimed _ _ hnot =>
    cases hrow
    cases hw
    exact .inr ⟨rfl, rfl, hnot, _, _, rfl⟩
  | started _ _ | startLost _ _ =>
    obtain ⟨r, h₀, rfl⟩ := Option.map_eq_some_iff.mp hrow
    exact .inl ⟨r, h₀, hw, rfl, fun _ => rfl⟩
  | completed _ _ _ _ => exact (hfree _ (fun _ => rfl) hrow).elim
  | deadLettered _ _ _ _ _ => exact (hfree _ (fun _ => rfl) hrow).elim
  | rescheduled _ _ _ _ _ => exact (hfree _ (fun _ => rfl) hrow).elim

theorem worker_of_reachable {ok : Sys → Label → Prop} (h : Reachable (scheduler cron) ok s) :
    ∀ j r w, s.db.jobs.find? j = some r → r.workerId = some w → r.active = true ∧ s.db.registered w = true := by
  refine Reachable.invariant (I := fun s => ∀ j r w, s.db.jobs.find? j = some r → r.workerId = some w →
    r.active = true ∧ s.db.registered w = true) ?_ ?_ h
  · intro s (hs : s.Initial) j r w hr
    simp [Table.find?, hs.jobs] at hr
  · intro s l s' _ hi _ (hn : s.next cron l = some s') j r' w hr' hw
    rcases (next_effect j hn).worker_before hr' hw with ⟨r, hr, hrw, _, ha⟩ | ⟨ha, _, _, q, locked, rfl⟩
    · obtain ⟨hold, hreg⟩ := hi j r w hr hrw
      exact ⟨ha hold, (next_carries hn).workers w hreg⟩
    · refine ⟨ha, ?_⟩
      rcases claim_registered hn with rfl | hreg
      · exact (hi j r' w hr' hw).2
      · exact (next_carries hn).workers w hreg

theorem retriedBy_of_reachable {ok : Sys → Label → Prop} (h : Reachable (scheduler cron) ok s) :
    ∀ d ∈ s.db.deadLetterQueue.rows, ∀ u, d.manuallyRetriedBy = some u → u ∈ s.db.parents.users := by
  refine Reachable.invariant (I := fun s => ∀ d ∈ s.db.deadLetterQueue.rows, ∀ u, d.manuallyRetriedBy = some u →
    u ∈ s.db.parents.users) ?_ ?_ h
  · intro s (hs : s.Initial) d hd
    rw [hs.deadLetterQueue] at hd
    cases hd
  · intro s l s' _ hi _ hn d hd u hu
    have htables := next_tables hn
    rw [htables.parents]
    cases htables.dead with
    | entered ds hnew hrows =>
      rw [hrows] at hd
      rcases List.mem_append.mp hd with hd | hd
      · exact hi d hd u hu
      · rw [hnew d hd] at hu
        cases hu
    | marked dlqId retriedBy huser hrows =>
      rw [hrows] at hd
      obtain ⟨d₀, hd₀, rfl⟩ := List.mem_map.mp hd
      split at hu
      · cases hu
        exact huser
      · exact hi d₀ hd₀ u hu

theorem coherent_jobs {ok : Sys → Label → Prop} (hr : Reachable (scheduler cron) ok s') (hi : s.Coherent)
    (hok : s.queueRead l = true) (h : s.next cron l = some s') : ∀ j ∈ s'.db.jobs.rows, j.Refers s'.db := by
  intro j hj
  have hcarry := next_carries h
  have hfind := Table.find?_of_mem hj
  have hfk := foreignKeys_of_reachable hr hfind
  have hworker : ∀ w, j.workerId = some w → s'.db.registered w = true :=
    fun w hw => (worker_of_reachable hr j.id j w hfind hw).2
  cases hold : s.db.jobs.find? j.id with
  | some r =>
    obtain ⟨r', hr', hs⟩ := hcarry.jobs _ r hold
    obtain rfl : r' = j := Option.some.inj (hr'.symm.trans hfind)
    obtain ⟨hqueue, hproject, _⟩ := Job.of_asSubmitted hs
    obtain ⟨q, hq, hp⟩ := (hi.jobs r (Table.mem_of_find? hold)).queue
    rw [← hqueue] at hq
    exact .of_queue hq (hp.trans hproject.symm) hfk hcarry hworker
  | none =>
    rcases (next_tables h).jobs.origin_of_inserted hold hfind with
      ⟨id, correlationId, queue, req, rfl, _, rfl⟩ | ⟨row, hrow, _, _, nextAt, id, correlationId, _, rfl⟩
    · -- the queue that the request has read is still there, in the same project
      obtain ⟨q, hq, hp⟩ := Option.any_eq_true _ _ |>.mp hok
      have hp : q.projectId = queue.projectId := by simpa using hp
      exact .of_queue hq hp hfk hcarry hworker
    · obtain ⟨q, hq, hp⟩ := (hi.jobs row hrow).queue
      exact .of_queue hq hp hfk hcarry hworker

theorem coherent_tasks (hi : s.Coherent) (h : s.next cron l = some s') :
    ∀ t ∈ s'.tasks.table.rows, t.Refers s'.db := by
  intro t ht
  have hcarry := next_carries h
  have hv : t ∈ (s'.view t.job.id).tasks := Sys.mem_view_tasks.mpr ⟨ht, rfl⟩
  rcases (next_effect t.job.id h).task_before hv with ⟨t₀, hm, hb⟩ | ⟨r, w, q, locked, rfl, _, hrow, he⟩
  · exact (hi.tasks t₀ (Sys.mem_view_tasks.mp hm).1).carry hcarry hb
  · rcases claim_registered h with rfl | hreg
    · exact hi.tasks t ht
    · refine ⟨⟨_, hrow, by rw [he]⟩, ?_⟩
      rw [he]
      exact hcarry.workers w hreg

theorem Sys.Coherent.step {ok : Sys → Label → Prop} (hr : Reachable (scheduler cron) ok s') (hi : s.Coherent)
    (hok : s.queueRead l = true) (h : s.next cron l = some s') : s'.Coherent := by
  have hcarry := next_carries h
  have hjobs := coherent_jobs hr hi hok h
  have htasks := coherent_tasks hi h
  have hretried := retriedBy_of_reachable hr
  cases (next_frame h).ledger with
  | kept he ho hd =>
    refine ⟨hjobs, htasks, fun e hm => ?_, fun d hm => ?_, fun e hm => ?_⟩
    · rw [he] at hm
      exact (hi.jobExecutions e hm).carry hcarry
    · have hmem : d.content ∈ s.db.deadLetterQueue.rows.map DeadLetterEntry.content := by
        rw [← hd]
        exact List.mem_map_of_mem hm
      obtain ⟨d₀, hm₀, hc⟩ := List.mem_map.mp hmem
      exact (hi.deadLetterQueue d₀ hm₀).carry hcarry hc.symm (hretried d hm)
    · have hmem : e.content ∈ s.db.outboxEvents.rows.map OutboxEvent.content := by
        rw [← ho]
        exact List.mem_map_of_mem hm
      obtain ⟨e₀, hm₀, hc⟩ := List.mem_map.mp hmem
      exact (hi.outboxEvents e₀ hm₀).carry hcarry hc.symm
  | @finished t startedAt x _ ht hp ha =>
    have href := hi.tasks t ht
    refine ⟨hjobs, htasks, fun e hm => ?_, fun d hm => ?_, fun e hm => ?_⟩
    · rw [ha.jobExecutions] at hm
      rcases List.mem_append.mp hm with hm | hm
      · exact (hi.jobExecutions e hm).carry hcarry
      · rw [List.mem_singleton.mp hm]
        exact (href.execution x startedAt).carry hcarry
    · have hu := hretried d hm
      rw [ha.deadLetterQueue] at hm
      rcases List.mem_append.mp hm with hm | hm
      · exact (hi.deadLetterQueue d hm).carry hcarry rfl hu
      · exact (href.deadLetter hm).carry hcarry rfl hu
    · rw [ha.outboxEvents] at hm
      rcases List.mem_append.mp hm with hm | hm
      · exact (hi.outboxEvents e hm).carry hcarry rfl
      · rw [List.mem_singleton.mp hm]
        exact (href.event x).carry hcarry rfl

theorem coherent_of_reachable (h : Reachable (scheduler cron) (fun s l => s.queueRead l = true) s) :
    s.Coherent := by
  refine Reachable.invariant (I := Sys.Coherent) ?_ ?_ h
  · intro s (hs : s.Initial)
    refine ⟨?_, ?_, ?_, ?_, ?_⟩
    · simp [hs.jobs]
    · simp [hs.tasks]
    · simp [hs.jobExecutions]
    · simp [hs.deadLetterQueue]
    · simp [hs.outboxEvents]
  · intro s l s' hr hi hok hn
    exact hi.step (hr.step hok hn) hok hn

end Steps

theorem Api.coreLabel_queueRead {s : Api} {l : ApiLabel} {k : Label}
    (hk : ∀ c call, s.calls c = some call → call.Known s.core.db) (hl : s.coreLabel l = some k) :
    s.core.queueRead k = true := by
  by_cases hreq : k.byRequest = true
  · obtain ⟨c, io, call, rfl, hcall, ho, hw⟩ := coreLabel_byRequest hl hreq
    have hknown := hk c call hcall
    unfold Call.write at hw
    rw [if_neg ho] at hw
    cases call with
    | createInsert queue userId req =>
      cases hw
      obtain ⟨⟨q, hq, hp⟩, _⟩ := hknown
      simp [Sys.queueRead, hq, hp]
    | cancelUpdate _ _ | retryCommit _ _ | pauseUpdate _ _ _ =>
      cases hw
      rfl
    | _ => cases hw
  · cases k with
    | createJob _ _ _ _ => exact absurd rfl hreq
    | _ => rfl

theorem queueRead_of_api {cron : Cron} {s : Api} (h : Reachable (api cron) (fun _ _ => True) s) :
    Reachable (scheduler cron) (fun s l => s.queueRead l = true) s.core := by
  refine Reachable.project Api.core (fun s (hs : s.Initial) => hs.polls.core) ?_ h
  intro s l s' hr _ hn
  have hk := known_of_reachable hr
  rcases Api.next_core hk hn with hsame | ⟨k, hl, hstep⟩
  · exact .inl hsame
  · exact .inr ⟨k, Api.coreLabel_queueRead hk hl, hstep⟩

end JobScheduler
