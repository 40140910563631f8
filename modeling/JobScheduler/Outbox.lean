import JobScheduler.Frame

namespace JobScheduler
open Relational Transition

/-- The execution has a dead-letter row: one of its job, for its attempt. -/
def Db.deadLettered (db : Db) (e : JobExecution) : Prop :=
  ∃ d ∈ db.deadLetterQueue.rows, d.jobId = e.jobId ∧ d.attemptCount = e.attemptNumber

/-- The event that goes with an execution. -/
structure Recorded (db : Db) (e : JobExecution) (ev : OutboxEvent) : Prop where
  jobId : ev.aggregateId = e.jobId
  correlationId : ev.correlationId = e.correlationId
  completed : ev.eventType = .jobCompleted ↔ e.success = true
  movedToDlq : ev.eventType = .jobMovedToDlq ↔ e.success = false ∧ db.deadLettered e
  retryScheduled : ev.eventType = .jobRetryScheduled ↔ e.success = false ∧ ¬db.deadLettered e

def Sys.attemptLimit (s : Sys) (j : Uuid) : Option Int32 := (s.db.jobs.find? j).map (·.maxAttempts)

def JobExecution.eventType (e : JobExecution) (m : Int32) : OutboxEventType :=
  if e.success then .jobCompleted
  else if m ≤ e.attemptNumber then .jobMovedToDlq
  else .jobRetryScheduled

/-- An execution and its event, tied by the attempt limit rather than by the dead letters. -/
def Logged (s : Sys) (e : JobExecution) (ev : OutboxEvent) : Prop :=
  ev.aggregateId = e.jobId ∧ ev.correlationId = e.correlationId ∧
    ∃ m, s.attemptLimit e.jobId = some m ∧ ev.eventType = e.eventType m

/-- Executions and events pair up, and the dead letters are those of the failed executions at
or beyond the attempt limit. -/
structure Ledger (s : Sys) : Prop where
  pairs : List.Forall₂ (Logged s) s.db.jobExecutions.rows (s.db.outboxEvents.rows.map OutboxEvent.content)
  deadLimit : ∀ d ∈ s.db.deadLetterQueue.rows.map DeadLetterEntry.content,
    ∃ m, s.attemptLimit d.jobId = some m ∧ m ≤ d.attemptCount
  dead : ∀ e ∈ s.db.jobExecutions.rows, e.success = false → ∀ m, s.attemptLimit e.jobId = some m →
    m ≤ e.attemptNumber → ∃ d ∈ s.db.deadLetterQueue.rows.map DeadLetterEntry.content,
      d.jobId = e.jobId ∧ d.attemptCount = e.attemptNumber

section Steps
variable {cron : Cron} {s s' : Sys} {l : Label}

theorem attemptLimit_next (h : s.next cron l = some s') {j : Uuid} {m : Int32}
    (hm : s.attemptLimit j = some m) : s'.attemptLimit j = some m := by
  obtain ⟨r, hr, rfl⟩ := Option.map_eq_some_iff.mp hm
  obtain ⟨r', hr', hcol⟩ := (next_effect j h).keeps_columns hr
  have hr' : s'.db.jobs.find? j = some r' := hr'
  rw [Sys.attemptLimit, hr', Option.map_some, hcol.maxAttempts]

theorem Logged.next (h : s.next cron l = some s') {e : JobExecution} {ev : OutboxEvent}
    (hl : Logged s e ev) : Logged s' e ev := by
  obtain ⟨hid, hcorr, m, hm, ht⟩ := hl
  exact ⟨hid, hcorr, m, attemptLimit_next h hm, ht⟩

/-- The limit that decides about an execution of the past is the limit of today. -/
theorem attemptLimit_back (h : s.next cron l = some s') {j : Uuid} {m m' : Int32}
    (hm : s.attemptLimit j = some m) (hm' : s'.attemptLimit j = some m') : s.attemptLimit j = some m' := by
  rw [attemptLimit_next h hm] at hm'
  rw [hm, hm']

theorem Logged.attemptLimit {e : JobExecution} {ev : OutboxEvent} (h : Logged s e ev) :
    ∃ m, s.attemptLimit e.jobId = some m := by
  obtain ⟨_, _, m, hm, _⟩ := h
  exact ⟨m, hm⟩

theorem Ledger.attemptLimit (hl : Ledger s) {e : JobExecution} (he : e ∈ s.db.jobExecutions.rows) :
    ∃ m, s.attemptLimit e.jobId = some m := by
  obtain ⟨i, hi, rfl⟩ := List.mem_iff_getElem.mp he
  have hlen := hl.pairs.length_eq
  exact (hl.pairs.get hi (by omega)).attemptLimit

theorem Ledger.kept (hl : Ledger s) (h : s.next cron l = some s')
    (he : s'.db.jobExecutions = s.db.jobExecutions)
    (ho : s'.db.outboxEvents.rows.map OutboxEvent.content =
      s.db.outboxEvents.rows.map OutboxEvent.content)
    (hd : s'.db.deadLetterQueue.rows.map DeadLetterEntry.content =
      s.db.deadLetterQueue.rows.map DeadLetterEntry.content) : Ledger s' where
  pairs := by
    rw [he, ho]
    exact hl.pairs.imp fun _ _ hlog => hlog.next h
  deadLimit d hm := by
    rw [hd] at hm
    obtain ⟨m, hm, hle⟩ := hl.deadLimit d hm
    exact ⟨m, attemptLimit_next h hm, hle⟩
  dead e hm hs m hlim hle := by
    rw [he] at hm
    rw [hd]
    obtain ⟨m₀, hm₀⟩ := hl.attemptLimit hm
    exact hl.dead e hm hs m (attemptLimit_back h hm₀ hlim) hle

section Finished
variable {t : Task} {startedAt : Timestamp} {x : Finish}

theorem Finish.logged (x : Finish) (hm : s.attemptLimit t.job.id = some t.job.maxAttempts) :
    Logged s (x.execution t startedAt) (x.event t).content := by
  have hcases : (x.event t).content.aggregateId = t.job.id ∧
      (x.event t).content.correlationId = t.job.correlationId ∧
      (x.event t).content.eventType = (x.execution t startedAt).eventType t.job.maxAttempts := by
    cases hr : x.result with
    | ok u =>
      have he : x.event t = x.completedEvent t := by simp only [event, hr]
      have hs : (x.execution t startedAt).success = true := by simp [execution, hr, Except.isOk, Except.toBool]
      rw [he, JobExecution.eventType, if_pos hs]
      exact ⟨rfl, rfl, rfl⟩
    | error msg =>
      have hs : ¬(x.execution t startedAt).success = true := by
        simp [execution, hr, Except.isOk, Except.toBool]
      rw [JobExecution.eventType, if_neg hs]
      by_cases hd : t.job.maxAttempts ≤ t.attempt
      · have he : x.event t = x.dlqEvent t msg := by simp [event, hr, Task.shouldDlq, hd]
        rw [he, if_pos (show t.job.maxAttempts ≤ (x.execution t startedAt).attemptNumber from hd)]
        exact ⟨rfl, rfl, rfl⟩
      · have he : x.event t = x.retryEvent t := by simp [event, hr, Task.shouldDlq, hd]
        rw [he, if_neg (show ¬t.job.maxAttempts ≤ (x.execution t startedAt).attemptNumber from hd)]
        exact ⟨rfl, rfl, rfl⟩
  obtain ⟨hid, hcorr, htype⟩ := hcases
  exact ⟨hid, hcorr, _, hm, htype⟩

theorem Finish.mem_deadLetters {d : DeadLetterEntry} (h : d ∈ x.deadLetters t) :
    d.jobId = t.job.id ∧ d.attemptCount = t.attempt ∧ t.job.maxAttempts ≤ t.attempt := by
  unfold deadLetters at h
  split at h
  · cases h
  · split at h
    · rename_i hd
      rw [List.mem_singleton.mp h]
      exact ⟨rfl, rfl, by simpa [Task.shouldDlq] using hd⟩
    · cases h

theorem Finish.deadLetters_of_failed (hs : (x.execution t startedAt).success = false)
    (hd : t.job.maxAttempts ≤ t.attempt) : ∃ msg, x.deadLetters t = [x.deadLetter t msg] := by
  cases hr : x.result with
  | ok u => simp [execution, hr, Except.isOk, Except.toBool] at hs
  | error msg => exact ⟨msg, by simp [deadLetters, hr, Task.shouldDlq, hd]⟩

theorem Ledger.finished (hl : Ledger s) (hc : Snapshots (s.view t.job.id))
    (ht : t ∈ s.tasks.table.rows) (h : s.next cron l = some s')
    (ha : x.Applied t startedAt s.now s.db s'.db) : Ledger s' := by
  obtain ⟨r, hrow, hcol⟩ := hc t (Sys.mem_view_tasks.mpr ⟨ht, rfl⟩)
  have hlim : s.attemptLimit t.job.id = some t.job.maxAttempts := by
    have hrow : s.db.jobs.find? t.job.id = some r := hrow
    rw [Sys.attemptLimit, hrow, Option.map_some, hcol.maxAttempts]
  have hlim' := attemptLimit_next h hlim
  refine ⟨?_, ?_, ?_⟩
  · rw [ha.jobExecutions, ha.outboxEvents, List.map_append, List.map_singleton]
    exact List.rel_append (hl.pairs.imp fun _ _ hlog => hlog.next h)
      (.cons (x.logged hlim') .nil)
  · intro d hd
    rw [ha.deadLetterQueue, List.map_append] at hd
    rcases List.mem_append.mp hd with hd | hd
    · obtain ⟨m, hm, hle⟩ := hl.deadLimit d hd
      exact ⟨m, attemptLimit_next h hm, hle⟩
    · obtain ⟨d₀, hd₀, rfl⟩ := List.mem_map.mp hd
      obtain ⟨hj, hat, hle⟩ := Finish.mem_deadLetters hd₀
      refine ⟨t.job.maxAttempts, ?_, ?_⟩
      · show s'.attemptLimit d₀.jobId = _
        rw [hj, hlim']
      · show _ ≤ d₀.attemptCount
        rw [hat]
        exact hle
  · -- an earlier execution keeps its dead letter, the new one brings its own
    intro e he hs m hm hle
    rw [ha.jobExecutions] at he
    rw [ha.deadLetterQueue, List.map_append]
    rcases List.mem_append.mp he with he | he
    · obtain ⟨m₀, hm₀⟩ := hl.attemptLimit he
      obtain ⟨d, hd, heq⟩ := hl.dead e he hs m (attemptLimit_back h hm₀ hm) hle
      exact ⟨d, List.mem_append_left _ hd, heq⟩
    · obtain rfl := List.mem_singleton.mp he
      obtain rfl : t.job.maxAttempts = m := Option.some.inj (hlim'.symm.trans hm)
      obtain ⟨msg, hdl⟩ := Finish.deadLetters_of_failed hs hle
      refine ⟨(x.deadLetter t msg).content, List.mem_append_right _ ?_, rfl, rfl⟩
      rw [hdl]
      exact List.mem_singleton_self _

end Finished

theorem ledger_of_reachable {ok : Sys → Label → Prop} (h : Reachable (scheduler cron) ok s) : Ledger s := by
  refine Reachable.invariant (I := Ledger) ?_ ?_ h
  · intro s (hs : s.Initial)
    refine ⟨?_, ?_, ?_⟩
    · rw [hs.jobExecutions, hs.outboxEvents]
      exact .nil
    · simp [hs.deadLetterQueue]
    · simp [hs.jobExecutions]
  · intro s l s' hr hl _ hn
    have hn : s.next cron l = some s' := hn
    cases (next_frame hn).ledger with
    | kept he ho hd => exact hl.kept hn he ho hd
    | finished ht hp ha => exact hl.finished (snapshots_of_reachable hr _) ht hn ha

/-- A failed execution has a dead-letter row exactly when it is at or beyond the limit. -/
theorem Ledger.deadLettered_iff (hl : Ledger s) {e : JobExecution} (he : e ∈ s.db.jobExecutions.rows)
    (hs : e.success = false) {m : Int32} (hm : s.attemptLimit e.jobId = some m) :
    s.db.deadLettered e ↔ m ≤ e.attemptNumber := by
  constructor
  · rintro ⟨d, hd, hj, hat⟩
    obtain ⟨m', hm', hle⟩ := hl.deadLimit d.content (List.mem_map_of_mem hd)
    have hm' : s.attemptLimit d.jobId = some m' := hm'
    rw [hj, hm] at hm'
    cases hm'
    rw [← hat]
    exact hle
  · intro hle
    obtain ⟨d, hd, heq⟩ := hl.dead e he hs m hm hle
    obtain ⟨d₀, hd₀, rfl⟩ := List.mem_map.mp hd
    exact ⟨d₀, hd₀, heq⟩

theorem Ledger.recorded (hl : Ledger s) {e : JobExecution} {ev : OutboxEvent}
    (he : e ∈ s.db.jobExecutions.rows) (h : Logged s e ev.content) : Recorded s.db e ev := by
  obtain ⟨hid, hcorr, m, hm, htype⟩ := h
  have htype : ev.eventType = e.eventType m := htype
  have hdead := fun hs => hl.deadLettered_iff he hs hm
  unfold JobExecution.eventType at htype
  cases hs : e.success with
  | true =>
    rw [if_pos hs] at htype
    exact ⟨hid, hcorr, by simp [htype, hs], by simp [htype, hs], by simp [htype, hs]⟩
  | false =>
    rw [if_neg (by simp [hs])] at htype
    by_cases hle : m ≤ e.attemptNumber
    · rw [if_pos hle] at htype
      exact ⟨hid, hcorr, by simp [htype, hs], by simp [htype, hs, hdead hs, hle],
        by simp [htype, hs, hdead hs, hle]⟩
    · rw [if_neg hle] at htype
      exact ⟨hid, hcorr, by simp [htype, hs], by simp [htype, hs, hdead hs, hle],
        by simp [htype, hs, hdead hs, hle]⟩

end Steps

section Runs
variable {cron : Cron} {s : Sys}

/-- In every state of every run the executions and the outbox events correspond one to one, the type
of an event saying how its execution ended; and whatever fails inside a finish transaction, it
writes its job update, execution, dead letter and event together, or nothing. -/
theorem outbox_atomicity (h : Reachable (scheduler cron) (fun _ _ => True) s) :
    List.Forall₂ (Recorded s.db) s.db.jobExecutions.rows s.db.outboxEvents.rows ∧
    ∀ task x s', s.next cron (.finish task x) = some s' →
      s'.db = s.db ∨ ∃ t startedAt, s.tasks.find? task = some t ∧ t.phase = .running startedAt ∧
        x.Applied t startedAt s.now s.db s'.db := by
  have hl := ledger_of_reachable h
  constructor
  · have hpairs := List.forall₂_map_right_iff.mp hl.pairs
    rw [List.forall₂_iff_get] at hpairs ⊢
    obtain ⟨hlen, hget⟩ := hpairs
    refine ⟨hlen, fun i hi hi' => ?_⟩
    exact hl.recorded (List.get_mem _ _) (hget i hi hi')
  · intro task x s' hn
    cases sys_step hn with
    | @finish t startedAt _ ht hp =>
      rcases x.run_all_or_nothing t startedAt s.now s.db with ⟨_, hdb⟩ | ⟨_, ha⟩
      · exact .inl hdb
      · exact .inr ⟨t, startedAt, Table.find?_of_mem ht, hp, ha⟩

/-- Two tasks execute one job after a false suspicion; one finish transaction loses its event
insert and is rolled back although its `COMMIT` is answered. -/
theorem outbox_atomicity_sample :
    ∃ s, Reachable (scheduler Sample.cron) (fun _ _ => True) s ∧
      s.db.outboxEvents.rows.map (·.eventType) = [.jobRetryScheduled, .jobMovedToDlq] ∧
      List.Forall₂ (Recorded s.db) s.db.jobExecutions.rows s.db.outboxEvents.rows := by
  obtain ⟨_, s, hrun, hp⟩ := Run.exists_of_exec (M := scheduler Sample.cron) Sample.sys_initial
    [.register 1 "a" "h1", .register 2 "b" "h2", .createJob 100 7 Sample.queue (Sample.request 2),
      .claim 1 10 [], .markRunning 0 0 .acknowledged, .recoverStaleJobs 60, .claim 2 10 [],
      .markRunning 1 0 .acknowledged,
      .finish 0 { Sample.finish (.ok ()) 1 with fails := fun i => i = 2 },
      .finish 1 (Sample.finish (.error "timeout") 2), .tick 20000000, .reQueueScheduledJobs,
      .claim 1 10 [], .markRunning 2 20000000 .acknowledged,
      .finish 2 (Sample.finish (.error "timeout") 3)]
    (fun _ _ => true)
    (fun _ s => s.db.outboxEvents.rows.map (·.eventType) = [.jobRetryScheduled, .jobMovedToDlq])
    (by decide)
  have hreach : Reachable (scheduler Sample.cron) (fun _ _ => True) s :=
    hrun.reachable.mono fun _ _ _ => trivial
  exact ⟨s, hreach, by simpa using hp, (outbox_atomicity hreach).1⟩

end Runs

end JobScheduler
