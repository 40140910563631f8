import JobScheduler.Lifecycle

namespace JobScheduler
open Relational Transition

def Label.crashes : Label → List Uuid
  | .crash w => [w]
  | _ => []

def OutboxEvent.content (e : OutboxEvent) : OutboxEvent :=
  { e with published := false, publishedAt := none }

def DeadLetterEntry.content (d : DeadLetterEntry) : DeadLetterEntry :=
  { d with manuallyRetriedAt := none, manuallyRetriedBy := none }

/-- What a step does to the executions, the outbox and the dead letters: nothing but marks, or
what one finish transaction writes. -/
inductive LedgerStep (s : Sys) : Label → Sys → Prop
  | kept {l : Label} {s' : Sys} (he : s'.db.jobExecutions = s.db.jobExecutions)
      (ho : s'.db.outboxEvents.rows.map OutboxEvent.content =
        s.db.outboxEvents.rows.map OutboxEvent.content)
      (hd : s'.db.deadLetterQueue.rows.map DeadLetterEntry.content =
        s.db.deadLetterQueue.rows.map DeadLetterEntry.content) : LedgerStep s l s'
  | finished {t : Task} {startedAt : Timestamp} {x : Finish} {s' : Sys}
      (ht : t ∈ s.tasks.table.rows) (hp : t.phase = .running startedAt)
      (ha : x.Applied t startedAt s.now s.db s'.db) : LedgerStep s (.finish t.id x) s'

/-- The part of the system outside the lifecycle of the jobs: task numbers are never used again,
only `crash` stops a worker process, queues stay under their limit, and dependencies come from
`create_dependency`. -/
structure Frame (s : Sys) (l : Label) (s' : Sys) : Prop where
  nextId : s.tasks.nextId ≤ s'.tasks.nextId
  crashed : s'.crashed = l.crashes ++ s.crashed
  parents : s'.db.parents = s.db.parents
  queues : ∀ k q, s.db.queues.find? k = some q →
    ∃ q', s'.db.queues.find? k = some q' ∧ q'.concurrencyLimit = q.concurrencyLimit
  dependencies : ∀ d ∈ s'.db.jobDependencies.rows, d ∈ s.db.jobDependencies.rows ∨
    ∃ id, l = .createDependency id d.dependentJobId d.dependencyJobId
  ledger : LedgerStep s l s'

section Steps
variable {cron : Cron} {s s' : Sys} {l : Label}

theorem Frame.of_same (hn : s.tasks.nextId ≤ s'.tasks.nextId) (hc : s'.crashed = l.crashes ++ s.crashed)
    (hp : s'.db.parents = s.db.parents) (hq : s'.db.queues = s.db.queues)
    (hd : s'.db.jobDependencies = s.db.jobDependencies)
    (he : s'.db.jobExecutions = s.db.jobExecutions) (ho : s'.db.outboxEvents = s.db.outboxEvents)
    (hl : s'.db.deadLetterQueue = s.db.deadLetterQueue) : Frame s l s' where
  nextId := hn
  crashed := hc
  parents := hp
  queues k q h := ⟨q, by rw [hq]; exact h, rfl⟩
  dependencies d h := .inl (by rwa [hd] at h)
  ledger := .kept he (by rw [ho]) (by rw [hl])

theorem frame_insertJob {db' : Db} {r : Job} (hl : l.crashes = []) (h : insertJob s.db r = .ok db')
    (hs : s'.db = db') (ht : s.tasks.nextId ≤ s'.tasks.nextId) (hc : s'.crashed = s.crashed) :
    Frame s l s' := by
  obtain ⟨_, jobs, _, rfl⟩ := insertJob_ok h
  apply Frame.of_same ht (by rw [hl, hc]; rfl) <;> rw [hs]

theorem frame_retry {db' : Db} {entry : DeadLetterEntry} {retriedBy : Uuid} (hl : l.crashes = [])
    (h : retryJobCommit s.db s.now entry retriedBy = .ok db') : Frame s l { s with db := db' } := by
  obtain ⟨_, _, rfl⟩ := retryJobCommit_ok h
  refine ⟨le_rfl, by rw [hl]; rfl, rfl, fun k q h => ⟨q, h, rfl⟩, fun d h => .inl h, .kept rfl rfl ?_⟩
  dsimp only
  rw [Table.rows_update, List.map_map]
  apply List.map_congr_left
  intro d _
  simp only [Function.comp]
  split <;> rfl

theorem frame_createDependency {db' : Db} {id dependent dependency : Uuid}
    (h : createDependency s.db id dependent dependency = .ok db') :
    Frame s (.createDependency id dependent dependency) { s with db := db' } := by
  rcases createDependency_ok h with rfl | ⟨_, _, deps, hi, rfl⟩
  · exact .of_same le_rfl rfl rfl rfl rfl rfl rfl rfl
  · refine ⟨le_rfl, rfl, rfl, fun k q h => ⟨q, h, rfl⟩, fun d hd => ?_, .kept rfl rfl rfl⟩
    rw [(Table.rows_insert hi).1] at hd
    rcases List.mem_append.mp hd with hd | hd
    · exact .inl hd
    · rw [List.mem_singleton.mp hd]
      exact .inr ⟨id, rfl⟩

theorem frame_finish {t : Task} {startedAt : Timestamp} (x : Finish) (ht : t ∈ s.tasks.table.rows)
    (hp : t.phase = .running startedAt) : Frame s (.finish t.id x) (s.finish t startedAt x) := by
  have hnext : s.tasks.nextId ≤ (s.finish t startedAt x).tasks.nextId := by
    unfold Sys.finish
    split <;> exact le_rfl
  rcases x.run_all_or_nothing t startedAt s.now s.db with ⟨_, hdb⟩ | ⟨_, ha⟩
  · have hdb : (s.finish t startedAt x).db = s.db := hdb
    exact .of_same hnext rfl (by rw [hdb]) (by rw [hdb]) (by rw [hdb]) (by rw [hdb]) (by rw [hdb]) (by rw [hdb])
  · have ha : x.Applied t startedAt s.now s.db (s.finish t startedAt x).db := ha
    refine ⟨hnext, rfl, ha.elsewhere.parents, fun k q h => ⟨q, ?_, rfl⟩, fun d h => .inl ?_, .finished ht hp ha⟩
    · rw [ha.elsewhere.queues]
      exact h
    · rwa [ha.elsewhere.jobDependencies] at h

theorem next_frame (h : s.next cron l = some s') : Frame s l s' := by
  cases sys_step h with
  | tick _ | deregister _ | crash | cancelJob | releaseDependent | reQueueScheduledJobs | recoverStaleJobs
  | notClaimed _ | notScheduled _ _ | die _ =>
    exact .of_same le_rfl rfl rfl rfl rfl rfl rfl rfl
  | @register w name hostname _ =>
    obtain ⟨workers, hdb⟩ := register_eq s.db s.now w name hostname
    rw [hdb]
    exact .of_same le_rfl rfl rfl rfl rfl rfl rfl rfl
  | heartbeat _ hdb =>
    obtain ⟨hbs, rfl⟩ := upsertHeartbeat_eq hdb
    exact .of_same le_rfl rfl rfl rfl rfl rfl rfl rfl
  | @createQueue q queues _ hi =>
    refine ⟨le_rfl, rfl, rfl, fun k q' hq' => ⟨q', ?_, rfl⟩, fun d h => .inl h, .kept rfl rfl rfl⟩
    exact Table.find?_of_insert hi hq'
  | @setPaused queueId paused =>
    refine ⟨le_rfl, rfl, rfl, fun k q hq => ?_, fun d h => .inl h, .kept rfl rfl rfl⟩
    simp only [setPaused, Table.find?_update, hq, Option.map_some, Option.some.injEq, exists_eq_left']
    split <;> rfl
  | createJob _ hi => exact frame_insertJob rfl hi rfl le_rfl rfl
  | retryJob _ _ hc | retryJobCommit _ hc => exact frame_retry rfl hc
  | createDependency hdb => exact frame_createDependency hdb
  | markPublished =>
    refine ⟨le_rfl, rfl, rfl, fun k q h => ⟨q, h, rfl⟩, fun d h => .inl h, .kept rfl ?_ rfl⟩
    rw [markPublished, Table.rows_update, List.map_map]
    apply List.map_congr_left
    intro e _
    simp only [Function.comp]
    split <;> rfl
  | claimed _ _ _ => exact .of_same (Nat.le_succ _) rfl rfl rfl rfl rfl rfl rfl
  | @markRunning t startedAt outcome _ _ => cases outcome <;> exact .of_same le_rfl rfl rfl rfl rfl rfl rfl rfl
  | finish ht hp => exact frame_finish _ ht hp
  | scheduledNext _ _ _ hi => exact frame_insertJob rfl hi rfl le_rfl rfl

theorem Frame.keeps_foreignKeys (h : Frame s l s') {r r' : Job} (hfk : r.asSubmitted.foreignKeys s.db = true)
    (hs : r'.asSubmitted = r.asSubmitted) : r'.asSubmitted.foreignKeys s'.db = true := by
  rw [hs]
  simp only [Job.foreignKeys, Bool.and_eq_true] at hfk ⊢
  obtain ⟨⟨⟨hqueue, hproject⟩, _⟩, hpolicy⟩ := hfk
  obtain ⟨q, hq⟩ := Option.isSome_iff_exists.mp hqueue
  obtain ⟨q', hq', _⟩ := h.queues _ q hq
  rw [h.parents, hq']
  exact ⟨⟨⟨rfl, hproject⟩, rfl⟩, hpolicy⟩

theorem foreignKeys_of_reachable {ok : Sys → Label → Prop} (h : Reachable (scheduler cron) ok s) {j : Uuid}
    {r : Job} (hr : s.db.jobs.find? j = some r) : r.asSubmitted.foreignKeys s.db = true := by
  refine Reachable.invariant (I := fun s => ∀ r, s.db.jobs.find? j = some r →
    r.asSubmitted.foreignKeys s.db = true) ?_ ?_ h r hr
  · intro s (hs : s.Initial) r hr
    simp [Table.find?, hs.jobs] at hr
  · intro s l s' _ hi _ hn r' hr'
    cases hrow : s.db.jobs.find? j with
    | some r =>
      obtain ⟨r₁, hr₁, hsame⟩ := (next_effect j hn).keeps_submission hrow
      obtain rfl : r₁ = r' := Option.some.inj (hr₁.symm.trans hr')
      exact (next_frame hn).keeps_foreignKeys (hi r hrow) hsame
    | none =>
      have hfk := (next_effect j hn).foreignKeys_of_inserted hrow hr'
      exact (next_frame hn).keeps_foreignKeys (Job.foreignKeys_asSubmitted hfk) rfl

theorem queue_of_reachable {ok : Sys → Label → Prop} (h : Reachable (scheduler cron) ok s) {j : Uuid}
    {r : Job} (hr : s.db.jobs.find? j = some r) : ∃ q, s.db.queues.find? r.queueId = some q := by
  have hfk := foreignKeys_of_reachable h hr
  simp only [Job.foreignKeys, Bool.and_eq_true] at hfk
  exact Option.isSome_iff_exists.mp hfk.1.1.1

end Steps

end JobScheduler
