import JobScheduler.Scheduler

namespace JobScheduler
open Relational Transition

namespace Sys

inductive Step (cron : Cron) (s : Sys) : Label → Sys → Prop
  | tick {now : Timestamp} (hnow : s.now ≤ now) : Step cron s (.tick now) { s with now := now }
  | register {w : Uuid} {name hostname : String} (hw : w ∉ s.crashed) :
      Step cron s (.register w name hostname) { s with db := JobScheduler.register s.db s.now w name hostname }
  | deregister {w : Uuid} (hw : w ∉ s.crashed) :
      Step cron s (.deregister w) { s with db := JobScheduler.deregister s.db s.now w }
  | heartbeat {w : Uuid} {activeJobs : Int32} {db : Db} (hw : w ∉ s.crashed)
      (hdb : upsertHeartbeat s.db s.now w activeJobs = .ok db) :
      Step cron s (.heartbeat w activeJobs) { s with db := db }
  | crash {w : Uuid} :
      Step cron s (.crash w) { s with
        crashed := w :: s.crashed
        tasks := s.tasks.drop fun t => decide (t.workerId = w) }
  | createQueue {q : Queue} {queues : Table Queue.id}
      {hrefer : ∀ r ∈ queues.rows, r.foreignKeys s.db.parents = true} (hi : s.db.queues.insert q = some queues) :
      Step cron s (.createQueue q) { s with db := { s.db with queues := queues, queues_refer := hrefer } }
  | setPaused {queueId : Uuid} {paused : Bool} :
      Step cron s (.setPaused queueId paused) { s with db := JobScheduler.setPaused s.db s.now queueId paused }
  | createJob {id correlationId : Uuid} {queue : Queue} {req : CreateJobRequest} {db : Db}
      (hv : validateCron cron req = .ok ())
      (hi : insertJob s.db (newJob s.now id correlationId queue req) = .ok db) :
      Step cron s (.createJob id correlationId queue req) { s with db := db }
  | cancelJob {jobId : Uuid} :
      Step cron s (.cancelJob jobId) { s with db := cancelJobUpdate s.db s.now jobId }
  | retryJob {entry : DeadLetterEntry} {retriedBy : Uuid} {db : Db}
      (he : entry ∈ s.db.deadLetterQueue.rows) (hn : entry.manuallyRetriedAt = none)
      (hc : JobScheduler.retryJobCommit s.db s.now entry retriedBy = .ok db) :
      Step cron s (.retryJob entry.id retriedBy) { s with db := db }
  | retryJobCommit {entry : DeadLetterEntry} {retriedBy : Uuid} {db : Db}
      (he : entry ∈ s.db.deadLetterQueue.rows)
      (hc : JobScheduler.retryJobCommit s.db s.now entry retriedBy = .ok db) :
      Step cron s (.retryJobCommit entry.id retriedBy) { s with db := db }
  | createDependency {id dependent dependency : Uuid} {db : Db}
      (hdb : JobScheduler.createDependency s.db id dependent dependency = .ok db) :
      Step cron s (.createDependency id dependent dependency) { s with db := db }
  | releaseDependent {jobId : Uuid} :
      Step cron s (.releaseDependent jobId) { s with db := JobScheduler.releaseDependent s.db s.now jobId }
  | reQueueScheduledJobs :
      Step cron s .reQueueScheduledJobs { s with db := JobScheduler.reQueueScheduledJobs s.db s.now }
  | recoverStaleJobs {threshold : ℤ} :
      Step cron s (.recoverStaleJobs threshold) { s with db := JobScheduler.recoverStaleJobs s.db s.now threshold }
  | markPublished {eventId : Uuid} :
      Step cron s (.markPublished eventId) { s with db := JobScheduler.markPublished s.db s.now eventId }
  | claimed {w queueId : Uuid} {locked : List Uuid} {r : Job} (hw : w ∉ s.crashed)
      (hr : s.db.jobs.find? r.id = some r) (hc : claimable s.now queueId r = true) :
      Step cron s (.claim w queueId locked) { s with
        db := s.db.updateJob r.id (Job.claim w s.now) (Job.claim_id w s.now)
        tasks := s.tasks.spawn w (r.claim w s.now) }
  | notClaimed {w queueId : Uuid} {locked : List Uuid} (hw : w ∉ s.crashed) :
      Step cron s (.claim w queueId locked) s
  | markRunning {t : Task} {startedAt : Timestamp} {outcome : CommitOutcome}
      (ht : t ∈ s.tasks.table.rows) (hp : t.phase = .spawned) :
      Step cron s (.markRunning t.id startedAt outcome) (s.markRunning t startedAt outcome)
  | finish {t : Task} {startedAt : Timestamp} {x : Finish}
      (ht : t ∈ s.tasks.table.rows) (hp : t.phase = .running startedAt) :
      Step cron s (.finish t.id x) (s.finish t startedAt x)
  | scheduledNext {t : Task} {utcNow nextAt : Timestamp} {id correlationId : Uuid} {row : Job} {db : Db}
      (ht : t ∈ s.tasks.table.rows) (hp : t.phase = .committed)
      (hrow : s.db.jobs.find? t.job.id = some row)
      (hi : insertJob s.db (nextOccurrence s.now nextAt id correlationId row) = .ok db) :
      Step cron s (.scheduleNext t.id utcNow id correlationId true) { s with
        db := db
        tasks := s.tasks.drop fun u => decide (u.id = t.id) }
  | notScheduled {t : Task} {utcNow : Timestamp} {id correlationId : Uuid} {ok : Bool}
      (ht : t ∈ s.tasks.table.rows) (hp : t.phase = .committed) :
      Step cron s (.scheduleNext t.id utcNow id correlationId ok) { s with
        tasks := s.tasks.drop fun u => decide (u.id = t.id) }
  | die {t : Task} (ht : t ∈ s.tasks.table.rows) :
      Step cron s (.die t.id) { s with tasks := s.tasks.drop fun u => decide (u.id = t.id) }

end Sys

theorem Tasks.find?_some {ts : Tasks} {task : ℕ} {t : Task} (h : ts.find? task = some t) :
    t ∈ ts.table.rows ∧ t.id = task := (ts.table.find?_eq_some_iff task t).mp h

section Steps
variable {cron : Cron} {s s' : Sys} {l : Label}

theorem withDb_some {ε : Type} {r : Except ε Db} (h : s.withDb r = some s') :
    ∃ db, r = .ok db ∧ s' = { s with db := db } := by
  cases r with
  | error e => cases h
  | ok db =>
    cases h
    exact ⟨db, rfl, rfl⟩

theorem step_claim {w queueId : Uuid} {locked : List Uuid} (hw : w ∉ s.crashed) :
    s.Step cron (.claim w queueId locked) (s.claim w queueId locked) := by
  unfold Sys.claim
  split
  · rename_i job db hc
    obtain ⟨r, hr, hcl, rfl, rfl⟩ := claimNextJob_some hc
    exact .claimed hw hr hcl
  · exact .notClaimed hw
  · exact .notClaimed hw

theorem step_scheduleNext {t : Task} {utcNow : Timestamp} {id correlationId : Uuid} {ok : Bool}
    (ht : t ∈ s.tasks.table.rows) (hp : t.phase = .committed) :
    s.Step cron (.scheduleNext t.id utcNow id correlationId ok)
      (s.scheduleNext cron t utcNow id correlationId ok) := by
  cases ok with
  | false => exact .notScheduled ht hp
  | true =>
    unfold Sys.scheduleNext
    cases hn : scheduleNextOccurrence cron s.db s.now utcNow id correlationId t.job with
    | error e => exact .notScheduled ht hp
    | ok r =>
      obtain ⟨next, db⟩ := r
      obtain ⟨row, nextAt, hrow, rfl, hi⟩ := scheduleNextOccurrence_ok hn
      exact .scheduledNext ht hp hrow hi

theorem sys_step (h : s.next cron l = some s') : s.Step cron l s' := by
  cases l with
  | tick now =>
    simp only [Sys.next] at h
    split at h
    · rename_i hnow
      cases h
      exact .tick hnow
    · cases h
  | register w name hostname =>
    simp only [Sys.next] at h
    split at h
    · cases h
    · rename_i hw
      cases h
      exact .register hw
  | deregister w =>
    simp only [Sys.next] at h
    split at h
    · cases h
    · rename_i hw
      cases h
      exact .deregister hw
  | heartbeat w activeJobs =>
    simp only [Sys.next] at h
    split at h
    · cases h
    · rename_i hw
      obtain ⟨db, hdb, rfl⟩ := withDb_some h
      exact .heartbeat hw hdb
  | createQueue q =>
    obtain ⟨db, hdb, rfl⟩ := withDb_some h
    obtain ⟨queues, hrefer, hi, rfl⟩ := createQueue_ok hdb
    exact .createQueue hi
  | createJob id correlationId queue req =>
    obtain ⟨db, hdb, rfl⟩ := withDb_some h
    cases hc : createJobInsert cron s.db s.now id correlationId queue req with
    | error e => simp [hc, Except.map] at hdb
    | ok r =>
      obtain ⟨job, db₁⟩ := r
      obtain ⟨rfl, hv, hi⟩ := createJobInsert_ok hc
      simp only [hc, Except.map, Except.ok.injEq] at hdb
      subst hdb
      exact .createJob hv hi
  | retryJob dlqId retriedBy =>
    obtain ⟨db, hdb, rfl⟩ := withDb_some h
    obtain ⟨entry, he, hn, hc⟩ := retryJob_ok hdb
    obtain rfl := Table.key_of_find? he
    exact .retryJob (Table.mem_of_find? he) hn hc
  | retryJobCommit dlqId retriedBy =>
    simp only [Sys.next] at h
    split at h
    · rename_i entry he
      obtain ⟨db, hc, rfl⟩ := withDb_some h
      obtain rfl := Table.key_of_find? he
      exact .retryJobCommit (Table.mem_of_find? he) hc
    · cases h
  | createDependency id dependent dependency =>
    obtain ⟨db, hdb, rfl⟩ := withDb_some h
    exact .createDependency hdb
  | crash _ | setPaused _ _ | cancelJob _ | releaseDependent _ | reQueueScheduledJobs
  | recoverStaleJobs _ | markPublished _ =>
    cases h
    constructor
  | claim w queueId locked =>
    simp only [Sys.next] at h
    split at h
    · cases h
    · rename_i hw
      cases h
      exact step_claim hw
  | markRunning task startedAt outcome =>
    simp only [Sys.next] at h
    split at h
    · rename_i t ht
      split at h
      · rename_i hp
        cases h
        obtain ⟨hm, rfl⟩ := Tasks.find?_some ht
        exact .markRunning hm hp
      · cases h
    · cases h
  | finish task x =>
    simp only [Sys.next] at h
    split at h
    · rename_i t ht
      split at h
      · rename_i startedAt hp
        cases h
        obtain ⟨hm, rfl⟩ := Tasks.find?_some ht
        exact .finish hm hp
      · cases h
    · cases h
  | scheduleNext task utcNow id correlationId ok =>
    simp only [Sys.next] at h
    split at h
    · rename_i t ht
      split at h
      · rename_i hp
        cases h
        obtain ⟨hm, rfl⟩ := Tasks.find?_some ht
        exact step_scheduleNext hm hp
      · cases h
    · cases h
  | die task =>
    simp only [Sys.next] at h
    split at h
    · rename_i t ht
      cases h
      obtain ⟨hm, rfl⟩ := Tasks.find?_some ht
      exact .die hm
    · cases h

end Steps

end JobScheduler
