import JobScheduler.Scheduler

namespace JobScheduler
open Relational Transition

def queueJobs (db : Db) (q : Queue) : List Job := db.jobs.rows.filter fun j => decide (j.queueId = q.id)

def jobCount (db : Db) (q : Queue) (status : JobStatus) : ℕ :=
  (queueJobs db q).countP fun j => decide (j.status = status)

def dlqCount (db : Db) (q : Queue) : ℕ := (db.deadLetterQueue.rows.filter fun d => decide (d.queueId = q.id)).length

/-- `get_stats` reports what it says. -/
structure StatsExact (db : Db) (q : Queue) : Prop where
  queued : (repositoryStats db q).queuedCount = jobCount db q .queued
  running : (repositoryStats db q).runningCount = jobCount db q .running
  failed : (repositoryStats db q).failedCount = jobCount db q .failed
  completed : (repositoryStats db q).completedCount = jobCount db q .completed
  dlq : (repositoryStats db q).dlqCount = dlqCount db q

def NoneCounted (db : Db) (q : Queue) : Prop :=
  ∀ j ∈ queueJobs db q, j.status ≠ .queued ∧ j.status ≠ .running ∧ j.status ≠ .failed ∧ j.status ≠ .completed

theorem repositoryStats_counts (db : Db) (q : Queue) :
    repositoryStats db q = ⟨q.id, q.name, jobCount db q .queued * max 1 (dlqCount db q),
      jobCount db q .running * max 1 (dlqCount db q), jobCount db q .failed * max 1 (dlqCount db q),
      jobCount db q .completed * max 1 (dlqCount db q), max 1 (queueJobs db q).length * dlqCount db q⟩ :=
  repositoryStats_eq db q

theorem noneCounted_iff (db : Db) (q : Queue) : NoneCounted db q ↔
    jobCount db q .queued = 0 ∧ jobCount db q .running = 0 ∧ jobCount db q .failed = 0 ∧
      jobCount db q .completed = 0 := by
  simp only [NoneCounted, jobCount, List.countP_eq_zero, decide_eq_true_eq]
  constructor
  · intro h
    exact ⟨fun j hj => (h j hj).1, fun j hj => (h j hj).2.1, fun j hj => (h j hj).2.2.1,
      fun j hj => (h j hj).2.2.2⟩
  · rintro ⟨hq, hr, hf, hc⟩ j hj
    exact ⟨hq j hj, hr j hj, hf j hj, hc j hj⟩

theorem mul_max_one_eq_iff (m n : ℕ) : m * max 1 n = m ↔ n ≤ 1 ∨ m = 0 := by
  rcases Nat.le_total n 1 with hn | hn
  · simp [hn]
  · rw [max_eq_right hn]
    constructor
    · intro h
      rcases Nat.eq_zero_or_pos m with hm | hm
      · exact .inr hm
      · exact .inl (Nat.le_of_mul_le_mul_left (by omega) hm)
    · rintro (h | rfl)
      · rw [show n = 1 by omega, mul_one]
      · simp

theorem max_one_mul_eq_iff (m n : ℕ) : max 1 n * m = m ↔ n ≤ 1 ∨ m = 0 := by
  rw [mul_comm, mul_max_one_eq_iff]

theorem statsExact_iff (db : Db) (q : Queue) : StatsExact db q ↔
    (dlqCount db q ≤ 1 ∨ NoneCounted db q) ∧ ((queueJobs db q).length ≤ 1 ∨ dlqCount db q = 0) := by
  rw [noneCounted_iff]
  constructor
  · rintro ⟨hq, hr, hf, hc, hd⟩
    rw [repositoryStats_counts] at hq hr hf hc hd
    rw [mul_max_one_eq_iff] at hq hr hf hc
    refine ⟨?_, (max_one_mul_eq_iff _ _).mp hd⟩
    by_cases h : dlqCount db q ≤ 1
    · exact .inl h
    · exact .inr ⟨hq.resolve_left h, hr.resolve_left h, hf.resolve_left h, hc.resolve_left h⟩
  · rintro ⟨hcount, hd⟩
    refine ⟨?_, ?_, ?_, ?_, ?_⟩ <;> rw [repositoryStats_counts]
    · exact (mul_max_one_eq_iff _ _).mpr (hcount.imp_right fun h => h.1)
    · exact (mul_max_one_eq_iff _ _).mpr (hcount.imp_right fun h => h.2.1)
    · exact (mul_max_one_eq_iff _ _).mpr (hcount.imp_right fun h => h.2.2.1)
    · exact (mul_max_one_eq_iff _ _).mpr (hcount.imp_right fun h => h.2.2.2)
    · exact (max_one_mul_eq_iff _ _).mpr hd

/-- The statistics are right for a queue without dead letters, and otherwise exactly when the queue has at most
one job, which is in no status that is counted unless the dead letter is the only one. -/
theorem stats_exact_iff (db : Db) (q : Queue) : StatsExact db q ↔
    dlqCount db q = 0 ∨ (queueJobs db q).length ≤ 1 ∧ (dlqCount db q = 1 ∨ NoneCounted db q) := by
  rw [statsExact_iff]
  rcases Nat.lt_trichotomy (dlqCount db q) 1 with h | h | h
  · have hzero : dlqCount db q = 0 := by omega
    simp [hzero]
  · simp [h]
  · have hle : ¬dlqCount db q ≤ 1 := by omega
    have hzero : dlqCount db q ≠ 0 := by omega
    have hone : dlqCount db q ≠ 1 := by omega
    simp [hle, hzero, hone, and_comm]

/-- One job has completed and one has moved to the dead letters: the only dead letter is counted twice. -/
theorem stats_count_twice : ¬∀ db q, StatsExact db q := by
  intro hall
  obtain ⟨_, s, _, hp⟩ := Run.exists_of_exec (M := scheduler Sample.cron) Sample.sys_initial
    [.register 1 "a" "h1", .createJob 100 7 Sample.queue (Sample.request 1),
      .createJob 101 8 Sample.queue (Sample.request 1), .claim 1 10 [], .markRunning 0 0 .acknowledged,
      .finish 0 (Sample.finish (.ok ()) 1), .claim 1 10 [], .markRunning 1 0 .acknowledged,
      .finish 1 (Sample.finish (.error "smtp") 2)]
    (fun _ _ => true)
    (fun _ s => (repositoryStats s.db Sample.queue).dlqCount == 2 && dlqCount s.db Sample.queue == 1) (by decide)
  simp only [Bool.and_eq_true, beq_iff_eq] at hp
  have hdlq := (hall s.db Sample.queue).dlq
  rw [hp.1, hp.2] at hdlq
  cases hdlq

end JobScheduler
