import JobScheduler.Progress

namespace JobScheduler
open Relational Transition

/-! ## The two loops of the scheduler -/

/-- `run_scheduled_job_promoter` and `run_stale_recovery`. -/
inductive Chore
  | runScheduledJobPromoter
  | runStaleRecovery
  deriving DecidableEq

/-- What `main` starts the recovery with. -/
def staleThresholdSeconds : ℤ := 60

/-- `interval(Duration::from_secs(5))` and `interval(Duration::from_secs(30))`. -/
def Chore.period : Chore → Timestamp
  | .runScheduledJobPromoter => 5 * 1000000
  | .runStaleRecovery => 30 * 1000000

def Chore.label : Chore → Label
  | .runScheduledJobPromoter => .reQueueScheduledJobs
  | .runStaleRecovery => .recoverStaleJobs staleThresholdSeconds

/-- The scheduler with the next ticks of its two loops. -/
structure Housekeeping where
  core : Sys
  due : Chore → Timestamp

inductive HousekeepingLabel
  | core (l : Label)
  | run (c : Chore) (ok : Bool)

namespace Housekeeping

/-- A tick that was missed is made up for; an error of the statement is only logged. -/
def next (cron : Cron) (s : Housekeeping) : HousekeepingLabel → Option Housekeeping
  | .core l => (s.core.next cron l).map fun core => { s with core := core }
  | .run c ok =>
    if s.due c ≤ s.core.now then
      (if ok then s.core.next cron c.label else some s.core).map fun core =>
        ⟨core, Function.update s.due c (s.due c + c.period)⟩
    else none

/-- The first tick of an interval is due at once; heartbeats that are stored by then are of the past. -/
structure Initial (s : Housekeeping) : Prop where
  core : s.core.Initial
  due : ∀ c, s.due c = s.core.now
  seen : ∀ hb ∈ s.core.db.workerHeartbeats.rows, hb.lastSeen ≤ s.core.now

def onTime (late : Timestamp) (s : Housekeeping) : HousekeepingLabel → Bool
  | .core (.tick now) =>
    now ≤ s.due .runScheduledJobPromoter + late && now ≤ s.due .runStaleRecovery + late
  | .core _ => true
  | .run _ ok => ok

inductive Step (cron : Cron) (s : Housekeeping) : HousekeepingLabel → Housekeeping → Prop
  | core {l : Label} {core : Sys} (hn : s.core.next cron l = some core) :
      Step cron s (.core l) { s with core := core }
  | ran {c : Chore} {core : Sys} (hd : s.due c ≤ s.core.now) (hn : s.core.next cron c.label = some core) :
      Step cron s (.run c true) ⟨core, Function.update s.due c (s.due c + c.period)⟩
  | failed {c : Chore} (hd : s.due c ≤ s.core.now) :
      Step cron s (.run c false) { s with due := Function.update s.due c (s.due c + c.period) }

end Housekeeping

def housekeeping (cron : Cron) : System Housekeeping HousekeepingLabel :=
  ⟨Housekeeping.Initial, Housekeeping.next cron⟩

theorem housekeeping_step {cron : Cron} {s s' : Housekeeping} {l : HousekeepingLabel}
    (h : s.next cron l = some s') : s.Step cron l s' := by
  cases l with
  | core l =>
    obtain ⟨core, hn, rfl⟩ := Option.map_eq_some_iff.mp h
    exact .core hn
  | run c ok =>
    simp only [Housekeeping.next] at h
    split at h
    · rename_i hd
      obtain ⟨core, hn, rfl⟩ := Option.map_eq_some_iff.mp h
      cases ok with
      | true => exact .ran hd hn
      | false =>
        cases hn
        exact .failed hd
    · cases h

theorem core_of_housekeeping {cron : Cron} {ok : Housekeeping → HousekeepingLabel → Prop} {s : Housekeeping}
    (h : Reachable (housekeeping cron) ok s) : Reachable (scheduler cron) (fun _ _ => True) s.core := by
  refine Reachable.project Housekeeping.core (fun s (hs : s.Initial) => hs.core) ?_ h
  intro s l s' _ _ (hn : s.next cron l = some s')
  cases housekeeping_step hn with
  | core hc => exact .inr ⟨_, trivial, hc⟩
  | ran _ hc => exact .inr ⟨_, trivial, hc⟩
  | failed _ => exact .inl rfl

/-! ## The times in the rows -/

section Steps
variable {cron : Cron} {s s' : Sys} {l : Label} {j w : Uuid} {r' : Job} {T : Timestamp}

theorem now_next (h : s.next cron l = some s') : s'.now = s.now ∨ l = .tick s'.now := by
  cases sys_step h with
  | tick _ => exact .inr rfl
  | _ => exact .inl rfl

theorem row_stamped (h : s.next cron l = some s') (hr : s'.db.jobs.find? j = some r') :
    s.db.jobs.find? j = some r' ∨ r'.updatedAt = s.now := by
  have hmap (f : Job → Job) (hf : ∀ r, (f r).updatedAt = s.now) (h₀ : (s.view j).row.map f = some r') :
      s.db.jobs.find? j = some r' ∨ r'.updatedAt = s.now := by
    obtain ⟨r, _, rfl⟩ := Option.map_eq_some_iff.mp h₀
    exact .inr (hf r)
  have hinsert {r₀ : Job} (hi : insertJob s.db r₀ = .ok s'.db) (hs : r₀.updatedAt = s.now) :
      s.db.jobs.find? j = some r' ∨ r'.updatedAt = s.now := by
    obtain ⟨_, jobs, hj, hdb⟩ := insertJob_ok hi
    rw [hdb] at hr
    rw [Table.find?_insert hj] at hr
    split at hr
    · cases hr
      exact .inr hs
    · exact .inl hr
  cases (next_tables h).jobs with
  | created _ hi => exact hinsert hi rfl
  | continued _ hi => exact hinsert hi rfl
  | updated f hrows hf =>
    have hrow : (s'.view j).row = some r' := hr
    have heffect := next_effect j h
    generalize s'.view j = v at heffect hrow
    cases heffect with
    | same _ | notStarted _ _ | scheduledNext _ _ | died _ | crashed => exact .inl hrow
    | notApplied _ _ _ => exact .inl (by rwa [View.endFinish_row] at hrow)
    | inserted _ hnone _ _ _ =>
      -- rewriting rows does not add one
      rw [Table.find?_of_rows_map hrows (fun r => (hf r).id), show s.db.jobs.find? j = none from hnone] at hr
      cases hr
    | cancelled _ _ | promoted _ _ | released _ _ | recovered _ _ | retried _ _ _ | claimed _ _ _ =>
      cases hrow
      exact .inr rfl
    | started _ _ | startLost _ _ => exact hmap _ (fun _ => rfl) hrow
    | completed _ _ _ _ => exact hmap _ (fun _ => rfl) hrow
    | deadLettered _ _ _ _ _ => exact hmap _ (fun _ => rfl) hrow
    | rescheduled _ _ _ _ _ => exact hmap _ (fun _ => rfl) hrow

theorem heartbeat_next (h : s.next cron l = some s') :
    s'.db.workerHeartbeats.find? w = s.db.workerHeartbeats.find? w ∨
      w ∉ s.crashed ∧ ∃ hb, s'.db.workerHeartbeats.find? w = some hb ∧ hb.lastSeen = s.now := by
  by_cases hw : w ∈ s.crashed
  · exact .inl (heartbeat_of_crashed hw h)
  · cases (next_tables h).workers with
    | same _ hh => exact .inl (by rw [hh])
    | registered hdb => exact .inl (by rw [hdb, register_heartbeats])
    | deregistered hdb =>
      rw [hdb]
      exact .inl rfl
    | @seen w' _ _ hdb =>
      obtain ⟨_, _, ⟨hb, hnew, hseen⟩, hother⟩ := upsertHeartbeat_ok hdb
      by_cases hsame : w = w'
      · exact .inr ⟨hw, hb, hsame ▸ hnew, hseen⟩
      · exact .inl (hother w hsame)

/-- The worker has given its last sign of life by `T`: it has claimed no job since, and sent no heartbeat. -/
structure Sys.QuietSince (T : Timestamp) (w : Uuid) (s : Sys) : Prop where
  claims : ∀ j r, s.db.jobs.find? j = some r → r.workerId = some w → ∃ c, r.claimedAt = some c ∧ c ≤ T
  beats : ∀ hb, s.db.workerHeartbeats.find? w = some hb → hb.lastSeen ≤ T

theorem Sys.QuietSince.mono {T' : Timestamp} (h : s.QuietSince T w) (hle : T ≤ T') : s.QuietSince T' w where
  claims j r hr hw := by
    obtain ⟨c, hc, hcT⟩ := h.claims j r hr hw
    exact ⟨c, hc, hcT.trans hle⟩
  beats hb hfind := (h.beats hb hfind).trans hle

theorem Sys.QuietSince.step (hq : s.QuietSince T w) (hT : w ∈ s.crashed ∨ s.now ≤ T)
    (h : s.next cron l = some s') : s'.QuietSince T w where
  claims j r' hr' hw := by
    rcases (next_effect j h).worker_before hr' hw with ⟨r, hr, hrw, hc, _⟩ | ⟨_, hc, hnot, _⟩
    · rw [← hc]
      exact hq.claims j r hr hrw
    · exact ⟨s.now, hc, hT.resolve_left hnot⟩
  beats hb hfind := by
    rcases heartbeat_next (w := w) h with hsame | ⟨hnot, hb', hnew, hseen⟩
    · exact hq.beats hb (hsame ▸ hfind)
    · rw [hnew] at hfind
      cases hfind
      rw [hseen]
      exact hT.resolve_left hnot

end Steps

section Runs
variable {cron : Cron} {late : Timestamp} {s : Housekeeping} {w : Uuid}

theorem quietSince_now {ok : Housekeeping → HousekeepingLabel → Prop} (h : Reachable (housekeeping cron) ok s) :
    s.core.QuietSince s.core.now w := by
  refine Reachable.invariant (I := fun s : Housekeeping => s.core.QuietSince s.core.now w) ?_ ?_ h
  · intro s (hs : s.Initial)
    refine ⟨fun j r hr => ?_, fun hb hfind => hs.seen hb (Table.mem_of_find? hfind)⟩
    simp [Table.find?, hs.core.jobs] at hr
  · intro s l s' _ hi _ (hn : s.next cron l = some s')
    have hcore {l : Label} {core : Sys} (hc : s.core.next cron l = some core) : core.QuietSince core.now w :=
      (hi.step (.inr le_rfl) hc).mono (next_tables hc).now
    cases housekeeping_step hn with
    | core hc => exact hcore hc
    | ran _ hc => exact hcore hc
    | failed _ => exact hi

/-- What a loop establishes each time it runs, and the other steps keep, holds since its last run. -/
theorem since_last_run (hlate : 0 ≤ late) (c : Chore) {P : Sys → Timestamp → Prop}
    (hinit : ∀ s t, s.Initial → P s t)
    (hkeep : ∀ s l s' t, t ≤ s.now → P s t → s.next cron l = some s' → P s' t)
    (hrun : ∀ s s', Reachable (scheduler cron) (fun _ _ => True) s → s.next cron c.label = some s' → P s' s.now)
    (h : Reachable (housekeeping cron) (fun s l => s.onTime late l) s) :
    ∃ last, Periodic c.period late s.core.now (s.due c) last ∧ P s.core last := by
  have hnow {s s' : Sys} {c : Chore} (hn : s.next cron c.label = some s') : s'.now = s.now := by
    rcases now_next hn with he | hl
    · exact he
    · cases c <;> cases hl
  have hperiod : 0 ≤ c.period := by cases c <;> decide
  refine Reachable.periodic (M := housekeeping cron) (P := fun s => P s.core) (fun s => s.core.now)
    (fun s => s.due c) hperiod hlate (fun s (hs : s.Initial) => ⟨hs.due c, fun t => hinit _ t hs.core⟩) ?_ h
  intro s l s' hreach hok (hn : s.next cron l = some s')
  cases housekeeping_step hn with
  | @core l core hcore =>
    refine .inl ⟨rfl, (next_tables hcore).now, ?_, fun t ht hP => hkeep _ _ _ t ht hP hcore⟩
    rcases now_next hcore with he | rfl
    · exact .inl he
    · simp only [Housekeeping.onTime, Bool.and_eq_true, decide_eq_true_eq] at hok
      cases c with
      | runScheduledJobPromoter => exact .inr hok.1
      | runStaleRecovery => exact .inr hok.2
  | @ran c' core hd hcore =>
    by_cases hc : c = c'
    · subst hc
      exact .inr ⟨hd, hnow hcore, Function.update_self .., hrun _ _ (core_of_housekeeping hreach) hcore⟩
    · exact .inl ⟨Function.update_of_ne hc .., (hnow hcore).ge, .inl (hnow hcore),
        fun t ht hP => hkeep _ _ _ t ht hP hcore⟩
  | failed _ => cases hok

/-- The rows that wait for their time have not been waiting since before the last promotion. -/
def Sys.PromotedAt (s : Sys) (t : Timestamp) : Prop :=
  ∀ j r due, s.db.jobs.find? j = some r → r.status = .scheduled → r.nextAttemptAt.or r.scheduledAt = some due →
    t ≤ max due r.updatedAt

theorem Sys.PromotedAt.step {s s' : Sys} {l : Label} {t : Timestamp} (hP : s.PromotedAt t) (ht : t ≤ s.now)
    (h : s.next cron l = some s') : s'.PromotedAt t := by
  intro j r due hr hs hdue
  rcases row_stamped h hr with hold | hstamp
  · exact hP j r due hold hs hdue
  · rw [hstamp]
    exact ht.trans (le_max_right _ _)

theorem promotedAt_of_run {s s' : Sys} (h : s.next cron .reQueueScheduledJobs = some s') : s'.PromotedAt s.now := by
  intro j r due hr hs hdue
  cases sys_step h with
  | reQueueScheduledJobs =>
    have hfind : (reQueueScheduledJobs s.db s.now).jobs.find? j =
        (s.db.jobs.find? j).map fun r => if dueForPromotion s.now r then r.reQueue s.now else r :=
      Table.find?_update _ _ _ (Job.reQueue_id s.now) _
    have hr : (reQueueScheduledJobs s.db s.now).jobs.find? j = some r := hr
    rw [hfind] at hr
    obtain ⟨r₀, _, rfl⟩ := Option.map_eq_some_iff.mp hr
    by_cases hpromoted : dueForPromotion s.now r₀ = true
    · rw [if_pos hpromoted] at hs
      cases hs
    · rw [if_neg hpromoted] at hs hdue ⊢
      -- it was not due
      have hlt : ¬due ≤ s.now := by simpa [dueForPromotion, hs, hdue] using hpromoted
      exact (not_le.mp hlt).le.trans (le_max_left _ _)

/-- A job is not left scheduled for longer than a period of the promoter and the delay, once its time has
come and its row has been written. -/
theorem promoted_in_time (hlate : 0 ≤ late) (h : Reachable (housekeeping cron) (fun s l => s.onTime late l) s)
    {r : Job} (hr : r ∈ s.core.db.jobs.rows) (hs : r.status = .scheduled) {due : Timestamp}
    (hdue : r.nextAttemptAt.or r.scheduledAt = some due) :
    s.core.now ≤ max due r.updatedAt + Chore.runScheduledJobPromoter.period + late := by
  have hinit (s : Sys) (t : Timestamp) (hs : s.Initial) : s.PromotedAt t := by
    intro j r due hr
    simp [Table.find?, hs.jobs] at hr
  obtain ⟨t, hper, hP⟩ := since_last_run hlate .runScheduledJobPromoter hinit
    (fun s l s' t ht hP hn => hP.step ht hn) (fun s s' _ hn => promotedAt_of_run hn) h
  have hle := hP r.id r due (Table.find?_of_mem hr) hs hdue
  linarith [hper.now_le]

/-- No worker whose last sign of life is older than the threshold has held a job since before the last
recovery. -/
def Sys.RecoveredAt (s : Sys) (t : Timestamp) : Prop :=
  ∀ j r w, s.db.jobs.find? j = some r → r.workerId = some w → (∃ c, r.claimedAt = some c ∧ t ≤ c) ∨
    ∃ hb, s.db.workerHeartbeats.find? w = some hb ∧ t ≤ hb.lastSeen + staleThresholdSeconds * 1000000

theorem Sys.RecoveredAt.step {s s' : Sys} {l : Label} {t : Timestamp} (hP : s.RecoveredAt t) (ht : t ≤ s.now)
    (h : s.next cron l = some s') : s'.RecoveredAt t := by
  intro j r' w hr' hw
  rcases (next_effect j h).worker_before hr' hw with ⟨r, hr, hrw, hc, _⟩ | ⟨_, hc, _⟩
  · rcases hP j r w hr hrw with hclaim | ⟨hb, hfind, hle⟩
    · exact .inl (hc ▸ hclaim)
    · right
      rcases heartbeat_next (w := w) h with hsame | ⟨_, hb', hnew, hseen⟩
      · exact ⟨hb, hsame.trans hfind, hle⟩
      · refine ⟨hb', hnew, ?_⟩
        rw [hseen]
        exact ht.trans (le_add_of_nonneg_right (by decide))
  · exact .inl ⟨s.now, hc, ht⟩

theorem recoveredAt_of_run {s s' : Sys} (hreach : Reachable (scheduler cron) (fun _ _ => True) s)
    (h : s.next cron (.recoverStaleJobs staleThresholdSeconds) = some s') : s'.RecoveredAt s.now := by
  intro j r w hr hw
  by_cases hsilent : s.silent staleThresholdSeconds w
  · -- it has taken the job
    exact ((recover_silent hreach hsilent h).2 j r hr hw).elim
  · right
    obtain ⟨hb, hfind, hlt⟩ : ∃ hb, s.db.workerHeartbeats.find? w = some hb ∧
        ¬staleThresholdSeconds * 1000000 < s.now - hb.lastSeen := by simpa [Sys.silent] using hsilent
    cases sys_step h with
    | recoverStaleJobs => exact ⟨hb, hfind, by linarith⟩

/-- A worker process that has died holds no job for longer than the threshold, a period of the recovery and
the delay. -/
theorem released_in_time (hlate : 0 ≤ late) {hist : List (Housekeeping × HousekeepingLabel)}
    (h : Run (housekeeping cron) (fun s l => s.onTime late l) hist s) {q : Housekeeping × HousekeepingLabel}
    (hq : q ∈ hist) (hw : w ∈ q.1.core.crashed) {r : Job} (hr : r ∈ s.core.db.jobs.rows)
    (hr' : r.workerId = some w) :
    s.core.now ≤ q.1.core.now + staleThresholdSeconds * 1000000 + Chore.runStaleRecovery.period + late := by
  -- from its death on it is quiet
  have hquiet : s.core.QuietSince q.1.core.now w := by
    have hcore {s s' : Sys} {l : Label} (hi : w ∈ s.crashed ∧ s.QuietSince q.1.core.now w)
        (hn : s.next cron l = some s') : w ∈ s'.crashed ∧ s'.QuietSince q.1.core.now w :=
      ⟨crashed_next hi.1 hn, hi.2.step (.inl hi.1) hn⟩
    have hstep (s : Housekeeping) (l : HousekeepingLabel) (s' : Housekeeping) (hn : s.next cron l = some s')
        (hi : w ∈ s.core.crashed ∧ s.core.QuietSince q.1.core.now w) :
        w ∈ s'.core.crashed ∧ s'.core.QuietSince q.1.core.now w := by
      cases housekeeping_step hn with
      | core hc => exact hcore hi hc
      | ran _ hc => exact hcore hi hc
      | failed _ => exact hi
    obtain ⟨later, earlier, rfl⟩ := List.append_of_mem hq
    have hsince := Run.ever_since (I := fun s : Housekeeping => w ∈ s.core.crashed ∧ s.core.QuietSince q.1.core.now w)
      (fun s₁ hn => hstep q.1 q.2 s₁ hn ⟨hw, quietSince_now h.split.1.reachable⟩)
      (fun s l s' _ hi _ hn => hstep s l s' hn hi) h
    exact hsince.1.2
  have hinit (s : Sys) (t : Timestamp) (hs : s.Initial) : s.RecoveredAt t := by
    intro j r w hr
    simp [Table.find?, hs.jobs] at hr
  obtain ⟨t, hper, hP⟩ := since_last_run hlate .runStaleRecovery hinit
    (fun s l s' t ht hP hn => hP.step ht hn) (fun s s' hreach hn => recoveredAt_of_run hreach hn) h.reachable
  have hthreshold : 0 ≤ staleThresholdSeconds := by decide
  have hnow := hper.now_le
  rcases hP r.id r w (Table.find?_of_mem hr) hr' with ⟨c, hc, hle⟩ | ⟨hb, hfind, hle⟩
  · obtain ⟨c', hc', hcT⟩ := hquiet.claims r.id r (Table.find?_of_mem hr) hr'
    rw [hc] at hc'
    cases hc'
    linarith
  · have := hquiet.beats hb hfind
    linarith

end Runs

namespace Sample

def housekeeping : Housekeeping := ⟨sys, fun _ => 0⟩

theorem housekeeping_initial : housekeeping.Initial :=
  ⟨sys_initial, fun _ => rfl, fun _ h => nomatch h⟩

end Sample

/-- Two seconds after its time a job is still scheduled; the promoter is up to three seconds late. -/
theorem promoted_in_time_sample :
    ∃ s r, Reachable (housekeeping Sample.cron) (fun s l => s.onTime 3000000 l) s ∧
      r ∈ s.core.db.jobs.rows ∧ r.status = .scheduled ∧ s.core.now = 2000100 ∧
      s.core.now ≤ max 100 r.updatedAt + Chore.runScheduledJobPromoter.period + 3000000 := by
  obtain ⟨_, s, hrun, hp⟩ := Run.exists_of_exec (M := housekeeping Sample.cron) Sample.housekeeping_initial
    [.run .runScheduledJobPromoter true,
      .core (.createJob 1 2 Sample.queue
        { Sample.request 3 with jobType := .scheduled, scheduledAt := some 100 }),
      .core (.tick 2000100)] (Housekeeping.onTime 3000000)
    (fun _ s => decide (s.core.now = 2000100) && s.core.db.jobs.rows.any fun r =>
      decide (r.status = .scheduled) && decide (r.nextAttemptAt.or r.scheduledAt = some 100)) (by decide)
  simp only [Bool.and_eq_true, List.any_eq_true, decide_eq_true_eq] at hp
  obtain ⟨hnow, r, hr, hs, hdue⟩ := hp
  exact ⟨s, r, hrun.reachable, hr, hs, hnow, promoted_in_time (by decide) hrun.reachable hr hs hdue⟩

/-- A minute after the death of its worker a recovery still leaves the job: the heartbeat is not yet older than
the threshold. -/
theorem released_in_time_sample :
    ∃ hist s q r, Run (housekeeping Sample.cron) (fun s l => s.onTime 60000000 l) hist s ∧ q ∈ hist ∧
      7 ∈ q.1.core.crashed ∧ q.1.core.now = 0 ∧ r ∈ s.core.db.jobs.rows ∧ r.workerId = some 7 ∧
      s.core.now = 60000000 ∧
      s.core.now ≤ q.1.core.now + staleThresholdSeconds * 1000000 + Chore.runStaleRecovery.period + 60000000 := by
  obtain ⟨hist, s, hrun, hp⟩ := Run.exists_of_exec (M := housekeeping Sample.cron) Sample.housekeeping_initial
    [.run .runScheduledJobPromoter true, .run .runStaleRecovery true, .core (.register 7 "worker" "host"),
      .core (.heartbeat 7 0), .core (.createJob 1 2 Sample.queue (Sample.request 3)), .core (.claim 7 10 []),
      .core (.crash 7), .core (.tick 60000000), .run .runStaleRecovery true] (Housekeeping.onTime 60000000)
    (fun hist s => decide (s.core.now = 60000000) &&
      (hist.any fun q => decide (7 ∈ q.1.core.crashed) && decide (q.1.core.now = 0)) &&
      s.core.db.jobs.rows.any fun r => decide (r.workerId = some 7)) (by decide)
  simp only [Bool.and_eq_true, List.any_eq_true, decide_eq_true_eq] at hp
  obtain ⟨⟨hnow, q, hq, hw, hzero⟩, r, hr, hr'⟩ := hp
  exact ⟨hist, s, q, r, hrun, hq, hw, hzero, hr, hr', hnow, released_in_time (by decide) hrun hq hw hr hr'⟩

end JobScheduler
