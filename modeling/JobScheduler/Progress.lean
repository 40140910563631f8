import JobScheduler.Coherence
import JobScheduler.Liveness

namespace JobScheduler
open Relational Transition

section Steps
variable {cron : Cron} {s s' : Sys} {l : Label} {w j : Uuid}

/-! ## A worker process that has died -/

theorem heartbeat_of_crashed (hw : w ∈ s.crashed) (h : s.next cron l = some s') :
    s'.db.workerHeartbeats.find? w = s.db.workerHeartbeats.find? w := by
  cases (next_tables h).workers with
  | same _ hh => rw [hh]
  | registered hdb => rw [hdb, register_heartbeats]
  | deregistered hdb =>
    rw [hdb]
    rfl
  | @seen w' _ _ hdb =>
    cases sys_step h with
    | heartbeat hw' _ =>
      apply (upsertHeartbeat_ok hdb).2.2.2
      intro he
      exact hw' (he ▸ hw)

theorem crashed_next (hw : w ∈ s.crashed) (h : s.next cron l = some s') : w ∈ s'.crashed := by
  rw [(next_frame h).crashed]
  exact List.mem_append_right _ hw

structure Sys.Released (w : Uuid) (s : Sys) : Prop where
  crashed : w ∈ s.crashed
  released : ∀ j r, s.db.jobs.find? j = some r → r.workerId ≠ some w

theorem Sys.Released.step (hi : s.Released w) (h : s.next cron l = some s') : s'.Released w := by
  refine ⟨crashed_next hi.crashed h, fun j r' hr' hw => ?_⟩
  rcases (next_effect j h).worker_before hr' hw with ⟨r, hr, hrw, _⟩ | ⟨_, _, hnot, _⟩
  · exact hi.released j r hr hrw
  · exact hnot hi.crashed

def Sys.silent (s : Sys) (threshold : ℤ) (w : Uuid) : Prop :=
  ∀ hb, s.db.workerHeartbeats.find? w = some hb → threshold * 1000000 < s.now - hb.lastSeen

theorem recover_silent {ok : Sys → Label → Prop} (hr : Reachable (scheduler cron) ok s) {threshold : ℤ}
    (hs : s.silent threshold w) (h : s.next cron (.recoverStaleJobs threshold) = some s') :
    (∀ j r, s.db.jobs.find? j = some r → r.workerId = some w →
      s'.db.jobs.find? j = some (r.recover s.now)) ∧
    ∀ j r, s'.db.jobs.find? j = some r → r.workerId ≠ some w := by
  have hheld (j : Uuid) (r : Job) (hj : s.db.jobs.find? j = some r) (hw : r.workerId = some w) :
      recoverable s.db s.now threshold r = true := by
    obtain ⟨ha, hreg⟩ := worker_of_reachable hr j r w hj hw
    have hstale : isStale s.db s.now threshold w = true := by
      unfold isStale
      rw [show (s.db.workers.find? w).isSome = true from hreg, Bool.true_and]
      cases hhb : s.db.workerHeartbeats.find? w with
      | none => rfl
      | some hb => exact decide_eq_true (hs hb hhb)
    rw [recoverable, hw, Option.any_some, hstale, Bool.and_true]
    exact ha
  cases sys_step h with
  | recoverStaleJobs =>
    have hfind (j : Uuid) : (recoverStaleJobs s.db s.now threshold).jobs.find? j =
        (s.db.jobs.find? j).map fun r => if recoverable s.db s.now threshold r then r.recover s.now else r :=
      Table.find?_update _ _ _ (Job.recover_id s.now) _
    refine ⟨fun j r hj hw => ?_, fun j r hj hw => ?_⟩
    · show (recoverStaleJobs s.db s.now threshold).jobs.find? j = _
      rw [hfind, hj, Option.map_some, if_pos (hheld j r hj hw)]
    · have hj : (recoverStaleJobs s.db s.now threshold).jobs.find? j = some r := hj
      rw [hfind] at hj
      obtain ⟨r₀, h₀, rfl⟩ := Option.map_eq_some_iff.mp hj
      split at hw
      · cases hw
      · rename_i hne
        exact hne (hheld j r₀ h₀ hw)

/-! ## A job that waits for its time -/

def Sys.waiting (s : Sys) (j : Uuid) : Prop :=
  ∃ r, s.db.jobs.find? j = some r ∧ r.status = .scheduled ∧ (r.nextAttemptAt.or r.scheduledAt).isSome = true

def Sys.waitingFor (s : Sys) (j : Uuid) (due : Timestamp) : Prop :=
  ∃ r, s.db.jobs.find? j = some r ∧ r.status = .scheduled ∧ r.nextAttemptAt.or r.scheduledAt = some due

def Sys.hasLeft (s : Sys) (j : Uuid) : Prop := ∃ r, s.db.jobs.find? j = some r ∧ r.status ≠ .scheduled

def Sys.executors (s : Sys) (j : Uuid) : ℕ := (s.view j).tasks.length

theorem View.drop_length_lt {v : View} {p : Task → Bool} {t : Task} (ht : t ∈ v.tasks) (hp : p t = true) :
    (v.drop p).tasks.length < v.tasks.length := by
  apply List.length_filter_lt_length_iff_exists.mpr
  exact ⟨t, ht, by simp [hp]⟩

theorem View.endFinish_length_le (v : View) (t : Task) (x : Finish) :
    (v.endFinish t x).tasks.length ≤ v.tasks.length := by
  unfold endFinish
  split
  · exact (List.length_map _).le
  · exact List.length_filter_le _ _

/-- A step lets a waiting job go on waiting, or ends its wait, or it is the retry of an executor that
started before: that one sets another time and returns. -/
theorem Effect.of_scheduled {v : View} (h : Effect s j l v) {r : Job} (hrow : (s.view j).row = some r)
    (hs : r.status = .scheduled) :
    (∃ r', v.row = some r' ∧ r'.status ≠ .scheduled) ∨
      v.row = some r ∧ v.tasks.length ≤ (s.view j).tasks.length ∨
      (∃ r' due, v.row = some r' ∧ r'.status = .scheduled ∧ r'.nextAttemptAt = some due) ∧
        v.tasks.length < (s.view j).tasks.length := by
  -- a branch that assigns another status
  have hleft (f : Job → Job) (hf : (f r).status ≠ .scheduled) :
      ∃ r', (s.view j).row.map f = some r' ∧ r'.status ≠ .scheduled := ⟨f r, by rw [hrow]; rfl, hf⟩
  have hleft' (f : Job → Job) {r₀ : Job} (h₀ : (s.view j).row = some r₀) (hf : (f r).status ≠ .scheduled) :
      ∃ r', some (f r₀) = some r' ∧ r'.status ≠ .scheduled := by
    rw [hrow] at h₀
    cases h₀
    exact ⟨f r, rfl, hf⟩
  cases h with
  | same _ => exact .inr (.inl ⟨hrow, le_rfl⟩)
  | inserted _ hn _ _ _ => simp [hrow] at hn
  | cancelled h₀ _ => exact .inl (hleft' (Job.cancel s.now) h₀ (by simp [Job.cancel]))
  | promoted h₀ _ => exact .inl (hleft' (Job.reQueue s.now) h₀ (by simp [Job.reQueue]))
  | released h₀ _ => exact .inl (hleft' (Job.reQueue s.now) h₀ (by simp [Job.reQueue]))
  | recovered h₀ _ => exact .inl (hleft' (Job.recover s.now) h₀ (by simp [Job.recover]))
  | retried _ _ h₀ => exact .inl (hleft' (Job.manualRetry s.now) h₀ (by simp [Job.manualRetry]))
  | claimed h₀ hc _ =>
    -- only a queued job is claimed
    rw [hrow] at h₀
    cases h₀
    simp [claimable, hs] at hc
  | started _ _ | startLost _ _ => exact .inl (hleft (Job.markRunning s.now) (by simp [Job.markRunning]))
  | completed _ _ _ _ => exact .inl (hleft (Job.markCompleted s.now) (by simp [Job.markCompleted]))
  | deadLettered _ _ _ _ _ => exact .inl (hleft (Job.markFailed _ s.now) (by simp [Job.markFailed]))
  | @rescheduled t _ x msg ht _ _ hr _ =>
    refine .inr (.inr ⟨⟨r.scheduleRetry x.nextAttemptAt t.attempt s.now, _, by rw [hrow]; rfl, rfl, rfl⟩, ?_⟩)
    have hend : Sys.goesOn x t x.acked = false := by simp [Sys.goesOn, hr, Except.isOk, Except.toBool]
    show ((s.view j).endFinish t x).tasks.length < (s.view j).tasks.length
    rw [View.endFinish, hend]
    exact View.drop_length_lt ht (decide_eq_true rfl)
  | notStarted _ _ | scheduledNext _ _ | died _ | crashed =>
    exact .inr (.inl ⟨hrow, List.length_filter_le _ _⟩)
  | notApplied _ _ _ =>
    exact .inr (.inl ⟨by rw [View.endFinish_row, hrow], View.endFinish_length_le _ _ _⟩)

theorem reQueue_waiting {due : Timestamp} (hw : s.waitingFor j due) (hdue : due ≤ s.now)
    (h : s.next cron .reQueueScheduledJobs = some s') : s'.hasLeft j := by
  obtain ⟨r, hj, hs, ht⟩ := hw
  have hd : dueForPromotion s.now r = true := by
    rw [dueForPromotion, ht, Option.any_some, decide_eq_true hs, Bool.true_and]
    exact decide_eq_true hdue
  cases sys_step h with
  | reQueueScheduledJobs =>
    have hfind : (reQueueScheduledJobs s.db s.now).jobs.find? j = some (r.reQueue s.now) := by
      refine (Table.find?_update _ _ _ (Job.reQueue_id s.now) _).trans ?_
      rw [hj, Option.map_some, if_pos hd]
    exact ⟨_, hfind, by simp [Job.reQueue]⟩

end Steps

section Runs
variable {cron : Cron} {ok : Sys → Label → Prop} {b : Behaviour (scheduler cron) ok} {n : ℕ} {w j : Uuid}

theorem now_mono {m : ℕ} (hm : n ≤ m) : (b.state n).now ≤ (b.state m).now := by
  refine Behaviour.persists (b := b) (I := fun s => (b.state n).now ≤ s.now) le_rfl ?_ hm
  intro s l s' _ hle hn
  exact hle.trans (next_tables hn).now

theorem now_eventually (hclock : ∀ t, ∃ k, t ≤ (b.state k).now) (t : Timestamp) :
    ∃ k, ∀ m, k ≤ m → t ≤ (b.state m).now := by
  obtain ⟨k, hk⟩ := hclock t
  exact ⟨k, fun m hm => hk.trans (now_mono hm)⟩

theorem silent_of_crashed (hw : w ∈ (b.state n).crashed) (hclock : ∀ t, ∃ k, t ≤ (b.state k).now)
    (threshold : ℤ) : ∃ k, n ≤ k ∧ ∀ m, k ≤ m → (b.state m).silent threshold w := by
  -- from the crash on the last heartbeat stays the last one
  have hkeep {m : ℕ} (hm : n ≤ m) : w ∈ (b.state m).crashed ∧
      (b.state m).db.workerHeartbeats.find? w = (b.state n).db.workerHeartbeats.find? w := by
    refine Behaviour.persists (b := b) (I := fun s => w ∈ s.crashed ∧
      s.db.workerHeartbeats.find? w = (b.state n).db.workerHeartbeats.find? w) ⟨hw, rfl⟩ ?_ hm
    intro s l s' _ hi hn
    exact ⟨crashed_next hi.1 hn, (heartbeat_of_crashed hi.1 hn).trans hi.2⟩
  cases hhb : (b.state n).db.workerHeartbeats.find? w with
  | none =>
    refine ⟨n, le_rfl, fun m hm hb hfind => ?_⟩
    rw [(hkeep hm).2, hhb] at hfind
    cases hfind
  | some hb =>
    obtain ⟨k, hk⟩ := now_eventually hclock (hb.lastSeen + threshold * 1000000 + 1)
    refine ⟨max n k, le_max_left n k, fun m hm hb' hfind => ?_⟩
    rw [(hkeep ((le_max_left n k).trans hm)).2, hhb] at hfind
    cases hfind
    have := hk m ((le_max_right n k).trans hm)
    linarith

theorem crashed_mono {m : ℕ} (hw : w ∈ (b.state n).crashed) (hm : n ≤ m) : w ∈ (b.state m).crashed := by
  refine Behaviour.persists (b := b) (I := fun s => w ∈ s.crashed) hw ?_ hm
  intro s l s' _ hi hn
  exact crashed_next hi hn

/-- As long as stale jobs are recovered again and again, a worker process that has died loses every
job it holds at one recovery, which puts them back into their queues, and never holds one again. -/
theorem dead_worker_released {threshold : ℤ} (hw : w ∈ (b.state n).crashed)
    (hclock : ∀ t, ∃ k, t ≤ (b.state k).now)
    (hrecovery : Recurs fun m => b.label m = .recoverStaleJobs threshold) :
    ∃ m, n ≤ m ∧
      (∀ j r, (b.state m).db.jobs.find? j = some r → r.workerId = some w →
        (b.state (m + 1)).db.jobs.find? j = some (r.recover (b.state m).now)) ∧
      ∀ k, m < k → ∀ j r, (b.state k).db.jobs.find? j = some r → r.workerId ≠ some w := by
  obtain ⟨k, hnk, hk⟩ := silent_of_crashed hw hclock threshold
  obtain ⟨m, hm, hlabel⟩ := hrecovery k
  have hnext := b.next m
  rw [hlabel] at hnext
  obtain ⟨hback, hnone⟩ := recover_silent (b.reachable m) (hk m hm) hnext
  refine ⟨m, hnk.trans hm, hback, fun k' hmk => ?_⟩
  have hrel : (b.state k').Released w := by
    refine Behaviour.persists (b := b) (I := Sys.Released w)
      ⟨crashed_mono hw (hnk.trans (hm.trans (Nat.le_succ m))), hnone⟩ ?_ hmk
    intro s l s' _ hi hn
    exact hi.step hn
  exact hrel.released

/-- A waiting job still waits for the same time with no more executors than before, or has left, or
waits with fewer executors. -/
theorem waiting_next {s s' : Sys} {l : Label} {due : Timestamp} {k : ℕ}
    (hw : s.waitingFor j due ∧ s.executors j ≤ k) (h : s.next cron l = some s') :
    s'.waitingFor j due ∧ s'.executors j ≤ k ∨ s'.hasLeft j ∨ s'.waiting j ∧ s'.executors j < k := by
  obtain ⟨⟨r, hj, hs, ht⟩, hk⟩ := hw
  rcases (next_effect j h).of_scheduled hj hs with hleft | ⟨hrow, hle⟩ | ⟨⟨r', due', hrow, hs', ht'⟩, hlt⟩
  · exact .inr (.inl hleft)
  · exact .inl ⟨⟨r, hrow, hs, ht⟩, hle.trans hk⟩
  · exact .inr (.inr ⟨⟨r', hrow, hs', by rw [ht']; rfl⟩, lt_of_lt_of_le hlt hk⟩)

/-- As long as the scheduled jobs are promoted again and again, a job that waits for a time does not
wait forever, even when executors that still run set a later time for it. -/
theorem scheduled_jobs_leave (hj : (b.state n).waiting j) (hclock : ∀ t, ∃ k, t ≤ (b.state k).now)
    (hpromotion : Recurs fun m => b.label m = .reQueueScheduledJobs) :
    ∃ m, n ≤ m ∧ (b.state m).hasLeft j := by
  refine Behaviour.ends_of_rank (P := fun s => s.waiting j) (Q := fun s => s.hasLeft j)
    (Sys.executors · j) (fun n _ hw => ?_) le_rfl hj
  obtain ⟨r, hr, hs, ht⟩ := hw
  obtain ⟨due, hdue⟩ := Option.isSome_iff_exists.mp ht
  have hends (s : Sys) (l : Label) (s' : Sys) (_ : Reachable (scheduler cron) ok s)
      (hw : s.waitingFor j due ∧ s.executors j ≤ (b.state n).executors j) (hnow : due ≤ s.now)
      (hl : l = .reQueueScheduledJobs) (hn : s.next cron l = some s') :
      s'.hasLeft j ∨ s'.waiting j ∧ s'.executors j < (b.state n).executors j := by
    subst hl
    exact .inl (reQueue_waiting hw.1 hnow hn)
  -- every promotion after the time has come puts it into its queue
  exact Behaviour.ends_of_recurs ⟨⟨r, hr, hs, hdue⟩, le_rfl⟩ (fun _ _ _ _ hw hn => waiting_next hw hn)
    (now_eventually hclock due) hpromotion hends

end Runs

/-! A run that never ends: it ticks, recovers and promotes in turn. -/

namespace Sample

def forever (first : List Label) (n : ℕ) : Label :=
  first[n]?.getD (if n % 3 = 0 then .tick n else if n % 3 = 1 then .recoverStaleJobs 60 else .reQueueScheduledJobs)

theorem forever_eq {first : List Label} {n : ℕ} (hn : first.length ≤ n) : forever first n =
    if n % 3 = 0 then .tick n else if n % 3 = 1 then .recoverStaleJobs 60 else .reQueueScheduledJobs := by
  rw [forever, List.getElem?_eq_none hn]
  rfl

def foreverStates (first : List Label) : ℕ → Sys := Behaviour.states (scheduler cron) sys (forever first)

theorem forever_next {first : List Label} {n : ℕ} (hn : first.length ≤ n)
    (hnow : (foreverStates first first.length).now = 0) :
    (foreverStates first n).now ≤ n ∧
      ((foreverStates first n).next cron (forever first n)).isSome = true := by
  have henabled {n : ℕ} (hn : first.length ≤ n) {s : Sys} (hs : s.now ≤ n) :
      ∃ s', s.next cron (forever first n) = some s' ∧ s'.now ≤ n := by
    rw [forever_eq hn]
    split_ifs with h₀ h₁
    · exact ⟨{ s with now := n }, if_pos hs, le_rfl⟩
    · exact ⟨_, rfl, hs⟩
    · exact ⟨_, rfl, hs⟩
  have hle : (foreverStates first n).now ≤ n := by
    induction n, hn using Nat.le_induction with
    | base => rw [hnow]; exact Int.natCast_nonneg _
    | succ n hn ih =>
      obtain ⟨s', hs', hle⟩ := henabled hn ih
      have hstate : foreverStates first (n + 1) = s' := by
        show ((foreverStates first n).next cron (forever first n)).getD _ = s'
        rw [hs']
        rfl
      rw [hstate]
      exact hle.trans (by simp)
  obtain ⟨s', hs', _⟩ := henabled hn hle
  exact ⟨hle, by rw [hs']; rfl⟩

def foreverRun (first : List Label) (hnow : (foreverStates first first.length).now = 0)
    (hfirst : ∀ k, k < first.length →
      ((foreverStates first k).next cron (forever first k)).isSome = true) :
    Behaviour (scheduler cron) fun _ _ => True :=
  .ofLabels sys_initial (forever first) (fun _ => trivial) fun n =>
    if hn : n < first.length then hfirst n hn else (forever_next (Nat.le_of_not_lt hn) hnow).2

variable {first : List Label} {b : Behaviour (scheduler cron) fun _ _ => True} (hb : b.label = forever first)
include hb

theorem forever_recurs {l : Label} {i : ℕ} (hi : i < 3)
    (hl : ∀ n, n % 3 = i → first.length ≤ n → forever first n = l) : Recurs fun m => b.label m = l := by
  intro n
  refine ⟨3 * (n + first.length) + i, by omega, ?_⟩
  rw [hb]
  exact hl _ (by omega) (by omega)

theorem forever_clock (t : Timestamp) : ∃ k, t ≤ (b.state k).now := by
  set n := 3 * (first.length + t.toNat) with hn
  have hnext : (b.state n).next cron (.tick n) = some (b.state (n + 1)) := by
    have h := b.next n
    rwa [hb, forever_eq (by omega), if_pos (by omega)] at h
  have hnow : (b.state (n + 1)).now = n := by
    generalize b.state (n + 1) = s' at hnext ⊢
    cases sys_step hnext
    rfl
  have hle : t.toNat ≤ n := by omega
  refine ⟨n + 1, ?_⟩
  rw [hnow]
  exact (Int.self_le_toNat t).trans (Int.ofNat_le.mpr hle)

def crashing : List Label :=
  [.register 7 "worker" "host", .createJob 1 2 queue (request 3), .claim 7 10 [], .crash 7]

def scheduling : List Label :=
  [.createJob 1 2 queue { request 3 with jobType := .scheduled, scheduledAt := some 100 }]

end Sample

theorem dead_worker_released_sample :
    ∃ (b : Behaviour (scheduler Sample.cron) fun _ _ => True) (m : ℕ), 4 ≤ m ∧
      ((b.state 4).db.jobs.find? 1).any (·.workerId = some 7) = true ∧
      ∀ k, m < k → ∀ j r, (b.state k).db.jobs.find? j = some r → r.workerId ≠ some 7 := by
  let b := Sample.foreverRun Sample.crashing rfl
    (by
      intro k (hk : k < 4)
      interval_cases k <;> rfl)
  obtain ⟨m, hm, _, hnone⟩ := dead_worker_released (b := b) (n := 4) (w := 7)
    (by decide) (Sample.forever_clock rfl)
    (Sample.forever_recurs (l := .recoverStaleJobs 60) (i := 1) rfl (by omega) fun n hn hlen => by
      rw [Sample.forever_eq hlen, if_neg (by omega), if_pos hn])
  exact ⟨b, m, hm, by decide, hnone⟩

theorem scheduled_jobs_leave_sample :
    ∃ (b : Behaviour (scheduler Sample.cron) fun _ _ => True) (m : ℕ), 1 ≤ m ∧
      ((b.state 1).db.jobs.find? 1).any (·.status = .scheduled) = true ∧ (b.state m).hasLeft 1 := by
  let b := Sample.foreverRun Sample.scheduling rfl
    (by
      intro k (hk : k < 1)
      interval_cases k
      rfl)
  obtain ⟨m, hm, hleft⟩ := scheduled_jobs_leave (b := b) (n := 1) (j := 1)
    ⟨_, rfl, by decide, by decide⟩ (Sample.forever_clock rfl)
    (Sample.forever_recurs (i := 2) rfl (by omega) fun n hn hlen => by
      rw [Sample.forever_eq hlen, if_neg (by omega), if_neg (by omega)])
  exact ⟨b, m, hm, by decide, hleft⟩

end JobScheduler
