import JobScheduler.ClaimOrder
import JobScheduler.Progress

namespace JobScheduler
open Relational Transition

structure Job.SamePlace (r r' : Job) : Prop where
  status : r'.status = r.status
  queueId : r'.queueId = r.queueId
  priority : r'.priority = r.priority
  createdAt : r'.createdAt = r.createdAt
  scheduledAt : r'.scheduledAt = r.scheduledAt

def Job.ahead (r x : Job) : Bool :=
  x.status = .queued && x.queueId = r.queueId && claimsBefore x r && x.id ≠ r.id

namespace Sys

def ahead (s : Sys) (r : Job) : ℕ := s.db.jobs.count r.ahead

def isAhead (s : Sys) (r : Job) (j : Uuid) : Prop := ∃ x, s.db.jobs.find? j = some x ∧ r.ahead x = true

def due (s : Sys) (r : Job) : Prop :=
  ∃ r', s.db.jobs.find? r.id = some r' ∧ r.SamePlace r' ∧ claimable s.now r.queueId r' = true

def leftQueue (s : Sys) (j : Uuid) : Prop := ∃ r, s.db.jobs.find? j = some r ∧ r.status ≠ .queued

end Sys

section Steps
variable {cron : Cron} {s s' : Sys} {l : Label} {r r' : Job} {j w : Uuid} {locked : List Uuid}

theorem Job.SamePlace.trans {r'' : Job} (h : r.SamePlace r') (h' : r'.SamePlace r'') : r.SamePlace r'' where
  status := h'.status.trans h.status
  queueId := h'.queueId.trans h.queueId
  priority := h'.priority.trans h.priority
  createdAt := h'.createdAt.trans h.createdAt
  scheduledAt := h'.scheduledAt.trans h.scheduledAt

/-- A queued job stays in its place, or leaves the queue. -/
theorem Effect.of_queued {v : View} (h : Effect s j l v) (hrow : (s.view j).row = some r)
    (hs : r.status = .queued) : ∃ r', v.row = some r' ∧ (r.SamePlace r' ∨ r'.status ≠ .queued) := by
  have hstays : ∃ r', (s.view j).row = some r' ∧ (r.SamePlace r' ∨ r'.status ≠ .queued) :=
    ⟨r, hrow, .inl ⟨rfl, rfl, rfl, rfl, rfl⟩⟩
  -- a branch that rewrites the row
  have hmap (f : Job → Job) (hf : (f r).status ≠ .queued) :
      ∃ r', (s.view j).row.map f = some r' ∧ (r.SamePlace r' ∨ r'.status ≠ .queued) :=
    ⟨f r, by rw [hrow]; rfl, .inr hf⟩
  have hsome (f : Job → Job) {r₀ : Job} (h₀ : (s.view j).row = some r₀)
      (hf : r.SamePlace (f r) ∨ (f r).status ≠ .queued) :
      ∃ r', some (f r₀) = some r' ∧ (r.SamePlace r' ∨ r'.status ≠ .queued) := by
    rw [hrow] at h₀
    cases h₀
    exact ⟨f r, rfl, hf⟩
  cases h with
  | same _ => exact hstays
  | inserted _ hn _ _ _ => simp [hrow] at hn
  | cancelled h₀ _ => exact hsome (Job.cancel s.now) h₀ (.inr (by simp [Job.cancel]))
  | promoted h₀ _ => exact hsome (Job.reQueue s.now) h₀ (.inl ⟨hs.symm, rfl, rfl, rfl, rfl⟩)
  | released h₀ _ => exact hsome (Job.reQueue s.now) h₀ (.inl ⟨hs.symm, rfl, rfl, rfl, rfl⟩)
  | recovered h₀ _ => exact hsome (Job.recover s.now) h₀ (.inl ⟨hs.symm, rfl, rfl, rfl, rfl⟩)
  | retried _ _ h₀ => exact hsome (Job.manualRetry s.now) h₀ (.inl ⟨hs.symm, rfl, rfl, rfl, rfl⟩)
  | claimed h₀ _ _ => exact hsome (Job.claim _ s.now) h₀ (.inr (by simp [Job.claim]))
  | started _ _ | startLost _ _ => exact hmap (Job.markRunning s.now) (by simp [Job.markRunning])
  | completed _ _ _ _ => exact hmap (Job.markCompleted s.now) (by simp [Job.markCompleted])
  | deadLettered _ _ _ _ _ => exact hmap (Job.markFailed _ s.now) (by simp [Job.markFailed])
  | rescheduled _ _ _ _ _ => exact hmap (Job.scheduleRetry _ _ s.now) (by simp [Job.scheduleRetry])
  | notStarted _ _ | scheduledNext _ _ | died _ | crashed => exact hstays
  | notApplied _ _ _ =>
    rw [View.endFinish_row]
    exact hstays

theorem due_next (hd : s.due r) (h : s.next cron l = some s') : s'.due r ∨ s'.leftQueue r.id := by
  obtain ⟨r₀, hj, hplace, hc⟩ := hd
  simp only [claimable, Bool.and_eq_true, decide_eq_true_eq] at hc
  obtain ⟨⟨hs, hq⟩, ht⟩ := hc
  obtain ⟨r', hrow, hsame | hleft⟩ := (next_effect r.id h).of_queued hj hs
  · refine .inl ⟨r', hrow, hplace.trans hsame, claimable_mono (next_tables h).now ?_⟩
    simp [claimable, hsame.status, hs, hsame.queueId, hq, hsame.scheduledAt, ht]
  · exact .inr ⟨r', hrow, hleft⟩

theorem precedes_of_samePlace (h : r.SamePlace r') {x : Job} (hx : x.precedes r') : x.precedes r := by
  unfold Job.precedes at hx ⊢
  rwa [h.priority, h.createdAt] at hx

/-- A claim that the row is not locked for takes the job, or one of those ahead of it. -/
theorem claim_due (hd : s.due r) (hw : (s.db.workers.find? w).isSome = true) (hlocked : r.id ∉ locked)
    (h : s.next cron (.claim w r.queueId locked) = some s') :
    s'.leftQueue r.id ∨ ∃ x, s.db.jobs.find? x.id = some x ∧ r.ahead x = true ∧
      s'.db = s.db.updateJob x.id (Job.claim w s.now) (Job.claim_id w s.now) := by
  obtain ⟨r₀, hj, hplace, hc⟩ := hd
  have hdue : r₀ ∈ dueJobs s.db s.now r.queueId locked :=
    mem_dueJobs.mpr ⟨Table.mem_of_find? hj, hc, by rwa [Table.key_of_find? hj]⟩
  -- the one that it takes
  obtain ⟨x, hx⟩ : ∃ x, nextClaimable s.db s.now r.queueId locked = some x := by
    apply Option.ne_none_iff_exists'.mp
    intro hnone
    rw [nextClaimable_eq_none_iff.mp hnone] at hdue
    cases hdue
  obtain ⟨hmem, hfirst⟩ := nextClaimable_first hx
  obtain ⟨hrow, hcx, -⟩ := mem_dueJobs.mp hmem
  have hdb : s'.db = s.db.updateJob x.id (Job.claim w s.now) (Job.claim_id w s.now) := by
    simp only [Sys.next] at h
    split at h
    · cases h
    · rw [← Option.some.inj h, Sys.claim, claimNextJob_of_registered hw, hx]
      rfl
  have hfind : s'.db.jobs.find? x.id = some (x.claim w s.now) := by
    rw [hdb]
    show (s.db.jobs.update (fun y => decide (y.id = x.id)) (Job.claim w s.now) (Job.claim_id w s.now)).find? x.id = _
    rw [Table.find?_update, Table.find?_of_mem hrow, Option.map_some, if_pos (decide_eq_true rfl)]
  by_cases hid : x.id = r.id
  · rw [hid] at hfind
    exact .inl ⟨_, hfind, by simp [Job.claim]⟩
  · refine .inr ⟨x, Table.find?_of_mem hrow, ?_, hdb⟩
    have hbefore := (claimsBefore_iff x r).mpr (precedes_of_samePlace hplace (hfirst r₀ hdue))
    simp only [claimable, Bool.and_eq_true, decide_eq_true_eq] at hcx
    simp [Job.ahead, hcx.1.1, hcx.1.2, hbefore, hid]

theorem ahead_claimed {x y' : Job} (hdb : s'.db = s.db.updateJob x.id (Job.claim w s.now) (Job.claim_id w s.now))
    (hy' : s'.db.jobs.find? j = some y') (ha : r.ahead y' = true) :
    y'.id ≠ x.id ∧ s.db.jobs.find? j = some y' := by
  rw [hdb] at hy'
  have hy' : (s.db.jobs.update (fun y => decide (y.id = x.id)) (Job.claim w s.now)
      (Job.claim_id w s.now)).find? j = some y' := hy'
  rw [Table.find?_update] at hy'
  obtain ⟨y, hy, rfl⟩ := Option.map_eq_some_iff.mp hy'
  by_cases hid : y.id = x.id
  · rw [if_pos (decide_eq_true hid)] at ha
    simp [Job.ahead, Job.claim] at ha
  · rw [if_neg (by simp [hid])] at ha ⊢
    exact ⟨hid, hy⟩

theorem ahead_lt_of_claimed {x : Job} (hx : s.db.jobs.find? x.id = some x) (ha : r.ahead x = true)
    (hdb : s'.db = s.db.updateJob x.id (Job.claim w s.now) (Job.claim_id w s.now)) :
    s'.ahead r < s.ahead r := by
  have hcount := Table.count_delete_key hx r.ahead
  rw [ha, Bool.toNat_true] at hcount
  have hle : s'.ahead r ≤
      (s.db.jobs.delete fun y => decide (y.id = x.id)).count r.ahead + ([] : List Uuid).length := by
    refine Table.count_le_of_find? [] fun k y hy hp => .inr ⟨y, ?_, hp⟩
    obtain ⟨hid, hy⟩ := ahead_claimed hdb hy hp
    rw [← Table.key_of_find? hy]
    exact Table.find?_of_mem (List.mem_filter.mpr ⟨Table.mem_of_find? hy, by simp [hid]⟩)
  rw [List.length_nil] at hle
  unfold Sys.ahead at hle ⊢
  omega

theorem isAhead_of_claim {q : Uuid} (h : s.next cron (.claim w q locked) = some s')
    (ha : s'.isAhead r j) : s.isAhead r j := by
  cases sys_step h with
  | notClaimed _ => exact ha
  | claimed _ _ _ =>
    obtain ⟨y, hy, hp⟩ := ha
    exact ⟨y, (ahead_claimed rfl hy hp).2, hp⟩

end Steps

section Runs
variable {cron : Cron} {ok : Sys → Label → Prop} {b : Behaviour (scheduler cron) ok} {n m N : ℕ} {r : Job}

theorem ahead_le (hnew : ∀ k, N ≤ k → ∀ j, (b.state (k + 1)).isAhead r j → (b.state k).isAhead r j)
    (hm : N ≤ m) {k : ℕ} (hk : m ≤ k) :
    (b.state k).ahead r ≤ (b.state m).ahead r := by
  induction k, hk using Nat.le_induction with
  | base => exact le_rfl
  | succ k hk ih =>
    refine le_trans ?_ ih
    exact Table.count_le_of_find? [] fun j x hx hp => .inr (hnew k (hm.trans hk) j ⟨x, hx, hp⟩)

/-- As long as workers claim from its queue again and again while its row is not locked, and from some
moment on no job is put before it, a job that is due does not stay in the queue: the claims take those
before it, one by one, and then the job, if it has not been cancelled. -/
theorem queued_jobs_leave (hj : (b.state n).db.jobs.find? r.id = some r)
    (hdue : claimable (b.state n).now r.queueId r = true)
    (hclaims : Recurs fun k => ∃ w locked, b.label k = .claim w r.queueId locked ∧
      ((b.state k).db.workers.find? w).isSome = true ∧ r.id ∉ locked)
    (hnew : ∃ N, ∀ k, N ≤ k → ∀ j, (b.state (k + 1)).isAhead r j → (b.state k).isAhead r j) :
    ∃ m, n ≤ m ∧ (b.state m).leftQueue r.id := by
  obtain ⟨N, hnew⟩ := hnew
  have hstay (s : Sys) (l : Label) (s' : Sys) (_ : Reachable (scheduler cron) ok s) (hd : s.due r)
      (hn : s.next cron l = some s') : s'.due r ∨ s'.leftQueue r.id := due_next hd hn
  have hstart : (b.state n).due r := ⟨r, hj, ⟨rfl, rfl, rfl, rfl, rfl⟩, hdue⟩
  rcases Behaviour.holds_or_ended hstart hstay (le_max_left n N) with hlate | hleft
  · have hdescend (m : ℕ) (hm : max n N ≤ m) (hd : (b.state m).due r) : ∃ k, m ≤ k ∧
        ((b.state k).leftQueue r.id ∨ (b.state k).due r ∧ (b.state k).ahead r < (b.state m).ahead r) := by
      obtain ⟨k, hk, w, locked, hl, hw, hlocked⟩ := hclaims m
      rcases Behaviour.holds_or_ended hd hstay hk with hdk | ⟨i, hi, hleft⟩
      · have hnext : (b.state k).next cron (.claim w r.queueId locked) = some (b.state (k + 1)) := hl ▸ b.next k
        refine ⟨k + 1, hk.trans (Nat.le_succ k), ?_⟩
        rcases claim_due hdk hw hlocked hnext with hleft | ⟨x, hx, hahead, hdb⟩
        · exact .inl hleft
        · refine (due_next hdk hnext).symm.imp id fun hd' => ⟨hd', ?_⟩
          calc (b.state (k + 1)).ahead r
              < (b.state k).ahead r := ahead_lt_of_claimed hx hahead hdb
            _ ≤ (b.state m).ahead r := ahead_le hnew ((le_max_right n N).trans hm) hk
      · exact ⟨i, hi, .inl hleft⟩
    obtain ⟨m, hm, hleft⟩ := Behaviour.ends_of_rank (P := fun s => Sys.due s r) (Q := fun s => Sys.leftQueue s r.id)
      (fun s => Sys.ahead s r) hdescend le_rfl hlate
    exact ⟨m, (le_max_left n N).trans hm, hleft⟩
  · exact hleft

end Runs

namespace Sample

def claiming (n : ℕ) : Label :=
  ([.register 7 "worker" "host", .createJob 1 2 queue (request 3),
    .createJob 2 2 queue (request 3)] : List Label)[n]?.getD (.claim 7 10 [])

theorem claiming_eq {n : ℕ} (hn : 3 ≤ n) : claiming n = .claim 7 10 [] := by
  rw [claiming, List.getElem?_eq_none (by simpa using hn)]
  rfl

def claimingStates : ℕ → Sys := Behaviour.states (scheduler cron) sys claiming

theorem claiming_next {s : Sys} (hs : 7 ∉ s.crashed ∧ (s.db.workers.find? 7).isSome = true) :
    ∃ s', s.next cron (.claim 7 10 []) = some s' ∧ 7 ∉ s'.crashed ∧ (s'.db.workers.find? 7).isSome = true := by
  refine ⟨s.claim 7 10 [], if_neg hs.1, ?_⟩
  rw [Sys.claim, claimNextJob_of_registered hs.2]
  cases nextClaimable s.db s.now 10 [] with
  | none => exact hs
  | some r => exact hs

theorem claiming_registered {n : ℕ} (hn : 3 ≤ n) :
    7 ∉ (claimingStates n).crashed ∧ ((claimingStates n).db.workers.find? 7).isSome = true := by
  induction n, hn using Nat.le_induction with
  | base => decide
  | succ n hn ih =>
    obtain ⟨s', hs', hnext⟩ := claiming_next ih
    have hstate : claimingStates (n + 1) = s' := by
      show ((claimingStates n).next cron (claiming n)).getD _ = s'
      rw [claiming_eq hn, hs']
      rfl
    rw [hstate]
    exact hnext

theorem claiming_enabled (n : ℕ) : ((claimingStates n).next cron (claiming n)).isSome = true := by
  by_cases hn : 3 ≤ n
  · obtain ⟨s', hs', _⟩ := claiming_next (claiming_registered hn)
    rw [claiming_eq hn, hs']
    rfl
  · interval_cases n <;> decide

def claimingRun : Behaviour (scheduler cron) fun _ _ => True :=
  .ofLabels sys_initial claiming (fun _ => trivial) claiming_enabled

end Sample

theorem queued_jobs_leave_sample :
    ∃ (b : Behaviour (scheduler Sample.cron) fun _ _ => True) (m : ℕ), 3 ≤ m ∧
      (b.state 3).db.jobs.rows.map Job.status = [.queued, .queued] ∧ (b.state m).leftQueue 2 := by
  have hlate {k : ℕ} (hk : 3 ≤ k) : Sample.claimingRun.label k = .claim 7 10 [] := Sample.claiming_eq hk
  obtain ⟨r, hr, hid, hdue⟩ : ∃ r, (Sample.claimingRun.state 3).db.jobs.find? 2 = some r ∧ r.id = 2 ∧ r.queueId = 10 ∧
      claimable (Sample.claimingRun.state 3).now 10 r = true := ⟨_, rfl, by decide, by decide, by decide⟩
  obtain ⟨m, hm, hleft⟩ := queued_jobs_leave (b := Sample.claimingRun) (n := 3) (r := r) (by rw [hid]; exact hr)
    (by rw [hdue.1]; exact hdue.2)
    (fun n => ⟨n + 3, by omega, 7, [], by rw [hlate (by omega), hdue.1],
      (Sample.claiming_registered (by omega)).2, by simp⟩)
    ⟨3, fun k hk j ha => by
      have hnext : (Sample.claimingRun.state k).next Sample.cron (.claim 7 10 []) =
        some (Sample.claimingRun.state (k + 1)) := hlate hk ▸ Sample.claimingRun.next k
      exact isAhead_of_claim hnext ha⟩
  exact ⟨Sample.claimingRun, m, hm, by decide, hid ▸ hleft⟩

end JobScheduler
