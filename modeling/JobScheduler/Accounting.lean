import JobScheduler.Exclusive

namespace JobScheduler
open Relational Transition

/-- Each number from `lo` to `hi` stands in the list once, and no other number does. -/
def ListsOnce (l : List ℤ) (lo hi : ℤ) : Prop := ∀ k, l.count k = if lo ≤ k ∧ k ≤ hi then 1 else 0

theorem ListsOnce.nil {lo hi : ℤ} (h : hi < lo) : ListsOnce [] lo hi := by
  intro k
  rw [if_neg (by omega), List.count_nil]

theorem ListsOnce.append {l : List ℤ} {lo hi : ℤ} (h : ListsOnce l lo hi) (hle : lo ≤ hi + 1) :
    ListsOnce (l ++ [hi + 1]) lo (hi + 1) := by
  intro k
  rw [List.count_append, h k, List.count_singleton]
  by_cases hk : hi + 1 = k
  · subst hk
    rw [if_neg (by omega), if_pos (by simp), if_pos (by omega)]
  · simp only [beq_iff_eq, hk, if_false, Nat.add_zero]
    by_cases hin : lo ≤ k ∧ k ≤ hi
    · rw [if_pos hin, if_pos (by omega)]
    · rw [if_neg hin, if_neg (by omega)]

theorem ListsOnce.raise {l : List ℤ} {lo hi hi' : ℤ} (h : ListsOnce l lo hi) (hlt : hi < lo)
    (hlt' : hi' < lo) : ListsOnce l lo hi' := by
  intro k
  rw [h k, if_neg (by omega), if_neg (by omega)]

def Sys.belowMax (s : Sys) (j : Uuid) : Bool :=
  (s.db.jobs.find? j).all fun r => r.attemptCount < Int32.maxValue

theorem Task.attempt_toInt {t : Task} (h : t.job.attemptCount < Int32.maxValue) :
    t.attempt.toInt = t.job.attemptCount.toInt + 1 := by
  have hlt : t.job.attemptCount.toInt < 2 ^ 31 - 1 := Int32.lt_iff_toInt_lt.mp h
  have hge := Int32.le_toInt t.job.attemptCount
  rw [attempt, Int32.toInt_add, Int32.toInt_one]
  apply Int.bmod_eq_of_le <;> omega

/-- The books of a job with row `r`: its executions and dead-letter entries against its
attempt counter. -/
structure Balanced (v : View) (r : Job) : Prop where
  nonneg : 0 ≤ r.attemptCount.toInt
  failed : ListsOnce (v.failed.map Int32.toInt) 1 r.attemptCount.toInt
  succeeded : v.succeeded.map Int32.toInt =
    if r.status = .completed then [r.attemptCount.toInt + 1] else []
  dead : ListsOnce (v.dead.map fun d => d.attemptCount.toInt) (max 1 r.maxAttempts.toInt)
    r.attemptCount.toInt
  entries : r.attemptCount.toInt < max 1 r.maxAttempts.toInt + v.dead.length

structure Accounts (v : View) : Prop where
  absent : v.row = none → v.failed = [] ∧ v.succeeded = [] ∧ v.dead = []
  present : ∀ r, v.row = some r → Balanced v r

section Steps
variable {v w : View} {r r' : Job}

theorem Balanced.restatus (hb : Balanced v r) (hr : r.status ≠ .completed)
    (hr' : r'.status ≠ .completed) (ha : r'.attemptCount = r.attemptCount)
    (hm : r'.maxAttempts = r.maxAttempts) (hf : w.failed = v.failed) (hs : w.succeeded = v.succeeded)
    (hd : w.dead.map (·.attemptCount.toInt) = v.dead.map (·.attemptCount.toInt)) : Balanced w r' where
  nonneg := by rw [ha]; exact hb.nonneg
  failed := by rw [hf, ha]; exact hb.failed
  succeeded := by rw [hs, if_neg hr', hb.succeeded, if_neg hr]
  dead := by rw [hd, hm, ha]; exact hb.dead
  entries := by
    have hlen := congrArg List.length hd
    simp only [List.length_map] at hlen
    rw [ha, hm, hlen]
    exact hb.entries

theorem Balanced.congr (hb : Balanced v r) (hf : w.failed = v.failed) (hs : w.succeeded = v.succeeded)
    (hd : w.dead = v.dead) : Balanced w r :=
  ⟨hb.nonneg, by rw [hf]; exact hb.failed, by rw [hs]; exact hb.succeeded, by rw [hd]; exact hb.dead,
    by rw [hd]; exact hb.entries⟩

theorem Accounts.of_row (hrow : w.row = some r) (hb : Balanced w r) : Accounts w where
  absent hn := by simp [hrow] at hn
  present r' hr' := by
    rw [hrow] at hr'
    cases hr'
    exact hb

theorem Accounts.congr (h : Accounts v) (hr : w.row = v.row) (hf : w.failed = v.failed)
    (hs : w.succeeded = v.succeeded) (hd : w.dead = v.dead) : Accounts w where
  absent hn := by
    rw [hf, hs, hd]
    exact h.absent (hr.symm.trans hn)
  present r hw := (h.present r (hr.symm.trans hw)).congr hf hs hd

theorem Balanced.of_isNew (hnew : r.IsNew) (hf : w.failed = []) (hs : w.succeeded = [])
    (hd : w.dead = []) : Balanced w r := by
  have ha : r.attemptCount.toInt = 0 := by rw [hnew.attemptCount]; rfl
  refine ⟨by omega, ?_, ?_, ?_, ?_⟩
  · rw [hf, ha]
    exact .nil (by omega)
  · rw [hs, if_neg hnew.ne.2]
    rfl
  · rw [hd, ha]
    exact .nil (by omega)
  · rw [hd, ha]
    simp only [List.length_nil]
    omega

section Finishes
variable {t : Task} (hb : Balanced v r) (ho : r.attemptCount = t.job.attemptCount)
  (hmax : r.attemptCount < Int32.maxValue) (hrun : r.status = .running)
include hb ho hmax hrun

theorem Balanced.completed (now : Timestamp) (hf : w.failed = v.failed)
    (hs : w.succeeded = v.succeeded ++ [t.attempt]) (hd : w.dead = v.dead) :
    Balanced w (r.markCompleted now) := by
  have hat := Task.attempt_toInt (ho ▸ hmax)
  refine ⟨hb.nonneg, by rw [hf]; exact hb.failed, ?_, by rw [hd]; exact hb.dead,
    by rw [hd]; exact hb.entries⟩
  have hnone : v.succeeded.map Int32.toInt = [] := by rw [hb.succeeded, if_neg (by simp [hrun])]
  have hdone : (r.markCompleted now).status = .completed := rfl
  rw [hs, List.map_append, hnone, if_pos hdone, List.nil_append, List.map_singleton, hat, ← ho]
  rfl

theorem Balanced.deadLettered (now : Timestamp) {d : DeadLetterEntry}
    (hdlq : r.maxAttempts.toInt ≤ t.attempt.toInt) (hda : d.attemptCount = t.attempt)
    (hf : w.failed = v.failed ++ [t.attempt]) (hs : w.succeeded = v.succeeded)
    (hd : w.dead = v.dead ++ [d]) : Balanced w (r.markFailed t.attempt now) := by
  have hat : t.attempt.toInt = r.attemptCount.toInt + 1 := by rw [Task.attempt_toInt (ho ▸ hmax), ho]
  have hn := hb.nonneg
  have he := hb.entries
  rw [hat] at hdlq
  refine ⟨?_, ?_, ?_, ?_, ?_⟩
  · show 0 ≤ t.attempt.toInt
    omega
  · show ListsOnce _ 1 t.attempt.toInt
    rw [hf, List.map_append, List.map_singleton, hat]
    exact hb.failed.append (by omega)
  · rw [hs, hb.succeeded, if_neg (by simp [hrun]), if_neg (by simp [Job.markFailed])]
  · show ListsOnce _ (max 1 r.maxAttempts.toInt) t.attempt.toInt
    rw [hd, List.map_append, List.map_singleton, hda, hat]
    exact hb.dead.append (by omega)
  · show t.attempt.toInt < max 1 r.maxAttempts.toInt + w.dead.length
    rw [hd, List.length_append, List.length_singleton, hat]
    push_cast
    omega

theorem Balanced.rescheduled (now nextAt : Timestamp) (hdlq : t.attempt.toInt < r.maxAttempts.toInt)
    (hf : w.failed = v.failed ++ [t.attempt]) (hs : w.succeeded = v.succeeded)
    (hd : w.dead = v.dead) : Balanced w (r.scheduleRetry nextAt t.attempt now) := by
  have hat : t.attempt.toInt = r.attemptCount.toInt + 1 := by rw [Task.attempt_toInt (ho ▸ hmax), ho]
  have hn := hb.nonneg
  rw [hat] at hdlq
  refine ⟨?_, ?_, ?_, ?_, ?_⟩
  · show 0 ≤ t.attempt.toInt
    omega
  · show ListsOnce _ 1 t.attempt.toInt
    rw [hf, List.map_append, List.map_singleton, hat]
    exact hb.failed.append (by omega)
  · rw [hs, hb.succeeded, if_neg (by simp [hrun]), if_neg (by simp [Job.scheduleRetry])]
  · show ListsOnce _ (max 1 r.maxAttempts.toInt) t.attempt.toInt
    rw [hd, hat]
    exact hb.dead.raise (by omega) (by omega)
  · show t.attempt.toInt < max 1 r.maxAttempts.toInt + w.dead.length
    rw [hat]
    omega

end Finishes

theorem Task.shouldDlq_iff {t : Task} {r : Job} (hc : t.job.SameColumns r) :
    t.shouldDlq = true ↔ r.maxAttempts.toInt ≤ t.attempt.toInt := by
  rw [shouldDlq, decide_eq_true_eq, ge_iff_le, Int32.le_iff_toInt_le, hc.maxAttempts]

theorem Accounts.step {s : Sys} {j : Uuid} {l : Label} (ha : Accounts (s.view j))
    (hi : Exclusive (s.view j)) (hc : Snapshots (s.view j)) (hok : s.orderlyFor j l = true)
    (hmax : s.belowMax j = true) (h : Effect s j l v) : Accounts v := by
  have hlt {r : Job} (hrow : (s.view j).row = some r) : r.attemptCount < Int32.maxValue := by
    have hfind : s.db.jobs.find? j = some r := hrow
    simpa [Sys.belowMax, hfind] using hmax
  cases h with
  | same _ => exact ha
  | inserted _ hrow _ hnew _ =>
    obtain ⟨hf, hs, hd⟩ := ha.absent hrow
    exact .of_row rfl (.of_isNew hnew hf hs hd)
  | cancelled hrow hcan =>
    exact .of_row rfl ((ha.present _ hrow).restatus (cancellable_ne hcan).2.1 (by simp [Job.cancel])
      rfl rfl rfl rfl rfl)
  | promoted hrow hd =>
    exact .of_row rfl ((ha.present _ hrow).restatus (by simp [dueForPromotion_status hd])
      (by simp [Job.reQueue]) rfl rfl rfl rfl rfl)
  | released hrow hs =>
    exact .of_row rfl ((ha.present _ hrow).restatus (by simp [hs]) (by simp [Job.reQueue])
      rfl rfl rfl rfl rfl)
  | recovered hrow hr =>
    exact .of_row rfl ((ha.present _ hrow).restatus (recoverable_ne hr).1 (by simp [Job.recover])
      rfl rfl rfl rfl rfl)
  | retried hl he hrow =>
    -- a manual retry marks an entry and leaves the counter as it is
    obtain ⟨_, _, hs⟩ := hi.retried hok hl he hrow
    refine .of_row rfl ((ha.present _ hrow).restatus (by simp [hs]) (by simp [Job.manualRetry])
      rfl rfl rfl rfl ?_)
    rw [List.map_map]
    apply List.map_congr_left
    intro d _
    simp only [Function.comp]
    split <;> rfl
  | claimed hrow hcl hw =>
    exact .of_row rfl ((ha.present _ hrow).restatus (by simp [claimable_status hcl])
      (by simp [Job.claim]) rfl rfl rfl rfl rfl)
  | started ht hp | startLost ht hp =>
    obtain ⟨r, hrow, _, hs⟩ := hi.row_spawned ht hp
    exact .of_row (r := r.markRunning s.now) (by rw [hrow]; rfl)
      ((ha.present _ hrow).restatus (by simp [hs]) (by simp [Job.markRunning]) rfl rfl rfl rfl rfl)
  | notApplied ht hp hx => exact ha.congr (by simp) (by simp) (by simp) (by simp)
  | completed ht hp hx hr =>
    obtain ⟨r, hrow, hs, hat, hcol⟩ := hi.finish_finds hc ht hp
    exact .of_row (by rw [hrow]; rfl)
      ((ha.present _ hrow).completed hat (hlt hrow) hs s.now (by simp) rfl (by simp))
  | deadLettered ht hp hx hr hd =>
    obtain ⟨r, hrow, hs, hat, hcol⟩ := hi.finish_finds hc ht hp
    have hdlq := (Task.shouldDlq_iff hcol).mp hd
    exact .of_row (by rw [hrow]; rfl)
      ((ha.present _ hrow).deadLettered hat (hlt hrow) hs s.now hdlq rfl rfl (by simp) rfl)
  | rescheduled ht hp hx hr hd =>
    obtain ⟨r, hrow, hs, hat, hcol⟩ := hi.finish_finds hc ht hp
    have hdlq := not_le.mp (mt (Task.shouldDlq_iff hcol).mpr (by simp [hd]))
    exact .of_row (by rw [hrow]; rfl)
      ((ha.present _ hrow).rescheduled hat (hlt hrow) hs s.now _ hdlq rfl (by simp) (by simp))
  | notStarted _ _ | scheduledNext _ _ | died _ | crashed => exact ha.congr rfl rfl rfl rfl

end Steps

section Runs
variable {cron : Cron} {s : Sys} {j : Uuid}

theorem exclusive_of_accountable
    (h : Reachable (scheduler cron) (fun s l => s.orderly l && s.belowMax j) s) : Exclusive (s.view j) :=
  exclusive_of_reachable
    (fun _ _ hl => Sys.orderlyFor_of_orderly (Bool.and_eq_true_iff.mp hl).1 j) h

theorem accounts_of_reachable
    (h : Reachable (scheduler cron) (fun s l => s.orderly l && s.belowMax j) s) : Accounts (s.view j) := by
  refine Reachable.invariant (I := fun s => Accounts (s.view j)) ?_ ?_ h
  · intro s (hs : s.Initial)
    rw [hs.view_eq]
    exact ⟨fun _ => ⟨rfl, rfl, rfl⟩, fun r hr => by cases hr⟩
  · intro s l s' hr ha hok hn
    obtain ⟨hord, hmax⟩ := Bool.and_eq_true_iff.mp hok
    exact ha.step (exclusive_of_accountable hr) (snapshots_of_reachable hr j)
      (Sys.orderlyFor_of_orderly hord j) hmax (next_effect j hn)

theorem Exclusive.unretried_le_one (hi : Exclusive (s.view j)) :
    ((s.view j).dead.countP fun d => d.manuallyRetriedAt = none) ≤ 1 := by
  have hone : s.db.deadLetterQueue.count
      (fun d => decide (d.manuallyRetriedAt = none) && decide (d.jobId = j)) ≤ 1 := by
    apply Table.count_le_one
    intro d hd e he hpd hpe
    simp only [Bool.and_eq_true, decide_eq_true_eq] at hpd hpe
    exact hi.deadSingle d (Sys.mem_view_dead.mpr ⟨hd, hpd.2⟩) e (Sys.mem_view_dead.mpr ⟨he, hpe.2⟩)
      hpd.1 hpe.1
  rwa [Sys.view, List.countP_filter]

/-- The books balance while the attempt counter has not reached the end of its type: failed
executions count up to it, the successful one is the next, the dead-letter entries start at
the attempt limit, and each attempt beyond it was paid for by a manual retry. -/
theorem attempt_accounting
    (h : Reachable (scheduler cron) (fun s l => s.orderly l && s.belowMax j) s) (r : Job)
    (hr : s.db.jobs.find? j = some r) :
    ListsOnce ((s.view j).failed.map Int32.toInt) 1 r.attemptCount.toInt ∧
    (s.view j).succeeded.map Int32.toInt =
      (if r.status = .completed then [r.attemptCount.toInt + 1] else []) ∧
    ListsOnce ((s.view j).dead.map fun d => d.attemptCount.toInt) (max 1 r.maxAttempts.toInt)
      r.attemptCount.toInt ∧
    ((s.view j).dead.countP fun d => d.manuallyRetriedAt = none) ≤ 1 ∧
    (∀ d ∈ (s.view j).dead, d.manuallyRetriedAt = none → r.status = .failed) ∧
    r.attemptCount.toInt ≤
      max 1 r.maxAttempts.toInt + ((s.view j).dead.countP fun d => d.manuallyRetriedAt ≠ none) := by
  have hrow : (s.view j).row = some r := hr
  have hb := (accounts_of_reachable h).present r hrow
  have hi := exclusive_of_accountable h
  have hone := hi.unretried_le_one
  refine ⟨hb.failed, hb.succeeded, hb.dead, hone, ?_, ?_⟩
  · intro d hd hn
    obtain ⟨r', hr', hs⟩ := hi.deadFailed d hd hn
    rwa [Option.some.inj (hrow.symm.trans hr')]
  · -- every entry is retried or waiting, and at most one waits
    have hlen := List.length_eq_countP_add_countP
      (fun d : DeadLetterEntry => decide (d.manuallyRetriedAt = none)) (l := (s.view j).dead)
    have hne : (fun d : DeadLetterEntry => decide ¬decide (d.manuallyRetriedAt = none) = true) =
        fun d => decide (d.manuallyRetriedAt ≠ none) := by
      funext d
      simp
    have he := hb.entries
    rw [hne] at hlen
    omega

/-- A job with one attempt, dead-lettered, retried by hand and dead-lettered again. -/
theorem attempt_accounting_sample :
    ∃ s r, Reachable (scheduler Sample.cron) (fun s l => s.orderly l && s.belowMax 100) s ∧
      s.db.jobs.find? 100 = some r ∧ r.attemptCount = 2 ∧
      ListsOnce ((s.view 100).failed.map Int32.toInt) 1 r.attemptCount.toInt ∧
      ((s.view 100).dead.countP fun d => d.manuallyRetriedAt = none) ≤ 1 := by
  obtain ⟨_, s, hrun, hp⟩ := Run.exists_of_exec (M := scheduler Sample.cron) Sample.sys_initial
    [.register 1 "a" "h1", .createJob 100 7 Sample.queue (Sample.request 1), .claim 1 10 [],
      .markRunning 0 0 .acknowledged, .finish 0 (Sample.finish (.error "refused") 1), .retryJob 1 30,
      .claim 1 10 [], .markRunning 1 0 .acknowledged, .finish 1 (Sample.finish (.error "refused") 2)]
    (fun s l => s.orderly l && s.belowMax 100)
    (fun _ s => (s.db.jobs.find? 100).any fun r => r.attemptCount = 2) (by decide)
  simp only [Option.any_eq_true, decide_eq_true_eq] at hp
  obtain ⟨r, hr, ha⟩ := hp
  obtain ⟨hf, _, _, hone, _⟩ := attempt_accounting hrun.reachable r hr
  exact ⟨s, r, hrun.reachable, hr, ha, hf, hone⟩

end Runs

end JobScheduler
