import JobScheduler.Processes

namespace JobScheduler
open Relational Transition

/-- How often the loop will still come to a queue in this pass, up to its claim. -/
def Cursor.ahead (queueId : Uuid) : Cursor → ℕ
  | .ticker => 0
  | .pass rest => rest.count queueId
  | .read q rest | .counted q rest => (q.id :: rest).count queueId

def Process.claimsFrom (p : Process) (s : Sys) (w queueId : Uuid) : Action → Bool
  | .claimNextJob locked ok =>
    match p.cursor with
    | .counted q _ => q.id = queueId && (ok && s.claims w q.id locked)
    | _ => false
  | _ => false

def Cluster.claimsFrom (w queueId : Uuid) (s : Cluster) : ClusterLabel → Bool
  | .own w' a => w' = w && (s.processes w).any fun p => p.claimsFrom s.core w queueId a
  | _ => false

def claimedFrom (w queueId : Uuid) (hist : List (Cluster × ClusterLabel)) : ℕ :=
  hist.countP fun e => e.1.claimsFrom w queueId e.2

def ClusterLabel.registers (w : Uuid) : ClusterLabel → Bool
  | .own w' (.register _ _) => w' = w
  | _ => false

/-- What a process has done in `ticks` ticks since `start`, with `claims` claims from the queue. -/
structure Process.Paced (p : Process) (queueId : Uuid) (start now : Timestamp) (ticks claims : ℕ) : Prop where
  registered : p.registered = true
  pollTick : p.pollTick = start + ticks * pollPeriod
  due : p.pollTick ≤ now + pollPeriod
  claims : claims + p.cursor.ahead queueId ≤ ticks * p.queueIds.count queueId

section Steps
variable {cron : Cron} {w w' queueId : Uuid} {start : Timestamp} {ticks claims : ℕ} {core c : Sys}
  {p p' : Process} {a : Action}

theorem Process.Paced.later {now now' : Timestamp} (h : p.Paced queueId start now ticks claims) (hle : now ≤ now') :
    p.Paced queueId start now' ticks claims :=
  { h with due := h.due.trans (by linarith) }

/-- A tick starts a pass over all the queues; every other step leaves the pass as it is or shortens it,
and a claim takes one occurrence of its queue. -/
theorem Process.Paced.step (hi : p.Paced queueId start core.now ticks claims) (h : p.Step cron w core a p' c) :
    ∃ ticks', p'.Paced queueId start c.now ticks' (claims + (p.claimsFrom core w queueId a).toNat) := by
  have hclaims := hi.claims
  -- a step that claims nothing and keeps the ticker
  have hkeep {x : Process} {n : ℕ} (hr : x.registered = true) (hp : x.pollTick = p.pollTick)
      (hq : x.queueIds = p.queueIds) (hc : x.cursor.ahead queueId + n ≤ p.cursor.ahead queueId) :
      x.Paced queueId start core.now ticks (claims + n) :=
    ⟨hr, hp.trans hi.pollTick, by rw [hp]; exact hi.due, by rw [hq]; omega⟩
  cases h with
  | register hr _ =>
    rw [hi.registered] at hr
    cases hr
  | @tick hc _ ht =>
    rw [hc] at hclaims
    refine ⟨ticks + 1, hi.registered, ?_, ?_, ?_⟩
    · show p.pollTick + pollPeriod = _
      rw [hi.pollTick]
      push_cast
      ring
    · show p.pollTick + pollPeriod ≤ _
      linarith
    · show claims + 0 + p.queueIds.count queueId ≤ (ticks + 1) * p.queueIds.count queueId
      rw [add_one_mul]
      exact Nat.add_le_add_right ((Nat.le_add_right _ _).trans hclaims) _
  | @found k rest q hc hq _ =>
    have hid : q.id = k := Table.key_of_find? hq
    refine ⟨ticks, hkeep hi.registered rfl rfl ?_⟩
    rw [hc]
    show (q.id :: rest).count queueId + 0 ≤ (k :: rest).count queueId
    rw [hid]
    exact le_rfl
  | @passed k rest ok hc _ =>
    refine ⟨ticks, hkeep hi.registered rfl rfl ?_⟩
    rw [hc]
    exact List.count_le_count_cons
  | endPass hc => exact ⟨ticks, hkeep hi.registered rfl rfl (Nat.zero_le _)⟩
  | below hc _ =>
    refine ⟨ticks, hkeep hi.registered rfl rfl ?_⟩
    rw [hc]
    exact le_rfl
  | notBelow hc _ =>
    refine ⟨ticks, hkeep hi.registered rfl rfl ?_⟩
    rw [hc]
    exact List.count_le_count_cons
  | @claimed q rest locked _ hc hj hn =>
    have hone : p.claimsFrom core w queueId (.claimNextJob locked true) = decide (q.id = queueId) := by
      simp [claimsFrom, hc, hj]
    refine ⟨ticks, Paced.later ?_ (next_tables hn).now⟩
    rw [hone]
    refine hkeep hi.registered rfl rfl ?_
    rw [hc]
    show rest.count queueId + _ ≤ (q.id :: rest).count queueId
    rw [List.count_cons]
    by_cases hq : q.id = queueId <;> simp [hq]
  | @notClaimed q rest locked ok hc hj =>
    have hzero : p.claimsFrom core w queueId (.claimNextJob locked ok) = false := by
      simp only [claimsFrom, hc, hj, Bool.and_false]
    rw [hzero]
    refine ⟨ticks, hkeep hi.registered rfl rfl ?_⟩
    rw [hc]
    exact List.count_le_count_cons
  | upsertHeartbeat _ =>
    refine ⟨ticks, Paced.later ?_ (Sys.beat_now _ _ _ _).ge⟩
    exact hkeep hi.registered rfl rfl le_rfl
  | readCounter _ _ | fetchSub _ => exact ⟨ticks, hkeep hi.registered rfl rfl le_rfl⟩

end Steps

section Runs
variable {cron : Cron} {ok : Cluster → ClusterLabel → Prop} {hist : List (Cluster × ClusterLabel)} {s s' : Cluster}
  {l : ClusterLabel} {w queueId : Uuid} {p : Process}

/-- How far worker `w` has come: not started, not registered, or polling since its registration. -/
inductive Pacing (w queueId : Uuid) (hist : List (Cluster × ClusterLabel)) (s : Cluster) : Prop
  | absent (hp : s.processes w = none) (hc : claimedFrom w queueId hist = 0)
  | waiting {p : Process} (hp : s.processes w = some p) (hr : p.registered = false)
      (hc : claimedFrom w queueId hist = 0)
  | polling {p : Process} {e : Cluster × ClusterLabel} (ticks : ℕ) (hp : s.processes w = some p) (he : e ∈ hist)
      (hreg : e.2.registers w = true)
      (hpace : p.Paced queueId e.1.core.now s.core.now ticks (claimedFrom w queueId hist))

theorem claimedFrom_cons (w queueId : Uuid) (hist : List (Cluster × ClusterLabel)) (s : Cluster) (l : ClusterLabel) :
    claimedFrom w queueId ((s, l) :: hist) = claimedFrom w queueId hist + (s.claimsFrom w queueId l).toNat := by
  rw [claimedFrom, List.countP_cons]
  cases s.claimsFrom w queueId l <;> rfl

theorem Pacing.other (hi : Pacing w queueId hist s) (hp : s'.processes w = s.processes w)
    (hnow : s.core.now ≤ s'.core.now) (hl : s.claimsFrom w queueId l = false) :
    Pacing w queueId ((s, l) :: hist) s' := by
  have hclaims : claimedFrom w queueId ((s, l) :: hist) = claimedFrom w queueId hist := by
    rw [claimedFrom_cons, hl]
    rfl
  cases hi with
  | absent hp₀ hc => exact .absent (hp.trans hp₀) (hclaims.trans hc)
  | waiting hp₀ hr hc => exact .waiting (hp.trans hp₀) hr (hclaims.trans hc)
  | @polling p e ticks hp₀ he hreg hpace =>
    refine .polling ticks (hp.trans hp₀) (List.mem_cons_of_mem _ he) hreg ?_
    rw [hclaims]
    exact hpace.later hnow

theorem Pacing.core {l : Label} {c : Sys} (hi : Pacing w queueId hist s) (hn : s.core.next cron l = some c) :
    Pacing w queueId ((s, .core l) :: hist) { s.owe (l.returning s.core c) with core := c } := by
  have hclaims : claimedFrom w queueId ((s, .core l) :: hist) = claimedFrom w queueId hist :=
    claimedFrom_cons _ _ _ _ _
  have hproc : ({ s.owe (l.returning s.core c) with core := c } : Cluster).processes w = (s.processes w).map _ := rfl
  cases hi with
  | absent hp hc =>
    rw [hp] at hproc
    exact .absent hproc (hclaims.trans hc)
  | waiting hp hr hc =>
    rw [hp] at hproc
    refine .waiting hproc ?_ (hclaims.trans hc)
    split <;> exact hr
  | @polling p e ticks hp he hreg hpace =>
    rw [hp] at hproc
    refine .polling ticks hproc (List.mem_cons_of_mem _ he) hreg ?_
    rw [hclaims]
    have hlater := hpace.later (next_tables hn).now
    split
    · exact ⟨hlater.registered, hlater.pollTick, hlater.due, hlater.claims⟩
    · exact hlater

theorem Pacing.own {a : Action} {p p' : Process} {c : Sys} (hr : Reachable (cluster cron) ok s)
    (hi : Pacing w queueId hist s) (hp : s.processes w = some p) (hstep : p.Step cron w s.core a p' c) :
    Pacing w queueId ((s, .own w a) :: hist) { s.setProcess w p' with core := c } := by
  have hproc : ({ s.setProcess w p' with core := c } : Cluster).processes w = some p' :=
    (Cluster.setProcess_processes _ _ _ _).trans (if_pos rfl)
  have hclaims : claimedFrom w queueId ((s, .own w a) :: hist) =
      claimedFrom w queueId hist + (p.claimsFrom s.core w queueId a).toNat := by
    rw [claimedFrom_cons]
    simp [Cluster.claimsFrom, hp]
  cases hi with
  | absent hp₀ _ =>
    rw [hp] at hp₀
    cases hp₀
  | @waiting p₀ hp₀ hreg hc =>
    rw [hp] at hp₀
    cases hp₀
    have hcursor := (sound_of_reachable hr hp).cursor hreg
    -- it stands at its ticker, which only the registration sets going
    have hnone : claimedFrom w queueId ((s, .own w a) :: hist) = 0 := by
      rw [hclaims, hc]
      cases a with
      | claimNextJob locked ok => simp [Process.claimsFrom, hcursor]
      | _ => rfl
    cases hstep with
    | register _ hn =>
      refine .polling 0 hproc List.mem_cons_self (decide_eq_true rfl) ?_
      rw [hnone]
      refine ⟨rfl, by simp, ?_, by simp [hcursor, Cursor.ahead]⟩
      have hnow := (next_tables hn).now
      have hpos : (0 : ℤ) ≤ pollPeriod := by decide
      show s.core.now ≤ c.now + pollPeriod
      linarith
    | tick _ htick _ =>
      rw [hreg] at htick
      cases htick
    | found hcur _ _ | passed hcur _ | endPass hcur | below hcur _ | notBelow hcur _ | claimed hcur _ _
    | notClaimed hcur _ =>
      rw [hcursor] at hcur
      cases hcur
    | readCounter _ _ | upsertHeartbeat _ | fetchSub _ => exact .waiting hproc hreg hnone
  | polling _ hp₀ he hreg hpace =>
    rw [hp] at hp₀
    cases hp₀
    obtain ⟨ticks', hpace'⟩ := hpace.step hstep
    refine .polling ticks' hproc (List.mem_cons_of_mem _ he) hreg ?_
    rw [hclaims]
    exact hpace'

theorem Pacing.step (hr : Reachable (cluster cron) ok s) (hi : Pacing w queueId hist s)
    (h : s.next cron l = some s') : Pacing w queueId ((s, l) :: hist) s' := by
  cases Cluster.step h with
  | core _ hn => exact hi.core hn
  | @start w' queueIds hw =>
    by_cases hww : w = w'
    · subst hww
      have hproc : (s.setProcess w (.new queueIds s.core.now)).processes w = some (.new queueIds s.core.now) :=
        (Cluster.setProcess_processes _ _ _ _).trans (if_pos rfl)
      have hclaims : claimedFrom w queueId ((s, .start w queueIds) :: hist) = claimedFrom w queueId hist :=
        claimedFrom_cons _ _ _ _ _
      cases hi with
      | absent _ hc => exact .waiting hproc rfl (hclaims.trans hc)
      | waiting hp _ _ | polling _ hp _ _ _ =>
        rw [hw.process] at hp
        cases hp
    · exact hi.other ((Cluster.setProcess_processes _ _ _ _).trans (if_neg hww)) le_rfl rfl
  | @own w' a p₀ p' c hw' hp₀ hstep =>
    by_cases hww : w = w'
    · subst hww
      exact hi.own hr hp₀ hstep
    · refine hi.other ((Cluster.setProcess_processes _ _ _ _).trans (if_neg hww)) hstep.now ?_
      simp [Cluster.claimsFrom, Ne.symm hww]

theorem pacing_of_run (h : Run (cluster cron) ok hist s) (w queueId : Uuid) : Pacing w queueId hist s := by
  refine Run.invariant (I := fun hist s => Pacing w queueId hist s) ?_ ?_ h
  · intro s (hs : s.Initial)
    exact .absent (hs.processes w) rfl
  · intro hist s l s' hrun hi _ hn
    exact hi.step hrun.reachable hn

/-- The ticks that fit between the start and the last one, each half a second after the one before. -/
theorem Process.Paced.ticks_le {start now : Timestamp} {ticks claims : ℕ}
    (h : p.Paced queueId start now ticks claims) : (ticks : ℤ) ≤ (now - start) / pollPeriod + 1 := by
  have hpos : (0 : ℤ) < pollPeriod := by decide
  have hle : ((ticks : ℤ) - 1) * pollPeriod ≤ now - start := by
    have hdue := h.due
    rw [h.pollTick] at hdue
    linarith
  have hdiv := Int.le_ediv_of_mul_le hpos hle
  linarith

/-- However long the statements take and however many ticks are missed, a worker has claimed from a
queue at most one job for each half second since it registered, the first at once, and for each time
that the queue is listed in its configuration; a queue that is not listed it leaves alone. -/
theorem claim_rate (h : Run (cluster cron) ok hist s) (hp : s.processes w = some p) (queueId : Uuid) :
    claimedFrom w queueId hist = 0 ∨ ∃ e ∈ hist, e.2.registers w = true ∧
      (claimedFrom w queueId hist : ℤ) ≤
        ((s.core.now - e.1.core.now) / pollPeriod + 1) * p.queueIds.count queueId := by
  cases pacing_of_run h w queueId with
  | absent hnone _ =>
    rw [hp] at hnone
    cases hnone
  | waiting _ _ hc => exact .inl hc
  | @polling p₀ e ticks hp₀ he hreg hpace =>
    rw [hp] at hp₀
    cases hp₀
    refine .inr ⟨e, he, hreg, ?_⟩
    calc (claimedFrom w queueId hist : ℤ)
        ≤ ((ticks * p.queueIds.count queueId : ℕ) : ℤ) :=
          Int.ofNat_le.mpr ((Nat.le_add_right _ _).trans hpace.claims)
      _ = ticks * p.queueIds.count queueId := Int.natCast_mul _ _
      _ ≤ ((s.core.now - e.1.core.now) / pollPeriod + 1) * p.queueIds.count queueId :=
          mul_le_mul_of_nonneg_right hpace.ticks_le (Int.natCast_nonneg _)

end Runs

theorem claim_rate_sample :
    ∃ hist s, Run (cluster Sample.cron) (fun _ _ => True) hist s ∧ claimedFrom 1 10 hist = 1 ∧
      (claimedFrom 1 10 hist = 0 ∨ ∃ e ∈ hist, e.2.registers 1 = true ∧
        (claimedFrom 1 10 hist : ℤ) ≤ ((s.core.now - e.1.core.now) / pollPeriod + 1) * [10].count (10 : Uuid)) := by
  obtain ⟨hist, s, hrun, hp⟩ := Run.exists_of_exec (M := cluster Sample.cron) Sample.cluster_initial Sample.polling
    (fun _ _ => true) (fun hist s => claimedFrom 1 10 hist = 1 &&
      (s.processes 1).any fun p => p.queueIds = [10]) rfl
  simp only [Bool.and_eq_true, decide_eq_true_eq, Option.any_eq_true] at hp
  obtain ⟨hclaimed, p, hproc, hqueues⟩ := hp
  have hrun : Run (cluster Sample.cron) (fun _ _ => True) hist s := hrun.mono fun _ _ _ => trivial
  refine ⟨hist, s, hrun, hclaimed, ?_⟩
  rw [← hqueues]
  exact claim_rate hrun hproc 10

end JobScheduler
