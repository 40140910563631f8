import JobScheduler.Exclusive
import JobScheduler.Frame

namespace JobScheduler
open Relational Transition

def Sys.insertsSuccessor (cron : Cron) (s : Sys) (l : Label) (j : Uuid) : Bool :=
  match l with
  | .scheduleNext task utcNow id correlationId ok =>
    (s.tasks.find? task).any fun t => t.job.id = j && ok &&
      (scheduleNextOccurrence cron s.db s.now utcNow id correlationId t.job).isOk
  | _ => false

def successorsOf (cron : Cron) (j : Uuid) (h : List (Sys × Label)) : ℕ :=
  h.countP fun q => q.1.insertsSuccessor cron q.2 j

/-- Once no executor task of a recurring job is left, the job has one successor if it is
completed, and none if it has never been. -/
def ChainIntact (cron : Cron) (h : List (Sys × Label)) (s : Sys) (j : Uuid) : Prop :=
  ∀ r e, s.db.jobs.find? j = some r → r.jobType = .recurring → r.cronExpression = some e →
    cron.parses e = true → (∀ t, (cron.upcoming e t).isSome = true) →
    (∀ t ∈ s.tasks.table.rows, t.job.id ≠ j) →
    (r.status = .completed → successorsOf cron j h = 1) ∧
    (r.status ≠ .completed →
      (∀ q ∈ h, ∀ r', q.1.db.jobs.find? j = some r' → r'.status ≠ .completed) →
      successorsOf cron j h = 0)

/-- For job `j`, the `COMMIT` of a completion is answered without an error exactly when the
transaction takes effect, its task then lives on to insert the successor, and that insert, under
a fresh identifier, does not fail. -/
def Sys.chainSafe (s : Sys) (j : Uuid) : Label → Bool
  | .finish task x => (s.tasks.find? task).all fun t => t.job.id ≠ j || !x.result.isOk ||
      match t.phase with
      | .running startedAt => x.acked == x.applies t startedAt s.now s.db
      | _ => true
  | .scheduleNext task _ id _ ok => (s.tasks.find? task).all fun t => t.job.id ≠ j ||
      (ok && (s.db.jobs.find? id).isNone)
  | .die task => (s.tasks.find? task).all fun t => t.job.id ≠ j || t.inFlight
  | .crash w => s.tasks.table.rows.all fun t => t.workerId ≠ w || t.job.id ≠ j || t.inFlight
  | _ => true

/-- Where the chain of a recurring job stands, with `n` successors inserted: not completed and all
its tasks in flight, or completed with either the successor still to be inserted or inserted. -/
structure Chain (e : String) (n : ℕ) (v : View) : Prop where
  absent : v.row = none → n = 0
  pending : ∀ r, v.row = some r → r.status ≠ .completed → n = 0 ∧ ∀ t ∈ v.tasks, t.inFlight = true
  completed : ∀ r, v.row = some r → r.status = .completed → r.jobType = .recurring →
    r.cronExpression = some e →
    (n = 0 ∧ ∃ t, v.tasks = [t] ∧ t.phase = .committed) ∨ (n = 1 ∧ v.tasks = [])

section Steps
variable {cron : Cron} {s : Sys} {j : Uuid} {e : String} {n : ℕ} {v w : View} {r : Job} {t : Task}

theorem Sys.insertsSuccessor_of_actsOn {l : Label} (h : s.actsOn l j = false) :
    s.insertsSuccessor cron l j = false := by
  unfold insertsSuccessor
  split
  · rename_i task utcNow id correlationId ok
    simp only [actsOn, Label.task, Option.bind_some, Option.any_eq_false] at h
    simp only [Option.any_eq_false]
    intro t ht
    simp [h t ht]
  · rfl

theorem Chain.of_pending (hrow : w.row = some r) (hs : r.status ≠ .completed) (hn : n = 0)
    (ht : ∀ t ∈ w.tasks, t.inFlight = true) : Chain e n w where
  absent h := by simp [hrow] at h
  pending _ _ _ := ⟨hn, ht⟩
  completed r' hr' hc := by
    obtain rfl : r = r' := Option.some.inj (hrow.symm.trans hr')
    exact absurd hc hs

theorem Chain.restatus {u : Job} (hc : Chain e n v) (hrow : v.row = some r) (hs : r.status ≠ .completed)
    (hw : w.row = some u) (hu : u.status ≠ .completed) (ht : ∀ t ∈ w.tasks, t ∈ v.tasks) :
    Chain e n w := by
  obtain ⟨hn, hf⟩ := hc.pending r hrow hs
  exact .of_pending hw hu hn fun t hm => hf t (ht t hm)

theorem Chain.fewer (hc : Chain e n v) (hrow : v.row = some r) (hs : r.status ≠ .completed)
    (hw : w.row = v.row) (ht : ∀ t ∈ w.tasks, t ∈ v.tasks) : Chain e n w :=
  hc.restatus hrow hs (hw.trans hrow) hs ht

/-- The task that runs a job is its only one. -/
theorem Chain.tasks_eq (hc : Chain e n (s.view j)) (hi : Exclusive (s.view j))
    (ht : t ∈ (s.view j).tasks) {startedAt : Timestamp} (hp : t.phase = .running startedAt) :
    (s.view j).tasks = [t] := by
  obtain ⟨r, hrow, _, hs⟩ := hi.row_running ht hp
  have hf := (hc.pending r hrow (by simp [hs])).2
  have hall : ∀ u ∈ (s.view j).tasks, u = t := by
    intro u hu
    exact Sys.eq_of_view_tasks hu ht (hi.single u hu t ht (hf u hu) (hf t ht))
  have hnd : (s.view j).tasks.Nodup := by
    have hids : ((s.view j).tasks.map Task.id).Nodup :=
      s.tasks.table.nodup.sublist (List.filter_sublist.map Task.id)
    exact List.Nodup.of_map _ hids
  exact List.perm_singleton.mp ((List.perm_ext_iff_of_nodup hnd (List.nodup_singleton t)).mpr
    fun u => ⟨fun hu => List.mem_singleton.mpr (hall u hu), fun hu => by
      rw [List.mem_singleton.mp hu]
      exact ht⟩)

theorem View.endFinish_ends {x : Finish} (h : Sys.goesOn x t x.acked = false) :
    ∀ u ∈ (v.endFinish t x).tasks, u ∈ v.tasks := by
  intro u hu
  rw [endFinish, h, if_neg Bool.false_ne_true] at hu
  exact (List.mem_filter.mp hu).1

theorem Sys.chainSafe_finish {x : Finish} {startedAt : Timestamp}
    (h : s.chainSafe j (.finish t.id x) = true) (ht : t ∈ (s.view j).tasks)
    (hp : t.phase = .running startedAt) (hr : x.result.isOk = true) :
    x.acked = x.applies t startedAt s.now s.db := by
  obtain ⟨hm, hj⟩ := mem_view_tasks.mp ht
  have hf : s.tasks.find? t.id = some t := Table.find?_of_mem hm
  simpa [chainSafe, hf, hj, hr, hp] using h

/-- The successor is inserted: the job's row exists, its foreign keys are met and its expression has a next
time. -/
theorem Sys.chainSafe_inserts {utcNow : Timestamp} {id correlationId : Uuid} {ok : Bool}
    (h : s.chainSafe j (.scheduleNext t.id utcNow id correlationId ok) = true)
    (ht : t ∈ (s.view j).tasks) (hrow : (s.view j).row = some r) (hcol : t.job.SameColumns r)
    (hfk : r.asSubmitted.foreignKeys s.db = true) (hrec : r.jobType = .recurring)
    (he : r.cronExpression = some e) (hp : cron.parses e = true)
    (hu : ∀ t, (cron.upcoming e t).isSome = true) :
    s.insertsSuccessor cron (.scheduleNext t.id utcNow id correlationId ok) j = true := by
  obtain ⟨hm, rfl⟩ := mem_view_tasks.mp ht
  have hf : s.tasks.find? t.id = some t := Table.find?_of_mem hm
  simp only [chainSafe, hf, Option.all_some, ne_eq, not_true_eq_false, decide_false, Bool.false_or,
    Bool.and_eq_true, Option.isNone_iff_eq_none] at h
  obtain ⟨nextAt, hnext⟩ := Option.isSome_iff_exists.mp (hu utcNow)
  have he' : t.job.cronExpression = some e := hcol.cronExpression.symm.trans he
  have hrec' : t.job.isRecurring = true := by
    simp [Job.isRecurring, ← hcol.jobType, hrec, he']
  have hins := scheduleNextOccurrence_succeeds s.now correlationId hrec' he' hp hnext hrow hfk h.2
  simp [insertsSuccessor, hf, h.1, hins]

theorem Chain.of_completed {x : Finish} {startedAt : Timestamp} (hc : Chain e n (s.view j))
    (hi : Exclusive (s.view j)) (ht : t ∈ (s.view j).tasks) (hp : t.phase = .running startedAt)
    (hrow : (s.view j).row = some r) (hs : r.status = .running) (hsame : t.job.SameColumns r)
    (hres : x.result.isOk = true) (hacked : x.acked = true)
    (hw : w.row = some (r.markCompleted s.now)) (hts : w.tasks = ((s.view j).endFinish t x).tasks) :
    Chain e n w := by
  have hn := (hc.pending r hrow (by simp [hs])).1
  refine ⟨fun h => by simp [hw] at h, fun r' hr' hs' => ?_, fun r' hr' _ hrec he => .inl ⟨hn, ?_⟩⟩
  · obtain rfl := Option.some.inj (hw.symm.trans hr')
    simp [Job.markCompleted] at hs'
  · obtain rfl := Option.some.inj (hw.symm.trans hr')
    have hjob : t.job.isRecurring = true := by
      have hrec : r.jobType = .recurring := hrec
      have he : r.cronExpression = some e := he
      simp [Job.isRecurring, ← hsame.jobType, ← hsame.cronExpression, hrec, he]
    have hgoes : Sys.goesOn x t x.acked = true := by simp [Sys.goesOn, hacked, hres, hjob]
    refine ⟨{ t with phase := .committed }, ?_, rfl⟩
    rw [hts, View.endFinish, if_pos hgoes, View.setPhase, hc.tasks_eq hi ht hp]
    simp

theorem Chain.of_scheduledNext {utcNow : Timestamp} {id correlationId : Uuid} {ok : Bool}
    (hc : Chain e n (s.view j)) (hcol : Snapshots (s.view j))
    (hfk : ∀ r, (s.view j).row = some r → r.asSubmitted.foreignKeys s.db = true)
    (hp : cron.parses e = true) (hu : ∀ t, (cron.upcoming e t).isSome = true)
    (hsafe : s.chainSafe j (.scheduleNext t.id utcNow id correlationId ok) = true)
    (ht : t ∈ (s.view j).tasks) (hph : t.phase = .committed) :
    Chain e (n + if s.insertsSuccessor cron (.scheduleNext t.id utcNow id correlationId ok) j then 1 else 0)
      ((s.view j).drop fun u => decide (u.id = t.id)) := by
  obtain ⟨r, hrow, hsame⟩ := hcol t ht
  -- a task that is past its finish transaction belongs to a completed job
  have hdone : r.status = .completed := by
    by_contra hne
    have hf := (hc.pending r hrow hne).2 t ht
    simp [Task.inFlight, hph] at hf
  refine ⟨fun h => ?_, fun r' hr' hs' => ?_, fun r' hr' _ hrec he => .inr ?_⟩
  · rw [show (s.view j).row = none from h] at hrow
    cases hrow
  · obtain rfl : r = r' := Option.some.inj (hrow.symm.trans hr')
    exact absurd hdone hs'
  · obtain rfl : r = r' := Option.some.inj (hrow.symm.trans hr')
    rw [Sys.chainSafe_inserts hsafe ht hrow hsame (hfk r hrow) hrec he hp hu]
    rcases hc.completed r hrow hdone hrec he with ⟨hn, t', htasks, _⟩ | ⟨_, hnil⟩
    · rw [htasks] at ht
      obtain rfl := List.mem_singleton.mp ht
      exact ⟨by simp [hn], by simp [View.drop, htasks]⟩
    · simp [hnil] at ht

theorem Chain.of_crashed {w₀ : Uuid} (hc : Chain e n (s.view j)) (hsafe : s.chainSafe j (.crash w₀) = true) :
    Chain e n ((s.view j).drop fun u => decide (u.workerId = w₀)) := by
  refine ⟨hc.absent, fun r hr hs => ?_, fun r hr hs hrec he => ?_⟩
  · obtain ⟨hn, hf⟩ := hc.pending r hr hs
    exact ⟨hn, fun t ht => hf t (List.mem_filter.mp ht).1⟩
  · rcases hc.completed r hr hs hrec he with ⟨hn, t, htasks, hph⟩ | ⟨hn, hnil⟩
    · refine .inl ⟨hn, t, ?_, hph⟩
      have ht : t ∈ (s.view j).tasks := by rw [htasks]; exact List.mem_singleton_self t
      obtain ⟨hm, hj⟩ := Sys.mem_view_tasks.mp ht
      have hne := List.all_eq_true.mp hsafe t hm
      have hne : t.workerId ≠ w₀ := by simpa [Task.inFlight, hph, hj] using hne
      simp [View.drop, htasks, hne]
    · exact .inr ⟨hn, by simp [View.drop, hnil]⟩

theorem Chain.step {l : Label} (hc : Chain e n (s.view j)) (hi : Exclusive (s.view j))
    (hcol : Snapshots (s.view j))
    (hfk : ∀ r, (s.view j).row = some r → r.asSubmitted.foreignKeys s.db = true)
    (hp : cron.parses e = true) (hu : ∀ t, (cron.upcoming e t).isSome = true)
    (hok : s.orderlyFor j l = true) (hsafe : s.chainSafe j l = true) (h : Effect s j l v) :
    Chain e (n + if s.insertsSuccessor cron l j then 1 else 0) v := by
  cases h with
  | same ha =>
    rw [Sys.insertsSuccessor_of_actsOn ha]
    exact hc
  | inserted ha hrow _ hnew _ =>
    rw [Sys.insertsSuccessor_of_actsOn ha]
    refine .of_pending rfl hnew.ne.2 (hc.absent hrow) fun t ht => ?_
    obtain ⟨r, hr, _⟩ := hcol t ht
    simp [hrow] at hr
  | cancelled hrow hcan =>
    exact hc.restatus hrow (cancellable_ne hcan).2.1 rfl (by simp [Job.cancel]) fun _ ht => ht
  | promoted hrow hd =>
    exact hc.restatus hrow (by simp [dueForPromotion_status hd]) rfl (by simp [Job.reQueue]) fun _ ht => ht
  | released hrow hs =>
    exact hc.restatus hrow (by simp [hs]) rfl (by simp [Job.reQueue]) fun _ ht => ht
  | recovered hrow hr =>
    exact hc.restatus hrow (recoverable_ne hr).1 rfl (by simp [Job.recover]) fun _ ht => ht
  | retried hl he hrow =>
    obtain ⟨rfl, _, hs⟩ := hi.retried hok hl he hrow
    exact hc.restatus hrow (by simp [hs]) rfl (by simp [Job.manualRetry]) fun _ ht => ht
  | claimed hrow hcl _ =>
    obtain ⟨hn, hf⟩ := hc.pending _ hrow (by simp [claimable_status hcl])
    refine .of_pending rfl (by simp [Job.claim]) hn fun t ht => ?_
    rcases List.mem_append.mp ht with ht | ht
    · exact hf t ht
    · rw [List.mem_singleton.mp ht]
      rfl
  | started ht hp =>
    obtain ⟨r, hrow, _, hs⟩ := hi.row_spawned ht hp
    obtain ⟨hn, hf⟩ := hc.pending r hrow (by simp [hs])
    refine .of_pending (r := r.markRunning s.now) (by rw [hrow]; rfl) (by simp [Job.markRunning]) hn ?_
    intro u hu
    obtain ⟨u₀, hm, rfl⟩ := List.mem_map.mp hu
    split
    · rfl
    · exact hf u₀ hm
  | notStarted ht hp =>
    obtain ⟨r, hrow, _, hs⟩ := hi.row_spawned ht hp
    exact hc.fewer hrow (by simp [hs]) rfl fun u hu => (List.mem_filter.mp hu).1
  | startLost ht hp =>
    obtain ⟨r, hrow, _, hs⟩ := hi.row_spawned ht hp
    exact hc.restatus (u := r.markRunning s.now) hrow (by simp [hs]) (by rw [hrow]; rfl)
      (by simp [Job.markRunning]) fun u hu => (List.mem_filter.mp hu).1
  | notApplied ht hp hx =>
    -- had the `COMMIT` been answered, the task would go on without a completed job
    obtain ⟨r, hrow, _, hs⟩ := hi.row_running ht hp
    refine hc.fewer hrow (by simp [hs]) (View.endFinish_row _ _ _) (View.endFinish_ends ?_)
    unfold Sys.goesOn
    cases hr : Except.isOk _ with
    | false => simp
    | true => simp [Sys.chainSafe_finish hsafe ht hp hr, hx]
  | completed ht hp hx hr =>
    rename_i t startedAt x
    obtain ⟨r, hrow, hs, _, hsame⟩ := hi.finish_finds hcol ht hp
    have hres : x.result.isOk = true := by rw [hr]; rfl
    have hacked : x.acked = true := by rw [Sys.chainSafe_finish hsafe ht hp hres, hx]
    exact hc.of_completed hi ht hp hrow hs hsame hres hacked (by rw [hrow]; rfl) rfl
  | deadLettered ht hp hx hr hd =>
    rename_i t startedAt x msg
    obtain ⟨r, hrow, _, hs⟩ := hi.row_running ht hp
    exact hc.restatus (u := r.markFailed t.attempt s.now) hrow (by simp [hs]) (by rw [hrow]; rfl)
      (by simp [Job.markFailed])
      (View.endFinish_ends (by simp [Sys.goesOn, hr, Except.isOk, Except.toBool]))
  | rescheduled ht hp hx hr hd =>
    rename_i t startedAt x msg
    obtain ⟨r, hrow, _, hs⟩ := hi.row_running ht hp
    exact hc.restatus (u := r.scheduleRetry x.nextAttemptAt t.attempt s.now) hrow (by simp [hs])
      (by rw [hrow]; rfl) (by simp [Job.scheduleRetry])
      (View.endFinish_ends (by simp [Sys.goesOn, hr, Except.isOk, Except.toBool]))
  | scheduledNext ht hph => exact hc.of_scheduledNext hcol hfk hp hu hsafe ht hph
  | died ht =>
    rename_i t
    obtain ⟨r, hrow, hsame⟩ := hcol t ht
    obtain ⟨hm, hj⟩ := Sys.mem_view_tasks.mp ht
    have hfind : s.tasks.find? t.id = some t := Table.find?_of_mem hm
    have hf : t.inFlight = true := by simpa [Sys.chainSafe, hfind, hj] using hsafe
    have hs : r.status ≠ .completed := by
      intro hdone
      simp [hi.idle hrow (by simp [hdone]) t ht] at hf
    exact hc.fewer hrow hs rfl fun u hu => (List.mem_filter.mp hu).1
  | crashed => exact hc.of_crashed hsafe

end Steps

section Runs
variable {cron : Cron} {h : List (Sys × Label)} {s : Sys} {j : Uuid}

theorem chain_of_run (hr : Run (scheduler cron) (fun s l => s.orderlyFor j l && s.chainSafe j l) h s)
    {e : String} (hp : cron.parses e = true) (hu : ∀ t, (cron.upcoming e t).isSome = true) :
    Chain e (successorsOf cron j h) (s.view j) := by
  refine Run.invariant (I := fun h s => Chain e (successorsOf cron j h) (s.view j)) ?_ ?_ hr
  · intro s (hs : s.Initial)
    rw [hs.view_eq]
    exact ⟨fun _ => rfl, fun r hr => (by cases hr), fun r hr => (by cases hr)⟩
  · intro h s l s' hrun hc hok hn
    obtain ⟨hord, hsafe⟩ := Bool.and_eq_true_iff.mp hok
    have hi : Exclusive (s.view j) :=
      exclusive_of_reachable (fun _ _ hl => (Bool.and_eq_true_iff.mp hl).1) hrun.reachable
    rw [successorsOf, List.countP_cons]
    exact hc.step hi (snapshots_of_reachable hrun.reachable j)
      (fun r hr => foreignKeys_of_reachable hrun.reachable hr) hp hu hord hsafe (next_effect j hn)

/-- The chain of a recurring job neither breaks nor forks, as long as a completion's `COMMIT` tells
the truth and nothing comes between it and the insert of the successor. -/
theorem recurring_chain_intact
    (hr : Run (scheduler cron) (fun s l => s.orderlyFor j l && s.chainSafe j l) h s) :
    ChainIntact cron h s j := by
  intro r e hrow hrec he hp hu hquiet
  have hc := chain_of_run hr hp hu
  constructor
  · intro hs
    rcases hc.completed r hrow hs hrec he with ⟨_, t, htasks, _⟩ | ⟨hn, _⟩
    · have ht : t ∈ (s.view j).tasks := by rw [htasks]; exact List.mem_singleton_self t
      obtain ⟨hm, hj⟩ := Sys.mem_view_tasks.mp ht
      exact absurd hj (hquiet t hm)
    · exact hn
  · intro hs _
    exact (hc.pending r hrow hs).1

/-- A recurring job that fails once, crashes once, completes and inserts its successor. -/
theorem recurring_chain_intact_sample :
    ∃ h s, Run (scheduler Sample.cron) (fun s l => s.orderlyFor 100 l && s.chainSafe 100 l) h s ∧
      ((s.db.jobs.find? 100).any fun r => r.status = .completed) = true ∧
      s.db.jobs.rows.length = 2 ∧ ChainIntact Sample.cron h s 100 := by
  obtain ⟨h, s, hrun, hp⟩ := Run.exists_of_exec (M := scheduler Sample.cron) Sample.sys_initial
    [.register 1 "a" "h1", .register 2 "b" "h2", .createJob 100 7 Sample.queue Sample.recurringRequest,
      .claim 1 10 [], .markRunning 0 0 .acknowledged, .finish 0 (Sample.finish (.error "timeout") 1),
      .tick 20000000, .reQueueScheduledJobs, .claim 1 10 [], .markRunning 1 20000000 .acknowledged,
      .crash 1, .recoverStaleJobs 60, .claim 2 10 [], .markRunning 2 20000000 .acknowledged,
      .finish 2 (Sample.finish (.ok ()) 2), .scheduleNext 2 20000000 101 8 true]
    (fun s l => s.orderlyFor 100 l && s.chainSafe 100 l)
    (fun _ s => ((s.db.jobs.find? 100).any fun r => r.status = .completed) &&
      s.db.jobs.rows.length = 2)
    (by decide)
  simp only [Bool.and_eq_true, decide_eq_true_eq] at hp
  exact ⟨h, s, hrun, hp.1, hp.2, recurring_chain_intact hrun⟩

/-- A worker that crashes between the commit and the insert breaks the chain. -/
theorem recurring_chain_breaks :
    ¬∀ (cron : Cron) (h : List (Sys × Label)) (s : Sys) (j : Uuid),
      Run (scheduler cron) (fun s l => s.orderly l) h s → ChainIntact cron h s j := by
  intro hall
  obtain ⟨h, s, hrun, hp⟩ := Run.exists_of_exec (M := scheduler Sample.cron) Sample.sys_initial
    [.register 1 "a" "h1", .createJob 100 7 Sample.queue Sample.recurringRequest, .claim 1 10 [],
      .markRunning 0 0 .acknowledged, .finish 0 (Sample.finish (.ok ()) 1), .crash 1]
    Sys.orderly
    (fun h s => ((s.db.jobs.find? 100).any fun r => r.status = .completed && r.jobType = .recurring &&
        r.cronExpression = some "0 * * * * *") &&
      s.tasks.table.rows.isEmpty && successorsOf Sample.cron 100 h = 0)
    (by decide)
  simp only [Bool.and_eq_true, Option.any_eq_true, decide_eq_true_eq, List.isEmpty_iff] at hp
  obtain ⟨⟨⟨r, hrow, ⟨hs, hrec⟩, he⟩, htasks⟩, hzero⟩ := hp
  have hone := (hall _ h s 100 hrun r _ hrow hrec he rfl (fun _ => rfl) (by simp [htasks])).1 hs
  omega

end Runs

end JobScheduler
