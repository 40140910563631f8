import JobScheduler.Requests

namespace JobScheduler
open Relational Transition

/-- The step is an executor's `UPDATE` that marks job `j` running, or its transaction that marks
it completed. -/
def Sys.marks (s : Sys) (j : Uuid) : Label → Bool
  | .markRunning task _ outcome =>
    outcome ≠ .lostBefore && (s.tasks.find? task).any fun t => t.job.id = j && t.phase = .spawned
  | .finish task x => (s.tasks.find? task).any fun t => t.job.id = j &&
      match t.phase with
      | .running startedAt => x.result.isOk && x.applies t startedAt s.now s.db
      | _ => false
  | _ => false

def Api.marks (s : Api) (j : Uuid) (l : ApiLabel) : Bool := (s.coreLabel l).any (s.core.marks j)

def Call.cancels (j : Uuid) : Call → Bool
  | .cancelFind jobId _ => jobId = j
  | .cancelRole job _ | .cancelUpdate job _ => job.id = j
  | _ => false

def Api.cancelled (cron : Cron) (s : Api) (j : Uuid) : ApiLabel → Bool
  | .advance c io => (s.calls c).any fun call => call.cancels j &&
      match s.response cron (.advance c io) with
      | some (.cancelled (.ok _)) => true
      | _ => false
  | _ => false

/-- The job is failed, and no executor task of it is in flight. -/
structure View.Stopped (v : View) : Prop where
  failed : ∃ r, v.row = some r ∧ r.status = .failed
  idle : ∀ t ∈ v.tasks, t.inFlight = false

/-- The `UPDATE` of a `cancel_job` finds its job waiting, or failed already, and none of its executor
tasks in flight. -/
def Api.cancelsIdle (s : Api) : ApiLabel → Bool
  | .advance c _ =>
    match s.calls c with
    | some (.cancelUpdate job _) =>
      ((s.core.db.jobs.find? job.id).all fun r => cancellable r || r.status = .failed) &&
        s.core.tasks.table.rows.all fun t => t.job.id ≠ job.id || !t.inFlight
    | _ => true
  | _ => true

/-- What an answer `Ok` of `cancel_job`, given in step `l₀`, promises: the job is failed right after
it, and none of the later steps is one of an executor that marks it, unless it was retried. -/
structure CancelEffective (cron : Cron) (j : Uuid) (s₀ : Api) (l₀ : ApiLabel) (later : List (Api × ApiLabel)) :
    Prop where
  failed : ∃ s₁ r, s₀.next cron l₀ = some s₁ ∧ s₁.core.db.jobs.find? j = some r ∧ r.status = .failed
  unmarked : (∀ q ∈ later, ¬∃ entry, q.1.requeued q.2 = some entry ∧ entry.jobId = j) →
    ∀ q ∈ later, q.1.marks j q.2 = false

section Steps
variable {cron : Cron} {s s' : Sys} {j : Uuid} {l : Label} {v : View}

theorem Sys.inFlight_of_marks (h : s.marks j l = true) : ∃ t ∈ (s.view j).tasks, t.inFlight = true := by
  cases l with
  | markRunning task startedAt outcome =>
    simp only [marks, Bool.and_eq_true, Option.any_eq_true, decide_eq_true_eq] at h
    obtain ⟨_, t, ht, hj, hp⟩ := h
    exact ⟨t, mem_view_tasks.mpr ⟨(Tasks.find?_some ht).1, hj⟩, Task.inFlight_spawned hp⟩
  | finish task x =>
    simp only [marks, Bool.and_eq_true, Option.any_eq_true, decide_eq_true_eq] at h
    obtain ⟨t, ht, hj, hp⟩ := h
    split at hp
    · rename_i startedAt hphase
      exact ⟨t, mem_view_tasks.mpr ⟨(Tasks.find?_some ht).1, hj⟩, Task.inFlight_running hphase⟩
    · cases hp
  | _ => cases h

theorem View.Stopped.unmarked (h : (s.view j).Stopped) : s.marks j l = false := by
  apply Bool.eq_false_iff.mpr
  intro hm
  obtain ⟨t, ht, hf⟩ := Sys.inFlight_of_marks hm
  rw [h.idle t ht] at hf
  cases hf

/-- A stopped job stays as it is until a retry of it is committed. -/
theorem View.Stopped.step (h : (s.view j).Stopped) (he : Effect s j l v)
    (hr : ∀ entry ∈ (s.view j).dead, ∀ retriedBy,
      l ≠ .retryJobCommit entry.id retriedBy ∧ l ≠ .retryJob entry.id retriedBy) : v.Stopped := by
  obtain ⟨r, hrow, hs⟩ := h.failed
  -- no `UPDATE` that looks at the status selects the row
  have hother {r' : Job} {st : JobStatus} (h₀ : (s.view j).row = some r') (hst : r'.status = st)
      (hne : st ≠ .failed) : v.Stopped := by
    obtain rfl : r = r' := Option.some.inj (hrow.symm.trans h₀)
    exact absurd (hst.symm.trans hs) hne
  -- and none of its tasks has a write before it
  have hbusy {t : Task} (ht : t ∈ (s.view j).tasks) (hf : t.inFlight = true) : v.Stopped := by
    rw [h.idle t ht] at hf
    cases hf
  have hdrop (p : Task → Bool) : ((s.view j).drop p).Stopped :=
    ⟨⟨r, hrow, hs⟩, fun t ht => h.idle t (List.mem_filter.mp ht).1⟩
  cases he with
  | same _ => exact h
  | inserted _ hn _ _ _ => simp [hrow] at hn
  | cancelled h₀ hc =>
    rcases cancellable_status hc with hst | hst | hst <;> exact hother h₀ hst (by simp)
  | promoted h₀ hd => exact hother h₀ (dueForPromotion_status hd) (by simp)
  | released h₀ hp => exact hother h₀ hp (by simp)
  | recovered h₀ hrec => rcases recoverable_status hrec with hst | hst <;> exact hother h₀ hst (by simp)
  | retried hl hd _ =>
    rcases hl with rfl | ⟨rfl, _⟩
    · exact absurd rfl (hr _ hd _).1
    · exact absurd rfl (hr _ hd _).2
  | claimed h₀ hc _ => exact hother h₀ (claimable_status hc) (by simp)
  | started ht hp | startLost ht hp => exact hbusy ht (Task.inFlight_spawned hp)
  | completed ht hp _ _ | deadLettered ht hp _ _ _ | rescheduled ht hp _ _ _ | notApplied ht hp _ =>
    exact hbusy ht (Task.inFlight_running hp)
  | notStarted _ _ | scheduledNext _ _ | died _ | crashed => exact hdrop _

/-- The `UPDATE` of `cancel_job` stops a job that waits, or has failed already. -/
theorem View.Stopped.of_cancel {r : Job} (hrow : (s.view j).row = some r)
    (hs : cancellable r = true ∨ r.status = .failed) (hidle : ∀ t ∈ (s.view j).tasks, t.inFlight = false) :
    (Sys.view { s with db := cancelJobUpdate s.db s.now j } j).Stopped := by
  have hid : r.id = j := Table.key_of_find? hrow
  rw [cancelJobUpdate, view_updateJobs, hrow, Option.map_some]
  refine ⟨⟨_, rfl, ?_⟩, hidle⟩
  by_cases hc : cancellable r = true
  · simp [hid, hc, Job.cancel]
  · simp [hc, hs.resolve_left hc]

end Steps

section Runs
variable {cron : Cron} {s s' s₀ : Api} {l l₀ : ApiLabel} {j : Uuid} {later earlier : List (Api × ApiLabel)}

theorem Api.cancelled_update (h : s.cancelled cron j l = true) :
    ∃ c io job userId, l = .advance c io ∧ s.calls c = some (.cancelUpdate job userId) ∧ job.id = j ∧
      io.outcome = .acknowledged := by
  cases l with
  | advance c io =>
    obtain ⟨call, hcall, hok⟩ := Option.any_eq_true _ _ |>.mp h
    obtain ⟨hj, hok⟩ := Bool.and_eq_true_iff.mp hok
    split at hok
    · rename_i u hresp
      have hstep := response_eq hcall hresp
      cases call with
      | cancelFind jobId userId =>
        rcases Io.read_inr hstep with hr | hr
        · cases hr
        · split at hr <;> cases hr
      | cancelRole job userId =>
        rcases Io.read_inr hstep with hr | hr
        · cases hr
        · split at hr
          · cases hr
          · split at hr <;> cases hr
      | cancelUpdate job userId =>
        have hwrite := (Response.cancelled.inj (Sum.inr.inj hstep))
        exact ⟨c, io, job, userId, rfl, hcall, by simpa [Call.cancels] using hj, (Io.write_ok hwrite).1⟩
      | _ => cases hj
    · cases hok
  | _ => cases h

theorem Api.stopped_next (hk : ∀ c call, s.calls c = some call → call.Known s.core.db)
    (h : (s.core.view j).Stopped) (hn : s.next cron l = some s')
    (hr : ¬∃ entry, s.requeued l = some entry ∧ entry.jobId = j) : (s'.core.view j).Stopped := by
  rcases Api.next_core hk hn with hsame | ⟨k, hl, hc⟩
  · rw [hsame]
    exact h
  · refine h.step (next_effect j hc) fun d hd retriedBy => ⟨?_, ?_⟩
    · rintro rfl
      obtain ⟨entry, d', hreq, _, hd', hcon⟩ := requeued_of_core hk hl hc
      obtain ⟨hm, hj⟩ := Sys.mem_view_dead.mp hd
      obtain rfl : d = d' := Option.some.inj ((Table.find?_of_mem hm).symm.trans hd')
      exact hr ⟨entry, hreq, (content_eq hcon).2.1.symm.trans hj⟩
    · rintro rfl
      obtain ⟨c, io, call, _, _, ho, hw⟩ := coreLabel_byRequest hl rfl
      unfold Call.write at hw
      rw [if_neg ho] at hw
      cases call <;> cases hw

/-- Cancellation is effective, as long as its `UPDATE` finds the job waiting or failed, with no
executor task in flight. -/
theorem cancellation_effective
    (h : Run (api cron) (fun s l => s.cancelsIdle l) (later ++ (s₀, l₀) :: earlier) s)
    (hc : s₀.cancelled cron j l₀ = true) : CancelEffective cron j s₀ l₀ later := by
  obtain ⟨c, io, job, userId, rfl, hcall, rfl, ho⟩ := Api.cancelled_update hc
  have hnext : s₀.next cron (.advance c io) = some (s₀.reply c (cancelJobUpdate s₀.core.db s₀.core.now job.id,
      .inr (.cancelled (.ok ())))) := by
    simp [Api.next, hcall, Call.step, Io.write, ho]
  obtain ⟨hrun, hok, _, _⟩ := h.split
  have hstart (s₁ : Api) (hn : s₀.next cron (.advance c io) = some s₁) : (s₁.core.view job.id).Stopped := by
    obtain ⟨r, hrow⟩ := known_of_reachable hrun.reachable c _ hcall
    simp only [Api.cancelsIdle, hcall, hrow, Option.all_some, Bool.and_eq_true, Bool.or_eq_true,
      decide_eq_true_eq, List.all_eq_true] at hok
    rw [hnext] at hn
    cases hn
    refine View.Stopped.of_cancel (s := s₀.core) hrow hok.1 fun t ht => ?_
    obtain ⟨hm, hj⟩ := Sys.mem_view_tasks.mp ht
    simpa [hj] using hok.2 t hm
  constructor
  · obtain ⟨r, hr, hs⟩ := (hstart _ hnext).failed
    exact ⟨_, r, hnext, hr, hs⟩
  · intro hnone q hq
    -- the job is stopped in every state from then on
    have hkeep := (Run.since (I := fun s => (s.core.view job.id).Stopped) hstart
      (fun s l s' hr hs _ hl hn => Api.stopped_next (known_of_reachable hr) hs hn hl) h hnone).2 q hq
    cases hl : q.1.coreLabel q.2 with
    | none => simp [Api.marks, hl]
    | some k => simp [Api.marks, hl, hkeep.unmarked]

end Runs

namespace Sample

def cancels : List ApiLabel :=
  [.submit 1 (.cancelJob 100 30), .advance 1 (answered 1), .advance 1 (answered 2), .advance 1 (answered 3)]

def cancelledEarlier : List (Api × ApiLabel) → Bool
  | _ :: _ :: _ :: (s₀, l₀) :: _ => s₀.cancelled cron 100 l₀
  | _ => false

def cancelledInVain : List (Api × ApiLabel) → Bool
  | (s₀, l₀) :: _ => s₀.cancelled cron 100 l₀ && (s₀.next cron l₀).any fun s₁ =>
      (s₁.core.db.jobs.find? 100).any fun r => r.status = .claimed
  | _ => false

end Sample

/-- A queued job is cancelled, and a poller comes by. -/
theorem cancellation_effective_sample :
    ∃ later s₀ l₀ earlier s, Run (api Sample.cron) (fun s l => s.cancelsIdle l) (later ++ (s₀, l₀) :: earlier) s ∧
      s₀.cancelled Sample.cron 100 l₀ = true ∧ later.length = 3 ∧ CancelEffective Sample.cron 100 s₀ l₀ later := by
  obtain ⟨h, s, hrun, hp⟩ := Run.exists_of_exec (M := api Sample.cron) Sample.api_initial
    (Sample.submitted ++ Sample.cancels ++ Sample.claimed) Api.cancelsIdle
    (fun h _ => Sample.cancelledEarlier h) (by decide)
  unfold Sample.cancelledEarlier at hp
  split at hp
  · rename_i a b c s₀ l₀ earlier
    exact ⟨[a, b, c], s₀, l₀, earlier, s, hrun, hp, rfl, cancellation_effective hrun hp⟩
  · cases hp

/-- A job that has been claimed meanwhile stays claimed, and the answer is `Ok` all the same. -/
theorem cancellation_without_effect :
    ¬∀ (cron : Cron) (later : List (Api × ApiLabel)) (s₀ : Api) (l₀ : ApiLabel)
      (earlier : List (Api × ApiLabel)) (s : Api) (j : Uuid),
      Run (api cron) (fun _ _ => True) (later ++ (s₀, l₀) :: earlier) s →
      s₀.cancelled cron j l₀ = true → CancelEffective cron j s₀ l₀ later := by
  intro hall
  obtain ⟨h, s, hrun, hp⟩ := Run.exists_of_exec (M := api Sample.cron) Sample.api_initial
    (Sample.submitted ++ Sample.claimed ++ Sample.cancels) (fun _ _ => true)
    (fun h _ => Sample.cancelledInVain h) (by decide)
  unfold Sample.cancelledInVain at hp
  split at hp
  · rename_i s₀ l₀ earlier
    simp only [Bool.and_eq_true, Option.any_eq_true, decide_eq_true_eq] at hp
    obtain ⟨hc, s₁, hn, r, hr, hs⟩ := hp
    obtain ⟨s₁', r', hn', hr', hs'⟩ :=
      (hall _ [] s₀ l₀ earlier s 100 (hrun.mono fun _ _ _ => trivial) hc).failed
    obtain rfl : s₁ = s₁' := Option.some.inj (hn.symm.trans hn')
    obtain rfl : r = r' := Option.some.inj (hr.symm.trans hr')
    rw [hs] at hs'
    cases hs'
  · cases hp

end JobScheduler
