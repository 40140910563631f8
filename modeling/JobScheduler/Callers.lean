import JobScheduler.Authorization
import JobScheduler.Coherence

namespace JobScheduler
open Relational Transition

def Call.caller : Call → Uuid
  | .createLookup _ userId _ | .createFind _ userId _ | .createRole _ userId _ | .createInsert _ userId _
  | .cancelFind _ userId | .cancelRole _ userId | .cancelUpdate _ userId
  | .retryFind _ userId | .retryCheck _ userId | .retryRole _ userId | .retryCommit _ userId
  | .pauseFind _ userId _ | .pauseRole _ userId _ | .pauseUpdate _ userId _ => userId

/-- What a call has made sure of, and what still holds by the time of its write. -/
def Call.Checked (db : Db) : Call → Prop
  | .createInsert queue userId _ => isWriter db queue.projectId userId = true
  | .cancelRole job _ => ∃ j, db.jobs.find? job.id = some j ∧ j.asSubmitted = job.asSubmitted
  | .cancelUpdate job userId =>
    (∃ j, db.jobs.find? job.id = some j ∧ j.asSubmitted = job.asSubmitted) ∧
      isWriter db job.projectId userId = true
  | .pauseRole queue _ _ => ∃ q, db.queues.find? queue.id = some q ∧ q.projectId = queue.projectId
  | .pauseUpdate queue userId _ =>
    (∃ q, db.queues.find? queue.id = some q ∧ q.projectId = queue.projectId) ∧
      isWriter db queue.projectId userId = true
  | _ => True

section Steps
variable {cron : Cron} {io : Io} {call call' : Call} {db db' : Db} {now : Timestamp}

theorem Call.Checked.carry (h : call.Checked db) (hc : db.Carries db') (hm : db'.projectMembers = db.projectMembers) :
    call.Checked db' := by
  have hwriter {projectId userId : Uuid} (hw : isWriter db projectId userId = true) :
      isWriter db' projectId userId = true := by
    unfold isWriter getMemberRole at hw ⊢
    rw [hm]
    exact hw
  have hjob {job : Job} (hj : ∃ j, db.jobs.find? job.id = some j ∧ j.asSubmitted = job.asSubmitted) :
      ∃ j, db'.jobs.find? job.id = some j ∧ j.asSubmitted = job.asSubmitted := by
    obtain ⟨j, hj, hs⟩ := hj
    obtain ⟨j', hj', hs'⟩ := hc.jobs _ j hj
    exact ⟨j', hj', hs'.trans hs⟩
  have hqueue {queue : Queue} (hq : ∃ q, db.queues.find? queue.id = some q ∧ q.projectId = queue.projectId) :
      ∃ q, db'.queues.find? queue.id = some q ∧ q.projectId = queue.projectId := by
    obtain ⟨q, hq, hp⟩ := hq
    obtain ⟨q', hq', hp'⟩ := hc.queues _ q hq
    exact ⟨q', hq', hp'.trans hp⟩
  cases call with
  | createInsert _ _ _ => exact hwriter h
  | cancelRole _ _ => exact hjob h
  | cancelUpdate _ _ => exact ⟨hjob h.1, hwriter h.2⟩
  | pauseRole _ _ _ => exact hqueue h
  | pauseUpdate _ _ _ => exact ⟨hqueue h.1, hwriter h.2⟩
  | _ => trivial

theorem Call.Checked.step (hc : call.Checked db) (h : (call.step cron db now io).2 = .inl call') :
    call'.Checked db := by
  cases call with
  | createLookup queueId userId req =>
    simp only [Call.step] at h
    split at h
    · cases h
      trivial
    · have hr := Io.read_inl h
      split at hr <;> cases hr
      trivial
  | createFind queueId userId req =>
    have hr := Io.read_inl h
    split at hr
    · cases hr
    · split at hr <;> cases hr
      trivial
  | createRole queue userId req =>
    have hr := Io.read_inl h
    split at hr
    · cases hr
    · rename_i role hrole
      split at hr <;> cases hr
      exact isWriter_eq hrole ‹_›
  | createInsert queue userId req =>
    simp only [Call.step] at h
    split at h <;> cases h
  | cancelFind jobId userId =>
    have hr := Io.read_inl h
    split at hr
    · cases hr
    · rename_i job hj
      cases hr
      exact ⟨job, by rw [Table.key_of_find? hj]; exact hj, rfl⟩
  | cancelRole job userId =>
    have hr := Io.read_inl h
    split at hr
    · cases hr
    · rename_i role hrole
      split at hr <;> cases hr
      exact ⟨hc, isWriter_eq hrole ‹_›⟩
  | retryFind _ _ | retryRole _ _ =>
    have hr := Io.read_inl h
    split at hr
    · cases hr
    · first
        | (cases hr; trivial)
        | (split at hr <;> cases hr; trivial)
  | retryCheck entry retriedBy =>
    simp only [Call.step] at h
    split at h <;> cases h
    trivial
  | pauseFind queueId userId paused =>
    have hr := Io.read_inl h
    split at hr
    · cases hr
    · rename_i queue hq
      cases hr
      exact ⟨queue, by rw [Table.key_of_find? hq]; exact hq, rfl⟩
  | pauseRole queue userId paused =>
    have hr := Io.read_inl h
    split at hr
    · cases hr
    · rename_i hw
      cases hr
      exact ⟨hc, requireProjectWriter_ok hw⟩
  | cancelUpdate _ _ | retryCommit _ _ | pauseUpdate _ _ _ => cases h

end Steps

section Runs
variable {cron : Cron} {s s' : Api} {l : ApiLabel}

theorem Api.next_carries (hk : ∀ c call, s.calls c = some call → call.Known s.core.db)
    (h : s.next cron l = some s') : s.core.db.Carries s'.core.db := by
  rcases next_core hk h with hsame | ⟨k, _, hn⟩
  · rw [hsame]
    exact ⟨fun _ j hj => ⟨j, hj, rfl⟩, fun _ q hq => ⟨q, hq, rfl⟩, fun _ hw => hw⟩
  · exact JobScheduler.next_carries hn

theorem checked_of_reachable (h : Reachable (api cron) (fun _ _ => True) s) :
    ∀ c call, s.calls c = some call → call.Checked s.core.db := by
  refine Reachable.invariant (I := fun s => ∀ c call, s.calls c = some call → call.Checked s.core.db) ?_ ?_ h
  · intro s (hs : s.Initial) c call hc
    rw [hs.calls c] at hc
    cases hc
  · intro s l s' hr hi _ hn c call hc
    have hk := known_of_reachable hr
    refine Call.Checked.carry ?_ (Api.next_carries hk hn) (Api.next_grows hk hn).projectMembers
    rcases Api.call_before hn hc with hsame | ⟨request, _, rfl⟩ | ⟨before, io, _, hbefore, hstep⟩
    · exact hi c call hsame
    · cases request <;> trivial
    · exact (hi c before hbefore).step hstep

end Runs

/-! ## What the write of a call touches -/

section Writes
variable {cron : Cron} {s : Sys} {io : Io} {projectId userId : Uuid} {db' : Db}

theorem touches_createInsert {queue : Queue} {req : CreateJobRequest} {job : Job}
    (h : createJobInsert cron s.db s.now io.id io.correlationId queue req = .ok (job, db'))
    (hw : isWriter s.db queue.projectId userId = true) (ht : Touches s.db db' projectId) :
    isWriter s.db projectId userId = true := by
  obtain ⟨rfl, _, hi⟩ := createJobInsert_ok h
  obtain ⟨_, jobs, hins, rfl⟩ := insertJob_ok hi
  obtain ⟨j, hc, rfl⟩ := touches_jobs ht
  rw [(Table.changed_insert_iff hins j).mp hc]
  exact hw

theorem touches_cancelUpdate {job j : Job} (hj : s.db.jobs.find? job.id = some j)
    (hs : j.asSubmitted = job.asSubmitted) (hw : isWriter s.db job.projectId userId = true)
    (ht : Touches s.db (cancelJobUpdate s.db s.now job.id) projectId) :
    isWriter s.db projectId userId = true := by
  obtain ⟨_, hp, _⟩ := Job.of_asSubmitted hs
  obtain ⟨r, hc, rfl⟩ := touches_jobs ht
  obtain ⟨_, hr⟩ := Table.changed_update_of_find? hj
    (fun r hr => of_decide_eq_true (Bool.and_eq_true_iff.mp hr).1) (Job.cancel_id s.now) hc
  rw [← hp] at hw
  rcases hr with rfl | rfl <;> exact hw

theorem touches_retryCommit {entry d : DeadLetterEntry} {retriedBy : Uuid}
    (h : retryJobCommit s.db s.now entry retriedBy = .ok db')
    (hd : s.db.deadLetterQueue.find? entry.id = some d) (hc : d.content = entry.content)
    (href : d.Refers s.db) (hw : isWriter s.db entry.projectId userId = true)
    (ht : Touches s.db db' projectId) : isWriter s.db projectId userId = true := by
  obtain ⟨_, hjob, hproject⟩ := content_eq hc
  obtain ⟨⟨job, hj⟩, _, rfl⟩ := retryJobCommit_ok h
  cases ht with
  | queue hch => exact absurd hch (Table.not_changed_self _ _)
  | dependency hch => exact absurd hch (Table.not_changed_self _ _)
  | @deadLetter e hch hp =>
    obtain ⟨_, he⟩ := Table.changed_update_of_find? hd (fun r hr => of_decide_eq_true hr)
      (DeadLetterEntry.markRetried_id s.now retriedBy) hch
    rw [← hproject] at hw
    subst hp
    rcases he with rfl | rfl <;> exact hw
  | @job j hch hp =>
    obtain ⟨_, hr⟩ := Table.changed_update_of_find? hj (fun r hr => of_decide_eq_true hr)
      (Job.manualRetry_id s.now) hch
    obtain ⟨j₀, hj₀, _, hp₀, _⟩ := href.job
    rw [hjob, hj] at hj₀
    cases hj₀
    rw [← hproject, ← hp₀] at hw
    subst hp
    rcases hr with rfl | rfl <;> exact hw

theorem touches_pauseUpdate {queue q : Queue} {paused : Bool} (hq : s.db.queues.find? queue.id = some q)
    (hp : q.projectId = queue.projectId) (hw : isWriter s.db queue.projectId userId = true)
    (ht : Touches s.db (setPaused s.db s.now queue.id paused) projectId) :
    isWriter s.db projectId userId = true := by
  obtain ⟨r, hc, rfl⟩ := touches_queues ht
  obtain ⟨_, hr⟩ := Table.changed_update_of_find? hq (fun r hr => of_decide_eq_true hr) _ hc
  rw [← hp] at hw
  rcases hr with rfl | rfl <;> exact hw

end Writes

/-- However the statements of the calls are interleaved, with each other and with everything else, the
user of a call may write to every project that one of its statements touches. -/
theorem calls_authorized {cron : Cron} {s s' : Api} {c : ℕ} {io : Io} {call : Call} {projectId : Uuid}
    (h : Reachable (api cron) (fun _ _ => True) s) (hcall : s.calls c = some call)
    (hn : s.next cron (.advance c io) = some s') (ht : Touches s.core.db s'.core.db projectId) :
    isWriter s.core.db projectId call.caller = true := by
  have hknown := known_of_reachable h c call hcall
  have hchecked := checked_of_reachable h c call hcall
  rw [Api.next_advance hcall hn, Api.reply_db] at ht
  cases call with
  | createLookup queueId userId req =>
    simp only [Call.step] at ht
    split at ht <;> exact absurd ht not_touches_self
  | createInsert queue userId req =>
    simp only [Call.step] at ht
    split at ht
    · exact absurd ht not_touches_self
    · rcases io.write_cases s.core.db (.database .connection)
          (createJobInsert cron s.core.db s.core.now io.id io.correlationId queue req) with
        ⟨hdb, _⟩ | ⟨job, db', hr, _, hdb, _⟩
      · rw [hdb] at ht
        exact absurd ht not_touches_self
      · rw [hdb] at ht
        exact touches_createInsert hr hchecked ht
  | cancelUpdate job userId =>
    obtain ⟨⟨j, hj, hs⟩, hw⟩ := hchecked
    rcases io.write_cases s.core.db (JobServiceError.database .connection)
        (.ok ((), cancelJobUpdate s.core.db s.core.now job.id)) with ⟨hdb, _⟩ | ⟨_, db', hr, _, hdb, _⟩
    · rw [Call.step, hdb] at ht
      exact absurd ht not_touches_self
    · cases hr
      rw [Call.step, hdb] at ht
      exact touches_cancelUpdate hj hs hw ht
  | retryCommit entry retriedBy =>
    obtain ⟨⟨d, hd, hc⟩, hw⟩ := hknown
    have href := (coherent_of_reachable (queueRead_of_api h)).deadLetterQueue d (Table.mem_of_find? hd)
    rcases io.write_cases s.core.db (DlqServiceError.database .connection)
        ((retryJobCommit s.core.db s.core.now entry retriedBy).map fun db' => ((), db')) with
      ⟨hdb, _⟩ | ⟨_, db', hr, _, hdb, _⟩
    · rw [Call.step, hdb] at ht
      exact absurd ht not_touches_self
    · rw [Call.step, hdb] at ht
      cases hcommit : retryJobCommit s.core.db s.core.now entry retriedBy with
      | error e => simp [hcommit, Except.map] at hr
      | ok db₁ =>
        rw [hcommit] at hr
        cases hr
        exact touches_retryCommit hcommit hd hc href hw ht
  | pauseUpdate queue userId paused =>
    obtain ⟨⟨q, hq, hp⟩, hw⟩ := hchecked
    rcases io.write_cases s.core.db (QueueServiceError.database .connection)
        (.ok ((), setPaused s.core.db s.core.now queue.id paused)) with ⟨hdb, _⟩ | ⟨_, db', hr, _, hdb, _⟩
    · rw [Call.step, hdb] at ht
      exact absurd ht not_touches_self
    · cases hr
      rw [Call.step, hdb] at ht
      exact touches_pauseUpdate hq hp hw ht
  | _ => exact absurd ht not_touches_self

/-- An administrator of project 20 pauses its queue. -/
theorem calls_authorized_sample :
    ∃ s s' call, Reachable (api Sample.cron) (fun _ _ => True) s ∧ s.calls 0 = some call ∧
      s.next Sample.cron (.advance 0 (Sample.answered 1)) = some s' ∧ Touches s.core.db s'.core.db 20 ∧
      isWriter s.core.db 20 call.caller = true := by
  have h₀ : Reachable (api Sample.cron) (fun _ _ => True) Sample.api := .start Sample.api_initial
  have h₁ := h₀.step (l := .submit 0 (.setPaused 10 30 true)) trivial rfl
  have h₂ := h₁.step (l := .advance 0 (Sample.answered 1)) trivial rfl
  have h₃ := h₂.step (l := .advance 0 (Sample.answered 1)) trivial rfl
  refine ⟨_, _, _, h₃, rfl, rfl, ?touches,
    @calls_authorized Sample.cron _ _ 0 (Sample.answered 1) _ _ h₃ rfl rfl ?touches⟩
  refine .queue (q := Sample.queue) ⟨.inl rfl, fun he => ?_⟩ rfl
  exact Bool.noConfusion (congrArg Queue.isPaused (Option.some.inj he))

end JobScheduler
