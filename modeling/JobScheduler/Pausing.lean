import JobScheduler.Requests

namespace JobScheduler
open Relational Transition

def Stage.queueId : Stage → Option Uuid
  | .idle => none
  | .read q | .counted q => some q.id

def Call.createsIn : Call → Option Uuid
  | .createRole queue _ _ | .createInsert queue _ _ => some queue.id
  | _ => none

/-- No poller of a live worker and no `create_job` goes by an earlier read of queue `k`. -/
structure Api.Quiet (s : Api) (k : Uuid) : Prop where
  pollers : ∀ w, w ∉ s.core.crashed → (s.polls.stage w).queueId ≠ some k
  calls : ∀ c call, s.calls c = some call → call.createsIn ≠ some k

def Api.setsPaused (s : Api) (k : Uuid) (paused : Bool) (l : ApiLabel) : Bool :=
  match s.coreLabel l with
  | some (.setPaused queueId b) => queueId = k && b = paused
  | _ => false

/-- A queue is paused only while nobody goes by an earlier read of its row. -/
def Api.pausesQuiet (s : Api) (l : ApiLabel) : Prop :=
  ∀ k, s.setsPaused k true l = true → s.Quiet k

/-- The step neither moves a job of queue `k` from `queued` to `claimed`, nor is it a `create_job` that
inserts one. -/
structure Api.Respects (cron : Cron) (k : Uuid) (s : Api) (l : ApiLabel) : Prop where
  unclaimed : ∀ s' j r r', s.next cron l = some s' → s.core.db.jobs.find? j = some r → r.queueId = k →
    r.status = .queued → s'.core.db.jobs.find? j = some r' → r'.status ≠ .claimed
  uncreated : ∀ s' c io j r', l = .advance c io → s.next cron l = some s' → s.core.db.jobs.find? j = none →
    s'.core.db.jobs.find? j = some r' → r'.queueId ≠ k

/-- Queue `k` is paused, and nobody goes by a row of it that says otherwise. -/
structure Api.Paused (s : Api) (k : Uuid) : Prop where
  paused : ∃ q, s.core.db.queues.find? k = some q ∧ q.isPaused = true
  quiet : s.Quiet k

section Steps
variable {cron : Cron} {k : Uuid}

theorem Api.setsPaused_iff {s : Api} {paused : Bool} {l : ApiLabel} :
    s.setsPaused k paused l = true ↔ s.coreLabel l = some (.setPaused k paused) := by
  unfold setsPaused
  split
  · rename_i queueId b hl
    simp [hl]
  · rename_i hne
    exact ⟨fun h => absurd h (by simp), fun h => absurd h (hne k paused)⟩

theorem PollSys.setStage_stage (s : PollSys) (w' : Uuid) (st : Stage) (w : Uuid) :
    (s.setStage w' st).stage w = s.stage w ∨ (s.setStage w' st).stage w = st ∧ w = w' := by
  by_cases h : w = w'
  · subst h
    exact .inr ⟨by simp [setStage], rfl⟩
  · exact .inl (by simp [setStage, Function.update_of_ne h])

/-- Where a poller stands after a step: where it stood, at the beginning, past a read of a queue that
is not paused, or past its count. -/
theorem PollSys.stage_before {s s' : PollSys} {pl : PollLabel} (h : s.next cron pl = some s') (w : Uuid) :
    s'.stage w = s.stage w ∨ s'.stage w = .idle ∨
      (∃ q, s'.stage w = .read q ∧ s.core.db.queues.find? q.id = some q ∧ q.isPaused = false) ∨
      ∃ q, s'.stage w = .counted q ∧ s.stage w = .read q := by
  -- a step that sends a poller back to the beginning
  have hidle (w' : Uuid) : ((s.setStage w' .idle).stage w = s.stage w) ∨ (s.setStage w' .idle).stage w = .idle :=
    (s.setStage_stage w' .idle w).imp id And.left
  cases pl with
  | core l =>
    obtain ⟨_, c, _, rfl⟩ := next_of_core h
    exact .inl rfl
  | findById w' queueId =>
    simp only [next] at h
    split at h
    · cases h
    · split at h <;> cases h
      unfold findById
      split
      · rename_i q hq
        split
        · exact (hidle w').imp id .inl
        · rename_i hp
          refine (s.setStage_stage w' (.read q) w).imp id fun hst => .inr (.inl ⟨q, hst.1, ?_, by simpa using hp⟩)
          rw [Table.key_of_find? hq]
          exact hq
      · exact (hidle w').imp id .inl
  | countRunningJobs w' =>
    simp only [next] at h
    split at h
    · cases h
    · split at h
      · rename_i q hq
        cases h
        unfold PollSys.countRunningJobs
        split
        · exact (hidle w').imp id .inl
        · refine (s.setStage_stage w' (.counted q) w).imp id fun hst => .inr (.inr ⟨q, hst.1, ?_⟩)
          rw [hst.2]
          exact hq
      · cases h
  | claimNextJob w' locked =>
    simp only [next] at h
    split at h
    · obtain ⟨c, _, rfl⟩ := Option.map_eq_some_iff.mp h
      exact (hidle w').imp id .inl
    · cases h
  | giveUp w' =>
    cases h
    exact (hidle w').imp id .inl

theorem paused_next {s s' : Sys} {l : Label} (hq : ∃ q, s.db.queues.find? k = some q ∧ q.isPaused = true)
    (hn : s.next cron l = some s') (hl : l ≠ .setPaused k false) :
    ∃ q, s'.db.queues.find? k = some q ∧ q.isPaused = true := by
  obtain ⟨q, hq, hp⟩ := hq
  cases (next_tables hn).queues with
  | same h => exact ⟨q, by rw [h]; exact hq, hp⟩
  | created h => exact ⟨q, Table.find?_of_insert h hq, hp⟩
  | @paused queueId paused _ h =>
    rw [h]
    refine ⟨if decide (q.id = queueId) then { q with isPaused := paused, updatedAt := s.now } else q,
      by rw [setPaused, Table.find?_update, hq]; rfl, ?_⟩
    split
    · rename_i hid
      have hid : q.id = queueId := by simpa using hid
      have hk : q.id = k := Table.key_of_find? hq
      cases paused with
      | true => rfl
      | false => exact absurd (by rw [← hid, hk]) hl
    · exact hp

theorem Api.crashed_next {s s' : Api} {l : ApiLabel} (hk : ∀ c call, s.calls c = some call → call.Known s.core.db)
    (hn : s.next cron l = some s') {w : Uuid} (hw : w ∉ s'.core.crashed) : w ∉ s.core.crashed := by
  rcases next_core hk hn with hsame | ⟨k, _, hc⟩
  · rwa [hsame] at hw
  · intro hmem
    rw [(next_frame hc).crashed] at hw
    exact hw (List.mem_append_right _ hmem)

theorem Call.createsIn_before {call before : Call} {db : Db} {now : Timestamp} {io : Io}
    (h : (before.step cron db now io).2 = .inl call) (hk : call.createsIn = some k) :
    before.createsIn = some k ∨ ∃ q, db.queues.find? k = some q ∧ q.isPaused = false := by
  cases before with
  | createFind queueId userId req =>
    have hr := Io.read_inl h
    split at hr
    · cases hr
    · rename_i queue hq
      split at hr
      · cases hr
      · rename_i ha
        cases hr
        cases hk
        refine .inr ⟨queue, ?_, by simpa [Queue.isAcceptingJobs] using ha⟩
        rw [Table.key_of_find? hq]
        exact hq
  | createRole queue userId req =>
    have hr := Io.read_inl h
    split at hr
    · cases hr
    · split at hr <;> cases hr
      exact .inl hk
  | createInsert queue userId req =>
    simp only [Call.step] at h
    split at h <;> cases h
  | createLookup queueId userId req =>
    simp only [Call.step] at h
    split at h
    · cases h
      cases hk
    · have hr := Io.read_inl h
      split at hr <;> cases hr
      cases hk
  | cancelFind _ _ | retryFind _ _ | pauseFind _ _ _ | pauseRole _ _ _ =>
    have hr := Io.read_inl h
    split at hr <;> cases hr
    cases hk
  | cancelRole _ _ | retryRole _ _ =>
    have hr := Io.read_inl h
    split at hr
    · cases hr
    · split at hr <;> cases hr
      cases hk
  | retryCheck entry retriedBy =>
    simp only [Call.step] at h
    split at h <;> cases h
    cases hk
  | cancelUpdate _ _ | retryCommit _ _ | pauseUpdate _ _ _ => cases h

theorem Request.start_createsIn (request : Request) : request.start.createsIn = none := by
  cases request <;> rfl

/-- Who reads the row of a paused queue turns away from it. -/
theorem Api.Quiet.next {s s' : Api} {l : ApiLabel} (hk : ∀ c call, s.calls c = some call → call.Known s.core.db)
    (h : s.Paused k) (hn : s.next cron l = some s') : s'.Quiet k := by
  obtain ⟨q, hq, hp⟩ := h.paused
  have hread {q' : Queue} (hq' : s.core.db.queues.find? k = some q') : ¬q'.isPaused = false := by
    obtain rfl : q = q' := Option.some.inj (hq.symm.trans hq')
    simp [hp]
  constructor
  · intro w hw
    have hbefore := h.quiet.pollers w (crashed_next hk hn hw)
    cases l with
    | poll pl =>
      obtain ⟨p, hp', rfl⟩ := next_poll hn
      rcases PollSys.stage_before hp' w with hst | hst | ⟨q', hst, hq', hnot⟩ | ⟨q', hst, hst'⟩
      · rw [hst]
        exact hbefore
      · simp [hst, Stage.queueId]
      · rw [hst]
        intro hid
        simp only [Stage.queueId, Option.some.injEq] at hid
        rw [hid] at hq'
        exact hread hq' hnot
      · rw [hst]
        rw [hst'] at hbefore
        exact hbefore
    | submit c request =>
      simp only [Api.next] at hn
      split at hn <;> cases hn
      exact hbefore
    | advance c io =>
      obtain ⟨call, _, rfl⟩ := Option.map_eq_some_iff.mp hn
      exact hbefore
    | abandon c =>
      cases hn
      exact hbefore
  · intro c call hc hid
    rcases call_before hn hc with hsame | ⟨request, _, rfl⟩ | ⟨before, io, _, hbefore, hstep⟩
    · exact h.quiet.calls c call hsame hid
    · rw [request.start_createsIn] at hid
      cases hid
    · rcases Call.createsIn_before hstep hid with hb | ⟨q', hq', hnot⟩
      · exact h.quiet.calls c before hbefore hb
      · exact hread hq' hnot

theorem Api.Paused.next {s s' : Api} {l : ApiLabel} (hk : ∀ c call, s.calls c = some call → call.Known s.core.db)
    (h : s.Paused k) (hn : s.next cron l = some s') (hl : s.coreLabel l ≠ some (.setPaused k false)) :
    s'.Paused k := by
  refine ⟨?_, Quiet.next hk h hn⟩
  rcases next_core hk hn with hsame | ⟨k', hk', hc⟩
  · rw [hsame]
    exact h.paused
  · refine paused_next h.paused hc ?_
    rintro rfl
    exact hl hk'

theorem Api.Paused.of_pause {s s' : Api} {l : ApiLabel} (hk : ∀ c call, s.calls c = some call → call.Known s.core.db)
    (hq : s.Quiet k) (hl : s.coreLabel l = some (.setPaused k true)) (hn : s.next cron l = some s') :
    s'.Paused k := by
  obtain ⟨c, io, call, rfl, hcall, ho, hw⟩ := coreLabel_byRequest hl rfl
  unfold Call.write at hw
  rw [if_neg ho] at hw
  cases call with
  | pauseUpdate queue userId paused =>
    cases hw
    obtain ⟨q, hfind⟩ := hk c _ hcall
    have hs' := next_advance hcall hn
    have hdb : s'.core.db = setPaused s.core.db s.core.now queue.id true := by
      rw [hs']
      exact Io.write_done ho _ _
    refine ⟨⟨{ q with isPaused := true, updatedAt := s.core.now }, ?_, rfl⟩, ?_, ?_⟩
    · rw [hdb, setPaused, Table.find?_update_key, if_pos rfl, hfind]
      rfl
    · rw [hs']
      exact hq.pollers
    · intro c' call' hc'
      rcases call_before hn hc' with hsame | ⟨request, hl', _⟩ | ⟨before, io', hl', hbefore, hstep⟩
      · exact hq.calls c' call' hsame
      · cases hl'
      · cases hl'
        rw [hcall] at hbefore
        cases hbefore
        cases hstep
  | _ => cases hw

theorem Api.stage_of_claim {s s' : Api} {l : ApiLabel} {w queueId : Uuid} {locked : List Uuid}
    (hn : s.next cron l = some s') (hl : s.coreLabel l = some (.claim w queueId locked)) :
    ∃ q, s.polls.stage w = .counted q ∧ q.id = queueId := by
  cases l with
  | poll pl =>
    cases pl with
    | core k =>
      simp only [coreLabel] at hl
      split at hl
      · cases hl
      · cases hl
        obtain ⟨p, hp, _⟩ := next_poll hn
        cases hp
    | claimNextJob w' locked' =>
      simp only [coreLabel] at hl
      split at hl
      · rename_i q hq
        cases hl
        exact ⟨q, hq, rfl⟩
      · cases hl
    | _ => cases hl
  | advance c io =>
    obtain ⟨call, _, hw⟩ := Option.bind_eq_some_iff.mp hl
    unfold Call.write at hw
    split at hw
    · cases hw
    · cases call <;> cases hw
  | _ => cases hl

theorem Api.Paused.respects {s : Api} (hk : ∀ c call, s.calls c = some call → call.Known s.core.db)
    (h : s.Paused k) (l : ApiLabel) : s.Respects cron k l where
  unclaimed s' j r r' hn hr hq hs hr' hs' := by
    rcases next_core hk hn with hsame | ⟨k', hl, hc⟩
    · rw [hsame] at hr'
      obtain rfl : r = r' := Option.some.inj (hr.symm.trans hr')
      rw [hs] at hs'
      cases hs'
    · obtain ⟨w, locked, rfl, hw, -⟩ := (next_effect j hc).claim_of_claimed hr (by simp [hs]) hr' hs'
      obtain ⟨q, hstage, hid⟩ := stage_of_claim hn hl
      exact h.quiet.pollers w hw (by rw [hstage, Stage.queueId, hid, hq])
  uncreated s' c io j r' hl hn hr hr' hq := by
    subst hl
    rcases next_core hk hn with hsame | ⟨k', hl, hc⟩
    · rw [hsame, hr] at hr'
      cases hr'
    · rcases (next_tables hc).jobs.origin_of_inserted hr hr' with
        ⟨id, correlationId, queue, req, rfl, _, he⟩ | ⟨row, _, task, utcNow, nextAt, id, correlationId, rfl, _⟩
      · obtain ⟨c', io', call, hl', hcall, ho, hw⟩ := coreLabel_byRequest hl rfl
        unfold Call.write at hw
        rw [if_neg ho] at hw
        cases call with
        | createInsert queue' userId req' =>
          cases hw
          rw [he] at hq
          exact h.quiet.calls c' _ hcall (congrArg some hq)
        | _ => cases hw
      · obtain ⟨call, _, hw⟩ := Option.bind_eq_some_iff.mp hl
        unfold Call.write at hw
        split at hw
        · cases hw
        · cases call <;> cases hw

end Steps

section Runs
variable {cron : Cron} {s s₀ : Api} {l₀ : ApiLabel} {k : Uuid} {later earlier : List (Api × ApiLabel)}

/-- From a pause to the next resume no job of the queue is claimed and none is created in it, as long
as queues are paused while nobody goes by an earlier read of their row. -/
theorem pausing_takes_effect (h : Run (api cron) Api.pausesQuiet (later ++ (s₀, l₀) :: earlier) s)
    (hp : s₀.setsPaused k true l₀ = true) (hres : ∀ q ∈ later, ¬q.1.setsPaused k false q.2 = true) :
    ∀ q ∈ later, q.1.Respects cron k q.2 := by
  obtain ⟨hrun, hok, _, _⟩ := h.split
  have hpaused := Run.since (I := fun s => s.Paused k)
    (fun s₁ hn => Api.Paused.of_pause (known_of_reachable hrun.reachable) (hok k hp) (Api.setsPaused_iff.mp hp) hn)
    (fun s l s' hr hi _ hl hn => hi.next (known_of_reachable hr) hn fun he => hl (Api.setsPaused_iff.mpr he)) h hres
  intro q hq
  obtain ⟨l₁, l₂, hsplit⟩ := List.append_of_mem hq
  rw [hsplit, List.append_assoc, List.cons_append] at h
  exact (hpaused.2 q hq).respects (known_of_reachable h.split.1.reachable) q.2

end Runs

theorem Api.pausesQuiet_of_none {s : Api} {l : ApiLabel} (h : s.coreLabel l = none) : s.pausesQuiet l := by
  intro k hp
  rw [setsPaused_iff, h] at hp
  cases hp

namespace Sample

def underWay (call : Call) : Api := ⟨pollSys, Function.update (fun _ => none) 1 (some call)⟩

theorem underWay_read {hist : List (Api × ApiLabel)} {call call' : Call} (n : Uuid)
    (hr : Run (JobScheduler.api cron) Api.pausesQuiet hist (underWay call))
    (h : call.step cron sys.db sys.now (answered n) = (sys.db, .inl call')) (hw : call.write (answered n) = none) :
    Run (JobScheduler.api cron) Api.pausesQuiet ((underWay call, .advance 1 (answered n)) :: hist) (underWay call') := by
  have hnext : (underWay call).next cron (.advance 1 (answered n)) = some (underWay call') := by
    show some ((underWay call).reply 1 (call.step cron sys.db sys.now (answered n))) = some (underWay call')
    rw [h]
    simp only [Api.reply, underWay, Function.update_idem]
    rfl
  exact hr.step (Api.pausesQuiet_of_none (by simpa [Api.coreLabel, underWay] using hw)) hnext

theorem underWay_quiet {call : Call} (k : Uuid) (h : call.createsIn = none) : (underWay call).Quiet k := by
  constructor
  · intro w _
    simp [underWay, pollSys, Stage.queueId]
  · intro c call' hc
    by_cases hone : c = 1
    · subst hone
      cases hc
      simp [h]
    · simp [underWay, Function.update_of_ne hone] at hc

def pauses : List ApiLabel :=
  [.submit 1 (.setPaused 10 30 true), .advance 1 (answered 1), .advance 1 (answered 2), .advance 1 (answered 3)]

def claimedPaused : List (Api × ApiLabel) → Bool
  | q₂ :: q₁ :: q₀ :: _ => q₀.1.setsPaused 10 true q₀.2 && !q₁.1.setsPaused 10 false q₁.2 &&
      !q₂.1.setsPaused 10 false q₂.2 &&
      ((q₂.1.core.db.jobs.find? 100).any fun r => r.queueId = 10 && r.status = .queued) &&
      ((q₂.1.next cron q₂.2).any fun s' =>
        (s'.core.db.jobs.find? 100).any fun r => r.status = .claimed)
  | _ => false

end Sample

/-- A poller and a `create_job` come by while the queue is paused. -/
theorem pausing_takes_effect_sample :
    ∃ later s₀ l₀ earlier s, Run (api Sample.cron) Api.pausesQuiet (later ++ (s₀, l₀) :: earlier) s ∧
      s₀.setsPaused 10 true l₀ = true ∧ later.length = 4 ∧ ∀ q ∈ later, q.1.Respects Sample.cron 10 q.2 := by
  have hsubmit : Run (api Sample.cron) Api.pausesQuiet _ (Sample.underWay (.pauseFind 10 30 true)) :=
    Run.step (l := .submit 1 (.setPaused 10 30 true)) (.start Sample.api_initial)
      (Api.pausesQuiet_of_none rfl) rfl
  have hfind : Run (api Sample.cron) Api.pausesQuiet _ (Sample.underWay (.pauseRole Sample.queue 30 true)) :=
    Sample.underWay_read 1 hsubmit rfl rfl
  have hrole : Run (api Sample.cron) Api.pausesQuiet _ (Sample.underWay (.pauseUpdate Sample.queue 30 true)) :=
    Sample.underWay_read 2 hfind rfl rfl
  have hupdate := hrole.step (l := .advance 1 (Sample.answered 3)) (fun k _ => Sample.underWay_quiet k rfl) rfl
  have hpoll := hupdate.step (l := .poll (.findById 1 10)) (Api.pausesQuiet_of_none rfl) rfl
  have hcreate := hpoll.step (l := .submit 2 (.createJob 10 30 (Sample.request 3)))
    (Api.pausesQuiet_of_none rfl) rfl
  have hlookup := hcreate.step (l := .advance 2 (Sample.answered 4)) (Api.pausesQuiet_of_none rfl) rfl
  have hrefused := hlookup.step (l := .advance 2 (Sample.answered 5)) (Api.pausesQuiet_of_none rfl) rfl
  refine ⟨[_, _, _, _], _, _, _, _, hrefused, rfl, rfl, pausing_takes_effect hrefused rfl ?_⟩
  intro q hq
  simp only [List.mem_cons, List.not_mem_nil, or_false] at hq
  rcases hq with rfl | rfl | rfl | rfl <;> decide

/-- The poller has read the queue before it is paused, and claims a job afterwards. -/
theorem pausing_without_effect :
    ¬∀ (cron : Cron) (later : List (Api × ApiLabel)) (s₀ : Api) (l₀ : ApiLabel)
      (earlier : List (Api × ApiLabel)) (s : Api) (k : Uuid),
      Run (api cron) (fun _ _ => True) (later ++ (s₀, l₀) :: earlier) s → s₀.setsPaused k true l₀ = true →
      (∀ q ∈ later, ¬q.1.setsPaused k false q.2 = true) → ∀ q ∈ later, q.1.Respects cron k q.2 := by
  intro hall
  obtain ⟨h, s, hrun, hp⟩ := Run.exists_of_exec (M := api Sample.cron) Sample.api_initial
    (Sample.submitted ++ [.poll (.findById 1 10)] ++ Sample.pauses ++
      [.poll (.countRunningJobs 1), .poll (.claimNextJob 1 [])])
    (fun _ _ => true) (fun h _ => Sample.claimedPaused h) (by decide)
  unfold Sample.claimedPaused at hp
  split at hp
  · rename_i q₂ q₁ q₀ earlier
    simp only [Bool.and_eq_true, Option.any_eq_true, decide_eq_true_eq, Bool.not_eq_true'] at hp
    obtain ⟨⟨⟨⟨hp₀, hp₁⟩, hp₂⟩, r, hr, hq, hs⟩, s', hn, r', hr', hs'⟩ := hp
    have hres := hall _ [q₂, q₁] q₀.1 q₀.2 earlier s 10 (hrun.mono fun _ _ _ => trivial) hp₀
      (by simp [hp₁, hp₂]) q₂ (by simp)
    exact hres.unclaimed s' 100 r r' hn hr hq hs hr' hs'
  · cases hp

end JobScheduler
