import JobScheduler.Requests

namespace JobScheduler
open Relational Transition

def Call.retries : Call → Bool
  | .retryFind _ _ | .retryCheck _ _ | .retryRole _ _ | .retryCommit _ _ => true
  | _ => false

/-- Recovery spares the jobs whose executor task is in flight, and the transaction of a `retry_job`
finds its entry still waiting; nor is its commit's acknowledgement lost. -/
def Api.orderly (s : Api) : ApiLabel → Bool
  | .poll (.core l) => s.core.orderly l
  | .advance c io =>
    match s.calls c with
    | some (.retryCommit entry _) =>
      io.outcome = .lostBefore || (io.outcome = .acknowledged &&
        (s.core.db.deadLetterQueue.find? entry.id).all fun d => d.manuallyRetriedAt.isNone)
    | _ => true
  | _ => true

/-- Over a history: each entry puts its job back into the queue at most once, and finds it failed then;
and a statement of a `retry_job` changes no job and no entry, unless it is answered with `Ok`. -/
structure RetriedOnce (cron : Cron) (hist : List (Api × ApiLabel)) : Prop where
  once : ∀ dlqId, (hist.countP fun q => (q.1.requeued q.2).any fun e => decide (e.id = dlqId)) ≤ 1
  failed : ∀ q ∈ hist, ∀ e, q.1.requeued q.2 = some e →
    ∃ r, q.1.core.db.jobs.find? e.jobId = some r ∧ r.status = .failed
  unchanged : ∀ q ∈ hist, ∀ c io call s', q.2 = .advance c io → q.1.calls c = some call → call.retries = true →
    q.1.next cron q.2 = some s' → q.1.response cron q.2 = some (.retried (.ok ())) ∨
      s'.core.db.jobs = q.1.core.db.jobs ∧ s'.core.db.deadLetterQueue = q.1.core.db.deadLetterQueue

section Steps
variable {cron : Cron} {s s' : Api} {l : ApiLabel} {e : DeadLetterEntry}

theorem Api.requeued_inv (h : s.requeued l = some e) :
    ∃ c io retriedBy db', l = .advance c io ∧ s.calls c = some (.retryCommit e retriedBy) ∧
      io.outcome ≠ .lostBefore ∧ retryJobCommit s.core.db s.core.now e retriedBy = .ok db' := by
  cases l with
  | advance c io =>
    simp only [requeued] at h
    split at h
    · rename_i entry retriedBy hcall
      split at h
      · rename_i hok
        cases h
        obtain ⟨ho, hc⟩ := Bool.and_eq_true_iff.mp hok
        cases hdb : retryJobCommit s.core.db s.core.now e retriedBy with
        | error err => simp [hdb, Except.isOk, Except.toBool] at hc
        | ok db' => exact ⟨c, io, retriedBy, db', rfl, hcall, by simpa using ho, hdb⟩
      · cases h
    · cases h
  | _ => cases h

theorem Api.requeued_entry (hk : ∀ c call, s.calls c = some call → call.Known s.core.db)
    (hok : s.orderly l = true) (h : s.requeued l = some e) :
    ∃ d, s.core.db.deadLetterQueue.find? e.id = some d ∧ d.content = e.content ∧ d.manuallyRetriedAt = none := by
  obtain ⟨c, io, retriedBy, db', rfl, hcall, ho, _⟩ := requeued_inv h
  obtain ⟨⟨d, hd, hc⟩, _⟩ := hk c _ hcall
  refine ⟨d, hd, hc, ?_⟩
  simp only [orderly, hcall, ho, decide_false, Bool.false_or, hd, Option.all_some, Bool.and_eq_true] at hok
  simpa using hok.2

theorem Api.requeued_marks (hk : ∀ c call, s.calls c = some call → call.Known s.core.db)
    (h : s.requeued l = some e) (hn : s.next cron l = some s') :
    ∃ d, s'.core.db.deadLetterQueue.find? e.id = some d ∧ d.manuallyRetriedAt.isSome = true := by
  obtain ⟨c, io, retriedBy, db', rfl, hcall, ho, hc⟩ := requeued_inv h
  obtain ⟨⟨d, hd, _⟩, _⟩ := hk c _ hcall
  have hdb : s'.core.db = db' := by
    rw [next_advance hcall hn, Call.step, hc]
    exact Io.write_done ho _ _
  obtain ⟨_, _, rfl⟩ := retryJobCommit_ok hc
  refine ⟨d.markRetried s.core.now retriedBy, ?_, rfl⟩
  rw [hdb, Table.find?_update_key, if_pos rfl, hd]
  rfl

theorem Api.retries_unchanged {c : ℕ} {io : Io} {call : Call} (hok : s.orderly (.advance c io) = true)
    (hcall : s.calls c = some call) (hr : call.retries = true) (hn : s.next cron (.advance c io) = some s') :
    s.response cron (.advance c io) = some (.retried (.ok ())) ∨ s'.core.db = s.core.db := by
  have hdb : s'.core.db = (call.step cron s.core.db s.core.now io).1 := by
    rw [next_advance hcall hn, reply_db]
  rw [hdb]
  cases call with
  | retryCommit entry retriedBy =>
    rcases io.write_cases s.core.db (.database .connection)
      ((retryJobCommit s.core.db s.core.now entry retriedBy).map fun db' => ((), db')) with
      ⟨hsame, _⟩ | ⟨_, db', _, ho, _, hack⟩
    · exact .inr hsame
    · refine .inl ?_
      simp only [orderly, hcall, ho, decide_false, Bool.false_or, Bool.and_eq_true, decide_eq_true_eq] at hok
      simp only [response, hcall, Option.bind_some, Call.step, hack hok.1]
      rfl
  | retryFind _ _ | retryCheck _ _ | retryRole _ _ => exact .inr rfl
  | _ => cases hr

end Steps

section Runs
variable {cron : Cron} {s : Api} {hist : List (Api × ApiLabel)}

/-- An orderly step is one of the scheduler's orderly steps: what a `retry_job` has checked earlier
holds again when it commits, so that it is one step for the scheduler. -/
theorem Api.orderly_core (hk : ∀ c call, s.calls c = some call → call.Known s.core.db) {l : ApiLabel}
    (hok : s.orderly l = true) {k : Label} (hl : s.coreLabel l = some k) {c : Sys}
    (hc : s.core.next cron k = some c) : ∃ k, s.core.orderly k = true ∧ s.core.next cron k = some c := by
  cases l with
  | poll pl =>
    cases pl with
    | core l =>
      simp only [coreLabel] at hl
      split at hl <;> cases hl
      exact ⟨k, hok, hc⟩
    | claimNextJob w locked =>
      simp only [coreLabel] at hl
      split at hl <;> cases hl
      exact ⟨_, rfl, hc⟩
    | _ => cases hl
  | advance n io =>
    obtain ⟨call, hcall, hw⟩ := Option.bind_eq_some_iff.mp hl
    unfold Call.write at hw
    split at hw
    · cases hw
    · rename_i ho
      cases call with
      | createInsert _ _ _ | cancelUpdate _ _ | pauseUpdate _ _ _ =>
        cases hw
        exact ⟨_, rfl, hc⟩
      | retryCommit entry retriedBy =>
        cases hw
        obtain ⟨⟨d, hd, hcon⟩, hwriter⟩ := hk n _ hcall
        simp only [orderly, hcall, ho, decide_false, Bool.false_or, hd, Option.all_some, Bool.and_eq_true] at hok
        refine ⟨.retryJob entry.id retriedBy, rfl, ?_⟩
        rw [← (content_eq hcon).2.2] at hwriter
        rw [Sys.next, retryJob_of_waiting hd (by simpa using hok.2) hwriter]
        simpa only [Sys.next, hd] using hc
      | _ => cases hw
  | _ => cases hl

theorem core_of_orderly (h : Reachable (api cron) (fun s l => s.orderly l) s) :
    Reachable (scheduler cron) (fun s l => s.orderly l) s.core := by
  refine Reachable.project Api.core (fun s (hs : s.Initial) => hs.polls.core) ?_ h
  intro s l s' hr hok hn
  have hk := known_of_reachable hr
  rcases Api.next_core hk hn with hsame | ⟨k, hl, hc⟩
  · exact .inl hsame
  · exact .inr (Api.orderly_core hk hok hl hc)

/-- An entry has not put its job back into the queue yet, or has done so once and is marked. -/
def Requeued (hist : List (Api × ApiLabel)) (s : Api) (dlqId : Uuid) : Prop :=
  (hist.countP fun q => (q.1.requeued q.2).any fun e => decide (e.id = dlqId)) = 0 ∨
    (hist.countP fun q => (q.1.requeued q.2).any fun e => decide (e.id = dlqId)) = 1 ∧
      ∃ d, s.core.db.deadLetterQueue.find? dlqId = some d ∧ d.manuallyRetriedAt.isSome = true

theorem requeued_of_run (h : Run (api cron) (fun s l => s.orderly l) hist s) (dlqId : Uuid) :
    Requeued hist s dlqId := by
  refine Run.invariant (I := fun hist s => Requeued hist s dlqId) (fun s _ => .inl rfl) ?_ h
  intro hist s l s' hrun hi hok hn
  have hk := known_of_reachable hrun.reachable
  -- a mark is never taken back
  have hmarked (hm : ∃ d, s.core.db.deadLetterQueue.find? dlqId = some d ∧ d.manuallyRetriedAt.isSome = true) :
      ∃ d, s'.core.db.deadLetterQueue.find? dlqId = some d ∧ d.manuallyRetriedAt.isSome = true := by
    obtain ⟨d, hd, hs⟩ := hm
    obtain ⟨d', hd', _, hs'⟩ := (Api.next_grows hk hn).dead _ d hd
    exact ⟨d', hd', hs' hs⟩
  unfold Requeued
  rw [List.countP_cons]
  by_cases hr : ∃ e, s.requeued l = some e ∧ e.id = dlqId
  · obtain ⟨e, he, rfl⟩ := hr
    have hzero : (hist.countP fun q => (q.1.requeued q.2).any fun e' => decide (e'.id = e.id)) = 0 := by
      rcases hi with hz | ⟨_, d, hd, hs⟩
      · exact hz
      · obtain ⟨d', hd', _, hnone⟩ := Api.requeued_entry hk hok he
        obtain rfl : d = d' := Option.some.inj (hd.symm.trans hd')
        rw [hnone] at hs
        cases hs
    exact .inr ⟨by simp [hzero, he], Api.requeued_marks hk he hn⟩
  · have hnot : ((s.requeued l).any fun e => decide (e.id = dlqId)) = false := by
      apply Bool.eq_false_iff.mpr
      intro ha
      obtain ⟨e, he, hid⟩ := Option.any_eq_true _ _ |>.mp ha
      exact hr ⟨e, he, by simpa using hid⟩
    simp only [hnot, Bool.false_eq_true, if_false, Nat.add_zero]
    exact hi.imp id fun h => ⟨h.1, hmarked h.2⟩

/-- A dead-letter entry is retried at most once, and its job is failed then, in orderly runs. -/
theorem dlq_entry_retried_once (h : Run (api cron) (fun s l => s.orderly l) hist s) : RetriedOnce cron hist where
  once dlqId := by
    rcases requeued_of_run h dlqId with hz | ⟨ho, _⟩ <;> omega
  failed q hq e he := by
    obtain ⟨later, earlier, rfl⟩ := List.append_of_mem hq
    obtain ⟨hrun, hok, _, _⟩ := h.split
    obtain ⟨d, hd, hc, hn⟩ := Api.requeued_entry (known_of_reachable hrun.reachable) hok he
    have hdead : d ∈ (q.1.core.view e.jobId).dead :=
      Sys.mem_view_dead.mpr ⟨Table.mem_of_find? hd, (content_eq hc).2.1⟩
    exact (exclusive_of_orderly (core_of_orderly hrun.reachable) e.jobId).deadFailed d hdead hn
  unchanged q hq c io call s' hl hcall hr hn := by
    obtain ⟨later, earlier, rfl⟩ := List.append_of_mem hq
    obtain ⟨_, hok, _, _⟩ := h.split
    rw [hl] at hok hn ⊢
    rcases Api.retries_unchanged hok hcall hr hn with hresp | hdb
    · exact .inl hresp
    · rw [hdb]
      exact .inr ⟨rfl, rfl⟩

end Runs

namespace Sample

def deadLettered : List ApiLabel :=
  [.poll (.core (.register 1 "a" "h1")), .submit 0 (.createJob 10 30 (request 1)), .advance 0 (answered 1),
    .advance 0 (answered 2), .advance 0 (answered 3), .advance 0 (answered 100)] ++ claimed ++
  [.poll (.core (.markRunning 0 0 .acknowledged)), .poll (.core (.finish 0 (finish (.error "timeout") 50)))]

def retryReads (c : ℕ) : List ApiLabel :=
  [.submit c (.retryJob 50 30), .advance c (answered 1), .advance c (answered 2), .advance c (answered 3)]

end Sample

/-- Two calls read the entry after one another, and the second one is refused. -/
theorem dlq_entry_retried_once_sample :
    ∃ hist s, Run (api Sample.cron) (fun s l => s.orderly l) hist s ∧
      (hist.any fun q => (q.1.requeued q.2).isSome) = true ∧ RetriedOnce Sample.cron hist := by
  obtain ⟨hist, s, hrun, hp⟩ := Run.exists_of_exec (M := api Sample.cron) Sample.api_initial
    (Sample.deadLettered ++ Sample.retryReads 1 ++ [.advance 1 (Sample.answered 4)] ++
      [.submit 2 (.retryJob 50 30), .advance 2 (Sample.answered 1), .advance 2 (Sample.answered 2)])
    Api.orderly (fun hist _ => hist.any fun q => (q.1.requeued q.2).isSome) (by decide)
  exact ⟨hist, s, hrun, hp, dlq_entry_retried_once hrun⟩

/-- Both calls pass the check before either commits, and the job runs again in between: the second
transaction puts a running job back into its queue. -/
theorem dlq_entry_retried_twice :
    ¬∀ (cron : Cron) (hist : List (Api × ApiLabel)) (s : Api), Run (api cron) (fun _ _ => True) hist s →
      RetriedOnce cron hist := by
  intro hall
  obtain ⟨hist, s, hrun, hp⟩ := Run.exists_of_exec (M := api Sample.cron) Sample.api_initial
    (Sample.deadLettered ++ Sample.retryReads 1 ++ Sample.retryReads 2 ++ [.advance 1 (Sample.answered 4)] ++
      Sample.claimed ++ [.poll (.core (.markRunning 1 0 .acknowledged)), .advance 2 (Sample.answered 4)])
    (fun _ _ => true)
    (fun hist _ => 2 ≤ (hist.countP fun q => (q.1.requeued q.2).any fun e => decide (e.id = 50)))
    (by decide)
  have hone := (hall _ hist s (hrun.mono fun _ _ _ => trivial)).once 50
  have htwo : 2 ≤ (hist.countP fun q => (q.1.requeued q.2).any fun e => decide (e.id = 50)) := by
    simpa using hp
  omega

end JobScheduler
