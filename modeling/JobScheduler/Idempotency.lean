import JobScheduler.Requests

namespace JobScheduler
open Relational Transition

def Call.creating : Call → Option (Uuid × Uuid × CreateJobRequest)
  | .createLookup queueId userId req | .createFind queueId userId req => some (queueId, userId, req)
  | .createRole queue userId req | .createInsert queue userId req => some (queue.id, userId, req)
  | _ => none

def Call.statementsLeft : Call → ℕ
  | .createLookup _ _ _ => 4
  | .createFind _ _ _ => 3
  | .createRole _ _ _ => 2
  | .createInsert _ _ _ => 1
  | _ => 0

/-- The queue exists and accepts jobs, the user may write to its project, and the request is valid: its cron
expression parses, and the retry policy it names exists. -/
def admits (cron : Cron) (db : Db) (queueId userId : Uuid) (req : CreateJobRequest) : Bool :=
  ((db.queues.find? queueId).any fun q => q.isAcceptingJobs && isWriter db q.projectId userId) &&
    (validateCron cron req).isOk && req.retryPolicyId.all fun p => decide (p ∈ db.parents.retryPolicies)

def Job.keyed (k : Uuid) (key : String) (r : Job) : Bool := r.queueId = k && r.idempotencyKey = some key

/-- When an `INSERT` with an idempotency key runs, the key is still free in the queue, and the
identifier drawn for the row is not in use. -/
def Api.insertsNew (s : Api) : ApiLabel → Bool
  | .advance c io =>
    match s.calls c with
    | some (.createInsert queue _ req) =>
      req.idempotencyKey.all fun key =>
        (findByIdempotencyKey s.core.db key queue.id).isNone && (s.core.db.jobs.find? io.id).isNone
    | _ => true
  | _ => true

/-- Over a history that ends in `s`: a key is that of one job of the queue at most, every call answered
with a job under its key is answered with that one, and no call with a key fails where it is admitted
and its statements are answered. -/
structure Idempotent (cron : Cron) (hist : List (Api × ApiLabel)) (s : Api) : Prop where
  unique : ∀ k key, s.core.db.jobs.count (Job.keyed k key) ≤ 1
  same : ∀ q ∈ hist, ∀ c io call k userId req key job, q.2 = .advance c io → q.1.calls c = some call →
    call.creating = some (k, userId, req) → req.idempotencyKey = some key →
    q.1.response cron q.2 = some (.created (.ok job)) →
    ∃ r, s.core.db.jobs.find? job.id = some r ∧ r.keyed k key = true
  proceeds : ∀ q ∈ hist, ∀ c io call k userId req key, q.2 = .advance c io → q.1.calls c = some call →
    call.creating = some (k, userId, req) → req.idempotencyKey = some key → io.outcome = .acknowledged →
    admits cron q.1.core.db k userId req = true →
    (∃ job, q.1.response cron q.2 = some (.created (.ok job))) ∨
      ∃ s' call', q.1.next cron q.2 = some s' ∧ s'.calls c = some call' ∧
        call'.creating = some (k, userId, req) ∧ call'.statementsLeft < call.statementsLeft

section Steps
variable {cron : Cron} {db : Db} {now : Timestamp} {io : Io} {call : Call} {k userId : Uuid}
  {req : CreateJobRequest} {key : String}

theorem findByIdempotencyKey_some {job : Job} (h : findByIdempotencyKey db key k = some job) :
    job ∈ db.jobs.rows ∧ job.keyed k key = true := by
  have hm := List.mem_of_find?_eq_some h
  have hp := List.find?_some h
  exact ⟨hm, by simpa [Job.keyed, and_comm] using hp⟩

theorem findByIdempotencyKey_none (h : findByIdempotencyKey db key k = none) {r : Job} (hr : r ∈ db.jobs.rows)
    (hq : r.queueId = k) : r.idempotencyKey ≠ some key := by
  intro he
  have hnot := List.find?_eq_none.mp h r hr
  simp [hq, he] at hnot

theorem Call.created_stored {job : Job} (hc : call.creating = some (k, userId, req))
    (hkey : req.idempotencyKey = some key) (h : (call.step cron db now io).2 = .inr (.created (.ok job))) :
    (call.step cron db now io).1.jobs.find? job.id = some job ∧ job.keyed k key = true := by
  cases call with
  | createLookup queueId userId' req' =>
    cases hc
    simp only [Call.step, hkey] at h ⊢
    rcases Io.read_inr h with hr | hr
    · cases hr
    · split at hr
      · rename_i existing he
        cases hr
        obtain ⟨hm, hkeyed⟩ := findByIdempotencyKey_some he
        exact ⟨Table.find?_of_mem hm, hkeyed⟩
      · cases hr
  | createFind queueId userId' req' =>
    rcases Io.read_inr h with hr | hr
    · cases hr
    · split at hr
      · cases hr
      · split at hr <;> cases hr
  | createRole queue userId' req' =>
    rcases Io.read_inr h with hr | hr
    · cases hr
    · split at hr
      · cases hr
      · split at hr <;> cases hr
  | createInsert queue userId' req' =>
    cases hc
    simp only [Call.step] at h ⊢
    split at h
    · cases h
    · obtain ⟨_, db', hr, hdb⟩ := Io.write_ok (Response.created.inj (Sum.inr.inj h))
      obtain ⟨rfl, _, hi⟩ := createJobInsert_ok hr
      obtain ⟨_, jobs, hj, rfl⟩ := insertJob_ok hi
      dsimp only
      rw [hdb]
      exact ⟨by rw [Table.find?_insert hj, if_pos rfl], by simp [Job.keyed, newJob, hkey]⟩
  | _ => cases hc

/-- What a new job refers to exists: its queue, the project of the queue, and the retry policy of the request or
else of the queue. -/
theorem newJob_foreignKeys {id correlationId : Uuid} {queue : Queue}
    (hqueue : (db.queues.find? queue.id).isSome = true) (hfk : queue.foreignKeys db.parents = true)
    (hpolicy : (req.retryPolicyId.all fun p => decide (p ∈ db.parents.retryPolicies)) = true) :
    (newJob now id correlationId queue req).foreignKeys db = true := by
  obtain ⟨hproject, hown⟩ := Bool.and_eq_true_iff.mp hfk
  have hall : ((req.retryPolicyId.or queue.retryPolicyId).all fun p =>
      decide (p ∈ db.parents.retryPolicies)) = true := by
    cases hp : req.retryPolicyId with
    | none => exact hown
    | some p =>
      rw [hp] at hpolicy
      exact hpolicy
  simp only [Job.foreignKeys, newJob, Bool.and_eq_true]
  exact ⟨⟨⟨hqueue, hproject⟩, rfl⟩, hall⟩

/-- Where a call is admitted and its statements are answered, it goes on or is answered with a job. -/
theorem Call.step_admitted (now : Timestamp) (hk : call.Known db) (hc : call.creating = some (k, userId, req))
    (hkey : req.idempotencyKey = some key) (ho : io.outcome = .acknowledged)
    (ha : admits cron db k userId req = true)
    (hnew : ∀ queue, call = .createInsert queue userId req →
      findByIdempotencyKey db key queue.id = none ∧ db.jobs.find? io.id = none) :
    (∃ job, (call.step cron db now io).2 = .inr (.created (.ok job))) ∨
      ∃ call', (call.step cron db now io).2 = .inl call' ∧ call'.creating = some (k, userId, req) ∧
        call'.statementsLeft < call.statementsLeft := by
  simp only [admits, Bool.and_eq_true, Option.any_eq_true] at ha
  obtain ⟨⟨⟨q, hq, haccept, hwriter⟩, hvalid⟩, hpolicy⟩ := ha
  cases call with
  | createLookup queueId userId' req' =>
    cases hc
    simp only [Call.step, hkey, Io.read, if_pos ho]
    split
    · exact .inl ⟨_, rfl⟩
    · exact .inr ⟨_, rfl, rfl, Nat.lt_succ_self _⟩
  | createFind queueId userId' req' =>
    cases hc
    have hid : q.id = k := Table.key_of_find? hq
    simp only [Call.step, Io.read, if_pos ho, hq, haccept]
    exact .inr ⟨.createRole q userId req, rfl, by simp [Call.creating, hid], Nat.lt_succ_self _⟩
  | createRole queue userId' req' =>
    cases hc
    obtain ⟨⟨q', hq', hp⟩, _⟩ := hk
    obtain rfl : q = q' := Option.some.inj (hq.symm.trans hq')
    rw [hp] at hwriter
    obtain ⟨role, hr, hv⟩ := Option.any_eq_true _ _ |>.mp hwriter
    have hv : role ≠ .viewer := by simpa using hv
    simp only [Call.step, Io.read, if_pos ho, hr, if_neg hv]
    exact .inr ⟨_, rfl, rfl, Nat.lt_succ_self _⟩
  | createInsert queue userId' req' =>
    cases hc
    obtain ⟨hfree, hid⟩ := hnew queue rfl
    have hins : ∃ db', insertJob db (newJob now io.id io.correlationId queue req) = .ok db' := by
      refine insertJob_succeeds (newJob_foreignKeys (by rw [hq]; rfl) hk.2 hpolicy) (fun _ r hr hrq => ?_) hid
      have hne := findByIdempotencyKey_none hfree hr hrq
      rw [← hkey] at hne
      exact hne
    obtain ⟨db', hi⟩ := hins
    cases hv : validateCron cron req with
    | error e => simp [hv, Except.isOk, Except.toBool] at hvalid
    | ok u =>
      refine .inl ⟨newJob now io.id io.correlationId queue req, ?_⟩
      simp [Call.step, hv, Io.write, ho, createJobInsert, hi, bind, Except.bind]
  | _ => cases hc

def UniqueKeys (db : Db) : Prop :=
  ∀ r ∈ db.jobs.rows, ∀ r' ∈ db.jobs.rows, r.queueId = r'.queueId → r.idempotencyKey = r'.idempotencyKey →
    r.idempotencyKey.isSome = true → r.id = r'.id

theorem UniqueKeys.insert {db' : Db} {j : Job} (h : UniqueKeys db) (hi : insertJob db j = .ok db') :
    UniqueKeys db' := by
  obtain ⟨_, jobs, hj, hdb⟩ := insertJob_ok hi
  have hrows : db'.jobs.rows = db.jobs.rows ++ [j] := by
    rw [hdb]
    exact (Table.rows_insert hj).1
  intro r hr r' hr' hq he hs
  rw [hrows, List.mem_append, List.mem_singleton] at hr hr'
  rcases hr with hr | rfl
  · rcases hr' with hr' | rfl
    · exact h r hr r' hr' hq he hs
    · rw [he] at hs
      exact absurd he (insertJob_key_new hi hs hr hq)
  · rcases hr' with hr' | rfl
    · exact absurd he.symm (insertJob_key_new hi hs hr' hq.symm)
    · rfl

theorem UniqueKeys.next {s s' : Sys} {l : Label} (h : UniqueKeys s.db) (hn : s.next cron l = some s') :
    UniqueKeys s'.db := by
  cases (next_tables hn).jobs with
  | updated f hrows hf =>
    intro r hr r' hr' hq he hs
    rw [hrows, List.mem_map] at hr hr'
    obtain ⟨a, ha, rfl⟩ := hr
    obtain ⟨b, hb, rfl⟩ := hr'
    rw [(hf a).queueId, (hf b).queueId] at hq
    rw [(hf a).idempotencyKey, (hf b).idempotencyKey] at he
    rw [(hf a).idempotencyKey] at hs
    rw [(hf a).id, (hf b).id]
    exact h a ha b hb hq he hs
  | created _ hi => exact h.insert hi
  | continued _ hi => exact h.insert hi

end Steps

section Runs
variable {cron : Cron} {s : Api} {hist : List (Api × ApiLabel)}

theorem uniqueKeys_of_reachable {ok : Sys → Label → Prop} {s : Sys} (h : Reachable (scheduler cron) ok s) :
    UniqueKeys s.db := by
  refine Reachable.invariant (I := fun s => UniqueKeys s.db) ?_ ?_ h
  · intro s (hs : s.Initial) r hr
    simp [hs.jobs] at hr
  · intro s l s' _ hi _ hn
    exact hi.next hn

theorem created_of_run {ok : Api → ApiLabel → Prop} (h : Run (api cron) ok hist s) :
    ∀ q ∈ hist, ∀ c io call k userId req key job, q.2 = .advance c io → q.1.calls c = some call →
      call.creating = some (k, userId, req) → req.idempotencyKey = some key →
      q.1.response cron q.2 = some (.created (.ok job)) →
      ∃ r, s.core.db.jobs.find? job.id = some r ∧ r.keyed k key = true := by
  refine Run.invariant (I := fun hist s => ∀ q ∈ hist, ∀ c io call k userId req key job,
      q.2 = .advance c io → q.1.calls c = some call → call.creating = some (k, userId, req) →
      req.idempotencyKey = some key → q.1.response cron q.2 = some (.created (.ok job)) →
      ∃ r, s.core.db.jobs.find? job.id = some r ∧ r.keyed k key = true) ?_ ?_ h
  · intro s _ q hq
    cases hq
  · intro hist s l s' hrun hi _ hn q hq c io call k userId req key job hl hcall hcre hkey hresp
    rcases List.mem_cons.mp hq with rfl | hq
    · dsimp only at hl hcall hresp
      subst hl
      obtain ⟨hfind, hkeyed⟩ := Call.created_stored hcre hkey (Api.response_eq hcall hresp)
      rw [Api.next_advance hcall hn]
      exact ⟨job, hfind, hkeyed⟩
    · obtain ⟨r, hr, hkeyed⟩ := hi q hq c io call k userId req key job hl hcall hcre hkey hresp
      obtain ⟨r', hr', horg⟩ := (Api.next_grows (known_of_reachable hrun.reachable) hn).jobs _ r hr
      refine ⟨r', hr', ?_⟩
      simp only [Job.keyed, horg.queueId, horg.idempotencyKey] at hkeyed ⊢
      exact hkeyed

/-- Submission is idempotent, as long as every `INSERT` with a key finds it free. -/
theorem submission_idempotent (h : Run (api cron) (fun s l => s.insertsNew l) hist s) : Idempotent cron hist s where
  unique k key := by
    refine Table.count_le_one fun r hr r' hr' hk hk' => ?_
    simp only [Job.keyed, Bool.and_eq_true, decide_eq_true_eq] at hk hk'
    refine uniqueKeys_of_reachable (core_of_api h.reachable) r hr r' hr' (hk.1.trans hk'.1.symm)
      (hk.2.trans hk'.2.symm) ?_
    rw [hk.2]
    rfl
  same := created_of_run h
  proceeds q hq c io call k userId req key hl hcall hcre hkey ho ha := by
    obtain ⟨later, earlier, rfl⟩ := List.append_of_mem hq
    obtain ⟨hrun, hok, _, _⟩ := h.split
    rw [hl] at hok ⊢
    have hnew (queue : Queue) (hins : call = .createInsert queue userId req) :
        findByIdempotencyKey q.1.core.db key queue.id = none ∧ q.1.core.db.jobs.find? io.id = none := by
      rw [hins] at hcall
      simpa [Api.insertsNew, hcall, hkey] using hok
    rcases Call.step_admitted q.1.core.now (known_of_reachable hrun.reachable c call hcall) hcre hkey ho ha hnew with
      ⟨job, hjob⟩ | ⟨call', hstep, hcre', hlt⟩
    · refine .inl ⟨job, ?_⟩
      simp only [Api.response, hcall, Option.bind_some, hjob]
      rfl
    · refine .inr ⟨_, call', by rw [Api.next, hcall]; rfl, ?_, hcre', hlt⟩
      rw [Api.reply_calls, hstep]
      rfl

end Runs

namespace Sample

def keyedRequest : CreateJobRequest := { request 3 with idempotencyKey := some "order-7" }

def createReads (c : ℕ) : List ApiLabel :=
  [.submit c (.createJob 10 30 keyedRequest), .advance c (answered 1), .advance c (answered 2),
    .advance c (answered 3)]

end Sample

/-- A request, and its retry after the answer to the first one was lost. -/
theorem submission_idempotent_sample :
    ∃ hist s, Run (api Sample.cron) (fun s l => s.insertsNew l) hist s ∧
      s.core.db.jobs.count (Job.keyed 10 "order-7") = 1 ∧ Idempotent Sample.cron hist s := by
  obtain ⟨hist, s, hrun, hp⟩ := Run.exists_of_exec (M := api Sample.cron) Sample.api_initial
    (Sample.createReads 1 ++ [.advance 1 ⟨100, 100, .lostAfter⟩, .submit 2 (.createJob 10 30 Sample.keyedRequest),
      .advance 2 (Sample.answered 4)])
    Api.insertsNew (fun _ s => s.core.db.jobs.count (Job.keyed 10 "order-7") = 1) (by decide)
  exact ⟨hist, s, hrun, by simpa using hp, submission_idempotent hrun⟩

def Sample.lastRefused : List (Api × ApiLabel) → Bool
  | (s₀, .advance 2 ⟨101, 101, .acknowledged⟩) :: _ =>
    match s₀.calls 2, s₀.response Sample.cron (.advance 2 (Sample.answered 101)) with
    | some (.createInsert queue 30 req), some (.created (.error (.database .uniqueViolation))) =>
      queue.id = 10 && req.idempotencyKey = some "order-7" && admits Sample.cron s₀.core.db queue.id 30 req
    | _, _ => false
  | _ => false

/-- Two calls look the key up before either inserts: the second one is answered with the violated
constraint. -/
theorem submission_not_idempotent :
    ¬∀ (cron : Cron) (hist : List (Api × ApiLabel)) (s : Api), Run (api cron) (fun _ _ => True) hist s →
      Idempotent cron hist s := by
  intro hall
  obtain ⟨hist, s, hrun, hp⟩ := Run.exists_of_exec (M := api Sample.cron) Sample.api_initial
    (Sample.createReads 1 ++ Sample.createReads 2 ++ [.advance 1 (Sample.answered 100),
      .advance 2 (Sample.answered 101)])
    (fun _ _ => true) (fun hist _ => Sample.lastRefused hist) (by decide)
  unfold Sample.lastRefused at hp
  split at hp
  · rename_i s₀ earlier
    split at hp
    · rename_i queue req hcall hresp
      simp only [Bool.and_eq_true, decide_eq_true_eq] at hp
      obtain ⟨⟨_, hkey⟩, ha⟩ := hp
      have hrun : Run (api Sample.cron) (fun _ _ => True) _ s := hrun.mono fun _ _ _ => trivial
      rcases (hall _ _ s hrun).proceeds _ List.mem_cons_self 2 _ _ _ _ req _ rfl hcall rfl hkey rfl ha with
        ⟨job, hjob⟩ | ⟨s', call', hn, hc', _⟩
      · cases hresp.symm.trans hjob
      · -- the call has been answered, so it does not go on
        have hanswer := Api.response_eq hcall hresp
        rw [Api.next_advance hcall hn, Api.reply_calls] at hc'
        cases (Sum.getLeft?_eq_some_iff.mp hc').symm.trans hanswer
    · cases hp
  · cases hp

end JobScheduler
