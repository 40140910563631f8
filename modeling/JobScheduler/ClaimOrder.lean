import JobScheduler.Database

namespace JobScheduler
open Relational

/-! ## The order, coded three times -/

def JobPriority.discriminant : JobPriority → ℕ
  | .low => 0
  | .normal => 1
  | .high => 2
  | .critical => 3

theorem JobPriority.discriminant_injective : Function.Injective JobPriority.discriminant := by
  intro p p' h
  cases p <;> cases p' <;> first | rfl | cases h

/-- The derived `Ord`. -/
instance : LinearOrder JobPriority :=
  LinearOrder.lift' JobPriority.discriminant JobPriority.discriminant_injective

/-- `CREATE TYPE job_priority AS ENUM`. -/
def jobPriorityEnum : List JobPriority := [.low, .normal, .high, .critical]

/-- `idx_jobs_claimable`: `priority DESC, created_at ASC`, by the order of the enum. -/
def indexBefore (j k : Job) : Bool :=
  jobPriorityEnum.idxOf k.priority < jobPriorityEnum.idxOf j.priority ||
    (j.priority = k.priority && j.createdAt ≤ k.createdAt)

/-- `j` has the higher priority, or the same one and is not younger. -/
def Job.precedes (j k : Job) : Prop :=
  k.priority < j.priority ∨ j.priority = k.priority ∧ j.createdAt ≤ k.createdAt

theorem priorityWeight_lt_iff (p p' : JobPriority) : priorityWeight p < priorityWeight p' ↔ p < p' := by
  change _ ↔ p.discriminant < p'.discriminant
  cases p <;> cases p' <;> simp [priorityWeight, JobPriority.discriminant]

theorem priorityWeight_eq_iff (p p' : JobPriority) : priorityWeight p = priorityWeight p' ↔ p = p' := by
  cases p <;> cases p' <;> simp [priorityWeight]

theorem idxOf_jobPriorityEnum (p : JobPriority) : jobPriorityEnum.idxOf p = p.discriminant := by
  cases p <;> rfl

theorem claimsBefore_iff (j k : Job) : claimsBefore j k = true ↔ j.precedes k := by
  simp only [claimsBefore, Job.precedes, Bool.or_eq_true, Bool.and_eq_true, decide_eq_true_eq,
    priorityWeight_lt_iff, priorityWeight_eq_iff]

/-- The index keeps the rows in the order of the query. -/
theorem indexBefore_eq_claimsBefore : indexBefore = claimsBefore := by
  funext j k
  rw [Bool.eq_iff_iff, claimsBefore_iff]
  simp only [indexBefore, Job.precedes, Bool.or_eq_true, Bool.and_eq_true, decide_eq_true_eq,
    idxOf_jobPriorityEnum]
  rfl

theorem Job.precedes_total (j k : Job) : j.precedes k ∨ k.precedes j := by
  rcases lt_trichotomy j.priority k.priority with h | h | h
  · exact .inr (.inl h)
  · rcases le_total j.createdAt k.createdAt with ht | ht
    · exact .inl (.inr ⟨h, ht⟩)
    · exact .inr (.inr ⟨h.symm, ht⟩)
  · exact .inl (.inl h)

theorem Job.precedes_trans {i j k : Job} (h : i.precedes j) (h' : j.precedes k) : i.precedes k := by
  rcases h with h | ⟨h, ht⟩
  · rcases h' with h' | ⟨h', _⟩
    · exact .inl (h'.trans h)
    · exact .inl (h' ▸ h)
  · rcases h' with h' | ⟨h', ht'⟩
    · exact .inl (h ▸ h')
    · exact .inr ⟨h.trans h', ht.trans ht'⟩

theorem claimsBefore_total (j k : Job) : claimsBefore j k = true ∨ claimsBefore k j = true := by
  simpa only [claimsBefore_iff] using j.precedes_total k

theorem claimsBefore_trans (i j k : Job) (hij : claimsBefore i j = true) (hjk : claimsBefore j k = true) :
    claimsBefore i k = true := by
  rw [claimsBefore_iff] at hij hjk ⊢
  exact Job.precedes_trans hij hjk

/-! ## The first of a selection -/

section FirstBy
variable {α : Type} {before : α → α → Bool} {l : List α} {a : α}

theorem firstBy_eq_none_iff : firstBy before l = none ↔ l = [] := by
  cases l with
  | nil => simp [firstBy]
  | cons b l => cases h : firstBy before l <;> simp [firstBy, h]

theorem firstBy_before (htotal : ∀ a b, before a b = true ∨ before b a = true)
    (htrans : ∀ a b c, before a b = true → before b c = true → before a c = true)
    (h : firstBy before l = some a) : ∀ b ∈ l, before a b = true := by
  have hrefl (b : α) : before b b = true := (htotal b b).elim id id
  induction l generalizing a with
  | nil => cases h
  | cons c l ih =>
    rw [firstBy] at h
    intro b hb
    cases hl : firstBy before l with
    | none =>
      obtain rfl := firstBy_eq_none_iff.mp hl
      simp only [hl, Option.some.injEq] at h
      obtain rfl := List.mem_singleton.mp hb
      rw [h]
      exact hrefl a
    | some d =>
      simp only [hl, Option.some.injEq] at h
      by_cases hcd : before c d = true
      · rw [if_pos hcd] at h
        subst h
        rcases List.mem_cons.mp hb with rfl | hb
        · exact hrefl _
        · exact htrans _ _ _ hcd (ih hl b hb)
      · rw [if_neg hcd] at h
        subst h
        rcases List.mem_cons.mp hb with rfl | hb
        · exact (htotal _ _).resolve_left hcd
        · exact ih hl b hb

end FirstBy

/-! ## One claim -/

def dueJobs (db : Db) (now : Timestamp) (queueId : Uuid) (locked : List Uuid) : List Job :=
  db.jobs.rows.filter fun j => claimable now queueId j && !locked.contains j.id

section Claim
variable {db db' : Db} {now : Timestamp} {queueId workerId : Uuid} {locked : List Uuid} {j r job : Job}

theorem mem_dueJobs : j ∈ dueJobs db now queueId locked ↔
    j ∈ db.jobs.rows ∧ claimable now queueId j = true ∧ j.id ∉ locked := by
  simp [dueJobs]

theorem nextClaimable_eq_none_iff :
    nextClaimable db now queueId locked = none ↔ dueJobs db now queueId locked = [] :=
  firstBy_eq_none_iff

theorem nextClaimable_first (h : nextClaimable db now queueId locked = some r) :
    r ∈ dueJobs db now queueId locked ∧ ∀ k ∈ dueJobs db now queueId locked, r.precedes k := by
  refine ⟨firstBy_mem h, fun k hk => (claimsBefore_iff r k).mp ?_⟩
  exact firstBy_before claimsBefore_total claimsBefore_trans h k hk

theorem claimNextJob_of_registered (hw : (db.workers.find? workerId).isSome = true) :
    claimNextJob db now queueId workerId locked = .ok ((nextClaimable db now queueId locked).map fun r =>
      (r.claim workerId now, db.updateJob r.id (Job.claim workerId now) (Job.claim_id workerId now))) := by
  have hnone : (db.workers.find? workerId).isNone = false := by simpa using hw
  unfold claimNextJob
  cases nextClaimable db now queueId locked with
  | none => rfl
  | some r => simp [hnone]

theorem claimNextJob_first (h : claimNextJob db now queueId workerId locked = .ok (some (job, db'))) :
    ∃ r ∈ dueJobs db now queueId locked, job = r.claim workerId now ∧
      (∀ k ∈ dueJobs db now queueId locked, r.precedes k) ∧
      db' = db.updateJob r.id (Job.claim workerId now) (Job.claim_id workerId now) := by
  unfold claimNextJob at h
  split at h
  · cases h
  · rename_i r hr
    obtain ⟨hmem, hfirst⟩ := nextClaimable_first hr
    split at h
    · cases h
    · cases h
      exact ⟨r, hmem, rfl, hfirst, rfl⟩

theorem dueJobs_of_claimNextJob_none (h : claimNextJob db now queueId workerId locked = .ok none) :
    dueJobs db now queueId locked = [] := by
  unfold claimNextJob at h
  split at h
  · rename_i hn
    exact nextClaimable_eq_none_iff.mp hn
  · split at h <;> cases h

end Claim

/-! ## Claims in a row -/

/-- `claim_next_job` again and again, each time by a worker and at a time: nothing else happens, and no row
is locked. -/
def claimResults (queueId : Uuid) : Db → List (Timestamp × Uuid) → List (Except SqlError (Option Job))
  | _, [] => []
  | db, (now, workerId) :: calls =>
    match claimNextJob db now queueId workerId [] with
    | .ok (some (job, db')) => .ok (some job) :: claimResults queueId db' calls
    | .ok none => .ok none :: claimResults queueId db calls
    | .error e => .error e :: claimResults queueId db calls

def claimedJobs (results : List (Except SqlError (Option Job))) : List Job :=
  results.filterMap fun r => r.toOption.join

section Drain
variable {db : Db} {now : Timestamp} {queueId workerId : Uuid} {calls : List (Timestamp × Uuid)} {r : Job}

theorem mem_dueJobs_nil {j : Job} :
    j ∈ dueJobs db now queueId [] ↔ j ∈ db.jobs.rows ∧ claimable now queueId j = true := by
  simp [dueJobs]

theorem mem_rows_claim {j : Job} (hr : r ∈ db.jobs.rows) (w : Uuid) (t : Timestamp) :
    j ∈ (db.updateJob r.id (Job.claim w t) (Job.claim_id w t)).jobs.rows ↔
      j = r.claim w t ∨ j ∈ db.jobs.rows ∧ j.id ≠ r.id := by
  simp only [Db.updateJob, Db.updateJobs, Table.rows_update, List.mem_map, decide_eq_true_eq]
  constructor
  · rintro ⟨k, hk, rfl⟩
    split
    · rename_i hid
      rw [List.inj_on_of_nodup_map db.jobs.nodup hk hr hid]
      exact .inl rfl
    · rename_i hid
      exact .inr ⟨hk, hid⟩
  · rintro (rfl | ⟨hj, hid⟩)
    · exact ⟨r, hr, if_pos rfl⟩
    · exact ⟨j, hj, if_neg hid⟩

theorem claimable_claim (w : Uuid) (t t' : Timestamp) (j : Job) : claimable t' queueId (j.claim w t) = false := by
  simp [claimable, Job.claim]

theorem dueJobs_claim (r : Job) (w : Uuid) (t : Timestamp) :
    dueJobs (db.updateJob r.id (Job.claim w t) (Job.claim_id w t)) now queueId [] =
      (dueJobs db now queueId []).filter fun j => decide (j.id ≠ r.id) := by
  simp only [dueJobs, Db.updateJob, Db.updateJobs, Table.rows_update, List.filter_filter]
  induction db.jobs.rows with
  | nil => rfl
  | cons j l ih =>
    rw [List.map_cons, List.filter_cons, List.filter_cons, ih]
    by_cases hid : j.id = r.id
    · simp [hid, claimable_claim]
    · simp [hid]

theorem dueJobs_perm_cons (hr : r ∈ dueJobs db now queueId []) :
    (r :: (dueJobs db now queueId []).filter fun j => decide (j.id ≠ r.id)).Perm (dueJobs db now queueId []) := by
  have hids : ((dueJobs db now queueId []).map Job.id).Nodup :=
    db.jobs.nodup.sublist (List.filter_sublist.map Job.id)
  have hnd : (dueJobs db now queueId []).Nodup := List.Nodup.of_map _ hids
  have hnd' : (r :: (dueJobs db now queueId []).filter fun j => decide (j.id ≠ r.id)).Nodup :=
    List.nodup_cons.mpr ⟨by simp, hnd.filter _⟩
  refine (List.perm_ext_iff_of_nodup hnd' hnd).mpr fun j => ?_
  simp only [List.mem_cons, List.mem_filter, decide_eq_true_eq]
  constructor
  · rintro (rfl | ⟨hj, _⟩)
    · exact hr
    · exact hj
  · intro hj
    by_cases hid : j.id = r.id
    · exact .inl (List.inj_on_of_nodup_map hids hj hr hid)
    · exact .inr ⟨hj, hid⟩

/-- While the same jobs are due, the claims return them in their order, and nothing after the last. -/
theorem claimResults_drain (hw : ∀ c ∈ calls, (db.workers.find? c.2).isSome = true)
    (hdue : ∀ c ∈ calls, ∀ r ∈ db.jobs.rows, claimable c.1 queueId r = claimable now queueId r) :
    ∃ order : List Job, order.Perm (dueJobs db now queueId []) ∧ order.Pairwise Job.precedes ∧
      claimResults queueId db calls = calls.mapIdx fun i c => .ok (order[i]?.map (Job.claim c.2 c.1)) := by
  induction calls generalizing db with
  | nil =>
    refine ⟨(dueJobs db now queueId []).mergeSort claimsBefore, List.mergeSort_perm _ _, ?_, rfl⟩
    have hsorted := List.pairwise_mergeSort claimsBefore_trans
      (fun j k => by simpa only [Bool.or_eq_true] using claimsBefore_total j k) (dueJobs db now queueId [])
    exact hsorted.imp fun {j k} h => (claimsBefore_iff j k).mp h
  | cons c calls ih =>
    obtain ⟨t, w⟩ := c
    have hsame : dueJobs db t queueId [] = dueJobs db now queueId [] := by
      refine List.filter_congr fun j hj => ?_
      rw [hdue (t, w) List.mem_cons_self j hj]
    have hclaim := @claimNextJob_of_registered db t queueId w [] (hw (t, w) List.mem_cons_self)
    cases hn : nextClaimable db t queueId [] with
    | none =>
      obtain ⟨order, hperm, hsorted, hres⟩ := ih (fun c hc => hw c (List.mem_cons_of_mem _ hc))
        fun c hc => hdue c (List.mem_cons_of_mem _ hc)
      have hnil : order = [] := by
        rw [← hsame, nextClaimable_eq_none_iff.mp hn] at hperm
        exact hperm.eq_nil
      refine ⟨order, hperm, hsorted, ?_⟩
      rw [claimResults, hclaim, hn, List.mapIdx_cons]
      subst hnil
      simp [hres]
    | some r =>
      obtain ⟨hmem, hfirst⟩ := nextClaimable_first hn
      have hrow := (mem_dueJobs_nil.mp hmem).1
      rw [hsame] at hmem hfirst
      have hdue' : ∀ c ∈ calls, ∀ j ∈ (db.updateJob r.id (Job.claim w t) (Job.claim_id w t)).jobs.rows,
          claimable c.1 queueId j = claimable now queueId j := by
        intro c hc j hj
        rcases (mem_rows_claim hrow w t).mp hj with rfl | ⟨hj, _⟩
        · rw [claimable_claim, claimable_claim]
        · exact hdue c (List.mem_cons_of_mem _ hc) j hj
      obtain ⟨order, hperm, hsorted, hres⟩ :=
        @ih (db.updateJob r.id (Job.claim w t) (Job.claim_id w t))
          (fun c hc => hw c (List.mem_cons_of_mem _ hc)) hdue'
      rw [dueJobs_claim] at hperm
      refine ⟨r :: order, (hperm.cons r).trans (dueJobs_perm_cons hmem), ?_, ?_⟩
      · exact List.pairwise_cons.mpr ⟨fun k hk => hfirst k (List.mem_filter.mp (hperm.mem_iff.mp hk)).1, hsorted⟩
      · rw [claimResults, hclaim, hn, List.mapIdx_cons]
        simp [hres]

theorem claimedJobs_queued {k : Job} (hk : k ∈ claimedJobs (claimResults queueId db calls)) :
    ∃ r ∈ db.jobs.rows, r.status = .queued ∧ ∃ w t, k = r.claim w t := by
  induction calls generalizing db with
  | nil => cases hk
  | cons c calls ih =>
    obtain ⟨t, w⟩ := c
    rw [claimResults] at hk
    split at hk
    · rename_i job db' hc
      obtain ⟨r, hr, rfl, _, rfl⟩ := claimNextJob_first hc
      obtain ⟨hrow, hdue⟩ := mem_dueJobs_nil.mp hr
      rcases List.mem_cons.mp hk with rfl | hk
      · simp only [claimable, Bool.and_eq_true, decide_eq_true_eq] at hdue
        exact ⟨r, hrow, hdue.1.1, w, t, rfl⟩
      · obtain ⟨r', hr', hs, hk⟩ := ih hk
        rcases (mem_rows_claim hrow w t).mp hr' with rfl | ⟨hr', _⟩
        · cases hs
        · exact ⟨r', hr', hs, hk⟩
    · exact ih hk
    · exact ih hk

theorem claimable_mono {t : Timestamp} (h : now ≤ t) {j : Job} (hj : claimable now queueId j = true) :
    claimable t queueId j = true := by
  simp only [claimable, Bool.and_eq_true, Option.all_eq_true, decide_eq_true_eq] at hj ⊢
  exact ⟨hj.1, fun x hx => (hj.2 x hx).trans h⟩

theorem dueJobs_mono {t : Timestamp} (h : now ≤ t) {j : Job} (hj : j ∈ dueJobs db now queueId []) :
    j ∈ dueJobs db t queueId [] :=
  mem_dueJobs_nil.mpr ⟨(mem_dueJobs_nil.mp hj).1, claimable_mono h (mem_dueJobs_nil.mp hj).2⟩

/-- Jobs may become due between the claims: those due at the start come in their order all the same, each
once, and all of them before a claim finds nothing. -/
structure DrainedInOrder (S : List Job) (results : List (Except SqlError (Option Job))) : Prop where
  once : ((claimedJobs results).map Job.id).Nodup
  ordered : ((claimedJobs results).filter fun j => decide (j.id ∈ S.map Job.id)).Pairwise Job.precedes
  complete : .ok none ∈ results → ∀ j ∈ S, j.id ∈ (claimedJobs results).map Job.id

theorem claimedJobs_after {w : Uuid} {t : Timestamp} {k : Job} (hr : r ∈ db.jobs.rows)
    (hk : k ∈ claimedJobs (claimResults queueId (db.updateJob r.id (Job.claim w t) (Job.claim_id w t)) calls)) :
    k.id ≠ r.id ∧ ∃ r' ∈ db.jobs.rows, ∃ w' t', k = r'.claim w' t' := by
  obtain ⟨r', hr', hs, w', t', rfl⟩ := claimedJobs_queued hk
  rcases (mem_rows_claim hr w t).mp hr' with rfl | ⟨hr', hid⟩
  · cases hs
  · exact ⟨hid, r', hr', w', t', rfl⟩

theorem drainedInOrder_cons {t : Timestamp} {w : Uuid} {results : List (Except SqlError (Option Job))}
    (hle : now ≤ t) (hfirst : ∀ k ∈ dueJobs db t queueId [], r.precedes k)
    (hlater : ∀ k ∈ claimedJobs results, k.id ≠ r.id ∧ ∃ r' ∈ db.jobs.rows, ∃ w' t', k = r'.claim w' t')
    (ih : DrainedInOrder ((dueJobs db now queueId []).filter fun j => decide (j.id ≠ r.id)) results) :
    DrainedInOrder (dueJobs db now queueId []) (.ok (some (r.claim w t)) :: results) := by
  refine ⟨List.nodup_cons.mpr ⟨fun hmem => ?_, ih.once⟩, ?_, fun hnone j hj => ?_⟩
  · obtain ⟨k, hk, hid⟩ := List.mem_map.mp hmem
    exact (hlater k hk).1 hid
  · have hsame : (claimedJobs results).filter (fun j => decide (j.id ∈ (dueJobs db now queueId []).map Job.id)) =
        (claimedJobs results).filter fun j =>
          decide (j.id ∈ ((dueJobs db now queueId []).filter fun j => decide (j.id ≠ r.id)).map Job.id) := by
      refine List.filter_congr fun k hk => ?_
      have hne := (hlater k hk).1
      simp only [List.mem_map, List.mem_filter, decide_eq_true_eq, decide_eq_decide]
      constructor
      · rintro ⟨j, hj, hid⟩
        exact ⟨j, ⟨hj, hid ▸ hne⟩, hid⟩
      · rintro ⟨j, ⟨hj, _⟩, hid⟩
        exact ⟨j, hj, hid⟩
    change (List.filter _ (r.claim w t :: claimedJobs results)).Pairwise Job.precedes
    rw [List.filter_cons, hsame]
    split
    · refine List.pairwise_cons.mpr ⟨fun k hk => ?_, ih.ordered⟩
      rw [← hsame] at hk
      obtain ⟨hk, hin⟩ := List.mem_filter.mp hk
      obtain ⟨_, r', hr', w', t', rfl⟩ := hlater k hk
      obtain ⟨j, hj, hid⟩ := List.mem_map.mp (decide_eq_true_eq.mp hin)
      obtain rfl : j = r' := List.inj_on_of_nodup_map db.jobs.nodup (mem_dueJobs_nil.mp hj).1 hr' hid
      exact hfirst j (dueJobs_mono hle hj)
    · exact ih.ordered
  · by_cases hid : j.id = r.id
    · exact List.mem_cons.mpr (.inl hid)
    · have hnone' := (List.mem_cons.mp hnone).resolve_left (by simp)
      exact List.mem_cons_of_mem _ (ih.complete hnone' j (List.mem_filter.mpr ⟨hj, by simpa using hid⟩))

theorem drainedInOrder (hnow : ∀ c ∈ calls, now ≤ c.1) :
    DrainedInOrder (dueJobs db now queueId []) (claimResults queueId db calls) := by
  induction calls generalizing db with
  | nil => exact ⟨List.nodup_nil, List.Pairwise.nil, fun h => by cases h⟩
  | cons c calls ih =>
    obtain ⟨t, w⟩ := c
    have hle : now ≤ t := hnow (t, w) List.mem_cons_self
    have ih := fun db => @ih db fun c hc => hnow c (List.mem_cons_of_mem _ hc)
    rw [claimResults]
    split
    · rename_i job db' hc
      obtain ⟨r, hr, rfl, hfirst, rfl⟩ := claimNextJob_first hc
      have hdrained := ih (db.updateJob r.id (Job.claim w t) (Job.claim_id w t))
      rw [dueJobs_claim] at hdrained
      exact drainedInOrder_cons hle hfirst (fun k hk => claimedJobs_after (mem_dueJobs_nil.mp hr).1 hk) hdrained
    · rename_i hc
      refine ⟨(ih db).once, (ih db).ordered, fun _ j hj => ?_⟩
      have hj := dueJobs_mono hle hj
      rw [dueJobs_of_claimNextJob_none hc] at hj
      cases hj
    · refine ⟨(ih db).once, (ih db).ordered, fun hnone => (ih db).complete ?_⟩
      exact (List.mem_cons.mp hnone).resolve_left (by simp)

end Drain

/-- What a claim that returns a job has done: the job came first, and no other row has changed. -/
structure ClaimsFirst (db : Db) (now : Timestamp) (queueId workerId : Uuid) (locked : List Uuid) (job : Job)
    (db' : Db) : Prop where
  first : ∃ r ∈ dueJobs db now queueId locked, job = r.claim workerId now ∧
    ∀ k ∈ dueJobs db now queueId locked, r.precedes k
  claimed : db'.jobs.find? job.id = some job
  others : ∀ k, k ≠ job.id → db'.jobs.find? k = db.jobs.find? k
  elsewhere : db' = { db with jobs := db'.jobs }

/-- The claims of a queue from a database and a time on. -/
structure ClaimsInOrder (db : Db) (now : Timestamp) (queueId : Uuid) : Prop where
  single : ∀ workerId locked job db', claimNextJob db now queueId workerId locked = .ok (some (job, db')) →
    ClaimsFirst db now queueId workerId locked job db'
  answers : ∀ workerId locked, (db.workers.find? workerId).isSome = true →
    (dueJobs db now queueId locked = [] ∧ claimNextJob db now queueId workerId locked = .ok none) ∨
      ∃ job db', claimNextJob db now queueId workerId locked = .ok (some (job, db'))
  drained : ∀ calls : List (Timestamp × Uuid), (∀ c ∈ calls, (db.workers.find? c.2).isSome = true) →
    (∀ c ∈ calls, ∀ r ∈ db.jobs.rows, claimable c.1 queueId r = claimable now queueId r) →
    ∃ order : List Job, order.Perm (dueJobs db now queueId []) ∧ order.Pairwise Job.precedes ∧
      claimResults queueId db calls = calls.mapIdx fun i c => .ok (order[i]?.map (Job.claim c.2 c.1))
  passing : ∀ calls : List (Timestamp × Uuid), (∀ c ∈ calls, now ≤ c.1) →
    DrainedInOrder (dueJobs db now queueId []) (claimResults queueId db calls)

/-- A claim returns a job of the highest priority and of these the oldest, and changes no other row; and the
jobs that are due are returned one after the other in this order, each once, and then none. -/
theorem claim_order (db : Db) (now : Timestamp) (queueId : Uuid) : ClaimsInOrder db now queueId where
  single workerId locked job db' h := by
    obtain ⟨r, hr, rfl, hfirst, rfl⟩ := claimNextJob_first h
    have hrow : db.jobs.find? r.id = some r := Table.find?_of_mem (mem_dueJobs.mp hr).1
    have hid : (r.claim workerId now).id = r.id := rfl
    refine ⟨⟨r, hr, rfl, hfirst⟩, ?_, fun k hk => ?_, rfl⟩
    · rw [hid, Db.updateJob, Db.updateJobs, Table.find?_update_key, if_pos rfl, hrow]
      rfl
    · rw [Db.updateJob, Db.updateJobs, Table.find?_update_key]
      exact if_neg hk
  answers workerId locked hw := by
    rw [claimNextJob_of_registered hw]
    cases hn : nextClaimable db now queueId locked with
    | none => exact .inl ⟨nextClaimable_eq_none_iff.mp hn, rfl⟩
    | some r => exact .inr ⟨_, _, rfl⟩
  drained _ hw hdue := claimResults_drain hw hdue
  passing _ hnow := drainedInOrder hnow

end JobScheduler
