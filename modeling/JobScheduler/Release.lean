import JobScheduler.Scheduler

namespace JobScheduler
open Relational Transition

/-! ## The statements of `on_job_completed` -/

/-- `SELECT dependent_job_id FROM job_dependencies WHERE dependency_job_id = $1`. -/
def dependentsOf (db : Db) (completedJobId : Uuid) : List Uuid :=
  (db.jobDependencies.rows.filter fun jd => decide (jd.dependencyJobId = completedJobId)).map
    JobDependency.dependentJobId

/-- `SELECT COUNT(*) FROM job_dependencies jd JOIN jobs j …`: the dependencies of a job that are not
completed. -/
def unsatisfied (db : Db) (jobId : Uuid) : ℕ :=
  db.jobDependencies.count fun jd => decide (jd.dependentJobId = jobId) &&
    (db.jobs.find? jd.dependencyJobId).any fun j => decide (j.status ≠ .completed)

/-- A call of `on_job_completed`: the statement it is at, and the jobs that come after. -/
inductive OnJobCompleted
  | idle
  | select (completedJobId : Uuid)
  | count (completedJobId jobId : Uuid) (rest : List Uuid)
  | update (completedJobId jobId : Uuid) (rest : List Uuid)
  | ok (completedJobId : Uuid)
  | error (completedJobId : Uuid)
  deriving DecidableEq, Repr

namespace OnJobCompleted

def loop (completedJobId : Uuid) : List Uuid → OnJobCompleted
  | [] => .ok completedJobId
  | jobId :: rest => .count completedJobId jobId rest

def about : OnJobCompleted → Option Uuid
  | .idle => none
  | .select c | .count c _ _ | .update c _ _ | .ok c | .error c => some c

def stillTreats (j : Uuid) : OnJobCompleted → Prop
  | .idle | .select _ | .error _ => True
  | .count _ jobId rest | .update _ jobId rest => j = jobId ∨ j ∈ rest
  | .ok _ => False

@[simp] theorem about_loop (c : Uuid) (jobs : List Uuid) : (loop c jobs).about = some c := by
  cases jobs <;> rfl

@[simp] theorem stillTreats_loop (c j : Uuid) (jobs : List Uuid) : (loop c jobs).stillTreats j ↔ j ∈ jobs := by
  cases jobs <;> simp [loop, stillTreats]

theorem loop_ne_update {c c' j : Uuid} {jobs rest : List Uuid} : loop c jobs ≠ .update c' j rest := by
  cases jobs <;> simp [loop]

end OnJobCompleted

/-- The database, and the calls of `on_job_completed` under way. -/
structure Releases where
  db : Db
  calls : ℕ → OnJobCompleted

/-- `setStatus` is any other write to the status of a job. A `SELECT` answers in any order. -/
inductive ReleaseLabel
  | setStatus (jobId : Uuid) (status : JobStatus)
  | onJobCompleted (call : ℕ) (completedJobId : Uuid)
  | select (call : ℕ) (dependents : Option (List Uuid))
  | count (call : ℕ) (ok : Bool)
  | update (call : ℕ) (now : Timestamp) (outcome : CommitOutcome)

def Db.jobIs (db : Db) (status : JobStatus) (jobId : Uuid) : Bool :=
  (db.jobs.find? jobId).any fun j => decide (j.status = status)

/-- Completed jobs stay completed, and only `on_job_completed` deals with pending jobs in order to
queue them. -/
def othersMaySet (db : Db) (jobId : Uuid) (status : JobStatus) : Bool :=
  !db.jobIs .completed jobId && decide (status ≠ .pending) &&
    !(db.jobIs .pending jobId && decide (status = .queued))

def Job.setStatus (status : JobStatus) (j : Job) : Job := { j with status := status }

theorem Job.setStatus_id (status : JobStatus) (j : Job) : (j.setStatus status).id = j.id := rfl

namespace Releases

def setCall (s : Releases) (call : ℕ) (phase : OnJobCompleted) : Releases :=
  { s with calls := Function.update s.calls call phase }

def next (s : Releases) : ReleaseLabel → Option Releases
  | .setStatus jobId status =>
    if othersMaySet s.db jobId status then
      some { s with db := s.db.updateJob jobId (Job.setStatus status) (Job.setStatus_id status) }
    else none
  | .onJobCompleted call completedJobId =>
    match s.calls call with
    | .idle =>
      if s.db.jobIs .completed completedJobId then some (s.setCall call (.select completedJobId)) else none
    | _ => none
  | .select call dependents =>
    match s.calls call, dependents with
    | .select c, none => some (s.setCall call (.error c))
    | .select c, some jobs =>
      if jobs.Perm (dependentsOf s.db c) then some (s.setCall call (.loop c jobs)) else none
    | _, _ => none
  | .count call ok =>
    match s.calls call with
    | .count c jobId rest =>
      if !ok then some (s.setCall call (.error c))
      else if unsatisfied s.db jobId = 0 then some (s.setCall call (.update c jobId rest))
      else some (s.setCall call (.loop c rest))
    | _ => none
  | .update call now outcome =>
    match s.calls call with
    | .update c jobId rest =>
      match outcome with
      | .acknowledged => some ({ s with db := releaseDependent s.db now jobId }.setCall call (.loop c rest))
      | .lostBefore => some (s.setCall call (.error c))
      | .lostAfter => some ({ s with db := releaseDependent s.db now jobId }.setCall call (.error c))
    | _ => none

end Releases

/-- Any jobs and any dependencies between existing jobs, and no call under way. -/
structure Releases.Initial (s : Releases) : Prop where
  foreignKey : ∀ d ∈ s.db.jobDependencies.rows, ∃ j, s.db.jobs.find? d.dependencyJobId = some j
  calls : ∀ c, s.calls c = .idle

def releases : System Releases ReleaseLabel := ⟨Releases.Initial, Releases.next⟩

def releasesJob (j : Uuid) (q : Releases × ReleaseLabel) : Bool :=
  q.1.db.jobIs .pending j && (q.1.next q.2).any fun s' => s'.db.jobIs .queued j

inductive Releases.Step (s : Releases) : ReleaseLabel → Releases → Prop
  | setStatus {jobId : Uuid} {status : JobStatus} (h : othersMaySet s.db jobId status = true) :
    Step s (.setStatus jobId status)
      { s with db := s.db.updateJob jobId (Job.setStatus status) (Job.setStatus_id status) }
  | started {call : ℕ} {c : Uuid} (hidle : s.calls call = .idle) (hc : s.db.jobIs .completed c = true) :
    Step s (.onJobCompleted call c) (s.setCall call (.select c))
  | failed {l : ReleaseLabel} {call : ℕ} {c : Uuid} (hc : (s.calls call).about = some c) :
    Step s l (s.setCall call (.error c))
  | selected {call : ℕ} {c : Uuid} {jobs : List Uuid} (hc : s.calls call = .select c)
    (hjobs : jobs.Perm (dependentsOf s.db c)) : Step s (.select call (some jobs)) (s.setCall call (.loop c jobs))
  | satisfied {call : ℕ} {c jobId : Uuid} {rest : List Uuid} (hc : s.calls call = .count c jobId rest)
    (hzero : unsatisfied s.db jobId = 0) : Step s (.count call true) (s.setCall call (.update c jobId rest))
  | passed {call : ℕ} {c jobId : Uuid} {rest : List Uuid} (hc : s.calls call = .count c jobId rest)
    (hopen : unsatisfied s.db jobId ≠ 0) : Step s (.count call true) (s.setCall call (.loop c rest))
  | released {call : ℕ} {c jobId : Uuid} {rest : List Uuid} {now : Timestamp} {phase : OnJobCompleted}
    {outcome : CommitOutcome} (hc : s.calls call = .update c jobId rest)
    (hphase : phase = .loop c rest ∨ phase = .error c) :
    Step s (.update call now outcome) ({ s with db := releaseDependent s.db now jobId }.setCall call phase)

section Steps
variable {s s' : Releases} {l : ReleaseLabel} {db : Db} {j : Uuid}

theorem next_step (hn : s.next l = some s') : s.Step l s' := by
  cases l with
  | setStatus jobId status =>
    simp only [Releases.next] at hn
    split at hn <;> cases hn
    exact .setStatus ‹_›
  | onJobCompleted call c =>
    simp only [Releases.next] at hn
    split at hn
    · split at hn <;> cases hn
      exact .started ‹_› ‹_›
    · cases hn
  | select call dependents =>
    simp only [Releases.next] at hn
    split at hn
    · cases hn
      exact .failed (by simp [*, OnJobCompleted.about])
    · split at hn <;> cases hn
      exact .selected ‹_› ‹_›
    · cases hn
  | count call ok =>
    simp only [Releases.next] at hn
    split at hn
    · rename_i c jobId rest hc
      cases ok with
      | false =>
        cases hn
        exact .failed (by simp [hc, OnJobCompleted.about])
      | true =>
        simp only [Bool.not_true, Bool.false_eq_true, if_false] at hn
        split at hn <;> cases hn
        · exact .satisfied hc ‹_›
        · exact .passed hc ‹_›
    · cases hn
  | update call now outcome =>
    simp only [Releases.next] at hn
    split at hn
    · rename_i c jobId rest hc
      cases outcome <;> cases hn
      · exact .released hc (.inl rfl)
      · exact .failed (by simp [hc, OnJobCompleted.about])
      · exact .released hc (.inr rfl)
    · cases hn

/-- What every step keeps of the database. -/
structure Releases.Frame (s s' : Releases) : Prop where
  edges : s'.db.jobDependencies = s.db.jobDependencies
  jobs : ∀ j r, s.db.jobs.find? j = some r → ∃ r', s'.db.jobs.find? j = some r'
  completed : ∀ j, s.db.jobIs .completed j = true → s'.db.jobIs .completed j = true
  pending : ∀ j, s'.db.jobIs .pending j = true → s.db.jobIs .pending j = true

theorem Releases.Frame.refl_of_db (h : s'.db = s.db) : s.Frame s' :=
  ⟨by rw [h], fun _ r hr => ⟨r, by rw [h]; exact hr⟩, by simp [h], by simp [h]⟩

theorem Releases.Frame.of_update {p : Job → Bool} {f : Job → Job} {hf : ∀ r, (f r).id = r.id}
    (h : s'.db = s.db.updateJobs p f hf)
    (hp : ∀ j r, s.db.jobs.find? j = some r → p r = true → r.status ≠ .completed ∧ (f r).status ≠ .pending) :
    s.Frame s' := by
  have hfind : ∀ j, s'.db.jobs.find? j = (s.db.jobs.find? j).map fun r => if p r then f r else r := by
    intro j
    rw [h, Db.updateJobs, Table.find?_update]
  refine ⟨by rw [h]; rfl, fun j r hr => ⟨_, by rw [hfind, hr]; rfl⟩, fun j hj => ?_, fun j hj => ?_⟩
  · obtain ⟨r, hr, hs⟩ := Option.any_eq_true _ _ |>.mp hj
    have hnot : ¬p r = true := fun hpr => (hp j r hr hpr).1 (by simpa using hs)
    simp only [Db.jobIs, hfind, hr, Option.map_some, Option.any_some, if_neg hnot, hs]
  · obtain ⟨r', hr', hs⟩ := Option.any_eq_true _ _ |>.mp hj
    rw [hfind] at hr'
    obtain ⟨r, hr, rfl⟩ := Option.map_eq_some_iff.mp hr'
    have hnot : ¬p r = true := by
      intro hpr
      rw [if_pos hpr] at hs
      exact (hp j r hr hpr).2 (by simpa using hs)
    rw [if_neg hnot] at hs
    simp only [Db.jobIs, hr, Option.any_some, hs]

theorem frame_release (now : Timestamp) (jobId : Uuid) (h : s'.db = releaseDependent s.db now jobId) :
    s.Frame s' := by
  refine .of_update h fun j r _ hp => ?_
  simp only [Bool.and_eq_true, decide_eq_true_eq] at hp
  exact ⟨by simp [hp.2], by simp [Job.reQueue]⟩

theorem Releases.Step.frame (h : s.Step l s') : s.Frame s' := by
  cases h with
  | @setStatus jobId status h =>
    simp only [othersMaySet, Bool.and_eq_true, Bool.not_eq_true', decide_eq_true_eq] at h
    refine .of_update rfl fun j r hr hp => ⟨fun hs => ?_, h.1.2⟩
    obtain rfl : r.id = jobId := by simpa using hp
    rw [Db.jobIs, Table.find?_of_mem (Table.mem_of_find? hr)] at h
    simp [hs] at h
  | released _ _ => exact frame_release _ _ rfl
  | _ => exact .refl_of_db rfl

/-- Only the `UPDATE` of `on_job_completed` queues a pending job. -/
theorem Releases.Step.of_releases (h : s.Step l s') (hp : s.db.jobIs .pending j = true)
    (hq : s'.db.jobIs .queued j = true) : ∃ call c rest, s.calls call = .update c j rest := by
  obtain ⟨r, hr, hs⟩ := Option.any_eq_true _ _ |>.mp hp
  obtain ⟨r', hr', hs'⟩ := Option.any_eq_true _ _ |>.mp hq
  simp only [decide_eq_true_eq] at hs hs'
  -- a step that leaves the row as it is leaves it pending
  have hsame : s'.db.jobs.find? j ≠ some r := by
    intro hsame
    rw [hsame] at hr'
    cases hr'
    cases hs.symm.trans hs'
  cases h with
  | @setStatus jobId status h =>
    dsimp only [Db.updateJob, Db.updateJobs] at hr' hsame
    rw [Table.find?_update_key, hr] at hsame
    rw [Table.find?_update_key] at hr'
    split at hr'
    · rename_i hj
      subst hj
      rw [hr] at hr'
      cases hr'
      have hst : status = .queued := hs'
      simp [othersMaySet, hp, hst] at h
    · rename_i hj
      exact absurd (if_neg hj) hsame
  | @released call c jobId rest now phase outcome hc _ =>
    refine ⟨call, c, rest, ?_⟩
    suffices jobId = j by rwa [← this]
    by_contra hne
    apply hsame
    dsimp only [Releases.setCall, releaseDependent, Db.updateJobs]
    rw [Table.find?_update, hr, Option.map_some, Table.key_of_find? hr]
    simp [Ne.symm hne]
  | _ => exact absurd hr hsame

/-! ## No early and no lost wake-up -/

theorem mem_dependentsOf {d : JobDependency} (hd : d ∈ db.jobDependencies.rows) :
    d.dependentJobId ∈ dependentsOf db d.dependencyJobId :=
  List.mem_map_of_mem (List.mem_filter.mpr ⟨hd, decide_eq_true rfl⟩)

theorem unsatisfied_eq_zero_iff
    (hfk : ∀ d ∈ db.jobDependencies.rows, ∃ j, db.jobs.find? d.dependencyJobId = some j) :
    unsatisfied db j = 0 ↔ ∀ d ∈ db.jobDependencies.rows, d.dependentJobId = j →
      db.jobIs .completed d.dependencyJobId = true := by
  simp only [unsatisfied, Table.count, List.countP_eq_zero, Bool.and_eq_true, decide_eq_true_eq, not_and]
  refine forall₂_congr fun d hd => imp_congr_right fun _ => ?_
  obtain ⟨r, hr⟩ := hfk d hd
  simp [Db.jobIs, hr]

theorem not_pending_of_queued (h : db.jobIs .queued j = true) : db.jobIs .pending j ≠ true := by
  obtain ⟨r, hr, hs⟩ := Option.any_eq_true _ _ |>.mp h
  simp only [decide_eq_true_eq] at hs
  simp [Db.jobIs, hr, hs]

theorem not_pending_release (now : Timestamp) (j : Uuid) :
    (releaseDependent db now j).jobIs .pending j ≠ true := by
  intro h
  obtain ⟨r', hr', hs⟩ := Option.any_eq_true _ _ |>.mp h
  rw [releaseDependent, Db.updateJobs, Table.find?_update] at hr'
  obtain ⟨r, hr, rfl⟩ := Option.map_eq_some_iff.mp hr'
  split at hs
  · simp [Job.reQueue] at hs
  · rename_i hnot
    exact hnot (by simpa [Table.key_of_find? hr] using hs)

/-- What ties the calls to the database. A pending job waits for a dependency whose calls all have it
still before them: for the last one to be completed. -/
structure Releases.Inv (s : Releases) : Prop where
  foreignKey : ∀ d ∈ s.db.jobDependencies.rows, ∃ j, s.db.jobs.find? d.dependencyJobId = some j
  about : ∀ call c, (s.calls call).about = some c → s.db.jobIs .completed c = true
  update : ∀ call c j rest, s.calls call = .update c j rest →
    ∀ d ∈ s.db.jobDependencies.rows, d.dependentJobId = j → s.db.jobIs .completed d.dependencyJobId = true
  waiting : ∀ j, s.db.jobIs .pending j = true → (∃ d ∈ s.db.jobDependencies.rows, d.dependentJobId = j) →
    ∃ d ∈ s.db.jobDependencies.rows, d.dependentJobId = j ∧
      ∀ call, (s.calls call).about = some d.dependencyJobId → (s.calls call).stillTreats j

theorem Releases.Initial.inv (h : s.Initial) : s.Inv := by
  refine ⟨h.foreignKey, fun call c hc => ?_, fun call c j rest hc => ?_, fun j _ ⟨d, hd, hj⟩ => ?_⟩
  · simp [h.calls call, OnJobCompleted.about] at hc
  · simp [h.calls call] at hc
  · refine ⟨d, hd, hj, fun call _ => ?_⟩
    simp [h.calls call, OnJobCompleted.stillTreats]

/-- A dependency that is not completed has no calls, so a job that waits for it waits. -/
theorem Releases.Inv.waiting_of_open (h : s.Inv) {d : JobDependency}
    (hopen : s.db.jobIs .completed d.dependencyJobId ≠ true) :
    ∀ call, (s.calls call).about = some d.dependencyJobId → (s.calls call).stillTreats d.dependentJobId :=
  fun call hc => absurd (h.about call _ hc) hopen

theorem Releases.Inv.of_call (h : s.Inv) (hf : s.Frame s') {call : ℕ} {phase : OnJobCompleted}
    (hcalls : s'.calls = Function.update s.calls call phase)
    (habout : ∀ c, phase.about = some c → s.db.jobIs .completed c = true)
    (hupdate : ∀ c j rest, phase = .update c j rest →
      ∀ d ∈ s.db.jobDependencies.rows, d.dependentJobId = j → s.db.jobIs .completed d.dependencyJobId = true)
    (hwaiting : ∀ j, s'.db.jobIs .pending j = true → ∀ d ∈ s.db.jobDependencies.rows, d.dependentJobId = j →
      (∀ call, (s.calls call).about = some d.dependencyJobId → (s.calls call).stillTreats j) →
      ∃ d ∈ s.db.jobDependencies.rows, d.dependentJobId = j ∧
        (phase.about = some d.dependencyJobId → phase.stillTreats j) ∧
        ∀ call, (s.calls call).about = some d.dependencyJobId → (s.calls call).stillTreats j) : s'.Inv := by
  refine ⟨fun d hd => ?_, fun call' c hc => ?_, fun call' c j rest hc d hd hj => ?_, fun j hj hdep => ?_⟩
  · rw [hf.edges] at hd
    obtain ⟨r, hr⟩ := h.foreignKey d hd
    exact hf.jobs _ r hr
  · apply hf.completed
    rw [hcalls, Function.update_apply] at hc
    split at hc
    · exact habout c hc
    · exact h.about call' c hc
  · apply hf.completed
    rw [hf.edges] at hd
    rw [hcalls, Function.update_apply] at hc
    split at hc
    · exact hupdate c j rest hc d hd hj
    · exact h.update call' c j rest hc d hd hj
  · rw [hf.edges] at hdep ⊢
    obtain ⟨d, hd, hdj, hall⟩ := h.waiting j (hf.pending j hj) hdep
    obtain ⟨d, hd, hdj, hphase, hall⟩ := hwaiting j hj d hd hdj hall
    refine ⟨d, hd, hdj, fun call' hc => ?_⟩
    rw [hcalls, Function.update_apply] at hc ⊢
    split at hc
    · rename_i he
      rw [if_pos he]
      exact hphase hc
    · rename_i he
      rw [if_neg he]
      exact hall call' hc

theorem Releases.Inv.step (h : s.Inv) (hs : s.Step l s') : s'.Inv := by
  have hf := hs.frame
  cases hs with
  | setStatus _ =>
    have hcalls : s.calls = Function.update s.calls 0 (s.calls 0) := (Function.update_eq_self _ _).symm
    refine h.of_call hf hcalls (h.about 0) (h.update 0) fun j _ d hd hdj hall => ⟨d, hd, hdj, hall 0, hall⟩
  | started _ hc =>
    refine h.of_call hf rfl (fun c' hc' => ?_) (fun _ _ _ hphase => nomatch hphase) fun j _ d hd hdj hall =>
      ⟨d, hd, hdj, fun _ => trivial, hall⟩
    cases hc'
    exact hc
  | @failed _ call c hc =>
    refine h.of_call hf rfl (fun c' hc' => ?_) (fun _ _ _ hphase => nomatch hphase) fun j _ d hd hdj hall =>
      ⟨d, hd, hdj, fun _ => trivial, hall⟩
    cases hc'
    exact h.about call c hc
  | @selected call c jobs hc hjobs =>
    refine h.of_call hf rfl (fun c' hc' => ?_) (fun _ _ _ hphase => absurd hphase OnJobCompleted.loop_ne_update)
      fun j _ d hd hdj hall => ⟨d, hd, hdj, fun hc' => ?_, hall⟩
    · rw [OnJobCompleted.about_loop] at hc'
      exact h.about call c' (by rwa [hc])
    · rw [OnJobCompleted.about_loop] at hc'
      rw [OnJobCompleted.stillTreats_loop, hjobs.mem_iff, ← hdj, Option.some.inj hc']
      exact mem_dependentsOf hd
  | @satisfied call c jobId rest hc hzero =>
    refine h.of_call hf rfl (fun c' hc' => ?_) (fun c' j' rest' hphase => ?_)
      fun j _ d hd hdj hall => ⟨d, hd, hdj, fun hc' => ?_, hall⟩
    · exact h.about call c' (by rwa [hc])
    · cases hphase
      exact (unsatisfied_eq_zero_iff h.foreignKey).mp hzero
    · have hstill := hall call (by rwa [hc])
      rwa [hc] at hstill
  | @passed call c jobId rest hc hopen =>
    refine h.of_call hf rfl (fun c' hc' => ?_) (fun _ _ _ hphase => absurd hphase OnJobCompleted.loop_ne_update)
      fun j _ d hd hdj hall => ?_
    · rw [OnJobCompleted.about_loop] at hc'
      exact h.about call c' (by rwa [hc])
    · have hdone : s.db.jobIs .completed c = true := h.about call c (by rw [hc]; rfl)
      by_cases hj : j = jobId
      · -- this call passes `j`, which now waits for a dependency that the count has seen open
        subst hj
        have hex := mt (unsatisfied_eq_zero_iff h.foreignKey).mpr hopen
        push Not at hex
        obtain ⟨d', hd', hdj', hnot⟩ := hex
        refine ⟨d', hd', hdj', fun hc' => ?_, ?_⟩
        · rw [OnJobCompleted.about_loop] at hc'
          exact absurd (Option.some.inj hc' ▸ hdone) hnot
        · have hwait := h.waiting_of_open hnot
          rwa [hdj'] at hwait
      · refine ⟨d, hd, hdj, fun hc' => ?_, hall⟩
        rw [OnJobCompleted.about_loop] at hc'
        have hstill := hall call (by rw [hc]; exact hc')
        rw [hc] at hstill
        exact (OnJobCompleted.stillTreats_loop _ _ _).mpr (hstill.resolve_left hj)
  | @released call c jobId rest now phase outcome hc hphase =>
    have habout : phase.about = some c := by
      rcases hphase with rfl | rfl
      · exact OnJobCompleted.about_loop c rest
      · rfl
    refine h.of_call hf rfl (fun c' hc' => ?_) (fun _ _ _ hp => ?_) fun j hj d hd hdj hall =>
      ⟨d, hd, hdj, fun hc' => ?_, hall⟩
    · exact h.about call c' (by rw [hc, ← hc', habout]; rfl)
    · rcases hphase with rfl | rfl
      · exact absurd hp OnJobCompleted.loop_ne_update
      · cases hp
    · have hne : j ≠ jobId := by
        rintro rfl
        exact not_pending_release now j hj
      have hstill := hall call (by rw [hc, ← hc', habout]; rfl)
      rw [hc] at hstill
      rcases hphase with rfl | rfl
      · exact (OnJobCompleted.stillTreats_loop _ _ _).mpr (hstill.resolve_left hne)
      · trivial

end Steps

/-! ## Runs -/

section Runs
variable {h : List (Releases × ReleaseLabel)} {s : Releases}

theorem inv_of_run (hr : Run releases (fun _ _ => True) h s) : s.Inv :=
  Run.invariant (I := fun _ s => s.Inv) (fun _ hi => Releases.Initial.inv hi)
    (fun _ _ _ _ _ hs _ hn => hs.step (next_step hn)) hr

/-- A job that was released is not pending any more, and is not released again. -/
theorem released_once (j : Uuid) (hr : Run releases (fun _ _ => True) h s) :
    h.countP (releasesJob j) ≤ 1 ∧ (0 < h.countP (releasesJob j) → s.db.jobIs .pending j ≠ true) := by
  refine Run.invariant (I := fun h s => h.countP (releasesJob j) ≤ 1 ∧
    (0 < h.countP (releasesJob j) → s.db.jobIs .pending j ≠ true)) (by simp) ?_ hr
  intro h s l s' _ ⟨hle, hpos⟩ _ hn
  have hn : s.next l = some s' := hn
  have hframe := (next_step hn).frame
  by_cases hrel : releasesJob j (s, l) = true
  · obtain ⟨hpend, hqueued⟩ := Bool.and_eq_true_iff.mp hrel
    have hzero : h.countP (releasesJob j) = 0 := by
      by_contra hne
      exact hpos (Nat.pos_of_ne_zero hne) hpend
    rw [List.countP_cons_of_pos hrel, hzero]
    refine ⟨le_rfl, fun _ hp => ?_⟩
    simp only [hn, Option.any_some] at hqueued
    exact not_pending_of_queued hqueued hp
  · rw [List.countP_cons_of_neg hrel]
    exact ⟨hle, fun h0 hp => hpos h0 (hframe.pending j hp)⟩

/-- A pending job is released only when all its dependencies are completed, and at most once; and once
they are, and a call for each of them has gone through, it is not pending any more. -/
theorem workflow_release (hr : Run releases (fun _ _ => True) h s) :
    (∀ q ∈ h, ∀ j, releasesJob j q = true → ∀ d ∈ q.1.db.jobDependencies.rows, d.dependentJobId = j →
      q.1.db.jobIs .completed d.dependencyJobId = true) ∧
    (∀ j, h.countP (releasesJob j) ≤ 1) ∧
    ∀ j, (∃ d ∈ s.db.jobDependencies.rows, d.dependentJobId = j) →
      (∀ d ∈ s.db.jobDependencies.rows, d.dependentJobId = j →
        s.db.jobIs .completed d.dependencyJobId = true ∧ ∃ call, s.calls call = .ok d.dependencyJobId) →
      s.db.jobIs .pending j ≠ true := by
  refine ⟨fun q hq j hrel d hd hdj => ?_, fun j => (released_once j hr).1, fun j hdep hall hp => ?_⟩
  · obtain ⟨later, earlier, rfl⟩ := List.append_of_mem hq
    obtain ⟨hrun, -, s₁, hn⟩ := hr.split
    obtain ⟨hpend, hqueued⟩ := Bool.and_eq_true_iff.mp hrel
    have hn : q.1.next q.2 = some s₁ := hn
    simp only [hn, Option.any_some] at hqueued
    obtain ⟨call, c, rest, hc⟩ := (next_step hn).of_releases hpend hqueued
    exact (inv_of_run hrun).update call c j rest hc d hd hdj
  · obtain ⟨d, hd, hdj, hwait⟩ := (inv_of_run hr).waiting j hp hdep
    obtain ⟨-, call, hc⟩ := hall d hd hdj
    have hstill := hwait call (by rw [hc]; rfl)
    rw [hc] at hstill
    exact hstill

end Runs

/-! Job 102 waits for the jobs 100 and 101. -/

namespace Sample

def workflowJob (id : Uuid) (status : JobStatus) : Job :=
  ⟨id, 10, 20, .immediate, "send", .null, status, .normal, 0, 3, none, none, none, none, none, none, 7,
    none, none, 0, 0, none⟩

def workflow : Releases where
  db := { db with
    jobs := ⟨[workflowJob 100 .running, workflowJob 101 .running, workflowJob 102 .pending], by decide⟩
    jobDependencies := ⟨[⟨1, 102, 100⟩, ⟨2, 102, 101⟩], by decide⟩ }
  calls := fun _ => .idle

theorem workflow_initial : workflow.Initial := by
  refine ⟨fun d hd => ?_, fun _ => rfl⟩
  simp only [workflow, List.mem_cons, List.not_mem_nil, or_false] at hd
  rcases hd with rfl | rfl
  · exact ⟨workflowJob 100 .running, rfl⟩
  · exact ⟨workflowJob 101 .running, rfl⟩

end Sample

/-- Two calls that overlap: both count after both jobs are completed, and one of them releases. -/
theorem workflow_release_sample :
    ∃ h s, Run releases (fun _ _ => True) h s ∧ h.countP (releasesJob 102) ≤ 1 ∧
      s.db.jobIs .pending 102 ≠ true := by
  obtain ⟨h, s, hrun, hp⟩ := Run.exists_of_exec (M := releases) Sample.workflow_initial
    [.setStatus 100 .completed, .onJobCompleted 0 100, .select 0 (some [102]), .setStatus 101 .completed,
      .onJobCompleted 1 101, .select 1 (some [102]), .count 0 true, .count 1 true,
      .update 0 5 .acknowledged, .update 1 6 .acknowledged]
    (fun _ _ => true)
    (fun _ s => (s.db.jobDependencies.rows.any fun d => d.dependentJobId = 102) &&
      s.db.jobDependencies.rows.all fun d => s.db.jobIs .completed d.dependencyJobId &&
        (List.range 2).any fun call => decide (s.calls call = .ok d.dependencyJobId))
    (by decide)
  simp only [Bool.and_eq_true, List.any_eq_true, List.all_eq_true, decide_eq_true_eq] at hp
  obtain ⟨hdep, hall⟩ := hp
  have hrelease := workflow_release (hrun.mono fun _ _ _ => trivial)
  refine ⟨h, s, hrun.mono fun _ _ _ => trivial, hrelease.2.1 102, hrelease.2.2 102 hdep fun d hd _ => ?_⟩
  obtain ⟨hdone, call, _, hok⟩ := hall d hd
  exact ⟨hdone, call, hok⟩

end JobScheduler
