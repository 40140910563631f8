import JobScheduler.StateMachine
import JobScheduler.Frame

namespace JobScheduler
open Relational Transition

def Sys.completed (s : Sys) (j : Uuid) : Bool := (s.db.jobs.find? j).any fun r => r.status = .completed

/-- A step that moves a job to `claimed` finds every job it was registered to depend on completed. -/
def GatedClaim (s s' : Sys) : Prop :=
  ∀ j r r', s.db.jobs.find? j = some r → s'.db.jobs.find? j = some r' →
    r.status ≠ .claimed → r'.status = .claimed →
    ∀ d ∈ s.db.jobDependencies.rows, d.dependentJobId = j → s.completed d.dependencyJobId = true

/-- `create_dependency` is called only for a dependency that is completed already, or for a
dependent job that is. -/
def Sys.registersClosed (s : Sys) : Label → Bool
  | .createDependency _ dependent dependency => s.completed dependency || s.completed dependent
  | _ => true

/-- A claim finds the dependencies of all jobs that are due in its queue completed. -/
def Sys.claimsClosed (s : Sys) : Label → Bool
  | .claim _ queueId _ => s.db.jobs.rows.all fun r => !claimable s.now queueId r ||
      s.db.jobDependencies.rows.all fun d => decide (d.dependentJobId ≠ r.id) || s.completed d.dependencyJobId
  | _ => true

def Sys.DependenciesClosed (s : Sys) : Prop :=
  ∀ d ∈ s.db.jobDependencies.rows,
    s.completed d.dependencyJobId = true ∨ s.completed d.dependentJobId = true

section Steps
variable {cron : Cron} {s s' : Sys} {l : Label}

theorem completed_next (h : Reachable (scheduler cron) (fun s l => s.orderly l) s)
    (hok : s.orderly l = true) (hn : s.next cron l = some s') {j : Uuid}
    (hj : s.completed j = true) : s'.completed j = true := by
  obtain ⟨r, hr, hs⟩ := Option.any_eq_true _ _ |>.mp hj
  obtain ⟨r', hr', hm⟩ := legalMove_of_reachable h hok hn hr
  have hs' := completed_of_legalMove hm (by simpa using hs)
  simp [Sys.completed, hr', hs']

theorem DependenciesClosed.next (h : Reachable (scheduler cron) (fun s l => s.orderly l) s)
    (hok : s.orderly l = true) (hreg : s.registersClosed l = true) (hn : s.next cron l = some s')
    (hc : s.DependenciesClosed) : s'.DependenciesClosed := by
  intro d hd
  have hclosed : s.completed d.dependencyJobId = true ∨ s.completed d.dependentJobId = true := by
    rcases (next_frame hn).dependencies d hd with hold | ⟨id, rfl⟩
    · exact hc d hold
    · simpa [Sys.registersClosed] using hreg
  exact hclosed.imp (completed_next h hok hn) (completed_next h hok hn)

theorem claimsClosed_claim {w queueId : Uuid} {locked : List Uuid} :
    s.claimsClosed (.claim w queueId locked) = true ↔
      ∀ r ∈ s.db.jobs.rows, claimable s.now queueId r = true →
        ∀ d ∈ s.db.jobDependencies.rows, d.dependentJobId = r.id → s.completed d.dependencyJobId = true := by
  simp only [Sys.claimsClosed, List.all_eq_true, Bool.or_eq_true, Bool.not_eq_true', decide_eq_true_eq,
    Decidable.or_iff_not_imp_left, Bool.not_eq_false, not_not]

theorem claimsClosed_of_dependenciesClosed (hc : s.DependenciesClosed) : s.claimsClosed l = true := by
  cases l with
  | claim w queueId locked =>
    refine claimsClosed_claim.mpr fun r hr hdue d hd hj => (hc d hd).resolve_right fun hdone => ?_
    rw [hj] at hdone
    simp [Sys.completed, Table.find?_of_mem hr, claimable_status hdue] at hdone
  | _ => rfl

theorem gated_of_claimsClosed (hclosed : s.claimsClosed l = true) (hn : s.next cron l = some s') :
    GatedClaim s s' := by
  intro j r r' hr hr' hs hs' d hd hj
  obtain ⟨w, locked, rfl, _, hdue⟩ := (next_effect j hn).claim_of_claimed hr hs hr' hs'
  exact claimsClosed_claim.mp hclosed r (Table.mem_of_find? hr) hdue d hd (hj.trans (Table.key_of_find? hr).symm)

end Steps

section Runs
variable {cron : Cron} {s s' : Sys} {l : Label}

theorem orderly_of_registersClosed
    (h : Reachable (scheduler cron) (fun s l => s.orderly l && s.registersClosed l) s) :
    Reachable (scheduler cron) (fun s l => s.orderly l) s :=
  h.mono fun _ _ hl => (Bool.and_eq_true_iff.mp hl).1

theorem dependenciesClosed_of_reachable
    (h : Reachable (scheduler cron) (fun s l => s.orderly l && s.registersClosed l) s) : s.DependenciesClosed := by
  refine Reachable.invariant (I := Sys.DependenciesClosed) ?_ ?_ h
  · intro s (hs : s.Initial) d hd
    simp [hs.jobDependencies] at hd
  · intro s l s' hr hc hl hn
    obtain ⟨hord, hreg⟩ := Bool.and_eq_true_iff.mp hl
    exact DependenciesClosed.next (orderly_of_registersClosed hr) hord hreg hn hc

/-- No job is claimed while a dependency of it is open, in runs that register no open dependency, and in any
others by the claims that find no open dependency among the jobs due in their queue. -/
theorem claims_gated
    (h : Reachable (scheduler cron) (fun s l => s.orderly l && s.registersClosed l) s ∨
      Reachable (scheduler cron) (fun _ _ => True) s ∧ s.claimsClosed l = true)
    (hn : s.next cron l = some s') : GatedClaim s s' := by
  rcases h with h | ⟨_, hclosed⟩
  · exact gated_of_claimsClosed (claimsClosed_of_dependenciesClosed (dependenciesClosed_of_reachable h)) hn
  · exact gated_of_claimsClosed hclosed hn

/-- A job that depends on one that is still queued is promoted and claimed when that one is completed. -/
theorem claims_gated_sample :
    ∃ s s', Reachable (scheduler Sample.cron) (fun _ _ => True) s ∧ s.claimsClosed (.claim 1 10 []) = true ∧
      s.next Sample.cron (.claim 1 10 []) = some s' ∧
      ((s'.db.jobs.find? 101).any fun r => r.status = .claimed) = true ∧
      (s.db.jobDependencies.rows.any fun d => d.dependentJobId = 101) = true ∧ GatedClaim s s' := by
  obtain ⟨_, s, hrun, hp⟩ := Run.exists_of_exec (M := scheduler Sample.cron) Sample.sys_initial
    [.register 1 "a" "h1", .createJob 100 7 Sample.queue (Sample.request 3),
      .createJob 101 8 Sample.queue { Sample.request 3 with jobType := .delayed, scheduledAt := some 50 },
      .createDependency 1 101 100, .claim 1 10 [], .markRunning 0 0 .acknowledged,
      .finish 0 (Sample.finish (.ok ()) 1), .tick 60, .reQueueScheduledJobs]
    (fun _ _ => true)
    (fun _ s => (s.db.jobDependencies.rows.any fun d => d.dependentJobId = 101) &&
      s.claimsClosed (.claim 1 10 []) &&
      (s.next Sample.cron (.claim 1 10 [])).any fun s' =>
        (s'.db.jobs.find? 101).any fun r => r.status = .claimed)
    (by decide)
  obtain ⟨hleft, hnext⟩ := Bool.and_eq_true_iff.mp hp
  obtain ⟨hdep, hclosed⟩ := Bool.and_eq_true_iff.mp hleft
  obtain ⟨s', hn, hs'⟩ := Option.any_eq_true _ _ |>.mp hnext
  have hreach := hrun.reachable.mono fun _ _ _ => trivial
  exact ⟨s, s', hreach, hclosed, hn, hs', hdep, claims_gated (.inr ⟨hreach, hclosed⟩) hn⟩

/-- Without that condition nothing gates a claim: job 101 depends on job 100, which is still queued,
and is claimed first. -/
theorem claim_of_blocked_job :
    ¬∀ (cron : Cron) (s s' : Sys) (l : Label), Reachable (scheduler cron) (fun s l => s.orderly l) s →
      s.orderly l = true → s.next cron l = some s' → GatedClaim s s' := by
  intro hall
  obtain ⟨_, s, hrun, hp⟩ := Run.exists_of_exec (M := scheduler Sample.cron) Sample.sys_initial
    [.register 1 "a" "h1", .createJob 100 7 Sample.queue (Sample.request 3),
      .createJob 101 8 Sample.queue { Sample.request 3 with priority := some .high },
      .createDependency 1 101 100]
    Sys.orderly
    (fun _ s => ((s.db.jobs.find? 101).any fun r => r.status = .queued) && !s.completed 100 &&
      (s.db.jobDependencies.rows.any fun d => d.dependentJobId = 101 && d.dependencyJobId = 100) &&
      (s.next Sample.cron (.claim 1 10 [])).any fun s' =>
        (s'.db.jobs.find? 101).any fun r => r.status = .claimed)
    (by decide)
  simp only [Bool.and_eq_true, Option.any_eq_true, List.any_eq_true, decide_eq_true_eq,
    Bool.not_eq_true'] at hp
  obtain ⟨⟨⟨⟨r, hr, hs⟩, hopen⟩, d, hd, hdep, hon⟩, s', hn, r', hr', hs'⟩ := hp
  have hdone := hall _ s s' _ hrun.reachable rfl hn 101 r r' hr hr' (by simp [hs]) hs' d hd hdep
  rw [hon, hopen] at hdone
  cases hdone

end Runs

end JobScheduler
