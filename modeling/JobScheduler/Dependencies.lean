import Mathlib.Data.Fintype.Card
import Mathlib.Logic.Relation
import JobScheduler.Frame
import JobScheduler.Authorization

namespace Acyclic
open Relation

variable {α : Type} {r r' : α → α → Prop} {a b : α}

def IsAcyclic (r : α → α → Prop) : Prop := ∀ a, ¬TransGen r a a

def addEdge (r : α → α → Prop) (a b : α) (x y : α) : Prop := r x y ∨ x = a ∧ y = b

theorem IsAcyclic.mono (h : IsAcyclic r') (hle : ∀ x y, r x y → r' x y) : IsAcyclic r :=
  fun a hp => h a (TransGen.mono hle _ _ hp)

theorem IsAcyclic.irrefl (h : IsAcyclic r) (a : α) : ¬r a a := fun he => h a (.single he)

theorem path_addEdge {x y : α} (h : TransGen (addEdge r a b) x y) :
    TransGen r x y ∨ ReflTransGen r x a ∧ ReflTransGen r b y := by
  induction h with
  | single he =>
    rcases he with he | ⟨rfl, rfl⟩
    · exact .inl (.single he)
    · exact .inr ⟨.refl, .refl⟩
  | tail _ he ih =>
    rcases he with he | ⟨rfl, rfl⟩
    · rcases ih with ih | ⟨hx, hb⟩
      · exact .inl (ih.tail he)
      · exact .inr ⟨hx, hb.tail he⟩
    · refine .inr ⟨?_, .refl⟩
      rcases ih with ih | ⟨hx, _⟩
      · exact ih.to_reflTransGen
      · exact hx

/-- A new edge closes a cycle exactly where a path led back already. -/
theorem isAcyclic_addEdge_iff (hr : IsAcyclic r) : IsAcyclic (addEdge r a b) ↔ ¬ReflTransGen r b a := by
  constructor
  · intro h hback
    have hold : ReflTransGen (addEdge r a b) b a := ReflTransGen.mono (fun _ _ he => .inl he) _ _ hback
    exact h a (.head' (.inr ⟨rfl, rfl⟩) hold)
  · intro hback x hx
    rcases path_addEdge hx with hx | ⟨hxa, hbx⟩
    · exact hr x hx
    · exact hback (hbx.trans hxa)

/-- In every finite set that is not empty something waits for nothing in the set. -/
theorem IsAcyclic.exists_free (h : IsAcyclic r) {S : Finset α} (hS : S.Nonempty) :
    ∃ a ∈ S, ∀ b ∈ S, ¬r a b := by
  let waits : S → S → Prop := fun x y => TransGen r y.1 x.1
  have : IsTrans S waits := ⟨fun _ _ _ hxy hyz => hyz.trans hxy⟩
  have : Std.Irrefl waits := ⟨fun x hx => h x.1 hx⟩
  obtain ⟨a₀, ha₀⟩ := hS
  obtain ⟨a, -, hmin⟩ := (Finite.wellFounded_of_trans_of_irrefl waits).has_min Set.univ ⟨⟨a₀, ha₀⟩, trivial⟩
  exact ⟨a.1, a.2, fun b hb hab => hmin ⟨b, hb⟩ trivial (.single hab)⟩

end Acyclic

namespace JobScheduler
open Relational Transition Acyclic Relation

def Sys.dependsOn (s : Sys) (a b : Uuid) : Prop :=
  ∃ d ∈ s.db.jobDependencies.rows, d.dependentJobId = a ∧ d.dependencyJobId = b

def dependencies (cron : Cron) : System Sys Label :=
  ⟨fun s => s.db.jobDependencies.rows = [], Sys.next cron⟩

structure Sys.DependenciesAcyclic (s : Sys) : Prop where
  noCycle : IsAcyclic s.dependsOn
  noSelfEdge : ∀ d ∈ s.db.jobDependencies.rows, d.dependentJobId ≠ d.dependencyJobId
  noWaitingSet : ∀ S : Finset Uuid, S.Nonempty →
    ∃ j ∈ S, ∀ d ∈ s.db.jobDependencies.rows, d.dependentJobId = j → d.dependencyJobId ∉ S

/-- `create_dependency` stores an edge whose dependency is the dependent job, or waits for it already,
over any number of edges. -/
def Sys.closesCycle (s : Sys) : Label → Prop
  | .createDependency id dependent dependency =>
    edgeIsNew s.db id dependent dependency ∧ ReflTransGen s.dependsOn dependency dependent
  | _ => False

section Steps
variable {cron : Cron} {s s' : Sys} {l : Label} {db db' : Db} {id dependent dependency : Uuid}

theorem dependenciesAcyclic_iff : s.DependenciesAcyclic ↔ IsAcyclic s.dependsOn := by
  refine ⟨fun h => h.noCycle, fun h => ⟨h, fun d hd he => ?_, fun S hS => ?_⟩⟩
  · exact h.irrefl d.dependencyJobId ⟨d, hd, he, rfl⟩
  · obtain ⟨j, hj, hfree⟩ := h.exists_free hS
    exact ⟨j, hj, fun d hd hdj hmem => hfree _ hmem ⟨d, hd, hdj, rfl⟩⟩

theorem createDependency_cases (h : createDependency db id dependent dependency = .ok db') :
    ¬edgeIsNew db id dependent dependency ∧ db' = db ∨
      edgeIsNew db id dependent dependency ∧
        db'.jobDependencies.rows = db.jobDependencies.rows ++ [⟨id, dependent, dependency⟩] := by
  by_cases hnew : edgeIsNew db id dependent dependency
  · refine .inr ⟨hnew, ?_⟩
    cases hd : db.jobs.find? dependent with
    | none => simp [createDependency, hnew.any_eq_false, hd] at h
    | some j =>
      cases hd' : db.jobs.find? dependency with
      | none => simp [createDependency, hnew.any_eq_false, hd, hd'] at h
      | some j' =>
        obtain ⟨deps, hi, hok⟩ := createDependency_of_new hd hd' hnew
        cases hok.symm.trans h
        exact (Table.rows_insert hi).1
  · refine .inl ⟨hnew, (createDependency_writes h).resolve_right fun hw => hnew hw.1⟩

theorem dependsOn_of_append {d : JobDependency}
    (h : s'.db.jobDependencies.rows = s.db.jobDependencies.rows ++ [d]) :
    s'.dependsOn = addEdge s.dependsOn d.dependentJobId d.dependencyJobId := by
  funext a b
  simp only [Sys.dependsOn, addEdge, h, List.mem_append, List.mem_singleton, eq_iff_iff]
  constructor
  · rintro ⟨e, he | rfl, ha, hb⟩
    · exact .inl ⟨e, he, ha, hb⟩
    · exact .inr ⟨ha.symm, hb.symm⟩
  · rintro (⟨e, he, ha, hb⟩ | ⟨rfl, rfl⟩)
    · exact ⟨e, .inl he, ha, hb⟩
    · exact ⟨d, .inr rfl, rfl, rfl⟩

/-- One step keeps the edges acyclic unless it closes a cycle. -/
theorem acyclic_next_iff (hn : s.next cron l = some s') (h : IsAcyclic s.dependsOn) :
    IsAcyclic s'.dependsOn ↔ ¬s.closesCycle l := by
  cases hl : l with
  | createDependency id dependent dependency =>
    subst hl
    obtain ⟨db', hdb, rfl⟩ := withDb_some hn
    rcases createDependency_cases hdb with ⟨hold, rfl⟩ | ⟨hnew, hrows⟩
    · exact iff_of_true h fun hc => hold hc.1
    · rw [dependsOn_of_append (s := s) hrows, isAcyclic_addEdge_iff h]
      exact not_congr ⟨fun hp => ⟨hnew, hp⟩, fun hc => hc.2⟩
  | _ =>
    refine iff_of_true (h.mono ?_) (by simp [Sys.closesCycle])
    rintro a b ⟨d, hd, ha, hb⟩
    rcases (next_frame hn).dependencies d hd with hd | ⟨id, he⟩
    · exact ⟨d, hd, ha, hb⟩
    · rw [hl] at he
      cases he

end Steps

/-- The stored edges stay acyclic throughout a run exactly when no `create_dependency` of it closes
a cycle. -/
theorem dependencies_acyclic_iff {cron : Cron} {h : List (Sys × Label)} {s : Sys}
    (hr : Run (dependencies cron) (fun _ _ => True) h s) :
    ((∀ q ∈ h, q.1.DependenciesAcyclic) ∧ s.DependenciesAcyclic) ↔ ∀ q ∈ h, ¬q.1.closesCycle q.2 := by
  induction hr with
  | @start s hi =>
    have hempty : IsAcyclic s.dependsOn := by
      intro a hp
      obtain ⟨b, ⟨d, hd, -⟩, -⟩ := TransGen.head'_iff.mp hp
      rw [show s.db.jobDependencies.rows = [] from hi] at hd
      cases hd
    simp [dependenciesAcyclic_iff, hempty]
  | @step h s s' l _ _ hn ih =>
    rw [List.forall_mem_cons, List.forall_mem_cons, ← ih]
    constructor
    · rintro ⟨⟨hs, hall⟩, hs'⟩
      have hstep := acyclic_next_iff hn (dependenciesAcyclic_iff.mp hs)
      exact ⟨hstep.mp (dependenciesAcyclic_iff.mp hs'), hall, hs⟩
    · rintro ⟨hl, hall, hs⟩
      have hstep := acyclic_next_iff hn (dependenciesAcyclic_iff.mp hs)
      exact ⟨⟨hs, hall⟩, dependenciesAcyclic_iff.mpr (hstep.mpr hl)⟩

theorem Sample.sys_noDependencies : (dependencies Sample.cron).init Sample.sys := rfl

/-- Job 102 waits for job 101, and that one for job 100. -/
theorem dependencies_acyclic_sample :
    ∃ h s, Run (dependencies Sample.cron) (fun _ _ => True) h s ∧
      (s.db.jobDependencies.rows.length = 2) ∧
      (((∀ q ∈ h, q.1.DependenciesAcyclic) ∧ s.DependenciesAcyclic) ↔ ∀ q ∈ h, ¬q.1.closesCycle q.2) := by
  obtain ⟨h, s, hrun, hp⟩ := Run.exists_of_exec (M := dependencies Sample.cron) Sample.sys_noDependencies
    [.createJob 100 7 Sample.queue (Sample.request 3), .createJob 101 8 Sample.queue (Sample.request 3),
      .createJob 102 9 Sample.queue (Sample.request 3), .createDependency 1 101 100,
      .createDependency 2 102 101]
    (fun _ _ => true) (fun _ s => s.db.jobDependencies.rows.length = 2) (by decide)
  have hrun := hrun.mono fun _ _ _ => trivial
  exact ⟨h, s, hrun, by simpa using hp, dependencies_acyclic_iff hrun⟩

/-- Nothing stops two jobs from being registered to wait for each other. -/
theorem dependencies_can_be_cyclic :
    ¬∀ (cron : Cron) (h : List (Sys × Label)) (s : Sys),
      Run (dependencies cron) (fun _ _ => True) h s → s.DependenciesAcyclic := by
  intro hall
  obtain ⟨h, s, hrun, hp⟩ := Run.exists_of_exec (M := dependencies Sample.cron) Sample.sys_noDependencies
    [.createJob 100 7 Sample.queue (Sample.request 3), .createJob 101 8 Sample.queue (Sample.request 3),
      .createDependency 1 101 100, .createDependency 2 100 101]
    (fun _ _ => true)
    (fun _ s => (s.db.jobDependencies.rows.any fun d => d.dependentJobId = 101 && d.dependencyJobId = 100) &&
      s.db.jobDependencies.rows.any fun d => d.dependentJobId = 100 && d.dependencyJobId = 101)
    (by decide)
  simp only [Bool.and_eq_true, List.any_eq_true, decide_eq_true_eq] at hp
  obtain ⟨there, back⟩ := hp
  have hacyclic := (hall _ h s (hrun.mono fun _ _ _ => trivial)).noCycle
  exact hacyclic 100 (.tail (.single back) there)

end JobScheduler
