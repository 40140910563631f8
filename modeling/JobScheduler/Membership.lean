import JobScheduler.Projects
import JobScheduler.Runs

namespace JobScheduler
open Relational Transition

/-! ## The projects of a user -/

namespace TenantDb

/-- `list_by_user`; the names are in the order of the database's collation. -/
def listByUser (collates : String → String → Prop) [DecidableRel collates] (db : TenantDb) (userId : Uuid) :
    List Project :=
  (db.projects.rows.flatMap fun p =>
    (db.projectMembers.rows.filter fun m => m.projectId = p.id && m.userId = userId).map fun _ => p).insertionSort
      fun p q => collates p.name q.name

/-- `get_member_role`, on the tables of the tenants. -/
def getMemberRole (db : TenantDb) (projectId userId : Uuid) : Option UserRole :=
  (db.projectMembers.rows.find? fun m => m.projectId = projectId && m.userId = userId).map fun m => m.role

def addUser (db : TenantDb) (u : User) : Option TenantDb :=
  if h : u.id ∉ db.users.rows.map User.id then
    some { db with
      users := ⟨db.users.rows ++ [u], db.users.insert_nodup u h⟩
      member_user := references_of_append db.member_user u }
  else none

end TenantDb

inductive TenantLabel
  | register (user : User)
  | createProject (io : CreateProjectIo) (req : CreateProject)

/-- Users register and create projects; nothing else writes to these tables. -/
def tenants : System TenantDb TenantLabel where
  init db := db.projects.rows = [] ∧ db.projectMembers.rows = []
  next db
    | .register u => db.addUser u
    | .createProject io req => some (createProject io req db).2

def addedProject (io : CreateProjectIo) (req : CreateProject) (db : TenantDb) : Option Project :=
  if io.begins && io.commit ≠ .lostBefore then (createProjectTx io req db).toOption.map Prod.fst else none

def creations (h : List (TenantDb × TenantLabel)) : List (Uuid × Project) :=
  h.filterMap fun q =>
    match q.2 with
    | .register _ => none
    | .createProject io req => (addedProject io req q.1).map fun p => (req.userId, p)

def projectsOf (u : Uuid) (h : List (TenantDb × TenantLabel)) : List Project :=
  ((creations h).filter fun c => c.1 = u).map Prod.snd

section Steps
variable {io : CreateProjectIo} {req : CreateProject} {db : TenantDb}

theorem createProject_cases (io : CreateProjectIo) (req : CreateProject) (db : TenantDb) :
    (addedProject io req db = none ∧ (createProject io req db).2 = db) ∨
      ∃ p, addedProject io req db = some p ∧ TxRows io req db p (createProject io req db).2 := by
  unfold addedProject createProject
  cases hbegins : io.begins with
  | false => exact .inl ⟨rfl, rfl⟩
  | true =>
    rcases createProjectTx_cases io req db hbegins with ⟨_, p, db', htx, hrows⟩ | ⟨_, e, htx⟩ <;> rw [htx]
    · cases io.commit with
      | lostBefore => exact .inl ⟨rfl, rfl⟩
      | acknowledged | lostAfter => exact .inr ⟨p, rfl, hrows⟩
    · refine .inl ⟨?_, rfl⟩
      split <;> rfl

theorem addedProject_of_ok {p : Project} (h : (createProject io req db).1 = .ok p) :
    addedProject io req db = some p := by
  unfold createProject at h
  unfold addedProject
  cases hbegins : io.begins with
  | false =>
    rw [hbegins] at h
    cases h
  | true =>
    rw [hbegins, if_pos rfl] at h
    cases htx : createProjectTx io req db with
    | error e =>
      rw [htx] at h
      cases h
    | ok r =>
      rw [htx] at h
      cases hcommit : io.commit with
      | acknowledged =>
        simp only [hcommit] at h
        cases h
        rfl
      | lostBefore | lostAfter =>
        simp only [hcommit] at h
        cases h

end Steps

/-! ## Who is a member -/

/-- Each project has one member, its creator, who administers it. -/
structure Memberships (cs : List (Uuid × Project)) (db : TenantDb) : Prop where
  projects : db.projects.rows = cs.reverse.map Prod.snd
  projectMembers : db.projectMembers.rows.map (fun m => (m.projectId, m.userId, m.role)) =
    cs.reverse.map fun c => (c.2.id, c.1, UserRole.admin)

theorem memberships_of_run {ok : TenantDb → TenantLabel → Prop} {h : List (TenantDb × TenantLabel)} {db : TenantDb}
    (hr : Run tenants ok h db) : Memberships (creations h) db := by
  refine Run.invariant (I := fun h db => Memberships (creations h) db) ?_ ?_ hr
  · intro db hi
    exact ⟨hi.1, by rw [hi.2]; rfl⟩
  · intro h db l db' _ hm _ hn
    cases l with
    | register u =>
      have hn : db.addUser u = some db' := hn
      unfold TenantDb.addUser at hn
      split at hn
      · cases hn
        exact ⟨hm.projects, hm.projectMembers⟩
      · cases hn
    | createProject io req =>
      obtain rfl : (createProject io req db).2 = db' := Option.some.inj hn
      rcases createProject_cases io req db with ⟨hnone, hsame⟩ | ⟨p, hadded, hrows⟩
      · rw [hsame]
        have hcreations : creations ((db, .createProject io req) :: h) = creations h := by simp [creations, hnone]
        rw [hcreations]
        exact hm
      · have hcreations : creations ((db, .createProject io req) :: h) = (req.userId, p) :: creations h := by
          simp [creations, hadded]
        rw [hcreations]
        constructor <;> rw [List.reverse_cons, List.map_append]
        · rw [hrows.projects, hm.projects]
          rfl
        · rw [hrows.projectMembers, List.map_append, hm.projectMembers]
          rfl

theorem countP_key {α κ : Type} [DecidableEq κ] {key : α → κ} {q : α → Bool} {l : List α} (hl : (l.map key).Nodup)
    {a : α} (ha : a ∈ l) : l.countP (fun x => decide (key x = key a) && q x) = (q a).toNat := by
  induction l with
  | nil => cases ha
  | cons x l ih =>
    rw [List.map_cons, List.nodup_cons] at hl
    rw [List.countP_cons]
    rcases List.mem_cons.mp ha with rfl | ha
    · have hnone : l.countP (fun x => decide (key x = key a) && q x) = 0 := by
        refine List.countP_eq_zero.mpr fun x hx hp => hl.1 ?_
        rw [← of_decide_eq_true (Bool.and_eq_true_iff.mp hp).1]
        exact List.mem_map_of_mem hx
      rw [hnone]
      cases q a <;> simp
    · have hne : key x ≠ key a := fun he => hl.1 (he ▸ List.mem_map_of_mem ha)
      rw [ih hl.2 ha]
      simp [hne]

theorem flatMap_if {α β : Type} (p : α → Bool) (f : α → β) (l : List α) :
    (l.flatMap fun a => if p a then [f a] else []) = (l.filter p).map f := by
  induction l with
  | nil => rfl
  | cons a l ih =>
    rw [List.flatMap_cons, ih, List.filter_cons]
    split <;> rfl

section Runs
variable {ok : TenantDb → TenantLabel → Prop} {h : List (TenantDb × TenantLabel)} {db : TenantDb}

theorem Memberships.keys {cs : List (Uuid × Project)} (hm : Memberships cs db) :
    (cs.reverse.map fun c => c.2.id).Nodup := by
  have hnodup := db.projects.nodup
  rw [hm.projects, List.map_map] at hnodup
  exact hnodup

theorem Memberships.joined {cs : List (Uuid × Project)} (hm : Memberships cs db) (u : Uuid) :
    (db.projects.rows.flatMap fun p =>
      (db.projectMembers.rows.filter fun m => m.projectId = p.id && m.userId = u).map fun _ => p) =
      (cs.reverse.filter fun c => c.1 = u).map Prod.snd := by
  rw [hm.projects, List.flatMap_map, ← flatMap_if]
  refine List.flatMap_congr fun c hc => ?_
  have hcount : db.projectMembers.rows.countP (fun m => decide (m.projectId = c.2.id) && decide (m.userId = u)) =
      (decide (c.1 = u)).toNat := by
    rw [← countP_key (q := fun x : Uuid × Project => decide (x.1 = u)) hm.keys hc]
    have hmap := congrArg (List.countP fun m : Uuid × Uuid × UserRole => decide (m.1 = c.2.id) && decide (m.2.1 = u))
      hm.projectMembers
    rwa [List.countP_map, List.countP_map] at hmap
  rw [List.map_const', ← List.countP_eq_length_filter, hcount]
  by_cases hu : c.1 = u <;> simp [hu]

theorem Memberships.role {cs : List (Uuid × Project)} (hm : Memberships cs db) (projectId u : Uuid) :
    db.getMemberRole projectId u =
      if projectId ∈ ((cs.filter fun c => c.1 = u).map Prod.snd).map Project.id then some .admin else none := by
  have hmember (m : ProjectMemberRow) (hmem : m ∈ db.projectMembers.rows) :
      ∃ c ∈ cs, c.2.id = m.projectId ∧ c.1 = m.userId ∧ m.role = .admin := by
    have hrow := List.mem_map_of_mem (f := fun m : ProjectMemberRow => (m.projectId, m.userId, m.role)) hmem
    rw [hm.projectMembers] at hrow
    obtain ⟨c, hc, he⟩ := List.mem_map.mp hrow
    simp only [Prod.mk.injEq] at he
    exact ⟨c, List.mem_reverse.mp hc, he.1, he.2.1, he.2.2.symm⟩
  unfold TenantDb.getMemberRole
  cases hfind : db.projectMembers.rows.find? fun m => m.projectId = projectId && m.userId = u with
  | some m =>
    have hp := List.find?_some hfind
    simp only [Bool.and_eq_true, decide_eq_true_eq] at hp
    obtain ⟨c, hc, hid, hu, hrole⟩ := hmember m (List.mem_of_find?_eq_some hfind)
    rw [if_pos, Option.map_some, hrole]
    have hfilter : c ∈ cs.filter fun c => c.1 = u := List.mem_filter.mpr ⟨hc, by simp [hu, hp.2]⟩
    exact List.mem_map.mpr ⟨c.2, List.mem_map.mpr ⟨c, hfilter, rfl⟩, hid.trans hp.1⟩
  | none =>
    rw [if_neg, Option.map_none]
    intro hmem
    simp only [List.mem_map, List.mem_filter, decide_eq_true_eq] at hmem
    obtain ⟨p, ⟨c, ⟨hc, hu⟩, rfl⟩, hid⟩ := hmem
    have hrow := List.mem_map_of_mem (f := fun c : Uuid × Project => (c.2.id, c.1, UserRole.admin))
      (List.mem_reverse.mpr hc)
    rw [← hm.projectMembers] at hrow
    obtain ⟨m, hm', he⟩ := List.mem_map.mp hrow
    simp only [Prod.mk.injEq] at he
    have := List.find?_eq_none.mp hfind m hm'
    simp [he.1, he.2.1, hid, hu] at this

/-- Whoever calls, and whatever fails: a user is shown the projects their own calls have added, each
once and in order of name, and is a member, as administrator, of these only; a project that was
answered to them is among them. -/
theorem projects_of_user (collates : String → String → Prop) [DecidableRel collates] [Std.Total collates]
    [IsTrans String collates] (hr : Run tenants ok h db) (u : Uuid) :
    (db.listByUser collates u).Perm (projectsOf u h) ∧
      (db.listByUser collates u).Pairwise (fun p q => collates p.name q.name) ∧
      (∀ projectId, db.getMemberRole projectId u =
        if projectId ∈ (projectsOf u h).map Project.id then some .admin else none) ∧
      ∀ s io req p, (s, .createProject io req) ∈ h → req.userId = u → (createProject io req s).1 = .ok p →
        p ∈ db.listByUser collates u := by
  have hm := memberships_of_run hr
  have hperm : (db.listByUser collates u).Perm (projectsOf u h) := by
    refine (List.perm_insertionSort _ _).trans ?_
    rw [hm.joined u]
    exact ((List.reverse_perm _).filter _).map _
  have : Std.Total fun p q : Project => collates p.name q.name := ⟨fun p q => Std.Total.total p.name q.name⟩
  have : IsTrans Project fun p q => collates p.name q.name := ⟨fun _ _ _ => IsTrans.trans _ _ _⟩
  refine ⟨hperm, List.pairwise_insertionSort _ _, fun projectId => hm.role projectId u, ?_⟩
  intro s io req p hq hu hok
  rw [hperm.mem_iff]
  refine List.mem_map.mpr ⟨(req.userId, p), List.mem_filter.mpr ⟨?_, decide_eq_true hu⟩, rfl⟩
  exact List.mem_filterMap.mpr ⟨_, hq, by simp [addedProject_of_ok hok]⟩

end Runs

/-- Two users create a project each in one organization, the first one a second whose answer is lost; a
fourth project clashes with the first. -/
theorem projects_of_user_sample : ∃ h db, Run tenants (fun _ _ => True) h db ∧
    ((db.listByUser (· ≤ ·) 1).map Project.id).Perm [12, 10] ∧ db.getMemberRole 11 1 = none ∧
      db.getMemberRole 11 2 = some .admin := by
  obtain ⟨h, db, hrun, hh⟩ := Run.exists_of_exec (M := tenants)
    (show tenants.init Sample.twoUsers from ⟨rfl, rfl⟩)
    [.createProject (Sample.createProjectIo 10) ⟨1, "Acme", "acme", "Billing", "billing", none⟩,
      .createProject (Sample.createProjectIo 11) ⟨2, "Acme", "acme", "Mail", "mail", none⟩,
      .createProject { Sample.createProjectIo 12 with commit := .lostAfter }
        ⟨1, "Acme", "acme", "Audit", "audit", none⟩,
      .createProject (Sample.createProjectIo 13) ⟨2, "Acme", "acme", "Billing", "billing", none⟩]
    (fun _ _ => true)
    (fun h _ => (projectsOf 1 h).map Project.id = [12, 10] && (projectsOf 2 h).map Project.id = [11])
    (by decide)
  simp only [Bool.and_eq_true, decide_eq_true_eq] at hh
  obtain ⟨hperm, _, hrole, _⟩ := projects_of_user (· ≤ ·) hrun 1
  refine ⟨h, db, hrun.mono fun _ _ _ => trivial, hh.1 ▸ hperm.map _, ?_, ?_⟩
  · rw [hrole, hh.1]
    rfl
  · rw [(projects_of_user (· ≤ ·) hrun 2).2.2.1, hh.2]
    rfl

end JobScheduler
