import JobScheduler.Auth

namespace JobScheduler
open Relational

structure Organization where
  id : Uuid
  name : String
  slug : String
  createdAt : Timestamp
  deriving DecidableEq, Repr

structure Project where
  id : Uuid
  organizationId : Uuid
  name : String
  slug : String
  description : Option String
  createdAt : Timestamp
  updatedAt : Timestamp
  deriving DecidableEq, Repr

/-- A row of `project_members`, with the columns that only the schema has. -/
structure ProjectMemberRow extends ProjectMember where
  id : Uuid
  createdAt : Timestamp

/-- The tables of the tenants, with the constraints of the schema. -/
structure TenantDb where
  users : Table User.id
  organizations : UniqueTable Organization.id Organization.slug
  projects : UniqueTable Project.id fun p => (p.organizationId, p.slug)
  projectMembers : UniqueTable ProjectMemberRow.id fun m => (m.projectId, m.userId)
  project_organization : ∀ p ∈ projects.rows, p.organizationId ∈ organizations.rows.map Organization.id
  member_project : ∀ m ∈ projectMembers.rows, m.projectId ∈ projects.rows.map Project.id
  member_user : ∀ m ∈ projectMembers.rows, m.userId ∈ users.rows.map User.id

theorem references_append {ρ κ : Type} {rows : List ρ} {r : ρ} {column : ρ → κ} {keys : List κ}
    (h : ∀ x ∈ rows, column x ∈ keys) (hr : column r ∈ keys) : ∀ x ∈ rows ++ [r], column x ∈ keys := by
  intro x hx
  rcases List.mem_append.mp hx with hx | hx
  · exact h x hx
  · rw [List.mem_singleton.mp hx]
    exact hr

theorem references_of_append {ρ κ ρ' : Type} {rows : List ρ} {column : ρ → κ} {targets : List ρ'} {key : ρ' → κ}
    (h : ∀ x ∈ rows, column x ∈ targets.map key) (r : ρ') : ∀ x ∈ rows, column x ∈ (targets ++ [r]).map key := by
  intro x hx
  rw [List.map_append]
  exact List.mem_append_left _ (h x hx)

namespace TenantDb

theorem organization_ids (db : TenantDb) (p : Organization → Bool) (name : String) :
    (db.organizations.rows.map fun o => if p o then { o with name := name } else o).map Organization.id =
      db.organizations.rows.map Organization.id := by
  rw [List.map_map]
  apply List.map_congr_left
  intro o _
  by_cases hp : p o <;> simp [hp]

/-- `INSERT INTO organizations … ON CONFLICT (slug) DO UPDATE SET name = EXCLUDED.name RETURNING id`. -/
def upsertOrganization (db : TenantDb) (o : Organization) : Except SqlError (Uuid × TenantDb) :=
  match db.organizations.findBy? o.slug with
  | some o' =>
    .ok (o'.id,
      { db with
        organizations := db.organizations.update (fun r => r.slug = o.slug) (fun r => { r with name := o.name })
          (fun _ => rfl) fun _ => rfl
        project_organization := by
          intro p hp
          rw [UniqueTable.rows_update, organization_ids]
          exact db.project_organization p hp })
  | none =>
    if h : db.organizations.Accepts o then
      .ok (o.id,
        { db with
          organizations := db.organizations.append o h
          project_organization := references_of_append db.project_organization o })
    else .error .uniqueViolation

/-- `INSERT INTO projects`. -/
def insertProject (db : TenantDb) (p : Project) : Except SqlError TenantDb :=
  if h : db.projects.Accepts p then
    if horganization : p.organizationId ∈ db.organizations.rows.map Organization.id then
      .ok { db with
        projects := db.projects.append p h
        project_organization := references_append db.project_organization horganization
        member_project := references_of_append db.member_project p }
    else .error .foreignKeyViolation
  else .error .uniqueViolation

/-- `INSERT INTO project_members … ON CONFLICT (project_id, user_id) DO NOTHING`. -/
def insertMember (db : TenantDb) (m : ProjectMemberRow) : Except SqlError TenantDb :=
  if (m.projectId, m.userId) ∈ db.projectMembers.rows.map fun r => (r.projectId, r.userId) then .ok db
  else if h : db.projectMembers.Accepts m then
    if hforeign : m.projectId ∈ db.projects.rows.map Project.id ∧ m.userId ∈ db.users.rows.map User.id then
      .ok { db with
        projectMembers := db.projectMembers.append m h
        member_project := references_append db.member_project hforeign.1
        member_user := references_append db.member_user hforeign.2 }
    else .error .foreignKeyViolation
  else .error .uniqueViolation

end TenantDb

/-! ## `ProjectService::create_project` -/

structure CreateProject where
  userId : Uuid
  organizationName : String
  organizationSlug : String
  name : String
  slug : String
  description : Option String

/-- What the database brings in: `NOW()`, the identifiers drawn, which statements fail, and how `COMMIT` ends. -/
structure CreateProjectIo where
  now : Timestamp
  organizationId : Uuid
  projectId : Uuid
  memberId : Uuid
  begins : Bool
  fails : ℕ → Bool
  commit : CommitOutcome

section CreateProject
variable (io : CreateProjectIo) (req : CreateProject)

def newOrganization : Organization := ⟨io.organizationId, req.organizationName, req.organizationSlug, io.now⟩

def newProject (organizationId : Uuid) : Project :=
  ⟨io.projectId, organizationId, req.name, req.slug, req.description, io.now, io.now⟩

def newMember (projectId : Uuid) : ProjectMemberRow := ⟨⟨projectId, req.userId, .admin⟩, io.memberId, io.now⟩

def CreateProjectIo.send {α : Type} (i : ℕ) (statement : Except SqlError α) : Except SqlError α :=
  if io.fails i then .error .connection else statement

/-- The statements between `BEGIN` and `COMMIT`; the first error ends them. -/
def createProjectTx (db : TenantDb) : Except SqlError (Project × TenantDb) := do
  let (organizationId, db) ← io.send 0 (db.upsertOrganization (newOrganization io req))
  let project := newProject io req organizationId
  let db ← io.send 1 (db.insertProject project)
  let db ← io.send 2 (db.insertMember (newMember io req project.id))
  return (project, db)

/-- A transaction that is dropped is rolled back. -/
def createProject (db : TenantDb) : Except SqlError Project × TenantDb :=
  if io.begins then
    match createProjectTx io req db with
    | .error e => (.error e, db)
    | .ok (project, db') =>
      match io.commit with
      | .acknowledged => (.ok project, db')
      | .lostBefore => (.error .connection, db)
      | .lostAfter => (.error .connection, db')
  else (.error .connection, db)

end CreateProject

/-! ## What each statement does -/

section Statements
variable {db : TenantDb}

/-- The organizations after the first statement: one more, or the one with that slug renamed. -/
inductive OrganizationRows (rows : List Organization) (o : Organization) : Uuid → List Organization → Prop
  | added (hslug : ∀ r ∈ rows, r.slug ≠ o.slug) (hid : o.id ∉ rows.map Organization.id) :
    OrganizationRows rows o o.id (rows ++ [o])
  | renamed {o' : Organization} (hmem : o' ∈ rows) (hslug : o'.slug = o.slug) :
    OrganizationRows rows o o'.id (rows.map fun r => if r.slug = o.slug then { r with name := o.name } else r)

theorem upsertOrganization_cases (db : TenantDb) (o : Organization) :
    (∃ id db', db.upsertOrganization o = .ok (id, db') ∧
        OrganizationRows db.organizations.rows o id db'.organizations.rows ∧
        db'.users = db.users ∧ db'.projects = db.projects ∧ db'.projectMembers = db.projectMembers) ∨
      (∃ e, db.upsertOrganization o = .error e) ∧ (∀ r ∈ db.organizations.rows, r.slug ≠ o.slug) ∧
        o.id ∈ db.organizations.rows.map Organization.id := by
  unfold TenantDb.upsertOrganization
  cases hfind : db.organizations.findBy? o.slug with
  | some o' =>
    obtain ⟨hmem, hslug⟩ := (UniqueTable.findBy?_eq_some_iff _ _ _).mp hfind
    refine .inl ⟨_, _, rfl, ?_, rfl, rfl, rfl⟩
    simpa using OrganizationRows.renamed hmem hslug
  | none =>
    have hfree := (UniqueTable.findBy?_eq_none_iff _ _).mp hfind
    have hslug : ∀ r ∈ db.organizations.rows, r.slug ≠ o.slug := fun r hr he =>
      hfree (List.mem_map.mpr ⟨r, hr, he⟩)
    by_cases h : db.organizations.Accepts o
    · simp only [h, dif_pos]
      exact .inl ⟨_, _, rfl, .added hslug h.1, rfl, rfl, rfl⟩
    · simp only [h, dif_neg, not_false_iff]
      refine .inr ⟨⟨_, rfl⟩, hslug, ?_⟩
      by_contra hid
      exact h ⟨hid, hfree⟩

theorem insertProject_cases (db : TenantDb) {p : Project}
    (horganization : p.organizationId ∈ db.organizations.rows.map Organization.id) :
    (∃ db', db.insertProject p = .ok db' ∧ db.projects.Accepts p ∧ db'.projects.rows = db.projects.rows ++ [p] ∧
        db'.users = db.users ∧ db'.organizations = db.organizations ∧ db'.projectMembers = db.projectMembers) ∨
      (∃ e, db.insertProject p = .error e) ∧ ¬db.projects.Accepts p := by
  unfold TenantDb.insertProject
  by_cases h : db.projects.Accepts p
  · simp only [h, horganization, dif_pos]
    exact .inl ⟨_, rfl, trivial, rfl, rfl, rfl, rfl⟩
  · simp only [h, dif_neg, not_false_iff]
    exact .inr ⟨⟨_, rfl⟩, trivial⟩

theorem insertMember_cases (db : TenantDb) {m : ProjectMemberRow}
    (hproject : m.projectId ∈ db.projects.rows.map Project.id)
    (hnew : ∀ r ∈ db.projectMembers.rows, r.projectId ≠ m.projectId) :
    (∃ db', db.insertMember m = .ok db' ∧ m.id ∉ db.projectMembers.rows.map ProjectMemberRow.id ∧
        m.userId ∈ db.users.rows.map User.id ∧ db'.projectMembers.rows = db.projectMembers.rows ++ [m] ∧
        db'.users = db.users ∧ db'.organizations = db.organizations ∧ db'.projects = db.projects) ∨
      (∃ e, db.insertMember m = .error e) ∧
        ¬(m.id ∉ db.projectMembers.rows.map ProjectMemberRow.id ∧ m.userId ∈ db.users.rows.map User.id) := by
  have hcolumn : (m.projectId, m.userId) ∉ db.projectMembers.rows.map fun r => (r.projectId, r.userId) := by
    intro hmem
    obtain ⟨r, hr, he⟩ := List.mem_map.mp hmem
    exact hnew r hr (Prod.mk.inj he).1
  unfold TenantDb.insertMember
  rw [if_neg hcolumn]
  by_cases h : db.projectMembers.Accepts m
  · by_cases huser : m.userId ∈ db.users.rows.map User.id
    · simp only [h, hproject, huser, and_self, dif_pos]
      exact .inl ⟨_, rfl, h.1, trivial, rfl, rfl, rfl, rfl⟩
    · simp only [h, huser, and_false, dif_neg, dif_pos, not_false_iff]
      exact .inr ⟨⟨_, rfl⟩, trivial⟩
  · simp only [h, dif_neg, not_false_iff]
    exact .inr ⟨⟨_, rfl⟩, fun hid => h ⟨hid.1, hcolumn⟩⟩

end Statements

section Transaction
variable {io : CreateProjectIo} {req : CreateProject} {db : TenantDb}

/-- Nothing fails on the way to `COMMIT`, and no constraint is in the way. -/
structure GetsThrough (io : CreateProjectIo) (req : CreateProject) (db : TenantDb) : Prop where
  begins : io.begins = true
  answered : io.fails 0 = false ∧ io.fails 1 = false ∧ io.fails 2 = false
  organization : (∀ o ∈ db.organizations.rows, o.slug ≠ req.organizationSlug) →
    io.organizationId ∉ db.organizations.rows.map Organization.id
  project : io.projectId ∉ db.projects.rows.map Project.id
  slug : ∀ o ∈ db.organizations.rows, o.slug = req.organizationSlug →
    ∀ p ∈ db.projects.rows, p.organizationId = o.id → p.slug ≠ req.slug
  user : req.userId ∈ db.users.rows.map User.id
  member : io.memberId ∉ db.projectMembers.rows.map ProjectMemberRow.id

/-- What the three statements leave behind. -/
structure TxRows (io : CreateProjectIo) (req : CreateProject) (db : TenantDb) (project : Project) (db' : TenantDb) :
    Prop where
  users : db'.users = db.users
  organizations : OrganizationRows db.organizations.rows (newOrganization io req) project.organizationId
    db'.organizations.rows
  projects : db'.projects.rows = db.projects.rows ++ [project]
  projectMembers : db'.projectMembers.rows = db.projectMembers.rows ++ [newMember io req project.id]

theorem OrganizationRows.id_mem {rows rows' : List Organization} {o : Organization} {id : Uuid}
    (h : OrganizationRows rows o id rows') : id ∈ rows'.map Organization.id := by
  cases h with
  | added _ _ => simp
  | @renamed o' hmem _ =>
    rw [List.map_map]
    refine List.mem_map.mpr ⟨o', hmem, ?_⟩
    by_cases hs : o'.slug = o.slug <;> simp [hs]

theorem OrganizationRows.fresh {rows rows' : List Organization} {o : Organization} {id : Uuid}
    (h : OrganizationRows rows o id rows') (hfree : ∀ r ∈ rows, r.slug ≠ o.slug) :
    o.id ∉ rows.map Organization.id := by
  cases h with
  | added _ hid => exact hid
  | renamed hmem hslug => exact absurd hslug (hfree _ hmem)

theorem accepts_newProject_iff {rows : List Organization} {id : Uuid}
    (horganizations : OrganizationRows db.organizations.rows (newOrganization io req) id rows) :
    db.projects.Accepts (newProject io req id) ↔
      io.projectId ∉ db.projects.rows.map Project.id ∧
        ∀ o ∈ db.organizations.rows, o.slug = req.organizationSlug →
          ∀ p ∈ db.projects.rows, p.organizationId = o.id → p.slug ≠ req.slug := by
  refine and_congr_right fun _ => ?_
  have hcolumn : (id, req.slug) ∉ db.projects.rows.map (fun p => (p.organizationId, p.slug)) ↔
      ∀ p ∈ db.projects.rows, p.organizationId = id → p.slug ≠ req.slug := by
    simp [List.mem_map]
  refine Iff.trans hcolumn ?_
  cases horganizations with
  | added hslug hid =>
    have hnone : ∀ p ∈ db.projects.rows, p.organizationId ≠ io.organizationId := fun p hp he => by
      have hmem := db.project_organization p hp
      rw [he] at hmem
      exact hid hmem
    exact iff_of_true (fun p hp he => absurd he (hnone p hp)) fun o ho he => absurd he (hslug o ho)
  | @renamed o' hmem hslug =>
    constructor
    · intro h o ho he
      have hsame : o = o' := List.inj_on_of_nodup_map db.organizations.unique ho hmem (he.trans hslug.symm)
      exact hsame ▸ h
    · intro h
      exact h o' hmem hslug

theorem insertProject_after {db₁ : TenantDb} {id : Uuid}
    (horganizations : OrganizationRows db.organizations.rows (newOrganization io req) id db₁.organizations.rows)
    (hprojects : db₁.projects = db.projects) :
    (∃ db₂, db₁.insertProject (newProject io req id) = .ok db₂ ∧ db.projects.Accepts (newProject io req id) ∧
        db₂.projects.rows = db.projects.rows ++ [newProject io req id] ∧ db₂.users = db₁.users ∧
        db₂.organizations = db₁.organizations ∧ db₂.projectMembers = db₁.projectMembers) ∨
      (∃ e, db₁.insertProject (newProject io req id) = .error e) ∧ ¬GetsThrough io req db := by
  have hcases := insertProject_cases db₁ (p := newProject io req id) horganizations.id_mem
  rw [hprojects] at hcases
  refine hcases.imp_right fun ⟨herror, hnot⟩ => ⟨herror, fun h => hnot ?_⟩
  exact (accepts_newProject_iff horganizations).mpr ⟨h.project, h.slug⟩

theorem insertMember_after {db₂ : TenantDb} {id : Uuid} (hnew : io.projectId ∉ db.projects.rows.map Project.id)
    (hrows : db₂.projects.rows = db.projects.rows ++ [newProject io req id]) (husers : db₂.users = db.users)
    (hmembers : db₂.projectMembers = db.projectMembers) :
    (∃ db₃, db₂.insertMember (newMember io req io.projectId) = .ok db₃ ∧
        io.memberId ∉ db.projectMembers.rows.map ProjectMemberRow.id ∧ req.userId ∈ db.users.rows.map User.id ∧
        db₃.projectMembers.rows = db.projectMembers.rows ++ [newMember io req io.projectId] ∧
        db₃.users = db.users ∧ db₃.organizations = db₂.organizations ∧ db₃.projects = db₂.projects) ∨
      (∃ e, db₂.insertMember (newMember io req io.projectId) = .error e) ∧ ¬GetsThrough io req db := by
  have hmem : io.projectId ∈ db₂.projects.rows.map Project.id := by simp [hrows, newProject]
  have hnomember : ∀ r ∈ db₂.projectMembers.rows, r.projectId ≠ io.projectId := by
    intro r hr he
    rw [hmembers] at hr
    have hproject := db.member_project r hr
    rw [he] at hproject
    exact hnew hproject
  have hcases := insertMember_cases db₂ (m := newMember io req io.projectId) hmem hnomember
  rw [hmembers, husers] at hcases
  exact hcases.imp_right fun ⟨herror, hnot⟩ => ⟨herror, fun h => hnot ⟨h.member, h.user⟩⟩

theorem createProjectTx_cases (io : CreateProjectIo) (req : CreateProject) (db : TenantDb)
    (hbegins : io.begins = true) :
    (GetsThrough io req db ∧ ∃ project db', createProjectTx io req db = .ok (project, db') ∧
        TxRows io req db project db') ∨
      ¬GetsThrough io req db ∧ ∃ e, createProjectTx io req db = .error e := by
  unfold createProjectTx CreateProjectIo.send
  cases hf₀ : io.fails 0 with
  | true => exact .inr ⟨fun h => absurd h.answered.1 (by simp [hf₀]), ⟨_, rfl⟩⟩
  | false =>
    rcases upsertOrganization_cases db (newOrganization io req) with
      ⟨id, db₁, h₁, horganizations, hu₁, hp₁, hm₁⟩ | ⟨⟨e, h₁⟩, hslug, hid⟩
    swap
    · simp only [h₁]
      exact .inr ⟨fun h => h.organization hslug hid, ⟨_, rfl⟩⟩
    simp only [h₁, bind, Except.bind, Bool.false_eq_true, if_false]
    cases hf₁ : io.fails 1 with
    | true => exact .inr ⟨fun h => absurd h.answered.2.1 (by simp [hf₁]), ⟨_, rfl⟩⟩
    | false =>
      rcases insertProject_after horganizations hp₁ with
        ⟨db₂, h₂, haccepts, hrows₂, hu₂, ho₂, hm₂⟩ | ⟨⟨e, h₂⟩, hnot⟩
      swap
      · simp only [h₂, Bool.false_eq_true, if_false]
        exact .inr ⟨hnot, ⟨_, rfl⟩⟩
      simp only [h₂, Bool.false_eq_true, if_false]
      obtain ⟨hproject, hslug⟩ := (accepts_newProject_iff horganizations).mp haccepts
      cases hf₂ : io.fails 2 with
      | true => exact .inr ⟨fun h => absurd h.answered.2.2 (by simp [hf₂]), ⟨_, rfl⟩⟩
      | false =>
        rcases insertMember_after hproject hrows₂ (hu₂.trans hu₁) (hm₂.trans hm₁) with
          ⟨db₃, h₃, hmember, huser, hrows₃, hu₃, ho₃, hp₃⟩ | ⟨⟨e, h₃⟩, hnot⟩
        · simp only [newProject, h₃, Bool.false_eq_true, if_false]
          refine .inl ⟨⟨hbegins, ⟨hf₀, hf₁, hf₂⟩, horganizations.fresh, hproject, hslug, huser, hmember⟩, _, _, rfl,
            hu₃, ?_, hp₃ ▸ hrows₂, hrows₃⟩
          rw [ho₃, ho₂]
          exact horganizations
        · simp only [newProject, h₃, Bool.false_eq_true, if_false]
          exact .inr ⟨hnot, ⟨_, rfl⟩⟩

/-! ## What it may touch -/

/-- An error leaves the database alone; a project that is returned has been added with its administrator, and an
organization only where none had the slug. -/
structure CreatesOnly (req : CreateProject) (db : TenantDb) (result : Except SqlError Project) (db' : TenantDb) :
    Prop where
  error : ∀ e, result = .error e → db' = db
  project : ∀ project, result = .ok project → db'.projects.rows = db.projects.rows ++ [project]
  member : ∀ project, result = .ok project → ∃ m : ProjectMemberRow,
    db'.projectMembers.rows = db.projectMembers.rows ++ [m] ∧
      m.projectId = project.id ∧ m.userId = req.userId ∧ m.role = .admin
  organizations : ∀ project, result = .ok project → db'.organizations.rows = db.organizations.rows ∨
    (∀ o ∈ db.organizations.rows, o.slug ≠ req.organizationSlug) ∧
      ∃ o, db'.organizations.rows = db.organizations.rows ++ [o]
  users : ∀ project, result = .ok project → db'.users = db.users

theorem createsOnly_of_unchanged (req : CreateProject) (db : TenantDb) (e : SqlError) :
    CreatesOnly req db (.error e) db :=
  ⟨fun _ _ => rfl, by simp, by simp, by simp, by simp⟩

theorem rename_eq_self_iff (rows : List Organization) (name slug : String) :
    (rows.map fun r => if r.slug = slug then { r with name := name } else r) = rows ↔
      ∀ o ∈ rows, o.slug = slug → o.name = name := by
  induction rows with
  | nil => simp
  | cons r rows ih =>
    rw [List.map_cons, List.cons.injEq, ih, List.forall_mem_cons]
    refine and_congr_left fun _ => ?_
    by_cases hs : r.slug = slug
    · rw [if_pos hs]
      constructor
      · intro he _
        exact (congrArg Organization.name he).symm
      · intro he
        rw [← he hs]
    · simp [hs]

/-- The organizations are as they should be unless one has been renamed. -/
theorem organizationRows_kept_iff {rows rows' : List Organization} {o : Organization} {id : Uuid}
    (h : OrganizationRows rows o id rows') :
    (rows' = rows ∨ (∀ r ∈ rows, r.slug ≠ o.slug) ∧ ∃ r, rows' = rows ++ [r]) ↔
      ∀ r ∈ rows, r.slug = o.slug → r.name = o.name := by
  cases h with
  | added hslug hid => exact iff_of_true (.inr ⟨hslug, _, rfl⟩) fun r hr he => absurd he (hslug r hr)
  | renamed hmem hslug =>
    rw [← rename_eq_self_iff]
    exact or_iff_left fun h => h.1 _ hmem hslug

/-- A call that gets through and is answered keeps to its own rows exactly when it renames no organization; one
whose answer is lost leaves its rows behind an error. -/
theorem create_project_touches_iff (io : CreateProjectIo) (req : CreateProject) (db : TenantDb) :
    CreatesOnly req db (createProject io req db).1 (createProject io req db).2 ↔
      ¬GetsThrough io req db ∨ io.commit = .lostBefore ∨
        io.commit = .acknowledged ∧
          ∀ o ∈ db.organizations.rows, o.slug = req.organizationSlug → o.name = req.organizationName := by
  unfold createProject
  cases hbegins : io.begins with
  | false =>
    exact iff_of_true (createsOnly_of_unchanged req db _) (.inl fun h => absurd h.begins (by simp [hbegins]))
  | true =>
    rw [if_pos rfl]
    rcases createProjectTx_cases io req db hbegins with ⟨hthrough, project, db', htx, hrows⟩ | ⟨hnot, e, htx⟩
    · rw [htx]
      cases hcommit : io.commit with
      | acknowledged =>
        have hkept : _ ↔ ∀ o ∈ db.organizations.rows, o.slug = req.organizationSlug → o.name = req.organizationName :=
          organizationRows_kept_iff hrows.organizations
        constructor
        · intro h
          exact .inr (.inr ⟨rfl, hkept.mp (h.organizations _ rfl)⟩)
        · rintro (hnot | hlost | ⟨-, hnames⟩)
          · exact absurd hthrough hnot
          · cases hlost
          · refine ⟨(fun _ he => by cases he), ?_, ?_, ?_, ?_⟩ <;> rintro _ ⟨⟩
            · exact hrows.projects
            · exact ⟨_, hrows.projectMembers, rfl, rfl, rfl⟩
            · exact hkept.mpr hnames
            · exact hrows.users
      | lostBefore => exact iff_of_true (createsOnly_of_unchanged req db _) (.inr (.inl rfl))
      | lostAfter =>
        refine iff_of_false (fun h => ?_) (by simp [hthrough])
        have hsame : db' = db := h.error _ rfl
        have hrow := hrows.projects
        rw [hsame] at hrow
        simp at hrow
    · rw [htx]
      exact iff_of_true (createsOnly_of_unchanged req db e) (.inl hnot)

end Transaction

namespace Sample

def account (id : Uuid) (email : String) : User := ⟨id, email, "hash", none, true, 0, 0⟩

def twoUsers : TenantDb where
  users := ⟨[account 1 "a@acme.test", account 2 "b@other.test"], by decide⟩
  organizations := .empty
  projects := .empty
  projectMembers := .empty
  project_organization := by simp [UniqueTable.empty]
  member_project := by simp [UniqueTable.empty]
  member_user := by simp [UniqueTable.empty]

def createProjectIo (id : Uuid) : CreateProjectIo := ⟨0, id, id, id, true, fun _ => false, .acknowledged⟩

def acme : TenantDb := (createProject (createProjectIo 10) ⟨1, "Acme", "acme", "Billing", "billing", none⟩ twoUsers).2

end Sample

/-- Whoever names the slug of another tenant's organization renames it. -/
theorem create_project_renames : ¬∀ io req db,
    CreatesOnly req db (createProject io req db).1 (createProject io req db).2 := by
  intro hall
  have htouches := hall (Sample.createProjectIo 20) ⟨2, "Mallory", "acme", "Mine", "mine", none⟩ Sample.acme
  have horganizations : (createProject (Sample.createProjectIo 20) ⟨2, "Mallory", "acme", "Mine", "mine", none⟩
      Sample.acme).2.organizations.rows = [⟨10, "Mallory", "acme", 0⟩] := by decide
  have hbefore : Sample.acme.organizations.rows = [⟨10, "Acme", "acme", 0⟩] := by decide
  have hkept := htouches.organizations ⟨20, 10, "Mine", "mine", none, 0, 0⟩ (by rfl)
  rw [horganizations, hbefore] at hkept
  simp at hkept

end JobScheduler
