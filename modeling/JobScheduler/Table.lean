import Mathlib.Data.List.Nodup
import Mathlib.Data.List.Perm.Subperm
import Mathlib.Tactic

namespace Relational

/-- A table with a primary key: no two of its rows share their key. -/
structure Table {ρ κ : Type} (key : ρ → κ) where
  rows : List ρ
  nodup : (rows.map key).Nodup

namespace Table
variable {ρ κ : Type} {key : ρ → κ}

def empty : Table key := ⟨[], List.nodup_nil⟩

theorem update_nodup (t : Table key) (p : ρ → Bool) (f : ρ → ρ) (hf : ∀ r, key (f r) = key r) :
    ((t.rows.map fun r => if p r then f r else r).map key).Nodup := by
  have hk : (key ∘ fun r => if p r then f r else r) = key := by
    funext r
    by_cases hp : p r <;> simp [hp, hf]
  rw [List.map_map, hk]
  exact t.nodup

/-- `UPDATE … SET f WHERE p`, for an assignment that leaves the key alone. -/
def update (t : Table key) (p : ρ → Bool) (f : ρ → ρ) (hf : ∀ r, key (f r) = key r) : Table key :=
  ⟨t.rows.map fun r => if p r then f r else r, t.update_nodup p f hf⟩

def delete (t : Table key) (p : ρ → Bool) : Table key :=
  ⟨t.rows.filter fun r => !p r, t.nodup.sublist (List.filter_sublist.map key)⟩

/-- `SELECT COUNT(*) … WHERE p`. -/
def count (t : Table key) (p : ρ → Bool) : ℕ := t.rows.countP p

@[simp] theorem rows_empty : (empty : Table key).rows = [] := rfl

@[simp] theorem rows_update (t : Table key) (p : ρ → Bool) (f : ρ → ρ) (hf : ∀ r, key (f r) = key r) :
    (t.update p f hf).rows = t.rows.map fun r => if p r then f r else r := rfl

@[simp] theorem rows_delete (t : Table key) (p : ρ → Bool) :
    (t.delete p).rows = t.rows.filter fun r => !p r := rfl

theorem insert_nodup (t : Table key) (r : ρ) (h : key r ∉ t.rows.map key) :
    ((t.rows ++ [r]).map key).Nodup := by
  rw [List.map_append, List.map_singleton]
  exact t.nodup.append (List.nodup_singleton _) (by simpa using h)

section Keyed
variable [DecidableEq κ]

/-- `SELECT … WHERE key = k`. -/
def find? (t : Table key) (k : κ) : Option ρ := t.rows.find? fun r => decide (key r = k)

/-- `INSERT`: refused when the key is taken. -/
def insert (t : Table key) (r : ρ) : Option (Table key) :=
  if h : key r ∈ t.rows.map key then none else some ⟨t.rows ++ [r], t.insert_nodup r h⟩

theorem find?_eq_some_iff (t : Table key) (k : κ) (r : ρ) :
    t.find? k = some r ↔ r ∈ t.rows ∧ key r = k := by
  constructor
  · intro h
    exact ⟨List.mem_of_find?_eq_some h, by simpa using List.find?_some h⟩
  · rintro ⟨hr, rfl⟩
    cases hf : t.find? (key r) with
    | none => simpa using List.find?_eq_none.mp hf r hr
    | some r' =>
      have hk : key r' = key r := by simpa using List.find?_some hf
      rw [List.inj_on_of_nodup_map t.nodup (List.mem_of_find?_eq_some hf) hr hk]

theorem find?_eq_none_iff (t : Table key) (k : κ) : t.find? k = none ↔ k ∉ t.rows.map key := by
  simp [find?, List.find?_eq_none]

theorem key_of_find? {t : Table key} {k : κ} {r : ρ} (h : t.find? k = some r) : key r = k :=
  ((t.find?_eq_some_iff k r).mp h).2

theorem mem_of_find? {t : Table key} {k : κ} {r : ρ} (h : t.find? k = some r) : r ∈ t.rows :=
  ((t.find?_eq_some_iff k r).mp h).1

theorem find?_of_mem {t : Table key} {r : ρ} (h : r ∈ t.rows) : t.find? (key r) = some r :=
  (t.find?_eq_some_iff _ r).mpr ⟨h, rfl⟩

theorem rows_insert {t t' : Table key} {r : ρ} (h : t.insert r = some t') :
    t'.rows = t.rows ++ [r] ∧ t.find? (key r) = none := by
  unfold insert at h
  split at h
  · cases h
  · rename_i hk
    cases h
    exact ⟨rfl, (t.find?_eq_none_iff _).mpr hk⟩

theorem insert_eq_none_iff (t : Table key) (r : ρ) :
    t.insert r = none ↔ ∃ r', t.find? (key r) = some r' := by
  rw [← Option.ne_none_iff_exists', ne_eq, t.find?_eq_none_iff, not_not]
  unfold insert
  split <;> simp_all

theorem find?_insert {t t' : Table key} {r : ρ} (h : t.insert r = some t') (k : κ) :
    t'.find? k = if key r = k then some r else t.find? k := by
  obtain ⟨hrows, hnone⟩ := rows_insert h
  by_cases hk : key r = k
  · subst hk
    rw [if_pos rfl]
    exact (t'.find?_eq_some_iff _ r).mpr ⟨by simp [hrows], rfl⟩
  · simp [find?, hrows, hk]

theorem find?_of_rows_map {t t' : Table key} {f : ρ → ρ} (h : t'.rows = t.rows.map f)
    (hf : ∀ r, key (f r) = key r) (k : κ) : t'.find? k = (t.find? k).map f := by
  have hk : ((fun r => decide (key r = k)) ∘ f) = fun r => decide (key r = k) := by
    funext r
    simp [hf]
  rw [find?, h, List.find?_map, hk]
  rfl

theorem find?_update (t : Table key) (p : ρ → Bool) (f : ρ → ρ) (hf : ∀ r, key (f r) = key r) (k : κ) :
    (t.update p f hf).find? k = (t.find? k).map fun r => if p r then f r else r := by
  refine find?_of_rows_map (t.rows_update p f hf) (fun r => ?_) k
  by_cases hp : p r <;> simp [hp, hf]

theorem find?_of_rows_append {t t' : Table key} {rs : List ρ} (h : t'.rows = t.rows ++ rs) {k : κ} {r : ρ}
    (hr : t.find? k = some r) : t'.find? k = some r := by
  rw [find?, h, List.find?_append, show t.rows.find? (fun r => decide (key r = k)) = some r from hr]
  rfl

theorem find?_of_insert {t t' : Table key} {r r₀ : ρ} (h : t.insert r₀ = some t') {k : κ}
    (hr : t.find? k = some r) : t'.find? k = some r :=
  find?_of_rows_append (rows_insert h).1 hr

/-- An `UPDATE … WHERE key = k` leaves every other row alone. -/
theorem find?_update_key (t : Table key) (k k' : κ) (f : ρ → ρ) (hf : ∀ r, key (f r) = key r) :
    (t.update (fun r => decide (key r = k)) f hf).find? k' =
      if k' = k then (t.find? k).map f else t.find? k' := by
  rw [find?_update]
  by_cases hk : k' = k
  · subst hk
    cases h : t.find? k' with
    | none => simp
    | some r => simp [key_of_find? h]
  · cases h : t.find? k' with
    | none => simp [hk]
    | some r => simp [key_of_find? h, hk]

theorem rows_update_key {t : Table key} {k : κ} {r : ρ} (h : t.find? k = some r) :
    ∃ l₁ l₂, t.rows = l₁ ++ r :: l₂ ∧ ∀ (f : ρ → ρ) (hf : ∀ r, key (f r) = key r),
      (t.update (fun r => decide (key r = k)) f hf).rows = l₁ ++ f r :: l₂ := by
  obtain ⟨l₁, l₂, hrows⟩ := List.append_of_mem (mem_of_find? h)
  have hk : key r = k := key_of_find? h
  have hnd := t.nodup
  rw [hrows, List.map_append, List.map_cons, List.nodup_append, List.nodup_cons] at hnd
  obtain ⟨-, ⟨hr₂, -⟩, hdis⟩ := hnd
  refine ⟨l₁, l₂, hrows, fun f hf => ?_⟩
  have h₁ : l₁.map (fun x => if decide (key x = k) then f x else x) = l₁ := by
    refine (List.map_congr_left fun x hx => ?_).trans (List.map_id _)
    have hne : key x ≠ key r := hdis _ (List.mem_map_of_mem hx) _ List.mem_cons_self
    simp [← hk, hne]
  have h₂ : l₂.map (fun x => if decide (key x = k) then f x else x) = l₂ := by
    refine (List.map_congr_left fun x hx => ?_).trans (List.map_id _)
    have hne : key x ≠ key r := fun he => hr₂ (he ▸ List.mem_map_of_mem hx)
    simp [← hk, hne]
  rw [rows_update, hrows, List.map_append, List.map_cons, h₁, h₂]
  simp [hk]

theorem count_delete_key {t : Table key} {k : κ} {r : ρ} (h : t.find? k = some r) (p : ρ → Bool) :
    (t.delete fun r => decide (key r = k)).count p + (p r).toNat = t.count p := by
  obtain ⟨l₁, l₂, hrows⟩ := List.append_of_mem (mem_of_find? h)
  have hk : key r = k := key_of_find? h
  have hnd := t.nodup
  rw [hrows, List.map_append, List.map_cons, List.nodup_append, List.nodup_cons] at hnd
  obtain ⟨-, ⟨hr₂, -⟩, hdis⟩ := hnd
  have h₁ : l₁.filter (fun x => !decide (key x = k)) = l₁ := by
    apply List.filter_eq_self.mpr
    intro x hx
    have hne : key x ≠ key r := hdis _ (List.mem_map_of_mem hx) _ List.mem_cons_self
    simp [← hk, hne]
  have h₂ : l₂.filter (fun x => !decide (key x = k)) = l₂ := by
    apply List.filter_eq_self.mpr
    intro x hx
    have hne : key x ≠ key r := fun he => hr₂ (he ▸ List.mem_map_of_mem hx)
    simp [← hk, hne]
  rw [count, count, rows_delete, hrows, List.filter_append, h₁, List.filter_cons_of_neg (by simp [hk]), h₂,
    List.countP_append, List.countP_append, List.countP_cons]
  cases p r with
  | false => simp
  | true =>
    simp only [Bool.toNat_true, if_true]
    omega

theorem count_le_of_find? {t t' : Table key} {p : ρ → Bool} (K : List κ)
    (h : ∀ k r', t'.find? k = some r' → p r' = true → k ∈ K ∨ ∃ r, t.find? k = some r ∧ p r = true) :
    t'.count p ≤ t.count p + K.length := by
  have hsub : (t'.rows.filter p).map key ⊆ K ++ (t.rows.filter p).map key := by
    intro k hk
    obtain ⟨r', hr', rfl⟩ := List.mem_map.mp hk
    obtain ⟨hm, hp⟩ := List.mem_filter.mp hr'
    rcases h _ r' (find?_of_mem hm) hp with hK | ⟨r, hr, hpr⟩
    · exact List.mem_append_left _ hK
    · refine List.mem_append_right _ (List.mem_map.mpr ⟨r, ?_, key_of_find? hr⟩)
      exact List.mem_filter.mpr ⟨mem_of_find? hr, hpr⟩
  have hnd : ((t'.rows.filter p).map key).Nodup := t'.nodup.sublist (List.filter_sublist.map key)
  have hlen := (hnd.subperm hsub).length_le
  simp only [List.length_append, List.length_map, ← List.countP_eq_length_filter] at hlen
  simpa only [count, Nat.add_comm] using hlen

theorem count_le_one {t : Table key} {p : ρ → Bool}
    (h : ∀ r ∈ t.rows, ∀ r' ∈ t.rows, p r = true → p r' = true → key r = key r') : t.count p ≤ 1 := by
  by_cases he : ∃ r ∈ t.rows, p r = true
  · obtain ⟨r, hr, hp⟩ := he
    refine (count_le_of_find? (t := empty) [key r] fun k r' hr' hp' => .inl ?_).trans (by simp [count])
    rw [← key_of_find? hr', h r' (mem_of_find? hr') r hr hp' hp]
    exact List.mem_singleton_self _
  · have hz : t.count p = 0 := by
      rw [count, List.countP_eq_zero]
      exact fun r hr hp => he ⟨r, hr, hp⟩
    omega

/-- A row, as it was or as it is, at a key where the table has changed. -/
def Changed (t t' : Table key) (r : ρ) : Prop :=
  (t.find? (key r) = some r ∨ t'.find? (key r) = some r) ∧ t'.find? (key r) ≠ t.find? (key r)

theorem not_changed_self (t : Table key) (r : ρ) : ¬ Changed t t r := fun h => h.2 rfl

theorem changed_insert_iff {t t' : Table key} {r₀ : ρ} (h : t.insert r₀ = some t') (r : ρ) :
    Changed t t' r ↔ r = r₀ := by
  have hnone : t.find? (key r₀) = none := (rows_insert h).2
  constructor
  · rintro ⟨hr, hne⟩
    by_cases hk : key r₀ = key r
    · rw [find?_insert h, if_pos hk, ← hk, hnone] at hr
      rcases hr with hr | hr
      · cases hr
      · exact (Option.some_inj.mp hr).symm
    · rw [find?_insert h, if_neg hk] at hne
      exact absurd rfl hne
  · rintro rfl
    have hr : t'.find? (key r) = some r := by rw [find?_insert h, if_pos rfl]
    exact ⟨.inr hr, by rw [hr, hnone]; exact Option.some_ne_none r⟩

theorem changed_update_iff (t : Table key) (p : ρ → Bool) (f : ρ → ρ) (hf : ∀ r, key (f r) = key r) (r : ρ) :
    Changed t (t.update p f hf) r ↔
      ∃ r₀ ∈ t.rows, p r₀ = true ∧ f r₀ ≠ r₀ ∧ (r = r₀ ∨ r = f r₀) := by
  constructor
  · rintro ⟨hr, hne⟩
    rw [find?_update] at hr hne
    cases hfind : t.find? (key r) with
    | none => simp [hfind] at hne
    | some r₀ =>
      rw [hfind, Option.map_some] at hr hne
      cases hp : p r₀ with
      | false => simp [hp] at hne
      | true =>
        simp only [hp, if_true, Option.some_inj] at hr hne
        refine ⟨r₀, mem_of_find? hfind, hp, fun he => hne (congrArg some he), ?_⟩
        rcases hr with hr | hr
        · exact .inl hr.symm
        · exact .inr hr.symm
  · rintro ⟨r₀, hmem, hp, hne, hr⟩
    have hk : key r = key r₀ := by
      rcases hr with rfl | rfl
      · rfl
      · exact hf r₀
    unfold Changed
    rw [find?_update, hk, find?_of_mem hmem, Option.map_some, if_pos hp]
    refine ⟨?_, fun he => hne (Option.some_inj.mp he)⟩
    rcases hr with rfl | rfl
    · exact .inl rfl
    · exact .inr rfl

theorem changed_update_of_find? {t : Table key} {k : κ} {r₀ : ρ} (h : t.find? k = some r₀) {p : ρ → Bool}
    (hp : ∀ r, p r = true → key r = k) {f : ρ → ρ} (hf : ∀ r, key (f r) = key r) {r : ρ}
    (hc : Changed t (t.update p f hf) r) : f r₀ ≠ r₀ ∧ (r = r₀ ∨ r = f r₀) := by
  obtain ⟨r₁, hr₁, hp₁, hne, hr⟩ := (changed_update_iff t p f hf r).mp hc
  have hfind := find?_of_mem hr₁
  rw [hp r₁ hp₁, h] at hfind
  cases hfind
  exact ⟨hne, hr⟩

end Keyed
end Table

/-! ## A second key -/

/-- A table with a UNIQUE constraint besides its primary key. -/
structure UniqueTable {ρ κ υ : Type} (key : ρ → κ) (column : ρ → υ) extends Table key where
  unique : (rows.map column).Nodup

namespace UniqueTable
variable {ρ κ υ : Type} {key : ρ → κ} {column : ρ → υ}

def empty : UniqueTable key column := ⟨Table.empty, List.nodup_nil⟩

def Accepts (t : UniqueTable key column) (r : ρ) : Prop :=
  key r ∉ t.rows.map key ∧ column r ∉ t.rows.map column

instance [DecidableEq κ] [DecidableEq υ] (t : UniqueTable key column) (r : ρ) : Decidable (t.Accepts r) :=
  inferInstanceAs (Decidable (_ ∧ _))

/-- `INSERT` of a row that neither constraint refuses. -/
def append (t : UniqueTable key column) (r : ρ) (h : t.Accepts r) : UniqueTable key column where
  rows := t.rows ++ [r]
  nodup := t.insert_nodup r h.1
  unique := by
    rw [List.map_append, List.map_singleton]
    exact t.unique.append (List.nodup_singleton _) (by simpa using h.2)

/-- `UPDATE`, for an assignment that leaves both keys alone. -/
def update (t : UniqueTable key column) (p : ρ → Bool) (f : ρ → ρ) (hf : ∀ r, key (f r) = key r)
    (hcolumn : ∀ r, column (f r) = column r) : UniqueTable key column where
  toTable := t.toTable.update p f hf
  unique := by
    have hk : (column ∘ fun r => if p r then f r else r) = column := by
      funext r
      by_cases hp : p r <;> simp [hp, hcolumn]
    rw [Table.rows_update, List.map_map, hk]
    exact t.unique

/-- `SELECT … WHERE column = c`. -/
def findBy? [DecidableEq υ] (t : UniqueTable key column) (c : υ) : Option ρ :=
  t.rows.find? fun r => decide (column r = c)

@[simp] theorem rows_append (t : UniqueTable key column) (r : ρ) (h : t.Accepts r) :
    (t.append r h).rows = t.rows ++ [r] := rfl

@[simp] theorem rows_update (t : UniqueTable key column) (p : ρ → Bool) (f : ρ → ρ) (hf : ∀ r, key (f r) = key r)
    (hcolumn : ∀ r, column (f r) = column r) :
    (t.update p f hf hcolumn).rows = t.rows.map fun r => if p r then f r else r := rfl

theorem findBy?_eq_some_iff [DecidableEq υ] (t : UniqueTable key column) (c : υ) (r : ρ) :
    t.findBy? c = some r ↔ r ∈ t.rows ∧ column r = c :=
  Table.find?_eq_some_iff (⟨t.rows, t.unique⟩ : Table column) c r

theorem findBy?_eq_none_iff [DecidableEq υ] (t : UniqueTable key column) (c : υ) :
    t.findBy? c = none ↔ c ∉ t.rows.map column :=
  Table.find?_eq_none_iff (⟨t.rows, t.unique⟩ : Table column) c

end UniqueTable

/-! ## Transactions -/

section Transactions
variable {σ : Type}

/-- A statement on a database; `none` where a constraint makes it fail. -/
abbrev Statement (σ : Type) := σ → Option σ

/-- How a `COMMIT`, or a statement that commits by itself, ends: answered by the server, or
failed before or after the server has acted on it. -/
inductive CommitOutcome
  | acknowledged
  | lostBefore
  | lostAfter
  deriving DecidableEq, Repr

def applyAll : List (Statement σ) → σ → Option σ
  | [], db => some db
  | q :: qs, db => (q db).bind (applyAll qs)

/-- Issue the statements in order, ignoring their errors; statement `i` also fails where
`fails i`. A failed statement aborts the transaction (`none`), and every later one fails. -/
def issue (fails : ℕ → Bool) : ℕ → List (Statement σ) → Option σ → Option σ
  | _, [], tx => tx
  | i, q :: qs, tx => issue fails (i + 1) qs (if fails i then none else tx.bind q)

/-- `COMMIT` of an aborted transaction rolls back and is answered without an error. -/
def commit (before : σ) (tx : Option σ) : CommitOutcome → σ × Bool
  | .acknowledged => (tx.getD before, true)
  | .lostBefore => (before, false)
  | .lostAfter => (tx.getD before, false)

@[simp] theorem issue_aborted (fails : ℕ → Bool) (i : ℕ) (qs : List (Statement σ)) :
    issue fails i qs none = none := by
  induction qs generalizing i with
  | nil => rfl
  | cons q qs ih => simp [issue, ih]

theorem issue_eq_some {fails : ℕ → Bool} {i : ℕ} {qs : List (Statement σ)} {db db' : σ}
    (h : issue fails i qs (some db) = some db') : applyAll qs db = some db' := by
  induction qs generalizing i db with
  | nil => exact h
  | cons q qs ih =>
    simp only [issue, Option.bind_some] at h
    split at h
    · simp at h
    · cases hq : q db with
      | none => simp [hq] at h
      | some db₁ =>
        rw [hq] at h
        simpa [applyAll, hq] using ih h

end Transactions

end Relational
