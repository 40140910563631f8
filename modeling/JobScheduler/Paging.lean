import JobScheduler.Handlers
import JobScheduler.Progress

namespace JobScheduler
open Relational Transition

/-! ## The statements that are cut to a page -/

/-- `JobRepository::list_by_queue`. -/
def ListsByQueue (db : Db) (queueId : Uuid) (limit offset : ℤ) (answer : List Job) : Prop :=
  IsPage Job.createdAt (db.jobs.rows.filter fun j => decide (j.queueId = queueId)) limit offset answer

/-- `DlqRepository::list_by_project`. -/
def ListsByProject (db : Db) (projectId : Uuid) (limit offset : ℤ) (answer : List DeadLetterEntry) : Prop :=
  IsPage DeadLetterEntry.movedToDlqAt (db.deadLetterQueue.rows.filter fun d => decide (d.projectId = projectId))
    limit offset answer

theorem listJobs_lists {db : Db} {queueId : Uuid} {params : ListJobsQuery} {resp : HttpResponse}
    (h : Handlers.listJobs db queueId params = .ok resp) :
    ∃ jobs, ListsByQueue db queueId params.limit params.offset jobs ∧
      resp = ⟨200, .object [("jobs", .array (jobs.map Job.summaryValue)), ("limit", .int params.limit),
        ("offset", .int params.offset)]⟩ := by
  unfold Handlers.listJobs at h
  cases hp : page params.limit params.offset (jobsOfQueue db queueId) with
  | error e =>
    rw [hp] at h
    cases h
  | ok jobs =>
    rw [hp] at h
    exact ⟨jobs, ⟨_, orderByDesc_isListing _, hp⟩, (Except.ok.inj h).symm⟩

theorem listDlq_lists {db : Db} {params : ListDlqQuery} {resp : HttpResponse}
    (h : Handlers.listDlq db params = .ok resp) :
    ∃ entries, ListsByProject db params.projectId params.limit params.offset entries ∧
      resp = ⟨200, .object [("entries", .array (entries.map DeadLetterEntry.toValue))]⟩ := by
  unfold Handlers.listDlq at h
  cases hp : page params.limit params.offset (entriesOfProject db params.projectId) with
  | error e =>
    rw [hp] at h
    cases h
  | ok entries =>
    rw [hp] at h
    exact ⟨entries, ⟨_, orderByDesc_isListing _, hp⟩, (Except.ok.inj h).symm⟩

section Runs
variable {cron : Cron} {ok : Sys → Label → Prop} {b : Behaviour (scheduler cron) ok} {n m : ℕ}

theorem job_stays {r : Job} (hm : n ≤ m) (hr : r ∈ (b.state n).db.jobs.rows) :
    ∃ r' ∈ (b.state m).db.jobs.rows, r'.id = r.id ∧ r'.queueId = r.queueId ∧ r'.createdAt = r.createdAt := by
  obtain ⟨r', hr', hs⟩ := Behaviour.persists (b := b)
    (I := fun s => ∃ r', s.db.jobs.find? r.id = some r' ∧ r'.asSubmitted = r.asSubmitted)
    ⟨r, Table.find?_of_mem hr, rfl⟩ (fun _ _ _ _ ⟨r', hr', hs⟩ hn =>
      let ⟨r'', hr'', hs'⟩ := (next_carries hn).jobs _ r' hr'
      ⟨r'', hr'', hs'.trans hs⟩) hm
  exact ⟨r', Table.mem_of_find? hr', Table.key_of_find? hr', (Job.of_asSubmitted hs).1,
    congrArg (fun j => j.createdAt) hs⟩

theorem entry_stays {d : DeadLetterEntry} (hm : n ≤ m) (hd : d ∈ (b.state n).db.deadLetterQueue.rows) :
    ∃ d' ∈ (b.state m).db.deadLetterQueue.rows, d'.id = d.id ∧ d'.projectId = d.projectId ∧
      d'.movedToDlqAt = d.movedToDlqAt := by
  obtain ⟨d', hd', hs⟩ := Behaviour.persists (b := b)
    (I := fun s => ∃ d', s.db.deadLetterQueue.find? d.id = some d' ∧ d'.content = d.content)
    ⟨d, Table.find?_of_mem hd, rfl⟩ (fun _ _ _ _ ⟨d', hd', hs⟩ hn =>
      let ⟨d'', hd'', hs', _⟩ := (next_tables hn).grows.dead _ d' hd'
      ⟨d'', hd'', hs'.trans hs⟩) hm
  exact ⟨d', Table.mem_of_find? hd', Table.key_of_find? hd', congrArg (fun e => e.projectId) hs,
    congrArg (fun e => e.movedToDlqAt) hs⟩

variable {t : ℕ → ℕ} {limit : ℕ}

/-- A client that asks for one page of a queue after the other, while the system goes on, until a page
is not full, has been shown every job that was in the queue when it began, each with its row as it was when
its page was read, unless another job of the queue was created at the same time. -/
theorem pages_show_every_job (ht : Monotone t) {queueId : Uuid} {pages : ℕ → List Job}
    (hpages : ∀ i, i ≤ n → ListsByQueue (b.state (t i)).db queueId limit (i * limit : ℕ) (pages i))
    (hlast : (pages n).length < limit) {r : Job} (hr : r ∈ (b.state (t 0)).db.jobs.rows)
    (hq : r.queueId = queueId)
    (hties : ∀ i, i ≤ n → ∀ x ∈ (b.state (t i)).db.jobs.rows, x.queueId = queueId → x.createdAt = r.createdAt →
      x.id = r.id) :
    ∃ i, i ≤ n ∧ ∃ x ∈ pages i, (b.state (t i)).db.jobs.find? r.id = some x := by
  have hgrow (i : ℕ) : ∀ x ∈ (b.state (t i)).db.jobs.rows.filter fun j => decide (j.queueId = queueId),
      ∃ x' ∈ (b.state (t (i + 1))).db.jobs.rows.filter fun j => decide (j.queueId = queueId),
        x'.id = x.id ∧ x'.createdAt = x.createdAt := by
    intro x hx
    obtain ⟨hmem, hxq⟩ := List.mem_filter.mp hx
    obtain ⟨x', hx', hid, hq', hc⟩ := job_stays (ht (Nat.le_succ i)) hmem
    exact ⟨x', List.mem_filter.mpr ⟨hx', by rw [hq']; exact hxq⟩, hid, hc⟩
  obtain ⟨i, hi, x, hx, hmem, hid⟩ := mem_page_of_grows Job.id _
    (fun i => (b.state (t i)).db.jobs.nodup.sublist (List.filter_sublist.map _)) hgrow hpages hlast
    (List.mem_filter.mpr ⟨hr, decide_eq_true hq⟩) fun i hi x hx =>
      hties i hi x (List.mem_filter.mp hx).1 (of_decide_eq_true (List.mem_filter.mp hx).2)
  exact ⟨i, hi, x, hx, hid ▸ Table.find?_of_mem (List.mem_filter.mp hmem).1⟩

/-- The same of the dead letters of a project. -/
theorem pages_show_every_entry (ht : Monotone t) {projectId : Uuid} {pages : ℕ → List DeadLetterEntry}
    (hpages : ∀ i, i ≤ n → ListsByProject (b.state (t i)).db projectId limit (i * limit : ℕ) (pages i))
    (hlast : (pages n).length < limit) {d : DeadLetterEntry}
    (hd : d ∈ (b.state (t 0)).db.deadLetterQueue.rows) (hp : d.projectId = projectId)
    (hties : ∀ i, i ≤ n → ∀ x ∈ (b.state (t i)).db.deadLetterQueue.rows, x.projectId = projectId →
      x.movedToDlqAt = d.movedToDlqAt → x.id = d.id) :
    ∃ i, i ≤ n ∧ ∃ x ∈ pages i, (b.state (t i)).db.deadLetterQueue.find? d.id = some x := by
  have hgrow (i : ℕ) : ∀ x ∈ (b.state (t i)).db.deadLetterQueue.rows.filter fun d => decide (d.projectId = projectId),
      ∃ x' ∈ (b.state (t (i + 1))).db.deadLetterQueue.rows.filter fun d => decide (d.projectId = projectId),
        x'.id = x.id ∧ x'.movedToDlqAt = x.movedToDlqAt := by
    intro x hx
    obtain ⟨hmem, hxp⟩ := List.mem_filter.mp hx
    obtain ⟨x', hx', hid, hp', hm⟩ := entry_stays (ht (Nat.le_succ i)) hmem
    exact ⟨x', List.mem_filter.mpr ⟨hx', by rw [hp']; exact hxp⟩, hid, hm⟩
  obtain ⟨i, hi, x, hx, hmem, hid⟩ := mem_page_of_grows DeadLetterEntry.id _
    (fun i => (b.state (t i)).db.deadLetterQueue.nodup.sublist (List.filter_sublist.map _)) hgrow hpages hlast
    (List.mem_filter.mpr ⟨hd, decide_eq_true hp⟩) fun i hi x hx =>
      hties i hi x (List.mem_filter.mp hx).1 (of_decide_eq_true (List.mem_filter.mp hx).2)
  exact ⟨i, hi, x, hx, hid ▸ Table.find?_of_mem (List.mem_filter.mp hmem).1⟩

end Runs

/-! Two jobs, of which the older one is on the second page, until a third job comes in. -/

namespace Sample

def submissions : List Label :=
  [.createJob 1 2 queue (request 3), .tick 1, .createJob 3 4 queue (request 3), .tick 2,
    .createJob 5 6 queue (request 3)]

def submitting (n : ℕ) : Label := submissions[n]?.getD (.tick n)

def submittedStates : ℕ → Sys := Behaviour.states (scheduler cron) sys submitting

theorem submitting_next {n : ℕ} (hn : 5 ≤ n) :
    submitting n = .tick n ∧ (submittedStates n).now ≤ n := by
  have htick {n : ℕ} (hn : 5 ≤ n) : submitting n = .tick n := by
    rw [submitting, List.getElem?_eq_none (by simpa [submissions] using hn)]
    rfl
  refine ⟨htick hn, ?_⟩
  induction n, hn using Nat.le_induction with
  | base => decide
  | succ n hn ih =>
    have hstate : submittedStates (n + 1) = { submittedStates n with now := n } := by
      show ((submittedStates n).next cron (submitting n)).getD _ = _
      rw [htick hn]
      exact congrArg (Option.getD · _) (if_pos ih)
    rw [hstate]
    exact Int.ofNat_le.mpr (Nat.le_succ n)

theorem submitting_enabled (n : ℕ) : ((submittedStates n).next cron (submitting n)).isSome = true := by
  by_cases hn : 5 ≤ n
  · obtain ⟨hl, hnow⟩ := submitting_next hn
    rw [hl]
    show (if (submittedStates n).now ≤ n then some _ else none).isSome = true
    rw [if_pos hnow]
    rfl
  · interval_cases n <;> decide

def submittingRun : Behaviour (scheduler cron) fun _ _ => True :=
  .ofLabels sys_initial submitting (fun _ => trivial) submitting_enabled

def readAt (i : ℕ) : ℕ := if i = 0 then 3 else 5

def shown (i : ℕ) : List Job := ((jobsOfQueue (submittedStates (readAt i)).db 10).drop i).take 1

theorem shown_lists (i : ℕ) :
    ListsByQueue (submittedStates (readAt i)).db 10 (1 : ℕ) (i * 1 : ℕ) (shown i) := by
  refine ⟨_, orderByDesc_isListing _, ?_⟩
  rw [page_ok (Int.natCast_nonneg _) (Int.natCast_nonneg _), Int.toNat_natCast, Int.toNat_natCast, Nat.mul_one]
  rfl

end Sample

theorem pages_show_every_job_sample :
    (List.range 4).map (fun i => (Sample.shown i).map Job.id) = [[3], [3], [1], []] ∧
      ∃ r, (Sample.submittingRun.state 3).db.jobs.find? 1 = some r ∧ ∃ i, i ≤ 3 ∧ ∃ x ∈ Sample.shown i,
        (Sample.submittingRun.state (Sample.readAt i)).db.jobs.find? r.id = some x := by
  have hmono : Monotone Sample.readAt := by
    intro i j hij
    unfold Sample.readAt
    split_ifs <;> omega
  have hties : ∀ m ∈ [3, 5], ∀ x ∈ (Sample.submittedStates m).db.jobs.rows, x.createdAt = 0 → x.id = 1 := by decide
  refine ⟨by decide, _, rfl, pages_show_every_job hmono (fun i _ => Sample.shown_lists i) (by decide)
    (Table.mem_of_find? (k := 1) rfl) rfl fun i _ x hx _ => hties (Sample.readAt i) ?_ x hx⟩
  unfold Sample.readAt
  split <;> simp

end JobScheduler
