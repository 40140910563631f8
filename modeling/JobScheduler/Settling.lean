import JobScheduler.Accounting
import JobScheduler.Orphans
import JobScheduler.Starvation
import JobScheduler.Timing

namespace JobScheduler
open Relational Transition

/-- The statements of the executors take effect, recovery spares the jobs they work on, and jobs are
created from complete requests. -/
def Sys.dependable (s : Sys) (l : Label) : Bool := s.orderly l && s.executorsFinish l && l.requestsComplete

namespace View

def inFlight (v : View) : List Task := v.tasks.filter Task.inFlight

end View

section Steps
variable {cron : Cron} {s s' : Sys} {l : Label} {j : Uuid} {v : View} {r : Job}

end Steps

section Runs
variable {cron : Cron} {b : Behaviour (scheduler cron) fun s l => s.dependable l} {n m : ℕ} {j : Uuid} {r : Job}

def AtRest (b : Behaviour (scheduler cron) fun s l => s.dependable l) (m : ℕ) : Prop :=
  ∀ k, m ≤ k → ∀ j r, (b.state k).db.jobs.find? j = some r →
    (b.state (k + 1)).db.jobs.find? j = some r ∧
      ((b.state (k + 1)).view j).inFlight = ((b.state k).view j).inFlight

theorem AtRest.mono (h : AtRest b m) {k : ℕ} (hk : m ≤ k) : AtRest b k := fun i hi => h i (hk.trans hi)

theorem AtRest.later (h : AtRest b m) (hr : (b.state m).db.jobs.find? j = some r) {k : ℕ} (hk : m ≤ k) :
    (b.state k).db.jobs.find? j = some r ∧ ((b.state k).view j).inFlight = ((b.state m).view j).inFlight := by
  induction k, hk using Nat.le_induction with
  | base => exact ⟨hr, rfl⟩
  | succ k hk ih =>
    obtain ⟨hrow, hf⟩ := h k hk j r ih.1
    exact ⟨hrow, hf.trans ih.2⟩

/-! ## What moves a job that is not settled -/

variable (hclock : ∀ t, ∃ k, t ≤ (b.state k).now) (hrest : AtRest b m)
  (hr : (b.state m).db.jobs.find? j = some r)
include hclock hrest hr

end Runs

namespace Sample

structure Idle (s : Sys) : Prop where
  tasks : s.tasks.table.rows = []
  alive : 7 ∉ s.crashed
  registered : (s.db.workers.find? 7).isSome = true
  completed : ∀ r ∈ s.db.jobs.rows, r.status = .completed

theorem Idle.updateJobs {s : Sys} (h : Idle s) {p : Job → Bool} (hp : ∀ r, r.status = .completed → p r = false)
    (f : Job → Job) (hf : ∀ r, (f r).id = r.id) : Idle { s with db := s.db.updateJobs p f hf } where
  tasks := h.tasks
  alive := h.alive
  registered := h.registered
  completed := by
    intro r hr
    obtain ⟨r₀, hr₀, rfl⟩ := List.mem_map.mp hr
    rw [if_neg (by simp [hp r₀ (h.completed r₀ hr₀)])]
    exact h.completed r₀ hr₀

theorem Idle.nextClaimable {s : Sys} (h : Idle s) (q : Uuid) : nextClaimable s.db s.now q [] = none := by
  rw [nextClaimable_eq_none_iff, List.eq_nil_iff_forall_not_mem]
  intro r hr
  obtain ⟨hmem, hc, _⟩ := mem_dueJobs.mp hr
  have hqueued := claimable_status hc
  rw [h.completed r hmem] at hqueued
  cases hqueued

end Sample

end JobScheduler
