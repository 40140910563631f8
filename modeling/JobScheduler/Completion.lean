import JobScheduler.ActiveJobs
import JobScheduler.Settling

namespace JobScheduler
open Relational Transition

/-! ## The scheduler behind the processes -/

/-- The step of the scheduler behind the step of a process: a statement that changes nothing of it is
a tick that lets no time pass. -/
def Process.coreLabel (p : Process) (w : Uuid) (s : Sys) : Action → Label
  | .register name hostname => .register w name hostname
  | .upsertHeartbeat true =>
    match p.beating with
    | some v => if (JobScheduler.upsertHeartbeat s.db s.now w v).isOk then .heartbeat w v else .tick s.now
    | none => .tick s.now
  | .claimNextJob locked true =>
    match p.cursor with
    | .counted q _ => .claim w q.id locked
    | _ => .tick s.now
  | _ => .tick s.now

def Cluster.coreLabel (s : Cluster) : ClusterLabel → Label
  | .core l => l
  | .start _ _ => .tick s.core.now
  | .own w a =>
    match s.processes w with
    | some p => p.coreLabel w s.core a
    | none => .tick s.core.now

def Cluster.dependable (s : Cluster) : ClusterLabel → Bool
  | .core l => s.core.dependable l
  | _ => true

section Core
variable {cron : Cron} {s s' : Cluster} {l : ClusterLabel} {w : Uuid} {p p' : Process} {a : Action} {core c : Sys}

theorem Sys.tick_next (s : Sys) : s.next cron (.tick s.now) = some s := if_pos le_rfl

theorem Process.Step.next_core (h : p.Step cron w core a p' c) (hw : w ∉ core.crashed) :
    core.next cron (p.coreLabel w core a) = some c := by
  cases h with
  | register _ hn => exact hn
  | @upsertHeartbeat sent v hb =>
    cases sent with
    | false => exact core.tick_next
    | true =>
      simp only [coreLabel, hb, Sys.beat]
      cases hv : JobScheduler.upsertHeartbeat core.db core.now w v with
      | ok db =>
        show (if w ∈ core.crashed then none else core.withDb (JobScheduler.upsertHeartbeat core.db core.now w v)) = _
        rw [if_neg hw, hv]
        rfl
      | error e => exact core.tick_next
  | claimed hc _ hn =>
    simp only [coreLabel, hc]
    exact hn
  | @notClaimed q rest locked ok hc hj =>
    cases ok with
    | false => exact core.tick_next
    | true =>
      simp only [coreLabel, hc]
      show (if w ∈ core.crashed then none else some (core.claim w q.id locked)) = some core
      rw [if_neg hw, Sys.claim]
      -- the statement returns no row or an error
      rw [Bool.true_and, Sys.claims] at hj
      split
      · rename_i job db hclaim
        rw [hclaim] at hj
        cases hj
      · rfl
      · rfl
  | _ => exact core.tick_next

theorem Cluster.next_core (hn : s.next cron l = some s') :
    s.core.next cron (s.coreLabel l) = some s'.core := by
  cases step hn with
  | core _ hc => exact hc
  | start _ => exact s.core.tick_next
  | own hw hp hstep =>
    simp only [coreLabel, hp]
    exact hstep.next_core hw

end Core

def Action.polls : Action → Bool
  | .tick | .findById _ | .endPass | .countRunningJobs _ | .claimNextJob _ _ => true
  | _ => false

def Action.goesThrough (j : Uuid) : Action → Bool
  | .findById ok | .countRunningJobs ok => ok
  | .claimNextJob locked ok => ok && j ∉ locked
  | _ => true

def Cursor.queue? : Cursor → Option Uuid
  | .pass (queueId :: _) => some queueId
  | .read q _ | .counted q _ => some q.id
  | _ => none

def Db.opens (db : Db) (q : Uuid) : Prop :=
  ∃ row, db.queues.find? q = some row ∧ row.isPaused = false ∧ 0 < row.concurrencyLimit.toInt

section Loop
variable {cron : Cron} {w q j id : Uuid} {queueIds rest : List Uuid} {p p' : Process} {a : Action} {core c : Sys}

end Loop

section Steps
variable {cron : Cron} {s s' : Cluster} {l : ClusterLabel} {w : Uuid} {p : Process}

theorem Cluster.process_next (hp : s.processes w = some p) (hn : s.next cron l = some s') :
    ∃ p', s'.processes w = some p' ∧ p'.queueIds = p.queueIds ∧
      (∀ a, l = .own w a → p.Step cron w s.core a p' s'.core) ∧
      ((∀ a, l = .own w a → a.polls = false) → p'.cursor = p.cursor) := by
  cases step hn with
  | @core l c _ _ =>
    have hp' : (s.owe (l.returning s.core c)).processes w = _ := congrArg (Option.map _) hp
    refine ⟨_, hp', ?_⟩
    split <;> exact ⟨rfl, nofun, fun _ => rfl⟩
  | @start w' queueIds hw =>
    have hne : w ≠ w' := by
      rintro rfl
      rw [hw.process] at hp
      cases hp
    exact ⟨p, (setProcess_processes s w' _ w).trans ((if_neg hne).trans hp), rfl, nofun, fun _ => rfl⟩
  | @own w' a p₀ p' c _ hp₀ hstep =>
    by_cases hw : w = w'
    · subst hw
      rw [hp] at hp₀
      cases hp₀
      refine ⟨p', (setProcess_processes s w p' w).trans (if_pos rfl), ?_, ?_, fun hnone => ?_⟩
      · cases hstep <;> rfl
      · rintro _ ⟨⟩
        exact hstep
      · have ha := hnone a rfl
        cases hstep <;> first | rfl | cases ha
    · refine ⟨p, (setProcess_processes s w' p' w).trans ((if_neg hw).trans hp), rfl, ?_, fun _ => rfl⟩
      rintro _ ⟨⟩
      exact absurd rfl hw

end Steps

section Runs
variable {cron : Cron} {b : Behaviour (cluster cron) fun s l => s.dependable l} {n m : ℕ} {w q j : Uuid}

/-- From the moment on worker `w` polls queue `q`, which is open: its loop goes on, and its statements
about the queue go through and do not find job `j` locked. -/
structure Polled (b : Behaviour (cluster cron) fun s l => s.dependable l) (n : ℕ) (w q j : Uuid) : Prop where
  listed : ∃ p, (b.state n).processes w = some p ∧ q ∈ p.queueIds
  opens : ∀ k, n ≤ k → (b.state k).core.db.opens q
  polls : Recurs fun k => ∃ a, b.label k = .own w a ∧ a.polls = true
  through : ∀ k, n ≤ k → ∀ a p, b.label k = .own w a → (b.state k).processes w = some p →
    p.cursor.queue? = some q → a.goesThrough j = true

theorem Polled.mono (h : Polled b n w q j) (hm : n ≤ m) : Polled b m w q j where
  listed := Behaviour.persists (b := b) (I := fun s => ∃ p, s.processes w = some p ∧ q ∈ p.queueIds) h.listed
    (fun _ _ _ _ ⟨_, hp, hq⟩ hn =>
      let ⟨p', hp', hids, _, _⟩ := Cluster.process_next hp hn
      ⟨p', hp', hids ▸ hq⟩) hm
  opens k hk := h.opens k (hm.trans hk)
  polls := h.polls
  through k hk := h.through k (hm.trans hk)

end Runs

namespace Sample

def patrolCursor : ℕ → Cursor
  | 2 => .pass [10]
  | 3 => .read queue []
  | 4 => .counted queue []
  | 5 => .pass []
  | _ => .ticker

structure Patrolling (s : Cluster) (n : ℕ) : Prop where
  idle : Idle s.core
  queue : s.core.db.queues.find? 10 = some queue
  now : s.core.now ≤ 500000 * n
  process : ∃ p, s.processes 7 = some p ∧ p.registered = true ∧ p.queueIds = [10] ∧
    p.cursor = patrolCursor ((n + 5) % 8) ∧ p.pollTick ≤ 500000 * n ∧ ((n + 5) % 8 = 1 → p.pollTick ≤ s.core.now)

theorem Patrolling.own {s : Cluster} {n : ℕ} {p p' : Process} {a : Action} (h : Patrolling s n)
    (hp : s.processes 7 = some p) (hnext : p.next cron 7 s.core a = some (p', s.core))
    (hreg : p'.registered = true) (hids : p'.queueIds = [10])
    (hcursor : p'.cursor = patrolCursor ((n + 1 + 5) % 8)) (hphase : (n + 1 + 5) % 8 ≠ 1)
    (htick : p'.pollTick ≤ 500000 * (n + 1)) :
    ∃ s', s.next cron (.own 7 a) = some s' ∧ Patrolling s' (n + 1) ∧
      ∀ j, (s'.core.db.jobs.find? j).isSome = true → (s.core.db.jobs.find? j).isSome = true := by
  refine ⟨{ s.setProcess 7 p' with core := s.core }, ?_, ⟨h.idle, h.queue, ?_, p', ?_, hreg, hids, hcursor, ?_, ?_⟩,
    fun _ hj => hj⟩
  · simp only [Cluster.next, if_neg h.idle.alive, hp, hnext, Option.bind_some, Option.map_some]
  · have := h.now
    push_cast
    linarith
  · exact (Cluster.setProcess_processes s 7 p' 7).trans (if_pos rfl)
  · push_cast
    exact htick
  · exact fun h => absurd h hphase

theorem Patrolling.core {s : Cluster} {n : ℕ} {l : Label} {c : Sys} (h : Patrolling s n)
    (hl : l.byWorker = false) (htask : l.task = none) (hnext : s.core.next cron l = some c) (hidle : Idle c)
    (hqueue : c.db.queues = s.core.db.queues) (hnow : c.now ≤ 500000 * (n + 1))
    (hcursor : patrolCursor ((n + 5) % 8) = patrolCursor ((n + 1 + 5) % 8))
    (hdue : (n + 1 + 5) % 8 = 1 → 500000 * n ≤ c.now)
    (hold : ∀ j, (c.db.jobs.find? j).isSome = true → (s.core.db.jobs.find? j).isSome = true) :
    ∃ s', s.next cron (.core l) = some s' ∧ Patrolling s' (n + 1) ∧
      ∀ j, (s'.core.db.jobs.find? j).isSome = true → (s.core.db.jobs.find? j).isSome = true := by
  obtain ⟨p, hp, hreg, hids, hcur, htick, _⟩ := h.process
  have hnone : l.returning s.core c = none := by
    unfold Label.returning
    split
    · rfl
    · rw [htask]
      rfl
  refine ⟨{ s.owe (l.returning s.core c) with core := c }, ?_,
    ⟨hidle, ?_, by push_cast; exact hnow, p, ?_, hreg, hids, hcur.trans hcursor, ?_, ?_⟩, hold⟩
  · simp only [Cluster.next, hl, Bool.false_eq_true, if_false, hnext, Option.map_some]
  · show c.db.queues.find? 10 = _
    rw [hqueue]
    exact h.queue
  · show (s.owe (l.returning s.core c)).processes 7 = _
    rw [hnone]
    simp [Cluster.owe, hp]
  · push_cast
    linarith
  · exact fun hphase => htick.trans (hdue hphase)

end Sample

end JobScheduler
