import JobScheduler.Startup
import JobScheduler.Poller

namespace JobScheduler
open Relational Transition

/-- `interval(TokioDuration::from_millis(500))`; a tick that was missed is made up for. -/
def pollPeriod : Timestamp := 500000

/-- Where the loop of `run_poller_with_counter` stands: at its ticker, about to look at the first of
the queues that are left in this pass, or between two statements about one of them. -/
inductive Cursor
  | ticker
  | pass (rest : List Uuid)
  | read (queue : Queue) (rest : List Uuid)
  | counted (queue : Queue) (rest : List Uuid)

/-- A worker process: its configuration, the next ticks of its two loops, `active_jobs`, the value of
it that the heartbeat is sending, and how many executors have returned but not yet decremented it. -/
structure Process where
  queueIds : List Uuid
  registered : Bool
  beatTick : Timestamp
  pollTick : Timestamp
  cursor : Cursor
  activeJobs : Int32
  beating : Option Int32
  returned : ℕ

/-- What the tasks of a process do themselves; `ok` and `sent` tell whether a statement goes through. -/
inductive Action
  | register (name hostname : String)
  | readCounter
  | upsertHeartbeat (sent : Bool)
  | tick
  | findById (ok : Bool)
  | endPass
  | countRunningJobs (ok : Bool)
  | claimNextJob (locked : List Uuid) (ok : Bool)
  | fetchSub

/-- The scheduler with its worker processes. -/
structure Cluster where
  core : Sys
  processes : Uuid → Option Process

inductive ClusterLabel
  | core (l : Label)
  | start (workerId : Uuid) (queueIds : List Uuid)
  | own (workerId : Uuid) (a : Action)

/-- The upsert of a heartbeat; its error is only logged. -/
def Sys.beat (s : Sys) (w : Uuid) (activeJobs : Int32) (sent : Bool) : Sys :=
  match sent, JobScheduler.upsertHeartbeat s.db s.now w activeJobs with
  | true, .ok db => { s with db := db }
  | _, _ => s

def Sys.claims (s : Sys) (w queueId : Uuid) (locked : List Uuid) : Bool :=
  match claimNextJob s.db s.now queueId w locked with
  | .ok job => job.isSome
  | .error _ => false

namespace Process

/-- A process whose `main` has spawned the heartbeat and not yet registered. -/
def new (queueIds : List Uuid) (now : Timestamp) : Process :=
  ⟨queueIds, false, now, now, .ticker, 0, none, 0⟩

/-- `match queue_repo.find_by_id(queue_id)`: on to the count, or to the next queue. -/
def findById (p : Process) (s : Sys) (queueId : Uuid) (rest : List Uuid) (ok : Bool) : Process :=
  match ok, s.db.queues.find? queueId with
  | true, some q => { p with cursor := if q.isPaused then .pass rest else .read q rest }
  | _, _ => { p with cursor := .pass rest }

/-- `running >= queue.concurrency_limit as i64`, for the limit read before. -/
def countRunningJobs (p : Process) (s : Sys) (q : Queue) (rest : List Uuid) (ok : Bool) : Process :=
  if !ok || q.concurrencyLimit.toInt ≤ JobScheduler.countRunningJobs s.db q.id then { p with cursor := .pass rest }
  else { p with cursor := .counted q rest }

def next (cron : Cron) (w : Uuid) (s : Sys) (p : Process) : Action → Option (Process × Sys)
  | .register name hostname =>
    if p.registered then none
    else (s.next cron (.register w name hostname)).map fun c => ({ p with registered := true, pollTick := s.now }, c)
  | .readCounter =>
    if p.beatTick ≤ s.now && p.beating.isNone then
      some ({ p with beatTick := p.beatTick + heartbeatPeriod, beating := some p.activeJobs }, s)
    else none
  | .upsertHeartbeat sent => p.beating.map fun v => ({ p with beating := none }, s.beat w v sent)
  | .tick =>
    match p.cursor with
    | .ticker =>
      -- `main` starts the poller after `register`, and only if there are queues to poll
      if p.registered && !p.queueIds.isEmpty && p.pollTick ≤ s.now then
        some ({ p with pollTick := p.pollTick + pollPeriod, cursor := .pass p.queueIds }, s)
      else none
    | _ => none
  | .findById ok =>
    match p.cursor with
    | .pass (queueId :: rest) => some (p.findById s queueId rest ok, s)
    | _ => none
  | .endPass =>
    match p.cursor with
    | .pass [] => some ({ p with cursor := .ticker }, s)
    | _ => none
  | .countRunningJobs ok =>
    match p.cursor with
    | .read q rest => some (p.countRunningJobs s q rest ok, s)
    | _ => none
  | .claimNextJob locked ok =>
    match p.cursor with
    | .counted q rest =>
      if ok && s.claims w q.id locked then
        (s.next cron (.claim w q.id locked)).map fun c =>
          ({ p with cursor := .pass rest, activeJobs := p.activeJobs + 1 }, c)
      else some ({ p with cursor := .pass rest }, s)
    | _ => none
  | .fetchSub =>
    if p.returned = 0 then none
    else some ({ p with returned := p.returned - 1, activeJobs := p.activeJobs - 1 }, s)

end Process

/-- The executor task that the step takes to its end, other than by a panic, which skips `fetch_sub`. -/
def Label.returning (s c : Sys) : Label → Option Task
  | .die _ => none
  | l => (l.task.bind s.tasks.find?).filter fun t => (c.tasks.find? t.id).isNone

namespace Cluster

def setProcess (s : Cluster) (w : Uuid) (p : Process) : Cluster :=
  { s with processes := Function.update s.processes w (some p) }

def owe (s : Cluster) (t : Option Task) : Cluster :=
  { s with processes := fun w => (s.processes w).map fun p =>
      if t.any fun t => t.workerId = w then { p with returned := p.returned + 1 } else p }

def next (cron : Cron) (s : Cluster) : ClusterLabel → Option Cluster
  | .core l =>
    if l.byWorker then none
    else (s.core.next cron l).map fun c => { s.owe (l.returning s.core c) with core := c }
  | .start w queueIds =>
    -- `Uuid::new_v4`
    if (s.processes w).isNone && w ∉ s.core.crashed && (s.core.db.workers.find? w).isNone &&
        (s.core.db.workerHeartbeats.find? w).isNone then
      some (s.setProcess w (.new queueIds s.core.now))
    else none
  | .own w a =>
    if w ∈ s.core.crashed then none
    else (s.processes w).bind fun p => (p.next cron w s.core a).map fun r => { s.setProcess w r.1 with core := r.2 }

structure Initial (s : Cluster) : Prop where
  core : s.core.Initial
  processes : ∀ w, s.processes w = none

end Cluster

def cluster (cron : Cron) : System Cluster ClusterLabel := ⟨Cluster.Initial, Cluster.next cron⟩

/-! ## What a process can do -/

inductive Process.Step (cron : Cron) (w : Uuid) (s : Sys) (p : Process) : Action → Process → Sys → Prop
  | register {name hostname : String} {c : Sys} (hp : p.registered = false)
      (hn : s.next cron (.register w name hostname) = some c) :
      Step cron w s p (.register name hostname) { p with registered := true, pollTick := s.now } c
  | readCounter (ht : p.beatTick ≤ s.now) (hb : p.beating = none) :
      Step cron w s p .readCounter
        { p with beatTick := p.beatTick + heartbeatPeriod, beating := some p.activeJobs } s
  | upsertHeartbeat {sent : Bool} {v : Int32} (hb : p.beating = some v) :
      Step cron w s p (.upsertHeartbeat sent) { p with beating := none } (s.beat w v sent)
  | tick (hc : p.cursor = .ticker) (hp : p.registered = true) (ht : p.pollTick ≤ s.now) :
      Step cron w s p .tick { p with pollTick := p.pollTick + pollPeriod, cursor := .pass p.queueIds } s
  | found {queueId : Uuid} {rest : List Uuid} {q : Queue} (hc : p.cursor = .pass (queueId :: rest))
      (hq : s.db.queues.find? queueId = some q) (hp : q.isPaused = false) :
      Step cron w s p (.findById true) { p with cursor := .read q rest } s
  | passed {queueId : Uuid} {rest : List Uuid} {ok : Bool} (hc : p.cursor = .pass (queueId :: rest))
      (hno : ok = true → ∀ q, s.db.queues.find? queueId = some q → q.isPaused = true) :
      Step cron w s p (.findById ok) { p with cursor := .pass rest } s
  | endPass (hc : p.cursor = .pass []) : Step cron w s p .endPass { p with cursor := .ticker } s
  | below {q : Queue} {rest : List Uuid} (hc : p.cursor = .read q rest)
      (hlt : (JobScheduler.countRunningJobs s.db q.id : ℤ) < q.concurrencyLimit.toInt) :
      Step cron w s p (.countRunningJobs true) { p with cursor := .counted q rest } s
  | notBelow {q : Queue} {rest : List Uuid} {ok : Bool} (hc : p.cursor = .read q rest)
      (hno : ok = true → q.concurrencyLimit.toInt ≤ JobScheduler.countRunningJobs s.db q.id) :
      Step cron w s p (.countRunningJobs ok) { p with cursor := .pass rest } s
  | claimed {q : Queue} {rest locked : List Uuid} {c : Sys} (hc : p.cursor = .counted q rest)
      (hj : s.claims w q.id locked = true) (hn : s.next cron (.claim w q.id locked) = some c) :
      Step cron w s p (.claimNextJob locked true)
        { p with cursor := .pass rest, activeJobs := p.activeJobs + 1 } c
  | notClaimed {q : Queue} {rest locked : List Uuid} {ok : Bool} (hc : p.cursor = .counted q rest)
      (hj : (ok && s.claims w q.id locked) = false) :
      Step cron w s p (.claimNextJob locked ok) { p with cursor := .pass rest } s
  | fetchSub (hr : p.returned ≠ 0) :
      Step cron w s p .fetchSub { p with returned := p.returned - 1, activeJobs := p.activeJobs - 1 } s

theorem Process.step {cron : Cron} {w : Uuid} {s : Sys} {p : Process} {a : Action} {r : Process × Sys}
    (h : p.next cron w s a = some r) : p.Step cron w s a r.1 r.2 := by
  cases a with
  | register name hostname =>
    simp only [next] at h
    split at h
    · cases h
    · rename_i hp
      obtain ⟨c, hc, rfl⟩ := Option.map_eq_some_iff.mp h
      exact .register (Bool.eq_false_iff.mpr hp) hc
  | readCounter =>
    simp only [next] at h
    split at h <;> cases h
    rename_i hg
    simp only [Bool.and_eq_true, decide_eq_true_eq, Option.isNone_iff_eq_none] at hg
    exact .readCounter hg.1 hg.2
  | upsertHeartbeat sent =>
    obtain ⟨v, hv, rfl⟩ := Option.map_eq_some_iff.mp h
    exact .upsertHeartbeat hv
  | tick =>
    simp only [next] at h
    split at h
    · rename_i hc
      split at h <;> cases h
      rename_i hg
      simp only [Bool.and_eq_true, decide_eq_true_eq] at hg
      exact .tick hc hg.1.1 hg.2
    · cases h
  | findById ok =>
    simp only [next] at h
    split at h
    · rename_i queueId rest hc
      cases h
      unfold Process.findById
      split
      · rename_i q hq
        cases hp : q.isPaused with
        | false => exact .found hc hq hp
        | true =>
          refine .passed hc fun _ q' hq' => ?_
          rw [hq] at hq'
          exact Option.some.inj hq' ▸ hp
      · rename_i hno
        exact .passed hc fun hok q hq => absurd hq (hno q hok)
    · cases h
  | endPass =>
    simp only [next] at h
    split at h
    · rename_i hc
      cases h
      exact .endPass hc
    · cases h
  | countRunningJobs ok =>
    simp only [next] at h
    split at h
    · rename_i q rest hc
      cases h
      unfold Process.countRunningJobs
      split
      · rename_i hg
        exact .notBelow hc fun hok => by simpa [hok] using hg
      · rename_i hg
        simp only [Bool.or_eq_true, Bool.not_eq_eq_eq_not, Bool.not_true, decide_eq_true_eq, not_or, not_le,
          Bool.not_eq_false] at hg
        obtain ⟨rfl, hlt⟩ := hg
        exact .below hc hlt
    · cases h
  | claimNextJob locked ok =>
    simp only [next] at h
    split at h
    · rename_i q rest hc
      split at h
      · rename_i hg
        obtain ⟨rfl, hj⟩ := Bool.and_eq_true_iff.mp hg
        obtain ⟨c, hn, rfl⟩ := Option.map_eq_some_iff.mp h
        exact .claimed hc hj hn
      · rename_i hg
        cases h
        exact .notClaimed hc (Bool.eq_false_iff.mpr hg)
    · cases h
  | fetchSub =>
    simp only [next] at h
    split at h <;> cases h
    exact .fetchSub ‹_›

/-- A process is fresh when it starts: nobody has used its id. -/
structure Cluster.Unused (s : Cluster) (w : Uuid) : Prop where
  process : s.processes w = none
  crashed : w ∉ s.core.crashed
  worker : s.core.db.workers.find? w = none
  heartbeat : s.core.db.workerHeartbeats.find? w = none

inductive Cluster.Step (cron : Cron) (s : Cluster) : ClusterLabel → Cluster → Prop
  | core {l : Label} {c : Sys} (hl : l.byWorker = false) (hn : s.core.next cron l = some c) :
      Step cron s (.core l) { s.owe (l.returning s.core c) with core := c }
  | start {w : Uuid} {queueIds : List Uuid} (hw : s.Unused w) :
      Step cron s (.start w queueIds) (s.setProcess w (.new queueIds s.core.now))
  | own {w : Uuid} {a : Action} {p p' : Process} {c : Sys} (hw : w ∉ s.core.crashed)
      (hp : s.processes w = some p) (hstep : p.Step cron w s.core a p' c) :
      Step cron s (.own w a) { s.setProcess w p' with core := c }

theorem Cluster.step {cron : Cron} {s s' : Cluster} {l : ClusterLabel} (h : s.next cron l = some s') :
    s.Step cron l s' := by
  cases l with
  | core l =>
    simp only [next] at h
    split at h
    · cases h
    · rename_i hl
      obtain ⟨c, hc, rfl⟩ := Option.map_eq_some_iff.mp h
      exact .core (Bool.eq_false_iff.mpr hl) hc
  | start w queueIds =>
    simp only [next] at h
    split at h <;> cases h
    rename_i hg
    simp only [Bool.and_eq_true, decide_eq_true_eq, Option.isNone_iff_eq_none] at hg
    exact .start ⟨hg.1.1.1, hg.1.1.2, hg.1.2, hg.2⟩
  | own w a =>
    simp only [next] at h
    split at h
    · cases h
    · rename_i hw
      obtain ⟨p, hp, h⟩ := Option.bind_eq_some_iff.mp h
      obtain ⟨r, hr, rfl⟩ := Option.map_eq_some_iff.mp h
      exact .own hw hp (Process.step hr)

section Refinement
variable {cron : Cron} {s s' : Cluster} {l : ClusterLabel} {w w' : Uuid} {p p' : Process} {a : Action} {c : Sys}

theorem Cluster.setProcess_processes (s : Cluster) (w : Uuid) (p : Process) (w' : Uuid) :
    (s.setProcess w p).processes w' = if w' = w then some p else s.processes w' :=
  Function.update_apply _ _ _ _

/-! ## The processes refine the two models that look at one loop each -/

/-- The heartbeat task alone: while it is sending, its tick is not over. -/
def Process.toProc (p : Process) : Proc :=
  ⟨if p.beating.isSome then p.beatTick - heartbeatPeriod else p.beatTick, p.registered⟩

def Cluster.toFleet (s : Cluster) : Fleet := ⟨s.core, fun w => (s.processes w).map Process.toProc⟩

/-- The poller alone, without the queues it has still to look at. -/
def Cursor.stage : Cursor → Stage
  | .ticker | .pass _ => .idle
  | .read q _ => .read q
  | .counted q _ => .counted q

def Cluster.toPollers (s : Cluster) : PollSys :=
  ⟨s.core, fun w => ((s.processes w).map fun p => p.cursor.stage).getD .idle⟩

/-- A process sends the heartbeat of a tick that is past, and polls only after it has registered. -/
structure Process.Sound (now : Timestamp) (p : Process) : Prop where
  beating : p.beating.isSome = true → p.beatTick ≤ now + heartbeatPeriod
  cursor : p.registered = false → p.cursor = .ticker

theorem Process.Sound.later {now now' : Timestamp} (h : p.Sound now) (hle : now ≤ now') : p.Sound now' :=
  ⟨fun hb => (h.beating hb).trans (by linarith), h.cursor⟩

theorem Sys.beat_now (s : Sys) (w : Uuid) (v : Int32) (sent : Bool) : (s.beat w v sent).now = s.now := by
  unfold beat
  split <;> rfl

theorem Process.Step.now {core : Sys} (h : p.Step cron w core a p' c) : core.now ≤ c.now := by
  cases h with
  | register _ hn | claimed _ _ hn => exact (next_tables hn).now
  | upsertHeartbeat _ => exact (Sys.beat_now _ _ _ _).ge
  | _ => exact le_rfl

theorem Process.Sound.step {core : Sys} (hi : p.Sound core.now) (h : p.Step cron w core a p' c) :
    p'.Sound c.now := by
  suffices hs : p'.Sound core.now from hs.later h.now
  -- a poller that is past its ticker belongs to a registered process
  have hreg (hc : p.cursor ≠ .ticker) (x : Cursor) (hp : p.registered = false) : x = .ticker :=
    absurd (hi.cursor hp) hc
  cases h with
  | register _ _ => exact ⟨hi.beating, fun hp => by cases hp⟩
  | readCounter ht _ => exact ⟨fun _ => by show p.beatTick + _ ≤ _; linarith, hi.cursor⟩
  | upsertHeartbeat _ => exact ⟨fun hb => (by cases hb), hi.cursor⟩
  | tick _ hp _ => exact ⟨hi.beating, fun hr => by rw [hp] at hr; cases hr⟩
  | found hc _ _ | passed hc _ | endPass hc | below hc _ | notBelow hc _ | claimed hc _ _ | notClaimed hc _ =>
    exact ⟨hi.beating, hreg (by simp [hc]) _⟩
  | fetchSub _ => exact ⟨hi.beating, hi.cursor⟩

theorem sound_of_reachable {ok : Cluster → ClusterLabel → Prop} (h : Reachable (cluster cron) ok s)
    (hp : s.processes w = some p) : p.Sound s.core.now := by
  suffices hall : ∀ w p, s.processes w = some p → p.Sound s.core.now from hall w p hp
  refine Reachable.invariant (I := fun s => ∀ w p, s.processes w = some p → p.Sound s.core.now) ?_ ?_ h
  · intro s (hs : s.Initial) w p hp
    rw [hs.processes] at hp
    cases hp
  · intro s l s' _ hi _ (hn : s.next cron l = some s') w p hp
    cases Cluster.step hn with
    | @core l c hl hc =>
      obtain ⟨p₀, hp₀, rfl⟩ := Option.map_eq_some_iff.mp hp
      have hsound := (hi w p₀ hp₀).later (next_tables hc).now
      show Process.Sound c.now _
      split
      · exact ⟨hsound.beating, hsound.cursor⟩
      · exact hsound
    | @start w' _ hw =>
      have hp : (s.setProcess w' _).processes w = some p := hp
      rw [Cluster.setProcess_processes] at hp
      split at hp
      · cases hp
        exact ⟨fun hb => (by cases hb), fun _ => rfl⟩
      · exact hi w p hp
    | @own w' _ p₀ p' c _ hp₀ hstep =>
      have hp : (s.setProcess w' p').processes w = some p := hp
      rw [Cluster.setProcess_processes] at hp
      split at hp
      · cases hp
        exact (hi w' p₀ hp₀).step hstep
      · exact (hi w p hp).later hstep.now

theorem Cluster.toFleet_owe (s : Cluster) (t : Option Task) (c : Sys) :
    Cluster.toFleet { s.owe t with core := c } = { s.toFleet with core := c } := by
  have hproc (w : Uuid) : ((s.owe t).processes w).map Process.toProc = (s.processes w).map Process.toProc := by
    show ((s.processes w).map _).map _ = _
    rw [Option.map_map]
    congr
    funext p
    dsimp only [Function.comp]
    split <;> rfl
  exact congrArg (Fleet.mk c) (funext hproc)

theorem Cluster.toFleet_setProcess (s : Cluster) (w : Uuid) (p : Process) (c : Sys) :
    Cluster.toFleet { s.setProcess w p with core := c } = { s.toFleet.setProc w p.toProc with core := c } := by
  refine congrArg (Fleet.mk c) (funext fun w' => ?_)
  show ((s.setProcess w p).processes w').map _ = (s.toFleet.setProc w p.toProc).procs w'
  rw [setProcess_processes, Fleet.setProc_procs]
  split <;> rfl

theorem Cluster.toFleet_same (hp : s.processes w = some p) (hproc : p'.toProc = p.toProc) (c : Sys) :
    Cluster.toFleet { s.setProcess w p' with core := c } = { s.toFleet with core := c } := by
  rw [toFleet_setProcess, hproc]
  refine congrArg (Fleet.mk c) (funext fun w' => ?_)
  rw [Fleet.setProc_procs]
  split
  · rename_i hw
    subst hw
    show _ = (s.processes w').map Process.toProc
    rw [hp]
    rfl
  · rfl

theorem Cluster.beat_eq (s : Cluster) (w : Uuid) (v : Int32) (sent : Bool) :
    s.toFleet.beat w v sent = s.core.beat w v sent :=
  rfl

/-- Seen from its heartbeat task, a step of the cluster is a step of the fleet or none. -/
theorem Cluster.next_fleet {ok : Cluster → ClusterLabel → Prop} (h : Reachable (cluster cron) ok s)
    (hn : s.next cron l = some s') :
    s'.toFleet = s.toFleet ∨ ∃ k, s.toFleet.next cron k = some s'.toFleet := by
  cases step hn with
  | @core l c hl hc =>
    refine .inr ⟨.core l, ?_⟩
    rw [toFleet_owe]
    simp only [Fleet.next, hl, Bool.false_eq_true, if_false]
    show (s.core.next cron l).map _ = _
    rw [hc]
    rfl
  | @start w queueIds hw =>
    refine .inr ⟨.start w, ?_⟩
    have hnone : s.toFleet.procs w = none := by
      show (s.processes w).map _ = none
      rw [hw.process]
      rfl
    have hfresh : ((s.toFleet.procs w).isNone && w ∉ s.core.crashed && (s.core.db.workers.find? w).isNone &&
        (s.core.db.workerHeartbeats.find? w).isNone) = true := by
      simp [hnone, hw.crashed, hw.worker, hw.heartbeat]
    show (if ((s.toFleet.procs w).isNone && w ∉ s.core.crashed && (s.core.db.workers.find? w).isNone &&
        (s.core.db.workerHeartbeats.find? w).isNone) = true then _ else none) = _
    rw [if_pos hfresh]
    exact congrArg some (toFleet_setProcess s w (.new queueIds s.core.now) s.core).symm
  | @own w a p p' c hw hp hstep =>
    have hproc : s.toFleet.procs w = some p.toProc := by
      show (s.processes w).map _ = _
      rw [hp]
      rfl
    cases hstep with
    | @register name hostname _ hr hc =>
      refine .inr ⟨.register w name hostname, ?_⟩
      rw [toFleet_setProcess]
      simp only [Fleet.next, hproc]
      rw [if_neg (by simp [Process.toProc, hr])]
      show (s.core.next cron (.register w name hostname)).map _ = _
      rw [hc]
      rfl
    | @upsertHeartbeat sent v hb =>
      refine .inr ⟨.heartbeat w v sent, ?_⟩
      have hdue := (sound_of_reachable h hp).beating (by rw [hb]; rfl)
      rw [toFleet_setProcess, ← beat_eq]
      simp only [Fleet.next, hproc]
      rw [if_pos]
      · simp [Process.toProc, hb]
      · have hle : p.beatTick - heartbeatPeriod ≤ s.core.now := by linarith
        simp only [Process.toProc, hb, Option.isSome_some, if_true, Bool.and_eq_true, decide_eq_true_eq]
        exact ⟨hle, hw⟩
    | readCounter _ hb => exact .inl (toFleet_same hp (by simp [Process.toProc, hb]) s.core)
    | @claimed q rest locked _ hc _ hcl =>
      refine .inr ⟨.claim w q.id locked, ?_⟩
      rw [toFleet_same hp ?_]
      have hreg : p.registered = true := by
        cases hr : p.registered with
        | true => rfl
        | false => simp [(sound_of_reachable h hp).cursor hr] at hc
      simp only [Fleet.next, hproc]
      rw [if_pos (by simp [Process.toProc, hreg])]
      · show (s.core.next cron (.claim w q.id locked)).map _ = _
        rw [hcl]
        rfl
      · rfl
    | _ => exact .inl (toFleet_same hp (by rfl) s.core)

theorem Cluster.toPollers_owe (s : Cluster) (t : Option Task) (c : Sys) :
    Cluster.toPollers { s.owe t with core := c } = { s.toPollers with core := c } := by
  refine congrArg (PollSys.mk c) (funext fun w => congrArg (Option.getD · Stage.idle) ?_)
  show ((s.processes w).map _).map _ = _
  rw [Option.map_map]
  congr
  funext p
  dsimp only [Function.comp]
  split <;> rfl

theorem Cluster.toPollers_setProcess (s : Cluster) (w : Uuid) (p : Process) (c : Sys) :
    Cluster.toPollers { s.setProcess w p with core := c } =
      { s.toPollers.setStage w p.cursor.stage with core := c } := by
  refine congrArg (PollSys.mk c) (funext fun w' => ?_)
  show (((s.setProcess w p).processes w').map _).getD _ = Function.update s.toPollers.stage w p.cursor.stage w'
  rw [setProcess_processes, Function.update_apply]
  split <;> rfl

theorem Cluster.toPollers_same (hp : s.toPollers.stage w = p'.cursor.stage) (c : Sys) :
    Cluster.toPollers { s.setProcess w p' with core := c } = { s.toPollers with core := c } := by
  rw [toPollers_setProcess, ← hp]
  exact congrArg (PollSys.mk c) (Function.update_eq_self _ _)

theorem Sys.beat_next {core : Sys} (hw : w ∉ core.crashed) (v : Int32) (sent : Bool) :
    core.beat w v sent = core ∨ core.next cron (.heartbeat w v) = some (core.beat w v sent) := by
  unfold beat
  split
  · rename_i db hdb
    refine .inr ?_
    simp only [next, if_neg hw, hdb]
    rfl
  · exact .inl rfl

/-- Seen from its poller, a step of the cluster is a step of the pollers or none. -/
theorem Cluster.next_pollers (hn : s.next cron l = some s') :
    s'.toPollers = s.toPollers ∨ ∃ k, s.toPollers.next cron k = some s'.toPollers := by
  cases step hn with
  | @core l c hl hc =>
    refine .inr ⟨.core l, ?_⟩
    rw [toPollers_owe]
    have hnext : s.toPollers.next cron (.core l) =
        (s.core.next cron l).map fun c => { s.toPollers with core := c } := by
      cases l with
      | claim _ _ _ => cases hl
      | _ => rfl
    rw [hnext, hc]
    rfl
  | @start w queueIds hw =>
    refine .inl ?_
    have hidle : s.toPollers.stage w = .idle := by
      show ((s.processes w).map _).getD _ = _
      rw [hw.process]
      rfl
    exact toPollers_same hidle s.core
  | @own w a p p' c hw hp hstep =>
    have hstage : s.toPollers.stage w = p.cursor.stage := by
      show ((s.processes w).map _).getD _ = _
      rw [hp]
      rfl
    have hw' : w ∉ s.toPollers.core.crashed := hw
    cases hstep with
    | @register name hostname _ hr hc =>
      refine .inr ⟨.core (.register w name hostname), ?_⟩
      rw [toPollers_same (hstage.trans (by rfl))]
      show (s.core.next cron (.register w name hostname)).map _ = _
      rw [hc]
      rfl
    | @upsertHeartbeat sent v hb =>
      rw [toPollers_same (hstage.trans (by rfl))]
      rcases @Sys.beat_next cron w s.core hw v sent with hsame | hbeat
      · rw [hsame]
        exact .inl rfl
      · refine .inr ⟨.core (.heartbeat w v), ?_⟩
        show (s.core.next cron (.heartbeat w v)).map _ = _
        rw [hbeat]
        rfl
    | readCounter _ _ | fetchSub _ => exact .inl (toPollers_same (hstage.trans (by rfl)) s.core)
    | tick hc _ _ | passed hc _ | endPass hc =>
      exact .inl (toPollers_same (hstage.trans (by rw [hc]; rfl)) s.core)
    | @found queueId rest q hc hq hpaused =>
      refine .inr ⟨.findById w queueId, ?_⟩
      have hq' : s.toPollers.core.db.queues.find? queueId = some q := hq
      rw [toPollers_setProcess]
      simp only [PollSys.next, if_neg hw', hstage, hc, Cursor.stage, PollSys.findById, hq', hpaused]
      rfl
    | @below q rest hc hlt =>
      refine .inr ⟨.countRunningJobs w, ?_⟩
      have hlt' : ¬q.concurrencyLimit.toInt ≤ (countRunningJobs s.toPollers.core.db q.id : ℤ) := not_le.mpr hlt
      rw [toPollers_setProcess]
      simp only [PollSys.next, if_neg hw', hstage, hc, Cursor.stage, PollSys.countRunningJobs, if_neg hlt']
      rfl
    | notBelow _ _ | notClaimed _ _ =>
      refine .inr ⟨.giveUp w, ?_⟩
      rw [toPollers_setProcess]
      rfl
    | @claimed q rest locked _ hc _ hcl =>
      refine .inr ⟨.claimNextJob w locked, ?_⟩
      rw [toPollers_setProcess]
      have hcl' : s.toPollers.core.next cron (.claim w q.id locked) = some c := hcl
      simp only [PollSys.next, hstage, hc, Cursor.stage, hcl']
      rfl

/-- The worker processes, with all their tasks, do nothing that the two models of their single loops
do not allow: seen from the heartbeats they run as the fleet, and seen from the pollers as the pollers. -/
theorem cluster_refines (h : Reachable (cluster cron) (fun _ _ => True) s) :
    Reachable (fleet cron) (fun _ _ => True) s.toFleet ∧
      Reachable (pollers cron) (fun _ _ => True) s.toPollers := by
  constructor
  · refine Reachable.invariant (I := fun s => Reachable (fleet cron) (fun _ _ => True) s.toFleet) ?_ ?_ h
    · intro s (hs : s.Initial)
      exact .start ⟨hs.core, fun w => by show (s.processes w).map _ = _; rw [hs.processes]; rfl⟩
    · intro s l s' hreach ih _ (hn : s.next cron l = some s')
      rcases Cluster.next_fleet hreach hn with he | ⟨k, hk⟩
      · rw [he]
        exact ih
      · exact ih.step trivial hk
  · refine Reachable.project Cluster.toPollers ?_ ?_ h
    · intro s (hs : s.Initial)
      exact ⟨hs.core, fun w => by show ((s.processes w).map _).getD _ = _; rw [hs.processes]; rfl⟩
    · intro s l s' _ _ (hn : s.next cron l = some s')
      rcases Cluster.next_pollers hn with he | ⟨k, hk⟩
      · exact .inl he
      · exact .inr ⟨k, trivial, hk⟩

end Refinement

namespace Sample

def cluster : Cluster := ⟨sys, fun _ => none⟩

theorem cluster_initial : cluster.Initial := ⟨sys_initial, fun _ => rfl⟩

def polling : List ClusterLabel :=
  [.start 1 [10], .own 1 .readCounter, .own 1 (.upsertHeartbeat true), .own 1 (.register "a" "h1"),
    .core (.createJob 100 7 queue (request 3)), .own 1 .tick, .own 1 (.findById true),
    .own 1 (.countRunningJobs true), .own 1 (.claimNextJob [] true), .own 1 .endPass]

end Sample

theorem cluster_refines_sample :
    ∃ s, Reachable (cluster Sample.cron) (fun _ _ => True) s ∧
      (s.core.db.jobs.find? 100).any (·.workerId = some 1) = true ∧
      Reachable (fleet Sample.cron) (fun _ _ => True) s.toFleet ∧
        Reachable (pollers Sample.cron) (fun _ _ => True) s.toPollers := by
  obtain ⟨_, s, hrun, hp⟩ := Run.exists_of_exec (M := cluster Sample.cron) Sample.cluster_initial Sample.polling
    (fun _ _ => true) (fun _ s => (s.core.db.jobs.find? 100).any (·.workerId = some 1)) rfl
  have hreach : Reachable (cluster Sample.cron) (fun _ _ => True) s := hrun.reachable.mono fun _ _ _ => trivial
  exact ⟨s, hreach, hp, cluster_refines hreach⟩

end JobScheduler
