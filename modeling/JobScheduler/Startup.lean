import JobScheduler.Exclusive
import JobScheduler.Rows

namespace JobScheduler
open Relational Transition

/-- A worker process: the next tick of its heartbeat task, and whether `register` has returned. -/
structure Proc where
  nextTick : Timestamp
  registered : Bool

/-- The scheduler with the worker processes that were started. -/
structure Fleet where
  core : Sys
  procs : Uuid → Option Proc

/-- `main` of a worker: it draws its id and spawns the heartbeat task, registers, and only then starts
the poller. `sent` tells whether the heartbeat's statement reaches the server. -/
inductive FleetLabel
  | core (l : Label)
  | start (workerId : Uuid)
  | register (workerId : Uuid) (name hostname : String)
  | heartbeat (workerId : Uuid) (activeJobs : Int32) (sent : Bool)
  | claim (workerId queueId : Uuid) (locked : List Uuid)

def Label.byWorker : Label → Bool
  | .register _ _ _ | .heartbeat _ _ | .claim _ _ _ => true
  | _ => false

/-- `interval(Duration::from_secs(10))`: the first tick is due at once. -/
def heartbeatPeriod : Timestamp := 10 * 1000000

namespace Fleet

def setProc (s : Fleet) (w : Uuid) (p : Proc) : Fleet := { s with procs := Function.update s.procs w (some p) }

def beat (s : Fleet) (w : Uuid) (activeJobs : Int32) (sent : Bool) : Sys :=
  match sent, upsertHeartbeat s.core.db s.core.now w activeJobs with
  | true, .ok db => { s.core with db := db }
  | _, _ => s.core

def next (cron : Cron) (s : Fleet) : FleetLabel → Option Fleet
  | .core l => if l.byWorker then none else (s.core.next cron l).map fun c => { s with core := c }
  | .start w =>
    -- `Uuid::new_v4`
    if (s.procs w).isNone && w ∉ s.core.crashed && (s.core.db.workers.find? w).isNone &&
        (s.core.db.workerHeartbeats.find? w).isNone then
      some (s.setProc w ⟨s.core.now, false⟩)
    else none
  | .register w name hostname =>
    match s.procs w with
    | some p =>
      if p.registered then none
      else (s.core.next cron (.register w name hostname)).map fun c =>
        { s.setProc w { p with registered := true } with core := c }
    | none => none
  | .heartbeat w activeJobs sent =>
    match s.procs w with
    | some p =>
      if p.nextTick ≤ s.core.now && w ∉ s.core.crashed then
        some { s.setProc w { p with nextTick := p.nextTick + heartbeatPeriod } with
          core := s.beat w activeJobs sent }
      else none
    | none => none
  | .claim w queueId locked =>
    match s.procs w with
    | some p =>
      if p.registered then (s.core.next cron (.claim w queueId locked)).map fun c => { s with core := c } else none
    | none => none

structure Initial (s : Fleet) : Prop where
  core : s.core.Initial
  procs : ∀ w, s.procs w = none

def vital (s : Fleet) (w : Uuid) : FleetLabel → Bool
  | .register workerId _ _ => workerId = w
  | .heartbeat workerId _ sent => workerId = w && sent && (s.core.db.workers.find? w).isSome
  | _ => false

end Fleet

def fleet (cron : Cron) : System Fleet FleetLabel := ⟨Fleet.Initial, Fleet.next cron⟩

/-- `recover_stale_jobs`, run now, takes no job from a worker that has registered, or sent a heartbeat,
less than the threshold ago. -/
def SparesLive (hist : List (Fleet × FleetLabel)) (s : Fleet) (staleThresholdSeconds : ℤ) : Prop :=
  ∀ j r w, s.core.db.jobs.find? j = some r → r.workerId = some w →
    (∃ q ∈ hist, q.1.vital w q.2 = true ∧ s.core.now - staleThresholdSeconds * 1000000 < q.1.core.now) →
    (recoverStaleJobs s.core.db s.core.now staleThresholdSeconds).jobs.find? j = some r

/-- No claimed or running job is held by a worker that has registered less than the threshold ago and
has no heartbeat row yet. -/
def Fleet.heldByBeating (s : Fleet) (staleThresholdSeconds : ℤ) : Bool :=
  s.core.db.jobs.rows.all fun r => (r.status ≠ .claimed && r.status ≠ .running) ||
    r.workerId.all fun w => (s.core.db.workerHeartbeats.find? w).isSome ||
      (s.core.db.workers.find? w).all fun k => k.registeredAt ≤ s.core.now - staleThresholdSeconds * 1000000

def Fleet.heard (s : Fleet) (w : Uuid) (registeredAt : Timestamp) : Timestamp :=
  match s.core.db.workerHeartbeats.find? w with
  | some hb => hb.lastSeen
  | none => registeredAt

/-- How far the process of worker `w` has come, and what the tables hold of it. -/
inductive Standing (hist : List (Fleet × FleetLabel)) (s : Fleet) (w : Uuid) : Prop
  | absent (hp : s.procs w = none) (hv : ∀ q ∈ hist, q.1.vital w q.2 = false)
  | starting (hp : (s.procs w).map Proc.registered = some false) (hw : s.core.db.workers.find? w = none)
      (hh : s.core.db.workerHeartbeats.find? w = none) (hv : ∀ q ∈ hist, q.1.vital w q.2 = false)
  | registered {t : Timestamp} (hp : (s.procs w).map Proc.registered = some true)
      (hw : (s.core.db.workers.find? w).map Worker.registeredAt = some t)
      (hreg : ∃ q ∈ hist, q.1.vital w q.2 = true ∧ q.1.core.now = t)
      (hv : ∀ q ∈ hist, q.1.vital w q.2 = true → q.1.core.now ≤ s.heard w t) (hle : s.heard w t ≤ s.core.now)

/-- What a step does to the process of worker `w` and to what the tables hold of it. -/
inductive WorkerMove (s : Fleet) (w : Uuid) (l : FleetLabel) (s' : Fleet) : Prop
  | kept (hp : (s'.procs w).map Proc.registered = (s.procs w).map Proc.registered)
      (hw : (s'.core.db.workers.find? w).map Worker.registeredAt =
        (s.core.db.workers.find? w).map Worker.registeredAt)
      (hh : s'.core.db.workerHeartbeats.find? w = s.core.db.workerHeartbeats.find? w)
      (hv : s.vital w l = false)
  | started (hp : s.procs w = none) (hp' : (s'.procs w).map Proc.registered = some false)
      (hw : s'.core.db.workers.find? w = none) (hh : s'.core.db.workerHeartbeats.find? w = none)
      (hv : s.vital w l = false)
  | registered (hp : (s.procs w).map Proc.registered = some false)
      (hp' : (s'.procs w).map Proc.registered = some true)
      (hw : s.core.db.workers.find? w = none →
        (s'.core.db.workers.find? w).map Worker.registeredAt = some s.core.now)
      (hh : s'.core.db.workerHeartbeats.find? w = s.core.db.workerHeartbeats.find? w)
      (hv : s.vital w l = true)
  | beat (hs : (s.procs w).isSome = true)
      (hp : (s'.procs w).map Proc.registered = (s.procs w).map Proc.registered)
      (hw : s'.core.db.workers = s.core.db.workers) (hk : ∃ k, s.core.db.workers.find? w = some k)
      (hh : ∃ hb, s'.core.db.workerHeartbeats.find? w = some hb ∧ hb.lastSeen = s.core.now)

section Tables
variable {db db' : Db} {now : Timestamp} {w w' : Uuid}

theorem register_workers (name hostname : String) :
    (register db now w name hostname).workers.find? w' =
      if w' = w then
        some ((db.workers.find? w).elim ⟨w, name, hostname, true, now, none⟩ fun k =>
          { k with isActive := true, deregisteredAt := none })
      else db.workers.find? w' := by
  unfold register
  dsimp only
  split
  · rename_i workers hi
    rw [Table.find?_insert hi]
    by_cases h : w' = w
    · subst h
      simp [(Table.rows_insert hi).2]
    · simp [h, Ne.symm h]
  · rename_i hi
    obtain ⟨k, hk⟩ := (Table.insert_eq_none_iff _ _).mp hi
    have hk : db.workers.find? w = some k := hk
    rw [Table.find?_update_key]
    split
    · simp [hk]
    · rfl

theorem register_heartbeats (name hostname : String) :
    (register db now w name hostname).workerHeartbeats = db.workerHeartbeats := by
  obtain ⟨workers, h⟩ := register_eq db now w name hostname
  rw [h]

theorem deregister_workers :
    ((deregister db now w).workers.find? w').map Worker.registeredAt =
      (db.workers.find? w').map Worker.registeredAt := by
  rw [deregister, Table.find?_update_key]
  split
  · rename_i h
    rw [h, Option.map_map]
    rfl
  · rfl

theorem upsertHeartbeat_ok {activeJobs : Int32} (h : upsertHeartbeat db now w activeJobs = .ok db') :
    (∃ k, db.workers.find? w = some k) ∧ db'.workers = db.workers ∧
      (∃ hb, db'.workerHeartbeats.find? w = some hb ∧ hb.lastSeen = now) ∧
      ∀ w', w' ≠ w → db'.workerHeartbeats.find? w' = db.workerHeartbeats.find? w' := by
  unfold upsertHeartbeat at h
  split at h
  · cases h
  · rename_i hw
    refine ⟨Option.ne_none_iff_exists'.mp (by simpa using hw), ?_⟩
    split at h
    · rename_i hbs hi
      cases h
      refine ⟨rfl, ⟨_, by rw [Table.find?_insert hi, if_pos rfl], rfl⟩, fun w' hne => ?_⟩
      rw [Table.find?_insert hi, if_neg (Ne.symm hne)]
    · rename_i hi
      cases h
      obtain ⟨hb, hhb⟩ := (Table.insert_eq_none_iff _ _).mp hi
      have hhb : db.workerHeartbeats.find? w = some hb := hhb
      refine ⟨rfl, ⟨_, by rw [Table.find?_update_key, if_pos rfl, hhb]; rfl, rfl⟩, fun w' hne => ?_⟩
      rw [Table.find?_update_key, if_neg hne]

theorem upsertHeartbeat_of_worker {k : Worker} (hk : db.workers.find? w = some k) (now : Timestamp)
    (activeJobs : Int32) :
    ∃ db', upsertHeartbeat db now w activeJobs = .ok db' := by
  unfold upsertHeartbeat
  simp only [hk, Option.isNone_some, Bool.false_eq_true, if_false]
  split <;> exact ⟨_, rfl⟩

end Tables

section Steps
variable {cron : Cron} {s s' : Fleet} {l : FleetLabel} {w : Uuid}

theorem Fleet.setProc_procs (s : Fleet) (w' : Uuid) (p : Proc) (w : Uuid) :
    (s.setProc w' p).procs w = if w = w' then some p else s.procs w := by
  by_cases h : w = w'
  · subst h
    simp [setProc]
  · simp [setProc, h]

theorem WorkerMove.of_core {c : Sys} (hv : s.vital w l = false)
    (hw : (c.db.workers.find? w).map Worker.registeredAt = (s.core.db.workers.find? w).map Worker.registeredAt)
    (hh : c.db.workerHeartbeats = s.core.db.workerHeartbeats) : WorkerMove s w l { s with core := c } :=
  .kept rfl hw (by rw [hh]) hv

theorem WorkerMove.of_register {name hostname : String} {p : Proc} (hp : s.procs w = some p)
    (hr : p.registered = false) (w₀ : Uuid) :
    WorkerMove s w₀ (.register w name hostname) { s.setProc w { p with registered := true } with
      core := { s.core with db := register s.core.db s.core.now w name hostname } } := by
  have hh : (register s.core.db s.core.now w name hostname).workerHeartbeats.find? w₀ =
      s.core.db.workerHeartbeats.find? w₀ := by rw [register_heartbeats]
  by_cases hw : w₀ = w
  · subst hw
    refine .registered (by simp [hp, hr]) (by simp [Fleet.setProc_procs]) (fun hnone => ?_) hh
      (by simp [Fleet.vital])
    simp [register_workers, hnone]
  · refine .kept (by simp [Fleet.setProc_procs, hw]) ?_ hh (by simp [Fleet.vital, Ne.symm hw])
    simp [register_workers, hw]

theorem WorkerMove.of_heartbeat {activeJobs : Int32} {sent : Bool} {p : Proc} (hp : s.procs w = some p)
    (w₀ : Uuid) :
    WorkerMove s w₀ (.heartbeat w activeJobs sent) { s.setProc w { p with nextTick := p.nextTick + heartbeatPeriod } with
      core := s.beat w activeJobs sent } := by
  have hprocs : ((s.setProc w { p with nextTick := p.nextTick + heartbeatPeriod }).procs w₀).map Proc.registered =
      (s.procs w₀).map Proc.registered := by
    rw [Fleet.setProc_procs]
    split
    · rename_i h
      simp [h, hp]
    · rfl
  unfold Fleet.beat
  split
  · rename_i db hdb
    obtain ⟨⟨k, hk⟩, hworkers, hself, hother⟩ := upsertHeartbeat_ok hdb
    by_cases hw : w₀ = w
    · subst hw
      exact .beat (by simp [hp]) hprocs hworkers ⟨k, hk⟩ hself
    · exact .kept hprocs (by rw [hworkers]) (hother w₀ hw) (by simp [Fleet.vital, Ne.symm hw])
  · rename_i hno
    refine .kept hprocs rfl rfl (Bool.eq_false_iff.mpr fun hv => ?_)
    -- it was not sent, or rejected by the foreign key
    simp only [Fleet.vital, Bool.and_eq_true, decide_eq_true_eq] at hv
    obtain ⟨⟨rfl, rfl⟩, hk⟩ := hv
    obtain ⟨k, hk⟩ := Option.isSome_iff_exists.mp hk
    obtain ⟨db', hdb⟩ := upsertHeartbeat_of_worker hk s.core.now activeJobs
    exact hno db' rfl hdb

theorem Fleet.next_worker (h : s.next cron l = some s') (w : Uuid) : WorkerMove s w l s' := by
  cases l with
  | core l =>
    simp only [next] at h
    split at h
    · cases h
    · rename_i hl
      obtain ⟨c, hc, rfl⟩ := Option.map_eq_some_iff.mp h
      cases (next_tables hc).workers with
      | same hw hh => exact .of_core rfl (by rw [hw]) hh
      | deregistered hdb => exact .of_core rfl (by rw [hdb, deregister_workers]) (by rw [hdb]; rfl)
      | registered _ => exact absurd rfl hl
      | seen _ => exact absurd rfl hl
  | start w' =>
    simp only [next] at h
    split at h
    · rename_i hfresh
      cases h
      simp only [Bool.and_eq_true, Option.isNone_iff_eq_none] at hfresh
      by_cases hw : w = w'
      · subst hw
        exact .started hfresh.1.1.1 (by simp [setProc_procs]) hfresh.1.2 hfresh.2 rfl
      · exact .kept (by simp [setProc_procs, hw]) rfl rfl rfl
    · cases h
  | register w' name hostname =>
    simp only [next] at h
    split at h
    · rename_i p hp
      split at h
      · cases h
      · rename_i hr
        obtain ⟨c, hc, rfl⟩ := Option.map_eq_some_iff.mp h
        simp only [Sys.next] at hc
        split at hc <;> cases hc
        exact .of_register hp (by simpa using hr) w
    · cases h
  | heartbeat w' activeJobs sent =>
    simp only [next] at h
    split at h
    · rename_i p hp
      split at h <;> cases h
      exact .of_heartbeat hp w
    · cases h
  | claim w' queueId locked =>
    simp only [next] at h
    split at h
    · split at h
      · obtain ⟨c, hc, rfl⟩ := Option.map_eq_some_iff.mp h
        cases (next_tables hc).workers with
        | same hw hh => exact .of_core rfl (by rw [hw]) hh
      · cases h
    · cases h

theorem Fleet.next_core (h : s.next cron l = some s') :
    s'.core = s.core ∨ ∃ k, s.core.next cron k = some s'.core ∧
      ∀ w q locked, k = .claim w q locked → (s.procs w).map Proc.registered = some true := by
  cases l with
  | core l =>
    simp only [next] at h
    split at h
    · cases h
    · rename_i hl
      obtain ⟨c, hc, rfl⟩ := Option.map_eq_some_iff.mp h
      refine .inr ⟨l, hc, ?_⟩
      rintro w q locked rfl
      exact absurd rfl hl
  | start w' =>
    simp only [next] at h
    split at h <;> cases h
    exact .inl rfl
  | register w' name hostname =>
    simp only [next] at h
    split at h
    · split at h
      · cases h
      · obtain ⟨c, hc, rfl⟩ := Option.map_eq_some_iff.mp h
        exact .inr ⟨_, hc, by simp⟩
    · cases h
  | heartbeat w' activeJobs sent =>
    simp only [next] at h
    split at h
    · split at h
      · rename_i hok
        cases h
        simp only [Bool.and_eq_true, decide_eq_true_eq] at hok
        dsimp only
        unfold beat
        split
        · rename_i db hdb
          refine .inr ⟨.heartbeat w' activeJobs, ?_, by simp⟩
          rw [Sys.next, if_neg hok.2, hdb]
          rfl
        · exact .inl rfl
      · cases h
    · cases h
  | claim w' queueId locked =>
    simp only [next] at h
    split at h
    · rename_i p hp
      split at h
      · rename_i hr
        obtain ⟨c, hc, rfl⟩ := Option.map_eq_some_iff.mp h
        refine .inr ⟨_, hc, ?_⟩
        rintro w q locked' he
        cases he
        simp [hp, hr]
      · cases h
    · cases h

theorem Fleet.now_le (h : s.next cron l = some s') : s.core.now ≤ s'.core.now := by
  rcases next_core h with hsame | ⟨k, hc, _⟩
  · rw [hsame]
  · exact (next_tables hc).now

theorem Effect.workerId_before {s : Sys} {j : Uuid} {l : Label} {v : View} {r' : Job} (h : Effect s j l v)
    (hrow' : v.row = some r') (hw : r'.workerId = some w) :
    (∃ r, (s.view j).row = some r ∧ r.workerId = some w) ∨ ∃ q locked, l = .claim w q locked := by
  -- an `UPDATE` that clears the column
  have hcleared {r₀ : Job} (h₀ : some r₀ = some r') (hnone : r₀.workerId = none) :
      (∃ r, (s.view j).row = some r ∧ r.workerId = some w) ∨ ∃ q locked, l = .claim w q locked := by
    cases h₀
    rw [hnone] at hw
    cases hw
  cases h with
  | same _ | notStarted _ _ | scheduledNext _ _ | died _ | crashed => exact .inl ⟨r', hrow', hw⟩
  | notApplied _ _ _ =>
    rw [View.endFinish_row] at hrow'
    exact .inl ⟨r', hrow', hw⟩
  | inserted _ _ _ hnew _ => exact hcleared hrow' hnew.workerId
  | cancelled h₀ _ | promoted h₀ _ | released h₀ _ =>
    cases hrow'
    exact .inl ⟨_, h₀, hw⟩
  | recovered _ _ => exact hcleared hrow' rfl
  | retried _ _ _ => exact hcleared hrow' rfl
  | claimed _ _ _ =>
    cases hrow'
    cases hw
    exact .inr ⟨_, _, rfl⟩
  | started _ _ | startLost _ _ =>
    obtain ⟨r, h₀, rfl⟩ := Option.map_eq_some_iff.mp hrow'
    exact .inl ⟨r, h₀, hw⟩
  | completed _ _ _ _ | deadLettered _ _ _ _ _ | rescheduled _ _ _ _ _ =>
    obtain ⟨r, h₀, rfl⟩ := Option.map_eq_some_iff.mp hrow'
    cases hw

theorem Fleet.heard_congr (h : s'.core.db.workerHeartbeats.find? w = s.core.db.workerHeartbeats.find? w)
    (t : Timestamp) : s'.heard w t = s.heard w t := by
  unfold heard
  rw [h]

theorem Standing.step {hist : List (Fleet × FleetLabel)} (h : Standing hist s w) (hm : WorkerMove s w l s')
    (hnow : s.core.now ≤ s'.core.now) : Standing ((s, l) :: hist) s' w := by
  have hnone (hv : ∀ q ∈ hist, q.1.vital w q.2 = false) (hl : s.vital w l = false) :
      ∀ q ∈ (s, l) :: hist, q.1.vital w q.2 = false := by
    intro q hq
    rcases List.mem_cons.mp hq with rfl | hq
    · exact hl
    · exact hv q hq
  cases h with
  | absent hp hv =>
    cases hm with
    | kept hp' _ _ hl => exact .absent (by simpa [hp] using hp') (hnone hv hl)
    | started _ hp' hw hh hl => exact .starting hp' hw hh (hnone hv hl)
    | registered hp' _ _ _ _ => simp [hp] at hp'
    | beat hs _ _ _ _ => simp [hp] at hs
  | starting hp hw hh hv =>
    cases hm with
    | kept hp' hw' hh' hl =>
      exact .starting (hp'.trans hp) (by simpa [hw] using hw') (hh'.trans hh) (hnone hv hl)
    | started hp' _ _ _ _ => simp [hp'] at hp
    | registered _ hp' hw' hh' hl =>
      have hheard : s'.heard w s.core.now = s.core.now := by
        unfold Fleet.heard
        rw [hh', hh]
      refine .registered hp' (hw' hw) ⟨(s, l), List.mem_cons_self, hl, rfl⟩ (fun q hq hql => ?_) (by rwa [hheard])
      rw [hheard]
      rcases List.mem_cons.mp hq with rfl | hq
      · exact le_rfl
      · rw [hv q hq] at hql
        cases hql
    | beat _ _ _ hk _ =>
      obtain ⟨k, hk⟩ := hk
      rw [hw] at hk
      cases hk
  | @registered t hp hw hreg hv hle =>
    have hreg' : ∃ q ∈ (s, l) :: hist, q.1.vital w q.2 = true ∧ q.1.core.now = t := by
      obtain ⟨q, hq, hql⟩ := hreg
      exact ⟨q, List.mem_cons_of_mem _ hq, hql⟩
    cases hm with
    | kept hp' hw' hh' hl =>
      have hheard := Fleet.heard_congr hh' t
      refine .registered (hp'.trans hp) (hw'.trans hw) hreg' (fun q hq hql => ?_) (by rw [hheard]; exact hle.trans hnow)
      rw [hheard]
      rcases List.mem_cons.mp hq with rfl | hq
      · rw [hl] at hql
        cases hql
      · exact hv q hq hql
    | started hp' _ _ _ _ => simp [hp'] at hp
    | registered hp' _ _ _ _ => simp [hp] at hp'
    | beat _ hp' hw' _ hh' =>
      obtain ⟨hb, hhb, hlast⟩ := hh'
      have hheard : s'.heard w t = s.core.now := by
        unfold Fleet.heard
        rw [hhb]
        exact hlast
      refine .registered (hp'.trans hp) (by rw [hw']; exact hw) hreg' (fun q hq hql => ?_) (by rwa [hheard])
      rw [hheard]
      rcases List.mem_cons.mp hq with rfl | hq
      · exact le_rfl
      · exact (hv q hq hql).trans hle

end Steps

section Runs
variable {cron : Cron} {s : Fleet} {hist : List (Fleet × FleetLabel)} {ok : Fleet → FleetLabel → Prop}

theorem standing_of_run (h : Run (fleet cron) ok hist s) (w : Uuid) : Standing hist s w := by
  refine Run.invariant (I := fun hist s => Standing hist s w) ?_ ?_ h
  · intro s (hs : s.Initial)
    exact .absent (hs.procs w) (by simp)
  · intro hist s l s' _ hi _ hn
    exact hi.step (Fleet.next_worker hn w) (Fleet.now_le hn)

/-- A worker named in a row has registered in this run. -/
theorem holder_registered (h : Reachable (fleet cron) ok s) {j w : Uuid} {r : Job}
    (hr : s.core.db.jobs.find? j = some r) (hw : r.workerId = some w) :
    (s.procs w).map Proc.registered = some true := by
  refine Reachable.invariant (I := fun s => ∀ r, s.core.db.jobs.find? j = some r → r.workerId = some w →
    (s.procs w).map Proc.registered = some true) ?_ ?_ h r hr hw
  · intro s (hs : s.Initial) r hr
    simp [Table.find?, hs.core.jobs] at hr
  · intro s l s' _ hi _ hn r' hr' hw'
    have hbefore : (s.procs w).map Proc.registered = some true := by
      rcases Fleet.next_core hn with hsame | ⟨k, hc, hclaim⟩
      · rw [hsame] at hr'
        exact hi r' hr' hw'
      · rcases (next_effect j hc).workerId_before hr' hw' with ⟨r, hr, hw⟩ | ⟨q, locked, rfl⟩
        · exact hi r hr hw
        · exact hclaim w q locked rfl
    -- a process that has registered stays registered
    cases Fleet.next_worker hn w with
    | kept hp _ _ _ => rw [hp, hbefore]
    | started hp _ _ _ _ => simp [hp] at hbefore
    | registered _ hp _ _ _ => exact hp
    | beat _ hp _ _ _ => rw [hp, hbefore]

theorem recoverStaleJobs_find? (db : Db) (now : Timestamp) (threshold : ℤ) (j : Uuid) :
    (recoverStaleJobs db now threshold).jobs.find? j =
      (db.jobs.find? j).map fun r => if recoverable db now threshold r then r.recover now else r := by
  rw [recoverStaleJobs, Db.updateJobs, Table.find?_update]

/-- What the tables say of a worker named in a row. -/
theorem holder_standing (h : Run (fleet cron) ok hist s) {j w : Uuid} {r : Job}
    (hr : s.core.db.jobs.find? j = some r) (hw : r.workerId = some w) :
    ∃ k, s.core.db.workers.find? w = some k ∧
      (∃ q ∈ hist, q.1.vital w q.2 = true ∧ q.1.core.now = k.registeredAt) ∧
      ∀ q ∈ hist, q.1.vital w q.2 = true → q.1.core.now ≤ s.heard w k.registeredAt := by
  have hp := holder_registered h.reachable hr hw
  cases standing_of_run h w with
  | absent hp' _ => simp [hp'] at hp
  | starting hp' _ _ _ => simp [hp'] at hp
  | registered _ hat hreg hv _ =>
    obtain ⟨k, hk, rfl⟩ := Option.map_eq_some_iff.mp hat
    exact ⟨k, hk, hreg, hv⟩

/-- A worker that the tables have heard of less than the threshold ago is not stale, unless it has no
heartbeat row. -/
theorem isStale_of_heard {w : Uuid} {k : Worker} {threshold : ℤ} (hk : s.core.db.workers.find? w = some k)
    (hheard : s.core.now - threshold * 1000000 < s.heard w k.registeredAt) :
    isStale s.core.db s.core.now threshold w = (s.core.db.workerHeartbeats.find? w).isNone := by
  unfold Fleet.heard at hheard
  unfold isStale
  rw [hk]
  cases hhb : s.core.db.workerHeartbeats.find? w with
  | none => rfl
  | some hb =>
    simp only [hhb] at hheard
    have hfresh : ¬threshold * 1000000 < s.core.now - hb.lastSeen := not_lt.mpr (sub_lt_comm.mp hheard).le
    simp [hfresh]

/-- Stale recovery spares live workers exactly when no claimed or running job is held by a worker that
registered less than the threshold ago and has no heartbeat row yet. -/
theorem recovery_spares_live_iff (h : Run (fleet cron) (fun _ _ => True) hist s) (threshold : ℤ) :
    SparesLive hist s threshold ↔ s.heldByBeating threshold = true := by
  constructor
  · intro hspares
    unfold Fleet.heldByBeating
    refine List.all_eq_true.mpr fun r hr => ?_
    by_contra hbad
    simp only [Bool.or_eq_true, Bool.and_eq_true, decide_eq_true_eq, Option.all_eq_true, not_or, not_forall,
      Option.not_isSome_iff_eq_none, not_le] at hbad
    obtain ⟨hst, w, hw, hnohb, k, hk, hlate⟩ := hbad
    have hfind := Table.find?_of_mem hr
    obtain ⟨k', hk', ⟨q, hq, hvital, hqnow⟩, _⟩ := holder_standing h hfind hw
    obtain rfl : k = k' := Option.some.inj (hk.symm.trans hk')
    -- it is stale, for want of a heartbeat
    have hrec : recoverable s.core.db s.core.now threshold r = true := by
      have hst : r.status = .claimed ∨ r.status = .running := by
        by_contra hno
        exact hst ⟨fun he => hno (.inl he), fun he => hno (.inr he)⟩
      simp [recoverable, hst, hw, isStale, hk, hnohb]
    have hkept := hspares r.id r w hfind hw ⟨q, hq, hvital, by rw [hqnow]; exact hlate⟩
    rw [recoverStaleJobs_find?, hfind] at hkept
    have hself : r.recover s.core.now = r := by simpa [hrec] using hkept
    rw [← hself] at hrec
    simp [recoverable, Job.recover] at hrec
  · intro hheld j r w hr hw hlive
    obtain ⟨q, hq, hvital, hlate⟩ := hlive
    obtain ⟨k, hk, _, hv⟩ := holder_standing h hr hw
    have hheard := hlate.trans_le (hv q hq hvital)
    rw [recoverStaleJobs_find?, hr]
    have hnot : recoverable s.core.db s.core.now threshold r = false := by
      apply Bool.eq_false_iff.mpr
      intro hrec
      have hstale : isStale s.core.db s.core.now threshold w = true := by
        simpa [recoverable, hw] using (Bool.and_eq_true_iff.mp hrec).2
      rw [isStale_of_heard hk hheard, Option.isNone_iff_eq_none] at hstale
      -- so it registered long ago, and has not been heard of since
      have hlong : k.registeredAt ≤ s.core.now - threshold * 1000000 := by
        have hall := List.all_eq_true.mp hheld r (Table.mem_of_find? hr)
        rcases recoverable_status hrec with hst | hst <;> simpa [hst, hw, hstale, hk] using hall
      simp only [Fleet.heard, hstale] at hheard
      exact absurd hlong (not_le.mpr hheard)
    simp [hnot]

end Runs

namespace Sample

def fleet : Fleet := ⟨sys, fun _ => none⟩

theorem fleet_initial : fleet.Initial := ⟨sys_initial, fun _ => rfl⟩

end Sample

/-- The second tick comes after the registration: the worker keeps its job. -/
theorem recovery_spares_live_iff_sample :
    ∃ hist s, Run (fleet Sample.cron) (fun _ _ => True) hist s ∧
      ((s.core.db.jobs.find? 100).any fun r => r.status = .claimed) = true ∧ SparesLive hist s 60 := by
  obtain ⟨hist, s, hrun, hp⟩ := Run.exists_of_exec (M := fleet Sample.cron) Sample.fleet_initial
    [.start 1, .heartbeat 1 0 true, .register 1 "a" "h1", .core (.tick 10000000), .heartbeat 1 0 true,
      .core (.createJob 100 7 Sample.queue (Sample.request 3)), .claim 1 10 []]
    (fun _ _ => true)
    (fun _ s => s.heldByBeating 60 && (s.core.db.jobs.find? 100).any fun r => r.status = .claimed)
    (by decide)
  obtain ⟨hheld, hclaimed⟩ := Bool.and_eq_true_iff.mp hp
  have hrun : Run (fleet Sample.cron) (fun _ _ => True) hist s := hrun.mono fun _ _ _ => trivial
  exact ⟨hist, s, hrun, hclaimed, (recovery_spares_live_iff hrun 60).mpr hheld⟩

/-- The heartbeat task's first tick comes before the registration and is rejected. Until the next one,
ten seconds later, recovery takes the worker's job. -/
theorem recovery_takes_from_live :
    ¬∀ (cron : Cron) (hist : List (Fleet × FleetLabel)) (s : Fleet) (threshold : ℤ),
      Run (fleet cron) (fun _ _ => True) hist s → SparesLive hist s threshold := by
  intro hall
  obtain ⟨hist, s, hrun, hp⟩ := Run.exists_of_exec (M := fleet Sample.cron) Sample.fleet_initial
    [.start 1, .heartbeat 1 0 true, .register 1 "a" "h1",
      .core (.createJob 100 7 Sample.queue (Sample.request 3)), .claim 1 10 [], .core (.tick 1000000)]
    (fun _ _ => true)
    (fun hist s => (hist.any fun q => q.1.vital 1 q.2 && s.core.now - 60 * 1000000 < q.1.core.now) &&
      (s.core.db.jobs.find? 100).any fun r => r.workerId = some 1 && r.status = .claimed &&
        (recoverStaleJobs s.core.db s.core.now 60).jobs.rows.any fun r' => r'.id = 100 && r'.status = .queued)
    (by decide)
  simp only [Bool.and_eq_true, Option.any_eq_true, List.any_eq_true, decide_eq_true_eq] at hp
  obtain ⟨⟨q, hq, hvital, hlate⟩, r, hr, ⟨hw, hs⟩, r', hr', hid, hs'⟩ := hp
  have hkept := hall _ hist s 60 (hrun.mono fun _ _ _ => trivial) 100 r 1 hr hw ⟨q, hq, hvital, hlate⟩
  have hfind := Table.find?_of_mem hr'
  rw [hid, hkept] at hfind
  cases hfind
  rw [hs] at hs'
  cases hs'

end JobScheduler
