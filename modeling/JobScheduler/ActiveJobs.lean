import JobScheduler.Processes

namespace JobScheduler
open Relational Transition

/-- The executors of a worker that have neither returned nor panicked. -/
def Sys.inFlight (s : Sys) (w : Uuid) : ℕ := s.tasks.table.count fun t => t.workerId = w

def Label.panicking (s : Sys) : Label → Option Task
  | .die task => s.tasks.find? task
  | _ => none

def Cluster.panics (w : Uuid) (s : Cluster) : ClusterLabel → Bool
  | .core l => (l.panicking s.core).any fun t => t.workerId = w
  | _ => false

def panicked (w : Uuid) (hist : List (Cluster × ClusterLabel)) : ℕ := hist.countP fun e => e.1.panics w e.2

section Tasks
variable {cron : Cron} {s s' : Sys} {l : Label} {w : Uuid}

theorem Tasks.count_setPhase (ts : Tasks) (task : ℕ) (phase : Phase) (w : Uuid) :
    (ts.setPhase task phase).table.count (fun t => t.workerId = w) = ts.table.count fun t => t.workerId = w := by
  have hcomp : ((fun t : Task => decide (t.workerId = w)) ∘ fun u : Task =>
      if decide (u.id = task) then { u with phase := phase } else u) = fun t => decide (t.workerId = w) := by
    funext u
    dsimp only [Function.comp]
    split <;> rfl
  rw [Table.count, setPhase, Table.rows_update, List.countP_map, hcomp]
  rfl

theorem Tasks.find?_setPhase (ts : Tasks) (task : ℕ) (phase : Phase) {t : Task} (ht : ts.find? t.id = some t) :
    ((ts.setPhase task phase).find? t.id).isSome = true := by
  have hfind : (ts.setPhase task phase).find? t.id =
      (ts.find? t.id).map fun u => if decide (u.id = task) then { u with phase := phase } else u :=
    Table.find?_update _ _ (fun u : Task => { u with phase := phase }) (fun _ => rfl) _
  rw [hfind, ht]
  rfl

theorem Tasks.find?_drop (ts : Tasks) (task : ℕ) :
    (ts.drop fun u => decide (u.id = task)).find? task = Option.none := by
  apply (Table.find?_eq_none_iff _ _).mpr
  intro hmem
  obtain ⟨t, ht, hid⟩ := List.mem_map.mp hmem
  have hkeep := (List.mem_filter.mp ht).2
  simp [hid] at hkeep

theorem Tasks.count_spawn (ts : Tasks) (workerId : Uuid) (job : Job) (w : Uuid) :
    (ts.spawn workerId job).table.count (fun t => t.workerId = w) =
      ts.table.count (fun t => t.workerId = w) + (decide (workerId = w)).toNat := by
  rw [Table.count, spawn, List.countP_append]
  by_cases hw : workerId = w <;> simp [hw, Table.count]

theorem returning_eq (hd : ∀ task, l ≠ .die task) :
    l.returning s s' = (l.task.bind s.tasks.find?).filter fun t => (s'.tasks.find? t.id).isNone := by
  cases l with
  | die task => exact absurd rfl (hd task)
  | _ => rfl

theorem returning_cases {ts : Tasks} {t : Task} (hl : l.task = some t.id) (hd : ∀ task, l ≠ .die task)
    (ht : t ∈ s.tasks.table.rows)
    (hts : (∃ phase, ts = s.tasks.setPhase t.id phase) ∨ ts = s.tasks.drop fun u => decide (u.id = t.id))
    (hs : s'.tasks = ts) :
    s.inFlight w = s'.inFlight w + ((l.returning s s').any fun t => t.workerId = w).toNat := by
  have hfind : s.tasks.find? t.id = some t := Table.find?_of_mem ht
  have hret : l.returning s s' = if (s'.tasks.find? t.id).isNone then some t else none := by
    rw [returning_eq hd, hl, Option.bind_some, hfind]
    rfl
  rw [hret]
  unfold Sys.inFlight
  rcases hts with ⟨phase, rfl⟩ | rfl
  · rw [hs, Tasks.count_setPhase, if_neg]
    · rfl
    · rw [Option.isNone_iff_eq_none, ← Option.not_isSome_iff_eq_none]
      exact fun h => h (s.tasks.find?_setPhase t.id phase hfind)
  · rw [hs, Tasks.find?_drop, if_pos (by rfl)]
    exact (Table.count_delete_key hfind _).symm

theorem returning_of_none (hl : l.task = none) : l.returning s s' = none := by
  cases l with
  | markRunning | finish | scheduleNext => cases hl
  | _ => rfl

/-- A step of the scheduler other than a claim takes an executor from a live worker only when the
executor returns or panics. -/
theorem inFlight_next (h : s.next cron l = some s') (hl : ∀ w q locked, l ≠ .claim w q locked) (hw : w ∉ s'.crashed) :
    s.inFlight w = s'.inFlight w + ((l.returning s s').any fun t => t.workerId = w).toNat +
      ((l.panicking s).any fun t => t.workerId = w).toNat := by
  have hsame (ht : s'.tasks = s.tasks) (htask : l.task = none) (hp : l.panicking s = none) :
      s.inFlight w = s'.inFlight w + ((l.returning s s').any fun t => t.workerId = w).toNat +
        ((l.panicking s).any fun t => t.workerId = w).toNat := by
    rw [returning_of_none htask, hp]
    simp [Sys.inFlight, ht]
  cases sys_step h with
  | claimed _ _ _ | notClaimed _ => exact absurd rfl (hl _ _ _)
  | @crash w' =>
    have hne : w' ≠ w := fun he => hw (by rw [he]; exact List.mem_cons_self)
    have hcount : (s.tasks.drop fun t => decide (t.workerId = w')).table.count (fun t => t.workerId = w) =
        s.tasks.table.count fun t => t.workerId = w := by
      rw [Table.count, Tasks.drop, Table.rows_delete, List.countP_filter]
      refine List.countP_congr fun t _ => ?_
      simp only [Bool.and_eq_true, decide_eq_true_eq, Bool.not_eq_true', decide_eq_false_iff_not]
      exact ⟨fun h => h.1, fun h => ⟨h, fun he => hne (he.symm.trans h)⟩⟩
    rw [returning_of_none rfl]
    exact hcount.symm
  | @markRunning t startedAt outcome ht hp =>
    refine returning_cases rfl (by simp) ht ?_ rfl
    unfold Sys.markRunning
    dsimp only
    split
    · exact .inl ⟨_, rfl⟩
    · exact .inr rfl
  | @finish t startedAt x ht hp =>
    refine returning_cases rfl (by simp) ht ?_ rfl
    unfold Sys.finish
    dsimp only
    split
    · exact .inl ⟨_, rfl⟩
    · exact .inr rfl
  | @scheduledNext t utcNow nextAt id correlationId row db ht hp hrow hi =>
    exact returning_cases rfl (by simp) ht (.inr rfl) rfl
  | @notScheduled t utcNow id correlationId ok ht hp =>
    exact returning_cases rfl (by simp) ht (.inr rfl) rfl
  | @die t ht =>
    have hfind : s.tasks.find? t.id = some t := Table.find?_of_mem ht
    show s.inFlight w = _ + 0 + _
    show _ = _ + ((s.tasks.find? t.id).any _).toNat
    rw [hfind]
    exact (Table.count_delete_key hfind _).symm
  | _ => exact hsame rfl rfl rfl

end Tasks

section Processes
variable {cron : Cron} {w w' : Uuid} {core c : Sys} {p p' : Process} {a : Action}

theorem claim_spawns {q : Uuid} {locked : List Uuid} (hj : core.claims w q locked = true)
    (h : core.next cron (.claim w q locked) = some c) : ∃ job, c.tasks = core.tasks.spawn w job := by
  simp only [Sys.next] at h
  split at h <;> cases h
  unfold Sys.claims at hj
  unfold Sys.claim
  cases hc : claimNextJob core.db core.now q w locked with
  | error e => simp [hc] at hj
  | ok job =>
    cases job with
    | none => simp [hc] at hj
    | some r => exact ⟨r.1, rfl⟩

theorem Sys.beat_tasks (s : Sys) (w : Uuid) (v : Int32) (sent : Bool) : (s.beat w v sent).tasks = s.tasks := by
  unfold beat
  split <;> rfl

theorem Sys.beat_crashed (s : Sys) (w : Uuid) (v : Int32) (sent : Bool) : (s.beat w v sent).crashed = s.crashed := by
  unfold beat
  split <;> rfl

theorem Process.Step.crashed (h : p.Step cron w core a p' c) : c.crashed = core.crashed := by
  cases h with
  | register _ hn | claimed _ _ hn => exact (next_frame hn).crashed
  | upsertHeartbeat _ => exact Sys.beat_crashed _ _ _ _
  | _ => rfl

/-- A process starts an executor of its own exactly where it counts one more. -/
theorem Process.Step.inFlight (h : p.Step cron w core a p' c) (v : Uuid) :
    c.inFlight v = core.inFlight v ∧ (p'.activeJobs = p.activeJobs ∧ p'.returned = p.returned ∨
        p'.activeJobs = p.activeJobs - 1 ∧ p'.returned + 1 = p.returned) ∨
      c.inFlight v = core.inFlight v + (decide (w = v)).toNat ∧ p'.activeJobs = p.activeJobs + 1 ∧
        p'.returned = p.returned := by
  cases h with
  | register _ hn =>
    cases sys_step hn
    exact .inl ⟨rfl, .inl ⟨rfl, rfl⟩⟩
  | upsertHeartbeat _ =>
    refine .inl ⟨?_, .inl ⟨rfl, rfl⟩⟩
    rw [Sys.inFlight, Sys.beat_tasks]
    rfl
  | claimed _ hj hn =>
    obtain ⟨job, ht⟩ := claim_spawns hj hn
    refine .inr ⟨?_, rfl, rfl⟩
    rw [Sys.inFlight, ht]
    exact Tasks.count_spawn _ _ _ _
  | fetchSub hr => exact .inl ⟨rfl, .inr ⟨rfl, Nat.sub_add_cancel (Nat.one_le_iff_ne_zero.mpr hr)⟩⟩
  | _ => exact .inl ⟨rfl, .inl ⟨rfl, rfl⟩⟩

theorem Process.Step.inFlight_other (h : p.Step cron w core a p' c) (hw : w' ≠ w) :
    c.inFlight w' = core.inFlight w' := by
  rcases h.inFlight w' with ⟨he, _⟩ | ⟨he, _⟩
  · exact he
  · simpa [Ne.symm hw] using he

/-- What the counter of a process holds: the executors still running, those that have not decremented it
yet, and `d` that never will. -/
def Process.Counts (p : Process) (s : Sys) (w : Uuid) (d : ℕ) : Prop :=
  p.activeJobs = Int32.ofNat (s.inFlight w + p.returned + d)

theorem Process.Counts.step {d : ℕ} (hi : p.Counts core w d) (h : p.Step cron w core a p' c) : p'.Counts c w d := by
  unfold Counts at hi ⊢
  rcases h.inFlight w with ⟨hf, ⟨ha, hr⟩ | ⟨ha, hr⟩⟩ | ⟨hf, ha, hr⟩
  · rw [hf, ha, hr, hi]
  · have hn : core.inFlight w + p.returned + d = core.inFlight w + p'.returned + d + 1 := by omega
    rw [hf, ha, hi, hn, Int32.ofNat_add]
    exact Int32.add_sub_cancel _ _
  · have hn : c.inFlight w + p'.returned + d = core.inFlight w + p.returned + d + 1 := by
      rw [hf, hr, decide_eq_true rfl, Bool.toNat_true]
      omega
    rw [hn, ha, hi]
    exact (Int32.ofNat_add _ 1).symm

end Processes

section Runs
variable {cron : Cron} {ok : Cluster → ClusterLabel → Prop} {hist : List (Cluster × ClusterLabel)} {s s' : Cluster}
  {l : ClusterLabel} {w : Uuid} {p : Process}

/-- A worker id that nobody has drawn, a process that is gone, or a counter that counts. -/
inductive Counted (w : Uuid) (hist : List (Cluster × ClusterLabel)) (s : Cluster) : Prop
  | absent (hp : s.processes w = none) (ht : s.core.inFlight w = 0) (hd : panicked w hist = 0)
  | crashed (hw : w ∈ s.core.crashed)
  | running {p : Process} (hp : s.processes w = some p) (hc : p.Counts s.core w (panicked w hist))

theorem panicked_cons (w : Uuid) (hist : List (Cluster × ClusterLabel)) (s : Cluster) (l : ClusterLabel) :
    panicked w ((s, l) :: hist) = panicked w hist + (s.panics w l).toNat := by
  rw [panicked, List.countP_cons]
  cases s.panics w l <;> rfl

theorem Counted.core {l : Label} {c : Sys} (hi : Counted w hist s) (hl : l.byWorker = false)
    (hn : s.core.next cron l = some c) :
    Counted w ((s, .core l) :: hist) { s.owe (l.returning s.core c) with core := c } := by
  by_cases hw : w ∈ c.crashed
  · exact .crashed hw
  have hclaim : ∀ w q locked, l ≠ .claim w q locked := by
    rintro w q locked rfl
    cases hl
  have hcount := inFlight_next hn hclaim hw
  have hpanic : s.panics w (.core l) = (l.panicking s.core).any fun t => t.workerId = w := rfl
  have hdead := panicked_cons w hist s (.core l)
  rw [hpanic] at hdead
  cases hi with
  | absent hp ht hd =>
    refine .absent ?_ ?_ ?_
    · show (s.processes w).map _ = none
      rw [hp]
      rfl
    · show c.inFlight w = 0
      omega
    · omega
  | crashed hw' =>
    refine absurd ?_ hw
    rw [(next_frame hn).crashed]
    exact List.mem_append_right _ hw'
  | @running p hp hc =>
    have hp' : ({ s.owe (l.returning s.core c) with core := c } : Cluster).processes w =
        some (if (l.returning s.core c).any fun t => t.workerId = w
          then { p with returned := p.returned + 1 } else p) := by
      show (s.processes w).map _ = _
      rw [hp]
      rfl
    refine .running hp' ?_
    unfold Process.Counts at hc ⊢
    rw [hdead]
    show _ = Int32.ofNat (c.inFlight w + _ + _)
    split
    · rename_i hr
      rw [hr, Bool.toNat_true] at hcount
      show p.activeJobs = Int32.ofNat (_ + (p.returned + 1) + _)
      rw [hc]
      congr 1
      omega
    · rename_i hr
      rw [Bool.eq_false_iff.mpr hr, Bool.toNat_false] at hcount
      rw [hc]
      congr 1
      omega

theorem Counted.step (hi : Counted w hist s) (h : s.next cron l = some s') : Counted w ((s, l) :: hist) s' := by
  cases Cluster.step h with
  | core hl hn => exact hi.core hl hn
  | @start w' queueIds hw =>
    have hdead : panicked w ((s, .start w' queueIds) :: hist) = panicked w hist := panicked_cons _ _ _ _
    by_cases hww : w = w'
    · subst hww
      cases hi with
      | absent hp ht hd =>
        refine .running (p := .new queueIds s.core.now) ?_ ?_
        · rw [Cluster.setProcess_processes, if_pos rfl]
        · unfold Process.Counts
          rw [hdead, hd]
          show _ = Int32.ofNat (s.core.inFlight w + 0 + 0)
          rw [ht]
          rfl
      | crashed hw' => exact absurd hw' hw.crashed
      | running hp _ =>
        rw [hw.process] at hp
        cases hp
    · have hother : (s.setProcess w' (.new queueIds s.core.now)).processes w = s.processes w := by
        rw [Cluster.setProcess_processes, if_neg hww]
      cases hi with
      | absent hp ht hd => exact .absent (hother.trans hp) ht (hdead.trans hd)
      | crashed hw' => exact .crashed hw'
      | running hp hc => exact .running (hother.trans hp) (by rw [hdead]; exact hc)
  | @own w' a p₀ p' c hw' hp₀ hstep =>
    have hdead : panicked w ((s, .own w' a) :: hist) = panicked w hist := panicked_cons _ _ _ _
    by_cases hww : w = w'
    · subst hww
      cases hi with
      | absent hp _ _ =>
        rw [hp] at hp₀
        cases hp₀
      | crashed hw => exact absurd hw hw'
      | running hp hc =>
        rw [hp] at hp₀
        cases hp₀
        refine .running (p := p') (Cluster.setProcess_processes _ _ _ _ |>.trans (if_pos rfl)) ?_
        rw [hdead]
        exact hc.step hstep
    · have hother : (s.setProcess w' p').processes w = s.processes w := by
        rw [Cluster.setProcess_processes, if_neg hww]
      have hflight := hstep.inFlight_other hww
      cases hi with
      | absent hp ht hd => exact .absent (hother.trans hp) (hflight.trans ht) (hdead.trans hd)
      | crashed hw => exact .crashed (by show w ∈ c.crashed; rw [hstep.crashed]; exact hw)
      | running hp hc =>
        refine .running (hother.trans hp) ?_
        unfold Process.Counts at hc ⊢
        rw [hdead,
          show ({ s.setProcess w' p' with core := c } : Cluster).core.inFlight w = s.core.inFlight w from hflight]
        exact hc

theorem counted_of_run (h : Run (cluster cron) ok hist s) (w : Uuid) : Counted w hist s := by
  refine Run.invariant (I := fun hist s => Counted w hist s) ?_ ?_ h
  · intro s (hs : s.Initial)
    refine .absent (hs.processes w) ?_ rfl
    rw [Sys.inFlight, Table.count, hs.core.tasks]
    rfl
  · intro hist s l s' _ hi _ hn
    exact hi.step hn

theorem counts_of_run (h : Run (cluster cron) ok hist s) (hp : s.processes w = some p) (hw : w ∉ s.core.crashed) :
    p.Counts s.core w (panicked w hist) := by
  cases counted_of_run h w with
  | absent hnone _ _ =>
    rw [hp] at hnone
    cases hnone
  | crashed hw' => exact absurd hw' hw
  | running hp' hc =>
    rw [hp] at hp'
    cases hp'
    exact hc

/-- In every run the counter of a live process is, modulo 2^32, the number of its executors that are
running or have not decremented it yet, and of those that have panicked: a panic is never taken back. -/
theorem active_jobs_counter (h : Run (cluster cron) ok hist s) (hp : s.processes w = some p)
    (hw : w ∉ s.core.crashed) :
    p.activeJobs = Int32.ofNat (s.core.inFlight w + p.returned + panicked w hist) := counts_of_run h hp hw

/-! ## What the heartbeats say -/

def ReadBefore (w : Uuid) (hist : List (Cluster × ClusterLabel)) (v : Int32) (t : Timestamp) : Prop :=
  ∃ later earlier s₁ p₁, hist = later ++ (s₁, .own w .readCounter) :: earlier ∧ s₁.processes w = some p₁ ∧
    p₁.activeJobs = v ∧ s₁.core.now ≤ t

theorem ReadBefore.later {v : Int32} {t t' : Timestamp} (h : ReadBefore w hist v t) (ht : t ≤ t')
    (e : Cluster × ClusterLabel) : ReadBefore w (e :: hist) v t' := by
  obtain ⟨later, earlier, s₁, p₁, rfl, hp, hv, hle⟩ := h
  exact ⟨e :: later, earlier, s₁, p₁, rfl, hp, hv, hle.trans ht⟩

structure Reports (w : Uuid) (hist : List (Cluster × ClusterLabel)) (s : Cluster) : Prop where
  sending : ∀ p v, s.processes w = some p → p.beating = some v → ReadBefore w hist v s.core.now
  stored : (s.processes w).isSome = true → ∀ hb, s.core.db.workerHeartbeats.find? w = some hb →
    ReadBefore w hist hb.activeJobs hb.lastSeen

theorem upsertHeartbeat_find? {db db' : Db} {now : Timestamp} {v : Int32}
    (h : upsertHeartbeat db now w v = .ok db') : db'.workerHeartbeats.find? w = some ⟨w, now, v⟩ := by
  unfold upsertHeartbeat at h
  split at h
  · cases h
  · split at h
    · rename_i hbs hi
      cases h
      exact (Table.find?_insert hi _).trans (if_pos rfl)
    · rename_i hi
      cases h
      obtain ⟨hb, hhb⟩ := (Table.insert_eq_none_iff _ _).mp hi
      have hhb : db.workerHeartbeats.find? w = some hb := hhb
      have hid : hb.workerId = w := Table.key_of_find? hhb
      rw [Table.find?_update_key, if_pos rfl, hhb, Option.map_some, hid]

theorem workerHeartbeats_of_core {c : Sys} {l : Label} (hl : l.byWorker = false) (hn : s.core.next cron l = some c) :
    c.db.workerHeartbeats = s.core.db.workerHeartbeats := by
  cases (next_tables hn).workers with
  | same _ hh => exact hh
  | registered _ => cases hl
  | deregistered hdb =>
    rw [hdb]
    rfl
  | seen _ => cases hl

theorem Process.Step.heartbeat {core c : Sys} {w' : Uuid} {p p' : Process} {a : Action}
    (h : p.Step cron w' core a p' c) (w : Uuid) :
    c.db.workerHeartbeats.find? w = core.db.workerHeartbeats.find? w ∨
      w = w' ∧ ∃ v, p.beating = some v ∧ c.db.workerHeartbeats.find? w = some ⟨w, core.now, v⟩ := by
  cases h with
  | register _ hn =>
    cases sys_step hn
    refine .inl ?_
    show (JobScheduler.register _ _ _ _ _).workerHeartbeats.find? w = _
    rw [register_heartbeats]
  | @upsertHeartbeat sent v hb =>
    unfold Sys.beat
    split
    · rename_i db hdb
      by_cases hw : w = w'
      · subst hw
        exact .inr ⟨rfl, v, hb, upsertHeartbeat_find? hdb⟩
      · exact .inl ((upsertHeartbeat_ok hdb).2.2.2 w hw)
    · exact .inl rfl
  | claimed _ _ hn =>
    cases (next_tables hn).workers with
    | same _ hh => exact .inl (by rw [hh])
  | _ => exact .inl rfl

theorem Process.Step.beating {core c : Sys} {p p' : Process} {a : Action} (h : p.Step cron w core a p' c)
    {v : Int32} (hb : p'.beating = some v) : p.beating = some v ∨ a = .readCounter ∧ p.activeJobs = v := by
  cases h with
  | readCounter _ _ => exact .inr ⟨rfl, Option.some.inj hb⟩
  | upsertHeartbeat _ => cases hb
  | _ => exact .inl hb

theorem Reports.step (hi : Reports w hist s) (h : s.next cron l = some s') : Reports w ((s, l) :: hist) s' := by
  cases Cluster.step h with
  | @core l c hl hn =>
    have hnow := (next_tables hn).now
    constructor
    · intro p v hp hb
      obtain ⟨p₀, hp₀, rfl⟩ := Option.map_eq_some_iff.mp hp
      refine (hi.sending p₀ v hp₀ ?_).later hnow _
      split at hb <;> exact hb
    · intro hp hb hfind
      have hfind : c.db.workerHeartbeats.find? w = some hb := hfind
      rw [workerHeartbeats_of_core hl hn] at hfind
      refine (hi.stored ?_ hb hfind).later le_rfl _
      have hp : ((s.processes w).map _).isSome = true := hp
      rwa [Option.isSome_map] at hp
  | @start w' queueIds hw =>
    constructor
    · intro p v hp hb
      rw [Cluster.setProcess_processes] at hp
      split at hp
      · cases hp
        cases hb
      · exact (hi.sending p v hp hb).later le_rfl _
    · intro hp hb hfind
      rw [Cluster.setProcess_processes] at hp
      split at hp
      · rename_i hww
        subst hww
        have hfind : s.core.db.workerHeartbeats.find? w = some hb := hfind
        rw [hw.heartbeat] at hfind
        cases hfind
      · exact (hi.stored hp hb hfind).later le_rfl _
  | @own w' a p₀ p' c hw' hp₀ hstep =>
    have hproc : ({ s.setProcess w' p' with core := c } : Cluster).processes w =
        if w = w' then some p' else s.processes w := Cluster.setProcess_processes _ _ _ _
    constructor
    · intro p v hp hb
      rw [hproc] at hp
      split at hp
      · rename_i hww
        subst hww
        cases hp
        rcases hstep.beating hb with hb₀ | ⟨rfl, hv⟩
        · exact (hi.sending p₀ v hp₀ hb₀).later hstep.now _
        · exact ⟨[], hist, s, p₀, rfl, hp₀, hv, hstep.now⟩
      · exact (hi.sending p v hp hb).later hstep.now _
    · intro hp hb hfind
      have hsome : (s.processes w).isSome = true := by
        rw [hproc] at hp
        split at hp
        · rename_i hww
          rw [hww, hp₀]
          rfl
        · exact hp
      rcases hstep.heartbeat w with hsame | ⟨hww, v, hb₀, hrow⟩
      · exact (hi.stored hsome hb (hsame.symm.trans hfind)).later le_rfl _
      · subst hww
        have hfind : c.db.workerHeartbeats.find? w = some hb := hfind
        rw [hrow] at hfind
        cases hfind
        exact (hi.sending p₀ v hp₀ hb₀).later le_rfl _

theorem reports_of_run (h : Run (cluster cron) ok hist s) (w : Uuid) : Reports w hist s := by
  refine Run.invariant (I := fun hist s => Reports w hist s) ?_ ?_ h
  · intro s (hs : s.Initial)
    have hnone := hs.processes w
    constructor
    · intro p v hp
      rw [hnone] at hp
      cases hp
    · intro hp
      rw [hnone] at hp
      cases hp
  · intro hist s l s' _ hi _ hn
    exact hi.step hn

/-- The heartbeat row of a worker process always holds the number of executors that it had, with those
that had panicked, at an earlier moment of the run, no later than the row's `last_seen`. -/
theorem heartbeat_reports (h : Run (cluster cron) ok hist s) (hp : s.processes w = some p) {hb : WorkerHeartbeat}
    (hhb : s.core.db.workerHeartbeats.find? w = some hb) :
    ∃ later earlier s₁ p₁, hist = later ++ (s₁, .own w .readCounter) :: earlier ∧ s₁.processes w = some p₁ ∧
      s₁.core.now ≤ hb.lastSeen ∧
      hb.activeJobs = Int32.ofNat (s₁.core.inFlight w + p₁.returned + panicked w earlier) := by
  obtain ⟨later, earlier, s₁, p₁, rfl, hp₁, hv, hle⟩ := (reports_of_run h w).stored (by rw [hp]; rfl) hb hhb
  obtain ⟨hrun, _, s₂, hn⟩ := h.split
  have hn : s₁.next cron (.own w .readCounter) = some s₂ := hn
  have hlive : w ∉ s₁.core.crashed := by
    cases Cluster.step hn with
    | own hw _ _ => exact hw
  exact ⟨later, earlier, s₁, p₁, rfl, hp₁, hle, hv ▸ counts_of_run hrun hp₁ hlive⟩

end Runs

namespace Sample

def leaking : List ClusterLabel :=
  polling ++ [.core (.createJob 101 8 queue (request 3)), .core (.tick 10000000), .own 1 .tick,
    .own 1 (.findById true), .own 1 (.countRunningJobs true), .own 1 (.claimNextJob [] true), .core (.die 0),
    .core (.markRunning 1 5 .lostBefore)]

end Sample

theorem active_jobs_counter_sample :
    ∃ hist s p, Run (cluster Sample.cron) (fun _ _ => True) hist s ∧ s.processes 1 = some p ∧
      s.core.inFlight 1 = 0 ∧ p.activeJobs = 2 ∧
      p.activeJobs = Int32.ofNat (s.core.inFlight 1 + p.returned + panicked 1 hist) := by
  obtain ⟨hist, s, hrun, hp⟩ := Run.exists_of_exec (M := cluster Sample.cron) Sample.cluster_initial Sample.leaking
    (fun _ _ => true) (fun _ s => s.core.inFlight 1 = 0 && 1 ∉ s.core.crashed &&
      (s.processes 1).any fun p => p.activeJobs = 2) rfl
  simp only [Bool.and_eq_true, decide_eq_true_eq, Option.any_eq_true] at hp
  obtain ⟨⟨hflight, hlive⟩, p, hproc, hcount⟩ := hp
  have hrun : Run (cluster Sample.cron) (fun _ _ => True) hist s := hrun.mono fun _ _ _ => trivial
  exact ⟨hist, s, p, hrun, hproc, hflight, hcount, active_jobs_counter hrun hproc hlive⟩

theorem heartbeat_reports_sample :
    ∃ hist s hb, Run (cluster Sample.cron) (fun _ _ => True) hist s ∧
      s.core.db.workerHeartbeats.find? 1 = some hb ∧ hb.activeJobs = 1 ∧
      ∃ later earlier s₁ p₁, hist = later ++ (s₁, .own 1 .readCounter) :: earlier ∧ s₁.processes 1 = some p₁ ∧
        s₁.core.now ≤ hb.lastSeen ∧
        hb.activeJobs = Int32.ofNat (s₁.core.inFlight 1 + p₁.returned + panicked 1 earlier) := by
  obtain ⟨hist, s, hrun, hp⟩ := Run.exists_of_exec (M := cluster Sample.cron) Sample.cluster_initial
    (Sample.polling ++ [.core (.tick 10000000), .own 1 .readCounter, .own 1 (.upsertHeartbeat true)])
    (fun _ _ => true) (fun _ s => (s.processes 1).isSome &&
      (s.core.db.workerHeartbeats.find? 1).any fun hb => hb.activeJobs = 1) rfl
  simp only [Bool.and_eq_true, decide_eq_true_eq, Option.any_eq_true] at hp
  obtain ⟨hproc, hb, hfind, hcount⟩ := hp
  obtain ⟨p, hproc⟩ := Option.isSome_iff_exists.mp hproc
  have hrun : Run (cluster Sample.cron) (fun _ _ => True) hist s := hrun.mono fun _ _ _ => trivial
  exact ⟨hist, s, hb, hrun, hfind, hcount, heartbeat_reports hrun hproc hfind⟩

end JobScheduler
