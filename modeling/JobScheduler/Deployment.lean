import JobScheduler.Dashboard
import JobScheduler.Drain
import JobScheduler.Outbox

namespace JobScheduler
open Relational Transition

/-! ## Scheduler, relays and dashboard on one database -/

/-- The scheduler and its database, and the event bus without a table of its own. -/
structure Deployment where
  sys : Sys
  relays : ℕ → Relay
  published : List Publication
  clients : ℕ → Client

inductive DeploymentLabel
  | system (l : Label)
  | bus (l : BusLabel)

namespace Deployment

def bus (s : Deployment) : EventBus := ⟨s.sys.db.outboxEvents, s.relays, s.published, s.clients⟩

def setBus (s : Deployment) (b : EventBus) : Deployment where
  sys := { s.sys with db := { s.sys.db with outboxEvents := b.outboxEvents } }
  relays := b.relays
  published := b.published
  clients := b.clients

/-- Events are committed by the scheduler only, and marked by the relays only, with `NOW()`. -/
def next (cron : Cron) (s : Deployment) : DeploymentLabel → Option Deployment
  | .system (.markPublished _) | .bus (.commit _) => none
  | .bus (.mark relay now outcome) =>
    if now = s.sys.now then (s.bus.next (.mark relay now outcome)).map s.setBus else none
  | .bus l => (s.bus.next l).map s.setBus
  | .system l => (s.sys.next cron l).map fun sys => { s with sys := sys }

structure Initial (s : Deployment) : Prop where
  sys : s.sys.Initial
  relays : ∀ r, s.relays r = .polling
  published : s.published = []
  clients : ∀ c, s.clients c = .closed

end Deployment

def deployment (cron : Cron) : System Deployment DeploymentLabel := ⟨Deployment.Initial, Deployment.next cron⟩

/-- What the event bus sees of a step: its own ones, and the event of a finish transaction. -/
inductive DeploymentLabel.Shows : DeploymentLabel → Option BusLabel → Prop
  | own {l : BusLabel} : Shows (.bus l) (some l)
  | committed {task : ℕ} {x : Finish} {e : OutboxEvent} (he : e.createdAt = x.eventAt) :
    Shows (.system (.finish task x)) (some (.commit e))
  | still {l : Label} : Shows (.system l) none

section Steps
variable {cron : Cron} {s s' : Sys} {l : Label} {d d' : Deployment} {dl : DeploymentLabel}

theorem insert_of_rows {t t' : Table OutboxEvent.id} {e : OutboxEvent} (h : t'.rows = t.rows ++ [e]) :
    t.insert e = some t' := by
  have hnodup := t'.nodup
  rw [h, List.map_append, List.nodup_append] at hnodup
  have hnew : e.id ∉ t.rows.map OutboxEvent.id := fun hmem => hnodup.2.2 _ hmem e.id (by simp) rfl
  rw [Table.insert, dif_neg hnew]
  obtain ⟨rows, nodup⟩ := t'
  cases h
  rfl

theorem content_event (x : Finish) (t : Task) : (x.event t).content = x.event t := by
  unfold Finish.event
  split
  · rfl
  · split <;> rfl

theorem createdAt_event (x : Finish) (t : Task) : (x.event t).createdAt = x.eventAt := by
  unfold Finish.event
  split
  · rfl
  · split <;> rfl

/-- Apart from the mark of a relay, only a finish transaction touches the outbox. -/
theorem outbox_next (h : s.next cron l = some s') (hl : ∀ id, l ≠ .markPublished id) :
    s'.db.outboxEvents = s.db.outboxEvents ∨
      ∃ t startedAt x, l = .finish t.id x ∧ x.Applied t startedAt s.now s.db s'.db := by
  cases sys_step h with
  | tick _ | deregister _ | crash | createQueue _ | cancelJob | releaseDependent | reQueueScheduledJobs
  | recoverStaleJobs | notClaimed _ | notScheduled _ _ | die _ | setPaused | claimed _ _ _ => exact .inl rfl
  | @register w name hostname _ =>
    obtain ⟨workers, hdb⟩ := register_eq s.db s.now w name hostname
    exact .inl (by rw [hdb])
  | heartbeat _ hdb =>
    obtain ⟨hbs, rfl⟩ := upsertHeartbeat_eq hdb
    exact .inl rfl
  | createJob _ hi | scheduledNext _ _ _ hi =>
    obtain ⟨_, jobs, _, rfl⟩ := insertJob_ok hi
    exact .inl rfl
  | retryJob _ _ hc | retryJobCommit _ hc =>
    obtain ⟨_, _, rfl⟩ := retryJobCommit_ok hc
    exact .inl rfl
  | createDependency hdb =>
    rcases createDependency_ok hdb with rfl | ⟨_, _, deps, _, rfl⟩ <;> exact .inl rfl
  | markPublished => exact absurd rfl (hl _)
  | @markRunning t startedAt outcome _ _ => cases outcome <;> exact .inl rfl
  | @finish t startedAt x ht hp =>
    rcases x.run_all_or_nothing t startedAt s.now s.db with ⟨_, hdb⟩ | ⟨_, ha⟩
    · exact .inl (congrArg Db.outboxEvents hdb)
    · exact .inr ⟨t, startedAt, x, rfl, ha⟩

theorem content_of_outboxEvents {b : EventBus} (h : b.outboxEvents = d.sys.db.outboxEvents) :
    (d.setBus b).sys = d.sys := by
  rw [Deployment.setBus, h]

theorem deployment_sys (h : d.next cron dl = some d') : d'.sys = d.sys ∨ ∃ k, d.sys.next cron k = some d'.sys := by
  unfold Deployment.next at h
  split at h
  · cases h
  · cases h
  · rename_i relay now outcome
    split at h
    · rename_i hnow
      obtain ⟨b, hb, rfl⟩ := Option.map_eq_some_iff.mp h
      have hstep := bus_step hb
      cases hstep with
      | @marked _ _ _ e rest hr =>
        refine .inr ⟨.markPublished e.id, ?_⟩
        have hmark := markEvent_outboxEvents d.sys.db d.bus rfl d.sys.now e.id
        rw [hnow]
        show some _ = some _
        rw [Deployment.setBus]
        exact congrArg (fun t => some { d.sys with db := { d.sys.db with outboxEvents := t } }) hmark.symm
      | markFailed hr => exact .inl (content_of_outboxEvents rfl)
    · cases h
  · rename_i l hcommit hmark
    obtain ⟨b, hb, rfl⟩ := Option.map_eq_some_iff.mp h
    refine .inl (content_of_outboxEvents ?_)
    have hstep := bus_step hb
    cases hstep with
    | committed _ => exact absurd rfl (hcommit _)
    | marked _ | markFailed _ => exact absurd rfl (hmark _ _ _)
    | _ => rfl
  · rename_i l _
    obtain ⟨sys, hsys, rfl⟩ := Option.map_eq_some_iff.mp h
    exact .inr ⟨l, hsys⟩

theorem deployment_bus (h : d.next cron dl = some d') :
    ∃ k, dl.Shows k ∧ eventBus.stutter.next d.bus k = some d'.bus := by
  unfold Deployment.next at h
  split at h
  · cases h
  · cases h
  · split at h
    · obtain ⟨b, hb, rfl⟩ := Option.map_eq_some_iff.mp h
      exact ⟨_, .own, hb⟩
    · cases h
  · obtain ⟨b, hb, rfl⟩ := Option.map_eq_some_iff.mp h
    exact ⟨_, .own, hb⟩
  · rename_i l hmark
    obtain ⟨sys, hsys, rfl⟩ := Option.map_eq_some_iff.mp h
    rcases outbox_next hsys hmark with hsame | ⟨t, startedAt, x, rfl, ha⟩
    · refine ⟨none, .still, ?_⟩
      show some d.bus = some _
      rw [Deployment.bus, Deployment.bus, hsame]
    · refine ⟨some (.commit (x.event t)), .committed (createdAt_event x t), ?_⟩
      have hinsert := insert_of_rows ha.outboxEvents
      rw [← content_event] at hinsert
      show (d.bus.outboxEvents.insert _).map _ = _
      rw [Deployment.bus, hinsert]
      rfl

theorem Deployment.Initial.bus (h : d.Initial) : d.bus.Initial := by
  refine ⟨?_, h.relays, h.published, h.clients⟩
  intro e he
  have he : e ∈ d.sys.db.outboxEvents.rows := he
  rw [h.sys.outboxEvents] at he
  cases he

theorem sys_reachable {ok : Deployment → DeploymentLabel → Prop} (h : Reachable (deployment cron) ok d) :
    Reachable (scheduler cron) (fun _ _ => True) d.sys := by
  refine Reachable.project Deployment.sys (fun _ hi => Deployment.Initial.sys hi) ?_ h
  intro d l d' _ _ hn
  rcases deployment_sys hn with hsame | ⟨k, hk⟩
  · exact .inl hsame
  · exact .inr ⟨k, trivial, hk⟩

/-- A new execution comes with its event, which is new as well. -/
theorem execution_new (h : d.next cron dl = some d') {e : JobExecution} (hold : e ∉ d.sys.db.jobExecutions.rows)
    (he : e ∈ d'.sys.db.jobExecutions.rows) :
    ∃ ev, d'.sys.db.outboxEvents.rows = d.sys.db.outboxEvents.rows ++ [ev] ∧
      d'.sys.db.jobExecutions.rows = d.sys.db.jobExecutions.rows ++ [e] := by
  rcases deployment_sys h with hsame | ⟨k, hk⟩
  · rw [hsame] at he
    exact absurd he hold
  · cases (next_frame hk).ledger with
    | kept hkept _ _ =>
      rw [hkept] at he
      exact absurd he hold
    | @finished t startedAt x _ _ _ ha =>
      rw [ha.jobExecutions] at he
      rcases List.mem_append.mp he with he | he
      · exact absurd he hold
      · obtain rfl := List.mem_singleton.mp he
        exact ⟨x.event t, ha.outboxEvents, ha.jobExecutions⟩

/-! ## What Redis has been told -/

def EventBus.Known (s : EventBus) (id : Uuid) : Prop := ∃ e, s.outboxEvents.find? id = some e

def EventBus.PublishesKnown (s : EventBus) : Prop := ∀ p ∈ s.published, s.Known p.eventId

theorem EventBus.Known.step {s s' : EventBus} {l : BusLabel} {id : Uuid} (h : s.Known id) (hs : s.Step l s') :
    s'.Known id := by
  obtain ⟨e, hfind⟩ := h
  obtain ⟨e', hfind', -⟩ := hs.kept e (Table.mem_of_find? hfind)
  rw [Table.key_of_find? hfind] at hfind'
  exact ⟨e', hfind'⟩

theorem EventBus.PublishesKnown.step {s s' : EventBus} {l : BusLabel} (h : s.PublishesKnown) (hinv : s.Inv)
    (hs : s.Step l s') : s'.PublishesKnown := by
  have hsend {relay : ℕ} {e : OutboxEvent} {rest : List OutboxEvent} {a : Bool}
      (hr : s.relays relay = .publishing e rest) :
      ∀ p ∈ e.publication a :: s.published, s'.Known p.eventId := by
    intro p hp
    rcases List.mem_cons.mp hp with rfl | hp
    · obtain ⟨e', hfind, -⟩ := hinv.batch relay e (by rw [hr]; exact List.mem_cons_self)
      exact EventBus.Known.step ⟨e', hfind⟩ hs
    · exact (h p hp).step hs
  have hstep := hs
  cases hs with
  | published hr => exact hsend hr
  | replyLost hr => exact hsend hr
  | _ => exact fun p hp => (h p hp).step hstep

/-! ## What a step keeps -/

theorem execution_kept (h : d.next cron dl = some d') {e : JobExecution} (he : e ∈ d.sys.db.jobExecutions.rows) :
    e ∈ d'.sys.db.jobExecutions.rows := by
  rcases deployment_sys h with hsame | ⟨k, hk⟩
  · rwa [hsame]
  · cases (next_frame hk).ledger with
    | kept hkept _ _ => rwa [hkept]
    | finished _ _ ha =>
      rw [ha.jobExecutions]
      exact List.mem_append_left _ he

theorem logged_kept (h : d.next cron dl = some d') {e : JobExecution} {ev : OutboxEvent} (hl : Logged d.sys e ev) :
    Logged d'.sys e ev := by
  rcases deployment_sys h with hsame | ⟨k, hk⟩
  · rwa [hsame]
  · exact hl.next hk

theorem known_kept (h : d.next cron dl = some d') {id : Uuid} (hk : d.bus.Known id) : d'.bus.Known id := by
  obtain ⟨k, -, hn⟩ := deployment_bus h
  rcases System.stutter_cases hn with hsame | ⟨k, -, hn⟩
  · rwa [hsame]
  · exact hk.step (bus_step hn)

theorem Ledger.last {s : Sys} (hl : Ledger s) {es : List JobExecution} {evs : List OutboxEvent} {e : JobExecution}
    {ev : OutboxEvent} (hes : s.db.jobExecutions.rows = es ++ [e]) (hevs : s.db.outboxEvents.rows = evs ++ [ev]) :
    Logged s e ev.content := by
  have hpairs := hl.pairs
  rw [hes, hevs, List.map_append, ← List.forall₂_reverse_iff, List.reverse_append, List.reverse_append] at hpairs
  exact (List.forall₂_cons.mp hpairs).1

/-- What is published while a client is connected is in line for it. -/
theorem inLine_of_step {s s' : EventBus} {l : BusLabel} {client : ℕ} {e : OutboxEvent} (hs : s.Step l s')
    (hc : s.Connected client) (hchannel : e.channel = jobsChannel) (hold : e.publication true ∉ s.published)
    (hp : e.publication true ∈ s'.published) : s'.InLine client (e.publication true) := by
  have hstep := hs
  cases hs with
  | @published relay e₀ rest hr =>
    rcases List.mem_cons.mp hp with heq | hp
    · have hchannel₀ : e₀.channel = jobsChannel := (congrArg Publication.channel heq).symm.trans hchannel
      rw [heq]
      exact hc.inLine hr hchannel₀ hstep
    · exact absurd hp hold
  | @replyLost relay e₀ rest hr =>
    rcases List.mem_cons.mp hp with heq | hp
    · cases congrArg Publication.acknowledged heq
    · exact absurd hp hold
  | _ => exact absurd hp hold

end Steps

section Runs
variable {cron : Cron} {ok : Deployment → DeploymentLabel → Prop} {b : Behaviour (deployment cron) ok} {n m : ℕ}
  {client : ℕ} {e : OutboxEvent}

theorem busInv_of_deployment {d : Deployment} (h : Reachable (deployment cron) ok d) :
    d.bus.Inv ∧ d.bus.PublishesKnown := by
  refine Reachable.invariant (I := fun d => d.bus.Inv ∧ d.bus.PublishesKnown) ?_ ?_ h
  · intro d (hi : d.Initial)
    refine ⟨hi.bus.inv, fun p hp => ?_⟩
    rw [hi.bus.published] at hp
    cases hp
  · intro d l d' _ ⟨hinv, hknown⟩ _ hn
    obtain ⟨k, -, hk⟩ := deployment_bus hn
    rcases System.stutter_cases hk with hsame | ⟨k, -, hk⟩
    · rw [hsame]
      exact ⟨hinv, hknown⟩
    · exact ⟨hinv.step (bus_step hk), hknown.step hinv (bus_step hk)⟩

theorem inLine_of_stays (hc : (b.state n).bus.Connected client)
    (hstays : ∀ k, n ≤ k → b.label k ≠ .bus (.close client)) (hchannel : e.channel = jobsChannel)
    (hold : e.publication true ∉ (b.state n).published) (hm : n ≤ m) :
    (b.state m).bus.Connected client ∧
      (e.publication true ∈ (b.state m).published → (b.state m).bus.InLine client (e.publication true)) := by
  induction m, hm using Nat.le_induction with
  | base => exact ⟨hc, fun hp => absurd hp hold⟩
  | succ m hm ih =>
    obtain ⟨hc, hline⟩ := ih
    obtain ⟨k, hshows, hk⟩ := deployment_bus (b.next m)
    rcases System.stutter_cases hk with hsame | ⟨k, rfl, hk⟩
    · have hpublished : (b.state (m + 1)).published = (b.state m).published :=
        congrArg EventBus.published hsame
      rw [hsame, hpublished]
      exact ⟨hc, hline⟩
    · have hopen : ¬(b.state m).bus.closes client k := by
        rintro rfl
        apply hstays m hm
        generalize b.label m = l at hshows
        cases hshows with
        | own => rfl
      have hstep := bus_step hk
      refine ⟨hc.step hopen hstep, fun hp => ?_⟩
      by_cases hp' : e.publication true ∈ (b.state m).published
      · exact (hline hp').step hopen hstep
      · exact inLine_of_step hstep hc hchannel hp' hp

theorem exists_onset {P : ℕ → Prop} (hn : ¬P n) (hm : n ≤ m) (hP : P m) : ∃ k, n ≤ k ∧ ¬P k ∧ P (k + 1) := by
  induction m, hm using Nat.le_induction with
  | base => exact absurd hP hn
  | succ m hm ih =>
    by_cases hPm : P m
    · exact ih hPm
    · exact ⟨m, hm, hPm, hP⟩

theorem bus_behaviour (b : Behaviour (deployment cron) ok) :
    ∃ c : Behaviour eventBus.stutter fun _ _ => True, (∀ k, c.state k = (b.state k).bus) ∧
      ∀ k, (b.label k).Shows (c.label k) :=
  b.project Deployment.bus (fun _ hd => Deployment.Initial.bus hd) fun _ _ _ h => deployment_bus h

theorem event_announced {relay : ℕ}
    (hfetch : Recurs fun k => ∃ order, b.label k = .bus (.fetch relay (some order)))
    (hhealthy : ∃ N, ∀ k, N ≤ k → ∀ l, b.label k = .bus l → l.healthy relay = true)
    (hclocks : ∀ t, ∃ N, ∀ k, N ≤ k → ∀ task x, b.label k = .system (.finish task x) → t < x.eventAt)
    (he : e ∈ (b.state n).sys.db.outboxEvents.rows) :
    ∃ k, n ≤ k ∧ ∃ p ∈ (b.state k).published, p.Announces e := by
  obtain ⟨c, hstate, hshows⟩ := bus_behaviour b
  obtain ⟨N, hhealthy⟩ := hhealthy
  obtain ⟨N', hclocks⟩ := hclocks e.createdAt
  have hrow : (c.state n).outboxEvents.find? e.id = some e := by
    rw [hstate]
    exact Table.find?_of_mem he
  have hfetch' : Recurs fun k => ∃ order, c.label k = some (.fetch relay (some order)) := by
    refine hfetch.mono fun k ⟨order, hl⟩ => ⟨order, ?_⟩
    have h := hshows k
    rw [hl] at h
    generalize c.label k = l' at h
    cases h
    rfl
  have hhealthy' (k : ℕ) (hk : N ≤ k) (l : BusLabel) (hl : c.label k = some l) : l.healthy relay = true := by
    have h := hshows k
    rw [hl] at h
    generalize hdl : b.label k = dl at h
    cases h with
    | own => exact hhealthy k hk l hdl
    | committed _ => rfl
  have hcommit (k : ℕ) (hk : N' ≤ k) (e' : OutboxEvent) (hl : c.label k = some (.commit e')) :
      e.createdAt < e'.createdAt := by
    have h := hshows k
    have hnext := b.next k
    rw [hl] at h
    generalize hdl : b.label k = dl at h
    rw [hdl] at hnext
    cases h with
    | own => cases hnext
    | committed he =>
      rw [he]
      exact hclocks k hk _ _ hdl
  obtain ⟨k, hk, -, hp⟩ := event_drains hrow hfetch' ⟨N, hhealthy'⟩ ⟨N', hcommit⟩
  rw [hstate] at hp
  exact ⟨k, hk, hp⟩

/-- An execution comes with an event that nobody has heard of, and that says from then on how it ended. -/
theorem event_of_execution {ex : JobExecution} (hold : ex ∉ (b.state n).sys.db.jobExecutions.rows) (hm : n ≤ m)
    (hex : ex ∈ (b.state m).sys.db.jobExecutions.rows) :
    ∃ i ev, n ≤ i ∧ ev ∈ (b.state i).sys.db.outboxEvents.rows ∧ ev.publication true ∉ (b.state n).published ∧
      ∀ k, i ≤ k → Recorded (b.state k).sys.db ex ev := by
  obtain ⟨i, hi, hnew, hin⟩ := exists_onset (P := fun k => ex ∈ (b.state k).sys.db.jobExecutions.rows) hold hm hex
  obtain ⟨ev, hevs, hexs⟩ := execution_new (b.next i) hnew hin
  refine ⟨i + 1, ev, hi.trans (Nat.le_succ i), ?_, fun hp => ?_, fun k hk => ?_⟩
  · rw [hevs]
    exact List.mem_append_right _ (List.mem_singleton_self _)
  · -- what is published is in the table, where the event is new
    have hknown : (b.state i).bus.Known ev.id :=
      b.persists (I := fun d => d.bus.Known ev.id) ((busInv_of_deployment (b.reachable n)).2 _ hp)
        (fun _ _ _ _ hd hn => known_kept hn hd) hi
    obtain ⟨e, hfind⟩ := hknown
    have hnodup := (b.state (i + 1)).sys.db.outboxEvents.nodup
    rw [hevs, List.map_append, List.nodup_append] at hnodup
    exact hnodup.2.2 ev.id (List.mem_map.mpr ⟨e, Table.mem_of_find? hfind, Table.key_of_find? hfind⟩) ev.id
      (by simp) rfl
  · have hledger := ledger_of_reachable (sys_reachable (b.reachable (i + 1)))
    obtain ⟨hexk, hlogged⟩ := b.persists
      (I := fun d => ex ∈ d.sys.db.jobExecutions.rows ∧ Logged d.sys ex ev.content) ⟨hin, hledger.last hexs hevs⟩
      (fun _ _ _ _ hd hn => ⟨execution_kept hn hd.1, logged_kept hn hd.2⟩) hk
    exact (ledger_of_reachable (sys_reachable (b.reachable k))).recorded hexk hlogged

theorem Recorded.channel {db : Db} {ex : JobExecution} {ev : OutboxEvent} (h : Recorded db ex ev)
    (halive : ex.success = true ∨ ¬db.deadLettered ex) : ev.channel = jobsChannel := by
  rw [OutboxEvent.channel_eq_jobsChannel_iff]
  intro htype
  obtain ⟨hfailed, hdead⟩ := h.movedToDlq.mp htype
  rcases halive with hsuccess | hdead'
  · rw [hfailed] at hsuccess
    cases hsuccess
  · exact hdead' hdead

/-! ## The handler of a client -/

def Deployment.HasPending (client : ℕ) (d : Deployment) : Prop :=
  ∃ p pending sent, d.clients client = .subscribed (p :: pending) sent

/-- A step that the handler does not take leaves its queue, up to new messages at the end. -/
theorem place_kept {pending sent : List Publication} (hl : b.label n ≠ .bus (.forward client))
    (hstays : b.label n ≠ .bus (.close client)) (hc : (b.state n).clients client = .subscribed pending sent) :
    ∃ more, (b.state (n + 1)).clients client = .subscribed (pending ++ more) sent := by
  obtain ⟨k, hshows, hn⟩ := deployment_bus (b.next n)
  generalize b.label n = dl at hl hstays hshows
  rcases System.stutter_cases hn with hsame | ⟨k, rfl, hn⟩
  · have hclients : (b.state (n + 1)).clients = (b.state n).clients := congrArg EventBus.clients hsame
    exact ⟨[], by rw [hclients, hc, List.append_nil]⟩
  · have hk : k ≠ .forward client ∧ k ≠ .close client := by
      cases hshows with
      | own => exact ⟨fun he => hl (by rw [he]), fun he => hstays (by rw [he])⟩
      | committed _ => exact ⟨nofun, nofun⟩
    exact (bus_step hn).keeps_place hk.1 hk.2 hc

theorem head_sent {p : Publication} {pending sent : List Publication}
    (hfair : b.WeaklyFair (Deployment.HasPending client) fun l => l = .bus (.forward client))
    (hstays : ∀ k, n ≤ k → b.label k ≠ .bus (.close client))
    (hc : (b.state n).clients client = .subscribed (p :: pending) sent) :
    ∃ m, n ≤ m ∧ ∃ more, (b.state m).clients client = .subscribed (pending ++ more) (sent ++ [p]) := by
  obtain ⟨m, hm, hl, more, hcm⟩ := Behaviour.holds_until_taken (b := b) (A := fun l => l = .bus (.forward client))
    (P := fun d => ∃ more, d.clients client = .subscribed (p :: pending ++ more) sent)
    ⟨[], by rw [hc, List.append_nil]⟩
    (fun m hm ⟨more, hcm⟩ hnot => by
      obtain ⟨more', hcm'⟩ := place_kept hnot (hstays m hm) hcm
      exact ⟨more ++ more', by rw [hcm', List.append_assoc]⟩)
    fun hall => hfair n fun m hm => by
      obtain ⟨more, hcm⟩ := hall m hm
      exact ⟨p, pending ++ more, sent, hcm⟩
  obtain ⟨k, hshows, hn⟩ := deployment_bus (b.next m)
  rw [hl] at hshows
  cases hshows with
  | own =>
    have hn : (b.state m).bus.next (.forward client) = some (b.state (m + 1)).bus := hn
    exact ⟨m + 1, hm.trans (Nat.le_succ m), more, (bus_step hn).forwards hcm⟩

/-- What is in line is sent, as long as the handler goes on and the client stays. -/
theorem sent_of_place {p : Publication} {ahead behind sent : List Publication}
    (hfair : b.WeaklyFair (Deployment.HasPending client) fun l => l = .bus (.forward client))
    (hstays : ∀ k, n ≤ k → b.label k ≠ .bus (.close client))
    (hc : (b.state n).clients client = .subscribed (ahead ++ p :: behind) sent) :
    ∃ m, n ≤ m ∧ ∃ pending sent', (b.state m).clients client = .subscribed pending sent' ∧ p ∈ sent' := by
  induction ahead generalizing n sent behind with
  | nil =>
    obtain ⟨m, hm, more, hcm⟩ := head_sent hfair hstays hc
    exact ⟨m, hm, _, _, hcm, by simp⟩
  | cons q ahead ih =>
    obtain ⟨m, hm, more, hcm⟩ := head_sent hfair hstays hc
    have hcm : (b.state m).clients client = .subscribed (ahead ++ p :: (behind ++ more)) (sent ++ [q]) := by
      rw [hcm]
      simp
    obtain ⟨m', hm', h⟩ := ih (fun k hk => hstays k (hm.trans hk)) hcm
    exact ⟨m', hm.trans hm', h⟩

/-- As long as a relay keeps fetching, and is healthy from some moment on, and the clocks of the executors
move on, every execution that a run adds is announced by the event that says how it has ended; and every
client that is there before and stays, and whose handler goes on, is sent it in the end, unless the job has
gone to the dead letters. -/
theorem finished_jobs_announced {relay : ℕ} {ex : JobExecution}
    (hfetch : Recurs fun k => ∃ order, b.label k = .bus (.fetch relay (some order)))
    (hhealthy : ∃ N, ∀ k, N ≤ k → ∀ l, b.label k = .bus l → l.healthy relay = true)
    (hclocks : ∀ t, ∃ N, ∀ k, N ≤ k → ∀ task x, b.label k = .system (.finish task x) → t < x.eventAt)
    (hold : ex ∉ (b.state n).sys.db.jobExecutions.rows) (hm : n ≤ m)
    (hex : ex ∈ (b.state m).sys.db.jobExecutions.rows) :
    ∃ k ev, n ≤ k ∧ Recorded (b.state k).sys.db ex ev ∧ (∃ p ∈ (b.state k).published, p.Announces ev) ∧
      ∀ client, (b.state n).bus.Connected client → (∀ i, n ≤ i → b.label i ≠ .bus (.close client)) →
        b.WeaklyFair (Deployment.HasPending client) (fun l => l = .bus (.forward client)) →
        (ex.success = true ∨ ¬(b.state k).sys.db.deadLettered ex) →
        ∃ j, k ≤ j ∧ ∃ pending sent, (b.state j).clients client = .subscribed pending sent ∧
          ∃ p ∈ sent, p.Announces ev := by
  obtain ⟨i, ev, hi, hrow, hunknown, hrecorded⟩ := event_of_execution hold hm hex
  obtain ⟨k, hk, hpublished⟩ := event_announced hfetch hhealthy hclocks hrow
  refine ⟨k, ev, hi.trans hk, hrecorded k hk, hpublished, fun client hc hstays hfair halive => ?_⟩
  have hchannel := (hrecorded k hk).channel halive
  obtain ⟨pending, sent, hck, hp⟩ := (inLine_of_stays hc hstays hchannel hunknown (hi.trans hk)).2
    (OutboxEvent.announced_iff.mp hpublished)
  rcases List.mem_append.mp hp with hp | hp
  · exact ⟨k, le_rfl, pending, sent, hck, OutboxEvent.announced_iff.mpr hp⟩
  · obtain ⟨ahead, behind, rfl⟩ := List.append_of_mem hp
    obtain ⟨j, hj, pending', sent', hcj, hsent⟩ := sent_of_place hfair
      (fun i hi' => hstays i ((hi.trans hk).trans hi')) hck
    exact ⟨j, hj, pending', sent', hcj, OutboxEvent.announced_iff.mpr hsent⟩

end Runs

namespace Sample

def announcing (n : ℕ) : DeploymentLabel :=
  ([.bus (.subscribe 0), .system (.register 1 "a" "h1"), .system (.createJob 100 7 queue (request 2)),
    .system (.claim 1 10 []), .system (.markRunning 0 0 .acknowledged), .system (.finish 0 (finish (.ok ()) 1)),
    .bus (.fetch 0 (some [(finish (.ok ()) 1).eventId])), .bus (.publish 0 .acknowledged),
    .bus (.mark 0 0 .acknowledged), .bus (.forward 0)] : List DeploymentLabel)[n]?.getD (.bus (.fetch 0 (some [])))

theorem announcing_eq {n : ℕ} (hn : 10 ≤ n) : announcing n = .bus (.fetch 0 (some [])) := by
  rw [announcing, List.getElem?_eq_none (by simpa using hn)]
  rfl

def deployed : Deployment := ⟨sys, fun _ => .polling, [], fun _ => .closed⟩

theorem deployed_initial : deployed.Initial := ⟨sys_initial, fun _ => rfl, rfl, fun _ => rfl⟩

def announcingStates : ℕ → Deployment := Behaviour.states (deployment cron) deployed announcing

structure Quiet (s : Deployment) : Prop where
  polling : s.relays 0 = .polling
  empty : isFetchOrder s.bus.outboxEvents [] = true
  sent : ¬s.HasPending 0

theorem announcing_next {s : Deployment} (hs : Quiet s) :
    ∃ s', s.next cron (.bus (.fetch 0 (some []))) = some s' ∧ Quiet s' := by
  have hpolling : s.bus.relays 0 = .polling := hs.polling
  refine ⟨s.setBus (s.bus.setRelay 0 .polling), ?_, by simp [Deployment.setBus, EventBus.setRelay], hs.empty, hs.sent⟩
  simp only [Deployment.next, EventBus.next, hpolling, hs.empty, if_true]
  rfl

theorem announcing_quiet {n : ℕ} (hn : 10 ≤ n) : Quiet (announcingStates n) := by
  induction n, hn using Nat.le_induction with
  | base =>
    refine ⟨rfl, by decide, ?_⟩
    obtain ⟨sent, hs⟩ : ∃ sent, (announcingStates 10).clients 0 = .subscribed [] sent := ⟨_, rfl⟩
    rintro ⟨p, pending, sent', h⟩
    cases hs.symm.trans h
  | succ n hn ih =>
    obtain ⟨s', hs', hquiet⟩ := announcing_next ih
    have hstate : announcingStates (n + 1) = s' := by
      show ((announcingStates n).next cron (announcing n)).getD _ = s'
      rw [announcing_eq hn, hs']
      rfl
    rw [hstate]
    exact hquiet

theorem announcing_enabled (n : ℕ) : ((announcingStates n).next cron (announcing n)).isSome = true := by
  by_cases hn : 10 ≤ n
  · obtain ⟨s', hs', _⟩ := announcing_next (announcing_quiet hn)
    rw [announcing_eq hn, hs']
    rfl
  · interval_cases n <;> decide

def announcingRun : Behaviour (deployment cron) fun _ _ => True :=
  .ofLabels deployed_initial announcing (fun _ => trivial) announcing_enabled

theorem announcing_fair :
    announcingRun.WeaklyFair (Deployment.HasPending 0) fun l => l = .bus (.forward 0) := by
  intro n hpending
  by_cases hn : 10 ≤ n
  · exact absurd (hpending n le_rfl) (announcing_quiet hn).sent
  · exact ⟨9, by omega, rfl⟩

end Sample

theorem finished_jobs_announced_sample :
    ∃ (b : Behaviour (deployment Sample.cron) fun _ _ => True) (ex : JobExecution) (k j : ℕ) (ev : OutboxEvent),
      ex.jobId = 100 ∧ ex.success = true ∧ Recorded (b.state k).sys.db ex ev ∧
        (∃ p ∈ (b.state k).published, p.Announces ev) ∧
        ∃ pending sent, (b.state j).clients 0 = .subscribed pending sent ∧ ∃ p ∈ sent, p.Announces ev := by
  have hlate {k : ℕ} (hk : 10 ≤ k) : Sample.announcingRun.label k = .bus (.fetch 0 (some [])) :=
    Sample.announcing_eq hk
  obtain ⟨ex, hex, hjob, hsuccess⟩ : ∃ ex ∈ (Sample.announcingRun.state 6).sys.db.jobExecutions.rows,
      ex.jobId = 100 ∧ ex.success = true := by decide
  have hnone : (Sample.announcingRun.state 5).sys.db.jobExecutions.rows = [] := by rfl
  obtain ⟨k, ev, -, hrecorded, hpublished, hclients⟩ := @finished_jobs_announced _ _ Sample.announcingRun 5 6 0 ex
    (fun n => ⟨n + 10, by omega, [], hlate (by omega)⟩)
    ⟨10, fun k hk l hl => by rw [hlate hk] at hl; cases hl; rfl⟩
    (fun t => ⟨10, fun k hk task x hl => by rw [hlate hk] at hl; cases hl⟩) (by rw [hnone]; simp) (by omega) hex
  have hstays (i : ℕ) (hi : 5 ≤ i) : Sample.announcingRun.label i ≠ .bus (.close 0) := by
    by_cases hi' : 10 ≤ i
    · rw [hlate hi']
      simp
    · interval_cases i <;> nofun
  obtain ⟨j, -, hsent⟩ := hclients 0 ⟨[], [], by rfl⟩ hstays Sample.announcing_fair (.inl hsuccess)
  exact ⟨Sample.announcingRun, ex, k, j, ev, hjob, hsuccess, hrecorded, hpublished, hsent⟩

end JobScheduler
