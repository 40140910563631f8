import JobScheduler.Frame

namespace JobScheduler
open Relational Transition

/-! ## Messages -/

def jobsChannel : String := "jobs:events"

def dlqChannel : String := "dlq:events"

/-- `event_type::text`. -/
def OutboxEventType.text : OutboxEventType → String
  | .jobCompleted => "job_completed"
  | .jobFailed => "job_failed"
  | .jobRetryScheduled => "job_retry_scheduled"
  | .jobMovedToDlq => "job_moved_to_dlq"
  | .jobClaimed => "job_claimed"
  | .queuePaused => "queue_paused"
  | .queueResumed => "queue_resumed"

structure Message where
  eventType : String
  aggregateId : Uuid
  payload : Value
  correlationId : Uuid

/-- A `PUBLISH` that Redis has executed: the row it was made from, and whether the relay has got the
answer. -/
structure Publication where
  eventId : Uuid
  channel : String
  message : Message
  acknowledged : Bool

namespace OutboxEvent

def channel (e : OutboxEvent) : String :=
  if e.eventType.text = "job_moved_to_dlq" then dlqChannel else jobsChannel

def message (e : OutboxEvent) : Message := ⟨e.eventType.text, e.aggregateId, e.payload, e.correlationId⟩

def publication (e : OutboxEvent) (acknowledged : Bool) : Publication :=
  ⟨e.id, e.channel, e.message, acknowledged⟩

def mark (now : Timestamp) (e : OutboxEvent) : OutboxEvent :=
  { e with published := true, publishedAt := some now }

theorem mark_id (now : Timestamp) (e : OutboxEvent) : (e.mark now).id = e.id := rfl

@[simp] theorem content_mark (now : Timestamp) (e : OutboxEvent) : (e.mark now).content = e.content := rfl

@[simp] theorem content_content (e : OutboxEvent) : e.content.content = e.content := rfl

theorem publication_of_content {e e' : OutboxEvent} (h : e'.content = e.content) (a : Bool) :
    e'.publication a = e.publication a :=
  congrArg (fun e => e.publication a) h

theorem createdAt_of_content {e e' : OutboxEvent} (h : e'.content = e.content) : e'.createdAt = e.createdAt :=
  show e'.content.createdAt = e.content.createdAt from congrArg createdAt h

theorem aggregateId_of_content {e e' : OutboxEvent} (h : e'.content = e.content) :
    e'.aggregateId = e.aggregateId :=
  show e'.content.aggregateId = e.content.aggregateId from congrArg aggregateId h

theorem channel_eq_jobsChannel_iff (e : OutboxEvent) :
    e.channel = jobsChannel ↔ e.eventType ≠ .jobMovedToDlq := by
  cases h : e.eventType <;> simp [channel, h, OutboxEventType.text, jobsChannel, dlqChannel]

end OutboxEvent

/-- Redis has executed a `PUBLISH` of what the row says, on the channel of its type, and the relay has got the
answer. -/
structure Publication.Announces (p : Publication) (e : OutboxEvent) : Prop where
  eventId : p.eventId = e.id
  channel : p.channel = if e.eventType = .jobMovedToDlq then "dlq:events" else "jobs:events"
  eventType : p.message.eventType = e.eventType.text
  aggregateId : p.message.aggregateId = e.aggregateId
  payload : p.message.payload = e.payload
  correlationId : p.message.correlationId = e.correlationId
  acknowledged : p.acknowledged = true

theorem Publication.announces_iff {p : Publication} {e : OutboxEvent} : p.Announces e ↔ p = e.publication true := by
  have hchannel : e.channel = if e.eventType = .jobMovedToDlq then "dlq:events" else "jobs:events" := by
    cases h : e.eventType <;> simp [OutboxEvent.channel, h, OutboxEventType.text, jobsChannel, dlqChannel]
  constructor
  · obtain ⟨eventId, channel, ⟨eventType, aggregateId, payload, correlationId⟩, acknowledged⟩ := p
    rintro ⟨rfl, rfl, rfl, rfl, rfl, rfl, rfl⟩
    rw [OutboxEvent.publication, hchannel]
    rfl
  · rintro rfl
    exact ⟨rfl, hchannel, rfl, rfl, rfl, rfl, rfl⟩

theorem OutboxEvent.announced_iff {e : OutboxEvent} {ps : List Publication} :
    (∃ p ∈ ps, p.Announces e) ↔ e.publication true ∈ ps := by
  simp only [Publication.announces_iff, exists_eq_right]

/-! ## Relays, Redis and the dashboard -/

/-- Where `run_relay` is, with what is left of the batch it has read. -/
inductive Relay
  | polling
  | publishing (event : OutboxEvent) (rest : List OutboxEvent)
  | marking (event : OutboxEvent) (rest : List OutboxEvent)

def Relay.loop : List OutboxEvent → Relay
  | [] => .polling
  | e :: rest => .publishing e rest

def Relay.batch : Relay → List OutboxEvent
  | .polling => []
  | .publishing e rest | .marking e rest => e :: rest

@[simp] theorem Relay.batch_loop (es : List OutboxEvent) : (loop es).batch = es := by
  cases es <;> rfl

/-- A WebSocket handler past its subscribe step: the messages that Redis has delivered to it and it has
not read yet, and those it has sent to the client. -/
inductive Client
  | closed
  | subscribed (pending sent : List Publication)

/-- `handle_socket` subscribes to `JOBS_CHANNEL`. -/
def Client.deliver (p : Publication) : Client → Client
  | .closed => .closed
  | .subscribed pending sent =>
    if p.channel = jobsChannel then .subscribed (pending ++ [p]) sent else .subscribed pending sent

/-- `published` is what Redis has executed, the latest first. -/
structure EventBus where
  outboxEvents : Table OutboxEvent.id
  relays : ℕ → Relay
  published : List Publication
  clients : ℕ → Client

/-- `commit` is the `INSERT` of any other transaction. A fetch says in which order the rows are read:
those that tie come in any. -/
inductive BusLabel
  | commit (e : OutboxEvent)
  | fetch (relay : ℕ) (order : Option (List Uuid))
  | publish (relay : ℕ) (outcome : CommitOutcome)
  | mark (relay : ℕ) (now : Timestamp) (outcome : CommitOutcome)
  | crash (relay : ℕ)
  | subscribe (client : ℕ)
  | forward (client : ℕ)
  | close (client : ℕ)

/-- `WHERE published = false`. -/
def unpublished (t : Table OutboxEvent.id) : List OutboxEvent := t.rows.filter fun e => !e.published

/-- The rows in the order given: all that are unpublished, `ORDER BY created_at ASC`. -/
def isFetchOrder (t : Table OutboxEvent.id) (order : List Uuid) : Bool :=
  decide (order.Perm ((unpublished t).map OutboxEvent.id)) &&
    decide ((order.filterMap t.find?).Pairwise fun e e' => e.createdAt ≤ e'.createdAt)

def batchSize : ℕ := 50

namespace EventBus

def setRelay (s : EventBus) (relay : ℕ) (phase : Relay) : EventBus :=
  { s with relays := Function.update s.relays relay phase }

def setClient (s : EventBus) (client : ℕ) (c : Client) : EventBus :=
  { s with clients := Function.update s.clients client c }

/-- `PUBLISH`, delivered to every connection that is subscribed. -/
def send (s : EventBus) (p : Publication) : EventBus :=
  { s with published := p :: s.published, clients := fun c => (s.clients c).deliver p }

def markEvent (s : EventBus) (now : Timestamp) (eventId : Uuid) : EventBus :=
  { s with
    outboxEvents := s.outboxEvents.update (fun e => decide (e.id = eventId)) (OutboxEvent.mark now)
      (OutboxEvent.mark_id now) }

def next (s : EventBus) : BusLabel → Option EventBus
  | .commit e => (s.outboxEvents.insert e.content).map fun t => { s with outboxEvents := t }
  | .fetch relay order =>
    match s.relays relay, order with
    | .polling, none => some s
    | .polling, some order =>
      if isFetchOrder s.outboxEvents order then
        some (s.setRelay relay (.loop ((order.filterMap s.outboxEvents.find?).take batchSize)))
      else none
    | _, _ => none
  | .publish relay outcome =>
    match s.relays relay with
    | .publishing e rest =>
      match outcome with
      | .acknowledged => some ((s.send (e.publication true)).setRelay relay (.marking e rest))
      -- the event is left for a later batch, and the loop continues with the next one
      | .lostBefore => some (s.setRelay relay (.loop rest))
      | .lostAfter => some ((s.send (e.publication false)).setRelay relay (.loop rest))
    | _ => none
  | .mark relay now outcome =>
    match s.relays relay with
    | .marking e rest =>
      match outcome with
      | .acknowledged | .lostAfter => some ((s.markEvent now e.id).setRelay relay (.loop rest))
      | .lostBefore => some (s.setRelay relay (.loop rest))
    | _ => none
  | .crash relay => some (s.setRelay relay .polling)
  | .subscribe client =>
    match s.clients client with
    | .closed => some (s.setClient client (.subscribed [] []))
    | _ => none
  | .forward client =>
    match s.clients client with
    | .subscribed (p :: pending) sent => some (s.setClient client (.subscribed pending (sent ++ [p])))
    | _ => none
  | .close client => some (s.setClient client .closed)

/-- Any events, none of them published, and no relay and no client at work. -/
structure Initial (s : EventBus) : Prop where
  unpublished : ∀ e ∈ s.outboxEvents.rows, e.published = false
  relays : ∀ r, s.relays r = .polling
  published : s.published = []
  clients : ∀ c, s.clients c = .closed

inductive Step (s : EventBus) : BusLabel → EventBus → Prop
  | committed {e : OutboxEvent} {t : Table OutboxEvent.id} (hi : s.outboxEvents.insert e.content = some t) :
    Step s (.commit e) { s with outboxEvents := t }
  | fetchFailed {relay : ℕ} : Step s (.fetch relay none) s
  | fetched {relay : ℕ} {order : List Uuid} (hr : s.relays relay = .polling)
    (ho : isFetchOrder s.outboxEvents order = true) : Step s (.fetch relay (some order))
      (s.setRelay relay (.loop ((order.filterMap s.outboxEvents.find?).take batchSize)))
  | published {relay : ℕ} {e : OutboxEvent} {rest : List OutboxEvent} (hr : s.relays relay = .publishing e rest) :
    Step s (.publish relay .acknowledged) ((s.send (e.publication true)).setRelay relay (.marking e rest))
  | publishFailed {relay : ℕ} {e : OutboxEvent} {rest : List OutboxEvent}
    (hr : s.relays relay = .publishing e rest) : Step s (.publish relay .lostBefore) (s.setRelay relay (.loop rest))
  | replyLost {relay : ℕ} {e : OutboxEvent} {rest : List OutboxEvent} (hr : s.relays relay = .publishing e rest) :
    Step s (.publish relay .lostAfter) ((s.send (e.publication false)).setRelay relay (.loop rest))
  | marked {relay : ℕ} {now : Timestamp} {outcome : CommitOutcome} {e : OutboxEvent} {rest : List OutboxEvent}
    (hr : s.relays relay = .marking e rest) :
    Step s (.mark relay now outcome) ((s.markEvent now e.id).setRelay relay (.loop rest))
  | markFailed {relay : ℕ} {now : Timestamp} {outcome : CommitOutcome} {e : OutboxEvent}
    {rest : List OutboxEvent} (hr : s.relays relay = .marking e rest) :
    Step s (.mark relay now outcome) (s.setRelay relay (.loop rest))
  | crashed {relay : ℕ} : Step s (.crash relay) (s.setRelay relay .polling)
  | subscribed {client : ℕ} (hc : s.clients client = .closed) :
    Step s (.subscribe client) (s.setClient client (.subscribed [] []))
  | forwarded {client : ℕ} {p : Publication} {pending sent : List Publication}
    (hc : s.clients client = .subscribed (p :: pending) sent) :
    Step s (.forward client) (s.setClient client (.subscribed pending (sent ++ [p])))
  | closed {client : ℕ} : Step s (.close client) (s.setClient client .closed)

end EventBus

def eventBus : System EventBus BusLabel := ⟨EventBus.Initial, EventBus.next⟩

section Steps
variable {s s' : EventBus} {l : BusLabel}

theorem bus_step (hn : s.next l = some s') : s.Step l s' := by
  cases l with
  | commit e =>
    obtain ⟨t, hi, rfl⟩ := Option.map_eq_some_iff.mp hn
    exact .committed hi
  | fetch relay order =>
    simp only [EventBus.next] at hn
    split at hn
    · cases hn
      exact .fetchFailed
    · split at hn <;> cases hn
      exact .fetched ‹_› ‹_›
    · cases hn
  | publish relay outcome =>
    simp only [EventBus.next] at hn
    split at hn
    · cases outcome <;> cases hn
      · exact .published ‹_›
      · exact .publishFailed ‹_›
      · exact .replyLost ‹_›
    · cases hn
  | mark relay now outcome =>
    simp only [EventBus.next] at hn
    split at hn
    · cases outcome <;> cases hn
      · exact .marked ‹_›
      · exact .markFailed ‹_›
      · exact .marked ‹_›
    · cases hn
  | crash relay =>
    cases hn
    exact .crashed
  | subscribe client =>
    simp only [EventBus.next] at hn
    split at hn <;> cases hn
    exact .subscribed ‹_›
  | forward client =>
    simp only [EventBus.next] at hn
    split at hn <;> cases hn
    exact .forwarded ‹_›
  | close client =>
    cases hn
    exact .closed

/-! ## What the relays keep -/

def KeptEvents (t t' : Table OutboxEvent.id) : Prop :=
  ∀ e ∈ t.rows, ∃ e', t'.find? e.id = some e' ∧ e'.content = e.content ∧
    (e.published = true → e'.published = true)

theorem KeptEvents.refl (t : Table OutboxEvent.id) : KeptEvents t t :=
  fun e he => ⟨e, Table.find?_of_mem he, rfl, id⟩

theorem KeptEvents.trans {t t' t'' : Table OutboxEvent.id} (h : KeptEvents t t') (h' : KeptEvents t' t'') :
    KeptEvents t t'' := by
  intro e he
  obtain ⟨e', hfind, hcontent, hmark⟩ := h e he
  obtain ⟨e'', hfind', hcontent', hmark'⟩ := h' e' (Table.mem_of_find? hfind)
  rw [Table.key_of_find? hfind] at hfind'
  exact ⟨e'', hfind', hcontent'.trans hcontent, fun hp => hmark' (hmark hp)⟩

theorem EventBus.Step.kept (h : s.Step l s') : KeptEvents s.outboxEvents s'.outboxEvents := by
  cases h with
  | committed hi => exact fun e he => ⟨e, Table.find?_of_insert hi (Table.find?_of_mem he), rfl, id⟩
  | @marked _ now _ e₀ _ _ =>
    intro e he
    by_cases hid : e.id = e₀.id
    · refine ⟨e.mark now, ?_, rfl, fun _ => rfl⟩
      dsimp only [EventBus.setRelay, EventBus.markEvent]
      rw [Table.find?_update, Table.find?_of_mem he]
      simp [hid]
    · refine ⟨e, ?_, rfl, id⟩
      dsimp only [EventBus.setRelay, EventBus.markEvent]
      rw [Table.find?_update, Table.find?_of_mem he]
      simp [hid]
  | _ => exact .refl _

theorem EventBus.Step.stays_published (h : s.Step l s') {p : Publication} (hp : p ∈ s.published) :
    p ∈ s'.published := by
  cases h with
  | published _ | replyLost _ => exact List.mem_cons_of_mem _ hp
  | _ => exact hp

/-- What ties the table, the batches read from it and what Redis has executed. -/
structure EventBus.Inv (s : EventBus) : Prop where
  sent : ∀ e ∈ s.outboxEvents.rows, e.published = true → e.publication true ∈ s.published
  batch : ∀ r, ∀ e ∈ (s.relays r).batch, ∃ e', s.outboxEvents.find? e.id = some e' ∧ e'.content = e.content
  marking : ∀ r e rest, s.relays r = .marking e rest → e.publication true ∈ s.published

theorem EventBus.Initial.inv (h : s.Initial) : s.Inv := by
  refine ⟨fun e he hp => ?_, fun r e he => ?_, fun r e rest hr => ?_⟩
  · rw [h.unpublished e he] at hp
    cases hp
  · rw [h.relays r] at he
    cases he
  · rw [h.relays r] at hr
    cases hr

theorem EventBus.Inv.of_relay (h : s.Inv) (hs : s.Step l s') {relay : ℕ} {phase : Relay}
    (hrelays : s'.relays = Function.update s.relays relay phase)
    (hsent : ∀ e ∈ s'.outboxEvents.rows, e.published = true → e.publication true ∈ s'.published)
    (hbatch : ∀ e ∈ phase.batch, ∃ e', s.outboxEvents.find? e.id = some e' ∧ e'.content = e.content)
    (hmarking : ∀ e rest, phase = .marking e rest → e.publication true ∈ s'.published) : s'.Inv := by
  refine ⟨hsent, fun r e he => ?_, fun r e rest hr => ?_⟩
  · have hrow : ∃ e', s.outboxEvents.find? e.id = some e' ∧ e'.content = e.content := by
      rw [hrelays, Function.update_apply] at he
      split at he
      · exact hbatch e he
      · exact h.batch r e he
    obtain ⟨e', hfind, hcontent⟩ := hrow
    obtain ⟨e'', hfind', hcontent', _⟩ := hs.kept e' (Table.mem_of_find? hfind)
    rw [Table.key_of_find? hfind] at hfind'
    exact ⟨e'', hfind', hcontent'.trans hcontent⟩
  · rw [hrelays, Function.update_apply] at hr
    split at hr
    · exact hmarking e rest hr
    · exact hs.stays_published (h.marking r e rest hr)

theorem EventBus.Inv.of_same (h : s.Inv) (hs : s.Step l s') (hrelays : s'.relays = s.relays)
    (hsent : ∀ e ∈ s'.outboxEvents.rows, e.published = true → e.publication true ∈ s'.published) : s'.Inv := by
  have hupdate : s'.relays = Function.update s.relays 0 (s.relays 0) :=
    hrelays.trans (Function.update_eq_self _ _).symm
  exact h.of_relay hs hupdate hsent (h.batch 0) fun e rest hr => hs.stays_published (h.marking 0 e rest hr)

theorem markEvent_outboxEvents (db : Db) (s : EventBus) (hdb : s.outboxEvents = db.outboxEvents) (now : Timestamp)
    (eventId : Uuid) : (s.markEvent now eventId).outboxEvents = (markPublished db now eventId).outboxEvents := by
  rw [EventBus.markEvent, hdb]
  rfl

theorem ne_marking_loop {es : List OutboxEvent} {e : OutboxEvent} {rest : List OutboxEvent} :
    Relay.loop es ≠ .marking e rest := by
  cases es <;> simp [Relay.loop]

theorem mem_batch_of_loop {relay : ℕ} {e e' : OutboxEvent} {rest : List OutboxEvent}
    (hr : s.relays relay = .publishing e rest ∨ s.relays relay = .marking e rest)
    (he : e' ∈ (Relay.loop rest).batch) : e' ∈ (s.relays relay).batch := by
  rw [Relay.batch_loop] at he
  rcases hr with hr | hr <;> rw [hr] <;> exact List.mem_cons_of_mem _ he

theorem EventBus.Inv.step (h : s.Inv) (hs : s.Step l s') : s'.Inv := by
  have hstep := hs
  cases hs with
  | @committed e t hi =>
    refine h.of_same hstep rfl fun e' he' hp => ?_
    dsimp only at he'
    rw [(Table.rows_insert hi).1] at he'
    rcases List.mem_append.mp he' with he' | he'
    · exact h.sent e' he' hp
    · rw [List.mem_singleton.mp he'] at hp
      cases hp
  | fetchFailed => exact h
  | @fetched relay order hr ho =>
    refine h.of_relay hstep rfl h.sent (fun e he => ?_) fun e rest hm => absurd hm ne_marking_loop
    rw [Relay.batch_loop] at he
    obtain ⟨id, _, hfind⟩ := List.mem_filterMap.mp (List.mem_of_mem_take he)
    exact ⟨e, Table.find?_of_mem (Table.mem_of_find? hfind), rfl⟩
  | @published relay e rest hr =>
    refine h.of_relay hstep rfl (fun e' he' hp => List.mem_cons_of_mem _ (h.sent e' he' hp))
      (fun e' he' => h.batch relay e' ?_) fun e' rest' hm => ?_
    · rw [hr]
      exact he'
    · cases hm
      exact List.mem_cons_self
  | @publishFailed relay e rest hr =>
    exact h.of_relay hstep rfl h.sent (fun e' he' => h.batch relay e' (mem_batch_of_loop (.inl hr) he'))
      fun e' rest' hm => absurd hm ne_marking_loop
  | @replyLost relay e rest hr =>
    exact h.of_relay hstep rfl (fun e' he' hp => List.mem_cons_of_mem _ (h.sent e' he' hp))
      (fun e' he' => h.batch relay e' (mem_batch_of_loop (.inl hr) he')) fun e' rest' hm => absurd hm ne_marking_loop
  | @marked relay now outcome e rest hr =>
    refine h.of_relay hstep rfl (fun e' he' hp => ?_)
      (fun e' he' => h.batch relay e' (mem_batch_of_loop (.inr hr) he')) fun e' rest' hm => absurd hm ne_marking_loop
    -- the row marked is the one the relay has sent
    obtain ⟨e₀, he₀, rfl⟩ := List.mem_map.mp he'
    by_cases hid : e₀.id = e.id
    · obtain ⟨e₁, hfind, hcontent⟩ := h.batch relay e (by rw [hr]; exact List.mem_cons_self)
      rw [← hid, Table.find?_of_mem he₀] at hfind
      cases hfind
      have hmarked : (e₀.mark now).publication true = e.publication true :=
        OutboxEvent.publication_of_content hcontent true
      simp only [hid, decide_true, if_true, hmarked]
      exact h.marking relay e rest hr
    · simp only [hid, decide_false, Bool.false_eq_true, if_false] at hp ⊢
      exact h.sent e₀ he₀ hp
  | @markFailed relay now outcome e rest hr =>
    exact h.of_relay hstep rfl h.sent (fun e' he' => h.batch relay e' (mem_batch_of_loop (.inr hr) he'))
      fun e' rest' hm => absurd hm ne_marking_loop
  | @crashed relay =>
    exact h.of_relay hstep rfl h.sent (fun _ he => nomatch he) fun e rest hm => nomatch hm
  | subscribed hc => exact h.of_same hstep rfl h.sent
  | forwarded hc => exact h.of_same hstep rfl h.sent
  | closed => exact h.of_same hstep rfl h.sent

end Steps

section Runs
variable {h : List (EventBus × BusLabel)} {s : EventBus} {ok : EventBus → BusLabel → Prop}

theorem busInv_of_run (hr : Run eventBus ok h s) : s.Inv :=
  Run.invariant (I := fun _ s => s.Inv) (fun _ hi => EventBus.Initial.inv hi)
    (fun _ _ _ _ _ hs _ hn => hs.step (bus_step hn)) hr

theorem kept_of_run (hr : Run eventBus ok h s) : ∀ q ∈ h, KeptEvents q.1.outboxEvents s.outboxEvents := by
  refine Run.invariant (I := fun h s => ∀ q ∈ h, KeptEvents q.1.outboxEvents s.outboxEvents) (by simp) ?_ hr
  intro h s l s' _ ih _ hn q hq
  have hkept := (bus_step hn).kept
  rcases List.mem_cons.mp hq with rfl | hq
  · exact hkept
  · exact (ih q hq).trans hkept

/-- An event that is marked has been published and acknowledged, as its row says; an event of the table
stays there, unmarked as long as it has not been published, and its mark stays with it. -/
theorem relay_at_least_once (hr : Run eventBus (fun _ _ => True) h s) :
    (∀ e ∈ s.outboxEvents.rows, e.published = true → ∃ p ∈ s.published, p.Announces e) ∧
    ∀ q ∈ h, ∀ e ∈ q.1.outboxEvents.rows, ∃ e', s.outboxEvents.find? e.id = some e' ∧ e'.content = e.content ∧
      ((∀ p ∈ s.published, ¬p.Announces e) → e'.published = false) ∧ (e.published = true → e'.published = true) := by
  have hsent := (busInv_of_run hr).sent
  refine ⟨fun e he hp => OutboxEvent.announced_iff.mpr (hsent e he hp), fun q hq e he => ?_⟩
  obtain ⟨e', hfind, hcontent, hmark⟩ := kept_of_run hr q hq e he
  refine ⟨e', hfind, hcontent, fun hnot => ?_, hmark⟩
  rw [Bool.eq_false_iff]
  intro hp
  obtain ⟨p, hmem, hp⟩ := OutboxEvent.announced_iff.mpr (hsent e' (Table.mem_of_find? hfind) hp)
  rw [Publication.announces_iff, OutboxEvent.publication_of_content hcontent] at hp
  exact hnot p hmem (Publication.announces_iff.mpr hp)

end Runs

namespace Sample

def event (id aggregateId : Uuid) (eventType : OutboxEventType) (createdAt : Timestamp) : OutboxEvent :=
  .new id createdAt eventType aggregateId .null 7

def eventBus : EventBus := ⟨.empty, fun _ => .polling, [], fun _ => .closed⟩

theorem eventBus_initial : eventBus.Initial := ⟨by simp [eventBus], fun _ => rfl, rfl, fun _ => rfl⟩

end Sample

/-- Two relays with overlapping batches: the reply to the first `PUBLISH` is lost, the other relay sends
the event again and marks it. -/
theorem relay_at_least_once_sample :
    ∃ h s, Run eventBus (fun _ _ => True) h s ∧
      ∃ e ∈ s.outboxEvents.rows, e.id = 1 ∧ e.published = true ∧ ∃ p ∈ s.published, p.Announces e := by
  obtain ⟨h, s, hrun, hp⟩ := Run.exists_of_exec (M := eventBus) Sample.eventBus_initial
    [.commit (Sample.event 1 100 .jobCompleted 5), .commit (Sample.event 2 100 .jobMovedToDlq 6),
      .fetch 0 (some [1, 2]), .fetch 1 (some [1, 2]), .publish 0 .lostAfter, .publish 1 .acknowledged,
      .mark 1 9 .lostAfter, .publish 0 .acknowledged, .crash 0]
    (fun _ _ => true) (fun _ s => s.outboxEvents.rows.any fun e => e.id = 1 && e.published) (by decide)
  simp only [List.any_eq_true, Bool.and_eq_true, decide_eq_true_eq] at hp
  obtain ⟨e, he, hid, hmark⟩ := hp
  have hrun := hrun.mono fun _ _ _ => trivial
  exact ⟨h, s, hrun, e, he, hid, hmark, (relay_at_least_once hrun).1 e he hmark⟩

end JobScheduler
