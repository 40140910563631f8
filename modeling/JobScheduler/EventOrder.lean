import JobScheduler.Relay

namespace JobScheduler
open Relational Transition

def EventBus.hasPublished (s : EventBus) (id : Uuid) : Prop := ∃ p ∈ s.published, p.eventId = id

def BusLabel.singleRelay : BusLabel → Bool
  | .fetch relay _ | .publish relay _ | .mark relay _ _ | .crash relay => relay = 0
  | _ => true

/-- The `PUBLISH` of an event fails that has not been published yet, and the loop continues with a batch
that still holds a later event of the same aggregate. -/
def EventBus.skipsAhead (s : EventBus) : BusLabel → Prop
  | .publish relay .lostBefore => ∃ e rest, s.relays relay = .publishing e rest ∧ ¬s.hasPublished e.id ∧
    ∃ x ∈ rest, x.aggregateId = e.aggregateId ∧ e.createdAt < x.createdAt
  | _ => False

def EventBus.holds (s : EventBus) (id : Uuid) : Prop := ∃ e ∈ (s.relays 0).batch, e.id = id

def Precedes (a b : Uuid) (es : List OutboxEvent) : Prop :=
  ∀ l₁ x l₂, es = l₁ ++ x :: l₂ → x.id = b → ∃ y ∈ l₁, y.id = a

section Precedes
variable {a b : Uuid} {e : OutboxEvent} {es : List OutboxEvent}

theorem precedes_nil : Precedes a b [] := fun l₁ x l₂ h => by simp at h

theorem Precedes.head_ne (h : Precedes a b (e :: es)) : e.id ≠ b := by
  intro hb
  obtain ⟨y, hy, -⟩ := h [] e es rfl hb
  cases hy

theorem Precedes.tail (h : Precedes a b (e :: es)) (hne : e.id ≠ a) : Precedes a b es := by
  rintro l₁ x l₂ rfl hb
  obtain ⟨y, hy, ha⟩ := h (e :: l₁) x l₂ rfl hb
  rcases List.mem_cons.mp hy with rfl | hy
  · exact absurd ha hne
  · exact ⟨y, hy, ha⟩

theorem precedes_of_forall_ne (h : ∀ x ∈ es, x.id ≠ b) : Precedes a b es := by
  rintro l₁ x l₂ rfl hb
  exact absurd hb (h x (List.mem_append_right _ List.mem_cons_self))

/-- `ORDER BY created_at` puts the earlier event first, and `LIMIT` cuts at the end. -/
theorem precedes_of_sorted (hs : es.Pairwise fun e e' => e.createdAt ≤ e'.createdAt) (n : ℕ) {e₁ : OutboxEvent}
    (h₁ : e₁ ∈ es) (ha : e₁.id = a) (hlt : ∀ x ∈ es, x.id = b → e₁.createdAt < x.createdAt) :
    Precedes a b (es.take n) := by
  intro l₁ x l₂ hsplit hb
  have hes : es = l₁ ++ x :: (l₂ ++ es.drop n) := by
    rw [← List.cons_append, ← List.append_assoc, ← hsplit, List.take_append_drop]
  have hx : e₁.createdAt < x.createdAt :=
    hlt x (by rw [hes]; exact List.mem_append_right _ List.mem_cons_self) hb
  rw [hes] at h₁ hs
  rcases List.mem_append.mp h₁ with h₁ | h₁
  · exact ⟨e₁, h₁, ha⟩
  · obtain ⟨-, htail, -⟩ := List.pairwise_append.mp hs
    rcases List.mem_cons.mp h₁ with rfl | h₁
    · exact absurd hx (lt_irrefl _)
    · exact absurd hx (not_lt.mpr ((List.pairwise_cons.mp htail).1 e₁ h₁))

end Precedes

/-- Two events of the table, the first of them published, or else neither published nor to be published
after the second. -/
structure InOrder (e₁ e₂ : OutboxEvent) (s : EventBus) : Prop where
  first : ∃ e, s.outboxEvents.find? e₁.id = some e ∧ e.content = e₁.content
  second : ∃ e, s.outboxEvents.find? e₂.id = some e ∧ e.content = e₂.content
  order : s.hasPublished e₁.id ∨ ¬s.hasPublished e₂.id ∧ Precedes e₁.id e₂.id (s.relays 0).batch

section Steps
variable {s s' : EventBus} {l : BusLabel} {e₁ e₂ : OutboxEvent}

theorem EventBus.Step.row_kept (h : s.Step l s') {e₀ : OutboxEvent}
    (hrow : ∃ e, s.outboxEvents.find? e₀.id = some e ∧ e.content = e₀.content) :
    ∃ e, s'.outboxEvents.find? e₀.id = some e ∧ e.content = e₀.content := by
  obtain ⟨e, hfind, hcontent⟩ := hrow
  obtain ⟨e', hfind', hcontent', -⟩ := h.kept e (Table.mem_of_find? hfind)
  rw [Table.key_of_find? hfind] at hfind'
  exact ⟨e', hfind', hcontent'.trans hcontent⟩

theorem EventBus.Inv.content_eq (h : s.Inv) {relay : ℕ} {e e₀ : OutboxEvent} (he : e ∈ (s.relays relay).batch)
    (hid : e.id = e₀.id) (hrow : ∃ e, s.outboxEvents.find? e₀.id = some e ∧ e.content = e₀.content) :
    e.content = e₀.content := by
  obtain ⟨e', hfind, hcontent⟩ := h.batch relay e he
  obtain ⟨e'', hfind', hcontent'⟩ := hrow
  rw [hid, hfind'] at hfind
  cases hfind
  exact hcontent.symm.trans hcontent'

theorem hasPublished_send {s : EventBus} {p : Publication} {id : Uuid} :
    (s.send p).hasPublished id ↔ p.eventId = id ∨ s.hasPublished id := by
  simp [EventBus.hasPublished, EventBus.send]

theorem order_of_fetch (hinv : s.Inv) (hlt : e₁.createdAt < e₂.createdAt) {order : List Uuid}
    (ho : isFetchOrder s.outboxEvents order = true) (h : InOrder e₁ e₂ s) :
    s.hasPublished e₁.id ∨ Precedes e₁.id e₂.id ((order.filterMap s.outboxEvents.find?).take batchSize) := by
  obtain ⟨e, hfind, hcontent⟩ := h.first
  have hid : e.id = e₁.id := Table.key_of_find? hfind
  by_cases hmark : e.published = true
  · refine .inl ⟨e.publication true, hinv.sent e (Table.mem_of_find? hfind) hmark, hid⟩
  · obtain ⟨hperm, hsorted⟩ := Bool.and_eq_true_iff.mp ho
    have hperm := of_decide_eq_true hperm
    have hmem : e₁.id ∈ order := by
      rw [hperm.mem_iff, ← hid]
      refine List.mem_map_of_mem (List.mem_filter.mpr ⟨Table.mem_of_find? hfind, ?_⟩)
      rw [Bool.eq_false_iff.mpr hmark]
      rfl
    refine .inr (precedes_of_sorted (of_decide_eq_true hsorted) batchSize
      (List.mem_filterMap.mpr ⟨e₁.id, hmem, hfind⟩) hid fun x hx hxid => ?_)
    obtain ⟨id, _, hfindx⟩ := List.mem_filterMap.mp hx
    obtain ⟨e', hfind', hcontent'⟩ := h.second
    rw [← Table.key_of_find? hfindx, hxid, hfind'] at hfindx
    cases hfindx
    rw [OutboxEvent.createdAt_of_content hcontent, OutboxEvent.createdAt_of_content hcontent']
    exact hlt

theorem order_of_failure (hinv : s.Inv) (hlt : e₁.createdAt < e₂.createdAt)
    (hagg : e₁.aggregateId = e₂.aggregateId) (h : InOrder e₁ e₂ s) {e : OutboxEvent} {rest : List OutboxEvent}
    (hr : s.relays 0 = .publishing e rest) (hskip : ¬s.skipsAhead (.publish 0 .lostBefore))
    (hprec : Precedes e₁.id e₂.id (s.relays 0).batch) :
    s.hasPublished e₁.id ∨ Precedes e₁.id e₂.id rest := by
  have hmem : ∀ x ∈ e :: rest, x ∈ (s.relays 0).batch := by
    rw [hr]
    exact fun x hx => hx
  by_cases hid : e.id = e₁.id
  · by_cases hpub : s.hasPublished e.id
    · exact .inl (hid ▸ hpub)
    · refine .inr (precedes_of_forall_ne fun x hx hxid => hskip ⟨e, rest, hr, hpub, x, hx, ?_⟩)
      have hce := hinv.content_eq (hmem e List.mem_cons_self) hid h.first
      have hcx := hinv.content_eq (hmem x (List.mem_cons_of_mem _ hx)) hxid h.second
      refine ⟨?_, ?_⟩
      · rw [OutboxEvent.aggregateId_of_content hcx, OutboxEvent.aggregateId_of_content hce, hagg]
      · rw [OutboxEvent.createdAt_of_content hce, OutboxEvent.createdAt_of_content hcx]
        exact hlt
  · rw [hr] at hprec
    exact .inr (hprec.tail hid)

theorem InOrder.step (h : InOrder e₁ e₂ s) (hinv : s.Inv) (hlt : e₁.createdAt < e₂.createdAt)
    (hagg : e₁.aggregateId = e₂.aggregateId) (hone : l.singleRelay = true) (hskip : ¬s.skipsAhead l)
    (hs : s.Step l s') : InOrder e₁ e₂ s' := by
  refine ⟨hs.row_kept h.first, hs.row_kept h.second, ?_⟩
  rcases h.order with hdone | ⟨hnot, hprec⟩
  · obtain ⟨p, hp, hid⟩ := hdone
    exact .inl ⟨p, hs.stays_published hp, hid⟩
  -- relay 0 is at `phase` now, and the second event is still unpublished
  have hnext : ∀ phase : Relay, s'.relays = Function.update s.relays 0 phase → ¬s'.hasPublished e₂.id →
      (s'.hasPublished e₁.id ∨ Precedes e₁.id e₂.id phase.batch) →
      s'.hasPublished e₁.id ∨ ¬s'.hasPublished e₂.id ∧ Precedes e₁.id e₂.id (s'.relays 0).batch := by
    intro phase hrelays hnot' hor
    rw [hrelays, Function.update_self]
    exact hor.imp_right fun hp => ⟨hnot', hp⟩
  cases hs with
  | @fetched relay order hr ho =>
    obtain rfl : relay = 0 := of_decide_eq_true hone
    exact hnext _ rfl hnot (by rw [Relay.batch_loop]; exact order_of_fetch hinv hlt ho h)
  | @published relay e rest hr =>
    obtain rfl : relay = 0 := of_decide_eq_true hone
    rw [hr] at hprec
    refine hnext _ rfl (fun hp => ?_) (.inr hprec)
    rcases hasPublished_send.mp hp with hp | hp
    · exact hprec.head_ne hp
    · exact hnot hp
  | @publishFailed relay e rest hr =>
    obtain rfl : relay = 0 := of_decide_eq_true hone
    exact hnext _ rfl hnot (by rw [Relay.batch_loop]; exact order_of_failure hinv hlt hagg h hr hskip hprec)
  | @replyLost relay e rest hr =>
    obtain rfl : relay = 0 := of_decide_eq_true hone
    rw [hr] at hprec
    refine hnext _ rfl (fun hp => ?_) ?_
    · rcases hasPublished_send.mp hp with hp | hp
      · exact hprec.head_ne hp
      · exact hnot hp
    · rw [Relay.batch_loop]
      by_cases hid : e.id = e₁.id
      · exact .inl (hasPublished_send.mpr (.inl hid))
      · exact .inr (hprec.tail hid)
  | @marked relay now outcome e rest hr | @markFailed relay now outcome e rest hr =>
    obtain rfl : relay = 0 := of_decide_eq_true hone
    have hsent := hinv.marking 0 e rest hr
    rw [hr] at hprec
    refine hnext _ rfl hnot ?_
    rw [Relay.batch_loop]
    by_cases hid : e.id = e₁.id
    · exact .inl ⟨_, hsent, hid⟩
    · exact .inr (hprec.tail hid)
  | @crashed relay =>
    obtain rfl : relay = 0 := of_decide_eq_true hone
    exact hnext .polling rfl hnot (.inr precedes_nil)
  | _ => exact .inr ⟨hnot, hprec⟩

end Steps

section Runs
variable {h later earlier : List (EventBus × BusLabel)} {s s₀ : EventBus} {l₀ : BusLabel}

theorem held_of_published (hr : Run eventBus (fun s l => l.singleRelay = true ∧ ¬s.skipsAhead l) h s) {id : Uuid}
    (hp : s.hasPublished id) : ∃ q ∈ h, q.1.holds id := by
  refine Run.invariant (I := fun h s => ∀ id, s.hasPublished id → ∃ q ∈ h, q.1.holds id) ?_ ?_ hr id hp
  · rintro s (hi : s.Initial) id ⟨p, hp, -⟩
    rw [hi.published] at hp
    cases hp
  · intro h s l s' _ ih hok hn id hp
    have hold : s.hasPublished id → ∃ q ∈ (s, l) :: h, q.1.holds id := by
      intro hp
      obtain ⟨q, hq, hheld⟩ := ih id hp
      exact ⟨q, List.mem_cons_of_mem _ hq, hheld⟩
    have hsend : ∀ (relay : ℕ) (e : OutboxEvent) (rest : List OutboxEvent) (a : Bool), relay = 0 →
        s.relays relay = .publishing e rest → (s.send (e.publication a)).hasPublished id →
        ∃ q ∈ (s, l) :: h, q.1.holds id := by
      rintro _ e rest a rfl hr hp
      rcases hasPublished_send.mp hp with hid | hp
      · exact ⟨(s, l), List.mem_cons_self, e, by rw [hr]; exact List.mem_cons_self, hid⟩
      · exact hold hp
    have hone := hok.1
    cases bus_step hn with
    | published hr => exact hsend _ _ _ _ (of_decide_eq_true hone) hr hp
    | replyLost hr => exact hsend _ _ _ _ (of_decide_eq_true hone) hr hp
    | _ => exact hold hp

/-- Two events of one aggregate, both in the table before the relay reads either: whenever the later one
is published, the earlier one has been. -/
theorem published_in_order {e₁ e₂ : OutboxEvent} (hlt : e₁.createdAt < e₂.createdAt)
    (hagg : e₁.aggregateId = e₂.aggregateId)
    (hr : Run eventBus (fun s l => l.singleRelay = true ∧ ¬s.skipsAhead l) (later ++ (s₀, l₀) :: earlier) s)
    (h₁ : e₁ ∈ s₀.outboxEvents.rows) (h₂ : e₂ ∈ s₀.outboxEvents.rows)
    (hunread : ∀ q ∈ (s₀, l₀) :: earlier, ¬q.1.holds e₁.id ∧ ¬q.1.holds e₂.id) :
    ∀ q ∈ later, ∀ relay outcome e rest, q.2 = .publish relay outcome → outcome ≠ .lostBefore →
      q.1.relays relay = .publishing e rest → e.id = e₂.id → q.1.hasPublished e₁.id := by
  obtain ⟨hrun, hok, -⟩ := hr.split
  have hstart : InOrder e₁ e₂ s₀ := by
    refine ⟨⟨e₁, Table.find?_of_mem h₁, rfl⟩, ⟨e₂, Table.find?_of_mem h₂, rfl⟩, .inr ⟨fun hp => ?_, ?_⟩⟩
    · obtain ⟨q, hq, hheld⟩ := held_of_published hrun hp
      exact (hunread q (List.mem_cons_of_mem _ hq)).2 hheld
    · exact precedes_of_forall_ne fun x hx hid => (hunread _ List.mem_cons_self).2 ⟨x, hx, hid⟩
  have hkeep : ∀ s l s', Reachable eventBus (fun s l => l.singleRelay = true ∧ ¬s.skipsAhead l) s → InOrder e₁ e₂ s →
      (l.singleRelay = true ∧ ¬s.skipsAhead l) → eventBus.next s l = some s' → InOrder e₁ e₂ s' := by
    rintro s l s' ⟨_, hr⟩ hi ⟨hone, hskip⟩ hn
    exact hi.step (busInv_of_run hr) hlt hagg hone hskip (bus_step hn)
  have hall := (Run.ever_since (I := InOrder e₁ e₂)
    (fun s₁ hn => hkeep s₀ l₀ s₁ hrun.reachable hstart hok hn) hkeep hr).2
  intro q hq relay outcome e rest hl hsent hrelay hid
  have hone : relay = 0 := by
    have h := (hr.ok_of_mem (List.mem_append_left _ hq)).1
    rw [hl] at h
    exact of_decide_eq_true h
  subst hone
  rcases (hall q hq).order with hdone | ⟨-, hprec⟩
  · exact hdone
  · rw [hrelay] at hprec
    exact absurd hid hprec.head_ne

end Runs

/-! Two events of job 100, the relay about to read them. -/

namespace Sample

def hasEvent (s : EventBus) (id : Uuid) (createdAt : Timestamp) : Bool :=
  s.outboxEvents.rows.any fun e => e.id = id && e.aggregateId = 100 && e.createdAt = createdAt

def bothUnread (n : ℕ) (h : List (EventBus × BusLabel)) : Bool :=
  ((h.drop n).all fun q => (q.1.relays 0).batch.isEmpty) &&
    (h.drop n).head?.any fun q => hasEvent q.1 1 5 && hasEvent q.1 2 6

def lastIsSecond (h : List (EventBus × BusLabel)) : Bool :=
  h.head?.any fun q => (q.1.relays 0).batch.head?.any fun e => e.id = 2

def fails : BusLabel → Bool
  | .publish _ .lostBefore => true
  | _ => false

theorem not_skipsAhead {s : EventBus} {l : BusLabel} (h : fails l = false) : ¬s.skipsAhead l := by
  intro hs
  unfold EventBus.skipsAhead at hs
  split at hs
  · cases h
  · exact hs

theorem hasEvent_iff {s : EventBus} {id : Uuid} {createdAt : Timestamp} : hasEvent s id createdAt = true ↔
    ∃ e ∈ s.outboxEvents.rows, e.id = id ∧ e.aggregateId = 100 ∧ e.createdAt = createdAt := by
  simp [hasEvent, and_assoc]

theorem exists_events (later : List (EventBus × BusLabel)) {earlier : List (EventBus × BusLabel)}
    {q : EventBus × BusLabel}
    (h : bothUnread later.length (later ++ q :: earlier) = true) :
    ∃ e₁ ∈ q.1.outboxEvents.rows, ∃ e₂ ∈ q.1.outboxEvents.rows, e₁.id = 1 ∧ e₂.id = 2 ∧
      e₁.createdAt < e₂.createdAt ∧ e₁.aggregateId = e₂.aggregateId ∧
      ∀ q' ∈ q :: earlier, ¬q'.1.holds e₁.id ∧ ¬q'.1.holds e₂.id := by
  unfold bothUnread at h
  rw [List.drop_left] at h
  simp only [Bool.and_eq_true, List.all_eq_true, List.head?_cons, Option.any_some] at h
  obtain ⟨hempty, h₁, h₂⟩ := h
  obtain ⟨e₁, hm₁, hid₁, hagg₁, ht₁⟩ := hasEvent_iff.mp h₁
  obtain ⟨e₂, hm₂, hid₂, hagg₂, ht₂⟩ := hasEvent_iff.mp h₂
  have hnone : ∀ q' ∈ q :: earlier, ∀ id, ¬q'.1.holds id := by
    rintro q' hq' id ⟨e, he, -⟩
    rw [List.isEmpty_iff.mp (hempty q' hq')] at he
    cases he
  exact ⟨e₁, hm₁, e₂, hm₂, hid₁, hid₂, by rw [ht₁, ht₂]; decide, hagg₁.trans hagg₂.symm,
    fun q' hq' => ⟨hnone q' hq' _, hnone q' hq' _⟩⟩

end Sample

/-- Nothing fails: the second event is published after the first. -/
theorem published_in_order_sample :
    ∃ q : EventBus × BusLabel, q.2 = .publish 0 .acknowledged ∧
      (∃ e rest, q.1.relays 0 = .publishing e rest ∧ e.id = 2) ∧ q.1.hasPublished 1 := by
  obtain ⟨h, s, hrun, hls, hp⟩ := Run.exists_of_exec_labels (M := eventBus) Sample.eventBus_initial
    [.commit (Sample.event 1 100 .jobRetryScheduled 5), .commit (Sample.event 2 100 .jobCompleted 6),
      .fetch 0 (some [1, 2]), .publish 0 .acknowledged, .mark 0 8 .acknowledged, .publish 0 .acknowledged]
    (fun _ l => l.singleRelay && !Sample.fails l)
    (fun h _ => Sample.bothUnread 3 h && Sample.lastIsSecond h) (by decide)
  simp only [List.reverse_cons, List.reverse_nil, List.nil_append, List.cons_append, List.map_eq_cons_iff,
    List.map_eq_nil_iff] at hls
  obtain ⟨⟨s₃, _⟩, _, rfl, rfl, ⟨s₂, _⟩, _, rfl, rfl, ⟨s₁, _⟩, _, rfl, rfl, ⟨s₀, _⟩, _, rfl, rfl, q₁, _, rfl, hq₁,
    q₀, _, rfl, hq₀, rfl⟩ := hls
  obtain ⟨hunread, hlast⟩ := Bool.and_eq_true_iff.mp hp
  have hrun : Run eventBus (fun s l => l.singleRelay = true ∧ ¬s.skipsAhead l)
      ([] ++ (s₃, .publish 0 .acknowledged) :: [(s₂, .mark 0 8 .acknowledged), (s₁, .publish 0 .acknowledged),
        (s₀, .fetch 0 (some [1, 2])), q₁, q₀]) s := by
    refine hrun.mono fun s l hok => ?_
    simp only [Bool.and_eq_true, Bool.not_eq_true'] at hok
    exact ⟨hok.1, Sample.not_skipsAhead hok.2⟩
  have hrun' : Run eventBus (fun s l => l.singleRelay = true ∧ ¬s.skipsAhead l)
      ([(s₃, .publish 0 .acknowledged), (s₂, .mark 0 8 .acknowledged), (s₁, .publish 0 .acknowledged)] ++
        (s₀, .fetch 0 (some [1, 2])) :: [q₁, q₀]) s := hrun
  obtain ⟨e₁, hm₁, e₂, hm₂, hid₁, hid₂, hlt, hagg, hnone⟩ := Sample.exists_events
    [(s₃, .publish 0 .acknowledged), (s₂, .mark 0 8 .acknowledged), (s₁, .publish 0 .acknowledged)] hunread
  obtain ⟨-, -, s', hn⟩ := hrun.split
  have hn : s₃.next (.publish 0 .acknowledged) = some s' := hn
  cases bus_step hn with
  | @published _ e rest hr =>
    have hid : e.id = 2 := by simpa [Sample.lastIsSecond, hr, Relay.batch] using hlast
    have hpub := published_in_order hlt hagg hrun' hm₁ hm₂ hnone (s₃, .publish 0 .acknowledged) List.mem_cons_self
      0 .acknowledged e rest rfl (by decide) hr (hid.trans hid₂.symm)
    exact ⟨_, rfl, ⟨e, rest, hr, hid⟩, hid₁ ▸ hpub⟩

/-- The first event fails to be published, the second one does not. -/
theorem published_out_of_order :
    ¬∀ (e₁ e₂ : OutboxEvent) (later earlier : List (EventBus × BusLabel)) (s s₀ : EventBus) (l₀ : BusLabel),
      e₁.createdAt < e₂.createdAt → e₁.aggregateId = e₂.aggregateId →
      Run eventBus (fun _ l => l.singleRelay = true) (later ++ (s₀, l₀) :: earlier) s →
      e₁ ∈ s₀.outboxEvents.rows → e₂ ∈ s₀.outboxEvents.rows →
      (∀ q ∈ (s₀, l₀) :: earlier, ¬q.1.holds e₁.id ∧ ¬q.1.holds e₂.id) →
      ∀ q ∈ later, ∀ relay outcome e rest, q.2 = .publish relay outcome → outcome ≠ .lostBefore →
        q.1.relays relay = .publishing e rest → e.id = e₂.id → q.1.hasPublished e₁.id := by
  intro hall
  obtain ⟨h, s, hrun, hls, hp⟩ := Run.exists_of_exec_labels (M := eventBus) Sample.eventBus_initial
    [.commit (Sample.event 1 100 .jobRetryScheduled 5), .commit (Sample.event 2 100 .jobCompleted 6),
      .fetch 0 (some [1, 2]), .publish 0 .lostBefore, .publish 0 .acknowledged]
    (fun _ l => l.singleRelay)
    (fun h _ => Sample.bothUnread 2 h && Sample.lastIsSecond h && h.all fun q => q.1.published.isEmpty) (by decide)
  simp only [List.reverse_cons, List.reverse_nil, List.nil_append, List.cons_append, List.map_eq_cons_iff,
    List.map_eq_nil_iff] at hls
  obtain ⟨⟨s₂, _⟩, _, rfl, rfl, ⟨s₁, _⟩, _, rfl, rfl, ⟨s₀, _⟩, _, rfl, rfl, q₁, _, rfl, hq₁, q₀, _, rfl, hq₀,
    rfl⟩ := hls
  simp only [Bool.and_eq_true, List.all_eq_true] at hp
  obtain ⟨⟨hunread, hlast⟩, hnothing⟩ := hp
  have hrun' : Run eventBus (fun _ l => l.singleRelay = true)
      ([] ++ (s₂, .publish 0 .acknowledged) :: [(s₁, .publish 0 .lostBefore), (s₀, .fetch 0 (some [1, 2])),
        q₁, q₀]) s := hrun
  obtain ⟨e₁, hm₁, e₂, hm₂, hid₁, hid₂, hlt, hagg, hnone⟩ := Sample.exists_events
    [(s₂, .publish 0 .acknowledged), (s₁, .publish 0 .lostBefore)] hunread
  obtain ⟨-, -, s', hn⟩ := hrun'.split
  have hn : s₂.next (.publish 0 .acknowledged) = some s' := hn
  cases bus_step hn with
  | @published _ e rest hr =>
    have hid : e.id = 2 := by simpa [Sample.lastIsSecond, hr, Relay.batch] using hlast
    obtain ⟨p, hp, -⟩ := hall e₁ e₂ [(s₂, .publish 0 .acknowledged), (s₁, .publish 0 .lostBefore)] [q₁, q₀] s s₀ _
      hlt hagg hrun hm₁ hm₂ hnone (s₂, .publish 0 .acknowledged)
      List.mem_cons_self 0 .acknowledged e rest rfl (by decide) hr (hid.trans hid₂.symm)
    have hempty := hnothing (s₂, .publish 0 .acknowledged) List.mem_cons_self
    rw [List.isEmpty_iff.mp hempty] at hp
    cases hp

end JobScheduler
