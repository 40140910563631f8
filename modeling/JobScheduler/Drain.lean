import JobScheduler.Relay
import JobScheduler.Liveness

namespace JobScheduler
open Relational Transition

def BusLabel.relay : BusLabel → Option ℕ
  | .fetch relay _ | .publish relay _ | .mark relay _ _ | .crash relay => some relay
  | _ => none

/-- Nothing goes wrong for the relay: its process lives, Redis acknowledges, and its mark is written. -/
def BusLabel.healthy (relay : ℕ) : BusLabel → Bool
  | .publish r outcome => r ≠ relay || outcome = .acknowledged
  | .mark r _ outcome => r ≠ relay || outcome ≠ .lostBefore
  | .crash r => r ≠ relay
  | _ => true

def EventBus.marked (s : EventBus) (id : Uuid) : Prop :=
  ∃ e, s.outboxEvents.find? id = some e ∧ e.published = true

def EventBus.Clearing (s : EventBus) (relay : ℕ) (ids : List Uuid) : Prop :=
  ∀ id ∈ ids, s.marked id ∨ id ∈ (s.relays relay).batch.map OutboxEvent.id

def EventBus.backlog (s : EventBus) (t : Timestamp) : ℕ :=
  s.outboxEvents.count fun e => !e.published && decide (e.createdAt ≤ t)

section Steps
variable {s s' : EventBus} {l : BusLabel} {relay : ℕ} {ids : List Uuid}

theorem EventBus.Step.stays_marked (h : s.Step l s') {id : Uuid} (hm : s.marked id) : s'.marked id := by
  obtain ⟨e, hfind, hp⟩ := hm
  obtain ⟨e', hfind', _, hkeep⟩ := h.kept e (Table.mem_of_find? hfind)
  rw [Table.key_of_find? hfind] at hfind'
  exact ⟨e', hfind', hkeep hp⟩

theorem EventBus.Step.relays_other (h : s.Step l s') (hl : l.relay ≠ some relay) :
    s'.relays relay = s.relays relay := by
  have hupdate {r : ℕ} {phase : Relay} (hr : some r ≠ some relay) :
      Function.update s.relays r phase relay = s.relays relay :=
    Function.update_of_ne (fun he => hr (by rw [he])) _ _
  cases h with
  | fetched _ _ | published _ | publishFailed _ | replyLost _ | marked _ | markFailed _ | crashed => exact hupdate hl
  | _ => rfl

theorem clearing_next (hinv : s.Inv) (hi : s.Clearing relay ids) (hl : l.healthy relay = true)
    (h : s.next l = some s') : s'.Clearing relay ids := by
  have hstep := bus_step h
  by_cases hr : l.relay = some relay
  · -- its own step
    have hsame (hb : (s'.relays relay).batch = (s.relays relay).batch) : s'.Clearing relay ids := by
      intro id hid
      rw [hb]
      exact (hi id hid).imp_left hstep.stays_marked
    cases l with
    | fetch r order =>
      cases hr
      simp only [EventBus.next] at h
      split at h
      · cases h
        exact hi
      · rename_i hpolling
        intro id hid
        refine .inl (hstep.stays_marked ((hi id hid).resolve_right ?_))
        simp [hpolling, Relay.batch]
      · cases h
    | publish r outcome =>
      cases hr
      have hok : outcome = .acknowledged := by simpa [BusLabel.healthy] using hl
      subst hok
      simp only [EventBus.next] at h
      split at h
      · rename_i e rest hpub
        cases h
        refine hsame ?_
        simp [EventBus.setRelay, hpub, Relay.batch]
      · cases h
    | mark r now outcome =>
      cases hr
      have hok : outcome ≠ .lostBefore := by simpa [BusLabel.healthy] using hl
      simp only [EventBus.next] at h
      split at h
      · rename_i e rest hmark
        have hs' : s' = (s.markEvent now e.id).setRelay relay (.loop rest) := by
          cases outcome with
          | acknowledged | lostAfter =>
            cases h
            rfl
          | lostBefore => exact absurd rfl hok
        intro id hid
        rcases hi id hid with hm | hb
        · exact .inl (hstep.stays_marked hm)
        · rw [hmark, Relay.batch, List.map_cons, List.mem_cons] at hb
          rcases hb with rfl | hb
          · -- the event that the statement marks
            obtain ⟨e', hfind, _⟩ := hinv.batch relay e (by rw [hmark]; exact List.mem_cons_self)
            refine .inl ⟨e'.mark now, ?_, rfl⟩
            rw [hs']
            show (s.markEvent now e.id).outboxEvents.find? e.id = _
            rw [EventBus.markEvent, Table.find?_update_key, if_pos rfl, hfind]
            rfl
          · refine .inr ?_
            rw [hs']
            simpa [EventBus.setRelay] using hb
      · cases h
    | crash r =>
      cases hr
      simp [BusLabel.healthy] at hl
    | _ => cases hr
  · intro id hid
    rw [hstep.relays_other hr]
    exact (hi id hid).imp_left hstep.stays_marked

theorem EventBus.Step.origin (h : s.Step l s') {k : Uuid} {e' : OutboxEvent}
    (he : s'.outboxEvents.find? k = some e') :
    (∃ e, l = .commit e ∧ e'.createdAt = e.createdAt) ∨
      ∃ e, s.outboxEvents.find? k = some e ∧ e'.createdAt = e.createdAt ∧
        (e'.published = false → e.published = false) := by
  cases h with
  | @committed e t hi =>
    have he : t.find? k = some e' := he
    rw [Table.find?_insert hi] at he
    split at he
    · cases he
      exact .inl ⟨e, rfl, rfl⟩
    · exact .inr ⟨e', he, rfl, id⟩
  | @marked r now outcome e₀ rest hr =>
    have he : (s.markEvent now e₀.id).outboxEvents.find? k = some e' := he
    rw [EventBus.markEvent, Table.find?_update] at he
    obtain ⟨e, hfind, rfl⟩ := Option.map_eq_some_iff.mp he
    refine .inr ⟨e, hfind, ?_, ?_⟩
    · split <;> rfl
    · split
      · intro hp
        cases hp
      · exact id
  | _ => exact .inr ⟨e', he, rfl, id⟩

end Steps

section Orders
variable {t : Table OutboxEvent.id} {order : List Uuid} {e : OutboxEvent}

def fetchRows (t : Table OutboxEvent.id) (order : List Uuid) : List OutboxEvent := order.filterMap t.find?

theorem mem_fetchRows (ho : isFetchOrder t order = true) :
    e ∈ fetchRows t order ↔ e ∈ t.rows ∧ e.published = false := by
  simp only [isFetchOrder, Bool.and_eq_true, decide_eq_true_eq] at ho
  have hmem (id : Uuid) : id ∈ order ↔ ∃ e ∈ t.rows, e.published = false ∧ e.id = id := by
    rw [ho.1.mem_iff, List.mem_map]
    simp [unpublished, and_assoc]
  constructor
  · intro he
    obtain ⟨id, hid, hfind⟩ := List.mem_filterMap.mp he
    obtain ⟨e', he', hp, rfl⟩ := (hmem id).mp hid
    rw [Table.find?_of_mem he'] at hfind
    cases hfind
    exact ⟨he', hp⟩
  · rintro ⟨he, hp⟩
    exact List.mem_filterMap.mpr ⟨e.id, (hmem e.id).mpr ⟨e, he, hp, rfl⟩, Table.find?_of_mem he⟩

/-- An unpublished event is in the batch, or one that is no younger is in its place. -/
theorem batch_cases (ho : isFetchOrder t order = true) (he : e ∈ t.rows) (hp : e.published = false) :
    ∃ f ∈ (fetchRows t order).take batchSize, f ∈ t.rows ∧ f.published = false ∧ f.createdAt ≤ e.createdAt := by
  have hsorted : (fetchRows t order).Pairwise fun f f' => f.createdAt ≤ f'.createdAt := by
    simp only [isFetchOrder, Bool.and_eq_true, decide_eq_true_eq] at ho
    exact ho.2
  have hmem := (mem_fetchRows ho).mpr ⟨he, hp⟩
  -- the first one read
  cases hrows : fetchRows t order with
  | nil =>
    rw [hrows] at hmem
    cases hmem
  | cons f rest =>
    have hf : f ∈ t.rows ∧ f.published = false := (mem_fetchRows ho).mp (by rw [hrows]; exact List.mem_cons_self)
    refine ⟨f, by simp [batchSize], hf.1, hf.2, ?_⟩
    rw [hrows] at hmem hsorted
    rcases List.mem_cons.mp hmem with rfl | hmem
    · exact le_rfl
    · exact List.rel_of_pairwise_cons hsorted hmem

end Orders

section Runs
variable {ok : EventBus → Option BusLabel → Prop} {b : Behaviour eventBus.stutter ok} {n m relay : ℕ}
  {e : OutboxEvent}

theorem busInv_of_behaviour (b : Behaviour eventBus.stutter ok) (k : ℕ) : (b.state k).Inv := by
  refine Reachable.invariant (I := EventBus.Inv) (fun _ hi => EventBus.Initial.inv hi) ?_ (b.reachable k)
  intro s l s' _ hinv _ hn
  rcases System.stutter_cases hn with rfl | ⟨l, -, hn⟩
  · exact hinv
  · exact hinv.step (bus_step hn)

theorem fetch_enabled {order : List Uuid} (hl : b.label n = some (.fetch relay (some order))) :
    (b.state n).relays relay = .polling ∧ isFetchOrder (b.state n).outboxEvents order = true ∧
      (b.state (n + 1)).relays relay = .loop ((fetchRows (b.state n).outboxEvents order).take batchSize) := by
  have hnext := b.next n
  rw [hl] at hnext
  have hnext : (b.state n).next (.fetch relay (some order)) = some (b.state (n + 1)) := hnext
  simp only [EventBus.next] at hnext
  split at hnext
  · rename_i he
    cases he
  · rename_i hpolling he
    cases he
    split at hnext
    · refine ⟨hpolling, ‹_›, ?_⟩
      rw [← Option.some.inj hnext]
      exact Function.update_self _ _ _
    · cases hnext
  · cases hnext

theorem batch_marked (hhealthy : ∀ k, n ≤ k → ∀ l, b.label k = some l → l.healthy relay = true) (hn : n ≤ m)
    {order : List Uuid} (hfetch : b.label m = some (.fetch relay (some order))) {k : ℕ} (hk : m < k)
    {order' : List Uuid} (hagain : b.label k = some (.fetch relay (some order'))) {f : OutboxEvent}
    (hf : f ∈ (fetchRows (b.state m).outboxEvents order).take batchSize) : (b.state k).marked f.id := by
  have hclearing : (b.state k).Clearing relay
      (((fetchRows (b.state m).outboxEvents order).take batchSize).map OutboxEvent.id) := by
    clear hagain
    induction k, hk using Nat.le_induction with
    | base =>
      intro id hid
      refine .inr ?_
      rw [(fetch_enabled hfetch).2.2, Relay.batch_loop]
      exact hid
    | succ k hk ih =>
      have hmk : m ≤ k := (Nat.le_succ m).trans hk
      rcases System.stutter_cases (b.next k) with hsame | ⟨l, hl, hnext⟩
      · rw [hsame]
        exact ih
      · exact clearing_next (busInv_of_behaviour b k) ih (hhealthy k (hn.trans hmk) l hl) hnext
  refine (hclearing f.id (List.mem_map_of_mem hf)).resolve_right ?_
  simp [(fetch_enabled hagain).1, Relay.batch]

/-- The events up to a time that are unpublished then were so before, once all later events are younger. -/
theorem backlog_origin {t : Timestamp} (hcommit : ∀ k, n ≤ k → ∀ e, b.label k = some (.commit e) → t < e.createdAt)
    (hn : n ≤ m) {k : ℕ} (hk : m ≤ k) {id : Uuid} {e' : OutboxEvent}
    (he : (b.state k).outboxEvents.find? id = some e') (hp : (!e'.published && decide (e'.createdAt ≤ t)) = true) :
    ∃ e, (b.state m).outboxEvents.find? id = some e ∧ (!e.published && decide (e.createdAt ≤ t)) = true := by
  induction k, hk using Nat.le_induction generalizing e' with
  | base => exact ⟨e', he, hp⟩
  | succ k hmk ih =>
    rcases System.stutter_cases (b.next k) with hsame | ⟨l, hl, hnext⟩
    · rw [hsame] at he
      exact ih he hp
    simp only [Bool.and_eq_true, Bool.not_eq_true', decide_eq_true_eq] at hp
    rcases (bus_step hnext).origin he with ⟨e₀, rfl, hcreated⟩ | ⟨e₀, hfind, hcreated, hmark⟩
    · have hlt := hcommit k (hn.trans hmk) e₀ hl
      rw [hcreated] at hp
      exact absurd hp.2 (not_le.mpr hlt)
    · exact ih hfind (by simp [hmark hp.1, ← hcreated, hp.2])

theorem backlog_le {t : Timestamp} (hcommit : ∀ k, n ≤ k → ∀ e, b.label k = some (.commit e) → t < e.createdAt)
    (hn : n ≤ m) {k : ℕ} (hk : m ≤ k) : (b.state k).backlog t ≤ (b.state m).backlog t :=
  Table.count_le_of_find? [] fun _ _ he hp => .inr (backlog_origin hcommit hn hk he hp)

theorem backlog_lt {t : Timestamp} (hcommit : ∀ k, n ≤ k → ∀ e, b.label k = some (.commit e) → t < e.createdAt)
    (hn : n ≤ m) {k : ℕ} (hk : m ≤ k) {f : OutboxEvent} (hf : f ∈ (b.state m).outboxEvents.rows)
    (hp : f.published = false) (ht : f.createdAt ≤ t) (hm : (b.state k).marked f.id) :
    (b.state k).backlog t < (b.state m).backlog t := by
  have hfind := Table.find?_of_mem hf
  have hcount := Table.count_delete_key hfind fun e => !e.published && decide (e.createdAt ≤ t)
  have hone : (!f.published && decide (f.createdAt ≤ t)) = true := by simp [hp, ht]
  rw [hone, Bool.toNat_true] at hcount
  have hle : (b.state k).backlog t ≤
      ((b.state m).outboxEvents.delete fun e => decide (e.id = f.id)).count
        (fun e => !e.published && decide (e.createdAt ≤ t)) + ([] : List Uuid).length := by
    refine Table.count_le_of_find? [] fun id e' he' hp' => .inr ?_
    obtain ⟨e, he, hpe⟩ := backlog_origin hcommit hn hk he' hp'
    refine ⟨e, ?_, hpe⟩
    -- the marked one does not count any more
    have hne : e.id ≠ f.id := by
      intro hid
      obtain ⟨f', hf', hmark⟩ := hm
      rw [← hid, Table.key_of_find? he, he'] at hf'
      cases hf'
      simp [hmark] at hp'
    have hmem : e ∈ ((b.state m).outboxEvents.delete fun e => decide (e.id = f.id)).rows :=
      List.mem_filter.mpr ⟨Table.mem_of_find? he, by simp [hne]⟩
    rw [← Table.key_of_find? he]
    exact Table.find?_of_mem hmem
  rw [List.length_nil] at hle
  unfold EventBus.backlog at hle ⊢
  omega

/-- An event of the outbox is published in the end, and marked, if a relay fetches again and again, and from some
moment on is healthy and only finds younger events added. -/
theorem event_drains (he : (b.state n).outboxEvents.find? e.id = some e)
    (hfetch : Recurs fun k => ∃ order, b.label k = some (.fetch relay (some order)))
    (hhealthy : ∃ N, ∀ k, N ≤ k → ∀ l, b.label k = some l → l.healthy relay = true)
    (hcommit : ∃ N, ∀ k, N ≤ k → ∀ e', b.label k = some (.commit e') → e.createdAt < e'.createdAt) :
    ∃ m, n ≤ m ∧ (b.state m).marked e.id ∧ ∃ p ∈ (b.state m).published, p.Announces e := by
  obtain ⟨N₁, hhealthy⟩ := hhealthy
  obtain ⟨N₂, hcommit⟩ := hcommit
  set N := max n (max N₁ N₂)
  have hN₁ : N₁ ≤ N := (le_max_left N₁ N₂).trans (le_max_right n _)
  have hN₂ : N₂ ≤ N := (le_max_right N₁ N₂).trans (le_max_right n _)
  have hrow {k : ℕ} (hk : n ≤ k) : ∃ e', (b.state k).outboxEvents.find? e.id = some e' ∧ e'.content = e.content := by
    refine Behaviour.persists (b := b) (I := fun s => ∃ e', s.outboxEvents.find? e.id = some e' ∧
      e'.content = e.content) ⟨e, he, rfl⟩ ?_ hk
    intro s l s' _ ⟨e', hfind, hcontent⟩ hn
    rcases System.stutter_cases hn with rfl | ⟨l, -, hn⟩
    · exact ⟨e', hfind, hcontent⟩
    · obtain ⟨e'', hfind', hcontent', _⟩ := (bus_step hn).kept e' (Table.mem_of_find? hfind)
      rw [Table.key_of_find? hfind] at hfind'
      exact ⟨e'', hfind', hcontent'.trans hcontent⟩
  have hdescend (m : ℕ) (hm : N ≤ m) (_ : True) : ∃ k, m ≤ k ∧ ((b.state k).marked e.id ∨
      True ∧ (b.state k).backlog e.createdAt < (b.state m).backlog e.createdAt) := by
    obtain ⟨k, hk, order, hlabel⟩ := hfetch m
    obtain ⟨k', hk', order', hagain⟩ := hfetch (k + 1)
    have hNk : N ≤ k := hm.trans hk
    obtain ⟨e', hfind, hcontent⟩ := hrow ((le_max_left n _).trans hNk)
    cases hp : e'.published with
    | true => exact ⟨k, hk, .inl ⟨e', hfind, hp⟩⟩
    | false =>
      -- the relay marks the oldest unpublished event before it fetches again
      obtain ⟨f, hbatch, hf, hfp, hft⟩ := batch_cases (fetch_enabled hlabel).2.1 (Table.mem_of_find? hfind) hp
      have hmarked := batch_marked (fun i hi => hhealthy i (hN₁.trans hi)) hNk hlabel hk' hagain hbatch
      have hcreated : f.createdAt ≤ e.createdAt := OutboxEvent.createdAt_of_content hcontent ▸ hft
      refine ⟨k', hk.trans (by omega), .inr ⟨trivial, ?_⟩⟩
      calc (b.state k').backlog e.createdAt
          < (b.state k).backlog e.createdAt :=
            backlog_lt (fun i hi => hcommit i (hN₂.trans hi)) hNk (by omega) hf hfp hcreated hmarked
        _ ≤ (b.state m).backlog e.createdAt := backlog_le (fun i hi => hcommit i (hN₂.trans hi)) hm hk
  obtain ⟨m, hm, hmarked⟩ := Behaviour.ends_of_rank (P := fun _ => True) (Q := fun s => EventBus.marked s e.id)
    (fun s => EventBus.backlog s e.createdAt) hdescend le_rfl trivial
  have hnm : n ≤ m := (le_max_left n _).trans hm
  refine ⟨m, hnm, hmarked, ?_⟩
  obtain ⟨e', hfind, hp⟩ := hmarked
  obtain ⟨e'', hfind', hcontent⟩ := hrow hnm
  rw [hfind] at hfind'
  cases hfind'
  rw [OutboxEvent.announced_iff, ← OutboxEvent.publication_of_content hcontent]
  exact (busInv_of_behaviour b m).sent e' (Table.mem_of_find? hfind) hp

/-- As long as a relay fetches again and again, and from some moment on nothing goes wrong for it and only
younger events are committed, an event of the outbox is published in the end, and marked, whatever
other relays do and however many events there are. -/
theorem outbox_drains {ok : EventBus → BusLabel → Prop} {b : Behaviour eventBus ok}
    (he : (b.state n).outboxEvents.find? e.id = some e)
    (hfetch : Recurs fun k => ∃ order, b.label k = .fetch relay (some order))
    (hhealthy : ∃ N, ∀ k, N ≤ k → (b.label k).healthy relay = true)
    (hcommit : ∃ N, ∀ k, N ≤ k → ∀ e', b.label k = .commit e' → e.createdAt < e'.createdAt) :
    ∃ m, n ≤ m ∧ (b.state m).marked e.id ∧ ∃ p ∈ (b.state m).published, p.Announces e := by
  obtain ⟨N₁, hhealthy⟩ := hhealthy
  obtain ⟨N₂, hcommit⟩ := hcommit
  apply event_drains (b := b.stutter) he
  · exact hfetch.mono fun k ⟨order, hl⟩ => ⟨order, congrArg some hl⟩
  · refine ⟨N₁, fun k hk l hl => ?_⟩
    rw [← Option.some.inj hl]
    exact hhealthy k hk
  · exact ⟨N₂, fun k hk e' hl => hcommit k hk e' (Option.some.inj hl)⟩

end Runs

namespace Sample

def draining (n : ℕ) : BusLabel :=
  ([.commit (event 1 100 .jobCompleted 5), .fetch 0 (some [1]), .publish 0 .acknowledged,
    .mark 0 9 .acknowledged] : List BusLabel)[n]?.getD (.fetch 0 (some []))

theorem draining_eq {n : ℕ} (hn : 4 ≤ n) : draining n = .fetch 0 (some []) := by
  rw [draining, List.getElem?_eq_none (by simpa using hn)]
  rfl

def drainingStates : ℕ → EventBus := Behaviour.states JobScheduler.eventBus eventBus draining

theorem draining_next {s : EventBus} (hs : s.relays 0 = .polling ∧ isFetchOrder s.outboxEvents [] = true) :
    ∃ s', s.next (.fetch 0 (some [])) = some s' ∧ s'.relays 0 = .polling ∧
      isFetchOrder s'.outboxEvents [] = true := by
  refine ⟨s.setRelay 0 .polling, ?_, by simp [EventBus.setRelay], hs.2⟩
  simp only [EventBus.next, hs.1, hs.2, if_true]
  rfl

theorem draining_idle {n : ℕ} (hn : 4 ≤ n) :
    (drainingStates n).relays 0 = .polling ∧ isFetchOrder (drainingStates n).outboxEvents [] = true := by
  induction n, hn using Nat.le_induction with
  | base => exact ⟨rfl, by decide⟩
  | succ n hn ih =>
    obtain ⟨s', hs', hidle⟩ := draining_next ih
    have hstate : drainingStates (n + 1) = s' := by
      show ((drainingStates n).next (draining n)).getD _ = s'
      rw [draining_eq hn, hs']
      rfl
    rw [hstate]
    exact hidle

theorem draining_enabled (n : ℕ) : ((drainingStates n).next (draining n)).isSome = true := by
  by_cases hn : 4 ≤ n
  · obtain ⟨s', hs', _⟩ := draining_next (draining_idle hn)
    rw [draining_eq hn, hs']
    rfl
  · interval_cases n <;> decide

def drainingRun : Behaviour JobScheduler.eventBus fun _ _ => True :=
  .ofLabels eventBus_initial draining (fun _ => trivial) draining_enabled

end Sample

theorem outbox_drains_sample :
    ∃ (b : Behaviour eventBus fun _ _ => True) (e : OutboxEvent) (m : ℕ),
      (b.state 1).outboxEvents.find? 1 = some e ∧ e.published = false ∧ 1 ≤ m ∧
        (b.state m).marked 1 ∧ ∃ p ∈ (b.state m).published, p.Announces e := by
  have hlate (k : ℕ) (hk : 4 ≤ k) : Sample.drainingRun.label k = .fetch 0 (some []) := Sample.draining_eq hk
  obtain ⟨m, hm, hmarked, hsent⟩ := @outbox_drains 1 0
    (Sample.event 1 100 .jobCompleted 5).content _ Sample.drainingRun rfl
    (fun n => ⟨n + 4, by omega, [], hlate _ (by omega)⟩)
    ⟨4, fun k hk => by rw [hlate k hk]; rfl⟩ ⟨4, fun k hk e' he => by rw [hlate k hk] at he; cases he⟩
  exact ⟨Sample.drainingRun, (Sample.event 1 100 .jobCompleted 5).content, m, rfl, rfl, hm, hmarked, hsent⟩

end JobScheduler
