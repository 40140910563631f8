import JobScheduler.Relay

namespace JobScheduler
open Relational Transition

section Steps
variable {s s' : EventBus} {l : BusLabel} {client : ℕ} {pending sent : List Publication}

theorem EventBus.Step.keeps_place (h : s.Step l s') (hforward : l ≠ .forward client) (hopen : l ≠ .close client)
    (hc : s.clients client = .subscribed pending sent) :
    ∃ more, s'.clients client = .subscribed (pending ++ more) sent := by
  have hsame : ∃ more, s.clients client = .subscribed (pending ++ more) sent :=
    ⟨[], by rw [hc, List.append_nil]⟩
  have hdeliver (p₀ : Publication) : ∃ more, (s.clients client).deliver p₀ = .subscribed (pending ++ more) sent := by
    by_cases hjobs : p₀.channel = jobsChannel
    · exact ⟨[p₀], by rw [hc, Client.deliver, if_pos hjobs]⟩
    · exact ⟨[], by rw [hc, Client.deliver, if_neg hjobs, List.append_nil]⟩
  have hother {client' : ℕ} {c : Client} (hne : client ≠ client') :
      ∃ more, (s.setClient client' c).clients client = .subscribed (pending ++ more) sent := by
    obtain ⟨more, hmore⟩ := hsame
    exact ⟨more, (Function.update_of_ne hne _ _).trans hmore⟩
  cases h with
  | published _ | replyLost _ => exact hdeliver _
  | @subscribed client' hclosed =>
    refine hother ?_
    rintro rfl
    rw [hclosed] at hc
    cases hc
  | forwarded _ => exact hother fun he => hforward (by rw [he])
  | closed => exact hother fun he => hopen (by rw [he])
  | _ => exact hsame

theorem EventBus.Step.forwards {p : Publication} (h : s.Step (.forward client) s')
    (hc : s.clients client = .subscribed (p :: pending) sent) :
    s'.clients client = .subscribed pending (sent ++ [p]) := by
  cases h with
  | forwarded hc' =>
    rw [hc] at hc'
    cases hc'
    exact Function.update_self _ _ _

/-- A client stays connected until it is closed, and nothing that was delivered to it is dropped. -/
theorem EventBus.Step.stays_subscribed (h : s.Step l s') (hopen : l ≠ .close client)
    (hc : s.clients client = .subscribed pending sent) :
    ∃ pending' sent', s'.clients client = .subscribed pending' sent' ∧
      ∀ p ∈ sent ++ pending, p ∈ sent' ++ pending' := by
  by_cases hforward : l = .forward client
  · subst hforward
    cases pending with
    | nil =>
      cases h with
      | forwarded hc' =>
        rw [hc] at hc'
        cases hc'
    | cons p pending => exact ⟨_, _, h.forwards hc, fun q hq => by simpa using hq⟩
  · obtain ⟨more, hc'⟩ := h.keeps_place hforward hopen hc
    exact ⟨_, _, hc', fun p hp => by rw [← List.append_assoc]; exact List.mem_append_left _ hp⟩

def EventBus.Connected (client : ℕ) (s : EventBus) : Prop :=
  ∃ pending sent, s.clients client = .subscribed pending sent

/-- The publication has been sent to the client, or waits for its handler. -/
def EventBus.InLine (client : ℕ) (p : Publication) (s : EventBus) : Prop :=
  ∃ pending sent, s.clients client = .subscribed pending sent ∧ p ∈ sent ++ pending

def EventBus.closes (client : ℕ) (_ : EventBus) (l : BusLabel) : Prop := l = .close client

theorem EventBus.Connected.step (h : s.Connected client) (hl : ¬s.closes client l) (hs : s.Step l s') :
    s'.Connected client := by
  obtain ⟨pending, sent, hc⟩ := h
  obtain ⟨pending', sent', hc', -⟩ := hs.stays_subscribed hl hc
  exact ⟨pending', sent', hc'⟩

theorem EventBus.InLine.step {p : Publication} (h : s.InLine client p) (hl : ¬s.closes client l)
    (hs : s.Step l s') : s'.InLine client p := by
  obtain ⟨pending, sent, hc, hp⟩ := h
  obtain ⟨pending', sent', hc', hkeep⟩ := hs.stays_subscribed hl hc
  exact ⟨pending', sent', hc', hkeep p hp⟩

theorem EventBus.Connected.inLine (h : s.Connected client) {relay : ℕ} {e : OutboxEvent}
    {rest : List OutboxEvent} (he : s.relays relay = .publishing e rest) (hchannel : e.channel = jobsChannel)
    (hs : s.Step (.publish relay .acknowledged) s') : s'.InLine client (e.publication true) := by
  obtain ⟨pending, sent, hc⟩ := h
  cases hs with
  | published hr =>
    rw [he] at hr
    cases hr
    refine ⟨pending ++ [e.publication true], sent, ?_, by simp⟩
    dsimp only [EventBus.setRelay, EventBus.send]
    rw [hc, Client.deliver, if_pos (show (e.publication true).channel = jobsChannel from hchannel)]

def EventBus.DeliversJobs (s : EventBus) : Prop :=
  ∀ client pending sent, s.clients client = .subscribed pending sent →
    ∀ p ∈ sent ++ pending, p.channel = jobsChannel

theorem EventBus.DeliversJobs.step (h : s.DeliversJobs) (hs : s.Step l s') : s'.DeliversJobs := by
  have hdeliver : ∀ p₀ : Publication, ∀ client pending sent,
      (s.clients client).deliver p₀ = .subscribed pending sent →
      ∀ p ∈ sent ++ pending, p.channel = jobsChannel := by
    intro p₀ client pending sent hc p hp
    cases hcl : s.clients client with
    | closed =>
      rw [hcl] at hc
      cases hc
    | subscribed pending₀ sent₀ =>
      have hold := h client pending₀ sent₀ hcl p
      rw [hcl, Client.deliver] at hc
      split at hc
      · rename_i hjobs
        cases hc
        rw [← List.append_assoc] at hp
        rcases List.mem_append.mp hp with hp | hp
        · exact hold hp
        · rw [List.mem_singleton.mp hp]
          exact hjobs
      · cases hc
        exact hold hp
  cases hs with
  | published _ | replyLost _ => exact hdeliver _
  | @subscribed client' _ =>
    intro client pending sent hc p hp
    dsimp only [EventBus.setClient] at hc
    rw [Function.update_apply] at hc
    split at hc
    · cases hc
      cases hp
    · exact h client pending sent hc p hp
  | @forwarded client' p₀ pending' sent' hc' =>
    intro client pending sent hc p hp
    dsimp only [EventBus.setClient] at hc
    rw [Function.update_apply] at hc
    split at hc
    · cases hc
      exact h client' _ _ hc' p (by simpa using hp)
    · exact h client pending sent hc p hp
  | @closed client' =>
    intro client pending sent hc p hp
    dsimp only [EventBus.setClient] at hc
    rw [Function.update_apply] at hc
    split at hc
    · cases hc
    · exact h client pending sent hc p hp
  | _ => exact h

/-- What has been delivered is sent as soon as the handler gets to it. -/
theorem forwards_drain (hc : s.clients client = .subscribed pending sent) :
    Leads eventBus (fun s' => s'.clients client = .subscribed [] (sent ++ pending)) s
      (List.replicate pending.length (.forward client)) := by
  induction pending generalizing s sent with
  | nil =>
    show s.clients client = .subscribed [] (sent ++ [])
    rw [hc, List.append_nil]
  | cons p pending ih =>
    have hnext : eventBus.next s (.forward client) =
        some (s.setClient client (.subscribed pending (sent ++ [p]))) := by
      show s.next (.forward client) = _
      simp only [EventBus.next, hc]
    have hset : (s.setClient client (.subscribed pending (sent ++ [p]))).clients client =
        .subscribed pending (sent ++ [p]) := Function.update_self _ _ _
    refine ⟨_, hnext, ?_⟩
    have hdrain := ih hset
    rwa [List.append_assoc] at hdrain

end Steps

section Runs
variable {s s₀ s₁ : EventBus} {later between earlier : List (EventBus × BusLabel)} {client relay : ℕ}
  {e : OutboxEvent} {rest : List OutboxEvent} {sent : List Publication}

theorem deliversJobs_of_run {h : List (EventBus × BusLabel)} {ok : EventBus → BusLabel → Prop}
    (hr : Run eventBus ok h s) : s.DeliversJobs := by
  refine Run.invariant (I := fun _ s => s.DeliversJobs) ?_ (fun _ _ _ _ _ hs _ hn => hs.step (bus_step hn)) hr
  intro s (hi : s.Initial) client pending sent hc
  rw [hi.clients client] at hc
  cases hc

/-- An event published while a client is connected is sent to it once its handler has gone through all that was
delivered, exactly if it is not the event of a dead letter. -/
theorem events_reach_dashboard_iff
    (hr : Run eventBus (fun _ _ => True)
      (later ++ (s₁, .publish relay .acknowledged) :: (between ++ (s₀, .subscribe client) :: earlier)) s)
    (hopen : ∀ q ∈ later ++ between, q.2 ≠ .close client) (he : s₁.relays relay = .publishing e rest) :
    ∃ pending sent, s.clients client = .subscribed pending sent ∧
      Leads eventBus (fun s' => s'.clients client = .subscribed [] (sent ++ pending)) s
        (List.replicate pending.length (.forward client)) ∧
      ((∃ p ∈ sent ++ pending, p.Announces e) ↔ e.eventType ≠ .jobMovedToDlq) := by
  have hbetween : ∀ q ∈ between, ¬EventBus.closes client q.1 q.2 :=
    fun q hq => hopen q (List.mem_append_right _ hq)
  have hlater : ∀ q ∈ later, ¬EventBus.closes client q.1 q.2 :=
    fun q hq => hopen q (List.mem_append_left _ hq)
  -- the client is connected when the event is published, and stays so
  have hconnected : s₁.Connected client := by
    refine (Run.since (I := EventBus.Connected client) (fun s₂ hn => ?_)
      (fun _ _ _ _ hi _ hl hn => hi.step hl (bus_step hn)) hr.split.1 hbetween).1
    have hn : s₀.next (.subscribe client) = some s₂ := hn
    cases bus_step hn with
    | subscribed _ => exact ⟨[], [], Function.update_self _ _ _⟩
  have hpublish : ¬s₁.closes client (.publish relay .acknowledged) := fun hl => by cases hl
  obtain ⟨pending, sent, hc⟩ : s.Connected client :=
    (Run.since (I := EventBus.Connected client) (fun s₂ hn => hconnected.step hpublish (bus_step hn))
      (fun _ _ _ _ hi _ hl hn => hi.step hl (bus_step hn)) hr hlater).1
  refine ⟨pending, sent, hc, forwards_drain hc, ?_⟩
  rw [OutboxEvent.announced_iff, ← e.channel_eq_jobsChannel_iff]
  constructor
  · exact fun hmem => deliversJobs_of_run hr client pending sent hc _ hmem
  · intro hchannel
    -- from its publication on the event is in line
    obtain ⟨pending', sent', hc', hmem⟩ : s.InLine client (e.publication true) :=
      (Run.since (I := EventBus.InLine client (e.publication true))
        (fun s₂ hn => hconnected.inLine he hchannel (bus_step hn))
        (fun _ _ _ _ hi _ hl hn => hi.step hl (bus_step hn)) hr hlater).1
    rw [hc] at hc'
    cases hc'
    exact hmem

end Runs

/-! One event, published while client 3 is connected. -/

namespace Sample

def nothingSent : Client → Bool
  | .subscribed [] [] => true
  | _ => false

theorem nothingSent_iff {c : Client} : nothingSent c = true ↔ c = .subscribed [] [] := by
  unfold nothingSent
  split <;> simp_all

end Sample

/-- A completed job, its event published while client 3 is connected. -/
theorem events_reach_dashboard_sample :
    ∃ (s : EventBus) (e : OutboxEvent) (pending sent : List Publication), s.clients 3 = .subscribed pending sent ∧
      Leads eventBus (fun s' => s'.clients 3 = .subscribed [] (sent ++ pending)) s
        (List.replicate pending.length (.forward 3)) ∧
      ((∃ p ∈ sent ++ pending, p.Announces e) ↔ e.eventType ≠ .jobMovedToDlq) := by
  obtain ⟨h, s, hrun, hls, -⟩ := Run.exists_of_exec_labels (M := eventBus) Sample.eventBus_initial
    [.commit (Sample.event 1 100 .jobCompleted 5), .subscribe 3, .fetch 0 (some [1]), .publish 0 .acknowledged,
      .mark 0 9 .acknowledged]
    (fun _ _ => true) (fun _ _ => true) (by decide)
  simp only [List.reverse_cons, List.reverse_nil, List.nil_append, List.cons_append, List.map_eq_cons_iff,
    List.map_eq_nil_iff] at hls
  obtain ⟨⟨s₃, _⟩, _, rfl, rfl, ⟨s₁, _⟩, _, rfl, rfl, ⟨s₂, _⟩, _, rfl, rfl, ⟨s₀, _⟩, _, rfl, rfl, q, _, rfl, -,
    rfl⟩ := hls
  have hrun : Run eventBus (fun _ _ => True) ([(s₃, .mark 0 9 .acknowledged)] ++ (s₁, .publish 0 .acknowledged) ::
      ([(s₂, .fetch 0 (some [1]))] ++ (s₀, .subscribe 3) :: [q])) s := hrun.mono fun _ _ _ => trivial
  obtain ⟨-, -, s', hn⟩ := hrun.split
  have hn : s₁.next (.publish 0 .acknowledged) = some s' := hn
  cases bus_step hn with
  | @published _ e rest hr =>
    obtain ⟨pending, sent, hc, hdrain, hiff⟩ := events_reach_dashboard_iff hrun (by simp) hr
    exact ⟨s, e, pending, sent, hc, hdrain, hiff⟩

/-- The event of a dead letter goes out on a channel that nobody is subscribed to. -/
theorem dead_letters_never_reach_dashboard :
    ¬∀ (later between earlier : List (EventBus × BusLabel)) (s₀ s₁ s : EventBus) (client relay : ℕ)
      (e : OutboxEvent) (rest : List OutboxEvent) (sent : List Publication),
      Run eventBus (fun _ _ => True)
        (later ++ (s₁, .publish relay .acknowledged) :: (between ++ (s₀, .subscribe client) :: earlier)) s →
      (∀ q ∈ later ++ between, q.2 ≠ .close client) → s₁.relays relay = .publishing e rest →
      s.clients client = .subscribed [] sent → ∃ p ∈ sent, p.Announces e := by
  intro hall
  obtain ⟨h, s, hrun, hls, hp⟩ := Run.exists_of_exec_labels (M := eventBus) Sample.eventBus_initial
    [.commit (Sample.event 1 100 .jobMovedToDlq 5), .subscribe 3, .fetch 0 (some [1]), .publish 0 .acknowledged]
    (fun _ _ => true) (fun _ s => Sample.nothingSent (s.clients 3)) (by decide)
  have hc := Sample.nothingSent_iff.mp hp
  simp only [List.reverse_cons, List.reverse_nil, List.nil_append, List.cons_append, List.map_eq_cons_iff,
    List.map_eq_nil_iff] at hls
  obtain ⟨⟨s₁, _⟩, _, rfl, rfl, ⟨s₂, _⟩, _, rfl, rfl, ⟨s₀, _⟩, _, rfl, rfl, q, _, rfl, -, rfl⟩ := hls
  have hrun : Run eventBus (fun _ _ => True) ([] ++ (s₁, .publish 0 .acknowledged) ::
      ([(s₂, .fetch 0 (some [1]))] ++ (s₀, .subscribe 3) :: [q])) s := hrun.mono fun _ _ _ => trivial
  obtain ⟨-, -, s', hn⟩ := hrun.split
  have hn : s₁.next (.publish 0 .acknowledged) = some s' := hn
  cases bus_step hn with
  | published hr =>
    obtain ⟨p, hp, -⟩ := hall _ _ _ _ _ _ _ _ _ _ _ hrun (by simp) hr hc
    cases hp

end JobScheduler
