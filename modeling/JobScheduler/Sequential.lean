import JobScheduler.CircuitBreaker

namespace JobScheduler
open Transition

inductive CircuitError (ε : Type)
  | opened
  | inner (e : ε)

/-- One call: the clock when it checks the circuit, what its future comes to, should it be run, and the clock
then. -/
structure BreakerCall (ε τ : Type) where
  checkedAt : ℕ
  outcome : Except ε τ
  endedAt : ℕ

/-- A call with what it has returned, and whether its future has been run. -/
structure CallRecord (ε τ : Type) extends BreakerCall ε τ where
  result : Except (CircuitError ε) τ
  ran : Bool

/-- What the breaker keeps between calls. -/
structure BreakerState where
  state : CircuitState
  failureCount : UInt64
  lastFailureAt : Option ℕ
  deriving DecidableEq

namespace BreakerState

def new : BreakerState := ⟨.closed, 0, none⟩

def check (cfg : BreakerConfig) (s : BreakerState) (now : ℕ) : BreakerState × Bool :=
  match s.state with
  | .opened =>
    match s.lastFailureAt with
    | some t => if cfg.resetTimeout ≤ now - t then ({ s with state := .halfOpen }, true) else (s, false)
    | none => (s, false)
  | .halfOpen | .closed => (s, true)

def record (cfg : BreakerConfig) (s : BreakerState) (ok : Bool) (now : ℕ) : BreakerState :=
  if ok then { s with state := .closed, failureCount := 0 }
  else if cfg.failureThreshold ≤ s.failureCount + 1 then ⟨.opened, s.failureCount + 1, some now⟩
  else { s with failureCount := s.failureCount + 1 }

/-- `CircuitBreaker::call`, with no other call under way. -/
def call {ε τ : Type} (cfg : BreakerConfig) (s : BreakerState) (x : BreakerCall ε τ) :
    BreakerState × CallRecord ε τ :=
  if (s.check cfg x.checkedAt).2 then
    ((s.check cfg x.checkedAt).1.record cfg x.outcome.isOk x.endedAt,
      { x with result := x.outcome.mapError .inner, ran := true })
  else ((s.check cfg x.checkedAt).1, { x with result := .error .opened, ran := false })

def callAll {ε τ : Type} (cfg : BreakerConfig) : BreakerState → List (BreakerCall ε τ) → List (CallRecord ε τ)
  | _, [] => []
  | s, x :: xs => (s.call cfg x).2 :: callAll cfg (s.call cfg x).1 xs

end BreakerState

/-! ## The reference: what the history says -/

section History
variable {ε τ : Type}

/-- When the executed calls have failed since the last success; the latest is first, here and in the history. -/
def failureTimes : List (CallRecord ε τ) → List ℕ
  | [] => []
  | r :: h =>
    if r.ran then
      if r.outcome.isOk then [] else r.endedAt :: failureTimes h
    else failureTimes h

/-- There are as many failures as the threshold, and the timeout has not passed since the latest. -/
def Rejects (cfg : BreakerConfig) (h : List (CallRecord ε τ)) (now : ℕ) : Prop :=
  cfg.failureThreshold.toNat ≤ (failureTimes h).length ∧
    ∃ t, (failureTimes h).head? = some t ∧ now - t < cfg.resetTimeout

/-- A rejected call does not run its future; any other returns what its future has returned. -/
structure MeetsReference (cfg : BreakerConfig) (h : List (CallRecord ε τ)) (r : CallRecord ε τ) : Prop where
  rejected : Rejects cfg h r.checkedAt → r.result = .error .opened ∧ r.ran = false
  passed : ¬Rejects cfg h r.checkedAt → r.result = r.outcome.mapError .inner ∧ r.ran = true

def failedRuns (rs : List (CallRecord ε τ)) : ℕ := rs.countP fun r => r.ran && !r.outcome.isOk

end History

/-! ## The breaker keeps what the reference needs -/

section Steps
variable {ε τ : Type} {cfg : BreakerConfig} {s : BreakerState} {h : List (CallRecord ε τ)} {x : BreakerCall ε τ}

/-- The counter counts the failures, and below the threshold the circuit is closed; else it is open since the
latest. -/
structure Tracks (cfg : BreakerConfig) (h : List (CallRecord ε τ)) (s : BreakerState) : Prop where
  count : s.failureCount.toNat = (failureTimes h).length
  below : (failureTimes h).length < cfg.failureThreshold.toNat → s.state = .closed
  above : cfg.failureThreshold.toNat ≤ (failureTimes h).length →
    s.state = .opened ∧ s.lastFailureAt = (failureTimes h).head?

theorem one_le_threshold (cfg : BreakerConfig) : 1 ≤ cfg.failureThreshold.toNat :=
  UInt64.le_iff_toNat_le.mp cfg.failureThreshold_pos

theorem tracks_new : Tracks cfg ([] : List (CallRecord ε τ)) .new where
  count := rfl
  below _ := rfl
  above h := by
    have hpos := one_le_threshold cfg
    rw [show failureTimes ([] : List (CallRecord ε τ)) = [] from rfl, List.length_nil] at h
    omega

theorem check_of_tracks (ht : Tracks cfg h s) (now : ℕ) :
    ((s.check cfg now).2 = false ↔ Rejects cfg h now) ∧
      (s.check cfg now).1.failureCount = s.failureCount ∧
      ((s.check cfg now).2 = false → (s.check cfg now).1 = s) ∧
      ((failureTimes h).length < cfg.failureThreshold.toNat → (s.check cfg now).1 = s) := by
  rcases Nat.lt_or_ge (failureTimes h).length cfg.failureThreshold.toNat with hlt | hge
  · have hcheck : s.check cfg now = (s, true) := by simp [BreakerState.check, ht.below hlt]
    rw [hcheck]
    refine ⟨iff_of_false (by simp) fun hr => ?_, rfl, fun _ => rfl, fun _ => rfl⟩
    have hle := hr.1
    omega
  · obtain ⟨hstate, hlast⟩ := ht.above hge
    have hne : failureTimes h ≠ [] := by
      intro hnil
      have hpos := one_le_threshold cfg
      rw [hnil, List.length_nil] at hge
      omega
    obtain ⟨t, hhead⟩ := Option.ne_none_iff_exists'.mp (mt List.head?_eq_none_iff.mp hne)
    have hcheck : s.check cfg now =
        if cfg.resetTimeout ≤ now - t then ({ s with state := .halfOpen }, true) else (s, false) := by
      simp [BreakerState.check, hstate, hlast, hhead]
    have hrejects : Rejects cfg h now ↔ now - t < cfg.resetTimeout := by
      simp [Rejects, hge, hhead]
    rw [hcheck, hrejects]
    split
    · rename_i hle
      exact ⟨iff_of_false (by simp) (by omega), rfl, fun hf => by simp at hf, fun hlt => by omega⟩
    · rename_i hle
      exact ⟨iff_of_true rfl (by omega), rfl, fun _ => rfl, fun _ => rfl⟩

theorem tracks_rejected (ht : Tracks cfg h s) {r : CallRecord ε τ} (hran : r.ran = false) :
    Tracks cfg (r :: h) s := by
  have htimes : failureTimes (r :: h) = failureTimes h := by simp [failureTimes, hran]
  exact ⟨htimes ▸ ht.count, htimes ▸ ht.below, htimes ▸ ht.above⟩

theorem tracks_success {r : CallRecord ε τ} (hran : r.ran = true) (hok : r.outcome.isOk = true) (now : ℕ) :
    Tracks cfg (r :: h) (s.record cfg true now) := by
  have htimes : failureTimes (r :: h) = [] := by simp [failureTimes, hran, hok]
  refine ⟨by simp [htimes, BreakerState.record], fun _ => by simp [BreakerState.record], fun hge => ?_⟩
  have hpos := one_le_threshold cfg
  rw [htimes, List.length_nil] at hge
  omega

theorem tracks_failure {r : CallRecord ε τ} (hran : r.ran = true) (hok : r.outcome.isOk = false)
    (hcount : s.failureCount.toNat = (failureTimes h).length) (hwrap : (failureTimes h).length + 1 < 2 ^ 64)
    (hbelow : (failureTimes h).length < cfg.failureThreshold.toNat → s.state = .closed) :
    Tracks cfg (r :: h) (s.record cfg false r.endedAt) := by
  have htimes : failureTimes (r :: h) = r.endedAt :: failureTimes h := by simp [failureTimes, hran, hok]
  have hnext : (s.failureCount + 1).toNat = (failureTimes (r :: h)).length := by
    rw [UInt64.toNat_add, UInt64.toNat_one, hcount, Nat.mod_eq_of_lt hwrap, htimes, List.length_cons]
  have hle : cfg.failureThreshold ≤ s.failureCount + 1 ↔
      cfg.failureThreshold.toNat ≤ (failureTimes (r :: h)).length := by
    rw [UInt64.le_iff_toNat_le, hnext]
  by_cases hopens : cfg.failureThreshold ≤ s.failureCount + 1
  · have hrecord : s.record cfg false r.endedAt = ⟨.opened, s.failureCount + 1, some r.endedAt⟩ := by
      simp [BreakerState.record, hopens]
    rw [hrecord]
    refine ⟨hnext, fun hlt => ?_, fun _ => ⟨rfl, by rw [htimes, List.head?_cons]⟩⟩
    have hge := hle.mp hopens
    omega
  · have hrecord : s.record cfg false r.endedAt = { s with failureCount := s.failureCount + 1 } := by
      simp [BreakerState.record, hopens]
    rw [hrecord]
    refine ⟨hnext, fun hlt => hbelow ?_, fun hge => absurd (hle.mpr hge) hopens⟩
    rw [htimes, List.length_cons] at hlt
    omega

/-- One call: it does what the reference says, and the breaker keeps up with the history. -/
theorem call_of_tracks (ht : Tracks cfg h s) (x : BreakerCall ε τ)
    (hwrap : (failureTimes h).length + failedRuns [(s.call cfg x).2] < 2 ^ 64) :
    MeetsReference cfg h (s.call cfg x).2 ∧ Tracks cfg ((s.call cfg x).2 :: h) (s.call cfg x).1 := by
  obtain ⟨hpass, hcount, hsame, hsame'⟩ := check_of_tracks ht x.checkedAt
  cases hlet : (s.check cfg x.checkedAt).2 with
  | false =>
    have hcall : s.call cfg x = (s, { x with result := .error .opened, ran := false }) := by
      simp [BreakerState.call, hlet, hsame hlet]
    rw [hcall]
    exact ⟨⟨fun _ => ⟨rfl, rfl⟩, fun hnot => absurd (hpass.mp hlet) hnot⟩, tracks_rejected ht rfl⟩
  | true =>
    have hnot : ¬Rejects cfg h x.checkedAt := fun hr => by
      rw [hpass.mpr hr] at hlet
      cases hlet
    have hcall : s.call cfg x = ((s.check cfg x.checkedAt).1.record cfg x.outcome.isOk x.endedAt,
        { x with result := x.outcome.mapError .inner, ran := true }) := by
      simp [BreakerState.call, hlet]
    rw [hcall] at hwrap ⊢
    refine ⟨⟨fun hr => absurd hr hnot, fun _ => ⟨rfl, rfl⟩⟩, ?_⟩
    cases hok : x.outcome.isOk with
    | true => exact tracks_success rfl hok x.endedAt
    | false =>
      refine tracks_failure rfl hok (hcount ▸ ht.count) ?_ fun hlt => ?_
      · simpa [failedRuns, hok] using hwrap
      · rw [hsame' hlt]
        exact ht.below hlt

theorem failureTimes_cons_length (r : CallRecord ε τ) :
    (failureTimes (r :: h)).length ≤ (failureTimes h).length + failedRuns [r] := by
  cases hran : r.ran <;> cases hok : r.outcome.isOk <;> simp [failureTimes, failedRuns, hran, hok]

theorem failedRuns_cons (r : CallRecord ε τ) (rs : List (CallRecord ε τ)) :
    failedRuns (r :: rs) = failedRuns [r] + failedRuns rs := by
  rw [← List.singleton_append]
  exact List.countP_append

theorem callAll_of_tracks (ht : Tracks cfg h s) (calls : List (BreakerCall ε τ))
    (hwrap : (failureTimes h).length + failedRuns (s.callAll cfg calls) < 2 ^ 64)
    {earlier later : List (CallRecord ε τ)} {r : CallRecord ε τ}
    (hsplit : s.callAll cfg calls = earlier ++ r :: later) : MeetsReference cfg (earlier.reverse ++ h) r := by
  induction calls generalizing s h earlier with
  | nil => simp [BreakerState.callAll] at hsplit
  | cons x xs ih =>
    rw [BreakerState.callAll] at hwrap hsplit
    rw [failedRuns_cons] at hwrap
    obtain ⟨hmeets, htracks⟩ := call_of_tracks ht x (by omega)
    cases earlier with
    | nil =>
      obtain ⟨rfl, -⟩ := List.cons.inj hsplit
      exact hmeets
    | cons r₁ earlier =>
      obtain ⟨rfl, hrest⟩ := List.cons.inj hsplit
      have hlength := @failureTimes_cons_length _ _ h (s.call cfg x).2
      have hmeets' := ih htracks (by omega) hrest
      rwa [List.reverse_cons, List.append_assoc]

end Steps

/-! ## The calls as steps of the breaker -/

def CircuitBreaker.breakerState (s : CircuitBreaker) : BreakerState := ⟨s.state, s.failureCount, s.lastFailureAt⟩

namespace BreakerState
variable {ε τ : Type}

def recordLabels (cfg : BreakerConfig) (b : BreakerState) (c : ℕ) (ok : Bool) : List BreakerLabel :=
  if ok then [.store c, .setClosed c]
  else if cfg.failureThreshold ≤ b.failureCount + 1 then [.fetchAdd c, .setOpen c, .setLast c]
  else [.fetchAdd c]

def callLabels (cfg : BreakerConfig) (b : BreakerState) (c : ℕ) (x : BreakerCall ε τ) : List BreakerLabel :=
  [.tick x.checkedAt, .call c, .check c] ++
    if (b.check cfg x.checkedAt).2 then
      [.tick x.endedAt, .finish c x.outcome.isOk] ++ (b.check cfg x.checkedAt).1.recordLabels cfg c x.outcome.isOk
    else []

def allLabels (cfg : BreakerConfig) : BreakerState → ℕ → List (BreakerCall ε τ) → List BreakerLabel
  | _, _, [] => []
  | b, c, x :: xs => b.callLabels cfg c x ++ allLabels cfg (b.call cfg x).1 (c + 1) xs

def afterAll (cfg : BreakerConfig) (b : BreakerState) (calls : List (BreakerCall ε τ)) : BreakerState :=
  calls.foldl (fun b x => (b.call cfg x).1) b

end BreakerState

def OneAfterTheOther {ε τ : Type} : ℕ → List (BreakerCall ε τ) → Prop
  | _, [] => True
  | now, x :: xs => now ≤ x.checkedAt ∧ x.checkedAt ≤ x.endedAt ∧ OneAfterTheOther x.endedAt xs

/-- Nobody holds the lock, call `c` is at `phase`, and no later one has begun. -/
structure CircuitBreaker.Holds (s : CircuitBreaker) (b : BreakerState) (now c : ℕ) (phase : CallPhase) : Prop where
  kept : s.breakerState = b
  time : s.now = now
  unlocked : s.locked = false
  at_phase : s.calls c = phase
  later : ∀ c', c < c' → s.calls c' = .idle

section Labels
variable {ε τ : Type} {cfg : BreakerConfig} {s : CircuitBreaker} {b : BreakerState} {now c : ℕ}

theorem holds_setCall (hl : s.locked = false) (hlater : ∀ c', c < c' → s.calls c' = .idle) (phase : CallPhase) :
    (s.setCall c phase).Holds s.breakerState s.now c phase where
  kept := rfl
  time := rfl
  unlocked := hl
  at_phase := Function.update_self _ _ _
  later := by
    intro c' hc'
    exact (Function.update_of_ne (by omega) _ _).trans (hlater c' hc')

variable (cfg)

theorem next_tick {phase : CallPhase} (hs : s.Holds b now c phase) {later : ℕ} (hle : now ≤ later) :
    ∃ s', s.next cfg (.tick later) = some s' ∧ s'.Holds b later c phase := by
  obtain ⟨rfl, rfl, hl, hc, hlater⟩ := hs
  exact ⟨_, if_pos hle, rfl, rfl, hl, hc, hlater⟩

theorem next_call (hs : s.Holds b now c .idle) :
    ∃ s', s.next cfg (.call c) = some s' ∧ s'.Holds b now c .checking := by
  obtain ⟨rfl, rfl, hl, hc, hlater⟩ := hs
  exact ⟨_, if_pos hc, holds_setCall hl hlater _⟩

theorem next_check (hs : s.Holds b now c .checking) :
    ∃ s', s.next cfg (.check c) = some s' ∧
      s'.Holds (b.check cfg now).1 now c (if (b.check cfg now).2 then .running else .finished) := by
  obtain ⟨rfl, rfl, hl, hc, hlater⟩ := hs
  refine ⟨s.check cfg c, by simp [CircuitBreaker.next, hc, hl], ?_⟩
  have hsame := fun phase => holds_setCall hl hlater phase
  unfold CircuitBreaker.check BreakerState.check
  cases hstate : s.state with
  | closed | halfOpen => simpa [CircuitBreaker.breakerState, hstate] using hsame .running
  | opened =>
    cases hlast : s.lastFailureAt with
    | none => simpa [CircuitBreaker.breakerState, hstate, hlast] using hsame .finished
    | some t =>
      by_cases hle : cfg.resetTimeout ≤ s.now - t
      · have hprobe := @holds_setCall { s with state := .halfOpen, probe := some c } c hl hlater .running
        simpa [CircuitBreaker.breakerState, hstate, hlast, hle] using hprobe
      · simpa [CircuitBreaker.breakerState, hstate, hlast, hle] using hsame .finished

theorem next_finish (hs : s.Holds b now c .running) (ok : Bool) :
    ∃ s', s.next cfg (.finish c ok) = some s' ∧ s'.Holds b now c (if ok then .succeeded else .failed) := by
  obtain ⟨rfl, rfl, hl, hc, hlater⟩ := hs
  exact ⟨_, if_pos hc, holds_setCall hl hlater _⟩

variable {cfg}

theorem leads_record {ok : Bool} (hs : s.Holds b now c (if ok then .succeeded else .failed)) :
    Leads (circuitBreaker cfg) (fun s' => s'.Holds (b.record cfg ok now) now c .finished) s
      (b.recordLabels cfg c ok) := by
  obtain ⟨rfl, rfl, hl, hc, hlater⟩ := hs
  cases ok with
  | true =>
    let s₁ := { s with failureCount := 0 }.setCall c .closing
    let s₂ := { s₁ with state := .closed }
    have hs₁ : s₁.Holds _ _ _ _ := @holds_setCall { s with failureCount := 0 } c hl hlater .closing
    have hclose : s₁.next cfg (.setClosed c) = some (s₂.setCall c .finished) :=
      if_pos (by simp [hs₁.at_phase, hs₁.unlocked])
    exact ⟨s₁, if_pos hc, _, hclose, @holds_setCall s₂ c hl hs₁.later .finished⟩
  | false =>
    let s₁ := { s with failureCount := s.failureCount + 1 }
    by_cases hle : cfg.failureThreshold ≤ s.failureCount + 1
    · let s₂ := s₁.setCall c .opening
      let s₃ := { s₂ with state := .opened, locked := true }.setCall c .timing
      let s₄ := { s₃ with lastFailureAt := some s₃.now, locked := false }
      have hs₂ : s₂.Holds _ _ _ _ := @holds_setCall s₁ c hl hlater .opening
      have hadd : s.next cfg (.fetchAdd c) = some s₂ := by simp [CircuitBreaker.next, hc, hle, s₂, s₁]
      have hopen : s₂.next cfg (.setOpen c) = some s₃ := if_pos (by simp [hs₂.at_phase, hs₂.unlocked])
      have htime : s₃.next cfg (.setLast c) = some (s₄.setCall c .finished) := if_pos (Function.update_self _ _ _)
      have hlater₃ : ∀ c', c < c' → s₃.calls c' = .idle := by
        intro c' hc'
        exact (Function.update_of_ne (by omega) _ _).trans (hs₂.later c' hc')
      have hs₄ := @holds_setCall s₄ c rfl hlater₃ .finished
      simp only [BreakerState.recordLabels, BreakerState.record, CircuitBreaker.breakerState, hle, if_true,
        Bool.false_eq_true, if_false]
      exact ⟨s₂, hadd, s₃, hopen, _, htime, hs₄⟩
    · have hadd : s.next cfg (.fetchAdd c) = some (s₁.setCall c .finished) := by
        simp [CircuitBreaker.next, hc, hle, s₁]
      simp only [BreakerState.recordLabels, BreakerState.record, CircuitBreaker.breakerState, hle,
        Bool.false_eq_true, if_false]
      exact ⟨_, hadd, @holds_setCall s₁ c hl hlater .finished⟩

theorem leads_call (hs : s.Holds b now c .idle) (x : BreakerCall ε τ) (hchecked : now ≤ x.checkedAt)
    (hended : x.checkedAt ≤ x.endedAt) :
    Leads (circuitBreaker cfg) (fun s' => ∃ t ≤ x.endedAt, s'.Holds (b.call cfg x).1 t c .finished) s
      (b.callLabels cfg c x) := by
  obtain ⟨s₁, hn₁, hs₁⟩ := next_tick cfg hs hchecked
  obtain ⟨s₂, hn₂, hs₂⟩ := next_call cfg hs₁
  obtain ⟨s₃, hn₃, hs₃⟩ := next_check cfg hs₂
  refine ⟨s₁, hn₁, s₂, hn₂, s₃, hn₃, ?_⟩
  cases hlet : (b.check cfg x.checkedAt).2 with
  | false =>
    rw [hlet] at hs₃
    refine ⟨x.checkedAt, hended, ?_⟩
    simpa [BreakerState.call, hlet] using hs₃
  | true =>
    rw [hlet] at hs₃
    obtain ⟨s₄, hn₄, hs₄⟩ := next_tick cfg hs₃ hended
    obtain ⟨s₅, hn₅, hs₅⟩ := next_finish cfg hs₄ x.outcome.isOk
    refine ⟨s₄, hn₄, s₅, hn₅, ?_⟩
    have hcall : (b.call cfg x).1 = (b.check cfg x.checkedAt).1.record cfg x.outcome.isOk x.endedAt := by
      simp [BreakerState.call, hlet]
    refine (leads_record hs₅).mono fun s' hs' => ⟨x.endedAt, le_rfl, ?_⟩
    rw [hcall]
    exact hs'

theorem oneAfterTheOther_of_le {calls : List (BreakerCall ε τ)} {t : ℕ} (horder : OneAfterTheOther now calls)
    (ht : t ≤ now) : OneAfterTheOther t calls := by
  cases calls with
  | nil => trivial
  | cons x xs => exact ⟨ht.trans horder.1, horder.2⟩

theorem leads_calls (calls : List (BreakerCall ε τ)) (hs : s.Holds b now c .idle)
    (horder : OneAfterTheOther now calls) :
    Leads (circuitBreaker cfg) (fun s' => s'.breakerState = b.afterAll cfg calls) s (b.allLabels cfg c calls) := by
  induction calls generalizing s b now c with
  | nil => exact hs.kept
  | cons x xs ih =>
    obtain ⟨hchecked, hended, hrest⟩ := horder
    refine (leads_call hs x hchecked hended).append fun s' ⟨t, ht, hs'⟩ => ?_
    have hnext : s'.Holds (b.call cfg x).1 t (c + 1) .idle :=
      ⟨hs'.kept, hs'.time, hs'.unlocked, hs'.later _ (Nat.lt_succ_self c), fun c' hc' => hs'.later c' (by omega)⟩
    exact ih hnext (oneAfterTheOther_of_le hrest ht)

end Labels

/-- Calls one after the other, each step of theirs taken. -/
theorem callAll_run {ε τ : Type} (cfg : BreakerConfig) (now : ℕ) (calls : List (BreakerCall ε τ))
    (horder : OneAfterTheOther now calls) :
    ∃ h s, Run (circuitBreaker cfg) (fun _ _ => True) h s ∧
      h.map Prod.snd = (BreakerState.new.allLabels cfg 0 calls).reverse ∧
      s.breakerState = BreakerState.new.afterAll cfg calls := by
  have hnew : (CircuitBreaker.new now).Holds .new now 0 .idle := ⟨rfl, rfl, rfl, rfl, fun _ _ => rfl⟩
  obtain ⟨h, s, hr, hlabels, hs⟩ := (leads_calls calls hnew horder).run (.start ⟨now, rfl⟩)
  exact ⟨h, s, hr, by simpa using hlabels, hs⟩

/-! ## Every history -/

section Sequential
variable {ε τ : Type}

theorem callAll_calls (cfg : BreakerConfig) (b : BreakerState) (calls : List (BreakerCall ε τ)) :
    (b.callAll cfg calls).map CallRecord.toBreakerCall = calls := by
  induction calls generalizing b with
  | nil => rfl
  | cons x xs ih =>
    have hx : (b.call cfg x).2.toBreakerCall = x := by
      unfold BreakerState.call
      split <;> rfl
    rw [BreakerState.callAll, List.map_cons, hx, ih]

/-- Calls that do not overlap, fewer than 2^64 of which fail: each does what the failures before it say. -/
theorem breaker_sequential (cfg : BreakerConfig) (calls : List (BreakerCall ε τ))
    (hfailed : failedRuns (BreakerState.new.callAll cfg calls) < 2 ^ 64) :
    (BreakerState.new.callAll cfg calls).map CallRecord.toBreakerCall = calls ∧
      ∀ earlier r later, BreakerState.new.callAll cfg calls = earlier ++ r :: later →
        MeetsReference cfg earlier.reverse r := by
  refine ⟨callAll_calls cfg .new calls, fun earlier r later hsplit => ?_⟩
  have hmeets := callAll_of_tracks tracks_new calls (by simpa [failureTimes] using hfailed) hsplit
  rwa [List.append_nil] at hmeets

end Sequential

/-- Opens at the first failure, for a minute: the second call is rejected, the third fails as a probe, the
fourth is rejected, and the fifth passes. -/
theorem breaker_sequential_sample :
    let calls : List (BreakerCall Unit ℕ) :=
      [⟨0, .error (), 5⟩, ⟨10, .ok 1, 11⟩, ⟨70, .error (), 75⟩, ⟨100, .ok 2, 101⟩, ⟨200, .ok 3, 201⟩]
    let records := BreakerState.new.callAll Sample.breakerConfig calls
    records.map CallRecord.ran = [true, false, true, false, true] ∧
      ∀ earlier r later, records = earlier ++ r :: later →
        MeetsReference Sample.breakerConfig earlier.reverse r :=
  ⟨by decide, (breaker_sequential Sample.breakerConfig
    [⟨0, .error (), 5⟩, ⟨10, .ok 1, 11⟩, ⟨70, .error (), 75⟩, ⟨100, .ok 2, 101⟩, ⟨200, .ok 3, 201⟩] (by decide)).2⟩

end JobScheduler
