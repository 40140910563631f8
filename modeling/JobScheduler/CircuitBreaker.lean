import JobScheduler.Runs

namespace JobScheduler
open Transition

inductive CircuitState
  | closed | opened | halfOpen
  deriving DecidableEq, Repr

/-- Where a `CircuitBreaker::call` is: before its next step, the lock of the state being held while it is
`timing`. -/
inductive CallPhase
  | idle | checking | running | succeeded | closing | failed | opening | timing | finished
  deriving DecidableEq, Repr

/-- What `CircuitBreaker::new` is given; `Duration` and `Instant` count nanoseconds. -/
structure BreakerConfig where
  failureThreshold : UInt64
  resetTimeout : ℕ
  failureThreshold_pos : 1 ≤ failureThreshold

/-- `probe` is the call that found the circuit open last and was let through: nothing the code keeps. -/
structure CircuitBreaker where
  state : CircuitState
  failureCount : UInt64
  lastFailureAt : Option ℕ
  locked : Bool
  now : ℕ
  calls : ℕ → CallPhase
  probe : Option ℕ

/-- The steps of a call in their order; `finish` is the end of its future. -/
inductive BreakerLabel
  | tick (now : ℕ)
  | call (c : ℕ)
  | check (c : ℕ)
  | finish (c : ℕ) (ok : Bool)
  | store (c : ℕ)
  | setClosed (c : ℕ)
  | fetchAdd (c : ℕ)
  | setOpen (c : ℕ)
  | setLast (c : ℕ)

namespace CircuitBreaker

def new (now : ℕ) : CircuitBreaker := ⟨.closed, 0, none, false, now, fun _ => .idle, none⟩

def setCall (s : CircuitBreaker) (c : ℕ) (phase : CallPhase) : CircuitBreaker :=
  { s with calls := Function.update s.calls c phase }

def check (cfg : BreakerConfig) (s : CircuitBreaker) (c : ℕ) : CircuitBreaker :=
  match s.state with
  | .opened =>
    match s.lastFailureAt with
    | some t =>
      if cfg.resetTimeout ≤ s.now - t then
        { s with state := .halfOpen, probe := some c }.setCall c .running
      else s.setCall c .finished
    | none => s.setCall c .finished
  | .halfOpen | .closed => s.setCall c .running

def next (cfg : BreakerConfig) (s : CircuitBreaker) : BreakerLabel → Option CircuitBreaker
  | .tick now => if s.now ≤ now then some { s with now := now } else none
  | .call c => if s.calls c = .idle then some (s.setCall c .checking) else none
  | .check c => if s.calls c = .checking && !s.locked then some (s.check cfg c) else none
  | .finish c ok =>
    if s.calls c = .running then some (s.setCall c (if ok then .succeeded else .failed)) else none
  | .store c => if s.calls c = .succeeded then some ({ s with failureCount := 0 }.setCall c .closing) else none
  | .setClosed c =>
    if s.calls c = .closing && !s.locked then some ({ s with state := .closed }.setCall c .finished) else none
  | .fetchAdd c =>
    if s.calls c = .failed then
      some ({ s with failureCount := s.failureCount + 1 }.setCall c
        (if cfg.failureThreshold ≤ s.failureCount + 1 then .opening else .finished))
    else none
  | .setOpen c =>
    if s.calls c = .opening && !s.locked then
      some ({ s with state := .opened, locked := true }.setCall c .timing)
    else none
  | .setLast c =>
    if s.calls c = .timing then
      some ({ s with lastFailureAt := some s.now, locked := false }.setCall c .finished)
    else none

inductive Step (cfg : BreakerConfig) (s : CircuitBreaker) : BreakerLabel → CircuitBreaker → Prop
  | tick {now : ℕ} (h : s.now ≤ now) : Step cfg s (.tick now) { s with now := now }
  | called {c : ℕ} (hc : s.calls c = .idle) : Step cfg s (.call c) (s.setCall c .checking)
  | rejected {c : ℕ} (hc : s.calls c = .checking) (hl : s.locked = false) (hs : s.state = .opened) :
    Step cfg s (.check c) (s.setCall c .finished)
  | probed {c t : ℕ} (hc : s.calls c = .checking) (hl : s.locked = false) (hs : s.state = .opened)
    (hlast : s.lastFailureAt = some t) (hover : cfg.resetTimeout ≤ s.now - t) :
    Step cfg s (.check c) ({ s with state := .halfOpen, probe := some c }.setCall c .running)
  | passed {c : ℕ} (hc : s.calls c = .checking) (hl : s.locked = false) (hs : s.state ≠ .opened) :
    Step cfg s (.check c) (s.setCall c .running)
  | ended {c : ℕ} {ok : Bool} (hc : s.calls c = .running) :
    Step cfg s (.finish c ok) (s.setCall c (if ok then .succeeded else .failed))
  | stored {c : ℕ} (hc : s.calls c = .succeeded) :
    Step cfg s (.store c) ({ s with failureCount := 0 }.setCall c .closing)
  | closed {c : ℕ} (hc : s.calls c = .closing) (hl : s.locked = false) :
    Step cfg s (.setClosed c) ({ s with state := .closed }.setCall c .finished)
  | counted {c : ℕ} (hc : s.calls c = .failed) :
    Step cfg s (.fetchAdd c) ({ s with failureCount := s.failureCount + 1 }.setCall c
      (if cfg.failureThreshold ≤ s.failureCount + 1 then .opening else .finished))
  | opened {c : ℕ} (hc : s.calls c = .opening) (hl : s.locked = false) :
    Step cfg s (.setOpen c) ({ s with state := .opened, locked := true }.setCall c .timing)
  | timed {c : ℕ} (hc : s.calls c = .timing) :
    Step cfg s (.setLast c) ({ s with lastFailureAt := some s.now, locked := false }.setCall c .finished)

end CircuitBreaker

def circuitBreaker (cfg : BreakerConfig) : System CircuitBreaker BreakerLabel :=
  ⟨fun s => ∃ now, s = .new now, CircuitBreaker.next cfg⟩

section Steps
variable {cfg : BreakerConfig} {s s' : CircuitBreaker} {l : BreakerLabel}

theorem breaker_step (hn : s.next cfg l = some s') : s.Step cfg l s' := by
  cases l with
  | tick now =>
    simp only [CircuitBreaker.next] at hn
    split at hn <;> cases hn
    exact .tick ‹_›
  | call c =>
    simp only [CircuitBreaker.next] at hn
    split at hn <;> cases hn
    exact .called ‹_›
  | check c =>
    simp only [CircuitBreaker.next] at hn
    split at hn <;> cases hn
    rename_i hc
    obtain ⟨hc, hl⟩ : s.calls c = .checking ∧ s.locked = false := by simpa using hc
    unfold CircuitBreaker.check
    split
    · rename_i hs
      split
      · rename_i t hlast
        split
        · exact .probed hc hl hs hlast ‹_›
        · exact .rejected hc hl hs
      · exact .rejected hc hl hs
    · rename_i hs
      exact .passed hc hl (by simp [hs])
    · rename_i hs
      exact .passed hc hl (by simp [hs])
  | finish c ok =>
    simp only [CircuitBreaker.next] at hn
    split at hn <;> cases hn
    exact .ended ‹_›
  | store c =>
    simp only [CircuitBreaker.next] at hn
    split at hn <;> cases hn
    exact .stored ‹_›
  | setClosed c =>
    simp only [CircuitBreaker.next] at hn
    split at hn <;> cases hn
    rename_i hc
    obtain ⟨hc, hl⟩ : s.calls c = .closing ∧ s.locked = false := by simpa using hc
    exact .closed hc hl
  | fetchAdd c =>
    simp only [CircuitBreaker.next] at hn
    split at hn <;> cases hn
    exact .counted ‹_›
  | setOpen c =>
    simp only [CircuitBreaker.next] at hn
    split at hn <;> cases hn
    rename_i hc
    obtain ⟨hc, hl⟩ : s.calls c = .opening ∧ s.locked = false := by simpa using hc
    exact .opened hc hl
  | setLast c =>
    simp only [CircuitBreaker.next] at hn
    split at hn <;> cases hn
    exact .timed ‹_›

/-! ## The lock, the counter and the state -/

/-- One call at most is between its two writes under the lock, and then the circuit is open. -/
structure CircuitBreaker.Lock (s : CircuitBreaker) : Prop where
  held : ∀ c, s.calls c = .timing → s.locked = true ∧ s.state = .opened
  one : ∀ c c', s.calls c = .timing → s.calls c' = .timing → c = c'
  last : s.state ≠ .closed → s.lastFailureAt ≠ none ∨ ∃ c, s.calls c = .timing

theorem lock_new (now : ℕ) : (CircuitBreaker.new now).Lock :=
  ⟨by simp [CircuitBreaker.new], by simp [CircuitBreaker.new], fun hs => absurd rfl hs⟩

theorem CircuitBreaker.Lock.of_call (h : s.Lock) {c : ℕ} {phase : CallPhase}
    (hcalls : s'.calls = Function.update s.calls c phase) (hphase : phase ≠ .timing) (hc : s.calls c ≠ .timing)
    (hlast : s'.lastFailureAt = s.lastFailureAt) (hclosed : s.state = .closed → s'.state = .closed)
    (hheld : ∀ c', s.calls c' = .timing → s'.locked = true ∧ s'.state = .opened) : s'.Lock := by
  have htiming : ∀ c', s'.calls c' = .timing → s.calls c' = .timing := by
    intro c' hc'
    rw [hcalls] at hc'
    exact (update_eq_cases hc').resolve_right fun h => hphase h.2
  refine ⟨fun c' hc' => hheld c' (htiming c' hc'), fun c₁ c₂ h₁ h₂ => h.one _ _ (htiming _ h₁) (htiming _ h₂),
    fun hs => ?_⟩
  rw [hlast]
  refine (h.last (mt hclosed hs)).imp_right fun ⟨c', hc'⟩ => ⟨c', ?_⟩
  have hne : c' ≠ c := by
    rintro rfl
    exact hc hc'
  rw [hcalls, Function.update_of_ne hne, hc']

theorem CircuitBreaker.Lock.step (h : s.Lock) (hs : s.Step cfg l s') : s'.Lock := by
  have hunlocked : s.locked = false → ∀ c, s.calls c ≠ .timing := by
    intro hl c hc
    rw [(h.held c hc).1] at hl
    cases hl
  cases hs with
  | tick _ => exact ⟨h.held, h.one, h.last⟩
  | called hc | rejected hc _ _ | passed hc _ _ | stored hc =>
    exact h.of_call rfl (by decide) (by simp [hc]) rfl id h.held
  | @ended c ok hc => exact h.of_call rfl (by cases ok <;> decide) (by simp [hc]) rfl id h.held
  | counted hc => exact h.of_call rfl (by split <;> decide) (by simp [hc]) rfl id h.held
  | probed hc hl hs _ _ =>
    refine h.of_call rfl (by decide) (by simp [hc]) rfl (fun hclosed => ?_)
      fun c' hc' => absurd hc' (hunlocked hl c')
    rw [hs] at hclosed
    cases hclosed
  | closed hc hl =>
    exact h.of_call rfl (by decide) (by simp [hc]) rfl (fun _ => rfl) fun c' hc' => absurd hc' (hunlocked hl c')
  | @opened c hc hl =>
    have htiming : ∀ c', Function.update s.calls c .timing c' = .timing → c' = c := by
      intro c' hc'
      exact ((update_eq_cases hc').resolve_left (hunlocked hl c')).1
    exact ⟨fun _ _ => ⟨rfl, rfl⟩, fun c₁ c₂ h₁ h₂ => (htiming c₁ h₁).trans (htiming c₂ h₂).symm,
      fun _ => .inr ⟨c, Function.update_self _ _ _⟩⟩
  | @timed c hc =>
    have hnone : ∀ c', Function.update s.calls c .finished c' ≠ .timing := by
      intro c' hc'
      by_cases hne : c' = c
      · rw [hne, Function.update_self] at hc'
        cases hc'
      · rw [Function.update_of_ne hne] at hc'
        exact hne (h.one c' c hc' hc)
    exact ⟨fun c' hc' => absurd hc' (hnone c'), fun c' _ hc' => absurd hc' (hnone c'),
      fun _ => .inl (Option.some_ne_none _)⟩

/-- A call has changed the counter, and will write the state. -/
def CircuitBreaker.writesState (s : CircuitBreaker) (c : ℕ) : Prop := s.calls c = .closing ∨ s.calls c = .opening

/-- The last call to write the state finds the counter as it has left it, below the threshold or not, and
the counter does not wrap around. -/
def CircuitBreaker.upToDate (cfg : BreakerConfig) (s : CircuitBreaker) : BreakerLabel → Prop
  | .setClosed c => s.failureCount < cfg.failureThreshold ∨ ∃ c' ≠ c, s.writesState c'
  | .setOpen c => cfg.failureThreshold ≤ s.failureCount ∨ ∃ c' ≠ c, s.writesState c'
  | .fetchAdd _ => s.failureCount.toNat + 1 < 2 ^ 64
  | _ => True

def CircuitBreaker.Agrees (cfg : BreakerConfig) (s : CircuitBreaker) : Prop :=
  s.state = .closed ↔ s.failureCount < cfg.failureThreshold

theorem writesState_other {c c' : ℕ} {phase : CallPhase} (hcalls : s'.calls = Function.update s.calls c phase)
    (hne : c' ≠ c) (hc' : s.writesState c') : s'.writesState c' := by
  unfold CircuitBreaker.writesState
  rw [hcalls, Function.update_of_ne hne]
  exact hc'

theorem writesState_kept {c c' : ℕ} {phase : CallPhase} (hcalls : s'.calls = Function.update s.calls c phase)
    (hc : ¬s.writesState c) (hc' : s.writesState c') : s'.writesState c' := by
  have hne : c' ≠ c := by
    rintro rfl
    exact hc hc'
  exact writesState_other hcalls hne hc'

/-- The counter and the state agree, or some call is about to write the state. -/
def CircuitBreaker.Settles (cfg : BreakerConfig) (s : CircuitBreaker) : Prop :=
  s.Agrees cfg ∨ ∃ c, s.writesState c

theorem CircuitBreaker.Settles.of_call (h : s.Settles cfg) {c : ℕ} {phase : CallPhase}
    (hcalls : s'.calls = Function.update s.calls c phase) (hc : ¬s.writesState c)
    (hagree : s.Agrees cfg → s'.Agrees cfg) : s'.Settles cfg :=
  h.imp hagree fun ⟨c', hc'⟩ => ⟨c', writesState_kept hcalls hc hc'⟩

theorem CircuitBreaker.Settles.of_write {c : ℕ} {phase : CallPhase} {p : Prop}
    (hcalls : s'.calls = Function.update s.calls c phase) (hok : p ∨ ∃ c' ≠ c, s.writesState c')
    (hagree : p → s'.Agrees cfg) : s'.Settles cfg :=
  hok.imp hagree fun ⟨c', hne, hc'⟩ => ⟨c', writesState_other hcalls hne hc'⟩

theorem lt_of_succ_lt {n m : UInt64} (hwrap : n.toNat + 1 < 2 ^ 64) (h : ¬m ≤ n + 1) : n < m ∧ n + 1 < m := by
  rw [UInt64.le_iff_toNat_le, UInt64.toNat_add, UInt64.toNat_one, Nat.mod_eq_of_lt hwrap] at h
  rw [UInt64.lt_iff_toNat_lt, UInt64.lt_iff_toNat_lt, UInt64.toNat_add, UInt64.toNat_one, Nat.mod_eq_of_lt hwrap]
  omega

theorem CircuitBreaker.Settles.step (h : s.Settles cfg) (hok : s.upToDate cfg l) (hs : s.Step cfg l s') :
    s'.Settles cfg := by
  cases hs with
  | tick _ => exact h
  | called hc | rejected hc _ _ | passed hc _ _ | timed hc =>
    exact h.of_call rfl (by simp [writesState, hc]) fun ha => ha
  | ended hc => exact h.of_call rfl (by simp [writesState, hc]) fun ha => ha
  | probed hc _ hs _ _ =>
    refine h.of_call rfl (by simp [writesState, hc]) fun ha => ?_
    have hnot : ¬s.failureCount < cfg.failureThreshold := fun hlt => by
      rw [ha.mpr hlt] at hs
      cases hs
    exact iff_of_false (by simp [setCall]) hnot
  | @stored c hc => exact .inr ⟨c, .inl (Function.update_self _ _ _)⟩
  | closed _ _ => exact .of_write rfl hok fun hlt => iff_of_true rfl hlt
  | @counted c hc =>
    by_cases hle : cfg.failureThreshold ≤ s.failureCount + 1
    · refine .inr ⟨c, .inr ?_⟩
      simp [setCall, hle]
    · obtain ⟨hlt, hlt'⟩ := lt_of_succ_lt hok hle
      refine h.of_call rfl (by simp [writesState, hc]) fun ha => ?_
      exact iff_of_true (ha.mpr hlt) hlt'
  | opened _ _ =>
    exact .of_write rfl hok fun hle => iff_of_false (by simp [setCall]) (UInt64.not_lt.mpr hle)

theorem CircuitBreaker.Step.idle (hs : s.Step cfg l s') {c : ℕ} (hc : s.calls c = .idle) (hl : l ≠ .call c) :
    s'.calls c = .idle := by
  have hother : ∀ c' phase, s.calls c' ≠ .idle → Function.update s.calls c' phase c = .idle := by
    intro c' phase hc'
    have hne : c ≠ c' := by
      rintro rfl
      exact hc' hc
    rw [Function.update_of_ne hne, hc]
  cases hs with
  | tick _ => exact hc
  | @called c' _ =>
    have hne : c ≠ c' := by
      rintro rfl
      exact hl rfl
    exact (Function.update_of_ne hne _ _).trans hc
  | rejected hc' _ _ | passed hc' _ _ | stored hc' | counted hc' | probed hc' _ _ _ _ | closed hc' _
  | opened hc' _ | timed hc' => exact hother _ _ (by simp [hc'])
  | ended hc' => exact hother _ _ (by simp [hc'])

end Steps

section Runs
variable {cfg : BreakerConfig} {h later earlier : List (CircuitBreaker × BreakerLabel)} {s s₀ : CircuitBreaker}
  {ok : CircuitBreaker → BreakerLabel → Prop}

theorem lock_of_run (hr : Run (circuitBreaker cfg) ok h s) : s.Lock := by
  refine Run.invariant (I := fun _ s => s.Lock) ?_ (fun _ _ _ _ _ hs _ hn => hs.step (breaker_step hn)) hr
  rintro _ ⟨now, rfl⟩
  exact lock_new now

/-- With no call under way the circuit is closed exactly while the counter is below the threshold, and an
open one knows when it failed. -/
theorem breaker_agrees_at_rest (hr : Run (circuitBreaker cfg) (fun s l => s.upToDate cfg l) h s)
    (hrest : ∀ c, s.calls c = .idle ∨ s.calls c = .finished) :
    (s.state = .closed ↔ s.failureCount < cfg.failureThreshold) ∧
      (s.state = .opened → s.lastFailureAt ≠ none) := by
  have hsettles : s.Settles cfg := by
    refine Run.invariant (I := fun _ s => s.Settles cfg) ?_
      (fun _ _ _ _ _ hs hok hn => hs.step hok (breaker_step hn)) hr
    rintro _ ⟨now, rfl⟩
    refine .inl (iff_of_true rfl ?_)
    have hpos := cfg.failureThreshold_pos
    rw [UInt64.le_iff_toNat_le] at hpos
    rw [UInt64.lt_iff_toNat_lt]
    exact hpos
  refine ⟨hsettles.resolve_right fun ⟨c, hc⟩ => ?_, fun hopen => ?_⟩
  · rcases hrest c with hr | hr <;> simp [CircuitBreaker.writesState, hr] at hc
  · refine ((lock_of_run hr).last (by simp [hopen])).resolve_right fun ⟨c, hc⟩ => ?_
    rcases hrest c with hr | hr <;> rw [hc] at hr <;> cases hr

theorem idle_of_run (hr : Run (circuitBreaker cfg) ok h s) {c : ℕ} (hc : .call c ∉ h.map Prod.snd) :
    s.calls c = .idle := by
  refine Run.invariant (I := fun h s => .call c ∉ h.map Prod.snd → s.calls c = .idle) ?_ ?_ hr hc
  · rintro _ ⟨now, rfl⟩ _
    rfl
  · intro h s l s' _ ih _ hn hc
    rw [List.map_cons, List.mem_cons, not_or] at hc
    exact (breaker_step hn).idle (ih hc.2) (Ne.symm hc.1)

end Runs

namespace Sample

def breakerConfig : BreakerConfig := ⟨1, 60, by decide⟩

theorem breaker_init : (circuitBreaker breakerConfig).init (.new 0) := ⟨0, rfl⟩

def counterKept (s : CircuitBreaker) : BreakerLabel → Bool
  | .setClosed _ => s.failureCount == 0
  | .setOpen _ => s.failureCount == 1
  | .fetchAdd _ => s.failureCount == 0
  | _ => true

theorem upToDate_of_counterKept (s : CircuitBreaker) (l : BreakerLabel) (h : counterKept s l = true) :
    s.upToDate breakerConfig l := by
  cases l with
  | setClosed c =>
    have hzero : s.failureCount = 0 := by simpa [counterKept] using h
    exact .inl (by rw [hzero]; decide)
  | setOpen c =>
    have hone : s.failureCount = 1 := by simpa [counterKept] using h
    exact .inl (by rw [hone]; decide)
  | fetchAdd c =>
    have hzero : s.failureCount = 0 := by simpa [counterKept] using h
    change s.failureCount.toNat + 1 < 2 ^ 64
    rw [hzero]
    decide
  | _ => trivial

def bothFinished (s : CircuitBreaker) : Bool := s.calls 0 == .finished && s.calls 1 == .finished

theorem breaker_rest {h : List (CircuitBreaker × BreakerLabel)} {s : CircuitBreaker}
    {ok : CircuitBreaker → BreakerLabel → Prop} (hr : Run (circuitBreaker breakerConfig) ok h s)
    (hcalls : ∀ c, .call c ∈ h.map Prod.snd → c = 0 ∨ c = 1) (hrest : bothFinished s = true) (c : ℕ) :
    s.calls c = .idle ∨ s.calls c = .finished := by
  simp only [bothFinished, Bool.and_eq_true, beq_iff_eq] at hrest
  by_cases hmem : .call c ∈ h.map Prod.snd
  · rcases hcalls c hmem with rfl | rfl
    · exact .inr hrest.1
    · exact .inr hrest.2
  · exact .inl (idle_of_run hr hmem)

end Sample

/-- A success and a failure, their futures running at the same time. -/
theorem breaker_agrees_at_rest_sample :
    ∃ h s, Run (circuitBreaker Sample.breakerConfig) (fun s l => s.upToDate Sample.breakerConfig l) h s ∧
      s.state = .opened ∧ s.lastFailureAt ≠ none := by
  obtain ⟨h, s, hrun, hls, hp⟩ := Run.exists_of_exec_labels (M := circuitBreaker Sample.breakerConfig)
    Sample.breaker_init
    [.call 0, .call 1, .check 0, .check 1, .finish 0 true, .finish 1 false, .store 0, .setClosed 0, .fetchAdd 1,
      .setOpen 1, .setLast 1]
    Sample.counterKept (fun _ s => s.state == .opened && Sample.bothFinished s) (by decide)
  simp only [Bool.and_eq_true, beq_iff_eq] at hp
  have hrest := Sample.breaker_rest hrun (by simp [hls]) hp.2
  have hrun := hrun.mono Sample.upToDate_of_counterKept
  exact ⟨h, s, hrun, hp.1, (breaker_agrees_at_rest hrun hrest).2 hp.1⟩

/-- A success and a failure cross: the counter is reset after it has reached the threshold, and the circuit
opens after it has been closed. -/
theorem breaker_disagrees_at_rest : ¬∀ cfg h s, Run (circuitBreaker cfg) (fun _ _ => True) h s →
    (∀ c, s.calls c = .idle ∨ s.calls c = .finished) →
    (s.state = .closed ↔ s.failureCount < cfg.failureThreshold) ∧
      (s.state = .opened → s.lastFailureAt ≠ none) := by
  intro hall
  obtain ⟨h, s, hrun, hls, hp⟩ := Run.exists_of_exec_labels (M := circuitBreaker Sample.breakerConfig)
    Sample.breaker_init
    [.call 0, .call 1, .check 0, .check 1, .finish 0 false, .finish 1 true, .fetchAdd 0, .store 1, .setClosed 1,
      .setOpen 0, .setLast 0]
    (fun _ _ => true) (fun _ s => s.state == .opened && s.failureCount == 0 && Sample.bothFinished s) (by decide)
  simp only [Bool.and_eq_true, beq_iff_eq] at hp
  have hrest := Sample.breaker_rest hrun (by simp [hls]) hp.2
  have hagree := (hall _ h s (hrun.mono fun _ _ _ => trivial) hrest).1
  rw [hp.1.1, hp.1.2] at hagree
  have hclosed : CircuitState.opened = .closed := hagree.mpr (by decide)
  cases hclosed

end JobScheduler
