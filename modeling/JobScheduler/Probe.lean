import JobScheduler.CircuitBreaker

namespace JobScheduler
open Transition

namespace CircuitBreaker

def admits (cfg : BreakerConfig) (s : CircuitBreaker) : BreakerLabel → Prop
  | .check c => (s.check cfg c).calls c = .running
  | _ => False

def probing (s : CircuitBreaker) (c : ℕ) : Prop := s.probe = some c ∧ s.calls c ≠ .finished

/-- While a probe is under way no other call checks the circuit or writes its state; and no success closes
an open one. -/
def keepsProbe (s : CircuitBreaker) : BreakerLabel → Prop
  | .check _ => s.state = .halfOpen → ∀ p, ¬s.probing p
  | .setClosed c => s.state ≠ .opened ∧ (s.state = .halfOpen → ∀ p, s.probing p → p = c)
  | .setOpen c => s.state = .halfOpen → ∀ p, s.probing p → p = c
  | _ => True

end CircuitBreaker

/-- Of the calls after an opening, none is let through while it is being recorded or before the timeout has
passed since, and after the first none until that one's outcome is recorded. -/
structure OneProbe (cfg : BreakerConfig) (h : List (CircuitBreaker × BreakerLabel)) : Prop where
  opening : ∀ q ∈ h, ∀ c, q.1.calls c = .timing → ¬q.1.admits cfg q.2
  waits : ∀ later s₀ c₀ earlier, h = later ++ (s₀, .setLast c₀) :: earlier →
    ∀ q ∈ later, q.1.admits cfg q.2 → s₀.now + cfg.resetTimeout ≤ q.1.now
  probes : ∀ later s₀ c₀ earlier, h = later ++ (s₀, .setLast c₀) :: earlier →
    ∀ l₂ s₁ c₁ l₁, later = l₂ ++ (s₁, .check c₁) :: l₁ → s₁.admits cfg (.check c₁) →
      (∀ q ∈ l₁, ¬q.1.admits cfg q.2) → ∀ q ∈ l₂, q.1.admits cfg q.2 → q.1.calls c₁ = .finished

section Steps
variable {cfg : BreakerConfig} {s s' : CircuitBreaker} {l : BreakerLabel} {c c₁ : ℕ}

theorem eq_check_of_next (hn : s.next cfg (.check c) = some s') : s' = s.check cfg c ∧ s.locked = false := by
  simp only [CircuitBreaker.next] at hn
  split at hn <;> cases hn
  rename_i hc
  have hl : s.calls c = .checking ∧ s.locked = false := by simpa using hc
  exact ⟨rfl, hl.2⟩

theorem elapsed_of_admits (ha : s.admits cfg l) (hs : s.state = .opened) :
    ∃ t, s.lastFailureAt = some t ∧ cfg.resetTimeout ≤ s.now - t := by
  cases l with
  | check c =>
    simp only [CircuitBreaker.admits, CircuitBreaker.check, hs] at ha
    split at ha
    · rename_i t hlast
      split at ha
      · exact ⟨t, hlast, ‹_›⟩
      · simp [CircuitBreaker.setCall] at ha
    · simp [CircuitBreaker.setCall] at ha
  | _ => exact ha.elim

theorem not_locked_of_admits (ha : s.admits cfg l) (hn : s.next cfg l = some s') : s.locked = false := by
  cases l with
  | check c => exact (eq_check_of_next hn).2
  | _ => exact ha.elim

/-! ## Until the timeout -/

def CircuitBreaker.WaitsSince (cfg : BreakerConfig) (t₀ : ℕ) (s : CircuitBreaker) : Prop :=
  t₀ ≤ s.now ∧ (t₀ + cfg.resetTimeout ≤ s.now ∨
    s.state = .opened ∧ ∃ t, s.lastFailureAt = some t ∧ t₀ ≤ t)

theorem CircuitBreaker.WaitsSince.step {t₀ : ℕ} (h : s.WaitsSince cfg t₀) (hok : s.keepsProbe l)
    (hs : s.Step cfg l s') : s'.WaitsSince cfg t₀ := by
  obtain ⟨hnow, hwait⟩ := h
  cases hs with
  | tick hle => exact ⟨hnow.trans hle, hwait.imp_left fun hover => hover.trans hle⟩
  | called _ | rejected _ _ _ | passed _ _ _ | ended _ | stored _ | counted _ => exact ⟨hnow, hwait⟩
  | probed _ _ _ hlast hover =>
    refine ⟨hnow, .inl (hwait.elim id ?_)⟩
    rintro ⟨_, t, ht, hle⟩
    rw [hlast] at ht
    cases ht
    change t₀ + cfg.resetTimeout ≤ s.now
    omega
  | closed _ _ => exact ⟨hnow, .inl (hwait.resolve_right fun hopen => hok.1 hopen.1)⟩
  | opened _ _ => exact ⟨hnow, hwait.imp_right fun hopen => ⟨rfl, hopen.2⟩⟩
  | timed _ => exact ⟨hnow, hwait.imp_right fun hopen => ⟨hopen.1, s.now, rfl, hnow⟩⟩

/-! ## Until the outcome of the probe -/

def CallPhase.underWay : CallPhase → Bool
  | .idle | .checking | .finished => false
  | .running | .succeeded | .closing | .failed | .opening | .timing => true

def CircuitBreaker.Probes (c₁ : ℕ) (s : CircuitBreaker) : Prop :=
  s.calls c₁ = .finished ∨
    s.probe = some c₁ ∧ (s.calls c₁).underWay = true ∧
      (s.state = .halfOpen ∨ s.locked = true ∧ s.calls c₁ = .timing)

theorem CircuitBreaker.Probes.of_call (h : s.Probes c₁) {phase : CallPhase}
    (hcalls : s'.calls = Function.update s.calls c phase) (hprobe : s'.probe = s.probe)
    (hstate : s'.state = s.state) (hlocked : s'.locked = s.locked) (hfin : s.calls c ≠ .finished)
    (htiming : s.calls c ≠ .timing)
    (hphase : (s.calls c).underWay = true → phase = .finished ∨ phase.underWay = true) : s'.Probes c₁ := by
  unfold CircuitBreaker.Probes
  rw [hprobe, hstate, hlocked]
  by_cases hc : c₁ = c
  · subst hc
    rw [hcalls, Function.update_self]
    obtain ⟨hp, hunder, hst⟩ := h.resolve_left hfin
    exact (hphase hunder).imp_right fun hph => ⟨hp, hph, .inl (hst.resolve_right fun ht => htiming ht.2)⟩
  · rw [hcalls, Function.update_of_ne hc]
    exact h

theorem CircuitBreaker.Probes.step (h : s.Probes c₁) (hlock : s.Lock) (hok : s.keepsProbe l)
    (hs : s.Step cfg l s') : s'.Probes c₁ := by
  -- the probe is the one call that may write the state
  have halone : s.calls c₁ ≠ .finished → s.locked = false → s.state = .halfOpen ∧ s.probing c₁ := by
    intro hfin hl
    obtain ⟨hp, hunder, hst⟩ := h.resolve_left hfin
    exact ⟨hst.resolve_right fun ht => by simp [hl] at ht, hp, hfin⟩
  cases hs with
  | tick _ => exact h
  | called hc | rejected hc _ _ | passed hc _ _ | stored hc =>
    exact h.of_call rfl rfl rfl rfl (by simp [hc]) (by simp [hc]) (by simp [hc, CallPhase.underWay])
  | @ended c ok hc =>
    refine h.of_call rfl rfl rfl rfl (by simp [hc]) (by simp [hc]) fun _ => .inr ?_
    cases ok <;> rfl
  | counted hc =>
    refine h.of_call rfl rfl rfl rfl (by simp [hc]) (by simp [hc]) fun _ => ?_
    split
    · exact .inr rfl
    · exact .inl rfl
  | @probed c t hc hl hopen _ _ =>
    by_cases hfin : s.calls c₁ = .finished
    · have hne : c₁ ≠ c := by
        rintro rfl
        simp [hc] at hfin
      exact .inl ((Function.update_of_ne hne _ _).trans hfin)
    · simp [(halone hfin hl).1] at hopen
  | @closed c hc hl =>
    refine .inl ?_
    by_cases hfin : s.calls c₁ = .finished
    · simp [CircuitBreaker.setCall, Function.update_apply, hfin]
    · obtain ⟨hhalf, hprobing⟩ := halone hfin hl
      rw [hok.2 hhalf c₁ hprobing]
      exact Function.update_self _ _ _
  | @opened c hc hl =>
    by_cases hfin : s.calls c₁ = .finished
    · have hne : c₁ ≠ c := by
        rintro rfl
        simp [hc] at hfin
      exact .inl ((Function.update_of_ne hne _ _).trans hfin)
    · obtain ⟨hhalf, hprobing⟩ := halone hfin hl
      obtain rfl := hok hhalf c₁ hprobing
      have hself : Function.update s.calls c₁ .timing c₁ = .timing := Function.update_self _ _ _
      exact .inr ⟨hprobing.1, congrArg CallPhase.underWay hself, .inr ⟨rfl, hself⟩⟩
  | @timed c hc =>
    refine .inl ?_
    by_cases hfin : s.calls c₁ = .finished
    · simp [CircuitBreaker.setCall, Function.update_apply, hfin]
    · -- the circuit is open, so the call that holds the lock is the probe
      obtain ⟨_, _, hst⟩ := h.resolve_left hfin
      have htiming := (hst.resolve_left fun hhalf => by simp [(hlock.held c hc).2] at hhalf).2
      rw [hlock.one c₁ c htiming hc]
      exact Function.update_self _ _ _

end Steps

section Runs
variable {cfg : BreakerConfig} {h later earlier : List (CircuitBreaker × BreakerLabel)} {s s₀ : CircuitBreaker}
  {c₀ : ℕ}

theorem opened_of_setLast {s₁ : CircuitBreaker} (hlock : s₀.Lock)
    (hn : (circuitBreaker cfg).next s₀ (.setLast c₀) = some s₁) :
    s₁.state = .opened ∧ s₁.now = s₀.now ∧ s₁.lastFailureAt = some s₀.now := by
  have hs : s₀.Step cfg (.setLast c₀) s₁ := breaker_step hn
  cases hs with
  | timed hc => exact ⟨(hlock.held _ hc).2, rfl, rfl⟩

theorem opened_since (hr : Run (circuitBreaker cfg) (fun s l => s.keepsProbe l)
    (later ++ (s₀, .setLast c₀) :: earlier) s) (hnone : ∀ q ∈ later, ¬q.1.admits cfg q.2) :
    s.state = .opened := by
  refine (Run.since (I := fun s => s.state = .opened) ?_ ?_ hr hnone).1
  · intro s₁ hn
    exact (opened_of_setLast (lock_of_run hr.split.1) hn).1
  · intro s l s' _ hopen hok hnot hn
    cases breaker_step hn with
    | tick _ | called _ | rejected _ _ _ | passed _ _ _ | ended _ | stored _ | counted _ | timed _ => exact hopen
    | opened _ _ => rfl
    | closed _ _ => exact absurd hopen hok.1
    | probed hc _ _ hlast hover =>
      refine absurd ?_ hnot
      change (s.check cfg _).calls _ = _
      rw [← (eq_check_of_next hn).1]
      exact Function.update_self _ _ _

/-- In a run in which only the probe touches the half-open circuit and no success closes an open one, every
opening is followed by the timeout, and by one probe. -/
theorem breaker_one_probe (hr : Run (circuitBreaker cfg) (fun s l => s.keepsProbe l) h s) : OneProbe cfg h := by
  -- a call let through was let through by a step of the run
  have hstep : ∀ q ∈ h, q.1.admits cfg q.2 → q.1.locked = false ∧ q.1.Lock ∧ q.1.keepsProbe q.2 := by
    intro q hq ha
    obtain ⟨l₁, l₂, rfl⟩ := List.append_of_mem hq
    obtain ⟨hrun, hok, s₁, hn⟩ := hr.split
    exact ⟨not_locked_of_admits ha hn, lock_of_run hrun, hok⟩
  refine ⟨fun q hq c hc ha => ?_, ?_, ?_⟩
  · obtain ⟨hl, hlock, _⟩ := hstep q hq ha
    rw [(hlock.held c hc).1] at hl
    cases hl
  · rintro later s₀ c₀ earlier rfl q hq ha
    have hwait : q.1.WaitsSince cfg s₀.now := by
      refine (Run.ever_since (I := fun s => s.WaitsSince cfg s₀.now) ?_ ?_ hr).2 q hq
      · intro s₁ hn
        obtain ⟨hopen, hnow, hlast⟩ := opened_of_setLast (lock_of_run hr.split.1) hn
        exact ⟨hnow.ge, .inr ⟨hopen, _, hlast, le_rfl⟩⟩
      · intro s l s' _ hI hok hn
        exact hI.step hok (breaker_step hn)
    obtain ⟨hnow, hover | ⟨hopen, t, hlast, hle⟩⟩ := hwait
    · exact hover
    · obtain ⟨t', hlast', hover⟩ := elapsed_of_admits ha hopen
      rw [hlast] at hlast'
      cases hlast'
      omega
  · rintro _ s₀ c₀ earlier rfl l₂ s₁ c₁ l₁ rfl hfirst hnone q hq ha
    rw [List.append_assoc, List.cons_append] at hr hstep
    obtain ⟨hbefore, hok₁, s₂, hn₁⟩ := hr.split
    have hopen := opened_since hbefore hnone
    have hprobes : q.1.Probes c₁ := by
      refine (Run.ever_since (I := fun s => s.Probes c₁) ?_ ?_ hr).2 q hq
      · intro s₂ (hn : s₁.next cfg (.check c₁) = some s₂)
        have hrunning : s₂.calls c₁ = .running := by
          rw [(eq_check_of_next hn).1]
          exact hfirst
        cases breaker_step hn with
        | rejected _ _ _ => simp [CircuitBreaker.setCall] at hrunning
        | passed _ _ hnot => exact absurd hopen hnot
        | probed _ _ _ _ _ => exact .inr ⟨rfl, by rw [hrunning]; rfl, .inl rfl⟩
      · intro s l s' hreach hI hok hn
        obtain ⟨h', hrun⟩ := hreach
        exact hI.step (lock_of_run hrun) hok (breaker_step hn)
    obtain ⟨hl, _, hok⟩ := hstep q (List.mem_append_left _ hq) ha
    by_contra hfin
    obtain ⟨hp, _, hst⟩ := hprobes.resolve_left hfin
    have hhalf : q.1.state = .halfOpen := hst.resolve_right fun ht => by simp [hl] at ht
    obtain ⟨sq, lq⟩ := q
    cases lq with
    | check c => exact hok hhalf c₁ ⟨hp, hfin⟩
    | _ => exact ha

end Runs

namespace Sample

def oneByOne (s : CircuitBreaker) : BreakerLabel → Bool
  | .check _ | .setOpen _ => s.state != .halfOpen
  | .setClosed c => s.state == .halfOpen && s.probe == some c
  | _ => true

theorem keepsProbe_of_oneByOne (s : CircuitBreaker) (l : BreakerLabel) (h : oneByOne s l = true) :
    s.keepsProbe l := by
  cases l with
  | check c | setOpen c =>
    intro hhalf
    simp [oneByOne, hhalf] at h
  | setClosed c =>
    simp only [oneByOne, Bool.and_eq_true, beq_iff_eq] at h
    refine ⟨by simp [h.1], fun _ p hp => ?_⟩
    have hsome := hp.1.symm.trans h.2
    cases hsome
    rfl
  | _ => trivial

def bothThrough (q : CircuitBreaker × BreakerLabel) : Bool :=
  match q.2 with
  | .check c => (q.1.check breakerConfig c).calls c == .running && q.1.calls 1 != .finished
  | _ => true

end Sample

/-- A failure, and a minute later a probe that closes the circuit for the call after it. -/
theorem breaker_one_probe_sample :
    ∃ h s, Run (circuitBreaker Sample.breakerConfig) (fun s l => s.keepsProbe l) h s ∧ s.calls 2 = .running ∧
      OneProbe Sample.breakerConfig h := by
  obtain ⟨h, s, hrun, hp⟩ := Run.exists_of_exec (M := circuitBreaker Sample.breakerConfig) Sample.breaker_init
    [.call 0, .check 0, .finish 0 false, .fetchAdd 0, .setOpen 0, .setLast 0, .tick 60, .call 1, .check 1,
      .finish 1 true, .store 1, .setClosed 1, .call 2, .check 2]
    Sample.oneByOne (fun _ s => s.calls 2 == .running) (by decide)
  have hrun := hrun.mono Sample.keepsProbe_of_oneByOne
  exact ⟨h, s, hrun, by simpa using hp, breaker_one_probe hrun⟩

/-- A call that finds the circuit half-open is let through beside the probe. -/
theorem breaker_two_probes : ¬∀ cfg h s, Run (circuitBreaker cfg) (fun _ _ => True) h s → OneProbe cfg h := by
  intro hall
  obtain ⟨h, s, hrun, hls, hp⟩ := Run.exists_of_exec_labels (M := circuitBreaker Sample.breakerConfig)
    Sample.breaker_init
    [.call 0, .check 0, .finish 0 false, .fetchAdd 0, .setOpen 0, .setLast 0, .tick 60, .call 1, .check 1, .call 2,
      .check 2]
    (fun _ _ => true) (fun h _ => h.all Sample.bothThrough) (by decide)
  have hone := hall _ h s (hrun.mono fun _ _ _ => trivial)
  simp only [List.reverse_cons, List.reverse_nil, List.nil_append, List.cons_append, List.map_eq_cons_iff] at hls
  obtain ⟨⟨s₂, _⟩, _, rfl, rfl, q₂, _, rfl, hq₂, ⟨s₁, _⟩, _, rfl, rfl, q₁, _, rfl, hq₁, q₀, _, rfl, hq₀, ⟨s₀, _⟩,
    earlier, rfl, rfl, _⟩ := hls
  simp only [List.all_cons, Sample.bothThrough, Bool.and_eq_true, beq_iff_eq, bne_iff_ne] at hp
  obtain ⟨⟨hsecond, hrunning⟩, _, ⟨hfirst, _⟩, _⟩ := hp
  refine hrunning (hone.probes [_, _, _, _, _] s₀ 0 earlier rfl [_, _] s₁ 1 [_, _] rfl hfirst ?_ _
    List.mem_cons_self hsecond)
  intro q hq
  rcases List.mem_pair.mp hq with rfl | rfl
  · simp [hq₁, CircuitBreaker.admits]
  · simp [hq₀, CircuitBreaker.admits]

end JobScheduler
