import Mathlib.Tactic

namespace Transition

/-- A system that moves by labelled steps; `next s l` is `none` where `l` is not enabled. -/
structure System (σ ℓ : Type) where
  init : σ → Prop
  next : σ → ℓ → Option σ

variable {σ ℓ σ' ℓ' : Type}

/-- The runs whose every step meets `ok`, with the steps taken so far (latest first),
each beside the state it was taken in. -/
inductive Run (M : System σ ℓ) (ok : σ → ℓ → Prop) : List (σ × ℓ) → σ → Prop
  | start {s : σ} : M.init s → Run M ok [] s
  | step {h : List (σ × ℓ)} {s s' : σ} {l : ℓ} :
      Run M ok h s → ok s l → M.next s l = some s' → Run M ok ((s, l) :: h) s'

/-- Some run whose every step meets `ok` ends in `s`. -/
def Reachable (M : System σ ℓ) (ok : σ → ℓ → Prop) (s : σ) : Prop := ∃ h, Run M ok h s

variable {M : System σ ℓ} {M' : System σ' ℓ'} {ok ok₁ : σ → ℓ → Prop} {ok' : σ' → ℓ' → Prop}

theorem Run.mono {h : List (σ × ℓ)} {s : σ} (hr : Run M ok h s) (himp : ∀ s l, ok s l → ok₁ s l) :
    Run M ok₁ h s := by
  induction hr with
  | start hi => exact .start hi
  | step _ hok hn ih => exact .step ih (himp _ _ hok) hn

theorem Run.ok_of_mem {h : List (σ × ℓ)} {s : σ} (hr : Run M ok h s) {q : σ × ℓ} (hq : q ∈ h) :
    ok q.1 q.2 := by
  induction hr with
  | start _ => cases hq
  | step _ hok _ ih =>
    rcases List.mem_cons.mp hq with rfl | hq
    · exact hok
    · exact ih hq

theorem Run.reachable {h : List (σ × ℓ)} {s : σ} (hr : Run M ok h s) : Reachable M ok s := ⟨h, hr⟩

theorem Reachable.start {s : σ} (hi : M.init s) : Reachable M ok s := ⟨[], .start hi⟩

theorem Reachable.step {s s' : σ} {l : ℓ} (hr : Reachable M ok s) (hok : ok s l)
    (hn : M.next s l = some s') : Reachable M ok s' := by
  obtain ⟨h, hr⟩ := hr
  exact ⟨_, .step hr hok hn⟩

theorem Reachable.mono {s : σ} (hr : Reachable M ok s) (himp : ∀ s l, ok s l → ok₁ s l) :
    Reachable M ok₁ s := by
  obtain ⟨h, hr⟩ := hr
  exact ⟨h, hr.mono himp⟩

/-- What holds at the start and is kept, step after step, along with the history. -/
theorem Run.invariant {I : List (σ × ℓ) → σ → Prop} (hinit : ∀ s, M.init s → I [] s)
    (hstep : ∀ h s l s', Run M ok h s → I h s → ok s l → M.next s l = some s' → I ((s, l) :: h) s')
    {h : List (σ × ℓ)} {s : σ} (hr : Run M ok h s) : I h s := by
  induction hr with
  | start hi => exact hinit _ hi
  | step hrun hok hn ih => exact hstep _ _ _ _ hrun ih hok hn

/-- What holds at the start and is kept by every admitted step holds in every state reached. -/
theorem Reachable.invariant {I : σ → Prop} (hinit : ∀ s, M.init s → I s)
    (hstep : ∀ s l s', Reachable M ok s → I s → ok s l → M.next s l = some s' → I s')
    {s : σ} (hr : Reachable M ok s) : I s := by
  obtain ⟨h, hr⟩ := hr
  refine Run.invariant (I := fun _ s => I s) hinit ?_ hr
  intro h s l s' hrun
  exact hstep s l s' hrun.reachable

theorem Run.split {later earlier : List (σ × ℓ)} {q : σ × ℓ} {s : σ}
    (hr : Run M ok (later ++ q :: earlier) s) :
    Run M ok earlier q.1 ∧ ok q.1 q.2 ∧ ∃ s₁, M.next q.1 q.2 = some s₁ := by
  induction later generalizing s with
  | nil =>
    cases hr with
    | step hrun hok hn => exact ⟨hrun, hok, _, hn⟩
  | cons q' later ih =>
    cases hr with
    | step hrun _ _ => exact ih hrun

/-- What a step of the history brings about, and every later one keeps unless it is a `stop`. -/
theorem Run.since {I : σ → Prop} {stop : σ → ℓ → Prop} {q : σ × ℓ}
    (hstart : ∀ s₁, M.next q.1 q.2 = some s₁ → I s₁)
    (hkeep : ∀ s l s', Reachable M ok s → I s → ok s l → ¬stop s l → M.next s l = some s' → I s')
    {later earlier : List (σ × ℓ)} {s : σ} (hr : Run M ok (later ++ q :: earlier) s)
    (hstop : ∀ p ∈ later, ¬stop p.1 p.2) : I s ∧ ∀ p ∈ later, I p.1 := by
  induction later generalizing s with
  | nil =>
    cases hr with
    | step hrun hok hn => exact ⟨hstart s hn, by simp⟩
  | cons p later ih =>
    cases hr with
    | step hrun hok hn =>
      obtain ⟨hI, hall⟩ := ih hrun fun p hp => hstop p (List.mem_cons_of_mem _ hp)
      refine ⟨hkeep _ _ _ hrun.reachable hI hok (hstop _ List.mem_cons_self) hn, fun p hp => ?_⟩
      rcases List.mem_cons.mp hp with rfl | hp
      · exact hI
      · exact hall p hp

theorem Run.ever_since {I : σ → Prop} {q : σ × ℓ} (hstart : ∀ s₁, M.next q.1 q.2 = some s₁ → I s₁)
    (hkeep : ∀ s l s', Reachable M ok s → I s → ok s l → M.next s l = some s' → I s')
    {later earlier : List (σ × ℓ)} {s : σ} (hr : Run M ok (later ++ q :: earlier) s) :
    I s ∧ ∀ p ∈ later, I p.1 :=
  @Run.since σ ℓ M ok I (fun _ _ => False) q hstart (fun s l s' hreach hI hok _ => hkeep s l s' hreach hI hok)
    later earlier s hr fun _ _ => id

/-- What a state shows has been so from the start, or is the work of the last step that changed it. -/
theorem Run.last_change {τ : Type} (f : σ → τ) {h : List (σ × ℓ)} {s : σ} (hr : Run M ok h s) :
    ((∃ s₀, M.init s₀ ∧ f s₀ = f s) ∧ ∀ q ∈ h, f q.1 = f s) ∨
      ∃ q earlier s₁, q :: earlier <:+ h ∧ Run M ok earlier q.1 ∧ M.next q.1 q.2 = some s₁ ∧ f q.1 ≠ f s₁ ∧
        f s₁ = f s := by
  induction hr with
  | start hi => exact .inl ⟨⟨_, hi, rfl⟩, by simp⟩
  | @step h s s' l hrun hok hn ih =>
    by_cases hsame : f s = f s'
    · rcases ih with ⟨hinit, hall⟩ | ⟨q, earlier, s₁, hsuffix, hrest⟩
      · rw [hsame] at hinit hall
        exact .inl ⟨hinit, List.forall_mem_cons.mpr ⟨hsame, hall⟩⟩
      · rw [hsame] at hrest
        exact .inr ⟨q, earlier, s₁, hsuffix.trans (List.suffix_cons _ _), hrest⟩
    · exact .inr ⟨(s, l), h, s', List.suffix_refl _, hrun, hn, hsame, rfl⟩

theorem update_eq_cases {α β : Type} [DecidableEq α] {f : α → β} {a b : α} {v w : β}
    (h : Function.update f a v b = w) : f b = w ∨ b = a ∧ v = w := by
  rw [Function.update_apply] at h
  split at h
  · exact .inr ⟨‹_›, h⟩
  · exact .inl h

/-- A finer system, seen through `f`, only takes steps of `M` or stands still. -/
theorem Reachable.project (f : σ' → σ) (hinit : ∀ s, M'.init s → M.init (f s))
    (hstep : ∀ s l s', Reachable M' ok' s → ok' s l → M'.next s l = some s' →
      f s' = f s ∨ ∃ k, ok (f s) k ∧ M.next (f s) k = some (f s'))
    {s : σ'} (hr : Reachable M' ok' s) : Reachable M ok (f s) := by
  refine Reachable.invariant (I := fun s => Reachable M ok (f s)) ?_ ?_ hr
  · intro s hi
    exact .start (hinit s hi)
  · intro s l s' hreach ih hok hn
    rcases hstep s l s' hreach hok hn with he | ⟨k, hk, hnk⟩
    · rw [he]
      exact ih
    · exact ih.step hk hnk

/-- Take the listed steps one after the other, recording each. -/
def exec (M : System σ ℓ) : List (σ × ℓ) → σ → List ℓ → Option (List (σ × ℓ) × σ)
  | h, s, [] => some (h, s)
  | h, s, l :: ls => (M.next s l).bind fun s' => exec M ((s, l) :: h) s' ls

theorem Run.of_exec {ls : List ℓ} {h h' : List (σ × ℓ)} {s s' : σ} (hr : Run M ok h s)
    (he : exec M h s ls = some (h', s')) (hok : ∀ q ∈ h', ok q.1 q.2) : Run M ok h' s' := by
  have hsub : ∀ (ls : List ℓ) (h : List (σ × ℓ)) (s : σ),
      exec M h s ls = some (h', s') → ∀ q ∈ h, q ∈ h' := by
    intro ls
    induction ls with
    | nil =>
      intro h s he q hq
      cases he
      exact hq
    | cons l ls ih =>
      intro h s he q hq
      obtain ⟨s₁, _, he₁⟩ := Option.bind_eq_some_iff.mp he
      exact ih _ _ he₁ q (List.mem_cons_of_mem _ hq)
  induction ls generalizing h s with
  | nil =>
    cases he
    exact hr
  | cons l ls ih =>
    obtain ⟨s₁, hn, he₁⟩ := Option.bind_eq_some_iff.mp he
    have hl : ok s l := hok (s, l) (hsub ls _ _ he₁ _ List.mem_cons_self)
    exact ih (.step hr hl hn) he₁

/-- A run found by executing labels, each step of it checked, that ends with `P`. -/
theorem Run.exists_of_exec {s₀ : σ} (hi : M.init s₀) (ls : List ℓ) (okb : σ → ℓ → Bool)
    (P : List (σ × ℓ) → σ → Bool)
    (h : ((exec M [] s₀ ls).any fun e => (e.1.all fun q => okb q.1 q.2) && P e.1 e.2) = true) :
    ∃ h s, Run M (fun s l => okb s l = true) h s ∧ P h s = true := by
  cases he : exec M [] s₀ ls with
  | none => simp [he] at h
  | some e =>
    obtain ⟨h', s'⟩ := e
    simp only [he, Option.any_some, Bool.and_eq_true, List.all_eq_true] at h
    exact ⟨h', s', (Run.start hi).of_exec he h.1, h.2⟩

theorem exec_labels {ls : List ℓ} {h h' : List (σ × ℓ)} {s s' : σ} (he : exec M h s ls = some (h', s')) :
    h'.map Prod.snd = ls.reverse ++ h.map Prod.snd := by
  induction ls generalizing h s with
  | nil =>
    cases he
    rfl
  | cons l ls ih =>
    obtain ⟨s₁, _, he₁⟩ := Option.bind_eq_some_iff.mp he
    simpa using ih he₁

theorem Run.exists_of_exec_labels {s₀ : σ} (hi : M.init s₀) (ls : List ℓ) (okb : σ → ℓ → Bool)
    (P : List (σ × ℓ) → σ → Bool)
    (h : ((exec M [] s₀ ls).any fun e => (e.1.all fun q => okb q.1 q.2) && P e.1 e.2) = true) :
    ∃ h s, Run M (fun s l => okb s l = true) h s ∧ h.map Prod.snd = ls.reverse ∧ P h s = true := by
  obtain ⟨e, he, hp⟩ := Option.any_eq_true _ _ |>.mp h
  simp only [Bool.and_eq_true, List.all_eq_true] at hp
  exact ⟨e.1, e.2, (Run.start hi).of_exec he hp.1, by simpa using exec_labels he, hp.2⟩

/-- The listed steps can be taken one after the other from `s`, and end with `P`. -/
def Leads (M : System σ ℓ) (P : σ → Prop) : σ → List ℓ → Prop
  | s, [] => P s
  | s, l :: ls => ∃ s', M.next s l = some s' ∧ Leads M P s' ls

theorem Leads.append {P Q : σ → Prop} {ls ls' : List ℓ} {s : σ} (hl : Leads M P s ls)
    (hnext : ∀ s', P s' → Leads M Q s' ls') : Leads M Q s (ls ++ ls') := by
  induction ls generalizing s with
  | nil => exact hnext s hl
  | cons l ls ih =>
    obtain ⟨s', hn, hl⟩ := hl
    exact ⟨s', hn, ih hl⟩

theorem Leads.mono {P Q : σ → Prop} {ls : List ℓ} {s : σ} (hl : Leads M P s ls) (himp : ∀ s', P s' → Q s') :
    Leads M Q s ls := by
  rw [← List.append_nil ls]
  exact hl.append himp

theorem Leads.run {P : σ → Prop} {ls : List ℓ} {h : List (σ × ℓ)} {s : σ} (hl : Leads M P s ls)
    (hr : Run M (fun _ _ => True) h s) :
    ∃ h' s', Run M (fun _ _ => True) h' s' ∧ h'.map Prod.snd = ls.reverse ++ h.map Prod.snd ∧ P s' := by
  induction ls generalizing h s with
  | nil => exact ⟨h, s, hr, rfl, hl⟩
  | cons l ls ih =>
    obtain ⟨s₁, hn, hl⟩ := hl
    obtain ⟨h', s', hr', hlabels, hp⟩ := ih hl (.step hr trivial hn)
    exact ⟨h', s', hr', by simpa using hlabels, hp⟩

/-! ## Tasks that recur -/

/-- A task that is repeated with a period, and is late by at most `late`: it is due next at `due`, and
ran last at `last`. -/
structure Periodic (period late now due last : ℤ) : Prop where
  within : due ≤ last + period
  past : last ≤ now
  soon : now ≤ due + late

namespace Periodic
variable {period late now now' due last : ℤ}

theorem start (hp : 0 ≤ period) (hl : 0 ≤ late) : Periodic period late now now (now - period) :=
  ⟨by linarith, by linarith, by linarith⟩

theorem later (h : Periodic period late now due last) (hle : now ≤ now') (hs : now' ≤ due + late) :
    Periodic period late now' due last :=
  ⟨h.within, h.past.trans hle, hs⟩

theorem run (h : Periodic period late now due last) (hd : due ≤ now) (hp : 0 ≤ period) :
    Periodic period late now (due + period) now :=
  ⟨by linarith, le_rfl, by linarith [h.soon]⟩

theorem now_le (h : Periodic period late now due last) : now ≤ last + period + late := by
  linarith [h.within, h.soon]

end Periodic

section Task
variable {σ ℓ : Type} {M : System σ ℓ} {ok : σ → ℓ → Prop}

/-- A step that is not the task's: it keeps what holds since the last run, and the clock does not pass the
time at which the next one is late. -/
structure Waits (clock due : σ → ℤ) (late : ℤ) (P : σ → ℤ → Prop) (s s' : σ) : Prop where
  due_eq : due s' = due s
  clock_le : clock s ≤ clock s'
  soon : clock s' = clock s ∨ clock s' ≤ due s + late
  keep : ∀ t, t ≤ clock s → P s t → P s' t

/-- A run of the task, not before it is due. -/
structure Runs (clock due : σ → ℤ) (period : ℤ) (P : σ → ℤ → Prop) (s s' : σ) : Prop where
  ready : due s ≤ clock s
  clock_eq : clock s' = clock s
  due_eq : due s' = due s + period
  done : P s' (clock s)

/-- What the task establishes whenever it runs, and the other steps keep, holds since its last run, and that
is not longer ago than a period and the delay. -/
theorem Reachable.periodic (clock due : σ → ℤ) {period late : ℤ} {P : σ → ℤ → Prop}
    (hp : 0 ≤ period) (hl : 0 ≤ late) (hinit : ∀ s, M.init s → due s = clock s ∧ ∀ t, P s t)
    (hstep : ∀ s l s', Reachable M ok s → ok s l → M.next s l = some s' →
      Waits clock due late P s s' ∨ Runs clock due period P s s')
    {s : σ} (hr : Reachable M ok s) : ∃ last, Periodic period late (clock s) (due s) last ∧ P s last := by
  refine Reachable.invariant (I := fun s => ∃ last, Periodic period late (clock s) (due s) last ∧ P s last)
    ?_ ?_ hr
  · intro s hi
    obtain ⟨hdue, hP⟩ := hinit s hi
    exact ⟨clock s - period, by rw [hdue]; exact .start hp hl, hP _⟩
  · rintro s l s' hreach ⟨last, hper, hP⟩ hok hn
    rcases hstep s l s' hreach hok hn with hwait | hrun
    · refine ⟨last, ?_, hwait.keep last hper.past hP⟩
      rw [hwait.due_eq]
      apply hper.later hwait.clock_le
      rcases hwait.soon with hsame | hsoon
      · rw [hsame]
        exact hper.soon
      · exact hsoon
    · refine ⟨clock s, ?_, hrun.done⟩
      rw [hrun.clock_eq, hrun.due_eq]
      exact hper.run hrun.ready hp

end Task

end Transition
