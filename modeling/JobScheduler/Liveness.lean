import JobScheduler.Runs

namespace Transition

/-- An infinite run whose every step meets `ok`. -/
structure Behaviour {σ ℓ : Type} (M : System σ ℓ) (ok : σ → ℓ → Prop) where
  state : ℕ → σ
  label : ℕ → ℓ
  init : M.init (state 0)
  admitted : ∀ n, ok (state n) (label n)
  next : ∀ n, M.next (state n) (label n) = some (state (n + 1))

def Recurs (p : ℕ → Prop) : Prop := ∀ n, ∃ m, n ≤ m ∧ p m

theorem Recurs.mono {p q : ℕ → Prop} (h : Recurs p) (himp : ∀ n, p n → q n) : Recurs q := by
  intro n
  obtain ⟨m, hm, hp⟩ := h n
  exact ⟨m, hm, himp m hp⟩

namespace Behaviour
variable {σ ℓ : Type} {M : System σ ℓ} {ok : σ → ℓ → Prop} (b : Behaviour M ok)

theorem reachable (n : ℕ) : Reachable M ok (b.state n) := by
  induction n with
  | zero => exact .start b.init
  | succ n ih => exact ih.step (b.admitted n) (b.next n)

def states (M : System σ ℓ) (s₀ : σ) (label : ℕ → ℓ) : ℕ → σ
  | 0 => s₀
  | n + 1 => (M.next (states M s₀ label n) (label n)).getD (states M s₀ label n)

def ofLabels {s₀ : σ} (hi : M.init s₀) (label : ℕ → ℓ)
    (hok : ∀ n, ok (states M s₀ label n) (label n))
    (hn : ∀ n, (M.next (states M s₀ label n) (label n)).isSome = true) : Behaviour M ok where
  state := states M s₀ label
  label := label
  init := hi
  admitted := hok
  next := by
    intro n
    obtain ⟨s', hs⟩ := Option.isSome_iff_exists.mp (hn n)
    rw [states, hs]
    rfl

variable {b} {n : ℕ}

theorem persists {I : σ → Prop} (hI : I (b.state n))
    (hstep : ∀ s l s', Reachable M ok s → I s → M.next s l = some s' → I s') {m : ℕ} (hm : n ≤ m) :
    I (b.state m) := by
  induction m, hm using Nat.le_induction with
  | base => exact hI
  | succ m _ ih => exact hstep _ _ _ (b.reachable m) ih (b.next m)

theorem holds_or_ended {P Q : σ → Prop} (hP : P (b.state n))
    (hstep : ∀ s l s', Reachable M ok s → P s → M.next s l = some s' → P s' ∨ Q s') {m : ℕ} (hm : n ≤ m) :
    P (b.state m) ∨ ∃ k, n ≤ k ∧ Q (b.state k) := by
  induction m, hm using Nat.le_induction with
  | base => exact .inl hP
  | succ m hm ih =>
    rcases ih with hPm | hQ
    · rcases hstep _ _ _ (b.reachable m) hPm (b.next m) with hP' | hQ'
      · exact .inl hP'
      · exact .inr ⟨m + 1, by omega, hQ'⟩
    · exact .inr hQ

/-- A step that ends `P` and is taken again and again: what holds of the later states besides, `R`,
only has to hold from some moment on. -/
theorem ends_of_recurs {P Q R : σ → Prop} {A : ℓ → Prop} (hP : P (b.state n))
    (hstep : ∀ s l s', Reachable M ok s → P s → M.next s l = some s' → P s' ∨ Q s')
    (hR : ∃ k, ∀ m, k ≤ m → R (b.state m)) (hA : Recurs fun m => A (b.label m))
    (hends : ∀ s l s', Reachable M ok s → P s → R s → A l → M.next s l = some s' → Q s') :
    ∃ m, n ≤ m ∧ Q (b.state m) := by
  obtain ⟨k, hR⟩ := hR
  obtain ⟨m, hm, hAm⟩ := hA (max n k)
  have hnm : n ≤ m := (le_max_left n k).trans hm
  rcases holds_or_ended hP hstep hnm with hPm | hQ
  · exact ⟨m + 1, by omega, hends _ _ _ (b.reachable m) hPm (hR m ((le_max_right n k).trans hm)) hAm (b.next m)⟩
  · exact hQ

/-- A kind of step that is taken whenever it is enabled from some moment on. -/
def WeaklyFair (b : Behaviour M ok) (enabled : σ → Prop) (A : ℓ → Prop) : Prop :=
  ∀ n, (∀ m, n ≤ m → enabled (b.state m)) → ∃ m, n ≤ m ∧ A (b.label m)

/-- What the other steps keep, and what brings a step of the kind about, holds when that step is taken. -/
theorem holds_until_taken {P : σ → Prop} {A : ℓ → Prop} (hP : P (b.state n))
    (hkeep : ∀ m, n ≤ m → P (b.state m) → ¬A (b.label m) → P (b.state (m + 1)))
    (hA : (∀ m, n ≤ m → P (b.state m)) → ∃ m, n ≤ m ∧ A (b.label m)) :
    ∃ m, n ≤ m ∧ A (b.label m) ∧ P (b.state m) := by
  by_contra hno
  push Not at hno
  have hall : ∀ m, n ≤ m → P (b.state m) := by
    intro m hm
    induction m, hm using Nat.le_induction with
    | base => exact hP
    | succ m hm ih => exact hkeep m hm ih fun hAm => hno m hm hAm ih
  obtain ⟨m, hm, hAm⟩ := hA hall
  exact hno m hm hAm (hall m hm)

/-- What ends, or else comes back with a lower rank, ends. -/
theorem ends_of_rank {P Q : σ → Prop} (rank : σ → ℕ)
    (hdescend : ∀ m, n ≤ m → P (b.state m) →
      ∃ k, m ≤ k ∧ (Q (b.state k) ∨ P (b.state k) ∧ rank (b.state k) < rank (b.state m)))
    {m : ℕ} (hm : n ≤ m) (hP : P (b.state m)) : ∃ k, m ≤ k ∧ Q (b.state k) := by
  induction hr : rank (b.state m) using Nat.strong_induction_on generalizing m with
  | h r ih =>
    obtain ⟨k, hk, hQ | ⟨hPk, hlt⟩⟩ := hdescend m hm hP
    · exact ⟨k, hk, hQ⟩
    · obtain ⟨k', hk', hQ⟩ := ih _ (hr ▸ hlt) (hm.trans hk) hPk rfl
      exact ⟨k', hk.trans hk', hQ⟩

end Behaviour

/-! ## Standing still -/

def System.stutter {σ ℓ : Type} (M : System σ ℓ) : System σ (Option ℓ) where
  init := M.init
  next s
    | none => some s
    | some l => M.next s l

section Stutter
variable {σ ℓ σ' ℓ' : Type} {M : System σ ℓ} {M' : System σ' ℓ'} {ok : σ → ℓ → Prop} {ok' : σ' → ℓ' → Prop}

theorem System.stutter_cases {s s' : σ} {l : Option ℓ} (h : M.stutter.next s l = some s') :
    s' = s ∨ ∃ k, l = some k ∧ M.next s k = some s' := by
  cases l with
  | none => exact .inl (Option.some.inj h).symm
  | some k => exact .inr ⟨k, rfl, h⟩

def Behaviour.stutter (b : Behaviour M ok) : Behaviour M.stutter fun _ _ => True where
  state := b.state
  label n := some (b.label n)
  init := b.init
  admitted _ := trivial
  next := b.next

theorem Behaviour.project (b : Behaviour M' ok') (f : σ' → σ) {P : ℓ' → Option ℓ → Prop}
    (hinit : ∀ s, M'.init s → M.init (f s))
    (hstep : ∀ s l s', M'.next s l = some s' → ∃ k, P l k ∧ M.stutter.next (f s) k = some (f s')) :
    ∃ c : Behaviour M.stutter fun _ _ => True, (∀ n, c.state n = f (b.state n)) ∧
      ∀ n, P (b.label n) (c.label n) := by
  choose k hP hnext using fun n => hstep _ _ _ (b.next n)
  exact ⟨⟨fun n => f (b.state n), k, hinit _ b.init, fun _ => trivial, hnext⟩, fun _ => rfl, hP⟩

end Stutter
end Transition
