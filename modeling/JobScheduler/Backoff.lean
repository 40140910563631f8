import JobScheduler.Double
import JobScheduler.Executor

namespace JobScheduler
open FloatingPoint Relational

/-! ## Machine integers -/

/-- An `i64` operation with the exact result `k`: out of range it panics where overflow is checked, and wraps
around where it is not. -/
def i64Result (checks : Bool) (k : ℤ) : Option Int64 :=
  if checks && !(-2 ^ 63 ≤ k && k < 2 ^ 63) then none else some (Int64.ofInt k)

def i32Result (checks : Bool) (k : ℤ) : Option Int32 :=
  if checks && !(-2 ^ 31 ≤ k && k < 2 ^ 31) then none else some (Int32.ofInt k)

theorem i64Result_of_range {k : ℤ} (hle : -2 ^ 63 ≤ k) (hlt : k < 2 ^ 63) (checks : Bool) :
    i64Result checks k = some (Int64.ofInt k) := by
  have hrange : (-2 ^ 63 ≤ k && k < 2 ^ 63) = true := by
    rw [Bool.and_eq_true]
    exact ⟨decide_eq_true hle, decide_eq_true hlt⟩
  rw [i64Result, hrange]
  simp

theorem i64Result_overflow {k : ℤ} (h : 2 ^ 63 ≤ k) : i64Result true k = none := by
  have hlt : decide (k < 2 ^ 63) = false := decide_eq_false (by omega)
  rw [i64Result, hlt, Bool.and_false]
  rfl

theorem i32Result_of_range {k : ℤ} (hle : -2 ^ 31 ≤ k) (hlt : k < 2 ^ 31) (checks : Bool) :
    i32Result checks k = some (Int32.ofInt k) := by
  have hrange : (-2 ^ 31 ≤ k && k < 2 ^ 31) = true := by
    rw [Bool.and_eq_true]
    exact ⟨decide_eq_true hle, decide_eq_true hlt⟩
  rw [i32Result, hrange]
  simp

theorem i64_toInt_min (a b : Int64) : (min a b).toInt = min a.toInt b.toInt := by
  change (if a ≤ b then a else b).toInt = min a.toInt b.toInt
  by_cases hle : a ≤ b
  · rw [if_pos hle, min_eq_left (Int64.le_iff_toInt_le.mp hle)]
  · rw [if_neg hle, min_eq_right]
    rw [Int64.le_iff_toInt_le] at hle
    omega

theorem i32_toInt_max (a b : Int32) : (max a b).toInt = max a.toInt b.toInt := by
  change (if a ≤ b then b else a).toInt = max a.toInt b.toInt
  by_cases hle : a ≤ b
  · rw [if_pos hle, max_eq_right (Int32.le_iff_toInt_le.mp hle)]
  · rw [if_neg hle, max_eq_left]
    rw [Int32.le_iff_toInt_le] at hle
    omega

/-! ## `RetryPolicy` -/

inductive BackoffStrategy
  | fixed | linear | exponential
  deriving DecidableEq, Repr

structure RetryPolicy where
  backoffStrategy : BackoffStrategy
  baseDelaySeconds : Int64
  maxDelaySeconds : Option Int64
  multiplier : Option Double

/-- The strategies, each with arithmetic of its own; `none` is a panic. -/
def RetryPolicy.nextDelaySeconds (checks : Bool) (p : RetryPolicy) (attempt : Int32) : Option Int64 :=
  match p.backoffStrategy with
  | .fixed => some p.baseDelaySeconds
  | .linear => i64Result checks (p.baseDelaySeconds.toInt * attempt.toInt64.toInt)
  | .exponential =>
    (i32Result checks (attempt.toInt - 1)).map fun exponent =>
      let mult := p.multiplier.getD .two
      let raw := (Double.mul (.ofInt p.baseDelaySeconds.toInt) (mult.powi exponent.toInt)).toInt64
      match p.maxDelaySeconds with
      | some max => min raw max
      | none => raw

/-- `calculate_retry_delay` with the policy it has found, if any. -/
def calculateRetryDelay (checks : Bool) (policy : Option RetryPolicy) (attempt : Int32) : Option Int64 :=
  match policy with
  | some p => p.nextDelaySeconds checks attempt
  | none =>
    (i32Result checks (attempt.toInt - 1)).bind fun previous =>
      (i64Result checks (2 ^ (max previous 0).toInt.toNat)).bind fun power =>
        (i64Result checks (10 * power.toInt)).map fun raw => min raw 300

def defaultExponential : RetryPolicy := ⟨.exponential, 10, some 300, some .two⟩

/-! ## The delay without the limits of its types -/

def attemptNumber (attempt : Int32) : ℕ := attempt.toInt.toNat

/-- Not negative, and doubling if it grows. -/
structure RetryPolicy.Admitted (p : RetryPolicy) : Prop where
  base : 0 ≤ p.baseDelaySeconds
  cap : ∀ cap, p.maxDelaySeconds = some cap → 0 ≤ cap
  multiplier : p.multiplier = none ∨ p.multiplier = some .two

/-- The exact delay at an attempt, of which only the linear one may be out of range. -/
def RetryPolicy.exactDelay (p : RetryPolicy) (n : ℕ) : ℤ :=
  match p.backoffStrategy with
  | .fixed => p.baseDelaySeconds.toInt
  | .linear => p.baseDelaySeconds.toInt * n
  | .exponential =>
    let raw := min (2 ^ 63 - 1) ((roundNat p.baseDelaySeconds.toInt.toNat * 2 ^ (n - 1) : ℕ) : ℤ)
    match p.maxDelaySeconds with
    | some cap => min raw cap.toInt
    | none => raw

section Delay
variable {p : RetryPolicy} {attempt : Int32}

theorem attempt_cast (h : 1 ≤ attempt) : (attemptNumber attempt : ℤ) = attempt.toInt ∧ 1 ≤ attemptNumber attempt := by
  rw [Int32.le_iff_toInt_le, show (1 : Int32).toInt = 1 from rfl] at h
  unfold attemptNumber
  omega

theorem previous_attempt (h : 1 ≤ attempt) (checks : Bool) :
    i32Result checks (attempt.toInt - 1) = some (Int32.ofInt (attemptNumber attempt - 1 : ℕ)) ∧
      (Int32.ofInt (attemptNumber attempt - 1 : ℕ)).toInt = (attemptNumber attempt - 1 : ℕ) := by
  obtain ⟨hcast, hpos⟩ := attempt_cast h
  have hlt := attempt.toInt_lt
  have hprevious : attempt.toInt - 1 = ((attemptNumber attempt - 1 : ℕ) : ℤ) := by omega
  constructor
  · rw [hprevious]
    exact i32Result_of_range (by omega) (by omega) checks
  · exact Int32.toInt_ofInt_of_le (by omega) (by omega)

theorem RetryPolicy.Admitted.base_nat (hp : p.Admitted) :
    p.baseDelaySeconds.toInt = (p.baseDelaySeconds.toInt.toNat : ℤ) ∧ p.baseDelaySeconds.toInt.toNat < 2 ^ 64 := by
  have hbase := hp.base
  rw [Int64.le_iff_toInt_le, show (0 : Int64).toInt = 0 from rfl] at hbase
  have hlt := p.baseDelaySeconds.toInt_lt
  omega

theorem RetryPolicy.Admitted.multiplier_eq (hp : p.Admitted) : p.multiplier.getD .two = .two := by
  rcases hp.multiplier with h | h <;> rw [h] <;> rfl

/-- The cast saturates before the cap is applied. -/
theorem exponential_delay (hp : p.Admitted) (hs : p.backoffStrategy = .exponential) (hattempt : 1 ≤ attempt) :
    ∃ delay, (∀ checks, p.nextDelaySeconds checks attempt = some delay) ∧
      delay.toInt = p.exactDelay (attemptNumber attempt) := by
  obtain ⟨hbase, hlt⟩ := hp.base_nat
  have hraw := Double.toInt64_ofInt_mul_twoPow hlt (attemptNumber attempt - 1)
  rw [← hbase] at hraw
  have hnext : ∀ checks, p.nextDelaySeconds checks attempt =
      let raw := (Double.mul (.ofInt p.baseDelaySeconds.toInt) (.twoPow (attemptNumber attempt - 1))).toInt64
      match p.maxDelaySeconds with
      | some cap => some (min raw cap)
      | none => some raw := by
    intro checks
    obtain ⟨hprevious, htoInt⟩ := previous_attempt hattempt checks
    simp only [RetryPolicy.nextDelaySeconds, hs, hprevious, Option.map_some, htoInt, hp.multiplier_eq,
      Double.powi_two]
    cases p.maxDelaySeconds <;> rfl
  cases hcap : p.maxDelaySeconds with
  | none =>
    refine ⟨_, fun checks => by rw [hnext, hcap], ?_⟩
    rw [hraw, RetryPolicy.exactDelay, hs, hcap]
  | some cap =>
    refine ⟨_, fun checks => by rw [hnext, hcap], ?_⟩
    rw [i64_toInt_min, hraw, RetryPolicy.exactDelay, hs, hcap]

/-- The delay is the exact one unless that is out of range, which only a linear one can be. -/
theorem nextDelaySeconds_of_range (hp : p.Admitted) (hattempt : 1 ≤ attempt)
    (hlt : p.exactDelay (attemptNumber attempt) < 2 ^ 63) :
    ∃ delay, (∀ checks, p.nextDelaySeconds checks attempt = some delay) ∧
      delay.toInt = p.exactDelay (attemptNumber attempt) := by
  cases hs : p.backoffStrategy with
  | fixed =>
    refine ⟨p.baseDelaySeconds, fun checks => ?_, ?_⟩
    · rw [RetryPolicy.nextDelaySeconds, hs]
    · rw [RetryPolicy.exactDelay, hs]
  | linear =>
    have hexact : p.exactDelay (attemptNumber attempt) = p.baseDelaySeconds.toInt * attempt.toInt := by
      rw [RetryPolicy.exactDelay, hs, (attempt_cast hattempt).1]
    rw [hexact] at hlt ⊢
    have hnonneg : 0 ≤ p.baseDelaySeconds.toInt * attempt.toInt := by
      rw [← (attempt_cast hattempt).1, hp.base_nat.1]
      positivity
    refine ⟨_, fun checks => ?_, Int64.toInt_ofInt_of_le (by omega) hlt⟩
    rw [RetryPolicy.nextDelaySeconds, hs]
    simp only [Int32.toInt_toInt64]
    exact i64Result_of_range (by omega) hlt checks
  | exponential => exact exponential_delay hp hs hattempt

theorem nextDelaySeconds_overflow (hp : p.Admitted) (hattempt : 1 ≤ attempt)
    (hge : 2 ^ 63 ≤ p.exactDelay (attemptNumber attempt)) : p.nextDelaySeconds true attempt = none := by
  cases hs : p.backoffStrategy with
  | fixed =>
    rw [RetryPolicy.exactDelay, hs] at hge
    exact absurd p.baseDelaySeconds.toInt_lt (not_lt.mpr hge)
  | linear =>
    rw [RetryPolicy.exactDelay, hs] at hge
    simp only [(attempt_cast hattempt).1] at hge
    rw [RetryPolicy.nextDelaySeconds, hs]
    simp only [Int32.toInt_toInt64]
    exact i64Result_overflow hge
  | exponential =>
    obtain ⟨delay, -, hdelay⟩ := exponential_delay hp hs hattempt
    rw [← hdelay] at hge
    exact absurd delay.toInt_lt (not_lt.mpr hge)

theorem exactDelay_nonneg (hp : p.Admitted) (n : ℕ) : 0 ≤ p.exactDelay n := by
  obtain ⟨hbase, -⟩ := hp.base_nat
  unfold RetryPolicy.exactDelay
  cases p.backoffStrategy with
  | fixed => exact hbase ▸ Int.natCast_nonneg _
  | linear =>
    dsimp only
    rw [hbase]
    positivity
  | exponential =>
    have hraw : (0 : ℤ) ≤ min (2 ^ 63 - 1) ((roundNat p.baseDelaySeconds.toInt.toNat * 2 ^ (n - 1) : ℕ) : ℤ) :=
      le_min (by norm_num) (Int.natCast_nonneg _)
    cases hcap : p.maxDelaySeconds with
    | none => exact hraw
    | some cap => exact le_min hraw (Int64.le_iff_toInt_le.mp (hp.cap cap hcap))

theorem exactDelay_mono (hp : p.Admitted) {m n : ℕ} (hmn : m ≤ n) : p.exactDelay m ≤ p.exactDelay n := by
  obtain ⟨hbase, -⟩ := hp.base_nat
  unfold RetryPolicy.exactDelay
  cases p.backoffStrategy with
  | fixed => exact le_rfl
  | linear =>
    have hnonneg : 0 ≤ p.baseDelaySeconds.toInt := hbase ▸ Int.natCast_nonneg _
    exact mul_le_mul_of_nonneg_left (by exact_mod_cast hmn) hnonneg
  | exponential =>
    have hpow : 2 ^ (m - 1) ≤ 2 ^ (n - 1) := Nat.pow_le_pow_right (by norm_num) (by omega)
    have hraw : ((roundNat p.baseDelaySeconds.toInt.toNat * 2 ^ (m - 1) : ℕ) : ℤ) ≤
        (roundNat p.baseDelaySeconds.toInt.toNat * 2 ^ (n - 1) : ℕ) := by
      exact_mod_cast Nat.mul_le_mul_left _ hpow
    cases p.maxDelaySeconds with
    | none => exact min_le_min_left _ hraw
    | some cap => exact min_le_min_right _ (min_le_min_left _ hraw)

end Delay

/-! ## Without a policy -/

section Default
variable {attempt : Int32}

theorem default_exponent (hattempt : 1 ≤ attempt) (checks : Bool) :
    calculateRetryDelay checks none attempt =
      (i64Result checks (2 ^ (attemptNumber attempt - 1))).bind fun power =>
        (i64Result checks (10 * power.toInt)).map fun raw => min raw 300 := by
  obtain ⟨hprevious, htoInt⟩ := previous_attempt hattempt checks
  have hmax : (max (Int32.ofInt (attemptNumber attempt - 1 : ℕ)) 0).toInt.toNat = attemptNumber attempt - 1 := by
    rw [i32_toInt_max, htoInt, show (0 : Int32).toInt = 0 from rfl]
    omega
  simp only [calculateRetryDelay, hprevious, Option.bind_some, hmax]

/-- Up to attempt 60 nothing overflows before the cap is applied. -/
theorem default_delay (hattempt : 1 ≤ attempt) (hle : attemptNumber attempt ≤ 60) :
    ∃ delay, (∀ checks, calculateRetryDelay checks none attempt = some delay) ∧
      delay.toInt = min 300 (10 * 2 ^ (attemptNumber attempt - 1)) := by
  have hpow : (2 : ℤ) ^ (attemptNumber attempt - 1) ≤ 2 ^ 59 := pow_le_pow_right₀ (by norm_num) (by omega)
  have hpos : (0 : ℤ) < 2 ^ (attemptNumber attempt - 1) := by positivity
  have hpower := Int64.toInt_ofInt_of_le (n := 2 ^ (attemptNumber attempt - 1)) (by omega) (by omega)
  refine ⟨min (Int64.ofInt (10 * 2 ^ (attemptNumber attempt - 1))) 300, fun checks => ?_, ?_⟩
  · rw [default_exponent hattempt, i64Result_of_range (by omega) (by omega), Option.bind_some, hpower,
      i64Result_of_range (by omega) (by omega), Option.map_some]
  · rw [i64_toInt_min, Int64.toInt_ofInt_of_le (by omega) (by omega), min_comm]
    rfl

theorem default_overflow (hattempt : 1 ≤ attempt) (hlt : 60 < attemptNumber attempt) :
    calculateRetryDelay true none attempt = none := by
  have hpow : (2 : ℤ) ^ 60 ≤ 2 ^ (attemptNumber attempt - 1) := pow_le_pow_right₀ (by norm_num) (by omega)
  rw [default_exponent hattempt]
  by_cases hrange : (2 : ℤ) ^ (attemptNumber attempt - 1) < 2 ^ 63
  · rw [i64Result_of_range (by omega) hrange, Option.bind_some, Int64.toInt_ofInt_of_le (by omega) hrange,
      i64Result_overflow (by omega)]
    rfl
  · rw [i64Result_overflow (not_lt.mp hrange)]
    rfl

theorem defaultExponential_admitted : defaultExponential.Admitted where
  base := by decide
  cap cap h := by
    cases h
    decide
  multiplier := .inr rfl

theorem defaultExponential_exactDelay (n : ℕ) : defaultExponential.exactDelay n = min 300 (10 * 2 ^ (n - 1)) := by
  have hbase : roundNat (10 : Int64).toInt.toNat = 10 := roundNat_of_lt (by decide)
  change min (min (2 ^ 63 - 1) ((roundNat (10 : Int64).toInt.toNat * 2 ^ (n - 1) : ℕ) : ℤ)) (300 : Int64).toInt = _
  rw [hbase, show (300 : Int64).toInt = 300 from rfl]
  push_cast
  omega

theorem defaultExponential_delay (hattempt : 1 ≤ attempt) :
    ∃ delay, (∀ checks, defaultExponential.nextDelaySeconds checks attempt = some delay) ∧
      delay.toInt = min 300 (10 * 2 ^ (attemptNumber attempt - 1)) := by
  rw [← defaultExponential_exactDelay]
  exact exponential_delay defaultExponential_admitted rfl hattempt

/-- The delay of a job without a policy is the seeded policy's, without overflow, within its limits and no less
than that of any earlier attempt. -/
structure DefaultBackoff (attempt : Int32) (delay : Int64) : Prop where
  computed : ∀ checks, calculateRetryDelay checks none attempt = some delay
  value : delay.toInt = min 300 (10 * 2 ^ (attemptNumber attempt - 1))
  policy : ∀ checks, defaultExponential.nextDelaySeconds checks attempt = some delay
  range : 10 ≤ delay.toInt ∧ delay.toInt ≤ 300
  monotone : ∀ earlier, 1 ≤ earlier → earlier ≤ attempt →
    ∃ delay', (∀ checks, calculateRetryDelay checks none earlier = some delay') ∧ delay' ≤ delay

theorem attemptNumber_le {earlier : Int32} (h : earlier ≤ attempt) :
    attemptNumber earlier ≤ attemptNumber attempt := by
  rw [Int32.le_iff_toInt_le] at h
  unfold attemptNumber
  omega

theorem default_backoff_iff (attempt : Int32) (hattempt : 1 ≤ attempt) :
    (∃ delay, DefaultBackoff attempt delay) ↔ attempt ≤ 60 := by
  have hbound : attempt ≤ 60 ↔ attemptNumber attempt ≤ 60 := by
    have hcast := attempt_cast hattempt
    rw [Int32.le_iff_toInt_le, show (60 : Int32).toInt = 60 from rfl]
    omega
  rw [hbound]
  constructor
  · rintro ⟨delay, h⟩
    by_contra hlt
    have hcomputed := h.computed true
    rw [default_overflow hattempt (not_le.mp hlt)] at hcomputed
    cases hcomputed
  · intro hle
    obtain ⟨delay, hcomputed, hvalue⟩ := default_delay hattempt hle
    obtain ⟨delay', hpolicy, hvalue'⟩ := defaultExponential_delay hattempt
    have hsame : delay = delay' := Int64.toInt_inj.mp (hvalue.trans hvalue'.symm)
    have hone : (1 : ℤ) ≤ 2 ^ (attemptNumber attempt - 1) := one_le_pow₀ (by norm_num)
    refine ⟨delay, hcomputed, hvalue, hsame ▸ hpolicy, by omega, fun earlier hpos hearlier => ?_⟩
    have hnumber := attemptNumber_le hearlier
    obtain ⟨delay₁, hcomputed₁, hvalue₁⟩ := default_delay hpos (hnumber.trans hle)
    refine ⟨delay₁, hcomputed₁, ?_⟩
    have hpow : (2 : ℤ) ^ (attemptNumber earlier - 1) ≤ 2 ^ (attemptNumber attempt - 1) :=
      pow_le_pow_right₀ (by norm_num) (by omega)
    rw [Int64.le_iff_toInt_le, hvalue, hvalue₁]
    omega

end Default

/-- The last attempt that agrees. -/
theorem default_backoff_sixty : ∃ delay, DefaultBackoff 60 delay := (default_backoff_iff 60 (by decide)).mpr (by decide)

/-- The product overflows at the next. -/
theorem default_backoff_fails : ¬∀ attempt, 1 ≤ attempt → ∃ delay, DefaultBackoff attempt delay := by
  intro hall
  obtain ⟨delay, h⟩ := hall 61 (by decide)
  have hpanics : calculateRetryDelay true none 61 = none := by decide
  have hcomputed := h.computed true
  rw [hpanics] at hcomputed
  cases hcomputed

end JobScheduler
