import JobScheduler.Backoff

namespace JobScheduler
open FloatingPoint Relational

/-! ## chrono -/

/-- The first and the last `DateTime<Utc>`. -/
structure ChronoRange where
  minUtc : Timestamp
  maxUtc : Timestamp

/-- A `DateTime<Utc>`. -/
def ChronoRange.Time (range : ChronoRange) : Type := { t : Timestamp // range.minUtc ≤ t ∧ t ≤ range.maxUtc }

/-- `i64::MAX / 1000`: a `Duration` holds no more seconds. -/
def maxDurationSeconds : ℤ := (2 ^ 63 - 1) / 1000

/-- `Duration::seconds`, which panics out of its range. -/
def durationSeconds (seconds : Int64) : Option ℤ :=
  if -maxDurationSeconds ≤ seconds.toInt ∧ seconds.toInt ≤ maxDurationSeconds then some seconds.toInt else none

/-- `DateTime + Duration`, which panics out of range. -/
def ChronoRange.add (range : ChronoRange) (t : Timestamp) (seconds : ℤ) : Option Timestamp :=
  let t' := t + seconds * 1000000
  if range.minUtc ≤ t' ∧ t' ≤ range.maxUtc then some t' else none

/-- `Utc::now() + Duration::seconds(delay_secs)`. -/
def buildNextAttemptAt (range : ChronoRange) (now : Timestamp) (delaySecs : Int64) : Option Timestamp :=
  (durationSeconds delaySecs).bind (range.add now)

/-! ## The failure branch of `execute_job` -/

/-- The finish with the delay of its retry worked out; `none` is a panic, with the transaction open. -/
def Finish.withDelay (range : ChronoRange) (checks : Bool) (policy : Option RetryPolicy) (x : Finish) (t : Task) :
    Option Finish :=
  if t.shouldDlq then some x
  else (calculateRetryDelay checks policy t.attempt).bind fun delaySecs =>
    (buildNextAttemptAt range x.retryFrom delaySecs).map fun _ => { x with delaySecs := delaySecs.toInt }

/-- The branch as far as its `COMMIT`; a panic drops the transaction. -/
def failureBranch (range : ChronoRange) (checks : Bool) (policy : Option RetryPolicy) (x : Finish) (t : Task)
    (startedAt now : Timestamp) (db : Db) : Option (Db × Bool) :=
  if x.beginOk then (x.withDelay range checks policy t).map fun x => x.run t startedAt now db else some (db, false)

theorem buildNextAttemptAt_eq {range : ChronoRange} {x : Finish} {delaySecs : Int64} {at' : Timestamp}
    (h : buildNextAttemptAt range x.retryFrom delaySecs = some at') :
    ({ x with delaySecs := delaySecs.toInt } : Finish).nextAttemptAt = at' := by
  obtain ⟨seconds, hseconds, hadd⟩ := Option.bind_eq_some_iff.mp h
  unfold durationSeconds at hseconds
  split at hseconds <;> cases hseconds
  unfold ChronoRange.add at hadd
  dsimp only at hadd
  split at hadd <;> cases hadd
  rfl

/-! ## When a delay can be scheduled -/

section Schedule
variable {range : ChronoRange} {p : RetryPolicy} {attempt : Int32}

def scheduleLimit (range : ChronoRange) (now : range.Time) : ℤ :=
  min maxDurationSeconds ((range.maxUtc - now.val) / 1000000)

def RetryPolicy.Fits (p : RetryPolicy) (n : ℕ) (limit : ℤ) : Prop :=
  match p.backoffStrategy with
  | .fixed => p.baseDelaySeconds.toInt ≤ limit
  | .linear => p.baseDelaySeconds.toInt * n ≤ limit
  | .exponential => (∃ cap, p.maxDelaySeconds = some cap ∧ cap.toInt ≤ limit) ∨
      ((roundNat p.baseDelaySeconds.toInt.toNat * 2 ^ (n - 1) : ℕ) : ℤ) ≤ limit

/-- The delay after an attempt is computed without overflow, is not negative, no less than any earlier one and
within the range of a `Duration`, the time it leads to exists, and the failure branch gets to its commit. -/
structure Schedulable (range : ChronoRange) (now : range.Time) (p : RetryPolicy) (attempt : Int32) (delay : Int64) :
    Prop where
  computed : ∀ checks, p.nextDelaySeconds checks attempt = some delay
  nonneg : 0 ≤ delay.toInt
  monotone : ∀ earlier, 1 ≤ earlier → earlier ≤ attempt →
    ∃ delay', (∀ checks, p.nextDelaySeconds checks earlier = some delay') ∧ delay' ≤ delay
  accepted : delay.toInt ≤ maxDurationSeconds
  built : buildNextAttemptAt range now.val delay = some (now.val + delay.toInt * 1000000)
  commits : ∀ checks (x : Finish) (t : Task) startedAt dbNow db, x.retryFrom = now.val → t.attempt = attempt →
    t.shouldDlq = false → x.beginOk = true →
    failureBranch range checks (some p) x t startedAt dbNow db =
      some (({ x with delaySecs := delay.toInt } : Finish).run t startedAt dbNow db)

theorem scheduleLimit_lt (now : range.Time) : scheduleLimit range now < 2 ^ 63 - 1 :=
  (min_le_left _ _).trans_lt (by decide)

theorem fits_iff {n : ℕ} {limit : ℤ} (hlimit : limit < 2 ^ 63 - 1) : p.Fits n limit ↔ p.exactDelay n ≤ limit := by
  unfold RetryPolicy.Fits RetryPolicy.exactDelay
  cases p.backoffStrategy with
  | fixed => exact Iff.rfl
  | linear => exact Iff.rfl
  | exponential =>
    have hmax : ¬(2 ^ 63 - 1 : ℤ) ≤ limit := not_le.mpr hlimit
    cases p.maxDelaySeconds with
    | none => simp only [reduceCtorEq, false_and, exists_false, false_or, min_le_iff, or_iff_right hmax]
    | some cap =>
      simp only [Option.some.injEq, exists_eq_left', min_le_iff, or_iff_right hmax]
      exact or_comm

theorem buildNextAttemptAt_iff (now : range.Time) {delay : Int64} (hnonneg : 0 ≤ delay.toInt) :
    buildNextAttemptAt range now.val delay = some (now.val + delay.toInt * 1000000) ↔
      delay.toInt ≤ scheduleLimit range now := by
  have hfirst : range.minUtc ≤ now.val + delay.toInt * 1000000 :=
    le_add_of_le_of_nonneg now.property.1 (mul_nonneg hnonneg (by norm_num))
  have hlast : now.val + delay.toInt * 1000000 ≤ range.maxUtc ↔ delay.toInt ≤ (range.maxUtc - now.val) / 1000000 := by
    rw [Int.le_ediv_iff_mul_le (by norm_num)]
    exact le_sub_iff_add_le'.symm
  have hlow : -maxDurationSeconds ≤ delay.toInt := le_trans (by decide) hnonneg
  rw [scheduleLimit, le_min_iff, ← hlast, buildNextAttemptAt, durationSeconds]
  by_cases haccepted : delay.toInt ≤ maxDurationSeconds
  · simp only [hlow, haccepted, and_self, if_true, Option.bind_some, ChronoRange.add, hfirst, true_and]
    split <;> simp_all
  · simp [haccepted]

theorem failureBranch_of_built {checks : Bool} {x : Finish} {t : Task} {startedAt dbNow at' : Timestamp} {db : Db}
    {policy : Option RetryPolicy} {delay : Int64} (hdelay : calculateRetryDelay checks policy t.attempt = some delay)
    (hbuilt : buildNextAttemptAt range x.retryFrom delay = some at') (hdlq : t.shouldDlq = false)
    (hbegin : x.beginOk = true) :
    failureBranch range checks policy x t startedAt dbNow db =
      some (({ x with delaySecs := delay.toInt } : Finish).run t startedAt dbNow db) := by
  rw [failureBranch, if_pos hbegin, Finish.withDelay, hdlq]
  simp only [Bool.false_eq_true, if_false, hdelay, Option.bind_some, hbuilt, Option.map_some]

/-- Exactly when the delay fits: a fixed one as it is, a linear one times the attempt, and an exponential one
doubled at every attempt unless its cap comes first. -/
theorem policy_schedulable_iff (range : ChronoRange) (now : range.Time) (p : RetryPolicy) (attempt : Int32)
    (hp : p.Admitted) (hattempt : 1 ≤ attempt) :
    (∃ delay, Schedulable range now p attempt delay) ↔
      p.Fits (attemptNumber attempt) (scheduleLimit range now) := by
  rw [fits_iff (scheduleLimit_lt now)]
  have hlimit := scheduleLimit_lt now
  constructor
  · rintro ⟨delay, h⟩
    rcases lt_or_ge (p.exactDelay (attemptNumber attempt)) (2 ^ 63) with hlt | hge
    · obtain ⟨delay', hcomputed, hexact⟩ := nextDelaySeconds_of_range hp hattempt hlt
      have hsame : delay' = delay := Option.some.inj ((hcomputed true).symm.trans (h.computed true))
      rw [← hexact, hsame]
      exact (buildNextAttemptAt_iff now h.nonneg).mp h.built
    · have hcomputed := h.computed true
      rw [nextDelaySeconds_overflow hp hattempt hge] at hcomputed
      cases hcomputed
  · intro hfits
    have hlt : p.exactDelay (attemptNumber attempt) < 2 ^ 63 := by omega
    obtain ⟨delay, hcomputed, hexact⟩ := nextDelaySeconds_of_range hp hattempt hlt
    have hnonneg : 0 ≤ delay.toInt := hexact ▸ exactDelay_nonneg hp _
    have hbuilt := (buildNextAttemptAt_iff now hnonneg).mpr (hexact ▸ hfits)
    refine ⟨delay, hcomputed, hnonneg, fun earlier hpos hearlier => ?_, ?_, hbuilt, ?_⟩
    · have hmono := exactDelay_mono hp (attemptNumber_le hearlier)
      obtain ⟨delay', hcomputed', hexact'⟩ := nextDelaySeconds_of_range hp hpos (hmono.trans_lt hlt)
      refine ⟨delay', hcomputed', ?_⟩
      rw [Int64.le_iff_toInt_le, hexact, hexact']
      exact hmono
    · rw [hexact]
      exact hfits.trans (min_le_left _ _)
    · intro checks x t startedAt dbNow db hfrom htask hdlq hbegin
      subst htask
      exact failureBranch_of_built (hcomputed checks) (hfrom ▸ hbuilt) hdlq hbegin

end Schedule

namespace Sample

def chronoRange : ChronoRange := ⟨-8334601228800000000, 8210266876799999999⟩

def clock : chronoRange.Time := ⟨1700000000000000, by decide⟩

def longestFixed : RetryPolicy := ⟨.fixed, Int64.maxValue, none, none⟩

end Sample

/-- The seeded policy, at its last attempt. -/
theorem policy_schedulable_default : ∃ delay, Schedulable Sample.chronoRange Sample.clock defaultExponential 5 delay :=
  (policy_schedulable_iff Sample.chronoRange Sample.clock defaultExponential 5
    ⟨by decide, fun cap h => by cases h; decide, .inr rfl⟩ (by decide)).mpr (.inl ⟨300, rfl, by decide⟩)

/-- No `Duration` is that long. -/
theorem policy_unschedulable : ¬∀ (range : ChronoRange) (now : range.Time) (p : RetryPolicy) (attempt : Int32),
    p.Admitted → 1 ≤ attempt → ∃ delay, Schedulable range now p attempt delay := by
  intro hall
  obtain ⟨delay, h⟩ := hall Sample.chronoRange Sample.clock Sample.longestFixed 1
    ⟨by decide, (fun cap h => by cases h), .inl rfl⟩ (by decide)
  have hdelay : Int64.maxValue = delay := Option.some.inj (h.computed true)
  have haccepted := h.accepted
  rw [← hdelay] at haccepted
  revert haccepted
  decide

end JobScheduler
