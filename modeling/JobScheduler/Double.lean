import Mathlib.Data.Int.Log
import Mathlib.Data.Rat.Floor
import Mathlib.Tactic

namespace FloatingPoint

/-! ## Rounding to 53 significant bits -/

/-- The nearest integer, and of two equally near the even one. -/
def roundHalfEven (q : ℚ) : ℤ :=
  if Int.fract q < 1 / 2 ∨ Int.fract q = 1 / 2 ∧ ⌊q⌋ % 2 = 0 then ⌊q⌋ else ⌊q⌋ + 1

theorem floor_le_roundHalfEven (q : ℚ) : ⌊q⌋ ≤ roundHalfEven q := by
  unfold roundHalfEven
  split <;> omega

theorem roundHalfEven_le_ceil (q : ℚ) : roundHalfEven q ≤ ⌈q⌉ := by
  unfold roundHalfEven
  split
  · exact Int.floor_le_ceil q
  · rename_i h
    have hfract : Int.fract q ≠ 0 := by
      intro hzero
      rw [hzero] at h
      norm_num at h
    have hlt : (⌊q⌋ : ℚ) < q := by
      have hpos := lt_of_le_of_ne (Int.fract_nonneg q) (Ne.symm hfract)
      rw [Int.fract] at hpos
      linarith
    exact Int.add_one_le_iff.mpr (Int.lt_ceil.mpr hlt)

theorem roundHalfEven_intCast (k : ℤ) : roundHalfEven (k : ℚ) = k := by
  apply le_antisymm
  · simpa using roundHalfEven_le_ceil (k : ℚ)
  · simpa using floor_le_roundHalfEven (k : ℚ)

theorem roundHalfEven_nonneg {q : ℚ} (h : 0 ≤ q) : 0 ≤ roundHalfEven q :=
  (Int.floor_nonneg.mpr h).trans (floor_le_roundHalfEven q)

/-- The exponent of the last bit that is kept; no bit is below 2^-1074. -/
def ulpExponent (q : ℚ) : ℤ := max (Int.log 2 q - 52) (-1074)

def ulp (q : ℚ) : ℚ := 2 ^ ulpExponent q

theorem ulp_pos (q : ℚ) : 0 < ulp q := zpow_pos (by norm_num) _

/-- The nearest of the numbers with 53 significant bits, the exponent having no upper bound. -/
def roundMagnitude (q : ℚ) : ℚ := roundHalfEven (q / ulp q) * ulp q

/-- At most 53 significant bits, down to 2^-1074. -/
def HasPrecision (q : ℚ) : Prop := ∃ (m : ℕ) (e : ℤ), m < 2 ^ 53 ∧ -1074 ≤ e ∧ q = m * 2 ^ e

theorem HasPrecision.nonneg {q : ℚ} (h : HasPrecision q) : 0 ≤ q := by
  obtain ⟨m, e, -, -, rfl⟩ := h
  positivity

theorem lt_two_pow_ulpExponent (q : ℚ) : q < 2 ^ (ulpExponent q + 53) := by
  refine (Int.lt_zpow_succ_log_self (b := 2) (by norm_num) q).trans_le ?_
  refine zpow_le_zpow_right₀ (by norm_num) ?_
  have hle := le_max_left (Int.log 2 q - 52) (-1074)
  unfold ulpExponent
  omega

theorem div_ulp_lt (q : ℚ) : q / ulp q < 2 ^ 53 := by
  rw [div_lt_iff₀ (ulp_pos q), ulp, ← zpow_natCast, ← zpow_add₀ (by norm_num), add_comm]
  exact_mod_cast lt_two_pow_ulpExponent q

theorem roundHalfEven_div_ulp_le (q : ℚ) : roundHalfEven (q / ulp q) ≤ 2 ^ 53 :=
  (roundHalfEven_le_ceil _).trans (Int.ceil_le.mpr (by exact_mod_cast (div_ulp_lt q).le))

theorem hasPrecision_roundMagnitude {q : ℚ} (hq : 0 ≤ q) : HasPrecision (roundMagnitude q) := by
  have hnonneg : 0 ≤ roundHalfEven (q / ulp q) := roundHalfEven_nonneg (div_nonneg hq (ulp_pos q).le)
  have hle := roundHalfEven_div_ulp_le q
  obtain ⟨m, hm⟩ := Int.eq_ofNat_of_zero_le hnonneg
  have hexp : -1074 ≤ ulpExponent q := le_max_right _ _
  rcases hle.lt_or_eq with hlt | heq
  · refine ⟨m, ulpExponent q, by omega, hexp, ?_⟩
    rw [roundMagnitude, hm]
    rfl
  · -- rounded up to the next power of two
    refine ⟨2 ^ 52, ulpExponent q + 1, by norm_num, by omega, ?_⟩
    rw [roundMagnitude, heq, ulp, zpow_add_one₀ (by norm_num)]
    push_cast
    ring

theorem roundMagnitude_of_hasPrecision {q : ℚ} (h : HasPrecision q) : roundMagnitude q = q := by
  obtain ⟨m, e, hm, he, rfl⟩ := h
  rcases Nat.eq_zero_or_pos m with rfl | hpos
  · have hzero : roundHalfEven 0 = 0 := by exact_mod_cast roundHalfEven_intCast 0
    simp [roundMagnitude, hzero]
  · have hq : (0 : ℚ) < m * 2 ^ e := mul_pos (by exact_mod_cast hpos) (zpow_pos (by norm_num) _)
    have hlt : (m * 2 ^ e : ℚ) < (2 : ℕ) ^ (53 + e) := by
      rw [Nat.cast_ofNat, zpow_add₀ (by norm_num)]
      exact mul_lt_mul_of_pos_right (by exact_mod_cast hm) (zpow_pos (by norm_num) _)
    have hlog : Int.log 2 (m * 2 ^ e : ℚ) < 53 + e := (Int.lt_zpow_iff_log_lt (by norm_num) hq).mp hlt
    have hle : ulpExponent (m * 2 ^ e) ≤ e := max_le (by omega) he
    obtain ⟨k, hk⟩ := Int.eq_ofNat_of_zero_le (sub_nonneg.mpr hle)
    have hdiv : (m * 2 ^ e : ℚ) / ulp (m * 2 ^ e) = ((m * 2 ^ k : ℕ) : ℤ) := by
      rw [ulp, mul_div_assoc, ← zpow_sub₀ (by norm_num), hk]
      push_cast
      rfl
    rw [roundMagnitude, hdiv, roundHalfEven_intCast, ← hdiv, div_mul_cancel₀ _ (ulp_pos _).ne']

theorem hasPrecision_natCast {n : ℕ} (h : n < 2 ^ 53) : HasPrecision n :=
  ⟨n, 0, h, by norm_num, by simp⟩

theorem HasPrecision.mul_two_pow {q : ℚ} (h : HasPrecision q) (n : ℕ) : HasPrecision (q * 2 ^ n) := by
  obtain ⟨m, e, hm, he, rfl⟩ := h
  refine ⟨m, e + n, hm, by omega, ?_⟩
  rw [zpow_add₀ (by norm_num), zpow_natCast, mul_assoc]

theorem hasPrecision_two_pow (n : ℕ) : HasPrecision (2 ^ n) := by
  have h := (hasPrecision_natCast (n := 1) (by norm_num)).mul_two_pow n
  simpa using h

def roundNat (n : ℕ) : ℕ := ⌊roundMagnitude n⌋₊

theorem roundMagnitude_natCast (n : ℕ) : roundMagnitude n = roundNat n := by
  rcases Nat.lt_or_ge n (2 ^ 53) with hlt | hge
  · have hself := roundMagnitude_of_hasPrecision (hasPrecision_natCast hlt)
    rw [roundNat, hself, Nat.floor_natCast]
  · have hlog : 53 ≤ Int.log 2 (n : ℚ) := by
      have hpos : 0 < n := by omega
      refine (Int.zpow_le_iff_le_log (by norm_num) (by exact_mod_cast hpos)).mp ?_
      exact_mod_cast hge
    have hexp : 0 ≤ ulpExponent n := le_max_of_le_left (by omega)
    obtain ⟨k, hk⟩ := Int.eq_ofNat_of_zero_le hexp
    have hnonneg : 0 ≤ roundHalfEven (n / ulp n) := roundHalfEven_nonneg (div_nonneg n.cast_nonneg (ulp_pos _).le)
    obtain ⟨m, hm⟩ := Int.eq_ofNat_of_zero_le hnonneg
    have hround : roundMagnitude n = ((m * 2 ^ k : ℕ) : ℚ) := by
      rw [roundMagnitude, hm, ulp, hk]
      push_cast
      rfl
    rw [roundNat, hround, Nat.floor_natCast]

theorem roundNat_of_lt {n : ℕ} (h : n < 2 ^ 53) : roundNat n = n := by
  rw [roundNat, roundMagnitude_of_hasPrecision (hasPrecision_natCast h), Nat.floor_natCast]

theorem roundNat_le {n : ℕ} (h : n < 2 ^ 64) : roundNat n ≤ 2 ^ 64 := by
  have hlog : Int.log 2 (n : ℚ) < 64 := by
    rcases Nat.eq_zero_or_pos n with rfl | hpos
    · simp
    · refine (Int.lt_zpow_iff_log_lt (by norm_num) (by exact_mod_cast hpos)).mp ?_
      exact_mod_cast h
  have hexp : ulpExponent n ≤ 11 := max_le (by omega) (by norm_num)
  have hulp : ulp n ≤ 2 ^ 11 := by
    rw [ulp, ← zpow_natCast]
    exact zpow_le_zpow_right₀ (by norm_num) hexp
  have hle : roundMagnitude n ≤ 2 ^ 53 * 2 ^ 11 :=
    mul_le_mul (by exact_mod_cast roundHalfEven_div_ulp_le _) hulp (ulp_pos _).le (by norm_num)
  rw [roundMagnitude_natCast] at hle
  norm_num at hle ⊢
  exact_mod_cast hle

/-! ## binary64 -/

/-- A double: not a number, infinite, or a sign with a magnitude that has the precision and is in range. -/
inductive Double
  | nan
  | infinity (neg : Bool)
  | finite (neg : Bool) (magnitude : ℚ) (h : HasPrecision magnitude ∧ magnitude < 2 ^ 1024)

namespace Double

/-- To nearest, ties to even; what is out of range overflows. -/
def round (neg : Bool) (q : ℚ) (hq : 0 ≤ q) : Double :=
  if h : roundMagnitude q < 2 ^ 1024 then .finite neg (roundMagnitude q) ⟨hasPrecision_roundMagnitude hq, h⟩
  else .infinity neg

def mul : Double → Double → Double
  | nan, _ => nan
  | _, nan => nan
  | infinity s, infinity s' => infinity (s != s')
  | infinity s, finite s' q _ => if q = 0 then nan else infinity (s != s')
  | finite s q _, infinity s' => if q = 0 then nan else infinity (s != s')
  | finite s q h, finite s' q' h' =>
    round (s != s') (q * q') (mul_nonneg h.1.nonneg h'.1.nonneg)

/-- `1.0 / x`. -/
def recip : Double → Double
  | nan => nan
  | infinity s => round s 0 le_rfl
  | finite s q h => if q = 0 then infinity s else round s q⁻¹ (inv_nonneg.mpr h.1.nonneg)

/-- `k as f64`. -/
def ofInt (k : ℤ) : Double := round (k < 0) k.natAbs (Nat.cast_nonneg _)

/-- `x as i64`: towards zero and saturating, and 0 for what is not a number. -/
def toInt64 : Double → Int64
  | nan => 0
  | infinity neg => if neg then Int64.minValue else Int64.maxValue
  | finite neg q _ =>
    if neg then Int64.ofInt (max (-2 ^ 63) (-⌊q⌋)) else Int64.ofInt (min (2 ^ 63 - 1) ⌊q⌋)

def one : Double := ofInt 1

def two : Double := ofInt 2

def powLoop (r a : Double) (b : ℕ) : Double :=
  let r := if b % 2 = 1 then mul r a else r
  if b / 2 = 0 then r else powLoop r (mul a a) (b / 2)
termination_by b
decreasing_by omega

/-- `a.powi(b)`. -/
def powi (a : Double) (b : ℤ) : Double :=
  let r := powLoop one a b.natAbs
  if b < 0 then recip r else r

/-! ## Powers of two -/

theorem two_pow_lt_iff (n : ℕ) : (2 : ℚ) ^ n < 2 ^ 1024 ↔ n < 1024 := pow_lt_pow_iff_right₀ (by norm_num)

def twoPow (n : ℕ) : Double :=
  if h : n < 1024 then .finite false (2 ^ n) ⟨hasPrecision_two_pow n, (two_pow_lt_iff n).mpr h⟩
  else .infinity false

theorem round_of_hasPrecision {q : ℚ} (h : HasPrecision q) (neg : Bool) :
    round neg q h.nonneg = if hlt : q < 2 ^ 1024 then .finite neg q ⟨h, hlt⟩ else .infinity neg := by
  unfold round
  simp only [roundMagnitude_of_hasPrecision h]

/-- A product with a power of two is exact, or overflows. -/
theorem mul_twoPow {q : ℚ} (h : HasPrecision q ∧ q < 2 ^ 1024) {n : ℕ} (hn : n < 1024) :
    mul (.finite false q h) (twoPow n) =
      if hlt : q * 2 ^ n < 2 ^ 1024 then .finite false (q * 2 ^ n) ⟨h.1.mul_two_pow n, hlt⟩
      else .infinity false := by
  rw [twoPow, dif_pos hn]
  exact round_of_hasPrecision (h.1.mul_two_pow n) false

theorem twoPow_mul_twoPow (m n : ℕ) : mul (twoPow m) (twoPow n) = twoPow (m + n) := by
  by_cases hm : m < 1024
  · by_cases hn : n < 1024
    · rw [show twoPow m = .finite false (2 ^ m) ⟨hasPrecision_two_pow m, (two_pow_lt_iff m).mpr hm⟩ from dif_pos hm,
        mul_twoPow _ hn]
      simp only [twoPow, ← pow_add, two_pow_lt_iff]
    · have hsum : ¬m + n < 1024 := by omega
      simp [twoPow, hm, hn, hsum, mul]
  · have hsum : ¬m + n < 1024 := by omega
    by_cases hn : n < 1024 <;> simp [twoPow, hm, hn, hsum, mul]

theorem natCast_lt_of_le {n : ℕ} (h : n ≤ 2 ^ 64) : (n : ℚ) < 2 ^ 1024 := by
  have hle : (n : ℚ) ≤ 2 ^ 64 := by exact_mod_cast h
  exact hle.trans_lt (pow_lt_pow_right₀ (by norm_num) (by norm_num))

theorem hasPrecision_roundNat (n : ℕ) : HasPrecision (roundNat n) := by
  rw [← roundMagnitude_natCast]
  exact hasPrecision_roundMagnitude n.cast_nonneg

theorem ofInt_natCast {n : ℕ} (h : n < 2 ^ 64) :
    ofInt n = .finite false (roundNat n) ⟨hasPrecision_roundNat n, natCast_lt_of_le (roundNat_le h)⟩ := by
  have hneg : decide ((n : ℤ) < 0) = false := by simp
  have hlt : roundMagnitude ((n : ℤ).natAbs : ℚ) < 2 ^ 1024 := by
    rw [Int.natAbs_natCast, roundMagnitude_natCast]
    exact natCast_lt_of_le (roundNat_le h)
  rw [ofInt, round, dif_pos hlt]
  simp only [hneg, Int.natAbs_natCast, roundMagnitude_natCast]

theorem one_eq_twoPow : one = twoPow 0 := by
  have h := ofInt_natCast (n := 1) (by norm_num)
  simp only [roundNat_of_lt (n := 1) (by norm_num)] at h
  simpa [one, twoPow] using h

theorem two_eq_twoPow : two = twoPow 1 := by
  have h := ofInt_natCast (n := 2) (by norm_num)
  simp only [roundNat_of_lt (n := 2) (by norm_num)] at h
  simpa [two, twoPow] using h

/-- Squaring and multiplying powers of two adds up their exponents. -/
theorem powLoop_twoPow (i j b : ℕ) : powLoop (twoPow i) (twoPow j) b = twoPow (i + j * b) := by
  induction b using Nat.strong_induction_on generalizing i j with
  | _ b ih =>
    have hsplit : b = 2 * (b / 2) + b % 2 := (Nat.div_add_mod b 2).symm
    have hbit : (if b % 2 = 1 then mul (twoPow i) (twoPow j) else twoPow i) = twoPow (i + j * (b % 2)) := by
      rcases Nat.mod_two_eq_zero_or_one b with hb | hb
      · simp [hb]
      · simp [hb, twoPow_mul_twoPow]
    rw [powLoop, hbit, twoPow_mul_twoPow]
    by_cases hzero : b / 2 = 0
    · rw [if_pos hzero]
      have hb : b % 2 = b := by omega
      rw [hb]
    · rw [if_neg hzero, ih (b / 2) (by omega)]
      congr 1
      conv_rhs => rw [hsplit]
      ring

theorem powi_two (n : ℕ) : powi two n = twoPow n := by
  rw [powi, one_eq_twoPow, two_eq_twoPow, powLoop_twoPow]
  simp

/-! ## Back to integers -/

theorem toInt_ofInt_saturated {k : ℤ} (h : 0 ≤ k) :
    (Int64.ofInt (min (2 ^ 63 - 1) k)).toInt = min (2 ^ 63 - 1) k :=
  Int64.toInt_ofInt_of_le (by omega) (by omega)

theorem toInt64_finite_natCast {n : ℕ} {q : ℚ} (hq : q = n) (h : HasPrecision q ∧ q < 2 ^ 1024) :
    (toInt64 (.finite false q h)).toInt = min (2 ^ 63 - 1) (n : ℤ) := by
  subst hq
  simp only [toInt64, Bool.false_eq_true, if_false, Int.floor_natCast]
  exact toInt_ofInt_saturated (Int.natCast_nonneg n)

/-- An integer times a power of two, cast to and fro: rounded once, and saturating. -/
theorem toInt64_ofInt_mul_twoPow {k : ℕ} (hk : k < 2 ^ 64) (n : ℕ) :
    (toInt64 (mul (ofInt k) (twoPow n))).toInt = min (2 ^ 63 - 1) ((roundNat k * 2 ^ n : ℕ) : ℤ) := by
  have hmax : (toInt64 (.infinity false)).toInt = 2 ^ 63 - 1 := by decide
  rw [ofInt_natCast hk]
  have hover : ∀ m : ℕ, (2 : ℚ) ^ 1024 ≤ m → (2 ^ 63 - 1 : ℤ) ≤ (m : ℤ) := by
    intro m hm
    have hpow : (2 : ℚ) ^ 63 ≤ 2 ^ 1024 := pow_le_pow_right₀ (by norm_num) (by norm_num)
    have hnat : 2 ^ 63 ≤ m := by exact_mod_cast hpow.trans hm
    omega
  by_cases hn : n < 1024
  · rw [mul_twoPow _ hn]
    split
    · exact toInt64_finite_natCast (by push_cast; ring) _
    · rename_i hnot
      rw [hmax, min_eq_left (hover _ (by push_cast; exact not_lt.mp hnot))]
  · rw [twoPow, dif_neg hn]
    by_cases hzero : roundNat k = 0
    · simp [mul, hzero, toInt64]
    · have hone : 1 ≤ roundNat k := Nat.one_le_iff_ne_zero.mpr hzero
      have hle : (2 : ℚ) ^ 1024 ≤ ((roundNat k * 2 ^ n : ℕ) : ℚ) := by
        have hpow : (2 : ℚ) ^ 1024 ≤ 2 ^ n := pow_le_pow_right₀ (by norm_num) (by omega)
        have hfactor : (1 : ℚ) ≤ roundNat k := by exact_mod_cast hone
        push_cast
        exact hpow.trans (le_mul_of_one_le_left (by positivity) hfactor)
      have hcast : (roundNat k : ℚ) ≠ 0 := by exact_mod_cast hzero
      rw [min_eq_left (hover _ hle)]
      simpa [mul, hcast] using hmax

end Double

end FloatingPoint
