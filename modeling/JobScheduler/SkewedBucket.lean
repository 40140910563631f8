import JobScheduler.TokenBucket

namespace TokenBucket

/-! ## One bucket, its requests reading any times in any order -/

section Readings
variable {P : Params} {b b' : Bucket} {t : ℤ} {ts us : List ℤ}

def feed (P : Params) : Bucket → List ℤ → Bucket
  | b, [] => b
  | b, t :: ts => feed P (P.take b t).1 ts

def passed (P : Params) : Bucket → List ℤ → ℕ
  | _, [] => 0
  | b, t :: ts => (P.take b t).2.toNat + passed P (P.take b t).1 ts

def Params.inflow (P : Params) (last now : ℤ) : ℤ := min P.capacity (max 0 (now - last) * P.refill)

def refilled (P : Params) : ℤ → List ℤ → ℤ
  | _, [] => 0
  | last, t :: ts => P.inflow last t + refilled P t ts

@[simp] theorem feed_append : feed P b (ts ++ us) = feed P (feed P b ts) us := by
  induction ts generalizing b with
  | nil => rfl
  | cons t ts ih => exact ih

@[simp] theorem passed_append : passed P b (ts ++ us) = passed P b ts + passed P (feed P b ts) us := by
  induction ts generalizing b with
  | nil => simp [passed, feed]
  | cons t ts ih => simp only [List.cons_append, passed, feed, ih, Nat.add_assoc]

theorem feed_within (h : P.Within b) : P.Within (feed P b ts) := by
  induction ts generalizing b with
  | nil => exact h
  | cons t ts ih => exact ih (take_within h)

theorem feed_last (h : ts ≠ []) : (feed P b ts).last = ts.getLast h := by
  induction ts generalizing b with
  | nil => exact absurd rfl h
  | cons t ts ih =>
    cases ts with
    | nil => exact take_last
    | cons u us =>
      rw [List.getLast_cons (List.cons_ne_nil u us), feed]
      exact ih (List.cons_ne_nil u us)

@[simp] theorem inflow_self : P.inflow t t = 0 := by
  simp [Params.inflow, P.capacity_nonneg]

theorem level_of_le (h : t ≤ b.last) : P.level b t = min P.capacity b.tokens := by
  have hmax : max 0 (t - b.last) = 0 := max_eq_left (by omega)
  simp [Params.level, hmax]

theorem take_tokens_le : (P.take b t).1.tokens ≤ P.level b t := by
  have hpay := take_tokens P b t
  have hcost := P.cost_nonneg
  split at hpay <;> omega

theorem level_le_inflow (h : 0 ≤ b.tokens) : P.level b t ≤ b.tokens + P.inflow b.last t := by
  unfold Params.level Params.inflow
  omega

/-- Whatever the order of the readings, the tokens there were and those that flow in pay for every
admission. -/
theorem passed_le (h : P.Within b) (ts : List ℤ) : P.cost * passed P b ts ≤ b.tokens + refilled P b.last ts := by
  induction ts generalizing b with
  | nil => simpa [passed, refilled] using h.nonneg
  | cons t ts ih =>
    have hwithin : P.Within (P.take b t).1 := take_within h
    have hrest := ih hwithin
    have hpay := take_tokens P b t
    have hlevel := level_le_inflow (P := P) (t := t) h.nonneg
    rw [take_last] at hrest
    simp only [passed, refilled]
    cases hok : (P.take b t).2 <;> simp only [hok, Bool.toNat_true, Bool.toNat_false, if_true, if_false,
      Bool.false_eq_true] at hpay ⊢ <;> push_cast <;> linarith

theorem take_level : P.take ⟨P.level b t, t⟩ t = P.take b t := by
  have hlevel : P.level ⟨P.level b t, t⟩ t = P.level b t := by
    have hle : P.level b t ≤ P.capacity := level_le_capacity
    rw [Params.level, sub_self, max_self, zero_mul, add_zero]
    exact min_eq_right hle
  simp only [Params.take, hlevel]

theorem passed_level : passed P ⟨P.level b t, t⟩ (t :: ts) = passed P b (t :: ts) := by
  simp only [passed, take_level]

theorem feed_level : feed P ⟨P.level b t, t⟩ (t :: ts) = feed P b (t :: ts) := by
  simp only [feed, take_level]

theorem level_mono (hl : b.last = b'.last) (ht : b.tokens ≤ b'.tokens) : P.level b t ≤ P.level b' t := by
  unfold Params.level
  rw [hl]
  exact min_le_min_left _ (by omega)

section Unit
variable (hcost : P.cost = 1)
include hcost

theorem take_mono (h : P.level b t ≤ P.level b' t) :
    (P.take b t).1.tokens ≤ (P.take b' t).1.tokens ∧ (P.take b t).2.toNat ≤ (P.take b' t).2.toNat := by
  simp only [Params.take, hcost]
  split <;> split <;> simp <;> omega

theorem passed_mono (h : P.level b t ≤ P.level b' t) : passed P b (t :: ts) ≤ passed P b' (t :: ts) := by
  induction ts generalizing b b' t with
  | nil =>
    have := (take_mono hcost h).2
    simpa only [passed, Nat.add_zero] using this
  | cons u us ih =>
    obtain ⟨htokens, hcount⟩ := take_mono hcost h
    have hlast : (P.take b t).1.last = (P.take b' t).1.last := by rw [take_last, take_last]
    exact Nat.add_le_add hcount (ih (level_mono hlast htokens))

theorem drain {x : ℤ} {n : ℕ} (h₀ : 0 ≤ x) (hx : x ≤ n) (hcap : x ≤ P.capacity) :
    (passed P ⟨x, t⟩ (List.replicate n t) : ℤ) = x ∧ feed P ⟨x, t⟩ (List.replicate n t) = ⟨0, t⟩ := by
  induction n generalizing x with
  | zero =>
    obtain rfl : x = 0 := by omega
    exact ⟨rfl, rfl⟩
  | succ n ih =>
    have hlevel : P.level ⟨x, t⟩ t = x := by
      simp [Params.level, hcap]
    simp only [List.replicate_succ, passed, feed, Params.take, hcost, hlevel]
    split
    · obtain ⟨hp, hf⟩ := ih (x := x - 1) (by omega) (by push_cast at hx; omega) (by omega)
      refine ⟨?_, hf⟩
      push_cast
      rw [hp]
      simp
    · obtain rfl : x = 0 := by omega
      obtain ⟨hp, hf⟩ := ih (x := 0) le_rfl (by omega) hcap
      refine ⟨?_, hf⟩
      push_cast
      rw [hp]
      rfl

theorem drain_burst (h : P.Within b) (t : ℤ) :
    (passed P b (List.replicate (P.capacity.toNat + 1) t) : ℤ) = P.level b t ∧
      feed P b (List.replicate (P.capacity.toNat + 1) t) = ⟨0, t⟩ := by
  have hle : P.level b t ≤ P.capacity := level_le_capacity
  rw [List.replicate_succ, ← passed_level, ← feed_level, ← List.replicate_succ]
  exact drain hcost (level_nonneg h) (by push_cast; omega) hle

/-- A request with an older reading that is not followed by a climb, unless by one that fills the
bucket anyway, gains later requests nothing. -/
theorem passed_older_le (hold : t ≤ b.last) (h : P.Within b)
    (hclimb : ∀ u us, ts = u :: us → t < u → P.capacity ≤ (u - b.last) * P.refill) :
    passed P (P.take b t).1 ts ≤ passed P b ts := by
  cases ts with
  | nil => exact le_rfl
  | cons u us =>
    apply passed_mono hcost
    by_cases hu : t < u
    · have hfill := hclimb u us rfl hu
      have hmax : u - b.last ≤ max 0 (u - b.last) := le_max_right _ _
      have hin := mul_le_mul_of_nonneg_right hmax P.refill_nonneg
      have hfull : P.level b u = P.capacity := min_eq_left (by have := h.nonneg; omega)
      rw [hfull]
      exact level_le_capacity
    · have hleft := level_of_le (P := P) (b := (P.take b t).1) (t := u) (by rw [take_last]; omega)
      have hright := level_of_le (P := P) (b := b) (t := u) (by omega)
      have htake := take_tokens_le (P := P) (b := b) (t := t)
      have hsame := level_of_le (P := P) (b := b) (t := t) hold
      have hmin := min_le_right P.capacity b.tokens
      rw [hleft, hright]
      exact min_le_min_left _ (by omega)

/-- After an older reading a climb short of what fills the bucket lets more requests through. -/
theorem passed_older_gt (ts : List ℤ) {last u : ℤ} (hcap : 0 < P.capacity) (hrefill : 0 < P.refill) (hold : t < last)
    (hu : t < u) (hshort : (u - last) * P.refill < P.capacity) :
    passed P ⟨0, last⟩ (List.replicate (P.capacity.toNat + 1) u ++ ts) <
      passed P (P.take ⟨0, last⟩ t).1 (List.replicate (P.capacity.toNat + 1) u ++ ts) := by
  have hempty : ∀ l, P.Within ⟨0, l⟩ := fun l => ⟨le_rfl, hcap.le⟩
  have htake : (P.take ⟨0, last⟩ t).1 = ⟨0, t⟩ := by
    have hlevel : P.level ⟨0, last⟩ t = 0 := by
      rw [level_of_le hold.le]
      exact min_eq_right hcap.le
    simp [Params.take, hlevel, hcost]
  obtain ⟨hp, hf⟩ := drain_burst hcost (hempty last) u
  obtain ⟨hp', hf'⟩ := drain_burst hcost (hempty t) u
  have hgain : P.level ⟨0, last⟩ u < P.level ⟨0, t⟩ u := by
    have hpos : 0 < (u - t) * P.refill := mul_pos (by omega) hrefill
    have hmore : (u - last) * P.refill < (u - t) * P.refill := mul_lt_mul_of_pos_right (by omega) hrefill
    have hmax : max 0 (u - t) = u - t := max_eq_right (by omega)
    simp only [Params.level, zero_add, hmax]
    rcases le_total u last with hle | hle
    · rw [max_eq_left (by omega : u - last ≤ 0), zero_mul]
      omega
    · rw [max_eq_right (by omega : 0 ≤ u - last)]
      omega
  rw [htake, passed_append, passed_append, hf, hf']
  omega

end Unit

/-! ## Readings that come any number of times -/

/-- Each reading comes once, and as often again as it says. -/
def spread : List (ℤ × ℕ) → List ℤ
  | [] => []
  | (t, n) :: ds => List.replicate (n + 1) t ++ spread ds

theorem mem_spread {ds : List (ℤ × ℕ)} : t ∈ spread ds ↔ t ∈ ds.map Prod.fst := by
  induction ds with
  | nil => rfl
  | cons d ds ih => simp [spread, ih]

@[simp] theorem spread_append (ds es : List (ℤ × ℕ)) : spread (ds ++ es) = spread ds ++ spread es := by
  induction ds with
  | nil => rfl
  | cons d ds ih => simp [spread, ih]

theorem spread_once (ts : List ℤ) : spread (ts.map fun t => (t, 0)) = ts := by
  induction ts with
  | nil => rfl
  | cons t ts ih => exact congrArg (t :: ·) ih

theorem refilled_replicate (n : ℕ) (last : ℤ) :
    refilled P last (List.replicate (n + 1) t ++ ts) = P.inflow last t + refilled P t ts := by
  induction n generalizing last with
  | zero => rfl
  | succ n ih =>
    rw [List.replicate_succ, List.cons_append, refilled, ih, inflow_self, zero_add]

theorem refilled_spread (ds : List (ℤ × ℕ)) (last : ℤ) :
    refilled P last (spread ds) = refilled P last (ds.map Prod.fst) := by
  induction ds generalizing last with
  | nil => rfl
  | cons d ds ih => rw [spread, refilled_replicate, ih]; rfl

theorem prefix_of_spread {l : List ℤ} (hl : l.IsChain (· ≠ ·)) {ds : List (ℤ × ℕ)} (h : l <+: spread ds) :
    l <+: ds.map Prod.fst := by
  induction ds generalizing l with
  | nil => exact h
  | cons d ds ih =>
    obtain ⟨t, n⟩ := d
    rw [spread, List.replicate_succ, List.cons_append] at h
    cases l with
    | nil => exact List.nil_prefix
    | cons x l =>
      obtain ⟨rfl, h⟩ := List.cons_prefix_cons.mp h
      refine List.cons_prefix_cons.mpr ⟨rfl, ?_⟩
      cases l with
      | nil => exact List.nil_prefix
      | cons y l =>
        obtain ⟨hxy, hl⟩ := List.isChain_cons_cons.mp hl
        cases n with
        | zero => exact ih hl h
        | succ n =>
          rw [List.replicate_succ, List.cons_append] at h
          exact absurd (List.cons_prefix_cons.mp h).1.symm hxy

theorem infix_of_spread {l : List ℤ} (hl : l.IsChain (· ≠ ·)) {ds : List (ℤ × ℕ)} (h : l <:+: spread ds) :
    l <:+: ds.map Prod.fst := by
  induction ds with
  | nil => exact h
  | cons d ds ih =>
    obtain ⟨t, n⟩ := d
    induction n with
    | zero =>
      rw [spread, List.replicate_one, List.singleton_append, List.infix_cons_iff] at h
      rcases h with h | h
      · have hprefix : l <+: ((t, 0) :: ds).map Prod.fst := prefix_of_spread hl h
        exact hprefix.isInfix
      · exact (ih h).trans (List.suffix_cons _ _).isInfix
    | succ n ihn =>
      rw [spread, List.replicate_succ, List.cons_append, List.infix_cons_iff] at h
      rcases h with h | h
      · have hprefix : l <+: ((t, n + 1) :: ds).map Prod.fst := prefix_of_spread hl h
        exact hprefix.isInfix
      · exact ihn h

def saturate (P : Params) (ts : List ℤ) : List (ℤ × ℕ) := ts.map fun t => (t, P.capacity.toNat)

theorem getLast?_saturate (ts : List ℤ) (last : ℤ) :
    (spread (saturate P (ts ++ [last]))).getLast? = some last := by
  have hsplit : saturate P (ts ++ [last]) = saturate P ts ++ [(last, P.capacity.toNat)] := List.map_append
  rw [hsplit, spread_append, spread, spread, List.append_nil, List.getLast?_append, List.getLast?_replicate,
    if_neg (Nat.succ_ne_zero _)]
  rfl

section Saturated
variable (hcost : P.cost = 1)
include hcost

theorem passed_saturate (ts : List ℤ) (last : ℤ) :
    (passed P ⟨0, last⟩ (spread (saturate P ts)) : ℤ) = refilled P last ts := by
  induction ts generalizing last with
  | nil => rfl
  | cons t ts ih =>
    have hempty : P.Within ⟨0, last⟩ := ⟨le_rfl, P.capacity_nonneg⟩
    obtain ⟨hp, hf⟩ := drain_burst hcost hempty t
    have hlevel : P.level ⟨0, last⟩ t = P.inflow last t := by simp [Params.level, Params.inflow]
    have hrest : (passed P ⟨0, t⟩ (spread (saturate P ts)) : ℤ) = refilled P t ts := ih t
    simp only [saturate, List.map_cons, spread, passed_append, hf]
    push_cast
    rw [hp, hlevel]
    exact congrArg _ hrest

theorem feed_saturate (h : P.Within b) (ts : List ℤ) (last : ℤ) :
    feed P b (spread (saturate P (ts ++ [last]))) = ⟨0, last⟩ := by
  have hsplit : saturate P (ts ++ [last]) = saturate P ts ++ [(last, P.capacity.toNat)] := List.map_append
  rw [hsplit, spread_append, feed_append, spread, spread, List.append_nil]
  exact (drain_burst hcost (feed_within h) last).2

end Saturated

end Readings

/-! ## The bucket of one key among many -/

section Keyed
variable {κ : Type} [DecidableEq κ] {P : Params} {m : κ → Option Bucket} {k : κ} {rs rs' : List (κ × ℤ)}

def readings (k : κ) (rs : List (κ × ℤ)) : List ℤ := (rs.filter fun r => decide (r.1 = k)).map Prod.snd

def served (P : Params) : (κ → Option Bucket) → List (κ × ℤ) → κ → Option Bucket
  | m, [] => m
  | m, r :: rs => served P (Function.update m r.1 (some (P.take (find P m r.1 r.2) r.2).1)) rs

def bucketFor (P : Params) (o : Option Bucket) (ts : List ℤ) : Bucket := o.getD (P.full (ts.headD 0))

@[simp] theorem readings_append : readings k (rs ++ rs') = readings k rs ++ readings k rs' := by
  simp [readings]

theorem readings_cons_self (t : ℤ) : readings k ((k, t) :: rs) = t :: readings k rs := by
  simp [readings]

theorem readings_cons_of_ne {k' : κ} (h : k' ≠ k) (t : ℤ) : readings k ((k', t) :: rs) = readings k rs := by
  simp [readings, h]

theorem readings_map (ts : List ℤ) : readings k (ts.map fun t => (k, t)) = ts := by
  induction ts with
  | nil => rfl
  | cons t ts ih => rw [List.map_cons, readings_cons_self, ih]

theorem serve_append : serve P m (rs ++ rs') = serve P m rs ++ serve P (served P m rs) rs' := by
  induction rs generalizing m with
  | nil => rfl
  | cons r rs ih => simp only [List.cons_append, serve, served, ih]

theorem length_serve : (serve P m rs).length = rs.length := by
  induction rs generalizing m with
  | nil => rfl
  | cons r rs ih => simp [serve, ih]

theorem admitted_eq_passed : admitted k (fun _ => true) (serve P m rs) =
    passed P (bucketFor P (m k) (readings k rs)) (readings k rs) := by
  induction rs generalizing m with
  | nil => rfl
  | cons r rs ih =>
    obtain ⟨k', t⟩ := r
    rw [serve, admitted_cons, ih]
    by_cases hk : k' = k
    · subst hk
      rw [readings_cons_self, Function.update_self, passed]
      have hfind : find P m k' t = bucketFor P (m k') (t :: readings k' rs) := rfl
      rw [hfind, Nat.add_comm]
      cases (P.take (bucketFor P (m k') (t :: readings k' rs)) t).2 <;> simp [bucketFor]
    · rw [readings_cons_of_ne hk, Function.update_of_ne (Ne.symm hk)]
      simp [hk]

theorem served_of_readings_nil (h : readings k rs = []) : served P m rs k = m k := by
  induction rs generalizing m with
  | nil => rfl
  | cons r rs ih =>
    obtain ⟨k', t⟩ := r
    by_cases hk : k' = k
    · subst hk
      rw [readings_cons_self] at h
      cases h
    · rw [readings_cons_of_ne hk] at h
      rw [served, ih h, Function.update_of_ne (Ne.symm hk)]

theorem served_eq_feed (h : readings k rs ≠ []) :
    served P m rs k = some (feed P (bucketFor P (m k) (readings k rs)) (readings k rs)) := by
  induction rs generalizing m with
  | nil => exact absurd rfl h
  | cons r rs ih =>
    obtain ⟨k', t⟩ := r
    by_cases hk : k' = k
    · subst hk
      have hfind : find P m k' t = bucketFor P (m k') (t :: readings k' rs) := rfl
      rw [served, readings_cons_self, feed, hfind]
      by_cases hnil : readings k' rs = []
      · rw [served_of_readings_nil hnil, Function.update_self, hnil]
        rfl
      · rw [ih hnil, Function.update_self]
        rfl
    · rw [readings_cons_of_ne hk] at h ⊢
      rw [served, ih h, Function.update_of_ne (Ne.symm hk)]

end Keyed
end TokenBucket
