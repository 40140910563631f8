import Mathlib.Logic.Function.Basic
import Mathlib.Tactic

namespace TokenBucket

/-- A token bucket: what it holds at most, what flows in per unit of time, and the price of one
admission. -/
structure Params where
  capacity : ℤ
  refill : ℤ
  cost : ℤ
  capacity_nonneg : 0 ≤ capacity
  refill_nonneg : 0 ≤ refill
  cost_nonneg : 0 ≤ cost

/-- What a bucket held after its last request, and when that was. -/
structure Bucket where
  tokens : ℤ
  last : ℤ

namespace Params

def level (P : Params) (b : Bucket) (now : ℤ) : ℤ :=
  min P.capacity (b.tokens + max 0 (now - b.last) * P.refill)

def take (P : Params) (b : Bucket) (now : ℤ) : Bucket × Bool :=
  if P.cost ≤ P.level b now then (⟨P.level b now - P.cost, now⟩, true) else (⟨P.level b now, now⟩, false)

def full (P : Params) (now : ℤ) : Bucket := ⟨P.capacity, now⟩

structure Within (P : Params) (b : Bucket) : Prop where
  nonneg : 0 ≤ b.tokens
  le : b.tokens ≤ P.capacity

end Params

section Take
variable {P : Params} {b : Bucket} {now : ℤ}

theorem level_le_capacity : P.level b now ≤ P.capacity := min_le_left _ _

theorem level_nonneg (h : P.Within b) : 0 ≤ P.level b now := by
  have hin : 0 ≤ max 0 (now - b.last) * P.refill := mul_nonneg (le_max_left _ _) P.refill_nonneg
  exact le_min P.capacity_nonneg (add_nonneg h.nonneg hin)

theorem level_le (h : b.last ≤ now) : P.level b now ≤ b.tokens + (now - b.last) * P.refill := by
  have hmax : max 0 (now - b.last) = now - b.last := max_eq_right (by omega)
  rw [Params.level, hmax]
  exact min_le_right _ _

theorem level_full : P.level (P.full now) now = P.capacity := by
  simp [Params.level, Params.full]

theorem take_last : (P.take b now).1.last = now := by
  unfold Params.take
  split <;> rfl

/-- Every admission is paid for out of the level. -/
theorem take_tokens (P : Params) (b : Bucket) (now : ℤ) :
    (P.take b now).1.tokens + (if (P.take b now).2 then P.cost else 0) = P.level b now := by
  unfold Params.take
  split <;> simp

theorem take_within (h : P.Within b) : P.Within (P.take b now).1 := by
  have hcap : P.level b now ≤ P.capacity := level_le_capacity
  have hnn : 0 ≤ P.level b now := level_nonneg h
  have hcost := P.cost_nonneg
  unfold Params.take
  split
  · exact ⟨by simp; omega, by simp; omega⟩
  · exact ⟨hnn, hcap⟩

theorem within_full : P.Within (P.full now) := ⟨P.capacity_nonneg, le_refl P.capacity⟩

/-- A bucket that had the time to fill up is as good as a new one. -/
theorem take_of_filled (h : P.capacity ≤ b.tokens + (now - b.last) * P.refill) :
    P.take b now = P.take (P.full now) now := by
  have hle : now - b.last ≤ max 0 (now - b.last) := le_max_right _ _
  have hin := mul_le_mul_of_nonneg_right hle P.refill_nonneg
  have hlevel : P.level b now = P.capacity := min_eq_left (by omega)
  simp only [Params.take, hlevel, level_full]

end Take

/-! ## Buckets under keys -/

section Serve
variable {κ : Type} {P : Params} {m : κ → Option Bucket} {k : κ}

/-- The bucket a request under key `k` finds: a full one, if it is the first. -/
def find (P : Params) (m : κ → Option Bucket) (k : κ) (now : ℤ) : Bucket := (m k).getD (P.full now)

theorem find_within (hm : ∀ k b, m k = some b → P.Within b) (now : ℤ) : P.Within (find P m k now) := by
  unfold find
  cases h : m k with
  | none => exact within_full
  | some b => exact hm k b h

variable [DecidableEq κ]

def serve (P : Params) : (κ → Option Bucket) → List (κ × ℤ) → List ((κ × ℤ) × Bool)
  | _, [] => []
  | m, r :: rs =>
    (r, (P.take (find P m r.1 r.2) r.2).2) ::
      serve P (Function.update m r.1 (some (P.take (find P m r.1 r.2) r.2).1)) rs

def admitted (k : κ) (p : ℤ → Bool) (ds : List ((κ × ℤ) × Bool)) : ℕ :=
  ds.countP fun d => decide (d.1.1 = k) && d.2 && p d.1.2

theorem admitted_cons (p : ℤ → Bool) (d : (κ × ℤ) × Bool) (ds : List ((κ × ℤ) × Bool)) :
    admitted k p (d :: ds) = admitted k p ds + if d.1.1 = k ∧ d.2 = true ∧ p d.1.2 = true then 1 else 0 := by
  simp only [admitted, List.countP_cons, Bool.and_eq_true, decide_eq_true_eq, and_assoc]

theorem update_within (hm : ∀ k b, m k = some b → P.Within b) (now : ℤ) (k₀ : κ) :
    ∀ k b, Function.update m k₀ (some (P.take (find P m k₀ now) now).1) k = some b → P.Within b := by
  intro k b h
  by_cases hk : k = k₀
  · subst hk
    rw [Function.update_self] at h
    cases h
    exact take_within (find_within hm now)
  · rw [Function.update_of_ne hk] at h
    exact hm k b h

theorem admitted_eq_zero {p : ℤ → Bool} {rs : List (κ × ℤ)} (h : ∀ r ∈ rs, p r.2 = false) :
    admitted k p (serve P m rs) = 0 := by
  induction rs generalizing m with
  | nil => rfl
  | cons r rs ih =>
    have hr : p r.2 = false := h r List.mem_cons_self
    rw [serve, admitted_cons, ih fun r' hr' => h r' (List.mem_cons_of_mem _ hr')]
    simp [hr]

/-- The tokens left and those that flow in until `e` pay for all admissions up to `e`. -/
theorem admitted_until_le (e : ℤ) {b : Bucket} {rs : List (κ × ℤ)} (hs : (rs.map Prod.snd).Pairwise (· ≤ ·))
    (hm : ∀ k b, m k = some b → P.Within b) (hk : m k = some b) (hb : b.last ≤ e)
    (hlast : ∀ r ∈ rs, b.last ≤ r.2) :
    P.cost * admitted k (fun t => decide (t ≤ e)) (serve P m rs) ≤ b.tokens + (e - b.last) * P.refill := by
  induction rs generalizing m b with
  | nil =>
    have hin : 0 ≤ (e - b.last) * P.refill := mul_nonneg (by omega) P.refill_nonneg
    have := (hm k b hk).nonneg
    simp only [serve, admitted, List.countP_nil, Nat.cast_zero, mul_zero]
    omega
  | cons r rs ih =>
    obtain ⟨k₀, now⟩ := r
    obtain ⟨hhead, hs⟩ := List.pairwise_cons.mp hs
    have hle : b.last ≤ now := hlast (k₀, now) List.mem_cons_self
    have hrest : ∀ r ∈ rs, now ≤ r.2 := fun r hr => hhead _ (List.mem_map_of_mem hr)
    have hstep : admitted k (fun t => decide (t ≤ e)) (serve P m ((k₀, now) :: rs)) =
        admitted k (fun t => decide (t ≤ e))
          (serve P (Function.update m k₀ (some (P.take (find P m k₀ now) now).1)) rs) +
          if k₀ = k ∧ (P.take (find P m k₀ now) now).2 = true ∧ decide (now ≤ e) = true then 1 else 0 :=
      admitted_cons _ _ _
    by_cases he : now ≤ e
    · by_cases hkey : k₀ = k
      · -- the bucket of `k` moves on to this request
        subst hkey
        have hfind : find P m k₀ now = b := by rw [find, hk]; rfl
        rw [hfind] at hstep
        have hwithin := update_within hm now k₀
        rw [hfind] at hwithin
        have hih := ih (b := (P.take b now).1) hs hwithin (Function.update_self ..)
          (by rw [take_last]; exact he) (by rw [take_last]; exact hrest)
        rw [take_last] at hih
        have hpay := take_tokens P b now
        have hlev := level_le (P := P) hle
        have hsplit : (now - b.last) * P.refill + (e - now) * P.refill = (e - b.last) * P.refill := by ring
        rw [hstep]
        cases hok : (P.take b now).2 with
        | false =>
          simp only [hok, Bool.false_eq_true, if_false] at hpay
          simp only [Bool.false_eq_true, false_and, and_false, if_false, Nat.add_zero]
          linarith
        | true =>
          simp only [hok, if_true] at hpay
          simp only [he, decide_true, and_self, if_true]
          push_cast
          linarith
      · have hk' : Function.update m k₀ (some (P.take (find P m k₀ now) now).1) k = some b := by
          rw [Function.update_of_ne (fun h => hkey h.symm)]
          exact hk
        have hih := ih hs (update_within hm now k₀) hk' hb fun r hr => hle.trans (hrest r hr)
        rw [hstep, if_neg fun h => hkey h.1]
        exact hih
    · -- this request and all later ones come after `e`
      have hzero : admitted k (fun t => decide (t ≤ e)) (serve P m ((k₀, now) :: rs)) = 0 := by
        apply admitted_eq_zero
        intro r hr
        rcases List.mem_cons.mp hr with rfl | hr
        · exact decide_eq_false he
        · have := hrest r hr
          exact decide_eq_false (by omega)
      have hin : 0 ≤ (e - b.last) * P.refill := mul_nonneg (by omega) P.refill_nonneg
      have := (hm k b hk).nonneg
      rw [hzero, Nat.cast_zero, mul_zero]
      omega

/-- In no window are more requests admitted than a full bucket and what flows in meanwhile pay
for. -/
theorem admitted_window_le {a e : ℤ} (hae : a ≤ e) {rs : List (κ × ℤ)}
    (hs : (rs.map Prod.snd).Pairwise (· ≤ ·)) (hm : ∀ k b, m k = some b → P.Within b) :
    P.cost * admitted k (fun t => decide (a ≤ t) && decide (t ≤ e)) (serve P m rs) ≤
      P.capacity + (e - a) * P.refill := by
  have hin : 0 ≤ (e - a) * P.refill := mul_nonneg (by omega) P.refill_nonneg
  have hcap := P.capacity_nonneg
  induction rs generalizing m with
  | nil =>
    simp only [serve, admitted, List.countP_nil, Nat.cast_zero, mul_zero]
    omega
  | cons r rs ih =>
    obtain ⟨k₀, now⟩ := r
    obtain ⟨hhead, hs⟩ := List.pairwise_cons.mp hs
    have hrest : ∀ r ∈ rs, now ≤ r.2 := fun r hr => hhead _ (List.mem_map_of_mem hr)
    have hstep : admitted k (fun t => decide (a ≤ t) && decide (t ≤ e)) (serve P m ((k₀, now) :: rs)) =
        admitted k (fun t => decide (a ≤ t) && decide (t ≤ e))
          (serve P (Function.update m k₀ (some (P.take (find P m k₀ now) now).1)) rs) +
          if k₀ = k ∧ (P.take (find P m k₀ now) now).2 = true ∧
            (decide (a ≤ now) && decide (now ≤ e)) = true then 1 else 0 := admitted_cons _ _ _
    have hih := ih hs (update_within hm now k₀)
    by_cases hfirst : k₀ = k ∧ a ≤ now ∧ now ≤ e
    · -- the first request of the window finds at most a full bucket
      obtain ⟨rfl, ha, he⟩ := hfirst
      have hlater := admitted_until_le (k := k₀) e hs (update_within hm now k₀) (Function.update_self ..)
        (by rw [take_last]; exact he) (by rw [take_last]; exact hrest)
      rw [take_last] at hlater
      have hsub : admitted k₀ (fun t => decide (a ≤ t) && decide (t ≤ e))
          (serve P (Function.update m k₀ (some (P.take (find P m k₀ now) now).1)) rs) ≤
          admitted k₀ (fun t => decide (t ≤ e))
          (serve P (Function.update m k₀ (some (P.take (find P m k₀ now) now).1)) rs) := by
        apply List.countP_mono_left
        intro d _ hd
        simp only [Bool.and_eq_true] at hd ⊢
        exact ⟨hd.1, hd.2.2⟩
      have hsub := mul_le_mul_of_nonneg_left (Int.ofNat_le.mpr hsub) P.cost_nonneg
      have hpay := take_tokens P (find P m k₀ now) now
      have hlev : P.level (find P m k₀ now) now ≤ P.capacity := level_le_capacity
      have hflow : (e - now) * P.refill ≤ (e - a) * P.refill :=
        mul_le_mul_of_nonneg_right (by omega) P.refill_nonneg
      rw [hstep]
      cases hok : (P.take (find P m k₀ now) now).2 with
      | false =>
        simp only [hok, Bool.false_eq_true, if_false] at hpay
        simp only [Bool.false_eq_true, false_and, and_false, if_false, Nat.add_zero]
        linarith
      | true =>
        simp only [hok, if_true] at hpay
        simp only [ha, he, decide_true, Bool.and_self, and_self, if_true]
        push_cast
        linarith
    · rw [hstep, if_neg (by simpa using fun h _ ha => not_le.mp fun he => hfirst ⟨h, ha, he⟩)]
      exact hih

end Serve

end TokenBucket
