import JobScheduler.Admission
import JobScheduler.RateLimit

namespace JobScheduler

def admittedSince (clientKey : String) (a : ℚ) (ds : List ((String × ℤ) × Bool)) : ℕ :=
  ds.countP fun d => decide (d.1.1 = clientKey) && d.2 && decide (a ≤ d.1.2)

def admittedBetween (clientKey : String) (a b : ℤ) (ds : List ((String × ℤ) × Bool)) : ℕ :=
  ds.countP fun d => decide (d.1.1 = clientKey) && d.2 && (decide (a ≤ d.1.2) && decide (d.1.2 ≤ b))

def admittedOf (clientKey : String) (ds : List ((String × ℤ) × Bool)) : ℕ :=
  ds.countP fun d => decide (d.1.1 = clientKey) && d.2

theorem serveAll_empty (reqs : List (String × ℤ)) :
    serveAll (some bucketTtlSeconds) (fun _ => none) reqs =
      TokenBucket.serve bucketParams (fun _ => none) reqs :=
  serveAll_eq_serve (by intro d hd; cases hd; decide) (fun c => ⟨rfl, rfl⟩) (by simp)

theorem admittedSince_eq (clientKey : String) (a : ℚ) (ds : List ((String × ℤ) × Bool)) :
    admittedSince clientKey a ds = TokenBucket.admitted clientKey (fun t => decide (⌈a⌉ ≤ t)) ds := by
  unfold admittedSince TokenBucket.admitted
  congr
  funext d
  simp only [Int.ceil_le]

theorem admittedOf_eq (clientKey : String) (ds : List ((String × ℤ) × Bool)) :
    admittedOf clientKey ds = TokenBucket.admitted clientKey (fun _ => true) ds := by
  unfold admittedOf TokenBucket.admitted
  congr
  funext d
  rw [Bool.and_true]

/-- A request is let through exactly if the client's requests that have been let through in each
period up to now, with this one, are at most the capacity and the refill of the period: the limiter
turns nobody away without need, whatever the other clients do. -/
theorem rate_limit_exact (before after : List (String × ℤ)) (clientKey : String) (now : ℤ)
    (hs : ((before ++ (clientKey, now) :: after).map Prod.snd).Pairwise (· ≤ ·)) :
    ∃ ok rest, serveAll (some bucketTtlSeconds) (fun _ => none) (before ++ (clientKey, now) :: after) =
        serveAll (some bucketTtlSeconds) (fun _ => none) before ++ ((clientKey, now), ok) :: rest ∧
      (ok = true ↔ ∀ a : ℚ, a ≤ now →
        (admittedSince clientKey a (serveAll (some bucketTtlSeconds) (fun _ => none) before) : ℚ) + 1 ≤
          bucketCapacity + refillPerSecond * (now - a)) := by
  obtain ⟨ok, rest, hserve, hok⟩ := TokenBucket.serve_admits_iff (P := bucketParams) hs
  refine ⟨ok, rest, by rw [serveAll_empty, serveAll_empty]; exact hserve, hok.trans ?_⟩
  have hcost : bucketParams.cost = 1 := rfl
  have hrefill : bucketParams.refill = 1 := rfl
  have hrefill' : ((refillPerSecond : ℤ) : ℚ) = 1 := by norm_num [refillPerSecond]
  rw [serveAll_empty, hcost, hrefill, hrefill']
  constructor
  · intro hall a ha
    rw [admittedSince_eq]
    have h := hall ⌈a⌉ (Int.ceil_le.mpr ha)
    have hceil := Int.le_ceil a
    have h : ((TokenBucket.admitted clientKey (fun t => decide (⌈a⌉ ≤ t))
        (TokenBucket.serve bucketParams (fun _ => none) before) : ℚ)) + 1 ≤ bucketCapacity + (now - ⌈a⌉) := by
      have h := h
      rw [one_mul, mul_one] at h
      exact_mod_cast h
    linarith
  · intro hall a ha
    have h := hall a (by exact_mod_cast ha)
    rw [admittedSince_eq, Int.ceil_intCast, one_mul] at h
    rw [one_mul, mul_one]
    exact_mod_cast h

theorem rate_limit_exact_sample :
    ∃ ok rest, serveAll (some bucketTtlSeconds) (fun _ => none) [("user:1", 0), ("ip:2", 1), ("user:1", 5)] =
        serveAll (some bucketTtlSeconds) (fun _ => none) [("user:1", 0), ("ip:2", 1)] ++
          (("user:1", 5), ok) :: rest ∧
      (ok = true ↔ ∀ a : ℚ, a ≤ (5 : ℤ) →
        (admittedSince "user:1" a (serveAll (some bucketTtlSeconds) (fun _ => none)
          [("user:1", 0), ("ip:2", 1)]) : ℚ) + 1 ≤ bucketCapacity + refillPerSecond * ((5 : ℤ) - a)) :=
  rate_limit_exact [("user:1", 0), ("ip:2", 1)] [] "user:1" 5 (by decide)

/-- Whoever else decides about the same requests, in whichever way and with knowledge of all of them,
and keeps a client within the same bound in every period, has let through no more of the client's
requests at any time. -/
theorem rate_limit_optimal (ds : List ((String × ℤ) × Bool)) (clientKey : String)
    (hs : (ds.map fun d => d.1.2).Pairwise (· ≤ ·))
    (hwithin : ∀ a b, a ≤ b →
      (admittedBetween clientKey a b ds : ℤ) ≤ bucketCapacity + refillPerSecond * (b - a)) (n : ℕ) :
    admittedOf clientKey (ds.take n) ≤
      admittedOf clientKey ((serveAll (some bucketTtlSeconds) (fun _ => none) (ds.map Prod.fst)).take n) := by
  rw [serveAll_empty, TokenBucket.serve_take, ← List.map_take, admittedOf_eq, admittedOf_eq]
  apply TokenBucket.admitted_le_serve
  · rw [List.map_take]
    exact hs.sublist (List.take_sublist _ _)
  · intro a b hab
    have hsub : TokenBucket.admitted clientKey (fun t => decide (a ≤ t) && decide (t ≤ b)) (ds.take n) ≤
        admittedBetween clientKey a b ds := (List.take_sublist n ds).countP_le
    have hcost : bucketParams.cost = 1 := rfl
    rw [hcost, one_mul]
    calc ((TokenBucket.admitted clientKey (fun t => decide (a ≤ t) && decide (t ≤ b)) (ds.take n) : ℕ) : ℤ)
        ≤ admittedBetween clientKey a b ds := by exact_mod_cast hsub
      _ ≤ bucketCapacity + refillPerSecond * (b - a) := hwithin a b hab
      _ = bucketParams.capacity + (b - a) * bucketParams.refill := by rw [mul_comm]; rfl

theorem rate_limit_optimal_sample :
    admittedOf "user:1" ([(("user:1", 0), true), (("ip:2", 1), true), (("user:1", 5), true)].take 3) ≤
      admittedOf "user:1" ((serveAll (some bucketTtlSeconds) (fun _ => none)
        [("user:1", 0), ("ip:2", 1), ("user:1", 5)]).take 3) := by
  refine rate_limit_optimal [(("user:1", 0), true), (("ip:2", 1), true), (("user:1", 5), true)] "user:1"
    (by decide) (fun a b hab => ?_) 3
  have hle : admittedBetween "user:1" a b [(("user:1", 0), true), (("ip:2", 1), true), (("user:1", 5), true)] ≤ 3 :=
    List.countP_le_length
  have hcapacity : bucketCapacity = 60 := rfl
  have hrefill : refillPerSecond = 1 := rfl
  rw [hcapacity, hrefill]
  omega

end JobScheduler
