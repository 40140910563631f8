import Mathlib.Data.Rat.Floor
import JobScheduler.TokenBucket

namespace JobScheduler

/-! ## The keys of one Redis -/

namespace Redis

/-- A number under a key, and the time at which the key is deleted. -/
structure Entry where
  value : ℤ
  expiresAt : Option ℤ

abbrev Store := String → Option Entry

def Entry.live (e : Entry) (now : ℤ) : Bool := e.expiresAt.all fun t => now < t

/-- `GET`. -/
def get (r : Store) (now : ℤ) (key : String) : Option ℤ :=
  (r key).bind fun e => if e.live now then some e.value else none

/-- `SETEX`; without a time to live the key is never deleted. -/
def setex (r : Store) (now : ℤ) (key : String) (ttl : Option ℤ) (value : ℤ) : Store :=
  Function.update r key (some ⟨value, ttl.map (now + ·)⟩)

end Redis

/-! ## The rate limiter -/

def bucketCapacity : ℤ := 60

def refillPerSecond : ℤ := 1

def requestCost : ℤ := 1

def bucketTtlSeconds : ℤ := 120

def tokensKey (clientKey : String) : String := "rate_limit:" ++ clientKey ++ ":tokens"

def timestampKey (clientKey : String) : String := "rate_limit:" ++ clientKey ++ ":ts"

/-- The Lua script, where the keys expire by the clock of Redis: `1` for a request that is admitted. -/
def scriptAt (r : Redis.Store) (redisClock : ℤ) (tokensKey timestampKey : String)
    (capacity refillPerSecond now requested : ℤ) (ttl : Option ℤ) : ℤ × Redis.Store :=
  let tokens := (Redis.get r redisClock tokensKey).getD capacity
  let lastRefill := (Redis.get r redisClock timestampKey).getD now
  let elapsed := max 0 (now - lastRefill)
  let tokens := min capacity (tokens + elapsed * refillPerSecond)
  let (allowed, tokens) := if tokens ≥ requested then (1, tokens - requested) else (0, tokens)
  (allowed, Redis.setex (Redis.setex r redisClock tokensKey ttl tokens) redisClock timestampKey ttl now)

/-- One clock for Redis and the callers. -/
def script (r : Redis.Store) (tokensKey timestampKey : String) (capacity refillPerSecond now requested : ℤ)
    (ttl : Option ℤ) : ℤ × Redis.Store :=
  scriptAt r now tokensKey timestampKey capacity refillPerSecond now requested ttl

/-- `rate_limit_middleware` for a client key, with a Redis that does not fail: whether the request
goes on. The code's own time to live is `some bucketTtlSeconds`. -/
def rateLimitMiddleware (ttl : Option ℤ) (r : Redis.Store) (clientKey : String) (now : ℤ) :
    Bool × Redis.Store :=
  let (allowed, r') := script r (tokensKey clientKey) (timestampKey clientKey) bucketCapacity
    refillPerSecond now requestCost ttl
  (allowed = 1, r')

def serveAll (ttl : Option ℤ) : Redis.Store → List (String × ℤ) → List ((String × ℤ) × Bool)
  | _, [] => []
  | r, req :: reqs =>
    (req, (rateLimitMiddleware ttl r req.1 req.2).1) ::
      serveAll ttl (rateLimitMiddleware ttl r req.1 req.2).2 reqs

/-! ## The script refines a token bucket -/

def bucketParams : TokenBucket.Params where
  capacity := bucketCapacity
  refill := refillPerSecond
  cost := requestCost
  capacity_nonneg := by decide
  refill_nonneg := by decide
  cost_nonneg := by decide

theorem tokensKey_inj {c c' : String} : tokensKey c = tokensKey c' ↔ c = c' := by
  rw [tokensKey, tokensKey, String.append_left_inj, String.append_right_inj]

theorem timestampKey_inj {c c' : String} : timestampKey c = timestampKey c' ↔ c = c' := by
  rw [timestampKey, timestampKey, String.append_left_inj, String.append_right_inj]

/-- The two suffixes keep the two kinds of key apart, whatever the client keys are. -/
theorem tokensKey_ne_timestampKey (c c' : String) : tokensKey c ≠ timestampKey c' := by
  intro h
  have hrev := congrArg (fun k : String => k.toList.reverse) h
  simp [tokensKey, timestampKey, String.toList_append] at hrev

section Script
variable {ttl : Option ℤ} {r : Redis.Store} {c : String} {now : ℤ}

def readBucket (r : Redis.Store) (c : String) (now : ℤ) : TokenBucket.Bucket :=
  ⟨(Redis.get r now (tokensKey c)).getD bucketCapacity, (Redis.get r now (timestampKey c)).getD now⟩

theorem rateLimitMiddleware_eq :
    rateLimitMiddleware ttl r c now =
      ((bucketParams.take (readBucket r c now) now).2,
        Redis.setex
          (Redis.setex r now (tokensKey c) ttl (bucketParams.take (readBucket r c now) now).1.tokens) now
          (timestampKey c) ttl now) := by
  unfold rateLimitMiddleware script scriptAt TokenBucket.Params.take
  by_cases h : bucketParams.cost ≤ bucketParams.level (readBucket r c now) now
  · have h' : min bucketCapacity ((Redis.get r now (tokensKey c)).getD bucketCapacity +
        max 0 (now - (Redis.get r now (timestampKey c)).getD now) * refillPerSecond) ≥ requestCost := h
    simp only [if_pos h, if_pos h', decide_true]
    rfl
  · have h' : ¬min bucketCapacity ((Redis.get r now (tokensKey c)).getD bucketCapacity +
        max 0 (now - (Redis.get r now (timestampKey c)).getD now) * refillPerSecond) ≥ requestCost := h
    simp only [if_neg h, if_neg h', zero_ne_one, decide_false]
    rfl

/-- The keys of a client hold its bucket, or have not been written yet. -/
def Holds (ttl : Option ℤ) (r : Redis.Store) (c : String) : Option TokenBucket.Bucket → Prop
  | none => r (tokensKey c) = none ∧ r (timestampKey c) = none
  | some b => r (tokensKey c) = some ⟨b.tokens, ttl.map (b.last + ·)⟩ ∧
      r (timestampKey c) = some ⟨b.last, ttl.map (b.last + ·)⟩

def Outlasts (ttl : Option ℤ) : Prop := ∀ d, ttl = some d → bucketCapacity ≤ d * refillPerSecond

/-- What the script decides is what the bucket decides: if the keys are gone, it had filled up. -/
theorem take_readBucket {o : Option TokenBucket.Bucket} (httl : Outlasts ttl) (h : Holds ttl r c o)
    (hw : ∀ b, o = some b → bucketParams.Within b) :
    bucketParams.take (readBucket r c now) now = bucketParams.take (o.getD (bucketParams.full now)) now := by
  cases o with
  | none =>
    obtain ⟨ht, hs⟩ := h
    simp only [readBucket, Redis.get, ht, hs, Option.bind_none, Option.getD_none]
    rfl
  | some b =>
    obtain ⟨ht, hs⟩ := h
    simp only [readBucket, Redis.get, ht, hs, Option.bind_some, Option.getD_some]
    cases hlive : Redis.Entry.live ⟨b.tokens, ttl.map (b.last + ·)⟩ now with
    | true =>
      have hlive' : Redis.Entry.live ⟨b.last, ttl.map (b.last + ·)⟩ now = true := hlive
      simp only [hlive', if_true, Option.getD_some]
    | false =>
      have hlive' : Redis.Entry.live ⟨b.last, ttl.map (b.last + ·)⟩ now = false := hlive
      simp only [hlive', Bool.false_eq_true, if_false, Option.getD_none]
      symm
      apply TokenBucket.take_of_filled
      cases ttl with
      | none => simp [Redis.Entry.live] at hlive
      | some d =>
        simp only [Redis.Entry.live, Option.map_some, Option.all_some, decide_eq_false_iff_not, not_lt] at hlive
        have hfill := httl d rfl
        have hnn := (hw b rfl).nonneg
        simp only [bucketParams, bucketCapacity, refillPerSecond] at hfill ⊢
        omega

theorem holds_after (m : String → Option TokenBucket.Bucket) (h : ∀ c, Holds ttl r c (m c))
    (b : TokenBucket.Bucket) (hb : b.last = now) (c' : String) :
    Holds ttl (Redis.setex (Redis.setex r now (tokensKey c) ttl b.tokens) now (timestampKey c) ttl now) c'
      (Function.update m c (some b) c') := by
  by_cases hc : c' = c
  · subst hc
    rw [Function.update_self]
    refine ⟨?_, ?_⟩
    · rw [Redis.setex, Function.update_of_ne (tokensKey_ne_timestampKey _ _), Redis.setex,
        Function.update_self, hb]
    · rw [Redis.setex, Function.update_self, hb]
  · rw [Function.update_of_ne hc]
    have ht : ∀ v w, Redis.setex (Redis.setex r now (tokensKey c) ttl v) now (timestampKey c) ttl w
        (tokensKey c') = r (tokensKey c') := by
      intro v w
      rw [Redis.setex, Function.update_of_ne (tokensKey_ne_timestampKey _ _), Redis.setex,
        Function.update_of_ne (mt tokensKey_inj.mp hc)]
    have hs : ∀ v w, Redis.setex (Redis.setex r now (tokensKey c) ttl v) now (timestampKey c) ttl w
        (timestampKey c') = r (timestampKey c') := by
      intro v w
      rw [Redis.setex, Function.update_of_ne (mt timestampKey_inj.mp hc), Redis.setex,
        Function.update_of_ne (tokensKey_ne_timestampKey _ _).symm]
    have hold := h c'
    cases hm : m c' with
    | none =>
      rw [hm] at hold
      exact ⟨(ht _ _).trans hold.1, (hs _ _).trans hold.2⟩
    | some b' =>
      rw [hm] at hold
      exact ⟨(ht _ _).trans hold.1, (hs _ _).trans hold.2⟩

/-- The rate limiter decides as token buckets do, one for each client, whose keys are not deleted. -/
theorem serveAll_eq_serve (httl : Outlasts ttl) {reqs : List (String × ℤ)}
    {m : String → Option TokenBucket.Bucket} (h : ∀ c, Holds ttl r c (m c))
    (hw : ∀ c b, m c = some b → bucketParams.Within b) :
    serveAll ttl r reqs = TokenBucket.serve bucketParams m reqs := by
  induction reqs generalizing r m with
  | nil => rfl
  | cons req reqs ih =>
    obtain ⟨c, now⟩ := req
    have htake : bucketParams.take (readBucket r c now) now =
        bucketParams.take (TokenBucket.find bucketParams m c now) now := take_readBucket httl (h c) (hw c)
    simp only [serveAll, TokenBucket.serve, rateLimitMiddleware_eq, htake]
    rw [ih (holds_after m h _ TokenBucket.take_last) (TokenBucket.update_within hw now c)]

end Script

/-- Each client is admitted, in every window of time, at most as often as its full bucket and the
refill of the window allow; and nobody can tell that the keys of idle buckets are deleted. -/
theorem rate_limit_bound (reqs : List (String × ℤ)) (hs : (reqs.map Prod.snd).Pairwise (· ≤ ·)) :
    (∀ (clientKey : String) (a b : ℚ), a ≤ b →
      ((serveAll (some bucketTtlSeconds) (fun _ => none) reqs).countP fun d =>
        decide (d.1.1 = clientKey) && d.2 && decide (a ≤ d.1.2 ∧ d.1.2 ≤ b) : ℚ) ≤
        bucketCapacity + refillPerSecond * (b - a)) ∧
    serveAll (some bucketTtlSeconds) (fun _ => none) reqs = serveAll none (fun _ => none) reqs := by
  have hsome : serveAll (some bucketTtlSeconds) (fun _ => none) reqs =
      TokenBucket.serve bucketParams (fun _ => none) reqs :=
    serveAll_eq_serve (by intro d hd; cases hd; decide) (fun c => ⟨rfl, rfl⟩) (by simp)
  have hnone : serveAll none (fun _ => none) reqs = TokenBucket.serve bucketParams (fun _ => none) reqs :=
    serveAll_eq_serve (by intro d hd; cases hd) (fun c => ⟨rfl, rfl⟩) (by simp)
  refine ⟨fun clientKey a b hab => ?_, hsome.trans hnone.symm⟩
  rw [hsome]
  -- times are whole seconds: the window can be shrunk to whole seconds as well
  have hpred : (fun d : (String × ℤ) × Bool =>
      decide (d.1.1 = clientKey) && d.2 && decide (a ≤ d.1.2 ∧ d.1.2 ≤ b)) =
      fun d => decide (d.1.1 = clientKey) && d.2 && (decide (⌈a⌉ ≤ d.1.2) && decide (d.1.2 ≤ ⌊b⌋)) := by
    funext d
    rw [Bool.decide_and]
    simp only [Int.ceil_le, Int.le_floor]
  rw [hpred]
  have ha := Int.le_ceil a
  have hb := Int.floor_le b
  by_cases hle : ⌈a⌉ ≤ ⌊b⌋
  · have hw := TokenBucket.admitted_window_le (P := bucketParams) (k := clientKey) hle hs (m := fun _ => none)
      (by simp)
    have hcost : bucketParams.cost = 1 := rfl
    have hrefill : bucketParams.refill = 1 := rfl
    rw [hcost, hrefill, one_mul, mul_one] at hw
    have hw : ((TokenBucket.admitted clientKey (fun t => decide (⌈a⌉ ≤ t) && decide (t ≤ ⌊b⌋))
        (TokenBucket.serve bucketParams (fun _ => none) reqs) : ℤ) : ℚ) ≤ bucketCapacity + (⌊b⌋ - ⌈a⌉) := by
      exact_mod_cast hw
    simp only [refillPerSecond, Int.cast_one, one_mul]
    refine le_trans (le_trans (le_of_eq ?_) hw) (by linarith)
    rw [Int.cast_natCast]
    rfl
  · have hzero : ((TokenBucket.serve bucketParams (fun _ => none) reqs).countP fun d =>
        decide (d.1.1 = clientKey) && d.2 && (decide (⌈a⌉ ≤ d.1.2) && decide (d.1.2 ≤ ⌊b⌋))) = 0 := by
      rw [List.countP_eq_zero]
      intro d _ hd
      simp only [Bool.and_eq_true, decide_eq_true_eq] at hd
      omega
    rw [hzero]
    simp only [bucketCapacity, refillPerSecond]
    push_cast
    linarith

/-- Two clients, one of them back after its keys have been deleted. -/
theorem rate_limit_bound_sample :
    ((serveAll (some bucketTtlSeconds) (fun _ => none)
        [("user:1", 0), ("ip:2", 1), ("user:1", 5), ("user:1", 200)]).countP fun d =>
      decide (d.1.1 = "user:1") && d.2 && decide ((0 : ℚ) ≤ d.1.2 ∧ (d.1.2 : ℚ) ≤ 7 / 2) : ℚ) ≤
      bucketCapacity + refillPerSecond * (7 / 2 - 0) ∧
    serveAll (some bucketTtlSeconds) (fun _ => none)
      [("user:1", 0), ("ip:2", 1), ("user:1", 5), ("user:1", 200)] =
      serveAll none (fun _ => none) [("user:1", 0), ("ip:2", 1), ("user:1", 5), ("user:1", 200)] := by
  have h := rate_limit_bound [("user:1", 0), ("ip:2", 1), ("user:1", 5), ("user:1", 200)] (by decide)
  exact ⟨h.1 "user:1" 0 (7 / 2) (by norm_num), h.2⟩

end JobScheduler
