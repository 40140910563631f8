import Mathlib.Data.List.DropRight
import Mathlib.Data.Set.Function
import JobScheduler.RateLimit
import JobScheduler.Table

namespace Footprint
open Set

/-- Requests served on one keyed store, each under a label that owns some of the keys. -/
structure Service (κ ν ι ω α : Type) where
  serve : (κ → ν) → ι → ω × (κ → ν)
  label : ι → α
  owned : α → Set κ

variable {κ ν ι ω α : Type}

/-- A request neither reads nor writes a key that its label does not own, and no two labels own one key. -/
structure Service.Local (M : Service κ ν ι ω α) : Prop where
  writes : ∀ s x k, k ∉ M.owned (M.label x) → (M.serve s x).2 k = s k
  reads : ∀ s s' x, EqOn s s' (M.owned (M.label x)) →
    (M.serve s x).1 = (M.serve s' x).1 ∧ EqOn (M.serve s x).2 (M.serve s' x).2 (M.owned (M.label x))
  disjoint : ∀ a b, a ≠ b → ∀ k ∈ M.owned a, k ∉ M.owned b

def Service.run (M : Service κ ν ι ω α) : (κ → ν) → List ι → List (ι × ω)
  | _, [] => []
  | s, x :: xs => (x, (M.serve s x).1) :: M.run (M.serve s x).2 xs

variable {M : Service κ ν ι ω α} {s s' : κ → ν} {x : ι} {a : α}

theorem Service.Local.serve_other (h : M.Local) (s : κ → ν) (hx : M.label x ≠ a) :
    EqOn (M.serve s x).2 s (M.owned a) := by
  intro k hk
  apply h.writes
  intro hkx
  exact h.disjoint _ _ hx k hkx hk

/-- The runs agree as long as the stores agree on the keys of the label. -/
theorem Service.Local.filter_run [DecidableEq α] (h : M.Local) (xs : List ι) (hs : EqOn s s' (M.owned a)) :
    (M.run s xs).filter (fun o => M.label o.1 = a) = M.run s' (xs.filter fun x => M.label x = a) := by
  induction xs generalizing s s' with
  | nil => rfl
  | cons x xs ih =>
    by_cases hx : M.label x = a
    · have heq := h.reads s s' x (hx ▸ hs)
      rw [Service.run, List.filter_cons_of_pos (by simpa using hx), List.filter_cons_of_pos (by simpa using hx),
        Service.run, heq.1]
      congr 1
      apply ih
      rw [← hx]
      exact heq.2
    · rw [Service.run, List.filter_cons_of_neg (by simpa using hx), List.filter_cons_of_neg (by simpa using hx)]
      apply ih
      intro k hk
      rw [h.serve_other s hx hk]
      exact hs hk

theorem Service.Local.serve_update [DecidableEq κ] (h : M.Local) (s : κ → ν) {k : κ}
    (hk : k ∉ M.owned (M.label x)) (v : ν) :
    M.serve (Function.update s k v) x = ((M.serve s x).1, Function.update (M.serve s x).2 k v) := by
  have heq : EqOn (Function.update s k v) s (M.owned (M.label x)) := by
    intro k' hk'
    have hne : k' ≠ k := by
      rintro rfl
      exact hk hk'
    exact Function.update_of_ne hne _ _
  obtain ⟨hout, hstore⟩ := h.reads _ _ _ heq
  refine Prod.ext hout (funext fun k' => ?_)
  by_cases hne : k' = k
  · subst hne
    rw [h.writes _ _ _ hk]
    simp
  · change (M.serve (Function.update s k v) x).2 k' = Function.update (M.serve s x).2 k v k'
    rw [Function.update_of_ne hne]
    by_cases hown : k' ∈ M.owned (M.label x)
    · exact hstore hown
    · rw [h.writes _ _ _ hown, h.writes _ _ _ hown, Function.update_of_ne hne]

end Footprint

namespace JobScheduler
open Relational

/-! ## The key of a request -/

/-- What the rate limiter reads of a request: the subject of the claims that authentication has put in, and the
headers in their order, the names in lower case. -/
structure ClientRequest where
  claimsSub : Option String
  headers : List (String × List UInt8)

def ClientRequest.header (req : ClientRequest) (name : String) : Option (List UInt8) :=
  (req.headers.find? fun h => h.1 = name).map Prod.snd

/-- `HeaderValue::to_str`: visible ASCII and tabs only. -/
def headerText (value : List UInt8) : Option (List Char) :=
  if value.all fun b => 32 ≤ b && b < 127 || b = 9 then some (value.map fun b => Char.ofNat b.toNat) else none

/-- `str::trim`, of which only blanks and tabs are left to do. -/
def trim (text : List Char) : List Char := (text.dropWhile Char.isWhitespace).rdropWhile Char.isWhitespace

def userKey (sub : String) : String := "user:" ++ sub

def ipKey (rawKey : List Char) : String := "ip:" ++ String.ofList rawKey

/-- A header that is no text counts as absent only after it has been chosen. -/
def rateLimitKey (req : ClientRequest) : String :=
  match req.claimsSub with
  | some sub => userKey sub
  | none =>
    let value := (req.header "x-forwarded-for").or ((req.header "x-real-ip").or (req.header "user-agent"))
    let rawKey := ((value.bind headerText).getD "anonymous".toList).takeWhile (· ≠ ',')
    ipKey (trim rawKey)

/-! ## Requests on one Redis -/

/-- A request, the clock the middleware reads (`none` before the epoch), that of Redis, and what becomes of the
answer of Redis. -/
structure Arrival extends ClientRequest where
  clock : Option ℕ
  redisClock : ℤ
  invoke : CommitOutcome

inductive RateLimitOutcome
  | passed | tooManyRequests | internalServerError
  deriving DecidableEq, Repr

/-- `rate_limit_middleware`: an error of Redis lets the request pass. -/
def limitRequest (r : Redis.Store) (req : Arrival) : RateLimitOutcome × Redis.Store :=
  let clientKey := rateLimitKey req.toClientRequest
  match req.clock with
  | none => (.internalServerError, r)
  | some now =>
    let (allowed, r') := scriptAt r req.redisClock (tokensKey clientKey) (timestampKey clientKey) bucketCapacity
      refillPerSecond now requestCost (some bucketTtlSeconds)
    match req.invoke with
    | .acknowledged => (if allowed = 1 then .passed else .tooManyRequests, r')
    | .lostBefore => (.passed, r)
    | .lostAfter => (.passed, r')

/-- The same middleware as that of `RateLimit`, where nothing fails and there is one clock. -/
theorem limitRequest_eq_rateLimitMiddleware (r : Redis.Store) (req : ClientRequest) (now : ℕ) :
    limitRequest r { req with clock := some now, redisClock := now, invoke := .acknowledged } =
      (if (rateLimitMiddleware (some bucketTtlSeconds) r (rateLimitKey req) now).1 then .passed else .tooManyRequests,
        (rateLimitMiddleware (some bucketTtlSeconds) r (rateLimitKey req) now).2) := by
  simp only [rateLimitMiddleware, decide_eq_true_eq]
  rfl

def rateLimiter : Footprint.Service String (Option Redis.Entry) Arrival RateLimitOutcome String where
  serve := limitRequest
  label req := rateLimitKey req.toClientRequest
  owned clientKey := {tokensKey clientKey, timestampKey clientKey}

/-! ## What the script reads and writes -/

section Script
variable {r r' : Redis.Store} {redisClock capacity refill now requested : ℤ} {ttl : Option ℤ} {tk sk k : String}

theorem scriptAt_writes (hk : k ≠ tk) (hk' : k ≠ sk) :
    (scriptAt r redisClock tk sk capacity refill now requested ttl).2 k = r k := by
  simp [scriptAt, Redis.setex, hk, hk']

theorem scriptAt_reads (ht : r tk = r' tk) (hs : r sk = r' sk) :
    (scriptAt r redisClock tk sk capacity refill now requested ttl).1 =
        (scriptAt r' redisClock tk sk capacity refill now requested ttl).1 ∧
      Set.EqOn (scriptAt r redisClock tk sk capacity refill now requested ttl).2
        (scriptAt r' redisClock tk sk capacity refill now requested ttl).2 {tk, sk} := by
  have hget : Redis.get r redisClock tk = Redis.get r' redisClock tk := by rw [Redis.get, ht, Redis.get]
  have hget' : Redis.get r redisClock sk = Redis.get r' redisClock sk := by rw [Redis.get, hs, Redis.get]
  refine ⟨by simp only [scriptAt, hget, hget'], ?_⟩
  simp only [scriptAt, hget, hget']
  rintro k (rfl | rfl)
  · by_cases hne : k = sk
    · simp [Redis.setex, hne]
    · simp [Redis.setex, hne]
  · simp [Redis.setex]

end Script

theorem owned_disjoint (c c' : String) (hne : c ≠ c') :
    ∀ k ∈ rateLimiter.owned c, k ∉ rateLimiter.owned c' := by
  rintro k (rfl | rfl) (hk | hk)
  · exact hne (tokensKey_inj.mp hk)
  · exact tokensKey_ne_timestampKey c c' hk
  · exact tokensKey_ne_timestampKey c' c hk.symm
  · exact hne (timestampKey_inj.mp hk)

theorem rateLimiter_local : rateLimiter.Local where
  disjoint := owned_disjoint
  writes r req k hk := by
    have hkeys : k ≠ tokensKey (rateLimitKey req.toClientRequest) ∧
        k ≠ timestampKey (rateLimitKey req.toClientRequest) := by
      simpa [rateLimiter, not_or] using hk
    simp only [rateLimiter, limitRequest]
    cases req.clock with
    | none => rfl
    | some now => cases req.invoke <;> first | rfl | exact scriptAt_writes hkeys.1 hkeys.2
  reads r r' req heq := by
    have ht := heq (Set.mem_insert _ _)
    have hs := heq (Set.mem_insert_of_mem _ rfl)
    simp only [rateLimiter, limitRequest]
    cases req.clock with
    | none => exact ⟨rfl, heq⟩
    | some now =>
      obtain ⟨hallowed, hstore⟩ := @scriptAt_reads r r' req.redisClock bucketCapacity refillPerSecond now requestCost
        (some bucketTtlSeconds) _ _ ht hs
      cases req.invoke with
      | acknowledged =>
        have hanswer := congrArg (fun allowed => if allowed = 1 then RateLimitOutcome.passed else .tooManyRequests)
          hallowed
        exact ⟨hanswer, hstore⟩
      | lostBefore => exact ⟨rfl, heq⟩
      | lostAfter => exact ⟨rfl, hstore⟩

/-- No request is counted with those of another key, and an anonymous one has nothing to do with a user's keys. -/
structure RateLimitIsolation (r : Redis.Store) : Prop where
  two_runs : ∀ (reqs : List Arrival) (clientKey : String),
    (rateLimiter.run r reqs).filter (fun o => rateLimitKey o.1.toClientRequest = clientKey) =
      rateLimiter.run r (reqs.filter fun req => rateLimitKey req.toClientRequest = clientKey)
  anonymous : ∀ (req : Arrival) (sub : String), req.claimsSub = none →
    ∀ key ∈ [tokensKey (userKey sub), timestampKey (userKey sub)],
      (limitRequest r req).2 key = r key ∧
        ∀ entry, limitRequest (Function.update r key entry) req =
          ((limitRequest r req).1, Function.update (limitRequest r req).2 key entry)
  kinds : ∀ req req' : Arrival,
    tokensKey (rateLimitKey req.toClientRequest) ≠ timestampKey (rateLimitKey req'.toClientRequest)

theorem ipKey_ne_userKey (rawKey : List Char) (sub : String) : ipKey rawKey ≠ userKey sub := by
  intro h
  have hchars := congrArg String.toList h
  simp [ipKey, userKey, String.toList_append] at hchars

theorem rate_limit_isolation (r : Redis.Store) : RateLimitIsolation r where
  two_runs reqs _ := rateLimiter_local.filter_run reqs (Set.eqOn_refl _ _)
  anonymous req sub hanonymous key hkey := by
    have hne : userKey sub ≠ rateLimiter.label req := by
      symm
      simp only [rateLimiter, rateLimitKey, hanonymous]
      exact ipKey_ne_userKey _ _
    have howned : key ∈ rateLimiter.owned (userKey sub) := by simpa [rateLimiter] using hkey
    have hnot := rateLimiter_local.disjoint _ _ hne key howned
    exact ⟨rateLimiter_local.writes r req key hnot, rateLimiter_local.serve_update r hnot⟩
  kinds _ _ := tokensKey_ne_timestampKey _ _

end JobScheduler
