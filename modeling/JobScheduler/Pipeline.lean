import JobScheduler.Admission
import JobScheduler.RateLimitKeys

namespace JobScheduler
open Relational TokenBucket

/-! ## The router and its middleware -/

/-- The routes of `build_router`, one for each method. -/
inductive Route
  | health | ready | live | register | login | refresh | logout
  | createJob | listJobs | getJob | listJobExecutions | cancelJob | listProjects | createProject | listQueues
  | createQueue | queueStats | pauseQueue | resumeQueue | listDlq | retryDlqJob | createDependency | metrics
  | listWorkers | wsHandler

/-- The routes without `auth_middleware`. -/
def Route.isPublic : Route → Bool
  | .health | .ready | .live | .register | .login | .refresh | .logout => true
  | _ => false

/-- `Claims`, with the subject as the token has it. -/
structure TokenClaims where
  sub : String
  email : String
  exp : UInt64
  iat : UInt64

/-- A request, with the clocks and the fate of the script that its handling meets. -/
structure HttpRequest (β : Type) where
  route : Route
  headers : List (String × List UInt8)
  content : β
  clock : Option ℕ
  redisClock : ℤ
  invoke : CommitOutcome

def HttpRequest.arrival {β : Type} (req : HttpRequest β) (claims : Option TokenClaims) : Arrival where
  claimsSub := claims.map TokenClaims.sub
  headers := req.headers
  clock := req.clock
  redisClock := req.redisClock
  invoke := req.invoke

/-- The token of the request: what follows `Bearer ` in the first header of that name. -/
def HttpRequest.bearer {β : Type} (req : HttpRequest β) : Option (List Char) :=
  let value := (req.headers.find? fun h => h.1 = "authorization").map Prod.snd
  (value.bind headerText).bind (List.dropPrefix? · "Bearer ".toList)

inductive Answer (ρ : Type)
  | unauthorized | tooManyRequests | internalServerError
  | handled (r : ρ)

def Answer.isHandled {ρ : Type} : Answer ρ → Bool
  | .handled _ => true
  | _ => false

/-- `verify_access_token`, at the clock of the request, and the handlers behind the middleware. -/
structure WebApp (β σ ρ : Type) where
  verify : Option ℕ → List Char → Option TokenClaims
  handle : σ → HttpRequest β → Option TokenClaims → ρ × σ

structure WebState (σ : Type) where
  app : σ
  redis : Redis.Store

namespace WebApp
variable {β σ ρ : Type}

/-- `auth_middleware`. -/
def authenticate (W : WebApp β σ ρ) (req : HttpRequest β) : Option TokenClaims :=
  req.bearer.bind (W.verify req.clock)

/-- The claims that the rate limiter sees, or the end of the request. -/
def identify (W : WebApp β σ ρ) (req : HttpRequest β) : Option (Option TokenClaims) :=
  if req.route.isPublic then some none else (W.authenticate req).map some

def serve (W : WebApp β σ ρ) (s : WebState σ) (req : HttpRequest β) : Answer ρ × WebState σ :=
  match W.identify req with
  | none => (.unauthorized, s)
  | some claims =>
    match limitRequest s.redis (req.arrival claims) with
    | (.internalServerError, redis) => (.internalServerError, { s with redis := redis })
    | (.tooManyRequests, redis) => (.tooManyRequests, { s with redis := redis })
    | (.passed, redis) => (.handled (W.handle s.app req claims).1, ⟨(W.handle s.app req claims).2, redis⟩)

def run (W : WebApp β σ ρ) : WebState σ → List (HttpRequest β) → List (HttpRequest β × Answer ρ) × WebState σ
  | s, [] => ([], s)
  | s, req :: reqs =>
    ((req, (W.serve s req).1) :: (W.run (W.serve s req).2 reqs).1, (W.run (W.serve s req).2 reqs).2)

end WebApp

/-! ## What the limiter keeps -/

/-- The keys of all clients hold their buckets, none of them written later than now. -/
structure Keeps (now : ℤ) (r : Redis.Store) (m : String → Option Bucket) : Prop where
  holds : ∀ c, Holds (some bucketTtlSeconds) r c (m c)
  within : ∀ c b, m c = some b → bucketParams.Within b
  last : ∀ c b, m c = some b → b.last ≤ now

section Limit
variable {now : ℤ} {r r' : Redis.Store} {m m' : String → Option Bucket}

theorem Keeps.later {now' : ℤ} (h : Keeps now r m) (hle : now ≤ now') : Keeps now' r m :=
  { h with last := fun c b hb => (h.last c b hb).trans hle }

theorem keeps_empty (now : ℤ) : Keeps now (fun _ => none) fun _ => none :=
  ⟨fun _ => ⟨rfl, rfl⟩, by simp, by simp⟩

def charged (m : String → Option Bucket) (c : String) (now : ℤ) : Bucket :=
  (bucketParams.take ((m c).getD (bucketParams.full now)) now).1

def affords (m : String → Option Bucket) (c : String) (now : ℤ) : Bool :=
  decide (bucketParams.cost ≤ bucketParams.level ((m c).getD (bucketParams.full now)) now)

/-- The middleware, where all clocks agree, in terms of the buckets. -/
theorem limitRequest_spec {req : Arrival} (hk : Keeps now r m)
    (hclock : req.clock.map (fun n : ℕ => (n : ℤ)) = some now) (hredis : req.redisClock = now) :
    (req.invoke = .lostBefore ∧ limitRequest r req = (.passed, r)) ∨
      ∃ r', Keeps now r' (Function.update m (rateLimitKey req.toClientRequest)
          (some (charged m (rateLimitKey req.toClientRequest) now))) ∧
        limitRequest r req = (if req.invoke = .lostAfter ∨ affords m (rateLimitKey req.toClientRequest) now = true
          then .passed else .tooManyRequests, r') ∧ req.invoke ≠ .lostBefore := by
  set c := rateLimitKey req.toClientRequest with hc
  obtain ⟨n, hn, rfl⟩ := Option.map_eq_some_iff.mp hclock
  have hmiddle : scriptAt r req.redisClock (tokensKey c) (timestampKey c) bucketCapacity refillPerSecond n requestCost
      (some bucketTtlSeconds) = script r (tokensKey c) (timestampKey c) bucketCapacity refillPerSecond n requestCost
        (some bucketTtlSeconds) := by
    rw [hredis]
    rfl
  have htake : bucketParams.take (readBucket r c n) n = bucketParams.take ((m c).getD (bucketParams.full n)) n :=
    take_readBucket (by intro d hd; cases hd; decide) (hk.holds c) (hk.within c)
  have hscript := @rateLimitMiddleware_eq (some bucketTtlSeconds) r c n
  rw [htake] at hscript
  have hallowed : decide ((script r (tokensKey c) (timestampKey c) bucketCapacity refillPerSecond n requestCost
      (some bucketTtlSeconds)).1 = 1) = affords m c n :=
    (congrArg Prod.fst hscript).trans (take_ok _ _ _)
  have hstore := congrArg Prod.snd hscript
  have hkeep : Keeps n (rateLimitMiddleware (some bucketTtlSeconds) r c n).2
      (Function.update m c (some (charged m c n))) := by
    refine ⟨fun c' => ?_, update_within hk.within n c, fun c' b hb => ?_⟩
    · rw [hstore]
      exact holds_after m hk.holds (charged m c n) take_last c'
    · rw [Function.update_apply] at hb
      split at hb
      · cases hb
        exact take_last.le
      · exact hk.last c' b hb
  cases hinvoke : req.invoke with
  | lostBefore => exact .inl ⟨rfl, by simp only [limitRequest, hn, hinvoke]⟩
  | acknowledged =>
    refine .inr ⟨_, hkeep, ?_, by simp⟩
    simp only [limitRequest, hn, ← hc, hmiddle, hinvoke]
    simp only [← hallowed, decide_eq_true_eq, reduceCtorEq, false_or]
    rfl
  | lostAfter =>
    refine .inr ⟨_, hkeep, ?_, by simp⟩
    simp only [limitRequest, hn, ← hc, hmiddle, hinvoke, true_or, if_true]
    rfl

/-- Two stores that no request from now on can tell apart. -/
def Like (now : ℤ) (r r' : Redis.Store) : Prop :=
  ∃ m m', Keeps now r m ∧ Keeps now r' m' ∧ ∀ c, Alike bucketParams now (m c) (m' c)

theorem Like.later {now' : ℤ} (h : Like now r r') (hle : now ≤ now') : Like now' r r' := by
  obtain ⟨m, m', hk, hk', halike⟩ := h
  exact ⟨m, m', hk.later hle, hk'.later hle, fun c => (halike c).later hle⟩

theorem like_empty (now : ℤ) : Like now (fun _ => none) fun _ => none :=
  ⟨_, _, keeps_empty now, keeps_empty now, fun _ _ _ => rfl⟩

theorem charged_eq_spend (m : String → Option Bucket) (c : String) (now : ℤ) :
    charged m c now = bucketParams.spend ((m c).getD (bucketParams.full now)) now (affords m c now) := by
  rw [charged, take_eq_spend, take_ok, affords]

theorem affords_eq_of_alike {c : String} (h : Alike bucketParams now (m c) (m' c)) :
    affords m c now = affords m' c now := by
  rw [affords, affords, h now le_rfl]

theorem charged_eq_of_alike {c : String} (h : Alike bucketParams now (m c) (m' c)) :
    charged m c now = charged m' c now := by
  rw [charged_eq_spend, charged_eq_spend, affords_eq_of_alike h, h.spend_eq]

/-- A request that the limiter lets pass passes on a like store too, and one that it refuses need
not have been made. -/
theorem limitRequest_like (req : Arrival) (h : Like now r r')
    (hclock : req.clock.map (fun n : ℕ => (n : ℤ)) = some now) (hredis : req.redisClock = now) :
    ((limitRequest r req).1 = .passed ∧ (limitRequest r' req).1 = .passed ∧
        Like now (limitRequest r req).2 (limitRequest r' req).2) ∨
      (limitRequest r req).1 = .tooManyRequests ∧ Like now (limitRequest r req).2 r' := by
  obtain ⟨m, m', hk, hk', halike⟩ := h
  set c := rateLimitKey req.toClientRequest with hc
  rcases limitRequest_spec hk hclock hredis with ⟨hlost, heq⟩ | ⟨s, hs, heq, hlost⟩
  · rcases limitRequest_spec hk' hclock hredis with ⟨_, heq'⟩ | ⟨_, _, _, hlost'⟩
    · rw [heq, heq']
      exact .inl ⟨rfl, rfl, m, m', hk, hk', halike⟩
    · exact absurd hlost hlost'
  rcases limitRequest_spec hk' hclock hredis with ⟨hlost', _⟩ | ⟨s', hs', heq', _⟩
  · exact absurd hlost' hlost
  rw [← hc] at hs heq hs' heq'
  rw [← affords_eq_of_alike (halike c)] at heq'
  rw [← charged_eq_of_alike (halike c)] at hs'
  by_cases hpass : req.invoke = .lostAfter ∨ affords m c now = true
  · -- both buckets are charged, to the same level
    rw [if_pos hpass] at heq heq'
    rw [heq, heq']
    refine .inl ⟨rfl, rfl, _, _, hs, hs', fun c' => ?_⟩
    rw [Function.update_apply, Function.update_apply]
    split
    · exact fun _ _ => rfl
    · exact halike c'
  · rw [if_neg hpass] at heq
    rw [heq]
    refine .inr ⟨rfl, _, _, hs, hk', fun c' => ?_⟩
    rw [Function.update_apply]
    split
    · next hc' =>
      have hrefused : affords m c now = false := by
        rw [not_or] at hpass
        exact Bool.eq_false_iff.mpr hpass.2
      rw [charged_eq_spend, hrefused, hc']
      exact (alike_of_refused (hk.last c)).trans (halike c)
    · exact halike c'

end Limit

/-! ## Requests that are turned away -/

section Refused
variable {β σ ρ : Type} {W : WebApp β σ ρ} {a : σ} {r r' : Redis.Store} {now : ℤ}

def handledOf (os : List (HttpRequest β × Answer ρ)) : List (HttpRequest β × Answer ρ) :=
  os.filter fun o => o.2.isHandled

theorem handledOf_cons (o : HttpRequest β × Answer ρ) (os : List (HttpRequest β × Answer ρ)) :
    handledOf (o :: os) = if o.2.isHandled then o :: handledOf os else handledOf os := List.filter_cons

theorem serve_like {req : HttpRequest β} (h : Like now r r')
    (hclock : req.clock.map (fun n : ℕ => (n : ℤ)) = some now) (hredis : req.redisClock = now) :
    ((W.serve ⟨a, r⟩ req).1.isHandled = true ∧ (W.serve ⟨a, r'⟩ req).1 = (W.serve ⟨a, r⟩ req).1 ∧
        (W.serve ⟨a, r'⟩ req).2.app = (W.serve ⟨a, r⟩ req).2.app ∧
        Like now (W.serve ⟨a, r⟩ req).2.redis (W.serve ⟨a, r'⟩ req).2.redis) ∨
      (W.serve ⟨a, r⟩ req).1.isHandled = false ∧ (W.serve ⟨a, r⟩ req).2.app = a ∧
        Like now (W.serve ⟨a, r⟩ req).2.redis r' := by
  unfold WebApp.serve
  cases hidentify : W.identify req with
  | none => exact .inr ⟨rfl, rfl, h⟩
  | some claims =>
    dsimp only
    rcases limitRequest_like (req.arrival claims) h hclock hredis with ⟨hp, hp', hlike⟩ | ⟨ht, hlike⟩
    · generalize limitRequest r (req.arrival claims) = o at hp hlike
      generalize limitRequest r' (req.arrival claims) = o' at hp' hlike
      obtain ⟨_, s⟩ := o
      obtain ⟨_, s'⟩ := o'
      cases hp
      cases hp'
      exact .inl ⟨rfl, rfl, rfl, hlike⟩
    · generalize limitRequest r (req.arrival claims) = o at ht hlike
      obtain ⟨_, s⟩ := o
      cases ht
      exact .inr ⟨rfl, rfl, hlike⟩

theorem run_handled (reqs : List (HttpRequest β)) (h : Like now r r')
    (hone : ∀ req ∈ reqs, req.clock.map (fun n : ℕ => (n : ℤ)) = some req.redisClock)
    (hs : (now :: reqs.map HttpRequest.redisClock).Pairwise (· ≤ ·)) :
    (W.run ⟨a, r'⟩ ((handledOf (W.run ⟨a, r⟩ reqs).1).map Prod.fst)).1 = handledOf (W.run ⟨a, r⟩ reqs).1 ∧
      (W.run ⟨a, r'⟩ ((handledOf (W.run ⟨a, r⟩ reqs).1).map Prod.fst)).2.app = (W.run ⟨a, r⟩ reqs).2.app := by
  induction reqs generalizing a r r' now with
  | nil => exact ⟨rfl, rfl⟩
  | cons req reqs ih =>
    rw [List.map_cons, List.pairwise_cons] at hs
    have hnow : now ≤ req.redisClock := hs.1 _ (List.mem_cons_self ..)
    have hrest : ∀ q ∈ reqs, q.clock.map (fun n : ℕ => (n : ℤ)) = some q.redisClock :=
      fun q hq => hone q (List.mem_cons_of_mem _ hq)
    have hstep := serve_like (W := W) (a := a) (h.later hnow) (hone req (List.mem_cons_self ..)) rfl
    rw [WebApp.run, handledOf_cons]
    rcases hstep with ⟨hhandled, hanswer, happ, hlike⟩ | ⟨hrefused, happ, hlike⟩
    · obtain ⟨hos, hend⟩ := ih (a := (W.serve ⟨a, r⟩ req).2.app) hlike hrest hs.2
      have hstate : (W.serve ⟨a, r'⟩ req).2 = ⟨(W.serve ⟨a, r⟩ req).2.app, (W.serve ⟨a, r'⟩ req).2.redis⟩ := by
        rw [← happ]
      rw [if_pos hhandled, List.map_cons, WebApp.run, hstate, hanswer]
      exact ⟨congrArg _ hos, hend⟩
    · obtain ⟨hos, hend⟩ := ih (a := (W.serve ⟨a, r⟩ req).2.app) hlike hrest hs.2
      rw [if_neg (by simp [hrefused])]
      rw [happ] at hos hend
      have hstate : (W.serve ⟨a, r⟩ req).2 = ⟨a, (W.serve ⟨a, r⟩ req).2.redis⟩ :=
        congrArg (fun b => (⟨b, (W.serve ⟨a, r⟩ req).2.redis⟩ : WebState σ)) happ
      rw [hstate]
      exact ⟨hos, hend⟩

theorem exists_start {ts : List ℤ} (hs : ts.Pairwise (· ≤ ·)) : ∃ start, (start :: ts).Pairwise (· ≤ ·) := by
  cases ts with
  | nil => exact ⟨0, List.pairwise_singleton _ _⟩
  | cons t ts =>
    have hfirst : ∀ u ∈ t :: ts, t ≤ u := List.forall_mem_cons.mpr ⟨le_rfl, (List.pairwise_cons.mp hs).1⟩
    exact ⟨t, List.pairwise_cons.mpr ⟨hfirst, hs⟩⟩

/-- Requests that are turned away leave no trace: had only those been made that a handler answered,
they would have been answered the same, one by one, and would have left the same state behind. -/
theorem refused_leave_no_trace (W : WebApp β σ ρ) (a : σ) (reqs : List (HttpRequest β))
    (hone : ∀ req ∈ reqs, req.clock.map (fun n : ℕ => (n : ℤ)) = some req.redisClock)
    (hs : (reqs.map HttpRequest.redisClock).Pairwise (· ≤ ·)) :
    (W.run ⟨a, fun _ => none⟩ ((handledOf (W.run ⟨a, fun _ => none⟩ reqs).1).map Prod.fst)).1 =
        handledOf (W.run ⟨a, fun _ => none⟩ reqs).1 ∧
      (W.run ⟨a, fun _ => none⟩ ((handledOf (W.run ⟨a, fun _ => none⟩ reqs).1).map Prod.fst)).2.app =
        (W.run ⟨a, fun _ => none⟩ reqs).2.app := by
  obtain ⟨start, hstart⟩ := exists_start hs
  exact run_handled reqs (like_empty start) hone hstart

def Sample.post (route : Route) (now : ℕ) : HttpRequest Unit := ⟨route, [], (), some now, now, .acknowledged⟩

def Sample.counter : WebApp Unit ℕ ℕ := ⟨fun _ _ => none, fun n _ _ => (n, n + 1)⟩

theorem refused_leave_no_trace_sample :
    (Sample.counter.run ⟨0, fun _ => none⟩ ((handledOf (Sample.counter.run ⟨0, fun _ => none⟩
        [Sample.post .login 5, Sample.post .createJob 5, Sample.post .login 6]).1).map Prod.fst)).1 =
        handledOf (Sample.counter.run ⟨0, fun _ => none⟩
          [Sample.post .login 5, Sample.post .createJob 5, Sample.post .login 6]).1 ∧
      (Sample.counter.run ⟨0, fun _ => none⟩ ((handledOf (Sample.counter.run ⟨0, fun _ => none⟩
        [Sample.post .login 5, Sample.post .createJob 5, Sample.post .login 6]).1).map Prod.fst)).2.app =
        (Sample.counter.run ⟨0, fun _ => none⟩
          [Sample.post .login 5, Sample.post .createJob 5, Sample.post .login 6]).2.app :=
  refused_leave_no_trace Sample.counter 0 [Sample.post .login 5, Sample.post .createJob 5, Sample.post .login 6]
    (by simp [Sample.post]) (by decide)

end Refused

/-! ## How much one user gets through -/

section Users
variable {β σ ρ : Type} {W : WebApp β σ ρ} {a : σ} {r : Redis.Store} {m : String → Option Bucket} {now : ℤ}
  {sub : String}

def WebApp.isOf (W : WebApp β σ ρ) (sub : String) (req : HttpRequest β) : Bool :=
  (W.identify req).any fun claims => claims.any fun c => decide (c.sub = sub)

/-- The limiter has let the request through, and not for an error of Redis. -/
def admittedRequest (o : HttpRequest β × Answer ρ) : Bool := o.2.isHandled && decide (o.1.invoke = .acknowledged)

def WebApp.scripted (W : WebApp β σ ρ) (req : HttpRequest β) : Option (String × ℤ) :=
  if req.invoke = .lostBefore then none
  else (W.identify req).map fun claims => (rateLimitKey (req.arrival claims).toClientRequest, req.redisClock)

/-- Whatever the headers say, a user has one key. -/
theorem key_of_isOf {req : HttpRequest β} {claims : Option TokenClaims} (h : W.isOf sub req = true)
    (hidentify : W.identify req = some claims) : rateLimitKey (req.arrival claims).toClientRequest = userKey sub := by
  rw [WebApp.isOf, hidentify, Option.any_some] at h
  cases claims with
  | none => cases h
  | some c =>
    rw [Option.any_some, decide_eq_true_eq] at h
    rw [← h]
    rfl

/-- One request leaves the buckets alone and is not admitted, or charges one of them, and is admitted
only if that could afford it. -/
theorem serve_charges {req : HttpRequest β} (hk : Keeps now r m)
    (hclock : req.clock.map (fun n : ℕ => (n : ℤ)) = some now) (hredis : req.redisClock = now) :
    (W.scripted req = none ∧ Keeps now (W.serve ⟨a, r⟩ req).2.redis m ∧
        admittedRequest (req, (W.serve ⟨a, r⟩ req).1) = false) ∨
      ∃ claims c, W.identify req = some claims ∧ rateLimitKey (req.arrival claims).toClientRequest = c ∧
        W.scripted req = some (c, now) ∧
        Keeps now (W.serve ⟨a, r⟩ req).2.redis (Function.update m c (some (charged m c now))) ∧
        (admittedRequest (req, (W.serve ⟨a, r⟩ req).1) = true → affords m c now = true) := by
  unfold WebApp.serve
  cases hidentify : W.identify req with
  | none => exact .inl ⟨by simp [WebApp.scripted, hidentify], hk, rfl⟩
  | some claims =>
    dsimp only
    have hinvoke : (req.arrival claims).invoke = req.invoke := rfl
    rcases @limitRequest_spec now r m (req.arrival claims) hk hclock hredis with
      ⟨hlost, heq⟩ | ⟨r', hk', heq, hreached⟩
    · rw [hinvoke] at hlost
      rw [heq]
      exact .inl ⟨by simp [WebApp.scripted, hlost], hk, by simp [admittedRequest, hlost]⟩
    · rw [hinvoke] at hreached heq
      refine .inr ⟨claims, _, rfl, rfl, ?_, ?_⟩
      · rw [WebApp.scripted, if_neg hreached, hidentify, hredis]
        rfl
      · rw [heq]
        by_cases hpass : req.invoke = .lostAfter ∨
            affords m (rateLimitKey (req.arrival claims).toClientRequest) now = true
        · rw [if_pos hpass]
          refine ⟨hk', fun hadmitted => hpass.resolve_left fun hlost => ?_⟩
          simp [admittedRequest, hlost] at hadmitted
        · rw [if_neg hpass]
          exact ⟨hk', nofun⟩

theorem run_admitted (reqs : List (HttpRequest β)) (hk : Keeps now r m)
    (hone : ∀ req ∈ reqs, req.clock.map (fun n : ℕ => (n : ℤ)) = some req.redisClock)
    (hs : (now :: reqs.map HttpRequest.redisClock).Pairwise (· ≤ ·)) (sub : String) (p : ℤ → Bool) :
    ((W.run ⟨a, r⟩ reqs).1.countP fun o => W.isOf sub o.1 && admittedRequest o && p o.1.redisClock) ≤
      admitted (userKey sub) p (serve bucketParams m (reqs.filterMap W.scripted)) := by
  induction reqs generalizing a r m now with
  | nil => exact le_rfl
  | cons req reqs ih =>
    rw [List.map_cons, List.pairwise_cons] at hs
    have hrest : ∀ q ∈ reqs, q.clock.map (fun n : ℕ => (n : ℤ)) = some q.redisClock :=
      fun q hq => hone q (List.mem_cons_of_mem _ hq)
    have hstep := serve_charges (W := W) (a := a) (hk.later (hs.1 _ (List.mem_cons_self ..)))
      (hone req (List.mem_cons_self ..)) rfl
    rw [WebApp.run, List.countP_cons, List.filterMap_cons]
    rcases hstep with ⟨hnone, hkeeps, hnot⟩ | ⟨claims, c, hidentify, hc, hsome, hkeeps, hpays⟩
    · rw [hnone, hnot]
      simpa using ih hkeeps hrest hs.2
    · rw [hsome]
      dsimp only
      rw [serve, admitted_cons]
      apply Nat.add_le_add
      · exact ih hkeeps hrest hs.2
      · -- it is admitted only if its bucket pays for it
        split
        · rename_i hcounted
          simp only [Bool.and_eq_true] at hcounted
          obtain ⟨⟨hof, hadmitted⟩, hp⟩ := hcounted
          have hkey : c = userKey sub := hc ▸ key_of_isOf hof hidentify
          have hpaid : (bucketParams.take (find bucketParams m c req.redisClock) req.redisClock).2 = true :=
            (take_ok _ _ _).trans (hpays hadmitted)
          rw [if_pos ⟨hkey, hpaid, hp⟩]
        · exact Nat.zero_le _

/-- Behind the router, in no period are more requests of one user admitted than the capacity and the refill
of the period, however many tokens, addresses and routes they are spread over, and whatever else happens. -/
theorem user_rate (W : WebApp β σ ρ) (a : σ) (reqs : List (HttpRequest β))
    (hone : ∀ req ∈ reqs, req.clock.map (fun n : ℕ => (n : ℤ)) = some req.redisClock)
    (hs : (reqs.map HttpRequest.redisClock).Pairwise (· ≤ ·)) (sub : String) {t e : ℤ} (hte : t ≤ e) :
    ((W.run ⟨a, fun _ => none⟩ reqs).1.countP fun o => W.isOf sub o.1 && admittedRequest o &&
      (decide (t ≤ o.1.redisClock) && decide (o.1.redisClock ≤ e)) : ℤ) ≤
      bucketCapacity + (e - t) * refillPerSecond := by
  have hsorted : ((reqs.filterMap W.scripted).map Prod.snd).Pairwise (· ≤ ·) := by
    rw [List.pairwise_map, List.pairwise_filterMap]
    refine (List.pairwise_map.mp hs).imp ?_
    intro req req' hle b hb b' hb'
    have htime {req : HttpRequest β} {b : String × ℤ} (hb : W.scripted req = some b) : b.2 = req.redisClock := by
      unfold WebApp.scripted at hb
      split at hb
      · cases hb
      · obtain ⟨_, _, rfl⟩ := Option.map_eq_some_iff.mp hb
        rfl
    rw [htime hb, htime hb']
    exact hle
  obtain ⟨start, hstart⟩ := exists_start hs
  have hcount := run_admitted (W := W) (a := a) reqs (keeps_empty start) hone hstart sub
    fun now => decide (t ≤ now) && decide (now ≤ e)
  have hwindow := admitted_window_le (P := bucketParams) (k := userKey sub) hte hsorted (m := fun _ => none)
    (by simp)
  have hcost : bucketParams.cost = 1 := rfl
  rw [hcost, one_mul] at hwindow
  exact (Int.ofNat_le.mpr hcount).trans hwindow

def Sample.oneToken : WebApp Unit ℕ ℕ :=
  ⟨fun _ token => if token = "t".toList then some ⟨"user", "a@b.c", 900, 0⟩ else none, fun n _ _ => (n, n + 1)⟩

def Sample.withToken (address : List UInt8) (now : ℕ) : HttpRequest Unit :=
  ⟨.createJob, [("authorization", [66, 101, 97, 114, 101, 114, 32, 116]), ("x-forwarded-for", address)], (), some now,
    now, .acknowledged⟩

theorem user_rate_sample :
    ((Sample.oneToken.run ⟨0, fun _ => none⟩ [Sample.withToken [49] 5, Sample.withToken [50] 6]).1.countP fun o =>
      Sample.oneToken.isOf "user" o.1 && admittedRequest o &&
        (decide (5 ≤ o.1.redisClock) && decide (o.1.redisClock ≤ 6))) = 2 ∧
    ((Sample.oneToken.run ⟨0, fun _ => none⟩ [Sample.withToken [49] 5, Sample.withToken [50] 6]).1.countP fun o =>
      Sample.oneToken.isOf "user" o.1 && admittedRequest o &&
        (decide (5 ≤ o.1.redisClock) && decide (o.1.redisClock ≤ 6)) : ℤ) ≤
      bucketCapacity + (6 - 5) * refillPerSecond :=
  ⟨by decide, user_rate Sample.oneToken 0 [Sample.withToken [49] 5, Sample.withToken [50] 6] (by simp [Sample.withToken])
    (by decide) "user" (by decide)⟩

end Users

end JobScheduler
