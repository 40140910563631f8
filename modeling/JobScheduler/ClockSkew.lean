import JobScheduler.RateLimit
import JobScheduler.SkewedBucket

namespace JobScheduler
open TokenBucket

def admissions (clientKey : String) (ds : List ((String × ℤ) × Bool)) : ℕ :=
  admitted clientKey (fun _ => true) ds

/-- Whatever the clocks of the API processes read: a client gets a full bucket and the refill between its
smallest and its largest reading, and a request older than the one before it is of no use to later ones. -/
structure SkewSafe (clientKey : String) (reqs : List (String × ℤ)) : Prop where
  bounded : ∀ lo ∈ readings clientKey reqs, ∀ hi ∈ readings clientKey reqs,
    (∀ t ∈ readings clientKey reqs, lo ≤ t ∧ t ≤ hi) →
    (admissions clientKey (serveAll none (fun _ => none) reqs) : ℤ) ≤ bucketCapacity + refillPerSecond * (hi - lo)
  older : ∀ pre t post last, reqs = pre ++ (clientKey, t) :: post →
    (readings clientKey pre).getLast? = some last → t < last →
    admissions clientKey ((serveAll none (fun _ => none) reqs).drop (pre.length + 1)) ≤
      admissions clientKey ((serveAll none (fun _ => none) (pre ++ post)).drop pre.length)

def refilledOver : List ℤ → ℤ
  | [] => 0
  | t :: ts => refilled bucketParams t ts

/-- The climbs of the readings refill no more than the time between the smallest and the largest. -/
def RefillCovered (ts : List ℤ) : Prop :=
  ∀ lo ∈ ts, ∀ hi ∈ ts, (∀ t ∈ ts, lo ≤ t ∧ t ≤ hi) → refilledOver ts ≤ refillPerSecond * (hi - lo)

/-- A reading that climbs back from an older one is so late that the bucket would be full anyway. -/
def ReboundsFill (ts : List ℤ) : Prop :=
  ∀ last t u, [last, t, u] <:+: ts → t < last → t < u → bucketCapacity ≤ refillPerSecond * (u - last)

section Readings
variable {clientKey : String} {pre post reqs : List (String × ℤ)} {ts : List ℤ} {ds : List (ℤ × ℕ)}

theorem serveAll_eq (reqs : List (String × ℤ)) :
    serveAll none (fun _ => none) reqs = serve bucketParams (fun _ => none) reqs :=
  serveAll_eq_serve (by intro d hd; cases hd) (fun _ => ⟨rfl, rfl⟩) (by simp)

def bucketAfter (ts : List ℤ) : Bucket := feed bucketParams (bucketFor bucketParams none ts) ts

theorem bucketAfter_within (ts : List ℤ) : bucketParams.Within (bucketAfter ts) :=
  feed_within within_full

theorem bucketAfter_append (h : ts ≠ []) (us : List ℤ) :
    bucketAfter (ts ++ us) = feed bucketParams (bucketAfter ts) us := by
  cases ts with
  | nil => exact absurd rfl h
  | cons t ts => exact feed_append

theorem admissions_serveAll (reqs : List (String × ℤ)) :
    admissions clientKey (serveAll none (fun _ => none) reqs) =
      passed bucketParams (bucketFor bucketParams none (readings clientKey reqs)) (readings clientKey reqs) := by
  rw [serveAll_eq]
  exact admitted_eq_passed

theorem admissions_drop (h : readings clientKey pre ≠ []) (post : List (String × ℤ)) :
    admissions clientKey ((serveAll none (fun _ => none) (pre ++ post)).drop pre.length) =
      passed bucketParams (bucketAfter (readings clientKey pre)) (readings clientKey post) := by
  rw [serveAll_eq, serve_append, List.drop_left' length_serve]
  exact admitted_eq_passed.trans (by rw [served_eq_feed h]; rfl)

theorem admissions_older (h : readings clientKey pre ≠ []) (t : ℤ) :
    admissions clientKey ((serveAll none (fun _ => none) (pre ++ (clientKey, t) :: post)).drop (pre.length + 1)) =
      passed bucketParams (bucketParams.take (bucketAfter (readings clientKey pre)) t).1
        (readings clientKey post) := by
  have hread : readings clientKey (pre ++ [(clientKey, t)]) = readings clientKey pre ++ [t] := by
    rw [readings_append, readings_cons_self]
    rfl
  have hne : readings clientKey (pre ++ [(clientKey, t)]) ≠ [] := by
    rw [hread]
    simp
  have hdrop := admissions_drop hne post
  rw [hread, bucketAfter_append h, List.append_assoc, List.length_append] at hdrop
  exact hdrop

/-! Readings that are covered: what one list of readings allows, however often each one comes. -/

theorem refilledOver_spread (ds : List (ℤ × ℕ)) : refilledOver (spread ds) = refilledOver (ds.map Prod.fst) := by
  cases ds with
  | nil => rfl
  | cons d ds =>
    obtain ⟨t, n⟩ := d
    have hfirst : refilledOver (spread ((t, n) :: ds)) = refilled bucketParams t (spread ((t, n) :: ds)) := by
      rw [spread, refilled_replicate, inflow_self, zero_add]
      cases n with
      | zero => rfl
      | succ n => exact (refilled_replicate n t).trans (by rw [inflow_self, zero_add])
    rw [hfirst, refilled_spread]
    exact (congrArg (· + _) inflow_self).trans (zero_add _)

theorem bounded_of_covered (h : RefillCovered (ds.map Prod.fst)) (hread : readings clientKey reqs = spread ds)
    {lo hi : ℤ} (hlo : lo ∈ spread ds) (hhi : hi ∈ spread ds) (hall : ∀ t ∈ spread ds, lo ≤ t ∧ t ≤ hi) :
    (admissions clientKey (serveAll none (fun _ => none) reqs) : ℤ) ≤
      bucketCapacity + refillPerSecond * (hi - lo) := by
  have hcov := h lo (mem_spread.mp hlo) hi (mem_spread.mp hhi) fun t ht => hall t (mem_spread.mpr ht)
  have hwithin : bucketParams.Within (bucketParams.full ((spread ds).headD 0)) := within_full
  have hpay := passed_le hwithin (spread ds)
  have hcost : bucketParams.cost = 1 := rfl
  have hfull : (bucketParams.full ((spread ds).headD 0)).tokens = bucketCapacity := rfl
  have hover : refilled bucketParams ((spread ds).headD 0) (spread ds) = refilledOver (spread ds) := by
    cases hs : spread ds with
    | nil => rfl
    | cons t ts => exact (congrArg (· + _) inflow_self).trans (zero_add _)
  rw [hcost, one_mul, hfull] at hpay
  rw [admissions_serveAll, hread]
  refine hpay.trans (Int.add_le_add_left ?_ _)
  exact hover.trans_le ((refilledOver_spread ds).trans_le hcov)

theorem older_of_rebounds (h : ReboundsFill (ds.map Prod.fst)) (hread : readings clientKey reqs = spread ds)
    {t last : ℤ} (hreqs : reqs = pre ++ (clientKey, t) :: post)
    (hlast : (readings clientKey pre).getLast? = some last) (hold : t < last) :
    admissions clientKey ((serveAll none (fun _ => none) reqs).drop (pre.length + 1)) ≤
      admissions clientKey ((serveAll none (fun _ => none) (pre ++ post)).drop pre.length) := by
  have hne : readings clientKey pre ≠ [] := by
    intro hnil
    simp [hnil] at hlast
  have hb : (bucketAfter (readings clientKey pre)).last = last := by
    rw [bucketAfter, feed_last hne]
    exact Option.some.inj ((List.getLast?_eq_some_getLast hne).symm.trans hlast)
  rw [hreqs, admissions_older hne, admissions_drop hne post]
  refine passed_older_le rfl (hb ▸ hold.le) (bucketAfter_within _) fun u us hpost hu => ?_
  rw [hb]
  refine (h last t u ?_ hold hu).trans_eq (mul_comm _ _)
  -- the three readings stand side by side among the readings of the client
  obtain ⟨us', hpre⟩ := List.getLast?_eq_some_iff.mp hlast
  apply infix_of_spread
  · simp [hold.ne', hu.ne]
  · rw [← hread, hreqs, readings_append, readings_cons_self, hpre, hpost]
    exact ⟨us', us, by simp⟩

theorem covered_of_safe (h : ∀ reqs, readings clientKey reqs = spread (saturate bucketParams ts) →
    SkewSafe clientKey reqs) : RefillCovered ts := by
  intro lo hlo hi hhi hall
  have hread := readings_map (k := clientKey) (spread (saturate bucketParams ts))
  have hmem : ∀ t, t ∈ spread (saturate bucketParams ts) ↔ t ∈ ts := by
    intro t
    rw [mem_spread, saturate, List.map_map]
    exact iff_of_eq (congrArg _ (List.map_id ts))
  have hsafe := (h _ hread).bounded lo (by rwa [hread, hmem]) hi (by rwa [hread, hmem])
    (by rw [hread]; exact fun t ht => hall t ((hmem t).mp ht))
  rw [admissions_serveAll, hread] at hsafe
  cases ts with
  | nil => cases hlo
  | cons t ts =>
    -- the first burst takes the whole bucket, the others all that flows in
    have hwithin : bucketParams.Within (bucketParams.full t) := within_full
    obtain ⟨hp, hf⟩ := drain_burst rfl hwithin t
    have hsplit : spread (saturate bucketParams (t :: ts)) =
        List.replicate (bucketParams.capacity.toNat + 1) t ++ spread (saturate bucketParams ts) := rfl
    have hfirst : bucketFor bucketParams none (spread (saturate bucketParams (t :: ts))) = bucketParams.full t := rfl
    rw [hfirst, hsplit, passed_append, hf] at hsafe
    push_cast at hsafe
    rw [hp, level_full, passed_saturate rfl] at hsafe
    have hcap : bucketParams.capacity = bucketCapacity := rfl
    rw [hcap] at hsafe
    exact le_of_add_le_add_left hsafe

theorem rebounds_of_safe (h : ∀ reqs ds, ds.map Prod.fst = ts → readings clientKey reqs = spread ds →
    SkewSafe clientKey reqs) : ReboundsFill ts := by
  intro last t u hinfix hold hu
  obtain ⟨before, behind, hts⟩ := hinfix
  by_contra hshort
  let first := spread (saturate bucketParams (before ++ [last]))
  let second := List.replicate (bucketParams.capacity.toNat + 1) u ++ behind
  let reqs : List (String × ℤ) := first.map (fun t => (clientKey, t)) ++
    (clientKey, t) :: second.map fun t => (clientKey, t)
  have hread : readings clientKey reqs = spread (saturate bucketParams (before ++ [last]) ++
      (t, 0) :: (u, bucketParams.capacity.toNat) :: behind.map fun t => (t, 0)) := by
    simp only [reqs, readings_append, readings_cons_self, readings_map, spread_append, spread, spread_once]
    rfl
  have hds : (saturate bucketParams (before ++ [last]) ++
      (t, 0) :: (u, bucketParams.capacity.toNat) :: behind.map fun t => (t, 0)).map Prod.fst = ts := by
    rw [← hts]
    simp [saturate, Function.comp_def]
  have hpre : readings clientKey (first.map fun t => (clientKey, t)) = first := readings_map _
  have hb : bucketAfter first = ⟨0, last⟩ := feed_saturate rfl within_full before last
  have hlast : first.getLast? = some last := getLast?_saturate before last
  have hne : first ≠ [] := by
    intro hnil
    simp [hnil] at hlast
  have hsafe := (h reqs _ hds hread).older _ t _ last rfl (by rw [hpre]; exact hlast) hold
  rw [admissions_older (by rwa [hpre]), admissions_drop (by rwa [hpre]), hpre, hb, readings_map] at hsafe
  have hgt : passed bucketParams ⟨0, last⟩ second < passed bucketParams (bucketParams.take ⟨0, last⟩ t).1 second :=
    passed_older_gt rfl behind (by decide) (by decide) hold hu (by rw [mul_comm]; exact not_le.mp hshort)
  exact absurd hsafe (not_le.mpr hgt)

theorem skewSafe_of_covered (hcov : RefillCovered (ds.map Prod.fst)) (hreb : ReboundsFill (ds.map Prod.fst))
    (hread : readings clientKey reqs = spread ds) : SkewSafe clientKey reqs := by
  refine ⟨fun lo hlo hi hhi hall => ?_, fun pre t post last hreqs hlast hold => ?_⟩
  · rw [hread] at hlo hhi hall
    exact bounded_of_covered hcov hread hlo hhi hall
  · exact older_of_rebounds hreb hread hreqs hlast hold

/-- Readings that never go back are covered: each climb is a part of their range. -/
theorem refillCovered_of_sorted (h : ts.Pairwise (· ≤ ·)) : RefillCovered ts := by
  intro lo hlo hi _ hall
  have hrest : ∀ (ts : List ℤ) (last : ℤ), (last :: ts).Pairwise (· ≤ ·) → (∀ t ∈ last :: ts, t ≤ hi) →
      refilled bucketParams last ts ≤ refillPerSecond * (hi - last) := by
    intro ts
    induction ts with
    | nil =>
      intro last _ hle
      have hlast : last ≤ hi := hle last List.mem_cons_self
      simp only [refilled, refillPerSecond]
      omega
    | cons t ts ih =>
      intro last hs hle
      obtain ⟨hfirst, hs⟩ := List.pairwise_cons.mp hs
      have hstep : last ≤ t := hfirst t List.mem_cons_self
      have hmore := ih t hs fun u hu => hle u (List.mem_cons_of_mem _ hu)
      simp only [refilled, Params.inflow, bucketParams, refillPerSecond] at hmore ⊢
      omega
  cases ts with
  | nil => cases hlo
  | cons t ts =>
    have hfirst : lo ≤ t := (hall t List.mem_cons_self).1
    have hle := hrest ts t h fun u hu => (hall u hu).2
    simp only [refilledOver, refillPerSecond] at hle ⊢
    omega

theorem reboundsFill_of_sorted (h : ts.Pairwise (· ≤ ·)) : ReboundsFill ts := by
  intro last t u hinfix hold _
  have hs := h.sublist hinfix.sublist
  have hle : last ≤ t := (List.pairwise_cons.mp hs).1 t List.mem_cons_self
  omega

theorem skewSafe_of_sorted (h : (readings clientKey reqs).Pairwise (· ≤ ·)) : SkewSafe clientKey reqs := by
  have hds : ((readings clientKey reqs).map fun t => (t, 0)).map Prod.fst = readings clientKey reqs := by
    rw [List.map_map]
    exact List.map_id _
  refine skewSafe_of_covered ?_ ?_ (spread_once (readings clientKey reqs)).symm
  · rw [hds]
    exact refillCovered_of_sorted h
  · rw [hds]
    exact reboundsFill_of_sorted h

end Readings

/-- A client's requests are safe, however many come at each of its readings, exactly where the refill of
the readings' climbs is covered by their range, and every climb back from an older reading fills the
bucket anyway. -/
theorem skew_safe_iff (clientKey : String) (ts : List ℤ) :
    (∀ reqs ds, ds.map Prod.fst = ts → readings clientKey reqs = spread ds → SkewSafe clientKey reqs) ↔
      RefillCovered ts ∧ ReboundsFill ts := by
  constructor
  · intro h
    refine ⟨covered_of_safe fun reqs hread => h reqs _ ?_ hread, rebounds_of_safe h⟩
    rw [saturate, List.map_map]
    exact List.map_id ts
  · rintro ⟨hcov, hreb⟩ reqs ds rfl hread
    exact skewSafe_of_covered hcov hreb hread

/-- Two API hosts whose clocks are one second apart: the request that reads 0 again makes the second
between 0 and 1 refill twice. -/
theorem skewed_clocks_overrun :
    ¬∀ (clientKey : String) (reqs : List (String × ℤ)), SkewSafe clientKey reqs := by
  intro hall
  have hread := readings_map (k := "ip:1") (List.replicate 60 (0 : ℤ) ++ [1, 0, 1])
  have hbound := (hall "ip:1" _).bounded 0 (by rw [hread]; decide) 1 (by rw [hread]; decide)
    (by rw [hread]; decide)
  rw [admissions_serveAll, hread] at hbound
  have hcount : passed bucketParams (bucketParams.full 0) (List.replicate 60 (0 : ℤ) ++ [1, 0, 1]) = 62 := by
    decide
  have hfirst : bucketFor bucketParams none (List.replicate 60 (0 : ℤ) ++ [1, 0, 1]) = bucketParams.full 0 := rfl
  rw [hfirst, hcount] at hbound
  exact absurd hbound (by decide)

end JobScheduler
