import JobScheduler.TokenBucket

namespace TokenBucket

/-! ## Buckets under decisions of any kind -/

/-- What a bucket holds after a request at `now` that is admitted or not, whatever the level. -/
def Params.spend (P : Params) (b : Bucket) (now : ℤ) (ok : Bool) : Bucket :=
  ⟨P.level b now - if ok then P.cost else 0, now⟩

section Account
variable {κ : Type} [DecidableEq κ] {P : Params} {k : κ} {o : Option Bucket} {ds : List ((κ × ℤ) × Bool)}
  {m : κ → Option Bucket}

def account (P : Params) (k : κ) (o : Option Bucket) (ds : List ((κ × ℤ) × Bool)) : Option Bucket :=
  ds.foldl (fun o d => if d.1.1 = k then some (P.spend (o.getD (P.full d.1.2)) d.1.2 d.2) else o) o

def levelAfter (P : Params) (k : κ) (ds : List ((κ × ℤ) × Bool)) (now : ℤ) : ℤ :=
  P.level ((account P k none ds).getD (P.full now)) now

theorem take_eq_spend (P : Params) (b : Bucket) (now : ℤ) :
    (P.take b now).1 = P.spend b now (P.take b now).2 := by
  unfold Params.take Params.spend
  split <;> simp

theorem take_ok (P : Params) (b : Bucket) (now : ℤ) : (P.take b now).2 = decide (P.cost ≤ P.level b now) := by
  unfold Params.take
  split <;> simp [*]

theorem account_cons (d : (κ × ℤ) × Bool) : account P k o (d :: ds) =
    account P k (if d.1.1 = k then some (P.spend (o.getD (P.full d.1.2)) d.1.2 d.2) else o) ds := rfl

theorem account_snoc (d : (κ × ℤ) × Bool) : account P k o (ds ++ [d]) =
    if d.1.1 = k then some (P.spend ((account P k o ds).getD (P.full d.1.2)) d.1.2 d.2)
    else account P k o ds := by
  rw [account, List.foldl_append]
  rfl

theorem serve_snoc (rs : List (κ × ℤ)) (r : κ × ℤ) : serve P m (rs ++ [r]) = serve P m rs ++
    [(r, decide (P.cost ≤ P.level ((account P r.1 (m r.1) (serve P m rs)).getD (P.full r.2)) r.2))] := by
  induction rs generalizing m with
  | nil =>
    show [(r, (P.take (find P m r.1 r.2) r.2).2)] = _
    rw [take_ok]
    rfl
  | cons r₀ rs ih =>
    have hm : Function.update m r₀.1 (some (P.take (find P m r₀.1 r₀.2) r₀.2).1) r.1 =
        if r₀.1 = r.1 then some (P.spend ((m r.1).getD (P.full r₀.2)) r₀.2
          (P.take (find P m r₀.1 r₀.2) r₀.2).2) else m r.1 := by
      rw [Function.update_apply]
      by_cases hk : r₀.1 = r.1
      · rw [if_pos hk.symm, if_pos hk, take_eq_spend, ← hk]
        rfl
      · rw [if_neg fun h => hk h.symm, if_neg hk]
    rw [List.cons_append, serve, ih, serve, List.cons_append, account_cons, hm]

theorem serve_split (rs rs' : List (κ × ℤ)) :
    ∃ m', serve P m (rs ++ rs') = serve P m rs ++ serve P m' rs' := by
  induction rs generalizing m with
  | nil => exact ⟨m, rfl⟩
  | cons r rs ih =>
    obtain ⟨m', h⟩ := ih (m := Function.update m r.1 (some (P.take (find P m r.1 r.2) r.2).1))
    refine ⟨m', ?_⟩
    rw [List.cons_append, serve, h, serve, List.cons_append]

theorem serve_take (n : ℕ) (rs : List (κ × ℤ)) : (serve P m rs).take n = serve P m (rs.take n) := by
  induction rs generalizing m n with
  | nil => simp [serve]
  | cons r rs ih =>
    cases n with
    | zero => rfl
    | succ n => rw [serve, List.take_succ_cons, ih, List.take_succ_cons, serve]

theorem serve_times (rs : List (κ × ℤ)) : (serve P m rs).map (fun d => d.1.2) = rs.map Prod.snd := by
  induction rs generalizing m with
  | nil => rfl
  | cons r rs ih => rw [serve, List.map_cons, ih, List.map_cons]

theorem admitted_snoc (p : ℤ → Bool) (d : (κ × ℤ) × Bool) : admitted k p (ds ++ [d]) =
    admitted k p ds + if d.1.1 = k ∧ d.2 = true ∧ p d.1.2 = true then 1 else 0 := by
  simp only [admitted, List.countP_append, List.countP_singleton, Bool.and_eq_true, decide_eq_true_eq,
    and_assoc]

theorem levelAfter_nil (now : ℤ) : levelAfter P k [] now = P.capacity := level_full

theorem levelAfter_le (now : ℤ) : levelAfter P k ds now ≤ P.capacity := level_le_capacity

theorem levelAfter_snoc_of_ne {d : (κ × ℤ) × Bool} (hk : d.1.1 ≠ k) (now : ℤ) :
    levelAfter P k (ds ++ [d]) now = levelAfter P k ds now := by
  rw [levelAfter, account_snoc, if_neg hk, levelAfter]

theorem levelAfter_snoc {d : (κ × ℤ) × Bool} (hk : d.1.1 = k) {now : ℤ} (hnow : d.1.2 ≤ now) :
    levelAfter P k (ds ++ [d]) now = min P.capacity
      (levelAfter P k ds d.1.2 - (if d.2 then P.cost else 0) + (now - d.1.2) * P.refill) := by
  have hmax : max 0 (now - d.1.2) = now - d.1.2 := max_eq_right (by omega)
  rw [levelAfter, account_snoc, if_pos hk, Option.getD_some, Params.level]
  show min P.capacity (_ + max 0 (now - d.1.2) * P.refill) = _
  rw [hmax]
  rfl

theorem admitted_since_eq_zero {a : ℤ} (h : ∀ d ∈ ds, d.1.2 < a) :
    admitted k (fun t => decide (a ≤ t)) ds = 0 := by
  apply List.countP_eq_zero.mpr
  intro d hd
  have := h d hd
  simp only [Bool.and_eq_true, decide_eq_true_eq, not_and, not_le]
  intro _
  exact this

theorem cost_admitted_snoc {d : (κ × ℤ) × Bool} (hk : d.1.1 = k) {a : ℤ} (ha : a ≤ d.1.2) :
    P.cost * admitted k (fun t => decide (a ≤ t)) (ds ++ [d]) =
      P.cost * admitted k (fun t => decide (a ≤ t)) ds + if d.2 then P.cost else 0 := by
  rw [admitted_snoc]
  cases hd : d.2 with
  | false => simp
  | true =>
    simp only [hk, ha, decide_true, and_self, if_true]
    push_cast
    ring

/-- In every window up to now the level and the admissions add up to at most a full bucket and the
refill of the window; and in some window they add up to just that. -/
theorem levelAfter_window (hs : (ds.map fun d => d.1.2).Pairwise (· ≤ ·)) {now : ℤ}
    (hnow : ∀ d ∈ ds, d.1.2 ≤ now) :
    (∀ a ≤ now, levelAfter P k ds now + P.cost * admitted k (fun t => decide (a ≤ t)) ds ≤
      P.capacity + (now - a) * P.refill) ∧
    ∃ a ≤ now, levelAfter P k ds now + P.cost * admitted k (fun t => decide (a ≤ t)) ds =
      P.capacity + (now - a) * P.refill := by
  induction ds using List.reverseRecOn generalizing now with
  | nil =>
    simp only [levelAfter_nil, admitted, List.countP_nil, Nat.cast_zero, mul_zero, add_zero]
    refine ⟨fun a ha => ?_, now, le_refl now, by ring⟩
    have := mul_nonneg (sub_nonneg.mpr ha) P.refill_nonneg
    omega
  | append_singleton ds d ih =>
    rw [List.map_append, List.pairwise_append] at hs
    obtain ⟨hs, _, hlast⟩ := hs
    have hd : d.1.2 ≤ now := hnow d (by simp)
    have hbefore : ∀ e ∈ ds, e.1.2 ≤ d.1.2 := by
      intro e he
      exact hlast _ (List.mem_map_of_mem he) _ (by simp)
    by_cases hk : d.1.1 = k
    · obtain ⟨hle, a₀, ha₀, heq⟩ := ih hs hbefore
      have hcap : levelAfter P k ds d.1.2 ≤ P.capacity := levelAfter_le _
      have hin : 0 ≤ (now - d.1.2) * P.refill := mul_nonneg (sub_nonneg.mpr hd) P.refill_nonneg
      have hcost : 0 ≤ if d.2 then P.cost else 0 := by
        split
        · exact P.cost_nonneg
        · exact le_rfl
      -- a window that begins after the last request has admitted nothing
      have hlate {a : ℤ} (ha : d.1.2 < a) : admitted k (fun t => decide (a ≤ t)) (ds ++ [d]) = 0 := by
        apply admitted_since_eq_zero
        intro e he
        rcases List.mem_append.mp he with he | he
        · exact (hbefore e he).trans_lt ha
        · rwa [List.mem_singleton.mp he]
      have hsplit (a : ℤ) : (d.1.2 - a) * P.refill + (now - d.1.2) * P.refill = (now - a) * P.refill := by ring
      rw [levelAfter_snoc hk hd]
      refine ⟨fun a ha => ?_, ?_⟩
      · rcases le_or_gt a d.1.2 with had | had
        · rw [cost_admitted_snoc hk had]
          have hwin := hle a had
          have hmin := min_le_right P.capacity
            (levelAfter P k ds d.1.2 - (if d.2 then P.cost else 0) + (now - d.1.2) * P.refill)
          have := hsplit a
          linarith
        · rw [hlate had, Nat.cast_zero, mul_zero, add_zero]
          have := mul_nonneg (sub_nonneg.mpr ha) P.refill_nonneg
          exact (min_le_left _ _).trans (by omega)
      · rcases le_or_gt (levelAfter P k ds d.1.2 - (if d.2 then P.cost else 0) + (now - d.1.2) * P.refill)
          P.capacity with hfull | hfull
        · refine ⟨a₀, ha₀.trans hd, ?_⟩
          rw [min_eq_right hfull, cost_admitted_snoc hk ha₀]
          have := hsplit a₀
          linarith
        · -- the bucket has filled up since the last request
          have hlt : d.1.2 < now := by
            rcases hd.lt_or_eq with hlt | he
            · exact hlt
            · rw [he] at hfull hcap
              simp only [sub_self, zero_mul, add_zero] at hfull
              omega
          refine ⟨now, le_rfl, ?_⟩
          rw [hlate hlt, min_eq_left hfull.le, sub_self]
          simp
    · have hadm (a : ℤ) : admitted k (fun t => decide (a ≤ t)) (ds ++ [d]) =
          admitted k (fun t => decide (a ≤ t)) ds := by
        rw [admitted_snoc, if_neg fun h => hk h.1]
        rfl
      simp only [levelAfter_snoc_of_ne hk, hadm]
      exact ih hs fun e he => (hbefore e he).trans hd

end Account

/-! ## What a token bucket is best at -/

section Greedy
variable {κ : Type} [DecidableEq κ] {P : Params} {k : κ}

/-- A request is admitted exactly if no window that ends with it gets more admissions than a full
bucket and the refill of the window pay for. -/
theorem serve_admits_iff {before after : List (κ × ℤ)} {now : ℤ}
    (hs : ((before ++ (k, now) :: after).map Prod.snd).Pairwise (· ≤ ·)) :
    ∃ ok rest, serve P (fun _ => none) (before ++ (k, now) :: after) =
        serve P (fun _ => none) before ++ ((k, now), ok) :: rest ∧
      (ok = true ↔ ∀ a ≤ now,
        P.cost * (admitted k (fun t => decide (a ≤ t)) (serve P (fun _ => none) before) + 1) ≤
          P.capacity + (now - a) * P.refill) := by
  obtain ⟨m', hrest⟩ := serve_split (P := P) (m := fun _ => none) (before ++ [(k, now)]) after
  rw [List.append_assoc, serve_snoc, List.append_assoc] at hrest
  refine ⟨_, serve P m' after, hrest, ?_⟩
  have htimes : (serve P (fun _ => none) before).map (fun d => d.1.2) = before.map Prod.snd := serve_times _
  rw [List.map_append, List.pairwise_append] at hs
  have hnow : ∀ d ∈ serve P (fun _ => none) before, d.1.2 ≤ now := by
    intro d hd
    have hmem : d.1.2 ∈ before.map Prod.snd := by
      rw [← htimes]
      exact List.mem_map_of_mem hd
    exact hs.2.2 _ hmem now (by simp)
  obtain ⟨hle, a₀, ha₀, heq⟩ := levelAfter_window (P := P) (k := k) (by rw [htimes]; exact hs.1) hnow
  rw [decide_eq_true_eq]
  show P.cost ≤ levelAfter P k (serve P (fun _ => none) before) now ↔ _
  constructor
  · intro hcost a ha
    have := hle a ha
    linarith
  · intro hall
    have := hall a₀ ha₀
    linarith

theorem cost_le_level_of_within {ds : List ((κ × ℤ) × Bool)} {d : (κ × ℤ) × Bool}
    (hs : ((ds ++ [d]).map fun d => d.1.2).Pairwise (· ≤ ·))
    (hwithin : ∀ a b, a ≤ b → P.cost * admitted k (fun t => decide (a ≤ t) && decide (t ≤ b)) (ds ++ [d]) ≤
      P.capacity + (b - a) * P.refill) (hk : d.1.1 = k) (hok : d.2 = true) :
    P.cost ≤ levelAfter P k ds d.1.2 := by
  rw [List.map_append, List.pairwise_append] at hs
  have hbefore : ∀ e ∈ ds, e.1.2 ≤ d.1.2 := by
    intro e he
    exact hs.2.2 _ (List.mem_map_of_mem he) _ (by simp)
  obtain ⟨_, a₀, ha₀, heq⟩ := levelAfter_window (P := P) (k := k) hs.1 hbefore
  have hwin := hwithin a₀ d.1.2 ha₀
  have hadm : admitted k (fun t => decide (a₀ ≤ t) && decide (t ≤ d.1.2)) (ds ++ [d]) =
      admitted k (fun t => decide (a₀ ≤ t)) (ds ++ [d]) := by
    apply List.countP_congr
    intro e he
    have hle : e.1.2 ≤ d.1.2 := by
      rcases List.mem_append.mp he with he | he
      · exact hbefore e he
      · rw [List.mem_singleton.mp he]
    simp [hle]
  rw [hadm, cost_admitted_snoc hk ha₀, hok, if_pos rfl] at hwin
  linarith

/-- The decisions `es` are ahead of `ds` in admissions, and behind in tokens by no more than that. -/
structure Ahead (P : Params) (k : κ) (ds es : List ((κ × ℤ) × Bool)) : Prop where
  admissions : admitted k (fun _ => true) ds ≤ admitted k (fun _ => true) es
  tokens : ∀ now, (∀ d ∈ ds, d.1.2 ≤ now) → P.cost * admitted k (fun _ => true) ds + levelAfter P k ds now ≤
    P.cost * admitted k (fun _ => true) es + levelAfter P k es now

theorem Ahead.snoc {ds es : List ((κ × ℤ) × Bool)} (h : Ahead P k ds es) {r : κ × ℤ} {ok : Bool}
    (hbefore : ∀ d ∈ ds, d.1.2 ≤ r.2) (hpays : r.1 = k → ok = true → P.cost ≤ levelAfter P k ds r.2) :
    Ahead P k (ds ++ [(r, ok)]) (es ++ [(r, decide (P.cost ≤ levelAfter P r.1 es r.2))]) := by
  by_cases hk : r.1 = k
  · have hadm (ds : List ((κ × ℤ) × Bool)) (ok : Bool) : admitted k (fun _ => true) (ds ++ [(r, ok)]) =
        admitted k (fun _ => true) ds + if ok then 1 else 0 := by
      rw [admitted_snoc]
      simp [hk]
    have hl := h.tokens r.2 hbefore
    have hgreedy : admitted k (fun _ => true) ds + (if ok then 1 else 0) ≤ admitted k (fun _ => true) es +
        if decide (P.cost ≤ levelAfter P r.1 es r.2) then 1 else 0 := by
      have hcount := h.admissions
      by_cases hes : P.cost ≤ levelAfter P r.1 es r.2
      · rw [decide_eq_true hes, if_pos rfl]
        split <;> omega
      · rw [decide_eq_false hes]
        cases ok with
        | false => simpa using hcount
        | true =>
          -- the tokens that `ds` has left over have been spent by `es`
          have hds := hpays hk rfl
          rw [hk] at hes
          have hlt : P.cost * admitted k (fun _ => true) ds < P.cost * admitted k (fun _ => true) es := by
            linarith
          have := Int.ofNat_lt.mp (lt_of_mul_lt_mul_left hlt P.cost_nonneg)
          simpa using this
    refine ⟨by rw [hadm, hadm]; exact hgreedy, fun now hnow => ?_⟩
    have hr : r.2 ≤ now := hnow (r, ok) (by simp)
    have hadd (n : ℕ) (b : Bool) : P.cost * ((n + if b then 1 else 0 : ℕ) : ℤ) =
        P.cost * n + if b then P.cost else 0 := by
      cases b <;> push_cast <;> simp [mul_add]
    have hcost := mul_le_mul_of_nonneg_left (Int.ofNat_le.mpr hgreedy) P.cost_nonneg
    rw [hadd, hadd] at hcost
    rw [levelAfter_snoc (d := (r, ok)) hk hr, levelAfter_snoc (d := (r, _)) hk hr, hadm, hadm, hadd, hadd,
      ← min_add_add_left, ← min_add_add_left]
    apply min_le_min
    · linarith
    · dsimp only
      linarith
  · have hadm (ds : List ((κ × ℤ) × Bool)) (ok : Bool) : admitted k (fun _ => true) (ds ++ [(r, ok)]) =
        admitted k (fun _ => true) ds := by
      rw [admitted_snoc, if_neg fun h => hk h.1]
      rfl
    refine ⟨by rw [hadm, hadm]; exact h.admissions, fun now hnow => ?_⟩
    rw [levelAfter_snoc_of_ne (d := (r, ok)) hk, levelAfter_snoc_of_ne (d := (r, _)) hk, hadm, hadm]
    exact h.tokens now fun d hd => hnow d (List.mem_append_left _ hd)

/-- No decisions that stay within every window admit more requests than the bucket does. -/
theorem admitted_le_serve {ds : List ((κ × ℤ) × Bool)} (hs : (ds.map fun d => d.1.2).Pairwise (· ≤ ·))
    (hwithin : ∀ a b, a ≤ b → P.cost * admitted k (fun t => decide (a ≤ t) && decide (t ≤ b)) ds ≤
      P.capacity + (b - a) * P.refill) :
    admitted k (fun _ => true) ds ≤ admitted k (fun _ => true) (serve P (fun _ => none) (ds.map Prod.fst)) := by
  suffices h : Ahead P k ds (serve P (fun _ => none) (ds.map Prod.fst)) from h.admissions
  induction ds using List.reverseRecOn with
  | nil => exact ⟨le_rfl, fun _ _ => le_rfl⟩
  | append_singleton ds d ih =>
    have hs' := hs
    rw [List.map_append, List.pairwise_append] at hs'
    have hwithin' : ∀ a b, a ≤ b →
        P.cost * admitted k (fun t => decide (a ≤ t) && decide (t ≤ b)) ds ≤ P.capacity + (b - a) * P.refill := by
      intro a b hab
      refine le_trans ?_ (hwithin a b hab)
      rw [admitted_snoc]
      exact mul_le_mul_of_nonneg_left (Int.ofNat_le.mpr (Nat.le_add_right _ _)) P.cost_nonneg
    have hbefore : ∀ e ∈ ds, e.1.2 ≤ d.1.2 := by
      intro e he
      exact hs'.2.2 _ (List.mem_map_of_mem he) _ (by simp)
    rw [List.map_append, List.map_singleton, serve_snoc]
    exact (ih hs'.1 hwithin').snoc hbefore fun hk hok => cost_le_level_of_within hs hwithin hk hok

end Greedy

/-! ## Buckets that cannot be told apart -/

section Alike
variable {P : Params} {b : Bucket} {o o' : Option Bucket} {now : ℤ}

theorem level_flow {t t' : ℤ} (hb : b.last ≤ t) (ht : t ≤ t') :
    P.level b t' = min P.capacity (P.level b t + (t' - t) * P.refill) := by
  have h₁ : max 0 (t - b.last) = t - b.last := max_eq_right (by omega)
  have h₂ : max 0 (t' - b.last) = t' - b.last := max_eq_right (by omega)
  have hin : 0 ≤ (t' - t) * P.refill := mul_nonneg (sub_nonneg.mpr ht) P.refill_nonneg
  have hsum : (t - b.last) * P.refill + (t' - t) * P.refill = (t' - b.last) * P.refill := by ring
  simp only [Params.level, h₁, h₂]
  omega

/-- Two buckets, or new ones, that every request from now on finds at the same level. -/
def Alike (P : Params) (now : ℤ) (o o' : Option Bucket) : Prop :=
  ∀ t, now ≤ t → P.level (o.getD (P.full t)) t = P.level (o'.getD (P.full t)) t

theorem Alike.later {now' : ℤ} (h : Alike P now o o') (hle : now ≤ now') : Alike P now' o o' :=
  fun t ht => h t (hle.trans ht)

theorem Alike.trans {o'' : Option Bucket} (h : Alike P now o o') (h' : Alike P now o' o'') : Alike P now o o'' :=
  fun t ht => (h t ht).trans (h' t ht)

theorem Alike.spend_eq (h : Alike P now o o') (ok : Bool) :
    P.spend (o.getD (P.full now)) now ok = P.spend (o'.getD (P.full now)) now ok := by
  simp only [Params.spend, h now le_rfl]

/-- A request that is not admitted leaves the bucket as good as it was. -/
theorem alike_of_refused (hlast : ∀ b, o = some b → b.last ≤ now) :
    Alike P now (some (P.spend (o.getD (P.full now)) now false)) o := by
  intro t ht
  have hspend : P.spend (o.getD (P.full now)) now false = ⟨P.level (o.getD (P.full now)) now, now⟩ := by
    simp [Params.spend]
  rw [Option.getD_some, hspend]
  have hflow : P.level ⟨P.level (o.getD (P.full now)) now, now⟩ t =
      min P.capacity (P.level (o.getD (P.full now)) now + (t - now) * P.refill) := by
    have hmax : max 0 (t - now) = t - now := max_eq_right (by omega)
    simp only [Params.level, hmax]
  rw [hflow]
  cases o with
  | none =>
    have hin : 0 ≤ (t - now) * P.refill := mul_nonneg (sub_nonneg.mpr ht) P.refill_nonneg
    rw [Option.getD_none, Option.getD_none, level_full, level_full]
    omega
  | some b => exact (level_flow (hlast b rfl) ht).symm

end Alike

end TokenBucket
