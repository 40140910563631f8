import Mathlib.Data.List.Forall2
import Mathlib.Data.List.Sort
import Mathlib.Tactic

namespace Relational

section Order
variable {ρ : Type} {k : ρ → ℤ}

/-- `ORDER BY k DESC`; rows that tie stay in the order they are read. -/
def orderByDesc (k : ρ → ℤ) (rows : List ρ) : List ρ := rows.insertionSort fun a b => k b ≤ k a

/-- `LIMIT limit OFFSET offset`: a negative bound is an error, that of `OFFSET` first. -/
def page (limit offset : ℤ) (rows : List ρ) : Except String (List ρ) :=
  if offset < 0 then .error "OFFSET must not be negative"
  else if limit < 0 then .error "LIMIT must not be negative"
  else .ok ((rows.drop offset.toNat).take limit.toNat)

@[simp] theorem length_orderByDesc (rows : List ρ) : (orderByDesc k rows).length = rows.length :=
  List.length_insertionSort _ _

theorem orderByDesc_perm (rows : List ρ) : (orderByDesc k rows).Perm rows := List.perm_insertionSort _ _

theorem orderByDesc_map (f : ρ → ρ) (rows : List ρ) (h : ∀ r ∈ rows, k (f r) = k r) :
    orderByDesc k (rows.map f) = (orderByDesc k rows).map f := by
  refine (List.map_insertionSort _ _ f rows ?_).symm
  intro a ha b hb
  rw [h a ha, h b hb]

theorem orderByDesc_top {r : ρ} (l₁ l₂ : List ρ) (h₁ : ∀ x ∈ l₁, k x < k r) (h₂ : ∀ x ∈ l₂, k x < k r) :
    orderByDesc k (l₁ ++ r :: l₂) = r :: orderByDesc k (l₁ ++ l₂) := by
  induction l₁ with
  | nil => exact List.insertionSort_cons_of_forall_rel _ fun x hx => (h₂ x hx).le
  | cons a l ih =>
    have ha : ¬ k r ≤ k a := not_le.mpr (h₁ a List.mem_cons_self)
    have hl := ih fun x hx => h₁ x (List.mem_cons_of_mem _ hx)
    unfold orderByDesc at hl ⊢
    rw [List.cons_append, List.insertionSort_cons, hl, List.orderedInsert_cons, if_neg ha]
    rfl

theorem orderedInsert_last {r : ρ} (rows : List ρ) (h : ∀ x ∈ rows, k r < k x) :
    rows.orderedInsert (fun a b => k b ≤ k a) r = rows ++ [r] := by
  induction rows with
  | nil => rfl
  | cons b l ih =>
    rw [List.orderedInsert_cons, if_neg (not_le.mpr (h b List.mem_cons_self)),
      ih fun x hx => h x (List.mem_cons_of_mem _ hx)]
    rfl

theorem orderedInsert_append_last {r a : ρ} (rows : List ρ) (h : k r ≤ k a) :
    (rows ++ [r]).orderedInsert (fun a b => k b ≤ k a) a =
      rows.orderedInsert (fun a b => k b ≤ k a) a ++ [r] := by
  induction rows with
  | nil => simp [h]
  | cons b l ih =>
    rw [List.cons_append, List.orderedInsert_cons, List.orderedInsert_cons]
    split
    · rfl
    · rw [ih]
      rfl

theorem orderByDesc_bottom {r : ρ} (l₁ l₂ : List ρ) (h₁ : ∀ x ∈ l₁, k r < k x) (h₂ : ∀ x ∈ l₂, k r < k x) :
    orderByDesc k (l₁ ++ r :: l₂) = orderByDesc k (l₁ ++ l₂) ++ [r] := by
  induction l₁ with
  | nil => exact orderedInsert_last _ fun x hx => h₂ x ((List.mem_insertionSort _).mp hx)
  | cons a l ih =>
    have ha : k r ≤ k a := (h₁ a List.mem_cons_self).le
    have hl := ih fun x hx => h₁ x (List.mem_cons_of_mem _ hx)
    unfold orderByDesc at hl ⊢
    rw [List.cons_append, List.insertionSort_cons, hl, orderedInsert_append_last _ ha]
    rfl

theorem page_ok {limit offset : ℤ} (hl : 0 ≤ limit) (ho : 0 ≤ offset) (rows : List ρ) :
    page limit offset rows = .ok ((rows.drop offset.toNat).take limit.toNat) := by
  rw [page, if_neg (not_lt.mpr ho), if_neg (not_lt.mpr hl)]

theorem page_of_empty {limit offset : ℤ} {rows rows' : List ρ}
    (h : limit ≤ 0 ∨ offset < 0 ∨ (rows.length : ℤ) ≤ offset) (hlen : rows'.length = rows.length) :
    page limit offset rows' = page limit offset rows := by
  unfold page
  split
  · rfl
  · split
    · rfl
    · rcases h with h | h | h
      · have hz : limit.toNat = 0 := by omega
        rw [hz, List.take_zero, List.take_zero]
      · omega
      · rw [List.drop_eq_nil_of_le (by omega), List.drop_eq_nil_of_le (by omega)]

theorem head?_page {limit offset : ℤ} (hl : 0 < limit) (rows : List ρ) :
    ((rows.drop offset.toNat).take limit.toNat).head? = rows[offset.toNat]? := by
  have hpos : limit.toNat ≠ 0 := by omega
  rw [List.head?_take, if_neg hpos, List.head?_drop]

theorem exists_bounds (k : ρ → ℤ) (rows : List ρ) : ∃ lo hi, lo < hi ∧ ∀ r ∈ rows, lo < k r ∧ k r < hi := by
  induction rows with
  | nil => exact ⟨0, 1, by omega, fun r hr => absurd hr List.not_mem_nil⟩
  | cons a l ih =>
    obtain ⟨lo, hi, hlt, hl⟩ := ih
    refine ⟨min lo (k a - 1), max hi (k a + 1), by omega, fun r hr => ?_⟩
    rcases List.mem_cons.mp hr with rfl | hr
    · omega
    · have := hl r hr
      omega

theorem getElem?_rotate_ne {a a' : ρ} {l : List ρ} (hne : a ≠ a') (ha : a ∉ l) (ha' : a' ∉ l)
    (hnd : l.Nodup) {n : ℕ} (hn : n < l.length + 1) : (a :: l)[n]? ≠ (l ++ [a'])[n]? := by
  cases n with
  | zero =>
    cases l with
    | nil => simpa using hne
    | cons b l =>
      intro he
      have hab : a = b := by simpa using he
      exact ha (hab ▸ List.mem_cons_self)
  | succ m =>
    have hm : m < l.length := by omega
    rw [List.getElem?_cons_succ, List.getElem?_eq_getElem hm]
    by_cases hl : m + 1 < l.length
    · rw [List.getElem?_append_left hl, List.getElem?_eq_getElem hl, Ne, Option.some_inj,
        hnd.getElem_inj_iff]
      omega
    · have hlen : m + 1 = l.length := by omega
      rw [hlen, List.getElem?_concat_length, Ne, Option.some_inj]
      exact fun he => ha' (he ▸ List.getElem_mem hm)

end Order

section Related
variable {ρ σ : Type} {R : ρ → σ → Prop} {rows : List ρ} {rows' : List σ} {p : ρ → Bool} {q : σ → Bool}

theorem find?_related (h : List.Forall₂ R rows rows') (hpq : ∀ a b, R a b → p a = q b) :
    Option.Rel R (rows.find? p) (rows'.find? q) := by
  induction h with
  | nil => exact .none
  | @cons a b l l' hab _ ih =>
    rw [List.find?_cons, List.find?_cons, ← hpq a b hab]
    cases p a with
    | true => exact .some hab
    | false => exact ih

theorem isSome_of_related {a : Option ρ} {b : Option σ} (h : Option.Rel R a b) : b.isSome = a.isSome := by
  cases h <;> rfl

theorem eq_of_related {R : ρ → ρ → Prop} {a b : Option ρ} (h : Option.Rel R a b)
    (heq : ∀ r, a = some r → ∀ r', R r r' → r' = r) : b = a := by
  cases h with
  | none => rfl
  | some hab => rw [heq _ rfl _ hab]

theorem map_eq_of_map_eq {α β : Type} {f : ρ → α} {g : ρ → β} (hfg : ∀ r r', f r = f r' → g r = g r')
    {a b : Option ρ} (h : a.map f = b.map f) : a.map g = b.map g := by
  cases a with
  | none =>
    cases b with
    | none => rfl
    | some r => cases h
  | some r =>
    cases b with
    | none => cases h
    | some r' => exact congrArg some (hfg r r' (Option.some_inj.mp h))

theorem filter_related (h : List.Forall₂ R rows rows') (hpq : ∀ a b, R a b → p a = q b) :
    List.Forall₂ R (rows.filter p) (rows'.filter q) :=
  List.rel_filter (fun a b hab => by simp [hpq a b hab]) h

theorem filter_eq_of_related {R : ρ → ρ → Prop} {rows rows' : List ρ} {p : ρ → Bool}
    (h : List.Forall₂ R rows rows') (hp : ∀ a b, R a b → p a = p b)
    (heq : ∀ a ∈ rows, p a = true → ∀ b, R a b → b = a) : rows'.filter p = rows.filter p := by
  induction h with
  | nil => rfl
  | @cons a b l l' hab _ ih =>
    have hl := ih fun x hx => heq x (List.mem_cons_of_mem _ hx)
    rw [List.filter_cons, List.filter_cons, ← hp a b hab, hl]
    cases hpa : p a with
    | true => rw [heq a List.mem_cons_self hpa b hab]
    | false => rfl

theorem filter_map_if {rows : List ρ} {p : ρ → Bool} {f : ρ → ρ} (hp : ∀ r, p (f r) = p r) :
    (rows.map fun r => if p r then f r else r).filter p = (rows.filter p).map f := by
  induction rows with
  | nil => rfl
  | cons a l ih =>
    cases hpa : p a with
    | true => simp [hpa, hp, ih]
    | false => simp [hpa, ih]

theorem orderByDesc_filter_map_if {k : ρ → ℤ} {rows : List ρ} {p : ρ → Bool} {f : ρ → ρ}
    (hp : ∀ r, p (f r) = p r) (hk : ∀ r, k (f r) = k r) :
    orderByDesc k ((rows.map fun r => if p r then f r else r).filter p) =
      (orderByDesc k (rows.filter p)).map f := by
  rw [filter_map_if hp]
  exact orderByDesc_map f _ fun r _ => hk r

theorem related_map {R : ρ → ρ → Prop} {rows : List ρ} {f : ρ → ρ} (h : ∀ r ∈ rows, R r (f r)) :
    List.Forall₂ R rows (rows.map f) :=
  List.forall₂_map_right_iff.mpr (List.forall₂_same.mpr h)

end Related

section Pages
variable {ρ κ : Type} {id : ρ → κ} {k : ρ → ℤ} {r : ρ} {rows xs : List ρ}

/-- What `ORDER BY k DESC` may return: rows that tie come in any order. -/
structure IsListing (k : ρ → ℤ) (rows xs : List ρ) : Prop where
  perm : xs.Perm rows
  ordered : xs.Pairwise fun a b => k b ≤ k a

theorem orderByDesc_isListing (rows : List ρ) : IsListing k rows (orderByDesc k rows) where
  perm := orderByDesc_perm rows
  ordered := List.pairwise_insertionSort (fun a b => k b ≤ k a) rows

/-- What `ORDER BY k DESC LIMIT limit OFFSET offset` may return. -/
def IsPage (k : ρ → ℤ) (rows : List ρ) (limit offset : ℤ) (answer : List ρ) : Prop :=
  ∃ xs, IsListing k rows xs ∧ page limit offset xs = .ok answer

/-- A row that ties with no other stands behind those with a greater value. -/
theorem getElem?_countP (hs : xs.Pairwise fun a b => k b ≤ k a) (hr : r ∈ xs)
    (hties : ∀ x ∈ xs, k x = k r → x = r) :
    xs[xs.countP fun x => k r < k x]? = some r := by
  induction xs with
  | nil => cases hr
  | cons a l ih =>
    obtain ⟨hle, hs⟩ := List.pairwise_cons.mp hs
    by_cases ha : k r < k a
    · have hl : r ∈ l := by
        rcases List.mem_cons.mp hr with rfl | hl
        · exact absurd ha (lt_irrefl _)
        · exact hl
      rw [List.countP_cons_of_pos (p := fun x => decide (k r < k x)) (decide_eq_true ha), List.getElem?_cons_succ]
      exact ih hs hl fun x hx => hties x (List.mem_cons_of_mem _ hx)
    · -- nothing is before `a`, which is the row
      have hzero : (a :: l).countP (fun x => k r < k x) = 0 := by
        apply List.countP_eq_zero.mpr
        intro x hx
        rcases List.mem_cons.mp hx with rfl | hx
        · simpa using ha
        · have := hle x hx
          simp only [decide_eq_true_eq, not_lt] at ha ⊢
          omega
      have har : a = r := by
        rcases List.mem_cons.mp hr with rfl | hl
        · rfl
        · have := hle r hl
          exact hties a (List.mem_cons_self ..) (by omega)
      rw [hzero, har]
      rfl

theorem IsListing.getElem?_place (h : IsListing k rows xs) (hr : r ∈ rows) (hties : ∀ x ∈ rows, k x = k r → x = r) :
    xs[rows.countP fun x => k r < k x]? = some r := by
  rw [← h.perm.countP_eq]
  exact getElem?_countP h.ordered (h.perm.mem_iff.mpr hr) fun x hx => hties x (h.perm.mem_iff.mp hx)

/-- It is on the page that its place lies on. -/
theorem IsPage.mem {limit offset : ℕ} {answer : List ρ} (h : IsPage k rows limit offset answer) (hr : r ∈ rows)
    (hties : ∀ x ∈ rows, k x = k r → x = r) (hle : offset ≤ rows.countP fun x => k r < k x)
    (hlt : (rows.countP fun x => k r < k x) < offset + limit) : r ∈ answer := by
  obtain ⟨xs, hlist, hpage⟩ := h
  rw [page_ok (Int.natCast_nonneg _) (Int.natCast_nonneg _), Int.toNat_natCast, Int.toNat_natCast] at hpage
  rw [← Except.ok.inj hpage]
  refine List.mem_of_getElem? (i := rows.countP (fun x => k r < k x) - offset) ?_
  rw [List.getElem?_take, if_pos (by omega), List.getElem?_drop, Nat.add_sub_cancel' hle]
  exact hlist.getElem?_place hr hties

theorem IsPage.length_le {limit offset : ℕ} {answer : List ρ} (h : IsPage k rows limit offset answer)
    (hshort : answer.length < limit) : rows.length ≤ offset + limit := by
  obtain ⟨xs, hlist, hpage⟩ := h
  rw [page_ok (Int.natCast_nonneg _) (Int.natCast_nonneg _), Int.toNat_natCast, Int.toNat_natCast] at hpage
  rw [← Except.ok.inj hpage, List.length_take, List.length_drop] at hshort
  rw [← hlist.perm.length_eq]
  omega

theorem countP_le_of_grows {rows' : List ρ} (hnodup : (rows.map id).Nodup)
    (hgrow : ∀ x ∈ rows, ∃ x' ∈ rows', id x' = id x ∧ k x' = k x) (v : ℤ) :
    rows.countP (fun x => v < k x) ≤ rows'.countP fun x => v < k x := by
  rw [List.countP_eq_length_filter, List.countP_eq_length_filter, ← List.length_map id]
  refine ((hnodup.sublist (List.filter_sublist.map id)).subperm ?_).length_le.trans (List.length_map id).le
  intro i hi
  obtain ⟨x, hx, rfl⟩ := List.mem_map.mp hi
  obtain ⟨hmem, hv⟩ := List.mem_filter.mp hx
  obtain ⟨x', hx', hid, hk⟩ := hgrow x hmem
  exact List.mem_map.mpr ⟨x', List.mem_filter.mpr ⟨hx', by rw [hk]; exact hv⟩, hid⟩

/-- Page after page, each of a later moment than the one before, up to one that is not full: when rows
are only added, every row that was there at the first is on one of the pages, if it ties with no other. -/
theorem mem_page_of_grows (id : ρ → κ) (rows : ℕ → List ρ) {pages : ℕ → List ρ} {limit n : ℕ}
    (hnodup : ∀ i, ((rows i).map id).Nodup)
    (hgrow : ∀ i, ∀ x ∈ rows i, ∃ x' ∈ rows (i + 1), id x' = id x ∧ k x' = k x)
    (hpages : ∀ i, i ≤ n → IsPage k (rows i) limit (i * limit : ℕ) (pages i)) (hlast : (pages n).length < limit)
    (hr : r ∈ rows 0) (hties : ∀ i, i ≤ n → ∀ x ∈ rows i, k x = k r → id x = id r) :
    ∃ i, i ≤ n ∧ ∃ x ∈ pages i, x ∈ rows i ∧ id x = id r := by
  have hthere (i : ℕ) : ∃ x ∈ rows i, id x = id r ∧ k x = k r := by
    induction i with
    | zero => exact ⟨r, hr, rfl, rfl⟩
    | succ i ih =>
      obtain ⟨x, hx, hid, hk⟩ := ih
      obtain ⟨x', hx', hid', hk'⟩ := hgrow i x hx
      exact ⟨x', hx', hid'.trans hid, hk'.trans hk⟩
  by_contra hnone
  -- the place of the row only moves back, and is behind every page
  have hnot (i : ℕ) (hi : i ≤ n) (hge : i * limit ≤ (rows i).countP fun x => k r < k x) :
      (i + 1) * limit ≤ (rows i).countP fun x => k r < k x := by
    obtain ⟨x, hx, hid, hk⟩ := hthere i
    by_contra hlt
    rw [Nat.succ_mul, not_le] at hlt
    rw [← hk] at hge hlt
    refine hnone ⟨i, hi, x, (hpages i hi).mem hx (fun y hy hky => ?_) hge hlt, hx, hid⟩
    exact List.inj_on_of_nodup_map (hnodup i) hy hx ((hties i hi y hy (hky.trans hk)).trans hid.symm)
  have hpast (i : ℕ) (hi : i ≤ n) : (i + 1) * limit ≤ (rows i).countP fun x => k r < k x := by
    induction i with
    | zero => exact hnot 0 hi (by rw [Nat.zero_mul]; exact Nat.zero_le _)
    | succ i ih =>
      exact hnot (i + 1) hi ((ih (Nat.le_of_succ_le hi)).trans (countP_le_of_grows (hnodup i) (hgrow i) (k r)))
  obtain ⟨x, hx, _, hk⟩ := hthere n
  have hend := (hpages n le_rfl).length_le hlast
  -- the row itself is not counted
  have hlt : ((rows n).countP fun x => k r < k x) < (rows n).length := by
    rw [List.countP_eq_length_filter]
    exact List.length_filter_lt_length_iff_exists.mpr ⟨x, hx, by simp [hk]⟩
  have hge := hpast n le_rfl
  rw [Nat.succ_mul] at hge
  omega

end Pages
end Relational
