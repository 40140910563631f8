import JobScheduler.Auth

namespace JobScheduler
open Relational Transition

/-- A hash verifies against the string it was made from, and no other. -/
def Crypto.Faithful (x : Crypto) : Prop :=
  ∀ raw cost salt tokenHash, x.hash raw cost salt = .ok tokenHash →
    ∀ raw', x.verify raw' tokenHash = .ok true ↔ raw' = raw

/-- It verifies against the strings of the same key, and no others. -/
def Crypto.VerifiesBy {κ : Type} (x : Crypto) (key : String → κ) : Prop :=
  ∀ raw cost salt tokenHash, x.hash raw cost salt = .ok tokenHash →
    ∀ raw', x.verify raw' tokenHash = .ok true ↔ key raw' = key raw

theorem Crypto.Faithful.verifiesBy {x : Crypto} (hx : x.Faithful) : x.VerifiesBy id := hx

/-- The refresh token that a step draws has not been drawn before. -/
def AuthState.distinctTokens (s : AuthState) : AuthLabel → Prop
  | .begin _ _ => True
  | .statement c io => (s.calls c).storing = true → io.raw ∉ s.generated

/-- Its key is none of theirs. -/
def AuthState.distinctKeys {κ : Type} (key : String → κ) (s : AuthState) : AuthLabel → Prop
  | .begin _ _ => True
  | .statement c io => (s.calls c).storing = true → ∀ raw ∈ s.generated, key raw ≠ key io.raw

theorem AuthState.distinctTokens.distinctKeys {s : AuthState} {l : AuthLabel} (h : s.distinctTokens l) :
    s.distinctKeys id l := by
  cases l with
  | begin c req => trivial
  | statement c io =>
    rintro hstoring _ hraw rfl
    exact h hstoring hraw

theorem Crypto.verifies_iff {x : Crypto} {raw tokenHash : String} :
    x.verifies raw tokenHash = true ↔ x.verify raw tokenHash = .ok true := by
  unfold Crypto.verifies
  cases x.verify raw tokenHash <;> simp

section Steps
variable {κ : Type} {key : String → κ} {x : Crypto} {s s' s'' : AuthState} {l : AuthLabel}

/-! ## What stays -/

/-- Users, answers and refresh tokens stay, the tokens as they are or revoked. -/
structure AuthState.Kept (s s' : AuthState) : Prop where
  users : ∀ k user, s.db.users.find? k = some user → s'.db.users.find? k = some user
  answered : ∀ c r, s.calls c = .answered r → s'.calls c = .answered r
  tokens : ∀ r ∈ s.db.refreshTokens.rows,
    r ∈ s'.db.refreshTokens.rows ∨ UserRepository.revoke r ∈ s'.db.refreshTokens.rows

theorem AuthState.Kept.trans (h : s.Kept s') (h' : s'.Kept s'') : s.Kept s'' := by
  refine ⟨fun k user hu => h'.users k user (h.users k user hu), fun c r hr => h'.answered c r (h.answered c r hr),
    fun r hr => ?_⟩
  rcases h.tokens r hr with hr | hr
  · exact h'.tokens r hr
  · exact .inr ((h'.tokens _ hr).elim id id)

theorem kept_of_call {c : ℕ} {call : AuthCall} (hcalls : s'.calls = Function.update s.calls c call)
    (hc : ∀ r, s.calls c ≠ .answered r)
    (husers : ∀ k user, s.db.users.find? k = some user → s'.db.users.find? k = some user)
    (htokens : ∀ r ∈ s.db.refreshTokens.rows,
      r ∈ s'.db.refreshTokens.rows ∨ UserRepository.revoke r ∈ s'.db.refreshTokens.rows) : s.Kept s' := by
  refine ⟨husers, fun c' r hr => ?_, htokens⟩
  have hne : c' ≠ c := by
    rintro rfl
    exact hc r hr
  rw [hcalls, Function.update_of_ne hne, hr]

theorem AuthState.Step.kept (hs : s.Step x l s') : s.Kept s' := by
  cases hs with
  | begun hc | hashed hc | found hc _ | read hc _ _ | refreshed hc _ | matched hc _ _ =>
    exact kept_of_call rfl (by simp [hc]) (fun _ _ hu => hu) fun _ hr => .inl hr
  | refused hc _ =>
    refine kept_of_call rfl (fun r hr => ?_) (fun _ _ hu => hu) fun _ hr => .inl hr
    rw [hr] at hc
    cases hc
  | registered hc hi =>
    exact kept_of_call rfl (by simp [hc]) (fun _ _ hu => Table.find?_of_insert hi hu) fun _ hr => .inl hr
  | stored hc _ hi =>
    refine kept_of_call rfl (by simp [hc]) (fun _ _ hu => hu) fun r hr => .inl ?_
    dsimp only
    rw [(Table.rows_insert hi).1]
    exact List.mem_append_left _ hr
  | @loggedOut c io raw record hc =>
    refine kept_of_call rfl (by simp [hc]) (fun _ _ hu => hu) fun r hr => ?_
    by_cases hh : r.tokenHash = record.tokenHash
    · exact .inr (List.mem_map.mpr ⟨r, hr, by simp [hh]⟩)
    · exact .inl (List.mem_map.mpr ⟨r, hr, by simp [hh]⟩)

/-! ## Tokens issued, stored and revoked -/

def AuthState.Issued (x : Crypto) (key : String → κ) (s : AuthState) (r : RefreshToken) : Prop :=
  ∃ raw ∈ s.generated, (∀ raw', x.verifies raw' r.tokenHash = true ↔ key raw' = key raw) ∧
    ∃ c token user, s.calls c = .answered (.loggedIn (.ok (token, raw, user))) ∧ user.id = r.userId ∧
      s.db.users.find? user.id = some user

structure AuthState.Inv (x : Crypto) (key : String → κ) (s : AuthState) : Prop where
  users : ∀ c user token, s.calls c = .loginStore user token → s.db.users.find? user.id = some user
  issued : ∀ r ∈ s.db.refreshTokens.rows, s.Issued x key r
  one : ∀ r ∈ s.db.refreshTokens.rows, ∀ r' ∈ s.db.refreshTokens.rows, ∀ raw,
    x.verifies raw r.tokenHash = true → x.verifies raw r'.tokenHash = true → r = r'
  revoking : ∀ c raw record, s.calls c = .logoutRevoke raw record →
    x.verifies raw record.tokenHash = true ∧ ∃ r ∈ s.db.refreshTokens.rows, r.tokenHash = record.tokenHash
  out : ∀ c raw, s.calls c = .answered (.loggedOut raw (.ok ())) →
    (∃ r ∈ s.db.refreshTokens.rows, x.verifies raw r.tokenHash = true) ∧
      ∀ r ∈ s.db.refreshTokens.rows, x.verifies raw r.tokenHash = true → r.revoked = true

theorem AuthState.Initial.inv (h : s.Initial) : s.Inv x key := by
  refine ⟨fun c _ _ hc => ?_, ?_, ?_, fun c _ _ hc => ?_, fun c _ hc => ?_⟩
  · simp [h.calls c] at hc
  · simp [h.refreshTokens]
  · simp [h.refreshTokens]
  · simp [h.calls c] at hc
  · simp [h.calls c] at hc

theorem tokenHash_of_revoked {r r' : RefreshToken} (h : r' = r ∨ r' = UserRepository.revoke r) :
    r'.tokenHash = r.tokenHash ∧ r'.id = r.id ∧ r'.userId = r.userId ∧ (r.revoked = true → r'.revoked = true) := by
  rcases h with rfl | rfl
  · exact ⟨rfl, rfl, rfl, id⟩
  · exact ⟨rfl, rfl, rfl, fun _ => rfl⟩

theorem AuthState.Issued.kept {r r' : RefreshToken} (h : s.Issued x key r) (hk : s.Kept s')
    (hgen : ∀ raw ∈ s.generated, raw ∈ s'.generated) (hr : r' = r ∨ r' = UserRepository.revoke r) :
    s'.Issued x key r' := by
  obtain ⟨raw, hraw, hv, c, token, user, hc, hid, hu⟩ := h
  obtain ⟨hhash, _, huser, _⟩ := tokenHash_of_revoked hr
  exact ⟨raw, hgen raw hraw, by rw [hhash]; exact hv, c, token, user, hk.answered _ _ hc, hid.trans huser.symm,
    hk.users _ _ hu⟩

theorem AuthState.Inv.of_old (h : s.Inv x key) (hk : s.Kept s') (hgen : ∀ raw ∈ s.generated, raw ∈ s'.generated)
    {c : ℕ} {call : AuthCall} (hcalls : s'.calls = Function.update s.calls c call)
    (hrows : ∀ r' ∈ s'.db.refreshTokens.rows, ∃ r ∈ s.db.refreshTokens.rows,
      r' = r ∨ r' = UserRepository.revoke r)
    (huser : ∀ user token, call = .loginStore user token → s.db.users.find? user.id = some user)
    (hrecord : ∀ raw record, call = .logoutRevoke raw record →
      x.verifies raw record.tokenHash = true ∧ ∃ r ∈ s.db.refreshTokens.rows, r.tokenHash = record.tokenHash)
    (hout : ∀ raw, call = .answered (.loggedOut raw (.ok ())) →
      (∃ r ∈ s.db.refreshTokens.rows, x.verifies raw r.tokenHash = true) ∧
        ∀ r ∈ s'.db.refreshTokens.rows, x.verifies raw r.tokenHash = true → r.revoked = true) : s'.Inv x key := by
  have hcase : ∀ c' call', s'.calls c' = call' → s.calls c' = call' ∨ c' = c ∧ call = call' := by
    intro c' call' hc'
    rw [hcalls] at hc'
    exact update_eq_cases hc'
  have hstays : ∀ {p : String → Prop}, (∃ r ∈ s.db.refreshTokens.rows, p r.tokenHash) →
      ∃ r ∈ s'.db.refreshTokens.rows, p r.tokenHash := by
    rintro p ⟨r, hr, hp⟩
    rcases hk.tokens r hr with hr | hr
    · exact ⟨r, hr, hp⟩
    · exact ⟨_, hr, hp⟩
  refine ⟨fun c' user token hc' => ?_, fun r' hr' => ?_, fun r₁ hr₁ r₂ hr₂ raw hv₁ hv₂ => ?_,
    fun c' raw record hc' => ?_, fun c' raw hc' => ?_⟩
  · refine hk.users _ _ ?_
    rcases hcase c' _ hc' with hc' | ⟨_, hcall⟩
    · exact h.users c' user token hc'
    · exact huser user token hcall
  · obtain ⟨r, hr, hr'⟩ := hrows r' hr'
    exact (h.issued r hr).kept hk hgen hr'
  · -- both come from one row, whose key they have
    obtain ⟨r₁', hr₁', ho₁⟩ := hrows r₁ hr₁
    obtain ⟨r₂', hr₂', ho₂⟩ := hrows r₂ hr₂
    obtain ⟨hh₁, hid₁, _⟩ := tokenHash_of_revoked ho₁
    obtain ⟨hh₂, hid₂, _⟩ := tokenHash_of_revoked ho₂
    rw [hh₁] at hv₁
    rw [hh₂] at hv₂
    have hsame := h.one _ hr₁' _ hr₂' raw hv₁ hv₂
    have hfind := Table.find?_of_mem hr₁
    rw [hid₁, hsame, ← hid₂, Table.find?_of_mem hr₂] at hfind
    exact (Option.some_inj.mp hfind).symm
  · rcases hcase c' _ hc' with hc' | ⟨_, hcall⟩
    · obtain ⟨hv, hr⟩ := h.revoking c' raw record hc'
      exact ⟨hv, hstays (p := fun th => th = record.tokenHash) hr⟩
    · obtain ⟨hv, hr⟩ := hrecord raw record hcall
      exact ⟨hv, hstays (p := fun th => th = record.tokenHash) hr⟩
  · rcases hcase c' _ hc' with hc' | ⟨_, hcall⟩
    · obtain ⟨hr, hall⟩ := h.out c' raw hc'
      refine ⟨hstays (p := fun th => x.verifies raw th = true) hr, fun r' hr' hv => ?_⟩
      obtain ⟨r, hr, ho⟩ := hrows r' hr'
      obtain ⟨hhash, _, _, hrev⟩ := tokenHash_of_revoked ho
      rw [hhash] at hv
      exact hrev (hall r hr hv)
    · obtain ⟨hr, hall⟩ := hout raw hcall
      exact ⟨hstays (p := fun th => x.verifies raw th = true) hr, hall⟩

theorem AuthState.Inv.of_stored (hx : x.VerifiesBy key) (h : s.Inv x key) {c : ℕ} {io : AuthIo} {user : User}
    {accessToken tokenHash : String} {t : Table RefreshToken.id} (hfresh : ∀ raw ∈ s.generated, key raw ≠ key io.raw)
    (hc : s.calls c = .loginStore user accessToken)
    (hhash : x.hash io.raw AuthService.tokenCost io.salt = .ok tokenHash)
    (hi : s.db.refreshTokens.insert
      ⟨io.id, user.id, tokenHash, io.utcNow + AuthService.refreshTokenTtl, false, io.now⟩ = some t)
    (hs' : s' = ⟨{ s.db with refreshTokens := t },
      Function.update s.calls c (.answered (.loggedIn (.ok (accessToken, io.raw, user)))), io.raw :: s.generated⟩)
    (hk : s.Kept s') : s'.Inv x key := by
  have hv : ∀ raw', x.verifies raw' tokenHash = true ↔ key raw' = key io.raw :=
    fun raw' => Crypto.verifies_iff.trans (hx _ _ _ _ hhash raw')
  -- the new token is none of those stored
  have hold : ∀ r ∈ s.db.refreshTokens.rows, ∀ raw, x.verifies raw r.tokenHash = true →
      key raw ≠ key io.raw := by
    intro r hr raw hraw hsame
    obtain ⟨raw', hgen, hv', _⟩ := h.issued r hr
    exact hfresh raw' hgen (((hv' _).mp hraw).symm.trans hsame)
  subst hs'
  have hrows := (Table.rows_insert hi).1
  have hold_mem : ∀ {r}, r ∈ s.db.refreshTokens.rows → r ∈ t.rows := by
    intro r hr
    rw [hrows]
    exact List.mem_append_left _ hr
  refine ⟨fun c' user' token hc' => ?_, fun r hr => ?_, fun r hr r' hr' raw hraw hraw' => ?_,
    fun c' raw record hc' => ?_, fun c' raw hc' => ?_⟩
  · exact h.users c' user' token ((update_eq_cases hc').resolve_right (by simp))
  · dsimp only at hr
    rw [hrows] at hr
    rcases List.mem_append.mp hr with hr | hr
    · exact (h.issued r hr).kept hk (fun _ hraw => List.mem_cons_of_mem _ hraw) (.inl rfl)
    · rw [List.mem_singleton.mp hr]
      exact ⟨io.raw, List.mem_cons_self, hv, c, accessToken, user, Function.update_self _ _ _, rfl,
        h.users c user accessToken hc⟩
  · dsimp only at hr hr'
    rw [hrows] at hr hr'
    rcases List.mem_append.mp hr with hr | hr <;> rcases List.mem_append.mp hr' with hr' | hr'
    · exact h.one r hr r' hr' raw hraw hraw'
    · rw [List.mem_singleton.mp hr'] at hraw'
      exact absurd ((hv raw).mp hraw') (hold r hr raw hraw)
    · rw [List.mem_singleton.mp hr] at hraw
      exact absurd ((hv raw).mp hraw) (hold r' hr' raw hraw')
    · rw [List.mem_singleton.mp hr, List.mem_singleton.mp hr']
  · obtain ⟨hvr, r, hr, hrh⟩ := h.revoking c' raw record ((update_eq_cases hc').resolve_right (by simp))
    exact ⟨hvr, r, hold_mem hr, hrh⟩
  · obtain ⟨⟨r₀, hr₀, hv₀⟩, hall⟩ := h.out c' raw ((update_eq_cases hc').resolve_right (by simp))
    refine ⟨⟨r₀, hold_mem hr₀, hv₀⟩, fun r hr hvr => ?_⟩
    dsimp only at hr
    rw [hrows] at hr
    rcases List.mem_append.mp hr with hr | hr
    · exact hall r hr hvr
    · rw [List.mem_singleton.mp hr] at hvr
      exact absurd ((hv raw).mp hvr) (hold r₀ hr₀ raw hv₀)

theorem AuthState.Inv.step (hx : x.VerifiesBy key) (h : s.Inv x key) (hok : s.distinctKeys key l)
    (hs : s.Step x l s') : s'.Inv x key := by
  have hk := hs.kept
  have hsame : ∀ r ∈ s.db.refreshTokens.rows, ∃ r₀ ∈ s.db.refreshTokens.rows,
      r = r₀ ∨ r = UserRepository.revoke r₀ := fun r hr => ⟨r, hr, .inl rfl⟩
  cases hs with
  | @begun c req hc =>
    refine h.of_old hk (fun _ hraw => hraw) rfl hsame ?_ ?_ ?_ <;> cases req <;> simp [AuthRequest.start]
  | @refused c io r hc hr =>
    refine h.of_old hk (fun raw hraw => ?_) rfl hsame (by simp) (by simp) ?_
    · simp only [AuthState.draw]
      split
      · exact List.mem_cons_of_mem _ hraw
      · exact hraw
    · rintro raw hcall
      cases hcall
      cases hr
  | hashed hc | registered hc _ | refreshed hc _ | read hc _ _ =>
    exact h.of_old hk (fun _ hraw => hraw) rfl hsame (by simp) (by simp) (by simp)
  | found hc hu =>
    refine h.of_old hk (fun _ hraw => hraw) rfl hsame ?_ (by simp) (by simp)
    rintro user token hcall
    cases hcall
    exact hu
  | stored hc hhash hi =>
    refine h.of_stored hx (hok ?_) hc hhash hi rfl hk
    rw [hc]
    rfl
  | matched hc hr hv =>
    refine h.of_old hk (fun _ hraw => hraw) rfl hsame (by simp) ?_ (by simp)
    rintro raw record hcall
    cases hcall
    exact ⟨hv, _, (List.mem_filter.mp hr).1, rfl⟩
  | @loggedOut c io raw record hc =>
    obtain ⟨hv, r₀, hr₀, hh₀⟩ := h.revoking c raw record hc
    refine h.of_old hk (fun _ hraw => hraw) rfl (fun r' hr' => ?_) (by simp) (by simp) ?_
    · obtain ⟨r, hr, rfl⟩ := List.mem_map.mp hr'
      refine ⟨r, hr, ?_⟩
      split
      · exact .inr rfl
      · exact .inl rfl
    · rintro raw' hcall
      cases hcall
      refine ⟨⟨r₀, hr₀, by rw [hh₀]; exact hv⟩, fun r' hr' hv' => ?_⟩
      obtain ⟨r, hr, rfl⟩ := List.mem_map.mp hr'
      by_cases hh : r.tokenHash = record.tokenHash
      · simp [hh, UserRepository.revoke]
      · -- the only row of the token is the one the UPDATE selects
        simp only [hh, decide_false, Bool.false_eq_true, if_false] at hv'
        have hsame := h.one r hr r₀ hr₀ raw hv' (by rw [hh₀]; exact hv)
        rw [hsame] at hh
        exact absurd hh₀ hh

/-! ## What a refresh has read -/

theorem AuthState.Step.not_begin_of_kept {c : ℕ} (hs : s.Step x l s') (hc : s.calls c ≠ .idle) (req : AuthRequest) :
    l ≠ .begin c req := by
  rintro rfl
  cases hs with
  | begun h => exact hc h

theorem AuthState.Step.refreshUser_cases (hs : s.Step x l s') {c : ℕ} {raw : String} {record : RefreshToken}
    (hc : s'.calls c = .refreshUser raw record) : s.calls c = .refreshUser raw record ∨
      ∃ io, l = .statement c io ∧ s.calls c = .refreshScan raw ∧
        record ∈ UserRepository.active s.db.refreshTokens io.now ∧ x.verifies raw record.tokenHash = true := by
  cases hs with
  | begun _ =>
    rename_i req _
    exact .inl ((update_eq_cases hc).resolve_right fun h => by cases req <;> cases h.2)
  | refused _ _ | hashed _ | registered _ _ | found _ _ | stored _ _ _ | refreshed _ _ | matched _ _ _
  | loggedOut _ => exact .inl ((update_eq_cases hc).resolve_right fun h => nomatch h.2)
  | @read _ io _ _ hscan hmem hv =>
    rcases update_eq_cases hc with h | ⟨rfl, h⟩
    · exact .inl h
    · cases h
      exact .inr ⟨io, rfl, hscan, hmem, hv⟩

theorem AuthState.Step.refreshed_cases (hs : s.Step x l s') {c : ℕ} {raw token : String} {user : User}
    (hc : s'.calls c = .answered (.refreshed raw (.ok (token, user)))) :
    s.calls c = .answered (.refreshed raw (.ok (token, user))) ∨
      ∃ record, s.calls c = .refreshUser raw record ∧ s.db.users.find? record.userId = some user := by
  cases hs with
  | begun _ =>
    rename_i req _
    exact .inl ((update_eq_cases hc).resolve_right fun h => by cases req <;> cases h.2)
  | refused _ hr =>
    refine .inl ((update_eq_cases hc).resolve_right fun h => ?_)
    cases h.2
    cases hr
  | hashed _ | registered _ _ | found _ _ | stored _ _ _ | read _ _ _ | matched _ _ _ | loggedOut _ =>
    exact .inl ((update_eq_cases hc).resolve_right fun h => nomatch h.2)
  | @refreshed _ io raw' token' record user' hrefresh hu =>
    rcases update_eq_cases hc with h | ⟨rfl, h⟩
    · exact .inl h
    · cases h
      exact .inr ⟨record, hrefresh, hu⟩

/-- A statement of a logout changes the record of its token only. -/
theorem AuthState.Step.logout_changed (hs : s.Step x l s') (h : s.Inv x key) {c : ℕ} {io : AuthIo} {raw : String}
    (hl : l = .statement c io) (hc : s.calls c = .logoutScan raw ∨ ∃ record, s.calls c = .logoutRevoke raw record)
    {r : RefreshToken} (hr : Table.Changed s.db.refreshTokens s'.db.refreshTokens r) :
    x.verifies raw r.tokenHash = true := by
  cases hs with
  | begun _ | refused _ _ | hashed _ | registered _ _ | found _ _ | read _ _ _ | refreshed _ _ | matched _ _ _ =>
    exact absurd hr (Table.not_changed_self _ _)
  | stored hstore _ _ =>
    cases hl
    rcases hc with hc | ⟨record, hc⟩ <;> rw [hstore] at hc <;> cases hc
  | @loggedOut _ _ raw' record hrevoke =>
    cases hl
    have hraw : raw' = raw := by
      rcases hc with hc | ⟨record', hc⟩ <;> rw [hrevoke] at hc <;> cases hc
      rfl
    subst hraw
    obtain ⟨r₀, _, hsel, _, ho⟩ := (Table.changed_update_iff _ _ _ UserRepository.revoke_id _).mp hr
    rw [(tokenHash_of_revoked ho).1, of_decide_eq_true hsel]
    exact (h.revoking c raw' record hrevoke).1

end Steps

section Runs
variable {κ : Type} {key : String → κ} {x : Crypto} {h : List (AuthState × AuthLabel)} {s : AuthState}
  {ok : AuthState → AuthLabel → Prop}

theorem authInv_of_run (hx : x.VerifiesBy key) (hr : Run (authService x) (fun s l => s.distinctKeys key l) h s) :
    s.Inv x key :=
  Run.invariant (I := fun _ s => s.Inv x key) (fun _ hi => AuthState.Initial.inv hi)
    (fun _ _ _ _ _ hs hok hn => hs.step hx hok (auth_step hn)) hr

theorem authInv_of_faithful (hx : x.Faithful) (hr : Run (authService x) (fun s l => s.distinctTokens l) h s) :
    s.Inv x id :=
  authInv_of_run hx.verifiesBy (hr.mono fun _ _ h => h.distinctKeys)

theorem authKept_of_run (hr : Run (authService x) ok h s) : ∀ q ∈ h, q.1.Kept s := by
  refine Run.invariant (I := fun h s => ∀ q ∈ h, q.1.Kept s) (by simp) ?_ hr
  intro h s l s' _ ih _ hn q hq
  have hkept := (auth_step hn).kept
  rcases List.mem_cons.mp hq with rfl | hq
  · exact hkept
  · exact (ih q hq).trans hkept

/-- The call has read the record of its token while it was active, after a login had returned the token, and
it has begun before any logout of it was over. -/
structure ReadActive (x : Crypto) (key : String → κ) (h : List (AuthState × AuthLabel)) (c : ℕ) (raw : String)
    (record : RefreshToken) : Prop where
  read : ∃ q ∈ h, ∃ io, q.2 = .statement c io ∧ q.1.calls c = .refreshScan raw ∧
    record ∈ UserRepository.active q.1.db.refreshTokens io.now ∧ x.verifies raw record.tokenHash = true ∧
    q.1.Inv x key
  notOut : ∀ q ∈ h, ∀ req, q.2 = .begin c req → ∀ c₂, q.1.calls c₂ ≠ .answered (.loggedOut raw (.ok ()))

theorem ReadActive.cons {c : ℕ} {raw : String} {record : RefreshToken} (hread : ReadActive x key h c raw record)
    {q : AuthState × AuthLabel} (hq : ∀ req, q.2 ≠ .begin c req) : ReadActive x key (q :: h) c raw record := by
  refine ⟨?_, fun q' hq' req hbegin => ?_⟩
  · obtain ⟨q', hq', hrest⟩ := hread.read
    exact ⟨q', List.mem_cons_of_mem _ hq', hrest⟩
  · rcases List.mem_cons.mp hq' with rfl | hq'
    · exact absurd hbegin (hq req)
    · exact hread.notOut q' hq' req hbegin

theorem readActive_of_run (hx : x.VerifiesBy key) (hr : Run (authService x) (fun s l => s.distinctKeys key l) h s) :
    (∀ c raw record, s.calls c = .refreshUser raw record → ReadActive x key h c raw record) ∧
      ∀ c raw token user, s.calls c = .answered (.refreshed raw (.ok (token, user))) →
        ∃ record, ReadActive x key h c raw record ∧ s.db.users.find? record.userId = some user := by
  refine Run.invariant (I := fun h s => (∀ c raw record, s.calls c = .refreshUser raw record →
    ReadActive x key h c raw record) ∧ ∀ c raw token user,
      s.calls c = .answered (.refreshed raw (.ok (token, user))) →
        ∃ record, ReadActive x key h c raw record ∧ s.db.users.find? record.userId = some user) ?_ ?_ hr
  · intro s hi
    refine ⟨fun c _ _ hc => ?_, fun c _ _ _ hc => ?_⟩ <;> simp [hi.calls c] at hc
  · intro h s l s' hrun ih hok hn
    have hs : s.Step x l s' := auth_step hn
    refine ⟨fun c raw record hc => ?_, fun c raw token user hc => ?_⟩
    · rcases hs.refreshUser_cases hc with hc | ⟨io, rfl, hscan, hmem, hv⟩
      · exact (ih.1 c raw record hc).cons (hs.not_begin_of_kept (by simp [hc]))
      · have hinv := authInv_of_run hx hrun
        refine ⟨⟨_, List.mem_cons_self, io, rfl, hscan, hmem, hv, hinv⟩, fun q hq req hbegin c₂ hout => ?_⟩
        rcases List.mem_cons.mp hq with rfl | hq
        · cases hbegin
        · -- a token that was logged out then would be revoked by now
          have hout := (authKept_of_run hrun q hq).answered _ _ hout
          obtain ⟨hrow, hactive⟩ := List.mem_filter.mp hmem
          simp [(hinv.out c₂ raw hout).2 record hrow hv] at hactive
    · rcases hs.refreshed_cases hc with hc | ⟨record, hc, hu⟩
      · obtain ⟨record, hread, hu⟩ := ih.2 c raw token user hc
        exact ⟨record, hread.cons (hs.not_begin_of_kept (by simp [hc])), hs.kept.users _ _ hu⟩
      · exact ⟨record, (ih.1 c raw record hc).cons (hs.not_begin_of_kept (by simp [hc])), hs.kept.users _ _ hu⟩

/-- A refresh that answers `Ok` has read the unexpired record of a token that a login of the user had
returned before, and no logout of the token was over when it began; a logout changes the one record of its
token. -/
theorem refresh_sound (hx : x.Faithful) (hr : Run (authService x) (fun s l => s.distinctTokens l) h s) :
    (∀ c raw token user, s.calls c = .answered (.refreshed raw (.ok (token, user))) →
      (∃ q ∈ h, ∃ io record, q.2 = .statement c io ∧ q.1.calls c = .refreshScan raw ∧
        (∃ c' token', q.1.calls c' = .answered (.loggedIn (.ok (token', raw, user)))) ∧
        record ∈ q.1.db.refreshTokens.rows ∧ x.verify raw record.tokenHash = .ok true ∧ record.userId = user.id ∧
        io.now < record.expiresAt) ∧
      ∀ q ∈ h, ∀ req, q.2 = .begin c req → ∀ c₂, q.1.calls c₂ ≠ .answered (.loggedOut raw (.ok ()))) ∧
    (∀ c io raw s', s.calls c = .logoutScan raw ∨ (∃ record, s.calls c = .logoutRevoke raw record) →
      (authService x).next s (.statement c io) = some s' →
      ∀ r, Table.Changed s.db.refreshTokens s'.db.refreshTokens r → x.verify raw r.tokenHash = .ok true) ∧
    ∀ raw, ∀ r ∈ s.db.refreshTokens.rows, ∀ r' ∈ s.db.refreshTokens.rows,
      x.verify raw r.tokenHash = .ok true → x.verify raw r'.tokenHash = .ok true → r = r' := by
  have hinv := authInv_of_faithful hx hr
  refine ⟨fun c raw token user hc => ?_, fun c io raw s' hc hn r hchanged => ?_, fun raw r hr r' hr' hv hv' => ?_⟩
  · obtain ⟨record, hread, hu⟩ := (readActive_of_run hx.verifiesBy (hr.mono fun _ _ h => h.distinctKeys)).2
      c raw token user hc
    obtain ⟨⟨q, hq, io, hl, hscan, hmem, hv, hinvq⟩, hnot⟩ := hread
    refine ⟨⟨q, hq, io, record, hl, hscan, ?_, (List.mem_filter.mp hmem).1, Crypto.verifies_iff.mp hv,
      (Table.key_of_find? hu).symm, ?_⟩, hnot⟩
    · obtain ⟨raw', _, hraw', c', token', user', hlogin, hid, hu'⟩ := hinvq.issued record (List.mem_filter.mp hmem).1
      obtain rfl := (hraw' raw).mp hv
      -- a user stays as it is
      have hsame := (authKept_of_run hr q hq).users _ _ hu'
      rw [hid, hu] at hsame
      cases hsame
      exact ⟨c', token', hlogin⟩
    · have hactive := (List.mem_filter.mp hmem).2
      simp only [Bool.and_eq_true, decide_eq_true_eq] at hactive
      exact hactive.2
  · have hs : s.Step x (.statement c io) s' := auth_step hn
    exact Crypto.verifies_iff.mp (hs.logout_changed hinv rfl hc hchanged)
  · exact hinv.one r hr r' hr' raw (Crypto.verifies_iff.mpr hv) (Crypto.verifies_iff.mpr hv')

end Runs
namespace Sample

def crypto : Crypto where
  hash := fun raw _ _ => .ok raw
  verify := fun raw tokenHash => .ok (decide (raw = tokenHash))
  encode := fun claims => .ok claims.email

theorem crypto_faithful : crypto.Faithful := by
  rintro raw cost salt tokenHash hhash raw'
  cases hhash
  simp [crypto]

def authState : AuthState := ⟨⟨.empty, .empty⟩, fun _ => .idle, []⟩

theorem authState_initial : authState.Initial := ⟨rfl, fun _ => rfl, rfl⟩

def authIo (now : Timestamp) (id : Uuid) (raw : String) (order : List Uuid) : AuthIo :=
  ⟨false, now, now, id, raw, 0, order⟩

def newToken (s : AuthState) : AuthLabel → Bool
  | .begin _ _ => true
  | .statement c io => !(s.calls c).storing || !s.generated.contains io.raw

theorem distinctTokens_of_newToken (s : AuthState) (l : AuthLabel) (h : newToken s l = true) :
    s.distinctTokens l := by
  cases l with
  | begin c req => trivial
  | statement c io =>
    intro hstoring
    simpa [newToken, hstoring] using h

def accepted (raw : String) : AuthCall → Bool
  | .answered (.refreshed raw' (.ok _)) => raw' == raw
  | _ => false

theorem exists_of_accepted {raw : String} {call : AuthCall} (h : accepted raw call = true) :
    ∃ token user, call = .answered (.refreshed raw (.ok (token, user))) := by
  unfold accepted at h
  split at h
  · rename_i r
    simp only [beq_iff_eq] at h
    subst h
    exact ⟨r.1, r.2, rfl⟩
  · cases h

end Sample

/-- A refresh between the two statements of a logout of its token. -/
theorem refresh_sound_sample :
    ∃ h s, Run (authService Sample.crypto) (fun s l => s.distinctTokens l) h s ∧
      ∃ token user, s.calls 2 = .answered (.refreshed "t1" (.ok (token, user))) ∧
        ∃ q ∈ h, ∃ c' token', q.1.calls c' = .answered (.loggedIn (.ok (token', "t1", user))) := by
  obtain ⟨h, s, hrun, hp⟩ := Run.exists_of_exec (M := authService Sample.crypto) Sample.authState_initial
    [.begin 0 (.register "a@b.c" "secret" none), .statement 0 (Sample.authIo 1 0 "" []),
      .statement 0 (Sample.authIo 2 40 "" []), .begin 1 (.login "a@b.c" "secret"),
      .statement 1 (Sample.authIo 3 0 "" []), .statement 1 (Sample.authIo 4 50 "t1" []), .begin 2 (.refresh "t1"),
      .begin 3 (.logout "t1"), .statement 3 (Sample.authIo 5 0 "" [50]), .statement 2 (Sample.authIo 6 0 "" [50]),
      .statement 3 (Sample.authIo 7 0 "" []), .statement 2 (Sample.authIo 8 0 "" [])]
    Sample.newToken (fun _ s => Sample.accepted "t1" (s.calls 2)) (by decide)
  have hrun := hrun.mono Sample.distinctTokens_of_newToken
  obtain ⟨token, user, hc⟩ := Sample.exists_of_accepted hp
  obtain ⟨q, hq, _, _, _, _, hlogin, _⟩ := ((refresh_sound Sample.crypto_faithful hrun).1 2 "t1" token user hc).1
  exact ⟨h, s, hrun, token, user, hc, q, hq, hlogin⟩

end JobScheduler
