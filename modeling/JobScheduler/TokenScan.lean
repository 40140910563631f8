import JobScheduler.Refresh

namespace JobScheduler
open Relational Transition

/-! ## The scan -/

/-- In the order in which the scan lists the active records, fewer than its limit come before the record of
the token. -/
def InScan (x : Crypto) (s : AuthState) (io : AuthIo) (raw : String) : Prop :=
  ∃ r ∈ s.db.refreshTokens.rows, x.verify raw r.tokenHash = .ok true ∧
    io.order.idxOf r.id < UserRepository.scanLimit

theorem take_filterMap_of_isSome {α β : Type} {f : α → Option β} {l : List α} (h : ∀ a ∈ l, (f a).isSome) (n : ℕ) :
    (l.filterMap f).take n = (l.take n).filterMap f := by
  induction l generalizing n with
  | nil => simp
  | cons a l ih =>
    obtain ⟨b, hb⟩ := Option.isSome_iff_exists.mp (h a List.mem_cons_self)
    cases n with
    | zero => simp
    | succ n =>
      rw [List.filterMap_cons_some hb, List.take_succ_cons, List.take_succ_cons, List.filterMap_cons_some hb,
        ih (fun a ha => h a (List.mem_cons_of_mem _ ha))]

theorem mem_findAllActive_iff {t : Table RefreshToken.id} {now : Timestamp} {order : List Uuid}
    (ho : UserRepository.isScanOrder t now order = true) {r : RefreshToken} (hr : r ∈ UserRepository.active t now) :
    r ∈ UserRepository.findAllActiveRefreshTokens t order ↔ order.idxOf r.id < UserRepository.scanLimit := by
  simp only [UserRepository.isScanOrder, Bool.and_eq_true, decide_eq_true_eq] at ho
  have hrow : r ∈ t.rows := (List.mem_filter.mp hr).1
  have hmem : r.id ∈ order := ho.1.mem_iff.mpr (List.mem_map_of_mem hr)
  have hsome : ∀ id ∈ order, (t.find? id).isSome := by
    intro id hid
    obtain ⟨r', hr', rfl⟩ := List.mem_map.mp (ho.1.mem_iff.mp hid)
    rw [Table.find?_of_mem (List.mem_filter.mp hr').1]
    rfl
  rw [UserRepository.findAllActiveRefreshTokens, take_filterMap_of_isSome hsome, List.mem_filterMap,
    ← List.mem_take_iff_idxOf_lt hmem]
  constructor
  · rintro ⟨id, hid, hfind⟩
    rwa [Table.key_of_find? hfind]
  · exact fun hid => ⟨r.id, hid, Table.find?_of_mem hrow⟩

section Steps
variable {κ : Type} {key : String → κ} {x : Crypto} {s s' : AuthState} {l : AuthLabel} {c : ℕ} {io : AuthIo}
  {raw : String} {r : RefreshToken}

theorem findRecord_eq (hinv : s.Inv x key) (ho : UserRepository.isScanOrder s.db.refreshTokens io.now io.order = true)
    (hr : r ∈ UserRepository.active s.db.refreshTokens io.now) (hv : x.verifies raw r.tokenHash = true) :
    (InScan x s io raw → AuthService.findRecord x raw
      (UserRepository.findAllActiveRefreshTokens s.db.refreshTokens io.order) = .ok r) ∧
    (¬InScan x s io raw → AuthService.findRecord x raw
      (UserRepository.findAllActiveRefreshTokens s.db.refreshTokens io.order) = .error .invalidToken) := by
  have hrow : r ∈ s.db.refreshTokens.rows := (List.mem_filter.mp hr).1
  cases hfind : AuthService.findRecord x raw
      (UserRepository.findAllActiveRefreshTokens s.db.refreshTokens io.order) with
  | ok record =>
    obtain ⟨hactive, hv'⟩ := findRecord_eq_ok ho hfind
    obtain rfl := hinv.one record (List.mem_filter.mp hactive).1 r hrow raw hv' hv
    refine ⟨fun _ => rfl, fun hnot => absurd ⟨record, hrow, Crypto.verifies_iff.mp hv, ?_⟩ hnot⟩
    rw [← mem_findAllActive_iff ho hr]
    simp only [AuthService.findRecord] at hfind
    split at hfind
    · cases hfind
    · cases hfind
      exact List.mem_of_find?_eq_some ‹_›
  | error e =>
    simp only [AuthService.findRecord] at hfind
    split at hfind
    · rename_i hnone
      cases hfind
      refine ⟨?_, fun _ => rfl⟩
      rintro ⟨r', hr', hv', hlt⟩
      obtain rfl := hinv.one r' hr' r hrow raw (Crypto.verifies_iff.mpr hv') hv
      rw [← mem_findAllActive_iff ho hr] at hlt
      exact absurd hv (List.find?_eq_none.mp hnone r' hlt)
    · cases hfind

/-! ## The statements after it -/

theorem next_calls_other (hn : s.next x l = some s') (hc : s.calls c ≠ .idle) (hl : ∀ io, l ≠ .statement c io) :
    s'.calls c = s.calls c := by
  cases l with
  | begin c' req =>
    simp only [AuthState.next] at hn
    split at hn <;> cases hn
    rename_i hidle
    have hne : c ≠ c' := by
      rintro rfl
      exact hc hidle
    exact Function.update_of_ne hne _ _
  | statement c' io =>
    obtain ⟨_, _, rfl⟩ := Option.map_eq_some_iff.mp hn
    have hne : c ≠ c' := by
      rintro rfl
      exact hl io rfl
    exact Function.update_of_ne hne _ _

theorem next_statement {call call' : AuthCall} {db : AuthDb} (hc : s.calls c = call)
    (hstep : call.step x s.db io = some (db, call')) : s.next x (.statement c io) =
      some ⟨db, Function.update s.calls c call', if call.storing then io.raw :: s.generated else s.generated⟩ := by
  subst hc
  simp only [AuthState.next, hstep, Option.map_some, AuthState.draw]

theorem next_logoutRevoke (hc : s.calls c = .logoutRevoke raw r) (hf : io.failed = false) :
    ∃ s', s.next x (.statement c io) = some s' ∧ s'.calls c = .answered (.loggedOut raw (.ok ())) := by
  refine ⟨_, next_statement hc rfl, ?_⟩
  simp only [AuthIo.run, hf, Bool.false_eq_true, if_false]
  exact Function.update_self _ _ _

theorem next_refreshUser (henc : ∀ claims, ∃ token, x.encode claims = .ok token) {user : User}
    (hc : s.calls c = .refreshUser raw r) (hu : s.db.users.find? r.userId = some user) (hf : io.failed = false) :
    ∃ s' token, s.next x (.statement c io) = some s' ∧
      s'.calls c = .answered (.refreshed raw (.ok (token, user))) := by
  obtain ⟨token, ht⟩ := henc ⟨user.id, user.email,
    AuthService.seconds (io.utcNow + AuthService.accessTokenTtl), AuthService.seconds io.utcNow⟩
  have hfound : AuthService.refreshUser x s.db.users io.utcNow r = .ok (token, user) := by
    simp only [AuthService.refreshUser, UserRepository.findById, hu, AuthService.mintAccessToken, ht, Except.map]
  refine ⟨_, token, next_statement hc rfl, ?_⟩
  simp only [AuthIo.run, hf, Bool.false_eq_true, if_false, hfound]
  exact Function.update_self _ _ _

end Steps

/-! ## Live tokens -/

/-- A login has returned the token less than 30 days ago, and no logout of it is over. -/
structure LiveToken (h : List (AuthState × AuthLabel)) (s : AuthState) (io : AuthIo) (raw : String) (user : User) :
    Prop where
  returned : ∃ c token, s.calls c = .answered (.loggedIn (.ok (token, raw, user))) ∧
    ∃ q ∈ h, ∃ io₁, q.2 = .statement c io₁ ∧ q.1.calls c = .loginStore user token ∧
      io.now < io₁.utcNow + AuthService.refreshTokenTtl ∧ io.utcNow ≤ io₁.utcNow + AuthService.refreshTokenTtl
  notOut : ∀ c, s.calls c ≠ .answered (.loggedOut raw (.ok ()))

/-- The call has answered `Ok` for the user, or its next statement makes it do so. -/
def Accepts (x : Crypto) (s : AuthState) (c : ℕ) (raw : String) (user : User) : Prop :=
  (∃ token, s.calls c = .answered (.refreshed raw (.ok (token, user)))) ∨
    (∃ record, s.calls c = .refreshUser raw record) ∧ ∀ io : AuthIo, io.failed = false →
      ∃ s' token, s.next x (.statement c io) = some s' ∧ s'.calls c = .answered (.refreshed raw (.ok (token, user)))

def AuthState.failsIn (c : ℕ) (_ : AuthState) : AuthLabel → Prop
  | .begin _ _ => False
  | .statement c' io => c' = c ∧ io.failed = true

def RevokedToken (x : Crypto) (s : AuthState) (raw : String) : Prop :=
  (∃ r ∈ s.db.refreshTokens.rows, x.verify raw r.tokenHash = .ok true) ∧
    ∀ r ∈ s.db.refreshTokens.rows, x.verify raw r.tokenHash = .ok true → r.revoked = true

/-- The call has answered `Ok`, or its next statement makes it do so, and the token is revoked then. -/
def LogsOut (x : Crypto) (s : AuthState) (c : ℕ) (raw : String) : Prop :=
  s.calls c = .answered (.loggedOut raw (.ok ())) ∧ RevokedToken x s raw ∨
    (∃ record, s.calls c = .logoutRevoke raw record) ∧ ∀ io : AuthIo, io.failed = false →
      ∃ s', s.next x (.statement c io) = some s' ∧ s'.calls c = .answered (.loggedOut raw (.ok ())) ∧
        RevokedToken x s' raw

section Runs
variable {κ : Type} {key : String → κ} {x : Crypto} {h later earlier : List (AuthState × AuthLabel)}
  {s s₁ : AuthState} {c : ℕ} {io : AuthIo} {raw : String} {user : User}

def StoredBy (x : Crypto) (s : AuthState) (c : ℕ) (io : AuthIo) : Prop :=
  ∃ a, s.calls c = .answered a ∧ ∀ token raw user, a = .loggedIn (.ok (token, raw, user)) →
    ∃ r ∈ s.db.refreshTokens.rows, x.verifies raw r.tokenHash = true ∧ r.userId = user.id ∧
      r.expiresAt = io.utcNow + AuthService.refreshTokenTtl ∧ s.db.users.find? user.id = some user

theorem StoredBy.kept {s' : AuthState} (h : StoredBy x s c io) (hk : s.Kept s') : StoredBy x s' c io := by
  obtain ⟨a, ha, hrow⟩ := h
  refine ⟨a, hk.answered c a ha, fun token raw user he => ?_⟩
  obtain ⟨r, hr, hv, hu, hexp, hfind⟩ := hrow token raw user he
  rcases hk.tokens r hr with hr | hr
  · exact ⟨r, hr, hv, hu, hexp, hk.users _ _ hfind⟩
  · exact ⟨_, hr, hv, hu, hexp, hk.users _ _ hfind⟩

theorem storedBy_of_run (hx : x.VerifiesBy key) (hr : Run (authService x) (fun s l => s.distinctKeys key l) h s) :
    ∀ q ∈ h, ∀ c io user token, q.2 = .statement c io → q.1.calls c = .loginStore user token → StoredBy x s c io := by
  refine Run.invariant (I := fun h s => ∀ q ∈ h, ∀ c io user token, q.2 = .statement c io →
    q.1.calls c = .loginStore user token → StoredBy x s c io) (by simp) ?_ hr
  intro h s l s' hrun ih _ hn q hq c io user token hl hc
  have hs : s.Step x l s' := auth_step hn
  rcases List.mem_cons.mp hq with rfl | hq
  · dsimp only at hl hc
    subst hl
    cases hs with
    | @refused _ _ a _ hr =>
      refine ⟨a, Function.update_self _ _ _, ?_⟩
      rintro token raw user rfl
      cases hr
    | hashed hc' | registered hc' _ | found hc' _ | read hc' _ _ | refreshed hc' _ | matched hc' _ _
    | loggedOut hc' =>
      rw [hc] at hc'
      cases hc'
    | @stored _ _ user' accessToken tokenHash t hc' hhash hi =>
      refine ⟨_, Function.update_self _ _ _, ?_⟩
      rintro token raw user he
      cases he
      refine ⟨⟨io.id, user'.id, tokenHash, io.utcNow + AuthService.refreshTokenTtl, false, io.now⟩, ?_, ?_, rfl, rfl,
        (authInv_of_run hx hrun).users _ _ _ hc'⟩
      · dsimp only
        rw [(Table.rows_insert hi).1]
        exact List.mem_append_right _ (List.mem_singleton_self _)
      · exact Crypto.verifies_iff.mpr ((hx _ _ _ _ hhash _).mpr rfl)
  · exact (ih q hq c io user token hl hc).kept hs.kept

theorem loggedOut_of_revoked (hx : x.VerifiesBy key)
    (hr : Run (authService x) (fun s l => s.distinctKeys key l) h s) :
    ∀ r ∈ s.db.refreshTokens.rows, r.revoked = true →
      ∃ c raw, x.verifies raw r.tokenHash = true ∧ s.calls c = .answered (.loggedOut raw (.ok ())) := by
  refine Run.invariant (I := fun _ s => ∀ r ∈ s.db.refreshTokens.rows, r.revoked = true →
    ∃ c raw, x.verifies raw r.tokenHash = true ∧ s.calls c = .answered (.loggedOut raw (.ok ()))) ?_ ?_ hr
  · intro s hi r hr
    simp [hi.refreshTokens] at hr
  · intro h s l s' hrun ih _ hn r hr hrev
    have hs : s.Step x l s' := auth_step hn
    have hold : r ∈ s.db.refreshTokens.rows →
        ∃ c raw, x.verifies raw r.tokenHash = true ∧ s'.calls c = .answered (.loggedOut raw (.ok ())) := by
      intro hr
      obtain ⟨c, raw, hv, hc⟩ := ih r hr hrev
      exact ⟨c, raw, hv, hs.kept.answered _ _ hc⟩
    cases hs with
    | begun _ | refused _ _ | hashed _ | registered _ _ | found _ _ | read _ _ _ | refreshed _ _
    | matched _ _ _ => exact hold hr
    | stored _ _ hi =>
      dsimp only at hr
      rw [(Table.rows_insert hi).1] at hr
      rcases List.mem_append.mp hr with hr | hr
      · exact hold hr
      · rw [List.mem_singleton.mp hr] at hrev
        cases hrev
    | @loggedOut c io raw record hc =>
      obtain ⟨r₀, hr₀, rfl⟩ := List.mem_map.mp hr
      by_cases hh : r₀.tokenHash = record.tokenHash
      · refine ⟨c, raw, ?_, Function.update_self _ _ _⟩
        simp only [hh, decide_true, if_true, UserRepository.revoke]
        exact ((authInv_of_run hx hrun).revoking c raw record hc).1
      · simp only [hh, decide_false, Bool.false_eq_true, if_false] at hold ⊢
        exact hold hr₀

theorem LiveToken.record (hx : x.Faithful) (hr : Run (authService x) (fun s l => s.distinctTokens l) h s)
    (hlive : LiveToken h s io raw user) : ∃ r ∈ UserRepository.active s.db.refreshTokens io.now,
      x.verifies raw r.tokenHash = true ∧ r.userId = user.id ∧ io.utcNow ≤ r.expiresAt ∧
        s.db.users.find? user.id = some user := by
  have hr := hr.mono fun _ _ h => h.distinctKeys
  obtain ⟨c, token, hc, q, hq, io₁, hl, hlogin, hnow, hutc⟩ := hlive.returned
  obtain ⟨a, ha, hrow⟩ := storedBy_of_run hx.verifiesBy hr q hq c io₁ user token hl hlogin
  rw [hc] at ha
  cases ha
  obtain ⟨r, hrow, hv, hu, hexp, hfind⟩ := hrow token raw user rfl
  refine ⟨r, List.mem_filter.mpr ⟨hrow, ?_⟩, hv, hu, hexp ▸ hutc, hfind⟩
  have hrev : r.revoked = false := by
    rw [Bool.eq_false_iff]
    intro hrev
    obtain ⟨c', raw', hv', hout⟩ := loggedOut_of_revoked hx.verifiesBy hr r hrow hrev
    obtain ⟨raw₀, _, hraw₀, _⟩ := (authInv_of_run hx.verifiesBy hr).issued r hrow
    have hsame : raw' = raw := ((hraw₀ raw').mp hv').trans ((hraw₀ raw).mp hv).symm
    rw [hsame] at hout
    exact hlive.notOut c' hout
  simp only [hrev, Bool.not_false, Bool.true_and, decide_eq_true_eq, hexp]
  exact hnow

theorem next_scan {s₂ : AuthState} {r : RefreshToken} (hinv : s₁.Inv x key) (hf : io.failed = false)
    (hr : r ∈ UserRepository.active s₁.db.refreshTokens io.now) (hv : x.verifies raw r.tokenHash = true)
    (hexp : io.utcNow ≤ r.expiresAt) (hn : s₁.next x (.statement c io) = some s₂) :
    (s₁.calls c = .refreshScan raw → (InScan x s₁ io raw → s₂.calls c = .refreshUser raw r) ∧
      (¬InScan x s₁ io raw → s₂.calls c = .answered (.refreshed raw (.error .invalidToken)))) ∧
    (s₁.calls c = .logoutScan raw → (InScan x s₁ io raw → s₂.calls c = .logoutRevoke raw r) ∧
      (¬InScan x s₁ io raw → s₂.calls c = .answered (.loggedOut raw (.error .invalidToken)))) := by
  obtain ⟨⟨db, call⟩, hstep, rfl⟩ := Option.map_eq_some_iff.mp hn
  have hcall : ∀ call', call = call' → Function.update s₁.calls c call c = call' := by
    rintro _ rfl
    exact Function.update_self _ _ _
  refine ⟨fun hc => ?_, fun hc => ?_⟩
  all_goals
    simp only [hc, AuthCall.step, hf, Bool.false_or] at hstep
    split at hstep <;> cases hstep
    rename_i ho
    obtain ⟨hin, hout⟩ := findRecord_eq hinv ho hr hv
  · refine ⟨fun h => hcall _ ?_, fun h => hcall _ ?_⟩
    · rw [io_run_eq_ok.mpr ⟨hf, refreshRecord_eq_ok.mpr ⟨hin h, hexp⟩⟩]
      rfl
    · simp only [AuthIo.run, hf, Bool.false_eq_true, if_false, AuthService.refreshRecord, hout h]
      rfl
  · refine ⟨fun h => hcall _ ?_, fun h => hcall _ ?_⟩
    · rw [io_run_eq_ok.mpr ⟨hf, hin h⟩]
      rfl
    · simp only [AuthIo.run, hf, Bool.false_eq_true, if_false, hout h]
      rfl

theorem answered_since {ok : AuthState → AuthLabel → Prop} {l₁ : AuthLabel} {a : AuthResponse}
    (hr : Run (authService x) ok (later ++ (s₁, l₁) :: earlier) s)
    (hstart : ∀ s₂, s₁.next x l₁ = some s₂ → s₂.calls c = .answered a) : s.calls c = .answered a :=
  (Run.ever_since (I := fun s => s.calls c = .answered a) hstart
    (fun _ _ _ _ hI _ hn => (auth_step hn).kept.answered _ _ hI) hr).1

/-- A call that is to answer well with its next statement waits for it, or has answered well. -/
theorem answers_since {ok : AuthState → AuthLabel → Prop} {l₁ : AuthLabel} {call : AuthCall}
    {P : AuthResponse → Prop} (hr : Run (authService x) ok (later ++ (s₁, l₁) :: earlier) s)
    (hlater : ∀ q ∈ later, ¬q.1.failsIn c q.2) (hcall : call ≠ .idle)
    (hstart : ∀ s₂, s₁.next x l₁ = some s₂ → s₂.calls c = call)
    (hanswers : ∀ s io, s₁.Kept s → s.calls c = call → io.failed = false →
      ∃ s' a, s.next x (.statement c io) = some s' ∧ s'.calls c = .answered a ∧ P a) :
    s₁.Kept s ∧ (s.calls c = call ∨ ∃ a, s.calls c = .answered a ∧ P a) := by
  refine (Run.since (I := fun s => s₁.Kept s ∧ (s.calls c = call ∨ ∃ a, s.calls c = .answered a ∧ P a))
    (fun s₂ hn => ?_) (fun s l s' _ hI _ hstop hn => ?_) hr hlater).1
  · exact ⟨(auth_step hn).kept, .inl (hstart s₂ hn)⟩
  · have hkept : s.Kept s' := (auth_step hn).kept
    refine ⟨hI.1.trans hkept, ?_⟩
    rcases hI.2 with hc | ⟨a, hc, ha⟩
    · by_cases hl : ∃ io, l = .statement c io
      · obtain ⟨io, rfl⟩ := hl
        have hio : io.failed = false := by simpa [AuthState.failsIn] using hstop
        obtain ⟨s₃, a, hn₃, ha, hga⟩ := hanswers s io hI.1 hc hio
        cases hn₃.symm.trans hn
        exact .inr ⟨a, ha, hga⟩
      · rw [next_calls_other hn (by rw [hc]; exact hcall) fun io h => hl ⟨io, h⟩]
        exact .inl hc
    · exact .inr ⟨a, hkept.answered _ _ hc, ha⟩

theorem accepts_iff (hx : x.Faithful) (henc : ∀ claims, ∃ token, x.encode claims = .ok token)
    (hr : Run (authService x) (fun s l => s.distinctTokens l) (later ++ (s₁, .statement c io) :: earlier) s)
    (hlive : LiveToken earlier s₁ io raw user) (hf : io.failed = false)
    (hlater : ∀ q ∈ later, ¬q.1.failsIn c q.2)
    (hc : s₁.calls c = .refreshScan raw) : Accepts x s c raw user ↔ InScan x s₁ io raw := by
  have hbefore := hr.split.1
  obtain ⟨r, hr₁, hv, hu, hexp, hfind⟩ := hlive.record hx hbefore
  have hscan : ∀ s₂, s₁.next x (.statement c io) = some s₂ → _ :=
    fun s₂ hn => (next_scan (authInv_of_faithful hx hbefore) hf hr₁ hv hexp hn).1 hc
  constructor
  · intro haccepts
    by_contra hnot
    have hrefused := answered_since hr fun s₂ hn => (hscan s₂ hn).2 hnot
    rcases haccepts with ⟨token, hok⟩ | ⟨⟨record, hok⟩, _⟩ <;> rw [hrefused] at hok <;> cases hok
  · intro hin
    have hnext : ∀ s io, s₁.Kept s → s.calls c = .refreshUser raw r → io.failed = false →
        ∃ s' token, s.next x (.statement c io) = some s' ∧
          s'.calls c = .answered (.refreshed raw (.ok (token, user))) :=
      fun s io hk hs hio => next_refreshUser henc hs (hu ▸ hk.users _ _ hfind) hio
    obtain ⟨hk, hcall | ⟨_, hans, token, rfl⟩⟩ := answers_since hr hlater (by simp)
      (fun s₂ hn => (hscan s₂ hn).1 hin) (P := fun a => ∃ token, a = .refreshed raw (.ok (token, user)))
      fun s io hk hs hio => by
        obtain ⟨s', token, hn, hans⟩ := hnext s io hk hs hio
        exact ⟨s', _, hn, hans, token, rfl⟩
    · exact .inr ⟨⟨r, hcall⟩, fun io' hio' => hnext s io' hk hcall hio'⟩
    · exact .inl ⟨token, hans⟩

theorem revokedToken_of_out (hinv : s.Inv x key) (hc : s.calls c = .answered (.loggedOut raw (.ok ()))) :
    RevokedToken x s raw := by
  obtain ⟨⟨r, hr, hv⟩, hall⟩ := hinv.out c raw hc
  exact ⟨⟨r, hr, Crypto.verifies_iff.mp hv⟩, fun r hr hv => hall r hr (Crypto.verifies_iff.mpr hv)⟩

theorem logsOut_iff (hx : x.Faithful)
    (hr : Run (authService x) (fun s l => s.distinctTokens l) (later ++ (s₁, .statement c io) :: earlier) s)
    (hlive : LiveToken earlier s₁ io raw user) (hf : io.failed = false)
    (hlater : ∀ q ∈ later, ¬q.1.failsIn c q.2)
    (hc : s₁.calls c = .logoutScan raw) : LogsOut x s c raw ↔ InScan x s₁ io raw := by
  have hbefore := hr.split.1
  obtain ⟨r, hr₁, hv, hu, hexp, hfind⟩ := hlive.record hx hbefore
  have hscan : ∀ s₂, s₁.next x (.statement c io) = some s₂ → _ :=
    fun s₂ hn => (next_scan (authInv_of_faithful hx hbefore) hf hr₁ hv hexp hn).2 hc
  constructor
  · intro hlogs
    by_contra hnot
    have hrefused := answered_since hr fun s₂ hn => (hscan s₂ hn).2 hnot
    rcases hlogs with ⟨hok, _⟩ | ⟨⟨record, hok⟩, _⟩ <;> rw [hrefused] at hok <;> cases hok
  · intro hin
    obtain ⟨_, hcall | ⟨_, hans, rfl⟩⟩ := answers_since hr hlater (by simp)
      (fun s₂ hn => (hscan s₂ hn).1 hin) (P := fun a => a = .loggedOut raw (.ok ()))
      fun s io _ hs hio => by
        obtain ⟨s', hn, hans⟩ := next_logoutRevoke hs hio
        exact ⟨s', _, hn, hans, rfl⟩
    · refine .inr ⟨⟨r, hcall⟩, fun io' hio' => ?_⟩
      obtain ⟨s', hn', hout⟩ := next_logoutRevoke (x := x) hcall hio'
      have hdistinct : s.distinctTokens (.statement c io') := by
        intro hstoring
        rw [hcall] at hstoring
        cases hstoring
      exact ⟨s', hn', hout, revokedToken_of_out (authInv_of_faithful hx (hr.step hdistinct hn')) hout⟩
    · exact .inl ⟨hans, revokedToken_of_out (authInv_of_faithful hx hr) hans⟩

/-- A live token is accepted, and logged out, by the calls whose scan lists it, and by no others. -/
theorem live_tokens_accepted_iff (hx : x.Faithful) (henc : ∀ claims, ∃ token, x.encode claims = .ok token)
    (hr : Run (authService x) (fun s l => s.distinctTokens l) (later ++ (s₁, .statement c io) :: earlier) s)
    (hlive : LiveToken earlier s₁ io raw user) (hf : io.failed = false)
    (hlater : ∀ q ∈ later, ¬q.1.failsIn c q.2) :
    (s₁.calls c = .refreshScan raw → (Accepts x s c raw user ↔ InScan x s₁ io raw)) ∧
      (s₁.calls c = .logoutScan raw → (LogsOut x s c raw ↔ InScan x s₁ io raw)) :=
  ⟨accepts_iff hx henc hr hlive hf hlater, logsOut_iff hx hr hlive hf hlater⟩

end Runs
namespace Sample

theorem crypto_encodes (claims : AuthService.Claims) : ∃ token, crypto.encode claims = .ok token := ⟨_, rfl⟩

def user : User := ⟨40, "a@b.c", "secret", none, true, 0, 0⟩

def oneUser : AuthState := ⟨⟨⟨[user], List.nodup_singleton _⟩, .empty⟩, fun _ => .idle, []⟩

theorem oneUser_initial : oneUser.Initial := ⟨rfl, fun _ => rfl, rfl⟩

def rawToken (i : ℕ) : String := String.ofList (List.replicate i 'a')

theorem rawToken_injective : Function.Injective rawToken := by
  intro i j h
  have hlist := String.ofList_injective h
  simpa using congrArg List.length hlist

def record (i : ℕ) : RefreshToken := ⟨i, 40, rawToken i, i + AuthService.refreshTokenTtl, false, i⟩

structure LoggedIn (n : ℕ) (h : List (AuthState × AuthLabel)) (s : AuthState) : Prop where
  run : Run (authService crypto) (fun s l => s.distinctTokens l) h s
  users : s.db.users = oneUser.db.users
  records : s.db.refreshTokens.rows = (List.range n).map record
  generated : ∀ raw ∈ s.generated, ∃ i < n, raw = rawToken i
  idle : ∀ c, n ≤ c → s.calls c = .idle
  answered : ∀ c < n, s.calls c = .answered (.loggedIn (.ok ("a@b.c", rawToken c, user))) ∧
    ∃ q ∈ h, q.2 = .statement c (authIo c c (rawToken c) []) ∧ q.1.calls c = .loginStore user "a@b.c"

theorem loggedIn_zero : LoggedIn 0 [] oneUser := by
  refine ⟨.start oneUser_initial, rfl, rfl, ?_, fun _ _ => rfl, ?_⟩ <;> simp [oneUser]

theorem loginCheck_user (utcNow : Timestamp) :
    AuthService.loginCheck crypto oneUser.db.users utcNow "a@b.c" "secret" = .ok (user, "a@b.c") := rfl

variable {n : ℕ} {h : List (AuthState × AuthLabel)} {s : AuthState}

theorem LoggedIn.store (hs : LoggedIn n h s) : ∃ t, t.rows = (List.range (n + 1)).map record ∧
    AuthService.storeRefreshToken crypto s.db (authIo n n (rawToken n) []) user =
      .ok (rawToken n, { s.db with refreshTokens := t }) := by
  have hid : s.db.refreshTokens.insert (record n) ≠ none := by
    rw [ne_eq, Table.insert_eq_none_iff]
    rintro ⟨r, hfind⟩
    have hmem := Table.mem_of_find? hfind
    rw [hs.records] at hmem
    obtain ⟨i, hi, rfl⟩ := List.mem_map.mp hmem
    have hkey : i = n := Table.key_of_find? hfind
    rw [hkey] at hi
    exact absurd (List.mem_range.mp hi) (lt_irrefl n)
  obtain ⟨t, ht⟩ := Option.ne_none_iff_exists'.mp hid
  have hhash : s.db.refreshTokens.rows.any (fun r => decide (r.tokenHash = rawToken n)) = false := by
    rw [List.any_eq_false, hs.records]
    intro r hr
    obtain ⟨i, hi, rfl⟩ := List.mem_map.mp hr
    have hne : i ≠ n := (List.mem_range.mp hi).ne
    rw [decide_eq_true_eq]
    exact fun he => hne (rawToken_injective he)
  have huser : s.db.users.find? user.id = some user := by
    rw [hs.users]
    rfl
  refine ⟨t, ?_, ?_⟩
  · rw [(Table.rows_insert ht).1, hs.records, List.range_succ, List.map_append]
    rfl
  · have hrepo : UserRepository.storeRefreshToken s.db n ⟨n, user.id, rawToken n,
        n + AuthService.refreshTokenTtl, false, n⟩ = .ok { s.db with refreshTokens := t } := by
      unfold UserRepository.storeRefreshToken
      simp only [hhash, Bool.false_eq_true, if_false, huser, Option.isNone_some]
      simp only [record] at ht
      simp only [user, ht]
    simp only [AuthService.storeRefreshToken, crypto, authIo, hrepo, AuthIo.run, Bool.false_eq_true, if_false]

theorem LoggedIn.succ (hs : LoggedIn n h s) : ∃ h' s', LoggedIn (n + 1) h' s' := by
  obtain ⟨t, ht, hstore⟩ := hs.store
  have hother : ∀ c, c ≠ n → ∀ call, Function.update s.calls n call c = s.calls c :=
    fun c hc call => Function.update_of_ne hc _ _
  let s₁ := s.setCall n (.loginFind "a@b.c" "secret")
  let s₂ := s.setCall n (.loginStore user "a@b.c")
  let s₃ : AuthState := ⟨{ s.db with refreshTokens := t },
    Function.update s.calls n (.answered (.loggedIn (.ok ("a@b.c", rawToken n, user)))), rawToken n :: s.generated⟩
  have hself : ∀ call, (s.setCall n call).calls n = call := fun call => Function.update_self _ _ _
  have hn₁ : (authService crypto).next s (.begin n (.login "a@b.c" "secret")) = some s₁ := by
    simp only [authService, AuthState.next, hs.idle n le_rfl]
    rfl
  have hfind : (AuthCall.loginFind "a@b.c" "secret").step crypto s.db (authIo n 0 "" []) =
      some (s.db, .loginStore user "a@b.c") := by
    simp only [AuthCall.step, hs.users, AuthIo.run, authIo, Bool.false_eq_true, if_false, loginCheck_user,
      AuthCall.andThen]
  have hn₂ : (authService crypto).next s₁ (.statement n (authIo n 0 "" [])) = some s₂ :=
    (next_statement (hself _) hfind).trans (by simp only [s₂, AuthState.setCall, Function.update_idem]; rfl)
  have hn₃ : (authService crypto).next s₂ (.statement n (authIo n n (rawToken n) [])) = some s₃ := by
    refine (next_statement (hself _) (by simp only [AuthCall.step, AuthState.setCall, hstore]; rfl)).trans ?_
    simp only [s₃, AuthState.setCall, Function.update_idem]
    rfl
  have hdistinct : s₂.distinctTokens (.statement n (authIo n n (rawToken n) [])) := by
    intro _ hmem
    obtain ⟨i, hi, he⟩ := hs.generated _ hmem
    exact hi.ne' (rawToken_injective he)
  have hfirst : s₁.distinctTokens (.statement n (authIo n 0 "" [])) := by
    intro hstoring
    simp [s₁, hself, AuthCall.storing] at hstoring
  have hbegin : s.distinctTokens (.begin n (.login "a@b.c" "secret")) := trivial
  refine ⟨_, s₃, ((hs.run.step hbegin hn₁).step hfirst hn₂).step hdistinct hn₃, hs.users, ht, fun raw hraw => ?_,
    fun c hc => ?_, fun c hc => ?_⟩
  · rcases List.mem_cons.mp hraw with rfl | hraw
    · exact ⟨n, Nat.lt_succ_self n, rfl⟩
    · obtain ⟨i, hi, he⟩ := hs.generated raw hraw
      exact ⟨i, Nat.lt_succ_of_lt hi, he⟩
  · exact (hother c (by omega) _).trans (hs.idle c (by omega))
  · by_cases hcn : c = n
    · subst hcn
      exact ⟨Function.update_self _ _ _, _, List.mem_cons_self, rfl, hself _⟩
    · obtain ⟨hc', q, hq, hl, hlogin⟩ := hs.answered c (by omega)
      refine ⟨(hother c hcn _).trans hc', q, ?_, hl, hlogin⟩
      exact List.mem_cons_of_mem _ (List.mem_cons_of_mem _ (List.mem_cons_of_mem _ hq))

theorem exists_loggedIn (n : ℕ) : ∃ h s, LoggedIn n h s := by
  induction n with
  | zero => exact ⟨_, _, loggedIn_zero⟩
  | succ n ih =>
    obtain ⟨h, s, hs⟩ := ih
    exact hs.succ

def newestFirst (n : ℕ) : List Uuid := (List.range n).reverse

theorem LoggedIn.find? (hs : LoggedIn n h s) {i : ℕ} (hi : i < n) :
    s.db.refreshTokens.find? i = some (record i) := by
  refine (Table.find?_eq_some_iff _ _ _).mpr ⟨?_, rfl⟩
  rw [hs.records]
  exact List.mem_map_of_mem (List.mem_range.mpr hi)

theorem LoggedIn.isScanOrder (hs : LoggedIn n h s) {now : Timestamp} (hnow : now < AuthService.refreshTokenTtl) :
    UserRepository.isScanOrder s.db.refreshTokens now (newestFirst n) = true := by
  have hactive : UserRepository.active s.db.refreshTokens now = (List.range n).map record := by
    rw [UserRepository.active, hs.records, List.filter_eq_self]
    intro r hr
    obtain ⟨i, _, rfl⟩ := List.mem_map.mp hr
    simp only [record, Bool.not_false, Bool.true_and]
    exact decide_eq_true (hnow.trans_le (le_add_of_nonneg_left (Int.natCast_nonneg i)))
  have hfound : (newestFirst n).filterMap s.db.refreshTokens.find? = (newestFirst n).map record := by
    rw [← List.filterMap_eq_map]
    refine List.filterMap_congr fun i hi => hs.find? ?_
    simpa [newestFirst] using hi
  simp only [UserRepository.isScanOrder, Bool.and_eq_true, decide_eq_true_eq, hactive, hfound]
  refine ⟨?_, ?_⟩
  · rw [List.map_map]
    have hid : (RefreshToken.id ∘ record) = id := rfl
    rw [hid, List.map_id]
    exact List.reverse_perm _
  · rw [List.pairwise_map, newestFirst, List.pairwise_reverse]
    exact List.pairwise_lt_range.imp fun hlt => Int.ofNat_le.mpr hlt.le

theorem idxOf_newestFirst (n : ℕ) : (newestFirst (n + 1)).idxOf 0 = n := by
  have hlist : newestFirst (n + 1) = ((List.range n).map Nat.succ).reverse ++ [0] := by
    rw [newestFirst, List.range_succ_eq_map, List.reverse_cons]
  rw [hlist, List.idxOf_append_of_notMem (by simp)]
  simp

theorem LoggedIn.scan (hs : LoggedIn (n + 1) h s) (req : AuthRequest)
    (hreq : req.start = .refreshScan (rawToken 0) ∨ req.start = .logoutScan (rawToken 0)) :
    ∃ s₁ s₂, Run (authService crypto) (fun s l => s.distinctTokens l)
      ([] ++ (s₁, .statement (n + 1) (authIo 0 0 "" (newestFirst (n + 1)))) :: (s, .begin (n + 1) req) :: h) s₂ ∧
      s₁.calls (n + 1) = req.start ∧ s₁.db = s.db ∧
      LiveToken ((s, .begin (n + 1) req) :: h) s₁ (authIo 0 0 "" (newestFirst (n + 1))) (rawToken 0) user := by
  let s₁ := s.setCall (n + 1) req.start
  have hself : s₁.calls (n + 1) = req.start := Function.update_self _ _ _
  have hother : ∀ c, c ≠ n + 1 → s₁.calls c = s.calls c := fun c hc => Function.update_of_ne hc _ _
  have hn₁ : (authService crypto).next s (.begin (n + 1) req) = some s₁ := by
    simp only [authService, AuthState.next, hs.idle (n + 1) le_rfl]
    rfl
  have horder : UserRepository.isScanOrder s.db.refreshTokens 0 (newestFirst (n + 1)) = true :=
    hs.isScanOrder (by decide)
  have hn₂ : ∃ s₂, (authService crypto).next s₁
      (.statement (n + 1) (authIo 0 0 "" (newestFirst (n + 1)))) = some s₂ := by
    have hopen : ((authIo 0 0 "" (newestFirst (n + 1))).failed ||
        UserRepository.isScanOrder s₁.db.refreshTokens 0 (newestFirst (n + 1))) = true :=
      Bool.or_eq_true_iff.mpr (.inr horder)
    rcases hreq with hreq | hreq
    · exact ⟨_, next_statement (hself.trans hreq) (if_pos hopen)⟩
    · exact ⟨_, next_statement (hself.trans hreq) (if_pos hopen)⟩
  obtain ⟨s₂, hn₂⟩ := hn₂
  have hbegin : s.distinctTokens (.begin (n + 1) req) := trivial
  have hdistinct : s₁.distinctTokens (.statement (n + 1) (authIo 0 0 "" (newestFirst (n + 1)))) := by
    intro hstoring
    rcases hreq with hreq | hreq <;> simp [hself, hreq, AuthCall.storing] at hstoring
  refine ⟨s₁, s₂, (hs.run.step hbegin hn₁).step hdistinct hn₂, hself, rfl, ⟨?_, fun c hc => ?_⟩⟩
  · obtain ⟨hlogin, q, hq, hl, hstore⟩ := hs.answered 0 (Nat.succ_pos n)
    refine ⟨0, "a@b.c", (hother 0 (Nat.succ_ne_zero n).symm).trans hlogin, q,
      List.mem_cons_of_mem _ hq, _, hl, hstore, ?_, ?_⟩
    · simp only [authIo]
      decide
    · simp only [authIo]
      decide
  · by_cases hcn : c = n + 1
    · subst hcn
      rw [hself] at hc
      rcases hreq with hreq | hreq <;> rw [hreq] at hc <;> cases hc
    · rw [hother c hcn] at hc
      by_cases hlt : c < n + 1
      · rw [(hs.answered c hlt).1] at hc
        cases hc
      · rw [hs.idle c (Nat.not_lt.mp hlt)] at hc
        cases hc

theorem LoggedIn.inScan_iff (hs : LoggedIn (n + 1) h s) {s₁ : AuthState} (hdb : s₁.db = s.db) :
    InScan crypto s₁ (authIo 0 0 "" (newestFirst (n + 1))) (rawToken 0) ↔ n < UserRepository.scanLimit := by
  have hmem : record 0 ∈ s₁.db.refreshTokens.rows := by
    rw [hdb]
    exact Table.mem_of_find? (hs.find? (Nat.succ_pos n))
  constructor
  · rintro ⟨r, hr, hv, hlt⟩
    rw [hdb, hs.records] at hr
    obtain ⟨i, _, rfl⟩ := List.mem_map.mp hr
    have hzero : i = 0 := by
      simp only [crypto, record, Except.ok.injEq, decide_eq_true_eq] at hv
      exact (rawToken_injective hv).symm
    subst hzero
    exact (idxOf_newestFirst n).symm.trans_lt hlt
  · intro hlt
    exact ⟨record 0, hmem, by simp [crypto, record], (idxOf_newestFirst n).trans_lt hlt⟩

end Sample

/-- A refresh and a logout of the only token. -/
theorem live_tokens_accepted_iff_sample :
    ∃ h s s₁ s₂, Run (authService Sample.crypto) (fun s l => s.distinctTokens l)
      ((s₁, .statement 1 (Sample.authIo 0 0 "" [0])) :: (s, .begin 1 (.refresh (Sample.rawToken 0))) :: h) s₂ ∧
      Accepts Sample.crypto s₂ 1 (Sample.rawToken 0) Sample.user := by
  obtain ⟨h, s, hs⟩ := Sample.exists_loggedIn 1
  obtain ⟨s₁, s₂, hrun, hc, hdb, hlive⟩ := hs.scan (.refresh (Sample.rawToken 0)) (.inl rfl)
  refine ⟨h, s, s₁, s₂, hrun, ?_⟩
  refine ((live_tokens_accepted_iff Sample.crypto_faithful Sample.crypto_encodes hrun hlive rfl
    (by simp)).1 hc).mpr ?_
  exact (hs.inScan_iff hdb).mpr (by decide)

/-- After 1001 logins the scan does not reach the first of their tokens. -/
theorem live_token_refused : ¬∀ (x : Crypto) (later earlier : List (AuthState × AuthLabel)) (s s₁ : AuthState)
    (c : ℕ) (io : AuthIo) (raw : String) (user : User), x.Faithful →
    (∀ claims, ∃ token, x.encode claims = .ok token) →
    Run (authService x) (fun s l => s.distinctTokens l) (later ++ (s₁, .statement c io) :: earlier) s →
    LiveToken earlier s₁ io raw user → io.failed = false →
    (∀ q ∈ later, ¬q.1.failsIn c q.2) →
    (s₁.calls c = .refreshScan raw → Accepts x s c raw user) ∧
      (s₁.calls c = .logoutScan raw → LogsOut x s c raw) := by
  intro hall
  obtain ⟨h, s, hs⟩ := Sample.exists_loggedIn 1001
  obtain ⟨s₁, s₂, hrun, hc, hdb, hlive⟩ := hs.scan (.refresh (Sample.rawToken 0)) (.inl rfl)
  have haccepts := (hall Sample.crypto [] _ s₂ s₁ 1001 _ _ _ Sample.crypto_faithful Sample.crypto_encodes hrun hlive
    rfl (by simp)).1 hc
  rw [accepts_iff Sample.crypto_faithful Sample.crypto_encodes hrun hlive rfl (by simp) hc,
    hs.inScan_iff hdb] at haccepts
  exact absurd haccepts (by decide)

end JobScheduler
