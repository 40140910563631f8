import JobScheduler.Handlers
import JobScheduler.Pipeline
import JobScheduler.TokenScan

namespace JobScheduler
open Relational Transition

/-! ## What bcrypt reads -/

def utf8 (raw : String) : List UInt8 := raw.toUTF8.data.toList

theorem utf8_injective : Function.Injective utf8 := fun _ _ h =>
  String.toByteArray_inj.mp (ByteArray.ext (Array.toList_inj.mp h))

/-- What bcrypt reads of a string: 72 bytes of its text and the zero byte after it, over and over. -/
def bcryptKey (raw : String) : List UInt8 :=
  let bytes := utf8 raw ++ [0]
  (List.range 72).map fun i => bytes.getD (i % bytes.length) 0

/-- bcrypt reads all of it, and sees where it ends. -/
def BcryptReads (raw : String) : Prop := (utf8 raw).length < 72 ∧ (0 : UInt8) ∉ utf8 raw

theorem prefix_bcryptKey {raw : String} (h : (utf8 raw).length < 72) : utf8 raw ++ [0] <+: bcryptKey raw := by
  have hlen : (bcryptKey raw).length = 72 := by simp [bcryptKey]
  rw [List.prefix_iff_eq_take]
  refine List.ext_getElem (by simp [hlen]; omega) fun i hi _ => ?_
  have hmod : i % (utf8 raw ++ [0]).length = i := Nat.mod_eq_of_lt hi
  simp only [bcryptKey, List.getElem_take, List.getElem_map, List.getElem_range, hmod,
    List.getD_eq_getElem?_getD, List.getElem?_eq_getElem hi, Option.getD_some]

/-- Two strings that are read whole have the same key only if they are the same. -/
theorem bcryptKey_injOn : Set.InjOn bcryptKey {raw | BcryptReads raw} := by
  have htext : ∀ {raw}, BcryptReads raw → (bcryptKey raw).takeWhile (· ≠ 0) = utf8 raw := by
    rintro raw ⟨hlen, hzero⟩
    obtain ⟨rest, hrest⟩ := prefix_bcryptKey hlen
    have hne : ∀ b ∈ utf8 raw, decide (b ≠ 0) = true := fun b hb => by
      simpa using fun h : b = 0 => hzero (h ▸ hb)
    rw [← hrest, List.append_assoc, List.takeWhile_append_of_pos hne]
    simp
  intro raw hraw raw' hraw' hkey
  refine utf8_injective ?_
  rw [← htext hraw, ← htext hraw', hkey]

/-- The refresh token that a step draws is read whole, as the text of a UUID is. -/
def AuthState.readableTokens (s : AuthState) : AuthLabel → Prop
  | .begin _ _ => True
  | .statement c io => (s.calls c).storing = true → BcryptReads io.raw

/-! ## Access tokens and their holders -/

/-- `jsonwebtoken::decode` with its defaults, on tokens of the service: their own claims, until 60 s
after they have expired. -/
def Crypto.Decodes (x : Crypto) (verify : Option ℕ → List Char → Option TokenClaims) : Prop :=
  ∀ claims token clock claims', x.encode claims = .ok token → verify clock token.toList = some claims' →
    claims' = ⟨hyphenated claims.sub, claims.email, claims.exp, claims.iat⟩ ∧
      ∃ now, clock = some now ∧ now ≤ claims.exp.toNat + 60

/-- The access token is one that a login or a refresh has answered. -/
def AuthState.HandedOut (s : AuthState) (token : String) : Prop :=
  ∃ c raw user, s.calls c = .answered (.loggedIn (.ok (token, raw, user))) ∨
    s.calls c = .answered (.refreshed raw (.ok (token, user)))

/-- They are accepted until then. -/
def Crypto.Accepts (x : Crypto) (verify : Option ℕ → List Char → Option TokenClaims) : Prop :=
  ∀ claims token now, x.encode claims = .ok token → now ≤ claims.exp.toNat + 60 →
    verify (some now) token.toList = some ⟨hyphenated claims.sub, claims.email, claims.exp, claims.iat⟩

def AuthState.Answers (s : AuthState) (c : ℕ) (token : String) (user : User) : Prop :=
  ∃ raw, s.calls c = .answered (.loggedIn (.ok (token, raw, user))) ∨
    s.calls c = .answered (.refreshed raw (.ok (token, user)))

section Steps
variable {x : Crypto} {s s' : AuthState} {l : AuthLabel} {io : AuthIo} {c : ℕ} {user : User} {record : RefreshToken}
  {token raw email password passwordHash : String} {displayName : Option String}

theorem map_eq_ok {ε α β : Type} {f : α → β} {r : Except ε α} {b : β} (h : r.map f = .ok b) :
    ∃ a, r = .ok a ∧ f a = b := by
  cases r with
  | error e => cases h
  | ok a =>
    cases h
    exact ⟨a, rfl, rfl⟩

theorem loginCheck_spec {users : Table User.id} {utcNow : Timestamp}
    (h : AuthService.loginCheck x users utcNow email password = .ok (user, token)) :
    user.email = email ∧ x.verifies password user.passwordHash = true ∧
      AuthService.mintAccessToken x utcNow user = .ok token := by
  unfold AuthService.loginCheck at h
  split at h
  · cases h
  · rename_i u hfind
    split at h
    · rename_i hv
      obtain ⟨token', hm, he⟩ := map_eq_ok h
      cases he
      exact ⟨by simpa using List.find?_some hfind, hv, hm⟩
    · cases h

theorem refreshUser_spec {users : Table User.id} {utcNow : Timestamp}
    (h : AuthService.refreshUser x users utcNow record = .ok (token, user)) :
    AuthService.mintAccessToken x utcNow user = .ok token := by
  unfold AuthService.refreshUser at h
  split at h
  · cases h
  · obtain ⟨token', hm, he⟩ := map_eq_ok h
    cases he
    exact hm

theorem registerHash_spec {users : Table User.id} {salt : ℕ}
    (h : AuthService.registerHash x users salt email password = .ok passwordHash) :
    x.hash password AuthService.defaultCost salt = .ok passwordHash := by
  unfold AuthService.registerHash at h
  split at h
  · cases h
  · split at h
    · cases h
      assumption
    · cases h

theorem create_spec {t t' : Table User.id} {now : Timestamp} {id : Uuid}
    (h : UserRepository.create t now id email passwordHash displayName = .ok (user, t')) :
    user.email = email ∧ user.passwordHash = passwordHash := by
  unfold UserRepository.create at h
  dsimp only at h
  split at h
  · cases h
  · split at h <;> cases h
    exact ⟨rfl, rfl⟩

theorem andThen_cases {α β : Type} {answer : Except AuthError β → AuthResponse} {next : α → AuthCall}
    {r : Except AuthError α} {call : AuthCall} (h : AuthCall.andThen answer next r = call) :
    (∃ e, call = .answered (answer (.error e))) ∨ ∃ v, r = .ok v ∧ call = next v := by
  cases r with
  | error e => exact .inl ⟨e, h.symm⟩
  | ok v => exact .inr ⟨v, rfl, h.symm⟩

theorem step_of_next (hn : s.next x (.statement c io) = some s') :
    ∃ db, (s.calls c).step x s.db io = some (db, s'.calls c) := by
  obtain ⟨⟨db, call⟩, hstep, rfl⟩ := Option.map_eq_some_iff.mp hn
  refine ⟨db, hstep.trans ?_⟩
  dsimp only
  rw [Function.update_self]

/-- What a statement of a call has read, if the call is still good. -/
inductive AuthCall.Moves (x : Crypto) (db : AuthDb) (io : AuthIo) : AuthCall → AuthCall → Prop
  | refused {call : AuthCall} {r : AuthResponse} (hr : r.isError = true) : Moves x db io call (.answered r)
  | hashed {email password passwordHash : String} {displayName : Option String}
    (h : AuthService.registerHash x db.users io.salt email password = .ok passwordHash) :
    Moves x db io (.registerFind email password displayName) (.registerInsert email passwordHash displayName)
  | registered {email passwordHash : String} {displayName : Option String} {user : User} {users : Table User.id}
    (h : UserRepository.create db.users io.now io.id email passwordHash displayName = .ok (user, users)) :
    Moves x db io (.registerInsert email passwordHash displayName) (.answered (.registered (.ok user)))
  | found {email password token : String} {user : User}
    (h : AuthService.loginCheck x db.users io.utcNow email password = .ok (user, token)) :
    Moves x db io (.loginFind email password) (.loginStore user token)
  | stored {token : String} {user : User} :
    Moves x db io (.loginStore user token) (.answered (.loggedIn (.ok (token, io.raw, user))))
  | read {raw : String} {record : RefreshToken} (hr : record ∈ UserRepository.active db.refreshTokens io.now)
    (hv : x.verifies raw record.tokenHash = true) (ht : io.utcNow ≤ record.expiresAt) :
    Moves x db io (.refreshScan raw) (.refreshUser raw record)
  | refreshed {raw token : String} {record : RefreshToken} {user : User}
    (h : AuthService.refreshUser x db.users io.utcNow record = .ok (token, user)) :
    Moves x db io (.refreshUser raw record) (.answered (.refreshed raw (.ok (token, user))))
  | matched {raw : String} {record : RefreshToken} : Moves x db io (.logoutScan raw) (.logoutRevoke raw record)
  | loggedOut {raw : String} {record : RefreshToken} :
    Moves x db io (.logoutRevoke raw record) (.answered (.loggedOut raw (.ok ())))

theorem moves_of_step {db db' : AuthDb} {call call' : AuthCall}
    (h : call.step x db io = some (db', call')) : AuthCall.Moves x db io call call' := by
  cases call with
  | idle | answered _ => cases h
  | registerFind email password displayName =>
    simp only [AuthCall.step, Option.some.injEq, Prod.mk.injEq] at h
    rcases andThen_cases h.2 with ⟨e, rfl⟩ | ⟨passwordHash, hr, rfl⟩
    · exact .refused rfl
    · exact .hashed (io_run_eq_ok.mp hr).2
  | registerInsert email passwordHash displayName =>
    simp only [AuthCall.step] at h
    split at h
    · cases h
      apply AuthCall.Moves.refused
      cases hf : io.failed <;> simp [AuthIo.run, hf, AuthResponse.isError]
    · rename_i user users hcreate
      simp only [Option.some.injEq, Prod.mk.injEq] at h
      obtain ⟨-, rfl⟩ := h
      cases hf : io.failed with
      | true =>
        apply AuthCall.Moves.refused
        simp [AuthIo.run, hf, AuthResponse.isError]
      | false =>
        simp only [AuthIo.run, hf, Bool.false_eq_true, if_false]
        exact .registered hcreate
  | loginFind email password =>
    simp only [AuthCall.step, Option.some.injEq, Prod.mk.injEq] at h
    rcases andThen_cases h.2 with ⟨e, rfl⟩ | ⟨⟨user, token⟩, hr, rfl⟩
    · exact .refused rfl
    · exact .found (io_run_eq_ok.mp hr).2
  | loginStore user token =>
    simp only [AuthCall.step] at h
    split at h
    · cases h
      exact .refused rfl
    · rename_i hstore
      cases h
      rw [(storeRefreshToken_eq_ok hstore).1]
      exact .stored
  | refreshScan raw =>
    simp only [AuthCall.step] at h
    split at h
    · rename_i hscan
      simp only [Option.some.injEq, Prod.mk.injEq] at h
      rcases andThen_cases h.2 with ⟨e, rfl⟩ | ⟨record, hr, rfl⟩
      · exact .refused rfl
      · obtain ⟨hf, hr⟩ := io_run_eq_ok.mp hr
        obtain ⟨hfind, ht⟩ := refreshRecord_eq_ok.mp hr
        obtain ⟨hmem, hv⟩ := findRecord_eq_ok (by simpa [hf] using hscan) hfind
        exact .read hmem hv ht
    · cases h
  | refreshUser raw record =>
    simp only [AuthCall.step, Option.some.injEq, Prod.mk.injEq] at h
    obtain ⟨-, rfl⟩ := h
    cases hr : io.run (AuthService.refreshUser x db.users io.utcNow record) with
    | error e => exact .refused rfl
    | ok found => exact .refreshed (io_run_eq_ok.mp hr).2
  | logoutScan raw =>
    simp only [AuthCall.step] at h
    split at h
    · simp only [Option.some.injEq, Prod.mk.injEq] at h
      rcases andThen_cases h.2 with ⟨e, rfl⟩ | ⟨record, hr, rfl⟩
      · exact .refused rfl
      · exact .matched
    · cases h
  | logoutRevoke raw record =>
    simp only [AuthCall.step, Option.some.injEq, Prod.mk.injEq] at h
    obtain ⟨-, rfl⟩ := h
    cases hf : io.failed with
    | true =>
      apply AuthCall.Moves.refused
      simp [AuthIo.run, hf, AuthResponse.isError]
    | false =>
      simp only [AuthIo.run, hf, Bool.false_eq_true, if_false]
      exact .loggedOut

theorem call_changed (hn : s.next x l = some s') (hne : s.calls c ≠ s'.calls c) :
    (∃ req, l = .begin c req ∧ s'.calls c = req.start) ∨
      ∃ io, l = .statement c io ∧ AuthCall.Moves x s.db io (s.calls c) (s'.calls c) := by
  cases l with
  | begin c' req =>
    simp only [AuthState.next] at hn
    split at hn <;> cases hn
    have hc : c = c' := by
      by_contra hcc
      exact hne (Function.update_of_ne hcc _ _).symm
    subst hc
    exact .inl ⟨req, rfl, Function.update_self _ _ _⟩
  | statement c' io =>
    have hc : c = c' := by
      by_contra hcc
      obtain ⟨_, _, rfl⟩ := Option.map_eq_some_iff.mp hn
      exact hne (Function.update_of_ne hcc _ _).symm
    subst hc
    obtain ⟨db, hstep⟩ := step_of_next hn
    exact .inr ⟨io, rfl, moves_of_step hstep⟩

theorem user_new (hn : s.next x l = some s') (hold : user ∉ s.db.users.rows) (hu : user ∈ s'.db.users.rows) :
    ∃ c displayName, s.calls c = .registerInsert user.email user.passwordHash displayName := by
  have hs : s.Step x l s' := auth_step hn
  cases hs with
  | begun _ | refused _ _ | hashed _ | found _ _ | stored _ _ _ | read _ _ _ | refreshed _ _ | matched _ _ _
  | loggedOut _ => exact absurd hu hold
  | @registered c io email passwordHash displayName user' users hc hi =>
    have hmem : user ∈ users.rows := hu
    rw [(Table.rows_insert hi).1] at hmem
    rcases List.mem_append.mp hmem with hmem | hmem
    · exact absurd hmem hold
    · obtain rfl := List.mem_singleton.mp hmem
      obtain ⟨db, hstep⟩ := step_of_next hn
      have hmoves := moves_of_step hstep
      simp only [AuthState.setCall, Function.update_self, hc] at hmoves
      cases hmoves with
      | refused hr => cases hr
      | registered hcreate =>
        obtain ⟨rfl, rfl⟩ := create_spec hcreate
        exact ⟨c, displayName, hc⟩

end Steps

/-! ## How a call came to where it is -/

/-- A login of the user by the password, which has stored the refresh token at `t`. -/
structure PasswordLogin (x : Crypto) (h : List (AuthState × AuthLabel)) (c : ℕ) (user : User)
    (password raw : String) (t : Timestamp) : Prop where
  began : ∃ q ∈ h, q.2 = .begin c (.login user.email password)
  verified : x.verify password user.passwordHash = .ok true
  stored : ∃ q ∈ h, ∃ io token, q.2 = .statement c io ∧ q.1.calls c = .loginStore user token ∧ io.raw = raw ∧
    io.utcNow = t

/-- The user has been there from the start, or a registration has had the password, as far as bcrypt reads it. -/
def HasPassword (h : List (AuthState × AuthLabel)) (user : User) (password : String) : Prop :=
  (∀ q ∈ h, user ∈ q.1.db.users.rows) ∨
    ∃ q ∈ h, ∃ c password' displayName, q.2 = .begin c (.register user.email password' displayName) ∧
      bcryptKey password = bcryptKey password'

def MadeAt (x : Crypto) (h : List (AuthState × AuthLabel)) (c : ℕ) (user : User) (token : String) (t : Timestamp) :
    Prop :=
  ∃ q ∈ h, ∃ io, q.2 = .statement c io ∧ io.utcNow = t ∧ AuthService.mintAccessToken x t user = .ok token

section Runs
variable {x : Crypto} {h : List (AuthState × AuthLabel)} {s : AuthState} {ok : AuthState → AuthLabel → Prop} {c : ℕ}
  {user : User} {record : RefreshToken} {token raw raw' password : String} {t : Timestamp} {κ : Type}
  {key : String → κ}

theorem PasswordLogin.mono {h' : List (AuthState × AuthLabel)} (hl : PasswordLogin x h c user password raw t)
    (hsub : h ⊆ h') : PasswordLogin x h' c user password raw t := by
  obtain ⟨⟨q, hq, hbegin⟩, hv, q', hq', hstored⟩ := hl
  exact ⟨⟨q, hsub hq, hbegin⟩, hv, q', hsub hq', hstored⟩

theorem distinctKeys_of_run (hr : Run (authService x) (fun s l => s.distinctTokens l ∧ s.readableTokens l) h s) :
    Run (authService x) (fun s l => s.distinctKeys bcryptKey l) h s ∧ ∀ raw ∈ s.generated, BcryptReads raw := by
  induction hr with
  | start hi => exact ⟨.start hi, by simp [hi.generated]⟩
  | @step h s s' l _ hok hn ih =>
    obtain ⟨hrun, hread⟩ := ih
    cases l with
    | begin c req =>
      refine ⟨hrun.step trivial hn, ?_⟩
      have hs : s.Step x (.begin c req) s' := auth_step hn
      cases hs with
      | begun _ => exact hread
    | statement c io =>
      have hgen : s'.generated = s.draw c io := by
        obtain ⟨_, _, rfl⟩ := Option.map_eq_some_iff.mp hn
        rfl
      refine ⟨hrun.step (fun hstoring raw hraw hkey => ?_) hn, fun raw hraw => ?_⟩
      · exact hok.1 hstoring (bcryptKey_injOn (hread raw hraw) (hok.2 hstoring) hkey ▸ hraw)
      · rw [hgen, AuthState.draw] at hraw
        split at hraw
        · rename_i hstoring
          rcases List.mem_cons.mp hraw with rfl | hraw
          · exact hok.2 hstoring
          · exact hread raw hraw
        · exact hread raw hraw

/-- The step that a call owes its present statement to, and the run up to it. -/
theorem call_origin (hr : Run (authService x) ok h s) {call : AuthCall} (hc : s.calls c = call)
    (hne : call ≠ .idle) :
    ∃ q earlier, q :: earlier <:+ h ∧ Run (authService x) ok earlier q.1 ∧
      ((∃ req, q.2 = .begin c req ∧ call = req.start) ∨
        ∃ io, q.2 = .statement c io ∧ AuthCall.Moves x q.1.db io (q.1.calls c) call) := by
  subst hc
  rcases hr.last_change (fun s => s.calls c) with ⟨⟨s₀, hi, he⟩, -⟩ | ⟨q, earlier, s₁, hsuffix, hrun, hn, hold, he⟩
  · exact absurd (he.symm.trans (AuthState.Initial.calls hi c)) hne
  · refine ⟨q, earlier, hsuffix, hrun, ?_⟩
    rw [← he]
    exact call_changed hn hold

theorem refreshUser_origin (hr : Run (authService x) ok h s) (hc : s.calls c = .refreshUser raw record) :
    ∃ q earlier io, q :: earlier <:+ h ∧ Run (authService x) ok earlier q.1 ∧ q.2 = .statement c io ∧
      record ∈ UserRepository.active q.1.db.refreshTokens io.now ∧ x.verifies raw record.tokenHash = true ∧
      io.utcNow ≤ record.expiresAt := by
  obtain ⟨q, earlier, hsuffix, hrun, horigin⟩ := call_origin hr hc nofun
  rcases horigin with ⟨req, _, hstart⟩ | ⟨io, hl, hmoves⟩
  · cases req <;> cases hstart
  · generalize q.1.calls c = call at hmoves
    cases hmoves with
    | read hmem hv ht => exact ⟨q, earlier, io, hsuffix, hrun, hl, hmem, hv, ht⟩

theorem refreshed_origin (hr : Run (authService x) ok h s)
    (hc : s.calls c = .answered (.refreshed raw (.ok (token, user)))) :
    ∃ q earlier io record, q :: earlier <:+ h ∧ Run (authService x) ok earlier q.1 ∧ q.2 = .statement c io ∧
      q.1.calls c = .refreshUser raw record ∧
      AuthService.refreshUser x q.1.db.users io.utcNow record = .ok (token, user) := by
  obtain ⟨q, earlier, hsuffix, hrun, horigin⟩ := call_origin hr hc nofun
  rcases horigin with ⟨req, _, hstart⟩ | ⟨io, hl, hmoves⟩
  · cases req <;> cases hstart
  · generalize hcall : q.1.calls c = call at hmoves
    cases hmoves with
    | refused hr => cases hr
    | refreshed hfound => exact ⟨q, earlier, io, _, hsuffix, hrun, hl, hcall, hfound⟩

theorem loggedIn_origin (hr : Run (authService x) ok h s)
    (hc : s.calls c = .answered (.loggedIn (.ok (token, raw, user)))) :
    ∃ password t t', PasswordLogin x h c user password raw t ∧ MadeAt x h c user token t' ∧
      s.db.users.find? user.id = some user := by
  obtain ⟨q₁, earlier₁, hsuffix₁, hrun₁, ⟨req, _, hstart⟩ | ⟨io₁, hl₁, hmoves₁⟩⟩ := call_origin hr hc nofun
  · cases req <;> cases hstart
  generalize hcall₁ : q₁.1.calls c = call₁ at hmoves₁
  cases hmoves₁ with
  | refused hr => cases hr
  | stored =>
    -- before it was stored, the token was made
    obtain ⟨q₂, earlier₂, hsuffix₂, hrun₂, ⟨req, _, hstart⟩ | ⟨io₂, hl₂, hmoves₂⟩⟩ := call_origin hrun₁ hcall₁ nofun
    · cases req <;> cases hstart
    generalize hcall₂ : q₂.1.calls c = call₂ at hmoves₂
    cases hmoves₂ with
    | @found email password _ _ hcheck =>
      obtain ⟨q₃, earlier₃, hsuffix₃, -, horigin₃⟩ := call_origin hrun₂ hcall₂ nofun
      have hmem₁ : q₁ ∈ h := hsuffix₁.subset List.mem_cons_self
      have hsub₂ : q₂ :: earlier₂ ⊆ h :=
        fun q hq => hsuffix₁.subset (List.mem_cons_of_mem _ (hsuffix₂.subset hq))
      have hmem₂ : q₂ ∈ h := hsub₂ List.mem_cons_self
      have hmem₃ : q₃ ∈ h := hsub₂ (List.mem_cons_of_mem _ (hsuffix₃.subset List.mem_cons_self))
      have hfind := (authKept_of_run hr q₂ hmem₂).users _ _ (loginCheck_eq_ok hcheck)
      obtain ⟨rfl, hv, hm⟩ := loginCheck_spec hcheck
      rcases horigin₃ with ⟨req, hbegin, hstart⟩ | ⟨io₃, _, hmoves₃⟩
      · cases req <;> cases hstart
        exact ⟨password, io₁.utcNow, io₂.utcNow,
          ⟨⟨q₃, hmem₃, hbegin⟩, Crypto.verifies_iff.mp hv, q₁, hmem₁, io₁, token, hl₁, hcall₁, rfl, rfl⟩,
          ⟨q₂, hmem₂, io₂, hl₂, rfl, hm⟩, hfind⟩
      · generalize q₃.1.calls c = call₃ at hmoves₃
        cases hmoves₃

/-- A refresh that has answered `Ok` has read its token no later than 30 days after a login had stored it. -/
theorem refreshed_login (hx : x.VerifiesBy key) (hr : Run (authService x) (fun s l => s.distinctKeys key l) h s)
    (hc : s.calls c = .answered (.refreshed raw' (.ok (token, user)))) :
    ∃ c' password raw t t', PasswordLogin x h c' user password raw t ∧ MadeAt x h c user token t' ∧
      s.db.users.find? user.id = some user ∧
      ∃ q ∈ h, ∃ io, q.2 = .statement c io ∧ io.utcNow ≤ t + AuthService.refreshTokenTtl := by
  obtain ⟨q₁, earlier₁, io₁, record, hsuffix₁, hrun₁, hl₁, hcall₁, hfound⟩ := refreshed_origin hr hc
  obtain ⟨q₂, earlier₂, io₂, hsuffix₂, hrun₂, hl₂, hactive, hv, ht⟩ := refreshUser_origin hrun₁ hcall₁
  have hmem₁ : q₁ ∈ h := hsuffix₁.subset List.mem_cons_self
  have hmem₂ : q₂ ∈ earlier₁ := hsuffix₂.subset List.mem_cons_self
  have hsub : earlier₂ ⊆ h := fun q hq => hsuffix₁.subset
    (List.mem_cons_of_mem _ (hsuffix₂.subset (List.mem_cons_of_mem _ hq)))
  have hmem₂' : q₂ ∈ h := hsuffix₁.subset (List.mem_cons_of_mem _ hmem₂)
  -- the record that was read is the one the login has stored
  have hinv := authInv_of_run hx hrun₂
  have hrow := (List.mem_filter.mp hactive).1
  obtain ⟨raw, _, hraw, c', token', user', hlogin, hid, hu'⟩ := hinv.issued record hrow
  obtain ⟨password, t, t', hpassword, _, _⟩ := loggedIn_origin hrun₂ hlogin
  obtain ⟨q, hq, io, token'', hl, hcall, -, rfl⟩ := hpassword.stored
  obtain ⟨a, ha, hstored⟩ := storedBy_of_run hx hrun₂ q hq c' io user' token'' hl hcall
  rw [hlogin] at ha
  cases ha
  obtain ⟨r, hr', hvr, _, hexp, _⟩ := hstored token' raw user' rfl
  obtain rfl := hinv.one r hr' record hrow raw hvr ((hraw raw).mpr rfl)
  -- and its user has stayed
  have hfind := refreshUser_eq_ok hfound
  have hsame := (authKept_of_run hrun₁ q₂ hmem₂).users _ _ hu'
  rw [hid, hfind] at hsame
  cases hsame
  refine ⟨c', password, raw, io.utcNow, io₁.utcNow, hpassword.mono hsub,
    ⟨q₁, hmem₁, io₁, hl₁, rfl, refreshUser_spec hfound⟩, (authKept_of_run hr q₂ hmem₂').users _ _ hu',
    q₂, hmem₂', io₂, hl₂, ?_⟩
  rw [← hexp]
  exact ht

theorem hasPassword_of_run (hx : x.VerifiesBy bcryptKey) (hr : Run (authService x) ok h s)
    (hu : user ∈ s.db.users.rows) (hv : x.verify password user.passwordHash = .ok true) :
    HasPassword h user password := by
  rcases hr.last_change (fun s => user ∈ s.db.users.rows) with
    ⟨-, hall⟩ | ⟨q₁, earlier₁, s₁, hsuffix₁, hrun₁, hn, hne, he⟩
  · left
    intro q hq
    rw [hall q hq]
    exact hu
  · have hnew : user ∈ s₁.db.users.rows := by
      rw [he]
      exact hu
    have hold : user ∉ q₁.1.db.users.rows := fun hold => hne (propext ⟨fun _ => hnew, fun _ => hold⟩)
    obtain ⟨c, displayName, hcall₁⟩ := user_new hn hold hnew
    obtain ⟨q₂, earlier₂, hsuffix₂, hrun₂, ⟨req, _, hstart⟩ | ⟨io₂, hl₂, hmoves₂⟩⟩ := call_origin hrun₁ hcall₁ nofun
    · cases req <;> cases hstart
    generalize hcall₂ : q₂.1.calls c = call₂ at hmoves₂
    cases hmoves₂ with
    | @hashed email password' _ _ hhash =>
      have hsame := (hx _ _ _ _ (registerHash_spec hhash) password).mp hv
      obtain ⟨q₃, earlier₃, hsuffix₃, -, ⟨req, hbegin, hstart⟩ | ⟨io₃, _, hmoves₃⟩⟩ := call_origin hrun₂ hcall₂ nofun
      · cases req <;> cases hstart
        refine .inr ⟨q₃, ?_, c, password', displayName, hbegin, hsame⟩
        exact hsuffix₁.subset (List.mem_cons_of_mem _ (hsuffix₂.subset
          (List.mem_cons_of_mem _ (hsuffix₃.subset List.mem_cons_self))))
      · generalize q₃.1.calls c = call₃ at hmoves₃
        cases hmoves₃

theorem mintAccessToken_eq_ok (h : AuthService.mintAccessToken x t user = .ok token) :
    x.encode ⟨user.id, user.email, AuthService.seconds (t + AuthService.accessTokenTtl), AuthService.seconds t⟩ =
      .ok token := by
  unfold AuthService.mintAccessToken at h
  split at h
  · cases h
    assumption
  · cases h

theorem seconds_toNat (ht : 0 ≤ t) : (AuthService.seconds t).toNat = (t / 1000000).toNat % 2 ^ 64 := by
  obtain ⟨n, hn⟩ := Int.eq_ofNat_of_zero_le (Int.ediv_nonneg ht (by norm_num : (0 : ℤ) ≤ 1000000))
  have hmod : ((n : ℤ) % 2 ^ 64).toNat = n % 2 ^ 64 := by omega
  rw [AuthService.seconds, hn, UInt64.ofInt, UInt64.toNat_ofNat', hmod, Nat.mod_mod, Int.toNat_natCast]

theorem seconds_le (ht : 0 ≤ t) : ((AuthService.seconds t).toNat : ℤ) * 1000000 ≤ t := by
  have hle : (AuthService.seconds t).toNat ≤ (t / 1000000).toNat := by
    rw [seconds_toNat ht]
    exact Nat.mod_le _ _
  have hfloor : ((t / 1000000).toNat : ℤ) = t / 1000000 :=
    Int.toNat_of_nonneg (Int.ediv_nonneg ht (by norm_num))
  have hdiv := Int.ediv_mul_le t (by norm_num : (1000000 : ℤ) ≠ 0)
  have : ((AuthService.seconds t).toNat : ℤ) ≤ t / 1000000 := (Int.ofNat_le.mpr hle).trans hfloor.le
  linarith

/-- An access token that has been handed out goes back to a login of its user, at most 30 days before
a statement of the call that made it. -/
theorem handedOut_origin (hx : x.VerifiesBy key) (hr : Run (authService x) (fun s l => s.distinctKeys key l) h s)
    (hout : s.HandedOut token) :
    ∃ user c c' password raw t t', PasswordLogin x h c' user password raw t ∧ MadeAt x h c user token t' ∧
      s.db.users.find? user.id = some user ∧
      ∃ q ∈ h, ∃ io, q.2 = .statement c io ∧ io.utcNow ≤ t + AuthService.refreshTokenTtl := by
  obtain ⟨c, raw, user, hc | hc⟩ := hout
  · obtain ⟨password, t, t', hlogin, hmade, hfind⟩ := loggedIn_origin hr hc
    obtain ⟨q, hq, io, _, hl, _, _, ht⟩ := hlogin.stored
    refine ⟨user, c, c, password, raw, t, t', hlogin, hmade, hfind, q, hq, io, hl, ?_⟩
    rw [ht, AuthService.refreshTokenTtl]
    linarith
  · obtain ⟨c', password, raw, t, t', hlogin, hmade, hfind, hread⟩ := refreshed_login hx hr hc
    exact ⟨user, c, c', password, raw, t, t', hlogin, hmade, hfind, hread⟩

def CallsWithin (h : List (AuthState × AuthLabel)) (d : ℤ) : Prop :=
  ∀ q ∈ h, ∀ q' ∈ h, ∀ c io io', q.2 = .statement c io → q'.2 = .statement c io' → io.utcNow ≤ io'.utcNow + d

/-- A request that gets past the authentication with a token of the service is made for a user who has
logged in by the password of the account, as far as bcrypt reads it, and no longer than 30 days, 16 minutes and
a call ago. -/
theorem session_sound {β σ ρ : Type} {W : WebApp β σ ρ} {req : HttpRequest β} {claims : TokenClaims} {d : ℤ}
    (hx : x.VerifiesBy bcryptKey) (hdecodes : x.Decodes W.verify)
    (hr : Run (authService x) (fun s l => s.distinctTokens l ∧ s.readableTokens l) h s)
    (hclock : ∀ q ∈ h, ∀ c io, q.2 = .statement c io → 0 ≤ io.utcNow) (hcalls : CallsWithin h d)
    (hidentify : W.identify req = some (some claims)) (hbearer : req.bearer = some token.toList)
    (hout : s.HandedOut token) :
    ∃ user c password raw t now, claims.sub = hyphenated user.id ∧ claims.email = user.email ∧
      PasswordLogin x h c user password raw t ∧ HasPassword h user password ∧ req.clock = some now ∧
      now * 1000000 ≤ t + AuthService.refreshTokenTtl + 16 * 60 * 1000000 + d := by
  obtain ⟨user, c, c', password, raw, t, t', hlogin, ⟨q, hq, io, hl, rfl, hmint⟩, hfind, q', hq', io', hl', ht⟩ :=
    handedOut_origin hx (distinctKeys_of_run hr).1 hout
  have hverify : W.verify req.clock token.toList = some claims := by
    unfold WebApp.identify at hidentify
    split at hidentify
    · cases hidentify
    · obtain ⟨_, hclaims, he⟩ := Option.map_eq_some_iff.mp hidentify
      cases he
      simpa [WebApp.authenticate, hbearer] using hclaims
  obtain ⟨rfl, now, hnow, hexp⟩ := hdecodes _ _ _ _ (mintAccessToken_eq_ok hmint) hverify
  refine ⟨user, c', password, raw, t, now, rfl, rfl, hlogin,
    hasPassword_of_run hx hr (Table.mem_of_find? hfind) hlogin.verified, hnow, ?_⟩
  have hmade := hcalls q hq q' hq' c io io' hl hl'
  have hpos : 0 ≤ io.utcNow + AuthService.accessTokenTtl :=
    add_nonneg (hclock q hq c io hl) (by norm_num [AuthService.accessTokenTtl])
  have hseconds := seconds_le hpos
  have hexp : (now : ℤ) ≤ (AuthService.seconds (io.utcNow + AuthService.accessTokenTtl)).toNat + 60 := by
    exact_mod_cast hexp
  have httl : AuthService.accessTokenTtl = 15 * 60 * 1000000 := rfl
  rw [httl] at hseconds hexp
  linarith

theorem seconds_eq (ht : 0 ≤ t) (hlt : t < (2 ^ 64 * 1000000 : ℤ)) :
    ((AuthService.seconds t).toNat : ℤ) = t / 1000000 := by
  have hpos : 0 ≤ t / 1000000 := Int.ediv_nonneg ht (by norm_num)
  have hsmall : (t / 1000000).toNat < 2 ^ 64 := by
    have hdiv := Int.ediv_lt_of_lt_mul (by norm_num) hlt
    exact (Int.toNat_lt hpos).mpr (by exact_mod_cast hdiv)
  rw [seconds_toNat ht, Nat.mod_eq_of_lt hsmall, Int.toNat_of_nonneg hpos]

theorem answers_origin (hr : Run (authService x) ok h s) (ha : s.Answers c token user) :
    ∃ t, MadeAt x h c user token t := by
  obtain ⟨raw, hc | hc⟩ := ha
  · obtain ⟨_, _, t, _, hmade, _⟩ := loggedIn_origin hr hc
    exact ⟨t, hmade⟩
  · obtain ⟨q, earlier, io, record, hsuffix, _, hl, _, hfound⟩ := refreshed_origin hr hc
    exact ⟨io.utcNow, q, hsuffix.subset List.mem_cons_self, io, hl, rfl, refreshUser_spec hfound⟩

theorem serve_ne_unauthorized {β σ ρ : Type} {W : WebApp β σ ρ} {req : HttpRequest β} {sub : String}
    (h : W.isOf sub req = true) (st : WebState σ) : (W.serve st req).1 ≠ .unauthorized := by
  unfold WebApp.isOf at h
  unfold WebApp.serve
  cases hidentify : W.identify req with
  | none =>
    rw [hidentify] at h
    cases h
  | some claims =>
    dsimp only
    split <;> exact nofun

theorem now_le_exp {now : ℕ} (ht : 0 ≤ t) (hlt : t < (2 ^ 63 * 1000000 : ℤ))
    (hle : now * 1000000 ≤ t + 16 * 60 * 1000000) :
    now ≤ (AuthService.seconds (t + AuthService.accessTokenTtl)).toNat + 60 := by
  have httl : AuthService.accessTokenTtl = 15 * 60 * 1000000 := rfl
  have hexp := seconds_eq (t := t + AuthService.accessTokenTtl) (by rw [httl]; linarith) (by rw [httl]; linarith)
  have hfloor : (now : ℤ) - 60 ≤ (t + AuthService.accessTokenTtl) / 1000000 :=
    Int.le_ediv_of_mul_le (by norm_num) (by rw [httl]; linarith)
  rw [← hexp] at hfloor
  omega

theorem isOf_of_minted {β σ ρ : Type} {W : WebApp β σ ρ} (haccepts : x.Accepts W.verify)
    (hmint : AuthService.mintAccessToken x t user = .ok token) {req : HttpRequest β} {now : ℕ}
    (hroute : req.route.isPublic = false) (hbearer : req.bearer = some token.toList) (hnow : req.clock = some now)
    (hvalid : now ≤ (AuthService.seconds (t + AuthService.accessTokenTtl)).toNat + 60) :
    W.isOf (hyphenated user.id) req = true := by
  have hverify := haccepts _ _ _ (mintAccessToken_eq_ok hmint) hvalid
  have hidentify : W.identify req = (W.verify (some now) token.toList).map some := by
    rw [WebApp.identify, hroute, if_neg Bool.false_ne_true, WebApp.authenticate, hbearer, hnow, Option.bind_some]
  rw [WebApp.isOf, hidentify, hverify, Option.map_some, Option.any_some, Option.any_some, decide_eq_true_eq]

/-- An access token that a login or a refresh has answered gets each request that carries it past the
authentication, on every route, for 16 minutes after it was made, and as the user of the answer. -/
theorem session_complete {β σ ρ : Type} {W : WebApp β σ ρ} (haccepts : x.Accepts W.verify)
    (hr : Run (authService x) ok h s)
    (hclock : ∀ q ∈ h, ∀ c io, q.2 = .statement c io → 0 ≤ io.utcNow ∧ io.utcNow < (2 ^ 63 * 1000000 : ℤ))
    (ha : s.Answers c token user) :
    ∃ t, MadeAt x h c user token t ∧ ∀ (req : HttpRequest β) (now : ℕ), req.route.isPublic = false →
      req.bearer = some token.toList → req.clock = some now → now * 1000000 ≤ t + 16 * 60 * 1000000 →
      W.isOf (hyphenated user.id) req = true ∧ ∀ st, (W.serve st req).1 ≠ .unauthorized := by
  obtain ⟨t, hmade⟩ := answers_origin hr ha
  refine ⟨t, hmade, fun req now hroute hbearer hnow hle => ?_⟩
  obtain ⟨q, hq, io, hl, rfl, hmint⟩ := hmade
  obtain ⟨hpos, hlt⟩ := hclock q hq c io hl
  have hof := isOf_of_minted haccepts hmint hroute hbearer hnow (now_le_exp hpos hlt hle)
  exact ⟨hof, serve_ne_unauthorized hof⟩

end Runs

namespace Sample

/-- A hash that hides nothing, and a signature that is known for one token only. -/
def signing : Crypto where
  hash raw _ _ := .ok raw
  verify raw tokenHash := .ok (decide (bcryptKey raw = bcryptKey tokenHash))
  encode claims :=
    if claims.sub = 40 ∧ claims.email = "a@b.c" ∧ claims.exp = 900 ∧ claims.iat = 0 then .ok "jwt"
    else .error "no key"

theorem signing_verifiesBy : signing.VerifiesBy bcryptKey := by
  rintro raw cost salt tokenHash hhash raw'
  cases hhash
  simp [signing]

def shortToken (s : AuthState) (l : AuthLabel) : Bool :=
  newToken s l && match l with
    | .begin _ _ => true
    | .statement c io => !(s.calls c).storing || decide (utf8 io.raw = [116, 49])

theorem tokens_of_shortToken (s : AuthState) (l : AuthLabel) (h : shortToken s l = true) :
    s.distinctTokens l ∧ s.readableTokens l := by
  obtain ⟨hnew, hshort⟩ := Bool.and_eq_true_iff.mp h
  refine ⟨distinctTokens_of_newToken s l hnew, ?_⟩
  cases l with
  | begin c req => trivial
  | statement c io =>
    intro hstoring
    have hutf8 : utf8 io.raw = [116, 49] := by simpa [hstoring] using hshort
    rw [BcryptReads, hutf8]
    decide

def guarded : WebApp Unit ℕ ℕ where
  verify clock token :=
    if token = "jwt".toList then
      clock.bind fun now => if now ≤ 960 then some ⟨hyphenated 40, "a@b.c", 900, 0⟩ else none
    else none
  handle n _ _ := (n, n + 1)

theorem signing_decodes : signing.Decodes guarded.verify := by
  intro claims token clock claims' henc hver
  obtain ⟨sub, email, exp, iat⟩ := claims
  simp only [signing] at henc
  split at henc
  · rename_i hclaims
    obtain ⟨rfl, rfl, rfl, rfl⟩ := hclaims
    cases henc
    simp only [guarded, if_true] at hver
    obtain ⟨now, hclock, hnow⟩ := Option.bind_eq_some_iff.mp hver
    split at hnow
    · cases hnow
      exact ⟨rfl, now, hclock, by simpa using ‹now ≤ 960›⟩
    · cases hnow
  · cases henc

theorem signing_accepts : signing.Accepts guarded.verify := by
  intro claims token now henc hle
  obtain ⟨sub, email, exp, iat⟩ := claims
  simp only [signing] at henc
  split at henc
  · rename_i hclaims
    obtain ⟨rfl, rfl, rfl, rfl⟩ := hclaims
    cases henc
    have hnow : now ≤ 960 := hle
    simp only [guarded, if_true, Option.bind_some, if_pos hnow]
  · cases henc

def bearing (now : ℕ) : HttpRequest Unit :=
  ⟨.listProjects, [("authorization", [66, 101, 97, 114, 101, 114, 32, 106, 119, 116])], (), some now, now,
    .acknowledged⟩

def refreshed : List AuthLabel :=
  [.begin 0 (.register "a@b.c" "secret" none), .statement 0 (authIo 1 0 "" []),
    .statement 0 (authIo 2 40 "" []), .begin 1 (.login "a@b.c" "secret"),
    .statement 1 (authIo 3 0 "" []), .statement 1 (authIo 4 50 "t1" []), .begin 2 (.refresh "t1"),
    .statement 2 (authIo 6 0 "" [50]), .statement 2 (authIo 8 0 "" [])]

def handsOut : AuthCall → Bool
  | .answered (.refreshed _ (.ok found)) => found.1 == "jwt"
  | _ => false

theorem answers_of_handsOut {s : AuthState} {c : ℕ} (h : handsOut (s.calls c) = true) :
    ∃ user, s.Answers c "jwt" user := by
  unfold handsOut at h
  split at h
  · rename_i raw found hc
    obtain ⟨token, user⟩ := found
    obtain rfl := by simpa using h
    exact ⟨user, raw, .inr hc⟩
  · cases h

theorem handedOut_of_handsOut {s : AuthState} {c : ℕ} (h : handsOut (s.calls c) = true) : s.HandedOut "jwt" := by
  obtain ⟨user, raw, ha⟩ := answers_of_handsOut h
  exact ⟨c, raw, user, ha⟩

def early (h : List (AuthState × AuthLabel)) : Bool :=
  h.all fun q => match q.2 with
    | .begin _ _ => true
    | .statement _ io => decide (0 ≤ io.utcNow ∧ io.utcNow ≤ 10)

theorem early_clock {h : List (AuthState × AuthLabel)} (hh : early h = true) {q : AuthState × AuthLabel} (hq : q ∈ h)
    {c : ℕ} {io : AuthIo} (hl : q.2 = .statement c io) : 0 ≤ io.utcNow ∧ io.utcNow ≤ 10 := by
  have hall := List.all_eq_true.mp hh q hq
  rw [hl] at hall
  exact of_decide_eq_true hall

theorem early_within {h : List (AuthState × AuthLabel)} (hh : early h = true) : CallsWithin h 10 := by
  intro q hq q' hq' c io io' hl hl'
  have hclock := early_clock hh hq hl
  have hclock' := early_clock hh hq' hl'
  linarith [hclock.2, hclock'.1]

end Sample

theorem session_sound_sample :
    ∃ h s, Run (authService Sample.signing) (fun s l => s.distinctTokens l ∧ s.readableTokens l) h s ∧
      ∃ user c password raw t now, hyphenated 40 = hyphenated user.id ∧ "a@b.c" = user.email ∧
        PasswordLogin Sample.signing h c user password raw t ∧ HasPassword h user password ∧
        some (960 : ℕ) = some now ∧ now * 1000000 ≤ t + AuthService.refreshTokenTtl + 16 * 60 * 1000000 + 10 := by
  obtain ⟨h, s, hrun, hp⟩ := Run.exists_of_exec (M := authService Sample.signing) Sample.authState_initial
    Sample.refreshed Sample.shortToken (fun h s => Sample.handsOut (s.calls 2) && Sample.early h) (by decide +kernel)
  have hrun := hrun.mono Sample.tokens_of_shortToken
  obtain ⟨hhands, hearly⟩ := Bool.and_eq_true_iff.mp hp
  have hbearer : (Sample.bearing 960).bearer = some "jwt".toList := by decide
  have hidentify : Sample.guarded.identify (Sample.bearing 960) = some (some ⟨hyphenated 40, "a@b.c", 900, 0⟩) := by
    unfold WebApp.identify WebApp.authenticate
    rw [hbearer]
    rfl
  exact ⟨h, s, hrun, session_sound Sample.signing_verifiesBy Sample.signing_decodes
    hrun (fun q hq c io hl => (Sample.early_clock hearly hq hl).1) (Sample.early_within hearly)
    hidentify hbearer (Sample.handedOut_of_handsOut hhands)⟩

theorem session_complete_sample :
    ∃ h s user t, Run (authService Sample.signing) (fun s l => s.distinctTokens l) h s ∧ s.Answers 2 "jwt" user ∧
      MadeAt Sample.signing h 2 user "jwt" t ∧ 0 ≤ t ∧
      Sample.guarded.isOf (hyphenated user.id) (Sample.bearing 960) = true ∧
      ∀ st, (Sample.guarded.serve st (Sample.bearing 960)).1 ≠ .unauthorized := by
  obtain ⟨h, s, hrun, hp⟩ := Run.exists_of_exec (M := authService Sample.signing) Sample.authState_initial
    Sample.refreshed Sample.newToken (fun h s => Sample.handsOut (s.calls 2) && Sample.early h) (by decide +kernel)
  have hrun := hrun.mono Sample.distinctTokens_of_newToken
  obtain ⟨hhands, hearly⟩ := Bool.and_eq_true_iff.mp hp
  obtain ⟨user, ha⟩ := Sample.answers_of_handsOut hhands
  obtain ⟨t, hmade, haccepted⟩ := session_complete Sample.signing_accepts hrun (fun q hq c io hl => by
    have hclock := Sample.early_clock hearly hq hl
    exact ⟨hclock.1, by linarith [hclock.2]⟩) ha
  have hpos : 0 ≤ t := by
    obtain ⟨q, hq, io, hl, rfl, _⟩ := hmade
    exact (Sample.early_clock hearly hq hl).1
  exact ⟨h, s, user, t, hrun, ha, hmade, hpos,
    haccepted (Sample.bearing 960) 960 rfl (by decide) rfl (by push_cast; linarith)⟩

end JobScheduler
