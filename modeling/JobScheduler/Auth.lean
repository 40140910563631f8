import JobScheduler.Database
import JobScheduler.Runs

namespace JobScheduler
open Relational Transition

/-! ## Users and refresh tokens -/

structure User where
  id : Uuid
  email : String
  passwordHash : String
  displayName : Option String
  isActive : Bool
  createdAt : Timestamp
  updatedAt : Timestamp
  deriving DecidableEq, Repr

structure RefreshToken where
  id : Uuid
  userId : Uuid
  tokenHash : String
  expiresAt : Timestamp
  revoked : Bool
  createdAt : Timestamp
  deriving DecidableEq, Repr

/-- `sub` is written as the text of the UUID. -/
structure AuthService.Claims where
  sub : Uuid
  email : String
  exp : UInt64
  iat : UInt64

/-- The `bcrypt` crate, its salt drawn by the caller, and `jsonwebtoken::encode` under the secret of the
service; an error is its text. -/
structure Crypto where
  hash : String → ℕ → ℕ → Except String String
  verify : String → String → Except String Bool
  encode : AuthService.Claims → Except String String

/-- `verify(…).unwrap_or(false)`. -/
def Crypto.verifies (x : Crypto) (raw tokenHash : String) : Bool :=
  match x.verify raw tokenHash with
  | .ok valid => valid
  | .error _ => false

inductive AuthError
  | invalidCredentials
  | emailAlreadyRegistered
  | invalidToken
  | database (e : SqlError)
  | internal (message : String)
  deriving DecidableEq, Repr

/-- What a statement meets: whether it fails, and then does nothing; `NOW()` and the clock of the process;
what is drawn for it; the order in which a scan reads its rows. -/
structure AuthIo where
  failed : Bool
  now : Timestamp
  utcNow : Timestamp
  id : Uuid
  raw : String
  salt : ℕ
  order : List Uuid

def AuthIo.run {α : Type} (io : AuthIo) (r : Except AuthError α) : Except AuthError α :=
  if io.failed then .error (.database .connection) else r

/-- The part of the schema that authentication uses. -/
structure AuthDb where
  users : Table User.id
  refreshTokens : Table RefreshToken.id

namespace UserRepository

def findByEmail (t : Table User.id) (email : String) : Option User :=
  t.rows.find? fun u => decide (u.email = email)

def findById (t : Table User.id) (id : Uuid) : Option User := t.find? id

/-- `INSERT INTO users`; `email` is unique. -/
def create (t : Table User.id) (now : Timestamp) (id : Uuid) (email passwordHash : String)
    (displayName : Option String) : Except SqlError (User × Table User.id) :=
  let user : User := ⟨id, email, passwordHash, displayName, true, now, now⟩
  if t.rows.any fun u => decide (u.email = email) then .error .uniqueViolation
  else
    match t.insert user with
    | none => .error .uniqueViolation
    | some t' => .ok (user, t')

/-- `INSERT INTO refresh_tokens`; `revoked` and `created_at` have their defaults, `token_hash` is unique and
`user_id` refers to `users`. -/
def storeRefreshToken (db : AuthDb) (now : Timestamp) (token : RefreshToken) : Except SqlError AuthDb :=
  if db.refreshTokens.rows.any fun r => decide (r.tokenHash = token.tokenHash) then .error .uniqueViolation
  else
    match db.refreshTokens.insert { token with revoked := false, createdAt := now } with
    | none => .error .uniqueViolation
    | some t =>
      if (db.users.find? token.userId).isNone then .error .foreignKeyViolation
      else .ok { db with refreshTokens := t }

/-- `WHERE revoked = false AND expires_at > NOW()`. -/
def active (t : Table RefreshToken.id) (now : Timestamp) : List RefreshToken :=
  t.rows.filter fun r => !r.revoked && decide (now < r.expiresAt)

/-- All active rows, `ORDER BY created_at DESC`: those that tie come in any order. -/
def isScanOrder (t : Table RefreshToken.id) (now : Timestamp) (order : List Uuid) : Bool :=
  decide (order.Perm ((active t now).map RefreshToken.id)) &&
    decide ((order.filterMap t.find?).Pairwise fun r r' => r'.createdAt ≤ r.createdAt)

def scanLimit : ℕ := 1000

def findAllActiveRefreshTokens (t : Table RefreshToken.id) (order : List Uuid) : List RefreshToken :=
  (order.filterMap t.find?).take scanLimit

def revoke (r : RefreshToken) : RefreshToken := { r with revoked := true }

theorem revoke_id (r : RefreshToken) : (revoke r).id = r.id := rfl

def revokeRefreshToken (t : Table RefreshToken.id) (tokenHash : String) : Table RefreshToken.id :=
  t.update (fun r => decide (r.tokenHash = tokenHash)) revoke revoke_id

end UserRepository

namespace AuthService

def defaultCost : ℕ := 12

def tokenCost : ℕ := 4

def seconds (t : Timestamp) : UInt64 := UInt64.ofInt (t / 1000000)

def accessTokenTtl : Timestamp := 15 * 60 * 1000000

def refreshTokenTtl : Timestamp := 30 * 24 * 60 * 60 * 1000000

def mintAccessToken (x : Crypto) (utcNow : Timestamp) (user : User) : Except AuthError String :=
  match x.encode ⟨user.id, user.email, seconds (utcNow + accessTokenTtl), seconds utcNow⟩ with
  | .ok token => .ok token
  | .error e => .error (.internal e)

/-- What `register` does after its lookup. -/
def registerHash (x : Crypto) (users : Table User.id) (salt : ℕ) (email password : String) :
    Except AuthError String :=
  match UserRepository.findByEmail users email with
  | some _ => .error .emailAlreadyRegistered
  | none =>
    match x.hash password defaultCost salt with
    | .ok passwordHash => .ok passwordHash
    | .error e => .error (.internal e)

def storeRefreshToken (x : Crypto) (db : AuthDb) (io : AuthIo) (user : User) : Except AuthError (String × AuthDb) :=
  match x.hash io.raw tokenCost io.salt with
  | .error e => .error (.internal e)
  | .ok tokenHash =>
    match UserRepository.storeRefreshToken db io.now
        ⟨io.id, user.id, tokenHash, io.utcNow + refreshTokenTtl, false, io.utcNow⟩ with
    | .error e => io.run (.error (.database e))
    | .ok db' => io.run (.ok (io.raw, db'))

/-- What `login` does after its lookup. -/
def loginCheck (x : Crypto) (users : Table User.id) (utcNow : Timestamp) (email password : String) :
    Except AuthError (User × String) :=
  match UserRepository.findByEmail users email with
  | none => .error .invalidCredentials
  | some user =>
    if x.verifies password user.passwordHash then (mintAccessToken x utcNow user).map fun token => (user, token)
    else .error .invalidCredentials

def findRecord (x : Crypto) (raw : String) (records : List RefreshToken) : Except AuthError RefreshToken :=
  match records.find? fun r => x.verifies raw r.tokenHash with
  | none => .error .invalidToken
  | some record => .ok record

def refreshRecord (x : Crypto) (utcNow : Timestamp) (raw : String) (records : List RefreshToken) :
    Except AuthError RefreshToken :=
  match findRecord x raw records with
  | .error e => .error e
  | .ok record => if record.expiresAt < utcNow then .error .invalidToken else .ok record

/-- What `refresh` does after its second lookup. -/
def refreshUser (x : Crypto) (users : Table User.id) (utcNow : Timestamp) (record : RefreshToken) :
    Except AuthError (String × User) :=
  match UserRepository.findById users record.userId with
  | none => .error .invalidToken
  | some user => (mintAccessToken x utcNow user).map fun token => (token, user)

end AuthService

/-! ## Calls -/

inductive AuthRequest
  | register (email password : String) (displayName : Option String)
  | login (email password : String)
  | refresh (raw : String)
  | logout (raw : String)

inductive AuthResponse
  | registered (r : Except AuthError User)
  | loggedIn (r : Except AuthError (String × String × User))
  | refreshed (raw : String) (r : Except AuthError (String × User))
  | loggedOut (raw : String) (r : Except AuthError Unit)

def AuthResponse.isError : AuthResponse → Bool
  | .registered (.error _) | .loggedIn (.error _) | .refreshed _ (.error _) | .loggedOut _ (.error _) => true
  | _ => false

/-- The next statement of a call, with what the earlier ones have read. -/
inductive AuthCall
  | idle
  | registerFind (email password : String) (displayName : Option String)
  | registerInsert (email passwordHash : String) (displayName : Option String)
  | loginFind (email password : String)
  | loginStore (user : User) (accessToken : String)
  | refreshScan (raw : String)
  | refreshUser (raw : String) (record : RefreshToken)
  | logoutScan (raw : String)
  | logoutRevoke (raw : String) (record : RefreshToken)
  | answered (r : AuthResponse)

def AuthRequest.start : AuthRequest → AuthCall
  | .register email password displayName => .registerFind email password displayName
  | .login email password => .loginFind email password
  | .refresh raw => .refreshScan raw
  | .logout raw => .logoutScan raw

namespace AuthCall
open UserRepository AuthService

def andThen {α β : Type} (answer : Except AuthError β → AuthResponse) (next : α → AuthCall) :
    Except AuthError α → AuthCall
  | .error e => .answered (answer (.error e))
  | .ok a => next a

/-- One statement of a call, on the tables as they are then. -/
def step (x : Crypto) (db : AuthDb) (io : AuthIo) : AuthCall → Option (AuthDb × AuthCall)
  | .idle | .answered _ => none
  | .registerFind email password displayName =>
    some (db, andThen .registered (fun passwordHash => .registerInsert email passwordHash displayName)
      (io.run (registerHash x db.users io.salt email password)))
  | .registerInsert email passwordHash displayName =>
    match create db.users io.now io.id email passwordHash displayName with
    | .error e => some (db, .answered (.registered (io.run (.error (.database e)))))
    | .ok (user, users) =>
      some (if io.failed then db else { db with users := users }, .answered (.registered (io.run (.ok user))))
  | .loginFind email password =>
    some (db, andThen .loggedIn (fun found => .loginStore found.1 found.2)
      (io.run (loginCheck x db.users io.utcNow email password)))
  | .loginStore user accessToken =>
    match AuthService.storeRefreshToken x db io user with
    | .error e => some (db, .answered (.loggedIn (.error e)))
    | .ok (raw, db') => some (db', .answered (.loggedIn (.ok (accessToken, raw, user))))
  | .refreshScan raw =>
    if io.failed || isScanOrder db.refreshTokens io.now io.order then
      some (db, andThen (.refreshed raw) (.refreshUser raw)
        (io.run (refreshRecord x io.utcNow raw (findAllActiveRefreshTokens db.refreshTokens io.order))))
    else none
  | .refreshUser raw record =>
    some (db, .answered (.refreshed raw (io.run (AuthService.refreshUser x db.users io.utcNow record))))
  | .logoutScan raw =>
    if io.failed || isScanOrder db.refreshTokens io.now io.order then
      some (db, andThen (.loggedOut raw) (.logoutRevoke raw)
        (io.run (findRecord x raw (findAllActiveRefreshTokens db.refreshTokens io.order))))
    else none
  | .logoutRevoke raw record =>
    some (if io.failed then db
      else { db with refreshTokens := revokeRefreshToken db.refreshTokens record.tokenHash },
      .answered (.loggedOut raw (io.run (.ok ()))))

def underWay : AuthCall → Bool
  | .idle | .answered _ => false
  | _ => true

def storing : AuthCall → Bool
  | .loginStore _ _ => true
  | _ => false

end AuthCall

/-- `generated` are the refresh tokens drawn so far. -/
structure AuthState where
  db : AuthDb
  calls : ℕ → AuthCall
  generated : List String

inductive AuthLabel
  | begin (c : ℕ) (req : AuthRequest)
  | statement (c : ℕ) (io : AuthIo)

namespace AuthState

def setCall (s : AuthState) (c : ℕ) (call : AuthCall) : AuthState :=
  { s with calls := Function.update s.calls c call }

def draw (s : AuthState) (c : ℕ) (io : AuthIo) : List String :=
  if (s.calls c).storing then io.raw :: s.generated else s.generated

def next (x : Crypto) (s : AuthState) : AuthLabel → Option AuthState
  | .begin c req =>
    match s.calls c with
    | .idle => some (s.setCall c req.start)
    | _ => none
  | .statement c io =>
    ((s.calls c).step x s.db io).map fun r => ⟨r.1, Function.update s.calls c r.2, s.draw c io⟩

/-- Any users, no refresh token and no call. -/
structure Initial (s : AuthState) : Prop where
  refreshTokens : s.db.refreshTokens.rows = []
  calls : ∀ c, s.calls c = .idle
  generated : s.generated = []

inductive Step (x : Crypto) (s : AuthState) : AuthLabel → AuthState → Prop
  | begun {c : ℕ} {req : AuthRequest} (hc : s.calls c = .idle) : Step x s (.begin c req) (s.setCall c req.start)
  | refused {c : ℕ} {io : AuthIo} {r : AuthResponse} (hc : (s.calls c).underWay = true)
    (hr : r.isError = true) :
    Step x s (.statement c io) ⟨s.db, Function.update s.calls c (.answered r), s.draw c io⟩
  | hashed {c : ℕ} {io : AuthIo} {email password passwordHash : String} {displayName : Option String}
    (hc : s.calls c = .registerFind email password displayName) :
    Step x s (.statement c io) (s.setCall c (.registerInsert email passwordHash displayName))
  | registered {c : ℕ} {io : AuthIo} {email passwordHash : String} {displayName : Option String} {user : User}
    {users : Table User.id} (hc : s.calls c = .registerInsert email passwordHash displayName)
    (hi : s.db.users.insert user = some users) :
    Step x s (.statement c io) ({ s with db := { s.db with users := users } }.setCall c
      (.answered (.registered (.ok user))))
  | found {c : ℕ} {io : AuthIo} {email password accessToken : String} {user : User}
    (hc : s.calls c = .loginFind email password) (hu : s.db.users.find? user.id = some user) :
    Step x s (.statement c io) (s.setCall c (.loginStore user accessToken))
  | stored {c : ℕ} {io : AuthIo} {user : User} {accessToken tokenHash : String} {t : Table RefreshToken.id}
    (hc : s.calls c = .loginStore user accessToken)
    (hhash : x.hash io.raw AuthService.tokenCost io.salt = .ok tokenHash)
    (hi : s.db.refreshTokens.insert
      ⟨io.id, user.id, tokenHash, io.utcNow + AuthService.refreshTokenTtl, false, io.now⟩ = some t) :
    Step x s (.statement c io) ⟨{ s.db with refreshTokens := t },
      Function.update s.calls c (.answered (.loggedIn (.ok (accessToken, io.raw, user)))), io.raw :: s.generated⟩
  | read {c : ℕ} {io : AuthIo} {raw : String} {record : RefreshToken} (hc : s.calls c = .refreshScan raw)
    (hr : record ∈ UserRepository.active s.db.refreshTokens io.now) (hv : x.verifies raw record.tokenHash = true) :
    Step x s (.statement c io) (s.setCall c (.refreshUser raw record))
  | refreshed {c : ℕ} {io : AuthIo} {raw accessToken : String} {record : RefreshToken} {user : User}
    (hc : s.calls c = .refreshUser raw record) (hu : s.db.users.find? record.userId = some user) :
    Step x s (.statement c io) (s.setCall c (.answered (.refreshed raw (.ok (accessToken, user)))))
  | matched {c : ℕ} {io : AuthIo} {raw : String} {record : RefreshToken} (hc : s.calls c = .logoutScan raw)
    (hr : record ∈ UserRepository.active s.db.refreshTokens io.now) (hv : x.verifies raw record.tokenHash = true) :
    Step x s (.statement c io) (s.setCall c (.logoutRevoke raw record))
  | loggedOut {c : ℕ} {io : AuthIo} {raw : String} {record : RefreshToken}
    (hc : s.calls c = .logoutRevoke raw record) :
    Step x s (.statement c io)
      ({ s with db := { s.db with
          refreshTokens := UserRepository.revokeRefreshToken s.db.refreshTokens record.tokenHash } }.setCall c
        (.answered (.loggedOut raw (.ok ()))))

end AuthState

def authService (x : Crypto) : System AuthState AuthLabel := ⟨AuthState.Initial, AuthState.next x⟩

section Steps
variable {x : Crypto} {s s' : AuthState} {l : AuthLabel}

theorem io_run_eq_ok {α : Type} {io : AuthIo} {r : Except AuthError α} {a : α} :
    io.run r = .ok a ↔ io.failed = false ∧ r = .ok a := by
  unfold AuthIo.run
  cases io.failed <;> simp

theorem findByEmail_find? {t : Table User.id} {email : String} {user : User}
    (h : UserRepository.findByEmail t email = some user) : t.find? user.id = some user :=
  Table.find?_of_mem (List.mem_of_find?_eq_some h)

theorem create_eq_ok {t t' : Table User.id} {now : Timestamp} {id : Uuid} {email passwordHash : String}
    {displayName : Option String} {user : User}
    (h : UserRepository.create t now id email passwordHash displayName = .ok (user, t')) :
    t.insert user = some t' := by
  simp only [UserRepository.create] at h
  split at h
  · cases h
  · split at h
    · cases h
    · cases h
      assumption

theorem loginCheck_eq_ok {users : Table User.id} {utcNow : Timestamp} {email password token : String} {user : User}
    (h : AuthService.loginCheck x users utcNow email password = .ok (user, token)) :
    users.find? user.id = some user := by
  simp only [AuthService.loginCheck] at h
  split at h
  · cases h
  · rename_i user' hfind
    split at h
    · cases hm : AuthService.mintAccessToken x utcNow user' with
      | error e => simp [hm, Except.map] at h
      | ok token' =>
        simp only [hm, Except.map, Except.ok.injEq, Prod.mk.injEq] at h
        rw [← h.1]
        exact findByEmail_find? hfind
    · cases h

theorem refreshUser_eq_ok {users : Table User.id} {utcNow : Timestamp} {record : RefreshToken} {token : String}
    {user : User} (h : AuthService.refreshUser x users utcNow record = .ok (token, user)) :
    users.find? record.userId = some user := by
  simp only [AuthService.refreshUser, UserRepository.findById] at h
  split at h
  · cases h
  · rename_i user' hfind
    cases hm : AuthService.mintAccessToken x utcNow user' with
    | error e => simp [hm, Except.map] at h
    | ok token' =>
      simp only [hm, Except.map, Except.ok.injEq, Prod.mk.injEq] at h
      rw [hfind, h.2]

theorem mem_active_of_mem_scan {t : Table RefreshToken.id} {now : Timestamp} {order : List Uuid}
    (ho : UserRepository.isScanOrder t now order = true) {r : RefreshToken} (hr : r ∈ order.filterMap t.find?) :
    r ∈ UserRepository.active t now := by
  simp only [UserRepository.isScanOrder, Bool.and_eq_true, decide_eq_true_eq] at ho
  obtain ⟨id, hid, hfind⟩ := List.mem_filterMap.mp hr
  obtain ⟨r', hr', rfl⟩ := List.mem_map.mp (ho.1.mem_iff.mp hid)
  have hmem : r' ∈ t.rows := (List.mem_filter.mp hr').1
  rw [Table.find?_of_mem hmem] at hfind
  cases hfind
  exact hr'

theorem findRecord_eq_ok {t : Table RefreshToken.id} {now : Timestamp} {order : List Uuid} {raw : String}
    {record : RefreshToken} (ho : UserRepository.isScanOrder t now order = true)
    (h : AuthService.findRecord x raw (UserRepository.findAllActiveRefreshTokens t order) = .ok record) :
    record ∈ UserRepository.active t now ∧ x.verifies raw record.tokenHash = true := by
  simp only [AuthService.findRecord] at h
  split at h
  · cases h
  · rename_i record' hfind
    cases h
    have hmem := List.mem_of_mem_take (List.mem_of_find?_eq_some hfind)
    exact ⟨mem_active_of_mem_scan ho hmem, by simpa using List.find?_some hfind⟩

theorem refreshRecord_eq_ok {utcNow : Timestamp} {raw : String} {records : List RefreshToken} {record : RefreshToken} :
    AuthService.refreshRecord x utcNow raw records = .ok record ↔
      AuthService.findRecord x raw records = .ok record ∧ utcNow ≤ record.expiresAt := by
  simp only [AuthService.refreshRecord]
  split
  · simp_all
  · rename_i record' hfind
    rw [hfind]
    split
    · rename_i hlt
      simp only [reduceCtorEq, Except.ok.injEq, false_iff, not_and, not_le]
      rintro rfl
      exact hlt
    · rename_i hle
      simp only [Except.ok.injEq, iff_self_and]
      rintro rfl
      exact not_lt.mp hle

theorem repository_storeRefreshToken_eq_ok {db db' : AuthDb} {now : Timestamp} {token : RefreshToken}
    (h : UserRepository.storeRefreshToken db now token = .ok db') :
    ∃ t, db.refreshTokens.insert { token with revoked := false, createdAt := now } = some t ∧
      db' = { db with refreshTokens := t } := by
  simp only [UserRepository.storeRefreshToken] at h
  split at h
  · cases h
  · split at h
    · cases h
    · split at h
      · cases h
      · cases h
        exact ⟨_, ‹_›, rfl⟩

theorem storeRefreshToken_eq_ok {db db' : AuthDb} {io : AuthIo} {user : User} {raw : String}
    (h : AuthService.storeRefreshToken x db io user = .ok (raw, db')) :
    raw = io.raw ∧ ∃ tokenHash t, x.hash io.raw AuthService.tokenCost io.salt = .ok tokenHash ∧
      db.refreshTokens.insert
        ⟨io.id, user.id, tokenHash, io.utcNow + AuthService.refreshTokenTtl, false, io.now⟩ = some t ∧
      db' = { db with refreshTokens := t } := by
  simp only [AuthService.storeRefreshToken] at h
  split at h
  · cases h
  · rename_i tokenHash hhash
    split at h
    · simp [io_run_eq_ok] at h
    · rename_i db'' hstore
      obtain ⟨-, h⟩ := io_run_eq_ok.mp h
      cases h
      obtain ⟨t, hi, rfl⟩ := repository_storeRefreshToken_eq_ok hstore
      exact ⟨rfl, tokenHash, t, hhash, hi, rfl⟩

theorem auth_step (hn : s.next x l = some s') : s.Step x l s' := by
  cases l with
  | begin c req =>
    simp only [AuthState.next] at hn
    split at hn <;> cases hn
    exact .begun ‹_›
  | statement c io =>
    obtain ⟨⟨db', call⟩, hstep, rfl⟩ := Option.map_eq_some_iff.mp hn
    -- a call that is not to store a token draws none
    have hdraw : (s.calls c).storing = false → s.draw c io = s.generated := fun h => by simp [AuthState.draw, h]
    have hrefused : ∀ r, (s.calls c).underWay = true → r.isError = true →
        s.Step x (.statement c io) ⟨s.db, Function.update s.calls c (.answered r), s.draw c io⟩ :=
      fun r hc hr => .refused hc hr
    cases hc : s.calls c with
    | idle | answered r =>
      rw [hc] at hstep
      cases hstep
    | registerFind email password displayName =>
      rw [hc] at hstep hdraw hrefused
      cases hstep
      cases hr : io.run (AuthService.registerHash x s.db.users io.salt email password) with
      | error e => exact hrefused _ rfl rfl
      | ok passwordHash =>
        rw [hdraw rfl]
        exact .hashed hc
    | registerInsert email passwordHash displayName =>
      rw [hc] at hstep hdraw hrefused
      simp only [AuthCall.step] at hstep
      split at hstep
      · cases hstep
        refine hrefused _ rfl ?_
        cases hf : io.failed <;> simp [AuthIo.run, hf, AuthResponse.isError]
      · rename_i user users hcreate
        cases hstep
        cases hf : io.failed with
        | true =>
          simp only [AuthIo.run, hf, if_true]
          exact hrefused _ rfl rfl
        | false =>
          simp only [AuthIo.run, hf, Bool.false_eq_true, if_false]
          rw [hdraw rfl]
          exact .registered hc (create_eq_ok hcreate)
    | loginFind email password =>
      rw [hc] at hstep hdraw hrefused
      cases hstep
      cases hr : io.run (AuthService.loginCheck x s.db.users io.utcNow email password) with
      | error e => exact hrefused _ rfl rfl
      | ok found =>
        rw [hdraw rfl]
        exact .found hc (loginCheck_eq_ok (io_run_eq_ok.mp hr).2)
    | loginStore user accessToken =>
      rw [hc] at hstep hrefused
      simp only [AuthCall.step] at hstep
      split at hstep
      · cases hstep
        exact hrefused _ rfl rfl
      · rename_i raw db'' hstore
        cases hstep
        obtain ⟨rfl, tokenHash, t, hhash, hi, rfl⟩ := storeRefreshToken_eq_ok hstore
        have hdraw : s.draw c io = io.raw :: s.generated := by simp [AuthState.draw, hc, AuthCall.storing]
        rw [hdraw]
        exact .stored hc hhash hi
    | refreshScan raw =>
      rw [hc] at hstep hdraw hrefused
      simp only [AuthCall.step] at hstep
      split at hstep <;> cases hstep
      rename_i hscan
      cases hr : io.run (AuthService.refreshRecord x io.utcNow raw
          (UserRepository.findAllActiveRefreshTokens s.db.refreshTokens io.order)) with
      | error e => exact hrefused _ rfl rfl
      | ok record =>
        obtain ⟨hf, hr⟩ := io_run_eq_ok.mp hr
        obtain ⟨hmem, hv⟩ := findRecord_eq_ok (by simpa [hf] using hscan) (refreshRecord_eq_ok.mp hr).1
        rw [hdraw rfl]
        exact .read hc hmem hv
    | refreshUser raw record =>
      rw [hc] at hstep hdraw hrefused
      cases hstep
      cases hr : io.run (AuthService.refreshUser x s.db.users io.utcNow record) with
      | error e => exact hrefused _ rfl rfl
      | ok found =>
        rw [hdraw rfl]
        exact .refreshed hc (refreshUser_eq_ok (io_run_eq_ok.mp hr).2)
    | logoutScan raw =>
      rw [hc] at hstep hdraw hrefused
      simp only [AuthCall.step] at hstep
      split at hstep <;> cases hstep
      rename_i hscan
      cases hr : io.run (AuthService.findRecord x raw
          (UserRepository.findAllActiveRefreshTokens s.db.refreshTokens io.order)) with
      | error e => exact hrefused _ rfl rfl
      | ok record =>
        obtain ⟨hf, hr⟩ := io_run_eq_ok.mp hr
        obtain ⟨hmem, hv⟩ := findRecord_eq_ok (by simpa [hf] using hscan) hr
        rw [hdraw rfl]
        exact .matched hc hmem hv
    | logoutRevoke raw record =>
      rw [hc] at hstep hdraw hrefused
      cases hstep
      cases hf : io.failed with
      | true =>
        simp only [AuthIo.run, hf, if_true]
        exact hrefused _ rfl rfl
      | false =>
        simp only [AuthIo.run, hf, Bool.false_eq_true, if_false]
        rw [hdraw rfl]
        exact .loggedOut hc

end Steps

end JobScheduler
