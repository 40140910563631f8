import JobScheduler.Sessions

namespace JobScheduler
open Relational Transition

/-! ## Accounts that are not given away -/

/-- The tables with one more account: the same rows in the same order beside its own. -/
structure AddsAccount (v : User) (db db' : AuthDb) : Prop where
  mem : v ∈ db'.users.rows
  rest : db'.users.rows.filter (fun u => decide (u.id ≠ v.id)) = db.users.rows
  email : ∀ u ∈ db.users.rows, u.email ≠ v.email
  refreshTokens : db'.refreshTokens = db.refreshTokens

/-- Nothing that the call carries belongs to the account. -/
def AuthCall.Spares (x : Crypto) (v : User) : AuthCall → Prop
  | .registerFind email _ _ | .registerInsert email _ _ => email ≠ v.email
  | .loginFind email password => email = v.email → x.verifies password v.passwordHash = false
  | .loginStore user _ => user.id ≠ v.id
  | .refreshUser _ record => record.userId ≠ v.id
  | _ => True

/-- Nobody registers the email of the account or logs in by its password, and no identifier is drawn twice. -/
def AuthLabel.Spares (x : Crypto) (v : User) : AuthLabel → Prop
  | .begin _ req => req.start.Spares x v
  | .statement _ io => io.id ≠ v.id

/-- Only the tables show the account. -/
structure AuthState.Unnoticed (x : Crypto) (v : User) (s s' : AuthState) : Prop where
  adds : AddsAccount v s.db s'.db
  calls : s'.calls = s.calls
  spares : ∀ c, (s.calls c).Spares x v
  records : ∀ r ∈ s.db.refreshTokens.rows, r.userId ≠ v.id

section Lookups
variable {x : Crypto} {v : User} {db db' : AuthDb} {email password : String} {id : Uuid}

theorem find?_of_filter {α : Type} {l : List α} {p q : α → Bool} (h : ∀ a ∈ l, q a = true → p a = true) :
    (l.filter p).find? q = l.find? q := by
  induction l with
  | nil => rfl
  | cons a l ih =>
    have hrest := ih fun b hb => h b (List.mem_cons_of_mem _ hb)
    cases hq : q a with
    | true => rw [List.filter_cons_of_pos (h a List.mem_cons_self hq), List.find?_cons, List.find?_cons, hq]
    | false =>
      rw [List.filter_cons]
      split
      · rw [List.find?_cons, List.find?_cons, hq, hrest]
      · rw [List.find?_cons, hq, hrest]

theorem AddsAccount.eq_of_id (h : AddsAccount v db db') {u : User} (hu : u ∈ db'.users.rows) (hid : u.id = v.id) :
    u = v :=
  List.inj_on_of_nodup_map db'.users.nodup hu h.mem hid

theorem AddsAccount.ne_id (h : AddsAccount v db db') {u : User} (hu : u ∈ db.users.rows) : u.id ≠ v.id := by
  rw [← h.rest] at hu
  simpa using (List.mem_filter.mp hu).2

theorem AddsAccount.findByEmail (h : AddsAccount v db db') (hne : email ≠ v.email) :
    UserRepository.findByEmail db'.users email = UserRepository.findByEmail db.users email := by
  rw [UserRepository.findByEmail, UserRepository.findByEmail, ← h.rest]
  refine (find?_of_filter fun u hu hemail => ?_).symm
  have hid : u.id ≠ v.id := by
    intro hid
    rw [h.eq_of_id hu hid] at hemail
    exact hne (of_decide_eq_true hemail).symm
  exact decide_eq_true hid

theorem AddsAccount.findByEmail_own (h : AddsAccount v db db') :
    UserRepository.findByEmail db.users v.email = none ∧ UserRepository.findByEmail db'.users v.email = some v := by
  constructor
  · exact List.find?_eq_none.mpr fun u hu hemail => h.email u hu (of_decide_eq_true hemail)
  · cases hfind : UserRepository.findByEmail db'.users v.email with
    | none => exact absurd (decide_eq_true rfl) (List.find?_eq_none.mp hfind v h.mem)
    | some u =>
      have hu := List.mem_of_find?_eq_some hfind
      have hemail : u.email = v.email := by simpa using List.find?_some hfind
      by_cases hid : u.id = v.id
      · rw [h.eq_of_id hu hid]
      · refine absurd hemail (h.email u ?_)
        rw [← h.rest]
        exact List.mem_filter.mpr ⟨hu, decide_eq_true hid⟩

theorem AddsAccount.findById (h : AddsAccount v db db') (hne : id ≠ v.id) :
    db'.users.find? id = db.users.find? id := by
  rw [Table.find?, Table.find?, ← h.rest]
  refine (find?_of_filter fun u _ hid => ?_).symm
  have hu : u.id ≠ v.id := by
    rw [of_decide_eq_true hid]
    exact hne
  exact decide_eq_true hu

/-- A login by a password that is not the account's fails as if there were none. -/
theorem AddsAccount.loginCheck (h : AddsAccount v db db')
    (hs : email = v.email → x.verifies password v.passwordHash = false) (utcNow : Timestamp) :
    AuthService.loginCheck x db'.users utcNow email password =
      AuthService.loginCheck x db.users utcNow email password := by
  by_cases hemail : email = v.email
  · subst hemail
    rw [AuthService.loginCheck, AuthService.loginCheck, h.findByEmail_own.1, h.findByEmail_own.2]
    simp [hs rfl]
  · rw [AuthService.loginCheck, AuthService.loginCheck, h.findByEmail hemail]

theorem AddsAccount.insertToken (h : AddsAccount v db db') {token : RefreshToken} (hne : token.userId ≠ v.id)
    (now : Timestamp) :
    UserRepository.storeRefreshToken db' now token =
      (UserRepository.storeRefreshToken db now token).map fun d => { db' with refreshTokens := d.refreshTokens } := by
  simp only [UserRepository.storeRefreshToken, h.refreshTokens, h.findById hne]
  split
  · rfl
  · split
    · rfl
    · split <;> rfl

theorem AddsAccount.storeRefreshToken (h : AddsAccount v db db') {user : User} (hne : user.id ≠ v.id)
    (io : AuthIo) :
    AuthService.storeRefreshToken x db' io user = (AuthService.storeRefreshToken x db io user).map fun r =>
      (r.1, { db' with refreshTokens := r.2.refreshTokens }) := by
  simp only [AuthService.storeRefreshToken]
  cases x.hash io.raw AuthService.tokenCost io.salt with
  | error e => rfl
  | ok tokenHash =>
    dsimp only
    rw [h.insertToken hne]
    cases UserRepository.storeRefreshToken db io.now
        ⟨io.id, user.id, tokenHash, io.utcNow + AuthService.refreshTokenTtl, false, io.utcNow⟩ with
    | error e => cases hf : io.failed <;> simp [AuthIo.run, hf, Except.map]
    | ok d => cases hf : io.failed <;> simp [AuthIo.run, hf, Except.map]

theorem AddsAccount.create (h : AddsAccount v db db') (hemail : email ≠ v.email) (hid : id ≠ v.id) (now : Timestamp)
    (passwordHash : String) (displayName : Option String) :
    (∃ e, UserRepository.create db.users now id email passwordHash displayName = .error e ∧
        UserRepository.create db'.users now id email passwordHash displayName = .error e) ∨
      ∃ user t t', UserRepository.create db.users now id email passwordHash displayName = .ok (user, t) ∧
        UserRepository.create db'.users now id email passwordHash displayName = .ok (user, t') ∧
        AddsAccount v { db with users := t } { db' with users := t' } := by
  have hany : (db'.users.rows.any fun u => decide (u.email = email)) =
      db.users.rows.any fun u => decide (u.email = email) := by
    rw [← List.isSome_find?, ← List.isSome_find?]
    exact congrArg Option.isSome (h.findByEmail hemail)
  set user : User := ⟨id, email, passwordHash, displayName, true, now, now⟩ with huser
  have hfind : db'.users.find? user.id = db.users.find? user.id := h.findById hid
  simp only [UserRepository.create, hany, ← huser]
  split
  · exact .inl ⟨_, rfl, rfl⟩
  · cases hins : db.users.insert user with
    | none =>
      obtain ⟨u, hu⟩ := (Table.insert_eq_none_iff _ _).mp hins
      have hins' : db'.users.insert user = none := (Table.insert_eq_none_iff _ _).mpr ⟨u, hfind.trans hu⟩
      rw [hins']
      exact .inl ⟨_, rfl, rfl⟩
    | some t =>
      cases hins' : db'.users.insert user with
      | none =>
        obtain ⟨u, hu⟩ := (Table.insert_eq_none_iff _ _).mp hins'
        have hnone : db.users.insert user = none := (Table.insert_eq_none_iff _ _).mpr ⟨u, hfind.symm.trans hu⟩
        rw [hins] at hnone
        cases hnone
      | some t' =>
        refine .inr ⟨user, t, t', rfl, rfl, ?_⟩
        have hrows := (Table.rows_insert hins).1
        have hrows' := (Table.rows_insert hins').1
        have hother : decide (user.id ≠ v.id) = true := decide_eq_true hid
        refine ⟨?_, ?_, ?_, h.refreshTokens⟩
        · rw [hrows']
          exact List.mem_append_left _ h.mem
        · rw [hrows', hrows, List.filter_append, h.rest, List.filter_cons, if_pos hother, List.filter_nil]
        · rw [hrows]
          intro u hu
          rcases List.mem_append.mp hu with hu | hu
          · exact h.email u hu
          · rw [List.mem_singleton.mp hu]
            exact hemail

end Lookups

section Steps
variable {x : Crypto} {v : User} {db db' : AuthDb} {s s' s₁ : AuthState} {l : AuthLabel} {call : AuthCall}
  {io : AuthIo}

theorem AddsAccount.withTokens (h : AddsAccount v db db') (t : Table RefreshToken.id) :
    AddsAccount v { db with refreshTokens := t } { db' with refreshTokens := t } :=
  ⟨h.mem, h.rest, h.email, rfl⟩

/-- A statement of a call that carries nothing of the account answers the same with and without it. -/
theorem AddsAccount.step (h : AddsAccount v db db') (hs : call.Spares x v) (hid : io.id ≠ v.id) :
    (call.step x db io = none ∧ call.step x db' io = none) ∨
      ∃ d d' call', call.step x db io = some (d, call') ∧ call.step x db' io = some (d', call') ∧
        AddsAccount v d d' := by
  cases call with
  | idle | answered _ => exact .inl ⟨rfl, rfl⟩
  | registerFind email password displayName =>
    refine .inr ⟨db, db', _, rfl, ?_, h⟩
    simp only [AuthCall.step, AuthService.registerHash, h.findByEmail hs]
  | registerInsert email passwordHash displayName =>
    right
    rcases h.create hs hid io.now passwordHash displayName with ⟨e, hc, hc'⟩ | ⟨user, t, t', hc, hc', hadds⟩
    · simp only [AuthCall.step, hc, hc']
      exact ⟨db, db', _, rfl, rfl, h⟩
    · simp only [AuthCall.step, hc, hc']
      refine ⟨_, _, _, rfl, rfl, ?_⟩
      split
      · exact h
      · exact hadds
  | loginFind email password =>
    refine .inr ⟨db, db', _, rfl, ?_, h⟩
    simp only [AuthCall.step, h.loginCheck hs]
  | loginStore user accessToken =>
    right
    have hstore := h.storeRefreshToken (x := x) hs io
    cases hres : AuthService.storeRefreshToken x db io user with
    | error e =>
      rw [hres] at hstore
      simp only [AuthCall.step, hres, hstore, Except.map]
      exact ⟨db, db', _, rfl, rfl, h⟩
    | ok r =>
      obtain ⟨raw, d⟩ := r
      rw [hres] at hstore
      obtain ⟨-, _, t, _, _, rfl⟩ := storeRefreshToken_eq_ok hres
      simp only [AuthCall.step, hres, hstore, Except.map]
      exact ⟨_, _, _, rfl, rfl, h.withTokens t⟩
  | refreshScan raw =>
    simp only [AuthCall.step, h.refreshTokens]
    split
    · exact .inr ⟨db, db', _, rfl, rfl, h⟩
    · exact .inl ⟨rfl, rfl⟩
  | refreshUser raw record =>
    refine .inr ⟨db, db', _, rfl, ?_, h⟩
    simp only [AuthCall.step, AuthService.refreshUser, UserRepository.findById, h.findById hs]
  | logoutScan raw =>
    simp only [AuthCall.step, h.refreshTokens]
    split
    · exact .inr ⟨db, db', _, rfl, rfl, h⟩
    · exact .inl ⟨rfl, rfl⟩
  | logoutRevoke raw record =>
    refine .inr ⟨_, _, _, rfl, rfl, ?_⟩
    rw [h.refreshTokens]
    split
    · exact h
    · exact h.withTokens _

theorem spares_next (h : s.Unnoticed x v s') (hl : l.Spares x v) (hn : s.next x l = some s₁) :
    (∀ c, (s₁.calls c).Spares x v) ∧ ∀ r ∈ s₁.db.refreshTokens.rows, r.userId ≠ v.id := by
  have hset {c : ℕ} {call : AuthCall} (hcall : call.Spares x v) (c' : ℕ) :
      (Function.update s.calls c call c').Spares x v := by
    rw [Function.update_apply]
    split
    · exact hcall
    · exact h.spares c'
  cases auth_step hn with
  | begun _ => exact ⟨hset hl, h.records⟩
  | refused _ _ => exact ⟨hset trivial, h.records⟩
  | @hashed c _ _ _ _ _ hc =>
    have hs := h.spares c
    rw [hc] at hs
    exact ⟨hset hs, h.records⟩
  | registered _ _ => exact ⟨hset trivial, h.records⟩
  | found _ hu => exact ⟨hset (h.adds.ne_id (Table.mem_of_find? hu)), h.records⟩
  | @stored c _ _ _ _ _ hc _ hi =>
    have hs := h.spares c
    rw [hc] at hs
    refine ⟨hset trivial, fun r hr => ?_⟩
    rw [(Table.rows_insert hi).1] at hr
    rcases List.mem_append.mp hr with hr | hr
    · exact h.records r hr
    · rw [List.mem_singleton.mp hr]
      exact hs
  | read _ hr _ => exact ⟨hset (h.records _ (List.mem_filter.mp hr).1), h.records⟩
  | refreshed _ _ => exact ⟨hset trivial, h.records⟩
  | matched _ _ _ => exact ⟨hset trivial, h.records⟩
  | loggedOut _ =>
    refine ⟨hset trivial, fun r hr => ?_⟩
    obtain ⟨r₀, hr₀, rfl⟩ := List.mem_map.mp hr
    split
    · exact h.records r₀ hr₀
    · exact h.records r₀ hr₀

/-- Every step can be taken with the account if it can without, and leads to the same calls. -/
theorem AuthState.Unnoticed.next (h : s.Unnoticed x v s') (hl : l.Spares x v) :
    (s.next x l = none ∧ s'.next x l = none) ∨
      ∃ t t', s.next x l = some t ∧ s'.next x l = some t' ∧ t.Unnoticed x v t' := by
  suffices hsuffices : (s.next x l = none ∧ s'.next x l = none) ∨
      ∃ t t', s.next x l = some t ∧ s'.next x l = some t' ∧ AddsAccount v t.db t'.db ∧ t'.calls = t.calls by
    rcases hsuffices with hnone | ⟨t, t', ht, ht', hadds, hcalls⟩
    · exact .inl hnone
    · obtain ⟨hspares, hrecords⟩ := spares_next h hl ht
      exact .inr ⟨t, t', ht, ht', hadds, hcalls, hspares, hrecords⟩
  cases l with
  | begin c req =>
    simp only [AuthState.next, h.calls]
    split
    · refine .inr ⟨_, _, rfl, rfl, h.adds, ?_⟩
      exact congrArg (fun calls => Function.update calls c req.start) h.calls
    · exact .inl ⟨rfl, rfl⟩
  | statement c io =>
    simp only [AuthState.next, h.calls]
    rcases h.adds.step (h.spares c) hl with ⟨hnone, hnone'⟩ | ⟨d, d', call, hd, hd', hadds⟩
    · rw [hnone, hnone']
      exact .inl ⟨rfl, rfl⟩
    · rw [hd, hd']
      exact .inr ⟨_, _, rfl, rfl, hadds, rfl⟩

theorem exec_unnoticed {ls : List AuthLabel} (hls : ∀ l ∈ ls, l.Spares x v) {h h' : List (AuthState × AuthLabel)}
    (hu : s.Unnoticed x v s') :
    (exec (authService x) h s ls).map (fun e => e.2.calls) =
      (exec (authService x) h' s' ls).map fun e => e.2.calls := by
  induction ls generalizing h h' s s' with
  | nil => exact congrArg some hu.calls.symm
  | cons l ls ih =>
    simp only [exec]
    rcases hu.next (hls l List.mem_cons_self) with ⟨hnone, hnone'⟩ | ⟨t, t', ht, ht', hrest⟩
    · rw [show (authService x).next s l = none from hnone, show (authService x).next s' l = none from hnone']
      rfl
    · rw [show (authService x).next s l = some t from ht, show (authService x).next s' l = some t' from ht']
      exact ih (fun l hl => hls l (List.mem_cons_of_mem _ hl)) hrest

/-- Whether there is an account cannot be told from the answers of logins, refreshes, logouts and the
registrations of others, in whatever order their statements are made: they are the same with the account and
without it, as long as nobody logs in by its password. -/
theorem account_not_given_away (hi : s.Initial) (hi' : s'.Initial) (hadds : AddsAccount v s.db s'.db)
    (ls : List AuthLabel) (hls : ∀ l ∈ ls, l.Spares x v) :
    (exec (authService x) [] s ls).map (fun e => e.2.calls) =
      (exec (authService x) [] s' ls).map fun e => e.2.calls := by
  apply exec_unnoticed hls
  refine ⟨hadds, ?_, fun c => ?_, fun r hr => ?_⟩
  · funext c
    rw [hi.calls c, hi'.calls c]
  · rw [hi.calls c]
    trivial
  · rw [hi.refreshTokens] at hr
    cases hr

end Steps

namespace Sample

theorem adds_user : AddsAccount user authState.db oneUser.db where
  mem := List.mem_singleton_self _
  rest := by decide
  email _ hu := nomatch hu
  refreshTokens := rfl

def guessing : List AuthLabel :=
  [.begin 0 (.login "a@b.c" "guess"), .begin 1 (.register "d@b.c" "other" none), .statement 0 (authIo 1 0 "" []),
    .statement 1 (authIo 2 0 "" []), .statement 1 (authIo 3 41 "" []), .begin 2 (.login "d@b.c" "other"),
    .statement 2 (authIo 4 0 "" []), .statement 2 (authIo 5 50 "t" [])]

theorem guessing_spares : ∀ l ∈ guessing, l.Spares crypto user := by
  simp [guessing, AuthLabel.Spares, AuthRequest.start, AuthCall.Spares, Crypto.verifies, crypto, user, authIo]

end Sample

theorem account_not_given_away_sample :
    (exec (authService Sample.crypto) [] Sample.oneUser Sample.guessing).isSome = true ∧
      (exec (authService Sample.crypto) [] Sample.authState Sample.guessing).map (fun e => e.2.calls) =
        (exec (authService Sample.crypto) [] Sample.oneUser Sample.guessing).map fun e => e.2.calls :=
  ⟨by decide, account_not_given_away Sample.authState_initial Sample.oneUser_initial Sample.adds_user
    Sample.guessing Sample.guessing_spares⟩

end JobScheduler
