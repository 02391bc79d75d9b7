import BajaValle.Credentials
import BajaValle.Families
import BajaValle.Serial

/-!
# A login run alone

What one login does to the row of its account, from the read of the row to the
last write, when no other request runs in between and no call fails.
-/

namespace BajaValle

open CallPrograms Prog AuthService SessionsService

/-- What the comparison of a password with a stored hash says, if argon2 takes
its parameters. -/
def PasswordService.verdict (env : Env) (storedHash password : String) : Option Bool :=
  match parse storedHash with
  | none => some false
  | some parsed => (env.argon2id password parsed.salt parsed.params).map (· = parsed.hash)

lemma PasswordService.verdict_true {env : Env} {storedHash password : String} :
    verdict env storedHash password = some true ↔ Matches env storedHash password := by
  unfold verdict Matches
  cases parse storedHash with
  | none => simp
  | some parsed => simp

/-- argon2 takes the parameters of the service. -/
def Argon2Works (env : Env) : Prop :=
  ∀ message nonce, nonce.length = PasswordService.SALT_BYTES →
    env.argon2id message nonce PasswordService.PARAMS ≠ none

/-- The row of an account: the one its email finds, with a profile that can be
deciphered. The digests of all sessions are of tokens drawn before. -/
structure Account (env : Env) (emailHash : String) (w : World) (u : User) : Prop where
  byEmail : w.users.find? (·.emailHash = emailHash) = some u
  byId : w.users.find? (·.id = u.id) = some u
  profile : ∃ p, UsersService.toProfile env u = .ok p
  tokens : ∀ s ∈ w.sessions, ∃ bytes ∈ w.draws, bytes.length = TOKEN_BYTES ∧
    s.tokenHash = hashToken env (tokenText bytes)

section Account
variable {env : Env} {emailHash : String} {w w' : World} {u : User}

lemma Account.still (account : Account env emailHash w u) (still : Still w w') :
    Account env emailHash w' u where
  byEmail := still.users ▸ account.byEmail
  byId := still.users ▸ account.byId
  profile := account.profile
  tokens s hs := by
    obtain ⟨bytes, drawn, length, hash⟩ := account.tokens s (still.sessions ▸ hs)
    exact ⟨bytes, still.draws drawn, length, hash⟩

/-- A profile can be deciphered whatever the other columns hold. -/
lemma profile_congr {v : User} (email : v.emailEnc = u.emailEnc)
    (firstName : v.firstNameEnc = u.firstNameEnc) (lastName : v.lastNameEnc = u.lastNameEnc)
    (profile : ∃ p, UsersService.toProfile env u = .ok p) :
    ∃ p, UsersService.toProfile env v = .ok p := by
  obtain ⟨p, hp⟩ := profile
  obtain ⟨x, y, z, hx, hy, hz, _⟩ := UsersService.toProfile_eq_ok.mp hp
  rw [← email] at hx
  rw [← firstName] at hy
  rw [← lastName] at hz
  exact ⟨_, UsersService.toProfile_eq_ok.mpr ⟨x, y, z, hx, hy, hz, rfl⟩⟩

lemma find?_updated {c : UserChanges} {id : Uuid} {now : Nat} {users : List User}
    {p : User → Bool} (alike : ∀ v, p (c.apply now v) = p v) :
    (users.map fun v => if v.id = id then c.apply now v else v).find? p =
      (users.find? p).map fun v => if v.id = id then c.apply now v else v := by
  rw [List.find?_map]
  congr 2
  funext v
  simp only [Function.comp_apply]
  split
  · exact alike v
  · rfl

/-- An update of columns of a login changes the row of the account only so. -/
lemma Account.updated {c : UserChanges} {ch : Choice} {r : Except PrismaError User}
    (account : Account env emailHash w u) (healthy : Healthy False ch)
    (hash : c.emailHash = none)
    (names : c.emailEnc = none ∧ c.firstNameEnc = none ∧ c.lastNameEnc = none)
    (answered : exec env ch (.userUpdate u.id c) w = some (r, w')) :
    r = .ok (c.apply ch.now u) ∧ Account env emailHash w' (c.apply ch.now u) := by
  obtain ⟨email, firstName, lastName⟩ := names
  have sessions : w'.sessions.Sublist w.sessions := by
    cases exec_sessions answered with
    | kept rows => exact rows
  cases exec_userUpdate answered with
  | failed fails => exact (healthy fails).elim
  | missing _ absent =>
    rw [account.byId] at absent
    cases absent
  | taken _ _ _ _ changes =>
    rw [hash] at changes
    cases changes
  | updated _ v found _ users =>
    obtain rfl := Option.some.inj (account.byId.symm.trans found)
    refine ⟨rfl, ?_, ?_, ?_, ?_⟩
    · rw [users, find?_updated (by simp [hash]), account.byEmail]
      simp
    · rw [users, find?_updated (by simp), UserChanges.apply_id, account.byId]
      simp
    · exact profile_congr (by simp [email]) (by simp [firstName]) (by simp [lastName])
        account.profile
    · intro s hs
      obtain ⟨bytes, drawn, length, digest⟩ := account.tokens s (sessions.subset hs)
      exact ⟨bytes, (exec_spends answered).draws drawn, length, digest⟩

/-- A token just drawn can be stored. -/
lemma Account.inserted {ch : Choice} {d : NewSession} {r : Except PrismaError Session}
    {bytes : Bytes} (account : Account env emailHash w u) (healthy : Healthy False ch)
    (owner : d.userId = u.id) (length : bytes.length = TOKEN_BYTES) (drawn : bytes ∈ w.draws)
    (digest : d.tokenHash = hashToken env (tokenText bytes))
    (fresh : ∀ s ∈ w.sessions, s.tokenHash ≠ d.tokenHash)
    (answered : exec env ch (.sessionCreate d) w = some (r, w')) :
    (∃ s, r = .ok s) ∧ Account env emailHash w' u := by
  cases exec_sessionCreate answered with
  | failed fails => exact (healthy fails).elim
  | taken s mem same => exact absurd same (fresh s mem)
  | orphan absent =>
    exact absurd owner.symm (absent u (List.mem_of_find?_eq_some account.byId))
  | inserted users sessions =>
    refine ⟨⟨_, rfl⟩, users ▸ account.byEmail, users ▸ account.byId, account.profile, ?_⟩
    intro s hs
    rw [sessions] at hs
    rcases List.mem_append.mp hs with old | new
    · obtain ⟨bytes, drawn, length, digest⟩ := account.tokens s old
      exact ⟨bytes, (exec_spends answered).draws drawn, length, digest⟩
    · obtain rfl := List.mem_singleton.mp new
      exact ⟨bytes, (exec_spends answered).draws drawn, length, digest⟩

end Account

/-- Calls that neither check a lock nor use the hash kept for unknown users. -/
def Unblocked : Op → Prop
  | .now | .dummyStart => False
  | _ => True

lemma Derives.unblocked {op : Op} (derives : Derives op) : Unblocked op := by
  cases op <;> trivial

lemma LoginWrites.unblocked {op : Op} (writes : LoginWrites op) : Unblocked op := by
  cases op <;> trivial

lemma verify_unblocked (storedHash password : String) :
    (PasswordService.verify storedHash password).Uses Unblocked :=
  (verify_derives storedHash password).mono fun _ => Derives.unblocked

lemma registerFailedLogin_unblocked (userId : Uuid) :
    (registerFailedLogin userId).Uses Unblocked :=
  (registerFailedLogin_writes userId).mono fun _ => LoginWrites.unblocked

lemma acceptLogin_unblocked (env : Env) (user : User) (password : String)
    (userAgent : Option String) : (acceptLogin env user password userAgent).Uses Unblocked :=
  (acceptLogin_writes env user password userAgent).mono fun _ => LoginWrites.unblocked

section Parts
variable {env : Env} {emailHash password : String} {w : World} {u : User} {h : List OwnCall}

/-- The comparison with a stored hash, call by call. -/
def ComparesHash (storedHash password : String) (h : List OwnCall) : Prop :=
  ∀ parsed, PasswordService.parse storedHash = some parsed →
    ∃ r, (⟨.argon2 password parsed.salt parsed.params, r⟩ : OwnCall) ∈ h

lemma verify_alone {storedHash : String} :
    Serial env False (fun _ _ => True) (fun h' out w' => (Still w w' ∧
      ComparesHash storedHash password h' ∧
      out = (PasswordService.verdict env storedHash password).elim (.error .argon2Error) .ok) ∧
      Extends Unblocked h h' ∧ w.clock ≤ w'.clock) h w
      (PasswordService.verify storedHash password) := by
  refine serial_uses (verify_unblocked _ _) ?_
  unfold PasswordService.verify PasswordService.verdict ComparesHash
  cases PasswordService.parse storedHash with
  | none => exact ⟨trivial, .refl w, by simp, rfl⟩
  | some hash =>
    refine meets_bind (meets_bind (serial_perform trivial ?_))
    intro ch r w₁ healthy answered
    obtain rfl := exec_argon2_works healthy answered
    have still : Still w w₁ := (Still.refl w).exec answered trivial
    refine ⟨trivial, ?_, by simp⟩
    rintro _ ⟨⟩
    cases derived : env.argon2id password hash.salt hash.params with
    | none =>
      refine ⟨trivial, by simp, ?_⟩
      rintro _ ⟨⟩
      refine ⟨still, ?_, by simp [derived]⟩
      rintro _ ⟨⟩
      exact ⟨_, List.mem_cons_self⟩
    | some candidate =>
      refine ⟨trivial, ?_, by simp⟩
      rintro _ ⟨⟩
      refine ⟨trivial, still, ?_, ?_⟩
      · rintro _ ⟨⟩
        exact ⟨_, List.mem_cons_self⟩
      · by_cases same : candidate = hash.hash <;> simp [derived, same]

/-- The end of a wrong attempt counts it or, at the limit, locks the account. -/
structure Counted (u u' : User) (ended : Nat) : Prop where
  below : u.failedLoginAttempts + 1 < MAX_FAILED_LOGINS →
    u'.failedLoginAttempts = u.failedLoginAttempts + 1 ∧ u'.lockedUntil = u.lockedUntil
  limit : MAX_FAILED_LOGINS ≤ u.failedLoginAttempts + 1 →
    u'.failedLoginAttempts = 0 ∧ u'.lockedUntil = some (ended + LOCK_MS)

lemma update_alone {c : UserChanges} (account : Account env emailHash w u)
    (hash : c.emailHash = none)
    (names : c.emailEnc = none ∧ c.firstNameEnc = none ∧ c.lastNameEnc = none) :
    Serial env False (fun _ _ => True) (fun _ out w' =>
      out = .ok (c.apply w'.clock u) ∧ Account env emailHash w' (c.apply w'.clock u)) h w
      (await (perform (.userUpdate u.id c))) := by
  have step : ∀ ch r w', Healthy False ch → exec env ch (.userUpdate u.id c) w = some (r, w') →
      r = .ok (c.apply w'.clock u) ∧ Account env emailHash w' (c.apply w'.clock u) := by
    intro ch r w' healthy answered
    rw [(exec_spends answered).clock]
    exact account.updated healthy hash names answered
  refine serial_await (serial_perform (I := fun _ _ => True) trivial ?_)
  intro ch r w' healthy answered
  obtain ⟨rfl, account'⟩ := step ch r w' healthy answered
  refine ⟨trivial, ?_, by simp, by simp⟩
  rintro _ ⟨⟩
  exact ⟨rfl, account'⟩

lemma registerFailedLogin_alone (account : Account env emailHash w u) :
    Serial env False (fun _ _ => True) (fun h' out w' => (out = .ok () ∧
      ∃ u', Account env emailHash w' u' ∧ Counted u u' w'.clock) ∧
      Extends Unblocked h h' ∧ w.clock ≤ w'.clock) h w (registerFailedLogin u.id) := by
  refine serial_uses (registerFailedLogin_unblocked _) ?_
  refine meets_bind (Meets.mono (update_alone account rfl ⟨rfl, rfl, rfl⟩) ?_)
  rintro h₁ _ w₁ _ ⟨rfl, account₁⟩
  refine ⟨?_, by simp⟩
  rintro u₁ ⟨⟩
  by_cases limit : MAX_FAILED_LOGINS ≤ u.failedLoginAttempts + 1
  · simp only [UserChanges.apply_failedLoginAttempts, Option.elim_some, CounterChange.apply, limit,
      if_true]
    refine meets_bind (Meets.mono (update_alone (u := UserChanges.apply _ _ u) account₁ rfl
      ⟨rfl, rfl, rfl⟩) ?_)
    rintro h₂ _ w₂ _ ⟨rfl, account₂⟩
    refine ⟨?_, by simp⟩
    rintro u₂ ⟨⟩
    exact ⟨trivial, rfl, _, account₂, fun below => absurd limit (by omega), fun _ => ⟨rfl, rfl⟩⟩
  · simp only [UserChanges.apply_failedLoginAttempts, Option.elim_some, CounterChange.apply, limit,
      if_false]
    exact ⟨trivial, rfl, _, account₁, fun _ => ⟨rfl, rfl⟩, fun le => absurd le limit⟩

lemma clearFailures_alone (account : Account env emailHash w u) :
    Serial env False (fun _ _ => True) (fun _ out w' => out = .ok () ∧
      ∃ u', Account env emailHash w' u' ∧ u'.id = u.id ∧ u'.failedLoginAttempts = 0 ∧
        u'.lockedUntil = none) h w (clearFailures u) := by
  unfold clearFailures
  split
  · refine meets_bind (Meets.mono (update_alone account rfl ⟨rfl, rfl, rfl⟩) ?_)
    rintro h₁ _ w₁ _ ⟨rfl, account₁⟩
    refine ⟨?_, by simp⟩
    rintro u₁ ⟨⟩
    exact ⟨trivial, rfl, _, account₁, rfl, rfl, rfl⟩
  · rename_i clear
    obtain ⟨zero, unlocked⟩ := not_or.mp clear
    exact ⟨trivial, rfl, u, account, rfl, by omega, by simpa using unlocked⟩

lemma hash_alone (works : Argon2Works env) :
    Serial env False (fun _ _ => True) (fun _ out w' => Still w w' ∧ ∃ hash, out = .ok hash) h w
      (PasswordService.hash password) := by
  refine meets_bind (serial_perform (I := fun _ _ => True) trivial ?_)
  intro ch salt w₁ healthy answered
  have still : Still w w₁ := (Still.refl w).exec answered trivial
  obtain ⟨derived, hderived⟩ := Option.ne_none_iff_exists'.mp
    (works password salt (exec_randomBytes answered))
  refine ⟨trivial, ?_, by simp⟩
  rintro _ ⟨⟩
  refine meets_bind (meets_bind (serial_perform (I := fun _ _ => True) trivial ?_))
  intro ch' r w₂ healthy' answered'
  obtain rfl := exec_argon2_works healthy' answered'
  rw [hderived]
  refine ⟨trivial, ?_, by simp⟩
  rintro _ ⟨⟩
  refine ⟨trivial, ?_, by simp⟩
  rintro _ ⟨⟩
  exact ⟨trivial, still.exec answered' trivial, _, rfl⟩

lemma rehash_alone {v : User} (works : Argon2Works env) (account : Account env emailHash w v)
    (same : v.id = u.id) :
    Serial env False (fun _ _ => True) (fun _ out w' => out = .ok () ∧
      ∃ v', Account env emailHash w' v' ∧ v'.id = u.id ∧
        v'.failedLoginAttempts = v.failedLoginAttempts ∧ v'.lockedUntil = v.lockedUntil) h w
      (rehash u password) := by
  unfold rehash
  split
  · refine meets_bind (Meets.mono (hash_alone works) ?_)
    rintro h₁ _ w₁ _ ⟨still, hash, rfl⟩
    refine ⟨?_, by simp⟩
    rintro _ ⟨⟩
    rw [← same]
    refine meets_bind (Meets.mono (update_alone (account.still still) rfl ⟨rfl, rfl, rfl⟩) ?_)
    rintro h₂ _ w₂ _ ⟨rfl, account₂⟩
    refine ⟨?_, by simp⟩
    rintro _ ⟨⟩
    exact ⟨trivial, rfl, _, account₂, rfl, rfl, rfl⟩
  · exact ⟨trivial, rfl, v, account, same, rfl, rfl⟩

/-- A session can be started for the row that a login has read. -/
lemma startSession_alone {v : User} {userAgent : Option String} (collisionFree : CollisionFree env)
    (account : Account env emailHash w v) (same : v.id = u.id)
    (profile : ∃ p, UsersService.toProfile env u = .ok p) :
    Serial env False (fun _ _ => True) (fun _ out w' => (∃ response, out = .ok response) ∧
      Account env emailHash w' v) h w (startSession env u userAgent) := by
  have creates : Serial env False (fun _ _ => True) (fun _ out w' => (∃ s, out = .ok s) ∧
      Account env emailHash w' v) h w (create env u.id userAgent) := by
    refine meets_bind (serial_perform (I := fun _ _ => True) trivial ?_)
    intro ch familyId w₁ healthy answered
    have still : Still w w₁ := (Still.refl w).exec answered trivial
    refine ⟨trivial, ?_, by simp⟩
    rintro _ ⟨⟩
    refine meets_bind (serial_perform (I := fun _ _ => True) trivial ?_)
    intro ch₁ bytes w₂ healthy₁ answered₁
    have tag : drawnBytes ⟨.randomBytes TOKEN_BYTES, bytes⟩ = some bytes := rfl
    obtain ⟨fresh, drawn⟩ := exec_drawnBytes answered₁ tag
    have length := exec_randomBytes answered₁
    have account₁ := account.still still
    have still₁ := (Still.refl w₁).exec answered₁ trivial
    refine ⟨trivial, ?_, by simp⟩
    rintro _ ⟨⟩
    refine meets_bind (serial_await (serial_perform (I := fun _ _ => True) trivial ?_))
    intro ch₂ r w₃ healthy₂ answered₂
    have digests : ∀ s ∈ w₂.sessions, s.tokenHash ≠ hashToken env (tokenText bytes) := by
      intro s hs taken
      obtain ⟨old, before, length', digest⟩ := account₁.tokens s (still₁.sessions ▸ hs)
      rw [digest] at taken
      have again := collisionFree old bytes length' length
        (Base64.encode_injective base64url taken)
      exact fresh (again ▸ before)
    obtain ⟨⟨s, rfl⟩, account₃⟩ := (account₁.still still₁).inserted healthy₂ same.symm length drawn
      rfl digests answered₂
    refine ⟨trivial, ?_, by simp, by simp⟩
    rintro _ ⟨⟩
    refine ⟨?_, by simp⟩
    rintro _ ⟨⟩
    exact ⟨trivial, ⟨_, rfl⟩, account₃⟩
  refine meets_bind (creates.mono ?_)
  rintro h₁ _ w₁ _ ⟨⟨⟨session, token⟩, rfl⟩, account₁⟩
  refine ⟨?_, by simp⟩
  rintro _ ⟨⟩
  refine meets_bind (meets_bind (serial_perform (I := fun _ _ => True) trivial ?_))
  intro ch accessToken w₂ healthy answered
  refine ⟨trivial, ?_, by simp⟩
  rintro _ ⟨⟩
  refine ⟨trivial, ?_, by simp⟩
  rintro _ ⟨⟩
  obtain ⟨p, hp⟩ := profile
  refine meets_bind (serial_ofExcept trivial ⟨?_, by simp [hp]⟩)
  rintro _ _
  exact ⟨trivial, ⟨_, rfl⟩, account₁.still ((Still.refl w₁).exec answered trivial)⟩

lemma acceptLogin_alone {userAgent : Option String} (collisionFree : CollisionFree env)
    (works : Argon2Works env) (account : Account env emailHash w u) :
    Serial env False (fun _ _ => True) (fun h' out w' => ((∃ response, out = .ok response) ∧
      ∃ u', Account env emailHash w' u' ∧ u'.failedLoginAttempts = 0 ∧ u'.lockedUntil = none) ∧
      Extends Unblocked h h' ∧ w.clock ≤ w'.clock) h w (acceptLogin env u password userAgent) := by
  refine serial_uses (acceptLogin_unblocked _ _ _ _) ?_
  refine meets_bind ((clearFailures_alone account).mono ?_)
  rintro h₁ _ w₁ _ ⟨rfl, v, account₁, same, zero, unlocked⟩
  refine ⟨fun _ _ => ?_, by simp⟩
  refine meets_bind ((rehash_alone works account₁ same).mono ?_)
  rintro h₂ _ w₂ _ ⟨rfl, v', account₂, same', kept, lock⟩
  refine ⟨fun _ _ => ?_, by simp⟩
  refine (startSession_alone collisionFree account₂ same' account.profile).mono ?_
  rintro h₃ out w₃ _ ⟨response, account₃⟩
  exact ⟨response, v', account₃, kept.trans zero, lock.trans unlocked⟩

/-- The salt is of the hash kept for unknown users, drawn now or before. -/
def OfDummy (h : List OwnCall) (salt : Bytes) : Prop :=
  (⟨.randomBytes PasswordService.SALT_BYTES, salt⟩ : OwnCall) ∈ h ∨
    ∃ hash parsed, (⟨.dummyAwait, .ok hash⟩ : OwnCall) ∈ h ∧
      PasswordService.parse hash = some parsed ∧ salt = parsed.salt

/-- Nothing is compared but the hash kept for unknown users. -/
def DummyOnly (h : List OwnCall) : Prop :=
  (∃ r, (⟨.dummyStart, r⟩ : OwnCall) ∈ h) ∧ ∀ message salt params r,
    (⟨.argon2 message salt params, r⟩ : OwnCall) ∈ h → OfDummy h salt

def DummyMay (h : List OwnCall) : Op → Prop
  | .argon2 _ salt _ => OfDummy h salt
  | op => ReadOnly op

lemma OfDummy.later {salt : Bytes} {k : OwnCall} (ofDummy : OfDummy h salt) :
    OfDummy (k :: h) salt := by
  rcases ofDummy with drawn | ⟨hash, parsed, kept, hparsed, same⟩
  · exact .inl (List.mem_cons_of_mem _ drawn)
  · exact .inr ⟨hash, parsed, List.mem_cons_of_mem _ kept, hparsed, same⟩

lemma hash_dummyMay : (PasswordService.hash password).Obeys DummyMay (fun _ _ => True) h := by
  refine perform_bind_obeys trivial fun salt => ?_
  refine obeys_bind (M := fun _ _ => True)
    (perform_bind_obeys (.inl List.mem_cons_self) fun r => ?_)
    fun _ _ _ => trivial
  cases r <;> trivial

lemma verifyAgainstDummy_dummyMay :
    (PasswordService.verifyAgainstDummy password).Obeys DummyMay (fun _ _ => True) h := by
  have starts : PasswordService.startDummy.Obeys DummyMay (fun _ _ => True) h := by
    refine perform_bind_obeys trivial fun first => ?_
    cases first with
    | false => trivial
    | true =>
      refine perform_bind_obeys trivial fun secret => ?_
      exact obeys_bind (obeys_attempt hash_dummyMay) fun _ _ _ =>
        perform_obeys trivial fun _ => trivial
  refine obeys_bind starts fun h₁ _ _ => perform_bind_obeys trivial fun settled => ?_
  cases settled with
  | error e => trivial
  | ok hash =>
    refine obeys_bind (p := PasswordService.verify hash password) (M := fun _ _ => True) ?_
      fun _ _ _ => trivial
    unfold PasswordService.verify
    split
    · trivial
    · rename_i parsed hparsed
      refine obeys_bind (M := fun _ _ => True) (perform_bind_obeys ?_ fun r => ?_)
        fun _ _ _ => trivial
      · exact .inr ⟨hash, parsed, List.mem_cons_self, hparsed, rfl⟩
      · cases r <;> trivial

lemma DummyMay.readOnly {op : Op} (may : DummyMay h op) : ReadOnly op := by
  cases op <;> trivial

lemma DummyOnly.cons {op : Op} (only : DummyOnly h) (may : DummyMay h op) (r : op.Res) :
    DummyOnly (⟨op, r⟩ :: h) := by
  obtain ⟨⟨first, started⟩, salts⟩ := only
  refine ⟨⟨first, List.mem_cons_of_mem _ started⟩, ?_⟩
  intro message salt params r' mem
  rcases List.mem_cons.mp mem with same | mem
  · cases same
    exact OfDummy.later may
  · exact (salts message salt params r' mem).later

lemma refused_alone {e : Failure}
    (before : ∀ message salt params r, (⟨.argon2 message salt params, r⟩ : OwnCall) ∉ h) :
    Serial env False (fun _ _ => True) (fun h' out w' => ((∃ e', out = .error e') ∧ Still w w' ∧
      DummyOnly h') ∧ Extends ReadOnly h h' ∧ w.clock ≤ w'.clock) h w (do
        PasswordService.verifyAgainstDummy password
        (Prog.throw e : Task AuthResponse)) := by
  refine serial_uses (uses_bind (verifyAgainstDummy_uses _) fun _ => uses_throw _) ?_
  have starts : Serial env False (fun _ _ => True) (fun h' _ w' => Still w w' ∧ DummyOnly h') h w
      (PasswordService.verifyAgainstDummy password) := by
    refine ⟨trivial, fun ch r w₁ healthy answered => ?_⟩
    have here : Still w w₁ ∧ DummyOnly (⟨.dummyStart, r⟩ :: h) := by
      refine ⟨(Still.refl w).exec answered trivial, ⟨r, List.mem_cons_self⟩, ?_⟩
      intro message salt params r' mem
      rcases List.mem_cons.mp mem with same | mem
      · cases same
      · exact absurd mem (before message salt params r')
    refine (meets_of_obeys (I := fun h' w' => Still w w' ∧ DummyOnly h')
      (verifyAgainstDummy_dummyMay.2 r) here ?_).ends.mono fun _ _ _ _ => And.left
    rintro h₁ w₁ ch op r w₂ may _ answered ⟨still, only⟩
    exact ⟨still.exec answered may.readOnly, only.cons may r⟩
  refine meets_bind (starts.mono ?_)
  rintro h' out w' _ spared
  exact ⟨fun _ _ => ⟨trivial, ⟨_, rfl⟩, spared⟩, fun _ _ => ⟨⟨_, rfl⟩, spared⟩⟩

/-- The account is not locked when the login checks, and its hash is compared. -/
structure Compares (u : User) (password : String) (h : List OwnCall) : Prop where
  free : ∀ lockedUntil, u.lockedUntil = some lockedUntil →
    ∃ now, (⟨.now, now⟩ : OwnCall) ∈ h ∧ lockedUntil ≤ now
  own : ∀ r, (⟨.dummyStart, r⟩ : OwnCall) ∉ h
  hash : ComparesHash u.passwordHash password h

/-- What a login on an account comes to, from the row `u` to the row `u'`. -/
inductive Served (env : Env) (password : String) (u : User) (h : List OwnCall) (w' : World)
    (u' : User) : Except Failure AuthResponse → Prop where
  | blocked (lockedUntil now : Nat) (locked : u.lockedUntil = some lockedUntil)
      (reads : (⟨.now, now⟩ : OwnCall) ∈ h) (early : now < lockedUntil) (dummy : DummyOnly h)
      (row : u' = u) (e : Failure) : Served env password u h w' u' (.error e)
  | failed (compares : Compares u password h)
      (verdict : PasswordService.verdict env u.passwordHash password = none) (row : u' = u) :
      Served env password u h w' u' (.error .argon2Error)
  | wrong (compares : Compares u password h)
      (verdict : PasswordService.verdict env u.passwordHash password = some false)
      (counted : Counted u u' w'.clock) : Served env password u h w' u' (.error invalidCredentials)
  | accepted (compares : Compares u password h)
      (verdict : PasswordService.verdict env u.passwordHash password = some true)
      (zero : u'.failedLoginAttempts = 0) (unlocked : u'.lockedUntil = none)
      (response : AuthResponse) : Served env password u h w' u' (.ok response)

lemma isLocked_alone :
    Serial env False (fun _ _ => True) (fun h' out w' => Still w w' ∧
      ((u.lockedUntil = none ∧ h' = h ∧ out = .ok false) ∨ ∃ lockedUntil now,
        u.lockedUntil = some lockedUntil ∧ h' = ⟨.now, now⟩ :: h ∧
          out = .ok (decide (now < lockedUntil)))) h w (isLocked u) := by
  unfold isLocked
  split
  · rename_i unlocked
    exact ⟨trivial, .refl w, .inl ⟨unlocked, rfl, rfl⟩⟩
  · rename_i lockedUntil locked
    refine meets_bind (serial_perform (I := fun _ _ => True) trivial ?_)
    intro ch now w₁ healthy answered
    refine ⟨trivial, ?_, by simp⟩
    rintro _ ⟨⟩
    exact ⟨trivial, (Still.refl w).exec answered trivial, .inr ⟨lockedUntil, now, locked, rfl, rfl⟩⟩

/-- The comparison and what follows it, from the calls `h` that check the lock. -/
lemma compared_alone {dto : LoginDto} {userAgent : Option String}
    (collisionFree : CollisionFree env) (works : Argon2Works env)
    (account : Account env emailHash w u)
    (free : ∀ lockedUntil, u.lockedUntil = some lockedUntil →
      ∃ now, (⟨.now, now⟩ : OwnCall) ∈ h ∧ lockedUntil ≤ now)
    (own : ∀ r, (⟨.dummyStart, r⟩ : OwnCall) ∉ h) :
    Serial env False (fun _ _ => True) (fun h' out w' => ∃ u', Account env emailHash w' u' ∧
      Served env dto.password u h' w' u' out) h w (do
        if ← PasswordService.verify u.passwordHash dto.password then
          acceptLogin env u dto.password userAgent
        else
          registerFailedLogin u.id
          Prog.throw invalidCredentials) := by
  have compares : ∀ h₁ h', ComparesHash u.passwordHash dto.password h₁ → Extends Unblocked h h₁ →
      Extends Unblocked h₁ h' → Compares u dto.password h' := by
    intro h₁ h' compared ext ext'
    refine ⟨fun lockedUntil locked => ?_, fun r started => ?_, fun parsed hparsed => ?_⟩
    · obtain ⟨now, mem, past⟩ := free lockedUntil locked
      exact ⟨now, ext'.mem (ext.mem mem), past⟩
    · rcases (ext.trans ext').mem_or started with mem | unblocked
      · exact own r mem
      · exact unblocked
    · obtain ⟨r, mem⟩ := compared parsed hparsed
      exact ⟨r, ext'.mem mem⟩
  refine meets_bind (verify_alone.mono ?_)
  rintro h₁ _ w₁ _ ⟨⟨still, compared, rfl⟩, ext, _⟩
  have account₁ := account.still still
  cases verdict : PasswordService.verdict env u.passwordHash dto.password with
  | none =>
    refine ⟨by simp, ?_⟩
    rintro _ ⟨⟩
    exact ⟨u, account₁, .failed (compares h₁ h₁ compared ext (.refl _ _)) verdict rfl⟩
  | some matched =>
    refine ⟨?_, by simp⟩
    rintro _ ⟨⟩
    cases matched with
    | true =>
      refine (acceptLogin_alone collisionFree works account₁).mono ?_
      rintro h₂ _ w₂ _ ⟨⟨⟨response, rfl⟩, u', account₂, zero, unlocked⟩, ext', _⟩
      exact ⟨u', account₂,
        .accepted (compares h₁ h₂ compared ext ext') verdict zero unlocked response⟩
    | false =>
      refine meets_bind ((registerFailedLogin_alone account₁).mono ?_)
      rintro h₂ _ w₂ _ ⟨⟨rfl, u', account₂, counted⟩, ext', _⟩
      refine ⟨fun _ _ => ?_, by simp⟩
      exact ⟨trivial, u', account₂, .wrong (compares h₁ h₂ compared ext ext') verdict counted⟩

theorem login_alone {dto : LoginDto} {userAgent : Option String}
    (collisionFree : CollisionFree env) (works : Argon2Works env)
    (account : Account env (UsersService.emailHash env dto.email) w u) :
    Serial env False (fun _ _ => True) (fun h' out w' => ∃ u',
      Account env (UsersService.emailHash env dto.email) w' u' ∧
      Served env dto.password u h' w' u' out) [] w (login env dto userAgent) := by
  refine meets_bind (serial_await (serial_perform (I := fun _ _ => True) trivial ?_))
  intro ch r w₁ healthy answered
  obtain ⟨_, ⟨fails, _⟩ | rfl⟩ := exec_userFindByEmailHash answered
  · exact (healthy fails).elim
  have account₁ := account.still ((Still.refl w).exec answered trivial)
  rw [account.byEmail]
  refine ⟨trivial, ?_, by simp, by simp⟩
  rintro _ ⟨⟩
  refine ⟨?_, by simp⟩
  rintro _ ⟨⟩
  refine meets_bind (isLocked_alone.mono ?_)
  rintro h₂ _ w₂ _ ⟨still, ⟨unlocked, rfl, rfl⟩ | ⟨lockedUntil, now, locked, rfl, rfl⟩⟩
  · refine ⟨?_, by simp⟩
    rintro _ ⟨⟩
    refine compared_alone collisionFree works (account₁.still still) ?_ (by simp)
    rw [unlocked]
    simp
  · refine ⟨?_, by simp⟩
    rintro _ ⟨⟩
    by_cases early : now < lockedUntil
    · simp only [early, decide_true, if_true]
      refine (refused_alone (by simp)).mono ?_
      rintro h₃ _ w₃ _ ⟨⟨⟨e, rfl⟩, still', dummy⟩, ext, _⟩
      exact ⟨u, (account₁.still still).still still', .blocked lockedUntil now locked
        (ext.mem List.mem_cons_self) early dummy rfl e⟩
    · simp only [early, decide_false, Bool.false_eq_true, if_false]
      refine compared_alone collisionFree works (account₁.still still) ?_ (by simp)
      intro l hl
      obtain rfl := Option.some.inj (locked.symm.trans hl)
      exact ⟨now, List.mem_cons_self, Nat.le_of_not_lt early⟩

end Parts

end BajaValle
