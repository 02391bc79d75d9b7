import BajaValle.Credentials
import BajaValle.Families
import BajaValle.Admission
import BajaValle.Serial

/-!
# Where sessions come from

A session is legitimate when a chain of rotations, each by whoever held the
token of the session before, leads back to one that a registration started for
the account it created or a login started for the account whose password it
proved. Starting from no sessions, no other session is ever stored, so no guard
admits anyone else.
-/

namespace BajaValle

open CallPrograms Prog Interleaving SessionsService

/-- The account that a registration created. -/
def Registered (env : Env) (dto : RegisterDto) (h : List OwnCall) (userId : Uuid) : Prop :=
  ∃ d u, (⟨.userCreate d, .ok u⟩ : OwnCall) ∈ h ∧
    d.emailHash = UsersService.emailHash env dto.email ∧ u.id = userId

/-- A clock read by the request was past the lock of the row. -/
def Unlocked (h : List OwnCall) (v : User) : Prop :=
  ∀ lockedUntil, v.lockedUntil = some lockedUntil →
    ∃ now, (⟨.now, now⟩ : OwnCall) ∈ h ∧ lockedUntil ≤ now

/-- The row that a login found and whose password it compared with success. -/
def LoggedIn (env : Env) (req : Request) (dto : LoginDto) (h : List OwnCall) (v : User) : Prop :=
  (⟨.userFindByEmailHash (UsersService.emailHash env dto.email), .ok (some v)⟩ : OwnCall) ∈ h ∧
    Unlocked h v ∧ Compared req h v

/-- The calls of the request entitle it to start a family of this user. -/
def Entitled (env : Env) (req : Request) (h : List OwnCall) (userId : Uuid) : Prop :=
  match req.handler with
  | .register dto => Registered env dto h userId
  | .login dto => ∃ v, LoggedIn env req dto h v ∧ v.id = userId
  | _ => False

def Starts (env : Env) (req : Request) (h : List OwnCall) : Op → Prop
  | .sessionCreate d => Entitled env req h d.userId ∨ ∃ token, req.handler = .refresh token
  | _ => True

/-- Derivations of sessions from credentials. -/
inductive Legitimate (env : Env) (reqs : Nat → Request) (history : List ServerEvent) :
    Session → Prop where
  | started {i : Nat} {s : Session} (inserts : Inserts history i s)
      (entitled : Entitled env (reqs i) (own i history) s.userId)
      (drawn : (⟨.randomUUID, s.familyId⟩ : OwnCall) ∈ own i history) :
      Legitimate env reqs history s
  | rotated {i : Nat} {old s : Session} (parent : Legitimate env reqs history old)
      (rotates : Rotates env reqs history i old s) (user : s.userId = old.userId)
      (family : s.familyId = old.familyId) : Legitimate env reqs history s

section Rule
variable {env : Env} {req : Request} {h h' : List OwnCall} {v : User} {userId : Uuid}

lemma Compared.mono (compared : Compared req h v) (sub : h ⊆ h') : Compared req h' v := by
  obtain ⟨password, parsed, hp, hparse, mem⟩ := compared
  exact ⟨password, parsed, hp, hparse, sub mem⟩

lemma LoggedIn.mono {dto : LoginDto} (logged : LoggedIn env req dto h v) (sub : h ⊆ h') :
    LoggedIn env req dto h' v := by
  obtain ⟨found, unlocked, compared⟩ := logged
  refine ⟨sub found, fun lockedUntil locked => ?_, compared.mono sub⟩
  obtain ⟨now, mem, past⟩ := unlocked lockedUntil locked
  exact ⟨now, sub mem, past⟩

lemma Entitled.mono (entitled : Entitled env req h userId) (sub : h ⊆ h') :
    Entitled env req h' userId := by
  unfold Entitled at entitled ⊢
  split at entitled
  · obtain ⟨d, u, mem, email, id⟩ := entitled
    exact ⟨d, u, sub mem, email, id⟩
  · obtain ⟨v, logged, id⟩ := entitled
    exact ⟨v, logged.mono sub, id⟩
  · exact entitled

lemma starts_of_not_insert {op : Op} (leaves : ¬ IsInsert op) : Starts env req h op := by
  cases op <;> first | trivial | exact absurd trivial leaves

/-- A part without insertions, followed by the rest. -/
lemma silent_bind {α β : Type} {p : Task α} {f : α → Task β} {post : List OwnCall → β → Prop}
    (uses : p.Uses fun op => ¬ IsInsert op)
    (rest : ∀ h' a, h ⊆ h' → (f a).Obeys (Starts env req) post h') :
    (p >>= f).Obeys (Starts env req) post h :=
  obeys_bind (uses_obeys uses fun _ _ _ leaves => starts_of_not_insert leaves)
    fun h' a ext => rest h' a fun _ mem => ext.mem mem

lemma silent_starts {α : Type} {p : Task α} (uses : p.Uses fun op => ¬ IsInsert op) :
    p.Obeys (Starts env req) Anything h :=
  (uses_obeys uses fun _ _ _ leaves => starts_of_not_insert leaves).mono (fun _ _ hk => hk)
    fun _ _ _ => trivial

lemma harmless_silent {α : Type} {p : Task α} (uses : p.Uses Harmless) :
    p.Uses fun op => ¬ IsInsert op :=
  uses.mono fun _ => Harmless.not_isInsert

lemma readOnly_silent {α : Type} {p : Task α} (uses : p.Uses ReadOnly) :
    p.Uses fun op => ¬ IsInsert op :=
  harmless_silent (uses.mono fun _ => ReadOnly.harmless)

lemma revocation_silent (filter : SessionWhere) :
    (do
      let _ ← await (perform (revocation filter))
      return () : Task Unit).Uses fun op => ¬ IsInsert op :=
  uses_bind (await_uses (perform_uses id)) fun _ => uses_ret _

lemma startSession_starts {user : User} {userAgent : Option String}
    (entitled : Entitled env req h user.id) :
    (AuthService.startSession env user userAgent).Obeys (Starts env req) Anything h := by
  have inserts : (create env user.id userAgent).Obeys (Starts env req) Anything h := by
    refine perform_bind_obeys trivial fun familyId => perform_bind_obeys trivial fun bytes => ?_
    refine await_bind_obeys (M := Anything) (perform_obeys (.inl (entitled.mono ?_))
      fun _ => trivial) fun _ _ _ => trivial
    intro k hk
    exact List.mem_cons_of_mem _ (List.mem_cons_of_mem _ hk)
  refine obeys_bind inserts ?_
  rintro h' ⟨session, token⟩ _
  exact silent_starts (readOnly_silent (uses_bind (issueTokens_uses env _ _ _ _) fun _ =>
    uses_bind (ofExcept_uses _) fun _ => uses_ret _))

/-- A registration is entitled by the account that it created. -/
lemma create_entitles {dto : RegisterDto} {passwordHash : String}
    (isRegister : req.handler = .register dto) :
    (UsersService.create env dto.email dto.firstName dto.lastName passwordHash none).Obeys
      (Starts env req) (fun h' u => Entitled env req h' u.id) h := by
  rw [UsersService.create_eq]
  refine silent_bind (readOnly_silent (encryptFresh_uses env _ _)) fun h₁ emailEnc _ => ?_
  refine silent_bind (readOnly_silent (encryptFresh_uses env _ _)) fun h₂ firstNameEnc _ => ?_
  refine silent_bind (readOnly_silent (encryptFresh_uses env _ _)) fun h₃ lastNameEnc _ => ?_
  refine perform_bind_obeys trivial fun r => ?_
  cases r with
  | ok u =>
    simp only [Entitled, isRegister]
    exact ⟨_, u, List.mem_cons_self, rfl, rfl⟩
  | error e => cases e <;> trivial

lemma register_starts {dto : RegisterDto} {userAgent : Option String}
    (isRegister : req.handler = .register dto) :
    (AuthService.register env dto userAgent).Obeys (Starts env req) Anything h :=
  silent_bind (ofExcept_uses _) fun _ _ _ => silent_bind (readOnly_silent (hash_uses _))
    fun _ _ _ => obeys_bind (create_entitles isRegister) fun _ _ entitled =>
      startSession_starts entitled

lemma isLocked_unlocks :
    (AuthService.isLocked v).Obeys (Starts env req)
      (fun h' locked => h ⊆ h' ∧ (locked = false → Unlocked h' v)) h := by
  unfold AuthService.isLocked
  split
  · rename_i never
    refine ⟨fun _ hk => hk, fun _ lockedUntil locked => ?_⟩
    rw [never] at locked
    cases locked
  · rename_i lockedUntil hlock
    refine perform_bind_obeys trivial fun now => ?_
    refine ⟨List.subset_cons_self _ _, fun past lockedUntil' locked => ?_⟩
    obtain rfl := Option.some.inj (hlock.symm.trans locked)
    exact ⟨now, List.mem_cons_self, by simpa using past⟩

lemma verify_proves {password : String} (hp : req.handler.password = some password) :
    (PasswordService.verify v.passwordHash password).Obeys (Starts env req)
      (fun h' matched => h ⊆ h' ∧ (matched = true → Compared req h' v)) h := by
  unfold PasswordService.verify
  split
  · exact ⟨fun _ hk => hk, by simp⟩
  · rename_i parsed hparse
    unfold PasswordService.derive
    simp only [bind_assoc]
    refine perform_bind_obeys trivial fun derived => ?_
    cases derived with
    | error e => trivial
    | ok candidate =>
      refine ⟨List.subset_cons_self _ _, fun matched => ?_⟩
      obtain ⟨_, rfl⟩ : candidate.length = parsed.hash.length ∧ candidate = parsed.hash := by
        simpa using matched
      exact ⟨password, parsed, hp, hparse, List.mem_cons_self⟩

lemma login_starts {dto : LoginDto} {userAgent : Option String}
    (isLogin : req.handler = .login dto) :
    (AuthService.login env dto userAgent).Obeys (Starts env req) Anything h := by
  have dummy : ∀ h', ((do
      PasswordService.verifyAgainstDummy dto.password
      Prog.throw AuthService.invalidCredentials : Task AuthResponse)).Obeys (Starts env req)
        Anything h' := fun h' =>
    silent_bind (readOnly_silent (verifyAgainstDummy_uses _)) fun _ _ _ => trivial
  refine await_bind_obeys (M := fun h' r => h' = ⟨.userFindByEmailHash
    (UsersService.emailHash env dto.email), r⟩ :: h) (perform_obeys trivial fun _ => rfl) ?_
  rintro h₁ (_ | v) rfl
  · exact dummy _
  refine obeys_bind isLocked_unlocks ?_
  rintro h₂ (_ | _) ⟨sub₂, unlocked⟩
  · refine obeys_bind (verify_proves (v := v) (by rw [isLogin]; rfl)) ?_
    rintro h₃ (_ | _) ⟨sub₃, compared⟩
    · exact silent_bind (harmless_silent (registerFailedLogin_uses _)) fun _ _ _ => trivial
    · have entitled : Entitled env req h₃ v.id := by
        simp only [Entitled, isLogin]
        refine ⟨v, ⟨sub₃ (sub₂ List.mem_cons_self), fun lockedUntil locked => ?_, compared rfl⟩,
          rfl⟩
        obtain ⟨now, mem, past⟩ := unlocked rfl lockedUntil locked
        exact ⟨now, sub₃ mem, past⟩
      exact silent_bind (harmless_silent (clearFailures_uses v)) fun _ _ cleared =>
        silent_bind (harmless_silent (rehash_uses v dto.password)) fun _ _ rehashed =>
          startSession_starts (entitled.mono fun _ hk => rehashed (cleared hk))
  · exact dummy _

end Rule

/-- Only registrations, logins and refreshes insert sessions, and the first two
only for the user that they are entitled to. -/
theorem serve_starts (env : Env) (req : Request) :
    (serve env req).Obeys (Starts env req) Anything [] := by
  refine silent_bind (readOnly_silent ((guards_uses _ _).mono fun _ => GuardOp.readOnly))
    fun h user _ => ?_
  have each : ∀ {run : AuthUser → Task Answer},
      (∀ au, (run au).Uses fun op => ¬ IsInsert op) →
      (withUser user run).Obeys (Starts env req) Anything h := by
    intro run silent
    cases user with
    | none => trivial
    | some au => exact silent_starts (silent au)
  have mapped : ∀ {α : Type} {p : Task α} {f : α → Answer}, (p.Uses fun op => ¬ IsInsert op) →
      (f <$> p : Task Answer).Uses fun op => ¬ IsInsert op := fun uses =>
    uses_bind uses fun _ => uses_ret _
  unfold handle
  cases hreq : req.handler with
  | register dto => exact obeys_bind (register_starts hreq) fun _ _ _ => trivial
  | login dto => exact obeys_bind (login_starts hreq) fun _ _ _ => trivial
  | refresh token =>
    refine Obeys.mono (uses_anywhere (uses_true _) h) (fun h op _ => ?_) fun _ _ _ => trivial
    cases op <;> first | trivial | exact .inr ⟨token, hreq⟩
  | logout => exact each fun _ => mapped (revocation_silent _)
  | logoutAll => exact each fun _ => mapped (revocation_silent _)
  | me => exact each fun _ => uses_ret _
  | getProfile =>
    refine each fun _ => mapped (uses_bind (readOnly_silent (findById_uses _)) fun found => ?_)
    cases found with
    | none => exact uses_throw _
    | some stored => exact ofExcept_uses _
  | updateProfile names =>
    refine each fun _ => mapped ?_
    unfold ProfileController.update
    split
    · exact uses_throw _
    · exact uses_bind (harmless_silent (updateName_uses env _ _)) fun _ => ofExcept_uses _
  | changeEmail newEmail currentPassword =>
    exact each fun _ => mapped (uses_bind (readOnly_silent (verifyCurrentPassword_uses _ _))
      fun _ => uses_bind (harmless_silent (updateEmail_uses env _ _)) fun _ => ofExcept_uses _)
  | changePassword newPassword currentPassword =>
    exact each fun _ => mapped (uses_bind (readOnly_silent (verifyCurrentPassword_uses _ _))
      fun _ => uses_bind (ofExcept_uses _) fun _ => uses_bind (readOnly_silent (hash_uses _))
        fun _ => uses_bind (harmless_silent (updatePasswordHash_uses _ _)) fun _ =>
          revocation_silent _)
  | deleteAccount currentPassword =>
    exact each fun _ => mapped (uses_bind (readOnly_silent (verifyCurrentPassword_uses _ _))
      fun _ => uses_bind (await_uses (perform_uses id)) fun _ => uses_ret _)
  | other route => trivial

/-- A registration that created the account, or a login that found it stored at
some state of the run, unlocked and with a hash that its password matches. -/
def Vouched (env : Env) (reqs : Nat → Request) (w : World) (c : Server) (i : Nat)
    (userId : Uuid) : Prop :=
  (∃ dto, (reqs i).handler = .register dto ∧ Registered env dto (own i c.history) userId) ∨
    ∃ dto c₁, (reqs i).handler = .login dto ∧ Reachable env reqs w c₁ ∧
      Leads (exec env) c₁ c ∧ ∃ v ∈ c₁.world.users, v.id = userId ∧
        v.emailHash = UsersService.emailHash env dto.email ∧
        Unlocked (own i c.history) v ∧ PasswordService.Matches env v.passwordHash dto.password

section Runs
variable {env : Env} {reqs : Nat → Request} {w : World} {c : Server}

lemma Legitimate.cons {history : List ServerEvent} {s : Session} (e : ServerEvent)
    (legitimate : Legitimate env reqs history s) : Legitimate env reqs (e :: history) s := by
  induction legitimate with
  | started inserts entitled drawn =>
    exact .started inserts.cons (entitled.mono own_subset_cons) (own_subset_cons drawn)
  | rotated parent rotates user family ih => exact .rotated ih rotates.cons user family

lemma boot_starts (env : Env) (reqs : Nat → Request) (w : World) :
    PoolObeys (fun i => Starts env (reqs i)) (fun _ => Anything) (boot env reqs w) :=
  fun i => serve_starts env (reqs i)

/-- The session that a permitted insertion adds continues a legitimate one or
is the first of an entitled request. -/
lemma Legitimate.inserted {i : Nat} {ch : Choice} {d : NewSession}
    (lin : Lineage env reqs c.world c.history)
    (may : May env (reqs i) (own i c.history) (.sessionCreate d))
    (starts : Starts env (reqs i) (own i c.history) (.sessionCreate d))
    (older : ∀ s ∈ births c.history, Legitimate env reqs c.history s) :
    Legitimate env reqs (⟨i, ch, ⟨.sessionCreate d, .ok (d.row ch.uuid ch.now)⟩⟩ :: c.history)
      (d.row ch.uuid ch.now) := by
  have inserts : Inserts (⟨i, ch, ⟨.sessionCreate d, .ok (d.row ch.uuid ch.now)⟩⟩ :: c.history)
      i (d.row ch.uuid ch.now) := ⟨_, mem_own_cons.mpr (.inl ⟨rfl, rfl⟩), rfl⟩
  obtain ⟨_, _, _, origin⟩ := may
  by_cases isRefresh : ∃ token, (reqs i).handler = .refresh token
  · obtain ⟨token, hreq⟩ := isRefresh
    simp only [Origin, hreq] at origin
    obtain ⟨p, read, claimed, user, family⟩ := origin
    obtain ⟨issued, hash⟩ := lin.read i token p read
    have rotates : Rotates env reqs _ i p.issued (d.row ch.uuid ch.now) :=
      ⟨token, hreq, hash.symm, own_subset_cons claimed, inserts⟩
    exact .rotated ((older _ issued).cons _) rotates user family
  · have entitled := starts.resolve_right isRefresh
    refine .started inserts (entitled.mono own_subset_cons) ?_
    unfold Origin at origin
    split at origin
    · rename_i token hreq
      exact absurd ⟨token, hreq⟩ isRefresh
    · exact own_subset_cons origin

theorem births_legitimate (empty : w.sessions = []) (reach : Reachable env reqs w c) :
    ∀ s ∈ births c.history, Legitimate env reqs c.history s := by
  refine leads_induction (P := fun c => ∀ s ∈ births c.history,
    Legitimate env reqs c.history s) reach (by simp [boot, start, births]) ?_
  intro c c' i ch reached older fired
  obtain ⟨op, next, r, w', head, answered, rfl⟩ := fire_eq_some.mp fired
  have may := leads_poolObeys reached (boot_obeys env reqs w) i
  have starts := leads_poolObeys reached (boot_starts env reqs w) i
  rw [head] at may starts
  intro s hs
  cases exec_sessions answered with
  | kept rows leaves =>
    rw [births_cons_none (born_of_leaves leaves)] at hs
    exact (older s hs).cons _
  | updated filter date rows =>
    rw [births_cons_none rfl] at hs
    exact (older s hs).cons _
  | inserted d rows =>
    rw [births_cons_some (s := d.row ch.uuid ch.now) rfl] at hs
    rcases List.mem_cons.mp hs with rfl | hs
    · exact .inserted (reachable_lineage empty reached) may.1 starts.1 older
    · exact (older s hs).cons _

/-- A session expires its lifetime after the move that inserted it. -/
lemma born_expires (reach : Reachable env reqs w c) {e : ServerEvent} {s : Session}
    (he : e ∈ c.history) (hb : born e.call = some s) :
    s.expiresAt = e.choice.now + ttlMs env := by
  refine leads_world_invariant (I := fun _ history => ∀ e ∈ history, ∀ s,
    born e.call = some s → s.expiresAt = e.choice.now + ttlMs env) reach (boot_obeys env reqs w)
    (by simp [boot, start]) ?_ e he s hb
  intro c i ch op r w' _ older may answered e he s hb
  rcases List.mem_cons.mp he with rfl | he
  · cases exec_sessions answered with
    | kept _ leaves => simp [born_of_leaves leaves] at hb
    | updated => cases hb
    | inserted d =>
      obtain rfl := Option.some.inj hb
      simp [may.2.1]
  · exact older e he s hb

/-- The first session of a family stands on a credential. -/
lemma Legitimate.vouched (reach : Reachable env reqs w c) {s : Session}
    (legitimate : Legitimate env reqs c.history s) :
    ∃ i, Vouched env reqs w c i s.userId ∧
      (⟨.randomUUID, s.familyId⟩ : OwnCall) ∈ own i c.history := by
  induction legitimate with
  | @started i s inserts entitled drawn =>
    refine ⟨i, ?_, drawn⟩
    unfold Entitled at entitled
    split at entitled
    · rename_i dto hreq
      exact .inl ⟨dto, hreq, entitled⟩
    · rename_i dto hreq
      obtain ⟨v, ⟨found, unlocked, compared⟩, id⟩ := entitled
      obtain ⟨password, parsed, hp, hparse, derived⟩ := compared
      rw [hreq] at hp
      obtain rfl := Option.some.inj hp
      obtain ⟨ch, mem⟩ := mem_own.mp found
      obtain ⟨c₁, c₂, before, fired, history, after⟩ := leads_split_new reach mem List.not_mem_nil
      have stored : v ∈ c₁.world.users ∧
          v.emailHash = UsersService.emailHash env dto.email := by
        obtain ⟨op, next, r, w', _, answered, rfl⟩ := fire_eq_some.mp fired
        cases (List.cons.inj history).1
        obtain ⟨_, ⟨_, failed⟩ | read⟩ := exec_userFindByEmailHash answered
        · cases failed
        · have row := (Except.ok.inj read).symm
          exact ⟨List.mem_of_find?_eq_some row, by simpa using List.find?_some row⟩
      exact .inr ⟨dto, c₁, hreq, before, leads_trans (leads_of_fire fired) after, v, stored.1, id,
        stored.2, unlocked, parsed, hparse, argon2_derived reach derived⟩
    · exact entitled.elim
  | @rotated i old s parent rotates user family ih =>
    obtain ⟨j, vouched, drawn⟩ := ih
    rw [user, family]
    exact ⟨j, vouched, drawn⟩

end Runs

/-- Starting from no sessions, every stored session descends by rotations from
one started with a credential for its user, and whoever a guard admits holds
such a session, which the guard has read from the database, unrevoked and issued
less than its lifetime before. -/
theorem sessions_stem_from_credentials (env : Env) (reqs : Nat → Request) (w : World)
    (empty : w.sessions = []) (c : Server) (reach : Reachable env reqs w c) :
    (∀ s ∈ c.world.sessions, Legitimate env reqs c.history s.issued) ∧
    (∀ s, Legitimate env reqs c.history s → ∃ i, Vouched env reqs w c i s.userId ∧
      (⟨.randomUUID, s.familyId⟩ : OwnCall) ∈ own i c.history) ∧
    ∀ i au, Passed (reqs i) (own i c.history) (some au) →
      ∃ c₁ c₂ ch s u e, Reachable env reqs w c₁ ∧ fire (exec env) i ch c₁ = some c₂ ∧
        c₂.history = ⟨i, ch, .sessionFindFirst (activeSession au.sessionId), .ok (some (s, u))⟩ ::
          c₁.history ∧
        Leads (exec env) c₂ c ∧ s ∈ c₁.world.sessions ∧ s.id = au.sessionId ∧ s.userId = au.id ∧
        s.revokedAt = none ∧ Legitimate env reqs c₁.history s ∧
        e ∈ c₁.history ∧ born e.call = some s ∧ ch.now < e.choice.now + ttlMs env := by
  refine ⟨fun s hs => births_legitimate empty reach _ ((reachable_lineage empty reach).rows s hs),
    fun s legitimate => legitimate.vouched reach, fun i au passed => ?_⟩
  obtain ⟨_, payload, s, u, _, owner, rfl, c₁, c₂, ch, before, fired, history, _, after⟩ :=
    (passed.since reach).resolve_left not_passed_boot
  obtain ⟨⟨stored, id, live, unexpired⟩, -⟩ := read_active fired history
  have issued := (reachable_lineage empty before).rows s stored
  rw [issued_of_live live] at issued
  obtain ⟨e, he, hb⟩ := mem_births.mp issued
  rw [born_expires before he hb] at unexpired
  exact ⟨c₁, c₂, ch, s, u, e, before, fired, history, after, stored, id, owner, live,
    births_legitimate empty before s issued, he, hb, unexpired⟩

namespace Plain

/-- Request 0 logs in; every other one asks who it is in the session of request 0. -/
def loginThenMe : Nat → Request
  | 0 => login "secret"
  | _ => { handler := .me, authorization := some (bearer 6) }

end Plain

theorem sessions_stem_from_credentials_login :
    ∃ c, Reachable Plain.env Plain.loginThenMe Plain.world c ∧
      Passed (Plain.loginThenMe 1) (own 1 c.history) (some ⟨1, .CLIENT, 6⟩) ∧
      Legitimate Plain.env Plain.loginThenMe c.history Plain.firstSession ∧
      ∃ i, Vouched Plain.env Plain.loginThenMe Plain.world c i 1 := by
  have shown : ∃ c, Reachable Plain.env Plain.loginThenMe Plain.world c ∧
      Passed (Plain.loginThenMe 1) (own 1 c.history) (some ⟨1, .CLIENT, 6⟩) ∧
      c.world.sessions = [Plain.firstSession] :=
    play_reaches (Plain.loggedIn ++ [(1, { now := 6 }), (1, { now := 7 })]) (by decide +kernel)
  obtain ⟨c, reach, passed, rows⟩ := shown
  have sound := sessions_stem_from_credentials Plain.env Plain.loginThenMe Plain.world rfl c reach
  have legitimate := sound.1 Plain.firstSession (by rw [rows]; exact List.mem_singleton_self _)
  obtain ⟨i, vouched, _⟩ := sound.2.1 _ legitimate
  exact ⟨c, reach, passed, legitimate, i, vouched⟩

end BajaValle
