import BajaValle.Rules

/-!
# What a request may call after its own calls

`May` is the protocol every request follows on sessions, whatever the database
answers. A session is inserted once, by a refresh that claimed the session it
read or by a request that drew a new family. A bulk update only ever revokes,
on the condition that the row is unrevoked, and its filter is fixed by the
handler and by the user that the guard admitted.
-/

namespace BajaValle

open CallPrograms Prog SessionsService

variable (env : Env)

/-- The guards let the request through, with this user put on it. -/
def Passed (req : Request) (h : List OwnCall) (user : Option AuthUser) : Prop :=
  (guards req.handler.route req.authorization).returned h.reverse = some user

instance (req : Request) (h : List OwnCall) (user : Option AuthUser) :
    Decidable (Passed req h user) := inferInstanceAs (Decidable (_ = _))

/-- The guard found the live session of this user. -/
def Admitted (h : List OwnCall) (user : AuthUser) : Prop :=
  ∃ s u, (⟨.sessionFindFirst (activeSession user.sessionId), .ok (some (s, u))⟩ : OwnCall) ∈ h ∧
    s.userId = user.id ∧ u.role = user.role

/-- The session that the presented refresh token was read as. -/
def Presented (h : List OwnCall) (refreshToken : String) (s : Session) : Prop :=
  ∃ u, (⟨.sessionFindByTokenHash (hashToken env refreshToken), .ok (some (s, u))⟩ : OwnCall) ∈ h

def Claimed (h : List OwnCall) (sessionId : Uuid) : Prop :=
  (⟨revocation (unrevokedSession sessionId), .ok 1⟩ : OwnCall) ∈ h

instance (h : List OwnCall) (sessionId : Uuid) : Decidable (Claimed h sessionId) :=
  inferInstanceAs (Decidable (_ ∈ _))

def IsInsert : Op → Prop
  | .sessionCreate _ => True
  | _ => False

/-- No session has been inserted. -/
def Unborn (h : List OwnCall) : Prop := ∀ k ∈ h, ¬ IsInsert k.op

/-- Where the family and the user of a new session come from. -/
def Origin (req : Request) (h : List OwnCall) (userId familyId : Uuid) : Prop :=
  match req.handler with
  | .refresh refreshToken => ∃ s, Presented env h refreshToken s ∧ Claimed h s.id ∧
      userId = s.userId ∧ familyId = s.familyId
  | _ => (⟨.randomUUID, familyId⟩ : OwnCall) ∈ h

/-- The sessions that a handler revokes for the user on the request. -/
def Handler.revokes : Handler → AuthUser → Option SessionWhere
  | .logout, user => some (unrevokedSession user.sessionId)
  | .logoutAll, user => some (unrevokedOfUser user.id none)
  | .changePassword _ _, user => some (unrevokedOfUser user.id (some user.sessionId))
  | _, _ => none

/-- Which bulk revocations a request makes. -/
def Revokes (req : Request) (h : List OwnCall) (filter : SessionWhere) : Prop :=
  match req.handler with
  | .refresh refreshToken => ∃ s u, Presented env h refreshToken s ∧
      ((∃ t, h = [⟨.now, t⟩, ⟨.sessionFindByTokenHash (hashToken env refreshToken),
            .ok (some (s, u))⟩] ∧ t < s.expiresAt ∧ filter = unrevokedSession s.id) ∨
        (∃ n, n ≠ 1 ∧ (⟨revocation (unrevokedSession s.id), .ok n⟩ : OwnCall) ∈ h ∧
          filter = unrevokedFamily s.familyId))
  | handler => ∃ user, Passed req h (some user) ∧ handler.revokes user = some filter

def May (req : Request) (h : List OwnCall) : Op → Prop
  | .sessionCreate d =>
    Unborn h ∧ d.expiresAt = ttlMs env ∧
      (∃ bytes, (⟨.randomBytes TOKEN_BYTES, bytes⟩ : OwnCall) ∈ h ∧
        d.tokenHash = hashToken env (tokenText bytes)) ∧ Origin env req h d.userId d.familyId
  | .sessionUpdateMany filter date => date = .fromNow 0 ∧ Revokes env req h filter
  | op => Harmless op

/-- A handler that revokes answers only after its revocation. -/
def Ends (req : Request) (h : List OwnCall) (_ : Answer) : Prop :=
  ∀ user filter, Passed req h (some user) → req.handler.revokes user = some filter →
    ∃ n, (⟨revocation filter, .ok n⟩ : OwnCall) ∈ h

abbrev Anything {α : Type} (_ : List OwnCall) (_ : α) : Prop := True

section Parts
variable {env} {req : Request} {h : List OwnCall}

lemma Harmless.may {op : Op} (harmless : Harmless op) : May env req h op := by
  cases op <;> first | exact harmless | exact harmless.elim

lemma Harmless.not_isInsert {op : Op} (harmless : Harmless op) : ¬ IsInsert op := by
  cases op <;> first | exact id | exact harmless.elim

lemma Unborn.later {h' : List OwnCall} (unborn : Unborn h) (ext : Extends Harmless h h') :
    Unborn h' := by
  intro k hk
  rcases ext.mem_or hk with old | harmless
  · exact unborn k old
  · exact harmless.not_isInsert

lemma Unborn.cons {k : OwnCall} (unborn : Unborn h) (harmless : Harmless k.op) :
    Unborn (k :: h) := unborn.later ((Extends.refl _ _).cons harmless)

lemma Passed.append {user : Option AuthUser} (passed : Passed req h user) (new : List OwnCall) :
    Passed req (new ++ h) user := by
  rw [Passed, List.reverse_append]
  exact returned_append passed _

lemma Passed.later {h' : List OwnCall} {user : Option AuthUser} (passed : Passed req h user)
    (ext : Extends Harmless h h') : Passed req h' user := by
  obtain ⟨new, rfl, _⟩ := ext
  exact passed.append new

lemma passed_unique {user user' : Option AuthUser} (passed : Passed req h user)
    (passed' : Passed req h user') : user = user' :=
  Option.some.inj (passed.symm.trans passed')

/-- A claim comes after the read and the expiry check only. -/
lemma Revokes.claiming {token : String} {id : Uuid} (isRefresh : req.handler = .refresh token)
    (revokes : Revokes env req h (unrevokedSession id)) :
    ∃ s u t, h = [⟨.now, t⟩, ⟨.sessionFindByTokenHash (hashToken env token),
      .ok (some (s, u))⟩] ∧ t < s.expiresAt ∧ s.id = id := by
  simp only [Revokes, isRefresh] at revokes
  obtain ⟨s, u, _, ⟨t, calls, unexpired, same⟩ | ⟨_, _, _, other⟩⟩ := revokes
  · refine ⟨s, u, t, calls, unexpired, ?_⟩
    injection same with hid
    exact (Option.some.inj hid).symm
  · cases other

/-- All other handlers revoke for the user that the guard admitted. -/
lemma Revokes.passed {filter : SessionWhere} (revokes : Revokes env req h filter)
    (notRefresh : ∀ token, req.handler ≠ .refresh token) :
    ∃ user, Passed req h (some user) ∧ req.handler.revokes user = some filter := by
  unfold Revokes at revokes
  split at revokes
  · rename_i token isRefresh
    exact absurd isRefresh (notRefresh token)
  · exact revokes

lemma May.unborn {op : Op} (may : May env req h op) (insert : IsInsert op) : Unborn h := by
  cases op with
  | sessionCreate d => exact may.1
  | _ => exact insert.elim

/-- No revocation matches a revoked row. -/
lemma Revokes.unrevoked {filter : SessionWhere} (revokes : Revokes env req h filter) {now : Nat}
    {s : Session} (held : filter.holds now s = true) : s.revokedAt = none := by
  have conditional : filter.unrevoked = true := by
    unfold Revokes at revokes
    split at revokes
    · obtain ⟨_, _, _, ⟨_, _, _, rfl⟩ | ⟨_, _, _, rfl⟩⟩ := revokes <;> rfl
    · obtain ⟨_, _, revokes⟩ := revokes
      unfold Handler.revokes at revokes
      split at revokes <;> cases revokes <;> rfl
  simp only [SessionWhere.holds, conditional] at held
  grind

lemma harmless_obeys {α : Type} {p : Task α} (uses : p.Uses Harmless) :
    p.Obeys (May env req) (fun h' _ => Extends Harmless h h') h :=
  uses_obeys uses fun _ _ _ harmless => harmless.may

lemma harmless_bind {α β : Type} {p : Task α} {f : α → Task β} {post : List OwnCall → β → Prop}
    (uses : p.Uses Harmless)
    (rest : ∀ h' a, Extends Harmless h h' → (f a).Obeys (May env req) post h') :
    (p >>= f).Obeys (May env req) post h :=
  obeys_bind (harmless_obeys uses) rest

lemma harmless_anything {α : Type} {p : Task α} (uses : p.Uses Harmless) :
    p.Obeys (May env req) Anything h :=
  (harmless_obeys uses).mono (fun _ _ hk => hk) fun _ _ _ => trivial

lemma readOnly_bind {α β : Type} {p : Task α} {f : α → Task β} {post : List OwnCall → β → Prop}
    (uses : p.Uses ReadOnly)
    (rest : ∀ h' a, Extends Harmless h h' → (f a).Obeys (May env req) post h') :
    (p >>= f).Obeys (May env req) post h :=
  harmless_bind (uses.mono fun _ => ReadOnly.harmless) rest

lemma map_obeys {α β : Type} {p : Task α} {f : α → β}
    (obeys : p.Obeys (May env req) Anything h) :
    (f <$> p : Task β).Obeys (May env req) Anything h :=
  obeys_bind obeys fun _ _ _ => trivial

/-- Nothing has been inserted before, so one session may be. -/
lemma createIn_obeys {userId familyId : Uuid} {userAgent : Option String} (unborn : Unborn h)
    (origin : ∀ h', h ⊆ h' → Origin env req h' userId familyId) :
    (createIn env userId userAgent familyId).Obeys (May env req) Anything h := by
  refine perform_bind_obeys trivial fun bytes => ?_
  exact await_bind_obeys (M := Anything) (perform_obeys ⟨unborn.cons trivial, rfl,
    ⟨bytes, List.mem_cons_self, rfl⟩, origin _ (List.subset_cons_self _ _)⟩
      fun _ => trivial) fun _ _ _ => trivial

lemma startSession_obeys {user : User} {userAgent : Option String}
    (notRefresh : ∀ token, req.handler ≠ .refresh token) (unborn : Unborn h) :
    (AuthService.startSession env user userAgent).Obeys (May env req) Anything h := by
  have fresh : (create env user.id userAgent).Obeys (May env req) Anything h := by
    refine perform_bind_obeys trivial fun familyId => createIn_obeys (unborn.cons trivial) ?_
    intro h' sub
    have drawn := sub (a := ⟨.randomUUID, familyId⟩) List.mem_cons_self
    unfold Origin
    split
    · rename_i token isRefresh
      exact absurd isRefresh (notRefresh token)
    · exact drawn
  refine obeys_bind fresh ?_
  rintro h' ⟨session, token⟩ _
  exact readOnly_bind (issueTokens_uses env _ _ _ _) fun _ _ _ =>
    harmless_anything (uses_bind (ofExcept_uses _) fun _ => uses_ret _)

lemma register_obeys {dto : RegisterDto} {userAgent : Option String}
    (notRefresh : ∀ token, req.handler ≠ .refresh token) (unborn : Unborn h) :
    (AuthService.register env dto userAgent).Obeys (May env req) Anything h :=
  harmless_bind (ofExcept_uses _) fun _ _ checked =>
    readOnly_bind (hash_uses _) fun _ _ hashed =>
      harmless_bind (create_uses env _ _ _ _) fun _ _ created =>
        startSession_obeys notRefresh (((unborn.later checked).later hashed).later created)

lemma acceptLogin_obeys {user : User} {password : String} {userAgent : Option String}
    (notRefresh : ∀ token, req.handler ≠ .refresh token) (unborn : Unborn h) :
    (AuthService.acceptLogin env user password userAgent).Obeys (May env req) Anything h :=
  harmless_bind (clearFailures_uses user) fun _ _ cleared =>
    harmless_bind (rehash_uses user password) fun _ _ rehashed =>
      startSession_obeys notRefresh ((unborn.later cleared).later rehashed)

lemma login_obeys {dto : LoginDto} {userAgent : Option String}
    (notRefresh : ∀ token, req.handler ≠ .refresh token) (unborn : Unborn h) :
    (AuthService.login env dto userAgent).Obeys (May env req) Anything h := by
  have refused : ∀ h', ((do
      PasswordService.verifyAgainstDummy dto.password
      Prog.throw AuthService.invalidCredentials : Task AuthResponse)).Obeys (May env req)
        Anything h' := fun h' =>
    readOnly_bind (verifyAgainstDummy_uses _) fun _ _ _ => trivial
  refine readOnly_bind (findByEmail_uses env _) fun h₁ found read => ?_
  cases found with
  | none => exact refused h₁
  | some user =>
    refine readOnly_bind (isLocked_uses user) fun h₂ locked checked => ?_
    cases locked with
    | true => exact refused h₂
    | false =>
      refine readOnly_bind (verify_uses _ _) fun h₃ matched compared => ?_
      cases matched with
      | true =>
        exact acceptLogin_obeys notRefresh (((unborn.later read).later checked).later compared)
      | false => exact harmless_bind (registerFailedLogin_uses _) fun _ _ _ => trivial

lemma revocation_obeys {filter : SessionWhere} (allowed : Revokes env req h filter) :
    (perform (revocation filter)).Obeys (May env req) Anything h :=
  perform_obeys ⟨rfl, allowed⟩ fun _ => trivial

lemma authenticate_obeys (token : String) :
    (JwtAuthGuard.authenticate token).Obeys (May env req)
      (fun h' au => Extends ReadOnly h h' ∧ Admitted h' au) h := by
  refine perform_bind_obeys trivial fun payload => ?_
  cases payload with
  | none => trivial
  | some payload =>
    refine await_bind_obeys (M := fun h' r => Extends ReadOnly h h' ∧
      ∀ x, r = .ok x → (⟨.sessionFindFirst (activeSession payload.sid), .ok x⟩ : OwnCall) ∈ h')
      (perform_obeys trivial fun r => ⟨?_, ?_⟩) ?_
    · exact ((Extends.refl ReadOnly h).cons (k := ⟨.jwtVerify token, some payload⟩)
        trivial).cons trivial
    · rintro x rfl
      exact List.mem_cons_self
    · rintro h' (_ | ⟨s, u⟩) ⟨ext, mem⟩
      · trivial
      · dsimp only
        split
        · trivial
        · rename_i owner
          exact ⟨ext, s, u, mem _ rfl, not_not.mp owner, rfl⟩

/-- The guards only read, and put a user on the request only if they found the
user's session active. -/
lemma guards_obeys (route : Route) (authorization : Option String) :
    (guards route authorization).Obeys (May env req)
      (fun h' user => Extends ReadOnly h h' ∧ ∀ au, user = some au → Admitted h' au) h := by
  have nobody : Extends ReadOnly h h ∧
      ∀ au, (none : Option AuthUser) = some au → Admitted h au :=
    ⟨.refl _ _, fun _ hn => by cases hn⟩
  have found : (JwtAuthGuard.canActivate route authorization).Obeys (May env req)
      (fun h' user => Extends ReadOnly h h' ∧ ∀ au, user = some au → Admitted h' au) h := by
    unfold JwtAuthGuard.canActivate
    split
    · exact nobody
    · split
      · split
        · exact nobody
        · trivial
      · split
        · trivial
        · refine obeys_bind (authenticate_obeys _) ?_
          rintro h' au ⟨ext, admitted⟩
          refine ⟨ext, ?_⟩
          rintro _ ⟨⟩
          exact admitted
  refine obeys_bind found fun h' user hu => ?_
  cases RolesGuard.canActivate route user with
  | ok _ => exact hu
  | error e => trivial

lemma Passed.admitted {user : AuthUser} (passed : Passed req h (some user)) :
    Admitted h user := by
  have obeys : (guards req.handler.route req.authorization).Obeys (May Plain.env req) _ [] :=
    guards_obeys req.handler.route req.authorization
  obtain ⟨first, before, _, admitted⟩ := obeys.of_returned passed
  obtain ⟨s, u, mem, owner⟩ := admitted user rfl
  refine ⟨s, u, ?_, owner⟩
  simpa using before.subset (by simpa using mem)

/-- A revocation as the last call of a handler. -/
lemma revokes_obeys {user : AuthUser} {filter : SessionWhere}
    (notRefresh : ∀ token, req.handler ≠ .refresh token) (passed : Passed req h (some user))
    (revokes : req.handler.revokes user = some filter) :
    ((fun _ => Answer.noContent) <$> (do
      let _ ← await (perform (revocation filter))
      return () : Task Unit) : Task Answer).Obeys (May env req) (Ends req) h := by
  have allowed : Revokes env req h filter := by
    unfold Revokes
    split
    · rename_i token isRefresh
      exact absurd isRefresh (notRefresh token)
    · exact ⟨user, passed, revokes⟩
  refine obeys_bind (M := fun h' _ => Ends req h' .noContent)
    (await_bind_obeys (M := fun h' r => h' = ⟨revocation filter, r⟩ :: h)
      (perform_obeys ⟨rfl, allowed⟩ fun _ => rfl) ?_) fun _ _ ends => ends
  rintro h' n rfl user' filter' passed' revokes'
  obtain rfl := Option.some.inj (passed_unique passed' (passed.append [_]))
  obtain rfl := Option.some.inj (revokes'.symm.trans revokes)
  exact ⟨n, List.mem_cons_self⟩

lemma ends_of_silent (silent : ∀ user, req.handler.revokes user = none) {answer : Answer} :
    Ends req h answer := by
  intro user filter _ revokes
  simp [silent user] at revokes

lemma withUser_obeys {user : Option AuthUser} {run : AuthUser → Task Answer}
    {post : List OwnCall → Answer → Prop} (passed : Passed req h user)
    (each : ∀ au, Passed req h (some au) → (run au).Obeys (May env req) post h) :
    (withUser user run).Obeys (May env req) post h := by
  cases user with
  | none => trivial
  | some au => exact each au passed

lemma revokeFamily_obeys {familyId : Uuid}
    (allowed : Revokes env req h (unrevokedFamily familyId)) :
    (revokeFamily familyId).Obeys (May env req) Anything h :=
  await_bind_obeys (revocation_obeys allowed) fun _ _ _ => trivial

/-- A refresh reads, checks, claims and inserts in this order, or after a lost
claim may revoke the family it read. -/
lemma rotate_obeys {refreshToken : String} {userAgent : Option String}
    (isRefresh : req.handler = .refresh refreshToken) :
    (rotate env refreshToken userAgent).Obeys (May env req) Anything [] := by
  refine await_bind_obeys (M := fun h' r => h' = [⟨.sessionFindByTokenHash
    (hashToken env refreshToken), r⟩]) (perform_obeys trivial fun _ => rfl) ?_
  rintro h' (_ | ⟨s, u⟩) rfl
  · trivial
  refine perform_bind_obeys trivial fun t => ?_
  split
  · trivial
  rename_i unexpired
  have read : Presented env [⟨.sessionFindByTokenHash (hashToken env refreshToken),
      .ok (some (s, u))⟩] refreshToken s := ⟨u, List.mem_cons_self⟩
  refine await_bind_obeys (M := fun h' r => h' = [⟨revocation (unrevokedSession s.id), r⟩,
    ⟨.now, t⟩, ⟨.sessionFindByTokenHash (hashToken env refreshToken), .ok (some (s, u))⟩])
    (perform_obeys ⟨rfl, ?_⟩ fun _ => rfl) ?_
  · simp only [Revokes, isRefresh]
    exact ⟨s, u, ⟨u, by simp⟩, .inl ⟨t, rfl, by simpa using unexpired, rfl⟩⟩
  rintro h' n rfl
  split
  · rename_i lost
    have family : ∀ h' : List OwnCall,
        (⟨revocation (unrevokedSession s.id), .ok n⟩ : OwnCall) ∈ h' →
        Presented env h' refreshToken s →
        (revokeFamily s.familyId).Obeys (May env req) Anything h' := by
      intro h' mem pres
      refine revokeFamily_obeys ?_
      simp only [Revokes, isRefresh]
      exact ⟨s, u, pres, .inr ⟨n, lost, mem, rfl⟩⟩
    refine obeys_bind (M := Anything) ?_ fun _ _ _ => trivial
    refine await_bind_obeys (M := fun h' r => ∃ r', h' = [⟨.sessionFindById s.id, r'⟩,
      ⟨revocation (unrevokedSession s.id), .ok n⟩, ⟨.now, t⟩,
      ⟨.sessionFindByTokenHash (hashToken env refreshToken), .ok (some (s, u))⟩])
      (perform_obeys trivial fun r => ⟨r, rfl⟩) ?_
    rintro h' used ⟨r', rfl⟩
    split
    · refine perform_bind_obeys trivial fun t' => ?_
      split
      · trivial
      · exact obeys_bind (family _ (by simp) ⟨u, by simp⟩) fun _ _ _ => trivial
    · exact obeys_bind (family _ (by simp) ⟨u, by simp⟩) fun _ _ _ => trivial
  · rename_i won
    obtain rfl : n = 1 := not_not.mp won
    refine obeys_bind (M := Anything) (createIn_obeys ?_ ?_) fun _ _ _ => trivial
    · simp [Unborn, IsInsert, revocation]
    · intro h' sub
      simp only [Origin, isRefresh]
      exact ⟨s, ⟨u, sub (by simp)⟩, sub (by simp), rfl, rfl⟩

end Parts

/-- Every request obeys its rules, whatever its calls answer. -/
theorem serve_obeys (req : Request) : (serve env req).Obeys (May env req) (Ends req) [] := by
  by_cases isRefresh : ∃ token, req.handler = .refresh token
  · obtain ⟨token, hreq⟩ := isRefresh
    have passed : guards req.handler.route req.authorization = .ret none := by
      rw [hreq]
      rfl
    have rotates : (Answer.tokens <$> AuthService.refresh env token req.userAgent).Obeys
        (May env req) Anything [] :=
      map_obeys (obeys_bind (rotate_obeys hreq) fun _ _ _ => harmless_anything
        ((issueTokens_uses env _ _ _ _).mono fun _ => ReadOnly.harmless))
    rw [serve, passed]
    simp only [ret_bind, handle, hreq]
    exact rotates.mono (fun _ _ hk => hk) fun _ _ _ => ends_of_silent fun _ => by rw [hreq]; rfl
  · have notRefresh : ∀ token, req.handler ≠ .refresh token := by simpa using isRefresh
    refine obeys_bind (guards_obeys _ _).returns ?_
    rintro h user ⟨⟨ext, _⟩, calls, hcalls, returns⟩
    have passed : Passed req h user := by simpa [Passed, hcalls] using returns
    have unborn : Unborn h := by
      refine Unborn.later ?_ (ext.mono fun _ => ReadOnly.harmless)
      simp [Unborn]
    have silently : ∀ {p : Task Answer}, (∀ user, req.handler.revokes user = none) →
        p.Obeys (May env req) Anything h → p.Obeys (May env req) (Ends req) h :=
      fun silent obeys => obeys.mono (fun _ _ hk => hk) fun _ _ _ => ends_of_silent silent
    unfold handle
    cases hreq : req.handler with
    | register dto =>
      exact silently (fun _ => by rw [hreq]; rfl) (map_obeys (register_obeys notRefresh unborn))
    | login dto =>
      exact silently (fun _ => by rw [hreq]; rfl) (map_obeys (login_obeys notRefresh unborn))
    | refresh token => exact absurd hreq (notRefresh token)
    | logout =>
      exact withUser_obeys passed fun au hau => revokes_obeys notRefresh hau (by rw [hreq]; rfl)
    | logoutAll =>
      exact withUser_obeys passed fun au hau => revokes_obeys notRefresh hau (by rw [hreq]; rfl)
    | me =>
      exact silently (fun _ => by rw [hreq]; rfl) (withUser_obeys passed fun _ _ => trivial)
    | getProfile =>
      refine silently (fun _ => by rw [hreq]; rfl) (withUser_obeys passed fun au _ =>
        map_obeys ?_)
      refine readOnly_bind (findById_uses _) fun h₁ found _ => ?_
      cases found with
      | none => trivial
      | some user => exact harmless_anything (ofExcept_uses _)
    | updateProfile names =>
      refine silently (fun _ => by rw [hreq]; rfl) (withUser_obeys passed fun au _ =>
        map_obeys ?_)
      unfold ProfileController.update
      split
      · trivial
      · exact harmless_bind (updateName_uses env _ _) fun _ _ _ =>
          harmless_anything (ofExcept_uses _)
    | changeEmail newEmail currentPassword =>
      refine silently (fun _ => by rw [hreq]; rfl) (withUser_obeys passed fun au _ =>
        map_obeys ?_)
      exact readOnly_bind (verifyCurrentPassword_uses _ _) fun _ _ _ =>
        harmless_bind (updateEmail_uses env _ _) fun _ _ _ =>
          harmless_anything (ofExcept_uses _)
    | changePassword newPassword currentPassword =>
      refine withUser_obeys passed fun au hau => ?_
      unfold ProfileController.changePassword
      simp only [map_bind]
      exact readOnly_bind (verifyCurrentPassword_uses _ _) fun _ _ verified =>
        harmless_bind (ofExcept_uses _) fun _ _ checked =>
          readOnly_bind (hash_uses _) fun _ _ hashed =>
            harmless_bind (updatePasswordHash_uses _ _) fun _ _ written =>
              revokes_obeys notRefresh ((((hau.later verified).later checked).later hashed).later
                written) (by rw [hreq]; rfl)
    | deleteAccount currentPassword =>
      refine silently (fun _ => by rw [hreq]; rfl) (withUser_obeys passed fun au _ =>
        map_obeys ?_)
      exact readOnly_bind (verifyCurrentPassword_uses _ _) fun _ _ _ =>
        harmless_anything (uses_bind (await_uses (perform_uses trivial)) fun _ => uses_ret _)
    | other route => exact silently (fun _ => by rw [hreq]; rfl) trivial

lemma boot_obeys (reqs : Nat → Request) (w : World) :
    Interleaving.PoolObeys (fun i => May env (reqs i)) (fun i => Ends (reqs i))
      (boot env reqs w) :=
  fun i => serve_obeys env (reqs i)

end BajaValle
