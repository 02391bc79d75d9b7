import BajaValle.Enciphered
import BajaValle.Subjects

/-!
# Personal data under interleavings

Each encrypted column of a row stands for a text that was there at first or that
a request about the user of the row gave. Whatever the interleaving, every row
can be read back under its own contexts, and its blind index is that of the
email it reads back.
-/

namespace BajaValle

open CallPrograms Prog Interleaving EncryptionService

/-- The encrypted columns. -/
inductive Field where
  | email
  | firstName
  | lastName
  deriving DecidableEq

def Field.context : Field → String
  | .email => UsersService.FIELD.email
  | .firstName => UsersService.FIELD.firstName
  | .lastName => UsersService.FIELD.lastName

def User.column (u : User) : Field → String
  | .email => u.emailEnc
  | .firstName => u.firstNameEnc
  | .lastName => u.lastNameEnc

def NewUser.column (d : NewUser) : Field → String
  | .email => d.emailEnc
  | .firstName => d.firstNameEnc
  | .lastName => d.lastNameEnc

def UserChanges.column (c : UserChanges) : Field → Option String
  | .email => c.emailEnc
  | .firstName => c.firstNameEnc
  | .lastName => c.lastNameEnc

/-- The text that the body of a request gives for a column. -/
def Handler.gives (env : Env) : Handler → Field → Option String
  | .register dto, .email => some (normalizeEmail env.unicode dto.email)
  | .register dto, .firstName => some dto.firstName
  | .register dto, .lastName => some dto.lastName
  | .changeEmail newEmail _, .email => some (normalizeEmail env.unicode newEmail)
  | .updateProfile names, .firstName => names.firstName
  | .updateProfile names, .lastName => names.lastName
  | _, _ => none

/-- The body passed the checks on names, which admit no empty one. -/
def Handler.Named : Handler → Prop
  | .updateProfile names => names.firstName ≠ some "" ∧ names.lastName ≠ some ""
  | _ => True

/-- The request has encrypted the text with an iv that it drew. -/
def Enciphers (env : Env) (h : List OwnCall) (f : Field) (text value : String) : Prop :=
  ∃ iv, (⟨.randomBytes IV_BYTES, iv⟩ : OwnCall) ∈ h ∧
    encrypt env iv text f.context = .ok value

def index (env : Env) (email : String) : String :=
  blindIndex env email UsersService.FIELD.email

/-- What a request writes to the personal data. -/
def Supplies (env : Env) (req : Request) (h : List OwnCall) : Op → Prop
  | .userCreate d => ∀ f, ∃ text, req.handler.gives env f = some text ∧
      Enciphers env h f text (d.column f) ∧ (f = .email → d.emailHash = index env text)
  | .userUpdate _ c => (c.emailEnc = none → c.emailHash = none) ∧
      ∀ f value, c.column f = some value → ∃ text, req.handler.gives env f = some text ∧
        Enciphers env h f text value ∧ (f = .email → c.emailHash = some (index env text))
  | _ => True

/-- Calls that write no personal data. -/
def LeavesData : Op → Prop
  | .userCreate _ => False
  | .userUpdate _ c => c.emailHash = none ∧ ∀ f, c.column f = none
  | _ => True

section Rule
variable {env : Env} {req : Request} {h h' : List OwnCall}

lemma LeavesData.supplies {op : Op} (leaves : LeavesData op) : Supplies env req h op := by
  cases op with
  | userCreate d => exact leaves.elim
  | userUpdate id c =>
    refine ⟨fun _ => leaves.1, fun f value written => ?_⟩
    rw [leaves.2 f] at written
    cases written
  | _ => trivial

lemma ReadOnly.leavesData {op : Op} (reads : ReadOnly op) : LeavesData op := by
  cases op <;> trivial

lemma reads_leaves {α : Type} {p : Task α} (uses : p.Uses ReadOnly) : p.Uses LeavesData :=
  uses.mono fun _ => ReadOnly.leavesData

/-- An awaited update of other columns. -/
lemma update_leaves {id : Uuid} {c : UserChanges} (leaves : LeavesData (.userUpdate id c)) :
    (await (perform (.userUpdate id c)) >>= fun _ => Prog.ret () : Task Unit).Uses LeavesData :=
  uses_bind (await_uses (perform_uses leaves)) fun _ => uses_ret _

lemma spares_data (f : Field) {password : Option String} {role : Option Role}
    {attempts : Option CounterChange} {lock : Option DateValue} :
    ({ passwordHash := password, role, failedLoginAttempts := attempts, lockedUntil := lock } :
      UserChanges).column f = none := by
  cases f <;> rfl

lemma updatePasswordHash_leaves (id : Uuid) (passwordHash : String) :
    (UsersService.updatePasswordHash id passwordHash).Uses LeavesData :=
  await_uses (perform_uses ⟨rfl, fun f => spares_data f⟩)

lemma registerFailedLogin_leaves (id : Uuid) :
    (AuthService.registerFailedLogin id).Uses LeavesData := by
  refine uses_bind (await_uses (perform_uses ⟨rfl, fun f => spares_data f⟩)) fun u => ?_
  split
  · exact update_leaves ⟨rfl, fun f => spares_data f⟩
  · exact uses_ret _

lemma startSession_leaves (user : User) (userAgent : Option String) :
    (AuthService.startSession env user userAgent).Uses LeavesData := by
  refine uses_bind (uses_bind (perform_uses trivial) fun familyId =>
    uses_bind (perform_uses trivial) fun _ => uses_bind (await_uses (perform_uses trivial))
      fun _ => uses_ret _) ?_
  rintro ⟨session, token⟩
  exact reads_leaves (uses_bind (issueTokens_uses env _ _ _ _) fun _ =>
    uses_bind (ofExcept_uses _) fun _ => uses_ret _)

lemma acceptLogin_leaves (user : User) (password : String) (userAgent : Option String) :
    (AuthService.acceptLogin env user password userAgent).Uses LeavesData := by
  have clears : (AuthService.clearFailures user).Uses LeavesData := by
    unfold AuthService.clearFailures
    split
    · exact update_leaves ⟨rfl, fun f => spares_data f⟩
    · exact uses_ret _
  have rehashes : (AuthService.rehash user password).Uses LeavesData := by
    unfold AuthService.rehash
    split
    · exact uses_bind (reads_leaves (hash_uses _)) fun _ =>
        update_leaves ⟨rfl, fun f => spares_data f⟩
    · exact uses_ret _
  exact uses_bind clears fun _ => uses_bind rehashes fun _ => startSession_leaves user userAgent

lemma revocation_leaves (filter : SessionWhere) :
    (do
      let _ ← await (perform (SessionsService.revocation filter))
      return () : Task Unit).Uses LeavesData :=
  uses_bind (await_uses (perform_uses trivial)) fun _ => uses_ret _

lemma rotate_leaves (token : String) (userAgent : Option String) :
    (SessionsService.rotate env token userAgent).Uses LeavesData := by
  have closes : ∀ s : Session, (SessionsService.revokeFamily s.familyId >>= fun _ =>
      Prog.throw SessionsService.sessionInvalid : Task Unit).Uses LeavesData := fun _ =>
    uses_bind (revocation_leaves _) fun _ => uses_throw _
  have reuses : ∀ s : Session, (SessionsService.reuse s).Uses LeavesData := by
    intro s
    refine uses_bind (await_uses (perform_uses trivial)) fun used => ?_
    split
    · refine uses_bind (perform_uses trivial) fun _ => ?_
      split
      · exact uses_throw _
      · exact closes s
    · exact closes s
  refine uses_bind (await_uses (perform_uses trivial)) fun found => ?_
  cases found with
  | none => exact uses_throw _
  | some found =>
    refine uses_bind (perform_uses trivial) fun now => ?_
    split
    · exact uses_throw _
    · refine uses_bind (await_uses (perform_uses trivial)) fun claimed => ?_
      split
      · exact uses_bind (reuses _) fun _ => uses_throw _
      · exact uses_bind (uses_bind (perform_uses trivial) fun _ =>
          uses_bind (await_uses (perform_uses trivial)) fun _ => uses_ret _) fun _ => uses_ret _

lemma login_leaves (dto : LoginDto) (userAgent : Option String) :
    (AuthService.login env dto userAgent).Uses LeavesData := by
  have refuses : (PasswordService.verifyAgainstDummy dto.password >>= fun _ =>
      Prog.throw AuthService.invalidCredentials : Task AuthResponse).Uses LeavesData :=
    uses_bind (reads_leaves (verifyAgainstDummy_uses _)) fun _ => uses_throw _
  refine uses_bind (reads_leaves (findByEmail_uses env _)) fun found => ?_
  cases found with
  | none => exact refuses
  | some user =>
    refine uses_bind (reads_leaves (isLocked_uses user)) fun locked => ?_
    cases locked with
    | true => exact refuses
    | false =>
      refine uses_bind (reads_leaves (verify_uses _ _)) fun matched => ?_
      cases matched with
      | true => exact acceptLogin_leaves user _ _
      | false => exact uses_bind (registerFailedLogin_leaves _) fun _ => uses_throw _

/-- A fresh encryption is made with an iv of the request's own. -/
lemma encryptFresh_enciphers (text : String) (f : Field) :
    (encryptFresh env text f.context).Obeys (Supplies env req)
      (fun h' value => h ⊆ h' ∧ Enciphers env h' f text value) h := by
  refine perform_bind_obeys trivial fun iv => ?_
  cases encrypted : encrypt env iv text f.context with
  | error e => trivial
  | ok value => exact ⟨List.subset_cons_self _ _, iv, List.mem_cons_self, encrypted⟩

lemma Enciphers.mono {f : Field} {text value : String} (enciphers : Enciphers env h f text value)
    (sub : h ⊆ h') : Enciphers env h' f text value := by
  obtain ⟨iv, drawn, encrypted⟩ := enciphers
  exact ⟨iv, sub drawn, encrypted⟩

lemma create_supplies {dto : RegisterDto} {passwordHash : String}
    (isRegister : req.handler = .register dto) :
    (UsersService.create env dto.email dto.firstName dto.lastName passwordHash none).Obeys
      (Supplies env req) Anything h := by
  rw [UsersService.create_eq]
  refine obeys_bind (encryptFresh_enciphers _ .email) fun h₁ emailEnc hemail => ?_
  refine obeys_bind (encryptFresh_enciphers _ .firstName) fun h₂ firstNameEnc hfirst => ?_
  refine obeys_bind (encryptFresh_enciphers _ .lastName) fun h₃ lastNameEnc hlast => ?_
  refine perform_bind_obeys ?_ fun r => ?_
  · rintro (_ | _ | _) <;> rw [isRegister]
    · exact ⟨_, rfl, hemail.2.mono fun _ hk => hlast.1 (hfirst.1 hk), fun _ => rfl⟩
    · exact ⟨_, rfl, hfirst.2.mono hlast.1, by simp⟩
    · exact ⟨_, rfl, hlast.2, by simp⟩
  · rcases r with (_ | _ | _) | u <;> trivial

lemma updateEmail_supplies {id : Uuid} {newEmail currentPassword : String}
    (isChange : req.handler = .changeEmail newEmail currentPassword) :
    (UsersService.updateEmail env id newEmail).Obeys (Supplies env req) Anything h := by
  rw [UsersService.updateEmail_eq]
  refine obeys_bind (encryptFresh_enciphers _ .email) fun h₁ emailEnc hemail => ?_
  refine perform_bind_obeys ⟨by simp, ?_⟩ fun r => ?_
  · rintro (_ | _ | _) value written
    · obtain rfl := Option.some.inj written
      rw [isChange]
      exact ⟨_, rfl, hemail.2, fun _ => rfl⟩
    · cases written
    · cases written
  · rcases r with (_ | _ | _) | u <;> trivial

/-- The encryption of a name that may be absent but is not empty. -/
lemma encryptName_enciphers {name : Option String} (f : Field) (nonempty : name ≠ some "") :
    (UsersService.encryptName env name f.context).Obeys (Supplies env req)
      (fun h' value => h ⊆ h' ∧ ∀ enc, value = some enc → ∃ text, name = some text ∧
        Enciphers env h' f text enc) h := by
  cases name with
  | none => exact ⟨fun _ hk => hk, by simp⟩
  | some text =>
    have present : text ≠ "" := fun empty => nonempty (congrArg some empty)
    simp only [UsersService.encryptName, if_neg present]
    refine obeys_bind (encryptFresh_enciphers text f) ?_
    rintro h' enc ⟨sub, enciphers⟩
    refine ⟨sub, ?_⟩
    rintro _ ⟨⟩
    exact ⟨text, rfl, enciphers⟩

lemma updateName_supplies {id : Uuid} {names : UserNames}
    (isUpdate : req.handler = .updateProfile names) (named : req.handler.Named) :
    (UsersService.updateName env id names).Obeys (Supplies env req) Anything h := by
  rw [isUpdate] at named
  refine obeys_bind (encryptName_enciphers .firstName named.1) fun h₁ firstNameEnc hfirst => ?_
  refine obeys_bind (encryptName_enciphers .lastName named.2) fun h₂ lastNameEnc hlast => ?_
  rw [← bind_pure (await _)]
  refine await_bind_obeys (M := Anything) (perform_obeys ⟨fun _ => rfl, ?_⟩ fun _ => trivial)
    fun _ _ _ => trivial
  rintro (_ | _ | _) value written <;> rw [isUpdate]
  · cases written
  · obtain ⟨text, given, enciphers⟩ := hfirst.2 value written
    exact ⟨text, given, enciphers.mono hlast.1, by simp⟩
  · obtain ⟨text, given, enciphers⟩ := hlast.2 value written
    exact ⟨text, given, enciphers, by simp⟩

end Rule

/-- A rule that holds of what writes no personal data holds of a whole request, if it
holds of the three writes. -/
theorem serve_writes {env : Env} {req : Request} {may : List OwnCall → Op → Prop}
    (frees : ∀ h op, LeavesData op → may h op)
    (creates : ∀ dto passwordHash h, req.handler = .register dto →
      (UsersService.create env dto.email dto.firstName dto.lastName passwordHash none).Obeys
        may Anything h)
    (renames : ∀ id names h, req.handler = .updateProfile names →
      (UsersService.updateName env id names).Obeys may Anything h)
    (moves : ∀ id newEmail currentPassword h,
      req.handler = .changeEmail newEmail currentPassword →
      (UsersService.updateEmail env id newEmail).Obeys may Anything h) :
    (serve env req).Obeys may Anything [] := by
  have leaves : ∀ {α : Type} {p : Task α} {h}, p.Uses LeavesData → p.Obeys may Anything h :=
    fun uses => (uses_obeys uses fun _ _ _ leaves => frees _ _ leaves).mono
      (fun _ _ hk => hk) fun _ _ _ => trivial
  have before : ∀ {α β : Type} {p : Task α} {f : α → Task β} {h}, p.Uses LeavesData →
      (∀ h' a, (f a).Obeys may Anything h') → (p >>= f).Obeys may Anything h :=
    fun uses rest => obeys_bind (leaves uses) fun h' a _ => rest h' a
  have reads : ∀ {α : Type} {p : Task α}, p.Uses ReadOnly → p.Uses LeavesData := reads_leaves
  refine before (reads ((guards_uses _ _).mono fun _ => GuardOp.readOnly)) fun h user => ?_
  have each : ∀ {run : AuthUser → Task Answer}, (∀ au, (run au).Obeys may Anything h) →
      (withUser user run).Obeys may Anything h := by
    intro run obeys
    cases user with
    | none => trivial
    | some au => exact obeys au
  have mapped : ∀ {α : Type} {p : Task α} {f : α → Answer}, p.Obeys may Anything h →
      (f <$> p : Task Answer).Obeys may Anything h := fun obeys =>
    obeys_bind obeys fun _ _ _ => trivial
  unfold handle
  cases hreq : req.handler with
  | register dto =>
    refine mapped (before (ofExcept_uses _) fun _ _ => before (reads (hash_uses _)) fun _ _ => ?_)
    exact obeys_bind (creates dto _ _ hreq) fun _ _ _ => leaves (startSession_leaves _ _)
  | login dto => exact mapped (leaves (login_leaves dto _))
  | refresh token =>
    exact mapped (before (rotate_leaves token _) fun _ _ =>
      leaves (reads (issueTokens_uses env _ _ _ _)))
  | logout => exact each fun _ => mapped (leaves (revocation_leaves _))
  | logoutAll => exact each fun _ => mapped (leaves (revocation_leaves _))
  | me => exact each fun _ => trivial
  | getProfile =>
    refine each fun _ => mapped (before (reads (findById_uses _)) fun _ found => ?_)
    cases found with
    | none => trivial
    | some stored => exact leaves (ofExcept_uses _)
  | updateProfile names =>
    refine each fun _ => mapped ?_
    unfold ProfileController.update
    split
    · trivial
    · exact obeys_bind (renames _ names _ hreq) fun _ _ _ => leaves (ofExcept_uses _)
  | changeEmail newEmail currentPassword =>
    exact each fun _ => mapped (before (reads (verifyCurrentPassword_uses _ _)) fun _ _ =>
      obeys_bind (moves _ newEmail currentPassword _ hreq) fun _ _ _ => leaves (ofExcept_uses _))
  | changePassword newPassword currentPassword =>
    exact each fun _ => mapped (before (reads (verifyCurrentPassword_uses _ _)) fun _ _ =>
      before (ofExcept_uses _) fun _ _ => before (reads (hash_uses _)) fun _ _ =>
        before (updatePasswordHash_leaves _ _) fun _ _ => leaves (revocation_leaves _))
  | deleteAccount currentPassword =>
    exact each fun _ => mapped (before (reads (verifyCurrentPassword_uses _ _)) fun _ _ =>
      leaves (uses_bind (await_uses (perform_uses trivial)) fun _ => uses_ret _))
  | other route => trivial

/-- Every request writes personal data only as its body gives it. -/
theorem serve_supplies (env : Env) (req : Request) (named : req.handler.Named) :
    (serve env req).Obeys (Supplies env req) Anything [] :=
  serve_writes (fun _ _ => LeavesData.supplies) (fun _ _ _ => create_supplies)
    (fun _ _ _ isUpdate => updateName_supplies isUpdate named) fun _ _ _ _ => updateEmail_supplies

/-- Where the text of a column comes from: the row of the user at first, or a
request about the user. -/
def Sourced (env : Env) (reqs : Nat → Request) (w : World) (history : List ServerEvent)
    (id : Uuid) (f : Field) (text : String) : Prop :=
  (∃ u ∈ w.users, u.id = id ∧ ∃ version, Sealed env version f.context text (u.column f)) ∨
    ∃ i, (reqs i).handler.gives env f = some text ∧
      (reqs i).handler.subject (own i history) = some id

/-- A column stands for a text with a source, the email with its blind index. -/
def Stands (env : Env) (reqs : Nat → Request) (w : World) (history : List ServerEvent)
    (u : User) (f : Field) : Prop :=
  ∃ version text, Sealed env version f.context text (u.column f) ∧
    (f = .email → u.emailHash = index env text) ∧ Sourced env reqs w history u.id f text

section Runs
variable {env : Env} {reqs : Nat → Request} {w : World} {c : Server} {f : Field}

lemma Sourced.cons {history : List ServerEvent} {id : Uuid} {text : String}
    (sourced : Sourced env reqs w history id f text) (e : ServerEvent) :
    Sourced env reqs w (e :: history) id f text := by
  rcases sourced with initial | ⟨i, gives, subject⟩
  · exact .inl initial
  · refine .inr ⟨i, gives, ?_⟩
    obtain ⟨new, suffix⟩ : own i history <:+ own i (e :: history) :=
      ((List.suffix_cons e history).filter _).map _
    rw [← suffix]
    exact Handler.subject_append subject new

lemma Stands.cons {history : List ServerEvent} {u : User}
    (column : Stands env reqs w history u f) (e : ServerEvent) :
    Stands env reqs w (e :: history) u f := by
  obtain ⟨version, text, sealed_, index, sourced⟩ := column
  exact ⟨version, text, sealed_, index, sourced.cons e⟩

lemma Enciphers.sealed (safe : SafeKeys env) (reach : Reachable env reqs w c) {i : Nat}
    {text value : String} (enciphers : Enciphers env (own i c.history) f text value) :
    ∃ version, Sealed env version f.context text value := by
  obtain ⟨iv, drawn, encrypted⟩ := enciphers
  obtain ⟨version, _, sealed_⟩ := sealed_encrypt safe (randomBytes_length reach drawn) encrypted
  exact ⟨version, sealed_⟩

lemma apply_column_none {changes : UserChanges} {u : User} {now : Nat}
    (kept : changes.column f = none) : (changes.apply now u).column f = u.column f := by
  cases f <;> simp only [UserChanges.column] at kept <;> simp [User.column, kept]

lemma apply_column_some {changes : UserChanges} {u : User} {now : Nat} {value : String}
    (written : changes.column f = some value) : (changes.apply now u).column f = value := by
  cases f <;> simp only [UserChanges.column] at written <;> simp [User.column, written]

/-- An update writes a column or leaves it, and the index goes with the email. -/
lemma Stands.updated (safe : SafeKeys env) (reach : Reachable env reqs w c) {i : Nat} {ch : Choice}
    {changes : UserChanges} {r : Except PrismaError User} {v : User}
    (supplies : Supplies env (reqs i) (own i c.history) (.userUpdate v.id changes))
    (acts : ActsFor (reqs i).handler (own i c.history) (.userUpdate v.id changes))
    (old : Stands env reqs w c.history v f) :
    Stands env reqs w (⟨i, ch, ⟨.userUpdate v.id changes, r⟩⟩ :: c.history)
      (changes.apply ch.now v) f := by
  cases written : changes.column f with
  | none =>
    obtain ⟨version, text, sealed_, indexed, sourced⟩ := old
    refine ⟨version, text, ?_, fun isEmail => ?_, sourced.cons _⟩
    · rw [apply_column_none written]
      exact sealed_
    · subst isEmail
      rw [UserChanges.apply_emailHash, supplies.1 written]
      exact indexed rfl
  | some value =>
    obtain ⟨text, given, enciphers, indexed⟩ := supplies.2 f value written
    obtain ⟨version, sealed_⟩ := enciphers.sealed safe reach
    refine ⟨version, text, ?_, fun isEmail => ?_, .inr ⟨i, given, ?_⟩⟩
    · rw [apply_column_some written]
      exact sealed_
    · rw [UserChanges.apply_emailHash, indexed isEmail]
      rfl
    · rw [own_cons_self, UserChanges.apply_id]
      exact Handler.subject_append acts [_]

theorem reachable_columns (safe : SafeKeys env) (named : ∀ i, (reqs i).handler.Named)
    (whole : ∀ u ∈ w.users, ∃ p, Enciphered env u p ∧ u.emailHash = index env p.email)
    (reach : Reachable env reqs w c) :
    ∀ u ∈ c.world.users, ∀ f, Stands env reqs w c.history u f := by
  refine leads_induction (P := fun c => ∀ u ∈ c.world.users, ∀ f,
    Stands env reqs w c.history u f) reach ?_ ?_
  · intro u hu f
    obtain ⟨p, ⟨⟨v₁, email⟩, ⟨v₂, firstName⟩, v₃, lastName⟩, indexed⟩ := whole u hu
    cases f with
    | email => exact ⟨v₁, p.email, email, fun _ => indexed, .inl ⟨u, hu, rfl, v₁, email⟩⟩
    | firstName => exact ⟨v₂, p.firstName, firstName, by simp, .inl ⟨u, hu, rfl, v₂, firstName⟩⟩
    | lastName => exact ⟨v₃, p.lastName, lastName, by simp, .inl ⟨u, hu, rfl, v₃, lastName⟩⟩
  · intro c c' i ch reached columns fired u hu f
    have supplies := leads_poolObeys reached (fun j => serve_supplies env (reqs j) (named j)) i
    have acts := leads_poolObeys reached (fun j => serve_actsFor env (reqs j)) i
    obtain ⟨op, next, r, w', head, answered, rfl⟩ := fire_eq_some.mp fired
    rw [head] at supplies acts
    cases exec_rowSource answered hu with
    | stored old => exact (columns u old f).cons _
    | inserted d unused =>
      obtain ⟨text, given, enciphers, indexed⟩ := supplies.1 f
      obtain ⟨version, sealed_⟩ := enciphers.sealed safe reached
      refine ⟨version, text, ?_, indexed, .inr ⟨i, given, ?_⟩⟩
      · cases f <;> exact sealed_
      · obtain ⟨open_, dto, hreq⟩ := acts.1
        rw [own_cons_self, Handler.subject_cons open_, hreq]
        rfl
    | @updated changes _ v old =>
      exact (columns v old f).updated safe reached supplies.1 acts.1

end Runs

/-- In every reachable state each row decrypts to a profile, its blind index is
that of the decrypted email, and every text in it was in the row of that user at
first or was given by a request about that user. -/
theorem personal_data_stays_whole (env : Env) (reqs : Nat → Request) (w : World)
    (safe : SafeKeys env) (named : ∀ i, (reqs i).handler.Named)
    (whole : ∀ u ∈ w.users, ∃ p, Enciphered env u p ∧ u.emailHash = index env p.email)
    (c : Server) (reach : Reachable env reqs w c) :
    ∀ u ∈ c.world.users, ∃ profile, UsersService.toProfile env u = .ok profile ∧
      profile.id = u.id ∧ u.emailHash = index env profile.email ∧
      Sourced env reqs w c.history u.id .email profile.email ∧
      Sourced env reqs w c.history u.id .firstName profile.firstName ∧
      Sourced env reqs w c.history u.id .lastName profile.lastName := by
  intro u hu
  have columns := reachable_columns safe named whole reach u hu
  obtain ⟨v₁, email, sealedEmail, indexed, fromEmail⟩ := columns .email
  obtain ⟨v₂, firstName, sealedFirst, _, fromFirst⟩ := columns .firstName
  obtain ⟨v₃, lastName, sealedLast, _, fromLast⟩ := columns .lastName
  have enciphered : Enciphered env u ⟨email, firstName, lastName⟩ :=
    ⟨⟨v₁, sealedEmail⟩, ⟨v₂, sealedFirst⟩, v₃, sealedLast⟩
  exact ⟨_, enciphered.toProfile, rfl, indexed rfl, fromEmail, fromFirst, fromLast⟩

namespace Plain

lemma oneSafeKey : SafeKeys env := by
  intro e he
  obtain rfl := List.mem_singleton.mp he
  exact ⟨1, rfl, by decide, by decide⟩

lemma whole : ∀ u ∈ liveWorld.users, ∃ p, Enciphered env u p ∧ u.emailHash = index env p.email := by
  intro u hu
  obtain rfl := List.mem_singleton.mp hu
  have fixed : ∀ text context, Sealed env (.finite 1) context text (stored text context) :=
    fun text context => ⟨[1], List.replicate 12 0, ⟨1, rfl, by decide, by decide⟩, rfl, rfl, rfl⟩
  exact ⟨⟨"ana@valle.mx", "Ana", "Ruiz"⟩, ⟨⟨_, fixed _ _⟩, ⟨_, fixed _ _⟩, _, fixed _ _⟩,
    by decide +kernel⟩

/-- Every request gives the user of the live session another email. -/
def renameMail (_ : Nat) : Request where
  handler := .changeEmail "eva@valle.mx" "secret"
  authorization := some (bearer 6)

end Plain

theorem personal_data_stays_whole_email :
    ∃ c, Reachable Plain.env Plain.renameMail Plain.liveWorld c ∧
      ∃ u ∈ c.world.users, u.emailHash = index Plain.env "eva@valle.mx" ∧
        ∃ profile, UsersService.toProfile Plain.env u = .ok profile ∧
          u.emailHash = index Plain.env profile.email ∧
          Sourced Plain.env Plain.renameMail Plain.liveWorld c.history u.id .email
            profile.email := by
  have shown : ∃ c, Reachable Plain.env Plain.renameMail Plain.liveWorld c ∧
      ∃ u ∈ c.world.users, u.emailHash = index Plain.env "eva@valle.mx" :=
    play_reaches [(0, { now := 6 }), (0, { now := 7 }), (0, { now := 8 }), (0, { now := 9 }),
      (0, { now := 10, bytes := List.replicate 12 3 }), (0, { now := 11 })] (by decide +kernel)
  obtain ⟨c, reach, u, hu, renamed⟩ := shown
  obtain ⟨profile, read, _, indexed, sourced, _⟩ := personal_data_stays_whole Plain.env
    Plain.renameMail Plain.liveWorld Plain.oneSafeKey (fun _ => trivial) Plain.whole c reach u hu
  exact ⟨c, reach, u, hu, renamed, profile, read, indexed, sourced⟩

end BajaValle
