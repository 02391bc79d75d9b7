import BajaValle.Admission

/-!
# The user a request is about

The first call of a request that names a user settles its subject: the account
that a registration created or a login found, the owner of the presented refresh
token, and for all other handlers the owner of the session that the guard read.
A request writes users and inserts sessions for its subject alone.
-/

namespace BajaValle

open CallPrograms Prog Interleaving SessionsService

/-- The user that the answer of a call names to this handler. -/
def Handler.names : Handler → OwnCall → Option Uuid
  | .register _, ⟨.userCreate _, .ok u⟩ => some u.id
  | .login _, ⟨.userFindByEmailHash _, .ok (some u)⟩ => some u.id
  | .refresh _, ⟨.sessionFindByTokenHash _, .ok (some (s, _))⟩ => some s.userId
  | .register _, _ | .login _, _ | .refresh _, _ => none
  | _, ⟨.sessionFindFirst _, .ok (some (s, _))⟩ => some s.userId
  | _, _ => none

def Handler.subject (handler : Handler) (h : List OwnCall) : Option Uuid :=
  h.reverse.findSome? handler.names

/-- Writes are for the subject. Bulk revocations have rules of their own. -/
def ActsFor (handler : Handler) (h : List OwnCall) : Op → Prop
  | .userUpdate id _ => handler.subject h = some id
  | .userDelete id => handler.subject h = some id
  | .sessionCreate d => handler.subject h = some d.userId
  | .userCreate _ => handler.subject h = none ∧ ∃ dto, handler = .register dto
  | _ => True

/-- Calls that write for nobody. -/
def Impersonal : Op → Prop
  | .userCreate _ | .userUpdate _ _ | .userDelete _ | .sessionCreate _ => False
  | _ => True

section Subject
variable {handler : Handler} {h h' : List OwnCall} {id : Uuid} {k : OwnCall}

lemma Handler.subject_append (settled : handler.subject h = some id) (new : List OwnCall) :
    handler.subject (new ++ h) = some id := by
  rw [Handler.subject] at settled
  rw [Handler.subject, List.reverse_append, List.findSome?_append, settled]
  rfl

lemma Handler.subject_later {kind : Op → Prop} (settled : handler.subject h = some id)
    (ext : Extends kind h h') : handler.subject h' = some id := by
  obtain ⟨new, rfl, _⟩ := ext
  exact Handler.subject_append settled new

lemma Handler.subject_cons (open_ : handler.subject h = none) :
    handler.subject (k :: h) = handler.names k := by
  rw [Handler.subject] at open_
  simp [Handler.subject, List.findSome?_append, open_]

lemma Handler.subject_none (silent : ∀ k ∈ h, handler.names k = none) :
    handler.subject h = none := by
  rw [Handler.subject, List.findSome?_eq_none_iff]
  exact fun k hk => silent k (List.mem_reverse.mp hk)

lemma Impersonal.actsFor {op : Op} (impersonal : Impersonal op) : ActsFor handler h op := by
  cases op <;> trivial

lemma ReadOnly.impersonal {op : Op} (reads : ReadOnly op) : Impersonal op := by
  cases op <;> trivial

lemma impersonal_obeys {α : Type} {p : Task α} (uses : p.Uses Impersonal) :
    p.Obeys (ActsFor handler) (fun h' _ => Extends Impersonal h h') h :=
  uses_obeys uses fun _ _ _ impersonal => impersonal.actsFor

lemma impersonal_bind {α β : Type} {p : Task α} {f : α → Task β} {post : List OwnCall → β → Prop}
    (uses : p.Uses ReadOnly)
    (rest : ∀ h' a, Extends Impersonal h h' → (f a).Obeys (ActsFor handler) post h') :
    (p >>= f).Obeys (ActsFor handler) post h :=
  obeys_bind (impersonal_obeys (uses.mono fun _ => ReadOnly.impersonal)) rest

lemma reads_actsFor {α : Type} {p : Task α} (uses : p.Uses ReadOnly) :
    p.Obeys (ActsFor handler) Anything h :=
  (impersonal_obeys (uses.mono fun _ => ReadOnly.impersonal)).mono (fun _ _ hk => hk)
    fun _ _ _ => trivial

/-- An awaited update of the subject. -/
lemma update_actsFor {data : UserChanges} (settled : handler.subject h = some id) :
    (await (perform (.userUpdate id data))).Obeys (ActsFor handler)
      (fun h' _ => handler.subject h' = some id) h := by
  rw [← bind_pure (await _)]
  refine await_bind_obeys (M := fun h' _ => handler.subject h' = some id)
    (perform_obeys settled fun r => ?_) fun _ _ settled => settled
  exact Handler.subject_append settled [⟨.userUpdate id data, r⟩]

end Subject

section Parts
variable {env : Env} {handler : Handler} {h : List OwnCall} {id : Uuid}

lemma clearFailures_actsFor {u : User} (settled : handler.subject h = some u.id) :
    (AuthService.clearFailures u).Obeys (ActsFor handler)
      (fun h' _ => handler.subject h' = some u.id) h := by
  unfold AuthService.clearFailures
  split
  · exact obeys_bind (update_actsFor settled) fun _ _ settled => settled
  · exact settled

lemma rehash_actsFor {u : User} {password : String} (settled : handler.subject h = some u.id) :
    (AuthService.rehash u password).Obeys (ActsFor handler)
      (fun h' _ => handler.subject h' = some u.id) h := by
  unfold AuthService.rehash
  split
  · exact impersonal_bind (hash_uses _) fun _ _ ext =>
      obeys_bind (update_actsFor (Handler.subject_later settled ext)) fun _ _ settled => settled
  · exact settled

lemma registerFailedLogin_actsFor (settled : handler.subject h = some id) :
    (AuthService.registerFailedLogin id).Obeys (ActsFor handler) Anything h := by
  refine obeys_bind (update_actsFor settled) fun h' u settled => ?_
  split
  · exact obeys_bind (update_actsFor settled) fun _ _ _ => trivial
  · trivial

lemma createIn_actsFor {userAgent : Option String} {familyId : Uuid}
    (settled : handler.subject h = some id) :
    (createIn env id userAgent familyId).Obeys (ActsFor handler) Anything h := by
  refine perform_bind_obeys trivial fun bytes => ?_
  exact await_bind_obeys (M := Anything) (perform_obeys
    (Handler.subject_append settled [⟨.randomBytes TOKEN_BYTES, bytes⟩]) fun _ => trivial)
    fun _ _ _ => trivial

lemma startSession_actsFor {u : User} {userAgent : Option String}
    (settled : handler.subject h = some u.id) :
    (AuthService.startSession env u userAgent).Obeys (ActsFor handler) Anything h := by
  refine obeys_bind (M := Anything) (perform_bind_obeys trivial fun familyId =>
    createIn_actsFor (Handler.subject_append settled [⟨.randomUUID, familyId⟩])) ?_
  rintro h' ⟨session, token⟩ _
  exact reads_actsFor (uses_bind (issueTokens_uses env _ _ _ _) fun _ =>
    uses_bind (ofExcept_uses _) fun _ => uses_ret _)

lemma login_actsFor {dto : LoginDto} {userAgent : Option String}
    (open_ : (Handler.login dto).subject h = none) :
    (AuthService.login env dto userAgent).Obeys (ActsFor (.login dto)) Anything h := by
  refine await_bind_obeys (M := fun h' r => h' = ⟨.userFindByEmailHash
    (UsersService.emailHash env dto.email), r⟩ :: h) ⟨trivial, fun _ => rfl⟩ ?_
  rintro h₁ (_ | u) rfl
  · exact reads_actsFor (uses_bind (verifyAgainstDummy_uses _) fun _ => uses_throw _)
  have settled : (Handler.login dto).subject (⟨.userFindByEmailHash
      (UsersService.emailHash env dto.email), .ok (some u)⟩ :: h) = some u.id :=
    Handler.subject_cons open_
  refine impersonal_bind (isLocked_uses u) fun h₂ locked checked => ?_
  cases locked with
  | true => exact reads_actsFor (uses_bind (verifyAgainstDummy_uses _) fun _ => uses_throw _)
  | false =>
    refine impersonal_bind (verify_uses _ _) fun h₃ matched compared => ?_
    have settled₃ := Handler.subject_later (Handler.subject_later settled checked) compared
    cases matched with
    | true =>
      exact obeys_bind (clearFailures_actsFor settled₃) fun _ _ settled =>
        obeys_bind (rehash_actsFor settled) fun _ _ settled => startSession_actsFor settled
    | false => exact obeys_bind (registerFailedLogin_actsFor settled₃) fun _ _ _ => trivial

lemma Handler.subject_register {dto : RegisterDto} {h' : List OwnCall}
    (open_ : (Handler.register dto).subject h = none) (ext : Extends ReadOnly h h') :
    (Handler.register dto).subject h' = none := by
  obtain ⟨new, rfl, reads⟩ := ext
  refine Handler.subject_none fun k hk => ?_
  rcases List.mem_append.mp hk with hk | hk
  · have only := reads k hk
    obtain ⟨op, r⟩ := k
    cases op <;> first | rfl | exact only.elim
  · rw [Handler.subject, List.findSome?_eq_none_iff] at open_
    exact open_ k (List.mem_reverse.mpr hk)

/-- A registration is about the user it creates. -/
lemma create_names {dto : RegisterDto} {email firstName lastName passwordHash : String}
    (open_ : (Handler.register dto).subject h = none) :
    (UsersService.create env email firstName lastName passwordHash none).Obeys
      (ActsFor (.register dto)) (fun h' u => (Handler.register dto).subject h' = some u.id) h := by
  have reading : ∀ {α β : Type} {p : Task α} {f : α → Task β} {post : List OwnCall → β → Prop}
      {h : List OwnCall}, (Handler.register dto).subject h = none → p.Uses ReadOnly →
      (∀ h' a, (Handler.register dto).subject h' = none →
        (f a).Obeys (ActsFor (.register dto)) post h') →
      (p >>= f).Obeys (ActsFor (.register dto)) post h := fun open_ uses rest =>
    obeys_bind (uses_obeys uses fun _ _ _ reads => reads.impersonal.actsFor) fun h' a ext =>
      rest h' a (Handler.subject_register open_ ext)
  refine reading open_ (encryptEmail_uses env email) ?_
  rintro h₁ ⟨emailHash, emailEnc⟩ open₁
  refine reading open₁ (encryptFresh_uses env _ _) fun h₂ firstNameEnc open₂ => ?_
  refine reading open₂ (encryptFresh_uses env _ _) fun h₃ lastNameEnc open₃ => ?_
  refine perform_bind_obeys ⟨open₃, dto, rfl⟩ fun r => ?_
  cases r with
  | ok u => exact Handler.subject_cons open₃
  | error e => cases e <;> trivial

lemma register_actsFor {dto : RegisterDto} {userAgent : Option String}
    (open_ : (Handler.register dto).subject h = none) :
    (AuthService.register env dto userAgent).Obeys (ActsFor (.register dto)) Anything h := by
  refine obeys_bind (M := fun h' _ => (Handler.register dto).subject h' = none) ?_ ?_
  · cases PasswordService.assertAcceptable env dto.password (some dto.email) with
    | ok _ => exact open_
    | error e => trivial
  rintro h₁ _ open₁
  refine obeys_bind (uses_obeys (hash_uses dto.password) fun _ _ _ reads =>
    reads.impersonal.actsFor) fun h₂ passwordHash ext => ?_
  exact obeys_bind (create_names (Handler.subject_register open₁ ext)) fun _ _ settled =>
    startSession_actsFor settled

lemma revocation_actsFor {handler : Handler} {filter : SessionWhere} :
    (do
      let _ ← await (perform (revocation filter))
      return () : Task Unit).Obeys (ActsFor handler) Anything h :=
  await_bind_obeys (M := Anything) (perform_obeys trivial fun _ => trivial) fun _ _ _ => trivial

lemma reuse_actsFor {handler : Handler} (s : Session) :
    (reuse s).Obeys (ActsFor handler) Anything h := by
  refine await_bind_obeys (M := Anything) (perform_obeys trivial fun _ => trivial)
    fun _ used _ => ?_
  split
  · refine perform_bind_obeys trivial fun _ => ?_
    split
    · trivial
    · exact obeys_bind revocation_actsFor fun _ _ _ => trivial
  · exact obeys_bind revocation_actsFor fun _ _ _ => trivial

/-- A refresh is about the owner of the session it reads first. -/
lemma rotate_actsFor {refreshToken : String} {userAgent : Option String}
    (open_ : (Handler.refresh refreshToken).subject h = none) :
    (rotate env refreshToken userAgent).Obeys (ActsFor (.refresh refreshToken)) Anything h := by
  refine await_bind_obeys (M := fun h' r => h' = ⟨.sessionFindByTokenHash
    (hashToken env refreshToken), r⟩ :: h) ⟨trivial, fun _ => rfl⟩ ?_
  rintro h₁ (_ | ⟨s, u⟩) rfl
  · trivial
  have settled : (Handler.refresh refreshToken).subject (⟨.sessionFindByTokenHash
      (hashToken env refreshToken), .ok (some (s, u))⟩ :: h) = some s.userId :=
    Handler.subject_cons open_
  refine perform_bind_obeys trivial fun t => ?_
  split
  · trivial
  refine await_bind_obeys (M := fun h' _ => (Handler.refresh refreshToken).subject h' =
    some s.userId) (perform_obeys trivial fun r =>
      Handler.subject_append settled [⟨revocation (unrevokedSession s.id), r⟩, ⟨.now, t⟩]) ?_
  intro h₂ n settled₂
  split
  · exact obeys_bind (reuse_actsFor s) fun _ _ _ => trivial
  · exact obeys_bind (createIn_actsFor settled₂) fun _ _ _ => trivial

lemma updateName_actsFor {handler : Handler} {names : UserNames}
    (settled : handler.subject h = some id) :
    (UsersService.updateName env id names).Obeys (ActsFor handler) Anything h := by
  refine impersonal_bind (encryptName_uses env _ _) fun _ _ first => ?_
  refine impersonal_bind (encryptName_uses env _ _) fun _ _ last => ?_
  have settled₂ := Handler.subject_later (Handler.subject_later settled first) last
  exact (update_actsFor settled₂).mono (fun _ _ hk => hk) fun _ _ _ => trivial

lemma updateEmail_actsFor {handler : Handler} {email : String}
    (settled : handler.subject h = some id) :
    (UsersService.updateEmail env id email).Obeys (ActsFor handler) Anything h := by
  refine impersonal_bind (encryptEmail_uses env email) ?_
  rintro h₁ ⟨emailHash, emailEnc⟩ ext
  refine perform_bind_obeys (Handler.subject_later settled ext) fun r => ?_
  cases r with
  | ok u => trivial
  | error e => cases e <;> trivial

lemma delete_actsFor {handler : Handler} (settled : handler.subject h = some id) :
    (UsersService.delete id).Obeys (ActsFor handler) Anything h :=
  await_bind_obeys (M := Anything) (perform_obeys settled fun _ => trivial) fun _ _ _ => trivial

lemma changePassword_actsFor {handler : Handler} {au : AuthUser}
    {newPassword currentPassword : String} (settled : handler.subject h = some au.id) :
    (ProfileController.changePassword env au newPassword currentPassword).Obeys
      (ActsFor handler) Anything h := by
  refine impersonal_bind (verifyCurrentPassword_uses _ _) fun _ stored verified => ?_
  refine impersonal_bind (ofExcept_uses _) fun _ _ checked => ?_
  refine impersonal_bind (hash_uses _) fun _ _ hashed => ?_
  have settled₃ := Handler.subject_later (Handler.subject_later
    (Handler.subject_later settled verified) checked) hashed
  exact obeys_bind (update_actsFor settled₃) fun _ _ _ => revocation_actsFor

end Parts

/-- Handlers that read the user put on the request are about that user. -/
lemma subject_admitted {handler : Handler} {authorization : Option String} {h : List OwnCall}
    {au : AuthUser} (admits : Admits authorization h au)
    (found : ∀ payload s u, handler.names (foundActive payload s u) = some s.userId)
    (asked : ∀ token payload, handler.names (verified token payload) = none) :
    handler.subject h = some au.id := by
  obtain ⟨token, payload, s, u, _, rfl, owner, rfl⟩ := admits
  simp [Handler.subject, found, asked, owner]

lemma Passed.subject {req : Request} {h : List OwnCall} {au : AuthUser}
    (passed : Passed req h (some au))
    (found : ∀ payload s u, req.handler.names (foundActive payload s u) = some s.userId)
    (asked : ∀ token payload, req.handler.names (verified token payload) = none) :
    req.handler.subject h = some au.id := by
  obtain ⟨first, ⟨new, calls⟩, cleared, _⟩ := passed.cleared
  have early := subject_admitted (cleared.admits au rfl) found asked
  have split_ : h = new.reverse ++ first.reverse := by
    rw [← List.reverse_append, calls, List.reverse_reverse]
  rw [split_]
  exact Handler.subject_append early _

lemma Handler.names_of_revokes {handler : Handler} {au : AuthUser} {filter : SessionWhere}
    (revokes : handler.revokes au = some filter) :
    (∀ payload s u, handler.names (foundActive payload s u) = some s.userId) ∧
      ∀ token payload, handler.names (verified token payload) = none := by
  cases handler with
  | logout => exact ⟨fun _ _ _ => rfl, fun _ _ => rfl⟩
  | logoutAll => exact ⟨fun _ _ _ => rfl, fun _ _ => rfl⟩
  | changePassword => exact ⟨fun _ _ _ => rfl, fun _ _ => rfl⟩
  | _ => cases revokes

lemma withUser_actsFor {handler : Handler} {user : Option AuthUser} {run : AuthUser → Task Answer}
    {h : List OwnCall} (each : ∀ au, user = some au → (run au).Obeys (ActsFor handler) Anything h) :
    (withUser user run).Obeys (ActsFor handler) Anything h := by
  cases user with
  | none => trivial
  | some au => exact each au rfl

/-- Every request writes for its subject alone. -/
theorem serve_actsFor (env : Env) (req : Request) :
    (serve env req).Obeys (ActsFor req.handler) Anything [] := by
  refine obeys_bind ((guards_clear _ _).extends.mono
    (fun _ _ only => only.readOnly.impersonal.actsFor) fun _ _ hk => hk) ?_
  rintro h user ⟨cleared, ext⟩
  have open_ : (∀ k : OwnCall, GuardOp k.op → req.handler.names k = none) →
      req.handler.subject h = none := fun silent =>
    Handler.subject_none fun k hk => silent k ((ext.mem_or hk).resolve_left List.not_mem_nil)
  unfold handle
  cases hreq : req.handler with
  | register dto =>
    rw [hreq] at open_
    refine obeys_bind (register_actsFor (open_ ?_)) fun _ _ _ => trivial
    rintro ⟨op, r⟩ guard
    cases op <;> first | rfl | exact guard.elim
  | login dto =>
    rw [hreq] at open_
    refine obeys_bind (login_actsFor (open_ ?_)) fun _ _ _ => trivial
    rintro ⟨op, r⟩ guard
    cases op <;> first | rfl | exact guard.elim
  | refresh token =>
    rw [hreq] at open_
    refine obeys_bind (obeys_bind (rotate_actsFor (open_ ?_)) fun _ _ _ =>
      reads_actsFor (issueTokens_uses env _ _ _ _)) fun _ _ _ => trivial
    rintro ⟨op, r⟩ guard
    cases op <;> first | rfl | exact guard.elim
  | logout =>
    exact withUser_actsFor fun _ _ => obeys_bind revocation_actsFor fun _ _ _ => trivial
  | logoutAll =>
    exact withUser_actsFor fun _ _ => obeys_bind revocation_actsFor fun _ _ _ => trivial
  | me => exact withUser_actsFor fun _ _ => trivial
  | getProfile =>
    refine withUser_actsFor fun au _ => reads_actsFor (uses_bind ?_ fun _ => uses_ret _)
    refine uses_bind (findById_uses _) fun found => ?_
    cases found with
    | none => exact uses_throw _
    | some stored => exact ofExcept_uses _
  | updateProfile names =>
    refine withUser_actsFor fun au hau => ?_
    have settled : (Handler.updateProfile names).subject _ = some au.id :=
      subject_admitted (cleared.admits au hau) (fun _ _ _ => rfl) fun _ _ => rfl
    unfold ProfileController.update
    split
    · trivial
    · exact obeys_bind (obeys_bind (updateName_actsFor settled) fun _ _ _ =>
        reads_actsFor (ofExcept_uses _)) fun _ _ _ => trivial
  | changeEmail newEmail currentPassword =>
    refine withUser_actsFor fun au hau => ?_
    have settled : (Handler.changeEmail newEmail currentPassword).subject _ = some au.id :=
      subject_admitted (cleared.admits au hau) (fun _ _ _ => rfl) fun _ _ => rfl
    refine obeys_bind (M := Anything) (impersonal_bind (verifyCurrentPassword_uses _ _)
      fun _ _ verified => ?_) fun _ _ _ => trivial
    exact obeys_bind (updateEmail_actsFor (Handler.subject_later settled verified))
      fun _ _ _ => reads_actsFor (ofExcept_uses _)
  | changePassword newPassword currentPassword =>
    refine withUser_actsFor fun au hau => ?_
    have settled : (Handler.changePassword newPassword currentPassword).subject _ = some au.id :=
      subject_admitted (cleared.admits au hau) (fun _ _ _ => rfl) fun _ _ => rfl
    exact obeys_bind (changePassword_actsFor settled) fun _ _ _ => trivial
  | deleteAccount currentPassword =>
    refine withUser_actsFor fun au hau => ?_
    have settled : (Handler.deleteAccount currentPassword).subject _ = some au.id :=
      subject_admitted (cleared.admits au hau) (fun _ _ _ => rfl) fun _ _ => rfl
    refine obeys_bind (M := Anything) (impersonal_bind (verifyCurrentPassword_uses _ _)
      fun _ _ verified => ?_) fun _ _ _ => trivial
    exact delete_actsFor (Handler.subject_later settled verified)
  | other route => trivial

end BajaValle
