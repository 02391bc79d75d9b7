import BajaValle.Server

/-!
# What each part of the service may call

`ReadOnly` calls change neither users nor sessions, `Harmless` calls change no
session except by deleting its user and never write a role. The lemmas classify
the functions of the service once; the rules of whole requests build on them.
-/

namespace BajaValle

open CallPrograms Prog

variable {α β : Type} {kind : Op → Prop} (env : Env)

def ReadOnly : Op → Prop
  | .userCreate _ | .userUpdate _ _ | .userDelete _ => False
  | .sessionCreate _ | .sessionUpdateMany _ _ => False
  | _ => True

def Harmless : Op → Prop
  | .userCreate data => data.role = .CLIENT
  | .userUpdate _ data => data.role = none
  | .sessionCreate _ | .sessionUpdateMany _ _ => False
  | _ => True

/-- What the guards call. -/
def GuardOp : Op → Prop
  | .jwtVerify _ | .sessionFindFirst _ => True
  | _ => False

lemma GuardOp.readOnly {op : Op} (h : GuardOp op) : ReadOnly op := by
  cases op <;> trivial

/-- What hashing a password calls. -/
def Derives : Op → Prop
  | .randomBytes _ | .argon2 _ _ _ => True
  | _ => False

lemma Derives.readOnly {op : Op} (h : Derives op) : ReadOnly op := by
  cases op <;> trivial

/-- What a login calls once it has compared the password. -/
def LoginWrites : Op → Prop
  | .randomUUID | .randomBytes _ | .argon2 _ _ _ | .jwtSign _ => True
  | .userUpdate _ _ | .sessionCreate _ => True
  | _ => False

lemma Derives.loginWrites {op : Op} (h : Derives op) : LoginWrites op := by
  cases op <;> trivial

/-- What the comparison with the hash kept for unknown users calls. -/
def DummyOp : Op → Prop
  | .dummyStart | .dummySettle _ | .dummyAwait | .randomBytes _ | .argon2 _ _ _ => True
  | _ => False

lemma Derives.dummyOp {op : Op} (h : Derives op) : DummyOp op := by
  cases op <;> trivial

lemma DummyOp.readOnly {op : Op} (h : DummyOp op) : ReadOnly op := by
  cases op <;> trivial

lemma ReadOnly.harmless {op : Op} (h : ReadOnly op) : Harmless op := by
  cases op <;> trivial

section Obeys
variable {may : List OwnCall → Op → Prop} {h : List OwnCall}

lemma perform_obeys {op : Op} {post : List OwnCall → op.Res → Prop} (here : may h op)
    (after : ∀ r, post (⟨op, r⟩ :: h) r) : (perform op).Obeys may post h := ⟨here, after⟩

lemma perform_bind_obeys {op : Op} {f : op.Res → Task β} {post : List OwnCall → β → Prop}
    (here : may h op) (rest : ∀ r, (f r).Obeys may post (⟨op, r⟩ :: h)) :
    (perform op >>= f).Obeys may post h := ⟨here, rest⟩

lemma await_bind_obeys {run : Task (Except PrismaError α)} {f : α → Task β}
    {M : List OwnCall → Except PrismaError α → Prop} {post : List OwnCall → β → Prop}
    (first : run.Obeys may M h) (rest : ∀ h' a, M h' (.ok a) → (f a).Obeys may post h') :
    (await run >>= f).Obeys may post h := by
  unfold await
  rw [bind_assoc]
  refine obeys_bind first fun h' r hr => ?_
  cases r with
  | ok a => exact rest h' a hr
  | error e => trivial

end Obeys

lemma perform_uses {op : Op} (h : kind op) : (perform op).Uses kind :=
  uses_call h fun r => uses_ret r

lemma ofExcept_uses (x : Except Failure α) : (Prog.ofExcept x : Task α).Uses kind := by
  cases x <;> trivial

lemma await_uses {run : Task (Except PrismaError β)} (h : run.Uses kind) :
    (await run).Uses kind := by
  refine uses_bind h fun r => ?_
  cases r <;> trivial

lemma conflictOnDuplicate_uses {run : Task (Except PrismaError User)} (h : run.Uses kind) :
    (UsersService.conflictOnDuplicate run).Uses kind := by
  refine uses_bind h fun r => ?_
  cases r with
  | ok user => trivial
  | error e => cases e <;> trivial

lemma findActive_uses (sessionId : Uuid) : (SessionsService.findActive sessionId).Uses GuardOp :=
  await_uses (perform_uses trivial)

lemma authenticate_uses (token : String) : (JwtAuthGuard.authenticate token).Uses GuardOp := by
  refine uses_bind (perform_uses trivial) fun payload => ?_
  cases payload with
  | none => exact uses_throw _
  | some payload =>
    refine uses_bind (findActive_uses _) fun found => ?_
    cases found with
    | none => exact uses_throw _
    | some found => dsimp only; split <;> trivial

lemma guards_uses (route : Route) (authorization : Option String) :
    (guards route authorization).Uses GuardOp := by
  have passes : (JwtAuthGuard.canActivate route authorization).Uses GuardOp := by
    unfold JwtAuthGuard.canActivate
    split
    · exact uses_ret _
    · split
      · split <;> trivial
      · split
        · exact uses_throw _
        · exact uses_bind (authenticate_uses _) fun _ => uses_ret _
  exact uses_bind passes fun _ => uses_bind (ofExcept_uses _) fun _ => uses_ret _

lemma encryptFresh_uses (plaintext context : String) :
    (EncryptionService.encryptFresh env plaintext context).Uses ReadOnly :=
  uses_bind (perform_uses trivial) fun _ => ofExcept_uses _

lemma encryptEmail_uses (email : String) :
    (UsersService.encryptEmail env email).Uses ReadOnly :=
  uses_bind (encryptFresh_uses env _ _) fun _ => uses_ret _

lemma encryptName_uses (name : Option String) (context : String) :
    (UsersService.encryptName env name context).Uses ReadOnly := by
  cases name with
  | none => exact uses_ret _
  | some name =>
    unfold UsersService.encryptName
    dsimp only
    split
    · exact uses_ret _
    · exact uses_bind (encryptFresh_uses env _ _) fun _ => uses_ret _

lemma findByEmail_uses (email : String) : (UsersService.findByEmail env email).Uses ReadOnly :=
  await_uses (perform_uses trivial)

lemma findById_uses (id : Uuid) : (UsersService.findById id).Uses ReadOnly :=
  await_uses (perform_uses trivial)

lemma derive_derives (password : String) (salt : Bytes) (params : Argon2Params) :
    (PasswordService.derive password salt params).Uses Derives :=
  uses_bind (perform_uses trivial) fun _ => ofExcept_uses _

lemma hash_derives (password : String) : (PasswordService.hash password).Uses Derives :=
  uses_bind (perform_uses trivial) fun _ => uses_bind (derive_derives _ _ _) fun _ => uses_ret _

lemma hash_uses (password : String) : (PasswordService.hash password).Uses ReadOnly :=
  (hash_derives password).mono fun _ => Derives.readOnly

lemma verify_derives (storedHash password : String) :
    (PasswordService.verify storedHash password).Uses Derives := by
  unfold PasswordService.verify
  split
  · exact uses_ret _
  · exact uses_bind (derive_derives _ _ _) fun _ => uses_ret _

lemma verify_uses (storedHash password : String) :
    (PasswordService.verify storedHash password).Uses ReadOnly :=
  (verify_derives storedHash password).mono fun _ => Derives.readOnly

lemma startDummy_dummyOp : PasswordService.startDummy.Uses DummyOp := by
  refine uses_bind (perform_uses trivial) fun first => ?_
  cases first with
  | false => exact uses_ret _
  | true =>
    exact uses_bind (perform_uses trivial) fun _ =>
      uses_bind (uses_attempt ((hash_derives _).mono fun _ => Derives.dummyOp)) fun _ =>
        perform_uses trivial

lemma verifyAgainstDummy_dummyOp (password : String) :
    (PasswordService.verifyAgainstDummy password).Uses DummyOp :=
  uses_bind startDummy_dummyOp fun _ => uses_bind (perform_uses trivial) fun _ =>
    uses_bind (ofExcept_uses _) fun _ =>
      uses_bind ((verify_derives _ _).mono fun _ => Derives.dummyOp) fun _ => uses_ret _

lemma verifyAgainstDummy_uses (password : String) :
    (PasswordService.verifyAgainstDummy password).Uses ReadOnly :=
  (verifyAgainstDummy_dummyOp password).mono fun _ => DummyOp.readOnly

lemma issueTokens_uses (userId : Uuid) (role : Role) (sessionId : Uuid) (token : String) :
    (AuthService.issueTokens env userId role sessionId token).Uses ReadOnly :=
  uses_bind (perform_uses trivial) fun _ => uses_ret _

lemma isLocked_uses (user : User) : (AuthService.isLocked user).Uses ReadOnly := by
  unfold AuthService.isLocked
  split
  · exact uses_ret _
  · exact uses_bind (perform_uses trivial) fun _ => uses_ret _

lemma verifyCurrentPassword_uses (userId : Uuid) (password : String) :
    (AuthService.verifyCurrentPassword userId password).Uses ReadOnly := by
  refine uses_bind (findById_uses userId) fun found => ?_
  cases found with
  | none => exact uses_throw _
  | some user =>
    refine uses_bind (verify_uses _ _) fun matched => ?_
    cases matched <;> trivial

lemma create_uses (email firstName lastName passwordHash : String) :
    (UsersService.create env email firstName lastName passwordHash none).Uses Harmless := by
  refine uses_bind ((encryptEmail_uses env email).mono fun _ => ReadOnly.harmless) ?_
  rintro ⟨emailHash, emailEnc⟩
  exact uses_bind ((encryptFresh_uses env _ _).mono fun _ => ReadOnly.harmless) fun _ =>
    uses_bind ((encryptFresh_uses env _ _).mono fun _ => ReadOnly.harmless) fun _ =>
      conflictOnDuplicate_uses (perform_uses rfl)

lemma updateName_uses (id : Uuid) (names : UserNames) :
    (UsersService.updateName env id names).Uses Harmless :=
  uses_bind ((encryptName_uses env _ _).mono fun _ => ReadOnly.harmless) fun _ =>
    uses_bind ((encryptName_uses env _ _).mono fun _ => ReadOnly.harmless) fun _ =>
      await_uses (perform_uses rfl)

lemma updateEmail_uses (id : Uuid) (email : String) :
    (UsersService.updateEmail env id email).Uses Harmless := by
  refine uses_bind ((encryptEmail_uses env email).mono fun _ => ReadOnly.harmless) ?_
  rintro ⟨emailHash, emailEnc⟩
  exact conflictOnDuplicate_uses (perform_uses rfl)

lemma updatePasswordHash_uses (id : Uuid) (passwordHash : String) :
    (UsersService.updatePasswordHash id passwordHash).Uses Harmless :=
  await_uses (perform_uses rfl)

lemma clearFailures_uses (user : User) : (AuthService.clearFailures user).Uses Harmless := by
  unfold AuthService.clearFailures
  split
  · exact uses_bind (await_uses (perform_uses rfl)) fun _ => uses_ret _
  · exact uses_ret _

lemma rehash_uses (user : User) (password : String) :
    (AuthService.rehash user password).Uses Harmless := by
  unfold AuthService.rehash
  split
  · exact uses_bind ((hash_uses _).mono fun _ => ReadOnly.harmless) fun _ =>
      uses_bind (updatePasswordHash_uses _ _) fun _ => uses_ret _
  · exact uses_ret _

lemma registerFailedLogin_uses (userId : Uuid) :
    (AuthService.registerFailedLogin userId).Uses Harmless := by
  refine uses_bind (await_uses (perform_uses rfl)) fun user => ?_
  split
  · exact uses_bind (await_uses (perform_uses rfl)) fun _ => uses_ret _
  · exact uses_ret _

lemma registerFailedLogin_writes (userId : Uuid) :
    (AuthService.registerFailedLogin userId).Uses LoginWrites := by
  refine uses_bind (await_uses (perform_uses trivial)) fun user => ?_
  split
  · exact uses_bind (await_uses (perform_uses trivial)) fun _ => uses_ret _
  · exact uses_ret _

lemma acceptLogin_writes (user : User) (password : String) (userAgent : Option String) :
    (AuthService.acceptLogin env user password userAgent).Uses LoginWrites := by
  have clears : (AuthService.clearFailures user).Uses LoginWrites := by
    unfold AuthService.clearFailures
    split
    · exact uses_bind (await_uses (perform_uses trivial)) fun _ => uses_ret _
    · exact uses_ret _
  have rehashes : (AuthService.rehash user password).Uses LoginWrites := by
    unfold AuthService.rehash
    split
    · exact uses_bind ((hash_derives _).mono fun _ => Derives.loginWrites) fun _ =>
        uses_bind (await_uses (perform_uses trivial)) fun _ => uses_ret _
    · exact uses_ret _
  have creates : (SessionsService.create env user.id userAgent).Uses LoginWrites :=
    uses_bind (perform_uses trivial) fun _ => uses_bind (perform_uses trivial) fun _ =>
      uses_bind (await_uses (perform_uses trivial)) fun _ => uses_ret _
  exact uses_bind clears fun _ => uses_bind rehashes fun _ => uses_bind creates fun _ =>
    uses_bind (uses_bind (perform_uses trivial) fun _ => uses_ret _) fun _ =>
      uses_bind (ofExcept_uses _) fun _ => uses_ret _

end BajaValle
