import BajaValle.Database
import BajaValle.Encryption

/-!
# UsersService

Personal data is enciphered on the way in, each column under its own context,
and the email is also stored as a blind index that the database keeps unique.
-/

namespace BajaValle

open CallPrograms

/-- A computation of the service: it awaits calls and may fail. -/
abbrev Task (α : Type) := Prog Op Op.Res Failure α

def perform (op : Op) : Task op.Res := Prog.perform op

/-- A query awaited without a handler: its errors are raised. -/
def await {β : Type} (run : Task (Except PrismaError β)) : Task β := do
  match ← run with
  | .ok value => return value
  | .error error => Prog.throw (.prisma error)

namespace EncryptionService

/-- `encrypt`, drawing its iv. -/
def encryptFresh (env : Env) (plaintext context : String) : Task String := do
  let iv ← perform (.randomBytes IV_BYTES)
  Prog.ofExcept (encrypt env iv plaintext context)

def reencrypt (env : Env) (payload context : String) : Task String := do
  let plaintext ← Prog.ofExcept (decrypt env payload context)
  encryptFresh env plaintext context

end EncryptionService

structure UserProfile where
  id : Uuid
  email : String
  firstName : String
  lastName : String
  role : Role
  createdAt : Nat
  deriving DecidableEq

structure UserNames where
  firstName : Option String
  lastName : Option String

namespace UsersService

namespace FIELD
def email : String := "users.email"
def firstName : String := "users.firstName"
def lastName : String := "users.lastName"
end FIELD

def emailConflict : Failure := .conflict "Ya existe una cuenta con ese correo"

variable (env : Env)

def emailHash (email : String) : String :=
  EncryptionService.blindIndex env (normalizeEmail env.unicode email) FIELD.email

/-- The blind index of an email and its encryption. -/
def encryptEmail (email : String) : Task (String × String) := do
  let normalized := normalizeEmail env.unicode email
  let emailEnc ← EncryptionService.encryptFresh env normalized FIELD.email
  return (EncryptionService.blindIndex env normalized FIELD.email, emailEnc)

def findByEmail (email : String) : Task (Option User) :=
  await (perform (.userFindByEmailHash (emailHash env email)))

def findById (id : Uuid) : Task (Option User) := await (perform (.userFindById id))

/-- A query in a `try` that turns a unique violation into a conflict. -/
def conflictOnDuplicate (run : Task (Except PrismaError User)) : Task User := do
  match ← run with
  | .ok user => return user
  | .error .uniqueViolation => Prog.throw emailConflict
  | .error error => Prog.throw (.prisma error)

def create (email firstName lastName passwordHash : String) (role : Option Role) :
    Task User := do
  let (emailHash, emailEnc) ← encryptEmail env email
  let firstNameEnc ← EncryptionService.encryptFresh env firstName FIELD.firstName
  let lastNameEnc ← EncryptionService.encryptFresh env lastName FIELD.lastName
  conflictOnDuplicate (perform (.userCreate
    { emailHash, emailEnc, firstNameEnc, lastNameEnc, passwordHash,
      role := role.getD .CLIENT }))

def toProfile (user : User) : Except Failure UserProfile := do
  let email ← EncryptionService.decrypt env user.emailEnc FIELD.email
  let firstName ← EncryptionService.decrypt env user.firstNameEnc FIELD.firstName
  let lastName ← EncryptionService.decrypt env user.lastNameEnc FIELD.lastName
  return { id := user.id, email, firstName, lastName, role := user.role,
           createdAt := user.createdAt }

variable {env} in
lemma toProfile_eq_ok {user : User} {profile : UserProfile} :
    toProfile env user = .ok profile ↔ ∃ email firstName lastName,
      EncryptionService.decrypt env user.emailEnc FIELD.email = .ok email ∧
      EncryptionService.decrypt env user.firstNameEnc FIELD.firstName = .ok firstName ∧
      EncryptionService.decrypt env user.lastNameEnc FIELD.lastName = .ok lastName ∧
      { id := user.id, email, firstName, lastName, role := user.role,
        createdAt := user.createdAt } = profile := by
  simp only [toProfile, Prog.except_bind_eq_ok, pure, Except.pure, Except.ok.injEq,
    exists_and_left]

variable {env} in
/-- A profile fails as the column that does not decipher. -/
lemma toProfile_eq_error {user : User} {e : Failure} (failed : toProfile env user = .error e) :
    ∃ payload context, EncryptionService.decrypt env payload context = .error e := by
  simp only [toProfile, Prog.except_bind_eq_error] at failed
  rcases failed with email | ⟨_, _, firstName | ⟨_, _, lastName | ⟨_, _, ended⟩⟩⟩
  · exact ⟨_, _, email⟩
  · exact ⟨_, _, firstName⟩
  · exact ⟨_, _, lastName⟩
  · cases ended

/-- `name && encrypt(name, context)`: an empty name is stored as it is. -/
def encryptName (name : Option String) (context : String) : Task (Option String) :=
  match name with
  | none => return none
  | some name =>
    if name = "" then return some ""
    else do
      let enc ← EncryptionService.encryptFresh env name context
      return some enc

def updateName (id : Uuid) (names : UserNames) : Task User := do
  let firstNameEnc ← encryptName env names.firstName FIELD.firstName
  let lastNameEnc ← encryptName env names.lastName FIELD.lastName
  await (perform (.userUpdate id { firstNameEnc, lastNameEnc }))

def updateEmail (id : Uuid) (email : String) : Task User := do
  let (emailHash, emailEnc) ← encryptEmail env email
  conflictOnDuplicate (perform (.userUpdate id
    { emailHash := some emailHash, emailEnc := some emailEnc }))

lemma create_eq (email firstName lastName passwordHash : String) (role : Option Role) :
    create env email firstName lastName passwordHash role = (do
      let emailEnc ← EncryptionService.encryptFresh env (normalizeEmail env.unicode email)
        FIELD.email
      let firstNameEnc ← EncryptionService.encryptFresh env firstName FIELD.firstName
      let lastNameEnc ← EncryptionService.encryptFresh env lastName FIELD.lastName
      conflictOnDuplicate (perform (.userCreate
        { emailHash := emailHash env email, emailEnc, firstNameEnc, lastNameEnc, passwordHash,
          role := role.getD .CLIENT }))) := by
  simp only [create, encryptEmail, emailHash, bind_assoc, pure_bind]

lemma updateEmail_eq (id : Uuid) (email : String) :
    updateEmail env id email = (do
      let emailEnc ← EncryptionService.encryptFresh env (normalizeEmail env.unicode email)
        FIELD.email
      conflictOnDuplicate (perform (.userUpdate id
        { emailHash := some (emailHash env email), emailEnc := some emailEnc }))) := by
  simp only [updateEmail, encryptEmail, emailHash, bind_assoc, pure_bind]

def updatePasswordHash (id : Uuid) (passwordHash : String) : Task User :=
  await (perform (.userUpdate id { passwordHash := some passwordHash }))

def updateRole (id : Uuid) (role : Role) : Task User :=
  await (perform (.userUpdate id { role := some role }))

def recordFailedLogin (id : Uuid) : Task User :=
  await (perform (.userUpdate id { failedLoginAttempts := some (.increment 1) }))

/-- `until` is an offset from the time of the update. -/
def lock (id : Uuid) (until_ : Nat) : Task User :=
  await (perform (.userUpdate id
    { failedLoginAttempts := some (.set 0), lockedUntil := some (.fromNow until_) }))

def clearFailedLogins (id : Uuid) : Task User :=
  await (perform (.userUpdate id
    { failedLoginAttempts := some (.set 0), lockedUntil := some .null }))

def delete (id : Uuid) : Task Unit := do
  let _ ← await (perform (.userDelete id))
  return ()

end UsersService
end BajaValle
