import BajaValle.Passwords
import BajaValle.Sessions

/-!
# AuthService

Registration, login with its failure counter and lock, refresh and logout. The
answers carry the tokens that the session and the token library produced.
-/

namespace BajaValle

open CallPrograms

structure AuthUser where
  id : Uuid
  role : Role
  sessionId : Uuid
  deriving DecidableEq

structure AuthTokens where
  accessToken : String
  refreshToken : String
  expiresIn : Nat
  deriving DecidableEq

structure AuthResponse where
  tokens : AuthTokens
  user : UserProfile
  deriving DecidableEq

structure RegisterDto where
  firstName : String
  lastName : String
  email : String
  password : String

structure LoginDto where
  email : String
  password : String

namespace AuthService

def MAX_FAILED_LOGINS : Nat := 5
def LOCK_MS : Nat := 15 * 60 * 1000

def invalidCredentials : Failure := .unauthorized "Credenciales inválidas"
def wrongCurrentPassword : Failure := .unauthorized "La contraseña actual es incorrecta"

variable (env : Env)

def issueTokens (userId : Uuid) (role : Role) (sessionId : Uuid) (refreshToken : String) :
    Task AuthTokens := do
  let accessToken ← perform (.jwtSign { sub := userId, role, sid := sessionId })
  return { accessToken, refreshToken, expiresIn := env.JWT_ACCESS_TTL_SECONDS }

def startSession (user : User) (userAgent : Option String) : Task AuthResponse := do
  let (session, refreshToken) ← SessionsService.create env user.id userAgent
  let tokens ← issueTokens env user.id user.role session.id refreshToken
  let profile ← Prog.ofExcept (UsersService.toProfile env user)
  return { tokens, user := profile }

def register (dto : RegisterDto) (userAgent : Option String) : Task AuthResponse := do
  Prog.ofExcept (PasswordService.assertAcceptable env dto.password (some dto.email))
  let passwordHash ← PasswordService.hash dto.password
  let user ← UsersService.create env dto.email dto.firstName dto.lastName passwordHash none
  startSession env user userAgent

def registerFailedLogin (userId : Uuid) : Task Unit := do
  let user ← UsersService.recordFailedLogin userId
  if MAX_FAILED_LOGINS ≤ user.failedLoginAttempts then do
    let _ ← UsersService.lock userId LOCK_MS
    return ()
  else return ()

/-- `user.lockedUntil && user.lockedUntil > new Date()` -/
def isLocked (user : User) : Task Bool :=
  match user.lockedUntil with
  | none => return false
  | some lockedUntil => do
    let now ← perform .now
    return now < lockedUntil

def clearFailures (user : User) : Task Unit :=
  if 0 < user.failedLoginAttempts ∨ user.lockedUntil.isSome then do
    let _ ← UsersService.clearFailedLogins user.id
    return ()
  else return ()

def rehash (user : User) (password : String) : Task Unit :=
  if PasswordService.needsRehash user.passwordHash then do
    let passwordHash ← PasswordService.hash password
    let _ ← UsersService.updatePasswordHash user.id passwordHash
    return ()
  else return ()

/-- What follows a password that matched. -/
def acceptLogin (user : User) (password : String) (userAgent : Option String) :
    Task AuthResponse := do
  clearFailures user
  rehash user password
  startSession env user userAgent

def login (dto : LoginDto) (userAgent : Option String) : Task AuthResponse := do
  match ← UsersService.findByEmail env dto.email with
  | none => do
    PasswordService.verifyAgainstDummy dto.password
    Prog.throw invalidCredentials
  | some user =>
    if ← isLocked user then do
      PasswordService.verifyAgainstDummy dto.password
      Prog.throw invalidCredentials
    else if ← PasswordService.verify user.passwordHash dto.password then
      acceptLogin env user dto.password userAgent
    else do
      registerFailedLogin user.id
      Prog.throw invalidCredentials

def refresh (refreshToken : String) (userAgent : Option String) : Task AuthTokens := do
  let rotated ← SessionsService.rotate env refreshToken userAgent
  issueTokens env rotated.user.id rotated.user.role rotated.session.id rotated.refreshToken

def logout (user : AuthUser) : Task Unit := SessionsService.revoke user.sessionId

def logoutAll (user : AuthUser) : Task Unit := SessionsService.revokeAllForUser user.id none

def verifyCurrentPassword (userId : Uuid) (password : String) : Task User := do
  match ← UsersService.findById userId with
  | none => Prog.throw wrongCurrentPassword
  | some user =>
    if ← PasswordService.verify user.passwordHash password then return user
    else Prog.throw wrongCurrentPassword

end AuthService
end BajaValle
