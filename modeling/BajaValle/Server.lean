import BajaValle.Guards

/-!
# The controllers and the server

A request names its route by its constructor and carries its Authorization
header and its body. `serve` is the whole program of a request: the guards and
then the handler. The server interleaves any family of requests, one call at a
time; `other` stands for the routes that touch neither users nor sessions.
-/

namespace BajaValle

open CallPrograms Interleaving

namespace ProfileController

def nothingToUpdate : Failure := .badRequest "Indica firstName o lastName"
def samePassword : Failure :=
  .badRequest "La contraseña nueva debe ser distinta de la actual"

variable (env : Env)

def get (user : AuthUser) : Task UserProfile := do
  match ← UsersService.findById user.id with
  | none => Prog.throw .notFound
  | some stored => Prog.ofExcept (UsersService.toProfile env stored)

def update (user : AuthUser) (names : UserNames) : Task UserProfile :=
  if names.firstName = none ∧ names.lastName = none then Prog.throw nothingToUpdate
  else do
    let stored ← UsersService.updateName env user.id names
    Prog.ofExcept (UsersService.toProfile env stored)

def changeEmail (user : AuthUser) (newEmail currentPassword : String) : Task UserProfile := do
  let _ ← AuthService.verifyCurrentPassword user.id currentPassword
  let stored ← UsersService.updateEmail env user.id newEmail
  Prog.ofExcept (UsersService.toProfile env stored)

/-- The checks on a new password before anything is written. -/
def checkNewPassword (stored : User) (newPassword currentPassword : String) :
    Except Failure Unit :=
  if newPassword = currentPassword then .error samePassword
  else
    match UsersService.toProfile env stored with
    | .error e => .error e
    | .ok profile => PasswordService.assertAcceptable env newPassword (some profile.email)

def changePassword (user : AuthUser) (newPassword currentPassword : String) : Task Unit := do
  let stored ← AuthService.verifyCurrentPassword user.id currentPassword
  Prog.ofExcept (checkNewPassword env stored newPassword currentPassword)
  let passwordHash ← PasswordService.hash newPassword
  let _ ← UsersService.updatePasswordHash user.id passwordHash
  SessionsService.revokeAllForUser user.id (some user.sessionId)

def delete (user : AuthUser) (currentPassword : String) : Task Unit := do
  let _ ← AuthService.verifyCurrentPassword user.id currentPassword
  UsersService.delete user.id

end ProfileController

inductive Answer where
  | session (response : AuthResponse)
  | tokens (tokens : AuthTokens)
  | identity (id : Uuid) (role : Role)
  | profile (profile : UserProfile)
  | noContent
  | other
  deriving DecidableEq

inductive Handler where
  | register (dto : RegisterDto)
  | login (dto : LoginDto)
  | refresh (refreshToken : String)
  | logout
  | logoutAll
  | me
  | getProfile
  | updateProfile (names : UserNames)
  | changeEmail (newEmail currentPassword : String)
  | changePassword (newPassword currentPassword : String)
  | deleteAccount (currentPassword : String)
  | other (route : Route)

structure Request where
  handler : Handler
  authorization : Option String := none
  userAgent : Option String := none

/-- The decorators on the controllers of accounts and profiles. -/
def Handler.route : Handler → Route
  | .register _ => { handler := { isPublic := some true, rateLimitPolicy := some .auth } }
  | .login _ => { handler := { isPublic := some true, rateLimitPolicy := some .auth } }
  | .refresh _ => { handler :=
      { isPublic := some true, ignoreAccessToken := some true, rateLimitPolicy := some .refresh } }
  | .changeEmail _ _ => { handler := { rateLimitPolicy := some .profile } }
  | .changePassword _ _ => { handler := { rateLimitPolicy := some .profile } }
  | .deleteAccount _ => { handler := { rateLimitPolicy := some .profile } }
  | .other route => route
  | _ => {}

/-- A handler that reads the user put on the request by the guard. -/
def withUser (user : Option AuthUser) (run : AuthUser → Task Answer) : Task Answer :=
  match user with
  | none => Prog.throw .typeError
  | some user => run user

def handle (env : Env) (req : Request) (user : Option AuthUser) : Task Answer :=
  match req.handler with
  | .register dto => Answer.session <$> AuthService.register env dto req.userAgent
  | .login dto => Answer.session <$> AuthService.login env dto req.userAgent
  | .refresh refreshToken => Answer.tokens <$> AuthService.refresh env refreshToken req.userAgent
  | .logout => withUser user fun user => (fun _ => .noContent) <$> AuthService.logout user
  | .logoutAll => withUser user fun user => (fun _ => .noContent) <$> AuthService.logoutAll user
  | .me => withUser user fun user => return .identity user.id user.role
  | .getProfile => withUser user fun user => Answer.profile <$> ProfileController.get env user
  | .updateProfile names => withUser user fun user =>
      Answer.profile <$> ProfileController.update env user names
  | .changeEmail newEmail currentPassword => withUser user fun user =>
      Answer.profile <$> ProfileController.changeEmail env user newEmail currentPassword
  | .changePassword newPassword currentPassword => withUser user fun user =>
      (fun _ => .noContent) <$>
        ProfileController.changePassword env user newPassword currentPassword
  | .deleteAccount currentPassword => withUser user fun user =>
      (fun _ => .noContent) <$> ProfileController.delete user currentPassword
  | .other _ => return .other

def serve (env : Env) (req : Request) : Task Answer := do
  let user ← guards req.handler.route req.authorization
  handle env req user

/-- The server: a world, a program for each request, and the calls made so far. -/
abbrev Server := Config Nat World Choice Op Op.Res Failure Answer

abbrev ServerEvent := Event Nat Choice Op Op.Res

abbrev OwnCall := Call Op Op.Res

/-- The requests that will ever arrive, none of which has started. -/
def boot (env : Env) (reqs : Nat → Request) (w : World) : Server :=
  start w fun i => serve env (reqs i)

/-- The states that the requests can reach from a world. -/
def Reachable (env : Env) (reqs : Nat → Request) (w : World) (c : Server) : Prop :=
  Leads (exec env) (boot env reqs w) c

section Play
variable {env : Env} {reqs : Nat → Request} {w : World}

lemma play_reaches {P : Server → Prop} [DecidablePred P] (schedule : List (Nat × Choice))
    (h : (play (exec env) schedule (boot env reqs w)).any (fun c => decide (P c)) = true) :
    ∃ c, Reachable env reqs w c ∧ P c := by
  obtain ⟨c, reach, hc⟩ := leads_of_play schedule h
  exact ⟨c, reach, of_decide_eq_true hc⟩

/-- The same for a schedule with a state in between. -/
lemma play_reaches_through {P : Server → Server → Prop} [∀ c c', Decidable (P c c')]
    (first second : List (Nat × Choice))
    (h : (play (exec env) first (boot env reqs w)).any (fun c =>
      (play (exec env) second c).any fun c' => decide (P c c')) = true) :
    ∃ c c', Reachable env reqs w c ∧ Leads (exec env) c c' ∧ P c c' := by
  obtain ⟨c, reach, hc⟩ := leads_of_play first h
  obtain ⟨c', run, hc'⟩ := leads_of_play second hc
  exact ⟨c, c', reach, run, of_decide_eq_true hc'⟩

end Play

namespace Plain

/-- The stored form of a text. -/
def stored (plaintext context : String) : String :=
  EncryptionService.payload gcm (.finite 1) [1] (List.replicate 12 0) plaintext context

def passwordHash (password : String) : String :=
  PasswordService.phc PasswordService.PARAMS (List.replicate 16 0) (utf8 password)

def user : User where
  id := 1
  emailHash := UsersService.emailHash env "ana@valle.mx"
  emailEnc := stored "ana@valle.mx" UsersService.FIELD.email
  firstNameEnc := stored "Ana" UsersService.FIELD.firstName
  lastNameEnc := stored "Ruiz" UsersService.FIELD.lastName
  passwordHash := passwordHash "secret"
  role := .CLIENT
  failedLoginAttempts := 0
  lockedUntil := none
  createdAt := 0
  updatedAt := 0

/-- One account and no session. -/
def world : World where
  users := [user]
  sessions := []
  clock := 0
  dummyHash := .unset
  uuids := [1]
  draws := []

def login (password : String) : Request where
  handler := .login { email := "ana@valle.mx", password }

/-- The first refresh token of a run, and the next ones. -/
def bytes (n : UInt8) : Bytes := List.replicate 32 n

def refresh (n : UInt8) : Request where
  handler := .refresh (SessionsService.tokenText (bytes n))

/-- The header of the user of `world` in a session. -/
def bearer (sessionId : Uuid) : String :=
  "Bearer " ++ jwtSign { sub := 1, role := .CLIENT, sid := sessionId }

/-- Request 0 logs in; every other one refreshes the token that it got. -/
def loginThenRefresh : Nat → Request
  | 0 => login "secret"
  | _ => refresh 1

/-- Request 0 logs in up to the insertion of its session. -/
def loggedIn : List (Nat × Choice) :=
  [(0, { now := 1 }), (0, { now := 2 }), (0, { now := 3, uuid := 5 }),
    (0, { now := 4, bytes := bytes 1 }), (0, { now := 5, uuid := 6 })]

/-- The session that request 0 inserts. -/
def firstSession : Session where
  id := 6
  userId := 1
  tokenHash := SessionsService.hashToken env (SessionsService.tokenText (bytes 1))
  familyId := 5
  expiresAt := 5 + SessionsService.ttlMs env
  revokedAt := none
  userAgent := none
  createdAt := 5

/-- One account with one live session. -/
def liveWorld : World := { world with sessions := [firstSession], uuids := [1, 5, 6] }

/-- A request refreshes up to the insertion of its session. -/
def refreshed (i : Nat) : List (Nat × Choice) :=
  [(i, { now := 6 }), (i, { now := 7 }), (i, { now := 8 }),
    (i, { now := 9, bytes := bytes 2 }), (i, { now := 10, uuid := 7 })]

end Plain
end BajaValle
