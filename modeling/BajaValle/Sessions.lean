import BajaValle.Users

/-!
# SessionsService

A refresh token is a random string stored as its digest. Rotation reads the
session, checks its expiry, claims it by revoking it on the condition that it
is not yet revoked, and then inserts the successor in the same family.
-/

namespace BajaValle

open CallPrograms

namespace SessionsService

def DAY_MS : Nat := 24 * 60 * 60 * 1000
def USER_AGENT_MAX : Nat := 255
def REUSE_GRACE_MS : Nat := 10 * 1000
def TOKEN_BYTES : Nat := 32

def sessionInvalid : Failure := .unauthorized "Sesión inválida o expirada"

variable (env : Env)

def ttlMs : Nat := env.REFRESH_TOKEN_TTL_DAYS * DAY_MS

def hashToken (token : String) : String :=
  Base64.encode base64url (env.sha256 (utf8 token))

/-- `randomBytes(32).toString('base64url')` -/
def tokenText (bytes : Bytes) : String := Base64.encode base64url bytes

/-- Insert a session in a given family. -/
def createIn (userId : Uuid) (userAgent : Option String) (familyId : Uuid) :
    Task (Session × String) := do
  let refreshToken := tokenText (← perform (.randomBytes TOKEN_BYTES))
  let session ← await (perform (.sessionCreate
    { userId, familyId, tokenHash := hashToken env refreshToken,
      expiresAt := ttlMs env, userAgent := userAgent.map (slice USER_AGENT_MAX) }))
  return (session, refreshToken)

/-- `create` with its default: a new family. -/
def create (userId : Uuid) (userAgent : Option String) : Task (Session × String) := do
  let familyId ← perform .randomUUID
  createIn env userId userAgent familyId

def unrevokedSession (sessionId : Uuid) : SessionWhere :=
  { id := some sessionId, unrevoked := true }

def unrevokedFamily (familyId : Uuid) : SessionWhere :=
  { familyId := some familyId, unrevoked := true }

def unrevokedOfUser (userId : Uuid) (exceptSessionId : Option Uuid) : SessionWhere :=
  { userId := some userId, unrevoked := true, idNot := exceptSessionId }

def activeSession (sessionId : Uuid) : SessionWhere :=
  { id := some sessionId, unrevoked := true, unexpired := true }

section Filters
variable {id : Uuid} {other : Option Uuid} {now : Nat} {s : Session}

@[simp] lemma unrevokedSession_holds :
    (unrevokedSession id).holds now s = true ↔ s.id = id ∧ s.revokedAt = none := by
  simpa [unrevokedSession, SessionWhere.holds] using fun _ => eq_comm

@[simp] lemma unrevokedFamily_holds :
    (unrevokedFamily id).holds now s = true ↔ s.familyId = id ∧ s.revokedAt = none := by
  simpa [unrevokedFamily, SessionWhere.holds] using fun _ => eq_comm

@[simp] lemma unrevokedOfUser_holds :
    (unrevokedOfUser id other).holds now s = true ↔
      s.userId = id ∧ (∀ x, other = some x → s.id ≠ x) ∧ s.revokedAt = none := by
  cases other <;> simp [unrevokedOfUser, SessionWhere.holds] <;> grind

@[simp] lemma activeSession_holds :
    (activeSession id).holds now s = true ↔
      s.id = id ∧ s.revokedAt = none ∧ now < s.expiresAt := by
  simp only [activeSession, SessionWhere.holds]
  grind

end Filters

/-- `session.updateMany({ where, data: { revokedAt: new Date() } })` -/
def revocation (filter : SessionWhere) : Op := .sessionUpdateMany filter (.fromNow 0)

def revokeFamily (familyId : Uuid) : Task Unit := do
  let _ ← await (perform (revocation (unrevokedFamily familyId)))
  return ()

/-- What a lost claim leads to: reuse within the grace period only fails, later
reuse also revokes the family. -/
def reuse (session : Session) : Task Unit := do
  let used ← await (perform (.sessionFindById session.id))
  match used.bind (·.revokedAt) with
  | some revokedAt =>
    let now ← perform .now
    if now - revokedAt < REUSE_GRACE_MS then Prog.throw sessionInvalid
    else do
      revokeFamily session.familyId
      Prog.throw sessionInvalid
  | none => do
    revokeFamily session.familyId
    Prog.throw sessionInvalid

structure Rotated where
  session : Session
  refreshToken : String
  user : User

def rotate (refreshToken : String) (userAgent : Option String) : Task Rotated := do
  match ← await (perform (.sessionFindByTokenHash (hashToken env refreshToken))) with
  | none => Prog.throw sessionInvalid
  | some (session, user) =>
    let now ← perform .now
    if session.expiresAt ≤ now then Prog.throw sessionInvalid
    else do
      let claimed ← await (perform (revocation (unrevokedSession session.id)))
      if claimed ≠ 1 then do
        reuse session
        Prog.throw sessionInvalid
      else do
        let (next, refreshToken) ← createIn env session.userId userAgent session.familyId
        return { session := next, refreshToken, user }

def findActive (sessionId : Uuid) : Task (Option (Session × User)) :=
  await (perform (.sessionFindFirst (activeSession sessionId)))

def revoke (sessionId : Uuid) : Task Unit := do
  let _ ← await (perform (revocation (unrevokedSession sessionId)))
  return ()

def revokeAllForUser (userId : Uuid) (exceptSessionId : Option Uuid) : Task Unit := do
  let _ ← await (perform (revocation (unrevokedOfUser userId exceptSessionId)))
  return ()

end SessionsService
end BajaValle
