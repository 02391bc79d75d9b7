import BajaValle.Lib.Interleaving
import BajaValle.Platform
import Mathlib.Data.List.Sort
import Mathlib.Tactic.Simps.Basic

/-!
# The calls of the service and the world that answers them

A call is what the code awaits or draws from outside: one Prisma query, one
argon2 derivation, one token operation, a random draw, a reading of the clock.
Each is one atomic step. A `new Date()` among the arguments of a query is read
in the step of that query, so such an argument is an offset from the present;
a `new Date()` of its own is the call `now`. A choice resolves the time of the
step, what it draws, whether the database or argon2 fails, and what a page is
whose cursor row is gone. Times are in milliseconds since the epoch.
-/

namespace BajaValle

structure User where
  id : Uuid
  emailHash : String
  emailEnc : String
  firstNameEnc : String
  lastNameEnc : String
  passwordHash : String
  role : Role
  failedLoginAttempts : Nat
  lockedUntil : Option Nat
  createdAt : Nat
  updatedAt : Nat
  deriving DecidableEq

structure Session where
  id : Uuid
  userId : Uuid
  tokenHash : String
  familyId : Uuid
  expiresAt : Nat
  revokedAt : Option Nat
  userAgent : Option String
  createdAt : Nat
  deriving DecidableEq

/-- `data` of `user.create` -/
structure NewUser where
  emailHash : String
  emailEnc : String
  firstNameEnc : String
  lastNameEnc : String
  passwordHash : String
  role : Role
  deriving DecidableEq

inductive DateValue where
  | null
  | fromNow (ms : Nat)
  deriving DecidableEq

def DateValue.at (now : Nat) : DateValue → Option Nat
  | .null => none
  | .fromNow ms => some (now + ms)

inductive CounterChange where
  | set (n : Nat)
  | increment (n : Nat)
  deriving DecidableEq

/-- `data` of `user.update`: a column that is `none` is left alone. -/
structure UserChanges where
  emailHash : Option String := none
  emailEnc : Option String := none
  firstNameEnc : Option String := none
  lastNameEnc : Option String := none
  passwordHash : Option String := none
  role : Option Role := none
  failedLoginAttempts : Option CounterChange := none
  lockedUntil : Option DateValue := none
  deriving DecidableEq

/-- `data` of `session.create`; `expiresAt` is an offset. -/
structure NewSession where
  userId : Uuid
  familyId : Uuid
  tokenHash : String
  expiresAt : Nat
  userAgent : Option String
  deriving DecidableEq

/-- `where` of the session queries: `unrevoked` is `revokedAt: null` and
`unexpired` is `expiresAt: { gt: new Date() }`. -/
structure SessionWhere where
  id : Option Uuid := none
  idNot : Option Uuid := none
  userId : Option Uuid := none
  familyId : Option Uuid := none
  unrevoked : Bool := false
  unexpired : Bool := false
  deriving DecidableEq

def SessionWhere.holds (c : SessionWhere) (now : Nat) (s : Session) : Bool :=
  c.id.all (· = s.id) && c.idNot.all (· ≠ s.id) && c.userId.all (· = s.userId) &&
    c.familyId.all (· = s.familyId) && (!c.unrevoked || s.revokedAt = none) &&
    (!c.unexpired || now < s.expiresAt)

inductive Op where
  | now
  | randomUUID
  | randomBytes (n : Nat)
  | argon2 (message : String) (nonce : Bytes) (params : Argon2Params)
  | dummyStart
  | dummySettle (hash : Except Failure String)
  | dummyAwait
  | jwtSign (payload : AccessTokenPayload)
  | jwtVerify (token : String)
  | userFindByEmailHash (emailHash : String)
  | userFindById (id : Uuid)
  | userFindMany (cursor : Option Uuid) (take : Nat)
  | userCreate (data : NewUser)
  | userUpdate (id : Uuid) (data : UserChanges)
  | userDelete (id : Uuid)
  | sessionFindByTokenHash (tokenHash : String)
  | sessionFindById (id : Uuid)
  | sessionFindFirst (filter : SessionWhere)
  | sessionCreate (data : NewSession)
  | sessionUpdateMany (filter : SessionWhere) (revokedAt : DateValue)
  deriving DecidableEq

@[reducible] def Op.Res : Op → Type
  | .now => Nat
  | .randomUUID => Uuid
  | .randomBytes _ => Bytes
  | .argon2 _ _ _ => Except Failure Bytes
  | .dummyStart => Bool
  | .dummySettle _ => Unit
  | .dummyAwait => Except Failure String
  | .jwtSign _ => String
  | .jwtVerify _ => Option AccessTokenPayload
  | .userFindByEmailHash _ => Except PrismaError (Option User)
  | .userFindById _ => Except PrismaError (Option User)
  | .userFindMany _ _ => Except PrismaError (List User)
  | .userCreate _ => Except PrismaError User
  | .userUpdate _ _ => Except PrismaError User
  | .userDelete _ => Except PrismaError User
  | .sessionFindByTokenHash _ => Except PrismaError (Option (Session × User))
  | .sessionFindById _ => Except PrismaError (Option Session)
  | .sessionFindFirst _ => Except PrismaError (Option (Session × User))
  | .sessionCreate _ => Except PrismaError Session
  | .sessionUpdateMany _ _ => Except PrismaError Nat

instance : (op : Op) → DecidableEq op.Res
  | .now | .randomUUID => inferInstanceAs (DecidableEq Nat)
  | .randomBytes _ => inferInstanceAs (DecidableEq Bytes)
  | .argon2 _ _ _ => inferInstanceAs (DecidableEq (Except Failure Bytes))
  | .dummyStart => inferInstanceAs (DecidableEq Bool)
  | .dummySettle _ => inferInstanceAs (DecidableEq Unit)
  | .dummyAwait => inferInstanceAs (DecidableEq (Except Failure String))
  | .jwtSign _ => inferInstanceAs (DecidableEq String)
  | .jwtVerify _ => inferInstanceAs (DecidableEq (Option AccessTokenPayload))
  | .userFindByEmailHash _ | .userFindById _ =>
    inferInstanceAs (DecidableEq (Except PrismaError (Option User)))
  | .userFindMany _ _ => inferInstanceAs (DecidableEq (Except PrismaError (List User)))
  | .userCreate _ | .userUpdate _ _ | .userDelete _ =>
    inferInstanceAs (DecidableEq (Except PrismaError User))
  | .sessionFindByTokenHash _ | .sessionFindFirst _ =>
    inferInstanceAs (DecidableEq (Except PrismaError (Option (Session × User))))
  | .sessionFindById _ => inferInstanceAs (DecidableEq (Except PrismaError (Option Session)))
  | .sessionCreate _ => inferInstanceAs (DecidableEq (Except PrismaError Session))
  | .sessionUpdateMany _ _ => inferInstanceAs (DecidableEq (Except PrismaError Nat))

/-- `PasswordService.dummyHash`: unset, a pending promise, or a settled one. -/
inductive DummyHash where
  | unset
  | pending
  | settled (hash : Except Failure String)

/-- The database, the clock, the cached dummy hash of the process, and every
id and random string drawn so far. -/
structure World where
  users : List User
  sessions : List Session
  clock : Nat
  dummyHash : DummyHash
  uuids : List Uuid
  draws : List Bytes

structure Choice where
  now : Nat
  uuid : Uuid := 0
  bytes : Bytes := []
  fails : Bool := false
  emptyPage : Bool := false

/-- Draws of at least this many bytes never repeat. -/
def UNIQUE_BYTES : Nat := 16

def CounterChange.apply (n : Nat) : CounterChange → Nat
  | .set m => m
  | .increment m => n + m

@[simps] def UserChanges.apply (c : UserChanges) (now : Nat) (u : User) : User where
  id := u.id
  emailHash := c.emailHash.getD u.emailHash
  emailEnc := c.emailEnc.getD u.emailEnc
  firstNameEnc := c.firstNameEnc.getD u.firstNameEnc
  lastNameEnc := c.lastNameEnc.getD u.lastNameEnc
  passwordHash := c.passwordHash.getD u.passwordHash
  role := c.role.getD u.role
  failedLoginAttempts := c.failedLoginAttempts.elim u.failedLoginAttempts
    (·.apply u.failedLoginAttempts)
  lockedUntil := c.lockedUntil.elim u.lockedUntil (·.at now)
  createdAt := u.createdAt
  updatedAt := now

@[simps] def NewUser.row (d : NewUser) (id : Uuid) (now : Nat) : User where
  id := id
  emailHash := d.emailHash
  emailEnc := d.emailEnc
  firstNameEnc := d.firstNameEnc
  lastNameEnc := d.lastNameEnc
  passwordHash := d.passwordHash
  role := d.role
  failedLoginAttempts := 0
  lockedUntil := none
  createdAt := now
  updatedAt := now

@[simps] def NewSession.row (d : NewSession) (id : Uuid) (now : Nat) : Session where
  id := id
  userId := d.userId
  tokenHash := d.tokenHash
  familyId := d.familyId
  expiresAt := now + d.expiresAt
  revokedAt := none
  userAgent := d.userAgent
  createdAt := now

namespace World

/-- `include: { user }` -/
def withUser (w : World) (s : Session) : Option (Session × User) :=
  (w.users.find? (·.id = s.userId)).map fun u => (s, u)

/-- The unique index on `emailHash`, for a row with this id. -/
def emailTaken (w : World) (id : Uuid) (emailHash : String) : Bool :=
  w.users.any fun u => u.id ≠ id && u.emailHash = emailHash

def userCreate (w : World) (id : Uuid) (d : NewUser) : Except PrismaError User × World :=
  if w.emailTaken id d.emailHash then (.error .uniqueViolation, w)
  else
    let u := d.row id w.clock
    (.ok u, { w with users := w.users ++ [u] })

def userUpdate (w : World) (id : Uuid) (c : UserChanges) : Except PrismaError User × World :=
  match w.users.find? (·.id = id) with
  | none => (.error .recordNotFound, w)
  | some u =>
    if c.emailHash.any (w.emailTaken id) then (.error .uniqueViolation, w)
    else (.ok (c.apply w.clock u),
      { w with users := w.users.map fun v => if v.id = id then c.apply w.clock v else v })

/-- The sessions of a deleted user go with it: `ON DELETE CASCADE`. -/
def userDelete (w : World) (id : Uuid) : Except PrismaError User × World :=
  match w.users.find? (·.id = id) with
  | none => (.error .recordNotFound, w)
  | some u => (.ok u, { w with
      users := w.users.filter (·.id ≠ id), sessions := w.sessions.filter (·.userId ≠ id) })

def sessionCreate (w : World) (id : Uuid) (d : NewSession) : Except PrismaError Session × World :=
  if w.sessions.any (·.tokenHash = d.tokenHash) then (.error .uniqueViolation, w)
  else if !w.users.any (·.id = d.userId) then (.error .foreignKeyViolation, w)
  else
    let s := d.row id w.clock
    (.ok s, { w with sessions := w.sessions ++ [s] })

def sessionUpdateMany (w : World) (c : SessionWhere) (date : DateValue) : Nat × World :=
  ((w.sessions.filter (c.holds w.clock)).length,
    { w with sessions := w.sessions.map fun s =>
        if c.holds w.clock s then { s with revokedAt := date.at w.clock } else s })

/-- A page in id order, less the cursor row if there is one. When the cursor row
is gone the page is empty or lacks the first row after the cursor. -/
def userPage (w : World) (emptyPage : Bool) (cursor : Option Uuid) (take : Nat) : List User :=
  let rows := w.users.insertionSort (fun u v => u.id ≤ v.id)
  match cursor with
  | none => rows.take take
  | some id =>
    if emptyPage && !rows.any (·.id = id) then []
    else ((rows.filter fun u => id ≤ u.id).drop 1).take take

end World

/-- A query that the choice may make fail without effect. -/
def query {β : Type} (ch : Choice) (w : World) (run : Except PrismaError β × World) :
    Option (Except PrismaError β × World) :=
  if ch.fails then some (.error .unavailable, w) else some run

/-- A query that inserts a row with a fresh id. -/
def insertion {β : Type} (ch : Choice) (w : World)
    (run : World → Except PrismaError β × World) : Option (Except PrismaError β × World) :=
  if ch.uuid ∈ w.uuids then none
  else query ch w (run { w with uuids := ch.uuid :: w.uuids })

def answer (env : Env) (ch : Choice) : (op : Op) → World → Option (op.Res × World)
  | .now, w => some (w.clock, w)
  | .randomUUID, w =>
    if ch.uuid ∈ w.uuids then none else some (ch.uuid, { w with uuids := ch.uuid :: w.uuids })
  | .randomBytes n, w =>
    if ch.bytes.length = n ∧ (n < UNIQUE_BYTES ∨ ch.bytes ∉ w.draws) then
      some (ch.bytes, { w with draws := ch.bytes :: w.draws })
    else none
  | .argon2 message nonce params, w =>
    if ch.fails then some (.error .argon2Error, w)
    else some ((env.argon2id message nonce params).elim (.error .argon2Error) .ok, w)
  | .dummyStart, w =>
    match w.dummyHash with
    | .unset => some (true, { w with dummyHash := .pending })
    | _ => some (false, w)
  | .dummySettle hash, w => some ((), { w with dummyHash := .settled hash })
  | .dummyAwait, w =>
    match w.dummyHash with
    | .settled hash => some (hash, w)
    | _ => none
  | .jwtSign payload, w => some (env.jwtSign payload w.clock, w)
  | .jwtVerify token, w => some (env.jwtVerify token w.clock, w)
  | .userFindByEmailHash emailHash, w =>
    query ch w (.ok (w.users.find? (·.emailHash = emailHash)), w)
  | .userFindById id, w => query ch w (.ok (w.users.find? (·.id = id)), w)
  | .userFindMany cursor take, w => query ch w (.ok (w.userPage ch.emptyPage cursor take), w)
  | .userCreate data, w => insertion ch w fun w => w.userCreate ch.uuid data
  | .userUpdate id data, w => query ch w (w.userUpdate id data)
  | .userDelete id, w => query ch w (w.userDelete id)
  | .sessionFindByTokenHash tokenHash, w =>
    query ch w (.ok ((w.sessions.find? (·.tokenHash = tokenHash)).bind w.withUser), w)
  | .sessionFindById id, w => query ch w (.ok (w.sessions.find? (·.id = id)), w)
  | .sessionFindFirst filter, w =>
    query ch w (.ok ((w.sessions.find? (filter.holds w.clock)).bind w.withUser), w)
  | .sessionCreate data, w => insertion ch w fun w => w.sessionCreate ch.uuid data
  | .sessionUpdateMany filter date, w =>
    query ch w (.ok (w.sessionUpdateMany filter date).1, (w.sessionUpdateMany filter date).2)

/-- One call at the time the choice names; the clock never runs back. -/
def exec (env : Env) (ch : Choice) (op : Op) (w : World) : Option (op.Res × World) :=
  if ch.now < w.clock then none else answer env ch op { w with clock := ch.now }

end BajaValle
