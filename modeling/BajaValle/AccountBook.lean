import BajaValle.DummyHash
import BajaValle.Lib.RelatedTables
import BajaValle.PasswordPolicy
import BajaValle.PersonalData
import BajaValle.Rehashing
import BajaValle.StoreRefinement

/-!
# The account book

What the accounts are for, as a program over plain data: a list of accounts as their
owners know them, and what each request makes of it. It has no keys, hashes,
ciphertexts or sessions and makes no calls. `Mirrors` ties the users table to it.
-/

namespace BajaValle

open CallPrograms Prog RelatedTables AuthService SessionsService

/-! ## Accounts in the clear -/

/-- An account as its owner knows it. -/
structure Card extends Person where
  id : Uuid
  password : String
  role : Role
  createdAt : Nat
  failedLogins : Nat := 0
  lockedUntil : Option Nat := none
  deriving DecidableEq

namespace Card
variable (card : Card)

def profile : UserProfile where
  id := card.id
  email := card.email
  firstName := card.firstName
  lastName := card.lastName
  role := card.role
  createdAt := card.createdAt

def isLocked (now : Nat) : Bool := card.lockedUntil.any (now < ·)

def counted : Card := { card with failedLogins := card.failedLogins + 1 }

def lockedFrom (now : Nat) : Card :=
  { card with failedLogins := 0, lockedUntil := some (now + LOCK_MS) }

/-- One more wrong password. -/
def mistaken (now : Nat) : Card :=
  if MAX_FAILED_LOGINS ≤ card.counted.failedLogins then card.counted.lockedFrom now
  else card.counted

def cleared : Card := { card with failedLogins := 0, lockedUntil := none }

def renamed (names : UserNames) : Card := { card with toPerson := card.toPerson.rename names }

def moved (email : String) : Card := { card with email }

@[simp] lemma moved_id (email : String) : (card.moved email).id = card.id := rfl

@[simp] lemma moved_email (email : String) : (card.moved email).email = email := rfl

def secured (password : String) : Card := { card with password }

end Card

abbrev Book := List Card

inductive Reply where
  | session (profile : UserProfile)
  | identity (id : Uuid) (role : Role)
  | profile (profile : UserProfile)
  | noContent
  deriving DecidableEq

/-- The id that a request draws for an account, when it looks at the clock, and when
it writes last. -/
structure Moment where
  id : Uuid
  now : Nat
  ended : Nat

namespace Book
variable (book : Book)

def withId (id : Uuid) : Option Card := book.find? fun card => card.id = id

def withEmail (email : String) : Option Card := book.find? fun card => card.email = email

def edit (id : Uuid) (f : Card → Card) : Book :=
  book.map fun card => if card.id = id then f card else card

def without (id : Uuid) : Book := book.filter fun card => card.id ≠ id

/-- The account, if this is its password. -/
def confirmed (id : Uuid) (password : String) : Option Card :=
  (book.withId id).filter fun card => card.password = password

section Requests
variable (env : Env)

def register (dto : RegisterDto) (m : Moment) : Except Failure Reply × Book :=
  match PasswordService.assertAcceptable env dto.password (some dto.email) with
  | .error e => (.error e, book)
  | .ok () =>
    let email := normalizeEmail env.unicode dto.email
    if (book.withEmail email).isSome then (.error UsersService.emailConflict, book)
    else
      let card : Card :=
        { id := m.id, email, firstName := dto.firstName, lastName := dto.lastName,
          password := dto.password, role := .CLIENT, createdAt := m.now }
      (.ok (.session card.profile), book ++ [card])

def login (dto : LoginDto) (m : Moment) : Except Failure Reply × Book :=
  match book.withEmail (normalizeEmail env.unicode dto.email) with
  | none => (.error invalidCredentials, book)
  | some card =>
    if card.isLocked m.now then (.error invalidCredentials, book)
    else if dto.password = card.password then
      (.ok (.session card.profile), book.edit card.id Card.cleared)
    else (.error invalidCredentials, book.edit card.id (Card.mistaken · m.ended))

def getProfile (id : Uuid) : Except Failure Reply × Book :=
  match book.withId id with
  | none => (.error .notFound, book)
  | some card => (.ok (.profile card.profile), book)

def updateProfile (id : Uuid) (names : UserNames) : Except Failure Reply × Book :=
  if names.firstName = none ∧ names.lastName = none then
    (.error ProfileController.nothingToUpdate, book)
  else
    match book.withId id with
    | none => (.error (.prisma .recordNotFound), book)
    | some card => (.ok (.profile (card.renamed names).profile), book.edit id (·.renamed names))

def changeEmail (id : Uuid) (newEmail currentPassword : String) : Except Failure Reply × Book :=
  match book.confirmed id currentPassword with
  | none => (.error wrongCurrentPassword, book)
  | some card =>
    let email := normalizeEmail env.unicode newEmail
    if ∃ other ∈ book, other.id ≠ id ∧ other.email = email then
      (.error UsersService.emailConflict, book)
    else (.ok (.profile (card.moved email).profile), book.edit id (·.moved email))

def changePassword (id : Uuid) (newPassword currentPassword : String) :
    Except Failure Reply × Book :=
  match book.confirmed id currentPassword with
  | none => (.error wrongCurrentPassword, book)
  | some card =>
    if newPassword = currentPassword then (.error ProfileController.samePassword, book)
    else
      match PasswordService.assertAcceptable env newPassword (some card.email) with
      | .error e => (.error e, book)
      | .ok () => (.ok .noContent, book.edit id (·.secured newPassword))

def deleteAccount (id : Uuid) (currentPassword : String) : Except Failure Reply × Book :=
  match book.confirmed id currentPassword with
  | none => (.error wrongCurrentPassword, book)
  | some _ => (.ok .noContent, book.without id)

def asCaller (caller : Option AuthUser) (run : AuthUser → Except Failure Reply × Book) :
    Except Failure Reply × Book :=
  match caller with
  | none => (.error .typeError, book)
  | some user => run user

/-- What a request whose caller is known makes of the book. The others are about
sessions only. -/
def handle (handler : Handler) (caller : Option AuthUser) (m : Moment) :
    Option (Except Failure Reply × Book) :=
  match handler with
  | .register dto => some (book.register env dto m)
  | .login dto => some (book.login env dto m)
  | .me => some (book.asCaller caller fun user => (.ok (.identity user.id user.role), book))
  | .getProfile => some (book.asCaller caller fun user => book.getProfile user.id)
  | .updateProfile names =>
    some (book.asCaller caller fun user => book.updateProfile user.id names)
  | .changeEmail newEmail currentPassword => some (book.asCaller caller fun user =>
      book.changeEmail env user.id newEmail currentPassword)
  | .changePassword newPassword currentPassword => some (book.asCaller caller fun user =>
      book.changePassword env user.id newPassword currentPassword)
  | .deleteAccount currentPassword => some (book.asCaller caller fun user =>
      book.deleteAccount user.id currentPassword)
  | _ => none

end Requests

end Book

/-! ## Tables that mirror a book -/

/-- The passwords and the emails, in normal form, that a run is about. -/
structure Lexicon where
  passwords : Set String
  emails : Set String

/-- No two of the emails have one blind index. -/
def EmailsApart (env : Env) (lex : Lexicon) : Prop :=
  lex.emails.InjOn fun email => EncryptionService.blindIndex env email UsersService.FIELD.email

/-- What the request gives is in the lexicon. -/
def Handler.Says (env : Env) (lex : Lexicon) : Handler → Prop
  | .register dto =>
    dto.password ∈ lex.passwords ∧ normalizeEmail env.unicode dto.email ∈ lex.emails
  | .login dto => dto.password ∈ lex.passwords ∧ normalizeEmail env.unicode dto.email ∈ lex.emails
  | .changeEmail newEmail currentPassword =>
    currentPassword ∈ lex.passwords ∧ normalizeEmail env.unicode newEmail ∈ lex.emails
  | .changePassword newPassword currentPassword =>
    currentPassword ∈ lex.passwords ∧ newPassword ∈ lex.passwords
  | .deleteAccount currentPassword => currentPassword ∈ lex.passwords
  | _ => True

/-- Of the passwords that the run is about the stored hash opens with this one alone. -/
def Unlocks (env : Env) (lex : Lexicon) (storedHash password : String) : Prop :=
  ∀ p ∈ lex.passwords, PasswordService.verdict env storedHash p = some (decide (p = password))

structure IsCard (env : Env) (lex : Lexicon) (u : User) (card : Card) : Prop where
  id : u.id = card.id
  enciphered : Enciphered env u card.toPerson
  index : u.emailHash = EncryptionService.blindIndex env card.email UsersService.FIELD.email
  email : card.email ∈ lex.emails
  opens : Unlocks env lex u.passwordHash card.password
  role : u.role = card.role
  createdAt : u.createdAt = card.createdAt
  failed : u.failedLoginAttempts = card.failedLogins
  locked : u.lockedUntil = card.lockedUntil

/-- The digests of all sessions are of tokens drawn before. -/
abbrev DigestsDrawn (env : Env) (w : World) : Prop :=
  ∀ s ∈ w.sessions, ∃ bytes ∈ w.draws, bytes.length = TOKEN_BYTES ∧
    s.tokenHash = hashToken env (tokenText bytes)

/-- What the book does not show. The hash kept for unknown users can be compared once it
is settled. -/
structure Aside (env : Env) (w : World) : Prop where
  tokens : DigestsDrawn env w
  dummy : w.dummyHash = .unset ∨ ∃ hash, w.dummyHash = .settled (.ok hash) ∧
    ∀ p, PasswordService.verdict env hash p ≠ none

def Card.Apart (card card' : Card) : Prop := card.id ≠ card'.id ∧ card.email ≠ card'.email

structure Mirrors (env : Env) (lex : Lexicon) (w : World) (book : Book) : Prop
    extends Aside env w where
  rows : List.Forall₂ (IsCard env lex) w.users book
  apart : book.Pairwise Card.Apart
  drawn : ∀ card ∈ book, card.id ∈ w.uuids

/-- Calls that insert no session and leave the kept hash alone. -/
def Bystander : Op → Prop
  | .sessionCreate _ | .dummyStart | .dummySettle _ | .dummyAwait => False
  | _ => True

/-- Those that leave the users alone as well. -/
def Aloof : Op → Prop
  | .userCreate _ | .userUpdate _ _ | .userDelete _ => False
  | op => Bystander op

section Steps
variable {env : Env} {lex : Lexicon} {ch : Choice} {op : Op} {r : op.Res} {w w' : World}
  {book : Book} {id : Uuid}
  {card : Card} {u v : User} {f : Card → Card}

/-- The blind index tells the emails that the run is about apart. -/
lemma IsCard.email_iff (row : IsCard env lex u card) (apart : EmailsApart env lex) {email : String}
    (said : normalizeEmail env.unicode email ∈ lex.emails) :
    u.emailHash = UsersService.emailHash env email ↔
      card.email = normalizeEmail env.unicode email := by
  rw [row.index, UsersService.emailHash]
  exact apart.eq_iff row.email said

lemma Aloof.bystander (aloof : Aloof op) : Bystander op := by
  cases op with
  | userCreate => exact aloof.elim
  | userUpdate => exact aloof.elim
  | userDelete => exact aloof.elim
  | _ => exact aloof

lemma Aside.exec (aside : Aside env w) (answered : exec env ch op w = some (r, w'))
    (bystander : Bystander op) : Aside env w' where
  tokens s hs := by
    have before : ∃ t ∈ w.sessions, t.tokenHash = s.tokenHash := by
      cases exec_sessions answered with
      | kept rows => exact ⟨s, rows.subset hs, rfl⟩
      | inserted => exact bystander.elim
      | updated filter date rows =>
        rw [rows] at hs
        obtain ⟨t, ht, rfl⟩ := List.mem_map.mp hs
        refine ⟨t, ht, ?_⟩
        split <;> rfl
    obtain ⟨t, ht, same⟩ := before
    obtain ⟨bytes, drawn, length, digest⟩ := aside.tokens t ht
    exact ⟨bytes, (exec_spends answered).draws drawn, length, same ▸ digest⟩
  dummy := by
    cases exec_dummyHash answered with
    | kept same => exact same ▸ aside.dummy
    | _ => exact bystander.elim

lemma exec_aloof (answered : exec env ch op w = some (r, w')) (aloof : Aloof op) :
    w'.users = w.users := by
  cases exec_users answered with
  | kept rows => exact rows
  | _ => exact aloof.elim

namespace Mirrors
variable (mirrors : Mirrors env lex w book)
include mirrors

lemma still (users : w'.users = w.users) (uuids : w.uuids ⊆ w'.uuids) (aside : Aside env w') :
    Mirrors env lex w' book where
  toAside := aside
  rows := users ▸ mirrors.rows
  apart := mirrors.apart
  drawn card hc := uuids (mirrors.drawn card hc)

lemma aloof (answered : exec env ch op w = some (r, w')) (aloof : Aloof op) :
    Mirrors env lex w' book :=
  mirrors.still (exec_aloof answered aloof) (exec_spends answered).uuids
    (mirrors.toAside.exec answered aloof.bystander)

lemma withId : Option.Rel (IsCard env lex) (w.users.find? (·.id = id)) (book.withId id) :=
  find?_related mirrors.rows fun u card row => by rw [row.id]

lemma withEmail (apart : EmailsApart env lex) {email : String}
    (said : normalizeEmail env.unicode email ∈ lex.emails) : Option.Rel (IsCard env lex)
    (w.users.find? (·.emailHash = UsersService.emailHash env email))
    (book.withEmail (normalizeEmail env.unicode email)) := by
  refine find?_related mirrors.rows fun u card row => ?_
  rw [decide_eq_decide]
  exact row.email_iff apart said

/-- Neither two ids nor two blind indices of rows are the same. -/
lemma rows_apart (apart : EmailsApart env lex) :
    w.users.Pairwise fun u v => u.id ≠ v.id ∧ u.emailHash ≠ v.emailHash := by
  refine pairwise_related mirrors.rows (fun u v card card' row row' other => ?_) mirrors.apart
  rw [row.id, row'.id, row.index, row'.index]
  exact ⟨other.1, fun same => other.2 (apart row.email row'.email same)⟩

lemma eq_of_row (apart : EmailsApart env lex) (hu : u ∈ w.users) (hv : v ∈ w.users)
    (same : u.id = v.id ∨ u.emailHash = v.emailHash) : u = v := by
  by_contra other
  have symm : Std.Symm fun u v : User => u.id ≠ v.id ∧ u.emailHash ≠ v.emailHash :=
    ⟨fun _ _ apart => ⟨apart.1.symm, apart.2.symm⟩⟩
  have differ := (mirrors.rows_apart apart).forall hu hv other
  exact same.elim differ.1 differ.2

/-- The row of an account, as a login needs it. -/
lemma account (apart : EmailsApart env lex) (hu : u ∈ w.users) (row : IsCard env lex u card) :
    Account env u.emailHash w u where
  byEmail := find?_only hu (by simp) fun v hv same =>
    mirrors.eq_of_row apart hv hu (.inr (by simpa using same))
  byId := find?_only hu (by simp) fun v hv same =>
    mirrors.eq_of_row apart hv hu (.inl (by simpa using same))
  profile := ⟨_, row.enciphered.toProfile⟩
  tokens := mirrors.tokens

/-- The rows and the account of one id change alike. -/
lemma edited {g : User → User}
    (rows : w'.users = w.users.map fun v => if v.id = id then g v else v)
    (uuids : w.uuids ⊆ w'.uuids) (aside : Aside env w')
    (alike : ∀ u, ∀ card ∈ book, IsCard env lex u card → card.id = id →
      IsCard env lex (g u) (f card))
    (ids : ∀ card, (f card).id = card.id)
    (emails : ∀ card ∈ book, card.id = id → (f card).email = card.email ∨
      ∀ other ∈ book, other.id ≠ id → (f card).email ≠ other.email) :
    Mirrors env lex w' (book.edit id f) where
  toAside := aside
  rows := rows ▸ edit_related mirrors.rows (fun _ _ row => row.id) alike
  apart := by
    refine pairwise_edit mirrors.apart (fun _ _ apart => apart.1) ?_ ?_
    · intro card hc other ho here there apart
      refine ⟨ids card ▸ apart.1, ?_⟩
      rcases emails card hc here with kept | free
      · exact kept ▸ apart.2
      · exact free other ho there
    · intro card hc other ho there here apart
      refine ⟨(ids other).symm ▸ apart.1, ?_⟩
      rcases emails other ho there with kept | free
      · exact kept ▸ apart.2
      · exact (free card hc here).symm
  drawn card hc := by
    obtain ⟨was, hw, rfl⟩ := List.mem_map.mp hc
    have key : (if was.id = id then f was else was).id = was.id := by
      split
      · exact ids was
      · rfl
    rw [key]
    exact uuids (mirrors.drawn was hw)

lemma inserted (rows : w'.users = w.users ++ [u]) (uuids : w.uuids ⊆ w'.uuids)
    (aside : Aside env w') (row : IsCard env lex u card) (fresh : card.id ∉ w.uuids)
    (drawn : card.id ∈ w'.uuids) (free : ∀ other ∈ book, other.email ≠ card.email) :
    Mirrors env lex w' (book ++ [card]) where
  toAside := aside
  rows := by
    rw [rows]
    exact List.rel_append mirrors.rows (.cons row .nil)
  apart := by
    refine List.pairwise_append.mpr ⟨mirrors.apart, List.pairwise_singleton _ _, ?_⟩
    intro other ho new hn
    obtain rfl := List.mem_singleton.mp hn
    exact ⟨fun same => fresh (same ▸ mirrors.drawn other ho), free other ho⟩
  drawn other ho := by
    rcases List.mem_append.mp ho with old | new
    · exact uuids (mirrors.drawn other old)
    · obtain rfl := List.mem_singleton.mp new
      exact drawn

lemma removed (rows : w'.users = w.users.filter (·.id ≠ id)) (uuids : w.uuids ⊆ w'.uuids)
    (aside : Aside env w') : Mirrors env lex w' (book.without id) where
  toAside := aside
  rows := by
    rw [rows]
    exact List.rel_filter (fun u card row => by simp [row.id]) mirrors.rows
  apart := mirrors.apart.sublist List.filter_sublist
  drawn card hc := uuids (mirrors.drawn card (List.mem_of_mem_filter hc))

end Mirrors

end Steps

end BajaValle
