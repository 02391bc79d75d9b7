import BajaValle.AccountBook
import BajaValle.Progress

/-!
# Rows and accounts

What the parts of the service do to the row of an account, when no other request runs in
between and no call fails, and what leaves the whole book alone.
-/

namespace BajaValle

open CallPrograms Prog AuthService SessionsService

/-- The primitives tell apart what they are given in the run, and take what the service
gives them. -/
structure Distinguishes (env : Env) (lex : Lexicon) : Prop where
  keys : ValidKeys env
  emails : EmailsApart env lex
  tokens : CollisionFree env
  passwords : ∀ salt, salt.length = PasswordService.SALT_BYTES →
    lex.passwords.InjOn fun password => env.argon2id password salt PasswordService.PARAMS
  tags : FullTags env
  works : Argon2Works env

/-- Time has passed, and ids were drawn. -/
structure Later (w w' : World) : Prop where
  clock : w.clock ≤ w'.clock
  uuids : w.uuids ⊆ w'.uuids

section Later
variable {env : Env} {lex : Lexicon} {ch : Choice} {op : Op} {r : op.Res} {w w₁ w₂ : World}

lemma Later.refl (w : World) : Later w w := ⟨Nat.le_refl _, List.Subset.refl _⟩

lemma Later.trans (first : Later w w₁) (second : Later w₁ w₂) : Later w w₂ :=
  ⟨Nat.le_trans first.clock second.clock, List.Subset.trans first.uuids second.uuids⟩

lemma Later.of_exec (answered : exec env ch op w = some (r, w₁)) : Later w w₁ where
  clock := by
    have spends := exec_spends answered
    exact spends.clock ▸ spends.later
  uuids := (exec_spends answered).uuids

end Later

/-! ## What leaves the book alone -/

section Primitives
variable {env : Env} {lex : Lexicon} {w : World} {h : List OwnCall} {book : Book}
  {password : String} {α : Type}

/-- Whatever a program does comes later. -/
lemma serial_later (p : Task α) :
    Serial env False (fun _ _ => True) (fun _ _ w' => Later w w') h w p := by
  have kept : Serial env False (fun _ w' => Later w w') (fun _ _ w' => Later w w') h w p :=
    serial_invariant (uses_true p) (.refl w) fun _ _ _ _ _ _ answered here =>
      here.trans (.of_exec answered)
  exact kept.weaken fun _ _ _ => trivial

/-- A program that leaves the book alone, whatever else it does. -/
lemma Mirrors.serial {p : Task α} {post : List OwnCall → Except Failure α → World → Prop}
    (mirrors : Mirrors env lex w book) (uses : p.Uses Aloof)
    (meets : Serial env False (fun _ _ => True) post h w p) :
    Serial env False (fun _ _ => True) (fun h' out w' => post h' out w' ∧
      w'.users = w.users ∧ Mirrors env lex w' book ∧ Later w w') h w p := by
  have kept : Serial env False (fun _ w' => w'.users = w.users ∧ Mirrors env lex w' book)
      (fun _ _ w' => w'.users = w.users ∧ Mirrors env lex w' book) h w p :=
    serial_invariant uses ⟨rfl, mirrors⟩ fun _ _ _ _ _ aloof answered here =>
      ⟨(exec_aloof answered aloof).trans here.1, here.2.aloof answered aloof⟩
  refine (meets.and (kept.and (serial_later p))).weaken (fun _ _ _ => trivial) |>.mono ?_
  rintro h' out w' _ ⟨ends, ⟨users, mirrors'⟩, later⟩
  exact ⟨ends, users, mirrors', later⟩

lemma Derives.aloof {op : Op} (derives : Derives op) : Aloof op := by
  cases op <;> trivial

lemma GuardOp.aloof {op : Op} (guard : GuardOp op) : Aloof op := by
  cases op <;> trivial

/-- What is built from a password can be compared with any. -/
lemma PasswordService.BuiltFrom.comparable {stored : String} (ideal : Distinguishes env lex)
    (built : PasswordService.BuiltFrom env password stored) (p : String) :
    ∃ salt bytes bytes', salt.length = PasswordService.SALT_BYTES ∧
      env.argon2id password salt PasswordService.PARAMS = some bytes ∧
      env.argon2id p salt PasswordService.PARAMS = some bytes' ∧
      PasswordService.verdict env stored p = some (decide (bytes' = bytes)) := by
  obtain ⟨salt, bytes, length, derived, rfl⟩ := built
  obtain ⟨bytes', derived'⟩ := Option.ne_none_iff_exists'.mp (ideal.works p salt length)
  refine ⟨salt, bytes, bytes', length, derived, derived', ?_⟩
  rw [PasswordService.verdict, PasswordService.parse_phc
    (PasswordService.ne_nil_of_length length) (ideal.tags.ne_nil derived)]
  simp only [derived', Option.map_some]

lemma PasswordService.BuiltFrom.unlocks {stored : String} (ideal : Distinguishes env lex)
    (said : password ∈ lex.passwords) (built : PasswordService.BuiltFrom env password stored) :
    Unlocks env lex stored password := by
  intro p hp
  obtain ⟨salt, bytes, bytes', length, derived, derived', verdict⟩ := built.comparable ideal p
  have same : bytes' = bytes ↔ p = password := by
    constructor
    · rintro rfl
      exact ideal.passwords salt length hp said (derived'.trans derived.symm)
    · rintro rfl
      exact Option.some.inj (derived'.symm.trans derived)
  rw [verdict, decide_eq_decide.mpr same]

lemma hash_built (ideal : Distinguishes env lex) :
    Serial env False (fun _ _ => True) (fun _ out _ => ∃ stored, out = .ok stored ∧
      PasswordService.BuiltFrom env password stored) h w (PasswordService.hash password) := by
  refine ((hash_alone ideal.works).and (PasswordService.hash_builds password h w)).weaken
    (fun _ _ _ => trivial) |>.mono ?_
  rintro h' out w' _ ⟨⟨_, stored, rfl⟩, built⟩
  exact ⟨stored, rfl, built stored rfl⟩

/-- What `hash` returns opens with the password alone. -/
lemma hash_mirrors (ideal : Distinguishes env lex) (said : password ∈ lex.passwords)
    (mirrors : Mirrors env lex w book) :
    Serial env False (fun _ _ => True) (fun _ out w' => (∃ stored, out = .ok stored ∧
      Unlocks env lex stored password) ∧ w'.users = w.users ∧ Mirrors env lex w' book ∧
      Later w w') h w (PasswordService.hash password) := by
  refine mirrors.serial ((hash_derives _).mono fun _ => Derives.aloof)
    ((hash_built ideal).mono ?_)
  rintro h' _ w' _ ⟨stored, rfl, built⟩
  exact ⟨stored, rfl, built.unlocks ideal said⟩

lemma verify_opens {stored p : String} (said : p ∈ lex.passwords)
    (opens : Unlocks env lex stored password) :
    Serial env False (fun _ _ => True) (fun _ out _ => out = .ok (decide (p = password))) h w
      (PasswordService.verify stored p) := by
  refine verify_alone.mono ?_
  rintro h' _ w' _ ⟨⟨_, _, rfl⟩, _⟩
  rw [opens p said]
  rfl

end Primitives

/-! ## The hash kept for unknown users -/

section Dummy
variable {env : Env} {lex : Lexicon} {w : World} {h : List OwnCall} {book : Book}
  {password : String}

/-- The kept hash is settled, and can be compared with any password. -/
def Comparable (env : Env) (w : World) : Prop :=
  ∃ hash, w.dummyHash = .settled (.ok hash) ∧ ∀ p, PasswordService.verdict env hash p ≠ none

lemma exec_leavesDummy {ch : Choice} {op : Op} {r : op.Res} {w' : World}
    (answered : exec env ch op w = some (r, w')) (leaves : LeavesDummy op) :
    w'.dummyHash = w.dummyHash := by
  cases exec_dummyHash answered with
  | kept same => exact same
  | _ => exact leaves.elim

lemma Derives.leavesDummy {op : Op} (derives : Derives op) : LeavesDummy op := by
  cases op <;> trivial

lemma startDummy_settles (ideal : Distinguishes env lex) (aside : Aside env w) :
    Serial env False (fun _ _ => True) (fun _ out w' => out = .ok () ∧ Comparable env w') h w
      PasswordService.startDummy := by
  refine meets_bind (serial_perform (I := fun _ _ => True) trivial ?_)
  intro ch first w₁ _ answered
  refine ⟨trivial, ?_, by simp⟩
  rintro _ ⟨⟩
  cases first with
  | true =>
    -- this request derives the hash, of a secret
    refine meets_bind (serial_perform (I := fun _ _ => True) trivial ?_)
    intro ch' secret w₂ _ _
    refine ⟨trivial, ?_, by simp⟩
    rintro _ ⟨⟩
    refine meets_bind (meets_attempt ((hash_built ideal).mono ?_))
    rintro h₃ _ w₃ _ ⟨stored, rfl, built⟩
    refine ⟨?_, by simp⟩
    rintro _ ⟨⟩
    refine serial_perform (I := fun _ _ => True) trivial ?_
    rintro ch'' ⟨⟩ w₄ _ answered'
    have comparable : ∀ p, PasswordService.verdict env stored p ≠ none := by
      intro p
      obtain ⟨_, _, _, _, _, _, verdict⟩ := built.comparable ideal p
      rw [verdict]
      exact Option.some_ne_none _
    refine ⟨trivial, rfl, stored, ?_, comparable⟩
    cases exec_dummyHash answered' with
    | kept _ _ settles => exact absurd rfl (settles _)
    | settled _ now => exact now
  | false =>
    refine ⟨trivial, rfl, ?_⟩
    have set := exec_dummyStart answered
    cases exec_dummyHash answered with
    | kept same =>
      rcases aside.dummy with unset | ⟨hash, settled, comparable⟩
      · exact absurd (same.trans unset) set
      · exact ⟨hash, same.trans settled, comparable⟩

lemma compares_settled (settled : Comparable env w) :
    Serial env False (fun _ _ => True) (fun _ out w' => out = .ok () ∧ Comparable env w') h w (do
      let dummyHash ← Prog.ofExcept (← perform .dummyAwait)
      let _ ← PasswordService.verify dummyHash password
      return () : Task Unit) := by
  obtain ⟨hash, settled, comparable⟩ := settled
  refine meets_bind (serial_perform (I := fun _ _ => True) trivial ?_)
  intro ch x w₁ _ answered
  refine ⟨trivial, ?_, by simp⟩
  rintro _ ⟨⟩
  cases exec_dummyHash answered with
  | kept _ _ _ awaits => exact absurd rfl (awaits x)
  | awaited x there same =>
    obtain rfl : x = .ok hash := by
      rw [settled] at there
      cases there
      rfl
    have kept : Serial env False (fun _ w' => w'.dummyHash = .settled (.ok hash))
        (fun _ _ w' => w'.dummyHash = .settled (.ok hash)) (⟨.dummyAwait, .ok hash⟩ :: h) w₁
        (PasswordService.verify hash password) :=
      serial_invariant (verify_derives _ _) (same.trans settled)
        fun _ _ _ _ _ derives answered here =>
          (exec_leavesDummy answered derives.leavesDummy).trans here
    refine meets_bind (serial_ofExcept trivial ⟨?_, by simp⟩)
    rintro _ ⟨⟩
    refine meets_bind ((verify_alone.and kept).weaken (fun _ _ _ => trivial) |>.mono ?_)
    rintro h₂ _ w₂ _ ⟨⟨⟨_, _, rfl⟩, _⟩, there⟩
    obtain ⟨verdict, same⟩ := Option.ne_none_iff_exists'.mp (comparable password)
    rw [same]
    refine ⟨?_, by simp⟩
    rintro _ ⟨⟩
    exact ⟨trivial, rfl, hash, there, comparable⟩

/-- The comparison for an unknown user does nothing that the book shows. -/
lemma verifyAgainstDummy_mirrors (ideal : Distinguishes env lex)
    (mirrors : Mirrors env lex w book) :
    Serial env False (fun _ _ => True) (fun _ out w' => out = .ok () ∧ Mirrors env lex w' book ∧
      Later w w') h w (PasswordService.verifyAgainstDummy password) := by
  have compares : Serial env False (fun _ _ => True) (fun _ out w' => out = .ok () ∧
      Comparable env w') h w (PasswordService.verifyAgainstDummy password) := by
    refine meets_bind ((startDummy_settles ideal mirrors.toAside).mono ?_)
    rintro h₁ _ w₁ _ ⟨rfl, settled⟩
    exact ⟨fun _ _ => compares_settled settled, by simp⟩
  have still : Serial env False (fun _ w' => Still w w') (fun _ _ w' => Still w w') h w
      (PasswordService.verifyAgainstDummy password) :=
    serial_invariant (verifyAgainstDummy_uses _) (.refl w) fun _ _ _ _ _ reads answered here =>
      here.exec answered reads
  refine ((compares.and still).and (serial_later _)).weaken (fun _ _ _ => trivial) |>.mono ?_
  rintro h' out w' _ ⟨⟨⟨rfl, settled⟩, still⟩, later⟩
  refine ⟨rfl, mirrors.still still.users later.uuids ⟨?_, .inr settled⟩, later⟩
  intro s hs
  obtain ⟨bytes, drawn, length, digest⟩ := mirrors.tokens s (still.sessions ▸ hs)
  exact ⟨bytes, still.draws drawn, length, digest⟩

end Dummy

section Spares
variable {env : Env} {lex : Lexicon} {w w' : World}

/-- Calls that leave the users and the kept hash alone. -/
def SparesAccounts : Op → Prop
  | .userCreate _ | .userUpdate _ _ | .userDelete _ => False
  | .dummyStart | .dummySettle _ | .dummyAwait => False
  | _ => True

lemma exec_sparesAccounts {ch : Choice} {op : Op} {r : op.Res}
    (answered : exec env ch op w = some (r, w')) (spares : SparesAccounts op) :
    w'.users = w.users ∧ w'.dummyHash = w.dummyHash := by
  constructor
  · cases exec_users answered with
    | kept rows => exact rows
    | _ => exact spares.elim
  · refine exec_leavesDummy answered ?_
    cases op <;> trivial

end Spares

/-! ## What changes one row -/

section Rows
variable {env : Env} {lex : Lexicon} {w : World} {h : List OwnCall} {book : Book}
  {card card' : Card}
  {u : User} {id : Uuid} {password : String} {c : UserChanges}

lemma Mirrors.card_of (mirrors : Mirrors env lex w book) {u : User}
    (found : w.users.find? (·.id = id) = some u) :
    ∃ card ∈ book, book.withId id = some card ∧ card.id = id ∧ IsCard env lex u card := by
  have related : Option.Rel (IsCard env lex) (some u) (book.withId id) := found ▸ mirrors.withId
  cases there : book.withId id with
  | none =>
    rw [there] at related
    cases related
  | some card =>
    rw [there] at related
    obtain ⟨row⟩ := related
    exact ⟨card, List.mem_of_find?_eq_some there, rfl, by simpa using List.find?_some there, row⟩

/-- An account is the only one with its id. -/
lemma Mirrors.only (mirrors : Mirrors env lex w book) (hc : card ∈ book) (hc' : card' ∈ book)
    (same : card'.id = card.id) : card' = card := by
  by_contra other
  have symm : Std.Symm Card.Apart := ⟨fun _ _ apart => ⟨apart.1.symm, apart.2.symm⟩⟩
  exact (mirrors.apart.forall hc' hc other).1 same

lemma Book.edit_congr {f g : Card → Card}
    (alike : ∀ card ∈ book, card.id = id → f card = g card) : book.edit id f = book.edit id g := by
  refine List.map_congr_left fun card hc => ?_
  split
  · exact alike card hc ‹_›
  · rfl

lemma Book.edit_edit {f g : Card → Card} (ids : ∀ card, (f card).id = card.id) :
    (book.edit id f).edit id g = book.edit id fun card => g (f card) := by
  simp only [Book.edit, List.map_map]
  refine List.map_congr_left fun card _ => ?_
  by_cases same : card.id = id
  · simp [same, ids]
  · simp [same]

lemma Book.edit_id {f : Card → Card} (same : ∀ card ∈ book, card.id = id → f card = card) :
    book.edit id f = book := by
  rw [Book.edit_congr (g := fun card => card) same, Book.edit]
  simp

/-- The columns that a login or a change of the password writes. -/
structure Spares (c : UserChanges) : Prop where
  emailHash : c.emailHash = none
  emailEnc : c.emailEnc = none
  firstNameEnc : c.firstNameEnc = none
  lastNameEnc : c.lastNameEnc = none
  role : c.role = none

/-- All but the password, the counter and the lock of an account. -/
structure Card.Alike (card card' : Card) : Prop where
  person : card'.toPerson = card.toPerson
  id : card'.id = card.id
  role : card'.role = card.role
  createdAt : card'.createdAt = card.createdAt

lemma IsCard.spared (row : IsCard env lex u card) (spares : Spares c)
    (alike : Card.Alike card card')
    {now : Nat} (opens : Unlocks env lex (c.passwordHash.getD u.passwordHash) card'.password)
    (failed : c.failedLoginAttempts.elim u.failedLoginAttempts (·.apply u.failedLoginAttempts) =
      card'.failedLogins)
    (locked : c.lockedUntil.elim u.lockedUntil (·.at now) = card'.lockedUntil) :
    IsCard env lex (c.apply now u) card' where
  id := row.id.trans alike.id.symm
  enciphered := by
    obtain ⟨email, firstName, lastName⟩ := row.enciphered
    rw [alike.person]
    exact ⟨by simpa [spares.emailEnc] using email, by simpa [spares.firstNameEnc] using firstName,
      by simpa [spares.lastNameEnc] using lastName⟩
  index := by
    have same : card'.email = card.email := congrArg Person.email alike.person
    simpa [spares.emailHash, same] using row.index
  email := by
    have same : card'.email = card.email := congrArg Person.email alike.person
    exact same ▸ row.email
  opens := opens
  role := by simpa [spares.role, alike.role] using row.role
  createdAt := row.createdAt.trans alike.createdAt.symm
  failed := failed
  locked := locked

/-- A row of the table and its account in the book. -/
structure Owns (env : Env) (lex : Lexicon) (w : World) (book : Book) (u : User) (card : Card) :
    Prop where
  mirrors : Mirrors env lex w book
  found : w.users.find? (·.id = card.id) = some u
  mem : card ∈ book
  row : IsCard env lex u card

/-- The same account, after calls that leave the users alone. -/
lemma Owns.still {w' : World} (owns : Owns env lex w book u card) (users : w'.users = w.users)
    (mirrors : Mirrors env lex w' book) : Owns env lex w' book u card :=
  ⟨mirrors, users ▸ owns.found, owns.mem, owns.row⟩

/-- A row that was looked up, and the account that the book shows there. -/
lemma Mirrors.owned {w' : World} {p : User → Bool} {there : Option Card}
    (mirrors : Mirrors env lex w book) (apart : EmailsApart env lex)
    (related : Option.Rel (IsCard env lex) (w.users.find? p) there)
    (mem : ∀ card ∈ there, card ∈ book)
    (users : w'.users = w.users) (mirrors' : Mirrors env lex w' book) :
    Option.Rel (Owns env lex w' book) (w.users.find? p) there := by
  cases found : w.users.find? p with
  | none =>
    rw [found] at related
    cases related
    exact .none
  | some u =>
    rw [found] at related
    cases related with
    | @some _ card row =>
      have account := mirrors.account apart (List.mem_of_find?_eq_some found) row
      refine .some ⟨mirrors', ?_, mem card rfl, row⟩
      rw [users, ← row.id]
      exact account.byId

/-- An update of those columns, for a row and its account. -/
lemma Owns.update {f : Nat → Card → Card} (owns : Owns env lex w book u card) (spares : Spares c)
    (alike : ∀ now card, Card.Alike card (f now card))
    (changed : ∀ now v, IsCard env lex v card →
      Unlocks env lex (c.passwordHash.getD v.passwordHash) (f now card).password ∧
      c.failedLoginAttempts.elim v.failedLoginAttempts (·.apply v.failedLoginAttempts) =
        (f now card).failedLogins ∧
      c.lockedUntil.elim v.lockedUntil (·.at now) = (f now card).lockedUntil) :
    Serial env False (fun _ _ => True) (fun _ out w' => ∃ u', out = .ok u' ∧ u'.id = card.id ∧
      u'.failedLoginAttempts = (f w'.clock card).failedLogins ∧
      Owns env lex w' (book.edit card.id (f w'.clock)) u' (f w'.clock card) ∧ Later w w') h w
      (await (perform (.userUpdate card.id c))) := by
  refine serial_await (serial_perform (I := fun _ _ => True) trivial ?_)
  intro ch r w₁ healthy answered
  refine ⟨trivial, ?_⟩
  have later : Later w w₁ := .of_exec answered
  have aside := owns.mirrors.toAside.exec answered trivial
  have ids : ∀ other, (f w₁.clock other).id = other.id := fun other => (alike _ other).id
  have clock := (exec_spends answered).clock
  have rows : ∀ v, IsCard env lex v card →
      IsCard env lex (c.apply w₁.clock v) (f w₁.clock card) := by
    intro v row
    obtain ⟨opens, failed, locked⟩ := changed w₁.clock v row
    exact row.spared spares (alike _ card) opens failed locked
  cases exec_userUpdate answered with
  | failed fails => exact (healthy fails).elim
  | missing _ absent =>
    rw [owns.found] at absent
    cases absent
  | taken _ _ _ e changes =>
    rw [spares.emailHash] at changes
    cases changes
  | updated _ v found _ users =>
    obtain rfl := Option.some.inj (owns.found.symm.trans found)
    rw [← clock] at users ⊢
    refine ⟨?_, by simp, by simp⟩
    rintro _ ⟨⟩
    have row := rows u owns.row
    refine ⟨_, rfl, owns.row.id, row.failed, ⟨?_, ?_, ?_, row⟩, later⟩
    · refine owns.mirrors.edited users later.uuids aside ?_ ids fun other _ _ =>
        .inl (congrArg Person.email (alike _ other).person)
      intro v other ho row' same
      obtain rfl := owns.mirrors.only owns.mem ho same
      exact rows v row'
    · rw [ids, users, find?_updated (by simp), owns.found, Option.map_some, if_pos owns.row.id]
    · exact List.mem_map.mpr ⟨card, owns.mem, if_pos rfl⟩

end Rows

end BajaValle
