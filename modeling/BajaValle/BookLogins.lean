import BajaValle.BookRows
import Mathlib.Data.Fintype.EquivFin

/-!
# Logins as the book has them

A login answers as the book does: it counts a wrong password, locks at the limit, clears
both after the right one and starts a session.
-/

namespace BajaValle

open CallPrograms Prog AuthService SessionsService

/-! ## Logins -/

section Logins
variable {env : Env} {lex : Lexicon} {w : World} {h : List OwnCall} {book : Book} {card : Card}
  {u : User}
  {password : String}

lemma registerFailedLogin_mirrors (owns : Owns env lex w book u card) :
    Serial env False (fun _ _ => True) (fun _ out w' => out = .ok () ∧ ∃ ended,
      w.clock ≤ ended ∧ ended ≤ w'.clock ∧
      Mirrors env lex w' (book.edit card.id (Card.mistaken · ended)) ∧ Later w w') h w
      (registerFailedLogin card.id) := by
  -- no other account has the id, so what becomes of this one tells what becomes of the book
  have only : ∀ (now : Nat) (f : Card → Card), card.mistaken now = f card →
      book.edit card.id (Card.mistaken · now) = book.edit card.id f := fun now f same =>
    Book.edit_congr fun other ho there => by
      obtain rfl := owns.mirrors.only owns.mem ho there
      exact same
  refine meets_bind ((owns.update
    (c := { failedLoginAttempts := some (.increment 1) }) (f := fun _ => Card.counted)
    ⟨rfl, rfl, rfl, rfl, rfl⟩
    (fun _ _ => ⟨rfl, rfl, rfl, rfl⟩)
    fun _ _ row => ⟨row.opens, congrArg (· + 1) row.failed, row.locked⟩).mono ?_)
  rintro h₁ _ w₁ _ ⟨u₁, rfl, id₁, failed₁, owns₁, later₁⟩
  refine ⟨?_, by simp⟩
  rintro _ ⟨⟩
  rw [failed₁]
  by_cases limit : MAX_FAILED_LOGINS ≤ card.counted.failedLogins
  · rw [if_pos limit]
    refine meets_bind ((owns₁.update (c :=
      { failedLoginAttempts := some (.set 0), lockedUntil := some (.fromNow LOCK_MS) })
      (f := fun now card => card.lockedFrom now) ⟨rfl, rfl, rfl, rfl, rfl⟩
      (fun _ _ => ⟨rfl, rfl, rfl, rfl⟩) fun _ _ row => ⟨row.opens, rfl, rfl⟩).mono ?_)
    rintro h₂ _ w₂ _ ⟨u₂, rfl, _, _, owns₂, later₂⟩
    refine ⟨?_, by simp⟩
    rintro _ ⟨⟩
    refine ⟨trivial, rfl, w₂.clock, (later₁.trans later₂).clock, Nat.le_refl _, ?_,
      later₁.trans later₂⟩
    have twice : (book.edit card.id Card.counted).edit card.id (·.lockedFrom w₂.clock) =
        book.edit card.id fun card => card.counted.lockedFrom w₂.clock :=
      Book.edit_edit fun _ => rfl
    rw [only w₂.clock (fun card => card.counted.lockedFrom w₂.clock) (if_pos limit), ← twice]
    exact owns₂.mirrors
  · rw [if_neg limit]
    refine ⟨trivial, rfl, w₁.clock, later₁.clock, Nat.le_refl _, ?_, later₁⟩
    rw [only w₁.clock Card.counted (if_neg limit)]
    exact owns₁.mirrors

lemma clearFailures_mirrors (owns : Owns env lex w book u card) :
    Serial env False (fun _ _ => True) (fun _ out w' => out = .ok () ∧
      (∃ u', Owns env lex w' (book.edit card.id Card.cleared) u' card.cleared) ∧
      Later w w') h w (clearFailures u) := by
  unfold clearFailures
  rw [owns.row.id]
  split
  · refine meets_bind ((owns.update
      (c := { failedLoginAttempts := some (.set 0), lockedUntil := some .null })
      (f := fun _ => Card.cleared) ⟨rfl, rfl, rfl, rfl, rfl⟩
      (fun _ _ => ⟨rfl, rfl, rfl, rfl⟩) fun _ _ row => ⟨row.opens, rfl, rfl⟩).mono ?_)
    rintro h₁ _ w₁ _ ⟨u₁, rfl, _, _, owns₁, later₁⟩
    refine ⟨?_, by simp⟩
    rintro _ ⟨⟩
    exact ⟨trivial, rfl, ⟨u₁, owns₁⟩, later₁⟩
  · rename_i clear
    obtain ⟨zero, unlocked⟩ := not_or.mp clear
    have same : card.cleared = card := by
      have count : card.failedLogins = 0 := by
        have failed := owns.row.failed
        omega
      have free : card.lockedUntil = none := by
        rw [← owns.row.locked]
        simpa using unlocked
      obtain ⟨person, id, password, role, createdAt, failedLogins, lockedUntil⟩ := card
      obtain rfl : failedLogins = 0 := count
      obtain rfl : lockedUntil = none := free
      rfl
    -- nothing is written where there is nothing to clear
    have unchanged : book.edit card.id Card.cleared = book :=
      Book.edit_id fun other ho there => by
        obtain rfl := owns.mirrors.only owns.mem ho there
        exact same
    rw [unchanged, same]
    exact ⟨trivial, rfl, ⟨u, owns⟩, .refl w⟩

lemma rehash_mirrors {v : User} (ideal : Distinguishes env lex) (owns : Owns env lex w book v card)
    (id : u.id = card.id) (said : password ∈ lex.passwords) (matched : password = card.password) :
    Serial env False (fun _ _ => True) (fun _ out w' => out = .ok () ∧
      (∃ u', Owns env lex w' book u' card) ∧ Later w w') h w (rehash u password) := by
  unfold rehash
  rw [id]
  split
  · refine meets_bind ((hash_mirrors ideal said owns.mirrors).mono ?_)
    rintro h₁ _ w₁ _ ⟨⟨stored, rfl, opens⟩, users₁, mirrors₁, later₁⟩
    refine ⟨?_, by simp⟩
    rintro _ ⟨⟩
    have owns₁ := owns.still users₁ mirrors₁
    refine meets_bind ((owns₁.update (c := { passwordHash := some stored })
      (f := fun _ card => card) ⟨rfl, rfl, rfl, rfl, rfl⟩
      (fun _ _ => ⟨rfl, rfl, rfl, rfl⟩)
      fun _ _ row => ⟨matched ▸ opens, row.failed, row.locked⟩).mono ?_)
    rintro h₂ _ w₂ _ ⟨u₂, rfl, _, _, owns₂, later₂⟩
    refine ⟨?_, by simp⟩
    rintro _ ⟨⟩
    rw [Book.edit_id fun _ _ _ => rfl] at owns₂
    exact ⟨trivial, rfl, ⟨u₂, owns₂⟩, later₁.trans later₂⟩
  · exact ⟨trivial, rfl, ⟨v, owns⟩, .refl w⟩

lemma startSession_spares (user : User) (userAgent : Option String) :
    (startSession env user userAgent).Uses SparesAccounts := by
  have creates : (SessionsService.create env user.id userAgent).Uses SparesAccounts :=
    uses_bind (perform_uses trivial) fun _ => uses_bind (perform_uses trivial) fun _ =>
      uses_bind (await_uses (perform_uses trivial)) fun _ => uses_ret _
  exact uses_bind creates fun _ => uses_bind (uses_bind (perform_uses trivial) fun _ =>
    uses_ret _) fun _ => uses_bind (ofExcept_uses _) fun _ => uses_ret _

lemma startSession_profile (user : User) (userAgent : Option String) :
    (startSession env user userAgent).Obeys (fun _ _ => True)
      (fun _ response => UsersService.toProfile env user = .ok response.user) h := by
  refine obeys_bind (uses_anywhere (uses_true _) h) fun h₁ _ _ =>
    obeys_bind (uses_anywhere (uses_true _) h₁) fun h₂ tokens _ => ?_
  cases profile : UsersService.toProfile env user with
  | error e => trivial
  | ok p => exact rfl

lemma IsCard.profile (row : IsCard env lex u card) :
    UsersService.toProfile env u = .ok card.profile := by
  rw [row.enciphered.toProfile, row.id, row.role, row.createdAt]
  rfl

/-- A session starts for the row that was read, which the account has left behind since. -/
lemma startSession_mirrors {v : User} {was : Card} {userAgent : Option String}
    (ideal : Distinguishes env lex) (owns : Owns env lex w book v card) (row : IsCard env lex u was)
    (id : was.id = card.id) :
    Serial env False (fun _ _ => True) (fun _ out w' =>
      (∃ tokens, out = .ok { tokens, user := was.profile }) ∧ Mirrors env lex w' book ∧
      Later w w') h w (startSession env u userAgent) := by
  have account := owns.mirrors.account ideal.emails (List.mem_of_find?_eq_some owns.found) owns.row
  have same : v.id = u.id := owns.row.id.trans (id.symm.trans row.id.symm)
  have starts : Serial env False (fun _ _ => True) (fun _ out w' =>
      (∃ response, out = .ok response) ∧ Account env v.emailHash w' v) h w
      (startSession env u userAgent) :=
    startSession_alone ideal.tokens account same ⟨_, row.profile⟩
  have shows : Serial env False (fun _ _ => True) (fun _ out _ => ∀ response, out = .ok response →
      UsersService.toProfile env u = .ok response.user) h w (startSession env u userAgent) :=
    meets_of_obeys (startSession_profile u userAgent) trivial fun _ _ _ _ _ _ _ _ _ _ => trivial
  have kept : Serial env False (fun _ w' => w'.users = w.users ∧ w'.dummyHash = w.dummyHash)
      (fun _ _ w' => w'.users = w.users ∧ w'.dummyHash = w.dummyHash) h w
      (startSession env u userAgent) :=
    serial_invariant (startSession_spares u userAgent) ⟨rfl, rfl⟩
      fun _ _ _ _ _ used answered here =>
        have step := exec_sparesAccounts answered used
        ⟨step.1.trans here.1, step.2.trans here.2⟩
  refine (((starts.and shows).and kept).and (serial_later _)).weaken (fun _ _ _ => trivial)
    |>.mono ?_
  rintro h' _ w' _ ⟨⟨⟨⟨⟨response, rfl⟩, account'⟩, profile⟩, users, dummy⟩, later⟩
  have user : response.user = was.profile :=
    Except.ok.inj ((profile response rfl).symm.trans row.profile)
  refine ⟨⟨response.tokens, ?_⟩, owns.mirrors.still users later.uuids ⟨account'.tokens, ?_⟩, later⟩
  · rw [← user]
  · exact dummy ▸ owns.mirrors.dummy

lemma acceptLogin_mirrors {userAgent : Option String} (ideal : Distinguishes env lex)
    (owns : Owns env lex w book u card) (said : password ∈ lex.passwords)
    (matched : password = card.password) :
    Serial env False (fun _ _ => True) (fun _ out w' =>
      (∃ tokens, out = .ok { tokens, user := card.profile }) ∧
      Mirrors env lex w' (book.edit card.id Card.cleared) ∧ Later w w') h w
      (acceptLogin env u password userAgent) := by
  refine meets_bind ((clearFailures_mirrors owns).mono ?_)
  rintro h₁ _ w₁ _ ⟨rfl, ⟨u₁, owns₁⟩, later₁⟩
  refine ⟨fun _ _ => ?_, by simp⟩
  refine meets_bind ((rehash_mirrors ideal owns₁ owns.row.id said matched).mono ?_)
  rintro h₂ _ w₂ _ ⟨rfl, ⟨u₂, owns₂⟩, later₂⟩
  refine ⟨fun _ _ => ?_, by simp⟩
  refine (startSession_mirrors ideal owns₂ owns.row rfl).mono ?_
  rintro h₃ _ w₃ _ ⟨answer, mirrors₃, later₃⟩
  exact ⟨answer, mirrors₃, (later₁.trans later₂).trans later₃⟩

lemma isLocked_mirrors (owns : Owns env lex w book u card) :
    Serial env False (fun _ _ => True) (fun _ out w' => (∃ now, w.clock ≤ now ∧ now ≤ w'.clock ∧
      out = .ok (card.isLocked now)) ∧ w'.users = w.users ∧ Mirrors env lex w' book ∧
        Later w w') h w
      (isLocked u) := by
  have uses : (isLocked u).Uses Aloof := by
    unfold isLocked
    split
    · exact uses_ret _
    · exact uses_bind (perform_uses trivial) fun _ => uses_ret _
  refine owns.mirrors.serial uses ?_
  have locked := owns.row.locked
  unfold isLocked
  split
  · rename_i free
    refine ⟨trivial, w.clock, Nat.le_refl _, Nat.le_refl _, ?_⟩
    rw [Card.isLocked, ← locked, free]
    rfl
  · rename_i until_ there
    refine meets_bind (serial_perform (I := fun _ _ => True) trivial ?_)
    intro ch now w₁ _ answered
    obtain ⟨late, clock⟩ := exec_now answered
    refine ⟨trivial, ?_, by simp⟩
    rintro _ ⟨⟩
    refine ⟨trivial, now, late, Nat.le_of_eq clock.symm, ?_⟩
    rw [Card.isLocked, ← locked, there]
    rfl

end Logins

/-! ## The answers of the book -/

/-- The id is new, and the times lie between those of the worlds. -/
structure Moment.Within (m : Moment) (w w' : World) : Prop where
  fresh : m.id ∉ w.uuids
  started : w.clock ≤ m.now
  lasts : m.now ≤ m.ended
  latest : m.ended ≤ w'.clock

/-- At some moment of the run the book gives this answer, and the tables mirror what the
book then is. -/
def Agrees {α : Type} (env : Env) (lex : Lexicon) (w : World) (shown : α → Reply)
    (spec : Moment → Except Failure Reply × Book) (out : Except Failure α) (w' : World) : Prop :=
  ∃ m book', Moment.Within m w w' ∧ spec m = (out.map shown, book') ∧ Mirrors env lex w' book'

section Agrees
variable {α : Type} {env : Env} {lex : Lexicon} {w w' : World} {shown : α → Reply}
  {book book' : Book}
  {spec : Moment → Except Failure Reply × Book} {out : Except Failure α}

/-- Where the answer draws no id. -/
lemma Agrees.of_times {now ended : Nat} (started : w.clock ≤ now) (lasts : now ≤ ended)
    (latest : ended ≤ w'.clock) (answers : ∀ id, spec ⟨id, now, ended⟩ = (out.map shown, book'))
    (mirrors : Mirrors env lex w' book') : Agrees env lex w shown spec out w' := by
  obtain ⟨id, fresh⟩ := Infinite.exists_notMem_finset w.uuids.toFinset
  exact ⟨⟨id, now, ended⟩, book', ⟨by simpa using fresh, started, lasts, latest⟩, answers id,
    mirrors⟩

/-- Where it reads no clock either. -/
lemma Agrees.of_any (later : Later w w') (answers : ∀ m, spec m = (out.map shown, book'))
    (mirrors : Mirrors env lex w' book') : Agrees env lex w shown spec out w' :=
  .of_times (Nat.le_refl _) (Nat.le_refl _) later.clock (fun _ => answers _) mirrors

end Agrees

section Requests
variable {env : Env} {lex : Lexicon} {w : World} {h : List OwnCall} {book : Book} {card : Card}
  {u : User}
  {id : Uuid} {password email : String} {userAgent : Option String}

lemma findByEmail_mirrors (ideal : Distinguishes env lex)
    (said : normalizeEmail env.unicode email ∈ lex.emails) (mirrors : Mirrors env lex w book) :
    Serial env False (fun _ _ => True) (fun _ out w' => ∃ found, out = .ok found ∧
      Option.Rel (Owns env lex w' book) found (book.withEmail (normalizeEmail env.unicode email)) ∧
      Mirrors env lex w' book ∧ Later w w') h w (UsersService.findByEmail env email) := by
  have reads : Serial env False (fun _ _ => True) (fun _ out _ =>
      out = .ok (w.users.find? (·.emailHash = UsersService.emailHash env email))) h w
      (UsersService.findByEmail env email) := by
    refine serial_await (serial_perform (I := fun _ _ => True) trivial ?_)
    intro ch r w₁ healthy answered
    obtain ⟨_, ⟨fails, _⟩ | rfl⟩ := exec_userFindByEmailHash answered
    · exact (healthy fails).elim
    refine ⟨trivial, ?_, by simp, by simp⟩
    rintro _ ⟨⟩
    rfl
  refine (mirrors.serial (await_uses (perform_uses trivial)) reads).mono ?_
  rintro h' _ w' _ ⟨rfl, users, mirrors', later⟩
  exact ⟨_, rfl, mirrors.owned ideal.emails (mirrors.withEmail ideal.emails said)
    (fun _ there => List.mem_of_find?_eq_some there) users mirrors', mirrors', later⟩

lemma findById_mirrors (ideal : Distinguishes env lex) (mirrors : Mirrors env lex w book) :
    Serial env False (fun _ _ => True) (fun _ out w' => ∃ found, out = .ok found ∧
      Option.Rel (Owns env lex w' book) found (book.withId id) ∧ Mirrors env lex w' book ∧
        Later w w') h w
      (UsersService.findById id) := by
  have reads : Serial env False (fun _ _ => True) (fun _ out _ =>
      out = .ok (w.users.find? (·.id = id))) h w (UsersService.findById id) := by
    refine serial_await (serial_perform (I := fun _ _ => True) trivial ?_)
    intro ch r w₁ healthy answered
    obtain ⟨_, ⟨fails, _⟩ | rfl⟩ := exec_userFindById answered
    · exact (healthy fails).elim
    refine ⟨trivial, ?_, by simp, by simp⟩
    rintro _ ⟨⟩
    rfl
  refine (mirrors.serial (await_uses (perform_uses trivial)) reads).mono ?_
  rintro h' _ w' _ ⟨rfl, users, mirrors', later⟩
  exact ⟨_, rfl, mirrors.owned ideal.emails mirrors.withId
    (fun _ there => List.mem_of_find?_eq_some there) users mirrors', mirrors', later⟩

/-- The comparison with the hash of an account. -/
lemma verify_mirrors (said : password ∈ lex.passwords) (owns : Owns env lex w book u card) :
    Serial env False (fun _ _ => True) (fun _ out w' =>
      out = .ok (decide (password = card.password)) ∧ Owns env lex w' book u card ∧ Later w w') h w
      (PasswordService.verify u.passwordHash password) := by
  refine (owns.mirrors.serial ((verify_derives _ _).mono fun _ => Derives.aloof)
    (verify_opens said owns.row.opens)).mono ?_
  rintro h' _ w' _ ⟨rfl, users, mirrors, later⟩
  exact ⟨rfl, owns.still users mirrors, later⟩

lemma login_agrees {dto : LoginDto} (ideal : Distinguishes env lex)
    (said : (Handler.login dto).Says env lex) (mirrors : Mirrors env lex w book) :
    Serial env False (fun _ _ => True) (fun _ out w' =>
      Agrees env lex w (fun response => Reply.session response.user) (book.login env dto) out w')
      h w
      (login env dto userAgent) := by
  have refuses : ∀ h₁ w₁, Mirrors env lex w₁ book →
      Serial env False (fun _ _ => True) (fun _ out w' => out = .error invalidCredentials ∧
        Mirrors env lex w' book ∧ Later w₁ w') h₁ w₁ (do
        PasswordService.verifyAgainstDummy dto.password
        (Prog.throw invalidCredentials : Task AuthResponse)) := by
    intro h₁ w₁ mirrors₁
    refine meets_bind ((verifyAgainstDummy_mirrors ideal mirrors₁).mono ?_)
    rintro h₂ _ w₂ _ ⟨rfl, mirrors₂, later₂⟩
    exact ⟨fun _ _ => ⟨trivial, rfl, mirrors₂, later₂⟩, by simp⟩
  refine meets_bind ((findByEmail_mirrors ideal said.2 mirrors).mono ?_)
  rintro h₁ _ w₁ _ ⟨found, rfl, related, mirrors₁, later₁⟩
  refine ⟨?_, by simp⟩
  rintro _ ⟨⟩
  cases there : book.withEmail (normalizeEmail env.unicode dto.email) with
  | none =>
    rw [there] at related
    cases related
    refine (refuses h₁ w₁ mirrors₁).mono ?_
    rintro h₂ _ w₂ _ ⟨rfl, mirrors₂, later₂⟩
    exact .of_any (later₁.trans later₂) (fun m => by simp [Book.login, there, Except.map]) mirrors₂
  | some card =>
    rw [there] at related
    obtain @⟨u, _, owns⟩ := related
    refine meets_bind ((isLocked_mirrors owns).mono ?_)
    rintro h₂ _ w₂ _ ⟨⟨now, started, latest, rfl⟩, users₂, mirrors₂, later₂⟩
    refine ⟨?_, by simp⟩
    rintro _ ⟨⟩
    have owns₂ := owns.still users₂ mirrors₂
    have began : w.clock ≤ now := Nat.le_trans later₁.clock started
    cases locked : card.isLocked now with
    | true =>
      refine (refuses h₂ w₂ mirrors₂).mono ?_
      rintro h₃ _ w₃ _ ⟨rfl, mirrors₃, later₃⟩
      exact .of_times began (Nat.le_refl _) (Nat.le_trans latest later₃.clock)
        (fun id => by simp [Book.login, there, locked, Except.map]) mirrors₃
    | false =>
      refine meets_bind ((verify_mirrors said.1 owns₂).mono ?_)
      rintro h₃ _ w₃ _ ⟨rfl, owns₃, later₃⟩
      refine ⟨?_, by simp⟩
      rintro _ ⟨⟩
      have compared : now ≤ w₃.clock := Nat.le_trans latest later₃.clock
      by_cases matched : dto.password = card.password
      · rw [if_pos (decide_eq_true matched)]
        refine (acceptLogin_mirrors ideal owns₃ said.1 matched).mono ?_
        rintro h₄ _ w₄ _ ⟨⟨tokens, rfl⟩, mirrors₄, later₄⟩
        exact .of_times began (Nat.le_refl _) (Nat.le_trans compared later₄.clock)
          (fun id => by simp [Book.login, there, locked, matched, Except.map]) mirrors₄
      · rw [if_neg (by simpa using matched)]
        rw [owns.row.id]
        refine meets_bind ((registerFailedLogin_mirrors owns₃).mono ?_)
        rintro h₄ _ w₄ _ ⟨rfl, ended, lasts, last, mirrors₄, later₄⟩
        refine ⟨fun _ _ => ⟨trivial, ?_⟩, by simp⟩
        exact .of_times began (Nat.le_trans compared lasts) last
          (fun id => by simp [Book.login, there, locked, matched, Except.map]) mirrors₄

lemma verifyCurrentPassword_mirrors (ideal : Distinguishes env lex)
    (said : password ∈ lex.passwords) (mirrors : Mirrors env lex w book) :
    Serial env False (fun _ _ => True) (fun _ out w' =>
      (book.confirmed id password = none → out = .error wrongCurrentPassword) ∧
      (∀ card, book.confirmed id password = some card → card.id = id ∧
        ∃ u, out = .ok u ∧ Owns env lex w' book u card) ∧ Mirrors env lex w' book ∧ Later w w') h w
      (verifyCurrentPassword id password) := by
  refine meets_bind ((findById_mirrors ideal mirrors).mono ?_)
  rintro h₁ _ w₁ _ ⟨found, rfl, related, mirrors₁, later₁⟩
  refine ⟨?_, by simp⟩
  rintro _ ⟨⟩
  cases there : book.withId id with
  | none =>
    rw [there] at related
    cases related
    have nobody : book.confirmed id password = none := by simp [Book.confirmed, there]
    exact ⟨trivial, fun _ => rfl, by simp [nobody], mirrors₁, later₁⟩
  | some card =>
    rw [there] at related
    obtain @⟨u, _, owns⟩ := related
    refine meets_bind ((verify_mirrors said owns).mono ?_)
    rintro h₂ _ w₂ _ ⟨rfl, owns₂, later₂⟩
    refine ⟨?_, by simp⟩
    rintro _ ⟨⟩
    have later := later₁.trans later₂
    by_cases matched : password = card.password
    · rw [if_pos (decide_eq_true matched)]
      have confirmed : book.confirmed id password = some card := by
        simp [Book.confirmed, there, matched]
      refine ⟨trivial, by simp [confirmed], fun card' right => ?_, owns₂.mirrors, later⟩
      obtain rfl := Option.some.inj (confirmed.symm.trans right)
      exact ⟨by simpa using List.find?_some there, u, rfl, owns₂⟩
    · rw [if_neg (by simpa using matched)]
      have wrong : book.confirmed id password = none := by
        simp [Book.confirmed, there, Option.filter, Ne.symm matched]
      exact ⟨trivial, fun _ => rfl, by simp [wrong], owns₂.mirrors, later⟩

end Requests

end BajaValle
