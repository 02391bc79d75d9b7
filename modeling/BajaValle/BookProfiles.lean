import BajaValle.BookLogins

/-!
# Accounts and profiles as the book has them

Registration, the changes of a profile and the deletion of an account.
-/

namespace BajaValle

open CallPrograms Prog RelatedTables AuthService SessionsService

/-! ## New accounts -/

section Creation
variable {env : Env} {lex : Lexicon} {w : World} {h : List OwnCall} {book : Book} {id : Uuid}
  {email firstName lastName stored password : String} {userAgent : Option String}

/-- The email is that of another account. -/
lemma Mirrors.taken (mirrors : Mirrors env lex w book) (apart : EmailsApart env lex) (id : Uuid)
    {email : String} (said : normalizeEmail env.unicode email ∈ lex.emails) :
    w.emailTaken id (UsersService.emailHash env email) = true ↔
      ∃ other ∈ book, other.id ≠ id ∧ other.email = normalizeEmail env.unicode email := by
  have alike : ∀ u card, IsCard env lex u card →
      (u.emailHash = UsersService.emailHash env email ↔
        card.email = normalizeEmail env.unicode email) := fun u card row =>
    row.email_iff apart said
  simp only [World.emailTaken, List.any_eq_true, Bool.and_eq_true, decide_eq_true_eq]
  constructor
  · rintro ⟨u, hu, other, hash⟩
    obtain ⟨card, hc, row⟩ := exists_related mirrors.rows hu
    exact ⟨card, hc, row.id ▸ by simpa using other, (alike u card row).mp hash⟩
  · rintro ⟨card, hc, other, same⟩
    obtain ⟨u, hu, row⟩ := exists_related mirrors.rows.flip hc
    have row : IsCard env lex u card := row
    exact ⟨u, hu, by simpa [row.id] using other, (alike u card row).mpr same⟩

lemma Book.withEmail_isSome {email : String} :
    (book.withEmail email).isSome = true ↔ ∃ card ∈ book, card.email = email := by
  simp [Book.withEmail]

/-- What the creation of an account calls. -/
def Creates : Op → Prop
  | .randomBytes _ | .userCreate _ => True
  | _ => False

lemma encryptFresh_draws {kind : Op → Prop} {text context : String}
    (draws : kind (.randomBytes EncryptionService.IV_BYTES)) :
    (EncryptionService.encryptFresh env text context).Uses kind :=
  uses_bind (perform_uses draws) fun _ => ofExcept_uses _

lemma create_creates {role : Option Role} :
    (UsersService.create env email firstName lastName stored role).Uses Creates := by
  rw [UsersService.create_eq]
  have draws : ∀ text context, (EncryptionService.encryptFresh env text context).Uses Creates :=
    fun _ _ => encryptFresh_draws trivial
  exact uses_bind (draws _ _) fun _ => uses_bind (draws _ _) fun _ =>
    uses_bind (draws _ _) fun _ => conflictOnDuplicate_uses (perform_uses trivial)

/-- A row as it is inserted between two worlds. -/
structure NewRow (w w' : World) (u : User) : Prop where
  failed : u.failedLoginAttempts = 0
  locked : u.lockedUntil = none
  since : w.clock ≤ u.createdAt
  before : u.createdAt ≤ w'.clock

lemma exec_newRow {ch : Choice} {op : Op} {r : op.Res} {w₁ w₂ : World}
    (answered : exec env ch op w₁ = some (r, w₂)) (creates : Creates op) (later : Later w w₁)
    (rows : ∀ u ∈ w₁.users, u ∈ w.users ∨ NewRow w w₁ u) :
    ∀ u ∈ w₂.users, u ∈ w.users ∨ NewRow w w₂ u := by
  have step : Later w₁ w₂ := .of_exec answered
  have kept : ∀ u ∈ w₁.users, u ∈ w.users ∨ NewRow w w₂ u := fun u hu =>
    (rows u hu).imp_right fun row => ⟨row.failed, row.locked, row.since,
      Nat.le_trans row.before step.clock⟩
  have clock := (exec_spends answered).clock
  cases exec_users answered with
  | kept same => exact same ▸ kept
  | inserted d same =>
    intro u hu
    rw [same] at hu
    rcases List.mem_append.mp hu with old | new
    · exact kept u old
    · obtain rfl := List.mem_singleton.mp new
      refine .inr ⟨rfl, rfl, ?_, Nat.le_of_eq clock.symm⟩
      exact Nat.le_trans later.clock (clock ▸ step.clock)
  | updated => exact creates.elim
  | deleted => exact creates.elim

lemma create_mirrors (ideal : Distinguishes env lex)
    (said : normalizeEmail env.unicode email ∈ lex.emails) (mirrors : Mirrors env lex w book)
    (opens : Unlocks env lex stored password) :
    Serial env False (fun _ _ => True) (fun _ out w' => Later w w' ∧
      ((∃ card ∈ book, card.email = normalizeEmail env.unicode email) →
        out = .error UsersService.emailConflict ∧ Mirrors env lex w' book) ∧
      ((¬ ∃ card ∈ book, card.email = normalizeEmail env.unicode email) →
        ∃ u card, out = .ok u ∧ Owns env lex w' (book ++ [card]) u card ∧ u.id ∉ w.uuids ∧
          w.clock ≤ u.createdAt ∧ u.createdAt ≤ w'.clock ∧ card =
            { id := u.id, email := normalizeEmail env.unicode email, firstName, lastName,
              password, role := .CLIENT, createdAt := u.createdAt })) h w
      (UsersService.create env email firstName lastName stored none) := by
  have made : Serial env False (fun _ w' => w.uuids ⊆ w'.uuids) (fun _ out w' =>
      Created env w email firstName lastName stored none w' out) h w
      (UsersService.create env email firstName lastName stored none) :=
    Meets.anywhere (create_alone ideal.keys)
  have aside : Serial env False (fun _ w' => Aside env w' ∧ Later w w' ∧
        ∀ u ∈ w'.users, u ∈ w.users ∨ NewRow w w' u)
      (fun _ _ w' => Aside env w' ∧ Later w w' ∧ ∀ u ∈ w'.users, u ∈ w.users ∨ NewRow w w' u) h w
      (UsersService.create env email firstName lastName stored none) := by
    refine serial_invariant create_creates ⟨mirrors.toAside, .refl w, fun u hu => .inl hu⟩ ?_
    rintro ch op r w₁ w₂ creates answered ⟨aside, later, rows⟩
    refine ⟨aside.exec answered ?_, later.trans (.of_exec answered),
      exec_newRow answered creates later rows⟩
    cases op <;> trivial
  refine ((made.and aside).weaken fun _ _ _ => trivial).mono ?_
  rintro h' out w' _ ⟨created, aside, later, rows⟩
  have held : ∀ id, id ∉ w.uuids → (w.emailTaken id (UsersService.emailHash env email) = true ↔
      ∃ card ∈ book, card.email = normalizeEmail env.unicode email) := by
    intro id fresh
    rw [mirrors.taken ideal.emails id said]
    refine exists_congr fun card => and_congr_right fun hc => and_iff_right ?_
    rintro rfl
    exact fresh (mirrors.drawn card hc)
  refine ⟨later, ?_⟩
  cases created with
  | conflict id drawn taken users =>
    refine ⟨fun _ => ⟨rfl, mirrors.still users later.uuids aside⟩, fun free => ?_⟩
    exact absurd ((held id drawn).mp taken) free
  | created u drawn free users now hash opened role enciphered =>
    have untaken := mt (held u.id drawn).mpr (by simp [free])
    refine ⟨fun taken => absurd taken untaken, fun _ => ?_⟩
    -- the new row is told from the old ones by its id, which no account has had
    have new : u ∉ w.users := by
      intro old
      obtain ⟨card, hc, row⟩ := exists_related mirrors.rows old
      exact drawn (row.id ▸ mirrors.drawn card hc)
    have inserted : NewRow w w' u := (rows u (by simp [users])).resolve_left new
    have row : IsCard env lex u
        { id := u.id, email := normalizeEmail env.unicode email, firstName, lastName,
          password, role := .CLIENT, createdAt := u.createdAt } :=
      ⟨rfl, enciphered, hash, said, opened ▸ opens, role, rfl, inserted.failed, inserted.locked⟩
    have mirrors' := mirrors.inserted users later.uuids aside row drawn now
      fun other ho same => untaken ⟨other, ho, same⟩
    refine ⟨u, _, rfl, ⟨mirrors', ?_, by simp, row⟩, drawn, inserted.since, inserted.before, rfl⟩
    have absent : w.users.find? (·.id = u.id) = none := by
      refine List.find?_eq_none.mpr fun v hv same => ?_
      obtain ⟨card, hc, row⟩ := exists_related mirrors.rows hv
      have same : v.id = u.id := by simpa using same
      exact drawn (same ▸ row.id ▸ mirrors.drawn card hc)
    simp [users, absent]

lemma register_agrees {dto : RegisterDto} (ideal : Distinguishes env lex)
    (said : (Handler.register dto).Says env lex) (mirrors : Mirrors env lex w book) :
    Serial env False (fun _ _ => True) (fun _ out w' =>
      Agrees env lex w (fun response => Reply.session response.user) (book.register env dto) out w')
      h w
      (register env dto userAgent) := by
  refine meets_bind (serial_ofExcept trivial ?_)
  cases checked : PasswordService.assertAcceptable env dto.password (some dto.email) with
  | error e =>
    refine ⟨by simp, ?_⟩
    rintro _ ⟨⟩
    exact .of_any (.refl w) (fun m => by simp [Book.register, checked, Except.map]) mirrors
  | ok checked' =>
    refine ⟨fun _ _ => ?_, by simp⟩
    refine meets_bind ((hash_mirrors ideal said.1 mirrors).mono ?_)
    rintro h₁ _ w₁ _ ⟨⟨stored, rfl, opens⟩, _, mirrors₁, later₁⟩
    refine ⟨?_, by simp⟩
    rintro _ ⟨⟩
    refine meets_bind ((create_mirrors ideal said.2 mirrors₁ opens).mono ?_)
    rintro h₂ out w₂ _ ⟨later₂, conflict, create⟩
    have later := later₁.trans later₂
    by_cases taken : ∃ card ∈ book, card.email = normalizeEmail env.unicode dto.email
    · obtain ⟨rfl, mirrors₂⟩ := conflict taken
      refine ⟨by simp, ?_⟩
      rintro _ ⟨⟩
      have there := Book.withEmail_isSome.mpr taken
      exact .of_any later (fun m => by simp [Book.register, checked, there, Except.map]) mirrors₂
    · obtain ⟨u, card, rfl, owns, fresh, since, before, shape⟩ := create taken
      refine ⟨?_, by simp⟩
      rintro _ ⟨⟩
      refine (startSession_mirrors ideal owns owns.row rfl).mono ?_
      rintro h₃ _ w₃ _ ⟨⟨tokens, rfl⟩, mirrors₃, later₃⟩
      have free : (book.withEmail (normalizeEmail env.unicode dto.email)).isSome = false := by
        simpa using mt Book.withEmail_isSome.mp taken
      refine ⟨⟨u.id, u.createdAt, u.createdAt⟩, book ++ [card],
        ⟨fun old => fresh (later₁.uuids old),
        Nat.le_trans later₁.clock since, Nat.le_refl _, Nat.le_trans before later₃.clock⟩, ?_,
        mirrors₃⟩
      simp [Book.register, checked, free, Except.map, shape]

end Creation

/-! ## Profiles -/

section Profiles
variable {env : Env} {lex : Lexicon} {w : World} {h : List OwnCall} {book : Book} {user : AuthUser}
  {id : Uuid} {password : String}

lemma get_agrees (ideal : Distinguishes env lex) (mirrors : Mirrors env lex w book) :
    Serial env False (fun _ _ => True) (fun _ out w' =>
      Agrees env lex w Reply.profile (fun _ => book.getProfile user.id) out w') h w
      (ProfileController.get env user) := by
  refine meets_bind ((findById_mirrors ideal mirrors).mono ?_)
  rintro h₁ _ w₁ _ ⟨found, rfl, related, mirrors₁, later₁⟩
  refine ⟨?_, by simp⟩
  rintro _ ⟨⟩
  cases there : book.withId user.id with
  | none =>
    rw [there] at related
    cases related
    exact ⟨trivial, .of_any later₁ (fun _ => by simp [Book.getProfile, there, Except.map]) mirrors₁⟩
  | some card =>
    rw [there] at related
    obtain @⟨u, _, owns⟩ := related
    refine serial_ofExcept trivial ?_
    rw [owns.row.profile]
    exact .of_any later₁ (fun _ => by simp [Book.getProfile, there, Except.map]) mirrors₁

lemma serial_aside {α : Type} {p : Task α} (uses : p.Uses Bystander)
    (mirrors : Mirrors env lex w book) :
    Serial env False (fun _ w' => Aside env w') (fun _ _ w' => Aside env w') h w p :=
  serial_invariant uses mirrors.toAside fun _ _ _ _ _ edits answered here =>
    here.exec answered edits

lemma encryptName_bystander {name : Option String} {context : String} :
    (UsersService.encryptName env name context).Uses Bystander := by
  cases name with
  | none => exact uses_ret _
  | some name =>
    unfold UsersService.encryptName
    dsimp only
    split
    · exact uses_ret _
    · exact uses_bind (encryptFresh_draws trivial) fun _ => uses_ret _

lemma updateName_bystander {names : UserNames} :
    (UsersService.updateName env id names).Uses Bystander :=
  uses_bind encryptName_bystander fun _ => uses_bind encryptName_bystander fun _ =>
    await_uses (perform_uses trivial)

lemma updateEmail_bystander {email : String} :
    (UsersService.updateEmail env id email).Uses Bystander := by
  rw [UsersService.updateEmail_eq]
  exact uses_bind (encryptFresh_draws trivial) fun _ =>
    conflictOnDuplicate_uses (perform_uses trivial)

lemma delete_bystander : (UsersService.delete id).Uses Bystander :=
  uses_bind (await_uses (perform_uses trivial)) fun _ => uses_ret _

lemma IsCard.renamed {u : User} {card : Card} {names : UserNames} {now : Nat}
    {firstNameEnc lastNameEnc : Option String} (row : IsCard env lex u card)
    (first : Named env UsersService.FIELD.firstName names.firstName firstNameEnc)
    (last : Named env UsersService.FIELD.lastName names.lastName lastNameEnc) :
    IsCard env lex (UserChanges.apply { firstNameEnc, lastNameEnc } now u)
      (card.renamed names) where
  id := row.id
  enciphered := ⟨row.enciphered.email, first.sealed row.enciphered.firstName,
    last.sealed row.enciphered.lastName⟩
  index := row.index
  email := row.email
  opens := row.opens
  role := row.role
  createdAt := row.createdAt
  failed := row.failed
  locked := row.locked

lemma IsCard.moved {u : User} {card : Card} {email hash enc : String} {now : Nat}
    {version : JsNumber} (row : IsCard env lex u card)
    (fixed : Sealed env version UsersService.FIELD.email email enc)
    (index : hash = EncryptionService.blindIndex env email UsersService.FIELD.email)
    (said : email ∈ lex.emails) :
    IsCard env lex (UserChanges.apply { emailHash := some hash, emailEnc := some enc } now u)
      (card.moved email) where
  id := row.id
  enciphered := ⟨⟨version, fixed⟩, row.enciphered.firstName, row.enciphered.lastName⟩
  index := index
  email := said
  opens := row.opens
  role := row.role
  createdAt := row.createdAt
  failed := row.failed
  locked := row.locked

lemma update_agrees {names : UserNames} (ideal : Distinguishes env lex)
    (first : names.firstName ≠ some "") (last : names.lastName ≠ some "")
    (mirrors : Mirrors env lex w book) :
    Serial env False (fun _ _ => True) (fun _ out w' =>
      Agrees env lex w Reply.profile (fun _ => book.updateProfile user.id names) out w') h w
      (ProfileController.update env user names) := by
  unfold ProfileController.update
  split
  · rename_i nothing
    exact ⟨trivial, .of_any (.refl w)
      (fun _ => by simp [Book.updateProfile, nothing, Except.map]) mirrors⟩
  · rename_i something
    have edits : Serial env False (fun _ w' => w.uuids ⊆ w'.uuids) (fun _ out w' =>
        ∃ firstNameEnc lastNameEnc,
          Named env UsersService.FIELD.firstName names.firstName firstNameEnc ∧
          Named env UsersService.FIELD.lastName names.lastName lastNameEnc ∧
          Edited w user.id { firstNameEnc, lastNameEnc } w' out) h w
        (UsersService.updateName env user.id names) :=
      Meets.anywhere (updateName_alone ideal.keys first last)
    refine meets_bind (((edits.and (serial_aside updateName_bystander mirrors)).and
      (serial_later _)).weaken (fun _ _ _ => trivial) |>.mono ?_)
    rintro h₁ out w₁ _ ⟨⟨⟨firstNameEnc, lastNameEnc, hfirst, hlast, edited⟩, aside⟩, later⟩
    cases edited with
    | missing absent users =>
      refine ⟨by simp, ?_⟩
      rintro _ ⟨⟩
      have related : Option.Rel (IsCard env lex) none (book.withId user.id) :=
        absent ▸ mirrors.withId
      cases there : book.withId user.id with
      | some card =>
        rw [there] at related
        cases related
      | none =>
        exact .of_any later (fun _ => by simp [Book.updateProfile, something, there, Except.map])
          (mirrors.still users later.uuids aside)
    | conflict _ _ _ changes => cases changes
    | edited u now found _ users =>
      refine ⟨?_, by simp⟩
      rintro _ ⟨⟩
      obtain ⟨card, hc, there, same, row⟩ := mirrors.card_of found
      refine serial_ofExcept trivial ?_
      rw [(row.renamed hfirst hlast).profile]
      refine .of_any later (fun _ => ?_) (mirrors.edited (f := (·.renamed names)) users later.uuids
        aside (fun v other _ row' _ => row'.renamed hfirst hlast) (fun _ => rfl)
        fun _ _ _ => .inl rfl)
      simp [Book.updateProfile, something, there, Except.map]

/-- What follows the check of the current password, where that is right. -/
lemma confirmed_agrees {α : Type} {shown : α → Reply} {f : User → Task α}
    {spec : Except Failure Reply × Book} (ideal : Distinguishes env lex)
    (said : password ∈ lex.passwords)
    (mirrors : Mirrors env lex w book)
    (wrong : book.confirmed id password = none → spec = (.error wrongCurrentPassword, book))
    (right : ∀ h₁ w₁ u card, book.confirmed id password = some card → card.id = id →
      Owns env lex w₁ book u card → Later w w₁ → Serial env False (fun _ _ => True)
        (fun _ out w' => Agrees env lex w shown (fun _ => spec) out w') h₁ w₁ (f u)) :
    Serial env False (fun _ _ => True)
      (fun _ out w' => Agrees env lex w shown (fun _ => spec) out w') h w
      (verifyCurrentPassword id password >>= f) := by
  refine meets_bind ((verifyCurrentPassword_mirrors ideal said mirrors).mono ?_)
  rintro h₁ out₁ w₁ _ ⟨refused, accepted, mirrors₁, later₁⟩
  cases confirmed : book.confirmed id password with
  | none =>
    obtain rfl := refused confirmed
    refine ⟨by simp, ?_⟩
    rintro _ ⟨⟩
    exact .of_any later₁ (fun _ => wrong confirmed) mirrors₁
  | some card =>
    obtain ⟨same, u, rfl, owns⟩ := accepted card confirmed
    refine ⟨?_, by simp⟩
    rintro _ ⟨⟩
    exact right h₁ w₁ u card confirmed same owns later₁

lemma changeEmail_agrees {newEmail : String} (ideal : Distinguishes env lex)
    (said : (Handler.changeEmail newEmail password).Says env lex)
    (mirrors : Mirrors env lex w book) :
    Serial env False (fun _ _ => True) (fun _ out w' => Agrees env lex w Reply.profile
      (fun _ => book.changeEmail env user.id newEmail password) out w') h w
      (ProfileController.changeEmail env user newEmail password) := by
  refine confirmed_agrees ideal said.1 mirrors (fun wrong => by simp [Book.changeEmail, wrong]) ?_
  intro h₁ w₁ u card confirmed id owns later₁
  have mirrors₁ := owns.mirrors
  have edits : Serial env False (fun _ w' => w₁.uuids ⊆ w'.uuids) (fun _ out w' =>
      ∃ version enc, Sealed env version UsersService.FIELD.email
          (normalizeEmail env.unicode newEmail) enc ∧
        Edited w₁ user.id
          { emailHash := some (UsersService.emailHash env newEmail), emailEnc := some enc }
          w' out) h₁ w₁ (UsersService.updateEmail env user.id newEmail) :=
    Meets.anywhere (updateEmail_alone ideal.keys)
  refine meets_bind (((edits.and (serial_aside updateEmail_bystander mirrors₁)).and
    (serial_later _)).weaken (fun _ _ _ => trivial) |>.mono ?_)
  rintro h₂ out w₂ _ ⟨⟨⟨version, enc, fixed, edited⟩, aside⟩, later₂⟩
  have later := later₁.trans later₂
  have taken := mirrors₁.taken ideal.emails user.id said.2
  cases edited with
  | missing absent users =>
    rw [← id, owns.found] at absent
    cases absent
  | conflict v found e changes held users =>
    obtain rfl := Option.some.inj changes
    refine ⟨by simp, ?_⟩
    rintro _ ⟨⟩
    have held := taken.mp held
    exact .of_any later
      (fun _ => by simp only [Book.changeEmail, confirmed, if_pos held, Except.map])
      (mirrors₁.still users later₂.uuids aside)
  | edited v now found free users =>
    have untaken := mt taken.mpr (by simp [free (UsersService.emailHash env newEmail) rfl])
    refine ⟨?_, by simp⟩
    rintro _ ⟨⟩
    rw [← id, owns.found] at found
    obtain rfl := Option.some.inj found
    refine serial_ofExcept trivial ?_
    have moves : ∀ now v other, IsCard env lex v other → IsCard env lex (UserChanges.apply
        { emailHash := some (UsersService.emailHash env newEmail), emailEnc := some enc } now v)
        (other.moved (normalizeEmail env.unicode newEmail)) :=
      fun _ _ _ row => row.moved fixed (by rw [UsersService.emailHash]) said.2
    rw [(moves now u card owns.row).profile]
    refine .of_any later (fun _ => ?_) (mirrors₁.edited
      (f := (·.moved (normalizeEmail env.unicode newEmail))) users later₂.uuids aside
      (fun v other _ row' _ => moves now v other row') (fun card => card.moved_id _)
      fun card _ _ => .inr fun other ho there same =>
        untaken ⟨other, ho, there, same.symm.trans (card.moved_email _)⟩)
    simp only [Book.changeEmail, confirmed, if_neg untaken, Except.map]

lemma checkNewPassword_eq {u : User} {card : Card} {newPassword : String}
    (row : IsCard env lex u card) :
    ProfileController.checkNewPassword env u newPassword password =
      if newPassword = password then .error ProfileController.samePassword
      else PasswordService.assertAcceptable env newPassword (some card.email) := by
  unfold ProfileController.checkNewPassword
  rw [row.profile]
  rfl

lemma revokeAllForUser_mirrors {sessionId : Option Uuid} (mirrors : Mirrors env lex w book) :
    Serial env False (fun _ _ => True) (fun _ out w' => out = .ok () ∧ Mirrors env lex w' book ∧
      Later w w') h w (revokeAllForUser id sessionId) := by
  have returns : Serial env False (fun _ _ => True) (fun _ out _ => out = .ok ()) h w
      (revokeAllForUser id sessionId) := by
    refine meets_bind (serial_await (serial_perform (I := fun _ _ => True) trivial ?_))
    intro ch r w₁ healthy answered
    obtain ⟨rfl, _⟩ := exec_revocation healthy answered
    refine ⟨trivial, ?_, ?_, by simp⟩
    · rintro _ ⟨⟩
      exact ⟨fun _ _ => ⟨trivial, rfl⟩, by simp⟩
    · rintro _ ⟨⟩
  have uses : (revokeAllForUser id sessionId).Uses Aloof :=
    uses_bind (await_uses (perform_uses trivial)) fun _ => uses_ret _
  refine (mirrors.serial uses returns).mono ?_
  rintro h' _ w' _ ⟨rfl, _, mirrors', later⟩
  exact ⟨rfl, mirrors', later⟩

lemma changePassword_agrees {newPassword : String} (ideal : Distinguishes env lex)
    (said : (Handler.changePassword newPassword password).Says env lex)
    (mirrors : Mirrors env lex w book) :
    Serial env False (fun _ _ => True) (fun _ out w' => Agrees env lex w (fun _ => Reply.noContent)
      (fun _ => book.changePassword env user.id newPassword password) out w') h w
      (ProfileController.changePassword env user newPassword password) := by
  refine confirmed_agrees ideal said.1 mirrors
    (fun wrong => by simp [Book.changePassword, wrong]) ?_
  intro h₁ w₁ u card confirmed id owns later₁
  have mirrors₁ := owns.mirrors
  refine meets_bind (serial_ofExcept trivial ?_)
  rw [checkNewPassword_eq owns.row]
  by_cases same : newPassword = password
  · rw [if_pos same]
    refine ⟨by simp, ?_⟩
    rintro _ ⟨⟩
    exact .of_any later₁
      (fun _ => by simp [Book.changePassword, confirmed, same, Except.map]) mirrors₁
  rw [if_neg same]
  -- the email that is checked is deciphered from the row, as the book has it in the clear
  cases checked : PasswordService.assertAcceptable env newPassword (some card.email) with
  | error e =>
    refine ⟨by simp, ?_⟩
    rintro _ ⟨⟩
    exact .of_any later₁
      (fun _ => by simp [Book.changePassword, confirmed, same, checked, Except.map]) mirrors₁
  | ok checked' =>
    refine ⟨fun _ _ => ?_, by simp⟩
    refine meets_bind ((hash_mirrors ideal said.2 owns.mirrors).mono ?_)
    rintro h₂ _ w₂ _ ⟨⟨stored, rfl, opens⟩, users₂, mirrors₂, later₂⟩
    refine ⟨?_, by simp⟩
    rintro _ ⟨⟩
    rw [← id]
    refine meets_bind (((owns.still users₂ mirrors₂).update
      (c := { passwordHash := some stored }) (f := fun _ card => card.secured newPassword)
      ⟨rfl, rfl, rfl, rfl, rfl⟩ (fun _ _ => ⟨rfl, rfl, rfl, rfl⟩)
      fun _ _ row => ⟨opens, row.failed, row.locked⟩).mono ?_)
    rintro h₃ _ w₃ _ ⟨u₃, rfl, _, _, owns₃, later₃⟩
    refine ⟨fun _ _ => ?_, by simp⟩
    refine (revokeAllForUser_mirrors owns₃.mirrors).mono ?_
    rintro h₄ _ w₄ _ ⟨rfl, mirrors₄, later₄⟩
    rw [id] at *
    exact .of_any (((later₁.trans later₂).trans later₃).trans later₄)
      (fun _ => by simp [Book.changePassword, confirmed, same, checked, Except.map]) mirrors₄

lemma delete_agrees (ideal : Distinguishes env lex)
    (said : (Handler.deleteAccount password).Says env lex) (mirrors : Mirrors env lex w book) :
    Serial env False (fun _ _ => True) (fun _ out w' => Agrees env lex w (fun _ => Reply.noContent)
      (fun _ => book.deleteAccount user.id password) out w') h w
      (ProfileController.delete user password) := by
  refine confirmed_agrees ideal said mirrors (fun wrong => by simp [Book.deleteAccount, wrong]) ?_
  intro h₁ w₁ u card confirmed id owns later₁
  have mirrors₁ := owns.mirrors
  have deletes : Serial env False (fun _ w' => w₁.uuids ⊆ w'.uuids) (fun _ out w' =>
      (out = .error (.prisma .recordNotFound) ∧ w₁.users.find? (·.id = user.id) = none ∧
        w'.users = w₁.users) ∨
      (out = .ok () ∧ w₁.users.find? (·.id = user.id) ≠ none ∧
        w'.users = w₁.users.filter (·.id ≠ user.id))) h₁ w₁ (UsersService.delete user.id) :=
    Meets.anywhere delete_alone
  refine ((deletes.and (serial_aside delete_bystander mirrors₁)).and (serial_later _)).weaken
    (fun _ _ _ => trivial) |>.mono ?_
  rintro h₂ out w₂ _ ⟨⟨⟨rfl, absent, _⟩ | ⟨rfl, _, users⟩, aside⟩, later₂⟩
  · rw [← id, owns.found] at absent
    cases absent
  · exact .of_any (later₁.trans later₂)
      (fun _ => by simp [Book.deleteAccount, confirmed, Except.map])
      (mirrors₁.removed users later₂.uuids aside)

end Profiles

end BajaValle
