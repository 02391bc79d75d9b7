import BajaValle.DummyHash
import BajaValle.PersonalData

/-!
# Who has which email

The database refuses a blind index that another row has, and a registration or a change
of email turns the refusal into a conflict. However requests interleave, an email belongs
to one account, an account gets it by a request that asked for it, and a conflict is only
reported when somebody else had the email.
-/

namespace BajaValle

open CallPrograms Prog Interleaving SessionsService

/-- The email that a request asks for. -/
def Handler.claims : Handler → Option String
  | .register dto => some dto.email
  | .changeEmail newEmail _ => some newEmail
  | _ => none

/-- The account to which a call has given the blind index. -/
def takes (emailHash : String) : OwnCall → Option Uuid
  | ⟨.userCreate d, .ok u⟩ => if d.emailHash = emailHash then some u.id else none
  | ⟨.userUpdate id c, .ok _⟩ => if c.emailHash = some emailHash then some id else none
  | _ => none

/-- The blind index was another row's. -/
def EmailRefused (emailHash : String) : OwnCall → Prop
  | ⟨.userCreate d, .error .uniqueViolation⟩ => d.emailHash = emailHash
  | ⟨.userUpdate _ c, .error .uniqueViolation⟩ => c.emailHash = some emailHash
  | _ => False

/-- A request writes only the blind index of the email it asks for. -/
def Acquires (env : Env) (req : Request) (_ : List OwnCall) : Op → Prop
  | .userCreate d => ∃ email, req.handler.claims = some email ∧
      d.emailHash = UsersService.emailHash env email
  | .userUpdate _ c => ∀ e, c.emailHash = some e → ∃ email, req.handler.claims = some email ∧
      e = UsersService.emailHash env email
  | _ => True

section Rule
variable {env : Env} {req : Request} {h : List OwnCall} {α β : Type}

lemma LeavesData.acquires {op : Op} (leaves : LeavesData op) : Acquires env req h op := by
  cases op with
  | userCreate d => exact leaves.elim
  | userUpdate id c =>
    intro e written
    rw [leaves.1] at written
    cases written
  | _ => trivial

lemma reads_bind_acquires {p : Task α} {f : α → Task β} {post : List OwnCall → β → Prop}
    (uses : p.Uses ReadOnly) (rest : ∀ h' a, (f a).Obeys (Acquires env req) post h') :
    (p >>= f).Obeys (Acquires env req) post h :=
  obeys_bind (uses_obeys uses fun _ _ _ reads => reads.leavesData.acquires) fun h' a _ => rest h' a

lemma create_acquires {dto : RegisterDto} {passwordHash : String}
    (isRegister : req.handler = .register dto) :
    (UsersService.create env dto.email dto.firstName dto.lastName passwordHash none).Obeys
      (Acquires env req) Anything h := by
  rw [UsersService.create_eq]
  refine reads_bind_acquires (encryptFresh_uses env _ _) fun _ emailEnc => ?_
  refine reads_bind_acquires (encryptFresh_uses env _ _) fun _ firstNameEnc => ?_
  refine reads_bind_acquires (encryptFresh_uses env _ _) fun _ lastNameEnc => ?_
  refine perform_bind_obeys ⟨dto.email, by rw [isRegister]; rfl, rfl⟩ fun r => ?_
  cases r with
  | ok u => trivial
  | error e => cases e <;> trivial

lemma updateEmail_acquires {id : Uuid} {newEmail currentPassword : String}
    (isChange : req.handler = .changeEmail newEmail currentPassword) :
    (UsersService.updateEmail env id newEmail).Obeys (Acquires env req) Anything h := by
  rw [UsersService.updateEmail_eq]
  refine reads_bind_acquires (encryptFresh_uses env _ _) fun _ emailEnc => ?_
  refine perform_bind_obeys ?_ fun r => ?_
  · rintro e ⟨⟩
    exact ⟨newEmail, by rw [isChange]; rfl, rfl⟩
  · cases r with
    | ok u => trivial
    | error e => cases e <;> trivial

lemma updateName_acquires (id : Uuid) (names : UserNames) :
    (UsersService.updateName env id names).Obeys (Acquires env req) Anything h := by
  refine reads_bind_acquires (encryptName_uses env _ _) fun _ firstNameEnc => ?_
  refine reads_bind_acquires (encryptName_uses env _ _) fun _ lastNameEnc => ?_
  rw [← bind_pure (await _)]
  refine await_bind_obeys (M := Anything) (perform_obeys ?_ fun _ => trivial) fun _ _ _ => trivial
  rintro e ⟨⟩

theorem serve_acquires (env : Env) (req : Request) :
    (serve env req).Obeys (Acquires env req) Anything [] :=
  serve_writes (fun _ _ => LeavesData.acquires) (fun _ _ _ => create_acquires)
    (fun id names _ _ => updateName_acquires id names) fun _ _ _ _ => updateEmail_acquires

end Rule

/-! ## What the answers tell -/

/-- How a request that asks for an email ends: the email was taken, or the database has
refused it, unless a derivation failed in just that way. -/
def ClaimEnds {α : Type} (emailHash : String) (h : List OwnCall) (out : Except Failure α) : Prop :=
  (∀ a, out = .ok a → ∃ k ∈ h, ∃ id, takes emailHash k = some id) ∧
    (out = .error UsersService.emailConflict →
      (∃ k ∈ h, EmailRefused emailHash k) ∨ DerivationFailed h UsersService.emailConflict)

/-- The part raises no conflict of its own. -/
def Peaceful {α : Type} (p : Task α) : Prop :=
  ∀ h, p.Concludes (fun h' out => out = .error UsersService.emailConflict →
    DerivationFailed h' UsersService.emailConflict) h

section Ends
variable {env : Env} {h : List OwnCall} {emailHash : String} {α β : Type}

lemma peaceful_ret (a : α) : Peaceful (.ret a : Task α) := by
  rintro h ⟨⟩

lemma peaceful_throw {e : Failure} (other : e ≠ UsersService.emailConflict) :
    Peaceful (.throw e : Task α) :=
  fun _ same => absurd (Except.error.inj same) other

lemma peaceful_ofExcept {x : Except Failure α} (other : x ≠ .error UsersService.emailConflict) :
    Peaceful (Prog.ofExcept x : Task α) := by
  cases x with
  | ok a => exact peaceful_ret a
  | error e => exact peaceful_throw fun same => other (congrArg Except.error same)

lemma peaceful_bind {p : Task α} {f : α → Task β} (first : Peaceful p)
    (rest : ∀ a, Peaceful (f a)) : Peaceful (p >>= f) := by
  refine fun h => concludes_bind ((first h).mono fun h' out fails => ⟨?_, ?_⟩)
  · rintro a rfl
    exact rest a h'
  · rintro e rfl same
    exact fails (congrArg Except.error (Except.error.inj same))

lemma peaceful_perform (op : Op) : Peaceful (perform op) := by
  rintro h r ⟨⟩

lemma peaceful_await {run : Task (Except PrismaError α)} (peaceful : Peaceful run) :
    Peaceful (await run) := by
  refine peaceful_bind peaceful fun r => ?_
  cases r with
  | ok a => exact peaceful_ret a
  | error e => exact peaceful_throw nofun

lemma derive_peaceful (password : String) (salt : Bytes) (params : Argon2Params) :
    Peaceful (PasswordService.derive password salt params) := by
  rintro h (e | derived)
  · intro same
    exact ⟨_, List.mem_cons_self, congrArg some (Except.error.inj same)⟩
  · rintro ⟨⟩

lemma hash_peaceful (password : String) : Peaceful (PasswordService.hash password) :=
  peaceful_bind (peaceful_perform _) fun _ => peaceful_bind (derive_peaceful _ _ _) fun _ =>
    peaceful_ret _

lemma verify_peaceful (storedHash password : String) :
    Peaceful (PasswordService.verify storedHash password) := by
  unfold PasswordService.verify
  split
  · exact peaceful_ret _
  · exact peaceful_bind (derive_peaceful _ _ _) fun _ => peaceful_ret _

lemma encryptFresh_peaceful (plaintext context : String) :
    Peaceful (EncryptionService.encryptFresh env plaintext context) := by
  refine peaceful_bind (peaceful_perform _) fun iv => peaceful_ofExcept ?_
  unfold EncryptionService.encrypt
  split
  · simp [UsersService.emailConflict]
  · split <;> simp [UsersService.emailConflict]

lemma toProfile_peaceful (user : User) :
    Peaceful (Prog.ofExcept (UsersService.toProfile env user) : Task UserProfile) := by
  refine peaceful_ofExcept fun failed => ?_
  obtain ⟨payload, context, undeciphered⟩ := UsersService.toProfile_eq_error failed
  cases EncryptionService.decrypt_error undeciphered

lemma startSession_peaceful (user : User) (userAgent : Option String) :
    Peaceful (AuthService.startSession env user userAgent) := by
  refine peaceful_bind (peaceful_bind (peaceful_perform _) fun _ => ?_) fun created => ?_
  · exact peaceful_bind (peaceful_perform _) fun _ =>
      peaceful_bind (peaceful_await (peaceful_perform _)) fun _ => peaceful_ret _
  · exact peaceful_bind (peaceful_bind (peaceful_perform _) fun _ => peaceful_ret _) fun _ =>
      peaceful_bind (toProfile_peaceful user) fun _ => peaceful_ret _

lemma verifyCurrentPassword_peaceful (userId : Uuid) (password : String) :
    Peaceful (AuthService.verifyCurrentPassword userId password) := by
  refine peaceful_bind (peaceful_await (peaceful_perform _)) fun found => ?_
  cases found with
  | none => exact peaceful_throw nofun
  | some user =>
    refine peaceful_bind (verify_peaceful _ _) fun matched => ?_
    cases matched with
    | true => exact peaceful_ret _
    | false => exact peaceful_throw nofun

lemma guards_peaceful (route : Route) (authorization : Option String) :
    Peaceful (guards route authorization) := by
  have authenticates : ∀ token, Peaceful (JwtAuthGuard.authenticate token) := by
    intro token
    refine peaceful_bind (peaceful_perform _) fun payload => ?_
    cases payload with
    | none => exact peaceful_throw nofun
    | some payload =>
      refine peaceful_bind (peaceful_await (peaceful_perform _)) fun found => ?_
      rcases found with _ | ⟨session, user⟩
      · exact peaceful_throw nofun
      · dsimp only
        split
        · exact peaceful_throw nofun
        · exact peaceful_ret _
  have admits : Peaceful (JwtAuthGuard.canActivate route authorization) := by
    unfold JwtAuthGuard.canActivate
    split
    · exact peaceful_ret _
    · split
      · split
        · exact peaceful_ret _
        · exact peaceful_throw nofun
      · split
        · exact peaceful_throw nofun
        · exact peaceful_bind (authenticates _) fun _ => peaceful_ret _
  refine peaceful_bind admits fun user => peaceful_bind (peaceful_ofExcept ?_) fun _ =>
    peaceful_ret _
  unfold RolesGuard.canActivate
  split
  · simp
  · split
    · simp [RolesGuard.notAllowed, UsersService.emailConflict]
    · split <;> simp [RolesGuard.notAllowed, UsersService.emailConflict]

lemma acceptable_peaceful (password : String) (email : Option String) :
    Peaceful (Prog.ofExcept (PasswordService.assertAcceptable env password email) : Task Unit) := by
  refine peaceful_ofExcept ?_
  unfold PasswordService.assertAcceptable
  dsimp only
  split_ifs <;> simp [PasswordService.tooCommon, PasswordService.containsEmail,
    UsersService.emailConflict]

lemma claimEnds_ok {k : OwnCall} {id : Uuid} {a : α} (mem : k ∈ h)
    (taken : takes emailHash k = some id) : ClaimEnds emailHash h (.ok a) := by
  refine ⟨fun _ _ => ⟨k, mem, id, taken⟩, ?_⟩
  rintro ⟨⟩

lemma claimEnds_error {e : Failure} (fails : e = UsersService.emailConflict →
      (∃ k ∈ h, EmailRefused emailHash k) ∨ DerivationFailed h UsersService.emailConflict) :
    ClaimEnds emailHash h (.error e : Except Failure α) := by
  refine ⟨?_, fun same => fails (Except.error.inj same)⟩
  rintro a ⟨⟩

lemma claim_create {d : NewUser} (written : d.emailHash = emailHash) :
    (UsersService.conflictOnDuplicate (perform (.userCreate d))).Concludes
      (ClaimEnds emailHash) h := by
  rintro (e | u)
  · cases e with
    | uniqueViolation => exact claimEnds_error fun _ => .inl ⟨_, List.mem_cons_self, written⟩
    | _ => exact claimEnds_error nofun
  · exact claimEnds_ok List.mem_cons_self (if_pos written)

lemma claim_update {id : Uuid} {c : UserChanges} (written : c.emailHash = some emailHash) :
    (UsersService.conflictOnDuplicate (perform (.userUpdate id c))).Concludes
      (ClaimEnds emailHash) h := by
  rintro (e | u)
  · cases e with
    | uniqueViolation => exact claimEnds_error fun _ => .inl ⟨_, List.mem_cons_self, written⟩
    | _ => exact claimEnds_error nofun
  · exact claimEnds_ok List.mem_cons_self (if_pos written)

lemma claim_later {p : Task α} {f : α → Task β} (peaceful : Peaceful p)
    (rest : ∀ h' a, (f a).Concludes (ClaimEnds emailHash) h') :
    (p >>= f).Concludes (ClaimEnds emailHash) h := by
  refine concludes_bind ((peaceful h).mono fun h' out fails => ⟨fun a _ => rest h' a, ?_⟩)
  rintro e rfl
  exact claimEnds_error fun same => .inr (fails (congrArg Except.error same))

lemma claim_earlier {p : Task α} {f : α → Task β} (claims : p.Concludes (ClaimEnds emailHash) h)
    (rest : ∀ a, Peaceful (f a)) : (p >>= f).Concludes (ClaimEnds emailHash) h := by
  refine concludes_bind (claims.mono fun h' out ends => ⟨?_, ?_⟩)
  · rintro a rfl
    obtain ⟨k, mem, taken⟩ := ends.1 a rfl
    refine ((rest a h').and (concludes_uses (uses_true _))).mono fun h₁ out₁ later => ?_
    exact ⟨fun _ _ => ⟨k, later.2.mem mem, taken⟩, fun same => .inr (later.1 same)⟩
  · rintro e rfl
    exact claimEnds_error fun same => ends.2 (congrArg Except.error same)

lemma register_claims (dto : RegisterDto) (userAgent : Option String) :
    (AuthService.register env dto userAgent).Concludes
      (ClaimEnds (UsersService.emailHash env dto.email)) h := by
  refine claim_later (acceptable_peaceful _ _) fun _ _ =>
    claim_later (hash_peaceful _) fun _ _ => claim_earlier ?_ fun _ => startSession_peaceful _ _
  rw [UsersService.create_eq]
  exact claim_later (encryptFresh_peaceful _ _) fun _ _ =>
    claim_later (encryptFresh_peaceful _ _) fun _ _ =>
      claim_later (encryptFresh_peaceful _ _) fun _ _ => claim_create rfl

lemma changeEmail_claims (user : AuthUser) (newEmail currentPassword : String) :
    (ProfileController.changeEmail env user newEmail currentPassword).Concludes
      (ClaimEnds (UsersService.emailHash env newEmail)) h := by
  refine claim_later (verifyCurrentPassword_peaceful _ _) fun _ _ =>
    claim_earlier ?_ fun _ => toProfile_peaceful _
  rw [UsersService.updateEmail_eq]
  exact claim_later (encryptFresh_peaceful _ _) fun _ _ => claim_update rfl

theorem serve_claims {req : Request} {email : String} (claims : req.handler.claims = some email) :
    (serve env req).Concludes (ClaimEnds (UsersService.emailHash env email)) [] := by
  refine claim_later (guards_peaceful _ _) fun h user => ?_
  unfold handle
  cases hreq : req.handler with
  | register dto =>
    rw [hreq] at claims
    obtain rfl := Option.some.inj claims
    exact claim_earlier (register_claims dto _) fun _ => peaceful_ret _
  | changeEmail newEmail currentPassword =>
    rw [hreq] at claims
    obtain rfl := Option.some.inj claims
    cases user with
    | none => exact claimEnds_error nofun
    | some au => exact claim_earlier (changeEmail_claims au _ _) fun _ => peaceful_ret _
  | _ =>
    rw [hreq] at claims
    cases claims

end Ends

/-! ## What the table keeps -/

/-- The constraints of the table of users, and that ids are generated fresh. -/
structure Apart (w : World) : Prop where
  drawn : ∀ u ∈ w.users, u.id ∈ w.uuids
  ids : w.users.Pairwise fun u v => u.id ≠ v.id
  emails : w.users.Pairwise fun u v => u.emailHash ≠ v.emailHash

lemma emailTaken_false {w : World} {id : Uuid} {emailHash : String} :
    w.emailTaken id emailHash = false ↔ ∀ v ∈ w.users, v.emailHash = emailHash → v.id = id := by
  simp only [World.emailTaken, ← Bool.not_eq_true, List.any_eq_true, not_exists, not_and,
    Bool.and_eq_true, decide_eq_true_eq]
  exact forall₂_congr fun v _ => ⟨fun free same => not_not.mp fun other => free other same,
    fun free other same => other (free same)⟩

lemma emailTaken_true {w : World} {id : Uuid} {emailHash : String}
    (held : w.emailTaken id emailHash = true) :
    ∃ v ∈ w.users, v.id ≠ id ∧ v.emailHash = emailHash := by
  simpa [World.emailTaken] using held

section Table
variable {env : Env} {ch : Choice} {op : Op} {r : op.Res} {w w' : World} {emailHash : String}
  {id : Uuid}

/-- Every call keeps the constraints. -/
lemma Apart.exec (apart : Apart w) (answered : exec env ch op w = some (r, w')) : Apart w' := by
  have drawn : ∀ u ∈ w'.users, u.id ∈ w'.uuids := by
    intro u hu
    rcases exec_userIds answered hu with ⟨v, hv, same⟩ | ⟨_, new⟩
    · exact same ▸ (exec_spends answered).uuids (apart.drawn v hv)
    · exact new
  cases exec_users answered with
  | kept rows =>
    refine ⟨drawn, ?_, ?_⟩ <;> rw [rows]
    · exact apart.ids
    · exact apart.emails
  | inserted d rows unused free =>
    have new : ∀ v ∈ w.users, v.id ≠ ch.uuid := fun v hv same =>
      unused (same ▸ apart.drawn v hv)
    refine ⟨drawn, ?_, ?_⟩ <;> rw [rows, List.pairwise_append]
    · refine ⟨apart.ids, List.pairwise_singleton _ _, fun v hv u hu => ?_⟩
      obtain rfl := List.mem_singleton.mp hu
      exact new v hv
    · refine ⟨apart.emails, List.pairwise_singleton _ _, fun v hv u hu same => ?_⟩
      obtain rfl := List.mem_singleton.mp hu
      exact new v hv (emailTaken_false.mp free v hv same)
  | updated x c u found free rows =>
    refine ⟨drawn, ?_, ?_⟩ <;> rw [rows, List.pairwise_map]
    · refine apart.ids.imp fun differ => ?_
      split_ifs <;> exact differ
    · have both := apart.ids.and apart.emails
      refine both.imp_of_mem fun {a b} ha hb ⟨ids, emails⟩ => ?_
      split_ifs with first second second
      · exact absurd (first.trans second.symm) ids
      · rw [UserChanges.apply_emailHash]
        cases written : c.emailHash with
        | none => exact emails
        | some e => exact fun same => second (emailTaken_false.mp (free e written) b hb same.symm)
      · rw [UserChanges.apply_emailHash]
        cases written : c.emailHash with
        | none => exact emails
        | some e => exact fun same => first (emailTaken_false.mp (free e written) a ha same)
      · exact emails
  | deleted x u found rows =>
    refine ⟨drawn, ?_, ?_⟩ <;> rw [rows]
    · exact apart.ids.filter _
    · exact apart.emails.filter _

/-- Whoever takes an email had it alone, if anyone had it, and has it then. -/
lemma exec_takes (answered : exec env ch op w = some (r, w'))
    (taken : takes emailHash ⟨op, r⟩ = some id) :
    (∀ v ∈ w.users, v.emailHash = emailHash → v.id = id) ∧
      ∃ u ∈ w'.users, u.id = id ∧ u.emailHash = emailHash := by
  cases exec_users answered with
  | kept rows leaves =>
    cases op with
    | userCreate d => cases r with
      | ok u => exact leaves.elim
      | error e => cases taken
    | userUpdate x c => cases r with
      | ok u => exact leaves.elim
      | error e => cases taken
    | _ => cases taken
  | inserted d rows unused free =>
    obtain ⟨rfl, same⟩ := Option.ite_none_right_eq_some.mp taken
    obtain rfl : ch.uuid = id := Option.some.inj same
    exact ⟨emailTaken_false.mp free, d.row ch.uuid ch.now, by simp [rows], rfl, rfl⟩
  | updated x c u found free rows =>
    obtain ⟨written, same⟩ := Option.ite_none_right_eq_some.mp taken
    obtain rfl := Option.some.inj same
    have target : u.id = x := by simpa using List.find?_some found
    refine ⟨emailTaken_false.mp (free _ written), c.apply ch.now u, ?_, target, ?_⟩
    · rw [rows]
      exact List.mem_map.mpr ⟨u, List.mem_of_find?_eq_some found, if_pos target⟩
    · rw [UserChanges.apply_emailHash, written]
      rfl
  | deleted => cases taken

/-- The database refuses an email that another row has. -/
lemma exec_emailRefused (answered : exec env ch op w = some (r, w'))
    (refused : EmailRefused emailHash ⟨op, r⟩) :
    ∃ v ∈ w.users, v.emailHash = emailHash ∧ ∀ x c, op = .userUpdate x c → v.id ≠ x := by
  cases op with
  | userCreate d =>
    cases (exec_userCreate answered).2 with
    | failed => exact refused.elim
    | created => exact refused.elim
    | taken held =>
      obtain ⟨v, hv, _, same⟩ := emailTaken_true held
      exact ⟨v, hv, same.trans refused, nofun⟩
  | userUpdate x c =>
    cases exec_userUpdate answered with
    | failed => exact refused.elim
    | missing => exact refused.elim
    | updated => exact refused.elim
    | taken _ u found e written held =>
      obtain ⟨v, hv, other, same⟩ := emailTaken_true held
      have asked : c.emailHash = some emailHash := refused
      refine ⟨v, hv, same.trans (Option.some.inj (written.symm.trans asked)), ?_⟩
      rintro _ _ ⟨⟩
      exact other
  | _ => exact refused.elim

/-- An email that an account has was its before, or this call has given it. -/
lemma exec_emails (answered : exec env ch op w = some (r, w')) {u' : User} (hu : u' ∈ w'.users) :
    (∃ u ∈ w.users, u.id = u'.id ∧ u.emailHash = u'.emailHash) ∨
      takes u'.emailHash ⟨op, r⟩ = some u'.id := by
  cases exec_rowSource answered hu with
  | stored old => exact .inl ⟨u', old, rfl, rfl⟩
  | inserted d unused => exact .inr (if_pos rfl)
  | @updated c u v old =>
    rw [UserChanges.apply_emailHash]
    cases written : c.emailHash with
    | none => exact .inl ⟨v, old, rfl, rfl⟩
    | some e => exact .inr (if_pos written)

end Table

/-- The request has given the account the email, which nobody else had then. -/
def TakesEmail (env : Env) (reqs : Nat → Request) (c₀ c : Server) (i : Nat) (id : Uuid)
    (emailHash : String) : Prop :=
  (∃ email, (reqs i).handler.claims = some email ∧ emailHash = UsersService.emailHash env email) ∧
    (reqs i).handler.subject (own i c.history) = some id ∧
    ∃ c₁ c₂ ch, Leads (exec env) c₀ c₁ ∧ fire (exec env) i ch c₁ = some c₂ ∧
      Leads (exec env) c₂ c ∧ (∀ v ∈ c₁.world.users, v.emailHash = emailHash → v.id = id) ∧
      ∃ u ∈ c₂.world.users, u.id = id ∧ u.emailHash = emailHash

/-- At some moment another account had the email than the one that the request turns out to
be about, if it is about one. -/
def HadByAnother (env : Env) (reqs : Nat → Request) (c₀ c : Server) (i : Nat)
    (emailHash : String) : Prop :=
  ∃ c₁, Leads (exec env) c₀ c₁ ∧ Leads (exec env) c₁ c ∧ ∃ v ∈ c₁.world.users,
    v.emailHash = emailHash ∧ (reqs i).handler.subject (own i c.history) ≠ some v.id

section Runs
variable {env : Env} {reqs : Nat → Request} {w : World} {c c' : Server} {i : Nat} {id : Uuid}
  {emailHash : String}

lemma TakesEmail.later {c₀ : Server} (takes : TakesEmail env reqs c₀ c i id emailHash)
    (run : Leads (exec env) c c') : TakesEmail env reqs c₀ c' i id emailHash := by
  obtain ⟨claims, subject, c₁, c₂, ch, before, fired, after, rest⟩ := takes
  refine ⟨claims, ?_, c₁, c₂, ch, before, fired, leads_trans after run, rest⟩
  obtain ⟨new, suffix⟩ := leads_own_suffix run i
  rw [← suffix]
  exact Handler.subject_append subject new

/-- A move that takes an email takes it for the user of the request. -/
lemma fire_takes (reach : Reachable env reqs w c) {ch : Choice} {k : OwnCall}
    (fired : fire (exec env) i ch c = some c') (history : c'.history = ⟨i, ch, k⟩ :: c.history)
    (taken : takes emailHash k = some id) :
    TakesEmail env reqs (boot env reqs w) c' i id emailHash := by
  have acquires := leads_poolObeys reach (fun j => serve_acquires env (reqs j)) i
  have acts := leads_poolObeys reach (fun j => serve_actsFor env (reqs j)) i
  have moved := fired
  obtain ⟨op, next, r, w', head, answered, rfl⟩ := fire_eq_some.mp fired
  cases (List.cons.inj history).1
  rw [head] at acquires acts
  refine ⟨?_, ?_, c, _, ch, reach, moved, leads_refl _, exec_takes answered taken⟩
  · cases op with
    | userCreate d =>
      cases r with
      | error e => cases taken
      | ok u =>
        obtain ⟨email, claims, written⟩ := acquires.1
        exact ⟨email, claims, (Option.ite_none_right_eq_some.mp taken).1.symm.trans written⟩
    | userUpdate x changes =>
      cases r with
      | error e => cases taken
      | ok u => exact acquires.1 _ (Option.ite_none_right_eq_some.mp taken).1
    | _ => cases taken
  · rw [own_cons_self]
    cases op with
    | userCreate d =>
      cases r with
      | error e => cases taken
      | ok u =>
        obtain ⟨nobody, dto, isRegister⟩ := acts.1
        rw [Handler.subject_cons nobody, isRegister]
        exact (Option.ite_none_right_eq_some.mp taken).2
    | userUpdate x changes =>
      cases r with
      | error e => cases taken
      | ok u =>
        obtain rfl := Option.some.inj (Option.ite_none_right_eq_some.mp taken).2
        exact Handler.subject_append acts.1 [_]
    | _ => cases taken

lemma own_takes (reach : Reachable env reqs w c) {k : OwnCall} (mem : k ∈ own i c.history)
    (taken : takes emailHash k = some id) :
    TakesEmail env reqs (boot env reqs w) c i id emailHash := by
  obtain ⟨ch, made⟩ := mem_own.mp mem
  obtain ⟨c₁, c₂, before, fired, history, after⟩ := leads_split_new reach made List.not_mem_nil
  exact (fire_takes before fired history taken).later after

lemma reachable_emails (apart : Apart w) (reach : Reachable env reqs w c) :
    Apart c.world ∧ ∀ u ∈ c.world.users,
      (∃ v ∈ w.users, v.id = u.id ∧ v.emailHash = u.emailHash) ∨
        ∃ i, TakesEmail env reqs (boot env reqs w) c i u.id u.emailHash := by
  refine leads_induction (P := fun c => Apart c.world ∧ ∀ u ∈ c.world.users,
    (∃ v ∈ w.users, v.id = u.id ∧ v.emailHash = u.emailHash) ∨
      ∃ i, TakesEmail env reqs (boot env reqs w) c i u.id u.emailHash) reach
    ⟨apart, fun u hu => .inl ⟨u, hu, rfl, rfl⟩⟩ ?_
  rintro c c' i ch reached ⟨apart, sources⟩ fired
  have moved := leads_of_fire fired
  have here := fired
  obtain ⟨op, next, r, w', head, answered, rfl⟩ := fire_eq_some.mp fired
  refine ⟨apart.exec answered, fun u' hu => ?_⟩
  rcases exec_emails answered hu with ⟨u, stored, id, email⟩ | taken
  · rcases sources u stored with ⟨v, hv, first⟩ | ⟨j, takes⟩
    · exact .inl ⟨v, hv, first.1.trans id, first.2.trans email⟩
    · exact .inr ⟨j, id ▸ email ▸ takes.later moved⟩
  · exact .inr ⟨i, fire_takes reached here rfl taken⟩

/-- The subject of a registration is the account that it creates, whose id is new. -/
lemma registered_fresh {c₁ : Server} {dto : RegisterDto} (run : Leads (exec env) c₁ c)
    (isRegister : (reqs i).handler = .register dto)
    (before : (reqs i).handler.subject (own i c₁.history) = none)
    (settled : (reqs i).handler.subject (own i c.history) = some id) : id ∉ c₁.world.uuids := by
  obtain ⟨k, mem, named⟩ := List.exists_of_findSome?_eq_some settled
  obtain ⟨ch, made⟩ := mem_own.mp (List.mem_reverse.mp mem)
  have missing : (⟨i, ch, k⟩ : ServerEvent) ∉ c₁.history := by
    intro old
    have unnamed := List.findSome?_eq_none_iff.mp before k
      (List.mem_reverse.mpr (mem_own.mpr ⟨ch, old⟩))
    rw [named] at unnamed
    cases unnamed
  obtain ⟨c₂, c₃, here, fired, history, _⟩ := leads_split_new run made missing
  obtain ⟨op, next, r, w', head, answered, rfl⟩ := fire_eq_some.mp fired
  cases (List.cons.inj history).1
  rw [isRegister] at named
  cases op with
  | userCreate d =>
    cases r with
    | error e => cases named
    | ok u =>
      have drawn : drawnUuid ⟨.userCreate d, .ok u⟩ = some id := named
      exact fun old => (exec_drawnUuid answered drawn).1 (leads_uuids here old)
  | _ => cases named

lemma own_emailRefused (apart : Apart w) (reach : Reachable env reqs w c) {k : OwnCall}
    (mem : k ∈ own i c.history) (refused : EmailRefused emailHash k) :
    HadByAnother env reqs (boot env reqs w) c i emailHash := by
  obtain ⟨ch, made⟩ := mem_own.mp mem
  obtain ⟨c₁, c₂, before, fired, history, after⟩ := leads_split_new reach made List.not_mem_nil
  have acts := leads_poolObeys before (fun j => serve_actsFor env (reqs j)) i
  have later := leads_trans (leads_of_fire fired) after
  obtain ⟨op, next, r, w', head, answered, rfl⟩ := fire_eq_some.mp fired
  cases (List.cons.inj history).1
  rw [head] at acts
  obtain ⟨v, hv, same, other⟩ := exec_emailRefused answered refused
  refine ⟨c₁, before, later, v, hv, same, ?_⟩
  cases op with
  | userCreate d =>
    obtain ⟨nobody, dto, isRegister⟩ := acts.1
    exact fun settled => registered_fresh later isRegister nobody settled
      ((reachable_emails apart before).1.drawn v hv)
  | userUpdate x changes =>
    obtain ⟨new, calls⟩ := leads_own_suffix later i
    have settled := Handler.subject_append acts.1 new
    rw [calls] at settled
    rw [settled]
    exact fun own => other x changes rfl (Option.some.inj own).symm
  | _ => exact refused.elim

end Runs

/-- An email belongs to one account at a time, which had it at first or got it by a request
of its own that asked for it when nobody else had it. A registration or a change of email
succeeds only by getting its email so, and reports a conflict only if meanwhile another
account had it. -/
theorem emails_owned (env : Env) (reqs : Nat → Request) (w : World) (apart : Apart w)
    (c : Server) (reach : Reachable env reqs w c) :
    Apart c.world ∧
    (∀ u ∈ c.world.users, (∃ v ∈ w.users, v.id = u.id ∧ v.emailHash = u.emailHash) ∨
      ∃ i, TakesEmail env reqs (boot env reqs w) c i u.id u.emailHash) ∧
    (∀ i email, (reqs i).handler.claims = some email →
      (∀ answer, (c.pool i).outcome = some (.ok answer) → ∃ id,
        TakesEmail env reqs (boot env reqs w) c i id (UsersService.emailHash env email)) ∧
      ((c.pool i).outcome = some (.error UsersService.emailConflict) →
        HadByAnother env reqs (boot env reqs w) c i (UsersService.emailHash env email))) := by
  obtain ⟨kept, sources⟩ := reachable_emails apart reach
  refine ⟨kept, sources, fun i email claims => ?_⟩
  have ends : ∀ j, (serve env (reqs j)).Concludes (fun h out => ∀ email,
      (reqs j).handler.claims = some email →
        ClaimEnds (UsersService.emailHash env email) h out) [] := by
    intro j
    cases asks : (reqs j).handler.claims with
    | none =>
      refine (concludes_uses (uses_true _)).mono fun _ _ _ => ?_
      rintro email ⟨⟩
    | some email =>
      refine (serve_claims asks).mono fun _ _ ends => ?_
      rintro email ⟨⟩
      exact ends
  refine ⟨fun answer ended => ?_, fun ended => ?_⟩
  · obtain ⟨k, mem, id, taken⟩ := (leads_concludes ends reach ended email claims).1 answer rfl
    exact ⟨id, own_takes reach mem taken⟩
  · rcases (leads_concludes ends reach ended email claims).2 rfl with ⟨k, mem, refused⟩ | failed
    · exact own_emailRefused apart reach mem refused
    · cases derivationError_eq reach failed

namespace Plain

/-- Every request registers the same newcomer. -/
def newcomers (_ : Nat) : Request where
  handler := .register
    { firstName := "Eva", lastName := "Sol", email := "eva@valle.mx", password := "parra y roble" }

/-- A registration up to the insertion of its account. -/
def registers (i now : Nat) (salt : UInt8) : List (Nat × Choice) :=
  [(i, { now, bytes := List.replicate 16 salt }), (i, { now }),
    (i, { now, bytes := List.replicate 12 1 }), (i, { now, bytes := List.replicate 12 2 }),
    (i, { now, bytes := List.replicate 12 3 }), (i, { now, uuid := now + 10 })]

lemma world_apart : Apart world where
  drawn := by simp [world, user]
  ids := List.pairwise_singleton _ _
  emails := List.pairwise_singleton _ _

end Plain

theorem emails_owned_registered :
    ∃ c, Reachable Plain.env Plain.newcomers Plain.world c ∧ Apart c.world ∧
      HadByAnother Plain.env Plain.newcomers
        (boot Plain.env Plain.newcomers Plain.world) c 1
        (UsersService.emailHash Plain.env "eva@valle.mx") := by
  have shown : ∃ c, Reachable Plain.env Plain.newcomers Plain.world c ∧
      (c.pool 1).outcome = some (.error UsersService.emailConflict) :=
    play_reaches (Plain.registers 0 1 1 ++ Plain.registers 1 2 2) (by decide +kernel)
  obtain ⟨c, reach, refused⟩ := shown
  have owned := emails_owned Plain.env Plain.newcomers Plain.world Plain.world_apart c reach
  exact ⟨c, reach, owned.1, (owned.2.2 1 "eva@valle.mx" rfl).2 refused⟩

end BajaValle
