import BajaValle.DummyHash
import BajaValle.Lib.BoundedCalls
import Mathlib.Data.Fintype.BigOperators

/-!
# Every request ends

No request makes more than thirteen calls, the longest being a login that rehashes.
The only calls that wait are those for the hash kept for unknown users: the request that
started its derivation settles it before it waits itself, also when the derivation fails.
-/

namespace BajaValle

open CallPrograms Prog Interleaving

/-- The calls of the longest request. -/
def MAX_CALLS : Nat := 13

/-- A part that makes at most `n` calls, none of which has to do with the kept hash. -/
def Short {α : Type} (n : Nat) (p : Task α) : Prop := p.AtMost n ∧ p.Uses LeavesDummy

section Parts
variable {env : Env} {α β : Type} {n m : Nat}

lemma Short.mono {p : Task α} (short : Short n p) (le : n ≤ m) : Short m p :=
  ⟨short.1.mono le, short.2⟩

lemma short_ret (a : α) (n : Nat) : Short n (.ret a : Task α) := ⟨atMost_ret a n, uses_ret a⟩

lemma short_throw (e : Failure) (n : Nat) : Short n (.throw e : Task α) :=
  ⟨atMost_throw e n, uses_throw e⟩

lemma short_ofExcept (x : Except Failure α) (n : Nat) : Short n (Prog.ofExcept x : Task α) :=
  ⟨atMost_ofExcept x n, ofExcept_uses x⟩

lemma short_perform {op : Op} (leaves : LeavesDummy op) : Short 1 (perform op) :=
  ⟨atMost_perform op, perform_uses leaves⟩

lemma short_bind {p : Task α} {f : α → Task β} (first : Short n p) (rest : ∀ a, Short m (f a)) :
    Short (n + m) (p >>= f) :=
  ⟨atMost_bind first.1 fun a => (rest a).1, uses_bind first.2 fun a => (rest a).2⟩

lemma short_map {p : Task α} (f : α → β) (short : Short n p) : Short n (f <$> p : Task β) :=
  short_bind (m := 0) short fun _ => short_ret _ 0

lemma short_await {run : Task (Except PrismaError α)} (short : Short n run) :
    Short n (await run) := by
  refine short_bind (m := 0) short fun r => ?_
  cases r with
  | ok a => exact short_ret a 0
  | error e => exact short_throw _ 0

lemma short_conflictOnDuplicate {run : Task (Except PrismaError User)} (short : Short n run) :
    Short n (UsersService.conflictOnDuplicate run) := by
  refine short_bind (m := 0) short fun r => ?_
  cases r with
  | ok user => exact short_ret user 0
  | error e => cases e <;> exact short_throw _ 0

lemma short_discard {p : Task α} (short : Short n p) :
    Short n (do let _ ← p; return () : Task Unit) :=
  short_bind (m := 0) short fun _ => short_ret _ 0

lemma guards_short (route : Route) (authorization : Option String) :
    Short 2 (guards route authorization) := by
  have authenticates : ∀ token, Short 2 (JwtAuthGuard.authenticate token) := by
    intro token
    refine short_bind (m := 1) (short_perform trivial) fun payload => ?_
    cases payload with
    | none => exact short_throw _ 1
    | some payload =>
      refine short_bind (m := 0) (short_await (short_perform trivial)) fun found => ?_
      rcases found with _ | ⟨session, user⟩
      · exact short_throw _ 0
      · dsimp only
        split
        · exact short_throw _ 0
        · exact short_ret _ 0
  have admits : Short 2 (JwtAuthGuard.canActivate route authorization) := by
    unfold JwtAuthGuard.canActivate
    split
    · exact short_ret _ 2
    · split
      · split
        · exact short_ret _ 2
        · exact short_throw _ 2
      · split
        · exact short_throw _ 2
        · exact short_bind (m := 0) (authenticates _) fun _ => short_ret _ 0
  exact short_bind (m := 0) admits fun _ => short_bind (m := 0) (short_ofExcept _ 0) fun _ =>
    short_ret _ 0

lemma derive_short (password : String) (salt : Bytes) (params : Argon2Params) :
    Short 1 (PasswordService.derive password salt params) :=
  short_bind (m := 0) (short_perform trivial) fun r => short_ofExcept r 0

lemma hash_short (password : String) : Short 2 (PasswordService.hash password) :=
  short_bind (m := 1) (short_perform trivial) fun _ =>
    short_bind (m := 0) (derive_short _ _ _) fun _ => short_ret _ 0

lemma verify_short (storedHash password : String) :
    Short 1 (PasswordService.verify storedHash password) := by
  unfold PasswordService.verify
  split
  · exact short_ret _ 1
  · exact short_bind (m := 0) (derive_short _ _ _) fun _ => short_ret _ 0

lemma encryptFresh_short (plaintext context : String) :
    Short 1 (EncryptionService.encryptFresh env plaintext context) :=
  short_bind (m := 0) (short_perform trivial) fun _ => short_ofExcept _ 0

lemma encryptEmail_short (email : String) : Short 1 (UsersService.encryptEmail env email) :=
  short_bind (m := 0) (encryptFresh_short _ _) fun _ => short_ret _ 0

lemma encryptName_short (name : Option String) (context : String) :
    Short 1 (UsersService.encryptName env name context) := by
  cases name with
  | none => exact short_ret _ 1
  | some name =>
    dsimp only [UsersService.encryptName]
    split
    · exact short_ret _ 1
    · exact short_bind (m := 0) (encryptFresh_short _ _) fun _ => short_ret _ 0

lemma create_short (email firstName lastName passwordHash : String) (role : Option Role) :
    Short 4 (UsersService.create env email firstName lastName passwordHash role) :=
  short_bind (m := 3) (encryptEmail_short _) fun _ =>
    short_bind (m := 2) (encryptFresh_short _ _) fun _ =>
      short_bind (m := 1) (encryptFresh_short _ _) fun _ =>
        short_conflictOnDuplicate (short_perform trivial)

lemma userUpdate_short (id : Uuid) (changes : UserChanges) :
    Short 1 (await (perform (.userUpdate id changes))) := short_await (short_perform trivial)

lemma createIn_short (userId : Uuid) (userAgent : Option String) (familyId : Uuid) :
    Short 2 (SessionsService.createIn env userId userAgent familyId) :=
  short_bind (m := 1) (short_perform trivial) fun _ =>
    short_bind (m := 0) (short_await (short_perform trivial)) fun _ => short_ret _ 0

lemma issueTokens_short (userId : Uuid) (role : Role) (sessionId : Uuid) (refreshToken : String) :
    Short 1 (AuthService.issueTokens env userId role sessionId refreshToken) :=
  short_bind (m := 0) (short_perform trivial) fun _ => short_ret _ 0

lemma startSession_short (user : User) (userAgent : Option String) :
    Short 4 (AuthService.startSession env user userAgent) :=
  short_bind (m := 1) (short_bind (m := 2) (short_perform trivial) fun _ => createIn_short _ _ _)
    fun _ => short_bind (m := 0) (issueTokens_short _ _ _ _) fun _ =>
      short_bind (m := 0) (short_ofExcept _ 0) fun _ => short_ret _ 0

lemma register_short (dto : RegisterDto) (userAgent : Option String) :
    Short 10 (AuthService.register env dto userAgent) :=
  short_bind (n := 0) (m := 10) (short_ofExcept _ 0) fun _ =>
    short_bind (m := 8) (hash_short _) fun _ =>
      short_bind (m := 4) (create_short _ _ _ _ _) fun _ => startSession_short _ _

lemma acceptLogin_short (user : User) (password : String) (userAgent : Option String) :
    Short 8 (AuthService.acceptLogin env user password userAgent) := by
  have clears : Short 1 (AuthService.clearFailures user) := by
    unfold AuthService.clearFailures
    split
    · exact short_discard (userUpdate_short _ _)
    · exact short_ret _ 1
  have rehashes : Short 3 (AuthService.rehash user password) := by
    unfold AuthService.rehash
    split
    · exact short_bind (m := 1) (hash_short _) fun _ => short_discard (userUpdate_short _ _)
    · exact short_ret _ 3
  exact short_bind (m := 7) clears fun _ => short_bind (m := 4) rehashes fun _ =>
    startSession_short _ _

lemma registerFailedLogin_short (id : Uuid) : Short 2 (AuthService.registerFailedLogin id) := by
  refine short_bind (m := 1) (userUpdate_short _ _) fun user => ?_
  split
  · exact short_discard (userUpdate_short _ _)
  · exact short_ret _ 1

lemma isLocked_short (user : User) : Short 1 (AuthService.isLocked user) := by
  unfold AuthService.isLocked
  split
  · exact short_ret _ 1
  · exact short_bind (m := 0) (short_perform trivial) fun _ => short_ret _ 0

lemma revocation_short (filter : SessionWhere) :
    Short 1 (do let _ ← await (perform (SessionsService.revocation filter)); return () :
      Task Unit) := short_discard (short_await (short_perform trivial))

lemma rotate_short (refreshToken : String) (userAgent : Option String) :
    Short 6 (SessionsService.rotate env refreshToken userAgent) := by
  have closes : ∀ s : Session, Short 1 (SessionsService.revokeFamily s.familyId >>= fun _ =>
      Prog.throw SessionsService.sessionInvalid : Task Unit) := fun s =>
    short_bind (m := 0) (revocation_short _) fun _ => short_throw _ 0
  have reuses : ∀ s : Session, Short 3 (SessionsService.reuse s) := by
    intro s
    refine short_bind (m := 2) (short_await (short_perform trivial)) fun used => ?_
    split
    · refine short_bind (m := 1) (short_perform trivial) fun now => ?_
      split
      · exact short_throw _ 1
      · exact closes s
    · exact (closes s).mono (by omega)
  refine short_bind (m := 5) (short_await (short_perform trivial)) fun found => ?_
  rcases found with _ | ⟨session, user⟩
  · exact short_throw _ 5
  refine short_bind (m := 4) (short_perform trivial) fun now => ?_
  split
  · exact short_throw _ 4
  refine short_bind (m := 3) (short_await (short_perform trivial)) fun claimed => ?_
  split
  · exact short_bind (m := 0) (reuses session) fun _ => short_throw _ 0
  · exact (short_bind (m := 0) (createIn_short _ _ _) fun _ => short_ret _ 0).mono (by omega)

lemma verifyCurrentPassword_short (userId : Uuid) (password : String) :
    Short 2 (AuthService.verifyCurrentPassword userId password) := by
  refine short_bind (m := 1) (short_await (short_perform trivial)) fun found => ?_
  cases found with
  | none => exact short_throw _ 1
  | some user =>
    refine short_bind (m := 0) (verify_short _ _) fun matched => ?_
    cases matched with
    | true => exact short_ret _ 0
    | false => exact short_throw _ 0

end Parts

/-- Whoever started the derivation has settled it. -/
def Kept (h : List OwnCall) : Prop :=
  (⟨.dummyStart, true⟩ : OwnCall) ∈ h → ∃ y, (⟨.dummySettle y, ()⟩ : OwnCall) ∈ h

/-- A request waits only once it has asked for the hash, and not for itself. -/
def WaitRule (h : List OwnCall) : Op → Prop
  | .dummyAwait => Kept h ∧ ∃ b, (⟨.dummyStart, b⟩ : OwnCall) ∈ h
  | .dummySettle _ => (⟨.dummyStart, true⟩ : OwnCall) ∈ h
  | _ => True

/-- The part makes at most `n` calls, waits only when it may and leaves nothing unsettled. -/
structure Waits {α : Type} (n : Nat) (p : Task α) (h : List OwnCall) : Prop where
  bounded : p.AtMost n
  obeys : p.Obeys WaitRule (fun _ _ => True) h
  ends : p.Concludes (fun h' _ => Kept h') h

section Rule
variable {env : Env} {α β : Type} {n m : Nat} {h h' : List OwnCall}

lemma kept_nil : Kept [] := fun started => absurd started List.not_mem_nil

lemma LeavesDummy.waitRule {op : Op} (leaves : LeavesDummy op) : WaitRule h op := by
  cases op <;> trivial

lemma Kept.later (kept : Kept h) (ext : Extends LeavesDummy h h') : Kept h' := by
  intro started
  rcases ext.mem_or started with old | leaves
  · obtain ⟨y, settled⟩ := kept old
    exact ⟨y, ext.mem settled⟩
  · exact leaves.elim

lemma waits_short {p : Task α} (short : Short n p) (kept : Kept h) : Waits n p h where
  bounded := short.1
  obeys := (uses_obeys short.2 fun _ _ _ leaves => leaves.waitRule).mono (fun _ _ may => may)
    fun _ _ _ => trivial
  ends := (concludes_uses short.2).mono fun _ _ ext => kept.later ext

/-- A part that has nothing to do with the hash, before the rest. -/
lemma waits_bind {p : Task α} {f : α → Task β} (short : Short n p) (kept : Kept h)
    (rest : ∀ h' a, Kept h' → Waits m (f a) h') : Waits (n + m) (p >>= f) h where
  bounded := atMost_bind short.1 fun a => (rest h a kept).bounded
  obeys := obeys_uses_bind short.2 (fun _ _ _ leaves => leaves.waitRule) fun h' a ext =>
    (rest h' a (kept.later ext)).obeys
  ends := concludes_bind ((concludes_uses short.2).mono fun h' _ ext =>
    ⟨fun a _ => (rest h' a (kept.later ext)).ends, fun _ _ => kept.later ext⟩)

lemma Waits.mono {p : Task α} (waits : Waits n p h) (le : n ≤ m) : Waits m p h :=
  { waits with bounded := waits.bounded.mono le }

lemma settle_kept (y : Except Failure String) : Kept (⟨.dummySettle y, ()⟩ :: h) :=
  fun _ => ⟨y, List.mem_cons_self⟩

lemma asked_kept (kept : Kept h) : Kept (⟨.dummyStart, false⟩ :: h) := by
  intro started
  obtain ⟨y, settled⟩ := kept ((List.mem_cons.mp started).resolve_left (by simp))
  exact ⟨y, List.mem_cons_of_mem _ settled⟩

lemma startDummy_atMost : PasswordService.startDummy.AtMost 5 := by
  refine atMost_bind (n := 1) (m := 4) (atMost_perform _) fun starts => ?_
  cases starts with
  | false => exact atMost_ret () 4
  | true =>
    exact atMost_bind (n := 1) (m := 3) (atMost_perform _) fun secret =>
      atMost_bind (n := 2) (m := 1) (atMost_attempt (hash_short _).1) fun _ => atMost_perform _

lemma settling_uses (secret : Bytes) :
    (PasswordService.hash (Base64.encodePadded base64 secret)).attempt.Uses LeavesDummy :=
  uses_attempt (hash_short _).2

/-- The promise is settled before anyone is waited for. -/
lemma startDummy_obeys_wait (kept : Kept h) : PasswordService.startDummy.Obeys WaitRule
    (fun h' _ => Kept h' ∧ ∃ b, (⟨.dummyStart, b⟩ : OwnCall) ∈ h') h := by
  refine perform_bind_obeys trivial ?_
  rintro (_ | _)
  · exact ⟨asked_kept kept, false, List.mem_cons_self⟩
  refine perform_bind_obeys trivial fun secret => ?_
  refine obeys_uses_bind (settling_uses secret) (fun _ _ _ leaves => leaves.waitRule)
    fun h' settled ext => ?_
  have started : (⟨.dummyStart, true⟩ : OwnCall) ∈ h' := ext.mem (by simp)
  exact perform_obeys started fun _ => ⟨settle_kept settled, true, List.mem_cons_of_mem _ started⟩

lemma startDummy_ends (kept : Kept h) :
    PasswordService.startDummy.Concludes (fun h' _ => Kept h') h := by
  rintro (_ | _)
  · exact asked_kept kept
  intro secret
  change ((PasswordService.hash (Base64.encodePadded base64 secret)).attempt >>= fun settled =>
    perform (.dummySettle settled) : Task Unit).Concludes _ _
  refine concludes_bind ((concludes_attempt (concludes_uses (hash_short _).2)).mono ?_)
  rintro h' _ ⟨out, rfl, _⟩
  refine ⟨?_, ?_⟩
  · rintro settled _ ⟨⟩
    exact settle_kept settled
  · rintro e ⟨⟩

lemma verifyAgainstDummy_waits (password : String) (kept : Kept h) :
    Waits 7 (PasswordService.verifyAgainstDummy password) h := by
  have compares : ∀ r, Short 1 (Prog.ofExcept r >>= fun dummyHash =>
      PasswordService.verify dummyHash password >>= fun _ => .ret () : Task Unit) := fun r =>
    short_bind (n := 0) (m := 1) (short_ofExcept r 0) fun _ =>
      short_bind (m := 0) (verify_short _ _) fun _ => short_ret () 0
  have waited : ∀ (h' : List OwnCall) r, Kept h' → Kept (⟨.dummyAwait, r⟩ :: h') := by
    intro h' r kept started
    obtain ⟨y, settled⟩ := kept ((List.mem_cons.mp started).resolve_left (by simp))
    exact ⟨y, List.mem_cons_of_mem _ settled⟩
  refine ⟨?_, ?_, ?_⟩
  · exact atMost_bind (m := 2) startDummy_atMost fun _ => fun r => (compares r).1
  · refine obeys_bind (startDummy_obeys_wait kept) fun h' _ asked => ⟨asked, fun r => ?_⟩
    exact (waits_short (compares r) (waited h' r asked.1)).obeys
  · refine concludes_bind ((startDummy_ends kept).mono fun h' out kept => ⟨?_, fun _ _ => kept⟩)
    exact fun _ _ r => (waits_short (compares r) (waited h' r kept)).ends

lemma login_waits (dto : LoginDto) (userAgent : Option String) (kept : Kept h) :
    Waits 11 (AuthService.login env dto userAgent) h := by
  have refuses : ∀ {h'}, Kept h' → Waits 9 (do
      PasswordService.verifyAgainstDummy dto.password
      Prog.throw AuthService.invalidCredentials : Task AuthResponse) h' := by
    intro h' kept
    have waits := verifyAgainstDummy_waits dto.password kept
    refine ⟨?_, ?_, ?_⟩
    · exact (atMost_bind (m := 0) waits.bounded fun _ => atMost_throw _ 0).mono (by omega)
    · exact obeys_bind waits.obeys fun _ _ _ => trivial
    · exact concludes_bind (waits.ends.mono fun _ _ kept => ⟨fun _ _ => kept, fun _ _ => kept⟩)
  refine waits_bind (m := 10) (short_await (short_perform trivial)) kept fun h₁ found kept => ?_
  cases found with
  | none => exact (refuses kept).mono (by omega)
  | some user =>
    refine waits_bind (m := 9) (isLocked_short user) kept fun h₂ locked kept => ?_
    cases locked with
    | true => exact refuses kept
    | false =>
      refine waits_bind (m := 8) (verify_short _ _) kept fun h₃ matched kept => ?_
      cases matched with
      | true => exact waits_short (acceptLogin_short _ _ _) kept
      | false => exact (waits_short (short_bind (m := 0) (registerFailedLogin_short _) fun _ =>
          short_throw _ 0) kept).mono (by omega)

lemma withUser_short {user : Option AuthUser} {run : AuthUser → Task Answer}
    (each : ∀ au, Short n (run au)) : Short n (withUser user run) := by
  cases user with
  | none => exact short_throw _ n
  | some au => exact each au

theorem serve_waits (env : Env) (req : Request) : Waits MAX_CALLS (serve env req) [] := by
  refine waits_bind (m := 11) (guards_short _ _) kept_nil fun h user kept => ?_
  unfold handle
  cases req.handler with
  | register dto =>
    exact (waits_short (short_map _ (register_short _ _)) kept).mono (by omega)
  | login dto =>
    have waits : Waits 11 (AuthService.login env dto req.userAgent) h :=
      login_waits dto req.userAgent kept
    refine ⟨atMost_bind (m := 0) waits.bounded fun _ => atMost_ret _ 0, ?_, ?_⟩
    · exact obeys_bind waits.obeys fun _ _ _ => trivial
    · exact concludes_bind (waits.ends.mono fun _ _ kept => ⟨fun _ _ => kept, fun _ _ => kept⟩)
  | refresh token =>
    exact (waits_short (short_map _ (short_bind (m := 1) (rotate_short _ _) fun _ =>
      issueTokens_short _ _ _ _)) kept).mono (by omega)
  | logout =>
    exact (waits_short (withUser_short fun _ => short_map _ (revocation_short _)) kept).mono
      (by omega)
  | logoutAll =>
    exact (waits_short (withUser_short fun _ => short_map _ (revocation_short _)) kept).mono
      (by omega)
  | me => exact (waits_short (withUser_short fun _ => short_ret _ 0) kept).mono (by omega)
  | getProfile =>
    refine (waits_short (withUser_short fun au => short_map _ ?_) kept).mono (by omega : 1 ≤ 11)
    refine short_bind (m := 0) (short_await (short_perform trivial)) fun found => ?_
    cases found with
    | none => exact short_throw _ 0
    | some stored => exact short_ofExcept _ 0
  | updateProfile names =>
    refine (waits_short (withUser_short fun au => short_map _ ?_) kept).mono (by omega : 3 ≤ 11)
    unfold ProfileController.update
    split
    · exact short_throw _ 3
    · exact short_bind (m := 0) (short_bind (m := 2) (encryptName_short _ _) fun _ =>
        short_bind (m := 1) (encryptName_short _ _) fun _ => userUpdate_short _ _) fun _ =>
          short_ofExcept _ 0
  | changeEmail newEmail currentPassword =>
    refine (waits_short (withUser_short fun au => short_map _ ?_) kept).mono (by omega : 4 ≤ 11)
    exact short_bind (m := 2) (verifyCurrentPassword_short _ _) fun _ =>
      short_bind (m := 0) (short_bind (m := 1) (encryptEmail_short _) fun _ =>
        short_conflictOnDuplicate (short_perform trivial)) fun _ => short_ofExcept _ 0
  | changePassword newPassword currentPassword =>
    refine (waits_short (withUser_short fun au => short_map _ ?_) kept).mono (by omega : 6 ≤ 11)
    exact short_bind (m := 4) (verifyCurrentPassword_short _ _) fun _ =>
      short_bind (n := 0) (m := 4) (short_ofExcept _ 0) fun _ =>
        short_bind (m := 2) (hash_short _) fun _ =>
          short_bind (m := 1) (userUpdate_short _ _) fun _ => revocation_short _
  | deleteAccount currentPassword =>
    refine (waits_short (withUser_short fun au => short_map _ ?_) kept).mono (by omega : 3 ≤ 11)
    exact short_bind (m := 1) (verifyCurrentPassword_short _ _) fun _ =>
      short_discard (short_await (short_perform trivial))
  | other route => exact (waits_short (short_ret _ 0) kept).mono (by omega)

end Rule

/-- What the calls so far tell of the kept hash, whoever has made them. -/
structure Awaited (state : DummyHash) (history : List ServerEvent) : Prop where
  unset : state = .unset → ∀ i b, (⟨.dummyStart, b⟩ : OwnCall) ∉ own i history
  starter : ∀ i j, (⟨.dummyStart, true⟩ : OwnCall) ∈ own i history →
    (⟨.dummyStart, true⟩ : OwnCall) ∈ own j history → i = j
  settles : ∀ i y, (⟨.dummySettle y, ()⟩ : OwnCall) ∈ own i history →
    (⟨.dummyStart, true⟩ : OwnCall) ∈ own i history
  pending : state = .pending → ∃ i, (⟨.dummyStart, true⟩ : OwnCall) ∈ own i history ∧
    ∀ y, (⟨.dummySettle y, ()⟩ : OwnCall) ∉ own i history

section Awaited
variable {state : DummyHash} {history : List ServerEvent} {i : Nat}

/-- Whoever may wait, with nobody else at the derivation, has been answered. -/
lemma Awaited.settled (awaited : Awaited state history) (may : WaitRule (own i history) .dummyAwait)
    (mine : state = .pending → (⟨.dummyStart, true⟩ : OwnCall) ∈ own i history) :
    ∃ x, state = .settled x := by
  obtain ⟨kept, b, asked⟩ := may
  cases known : state with
  | unset => exact absurd asked (awaited.unset known i b)
  | settled x => exact ⟨x, rfl⟩
  | pending =>
    obtain ⟨y, settled⟩ := kept (mine known)
    obtain ⟨j, started, open_⟩ := awaited.pending known
    obtain rfl := awaited.starter i j (mine known) started
    exact absurd settled (open_ y)

lemma Awaited.idle (awaited : Awaited state history) (kept : Kept (own i history))
    (mine : state = .pending → (⟨.dummyStart, true⟩ : OwnCall) ∈ own i history) :
    state ≠ .pending := by
  intro pending
  obtain ⟨y, settled⟩ := kept (mine pending)
  obtain ⟨j, started, open_⟩ := awaited.pending pending
  obtain rfl := awaited.starter i j (mine pending) started
  exact open_ y settled

end Awaited

section Steps
variable {env : Env} {ch ch' : Choice} {op : Op} {r : op.Res} {w w' : World} {i : Nat}
  {history : List ServerEvent}

/-- Whoever asks for the hash leaves it under way. -/
lemma exec_dummyStart {b : Bool} (answered : exec env ch .dummyStart w = some (b, w')) :
    w'.dummyHash ≠ .unset := by
  obtain ⟨_, h⟩ := exec_eq_some.mp answered
  simp only [answer] at h
  split at h
  · obtain ⟨_, rfl⟩ := Prod.mk.inj (Option.some.inj h)
    simp
  · rename_i known
    obtain ⟨_, rfl⟩ := Prod.mk.inj (Option.some.inj h)
    exact fun unset => known unset

lemma unset_before (answered : exec env ch op w = some (r, w')) (unset : w'.dummyHash = .unset) :
    w.dummyHash = .unset := by
  have step := exec_dummyHash answered
  generalize (⟨op, r⟩ : OwnCall) = k at step
  cases step with
  | kept same => exact same ▸ unset
  | started _ pending => simp [pending] at unset
  | settled x now => simp [now] at unset
  | awaited x _ same => exact same ▸ unset

lemma started_unset (answered : exec env ch op w = some (r, w'))
    (starts : (⟨op, r⟩ : OwnCall) = ⟨.dummyStart, true⟩) : w.dummyHash = .unset := by
  have step := exec_dummyHash answered
  rw [starts] at step
  generalize known : (⟨.dummyStart, true⟩ : OwnCall) = k at step
  cases step with
  | kept _ other => exact absurd known.symm other
  | started unset => exact unset
  | settled => cases known
  | awaited => cases known

lemma Awaited.step (awaited : Awaited w.dummyHash history) (may : WaitRule (own i history) op)
    (answered : exec env ch op w = some (r, w')) :
    Awaited w'.dummyHash (⟨i, ch', ⟨op, r⟩⟩ :: history) := by
  refine ⟨?_, ?_, ?_, ?_⟩
  · intro unset j b mem
    rcases mem_own_cons.mp mem with ⟨_, same⟩ | old
    · cases same
      exact exec_dummyStart answered unset
    · exact awaited.unset (unset_before answered unset) j b old
  · intro j j' mem mem'
    rcases mem_own_cons.mp mem with ⟨rfl, same⟩ | old
    · rcases mem_own_cons.mp mem' with ⟨rfl, _⟩ | old'
      · rfl
      · exact absurd old' (awaited.unset (started_unset answered same.symm) j' true)
    · rcases mem_own_cons.mp mem' with ⟨rfl, same⟩ | old'
      · exact absurd old (awaited.unset (started_unset answered same.symm) j true)
      · exact awaited.starter j j' old old'
  · intro j y mem
    rcases mem_own_cons.mp mem with ⟨rfl, same⟩ | old
    · cases same
      exact new_call may
    · exact new_call (awaited.settles j y old)
  · intro pending
    have step := exec_dummyHash answered
    generalize (⟨op, r⟩ : OwnCall) = k at step
    cases step with
    | kept same _ settles =>
      obtain ⟨j, started, open_⟩ := awaited.pending (same ▸ pending)
      exact ⟨j, new_call started, fun y mem => open_ y (old_call mem (settles y))⟩
    | started unset =>
      refine ⟨i, by simp, fun y mem => ?_⟩
      exact awaited.unset unset i true (awaited.settles i y (old_call mem (by simp)))
    | settled x now => simp [now] at pending
    | awaited x settled same => simp [same, settled] at pending

lemma insertion_draws {β : Type} {run : World → Except PrismaError β × World}
    {res : Except PrismaError β}
    (h : insertion ch { w with clock := ch.now } run = some (res, w'))
    (tables : ∀ v, TablesOnly v (run v).2) : w'.draws = w.draws := by
  obtain ⟨_, h⟩ := insertion_eq_some.mp h
  rcases query_eq_some.mp h with ⟨_, out⟩ | ⟨_, out⟩
  · obtain ⟨_, rfl⟩ := Prod.mk.inj out
    rfl
  · have same := (tables { w with clock := ch.now, uuids := ch.uuid :: w.uuids }).draws
    rw [← out] at same
    exact same

/-- A call draws one string at most. -/
lemma exec_draws (answered : exec env ch op w = some (r, w')) :
    w'.draws.length ≤ w.draws.length + 1 := by
  obtain ⟨_, h⟩ := exec_eq_some.mp answered
  cases op with
  | now | jwtSign | jwtVerify | dummySettle =>
    simp only [answer, Option.some.injEq, Prod.mk.injEq] at h
    obtain ⟨_, rfl⟩ := h
    exact Nat.le_succ _
  | randomUUID | randomBytes =>
    simp only [answer, Option.ite_none_left_eq_some, Option.ite_none_right_eq_some,
      Option.some.injEq, Prod.mk.injEq] at h
    obtain ⟨_, _, rfl⟩ := h
    simp
  | argon2 | dummyStart =>
    simp only [answer] at h
    split at h <;> (obtain ⟨_, rfl⟩ := Prod.mk.inj (Option.some.inj h); exact Nat.le_succ _)
  | dummyAwait =>
    simp only [answer] at h
    split at h
    · obtain ⟨_, rfl⟩ := Prod.mk.inj (Option.some.inj h)
      exact Nat.le_succ _
    · cases h
  | userCreate =>
    simp only [answer] at h
    simp [insertion_draws h fun _ => userCreate_tablesOnly _ _ _]
  | sessionCreate =>
    simp only [answer] at h
    simp [insertion_draws h fun _ => sessionCreate_tablesOnly _ _ _]
  | userUpdate => simp [(query_tablesOnly h (userUpdate_tablesOnly _ _ _)).draws]
  | userDelete => simp [(query_tablesOnly h (userDelete_tablesOnly _ _)).draws]
  | sessionUpdateMany => simp [(query_tablesOnly h ⟨rfl, rfl, rfl, rfl⟩).draws]
  | userFindByEmailHash | userFindById | userFindMany =>
    simp [(query_tablesOnly h (.refl _)).draws]
  | sessionFindByTokenHash | sessionFindById | sessionFindFirst =>
    simp [(query_tablesOnly h (.refl _)).draws]

/-- There are more strings of `n` bytes than have been drawn. -/
lemma exists_fresh_bytes {n : Nat} {draws : List Bytes} (room : draws.length < 256 ^ n) :
    ∃ bytes : Bytes, bytes.length = n ∧ bytes ∉ draws := by
  by_contra exhausted
  push Not at exhausted
  let text : List.Vector (Fin 256) n → Bytes := fun v => v.toList.map UInt8.ofFin
  have injective : Function.Injective text := by
    intro v v' same
    have values : Function.Injective UInt8.ofFin := fun a b eq => congrArg UInt8.toFin eq
    exact List.Vector.toList_injective (List.map_injective_iff.mpr values same)
  have within : ∀ v ∈ (Finset.univ : Finset (List.Vector (Fin 256) n)), text v ∈ draws.toFinset :=
    fun v _ => List.mem_toFinset.mpr (exhausted _ (by simp [text]))
  have count := Finset.card_le_card_of_injOn text within injective.injOn
  rw [Finset.card_univ, card_vector, Fintype.card_fin] at count
  have := draws.toFinset_card_le
  omega

/-- Every call can be answered at any time to come and without a failure of what it
calls, except that the kept hash is waited for. -/
lemma exec_able (env : Env) (op : Op) {w : World} {now : Nat} (later : w.clock ≤ now)
    (room : w.draws.length < 256 ^ UNIQUE_BYTES)
    (settled : op = .dummyAwait → ∃ x, w.dummyHash = .settled x) :
    ∃ ch r w', ch.now = now ∧ ch.fails = false ∧ exec env ch op w = some (r, w') := by
  have able : ∀ ch : Choice, ch.now = now → ch.fails = false →
      (answer env ch op { w with clock := now }).isSome = true →
      ∃ ch r w', ch.now = now ∧ ch.fails = false ∧ exec env ch op w = some (r, w') := by
    rintro ch rfl works some
    obtain ⟨⟨r, w'⟩, answered⟩ := Option.isSome_iff_exists.mp some
    exact ⟨ch, r, w', rfl, works, exec_eq_some.mpr ⟨later, answered⟩⟩
  obtain ⟨uuid, unused⟩ : ∃ uuid, uuid ∉ w.uuids := by
    obtain ⟨uuid, unused⟩ := Infinite.exists_notMem_finset w.uuids.toFinset
    exact ⟨uuid, fun mem => unused (List.mem_toFinset.mpr mem)⟩
  cases op with
  | dummyAwait =>
    obtain ⟨x, settled⟩ := settled rfl
    exact able { now } rfl rfl (by simp [answer, settled])
  | randomBytes n =>
    by_cases short : n < UNIQUE_BYTES
    · exact able { now, bytes := List.replicate n 0 } rfl rfl (by simp [answer, short])
    · have larger : 256 ^ UNIQUE_BYTES ≤ 256 ^ n := Nat.pow_le_pow_right (by omega) (by omega)
      obtain ⟨bytes, length, new⟩ := exists_fresh_bytes (Nat.lt_of_lt_of_le room larger)
      exact able { now, bytes } rfl rfl (by simp [answer, length, new])
  | userCreate | sessionCreate | randomUUID =>
    exact able { now, uuid } rfl rfl (by simp [answer, insertion, query, unused])
  | argon2 | dummyStart =>
    refine able { now } rfl rfl ?_
    simp only [answer]
    split <;> rfl
  | _ => exact able { now } rfl rfl (by simp [answer, query])

end Steps

/-! ## A part run alone -/

/-- The calls of the only program there is. -/
def lone (h : List OwnCall) : List ServerEvent := h.map fun k => ⟨0, { now := 0 }, k⟩

section Alone
variable {env : Env} {α : Type} {n : Nat} {h : List OwnCall} {w w' : World} {p : Task α}

@[simp] lemma own_lone (h : List OwnCall) : own 0 (lone h) = h := by
  induction h with
  | nil => rfl
  | cons k h ih => rw [lone, List.map_cons, own_cons_self, ← lone, ih]

/-- Only the program itself can have started the derivation. -/
lemma Awaited.lone_starts {state : DummyHash} (awaited : Awaited state (lone h))
    (pending : state = .pending) : (⟨.dummyStart, true⟩ : OwnCall) ∈ own 0 (lone h) := by
  obtain ⟨j, started, _⟩ := awaited.pending pending
  obtain ⟨_, mem⟩ := mem_own.mp started
  obtain ⟨k, hk, same⟩ := List.mem_map.mp mem
  obtain ⟨-, -, rfl⟩ := Event.mk.inj same
  rwa [own_lone]

lemma awaited_lone_nil {state : DummyHash} (idle : state ≠ .pending) : Awaited state (lone []) :=
  ⟨fun _ _ _ => List.not_mem_nil, fun _ _ mem => absurd mem List.not_mem_nil,
    fun _ _ mem => absurd mem List.not_mem_nil, fun pending => absurd pending idle⟩

variable (env) in
/-- A part that waits by its rule can be run to its end at any time to come. -/
theorem Waits.finishes {now : Nat} (waits : Waits n p h)
    (awaited : Awaited w.dummyHash (lone h)) (later : w.clock ≤ now)
    (room : w.draws.length + n ≤ 256 ^ UNIQUE_BYTES) :
    ∃ p' h' w', Runs (exec env) (Healthy False) p h w p' h' w' ∧ p'.outcome ≠ none ∧
      (w'.clock = now ∨ (p' = p ∧ w' = w)) ∧
      ∀ t, (⟨.now, t⟩ : OwnCall) ∈ h' → (⟨.now, t⟩ : OwnCall) ∈ h ∨ t = now := by
  induction p generalizing n h w with
  | ret a =>
    exact ⟨_, h, w, .stop _ _ _, Option.some_ne_none _, .inr ⟨rfl, rfl⟩, fun _ => .inl⟩
  | throw e =>
    exact ⟨_, h, w, .stop _ _ _, Option.some_ne_none _, .inr ⟨rfl, rfl⟩, fun _ => .inl⟩
  | call op next ih =>
    cases n with
    | zero => exact waits.bounded.elim
    | succ n =>
      have may : WaitRule (own 0 (lone h)) op := by
        rw [own_lone]
        exact waits.obeys.1
      obtain ⟨ch, r, w₁, rfl, works, answered⟩ := exec_able env op later (by omega) (by
        rintro rfl
        exact awaited.settled may awaited.lone_starts)
      have clock := (exec_spends answered).clock
      have drawn := exec_draws answered
      obtain ⟨p', h', w', run, ended, ends, reads⟩ := ih r
        ⟨waits.bounded r, waits.obeys.2 r, waits.ends r⟩ (awaited.step may answered)
        (Nat.le_of_eq clock) (by omega)
      refine ⟨p', h', w', .call (fun fails => ?_) answered run, ended, .inl ?_, fun t mem => ?_⟩
      · rw [works] at fails
        cases fails
      · rcases ends with same | ⟨_, rfl⟩
        · exact same
        · exact clock
      · rcases reads t mem with here | same
        · rcases List.mem_cons.mp here with called | old
          · cases called
            exact .inr ((exec_now answered).2.symm.trans clock)
          · exact .inl old
        · exact .inr same

/-- A part that waits by its rule leaves nobody waiting. -/
lemma Waits.leaves_idle {out : Except Failure α} (waits : Waits n p [])
    (idle : w.dummyHash ≠ .pending) (run : Alone env p w h out w') : w'.dummyHash ≠ .pending := by
  have follows : Serial env False (fun h' w' => Awaited w'.dummyHash (lone h'))
      (fun _ _ _ => True) [] w p := by
    refine (meets_of_obeys waits.obeys (awaited_lone_nil idle) ?_).mono fun _ _ _ _ _ => trivial
    rintro h₁ w₁ ch op r w₂ may _ answered awaited
    exact awaited.step (i := 0) (by rwa [own_lone]) answered
  obtain ⟨⟨awaited, -⟩, -, kept⟩ := (follows.and (Concludes.meets waits.ends)).finishes run
  exact awaited.idle (i := 0) (by rwa [own_lone]) awaited.lone_starts

end Alone

section Runs
variable {env : Env} {reqs : Nat → Request} {w : World} {c : Server} {i : Nat}

lemma serve_waitRule (env : Env) (reqs : Nat → Request) (w : World) :
    PoolObeys (fun _ => WaitRule) (fun _ _ _ => True) (boot env reqs w) :=
  fun i => (serve_waits env (reqs i)).obeys

lemma reachable_awaited (idle : w.dummyHash ≠ .pending) (reach : Reachable env reqs w c) :
    Awaited c.world.dummyHash c.history := by
  refine leads_world_invariant (I := fun w history => Awaited w.dummyHash history) reach
    (serve_waitRule env reqs w) ⟨?_, ?_, ?_, fun pending => absurd pending idle⟩ ?_
  · exact fun _ _ _ => List.not_mem_nil
  · exact fun _ _ mem => absurd mem List.not_mem_nil
  · exact fun _ _ mem => absurd mem List.not_mem_nil
  · exact fun c i ch op r w' _ awaited may answered => awaited.step may answered

/-- The request has begun to derive the kept hash. -/
def StartedHash (c : Server) (i : Nat) : Prop :=
  (⟨.dummyStart, true⟩ : OwnCall) ∈ own i c.history

/-- The request has settled the promise of the kept hash, with a hash or an error. -/
def SettledHash (c : Server) (i : Nat) : Prop :=
  ∃ y, (⟨.dummySettle y, ()⟩ : OwnCall) ∈ own i c.history

/-- The next call of the request waits for the kept hash. -/
def WaitsForHash (c : Server) (i : Nat) : Prop := ∃ next, c.pool i = .call .dummyAwait next

lemma ended_kept (reach : Reachable env reqs w c) (ended : (c.pool i).outcome ≠ none) :
    Kept (own i c.history) := by
  obtain ⟨out, closed⟩ := Option.ne_none_iff_exists'.mp ended
  have ends : ∀ j, (serve env (reqs j)).Concludes (fun h _ => Kept h) [] :=
    fun j => (serve_waits env (reqs j)).ends
  exact leads_concludes ends reach closed

/-- Whoever has begun the derivation has settled it by the time it waits itself or ends. -/
lemma starter_settled (reach : Reachable env reqs w c) (started : StartedHash c i)
    (late : (c.pool i).outcome ≠ none ∨ WaitsForHash c i) : SettledHash c i := by
  rcases late with ended | ⟨next, waits⟩
  · exact ended_kept reach ended started
  · have may := leads_poolObeys reach (serve_waitRule env reqs w) i
    rw [waits] at may
    exact may.1.1 started

/-- The request waits for nobody, and there are `n` strings left for its draws and some more. -/
structure Ready (env : Env) (reqs : Nat → Request) (w : World) (i spare n : Nat) (c : Server) :
    Prop where
  reach : Reachable env reqs w c
  room : c.world.draws.length + n + spare ≤ 256 ^ UNIQUE_BYTES
  starts : c.world.dummyHash = .pending → StartedHash c i

lemma Ready.moves (idle : w.dummyHash ≠ .pending) {spare n : Nat} {op : Op}
    {next : op.Res → Task Answer} (ready : Ready env reqs w i spare (n + 1) c)
    (head : c.pool i = .call op next) :
    ∃ ch c', fire (exec env) i ch c = some c' ∧ Ready env reqs w i spare n c' := by
  have awaited := reachable_awaited idle ready.reach
  have may := leads_poolObeys ready.reach (serve_waitRule env reqs w) i
  rw [head] at may
  have room := ready.room
  obtain ⟨ch, r, w', _, _, answered⟩ := exec_able env op (Nat.le_refl c.world.clock) (by omega) (by
    rintro rfl
    exact awaited.settled may.1 ready.starts)
  have fired := fire_eq_some.mpr ⟨op, next, r, w', head, answered, rfl⟩
  refine ⟨ch, _, fired, leads_trans ready.reach (leads_of_fire fired), ?_, ?_⟩
  · have := exec_draws answered
    dsimp only
    omega
  · intro pending
    have step := exec_dummyHash answered
    generalize (⟨op, r⟩ : OwnCall) = k at step fired
    cases step with
    | kept same => exact new_call (ready.starts (same ▸ pending))
    | started => simp [StartedHash]
    | settled x now => simp [now] at pending
    | awaited x settled same => simp [same, settled] at pending

/-- Whoever waits for nobody can be run to its end, after which nobody waits. -/
lemma Ready.finishes (idle : w.dummyHash ≠ .pending) {spare : Nat}
    (ready : Ready env reqs w i spare MAX_CALLS c) :
    ∃ c', Leads (exec env) c c' ∧ Reachable env reqs w c' ∧
      c'.world.draws.length + spare ≤ 256 ^ UNIQUE_BYTES ∧ c'.world.dummyHash ≠ .pending ∧
      (c'.pool i).outcome ≠ none ∧ ∀ j, j ≠ i → own j c'.history = own j c.history := by
  obtain ⟨m, total, bounded⟩ :=
    leads_atMost (fun j => (serve_waits env (reqs j)).bounded) ready.reach i
  obtain ⟨c', n, run, ready', _, ended, others⟩ :=
    leads_end (R := Ready env reqs w i spare) (fun n c op next => Ready.moves idle)
      (bounded.mono (by omega)) ready
  refine ⟨c', run, ready'.reach, ?_, ?_, ended, others⟩
  · have := ready'.room
    omega
  · exact (reachable_awaited idle ready'.reach).idle (ended_kept ready'.reach ended) ready'.starts

/-- Every request can be run to its end, once the one that derives the kept hash is through. -/
lemma request_ends (idle : w.dummyHash ≠ .pending) (reach : Reachable env reqs w c)
    (room : c.world.draws.length + 2 * MAX_CALLS ≤ 256 ^ UNIQUE_BYTES) (i : Nat) :
    ∃ c', Leads (exec env) c c' ∧ (c'.pool i).outcome ≠ none ∧
      ∀ j, j ≠ i → own j c'.history = own j c.history ∨ StartedHash c j := by
  by_cases pending : c.world.dummyHash = .pending
  · obtain ⟨j, started, _⟩ := (reachable_awaited idle reach).pending pending
    have ready : Ready env reqs w j MAX_CALLS MAX_CALLS c := ⟨reach, by omega, fun _ => started⟩
    obtain ⟨c₁, first, reach₁, room₁, free, _, others₁⟩ := ready.finishes idle
    have ready₁ : Ready env reqs w i 0 MAX_CALLS c₁ :=
      ⟨reach₁, by omega, fun waits => absurd waits free⟩
    obtain ⟨c', second, _, _, _, ended, others⟩ := ready₁.finishes idle
    refine ⟨c', leads_trans first second, ended, fun k other => ?_⟩
    by_cases same : k = j
    · exact .inr (same ▸ started)
    · exact .inl ((others k other).trans (others₁ k same))
  · have ready : Ready env reqs w i MAX_CALLS MAX_CALLS c :=
      ⟨reach, by omega, fun waits => absurd waits pending⟩
    obtain ⟨c', run, _, _, _, ended, others⟩ := ready.finishes idle
    exact ⟨c', run, ended, fun k other => .inl (others k other)⟩

end Runs

/-- No request makes more than thirteen calls. Whoever begins to derive the kept hash settles
it before it waits itself or ends, and while the hash is pending it is still under way; so from
every state every request can be run to its end by its own calls, once that request is through,
as long as there are random strings left to draw. -/
theorem every_request_ends (env : Env) (reqs : Nat → Request) (w : World)
    (idle : w.dummyHash ≠ .pending) (c : Server) (reach : Reachable env reqs w c) :
    (∀ i, (own i c.history).length ≤ MAX_CALLS) ∧
    (∀ i, StartedHash c i → (c.pool i).outcome ≠ none ∨ WaitsForHash c i → SettledHash c i) ∧
    (c.world.dummyHash = .pending → ∃ i, StartedHash c i ∧ ¬ SettledHash c i ∧
      (c.pool i).outcome = none ∧ ¬ WaitsForHash c i) ∧
    (c.world.draws.length + 2 * MAX_CALLS ≤ 256 ^ UNIQUE_BYTES → ∀ i, ∃ c',
      Leads (exec env) c c' ∧ (c'.pool i).outcome ≠ none ∧
        ∀ j, j ≠ i → own j c'.history = own j c.history ∨ StartedHash c j) := by
  refine ⟨fun i => ?_, fun i started late => starter_settled reach started late, fun pending => ?_,
    fun room i => ?_⟩
  · obtain ⟨m, total, _⟩ := leads_atMost (fun j => (serve_waits env (reqs j)).bounded) reach i
    omega
  · obtain ⟨i, started, unsettled⟩ := (reachable_awaited idle reach).pending pending
    have unsettled : ¬ SettledHash c i := fun ⟨y, settled⟩ => unsettled y settled
    refine ⟨i, started, unsettled, not_not.mp fun ended => ?_, fun waits => ?_⟩
    · exact unsettled (starter_settled reach started (.inl ended))
    · exact unsettled (starter_settled reach started (.inr waits))
  · exact request_ends idle reach room i

namespace Plain

/-- Every request logs in as somebody unknown. -/
def unknowns (_ : Nat) : Request where
  handler := .login { email := "eva@valle.mx", password := "secret" }

end Plain

theorem every_request_ends_waiting :
    ∃ c, Reachable Plain.env Plain.unknowns Plain.world c ∧
      exec Plain.env { now := 5 } .dummyAwait c.world = none ∧
      ∃ c', Leads (exec Plain.env) c c' ∧ (c'.pool 1).outcome ≠ none := by
  have shown : ∃ c, Reachable Plain.env Plain.unknowns Plain.world c ∧
      c.world.draws = [] ∧ (exec Plain.env { now := 5 } .dummyAwait c.world).isNone = true :=
    play_reaches [(0, { now := 1 }), (0, { now := 2 }), (1, { now := 3 }), (1, { now := 4 })]
      (by decide +kernel)
  obtain ⟨c, reach, undrawn, waits⟩ := shown
  have ends := every_request_ends Plain.env Plain.unknowns Plain.world (by simp [Plain.world])
    c reach
  obtain ⟨c', run, ended, _⟩ := ends.2.2.2 (by rw [undrawn]; decide) 1
  exact ⟨c, reach, Option.isNone_iff_eq_none.mp waits, c', run, ended⟩

end BajaValle
