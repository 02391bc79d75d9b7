import BajaValle.ReuseDetection

/-!
# Requests that a query fails

A refresh and a password change make two writes each, with nothing around them
that would undo the first. A query that fails before the second write leaves
both tables as they were; one that fails at it leaves the first write done.
-/

namespace BajaValle

open CallPrograms Prog SessionsService

def SameTables (w w' : World) : Prop := w'.users = w.users ∧ w'.sessions = w.sessions

/-- The write of the request that comes after another one. -/
def SecondWrite (req : Request) : Op → Prop
  | .sessionCreate _ => ∃ token, req.handler = .refresh token
  | .sessionUpdateMany _ _ => ∃ newPassword currentPassword,
    req.handler = .changePassword newPassword currentPassword
  | _ => False

/-- The session of the token, live before, has been revoked, and nothing else
has changed. -/
def Consumes (env : Env) (token : String) (w w' : World) : Prop :=
  w'.users = w.users ∧ ∃ s ∈ w.sessions, s.tokenHash = hashToken env token ∧ s.revokedAt = none ∧
    ∃ now, w'.sessions = revokeRows (unrevokedSession s.id) now w.sessions

/-- A hash of the new password has been stored in the row that the request read,
and nothing else has changed. -/
def StoresHash (newPassword : String) (h : List OwnCall) (w w' : World) : Prop :=
  w'.sessions = w.sessions ∧ ∃ u salt bytes now,
    (⟨.userFindById u.id, .ok (some u)⟩ : OwnCall) ∈ h ∧
    (⟨.argon2 newPassword salt PasswordService.PARAMS, .ok bytes⟩ : OwnCall) ∈ h ∧
    w'.users = w.users.map fun v => if v.id = u.id then
      { v with passwordHash := PasswordService.phc PasswordService.PARAMS salt bytes,
               updatedAt := now } else v

/-- What the first write of the request has done. -/
def HalfDone (env : Env) (req : Request) (h : List OwnCall) (w w' : World) : Prop :=
  match req.handler with
  | .refresh token => Consumes env token w w'
  | .changePassword newPassword _ => StoresHash newPassword h w w'
  | _ => False

/-- A rotation of the token claims its session at this time. -/
def Rotatable (env : Env) (w : World) (token : String) (now : Nat) : Prop :=
  ∃ s ∈ w.sessions, s.tokenHash = hashToken env token ∧ s.revokedAt = none ∧ now < s.expiresAt

/-- The error of a query ends the program at once. Both tables are then as they
were, unless the query was the second write. -/
def FailsAt (env : Env) (req : Request) (w : World) {α : Type} (h : List OwnCall)
    (out : Except Failure α) (w' : World) : Prop :=
  ∀ e, out = .error (.prisma e) → ∃ last earlier, h = last :: earlier ∧ queryError last = some e ∧
    (¬ SecondWrite req last.op → SameTables w w') ∧
    (SecondWrite req last.op → HalfDone env req h w w')

/-- A program that fails only so, from a point of a request that began in `w`. -/
abbrev Failing (env : Env) (req : Request) (w : World) {α : Type} (h : List OwnCall) (w₁ : World)
    (p : Task α) : Prop :=
  Serial env True (fun _ _ => True) (FailsAt env req w) h w₁ p

instance (env : Env) (w : World) (token : String) (now : Nat) :
    Decidable (Rotatable env w token now) := inferInstanceAs (Decidable (∃ _ ∈ _, _))

section Parts
variable {env : Env} {req : Request} {w w₁ : World} {α β : Type} {h : List OwnCall}

lemma ReadOnly.notSecondWrite {op : Op} (reads : ReadOnly op) : ¬ SecondWrite req op := by
  cases op <;> first | exact reads.elim | exact id

/-- An error that is not of a query. -/
lemma failing_throw {e : Failure} (other : ∀ e', e ≠ .prisma e') :
    Failing env req w h w₁ (.throw e : Task α) :=
  ⟨trivial, fun e' same => absurd (Except.error.inj same) (other e')⟩

lemma failing_ret (a : α) : Failing env req w h w₁ (.ret a) := ⟨trivial, nofun⟩

/-- The query that the request made last has failed. -/
lemma failing_last {op : Op} {r : op.Res} {e : PrismaError} (last : queryError ⟨op, r⟩ = some e)
    (spared : ¬ SecondWrite req op → SameTables w w₁)
    (half : SecondWrite req op → HalfDone env req (⟨op, r⟩ :: h) w w₁) :
    Failing env req w (⟨op, r⟩ :: h) w₁ (.throw (.prisma e) : Task α) := by
  refine ⟨trivial, fun e' same => ?_⟩
  cases same
  exact ⟨_, h, rfl, last, spared, half⟩

lemma failing_bind {M : List OwnCall → α → World → Prop} {p : Task α} {f : α → Task β}
    (first : Serial env True (fun _ _ => True) (fun h out w' => FailsAt env req w h out w' ∧
      ∀ a, out = .ok a → M h a w') h w₁ p)
    (rest : ∀ h' a w', M h' a w' → Failing env req w h' w' (f a)) :
    Failing env req w h w₁ (p >>= f) := by
  refine meets_bind (first.mono fun h' out w' _ ends => ⟨?_, ?_⟩)
  · rintro a rfl
    exact rest h' a w' (ends.2 a rfl)
  · rintro e rfl e' same
    cases same
    exact ends.1 e' rfl

/-- A part after which nothing can fail. -/
lemma failing_then {p : Task α} {f : α → Task β} (first : Failing env req w h w₁ p)
    (rest : ∀ h' a w', Failing env req w h' w' (f a)) : Failing env req w h w₁ (p >>= f) :=
  failing_bind (M := fun _ _ _ => True)
    (first.mono fun _ _ _ _ fails => ⟨fails, fun _ _ => trivial⟩)
    fun h' a w' _ => rest h' a w'

end Parts

section Refresh
variable {env : Env} {req : Request} {w w₁ w₂ : World} {h : List OwnCall} {token : String}
  {userAgent : Option String} {s : Session} {u : User}

lemma sessionInvalid_ne (e : PrismaError) : sessionInvalid ≠ .prisma e := nofun

lemma revokeFamily_failing {familyId : Uuid} (isRefresh : req.handler = .refresh token)
    (same : SameTables w w₁) :
    Failing env req w h w₁
      (revokeFamily familyId >>= fun _ => .throw sessionInvalid : Task Unit) := by
  refine ⟨trivial, fun ch r w₂ _ answered => ?_⟩
  cases r with
  | error e =>
    obtain ⟨users, sessions⟩ := exec_failed answered trivial
    refine failing_last rfl (fun _ => ⟨users.trans same.1, sessions.trans same.2⟩) ?_
    rintro ⟨_, _, changes⟩
    rw [isRefresh] at changes
    cases changes
  | ok n => exact failing_throw sessionInvalid_ne

lemma reuse_failing (isRefresh : req.handler = .refresh token) (same : SameTables w w₁) :
    Failing env req w h w₁ (reuse s) := by
  rw [reuse_eq]
  refine ⟨trivial, fun ch r w₂ _ answered => ?_⟩
  obtain ⟨sessions, users⟩ := exec_readOnly answered trivial
  have same₂ : SameTables w w₂ := ⟨users.trans same.1, sessions.trans same.2⟩
  rcases r with e | used
  · exact failing_last rfl (fun _ => same₂) fun second => second.elim
  dsimp only
  split
  · exact revokeFamily_failing isRefresh same₂
  refine ⟨trivial, fun ch' now w₃ _ answered' => ?_⟩
  obtain ⟨sessions', users'⟩ := exec_readOnly answered' trivial
  dsimp only
  split
  · exact failing_throw sessionInvalid_ne
  · exact revokeFamily_failing isRefresh ⟨users'.trans same₂.1, sessions'.trans same₂.2⟩

/-- The claim revokes the one session of the token, or nothing. -/
lemma claim_rows {ch : Choice} {n : Nat} (consistent : Consistent w₁) (stored : s ∈ w₁.sessions)
    (answered : exec env ch (revocation (unrevokedSession s.id)) w₁ = some (.ok n, w₂)) :
    (n = 1 → s.revokedAt = none ∧
      w₂.sessions = revokeRows (unrevokedSession s.id) ch.now w₁.sessions) ∧
    (n ≠ 1 → w₂.sessions = w₁.sessions) := by
  have rows : w₂.sessions = revokeRows (unrevokedSession s.id) ch.now w₁.sessions :=
    exec_updateMany answered
  constructor
  · rintro rfl
    obtain ⟨t, ht, held⟩ := exec_updateMany_one answered
    obtain ⟨id, live⟩ := unrevokedSession_holds.mp held
    obtain rfl := consistent.eq_of_id ht stored id
    exact ⟨live, rows⟩
  · intro lost
    have dead : s.revokedAt ≠ none := by
      intro live
      refine lost ?_
      cases exec_sessions answered with
      | kept _ leaves => exact leaves.elim
      | updated => exact consistent.claim_counts stored live _
    rw [rows]
    exact revokeRows_misses (consistent.claim_misses stored dead _)

lemma createIn_failing {familyId : Uuid} (isRefresh : req.handler = .refresh token)
    (consumed : Consumes env token w w₁) :
    Failing env req w h w₁ (createIn env s.userId userAgent familyId) := by
  refine ⟨trivial, fun ch bytes w₂ _ drew => ⟨trivial, fun ch' r w₃ _ inserted => ?_⟩⟩
  rcases r with e | next
  · refine failing_last rfl (fun first => absurd ⟨token, isRefresh⟩ first) fun _ => ?_
    obtain ⟨sessions, users⟩ := exec_readOnly drew trivial
    obtain ⟨users', sessions'⟩ := exec_failed inserted trivial
    obtain ⟨kept, t, ht, digest, live, now, rows⟩ := consumed
    simp only [HalfDone, isRefresh]
    exact ⟨users'.trans (users.trans kept), t, ht, digest, live, now,
      sessions'.trans (sessions.trans rows)⟩
  · exact failing_ret _

lemma afterClaim_failing {ch : Choice} {r : Except PrismaError Nat}
    (isRefresh : req.handler = .refresh token) (consistent : Consistent w₁)
    (same : SameTables w w₁) (stored : s ∈ w₁.sessions) (digest : s.tokenHash = hashToken env token)
    (claimed : exec env ch (revocation (unrevokedSession s.id)) w₁ = some (r, w₂)) :
    Failing env req w (⟨revocation (unrevokedSession s.id), r⟩ :: h) w₂
      (afterClaim env userAgent s u r) := by
  have users : w₂.users = w.users := by
    cases exec_users claimed with
    | kept rows => exact rows.trans same.1
  rcases r with e | n
  · refine failing_last rfl (fun _ => ⟨users, (exec_failed claimed trivial).2.trans same.2⟩) ?_
    rintro ⟨_, _, changes⟩
    rw [isRefresh] at changes
    cases changes
  obtain ⟨wins, loses⟩ := claim_rows consistent stored claimed
  by_cases won : n = 1
  · obtain ⟨live, rows⟩ := wins won
    have inserts : afterClaim env userAgent s u (.ok n) =
        createIn env s.userId userAgent s.familyId >>= fun made =>
          .ret { session := made.1, refreshToken := made.2, user := u } := by
      subst won
      rfl
    rw [inserts]
    refine failing_then (createIn_failing isRefresh ⟨users, s, same.2 ▸ stored, digest, live,
      ch.now, ?_⟩) fun _ _ _ => failing_ret _
    rw [rows, same.2]
  · have lost : afterClaim env userAgent s u (.ok n) =
        (reuse s >>= fun _ => Prog.throw sessionInvalid) := if_pos won
    rw [lost]
    exact failing_then (reuse_failing isRefresh ⟨users, (loses won).trans same.2⟩)
      fun _ _ _ => failing_throw sessionInvalid_ne

lemma rotate_failing (isRefresh : req.handler = .refresh token) (consistent : Consistent w) :
    Failing env req w [] w (rotate env token userAgent) := by
  rw [rotate_eq]
  refine ⟨trivial, fun ch r w₁ _ read => ?_⟩
  obtain ⟨sessions₁, users₁⟩ := exec_readOnly read trivial
  have same₁ : SameTables w w₁ := ⟨users₁, sessions₁⟩
  rcases r with e | _ | ⟨s, u⟩
  · exact failing_last rfl (fun _ => same₁) fun second => second.elim
  · exact failing_throw sessionInvalid_ne
  obtain ⟨stored, digest, _⟩ := exec_find_session read
  refine ⟨trivial, fun ch₂ now w₂ _ timed => ?_⟩
  obtain ⟨sessions₂, users₂⟩ := exec_readOnly timed trivial
  dsimp only
  split
  · exact failing_throw sessionInvalid_ne
  refine ⟨trivial, fun ch₃ r w₃ _ claimed => ?_⟩
  exact afterClaim_failing isRefresh ((consistent.exec read).exec timed)
    ⟨users₂.trans users₁, sessions₂.trans sessions₁⟩
    (sessions₂.trans sessions₁ ▸ stored) digest claimed

lemma refresh_failing (isRefresh : req.handler = .refresh token) (consistent : Consistent w) :
    Failing env req w [] w (serve env req) := by
  rw [serve_refresh isRefresh]
  refine failing_then (failing_then (rotate_failing isRefresh consistent) ?_)
    fun _ _ _ => failing_ret _
  exact fun h' rotated w' => ⟨trivial, fun _ _ _ _ _ => failing_ret _⟩

end Refresh

/-- A rotation of a rotatable session returns its successor, if no call fails
and the clock is looked at in time. -/
theorem rotatable_rotates {now : Nat} {out : Except Failure SessionsService.Rotated}
    (consistent : Consistent w) (collisionFree : CollisionFree env)
    (tokens : ∀ s ∈ w.sessions, ∃ bytes ∈ w.draws, bytes.length = TOKEN_BYTES ∧
      s.tokenHash = hashToken env (tokenText bytes))
    (rotatable : Rotatable env w token now)
    (alone : Alone env (rotate env token userAgent) w h out w₁)
    (inTime : ∀ time, (⟨.now, time⟩ : OwnCall) ∈ h → time ≤ now) :
    ∃ rotated, out = .ok rotated := by
  obtain ⟨s, hs, digest, live, unexpired⟩ := rotatable
  obtain ⟨u, found⟩ := consistent.find_token hs
  rw [digest] at found
  have rotates : Serial env False (fun _ _ => True) (fun h out _ =>
      (∀ time, (⟨.now, time⟩ : OwnCall) ∈ h → time ≤ now) → ∃ rotated, out = .ok rotated) [] w
      (rotate env token userAgent) := by
    rw [rotate_eq]
    refine ⟨trivial, fun ch r w₁ healthy read => ?_⟩
    have still₁ := (Still.refl w).exec read trivial
    obtain rfl := exec_sessionFindByTokenHash healthy read
    rw [found]
    refine ⟨trivial, fun ch₂ time w₂ healthy₂ timed => ?_⟩
    have still₂ := still₁.exec timed trivial
    dsimp only
    split
    · rename_i expired
      refine ⟨trivial, fun inTime => ?_⟩
      exact absurd unexpired
        (Nat.not_lt.mpr (Nat.le_trans expired (inTime time List.mem_cons_self)))
    refine ⟨trivial, fun ch₃ r w₃ healthy₃ claimed => ?_⟩
    obtain ⟨rfl, rows⟩ := exec_revocation healthy₃ claimed
    have one : (w₂.sessions.filter ((unrevokedSession s.id).holds ch₃.now)).length = 1 := by
      rw [still₂.sessions]
      exact consistent.claim_counts hs live _
    have inserts : afterClaim env userAgent s u (.ok (w₂.sessions.filter
        ((unrevokedSession s.id).holds ch₃.now)).length) =
        createIn env s.userId userAgent s.familyId >>= fun made =>
          .ret { session := made.1, refreshToken := made.2, user := u } := by
      rw [one]
      rfl
    rw [inserts]
    refine ⟨trivial, fun ch₄ bytes w₄ healthy₄ drew =>
      ⟨trivial, fun ch₅ r w₅ healthy₅ inserted => ?_⟩⟩
    have tag : drawnBytes ⟨.randomBytes TOKEN_BYTES, bytes⟩ = some bytes := rfl
    obtain ⟨fresh, _⟩ := exec_drawnBytes drew tag
    have length := exec_randomBytes drew
    obtain ⟨sessions₄, users₄⟩ := exec_readOnly drew trivial
    have draws₃ := (exec_spends claimed).draws
    cases exec_sessionCreate inserted with
    | failed fails => exact (healthy₅ fails).elim
    | taken t mem same =>
      rw [sessions₄, rows] at mem
      obtain ⟨t₀, stored, rfl⟩ := List.mem_map.mp mem
      obtain ⟨old, drawn, length', hash⟩ := tokens t₀ (still₂.sessions ▸ stored)
      have kept : t₀.tokenHash = hashToken env (tokenText bytes) := by
        rw [apply_ite Session.tokenHash, ite_self] at same
        exact same
      have again := collisionFree old bytes length' length
        (Base64.encode_injective base64url (hash.symm.trans kept))
      exact absurd (again ▸ draws₃ (still₂.draws drawn)) fresh
    | orphan absent =>
      obtain ⟨v, hv, owner⟩ := consistent.owners s hs
      have users₃ : w₃.users = w₂.users := by
        cases exec_users claimed with
        | kept rows => exact rows
      exact absurd owner (absent v (by rw [users₄, users₃, still₂.users]; exact hv))
    | inserted => exact ⟨trivial, fun _ => ⟨_, rfl⟩⟩
  exact (rotates.finishes alone).2 inTime

section ChangePassword
variable {env : Env} {req : Request} {w w₁ : World} {h : List OwnCall} {α : Type}
  {newPassword currentPassword : String}

/-- The same, with what a part that only reads returns. -/
abbrev FailingReads (env : Env) (req : Request) (w : World) {α : Type} (h : List OwnCall)
    (w₁ : World) (p : Task α) (M : List OwnCall → α → Prop) : Prop :=
  Serial env True (fun _ _ => True) (fun h' out w' => FailsAt env req w h' out w' ∧
    ∀ a, out = .ok a → SameTables w w' ∧ h ⊆ h' ∧ M h' a) h w₁ p

lemma SameTables.exec {ch : Choice} {op : Op} {r : op.Res} {w₂ : World} (same : SameTables w w₁)
    (answered : exec env ch op w₁ = some (r, w₂)) (reads : ReadOnly op) : SameTables w w₂ := by
  obtain ⟨sessions, users⟩ := exec_readOnly answered reads
  exact ⟨users.trans same.1, sessions.trans same.2⟩

lemma failingReads_throw {e : Failure} {M : List OwnCall → α → Prop} {h' : List OwnCall}
    (other : ∀ e', e ≠ .prisma e') :
    Serial env True (fun _ _ => True) (fun h'' out w' => FailsAt env req w h'' out w' ∧
      ∀ a, out = .ok a → SameTables w w' ∧ h ⊆ h'' ∧ M h'' a) h' w₁ (.throw e : Task α) :=
  ⟨trivial, fun e' same => absurd (Except.error.inj same) (other e'), nofun⟩

lemma failingReads_last {op : Op} {r : op.Res} {e : PrismaError} {M : List OwnCall → α → Prop}
    {h' : List OwnCall} (last : queryError ⟨op, r⟩ = some e) (same : SameTables w w₁)
    (reads : ReadOnly op) :
    Serial env True (fun _ _ => True) (fun h'' out w' => FailsAt env req w h'' out w' ∧
      ∀ a, out = .ok a → SameTables w w' ∧ h ⊆ h'' ∧ M h'' a) (⟨op, r⟩ :: h') w₁
      (.throw (.prisma e) : Task α) := by
  refine ⟨trivial, fun e' thrown => ?_, nofun⟩
  cases thrown
  exact ⟨_, h', rfl, last, fun _ => same, fun second => absurd second reads.notSecondWrite⟩

lemma failingReads_ret {M : List OwnCall → α → Prop} {h' : List OwnCall} {a : α}
    (same : SameTables w w₁) (sub : h ⊆ h') (met : M h' a) :
    Serial env True (fun _ _ => True) (fun h'' out w' => FailsAt env req w h'' out w' ∧
      ∀ a, out = .ok a → SameTables w w' ∧ h ⊆ h'' ∧ M h'' a) h' w₁ (.ret a) := by
  refine ⟨trivial, nofun, ?_⟩
  rintro _ ⟨⟩
  exact ⟨same, sub, met⟩

lemma findById_failing (same : SameTables w w₁) (id : Uuid) :
    FailingReads env req w h w₁ (UsersService.findById id) (fun h' found =>
      (⟨.userFindById id, .ok found⟩ : OwnCall) ∈ h' ∧ ∀ u, found = some u → u.id = id) := by
  refine ⟨trivial, fun ch r w₂ _ answered => ?_⟩
  have same₂ := same.exec answered trivial
  rcases r with e | found
  · exact failingReads_last rfl same₂ trivial
  · refine failingReads_ret same₂ (List.subset_cons_self _ _) ⟨List.mem_cons_self, ?_⟩
    rintro u rfl
    rcases (exec_userFindById answered).2 with ⟨_, failed⟩ | read
    · cases failed
    · simpa using List.find?_some (Except.ok.inj read).symm

lemma derive_failing (same : SameTables w w₁) (password : String) (salt : Bytes)
    (params : Argon2Params) :
    FailingReads env req w h w₁ (PasswordService.derive password salt params) (fun h' bytes =>
      (⟨.argon2 password salt params, .ok bytes⟩ : OwnCall) ∈ h') := by
  refine ⟨trivial, fun ch r w₂ _ answered => ?_⟩
  have same₂ := same.exec answered trivial
  rcases r with e | bytes
  · obtain rfl := exec_argon2_fails answered
    exact failingReads_throw nofun
  · exact failingReads_ret same₂ (List.subset_cons_self _ _) List.mem_cons_self

/-- The rule of sequences for parts that only read. -/
lemma failingReads_bind {β : Type} {p : Task α} {f : α → Task β} {M : List OwnCall → α → Prop}
    {N : List OwnCall → β → Prop} (first : FailingReads env req w h w₁ p M)
    (rest : ∀ h' a w', SameTables w w' → h ⊆ h' → M h' a →
      FailingReads env req w h' w' (f a) N) :
    FailingReads env req w h w₁ (p >>= f) N := by
  refine meets_bind (first.mono fun h' out w' _ ends => ⟨?_, ?_⟩)
  · rintro a rfl
    obtain ⟨same, sub, met⟩ := ends.2 a rfl
    refine (rest h' a w' same sub met).mono fun h'' out w'' _ ends' => ⟨ends'.1, fun b hb => ?_⟩
    obtain ⟨same', sub', met'⟩ := ends'.2 b hb
    exact ⟨same', List.Subset.trans sub sub', met'⟩
  · rintro e rfl
    refine ⟨fun e' thrown => ?_, nofun⟩
    cases thrown
    exact ends.1 e' rfl

lemma verify_failing (same : SameTables w w₁) (storedHash password : String) :
    FailingReads env req w h w₁ (PasswordService.verify storedHash password)
      (fun _ _ => True) := by
  unfold PasswordService.verify
  split
  · exact failingReads_ret same (List.Subset.refl _) trivial
  · exact failingReads_bind (derive_failing same _ _ _) fun h' _ w' same' _ _ =>
      failingReads_ret same' (List.Subset.refl _) trivial

lemma verifyCurrentPassword_failing (same : SameTables w w₁) (id : Uuid) :
    FailingReads env req w h w₁ (AuthService.verifyCurrentPassword id currentPassword)
      (fun h' u => u.id = id ∧ (⟨.userFindById id, .ok (some u)⟩ : OwnCall) ∈ h') := by
  refine failingReads_bind (findById_failing same id) ?_
  rintro h' (_ | u) w' same' _ ⟨mem, key⟩
  · exact failingReads_throw nofun
  · refine failingReads_bind (verify_failing same' _ _) ?_
    rintro h'' (_ | _) w'' same'' sub _
    · exact failingReads_throw nofun
    · exact failingReads_ret same'' (List.Subset.refl _) ⟨key u rfl, sub mem⟩

lemma hash_failing (same : SameTables w w₁) (password : String) :
    FailingReads env req w h w₁ (PasswordService.hash password) (fun h' hash => ∃ salt bytes,
      hash = PasswordService.phc PasswordService.PARAMS salt bytes ∧
      (⟨.argon2 password salt PasswordService.PARAMS, .ok bytes⟩ : OwnCall) ∈ h') := by
  refine failingReads_bind (M := fun _ _ => True) ?_ fun h' salt w' same' _ _ =>
    failingReads_bind (derive_failing same' password salt _) fun h'' bytes w'' same'' _ mem =>
      failingReads_ret same'' (List.Subset.refl _) ⟨salt, bytes, rfl, mem⟩
  exact ⟨trivial, fun ch salt w' _ answered =>
    failingReads_ret (same.exec answered trivial) (List.subset_cons_self _ _) trivial⟩

lemma findActive_failing (same : SameTables w w₁) (id : Uuid) :
    FailingReads env req w h w₁ (findActive id) (fun _ _ => True) := by
  refine ⟨trivial, fun ch r w₂ _ answered => ?_⟩
  have same₂ := same.exec answered trivial
  rcases r with e | found
  · exact failingReads_last rfl same₂ trivial
  · exact failingReads_ret same₂ (List.subset_cons_self _ _) trivial

lemma authenticate_failing (same : SameTables w w₁) (token : String) :
    FailingReads env req w h w₁ (JwtAuthGuard.authenticate token) (fun _ _ => True) := by
  refine failingReads_bind (M := fun _ _ => True) ?_ ?_
  · exact ⟨trivial, fun ch payload w₂ _ verified =>
      failingReads_ret (same.exec verified trivial) (List.subset_cons_self _ _) trivial⟩
  rintro h₂ (_ | payload) w₂ same₂ _ _
  · exact failingReads_throw sessionInvalid_ne
  refine failingReads_bind (findActive_failing same₂ payload.sid) ?_
  rintro h₃ (_ | ⟨session, user⟩) w₃ same₃ _ _
  · exact failingReads_throw sessionInvalid_ne
  · dsimp only
    split
    · exact failingReads_throw sessionInvalid_ne
    · exact failingReads_ret same₃ (List.Subset.refl _) trivial

lemma guards_failing (same : SameTables w w₁) (route : Route) (authorization : Option String) :
    FailingReads env req w h w₁ (guards route authorization) (fun _ _ => True) := by
  have found : FailingReads env req w h w₁ (JwtAuthGuard.canActivate route authorization)
      (fun _ _ => True) := by
    unfold JwtAuthGuard.canActivate
    split
    · exact failingReads_ret same (List.Subset.refl _) trivial
    · split
      · split
        · exact failingReads_ret same (List.Subset.refl _) trivial
        · exact failingReads_throw nofun
      · split
        · exact failingReads_throw sessionInvalid_ne
        · exact failingReads_bind (authenticate_failing same _) fun _ _ _ same' _ _ =>
            failingReads_ret same' (List.Subset.refl _) trivial
  refine failingReads_bind found fun h' user w' same' _ _ => ?_
  unfold RolesGuard.canActivate
  split
  · exact failingReads_ret same' (List.Subset.refl _) trivial
  · split
    · exact failingReads_throw nofun
    · split
      · exact failingReads_ret same' (List.Subset.refl _) trivial
      · exact failingReads_throw nofun

lemma toProfile_error {u : User} {e : Failure}
    (failed : UsersService.toProfile env u = .error e) : e = .decryptionError := by
  obtain ⟨_, _, undeciphered⟩ := UsersService.toProfile_eq_error failed
  exact EncryptionService.decrypt_error undeciphered

/-- The checks of a new password are not queries. -/
lemma checkNewPassword_ne {stored : User} {e : Failure}
    (refused : ProfileController.checkNewPassword env stored newPassword currentPassword =
      .error e) (e' : PrismaError) : e ≠ .prisma e' := by
  unfold ProfileController.checkNewPassword at refused
  split at refused
  · rw [← Except.error.inj refused]
    exact nofun
  · split at refused
    · rename_i e₁ failed
      rw [← Except.error.inj refused, toProfile_error failed]
      exact nofun
    · unfold PasswordService.assertAcceptable at refused
      dsimp only at refused
      split_ifs at refused <;> (rw [← Except.error.inj refused]; exact nofun)

lemma changePassword_failing (changes : req.handler = .changePassword newPassword currentPassword)
    (same : SameTables w w₁) (user : AuthUser) :
    Failing env req w h w₁
      (ProfileController.changePassword env user newPassword currentPassword) := by
  refine failing_bind (verifyCurrentPassword_failing same user.id) ?_
  rintro h₂ u w₂ ⟨same₂, _, key, read⟩
  cases checked : ProfileController.checkNewPassword env u newPassword currentPassword with
  | error e => exact failing_throw (checkNewPassword_ne checked)
  | ok _ =>
    simp only [ofExcept_ok, ret_bind]
    refine failing_bind (hash_failing same₂ newPassword) ?_
    rintro h₃ hash w₃ ⟨same₃, sub, salt, bytes, rfl, derived⟩
    refine ⟨trivial, fun ch r w₄ _ stored => ?_⟩
    rcases r with e | u'
    · obtain ⟨users, sessions⟩ := exec_failed stored trivial
      exact failing_last rfl (fun _ => ⟨users.trans same₃.1, sessions.trans same₃.2⟩)
        fun second => second.elim
    have sessions₄ : w₄.sessions = w.sessions :=
      (exec_sparesSessions stored trivial).trans same₃.2
    refine ⟨trivial, fun ch' r w₅ _ closed => ?_⟩
    rcases r with e | n
    · refine failing_last rfl (fun first => absurd ⟨_, _, changes⟩ first) fun _ => ?_
      obtain ⟨users, sessions⟩ := exec_failed closed trivial
      simp only [HalfDone, changes]
      refine ⟨sessions.trans sessions₄, u, salt, bytes, ch.now, ?_, ?_, ?_⟩
      · rw [key]
        exact List.mem_cons_of_mem _ (List.mem_cons_of_mem _ (sub read))
      · exact List.mem_cons_of_mem _ (List.mem_cons_of_mem _ derived)
      · cases exec_users stored with
        | kept _ leaves => exact leaves.elim
        | updated _ _ _ _ _ rows =>
          rw [users, rows, same₃.1, key]
          rfl
    · exact failing_ret _

lemma changePassword_request_failing
    (changes : req.handler = .changePassword newPassword currentPassword) :
    Failing env req w [] w (serve env req) := by
  refine failing_bind (guards_failing ⟨rfl, rfl⟩ _ _) ?_
  rintro h₁ user w₁ ⟨same, _⟩
  unfold handle
  rw [changes]
  cases user with
  | none => exact failing_throw nofun
  | some user =>
    exact failing_then (changePassword_failing changes same user) fun _ _ _ => failing_ret _

end ChangePassword

/-- A refresh or a password change that a query fails ends at that query. Both
tables are then as they were, and the token can still be rotated, unless the
query was the second write: then exactly the first one is done. -/
theorem failed_request_leaves_tables (env : Env) (req : Request) (w w' : World)
    (h : List OwnCall) (e : PrismaError) (consistent : Consistent w)
    (kind : (∃ token, req.handler = .refresh token) ∨
      ∃ newPassword currentPassword, req.handler = .changePassword newPassword currentPassword)
    (finishes : Finishes (exec env) (Healthy True) (serve env req) w h (.error (.prisma e)) w') :
    ∃ last earlier, h = last :: earlier ∧ queryError last = some e ∧
      (¬ SecondWrite req last.op → SameTables w w') ∧
      (SecondWrite req last.op → HalfDone env req h w w') ∧
      ∀ token now, req.handler = .refresh token → Rotatable env w token now →
        (Rotatable env w' token now ↔ ¬ SecondWrite req last.op) := by
  have failing : Failing env req w [] w (serve env req) := by
    rcases kind with ⟨token, isRefresh⟩ | ⟨newPassword, currentPassword, changes⟩
    · exact refresh_failing isRefresh consistent
    · exact changePassword_request_failing changes
  obtain ⟨last, earlier, calls, error, spared, half⟩ := (failing.finishes finishes).2 e rfl
  refine ⟨last, earlier, calls, error, spared, half, fun token now isRefresh rotatable => ?_⟩
  constructor
  · intro after second
    have consumed := half second
    simp only [HalfDone, isRefresh] at consumed
    obtain ⟨_, s, hs, digest, live, claimed, rows⟩ := consumed
    obtain ⟨t, ht, digest', live', _⟩ := after
    rw [rows] at ht
    obtain ⟨stored, missed⟩ := live_of_mem_revokeRows ht live'
    obtain rfl := consistent.eq_of_token stored hs (digest'.trans digest.symm)
    rw [unrevokedSession_holds.mpr ⟨rfl, live⟩] at missed
    cases missed
  · intro first
    obtain ⟨s, hs, rest⟩ := rotatable
    exact ⟨s, (spared first).2 ▸ hs, rest⟩

namespace Plain

/-- A refresh whose insertion fails. -/
def failedRefresh : List Choice :=
  [{ now := 6 }, { now := 7 }, { now := 8 }, { now := 9, bytes := bytes 2 },
    { now := 10, uuid := 7, fails := true }]

def otherSession : Session :=
  { firstSession with id := 8, familyId := 8, tokenHash := hashToken env (tokenText (bytes 8)) }

/-- One account with two live sessions. -/
def twoSessions : World :=
  { world with sessions := [firstSession, otherSession], uuids := [1, 5, 6, 8] }

def newPassword : Request where
  handler := .changePassword "otraclave22" "secret"
  authorization := some (bearer 6)

/-- A password change whose revocation fails. -/
def failedChange : List Choice :=
  [{ now := 6 }, { now := 6 }, { now := 7 }, { now := 7 },
    { now := 8, bytes := List.replicate 16 3 }, { now := 8 }, { now := 9 },
    { now := 10, fails := true }]

end Plain

theorem failed_request_leaves_tables_refresh :
    ∃ h w', Finishes (exec Plain.env) (Healthy True) (serve Plain.env (Plain.refresh 1))
        Plain.liveWorld h (.error (.prisma .unavailable)) w' ∧
      ∃ last earlier, h = last :: earlier ∧ queryError last = some .unavailable ∧
        (SecondWrite (Plain.refresh 1) last.op →
          Consumes Plain.env (tokenText (Plain.bytes 1)) Plain.liveWorld w') := by
  have shown : ∃ h out w', Finishes (exec Plain.env) (Healthy True)
      (serve Plain.env (Plain.refresh 1)) Plain.liveWorld h out w' ∧
      decide (out = .error (.prisma .unavailable)) = true :=
    finishes_of_feed Plain.failedRefresh (fun _ _ _ => trivial) (by decide +kernel)
  obtain ⟨h, out, w', finishes, ended⟩ := shown
  obtain rfl := of_decide_eq_true ended
  obtain ⟨last, earlier, calls, error, _, half, _⟩ := failed_request_leaves_tables Plain.env
    (Plain.refresh 1) Plain.liveWorld w' h .unavailable Plain.liveWorld_consistent (.inl ⟨_, rfl⟩)
    finishes
  exact ⟨h, w', finishes, last, earlier, calls, error, half⟩

/-- A refresh that fails at the insertion has consumed its token, and a password
change that fails at the revocation has stored the new hash beside a live session. -/
theorem failed_second_write_keeps_first :
    (∃ h w', Finishes (exec Plain.env) (Healthy True) (serve Plain.env (Plain.refresh 1))
        Plain.liveWorld h (.error (.prisma .unavailable)) w' ∧
      Rotatable Plain.env Plain.liveWorld (tokenText (Plain.bytes 1)) 10 ∧
      w'.sessions ≠ Plain.liveWorld.sessions ∧
      ¬ Rotatable Plain.env w' (tokenText (Plain.bytes 1)) 10) ∧
    ∃ h w', Finishes (exec Plain.env) (Healthy True) (serve Plain.env Plain.newPassword)
        Plain.twoSessions h (.error (.prisma .unavailable)) w' ∧
      w'.users.map User.passwordHash ≠ Plain.twoSessions.users.map User.passwordHash ∧
      Plain.otherSession ∈ w'.sessions ∧ Plain.otherSession.revokedAt = none := by
  constructor
  · have shown : ∃ h out w', Finishes (exec Plain.env) (Healthy True)
        (serve Plain.env (Plain.refresh 1)) Plain.liveWorld h out w' ∧
        decide (out = .error (.prisma .unavailable) ∧
          Rotatable Plain.env Plain.liveWorld (tokenText (Plain.bytes 1)) 10 ∧
          w'.sessions ≠ Plain.liveWorld.sessions ∧
          ¬ Rotatable Plain.env w' (tokenText (Plain.bytes 1)) 10) = true :=
      finishes_of_feed Plain.failedRefresh (fun _ _ _ => trivial) (by decide +kernel)
    obtain ⟨h, out, w', finishes, seen⟩ := shown
    obtain ⟨rfl, rest⟩ := of_decide_eq_true seen
    exact ⟨h, w', finishes, rest⟩
  · have shown : ∃ h out w', Finishes (exec Plain.env) (Healthy True)
        (serve Plain.env Plain.newPassword) Plain.twoSessions h out w' ∧
        decide (out = .error (.prisma .unavailable) ∧
          w'.users.map User.passwordHash ≠ Plain.twoSessions.users.map User.passwordHash ∧
          Plain.otherSession ∈ w'.sessions ∧ Plain.otherSession.revokedAt = none) = true :=
      finishes_of_feed Plain.failedChange (fun _ _ _ => trivial) (by decide +kernel)
    obtain ⟨h, out, w', finishes, seen⟩ := shown
    obtain ⟨rfl, rest⟩ := of_decide_eq_true seen
    exact ⟨h, w', finishes, rest⟩

end BajaValle
