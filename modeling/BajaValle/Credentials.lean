import BajaValle.Requests
import BajaValle.Steps

/-!
# Requests that compare a password

A login and a password change read one row, compare their password with the
hash in it, and write only after that. `HashMay` is what such a request may do
to hashes and sessions, given the row that it read.
-/

namespace BajaValle

open CallPrograms Prog SessionsService

/-- The password that the request compares with a stored hash. -/
def Handler.password : Handler → Option String
  | .login dto => some dto.password
  | .changePassword _ currentPassword => some currentPassword
  | _ => none

/-- `verify` would accept the password. -/
def PasswordService.Matches (env : Env) (storedHash password : String) : Prop :=
  ∃ parsed, parse storedHash = some parsed ∧
    env.argon2id password parsed.salt parsed.params = some parsed.hash

variable (env : Env)

/-- The row whose hash the request compares with its password. -/
def Reads (req : Request) (h : List OwnCall) (v : User) : Prop :=
  match req.handler with
  | .login dto =>
    (⟨.userFindByEmailHash (UsersService.emailHash env dto.email), .ok (some v)⟩ : OwnCall) ∈ h
  | .changePassword _ _ => ∃ user, Passed req h (some user) ∧
    (⟨.userFindById user.id, .ok (some v)⟩ : OwnCall) ∈ h
  | _ => False

/-- The comparison of the password with the hash of the row succeeded. -/
def Compared (req : Request) (h : List OwnCall) (v : User) : Prop :=
  ∃ password parsed, req.handler.password = some password ∧
    PasswordService.parse v.passwordHash = some parsed ∧
    (⟨.argon2 password parsed.salt parsed.params, .ok parsed.hash⟩ : OwnCall) ∈ h

/-- Apart from the comparison, nothing refuses the request: the row is not
locked at the lock check of a login, the new password of a change is fine. -/
def Unrefused (req : Request) (h : List OwnCall) (v : User) : Prop :=
  match req.handler with
  | .login _ => ∀ lockedUntil now, v.lockedUntil = some lockedUntil →
    (⟨.now, now⟩ : OwnCall) ∈ h → lockedUntil ≤ now
  | .changePassword newPassword currentPassword =>
    ProfileController.checkNewPassword env v newPassword currentPassword = .ok ()
  | _ => True

/-- Only the comparison can still refuse the request, which has read this row. -/
structure Open (req : Request) (h : List OwnCall) (v : User) : Prop where
  reads : Reads env req h v
  only : ∀ v', Reads env req h v' → v' = v
  unrefused : Unrefused env req h v

structure Accepted (req : Request) (h : List OwnCall) (v : User) : Prop
    extends Open env req h v where
  compared : Compared req h v

/-- The hash that a call stored. -/
def hashWritten : OwnCall → Option String
  | ⟨.userUpdate _ data, .ok _⟩ => data.passwordHash
  | _ => none

def WritesHash (k : OwnCall) : Prop := hashWritten k ≠ none

instance : DecidablePred WritesHash := fun k => inferInstanceAs (Decidable (hashWritten k ≠ none))

/-- Calls that read no row to compare with and no clock for the lock. -/
def AfterCompare : Op → Prop
  | .userFindByEmailHash _ | .userFindById _ | .now => False
  | _ => True

/-- Calls after the comparison that touch neither hashes nor sessions. -/
def Idle : Op → Prop
  | .userUpdate _ data => data.passwordHash = none
  | .userFindByEmailHash _ | .userFindById _ | .now => False
  | .sessionCreate _ | .sessionUpdateMany _ _ => False
  | _ => True

/-- Neither a hash nor a session has been written. -/
def Untouched (h : List OwnCall) : Prop := Unborn h ∧ ∀ k ∈ h, ¬ WritesHash k

/-- Whose hash the request may write. -/
def Writable (req : Request) (h : List OwnCall) (v : User) (id : Uuid) : Prop :=
  match req.handler with
  | .changePassword _ _ => ∃ user, Passed req h (some user) ∧ id = user.id
  | _ => id = v.id

def HashMay (req : Request) (h : List OwnCall) : Op → Prop
  | .userUpdate id data => data.passwordHash ≠ none →
    (∃ v, Accepted env req h v ∧ Writable req h v id) ∧ Untouched h
  | .sessionCreate d => (∃ v, Accepted env req h v ∧ d.userId = v.id) ∧ Unborn h ∧
    ∃ dto, req.handler = .login dto
  | .sessionUpdateMany _ _ => ∃ k ∈ h, WritesHash k
  | _ => True

section Parts
variable {env} {req : Request} {h h' : List OwnCall} {v : User}

lemma ReadOnly.hashMay {op : Op} (reads : ReadOnly op) : HashMay env req h op := by
  cases op <;> trivial

lemma Reads.append (reads : Reads env req h v) (new : List OwnCall) :
    Reads env req (new ++ h) v := by
  unfold Reads at reads ⊢
  split at reads
  · exact List.mem_append_right new reads
  · obtain ⟨user, passed, mem⟩ := reads
    exact ⟨user, passed.append new, List.mem_append_right new mem⟩
  · exact reads.elim

lemma Reads.later (reads : Reads env req h v) (ext : Extends AfterCompare h h') :
    Reads env req h' v := by
  obtain ⟨new, rfl, _⟩ := ext
  exact reads.append new

lemma Reads.earlier {v' : User} (reads : Reads env req h v) (ext : Extends AfterCompare h h')
    (reads' : Reads env req h' v') : Reads env req h v' := by
  unfold Reads at reads reads' ⊢
  split at reads'
  · exact (ext.mem_or reads').resolve_right id
  · rename_i hreq
    simp only [hreq] at reads
    obtain ⟨user, passed, _⟩ := reads
    obtain ⟨user', passed', mem⟩ := reads'
    obtain ⟨new, rfl, all⟩ := id ext
    obtain rfl := Option.some.inj (passed_unique passed' (passed.append new))
    exact ⟨user', passed, (ext.mem_or mem).resolve_right id⟩
  · exact reads'.elim

lemma Unrefused.earlier (unrefused : Unrefused env req h' v) (sub : h ⊆ h') :
    Unrefused env req h v := by
  unfold Unrefused at unrefused ⊢
  split at unrefused
  · exact fun lockedUntil now locked mem => unrefused lockedUntil now locked (sub mem)
  · exact unrefused
  · trivial

lemma Unrefused.later (unrefused : Unrefused env req h v) (ext : Extends AfterCompare h h') :
    Unrefused env req h' v := by
  unfold Unrefused at unrefused ⊢
  split at unrefused
  · intro lockedUntil now locked mem
    exact unrefused lockedUntil now locked ((ext.mem_or mem).resolve_right id)
  · exact unrefused
  · trivial

lemma Open.later (opened : Open env req h v) (ext : Extends AfterCompare h h') :
    Open env req h' v :=
  ⟨opened.reads.later ext, fun v' reads => opened.only v' (opened.reads.earlier ext reads),
    opened.unrefused.later ext⟩

lemma Accepted.later (accepted : Accepted env req h v) (ext : Extends AfterCompare h h') :
    Accepted env req h' v := by
  obtain ⟨password, parsed, hp, hparse, mem⟩ := accepted.compared
  exact ⟨accepted.toOpen.later ext, password, parsed, hp, hparse, ext.mem mem⟩

lemma Idle.afterCompare {op : Op} (idle : Idle op) : AfterCompare op := by
  cases op <;> trivial

lemma Idle.hashMay {op : Op} (idle : Idle op) : HashMay env req h op := by
  cases op with
  | userUpdate id data => exact fun writes => absurd idle writes
  | _ => trivial

lemma Derives.idle {op : Op} (derives : Derives op) : Idle op := by
  cases op <;> trivial

lemma Untouched.cons {k : OwnCall} (untouched : Untouched h) (insert : ¬ IsInsert k.op)
    (writes : ¬ WritesHash k) : Untouched (k :: h) := by
  refine ⟨?_, ?_⟩ <;> intro k' hk'
  · rcases List.mem_cons.mp hk' with rfl | hk'
    · exact insert
    · exact untouched.1 k' hk'
  · rcases List.mem_cons.mp hk' with rfl | hk'
    · exact writes
    · exact untouched.2 k' hk'

lemma Untouched.later (untouched : Untouched h) (ext : Extends Idle h h') : Untouched h' := by
  refine ⟨?_, ?_⟩ <;> intro k hk <;> rcases ext.mem_or hk with old | idle
  · exact untouched.1 k old
  · intro insert
    obtain ⟨op, r⟩ := k
    cases op <;> trivial
  · exact untouched.2 k old
  · intro writes
    obtain ⟨op, r⟩ := k
    cases op with
    | userUpdate id data => cases r with
      | ok u => exact writes idle
      | error e => exact writes rfl
    | _ => exact writes rfl

lemma idle_bind {α β : Type} {p : Task α} {f : α → Task β} {post : List OwnCall → β → Prop}
    (uses : p.Uses Idle)
    (rest : ∀ h' a, Extends Idle h h' → (f a).Obeys (HashMay env req) post h') :
    (p >>= f).Obeys (HashMay env req) post h :=
  obeys_bind (uses_obeys uses fun _ _ _ idle => idle.hashMay) rest

lemma refuses_obeys {α β : Type} {p : Task α} {e : Failure} {post : List OwnCall → β → Prop}
    (uses : p.Uses ReadOnly) :
    (p >>= fun _ => Prog.throw e : Task β).Obeys (HashMay env req) post h :=
  obeys_bind (uses_obeys uses fun _ _ _ reads => reads.hashMay) fun _ _ _ => trivial

lemma verify_compares {password : String} (hp : req.handler.password = some password) :
    (PasswordService.verify v.passwordHash password).Obeys (HashMay env req)
      (fun h' matched => Extends Idle h h' ∧ (matched = true → Compared req h' v)) h := by
  unfold PasswordService.verify
  split
  · exact ⟨.refl _ _, by simp⟩
  · rename_i parsed hparse
    refine obeys_bind (M := fun h' candidate =>
      h' = ⟨.argon2 password parsed.salt parsed.params, .ok candidate⟩ :: h) ?_ ?_
    · refine perform_bind_obeys trivial fun derived => ?_
      cases derived with
      | ok candidate => rfl
      | error e => trivial
    · rintro h' candidate rfl
      refine ⟨(Extends.refl Idle h).cons (k := ⟨.argon2 password parsed.salt parsed.params,
        .ok candidate⟩) trivial, fun matched => ?_⟩
      obtain ⟨_, rfl⟩ : candidate.length = parsed.hash.length ∧ candidate = parsed.hash := by
        simpa using matched
      exact ⟨password, parsed, hp, hparse, List.mem_cons_self⟩

lemma clearFailures_idle (user : User) : (AuthService.clearFailures user).Uses Idle := by
  unfold AuthService.clearFailures
  split
  · exact uses_bind (await_uses (perform_uses rfl)) fun _ => uses_ret _
  · exact uses_ret _

/-- The rehash of a login is its one write of a hash. -/
lemma rehash_obeys {dto : LoginDto} {password : String} (isLogin : req.handler = .login dto)
    (accepted : Accepted env req h v) (untouched : Untouched h) :
    (AuthService.rehash v password).Obeys (HashMay env req)
      (fun h' _ => Accepted env req h' v ∧ Unborn h') h := by
  unfold AuthService.rehash
  split
  · refine idle_bind ((hash_derives password).mono fun _ => Derives.idle) fun h₁ hash ext => ?_
    have accepted₁ := accepted.later (ext.mono fun _ => Idle.afterCompare)
    have untouched₁ := untouched.later ext
    refine await_bind_obeys (M := fun h' r => h' = ⟨.userUpdate v.id
      { passwordHash := some hash }, r⟩ :: h₁)
      (perform_obeys (fun _ => ⟨⟨v, accepted₁, by simp [Writable, isLogin]⟩, untouched₁⟩)
        fun _ => rfl) ?_
    rintro h' u rfl
    refine ⟨accepted₁.later ((Extends.refl _ _).cons trivial), ?_⟩
    intro k hk
    rcases List.mem_cons.mp hk with rfl | hk
    · exact id
    · exact untouched₁.1 k hk
  · exact ⟨accepted, untouched.1⟩

lemma acceptLogin_hash {dto : LoginDto} {userAgent : Option String}
    (isLogin : req.handler = .login dto) (accepted : Accepted env req h v)
    (untouched : Untouched h) :
    (AuthService.acceptLogin env v dto.password userAgent).Obeys (HashMay env req) Anything h := by
  refine idle_bind (clearFailures_idle v) fun h₁ _ ext => ?_
  refine obeys_bind (rehash_obeys isLogin (accepted.later (ext.mono fun _ => Idle.afterCompare))
    (untouched.later ext)) ?_
  rintro h₂ _ ⟨accepted₂, unborn⟩
  have inserts : (create env v.id userAgent).Obeys (HashMay env req) Anything h₂ := by
    refine perform_bind_obeys trivial fun familyId => perform_bind_obeys trivial fun bytes => ?_
    refine await_bind_obeys (M := Anything) (perform_obeys ⟨⟨v, ?_, rfl⟩, ?_, dto, isLogin⟩
      fun _ => trivial) fun _ _ _ => trivial
    · exact accepted₂.later (((Extends.refl _ _).cons (k := (⟨.randomUUID, familyId⟩ : OwnCall))
        trivial).cons trivial)
    · exact (unborn.cons (k := (⟨.randomUUID, familyId⟩ : OwnCall)) trivial).cons trivial
  refine obeys_bind inserts ?_
  rintro h₃ ⟨session, token⟩ _
  refine perform_bind_obeys trivial fun accessToken => ?_
  cases UsersService.toProfile env v <;> trivial

lemma GuardOp.untouched (guarded : ∀ k ∈ h, GuardOp k.op) : Untouched h := by
  refine ⟨fun k hk insert => ?_, fun k hk writes => ?_⟩ <;>
    (have only := guarded k hk; obtain ⟨op, r⟩ := k; cases op <;> trivial)

/-- The lock check of a login leaves a row that is not locked. -/
lemma isLocked_opens {dto : LoginDto} (isLogin : req.handler = .login dto)
    (guarded : ∀ k ∈ h, GuardOp k.op) (hh : h' = ⟨.userFindByEmailHash
      (UsersService.emailHash env dto.email), .ok (some v)⟩ :: h) :
    (AuthService.isLocked v).Obeys (HashMay env req)
      (fun h'' locked => locked = false → Open env req h'' v ∧ Untouched h'') h' := by
  have untouched : Untouched h' := by
    rw [hh]
    exact (GuardOp.untouched guarded).cons id (absurd rfl)
  have notNow : ∀ now, (⟨.now, now⟩ : OwnCall) ∉ h' := by
    intro now mem
    rw [hh] at mem
    rcases List.mem_cons.mp mem with same | mem
    · cases same
    · exact guarded _ mem
  have reads : Reads env req h' v := by
    simp only [Reads, isLogin, hh]
    exact List.mem_cons_self
  have only : ∀ v', Reads env req h' v' → v' = v := by
    intro v' reads'
    simp only [Reads, isLogin, hh] at reads'
    rcases List.mem_cons.mp reads' with same | mem
    · cases same
      rfl
    · exact (guarded _ mem).elim
  unfold AuthService.isLocked
  split
  · rename_i unlocked
    refine fun _ => ⟨⟨reads, only, ?_⟩, untouched⟩
    simp only [Unrefused, isLogin]
    intro lockedUntil now locked
    rw [unlocked] at locked
    cases locked
  · rename_i lockedUntil hlock
    refine perform_bind_obeys trivial fun now => ?_
    intro past
    replace past : lockedUntil ≤ now := by simpa using past
    have alone : ∀ v', Reads env req (⟨.now, now⟩ :: h') v' → Reads env req h' v' := by
      intro v' reads'
      simp only [Reads, isLogin] at reads' ⊢
      exact (List.mem_cons.mp reads').resolve_left (by simp)
    refine ⟨⟨?_, fun v' reads' => only v' (alone v' reads'), ?_⟩, untouched.cons id (absurd rfl)⟩
    · simp only [Reads, isLogin] at reads ⊢
      exact List.mem_cons_of_mem _ reads
    · simp only [Unrefused, isLogin]
      intro until' now' locked mem
      obtain rfl := Option.some.inj (hlock.symm.trans locked)
      rcases List.mem_cons.mp mem with same | mem
      · cases same
        exact past
      · exact absurd mem (notNow now')

/-- After its guards a login obeys the rule. -/
lemma login_hash {dto : LoginDto} {userAgent : Option String}
    (isLogin : req.handler = .login dto) (guarded : ∀ k ∈ h, GuardOp k.op) :
    (AuthService.login env dto userAgent).Obeys (HashMay env req) Anything h := by
  refine await_bind_obeys (M := fun h' r => h' = ⟨.userFindByEmailHash
    (UsersService.emailHash env dto.email), r⟩ :: h) (perform_obeys trivial fun _ => rfl) ?_
  rintro h₁ (_ | v) hh
  · exact refuses_obeys (verifyAgainstDummy_uses _)
  refine obeys_bind (isLocked_opens isLogin guarded hh) ?_
  rintro h₂ (_ | _) opened
  · obtain ⟨opened, untouched⟩ := opened rfl
    refine obeys_bind (verify_compares (v := v) (by rw [isLogin]; rfl)) ?_
    rintro h₃ (_ | _) ⟨ext, compared⟩
    · refine obeys_bind (M := Anything) ?_ fun _ _ _ => trivial
      refine await_bind_obeys (M := Anything) (perform_obeys (fun writes => absurd rfl writes)
        fun _ => trivial) fun h₄ user _ => ?_
      split
      · exact await_bind_obeys (M := Anything) (perform_obeys (fun writes => absurd rfl writes)
          fun _ => trivial) fun _ _ _ => trivial
      · trivial
    · exact acceptLogin_hash isLogin
        ⟨opened.later (ext.mono fun _ => Idle.afterCompare), compared rfl⟩ (untouched.later ext)
  · exact refuses_obeys (verifyAgainstDummy_uses _)

/-- The check of the current password reads the row of the user on the request. -/
lemma verifyCurrentPassword_opens {newPassword currentPassword : String} {user : AuthUser}
    (isChange : req.handler = .changePassword newPassword currentPassword)
    (guarded : ∀ k ∈ h, GuardOp k.op) (passed : Passed req h (some user)) :
    (AuthService.verifyCurrentPassword user.id currentPassword).Obeys (HashMay env req)
      (fun h' v => Reads env req h' v ∧ (∀ v', Reads env req h' v' → v' = v) ∧
        Compared req h' v ∧ Untouched h' ∧ Passed req h' (some user)) h := by
  refine await_bind_obeys (M := fun h' r => h' = ⟨.userFindById user.id, r⟩ :: h)
    (perform_obeys trivial fun _ => rfl) ?_
  rintro h₁ (_ | v) rfl
  · trivial
  have passed₁ : Passed req (⟨.userFindById user.id, .ok (some v)⟩ :: h) (some user) :=
    passed.append [_]
  have reads : Reads env req (⟨.userFindById user.id, .ok (some v)⟩ :: h) v := by
    simp only [Reads, isChange]
    exact ⟨user, passed₁, List.mem_cons_self⟩
  have only : ∀ v', Reads env req (⟨.userFindById user.id, .ok (some v)⟩ :: h) v' → v' = v := by
    intro v' reads'
    simp only [Reads, isChange] at reads'
    obtain ⟨user', passed', mem⟩ := reads'
    obtain rfl := Option.some.inj (passed_unique passed' passed₁)
    rcases List.mem_cons.mp mem with same | mem
    · cases same
      rfl
    · exact (guarded _ mem).elim
  refine obeys_bind (verify_compares (v := v) (by rw [isChange]; rfl)) ?_
  rintro h₂ (_ | _) ⟨ext, compared⟩
  · trivial
  · have after := ext.mono fun _ => Idle.afterCompare
    refine ⟨reads.later after, fun v' reads' => only v' (reads.earlier after reads'),
      compared rfl, ((GuardOp.untouched guarded).cons id (absurd rfl)).later ext, ?_⟩
    obtain ⟨new, rfl, _⟩ := ext
    exact passed₁.append new

lemma changePassword_hash {newPassword currentPassword : String} {user : AuthUser}
    (isChange : req.handler = .changePassword newPassword currentPassword)
    (guarded : ∀ k ∈ h, GuardOp k.op) (passed : Passed req h (some user)) :
    (ProfileController.changePassword env user newPassword currentPassword).Obeys
      (HashMay env req) Anything h := by
  refine obeys_bind (verifyCurrentPassword_opens isChange guarded passed) ?_
  rintro h₁ v ⟨reads, only, compared, untouched, passed₁⟩
  cases checked : ProfileController.checkNewPassword env v newPassword currentPassword with
  | error e => trivial
  | ok _ =>
    have accepted : Accepted env req h₁ v := by
      refine ⟨⟨reads, only, ?_⟩, compared⟩
      simp only [Unrefused, isChange, checked]
    refine idle_bind (p := PasswordService.hash newPassword)
      ((hash_derives newPassword).mono fun _ => Derives.idle) fun h₂ hash ext => ?_
    refine await_bind_obeys (M := fun h' r => h' = ⟨.userUpdate user.id
      { passwordHash := some hash }, r⟩ :: h₂) (perform_obeys (fun _ => ⟨⟨v, accepted.later
        (ext.mono fun _ => Idle.afterCompare), ?_⟩, untouched.later ext⟩) fun _ => rfl) ?_
    · simp only [Writable, isChange]
      obtain ⟨new, rfl, _⟩ := ext
      exact ⟨user, passed₁.append new, rfl⟩
    · rintro h₃ u rfl
      refine await_bind_obeys (M := Anything) (perform_obeys ⟨_, List.mem_cons_self, ?_⟩
        fun _ => trivial) fun _ _ _ => trivial
      exact Option.some_ne_none hash

end Parts

/-- A request that compares a password obeys the rule. -/
theorem serve_hash (req : Request) (compares : req.handler.password ≠ none) :
    (serve env req).Obeys (HashMay env req) Anything [] := by
  refine obeys_bind (Obeys.returns (uses_obeys (guards_uses _ _)
    fun _ _ _ only => only.readOnly.hashMay)) ?_
  rintro h user ⟨ext, calls, hcalls, returned⟩
  have guarded : ∀ k ∈ h, GuardOp k.op := by
    intro k hk
    exact (ext.mem_or hk).resolve_left List.not_mem_nil
  have passed : Passed req h user := by simpa [Passed, hcalls] using returned
  unfold handle
  cases hreq : req.handler with
  | login dto => exact obeys_bind (login_hash hreq guarded) fun _ _ _ => trivial
  | changePassword newPassword currentPassword =>
    cases user with
    | none => trivial
    | some user =>
      exact obeys_bind (changePassword_hash hreq guarded passed) fun _ _ _ => trivial
  | _ => simp [hreq, Handler.password] at compares

lemma boot_hash (reqs : Nat → Request) (w : World)
    (compares : ∀ i, (reqs i).handler.password ≠ none) :
    Interleaving.PoolObeys (fun i => HashMay env (reqs i)) (fun _ => Anything)
      (boot env reqs w) :=
  fun i => serve_hash env (reqs i) (compares i)

end BajaValle
