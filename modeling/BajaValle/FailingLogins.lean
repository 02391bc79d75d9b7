import BajaValle.Credentials
import BajaValle.DummyHash
import BajaValle.Progress

/-!
# Failing logins

A login fails for an unknown email, for a locked account and for a wrong
password. The first two wait for one hash that the process derives at its first
use and keeps. While that derivation has not failed all three answer alike; a
failure of it is kept as well, and from then on only the third answers as meant.
-/

namespace BajaValle

open CallPrograms Prog Interleaving AuthService

/-- The error of an outcome. -/
def failureOf {β : Type} : Except Failure β → Option Failure
  | .ok _ => none
  | .error e => some e

/-- The read of the account that a login is for. -/
def lookup (env : Env) (dto : LoginDto) (found : Option User) : OwnCall :=
  ⟨.userFindByEmailHash (UsersService.emailHash env dto.email), .ok found⟩

/-- The account is unknown, or locked when the login looks at the clock. -/
def Blocked (h : List OwnCall) (found : Option User) : Prop :=
  ∀ v, found = some v → ∃ lockedUntil now, v.lockedUntil = some lockedUntil ∧
    (⟨.now, now⟩ : OwnCall) ∈ h ∧ now < lockedUntil

/-- No query and no derivation has failed. -/
def Unfailing (h : List OwnCall) : Prop :=
  ∀ k ∈ h, queryError k = none ∧ derivationError k = none

instance : DecidablePred Unfailing := fun h =>
  inferInstanceAs (Decidable (∀ k ∈ h, queryError k = none ∧ derivationError k = none))

/-- The comparison with the kept hash passes on its failure. -/
def EndsAtDummy (h : List OwnCall) (failure : Option Failure) : Prop :=
  (∃ hash, (⟨.dummyAwait, .ok hash⟩ : OwnCall) ∈ h ∧ failure = some invalidCredentials) ∨
    ∃ e, (⟨.dummyAwait, .error e⟩ : OwnCall) ∈ h ∧ failure = some e

/-- The password of the login has been found to be right. -/
def RightPassword (dto : LoginDto) (h : List OwnCall) (found : Option User) : Prop :=
  ∃ v parsed, found = some v ∧ PasswordService.parse v.passwordHash = some parsed ∧
    (⟨.argon2 dto.password parsed.salt parsed.params, .ok parsed.hash⟩ : OwnCall) ∈ h

/-- How a login whose calls do not fail ends. -/
def LoginEnds (env : Env) (dto : LoginDto) (h : List OwnCall) (failure : Option Failure) : Prop :=
  Unfailing h → ∀ found, lookup env dto found ∈ h →
    (Blocked h found → EndsAtDummy h failure) ∧
    (¬ Blocked h found → failure = some invalidCredentials ∨ RightPassword dto h found)

section Ends
variable {env : Env} {dto : LoginDto} {h : List OwnCall} {α β : Type}

lemma DummyOp.afterCompare {op : Op} (h : DummyOp op) : AfterCompare op := by
  cases op <;> trivial

lemma Derives.afterCompare {op : Op} (h : Derives op) : AfterCompare op := by
  cases op <;> trivial

lemma LoginWrites.afterCompare {op : Op} (h : LoginWrites op) : AfterCompare op := by
  cases op <;> trivial

lemma perform_bind_concludes {op : Op} {f : op.Res → Task β}
    {post : List OwnCall → Except Failure β → Prop}
    (rest : ∀ r, (f r).Concludes post (⟨op, r⟩ :: h)) : (perform op >>= f).Concludes post h := rest

/-- What a derivation fails with, it was answered. -/
lemma derive_concludes (password : String) (salt : Bytes) (params : Argon2Params) :
    (PasswordService.derive password salt params).Concludes (fun h' out =>
      (⟨.argon2 password salt params, out⟩ : OwnCall) ∈ h') h := by
  intro r
  cases r <;> exact List.mem_cons_self

lemma verify_concludes (storedHash password : String) :
    (PasswordService.verify storedHash password).Concludes (fun h' out =>
      (∀ e, out = .error e → ¬ Unfailing h') ∧
      (out = .ok true → ∃ parsed, PasswordService.parse storedHash = some parsed ∧
        (⟨.argon2 password parsed.salt parsed.params, .ok parsed.hash⟩ : OwnCall) ∈ h')) h := by
  unfold PasswordService.verify
  split
  · exact ⟨nofun, nofun⟩
  · rename_i parsed hparse
    refine concludes_bind ((derive_concludes password parsed.salt parsed.params).mono ?_)
    rintro h' out mem
    constructor
    · rintro candidate rfl
      refine ⟨nofun, fun matched => ⟨parsed, hparse, ?_⟩⟩
      obtain ⟨_, rfl⟩ : candidate.length = parsed.hash.length ∧ candidate = parsed.hash := by
        simpa using Except.ok.inj matched
      exact mem
    · rintro e rfl
      exact ⟨fun _ _ unfailing => (nomatch (unfailing _ mem).2), nofun⟩

lemma startDummy_concludes :
    PasswordService.startDummy.Concludes (fun _ out => out = .ok ()) h := by
  refine perform_bind_concludes ?_
  rintro (_ | _)
  · exact rfl
  · refine perform_bind_concludes fun secret => ?_
    refine concludes_bind ((concludes_attempt (concludes_uses (hash_derives _))).mono ?_)
    rintro h' _ ⟨settled, rfl, _⟩
    refine ⟨?_, nofun⟩
    rintro _ ⟨⟩
    exact fun _ => rfl

lemma verifyAgainstDummy_concludes (password : String) :
    (PasswordService.verifyAgainstDummy password).Concludes (fun h' out => Unfailing h' →
      (∃ hash, (⟨.dummyAwait, .ok hash⟩ : OwnCall) ∈ h' ∧ out = .ok ()) ∨
        ∃ e, (⟨.dummyAwait, .error e⟩ : OwnCall) ∈ h' ∧ out = .error e) h := by
  refine concludes_bind (startDummy_concludes.mono ?_)
  rintro h₁ _ rfl
  refine ⟨fun _ _ => perform_bind_concludes ?_, nofun⟩
  rintro (e | hash)
  · exact fun _ => .inr ⟨e, List.mem_cons_self, rfl⟩
  simp only [ofExcept_ok, ret_bind]
  refine concludes_bind (((verify_concludes hash password).and
    (concludes_uses (verify_derives hash password))).mono ?_)
  rintro h₂ out ⟨⟨failed, _⟩, ext⟩
  refine ⟨fun _ _ _ => .inl ⟨hash, ext.mem List.mem_cons_self, rfl⟩, ?_⟩
  rintro e rfl unfailing
  exact absurd unfailing (failed e rfl)

/-- The end of a login of a blocked account. -/
lemma refused_concludes (password : String) :
    ((do
      PasswordService.verifyAgainstDummy password
      Prog.throw invalidCredentials : Task α)).Concludes (fun h' out =>
        Extends AfterCompare h h' ∧ (Unfailing h' → EndsAtDummy h' (failureOf out))) h := by
  have uses : ((do
      PasswordService.verifyAgainstDummy password
      Prog.throw invalidCredentials : Task α)).Uses AfterCompare :=
    uses_bind ((verifyAgainstDummy_dummyOp _).mono fun _ => DummyOp.afterCompare) fun _ =>
      uses_throw _
  refine (concludes_uses uses).and
    (concludes_bind ((verifyAgainstDummy_concludes password).mono ?_))
  rintro h' out ends
  constructor
  · rintro _ rfl unfailing
    rcases ends unfailing with ⟨hash, mem, _⟩ | ⟨e, _, same⟩
    · exact .inl ⟨hash, mem, rfl⟩
    · cases same
  · rintro e rfl unfailing
    rcases ends unfailing with ⟨hash, _, same⟩ | ⟨e', mem, same⟩
    · cases same
    · exact .inr ⟨e', mem, congrArg failureOf same⟩

/-- After the lock check no call changes what blocks the login. -/
lemma loginEnds_of_blocked {h' : List OwnCall} {found : Option User} {failure : Option Failure}
    (only : ∀ f, lookup env dto f ∈ h → f = found) (blocked : Blocked h found)
    (ext : Extends AfterCompare h h') (ends : Unfailing h' → EndsAtDummy h' failure) :
    LoginEnds env dto h' failure := by
  intro unfailing f read
  obtain rfl := only f ((ext.mem_or read).resolve_right id)
  refine ⟨fun _ => ends unfailing, fun unblocked => absurd ?_ unblocked⟩
  intro v hv
  obtain ⟨lockedUntil, now, locked, looked, early⟩ := blocked v hv
  exact ⟨lockedUntil, now, locked, ext.mem looked, early⟩

lemma loginEnds_of_unblocked {h' : List OwnCall} {found : Option User} {failure : Option Failure}
    (only : ∀ f, lookup env dto f ∈ h → f = found) (unblocked : ¬ Blocked h found)
    (ext : Extends AfterCompare h h')
    (ends : Unfailing h' → failure = some invalidCredentials ∨ RightPassword dto h' found) :
    LoginEnds env dto h' failure := by
  intro unfailing f read
  obtain rfl := only f ((ext.mem_or read).resolve_right id)
  refine ⟨fun blocked => absurd ?_ unblocked, fun _ => ends unfailing⟩
  intro v hv
  obtain ⟨lockedUntil, now, locked, looked, early⟩ := blocked v hv
  exact ⟨lockedUntil, now, locked, (ext.mem_or looked).resolve_right id, early⟩

/-- An awaited query that fails is one of the calls. -/
lemma userUpdate_concludes (id : Uuid) (c : UserChanges) :
    (await (perform (.userUpdate id c))).Concludes
      (fun h' out => ∀ e, out = .error e → ¬ Unfailing h') h := by
  rintro (e | u)
  · exact fun _ _ unfailing => nomatch (unfailing _ List.mem_cons_self).1
  · exact nofun

lemma registerFailedLogin_concludes (id : Uuid) :
    (registerFailedLogin id).Concludes (fun h' out => ∀ e, out = .error e → ¬ Unfailing h') h := by
  refine concludes_bind ((userUpdate_concludes id _).mono fun h₁ out failed =>
    ⟨?_, fun e same _ _ => failed e same⟩)
  rintro user rfl
  split
  · refine concludes_bind ((userUpdate_concludes id _).mono fun h₂ out failed' =>
      ⟨?_, fun e same _ _ => failed' e same⟩)
    rintro _ rfl
    exact nofun
  · exact nofun

/-- A login of an account that is not blocked. -/
lemma compare_concludes {v : User} {userAgent : Option String}
    (only : ∀ f, lookup env dto f ∈ h → f = some v) (unblocked : ¬ Blocked h (some v)) :
    ((do
      if ← PasswordService.verify v.passwordHash dto.password then
        acceptLogin env v dto.password userAgent
      else do
        registerFailedLogin v.id
        Prog.throw invalidCredentials : Task AuthResponse)).Concludes
      (fun h' out => LoginEnds env dto h' (failureOf out)) h := by
  refine concludes_bind (((verify_concludes v.passwordHash dto.password).and
    (concludes_uses (verify_derives v.passwordHash dto.password))).mono ?_)
  rintro h₁ out ⟨⟨failed, matched⟩, derived⟩
  have ext := derived.mono fun _ => Derives.afterCompare
  constructor
  · rintro (_ | _) rfl
    · refine concludes_bind (((registerFailedLogin_concludes v.id).and
        (concludes_uses (registerFailedLogin_writes v.id))).mono ?_)
      rintro h₂ out ⟨failed, writes⟩
      have ext₂ := ext.trans (writes.mono fun _ => LoginWrites.afterCompare)
      refine ⟨fun _ _ => loginEnds_of_unblocked only unblocked ext₂ fun _ => .inl rfl, ?_⟩
      rintro e rfl unfailing
      exact absurd unfailing (failed e rfl)
    · refine (concludes_uses (acceptLogin_writes env v dto.password userAgent)).mono ?_
      rintro h₂ out writes
      have ext₂ := ext.trans (writes.mono fun _ => LoginWrites.afterCompare)
      refine loginEnds_of_unblocked only unblocked ext₂ fun _ => .inr ?_
      obtain ⟨parsed, hparse, mem⟩ := matched rfl
      exact ⟨v, parsed, rfl, hparse, writes.mem mem⟩
  · rintro e rfl unfailing
    exact absurd unfailing (failed e rfl)

lemma findByEmail_concludes :
    (UsersService.findByEmail env dto.email).Concludes (fun h' out =>
      (∀ found, out = .ok found → h' = lookup env dto found :: h) ∧
        ∀ e, out = .error e → ¬ Unfailing h') h := by
  rintro (e | found)
  · exact ⟨nofun, fun _ _ unfailing => nomatch (unfailing _ List.mem_cons_self).1⟩
  · refine ⟨?_, nofun⟩
    rintro _ ⟨⟩
    rfl

/-- The lock check of the row finds whether it blocks the login. -/
lemma isLocked_concludes (env : Env) (dto : LoginDto) {v : User}
    (unlooked : ∀ now, (⟨.now, now⟩ : OwnCall) ∉ h) :
    (isLocked v).Concludes (fun h' out =>
      (∀ f, lookup env dto f ∈ h' → lookup env dto f ∈ h) ∧
        ∃ locked, out = .ok locked ∧ (locked = true ↔ Blocked h' (some v))) h := by
  unfold isLocked
  split
  · rename_i free
    refine ⟨fun _ read => read, false, rfl, nofun, fun blocked => ?_⟩
    obtain ⟨lockedUntil, now, locked, _⟩ := blocked v rfl
    rw [free] at locked
    cases locked
  · rename_i lockedUntil locked
    intro now
    refine ⟨?_, _, rfl, ?_, fun blocked => ?_⟩
    · intro f read
      rcases List.mem_cons.mp read with same | old
      · cases same
      · exact old
    · rintro early v' ⟨⟩
      exact ⟨lockedUntil, now, locked, List.mem_cons_self, of_decide_eq_true early⟩
    · obtain ⟨lockedUntil', now', locked', looked, early⟩ := blocked v rfl
      obtain rfl := Option.some.inj (locked.symm.trans locked')
      rcases List.mem_cons.mp looked with same | old
      · cases same
        exact decide_eq_true early
      · exact absurd old (unlooked now')

lemma login_concludes {userAgent : Option String} (guarded : ∀ k ∈ h, GuardOp k.op) :
    (login env dto userAgent).Concludes (fun h' out => LoginEnds env dto h' (failureOf out)) h := by
  refine concludes_bind (findByEmail_concludes.mono ?_)
  rintro h₁ out ⟨found, failed⟩
  refine ⟨fun f same => ?_, fun e same unfailing => absurd unfailing (failed e same)⟩
  obtain rfl := found f same
  have only : ∀ f', lookup env dto f' ∈ lookup env dto f :: h → f' = f := by
    intro f' read
    rcases List.mem_cons.mp read with same | old
    · cases same
      rfl
    · exact absurd (guarded _ old) id
  cases f with
  | none =>
    refine (refused_concludes dto.password).mono fun h' out ends => ?_
    exact loginEnds_of_blocked only (by rintro _ ⟨⟩) ends.1 ends.2
  | some v =>
    have unlooked : ∀ now, (⟨.now, now⟩ : OwnCall) ∉ lookup env dto (some v) :: h := by
      intro now mem
      rcases List.mem_cons.mp mem with same | old
      · cases same
      · exact guarded _ old
    refine concludes_bind ((isLocked_concludes env dto unlooked).mono ?_)
    rintro h₂ _ ⟨earlier, locked, rfl, blocks⟩
    have only₂ : ∀ f', lookup env dto f' ∈ h₂ → f' = some v :=
      fun f' read => only f' (earlier f' read)
    refine ⟨?_, nofun⟩
    rintro (_ | _) ⟨⟩
    · exact compare_concludes only₂ fun blocked => nomatch blocks.mpr blocked
    · refine (refused_concludes dto.password).mono fun h' out ends => ?_
      exact loginEnds_of_blocked only₂ (blocks.mp rfl) ends.1 ends.2

/-- A request to log in ends as its login does, or at a guard. -/
lemma serve_concludes {authorization userAgent : Option String} :
    (serve env ⟨.login dto, authorization, userAgent⟩).Concludes
      (fun h' out => LoginEnds env dto h' (failureOf out)) [] := by
  refine concludes_bind ((concludes_uses (guards_uses _ authorization)).mono ?_)
  rintro h₁ out ext
  have guarded : ∀ k ∈ h₁, GuardOp k.op :=
    fun k mem => (ext.mem_or mem).resolve_left List.not_mem_nil
  refine ⟨fun user _ => ?_, fun e _ _ found read => absurd (guarded _ read) id⟩
  refine concludes_bind ((login_concludes guarded).mono ?_)
  rintro h₂ out ends
  constructor
  · rintro response rfl
    exact ends
  · rintro e rfl
    exact ends

end Ends

/-- The derivation of the kept hash has failed. -/
def DummyRejected (w : World) : Prop := ∃ e, w.dummyHash = .settled (.error e)

/-- The login must fail: no such account, a locked one, or a wrong password. -/
def MustFail (env : Env) (dto : LoginDto) (h : List OwnCall) (found : Option User) : Prop :=
  Blocked h found ∨
    ∃ v, found = some v ∧ ¬ PasswordService.Matches env v.passwordHash dto.password

lemma failureOf_eq_some {β : Type} {out : Except Failure β} {e : Failure} :
    failureOf out = some e ↔ out = .error e := by
  cases out <;> simp [failureOf]

/-- A login that must fail gives the one answer to bad credentials, unless it compares with
the kept hash and the derivation of that failed. -/
lemma ended_alike {env : Env} {reqs : Nat → Request} {w : World} {c : Server}
    (logins : ∀ j, ∃ dto, (reqs j).handler = .login dto) (fresh : w.dummyHash = .unset)
    (reached : Reachable env reqs w c) {i : Nat} {dto : LoginDto}
    (logsIn : (reqs i).handler = .login dto) {out : Except Failure Answer}
    (ended : (c.pool i).outcome = some out) (unfailing : Unfailing (own i c.history))
    {found : Option User} (read : lookup env dto found ∈ own i c.history)
    (mustFail : MustFail env dto (own i c.history) found) :
    out = .error invalidCredentials ↔
      ¬ (Blocked (own i c.history) found ∧ DummyRejected c.world) := by
  have log := dummyLog logins fresh reached
  have concludes : ∀ j, (serve env (reqs j)).Concludes (fun h' out => ∀ dto,
      (reqs j).handler = .login dto → LoginEnds env dto h' (failureOf out)) [] := by
    intro j
    obtain ⟨dto, logsIn⟩ := logins j
    generalize reqs j = req at logsIn ⊢
    obtain ⟨handler, authorization, userAgent⟩ := req
    obtain rfl : handler = .login dto := logsIn
    refine serve_concludes.mono fun h' out ends dto' same => ?_
    cases same
    exact ends
  obtain ⟨blocks, passes⟩ := leads_concludes concludes reached ended dto logsIn unfailing found read
  rw [← failureOf_eq_some]
  by_cases blocked : Blocked (own i c.history) found
  · simp only [blocked, true_and]
    rcases blocks blocked with ⟨hash, awaited, refused⟩ | ⟨e, awaited, passed⟩
    · have kept := log.awaits i _ awaited
      refine iff_of_true refused ?_
      rintro ⟨e, rejected⟩
      cases kept.symm.trans rejected
    · have kept := log.awaits i _ awaited
      obtain ⟨j, _, failed⟩ := log.origin _ kept
      obtain rfl := derivationError_eq reached (failed e rfl)
      refine iff_of_false ?_ fun good => good ⟨_, kept⟩
      rw [passed]
      rintro ⟨⟩
  · simp only [blocked, false_and, not_false_iff, iff_true]
    refine (passes blocked).resolve_right ?_
    rintro ⟨v, parsed, rfl, hparse, derived⟩
    obtain ⟨_, ⟨⟩, mismatch⟩ := mustFail.resolve_left blocked
    exact mismatch ⟨parsed, hparse, argon2_derived reached derived⟩

/-- In a run of logins, whatever derivations failed, every login can be brought to its end, and
one whose own calls do not fail but that must fail then gives the one answer to bad credentials,
unless it compares with the kept hash and the derivation of that failed. -/
theorem must_fail_answers_alike_iff {env : Env} {reqs : Nat → Request} {w : World} {c : Server}
    (logins : ∀ j, ∃ dto, (reqs j).handler = .login dto) (fresh : w.dummyHash = .unset)
    (reached : Reachable env reqs w c) :
    (c.world.draws.length + 2 * MAX_CALLS ≤ 256 ^ UNIQUE_BYTES → ∀ i, ∃ c',
      Leads (exec env) c c' ∧ (c'.pool i).outcome ≠ none) ∧
    ∀ i dto, (reqs i).handler = .login dto → ∀ out, (c.pool i).outcome = some out →
      Unfailing (own i c.history) → ∀ found, lookup env dto found ∈ own i c.history →
        MustFail env dto (own i c.history) found →
          (out = .error invalidCredentials ↔
            ¬ (Blocked (own i c.history) found ∧ DummyRejected c.world)) := by
  refine ⟨fun room i => ?_, fun i dto logsIn out ended unfailing found read mustFail => ?_⟩
  · obtain ⟨c', later, ended, _⟩ := request_ends (by simp [fresh]) reached room i
    exact ⟨c', later, ended⟩
  · exact ended_alike logins fresh reached logsIn ended unfailing read mustFail

namespace Plain

def stranger : LoginDto := { email := "eva@valle.mx", password := "secret" }
def wrongGuess : LoginDto := { email := "ana@valle.mx", password := "wrong" }

/-- Request 2 has a wrong password, all others an email without account. -/
def failing : Nat → Request
  | 2 => { handler := .login wrongGuess }
  | _ => { handler := .login stranger }

lemma failing_logsIn : ∀ j, ∃ dto, (failing j).handler = .login dto
  | 0 => ⟨_, rfl⟩
  | 1 => ⟨_, rfl⟩
  | 2 => ⟨_, rfl⟩
  | _ + 3 => ⟨_, rfl⟩

/-- Request 0 starts and settles the kept hash, then request 1 waits for it. -/
def strangers (fails : Bool) : List (Nat × Choice) :=
  [(0, { now := 1 }), (0, { now := 1 }), (0, { now := 1, bytes := bytes 1 }),
    (0, { now := 1, bytes := List.replicate 16 2 }), (0, { now := 1, fails }), (0, { now := 1 }),
    (1, { now := 2 }), (1, { now := 2 }), (1, { now := 2 })]

end Plain

theorem must_fail_answers_alike_second_stranger :
    ∃ c out, Reachable Plain.env Plain.failing Plain.world c ∧ (c.pool 1).outcome = some out ∧
      (∃ c', Leads (exec Plain.env) c c' ∧ (c'.pool 2).outcome ≠ none) ∧
      (out = .error invalidCredentials ↔
        ¬ (Blocked (own 1 c.history) none ∧ DummyRejected c.world)) := by
  have shown : ∃ c, Reachable Plain.env Plain.failing Plain.world c ∧
      ((c.pool 1).outcome = some (.error invalidCredentials) ∧ Unfailing (own 1 c.history) ∧
        lookup Plain.env Plain.stranger none ∈ own 1 c.history ∧ c.world.draws.length = 2) :=
    play_reaches (Plain.strangers false ++ [(1, { now := 3 })]) (by decide +kernel)
  obtain ⟨c, reached, ended, unfailing, read, drawn⟩ := shown
  obtain ⟨ends, alike⟩ := must_fail_answers_alike_iff Plain.failing_logsIn rfl reached
  exact ⟨c, _, reached, ended, ends (by rw [drawn]; decide) 2,
    alike 1 _ rfl _ ended unfailing _ read (.inl (by rintro _ ⟨⟩))⟩

/-- Once the derivation of the kept hash has failed, an email without account
is answered otherwise than a wrong password. -/
theorem rejected_dummy_tells_accounts :
    ∃ c, (∀ j, ∃ dto, (Plain.failing j).handler = .login dto) ∧
      Plain.world.dummyHash = .unset ∧ Reachable Plain.env Plain.failing Plain.world c ∧
      Unfailing (own 1 c.history) ∧ lookup Plain.env Plain.stranger none ∈ own 1 c.history ∧
      (c.pool 1).outcome = some (.error .argon2Error) ∧
      Unfailing (own 2 c.history) ∧
      lookup Plain.env Plain.wrongGuess (some Plain.user) ∈ own 2 c.history ∧
      ¬ PasswordService.Matches Plain.env Plain.user.passwordHash Plain.wrongGuess.password ∧
      (c.pool 2).outcome = some (.error invalidCredentials) := by
  have shown : ∃ c, Reachable Plain.env Plain.failing Plain.world c ∧
      (Unfailing (own 1 c.history) ∧ lookup Plain.env Plain.stranger none ∈ own 1 c.history ∧
        (c.pool 1).outcome = some (.error .argon2Error) ∧ Unfailing (own 2 c.history) ∧
        lookup Plain.env Plain.wrongGuess (some Plain.user) ∈ own 2 c.history ∧
        (c.pool 2).outcome = some (.error invalidCredentials)) :=
    play_reaches (Plain.strangers true ++ [(2, { now := 3 }), (2, { now := 3 }), (2, { now := 3 })])
      (by decide +kernel)
  obtain ⟨c, reached, unfailing₁, read₁, ended₁, unfailing₂, read₂, ended₂⟩ := shown
  refine ⟨c, Plain.failing_logsIn, rfl, reached, unfailing₁, read₁, ended₁, unfailing₂, read₂, ?_,
    ended₂⟩
  rintro ⟨parsed, hparse, derived⟩
  have wrong : (PasswordService.parse Plain.user.passwordHash).all fun parsed => decide
      (Plain.env.argon2id Plain.wrongGuess.password parsed.salt parsed.params ≠
        some parsed.hash) := by decide +kernel
  rw [hparse] at wrong
  exact of_decide_eq_true wrong derived

end BajaValle
