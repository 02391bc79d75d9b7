import BajaValle.LockoutPolicy

/-!
# Parallel logins on one account

Any number of logins interleave. The lock is checked on a row read before the
comparison and set two updates after it, so guesses that are past the check are
not in the counter yet. As long as every guess is made while the counter and
these guesses leave room, the discipline of `Lockout.Guarded` bounds them.
-/

namespace BajaValle

open CallPrograms Prog Interleaving AuthService Lockout

def recording : UserChanges := { failedLoginAttempts := some (.increment 1) }

def locking : UserChanges :=
  { failedLoginAttempts := some (.set 0), lockedUntil := some (.fromNow LOCK_MS) }

def clearing : UserChanges := { failedLoginAttempts := some (.set 0), lockedUntil := some .null }

/-- The row that a login has read. -/
def rowRead (h : List OwnCall) : Option User :=
  h.findSome? fun
    | ⟨.userFindByEmailHash _, .ok found⟩ => found
    | _ => none

def usesDummy (h : List OwnCall) : Bool :=
  h.any fun
    | ⟨.dummyStart, _⟩ => true
    | _ => false

def hasRecorded (h : List OwnCall) : Bool :=
  h.any fun
    | ⟨.userUpdate _ data, .ok _⟩ => data = recording
    | _ => false

def isDerivation (k : OwnCall) : Bool :=
  match k.op with
  | .argon2 _ _ _ => true
  | _ => false

def derived : OwnCall → Bool
  | ⟨.argon2 _ _ _, .ok _⟩ => true
  | _ => false

/-- After its calls `h` the request compares a wrong password with the stored
hash that it has read. -/
def isGuess (env : Env) (req : Request) (h : List OwnCall) : Op → Bool
  | .argon2 message salt params =>
    !usesDummy h && req.handler.password = some message &&
      ((rowRead h).bind fun v => PasswordService.parse v.passwordHash).any fun parsed =>
        salt = parsed.salt && params = parsed.params &&
          env.argon2id message salt params ≠ some parsed.hash
  | _ => false

section Guesses
variable (env : Env) (reqs : Nat → Request)

/-- The comparisons of wrong passwords in a history. -/
def guessEvents : List ServerEvent → List ServerEvent
  | [] => []
  | e :: earlier =>
    if derived e.call && isGuess env (reqs e.who) (own e.who earlier) e.call.op then
      e :: guessEvents earlier
    else guessEvents earlier

/-- The guesses whose requests have not counted a failure. -/
def unrecorded (history : List ServerEvent) : Nat :=
  (guessEvents env reqs history).countP fun e => !hasRecorded (own e.who history)

/-- If the request now compares a wrong password, the stored row is not locked
and its counter leaves room besides the guesses that are not recorded. -/
def Covered (emailHash : String) (i : Nat) (ch : Choice) (c : Server) : Prop :=
  match c.pool i with
  | .call op _ => isGuess env (reqs i) (own i c.history) op = true →
    (c.world.account emailHash).any (fun u => u.lockedUntil.all (· ≤ ch.now) &&
      u.failedLoginAttempts + unrecorded env reqs c.history < MAX_FAILED_LOGINS) = true
  | _ => True

instance (emailHash : String) (i : Nat) (ch : Choice) (c : Server) :
    Decidable (Covered env reqs emailHash i ch c) := by
  unfold Covered
  split <;> infer_instance

/-- By this update a login whose password matched takes effect on the counter and
the lock. -/
def Clears (e : ServerEvent) : Prop :=
  match e.call.op with
  | .userUpdate _ data => data = clearing
  | _ => False

instance : DecidablePred Clears := fun e => by
  unfold Clears
  split <;> infer_instance

/-- What a login on the account may call after its calls `h`. -/
def LoginMay (emailHash : String) (h : List OwnCall) : Op → Prop
  | .argon2 _ _ _ => hasRecorded h = false
  | .userUpdate id data =>
    (∃ v, (⟨.userFindByEmailHash emailHash, .ok (some v)⟩ : OwnCall) ∈ h ∧ id = v.id) ∧
      ((data = recording ∧ h.countP isDerivation ≤ 1) ∨ data = locking ∨ data = clearing ∨
        ∃ passwordHash, data = { passwordHash := some passwordHash })
  | .userCreate _ | .userDelete _ | .sessionUpdateMany _ _ => False
  | _ => True

end Guesses

section Protocol
variable {env : Env} {emailHash : String} {h h' : List OwnCall} {v : User}

/-- Calls other than the count of a failure. -/
def Uncounted : Op → Prop
  | .userUpdate _ data => data ≠ recording
  | _ => True

lemma ReadOnly.uncounted {op : Op} (reads : ReadOnly op) : Uncounted op := by
  cases op <;> trivial

lemma Uncounted.unrecorded {h h' : List OwnCall} (ext : Extends Uncounted h h')
    (none : hasRecorded h = false) : hasRecorded h' = false := by
  obtain ⟨new, rfl, all⟩ := ext
  rw [hasRecorded, List.any_append, Bool.or_eq_false_iff]
  refine ⟨?_, none⟩
  rw [List.any_eq_false]
  rintro ⟨op, r⟩ mem
  have uncounted := all _ mem
  cases op with
  | userUpdate id data =>
    cases r with
    | ok u =>
      have other : data ≠ recording := uncounted
      simpa using other
    | error e => simp
  | _ => simp

lemma reads_loginMay {op : Op} (reads : ReadOnly op) (none : hasRecorded h = false) :
    LoginMay emailHash h op := by
  cases op <;> first | exact none | trivial

/-- A part that only reads may stand anywhere before a failure is counted. -/
lemma reads_obeys {α : Type} {p : Task α} (uses : p.Uses ReadOnly) (none : hasRecorded h = false) :
    p.Obeys (LoginMay emailHash) (fun h' _ => Extends ReadOnly h h') h :=
  uses_obeys uses fun _ _ ext reads =>
    reads_loginMay reads (Uncounted.unrecorded (ext.mono fun _ => ReadOnly.uncounted) none)

lemma refuse_obeys {α : Type} {p : Task Unit} {e : Failure} (uses : p.Uses ReadOnly)
    (none : hasRecorded h = false) :
    (p >>= fun _ => Prog.throw e : Task α).Obeys (LoginMay emailHash) Anything h :=
  obeys_bind (reads_obeys uses none) fun _ _ _ => trivial

/-- The row that the login has read, while it has not counted a failure. -/
structure Holding (emailHash : String) (h : List OwnCall) (v : User) : Prop where
  read : (⟨.userFindByEmailHash emailHash, .ok (some v)⟩ : OwnCall) ∈ h
  none : hasRecorded h = false

lemma Holding.later (holding : Holding emailHash h v) (ext : Extends Uncounted h h') :
    Holding emailHash h' v :=
  ⟨ext.mem holding.read, Uncounted.unrecorded ext holding.none⟩

lemma verify_loginMay {password : String} (holding : Holding emailHash h v)
    (first : h.countP isDerivation = 0) :
    (PasswordService.verify v.passwordHash password).Obeys (LoginMay emailHash)
      (fun h' _ => Holding emailHash h' v ∧ h'.countP isDerivation ≤ 1) h := by
  unfold PasswordService.verify
  split
  · exact ⟨holding, by omega⟩
  · rename_i parsed hparsed
    refine obeys_bind (M := fun h' _ => Holding emailHash h' v ∧ h'.countP isDerivation ≤ 1)
      (perform_bind_obeys holding.none fun r => ?_) fun h' _ hM => hM
    have after : Holding emailHash (⟨.argon2 password parsed.salt parsed.params, r⟩ :: h) v ∧
        (⟨.argon2 password parsed.salt parsed.params, r⟩ :: h).countP isDerivation ≤ 1 := by
      refine ⟨holding.later ((Extends.refl _ _).cons trivial), ?_⟩
      rw [List.countP_cons, first]
      exact Nat.le_refl _
    cases r with
    | ok candidate => exact after
    | error e => trivial

lemma registerFailedLogin_loginMay (holding : Holding emailHash h v)
    (few : h.countP isDerivation ≤ 1) :
    (registerFailedLogin v.id).Obeys (LoginMay emailHash) Anything h := by
  refine await_bind_obeys (M := fun h' r => h' = ⟨.userUpdate v.id recording, r⟩ :: h)
    (perform_obeys ⟨⟨v, holding.read, rfl⟩, .inl ⟨rfl, few⟩⟩ fun _ => rfl) ?_
  rintro h₁ u rfl
  split
  · refine await_bind_obeys (M := Anything) (perform_obeys ⟨⟨v, ?_, rfl⟩, .inr (.inl rfl)⟩
      fun _ => trivial) fun _ _ _ => trivial
    exact List.mem_cons_of_mem _ holding.read
  · trivial

lemma acceptLogin_loginMay {password : String} {userAgent : Option String}
    (holding : Holding emailHash h v) :
    (acceptLogin env v password userAgent).Obeys (LoginMay emailHash) Anything h := by
  have clears : (clearFailures v).Obeys (LoginMay emailHash)
      (fun h' _ => Holding emailHash h' v) h := by
    unfold clearFailures
    split
    · refine await_bind_obeys (M := fun h' r => h' = ⟨.userUpdate v.id clearing, r⟩ :: h)
        (perform_obeys ⟨⟨v, holding.read, rfl⟩, .inr (.inr (.inl rfl))⟩ fun _ => rfl) ?_
      rintro h₁ u rfl
      exact holding.later ((Extends.refl _ _).cons (by decide : clearing ≠ recording))
    · exact holding
  have rehashes : ∀ h₁, Holding emailHash h₁ v →
      (rehash v password).Obeys (LoginMay emailHash) Anything h₁ := by
    intro h₁ holding₁
    unfold rehash
    split
    · refine obeys_bind (reads_obeys (hash_uses password) holding₁.none) fun h₂ hash ext => ?_
      have holding₂ := holding₁.later (ext.mono fun _ => ReadOnly.uncounted)
      exact await_bind_obeys (M := Anything) (perform_obeys
        ⟨⟨v, holding₂.read, rfl⟩, .inr (.inr (.inr ⟨hash, rfl⟩))⟩ fun _ => trivial)
          fun _ _ _ => trivial
    · trivial
  refine obeys_bind clears fun h₁ _ holding₁ => obeys_bind (rehashes h₁ holding₁) fun h₂ _ _ => ?_
  have creates :
    (SessionsService.create env v.id userAgent).Obeys (LoginMay emailHash) Anything h₂ :=
    perform_bind_obeys trivial fun _ => perform_bind_obeys trivial fun _ =>
      await_bind_obeys (M := Anything) (perform_obeys trivial fun _ => trivial) fun _ _ _ => trivial
  refine obeys_bind creates fun h₃ _ _ => perform_bind_obeys trivial fun _ => ?_
  cases UsersService.toProfile env v <;> trivial

/-- Calls up to the lock check. -/
def Early : Op → Prop
  | .jwtVerify _ | .sessionFindFirst _ | .userFindByEmailHash _ | .now => True
  | _ => False

lemma Early.first (early : ∀ k ∈ h, Early k.op) :
    hasRecorded h = false ∧ h.countP isDerivation = 0 := by
  refine ⟨List.any_eq_false.mpr ?_, List.countP_eq_zero.mpr ?_⟩
  · rintro ⟨op, r⟩ mem
    have := early _ mem
    cases op <;> first | exact this.elim | simp
  · rintro ⟨op, r⟩ mem
    have := early _ mem
    cases op <;> first | exact this.elim | simp [isDerivation]

lemma login_loginMay {dto : LoginDto} {userAgent : Option String}
    (guarded : ∀ k ∈ h, GuardOp k.op) :
    (login env dto userAgent).Obeys (LoginMay (UsersService.emailHash env dto.email))
      Anything h := by
  have early : ∀ k ∈ h, Early k.op := by
    rintro ⟨op, r⟩ mem
    have := guarded _ mem
    cases op <;> trivial
  refine await_bind_obeys (M := fun h' r => h' = ⟨.userFindByEmailHash
    (UsersService.emailHash env dto.email), r⟩ :: h) (perform_obeys trivial fun _ => rfl) ?_
  rintro h₁ found rfl
  have early₁ : ∀ k ∈ (⟨.userFindByEmailHash (UsersService.emailHash env dto.email), .ok found⟩ :
      OwnCall) :: h, Early k.op := List.forall_mem_cons.mpr ⟨trivial, early⟩
  cases found with
  | none => exact refuse_obeys (verifyAgainstDummy_uses _) (Early.first early₁).1
  | some v =>
    refine obeys_bind (M := fun h' _ => (∀ k ∈ h', Early k.op) ∧ (⟨.userFindByEmailHash
      (UsersService.emailHash env dto.email), .ok (some v)⟩ : OwnCall) ∈ h') ?_ ?_
    · unfold isLocked
      split
      · exact ⟨early₁, List.mem_cons_self⟩
      · exact perform_bind_obeys trivial fun now => ⟨List.forall_mem_cons.mpr ⟨trivial, early₁⟩,
          List.mem_cons_of_mem _ List.mem_cons_self⟩
    · rintro h₂ locked ⟨early₂, read⟩
      obtain ⟨none, first⟩ := Early.first early₂
      cases locked with
      | true => exact refuse_obeys (verifyAgainstDummy_uses _) none
      | false =>
        refine obeys_bind (verify_loginMay ⟨read, none⟩ first) ?_
        rintro h₃ matched ⟨holding, few⟩
        cases matched with
        | true => exact acceptLogin_loginMay holding
        | false => exact obeys_bind (registerFailedLogin_loginMay holding few) fun _ _ _ => trivial

/-- A login request obeys the rule from its first call on. -/
lemma serve_loginMay {req : Request} {dto : LoginDto} (isLogin : req.handler = .login dto) :
    (serve env req).Obeys (LoginMay (UsersService.emailHash env dto.email)) Anything [] := by
  refine obeys_bind (uses_obeys (guards_uses _ _) ?_) ?_
  · intro h' op ext guarded
    exact reads_loginMay guarded.readOnly
      (Uncounted.unrecorded (ext.mono fun _ guarded => guarded.readOnly.uncounted) rfl)
  · intro h user ext
    have guarded : ∀ k ∈ h, GuardOp k.op := by
      intro k hk
      exact (ext.mem_or hk).resolve_left List.not_mem_nil
    unfold handle
    rw [isLogin]
    exact obeys_bind (login_loginMay guarded) fun _ _ _ => trivial

end Protocol

section Counting
variable {env : Env} {reqs : Nat → Request} {e : ServerEvent} {history : List ServerEvent} {i : Nat}

lemma guessEvents_guess (made : derived e.call = true)
    (guess : isGuess env (reqs e.who) (own e.who history) e.call.op = true) :
    guessEvents env reqs (e :: history) = e :: guessEvents env reqs history := by
  simp [guessEvents, made, guess]

lemma guessEvents_other
    (other : (derived e.call && isGuess env (reqs e.who) (own e.who history) e.call.op) = false) :
    guessEvents env reqs (e :: history) = guessEvents env reqs history := by
  simp [guessEvents, other]

lemma hasRecorded_cons {k : OwnCall} {h : List OwnCall} (other : hasRecorded [k] = false) :
    hasRecorded (k :: h) = hasRecorded h := by
  simp only [hasRecorded, List.any_cons, List.any_nil, Bool.or_false] at other ⊢
  rw [other, Bool.false_or]

lemma hasRecorded_own (other : hasRecorded [e.call] = false) (j : Nat) :
    hasRecorded (own j (e :: history)) = hasRecorded (own j history) := by
  obtain ⟨who, ch, call⟩ := e
  by_cases mine : who = j
  · subst mine
    rw [own_cons_self, hasRecorded_cons other]
  · rw [own_cons_other mine]

lemma unrecorded_other
    (noGuess : (derived e.call && isGuess env (reqs e.who) (own e.who history) e.call.op) = false)
    (noRecord : hasRecorded [e.call] = false) :
    unrecorded env reqs (e :: history) = unrecorded env reqs history := by
  rw [unrecorded, unrecorded, guessEvents_other noGuess]
  simp only [hasRecorded_own noRecord]

lemma unrecorded_guess (made : derived e.call = true)
    (guess : isGuess env (reqs e.who) (own e.who history) e.call.op = true)
    (before : hasRecorded (own e.who history) = false) :
    unrecorded env reqs (e :: history) = unrecorded env reqs history + 1 := by
  have noRecord : hasRecorded [e.call] = false := by
    obtain ⟨who, ch, op, r⟩ := e
    cases op <;> first | rfl | cases made
  rw [unrecorded, unrecorded, guessEvents_guess made guess]
  simp only [hasRecorded_own noRecord, List.countP_cons, before, Bool.not_false, if_true]

lemma countP_le_add {α : Type} {p q r : α → Bool} (l : List α)
    (covers : ∀ a, p a = true → q a = true ∨ r a = true) :
    l.countP p ≤ l.countP q + l.countP r := by
  induction l with
  | nil => simp
  | cons a l ih =>
    simp only [List.countP_cons]
    by_cases hp : p a = true
    · rcases covers a hp with hq | hr
      · simp only [hp, hq, if_true]
        omega
      · simp only [hp, hr, if_true]
        omega
    · simp only [hp, Bool.false_eq_true, if_false]
      omega

/-- A request guesses no more often than it derives. -/
lemma guesses_own_le (history : List ServerEvent) (i : Nat) :
    (guessEvents env reqs history).countP (fun e => e.who = i) ≤
      (own i history).countP isDerivation := by
  induction history with
  | nil => exact Nat.le_refl _
  | cons e history ih =>
    obtain ⟨who, ch, op, r⟩ := e
    rw [guessEvents]
    by_cases mine : who = i
    · subst mine
      rw [own_cons_self, List.countP_cons]
      split
      · rename_i guess
        have derivation : isDerivation ⟨op, r⟩ = true := by
          cases op <;> first | rfl | simp [derived] at guess
        simp only [List.countP_cons, decide_true, derivation, if_true]
        omega
      · omega
    · rw [own_cons_other mine]
      split
      · simp only [List.countP_cons, mine, decide_false, Bool.false_eq_true, if_false]
        omega
      · exact ih

/-- To count a failure takes at most one guess off the unrecorded ones. -/
lemma unrecorded_record {ch : Choice} {id : Uuid} {r : Except PrismaError User}
    (few : (own i history).countP isDerivation ≤ 1) :
    unrecorded env reqs history ≤
      unrecorded env reqs (⟨i, ch, ⟨.userUpdate id recording, r⟩⟩ :: history) + 1 := by
  have noGuess : guessEvents env reqs (⟨i, ch, ⟨.userUpdate id recording, r⟩⟩ :: history) =
      guessEvents env reqs history := guessEvents_other rfl
  have covers : ∀ e : ServerEvent, (!hasRecorded (own e.who history)) = true →
      (!hasRecorded (own e.who (⟨i, ch, ⟨.userUpdate id recording, r⟩⟩ :: history))) = true ∨
        decide (e.who = i) = true := by
    intro e before
    by_cases mine : e.who = i
    · exact .inr (by simp [mine])
    · rw [own_cons_other (Ne.symm mine)]
      exact .inl before
  have le := countP_le_add (guessEvents env reqs history) covers
  have own_le : (guessEvents env reqs history).countP (fun e => e.who = i) ≤
      (own i history).countP isDerivation := guesses_own_le history i
  rw [unrecorded, unrecorded, noGuess]
  omega

end Counting

/-- The row of the account beside a guarded history of what was done to it. -/
structure Disciplined (env : Env) (reqs : Nat → Request) (emailHash : String) (id : Uuid)
    (w : World) (history : List ServerEvent) (u : User) (acts : List (Nat × Act)) : Prop where
  byEmail : w.account emailHash = some u
  byId : w.users.find? (·.id = id) = some u
  guarded : Guarded MAX_FAILED_LOGINS WINDOW acts w.clock
    (u.failedLoginAttempts + unrecorded env reqs history) u.lockedUntil
  counted : ∀ start, (guessEvents env reqs history).countP
    (fun e => Within WINDOW start e.choice.now) ≤ guesses WINDOW start acts
  cleared : ∀ act ∈ acts, act.2 = .clear → ∃ e ∈ history, Clears e ∧ e.choice.now = act.1

section Steps
variable {env : Env} {reqs : Nat → Request} {emailHash : String} {id : Uuid} {w w' : World}
  {history : List ServerEvent} {u : User} {acts : List (Nat × Act)} {i : Nat} {ch : Choice}
    {op : Op}
  {r : op.Res}

/-- A call that is neither a guess nor a change of the row. -/
lemma Disciplined.kept (disciplined : Disciplined env reqs emailHash id w history u acts)
    (spends : Spends ch w w') (users : w'.users = w.users)
    (noGuess : (derived ⟨op, r⟩ && isGuess env (reqs i) (own i history) op) = false)
    (noRecord : hasRecorded [⟨op, r⟩] = false) :
    Disciplined env reqs emailHash id w' (⟨i, ch, ⟨op, r⟩⟩ :: history) u acts := by
  obtain ⟨byEmail, byId, guarded, counted, cleared⟩ := disciplined
  refine ⟨by rw [World.account, users]; exact byEmail, users ▸ byId, ?_, ?_, ?_⟩
  · rw [unrecorded_other noGuess noRecord]
    exact .pass guarded (spends.clock ▸ spends.later) (Nat.le_refl _)
  · rw [guessEvents_other noGuess]
    exact counted
  · intro act mem clear
    obtain ⟨e, he, clears⟩ := cleared act mem clear
    exact ⟨e, List.mem_cons_of_mem _ he, clears⟩

/-- A guess that is covered. -/
lemma Disciplined.guessed (disciplined : Disciplined env reqs emailHash id w history u acts)
    (spends : Spends ch w w') (users : w'.users = w.users) (made : derived ⟨op, r⟩ = true)
    (guess : isGuess env (reqs i) (own i history) op = true)
    (before : hasRecorded (own i history) = false)
    (unlocked : ∀ lockedUntil, u.lockedUntil = some lockedUntil → lockedUntil ≤ ch.now)
    (room : u.failedLoginAttempts + unrecorded env reqs history < MAX_FAILED_LOGINS) :
    Disciplined env reqs emailHash id w' (⟨i, ch, ⟨op, r⟩⟩ :: history) u
      ((ch.now, .guess) :: acts) := by
  obtain ⟨byEmail, byId, guarded, counted, cleared⟩ := disciplined
  refine ⟨by rw [World.account, users]; exact byEmail, users ▸ byId, ?_, ?_, ?_⟩
  · have more : unrecorded env reqs (⟨i, ch, ⟨op, r⟩⟩ :: history) =
        unrecorded env reqs history + 1 := unrecorded_guess made guess before
    rw [more, ← Nat.add_assoc, spends.clock]
    exact .guess guarded spends.later unlocked room
  · intro start
    have same : guessEvents env reqs (⟨i, ch, ⟨op, r⟩⟩ :: history) =
        ⟨i, ch, ⟨op, r⟩⟩ :: guessEvents env reqs history := guessEvents_guess made guess
    have le := counted start
    rw [same, List.countP_cons]
    by_cases here : Within WINDOW start ch.now
    · rw [guesses_guess here]
      simp only [here, decide_true, if_true]
      omega
    · rw [guesses_outside here]
      simp only [here, decide_false, Bool.false_eq_true, if_false]
      omega
  · intro act mem clear
    rcases List.mem_cons.mp mem with rfl | mem
    · cases clear
    · obtain ⟨e, he, clears⟩ := cleared act mem clear
      exact ⟨e, List.mem_cons_of_mem _ he, clears⟩

/-- An update of the row by a login. -/
lemma Disciplined.updated {data : UserChanges}
    {r : Except PrismaError User} (disciplined : Disciplined env reqs emailHash id w history u acts)
    (may : LoginMay emailHash (own i history) (.userUpdate id data))
    (answered : exec env ch (.userUpdate id data) w = some (r, w')) :
    ∃ u' acts', Disciplined env reqs emailHash id w'
      (⟨i, ch, ⟨.userUpdate id data, r⟩⟩ :: history) u' acts' := by
  have spends := exec_spends answered
  have noGuess : (derived ⟨.userUpdate id data, r⟩ &&
      isGuess env (reqs i) (own i history) (.userUpdate id data)) = false := rfl
  cases exec_userUpdate answered with
  | failed _ users => exact ⟨u, acts, disciplined.kept spends users noGuess rfl⟩
  | missing _ _ users => exact ⟨u, acts, disciplined.kept spends users noGuess rfl⟩
  | taken _ _ _ _ _ _ users => exact ⟨u, acts, disciplined.kept spends users noGuess rfl⟩
  | updated _ v found _ users =>
    obtain ⟨byEmail, byId, guarded, counted, cleared⟩ := disciplined
    obtain rfl := Option.some.inj (byId.symm.trans found)
    have sameId : u.id = id := by simpa using List.find?_some byId
    obtain ⟨_, kinds⟩ := may
    have hash : data.emailHash = none := by
      rcases kinds with ⟨rfl, _⟩ | rfl | rfl | ⟨_, rfl⟩ <;> rfl
    have byEmail' : w'.account emailHash = some (data.apply ch.now u) := by
      rw [World.account, users, find?_updated (by simp [hash])]
      rw [World.account] at byEmail
      simp [byEmail, sameId]
    have byId' : w'.users.find? (·.id = id) = some (data.apply ch.now u) := by
      rw [users, find?_updated (by simp), byId]
      simp [sameId]
    have guesses : ∀ start, (guessEvents env reqs (⟨i, ch, ⟨.userUpdate id data,
        .ok (data.apply ch.now u)⟩⟩ :: history)).countP
          (fun e => Within WINDOW start e.choice.now) ≤
          guesses WINDOW start acts := by
      rw [guessEvents_other rfl]
      exact counted
    have older : ∀ act ∈ acts, act.2 = .clear → ∃ e ∈ (⟨i, ch, ⟨.userUpdate id data,
        .ok (data.apply ch.now u)⟩⟩ : ServerEvent) :: history, Clears e ∧ e.choice.now = act.1 := by
      intro act mem clear
      obtain ⟨e, he, clears⟩ := cleared act mem clear
      exact ⟨e, List.mem_cons_of_mem _ he, clears⟩
    have later : w.clock ≤ w'.clock := spends.clock ▸ spends.later
    rcases kinds with ⟨rfl, few⟩ | rfl | rfl | ⟨passwordHash, rfl⟩
    · have le : unrecorded env reqs history ≤
        unrecorded env reqs (⟨i, ch, ⟨.userUpdate id recording,
          .ok (recording.apply ch.now u)⟩⟩ :: history) + 1 := unrecorded_record few
      refine ⟨_, acts, byEmail', byId', .pass guarded later ?_, guesses, older⟩
      have counts : (recording.apply ch.now u).failedLoginAttempts = u.failedLoginAttempts + 1 :=
        rfl
      rw [counts]
      omega
    · refine ⟨_, (ch.now, .lock) :: acts, byEmail', byId', ?_, ?_, ?_⟩
      · rw [spends.clock]
        exact .lock guarded spends.later _
      · intro start
        rw [guesses_other (by decide)]
        exact guesses start
      · intro act mem clear
        rcases List.mem_cons.mp mem with rfl | mem
        · cases clear
        · exact older act mem clear
    · refine ⟨_, (ch.now, .clear) :: acts, byEmail', byId', ?_, ?_, ?_⟩
      · rw [spends.clock]
        exact .clear guarded spends.later _ _
      · intro start
        rw [guesses_other (by decide)]
        exact guesses start
      · intro act mem clear
        rcases List.mem_cons.mp mem with rfl | mem
        · exact ⟨_, List.mem_cons_self, rfl, rfl⟩
        · exact older act mem clear
    · refine ⟨_, acts, byEmail', byId', ?_, guesses, older⟩
      rw [unrecorded_other rfl rfl]
      exact .pass guarded later (Nat.le_refl _)

end Steps

/-- The requests are logins on the account. -/
def LogsIn (env : Env) (emailHash : String) (req : Request) : Prop :=
  ∃ dto, req.handler = .login dto ∧ UsersService.emailHash env dto.email = emailHash

section Runs
variable {env : Env} {reqs : Nat → Request} {emailHash : String} {w : World}

lemma boot_loginMay (logins : ∀ i, LogsIn env emailHash (reqs i)) :
    PoolObeys (fun _ => LoginMay emailHash) (fun _ => Anything) (boot env reqs w) := by
  intro i
  obtain ⟨dto, isLogin, rfl⟩ := logins i
  exact serve_loginMay isLogin

/-- One move of a covered run. -/
lemma disciplined_step {id : Uuid} {c c' : Server} {i : Nat} {ch : Choice}
    (logins : ∀ i, LogsIn env emailHash (reqs i)) (reach : Reachable env reqs w c)
    (before : ∃ u acts, Disciplined env reqs emailHash id c.world c.history u acts)
    (reads : ∀ j v, (⟨.userFindByEmailHash emailHash, .ok (some v)⟩ : OwnCall) ∈ own j c.history →
      v.id = id)
    (covered : Covered env reqs emailHash i ch c) (fired : fire (exec env) i ch c = some c') :
    ∃ u acts, Disciplined env reqs emailHash id c'.world c'.history u acts := by
  have may := leads_poolObeys reach (boot_loginMay logins) i
  obtain ⟨op, next, r, w', head, answered, rfl⟩ := fire_eq_some.mp fired
  rw [head] at may
  obtain ⟨u, acts, disciplined⟩ := before
  have spends := exec_spends answered
  simp only [Covered, head] at covered
  cases op with
  | userUpdate id' data =>
    obtain ⟨⟨v, read, rfl⟩, _⟩ := may.1
    obtain rfl := reads i v read
    exact disciplined.updated may.1 answered
  | argon2 message salt params =>
    have users := (exec_readOnly answered trivial).2
    by_cases guess : (derived ⟨.argon2 message salt params, r⟩ &&
        isGuess env (reqs i) (own i c.history) (.argon2 message salt params)) = true
    · obtain ⟨made, guess⟩ := Bool.and_eq_true_iff.mp guess
      obtain ⟨v, found, room⟩ := (Option.any_eq_true _ _).mp (covered guess)
      obtain rfl := Option.some.inj (disciplined.byEmail.symm.trans found)
      simp only [Bool.and_eq_true, decide_eq_true_eq] at room
      refine ⟨u, _, disciplined.guessed spends users made guess may.1 ?_ room.2⟩
      intro lockedUntil locked
      simpa [locked] using room.1
    · exact ⟨u, acts, disciplined.kept spends users (eq_false_of_ne_true guess) rfl⟩
  | userCreate data => exact may.1.elim
  | userDelete id => exact may.1.elim
  | sessionUpdateMany filter date => exact may.1.elim
  | sessionCreate data =>
    have users : w'.users = c.world.users := by
      cases exec_users answered with
      | kept rows => exact rows
    exact ⟨u, acts, disciplined.kept spends users rfl rfl⟩
  | _ => exact ⟨u, acts, disciplined.kept spends (exec_readOnly answered trivial).2 rfl rfl⟩

lemma reads_step {id : Uuid} {c c' : Server} {i : Nat} {ch : Choice} {u : User}
    (account : c.world.account emailHash = some u) (sameId : u.id = id)
    (reads : ∀ j v, (⟨.userFindByEmailHash emailHash, .ok (some v)⟩ : OwnCall) ∈ own j c.history →
      v.id = id) (fired : fire (exec env) i ch c = some c') (j : Nat) (v : User)
    (read : (⟨.userFindByEmailHash emailHash, .ok (some v)⟩ : OwnCall) ∈ own j c'.history) :
    v.id = id := by
  obtain ⟨op, next, r, w', head, answered, rfl⟩ := fire_eq_some.mp fired
  rcases mem_own_cons.mp read with ⟨_, same⟩ | read
  · cases same
    obtain ⟨_, ⟨_, failed⟩ | found⟩ := exec_userFindByEmailHash answered
    · cases failed
    · rw [World.account] at account
      obtain rfl := Option.some.inj ((Except.ok.inj found).trans account)
      exact sameId
  · exact reads j v read

end Runs

/-- Six logins read the row before any of them compares its password. -/
def Plain.rush : List (Nat × Choice) :=
  (List.range 6).map (fun i => (i, { now := i + 1 })) ++
    (List.range 6).map fun i => (i, { now := i + 7 })

def Plain.guessing (_ : Nat) : Request := Plain.login "guess"

lemma Plain.guessing_logsIn (i : Nat) : LogsIn Plain.env Plain.emailHash (Plain.guessing i) :=
  ⟨_, rfl, rfl⟩

/-- Six wrong passwords are compared within fifteen minutes and no login is accepted. -/
theorem parallel_guesses_exceed_limit :
    ∃ c, (∀ i, LogsIn Plain.env Plain.emailHash (Plain.guessing i)) ∧
      Reachable Plain.env Plain.guessing Plain.world c ∧
      (∀ e ∈ c.history, ¬ Clears e) ∧ c.world.sessions = [] ∧
      MAX_FAILED_LOGINS < (guessEvents Plain.env Plain.guessing c.history).countP
        fun e => Within WINDOW 0 e.choice.now := by
  have shown : ∃ c, Reachable Plain.env Plain.guessing Plain.world c ∧
      ((∀ e ∈ c.history, ¬ Clears e) ∧ c.world.sessions = [] ∧
        MAX_FAILED_LOGINS < (guessEvents Plain.env Plain.guessing c.history).countP
          fun e => Within WINDOW 0 e.choice.now) :=
    play_reaches Plain.rush (by decide +kernel)
  obtain ⟨c, reach, shown⟩ := shown
  exact ⟨c, Plain.guessing_logsIn, reach, shown⟩

/-- If every guess is covered when it is made, at most five wrong passwords are
compared in a half-open interval of fifteen minutes in which no accepted login
clears the failures. -/
theorem guesses_bounded_if_covered (env : Env) (reqs : Nat → Request) (emailHash : String)
    (w : World) (u : User) (account : w.account emailHash = some u)
    (unique : w.users.find? (·.id = u.id) = some u) (logins : ∀ i, LogsIn env emailHash (reqs i))
    (schedule : List (Nat × Choice)) (c : Server)
    (run : play (exec env) schedule (boot env reqs w) = some c)
    (covered : Along (exec env) (Covered env reqs emailHash) schedule (boot env reqs w))
    (since : Nat) (unaccepted : ∀ e ∈ c.history, Clears e → ¬ Within WINDOW since e.choice.now) :
    ((guessEvents env reqs c.history).countP fun e => Within WINDOW since e.choice.now) ≤
      MAX_FAILED_LOGINS := by
  have invariant : (∃ v acts, Disciplined env reqs emailHash u.id c.world c.history v acts) ∧
      ∀ j v, (⟨.userFindByEmailHash emailHash, .ok (some v)⟩ : OwnCall) ∈ own j c.history →
        v.id = u.id := by
    refine along_induction (Q := fun c => (∃ v acts, Disciplined env reqs emailHash u.id c.world
      c.history v acts) ∧ ∀ j v, (⟨.userFindByEmailHash emailHash, .ok (some v)⟩ : OwnCall) ∈
        own j c.history → v.id = u.id) ?_ (leads_refl _) ?_ covered run
    · rintro c c' i ch reach ⟨⟨v, acts, disciplined⟩, reads⟩ here fired
      have sameId : v.id = u.id := by simpa using List.find?_some disciplined.byId
      exact ⟨disciplined_step logins reach ⟨v, acts, disciplined⟩ reads here fired,
        reads_step disciplined.byEmail sameId reads fired⟩
    · exact ⟨⟨u, [], account, unique, .start _ _ _, by simp [boot, start, guessEvents],
        by simp⟩,
        by simp [boot, start]⟩
  obtain ⟨⟨v, acts, disciplined⟩, _⟩ := invariant
  refine Nat.le_trans (disciplined.counted since) (disciplined.guarded.guesses_le ?_)
  intro act mem clear
  obtain ⟨e, he, clears, same⟩ := disciplined.cleared act mem clear
  exact same ▸ unaccepted e he clears

/-- Five logins with a wrong password, all of which read the row before any of them
compares. -/
def Plain.guessTogether : List (Nat × Choice) :=
  (List.range 5).map (·, { now := 1 }) ++ (List.range 5).map (·, { now := 2 }) ++
    (List.range 5).map (·, { now := 3 })

theorem guesses_bounded_if_covered_together :
    ∃ c, play (exec Plain.env) Plain.guessTogether
        (boot Plain.env Plain.guessing Plain.world) = some c ∧
      (guessEvents Plain.env Plain.guessing c.history).length = 5 ∧
      ((guessEvents Plain.env Plain.guessing c.history).countP
        fun e => Within WINDOW 0 e.choice.now) ≤ MAX_FAILED_LOGINS := by
  have shown : (play (exec Plain.env) Plain.guessTogether
      (boot Plain.env Plain.guessing Plain.world)).any (fun c => decide
        ((guessEvents Plain.env Plain.guessing c.history).length = 5 ∧
          ∀ e ∈ c.history, ¬ Clears e)) = true := by decide +kernel
  have covered : Along (exec Plain.env) (Covered Plain.env Plain.guessing Plain.emailHash)
      Plain.guessTogether (boot Plain.env Plain.guessing Plain.world) := by decide +kernel
  obtain ⟨c, played, shown⟩ := (Option.any_eq_true _ _).mp shown
  obtain ⟨five, uncleared⟩ := of_decide_eq_true shown
  exact ⟨c, played, five, guesses_bounded_if_covered Plain.env Plain.guessing Plain.emailHash
    Plain.world Plain.user Plain.freshAccount.byEmail Plain.freshAccount.byId Plain.guessing_logsIn
    Plain.guessTogether c played covered 0 fun e he clears => absurd clears (uncleared e he)⟩

end BajaValle
