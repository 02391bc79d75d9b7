import BajaValle.Tables

/-!
# Whom the guards admit

The guards verify the token of the Authorization header and read the live
session it names, in this order and before the handler calls anything. A
request is admitted by the move that reads the session.
-/

namespace BajaValle

open CallPrograms Prog Interleaving SessionsService

/-- The token of an Authorization header, an empty header counting as none. -/
def carried (authorization : Option String) : Option String :=
  (authorization.filter (· ≠ "")).bind JwtAuthGuard.bearer

def verified (token : String) (payload : AccessTokenPayload) : OwnCall :=
  ⟨.jwtVerify token, some payload⟩

def foundActive (payload : AccessTokenPayload) (s : Session) (u : User) : OwnCall :=
  ⟨.sessionFindFirst (activeSession payload.sid), .ok (some (s, u))⟩

/-- The calls `h`, latest first, admit the user `au`. -/
def Admits (authorization : Option String) (h : List OwnCall) (au : AuthUser) : Prop :=
  ∃ token payload s u, carried authorization = some token ∧
    h = [foundActive payload s u, verified token payload] ∧ s.userId = payload.sub ∧
    au = { id := payload.sub, role := u.role, sessionId := payload.sid }

/-- What the guards have checked when they let a request through. -/
structure Cleared (route : Route) (authorization : Option String) (h : List OwnCall)
    (user : Option AuthUser) : Prop where
  admits : ∀ au, user = some au → Admits authorization h au
  allowed : route.roles ≠ [] → ∃ au, user = some au ∧ au.role ∈ route.roles

section Guards
variable {env : Env} {req : Request} {h : List OwnCall}

lemma authenticate_admits {authorization : Option String} {token : String}
    (carries : carried authorization = some token) :
    (JwtAuthGuard.authenticate token).Obeys (fun _ => GuardOp)
      (fun h au => Admits authorization h au) [] := by
  refine perform_bind_obeys trivial fun payload => ?_
  cases payload with
  | none => trivial
  | some payload =>
    refine await_bind_obeys (M := fun h r => ∀ x, r = .ok x →
      h = [⟨.sessionFindFirst (activeSession payload.sid), .ok x⟩, verified token payload])
      ⟨trivial, ?_⟩ ?_
    · rintro _ x rfl
      rfl
    · rintro h (_ | ⟨s, u⟩) calls
      · trivial
      · dsimp only
        split
        · trivial
        · rename_i owner
          exact ⟨token, payload, s, u, carries, calls _ rfl, not_not.mp owner, rfl⟩

/-- A user is put on the request by both calls of the guard or not at all. -/
lemma canActivate_admits (route : Route) (authorization : Option String) :
    (JwtAuthGuard.canActivate route authorization).Obeys (fun _ => GuardOp)
      (fun h user => ∀ au, user = some au → Admits authorization h au) [] := by
  have nobody : ∀ h au, (none : Option AuthUser) = some au → Admits authorization h au := by
    rintro h au ⟨⟩
  unfold JwtAuthGuard.canActivate
  split
  · exact nobody []
  · split
    · split
      · exact nobody []
      · trivial
    · rename_i header present
      split
      · trivial
      · rename_i token carries
        have carries : carried authorization = some token := by
          rw [carried, present]
          exact carries
        refine obeys_bind (authenticate_admits carries) ?_
        rintro h au admits _ ⟨⟩
        exact admits

theorem guards_clear (route : Route) (authorization : Option String) :
    (guards route authorization).Obeys (fun _ => GuardOp)
      (fun h user => Cleared route authorization h user) [] := by
  refine obeys_bind (canActivate_admits route authorization) fun h user admits => ?_
  cases decided : RolesGuard.canActivate route user with
  | error e => trivial
  | ok _ =>
    refine ⟨admits, fun restricted => ?_⟩
    cases user with
    | none => simp [RolesGuard.canActivate, restricted] at decided
    | some au =>
      refine ⟨au, rfl, ?_⟩
      by_contra other
      simp [RolesGuard.canActivate, restricted, other] at decided

/-- The guards decide on the first calls of the request. -/
lemma Passed.cleared {user : Option AuthUser} (passed : Passed req h user) :
    ∃ first, first <+: h.reverse ∧ Cleared req.handler.route req.authorization first.reverse user ∧
      (guards req.handler.route req.authorization).returned first = some user := by
  obtain ⟨first, before, cleared, calls, same, returns⟩ :=
    (guards_clear req.handler.route req.authorization).returns.of_returned passed
  obtain rfl : first = calls := by simpa using same
  exact ⟨first, before, by simpa using cleared, returns⟩

end Guards

section Runs
variable {env : Env} {reqs : Nat → Request} {w : World} {c c' : Server} {i : Nat}

/-- The move of `i` that reads an active session and thereby admits its user. -/
def AdmittedBetween (env : Env) (reqs : Nat → Request) (c c' : Server) (i : Nat) (au : AuthUser) :
    Prop :=
  ∃ token payload s u, carried (reqs i).authorization = some token ∧ s.userId = payload.sub ∧
    au = { id := payload.sub, role := u.role, sessionId := payload.sid } ∧
    MadeBetween (exec env) c c' i [verified token payload] (foundActive payload s u)

/-- Whoever is admitted later has been admitted before or is so in between. -/
lemma Passed.since {au : AuthUser} (run : Leads (exec env) c c')
    (passed : Passed (reqs i) (own i c'.history) (some au)) :
    Passed (reqs i) (own i c.history) (some au) ∨ AdmittedBetween env reqs c c' i au := by
  obtain ⟨first, before, cleared, returns⟩ := passed.cleared
  obtain ⟨token, payload, s, u, carries, calls, owner, rfl⟩ := cleared.admits au rfl
  obtain rfl : first = [verified token payload, foundActive payload s u] := by
    rw [← List.reverse_reverse first, calls]
    rfl
  by_cases done : (own i c.history).length ≤ 1
  · exact .inr ⟨token, payload, s, u, carries, owner, rfl, leads_made run before done⟩
  · have grown : (own i c.history).reverse <+: (own i c'.history).reverse :=
      List.reverse_prefix.mpr (leads_own_suffix run i)
    have short := List.prefix_of_prefix_length_le before grown (by
      simp only [List.length_cons, List.length_nil, List.length_reverse]
      omega)
    obtain ⟨later, calls⟩ := short
    left
    rw [Passed, ← calls]
    exact returned_append returns later

/-- At first nobody is admitted. -/
lemma not_passed_boot {au : AuthUser} :
    ¬ Passed (reqs i) (own i (boot env reqs w).history) (some au) := by
  intro early
  obtain ⟨first, before, cleared, _⟩ := early.cleared
  obtain rfl := List.prefix_nil.mp before
  obtain ⟨_, _, _, _, _, calls, _⟩ := cleared.admits au rfl
  cases calls

/-- The guard reads a stored session that is live, and its user. -/
lemma read_active {c₁ c₂ : Server} {ch : Choice} {payload : AccessTokenPayload} {s : Session}
    {u : User} (fired : fire (exec env) i ch c₁ = some c₂)
    (history : c₂.history = ⟨i, ch, foundActive payload s u⟩ :: c₁.history) :
    (s ∈ c₁.world.sessions ∧ s.id = payload.sid ∧ s.revokedAt = none ∧ ch.now < s.expiresAt) ∧
      u ∈ c₁.world.users ∧ u.id = s.userId := by
  obtain ⟨op, next, r, w', _, answered, rfl⟩ := fire_eq_some.mp fired
  cases (List.cons.inj history).1
  obtain ⟨stored, held, user⟩ := exec_find_active answered
  exact ⟨⟨stored, activeSession_holds.mp held⟩, user⟩

/-- What the database holds at the move that admits. -/
lemma AdmittedBetween.stored {au : AuthUser} (admitted : AdmittedBetween env reqs c c' i au) :
    ∃ c₁ c₂ ch, Leads (exec env) c c₁ ∧ fire (exec env) i ch c₁ = some c₂ ∧
      Leads (exec env) c₂ c' ∧
      (∃ s ∈ c₁.world.sessions, s.id = au.sessionId ∧ s.userId = au.id ∧ s.revokedAt = none ∧
        ch.now < s.expiresAt) ∧
      ∃ u ∈ c₁.world.users, u.id = au.id ∧ u.role = au.role := by
  obtain ⟨token, payload, s, u, _, owner, rfl, c₁, c₂, ch, before, fired, history, _, after⟩ :=
    admitted
  obtain ⟨⟨stored, id, live, unexpired⟩, hu, user⟩ := read_active fired history
  exact ⟨c₁, c₂, ch, before, fired, after, ⟨s, stored, id, owner, live, unexpired⟩,
    u, hu, user.trans owner, rfl⟩

end Runs

end BajaValle
