import BajaValle.Requests

/-!
# The calls of a refresh

A rotation succeeds in one way: it reads a session, finds it unexpired, claims
it, and inserts the successor. A lost claim never leads to a success.
-/

namespace BajaValle

open CallPrograms Prog SessionsService

variable (env : Env)

/-- The session that a rotation inserts after `s`. -/
def successor (s : Session) (userAgent : Option String) (bytes : Bytes) : NewSession where
  userId := s.userId
  familyId := s.familyId
  tokenHash := hashToken env (tokenText bytes)
  expiresAt := ttlMs env
  userAgent := userAgent.map (slice USER_AGENT_MAX)

/-- The read, the expiry check and the claim of a rotation, latest first. -/
def claiming (refreshToken : String) (s : Session) (u : User) (now n : Nat) : List OwnCall :=
  [⟨revocation (unrevokedSession s.id), .ok n⟩, ⟨.now, now⟩,
    ⟨.sessionFindByTokenHash (hashToken env refreshToken), .ok (some (s, u))⟩]

/-- All calls of a rotation that succeeds, latest first. -/
structure Rotation (refreshToken : String) (userAgent : Option String) (h : List OwnCall)
    (rotated : Rotated) : Prop where
  calls : ∃ s now bytes, now < s.expiresAt ∧ rotated.refreshToken = tokenText bytes ∧
    h = ⟨.sessionCreate (successor env s userAgent bytes), .ok rotated.session⟩ ::
      ⟨.randomBytes TOKEN_BYTES, bytes⟩ :: claiming env refreshToken s rotated.user now 1

variable {env}

/-- The request has read the clock before this time. -/
def ReadBefore (h : List OwnCall) (time : Nat) : Prop :=
  ∃ now, (⟨.now, now⟩ : OwnCall) ∈ h ∧ now < time

/-- Queries and readings that draw nothing. -/
def DrawsNothing : Op → Prop
  | .randomUUID | .randomBytes _ | .userCreate _ | .sessionCreate _ | .dummyAwait => False
  | _ => True

/-- Reuse only reads and revokes, and never returns. -/
lemma reuse_never {may : List OwnCall → Op → Prop} {post : List OwnCall → Unit → Prop}
    {h : List OwnCall} (allowed : ∀ h op, DrawsNothing op → may h op) (s : Session) :
    (reuse s).Obeys may post h := by
  have closes : ∀ h : List OwnCall,
      (revokeFamily s.familyId >>= fun _ => Prog.throw sessionInvalid : Task Unit).Obeys
        may post h := fun h =>
    ⟨allowed _ _ trivial, fun r => by cases r <;> trivial⟩
  refine await_bind_obeys (M := Anything) ⟨allowed _ _ trivial, fun _ => trivial⟩ fun _ used _ => ?_
  split
  · refine perform_bind_obeys (allowed _ _ trivial) fun _ => ?_
    split
    · trivial
    · exact closes _
  · exact closes _

theorem rotate_returns (refreshToken : String) (userAgent : Option String) :
    (rotate env refreshToken userAgent).Obeys (fun _ _ => True)
      (fun h rotated => Rotation env refreshToken userAgent h rotated) [] := by
  refine await_bind_obeys (M := fun h r => h = [⟨.sessionFindByTokenHash
    (hashToken env refreshToken), r⟩]) ⟨trivial, fun _ => rfl⟩ ?_
  rintro h₁ (_ | ⟨s, u⟩) rfl
  · trivial
  refine perform_bind_obeys trivial fun now => ?_
  split
  · trivial
  rename_i unexpired
  refine await_bind_obeys (M := fun h r => ∀ n, r = .ok n → h = claiming env refreshToken s u now n)
    ⟨trivial, ?_⟩ ?_
  · rintro _ n rfl
    rfl
  intro h₂ n calls
  obtain rfl := calls n rfl
  split
  · exact obeys_bind (M := fun _ _ => False) (reuse_never (fun _ _ _ => trivial) s)
      fun _ _ never => never.elim
  rename_i won
  obtain rfl : n = 1 := not_not.mp won
  have inserts : (createIn env s.userId userAgent s.familyId).Obeys (fun _ _ => True)
      (fun h made => ∃ bytes, made.2 = tokenText bytes ∧
        h = ⟨.sessionCreate (successor env s userAgent bytes), .ok made.1⟩ ::
          ⟨.randomBytes TOKEN_BYTES, bytes⟩ :: claiming env refreshToken s u now 1)
      (claiming env refreshToken s u now 1) := by
    refine perform_bind_obeys trivial fun bytes => ?_
    refine await_bind_obeys (M := fun h r => ∀ new, r = .ok new → h =
      ⟨.sessionCreate (successor env s userAgent bytes), .ok new⟩ ::
        ⟨.randomBytes TOKEN_BYTES, bytes⟩ :: claiming env refreshToken s u now 1) ⟨trivial, ?_⟩ ?_
    · rintro _ new rfl
      rfl
    · exact fun h₃ new calls => ⟨bytes, rfl, calls new rfl⟩
  refine obeys_bind inserts ?_
  rintro h₃ ⟨new, token⟩ ⟨bytes, issued, calls⟩
  exact ⟨s, now, bytes, by simpa using unexpired, issued, calls⟩

/-- The guards let a refresh pass without a call. -/
lemma serve_refresh {req : Request} {refreshToken : String}
    (isRefresh : req.handler = .refresh refreshToken) :
    serve env req = Answer.tokens <$> AuthService.refresh env refreshToken req.userAgent := by
  have passed : guards req.handler.route req.authorization = .ret none := by
    rw [isRefresh]
    rfl
  rw [serve, passed]
  simp only [ret_bind, handle, isRefresh]

/-- What a refresh that answered has called. -/
theorem refresh_returns {req : Request} {refreshToken : String}
    (isRefresh : req.handler = .refresh refreshToken) :
    (serve env req).Obeys (fun _ _ => True) (fun h _ => ∃ payload accessToken rotated rotation,
      h = ⟨.jwtSign payload, accessToken⟩ :: rotation ∧
        Rotation env refreshToken req.userAgent rotation rotated) [] := by
  rw [serve_refresh isRefresh]
  refine obeys_bind (obeys_bind (rotate_returns refreshToken req.userAgent) ?_) fun _ _ ends => ends
  rintro h rotated rotation
  exact perform_bind_obeys trivial fun accessToken => ⟨_, accessToken, rotated, h, rfl, rotation⟩

/-- A refresh that answered has revoked no family. -/
lemma serve_spares_family (req : Request) :
    (serve env req).Obeys (fun _ _ => True) (fun h _ => ∀ token, req.handler = .refresh token →
      ∀ familyId n, (⟨revocation (unrevokedFamily familyId), n⟩ : OwnCall) ∉ h) [] := by
  by_cases isRefresh : ∃ token, req.handler = .refresh token
  · obtain ⟨token, isRefresh⟩ := isRefresh
    refine (refresh_returns isRefresh).mono (fun _ _ hk => hk) ?_
    rintro h answer ⟨payload, accessToken, rotated, rotation, rfl, ⟨s, now, bytes, _, _, rfl⟩⟩
      _ _ familyId n mem
    simp only [claiming, List.mem_cons, List.not_mem_nil, or_false] at mem
    rcases mem with h | h | h | h | h | h <;> cases h
  · refine (serve_obeys env req).mono (fun _ _ _ => trivial) fun _ _ _ token hreq => ?_
    exact absurd ⟨token, hreq⟩ isRefresh

/-- What a rotation does after its claim. -/
def afterClaim (env : Env) (userAgent : Option String) (s : Session) (u : User)
    (r : Except PrismaError Nat) : Task Rotated := do
  let claimed ← await (.ret r)
  if claimed ≠ 1 then do
    reuse s
    Prog.throw sessionInvalid
  else do
    let (next, refreshToken) ← createIn env s.userId userAgent s.familyId
    return { session := next, refreshToken, user := u }

lemma rotate_eq (token : String) (userAgent : Option String) : rotate env token userAgent =
    .call (.sessionFindByTokenHash (hashToken env token)) fun
      | .error e => .throw (.prisma e)
      | .ok none => .throw sessionInvalid
      | .ok (some (s, u)) => .call .now fun now =>
        if s.expiresAt ≤ now then .throw sessionInvalid
        else .call (.sessionUpdateMany (unrevokedSession s.id) (.fromNow 0))
          (afterClaim env userAgent s u) := by
  refine congrArg (Prog.call (Op.sessionFindByTokenHash (hashToken env token))) (funext fun r => ?_)
  rcases r with e | _ | ⟨s, u⟩
  · rfl
  · rfl
  · refine congrArg (Prog.call Op.now) (funext fun now => ?_)
    by_cases expired : s.expiresAt ≤ now
    · exact (if_pos expired).trans (if_pos expired).symm
    · exact (if_neg expired).trans (if_neg expired).symm

lemma reuse_eq (s : Session) : reuse s = .call (.sessionFindById s.id) fun
    | .error e => .throw (.prisma e)
    | .ok used => match used.bind (·.revokedAt) with
      | none => revokeFamily s.familyId >>= fun _ => .throw sessionInvalid
      | some revokedAt => .call .now fun now =>
        if now - revokedAt < REUSE_GRACE_MS then .throw sessionInvalid
        else revokeFamily s.familyId >>= fun _ => .throw sessionInvalid := by
  refine congrArg (Prog.call (Op.sessionFindById s.id)) (funext fun r => ?_)
  rcases r with e | _ | ⟨id, userId, tokenHash, familyId, expiresAt, revokedAt⟩
  · rfl
  · rfl
  · cases revokedAt <;> rfl

lemma claiming_inj {token : String} {s s' : Session} {u u' : User} {now now' n n' : Nat}
    (same : claiming env token s u now n = claiming env token s' u' now' n') :
    s = s' ∧ u = u' ∧ n = n' := by
  obtain ⟨claim, same⟩ := List.cons.inj same
  obtain ⟨_, found⟩ := Call.mk.inj (List.cons.inj (List.cons.inj same).2).1
  obtain ⟨rfl, rfl⟩ := Prod.mk.inj (Option.some.inj (Except.ok.inj (eq_of_heq found)))
  obtain ⟨_, count⟩ := Call.mk.inj claim
  exact ⟨rfl, rfl, Except.ok.inj (eq_of_heq count)⟩

/-- A rotation draws only after a claim of its own. -/
lemma rotate_draws (refreshToken : String) (userAgent : Option String) :
    (rotate env refreshToken userAgent).Obeys
      (fun h op => DrawsNothing op ∨ ∃ id, Claimed h id) (fun h _ => ∃ id, Claimed h id) [] := by
  rw [rotate_eq]
  refine ⟨.inl trivial, fun r => ?_⟩
  rcases r with e | _ | ⟨s, u⟩
  · trivial
  · trivial
  refine ⟨.inl trivial, fun now => ?_⟩
  dsimp only
  split
  · trivial
  refine ⟨.inl trivial, fun r => ?_⟩
  rcases r with e | n
  · trivial
  by_cases won : n = 1
  · subst won
    have claimed : ∀ {h : List OwnCall}, (∃ new, h = new ++ claiming env refreshToken s u now 1) →
        ∃ id, Claimed h id := by
      rintro h ⟨new, rfl⟩
      exact ⟨s.id, List.mem_append_right _ (by simp [claiming])⟩
    refine ⟨.inr (claimed ⟨[], rfl⟩), fun bytes => ⟨.inr (claimed ⟨[_], rfl⟩), fun r => ?_⟩⟩
    cases r with
    | error e => trivial
    | ok new => exact claimed ⟨[_, _], rfl⟩
  · have lost : afterClaim env userAgent s u (.ok n) =
      (reuse s >>= fun _ => Prog.throw sessionInvalid) :=
      if_pos won
    rw [lost]
    exact obeys_bind (M := Anything) (reuse_never (fun _ _ drawless => .inl drawless) s)
      fun _ _ _ => trivial

end BajaValle
