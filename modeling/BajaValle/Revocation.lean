import BajaValle.Families

/-!
# Revocations against rotations in flight

A revocation is one bulk update over the rows of that instant, while a rotation
claims in one step and inserts in a later one. Nothing in the scope of a
revocation is live after it as long as no rotation of the scope is between its
two steps at the update; a successor inserted later escapes. The update of a logout
names one session and so misses a successor that is there already.
-/

namespace BajaValle

open CallPrograms Interleaving SessionsService

/-- The sessions that a revoking request is about. -/
inductive Scope where
  | session (id : Uuid)
  | user (id : Uuid)
  | othersOf (userId sessionId : Uuid)
  | family (id : Uuid)

namespace Scope

def covers : Scope → Session → Prop
  | .session id, s => s.id = id
  | .user id, s => s.userId = id
  | .othersOf userId sessionId, s => s.userId = userId ∧ s.id ≠ sessionId
  | .family id, s => s.familyId = id

def filter : Scope → SessionWhere
  | .session id => unrevokedSession id
  | .user id => unrevokedOfUser id none
  | .othersOf userId sessionId => unrevokedOfUser userId (some sessionId)
  | .family id => unrevokedFamily id

/-- The session of the caller, which a password change leaves alone. -/
def spares : Scope → Session → Prop
  | .othersOf _ sessionId, s => s.id = sessionId
  | _, _ => False

@[simp] lemma filter_holds {scope : Scope} {now : Nat} {s : Session} :
    scope.filter.holds now s = true ↔ scope.covers s ∧ s.revokedAt = none := by
  cases scope <;> simp [filter, covers, and_assoc]

@[simp] lemma covers_issued {scope : Scope} {s : Session} :
    scope.covers s.issued ↔ scope.covers s := by
  cases scope <;> rfl

end Scope

/-- The scope of a request that its handler serves for a user. -/
def Handler.scope : Handler → AuthUser → Option Scope
  | .logout, user => some (.session user.sessionId)
  | .logoutAll, user => some (.user user.id)
  | .changePassword _ _, user => some (.othersOf user.id user.sessionId)
  | _, _ => none

/-- The request has answered and was to revoke the scope: a refresh by having
detected reuse and closed the family, the others for the user on the request. -/
def Revoked (env : Env) (reqs : Nat → Request) (c : Server) (i : Nat) (scope : Scope) : Prop :=
  match (reqs i).handler with
  | .refresh token => (c.pool i).outcome = some (.error sessionInvalid) ∧
      ∃ s n, Presented env (own i c.history) token s ∧ scope = .family s.familyId ∧
        (⟨revocation (unrevokedFamily s.familyId), .ok n⟩ : OwnCall) ∈ own i c.history
  | handler => (c.pool i).outcome = some (.ok .noContent) ∧
      ∃ user, Passed (reqs i) (own i c.history) (some user) ∧ handler.scope user = some scope

/-- The scope of a request that starts at `c₀`: the sessions stored then, and
those later produced by rotating one of the scope. -/
inductive InScope (env : Env) (reqs : Nat → Request) (c₀ : Server) (scope : Scope)
    (history : List ServerEvent) : Session → Prop where
  | existing {s : Session} (stored : s ∈ c₀.world.sessions) (covered : scope.covers s) :
      InScope env reqs c₀ scope history s.issued
  | rotated {i : Nat} {old new : Session} (parent : InScope env reqs c₀ scope history old)
      (rotates : Rotates env reqs history i old new) (later : new ∉ births c₀.history)
      (notSpared : ¬ scope.spares new) : InScope env reqs c₀ scope history new

/-- No rotation of the scope is between its claim and its insertion, and none has
claimed the session that a logout is about, which was live when its guard read it. -/
structure Quiet (env : Env) (reqs : Nat → Request) (c₀ c : Server) (scope : Scope) : Prop where
  settled : ∀ i s, InScope env reqs c₀ scope c.history s → Claims reqs c.history i s.id →
    (∃ t, Inserts c.history i t) ∨ (c.pool i).outcome ≠ none
  unclaimed : ∀ id, scope = .session id → ∀ i, ¬ Claims reqs c.history i id

variable {env : Env} {reqs : Nat → Request} {w : World} {c₀ c c' : Server} {scope : Scope}

lemma births_mono (h : Leads (exec env) c c') : births c.history ⊆ births c'.history := by
  intro s hs
  obtain ⟨e, he, hb⟩ := mem_births.mp hs
  exact mem_births.mpr ⟨e, (leads_history_suffix h).subset he, hb⟩

lemma InScope.born (empty : w.sessions = []) (start : Reachable env reqs w c₀)
    (run : Leads (exec env) c₀ c) {s : Session} (h : InScope env reqs c₀ scope c.history s) :
    s ∈ births c.history := by
  cases h with
  | existing stored _ =>
    exact births_mono run ((reachable_lineage empty start).rows _ stored)
  | rotated _ rotates _ _ =>
    obtain ⟨_, _, _, _, inserts⟩ := rotates
    obtain ⟨e, he, _, hb⟩ := inserts_iff.mp inserts
    exact mem_births.mpr ⟨e, he, hb⟩

/-- A successor has the user and the family of the session it succeeds. -/
lemma Rotates.same (reach : Reachable env reqs w c) {i : Nat} {old new : Session}
    (hold : old ∈ births c.history) (lin : Lineage env reqs c.world c.history)
    (rotates : Rotates env reqs c.history i old new) :
    new.userId = old.userId ∧ new.familyId = old.familyId := by
  obtain ⟨token, isRefresh, _, claimed, inserts⟩ := rotates
  obtain ⟨e, he, rfl, hb⟩ := inserts_iff.mp inserts
  have origin := (birth reach he hb).origin
  simp only [Origin, isRefresh] at origin
  obtain ⟨p, read, claimed', user, family⟩ := origin
  have sameId := claims_one reach ⟨⟨token, isRefresh⟩, claimed⟩ ⟨⟨token, isRefresh⟩, claimed'⟩
  obtain rfl : old = p.issued :=
    birth_of_id reach hold (lin.read _ token p read).1 sameId
  exact ⟨user, family⟩

lemma InScope.covered (empty : w.sessions = []) (start : Reachable env reqs w c₀)
    (run : Leads (exec env) c₀ c) (wide : ∀ id, scope ≠ .session id) {s : Session}
    (h : InScope env reqs c₀ scope c.history s) : scope.covers s := by
  have reach := leads_trans start run
  induction h with
  | existing _ covered => exact Scope.covers_issued.mpr covered
  | rotated parent rotates _ notSpared ih =>
    obtain ⟨user, family⟩ :=
      rotates.same reach (parent.born empty start run) (reachable_lineage empty reach)
    cases scope with
    | session id => exact absurd rfl (wide id)
    | user id => exact user.trans ih
    | othersOf userId sessionId => exact ⟨user.trans ih.1, notSpared⟩
    | family id => exact family.trans ih

/-- Without a claim of it a session has no successors. -/
lemma InScope.unrotated {history : List ServerEvent} {id : Uuid} {s : Session}
    (h : InScope env reqs c₀ (.session id) history s)
    (unclaimed : ∀ i, ¬ Claims reqs history i id) : s.id = id := by
  induction h with
  | existing _ covered => exact covered
  | rotated _ rotates _ _ ih =>
    obtain ⟨token, isRefresh, _, claimed, _⟩ := rotates
    rw [ih] at claimed
    exact absurd ⟨⟨token, isRefresh⟩, claimed⟩ (unclaimed _)

section Step
variable {i : Nat} {ch : Choice}

/-- A rotation of a session born before a move was over before it. -/
lemma Rotates.before (reach : Reachable env reqs w c) (fired : fire (exec env) i ch c = some c')
    {j : Nat} {old new : Session} (hnew : new ∈ births c.history)
    (rotates : Rotates env reqs c'.history j old new) : Rotates env reqs c.history j old new := by
  have may := leads_poolObeys reach (boot_obeys env reqs w) i
  obtain ⟨op, next, r, w', head, answered, rfl⟩ := fire_eq_some.mp fired
  rw [head] at may
  obtain ⟨token, isRefresh, hash, claimed, k, hk, hb⟩ := rotates
  have older : Inserts c.history j new := by
    rcases mem_own_cons.mp hk with ⟨_, rfl⟩ | hk
    · obtain ⟨e, he, hb'⟩ := mem_births.mp hnew
      exact absurd (drawnUuid_used reach he (born_drawn hb'))
        (exec_drawnUuid answered (born_drawn hb)).1
    · exact ⟨k, hk, hb⟩
  refine ⟨token, isRefresh, hash, ?_, older⟩
  rcases mem_own_cons.mp claimed with ⟨rfl, call⟩ | claimed
  · cases call
    obtain ⟨_, _, _, calls, _⟩ := may.1.2.claiming isRefresh
    obtain ⟨k, hk, hb⟩ := older
    simp only [calls, List.mem_cons, List.not_mem_nil, or_false] at hk
    rcases hk with rfl | rfl <;> cases hb
  · exact claimed

/-- A claimed session was born before the claim. -/
lemma claimed_born (empty : w.sessions = []) (reach : Reachable env reqs w c)
    (later : Leads (exec env) c c') {j : Nat} {s : Session}
    (claims : Claims reqs c.history j s.id) (hs : s ∈ births c'.history) :
    s ∈ births c.history := by
  have lin := reachable_lineage empty reach
  obtain ⟨_, p, _, read, hid⟩ := lin.claimRead j s.id claims
  have hp := (lin.read j _ p read).1
  obtain rfl : p.issued = s :=
    birth_of_id (leads_trans reach later) (births_mono later hp) hs hid
  exact hp

/-- No move puts a session born before it into the scope. -/
lemma InScope.before (empty : w.sessions = []) (start : Reachable env reqs w c₀)
    (run : Leads (exec env) c₀ c) (fired : fire (exec env) i ch c = some c') {s : Session}
    (hs : s ∈ births c.history) (h : InScope env reqs c₀ scope c'.history s) :
    InScope env reqs c₀ scope c.history s := by
  have reach := leads_trans start run
  have next := leads_of_fire fired
  induction h with
  | existing stored covered => exact .existing stored covered
  | rotated parent rotates later notSpared ih =>
    have rotates := rotates.before reach fired hs
    obtain ⟨token, isRefresh, _, claimed, _⟩ := id rotates
    have hold := claimed_born empty reach next ⟨⟨token, isRefresh⟩, claimed⟩
      (parent.born empty start (leads_trans run next))
    exact .rotated (ih hold) rotates later notSpared

/-- What holds from the update on: the stored sessions of the scope are revoked
and none of its rotations is left between claim and insertion. -/
structure Closed (env : Env) (reqs : Nat → Request) (c₀ : Server) (scope : Scope) (c : Server) :
    Prop where
  revoked : ∀ s ∈ c.world.sessions, InScope env reqs c₀ scope c.history s.issued →
    s.revokedAt ≠ none
  settled : ∀ i s, InScope env reqs c₀ scope c.history s → Claims reqs c.history i s.id →
    (∃ t, Inserts c.history i t) ∨ (c.pool i).outcome ≠ none

/-- The part of `Closed` about rotations that no new claim can break. -/
lemma settled_step (fired : fire (exec env) i ch c = some c') {j : Nat}
    (h : (∃ t, Inserts c.history j t) ∨ (c.pool j).outcome ≠ none) :
    (∃ t, Inserts c'.history j t) ∨ (c'.pool j).outcome ≠ none := by
  obtain ⟨op, next, r, w', head, answered, rfl⟩ := fire_eq_some.mp fired
  rcases h with ⟨t, inserts⟩ | ended
  · exact .inl ⟨t, inserts.cons⟩
  · right
    by_cases hj : j = i
    · subst hj
      rw [head] at ended
      exact absurd rfl ended
    · simpa [Function.update_of_ne hj] using ended

/-- Only a rotation left between its two steps could insert into the scope. -/
lemma Closed.not_inserted (empty : w.sessions = []) (start : Reachable env reqs w c₀)
    (run : Leads (exec env) c₀ c) (closed : Closed env reqs c₀ scope c) {op : Op} {r : op.Res}
    {next : op.Res → Task Answer} {w' : World} (head : c.pool i = .call op next)
    (answered : exec env ch op c.world = some (r, w')) {s : Session}
    (inserted : born ⟨op, r⟩ = some s)
    (fired : fire (exec env) i ch c = some ⟨w', Function.update c.pool i (next r),
      ⟨i, ch, ⟨op, r⟩⟩ :: c.history⟩) :
    ¬ InScope env reqs c₀ scope (⟨i, ch, ⟨op, r⟩⟩ :: c.history) s := by
  intro hin
  have reach := leads_trans start run
  have may := leads_poolObeys reach (boot_obeys env reqs w) i
  rw [head] at may
  have fresh : s ∉ births c.history := by
    intro hs
    obtain ⟨e, he, hb⟩ := mem_births.mp hs
    exact (exec_drawnUuid answered (born_drawn inserted)).1
      (drawnUuid_used reach he (born_drawn hb))
  cases hin with
  | existing stored _ =>
    exact fresh (births_mono run ((reachable_lineage empty start).rows _ stored))
  | @rotated j old _ parent rotates _ _ =>
    obtain ⟨token, isRefresh, _, claimed, k, hk, hb⟩ := rotates
    rcases mem_own_cons.mp hk with ⟨rfl, rfl⟩ | hk
    · have claims : Claims reqs c.history i old.id := by
        rcases claims_cons (⟨⟨token, isRefresh⟩, claimed⟩ : Claims reqs _ i old.id) with
          older | ⟨_, _, call⟩
        · exact older
        · rw [call] at inserted
          cases inserted
      have hold := claimed_born empty reach (leads_of_fire fired) claims
        (parent.born empty start (leads_trans run (leads_of_fire fired)))
      rcases closed.settled i old (parent.before empty start run fired hold) claims with
        ⟨t, k, hk, hb⟩ | ended
      · exact may.1.unborn (born_isInsert inserted) k hk (born_isInsert hb)
      · rw [head] at ended
        exact ended rfl
    · obtain ⟨e, he, _, hb⟩ := inserts_iff.mp ⟨k, hk, hb⟩
      exact fresh (mem_births.mpr ⟨e, he, hb⟩)

lemma Closed.step (empty : w.sessions = []) (start : Reachable env reqs w c₀)
    (run : Leads (exec env) c₀ c) (closed : Closed env reqs c₀ scope c)
    (fired : fire (exec env) i ch c = some c') : Closed env reqs c₀ scope c' := by
  have reach := leads_trans start run
  have lin := reachable_lineage empty reach
  have may := leads_poolObeys reach (boot_obeys env reqs w) i
  have before := fun s hs (h : InScope env reqs c₀ scope c'.history s) =>
    h.before (s := s) empty start run fired hs
  have born := fun s (h : InScope env reqs c₀ scope c'.history s) =>
    h.born (s := s) empty start (leads_trans run (leads_of_fire fired))
  have older := fun j s (h : InScope env reqs c₀ scope c.history s) hc =>
    settled_step fired (closed.settled j s h hc)
  have claimed := fun j s hc (hs : s ∈ births c'.history) =>
    claimed_born empty reach (leads_of_fire fired) (j := j) (s := s) hc hs
  obtain ⟨op, next, r, w', head, answered, rfl⟩ := fire_eq_some.mp fired
  rw [head] at may
  constructor
  · intro s' hs' hin
    rcases rows_after may.1 answered hs' with inserted | ⟨s, stored, issued, kept⟩
    · rw [born_issued answered inserted] at hin
      exact absurd hin (closed.not_inserted empty start run head answered inserted fired)
    · rw [issued] at hin
      have dead := closed.revoked s stored (before _ (lin.rows s stored) hin)
      rw [kept dead]
      exact dead
  · intro j s hin claims
    rcases claims_cons claims with old | ⟨rfl, isRefresh, call⟩
    · exact older j s (before s (claimed j s old (born s hin)) hin) old
    · exfalso
      obtain ⟨rfl, hr⟩ := Call.mk.inj call
      obtain rfl := eq_of_heq hr
      obtain ⟨t, stored, held⟩ := exec_updateMany_one answered
      obtain ⟨hid, live⟩ := unrevokedSession_holds.mp held
      have same : t.issued = s := by
        refine birth_of_id (leads_trans reach (leads_of_fire fired)) ?_ (born s hin) hid
        exact births_mono (leads_of_fire fired) (lin.rows t stored)
      refine closed.revoked t stored (before _ (lin.rows t stored) ?_) live
      rw [same]
      exact hin

end Step

lemma Closed.leads (empty : w.sessions = []) (start : Reachable env reqs w c₀)
    (run : Leads (exec env) c₀ c) (closed : Closed env reqs c₀ scope c)
    (later : Leads (exec env) c c') : Closed env reqs c₀ scope c' :=
  leads_induction (P := Closed env reqs c₀ scope) later closed fun _ _ _ _ reached h fired =>
    h.step empty start (leads_trans run reached) fired

/-- The update closes its scope if it finds the scope quiet. -/
lemma Quiet.closed (empty : w.sessions = []) (start : Reachable env reqs w c₀)
    (run : Leads (exec env) c₀ c) (quiet : Quiet env reqs c₀ c scope) {i n : Nat} {ch : Choice}
    (fired : fire (exec env) i ch c = some c')
    (update : c'.history = ⟨i, ch, ⟨revocation scope.filter, .ok n⟩⟩ :: c.history)
    (notClaim : ∀ id token, scope = .session id → (reqs i).handler ≠ .refresh token) :
    Closed env reqs c₀ scope c' := by
  have reach := leads_trans start run
  have lin := reachable_lineage empty reach
  have before := fun s hs (h : InScope env reqs c₀ scope c'.history s) =>
    h.before (s := s) empty start run fired hs
  have born := fun s (h : InScope env reqs c₀ scope c'.history s) =>
    h.born (s := s) empty start (leads_trans run (leads_of_fire fired))
  have older := fun j s (h : InScope env reqs c₀ scope c.history s) hc =>
    settled_step fired (quiet.settled j s h hc)
  have claimed := fun j s hc (hs : s ∈ births c'.history) =>
    claimed_born empty reach (leads_of_fire fired) (j := j) (s := s) hc hs
  obtain ⟨op, next, r, w', head, answered, rfl⟩ := fire_eq_some.mp fired
  obtain ⟨rfl, hr⟩ := Call.mk.inj (Event.mk.inj (List.cons.inj update).1).2.2
  obtain rfl := eq_of_heq hr
  constructor
  · intro s' hs' hin live
    obtain ⟨stored, missed⟩ := live_of_mem_revokeRows (exec_updateMany answered ▸ hs') live
    have inBefore := before _ (lin.rows s' stored) hin
    have covered : scope.covers s' := by
      by_cases narrow : ∃ id, scope = .session id
      · obtain ⟨id, rfl⟩ := narrow
        exact inBefore.unrotated (quiet.unclaimed id rfl)
      · exact Scope.covers_issued.mp (inBefore.covered empty start run (by simpa using narrow))
    rw [Scope.filter_holds.mpr ⟨covered, live⟩] at missed
    cases missed
  · intro j s hin claims
    rcases claims_cons claims with old | ⟨rfl, ⟨token, isRefresh⟩, call⟩
    · exact older j s (before s (claimed j s old (born s hin)) hin) old
    · exfalso
      injection (Call.mk.inj call).1 with same
      cases scope with
      | session id => exact notClaim id token rfl isRefresh
      | user id => cases same
      | othersOf userId sessionId => cases same
      | family id => cases same

lemma Handler.scope_revokes {handler : Handler} {user : AuthUser}
    (h : handler.scope user = some scope) : handler.revokes user = some scope.filter := by
  unfold Handler.scope at h
  split at h <;> cases h <;> rfl

/-- A request that has revoked its scope has made the update. -/
lemma Revoked.updated (reach : Reachable env reqs w c) {i : Nat}
    (revoked : Revoked env reqs c i scope) :
    ∃ n, (⟨revocation scope.filter, .ok n⟩ : OwnCall) ∈ own i c.history := by
  unfold Revoked at revoked
  split at revoked
  · obtain ⟨_, s, n, _, rfl, call⟩ := revoked
    exact ⟨n, call⟩
  · obtain ⟨answered, user, passed, isScope⟩ := revoked
    have ends := leads_poolObeys reach (boot_obeys env reqs w) i
    rw [Prog.outcome_eq_ok.mp answered] at ends
    exact ends user _ passed (Handler.scope_revokes isScope)

lemma Revoked.notClaim {i : Nat} (revoked : Revoked env reqs c i scope) :
    ∀ id token, scope = .session id → (reqs i).handler ≠ .refresh token := by
  rintro id token rfl isRefresh
  simp [Revoked, isRefresh] at revoked

namespace Plain

/-- Request 0 logs in, request 1 refreshes, request 2 logs out of all sessions. -/
def lateRotation : Nat → Request
  | 0 => login "secret"
  | 1 => refresh 1
  | _ => { handler := .logoutAll, authorization := some (bearer 6) }

/-- The successor that request 1 inserts. -/
def lateSession : Session where
  id := 7
  userId := 1
  tokenHash := hashToken Plain.env (tokenText (bytes 2))
  familyId := 5
  expiresAt := 13 + ttlMs Plain.env
  revokedAt := none
  userAgent := none
  createdAt := 13

end Plain

/-- The refresh claims before the logout of all sessions and inserts after it. -/
theorem revocation_escaped :
    ∃ c₀ c, Reachable Plain.env Plain.lateRotation Plain.world c₀ ∧ own 2 c₀.history = [] ∧
      Leads (exec Plain.env) c₀ c ∧ Revoked Plain.env Plain.lateRotation c 2 (.user 1) ∧
      ∃ s ∈ c.world.sessions,
        InScope Plain.env Plain.lateRotation c₀ (.user 1) c.history s.issued ∧
          s.revokedAt = none ∧ c.world.clock < s.expiresAt := by
  have shown : ∃ c₀ c, Reachable Plain.env Plain.lateRotation Plain.world c₀ ∧
      Leads (exec Plain.env) c₀ c ∧ own 2 c₀.history = [] ∧
      Plain.firstSession ∈ c₀.world.sessions ∧ Plain.lateSession ∉ births c₀.history ∧
      (c.pool 2).outcome = some (.ok .noContent) ∧
      Passed (Plain.lateRotation 2) (own 2 c.history) (some ⟨1, .CLIENT, 6⟩) ∧
      Claimed (own 1 c.history) 6 ∧ Inserts c.history 1 Plain.lateSession ∧
      Plain.lateSession ∈ c.world.sessions ∧ c.world.clock < Plain.lateSession.expiresAt :=
    play_reaches_through Plain.loggedIn
      [(2, { now := 6 }), (2, { now := 7 }), (1, { now := 8 }), (1, { now := 9 }),
        (1, { now := 10 }), (2, { now := 11 }), (1, { now := 12, bytes := Plain.bytes 2 }),
        (1, { now := 13, uuid := 7 })] (by decide +kernel)
  obtain ⟨c₀, c, reach, run, idle, stored, fresh, answered, passed, claimed, inserts, live,
    unexpired⟩ := shown
  refine ⟨c₀, c, reach, idle, run, ⟨answered, _, passed, rfl⟩, Plain.lateSession, live, ?_, rfl,
    unexpired⟩
  exact .rotated (i := 1) (.existing stored rfl) ⟨_, rfl, rfl, claimed, inserts⟩ fresh id

/-- A request that answered a revocation leaves no session of its scope live,
then or later, if it made its update while the scope was quiet. -/
theorem revocation_final_if_quiet (env : Env) (reqs : Nat → Request) (w : World)
    (empty : w.sessions = []) (i : Nat) (scope : Scope) (c₀ c c' : Server)
    (start : Reachable env reqs w c₀) (idle : own i c₀.history = [])
    (run : Leads (exec env) c₀ c) (revoked : Revoked env reqs c i scope)
    (quiet : ∀ c₁ c₂ ch n, Leads (exec env) c₀ c₁ → fire (exec env) i ch c₁ = some c₂ →
      c₂.history = ⟨i, ch, ⟨revocation scope.filter, .ok n⟩⟩ :: c₁.history →
      Leads (exec env) c₂ c → Quiet env reqs c₀ c₁ scope)
    (later : Leads (exec env) c c') :
    ∀ s ∈ c'.world.sessions, InScope env reqs c₀ scope c'.history s.issued →
      s.revokedAt ≠ none := by
  obtain ⟨n, call⟩ := revoked.updated (leads_trans start run)
  obtain ⟨ch, mem⟩ := mem_own.mp call
  have new : (⟨i, ch, ⟨revocation scope.filter, .ok n⟩⟩ : ServerEvent) ∉ c₀.history := by
    intro old
    have := mem_own.mpr ⟨ch, old⟩
    rw [idle] at this
    exact List.not_mem_nil this
  obtain ⟨c₁, c₂, before, fired, update, after⟩ := leads_split_new run mem new
  have closed := (quiet c₁ c₂ ch n before fired update after).closed empty start before fired
    update revoked.notClaim
  exact (closed.leads empty start (leads_trans before (leads_of_fire fired))
    (leads_trans after later)).revoked

namespace Plain

/-- The bulk updates among the calls. -/
def updates (h : List OwnCall) : List OwnCall := h.filter fun k =>
  match k.op with
  | .sessionUpdateMany _ _ => true
  | _ => false

/-- The successor that request 1 inserts before the update of request 2. -/
def earlySession : Session :=
  { lateSession with expiresAt := 12 + ttlMs Plain.env, createdAt := 12 }

lemma only_refresh {i : Nat} {token : String}
    (isRefresh : (lateRotation i).handler = .refresh token) : i = 1 := by
  match i, isRefresh with
  | 1, _ => rfl

end Plain

/-- A refresh under way when the logout of all sessions starts has inserted its
successor before the update, which revokes it. -/
theorem revocation_final_if_quiet_settled :
    ∃ c₀ c, Reachable Plain.env Plain.lateRotation Plain.world c₀ ∧ own 2 c₀.history = [] ∧
      Leads (exec Plain.env) c₀ c ∧ Revoked Plain.env Plain.lateRotation c 2 (.user 1) ∧
      InScope Plain.env Plain.lateRotation c₀ (.user 1) c.history Plain.earlySession ∧
      Plain.earlySession.id ∈ c.world.sessions.map Session.id ∧
      ∀ s ∈ c.world.sessions,
        InScope Plain.env Plain.lateRotation c₀ (.user 1) c.history s.issued →
          s.revokedAt ≠ none := by
  have shown : ∃ c₀ c, Reachable Plain.env Plain.lateRotation Plain.world c₀ ∧
      Leads (exec Plain.env) c₀ c ∧ own 2 c₀.history = [] ∧
      Plain.firstSession ∈ c₀.world.sessions ∧ Plain.earlySession ∉ births c₀.history ∧
      Plain.earlySession.id ∈ c.world.sessions.map Session.id ∧
      (c.pool 2).outcome = some (.ok .noContent) ∧
      Passed (Plain.lateRotation 2) (own 2 c.history) (some ⟨1, .CLIENT, 6⟩) ∧
      Claimed (own 1 c.history) 6 ∧ Inserts c.history 1 Plain.earlySession ∧
      Plain.updates (own 2 c.history.tail) = [] ∧ Inserts c.history.tail 1 Plain.earlySession :=
    play_reaches_through Plain.loggedIn
      [(2, { now := 6 }), (1, { now := 7 }), (1, { now := 8 }), (2, { now := 9 }),
        (1, { now := 10 }), (1, { now := 11, bytes := Plain.bytes 2 }),
        (1, { now := 12, uuid := 7 }), (2, { now := 13 })] (by decide +kernel)
  obtain ⟨c₀, c, reach, run, idle, stored, fresh, kept, answered, passed, claimed, inserts, single,
    settled⟩ := shown
  have revoked : Revoked Plain.env Plain.lateRotation c 2 (.user 1) := ⟨answered, _, passed, rfl⟩
  refine ⟨c₀, c, reach, idle, run, revoked, .rotated (i := 1) (.existing stored rfl)
    ⟨_, rfl, rfl, claimed, inserts⟩ fresh id, kept, ?_⟩
  refine revocation_final_if_quiet Plain.env Plain.lateRotation Plain.world rfl 2 (.user 1) c₀ c c
    reach idle run revoked ?_ (leads_refl c)
  intro c₁ c₂ ch n _ _ update after
  -- The update is the last call of the run: request 2 made no other one.
  have whole : c.history = c₂.history := by
    obtain ⟨later, since⟩ := leads_history_suffix after
    cases later with
    | nil => exact since.symm
    | cons e later =>
      have mem : (⟨revocation (Scope.user 1).filter, .ok n⟩ : OwnCall) ∈ own 2 c.history.tail := by
        rw [← since, update]
        exact mem_own.mpr ⟨ch, by simp⟩
      have none := List.filter_eq_nil_iff.mp single _ mem
      exact absurd rfl none
  rw [whole, update, List.tail_cons] at settled
  refine ⟨fun j s _ claims => ?_, fun id narrow => ?_⟩
  · obtain ⟨⟨token, isRefresh⟩, _⟩ := claims
    obtain rfl := Plain.only_refresh isRefresh
    exact .inl ⟨_, settled⟩
  · cases narrow

end BajaValle
