import BajaValle.Refreshes
import BajaValle.Serial
import BajaValle.Tables

/-!
# Reuse of a refresh token

A token that a rotation consumed longer ago than the grace period closes its
family when it is presented again, unless it has expired by then: an expired
token is refused before anything is revoked, while the family may live on.
-/

namespace BajaValle

open CallPrograms Prog Interleaving SessionsService

variable {env : Env} {reqs : Nat → Request} {w w' : World} {c : Server} {s : Session}

/-- No session of the family is live at this time. -/
def NoneLive (sessions : List Session) (familyId : Uuid) (now : Nat) : Prop :=
  ∀ t ∈ sessions, t.familyId = familyId → t.revokedAt ≠ none ∨ t.expiresAt ≤ now

instance (sessions : List Session) (familyId : Uuid) (now : Nat) :
    Decidable (NoneLive sessions familyId now) := inferInstanceAs (Decidable (∀ _ ∈ _, _))

lemma revokeRows_noneLive (familyId : Uuid) (time now : Nat) (sessions : List Session) :
    NoneLive (revokeRows (unrevokedFamily familyId) time sessions) familyId now := by
  intro t ht family
  left
  intro live
  obtain ⟨stored, missed⟩ := live_of_mem_revokeRows ht live
  rw [unrevokedFamily_holds.mpr ⟨family, live⟩] at missed
  cases missed

/-- The row that a claim revoked keeps the time of the claim. -/
lemma claimed_row (consistent : Consistent w) (reach : Reachable env reqs w c) {i : Nat}
    {ch : Choice} {id : Uuid}
    (claim : (⟨i, ch, ⟨revocation (unrevokedSession id), .ok 1⟩⟩ : ServerEvent) ∈ c.history)
    {t : Session} (ht : t ∈ c.world.sessions) (same : t.id = id) : t.revokedAt = some ch.now := by
  obtain ⟨c₁, c₂, before, fired, history, after⟩ := leads_split_new reach claim List.not_mem_nil
  have here := leads_consistent consistent (leads_trans before (leads_of_fire fired))
  have reach₂ := leads_trans before (leads_of_fire fired)
  obtain ⟨op, next, r, w', _, answered, rfl⟩ := fire_eq_some.mp fired
  cases (List.cons.inj history).1
  obtain ⟨p, hp, held⟩ := exec_updateMany_one answered
  obtain ⟨idP, live⟩ := unrevokedSession_holds.mp held
  have revoked : ∃ q ∈ w'.sessions, q.id = id ∧ q.revokedAt = some ch.now := by
    rw [exec_updateMany answered]
    exact ⟨_, List.mem_map_of_mem hp, by rw [if_pos held]; exact ⟨idP, rfl⟩⟩
  obtain ⟨q, hq, idQ, time⟩ := revoked
  obtain ⟨q', hq', issued, kept⟩ := leads_rows reach₂ after ht
    (same.trans idQ.symm ▸ here.sessionIds q hq)
  obtain rfl := here.eq_of_id hq' hq ((id_of_issued issued).symm.trans (same.trans idQ.symm))
  rw [kept (by simp [time]), time]

/-- What the database holds of a consumed session and its family. -/
structure Consumed (w : World) (s : Session) (consumed : Nat) : Prop
    extends Consistent w where
  row : ∀ t ∈ w.sessions, t.tokenHash = s.tokenHash →
    t.issued = s.issued ∧ t.revokedAt = some consumed
  lost : (∀ t ∈ w.sessions, t.tokenHash ≠ s.tokenHash) →
    ∀ t ∈ w.sessions, t.familyId ≠ s.familyId

lemma consumed_of_claim (consistent : Consistent w) (empty : w.sessions = [])
    (collisionFree : CollisionFree env) (reach : Reachable env reqs w c) {i : Nat} {ch : Choice}
    (stored : s ∈ births c.history)
    (claim : (⟨i, ch, ⟨revocation (unrevokedSession s.id), .ok 1⟩⟩ : ServerEvent) ∈ c.history) :
    Consumed c.world s ch.now := by
  have lin := reachable_lineage empty reach
  have here := leads_consistent consistent reach
  obtain ⟨e, he, hb⟩ := mem_births.mp stored
  have alive : s.issued = s := issued_of_live (birth reach he hb).live
  refine ⟨here, ?_, ?_⟩
  · intro t ht digest
    have issued :=
      (birth_of_token reach collisionFree (lin.rows t ht) stored digest).trans alive.symm
    exact ⟨issued, claimed_row consistent reach claim ht (id_of_issued issued)⟩
  · intro lost t ht family
    obtain ⟨c₁, c₂, before, fired, history, after⟩ := leads_split_new reach he List.not_mem_nil
    have reach₂ := leads_trans before (leads_of_fire fired)
    obtain ⟨op, next, r, w', _, answered, rfl⟩ := fire_eq_some.mp fired
    have call : e.call = ⟨op, r⟩ := congrArg Event.call (List.cons.inj history).1.symm
    rw [call] at hb
    rcases session_lost (leads_consistent consistent reach₂) after (born_stored answered hb) with
      ⟨t', ht', issued⟩ | gone
    · exact lost t' ht'
        (congrArg Session.tokenHash issued : t'.issued.tokenHash = s.issued.tokenHash)
    · have owner := lin.oneUser t.issued (lin.rows t ht) s stored family
      obtain ⟨u, hu, same⟩ := here.owners t ht
      exact gone u hu (same.trans owner)

/-- How a presentation of a consumed token ends. -/
def Refused (sessions : List Session) (s : Session) {α : Type} (h : List OwnCall)
    (out : Except Failure α) (w : World) : Prop :=
  out = .error sessionInvalid ∧ (NoneLive w.sessions s.familyId w.clock ↔
    ReadBefore h s.expiresAt ∨ NoneLive sessions s.familyId w.clock)

abbrev NoClaim (h : List OwnCall) (_ : World) : Prop := ∀ id, ¬ Claimed h id

section Presented
variable {v : World} {consumed : Nat} {token : String} {userAgent : Option String}

lemma noClaim_cons {op : Op} {r : op.Res} {h : List OwnCall} {w w' : World}
    (noClaim : NoClaim h w) (other : ∀ id, op ≠ revocation (unrevokedSession id)) :
    NoClaim (⟨op, r⟩ :: h) w' := by
  intro id claimed
  rcases List.mem_cons.mp claimed with same | old
  · exact other id (Call.mk.inj same).1.symm
  · exact noClaim id old

lemma readBefore_cons {h : List OwnCall} {time : Nat} (k : OwnCall) (read : ReadBefore h time) :
    ReadBefore (k :: h) time := by
  obtain ⟨now, mem, before⟩ := read
  exact ⟨now, List.mem_cons_of_mem k mem, before⟩

lemma unrevokedFamily_ne (familyId id : Uuid) :
    revocation (unrevokedFamily familyId) ≠ revocation (unrevokedSession id) := by
  simp [revocation, unrevokedFamily, unrevokedSession]

/-- What is refused stays refused in a larger program. -/
lemma refused_bind {sessions : List Session} {α β : Type} {p : Task α} {f : α → Task β}
    {h : List OwnCall} (refused : Serial env False NoClaim (Refused sessions s) h w p) :
    Serial env False NoClaim (Refused sessions s) h w (p >>= f) := by
  refine meets_bind (refused.mono ?_)
  rintro h out w _ ⟨rfl, closed⟩
  refine ⟨nofun, ?_⟩
  rintro e ⟨⟩
  exact ⟨rfl, closed⟩

/-- A bulk revocation of the family that fails the request. -/
lemma closes_family {w₁ : World} {h : List OwnCall} (noClaim : NoClaim h w₁)
    (early : ReadBefore h s.expiresAt) {sessions : List Session} :
    Serial env False NoClaim (Refused sessions s) h w₁
      (revokeFamily s.familyId >>= fun _ => Prog.throw sessionInvalid : Task Unit) := by
  refine ⟨noClaim, fun ch r w₂ healthy answered => ?_⟩
  obtain ⟨rfl, rows⟩ := exec_revocation healthy answered
  refine ⟨noClaim_cons noClaim (unrevokedFamily_ne s.familyId), rfl,
    iff_of_true ?_ (.inl (readBefore_cons _ early))⟩
  rw [rows]
  exact revokeRows_noneLive _ _ _ _

/-- Reuse after the grace period closes the family. -/
lemma reuse_closes {w₁ : World} {h : List OwnCall} {p : Session} (used : Consumed v s consumed)
    (hp : p ∈ v.sessions) (digest : p.tokenHash = s.tokenHash) (sessions : w₁.sessions = v.sessions)
    (aged : consumed + REUSE_GRACE_MS ≤ w₁.clock) (noClaim : NoClaim h w₁)
    (early : ReadBefore h s.expiresAt) :
    Serial env False NoClaim (Refused v.sessions s) h w₁ (reuse p) := by
  obtain ⟨issued, time⟩ := used.row p hp digest
  have family : p.familyId = s.familyId :=
    (congrArg Session.familyId issued : p.issued.familyId = s.issued.familyId)
  rw [reuse_eq]
  refine ⟨noClaim, fun ch r w₂ healthy answered => ?_⟩
  have spends := exec_spends answered
  obtain rfl := exec_sessionFindById healthy answered
  have found : w₁.sessions.find? (·.id = p.id) = some p := by
    rw [sessions]
    exact used.find_id hp
  have claims₂ : NoClaim (⟨.sessionFindById p.id, .ok (w₁.sessions.find? (·.id = p.id))⟩ :: h) w₂ :=
    noClaim_cons noClaim nofun
  simp only [found, Option.bind_some, time] at claims₂ ⊢
  refine ⟨claims₂, fun ch' now w₃ healthy' answered' => ?_⟩
  have read : w₁.clock ≤ now := Nat.le_trans spends.le (exec_now answered').1
  have ripe : ¬ now - consumed < REUSE_GRACE_MS :=
    Nat.not_lt.mpr (Nat.le_sub_of_add_le' (Nat.le_trans aged read))
  dsimp only
  rw [if_neg ripe, family]
  exact closes_family (noClaim_cons claims₂ (by simp [revocation]))
    (readBefore_cons _ (readBefore_cons _ early))

/-- A presentation of the consumed token is refused. It closes the family if it
finds the session unexpired. -/
lemma rotate_refused (used : Consumed v s consumed) (aged : consumed + REUSE_GRACE_MS ≤ v.clock)
    (digest : hashToken env token = s.tokenHash) :
    Serial env False NoClaim (Refused v.sessions s) [] v (rotate env token userAgent) := by
  have fresh : NoClaim [] v := fun _ => List.not_mem_nil
  rw [rotate_eq, digest]
  refine ⟨fresh, fun ch r v₁ healthy answered => ?_⟩
  have sessions₁ := (exec_readOnly answered trivial).1
  have spends₁ := exec_spends answered
  obtain rfl := exec_sessionFindByTokenHash healthy answered
  cases found : (v.sessions.find? (·.tokenHash = s.tokenHash)).bind v.withUser with
  | none =>
    have absent : ∀ t ∈ v.sessions, t.familyId ≠ s.familyId := by
      refine used.lost fun t ht same => ?_
      obtain ⟨u, stored⟩ := used.find_token ht
      rw [same, found] at stored
      cases stored
    refine ⟨noClaim_cons fresh nofun, rfl, ?_⟩
    have closed : NoneLive v.sessions s.familyId v₁.clock := fun t ht family =>
      absurd family (absent t ht)
    rw [sessions₁]
    exact iff_of_true closed (.inr closed)
  | some row =>
    obtain ⟨p, u⟩ := row
    rw [found] at answered
    obtain ⟨hp, hash, _⟩ := exec_find_session answered
    have claims₁ : NoClaim [⟨.sessionFindByTokenHash s.tokenHash, .ok (some (p, u))⟩] v₁ :=
      noClaim_cons fresh nofun
    obtain ⟨issued, time⟩ := used.row p hp hash
    have expires : p.expiresAt = s.expiresAt := expiresAt_of_issued issued
    refine ⟨claims₁, fun ch' now v₂ healthy' answered' => ?_⟩
    have spends₂ := exec_spends answered'
    have sessions₂ := (exec_readOnly answered' trivial).1.trans sessions₁
    have claims₂ : NoClaim [⟨.now, now⟩,
        ⟨.sessionFindByTokenHash s.tokenHash, .ok (some (p, u))⟩] v₂ := noClaim_cons claims₁ nofun
    dsimp only
    split
    · rename_i expired
      have never : ¬ ReadBefore [⟨.now, now⟩,
          ⟨.sessionFindByTokenHash s.tokenHash, .ok (some (p, u))⟩] s.expiresAt := by
        rintro ⟨time, mem, early⟩
        rcases List.mem_cons.mp mem with same | other
        · cases same
          exact absurd early (Nat.not_lt.mpr (expires ▸ expired))
        · cases List.mem_singleton.mp other
      refine ⟨claims₂, rfl, ?_⟩
      rw [sessions₂]
      exact (or_iff_right never).symm
    · rename_i unexpired
      refine ⟨claims₂, fun ch'' r v₃ healthy'' answered'' => ?_⟩
      obtain ⟨rfl, rows⟩ := exec_revocation healthy'' answered''
      have misses := used.claim_misses hp (by simp [time]) ch''.now
      rw [sessions₂] at rows ⊢
      rw [revokeRows_misses misses] at rows
      rw [misses]
      have claims₃ : NoClaim [⟨revocation (unrevokedSession p.id), .ok 0⟩, ⟨.now, now⟩,
          ⟨.sessionFindByTokenHash s.tokenHash, .ok (some (p, u))⟩] v₃ := by
        intro id claimed
        rcases List.mem_cons.mp claimed with same | old
        · cases same
        · exact claims₂ id old
      have early : ReadBefore [⟨revocation (unrevokedSession p.id), .ok 0⟩, ⟨.now, now⟩,
          ⟨.sessionFindByTokenHash s.tokenHash, .ok (some (p, u))⟩] s.expiresAt :=
        ⟨now, by simp, expires ▸ Nat.not_le.mp unexpired⟩
      have clock : v.clock ≤ v₃.clock :=
        Nat.le_trans (Nat.le_trans spends₁.le spends₂.le) (exec_spends answered'').le
      have lost : afterClaim env userAgent p u (.ok 0) =
          (reuse p >>= fun _ => Prog.throw sessionInvalid) := rfl
      exact lost ▸ refused_bind (reuse_closes used hp hash rows (Nat.le_trans aged clock) claims₃
        early)

lemma serve_refused {req : Request} (used : Consumed v s consumed)
    (aged : consumed + REUSE_GRACE_MS ≤ v.clock) (presents : req.handler = .refresh token)
    (digest : hashToken env token = s.tokenHash) :
    Serial env False NoClaim (Refused v.sessions s) [] v (serve env req) := by
  rw [serve_refresh presents]
  exact refused_bind (refused_bind (rotate_refused used aged digest))

end Presented

/-- A call that draws nothing can always be answered. -/
lemma drawsNothing_able {op : Op} (drawless : DrawsNothing op) (w : World) :
    ∃ ch, Healthy False ch ∧ exec env ch op w ≠ none := by
  refine ⟨{ now := w.clock }, fun fails => (Bool.false_ne_true fails).elim, ?_⟩
  rw [exec_at op (Nat.le_refl _)]
  cases op with
  | randomUUID | randomBytes | userCreate | sessionCreate | dummyAwait => exact drawless.elim
  | dummyStart =>
    simp only [answer]
    split <;> exact Option.some_ne_none _
  | _ => exact Option.some_ne_none _

lemma refresh_draws {req : Request} {token : String} (presents : req.handler = .refresh token) :
    (serve env req).Obeys (fun h op => DrawsNothing op ∨ ∃ id, Claimed h id)
      (fun _ _ => True) [] := by
  rw [serve_refresh presents]
  refine obeys_bind (obeys_bind (rotate_draws token req.userAgent) ?_) fun _ _ ends => ends
  exact fun h rotated _ => perform_bind_obeys (.inl trivial) fun _ => trivial

/-- A successful rotation consumed the token of the session at this time. -/
def ConsumedAt (env : Env) (reqs : Nat → Request) (history : List ServerEvent) (s : Session)
    (time : Nat) : Prop :=
  s ∈ births history ∧ ∃ i new, Rotates env reqs history i s new ∧ ∃ e ∈ history, e.who = i ∧
    e.choice.now = time ∧ e.call = ⟨revocation (unrevokedSession s.id), .ok 1⟩

/-- A consumed token that is presented after the grace period is refused. This
leaves no live session in its family if the request finds the session of the
token unexpired, or none was live anyway, and not otherwise. -/
theorem reuse_closes_family_unless_expired (consistent : Consistent w) (empty : w.sessions = [])
    (collisionFree : CollisionFree env) (reach : Reachable env reqs w c) {time presented : Nat}
    (consumed : ConsumedAt env reqs c.history s time)
    (aged : time + REUSE_GRACE_MS ≤ presented) {req : Request} {token : String}
    (presents : req.handler = .refresh token) (digest : hashToken env token = s.tokenHash) :
    (∃ h out w', Alone env (serve env req) { c.world with clock := presented } h out w') ∧
    ∀ h out w', Alone env (serve env req) { c.world with clock := presented } h out w' →
      out = .error sessionInvalid ∧
        (NoneLive w'.sessions s.familyId w'.clock ↔
          ReadBefore h s.expiresAt ∨ NoneLive c.world.sessions s.familyId w'.clock) := by
  obtain ⟨stored, i, new, _, ⟨_, ch, _⟩, claim, rfl, rfl, rfl⟩ := consumed
  have used := consumed_of_claim consistent empty collisionFree reach stored claim
  have used' : Consumed { c.world with clock := presented } s ch.now :=
    ⟨⟨used.userIds, used.sessionIds, used.owners, used.ids, used.tokens⟩, used.row, used.lost⟩
  have refused := serve_refused used' aged presents digest
  refine ⟨?_, fun h out w' alone => (refused.finishes alone).2⟩
  obtain ⟨p, h, w', run, ended⟩ := refused.terminates (refresh_draws presents)
    fun h w op noClaim may => drawsNothing_able (may.resolve_right fun ⟨id, claimed⟩ =>
      noClaim id claimed) w
  obtain ⟨out, ended⟩ := Option.ne_none_iff_exists'.mp ended
  exact ⟨h, out, w', p, run, ended⟩

namespace Plain

/-- A login, and a refresh of its token after it. -/
def rotated : List (Nat × Choice) :=
  loggedIn ++ (0, { now := 6 }) :: refreshed 1 ++ [(1, { now := 11 })]

/-- The session that request 1 inserts. -/
def nextSession : Session where
  id := 7
  userId := 1
  tokenHash := hashToken Plain.env (tokenText (bytes 2))
  familyId := 5
  expiresAt := 10 + ttlMs Plain.env
  revokedAt := none
  userAgent := none
  createdAt := 10

lemma rotated_reaches {P : Server → Prop} [DecidablePred P]
    (shown : (play (exec Plain.env) rotated (boot Plain.env loginThenRefresh Plain.world)).any
      (fun c => decide ((Plain.firstSession ∈ births c.history ∧ Claimed (own 1 c.history) 6 ∧
        Inserts c.history 1 Plain.nextSession ∧ ∃ e ∈ c.history, e.who = 1 ∧ e.choice.now = 8 ∧
          e.call = ⟨revocation (unrevokedSession 6), .ok 1⟩) ∧ P c)) = true) :
    ∃ c, Reachable Plain.env loginThenRefresh Plain.world c ∧
      ConsumedAt Plain.env loginThenRefresh c.history Plain.firstSession 8 ∧ P c := by
  obtain ⟨c, reach, ⟨stored, claimed, inserts, claim⟩, holds⟩ := play_reaches rotated shown
  exact ⟨c, reach, ⟨stored, 1, _, ⟨_, rfl, rfl, claimed, inserts⟩, claim⟩, holds⟩

end Plain

theorem reuse_closes_family_unless_expired_soon :
    ∃ c, Reachable Plain.env Plain.loginThenRefresh Plain.world c ∧
      (∃ h out w', Alone Plain.env (serve Plain.env (Plain.refresh 1))
        { c.world with clock := 20000 } h out w') ∧
      ∀ h out w', Alone Plain.env (serve Plain.env (Plain.refresh 1))
          { c.world with clock := 20000 } h out w' →
        out = .error sessionInvalid ∧ (NoneLive w'.sessions 5 w'.clock ↔
          ReadBefore h Plain.firstSession.expiresAt ∨ NoneLive c.world.sessions 5 w'.clock) := by
  obtain ⟨c, reach, consumed, _⟩ := Plain.rotated_reaches (P := fun _ => True) (by decide +kernel)
  exact ⟨c, reach, reuse_closes_family_unless_expired Plain.world_consistent rfl
    Plain.collisionFree reach consumed (by decide) rfl rfl⟩

/-- The first token of the family is presented on the day it expires, when the
second is live for five milliseconds more. -/
theorem reuse_of_expired_token_unnoticed :
    ∃ c, Reachable Plain.env Plain.loginThenRefresh Plain.world c ∧
      ConsumedAt Plain.env Plain.loginThenRefresh c.history Plain.firstSession 8 ∧
      c.world.clock ≤ 2592000005 ∧ 8 + REUSE_GRACE_MS ≤ 2592000005 ∧
      ∃ h out w', Alone Plain.env (serve Plain.env (Plain.refresh 1))
        { c.world with clock := 2592000005 } h out w' ∧ ¬ NoneLive w'.sessions 5 w'.clock := by
  obtain ⟨c, reach, consumed, before, presents⟩ := Plain.rotated_reaches
    (P := fun c => c.world.clock ≤ 2592000005 ∧
      (feed (exec Plain.env) [{ now := 2592000005 }, { now := 2592000005 }]
        (serve Plain.env (Plain.refresh 1)) [] { c.world with clock := 2592000005 }).any
          (fun end_ => end_.1.outcome.any fun _ =>
            decide (¬ NoneLive end_.2.2.sessions 5 end_.2.2.clock)) = true)
    (by decide +kernel)
  have shown : ∃ h out w', Alone Plain.env (serve Plain.env (Plain.refresh 1))
      { c.world with clock := 2592000005 } h out w' ∧
      decide (¬ NoneLive w'.sessions 5 w'.clock) = true :=
    finishes_of_feed [{ now := 2592000005 }, { now := 2592000005 }] (by simp [Healthy]) presents
  obtain ⟨h, out, w', alone, live⟩ := shown
  exact ⟨c, reach, consumed, before, by decide, h, out, w', alone, of_decide_eq_true live⟩

end BajaValle
