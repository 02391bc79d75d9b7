import BajaValle.Admission
import BajaValle.Refreshes
import BajaValle.Serial

/-!
# Dead sessions stay dead

A session that was revoked, has expired or was deleted is never live again. No
guard admits by it, and only a rotation that was under way may still succeed:
one that had claimed it, or one that had found it unexpired in time.
-/

namespace BajaValle

open CallPrograms Prog Interleaving SessionsService

variable {env : Env} {reqs : Nat → Request} {w w' : World} {c₀ c c' : Server} {s : Session}

/-- No row of this id is live: it is revoked or expired, or there is none. -/
def Dead (w : World) (id : Uuid) : Prop :=
  ∀ t ∈ w.sessions, t.id = id → t.revokedAt ≠ none ∨ t.expiresAt ≤ w.clock

/-- Of a dead session, no later row is live or differs from the one before. -/
lemma dead_later (consistent : Consistent w) (start : Reachable env reqs w c₀)
    (stored : s ∈ c₀.world.sessions) (run : Leads (exec env) c₀ c)
    (dead : Dead c.world s.id) (later : Leads (exec env) c c') {t : Session}
    (ht : t ∈ c'.world.sessions) (same : t.id = s.id) :
    t.issued = s.issued ∧ (t.revokedAt ≠ none ∨ t.expiresAt ≤ c'.world.clock) ∧
      ∃ t₀ ∈ c.world.sessions, t₀.id = s.id ∧ (t₀.revokedAt ≠ none → t = t₀) := by
  have here := leads_consistent consistent start
  have drawn := here.sessionIds s stored
  obtain ⟨s', stored', issued, _⟩ := leads_rows start (leads_trans run later) ht (same ▸ drawn)
  obtain rfl := here.eq_of_id stored' stored ((id_of_issued issued).symm.trans same)
  obtain ⟨t₀, ht₀, issued₀, kept⟩ := leads_rows (leads_trans start run) later ht
    (same ▸ leads_uuids run drawn)
  have same₀ := (id_of_issued issued₀).symm.trans same
  refine ⟨issued, ?_, t₀, ht₀, same₀, kept⟩
  rcases dead t₀ ht₀ same₀ with revoked | expired
  · exact .inl (kept revoked ▸ revoked)
  · exact .inr (expiresAt_of_issued issued₀ ▸ Nat.le_trans expired (leads_clock later))

/-- A session id is given once. -/
lemma id_not_reused (consistent : Consistent c₀.world) (stored : s ∈ c₀.world.sessions)
    (run : Leads (exec env) c₀ c) {new : List ServerEvent} (since : c.history = new ++ c₀.history)
    {e : ServerEvent} (he : e ∈ new) {t : Session} (inserted : born e.call = some t) :
    t.id ≠ s.id := by
  intro same
  obtain ⟨c₁, c₂, before, fired, record, _⟩ := leads_split run since he
  obtain ⟨op, next, r, w', _, answered, rfl⟩ := fire_eq_some.mp fired
  have call : e.call = ⟨op, r⟩ := congrArg Event.call (List.cons.inj record).1.symm
  rw [call] at inserted
  have fresh := (exec_drawnUuid answered (born_drawn inserted)).1
  exact fresh (same ▸ leads_uuids before (consistent.sessionIds s stored))

/-- The guard reads live sessions only. -/
lemma dead_not_admitted (dead : ∀ x, Leads (exec env) c x → Dead x.world s.id)
    (later : Leads (exec env) c c') {j : Nat} {au : AuthUser} (same : au.sessionId = s.id)
    (passed : Passed (reqs j) (own j c'.history) (some au)) :
    Passed (reqs j) (own j c.history) (some au) := by
  refine (passed.since later).resolve_right fun admitted => ?_
  obtain ⟨c₁, c₂, ch, before, fired, _, ⟨t, ht, id, _, live, unexpired⟩, _⟩ := admitted.stored
  obtain ⟨op, next, r, w', _, answered, rfl⟩ := fire_eq_some.mp fired
  rcases dead c₁ before t ht (id.trans same) with revoked | expired
  · exact revoked live
  · have := (exec_spends answered).later
    omega

/-- A claim after the session's death found it unexpired while it still was. -/
lemma late_claim (consistent : Consistent w) (start : Reachable env reqs w c₀)
    (stored : s ∈ c₀.world.sessions) (run : Leads (exec env) c₀ c)
    (dead : Dead c.world s.id) (later : Leads (exec env) c c') {j : Nat} {token : String}
    (isRefresh : (reqs j).handler = .refresh token) (claimed : Claimed (own j c'.history) s.id) :
    Claimed (own j c.history) s.id ∨ (ReadBefore (own j c.history) s.expiresAt ∧
      ∃ t ∈ c.world.sessions, t.id = s.id ∧ t.revokedAt = none) := by
  by_cases early : Claimed (own j c.history) s.id
  · exact .inl early
  right
  have reach := leads_trans start run
  obtain ⟨ch, mem⟩ := mem_own.mp claimed
  obtain ⟨c₁, c₂, before, fired, record, after⟩ := leads_split_new later mem fun old =>
    early (mem_own.mpr ⟨ch, old⟩)
  have may := leads_poolObeys (leads_trans reach before) (boot_obeys env reqs w) j
  obtain ⟨op, next, r, w', head, answered, rfl⟩ := fire_eq_some.mp fired
  rw [head] at may
  cases (List.cons.inj record).1
  obtain ⟨p, u, now, calls, unexpired, id⟩ := may.1.2.claiming isRefresh
  obtain ⟨t, ht, held⟩ := exec_updateMany_one answered
  obtain ⟨sameT, live⟩ := unrevokedSession_holds.mp held
  obtain ⟨_, _, t₀, ht₀, id₀, kept⟩ := dead_later consistent start stored run dead before ht sameT
  have live₀ : t₀.revokedAt = none := by
    by_contra revoked
    exact revoked (kept revoked ▸ live)
  have readP : (⟨.sessionFindByTokenHash (hashToken env token), .ok (some (p, u))⟩ : OwnCall) ∈
      own j c₁.history := by
    rw [calls]
    simp
  have expiry := expiresAt_of_issued
    (read_agrees consistent start (leads_trans run before) readP rfl stored id)
  have past : s.expiresAt ≤ c.world.clock := by
    obtain ⟨issued, _⟩ := dead_later consistent start stored run dead (leads_refl c) ht₀ id₀
    exact expiresAt_of_issued issued ▸ (dead t₀ ht₀ id₀).resolve_left (not_not.mpr live₀)
  have intime := expiry ▸ unexpired
  refine ⟨⟨now, ?_, intime⟩, t₀, ht₀, id₀, live₀⟩
  by_cases late : (own j c.history).length ≤ 1
  · exfalso
    have made : MadeBetween (exec env) c c₁ j [⟨.sessionFindByTokenHash (hashToken env token),
        .ok (some (p, u))⟩] ⟨.now, now⟩ :=
      leads_made before (by rw [calls]; exact List.prefix_refl _) late
    obtain ⟨x, x', ch', first, fired', record', _, _⟩ := made
    obtain ⟨op', next', r', w'', _, answered', rfl⟩ := fire_eq_some.mp fired'
    cases (List.cons.inj record').1
    have read := Nat.le_trans (leads_clock first) (exec_now answered').1
    exact Nat.lt_irrefl _ (Nat.lt_of_lt_of_le intime (Nat.le_trans past read))
  · have whole : own j c.history = own j c₁.history := by
      refine (leads_own_suffix before j).eq_of_length ?_
      have shorter := (leads_own_suffix before j).length_le
      rw [calls] at shorter ⊢
      simp only [List.length_cons, List.length_nil] at shorter ⊢
      omega
    rw [whole, calls]
    simp

section Instant
variable {now : Nat} {token : String} {userAgent : Option String} {sid : Uuid}

/-- `findActive` returns a row at this instant. -/
def FindsActive (env : Env) (sid : Uuid) (now : Nat) (w : World) : Prop :=
  ∃ s u w', exec env { now } (.sessionFindFirst (activeSession sid)) w =
    some (.ok (some (s, u)), w')

/-- A rotation whose calls are made at this instant passes its expiry check and
its claim. -/
def PassesClaim (env : Env) (token : String) (userAgent : Option String) (now : Nat) (w : World) :
    Prop :=
  ∃ p s u w', feed (exec env) [{ now }, { now }, { now }] (rotate env token userAgent) [] w =
    some (p, claiming env token s u now 1, w')

lemma findsActive_iff (later : w.clock ≤ now) :
    FindsActive env sid now w ↔
      ∃ s u, w.sessions.find? ((activeSession sid).holds now) = some s ∧
        w.withUser s = some (s, u) := by
  unfold FindsActive
  rw [exec_at _ later]
  constructor
  · rintro ⟨s, u, w', answered⟩
    obtain ⟨found, _⟩ := Prod.mk.inj (Option.some.inj answered)
    obtain ⟨t, ht, joined⟩ := Option.bind_eq_some_iff.mp (Except.ok.inj found)
    obtain ⟨v, hv, same⟩ := Option.map_eq_some_iff.mp joined
    obtain ⟨rfl, rfl⟩ := Prod.mk.inj same
    exact ⟨t, v, ht, joined⟩
  · rintro ⟨s, u, found, joined⟩
    refine ⟨s, u, _, congrArg some (Prod.ext (congrArg Except.ok ?_) rfl)⟩
    exact Option.bind_eq_some_iff.mpr ⟨s, found, joined⟩

lemma passesClaim_iff (later : w.clock ≤ now) :
    PassesClaim env token userAgent now w ↔
      ∃ s u, w.sessions.find? (·.tokenHash = hashToken env token) = some s ∧
        w.withUser s = some (s, u) ∧ now < s.expiresAt ∧
        (w.sessions.filter ((unrevokedSession s.id).holds now)).length = 1 := by
  have again : ∀ op, exec env { now } op { w with clock := now } =
      answer env { now } op { w with clock := now } := fun op => exec_at op (Nat.le_refl _)
  unfold PassesClaim
  rw [rotate_eq]
  simp only [feed, exec_at _ later]
  simp only [answer, query, Bool.false_eq_true, if_false, Option.bind_some]
  have joined : ∀ s u, ((w.sessions.find? (·.tokenHash = hashToken env token)).bind w.withUser =
      some (s, u)) ↔ w.sessions.find? (·.tokenHash = hashToken env token) = some s ∧
        w.withUser s = some (s, u) := by
    intro s u
    rw [Option.bind_eq_some_iff]
    constructor
    · rintro ⟨t, ht, same⟩
      obtain ⟨v, hv, pair⟩ := Option.map_eq_some_iff.mp same
      obtain ⟨rfl, rfl⟩ := Prod.mk.inj pair
      exact ⟨ht, same⟩
    · exact fun h => ⟨s, h⟩
  simp only [← and_assoc, ← joined]
  have world : ({ w with clock := now } : World).withUser = w.withUser := rfl
  rw [world]
  cases found : (w.sessions.find? (·.tokenHash = hashToken env token)).bind w.withUser with
  | none => simp [feed]
  | some row =>
    obtain ⟨s, u⟩ := row
    simp only [feed, again, answer, Option.bind_some, Option.some.injEq, Prod.mk.injEq]
    by_cases expired : s.expiresAt ≤ now
    · rw [if_pos expired]
      simp [feed, Nat.not_lt.mpr expired]
    · rw [if_neg expired]
      simp only [feed, again, answer, query]
      constructor
      · rintro ⟨p, s', u', w'', made⟩
        obtain ⟨rfl, rfl, count⟩ := claiming_inj (congrArg (·.2.1) (Option.some.inj made))
        exact ⟨s, u, ⟨⟨rfl, rfl⟩, Nat.not_le.mp expired⟩, count⟩
      · rintro ⟨_, _, ⟨⟨rfl, rfl⟩, _⟩, count⟩
        refine ⟨_, s, u, _, congrArg some (Prod.ext rfl (Prod.ext ?_ rfl))⟩
        exact congrArg (claiming env token s u now) count

/-- The two tests of a live session agree at every instant. -/
theorem findActive_iff_claim (consistent : Consistent w) (later : w.clock ≤ now)
    (itsToken : ∀ s ∈ w.sessions, s.id = sid ↔ s.tokenHash = hashToken env token) :
    FindsActive env sid now w ↔ PassesClaim env token userAgent now w := by
  have joined : ∀ s ∈ w.sessions, ∃ u, w.withUser s = some (s, u) := by
    intro s hs
    obtain ⟨u, hu, owner⟩ := consistent.owners s hs
    cases found : w.users.find? (·.id = s.userId) with
    | none => simpa [owner] using List.find?_eq_none.mp found u hu
    | some v => exact ⟨v, by simp [World.withUser, found]⟩
  have unique : ∀ {p : Session → Bool} {s}, s ∈ w.sessions → p s = true →
      (∀ t ∈ w.sessions, p t = true → t = s) → w.sessions.find? p = some s := by
    intro p s hs holds only
    cases found : w.sessions.find? p with
    | none => exact absurd holds (List.find?_eq_none.mp found s hs)
    | some t =>
        exact congrArg some (only t (List.mem_of_find?_eq_some found) (List.find?_some found))
  rw [findsActive_iff later, passesClaim_iff later]
  constructor
  · rintro ⟨s, u, found, user⟩
    have hs := List.mem_of_find?_eq_some found
    obtain ⟨id, live, unexpired⟩ := activeSession_holds.mp (List.find?_some found)
    have digest := (itsToken s hs).mp id
    refine ⟨s, u, unique hs (by simpa using digest) ?_, user, unexpired, ?_⟩
    · intro t ht same
      exact consistent.eq_of_token ht hs ((of_decide_eq_true same).trans digest.symm)
    · exact consistent.claim_counts hs live _
  · rintro ⟨s, u, found, user, unexpired, count⟩
    have hs := List.mem_of_find?_eq_some found
    have id := (itsToken s hs).mpr (by simpa using List.find?_some found)
    obtain ⟨t, mem⟩ := List.exists_mem_of_length_eq_add_one count
    obtain ⟨ht, held⟩ := List.mem_filter.mp mem
    obtain ⟨same, live⟩ := unrevokedSession_holds.mp held
    obtain rfl := consistent.eq_of_id ht hs same
    refine ⟨t, u, unique hs (activeSession_holds.mpr ⟨id, live, unexpired⟩) ?_, user⟩
    intro t' ht' held'
    exact consistent.eq_of_id ht' hs ((activeSession_holds.mp held').1.trans id.symm)

end Instant

/-- A rotation that succeeds after the session's death was under way before. -/
lemma late_rotation (consistent : Consistent w) (start : Reachable env reqs w c₀)
    (stored : s ∈ c₀.world.sessions) (run : Leads (exec env) c₀ c)
    (dead : Dead c.world s.id) (later : Leads (exec env) c c') {j : Nat} {b : Session}
    (rotates : Rotates env reqs c'.history j s b) :
    Rotates env reqs c.history j s b ∨
      ∃ t ∈ c.world.sessions, t.id = s.id ∧ (Claimed (own j c.history) s.id ∨
        (t.revokedAt = none ∧ ReadBefore (own j c.history) s.expiresAt)) := by
  obtain ⟨token, isRefresh, digest, claimed, inserts⟩ := rotates
  have reach := leads_trans start run
  have reach' := leads_trans reach later
  by_cases early : Inserts c.history j b
  · obtain ⟨e, he, rfl, hb⟩ := inserts_iff.mp early
    have origin := (birth reach he hb).origin
    simp only [Origin, isRefresh] at origin
    obtain ⟨p, _, claimedP, _⟩ := origin
    have mine : p.id = s.id := claims_one reach' ⟨⟨token, isRefresh⟩,
      (leads_own_suffix later e.who).subset claimedP⟩ ⟨⟨token, isRefresh⟩, claimed⟩
    exact .inl ⟨token, isRefresh, digest, mine ▸ claimedP, early⟩
  right
  rcases late_claim consistent start stored run dead later isRefresh claimed with
    before | ⟨read, t, ht, id, live⟩
  swap
  · exact ⟨t, ht, id, .inr ⟨live, read⟩⟩
  rcases session_lost (leads_consistent consistent start) run stored with ⟨t, ht, issued⟩ | gone
  · exact ⟨t, ht, id_of_issued issued, .inl before⟩
  exfalso
  obtain ⟨e, he, rfl, hb⟩ := inserts_iff.mp inserts
  obtain ⟨c₁, c₂, first, fired, record, after⟩ := leads_split_new later he fun old =>
    early (inserts_iff.mpr ⟨e, old, rfl, hb⟩)
  have may := leads_poolObeys (leads_trans reach first) (boot_obeys env reqs w) e.who
  obtain ⟨op, next, r, w', head, answered, rfl⟩ := fire_eq_some.mp fired
  rw [head] at may
  have call : e.call = ⟨op, r⟩ := congrArg Event.call (List.cons.inj record).1.symm
  rw [call] at hb
  cases exec_sessions answered with
  | kept _ leaves => simp [born_of_leaves leaves] at hb
  | updated => cases hb
  | inserted d _ _ owner =>
    obtain ⟨u, hu, owner⟩ := owner
    have origin := may.1.2.2.2
    simp only [Origin, isRefresh] at origin
    obtain ⟨p, ⟨v, read⟩, claimedP, user, _⟩ := origin
    have mine : p.id = s.id := claims_one reach' ⟨⟨token, isRefresh⟩,
      (leads_own_suffix after e.who).subset (own_subset_cons claimedP)⟩
        ⟨⟨token, isRefresh⟩, claimed⟩
    have issued := read_agrees consistent start (leads_trans run first) read rfl stored mine
    have sameUser : u.id = s.userId := owner.trans (user.trans (userId_of_issued issued))
    obtain ⟨u₀, hu₀, owner₀⟩ := (leads_consistent consistent start).owners s stored
    have drawn : u.id ∈ c.world.uuids := by
      rw [sameUser, ← owner₀]
      exact leads_uuids run ((leads_consistent consistent start).userIds u₀ hu₀)
    obtain ⟨v', hv', same⟩ := leads_users first hu drawn
    exact gone v' hv' (same.trans sameUser)

/-- Once a session is dead it stays so, whatever is under way. -/
theorem dead_sessions_stay_dead (env : Env) (reqs : Nat → Request) (w : World)
    (consistent : Consistent w) :
    (∀ c₀ c c' s, Reachable env reqs w c₀ → s ∈ c₀.world.sessions → Leads (exec env) c₀ c →
      Dead c.world s.id → Leads (exec env) c c' →
      (∀ t ∈ c'.world.sessions, t.id = s.id → t.issued = s.issued ∧
        (t.revokedAt ≠ none ∨ t.expiresAt ≤ c'.world.clock) ∧
        ∃ t₀ ∈ c.world.sessions, t₀.id = s.id ∧ (t₀.revokedAt ≠ none → t = t₀)) ∧
      (∀ new, c'.history = new ++ c₀.history → ∀ e ∈ new, ∀ t, born e.call = some t →
        t.id ≠ s.id) ∧
      (∀ j au, Passed (reqs j) (own j c'.history) (some au) → au.sessionId = s.id →
        Passed (reqs j) (own j c.history) (some au)) ∧
      ∀ j b, Rotates env reqs c'.history j s b → Rotates env reqs c.history j s b ∨
        ∃ t ∈ c.world.sessions, t.id = s.id ∧ (Claimed (own j c.history) s.id ∨
          (t.revokedAt = none ∧ ReadBefore (own j c.history) s.expiresAt))) ∧
    ∀ c, Reachable env reqs w c → ∀ sid token userAgent now, c.world.clock ≤ now →
      (∀ s ∈ c.world.sessions, s.id = sid ↔ s.tokenHash = hashToken env token) →
      (FindsActive env sid now c.world ↔ PassesClaim env token userAgent now c.world) := by
  refine ⟨?_, ?_⟩
  · intro c₀ c c' s start stored run dead later
    have still : ∀ x, Leads (exec env) c x → Dead x.world s.id := fun x reached t ht id =>
      (dead_later consistent start stored run dead reached ht id).2.1
    refine ⟨?_, ?_, ?_, ?_⟩
    · exact fun t ht id => dead_later consistent start stored run dead later ht id
    · exact fun new since e he t inserted => id_not_reused (leads_consistent consistent start)
        stored (leads_trans run later) since he inserted
    · exact fun j au passed same => dead_not_admitted still later same passed
    · exact fun j b rotates => late_rotation consistent start stored run dead later rotates
  · intro c reach sid token userAgent now later itsToken
    exact findActive_iff_claim (leads_consistent consistent reach) later itsToken

namespace Plain

/-- Every request logs out of the session. -/
def logout (_ : Nat) : Request := { handler := .logout, authorization := some (bearer 6) }

/-- Request 0 asks who it is, every other one refreshes the first session. -/
def slowRefresh : Nat → Request
  | 0 => { handler := .me, authorization := some (bearer 6) }
  | _ => refresh 1

/-- The successor that a refresh inserts after the session has expired. -/
def lateSuccessor : Session where
  id := 7
  userId := 1
  tokenHash := hashToken Plain.env (tokenText (bytes 2))
  familyId := 5
  expiresAt := 5 + 2 * ttlMs Plain.env
  revokedAt := none
  userAgent := none
  createdAt := 5 + ttlMs Plain.env

end Plain

theorem dead_sessions_stay_dead_logout :
    ∃ c, Reachable Plain.env Plain.logout Plain.liveWorld c ∧ Dead c.world 6 ∧
      ∀ c', Leads (exec Plain.env) c c' → ∀ t ∈ c'.world.sessions, t.id = 6 →
        t.revokedAt ≠ none ∨ t.expiresAt ≤ c'.world.clock := by
  have shown : ∃ c, Reachable Plain.env Plain.logout Plain.liveWorld c ∧
      ∀ t ∈ c.world.sessions, t.id = 6 → t.revokedAt ≠ none :=
    play_reaches [(0, { now := 6 }), (0, { now := 7 }), (0, { now := 8 })] (by decide +kernel)
  obtain ⟨c, reach, revoked⟩ := shown
  have dead : Dead c.world 6 := fun t ht id => .inl (revoked t ht id)
  refine ⟨c, reach, dead, fun c' later t ht id => ?_⟩
  have stays := (dead_sessions_stay_dead Plain.env Plain.logout Plain.liveWorld
    Plain.liveWorld_consistent).1 _ c c' Plain.firstSession (leads_refl _) List.mem_cons_self reach
    dead later
  exact (stays.1 t ht id).2.1

/-- A refresh finds the session unexpired, which then expires, and claims it. -/
theorem expired_session_rotated :
    ∃ c c', Reachable Plain.env Plain.slowRefresh Plain.liveWorld c ∧
      Leads (exec Plain.env) c c' ∧ Plain.firstSession ∈ c.world.sessions ∧
      Plain.firstSession.expiresAt ≤ c.world.clock ∧ ¬ Claimed (own 1 c.history) 6 ∧
      Rotates Plain.env Plain.slowRefresh c'.history 1 Plain.firstSession Plain.lateSuccessor := by
  have shown : ∃ c c', Reachable Plain.env Plain.slowRefresh Plain.liveWorld c ∧
      Leads (exec Plain.env) c c' ∧ Plain.firstSession ∈ c.world.sessions ∧
      Plain.firstSession.expiresAt ≤ c.world.clock ∧ ¬ Claimed (own 1 c.history) 6 ∧
      Claimed (own 1 c'.history) 6 ∧ Inserts c'.history 1 Plain.lateSuccessor :=
    play_reaches_through [(1, { now := 6 }), (1, { now := 7 }), (0, { now := 2592000005 })]
      [(1, { now := 2592000005 }), (1, { now := 2592000005, bytes := Plain.bytes 2 }),
        (1, { now := 2592000005, uuid := 7 })] (by decide +kernel)
  obtain ⟨c, c', reach, run, stored, expired, unclaimed, claimed, inserts⟩ := shown
  exact ⟨c, c', reach, run, stored, expired, unclaimed, _, rfl, rfl, claimed, inserts⟩

end BajaValle
