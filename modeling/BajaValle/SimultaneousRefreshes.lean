import BajaValle.ReuseDetection
import Mathlib.Data.Finset.Insert
import Mathlib.Data.Fintype.EquivFin

/-!
# Simultaneous refreshes

Any number of refreshes present the token of one live session at the same time.
The first claim wins. The others find the session revoked a moment ago and are
refused, wherever the winner is between its claim and its insertion, so the
family goes on with the session of the winner.
-/

namespace BajaValle

open CallPrograms Prog Interleaving SessionsService

variable {env : Env} {reqs : Nat → Request} {w w' : World} {c c' : Server} {s : Session}
  {callers : Finset Nat}

def familyRows (w : World) (familyId : Uuid) : List Session :=
  w.sessions.filter (·.familyId = familyId)

/-- The claim of a session, by the number of rows that it counted. -/
def claim (s : Session) (count : Nat) : OwnCall := ⟨revocation (unrevokedSession s.id), .ok count⟩

/-- A move of a run in which the callers refresh one session before it expires,
nothing else happens to its family, and the callers that have lost their claim
go on within the grace period of the claim that won. -/
structure Simultaneous (env : Env) (s : Session) (callers : Finset Nat) (i : Nat) (ch : Choice)
    (c : Server) : Prop where
  spared : i ∉ callers → ∀ c' ∈ fire (exec env) i ch c,
    familyRows c'.world s.familyId = familyRows c.world s.familyId
  works : i ∈ callers → ch.fails = false
  unexpired : i ∈ callers → ch.now < s.expiresAt
  soon : i ∈ callers → claim s 0 ∈ own i c.history → ∀ e ∈ c.history, e.who ∈ callers →
    e.call = claim s 1 → ch.now < e.choice.now + REUSE_GRACE_MS

instance (env : Env) (s : Session) (callers : Finset Nat) (i : Nat) (ch : Choice) (c : Server) :
    Decidable (Simultaneous env s callers i ch c) :=
  decidable_of_iff ((i ∉ callers → ∀ c' ∈ fire (exec env) i ch c,
      familyRows c'.world s.familyId = familyRows c.world s.familyId) ∧
    (i ∈ callers → ch.fails = false) ∧ (i ∈ callers → ch.now < s.expiresAt) ∧
    (i ∈ callers → claim s 0 ∈ own i c.history → ∀ e ∈ c.history, e.who ∈ callers →
      e.call = claim s 1 → ch.now < e.choice.now + REUSE_GRACE_MS))
    ⟨fun ⟨spared, works, unexpired, soon⟩ => ⟨spared, works, unexpired, soon⟩,
      fun move => ⟨move.spared, move.works, move.unexpired, move.soon⟩⟩

/-- What is left of a refresh when this is left of its rotation. -/
def answering (env : Env) (rotation : Task SessionsService.Rotated) : Task Answer :=
  Answer.tokens <$> (rotation >>= fun rotated => AuthService.issueTokens env rotated.user.id
    rotated.user.role rotated.session.id rotated.refreshToken)

/-- What a rotation does after its read. -/
def afterFind (env : Env) (userAgent : Option String) (t : Session) (u : User) :
    Task SessionsService.Rotated :=
  .call .now fun now =>
    if t.expiresAt ≤ now then .throw sessionInvalid
    else .call (.sessionUpdateMany (unrevokedSession t.id) (.fromNow 0))
      (afterClaim env userAgent t u)

/-- What a lost rotation does after its second read. -/
def afterReread (t : Session) (revokedAt : Nat) : Task SessionsService.Rotated :=
  .call .now fun now =>
    (if now - revokedAt < REUSE_GRACE_MS then .throw sessionInvalid
    else revokeFamily t.familyId >>= fun _ => .throw sessionInvalid) >>= fun _ : Unit =>
      .throw sessionInvalid

/-- What a rotation does after its draw. -/
def afterDraw (env : Env) (userAgent : Option String) (t : Session) (u : User) (bytes : Bytes) :
    Task SessionsService.Rotated := do
  let next ← await (perform (.sessionCreate (successor env t userAgent bytes)))
  return { session := next, refreshToken := tokenText bytes, user := u }

lemma answering_call (op : Op) (next : op.Res → Task SessionsService.Rotated) :
    answering env (.call op next) = .call op fun r => answering env (next r) := rfl

lemma afterClaim_lost (userAgent : Option String) (t : Session) (u : User) :
    afterClaim env userAgent t u (.ok 0) = (reuse t >>= fun _ => .throw sessionInvalid) := rfl

lemma afterClaim_won (userAgent : Option String) (t : Session) (u : User) :
    afterClaim env userAgent t u (.ok 1) =
      .call (.randomBytes TOKEN_BYTES) (afterDraw env userAgent t u) := by
  refine congrArg (Prog.call (Op.randomBytes TOKEN_BYTES)) (funext fun bytes => ?_)
  refine congrArg (Prog.call (Op.sessionCreate (successor env t userAgent bytes)))
    (funext fun r => ?_)
  cases r <;> rfl

/-- How far a caller is that has not won: its calls, latest first, and what is
left of it. It goes past its claim only when the session has been claimed. -/
inductive Losing (env : Env) (s : Session) (token : String) (userAgent : Option String)
    (claimedAt : Option Nat) : List OwnCall → Task Answer → Prop where
  | unstarted :
      Losing env s token userAgent claimedAt [] (answering env (rotate env token userAgent))
  | found (t : Session) (u : User) (row : t.issued = s) : Losing env s token userAgent claimedAt
      [⟨.sessionFindByTokenHash (hashToken env token), .ok (some (t, u))⟩]
      (answering env (afterFind env userAgent t u))
  | unexpired (t : Session) (u : User) (now : Nat) (row : t.issued = s) :
      Losing env s token userAgent claimedAt
        [⟨.now, now⟩, ⟨.sessionFindByTokenHash (hashToken env token), .ok (some (t, u))⟩]
        (answering env (.call (.sessionUpdateMany (unrevokedSession t.id) (.fromNow 0))
          (afterClaim env userAgent t u)))
  | lost (t : Session) (u : User) (now time : Nat) (row : t.issued = s)
      (taken : claimedAt = some time) : Losing env s token userAgent claimedAt
        (claiming env token t u now 0) (answering env (reuse t >>= fun _ => .throw sessionInvalid))
  | reread (t : Session) (u : User) (now time : Nat) (used : Option Session) (row : t.issued = s)
      (taken : claimedAt = some time) : Losing env s token userAgent claimedAt
        (⟨.sessionFindById t.id, .ok used⟩ :: claiming env token t u now 0)
        (answering env (afterReread t time))
  | refused (t : Session) (u : User) (now time now' : Nat) (used : Option Session)
      (taken : claimedAt = some time) : Losing env s token userAgent claimedAt
        (⟨.now, now'⟩ :: ⟨.sessionFindById t.id, .ok used⟩ :: claiming env token t u now 0)
        (.throw sessionInvalid)

/-- A claim by another caller changes nothing for one that has not claimed. -/
lemma Losing.late {token : String} {userAgent : Option String} {h : List OwnCall}
    {program : Task Answer} (losing : Losing env s token userAgent none h program) (time : Nat) :
    Losing env s token userAgent (some time) h program := by
  cases losing with
  | unstarted => exact .unstarted
  | found t u row => exact .found t u row
  | unexpired t u now row => exact .unexpired t u now row
  | lost _ _ _ _ _ taken => cases taken
  | reread _ _ _ _ _ _ taken => cases taken
  | refused _ _ _ _ _ _ taken => cases taken

/-- How far the caller is that has won, and the session that it has inserted. -/
inductive Winning (env : Env) (s : Session) (token : String) (userAgent : Option String) :
    Option Session → List OwnCall → Task Answer → Prop where
  | claimed (t : Session) (u : User) (now : Nat) (row : t.issued = s) :
      Winning env s token userAgent none (claiming env token t u now 1)
        (answering env (.call (.randomBytes TOKEN_BYTES) (afterDraw env userAgent t u)))
  | drawn (t : Session) (u : User) (now : Nat) (bytes : Bytes) (row : t.issued = s) :
      Winning env s token userAgent none
        (⟨.randomBytes TOKEN_BYTES, bytes⟩ :: claiming env token t u now 1)
        (answering env (afterDraw env userAgent t u bytes))
  | inserted (t : Session) (u : User) (now : Nat) (bytes : Bytes) (next : Session)
      (hash : next.tokenHash = hashToken env (tokenText bytes)) :
      Winning env s token userAgent (some next)
        (⟨.sessionCreate (successor env t userAgent bytes), .ok next⟩ ::
          ⟨.randomBytes TOKEN_BYTES, bytes⟩ :: claiming env token t u now 1)
        (answering env (.ret { session := next, refreshToken := tokenText bytes, user := u }))
  | answered (t : Session) (u : User) (now : Nat) (bytes : Bytes) (next : Session)
      (payload : AccessTokenPayload) (tokens : AuthTokens)
      (hash : next.tokenHash = hashToken env tokens.refreshToken) :
      Winning env s token userAgent (some next)
        (⟨.jwtSign payload, tokens.accessToken⟩ ::
          ⟨.sessionCreate (successor env t userAgent bytes), .ok next⟩ ::
          ⟨.randomBytes TOKEN_BYTES, bytes⟩ :: claiming env token t u now 1)
        (.ret (.tokens tokens))

section Steps
variable {token : String} {userAgent : Option String} {claimedAt : Option Nat} {p : Session}
  {ch : Choice} {op : Op} {r : op.Res} {h : List OwnCall} {program : Task Answer}
  {next : op.Res → Task Answer}

/-- One call of a caller that has not won: it leaves the sessions alone, or it
is the claim that wins. -/
lemma Losing.step (losing : Losing env s token userAgent p.revokedAt h program)
    (head : program = .call op next) (consistent : Consistent w) (row : p ∈ w.sessions)
    (issued : p.issued = s) (digest : hashToken env token = s.tokenHash)
    (healthy : Healthy False ch) (unexpired : ch.now < s.expiresAt)
    (soon : ∀ time, p.revokedAt = some time → claim s 0 ∈ h → ch.now < time + REUSE_GRACE_MS)
    (answered : exec env ch op w = some (r, w')) :
    (w'.sessions = w.sessions ∧
      Losing env s token userAgent p.revokedAt (⟨op, r⟩ :: h) (next r)) ∨
    (p.revokedAt = none ∧ (⟨op, r⟩ : OwnCall) = claim s 1 ∧
      w'.sessions = revokeRows (unrevokedSession s.id) ch.now w.sessions ∧
      Winning env s token userAgent none (⟨op, r⟩ :: h) (next r)) := by
  have sameId : p.id = s.id := issued ▸ rfl
  have sameRow : ∀ t : Session, t.issued = s → t.id = s.id ∧ t.expiresAt = s.expiresAt := by
    rintro t rfl
    exact ⟨rfl, rfl⟩
  cases losing with
  | unstarted =>
    rw [rotate_eq, answering_call] at head
    cases head
    have sessions := (exec_readOnly answered trivial).1
    obtain rfl := exec_sessionFindByTokenHash healthy answered
    obtain ⟨u, found⟩ := consistent.find_token row
    have hash : hashToken env token = p.tokenHash := digest.trans (issued ▸ rfl)
    simp only [hash, found]
    exact .inl ⟨sessions, .found p u issued⟩
  | found t u same =>
    rw [afterFind, answering_call] at head
    cases head
    have early : ¬ t.expiresAt ≤ r := by
      rw [(sameRow t same).2, Nat.not_le, ← (exec_now answered).2, (exec_spends answered).clock]
      exact unexpired
    simp only [if_neg early]
    exact .inl ⟨(exec_readOnly answered trivial).1, .unexpired t u r same⟩
  | unexpired t u now same =>
    rw [answering_call] at head
    cases head
    obtain ⟨rfl, rows⟩ := exec_revocation healthy answered
    have sameFilter : unrevokedSession t.id = unrevokedSession p.id := by
      rw [(sameRow t same).1, sameId]
    by_cases live : p.revokedAt = none
    · have one := consistent.claim_counts row live ch.now
      rw [← sameFilter] at one
      simp only [one, afterClaim_won]
      refine .inr ⟨live, ?_, ?_, .claimed t u now same⟩
      · rw [claim, sameFilter, sameId]; rfl
      · rw [rows, sameFilter, sameId]
    · obtain ⟨time, taken⟩ := Option.ne_none_iff_exists'.mp live
      have misses := consistent.claim_misses row live ch.now
      rw [← sameFilter] at misses
      simp only [misses, List.length_nil, afterClaim_lost]
      exact .inl ⟨rows.trans (revokeRows_misses misses), .lost t u now time same taken⟩
  | lost t u now time same taken =>
    rw [reuse_eq] at head
    cases head
    have sessions := (exec_readOnly answered trivial).1
    obtain rfl := exec_sessionFindById healthy answered
    have found := consistent.find_id row
    rw [sameId, ← (sameRow t same).1] at found
    simp only [found, Option.bind_some, taken]
    exact .inl ⟨sessions, .reread t u now time _ same rfl⟩
  | reread t u now time used same taken =>
    rw [afterReread, answering_call] at head
    cases head
    obtain rfl : r = ch.now := (exec_now answered).2.symm.trans (exec_spends answered).clock
    have grace : ch.now - time < REUSE_GRACE_MS := by
      have lost : claim s 0 ∈ claiming env token t u now 0 := by
        rw [claim, ← (sameRow t same).1]
        exact List.mem_cons_self
      have within_ := soon time taken (List.mem_cons_of_mem _ lost)
      have : 0 < REUSE_GRACE_MS := by decide
      omega
    simp only [if_pos grace]
    exact .inl ⟨(exec_readOnly answered trivial).1, .refused t u now time _ used taken⟩
  | refused => cases head

/-- A draw that its request has not used yet is the token of no stored session. -/
lemma draw_unused (empty : w.sessions = []) (collisionFree : CollisionFree env)
    (reach : Reachable env reqs w c) {i : Nat} {bytes : Bytes}
    (drawn : (⟨.randomBytes TOKEN_BYTES, bytes⟩ : OwnCall) ∈ own i c.history)
    (unborn : Unborn (own i c.history)) {t : Session} (stored : t ∈ c.world.sessions) :
    t.tokenHash ≠ hashToken env (tokenText bytes) := by
  intro same
  obtain ⟨e, he, inserted⟩ := mem_births.mp ((reachable_lineage empty reach).rows t stored)
  obtain ⟨bytes', drawn', hash⟩ := (birth reach he inserted).token
  obtain rfl : bytes = bytes' := collisionFree bytes bytes' (randomBytes_length reach drawn)
    (randomBytes_length reach drawn') (Base64.encode_injective base64url (same.symm.trans hash))
  obtain ⟨ch, mem⟩ := mem_own.mp drawn
  obtain ⟨ch', mem'⟩ := mem_own.mp drawn'
  have once := drawnBytes_once reach mem mem' bytes rfl rfl
  obtain rfl : i = e.who := (Event.mk.inj once).1
  exact unborn e.call (mem_own.mpr ⟨e.choice, he⟩) (born_isInsert inserted)

/-- One call of the caller that has won: it leaves the sessions alone, or it
inserts the next session of the family. -/
lemma Winning.step {i : Nat} {made : Option Session} (empty : w.sessions = [])
    (collisionFree : CollisionFree env) (reach : Reachable env reqs w c)
    (consistent : Consistent c.world)
    (winning : Winning env s token userAgent made (own i c.history) program)
    (head : program = .call op next) (row : p ∈ c.world.sessions) (issued : p.issued = s)
    (healthy : Healthy False ch) (answered : exec env ch op c.world = some (r, w')) :
    (w'.sessions = c.world.sessions ∧
      Winning env s token userAgent made (⟨op, r⟩ :: own i c.history) (next r)) ∨
    ∃ n : Session, made = none ∧ n.revokedAt = none ∧ n.familyId = s.familyId ∧
      w'.sessions = c.world.sessions ++ [n] ∧
      Winning env s token userAgent (some n) (⟨op, r⟩ :: own i c.history) (next r) := by
  generalize calls : own i c.history = h at winning ⊢
  cases winning with
  | claimed t u now same =>
    cases head
    exact .inl ⟨(exec_readOnly answered trivial).1, .drawn t u now r same⟩
  | drawn t u now bytes same =>
    cases head
    have unborn : Unborn (own i c.history) := by
      rw [calls]
      simp [Unborn, claiming, revocation, IsInsert]
    have unused := fun q (stored : q ∈ c.world.sessions) => draw_unused empty collisionFree
      reach (by rw [calls]; exact List.mem_cons_self :
        (⟨.randomBytes TOKEN_BYTES, bytes⟩ : OwnCall) ∈ own i c.history) unborn stored
    have inserts := exec_sessionCreate answered
    cases inserts with
    | failed fails => exact (healthy fails).elim
    | taken q stored hash => exact absurd hash (unused q stored)
    | orphan absent =>
      obtain ⟨v, hv, owner⟩ := consistent.owners p row
      exact absurd (owner.trans (userId_of_issued (issued.trans same.symm))) (absent v hv)
    | inserted _ sessions =>
      have family : t.familyId = s.familyId := same ▸ rfl
      exact .inr ⟨(successor env t userAgent bytes).row ch.uuid ch.now, rfl, rfl, family, sessions,
        .inserted t u now bytes _ rfl⟩
  | inserted t u now bytes n hash =>
    cases head
    exact .inl ⟨(exec_readOnly answered trivial).1, .answered t u now bytes n _
      ⟨r, tokenText bytes, env.JWT_ACCESS_TTL_SECONDS⟩ hash⟩
  | answered => cases head

end Steps

/-- Where a run of simultaneous refreshes is: before the first claim that counts
a row every caller is still losing and the session is live. -/
inductive Race (env : Env) (reqs : Nat → Request) (s : Session) (token : String)
    (callers : Finset Nat) (c : Server) : Prop where
  | undecided (row : s ∈ c.world.sessions) (losing : ∀ i ∈ callers,
      Losing env s token (reqs i).userAgent none (own i c.history) (c.pool i))
  | won (p : Session) (row : p ∈ c.world.sessions) (issued : p.issued = s) (winner : Nat)
      (mem : winner ∈ callers) (ch : Choice) (claimed : ⟨winner, ch, claim s 1⟩ ∈ c.history)
      (time : p.revokedAt = some ch.now) (made : Option Session)
      (winning : Winning env s token (reqs winner).userAgent made (own winner c.history)
        (c.pool winner))
      (renewed : ∀ n, made = some n → n ∈ c.world.sessions ∧ n.revokedAt = none ∧
        n.familyId = s.familyId)
      (losing : ∀ i ∈ callers, i ≠ winner →
        Losing env s token (reqs i).userAgent (some ch.now) (own i c.history) (c.pool i))

/-- A request that has made no call is at its start. -/
lemma leads_unstarted (reach : Reachable env reqs w c) {i : Nat} (idle : own i c.history = []) :
    c.pool i = serve env (reqs i) := by
  refine leads_invariant (P := fun x => own i x.history = [] → x.pool i = serve env (reqs i)) ?_
    reach (fun _ => rfl) idle
  intro x x' j ch ih fired idle
  obtain ⟨op, next, r, w', _, _, rfl⟩ := fire_eq_some.mp fired
  by_cases mine : j = i
  · subst mine
    simp at idle
  · rw [own_cons_other mine] at idle
    simpa only [Function.update_of_ne (Ne.symm mine)] using ih idle

section Race
variable {token : String} {i : Nat} {ch : Choice}

/-- Rows of the family stay when the family is spared. -/
lemma mem_of_familyRows (same : familyRows w' s.familyId = familyRows w s.familyId) {t : Session}
    (stored : t ∈ w.sessions) (family : t.familyId = s.familyId) : t ∈ w'.sessions := by
  have mem : t ∈ familyRows w s.familyId :=
    List.mem_filter.mpr ⟨stored, decide_eq_true family⟩
  rw [← same] at mem
  exact (List.mem_filter.mp mem).1

lemma Race.other (race : Race env reqs s token callers c) (outside : i ∉ callers)
    (spared : familyRows c'.world s.familyId = familyRows c.world s.familyId)
    (fired : fire (exec env) i ch c = some c') : Race env reqs s token callers c' := by
  obtain ⟨op, next, r, w', _, _, rfl⟩ := fire_eq_some.mp fired
  have apart : ∀ j ∈ callers, i ≠ j := fun j hj same => outside (same ▸ hj)
  cases race with
  | undecided row losing =>
    refine .undecided (mem_of_familyRows spared row rfl) fun j hj => ?_
    rw [own_cons_other (apart j hj)]
    simpa only [Function.update_of_ne (apart j hj).symm] using losing j hj
  | won p row issued winner mem chw claimed time made winning renewed losing =>
    have family : p.familyId = s.familyId := issued ▸ rfl
    refine .won p (mem_of_familyRows spared row family) issued winner mem chw
      (List.mem_cons_of_mem _ claimed) time made ?_ ?_ fun j hj other => ?_
    · rw [own_cons_other (apart winner mem)]
      simpa only [Function.update_of_ne (apart winner mem).symm] using winning
    · intro n hn
      obtain ⟨stored, live, same⟩ := renewed n hn
      exact ⟨mem_of_familyRows spared stored same, live, same⟩
    · rw [own_cons_other (apart j hj)]
      simpa only [Function.update_of_ne (apart j hj).symm] using losing j hj other

lemma Race.caller (empty : w.sessions = []) (collisionFree : CollisionFree env)
    (reach : Reachable env reqs w c) (consistent : Consistent c.world)
    (race : Race env reqs s token callers c) (live : s.revokedAt = none)
    (digest : hashToken env token = s.tokenHash)
    (inside : i ∈ callers) (works : ch.fails = false) (unexpired : ch.now < s.expiresAt)
    (soon : claim s 0 ∈ own i c.history → ∀ e ∈ c.history, e.who ∈ callers →
      e.call = claim s 1 → ch.now < e.choice.now + REUSE_GRACE_MS)
    (fired : fire (exec env) i ch c = some c') : Race env reqs s token callers c' := by
  have healthy : Healthy False ch := by simp [Healthy, works]
  obtain ⟨op, next, r, w', head, answered, rfl⟩ := fire_eq_some.mp fired
  cases race with
  | undecided row losing =>
    have step := Losing.step (p := s) (live.symm ▸ losing i inside) head consistent row
      (issued_of_live live) digest healthy unexpired (by simp [live]) answered
    rcases step with ⟨sessions, lost⟩ | ⟨_, won, rows, winning⟩
    · refine .undecided (sessions ▸ row) fun j hj => ?_
      by_cases mine : i = j
      · subst mine
        simpa [live] using lost
      · simpa only [own_cons_other mine, Function.update_of_ne (Ne.symm mine)] using losing j hj
    · refine .won { s with revokedAt := some ch.now } ?_
        (issued_of_live live) i inside ch ?_ rfl none
        ?_ (by simp) fun j hj other => ?_
      · rw [rows]
        refine List.mem_map.mpr ⟨s, row, if_pos (unrevokedSession_holds.mpr ⟨rfl, live⟩)⟩
      · rw [won]
        exact List.mem_cons_self
      · simpa using winning
      · simpa only [own_cons_other other.symm, Function.update_of_ne other] using
          (losing j hj).late ch.now
  | won p row issued winner mem chw claimed time made winning renewed losing =>
    by_cases wins : i = winner
    · subst wins
      have rest : ∀ j ∈ callers, j ≠ i → Losing env s token (reqs j).userAgent (some chw.now)
          (own j (⟨i, ch, ⟨op, r⟩⟩ :: c.history)) (Function.update c.pool i (next r) j) := by
        intro j hj other
        simpa only [own_cons_other other.symm, Function.update_of_ne other] using losing j hj other
      rcases winning.step empty collisionFree reach consistent head row issued healthy answered with
        ⟨sessions, winning⟩ | ⟨n, rfl, fresh, family, sessions, winning⟩
      · refine .won p (sessions ▸ row) issued i mem chw (List.mem_cons_of_mem _ claimed) time made
          (by simpa using winning) ?_ rest
        rw [sessions]
        exact renewed
      · refine .won p (sessions ▸ List.mem_append_left _ row) issued i mem chw
          (List.mem_cons_of_mem _ claimed) time (some n) (by simpa using winning) ?_ rest
        rintro _ ⟨⟩
        exact ⟨sessions ▸ List.mem_append_right _ (List.mem_singleton_self n), fresh, family⟩
    · have step := Losing.step (time.symm ▸ losing i inside wins) head consistent row issued digest
        healthy unexpired ?_ answered
      · rcases step with ⟨sessions, lost⟩ | ⟨unclaimed, _⟩
        · refine .won p (sessions ▸ row) issued winner mem chw (List.mem_cons_of_mem _ claimed) time
            made ?_ ?_ fun j hj other => ?_
          · simpa only [own_cons_other wins, Function.update_of_ne (Ne.symm wins)] using winning
          · rw [sessions]
            exact renewed
          · by_cases mine : i = j
            · subst mine
              simpa [time] using lost
            · simpa only [own_cons_other mine, Function.update_of_ne (Ne.symm mine)] using
                losing j hj other
        · rw [time] at unclaimed
          cases unclaimed
      · rintro _ same lost
        rw [time] at same
        cases same
        exact soon lost _ claimed mem rfl

end Race

section Ends
variable {token : String} {userAgent : Option String} {claimedAt : Option Nat} {h : List OwnCall}
  {program : Task Answer} {op : Op} {next : op.Res → Task Answer}

lemma Losing.length_le (losing : Losing env s token userAgent claimedAt h program) :
    h.length ≤ 6 := by
  cases losing <;> simp [claiming]

lemma Winning.length_le {made : Option Session}
    (winning : Winning env s token userAgent made h program) : h.length ≤ 6 := by
  cases winning <;> simp [claiming]

lemma Losing.drawsNothing (losing : Losing env s token userAgent claimedAt h program)
    (head : program = .call op next) : DrawsNothing op := by
  cases losing with
  | unstarted =>
    rw [rotate_eq] at head
    cases head
    trivial
  | lost =>
    rw [reuse_eq] at head
    cases head
    trivial
  | found | unexpired | reread =>
    cases head
    trivial
  | refused => cases head

/-- A caller that ends without a win is refused, and has revoked nothing. -/
lemma Losing.finished (losing : Losing env s token userAgent claimedAt h program)
    (finished : program.outcome ≠ none) :
    program.outcome = some (.error sessionInvalid) ∧ claimedAt ≠ none ∧
      ∀ filter date n, (⟨.sessionUpdateMany filter date, n⟩ : OwnCall) ∈ h → n = .ok 0 := by
  cases losing with
  | unstarted =>
    rw [rotate_eq] at finished
    exact absurd rfl finished
  | lost =>
    rw [reuse_eq] at finished
    exact absurd rfl finished
  | found | unexpired | reread => exact absurd rfl finished
  | refused t u now time now' used taken =>
    refine ⟨rfl, by simp [taken], fun filter date n mem => ?_⟩
    simp only [claiming, List.mem_cons, List.not_mem_nil, or_false] at mem
    rcases mem with h | h | h | h | h <;> cases h
    rfl

lemma Winning.finished {made : Option Session}
    (winning : Winning env s token userAgent made h program) (finished : program.outcome ≠ none) :
    ∃ next tokens, made = some next ∧ program.outcome = some (.ok (.tokens tokens)) ∧
      next.tokenHash = hashToken env tokens.refreshToken ∧ ∃ k ∈ h, born k = some next := by
  cases winning with
  | claimed | drawn | inserted => exact absurd rfl finished
  | answered t u now bytes n payload tokens hash =>
    exact ⟨n, tokens, rfl, rfl, hash, ⟨.sessionCreate (successor env t userAgent bytes), .ok n⟩,
      by simp, rfl⟩

/-- A call of the winner draws nothing, or it draws the token or inserts. -/
lemma Winning.draws {made : Option Session}
    (winning : Winning env s token userAgent made h program) (head : program = .call op next) :
    DrawsNothing op ∨ op = .randomBytes TOKEN_BYTES ∨ ∃ d, op = .sessionCreate d := by
  cases winning with
  | claimed =>
    cases head
    exact .inr (.inl rfl)
  | drawn =>
    cases head
    exact .inr (.inr ⟨_, rfl⟩)
  | inserted =>
    cases head
    exact .inl trivial
  | answered => cases head

lemma sessionCreate_able (d : NewSession) (w : World) :
    ∃ ch, Healthy False ch ∧ exec env ch (.sessionCreate d) w ≠ none := by
  obtain ⟨id, unused⟩ := Infinite.exists_notMem_finset w.uuids.toFinset
  have fresh : id ∉ w.uuids := fun mem => unused (List.mem_toFinset.mpr mem)
  refine ⟨{ now := w.clock, uuid := id }, nofun, ?_⟩
  simp [exec, answer, insertion, query, fresh]

lemma randomBytes_fresh_able {bytes : Bytes} {n : Nat} (length : bytes.length = n)
    (unused : bytes ∉ w.draws) :
    ∃ ch, Healthy False ch ∧ exec env ch (.randomBytes n) w ≠ none := by
  refine ⟨{ now := w.clock, bytes }, nofun, ?_⟩
  simp [exec, answer, length, unused]

end Ends

/-- How simultaneous refreshes end. -/
structure OneRefreshed (env : Env) (s : Session) (callers : Finset Nat) (c : Server) (winner : Nat)
    (tokens : AuthTokens) (next : Session) : Prop where
  mem : winner ∈ callers
  returned : (c.pool winner).outcome = some (.ok (.tokens tokens))
  inserted : Inserts c.history winner next
  token : next.tokenHash = hashToken env tokens.refreshToken
  refused : ∀ i ∈ callers, i ≠ winner → (c.pool i).outcome = some (.error sessionInvalid)
  harmless : ∀ i ∈ callers, i ≠ winner → ∀ filter date n,
    (⟨.sessionUpdateMany filter date, n⟩ : OwnCall) ∈ own i c.history → n = .ok 0
  family : (c.world.sessions.filter fun t => t.familyId = s.familyId ∧ t.revokedAt = none) = [next]

lemma eq_singleton {α : Type} {l : List α} {a : α} (mem : a ∈ l) (short : l.length ≤ 1) :
    l = [a] := by
  match l with
  | [b] => rw [List.mem_singleton.mp mem]
  | b :: d :: rest => simp at short

/-- A caller of the race that is not finished can make its next call, if the
random source has a string left. -/
lemma Race.able {token : String} {i : Nat} (race : Race env reqs s token callers c)
    (inside : i ∈ callers) (unfinished : (c.pool i).outcome = none) {bytes : Bytes}
    (length : bytes.length = TOKEN_BYTES) (unused : bytes ∉ c.world.draws) :
    ∃ ch, Healthy False ch ∧ fire (exec env) i ch c ≠ none := by
  cases head : c.pool i with
  | ret a =>
    rw [head] at unfinished
    cases unfinished
  | throw e =>
    rw [head] at unfinished
    cases unfinished
  | call op next =>
    have kind : DrawsNothing op ∨ op = .randomBytes TOKEN_BYTES ∨ ∃ d, op = .sessionCreate d := by
      cases race with
      | undecided _ losing => exact .inl ((losing i inside).drawsNothing head)
      | won p _ _ winner _ _ _ _ _ winning _ losing =>
        by_cases wins : i = winner
        · subst wins
          exact winning.draws head
        · exact .inl ((losing i inside wins).drawsNothing head)
    have answerable : ∃ ch, Healthy False ch ∧ exec env ch op c.world ≠ none := by
      rcases kind with drawless | rfl | ⟨d, rfl⟩
      · exact drawsNothing_able drawless c.world
      · exact randomBytes_fresh_able length unused
      · exact sessionCreate_able d c.world
    obtain ⟨ch, healthy, answered⟩ := answerable
    exact ⟨ch, healthy, by simpa [fire, head] using answered⟩

/-- Any number of refreshes of one live session, in any interleaving: each makes
at most six calls and is never blocked, and when all have finished one has
returned the token of the only live session of the family, the others were
refused and have revoked nothing. -/
theorem simultaneous_refreshes_harmless (consistent : Consistent w) (empty : w.sessions = [])
    (collisionFree : CollisionFree env) (reach : Reachable env reqs w c)
    (stored : s ∈ c.world.sessions) (live : s.revokedAt = none) (callers : Finset Nat)
    (nonempty : callers.Nonempty) (token : String) (digest : hashToken env token = s.tokenHash)
    (presents : ∀ i ∈ callers, (reqs i).handler = .refresh token)
    (unstarted : ∀ i ∈ callers, own i c.history = []) (schedule : List (Nat × Choice))
    (simultaneous : Along (exec env) (Simultaneous env s callers) schedule c)
    (played : play (exec env) schedule c = some c') :
    (∀ i ∈ callers, (own i c'.history).length ≤ 6 ∧ ((c'.pool i).outcome = none →
      ∀ bytes : Bytes, bytes.length = TOKEN_BYTES → bytes ∉ c'.world.draws →
        ∃ ch, Healthy False ch ∧ fire (exec env) i ch c' ≠ none)) ∧
    ((∀ i ∈ callers, (c'.pool i).outcome ≠ none) →
      ∃ winner tokens next, OneRefreshed env s callers c' winner tokens next) := by
  have start : Race env reqs s token callers c := by
    refine .undecided stored fun i inside => ?_
    rw [unstarted i inside, leads_unstarted reach (unstarted i inside),
      serve_refresh (presents i inside)]
    exact .unstarted
  have race : Race env reqs s token callers c' := by
    refine along_induction (P := Simultaneous env s callers) ?_ (leads_refl c) start simultaneous
      played
    intro x x' i ch reached race move fired
    have here := leads_trans reach reached
    by_cases inside : i ∈ callers
    · exact race.caller empty collisionFree here (leads_consistent consistent here) live digest
        inside (move.works inside) (move.unexpired inside) (move.soon inside) fired
    · exact race.other inside (move.spared inside x' fired) fired
  have reach' : Reachable env reqs w c' := leads_trans reach ⟨schedule, played⟩
  refine ⟨fun i inside => ⟨?_, fun unfinished bytes length unused =>
    race.able inside unfinished length unused⟩, fun finished => ?_⟩
  · cases race with
    | undecided _ losing => exact (losing i inside).length_le
    | won p _ _ winner _ _ _ _ _ winning _ losing =>
      by_cases wins : i = winner
      · exact wins ▸ winning.length_le
      · exact (losing i inside wins).length_le
  · cases race with
    | undecided _ losing =>
      obtain ⟨i, inside⟩ := nonempty
      exact absurd rfl ((losing i inside).finished (finished i inside)).2.1
    | won p row issued winner mem ch claimed time made winning renewed losing =>
      obtain ⟨next, tokens, rfl, returned, hash, inserts⟩ := winning.finished (finished winner mem)
      obtain ⟨kept, fresh, family⟩ := renewed next rfl
      have refused := fun i inside other => (losing i inside other).finished (finished i inside)
      exact ⟨winner, tokens, next, mem, returned, inserts, hash,
        fun i inside other => (refused i inside other).1,
        fun i inside other => (refused i inside other).2.2,
        eq_singleton (List.mem_filter.mpr ⟨kept, decide_eq_true ⟨family, fresh⟩⟩)
          ((reachable_lineage empty reach').singleChain reach' s.familyId).oneLive⟩

/-- Requests 1 and 2 refresh in turns: the second loses its claim and is refused
before the first has inserted. -/
def Plain.twoRefreshes : List (Nat × Choice) :=
  [(1, { now := 6 }), (2, { now := 6 }), (2, { now := 7 }), (1, { now := 7 }), (1, { now := 8 }),
    (2, { now := 8 }), (0, { now := 9 }), (2, { now := 9 }), (1, { now := 9, bytes := bytes 2 }),
    (2, { now := 10 }), (1, { now := 10, uuid := 7 }), (1, { now := 11 })]

def Plain.refreshing : Finset Nat := {1, 2}

theorem simultaneous_refreshes_harmless_two :
    ∃ c c', Reachable Plain.env Plain.loginThenRefresh Plain.world c ∧
      play (exec Plain.env) Plain.twoRefreshes c = some c' ∧ ∃ winner tokens next,
        OneRefreshed Plain.env Plain.firstSession Plain.refreshing c' winner tokens next := by
  have shown : (play (exec Plain.env) Plain.loggedIn
      (boot Plain.env Plain.loginThenRefresh Plain.world)).any (fun c =>
    (play (exec Plain.env) Plain.twoRefreshes c).any fun c' => decide (
      Plain.firstSession ∈ c.world.sessions ∧
      (∀ i ∈ Plain.refreshing, own i c.history = []) ∧
      (∀ i ∈ Plain.refreshing, (c'.pool i).outcome ≠ none) ∧
      Along (exec Plain.env) (Simultaneous Plain.env Plain.firstSession Plain.refreshing)
        Plain.twoRefreshes c)) = true := by
    decide +kernel
  obtain ⟨c, first, shown⟩ := (Option.any_eq_true _ _).mp shown
  obtain ⟨c', second, shown⟩ := (Option.any_eq_true _ _).mp shown
  obtain ⟨stored, unstarted, finished, simultaneous⟩ := of_decide_eq_true shown
  have reach : Reachable Plain.env Plain.loginThenRefresh Plain.world c := ⟨_, first⟩
  have presents : ∀ i ∈ Plain.refreshing,
      (Plain.loginThenRefresh i).handler = .refresh (tokenText (Plain.bytes 1)) := by
    rintro (_ | i) inside
    · exact absurd inside (by decide)
    · rfl
  exact ⟨c, c', reach, second, (simultaneous_refreshes_harmless Plain.world_consistent rfl
    Plain.collisionFree reach stored rfl Plain.refreshing ⟨1, by decide⟩ _ rfl presents
    unstarted Plain.twoRefreshes simultaneous second).2 finished⟩

end BajaValle
