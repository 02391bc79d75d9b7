import BajaValle.Requests
import BajaValle.Steps
import Mathlib.Data.List.Chain

/-!
# Families of sessions

The insertions of a run, latest first, are the `births` of its sessions. In each
family only the latest birth can be live, and a claimed session stays the
latest of its family until the rotation that claimed it inserts the successor.
-/

namespace BajaValle

open CallPrograms Interleaving SessionsService

variable {env : Env} {reqs : Nat → Request}

/-- The session that a call inserted. -/
def born : OwnCall → Option Session
  | ⟨.sessionCreate _, .ok s⟩ => some s
  | _ => none

def births (history : List ServerEvent) : List Session :=
  history.filterMap fun e => born e.call

def latest (history : List ServerEvent) (familyId : Uuid) : Option Session :=
  (births history).find? (·.familyId = familyId)

/-- The row as it was inserted. -/
def Session.issued (s : Session) : Session := { s with revokedAt := none }

def Claims (reqs : Nat → Request) (history : List ServerEvent) (i : Nat) (sessionId : Uuid) :
    Prop :=
  (∃ token, (reqs i).handler = .refresh token) ∧ Claimed (own i history) sessionId

/-- The request has inserted this session. -/
def Inserts (history : List ServerEvent) (i : Nat) (s : Session) : Prop :=
  ∃ k ∈ own i history, born k = some s

instance (history : List ServerEvent) (i : Nat) (s : Session) :
    Decidable (Inserts history i s) := inferInstanceAs (Decidable (∃ k ∈ _, _))

/-- The request rotated the one session into the other. -/
def Rotates (env : Env) (reqs : Nat → Request) (history : List ServerEvent) (i : Nat)
    (old new : Session) : Prop :=
  ∃ token, (reqs i).handler = .refresh token ∧ hashToken env token = old.tokenHash ∧
    Claimed (own i history) old.id ∧ Inserts history i new

/-- No two issued tokens have the same digest. -/
def CollisionFree (env : Env) : Prop :=
  ∀ a b : Bytes, a.length = TOKEN_BYTES → b.length = TOKEN_BYTES →
    env.sha256 (utf8 (tokenText a)) = env.sha256 (utf8 (tokenText b)) → a = b

/-- What is known of an inserted session and of the request that inserted it. -/
structure Birth (env : Env) (req : Request) (h : List OwnCall) (s : Session) : Prop where
  live : s.revokedAt = none
  token : ∃ bytes, (⟨.randomBytes TOKEN_BYTES, bytes⟩ : OwnCall) ∈ h ∧
    s.tokenHash = hashToken env (tokenText bytes)
  origin : Origin env req h s.userId s.familyId

section Births
variable {history : List ServerEvent} {e : ServerEvent} {i : Nat} {s : Session}

@[simp] lemma issued_issued (s : Session) : s.issued.issued = s.issued := rfl

lemma issued_of_live (live : s.revokedAt = none) : s.issued = s := by
  simp [Session.issued, ← live]

lemma mem_births : s ∈ births history ↔ ∃ e ∈ history, born e.call = some s := by
  simp [births]

lemma births_cons_none (h : born e.call = none) : births (e :: history) = births history := by
  simp [births, h]

lemma latest_cons_none (h : born e.call = none) (f : Uuid) :
    latest (e :: history) f = latest history f := by
  simp [latest, births_cons_none h]

lemma births_cons_some (h : born e.call = some s) :
    births (e :: history) = s :: births history := by
  simp [births, h]

lemma latest_cons_self (h : born e.call = some s) :
    latest (e :: history) s.familyId = some s := by
  simp [latest, births_cons_some h]

lemma latest_cons_other (h : born e.call = some s) {f : Uuid} (other : s.familyId ≠ f) :
    latest (e :: history) f = latest history f := by
  simp [latest, births_cons_some h, other]

lemma born_of_leaves {k : OwnCall} (leaves : LeavesSessions k) : born k = none := by
  unfold born
  split
  · exact leaves.elim
  · rfl

lemma born_isInsert {k : OwnCall} (h : born k = some s) : IsInsert k.op := by
  unfold born at h
  split at h
  · trivial
  · cases h

lemma born_drawn {k : OwnCall} (h : born k = some s) : drawnUuid k = some s.id := by
  unfold born at h
  split at h
  · obtain rfl := Option.some.inj h
    rfl
  · cases h

lemma inserts_iff : Inserts history i s ↔ ∃ e ∈ history, e.who = i ∧ born e.call = some s := by
  constructor
  · rintro ⟨k, hk, hb⟩
    obtain ⟨ch, mem⟩ := mem_own.mp hk
    exact ⟨_, mem, rfl, hb⟩
  · rintro ⟨⟨who, ch, call⟩, mem, rfl, hb⟩
    exact ⟨call, mem_own.mpr ⟨ch, mem⟩, hb⟩

lemma own_subset_cons : own i history ⊆ own i (e :: history) := by
  intro k hk
  exact mem_own_cons.mpr (.inr hk)

lemma Inserts.cons (h : Inserts history i s) : Inserts (e :: history) i s := by
  obtain ⟨k, hk, hb⟩ := h
  exact ⟨k, own_subset_cons hk, hb⟩

lemma Rotates.cons {old new : Session} (h : Rotates env reqs history i old new) :
    Rotates env reqs (e :: history) i old new := by
  obtain ⟨token, isRefresh, hash, claimed, inserts⟩ := h
  exact ⟨token, isRefresh, hash, own_subset_cons claimed, inserts.cons⟩

lemma presented_mono {h h' : List OwnCall} {token : String} (sub : h ⊆ h')
    (read : Presented env h token s) : Presented env h' token s := by
  obtain ⟨u, mem⟩ := read
  exact ⟨u, sub mem⟩

lemma origin_mono {h h' : List OwnCall} {req : Request} {userId familyId : Uuid} (sub : h ⊆ h')
    (origin : Origin env req h userId familyId) : Origin env req h' userId familyId := by
  unfold Origin at origin ⊢
  split at origin
  · obtain ⟨p, read, claimed, user, family⟩ := origin
    exact ⟨p, presented_mono sub read, sub claimed, user, family⟩
  · exact sub origin

/-- A claim is an old one or the call just made. -/
lemma claims_cons {j : Nat} {ch : Choice} {k : OwnCall} {sessionId : Uuid}
    (h : Claims reqs (⟨j, ch, k⟩ :: history) i sessionId) :
    Claims reqs history i sessionId ∨
      (j = i ∧ (∃ token, (reqs i).handler = .refresh token) ∧
        k = ⟨revocation (unrevokedSession sessionId), .ok 1⟩) := by
  obtain ⟨isRefresh, claimed⟩ := h
  rcases mem_own_cons.mp claimed with ⟨who, call⟩ | old
  · exact .inr ⟨who, isRefresh, call.symm⟩
  · exact .inl ⟨isRefresh, old⟩

end Births

section Runs
variable {w : World} {c : Server} (reach : Reachable env reqs w c)
include reach

/-- A request inserts at most once. -/
lemma insert_once {e e' : ServerEvent} (he : e ∈ c.history) (he' : e' ∈ c.history)
    (insert : IsInsert e.call.op) (insert' : IsInsert e'.call.op) (same : e.who = e'.who) :
    e = e' := by
  refine leads_world_invariant (I := fun _ history => ∀ e ∈ history, ∀ e' ∈ history,
    IsInsert e.call.op → IsInsert e'.call.op → e.who = e'.who → e = e') reach
    (boot_obeys env reqs w) (by simp [boot, start]) ?_ e he e' he' insert insert' same
  rintro c i ch op r w' _ once may _
  have fresh : IsInsert op → ∀ e ∈ c.history, IsInsert e.call.op → e.who ≠ i := by
    rintro insert ⟨who, ch', call⟩ he insert' rfl
    exact may.unborn insert call (mem_own.mpr ⟨ch', he⟩) insert'
  intro e he e' he' insert insert' same
  rcases List.mem_cons.mp he with rfl | he <;> rcases List.mem_cons.mp he' with rfl | he'
  · rfl
  · exact absurd same.symm (fresh insert e' he' insert')
  · exact absurd same (fresh insert' e he insert)
  · exact once e he e' he' insert insert' same

lemma birth {e : ServerEvent} {s : Session} (he : e ∈ c.history) (hb : born e.call = some s) :
    Birth env (reqs e.who) (own e.who c.history) s := by
  refine leads_world_invariant (I := fun _ history => ∀ e ∈ history, ∀ s, born e.call = some s →
    Birth env (reqs e.who) (own e.who history) s) reach
    (boot_obeys env reqs w) (by simp [boot, start]) ?_ e he s hb
  intro c i ch op r w' _ births may answered e he s hb
  rcases List.mem_cons.mp he with rfl | he
  · cases exec_sessions answered with
    | kept _ leaves => simp [born_of_leaves leaves] at hb
    | updated => cases hb
    | inserted d =>
      obtain rfl := Option.some.inj hb
      obtain ⟨_, _, ⟨bytes, drawn, hash⟩, origin⟩ := may
      exact ⟨rfl, ⟨bytes, own_subset_cons drawn, hash⟩, origin_mono own_subset_cons origin⟩
  · obtain ⟨live, ⟨bytes, drawn, hash⟩, origin⟩ := births e he s hb
    exact ⟨live, ⟨bytes, own_subset_cons drawn, hash⟩, origin_mono own_subset_cons origin⟩

/-- A refresh claims with its third call, so it claims once. -/
lemma claims_one {i : Nat} {id id' : Uuid} (claims : Claims reqs c.history i id)
    (claims' : Claims reqs c.history i id') : id = id' := by
  refine leads_world_invariant (I := fun _ history => ∀ i id id', Claims reqs history i id →
    Claims reqs history i id' → id = id') reach (boot_obeys env reqs w)
    (by simp [boot, start, Claims, Claimed]) ?_ i id id' claims claims'
  intro c i ch op r w' _ one may _ j id id' h h'
  rcases claims_cons h with old | ⟨rfl, ⟨token, isRefresh⟩, call⟩ <;>
    rcases claims_cons h' with old' | ⟨_, ⟨token', isRefresh'⟩, call'⟩
  · exact one j id id' old old'
  · rename_i who
    cases call'
    obtain ⟨_, _, _, calls, _⟩ := may.2.claiming (who ▸ isRefresh')
    simp [Claims, Claimed, ← who, calls, revocation] at old
  · cases call
    obtain ⟨_, _, _, calls, _⟩ := may.2.claiming isRefresh
    simp [Claims, Claimed, calls, revocation] at old'
  · obtain rfl := (Call.mk.inj call).1
    injection (Call.mk.inj call').1 with same
    injection same with hid
    exact Option.some.inj hid

lemma birth_of_id {s t : Session} (hs : s ∈ births c.history) (ht : t ∈ births c.history)
    (same : s.id = t.id) : s = t := by
  obtain ⟨e, he, hs⟩ := mem_births.mp hs
  obtain ⟨e', he', ht⟩ := mem_births.mp ht
  obtain rfl := drawnUuid_once reach he he' t.id (same ▸ born_drawn hs) (born_drawn ht)
  exact Option.some.inj (hs.symm.trans ht)

/-- A token draws 32 bytes, so distinct sessions have distinct tokens. -/
lemma birth_of_token (collisionFree : CollisionFree env) {s t : Session}
    (hs : s ∈ births c.history) (ht : t ∈ births c.history) (same : s.tokenHash = t.tokenHash) :
    s = t := by
  obtain ⟨e, he, hs⟩ := mem_births.mp hs
  obtain ⟨e', he', ht⟩ := mem_births.mp ht
  obtain ⟨bytes, drawn, hash⟩ := (birth reach he hs).token
  obtain ⟨bytes', drawn', hash'⟩ := (birth reach he' ht).token
  rw [hash, hash'] at same
  obtain rfl : bytes = bytes' := collisionFree bytes bytes' (randomBytes_length reach drawn)
    (randomBytes_length reach drawn') (Base64.encode_injective base64url same)
  obtain ⟨ch, mem⟩ := mem_own.mp drawn
  obtain ⟨ch', mem'⟩ := mem_own.mp drawn'
  have draws : (⟨e.who, ch, ⟨.randomBytes TOKEN_BYTES, bytes⟩⟩ : ServerEvent) =
      ⟨e'.who, ch', ⟨.randomBytes TOKEN_BYTES, bytes⟩⟩ :=
    drawnBytes_once reach mem mem' bytes rfl rfl
  have who : e.who = e'.who := (Event.mk.inj draws).1
  obtain rfl := insert_once reach he he' (born_isInsert hs) (born_isInsert ht) who
  exact Option.some.inj (hs.symm.trans ht)

end Runs

/-- A stored row was inserted by the call or stored before it, and then only an
unrevoked row may have changed, by being revoked. -/
lemma rows_after {req : Request} {h : List OwnCall} {ch : Choice} {op : Op} {r : op.Res}
    {w w' : World} (may : May env req h op) (answered : exec env ch op w = some (r, w'))
    {s' : Session} (hs : s' ∈ w'.sessions) :
    born ⟨op, r⟩ = some s' ∨
      ∃ s ∈ w.sessions, s'.issued = s.issued ∧ (s.revokedAt ≠ none → s' = s) := by
  cases exec_sessions answered with
  | kept rows _ => exact .inr ⟨s', rows.subset hs, rfl, fun _ => rfl⟩
  | inserted d rows =>
    rw [rows] at hs
    rcases List.mem_append.mp hs with old | new
    · exact .inr ⟨s', old, rfl, fun _ => rfl⟩
    · rw [List.mem_singleton.mp new]
      exact .inl rfl
  | updated filter date rows =>
    obtain ⟨_, revokes⟩ := may
    rw [rows] at hs
    obtain ⟨s, stored, rfl⟩ := List.mem_map.mp hs
    refine .inr ⟨s, stored, ?_⟩
    split
    · rename_i held
      exact ⟨rfl, fun dead => absurd (revokes.unrevoked held) dead⟩
    · exact ⟨rfl, fun _ => rfl⟩

lemma born_issued {ch : Choice} {op : Op} {r : op.Res} {w w' : World} {s : Session}
    (answered : exec env ch op w = some (r, w')) (inserted : born ⟨op, r⟩ = some s) :
    s.issued = s := by
  cases exec_sessions answered with
  | kept _ leaves => simp [born_of_leaves leaves] at inserted
  | inserted d =>
    obtain rfl := Option.some.inj inserted
    rfl
  | updated => cases inserted

/-- The invariant of all families. -/
structure Lineage (env : Env) (reqs : Nat → Request) (w : World)
    (history : List ServerEvent) : Prop where
  distinct : (w.sessions.map Session.id).Nodup
  rows : ∀ s ∈ w.sessions, s.issued ∈ births history
  root : ∀ s ∈ births history, ∃ i, (⟨.randomUUID, s.familyId⟩ : OwnCall) ∈ own i history ∧
    ∃ t, Inserts history i t
  read : ∀ i token s, Presented env (own i history) token s → s.issued ∈ births history ∧
    s.tokenHash = hashToken env token
  claimRead : ∀ i id, Claims reqs history i id →
    ∃ token s, (reqs i).handler = .refresh token ∧ Presented env (own i history) token s ∧
      s.id = id
  spent : ∀ i id, Claims reqs history i id → ∀ s ∈ w.sessions, s.id = id → s.revokedAt ≠ none
  claimedOnce : ∀ i j id, Claims reqs history i id → Claims reqs history j id → i = j
  oneUser : ∀ s ∈ births history, ∀ t ∈ births history, s.familyId = t.familyId →
    s.userId = t.userId
  live : ∀ s ∈ w.sessions, s.revokedAt = none → latest history s.familyId = some s
  pending : ∀ i id, Claims reqs history i id → (∀ t, ¬ Inserts history i t) →
    ∃ s, s.id = id ∧ latest history s.familyId = some s
  chain : ∀ f, ((births history).filter (·.familyId = f)).IsChain
    fun new old => ∃ i, Rotates env reqs history i old new

section Lineage
variable {w w' : World} {c : Server} {i : Nat} {ch : Choice} {op : Op} {r : op.Res}

lemma latest_mem {history : List ServerEvent} {f : Uuid} {s : Session}
    (h : latest history f = some s) : s ∈ births history ∧ s.familyId = f :=
  ⟨List.mem_of_find?_eq_some h, by simpa using List.find?_some h⟩

/-! What the invariant says of the calls so far holds after another call. -/

section Earlier
variable {history : List ServerEvent} {e : ServerEvent} {id : Uuid}
  (lin : Lineage env reqs w history)
include lin

lemma Lineage.root_cons {s : Session} (hs : s ∈ births history) :
    ∃ i, (⟨.randomUUID, s.familyId⟩ : OwnCall) ∈ own i (e :: history) ∧
      ∃ t, Inserts (e :: history) i t := by
  obtain ⟨j, drawn, t, inserts⟩ := lin.root s hs
  exact ⟨j, own_subset_cons drawn, t, inserts.cons⟩

lemma Lineage.claimRead_cons (claims : Claims reqs history i id) :
    ∃ token s, (reqs i).handler = .refresh token ∧ Presented env (own i (e :: history)) token s ∧
      s.id = id := by
  obtain ⟨token, s, isRefresh, read, hid⟩ := lin.claimRead i id claims
  exact ⟨token, s, isRefresh, presented_mono own_subset_cons read, hid⟩

lemma Lineage.pending_cons (claims : Claims reqs history i id)
    (childless : ∀ t, ¬ Inserts (e :: history) i t) :
    ∃ s, s.id = id ∧ latest history s.familyId = some s :=
  lin.pending i id claims fun t inserts => childless t inserts.cons

lemma Lineage.chain_cons (f : Uuid) : ((births history).filter (·.familyId = f)).IsChain
    fun new old => ∃ i, Rotates env reqs (e :: history) i old new := by
  refine (lin.chain f).imp ?_
  rintro new old ⟨j, rotates⟩
  exact ⟨j, rotates.cons⟩

end Earlier

/-- The call neither inserts nor revokes. -/
lemma Lineage.kept (lin : Lineage env reqs c.world c.history)
    (answered : exec env ch op c.world = some (r, w'))
    (rows : w'.sessions.Sublist c.world.sessions) (leaves : LeavesSessions ⟨op, r⟩) :
    Lineage env reqs w' (⟨i, ch, ⟨op, r⟩⟩ :: c.history) := by
  have same : births (⟨i, ch, ⟨op, r⟩⟩ :: c.history) = births c.history :=
    births_cons_none (born_of_leaves leaves)
  have claims : ∀ j id, Claims reqs (⟨i, ch, ⟨op, r⟩⟩ :: c.history) j id →
      Claims reqs c.history j id := by
    intro j id h
    rcases claims_cons h with old | ⟨_, _, call⟩
    · exact old
    · rw [show (⟨op, r⟩ : OwnCall) = _ from call] at leaves
      exact leaves.elim
  constructor
  · exact lin.distinct.sublist (rows.map _)
  · intro s hs
    rw [same]
    exact lin.rows s (rows.subset hs)
  · rw [same]
    exact fun s hs => lin.root_cons hs
  · rintro j token s ⟨u, mem⟩
    rw [same]
    rcases mem_own_cons.mp mem with ⟨_, call⟩ | old
    · cases call
      obtain ⟨stored, hash, _, _⟩ := exec_find_session answered
      exact ⟨lin.rows s stored, hash⟩
    · exact lin.read j token s ⟨u, old⟩
  · exact fun j id h => lin.claimRead_cons (claims j id h)
  · exact fun j id h s hs => lin.spent j id (claims j id h) s (rows.subset hs)
  · exact fun j k id hj hk => lin.claimedOnce j k id (claims j id hj) (claims k id hk)
  · rw [same]
    exact lin.oneUser
  · intro s hs live
    rw [latest_cons_none (born_of_leaves leaves)]
    exact lin.live s (rows.subset hs) live
  · intro j id h childless
    simp only [latest_cons_none (e := ⟨i, ch, ⟨op, r⟩⟩) (born_of_leaves leaves)]
    exact lin.pending_cons (claims j id h) childless
  · intro f
    rw [same]
    exact lin.chain_cons f

section Revocations
variable {filter : SessionWhere} {now : Nat} {rows : List Session} {s : Session}

lemma revokeRows_ids : (revokeRows filter now rows).map Session.id = rows.map Session.id := by
  rw [revokeRows, List.map_map]
  refine List.map_congr_left fun s _ => ?_
  dsimp only [Function.comp_apply]
  split <;> rfl

/-- A row after a bulk update was there before it and is at most revoked by it. -/
lemma mem_revokeRows (hs : s ∈ revokeRows filter now rows) : ∃ t ∈ rows, s.id = t.id ∧
    s.issued = t.issued ∧ (t.revokedAt ≠ none → s.revokedAt ≠ none) := by
  obtain ⟨t, ht, rfl⟩ := List.mem_map.mp hs
  refine ⟨t, ht, ?_⟩
  cases held : filter.holds now t <;> simp [Session.issued]

/-- A claim after a bulk update is an old one, or the update was the claim and has
revoked the live row of a session that its request had read. -/
lemma claims_revocation {history : List ServerEvent} {j : Nat} {id : Uuid}
    (revokes : Revokes env (reqs i) (own i history) filter)
    (h : Claims reqs (⟨i, ch, ⟨revocation filter,
      .ok (rows.filter (filter.holds now)).length⟩⟩ :: history) j id) :
    Claims reqs history j id ∨ (j = i ∧ filter = unrevokedSession id ∧
      (∃ t ∈ rows, t.id = id ∧ t.revokedAt = none) ∧
      ∃ token s, (reqs j).handler = .refresh token ∧ Presented env (own j history) token s ∧
        s.id = id) := by
  rcases claims_cons h with older | ⟨rfl, ⟨token, isRefresh⟩, call⟩
  · exact .inl older
  injection call with sameOp sameCount
  obtain rfl : filter = unrevokedSession id := by
    injection sameOp
  have one : (rows.filter ((unrevokedSession id).holds now)).length = 1 := by
    injection sameCount
  obtain ⟨t, ht⟩ := List.length_eq_one_iff.mp one
  have mem : t ∈ rows.filter ((unrevokedSession id).holds now) := by
    rw [ht]
    exact List.mem_singleton_self t
  obtain ⟨stored, held⟩ := List.mem_filter.mp mem
  obtain ⟨s, u, _, calls, _, hid⟩ := revokes.claiming isRefresh
  exact .inr ⟨rfl, rfl, ⟨t, stored, unrevokedSession_holds.mp held⟩, token, s, isRefresh,
    ⟨u, by simp [calls]⟩, hid⟩

end Revocations

/-- The call revokes rows: only an unrevoked row of a claimed id is revoked by
the claim that counts one row. -/
lemma Lineage.revoked (lin : Lineage env reqs c.world c.history) {filter : SessionWhere}
    (revokes : Revokes env (reqs i) (own i c.history) filter)
    (rows : w'.sessions = revokeRows filter ch.now c.world.sessions) :
    Lineage env reqs w' (⟨i, ch, ⟨revocation filter,
      .ok (c.world.sessions.filter (filter.holds ch.now)).length⟩⟩ :: c.history) := by
  have same : born (⟨revocation filter,
      .ok (c.world.sessions.filter (filter.holds ch.now)).length⟩ : OwnCall) = none := rfl
  constructor
  · rw [rows, revokeRows_ids]
    exact lin.distinct
  · intro s hs
    obtain ⟨t, ht, _, issued, _⟩ := mem_revokeRows (rows ▸ hs)
    rw [births_cons_none same, issued]
    exact lin.rows t ht
  · rw [births_cons_none same]
    exact fun s hs => lin.root_cons hs
  · rintro j token s ⟨u, mem⟩
    rw [births_cons_none same]
    rcases mem_own_cons.mp mem with ⟨_, call⟩ | older
    · cases call
    · exact lin.read j token s ⟨u, older⟩
  · intro j id h
    rcases claims_revocation revokes h with older | ⟨_, _, _, token, s, isRefresh, read, hid⟩
    · exact lin.claimRead_cons older
    · exact ⟨token, s, isRefresh, presented_mono own_subset_cons read, hid⟩
  · intro j id h s hs hid
    rcases claims_revocation revokes h with older | ⟨_, rfl, _⟩
    · obtain ⟨t, ht, sameId, _, dead⟩ := mem_revokeRows (rows ▸ hs)
      exact dead (lin.spent j id older t ht (sameId ▸ hid))
    · intro live
      obtain ⟨_, missed⟩ := live_of_mem_revokeRows (rows ▸ hs) live
      simp [unrevokedSession_holds.mpr ⟨hid, live⟩] at missed
  · intro j k id hj hk
    rcases claims_revocation revokes hj with oldj | ⟨rfl, _, ⟨t, ht, hid, live⟩, _⟩ <;>
      rcases claims_revocation revokes hk with oldk | ⟨rfl, _, ⟨t', ht', hid', live'⟩, _⟩
    · exact lin.claimedOnce j k id oldj oldk
    · exact absurd live' (lin.spent j id oldj t' ht' hid')
    · exact absurd live (lin.spent k id oldk t ht hid)
    · rfl
  · rw [births_cons_none same]
    exact lin.oneUser
  · intro s hs live
    rw [latest_cons_none same]
    exact lin.live s (live_of_mem_revokeRows (rows ▸ hs) live).1 live
  · intro j id h childless
    simp only [latest_cons_none (e := ⟨i, ch, ⟨revocation filter, _⟩⟩) same]
    rcases claims_revocation revokes h with older | ⟨_, _, ⟨t, ht, hid, live⟩, _⟩
    · exact lin.pending_cons older childless
    · exact ⟨t, hid, lin.live t ht live⟩
  · intro f
    rw [births_cons_none same]
    exact lin.chain_cons f

/-- A new session of the request starts a family, or succeeds the latest session of one. -/
inductive Succession (env : Env) (reqs : Nat → Request) (history : List ServerEvent) (i : Nat)
    (userId familyId : Uuid) : Prop where
  | starts (drawn : (⟨.randomUUID, familyId⟩ : OwnCall) ∈ own i history)
      (fresh : ∀ s ∈ births history, s.familyId ≠ familyId)
  | succeeds (token : String) (old : Session) (isRefresh : (reqs i).handler = .refresh token)
      (hash : hashToken env token = old.tokenHash) (claimed : Claims reqs history i old.id)
      (head : latest history familyId = some old) (user : old.userId = userId)

lemma Lineage.succession (reach : Reachable env reqs w c)
    (lin : Lineage env reqs c.world c.history) {d : NewSession} (unborn : Unborn (own i c.history))
    (origin : Origin env (reqs i) (own i c.history) d.userId d.familyId) :
    Succession env reqs c.history i d.userId d.familyId := by
  have childless : ∀ t, ¬ Inserts c.history i t := by
    rintro t ⟨k, hk, hb⟩
    exact unborn k hk (born_isInsert hb)
  unfold Origin at origin
  split at origin
  · rename_i token isRefresh
    obtain ⟨p, read, claimed, user, family⟩ := origin
    have claims : Claims reqs c.history i p.id := ⟨⟨token, isRefresh⟩, claimed⟩
    obtain ⟨issued, hash⟩ := lin.read i token p read
    obtain ⟨s, hid, head⟩ := lin.pending i p.id claims childless
    obtain rfl : s = p.issued := birth_of_id reach (latest_mem head).1 issued hid
    exact .succeeds token p.issued isRefresh hash.symm claims (family ▸ head) user.symm
  · refine .starts origin fun s hs family => ?_
    obtain ⟨j, drawn, t, inserts⟩ := lin.root s hs
    obtain ⟨ch, mem⟩ := mem_own.mp drawn
    obtain ⟨ch', mem'⟩ := mem_own.mp origin
    have once := drawnUuid_once reach mem mem' d.familyId (by simp [drawnUuid, family]) rfl
    obtain rfl : j = i := (Event.mk.inj once).1
    exact childless t inserts

section Successions
variable {history : List ServerEvent} {e : ServerEvent} {userId familyId : Uuid} {s new : Session}
  (succession : Succession env reqs history i userId familyId)
include succession

/-- Whatever was the latest of the family, the request has claimed it. -/
lemma Succession.overtakes (was : latest history familyId = some s) :
    Claims reqs history i s.id := by
  cases succession with
  | starts _ fresh => exact absurd (latest_mem was).2 (fresh s (latest_mem was).1)
  | succeeds _ old _ _ claimed head _ =>
    obtain rfl := Option.some.inj (was.symm.trans head)
    exact claimed

/-- A session that the request has not claimed is the latest of its family still. -/
lemma Succession.latest_kept (inserted : born e.call = some new) (family : new.familyId = familyId)
    (was : latest history s.familyId = some s) (unclaimed : ¬ Claims reqs history i s.id) :
    latest (e :: history) s.familyId = some s := by
  rw [latest_cons_other inserted ?_]
  · exact was
  · intro same
    obtain rfl : familyId = s.familyId := family.symm.trans same
    exact unclaimed (succession.overtakes was)

lemma Lineage.sameUser (lin : Lineage env reqs w history) (hs : s ∈ births history)
    (family : s.familyId = familyId) : s.userId = userId := by
  cases succession with
  | starts _ fresh => exact absurd family (fresh s hs)
  | succeeds _ old _ _ _ head user =>
    obtain ⟨mem, same⟩ := latest_mem head
    exact (lin.oneUser s hs old mem (family.trans same.symm)).trans user

lemma Lineage.oneUser_cons (lin : Lineage env reqs w history) (inserted : born e.call = some new)
    (family : new.familyId = familyId) (user : new.userId = userId) :
    ∀ s ∈ births (e :: history), ∀ t ∈ births (e :: history), s.familyId = t.familyId →
      s.userId = t.userId := by
  rw [births_cons_some inserted]
  intro s hs t ht same
  rcases List.mem_cons.mp hs with rfl | olds <;> rcases List.mem_cons.mp ht with rfl | oldt
  · rfl
  · exact user.trans (lin.sameUser succession oldt (same.symm.trans family)).symm
  · exact (lin.sameUser succession olds (same.trans family)).trans user.symm
  · exact lin.oneUser s olds t oldt same

lemma Lineage.rooted (lin : Lineage env reqs w history) (inserts : Inserts (e :: history) i new) :
    ∃ j, (⟨.randomUUID, familyId⟩ : OwnCall) ∈ own j (e :: history) ∧
      ∃ t, Inserts (e :: history) j t := by
  cases succession with
  | starts drawn _ => exact ⟨i, own_subset_cons drawn, new, inserts⟩
  | succeeds _ old _ _ _ head _ =>
    obtain ⟨mem, rfl⟩ := latest_mem head
    exact lin.root_cons mem

/-- In its family the new session was made by the rotation of the latest one. -/
lemma Lineage.longerChain (lin : Lineage env reqs w history) (inserted : born e.call = some new)
    (inserts : Inserts (e :: history) i new) (family : new.familyId = familyId) (f : Uuid) :
    ((births (e :: history)).filter (·.familyId = f)).IsChain
      fun new old => ∃ j, Rotates env reqs (e :: history) j old new := by
  rw [births_cons_some inserted, List.filter_cons]
  split
  · rename_i same
    obtain rfl : familyId = f := by simpa [family] using same
    refine List.isChain_cons.mpr ⟨fun old hold => ?_, lin.chain_cons familyId⟩
    have was : latest history familyId = some old := by rwa [List.head?_filter] at hold
    cases succession with
    | starts _ fresh => exact absurd (latest_mem was).2 (fresh old (latest_mem was).1)
    | succeeds token _ isRefresh hash claimed head _ =>
      obtain rfl := Option.some.inj (was.symm.trans head)
      exact ⟨i, token, isRefresh, hash, own_subset_cons claimed.2, inserts⟩
  · exact lin.chain_cons f

end Successions

/-- The call inserts a session. -/
lemma Lineage.inserted (reach : Reachable env reqs w c)
    (lin : Lineage env reqs c.world c.history) {d : NewSession}
    (unborn : Unborn (own i c.history))
    (origin : Origin env (reqs i) (own i c.history) d.userId d.familyId)
    (unused : ch.uuid ∉ c.world.uuids)
    (rows : w'.sessions = c.world.sessions ++ [d.row ch.uuid ch.now]) :
    Lineage env reqs w' (⟨i, ch, ⟨.sessionCreate d, .ok (d.row ch.uuid ch.now)⟩⟩ :: c.history) := by
  have hb : born (⟨.sessionCreate d, .ok (d.row ch.uuid ch.now)⟩ : OwnCall) =
    some (d.row ch.uuid ch.now) := rfl
  have unusedId : ∀ s ∈ births c.history, s.id ≠ ch.uuid := by
    intro s hs hid
    obtain ⟨e, he, hb⟩ := mem_births.mp hs
    exact unused (drawnUuid_used reach he (hid ▸ born_drawn hb))
  have claims : ∀ j id, Claims reqs (⟨i, ch, ⟨.sessionCreate d,
      .ok (d.row ch.uuid ch.now)⟩⟩ :: c.history) j id → Claims reqs c.history j id := by
    intro j id h
    rcases claims_cons h with old | ⟨_, _, call⟩
    · exact old
    · cases call
  have inserts : Inserts (⟨i, ch, ⟨.sessionCreate d, .ok (d.row ch.uuid ch.now)⟩⟩ :: c.history) i
      (d.row ch.uuid ch.now) := ⟨_, mem_own_cons.mpr (.inl ⟨rfl, rfl⟩), hb⟩
  have mem : ∀ s ∈ w'.sessions, s ∈ c.world.sessions ∨ s = d.row ch.uuid ch.now := by
    intro s hs
    rw [rows] at hs
    exact (List.mem_append.mp hs).imp_right List.mem_singleton.mp
  have succession := lin.succession reach unborn origin
  constructor
  · rw [rows, List.map_append, List.nodup_append]
    refine ⟨lin.distinct, by simp, ?_⟩
    rintro _ hx _ hy rfl
    obtain ⟨s, hs, rfl⟩ := List.mem_map.mp hx
    exact unusedId s.issued (lin.rows s hs) (List.mem_singleton.mp hy)
  · intro s hs
    rw [births_cons_some hb]
    rcases mem s hs with old | rfl
    · exact List.mem_cons_of_mem _ (lin.rows s old)
    · exact List.mem_cons_self
  · intro s hs
    rw [births_cons_some hb] at hs
    rcases List.mem_cons.mp hs with rfl | hs
    · exact lin.rooted succession inserts
    · exact lin.root_cons hs
  · rintro j token s ⟨u, mem⟩
    rw [births_cons_some hb]
    rcases mem_own_cons.mp mem with ⟨_, call⟩ | older
    · cases call
    · obtain ⟨issued, hash⟩ := lin.read j token s ⟨u, older⟩
      exact ⟨List.mem_cons_of_mem _ issued, hash⟩
  · exact fun j id h => lin.claimRead_cons (claims j id h)
  · intro j id h s hs hid
    rcases mem s hs with old | rfl
    · exact lin.spent j id (claims j id h) s old hid
    · obtain ⟨token, p, _, read, rfl⟩ := lin.claimRead j id (claims j id h)
      exact absurd hid.symm (unusedId p.issued (lin.read j token p read).1)
  · exact fun j k id hj hk => lin.claimedOnce j k id (claims j id hj) (claims k id hk)
  · exact lin.oneUser_cons succession hb rfl rfl
  · intro s hs live
    rcases mem s hs with old | rfl
    · exact succession.latest_kept hb rfl (lin.live s old live) fun claimed =>
        lin.spent i s.id claimed s old rfl live
    · exact latest_cons_self hb
  · intro j id h childless
    obtain ⟨s, rfl, was⟩ := lin.pending_cons (claims j id h) childless
    refine ⟨s, rfl, succession.latest_kept hb rfl was fun claimed => ?_⟩
    obtain rfl := lin.claimedOnce i j s.id claimed (claims j s.id h)
    exact childless _ inserts
  · exact lin.longerChain succession hb inserts rfl

/-- The invariant holds in every state reached from one without sessions. -/
theorem reachable_lineage {w : World} (empty : w.sessions = []) {c : Server}
    (reach : Reachable env reqs w c) :
    Lineage env reqs c.world c.history := by
  refine leads_world_invariant (I := Lineage env reqs) reach (boot_obeys env reqs w) ?_ ?_
  · constructor <;> simp [boot, start, empty, births, latest, Claims, Claimed, Presented]
  · intro c i ch op r w' reach lin may answered
    cases exec_sessions answered with
    | kept rows leaves => exact lin.kept answered rows leaves
    | inserted d rows unused => exact lin.inserted reach may.1 may.2.2.2 unused rows
    | updated filter date rows =>
      obtain ⟨rfl, revokes⟩ := may
      exact lin.revoked revokes rows

end Lineage

/-- The sessions of one family: at most one is live, none is while a rotation
has claimed and not yet inserted, and each but the first was made by the one
rotation of the session before it. -/
structure SingleChain (env : Env) (reqs : Nat → Request) (c : Server) (familyId : Uuid) :
    Prop where
  oneLive : (c.world.sessions.filter fun s =>
    s.familyId = familyId ∧ s.revokedAt = none).length ≤ 1
  noneWhileRotating : ∀ i token s, (reqs i).handler = .refresh token →
    Presented env (own i c.history) token s → Claimed (own i c.history) s.id →
    s.familyId = familyId → (∀ t, ¬ Inserts c.history i t) →
    ∀ t ∈ c.world.sessions, t.familyId = familyId → t.revokedAt ≠ none
  oneUser : ∀ s ∈ c.world.sessions, ∀ t ∈ c.world.sessions, s.familyId = familyId →
    t.familyId = familyId → s.userId = t.userId
  members : ∀ s ∈ c.world.sessions, s.familyId = familyId → s.issued ∈ births c.history
  chain : ((births c.history).filter (·.familyId = familyId)).IsChain
    fun new old => ∃ i, Rotates env reqs c.history i old new

lemma length_le_one {α : Type} {l : List α} (nodup : l.Nodup)
    (equal : ∀ a ∈ l, ∀ b ∈ l, a = b) : l.length ≤ 1 := by
  match l with
  | [] => exact Nat.zero_le 1
  | [_] => exact le_rfl
  | a :: b :: rest =>
    have same := equal a (by simp) b (by simp)
    simp [same] at nodup

lemma Lineage.singleChain {w : World} {c : Server} (reach : Reachable env reqs w c)
    (lin : Lineage env reqs c.world c.history) (f : Uuid) : SingleChain env reqs c f where
  oneLive := by
    refine length_le_one (lin.distinct.of_map.filter _) ?_
    intro s hs t ht
    simp only [List.mem_filter, decide_eq_true_eq] at hs ht
    obtain ⟨hs, rfl, live⟩ := hs
    obtain ⟨ht, family, live'⟩ := ht
    have last := lin.live t ht live'
    rw [family, lin.live s hs live] at last
    exact Option.some.inj last
  noneWhileRotating := by
    rintro i token s isRefresh read claimed rfl childless t ht family live
    have claims : Claims reqs c.history i s.id := ⟨⟨token, isRefresh⟩, claimed⟩
    obtain ⟨p, hid, last⟩ := lin.pending i s.id claims childless
    obtain rfl : p = s.issued :=
      birth_of_id reach (latest_mem last).1 (lin.read i token s read).1 hid
    have head := lin.live t ht live
    rw [family, show latest c.history s.familyId = some s.issued from last] at head
    obtain rfl := Option.some.inj head
    exact lin.spent i s.id claims _ ht rfl live
  oneUser := by
    intro s hs t ht hf hf'
    exact lin.oneUser s.issued (lin.rows s hs) t.issued (lin.rows t ht) (hf.trans hf'.symm)
  members := fun s hs _ => lin.rows s hs
  chain := lin.chain f

/-- Every refresh inserts only after a claim of the session it presented. -/
lemma claims_of_inserts {w : World} {c : Server} (reach : Reachable env reqs w c) {i : Nat}
    {token : String} {t : Session} (isRefresh : (reqs i).handler = .refresh token)
    (inserts : Inserts c.history i t) :
    ∃ s, Presented env (own i c.history) token s ∧ Claims reqs c.history i s.id := by
  obtain ⟨e, he, rfl, hb⟩ := inserts_iff.mp inserts
  have origin := (birth reach he hb).origin
  simp only [Origin, isRefresh] at origin
  obtain ⟨s, read, claimed, _, _⟩ := origin
  exact ⟨s, read, ⟨token, isRefresh⟩, claimed⟩

theorem families_stay_single_chains (env : Env) (collisionFree : CollisionFree env)
    (reqs : Nat → Request) (w : World) (empty : w.sessions = []) (c : Server)
    (reach : Reachable env reqs w c) :
    (∀ familyId, SingleChain env reqs c familyId) ∧
      ∀ token i j, (reqs i).handler = .refresh token → (reqs j).handler = .refresh token →
        (∃ s, Inserts c.history i s) → (∃ s, Inserts c.history j s) → i = j := by
  have lin := reachable_lineage empty reach
  refine ⟨lin.singleChain reach, ?_⟩
  rintro token i j hi hj ⟨s, inserts⟩ ⟨t, inserts'⟩
  obtain ⟨p, read, claims⟩ := claims_of_inserts reach hi inserts
  obtain ⟨q, read', claims'⟩ := claims_of_inserts reach hj inserts'
  obtain ⟨born, hash⟩ := lin.read i token p read
  obtain ⟨born', hash'⟩ := lin.read j token q read'
  have same := birth_of_token reach collisionFree born born' (hash.trans hash'.symm)
  have sameId : p.id = q.id := by simpa [Session.issued] using congrArg Session.id same
  exact lin.claimedOnce i j p.id claims (sameId ▸ claims')

lemma Plain.collisionFree : CollisionFree Plain.env := fun _ _ _ _ same =>
  Base64.encode_injective base64url (utf8_injective same)

/-- A login and a rotation, each played to the insertion of its session. -/
theorem families_stay_single_chains_refreshed :
    ∃ c, Reachable Plain.env Plain.loginThenRefresh Plain.world c ∧ c.world.sessions.length = 2 ∧
      ∀ familyId, SingleChain Plain.env Plain.loginThenRefresh c familyId := by
  have shown : ∃ c, Reachable Plain.env Plain.loginThenRefresh Plain.world c ∧
      c.world.sessions.length = 2 :=
    play_reaches (Plain.loggedIn ++ Plain.refreshed 1) (by decide +kernel)
  obtain ⟨c, reach, two⟩ := shown
  exact ⟨c, reach, two,
    (families_stay_single_chains Plain.env Plain.collisionFree _ _ rfl c reach).1⟩

end BajaValle
