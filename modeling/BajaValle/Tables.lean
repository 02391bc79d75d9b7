import BajaValle.Families
import Mathlib.Data.List.Nodup

/-!
# What the database keeps

The constraints of the two tables hold after every call if they held before it:
ids are drawn once, token digests are unique, and every session has its user.
A row that is gone does not come back, since its id is never drawn again.
-/

namespace BajaValle

open CallPrograms Interleaving SessionsService

/-- The constraints of the schema, and that ids are generated fresh. -/
structure Consistent (w : World) : Prop where
  userIds : ∀ u ∈ w.users, u.id ∈ w.uuids
  sessionIds : ∀ s ∈ w.sessions, s.id ∈ w.uuids
  owners : ∀ s ∈ w.sessions, ∃ u ∈ w.users, u.id = s.userId
  ids : w.sessions.Pairwise fun s t => s.id ≠ t.id
  tokens : w.sessions.Pairwise fun s t => s.tokenHash ≠ t.tokenHash

section Rows
variable {w : World} {s t : Session}

lemma id_of_issued (same : t.issued = s.issued) : t.id = s.id :=
  (congrArg Session.id same : t.issued.id = s.issued.id)

lemma userId_of_issued (same : t.issued = s.issued) : t.userId = s.userId :=
  (congrArg Session.userId same : t.issued.userId = s.issued.userId)

lemma expiresAt_of_issued (same : t.issued = s.issued) : t.expiresAt = s.expiresAt :=
  (congrArg Session.expiresAt same : t.issued.expiresAt = s.issued.expiresAt)

lemma Consistent.eq_of_id (consistent : Consistent w) (hs : s ∈ w.sessions) (ht : t ∈ w.sessions)
    (same : s.id = t.id) : s = t :=
  List.inj_on_of_nodup_map (List.pairwise_map.mpr consistent.ids) hs ht same

lemma Consistent.eq_of_token (consistent : Consistent w) (hs : s ∈ w.sessions)
    (ht : t ∈ w.sessions) (same : s.tokenHash = t.tokenHash) : s = t :=
  List.inj_on_of_nodup_map (List.pairwise_map.mpr consistent.tokens) hs ht same

lemma Consistent.filter_id (consistent : Consistent w) {p : Session → Bool} (hs : s ∈ w.sessions)
    (held : p s = true) (ofId : ∀ t, p t = true → t.id = s.id) : w.sessions.filter p = [s] := by
  have nodup : w.sessions.Nodup := consistent.ids.imp fun differ same =>
    differ (congrArg Session.id same)
  have only : ∀ t ∈ w.sessions, p t = (t == s) := by
    intro t ht
    by_cases same : t = s
    · simp [same, held]
    · rw [beq_eq_false_iff_ne.mpr same]
      exact Bool.eq_false_iff.mpr fun held => same (consistent.eq_of_id ht hs (ofId t held))
  rw [List.filter_congr only, List.filter_beq, List.count_eq_one_of_mem nodup hs]
  rfl

/-- The read of a stored token finds its session, with its user. -/
lemma Consistent.find_token (consistent : Consistent w) (hs : s ∈ w.sessions) :
    ∃ u, (w.sessions.find? (·.tokenHash = s.tokenHash)).bind w.withUser = some (s, u) := by
  obtain ⟨q, found⟩ := Option.isSome_iff_exists.mp
    (List.find?_isSome.mpr ⟨s, hs, decide_eq_true rfl⟩ :
      (w.sessions.find? (·.tokenHash = s.tokenHash)).isSome)
  obtain rfl := consistent.eq_of_token (List.mem_of_find?_eq_some found) hs
    (by simpa using List.find?_some found)
  obtain ⟨u, hu, owner⟩ := consistent.owners q hs
  obtain ⟨v, joined⟩ := Option.isSome_iff_exists.mp
    (List.find?_isSome.mpr ⟨u, hu, decide_eq_true owner⟩ :
      (w.users.find? (·.id = q.userId)).isSome)
  exact ⟨v, by rw [found, Option.bind_some, World.withUser, joined]; rfl⟩

lemma Consistent.find_id (consistent : Consistent w) (hs : s ∈ w.sessions) :
    w.sessions.find? (·.id = s.id) = some s := by
  obtain ⟨q, found⟩ := Option.isSome_iff_exists.mp
    (List.find?_isSome.mpr ⟨s, hs, decide_eq_true rfl⟩ :
      (w.sessions.find? (·.id = s.id)).isSome)
  rw [found, consistent.eq_of_id (List.mem_of_find?_eq_some found) hs
    (by simpa using List.find?_some found)]

/-- The claim of a live session counts one row. -/
lemma Consistent.claim_counts (consistent : Consistent w) (hs : s ∈ w.sessions)
    (live : s.revokedAt = none) (now : Nat) :
    (w.sessions.filter ((unrevokedSession s.id).holds now)).length = 1 := by
  rw [consistent.filter_id hs (unrevokedSession_holds.mpr ⟨rfl, live⟩) fun t held =>
    (unrevokedSession_holds.mp held).1]
  rfl

/-- The claim of a revoked session counts none. -/
lemma Consistent.claim_misses (consistent : Consistent w) (hs : s ∈ w.sessions)
    (dead : s.revokedAt ≠ none) (now : Nat) :
    w.sessions.filter ((unrevokedSession s.id).holds now) = [] := by
  refine List.filter_eq_nil_iff.mpr fun t ht held => ?_
  obtain ⟨same, live⟩ := unrevokedSession_holds.mp held
  obtain rfl := consistent.eq_of_id ht hs same
  exact dead live

end Rows

section Steps
variable {env : Env} {ch : Choice} {op : Op} {w w' : World} {r : op.Res}

/-- Calls that touch no session, not even by a cascade. -/
def SparesSessions : Op → Prop
  | .userDelete _ | .sessionCreate _ | .sessionUpdateMany _ _ => False
  | _ => True

lemma exec_sparesSessions (answered : exec env ch op w = some (r, w'))
    (spares : SparesSessions op) :
    w'.sessions = w.sessions := by
  by_cases reads : ReadOnly op
  · exact (exec_readOnly answered reads).1
  obtain ⟨_, h⟩ := exec_eq_some.mp answered
  cases op with
  | userCreate d =>
    simp only [answer, insertion_eq_some, query_eq_some, Prod.mk.injEq] at h
    obtain ⟨_, ⟨_, _, rfl⟩ | ⟨_, out⟩⟩ := h
    · rfl
    · unfold World.userCreate at out
      split_ifs at out <;> (obtain ⟨_, rfl⟩ := Prod.mk.inj out; rfl)
  | userUpdate id c =>
    simp only [answer, query_eq_some, Prod.mk.injEq] at h
    rcases h with ⟨_, _, rfl⟩ | ⟨_, out⟩
    · rfl
    · unfold World.userUpdate at out
      split at out
      · obtain ⟨_, rfl⟩ := Prod.mk.inj out
        rfl
      · split_ifs at out <;> (obtain ⟨_, rfl⟩ := Prod.mk.inj out; rfl)
  | userDelete id => exact spares.elim
  | sessionCreate d => exact spares.elim
  | sessionUpdateMany filter date => exact spares.elim
  | _ => exact absurd trivial reads

/-- A query that was answered by an error. -/
def Failed : OwnCall → Prop
  | ⟨.userCreate _, .error _⟩ | ⟨.userUpdate _ _, .error _⟩ | ⟨.userDelete _, .error _⟩ => True
  | ⟨.sessionCreate _, .error _⟩ | ⟨.sessionUpdateMany _ _, .error _⟩ => True
  | _ => False

/-- A query that fails changes neither table. -/
lemma exec_failed (answered : exec env ch op w = some (r, w')) (failed : Failed ⟨op, r⟩) :
    w'.users = w.users ∧ w'.sessions = w.sessions := by
  have users : w'.users = w.users := by
    cases exec_users answered with
    | kept rows => exact rows
    | inserted => exact failed.elim
    | updated => exact failed.elim
    | deleted => exact failed.elim
  refine ⟨users, ?_⟩
  obtain ⟨_, h⟩ := exec_eq_some.mp answered
  cases op with
  | userCreate d => exact exec_sparesSessions answered trivial
  | userUpdate id c => exact exec_sparesSessions answered trivial
  | userDelete id =>
    simp only [answer, query_eq_some, Prod.mk.injEq] at h
    rcases h with ⟨_, _, rfl⟩ | ⟨_, out⟩
    · rfl
    · unfold World.userDelete at out
      split at out <;> obtain ⟨rfl, rfl⟩ := Prod.mk.inj out
      · rfl
      · exact failed.elim
  | sessionCreate d =>
    simp only [answer, insertion_eq_some, query_eq_some, Prod.mk.injEq] at h
    obtain ⟨_, ⟨_, _, rfl⟩ | ⟨_, out⟩⟩ := h
    · rfl
    · unfold World.sessionCreate at out
      split_ifs at out <;> obtain ⟨rfl, rfl⟩ := Prod.mk.inj out
      · rfl
      · rfl
      · exact failed.elim
  | sessionUpdateMany filter date =>
    simp only [answer, query_eq_some, Prod.mk.injEq] at h
    rcases h with ⟨_, _, rfl⟩ | ⟨_, rfl, _⟩
    · rfl
    · exact failed.elim
  | _ => exact failed.elim

/-- The session that a call read. -/
def sessionRead : OwnCall → Option Session
  | ⟨.sessionFindFirst _, .ok (some (s, _))⟩ => some s
  | ⟨.sessionFindByTokenHash _, .ok (some (s, _))⟩ => some s
  | ⟨.sessionFindById _, .ok (some s)⟩ => some s
  | _ => none

lemma exec_sessionRead {s : Session} (answered : exec env ch op w = some (r, w'))
    (read : sessionRead ⟨op, r⟩ = some s) : s ∈ w.sessions := by
  cases op with
  | sessionFindFirst filter =>
    rcases r with _ | (_ | ⟨t, u⟩)
    · cases read
    · cases read
    · obtain rfl := Option.some.inj read
      exact (exec_find_active answered).1
  | sessionFindByTokenHash tokenHash =>
    rcases r with _ | (_ | ⟨t, u⟩)
    · cases read
    · cases read
    · obtain rfl := Option.some.inj read
      exact (exec_find_session answered).1
  | sessionFindById id =>
    rcases r with _ | (_ | t)
    · cases read
    · cases read
    · obtain rfl := Option.some.inj read
      obtain ⟨_, h⟩ := exec_eq_some.mp answered
      simp only [answer, query_eq_some, Prod.mk.injEq, reduceCtorEq, false_and, and_false,
        false_or, Except.ok.injEq] at h
      exact List.mem_of_find?_eq_some h.2.1.symm
  | _ => cases read

lemma born_stored {s : Session} (answered : exec env ch op w = some (r, w'))
    (inserted : born ⟨op, r⟩ = some s) : s ∈ w'.sessions := by
  cases exec_sessions answered with
  | kept _ leaves => simp [born_of_leaves leaves] at inserted
  | inserted d rows =>
    obtain rfl := Option.some.inj inserted
    rw [rows]
    exact List.mem_append_right _ (List.mem_singleton_self _)
  | updated => cases inserted

/-- The sessions of a deleted user go with the user, and no others. -/
lemma exec_cascade {id : Uuid} {r : Except PrismaError User}
    (answered : exec env ch (.userDelete id) w = some (r, w')) :
    (w'.sessions = w.sessions ∧ w'.users = w.users) ∨
      (w'.sessions = w.sessions.filter (·.userId ≠ id) ∧
        w'.users = w.users.filter (·.id ≠ id)) := by
  obtain ⟨_, h⟩ := exec_eq_some.mp answered
  simp only [answer, query_eq_some, Prod.mk.injEq] at h
  rcases h with ⟨_, _, rfl⟩ | ⟨_, out⟩
  · exact .inl ⟨rfl, rfl⟩
  · unfold World.userDelete at out
    split at out
    · obtain ⟨_, rfl⟩ := Prod.mk.inj out
      exact .inl ⟨rfl, rfl⟩
    · obtain ⟨_, rfl⟩ := Prod.mk.inj out
      exact .inr ⟨rfl, rfl⟩

/-- A stored session stays, but for a revocation, unless the call deletes its user. -/
lemma exec_row_lost {t : Session} (answered : exec env ch op w = some (r, w'))
    (stored : t ∈ w.sessions) :
    (∃ t' ∈ w'.sessions, t'.issued = t.issued) ∨ ∀ u ∈ w'.users, u.id ≠ t.userId := by
  cases op with
  | userDelete id =>
    rcases exec_cascade answered with ⟨sessions, _⟩ | ⟨sessions, users⟩
    · exact .inl ⟨t, sessions ▸ stored, rfl⟩
    · by_cases owner : t.userId = id
      · right
        intro u hu
        rw [users] at hu
        simpa [owner] using (List.mem_filter.mp hu).2
      · exact .inl ⟨t, sessions ▸ List.mem_filter.mpr ⟨stored, by simpa using owner⟩, rfl⟩
  | sessionCreate d =>
    left
    cases r with
    | error e => exact ⟨t, (exec_failed answered trivial).2 ▸ stored, rfl⟩
    | ok s =>
      cases exec_sessions answered with
      | kept _ leaves => exact leaves.elim
      | inserted _ rows => exact ⟨t, rows ▸ List.mem_append_left _ stored, rfl⟩
  | sessionUpdateMany filter date =>
    left
    cases r with
    | error e => exact ⟨t, (exec_failed answered trivial).2 ▸ stored, rfl⟩
    | ok n =>
      refine ⟨_, exec_updateMany answered ▸ List.mem_map_of_mem stored, ?_⟩
      split <;> rfl
  | _ => exact .inl ⟨t, exec_sparesSessions answered trivial ▸ stored, rfl⟩

/-- Where a row of the users comes from after a call. -/
inductive RowSource (ch : Choice) (w : World) : OwnCall → User → Prop where
  | stored {k : OwnCall} {u : User} (old : u ∈ w.users) : RowSource ch w k u
  | inserted (d : NewUser) (unused : ch.uuid ∉ w.uuids) :
      RowSource ch w ⟨.userCreate d, .ok (d.row ch.uuid ch.now)⟩ (d.row ch.uuid ch.now)
  | updated (c : UserChanges) (u : User) {v : User} (old : v ∈ w.users) :
      RowSource ch w ⟨.userUpdate v.id c, .ok u⟩ (c.apply ch.now v)

lemma exec_rowSource (answered : exec env ch op w = some (r, w')) {u' : User}
    (hu : u' ∈ w'.users) : RowSource ch w ⟨op, r⟩ u' := by
  cases exec_users answered with
  | kept rows => exact .stored (rows ▸ hu)
  | inserted d rows unused =>
    rw [rows] at hu
    rcases List.mem_append.mp hu with old | new
    · exact .stored old
    · rw [List.mem_singleton.mp new]
      exact .inserted d unused
  | updated id c u found free rows =>
    rw [rows] at hu
    obtain ⟨v, hv, rfl⟩ := List.mem_map.mp hu
    split_ifs with target
    · rw [← target]
      exact .updated c _ hv
    · exact .stored hv
  | deleted id u found rows =>
    rw [rows] at hu
    exact .stored (List.mem_filter.mp hu).1

/-- A user is either stored before the call or created by it with a fresh id. -/
lemma exec_userIds (answered : exec env ch op w = some (r, w')) {u' : User} (hu : u' ∈ w'.users) :
    (∃ u ∈ w.users, u.id = u'.id) ∨ (u'.id ∉ w.uuids ∧ u'.id ∈ w'.uuids) := by
  cases exec_users answered with
  | kept rows => exact .inl ⟨u', rows ▸ hu, rfl⟩
  | inserted d rows unused =>
    rw [rows] at hu
    rcases List.mem_append.mp hu with old | new
    · exact .inl ⟨u', old, rfl⟩
    · obtain rfl := List.mem_singleton.mp new
      exact .inr (exec_drawnUuid answered rfl)
  | updated id c u found free rows =>
    rw [rows] at hu
    obtain ⟨v, hv, rfl⟩ := List.mem_map.mp hu
    refine .inl ⟨v, hv, ?_⟩
    split <;> rfl
  | deleted id u found rows =>
    rw [rows] at hu
    exact .inl ⟨u', (List.mem_filter.mp hu).1, rfl⟩

/-- A call that deletes no user leaves every user's id in the table. -/
lemma exec_keepsUsers (answered : exec env ch op w = some (r, w'))
    (keeps : ∀ id, op ≠ .userDelete id) {u : User} (hu : u ∈ w.users) :
    ∃ u' ∈ w'.users, u'.id = u.id := by
  cases exec_users answered with
  | kept rows => exact ⟨u, rows ▸ hu, rfl⟩
  | inserted d rows => exact ⟨u, rows ▸ List.mem_append_left _ hu, rfl⟩
  | updated id c v found free rows =>
    refine ⟨_, rows ▸ List.mem_map_of_mem hu, ?_⟩
    split <;> rfl
  | deleted id => exact absurd rfl (keeps id)

/-! What a call does to the sessions of consistent tables leaves them consistent. -/

section Sessions
variable (consistent : Consistent w) (uuids : w.uuids ⊆ w'.uuids)
  (userIds : ∀ u ∈ w'.users, u.id ∈ w'.uuids)
include consistent uuids userIds

lemma Consistent.fewer (rows : w'.sessions.Sublist w.sessions)
    (owners : ∀ s ∈ w'.sessions, ∃ u ∈ w'.users, u.id = s.userId) : Consistent w' where
  userIds := userIds
  sessionIds s hs := uuids (consistent.sessionIds s (rows.subset hs))
  owners := owners
  ids := consistent.ids.sublist rows
  tokens := consistent.tokens.sublist rows

lemma Consistent.inserted {s : Session} (users : w'.users = w.users)
    (rows : w'.sessions = w.sessions ++ [s]) (unused : s.id ∉ w.uuids) (drawn : s.id ∈ w'.uuids)
    (owner : ∃ u ∈ w.users, u.id = s.userId)
    (fresh : ∀ t ∈ w.sessions, t.tokenHash ≠ s.tokenHash) : Consistent w' where
  userIds := userIds
  sessionIds t ht := by
    rw [rows] at ht
    rcases List.mem_append.mp ht with stored | new
    · exact uuids (consistent.sessionIds t stored)
    · exact List.mem_singleton.mp new ▸ drawn
  owners t ht := by
    rw [rows] at ht
    rw [users]
    rcases List.mem_append.mp ht with stored | new
    · exact consistent.owners t stored
    · exact List.mem_singleton.mp new ▸ owner
  ids := by
    have old : ∀ t ∈ w.sessions, t.id ≠ s.id := fun t ht same =>
      unused (same ▸ consistent.sessionIds t ht)
    rw [rows]
    exact List.pairwise_append.mpr ⟨consistent.ids, List.pairwise_singleton _ _, by simpa using old⟩
  tokens := by
    rw [rows]
    exact List.pairwise_append.mpr ⟨consistent.tokens, List.pairwise_singleton _ _,
      by simpa using fresh⟩

/-- Rows that keep their ids, owners and tokens. -/
lemma Consistent.changed {f : Session → Session} (users : w'.users = w.users)
    (rows : w'.sessions = w.sessions.map f)
    (keeps : ∀ s, (f s).id = s.id ∧ (f s).userId = s.userId ∧ (f s).tokenHash = s.tokenHash) :
    Consistent w' where
  userIds := userIds
  sessionIds s hs := by
    obtain ⟨t, ht, rfl⟩ := List.mem_map.mp (rows ▸ hs)
    exact uuids ((keeps t).1 ▸ consistent.sessionIds t ht)
  owners s hs := by
    obtain ⟨t, ht, rfl⟩ := List.mem_map.mp (rows ▸ hs)
    rw [users, (keeps t).2.1]
    exact consistent.owners t ht
  ids := by
    rw [rows]
    refine List.pairwise_map.mpr (consistent.ids.imp fun differ => ?_)
    rwa [(keeps _).1, (keeps _).1]
  tokens := by
    rw [rows]
    refine List.pairwise_map.mpr (consistent.tokens.imp fun differ => ?_)
    rwa [(keeps _).2.2, (keeps _).2.2]

end Sessions

lemma Consistent.exec (consistent : Consistent w) (answered : exec env ch op w = some (r, w')) :
    Consistent w' := by
  have uuids := (exec_spends answered).uuids
  have userIds : ∀ u ∈ w'.users, u.id ∈ w'.uuids := by
    intro u hu
    rcases exec_userIds answered hu with ⟨v, hv, same⟩ | ⟨_, drawn⟩
    · exact uuids (same ▸ consistent.userIds v hv)
    · exact drawn
  have kept : (∀ id, op ≠ .userDelete id) → w'.sessions.Sublist w.sessions →
      Consistent w' := by
    refine fun keeps rows => consistent.fewer uuids userIds rows fun s hs => ?_
    obtain ⟨u, hu, owner⟩ := consistent.owners s (rows.subset hs)
    obtain ⟨u', hu', same⟩ := exec_keepsUsers answered keeps hu
    exact ⟨u', hu', same.trans owner⟩
  cases op with
  | userDelete id =>
    rcases exec_cascade answered with ⟨sessions, users⟩ | ⟨sessions, users⟩
    · refine consistent.fewer uuids userIds (sessions ▸ List.Sublist.refl _) ?_
      rw [sessions, users]
      exact consistent.owners
    · refine consistent.fewer uuids userIds (sessions ▸ List.filter_sublist) fun s hs => ?_
      rw [sessions] at hs
      obtain ⟨old, other⟩ := List.mem_filter.mp hs
      obtain ⟨u, hu, owner⟩ := consistent.owners s old
      exact ⟨u, users ▸ List.mem_filter.mpr ⟨hu, owner ▸ other⟩, owner⟩
  | sessionCreate d =>
    have users : w'.users = w.users := by
      cases exec_users answered with
      | kept rows => exact rows
    cases exec_sessions answered with
    | kept rows => exact kept (by simp) rows
    | inserted _ rows unused owner fresh =>
      exact consistent.inserted uuids userIds users rows unused
        (exec_drawnUuid answered rfl).2 owner fresh
  | sessionUpdateMany filter date =>
    have users : w'.users = w.users := by
      cases exec_users answered with
      | kept rows => exact rows
    cases exec_sessions answered with
    | kept rows => exact kept (by simp) rows
    | updated _ _ rows =>
      refine consistent.changed uuids userIds users rows fun s => ?_
      split <;> exact ⟨rfl, rfl, rfl⟩
  | _ => exact kept (by simp) (exec_sparesSessions answered trivial ▸ List.Sublist.refl _)

end Steps

section Runs
variable {env : Env} {reqs : Nat → Request} {w : World} {c c' : Server}

lemma leads_uuids (run : Leads (exec env) c c') : c.world.uuids ⊆ c'.world.uuids := by
  refine leads_invariant (P := fun x => c.world.uuids ⊆ x.world.uuids) ?_ run (List.Subset.refl _)
  intro x x' i ch sub fired
  obtain ⟨op, next, r, w', _, answered, rfl⟩ := fire_eq_some.mp fired
  exact List.Subset.trans sub (exec_spends answered).uuids

lemma leads_clock (run : Leads (exec env) c c') : c.world.clock ≤ c'.world.clock := by
  refine leads_invariant (P := fun x => c.world.clock ≤ x.world.clock) ?_ run (Nat.le_refl _)
  intro x x' i ch later fired
  obtain ⟨op, next, r, w', _, answered, rfl⟩ := fire_eq_some.mp fired
  have spends := exec_spends answered
  exact Nat.le_trans later (spends.clock ▸ spends.later)

lemma leads_consistent (consistent : Consistent c.world) (run : Leads (exec env) c c') :
    Consistent c'.world := by
  refine leads_invariant (P := fun x => Consistent x.world) ?_ run consistent
  intro x x' i ch here fired
  obtain ⟨op, next, r, w', _, answered, rfl⟩ := fire_eq_some.mp fired
  exact here.exec answered

/-- A deleted user does not come back. -/
theorem leads_users (run : Leads (exec env) c c') {u' : User} (hu : u' ∈ c'.world.users)
    (drawn : u'.id ∈ c.world.uuids) : ∃ u ∈ c.world.users, u.id = u'.id := by
  refine leads_induction (P := fun x => ∀ u' ∈ x.world.users, u'.id ∈ c.world.uuids →
    ∃ u ∈ c.world.users, u.id = u'.id) run (fun u hu _ => ⟨u, hu, rfl⟩) ?_ u' hu drawn
  intro x x' i ch reached ih fired u' hu drawn
  obtain ⟨op, next, r, w', _, answered, rfl⟩ := fire_eq_some.mp fired
  rcases exec_userIds answered hu with ⟨v, hv, same⟩ | ⟨unused, _⟩
  · obtain ⟨u, stored, id⟩ := ih v hv (same ▸ drawn)
    exact ⟨u, stored, id.trans same⟩
  · exact absurd (leads_uuids reached drawn) unused

/-- A row of a later state is an earlier row, and if that was revoked it is the
same row still. -/
theorem leads_rows (reach : Reachable env reqs w c) (run : Leads (exec env) c c') {t : Session}
    (ht : t ∈ c'.world.sessions) (drawn : t.id ∈ c.world.uuids) :
    ∃ s ∈ c.world.sessions, t.issued = s.issued ∧ (s.revokedAt ≠ none → t = s) := by
  refine leads_induction (P := fun x => ∀ t ∈ x.world.sessions, t.id ∈ c.world.uuids →
    ∃ s ∈ c.world.sessions, t.issued = s.issued ∧ (s.revokedAt ≠ none → t = s)) run
    (fun t ht _ => ⟨t, ht, rfl, fun _ => rfl⟩) ?_ t ht drawn
  intro x x' i ch reached ih fired t ht drawn
  have may := leads_poolObeys (leads_trans reach reached) (boot_obeys env reqs w) i
  obtain ⟨op, next, r, w', head, answered, rfl⟩ := fire_eq_some.mp fired
  rw [head] at may
  rcases rows_after may.1 answered ht with inserted | ⟨v, hv, issued, kept⟩
  · exact absurd (leads_uuids reached drawn) (exec_drawnUuid answered (born_drawn inserted)).1
  · obtain ⟨s, stored, same, dead⟩ := ih v hv (id_of_issued issued ▸ drawn)
    refine ⟨s, stored, issued.trans same, fun revoked => ?_⟩
    obtain rfl := dead revoked
    exact kept revoked

lemma active_id (reach : Reachable env reqs w c) {i : Nat} {id : Uuid} {s : Session} {u : User}
    (read : (⟨.sessionFindFirst (activeSession id), .ok (some (s, u))⟩ : OwnCall) ∈
      own i c.history) : s.id = id := by
  refine leads_answers (P := fun k => ∀ id s u,
    k = ⟨.sessionFindFirst (activeSession id), .ok (some (s, u))⟩ → s.id = id)
      ?_ reach read id s u rfl
  rintro ch op w r w' answered id s u call
  cases call
  exact (activeSession_holds.mp (exec_find_active answered).2.1).1

/-- A row that a request has read keeps what no revocation changes. -/
lemma read_row (consistent : Consistent w) (reach : Reachable env reqs w c) {i : Nat} {k : OwnCall}
    (made : k ∈ own i c.history) {s t : Session} (read : sessionRead k = some s)
    (ht : t ∈ c.world.sessions) (same : t.id = s.id) : t.issued = s.issued := by
  obtain ⟨ch, mem⟩ := mem_own.mp made
  obtain ⟨c₁, c₂, before, fired, history, after⟩ := leads_split_new reach mem List.not_mem_nil
  have here := leads_consistent consistent before
  have stored : s ∈ c₁.world.sessions := by
    obtain ⟨op, next, r, w', _, answered, rfl⟩ := fire_eq_some.mp fired
    cases (List.cons.inj history).1
    exact exec_sessionRead answered read
  obtain ⟨s', stored', issued, _⟩ := leads_rows before (leads_trans (leads_of_fire fired) after) ht
    (same ▸ here.sessionIds s stored)
  obtain rfl := here.eq_of_id stored' stored ((id_of_issued issued).symm.trans same)
  exact issued

/-- The same of a row stored at some time and one read at another. -/
lemma read_agrees (consistent : Consistent w) (reach : Reachable env reqs w c)
    (run : Leads (exec env) c c') {i : Nat} {k : OwnCall} (made : k ∈ own i c'.history)
    {s t : Session} (read : sessionRead k = some t) (stored : s ∈ c.world.sessions)
    (same : t.id = s.id) : t.issued = s.issued := by
  by_cases early : k ∈ own i c.history
  · exact (read_row consistent reach early read stored same.symm).symm
  have here := leads_consistent consistent reach
  obtain ⟨ch, mem⟩ := mem_own.mp made
  obtain ⟨c₁, c₂, before, fired, history, after⟩ := leads_split_new run mem fun old =>
    early (mem_own.mpr ⟨ch, old⟩)
  have read_ : t ∈ c₁.world.sessions := by
    obtain ⟨op, next, r, w', _, answered, rfl⟩ := fire_eq_some.mp fired
    cases (List.cons.inj history).1
    exact exec_sessionRead answered read
  obtain ⟨s', stored', issued, _⟩ := leads_rows reach before read_
    (same ▸ here.sessionIds s stored)
  obtain rfl := here.eq_of_id stored' stored ((id_of_issued issued).symm.trans same)
  exact issued

/-- A session is lost only with its user. -/
lemma session_lost (consistent : Consistent c.world) (run : Leads (exec env) c c') {s : Session}
    (stored : s ∈ c.world.sessions) :
    (∃ t ∈ c'.world.sessions, t.issued = s.issued) ∨ ∀ u ∈ c'.world.users, u.id ≠ s.userId := by
  obtain ⟨u₀, hu₀, owner⟩ := consistent.owners s stored
  have drawn : s.userId ∈ c.world.uuids := owner ▸ consistent.userIds u₀ hu₀
  refine leads_induction (P := fun x => (∃ t ∈ x.world.sessions, t.issued = s.issued) ∨
    ∀ u ∈ x.world.users, u.id ≠ s.userId) run (.inl ⟨s, stored, rfl⟩) ?_
  intro x x' i ch reached ih fired
  obtain ⟨op, next, r, w', _, answered, rfl⟩ := fire_eq_some.mp fired
  rcases ih with ⟨t, ht, same⟩ | gone
  · rcases exec_row_lost answered ht with ⟨t', ht', issued⟩ | gone
    · exact .inl ⟨t', ht', issued.trans same⟩
    · exact .inr (userId_of_issued same ▸ gone)
  · refine .inr fun u hu same => ?_
    rcases exec_userIds answered hu with ⟨v, hv, old⟩ | ⟨unused, _⟩
    · exact gone v hv (old.trans same)
    · exact unused (same ▸ leads_uuids reached drawn)

end Runs

lemma Plain.world_consistent : Consistent Plain.world where
  userIds := by decide
  sessionIds := by decide
  owners := by decide
  ids := by decide
  tokens := by decide

lemma Plain.liveWorld_consistent : Consistent Plain.liveWorld where
  userIds := by decide
  sessionIds := by decide
  owners := by decide
  ids := by decide
  tokens := by decide

end BajaValle
