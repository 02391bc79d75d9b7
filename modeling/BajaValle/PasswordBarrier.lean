import BajaValle.Credentials
import BajaValle.Families

/-!
# A password change as a barrier

A login and a password change compare their password with the hash of a row
they read earlier. Once a change has revoked the other sessions, the requests
that read the hash it replaced have no effect any more, as long as each of them
was settled by then: ended, refused, or past the last thing it writes.
-/

namespace BajaValle

open CallPrograms Interleaving SessionsService

/-- The request has made the last of its writes to hashes and sessions. -/
def Spent (req : Request) (h : List OwnCall) : Prop :=
  match req.handler with
  | .login _ => ∃ k ∈ h, IsInsert k.op
  | _ => ∃ k ∈ h, WritesHash k

def storedHash (w : World) (id : Uuid) : Option String :=
  (w.users.find? (·.id = id)).map User.passwordHash

/-- A request that read this row can have no effect on hashes and sessions. -/
def Settled (env : Env) (reqs : Nat → Request) (c : Server) (j : Nat) (v : User) : Prop :=
  (c.pool j).outcome ≠ none ∨
    (∀ password, (reqs j).handler.password = some password →
      ¬ PasswordService.Matches env v.passwordHash password) ∨
    ¬ Unrefused env (reqs j) (own j c.history) v ∨ Spent (reqs j) (own j c.history)

/-- The change writes a new hash for its user at `c₀` and has answered at `c`. -/
structure Changes (env : Env) (reqs : Nat → Request) (w : World) (i : Nat) (user : AuthUser)
    (c₀ c : Server) : Prop where
  reach : Reachable env reqs w c₀
  isChange : ∃ newPassword currentPassword,
    (reqs i).handler = .changePassword newPassword currentPassword
  write : ∃ c₁ ch k, WritesHash k ∧ fire (exec env) i ch c₀ = some c₁ ∧
    c₁.history = ⟨i, ch, k⟩ :: c₀.history ∧ Leads (exec env) c₁ c
  answered : (c.pool i).outcome = some (.ok .noContent)
  caller : Passed (reqs i) (own i c.history) (some user)

/-- The request has read the row of the user with the hash stored at `c₀`. -/
def ReadsReplaced (env : Env) (reqs : Nat → Request) (c₀ : Server) (user : AuthUser) (j : Nat)
    (v : User) : Prop :=
  Reads env (reqs j) (own j c₀.history) v ∧ v.id = user.id ∧
    storedHash c₀.world user.id = some v.passwordHash

/-- Between `c` and `c'` the request wrote a hash. -/
def WritesLater (c c' : Server) (j : Nat) : Prop :=
  ∃ new, c'.history = new ++ c.history ∧ ∃ e ∈ new, e.who = j ∧ WritesHash e.call

/-- A session that the request inserted is unrevoked and not the caller's. -/
def LeavesLive (c' : Server) (user : AuthUser) (j : Nat) : Prop :=
  ∃ s ∈ c'.world.sessions, s.userId = user.id ∧ s.revokedAt = none ∧ Inserts c'.history j s ∧
    s.id ≠ user.sessionId

section Barrier
variable {env : Env} {reqs : Nat → Request} {w : World} {c c' : Server}
  (compares : ∀ j, (reqs j).handler.password ≠ none)
include compares

/-- Nothing more comes from a settled request. -/
lemma Settled.noEffect (reach : Reachable env reqs w c) {j : Nat} {v : User}
    (settled : Settled env reqs c j v) (reads : Reads env (reqs j) (own j c.history) v)
    (later : Leads (exec env) c c') {op : Op} {next : op.Res → Task Answer}
    (head : c'.pool j = .call op next) :
    ¬ IsInsert op ∧ ∀ id data, op = .userUpdate id data → data.passwordHash = none := by
  have reach' := leads_trans reach later
  have may := leads_poolObeys reach' (boot_hash env reqs w compares) j
  rw [head] at may
  obtain ⟨new, hown⟩ := leads_own_suffix later j
  have sub : own j c.history ⊆ own j c'.history := (leads_own_suffix later j).subset
  have stuck : ∀ v', Accepted env (reqs j) (own j c'.history) v' →
      Unborn (own j c'.history) →
      ((∃ dto, (reqs j).handler = .login dto) ∨ ∀ k ∈ own j c'.history, ¬ WritesHash k) →
      False := by
    intro v' accepted unborn rest
    obtain rfl : v = v' := accepted.only v (hown ▸ reads.append new)
    rcases settled with ended | unmatched | refused | spent
    · rw [(leads_of_finished later ended).1.symm, head] at ended
      exact ended rfl
    · obtain ⟨password, parsed, hp, hparse, mem⟩ := accepted.compared
      exact unmatched password hp ⟨parsed, hparse, argon2_derived reach' mem⟩
    · exact refused (accepted.unrefused.earlier sub)
    · unfold Spent at spent
      split at spent
      · obtain ⟨k, hk, insert⟩ := spent
        exact unborn k (sub hk) insert
      · rename_i notLogin
        obtain ⟨k, hk, writes⟩ := spent
        rcases rest with ⟨dto, isLogin⟩ | none
        · exact notLogin dto isLogin
        · exact none k (sub hk) writes
  constructor
  · intro insert
    cases op with
    | sessionCreate d =>
      obtain ⟨⟨v', accepted, _⟩, unborn, isLogin⟩ := may.1
      exact stuck v' accepted unborn (.inl isLogin)
    | _ => exact insert.elim
  · rintro id data rfl
    by_contra writes
    obtain ⟨⟨v', accepted, _⟩, untouched⟩ := may.1 writes
    exact stuck v' accepted untouched.1 (.inr untouched.2)

/-- Only a password change revokes here, and only after its write. -/
lemma revokes_after_write (reach : Reachable env reqs w c) {i : Nat} {filter : SessionWhere}
    {date : DateValue} {r : Except PrismaError Nat}
    (revoked : (⟨.sessionUpdateMany filter date, r⟩ : OwnCall) ∈ own i c.history) :
    ∃ k ∈ own i c.history, WritesHash k := by
  refine leads_world_invariant (I := fun _ history => ∀ i filter date r,
    (⟨.sessionUpdateMany filter date, r⟩ : OwnCall) ∈ own i history →
      ∃ k ∈ own i history, WritesHash k) reach (boot_hash env reqs w compares)
    (by simp [boot, start]) ?_ i filter date r revoked
  intro c j ch op r w' _ ih may _ i filter date r' mem
  rcases mem_own_cons.mp mem with ⟨rfl, call⟩ | old
  · cases call
    obtain ⟨k, hk, writes⟩ := may
    exact ⟨k, own_subset_cons hk, writes⟩
  · obtain ⟨k, hk, writes⟩ := ih i filter date r' old
    exact ⟨k, own_subset_cons hk, writes⟩

end Barrier

/-- After an update that leaves no row of a kind live, a live row of that kind
was inserted since. -/
lemma inserted_since {env : Env} {reqs : Nat → Request} {w : World} {c c' : Server}
    (reach : Reachable env reqs w c) {kind : Session → Prop}
    (none : ∀ s ∈ c.world.sessions, kind s → s.revokedAt ≠ none) (later : Leads (exec env) c c')
    {s : Session} (stored : s ∈ c'.world.sessions) (hs : kind s)
      (live : s.revokedAt = Option.none) :
    ∃ new e, c'.history = new ++ c.history ∧ e ∈ new ∧ born e.call = some s := by
  refine leads_induction (P := fun c' => ∀ s ∈ c'.world.sessions, kind s →
    s.revokedAt = Option.none → ∃ new e, c'.history = new ++ c.history ∧ e ∈ new ∧
      born e.call = some s) later ?_ ?_ s stored hs live
  · exact fun s hs hk live => absurd live (none s hs hk)
  · intro x x' i ch reached ih fired s' hs' hk live
    have may := leads_poolObeys (leads_trans reach reached) (boot_obeys env reqs w) i
    obtain ⟨op, next, r, w', head, answered, rfl⟩ := fire_eq_some.mp fired
    rw [head] at may
    rcases rows_after may.1 answered hs' with inserted | ⟨t, ht, issued, kept⟩
    · obtain ⟨older, hx⟩ := leads_history_suffix reached
      exact ⟨⟨i, ch, ⟨op, r⟩⟩ :: older, ⟨i, ch, ⟨op, r⟩⟩, by rw [← hx]; rfl,
        List.mem_cons_self, inserted⟩
    · by_cases dead : t.revokedAt = Option.none
      · rw [issued_of_live live, issued_of_live dead] at issued
        subst issued
        obtain ⟨new, e, hx, he, hb⟩ := ih s' ht hk live
        exact ⟨⟨i, ch, ⟨op, r⟩⟩ :: new, e, by rw [hx]; rfl, List.mem_cons_of_mem _ he, hb⟩
      · rw [kept dead] at live
        exact absurd live dead

/-- A request that writes a hash had written none before. -/
lemma untouched_before_write {env : Env} {reqs : Nat → Request} {w : World} {c₀ c₁ : Server}
    (compares : ∀ j, (reqs j).handler.password ≠ none) (reach : Reachable env reqs w c₀) {i : Nat}
    {ch : Choice} {k : OwnCall} (writes : WritesHash k) (fired : fire (exec env) i ch c₀ = some c₁)
    (made : c₁.history = ⟨i, ch, k⟩ :: c₀.history) : Untouched (own i c₀.history) := by
  have may := leads_poolObeys reach (boot_hash env reqs w compares) i
  obtain ⟨op, next, r, w', head, answered, rfl⟩ := fire_eq_some.mp fired
  rw [head] at may
  obtain rfl := (Event.mk.inj (List.cons.inj made).1).2.2
  cases op with
  | userUpdate id data => cases r with
    | ok u => exact (may.1 writes).2
    | error e => exact absurd rfl writes
  | _ => exact absurd rfl writes

/-- A change that has answered revoked the other sessions after its write. -/
lemma Changes.revokes {env : Env} {reqs : Nat → Request} {w : World} {c₀ c : Server}
    (compares : ∀ j, (reqs j).handler.password ≠ none) {i : Nat} {user : AuthUser}
    (changes : Changes env reqs w i user c₀ c) :
    ∃ c₂ c₃ ch n, Leads (exec env) c₀ c₂ ∧ fire (exec env) i ch c₂ = some c₃ ∧
      c₃.history = ⟨i, ch, ⟨revocation (unrevokedOfUser user.id (some user.sessionId)),
        .ok n⟩⟩ :: c₂.history ∧ Leads (exec env) c₃ c := by
  obtain ⟨c₁, ch, k, writes, fired, made, run⟩ := changes.write
  obtain ⟨newPassword, currentPassword, isChange⟩ := changes.isChange
  have ends := leads_poolObeys (leads_trans (leads_trans changes.reach (leads_of_fire fired)) run)
    (boot_obeys env reqs w) i
  rw [Prog.outcome_eq_ok.mp changes.answered] at ends
  obtain ⟨n, call⟩ := ends user _ changes.caller (by rw [isChange]; rfl)
  obtain ⟨ch', mem⟩ := mem_own.mp call
  have missing : (⟨i, ch', ⟨revocation (unrevokedOfUser user.id (some user.sessionId)),
      .ok n⟩⟩ : ServerEvent) ∉ c₁.history := by
    intro old
    rw [made] at old
    rcases List.mem_cons.mp old with same | old
    · rw [← (Event.mk.inj same).2.2] at writes
      exact writes rfl
    · obtain ⟨k', hk', writes'⟩ :=
        revokes_after_write compares changes.reach (mem_own.mpr ⟨ch', old⟩)
      exact (untouched_before_write compares changes.reach writes fired made).2 k' hk' writes'
  obtain ⟨c₂, c₃, before, revokes, update, after⟩ := leads_split_new run mem missing
  exact ⟨c₂, c₃, ch', n, leads_trans (leads_of_fire fired) before, revokes, update, after⟩

namespace Plain

def weakHash : String :=
  PasswordService.phc ⟨.finite 1024, .finite 1, .finite 1⟩ (List.replicate 16 0) (utf8 "secret")

/-- An account with a hash of weaker parameters and one live session. -/
def weakWorld : World :=
  { world with users := [{ user with passwordHash := weakHash }], sessions := [firstSession],
               uuids := [1, 5, 6] }

/-- Request 1 logs in, request 2 and all others change the password. -/
def staleLogin : Nat → Request
  | 1 => login "secret"
  | _ => { handler := .changePassword "fresh secret" "secret", authorization := some (bearer 6) }

/-- What the stale login inserts. -/
def staleSession : Session where
  id := 8
  userId := 1
  tokenHash := hashToken Plain.env (tokenText (bytes 3))
  familyId := 7
  expiresAt := 16 + ttlMs Plain.env
  revokedAt := none
  userAgent := none
  createdAt := 16

end Plain

/-- A login compares with the old hash, the change runs and answers, and then
the login writes a hash of the old password and starts a session. -/
theorem password_change_undone :
    ∃ c₀ c c' v, Changes Plain.env Plain.staleLogin Plain.weakWorld 2 ⟨1, .CLIENT, 6⟩ c₀ c ∧
      Leads (exec Plain.env) c c' ∧
      ReadsReplaced Plain.env Plain.staleLogin c₀ ⟨1, .CLIENT, 6⟩ 1 v ∧
      WritesLater c c' 1 ∧ LeavesLive c' ⟨1, .CLIENT, 6⟩ 1 := by
  have shown : (play (exec Plain.env) [(1, { now := 6 }), (1, { now := 6 }), (2, { now := 7 }),
      (2, { now := 7 }), (2, { now := 8 }), (2, { now := 8 }),
      (2, { now := 9, bytes := List.replicate 16 1 }), (2, { now := 9 })]
      (boot Plain.env Plain.staleLogin Plain.weakWorld)).any (fun c₀ =>
    (fire (exec Plain.env) 2 { now := 10 } c₀).any fun c₁ =>
    (play (exec Plain.env) [(2, { now := 11 })] c₁).any fun c =>
    (play (exec Plain.env) [(1, { now := 12, bytes := List.replicate 16 2 }), (1, { now := 12 }),
      (1, { now := 13 }), (1, { now := 14, uuid := 7 }), (1, { now := 15, bytes := Plain.bytes 3 }),
      (1, { now := 16, uuid := 8 })] c).any fun c' => decide (
      (∀ e ∈ c₁.history.head?, WritesHash e.call) ∧
      (c.pool 2).outcome = some (.ok .noContent) ∧
      Passed (Plain.staleLogin 2) (own 2 c.history) (some ⟨1, .CLIENT, 6⟩) ∧
      (⟨.userFindByEmailHash (UsersService.emailHash Plain.env "ana@valle.mx"),
        .ok (some { Plain.user with passwordHash := Plain.weakHash })⟩ : OwnCall) ∈
          own 1 c₀.history ∧ storedHash c₀.world 1 = some Plain.weakHash ∧
      (∃ e ∈ c'.history.take 6, e.who = 1 ∧ WritesHash e.call) ∧
      c'.history.length = 6 + c.history.length ∧ Plain.staleSession ∈ c'.world.sessions ∧
      Inserts c'.history 1 Plain.staleSession)) = true := by
    decide +kernel
  obtain ⟨c₀, reach, shown⟩ := leads_of_play _ shown
  obtain ⟨c₁, fired, shown⟩ := (Option.any_eq_true _ _).mp shown
  obtain ⟨c, run, shown⟩ := leads_of_play _ shown
  obtain ⟨c', later, shown⟩ := leads_of_play _ shown
  obtain ⟨writes, answered, passed, reads, hash, written, length, stored, inserts⟩ :=
    of_decide_eq_true shown
  refine ⟨c₀, c, c', _, ⟨reach, ⟨_, _, rfl⟩, ?_, answered, passed⟩, later, ⟨reads, rfl, hash⟩, ?_,
    Plain.staleSession, stored, rfl, rfl, inserts, by decide⟩
  · obtain ⟨op, next, r, w', _, _, rfl⟩ := fire_eq_some.mp fired
    exact ⟨_, _, _, writes _ rfl, fired, rfl, run⟩
  · obtain ⟨new, since⟩ := leads_history_suffix later
    refine ⟨new, since.symm, ?_⟩
    have six : new.length = 6 := by
      rw [← since, List.length_append] at length
      omega
    rwa [← since, ← six, List.take_left] at written

/-- Once a password change has answered, no other request that read the hash it
replaced writes a hash or leaves a session live, if all those requests were
settled when the change revoked the other sessions. -/
theorem password_change_final_if_settled (env : Env) (reqs : Nat → Request) (w : World)
    (compares : ∀ j, (reqs j).handler.password ≠ none) (i : Nat) (user : AuthUser)
    (c₀ c c' : Server) (changes : Changes env reqs w i user c₀ c)
    (settled : ∀ c₂ c₃ ch n, Leads (exec env) c₀ c₂ → fire (exec env) i ch c₂ = some c₃ →
      c₃.history = ⟨i, ch, ⟨revocation (unrevokedOfUser user.id (some user.sessionId)),
        .ok n⟩⟩ :: c₂.history → Leads (exec env) c₃ c →
      ∀ j v, j ≠ i → ReadsReplaced env reqs c₀ user j v → Settled env reqs c₂ j v)
    (later : Leads (exec env) c c') :
    ∀ j v, j ≠ i → ReadsReplaced env reqs c₀ user j v →
      ¬ WritesLater c c' j ∧ ¬ LeavesLive c' user j := by
  intro j v other reads
  obtain ⟨c₂, c₃, ch', n, before, revokes, update, after⟩ := changes.revokes compares
  have reach₂ := leads_trans changes.reach before
  have reads₂ : Reads env (reqs j) (own j c₂.history) v := by
    obtain ⟨new, hown⟩ := leads_own_suffix before j
    exact hown ▸ reads.1.append new
  have quiet := settled c₂ c₃ ch' n before revokes update after j v other reads
  have revoked := leads_of_fire revokes
  constructor
  · rintro ⟨new, since, e, he, rfl, written⟩
    obtain ⟨c₄, c₅, between, moved, hist, _⟩ := leads_split later since he
    obtain ⟨op, next, r, w', head, _, rfl⟩ := fire_eq_some.mp moved
    have effect := quiet.noEffect compares reach₂ reads₂
      (leads_trans revoked (leads_trans after between)) head
    have call : e.call = ⟨op, r⟩ := congrArg Event.call (List.cons.inj hist).1.symm
    rw [call] at written
    cases op with
    | userUpdate id data => cases r with
      | ok u => exact written (effect.2 id data rfl)
      | error e => exact written rfl
    | _ => exact written rfl
  · rintro ⟨s, stored, owner, live, inserts, notCaller⟩
    have reach₃ := leads_trans reach₂ revoked
    have rest := leads_trans after later
    have none : ∀ s ∈ c₃.world.sessions, (s.userId = user.id ∧ s.id ≠ user.sessionId) →
        s.revokedAt ≠ none := by
      rintro s hs ⟨hid, hother⟩ live
      obtain ⟨op, next, r, w', head, answered', rfl⟩ := fire_eq_some.mp revokes
      obtain ⟨rfl, hr⟩ := Call.mk.inj (Event.mk.inj (List.cons.inj update).1).2.2
      obtain rfl := eq_of_heq hr
      obtain ⟨_, missed⟩ := live_of_mem_revokeRows (exec_updateMany answered' ▸ hs) live
      have held : (unrevokedOfUser user.id (some user.sessionId)).holds ch'.now s = true :=
        unrevokedOfUser_holds.mpr ⟨hid, fun x hx => Option.some.inj hx ▸ hother, live⟩
      rw [held] at missed
      cases missed
    obtain ⟨new, e, since, he, hb⟩ := inserted_since reach₃ none rest stored ⟨owner, notCaller⟩ live
    obtain ⟨e', he', rfl, hb'⟩ := inserts_iff.mp inserts
    have mem : e ∈ c'.history := by
      rw [since]
      exact List.mem_append_left _ he
    obtain rfl := drawnUuid_once (leads_trans reach₃ rest) mem he' s.id (born_drawn hb)
      (born_drawn hb')
    obtain ⟨c₄, c₅, between, moved, hist, _⟩ := leads_split rest since he
    obtain ⟨op, next, r, w', head, _, rfl⟩ := fire_eq_some.mp moved
    have call : e.call = ⟨op, r⟩ := congrArg Event.call (List.cons.inj hist).1.symm
    rw [call] at hb
    have effect := quiet.noEffect compares reach₂ reads₂ (leads_trans revoked between) head
    exact effect.1 (born_isInsert hb)

theorem password_change_final_if_settled_served :
    ∃ c₀ c c' v, Changes Plain.env Plain.staleLogin Plain.liveWorld 2 ⟨1, .CLIENT, 6⟩ c₀ c ∧
      Leads (exec Plain.env) c c' ∧ c.history.length < c'.history.length ∧
      ReadsReplaced Plain.env Plain.staleLogin c₀ ⟨1, .CLIENT, 6⟩ 1 v ∧
      ∀ j v, j ≠ 2 → ReadsReplaced Plain.env Plain.staleLogin c₀ ⟨1, .CLIENT, 6⟩ j v →
        ¬ WritesLater c c' j ∧ ¬ LeavesLive c' ⟨1, .CLIENT, 6⟩ j := by
  have shown : (play (exec Plain.env) [(1, { now := 6 }), (1, { now := 6 }),
      (1, { now := 7, uuid := 7 }), (1, { now := 7, bytes := Plain.bytes 3 }),
      (1, { now := 8, uuid := 8 }), (1, { now := 8 }), (2, { now := 9 }), (2, { now := 9 }),
      (2, { now := 9 }), (2, { now := 9 }), (2, { now := 9, bytes := List.replicate 16 1 }),
      (2, { now := 9 })] (boot Plain.env Plain.staleLogin Plain.liveWorld)).any (fun c₀ =>
    (fire (exec Plain.env) 2 { now := 10 } c₀).any fun c₁ =>
    (play (exec Plain.env) [(2, { now := 11 })] c₁).any fun c =>
    (play (exec Plain.env) (List.replicate 4 (3, { now := 12 })) c).any fun c' => decide (
      (∀ e ∈ c₁.history.head?, WritesHash e.call) ∧
      (c.pool 2).outcome = some (.ok .noContent) ∧
      Passed (Plain.staleLogin 2) (own 2 c.history) (some ⟨1, .CLIENT, 6⟩) ∧
      (⟨.userFindByEmailHash (UsersService.emailHash Plain.env "ana@valle.mx"),
        .ok (some Plain.user)⟩ : OwnCall) ∈ own 1 c₀.history ∧
      storedHash c₀.world 1 = some Plain.user.passwordHash ∧
      (c₀.pool 1).outcome ≠ none ∧ (∀ e ∈ c₀.history, e.who = 1 ∨ e.who = 2) ∧
      c.history.length < c'.history.length)) = true := by
    decide +kernel
  obtain ⟨c₀, reach, shown⟩ := leads_of_play _ shown
  obtain ⟨c₁, fired, shown⟩ := (Option.any_eq_true _ _).mp shown
  obtain ⟨c, run, shown⟩ := leads_of_play _ shown
  obtain ⟨c', later, shown⟩ := leads_of_play _ shown
  obtain ⟨writes, answered, passed, reads, hash, ended, alone, longer⟩ := of_decide_eq_true shown
  have changes : Changes Plain.env Plain.staleLogin Plain.liveWorld 2 ⟨1, .CLIENT, 6⟩ c₀ c := by
    refine ⟨reach, ⟨_, _, rfl⟩, ?_, answered, passed⟩
    obtain ⟨op, next, r, w', _, _, rfl⟩ := fire_eq_some.mp fired
    exact ⟨_, _, _, writes _ rfl, fired, rfl, run⟩
  refine ⟨c₀, c, c', Plain.user, changes, later, longer, ⟨reads, rfl, hash⟩,
    password_change_final_if_settled _ _ _ ?_ 2 _ c₀ c c' changes ?_ later⟩
  · intro j
    unfold Plain.staleLogin
    split <;> exact Option.some_ne_none _
  · intro c₂ _ _ _ before _ _ _ j v other readsReplaced
    by_cases first : j = 1
    · subst first
      left
      rwa [(leads_of_finished before ended).1]
    · have quiet : ∀ k, k ∉ own j c₀.history := by
        intro k mem
        obtain ⟨ch, mem⟩ := mem_own.mp mem
        exact (alone _ mem).elim first other
      have isChange : (Plain.staleLogin j).handler = .changePassword "fresh secret" "secret" := by
        unfold Plain.staleLogin
        split
        · exact absurd rfl first
        · rfl
      have read := readsReplaced.1
      simp only [Reads, isChange] at read
      obtain ⟨_, _, mem⟩ := read
      exact absurd mem (quiet _)

end BajaValle
