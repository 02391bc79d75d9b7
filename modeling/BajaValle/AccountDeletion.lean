import BajaValle.Refreshes
import BajaValle.Subjects

/-!
# Deleting an account is final

From the step that deletes a user on there is neither the user nor a session of
the user, no request makes one, no token of the user passes the guard, and what
is left of the requests about the user fails or changes nothing.
-/

namespace BajaValle

open CallPrograms Prog Interleaving SessionsService

variable {env : Env} {reqs : Nat → Request} {w w' : World} {c c₀ c₁ c₂ c₃ : Server}

/-- The user is gone for good: the id has been drawn and stands in no row. -/
structure Gone (w : World) (id : Uuid) : Prop where
  drawn : id ∈ w.uuids
  users : ∀ u ∈ w.users, u.id ≠ id
  sessions : ∀ s ∈ w.sessions, s.userId ≠ id

lemma Gone.leads {id : Uuid} (gone : Gone c.world id) (consistent : Consistent c.world)
    (run : Leads (exec env) c c₁) : Gone c₁.world id := by
  have users : ∀ u ∈ c₁.world.users, u.id ≠ id := by
    rintro u hu rfl
    obtain ⟨v, hv, same⟩ := leads_users run hu gone.drawn
    exact gone.users v hv same
  refine ⟨leads_uuids run gone.drawn, users, ?_⟩
  rintro s hs rfl
  obtain ⟨u, hu, owner⟩ := (leads_consistent consistent run).owners s hs
  exact users u hu owner

lemma gone_of_delete {ch : Choice} {id : Uuid} {u : User} (consistent : Consistent w)
    (answered : exec env ch (.userDelete id) w = some (.ok u, w')) : Gone w' id := by
  have stored : u ∈ w.users ∧ u.id = id := by
    cases exec_users answered with
    | kept _ leaves => exact leaves.elim
    | deleted _ _ found =>
      exact ⟨List.mem_of_find?_eq_some found, by simpa using List.find?_some found⟩
  have users : ∀ v ∈ w'.users, v.id ≠ id := by
    cases exec_users answered with
    | kept _ leaves => exact leaves.elim
    | deleted _ _ _ rows =>
      intro v hv
      rw [rows] at hv
      simpa using (List.mem_filter.mp hv).2
  refine ⟨(exec_spends answered).uuids (stored.2 ▸ consistent.userIds u stored.1), users, ?_⟩
  rintro s hs rfl
  obtain ⟨v, hv, owner⟩ := (consistent.exec answered).owners s hs
  exact users v hv owner

section Writes
variable {ch : Choice} {op : Op} {r : op.Res} {id : Uuid}

/-- A write to the row of a user who is gone fails. -/
lemma Gone.update_fails (gone : Gone w id) {data : UserChanges} {r : Except PrismaError User}
    (answered : exec env ch (.userUpdate id data) w = some (r, w')) :
    Failed ⟨.userUpdate id data, r⟩ := by
  cases r with
  | error e => trivial
  | ok u =>
    cases exec_users answered with
    | kept _ leaves => exact leaves.elim
    | updated _ _ v found =>
      exact absurd (by simpa using List.find?_some found)
        (gone.users v (List.mem_of_find?_eq_some found))

lemma Gone.delete_fails (gone : Gone w id) {r : Except PrismaError User}
    (answered : exec env ch (.userDelete id) w = some (r, w')) :
    Failed ⟨.userDelete id, r⟩ := by
  cases r with
  | error e => trivial
  | ok u =>
    cases exec_users answered with
    | kept _ leaves => exact leaves.elim
    | deleted _ _ found =>
      exact absurd (by simpa using List.find?_some found)
        (gone.users u (List.mem_of_find?_eq_some found))

lemma Gone.insert_fails (gone : Gone w id) {d : NewSession} (owner : d.userId = id)
    {r : Except PrismaError Session} (answered : exec env ch (.sessionCreate d) w = some (r, w')) :
    Failed ⟨.sessionCreate d, r⟩ := by
  cases r with
  | error e => trivial
  | ok s =>
    cases exec_sessions answered with
    | kept _ leaves => exact leaves.elim
    | inserted _ _ _ exists_ =>
      obtain ⟨u, hu, same⟩ := exists_
      exact absurd (same.trans owner) (gone.users u hu)

/-- A bulk revocation that matches no row changes nothing. -/
lemma exec_revocation_idle {filter : SessionWhere} {date : DateValue} {r : Except PrismaError Nat}
    (answered : exec env ch (.sessionUpdateMany filter date) w = some (r, w'))
    (misses : ∀ s ∈ w.sessions, filter.holds ch.now s = false) :
    w'.users = w.users ∧ w'.sessions = w.sessions := by
  cases r with
  | error e => exact exec_failed answered trivial
  | ok n =>
    refine ⟨?_, ?_⟩
    · cases exec_users answered with
      | kept rows => exact rows
    · rw [exec_updateMany answered]
      refine (List.map_congr_left fun s hs => ?_).trans (List.map_id w.sessions)
      rw [misses s hs]
      rfl

end Writes

/-- The rows of the subject's sessions cannot be matched once they are gone. -/
lemma revocation_misses (consistent : Consistent w) (reach : Reachable env reqs w c) {i : Nat}
    {id : Uuid} (gone : Gone c.world id) {au : AuthUser} {filter : SessionWhere}
    (passed : Passed (reqs i) (own i c.history) (some au)) (same : au.id = id)
    (revokes : (reqs i).handler.revokes au = some filter) (now : Nat) :
    ∀ s ∈ c.world.sessions, filter.holds now s = false := by
  intro s hs
  have ofSession : (unrevokedSession au.sessionId).holds now s = false := by
    obtain ⟨t, u, mem, owner, _⟩ := passed.admitted
    refine Bool.eq_false_iff.mpr fun held => ?_
    obtain ⟨sid, _⟩ := unrevokedSession_holds.mp held
    have row := read_row consistent reach mem rfl hs (sid.trans (active_id reach mem).symm)
    exact gone.sessions s hs ((userId_of_issued row).trans (owner.trans same))
  have ofUser : ∀ other, (unrevokedOfUser au.id other).holds now s = false := by
    intro other
    refine Bool.eq_false_iff.mpr fun held => ?_
    exact gone.sessions s hs ((unrevokedOfUser_holds.mp held).1.trans same)
  unfold Handler.revokes at revokes
  split at revokes <;> cases revokes
  · exact ofSession
  · exact ofUser _
  · exact ofUser _

/-- What a request about a user who is gone calls before it answers changes nothing. -/
lemma idle_step (consistent : Consistent w) (reach : Reachable env reqs w c₂) {id : Uuid}
    (gone : Gone c₂.world id) {i : Nat} {ch : Choice} (fired : fire (exec env) i ch c₂ = some c₃)
    (later : Leads (exec env) c₃ c) {a : Answer}
    (subject : (reqs i).handler.subject (own i c.history) = some id)
    (answered : (c.pool i).outcome = some (.ok a)) :
    c₃.world.users = c₂.world.users ∧ c₃.world.sessions = c₂.world.sessions := by
  have may := leads_poolObeys reach (boot_obeys env reqs w) i
  have acts := leads_poolObeys reach (fun i => serve_actsFor env (reqs i)) i
  have kept : ∀ {x}, (reqs i).handler.subject (own i c₂.history) = some x → x = id := by
    intro x settled
    obtain ⟨new, calls⟩ := leads_own_suffix (leads_trans (leads_of_fire fired) later) i
    have still := Handler.subject_append settled new
    rw [calls, subject] at still
    exact (Option.some.inj still).symm
  have settles : ∀ {x}, (reqs i).handler.subject (own i c₃.history) = some x → x = id := by
    intro x settled
    obtain ⟨new, calls⟩ := leads_own_suffix later i
    have still := Handler.subject_append settled new
    rw [calls, subject] at still
    exact (Option.some.inj still).symm
  obtain ⟨op, next, r, w', head, called, rfl⟩ := fire_eq_some.mp fired
  rw [head] at may acts
  obtain ⟨may, _⟩ := may
  obtain ⟨acts, _⟩ := acts
  cases op with
  | userCreate d =>
    obtain ⟨unsettled, dto, isRegister⟩ := acts
    cases r with
    | error e => exact exec_failed called trivial
    | ok v =>
      have names :
        (reqs i).handler.subject (own i (⟨i, ch, ⟨.userCreate d, .ok v⟩⟩ :: c₂.history)) =
          some v.id := by
        rw [own_cons_self, Handler.subject_cons unsettled, isRegister]
        rfl
      exact absurd (settles names ▸ gone.drawn) (exec_drawnUuid called rfl).1
  | userUpdate x data =>
    obtain rfl := kept acts
    exact exec_failed called (gone.update_fails called)
  | userDelete x =>
    obtain rfl := kept acts
    exact exec_failed called (gone.delete_fails called)
  | sessionCreate d => exact exec_failed called (gone.insert_fails (kept acts) called)
  | sessionUpdateMany filter date =>
    obtain ⟨rfl, revokes⟩ := may
    refine exec_revocation_idle called fun s hs => ?_
    by_cases isRefresh : ∃ token, (reqs i).handler = .refresh token
    · obtain ⟨token, isRefresh⟩ := isRefresh
      have run := leads_trans reach (leads_trans (leads_of_fire fired) later)
      have ends := leads_poolObeys run (fun j => serve_spares_family (reqs j)) i
      rw [outcome_eq_ok.mp answered] at ends
      have made : (⟨revocation filter, r⟩ : OwnCall) ∈ own i c.history :=
        (leads_own_suffix later i).subset (mem_own_cons.mpr (.inl ⟨rfl, rfl⟩))
      simp only [Revokes, isRefresh] at revokes
      obtain ⟨t, u, _, ⟨now, calls, _, rfl⟩ | ⟨n, _, _, rfl⟩⟩ := revokes
      · refine Bool.eq_false_iff.mpr fun held => ?_
        obtain ⟨sid, _⟩ := unrevokedSession_holds.mp held
        have owner : t.userId = id := by
          refine kept ?_
          rw [calls, isRefresh]
          rfl
        have read : (⟨.sessionFindByTokenHash (hashToken env token), .ok (some (t, u))⟩ : OwnCall) ∈
            own i c₂.history := by
          rw [calls]
          simp
        have row := read_row consistent reach read rfl hs sid
        exact gone.sessions s hs ((userId_of_issued row).trans owner)
      · exact absurd made (ends token isRefresh _ _)
    · have notRefresh : ∀ token, (reqs i).handler ≠ .refresh token := by simpa using isRefresh
      obtain ⟨au, passed, revokes⟩ := revokes.passed notRefresh
      obtain ⟨found, asked⟩ := Handler.names_of_revokes revokes
      exact revocation_misses consistent reach gone passed (kept (passed.subject found asked))
        revokes ch.now s hs
  | _ =>
    obtain ⟨sessions, users⟩ := exec_readOnly called trivial
    exact ⟨users, sessions⟩

/-- From the step that deletes a user on, the user and the user's sessions are
gone, no step of any request makes one, nobody is admitted as the user any
more, and a request about the user that still answers changes nothing. -/
theorem deletion_final (env : Env) (reqs : Nat → Request) (w : World) (consistent : Consistent w)
    (c₀ c₁ c : Server) (reach : Reachable env reqs w c₀) (i : Nat) (ch : Choice) (id : Uuid)
    (u : User) (fired : fire (exec env) i ch c₀ = some c₁)
    (deleted : c₁.history = ⟨i, ch, ⟨.userDelete id, .ok u⟩⟩ :: c₀.history)
    (later : Leads (exec env) c₁ c) :
    ((∀ v ∈ c.world.users, v.id ≠ id) ∧ ∀ s ∈ c.world.sessions, s.userId ≠ id) ∧
    (∀ new, c.history = new ++ c₁.history → ∀ e ∈ new,
      (∀ s, born e.call = some s → s.userId ≠ id) ∧
        ∀ d v, e.call = ⟨.userCreate d, .ok v⟩ → v.id ≠ id) ∧
    (∀ j au, Passed (reqs j) (own j c.history) (some au) → au.id = id →
      Passed (reqs j) (own j c₁.history) (some au)) ∧
    ∀ j a, (reqs j).handler.subject (own j c.history) = some id →
      (c.pool j).outcome = some (.ok a) → ∀ c₂ c₃ ch, Leads (exec env) c₁ c₂ →
        fire (exec env) j ch c₂ = some c₃ → Leads (exec env) c₃ c →
          c₃.world.users = c₂.world.users ∧ c₃.world.sessions = c₂.world.sessions := by
  have consistent₀ := leads_consistent consistent reach
  have reach₁ := leads_trans reach (leads_of_fire fired)
  have consistent₁ := leads_consistent consistent₀ (leads_of_fire fired)
  have gone : Gone c₁.world id := by
    obtain ⟨op, next, r, w', _, answered, rfl⟩ := fire_eq_some.mp fired
    cases (List.cons.inj deleted).1
    exact gone_of_delete consistent₀ answered
  have since : ∀ {x}, Leads (exec env) c₁ x → Gone x.world id := fun run =>
    gone.leads consistent₁ run
  refine ⟨⟨(since later).users, (since later).sessions⟩, ?_, ?_, ?_⟩
  · intro new history e he
    obtain ⟨c₂, c₃, before, made, record, _⟩ := leads_split later history he
    have after := since (leads_trans before (leads_of_fire made))
    obtain ⟨op, next, r, w', _, answered, rfl⟩ := fire_eq_some.mp made
    have call : e.call = ⟨op, r⟩ := congrArg Event.call (List.cons.inj record).1.symm
    rw [call]
    refine ⟨fun s inserted => after.sessions s (born_stored answered inserted), ?_⟩
    rintro d v ⟨⟩ same
    exact (exec_drawnUuid answered rfl).1 (same ▸ (since before).drawn)
  · rintro j au passed rfl
    refine (passed.since later).resolve_right fun admitted => ?_
    obtain ⟨c₂, _, _, before, _, _, ⟨s, hs, _, owner, _⟩, _⟩ := admitted.stored
    exact (since before).sessions s hs owner
  · intro j a subject answered c₂ c₃ ch' before made after
    exact idle_step consistent (leads_trans reach₁ before)
      (since before) made after subject answered

namespace Plain

def registration : RegisterDto where
  firstName := "Ana"
  lastName := "Ruiz"
  email := "ana@valle.mx"
  password := "correct horse battery"

/-- Request 0 deletes the account, request 1 refreshes its session meanwhile, and
every other request registers the email anew. -/
def deleteAndRegister : Nat → Request
  | 0 => { handler := .deleteAccount "secret", authorization := some (bearer 6) }
  | 1 => refresh 1
  | _ => { handler := .register registration }

end Plain

theorem deletion_final_reregistered :
    ∃ c₁ c : Server, Leads (exec Plain.env) c₁ c ∧ Plain.user ∉ c₁.world.users ∧
      (c.pool 1).outcome = some (.error (.prisma .foreignKeyViolation)) ∧
      (∃ v ∈ c.world.users, v.emailHash = Plain.user.emailHash) ∧
      (∀ v ∈ c.world.users, v.id ≠ 1) ∧ ∀ s ∈ c.world.sessions, s.userId ≠ 1 := by
  have shown : (play (exec Plain.env) [(0, { now := 6 }), (0, { now := 6 }), (1, { now := 6 }),
      (1, { now := 7 }), (1, { now := 7 }), (0, { now := 7 }), (0, { now := 7 })]
      (boot Plain.env Plain.deleteAndRegister Plain.liveWorld)).any (fun c₀ =>
    (fire (exec Plain.env) 0 { now := 8 } c₀).any fun c₁ =>
    (play (exec Plain.env) [(1, { now := 9, bytes := Plain.bytes 2 }), (1, { now := 9, uuid := 7 }),
      (2, { now := 10, bytes := List.replicate 16 1 }), (2, { now := 10 }),
      (2, { now := 10, bytes := List.replicate 12 1 }),
        (2, { now := 10, bytes := List.replicate 12 2 }),
      (2, { now := 10, bytes := List.replicate 12 3 }), (2, { now := 10, uuid := 8 })] c₁).any
        fun c => decide (
      (∀ e ∈ c₁.history.head?, e.call = ⟨.userDelete 1, .ok Plain.user⟩) ∧
      Plain.user ∉ c₁.world.users ∧
      (c.pool 1).outcome = some (.error (.prisma .foreignKeyViolation)) ∧
      ∃ v ∈ c.world.users, v.emailHash = Plain.user.emailHash)) = true := by
    decide +kernel
  obtain ⟨c₀, reach, shown⟩ := leads_of_play _ shown
  obtain ⟨c₁, fired, shown⟩ := (Option.any_eq_true _ _).mp shown
  obtain ⟨c, run, shown⟩ := leads_of_play _ shown
  obtain ⟨deletes, absent, refused, anew⟩ := of_decide_eq_true shown
  have deleted : c₁.history = ⟨0, { now := 8 }, ⟨.userDelete 1, .ok Plain.user⟩⟩ :: c₀.history := by
    obtain ⟨op, next, r, w', _, _, rfl⟩ := fire_eq_some.mp fired
    exact congrArg (fun k => ⟨0, { now := 8 }, k⟩ :: c₀.history) (deletes _ rfl)
  have final := deletion_final Plain.env Plain.deleteAndRegister Plain.liveWorld
    Plain.liveWorld_consistent c₀ c₁ c reach 0 _ 1 _ fired deleted run
  exact ⟨c₁, c, run, absent, refused, anew, final.1⟩

end BajaValle
