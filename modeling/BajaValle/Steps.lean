import BajaValle.Rules

/-!
# What one call does to the world

Every invariant is derived from these inversions and never unfolds `exec`.
`SessionsStep` and `UsersStep` list all that a call can do to each table.
-/

namespace BajaValle

open CallPrograms Interleaving

variable {env : Env} {ch : Choice} {op : Op} {w w' : World} {r : op.Res}

/-- Revoke the rows that the filter holds of. -/
def revokeRows (filter : SessionWhere) (now : Nat) (sessions : List Session) : List Session :=
  sessions.map fun s => if filter.holds now s then { s with revokedAt := some now } else s

/-- An answer that tells of no insertion and no update of sessions. -/
def LeavesSessions : OwnCall → Prop
  | ⟨.sessionCreate _, .ok _⟩ | ⟨.sessionUpdateMany _ _, .ok _⟩ => False
  | _ => True

/-- An answer that tells of no change to the users. -/
def LeavesUsers : OwnCall → Prop
  | ⟨.userCreate _, .ok _⟩ | ⟨.userUpdate _ _, .ok _⟩ | ⟨.userDelete _, .ok _⟩ => False
  | _ => True

/-- The error that answered a query. -/
def queryError : OwnCall → Option PrismaError
  | ⟨.userFindByEmailHash _, .error e⟩ | ⟨.userFindById _, .error e⟩ => some e
  | ⟨.userFindMany _ _, .error e⟩ | ⟨.userCreate _, .error e⟩ => some e
  | ⟨.userUpdate _ _, .error e⟩ | ⟨.userDelete _, .error e⟩ => some e
  | ⟨.sessionFindByTokenHash _, .error e⟩ | ⟨.sessionFindById _, .error e⟩ => some e
  | ⟨.sessionFindFirst _, .error e⟩ | ⟨.sessionCreate _, .error e⟩ => some e
  | ⟨.sessionUpdateMany _ _, .error e⟩ => some e
  | _ => none

/-- What a call can do to the sessions: nothing but cascading deletes, one
insertion, or one bulk update. -/
inductive SessionsStep (ch : Choice) (w w' : World) : OwnCall → Prop where
  | kept {k : OwnCall} (rows : w'.sessions.Sublist w.sessions) (leaves : LeavesSessions k) :
      SessionsStep ch w w' k
  | inserted (d : NewSession) (rows : w'.sessions = w.sessions ++ [d.row ch.uuid ch.now])
      (unused : ch.uuid ∉ w.uuids) (owner : ∃ u ∈ w.users, u.id = d.userId)
      (fresh : ∀ s ∈ w.sessions, s.tokenHash ≠ d.tokenHash) :
      SessionsStep ch w w' ⟨.sessionCreate d, .ok (d.row ch.uuid ch.now)⟩
  | updated (filter : SessionWhere) (date : DateValue)
      (rows : w'.sessions = w.sessions.map fun s =>
        if filter.holds ch.now s then { s with revokedAt := date.at ch.now } else s) :
      SessionsStep ch w w' ⟨.sessionUpdateMany filter date,
        .ok (w.sessions.filter (filter.holds ch.now)).length⟩

/-- What a call can do to the users. -/
inductive UsersStep (ch : Choice) (w w' : World) : OwnCall → Prop where
  | kept {k : OwnCall} (rows : w'.users = w.users) (leaves : LeavesUsers k) :
      UsersStep ch w w' k
  | inserted (d : NewUser) (rows : w'.users = w.users ++ [d.row ch.uuid ch.now])
      (unused : ch.uuid ∉ w.uuids) (free : w.emailTaken ch.uuid d.emailHash = false) :
      UsersStep ch w w' ⟨.userCreate d, .ok (d.row ch.uuid ch.now)⟩
  | updated (id : Uuid) (c : UserChanges) (u : User) (found : w.users.find? (·.id = id) = some u)
      (free : ∀ e, c.emailHash = some e → w.emailTaken id e = false)
      (rows : w'.users = w.users.map fun v => if v.id = id then c.apply ch.now v else v) :
      UsersStep ch w w' ⟨.userUpdate id c, .ok (c.apply ch.now u)⟩
  | deleted (id : Uuid) (u : User) (found : w.users.find? (·.id = id) = some u)
      (rows : w'.users = w.users.filter (·.id ≠ id)) :
      UsersStep ch w w' ⟨.userDelete id, .ok u⟩

lemma exec_eq_some {out : op.Res × World} :
    exec env ch op w = some out ↔
      w.clock ≤ ch.now ∧ answer env ch op { w with clock := ch.now } = some out := by
  unfold exec
  split
  · simp only [reduceCtorEq, false_iff, not_and]
    omega
  · exact ⟨fun h => ⟨by omega, h⟩, And.right⟩

lemma query_eq_some {β : Type} {run out : Except PrismaError β × World} :
    query ch w run = some out ↔
      (ch.fails = true ∧ out = (.error .unavailable, w)) ∨ (ch.fails = false ∧ out = run) := by
  unfold query
  cases ch.fails <;> simp [eq_comm]

lemma insertion_eq_some {β : Type} {run : World → Except PrismaError β × World}
    {out : Except PrismaError β × World} :
    insertion ch w run = some out ↔ ch.uuid ∉ w.uuids ∧
      query ch w (run { w with uuids := ch.uuid :: w.uuids }) = some out := by
  unfold insertion
  split <;> simp_all

/-- Calls that change neither table. -/
lemma exec_readOnly (h : exec env ch op w = some (r, w')) (reads : ReadOnly op) :
    w'.sessions = w.sessions ∧ w'.users = w.users := by
  obtain ⟨_, h⟩ := exec_eq_some.mp h
  cases op with
  | now | jwtSign | jwtVerify =>
    simp only [answer, Option.some.injEq, Prod.mk.injEq] at h
    obtain ⟨_, rfl⟩ := h
    exact ⟨rfl, rfl⟩
  | dummySettle =>
    simp only [answer, Option.some.injEq, Prod.mk.injEq] at h
    obtain ⟨_, rfl⟩ := h
    exact ⟨rfl, rfl⟩
  | randomUUID | randomBytes =>
    simp only [answer, Option.ite_none_left_eq_some, Option.ite_none_right_eq_some,
      Option.some.injEq, Prod.mk.injEq] at h
    obtain ⟨_, _, rfl⟩ := h
    exact ⟨rfl, rfl⟩
  | argon2 =>
    simp only [answer] at h
    split at h <;> (obtain ⟨_, rfl⟩ := Prod.mk.inj (Option.some.inj h); exact ⟨rfl, rfl⟩)
  | dummyStart =>
    simp only [answer] at h
    split at h <;> (obtain ⟨_, rfl⟩ := Prod.mk.inj (Option.some.inj h); exact ⟨rfl, rfl⟩)
  | dummyAwait =>
    simp only [answer] at h
    split at h
    · obtain ⟨_, rfl⟩ := Prod.mk.inj (Option.some.inj h)
      exact ⟨rfl, rfl⟩
    · cases h
  | userFindByEmailHash | userFindById | userFindMany =>
    rcases query_eq_some.mp h with ⟨_, out⟩ | ⟨_, out⟩ <;>
      (obtain ⟨_, rfl⟩ := Prod.mk.inj out; exact ⟨rfl, rfl⟩)
  | sessionFindByTokenHash | sessionFindById | sessionFindFirst =>
    rcases query_eq_some.mp h with ⟨_, out⟩ | ⟨_, out⟩ <;>
      (obtain ⟨_, rfl⟩ := Prod.mk.inj out; exact ⟨rfl, rfl⟩)
  | userCreate | userUpdate | userDelete | sessionCreate | sessionUpdateMany => exact reads.elim

theorem exec_sessions (h : exec env ch op w = some (r, w')) :
    SessionsStep ch w w' ⟨op, r⟩ := by
  by_cases reads : ReadOnly op
  · refine .kept ?_ (by cases op <;> trivial)
    rw [(exec_readOnly h reads).1]
  obtain ⟨_, h⟩ := exec_eq_some.mp h
  cases op with
  | sessionCreate d =>
    simp only [answer, insertion_eq_some, query_eq_some, Prod.mk.injEq] at h
    obtain ⟨unused, ⟨_, rfl, rfl⟩ | ⟨_, out⟩⟩ := h
    · exact .kept (List.Sublist.refl _) trivial
    · unfold World.sessionCreate at out
      split_ifs at out with taken owner
      · obtain ⟨rfl, rfl⟩ := Prod.mk.inj out
        exact .kept (List.Sublist.refl _) trivial
      · obtain ⟨rfl, rfl⟩ := Prod.mk.inj out
        exact .kept (List.Sublist.refl _) trivial
      · obtain ⟨rfl, rfl⟩ := Prod.mk.inj out
        exact .inserted d rfl unused (by simpa using owner) (by simpa using taken)
  | sessionUpdateMany filter date =>
    simp only [answer, query_eq_some, Prod.mk.injEq] at h
    rcases h with ⟨_, rfl, rfl⟩ | ⟨_, rfl, rfl⟩
    · exact .kept (List.Sublist.refl _) trivial
    · exact .updated filter date rfl
  | userCreate d =>
    refine .kept ?_ trivial
    simp only [answer, insertion_eq_some, query_eq_some, Prod.mk.injEq] at h
    obtain ⟨_, ⟨_, rfl, rfl⟩ | ⟨_, out⟩⟩ := h
    · exact List.Sublist.refl _
    · unfold World.userCreate at out
      split_ifs at out <;> (obtain ⟨_, rfl⟩ := Prod.mk.inj out; exact List.Sublist.refl _)
  | userUpdate id c =>
    refine .kept ?_ trivial
    simp only [answer, query_eq_some, Prod.mk.injEq] at h
    obtain ⟨_, rfl, rfl⟩ | ⟨_, out⟩ := h
    · exact List.Sublist.refl _
    · unfold World.userUpdate at out
      split at out
      · obtain ⟨_, rfl⟩ := Prod.mk.inj out
        exact List.Sublist.refl _
      · split_ifs at out <;> (obtain ⟨_, rfl⟩ := Prod.mk.inj out; exact List.Sublist.refl _)
  | userDelete id =>
    refine .kept ?_ trivial
    simp only [answer, query_eq_some, Prod.mk.injEq] at h
    obtain ⟨_, rfl, rfl⟩ | ⟨_, out⟩ := h
    · exact List.Sublist.refl _
    · unfold World.userDelete at out
      split at out <;> obtain ⟨_, rfl⟩ := Prod.mk.inj out
      · exact List.Sublist.refl _
      · exact List.filter_sublist
  | _ => exact absurd trivial reads

theorem exec_users (h : exec env ch op w = some (r, w')) : UsersStep ch w w' ⟨op, r⟩ := by
  by_cases reads : ReadOnly op
  · exact .kept (exec_readOnly h reads).2 (by cases op <;> trivial)
  obtain ⟨_, h⟩ := exec_eq_some.mp h
  cases op with
  | userCreate d =>
    simp only [answer, insertion_eq_some, query_eq_some, Prod.mk.injEq] at h
    obtain ⟨unused, ⟨_, rfl, rfl⟩ | ⟨_, out⟩⟩ := h
    · exact .kept rfl trivial
    · unfold World.userCreate at out
      split_ifs at out with taken <;> obtain ⟨rfl, rfl⟩ := Prod.mk.inj out
      · exact .kept rfl trivial
      · exact .inserted d rfl unused (by simpa [World.emailTaken] using taken)
  | userUpdate id c =>
    simp only [answer, query_eq_some, Prod.mk.injEq] at h
    obtain ⟨_, rfl, rfl⟩ | ⟨_, out⟩ := h
    · exact .kept rfl trivial
    · unfold World.userUpdate at out
      split at out
      · obtain ⟨rfl, rfl⟩ := Prod.mk.inj out
        exact .kept rfl trivial
      · rename_i u found
        split_ifs at out with taken <;> obtain ⟨rfl, rfl⟩ := Prod.mk.inj out
        · exact .kept rfl trivial
        · refine .updated id c u found ?_ rfl
          intro e he
          simpa [he, World.emailTaken] using taken
  | userDelete id =>
    simp only [answer, query_eq_some, Prod.mk.injEq] at h
    obtain ⟨_, rfl, rfl⟩ | ⟨_, out⟩ := h
    · exact .kept rfl trivial
    · unfold World.userDelete at out
      split at out
      · obtain ⟨rfl, rfl⟩ := Prod.mk.inj out
        exact .kept rfl trivial
      · rename_i u found
        obtain ⟨rfl, rfl⟩ := Prod.mk.inj out
        exact .deleted id u found rfl
  | sessionCreate d =>
    refine .kept ?_ trivial
    simp only [answer, insertion_eq_some, query_eq_some, Prod.mk.injEq] at h
    obtain ⟨unused, ⟨_, rfl, rfl⟩ | ⟨_, out⟩⟩ := h
    · rfl
    · unfold World.sessionCreate at out
      split_ifs at out <;> (obtain ⟨_, rfl⟩ := Prod.mk.inj out; rfl)
  | sessionUpdateMany filter date =>
    refine .kept ?_ trivial
    simp only [answer, query_eq_some, Prod.mk.injEq] at h
    rcases h with ⟨_, rfl, rfl⟩ | ⟨_, rfl, rfl⟩ <;> rfl
  | _ => exact absurd trivial reads

/-- The tables may differ and nothing else. -/
structure TablesOnly (w w' : World) : Prop where
  clock : w'.clock = w.clock
  uuids : w'.uuids = w.uuids
  draws : w'.draws = w.draws
  dummyHash : w'.dummyHash = w.dummyHash

lemma TablesOnly.refl (w : World) : TablesOnly w w := ⟨rfl, rfl, rfl, rfl⟩

lemma userCreate_tablesOnly (w : World) (id : Uuid) (d : NewUser) :
    TablesOnly w (w.userCreate id d).2 := by
  unfold World.userCreate
  split_ifs <;> exact ⟨rfl, rfl, rfl, rfl⟩

lemma userUpdate_tablesOnly (w : World) (id : Uuid) (c : UserChanges) :
    TablesOnly w (w.userUpdate id c).2 := by
  unfold World.userUpdate
  split
  · exact .refl w
  · split_ifs <;> exact ⟨rfl, rfl, rfl, rfl⟩

lemma userDelete_tablesOnly (w : World) (id : Uuid) : TablesOnly w (w.userDelete id).2 := by
  unfold World.userDelete
  split <;> exact ⟨rfl, rfl, rfl, rfl⟩

lemma sessionCreate_tablesOnly (w : World) (id : Uuid) (d : NewSession) :
    TablesOnly w (w.sessionCreate id d).2 := by
  unfold World.sessionCreate
  split_ifs <;> exact ⟨rfl, rfl, rfl, rfl⟩

lemma query_tablesOnly {β : Type} {run : Except PrismaError β × World}
    {res : Except PrismaError β} (h : query ch w run = some (res, w'))
    (tables : TablesOnly w run.2) : TablesOnly w w' := by
  rcases query_eq_some.mp h with ⟨_, out⟩ | ⟨_, out⟩
  · obtain ⟨_, rfl⟩ := Prod.mk.inj out
    exact .refl _
  · rw [← out] at tables
    exact tables

/-- Besides the tables a call moves the clock and spends what it draws. -/
structure Spends (ch : Choice) (w w' : World) : Prop where
  later : w.clock ≤ ch.now
  clock : w'.clock = ch.now
  uuids : w.uuids ⊆ w'.uuids
  draws : w.draws ⊆ w'.draws

lemma Spends.le (spends : Spends ch w w') : w.clock ≤ w'.clock :=
  spends.clock ▸ spends.later

lemma TablesOnly.spends (h : TablesOnly { w with clock := ch.now } w')
    (later : w.clock ≤ ch.now) : Spends ch w w' :=
  ⟨later, h.clock, h.uuids ▸ List.Subset.refl _, h.draws ▸ List.Subset.refl _⟩

lemma insertion_spends {β : Type} {run : World → Except PrismaError β × World}
    {res : Except PrismaError β}
    (h : insertion ch { w with clock := ch.now } run = some (res, w'))
    (later : w.clock ≤ ch.now) (tables : ∀ v, TablesOnly v (run v).2) :
    ch.uuid ∉ w.uuids ∧ Spends ch w w' ∧ ∀ a, res = .ok a → ch.uuid ∈ w'.uuids := by
  obtain ⟨unused, h⟩ := insertion_eq_some.mp h
  rcases query_eq_some.mp h with ⟨_, out⟩ | ⟨_, out⟩
  · obtain ⟨rfl, rfl⟩ := Prod.mk.inj out
    exact ⟨unused, (TablesOnly.refl _).spends later, by simp⟩
  · have same := tables { w with clock := ch.now, uuids := ch.uuid :: w.uuids }
    rw [← out] at same
    refine ⟨unused, ⟨later, same.clock, ?_, same.draws ▸ List.Subset.refl _⟩, fun _ _ => ?_⟩
    · rw [same.uuids]
      exact List.subset_cons_self _ _
    · rw [same.uuids]
      exact List.mem_cons_self

theorem exec_spends (h : exec env ch op w = some (r, w')) : Spends ch w w' := by
  obtain ⟨later, h⟩ := exec_eq_some.mp h
  cases op with
  | now | jwtSign | jwtVerify | dummySettle =>
    simp only [answer, Option.some.injEq, Prod.mk.injEq] at h
    obtain ⟨_, rfl⟩ := h
    exact ⟨later, rfl, List.Subset.refl _, List.Subset.refl _⟩
  | randomUUID =>
    simp only [answer, Option.ite_none_left_eq_some, Option.some.injEq, Prod.mk.injEq] at h
    obtain ⟨_, _, rfl⟩ := h
    exact ⟨later, rfl, List.subset_cons_self _ _, List.Subset.refl _⟩
  | randomBytes =>
    simp only [answer, Option.ite_none_right_eq_some, Option.some.injEq, Prod.mk.injEq] at h
    obtain ⟨_, _, rfl⟩ := h
    exact ⟨later, rfl, List.Subset.refl _, List.subset_cons_self _ _⟩
  | argon2 | dummyStart =>
    simp only [answer] at h
    split at h <;> (obtain ⟨_, rfl⟩ := Prod.mk.inj (Option.some.inj h);
                    exact ⟨later, rfl, List.Subset.refl _, List.Subset.refl _⟩)
  | dummyAwait =>
    simp only [answer] at h
    split at h
    · obtain ⟨_, rfl⟩ := Prod.mk.inj (Option.some.inj h)
      exact ⟨later, rfl, List.Subset.refl _, List.Subset.refl _⟩
    · cases h
  | userFindByEmailHash | userFindById | userFindMany =>
    exact (query_tablesOnly h (.refl _)).spends later
  | sessionFindByTokenHash | sessionFindById | sessionFindFirst =>
    exact (query_tablesOnly h (.refl _)).spends later
  | userCreate d =>
    simp only [answer] at h
    exact (insertion_spends h later fun _ => userCreate_tablesOnly _ _ _).2.1
  | sessionCreate d =>
    simp only [answer] at h
    exact (insertion_spends h later fun _ => sessionCreate_tablesOnly _ _ _).2.1
  | userUpdate id c => exact (query_tablesOnly h (userUpdate_tablesOnly _ _ _)).spends later
  | userDelete id => exact (query_tablesOnly h (userDelete_tablesOnly _ _)).spends later
  | sessionUpdateMany => exact (query_tablesOnly h ⟨rfl, rfl, rfl, rfl⟩).spends later

/-- The id that a call draws, for itself or for the row it inserts. -/
def drawnUuid : OwnCall → Option Uuid
  | ⟨.randomUUID, id⟩ => some id
  | ⟨.userCreate _, .ok u⟩ => some u.id
  | ⟨.sessionCreate _, .ok s⟩ => some s.id
  | _ => none

def drawnBytes : OwnCall → Option Bytes
  | ⟨.randomBytes n, bytes⟩ => if UNIQUE_BYTES ≤ n then some bytes else none
  | _ => none

lemma exec_drawnUuid (h : exec env ch op w = some (r, w')) {id : Uuid}
    (drawn : drawnUuid ⟨op, r⟩ = some id) : id ∉ w.uuids ∧ id ∈ w'.uuids := by
  obtain ⟨later, answered⟩ := exec_eq_some.mp h
  cases op with
  | randomUUID =>
    simp only [answer, Option.ite_none_left_eq_some, Option.some.injEq, Prod.mk.injEq] at answered
    obtain ⟨unused, rfl, rfl⟩ := answered
    obtain rfl := Option.some.inj drawn
    exact ⟨unused, List.mem_cons_self⟩
  | userCreate d =>
    simp only [answer] at answered
    obtain ⟨unused, _, spent⟩ :=
      insertion_spends answered later fun _ => userCreate_tablesOnly _ _ _
    cases exec_users h with
    | kept _ leaves => cases r with
      | ok u => exact leaves.elim
      | error e => cases drawn
    | inserted =>
      obtain rfl := Option.some.inj drawn
      exact ⟨unused, spent _ rfl⟩
  | sessionCreate d =>
    simp only [answer] at answered
    obtain ⟨unused, _, spent⟩ :=
      insertion_spends answered later fun _ => sessionCreate_tablesOnly _ _ _
    cases exec_sessions h with
    | kept _ leaves => cases r with
      | ok u => exact leaves.elim
      | error e => cases drawn
    | inserted =>
      obtain rfl := Option.some.inj drawn
      exact ⟨unused, spent _ rfl⟩
  | _ => cases drawn

lemma exec_drawnBytes (h : exec env ch op w = some (r, w')) {bytes : Bytes}
    (drawn : drawnBytes ⟨op, r⟩ = some bytes) : bytes ∉ w.draws ∧ bytes ∈ w'.draws := by
  obtain ⟨_, answered⟩ := exec_eq_some.mp h
  cases op with
  | randomBytes n =>
    simp only [answer, Option.ite_none_right_eq_some, Option.some.injEq, Prod.mk.injEq] at answered
    obtain ⟨⟨_, unique⟩, rfl, rfl⟩ := answered
    simp only [drawnBytes, Option.ite_none_right_eq_some, Option.some.injEq] at drawn
    obtain ⟨long, rfl⟩ := drawn
    exact ⟨unique.resolve_left (by omega), List.mem_cons_self⟩
  | _ => cases drawn

lemma exec_randomBytes {n : Nat} {bytes : Bytes}
    (h : exec env ch (.randomBytes n) w = some (bytes, w')) : bytes.length = n := by
  obtain ⟨_, h⟩ := exec_eq_some.mp h
  simp only [answer, Option.ite_none_right_eq_some, Option.some.injEq, Prod.mk.injEq] at h
  obtain ⟨⟨length, _⟩, rfl, _⟩ := h
  exact length

/-- A derivation that succeeds is the value of argon2id. -/
lemma exec_argon2 {message : String} {nonce : Bytes} {params : Argon2Params} {bytes : Bytes}
    (h : exec env ch (.argon2 message nonce params) w = some (.ok bytes, w')) :
    env.argon2id message nonce params = some bytes := by
  obtain ⟨_, h⟩ := exec_eq_some.mp h
  simp only [answer] at h
  split at h
  · cases (Prod.mk.inj (Option.some.inj h)).1
  · have out := (Prod.mk.inj (Option.some.inj h)).1
    cases derived : env.argon2id message nonce params with
    | none => simp [derived] at out
    | some value => simpa [derived] using out

/-- Random draws of a run from any world are as long as asked for. -/
lemma randomBytes_length {ι α : Type} [DecidableEq ι] {progs : ι → Task α}
    {c : Config ι World Choice Op Op.Res Failure α} (run : Leads (exec env) (start w progs) c)
    {i : ι} {n : Nat} {bytes : Bytes}
    (drawn : (⟨.randomBytes n, bytes⟩ : OwnCall) ∈ own i c.history) : bytes.length = n := by
  refine leads_answers (P := fun k => ∀ n bytes, k = ⟨.randomBytes n, bytes⟩ → bytes.length = n)
    ?_ run drawn n bytes rfl
  rintro ch op w r w' answered n bytes call
  cases call
  exact exec_randomBytes answered

section Draws
variable {progs : Nat → Task Answer} {c : Server} (run : Leads (exec env) (start w progs) c)
include run

lemma drawnUuid_used {e : ServerEvent} (he : e ∈ c.history) {id : Uuid}
    (drawn : drawnUuid e.call = some id) : id ∈ c.world.uuids :=
  (leads_fresh drawnUuid (fun w id => id ∈ w.uuids)
    (fun _ _ _ _ _ h _ ht => (exec_spends h).uuids ht)
    (fun _ _ _ _ _ h _ ht => exec_drawnUuid h ht) run).1 e he id drawn

/-- In a run from any world, an id is drawn by one event. -/
theorem drawnUuid_once {e e' : ServerEvent} (he : e ∈ c.history) (he' : e' ∈ c.history)
    (id : Uuid) (drawn : drawnUuid e.call = some id) (drawn' : drawnUuid e'.call = some id) :
    e = e' :=
  (leads_fresh drawnUuid (fun w id => id ∈ w.uuids)
    (fun _ _ _ _ _ h _ ht => (exec_spends h).uuids ht)
    (fun _ _ _ _ _ h _ ht => exec_drawnUuid h ht) run).2 e he e' he' id drawn drawn'

theorem drawnBytes_once {e e' : ServerEvent} (he : e ∈ c.history) (he' : e' ∈ c.history)
    (bytes : Bytes) (drawn : drawnBytes e.call = some bytes)
    (drawn' : drawnBytes e'.call = some bytes) : e = e' :=
  (leads_fresh drawnBytes (fun w bytes => bytes ∈ w.draws)
    (fun _ _ _ _ _ h _ ht => (exec_spends h).draws ht)
    (fun _ _ _ _ _ h _ ht => exec_drawnBytes h ht) run).2 e he e' he' bytes drawn drawn'

lemma argon2_derived {i : Nat} {message : String} {nonce : Bytes} {params : Argon2Params}
    {bytes : Bytes}
    (derived : (⟨.argon2 message nonce params, .ok bytes⟩ : OwnCall) ∈ own i c.history) :
    env.argon2id message nonce params = some bytes := by
  refine leads_answers (P := fun k => ∀ message nonce params bytes,
    k = ⟨.argon2 message nonce params, .ok bytes⟩ → env.argon2id message nonce params = some bytes)
    ?_ run derived message nonce params bytes rfl
  rintro ch op w r w' answered message nonce params bytes call
  cases call
  exact exec_argon2 answered

end Draws

/-- What a read of one session answers is stored then. -/
lemma exec_find_session {tokenHash : String} {s : Session} {u : User}
    (h : exec env ch (.sessionFindByTokenHash tokenHash) w = some (.ok (some (s, u)), w')) :
    s ∈ w.sessions ∧ s.tokenHash = tokenHash ∧ u ∈ w.users ∧ u.id = s.userId := by
  obtain ⟨_, h⟩ := exec_eq_some.mp h
  simp only [answer, query_eq_some, Prod.mk.injEq, reduceCtorEq, false_and, and_false, false_or,
    Except.ok.injEq] at h
  obtain ⟨_, found, _⟩ := h
  obtain ⟨t, ht, joined⟩ := Option.bind_eq_some_iff.mp found.symm
  obtain ⟨v, hv, same⟩ := Option.map_eq_some_iff.mp joined
  obtain ⟨rfl, rfl⟩ := Prod.mk.inj same
  exact ⟨List.mem_of_find?_eq_some ht, by simpa using List.find?_some ht,
    List.mem_of_find?_eq_some hv, by simpa using List.find?_some hv⟩

lemma exec_updateMany {filter : SessionWhere} {date : DateValue} {n : Nat}
    (h : exec env ch (.sessionUpdateMany filter date) w = some (.ok n, w')) :
    w'.sessions = w.sessions.map fun s =>
      if filter.holds ch.now s then { s with revokedAt := date.at ch.now } else s := by
  cases exec_sessions h with
  | kept _ leaves => exact leaves.elim
  | updated _ _ rows => exact rows

lemma live_of_mem_revokeRows {filter : SessionWhere} {now : Nat} {rows : List Session}
    {s : Session} (hs : s ∈ revokeRows filter now rows) (live : s.revokedAt = none) :
    s ∈ rows ∧ filter.holds now s = false := by
  obtain ⟨t, ht, rfl⟩ := List.mem_map.mp hs
  split at live
  · cases live
  · rename_i missed
    rw [if_neg missed]
    exact ⟨ht, by simpa using missed⟩

lemma revokeRows_misses {filter : SessionWhere} {now : Nat} {sessions : List Session}
    (misses : sessions.filter (filter.holds now) = []) :
    revokeRows filter now sessions = sessions := by
  refine (List.map_congr_left fun t ht => ?_).trans (List.map_id sessions)
  rw [if_neg (List.filter_eq_nil_iff.mp misses t ht)]
  rfl

/-- An update that counts one row found one. -/
lemma exec_updateMany_one {filter : SessionWhere} {date : DateValue}
    (h : exec env ch (.sessionUpdateMany filter date) w = some (.ok 1, w')) :
    ∃ t ∈ w.sessions, filter.holds ch.now t = true := by
  obtain ⟨_, h⟩ := exec_eq_some.mp h
  simp only [answer, query_eq_some, Prod.mk.injEq, reduceCtorEq, false_and, and_false, false_or,
    Except.ok.injEq] at h
  obtain ⟨t, ht⟩ := List.length_eq_one_iff.mp h.2.1.symm
  have mem := List.mem_singleton_self t
  rw [← ht] at mem
  exact ⟨t, List.mem_filter.mp mem⟩

lemma exec_find_active {filter : SessionWhere} {s : Session} {u : User}
    (h : exec env ch (.sessionFindFirst filter) w = some (.ok (some (s, u)), w')) :
    s ∈ w.sessions ∧ filter.holds ch.now s = true ∧ u ∈ w.users ∧ u.id = s.userId := by
  obtain ⟨_, h⟩ := exec_eq_some.mp h
  simp only [answer, query_eq_some, Prod.mk.injEq, reduceCtorEq, false_and, and_false, false_or,
    Except.ok.injEq] at h
  obtain ⟨_, found, _⟩ := h
  obtain ⟨t, ht, joined⟩ := Option.bind_eq_some_iff.mp found.symm
  obtain ⟨v, hv, same⟩ := Option.map_eq_some_iff.mp joined
  obtain ⟨rfl, rfl⟩ := Prod.mk.inj same
  exact ⟨List.mem_of_find?_eq_some ht, List.find?_some ht,
    List.mem_of_find?_eq_some hv, by simpa using List.find?_some hv⟩

end BajaValle
