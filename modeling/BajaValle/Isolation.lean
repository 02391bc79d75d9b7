import BajaValle.Subjects

/-!
# Isolation of accounts

The account of a user is the row and the sessions that the database holds of
it. No move of a request changes an account other than that of its subject, so
whatever the interleaving, a request changes one account at most and an account
stays as it is while no request about it moves.
-/

namespace BajaValle

open CallPrograms Prog Interleaving SessionsService

/-- What the database holds of one user. -/
def World.accountOf (w : World) (id : Uuid) : List User × List Session :=
  (w.users.filter (·.id = id), w.sessions.filter (·.userId = id))

/-- A move of the request, between the two states, that changes the account. -/
def Alters (env : Env) (c c' : Server) (i : Nat) (id : Uuid) : Prop :=
  ∃ c₁ c₂ ch, Leads (exec env) c c₁ ∧ fire (exec env) i ch c₁ = some c₂ ∧
    Leads (exec env) c₂ c' ∧ c₂.world.accountOf id ≠ c₁.world.accountOf id

/-- The handlers that act for the user put on the request. -/
def Handler.authenticated : Handler → Bool
  | .register _ | .login _ | .refresh _ => false
  | _ => true

/-- A refresh revokes the session that it read first, or its family. -/
def RevokesOwn (env : Env) (req : Request) (h : List OwnCall) : Op → Prop
  | .sessionUpdateMany filter _ => ∀ token, req.handler = .refresh token →
    ∃ s, Presented env h token s ∧ req.handler.subject h = some s.userId ∧
      (filter = unrevokedSession s.id ∨ filter = unrevokedFamily s.familyId)
  | _ => True

section Rule
variable {env : Env} {req : Request} {h : List OwnCall}

lemma revokesOwn_of_readOnly {op : Op} (reads : ReadOnly op) : RevokesOwn env req h op := by
  cases op <;> trivial

lemma reads_revokesOwn {α : Type} {p : Task α} (uses : p.Uses ReadOnly) :
    p.Obeys (RevokesOwn env req) Anything h :=
  (uses_obeys uses fun _ _ _ reads => revokesOwn_of_readOnly reads).mono (fun _ _ hk => hk)
    fun _ _ _ => trivial

/-- After its first read, a refresh may revoke what it read. -/
structure Read (env : Env) (req : Request) (token : String) (s : Session) (h : List OwnCall) :
    Prop where
  presented : Presented env h token s
  subject : req.handler.subject h = some s.userId

lemma Read.cons {token : String} {s : Session} (read : Read env req token s h) (k : OwnCall) :
    Read env req token s (k :: h) :=
  ⟨presented_mono (List.subset_cons_self _ _) read.presented,
    Handler.subject_append read.subject [k]⟩

/-- A permitted revocation, followed by the rest. -/
lemma revocation_bind {β : Type} {token : String} {s : Session} {filter : SessionWhere}
    {f : Nat → Task β} {post : List OwnCall → β → Prop} (isRefresh : req.handler = .refresh token)
    (read : Read env req token s h)
    (owned : filter = unrevokedSession s.id ∨ filter = unrevokedFamily s.familyId)
    (rest : ∀ h' n, Read env req token s h' → (f n).Obeys (RevokesOwn env req) post h') :
    (await (perform (revocation filter)) >>= f).Obeys (RevokesOwn env req) post h := by
  refine await_bind_obeys (M := fun h' _ => Read env req token s h')
    (perform_obeys ?_ fun r => read.cons _) rest
  intro token' hreq
  obtain rfl := Handler.refresh.inj (isRefresh.symm.trans hreq)
  exact ⟨s, read.presented, read.subject, owned⟩

lemma reuse_revokesOwn {token : String} {s : Session} (isRefresh : req.handler = .refresh token)
    (read : Read env req token s h) :
    (reuse s).Obeys (RevokesOwn env req) Anything h := by
  have family : ∀ {h}, Read env req token s h →
      (revokeFamily s.familyId >>= fun _ => Prog.throw sessionInvalid : Task Unit).Obeys
        (RevokesOwn env req) Anything h := fun read =>
    obeys_bind (M := Anything) (revocation_bind isRefresh read (.inr rfl) fun _ _ _ => trivial)
      fun _ _ _ => trivial
  refine await_bind_obeys (M := fun h' _ => Read env req token s h')
    (perform_obeys trivial fun _ => read.cons _) fun h' used read' => ?_
  split
  · refine perform_bind_obeys trivial fun _ => ?_
    split
    · trivial
    · exact family (read'.cons _)
  · exact family read'

lemma rotate_revokesOwn {token : String} {userAgent : Option String}
    (isRefresh : req.handler = .refresh token) (open_ : req.handler.subject h = none) :
    (rotate env token userAgent).Obeys (RevokesOwn env req) Anything h := by
  refine await_bind_obeys (M := fun h' r => h' = ⟨.sessionFindByTokenHash
    (hashToken env token), r⟩ :: h) (perform_obeys trivial fun _ => rfl) ?_
  rintro h₁ (_ | ⟨s, u⟩) rfl
  · trivial
  have read : Read env req token s (⟨.sessionFindByTokenHash (hashToken env token),
      .ok (some (s, u))⟩ :: h) := by
    refine ⟨⟨u, List.mem_cons_self⟩, ?_⟩
    rw [Handler.subject_cons open_, isRefresh]
    rfl
  refine perform_bind_obeys trivial fun t => ?_
  split
  · trivial
  refine revocation_bind isRefresh (read.cons _) (.inl rfl) fun h₂ n read₂ => ?_
  split
  · exact obeys_bind (reuse_revokesOwn isRefresh read₂) fun _ _ _ => trivial
  · refine obeys_bind (M := Anything) ?_ fun _ _ _ => trivial
    exact perform_bind_obeys trivial fun _ =>
      await_bind_obeys (M := Anything) (perform_obeys trivial fun _ => trivial) fun _ _ _ => trivial

end Rule

lemma serve_revokesOwn (env : Env) (req : Request) :
    (serve env req).Obeys (RevokesOwn env req) Anything [] := by
  by_cases isRefresh : ∃ token, req.handler = .refresh token
  · obtain ⟨token, hreq⟩ := isRefresh
    have passed : guards req.handler.route req.authorization = .ret none := by
      rw [hreq]
      rfl
    rw [serve, passed]
    simp only [ret_bind, handle, hreq]
    exact obeys_bind (obeys_bind (rotate_revokesOwn hreq (by rw [hreq]; rfl)) fun _ _ _ =>
      reads_revokesOwn (issueTokens_uses env _ _ _ _)) fun _ _ _ => trivial
  · refine Obeys.mono (uses_true _) (fun h op _ => ?_) fun _ _ _ => trivial
    cases op <;> first | trivial | exact fun token hreq => absurd ⟨token, hreq⟩ isRefresh

section Runs
variable {env : Env} {reqs : Nat → Request} {w : World} {c c' : Server}

/-- A session that a request has read was inserted before. -/
lemma read_birth (empty : w.sessions = []) (reach : Reachable env reqs w c) {i : Nat} {k : OwnCall}
    (made : k ∈ own i c.history) {s : Session} (read : sessionRead k = some s) :
    s.issued ∈ births c.history := by
  obtain ⟨ch, mem⟩ := mem_own.mp made
  obtain ⟨c₁, c₂, before, fired, history, after⟩ := leads_split_new reach mem List.not_mem_nil
  have stored : s ∈ c₁.world.sessions := by
    obtain ⟨op, next, r, w', _, answered, rfl⟩ := fire_eq_some.mp fired
    cases (List.cons.inj history).1
    exact exec_sessionRead answered read
  have suffix := leads_history_suffix (leads_trans (leads_of_fire fired) after)
  obtain ⟨e, he, hb⟩ := mem_births.mp ((reachable_lineage empty before).rows s stored)
  exact mem_births.mpr ⟨e, suffix.subset he, hb⟩

/-- Rows that a permitted revocation holds of belong to the subject. -/
lemma Revokes.subject (empty : w.sessions = []) (reach : Reachable env reqs w c) {i : Nat}
    {filter : SessionWhere} {date : DateValue} {now : Nat} {t : Session}
    (revokes : Revokes env (reqs i) (own i c.history) filter)
    (owns : RevokesOwn env (reqs i) (own i c.history) (.sessionUpdateMany filter date))
    (stored : t ∈ c.world.sessions) (held : filter.holds now t = true) :
    (reqs i).handler.subject (own i c.history) = some t.userId := by
  have lin := reachable_lineage empty reach
  have birth := lin.rows t stored
  by_cases isRefresh : ∃ token, (reqs i).handler = .refresh token
  · obtain ⟨token, hreq⟩ := isRefresh
    obtain ⟨s, read, subject, rfl | rfl⟩ := owns token hreq
    · have same := birth_of_id reach birth (lin.read i token s read).1
        (unrevokedSession_holds.mp held).1
      rw [subject, userId_of_issued same]
    · have same := lin.oneUser _ birth _ (lin.read i token s read).1
        (unrevokedFamily_holds.mp held).1
      exact subject.trans (congrArg some same.symm)
  · obtain ⟨au, passed, scope⟩ := revokes.passed fun token hreq => isRefresh ⟨token, hreq⟩
    have names := Handler.names_of_revokes scope
    rw [passed.subject names.1 names.2]
    unfold Handler.revokes at scope
    split at scope
    · obtain rfl := Option.some.inj scope
      obtain ⟨s, u, read, owner, _⟩ := passed.admitted
      have same := birth_of_id reach birth (read_birth empty reach read rfl)
        ((unrevokedSession_holds.mp held).1.trans (active_id reach read).symm)
      rw [userId_of_issued same, owner]
    · obtain rfl := Option.some.inj scope
      rw [(unrevokedOfUser_holds.mp held).1]
    · obtain rfl := Option.some.inj scope
      rw [(unrevokedOfUser_holds.mp held).1]
    · cases scope

/-- Rows outside the account are neither added nor changed. -/
lemma filter_map_other {α : Type} {p : α → Bool} {f : α → α} {l : List α}
    (keeps : ∀ a ∈ l, p (f a) = p a) (same : ∀ a ∈ l, p a = true → f a = a) :
    (l.map f).filter p = l.filter p := by
  induction l with
  | nil => rfl
  | cons a l ih =>
    have rest := ih (fun b hb => keeps b (List.mem_cons_of_mem _ hb))
      fun b hb => same b (List.mem_cons_of_mem _ hb)
    have head := keeps a List.mem_cons_self
    cases held : p a with
    | true => simp [same a List.mem_cons_self held, held, rest]
    | false => simp [head, held, rest]

lemma filter_other {α : Type} {p q : α → Bool} {l : List α}
    (spared : ∀ a ∈ l, p a = true → q a = true) : (l.filter q).filter p = l.filter p := by
  rw [List.filter_filter]
  refine List.filter_congr fun a ha => ?_
  cases held : p a with
  | true => simp [spared a ha held]
  | false => rfl

/-- The users of a world but for the subject of the move. -/
lemma users_frame {ch : Choice} {op : Op} {r : op.Res} {w' : World} {h : List OwnCall}
    {handler : Handler} {id : Uuid} (acts : ActsFor handler h op)
    (answered : exec env ch op w = some (r, w'))
    (other : handler.subject (⟨op, r⟩ :: h) ≠ some id) :
    w'.users.filter (·.id = id) = w.users.filter (·.id = id) := by
  cases exec_users answered with
  | kept rows => rw [rows]
  | inserted d rows =>
    obtain ⟨open_, dto, rfl⟩ := acts
    rw [Handler.subject_cons open_] at other
    have distinct : ch.uuid ≠ id := fun same => other (congrArg some same)
    rw [rows, List.filter_append]
    simp [distinct]
  | updated target changes u found free rows =>
    have distinct : target ≠ id := fun same => other (same ▸ Handler.subject_append acts [_])
    rw [rows]
    refine filter_map_other (fun v _ => ?_) fun v _ held => ?_
    · split <;> rfl
    · have same : v.id = id := by simpa using held
      rw [if_neg (same ▸ distinct.symm)]
  | deleted target u found rows =>
    have distinct : target ≠ id := fun same => other (same ▸ Handler.subject_append acts [_])
    rw [rows]
    refine filter_other fun v _ held => ?_
    have same : v.id = id := by simpa using held
    simpa [same] using distinct.symm

lemma sessions_frame (empty : w.sessions = []) (reach : Reachable env reqs w c) {i : Nat}
    {ch : Choice} {op : Op} {r : op.Res} {w' : World} {id : Uuid}
    (may : May env (reqs i) (own i c.history) op)
    (acts : ActsFor (reqs i).handler (own i c.history) op)
    (owns : RevokesOwn env (reqs i) (own i c.history) op)
    (answered : exec env ch op c.world = some (r, w'))
    (other : (reqs i).handler.subject (⟨op, r⟩ :: own i c.history) ≠ some id) :
    w'.sessions.filter (·.userId = id) = c.world.sessions.filter (·.userId = id) := by
  have elsewhere : ∀ {target : Uuid},
      (reqs i).handler.subject (own i c.history) = some target → target ≠ id :=
    fun settled same => other (same ▸ Handler.subject_append settled [_])
  cases op with
  | userDelete target =>
    have distinct := elsewhere acts
    rcases exec_cascade answered with ⟨rows, _⟩ | ⟨rows, _⟩
    · rw [rows]
    · rw [rows]
      refine filter_other fun s _ held => ?_
      have same : s.userId = id := by simpa using held
      simpa [same] using distinct.symm
  | sessionCreate d =>
    have distinct := elsewhere acts
    cases r with
    | error e => rw [(exec_failed answered trivial).2]
    | ok s =>
      cases exec_sessions answered with
      | kept _ leaves => exact leaves.elim
      | inserted _ rows =>
        rw [rows, List.filter_append]
        simp [distinct]
  | sessionUpdateMany filter date =>
    cases r with
    | error e => rw [(exec_failed answered trivial).2]
    | ok n =>
      rw [exec_updateMany answered]
      refine filter_map_other (fun s _ => ?_) fun s stored held => ?_
      · split <;> rfl
      · have same : s.userId = id := by simpa using held
        rw [if_neg]
        intro matched
        exact elsewhere (may.2.subject empty reach owns stored matched) same
  | _ => rw [exec_sparesSessions answered trivial]

/-- The frame rule: a move leaves all accounts but that of its subject alone. -/
theorem account_frame (empty : w.sessions = []) (reach : Reachable env reqs w c) {i : Nat}
    {ch : Choice} (fired : fire (exec env) i ch c = some c') {id : Uuid}
    (other : (reqs i).handler.subject (own i c'.history) ≠ some id) :
    c'.world.accountOf id = c.world.accountOf id := by
  have may := leads_poolObeys reach (boot_obeys env reqs w) i
  have acts := leads_poolObeys reach (fun j => serve_actsFor env (reqs j)) i
  have owns := leads_poolObeys reach (fun j => serve_revokesOwn env (reqs j)) i
  obtain ⟨op, next, r, w', head, answered, rfl⟩ := fire_eq_some.mp fired
  rw [head] at may acts owns
  rw [own_cons_self] at other
  exact Prod.ext (users_frame acts.1 answered other)
    (sessions_frame empty reach may.1 acts.1 owns.1 answered other)

lemma Alters.later {c₁ c₂ : Server} {i : Nat} {id : Uuid} (changes : Alters env c c₁ i id)
    (run : Leads (exec env) c₁ c₂) : Alters env c c₂ i id := by
  obtain ⟨d, d', ch, before, fired, after, differ⟩ := changes
  exact ⟨d, d', ch, before, fired, leads_trans after run, differ⟩

lemma Alters.since {c₀ c₁ : Server} {i : Nat} {id : Uuid} (run : Leads (exec env) c₀ c₁)
    (changes : Alters env c₁ c i id) : Alters env c₀ c i id := by
  obtain ⟨d, d', ch, before, rest⟩ := changes
  exact ⟨d, d', ch, leads_trans run before, rest⟩

/-- The request that changed an account is about its user. -/
theorem Alters.subject (empty : w.sessions = []) {i : Nat} {id : Uuid}
    (changes : Alters env (boot env reqs w) c i id) :
    (reqs i).handler.subject (own i c.history) = some id := by
  obtain ⟨c₁, c₂, ch, before, fired, after, differ⟩ := changes
  obtain ⟨new, suffix⟩ := leads_own_suffix after i
  rw [← suffix]
  refine Handler.subject_append ?_ new
  by_contra other
  exact differ (account_frame empty before fired other)

/-- An account that changed was changed by some move in between. -/
theorem changes_between (run : Leads (exec env) c c') {id : Uuid}
    (differ : c'.world.accountOf id ≠ c.world.accountOf id) : ∃ i, Alters env c c' i id := by
  refine leads_induction (P := fun x => x.world.accountOf id ≠ c.world.accountOf id →
    ∃ i, Alters env c x i id) run (fun same => absurd rfl same) ?_ differ
  intro x x' i ch reached ih fired differ
  by_cases moved : x'.world.accountOf id = x.world.accountOf id
  · obtain ⟨j, changes⟩ := ih (moved ▸ differ)
    exact ⟨j, changes.later (leads_of_fire fired)⟩
  · exact ⟨i, x, x', ch, reached, fired, leads_refl x', moved⟩

lemma Passed.subject_user {req : Request} {h : List OwnCall} {au : AuthUser}
    (authenticated : req.handler.authenticated = true) (passed : Passed req h (some au)) :
    req.handler.subject h = some au.id := by
  cases handler : req.handler <;> rw [handler] at authenticated
  case register | login | refresh => cases authenticated
  all_goals
    rw [← handler]
    refine passed.subject ?_ ?_ <;> rw [handler]
    · exact fun _ _ _ => rfl
    · exact fun _ _ => rfl

end Runs

/-- Starting from no sessions, an account changes only by moves of requests about
its user, who for an authenticated handler is the user that the guard admitted,
and no request changes two accounts. -/
theorem accounts_isolated (env : Env) (reqs : Nat → Request) (w : World)
    (empty : w.sessions = []) (c : Server) :
    (∀ c₁ id, Reachable env reqs w c₁ → Leads (exec env) c₁ c →
      c.world.accountOf id ≠ c₁.world.accountOf id →
        ∃ i, Alters env c₁ c i id ∧ (reqs i).handler.subject (own i c.history) = some id) ∧
    (∀ i id id', Alters env (boot env reqs w) c i id → Alters env (boot env reqs w) c i id' →
      id = id') ∧
    ∀ i au, (reqs i).handler.authenticated = true →
      Passed (reqs i) (own i c.history) (some au) →
      (reqs i).handler.subject (own i c.history) = some au.id := by
  refine ⟨fun c₁ id reach run differ => ?_, fun i id id' changes changes' => ?_,
    fun i au authenticated passed => passed.subject_user authenticated⟩
  · obtain ⟨i, changes⟩ := changes_between run differ
    exact ⟨i, changes, (changes.since reach).subject empty⟩
  · exact Option.some.inj ((changes.subject empty).symm.trans (changes'.subject empty))

namespace Plain

/-- Request 0 logs in, request 1 logs out, and every other one reads the profile. -/
def loginThenLogout : Nat → Request
  | 0 => login "secret"
  | 1 => { handler := .logout, authorization := some (bearer 6) }
  | _ => { handler := .getProfile, authorization := some (bearer 6) }

end Plain

theorem accounts_isolated_logout :
    ∃ c, Reachable Plain.env Plain.loginThenLogout Plain.world c ∧
      ∃ i, (Plain.loginThenLogout i).handler.subject (own i c.history) = some 1 ∧
        Alters Plain.env (boot Plain.env Plain.loginThenLogout Plain.world) c i 1 := by
  have shown : ∃ c, Reachable Plain.env Plain.loginThenLogout Plain.world c ∧
      c.world.accountOf 1 ≠ Plain.world.accountOf 1 :=
    play_reaches (Plain.loggedIn ++ [(1, { now := 6 }), (1, { now := 7 }), (1, { now := 8 })])
      (by decide +kernel)
  obtain ⟨c, reach, differ⟩ := shown
  have isolated := accounts_isolated Plain.env Plain.loginThenLogout Plain.world rfl c
  obtain ⟨i, changes, subject⟩ := isolated.1 _ 1 (leads_refl _) reach differ
  exact ⟨c, reach, i, subject, changes⟩

end BajaValle
