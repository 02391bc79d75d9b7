import BajaValle.Api
import BajaValle.Authorization

/-!
# The API as its components see it

Seen from the accounts, a run of the API is a run of their server; seen from the
catalog or from the mails, it is a run of the requests that reach them. So what holds
of every run of a component holds in the API, and the answers are those it gave.
-/

namespace BajaValle

open CallPrograms Prog Interleaving Component

section Sides
variable {Cell : Type} {xl : Exceljs} (env : Env) (storage : ThrottlerStorage Cell)

def accountCall : Call (ApiOp xl) ApiOp.Res → Option OwnCall
  | ⟨.account op, r⟩ => some ⟨op, r⟩
  | _ => none

def catalogCall : Call (ApiOp xl) ApiOp.Res → Option (Call ShopOp ShopOp.Res)
  | ⟨.catalog op, r⟩ => some ⟨op, r⟩
  | _ => none

def mailCall : Call (ApiOp xl) ApiOp.Res → Option (Call (MailOp xl) MailOp.Res)
  | ⟨.mail op, r⟩ => some ⟨op, r⟩
  | _ => none

/-- A call of the API is a call of one component and leaves the others alone. -/
inductive Moves (ch : ApiChoice) (w : ApiWorld Cell xl) :
    Call (ApiOp xl) ApiOp.Res → ApiWorld Cell xl → Prop where
  | account {op r v} (answered : exec env ch.toChoice op w.accounts = some (r, v)) :
      Moves ch w ⟨.account op, r⟩ { w with accounts := v }
  | counter {x r v} (answered : Counters.exec storage ch.now x w.counters = some (r, v)) :
      Moves ch w ⟨.counter x, r⟩ { w with counters := v }
  | catalog {op r v} (answered : Shop.exec ch.catalog op w.catalog = some (r, v)) :
      Moves ch w ⟨.catalog op, r⟩ { w with catalog := v }
  | mail {op r v} (answered : MailRoom.exec ⟨ch.now, ch.rejects⟩ op w.mails = some (r, v)) :
      Moves ch w ⟨.mail op, r⟩ { w with mails := v }
  | console {op r v} (answered : Console.exec ch.now op w.console = some (r, v)) :
      Moves ch w ⟨.console op, r⟩ { w with console := v }

variable {env storage} {ch : ApiChoice} {op : ApiOp xl} {r : op.Res} {w w' : ApiWorld Cell xl}

theorem apiExec_moves (answered : apiExec xl env storage ch op w = some (r, w')) :
    Moves env storage ch w ⟨op, r⟩ w' := by
  cases op with
  | account op =>
    obtain ⟨⟨r, v⟩, inside, rfl, rfl⟩ := by
      simpa only [apiExec, Option.map_eq_some_iff, Prod.mk.injEq] using answered
    exact .account inside
  | counter x =>
    obtain ⟨⟨r, v⟩, inside, rfl, rfl⟩ := by
      simpa only [apiExec, Option.map_eq_some_iff, Prod.mk.injEq] using answered
    exact .counter inside
  | catalog op =>
    obtain ⟨⟨r, v⟩, inside, rfl, rfl⟩ := by
      simpa only [apiExec, Option.map_eq_some_iff, Prod.mk.injEq] using answered
    exact .catalog inside
  | mail op =>
    obtain ⟨⟨r, v⟩, inside, rfl, rfl⟩ := by
      simpa only [apiExec, Option.map_eq_some_iff, Prod.mk.injEq] using answered
    exact .mail inside
  | console op =>
    obtain ⟨⟨r, v⟩, inside, rfl, rfl⟩ := by
      simpa only [apiExec, Option.map_eq_some_iff, Prod.mk.injEq] using answered
    exact .console inside

variable (env storage)

def accountSide : Component (apiExec xl env storage) (exec env) where
  world := ApiWorld.accounts
  choice := ApiChoice.toChoice
  call := accountCall
  hidden answered unseen := by
    cases apiExec_moves answered with
    | account => cases unseen
    | _ => rfl
  visible answered seen := by
    cases apiExec_moves answered with
    | account inside =>
      cases seen
      exact inside
    | _ => cases seen

def catalogSide : Component (apiExec xl env storage) Shop.exec where
  world := ApiWorld.catalog
  choice := ApiChoice.catalog
  call := catalogCall
  hidden answered unseen := by
    cases apiExec_moves answered with
    | catalog => cases unseen
    | _ => rfl
  visible answered seen := by
    cases apiExec_moves answered with
    | catalog inside =>
      cases seen
      exact inside
    | _ => cases seen

def mailSide : Component (apiExec xl env storage) (@MailRoom.exec xl) where
  world := ApiWorld.mails
  choice ch := ⟨ch.now, ch.rejects⟩
  call := mailCall
  hidden answered unseen := by
    cases apiExec_moves answered with
    | mail => cases unseen
    | _ => rfl
  visible answered seen := by
    cases apiExec_moves answered with
    | mail inside =>
      cases seen
      exact inside
    | _ => cases seen

end Sides

/-! ## The programs there -/

namespace ApiRequest
variable (req : ApiRequest)

/-- What the request asks of the catalog, if its id can be parsed. -/
def shop : Option ShopRequest :=
  match req.handler with
  | .catalog handler => handler.parse.toOption
  | _ => none

def mailed : Option MailRequest :=
  match req.handler with
  | .mail request => some request
  | _ => none

/-- A request that asks the catalog for nothing is one that never starts there. -/
def shopRequest : ShopRequest := req.shop.getD .findCategories

def mailRequest : MailRequest := req.mailed.getD (.contact ⟨"", "", "", ""⟩)

/-- An answer of the API, and what the server of the accounts has answered. -/
def AccountEnds (out : Except ApiFailure ApiAnswer) (there : Option (Except Failure Answer)) :
    Prop :=
  match req.handler with
  | .account _ => (∃ t, out = .error (.throttled t)) ∨
    ∃ x : Except Failure Answer, there = some x ∧ out = (x.mapError .account).map .account
  | _ => (∃ e, out = .error (.account e) ∧ there = some (.error e)) ∨
    ((∀ e, out ≠ .error (.account e)) ∧ there = some (.ok .other))

end ApiRequest

/-- An answer of the API, and what a component has answered where it was asked: it gave
that answer, unless the request was rejected before it came to it. -/
def AnswersAs {ε α : Type} (asked : Prop) (err : ε → ApiFailure) (answer : α → ApiAnswer)
    (out : Except ApiFailure ApiAnswer) (there : Option (Except ε α)) : Prop :=
  (there = none ∧ (asked → ∃ e, out = .error e ∧ ∀ e', e ≠ err e')) ∨
    ∃ x, there = some x ∧ asked ∧ out = (x.mapError err).map answer

/-- The component that a handler calls. -/
def ApiHandler.Calls {xl : Exceljs} : ApiHandler → ApiOp xl → Prop
  | .account _, .account _ => True
  | .catalog _, .catalog _ => True
  | .mail _, .mail _ => True
  | _, _ => False

/-- How a handler may fail. -/
def ApiHandler.Raises : ApiHandler → ApiFailure → Prop
  | .account _, .account _ => True
  | .catalog _, .catalog _ => True
  | .catalog _, .badRequest _ => True
  | .mail _, .mail _ => True
  | .refused _ _, .badRequest _ => True
  | _, _ => False

section Programs
variable {api : Api} {req : ApiRequest} {user : Option AuthUser}

lemma handle_uses : (req.handle api user).Uses req.handler.Calls := by
  unfold ApiRequest.handle
  split
  · exact uses_ret _
  · rename_i same
    exact uses_map _ (uses_embed _ _ (uses_true _) fun _ _ => by rw [same]; trivial)
  · rename_i same
    split
    · exact uses_throw _
    · exact uses_map _ (uses_embed _ _ (uses_true _) fun _ _ => by rw [same]; trivial)
  · rename_i same
    exact uses_map _ (uses_embed _ _ (uses_true _) fun _ _ => by rw [same]; trivial)
  · exact uses_throw _

lemma embed_raises {Op : Type} {Res : Op → Type} {ε α : Type} {xl : Exceljs}
    {handler : ApiHandler} {m : Embedding Op Res (ApiOp xl) ApiOp.Res} {err : ε → ApiFailure}
    {answer : α → ApiAnswer} {p : Prog Op Res ε α} {h : List (Call (ApiOp xl) ApiOp.Res)}
    (raises : ∀ e, handler.Raises (err e)) : (answer <$> p.embed m err).Concludes
      (fun _ out => ∀ e, out = .error e → handler.Raises e) h := by
  refine (concludes_map_embed m err answer).mono fun _ out => ?_
  rintro ⟨a, rfl⟩ e same
  cases a with
  | ok a => cases same
  | error e' =>
    cases same
    exact raises e'

lemma handle_raises {h : List (Call (ApiOp api.mail.xl) ApiOp.Res)} :
    (req.handle api user).Concludes (fun _ out => ∀ e, out = .error e → req.handler.Raises e)
      h := by
  unfold ApiRequest.handle
  split
  · rintro e ⟨⟩
  · rename_i same
    rw [same]
    exact embed_raises fun _ => trivial
  · rename_i same
    rw [same]
    split
    · rintro e ⟨⟩
      trivial
    · exact embed_raises fun _ => trivial
  · rename_i same
    rw [same]
    exact embed_raises fun _ => trivial
  · rename_i same
    rw [same]
    rintro e ⟨⟩
    trivial

/-! A component that sees neither the gates nor the log sees what the handler does. -/

section Hidden
variable {W Ch Op : Type} {Res : Op → Type} {ε α Cell : Type}
  {storage : ThrottlerStorage Cell} {exec : Ch → (op : Op) → W → Option (Res op × W)}
  {m : Component (apiExec api.mail.xl api.env storage) exec}
  {ends : Except ApiFailure ApiAnswer → Option (Except ε α) → Prop} {q : Prog Op Res ε α}

lemma follows_report (console : ∀ op, m.Hides (.console op)) {begins : Nat}
    {out : Except ApiFailure ApiAnswer} (ended : ends out q.outcome) :
    m.Follows ends (LoggingInterceptor.report api req begins out) q := by
  cases out with
  | ok answer =>
    exact follows_hidden_call (console _) fun _ => follows_hidden_call (console _) fun _ => ended
  | error err =>
    exact follows_hidden_call (console _) fun _ => follows_hidden_call (console _) fun _ => ended

lemma follows_intercept (console : ∀ op, m.Hides (.console op)) {next : ApiTask api ApiAnswer}
    (rest : ∀ begins, m.Follows ends
      (next.attempt >>= LoggingInterceptor.report api req begins) q) :
    m.Follows ends (LoggingInterceptor.intercept api req next) q :=
  follows_hidden_call (console _) fun begins => follows_hidden_call (console _) fun _ => rest begins

/-- A handler that makes hidden calls only. -/
lemma follows_elsewhere (console : ∀ op, m.Hides (.console op))
    (hides : ∀ op, req.handler.Calls op → m.Hides op)
    (ended : ∀ out, (∀ e, out = .error e → req.handler.Raises e) → ends out q.outcome) :
    m.Follows ends (LoggingInterceptor.intercept api req (req.handle api user)) q := by
  refine follows_intercept console fun begins => ?_
  refine follows_hidden_bind (h := []) (uses_attempt (handle_uses.mono hides))
    (concludes_attempt handle_raises) ?_ ?_
  · rintro e ⟨_, ⟨⟩, _⟩
  · rintro out ⟨_, same, raises⟩
    cases same
    exact follows_report console (ended out raises)

lemma follows_throttler (counter : ∀ x, m.Hides (.counter x))
    (throttled : ∀ t, ends (.error (.throttled t)) q.outcome)
    (rest : m.Follows ends (LoggingInterceptor.intercept api req (req.handle api user)) q) :
    m.Follows ends ((AppThrottlerGuard.canActivate api.guard api.limits
      (user.map fun user => uuidText user.id) req.ip req.handler.route).embed (counterCalls _)
        ApiFailure.throttled >>= fun _ => LoggingInterceptor.intercept api req
          (req.handle api user)) q := by
  refine follows_hidden_bind (h := []) (uses_embed _ _ (uses_true _) fun x _ => counter x)
    (concludes_embed_ends _ _) ?_ fun _ _ => rest
  rintro e ⟨a, same⟩
  cases a with
  | ok a => cases same
  | error t =>
    cases same
    exact throttled t

/-- Nothing but the handler is seen. -/
lemma follows_gates (account : ∀ op, m.Hides (.account op)) (counter : ∀ x, m.Hides (.counter x))
    (rejected : ∀ e, (∃ f, e = .account f) ∨ (∃ t, e = .throttled t) → ends (.error e) q.outcome)
    (rest : ∀ user, m.Follows ends
      (LoggingInterceptor.intercept api req (req.handle api user)) q) :
    m.Follows ends (req.serve api) q := by
  refine follows_hidden_bind (h := []) (uses_embed _ _ (uses_true _) fun op _ => account op)
    (concludes_embed_ends _ _)
    ?_ fun user _ => ?_
  · rintro e ⟨a, same⟩
    cases a with
    | ok a => cases same
    | error f =>
      cases same
      exact rejected _ (.inl ⟨f, rfl⟩)
  · exact follows_throttler counter (fun t => rejected _ (.inr ⟨t, rfl⟩)) (rest user)

lemma AnswersAs.rejected {ε α : Type} {asked : Prop} {err : ε → ApiFailure} {answer : α → ApiAnswer}
    {e : ApiFailure} (other : ∀ e', e ≠ err e') :
    AnswersAs asked err answer (.error e) (none : Option (Except ε α)) :=
  .inl ⟨rfl, fun _ => ⟨e, rfl, other⟩⟩

lemma AnswersAs.unasked {ε α : Type} {asked : Prop} {err : ε → ApiFailure} {answer : α → ApiAnswer}
    (unasked : ¬ asked) (out : Except ApiFailure ApiAnswer) :
    AnswersAs asked err answer out (none : Option (Except ε α)) :=
  .inl ⟨rfl, fun asked => absurd asked unasked⟩

variable {asked : Prop} {err : ε → ApiFailure} {answer : α → ApiAnswer}

/-- A component that is asked, if at all, behind the gates. -/
lemma follows_asked (account : ∀ op, m.Hides (.account op)) (counter : ∀ x, m.Hides (.counter x))
    (waits : q.outcome = none) (apart : ∀ e,
      (∀ f, ApiFailure.account f ≠ err e) ∧ ∀ t, ApiFailure.throttled t ≠ err e)
    (rest : ∀ user, m.Follows (AnswersAs asked err answer)
      (LoggingInterceptor.intercept api req (req.handle api user)) q) :
    m.Follows (AnswersAs asked err answer) (req.serve api) q := by
  refine follows_gates account counter ?_ rest
  rintro e (⟨f, rfl⟩ | ⟨t, rfl⟩) <;> rw [waits]
  · exact AnswersAs.rejected fun e' => (apart e').1 f
  · exact AnswersAs.rejected fun e' => (apart e').2 t

lemma follows_unasked (console : ∀ op, m.Hides (.console op))
    (hides : ∀ op, req.handler.Calls op → m.Hides op) (waits : q.outcome = none)
    (unasked : ¬ asked) : m.Follows (AnswersAs asked err answer)
      (LoggingInterceptor.intercept api req (req.handle api user)) q := by
  refine follows_elsewhere console hides fun out _ => ?_
  rw [waits]
  exact AnswersAs.unasked unasked out

end Hidden

section Follows
variable {Cell : Type} (storage : ThrottlerStorage Cell)

lemma seen_route (req : ApiRequest) : req.seen.handler.route = req.handler.route := by
  unfold ApiRequest.seen
  cases req.handler with
  | account handler => rfl
  | _ => rfl

lemma serve_seen (api : Api) (req : ApiRequest) : BajaValle.serve api.env req.seen =
    guards req.handler.route req.authorization >>= BajaValle.handle api.env req.seen := by
  unfold BajaValle.serve
  rw [seen_route]
  rfl

lemma AccountEnds.elsewhere (elsewhere : ∀ handler, req.handler ≠ .account handler)
    {out : Except ApiFailure ApiAnswer} {there : Option (Except Failure Answer)}
    (ends : (∃ e, out = .error (.account e) ∧ there = some (.error e)) ∨
      ((∀ e, out ≠ .error (.account e)) ∧ there = some (.ok .other))) :
    req.AccountEnds out there := by
  unfold ApiRequest.AccountEnds
  cases same : req.handler with
  | account handler => exact absurd same (elsewhere handler)
  | _ => exact ends

lemma handle_other (elsewhere : ∀ handler, req.handler ≠ .account handler) :
    BajaValle.handle api.env req.seen user = .ret .other := by
  unfold BajaValle.handle ApiRequest.seen
  cases same : req.handler with
  | account handler => exact absurd same (elsewhere handler)
  | _ => rfl

theorem serve_followsAccounts (api : Api) (req : ApiRequest) :
    (accountSide api.env storage).Follows req.AccountEnds (req.serve api)
      (BajaValle.serve api.env req.seen) := by
  rw [serve_seen]
  by_cases account : ∃ handler, req.handler = .account handler
  · obtain ⟨handler, same⟩ := account
    have answers : ∀ (x : Except Failure Answer),
        req.AccountEnds ((x.mapError .account).map .account) (some x) := by
      intro x
      rw [ApiRequest.AccountEnds, same]
      exact .inr ⟨x, rfl, rfl⟩
    refine follows_embed_bind (fun _ _ => rfl) (fun e => answers (.error e)) fun user => ?_
    refine follows_throttler (fun _ _ => rfl) (fun t => ?_)
      (follows_intercept (fun _ _ => rfl) fun begins => ?_)
    · rw [ApiRequest.AccountEnds, same]
      exact .inl ⟨t, rfl⟩
    · unfold ApiRequest.handle
      rw [same]
      refine follows_attempt_bind (fun _ _ => rfl) fun out => follows_report (fun _ _ => rfl) ?_
      cases out with
      | ok a => exact answers (.ok a)
      | error e => exact answers (.error e)
  · have elsewhere : ∀ handler, req.handler ≠ .account handler :=
      fun handler same => account ⟨handler, same⟩
    refine follows_embed_bind (fun _ _ => rfl) (fun e => ?_) fun user => ?_
    · exact AccountEnds.elsewhere elsewhere (.inl ⟨e, rfl, rfl⟩)
    · rw [handle_other elsewhere]
      refine follows_throttler (fun _ _ => rfl) (fun t => ?_)
        (follows_elsewhere (fun _ _ => rfl) ?_ ?_)
      · exact AccountEnds.elsewhere elsewhere (.inr ⟨by simp, rfl⟩)
      · intro op calls r
        cases op with
        | account op =>
          cases same : req.handler with
          | account handler => exact absurd same (elsewhere handler)
          | _ => simp [same, ApiHandler.Calls] at calls
        | _ => rfl
      · intro out raises
        refine AccountEnds.elsewhere elsewhere (.inr ⟨?_, rfl⟩)
        rintro e rfl
        have raised := raises _ rfl
        cases same : req.handler with
        | account handler => exact elsewhere handler same
        | _ => simp [same, ApiHandler.Raises] at raised

lemma shopRequest_waits (req : ShopRequest) : req.run.outcome = none := by
  cases req with
  | _ => rfl

theorem serve_followsCatalog (api : Api) (req : ApiRequest) :
    (catalogSide api.env storage).Follows
      (AnswersAs (req.shop ≠ none) .catalog .catalog) (req.serve api) req.shopRequest.run := by
  refine follows_asked (fun _ _ => rfl) (fun _ _ => rfl) (shopRequest_waits _)
    (fun e => ⟨nofun, nofun⟩) fun user => ?_
  by_cases asks : ∃ handler, req.handler = .catalog handler
  · obtain ⟨handler, same⟩ := asks
    refine follows_intercept (fun _ _ => rfl) fun begins => ?_
    cases parsed : handler.parse with
    | error e =>
      have handled : req.handle api user = .throw (.badRequest e) := by
        simp only [ApiRequest.handle, same, parsed]
      have unasked : ¬ req.shop ≠ none := by
        simp [ApiRequest.shop, same, parsed, Except.toOption]
      have nothing : AnswersAs (req.shop ≠ none) ApiFailure.catalog ApiAnswer.catalog
          (.error (.badRequest e)) req.shopRequest.run.outcome := by
        rw [shopRequest_waits]
        exact AnswersAs.unasked unasked _
      rw [handled]
      exact follows_report (fun _ _ => rfl) nothing
    | ok request =>
      have handled : req.handle api user =
          .catalog <$> request.run.embed (catalogCalls _) .catalog := by
        simp only [ApiRequest.handle, same, parsed]
      have asked : req.shop = some request := by
        simp [ApiRequest.shop, same, parsed, Except.toOption]
      rw [handled, ApiRequest.shopRequest, asked]
      refine follows_attempt_bind (fun _ _ => rfl) fun out => follows_report (fun _ _ => rfl) ?_
      cases out with
      | ok a => exact .inr ⟨.ok a, rfl, by simp, rfl⟩
      | error e => exact .inr ⟨.error e, rfl, by simp, rfl⟩
  · have unasked : req.shop = none := by
      unfold ApiRequest.shop
      cases same : req.handler with
      | catalog handler => exact absurd ⟨handler, same⟩ asks
      | _ => rfl
    refine follows_unasked (fun _ _ => rfl) ?_ (shopRequest_waits _) (by simp [unasked])
    intro op calls r
    cases op with
    | catalog op =>
      cases same : req.handler with
      | catalog handler => exact absurd ⟨handler, same⟩ asks
      | _ => simp [same, ApiHandler.Calls] at calls
    | _ => rfl

lemma mailRequest_waits (mail : MailEnv) (request : MailRequest) :
    (request.run mail).outcome = none := by
  cases request with
  | _ => rfl

theorem serve_followsMails (api : Api) (req : ApiRequest) :
    (mailSide api.env storage).Follows (AnswersAs (req.mailed ≠ none) .mail fun _ => .noContent)
      (req.serve api) (req.mailRequest.run api.mail) := by
  refine follows_asked (fun _ _ => rfl) (fun _ _ => rfl) (mailRequest_waits _ _)
    (fun e => ⟨nofun, nofun⟩) fun user => ?_
  by_cases asks : ∃ request, req.handler = .mail request
  · obtain ⟨request, same⟩ := asks
    refine follows_intercept (fun _ _ => rfl) fun begins => ?_
    have mailed : req.mailed = some request := by simp [ApiRequest.mailed, same]
    unfold ApiRequest.handle ApiRequest.mailRequest
    rw [same, mailed]
    refine follows_attempt_bind (fun _ _ => rfl) fun out => follows_report (fun _ _ => rfl) ?_
    cases out with
    | ok a => exact .inr ⟨.ok a, rfl, by simp, rfl⟩
    | error e => exact .inr ⟨.error e, rfl, by simp, rfl⟩
  · have unasked : req.mailed = none := by
      unfold ApiRequest.mailed
      cases same : req.handler with
      | mail request => exact absurd ⟨request, same⟩ asks
      | _ => rfl
    refine follows_unasked (fun _ _ => rfl) ?_ (mailRequest_waits _ _) (by simp [unasked])
    intro op calls r
    cases op with
    | mail op =>
      cases same : req.handler with
      | mail request => exact absurd ⟨request, same⟩ asks
      | _ => simp [same, ApiHandler.Calls] at calls
    | _ => rfl

end Follows

end Programs

/-! ## Runs -/

section Runs
variable {Cell : Type} {api : Api} {storage : ThrottlerStorage Cell} {reqs : Nat → ApiRequest}
  {w : ApiWorld Cell api.mail.xl} {c : ApiConfig api Cell}

lemma projects_accounts (run : ApiReachable api storage reqs w c) :
    ∃ s : Server, Reachable api.env (fun i => (reqs i).seen) w.accounts s ∧
      (accountSide api.env storage).Projects (fun i => (reqs i).AccountEnds) c s := by
  obtain ⟨s, projects, reach⟩ := leads_projects (projects_start (w := w)
    fun i => serve_followsAccounts storage api (reqs i)) run
  exact ⟨s, reach, projects⟩

lemma projects_catalog (run : ApiReachable api storage reqs w c) :
    ∃ s : ShopConfig, ShopReachable (fun i => (reqs i).shopRequest) w.catalog s ∧
      (catalogSide api.env storage).Projects
        (fun i => AnswersAs ((reqs i).shop ≠ none) .catalog .catalog) c s := by
  obtain ⟨s, projects, reach⟩ := leads_projects (projects_start (w := w)
    fun i => serve_followsCatalog storage api (reqs i)) run
  exact ⟨s, reach, projects⟩

lemma projects_mails (run : ApiReachable api storage reqs w c) :
    ∃ s : MailServer api.mail,
      MailReachable api.mail (fun i => (reqs i).mailRequest) w.mails s ∧
      (mailSide api.env storage).Projects
        (fun i => AnswersAs ((reqs i).mailed ≠ none) .mail fun _ => .noContent) c s := by
  obtain ⟨s, projects, reach⟩ := leads_projects (projects_start (w := w)
    fun i => serve_followsMails storage api (reqs i)) run
  exact ⟨s, reach, projects⟩

end Runs

/-- Every run of the API is a run of the server of the accounts, one of the catalog and
one of the mails: each has the world and the calls that the API has there, and has
answered what the API answers. -/
theorem api_refines_components {Cell : Type} (api : Api) (storage : ThrottlerStorage Cell)
    (reqs : Nat → ApiRequest) (w : ApiWorld Cell api.mail.xl) (c : ApiConfig api Cell)
    (run : ApiReachable api storage reqs w c) :
    (∃ s : Server, Reachable api.env (fun i => (reqs i).seen) w.accounts s ∧
      s.world = c.world.accounts ∧
      (∀ i, own i s.history = (own i c.history).filterMap accountCall) ∧
      ∀ i out, (c.pool i).outcome = some out → (reqs i).AccountEnds out (s.pool i).outcome) ∧
    (∃ s : ShopConfig, ShopReachable (fun i => (reqs i).shopRequest) w.catalog s ∧
      s.world = c.world.catalog ∧
      (∀ i, own i s.history = (own i c.history).filterMap catalogCall) ∧
      ∀ i out, (c.pool i).outcome = some out →
        AnswersAs ((reqs i).shop ≠ none) .catalog .catalog out (s.pool i).outcome) ∧
    ∃ s : MailServer api.mail,
      MailReachable api.mail (fun i => (reqs i).mailRequest) w.mails s ∧
      s.world = c.world.mails ∧
      (∀ i, own i s.history = (own i c.history).filterMap mailCall) ∧
      ∀ i out, (c.pool i).outcome = some out →
        AnswersAs ((reqs i).mailed ≠ none) .mail (fun _ => .noContent) out
          (s.pool i).outcome := by
  obtain ⟨s₁, reach₁, seen₁⟩ := projects_accounts run
  obtain ⟨s₂, reach₂, seen₂⟩ := projects_catalog run
  obtain ⟨s₃, reach₃, seen₃⟩ := projects_mails run
  exact ⟨⟨s₁, reach₁, seen₁.world, seen₁.calls, fun i _ => follows_outcome (seen₁.follows i)⟩,
    ⟨s₂, reach₂, seen₂.world, seen₂.calls, fun i _ => follows_outcome (seen₂.follows i)⟩,
    s₃, reach₃, seen₃.world, seen₃.calls, fun i _ => follows_outcome (seen₃.follows i)⟩

namespace Plain

def api : Api where
  env := env
  mail := mailEnv
  limits := limits
  guard := throttlerGuard
  message _ := "Error"

/-- An administrator in a live session, and a shop without categories. -/
def apiWorld : ApiWorld (List Nat) mailEnv.xl where
  accounts := adminWorld
  counters := ⟨0, fun _ => none⟩
  catalog := emptyShop
  mails := mailRoom
  console := ⟨0, []⟩

def morning : Nat → ApiRequest
  | 0 => { handler := .catalog (.createCategory { name := "Vinos" }), method := "POST",
           url := "/categories", ip := "203.0.113.10", authorization := some (bearer 6) }
  | 1 => { handler := .catalog (.removeCategory "1"), method := "DELETE",
           url := "/categories/1", ip := "203.0.113.20" }
  | _ => { handler := .mail (askForWines 1), method := "POST",
           url := "/mail/contact", ip := "203.0.113.30" }

/-- The calls of the administrator's request, and then those of a visitor's mail. -/
def morningCalls : List (Nat × ApiChoice) :=
  (List.range 8).map (fun n : ℕ => (0, { now := n + 1 })) ++
    (List.range 8).map fun n : ℕ => (2, { now := 1700000000000 + n })

end Plain

theorem api_refines_components_morning :
    ∃ c s, ApiReachable Plain.api Plain.slidingWindow Plain.morning Plain.apiWorld c ∧
      (c.pool 2).outcome = some (.ok .noContent) ∧
      ShopReachable (fun i => (Plain.morning i).shopRequest) Plain.emptyShop s ∧
      s.world = c.world.catalog ∧
      (s.pool 0).outcome = some (.ok (.categoryRow { id := 1, name := "Vinos" })) := by
  have shown : (play (apiExec _ Plain.env Plain.slidingWindow) Plain.morningCalls
      (openApi Plain.api Plain.morning Plain.apiWorld)).any (fun c => decide
        ((c.pool 0).outcome = some (.ok (.catalog (.categoryRow { id := 1, name := "Vinos" }))) ∧
          (c.pool 2).outcome = some (.ok .noContent))) = true := by
    decide +kernel
  obtain ⟨c, run, ended⟩ := leads_of_play _ shown
  obtain ⟨created, sent⟩ := of_decide_eq_true ended
  obtain ⟨-, ⟨s, reach, same, -, answers⟩, -⟩ :=
    api_refines_components Plain.api Plain.slidingWindow Plain.morning Plain.apiWorld c run
  refine ⟨c, s, run, sent, reach, same, ?_⟩
  rcases answers 0 _ created with ⟨-, rejected⟩ | ⟨x, there, -, made⟩
  · obtain ⟨e, failed, -⟩ := rejected (by simp [Plain.morning, ApiRequest.shop,
      CatalogHandler.parse, Except.toOption])
    cases failed
  · rw [there]
    cases x with
    | error e => cases made
    | ok answer =>
      obtain rfl := ApiAnswer.catalog.inj (Except.ok.inj made)
      rfl

end BajaValle
