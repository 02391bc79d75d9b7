import BajaValle.ApiAccess
import BajaValle.ApiLog
import BajaValle.RateBounds

/-!
# What the rate limits of the API bound

All controllers share the counters. A request gets past the gates only after every
throttler of its route has counted it, and of those that one throttler counts for one
tracker within its time no more than its limit get past them. So the transport accepts
no more mails than the limits of the forms allow.
-/

namespace BajaValle

open CallPrograms Prog Interleaving

namespace ApiRequest
variable (api : Api) (req : ApiRequest) (user : Option AuthUser)

/-- Whom the request is counted for. -/
def tracker : String :=
  AppThrottlerGuard.getTracker (user.map fun user => uuidText user.id) req.ip

def increments : List Increment :=
  AppThrottlerGuard.increments api.limits (req.tracker user) req.handler.route

end ApiRequest

/-- The guards have let the request pass, and so has every counter of its route. -/
def LetPast (api : Api) (req : ApiRequest) (h : List (Call (ApiOp api.mail.xl) ApiOp.Res)) :
    Prop :=
  ∃ user, Passed req.seen (h.filterMap accountCall) user ∧ ∀ x ∈ req.increments api user,
    ∃ r : StorageRecord, (⟨.counter x, r⟩ : Call (ApiOp api.mail.xl) ApiOp.Res) ∈ h ∧
      r.isBlocked = false

/-- A request increments each counter of its route once, and goes on when all let it. -/
def LimitsMay (api : Api) (req : ApiRequest) (h : List (Call (ApiOp api.mail.xl) ApiOp.Res)) :
    ApiOp api.mail.xl → Prop
  | .account op => GuardOp op ∨ LetPast api req h
  | .counter x => (∃ user, Passed req.seen (h.filterMap accountCall) user ∧
      x ∈ req.increments api user) ∧
    ∀ r : StorageRecord, (⟨.counter x, r⟩ : Call (ApiOp api.mail.xl) ApiOp.Res) ∉ h
  | .mail _ => LetPast api req h ∧ ∃ request, req.handler = .mail request
  | _ => LetPast api req h

/-- The calls of the log and of the handler. -/
def Onward {xl : Exceljs} (req : ApiRequest) : ApiOp xl → Prop
  | .console _ => True
  | op => req.handler.Calls op

section Programs
variable {api : Api} {req : ApiRequest} {user : Option AuthUser}
  {h : List (Call (ApiOp api.mail.xl) ApiOp.Res)}

lemma LetPast.append (past : LetPast api req h)
    (new : List (Call (ApiOp api.mail.xl) ApiOp.Res)) : LetPast api req (new ++ h) := by
  obtain ⟨user, passed, free⟩ := past
  refine ⟨user, ?_, fun x hx => ?_⟩
  · rw [List.filterMap_append]
    exact passed.append _
  · obtain ⟨r, mem, unblocked⟩ := free x hx
    exact ⟨r, List.mem_append_right new mem, unblocked⟩

lemma counters_unseen (new : List (Call Increment CheckRes))
    (h : List (Call (ApiOp api.mail.xl) ApiOp.Res)) :
    (new.map (counterCalls api.mail.xl).call ++ h).filterMap accountCall =
      h.filterMap accountCall := by
  induction new with
  | nil => rfl
  | cons k new ih => exact ih

lemma counter_mem {new : List (Call Increment CheckRes)} {x : Increment} {r : StorageRecord}
    (fresh : (⟨.counter x, r⟩ : Call (ApiOp api.mail.xl) ApiOp.Res) ∉ h)
    (mem : (⟨.counter x, r⟩ : Call (ApiOp api.mail.xl) ApiOp.Res) ∈
      new.map (counterCalls api.mail.xl).call ++ h) : (⟨x, r⟩ : Call Increment CheckRes) ∈ new := by
  obtain ⟨⟨x', r'⟩, old, same⟩ := List.mem_map.mp ((List.mem_append.mp mem).resolve_right fresh)
  cases same
  exact old

lemma throttler_limits (passed : Passed req.seen (h.filterMap accountCall) user)
    (uncounted : ∀ k ∈ h, ∃ op, k.op = .account op) :
    ((AppThrottlerGuard.canActivate api.guard api.limits (user.map fun user => uuidText user.id)
      req.ip req.handler.route).embed (counterCalls api.mail.xl) ApiFailure.throttled).Obeys
        (LimitsMay api req) (fun h' _ => LetPast api req h') h := by
  have fresh : ∀ x (r : StorageRecord),
      (⟨.counter x, r⟩ : Call (ApiOp api.mail.xl) ApiOp.Res) ∉ h := by
    intro x r mem
    obtain ⟨op, same⟩ := uncounted _ mem
    cases same
  have only := api.guard.only _ (AppThrottlerGuard.increments_nodup api.limits (req.tracker user)
    req.handler.route)
  have checked := obeys_mapError (f := AppThrottlerGuard.throwThrottlingException)
    (obeys_concludes only (api.guard.passes _))
  refine (obeys_embed (counterCalls api.mail.xl) ApiFailure.throttled h (h := []) checked
    ?_).mono (fun _ _ may => may) ?_
  · rintro new x ⟨mem, once⟩
    refine ⟨⟨user, ?_, mem⟩, fun r old => once r (counter_mem (fresh x r) old)⟩
    rw [counters_unseen]
    exact passed
  · rintro _ _ ⟨new, rfl, _, free⟩
    refine ⟨user, ?_, fun x hx => ?_⟩
    · rw [counters_unseen]
      exact passed
    · obtain ⟨r, mem, unblocked⟩ := free rfl x hx
      exact ⟨r, List.mem_append_left _ (List.mem_map_of_mem mem), unblocked⟩

lemma intercept_uses : (LoggingInterceptor.intercept api req (req.handle api user)).Uses
    (Onward req) := by
  have handled : (req.handle api user).Uses (Onward req) := by
    refine handle_uses.mono fun op calls => ?_
    cases op with
    | console op => trivial
    | _ => exact calls
  rw [intercept_eq]
  refine uses_call trivial fun begins => uses_call trivial fun _ =>
    uses_bind (uses_attempt handled) fun out => ?_
  cases out with
  | ok answer => exact uses_call trivial fun _ => uses_call trivial fun _ => uses_ret _
  | error err => exact uses_call trivial fun _ => uses_call trivial fun _ => uses_throw _

/-- Nothing is done for a request that the counters have not let past. -/
theorem serve_limitsMay :
    (req.serve api).Obeys (LimitsMay api req) (fun _ _ => True) [] := by
  refine obeys_bind (guards_passed fun _ _ guard => .inl guard) ?_
  rintro h user ⟨passed, uncounted⟩
  refine obeys_bind (throttler_limits passed uncounted) fun h _ past => ?_
  refine (uses_obeys intercept_uses fun h' op ext calls => ?_).mono (fun _ _ may => may)
    fun _ _ _ => trivial
  obtain ⟨new, rfl, _⟩ := ext
  have still := past.append new
  cases op with
  | account op => exact .inr still
  | catalog op => exact still
  | console op => exact still
  | counter x =>
    have calls : req.handler.Calls (.counter x : ApiOp api.mail.xl) := calls
    cases handles : req.handler with
    | _ =>
      rw [handles] at calls
      exact calls.elim
  | mail op =>
    have calls : req.handler.Calls (.mail op : ApiOp api.mail.xl) := calls
    cases handles : req.handler with
    | mail request => exact ⟨still, request, handles⟩
    | _ =>
      rw [handles] at calls
      exact calls.elim

lemma counted_of_allowed (allowed : EachAllowed (LimitsMay api req) h) {x : Increment}
    {r : StorageRecord} (mem : (⟨.counter x, r⟩ : Call (ApiOp api.mail.xl) ApiOp.Res) ∈ h) :
    ∃ user, Passed req.seen (h.filterMap accountCall) user ∧ x ∈ req.increments api user := by
  obtain ⟨after, before, rfl, ⟨user, passed, counts⟩, _⟩ := allowed.of_mem mem
  refine ⟨user, ?_, counts⟩
  rw [List.filterMap_append]
  exact passed.append _

lemma once_of_allowed (allowed : EachAllowed (LimitsMay api req) h) {x : Increment}
    {r r' : StorageRecord} (mem : (⟨.counter x, r⟩ : Call (ApiOp api.mail.xl) ApiOp.Res) ∈ h)
    (mem' : (⟨.counter x, r'⟩ : Call (ApiOp api.mail.xl) ApiOp.Res) ∈ h) : r = r' := by
  induction h with
  | nil => cases mem
  | cons k h ih =>
    rcases List.mem_cons.mp mem with rfl | old <;> rcases List.mem_cons.mp mem' with same | old'
    · cases same
      rfl
    · exact absurd old' (allowed.1.2 r')
    · subst same
      exact absurd old (allowed.1.2 r)
    · exact ih allowed.2 old old'

/-- What comes after the gates comes after the counters. -/
lemma letPast_of_allowed (allowed : EachAllowed (LimitsMay api req) h)
    {k : Call (ApiOp api.mail.xl) ApiOp.Res} (mem : k ∈ h) (beyond : ¬ GateCalls k.op) :
    LetPast api req h := by
  obtain ⟨after, before, rfl, may⟩ := allowed.of_mem mem
  have past : LetPast api req before := by
    obtain ⟨op, r⟩ := k
    cases op with
    | account op => exact may.resolve_left beyond
    | counter x => exact absurd trivial beyond
    | mail op => exact may.1
    | _ => exact may
  rw [← List.singleton_append, ← List.append_assoc]
  exact past.append _

end Programs

namespace RateLimit
variable (env : RateLimitEnv)

def formMinute : ThrottlerOptions :=
  forPolicy .form { name := "form-minute", ttl := MINUTE, limit := env.THROTTLE_FORM_PER_MINUTE }

def formDay : ThrottlerOptions :=
  forPolicy .form { name := "form-day", ttl := DAY, limit := env.THROTTLE_FORM_PER_DAY }

lemma formMinute_mem : formMinute env ∈ buildThrottlers env := by
  simp [formMinute, buildThrottlers]

lemma formDay_mem : formDay env ∈ buildThrottlers env := by
  simp [formDay, buildThrottlers]

end RateLimit

/-! ## The counters -/

/-- The answer that the counter has given, and when. -/
def countOf {xl : Exceljs} (x : Increment) (e : Event Nat ApiChoice (ApiOp xl) ApiOp.Res) :
    Option (Nat × StorageRecord) :=
  match e.call with
  | ⟨.counter x', r⟩ => if x' = x then some (e.choice.now, r) else none
  | _ => none

/-- What the calls so far have made of the counters. -/
structure CountersLog {Cell : Type} {xl : Exceljs} (storage : ThrottlerStorage Cell)
    (limits : RateLimitEnv) (counters : Counters Cell)
    (history : List (Event Nat ApiChoice (ApiOp xl) ApiOp.Res)) : Prop where
  tally : ∀ x, IsIncrement limits x →
    Tally storage x (history.filterMap (countOf x)) (counters.cells x.key)
  times : ∀ x, ∀ answer ∈ history.filterMap (countOf x), answer.1 ≤ counters.clock

/-- The throttler has counted the request for the tracker then. -/
def CountedFor {Cell : Type} {api : Api} (c : ApiConfig api Cell) (tracker : String)
    (t : ThrottlerOptions) (i time : Nat) : Prop :=
  ∃ e ∈ c.history, e.who = i ∧ e.choice.now = time ∧
    ∃ r : StorageRecord, e.call = ⟨.counter (AppThrottlerGuard.increment tracker t), r⟩

/-- The throttler has counted the request for the tracker, and has let it. -/
def LetFor {Cell : Type} {api : Api} (c : ApiConfig api Cell) (tracker : String)
    (t : ThrottlerOptions) (i time : Nat) : Prop :=
  ∃ e ∈ c.history, e.who = i ∧ e.choice.now = time ∧
    ∃ r : StorageRecord, e.call = ⟨.counter (AppThrottlerGuard.increment tracker t), r⟩ ∧
      r.isBlocked = false

/-- The request has done something that is not for the gates to do. -/
def PastGates {Cell : Type} {api : Api} (c : ApiConfig api Cell) (i : Nat) : Prop :=
  ∃ k ∈ own i c.history, ¬ GateCalls k.op

section Runs
variable {Cell : Type} {api : Api} {storage : ThrottlerStorage Cell} {reqs : Nat → ApiRequest}
  {w : ApiWorld Cell api.mail.xl} {c : ApiConfig api Cell} {i : Nat}

lemma exec_counter {ch : ApiChoice} {x : Increment} {r : StorageRecord}
    {counters counters' : Counters Cell}
    (answered : Counters.exec storage ch.now x counters = some (r, counters')) :
    counters.clock ≤ ch.now ∧ counters'.clock = ch.now ∧
      r = (storage.increment ch.now x (counters.cells x.key)).1 ∧
      counters'.cells = Function.update counters.cells x.key
        (some (storage.increment ch.now x (counters.cells x.key)).2) := by
  simp only [Counters.exec, Option.ite_none_left_eq_some, Option.some.injEq, Prod.mk.injEq]
    at answered
  obtain ⟨later, rfl, rfl⟩ := answered
  exact ⟨Nat.le_of_not_lt later, rfl, rfl, rfl⟩

lemma CountersLog.step {ch : ApiChoice} {op : ApiOp api.mail.xl} {r : op.Res}
    {v v' : ApiWorld Cell api.mail.xl}
    {history : List (Event Nat ApiChoice (ApiOp api.mail.xl) ApiOp.Res)}
    (log : CountersLog storage api.limits v.counters history)
    (may : LimitsMay api (reqs i) (own i history) op)
    (answered : apiExec _ api.env storage ch op v = some (r, v')) :
    CountersLog storage api.limits v'.counters (⟨i, ch, ⟨op, r⟩⟩ :: history) := by
  cases apiExec_moves answered with
  | @counter x r u inside =>
    obtain ⟨later, clock, rfl, cells⟩ := exec_counter inside
    obtain ⟨⟨user, _, counts⟩, _⟩ := may
    constructor
    · intro y hy
      by_cases same : x = y
      · subst same
        simp only [countOf, List.filterMap_cons, if_true, cells, Function.update_self]
        exact .hit ch.now (log.tally x hy) fun answer old =>
          Nat.le_trans (log.times x answer old) later
      · have other : y.key ≠ x.key :=
          fun key => same (isIncrement_key hy (isIncrement_of_mem counts) key).symm
        simp only [countOf, List.filterMap_cons, if_neg same, cells,
          Function.update_of_ne other]
        exact log.tally y hy
    · intro y answer mem
      rw [clock]
      rw [List.filterMap_cons] at mem
      cases counted : countOf y (⟨i, ch, ⟨.counter x, _⟩⟩ :
          Event Nat ApiChoice (ApiOp api.mail.xl) ApiOp.Res) with
      | none =>
        rw [counted] at mem
        exact Nat.le_trans (log.times y answer mem) later
      | some here =>
        rw [counted] at mem
        rcases List.mem_cons.mp mem with rfl | old
        · simp only [countOf, Option.ite_none_right_eq_some, Option.some.injEq] at counted
          rw [← counted.2]
        · exact Nat.le_trans (log.times y answer old) later
  | _ => exact ⟨log.tally, log.times⟩

theorem countersLog (fresh : w.counters.cells = fun _ => none)
    (run : ApiReachable api storage reqs w c) :
    CountersLog storage api.limits c.world.counters c.history := by
  have obeys : PoolObeys (fun i => LimitsMay api (reqs i)) (fun _ _ _ => True)
      (openApi api reqs w : ApiConfig api Cell) := fun _ => serve_limitsMay
  refine leads_world_invariant (I := fun w history =>
    CountersLog storage api.limits w.counters history) run obeys ⟨fun x _ => ?_, ?_⟩
    fun _ _ _ _ _ _ _ log may answered => log.step may answered
  · rw [show (openApi api reqs w : ApiConfig api Cell).world = w from rfl, fresh]
    exact .fresh
  · exact fun _ _ mem => absurd mem List.not_mem_nil

lemma past_letPast (run : ApiReachable api storage reqs w c) (past : PastGates c i) :
    LetPast api (reqs i) (own i c.history) := by
  obtain ⟨k, mem, beyond⟩ := past
  exact letPast_of_allowed (leads_eachAllowed (fun _ => serve_limitsMay) run i) mem beyond

lemma LetFor.counted {tracker : String} {t : ThrottlerOptions} {time : Nat}
    (lets : LetFor c tracker t i time) : CountedFor c tracker t i time := by
  obtain ⟨e, made, who, now, r, call, _⟩ := lets
  exact ⟨e, made, who, now, r, call⟩

/-- A request past the gates has been counted and let by every throttler of its route. -/
lemma past_let (run : ApiReachable api storage reqs w c) (past : PastGates c i) :
    ∃ user, Passed (reqs i).seen ((own i c.history).filterMap accountCall) user ∧
      ∀ t ∈ RateLimit.buildThrottlers api.limits, t.skipIf (reqs i).handler.route = false →
        ∃ time, LetFor c ((reqs i).tracker user) t i time := by
  obtain ⟨user, passed, free⟩ := past_letPast run past
  refine ⟨user, passed, fun t ht active => ?_⟩
  obtain ⟨r, mem, unblocked⟩ := free (AppThrottlerGuard.increment ((reqs i).tracker user) t)
    (List.mem_map_of_mem (List.mem_filter.mpr ⟨ht, by simp [active]⟩))
  obtain ⟨ch, made⟩ := mem_own.mp mem
  exact ⟨ch.now, _, made, rfl, rfl, r, rfl, unblocked⟩

/-- Of the requests that a throttler counts for a tracker within its time, no more
than its limit get past the gates. -/
lemma past_bounded (keeps : storage.KeepsLimits) (fresh : w.counters.cells = fun _ => none)
    (run : ApiReachable api storage reqs w c) {t : ThrottlerOptions}
    (ht : t ∈ RateLimit.buildThrottlers api.limits) {tracker : String} {begins : Nat}
    {is : List Nat} (nodup : is.Nodup) (past : ∀ i ∈ is, PastGates c i)
    (counted : ∀ i ∈ is, ∃ time, CountedFor c tracker t i time ∧ begins ≤ time ∧
      time < begins + t.ttl) : is.length ≤ t.limit := by
  have bound := keeps _ _ _ ((countersLog fresh run).tally
    (AppThrottlerGuard.increment tracker t) ⟨t, ht, tracker, rfl⟩) begins
  rw [List.countP_filterMap, List.countP_eq_length_filter,
    ← List.length_map (f := Event.who)] at bound
  refine Nat.le_trans (nodup.subperm fun i hi => ?_).length_le bound
  obtain ⟨_, ⟨e, made, rfl, rfl, r, call⟩, late, early⟩ := counted i hi
  have mine : (⟨.counter (AppThrottlerGuard.increment tracker t), r⟩ :
      Call (ApiOp api.mail.xl) ApiOp.Res) ∈ own e.who c.history := by
    obtain ⟨who, ch, k⟩ := e
    obtain rfl : k = ⟨.counter (AppThrottlerGuard.increment tracker t), r⟩ := call
    exact mem_own.mpr ⟨ch, made⟩
  have allowed := leads_eachAllowed (fun _ => serve_limitsMay) run e.who
  obtain ⟨user, passed, counts⟩ := counted_of_allowed allowed mine
  obtain ⟨user', passed', free⟩ := past_letPast run (past _ hi)
  obtain rfl := passed_unique passed passed'
  obtain ⟨r', mine', unblocked⟩ := free _ counts
  obtain rfl := once_of_allowed allowed mine mine'
  refine List.mem_map.mpr ⟨e, List.mem_filter.mpr ⟨made, ?_⟩, rfl⟩
  simp [countOf, call, LetIn, unblocked, late, early, AppThrottlerGuard.increment]

/-- Whoever sends a mail is past the gates, on a route of the forms. -/
lemma sender_past (run : ApiReachable api storage reqs w c)
    {k : Call (MailOp api.mail.xl) MailOp.Res}
    (sent : k ∈ (own i c.history).filterMap mailCall) :
    PastGates c i ∧ ∃ request, (reqs i).handler = .mail request := by
  obtain ⟨⟨op, r⟩, mem, seen⟩ := List.mem_filterMap.mp sent
  cases op with
  | mail op =>
    obtain ⟨after, before, whole, _, handles⟩ :=
      (leads_eachAllowed (fun _ => serve_limitsMay) run i).of_mem mem
    exact ⟨⟨_, mem, fun gate => gate⟩, handles⟩
  | _ => cases seen

lemma sender_let (run : ApiReachable api storage reqs w c) (past : PastGates c i)
    {request : MailRequest} (handles : (reqs i).handler = .mail request) :
    ∃ tracker, (∃ time, LetFor c tracker (RateLimit.formMinute api.limits) i time) ∧
      ∃ time, LetFor c tracker (RateLimit.formDay api.limits) i time := by
  obtain ⟨user, _, lets⟩ := past_let run past
  rw [handles] at lets
  exact ⟨_, lets _ (RateLimit.formMinute_mem _) rfl, lets _ (RateLimit.formDay_mem _) rfl⟩

/-- The sends of the mails are those of the API. -/
lemma mem_sent {s : MailServer api.mail} {mail : Mail api.mail.xl}
    (calls : own i s.history = (own i c.history).filterMap mailCall) :
    (i, mail) ∈ sentBy s.history ↔
      (⟨.mail (.sendMail mail), true⟩ : Call (ApiOp api.mail.xl) ApiOp.Res) ∈ own i c.history := by
  rw [mem_sentBy, calls]
  constructor
  · rintro ⟨k, mem, sent⟩
    obtain ⟨⟨op, r⟩, made, seen⟩ := List.mem_filterMap.mp mem
    cases op with
    | mail op =>
      obtain rfl := Option.some.inj seen
      cases op with
      | dateNow => cases sent
      | sendMail mail' =>
        cases r with
        | false => cases sent
        | true =>
          obtain rfl := Option.some.inj sent
          exact made
    | _ => cases seen
  · intro made
    exact ⟨⟨.sendMail mail, true⟩, List.mem_filterMap.mpr ⟨_, made, rfl⟩, rfl⟩

end Runs

/-- However the requests of all controllers interleave, what gets past the gates has been
counted and let by every throttler of its route, and of what one throttler counts for one
tracker within its time no more than its limit gets past them. Each mail that the transport
has accepted was sent by another request, and they keep to the limits of the forms. -/
theorem api_keeps_limits {Cell : Type} (api : Api) (storage : ThrottlerStorage Cell)
    (keeps : storage.KeepsLimits) (reqs : Nat → ApiRequest) (w : ApiWorld Cell api.mail.xl)
    (fresh : w.counters.cells = fun _ => none) (c : ApiConfig api Cell)
    (run : ApiReachable api storage reqs w c) :
    (∀ i, PastGates c i → ∃ user,
      Passed (reqs i).seen ((own i c.history).filterMap accountCall) user ∧
      ∀ t ∈ RateLimit.buildThrottlers api.limits, t.skipIf (reqs i).handler.route = false →
        ∃ time, LetFor c ((reqs i).tracker user) t i time) ∧
    (∀ t ∈ RateLimit.buildThrottlers api.limits, ∀ tracker begins, ∀ is : List Nat, is.Nodup →
      (∀ i ∈ is, PastGates c i ∧ ∃ time, CountedFor c tracker t i time ∧ begins ≤ time ∧
        time < begins + t.ttl) → is.length ≤ t.limit) ∧
    ∃ sent : List (Nat × Mail api.mail.xl), (sent.map Prod.fst).Nodup ∧
      c.world.mails.accepted = w.mails.accepted ++ sent.map Prod.snd ∧
      (∀ i mail, (i, mail) ∈ sent ↔
        (⟨.mail (.sendMail mail), true⟩ : Call (ApiOp api.mail.xl) ApiOp.Res) ∈
          own i c.history) ∧
      (∀ i ∈ sent.map Prod.fst, ∃ tracker,
        (∃ time, LetFor c tracker (RateLimit.formMinute api.limits) i time) ∧
        ∃ time, LetFor c tracker (RateLimit.formDay api.limits) i time) ∧
      ∀ tracker begins, ∀ is : List Nat, is.Nodup → is ⊆ sent.map Prod.fst →
        ((∀ i ∈ is, ∃ time, CountedFor c tracker (RateLimit.formMinute api.limits) i time ∧
          begins ≤ time ∧ time < begins + RateLimit.MINUTE) →
            is.length ≤ api.limits.THROTTLE_FORM_PER_MINUTE) ∧
        ((∀ i ∈ is, ∃ time, CountedFor c tracker (RateLimit.formDay api.limits) i time ∧
          begins ≤ time ∧ time < begins + RateLimit.DAY) →
            is.length ≤ api.limits.THROTTLE_FORM_PER_DAY) := by
  refine ⟨fun i past => past_let run past, ?_, ?_⟩
  · intro t ht tracker begins is nodup counted
    exact past_bounded keeps fresh run ht nodup (fun i hi => (counted i hi).1)
      fun i hi => (counted i hi).2
  · obtain ⟨s, reach, projects⟩ := projects_mails run
    have calls : ∀ i, own i s.history = (own i c.history).filterMap mailCall := projects.calls
    have past : ∀ i ∈ (sentBy s.history).map Prod.fst,
        PastGates c i ∧ ∃ request, (reqs i).handler = .mail request := by
      intro i hi
      obtain ⟨k, mem, _⟩ := mem_senders.mp hi
      rw [calls] at mem
      exact sender_past run mem
    refine ⟨sentBy s.history, senders_nodup reach, ?_, fun i mail => mem_sent (calls i),
      fun i hi => ?_, ?_⟩
    · have accepted := accepted_eq reach
      rw [projects.world] at accepted
      exact accepted
    · obtain ⟨beyond, request, handles⟩ := past i hi
      exact sender_let run beyond handles
    · intro tracker begins is nodup senders
      exact ⟨past_bounded keeps fresh run (RateLimit.formMinute_mem _) nodup fun i hi =>
          (past i (senders hi)).1,
        past_bounded keeps fresh run (RateLimit.formDay_mem _) nodup fun i hi =>
          (past i (senders hi)).1⟩

theorem api_keeps_limits_morning :
    ∃ c, ApiReachable Plain.api Plain.slidingWindow Plain.morning Plain.apiWorld c ∧
      ∃ i tracker time, LetFor c tracker (RateLimit.formMinute Plain.limits) i time ∧
        [i].length ≤ Plain.limits.THROTTLE_FORM_PER_MINUTE := by
  have shown : (play (apiExec _ Plain.env Plain.slidingWindow) Plain.morningCalls
      (openApi Plain.api Plain.morning Plain.apiWorld)).any (fun c => decide
        (c.world.mails.accepted.length = 1)) = true := by
    decide +kernel
  obtain ⟨c, run, ended⟩ := leads_of_play _ shown
  have one : c.world.mails.accepted.length = 1 := of_decide_eq_true ended
  obtain ⟨-, -, sent, -, accepted, -, lets, bounded⟩ := api_keeps_limits Plain.api
    Plain.slidingWindow Plain.slidingWindow_keepsLimits Plain.morning Plain.apiWorld rfl c run
  have nonempty : sent.map Prod.fst ≠ [] := by
    intro none
    rw [accepted, List.map_eq_nil_iff.mp none] at one
    cases one
  obtain ⟨i, hi⟩ := List.exists_mem_of_ne_nil _ nonempty
  obtain ⟨tracker, ⟨time, minute⟩, -⟩ := lets i hi
  refine ⟨c, run, i, tracker, time, minute, (bounded tracker time [i] (List.nodup_singleton i)
    (by simpa using hi)).1 fun j hj => ?_⟩
  rw [List.mem_singleton.mp hj]
  exact ⟨time, minute.counted, Nat.le_refl _, Nat.lt_add_of_pos_right (by decide)⟩

end BajaValle
