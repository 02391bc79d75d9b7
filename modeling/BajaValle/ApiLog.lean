import BajaValle.ApiComponents

/-!
# The log

What the gates reject leaves no line. Any other request leaves one line before its
handler starts and one when it has ended, which tells how.
-/

namespace BajaValle

open CallPrograms Prog Interleaving

def writtenLine {xl : Exceljs} : Call (ApiOp xl) ApiOp.Res → Option LogLine
  | ⟨.console (.write line), _⟩ => some line
  | _ => none

def consoleTime {xl : Exceljs} : Call (ApiOp xl) ApiOp.Res → Option Nat
  | ⟨.console .dateNow, now⟩ => some now
  | _ => none

/-- The lines that these calls, latest first, have written. -/
def linesOf {xl : Exceljs} (h : List (Call (ApiOp xl) ApiOp.Res)) : List LogLine :=
  h.reverse.filterMap writtenLine

/-- The times that these calls, latest first, have read for the interceptor. -/
def readingsOf {xl : Exceljs} (h : List (Call (ApiOp xl) ApiOp.Res)) : List Nat :=
  h.reverse.filterMap consoleTime

/-- The calls of the guards and of the rate limits. -/
def GateCalls {xl : Exceljs} : ApiOp xl → Prop
  | .account op => GuardOp op
  | .counter _ => True
  | _ => False

def LoggingInterceptor.ending (api : Api) (req : ApiRequest) (ms : Nat) :
    Except ApiFailure ApiAnswer → LogLine
  | .ok _ => succeeded req ms
  | .error err => failed api req ms err

/-- The log so far, while the request has not ended. -/
def Unended {xl : Exceljs} (req : ApiRequest) (h : List (Call (ApiOp xl) ApiOp.Res)) : Prop :=
  (linesOf h = [] ∧ ∀ k ∈ h, GateCalls k.op ∨ ∃ op, k.op = .console op) ∨
    linesOf h = [LoggingInterceptor.received req]

/-- A request that ends is rejected at the gates, or the log tells how it has ended and
the time between the two readings of the clock. -/
def Logged (api : Api) (req : ApiRequest) (h : List (Call (ApiOp api.mail.xl) ApiOp.Res))
    (out : Except ApiFailure ApiAnswer) : Prop :=
  (linesOf h = [] ∧ (∀ k ∈ h, GateCalls k.op) ∧
    ∃ e, out = .error e ∧ ((∃ failure, e = .account failure) ∨ ∃ answer, e = .throttled answer)) ∨
  ∃ begins ends, readingsOf h = [begins, ends] ∧
    linesOf h = [LoggingInterceptor.received req,
      LoggingInterceptor.ending api req (ends - begins) out]

section Lines
variable {xl : Exceljs} {h h' : List (Call (ApiOp xl) ApiOp.Res)}

lemma told_cons {β : Type} (f : Call (ApiOp xl) ApiOp.Res → Option β)
    (k : Call (ApiOp xl) ApiOp.Res) :
    (k :: h).reverse.filterMap f = h.reverse.filterMap f ++ (f k).toList := by
  simp only [List.reverse_cons, List.filterMap_append]
  cases told : f k with
  | none => simp [told]
  | some b => simp [told]

lemma linesOf_cons (k : Call (ApiOp xl) ApiOp.Res) :
    linesOf (k :: h) = linesOf h ++ (writtenLine k).toList := told_cons writtenLine k

lemma readingsOf_cons (k : Call (ApiOp xl) ApiOp.Res) :
    readingsOf (k :: h) = readingsOf h ++ (consoleTime k).toList := told_cons consoleTime k

/-- Only the console writes, and tells the interceptor the time. -/
lemma told_extends {kind : ApiOp xl → Prop} (ext : Extends kind h h')
    (silent : ∀ op, ¬ kind (.console op)) :
    linesOf h' = linesOf h ∧ readingsOf h' = readingsOf h := by
  obtain ⟨new, rfl, all⟩ := ext
  induction new with
  | nil => exact ⟨rfl, rfl⟩
  | cons k new ih =>
    obtain ⟨here, rest⟩ := List.forall_mem_cons.mp all
    obtain ⟨lines, readings⟩ := ih rest
    obtain ⟨op, r⟩ := k
    rw [List.cons_append, linesOf_cons, readingsOf_cons, lines, readings]
    cases op with
    | console op => exact absurd here (silent op)
    | _ => exact ⟨List.append_nil _, List.append_nil _⟩

end Lines

section Programs
variable {api : Api} {req : ApiRequest} {h : List (Call (ApiOp api.mail.xl) ApiOp.Res)}

lemma calls_silent (handler : ApiHandler) (op : ConsoleOp) :
    ¬ handler.Calls (ApiOp.console op : ApiOp api.mail.xl) := by
  cases handler with
  | _ => exact fun no => no

lemma report_logged {begins : Nat} {out : Except ApiFailure ApiAnswer}
    (began : readingsOf h = [begins])
    (lines : linesOf h = [LoggingInterceptor.received req]) :
    (LoggingInterceptor.report api req begins out).Obeys (fun h _ => Unended req h)
      (fun _ _ => True) h ∧
      (LoggingInterceptor.report api req begins out).Concludes (Logged api req) h := by
  have still : ∀ now : Nat, linesOf (⟨.console .dateNow, now⟩ :: h :
      List (Call (ApiOp api.mail.xl) ApiOp.Res)) = [LoggingInterceptor.received req] := by
    intro now
    rw [linesOf_cons, lines]
    rfl
  have ended : ∀ now : Nat, Logged api req (⟨.console (.write
      (LoggingInterceptor.ending api req (now - begins) out)), ()⟩ ::
        ⟨.console .dateNow, now⟩ :: h) out := by
    intro now
    refine .inr ⟨begins, now, ?_, ?_⟩
    · rw [readingsOf_cons, readingsOf_cons, began]
      rfl
    · rw [linesOf_cons, still]
      rfl
  cases out with
  | ok answer =>
    exact ⟨⟨.inr lines, fun now => ⟨.inr (still now), fun _ => trivial⟩⟩, fun now _ => ended now⟩
  | error err =>
    exact ⟨⟨.inr lines, fun now => ⟨.inr (still now), fun _ => trivial⟩⟩, fun now _ => ended now⟩

lemma intercept_eq (next : ApiTask api ApiAnswer) : LoggingInterceptor.intercept api req next =
    .call (.console .dateNow) fun begins =>
      .call (.console (.write (LoggingInterceptor.received req))) fun _ =>
        next.attempt >>= LoggingInterceptor.report api req begins := rfl

lemma told_gates (ext : Extends GateCalls [] h) : linesOf h = [] ∧ readingsOf h = [] :=
  told_extends ext fun _ no => no

lemma mem_gates (ext : Extends GateCalls [] h) {k : Call (ApiOp api.mail.xl) ApiOp.Res}
    (mem : k ∈ h) : GateCalls k.op := (ext.mem_or mem).resolve_left List.not_mem_nil

lemma intercept_logged {next : ApiTask api ApiAnswer} {handler : ApiHandler}
    (uses : next.Uses handler.Calls) (ext : Extends GateCalls [] h) :
    (LoggingInterceptor.intercept api req next).Obeys (fun h _ => Unended req h)
      (fun _ _ => True) h ∧
      (LoggingInterceptor.intercept api req next).Concludes (Logged api req) h := by
  have silent : ∀ op, ¬ handler.Calls (.console op : ApiOp api.mail.xl) := calls_silent handler
  obtain ⟨noLines, noReadings⟩ := told_gates ext
  have still : ∀ begins : Nat, linesOf (⟨.console .dateNow, begins⟩ :: h :
      List (Call (ApiOp api.mail.xl) ApiOp.Res)) = [] := by
    intro begins
    rw [linesOf_cons, noLines]
    rfl
  -- before the handler the log has the line of receipt and the clock has been read once
  have report : ∀ begins h' out, Extends handler.Calls
      (⟨.console (.write (LoggingInterceptor.received req)), ()⟩ ::
        ⟨.console .dateNow, begins⟩ :: h) h' →
      linesOf h' = [LoggingInterceptor.received req] ∧
        (LoggingInterceptor.report api req begins out).Obeys (fun h _ => Unended req h)
          (fun _ _ => True) h' ∧
        (LoggingInterceptor.report api req begins out).Concludes (Logged api req) h' := by
    intro begins h' out ext'
    obtain ⟨lines, readings⟩ := told_extends ext' silent
    rw [linesOf_cons, still] at lines
    rw [readingsOf_cons, readingsOf_cons, noReadings] at readings
    exact ⟨lines, report_logged readings lines⟩
  rw [intercept_eq]
  refine ⟨⟨.inl ⟨noLines, fun _ mem => .inl (mem_gates ext mem)⟩, fun begins =>
    ⟨.inl ⟨still begins, ?_⟩, fun _ => ?_⟩⟩, fun begins _ => ?_⟩
  · exact List.forall_mem_cons.mpr ⟨.inr ⟨_, rfl⟩, fun _ mem => .inl (mem_gates ext mem)⟩
  · exact obeys_bind (uses_obeys (uses_attempt uses) fun h' op ext' _ =>
      .inr (report begins h' (.error (.account .typeError)) ext').1) fun h' out ext' =>
        (report begins h' out ext').2.1
  · refine concludes_bind ((concludes_uses (uses_attempt uses)).and
      (concludes_attempt (concludes_uses uses)) |>.mono fun h' out => ?_)
    rintro ⟨ext', _, rfl, _⟩
    refine ⟨fun a _ => (report begins h' a ext').2.2, fun e same => ?_⟩
    cases same

/-- What the gates raise leaves no line. -/
lemma rejected_logged {e : ApiFailure} (ext : Extends GateCalls [] h)
    (rejected : (∃ failure, e = .account failure) ∨ ∃ answer, e = .throttled answer) :
    Logged api req h (.error e) :=
  .inl ⟨(told_gates ext).1, fun _ mem => mem_gates ext mem, e, rfl, rejected⟩

lemma gates_unended {α : Type} {p : ApiTask api α} (uses : p.Uses GateCalls)
    (ext : Extends GateCalls [] h) :
    p.Obeys (fun h _ => Unended req h) (fun h' _ => Extends GateCalls [] h') h :=
  (uses_obeys uses fun _ _ ext' _ => .inl ⟨(told_gates (ext.trans ext')).1, fun _ mem =>
    .inl (mem_gates (ext.trans ext') mem)⟩).mono (fun _ _ may => may) fun _ _ ext' => ext.trans ext'

lemma guards_gates : ((guards req.handler.route req.authorization).embed
    (accountCalls api.mail.xl) ApiFailure.account).Uses GateCalls :=
  uses_embed _ _ (guards_uses _ _) fun _ guard => guard

lemma throttler_gates (user : Option AuthUser) : ((AppThrottlerGuard.canActivate api.guard
    api.limits (user.map fun user => uuidText user.id) req.ip req.handler.route).embed
      (counterCalls api.mail.xl) ApiFailure.throttled).Uses GateCalls :=
  uses_embed _ _ (uses_true _) fun _ _ => trivial

lemma serve_unended : (req.serve api).Obeys (fun h _ => Unended req h) (fun _ _ => True) [] := by
  refine obeys_bind (gates_unended guards_gates (.refl _ _)) fun h user ext => ?_
  refine obeys_bind (gates_unended (throttler_gates user) ext) fun h' _ ext' => ?_
  exact (intercept_logged handle_uses ext').1

lemma serve_logged : (req.serve api).Concludes (Logged api req) [] := by
  refine concludes_bind (((concludes_uses guards_gates).and
    (concludes_embed_ends _ _)).mono fun h out => ?_)
  rintro ⟨ext, a, rfl⟩
  refine ⟨fun user _ => ?_, fun e failed => ?_⟩
  · refine concludes_bind (((concludes_uses (throttler_gates user)).and
      (concludes_embed_ends _ _)).mono fun h' out => ?_)
    rintro ⟨ext', a', rfl⟩
    refine ⟨fun _ _ => (intercept_logged handle_uses (ext.trans ext')).2,
      fun e failed => rejected_logged (ext.trans ext') (.inr ?_)⟩
    cases a' with
    | ok a' => cases failed
    | error t =>
      cases failed
      exact ⟨t, rfl⟩
  · refine rejected_logged ext (.inl ?_)
    cases a with
    | ok a => cases failed
    | error f =>
      cases failed
      exact ⟨f, rfl⟩

end Programs

section Runs
variable {Cell : Type} {api : Api} {storage : ThrottlerStorage Cell} {reqs : Nat → ApiRequest}
  {w : ApiWorld Cell api.mail.xl} {c : ApiConfig api Cell}

lemma exec_lines {ch : ApiChoice} {op : ApiOp api.mail.xl} {r : op.Res}
    {v v' : ApiWorld Cell api.mail.xl}
    (answered : apiExec _ api.env storage ch op v = some (r, v')) :
    v'.console.lines = v.console.lines ++ (writtenLine ⟨op, r⟩).toList := by
  cases apiExec_moves answered with
  | @console op r u inside =>
    cases op with
    | dateNow =>
      simp only [Console.exec] at inside
      split_ifs at inside
      obtain ⟨rfl, rfl⟩ := Prod.mk.inj (Option.some.inj inside)
      exact (List.append_nil _).symm
    | write line =>
      obtain ⟨rfl, rfl⟩ := Prod.mk.inj (Option.some.inj inside)
      rfl
  | _ => exact (List.append_nil _).symm

lemma lines_eq (run : ApiReachable api storage reqs w c) :
    c.world.console.lines =
      w.console.lines ++ c.history.reverse.filterMap fun e => writtenLine e.call := by
  refine leads_invariant (P := fun c => c.world.console.lines =
    w.console.lines ++ c.history.reverse.filterMap fun e => writtenLine e.call) ?_ run
    (List.append_nil _).symm
  intro c c' i ch same fired
  obtain ⟨op, next, r, w', head, answered, rfl⟩ := fire_eq_some.mp fired
  simp only [exec_lines answered, same, List.reverse_cons, List.filterMap_append, List.append_assoc]
  cases written : writtenLine (⟨op, r⟩ : Call (ApiOp api.mail.xl) ApiOp.Res) with
  | none => simp [written]
  | some line => simp [written]

end Runs

/-- The log is what the requests have written, each in its order: nothing before it has
passed the gates, one line while it is served, and one more that tells how it ended. -/
theorem log_tells_each_request {Cell : Type} (api : Api) (storage : ThrottlerStorage Cell)
    (reqs : Nat → ApiRequest) (w : ApiWorld Cell api.mail.xl) (c : ApiConfig api Cell)
    (run : ApiReachable api storage reqs w c) :
    c.world.console.lines =
      w.console.lines ++ c.history.reverse.filterMap (fun e => writtenLine e.call) ∧
    (∀ i, (c.pool i).outcome = none → Unended (reqs i) (own i c.history)) ∧
    ∀ i out, (c.pool i).outcome = some out → Logged api (reqs i) (own i c.history) out := by
  refine ⟨lines_eq run, fun i waits => ?_, fun i out ended => ?_⟩
  · have obeys := leads_poolObeys run (fun _ => serve_unended) i
    cases here : c.pool i with
    | call op next =>
      rw [here] at obeys
      exact obeys.1
    | ret a => simp [here, outcome] at waits
    | throw e => simp [here, outcome] at waits
  · exact leads_concludes (fun _ => serve_logged) run ended

theorem log_tells_each_request_morning :
    ∃ c, ApiReachable Plain.api Plain.slidingWindow Plain.morning Plain.apiWorld c ∧
      ∃ begins ends, readingsOf (own 0 c.history) = [begins, ends] ∧
        linesOf (own 0 c.history) = [⟨false, "POST /categories - recibido"⟩,
          LoggingInterceptor.succeeded (Plain.morning 0) (ends - begins)] := by
  have shown : (play (apiExec _ Plain.env Plain.slidingWindow) Plain.morningCalls
      (openApi Plain.api Plain.morning Plain.apiWorld)).any (fun c => decide
        ((c.pool 0).outcome = some (.ok (.catalog (.categoryRow { id := 1, name := "Vinos" }))))) =
          true := by
    decide +kernel
  obtain ⟨c, run, created⟩ := leads_of_play _ shown
  obtain ⟨-, -, ended⟩ :=
    log_tells_each_request Plain.api Plain.slidingWindow Plain.morning Plain.apiWorld c run
  rcases ended 0 _ (of_decide_eq_true created) with ⟨-, -, e, failed, -⟩ | ⟨_, _, times, lines⟩
  · cases failed
  · exact ⟨c, run, _, _, times, lines⟩

end BajaValle
