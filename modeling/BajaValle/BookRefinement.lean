import BajaValle.BookProfiles

/-!
# The accounts follow the book

Requests served one after another, none of whose calls fails, answer as the book does,
and the tables go on mirroring it.
-/

namespace BajaValle

open CallPrograms Prog AuthService SessionsService

/-! ## Requests -/

/-- What an answer says of the account. -/
def Answer.shown : Answer → Reply
  | .session response => .session response.user
  | .identity id role => .identity id role
  | .profile shown => .profile shown
  | .tokens _ | .noContent | .other => .noContent

/-- The book answers so at this moment, and is then this. Requests about sessions only
leave it as it is. -/
def Book.Allows (book : Book) (env : Env) (handler : Handler) (caller : Option AuthUser)
    (m : Moment) (out : Except Failure Answer) (book' : Book) : Prop :=
  match book.handle env handler caller m with
  | none => book' = book
  | some (reply, after) => out.map Answer.shown = reply ∧ book' = after

section Handlers
variable {env : Env} {lex : Lexicon} {w w' : World} {h : List OwnCall} {book : Book} {req : Request}
  {caller : Option AuthUser} {α : Type}

/-- The end of a handler, as the book allows it. -/
def Agreed (env : Env) (lex : Lexicon) (w : World) (book : Book) (handler : Handler)
    (caller : Option AuthUser)
    (out : Except Failure Answer) (w' : World) : Prop :=
  ∃ m book', Moment.Within m w w' ∧ book.Allows env handler caller m out book' ∧
    Mirrors env lex w' book'

lemma agreed_map {shown : α → Reply} {spec : Moment → Except Failure Reply × Book} {p : Task α}
    {f : α → Answer} {handler : Handler} (same : ∀ a, (f a).shown = shown a)
    (handles : ∀ m, book.handle env handler caller m = some (spec m))
    (meets : Serial env False (fun _ _ => True)
      (fun _ out w' => Agrees env lex w shown spec out w') h w p) :
    Serial env False (fun _ _ => True)
      (fun _ out w' => Agreed env lex w book handler caller out w') h w
      (f <$> p) := by
  have allowed : ∀ {out : Except Failure α} {w'}, Agrees env lex w shown spec out w' →
      Agreed env lex w book handler caller (out.map f) w' := by
    rintro out w' ⟨m, book', bounds, answers, mirrors⟩
    refine ⟨m, book', bounds, ?_, mirrors⟩
    rw [Book.Allows, handles, answers]
    refine ⟨?_, rfl⟩
    cases out with
    | error e => rfl
    | ok a => exact congrArg Except.ok (same a)
  refine meets_bind (meets.mono ?_)
  rintro h' out w' _ agrees
  refine ⟨?_, ?_⟩
  · rintro a rfl
    exact ⟨trivial, allowed agrees⟩
  · rintro e rfl
    exact allowed agrees

/-- A handler that reads the caller fails where there is none. -/
lemma withUser_agreed {run : AuthUser → Task Answer} {handler : Handler}
    {spec : AuthUser → Moment → Except Failure Reply × Book}
    (handles : ∀ caller m, book.handle env handler caller m =
      some (book.asCaller caller fun user => spec user m))
    (mirrors : Mirrors env lex w book)
    (each : ∀ user, Serial env False (fun _ _ => True)
      (fun _ out w' => Agreed env lex w book handler (some user) out w') h w (run user)) :
    Serial env False (fun _ _ => True)
      (fun _ out w' => Agreed env lex w book handler caller out w') h w
      (withUser caller run) := by
  cases caller with
  | some user => exact each user
  | none =>
    have agrees : Agrees env lex w Answer.shown (fun _ => (.error .typeError, book))
        (.error .typeError : Except Failure Answer) w :=
      .of_any (.refl w) (fun _ => rfl) mirrors
    obtain ⟨m, book', bounds, answers, mirrors'⟩ := agrees
    refine ⟨trivial, m, book', bounds, ?_, mirrors'⟩
    obtain ⟨_, rfl⟩ := Prod.mk.inj answers
    rw [Book.Allows, handles]
    exact ⟨rfl, rfl⟩

lemma revocation_spares (filter : SessionWhere) : ((do
    let _ ← await (perform (revocation filter))
    return () : Task Unit)).Uses SparesAccounts :=
  uses_bind (await_uses (perform_uses trivial)) fun _ => uses_ret _

lemma rotate_spares (token : String) (userAgent : Option String) :
    (rotate env token userAgent).Uses SparesAccounts := by
  have closes : ∀ s : Session, (revokeFamily s.familyId >>= fun _ =>
      Prog.throw sessionInvalid : Task Unit).Uses SparesAccounts := fun _ =>
    uses_bind (revocation_spares _) fun _ => uses_throw _
  have reuses : ∀ s : Session, (reuse s).Uses SparesAccounts := by
    intro s
    refine uses_bind (await_uses (perform_uses trivial)) fun used => ?_
    split
    · refine uses_bind (perform_uses trivial) fun _ => ?_
      split
      · exact uses_throw _
      · exact closes s
    · exact closes s
  refine uses_bind (await_uses (perform_uses trivial)) fun found => ?_
  cases found with
  | none => exact uses_throw _
  | some found =>
    refine uses_bind (perform_uses trivial) fun now => ?_
    split
    · exact uses_throw _
    · refine uses_bind (await_uses (perform_uses trivial)) fun claimed => ?_
      split
      · exact uses_bind (reuses _) fun _ => uses_throw _
      · exact uses_bind (uses_bind (perform_uses trivial) fun _ =>
          uses_bind (await_uses (perform_uses trivial)) fun _ => uses_ret _) fun _ => uses_ret _

/-- A request that only concerns sessions. -/
lemma sessions_agreed {p : Task Answer} {handler : Handler}
    (silent : ∀ m, book.handle env handler caller m = none) (uses : p.Uses SparesAccounts)
    (mirrors : Mirrors env lex w book) :
    Serial env False (fun _ _ => True) (fun _ out w' => DigestsDrawn env w' →
      Agreed env lex w book handler caller out w') h w p := by
  have kept : Serial env False (fun _ w' => w'.users = w.users ∧ w'.dummyHash = w.dummyHash)
      (fun _ _ w' => w'.users = w.users ∧ w'.dummyHash = w.dummyHash) h w p :=
    serial_invariant uses ⟨rfl, rfl⟩ fun _ _ _ _ _ spares answered here =>
      have step := exec_sparesAccounts answered spares
      ⟨step.1.trans here.1, step.2.trans here.2⟩
  refine (kept.and (serial_later p)).weaken (fun _ _ _ => trivial) |>.mono ?_
  rintro h' out w' _ ⟨⟨users, dummy⟩, later⟩ tokens
  have mirrors' := mirrors.still users later.uuids ⟨tokens, dummy ▸ mirrors.dummy⟩
  obtain ⟨m, book', bounds, _, mirrors''⟩ : Agrees env lex w id (fun _ => (.ok .noContent, book))
    (.ok .noContent : Except Failure Reply) w' := .of_any later (fun _ => rfl) mirrors'
  refine ⟨m, book, bounds, ?_, mirrors'⟩
  rw [Book.Allows, silent]

lemma handle_agreed (ideal : Distinguishes env lex) (named : req.handler.Named)
    (said : req.handler.Says env lex) (mirrors : Mirrors env lex w book) :
    Serial env False (fun _ _ => True) (fun _ out w' => DigestsDrawn env w' →
      Agreed env lex w book req.handler caller out w') h w (handle env req caller) := by
  obtain ⟨handler, authorization, userAgent⟩ := req
  have always : ∀ {handler : Handler} {p : Task Answer},
      Serial env False (fun _ _ => True)
        (fun _ out w' => Agreed env lex w book handler caller out w') h w p →
      Serial env False (fun _ _ => True) (fun _ out w' => DigestsDrawn env w' →
        Agreed env lex w book handler caller out w') h w p :=
    fun meets => meets.mono fun _ _ _ _ agreed _ => agreed
  cases handler with
  | register dto =>
    exact always (agreed_map (fun _ => rfl) (fun _ => rfl) (register_agrees ideal said mirrors))
  | login dto =>
    exact always (agreed_map (fun _ => rfl) (fun _ => rfl) (login_agrees ideal said mirrors))
  | refresh token =>
    refine sessions_agreed (fun _ => rfl) ?_ mirrors
    exact uses_bind (uses_bind (rotate_spares _ _) fun _ => uses_bind (perform_uses trivial)
      fun _ => uses_ret _) fun _ => uses_ret _
  | logout =>
    refine sessions_agreed (fun _ => rfl) ?_ mirrors
    cases caller with
    | none => exact uses_throw _
    | some user => exact uses_bind (revocation_spares _) fun _ => uses_ret _
  | logoutAll =>
    refine sessions_agreed (fun _ => rfl) ?_ mirrors
    cases caller with
    | none => exact uses_throw _
    | some user => exact uses_bind (revocation_spares _) fun _ => uses_ret _
  | me =>
    refine always (withUser_agreed (fun _ _ => rfl) mirrors fun user => ?_)
    obtain ⟨m, book', bounds, answers, mirrors'⟩ : Agrees env lex w Answer.shown
        (fun _ => (.ok (.identity user.id user.role), book))
        (.ok (.identity user.id user.role) : Except Failure Answer) w :=
      .of_any (.refl w) (fun _ => rfl) mirrors
    obtain ⟨_, rfl⟩ := Prod.mk.inj answers
    exact ⟨trivial, m, book, bounds, ⟨rfl, rfl⟩, mirrors'⟩
  | getProfile =>
    exact always (withUser_agreed (fun _ _ => rfl) mirrors fun _ =>
      agreed_map (fun _ => rfl) (fun _ => rfl) (get_agrees ideal mirrors))
  | updateProfile names =>
    exact always (withUser_agreed (fun _ _ => rfl) mirrors fun _ =>
      agreed_map (fun _ => rfl) (fun _ => rfl) (update_agrees ideal named.1 named.2 mirrors))
  | changeEmail newEmail password =>
    exact always (withUser_agreed (fun _ _ => rfl) mirrors fun _ =>
      agreed_map (fun _ => rfl) (fun _ => rfl) (changeEmail_agrees ideal said mirrors))
  | changePassword newPassword password =>
    exact always (withUser_agreed (fun _ _ => rfl) mirrors fun _ =>
      agreed_map (fun _ => rfl) (fun _ => rfl) (changePassword_agrees ideal said mirrors))
  | deleteAccount password =>
    exact always (withUser_agreed (fun _ _ => rfl) mirrors fun _ =>
      agreed_map (fun _ => rfl) (fun _ => rfl) (delete_agrees ideal said mirrors))
  | other route => exact sessions_agreed (fun _ => rfl) (uses_ret _) mirrors

/-- Digests stay those of tokens drawn before, as every inserted one is. -/
def TokensDrawn (env : Env) (h : List OwnCall) (w : World) : Prop :=
  (∀ bytes, (⟨.randomBytes TOKEN_BYTES, bytes⟩ : OwnCall) ∈ h →
    bytes ∈ w.draws ∧ bytes.length = TOKEN_BYTES) ∧ DigestsDrawn env w

lemma TokensDrawn.exec {ch : Choice} {op : Op} {r : op.Res} (here : TokensDrawn env h w)
    (may : May env req h op) (answered : exec env ch op w = some (r, w')) :
    TokensDrawn env (⟨op, r⟩ :: h) w' := by
  have draws := (exec_spends answered).draws
  have old : ∀ s ∈ w.sessions, ∃ bytes ∈ w'.draws, bytes.length = TOKEN_BYTES ∧
      s.tokenHash = hashToken env (tokenText bytes) := by
    intro s hs
    obtain ⟨bytes, drawn, length, digest⟩ := here.2 s hs
    exact ⟨bytes, draws drawn, length, digest⟩
  refine ⟨?_, ?_⟩
  · intro bytes mem
    rcases List.mem_cons.mp mem with same | mem
    · cases same
      exact ⟨(exec_drawnBytes answered rfl).2, exec_randomBytes answered⟩
    · exact ⟨draws (here.1 bytes mem).1, (here.1 bytes mem).2⟩
  · cases exec_sessions answered with
    | kept rows => exact fun s hs => old s (rows.subset hs)
    | inserted d rows =>
      obtain ⟨_, _, ⟨bytes, made, digest⟩, _⟩ := may
      intro s hs
      rw [rows] at hs
      rcases List.mem_append.mp hs with before | new
      · exact old s before
      · obtain rfl := List.mem_singleton.mp new
        obtain ⟨drawn, length⟩ := here.1 bytes made
        exact ⟨bytes, draws drawn, length, digest⟩
    | updated filter date rows =>
      intro s hs
      rw [rows] at hs
      obtain ⟨t, ht, rfl⟩ := List.mem_map.mp hs
      obtain ⟨bytes, drawn, length, digest⟩ := old t ht
      refine ⟨bytes, drawn, length, ?_⟩
      rw [← digest]
      split <;> rfl

/-- A request, its calls and how it ended. -/
structure Attendance where
  req : Request
  calls : List OwnCall
  out : Except Failure Answer

/-- What the book makes of a request from one time to another: the guards turn it away, or
let it through with a caller to whom the book answers. -/
inductive Book.Step (env : Env) (book : Book) (a : Attendance) (began ended : Nat) :
    Book → Prop where
  | refused (later : began ≤ ended) (nobody : ∀ caller, ¬ Passed a.req a.calls caller)
      (e : Failure) (raised : a.out = .error e) : Book.Step env book a began ended book
  | served (caller : Option AuthUser) (passed : Passed a.req a.calls caller) (m : Moment)
      (fresh : ∀ card ∈ book, card.id ≠ m.id) (started : began ≤ m.now) (lasts : m.now ≤ m.ended)
      (latest : m.ended ≤ ended) (book' : Book)
      (allows : book.Allows env a.req.handler caller m a.out book') :
      Book.Step env book a began ended book'

lemma serve_follows (ideal : Distinguishes env lex) (named : req.handler.Named)
    (said : req.handler.Says env lex) (mirrors : Mirrors env lex w book) :
    Serial env False (fun _ _ => True) (fun h' out w' => ∃ book',
      book.Step env ⟨req, h', out⟩ w.clock w'.clock book' ∧ Mirrors env lex w' book') [] w
      (serve env req) := by
  have drawn : Serial env False (TokensDrawn env) (fun h' a _ => ∀ answer, a = .ok answer →
      Ends req h' answer) [] w (serve env req) :=
    meets_of_obeys (serve_obeys env req) ⟨by simp, mirrors.tokens⟩
      fun _ _ _ _ _ _ may _ answered here => here.exec may answered
  have steps : Serial env False (fun _ _ => True) (fun h' out w' => DigestsDrawn env w' →
      ∃ book', book.Step env ⟨req, h', out⟩ w.clock w'.clock book' ∧ Mirrors env lex w' book') [] w
      (serve env req) := by
    have guarded := mirrors.serial
      ((guards_uses req.handler.route req.authorization).mono fun _ => GuardOp.aloof)
      (concludes_returned (h := [])).meets
    refine meets_bind (guarded.mono ?_)
    rintro h₁ out w₁ _ ⟨⟨calls, rfl, returned⟩, _, mirrors₁, later₁⟩
    refine ⟨?_, ?_⟩
    · rintro caller rfl
      refine (serial_uses (uses_true _) (handle_agreed ideal named said mirrors₁)).mono ?_
      rintro h₂ out w₂ _ ⟨agreed, ⟨new, rfl, _⟩, _⟩ tokens
      obtain ⟨m, book', bounds, allows, mirrors'⟩ := agreed tokens
      have returned : (guards req.handler.route req.authorization).returned calls = some caller :=
        returned
      have passed : Passed req (calls.reverse ++ []) caller := by
        simpa [Passed] using returned
      refine ⟨book', .served caller (passed.append new) m ?_
        (Nat.le_trans later₁.clock bounds.started) bounds.lasts bounds.latest book' allows,
        mirrors'⟩
      rintro card hc same
      exact bounds.fresh (same ▸ mirrors₁.drawn card hc)
    · rintro e rfl _
      refine ⟨book, .refused later₁.clock (fun caller passed => ?_) e rfl, mirrors₁⟩
      have nobody : (guards req.handler.route req.authorization).returned calls = none := returned
      simp [Passed, nobody] at passed
  -- what was drawn is known of whole requests only, so the handlers leave it to be shown
  refine (drawn.ends.and steps).weaken (fun _ _ _ => trivial) |>.mono ?_
  rintro h' out w' _ ⟨⟨tokens, _⟩, step⟩
  exact step tokens.2

end Handlers

/-! ## Runs -/

/-- Requests served one after another, none of whose calls fails. -/
inductive Attends (env : Env) (lex : Lexicon) (w₀ : World) : List Attendance → World → Prop where
  | start : Attends env lex w₀ [] w₀
  | next {log : List Attendance} {w w' : World} {a : Attendance} (run : Attends env lex w₀ log w)
      (named : a.req.handler.Named) (said : a.req.handler.Says env lex)
      (alone : Alone env (serve env a.req) w a.calls a.out w') :
      Attends env lex w₀ (log ++ [a]) w'

/-- What the book makes of them. -/
inductive Book.Follows (env : Env) (book₀ : Book) (began : Nat) :
    List Attendance → Nat → Book → Prop where
  | start : Book.Follows env book₀ began [] began book₀
  | next {log : List Attendance} {now ended : Nat} {book book' : Book} {a : Attendance}
      (run : Book.Follows env book₀ began log now book) (step : book.Step env a now ended book') :
      Book.Follows env book₀ began (log ++ [a]) ended book'

/-- From tables that mirror a book, every run is one of the book. -/
theorem accounts_follow_book (env : Env) (lex : Lexicon) (ideal : Distinguishes env lex)
    (w₀ w : World) (book₀ : Book) (mirrors : Mirrors env lex w₀ book₀) (log : List Attendance)
    (run : Attends env lex w₀ log w) :
    ∃ book, Book.Follows env book₀ w₀.clock log w.clock book ∧ Mirrors env lex w book := by
  induction run with
  | start => exact ⟨book₀, .start, mirrors⟩
  | next _ named said alone ih =>
    obtain ⟨book, follows, here⟩ := ih
    obtain ⟨_, book', step, there⟩ := (serve_follows ideal named said here).finishes alone
    exact ⟨book', .next follows step, there⟩

namespace Plain

def lexicon : Lexicon where
  passwords := {"hotelbaja24", "guess"}
  emails := {"ana@valle.mx"}

lemma distinguishes : Distinguishes digestEnv lexicon where
  keys := ⟨safeKeys, List.cons_ne_nil _ _⟩
  emails := Set.injOn_singleton _ _
  tokens := collisionFree
  passwords salt _ := by
    have differ : shortDigest "hotelbaja24" ≠ shortDigest "guess" := by decide +kernel
    rintro m (rfl | rfl) m' (rfl | rfl) same
    · rfl
    · exact absurd (Option.some.inj same) differ
    · exact absurd (Option.some.inj same).symm differ
    · rfl
  tags := fullTags
  works := fun _ _ _ => Option.some_ne_none _

lemma signUp_said : signUp.handler.Says digestEnv lexicon :=
  ⟨.inl rfl, (by decide +kernel : normalizeEmail digestEnv.unicode "ana@valle.mx" = _)⟩

lemma guess_said : (login "guess").handler.Says digestEnv lexicon :=
  ⟨.inr rfl, (by decide +kernel : normalizeEmail digestEnv.unicode "ana@valle.mx" = _)⟩

lemma newWorld_mirrors : Mirrors digestEnv lexicon newWorld [] where
  tokens := fun _ hs => absurd hs List.not_mem_nil
  dummy := .inl rfl
  rows := .nil
  apart := .nil
  drawn := by simp

/-- A login up to the count of its wrong password. -/
def mistake : List Choice := [{ now := 2 }, { now := 3 }, { now := 4 }]

end Plain

/-- A registration, and a login with a wrong password. -/
theorem accounts_follow_book_guess :
    ∃ log w, log.map (·.out.toBool) = [true, false] ∧
      w.users.map User.failedLoginAttempts = [1] ∧
      Attends Plain.digestEnv Plain.lexicon Plain.newWorld log w ∧
      ∃ book, Book.Follows Plain.digestEnv [] 0 log w.clock book ∧
        Mirrors Plain.digestEnv Plain.lexicon w book := by
  have first : ∃ h out w, Alone Plain.digestEnv (serve Plain.digestEnv Plain.signUp)
      Plain.newWorld h out w ∧ (decide (out.toBool = true) &&
        (feed (exec Plain.digestEnv) Plain.mistake
          (serve Plain.digestEnv (Plain.login "guess")) [] w).any fun end_ =>
            end_.1.outcome.any fun out => decide (out.toBool = false ∧
              end_.2.2.users.map User.failedLoginAttempts = [1])) = true :=
    finishes_of_feed Plain.signUpChoices (by simp [Healthy, Plain.signUpChoices, Plain.ivChoice])
      (by decide +kernel)
  obtain ⟨h, out, w, served, shown⟩ := first
  obtain ⟨accepted, shown⟩ := Bool.and_eq_true_iff.mp shown
  have second : ∃ h out w', Alone Plain.digestEnv (serve Plain.digestEnv (Plain.login "guess")) w h
      out w' ∧ decide (out.toBool = false ∧ w'.users.map User.failedLoginAttempts = [1]) = true :=
    finishes_of_feed Plain.mistake (by simp [Healthy, Plain.mistake]) shown
  obtain ⟨h', out', w', served', shown⟩ := second
  obtain ⟨refused, counted⟩ := of_decide_eq_true shown
  have one : Attends Plain.digestEnv Plain.lexicon Plain.newWorld
      ([] ++ [⟨Plain.signUp, h, out⟩]) w :=
    .next .start trivial Plain.signUp_said served
  have run : Attends Plain.digestEnv Plain.lexicon Plain.newWorld
      (([] ++ [⟨Plain.signUp, h, out⟩]) ++ [⟨Plain.login "guess", h', out'⟩]) w' :=
    .next one trivial Plain.guess_said served'
  refine ⟨_, w', by simp [of_decide_eq_true accepted, refused], counted, run, ?_⟩
  exact accounts_follow_book Plain.digestEnv Plain.lexicon Plain.distinguishes Plain.newWorld w' []
    Plain.newWorld_mirrors _ run

end BajaValle
