import BajaValle.Lib.SerialRuns
import BajaValle.Steps

/-!
# Calls of a program run alone

Inversions that also say why a call on the users fails, and the rules by which
a function of the service is followed from call to call.
-/

namespace BajaValle

open CallPrograms Prog SessionsService

variable {env : Env} {ch : Choice} {w w' : World}

/-- Calls fail only if that is admitted. -/
def Healthy (mayFail : Prop) (ch : Choice) : Prop := ch.fails = true → mayFail

/-- All runs of a program alone, from after the calls `h`. -/
abbrev Serial {α : Type} (env : Env) (mayFail : Prop) (I : List OwnCall → World → Prop)
    (post : List OwnCall → Except Failure α → World → Prop) (h : List OwnCall) (w : World)
    (p : Task α) : Prop :=
  Meets (exec env) (Healthy mayFail) I post h w p

/-- A run of one program alone to its end in which no call fails. -/
abbrev Alone {α : Type} (env : Env) (p : Task α) (w : World) (h : List OwnCall)
    (out : Except Failure α) (w' : World) : Prop :=
  Finishes (exec env) (Healthy False) p w h out w'

/-- What an update of a user comes to. -/
inductive UpdateStep (ch : Choice) (id : Uuid) (c : UserChanges) (w w' : World) :
    Except PrismaError User → Prop where
  | failed (fails : ch.fails = true) (users : w'.users = w.users) :
      UpdateStep ch id c w w' (.error .unavailable)
  | missing (works : ch.fails = false) (absent : w.users.find? (·.id = id) = none)
      (users : w'.users = w.users) :
      UpdateStep ch id c w w' (.error .recordNotFound)
  | taken (works : ch.fails = false) (u : User) (found : w.users.find? (·.id = id) = some u)
      (e : String)
      (changes : c.emailHash = some e) (held : w.emailTaken id e = true)
      (users : w'.users = w.users) : UpdateStep ch id c w w' (.error .uniqueViolation)
  | updated (works : ch.fails = false) (u : User) (found : w.users.find? (·.id = id) = some u)
      (free : ∀ e, c.emailHash = some e → w.emailTaken id e = false)
      (users : w'.users = w.users.map fun v => if v.id = id then c.apply ch.now v else v) :
      UpdateStep ch id c w w' (.ok (c.apply ch.now u))

lemma exec_userUpdate {id : Uuid} {c : UserChanges} {r : Except PrismaError User}
    (h : exec env ch (.userUpdate id c) w = some (r, w')) : UpdateStep ch id c w w' r := by
  obtain ⟨_, h⟩ := exec_eq_some.mp h
  simp only [answer, query_eq_some, Prod.mk.injEq] at h
  obtain ⟨fails, rfl, rfl⟩ | ⟨works, out⟩ := h
  · exact .failed fails rfl
  · unfold World.userUpdate at out
    split at out
    · rename_i absent
      obtain ⟨rfl, rfl⟩ := Prod.mk.inj out
      exact .missing works absent rfl
    · rename_i u found
      split_ifs at out with taken <;> obtain ⟨rfl, rfl⟩ := Prod.mk.inj out
      · cases changes : c.emailHash with
        | none => simp [changes] at taken
        | some e =>
          exact .taken works u found e changes
            (by simpa [changes, World.emailTaken] using taken) rfl
      · refine .updated works u found ?_ rfl
        intro e changes
        simpa [changes, World.emailTaken] using taken

/-- An update can always be answered. -/
lemma userUpdate_able {id : Uuid} {c : UserChanges} (later : w.clock ≤ ch.now) :
    ∃ r w', exec env ch (.userUpdate id c) w = some (r, w') := by
  by_cases fails : ch.fails = true
  · exact ⟨_, _, exec_eq_some.mpr ⟨later, query_eq_some.mpr (.inl ⟨fails, rfl⟩)⟩⟩
  · exact ⟨_, _, exec_eq_some.mpr ⟨later, query_eq_some.mpr (.inr ⟨by simpa using fails, rfl⟩)⟩⟩

/-- A short draw can be made in any world that is not ahead. -/
lemma randomBytes_able {n : Nat} {bytes : Bytes} {v : World}
    (h : exec env ch (.randomBytes n) w = some (bytes, w')) (short : n < UNIQUE_BYTES)
    (later : v.clock ≤ w.clock) : ∃ v', exec env ch (.randomBytes n) v = some (bytes, v') := by
  obtain ⟨now, h⟩ := exec_eq_some.mp h
  simp only [answer, Option.ite_none_right_eq_some, Option.some.injEq, Prod.mk.injEq] at h
  obtain ⟨⟨length, _⟩, rfl, _⟩ := h
  exact ⟨_, exec_eq_some.mpr ⟨Nat.le_trans later now, if_pos ⟨length, .inl short⟩⟩⟩

/-- What the creation of a user comes to. -/
inductive CreateStep (ch : Choice) (d : NewUser) (w w' : World) :
    Except PrismaError User → Prop where
  | failed (fails : ch.fails = true) (users : w'.users = w.users) :
      CreateStep ch d w w' (.error .unavailable)
  | taken (held : w.emailTaken ch.uuid d.emailHash = true) (users : w'.users = w.users) :
      CreateStep ch d w w' (.error .uniqueViolation)
  | created (free : w.emailTaken ch.uuid d.emailHash = false)
      (users : w'.users = w.users ++ [d.row ch.uuid ch.now]) :
      CreateStep ch d w w' (.ok (d.row ch.uuid ch.now))

lemma exec_userCreate {d : NewUser} {r : Except PrismaError User}
    (h : exec env ch (.userCreate d) w = some (r, w')) :
    ch.uuid ∉ w.uuids ∧ CreateStep ch d w w' r := by
  obtain ⟨_, h⟩ := exec_eq_some.mp h
  simp only [answer, insertion_eq_some, query_eq_some, Prod.mk.injEq] at h
  obtain ⟨unused, ⟨fails, rfl, rfl⟩ | ⟨_, out⟩⟩ := h
  · exact ⟨unused, .failed fails rfl⟩
  · unfold World.userCreate at out
    split_ifs at out with taken <;> obtain ⟨rfl, rfl⟩ := Prod.mk.inj out
    · exact ⟨unused, .taken taken rfl⟩
    · exact ⟨unused, .created (by simpa [World.emailTaken] using taken) rfl⟩

/-- What the deletion of a user comes to. -/
inductive DeleteStep (ch : Choice) (id : Uuid) (w w' : World) : Except PrismaError User → Prop where
  | failed (fails : ch.fails = true) (users : w'.users = w.users) :
      DeleteStep ch id w w' (.error .unavailable)
  | missing (absent : w.users.find? (·.id = id) = none) (users : w'.users = w.users) :
      DeleteStep ch id w w' (.error .recordNotFound)
  | deleted (u : User) (found : w.users.find? (·.id = id) = some u)
      (users : w'.users = w.users.filter (·.id ≠ id)) : DeleteStep ch id w w' (.ok u)

lemma exec_userDelete {id : Uuid} {r : Except PrismaError User}
    (h : exec env ch (.userDelete id) w = some (r, w')) : DeleteStep ch id w w' r := by
  obtain ⟨_, h⟩ := exec_eq_some.mp h
  simp only [answer, query_eq_some, Prod.mk.injEq] at h
  obtain ⟨fails, rfl, rfl⟩ | ⟨_, out⟩ := h
  · exact .failed fails rfl
  · unfold World.userDelete at out
    split at out
    · rename_i absent
      obtain ⟨rfl, rfl⟩ := Prod.mk.inj out
      exact .missing absent rfl
    · rename_i u found
      obtain ⟨rfl, rfl⟩ := Prod.mk.inj out
      exact .deleted u found rfl

/-- What the insertion of a session comes to. -/
inductive InsertStep (ch : Choice) (d : NewSession) (w w' : World) :
    Except PrismaError Session → Prop where
  | failed (fails : ch.fails = true) : InsertStep ch d w w' (.error .unavailable)
  | taken (s : Session) (mem : s ∈ w.sessions) (same : s.tokenHash = d.tokenHash) :
      InsertStep ch d w w' (.error .uniqueViolation)
  | orphan (absent : ∀ u ∈ w.users, u.id ≠ d.userId) :
      InsertStep ch d w w' (.error .foreignKeyViolation)
  | inserted (users : w'.users = w.users) (sessions : w'.sessions = w.sessions ++
      [d.row ch.uuid ch.now]) : InsertStep ch d w w' (.ok (d.row ch.uuid ch.now))

lemma exec_sessionCreate {d : NewSession} {r : Except PrismaError Session}
    (h : exec env ch (.sessionCreate d) w = some (r, w')) : InsertStep ch d w w' r := by
  obtain ⟨_, h⟩ := exec_eq_some.mp h
  simp only [answer, insertion_eq_some, query_eq_some, Prod.mk.injEq] at h
  obtain ⟨_, ⟨fails, rfl, rfl⟩ | ⟨_, out⟩⟩ := h
  · exact .failed fails
  · unfold World.sessionCreate at out
    split_ifs at out with taken orphan <;> obtain ⟨rfl, rfl⟩ := Prod.mk.inj out
    · obtain ⟨s, mem, same⟩ := List.any_eq_true.mp taken
      exact .taken s mem (by simpa using same)
    · exact .orphan (by simpa using orphan)
    · exact .inserted rfl rfl

/-- What a read of a user by email is, when it does not fail. -/
lemma exec_userFindByEmailHash {emailHash : String} {r : Except PrismaError (Option User)}
    (h : exec env ch (.userFindByEmailHash emailHash) w = some (r, w')) :
    w'.users = w.users ∧ ((ch.fails = true ∧ r = .error .unavailable) ∨
      r = .ok (w.users.find? (·.emailHash = emailHash))) := by
  refine ⟨(exec_readOnly h trivial).2, ?_⟩
  obtain ⟨_, h⟩ := exec_eq_some.mp h
  simp only [answer, query_eq_some, Prod.mk.injEq] at h
  rcases h with ⟨fails, rfl, _⟩ | ⟨_, rfl, _⟩
  · exact .inl ⟨fails, rfl⟩
  · exact .inr rfl

lemma exec_userFindById {id : Uuid} {r : Except PrismaError (Option User)}
    (h : exec env ch (.userFindById id) w = some (r, w')) :
    w'.users = w.users ∧ ((ch.fails = true ∧ r = .error .unavailable) ∨
      r = .ok (w.users.find? (·.id = id))) := by
  refine ⟨(exec_readOnly h trivial).2, ?_⟩
  obtain ⟨_, h⟩ := exec_eq_some.mp h
  simp only [answer, query_eq_some, Prod.mk.injEq] at h
  rcases h with ⟨fails, rfl, _⟩ | ⟨_, rfl, _⟩
  · exact .inl ⟨fails, rfl⟩
  · exact .inr rfl

/-- What a page of users is, when the read does not fail. -/
lemma exec_userFindMany {cursor : Option Uuid} {take : Nat} {r : Except PrismaError (List User)}
    (h : exec env ch (.userFindMany cursor take) w = some (r, w')) :
    w'.users = w.users ∧ ((ch.fails = true ∧ r = .error .unavailable) ∨
      r = .ok (w.userPage ch.emptyPage cursor take)) := by
  refine ⟨(exec_readOnly h trivial).2, ?_⟩
  obtain ⟨_, h⟩ := exec_eq_some.mp h
  simp only [answer, query_eq_some, Prod.mk.injEq] at h
  rcases h with ⟨fails, rfl, _⟩ | ⟨_, rfl, _⟩
  · exact .inl ⟨fails, rfl⟩
  · exact .inr rfl

/-- A call at a time that is not past is answered then. -/
lemma exec_at {now : Nat} (op : Op) (later : w.clock ≤ now) :
    exec env { now } op w = answer env { now } op { w with clock := now } :=
  if_neg (Nat.not_lt.mpr later)

lemma exec_now {now : Nat} (h : exec env ch .now w = some (now, w')) :
    w.clock ≤ now ∧ w'.clock = now := by
  obtain ⟨later, h⟩ := exec_eq_some.mp h
  obtain ⟨rfl, rfl⟩ := Prod.mk.inj (Option.some.inj h)
  exact ⟨later, rfl⟩

/-- The read of a refresh token, when it does not fail. -/
lemma exec_sessionFindByTokenHash {tokenHash : String}
    {r : Except PrismaError (Option (Session × User))} (healthy : Healthy False ch)
    (h : exec env ch (.sessionFindByTokenHash tokenHash) w = some (r, w')) :
    r = .ok ((w.sessions.find? (·.tokenHash = tokenHash)).bind w.withUser) := by
  obtain ⟨_, h⟩ := exec_eq_some.mp h
  simp only [answer, query_eq_some, Prod.mk.injEq] at h
  rcases h with ⟨fails, _⟩ | ⟨_, rfl, _⟩
  · exact (healthy fails).elim
  · rfl

lemma exec_sessionFindById {id : Uuid} {r : Except PrismaError (Option Session)}
    (healthy : Healthy False ch) (h : exec env ch (.sessionFindById id) w = some (r, w')) :
    r = .ok (w.sessions.find? (·.id = id)) := by
  obtain ⟨_, h⟩ := exec_eq_some.mp h
  simp only [answer, query_eq_some, Prod.mk.injEq] at h
  rcases h with ⟨fails, _⟩ | ⟨_, rfl, _⟩
  · exact (healthy fails).elim
  · rfl

/-- A bulk revocation, when it does not fail. -/
lemma exec_revocation {filter : SessionWhere} {r : Except PrismaError Nat}
    (healthy : Healthy False ch) (h : exec env ch (revocation filter) w = some (r, w')) :
    r = .ok (w.sessions.filter (filter.holds ch.now)).length ∧
      w'.sessions = revokeRows filter ch.now w.sessions := by
  obtain ⟨_, h⟩ := exec_eq_some.mp h
  simp only [revocation, answer, query_eq_some, Prod.mk.injEq] at h
  rcases h with ⟨fails, _⟩ | ⟨_, rfl, rfl⟩
  · exact (healthy fails).elim
  · exact ⟨rfl, rfl⟩

/-- A derivation that the choice does not make fail. -/
lemma exec_argon2_works {message : String} {nonce : Bytes} {params : Argon2Params}
    {r : Except Failure Bytes} (healthy : Healthy False ch)
    (h : exec env ch (.argon2 message nonce params) w = some (r, w')) :
    r = (env.argon2id message nonce params).elim (.error .argon2Error) .ok := by
  obtain ⟨_, h⟩ := exec_eq_some.mp h
  simp only [answer, if_neg healthy] at h
  exact (Prod.mk.inj (Option.some.inj h)).1.symm

/-- A derivation fails in one way. -/
lemma exec_argon2_fails {message : String} {nonce : Bytes} {params : Argon2Params} {e : Failure}
    (h : exec env ch (.argon2 message nonce params) w = some (.error e, w')) :
    e = .argon2Error := by
  obtain ⟨_, h⟩ := exec_eq_some.mp h
  simp only [answer] at h
  split at h
  · exact (Except.error.inj (Prod.mk.inj (Option.some.inj h)).1).symm
  · have out := (Prod.mk.inj (Option.some.inj h)).1
    cases derived : env.argon2id message nonce params with
    | none => simpa [derived] using out.symm
    | some value => simp [derived] at out

/-- Nothing but the clock, the draws and the dummy hash has moved since `w`. -/
structure Still (w w' : World) : Prop where
  users : w'.users = w.users
  sessions : w'.sessions = w.sessions
  draws : w.draws ⊆ w'.draws
  clock : w.clock ≤ w'.clock

lemma Still.refl (w : World) : Still w w := ⟨rfl, rfl, List.Subset.refl _, Nat.le_refl _⟩

lemma Still.exec {w₁ : World} {op : Op} {r : op.Res} (still : Still w w₁)
    (h : exec env ch op w₁ = some (r, w')) (reads : ReadOnly op) : Still w w' where
  users := (exec_readOnly h reads).2.trans still.users
  sessions := (exec_readOnly h reads).1.trans still.sessions
  draws := List.Subset.trans still.draws (exec_spends h).draws
  clock := Nat.le_trans still.clock ((exec_spends h).clock ▸ (exec_spends h).later)

/-- Ids once drawn stay drawn along a run. -/
lemma runs_uuids {α : Type} {allow : Choice → Prop} {p p' : Task α} {h h' : List OwnCall}
    (run : Runs (exec env) allow p h w p' h' w') : w.uuids ⊆ w'.uuids := by
  induction run with
  | stop p h w => exact List.Subset.refl _
  | call _ answered _ ih => exact List.Subset.trans (exec_spends answered).uuids ih

section Rules
variable {α β : Type} {mayFail : Prop} {I : List OwnCall → World → Prop} {h : List OwnCall}

lemma serial_perform {op : Op} {post : List OwnCall → Except Failure op.Res → World → Prop}
    (here : I h w) (answers : ∀ ch r w', Healthy mayFail ch → exec env ch op w = some (r, w') →
      I (⟨op, r⟩ :: h) w' ∧ post (⟨op, r⟩ :: h) (.ok r) w') :
    Serial env mayFail I post h w (perform op) :=
  ⟨here, answers⟩

lemma serial_ofExcept {post : List OwnCall → Except Failure α → World → Prop}
    {value : Except Failure α} (here : I h w) (ends : post h value w) :
    Serial env mayFail I post h w (Prog.ofExcept value) := by
  cases value <;> exact ⟨here, ends⟩

/-- Where a program only meets the ends it also makes its calls in order. -/
lemma serial_uses {kind : Op → Prop} {p : Task α}
    {post : List OwnCall → Except Failure α → World → Prop}
    (uses : p.Uses kind) (meets : Serial env mayFail (fun _ _ => True) post h w p) :
    Serial env mayFail (fun _ _ => True)
      (fun h' out w' => post h' out w' ∧ Extends kind h h' ∧ w.clock ≤ w'.clock) h w p := by
  have obeys : p.Obeys (fun _ op => kind op) (fun _ _ => True) h := uses_anywhere uses h
  have kept : Serial env mayFail (fun h' w' => Extends kind h h' ∧ w.clock ≤ w'.clock)
      (fun _ _ _ => True) h w p := by
    refine (meets_of_obeys obeys ⟨.refl kind h, Nat.le_refl _⟩ ?_).mono fun _ _ _ _ _ => trivial
    rintro h₁ w₁ ch op r w₂ hk _ answered ⟨ext, clock⟩
    have spends := exec_spends answered
    exact ⟨ext.cons hk, Nat.le_trans clock (spends.clock ▸ spends.later)⟩
  exact (meets.and kept).ends.mono fun _ _ _ _ both => ⟨both.2.1, both.1.2⟩

/-- What every call of a class keeps, a program of such calls keeps. -/
lemma serial_invariant {kind : Op → Prop} {p : Task α} {J : World → Prop} (uses : p.Uses kind)
    (here : J w)
      (step : ∀ ch op r w₁ w₂, kind op → exec env ch op w₁ = some (r, w₂) → J w₁ → J w₂) :
    Serial env mayFail (fun _ w' => J w') (fun _ _ w' => J w') h w p := by
  have obeys : p.Obeys (fun _ op => kind op) (fun _ _ => True) h := uses_anywhere uses h
  have kept : Serial env mayFail (fun _ w' => J w') (fun _ _ _ => True) h w p := by
    refine (meets_of_obeys obeys here ?_).mono fun _ _ _ _ _ => trivial
    exact fun _ w₁ ch op r w₂ used _ answered => step ch op r w₁ w₂ used answered
  exact kept.mono fun _ _ _ here _ => here

/-- An awaited query returns its value or raises its error. -/
lemma serial_await {post : List OwnCall → Except Failure β → World → Prop}
    {run : Task (Except PrismaError β)}
    (meets : Serial env mayFail I (fun h out w =>
      (∀ b, out = .ok (.ok b) → post h (.ok b) w) ∧
        (∀ e, out = .ok (.error e) → post h (.error (.prisma e)) w) ∧
          ∀ e, out = .error e → post h (.error e) w) h w run) :
    Serial env mayFail I post h w (await run) := by
  refine meets_bind (meets.mono ?_)
  rintro h out w here ⟨returned, raised, failed⟩
  refine ⟨?_, failed⟩
  rintro (e | b) rfl
  · exact ⟨here, raised e rfl⟩
  · exact ⟨here, returned b rfl⟩

end Rules

end BajaValle
