import BajaValle.Serial

/-!
# The hash kept for unknown users

Among requests that all log in, one starts the derivation of the hash. It alone
settles the promise, once, and everybody who waits is answered what it settled.
-/

namespace BajaValle

open CallPrograms Prog Interleaving AuthService

/-- What a call does to the kept hash. -/
inductive DummyStep (w w' : World) : OwnCall → Prop where
  | kept {k : OwnCall} (same : w'.dummyHash = w.dummyHash)
      (starts : k ≠ ⟨.dummyStart, true⟩) (settles : ∀ x, k ≠ ⟨.dummySettle x, ()⟩)
      (awaits : ∀ x, k ≠ ⟨.dummyAwait, x⟩) : DummyStep w w' k
  | started (unset : w.dummyHash = .unset) (pending : w'.dummyHash = .pending) :
      DummyStep w w' ⟨.dummyStart, true⟩
  | settled (x : Except Failure String) (now : w'.dummyHash = .settled x) :
      DummyStep w w' ⟨.dummySettle x, ()⟩
  | awaited (x : Except Failure String) (settled : w.dummyHash = .settled x)
      (same : w'.dummyHash = w.dummyHash) : DummyStep w w' ⟨.dummyAwait, x⟩

/-- The call has nothing to do with the kept hash. -/
def LeavesDummy : Op → Prop
  | .dummyStart | .dummySettle _ | .dummyAwait => False
  | _ => True

section Exec
variable {env : Env} {ch : Choice} {op : Op} {w w' : World} {r : op.Res}

lemma DummyStep.other (leaves : LeavesDummy op) (same : w'.dummyHash = w.dummyHash) :
    DummyStep w w' ⟨op, r⟩ := by
  refine .kept same ?_ ?_ ?_
  · rintro ⟨⟩
    exact leaves
  · rintro x ⟨⟩
    exact leaves
  · rintro x ⟨⟩
    exact leaves

lemma insertion_dummyHash {β : Type} {run : World → Except PrismaError β × World}
    {res : Except PrismaError β}
    (h : insertion ch { w with clock := ch.now } run = some (res, w'))
    (tables : ∀ v, TablesOnly v (run v).2) : w'.dummyHash = w.dummyHash := by
  obtain ⟨_, h⟩ := insertion_eq_some.mp h
  rcases query_eq_some.mp h with ⟨_, out⟩ | ⟨_, out⟩
  · obtain ⟨_, rfl⟩ := Prod.mk.inj out
    rfl
  · have same := (tables { w with clock := ch.now, uuids := ch.uuid :: w.uuids }).dummyHash
    rw [← out] at same
    exact same

theorem exec_dummyHash (h : exec env ch op w = some (r, w')) : DummyStep w w' ⟨op, r⟩ := by
  obtain ⟨_, h⟩ := exec_eq_some.mp h
  cases op with
  | dummyStart =>
    simp only [answer] at h
    split at h
    · rename_i unset
      obtain ⟨rfl, rfl⟩ := Prod.mk.inj (Option.some.inj h)
      exact .started unset rfl
    · obtain ⟨rfl, rfl⟩ := Prod.mk.inj (Option.some.inj h)
      exact .kept rfl (by simp) (by simp) (by simp)
  | dummySettle x =>
    simp only [answer, Option.some.injEq, Prod.mk.injEq] at h
    obtain ⟨_, rfl⟩ := h
    exact .settled x rfl
  | dummyAwait =>
    simp only [answer] at h
    split at h
    · rename_i x settled
      obtain ⟨rfl, rfl⟩ := Prod.mk.inj (Option.some.inj h)
      exact .awaited _ settled rfl
    · cases h
  | now | jwtSign | jwtVerify =>
    simp only [answer, Option.some.injEq, Prod.mk.injEq] at h
    obtain ⟨_, rfl⟩ := h
    exact .other trivial rfl
  | randomUUID | randomBytes =>
    simp only [answer, Option.ite_none_left_eq_some, Option.ite_none_right_eq_some,
      Option.some.injEq, Prod.mk.injEq] at h
    obtain ⟨_, _, rfl⟩ := h
    exact .other trivial rfl
  | argon2 =>
    simp only [answer] at h
    split at h <;>
      (obtain ⟨_, rfl⟩ := Prod.mk.inj (Option.some.inj h); exact .other trivial rfl)
  | userCreate =>
    simp only [answer] at h
    exact .other trivial (insertion_dummyHash h fun _ => userCreate_tablesOnly _ _ _)
  | sessionCreate =>
    simp only [answer] at h
    exact .other trivial (insertion_dummyHash h fun _ => sessionCreate_tablesOnly _ _ _)
  | userUpdate =>
    exact .other trivial (query_tablesOnly h (userUpdate_tablesOnly _ _ _)).dummyHash
  | userDelete =>
    exact .other trivial (query_tablesOnly h (userDelete_tablesOnly _ _)).dummyHash
  | sessionUpdateMany =>
    exact .other trivial (query_tablesOnly h ⟨rfl, rfl, rfl, rfl⟩).dummyHash
  | userFindByEmailHash | userFindById | userFindMany =>
    exact .other trivial (query_tablesOnly h (.refl _)).dummyHash
  | sessionFindByTokenHash | sessionFindById | sessionFindFirst =>
    exact .other trivial (query_tablesOnly h (.refl _)).dummyHash

end Exec

/-- The error that answered a derivation. -/
def derivationError : OwnCall → Option Failure
  | ⟨.argon2 _ _ _, .error e⟩ => some e
  | _ => none

/-- A derivation of the request failed with this. -/
def DerivationFailed (h : List OwnCall) (e : Failure) : Prop :=
  ∃ k ∈ h, derivationError k = some e

/-- Only the request that starts the derivation settles it, once, and rejects
it only with a failure of its own. -/
def DummyRule (h : List OwnCall) : Op → Prop
  | .dummySettle x => (⟨.dummyStart, true⟩ : OwnCall) ∈ h ∧
    (∀ y, (⟨.dummySettle y, ()⟩ : OwnCall) ∉ h) ∧ ∀ e, x = .error e → DerivationFailed h e
  | _ => True

def SettlesNot : Op → Prop
  | .dummySettle _ => False
  | _ => True

section Rule
variable {h : List OwnCall}

lemma SettlesNot.dummyRule {op : Op} (other : SettlesNot op) : DummyRule h op := by
  cases op <;> trivial

lemma GuardOp.settlesNot {op : Op} (guard : GuardOp op) : SettlesNot op := by
  cases op <;> trivial

lemma Derives.settlesNot {op : Op} (derives : Derives op) : SettlesNot op := by
  cases op <;> trivial

lemma LoginWrites.settlesNot {op : Op} (writes : LoginWrites op) : SettlesNot op := by
  cases op <;> trivial

lemma hash_concludes (password : String) :
    (PasswordService.hash password).Concludes (fun h' out =>
      ∀ e, out = .error e → DerivationFailed h' e) h := by
  intro salt
  rintro (e | derived)
  · rintro _ ⟨⟩
    exact ⟨_, List.mem_cons_self, rfl⟩
  · exact nofun

lemma startDummy_obeys (unsettled : ∀ y, (⟨.dummySettle y, ()⟩ : OwnCall) ∉ h) :
    PasswordService.startDummy.Obeys DummyRule (fun _ _ => True) h := by
  refine perform_bind_obeys trivial ?_
  rintro (_ | _)
  · trivial
  refine perform_bind_obeys trivial fun secret => ?_
  refine obeys_bind (obeys_concludes (uses_obeys (uses_attempt (hash_derives _))
    fun _ _ _ derives => derives.settlesNot.dummyRule) (concludes_attempt (hash_concludes _))) ?_
  rintro h' settled ⟨ext, ends⟩
  refine ⟨⟨ext.mem (by simp), fun y mem => ?_, ?_⟩, fun _ => trivial⟩
  · rcases ext.mem_or mem with old | derives
    · simp [unsettled] at old
    · exact derives
  · rintro e rfl
    obtain ⟨a, same, failed⟩ := ends
    obtain rfl := Except.ok.inj same
    exact failed e rfl

/-- A part that settles nothing, before the rest. -/
lemma dummyRule_bind {α β : Type} {p : Task α} {f : α → Task β}
    (unsettled : ∀ y, (⟨.dummySettle y, ()⟩ : OwnCall) ∉ h) (uses : p.Uses SettlesNot)
    (rest : ∀ h' a, (∀ y, (⟨.dummySettle y, ()⟩ : OwnCall) ∉ h') →
      (f a).Obeys DummyRule (fun _ _ => True) h') :
    (p >>= f).Obeys DummyRule (fun _ _ => True) h := by
  refine obeys_uses_bind uses (fun _ _ _ other => other.dummyRule) fun h' a ext => ?_
  refine rest h' a fun y mem => ?_
  rcases ext.mem_or mem with old | other
  · exact unsettled y old
  · exact other

lemma dummyRule_uses {α : Type} {p : Task α} (uses : p.Uses SettlesNot) :
    p.Obeys DummyRule (fun _ _ => True) h :=
  (uses_obeys uses fun _ _ _ other => other.dummyRule).mono (fun _ _ may => may)
    fun _ _ _ => trivial

lemma verifyAgainstDummy_obeys (password : String)
    (unsettled : ∀ y, (⟨.dummySettle y, ()⟩ : OwnCall) ∉ h) :
    (PasswordService.verifyAgainstDummy password).Obeys DummyRule (fun _ _ => True) h := by
  refine obeys_bind (startDummy_obeys unsettled) fun h' _ _ => dummyRule_uses ?_
  refine uses_bind (perform_uses trivial) fun _ => uses_bind (ofExcept_uses _) fun _ => ?_
  exact uses_bind ((verify_derives _ _).mono fun _ => Derives.settlesNot) fun _ => uses_ret _

lemma login_dummyRule (env : Env) (dto : LoginDto) (userAgent : Option String)
    (unsettled : ∀ y, (⟨.dummySettle y, ()⟩ : OwnCall) ∉ h) :
    (login env dto userAgent).Obeys DummyRule (fun _ _ => True) h := by
  have refused : ∀ h' : List OwnCall, (∀ y, (⟨.dummySettle y, ()⟩ : OwnCall) ∉ h') →
      ((do
        PasswordService.verifyAgainstDummy dto.password
        Prog.throw invalidCredentials : Task AuthResponse)).Obeys DummyRule (fun _ _ => True) h' :=
    fun h' unsettled => obeys_bind (verifyAgainstDummy_obeys _ unsettled) fun _ _ _ => trivial
  refine dummyRule_bind unsettled (await_uses (perform_uses trivial)) ?_
  rintro h₁ (_ | v) unsettled
  · exact refused h₁ unsettled
  have checks : (isLocked v).Uses SettlesNot := by
    unfold isLocked
    split
    · exact uses_ret _
    · exact uses_bind (perform_uses trivial) fun _ => uses_ret _
  refine dummyRule_bind unsettled checks ?_
  rintro h₂ (_ | _) unsettled
  · refine dummyRule_uses ?_
    refine uses_bind ((verify_derives _ _).mono fun _ => Derives.settlesNot) fun matched => ?_
    cases matched with
    | true => exact (acceptLogin_writes env _ _ _).mono fun _ => LoginWrites.settlesNot
    | false => exact uses_bind ((registerFailedLogin_writes _).mono fun _ =>
        LoginWrites.settlesNot) fun _ => uses_throw _
  · exact refused h₂ unsettled

lemma serve_dummyRule {env : Env} {req : Request} {dto : LoginDto}
    (logsIn : req.handler = .login dto) :
    (serve env req).Obeys DummyRule (fun _ _ => True) [] := by
  unfold serve handle
  rw [logsIn]
  refine dummyRule_bind (fun _ => List.not_mem_nil)
    ((guards_uses _ _).mono fun _ => GuardOp.settlesNot) fun h' user unsettled => ?_
  exact obeys_bind (login_dummyRule env dto _ unsettled) fun _ _ _ => trivial

end Rule

/-- What the calls so far have made of the kept hash. -/
structure DummyLog (state : DummyHash) (history : List ServerEvent) : Prop where
  unset : state = .unset → ∀ i, (⟨.dummyStart, true⟩ : OwnCall) ∉ own i history
  starter : ∀ i j, (⟨.dummyStart, true⟩ : OwnCall) ∈ own i history →
    (⟨.dummyStart, true⟩ : OwnCall) ∈ own j history → i = j
  settles : ∀ i x, (⟨.dummySettle x, ()⟩ : OwnCall) ∈ own i history →
    (⟨.dummyStart, true⟩ : OwnCall) ∈ own i history ∧ state = .settled x
  awaits : ∀ i x, (⟨.dummyAwait, x⟩ : OwnCall) ∈ own i history → state = .settled x
  origin : ∀ x, state = .settled x → ∃ i, (⟨.dummySettle x, ()⟩ : OwnCall) ∈ own i history ∧
    ∀ e, x = .error e → DerivationFailed (own i history) e

lemma DummyLog.start : DummyLog .unset [] where
  unset _ _ := List.not_mem_nil
  starter _ _ mem := absurd mem List.not_mem_nil
  settles _ _ mem := absurd mem List.not_mem_nil
  awaits _ _ mem := absurd mem List.not_mem_nil
  origin := nofun

section Log
variable {w w' : World} {history : List ServerEvent} {i : Nat} {ch : Choice} {k : OwnCall}

/-- What only the call `k` could have added is old if `k` is another call. -/
lemma old_call {j : Nat} {k' : OwnCall} (mem : k' ∈ own j (⟨i, ch, k⟩ :: history))
    (other : k ≠ k') : k' ∈ own j history := by
  rcases mem_own_cons.mp mem with ⟨_, same⟩ | old
  · exact absurd same.symm other
  · exact old

lemma new_call {j : Nat} {k' : OwnCall} (mem : k' ∈ own j history) :
    k' ∈ own j (⟨i, ch, k⟩ :: history) := mem_own_cons.mpr (.inr mem)

lemma DerivationFailed.later {j : Nat} {e : Failure} (failed : DerivationFailed (own j history) e) :
    DerivationFailed (own j (⟨i, ch, k⟩ :: history)) e := by
  obtain ⟨k', mem, failed⟩ := failed
  exact ⟨k', new_call mem, failed⟩

/-- Every call that obeys its rule keeps the log. -/
lemma DummyLog.step (log : DummyLog w.dummyHash history) (may : DummyRule (own i history) k.op)
    (step : DummyStep w w' k) : DummyLog w'.dummyHash (⟨i, ch, k⟩ :: history) := by
  cases step with
  | kept same starts settles awaits =>
    rw [same]
    refine ⟨?_, ?_, ?_, ?_, ?_⟩
    · exact fun unset j mem => log.unset unset j (old_call mem starts)
    · exact fun j j' mem mem' => log.starter j j' (old_call mem starts) (old_call mem' starts)
    · intro j x mem
      obtain ⟨started, settled⟩ := log.settles j x (old_call mem (settles x))
      exact ⟨new_call started, settled⟩
    · exact fun j x mem => log.awaits j x (old_call mem (awaits x))
    · intro x settled
      obtain ⟨j, mem, failed⟩ := log.origin x settled
      exact ⟨j, new_call mem, fun e rejected => (failed e rejected).later⟩
  | started unset pending =>
    have never : ∀ x, w.dummyHash ≠ .settled x := by simp [unset]
    rw [pending]
    refine ⟨by simp, ?_, ?_, ?_, by simp⟩
    · intro j j' mem mem'
      rcases mem_own_cons.mp mem with ⟨rfl, _⟩ | old
      · rcases mem_own_cons.mp mem' with ⟨rfl, _⟩ | old'
        · rfl
        · exact absurd old' (log.unset unset j')
      · exact absurd old (log.unset unset j)
    · exact fun j x mem => absurd (log.settles j x (old_call mem (by simp))).2 (never x)
    · exact fun j x mem => absurd (log.awaits j x (old_call mem (by simp))) (never x)
  | settled x now =>
    obtain ⟨started, once, fails⟩ := may
    have never : ∀ y, w.dummyHash ≠ .settled y := by
      intro y settled
      obtain ⟨j, mem, _⟩ := log.origin y settled
      obtain rfl := log.starter i j started (log.settles j y mem).1
      exact once y mem
    rw [now]
    refine ⟨by simp, ?_, ?_, ?_, ?_⟩
    · exact fun j j' mem mem' => log.starter j j' (old_call mem (by simp)) (old_call mem' (by simp))
    · intro j y mem
      rcases mem_own_cons.mp mem with ⟨rfl, same⟩ | old
      · cases same
        exact ⟨new_call started, rfl⟩
      · exact absurd (log.settles j y old).2 (never y)
    · exact fun j y mem => absurd (log.awaits j y (old_call mem (by simp))) (never y)
    · rintro _ ⟨⟩
      refine ⟨i, ?_, fun e rejected => ?_⟩
      · rw [own_cons_self]
        exact List.mem_cons_self
      · exact DerivationFailed.later (fails e rejected)
  | awaited x settled same =>
    rw [same]
    refine ⟨?_, ?_, ?_, ?_, ?_⟩
    · simp [settled]
    · exact fun j j' mem mem' => log.starter j j' (old_call mem (by simp)) (old_call mem' (by simp))
    · intro j y mem
      obtain ⟨started, settled⟩ := log.settles j y (old_call mem (by simp))
      exact ⟨new_call started, settled⟩
    · intro j y mem
      rcases mem_own_cons.mp mem with ⟨_, now⟩ | old
      · cases now
        exact settled
      · exact log.awaits j y old
    · intro y settled
      obtain ⟨j, mem, failed⟩ := log.origin y settled
      exact ⟨j, new_call mem, fun e rejected => (failed e rejected).later⟩

end Log

lemma derivationError_eq {env : Env} {reqs : Nat → Request} {w : World} {c : Server}
    (reached : Reachable env reqs w c) {i : Nat} {e : Failure}
    (failed : DerivationFailed (own i c.history) e) : e = .argon2Error := by
  obtain ⟨k, mem, failed⟩ := failed
  refine leads_answers (P := fun k => derivationError k = some e → e = .argon2Error) ?_ reached mem
    failed
  intro ch op w r w' answered failed
  cases op with
  | argon2 =>
    cases r with
    | ok => cases failed
    | error e' =>
      obtain rfl := Option.some.inj failed
      exact exec_argon2_fails answered
  | _ => cases failed

/-- In every run of logins from a process that has derived no hash yet. -/
theorem dummyLog {env : Env} {reqs : Nat → Request} {w : World} {c : Server}
    (logins : ∀ i, ∃ dto, (reqs i).handler = .login dto) (fresh : w.dummyHash = .unset)
    (reached : Reachable env reqs w c) : DummyLog c.world.dummyHash c.history := by
  have obeys : PoolObeys (fun _ => DummyRule) (fun _ _ _ => True) (boot env reqs w) := by
    intro i
    obtain ⟨dto, logsIn⟩ := logins i
    exact serve_dummyRule logsIn
  refine leads_world_invariant (I := fun w history => DummyLog w.dummyHash history) reached obeys
    ?_ ?_
  · rw [show (boot env reqs w).world.dummyHash = .unset from fresh]
    exact DummyLog.start
  · intro c i ch op r w' _ log may answered
    exact log.step may (exec_dummyHash answered)

end BajaValle
