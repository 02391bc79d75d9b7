import BajaValle.Lib.Lockout
import BajaValle.LoginAlone
import BajaValle.Progress

/-!
# Login attempts follow the lockout policy

Login attempts on one account, served one after another from a fresh row. The
two columns of the row are related to the policy's view of all attempts so far:
the counter is the streak, and the end of the lock, which may be stale, blocks
from now on exactly the times that some lock event blocks. Every attempt, also one
that is refused, comes to an end.
-/

namespace BajaValle

open CallPrograms Prog AuthService Lockout

/-- A login attempt on an account, as it was served. -/
structure LoginAttempt where
  password : String
  time : Nat
  before : World
  calls : List OwnCall
  outcome : Except Failure AuthResponse
  after : World

section Attempts
variable (env : Env) (emailHash : String)

def World.account (w : World) : Option User := w.users.find? (·.emailHash = emailHash)

/-- What the policy is told: the password is judged by the hash stored then, and
a lock is written by the last call of its attempt. -/
def LoginAttempt.seen (a : LoginAttempt) : Lockout.Attempt where
  time := a.time
  ended := a.after.clock
  verdict := (a.before.account emailHash).bind fun u =>
    PasswordService.verdict env u.passwordHash a.password

/-- The time of an attempt is the one at which it checks the lock. An attempt on
a row without a lock reads no clock; any time of it will do. -/
structure LoginAttempt.At (a : LoginAttempt) : Prop where
  spans : a.before.clock ≤ a.time ∧ a.time ≤ a.after.clock
  reads : ∀ now, (⟨.now, now⟩ : OwnCall) ∈ a.calls → a.time = now

/-- Attempts on the account one after another, the latest first. -/
inductive Attempts (w₀ : World) : List LoginAttempt → World → Prop where
  | fresh : Attempts w₀ [] w₀
  | attempt {log : List LoginAttempt} {a : LoginAttempt} (earlier : Attempts w₀ log a.before)
      (dto : LoginDto) (userAgent : Option String) (password : dto.password = a.password)
      (email : UsersService.emailHash env dto.email = emailHash) (time : a.At)
      (served : Alone env (login env dto userAgent) a.before a.calls a.outcome a.after) :
      Attempts w₀ (a :: log) a.after

def WINDOW : Nat := 15 * 60 * 1000

/-- The policy after these attempts. -/
def policyOf (log : List LoginAttempt) : Policy :=
  policy 5 WINDOW (log.map (LoginAttempt.seen env emailHash))

/-- The attempt is refused, with the hash kept for unknown users compared in
place of the stored one, and changes no counter. -/
structure LoginAttempt.Blocked (a : LoginAttempt) (u u' : User) : Prop where
  refused : ∃ e, a.outcome = .error e
  spared : DummyOnly a.calls
  counter : u'.failedLoginAttempts = u.failedLoginAttempts
  lock : u'.lockedUntil = u.lockedUntil

/-- The attempt does what the policy says. -/
structure AsPolicy (p : Policy) (a : LoginAttempt) (u u' : User) : Prop where
  before : a.before.account emailHash = some u
  after : a.after.account emailHash = some u'
  blocked_iff : a.Blocked u u' ↔ ∃ s ∈ p.locks, a.time < s + WINDOW
  compares : (∀ s ∈ p.locks, s + WINDOW ≤ a.time) → Compares u a.password a.calls
  accepted_iff : (∀ s ∈ p.locks, s + WINDOW ≤ a.time) →
    ((∃ response, a.outcome = .ok response) ↔
      PasswordService.Matches env u.passwordHash a.password)

/-- The attempt compared a wrong password with the stored hash. -/
def LoginAttempt.Wrong (a : LoginAttempt) : Prop :=
  ∃ u, a.before.account emailHash = some u ∧ Compares u a.password a.calls ∧
    PasswordService.verdict env u.passwordHash a.password = some false

/-- The columns of the row from the time `clock` on. -/
structure Tracks (clock : Nat) (u : User) (p : Policy) : Prop where
  streak : u.failedLoginAttempts = p.streak
  locked : ∀ t, clock ≤ t →
    ((∃ lockedUntil, u.lockedUntil = some lockedUntil ∧ t < lockedUntil) ↔ p.blocks WINDOW t = true)

end Attempts

section Steps
variable {env : Env} {emailHash : String} {a : LoginAttempt} {u u' : User} {p : Policy}

lemma Compares.not_blocked (compares : Compares u a.password a.calls) : ¬ a.Blocked u u' := by
  rintro ⟨_, ⟨⟨r, started⟩, _⟩, _⟩
  exact compares.own r started

/-- An attempt that finds the row free is not blocked by the policy. -/
lemma Tracks.free (tracks : Tracks a.before.clock u p) (time : a.At)
    (compares : Compares u a.password a.calls) : p.blocks WINDOW a.time = false := by
  by_contra blocked
  obtain ⟨lockedUntil, locked, early⟩ :=
    (tracks.locked a.time time.spans.1).mpr (by simpa using blocked)
  obtain ⟨now, reads, past⟩ := compares.free lockedUntil locked
  have := time.reads now reads
  omega

/-- The columns after an attempt are as the policy goes on. -/
lemma Tracks.next (tracks : Tracks a.before.clock u p) (below : p.streak < 5) (time : a.At)
    (before : a.before.account emailHash = some u)
    (served : Served env a.password u a.calls a.after u' a.outcome) :
    Tracks a.after.clock u' (p.next 5 WINDOW (a.seen env emailHash)) := by
  have seen : (a.seen env emailHash).verdict =
      PasswordService.verdict env u.passwordHash a.password := by
    simp [LoginAttempt.seen, before]
  have spans := Nat.le_trans time.spans.1 time.spans.2
  have lapsed : p.blocks WINDOW a.time = false → ∀ t, a.after.clock ≤ t →
      p.blocks WINDOW t = false := by
    intro free t late
    by_contra blocked
    have earlier := Policy.blocks_earlier (by simpa using blocked) (Nat.le_trans time.spans.2 late)
    rw [free] at earlier
    cases earlier
  have streak := tracks.streak
  cases ended : a.outcome with
  | ok response =>
    rw [ended] at served
    cases served with
    | accepted compares verdict zero unlocked =>
      have free := tracks.free time compares
      rw [next_unblocked free, seen, verdict]
      refine ⟨zero, fun t late => ?_⟩
      have never := lapsed free t late
      simpa [unlocked, Policy.blocks] using never
  | error e =>
    rw [ended] at served
    cases served with
    | blocked lockedUntil now locked reads early dummy row =>
      have blocked := (tracks.locked a.time time.spans.1).mp
        ⟨lockedUntil, locked, by rw [time.reads now reads]; exact early⟩
      rw [next_blocked blocked, row]
      exact ⟨streak, fun t late => tracks.locked t (Nat.le_trans spans late)⟩
    | failed compares verdict row =>
      rw [next_unblocked (tracks.free time compares), seen, verdict, row]
      exact ⟨streak, fun t late => tracks.locked t (Nat.le_trans spans late)⟩
    | wrong compares verdict counted =>
      have free := tracks.free time compares
      rw [next_unblocked free, seen, verdict]
      by_cases last : p.streak + 1 = 5
      · obtain ⟨zero, locked⟩ := counted.limit (by rw [streak, last]; exact Nat.le_refl _)
        simp only [last, if_true]
        refine ⟨zero, fun t late => ?_⟩
        have never := lapsed free t late
        have same : a.after.clock + LOCK_MS = (a.seen env emailHash).ended + WINDOW := rfl
        simp only [Policy.blocks] at never
        simp [locked, same, Policy.blocks, never]
      · obtain ⟨next, lock⟩ := counted.below (by rw [streak, MAX_FAILED_LOGINS]; omega)
        simp only [last, if_false]
        refine ⟨by simp [next, streak], fun t late => ?_⟩
        rw [lock]
        exact tracks.locked t (Nat.le_trans spans late)

/-- An attempt that starts as the policy has it does what the policy says. -/
lemma Tracks.asPolicy (tracks : Tracks a.before.clock u p) (time : a.At)
    (before : a.before.account emailHash = some u) (after : a.after.account emailHash = some u')
    (served : Served env a.password u a.calls a.after u' a.outcome) :
    AsPolicy env emailHash p a u u' := by
  have blocks : (∀ s ∈ p.locks, s + WINDOW ≤ a.time) → p.blocks WINDOW a.time = false := by
    intro past
    by_contra blocked
    obtain ⟨s, hs, early⟩ := blocks_iff.mp (by simpa using blocked)
    have := past s hs
    omega
  have unblocked : Compares u a.password a.calls → ¬ ∃ s ∈ p.locks, a.time < s + WINDOW := by
    intro compares blocked
    have free := tracks.free time compares
    rw [blocks_iff.mpr blocked] at free
    cases free
  cases ended : a.outcome with
  | ok response =>
    rw [ended] at served
    cases served with
    | accepted compares verdict =>
      have matched := PasswordService.verdict_true.mp verdict
      exact ⟨before, after, iff_of_false compares.not_blocked (unblocked compares),
        fun _ => compares,
        fun _ => iff_of_true ⟨response, ended⟩ matched⟩
  | error e =>
    have refused : ¬ ∃ response, a.outcome = .ok response := by simp [ended]
    rw [ended] at served
    cases served with
    | blocked lockedUntil now locked reads early dummy row =>
      have blocked := (tracks.locked a.time time.spans.1).mp
        ⟨lockedUntil, locked, by rw [time.reads now reads]; exact early⟩
      have spared : a.Blocked u u' := ⟨⟨e, ended⟩, dummy, by rw [row], by rw [row]⟩
      refine ⟨before, after, iff_of_true spared (blocks_iff.mp blocked), ?_, ?_⟩ <;>
        (intro past; rw [blocks past] at blocked; cases blocked)
    | failed compares verdict =>
      have mismatch : ¬ PasswordService.Matches env u.passwordHash a.password := by
        rw [← PasswordService.verdict_true, verdict]
        simp
      exact ⟨before, after, iff_of_false compares.not_blocked (unblocked compares),
        fun _ => compares,
        fun _ => iff_of_false refused mismatch⟩
    | wrong compares verdict =>
      have mismatch : ¬ PasswordService.Matches env u.passwordHash a.password := by
        rw [← PasswordService.verdict_true, verdict]
        simp
      exact ⟨before, after, iff_of_false compares.not_blocked (unblocked compares),
        fun _ => compares,
        fun _ => iff_of_false refused mismatch⟩

end Steps

section Runs
variable {env : Env} {emailHash : String} {w₀ w : World} {u₀ : User} {log : List LoginAttempt}

lemma policyOf_cons (a : LoginAttempt) (log : List LoginAttempt) :
    policyOf env emailHash (a :: log) =
      (policyOf env emailHash log).next 5 WINDOW (a.seen env emailHash) := rfl

lemma policyOf_streak (log : List LoginAttempt) : (policyOf env emailHash log).streak < 5 :=
  streak_lt (by decide) _

/-- What is known after a run of attempts. -/
structure Followed (env : Env) (emailHash : String) (log : List LoginAttempt) (w : World)
    (u : User) :
    Prop where
  account : Account env emailHash w u
  tracks : Tracks w.clock u (policyOf env emailHash log)
  each : ∀ a earlier, a :: earlier <:+ log →
    ∃ u u', AsPolicy env emailHash (policyOf env emailHash earlier) a u u'
  past : ∀ a ∈ log, a.after.clock ≤ w.clock
  sequential : Lockout.Sequential (log.map (LoginAttempt.seen env emailHash))

/-- The row of a fresh account. -/
structure FreshAccount (env : Env) (emailHash : String) (w : World) (u : User) : Prop
    extends Account env emailHash w u where
  zero : u.failedLoginAttempts = 0
  unlocked : u.lockedUntil = none

lemma Attempts.followed (collisionFree : CollisionFree env) (works : Argon2Works env)
    (fresh : FreshAccount env emailHash w₀ u₀) (run : Attempts env emailHash w₀ log w) :
    ∃ u, Followed env emailHash log w u := by
  induction run with
  | fresh =>
    refine ⟨u₀, fresh.toAccount, ⟨fresh.zero, ?_⟩, by simp, by simp, by simp [Lockout.Sequential]⟩
    simp [fresh.unlocked, policyOf, policy, Policy.blocks]
  | @attempt log a earlier dto userAgent password email time served ih =>
    obtain ⟨u, account, tracks, each, past, ordered, before⟩ := ih
    have spec := (login_alone collisionFree works (email ▸ account)).finishes served
    obtain ⟨_, u', account', ended⟩ := spec
    rw [password] at ended
    rw [email] at account'
    have now := Nat.le_trans time.spans.1 time.spans.2
    refine ⟨u', account', ?_, ?_, ?_, ?_, ?_⟩
    · rw [policyOf_cons]
      exact tracks.next (policyOf_streak log) time account.byEmail ended
    · intro b earlier' suffix
      rcases List.suffix_cons_iff.mp suffix with same | older
      · obtain ⟨rfl, rfl⟩ := List.cons.inj same
        exact ⟨u, u', tracks.asPolicy time account.byEmail account'.byEmail ended⟩
      · exact each b earlier' older
    · intro b hb
      rcases List.mem_cons.mp hb with rfl | hb
      · exact Nat.le_refl _
      · exact Nat.le_trans (past b hb) now
    · intro b hb
      rcases List.mem_cons.mp hb with rfl | hb
      · exact time.spans.2
      · exact ordered b hb
    · refine List.pairwise_cons.mpr ⟨?_, before⟩
      intro b hb
      obtain ⟨c, hc, rfl⟩ := List.mem_map.mp hb
      exact Nat.le_trans (past c hc) time.spans.1

/-- The attempts that compared a wrong password are the policy's unblocked ones. -/
lemma wrong_unblocked
    (each : ∀ a earlier, a :: earlier <:+ log →
      ∃ u u', AsPolicy env emailHash (policyOf env emailHash earlier) a u u')
    {sub : List LoginAttempt} (sublist : sub.Sublist log)
      (wrong : ∀ a ∈ sub, a.Wrong env emailHash) :
    (sub.map (LoginAttempt.seen env emailHash)).Sublist
      (unblocked 5 WINDOW false (log.map (LoginAttempt.seen env emailHash))) := by
  induction log generalizing sub with
  | nil =>
    rw [List.sublist_nil.mp sublist]
    exact List.Sublist.refl _
  | cons a earlier ih =>
    have earliest : ∀ b earlier', b :: earlier' <:+ earlier →
        ∃ u u', AsPolicy env emailHash (policyOf env emailHash earlier') b u u' :=
      fun b earlier' suffix => each b earlier' (suffix.trans (List.suffix_cons _ _))
    have skips : (unblocked 5 WINDOW false (earlier.map (LoginAttempt.seen env emailHash))).Sublist
        (unblocked 5 WINDOW false ((a :: earlier).map (LoginAttempt.seen env emailHash))) := by
      rw [List.map_cons, unblocked]
      split
      · exact List.sublist_cons_self _ _
      · exact List.Sublist.refl _
    cases sublist with
    | cons _ rest => exact (ih earliest rest wrong).trans skips
    | @cons_cons sub _ _ rest =>
      obtain ⟨v, before, compares, verdict⟩ := wrong a List.mem_cons_self
      obtain ⟨u, u', follows⟩ := each a earlier (List.suffix_refl _)
      obtain rfl := Option.some.inj (follows.before.symm.trans before)
      have free : ¬ (policy 5 WINDOW (earlier.map (LoginAttempt.seen env emailHash))).blocks WINDOW
          (a.seen env emailHash).time = true := by
        intro blocked
        exact compares.not_blocked (follows.blocked_iff.mpr (blocks_iff.mp blocked))
      have seen : (a.seen env emailHash).verdict = some false := by
        simp [LoginAttempt.seen, before, verdict]
      rw [List.map_cons, List.map_cons, unblocked, if_pos ⟨free, seen⟩]
      exact (ih earliest rest fun b hb => wrong b (List.mem_cons_of_mem _ hb)).cons_cons _

/-- What the policy accepts was accepted. -/
lemma accepted_unblocked
    (each : ∀ a earlier, a :: earlier <:+ log →
      ∃ u u', AsPolicy env emailHash (policyOf env emailHash earlier) a u u')
    {x : Lockout.Attempt}
    (mem : x ∈ unblocked 5 WINDOW true (log.map (LoginAttempt.seen env emailHash))) :
    ∃ a ∈ log, (∃ response, a.outcome = .ok response) ∧ a.time = x.time := by
  induction log with
  | nil => cases mem
  | cons a earlier ih =>
    have older := ih fun b earlier' suffix => each b earlier' (suffix.trans (List.suffix_cons _ _))
    rw [List.map_cons, unblocked] at mem
    split at mem
    · rename_i accepted
      rcases List.mem_cons.mp mem with rfl | mem
      · obtain ⟨free, verdict⟩ := accepted
        obtain ⟨u, u', follows⟩ := each a earlier (List.suffix_refl _)
        have past : ∀ s ∈ (policyOf env emailHash earlier).locks, s + WINDOW ≤ a.time := by
          intro s hs
          by_contra early
          exact free (blocks_iff.mpr ⟨s, hs, Nat.lt_of_not_le early⟩)
        have matched : PasswordService.Matches env u.passwordHash a.password := by
          rw [← PasswordService.verdict_true]
          simpa [LoginAttempt.seen, follows.before] using verdict
        exact ⟨a, List.mem_cons_self, (follows.accepted_iff past).mpr matched, rfl⟩
      · obtain ⟨b, hb, accepted⟩ := older mem
        exact ⟨b, List.mem_cons_of_mem _ hb, accepted⟩
    · obtain ⟨b, hb, accepted⟩ := older mem
      exact ⟨b, List.mem_cons_of_mem _ hb, accepted⟩

/-- Nobody is left deriving the hash kept for unknown users. -/
lemma Attempts.idle (idle : w₀.dummyHash ≠ .pending) (run : Attempts env emailHash w₀ log w) :
    w.dummyHash ≠ .pending := by
  induction run with
  | fresh => exact idle
  | attempt _ dto userAgent _ _ _ served ih =>
    exact (login_waits dto userAgent kept_nil).leaves_idle ih served

variable (env) in
/-- A login comes to an end at any time to come. -/
lemma login_finishes (dto : LoginDto) (userAgent : Option String) {time : Nat}
    (idle : w.dummyHash ≠ .pending) (later : w.clock ≤ time)
    (room : w.draws.length + MAX_CALLS ≤ 256 ^ UNIQUE_BYTES) :
    ∃ h out w', Alone env (login env dto userAgent) w h out w' ∧
      LoginAttempt.At ⟨dto.password, time, w, h, out, w'⟩ := by
  have waits : Waits MAX_CALLS (login env dto userAgent) [] :=
    (login_waits dto userAgent kept_nil).mono (by decide)
  obtain ⟨p', h, w', run, ended, ends, reads⟩ :=
    waits.finishes env (awaited_lone_nil idle) later room
  obtain ⟨out, ended⟩ := Option.ne_none_iff_exists'.mp ended
  refine ⟨h, out, w', ⟨p', run, ended⟩, ⟨later, ?_⟩, fun now mem => ?_⟩
  · rcases ends with same | ⟨rfl, _⟩
    · exact Nat.le_of_eq same.symm
    · cases ended
  · exact ((reads now mem).resolve_left List.not_mem_nil).symm

end Runs

/-- Every attempt on a fresh account does what the policy says of the attempts
before it, and no half-open interval of fifteen minutes without an accepted
login has more than five comparisons of a wrong password. A further attempt comes to
an end whenever it is made, and then does what the policy says. -/
theorem login_follows_policy (env : Env) (collisionFree : CollisionFree env)
    (works : Argon2Works env) (emailHash : String) (w₀ : World) (u₀ : User)
    (fresh : FreshAccount env emailHash w₀ u₀) (log : List LoginAttempt) (w : World)
    (run : Attempts env emailHash w₀ log w) :
    (∀ a earlier, a :: earlier <:+ log →
      ∃ u u', AsPolicy env emailHash (policyOf env emailHash earlier) a u u') ∧
    (∀ start, (∀ a ∈ log, (∃ response, a.outcome = .ok response) → ¬ Within WINDOW start a.time) →
      ∀ sub, List.Sublist sub log →
        (∀ a ∈ sub, a.Wrong env emailHash ∧ Within WINDOW start a.time) →
        sub.length ≤ 5) ∧
    (w₀.dummyHash ≠ .pending → w.draws.length + MAX_CALLS ≤ 256 ^ UNIQUE_BYTES →
      ∀ (dto : LoginDto) (userAgent : Option String) (time : Nat),
        UsersService.emailHash env dto.email = emailHash → w.clock ≤ time →
        ∃ a : LoginAttempt, a.password = dto.password ∧ a.time = time ∧ a.before = w ∧ a.At ∧
          Alone env (login env dto userAgent) w a.calls a.outcome a.after ∧
          ∃ u u', AsPolicy env emailHash (policyOf env emailHash log) a u u') := by
  obtain ⟨u, followed⟩ := run.followed collisionFree works fresh
  refine ⟨followed.each, fun start unaccepted sub sublist wrong => ?_, ?_⟩
  rotate_left
  · intro idle room dto userAgent time email later
    obtain ⟨h, out, w', served, spans⟩ :=
      login_finishes env dto userAgent (run.idle idle) later room
    obtain ⟨_, further⟩ := Attempts.followed collisionFree works fresh
      (.attempt (a := ⟨dto.password, time, w, h, out, w'⟩) run dto userAgent rfl email spans served)
    exact ⟨_, rfl, rfl, rfl, spans, served, further.each _ log (List.suffix_refl _)⟩
  have seen := wrong_unblocked followed.each sublist fun a ha => (wrong a ha).1
  have times : ∀ x ∈ unblocked 5 WINDOW true (log.map (LoginAttempt.seen env emailHash)),
      ¬ Within WINDOW start x.time := by
    intro x hx
    obtain ⟨a, ha, accepted, same⟩ := accepted_unblocked followed.each hx
    exact same ▸ unaccepted a ha accepted
  have all : (sub.map (LoginAttempt.seen env emailHash)).countP
      (fun x => Within WINDOW start x.time) = sub.length := by
    rw [List.countP_eq_length.mpr, List.length_map]
    intro x hx
    obtain ⟨a, ha, rfl⟩ := List.mem_map.mp hx
    exact decide_eq_true (wrong a ha).2
  rw [← all]
  exact Nat.le_trans (seen.countP_le) (wrong_le (by decide) followed.sequential start times)

namespace Plain

def emailHash : String := UsersService.emailHash env "ana@valle.mx"

lemma freshAccount : FreshAccount env emailHash world user where
  byEmail := by simp [world, user, emailHash]
  byId := by simp [world]
  profile := by
    have deciphers : (UsersService.toProfile env user).toBool = true := by decide +kernel
    cases read : UsersService.toProfile env user with
    | ok p => exact ⟨p, rfl⟩
    | error e => simp [read, Except.toBool] at deciphers
  tokens s hs := absurd hs List.not_mem_nil
  zero := rfl
  unlocked := rfl

/-- The clock is read at the time of the attempt only. -/
def timely (a : LoginAttempt) : Bool :=
  decide (a.before.clock ≤ a.time ∧ a.time ≤ a.after.clock) && a.calls.all fun k =>
    match k with
    | ⟨.now, now⟩ => decide (a.time = now)
    | _ => true

lemma at_of_timely {a : LoginAttempt} (h : timely a = true) : a.At := by
  obtain ⟨spans, reads⟩ := Bool.and_eq_true_iff.mp h
  exact ⟨of_decide_eq_true spans, fun now mem =>
    of_decide_eq_true (List.all_eq_true.mp reads _ mem)⟩

/-- Attempts one after another: a password, its time and the choices of its calls. -/
def attempts : List (String × Nat × List Choice) → List LoginAttempt → World →
    Option (List LoginAttempt × World)
  | [], log, w => some (log, w)
  | (password, time, choices) :: rest, log, w =>
    (feed (exec env) choices (AuthService.login env ⟨"ana@valle.mx", password⟩ none) [] w).bind
      fun end_ =>
      end_.1.outcome.bind fun out =>
        let a : LoginAttempt := ⟨password, time, w, end_.2.1, out, end_.2.2⟩
        if timely a && choices.all (!·.fails) then attempts rest (a :: log) a.after else none

lemma attempts_run {tries : List (String × Nat × List Choice)} {log log' : List LoginAttempt}
    {w₀ w w' : World} (earlier : Attempts env emailHash w₀ log w)
    (made : attempts tries log w = some (log', w')) : Attempts env emailHash w₀ log' w' := by
  induction tries generalizing log w with
  | nil =>
    obtain ⟨rfl, rfl⟩ := Prod.mk.inj (Option.some.inj made)
    exact earlier
  | cons try_ rest ih =>
    obtain ⟨password, time, choices⟩ := try_
    obtain ⟨end_, fed, made⟩ := Option.bind_eq_some_iff.mp made
    obtain ⟨out, ended, made⟩ := Option.bind_eq_some_iff.mp made
    obtain ⟨allowed, made⟩ := Option.ite_none_right_eq_some.mp made
    obtain ⟨inTime, works⟩ := Bool.and_eq_true_iff.mp allowed
    have healthy : ∀ ch ∈ choices, Healthy False ch := by
      intro ch hch fails
      have sound := List.all_eq_true.mp works ch hch
      simp [fails] at sound
    exact ih (.attempt earlier ⟨"ana@valle.mx", password⟩ none rfl rfl (at_of_timely inTime)
      ⟨_, runs_of_feed fed healthy, ended⟩) made

def guess (start : Nat) : String × Nat × List Choice :=
  ("guess", start, [{ now := start }, { now := start + 1 }, { now := start + 2 }])

/-- Five guesses, the right password during the lock and again as soon as it is over. -/
def lockedOut : List (String × Nat × List Choice) :=
  [guess 1, guess 4, guess 7, guess 10,
    ("guess", 13, [{ now := 13 }, { now := 14 }, { now := 15 }, { now := 16 }]),
    ("secret", 18, [{ now := 17 }, { now := 18 }, { now := 19 }, { now := 20, bytes := bytes 7 },
      { now := 21, bytes := List.replicate 16 7 }, { now := 22 }, { now := 23 }, { now := 24 },
      { now := 25 }]),
    ("secret", 900016, [{ now := 900015 }, { now := 900016 }, { now := 900017 }, { now := 900018 },
      { now := 900019, uuid := 5 }, { now := 900020, bytes := bytes 1 },
      { now := 900021, uuid := 6 }, { now := 900022 }])]

end Plain

/-- The right password is refused during the lock that five guesses set, and accepted
when it ends; and a further attempt ends too. -/
theorem login_follows_policy_locked :
    ∃ log w, Attempts Plain.env Plain.emailHash Plain.world log w ∧
      log.map (·.outcome.toBool) = [true, false, false, false, false, false, false] ∧
      (∀ a earlier, a :: earlier <:+ log → ∃ u u', AsPolicy Plain.env Plain.emailHash
        (policyOf Plain.env Plain.emailHash earlier) a u u') ∧
      (∃ a earlier u u', a :: earlier <:+ log ∧ a.password = "secret" ∧ a.Blocked u u') ∧
      ∃ a : LoginAttempt, a.before = w ∧ a.time = 900022 ∧ a.At ∧ Alone Plain.env
        (login Plain.env ⟨"ana@valle.mx", "secret"⟩ none) w a.calls a.outcome a.after := by
  have shown : (Plain.attempts Plain.lockedOut [] Plain.world).any (fun end_ => decide
      (end_.1.map (·.outcome.toBool) = [true, false, false, false, false, false, false] ∧
        end_.2.clock = 900022 ∧ end_.2.draws.length = 3) &&
      end_.1[1]?.any fun a => decide (a.password = "secret") &&
        (policyOf Plain.env Plain.emailHash (end_.1.drop 2)).blocks WINDOW a.time) = true := by
    decide +kernel
  obtain ⟨⟨log, w⟩, made, shown⟩ := (Option.any_eq_true _ _).mp shown
  obtain ⟨outcomes, refused⟩ := Bool.and_eq_true_iff.mp shown
  obtain ⟨outcomes, clock, drawn⟩ := of_decide_eq_true outcomes
  have run := Plain.attempts_run .fresh made
  obtain ⟨follows, -, further⟩ := login_follows_policy Plain.env Plain.collisionFree
    (fun _ _ _ => Option.some_ne_none _) Plain.emailHash Plain.world Plain.user Plain.freshAccount
    log w run
  refine ⟨log, w, run, outcomes, follows, ?_, ?_⟩
  · rcases log with _ | ⟨b, _ | ⟨a, earlier⟩⟩
    · cases refused
    · cases refused
    obtain ⟨right, blocked⟩ := Bool.and_eq_true_iff.mp refused
    obtain ⟨u, u', policy⟩ := follows a earlier (List.suffix_cons _ _)
    exact ⟨a, earlier, u, u', List.suffix_cons _ _, of_decide_eq_true right,
      policy.blocked_iff.mpr (blocks_iff.mp blocked)⟩
  · obtain ⟨a, -, time, before, spans, served, -⟩ := further (by simp [Plain.world])
      (by dsimp only at drawn; rw [drawn]; decide) ⟨"ana@valle.mx", "secret"⟩ none 900022 rfl
      (Nat.le_of_eq clock)
    exact ⟨a, before, time, spans, served⟩

end BajaValle
