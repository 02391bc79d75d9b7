import BajaValle.Steps
import BajaValle.Throttling
import Mathlib.Data.List.Perm.Subperm

/-!
# What the rate limits bound

The storage is told of every increment once and in the order of time. So the
requests that are let through within the time of a throttler are at most its limit
for each tracker, and the requests of one address use as many trackers as they
carry accepted accounts, and the address itself.
-/

namespace BajaValle

open CallPrograms Prog Interleaving

abbrev GateEvent := Event Nat Choice GateOp GateOp.Res

section Counting
variable {Cell : Type} (storage : ThrottlerStorage Cell) (x : Increment)

/-- The answers that a counter has given so far, latest first, and its cell. -/
inductive Tally : List (Nat × StorageRecord) → Option Cell → Prop where
  | fresh : Tally [] none
  | hit {log : List (Nat × StorageRecord)} {cell : Option Cell} (now : Nat)
      (earlier : Tally log cell) (later : ∀ answer ∈ log, answer.1 ≤ now) :
      Tally ((now, (storage.increment now x cell).1) :: log)
        (some (storage.increment now x cell).2)

/-- An unblocked answer in the window that starts then and lasts for `ttl`. -/
def LetIn (ttl begins : Nat) (answer : Nat × StorageRecord) : Bool :=
  !answer.2.isBlocked && begins ≤ answer.1 && answer.1 < begins + ttl

/-- The storage lets through at most `limit` hits on a key in any `ttl` window. -/
def ThrottlerStorage.KeepsLimits : Prop :=
  ∀ x log cell, Tally storage x log cell → ∀ begins, log.countP (LetIn x.ttl begins) ≤ x.limit

/-- The answer of an event that hits the counter. -/
def hitOf (e : GateEvent) : Option (Nat × StorageRecord) :=
  match e.call with
  | ⟨.hit x', r⟩ => if x' = x then some (e.choice.now, r) else none
  | ⟨.call _, _⟩ => none

def hitsOn (history : List GateEvent) : List (Nat × StorageRecord) := history.filterMap (hitOf x)

end Counting

/-- What a throttler of these limits may be asked to increment. -/
def IsIncrement (limits : RateLimitEnv) (x : Increment) : Prop :=
  ∃ t ∈ RateLimit.buildThrottlers limits, ∃ tracker, x = AppThrottlerGuard.increment tracker t

/-- What the calls so far have made of the counters and of the requests. -/
structure GateLog {Cell : Type} (storage : ThrottlerStorage Cell) (limits : RateLimitEnv)
    (arrivals : Nat → Arrival) (g : Gate Cell) (history : List GateEvent) : Prop where
  tally : ∀ x, IsIncrement limits x → Tally storage x (hitsOn x history) (g.counters x.key)
  times : ∀ e ∈ history, e.choice.now ≤ g.world.clock
  counted : ∀ i x r, (⟨.hit x, r⟩ : GateCall) ∈ own i history →
    ∃ user, Passed (arrivals i).request (worldCalls (own i history)) user ∧
      x ∈ AppThrottlerGuard.increments limits (trackerOf (arrivals i) user)
        (arrivals i).request.handler.route
  once : ∀ i x r r', (⟨.hit x, r⟩ : GateCall) ∈ own i history →
    (⟨.hit x, r'⟩ : GateCall) ∈ own i history → r = r'
  handled : ∀ i op r, (⟨.call op, r⟩ : GateCall) ∈ own i history → ¬ GuardOp op →
    LetThrough limits (arrivals i) (own i history)

section Log
variable {Cell : Type} {storage : ThrottlerStorage Cell} {limits : RateLimitEnv}
  {arrivals : Nat → Arrival} {g g' : Gate Cell} {history : List GateEvent} {env : Env}
  {ch : Choice} {i : Nat}

lemma GateLog.start (w : World) : GateLog storage limits arrivals ⟨w, fun _ => none⟩ [] where
  tally _ _ := .fresh
  times _ mem := absurd mem List.not_mem_nil
  counted _ _ _ mem := absurd mem List.not_mem_nil
  once _ _ _ _ mem := absurd mem List.not_mem_nil
  handled _ _ _ mem := absurd mem List.not_mem_nil

lemma isIncrement_of_mem {x : Increment} {tracker : String} {route : Route}
    (mem : x ∈ AppThrottlerGuard.increments limits tracker route) : IsIncrement limits x := by
  obtain ⟨t, ht, rfl⟩ := List.mem_map.mp mem
  exact ⟨t, (List.mem_filter.mp ht).1, tracker, rfl⟩

/-- A key is hit by one increment only. -/
lemma isIncrement_key {x x' : Increment} (hx : IsIncrement limits x) (hx' : IsIncrement limits x')
    (same : x.key = x'.key) : x = x' := by
  obtain ⟨t, ht, tracker, rfl⟩ := hx
  obtain ⟨t', ht', tracker', rfl⟩ := hx'
  obtain ⟨rfl, rfl⟩ := RateLimit.generateKey_injective ht ht' same
  rfl

lemma own_grows (e : GateEvent) (i : Nat) :
    ∃ new, own i (e :: history) = new ++ own i history := by
  obtain ⟨who, ch, k⟩ := e
  by_cases mine : who = i
  · subst mine
    exact ⟨[k], own_cons_self _ _ _ _⟩
  · exact ⟨[], own_cons_other mine _ _ _⟩

lemma LetThrough.grow {a : Arrival} {e : GateEvent} (passed : LetThrough limits a (own i history)) :
    LetThrough limits a (own i (e :: history)) := by
  obtain ⟨new, grown⟩ := own_grows e i
  rw [grown]
  exact passed.append new

lemma passed_grow {req : Request} {user : Option AuthUser} {e : GateEvent}
    (passed : Passed req (worldCalls (own i history)) user) :
    Passed req (worldCalls (own i (e :: history))) user := by
  obtain ⟨new, grown⟩ := own_grows e i
  rw [grown, worldCalls, List.filterMap_append]
  exact passed.append _

lemma gateExec_call {op : Op} {r : op.Res}
    (h : gateExec env storage ch (.call op) g = some (r, g')) :
    g'.counters = g.counters ∧ exec env ch op g.world = some (r, g'.world) := by
  obtain ⟨⟨_, w'⟩, answered, same⟩ := Option.map_eq_some_iff.mp h
  obtain ⟨rfl, rfl⟩ := Prod.mk.inj same
  exact ⟨rfl, answered⟩

lemma gateExec_hit {x : Increment} {r : StorageRecord}
    (h : gateExec env storage ch (.hit x) g = some (r, g')) :
    g.world.clock ≤ ch.now ∧ g'.world.clock = ch.now ∧
      r = (storage.increment ch.now x (g.counters x.key)).1 ∧
      g'.counters = Function.update g.counters x.key
        (some (storage.increment ch.now x (g.counters x.key)).2) := by
  simp only [gateExec, Option.ite_none_left_eq_some, Option.some.injEq, Prod.mk.injEq] at h
  obtain ⟨later, rfl, rfl⟩ := h
  exact ⟨Nat.le_of_not_lt later, rfl, rfl, rfl⟩

/-- The clock follows the choices. -/
lemma gateExec_clock {op : GateOp} {r : op.Res} (h : gateExec env storage ch op g = some (r, g')) :
    g.world.clock ≤ ch.now ∧ g'.world.clock = ch.now := by
  cases op with
  | call op =>
    have spends := exec_spends (gateExec_call h).2
    exact ⟨spends.later, spends.clock⟩
  | hit x => exact ⟨(gateExec_hit h).1, (gateExec_hit h).2.1⟩

/-- A call to the world keeps the counters, a hit adds its answer to its own. -/
lemma GateLog.tally_step {op : GateOp} {r : op.Res}
    (log : GateLog storage limits arrivals g history)
    (may : GateMay limits (arrivals i) (own i history) op)
    (answered : gateExec env storage ch op g = some (r, g')) {x : Increment}
    (hx : IsIncrement limits x) :
    Tally storage x (hitsOn x (⟨i, ch, ⟨op, r⟩⟩ :: history)) (g'.counters x.key) := by
  have earlier := log.tally x hx
  cases op with
  | call op =>
    rw [(gateExec_call answered).1]
    exact earlier
  | hit x' =>
    obtain ⟨later, _, rfl, counters⟩ := gateExec_hit answered
    obtain ⟨⟨user, _, mem⟩, _⟩ := may
    by_cases same : x' = x
    · subst same
      rw [counters, Function.update_self]
      simp only [hitsOn, hitOf, List.filterMap_cons, if_true]
      refine .hit ch.now earlier fun answer old => ?_
      obtain ⟨e, he, hit⟩ := List.mem_filterMap.mp old
      unfold hitOf at hit
      split at hit
      · split_ifs at hit
        obtain rfl := Option.some.inj hit
        exact Nat.le_trans (log.times e he) later
      · cases hit
    · have other : x.key ≠ x'.key :=
        fun key => same (isIncrement_key hx (isIncrement_of_mem mem) key).symm
      rw [counters, Function.update_of_ne other]
      simpa only [hitsOn, hitOf, List.filterMap_cons, if_neg same] using earlier

lemma GateLog.step {op : GateOp} {r : op.Res} (log : GateLog storage limits arrivals g history)
    (may : GateMay limits (arrivals i) (own i history) op)
    (answered : gateExec env storage ch op g = some (r, g')) :
    GateLog storage limits arrivals g' (⟨i, ch, ⟨op, r⟩⟩ :: history) := by
  obtain ⟨later, clock⟩ := gateExec_clock answered
  refine ⟨fun x hx => log.tally_step may answered hx, ?_, ?_, ?_, ?_⟩
  · intro e he
    rw [clock]
    rcases List.mem_cons.mp he with rfl | old
    · exact Nat.le_refl _
    · exact Nat.le_trans (log.times e old) later
  · intro j x r' mem
    rcases mem_own_cons.mp mem with ⟨rfl, same⟩ | old
    · cases same
      obtain ⟨user, passed, mem⟩ := may.1
      exact ⟨user, passed_grow passed, mem⟩
    · obtain ⟨user, passed, mem⟩ := log.counted j x r' old
      exact ⟨user, passed_grow passed, mem⟩
  · intro j x r₁ r₂ mem₁ mem₂
    rcases mem_own_cons.mp mem₁ with ⟨rfl, same₁⟩ | old₁ <;>
      rcases mem_own_cons.mp mem₂ with ⟨who, same₂⟩ | old₂
    · cases same₁
      cases same₂
      rfl
    · cases same₁
      exact absurd old₂ (may.2 _)
    · cases same₂
      obtain rfl := who
      exact absurd old₁ (may.2 _)
    · exact log.once j x r₁ r₂ old₁ old₂
  · intro j op' r' mem handler
    rcases mem_own_cons.mp mem with ⟨rfl, same⟩ | old
    · cases same
      exact (may.resolve_left handler).grow
    · exact (log.handled j op' r' old handler).grow

end Log
abbrev GateServer (Cell : Type) := Config Nat (Gate Cell) Choice GateOp GateOp.Res Denial Answer

/-- The states that arrivals can reach from a process with no counters. -/
def Gated {Cell : Type} (guard : ThrottlerGuard) (storage : ThrottlerStorage Cell)
    (limits : RateLimitEnv) (env : Env) (arrivals : Nat → Arrival) (w : World)
    (c : GateServer Cell) : Prop :=
  Leads (gateExec env storage)
    (start ⟨w, fun _ => none⟩ fun i => serveThrottled guard limits env (arrivals i)) c

section Bounds
variable {Cell : Type} {guard : ThrottlerGuard} {storage : ThrottlerStorage Cell}
  {limits : RateLimitEnv} {env : Env} {arrivals : Nat → Arrival} {w : World} {c : GateServer Cell}

/-- The request was answered with something else than 429, or its handler runs. -/
def NotThrottled (c : GateServer Cell) (i : Nat) : Prop :=
  (∃ out, (c.pool i).outcome = some out ∧ ∀ answer, out ≠ .error (.throttled answer)) ∨
    ∃ op r, (⟨.call op, r⟩ : GateCall) ∈ own i c.history ∧ ¬ GuardOp op

/-- The throttler of this name counted the request then. -/
def CountedAt (c : GateServer Cell) (name : String) (i time : Nat) : Prop :=
  ∃ e ∈ c.history, e.who = i ∧ e.choice.now = time ∧
    ∃ x r, e.call = ⟨.hit x, r⟩ ∧ x.throttlerName = name

/-- The throttler of this name counted the request within a minute of then. -/
def CountedWithin (c : GateServer Cell) (name : String) (begins i : Nat) : Prop :=
  ∃ time, CountedAt c name i time ∧ begins ≤ time ∧ time < begins + RateLimit.MINUTE

theorem gateLog (reached : Gated guard storage limits env arrivals w c) :
    GateLog storage limits arrivals c.world c.history := by
  have obeys : PoolObeys (fun i => GateMay limits (arrivals i)) (fun _ _ _ => True)
      (start ⟨w, fun _ => none⟩ fun i => serveThrottled guard limits env (arrivals i) :
        GateServer Cell) := fun _ => serveThrottled_obeys
  exact leads_world_invariant (I := GateLog storage limits arrivals) reached obeys (.start w)
    fun _ _ _ _ _ _ _ log may answered => log.step may answered

lemma letThrough (reached : Gated guard storage limits env arrivals w c) {i : Nat}
    (answered : NotThrottled c i) {user : Option AuthUser}
    (passed : Passed (arrivals i).request (worldCalls (own i c.history)) user) :
    LetThrough limits (arrivals i) (own i c.history) := by
  rcases answered with ⟨out, ended, unthrottled⟩ | ⟨op, r', mem, handler⟩
  · exact leads_concludes (fun j => serveThrottled_concludes (a := arrivals j)) reached ended
      user passed unthrottled
  · exact (gateLog reached).handled i op r' mem handler

lemma countP_any_le {α β : Type} (l : List α) (xs : List β) (holds : β → α → Bool) (n : Nat)
    (each : ∀ x ∈ xs, l.countP (holds x) ≤ n) :
    l.countP (fun e => xs.any fun x => holds x e) ≤ n * xs.length := by
  induction xs with
  | nil => simp
  | cons x xs ih =>
    have split : l.countP (fun e => holds x e || xs.any fun x => holds x e) ≤
        l.countP (holds x) + l.countP fun e => xs.any fun x => holds x e := by
      clear ih each
      induction l with
      | nil => simp
      | cons e l ih =>
        simp only [List.countP_cons, Bool.or_eq_true]
        split_ifs <;> first | omega | simp_all
    have here := each x List.mem_cons_self
    have there := ih fun x' mem => each x' (List.mem_cons_of_mem _ mem)
    simp only [List.any_cons, List.length_cons, Nat.mul_succ]
    omega

/-- The tracker of an address, and those of the accounts. -/
def trackers (ip : String) (accounts : List Uuid) : List String :=
  AppThrottlerGuard.getTracker none ip ::
    accounts.map fun id => AppThrottlerGuard.getTracker (some (uuidText id)) ip

/-- Requests of one address that a throttler counts within its time and that are
not throttled are at most its limit for each tracker that they use. -/
theorem throttler_bound (keeps : storage.KeepsLimits)
    (reached : Gated guard storage limits env arrivals w c) {t : ThrottlerOptions}
    (ht : t ∈ RateLimit.buildThrottlers limits) {ip : String} {accounts : List Uuid}
    {begins : Nat} {is : List Nat} (nodup : is.Nodup) (fromIp : ∀ i ∈ is, (arrivals i).ip = ip)
    (tokens : ∀ i ∈ is, ∀ user, Passed (arrivals i).request (worldCalls (own i c.history))
      (some user) → user.id ∈ accounts)
    (answered : ∀ i ∈ is, NotThrottled c i)
    (counted : ∀ i ∈ is, ∃ time, CountedAt c t.name i time ∧ begins ≤ time ∧
      time < begins + t.ttl) : is.length ≤ t.limit * (accounts.length + 1) := by
  have log := gateLog reached
  have bound : c.history.countP (fun e => ((trackers ip accounts).map fun tracker =>
      AppThrottlerGuard.increment tracker t).any fun x =>
        ((hitOf x e).map (LetIn t.ttl begins)).getD false) ≤ t.limit * (accounts.length + 1) := by
    refine (countP_any_le _ _ _ t.limit fun x mem => ?_).trans (by simp [trackers])
    obtain ⟨tracker, _, rfl⟩ := List.mem_map.mp mem
    rw [← List.countP_filterMap]
    exact keeps _ _ _ (log.tally _ ⟨t, ht, tracker, rfl⟩) begins
  refine Nat.le_trans ?_ bound
  rw [List.countP_eq_length_filter, ← List.length_map (f := Event.who)]
  refine (nodup.subperm fun i hi => ?_).length_le
  obtain ⟨_, ⟨e, he, rfl, rfl, x, r, call, name⟩, late, early⟩ := counted i hi
  have mine : (⟨.hit x, r⟩ : GateCall) ∈ own e.who c.history := by
    obtain ⟨who, ch, k⟩ := e
    obtain rfl : k = ⟨.hit x, r⟩ := call
    exact mem_own.mpr ⟨ch, he⟩
  obtain ⟨user, passed, mem⟩ := log.counted _ _ _ mine
  obtain ⟨user', passed', free⟩ := letThrough reached (answered _ hi) passed
  obtain rfl := passed_unique passed passed'
  obtain ⟨r', mine', unblocked⟩ := free x mem
  obtain rfl := log.once _ _ _ _ mine mine'
  refine List.mem_map.mpr ⟨e, List.mem_filter.mpr ⟨he, ?_⟩, rfl⟩
  obtain ⟨t', ht', rfl⟩ := List.mem_map.mp mem
  obtain rfl := RateLimit.name_injective (List.mem_filter.mp ht').1 ht name
  have tracker : trackerOf (arrivals e.who) user ∈ trackers ip accounts := by
    unfold trackerOf
    rw [fromIp _ hi]
    cases user with
    | none => exact List.mem_cons_self
    | some user => exact List.mem_cons_of_mem _ (List.mem_map.mpr ⟨_, tokens _ hi user passed, rfl⟩)
  refine List.any_eq_true.mpr ⟨_, List.mem_map_of_mem tracker, ?_⟩
  simp [hitOf, call, LetIn, unblocked, late, early]

/-- A request that is let through has been counted by each throttler of its route. -/
lemma letThrough_counted {i : Nat} (through : LetThrough limits (arrivals i) (own i c.history))
    {t : ThrottlerOptions} (ht : t ∈ RateLimit.buildThrottlers limits)
    (active : t.skipIf (arrivals i).request.handler.route = false) :
    ∃ time, CountedAt c t.name i time := by
  obtain ⟨user, _, free⟩ := through
  obtain ⟨r, mem, _⟩ := free (AppThrottlerGuard.increment (trackerOf (arrivals i) user) t)
    (List.mem_map_of_mem (List.mem_filter.mpr ⟨ht, by simp [active]⟩))
  obtain ⟨ch, he⟩ := mem_own.mp mem
  exact ⟨ch.now, _, he, rfl, rfl, _, r, rfl, rfl⟩

/-- Of the requests of one address that JwtAuthGuard and RolesGuard let pass and
that are not answered 429, those counted within a minute are at most the limit for
each tracker that they use; those that log in or register likewise. Every one of
them has been counted. -/
theorem requests_bounded_by_trackers (keeps : storage.KeepsLimits)
    (reached : Gated guard storage limits env arrivals w c) (ip : String) (accounts : List Uuid)
    (begins : Nat) (is : List Nat) (nodup : is.Nodup) (fromIp : ∀ i ∈ is, (arrivals i).ip = ip)
    (tokens : ∀ i ∈ is, ∀ user, Passed (arrivals i).request (worldCalls (own i c.history))
      (some user) → user.id ∈ accounts)
    (answered : ∀ i ∈ is, NotThrottled c i) :
    ((∀ i ∈ is, CountedWithin c "global" begins i) →
      is.length ≤ limits.THROTTLE_GLOBAL_PER_MINUTE * (accounts.length + 1)) ∧
    ((∀ i ∈ is, CountedWithin c "auth" begins i) →
      is.length ≤ limits.THROTTLE_AUTH_PER_MINUTE * (accounts.length + 1)) ∧
    ∀ i ∈ is, (∃ user, Passed (arrivals i).request (worldCalls (own i c.history)) user) →
      (∃ time, CountedAt c "global" i time) ∧
        ((∃ dto, (arrivals i).request.handler = .login dto) ∨
          (∃ dto, (arrivals i).request.handler = .register dto) →
            ∃ time, CountedAt c "auth" i time) := by
  let globalThrottler : ThrottlerOptions :=
    { name := "global", ttl := RateLimit.MINUTE, limit := limits.THROTTLE_GLOBAL_PER_MINUTE }
  let authThrottler := RateLimit.forPolicy .auth
    { name := "auth", ttl := RateLimit.MINUTE, limit := limits.THROTTLE_AUTH_PER_MINUTE }
  have isGlobal : globalThrottler ∈ RateLimit.buildThrottlers limits := List.mem_cons_self
  have isAuth : authThrottler ∈ RateLimit.buildThrottlers limits :=
    List.mem_cons_of_mem _ (List.mem_cons_of_mem _ (List.mem_cons_of_mem _ List.mem_cons_self))
  refine ⟨fun counted => ?_, fun counted => ?_, ?_⟩
  · exact throttler_bound keeps reached isGlobal nodup fromIp tokens answered counted
  · exact throttler_bound keeps reached isAuth nodup fromIp tokens answered counted
  · rintro i hi ⟨user, passed⟩
    have through := letThrough reached (answered i hi) passed
    refine ⟨letThrough_counted through isGlobal rfl, fun handler => ?_⟩
    refine letThrough_counted through isAuth ?_
    rcases handler with ⟨dto, handler⟩ | ⟨dto, handler⟩ <;> rw [handler] <;> rfl

end Bounds

/-! A storage that keeps to its limits, and a minute of one address. -/

namespace Plain

/-- The hits that a counter still remembers are its unblocked answers that have
not lapsed. -/
lemma slidingWindow_recent {x : Increment} {log : List (Nat × StorageRecord)}
    {cell : Option (List Nat)} (tally : Tally slidingWindow x log cell) {now : Nat}
    (later : ∀ answer ∈ log, answer.1 ≤ now) :
    ((cell.getD []).filter fun hit => now < hit + x.ttl).length =
      log.countP fun answer => !answer.2.isBlocked && now < answer.1 + x.ttl := by
  induction tally generalizing now with
  | fresh => rfl
  | @hit log cell then' earlier before ih =>
    have past : then' ≤ now := later _ List.mem_cons_self
    have old := ih fun answer mem => later answer (List.mem_cons_of_mem _ mem)
    have lapses : ((cell.getD []).filter fun hit => then' < hit + x.ttl).filter
        (fun hit => now < hit + x.ttl) = (cell.getD []).filter fun hit => now < hit + x.ttl := by
      rw [List.filter_filter]
      refine List.filter_congr fun hit _ => ?_
      by_cases recent : now < hit + x.ttl
      · simp only [recent, decide_true, Bool.true_and, decide_eq_true_eq]
        omega
      · simp [recent]
    simp only [slidingWindow, List.countP_cons]
    split
    · simp only [Option.getD_some, List.filter_cons, Bool.not_false, Bool.true_and]
      by_cases fresh : now < then' + x.ttl
      · simp [fresh, lapses, old]
      · simp [fresh, lapses, old]
    · simp [lapses, old]

lemma slidingWindow_keepsLimits : slidingWindow.KeepsLimits := by
  intro x log cell tally begins
  induction tally with
  | fresh => simp
  | @hit log cell now earlier later ih =>
    have recent := slidingWindow_recent earlier later
    rw [List.countP_cons]
    by_cases room : ((cell.getD []).filter fun hit => now < hit + x.ttl).length < x.limit
    · by_cases inside : begins ≤ now ∧ now < begins + x.ttl
      · have fewer : log.countP (LetIn x.ttl begins) ≤
            log.countP fun answer => !answer.2.isBlocked && now < answer.1 + x.ttl := by
          refine List.countP_mono_left fun answer _ counted => ?_
          simp only [LetIn, Bool.and_eq_true, decide_eq_true_eq] at counted ⊢
          exact ⟨counted.1.1, by omega⟩
        split <;> omega
      · have out : LetIn x.ttl begins (now, (slidingWindow.increment now x cell).1) = false := by
          simp only [LetIn, Bool.and_eq_false_iff, decide_eq_false_iff_not]
          omega
        simp [out, ih]
    · have out : LetIn x.ttl begins (now, (slidingWindow.increment now x cell).1) = false := by
        simp [LetIn, slidingWindow, room]
      simp [out, ih]

def address : String := "203.0.113.10"

/-- Requests 0 and 1 have a token of no session, 2 has none, 3 one of a session. -/
def arrivals : Nat → Arrival
  | 2 => ⟨address, { handler := .login { email := "ana@valle.mx", password := "wrong" } }⟩
  | 3 => ⟨address, { handler := .login { email := "ana@valle.mx", password := "wrong" },
                     authorization := some (bearer 6) }⟩
  | _ => ⟨address, { handler := .me, authorization := some (bearer 9) }⟩

/-- All four are served within a minute. -/
def oneMinute : List (Nat × Choice) :=
  List.replicate 2 (0, { now := 6 }) ++ List.replicate 2 (1, { now := 7 }) ++
    List.replicate 5 (2, { now := 8 }) ++ List.replicate 7 (3, { now := 9 })

/-- The hit of the login throttler for a tracker. -/
def loginHit (tracker : String) : GateCall :=
  ⟨.hit (AppThrottlerGuard.increment tracker
    { name := "auth", ttl := RateLimit.MINUTE, limit := 1 }), (⟨false, 0⟩ : StorageRecord)⟩

lemma oneMinute_reaches {P : GateServer (List Nat) → Prop} [DecidablePred P]
    (h : (play (gateExec env slidingWindow) oneMinute (start ⟨liveWorld, fun _ => none⟩
      fun i => serveThrottled throttlerGuard limits env (arrivals i))).any
        (fun c => decide (P c)) = true) :
    ∃ c, Gated throttlerGuard slidingWindow limits env arrivals liveWorld c ∧ P c := by
  obtain ⟨c, reached, hc⟩ := leads_of_play oneMinute h
  exact ⟨c, reached, of_decide_eq_true hc⟩

end Plain

theorem requests_bounded_by_trackers_one_minute :
    ∃ c, Gated Plain.throttlerGuard Plain.slidingWindow Plain.limits Plain.env Plain.arrivals
      Plain.liveWorld c ∧ 2 ≤ Plain.limits.THROTTLE_AUTH_PER_MINUTE * (1 + 1) := by
  have shown : ∃ c, Gated Plain.throttlerGuard Plain.slidingWindow Plain.limits Plain.env
      Plain.arrivals Plain.liveWorld c ∧
        ((∀ e ∈ c.history, 6 ≤ e.choice.now ∧ e.choice.now < 6 + RateLimit.MINUTE) ∧
          (∀ i ∈ [2, 3], (c.pool i).outcome =
            some (.error (.failed AuthService.invalidCredentials))) ∧
          Passed (Plain.arrivals 2).request (worldCalls (own 2 c.history)) none ∧
          Passed (Plain.arrivals 3).request (worldCalls (own 3 c.history))
            (some { id := 1, role := .CLIENT, sessionId := 6 }) ∧
          Plain.loginHit (trackerOf (Plain.arrivals 2) none) ∈ own 2 c.history ∧
          Plain.loginHit (trackerOf (Plain.arrivals 3)
            (some { id := 1, role := .CLIENT, sessionId := 6 })) ∈ own 3 c.history) :=
    Plain.oneMinute_reaches (by decide +kernel)
  obtain ⟨c, reached, within, refused, anonymous, carried, hit₂, hit₃⟩ := shown
  have counted : ∀ i tracker, Plain.loginHit tracker ∈ own i c.history →
      CountedWithin c "auth" 6 i := by
    intro i tracker hit
    obtain ⟨ch, he⟩ := mem_own.mp hit
    exact ⟨_, ⟨_, he, rfl, rfl, _, _, rfl, rfl⟩, within _ he⟩
  have both : ∀ {P : Nat → Prop}, P 2 → P 3 → ∀ i ∈ [2, 3], P i := by
    intro P two three i hi
    rcases List.mem_pair.mp hi with rfl | rfl
    · exact two
    · exact three
  refine ⟨c, reached, (requests_bounded_by_trackers Plain.slidingWindow_keepsLimits reached
    Plain.address [1] 6 [2, 3] (by decide) (both rfl rfl) (both ?_ ?_) ?_).2.1
    (both (counted 2 _ hit₂) (counted 3 _ hit₃))⟩
  · intro user passed
    cases passed_unique anonymous passed
  · intro user passed
    cases passed_unique carried passed
    exact List.mem_cons_self
  · exact fun i hi => .inl ⟨_, refused i hi, nofun⟩

/-- Two requests with a token of no session are never counted, and two logins are
counted for different trackers: four answers other than 429 at a limit of two, and
two logins at a limit of one, within a minute of one address. -/
theorem requests_exceed_limits_of_address :
    ∃ c, Plain.slidingWindow.KeepsLimits ∧
      Gated Plain.throttlerGuard Plain.slidingWindow Plain.limits Plain.env Plain.arrivals
        Plain.liveWorld c ∧
      (∀ i, (Plain.arrivals i).ip = Plain.address) ∧
      (∀ e ∈ c.history, 6 ≤ e.choice.now ∧ e.choice.now < 6 + RateLimit.MINUTE) ∧
      (∀ i ∈ [0, 1, 2, 3], NotThrottled c i ∧ (c.pool i).outcome ≠ none) ∧
      Plain.limits.THROTTLE_GLOBAL_PER_MINUTE < 4 ∧
      (∀ i ∈ [2, 3], ∃ k ∈ own i c.history, k.op = .call (.userFindByEmailHash
        (UsersService.emailHash Plain.env "ana@valle.mx"))) ∧
      Plain.limits.THROTTLE_AUTH_PER_MINUTE < 2 := by
  have shown : ∃ c, Gated Plain.throttlerGuard Plain.slidingWindow Plain.limits Plain.env
      Plain.arrivals Plain.liveWorld c ∧
        ((∀ e ∈ c.history, 6 ≤ e.choice.now ∧ e.choice.now < 6 + RateLimit.MINUTE) ∧
          (∀ i ∈ [0, 1, 2, 3], ∃ e ∈ [SessionsService.sessionInvalid,
            AuthService.invalidCredentials], (c.pool i).outcome = some (.error (.failed e))) ∧
          ∀ i ∈ [2, 3], ∃ k ∈ own i c.history, k.op = .call (.userFindByEmailHash
            (UsersService.emailHash Plain.env "ana@valle.mx"))) :=
    Plain.oneMinute_reaches (by decide +kernel)
  obtain ⟨c, reached, within, ended, reads⟩ := shown
  have fromAddress : ∀ i, (Plain.arrivals i).ip = Plain.address
    | 0 | 1 | 2 | 3 => rfl
    | _ + 4 => rfl
  refine ⟨c, Plain.slidingWindow_keepsLimits, reached, fromAddress, within, ?_, by decide, reads,
    by decide⟩
  intro i hi
  obtain ⟨e, _, outcome⟩ := ended i hi
  exact ⟨.inl ⟨_, outcome, nofun⟩, by simp [outcome]⟩

end BajaValle
