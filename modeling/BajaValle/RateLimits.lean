import BajaValle.Guards
import BajaValle.Lib.KeyedStore

/-!
# Rate limit policies and AppThrottlerGuard

Each throttler counts the requests of one tracker in one counter, whichever
route they use. The base class of the guard and the storage of the counters are
not written in this repository: `ThrottlerGuard` carries what is documented of
the one, a storage is any update of one counter by itself.
-/

namespace BajaValle

open CallPrograms Prog KeyedStore

/-- The options of one throttler, times in milliseconds. -/
structure ThrottlerOptions where
  name : String
  ttl : Nat
  limit : Nat
  skipIf : Route → Bool := fun _ => false

/-- The limits of the configuration. -/
structure RateLimitEnv where
  THROTTLE_GLOBAL_PER_MINUTE : Nat
  THROTTLE_FORM_PER_MINUTE : Nat
  THROTTLE_FORM_PER_DAY : Nat
  THROTTLE_AUTH_PER_MINUTE : Nat
  THROTTLE_REFRESH_PER_MINUTE : Nat
  THROTTLE_PROFILE_PER_15_MINUTES : Nat

namespace RateLimit

def SECOND : Nat := 1000
def MINUTE : Nat := 60 * SECOND
def DAY : Nat := 24 * 60 * MINUTE

def policyOf (route : Route) : Option RateLimitPolicy :=
  route.getAllAndOverride Metadata.rateLimitPolicy

def forPolicy (policy : RateLimitPolicy) (throttler : ThrottlerOptions) : ThrottlerOptions :=
  { throttler with skipIf := fun route => policyOf route ≠ some policy }

def buildThrottlers (env : RateLimitEnv) : List ThrottlerOptions :=
  [{ name := "global", ttl := MINUTE, limit := env.THROTTLE_GLOBAL_PER_MINUTE },
    forPolicy .form
      { name := "form-minute", ttl := MINUTE, limit := env.THROTTLE_FORM_PER_MINUTE },
    forPolicy .form { name := "form-day", ttl := DAY, limit := env.THROTTLE_FORM_PER_DAY },
    forPolicy .auth { name := "auth", ttl := MINUTE, limit := env.THROTTLE_AUTH_PER_MINUTE },
    forPolicy .refresh
      { name := "refresh", ttl := MINUTE, limit := env.THROTTLE_REFRESH_PER_MINUTE },
    forPolicy .profile
      { name := "profile", ttl := 15 * MINUTE, limit := env.THROTTLE_PROFILE_PER_15_MINUTES }]

end RateLimit

/-- One call of the storage. -/
structure Increment where
  key : String
  ttl : Nat
  limit : Nat
  throttlerName : String
  deriving DecidableEq

/-- What the storage answers of a counter. -/
structure StorageRecord where
  isBlocked : Bool
  timeToBlockExpire : Nat
  deriving DecidableEq

/-- The counters are a map by key, and one increment at a time updates one. -/
structure ThrottlerStorage (Cell : Type) where
  increment (now : Nat) (call : Increment) (cell : Option Cell) : StorageRecord × Cell

abbrev CheckRes (_ : Increment) : Type := StorageRecord

structure ThrottlerLimitDetail where
  timeToBlockExpire : Nat

/-- The base class, given the increments of the throttlers that it must not skip:
it makes each at most once, and lets a request pass only after every one of them
has been answered with a counter that is not blocked. -/
structure ThrottlerGuard where
  canActivate : List Increment → Prog Increment CheckRes ThrottlerLimitDetail Unit
  only : ∀ calls, calls.Nodup → (canActivate calls).Obeys
    (fun h call => call ∈ calls ∧ ∀ r, (⟨call, r⟩ : Call Increment CheckRes) ∉ h)
    (fun _ _ => True) []
  passes : ∀ calls, (canActivate calls).Concludes (fun h out => out = .ok () →
    ∀ call ∈ calls, ∃ r, (⟨call, r⟩ : Call Increment CheckRes) ∈ h ∧ r.isBlocked = false) []

/-- The answer 429. -/
structure TooManyRequests where
  message : String
  retryAfter : Nat
  deriving DecidableEq

namespace AppThrottlerGuard

/-- `userId ? "user:..." : "ip:..."`, where the base class gives the address. -/
def getTracker (userId : Option String) (ip : String) : String :=
  match userId.filter (· ≠ "") with
  | some userId => "user:" ++ userId
  | none => "ip:" ++ ip

def generateKey (tracker throttlerName : String) : String := throttlerName ++ ":" ++ tracker

def throwThrottlingException (detail : ThrottlerLimitDetail) : TooManyRequests where
  message := "Demasiadas solicitudes. Intenta de nuevo más tarde."
  retryAfter := detail.timeToBlockExpire

def increment (tracker : String) (t : ThrottlerOptions) : Increment where
  key := generateKey tracker t.name
  ttl := t.ttl
  limit := t.limit
  throttlerName := t.name

/-- What the base class increments for a request. -/
def increments (env : RateLimitEnv) (tracker : String) (route : Route) : List Increment :=
  ((RateLimit.buildThrottlers env).filter fun t => !t.skipIf route).map (increment tracker)

def canActivate (guard : ThrottlerGuard) (env : RateLimitEnv) (userId : Option String)
    (ip : String) (route : Route) : Prog Increment CheckRes TooManyRequests Unit :=
  (guard.canActivate (increments env (getTracker userId ip) route)).mapError
    throwThrottlingException

end AppThrottlerGuard

/-- Whom a request is counted for. -/
inductive Client where
  | user (id : String)
  | ip (address : String)
  deriving DecidableEq

/-- The throttlers that count a request on the route. -/
def Counts (route : Route) (throttlerName : String) : Prop :=
  throttlerName = "global" ∨ match RateLimit.policyOf route with
    | none => False
    | some .form => throttlerName = "form-minute" ∨ throttlerName = "form-day"
    | some .auth => throttlerName = "auth"
    | some .refresh => throttlerName = "refresh"
    | some .profile => throttlerName = "profile"

namespace Client

def tracker : Client → String
  | user id => "user:" ++ id
  | ip address => "ip:" ++ address

/-- The counter of this client with a throttler of this name. -/
def counter (c : Client) (throttlerName : String) : String :=
  AppThrottlerGuard.generateKey c.tracker throttlerName

lemma tracker_injective {c c' : Client} (same : c.tracker = c'.tracker) : c = c' := by
  have chars := congrArg String.toList same
  cases c <;> cases c' <;> simp [tracker] at chars
  all_goals exact congrArg _ (String.toList_inj.mp chars)

end Client

namespace RateLimit

variable {env : RateLimitEnv} {t t' : ThrottlerOptions}

lemma names_eq (env : RateLimitEnv) : (buildThrottlers env).map ThrottlerOptions.name =
    ["global", "form-minute", "form-day", "auth", "refresh", "profile"] := rfl

lemma names_nodup (env : RateLimitEnv) :
    ((buildThrottlers env).map ThrottlerOptions.name).Nodup := by
  rw [names_eq]
  decide

lemma name_noColon (ht : t ∈ buildThrottlers env) : ':' ∉ t.name.toList := by
  have all : ∀ name ∈ ["global", "form-minute", "form-day", "auth", "refresh", "profile"],
      ':' ∉ name.toList := by decide
  exact all _ (names_eq env ▸ List.mem_map_of_mem ht)

lemma name_injective (ht : t ∈ buildThrottlers env) (ht' : t' ∈ buildThrottlers env)
    (same : t.name = t'.name) : t = t' :=
  List.inj_on_of_nodup_map (names_nodup env) ht ht' same

lemma counts_of_not_skip (ht : t ∈ buildThrottlers env) {route : Route}
    (active : t.skipIf route = false) : Counts route t.name := by
  simp only [buildThrottlers, forPolicy, List.mem_cons, List.not_mem_nil, or_false] at ht
  rcases ht with rfl | rfl | rfl | rfl | rfl | rfl
  · exact .inl rfl
  all_goals
    have policy := of_decide_eq_false active
    simp only [ne_eq, not_not] at policy
    simp [Counts, policy]

lemma takeWhile_colon {cs ds : List Char} (free : ':' ∉ cs) :
    (cs ++ ':' :: ds).takeWhile (· ≠ ':') = cs := by
  have plain : ∀ c ∈ cs, decide (c ≠ ':') = true := by
    intro c hc
    exact decide_eq_true fun colon => free (colon ▸ hc)
  rw [List.takeWhile_append_of_pos plain]
  simp

/-- Names have no colon, so a key tells its throttler and its tracker. -/
lemma generateKey_injective (ht : t ∈ buildThrottlers env) (ht' : t' ∈ buildThrottlers env)
    {tracker tracker' : String}
    (same : AppThrottlerGuard.generateKey tracker t.name =
      AppThrottlerGuard.generateKey tracker' t'.name) : t = t' ∧ tracker = tracker' := by
  have chars : t.name.toList ++ ':' :: tracker.toList =
      t'.name.toList ++ ':' :: tracker'.toList := by
    simpa [AppThrottlerGuard.generateKey] using congrArg String.toList same
  have names : t.name.toList = t'.name.toList := by
    have heads := congrArg (List.takeWhile (· ≠ ':')) chars
    rwa [takeWhile_colon (name_noColon ht), takeWhile_colon (name_noColon ht')] at heads
  rw [names, List.append_cancel_left_eq] at chars
  exact ⟨name_injective ht ht' (String.toList_inj.mp names),
    String.toList_inj.mp (List.cons.inj chars).2⟩

end RateLimit
namespace AppThrottlerGuard

/-- The throttlers of a list of increments, with the keys of one client. -/
lemma increments_counted {env : RateLimitEnv} {c : Client} {route : Route} {call : Increment}
    (mem : call ∈ increments env c.tracker route) :
    ∃ t ∈ RateLimit.buildThrottlers env, Counts route t.name ∧ call.key = c.counter t.name := by
  obtain ⟨t, ht, rfl⟩ := List.mem_map.mp mem
  obtain ⟨ht, active⟩ := List.mem_filter.mp ht
  exact ⟨t, ht, RateLimit.counts_of_not_skip ht (by simpa using active), rfl⟩

lemma increments_nodup (env : RateLimitEnv) (tracker : String) (route : Route) :
    (increments env tracker route).Nodup := by
  refine List.Nodup.of_map Increment.throttlerName ?_
  rw [increments, List.map_map]
  refine List.Nodup.sublist (List.filter_sublist.map _) ?_
  exact RateLimit.names_nodup env

/-- Only the policy of the route matters. -/
lemma increments_policy {env : RateLimitEnv} {tracker : String} {route route' : Route}
    (same : RateLimit.policyOf route = RateLimit.policyOf route') :
    increments env tracker route = increments env tracker route' := by
  unfold increments
  congr 1
  refine List.filter_congr fun t ht => ?_
  simp only [RateLimit.buildThrottlers, RateLimit.forPolicy, List.mem_cons, List.not_mem_nil,
    or_false] at ht
  rcases ht with rfl | rfl | rfl | rfl | rfl | rfl <;> simp only [same]

end AppThrottlerGuard

/-- A request as the guard sees it, after JwtAuthGuard. -/
structure Visit where
  time : Nat
  userId : Option String
  ip : String
  route : Route

namespace Visit

/-- An empty id is no user. -/
def client (v : Visit) : Client :=
  match v.userId.filter (· ≠ "") with
  | some userId => .user userId
  | none => .ip v.ip

lemma getTracker_eq (v : Visit) :
    AppThrottlerGuard.getTracker v.userId v.ip = v.client.tracker := by
  unfold AppThrottlerGuard.getTracker client
  split <;> rfl

end Visit

section Isolation
variable {Cell : Type} (guard : ThrottlerGuard) (storage : ThrottlerStorage Cell)
  (env : RateLimitEnv)

def Visit.check (v : Visit) : Prog Increment CheckRes TooManyRequests Unit :=
  AppThrottlerGuard.canActivate guard env v.userId v.ip v.route

/-- The decision on one request, and the counters after it. -/
def Visit.serve (v : Visit) (counters : String → Option Cell) :
    Except TooManyRequests Unit × (String → Option Cell) :=
  run Increment.key (storage.increment v.time) (v.check guard env) counters

/-- The decisions on the requests of one client among those of all clients. -/
def decisions (c : Client) (visits : List Visit) : List (Except TooManyRequests Unit) :=
  ((outcomes Increment.key (fun v => storage.increment v.time) (Visit.check guard env) visits
    fun _ => none).filter fun out => out.1.client = c).map Prod.snd

/-- The times and the policies of the requests of one client. -/
def seenBy (c : Client) (visits : List Visit) : List (Nat × Option RateLimitPolicy) :=
  (visits.filter fun v => v.client = c).map fun v => (v.time, RateLimit.policyOf v.route)

variable {guard env}

lemma Visit.check_uses (v : Visit) : (v.check guard env).Uses
    fun call => ∃ t ∈ RateLimit.buildThrottlers env,
      Counts v.route t.name ∧ call.key = v.client.counter t.name := by
  have only := guard.only _ (AppThrottlerGuard.increments_nodup env v.client.tracker v.route)
  unfold Visit.check AppThrottlerGuard.canActivate
  rw [v.getTracker_eq]
  refine obeys_mapError (only.mono ?_ fun _ _ _ => trivial)
  exact fun _ call may => AppThrottlerGuard.increments_counted may.1

lemma Visit.check_congr {v v' : Visit} (client : v.client = v'.client)
    (policy : RateLimit.policyOf v.route = RateLimit.policyOf v'.route) :
    v.check guard env = v'.check guard env := by
  unfold Visit.check AppThrottlerGuard.canActivate
  rw [v.getTracker_eq, v'.getTracker_eq, client, AppThrottlerGuard.increments_policy policy]

/-- The counters of a client under these limits. -/
def OwnCounter (env : RateLimitEnv) (c : Client) (key : String) : Prop :=
  ∃ t ∈ RateLimit.buildThrottlers env, key = c.counter t.name

lemma ownCounter_disjoint {c c' : Client} {key : String} (mine : OwnCounter env c key)
    (theirs : OwnCounter env c' key) : c = c' := by
  obtain ⟨t, ht, rfl⟩ := mine
  obtain ⟨t', ht', same⟩ := theirs
  exact Client.tracker_injective (RateLimit.generateKey_injective ht ht' same).2

/-- Alike histories of a client pair its requests. -/
lemma seen_pairs {c : Client} {visits visits' : List Visit}
    (same : seenBy c visits = seenBy c visits') :
    List.Forall₂ (fun v v' => v.client = v'.client ∧ v.time = v'.time ∧
      RateLimit.policyOf v.route = RateLimit.policyOf v'.route)
      (visits.filter fun v => v.client = c) (visits'.filter fun v => v.client = c) := by
  have mapped : List.Forall₂ Eq (seenBy c visits) (seenBy c visits') := by
    rw [List.forall₂_eq_eq_eq]
    exact same
  have pairs := List.forall₂_map_right_iff.mp (List.forall₂_map_left_iff.mp mapped)
  refine List.forall₂_iff_zip.mpr ⟨pairs.length_eq, fun {v v'} mem => ?_⟩
  obtain ⟨time, policy⟩ := Prod.mk.inj (List.forall₂_zip pairs mem)
  obtain ⟨here, there⟩ := List.of_mem_zip mem
  have mine := of_decide_eq_true (List.mem_filter.mp here).2
  have theirs := of_decide_eq_true (List.mem_filter.mp there).2
  exact ⟨mine.trans theirs.symm, time, policy⟩

variable (guard env)

/-- What a client's requests are answered depends on their times and policies
only, and a request changes no counter but its client's with the throttlers that
count it, the same ones on every route of its policy. -/
theorem throttling_isolates_clients :
    (∀ (c : Client) (visits visits' : List Visit), seenBy c visits = seenBy c visits' →
      decisions guard storage env c visits = decisions guard storage env c visits') ∧
    (∀ (v : Visit) (counters : String → Option Cell) (key : String),
      (v.serve guard storage env counters).2 key ≠ counters key →
        ∃ name, Counts v.route name ∧ ∀ c, ∀ t ∈ RateLimit.buildThrottlers env,
          key = c.counter t.name ↔ c = v.client ∧ t.name = name) ∧
    ∀ (v v' : Visit) (counters : String → Option Cell), v.client = v'.client →
      v.time = v'.time → RateLimit.policyOf v.route = RateLimit.policyOf v'.route →
        v.serve guard storage env counters = v'.serve guard storage env counters := by
  refine ⟨?_, ?_, ?_⟩
  · intro c visits visits' same
    have uses : ∀ v : Visit, (v.check guard env).Uses
        fun call => OwnCounter env v.client call.key :=
      fun v => v.check_uses.mono fun call ⟨t, ht, _, key⟩ => ⟨t, ht, key⟩
    unfold decisions
    rw [outcomes_isolated uses (fun _ _ _ => ownCounter_disjoint) c visits fun _ _ => rfl,
      outcomes_isolated uses (fun _ _ _ => ownCounter_disjoint) c visits' fun _ _ => rfl]
    refine outcomes_congr ?_
    refine (seen_pairs same).imp fun v v' ⟨client, time, policy⟩ => ?_
    exact ⟨Visit.check_congr client policy, by rw [time]⟩
  · intro v counters key changed
    by_contra unexplained
    refine changed (run_frame (P := fun key => ∃ t ∈ RateLimit.buildThrottlers env,
      Counts v.route t.name ∧ key = v.client.counter t.name) v.check_uses ?_)
    rintro ⟨t, ht, counts, rfl⟩
    refine unexplained ⟨t.name, counts, fun c t' ht' => ⟨fun same => ?_, ?_⟩⟩
    · obtain ⟨rfl, tracker⟩ := RateLimit.generateKey_injective ht ht' same
      exact ⟨(Client.tracker_injective tracker).symm, rfl⟩
    · rintro ⟨rfl, name⟩
      rw [name]
  · intro v v' counters client time policy
    unfold Visit.serve
    rw [Visit.check_congr client policy, time]

end Isolation
/-! The base class as documented, over a storage that blocks a counter with as
many hits in the last `ttl` milliseconds as its limit. -/

namespace Plain

/-- The increments in turn, up to the first blocked counter. -/
def checkAll : List Increment → Prog Increment CheckRes ThrottlerLimitDetail Unit
  | [] => .ret ()
  | first :: calls => .call first fun record =>
    if record.isBlocked then .throw ⟨record.timeToBlockExpire⟩ else checkAll calls

section Checks
variable {all calls : List Increment} {h : List (Call Increment CheckRes)}

lemma checkAll_only (sub : calls ⊆ all) (nodup : calls.Nodup)
    (new : ∀ call ∈ calls, ∀ r, (⟨call, r⟩ : Call Increment CheckRes) ∉ h) :
    (checkAll calls).Obeys
      (fun h call => call ∈ all ∧ ∀ r, (⟨call, r⟩ : Call Increment CheckRes) ∉ h)
      (fun _ _ => True) h := by
  induction calls generalizing h with
  | nil => trivial
  | cons call calls ih =>
    refine ⟨⟨sub List.mem_cons_self, new call List.mem_cons_self⟩, fun record => ?_⟩
    obtain ⟨first, rest⟩ := List.nodup_cons.mp nodup
    dsimp only
    split
    · trivial
    · refine ih (fun _ mem => sub (List.mem_cons_of_mem _ mem)) rest fun call' mem r old => ?_
      rcases List.mem_cons.mp old with same | old
      · cases same
        exact first mem
      · exact new call' (List.mem_cons_of_mem _ mem) r old

lemma checkAll_passes : (checkAll calls).Concludes (fun h' out => h ⊆ h' ∧ (out = .ok () →
    ∀ call ∈ calls, ∃ r, (⟨call, r⟩ : Call Increment CheckRes) ∈ h' ∧ r.isBlocked = false)) h := by
  induction calls generalizing h with
  | nil => exact ⟨List.Subset.refl _, fun _ _ mem => absurd mem List.not_mem_nil⟩
  | cons call calls ih =>
    intro record
    dsimp only
    split
    · exact ⟨List.subset_cons_self _ _, nofun⟩
    · rename_i free
      refine ih.mono fun h' out ⟨sub, passed⟩ => ⟨fun _ mem => sub (List.mem_cons_of_mem _ mem), ?_⟩
      intro ok call' mem
      rcases List.mem_cons.mp mem with rfl | mem
      · exact ⟨record, sub List.mem_cons_self, Bool.eq_false_iff.mpr free⟩
      · exact passed ok call' mem

end Checks

def throttlerGuard : ThrottlerGuard where
  canActivate calls := checkAll (calls.insertionSort fun a b => a.ttl ≤ b.ttl)
  only calls nodup := by
    have perm := List.perm_insertionSort (fun a b : Increment => a.ttl ≤ b.ttl) calls
    exact checkAll_only perm.subset (perm.nodup_iff.mpr nodup) fun _ _ _ => List.not_mem_nil
  passes calls := by
    have perm := List.perm_insertionSort (fun a b : Increment => a.ttl ≤ b.ttl) calls
    exact checkAll_passes.mono fun h out ⟨_, passed⟩ ok call mem =>
      passed ok call (perm.mem_iff.mpr mem)

def slidingWindow : ThrottlerStorage (List Nat) where
  increment now call cell :=
    let recent := (cell.getD []).filter fun hit => now < hit + call.ttl
    if recent.length < call.limit then (⟨false, 0⟩, now :: recent)
    else (⟨true, call.ttl / RateLimit.SECOND⟩, recent)

def limits : RateLimitEnv := ⟨2, 1, 20, 1, 20, 5⟩

/-- A form sent from an address. -/
def form (time : Nat) (ip : String) : Visit where
  time := time
  userId := none
  ip := ip
  route := { controller := { isPublic := some true, rateLimitPolicy := some .form } }

end Plain

theorem throttling_isolates_clients_forms :
    decisions Plain.throttlerGuard Plain.slidingWindow Plain.limits (.ip "203.0.113.10")
        [Plain.form 1 "203.0.113.10", Plain.form 2 "198.51.100.20", Plain.form 3 "203.0.113.10"] =
      [.ok (), .error ⟨"Demasiadas solicitudes. Intenta de nuevo más tarde.", 60⟩] := by
  refine ((throttling_isolates_clients Plain.throttlerGuard Plain.slidingWindow Plain.limits).1
    (.ip "203.0.113.10") _ [Plain.form 1 "203.0.113.10", Plain.form 3 "203.0.113.10"]
    (by decide)).trans ?_
  decide +kernel

end BajaValle
