import BajaValle.Lib.Embeddings
import BajaValle.RateLimits
import BajaValle.Requests

/-!
# The server behind its rate limits

Every request passes JwtAuthGuard and RolesGuard, then AppThrottlerGuard, then
its handler. Requests interleave call by call, calls of the storage included. A
storage that keeps to its limits bounds the requests of one tracker, not those of
one address: an accepted token moves a request to the tracker of its account, and
what the first two guards reject is never counted.
-/

namespace BajaValle

open CallPrograms Prog Interleaving KeyedStore

/-- The text of an id. -/
def uuidText (id : Uuid) : String :=
  let digits := (Nat.toDigits 16 id).leftpad 32 '0'
  join '-' [String.ofList (digits.take 8), String.ofList ((digits.drop 8).take 4),
    String.ofList ((digits.drop 12).take 4), String.ofList ((digits.drop 16).take 4),
    String.ofList (digits.drop 20)]

/-- What a request behind the rate limits calls. -/
inductive GateOp where
  | call (op : Op)
  | hit (increment : Increment)
  deriving DecidableEq

@[reducible] def GateOp.Res : GateOp → Type
  | .call op => op.Res
  | .hit _ => StorageRecord

instance : (op : GateOp) → DecidableEq op.Res
  | .call op => inferInstanceAs (DecidableEq op.Res)
  | .hit _ => inferInstanceAs (DecidableEq StorageRecord)

/-- The world and the counters of the process. -/
structure Gate (Cell : Type) where
  world : World
  counters : String → Option Cell

def gateExec {Cell : Type} (env : Env) (storage : ThrottlerStorage Cell) (ch : Choice) :
    (op : GateOp) → Gate Cell → Option (op.Res × Gate Cell)
  | .call op, g => (exec env ch op g.world).map fun out => (out.1, { g with world := out.2 })
  | .hit x, g =>
    if ch.now < g.world.clock then none
    else some ((storage.increment ch.now x (g.counters x.key)).1,
      { world := { g.world with clock := ch.now },
        counters := Function.update g.counters x.key
          (some (storage.increment ch.now x (g.counters x.key)).2) })

/-- Why a request is not answered by its handler's return. -/
inductive Denial where
  | failed (failure : Failure)
  | throttled (answer : TooManyRequests)
  deriving DecidableEq

structure Arrival where
  ip : String
  request : Request

def GateOp.ofWorld : Embedding Op Op.Res GateOp GateOp.Res where
  op := .call
  answer _ r := r
  answered _ r := r
  answer_answered _ _ := rfl

def GateOp.ofCounters : Embedding Increment CheckRes GateOp GateOp.Res where
  op := .hit
  answer _ r := r
  answered _ r := r
  answer_answered _ _ := rfl

abbrev GateTask (α : Type) := Prog GateOp GateOp.Res Denial α

abbrev GateCall := Call GateOp GateOp.Res

/-- The three global guards in the order of their registration, then the handler. -/
def serveThrottled (guard : ThrottlerGuard) (limits : RateLimitEnv) (env : Env) (a : Arrival) :
    GateTask Answer := do
  let user ← (guards a.request.handler.route a.request.authorization).embed GateOp.ofWorld .failed
  (AppThrottlerGuard.canActivate guard limits (user.map fun user => uuidText user.id) a.ip
    a.request.handler.route).embed GateOp.ofCounters .throttled
  (handle env a.request user).embed GateOp.ofWorld .failed

/-- The calls to the world. -/
def worldCalls (h : List GateCall) : List OwnCall :=
  h.filterMap fun
    | ⟨.call op, r⟩ => some ⟨op, r⟩
    | ⟨.hit _, _⟩ => none

/-- The request is counted for this tracker. -/
def trackerOf (a : Arrival) (user : Option AuthUser) : String :=
  AppThrottlerGuard.getTracker (user.map fun user => uuidText user.id) a.ip

/-- The first two guards have let the request pass, and no counter that it has
incremented, of all it must, was blocked. -/
def LetThrough (limits : RateLimitEnv) (a : Arrival) (h : List GateCall) : Prop :=
  ∃ user, Passed a.request (worldCalls h) user ∧
    ∀ x ∈ AppThrottlerGuard.increments limits (trackerOf a user) a.request.handler.route,
      ∃ r, (⟨.hit x, r⟩ : GateCall) ∈ h ∧ r.isBlocked = false

/-- A request increments each of its counters at most once, and its handler
starts only when it has been let through. -/
def GateMay (limits : RateLimitEnv) (a : Arrival) (h : List GateCall) : GateOp → Prop
  | .call op => GuardOp op ∨ LetThrough limits a h
  | .hit x => (∃ user, Passed a.request (worldCalls h) user ∧
      x ∈ AppThrottlerGuard.increments limits (trackerOf a user) a.request.handler.route) ∧
    ∀ r, (⟨.hit x, r⟩ : GateCall) ∉ h

section Gate
variable {limits : RateLimitEnv} {a : Arrival} {h : List GateCall} {guard : ThrottlerGuard}
  {env : Env}

lemma worldCalls_calls (h : List OwnCall) : worldCalls (h.map GateOp.ofWorld.call) = h := by
  induction h with
  | nil => rfl
  | cons k h ih => exact congrArg (k :: ·) ih

lemma worldCalls_hits (h : List (Call Increment CheckRes)) (base : List GateCall) :
    worldCalls (h.map GateOp.ofCounters.call ++ base) = worldCalls base := by
  induction h with
  | nil => rfl
  | cons k h ih => exact ih

lemma LetThrough.append (passed : LetThrough limits a h) (new : List GateCall) :
    LetThrough limits a (new ++ h) := by
  obtain ⟨user, admitted, free⟩ := passed
  refine ⟨user, ?_, fun x hx => ?_⟩
  · rw [worldCalls, List.filterMap_append]
    exact admitted.append _
  · obtain ⟨r, mem, unblocked⟩ := free x hx
    exact ⟨r, List.mem_append_right new mem, unblocked⟩

lemma hit_notMem_calls (h : List OwnCall) (x : Increment) (r : StorageRecord) :
    (⟨.hit x, r⟩ : GateCall) ∉ h.map GateOp.ofWorld.call := by
  intro mem
  obtain ⟨k, _, same⟩ := List.mem_map.mp mem
  cases same

lemma hit_mem_hits {h : List (Call Increment CheckRes)} {base : List GateCall} {x : Increment}
    {r : StorageRecord} (fresh : (⟨.hit x, r⟩ : GateCall) ∉ base)
    (mem : (⟨.hit x, r⟩ : GateCall) ∈ h.map GateOp.ofCounters.call ++ base) :
    (⟨x, r⟩ : Call Increment CheckRes) ∈ h := by
  obtain ⟨⟨x', r'⟩, old, same⟩ := List.mem_map.mp ((List.mem_append.mp mem).resolve_right fresh)
  cases same
  exact old

/-- Where the guards have returned, they have let the request pass. -/
lemma guards_embed (limits : RateLimitEnv) :
    ((guards a.request.handler.route a.request.authorization).embed GateOp.ofWorld
      Denial.failed).Obeys
      (GateMay limits a) (fun h' user => ∃ h₁ : List OwnCall, h' = h₁.map GateOp.ofWorld.call ∧
        Passed a.request h₁ user) [] := by
  have returns := (guards_uses a.request.handler.route a.request.authorization).returns
  refine (obeys_embed GateOp.ofWorld Denial.failed [] returns
    fun h op guard => .inl guard).mono (fun _ _ may => may) ?_
  rintro h' user ⟨h₁, rfl, _, made, same, returned⟩
  refine ⟨h₁, List.append_nil _, ?_⟩
  rw [Passed, same, List.append_nil, List.reverse_reverse]
  exact returned

/-- Where the counters have been checked, after calls to the world only. -/
lemma canActivate_embed {h₁ : List OwnCall} {user : Option AuthUser}
    (passed : Passed a.request h₁ user) :
    ((AppThrottlerGuard.canActivate guard limits (user.map fun user => uuidText user.id) a.ip
      a.request.handler.route).embed GateOp.ofCounters Denial.throttled).Obeys (GateMay limits a)
        (fun h' _ => LetThrough limits a h') (h₁.map GateOp.ofWorld.call) := by
  have only := guard.only _ (AppThrottlerGuard.increments_nodup limits (trackerOf a user)
    a.request.handler.route)
  have checked := obeys_mapError (f := AppThrottlerGuard.throwThrottlingException)
    (obeys_concludes only (guard.passes _))
  refine (obeys_embed GateOp.ofCounters Denial.throttled
    (h₁.map GateOp.ofWorld.call) checked ?_).mono (fun _ _ may => may) ?_
  · rintro h x ⟨mem, new⟩
    refine ⟨⟨user, ?_, mem⟩, fun r old => new r (hit_mem_hits (hit_notMem_calls _ _ _) old)⟩
    rw [worldCalls_hits, worldCalls_calls]
    exact passed
  · rintro h' _ ⟨h₂, rfl, _, free⟩
    refine ⟨user, ?_, fun x hx => ?_⟩
    · rw [worldCalls_hits, worldCalls_calls]
      exact passed
    · obtain ⟨r, mem, unblocked⟩ := free rfl x hx
      exact ⟨r, List.mem_append_left _ (List.mem_map_of_mem (f := GateOp.ofCounters.call) mem),
        unblocked⟩

/-- The handler may make any call. -/
lemma handle_embed {user : Option AuthUser} (passed : LetThrough limits a h) :
    ((handle env a.request user).embed GateOp.ofWorld Denial.failed).Obeys (GateMay limits a)
      (fun _ _ => True) h := by
  have any : (handle env a.request user).Uses fun _ => True := uses_true _
  refine (obeys_embed GateOp.ofWorld Denial.failed h (h := []) any ?_).mono
    (fun _ _ may => may) fun _ _ _ => trivial
  exact fun h₁ op _ => .inr (passed.append _)

lemma serveThrottled_obeys :
    (serveThrottled guard limits env a).Obeys (GateMay limits a) (fun _ _ => True) [] := by
  refine obeys_bind (guards_embed limits) ?_
  rintro _ user ⟨h₁, rfl, passed⟩
  exact obeys_bind (canActivate_embed passed) fun h' _ through => handle_embed through

/-- A request that passes the first two guards is throttled or let through. -/
lemma serveThrottled_concludes :
    (serveThrottled guard limits env a).Concludes (fun h' out =>
      ∀ user, Passed a.request (worldCalls h') user →
        (∀ answer, out ≠ .error (.throttled answer)) → LetThrough limits a h') [] := by
  have rejects := concludes_embed GateOp.ofWorld Denial.failed []
    (concludes_returned (h := []) (p := guards a.request.handler.route a.request.authorization))
  refine concludes_bind (((guards_embed limits).concludes.and rejects).mono ?_)
  rintro _ out ⟨returned, h₁, first, rfl, rfl, made, same, ended⟩
  rw [List.append_nil] at returned ⊢
  constructor
  · intro user same
    obtain ⟨h₂, calls, passed⟩ := returned user same
    rw [calls]
    have blocks := concludes_embed GateOp.ofCounters Denial.throttled
      (h₂.map GateOp.ofWorld.call) (h := []) (concludes_uses (uses_true
        (AppThrottlerGuard.canActivate guard limits (user.map fun user => uuidText user.id) a.ip
          a.request.handler.route)))
    refine concludes_bind (((canActivate_embed passed).concludes.and blocks).mono ?_)
    rintro h' out ⟨through, _, second, _, rfl, _⟩
    constructor
    · intro _ same
      refine (concludes_uses (uses_true _)).mono fun h'' _ ⟨new, grown, _⟩ _ _ _ => ?_
      rw [grown]
      exact (through _ same).append new
    · intro e same _ _ unthrottled
      cases second with
      | ok => cases same
      | error detail =>
        obtain rfl := Except.error.inj same
        exact absurd rfl (unthrottled detail)
  · intro e failed user passed _
    cases first with
    | ok => cases failed
    | error =>
      rw [worldCalls_calls, Passed, same, List.append_nil, List.reverse_reverse, ended] at passed
      cases passed

end Gate
end BajaValle
