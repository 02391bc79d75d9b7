import BajaValle.ApiComponents

/-!
# Who changes the catalog

The catalog is asked for something only after the guards have let the request through,
and what changes it is for administrators. So its rows are what the successes of
authorized requests make of the first ones.
-/

namespace BajaValle

open CallPrograms Prog Interleaving Component

/-- The request changes the rows if it succeeds. -/
def ShopRequest.Writes : ShopRequest → Prop
  | .findCategories | .findCategory _ | .findProducts | .findProduct _ => False
  | _ => True

/-- A request asks the catalog only once the guards have let it through. -/
def CatalogMay (req : ApiRequest) {xl : Exceljs} (h : List (Call (ApiOp xl) ApiOp.Res)) :
    ApiOp xl → Prop
  | .catalog _ => ∃ user, Passed req.seen (h.filterMap accountCall) user
  | _ => True

section Programs
variable {api : Api} {req : ApiRequest}

lemma accountCalls_seen {xl : Exceljs} (h : List OwnCall) :
    (h.map (accountCalls xl).call).filterMap accountCall = h := by
  induction h with
  | nil => rfl
  | cons k h ih => exact congrArg (k :: ·) ih

/-- What the guards return, they have returned for their calls to the accounts. -/
lemma guards_passed {may : List (Call (ApiOp api.mail.xl) ApiOp.Res) → ApiOp api.mail.xl → Prop}
    (allowed : ∀ h op, GuardOp op → may h (.account op)) :
    ((guards req.handler.route req.authorization).embed (accountCalls api.mail.xl)
      ApiFailure.account).Obeys may (fun h user => Passed req.seen (h.filterMap accountCall) user ∧
        ∀ k ∈ h, ∃ op, k.op = .account op) [] := by
  have returns := (guards_uses req.handler.route req.authorization).returns
  refine (obeys_embed (accountCalls api.mail.xl) ApiFailure.account [] returns
    fun h op guard => allowed _ op guard).mono (fun _ _ may => may) ?_
  rintro _ user ⟨h, rfl, _, made, same, returned⟩
  rw [List.append_nil]
  constructor
  · rw [accountCalls_seen, Passed, seen_route, same, List.append_nil, List.reverse_reverse]
    exact returned
  · intro k mem
    obtain ⟨k', _, rfl⟩ := List.mem_map.mp mem
    exact ⟨k'.op, rfl⟩

lemma serve_catalogMay : (req.serve api).Obeys (CatalogMay req) (fun _ _ => True) [] := by
  refine obeys_bind (guards_passed fun _ _ _ => trivial) ?_
  rintro h user ⟨passed, _⟩
  refine (uses_obeys (uses_true _) fun h' op ext _ => ?_).mono (fun _ _ may => may)
    fun _ _ _ => trivial
  cases op with
  | catalog op =>
    obtain ⟨new, rfl, _⟩ := ext
    refine ⟨user, ?_⟩
    rw [List.filterMap_append]
    exact passed.append _
  | _ => trivial

lemma roles_of_writes {handler : CatalogHandler} {request : ShopRequest}
    (parsed : handler.parse = .ok request) (writes : request.Writes) :
    handler.route.roles = [.ADMIN] := by
  have reads : ∀ {α : Type} {x : Except BadRequestException α} (f : α → ShopRequest),
      (∀ a, ¬ (f a).Writes) → x.map f = .ok request → False := by
    intro α x f never same
    cases x with
    | error e => cases same
    | ok a =>
      cases same
      exact never a writes
  cases handler with
  | findCategories =>
    cases parsed
    exact writes.elim
  | findProducts =>
    cases parsed
    exact writes.elim
  | findCategory id => exact (reads .findCategory (fun _ no => no) parsed).elim
  | findProduct id => exact (reads .findProduct (fun _ no => no) parsed).elim
  | _ => rfl

/-- What a request asks of the catalog to change is for administrators. -/
lemma restricted_of_writes (writes : req.shopRequest.Writes) :
    req.seen.handler.route.roles = [.ADMIN] := by
  have asks : req.shop ≠ none := by
    intro none
    rw [ApiRequest.shopRequest, none] at writes
    exact writes
  rw [seen_route]
  unfold ApiRequest.shopRequest ApiRequest.shop at *
  cases same : req.handler with
  | catalog handler =>
    rw [same] at asks writes
    cases parsed : handler.parse with
    | error e => exact absurd (by simp [parsed, Except.toOption]) asks
    | ok request =>
      refine roles_of_writes parsed ?_
      simpa [parsed, Except.toOption] using writes
  | _ =>
    rw [same] at asks
    exact absurd rfl asks

lemma leaves_of_reads {request : ShopRequest} (reads : ¬ request.Writes) (s : Contents)
    (out : Except ShopFailure ShopAnswer) : request.leaves s out = s := by
  cases out with
  | error e => rfl
  | ok answer =>
    cases request with
    | findCategories => rfl
    | findCategory id => rfl
    | findProducts => rfl
    | findProduct id => rfl
    | _ => exact absurd trivial reads

lemma contentsAfter_reads {reqs : Nat → ShopRequest} {s : Contents}
    {order : List (Nat × Except ShopFailure ShopAnswer)}
    (reads : ∀ i ∈ order.map Prod.fst, ¬ (reqs i).Writes) : contentsAfter reqs s order = s := by
  induction order with
  | nil => rfl
  | cons entry order ih =>
    obtain ⟨here, rest⟩ := List.forall_mem_cons.mp reads
    rw [contentsAfter, ih rest, leaves_of_reads here]

end Programs

section Runs
variable {Cell : Type} {api : Api} {storage : ThrottlerStorage Cell} {reqs : Nat → ApiRequest}
  {w : ApiWorld Cell api.mail.xl} {c : ApiConfig api Cell}

lemma asked_passed (run : ApiReachable api storage reqs w c) {i : Nat}
    (asked : (own i c.history).filterMap catalogCall ≠ []) :
    ∃ user, Passed (reqs i).seen ((own i c.history).filterMap accountCall) user := by
  have allowed := leads_eachAllowed (fun _ => serve_catalogMay) run i
  obtain ⟨k', mem'⟩ := List.exists_mem_of_ne_nil _ asked
  obtain ⟨⟨op, r⟩, mem, seen⟩ := List.mem_filterMap.mp mem'
  obtain ⟨after, before, whole, may⟩ := allowed.of_mem mem
  cases op with
  | catalog op =>
    obtain ⟨user, passed⟩ := may
    refine ⟨user, ?_⟩
    rw [whole, List.filterMap_append]
    exact passed.append _
  | _ => cases seen

/-- Whoever changes the catalog was authorized. -/
lemma writer_authorized (run : ApiReachable api storage reqs w c) {s : Server}
    (reach : Reachable api.env (fun i => (reqs i).seen) w.accounts s)
    (calls : ∀ i, own i s.history = (own i c.history).filterMap accountCall) {i : Nat}
    (asked : (own i c.history).filterMap catalogCall ≠ [])
    (writes : (reqs i).shopRequest.Writes) :
    Authorized api.env (fun i => (reqs i).seen)
      (boot api.env (fun i => (reqs i).seen) w.accounts) s i := by
  obtain ⟨user, passed⟩ := asked_passed run asked
  rw [← calls] at passed
  have restricted : (reqs i).seen.handler.route.roles ≠ [] := by
    rw [restricted_of_writes writes]
    exact List.cons_ne_nil _ _
  exact passed_authorized reach passed restricted

/-- An authorized writer is an administrator, and was one at first. -/
lemma administrator_before {reqs : Nat → Request} {w : World} {s : Server} {env : Env} {i : Nat}
    (authorized : Authorized env reqs (boot env reqs w) s i)
    (roles : (reqs i).handler.route.roles = [.ADMIN]) : ∃ u ∈ w.users, u.role = .ADMIN := by
  obtain ⟨_, _, _, u, _, c₁, _, _, _, _, _, before, _, _, _, _, _, _, _, _, hu, _, role⟩ :=
    authorized
  rw [roles, List.mem_singleton] at role
  obtain ⟨v, hv, _, admin⟩ := admins_before before u hu role
  exact ⟨v, hv, admin⟩

lemma own_ne_nil_of_ended {reqs : Nat → ShopRequest} {w : Shop} {s : ShopConfig}
    (run : ShopReachable reqs w s) {i : Nat} {x : Except ShopFailure ShopAnswer}
    (ended : (s.pool i).outcome = some x) : own i s.history ≠ [] := by
  intro none
  have after := leads_after run i
  rw [none] at after
  have same : s.pool i = (reqs i).run := after
  rw [same, shopRequest_waits] at ended
  cases ended

end Runs

/-- The requests that the catalog has answered were served there as if one after another,
which made of the first rows what they are; each of them that may have changed any was let
through for a user whose stored role was ADMIN then. Where there was no administrator at
first, the catalog never changes. -/
theorem catalog_changed_by_administrators {Cell : Type} (api : Api)
    (storage : ThrottlerStorage Cell) (reqs : Nat → ApiRequest) (w : ApiWorld Cell api.mail.xl)
    (c : ApiConfig api Cell)
    (run : ApiReachable api storage reqs w c) :
    (∃ order, (order.map Prod.fst).Nodup ∧
      c.world.catalog.contents =
        contentsAfter (fun i => (reqs i).shopRequest) w.catalog.contents order ∧
      (∀ i out, (reqs i).shop ≠ none → (c.pool i).outcome = some out →
        (∃ e, out = .error e ∧ ∀ failure, e ≠ .catalog failure) ∨
          ∃ x alone, out = (x.mapError .catalog).map .catalog ∧ (i, alone) ∈ order ∧
            AgreesButLost x alone) ∧
      ∃ s : Server, Reachable api.env (fun i => (reqs i).seen) w.accounts s ∧
        s.world = c.world.accounts ∧
        (∀ i, own i s.history = (own i c.history).filterMap accountCall) ∧
        ∀ i ∈ order.map Prod.fst, (reqs i).shopRequest.Writes →
          Authorized api.env (fun i => (reqs i).seen)
            (boot api.env (fun i => (reqs i).seen) w.accounts) s i) ∧
    ((∀ u ∈ w.accounts.users, u.role ≠ .ADMIN) →
      c.world.catalog.contents = w.catalog.contents) := by
  obtain ⟨s, reach, projects⟩ := projects_catalog run
  obtain ⟨order, lin⟩ := linearizes (fun i => run_endsAtomically (reqs i).shopRequest) reach
  have contents := serially_contents lin.serial
  rw [projects.world] at contents
  have asked : ∀ i ∈ order.map Prod.fst, (own i c.history).filterMap catalogCall ≠ [] := by
    intro i listed
    have made := ((lin.listed i).mp listed).1
    rwa [projects.calls] at made
  obtain ⟨accounts, reached, seen⟩ := projects_accounts run
  have authorized := fun i listed writes =>
    writer_authorized run reached seen.calls (asked i listed) writes
  refine ⟨⟨order, lin.once, contents, fun i out asks ended => ?_,
    accounts, reached, seen.world, seen.calls, authorized⟩, fun none => ?_⟩
  · rcases follows_outcome (projects.follows i) ended with ⟨_, rejected⟩ | ⟨x, there, _, same⟩
    · exact .inl (rejected asks)
    · have listed : i ∈ order.map Prod.fst :=
        (lin.listed i).mpr ⟨own_ne_nil_of_ended reach there, by simp [there]⟩
      obtain ⟨⟨_, alone⟩, mem, rfl⟩ := List.mem_map.mp listed
      obtain ⟨x', there', agrees⟩ := lin.agrees _ alone mem
      obtain rfl := Option.some.inj (there.symm.trans there')
      exact .inr ⟨x, alone, same, mem, agrees⟩
  · refine contents.trans (contentsAfter_reads fun i listed writes => ?_)
    obtain ⟨u, hu, admin⟩ :=
      administrator_before (authorized i listed writes) (restricted_of_writes writes)
    exact none u hu admin

theorem catalog_changed_by_administrators_morning :
    ∃ c, ApiReachable Plain.api Plain.slidingWindow Plain.morning Plain.apiWorld c ∧
      c.world.catalog.categories = [{ id := 1, name := "Vinos" }] ∧
      ∃ s : Server, s.world = c.world.accounts ∧
        own 0 s.history = (own 0 c.history).filterMap accountCall ∧
        Authorized Plain.env (fun i => (Plain.morning i).seen)
          (boot Plain.env (fun i => (Plain.morning i).seen) Plain.adminWorld) s 0 := by
  have shown : (play (apiExec _ Plain.env Plain.slidingWindow) Plain.morningCalls
      (openApi Plain.api Plain.morning Plain.apiWorld)).any (fun c => decide
        ((c.pool 0).outcome = some (.ok (.catalog (.categoryRow { id := 1, name := "Vinos" }))) ∧
          c.world.catalog.categories = [{ id := 1, name := "Vinos" }])) = true := by
    decide +kernel
  obtain ⟨c, run, ended⟩ := leads_of_play _ shown
  obtain ⟨created, rows⟩ := of_decide_eq_true ended
  obtain ⟨⟨order, -, -, answers, s, -, same, calls, authorized⟩, -⟩ :=
    catalog_changed_by_administrators Plain.api Plain.slidingWindow Plain.morning Plain.apiWorld c
      run
  have asks : (Plain.morning 0).shop ≠ none := by
    simp [Plain.morning, ApiRequest.shop, CatalogHandler.parse, Except.toOption]
  rcases answers 0 _ asks created with ⟨e, failed, -⟩ | ⟨x, alone, -, mem, -⟩
  · cases failed
  · exact ⟨c, run, rows, s, same, calls 0, authorized 0 (List.mem_map_of_mem mem) trivial⟩

end BajaValle
