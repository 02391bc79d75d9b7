import BajaValle.Admission
import BajaValle.Lib.SerialRuns

/-!
# Authorization

A handler with roles runs only for a user whose stored role was among them when
the guard read the session. The role claim of the token decides nothing, and no
request gives anyone a role.
-/

namespace BajaValle

open CallPrograms Prog Interleaving SessionsService

/-- The user `u`, whose role is among those of the handler, held the live
session `s` named by the token of the request when the guard read it. -/
def Authorized (env : Env) (reqs : Nat → Request) (c₀ c : Server) (i : Nat) : Prop :=
  ∃ token payload s u verifiedAt c₁ c₂ ch, carried (reqs i).authorization = some token ∧
    env.jwtVerify token verifiedAt = some payload ∧ verifiedAt ≤ ch.now ∧
    Leads (exec env) c₀ c₁ ∧ fire (exec env) i ch c₁ = some c₂ ∧
    c₂.history = ⟨i, ch, foundActive payload s u⟩ :: c₁.history ∧ Leads (exec env) c₂ c ∧
    s ∈ c₁.world.sessions ∧ s.id = payload.sid ∧ s.userId = payload.sub ∧
    s.revokedAt = none ∧ ch.now < s.expiresAt ∧
    u ∈ c₁.world.users ∧ u.id = payload.sub ∧ u.role ∈ (reqs i).handler.route.roles

section Role
variable {env : Env} {route : Route}

end Role

section Runs
variable {env : Env} {reqs : Nat → Request} {w : World} {c c' : Server}

lemma verified_at {c₀ : Server} (fresh : c₀.history = []) (run : Leads (exec env) c₀ c) {i : Nat}
    {token : String} {payload : AccessTokenPayload}
    (call : verified token payload ∈ own i c.history) :
    ∃ now ≤ c.world.clock, env.jwtVerify token now = some payload := by
  refine leads_invariant (P := fun x => verified token payload ∈ own i x.history →
    ∃ now ≤ x.world.clock, env.jwtVerify token now = some payload) ?_ run (by simp [fresh]) call
  intro x x' j ch ih fired call
  obtain ⟨op, next, r, w', _, answered, rfl⟩ := fire_eq_some.mp fired
  have spends := exec_spends answered
  rcases mem_own_cons.mp call with ⟨rfl, made⟩ | old
  · cases made
    obtain ⟨_, answered⟩ := exec_eq_some.mp answered
    obtain ⟨accepted, rfl⟩ := Prod.mk.inj (Option.some.inj answered)
    exact ⟨ch.now, Nat.le_refl _, accepted⟩
  · obtain ⟨now, before, accepted⟩ := ih old
    exact ⟨now, Nat.le_trans before (spends.clock ▸ spends.later), accepted⟩

lemma passed_authorized (reach : Reachable env reqs w c) {i : Nat} {user : Option AuthUser}
    (passed : Passed (reqs i) (own i c.history) user)
    (restricted : (reqs i).handler.route.roles ≠ []) :
    Authorized env reqs (boot env reqs w) c i := by
  obtain ⟨_, _, cleared, _⟩ := passed.cleared
  obtain ⟨au, rfl, allowed⟩ := cleared.allowed restricted
  obtain ⟨token, payload, s, u, carries, owner, rfl, c₁, c₂, ch, before, fired, history, calls,
    after⟩ := (passed.since reach).resolve_left not_passed_boot
  have call : verified token payload ∈ own i c₁.history := by simp [calls]
  obtain ⟨now, early, accepted⟩ := verified_at rfl before call
  obtain ⟨⟨hs, id, live, unexpired⟩, hu, user⟩ := read_active fired history
  have later : c₁.world.clock ≤ ch.now := by
    obtain ⟨op, next, r, w', _, answered, _⟩ := fire_eq_some.mp fired
    exact (exec_spends answered).later
  exact ⟨token, payload, s, u, now, c₁, c₂, ch, carries, accepted, Nat.le_trans early later,
    before, fired, history, after, hs, id, owner, live, unexpired, hu, user.trans owner, allowed⟩

/-- No call of a request makes anyone an administrator. -/
lemma exec_admins {req : Request} {h : List OwnCall} {ch : Choice} {op : Op} {r : op.Res}
    {w w' : World} (may : May env req h op) (answered : exec env ch op w = some (r, w'))
    {u' : User} (hu : u' ∈ w'.users) (admin : u'.role = .ADMIN) :
    ∃ u ∈ w.users, u.id = u'.id ∧ u.role = .ADMIN := by
  cases exec_users answered with
  | kept rows => exact ⟨u', rows ▸ hu, rfl, admin⟩
  | inserted d rows =>
    rw [rows] at hu
    rcases List.mem_append.mp hu with old | new
    · exact ⟨u', old, rfl, admin⟩
    · obtain rfl := List.mem_singleton.mp new
      have client : d.role = .CLIENT := may
      rw [NewUser.row_role, client] at admin
      cases admin
  | updated id changes u found free rows =>
    have keeps : changes.role = none := may
    rw [rows] at hu
    obtain ⟨v, hv, rfl⟩ := List.mem_map.mp hu
    refine ⟨v, hv, ?_⟩
    split_ifs at admin ⊢
    · rw [UserChanges.apply_role, keeps] at admin
      exact ⟨rfl, admin⟩
    · exact ⟨rfl, admin⟩
  | deleted id u found rows =>
    rw [rows] at hu
    exact ⟨u', (List.mem_filter.mp hu).1, rfl, admin⟩

lemma admins_before (reach : Reachable env reqs w c) :
    ∀ u ∈ c.world.users, u.role = .ADMIN → ∃ v ∈ w.users, v.id = u.id ∧ v.role = .ADMIN := by
  refine leads_world_invariant (I := fun v _ => ∀ u ∈ v.users, u.role = .ADMIN →
    ∃ v ∈ w.users, v.id = u.id ∧ v.role = .ADMIN) reach (boot_obeys env reqs w)
    (fun u hu admin => ⟨u, hu, rfl, admin⟩) ?_
  intro c i ch op r w' _ ih may answered u' hu admin
  obtain ⟨u, stored, same, role⟩ := exec_admins may answered hu admin
  obtain ⟨v, hv, id, was⟩ := ih u stored role
  exact ⟨v, hv, id.trans same, was⟩

end Runs

namespace Plain

/-- An administrator in a live session. -/
def adminWorld : World :=
  { world with users := [{ user with role := .ADMIN }], sessions := [firstSession] }

end Plain

end BajaValle
