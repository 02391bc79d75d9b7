import BajaValle.Lib.Embeddings
import BajaValle.Requests
import BajaValle.Serial
import BajaValle.Tables

/-!
# The first administrator

The script promotes the account of `SEED_ADMIN_EMAIL`, or creates it. It may run while
the server does, and more than once: it alone makes administrators, and what it has made
one stays one.
-/

namespace BajaValle

open CallPrograms Prog Interleaving

structure SeedVars where
  SEED_ADMIN_EMAIL : Option String := none
  SEED_ADMIN_PASSWORD : Option String := none
  SEED_ADMIN_FIRST_NAME : Option String := none
  SEED_ADMIN_LAST_NAME : Option String := none

/-- An `Error` of the script itself, or one that a service has thrown. -/
inductive SeedFailure where
  | error (message : String)
  | service (failure : Failure)
  deriving DecidableEq

inductive Seeded where
  | promoted (id : Uuid)
  | created (id : Uuid)
  deriving DecidableEq

/-- The account that the script names when it ends well. -/
def Seeded.id : Seeded → Uuid
  | .promoted id => id
  | .created id => id

namespace SeedAdmin

def PASSWORD_MIN : Nat := 10
def PASSWORD_MAX : Nat := 128

def emailMissing : SeedFailure := .error "Define SEED_ADMIN_EMAIL"

def passwordMissing : SeedFailure :=
  .error ("Define SEED_ADMIN_PASSWORD (" ++ toString PASSWORD_MIN ++ "-" ++
    toString PASSWORD_MAX ++ " caracteres)")

/-- An empty variable counts as none. -/
def email (vars : SeedVars) : Option String := vars.SEED_ADMIN_EMAIL.filter (· ≠ "")

def password (vars : SeedVars) : Option String :=
  vars.SEED_ADMIN_PASSWORD.filter fun password =>
    PASSWORD_MIN ≤ utf16Length password ∧ utf16Length password ≤ PASSWORD_MAX

abbrev SeedTask (α : Type) := Prog Op Op.Res SeedFailure α

def awaiting {α : Type} (task : Task α) : SeedTask α := task.mapError .service

variable (env : Env) (vars : SeedVars)

def createAdmin (email : String) : SeedTask Seeded :=
  match password vars with
  | none => .throw passwordMissing
  | some password => awaiting do
    Prog.ofExcept (PasswordService.assertAcceptable env password (some email))
    let passwordHash ← PasswordService.hash password
    let admin ← UsersService.create env email (vars.SEED_ADMIN_FIRST_NAME.getD "Admin")
      (vars.SEED_ADMIN_LAST_NAME.getD "Baja Valle") passwordHash (some .ADMIN)
    return .created admin.id

def main : SeedTask Seeded :=
  match email vars with
  | none => .throw emailMissing
  | some email => do
    match ← awaiting (UsersService.findByEmail env email) with
    | some existing => awaiting do
      let _ ← UsersService.updateRole existing.id .ADMIN
      return .promoted existing.id
    | none => createAdmin env vars email

end SeedAdmin

/-- A request of the server, or a run of the script beside it. -/
inductive Process where
  | request (req : Request)
  | seed (vars : SeedVars)

inductive ProcessAnswer where
  | answer (answer : Answer)
  | seeded (seeded : Seeded)
  deriving DecidableEq

def Process.run (env : Env) : Process → SeedAdmin.SeedTask ProcessAnswer
  | .request req => .answer <$> (serve env req).mapError .service
  | .seed vars => .seeded <$> SeedAdmin.main env vars

abbrev SeededServer := Config Nat World Choice Op Op.Res SeedFailure ProcessAnswer

def bootSeeded (env : Env) (procs : Nat → Process) (w : World) : SeededServer :=
  start w fun i => (procs i).run env

/-- These calls have found the account of the script and promoted it, or created it. -/
def Grants (env : Env) (vars : SeedVars) (h : List OwnCall) (id : Uuid) : Prop :=
  ∃ email, SeedAdmin.email vars = some email ∧
    ((∃ u u', (⟨.userFindByEmailHash (UsersService.emailHash env email), .ok (some u)⟩ :
        OwnCall) ∈ h ∧ u.id = id ∧
        (⟨.userUpdate id { role := some .ADMIN }, .ok u'⟩ : OwnCall) ∈ h) ∨
      ∃ d u', (⟨.userCreate d, .ok u'⟩ : OwnCall) ∈ h ∧ u'.id = id ∧ d.role = .ADMIN ∧
        d.emailHash = UsersService.emailHash env email)

/-- What the script may write: the role of the row it found, or the row it found missing. -/
def SeedMay (env : Env) (vars : SeedVars) (h : List OwnCall) : Op → Prop
  | .userUpdate id changes => changes = { role := some .ADMIN } ∧
    ∃ email u, SeedAdmin.email vars = some email ∧ u.id = id ∧
      (⟨.userFindByEmailHash (UsersService.emailHash env email), .ok (some u)⟩ : OwnCall) ∈ h
  | .userCreate d => d.role = .ADMIN ∧
    ∃ email, SeedAdmin.email vars = some email ∧ d.emailHash = UsersService.emailHash env email
  | op => ReadOnly op

/-- A request writes no role. -/
def Roleless : Op → Prop
  | .userCreate d => d.role = .CLIENT
  | .userUpdate _ changes => changes.role = none
  | _ => True

def Process.May (env : Env) (h : List OwnCall) (op : Op) : Process → Prop
  | .request _ => Roleless op
  | .seed vars => SeedMay env vars h op

section Programs
variable {env : Env} {vars : SeedVars} {h : List OwnCall}

lemma ReadOnly.seedMay {op : Op} (reads : ReadOnly op) : SeedMay env vars h op := by
  cases op with
  | userCreate d => exact reads.elim
  | userUpdate id changes => exact reads.elim
  | _ => exact reads

lemma reads_seedMay {α : Type} {p : Task α} (uses : p.Uses ReadOnly) :
    p.Obeys (SeedMay env vars) (fun h' _ => Extends ReadOnly h h') h :=
  uses_obeys uses fun _ _ _ reads => reads.seedMay

lemma findByEmail_seedMay (email : String) : (UsersService.findByEmail env email).Obeys
    (SeedMay env vars) (fun h' found => h' =
      ⟨.userFindByEmailHash (UsersService.emailHash env email), .ok found⟩ :: h) h := by
  refine ⟨trivial, fun r => ?_⟩
  cases r with
  | ok found => exact rfl
  | error e => trivial

lemma promote_seedMay {email : String} {u : User} (given : SeedAdmin.email vars = some email)
    (found : (⟨.userFindByEmailHash (UsersService.emailHash env email), .ok (some u)⟩ : OwnCall) ∈
      h) : (UsersService.updateRole u.id .ADMIN).Obeys (SeedMay env vars)
        (fun h' _ => Grants env vars h' u.id) h := by
  refine ⟨⟨rfl, email, u, given, rfl, found⟩, fun r => ?_⟩
  cases r with
  | ok u' =>
    exact ⟨email, given, .inl ⟨u, u', List.mem_cons_of_mem _ found, rfl, List.mem_cons_self⟩⟩
  | error e => trivial

lemma create_seedMay {email firstName lastName passwordHash : String}
    (given : SeedAdmin.email vars = some email) :
    (UsersService.create env email firstName lastName passwordHash (some .ADMIN)).Obeys
      (SeedMay env vars) (fun h' admin => Grants env vars h' admin.id) h := by
  rw [UsersService.create_eq]
  refine obeys_bind (reads_seedMay (encryptFresh_uses env _ _)) fun h₁ _ _ => ?_
  refine obeys_bind (reads_seedMay (encryptFresh_uses env _ _)) fun h₂ _ _ => ?_
  refine obeys_bind (reads_seedMay (encryptFresh_uses env _ _)) fun h₃ _ _ => ?_
  refine ⟨⟨rfl, email, given, rfl⟩, fun r => ?_⟩
  cases r with
  | ok admin =>
    exact ⟨email, given, .inr ⟨_, admin, List.mem_cons_self, rfl, rfl, rfl⟩⟩
  | error e => cases e <;> trivial

theorem main_obeys : (SeedAdmin.main env vars).Obeys (SeedMay env vars)
    (fun h' seeded => Grants env vars h' seeded.id) [] := by
  unfold SeedAdmin.main
  split
  · trivial
  · rename_i email given
    refine obeys_bind (obeys_mapError (findByEmail_seedMay email)) ?_
    rintro _ (_ | u) rfl
    · unfold SeedAdmin.createAdmin
      dsimp only
      split
      · trivial
      · refine obeys_mapError (obeys_bind (reads_seedMay (ofExcept_uses _)) fun _ _ _ => ?_)
        refine obeys_bind (reads_seedMay (hash_uses _)) fun _ _ _ => ?_
        exact obeys_bind (create_seedMay given) fun _ admin grants => grants
    · exact obeys_mapError (obeys_bind (promote_seedMay given List.mem_cons_self)
        fun _ _ grants => grants)

end Programs

/-- Every call has only read, or has failed. -/
def Unwritten (h : List OwnCall) : Prop := ∀ k ∈ h, ReadOnly k.op ∨ Failed k

/-- An error comes before anything is written. -/
def FailsUnwritten {ε α : Type} (h : List OwnCall) (out : Except ε α) : Prop :=
  ∀ e, out = .error e → Unwritten h

section Failures
variable {env : Env} {vars : SeedVars} {h : List OwnCall} {ε α β : Type}

lemma Unwritten.cons {k : OwnCall} (unwritten : Unwritten h) (failed : Failed k) :
    Unwritten (k :: h) := List.forall_mem_cons.mpr ⟨.inr failed, unwritten⟩

lemma reads_unwritten_bind {p : Prog Op Op.Res ε α} {f : α → Prog Op Op.Res ε β}
    (uses : p.Uses ReadOnly) (unwritten : Unwritten h)
    (rest : ∀ h' a, Unwritten h' → (f a).Concludes FailsUnwritten h') :
    (p >>= f).Concludes FailsUnwritten h := by
  refine concludes_bind ((concludes_uses uses).mono fun h' out ext => ?_)
  have still : Unwritten h' := by
    intro k hk
    rcases ext.mem_or hk with old | reads
    · exact unwritten k old
    · exact .inl reads
  exact ⟨fun a _ => rest h' a still, fun _ _ _ _ => still⟩

lemma concludes_ok {f : α → β} {p : Task α} (fails : p.Concludes FailsUnwritten h) :
    (p >>= fun a => .ret (f a) : Task β).Concludes FailsUnwritten h := by
  refine concludes_bind (fails.mono fun h' out failed => ⟨?_, ?_⟩)
  · rintro a _ e ⟨⟩
  · rintro e rfl e' _
    exact failed e rfl

lemma awaiting_fails {p : Task α} (fails : p.Concludes FailsUnwritten h) :
    (SeedAdmin.awaiting p).Concludes FailsUnwritten h := by
  refine concludes_mapError (fails.mono fun h' out failed => ?_)
  cases out with
  | ok a => rintro e ⟨⟩
  | error e => exact fun _ _ => failed e rfl

lemma updateRole_fails (id : Uuid) (role : Role) (unwritten : Unwritten h) :
    (UsersService.updateRole id role).Concludes FailsUnwritten h := by
  intro r
  cases r with
  | ok u => rintro e ⟨⟩
  | error e => exact fun _ _ => unwritten.cons trivial

lemma create_fails (email firstName lastName passwordHash : String) (role : Option Role)
    (unwritten : Unwritten h) :
    (UsersService.create env email firstName lastName passwordHash role).Concludes
      FailsUnwritten h := by
  rw [UsersService.create_eq]
  refine reads_unwritten_bind (encryptFresh_uses env _ _) unwritten fun h₁ _ unwritten => ?_
  refine reads_unwritten_bind (encryptFresh_uses env _ _) unwritten fun h₂ _ unwritten => ?_
  refine reads_unwritten_bind (encryptFresh_uses env _ _) unwritten fun h₃ _ unwritten r => ?_
  cases r with
  | ok u => rintro e ⟨⟩
  | error e => cases e <;> exact fun _ _ => unwritten.cons trivial

/-- The script writes in its last call only. -/
theorem main_fails : (SeedAdmin.main env vars).Concludes FailsUnwritten [] := by
  have nothing : Unwritten [] := fun k hk => absurd hk List.not_mem_nil
  unfold SeedAdmin.main
  split
  · exact fun _ _ => nothing
  · refine reads_unwritten_bind (obeys_mapError (findByEmail_uses env _)) nothing ?_
    rintro h (_ | u) unwritten
    · unfold SeedAdmin.createAdmin
      dsimp only
      split
      · exact fun _ _ => unwritten
      · refine awaiting_fails (reads_unwritten_bind (ofExcept_uses _) unwritten
          fun h₁ _ unwritten => ?_)
        refine reads_unwritten_bind (hash_uses _) unwritten fun h₂ _ unwritten => ?_
        exact concludes_ok (create_fails _ _ _ _ _ unwritten)
    · exact awaiting_fails (concludes_ok (updateRole_fails _ _ unwritten))

end Failures

/-- The account that a call makes an administrator. -/
def makesAdmin : OwnCall → Option Uuid
  | ⟨.userUpdate id changes, .ok _⟩ => if changes.role = some .ADMIN then some id else none
  | ⟨.userCreate d, .ok u⟩ => if d.role = .ADMIN then some u.id else none
  | _ => none

section Steps
variable {env : Env} {ch : Choice} {op : Op} {r : op.Res} {w w' : World} {id : Uuid}

/-- Whoever is an administrator now was one before, or this call made it so. -/
lemma exec_administrators (answered : exec env ch op w = some (r, w')) {u' : User}
    (hu : u' ∈ w'.users) (admin : u'.role = .ADMIN) :
    (∃ u ∈ w.users, u.id = u'.id ∧ u.role = .ADMIN) ∨ makesAdmin ⟨op, r⟩ = some u'.id := by
  cases exec_rowSource answered hu with
  | stored old => exact .inl ⟨u', old, rfl, admin⟩
  | inserted d unused => exact .inr (if_pos admin)
  | @updated changes u v old =>
    rw [UserChanges.apply_role] at admin
    cases role : changes.role with
    | none =>
      rw [role] at admin
      exact .inl ⟨v, old, rfl, admin⟩
    | some role' =>
      rw [role] at admin
      obtain rfl : role' = .ADMIN := admin
      exact .inr (if_pos role)

lemma exec_created {d : NewUser} {u' : User}
    (answered : exec env ch (.userCreate d) w = some (.ok u', w')) :
    u' ∈ w'.users ∧ u'.emailHash = d.emailHash := by
  have step := exec_users answered
  generalize called : (⟨.userCreate d, .ok u'⟩ : OwnCall) = k at step
  cases step with
  | kept _ leaves =>
    subst called
    exact leaves.elim
  | inserted d' rows =>
    cases called
    exact ⟨by simp [rows], rfl⟩
  | updated => cases called
  | deleted => cases called

/-- The account is an administrator's for as long as it exists. -/
structure Administers (w : World) (id : Uuid) : Prop where
  drawn : id ∈ w.uuids
  rows : ∀ u ∈ w.users, u.id = id → u.role = .ADMIN

/-- Calls that take the role from nobody. -/
def Demotes : Op → Prop
  | .userUpdate _ changes => changes.role = some .CLIENT
  | _ => False

lemma Administers.exec (administers : Administers w id) (keeps : ¬ Demotes op)
    (answered : exec env ch op w = some (r, w')) : Administers w' id := by
  refine ⟨(exec_spends answered).uuids administers.drawn, fun u' hu same => ?_⟩
  cases exec_rowSource answered hu with
  | stored old => exact administers.rows u' old same
  | inserted d unused =>
    rw [NewUser.row_id] at same
    exact absurd (same ▸ administers.drawn) unused
  | @updated changes u v old =>
    rw [UserChanges.apply_role]
    cases role : changes.role with
    | none => exact administers.rows v old same
    | some role' =>
      cases role' with
      | ADMIN => rfl
      | CLIENT => exact absurd role keeps

/-- Whom a call makes an administrator, it is one. -/
lemma makesAdmin_administers (consistent : Consistent w)
    (answered : exec env ch op w = some (r, w')) (makes : makesAdmin ⟨op, r⟩ = some id) :
    Administers w' id := by
  cases exec_users answered with
  | kept rows leaves =>
    cases op with
    | userCreate d => cases r with
      | ok u => exact leaves.elim
      | error e => cases makes
    | userUpdate x changes => cases r with
      | ok u => exact leaves.elim
      | error e => cases makes
    | _ => cases makes
  | inserted d rows unused =>
    obtain ⟨admin, same⟩ := Option.ite_none_right_eq_some.mp makes
    obtain rfl : ch.uuid = id := Option.some.inj same
    refine ⟨(exec_drawnUuid answered rfl).2, ?_⟩
    rw [rows]
    intro u hu same
    rcases List.mem_append.mp hu with old | new
    · exact absurd (same ▸ consistent.userIds u old) unused
    · obtain rfl := List.mem_singleton.mp new
      exact admin
  | updated x changes u found free rows =>
    obtain ⟨admin, same⟩ := Option.ite_none_right_eq_some.mp makes
    obtain rfl := Option.some.inj same
    have target : u.id = x := by simpa using List.find?_some found
    refine ⟨(exec_spends answered).uuids
      (target ▸ consistent.userIds u (List.mem_of_find?_eq_some found)), ?_⟩
    rw [rows]
    intro u' hu same
    obtain ⟨v, hv, rfl⟩ := List.mem_map.mp hu
    split_ifs at same ⊢ with here
    · rw [UserChanges.apply_role, admin]
      rfl
    · exact absurd same here
  | deleted => cases makes

end Steps

section Runs
variable {env : Env} {procs : Nat → Process} {w : World} {c : SeededServer} {vars : SeedVars}
  {h : List OwnCall} {id : Uuid}

lemma May.roleless {req : Request} {op : Op} (may : BajaValle.May env req h op) : Roleless op := by
  cases op with
  | userCreate d => exact may
  | userUpdate x changes => exact may
  | _ => trivial

lemma Process.May.keeps {proc : Process} {op : Op} (may : proc.May env h op) : ¬ Demotes op := by
  intro demotes
  cases op with
  | userUpdate x changes =>
    have demoted : changes.role = some .CLIENT := demotes
    cases proc with
    | request req =>
      have kept : changes.role = none := may
      rw [kept] at demoted
      cases demoted
    | seed vars =>
      rw [may.1] at demoted
      cases demoted
  | _ => exact demotes

/-- Only the script makes an administrator, of the account it found or created. -/
lemma Process.May.grants {proc : Process} {k : OwnCall} (may : proc.May env h k.op)
    (makes : makesAdmin k = some id) :
    ∃ vars, proc = .seed vars ∧ Grants env vars (k :: h) id := by
  obtain ⟨op, r⟩ := k
  cases op with
  | userCreate d =>
    cases r with
    | error e => cases makes
    | ok u' =>
      obtain ⟨admin, same⟩ := Option.ite_none_right_eq_some.mp makes
      cases proc with
      | request req =>
        have client : d.role = .CLIENT := may
        rw [client] at admin
        cases admin
      | seed vars =>
        obtain ⟨_, email, given, hashed⟩ := may
        exact ⟨vars, rfl, email, given,
          .inr ⟨d, u', List.mem_cons_self, Option.some.inj same, admin, hashed⟩⟩
  | userUpdate x changes =>
    cases r with
    | error e => cases makes
    | ok u' =>
      obtain ⟨admin, same⟩ := Option.ite_none_right_eq_some.mp makes
      cases proc with
      | request req =>
        have kept : changes.role = none := may
        rw [kept] at admin
        cases admin
      | seed vars =>
        obtain ⟨rfl, email, u, given, found, read⟩ := may
        obtain rfl := Option.some.inj same
        exact ⟨vars, rfl, email, given,
          .inl ⟨u, u', List.mem_cons_of_mem _ read, found, List.mem_cons_self⟩⟩
  | _ => cases makes

lemma Grants.mono {h' : List OwnCall} (grants : Grants env vars h id) (sub : h ⊆ h') :
    Grants env vars h' id := by
  obtain ⟨email, given, ⟨u, u', read, found, written⟩ | ⟨d, u', written, made⟩⟩ := grants
  · exact ⟨email, given, .inl ⟨u, u', sub read, found, sub written⟩⟩
  · exact ⟨email, given, .inr ⟨d, u', sub written, made⟩⟩

lemma Grants.makes (grants : Grants env vars h id) : ∃ k ∈ h, makesAdmin k = some id := by
  obtain ⟨_, _, ⟨u, u', _, _, written⟩ | ⟨d, u', written, rfl, admin, _⟩⟩ := grants
  · exact ⟨_, written, rfl⟩
  · exact ⟨_, written, if_pos admin⟩

theorem run_obeys (proc : Process) : (proc.run env).Obeys (fun h op => proc.May env h op)
    (fun h answer => ∀ vars seeded, proc = .seed vars → answer = .seeded seeded →
      Grants env vars h seeded.id) [] := by
  cases proc with
  | request req =>
    have roleless : (serve env req).Obeys (fun _ op => Roleless op) (Ends req) [] :=
      (serve_obeys env req).mono (fun _ _ may => May.roleless may) fun _ _ ends => ends
    refine obeys_bind (obeys_mapError roleless) ?_
    rintro h answer _ vars seeded ⟨⟩
  | seed vars =>
    refine obeys_bind main_obeys ?_
    rintro h seeded grants _ _ ⟨⟩ ⟨⟩
    exact grants

lemma seeded_obeys (procs : Nat → Process) (w : World) :
    PoolObeys (fun i h op => (procs i).May env h op)
      (fun i h answer => ∀ vars seeded, procs i = .seed vars → answer = .seeded seeded →
        Grants env vars h seeded.id) (bootSeeded env procs w) :=
  fun i => run_obeys (procs i)

/-- At some moment of the run the account carried the email of the script. -/
def Carried (env : Env) (c₀ c : SeededServer) (vars : SeedVars) (id : Uuid) : Prop :=
  ∃ email c₁ v, SeedAdmin.email vars = some email ∧ Leads (exec env) c₀ c₁ ∧
    Leads (exec env) c₁ c ∧ v ∈ c₁.world.users ∧ v.id = id ∧
    v.emailHash = UsersService.emailHash env email

lemma Grants.carried {i : Nat} (run : Leads (exec env) (bootSeeded env procs w) c)
    (grants : Grants env vars (own i c.history) id) :
    Carried env (bootSeeded env procs w) c vars id := by
  obtain ⟨email, given, ⟨u, _, read, rfl, _⟩ | ⟨d, u', written, rfl, _, hashed⟩⟩ := grants
  · obtain ⟨ch, made⟩ := mem_own.mp read
    obtain ⟨c₁, c₂, before, fired, history, after⟩ :=
      leads_split_new run made List.not_mem_nil
    have later := leads_trans (leads_of_fire fired) after
    obtain ⟨op, next, r, w', _, answered, rfl⟩ := fire_eq_some.mp fired
    cases (List.cons.inj history).1
    obtain ⟨_, ⟨_, failed⟩ | found⟩ := exec_userFindByEmailHash answered
    · cases failed
    · have found := (Except.ok.inj found).symm
      exact ⟨email, c₁, u, given, before, later, List.mem_of_find?_eq_some found, rfl,
        by simpa using List.find?_some found⟩
  · obtain ⟨ch, made⟩ := mem_own.mp written
    obtain ⟨c₁, c₂, before, fired, history, after⟩ :=
      leads_split_new run made List.not_mem_nil
    have earlier := leads_trans before (leads_of_fire fired)
    obtain ⟨op, next, r, w', _, answered, rfl⟩ := fire_eq_some.mp fired
    cases (List.cons.inj history).1
    obtain ⟨stored, same⟩ := exec_created answered
    exact ⟨email, _, u', given, earlier, after, stored, rfl, same.trans hashed⟩

/-- The script of process `i` has made the account an administrator's. -/
def SeededBy (env : Env) (procs : Nat → Process) (w : World) (c : SeededServer) (i : Nat)
    (id : Uuid) : Prop :=
  ∃ vars, procs i = .seed vars ∧ Grants env vars (own i c.history) id ∧
    Carried env (bootSeeded env procs w) c vars id

lemma administrators_granted (run : Leads (exec env) (bootSeeded env procs w) c) :
    ∀ u ∈ c.world.users, u.role = .ADMIN → (∃ v ∈ w.users, v.id = u.id ∧ v.role = .ADMIN) ∨
      ∃ i vars, procs i = .seed vars ∧ Grants env vars (own i c.history) u.id := by
  refine leads_world_invariant (I := fun v history => ∀ u ∈ v.users, u.role = .ADMIN →
    (∃ v ∈ w.users, v.id = u.id ∧ v.role = .ADMIN) ∨
      ∃ i vars, procs i = .seed vars ∧ Grants env vars (own i history) u.id) run
    (seeded_obeys procs w) (fun u hu admin => .inl ⟨u, hu, rfl, admin⟩) ?_
  intro c i ch op r w' _ ih may answered u' hu admin
  rcases exec_administrators answered hu admin with ⟨u, stored, same, role⟩ | makes
  · rcases ih u stored role with ⟨v, hv, id, was⟩ | ⟨j, vars, seeds, grants⟩
    · exact .inl ⟨v, hv, id.trans same, was⟩
    · exact .inr ⟨j, vars, seeds, same ▸ grants.mono own_subset_cons⟩
  · obtain ⟨vars, seeds, grants⟩ := Process.May.grants may makes
    exact .inr ⟨i, vars, seeds, by simpa using grants⟩

lemma made_administer (consistent : Consistent w)
    (run : Leads (exec env) (bootSeeded env procs w) c) :
    Consistent c.world ∧ ∀ e ∈ c.history, ∀ id, makesAdmin e.call = some id →
      Administers c.world id := by
  refine leads_world_invariant (I := fun v history => Consistent v ∧ ∀ e ∈ history, ∀ id,
    makesAdmin e.call = some id → Administers v id) run (seeded_obeys procs w)
    ⟨consistent, fun e he => absurd he List.not_mem_nil⟩ ?_
  rintro c i ch op r w' _ ⟨consistent, ih⟩ may answered
  refine ⟨consistent.exec answered, ?_⟩
  intro e he id makes
  rcases List.mem_cons.mp he with rfl | old
  · exact makesAdmin_administers consistent answered makes
  · exact (ih e old id makes).exec (Process.May.keeps may) answered

end Runs

/-- Beside the administrators there were at first there are those only whose account a run
of the script promoted or created, for an email that the account then carried. Whom a run
that ended well names is an administrator from then on, and a run that failed has
written nothing. -/
theorem administrators_are_seeded (env : Env) (procs : Nat → Process) (w : World)
    (c : SeededServer) (consistent : Consistent w)
    (run : Leads (exec env) (bootSeeded env procs w) c) :
    (∀ u ∈ c.world.users, u.role = .ADMIN →
      (∃ v ∈ w.users, v.id = u.id ∧ v.role = .ADMIN) ∨ ∃ i, SeededBy env procs w c i u.id) ∧
    (∀ i vars seeded, procs i = .seed vars →
      (c.pool i).outcome = some (.ok (.seeded seeded)) →
        SeededBy env procs w c i seeded.id ∧ Administers c.world seeded.id) ∧
    ∀ i vars e, procs i = .seed vars → (c.pool i).outcome = some (.error e) →
      Unwritten (own i c.history) := by
  refine ⟨?_, ?_, ?_⟩
  · intro u hu admin
    rcases administrators_granted run u hu admin with first | ⟨i, vars, seeds, grants⟩
    · exact .inl first
    · exact .inr ⟨i, vars, seeds, grants, grants.carried run⟩
  · intro i vars seeded seeds ended
    have here := leads_poolObeys run (seeded_obeys procs w) i
    rw [outcome_eq_ok.mp ended] at here
    have grants := here vars seeded seeds rfl
    obtain ⟨k, called, makes⟩ := grants.makes
    obtain ⟨ch, made⟩ := mem_own.mp called
    exact ⟨⟨vars, seeds, grants, grants.carried run⟩,
      (made_administer consistent run).2 _ made _ makes⟩
  · intro i vars e seeds failed
    have ends : ∀ i, ((procs i).run env).Concludes
        (fun h out => ∀ vars, procs i = .seed vars → FailsUnwritten h out) [] := by
      intro i
      cases seeds : procs i with
      | request req =>
        refine (concludes_uses (uses_true _)).mono fun _ _ _ => ?_
        rintro vars ⟨⟩
      | seed vars =>
        refine concludes_bind (main_fails.mono fun h out fails => ⟨?_, ?_⟩)
        · rintro a _ vars _ e ⟨⟩
        · rintro e rfl vars _ e' _
          exact fails e rfl
    exact leads_concludes ends run failed vars seeds e rfl

namespace Plain

/-- One run of the script promotes the account there is; the other is given no password. -/
def seeding : Nat → Process
  | 0 => .seed { SEED_ADMIN_EMAIL := some "ana@valle.mx" }
  | 1 => .seed { SEED_ADMIN_EMAIL := some "luz@valle.mx" }
  | _ => .request (login "secret")

def seedingCalls : List (Nat × Choice) :=
  [(0, { now := 1 }), (1, { now := 2 }), (0, { now := 3 })]

end Plain

theorem administrators_are_seeded_promoted :
    ∃ c, Leads (exec Plain.env) (bootSeeded Plain.env Plain.seeding Plain.world) c ∧
      Administers c.world 1 ∧ Unwritten (own 1 c.history) := by
  have shown : (play (exec Plain.env) Plain.seedingCalls
      (bootSeeded Plain.env Plain.seeding Plain.world)).any (fun c =>
        decide ((c.pool 0).outcome = some (.ok (.seeded (.promoted 1))) ∧
          (c.pool 1).outcome = some (.error SeedAdmin.passwordMissing))) = true := by
    decide +kernel
  obtain ⟨c, run, ended⟩ := leads_of_play _ shown
  obtain ⟨promoted, refused⟩ := of_decide_eq_true ended
  have seeded := administrators_are_seeded Plain.env Plain.seeding Plain.world c
    Plain.world_consistent run
  exact ⟨c, run, (seeded.2.1 0 _ _ rfl promoted).2, seeded.2.2 1 _ _ rfl refused⟩

end BajaValle
