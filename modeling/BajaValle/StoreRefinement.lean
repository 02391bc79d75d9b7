import BajaValle.KeySets
import BajaValle.PlaintextStore

/-!
# The table refines the store

The specification of every operation over the plaintext store, and runs of
operations and key changes in any order. In every state of such a run there is
one store that the table represents, and each operation run next does to the
table what its specification does to the store.
-/

namespace BajaValle

open CallPrograms Prog EncryptionService Reencrypt

def Person.rename (p : Person) (names : UserNames) : Person where
  email := p.email
  firstName := names.firstName.getD p.firstName
  lastName := names.lastName.getD p.lastName

/-- The row of one id is replaced and every other row is as it was. -/
def OnlyRow (id : Uuid) (kept : User → User → Prop) (w w' : World) : Prop :=
  ∃ f : User → User, (w'.users = w.users.map fun v => if v.id = id then f v else v) ∧
    ∀ v ∈ w.users, v.id = id → kept v (f v)

section Specifications
variable (env : Env) (w : World) (store : Store) (w' : World)

/-- `found` is the one row with the normal form of the email. -/
structure FindSpec (email : String) (out : Except Failure (Option User)) : Prop where
  found_iff : ∀ u, out = .ok (some u) ↔
    u ∈ w.users ∧ ∃ p, store u.id = some p ∧ p.email = normalizeEmail env.unicode email
  null_iff : out = .ok none ↔ ∀ id p, store id = some p → p.email ≠ normalizeEmail env.unicode email
  kept : w'.users = w.users ∧ Represents env w' store

structure CreateSpec (email firstName lastName passwordHash : String) (role : Option Role)
    (out : Except Failure User) : Prop where
  conflict_iff : out = .error UsersService.emailConflict ↔
    ∃ id p, store id = some p ∧ p.email = normalizeEmail env.unicode email
  refused : ∀ e, out = .error e →
    e = UsersService.emailConflict ∧ w'.users = w.users ∧ Represents env w' store
  created : ∀ u, out = .ok u → store u.id = none ∧ w'.users = w.users ++ [u] ∧
    u.passwordHash = passwordHash ∧ u.role = role.getD .CLIENT ∧ Represents env w'
      (store.insert u.id ⟨normalizeEmail env.unicode email, firstName, lastName⟩)

structure NameSpec (id : Uuid) (names : UserNames) (out : Except Failure User) : Prop where
  refused_iff : out = .error (.prisma .recordNotFound) ↔ store id = none
  refused : ∀ e, out = .error e →
    e = .prisma .recordNotFound ∧ w'.users = w.users ∧ Represents env w' store
  renamed : ∀ u, out = .ok u → ∃ p, store id = some p ∧
    Represents env w' (store.insert id (p.rename names)) ∧ OnlyRow id (fun v v' =>
      { v' with firstNameEnc := v.firstNameEnc, lastNameEnc := v.lastNameEnc,
                updatedAt := v.updatedAt } = v ∧
      (names.firstName = none → v'.firstNameEnc = v.firstNameEnc) ∧
      (names.lastName = none → v'.lastNameEnc = v.lastNameEnc)) w w'

structure EmailSpec (id : Uuid) (email : String) (out : Except Failure User) : Prop where
  conflict_iff : store id ≠ none → (out = .error UsersService.emailConflict ↔
    store.Held id (normalizeEmail env.unicode email))
  missing : store id = none → out = .error (.prisma .recordNotFound)
  refused : ∀ e, out = .error e → (e = UsersService.emailConflict ∨ store id = none) ∧
    w'.users = w.users ∧ Represents env w' store
  changed : ∀ u, out = .ok u → ∃ p, store id = some p ∧
    Represents env w' (store.insert id { p with email := normalizeEmail env.unicode email }) ∧
    OnlyRow id (fun v v' => { v' with emailHash := v.emailHash, emailEnc := v.emailEnc,
                                      updatedAt := v.updatedAt } = v) w w'

structure DeleteSpec (id : Uuid) (out : Except Failure Unit) : Prop where
  refused_iff : out = .error (.prisma .recordNotFound) ↔ store id = none
  refused : ∀ e, out = .error e →
    e = .prisma .recordNotFound ∧ w'.users = w.users ∧ Represents env w' store
  deleted : out = .ok () → w'.users = w.users.filter (·.id ≠ id) ∧
    Represents env w' (store.remove id)

/-- The reencrypt script is not seen in the store. -/
structure RotateSpec (out : Except Failure Nat) : Prop where
  completes : ∃ n, out = .ok n
  represents : Represents env w' store
  kept : w.users.Forall₂ (fun v v' =>
    { v' with emailEnc := v.emailEnc, firstNameEnc := v.firstNameEnc,
              lastNameEnc := v.lastNameEnc, updatedAt := v.updatedAt } = v) w'.users

end Specifications

section Refinement
variable {env : Env} {w w' : World} {store : Store} {h : List OwnCall} {id : Uuid}
  {email : String} (rep : Represents env w store)
include rep

lemma findByEmail_refines (hmac : HmacInjective env) {out : Except Failure (Option User)}
    (done : Alone env (UsersService.findByEmail env email) w h out w') :
    FindSpec env w store w' email out := by
  obtain ⟨grows, users, rfl⟩ := findByEmail_alone.finishes done
  have holds : ∀ u ∈ w.users, u.emailHash = UsersService.emailHash env email ↔
      ∃ p, store u.id = some p ∧ p.email = normalizeEmail env.unicode email := by
    intro u hu
    obtain ⟨p, entry⟩ := rep.rows u hu
    rw [UsersService.emailHash, entry.email_iff hmac]
    constructor
    · exact fun same => ⟨p, entry.entry, same⟩
    · rintro ⟨q, hq, same⟩
      obtain rfl := Option.some.inj (entry.entry.symm.trans hq)
      exact same
  refine ⟨fun u => ?_, ?_, users, rep.kept users grows⟩
  · constructor
    · intro found
      have found := Except.ok.inj found
      have hu := List.mem_of_find?_eq_some found
      exact ⟨hu, (holds u hu).mp (by simpa using List.find?_some found)⟩
    · rintro ⟨hu, person⟩
      have hash := (holds u hu).mpr person
      cases found : w.users.find? (·.emailHash = UsersService.emailHash env email) with
      | none => exact absurd hash (by simpa using List.find?_eq_none.mp found u hu)
      | some v =>
        have hv := List.mem_of_find?_eq_some found
        have same : v.emailHash = UsersService.emailHash env email := by
          simpa using List.find?_some found
        rw [rep.eq_of_id hv hu (rep.distinct v hv u hu (same.trans hash.symm))]
  · rw [Except.ok.injEq, List.find?_eq_none]
    constructor
    · intro absent id p hp same
      obtain ⟨u, hu, rfl, _⟩ := rep.entry hp
      have hash := (holds u hu).mpr ⟨p, hp, same⟩
      simpa using absent u hu (by simpa using hash)
    · intro absent u hu hash
      obtain ⟨p, hp, same⟩ := (holds u hu).mp (by simpa using hash)
      exact absent u.id p hp same

lemma create_refines (valid : ValidKeys env) (hmac : HmacInjective env)
    {firstName lastName passwordHash : String} {role : Option Role} {out : Except Failure User}
    (done : Alone env (UsersService.create env email firstName lastName passwordHash role) w h out
      w') : CreateSpec env w store w' email firstName lastName passwordHash role out := by
  obtain ⟨grows, created⟩ := (create_alone valid).finishes done
  have held : ∀ id, id ∉ w.uuids →
      (w.emailTaken id (UsersService.emailHash env email) = true ↔
        ∃ id p, store id = some p ∧ p.email = normalizeEmail env.unicode email) := by
    intro id drawn
    rw [UsersService.emailHash, rep.taken hmac]
    constructor
    · rintro ⟨other, p, _, hp, same⟩
      exact ⟨other, p, hp, same⟩
    · rintro ⟨other, p, hp, same⟩
      refine ⟨other, p, ?_, hp, same⟩
      rintro rfl
      obtain ⟨u, hu, rfl, _⟩ := rep.entry hp
      exact drawn (rep.drawn u hu)
  cases created with
  | conflict id drawn taken users =>
    refine ⟨⟨fun _ => (held id drawn).mp taken, fun _ => rfl⟩, ?_, by simp⟩
    rintro e ⟨⟩
    exact ⟨rfl, users, rep.kept users grows⟩
  | created u drawn free users now hash password hrole enciphered =>
    have untaken := mt (held u.id drawn).mpr (by simp [free])
    have fresh : store u.id = none := by
      by_contra some
      obtain ⟨p, hp⟩ := Option.ne_none_iff_exists'.mp some
      obtain ⟨v, hv, same, _⟩ := rep.entry hp
      exact drawn (same ▸ rep.drawn v hv)
    refine ⟨⟨by simp, fun taken => absurd taken untaken⟩, by simp, ?_⟩
    rintro _ ⟨⟩
    refine ⟨fresh, users, password, hrole, rep.insert fresh ?_ users grows now ?_⟩
    · intro v hv same
      obtain ⟨p, entry⟩ := rep.rows v hv
      exact untaken ⟨v.id, p, entry.entry, (entry.email_iff hmac _).mp (same.trans hash)⟩
    · exact ⟨by simp [Store.insert], enciphered, hash, normalizeEmail_idem _ _⟩

lemma updateName_refines (valid : ValidKeys env) {names : UserNames}
    (first : names.firstName ≠ some "") (last : names.lastName ≠ some "")
    {out : Except Failure User}
      (done : Alone env (UsersService.updateName env id names) w h out w') :
    NameSpec env w store w' id names out := by
  obtain ⟨grows, firstNameEnc, lastNameEnc, hfirst, hlast, edited⟩ :=
    (updateName_alone valid first last).finishes done
  cases edited with
  | missing absent users =>
    refine ⟨⟨fun _ => rep.find.mp absent, fun _ => rfl⟩, ?_, by simp⟩
    rintro _ ⟨⟩
    exact ⟨rfl, users, rep.kept users grows⟩
  | conflict _ _ _ changes => cases changes
  | edited u now found _ users =>
    have stored : store id ≠ none := fun none => by simp [rep.find.mpr none] at found
    obtain ⟨p, hp⟩ := Option.ne_none_iff_exists'.mp stored
    refine ⟨⟨by simp, fun none => absurd none stored⟩, by simp, ?_⟩
    rintro _ ⟨⟩
    refine ⟨p, hp, rep.update users grows hp ?_ ?_, _, users, ?_⟩
    · rintro v hv rfl
      obtain ⟨q, entry⟩ := rep.rows v hv
      obtain rfl := Option.some.inj (entry.entry.symm.trans hp)
      obtain ⟨email, firstName, lastName⟩ := entry.enciphered
      exact ⟨rfl, by simp [Store.insert], ⟨email, hfirst.sealed firstName, hlast.sealed lastName⟩,
        entry.index, entry.normal⟩
    · intro v hv other same
      obtain ⟨u, hu, rfl, entry⟩ := rep.entry hp
      exact other (rep.distinct v hv u hu (same.trans entry.index.symm))
    · intro v hv _
      refine ⟨rfl, fun absent => ?_, fun absent => ?_⟩
      · rw [absent] at hfirst
        obtain rfl : firstNameEnc = none := hfirst
        rfl
      · rw [absent] at hlast
        obtain rfl : lastNameEnc = none := hlast
        rfl

lemma updateEmail_refines (valid : ValidKeys env) (hmac : HmacInjective env)
    {out : Except Failure User}
      (done : Alone env (UsersService.updateEmail env id email) w h out w') :
    EmailSpec env w store w' id email out := by
  obtain ⟨grows, version, enc, fixed, edited⟩ := (updateEmail_alone valid).finishes done
  have taken := rep.taken hmac id (normalizeEmail env.unicode email)
  cases edited with
  | missing absent users =>
    have none := rep.find.mp absent
    refine ⟨fun stored => absurd none stored, fun _ => rfl, ?_, by simp⟩
    rintro _ ⟨⟩
    exact ⟨.inr none, users, rep.kept users grows⟩
  | conflict u found e changes held users =>
    obtain rfl := Option.some.inj changes
    have stored : store id ≠ none := fun none => by simp [rep.find.mpr none] at found
    refine ⟨fun _ => ⟨fun _ => taken.mp held, fun _ => rfl⟩, fun none => absurd none stored, ?_,
      by simp⟩
    rintro _ ⟨⟩
    exact ⟨.inl rfl, users, rep.kept users grows⟩
  | edited u now found free users =>
    have untaken : ¬ store.Held id (normalizeEmail env.unicode email) :=
      mt taken.mpr (by simpa [UsersService.emailHash] using free _ rfl)
    have stored : store id ≠ none := fun none => by simp [rep.find.mpr none] at found
    obtain ⟨p, hp⟩ := Option.ne_none_iff_exists'.mp stored
    refine ⟨fun _ => ⟨by simp, fun held => absurd held untaken⟩, fun none => absurd none stored,
      by simp, ?_⟩
    rintro _ ⟨⟩
    refine ⟨p, hp, rep.update users grows hp ?_ ?_, _, users, fun _ _ _ => rfl⟩
    · rintro v hv rfl
      obtain ⟨q, entry⟩ := rep.rows v hv
      obtain rfl := Option.some.inj (entry.entry.symm.trans hp)
      obtain ⟨_, firstName, lastName⟩ := entry.enciphered
      exact ⟨rfl, by simp [Store.insert], ⟨⟨version, fixed⟩, firstName, lastName⟩, rfl,
        normalizeEmail_idem _ _⟩
    · intro v hv other same
      obtain ⟨q, entry⟩ := rep.rows v hv
      exact untaken ⟨v.id, q, other, entry.entry, (entry.email_iff hmac _).mp same⟩

lemma delete_refines {out : Except Failure Unit}
    (done : Alone env (UsersService.delete id) w h out w') : DeleteSpec env w store w' id out := by
  obtain ⟨grows, ⟨rfl, absent, users⟩ | ⟨rfl, found, users⟩⟩ := delete_alone.finishes done
  · refine ⟨⟨fun _ => rep.find.mp absent, fun _ => rfl⟩, ?_, by simp⟩
    rintro _ ⟨⟩
    exact ⟨rfl, users, rep.kept users grows⟩
  · refine ⟨⟨by simp, fun none => absurd (rep.find.mpr none) found⟩, by simp, fun _ => ?_⟩
    exact ⟨users, rep.remove users grows⟩

lemma reencrypt_refines (valid : ValidKeys env) {fuel : Nat} {out : Except Failure Nat}
    (enough : w.users.length ≤ BATCH * fuel) (done : Completes env fuel w h out w') :
    RotateSpec env w store w' out := by
  obtain ⟨version, key, current, safe, held⟩ := valid.current
  have keys : NewKeys env env version := ⟨⟨_, rfl, fun _ _ held => held⟩, current, safe⟩
  have table : ∀ u ∈ w.users, ∃ p, Enciphered env u p := by
    intro u hu
    obtain ⟨p, entry⟩ := rep.rows u hu
    exact ⟨p, entry.enciphered⟩
  obtain ⟨_, rfl, ⟨f, users, rotated⟩, ids⟩ := completes_rotates keys rep.unique table enough done
  obtain ⟨_, run, _⟩ := done
  have hash : ∀ u ∈ w.users, (f u).emailHash = u.emailHash := by
    intro u hu
    have same := congrArg User.emailHash (rotated u hu).kept
    exact same
  refine ⟨⟨_, rfl⟩, ?_, ?_⟩
  · constructor
    · exact ids ▸ rep.unique
    · intro u hu
      rw [users] at hu
      obtain ⟨v, hv, rfl⟩ := List.mem_map.mp hu
      obtain ⟨p, entry⟩ := rep.rows v hv
      obtain ⟨q, before, after⟩ := (rotated v hv).person
      obtain rfl := entry.enciphered.unique before
      refine ⟨p, ?_, after.keeps (only_keeps env version), ?_, entry.normal⟩
      · rw [(rotated v hv).id]
        exact entry.entry
      · rw [hash v hv]
        exact entry.index
    · intro id p hp
      obtain ⟨u, hu, rfl⟩ := rep.stored id p hp
      exact ⟨f u, users ▸ List.mem_map_of_mem hu, (rotated u hu).id⟩
    · intro u hu v hv same
      rw [users] at hu hv
      obtain ⟨u', hu', rfl⟩ := List.mem_map.mp hu
      obtain ⟨v', hv', rfl⟩ := List.mem_map.mp hv
      rw [hash u' hu', hash v' hv'] at same
      rw [(rotated u' hu').id, (rotated v' hv').id]
      exact rep.distinct u' hu' v' hv' same
    · intro u hu
      rw [users] at hu
      obtain ⟨v, hv, rfl⟩ := List.mem_map.mp hu
      rw [(rotated v hv).id]
      exact runs_uuids run (rep.drawn v hv)
  · rw [users]
    exact List.forall₂_map_right_iff.mpr (List.forall₂_same.mpr fun u hu => (rotated u hu).kept)

end Refinement

/-- Operations served one after another from `env₀` and `w₀`, each whatever it
comes to, with changes of the key map in between. -/
inductive Serves (env₀ : Env) (w₀ : World) : Env → World → Prop where
  | start : Serves env₀ w₀ env₀ w₀
  | findByEmail {env : Env} {w w' : World} {email : String} {h : List OwnCall}
      {out : Except Failure (Option User)} (run : Serves env₀ w₀ env w)
      (done : Alone env (UsersService.findByEmail env email) w h out w') : Serves env₀ w₀ env w'
  | create {env : Env} {w w' : World} {email firstName lastName passwordHash : String}
      {role : Option Role} {h : List OwnCall} {out : Except Failure User}
      (run : Serves env₀ w₀ env w)
      (done : Alone env (UsersService.create env email firstName lastName passwordHash role) w h out
        w') : Serves env₀ w₀ env w'
  | updateName {env : Env} {w w' : World} {id : Uuid} {names : UserNames} {h : List OwnCall}
      {out : Except Failure User} (run : Serves env₀ w₀ env w) (first : names.firstName ≠ some "")
      (last : names.lastName ≠ some "")
      (done : Alone env (UsersService.updateName env id names) w h out w') : Serves env₀ w₀ env w'
  | updateEmail {env : Env} {w w' : World} {id : Uuid} {email : String} {h : List OwnCall}
      {out : Except Failure User} (run : Serves env₀ w₀ env w)
      (done : Alone env (UsersService.updateEmail env id email) w h out w') : Serves env₀ w₀ env w'
  | delete {env : Env} {w w' : World} {id : Uuid} {h : List OwnCall} {out : Except Failure Unit}
      (run : Serves env₀ w₀ env w) (done : Alone env (UsersService.delete id) w h out w') :
      Serves env₀ w₀ env w'
  | reencrypt {env : Env} {w w' : World} {fuel : Nat} {h : List OwnCall} {out : Except Failure Nat}
      (run : Serves env₀ w₀ env w) (enough : w.users.length ≤ BATCH * fuel)
      (done : Completes env fuel w h out w') : Serves env₀ w₀ env w'
  | rekey {env env' : Env} {w : World} (run : Serves env₀ w₀ env w)
      (change : KeyChange w env env') :
      Serves env₀ w₀ env' w

/-- The table stands for the store, and whatever is run next follows the store. -/
structure Refines (env : Env) (w : World) (store : Store) : Prop where
  profiles : ∀ u ∈ w.users, ∃ p, store u.id = some p ∧ UsersService.toProfile env u =
    .ok { id := u.id, email := p.email, firstName := p.firstName, lastName := p.lastName,
          role := u.role, createdAt := u.createdAt }
  domain : ∀ id, store id ≠ none ↔ ∃ u ∈ w.users, u.id = id
  different : ∀ id id' p p', store id = some p → store id' = some p' → p.email = p'.email → id = id'
  normal : ∀ id p, store id = some p → normalizeEmail env.unicode p.email = p.email
  findByEmail : ∀ email h out w', Alone env (UsersService.findByEmail env email) w h out w' →
    FindSpec env w store w' email out
  create : ∀ email firstName lastName passwordHash role h out w',
    Alone env (UsersService.create env email firstName lastName passwordHash role) w h out w' →
      CreateSpec env w store w' email firstName lastName passwordHash role out
  updateName : ∀ id (names : UserNames) h out w', names.firstName ≠ some "" →
    names.lastName ≠ some "" → Alone env (UsersService.updateName env id names) w h out w' →
      NameSpec env w store w' id names out
  updateEmail : ∀ id email h out w',
    Alone env (UsersService.updateEmail env id email) w h out w' →
      EmailSpec env w store w' id email out
  delete : ∀ id h out w', Alone env (UsersService.delete id) w h out w' →
    DeleteSpec env w store w' id out
  reencrypt : ∀ fuel h out w', w.users.length ≤ BATCH * fuel → Completes env fuel w h out w' →
    RotateSpec env w store w' out

lemma Represents.refines {env : Env} {w : World} {store : Store} (rep : Represents env w store)
    (valid : ValidKeys env) (hmac : HmacInjective env) : Refines env w store where
  profiles u hu := by
    obtain ⟨p, entry⟩ := rep.rows u hu
    exact ⟨p, entry.entry, entry.enciphered.toProfile⟩
  domain id := by
    constructor
    · intro some
      obtain ⟨p, hp⟩ := Option.ne_none_iff_exists'.mp some
      exact rep.stored id p hp
    · rintro ⟨u, hu, rfl⟩
      obtain ⟨p, entry⟩ := rep.rows u hu
      simp [entry.entry]
  different _ _ _ _ h h' same := rep.emails_differ h h' same
  normal id p hp := by
    obtain ⟨u, _, rfl, entry⟩ := rep.entry hp
    exact entry.normal
  findByEmail _ _ _ _ done := findByEmail_refines rep hmac done
  create _ _ _ _ _ _ _ _ done := create_refines rep valid hmac done
  updateName _ _ _ _ _ first last done := updateName_refines rep valid first last done
  updateEmail _ _ _ _ _ done := updateEmail_refines rep valid hmac done
  delete _ _ _ _ done := delete_refines rep done
  reencrypt _ _ _ _ enough done := reencrypt_refines rep valid enough done

lemma KeyChange.valid {env env' : Env} {w : World} (change : KeyChange w env env') :
    ValidKeys env' := by
  cases change <;> assumption

lemma KeyChange.hmac {env env' : Env} {w : World} (change : KeyChange w env env')
    (hmac : HmacInjective env) : HmacInjective env' := by
  cases change with
  | extended _ keeps =>
    obtain ⟨keys, rfl, _⟩ := keeps
    exact hmac
  | stripped => exact hmac

/-- Along a run of operations and key changes there is always a store. -/
theorem Serves.represents {env₀ env : Env} {w₀ w : World} (run : Serves env₀ w₀ env w)
    (valid : ValidKeys env₀) (hmac : HmacInjective env₀)
      (first : ∃ store, Represents env₀ w₀ store) :
    ValidKeys env ∧ HmacInjective env ∧ ∃ store, Represents env w store := by
  induction run with
  | start => exact ⟨valid, hmac, first⟩
  | findByEmail _ done ih =>
    obtain ⟨valid, hmac, store, rep⟩ := ih
    exact ⟨valid, hmac, store, (findByEmail_refines rep hmac done).kept.2⟩
  | @create _ _ _ _ _ _ _ _ _ out _ done ih =>
    obtain ⟨valid, hmac, store, rep⟩ := ih
    have spec := create_refines rep valid hmac done
    cases out with
    | error e => exact ⟨valid, hmac, store, (spec.refused e rfl).2.2⟩
    | ok u => exact ⟨valid, hmac, _, (spec.created u rfl).2.2.2.2⟩
  | @updateName _ _ _ _ _ _ out _ first last done ih =>
    obtain ⟨valid, hmac, store, rep⟩ := ih
    have spec := updateName_refines rep valid first last done
    cases out with
    | error e => exact ⟨valid, hmac, store, (spec.refused e rfl).2.2⟩
    | ok u =>
      obtain ⟨p, _, rep', _⟩ := spec.renamed u rfl
      exact ⟨valid, hmac, _, rep'⟩
  | @updateEmail _ _ _ _ _ _ out _ done ih =>
    obtain ⟨valid, hmac, store, rep⟩ := ih
    have spec := updateEmail_refines rep valid hmac done
    cases out with
    | error e => exact ⟨valid, hmac, store, (spec.refused e rfl).2.2⟩
    | ok u =>
      obtain ⟨p, _, rep', _⟩ := spec.changed u rfl
      exact ⟨valid, hmac, _, rep'⟩
  | @delete _ _ _ _ _ out _ done ih =>
    obtain ⟨valid, hmac, store, rep⟩ := ih
    have spec := delete_refines rep done
    cases out with
    | error e => exact ⟨valid, hmac, store, (spec.refused e rfl).2.2⟩
    | ok _ => exact ⟨valid, hmac, _, (spec.deleted rfl).2⟩
  | reencrypt _ enough done ih =>
    obtain ⟨valid, hmac, store, rep⟩ := ih
    exact ⟨valid, hmac, store, (reencrypt_refines rep valid enough done).represents⟩
  | rekey _ change ih =>
    obtain ⟨_, hmac, store, rep⟩ := ih
    exact ⟨change.valid, change.hmac hmac, store, change.represents rep⟩

namespace Plain

/-- No account yet. -/
def emptyWorld : World := { world with users := [], uuids := [] }

lemma validKeys : ValidKeys env where
  safe e he := by
    obtain rfl := List.mem_singleton.mp he
    exact ⟨1, rfl, by decide, by decide⟩
  nonempty := List.cons_ne_nil _ _

lemma hmacInjective : HmacInjective env := fun _ _ same => same

def draw (now : Nat) : Choice := { now, bytes := List.replicate IV_BYTES 0 }

/-- The account of Ana is created with the id 1. -/
def creation : List Choice := [draw 1, draw 2, draw 3, { now := 4, uuid := 1 }]

end Plain

/-- An update of the email of an id without a row is no conflict, whoever holds
the email. -/
lemma held_email_without_conflict :
    ∃ w store h out w', Serves Plain.env Plain.emptyWorld Plain.env w ∧
      Represents Plain.env w store ∧
      Alone Plain.env (UsersService.updateEmail Plain.env 2 "ana@valle.mx") w h out w' ∧
      store.Held 2 (normalizeEmail Plain.env.unicode "ana@valle.mx") ∧
      out ≠ .error UsersService.emailConflict := by
  have shown : ∃ h out w, Alone Plain.env
      (UsersService.create Plain.env " ana@valle.mx" "Ana" "Ruiz" "" none)
        Plain.emptyWorld h out w ∧
      ((feed (exec Plain.env) [Plain.draw 5, { now := 6 }]
        (UsersService.updateEmail Plain.env 2 "ana@valle.mx") [] w).any fun end_ =>
          end_.1.outcome.any fun out => decide (out ≠ .error UsersService.emailConflict ∧
            ∃ u ∈ w.users, u.id = 1 ∧
              u.emailHash = UsersService.emailHash Plain.env "ana@valle.mx")) = true :=
    finishes_of_feed Plain.creation (by simp [Healthy, Plain.creation, Plain.draw])
      (by decide +kernel)
  obtain ⟨_, _, w, created, shown⟩ := shown
  have later : ∃ h out w', Alone Plain.env (UsersService.updateEmail Plain.env 2 "ana@valle.mx") w
      h out w' ∧ decide (out ≠ .error UsersService.emailConflict ∧ ∃ u ∈ w.users, u.id = 1 ∧
        u.emailHash = UsersService.emailHash Plain.env "ana@valle.mx") = true :=
    finishes_of_feed _ (by simp [Healthy, Plain.draw]) shown
  obtain ⟨h, out, w', done, shown⟩ := later
  obtain ⟨noConflict, u, hu, one, hash⟩ := of_decide_eq_true shown
  have first : Represents Plain.env Plain.emptyWorld Store.empty := by
    constructor <;> simp [Plain.emptyWorld, Store.empty]
  have run : Serves Plain.env Plain.emptyWorld Plain.env w := .create .start created
  obtain ⟨_, hmac, store, rep⟩ := run.represents Plain.validKeys Plain.hmacInjective ⟨_, first⟩
  obtain ⟨p, entry⟩ := rep.rows u hu
  exact ⟨w, store, h, out, w', run, rep, done,
    ⟨u.id, p, by simp [one], entry.entry, (entry.email_iff hmac _).mp hash⟩, noConflict⟩

/-- Under a version that the configuration accepts, but that is printed with an exponent,
a row does not decrypt. -/
lemma long_version_without_profile :
    ∃ h u w, versionedKeys (written Plain.longVersion) = .ok Plain.longEnv.ENCRYPTION_KEYS ∧
      Alone Plain.longEnv (UsersService.create Plain.longEnv " ana@valle.mx" "Ana" "Ruiz" "" none)
        Plain.emptyWorld h (.ok u) w ∧
      u ∈ w.users ∧ UsersService.toProfile Plain.longEnv u = .error .decryptionError := by
  have shown : ∃ h out w, Alone Plain.longEnv
      (UsersService.create Plain.longEnv " ana@valle.mx" "Ana" "Ruiz" "" none)
        Plain.emptyWorld h out w ∧
      (match out with
        | .ok u => decide (u ∈ w.users ∧
            UsersService.toProfile Plain.longEnv u = .error .decryptionError)
        | .error _ => false) = true :=
    finishes_of_feed Plain.creation (by simp [Healthy, Plain.creation, Plain.draw])
      (by decide +kernel)
  obtain ⟨h, out, w, created, shown⟩ := shown
  cases out with
  | error e => cases shown
  | ok u =>
    obtain ⟨stored, unreadable⟩ := of_decide_eq_true shown
    exact ⟨h, u, w, by decide +kernel, created, stored, unreadable⟩

/-- The store is refined neither for ids without a row nor under all versions that the
configuration accepts. -/
theorem table_refines_store_exceptions :
    (∃ w store h out w', Serves Plain.env Plain.emptyWorld Plain.env w ∧
      Represents Plain.env w store ∧
      Alone Plain.env (UsersService.updateEmail Plain.env 2 "ana@valle.mx") w h out w' ∧
      store.Held 2 (normalizeEmail Plain.env.unicode "ana@valle.mx") ∧
      out ≠ .error UsersService.emailConflict) ∧
    ∃ w u, versionedKeys (written Plain.longVersion) = .ok Plain.longEnv.ENCRYPTION_KEYS ∧
      Serves Plain.longEnv Plain.emptyWorld Plain.longEnv w ∧ u ∈ w.users ∧
      UsersService.toProfile Plain.longEnv u = .error .decryptionError := by
  obtain ⟨h, u, w, accepted, created, stored, unreadable⟩ := long_version_without_profile
  exact ⟨held_email_without_conflict,
    ⟨w, u, accepted, .create .start created, stored, unreadable⟩⟩

/-- From an empty table every run leads to a table that stands for a store. -/
theorem table_refines_store (env₀ : Env) (w₀ : World) (valid : ValidKeys env₀)
    (hmac : HmacInjective env₀) (empty : w₀.users = []) (env : Env) (w : World)
    (run : Serves env₀ w₀ env w) : ∃ store, Represents env w store ∧ Refines env w store := by
  have first : Represents env₀ w₀ Store.empty := by
    constructor <;> simp [empty, Store.empty]
  obtain ⟨valid, hmac, store, rep⟩ := run.represents valid hmac ⟨_, first⟩
  exact ⟨store, rep, rep.refines valid hmac⟩

namespace Plain

/-- The program run with these choices ends, in a world that shows this. -/
def endsIn {α : Type} (env : Env) (p : Task α) (choices : List Choice) (shows_ : World → Bool)
    (w : World) : Bool :=
  (feed (exec env) choices p [] w).any fun end_ => end_.1.outcome.any fun _ => shows_ end_.2.2

lemma alone_of_endsIn {α : Type} {env : Env} {p : Task α} {choices : List Choice}
    {shows_ : World → Bool} {w : World} (shown : endsIn env p choices shows_ w = true)
    (works : ∀ ch ∈ choices, ch.fails = false) :
    ∃ h out w', Alone env p w h out w' ∧ shows_ w' = true :=
  finishes_of_feed choices (fun ch hch fails => by simp [works ch hch] at fails) shown

def newName : UserNames := { firstName := some "Luna", lastName := none }

/-- A pass over the one row of the table, and the empty page after it. -/
def pass : List Choice := [{ now := 9 }, draw 10, draw 11, draw 12, { now := 13 }, { now := 14 }]

lemma rotatedKeys_valid : ValidKeys rotatedEnv := by
  refine ⟨fun e he => ?_, List.cons_ne_nil _ _⟩
  simp only [rotatedEnv, Env.withKeys_ENCRYPTION_KEYS, List.mem_cons, List.not_mem_nil,
    or_false] at he
  rcases he with rfl | rfl
  · exact ⟨1, rfl, by decide, by decide⟩
  · exact ⟨2, rfl, by decide, by decide⟩

end Plain

/-- A creation, an update of the email and one of a name, a new version, and the script. -/
theorem table_refines_store_rotated :
    ∃ w store, w.users.map (fun u => (u.id, (u.encrypted.map versionOf))) =
        [(1, [some (.finite 2), some (.finite 2), some (.finite 2)])] ∧
      Serves Plain.env Plain.emptyWorld Plain.rotatedEnv w ∧
      Represents Plain.rotatedEnv w store ∧ Refines Plain.rotatedEnv w store := by
  have shown : Plain.endsIn Plain.env
      (UsersService.create Plain.env " ana@valle.mx" "Ana" "Ruiz" "" none) Plain.creation
      (Plain.endsIn Plain.env (UsersService.updateEmail Plain.env 1 "Luna@valle.mx ")
        [Plain.draw 5, { now := 6 }]
        (Plain.endsIn Plain.env (UsersService.updateName Plain.env 1 Plain.newName)
          [Plain.draw 7, { now := 8 }] fun w => w.users.length = 1 &&
            Plain.endsIn Plain.rotatedEnv (Reencrypt.main Plain.rotatedEnv 2) Plain.pass
              (fun w => w.users.map (fun u => (u.id, (u.encrypted.map versionOf))) =
                [(1, [some (.finite 2), some (.finite 2), some (.finite 2)])]) w))
      Plain.emptyWorld = true := by decide +kernel
  obtain ⟨_, _, _, created, shown⟩ := Plain.alone_of_endsIn shown (by decide)
  obtain ⟨_, _, _, moved, shown⟩ := Plain.alone_of_endsIn shown (by decide)
  obtain ⟨_, _, w, renamed, shown⟩ := Plain.alone_of_endsIn shown (by decide)
  obtain ⟨one, shown⟩ := Bool.and_eq_true_iff.mp shown
  obtain ⟨_, _, w', passed, versions⟩ := Plain.alone_of_endsIn shown (by decide)
  have enough : w.users.length ≤ BATCH * 1 := by
    rw [of_decide_eq_true one]
    decide
  have before : Serves Plain.env Plain.emptyWorld Plain.env w :=
    .updateName (.updateEmail (.create .start created) moved) (by decide) (by decide) renamed
  have run : Serves Plain.env Plain.emptyWorld Plain.rotatedEnv w' :=
    .reencrypt (.rekey before (.extended Plain.rotatedKeys_valid Plain.newKeys.keeps)) enough passed
  obtain ⟨store, rep, refines⟩ := table_refines_store Plain.env Plain.emptyWorld Plain.validKeys
    Plain.hmacInjective rfl Plain.rotatedEnv w' run
  exact ⟨w', store, of_decide_eq_true versions, run, rep, refines⟩

end BajaValle
