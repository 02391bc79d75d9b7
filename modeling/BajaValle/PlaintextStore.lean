import BajaValle.KeyRotation

/-!
# The users table as a plaintext store

The encrypted table refines a map from ids to persons. `Represents` ties each
row to its entry: its columns encipher the entry, its blind index is that of
the email, and the email is in normal form. Every operation of the service and
every change of the key map keeps the relation.
-/

namespace BajaValle

open CallPrograms Prog EncryptionService Reencrypt

/-- The purpose of the table: who has which personal data. -/
abbrev Store := Uuid → Option Person

namespace Store

def empty : Store := fun _ => none

def insert (store : Store) (id : Uuid) (p : Person) : Store := Function.update store id (some p)

def remove (store : Store) (id : Uuid) : Store := Function.update store id none

/-- Someone other than `id` has the email. -/
def Held (store : Store) (id : Uuid) (email : String) : Prop :=
  ∃ other p, other ≠ id ∧ store other = some p ∧ p.email = email

end Store

/-- The row is the entry of its id. -/
structure IsEntry (env : Env) (store : Store) (u : User) (p : Person) : Prop where
  entry : store u.id = some p
  enciphered : Enciphered env u p
  index : u.emailHash = blindIndex env p.email UsersService.FIELD.email
  normal : normalizeEmail env.unicode p.email = p.email

structure Represents (env : Env) (w : World) (store : Store) : Prop where
  unique : (w.users.map User.id).Nodup
  rows : ∀ u ∈ w.users, ∃ p, IsEntry env store u p
  stored : ∀ id p, store id = some p → ∃ u ∈ w.users, u.id = id
  distinct : ∀ u ∈ w.users, ∀ v ∈ w.users, u.emailHash = v.emailHash → u.id = v.id
  drawn : ∀ u ∈ w.users, u.id ∈ w.uuids

/-- The blind index tells emails apart. -/
def HmacInjective (env : Env) : Prop :=
  Function.Injective (env.hmacSha256 env.BLIND_INDEX_KEY)

/-- A key map with a newest version, all of whose versions can be read back. -/
structure ValidKeys (env : Env) : Prop where
  safe : SafeKeys env
  nonempty : env.ENCRYPTION_KEYS ≠ []

/-- The key map is extended, or stripped of versions that no field uses. -/
inductive KeyChange (w : World) : Env → Env → Prop where
  | extended {env env' : Env} (valid : ValidKeys env') (keeps : env.KeepsKeys env') :
      KeyChange w env env'
  | stripped {env : Env} {keys : List (JsNumber × Bytes)} (valid : ValidKeys (env.withKeys keys))
      (sub : ∀ version key, keys.lookup version = some key →
        env.ENCRYPTION_KEYS.lookup version = some key)
      (used : ∀ u ∈ w.users, ∀ value ∈ u.encrypted, ∀ version, versionOf value = some version →
        keys.lookup version ≠ none) : KeyChange w env (env.withKeys keys)

lemma ValidKeys.current {env : Env} (valid : ValidKeys env) :
    ∃ version key, currentVersion env = some version ∧ SafeVersion version ∧
      env.ENCRYPTION_KEYS.lookup version = some key := by
  have some : ∃ version, currentVersion env = some version := by
    unfold currentVersion
    split
    · rename_i none
      exact absurd none valid.nonempty
    · exact ⟨_, rfl⟩
  obtain ⟨version, current⟩ := some
  obtain ⟨e, he, rfl⟩ := currentVersion_mem current
  obtain ⟨key, held⟩ := lookup_of_mem he
  exact ⟨e.1, key, current, valid.safe e he, held⟩

section Represents
variable {env env' : Env} {w w' : World} {store : Store} {u v : User} {p : Person} {id : Uuid}

lemma Represents.eq_of_id (rep : Represents env w store) (hu : u ∈ w.users) (hv : v ∈ w.users)
    (same : u.id = v.id) : u = v :=
  List.inj_on_of_nodup_map rep.unique hu hv same

lemma Represents.entry (rep : Represents env w store) (h : store id = some p) :
    ∃ u ∈ w.users, u.id = id ∧ IsEntry env store u p := by
  obtain ⟨u, hu, rfl⟩ := rep.stored id p h
  obtain ⟨p', entry⟩ := rep.rows u hu
  obtain rfl : p' = p := Option.some.inj (entry.entry.symm.trans h)
  exact ⟨u, hu, rfl, entry⟩

lemma Represents.find (rep : Represents env w store) :
    w.users.find? (·.id = id) = none ↔ store id = none := by
  constructor
  · intro absent
    by_contra some
    obtain ⟨p, hp⟩ := Option.ne_none_iff_exists'.mp some
    obtain ⟨u, hu, rfl⟩ := rep.stored id p hp
    simpa using List.find?_eq_none.mp absent u hu
  · intro none
    refine List.find?_eq_none.mpr fun u hu same => ?_
    obtain ⟨p, entry⟩ := rep.rows u hu
    have id : u.id = id := by simpa using same
    rw [← id, entry.entry] at none
    cases none

/-- Equal blind indexes mean equal emails. -/
lemma IsEntry.email_iff (collisionFree : HmacInjective env) (entry : IsEntry env store u p)
    (email : String) :
    u.emailHash = blindIndex env email UsersService.FIELD.email ↔ p.email = email := by
  rw [entry.index]
  exact (blindIndex_injective collisionFree _).eq_iff

/-- The unique index holds an email exactly if another entry has it. -/
lemma Represents.taken (rep : Represents env w store) (collisionFree : HmacInjective env)
    (id : Uuid) (email : String) :
    w.emailTaken id (blindIndex env email UsersService.FIELD.email) = true ↔
      store.Held id email := by
  constructor
  · intro taken
    obtain ⟨u, hu, both⟩ := List.any_eq_true.mp taken
    have both : u.id ≠ id ∧ u.emailHash = blindIndex env email UsersService.FIELD.email := by
      simpa using both
    obtain ⟨p, entry⟩ := rep.rows u hu
    exact ⟨u.id, p, both.1, entry.entry, (entry.email_iff collisionFree email).mp both.2⟩
  · rintro ⟨other, p, ne, hp, same⟩
    obtain ⟨u, hu, rfl, entry⟩ := rep.entry hp
    refine List.any_eq_true.mpr ⟨u, hu, ?_⟩
    simpa [(entry.email_iff collisionFree email).mpr same] using ne

/-- Emails of different entries differ. -/
lemma Represents.emails_differ (rep : Represents env w store) {id' : Uuid} {p' : Person}
    (h : store id = some p) (h' : store id' = some p') (same : p.email = p'.email) : id = id' := by
  obtain ⟨u, hu, rfl, entry⟩ := rep.entry h
  obtain ⟨v, hv, rfl, entry'⟩ := rep.entry h'
  exact rep.distinct u hu v hv (by rw [entry.index, entry'.index, same])

end Represents

section Changes
variable {env : Env} {w w' : World} {store : Store} {p p' : Person} {id : Uuid}
  {c : UserChanges} {now : Nat}

/-- The table is as it was. -/
lemma Represents.kept (rep : Represents env w store) (users : w'.users = w.users)
    (grows : w.uuids ⊆ w'.uuids) : Represents env w' store := by
  obtain ⟨unique, rows, stored, distinct, drawn⟩ := rep
  exact ⟨users ▸ unique, users ▸ rows, users ▸ stored, users ▸ distinct,
    fun u hu => grows (drawn u (users ▸ hu))⟩

/-- A row appended under a new id and a new blind index. -/
lemma Represents.insert {u : User} (rep : Represents env w store) (fresh : store u.id = none)
    (free : ∀ v ∈ w.users, v.emailHash ≠ u.emailHash) (rows : w'.users = w.users ++ [u])
    (grows : w.uuids ⊆ w'.uuids) (drawn : u.id ∈ w'.uuids)
    (entry : IsEntry env (store.insert u.id p) u p) : Represents env w' (store.insert u.id p) := by
  have other : ∀ v ∈ w.users, v.id ≠ u.id := by
    intro v hv same
    obtain ⟨q, entry'⟩ := rep.rows v hv
    have was := entry'.entry
    rw [same, fresh] at was
    cases was
  constructor
  · rw [rows, List.map_append, List.nodup_append]
    refine ⟨rep.unique, List.nodup_singleton _, ?_⟩
    intro x hx y hy
    obtain ⟨v, hv, rfl⟩ := List.mem_map.mp hx
    obtain rfl := List.mem_singleton.mp hy
    exact other v hv
  · intro v hv
    rw [rows] at hv
    rcases List.mem_append.mp hv with old | new
    · obtain ⟨q, was⟩ := rep.rows v old
      refine ⟨q, ⟨?_, was.enciphered, was.index, was.normal⟩⟩
      rw [Store.insert, Function.update_of_ne (other v old), was.entry]
    · obtain rfl := List.mem_singleton.mp new
      exact ⟨p, entry⟩
  · intro id q hq
    rw [rows]
    by_cases same : id = u.id
    · exact ⟨u, by simp, same.symm⟩
    · rw [Store.insert, Function.update_of_ne same] at hq
      obtain ⟨v, hv, eq⟩ := rep.stored id q hq
      exact ⟨v, List.mem_append_left _ hv, eq⟩
  · intro v hv v' hv' same
    rw [rows] at hv hv'
    rcases List.mem_append.mp hv with old | new <;> rcases List.mem_append.mp hv' with old' | new'
    · exact rep.distinct v old v' old' same
    · obtain rfl := List.mem_singleton.mp new'
      exact absurd same (free v old)
    · obtain rfl := List.mem_singleton.mp new
      exact absurd same.symm (free v' old')
    · rw [List.mem_singleton.mp new, List.mem_singleton.mp new']
  · intro v hv
    rw [rows] at hv
    rcases List.mem_append.mp hv with old | new
    · exact grows (rep.drawn v old)
    · exact List.mem_singleton.mp new ▸ drawn

/-- The row of one id changed to another entry with a free blind index. -/
lemma Represents.update {f : User → User} (rep : Represents env w store)
    (rows : w'.users = w.users.map fun v => if v.id = id then f v else v)
    (grows : w.uuids ⊆ w'.uuids) (hp : store id = some p)
    (entry : ∀ u ∈ w.users, u.id = id → (f u).id = id ∧ IsEntry env (store.insert id p') (f u) p')
    (free : ∀ v ∈ w.users, v.id ≠ id →
      v.emailHash ≠ blindIndex env p'.email UsersService.FIELD.email) :
    Represents env w' (store.insert id p') := by
  have ids : ∀ v ∈ w.users, (if v.id = id then f v else v).id = v.id := by
    intro v hv
    split
    · rename_i same
      exact (entry v hv same).1.trans same.symm
    · rfl
  constructor
  · rw [rows, List.map_map]
    exact (List.map_congr_left ids) ▸ rep.unique
  · intro u hu
    rw [rows] at hu
    obtain ⟨v, hv, rfl⟩ := List.mem_map.mp hu
    by_cases same : v.id = id
    · rw [if_pos same]
      exact ⟨p', (entry v hv same).2⟩
    · rw [if_neg same]
      obtain ⟨q, was⟩ := rep.rows v hv
      refine ⟨q, ⟨?_, was.enciphered, was.index, was.normal⟩⟩
      rw [Store.insert, Function.update_of_ne same, was.entry]
  · intro other q hq
    rw [rows]
    have was : ∃ q, store other = some q := by
      by_cases same : other = id
      · exact ⟨p, same ▸ hp⟩
      · rw [Store.insert, Function.update_of_ne same] at hq
        exact ⟨q, hq⟩
    obtain ⟨q', hq'⟩ := was
    obtain ⟨v, hv, rfl⟩ := rep.stored other q' hq'
    exact ⟨_, List.mem_map_of_mem hv, ids v hv⟩
  · intro u hu u' hu' same
    rw [rows] at hu hu'
    obtain ⟨v, hv, rfl⟩ := List.mem_map.mp hu
    obtain ⟨v', hv', rfl⟩ := List.mem_map.mp hu'
    rw [ids v hv, ids v' hv']
    by_cases here : v.id = id <;> by_cases here' : v'.id = id
    · rw [here, here']
    · rw [if_pos here, if_neg here', (entry v hv here).2.index] at same
      exact absurd same.symm (free v' hv' here')
    · rw [if_neg here, if_pos here', (entry v' hv' here').2.index] at same
      exact absurd same (free v hv here)
    · rw [if_neg here, if_neg here'] at same
      exact rep.distinct v hv v' hv' same
  · intro u hu
    rw [rows] at hu
    obtain ⟨v, hv, rfl⟩ := List.mem_map.mp hu
    rw [ids v hv]
    exact grows (rep.drawn v hv)

lemma Represents.remove (rep : Represents env w store)
    (rows : w'.users = w.users.filter (·.id ≠ id)) (grows : w.uuids ⊆ w'.uuids) :
    Represents env w' (store.remove id) := by
  have left : ∀ u ∈ w'.users, u ∈ w.users ∧ u.id ≠ id := by
    intro u hu
    rw [rows] at hu
    simpa using hu
  constructor
  · rw [rows]
    exact (List.filter_sublist.map _).nodup rep.unique
  · intro u hu
    obtain ⟨hu, other⟩ := left u hu
    obtain ⟨p, was⟩ := rep.rows u hu
    refine ⟨p, ⟨?_, was.enciphered, was.index, was.normal⟩⟩
    rw [Store.remove, Function.update_of_ne other, was.entry]
  · intro other p hp
    by_cases same : other = id
    · rw [same, Store.remove, Function.update_self] at hp
      cases hp
    · rw [Store.remove, Function.update_of_ne same] at hp
      obtain ⟨u, hu, rfl⟩ := rep.stored other p hp
      exact ⟨u, by rw [rows]; simpa using ⟨hu, same⟩, rfl⟩
  · exact fun u hu v hv => rep.distinct u (left u hu).1 v (left v hv).1
  · exact fun u hu => grows (rep.drawn u (left u hu).1)

lemma KeyChange.represents {env' : Env} (change : KeyChange w env env')
    (rep : Represents env w store) : Represents env' w store := by
  have same : env'.BLIND_INDEX_KEY = env.BLIND_INDEX_KEY ∧ env'.hmacSha256 = env.hmacSha256 ∧
      env'.unicode = env.unicode := by
    cases change with
    | extended _ keeps =>
      obtain ⟨keys, rfl, _⟩ := keeps
      exact ⟨rfl, rfl, rfl⟩
    | stripped => exact ⟨rfl, rfl, rfl⟩
  obtain ⟨unique, rows, stored, distinct, drawn⟩ := rep
  refine ⟨unique, fun u hu => ?_, stored, distinct, drawn⟩
  obtain ⟨p, entry, enciphered, index, normal⟩ := rows u hu
  refine ⟨p, entry, ?_, ?_, ?_⟩
  · cases change with
    | extended _ keeps => exact enciphered.keeps keeps
    | @stripped keys _ sub used =>
      have seals : ∀ {version : JsNumber} {context text value : String}, value ∈ u.encrypted →
          Sealed env version context text value →
          Sealed (env.withKeys keys) version context text value := by
        intro version context text value mem fixed
        have held := used u hu value mem version fixed.names
        obtain ⟨key, iv, safe, was, hiv, hvalue⟩ := fixed
        obtain ⟨key', now⟩ := Option.ne_none_iff_exists'.mp held
        obtain rfl := Option.some.inj ((sub _ _ now).symm.trans was)
        exact ⟨key', iv, safe, now, hiv, hvalue⟩
      obtain ⟨⟨v₁, email⟩, ⟨v₂, firstName⟩, v₃, lastName⟩ := enciphered
      exact ⟨⟨v₁, seals (by simp [User.encrypted]) email⟩,
        ⟨v₂, seals (by simp [User.encrypted]) firstName⟩, v₃,
        seals (by simp [User.encrypted]) lastName⟩
  · rw [index, blindIndex, blindIndex, same.1, same.2.1]
  · rw [same.2.2, normal]

end Changes

/-- Ids once drawn stay drawn. -/
def Grows (w₀ : World) : List OwnCall → World → Prop := fun _ w => w₀.uuids ⊆ w.uuids

section Operations
variable {env : Env} {w₀ w : World} {h : List OwnCall}

lemma Grows.exec {ch : Choice} {op : Op} {r : op.Res} {w' : World} {h' : List OwnCall}
    (grows : Grows w₀ h w) (answered : exec env ch op w = some (r, w')) : Grows w₀ h' w' :=
  List.Subset.trans grows (exec_spends answered).uuids

lemma encryptFresh_grows (valid : ValidKeys env) {text context : String} (grows : Grows w₀ h w) :
    Serial env False (Grows w₀) (fun _ out w' => w'.users = w.users ∧ ∃ version value,
      out = .ok value ∧ Sealed env version context text value) h w
      (encryptFresh env text context) := by
  obtain ⟨version, key, current, safe, held⟩ := valid.current
  refine (encryptFresh_serial current safe held
    (fun _ _ _ _ _ _ grows answered => grows.exec answered) grows).mono ?_
  rintro h' out w' _ ⟨users, _, value, encrypted, fixed⟩
  exact ⟨users, version, value, encrypted, fixed⟩

lemma encryptEmail_grows (valid : ValidKeys env) {email : String} (grows : Grows w₀ h w) :
    Serial env False (Grows w₀) (fun _ out w' => w'.users = w.users ∧ ∃ version enc,
      out = .ok (UsersService.emailHash env email, enc) ∧ Sealed env version
        UsersService.FIELD.email (normalizeEmail env.unicode email) enc) h w
      (UsersService.encryptEmail env email) := by
  refine meets_bind ((encryptFresh_grows valid grows).mono ?_)
  rintro h' _ w' here ⟨users, version, value, rfl, fixed⟩
  refine ⟨?_, by simp⟩
  rintro _ ⟨⟩
  exact ⟨here, users, version, value, rfl, fixed⟩

/-- A name that is given is sealed, and one that is absent stays. -/
def Named (env : Env) (context : String) : Option String → Option String → Prop
  | none, enc => enc = none
  | some name, enc => ∃ version value, enc = some value ∧ Sealed env version context name value

lemma Named.sealed {context text old : String} {name enc : Option String}
    (named : Named env context name enc) (was : ∃ version, Sealed env version context text old) :
    ∃ version, Sealed env version context (name.getD text) (enc.getD old) := by
  cases name with
  | none =>
    obtain rfl : enc = none := named
    exact was
  | some name =>
    obtain ⟨version, value, rfl, fixed⟩ := named
    exact ⟨version, fixed⟩

lemma encryptName_grows (valid : ValidKeys env) {name : Option String} {context : String}
    (nonempty : name ≠ some "") (grows : Grows w₀ h w) :
    Serial env False (Grows w₀) (fun _ out w' => w'.users = w.users ∧ ∃ enc, out = .ok enc ∧
      Named env context name enc) h w (UsersService.encryptName env name context) := by
  cases name with
  | none => exact ⟨grows, rfl, none, rfl, rfl⟩
  | some name =>
    have given : name ≠ "" := fun empty => nonempty (congrArg some empty)
    simp only [UsersService.encryptName, given, if_false]
    refine meets_bind ((encryptFresh_grows valid grows).mono ?_)
    rintro h' _ w' here ⟨users, version, value, rfl, fixed⟩
    refine ⟨?_, by simp⟩
    rintro _ ⟨⟩
    exact ⟨here, users, _, rfl, version, value, rfl, fixed⟩

/-- A query on the users whose unique violations are conflicts. -/
lemma conflictOnDuplicate_grows {run : Task (Except PrismaError User)}
    {post : List OwnCall → Except Failure User → World → Prop}
    (meets : Serial env False (Grows w₀) (fun h out w =>
      (∀ u, out = .ok (.ok u) → post h (.ok u) w) ∧
      (out = .ok (.error .uniqueViolation) → post h (.error UsersService.emailConflict) w) ∧
      (∀ e, e ≠ .uniqueViolation → out = .ok (.error e) → post h (.error (.prisma e)) w) ∧
      ∀ e, out = .error e → post h (.error e) w) h w run) :
    Serial env False (Grows w₀) post h w (UsersService.conflictOnDuplicate run) := by
  refine meets_bind (meets.mono ?_)
  rintro h out w here ⟨returned, conflict, raised, failed⟩
  refine ⟨?_, failed⟩
  rintro (e | u) rfl
  · cases e with
    | uniqueViolation => exact ⟨here, conflict rfl⟩
    | foreignKeyViolation => exact ⟨here, raised _ (by decide) rfl⟩
    | recordNotFound => exact ⟨here, raised _ (by decide) rfl⟩
    | unavailable => exact ⟨here, raised _ (by decide) rfl⟩
  · exact ⟨here, returned u rfl⟩

/-- What a creation comes to, from the world `w₀`. -/
inductive Created (env : Env) (w₀ : World) (email firstName lastName passwordHash : String)
    (role : Option Role) (w' : World) : Except Failure User → Prop where
  | conflict (id : Uuid) (drawn : id ∉ w₀.uuids)
      (held : w₀.emailTaken id (UsersService.emailHash env email) = true)
      (users : w'.users = w₀.users) : Created env w₀ email firstName lastName passwordHash role w'
        (.error UsersService.emailConflict)
  | created (u : User) (drawn : u.id ∉ w₀.uuids)
      (free : w₀.emailTaken u.id (UsersService.emailHash env email) = false)
      (users : w'.users = w₀.users ++ [u]) (now : u.id ∈ w'.uuids)
      (hash : u.emailHash = UsersService.emailHash env email)
      (password : u.passwordHash = passwordHash) (hrole : u.role = role.getD .CLIENT)
      (enciphered : Enciphered env u ⟨normalizeEmail env.unicode email, firstName, lastName⟩) :
      Created env w₀ email firstName lastName passwordHash role w' (.ok u)

lemma create_alone (valid : ValidKeys env) {email firstName lastName passwordHash : String}
    {role : Option Role} :
    Serial env False (Grows w) (fun _ out w' =>
      Created env w email firstName lastName passwordHash role w' out) [] w
      (UsersService.create env email firstName lastName passwordHash role) := by
  refine meets_bind ((encryptEmail_grows valid (List.Subset.refl w.uuids)).mono ?_)
  rintro h₁ _ w₁ grows₁ ⟨users₁, v₁, emailEnc, rfl, fixed₁⟩
  refine ⟨?_, by simp⟩
  rintro _ ⟨⟩
  refine meets_bind ((encryptFresh_grows valid grows₁).mono ?_)
  rintro h₂ _ w₂ grows₂ ⟨users₂, v₂, firstNameEnc, rfl, fixed₂⟩
  refine ⟨?_, by simp⟩
  rintro _ ⟨⟩
  refine meets_bind ((encryptFresh_grows valid grows₂).mono ?_)
  rintro h₃ _ w₃ grows₃ ⟨users₃, v₃, lastNameEnc, rfl, fixed₃⟩
  refine ⟨?_, by simp⟩
  rintro _ ⟨⟩
  refine conflictOnDuplicate_grows (serial_perform grows₃ ?_)
  intro ch r w₄ healthy answered
  have users : w₃.users = w.users := users₃.trans (users₂.trans users₁)
  have taken : ∀ id e, w₃.emailTaken id e = w.emailTaken id e := by
    intro id e
    rw [World.emailTaken, World.emailTaken, users]
  obtain ⟨unused, step⟩ := exec_userCreate answered
  refine ⟨grows₃.exec answered, ?_⟩
  cases step with
  | failed fails => exact (healthy fails).elim
  | taken held same =>
    refine ⟨by simp, fun _ => ?_, ?_, by simp⟩
    · exact .conflict ch.uuid (fun old => unused (grows₃ old)) (taken _ _ ▸ held) (same.trans users)
    · intro e other eq
      cases eq
      exact absurd rfl other
  | created free same =>
    refine ⟨?_, by simp, by simp, by simp⟩
    rintro _ ⟨⟩
    exact .created _ (fun old => unused (grows₃ old)) (taken _ _ ▸ free) (users ▸ same)
      (exec_drawnUuid answered rfl).2 rfl rfl rfl ⟨⟨v₁, fixed₁⟩, ⟨v₂, fixed₂⟩, v₃, fixed₃⟩

/-- What the update of one row comes to, from the world `w₀`. -/
inductive Edited (w₀ : World) (id : Uuid) (c : UserChanges) (w' : World) :
    Except Failure User → Prop where
  | missing (absent : w₀.users.find? (·.id = id) = none) (users : w'.users = w₀.users) :
      Edited w₀ id c w' (.error (.prisma .recordNotFound))
  | conflict (u : User) (found : w₀.users.find? (·.id = id) = some u) (e : String)
      (changes : c.emailHash = some e) (held : w₀.emailTaken id e = true)
      (users : w'.users = w₀.users) : Edited w₀ id c w' (.error UsersService.emailConflict)
  | edited (u : User) (now : Nat) (found : w₀.users.find? (·.id = id) = some u)
      (free : ∀ e, c.emailHash = some e → w₀.emailTaken id e = false)
      (users : w'.users = w₀.users.map fun v => if v.id = id then c.apply now v else v) :
      Edited w₀ id c w' (.ok (c.apply now u))

/-- The outcome of a query as an outcome of the service. -/
def raised : Except PrismaError User → Except Failure User
  | .ok u => .ok u
  | .error .uniqueViolation => .error UsersService.emailConflict
  | .error e => .error (.prisma e)

lemma UpdateStep.edited {ch : Choice} {id : Uuid} {c : UserChanges} {w w' : World}
    {r : Except PrismaError User} (step : UpdateStep ch id c w w' r) (healthy : Healthy False ch)
    (users : w.users = w₀.users) : Edited w₀ id c w' (raised r) := by
  have taken : ∀ e, w.emailTaken id e = w₀.emailTaken id e := by
    intro e
    rw [World.emailTaken, World.emailTaken, users]
  cases step with
  | failed fails => exact (healthy fails).elim
  | missing _ absent same => exact .missing (users ▸ absent) (same.trans users)
  | taken _ u found e changes held same =>
    exact .conflict u (users ▸ found) e changes (taken e ▸ held) (same.trans users)
  | updated _ u found free same =>
    exact .edited u ch.now (users ▸ found) (fun e changes => taken e ▸ free e changes)
      (users ▸ same)

lemma updateName_alone (valid : ValidKeys env) {id : Uuid} {names : UserNames}
    (first : names.firstName ≠ some "") (last : names.lastName ≠ some "") :
    Serial env False (Grows w) (fun _ out w' => ∃ firstNameEnc lastNameEnc,
      Named env UsersService.FIELD.firstName names.firstName firstNameEnc ∧
      Named env UsersService.FIELD.lastName names.lastName lastNameEnc ∧
      Edited w id { firstNameEnc, lastNameEnc } w' out) [] w
      (UsersService.updateName env id names) := by
  refine meets_bind ((encryptName_grows valid first (List.Subset.refl w.uuids)).mono ?_)
  rintro h₁ _ w₁ grows₁ ⟨users₁, firstNameEnc, rfl, named₁⟩
  refine ⟨?_, by simp⟩
  rintro _ ⟨⟩
  refine meets_bind ((encryptName_grows valid last grows₁).mono ?_)
  rintro h₂ _ w₂ grows₂ ⟨users₂, lastNameEnc, rfl, named₂⟩
  refine ⟨?_, by simp⟩
  rintro _ ⟨⟩
  refine serial_await (serial_perform grows₂ ?_)
  intro ch r w₃ healthy answered
  have edited := (exec_userUpdate answered).edited healthy (users₂.trans users₁)
  refine ⟨grows₂.exec answered, ?_, ?_, by simp⟩
  · rintro u ⟨⟩
    exact ⟨_, _, named₁, named₂, edited⟩
  · rintro e ⟨⟩
    refine ⟨_, _, named₁, named₂, ?_⟩
    cases e with
    | uniqueViolation => cases exec_userUpdate answered with
      | taken _ _ _ _ changes => cases changes
    | _ => exact edited

lemma updateEmail_alone (valid : ValidKeys env) {id : Uuid} {email : String} :
    Serial env False (Grows w) (fun _ out w' => ∃ version enc,
      Sealed env version UsersService.FIELD.email (normalizeEmail env.unicode email) enc ∧
      Edited w id { emailHash := some (UsersService.emailHash env email), emailEnc := some enc }
        w' out) [] w (UsersService.updateEmail env id email) := by
  refine meets_bind ((encryptEmail_grows valid (List.Subset.refl w.uuids)).mono ?_)
  rintro h₁ _ w₁ grows₁ ⟨users₁, version, enc, rfl, fixed⟩
  refine ⟨?_, by simp⟩
  rintro _ ⟨⟩
  refine conflictOnDuplicate_grows (serial_perform grows₁ ?_)
  intro ch r w₂ healthy answered
  have edited := (exec_userUpdate answered).edited healthy users₁
  refine ⟨grows₁.exec answered, ?_, ?_, ?_, by simp⟩
  · rintro u ⟨⟩
    exact ⟨version, enc, fixed, edited⟩
  · rintro ⟨⟩
    exact ⟨version, enc, fixed, edited⟩
  · rintro e other ⟨⟩
    refine ⟨version, enc, fixed, ?_⟩
    cases e with
    | uniqueViolation => exact absurd rfl other
    | _ => exact edited

lemma delete_alone {id : Uuid} :
    Serial env False (Grows w) (fun _ out w' =>
      (out = .error (.prisma .recordNotFound) ∧ w.users.find? (·.id = id) = none ∧
        w'.users = w.users) ∨
      (out = .ok () ∧ w.users.find? (·.id = id) ≠ none ∧
        w'.users = w.users.filter (·.id ≠ id))) [] w (UsersService.delete id) := by
  have grows₀ : Grows w [] w := List.Subset.refl w.uuids
  refine meets_bind (serial_await (serial_perform grows₀ ?_))
  intro ch r w₁ healthy answered
  have grows : Grows w [⟨.userDelete id, r⟩] w₁ := grows₀.exec answered
  cases exec_userDelete answered with
  | failed fails => exact (healthy fails).elim
  | missing absent users =>
    refine ⟨grows, by simp, ?_, by simp⟩
    rintro _ ⟨⟩
    exact ⟨by simp, fun e _ => .inl ⟨by simp_all, absent, users⟩⟩
  | deleted u found users =>
    refine ⟨grows, ?_, by simp, by simp⟩
    rintro _ ⟨⟩
    exact ⟨fun _ _ => ⟨grows, .inr ⟨rfl, by simp [found], users⟩⟩, by simp⟩

lemma findByEmail_alone {email : String} :
    Serial env False (Grows w) (fun _ out w' => w'.users = w.users ∧
      out = .ok (w.users.find? (·.emailHash = UsersService.emailHash env email))) [] w
      (UsersService.findByEmail env email) := by
  have grows₀ : Grows w [] w := List.Subset.refl w.uuids
  refine serial_await (serial_perform grows₀ ?_)
  intro ch r w₁ healthy answered
  obtain ⟨users, ⟨fails, _⟩ | rfl⟩ := exec_userFindByEmailHash answered
  · exact (healthy fails).elim
  · refine ⟨grows₀.exec answered, ?_, by simp, by simp⟩
    rintro _ ⟨⟩
    exact ⟨users, rfl⟩

end Operations

end BajaValle
