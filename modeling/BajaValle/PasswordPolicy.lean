import BajaValle.Acceptability
import BajaValle.Enciphered
import BajaValle.Rehashing

/-!
# The password policy of accounts

The policy relates the password of an account to its email: a row fits when the
password that its hash was made from is acceptable for the email behind its
ciphertext. No column keeps that password, so it is followed beside the tables,
by the calls that hash and store, through runs of the requests that write either
column, each request alone and calls failing as they may.
-/

namespace BajaValle

open CallPrograms Prog AuthService SessionsService EncryptionService

/-- A tag has the length that is asked for. -/
def FullTags (env : Env) : Prop :=
  ∀ m nonce params bytes, env.argon2id m nonce params = some bytes →
    bytes.length = PasswordService.HASH_BYTES

/-- The password that the hash of each account was made from. No part of the
service keeps it. -/
abbrev Origins := Uuid → String

/-- The password hashed last. -/
def lastHashed : List OwnCall → String
  | [] => ""
  | ⟨.argon2 password _ _, _⟩ :: _ => password
  | _ :: h => lastHashed h

/-- A call that stores a hash stores one of this password. -/
def Origins.record (origins : Origins) (password : String) : OwnCall → Origins
  | ⟨.userCreate _, .ok u⟩ => Function.update origins u.id password
  | ⟨.userUpdate id c, .ok _⟩ =>
    Function.update origins id (c.passwordHash.elim (origins id) fun _ => password)
  | _ => origins

def Origins.after (origins : Origins) : List OwnCall → Origins
  | [] => origins
  | k :: h => (origins.after h).record (lastHashed h) k

/-- The hash was made from the password, which is acceptable for the email behind
the ciphertext. -/
def Fits (env : Env) (password passwordHash emailEnc : String) : Prop :=
  PasswordService.Matches env passwordHash password ∧
    ∃ email, decrypt env emailEnc UsersService.FIELD.email = .ok email ∧
      PasswordService.assertAcceptable env password (some email) = .ok ()

/-- Every account satisfies the password policy. -/
def PolicyHolds (env : Env) (origins : Origins) (w : World) : Prop :=
  ∀ u ∈ w.users, Fits env (origins u.id) u.passwordHash u.emailEnc

structure Upholds (env : Env) (origins : Origins) (w : World) : Prop where
  unique : (w.users.map User.id).Nodup
  drawn : ∀ u ∈ w.users, u.id ∈ w.uuids
  policy : PolicyHolds env origins w

/-- The columns that the policy is about, and those that an update looks at. -/
def User.credentials (u : User) : Uuid × String × String × String :=
  (u.id, u.passwordHash, u.emailHash, u.emailEnc)

structure SameCredentials (o : Origins) (w : World) (o' : Origins) (w' : World) : Prop where
  rows : w'.users.map User.credentials = w.users.map User.credentials
  uuids : w.uuids ⊆ w'.uuids
  origins : o' = o

/-- Calls that leave the credentials of all users alone. -/
def KeepsCredentials : Op → Prop
  | .userCreate _ | .userDelete _ => False
  | .userUpdate _ data => data.passwordHash = none ∧ data.emailHash = none ∧ data.emailEnc = none
  | _ => True

lemma ReadOnly.keepsCredentials {op : Op} (reads : ReadOnly op) : KeepsCredentials op := by
  cases op <;> trivial

lemma FullTags.ne_nil {env : Env} (tags : FullTags env) {m : String} {nonce bytes : Bytes}
    {params : Argon2Params} (derived : env.argon2id m nonce params = some bytes) : bytes ≠ [] := by
  rintro rfl
  have length := tags _ _ _ _ derived
  simp [PasswordService.HASH_BYTES] at length

section Ghost
variable {o : Origins} {h : List OwnCall} {k : OwnCall}

lemma Origins.after_leaves (leaves : LeavesUsers k) : o.after (k :: h) = o.after h := by
  change (o.after h).record (lastHashed h) k = o.after h
  unfold Origins.record
  split
  · exact leaves.elim
  · exact leaves.elim
  · rfl

lemma Origins.after_keeps {op : Op} {r : op.Res} (keeps : KeepsCredentials op) :
    o.after (⟨op, r⟩ :: h) = o.after h := by
  cases op with
  | userCreate d => exact keeps.elim
  | userUpdate id c =>
    cases r with
    | error e => rfl
    | ok u => simp [Origins.after, Origins.record, keeps.1]
  | _ => rfl

end Ghost

section Steps
variable {env : Env} {ch : Choice} {o o₁ o' : Origins} {h : List OwnCall} {w w₁ w' : World}
  {u v : User}

lemma SameCredentials.refl (o : Origins) (w : World) : SameCredentials o w o w :=
  ⟨rfl, List.Subset.refl _, rfl⟩

lemma SameCredentials.trans (first : SameCredentials o w o₁ w₁)
    (second : SameCredentials o₁ w₁ o' w') : SameCredentials o w o' w' :=
  ⟨second.rows.trans first.rows, List.Subset.trans first.uuids second.uuids,
    second.origins.trans first.origins⟩

/-- A row of the later world has the columns of a row of the earlier one. -/
lemma SameCredentials.row (same : SameCredentials o w o' w') (hv : v ∈ w'.users) :
    ∃ u ∈ w.users, u.id = v.id ∧ u.passwordHash = v.passwordHash ∧ u.emailHash = v.emailHash ∧
      u.emailEnc = v.emailEnc := by
  have mem : v.credentials ∈ w.users.map User.credentials := same.rows ▸ List.mem_map_of_mem hv
  obtain ⟨u, hu, columns⟩ := List.mem_map.mp mem
  simp only [User.credentials, Prod.mk.injEq] at columns
  exact ⟨u, hu, columns⟩

/-- An email that is free later on was free before. -/
lemma SameCredentials.free (same : SameCredentials o w o' w') {id : Uuid} {emailHash : String}
    (free : w'.emailTaken id emailHash = false) : w.emailTaken id emailHash = false := by
  have counts : ∀ v : World, v.emailTaken id emailHash = (v.users.map User.credentials).any
      fun row => row.1 ≠ id && row.2.2.1 = emailHash := by
    intro v
    rw [List.any_map]
    rfl
  rw [counts, ← same.rows, ← counts]
  exact free

lemma Upholds.same (upholds : Upholds env o w) (same : SameCredentials o w o' w') :
    Upholds env o' w' where
  unique := by
    have ids : ∀ users : List User,
        users.map User.id = (users.map User.credentials).map Prod.fst := by
      intro users
      rw [List.map_map]
      rfl
    rw [ids, same.rows, ← ids]
    exact upholds.unique
  drawn v hv := by
    obtain ⟨u, hu, id, _⟩ := same.row hv
    exact same.uuids (id ▸ upholds.drawn u hu)
  policy v hv := by
    obtain ⟨u, hu, id, hash, _, email⟩ := same.row hv
    rw [same.origins, ← id, ← hash, ← email]
    exact upholds.policy u hu

/-- The row that was read is the row of its id still. -/
lemma Upholds.row (upholds : Upholds env o w) (same : SameCredentials o w o' w')
    (hu : u ∈ w.users) (hv : v ∈ w'.users) (id : v.id = u.id) :
    v.passwordHash = u.passwordHash ∧ v.emailEnc = u.emailEnc := by
  obtain ⟨t, ht, tid, hash, _, email⟩ := same.row hv
  obtain rfl := List.inj_on_of_nodup_map upholds.unique ht hu (tid.trans id)
  exact ⟨hash.symm, email.symm⟩

lemma exec_keepsCredentials {op : Op} {r : op.Res} (answered : exec env ch op w = some (r, w'))
    (keeps : KeepsCredentials op) :
    SameCredentials (o.after h) w (o.after (⟨op, r⟩ :: h)) w' := by
  refine ⟨?_, (exec_spends answered).uuids, Origins.after_keeps keeps⟩
  cases exec_users answered with
  | kept rows => rw [rows]
  | inserted d => exact keeps.elim
  | updated id c u found free rows =>
    rw [rows, List.map_map]
    refine List.map_congr_left fun v _ => ?_
    simp only [Function.comp_apply]
    split
    · simp [User.credentials, keeps.1, keeps.2.1, keeps.2.2]
    · rfl
  | deleted id => exact keeps.elim

/-- An insertion of a row that fits the password hashed last. -/
lemma Upholds.created {d : NewUser} {r : Except PrismaError User}
    (upholds : Upholds env (o.after h) w)
    (fits : Fits env (lastHashed h) d.passwordHash d.emailEnc)
    (answered : exec env ch (.userCreate d) w = some (r, w')) :
    Upholds env (o.after (⟨.userCreate d, r⟩ :: h)) w' := by
  have uuids := (exec_spends answered).uuids
  cases exec_users answered with
  | kept rows leaves => exact upholds.same ⟨by rw [rows], uuids, Origins.after_leaves leaves⟩
  | inserted _ rows unused =>
    have other : ∀ u ∈ w.users, u.id ≠ ch.uuid := fun u hu same =>
      unused (same ▸ upholds.drawn u hu)
    refine ⟨?_, ?_, ?_⟩
    · rw [rows, List.map_append]
      refine List.nodup_append.mpr ⟨upholds.unique, by simp, ?_⟩
      intro id hid id' hid'
      obtain ⟨u, hu, rfl⟩ := List.mem_map.mp hid
      obtain rfl : id' = ch.uuid := by simpa using hid'
      exact other u hu
    · intro u hu
      rw [rows] at hu
      rcases List.mem_append.mp hu with old | new
      · exact uuids (upholds.drawn u old)
      · obtain rfl := List.mem_singleton.mp new
        exact (exec_drawnUuid answered rfl).2
    · intro u hu
      rw [rows] at hu
      rcases List.mem_append.mp hu with old | new
      · have kept : (o.after (⟨.userCreate d, .ok (d.row ch.uuid ch.now)⟩ :: h)) u.id =
            o.after h u.id := Function.update_of_ne (other u old) _ _
        rw [kept]
        exact upholds.policy u old
      · obtain rfl := List.mem_singleton.mp new
        have now : (o.after (⟨.userCreate d, .ok (d.row ch.uuid ch.now)⟩ :: h))
            (d.row ch.uuid ch.now).id = lastHashed h := Function.update_self _ _ _
        rw [now]
        exact fits

/-- An update that makes the row fit. -/
lemma Upholds.updated {id : Uuid} {c : UserChanges} {r : Except PrismaError User}
    (upholds : Upholds env (o.after h) w)
    (fits : (∀ e, c.emailHash = some e → w.emailTaken id e = false) →
      ∀ u ∈ w.users, u.id = id →
        Fits env (c.passwordHash.elim (o.after h id) fun _ => lastHashed h)
          (c.passwordHash.getD u.passwordHash) (c.emailEnc.getD u.emailEnc))
    (answered : exec env ch (.userUpdate id c) w = some (r, w')) :
    Upholds env (o.after (⟨.userUpdate id c, r⟩ :: h)) w' := by
  have uuids := (exec_spends answered).uuids
  cases exec_users answered with
  | kept rows leaves => exact upholds.same ⟨by rw [rows], uuids, Origins.after_leaves leaves⟩
  | updated _ _ u found free rows =>
    refine ⟨?_, ?_, ?_⟩
    · have ids : w'.users.map User.id = w.users.map User.id := by
        rw [rows, List.map_map]
        refine List.map_congr_left fun v _ => ?_
        simp only [Function.comp_apply]
        split <;> rfl
      exact ids ▸ upholds.unique
    · intro v hv
      rw [rows] at hv
      obtain ⟨t, ht, rfl⟩ := List.mem_map.mp hv
      have key : (if t.id = id then c.apply ch.now t else t).id = t.id := by split <;> rfl
      rw [key]
      exact uuids (upholds.drawn t ht)
    · intro v hv
      rw [rows] at hv
      obtain ⟨t, ht, rfl⟩ := List.mem_map.mp hv
      split
      · rename_i same
        have now : (o.after (⟨.userUpdate id c, .ok (c.apply ch.now u)⟩ :: h)) t.id =
            c.passwordHash.elim (o.after h id) fun _ => lastHashed h :=
          same ▸ Function.update_self _ _ _
        rw [UserChanges.apply_id, now]
        exact fits free t ht same
      · rename_i other
        have kept : (o.after (⟨.userUpdate id c, .ok (c.apply ch.now u)⟩ :: h)) t.id =
            o.after h t.id := Function.update_of_ne other _ _
        rw [kept]
        exact upholds.policy t ht

end Steps

/-- All runs of a program alone uphold the policy at every point. -/
abbrev Governed {α : Type} (env : Env) (o : Origins) (p : Task α) (h : List OwnCall) (w : World) :
    Prop :=
  Serial env True (fun h' w' => Upholds env (o.after h') w') (fun _ _ _ => True) h w p

/-- They do, and an end has the property. -/
abbrev Reaches {α : Type} (env : Env) (o : Origins)
    (post : List OwnCall → Except Failure α → World → Prop) (h : List OwnCall) (w : World)
    (p : Task α) : Prop :=
  Serial env True (fun h' w' => Upholds env (o.after h') w')
    (fun h' out w' => SameCredentials (o.after h) w (o.after h') w' ∧ post h' out w') h w p

section Programs
variable {env : Env} {o : Origins} {α β : Type} {h : List OwnCall} {w : World}

/-- The columns and their origins, before a program alone and at a point of it. -/
lemma SameCredentials.exec {ch : Choice} {op : Op} {r : op.Res} {h₁ : List OwnCall} {w₁ w₂ : World}
    (same : SameCredentials (o.after h) w (o.after h₁) w₁)
    (answered : exec env ch op w₁ = some (r, w₂)) (keeps : KeepsCredentials op) :
    SameCredentials (o.after h) w (o.after (⟨op, r⟩ :: h₁)) w₂ :=
  same.trans (exec_keepsCredentials answered keeps)

lemma serial_keeps {p : Task α} (upholds : Upholds env (o.after h) w)
    (uses : p.Uses KeepsCredentials) : Reaches env o (fun _ _ _ => True) h w p := by
  have obeys : p.Obeys (fun _ op => KeepsCredentials op) (fun _ _ => True) h :=
    uses_anywhere uses h
  have kept : Serial env True (fun h' w' => SameCredentials (o.after h) w (o.after h') w')
      (fun _ _ _ => True) h w p :=
    (meets_of_obeys obeys (.refl _ w) fun _ _ _ _ _ _ keeps _ answered same =>
      same.exec answered keeps).mono fun _ _ _ _ _ => trivial
  have ends := kept.mono fun _ _ _ same _ => (⟨same, trivial⟩ : _ ∧ True)
  exact ends.weaken fun _ _ => upholds.same

lemma governed_keeps {p : Task α} (upholds : Upholds env (o.after h) w)
    (uses : p.Uses KeepsCredentials) : Governed env o p h w :=
  (serial_keeps upholds uses).mono fun _ _ _ _ _ => trivial

lemma reaches_bind {M : List OwnCall → Except Failure α → World → Prop} {p : Task α}
    {f : α → Task β} (first : Reaches env o M h w p)
    (rest : ∀ h' a w', Upholds env (o.after h') w' → SameCredentials (o.after h) w (o.after h') w' →
      M h' (.ok a) w' → Governed env o (f a) h' w') : Governed env o (p >>= f) h w := by
  refine meets_bind (first.mono fun h' out w' upholds met => ⟨?_, fun _ _ => trivial⟩)
  rintro a rfl
  exact rest h' a w' upholds met.1 met.2

/-- Whatever the first part wrote, the rest only needs the policy. -/
lemma governed_bind {p : Task α} {f : α → Task β} (first : Governed env o p h w)
    (rest : ∀ h' a w', Upholds env (o.after h') w' → Governed env o (f a) h' w') :
    Governed env o (p >>= f) h w := by
  refine meets_bind (first.mono fun h' out w' upholds _ => ⟨?_, fun _ _ => trivial⟩)
  rintro a rfl
  exact rest h' a w' upholds

lemma keeps_bind {p : Task α} {f : α → Task β} (upholds : Upholds env (o.after h) w)
    (uses : p.Uses KeepsCredentials)
    (rest : ∀ h' a w', Upholds env (o.after h') w' → SameCredentials (o.after h) w (o.after h') w' →
      Governed env o (f a) h' w') :
    Governed env o (p >>= f) h w :=
  reaches_bind (serial_keeps upholds uses) fun h' a w' upholds' same _ => rest h' a w' upholds' same

lemma reads_bind {p : Task α} {f : α → Task β} (upholds : Upholds env (o.after h) w)
    (uses : p.Uses ReadOnly)
    (rest : ∀ h' a w', Upholds env (o.after h') w' → SameCredentials (o.after h) w (o.after h') w' →
      Governed env o (f a) h' w') :
    Governed env o (p >>= f) h w :=
  keeps_bind upholds (uses.mono fun _ => ReadOnly.keepsCredentials) rest

/-- What `hash` returns was made from the password, which is the one hashed last. -/
lemma hash_makes (tags : FullTags env) (upholds : Upholds env (o.after h) w)
    (password : String) :
    Reaches env o (fun h' out _ => ∀ hash, out = .ok hash →
      PasswordService.Matches env hash password ∧ lastHashed h' = password) h w
      (PasswordService.hash password) := by
  refine meets_bind (serial_perform upholds fun ch salt w₁ _ drew => ?_)
  have same₁ := (SameCredentials.refl (o.after h) w).exec drew trivial
  have length := exec_randomBytes drew
  refine ⟨upholds.same same₁, ?_, by simp⟩
  rintro _ ⟨⟩
  refine meets_bind (meets_bind (serial_perform (upholds.same same₁) fun ch' r w₂ _ derived => ?_))
  have same₂ := same₁.exec derived trivial
  refine ⟨upholds.same same₂, ?_, by simp⟩
  rintro _ ⟨⟩
  cases r with
  | error e => exact ⟨upholds.same same₂, by simp, fun _ _ => ⟨same₂, by simp⟩⟩
  | ok bytes =>
    refine ⟨upholds.same same₂, ?_, by simp⟩
    rintro _ ⟨⟩
    refine ⟨upholds.same same₂, same₂, fun hash made => ⟨?_, rfl⟩⟩
    have value := exec_argon2 derived
    have saltNe : salt ≠ [] := by
      rintro rfl
      simp [PasswordService.SALT_BYTES] at length
    rw [← Except.ok.inj made]
    exact ⟨_, PasswordService.parse_phc saltNe (tags.ne_nil value), value⟩

lemma verify_accepts (upholds : Upholds env (o.after h) w) (storedHash password : String) :
    Reaches env o (fun _ out _ => out = .ok true →
      PasswordService.Matches env storedHash password) h w
      (PasswordService.verify storedHash password) := by
  unfold PasswordService.verify
  split
  · exact ⟨upholds, .refl _ w, by simp⟩
  · rename_i parsed hparse
    refine meets_bind (meets_bind (serial_perform upholds fun ch r w₁ _ derived => ?_))
    have same := (SameCredentials.refl (o.after h) w).exec derived trivial
    refine ⟨upholds.same same, ?_, by simp⟩
    rintro _ ⟨⟩
    cases r with
    | error e => exact ⟨upholds.same same, by simp, fun _ _ => ⟨same, by simp⟩⟩
    | ok candidate =>
      refine ⟨upholds.same same, ?_, by simp⟩
      rintro _ ⟨⟩
      refine ⟨upholds.same same, same, fun matched => ⟨parsed, hparse, ?_⟩⟩
      obtain ⟨_, rfl⟩ : candidate.length = parsed.hash.length ∧ candidate = parsed.hash := by
        simpa using Except.ok.inj matched
      exact exec_argon2 derived

/-- An encryption draws an iv, and hashes no password. -/
lemma encryptFresh_encrypts (upholds : Upholds env (o.after h) w) (plaintext context : String) :
    Reaches env o (fun h' out _ => lastHashed h' = lastHashed h ∧ ∀ value, out = .ok value →
      ∃ iv, iv.length = IV_BYTES ∧ encrypt env iv plaintext context = .ok value) h w
      (encryptFresh env plaintext context) := by
  refine meets_bind (serial_perform upholds fun ch iv w₁ _ drew => ?_)
  have same := (SameCredentials.refl (o.after h) w).exec drew trivial
  refine ⟨upholds.same same, ?_, by simp⟩
  rintro _ ⟨⟩
  exact serial_ofExcept (upholds.same same)
    ⟨same, rfl, fun value encrypted => ⟨iv, exec_randomBytes drew, encrypted⟩⟩

lemma encryptEmail_seals (safe : SafeKeys env) (upholds : Upholds env (o.after h) w)
    (email : String) :
    Reaches env o (fun h' out _ => lastHashed h' = lastHashed h ∧
      ∀ emailHash emailEnc, out = .ok (emailHash, emailEnc) →
        emailHash = UsersService.emailHash env email ∧
        decrypt env emailEnc UsersService.FIELD.email = .ok (normalizeEmail env.unicode email)) h w
      (UsersService.encryptEmail env email) := by
  refine meets_bind ((encryptFresh_encrypts upholds _ _).mono ?_)
  rintro h₁ out w₁ upholds₁ ⟨same, hashed, sealed_⟩
  refine ⟨?_, fun _ _ => ⟨same, hashed, by simp⟩⟩
  rintro emailEnc rfl
  obtain ⟨iv, length, encrypted⟩ := sealed_ _ rfl
  obtain ⟨version, _, opens⟩ := sealed_encrypt safe length encrypted
  refine ⟨upholds₁, same, hashed, ?_⟩
  rintro _ _ ⟨⟩
  exact ⟨rfl, opens.decrypt⟩

lemma governed_perform {op : Op} (upholds : Upholds env (o.after h) w)
    (answers : ∀ ch r w', exec env ch op w = some (r, w') →
      Upholds env (o.after (⟨op, r⟩ :: h)) w') :
    Governed env o (perform op) h w :=
  serial_perform upholds fun ch r w' _ answered => ⟨answers ch r w' answered, trivial⟩

lemma governed_await {run : Task (Except PrismaError α)} (governed : Governed env o run h w) :
    Governed env o (await run) h w := by
  refine governed_bind governed fun h' r w' upholds => ?_
  cases r <;> exact ⟨upholds, trivial⟩

lemma governed_conflict {run : Task (Except PrismaError User)}
    (governed : Governed env o run h w) :
    Governed env o (UsersService.conflictOnDuplicate run) h w := by
  refine governed_bind governed fun h' r w' upholds => ?_
  cases r with
  | ok u => exact ⟨upholds, trivial⟩
  | error e => cases e <;> exact ⟨upholds, trivial⟩

/-- A call that leaves the credentials alone, of whose answer this is known. -/
lemma reaches_perform {op : Op} {post : Except Failure op.Res → Prop}
    (upholds : Upholds env (o.after h) w) (keeps : KeepsCredentials op)
    (answers : ∀ ch r w', exec env ch op w = some (r, w') → post (.ok r)) :
    Reaches env o (fun _ out _ => post out) h w (perform op) := by
  refine serial_perform upholds fun ch r w' _ answered => ?_
  have same := (SameCredentials.refl (o.after h) w).exec answered keeps
  exact ⟨upholds.same same, same, answers ch r w' answered⟩

lemma reaches_await {run : Task (Except PrismaError α)} {post : Except Failure α → Prop}
    (fails : ∀ e, post (.error e))
    (meets : Reaches env o (fun _ out _ => ∀ a, out = .ok (.ok a) → post (.ok a)) h w run) :
    Reaches env o (fun _ out _ => post out) h w (await run) :=
  serial_await (meets.mono fun _ _ _ _ ⟨same, found⟩ =>
    ⟨fun a returned => ⟨same, found a returned⟩, fun _ _ => ⟨same, fails _⟩,
      fun _ _ => ⟨same, fails _⟩⟩)

/-- The row that `findById` returns is the stored one. -/
lemma findById_reads (upholds : Upholds env (o.after h) w) (id : Uuid) :
    Reaches env o (fun _ out _ => ∀ u, out = .ok (some u) → u ∈ w.users ∧ u.id = id) h w
      (UsersService.findById id) := by
  refine reaches_await (by simp) (reaches_perform upholds trivial ?_)
  rintro ch r w' answered _ ⟨⟩ u ⟨⟩
  rcases (exec_userFindById answered).2 with ⟨_, failed⟩ | read
  · cases failed
  · have found := (Except.ok.inj read).symm
    exact ⟨List.mem_of_find?_eq_some found, by simpa using List.find?_some found⟩

lemma findByEmail_reads (upholds : Upholds env (o.after h) w) (email : String) :
    Reaches env o (fun _ out _ => ∀ u, out = .ok (some u) → u ∈ w.users ∧
      u.emailHash = UsersService.emailHash env email) h w (UsersService.findByEmail env email) := by
  refine reaches_await (by simp) (reaches_perform upholds trivial ?_)
  rintro ch r w' answered _ ⟨⟩ u ⟨⟩
  rcases (exec_userFindByEmailHash answered).2 with ⟨_, failed⟩ | read
  · cases failed
  · have found := (Except.ok.inj read).symm
    exact ⟨List.mem_of_find?_eq_some found, by simpa using List.find?_some found⟩

/-- A confirmed password verifies against the stored hash. -/
lemma verifyCurrentPassword_confirms (upholds : Upholds env (o.after h) w) (id : Uuid)
    (password : String) :
    Reaches env o (fun _ out _ => ∀ u, out = .ok u → u ∈ w.users ∧ u.id = id ∧
      PasswordService.Matches env u.passwordHash password) h w
      (verifyCurrentPassword id password) := by
  refine meets_bind ((findById_reads upholds id).mono ?_)
  rintro h₁ out w₁ upholds₁ ⟨same₁, read⟩
  refine ⟨?_, fun _ _ => ⟨same₁, by simp⟩⟩
  rintro (_ | u) rfl
  · exact ⟨upholds₁, same₁, by simp⟩
  refine meets_bind ((verify_accepts upholds₁ u.passwordHash password).mono ?_)
  rintro h₂ out w₂ upholds₂ ⟨same₂, accepted⟩
  refine ⟨?_, fun _ _ => ⟨same₁.trans same₂, by simp⟩⟩
  rintro (_ | _) rfl
  · exact ⟨upholds₂, same₁.trans same₂, by simp⟩
  · refine ⟨upholds₂, same₁.trans same₂, ?_⟩
    rintro _ ⟨⟩
    obtain ⟨stored, key⟩ := read u rfl
    exact ⟨stored, key, accepted rfl⟩

lemma update_governed {id : Uuid} {c : UserChanges} (upholds : Upholds env (o.after h) w)
    (fits : (∀ e, c.emailHash = some e → w.emailTaken id e = false) →
      ∀ u ∈ w.users, u.id = id →
        Fits env (c.passwordHash.elim (o.after h id) fun _ => lastHashed h)
          (c.passwordHash.getD u.passwordHash) (c.emailEnc.getD u.emailEnc)) :
    Governed env o (perform (.userUpdate id c)) h w :=
  governed_perform upholds fun _ _ _ answered => upholds.updated fits answered

lemma startSession_keeps (user : User) (userAgent : Option String) :
    (startSession env user userAgent).Uses KeepsCredentials := by
  have creates : (create env user.id userAgent).Uses KeepsCredentials :=
    uses_bind (perform_uses trivial) fun _ => uses_bind (perform_uses trivial) fun _ =>
      uses_bind (await_uses (perform_uses trivial)) fun _ => uses_ret _
  exact uses_bind creates fun _ => uses_bind (uses_bind (perform_uses trivial) fun _ => uses_ret _)
    fun _ => uses_bind (ofExcept_uses _) fun _ => uses_ret _

lemma clearFailures_keeps (user : User) : (clearFailures user).Uses KeepsCredentials := by
  unfold clearFailures
  split
  · exact uses_bind (await_uses (perform_uses ⟨rfl, rfl, rfl⟩)) fun _ => uses_ret _
  · exact uses_ret _

lemma registerFailedLogin_keeps (id : Uuid) : (registerFailedLogin id).Uses KeepsCredentials := by
  refine uses_bind (await_uses (perform_uses ⟨rfl, rfl, rfl⟩)) fun user => ?_
  split
  · exact uses_bind (await_uses (perform_uses ⟨rfl, rfl, rfl⟩)) fun _ => uses_ret _
  · exact uses_ret _

lemma revokeAll_keeps (id : Uuid) (except_ : Option Uuid) :
    (revokeAllForUser id except_).Uses KeepsCredentials :=
  uses_bind (await_uses (perform_uses trivial)) fun _ => uses_ret _

/-- A registration stores a password that it has accepted for the email it stores. -/
lemma register_governed (tags : FullTags env) (sign : env.unicode.AtSign)
    (safe : SafeKeys env) {dto : RegisterDto} {userAgent : Option String}
    (trimmed : Trimmed dto.email.toList) (upholds : Upholds env (o.after h) w) :
    Governed env o (register env dto userAgent) h w := by
  unfold register
  cases acceptable : PasswordService.assertAcceptable env dto.password (some dto.email) with
  | error e => exact ⟨upholds, trivial⟩
  | ok _ =>
    simp only [ofExcept_ok, ret_bind]
    refine reaches_bind (hash_makes tags upholds dto.password) ?_
    rintro h₁ hash w₁ upholds₁ _ made
    obtain ⟨matched, hashed₁⟩ := made hash rfl
    have creates : Governed env o (UsersService.create env dto.email dto.firstName dto.lastName hash
        none) h₁ w₁ := by
      refine reaches_bind (encryptEmail_seals safe upholds₁ dto.email) ?_
      rintro h₂ ⟨emailHash, emailEnc⟩ w₂ upholds₂ _ ⟨hashed₂, opens⟩
      refine reaches_bind (encryptFresh_encrypts upholds₂ _ _) ?_
      rintro h₃ firstNameEnc w₃ upholds₃ _ ⟨hashed₃, _⟩
      refine reaches_bind (encryptFresh_encrypts upholds₃ _ _) ?_
      rintro h₄ lastNameEnc w₄ upholds₄ _ ⟨hashed₄, _⟩
      refine governed_conflict (governed_perform upholds₄ fun _ _ _ answered => ?_)
      have hashed : lastHashed h₄ = dto.password := by rw [hashed₄, hashed₃, hashed₂, hashed₁]
      refine upholds₄.created (hashed ▸ ⟨matched, _, (opens _ _ rfl).2, ?_⟩) answered
      rwa [assertAcceptable_normalizeEmail sign trimmed]
    exact governed_bind creates fun h' user w' upholds' =>
      governed_keeps upholds' (startSession_keeps user userAgent)

/-- A rehash makes a new hash of the password that the old one was made from. -/
lemma rehash_governed (tags : FullTags env) {user : User} {password : String}
    (upholds : Upholds env (o.after h) w)
    (row : ∀ v ∈ w.users, v.id = user.id → password = o.after h v.id) :
    Governed env o (rehash user password) h w := by
  unfold rehash
  split
  · refine reaches_bind (hash_makes tags upholds password) ?_
    rintro h₁ hash w₁ upholds₁ same made
    obtain ⟨matched, hashed⟩ := made hash rfl
    refine governed_bind (governed_await (update_governed upholds₁ fun _ v hv key => ?_))
      fun _ _ _ upholds₂ => ⟨upholds₂, trivial⟩
    obtain ⟨_, email, opens, acceptable⟩ := upholds₁.policy v hv
    obtain ⟨u, hu, id, _⟩ := same.row hv
    have origin : password = o.after h₁ v.id := by
      rw [same.origins, ← id]
      exact row u hu (id.trans key)
    exact ⟨hashed.symm ▸ matched, email, opens, hashed.trans origin ▸ acceptable⟩
  · exact ⟨upholds, trivial⟩

lemma login_governed (tags : FullTags env) {dto : LoginDto} {userAgent : Option String}
    (upholds : Upholds env (o.after h) w)
    (tells : ∀ u ∈ w.users, u.emailHash = UsersService.emailHash env dto.email →
      PasswordService.Matches env u.passwordHash dto.password → dto.password = o.after h u.id) :
    Governed env o (login env dto userAgent) h w := by
  have refused : ∀ h w, Upholds env (o.after h) w → Governed env o ((do
      PasswordService.verifyAgainstDummy dto.password
      Prog.throw invalidCredentials : Task AuthResponse)) h w := fun h w upholds =>
    reads_bind upholds (verifyAgainstDummy_uses _) fun _ _ _ upholds' _ => ⟨upholds', trivial⟩
  refine reaches_bind (findByEmail_reads upholds dto.email) ?_
  rintro h₁ (_ | user) w₁ upholds₁ same₁ read
  · exact refused h₁ w₁ upholds₁
  obtain ⟨mem, index⟩ := read user rfl
  refine reads_bind upholds₁ (isLocked_uses user) fun h₂ locked w₂ upholds₂ same₂ => ?_
  cases locked with
  | true => exact refused h₂ w₂ upholds₂
  | false =>
    refine reaches_bind (verify_accepts upholds₂ user.passwordHash dto.password) ?_
    rintro h₃ (_ | _) w₃ upholds₃ same₃ accepted
    · exact keeps_bind upholds₃ (registerFailedLogin_keeps _) fun _ _ _ upholds' _ =>
        ⟨upholds', trivial⟩
    · refine keeps_bind upholds₃ (clearFailures_keeps user) fun h₄ _ w₄ upholds₄ same₄ => ?_
      refine governed_bind (rehash_governed tags upholds₄ ?_)
        fun _ _ _ upholds₅ => governed_keeps upholds₅ (startSession_keeps user userAgent)
      intro v hv key
      have same := ((same₁.trans same₂).trans same₃).trans same₄
      rw [same.origins, key]
      exact tells user mem index (accepted rfl)

lemma checkNewPassword_accepts {stored : User} {newPassword currentPassword : String}
    (checked : ProfileController.checkNewPassword env stored newPassword currentPassword = .ok ()) :
    ∃ email, decrypt env stored.emailEnc UsersService.FIELD.email = .ok email ∧
      PasswordService.assertAcceptable env newPassword (some email) = .ok () := by
  unfold ProfileController.checkNewPassword at checked
  split at checked
  · cases checked
  · split at checked
    · cases checked
    · rename_i profile opened
      obtain ⟨email, _, _, deciphered, _, _, rfl⟩ := UsersService.toProfile_eq_ok.mp opened
      exact ⟨email, deciphered, checked⟩

/-- A password change checks the new password against the stored email. -/
lemma changePassword_governed (tags : FullTags env) {user : AuthUser}
    {newPassword currentPassword : String} (upholds : Upholds env (o.after h) w) :
    Governed env o (ProfileController.changePassword env user newPassword currentPassword) h w := by
  refine reaches_bind (verifyCurrentPassword_confirms upholds user.id currentPassword) ?_
  rintro h₁ stored w₁ upholds₁ same₁ confirmed
  obtain ⟨mem, id, _⟩ := confirmed stored rfl
  cases checked : ProfileController.checkNewPassword env stored newPassword currentPassword with
  | error e => exact ⟨upholds₁, trivial⟩
  | ok _ =>
    obtain ⟨email, opens, acceptable⟩ := checkNewPassword_accepts checked
    simp only [ofExcept_ok, ret_bind]
    refine reaches_bind (hash_makes tags upholds₁ newPassword) ?_
    rintro h₂ hash w₂ upholds₂ same₂ made
    obtain ⟨matched, hashed⟩ := made hash rfl
    refine governed_bind (governed_await (update_governed upholds₂ fun _ v hv key => ?_))
      fun _ _ _ upholds₃ => governed_keeps upholds₃ (revokeAll_keeps _ _)
    have columns := upholds.row (same₁.trans same₂) mem hv (key.trans id.symm)
    exact hashed.symm ▸ ⟨matched, email, columns.2 ▸ opens, acceptable⟩

/-- An email change keeps the policy if it fits wherever it takes effect. -/
lemma changeEmail_governed (safe : SafeKeys env) {user : AuthUser}
    {newEmail currentPassword : String} (upholds : Upholds env (o.after h) w)
    (fits : ∀ u ∈ w.users, u.id = user.id →
      PasswordService.Matches env u.passwordHash currentPassword →
      w.emailTaken u.id (UsersService.emailHash env newEmail) = false →
      PasswordService.assertAcceptable env (o.after h u.id)
        (some (normalizeEmail env.unicode newEmail)) = .ok ()) :
    Governed env o (ProfileController.changeEmail env user newEmail currentPassword) h w := by
  refine reaches_bind (verifyCurrentPassword_confirms upholds user.id currentPassword) ?_
  rintro h₁ stored w₁ upholds₁ same₁ confirmed
  obtain ⟨mem, id, matched⟩ := confirmed stored rfl
  have updates : Governed env o (UsersService.updateEmail env user.id newEmail) h₁ w₁ := by
    refine reaches_bind (encryptEmail_seals safe upholds₁ newEmail) ?_
    rintro h₂ ⟨emailHash, emailEnc⟩ w₂ upholds₂ same₂ ⟨_, sealed_⟩
    obtain ⟨rfl, opens⟩ := sealed_ _ _ rfl
    refine governed_conflict (update_governed upholds₂ fun free v hv key => ?_)
    have same := same₁.trans same₂
    have origin : o.after h₂ user.id = o.after h stored.id := by rw [same.origins, id]
    refine ⟨?_, _, opens, ?_⟩
    · exact key ▸ (upholds₂.policy v hv).1
    · change PasswordService.assertAcceptable env (o.after h₂ user.id) _ = _
      rw [origin]
      exact fits stored mem id matched (id.symm ▸ same.free (free _ rfl))
  exact governed_bind updates fun h' u w' upholds' => governed_keeps upholds' (ofExcept_uses _)

end Programs

/-- The guard may let the request through to act for this account: it bears a token
of the account, whose session is live. -/
def AdmittedFor (env : Env) (req : Request) (w : World) (id : Uuid) : Prop :=
  ∃ header token payload s now now', req.authorization = some header ∧
    JwtAuthGuard.bearer header = some token ∧ w.clock ≤ now ∧
    env.jwtVerify token now = some payload ∧ payload.sub = id ∧ now ≤ now' ∧
    s ∈ w.sessions ∧ s.id = payload.sid ∧ s.userId = id ∧ s.revokedAt = none ∧ now' < s.expiresAt

/-- The requests that write emails or passwords. A registration comes with its
email trimmed. -/
def WritesAccount (req : Request) : Prop :=
  match req.handler with
  | .register dto => Trimmed dto.email.toList
  | .login _ | .changePassword _ _ | .changeEmail _ _ => True
  | _ => False

/-- An email change that is let through, with a password that verifies and an email
that is free, is to an email for which the password behind the hash is acceptable. -/
def EmailChangeFits (env : Env) (req : Request) (w : World) (origins : Origins) : Prop :=
  ∀ newEmail currentPassword, req.handler = .changeEmail newEmail currentPassword →
    ∀ u ∈ w.users, AdmittedFor env req w u.id →
      PasswordService.Matches env u.passwordHash currentPassword →
      w.emailTaken u.id (UsersService.emailHash env newEmail) = false →
      PasswordService.assertAcceptable env (origins u.id)
        (some (normalizeEmail env.unicode newEmail)) = .ok ()

/-- A login whose password verifies has the one that the hash was made from, not
another with the same tag. -/
def NoCollision (env : Env) (req : Request) (w : World) (origins : Origins) : Prop :=
  ∀ dto, req.handler = .login dto →
    ∀ u ∈ w.users, u.emailHash = UsersService.emailHash env dto.email →
      PasswordService.Matches env u.passwordHash dto.password → dto.password = origins u.id

/-- What is asked of each request of a run. -/
structure Fitting (env : Env) (req : Request) (w : World) (origins : Origins) : Prop where
  emails : EmailChangeFits env req w origins
  logins : NoCollision env req w origins

/-- The worlds between requests that run one after another, each of them meeting a
condition where it starts, with the passwords behind the hashes. -/
inductive AccountRun (env : Env) (meets : Request → World → Origins → Prop) (w₀ : World)
    (origins₀ : Origins) : World → Origins → Prop where
  | start : AccountRun env meets w₀ origins₀ w₀ origins₀
  | request {w w' : World} {origins : Origins} {req : Request} {h : List OwnCall}
      {out : Except Failure Answer} (run : AccountRun env meets w₀ origins₀ w origins)
      (account : WritesAccount req) (met : meets req w origins)
      (finishes : Finishes (exec env) (Healthy True) (serve env req) w h out w') :
      AccountRun env meets w₀ origins₀ w' (origins.after h)

section Requests
variable {env : Env} {req : Request} {o o₀ : Origins} {h : List OwnCall} {w w₀ : World}

lemma exec_jwtVerify {ch : Choice} {token : String} {r : Option AccessTokenPayload} {w' : World}
    (h : exec env ch (.jwtVerify token) w = some (r, w')) : r = env.jwtVerify token ch.now := by
  obtain ⟨_, h⟩ := exec_eq_some.mp h
  exact (Prod.mk.inj (Option.some.inj h)).1.symm

lemma findActive_reads (upholds : Upholds env (o.after h) w) (sessionId : Uuid) :
    Reaches env o (fun _ out _ => ∀ s u, out = .ok (some (s, u)) →
      ∃ now, w.clock ≤ now ∧ s ∈ w.sessions ∧ s.id = sessionId ∧ s.revokedAt = none ∧
        now < s.expiresAt) h w (findActive sessionId) := by
  refine reaches_await (by simp) (reaches_perform upholds trivial ?_)
  rintro ch r w' answered _ ⟨⟩ s u ⟨⟩
  obtain ⟨stored, held, _⟩ := exec_find_active answered
  obtain ⟨id, live, unexpired⟩ := activeSession_holds.mp held
  exact ⟨ch.now, (exec_spends answered).later, stored, id, live, unexpired⟩

lemma authenticate_lets {header token : String} (upholds : Upholds env (o.after h) w)
    (bears : req.authorization = some header) (captured : JwtAuthGuard.bearer header = some token) :
    Reaches env o (fun _ out _ => ∀ user, out = .ok user → AdmittedFor env req w user.id) h w
      (JwtAuthGuard.authenticate token) := by
  refine meets_bind (serial_perform upholds fun ch r w₁ _ verified => ?_)
  have same := (SameCredentials.refl (o.after h) w).exec verified trivial
  have value := exec_jwtVerify verified
  have spends := exec_spends verified
  refine ⟨upholds.same same, ?_, by simp⟩
  rintro _ ⟨⟩
  cases r with
  | none => exact ⟨upholds.same same, same, by simp⟩
  | some payload =>
    refine meets_bind ((findActive_reads (upholds.same same) payload.sid).mono ?_)
    rintro h₂ out w₂ upholds₂ ⟨same₂, found⟩
    refine ⟨?_, fun _ _ => ⟨same.trans same₂, by simp⟩⟩
    rintro (_ | ⟨session, user⟩) rfl
    · exact ⟨upholds₂, same.trans same₂, by simp⟩
    · dsimp only
      split
      · exact ⟨upholds₂, same.trans same₂, by simp⟩
      · rename_i owner
        refine ⟨upholds₂, same.trans same₂, ?_⟩
        rintro _ ⟨⟩
        obtain ⟨now, later, stored, id, live, unexpired⟩ := found session user rfl
        rw [(exec_readOnly verified trivial).1] at stored
        exact ⟨header, token, payload, session, ch.now, now, bears, captured, spends.later,
          value.symm, rfl, spends.clock ▸ later, stored, id, not_not.mp owner, live, unexpired⟩

/-- The guards put the account of the token on the request. -/
lemma guards_let (upholds : Upholds env (o.after h) w) (route : Route) :
    Reaches env o (fun _ out _ => ∀ user, out = .ok (some user) → AdmittedFor env req w user.id) h w
      (guards route req.authorization) := by
  have found : Reaches env o (fun _ out _ =>
      ∀ user, out = .ok (some user) → AdmittedFor env req w user.id) h w
      (JwtAuthGuard.canActivate route req.authorization) := by
    unfold JwtAuthGuard.canActivate
    split
    · exact ⟨upholds, .refl _ w, by simp⟩
    · split
      · split <;> exact ⟨upholds, .refl _ w, by simp⟩
      · rename_i header some_
        split
        · exact ⟨upholds, .refl _ w, by simp⟩
        · rename_i token captured
          refine meets_bind ((authenticate_lets upholds (Option.filter_eq_some_iff.mp some_).1
            captured).mono ?_)
          rintro h₁ out w₁ upholds₁ ⟨same, lets⟩
          refine ⟨?_, fun _ _ => ⟨same, by simp⟩⟩
          rintro user rfl
          refine ⟨upholds₁, same, ?_⟩
          rintro _ ⟨⟩
          exact lets user rfl
  refine meets_bind (found.mono ?_)
  rintro h₁ out w₁ upholds₁ ⟨same, lets⟩
  refine ⟨?_, fun _ _ => ⟨same, by simp⟩⟩
  rintro user rfl
  cases RolesGuard.canActivate route user with
  | error e => exact ⟨upholds₁, same, by simp⟩
  | ok _ => exact ⟨upholds₁, same, lets⟩

lemma governed_map {α β : Type} {p : Task α} {f : α → β} (governed : Governed env o p h w) :
    Governed env o (f <$> p) h w :=
  governed_bind governed fun _ _ _ upholds => ⟨upholds, trivial⟩

lemma governed_withUser {user : Option AuthUser} {run : AuthUser → Task Answer}
    (upholds : Upholds env (o.after h) w)
    (each : ∀ au, user = some au → Governed env o (run au) h w) :
    Governed env o (withUser user run) h w := by
  cases user with
  | none => exact ⟨upholds, trivial⟩
  | some au => exact each au rfl

/-- A request that meets the condition where it starts upholds the policy at
every point of it. -/
theorem serve_governed (tags : FullTags env) (sign : env.unicode.AtSign) (safe : SafeKeys env)
    (account : WritesAccount req) (fitting : Fitting env req w o) (upholds : Upholds env o w) :
    Governed env o (serve env req) [] w := by
  have admitted : Reaches env o (fun _ out _ =>
      ∀ user, out = .ok (some user) → AdmittedFor env req w user.id) [] w
      (guards req.handler.route req.authorization) := guards_let upholds req.handler.route
  refine reaches_bind admitted ?_
  rintro h₁ user w₁ upholds₁ same lets
  have origins : o.after h₁ = o := same.origins
  unfold handle
  unfold WritesAccount at account
  split at account
  · rename_i dto hreq
    rw [hreq]
    exact governed_map (register_governed tags sign safe account upholds₁)
  · rename_i dto hreq
    rw [hreq]
    refine governed_map (login_governed tags upholds₁ fun v hv index matched => ?_)
    obtain ⟨u, hu, id, hash, email, _⟩ := same.row hv
    rw [origins, ← id]
    exact fitting.logins dto hreq u hu (email.trans index) (hash.symm ▸ matched)
  · rename_i newPassword currentPassword hreq
    rw [hreq]
    exact governed_withUser upholds₁ fun au _ =>
      governed_map (changePassword_governed tags upholds₁)
  · rename_i newEmail currentPassword hreq
    rw [hreq]
    refine governed_withUser upholds₁ fun au hau =>
      governed_map (changeEmail_governed safe upholds₁ ?_)
    intro v hv key matched free
    obtain ⟨u, hu, id, hash, _⟩ := same.row hv
    rw [origins, ← id]
    exact fitting.emails newEmail currentPassword hreq u hu
      ((id.trans key).symm ▸ lets au (hau ▸ rfl))
      (hash.symm ▸ matched) (id.symm ▸ same.free free)
  · exact account.elim

lemma accountRun_upholds (tags : FullTags env) (sign : env.unicode.AtSign) (safe : SafeKeys env)
    (upholds : Upholds env o₀ w₀) (run : AccountRun env (Fitting env) w₀ o₀ w o) :
    Upholds env o w := by
  induction run with
  | start => exact upholds
  | request _ account met finishes ih =>
    exact ((serve_governed tags sign safe account met ih).finishes finishes).1

end Requests

/-- While every email change fits, the policy holds between requests and at
every point of the next one. -/
theorem policy_upheld_when_email_changes_fit (env : Env) (tags : FullTags env)
    (sign : env.unicode.AtSign) (safe : SafeKeys env) (w₀ w : World) (origins₀ origins : Origins)
    (unique : (w₀.users.map User.id).Nodup) (drawn : ∀ u ∈ w₀.users, u.id ∈ w₀.uuids)
    (policy : PolicyHolds env origins₀ w₀)
    (run : AccountRun env (Fitting env) w₀ origins₀ w origins) :
    PolicyHolds env origins w ∧ ∀ req p h w', WritesAccount req → Fitting env req w origins →
      Runs (exec env) (Healthy True) (serve env req) [] w p h w' →
      PolicyHolds env (origins.after h) w' := by
  have upholds := accountRun_upholds tags sign safe ⟨unique, drawn, policy⟩ run
  refine ⟨upholds.policy, fun req p h w' account fitting during => ?_⟩
  exact ((serve_governed tags sign safe account fitting upholds).runs during).policy

namespace Plain

lemma fullTags : FullTags digestEnv := by
  intro m nonce params bytes derived
  rw [← Option.some.inj derived]
  simp [shortDigest, PasswordService.HASH_BYTES]

lemma atSign : digestEnv.unicode.AtSign where
  lower_at := by decide
  at_of_lower c h := by
    change '@' ∈ (if c = 'Σ' then ['σ'] else [c]) at h
    split at h
    · exact absurd h (by decide)
    · exact (List.mem_singleton.mp h).symm
  uncased := rfl
  notIgnorable := rfl

lemma safeKeys : SafeKeys digestEnv := by
  intro e he
  obtain rfl := List.mem_singleton.mp he
  exact ⟨1, rfl, by decide, by decide⟩

def newWorld : World where
  users := []
  sessions := []
  clock := 0
  dummyHash := .unset
  uuids := []
  draws := []

def signUp : Request where
  handler := .register
    { firstName := "Ana", lastName := "Ruiz", email := "ana@valle.mx", password := "hotelbaja24" }

def moveTo (newEmail : String) : Request where
  handler := .changeEmail newEmail "hotelbaja24"
  authorization := some (bearer 3)

def ivChoice : Choice := { now := 1, bytes := List.replicate 12 0 }

def signUpChoices : List Choice :=
  [{ now := 1, bytes := List.replicate 16 7 }, { now := 1 }, ivChoice, ivChoice, ivChoice,
    { now := 1, uuid := 1 }, { now := 1, uuid := 2 }, { now := 1, bytes := bytes 1 },
    { now := 1, uuid := 3 }, { now := 1 }]

def moveChoices : List Choice :=
  [{ now := 1 }, { now := 1 }, { now := 1 }, { now := 1 }, ivChoice, { now := 1 }]

/-- A request served with these choices ends, and shows this. -/
def ends (req : Request) (choices : List Choice) (shows_ : World → Origins → Bool) (w : World)
    (origins : Origins) : Bool :=
  (feed (exec digestEnv) choices (serve digestEnv req) [] w).any fun end_ =>
    end_.1.outcome.isSome && shows_ end_.2.2 (origins.after end_.2.1)

lemma accountRun_next {meets : Request → World → Origins → Prop} {w₀ w : World}
    {origins₀ origins : Origins} {req : Request} {choices : List Choice}
    {shows_ : World → Origins → Bool} (run : AccountRun digestEnv meets w₀ origins₀ w origins)
    (shown : ends req choices shows_ w origins = true) (account : WritesAccount req)
    (met : meets req w origins) :
    ∃ w' origins', AccountRun digestEnv meets w₀ origins₀ w' origins' ∧
      shows_ w' origins' = true := by
  obtain ⟨end_, fed, shown⟩ := (Option.any_eq_true _ _).mp shown
  obtain ⟨ended, shown⟩ := Bool.and_eq_true_iff.mp shown
  obtain ⟨out, hout⟩ := Option.isSome_iff_exists.mp ended
  exact ⟨_, _, .request run account met
    ⟨end_.1, runs_of_feed fed fun _ _ _ => trivial, hout⟩, shown⟩

lemma signUp_writes : WritesAccount signUp := by
  have ends : "ana@valle.mx".toList.head? = some 'a' ∧
      "ana@valle.mx".toList.getLast? = some 'x' := by decide
  refine ⟨fun c first => ?_, fun c last => ?_⟩
  · obtain rfl := Option.some.inj (ends.1.symm.trans first)
    decide
  · obtain rfl := Option.some.inj (ends.2.symm.trans last)
    decide

/-- An email change that bears no token. -/
def strayMove : Request where
  handler := .changeEmail "hotelbaja@valle.mx" "hotelbaja24"

def comeBack : Request where
  handler := .login { email := "ana@valle.mx", password := "hotelbaja24" }

def comeBackChoices : List Choice :=
  [{ now := 1 }, { now := 1 }, { now := 1, uuid := 4 }, { now := 1, bytes := bytes 2 },
    { now := 1, uuid := 5 }, { now := 1 }]

/-- The hash of every account was made from this password. -/
def AllFrom (password : String) (w : World) (origins : Origins) : Prop :=
  ∀ u ∈ w.users, origins u.id = password

instance (password : String) (w : World) (origins : Origins) :
    Decidable (AllFrom password w origins) :=
  inferInstanceAs (Decidable (∀ u ∈ w.users, origins u.id = password))

lemma noCollision_of_allFrom {w : World} {origins : Origins} {req : Request}
    (same : AllFrom "hotelbaja24" w origins)
    (logins : ∀ dto, req.handler = .login dto → dto.password = "hotelbaja24") :
    NoCollision digestEnv req w origins :=
  fun dto hreq u hu _ _ => (logins dto hreq).trans (same u hu).symm

end Plain

/-- A registration, an email change that is refused, a login and an email change. -/
theorem policy_upheld_when_email_changes_fit_move :
    ∃ w origins, AccountRun Plain.digestEnv (Fitting Plain.digestEnv) Plain.newWorld (fun _ => "")
        w origins ∧
      w.users.length = 1 ∧ w.sessions.length = 2 ∧ PolicyHolds Plain.digestEnv origins w := by
  have shown : Plain.ends Plain.signUp Plain.signUpChoices (fun w o =>
      Plain.AllFrom "hotelbaja24" w o && Plain.ends Plain.strayMove [] (fun w o =>
      Plain.AllFrom "hotelbaja24" w o && Plain.ends Plain.comeBack Plain.comeBackChoices (fun w o =>
      Plain.AllFrom "hotelbaja24" w o && Plain.ends (Plain.moveTo "luna@valle.mx")
        Plain.moveChoices (fun w _ => w.users.length = 1 && w.sessions.length = 2) w o) w o) w o)
      Plain.newWorld (fun _ => "") = true := by decide +kernel
  have fresh : AccountRun Plain.digestEnv (Fitting Plain.digestEnv) Plain.newWorld (fun _ => "")
      Plain.newWorld (fun _ => "") := .start
  obtain ⟨w₁, o₁, first, shown⟩ := Plain.accountRun_next fresh shown Plain.signUp_writes
    ⟨by rintro _ _ ⟨⟩, by rintro _ ⟨⟩⟩
  obtain ⟨_, shown⟩ := Bool.and_eq_true_iff.mp shown
  have refused : EmailChangeFits Plain.digestEnv Plain.strayMove w₁ o₁ := by
    rintro _ _ _ _ _ ⟨_, _, _, _, _, _, bears, _⟩
    cases bears
  obtain ⟨w₂, o₂, second, shown⟩ := Plain.accountRun_next first shown trivial
    ⟨refused, by rintro _ ⟨⟩⟩
  obtain ⟨from₂, shown⟩ := Bool.and_eq_true_iff.mp shown
  have tells : NoCollision Plain.digestEnv Plain.comeBack w₂ o₂ :=
    Plain.noCollision_of_allFrom (of_decide_eq_true from₂) (by rintro _ ⟨⟩; rfl)
  obtain ⟨w₃, o₃, third, shown⟩ := Plain.accountRun_next second shown trivial
    ⟨by rintro _ _ ⟨⟩, tells⟩
  obtain ⟨from₃, shown⟩ := Bool.and_eq_true_iff.mp shown
  have fits : EmailChangeFits Plain.digestEnv (Plain.moveTo "luna@valle.mx") w₃ o₃ := by
    rintro _ _ ⟨⟩ u hu _ _ _
    rw [of_decide_eq_true from₃ u hu]
    decide +kernel
  obtain ⟨w, o, run, shown⟩ := Plain.accountRun_next third shown trivial
    ⟨fits, by rintro _ ⟨⟩⟩
  obtain ⟨one, two⟩ := Bool.and_eq_true_iff.mp shown
  exact ⟨w, o, run, of_decide_eq_true one, of_decide_eq_true two,
    (policy_upheld_when_email_changes_fit Plain.digestEnv Plain.fullTags Plain.atSign Plain.safeKeys
      Plain.newWorld w (fun _ => "") o (by decide) (by decide)
      (by simp [PolicyHolds, Plain.newWorld])
      run).1⟩

/-- An email change can leave an account whose password contains its email. -/
theorem policy_broken_by_email_change :
    ∃ w origins, AccountRun Plain.digestEnv (NoCollision Plain.digestEnv) Plain.newWorld
        (fun _ => "") w origins ∧ ¬ PolicyHolds Plain.digestEnv origins w := by
  have shown : Plain.ends Plain.signUp Plain.signUpChoices (fun w o =>
      Plain.ends (Plain.moveTo "hotelbaja@valle.mx") Plain.moveChoices (fun w o =>
        w.users.map (fun u => (o u.id, u.emailEnc)) =
          [("hotelbaja24", Plain.stored "hotelbaja@valle.mx" UsersService.FIELD.email)]) w o)
      Plain.newWorld (fun _ => "") = true := by decide +kernel
  have fresh : AccountRun Plain.digestEnv (NoCollision Plain.digestEnv) Plain.newWorld
      (fun _ => "") Plain.newWorld (fun _ => "") := .start
  obtain ⟨w₁, o₁, first, shown⟩ := Plain.accountRun_next fresh shown Plain.signUp_writes
    (by rintro _ ⟨⟩)
  obtain ⟨w, o, run, shown⟩ := Plain.accountRun_next first shown trivial (by rintro _ ⟨⟩)
  refine ⟨w, o, run, fun policy => ?_⟩
  have rows := of_decide_eq_true shown
  obtain ⟨u, hu, columns⟩ := List.mem_map.mp (rows.symm ▸ List.mem_singleton_self _)
  obtain ⟨password, enc⟩ := Prod.mk.inj columns
  obtain ⟨_, email, opens, acceptable⟩ := policy u hu
  rw [password] at acceptable
  rw [enc] at opens
  have decrypted : decrypt Plain.digestEnv (Plain.stored "hotelbaja@valle.mx"
      UsersService.FIELD.email) UsersService.FIELD.email = .ok "hotelbaja@valle.mx" := by
    decide +kernel
  obtain rfl := Except.ok.inj (decrypted.symm.trans opens)
  exact absurd acceptable (by decide +kernel)

end BajaValle
