import BajaValle.PhcStrings

/-!
# Rehashing

What `hash` builds is read back whole, so it verifies exactly the passwords that
derive the same bytes and needs no rehash. An accepted login leaves such a hash, or
the one it has found if that needs no rehash.
-/

namespace BajaValle

open CallPrograms Prog AuthService SessionsService

namespace PasswordService

/-- A derivation with the parameters of the service gives a hash of full length. -/
def DerivesHash (env : Env) : Prop :=
  ∀ password salt, salt.length = SALT_BYTES →
    ∃ bytes, env.argon2id password salt PARAMS = some bytes ∧ bytes.length = HASH_BYTES

/-- The text is what `hash` builds of the password and some salt. -/
def BuiltFrom (env : Env) (password stored : String) : Prop :=
  ∃ salt bytes, salt.length = SALT_BYTES ∧ env.argon2id password salt PARAMS = some bytes ∧
    stored = phc PARAMS salt bytes

section Codec
variable {env : Env} {password stored : String} {salt bytes : Bytes}

lemma ne_nil_of_length {bs : Bytes} {n : Nat} (length : bs.length = n + 1) : bs ≠ [] := by
  rintro rfl
  cases length

lemma parse_built (saltLength : salt.length = SALT_BYTES) (hashLength : bytes.length = HASH_BYTES) :
    parse (phc PARAMS salt bytes) = some ⟨PARAMS, salt, bytes⟩ :=
  parse_phc (ne_nil_of_length saltLength) (ne_nil_of_length hashLength)

lemma needsRehash_built (saltLength : salt.length = SALT_BYTES)
    (hashLength : bytes.length = HASH_BYTES) : needsRehash (phc PARAMS salt bytes) = false := by
  rw [needsRehash, parse_built saltLength hashLength]
  rfl

/-- A password verifies against what was built when it derives the same bytes. -/
lemma verdict_built (derives : DerivesHash env) (saltLength : salt.length = SALT_BYTES)
    (hashLength : bytes.length = HASH_BYTES) :
    verdict env (phc PARAMS salt bytes) password =
      some (decide (env.argon2id password salt PARAMS = some bytes)) := by
  obtain ⟨candidate, derived, _⟩ := derives password salt saltLength
  rw [verdict, parse_built saltLength hashLength]
  simp only [derived, Option.map_some, Option.some.injEq]

lemma BuiltFrom.settled (derives : DerivesHash env) (built : BuiltFrom env password stored) :
    needsRehash stored = false ∧ verdict env stored password = some true := by
  obtain ⟨salt, bytes, saltLength, derived, rfl⟩ := built
  obtain ⟨bytes', derived', hashLength⟩ := derives password salt saltLength
  obtain rfl := Option.some.inj (derived.symm.trans derived')
  refine ⟨needsRehash_built saltLength hashLength, ?_⟩
  rw [verdict_built derives saltLength hashLength, derived, decide_eq_true rfl]

lemma hash_builds {mayFail : Prop} (password : String) (h : List OwnCall) (w : World) :
    Serial env mayFail (fun _ _ => True)
      (fun _ out _ => ∀ stored, out = .ok stored → BuiltFrom env password stored) h w
      (hash password) := by
  refine meets_bind (serial_perform (I := fun _ _ => True) trivial ?_)
  intro ch salt w₁ _ drew
  refine ⟨trivial, ?_, by simp⟩
  rintro _ ⟨⟩
  refine meets_bind (meets_bind (serial_perform (I := fun _ _ => True) trivial ?_))
  intro ch' r w₂ _ derived
  refine ⟨trivial, ?_, by simp⟩
  rintro _ ⟨⟩
  cases r with
  | error e => exact ⟨trivial, by simp, by simp⟩
  | ok bytes =>
    refine ⟨trivial, ?_, by simp⟩
    rintro _ ⟨⟩
    exact ⟨trivial, fun stored made => ⟨salt, bytes, exec_randomBytes drew, exec_argon2 derived,
      (Except.ok.inj made).symm⟩⟩

lemma verify_matches {mayFail : Prop} (storedHash password : String) (h : List OwnCall)
    (w : World) : Serial env mayFail (fun _ _ => True)
      (fun _ out _ => out = .ok true → Matches env storedHash password) h w
      (verify storedHash password) := by
  unfold verify
  split
  · exact ⟨trivial, by simp⟩
  · rename_i parsed hparse
    refine meets_bind (meets_bind (serial_perform (I := fun _ _ => True) trivial ?_))
    intro ch r w₁ _ derived
    refine ⟨trivial, ?_, by simp⟩
    rintro _ ⟨⟩
    cases r with
    | error e => exact ⟨trivial, by simp, by simp⟩
    | ok candidate =>
      refine ⟨trivial, ?_, by simp⟩
      rintro _ ⟨⟩
      refine ⟨trivial, fun matched => ⟨parsed, hparse, ?_⟩⟩
      obtain ⟨_, rfl⟩ : candidate.length = parsed.hash.length ∧ candidate = parsed.hash := by
        simpa using Except.ok.inj matched
      exact exec_argon2 derived

end Codec
end PasswordService

/-! ## The stored hash during a login -/

/-- The row that an email finds, with its id and its stored hash. -/
def Held (emailHash : String) (id : Uuid) (storedHash : String) (w : World) : Prop :=
  ∃ v, w.users.find? (·.emailHash = emailHash) = some v ∧ v.id = id ∧ v.passwordHash = storedHash

/-- Calls that leave emails and stored hashes alone. -/
def KeepsHash : Op → Prop
  | .userCreate _ | .userDelete _ => False
  | .userUpdate _ data => data.passwordHash = none ∧ data.emailHash = none
  | _ => True

lemma ReadOnly.keepsHash {op : Op} (reads : ReadOnly op) : KeepsHash op := by
  cases op <;> trivial

section Login
variable {env : Env} {ch : Choice} {w w' : World} {emailHash storedHash password : String}
  {id : Uuid} {h : List OwnCall}

/-- An update that leaves emails alone. -/
lemma Held.applied {c : UserChanges} {id' : Uuid} {now : Nat}
    (held : Held emailHash id storedHash w) (email : c.emailHash = none)
    (rows : w'.users = w.users.map fun v => if v.id = id' then c.apply now v else v) :
    Held emailHash id (if id = id' then c.passwordHash.getD storedHash else storedHash) w' := by
  obtain ⟨v, found, rfl, rfl⟩ := held
  refine ⟨if v.id = id' then c.apply now v else v, ?_, ?_, ?_⟩
  · rw [rows, find?_updated (by simp [email]), found, Option.map_some]
  · split <;> simp
  · split <;> simp

lemma Held.exec {op : Op} {r : op.Res} (held : Held emailHash id storedHash w)
    (answered : exec env ch op w = some (r, w')) (keeps : KeepsHash op) :
    Held emailHash id storedHash w' := by
  cases exec_users answered with
  | kept rows =>
    obtain ⟨v, found, row⟩ := held
    exact ⟨v, rows ▸ found, row⟩
  | inserted d => exact keeps.elim
  | updated id c u _ _ rows => simpa [keeps.1] using held.applied keeps.2 rows
  | deleted id => exact keeps.elim

/-- A program of such calls keeps what is held. -/
lemma held_uses {α : Type} {p : Task α} (held : Held emailHash id storedHash w)
    (uses : p.Uses KeepsHash) :
    Serial env True (fun _ _ => True) (fun _ _ w' => Held emailHash id storedHash w') h w p := by
  refine (serial_invariant uses held ?_).weaken fun _ _ _ => trivial
  exact fun _ _ _ _ _ keeps answered held => held.exec answered keeps

lemma held_bind {α β : Type} {p : Task α} {f : α → Task β}
    {post : List OwnCall → Except Failure β → World → Prop} (held : Held emailHash id storedHash w)
    (uses : p.Uses KeepsHash) (fails : ∀ h e w', post h (.error e) w')
    (rest : ∀ h' a w', Held emailHash id storedHash w' →
      Serial env True (fun _ _ => True) post h' w' (f a)) :
    Serial env True (fun _ _ => True) post h w (p >>= f) := by
  refine meets_bind ((held_uses held uses).mono ?_)
  exact fun h' _ w' _ held' => ⟨fun a _ => rest h' a w' held', fun e _ => fails h' e w'⟩

lemma startSession_keepsHash (user : User) (userAgent : Option String) :
    (startSession env user userAgent).Uses KeepsHash := by
  have creates : (create env user.id userAgent).Uses KeepsHash :=
    uses_bind (perform_uses trivial) fun _ => uses_bind (perform_uses trivial) fun _ =>
      uses_bind (await_uses (perform_uses trivial)) fun _ => uses_ret _
  exact uses_bind creates fun _ => uses_bind (uses_bind (perform_uses trivial) fun _ => uses_ret _)
    fun _ => uses_bind (ofExcept_uses _) fun _ => uses_ret _

lemma clearFailures_keepsHash (user : User) : (clearFailures user).Uses KeepsHash := by
  unfold clearFailures
  split
  · exact uses_bind (await_uses (perform_uses ⟨rfl, rfl⟩)) fun _ => uses_ret _
  · exact uses_ret _

/-- A hash that needs no rehash and has verified the password. -/
def Rehashed (env : Env) (emailHash password : String) (id : Uuid) (w : World) : Prop :=
  ∃ stored, Held emailHash id stored w ∧ PasswordService.needsRehash stored = false ∧
    PasswordService.verdict env stored password = some true

lemma rehash_settles (derives : PasswordService.DerivesHash env) {user : User}
    (held : Held emailHash user.id user.passwordHash w)
    (matched : PasswordService.Matches env user.passwordHash password) :
    Serial env True (fun _ _ => True)
      (fun _ out w' => out = .ok () → Rehashed env emailHash password user.id w') h w
      (rehash user password) := by
  unfold rehash
  split
  · have keeps : (PasswordService.hash password).Uses KeepsHash :=
      (hash_derives password).mono fun _ derives => derives.readOnly.keepsHash
    refine meets_bind (((held_uses held keeps).and
      (PasswordService.hash_builds password h w)).ends.mono ?_)
    rintro h₁ out w₁ _ ⟨_, held₁, built⟩
    refine ⟨?_, fun _ failed => by simp⟩
    rintro stored rfl
    refine meets_bind (serial_await (serial_perform (I := fun _ _ => True) trivial ?_))
    intro ch r w₂ _ answered
    refine ⟨trivial, ?_, by simp, by simp⟩
    rintro v row
    obtain rfl := Except.ok.inj row
    refine ⟨?_, by simp⟩
    rintro _ ⟨⟩
    refine ⟨trivial, fun _ => ⟨stored, ?_, (built stored rfl).settled derives⟩⟩
    cases exec_userUpdate answered with
    | updated _ u _ _ rows => simpa using held₁.applied rfl rows
  · rename_i settled
    exact ⟨trivial, fun _ => ⟨_, held, by simpa using settled,
      PasswordService.verdict_true.mpr matched⟩⟩

lemma acceptLogin_settles (derives : PasswordService.DerivesHash env) {user : User}
    {userAgent : Option String} (held : Held emailHash user.id user.passwordHash w)
    (matched : PasswordService.Matches env user.passwordHash password) :
    Serial env True (fun _ _ => True)
      (fun _ out w' => ∀ r, out = .ok r → Rehashed env emailHash password user.id w') h w
      (acceptLogin env user password userAgent) := by
  refine held_bind held (clearFailures_keepsHash user) (by simp) fun h₁ _ w₁ held₁ => ?_
  refine meets_bind ((rehash_settles derives held₁ matched).mono ?_)
  intro h₂ out w₂ _ settled
  refine ⟨?_, by simp⟩
  rintro _ rfl
  obtain ⟨stored, held₂, fresh, verified⟩ := settled rfl
  refine (held_uses held₂ (startSession_keepsHash user userAgent)).mono ?_
  exact fun _ _ _ _ held₃ _ _ => ⟨stored, held₃, fresh, verified⟩

/-- A program that fails after all its calls. -/
lemma serial_refuses {α β : Type} {post : List OwnCall → Except Failure β → World → Prop}
    (p : Task α) (e : Failure) (fails : ∀ h e w', post h (.error e) w') :
    Serial env True (fun _ _ => True) post h w (p >>= fun _ => Prog.throw e) := by
  have any : Serial env True (fun _ _ => True) (fun _ _ _ => True) h w p :=
    serial_invariant (uses_true p) trivial fun _ _ _ _ _ _ _ _ => trivial
  refine meets_bind (any.mono ?_)
  exact fun h' _ w' _ _ => ⟨fun _ _ => ⟨trivial, fails h' e w'⟩, fun e' _ => fails h' e' w'⟩

/-- An accepted login leaves a hash that needs no rehash and verifies the password. -/
lemma login_settles (derives : PasswordService.DerivesHash env) (dto : LoginDto)
    (userAgent : Option String) (h : List OwnCall) (w : World) :
    Serial env True (fun _ _ => True)
      (fun _ out w' => ∀ r, out = .ok r → ∃ u,
        w.users.find? (·.emailHash = UsersService.emailHash env dto.email) = some u ∧
          Rehashed env (UsersService.emailHash env dto.email) dto.password u.id w') h w
      (login env dto userAgent) := by
  refine meets_bind (serial_await (serial_perform (I := fun _ _ => True) trivial ?_))
  intro ch r w₁ _ answered
  have read := exec_userFindByEmailHash answered
  refine ⟨trivial, fun found isFound => ⟨?_, by simp⟩, by simp, by simp⟩
  rintro _ ⟨⟩
  obtain ⟨users, ⟨_, rfl⟩ | rfl⟩ := read
  · cases isFound
  obtain rfl := Except.ok.inj (Except.ok.inj isFound)
  cases stored : w.users.find? (·.emailHash = UsersService.emailHash env dto.email) with
  | none => exact serial_refuses _ _ (by simp)
  | some user =>
    have held : Held (UsersService.emailHash env dto.email) user.id user.passwordHash w₁ :=
      ⟨user, users ▸ stored, rfl, rfl⟩
    refine held_bind held ((isLocked_uses user).mono fun _ => ReadOnly.keepsHash) (by simp)
      fun h₂ locked w₂ held₂ => ?_
    cases locked with
    | true => exact serial_refuses _ _ (by simp)
    | false =>
      have keeps : (PasswordService.verify user.passwordHash dto.password).Uses KeepsHash :=
        (verify_derives _ _).mono fun _ derives => derives.readOnly.keepsHash
      refine meets_bind (((held_uses held₂ keeps).and
        (PasswordService.verify_matches user.passwordHash dto.password h₂ w₂)).ends.mono ?_)
      rintro h₃ out w₃ _ ⟨_, held₃, matched⟩
      refine ⟨?_, by simp⟩
      rintro verified rfl
      cases verified with
      | true =>
        refine (acceptLogin_settles derives held₃ (matched rfl)).mono ?_
        exact fun _ _ _ _ settled r done => ⟨user, rfl, settled r done⟩
      | false => exact serial_refuses _ _ (by simp)

end Login

end BajaValle

namespace BajaValle

open CallPrograms Prog AuthService

/-- The codec of stored hashes round-trips, so a hash verifies the passwords that
derive the same bytes and needs no rehash; and whatever string was stored, after an
accepted login the stored one needs no rehash and verifies the password. -/
theorem hash_roundTrips_and_rehash_converges {env : Env}
    (derives : PasswordService.DerivesHash env) :
    (∀ bytes, Base64.decode base64 (PasswordService.toPhcBase64 bytes) = bytes) ∧
    (∀ password salt, salt.length = PasswordService.SALT_BYTES →
      ∃ bytes, env.argon2id password salt PasswordService.PARAMS = some bytes ∧
        PasswordService.parse (PasswordService.phc PasswordService.PARAMS salt bytes) =
          some ⟨PasswordService.PARAMS, salt, bytes⟩ ∧
        PasswordService.needsRehash (PasswordService.phc PasswordService.PARAMS salt bytes) =
          false ∧
        ∀ password' w h out w', Alone env (PasswordService.verify
            (PasswordService.phc PasswordService.PARAMS salt bytes) password') w h out w' →
          out = .ok (decide
            (env.argon2id password' salt PasswordService.PARAMS = some bytes))) ∧
    (∀ password w h out w', Alone env (PasswordService.hash password) w h out w' →
      ∃ salt bytes, salt.length = PasswordService.SALT_BYTES ∧
        env.argon2id password salt PasswordService.PARAMS = some bytes ∧
        out = .ok (PasswordService.phc PasswordService.PARAMS salt bytes)) ∧
    ∀ dto userAgent w h r w', Finishes (exec env) (Healthy True) (login env dto userAgent) w h
        (.ok r) w' →
      ∃ u v, w.users.find? (·.emailHash = UsersService.emailHash env dto.email) = some u ∧
        w'.users.find? (·.emailHash = UsersService.emailHash env dto.email) = some v ∧
        v.id = u.id ∧ PasswordService.needsRehash v.passwordHash = false ∧
        ∀ w₁ h₁ out w₂, Alone env (PasswordService.verify v.passwordHash dto.password) w₁ h₁ out
          w₂ → out = .ok true := by
  refine ⟨?_, ?_, ?_, ?_⟩
  · intro bytes
    rw [PasswordService.toPhcBase64_eq, Base64.decode_encode]
  · intro password salt saltLength
    obtain ⟨bytes, derived, hashLength⟩ := derives password salt saltLength
    refine ⟨bytes, derived, PasswordService.parse_built saltLength hashLength,
      PasswordService.needsRehash_built saltLength hashLength, ?_⟩
    intro password' w h out w' ran
    rw [PasswordService.verify_outcome ran,
      PasswordService.verdict_built derives saltLength hashLength]
    rfl
  · intro password w h out w' ran
    have works : Argon2Works env := by
      intro message nonce length none
      obtain ⟨bytes, derived, _⟩ := derives message nonce length
      rw [none] at derived
      cases derived
    obtain ⟨_, stored, rfl⟩ := ((hash_alone works).finishes ran).2
    obtain ⟨salt, bytes, saltLength, derived, rfl⟩ :=
      ((PasswordService.hash_builds password [] w).finishes ran).2 stored rfl
    exact ⟨salt, bytes, saltLength, derived, rfl⟩
  · intro dto userAgent w h r w' ran
    obtain ⟨u, stored, _, ⟨v, found, id, rfl⟩, settled, verified⟩ :=
      ((login_settles derives dto userAgent [] w).finishes ran).2 r rfl
    refine ⟨u, v, stored, found, id, settled, ?_⟩
    intro w₁ h₁ out w₂ ran₁
    rw [PasswordService.verify_outcome ran₁, verified]
    rfl

namespace Plain

/-- The first bytes of the password. -/
def shortDigest (password : String) : Bytes :=
  (utf8 password ++ List.replicate PasswordService.HASH_BYTES 0).take PasswordService.HASH_BYTES

def digestEnv : Env := { env with argon2id := fun message _ _ => some (shortDigest message) }

lemma derivesHash : PasswordService.DerivesHash digestEnv := by
  intro password salt _
  refine ⟨shortDigest password, rfl, ?_⟩
  simp [shortDigest, PasswordService.HASH_BYTES]

/-- A hash with weaker parameters than those of the service. -/
def outdatedHash : String :=
  PasswordService.phc ⟨.finite 4096, .finite 1, .finite 1⟩ [1, 2, 3, 4, 5, 6, 7, 8]
    (shortDigest "secret")

def outdatedWorld : World := { world with users := [{ user with passwordHash := outdatedHash }] }

def rehashingLogin : List Choice :=
  [{ now := 1 }, { now := 2 }, { now := 3, bytes := List.replicate 16 7 }, { now := 4 },
    { now := 5 }, { now := 6, uuid := 5 }, { now := 7, bytes := bytes 1 }, { now := 8, uuid := 6 },
    { now := 9 }]

end Plain

theorem hash_roundTrips_and_rehash_converges_weak :
    PasswordService.needsRehash Plain.outdatedHash = true ∧
    ∃ h r w v, Finishes (exec Plain.digestEnv) (Healthy True)
        (login Plain.digestEnv ⟨"ana@valle.mx", "secret"⟩ none) Plain.outdatedWorld h (.ok r) w ∧
      w.users.find? (·.emailHash = Plain.user.emailHash) = some v ∧
      PasswordService.needsRehash v.passwordHash = false := by
  refine ⟨by decide +kernel, ?_⟩
  have shown : ∃ h out w, Finishes (exec Plain.digestEnv) (Healthy True)
      (login Plain.digestEnv ⟨"ana@valle.mx", "secret"⟩ none) Plain.outdatedWorld h out w ∧
        decide (out.toBool = true) = true :=
    finishes_of_feed Plain.rehashingLogin (fun _ _ _ => trivial) (by decide +kernel)
  obtain ⟨h, out, w, ran, accepted⟩ := shown
  cases out with
  | error e => cases accepted
  | ok r =>
    obtain ⟨_, v, _, found, _, settled, _⟩ :=
      (hash_roundTrips_and_rehash_converges Plain.derivesHash).2.2.2 _ _ _ _ _ _ ran
    exact ⟨h, r, w, v, ran, found, settled⟩

end BajaValle
