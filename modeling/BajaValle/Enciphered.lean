import BajaValle.Users

/-!
# Enciphered rows

What the encrypted columns of a row stand for. A column is sealed when it is an
encryption of a text under a key of the key map; the text is then what
decryption returns, under every key map that still holds that key.
-/

namespace BajaValle

open EncryptionService

/-- The same service with another key map. -/
@[simps] def Env.withKeys (env : Env) (keys : List (JsNumber × Bytes)) : Env :=
  { env with ENCRYPTION_KEYS := keys }

/-- The key map stripped of all versions but one. -/
def Env.only (env : Env) (version : JsNumber) : Env :=
  env.withKeys (env.ENCRYPTION_KEYS.filter (·.1 = version))

/-- Whatever one key map decrypts, the other does. -/
def Env.KeepsKeys (env env' : Env) : Prop :=
  ∃ keys, env' = env.withKeys keys ∧
    ∀ version key, env.ENCRYPTION_KEYS.lookup version = some key →
      keys.lookup version = some key

/-- A value that encrypts a text under the key of a version. -/
def Sealed (env : Env) (version : JsNumber) (context text value : String) : Prop :=
  ∃ key iv, SafeVersion version ∧ env.ENCRYPTION_KEYS.lookup version = some key ∧
    iv.length = IV_BYTES ∧ value = payload env.gcm version key iv text context

/-- The personal data that a row stands for. -/
structure Person where
  email : String
  firstName : String
  lastName : String
  deriving DecidableEq

structure Enciphered (env : Env) (u : User) (p : Person) : Prop where
  email : ∃ version, Sealed env version UsersService.FIELD.email p.email u.emailEnc
  firstName : ∃ version, Sealed env version UsersService.FIELD.firstName p.firstName u.firstNameEnc
  lastName : ∃ version, Sealed env version UsersService.FIELD.lastName p.lastName u.lastNameEnc

/-- The version that a stored value names. -/
def versionOf (value : String) : Option JsNumber := (parse value).map (·.1)

def User.encrypted (u : User) : List String := [u.emailEnc, u.firstNameEnc, u.lastNameEnc]

/-- A field of the row is not of the current version. -/
def HasOlderField (env : Env) (u : User) : Prop :=
  ∃ value ∈ u.encrypted, versionOf value ≠ currentVersion env

instance (env : Env) : DecidablePred (HasOlderField env) := fun u =>
  inferInstanceAs (Decidable (∃ value ∈ u.encrypted, versionOf value ≠ currentVersion env))

lemma lookup_filter_self (keys : List (JsNumber × Bytes)) (version : JsNumber) :
    (keys.filter (·.1 = version)).lookup version = keys.lookup version := by
  induction keys with
  | nil => rfl
  | cons e keys ih =>
    obtain ⟨v, key⟩ := e
    by_cases same : v = version
    · simp [same]
    · have other : (version == v) = false := by simpa using Ne.symm same
      simp [same, List.lookup_cons, other, ih]

lemma lookup_filter_other {keys : List (JsNumber × Bytes)} {version v : JsNumber}
    (other : v ≠ version) : (keys.filter (·.1 = version)).lookup v = none := by
  induction keys with
  | nil => rfl
  | cons e keys ih =>
    obtain ⟨v', key⟩ := e
    by_cases same : v' = version
    · have ne : (v == version) = false := by simpa using other
      simpa [same, List.lookup_cons, ne] using ih
    · simpa [same] using ih

section Sealed
variable {env env' : Env} {version : JsNumber} {context text text' value : String}

lemma Sealed.decrypt (h : Sealed env version context text value) :
    decrypt env value context = .ok text := by
  obtain ⟨key, iv, safe, held, hiv, rfl⟩ := h
  exact decrypt_payload safe hiv held

lemma Sealed.needsReencryption (h : Sealed env version context text value) :
    needsReencryption env value = .ok (decide (some version ≠ currentVersion env)) := by
  obtain ⟨key, iv, safe, held, hiv, rfl⟩ := h
  exact needsReencryption_payload env.gcm safe hiv

lemma Sealed.names (h : Sealed env version context text value) :
    versionOf value = some version := by
  obtain ⟨key, iv, safe, held, hiv, rfl⟩ := h
  simp [versionOf, parse_payload env.gcm safe.readsBack hiv]

/-- A value stands for one text. -/
lemma Sealed.unique {version' : JsNumber} (h : Sealed env version context text value)
    (h' : Sealed env version' context text' value) : text = text' :=
  Except.ok.inj (h.decrypt.symm.trans h'.decrypt)

lemma Sealed.keeps (h : Sealed env version context text value) (keeps : env.KeepsKeys env') :
    Sealed env' version context text value := by
  obtain ⟨key, iv, safe, held, hiv, rfl⟩ := h
  obtain ⟨keys, rfl, kept⟩ := keeps
  exact ⟨key, iv, safe, kept version key held, hiv, rfl⟩

lemma Sealed.only (h : Sealed env version context text value) :
    Sealed (env.only version) version context text value := by
  obtain ⟨key, iv, safe, held, hiv, rfl⟩ := h
  exact ⟨key, iv, safe, (lookup_filter_self _ version).trans held, hiv, rfl⟩

lemma Sealed.of_only {v : JsNumber} (h : Sealed (env.only version) v context text value) :
    v = version := by
  obtain ⟨key, iv, safe, held, hiv, rfl⟩ := h
  by_contra other
  rw [Env.only, Env.withKeys_ENCRYPTION_KEYS, lookup_filter_other other] at held
  cases held

/-- Encryption seals under the current version. -/
lemma sealed_encrypt {iv : Bytes} (safe : SafeKeys env) (hiv : iv.length = IV_BYTES)
    (encrypted : encrypt env iv text context = .ok value) :
    ∃ version, currentVersion env = some version ∧ Sealed env version context text value := by
  unfold encrypt at encrypted
  split at encrypted
  · cases encrypted
  · rename_i version current
    split at encrypted
    · cases encrypted
    · rename_i key held
      obtain ⟨e, he, rfl⟩ := currentVersion_mem current
      exact ⟨e.1, current, key, iv, safe e he, held, hiv, (Except.ok.inj encrypted).symm⟩

/-- Encryption names the current version. -/
lemma versionOf_encrypt {iv : Bytes}
    (reads : ∀ version, currentVersion env = some version → ReadsBack version)
    (hiv : iv.length = IV_BYTES) (encrypted : encrypt env iv text context = .ok value) :
    versionOf value = currentVersion env := by
  unfold encrypt at encrypted
  split at encrypted
  · cases encrypted
  · rename_i version current
    split at encrypted
    · cases encrypted
    · rw [← Except.ok.inj encrypted, versionOf, parse_payload env.gcm (reads version current) hiv,
        current]
      rfl

end Sealed

section Enciphered
variable {env env' : Env} {u u' : User} {p p' : Person}

lemma Enciphered.toProfile (h : Enciphered env u p) :
    UsersService.toProfile env u =
      .ok { id := u.id, email := p.email, firstName := p.firstName, lastName := p.lastName,
            role := u.role, createdAt := u.createdAt } := by
  obtain ⟨⟨_, email⟩, ⟨_, firstName⟩, _, lastName⟩ := h
  simp only [UsersService.toProfile, email.decrypt, firstName.decrypt, lastName.decrypt]
  rfl

lemma Enciphered.unique (h : Enciphered env u p) (h' : Enciphered env u p') : p = p' := by
  obtain ⟨⟨_, email⟩, ⟨_, firstName⟩, _, lastName⟩ := h
  obtain ⟨⟨_, email'⟩, ⟨_, firstName'⟩, _, lastName'⟩ := h'
  obtain ⟨_, _, _⟩ := p
  simp only at email firstName lastName
  rw [email.unique email', firstName.unique firstName', lastName.unique lastName']

lemma Enciphered.keeps (h : Enciphered env u p) (keeps : env.KeepsKeys env') :
    Enciphered env' u p := by
  obtain ⟨⟨v₁, email⟩, ⟨v₂, firstName⟩, v₃, lastName⟩ := h
  exact ⟨⟨v₁, email.keeps keeps⟩, ⟨v₂, firstName.keeps keeps⟩, v₃, lastName.keeps keeps⟩

/-- Under a single version every field carries that version. -/
lemma Enciphered.versions {version : JsNumber} (h : Enciphered (env.only version) u p) :
    ∀ value ∈ u.encrypted, versionOf value = some version := by
  obtain ⟨⟨v₁, email⟩, ⟨v₂, firstName⟩, v₃, lastName⟩ := h
  obtain rfl := email.of_only
  obtain rfl := firstName.of_only
  obtain rfl := lastName.of_only
  intro value hv
  simp only [User.encrypted, List.mem_cons, List.not_mem_nil, or_false] at hv
  rcases hv with rfl | rfl | rfl
  · exact email.names
  · exact firstName.names
  · exact lastName.names

end Enciphered

end BajaValle
