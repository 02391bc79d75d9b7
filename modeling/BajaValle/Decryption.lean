import BajaValle.Decimals
import BajaValle.Encryption

/-!
# Decryption is the inverse of encryption

With safe versions a payload decrypts exactly when it has the form that an
encryption writes and its parts open under a key of the map, and it fails in one
way. What opens was sealed for the same context, if the cipher is ideal.
-/

namespace BajaValle.EncryptionService

/-- The payload has four parts: the version of a key in decimal, an iv and a tag of
their lengths, and a ciphertext, which open under that key and context to the text. -/
def Opens (env : Env) (payload context plaintext : String) : Prop :=
  ∃ n key iv tag ciphertext bytes,
    split '.' payload = ["v" ++ toString n, iv, tag, ciphertext] ∧ 0 < n ∧
      env.ENCRYPTION_KEYS.lookup (.finite n) = some key ∧
      (Base64.decode base64url iv).length = IV_BYTES ∧
      (Base64.decode base64url tag).length = TAG_BYTES ∧
      env.gcm.decipher key (Base64.decode base64url iv) (utf8 context)
        (Base64.decode base64url ciphertext, Base64.decode base64url tag) = some bytes ∧
      decodeUtf8 bytes = plaintext

/-- One use of the cipher by an encryption. -/
structure Sealing where
  version : JsNumber
  key : Bytes
  iv : Bytes
  context : String
  plaintext : String

def Sealing.sealed (gcm : Gcm) (m : Sealing) : Bytes × Bytes :=
  gcm.cipher m.key m.iv (utf8 m.context) (utf8 m.plaintext)

def Sealing.payload (gcm : Gcm) (m : Sealing) : String :=
  EncryptionService.payload gcm m.version m.key m.iv m.plaintext m.context

/-- Ideal authenticated encryption: of what has been sealed, opening succeeds only on
what sealing with the same key, iv and context produced. -/
def Ideal (gcm : Gcm) (made : Sealing → Prop) : Prop :=
  ∀ m, made m → ∀ key context bytes,
    gcm.decipher key m.iv (utf8 context) (m.sealed gcm) = some bytes →
      ∃ m', made m' ∧ m'.key = key ∧ m'.iv = m.iv ∧ m'.context = context ∧
        m'.sealed gcm = m.sealed gcm

section Versions
variable {keys : List (JsNumber × Bytes)} {version : JsNumber} {key : Bytes} {part : String}

lemma mem_of_lookup (held : keys.lookup version = some key) : (version, key) ∈ keys := by
  induction keys with
  | nil => cases held
  | cons e keys ih =>
    obtain ⟨v, key'⟩ := e
    by_cases same : version = v
    · subst same
      simp only [List.lookup_cons, beq_self_eq_true, Option.some.injEq] at held
      rw [held]
      exact List.mem_cons_self
    · have other : (version == v) = false := by simpa using same
      rw [List.lookup_cons, other] at held
      exact List.mem_cons_of_mem _ (ih held)

/-- A version part of a safe key is the decimal of a positive number. -/
lemma parseVersion_safe (safe : SafeVersion version) (h : parseVersion part = some version) :
    ∃ n, version = .finite n ∧ 0 < n ∧ part = "v" ++ toString n := by
  obtain ⟨n, rfl, pos, small⟩ := safe
  unfold parseVersion at h
  split at h
  · rename_i digits chars
    split_ifs at h with decimal
    have text := JsNumber.ofDigits_safe decimal (Option.some.inj h) small
    refine ⟨n, rfl, pos, String.toList_inj.mp ?_⟩
    rw [chars, text, String.toList_append, Nat.toString_eq_repr, Nat.toList_repr]
    rfl
  · cases h

lemma parseVersion_toString {n : Nat} (safe : SafeVersion (.finite n)) :
    parseVersion ("v" ++ toString n) = some (.finite n) := by
  obtain ⟨m, same, _, small⟩ := safe
  cases same
  rw [← JsNumber.toText_safe small]
  exact SafeVersion.readsBack ⟨n, rfl, ‹_›, small⟩

end Versions

section Opening
variable {env : Env} {payload context plaintext : String}

/-- What the parser accepts, and what it reads. -/
lemma parse_eq_some {version : JsNumber} {iv tag ciphertext : Bytes} :
    parse payload = some (version, iv, tag, ciphertext) ↔
      ∃ v ivPart tagPart ciphertextPart, split '.' payload = [v, ivPart, tagPart, ciphertextPart] ∧
        parseVersion v = some version ∧ Base64.decode base64url ivPart = iv ∧
        Base64.decode base64url tagPart = tag ∧ iv.length = IV_BYTES ∧ tag.length = TAG_BYTES ∧
        Base64.decode base64url ciphertextPart = ciphertext := by
  constructor
  · intro parsed
    unfold parse at parsed
    split at parsed
    · rename_i v ivPart tagPart ciphertextPart parts
      split at parsed
      · cases parsed
      rename_i version' isVersion
      dsimp only at parsed
      split at parsed
      · cases parsed
      rename_i lengths
      simp only [not_or, ne_eq, not_not] at lengths
      cases parsed
      exact ⟨v, ivPart, tagPart, ciphertextPart, parts, isVersion, rfl, rfl, lengths.1, lengths.2,
        rfl⟩
    · cases parsed
  · rintro ⟨v, ivPart, tagPart, ciphertextPart, parts, isVersion, rfl, rfl, ivLength, tagLength,
      rfl⟩
    simp [parse, parts, isVersion, ivLength, tagLength]

theorem decrypt_ok_iff (safe : SafeKeys env) :
    decrypt env payload context = .ok plaintext ↔ Opens env payload context plaintext := by
  constructor
  · intro opened
    unfold decrypt at opened
    split at opened
    · cases opened
    rename_i version iv tag ciphertext parsed
    split at opened
    · cases opened
    rename_i key held
    split at opened
    · cases opened
    rename_i bytes deciphered
    obtain ⟨v, ivPart, tagPart, ciphertextPart, parts, isVersion, rfl, rfl, ivLength, tagLength,
      rfl⟩ := parse_eq_some.mp parsed
    obtain ⟨n, rfl, pos, rfl⟩ := parseVersion_safe (safe _ (mem_of_lookup held)) isVersion
    exact ⟨n, key, ivPart, tagPart, ciphertextPart, bytes, parts, pos, held, ivLength, tagLength,
      deciphered, Except.ok.inj opened⟩
  · rintro ⟨n, key, iv, tag, ciphertext, bytes, parts, pos, held, ivLength, tagLength, deciphered,
      rfl⟩
    have version := parseVersion_toString (safe _ (mem_of_lookup held))
    have parsed := parse_eq_some.mpr
      ⟨_, iv, tag, ciphertext, parts, version, rfl, rfl, ivLength, tagLength, rfl⟩
    simp only [decrypt, parsed, held, deciphered]

/-- What an encryption wrote decrypts wherever the key of its version is kept. -/
lemma decrypt_encrypt (safe : SafeKeys env) {iv : Bytes} (hiv : iv.length = IV_BYTES)
    (written : encrypt env iv plaintext context = .ok payload) {keys : List (JsNumber × Bytes)}
    (kept : ∀ version, currentVersion env = some version →
      keys.lookup version = env.ENCRYPTION_KEYS.lookup version) :
    decrypt { env with ENCRYPTION_KEYS := keys } payload context = .ok plaintext := by
  unfold encrypt at written
  split at written
  · cases written
  rename_i version current
  split at written
  · cases written
  rename_i key held
  obtain rfl := Except.ok.inj written
  have writable := safe _ (mem_of_lookup held)
  exact decrypt_payload writable hiv
    ((kept version current).trans held)

lemma encrypt_succeeds (nonempty : env.ENCRYPTION_KEYS ≠ []) (iv : Bytes) :
    ∃ payload, encrypt env iv plaintext context = .ok payload := by
  unfold encrypt
  split
  · rename_i none
    unfold currentVersion at none
    split at none
    · exact absurd ‹_› nonempty
    · cases none
  · rename_i version current
    obtain ⟨e, he, rfl⟩ := currentVersion_mem current
    obtain ⟨key, held⟩ := lookup_of_mem he
    rw [held]
    exact ⟨_, rfl⟩

/-- A payload that opens under a context was sealed for that context. -/
lemma Ideal.sealed_for {made : Sealing → Prop} (ideal : Ideal env.gcm made) {m : Sealing}
    (isMade : made m) (reads : ReadsBack m.version) (hiv : m.iv.length = IV_BYTES)
    (opened : decrypt env (m.payload env.gcm) context = .ok plaintext) :
    ∃ m', made m' ∧ m'.iv = m.iv ∧ m'.context = context ∧ m'.sealed env.gcm = m.sealed env.gcm := by
  unfold decrypt Sealing.payload at opened
  rw [parse_payload env.gcm reads hiv] at opened
  dsimp only at opened
  split at opened
  · cases opened
  rename_i key held
  split at opened
  · cases opened
  rename_i bytes deciphered
  obtain ⟨m', isMade', _, sameIv, sameContext, same⟩ := ideal m isMade key context bytes deciphered
  exact ⟨m', isMade', sameIv, sameContext, same⟩

end Opening

/-- With safe versions, decryption inverts encryption under every key map that keeps
the version used; it returns a text exactly when the payload opens to it, and ends in
every other case with the one failure. If the cipher is ideal, a payload that was not
sealed for a context, or whose iv was used once and for another one, does not decrypt
under it. -/
theorem decrypt_is_inverse {env : Env} (safe : SafeKeys env) :
    (∀ iv plaintext context, env.ENCRYPTION_KEYS ≠ [] → iv.length = IV_BYTES →
      ∃ payload, encrypt env iv plaintext context = .ok payload ∧
        ∀ keys, (∀ version, currentVersion env = some version →
          keys.lookup version = env.ENCRYPTION_KEYS.lookup version) →
            decrypt { env with ENCRYPTION_KEYS := keys } payload context = .ok plaintext) ∧
    (∀ payload context plaintext, decrypt env payload context = .ok plaintext ↔
      Opens env payload context plaintext) ∧
    (∀ payload context, (¬ ∃ plaintext, Opens env payload context plaintext) →
      decrypt env payload context = .error .decryptionError) ∧
    ∀ made, Ideal env.gcm made → ∀ m, made m → SafeVersion m.version → m.iv.length = IV_BYTES →
      ∀ context, ((∀ m', made m' → m'.iv = m.iv → m'.context = context →
          m'.sealed env.gcm ≠ m.sealed env.gcm) ∨
        ((∀ m', made m' → m'.iv = m.iv → m' = m) ∧ context ≠ m.context)) →
          decrypt env (m.payload env.gcm) context = .error .decryptionError := by
  have fails : ∀ payload context, (∀ plaintext, decrypt env payload context ≠ .ok plaintext) →
      decrypt env payload context = .error .decryptionError := by
    intro payload context never
    cases ended : decrypt env payload context with
    | ok plaintext => exact absurd ended (never plaintext)
    | error e => rw [decrypt_error ended]
  refine ⟨?_, fun _ _ _ => decrypt_ok_iff safe, ?_, ?_⟩
  · intro iv plaintext context nonempty hiv
    obtain ⟨payload, written⟩ := encrypt_succeeds nonempty iv
    exact ⟨payload, written, fun keys kept => decrypt_encrypt safe hiv written kept⟩
  · intro payload context closed
    exact fails payload context fun plaintext opened =>
      closed ⟨plaintext, (decrypt_ok_iff safe).mp opened⟩
  · intro made ideal m isMade version hiv context foreign
    refine fails _ context fun plaintext opened => ?_
    obtain ⟨m', isMade', sameIv, forContext, same⟩ :=
      ideal.sealed_for isMade version.readsBack hiv opened
    rcases foreign with notMade | ⟨once, other⟩
    · exact notMade m' isMade' sameIv forContext same
    · rw [once m' isMade' sameIv] at forContext
      exact other forContext.symm

end BajaValle.EncryptionService

/-! A cipher that is ideal because a sealed text names its key, iv and context. -/

namespace BajaValle.Plain

open EncryptionService

/-- The bytes after their length in unary. -/
def frame (bs : Bytes) : Bytes := List.replicate bs.length 1 ++ 0 :: bs

lemma frame_inj {a b x y : Bytes} (same : frame a ++ x = frame b ++ y) : a = b ∧ x = y := by
  have ones : ∀ (n : Nat) (rest : Bytes),
      (List.replicate n (1 : UInt8) ++ 0 :: rest).takeWhile (· = 1) = List.replicate n 1 := by
    intro n rest
    rw [List.takeWhile_append_of_pos (by simp)]
    simp
  simp only [frame, List.append_assoc, List.cons_append] at same
  have lengths := congrArg (List.takeWhile (· = 1)) same
  rw [ones, ones] at lengths
  have length : a.length = b.length := by simpa using congrArg List.length lengths
  rw [length, List.append_cancel_left_eq, List.cons.injEq] at same
  exact List.append_inj same.2 length

def header (key iv aad : Bytes) : Bytes := frame key ++ (frame iv ++ frame aad)

def openGcm : Gcm where
  cipher key iv aad plaintext := (header key iv aad ++ plaintext, tag)
  decipher key iv aad sealed :=
    if header key iv aad <+: sealed.1 then some (sealed.1.drop (header key iv aad).length) else none
  decipher_cipher key iv aad plaintext := by simp
  tag_length _ _ _ _ := rfl

lemma openGcm_ideal (m : Sealing) : Ideal openGcm (· = m) := by
  rintro m' rfl key context bytes deciphered
  simp only [openGcm, Sealing.sealed, Option.ite_none_right_eq_some] at deciphered
  obtain ⟨⟨rest, same⟩, _⟩ := deciphered
  simp only [header, List.append_assoc] at same
  have keys := frame_inj same
  have ivs := frame_inj keys.2
  have contexts := frame_inj ivs.2
  exact ⟨m', rfl, keys.1.symm, rfl, (utf8_injective contexts.1).symm, rfl⟩

/-- An email sealed under the first key. -/
def sealedEmail : Sealing where
  version := .finite 1
  key := [1]
  iv := List.replicate 12 0
  context := "users.email"
  plaintext := "ana@valle.mx"

end BajaValle.Plain

namespace BajaValle.EncryptionService

theorem decrypt_is_inverse_other_field :
    decrypt { Plain.env with gcm := Plain.openGcm } (Plain.sealedEmail.payload Plain.openGcm)
      "users.firstName" = .error .decryptionError := by
  have safe : SafeKeys { Plain.env with gcm := Plain.openGcm } := by
    intro e he
    obtain rfl := List.mem_singleton.mp he
    exact ⟨1, rfl, by decide, by decide⟩
  exact (decrypt_is_inverse safe).2.2.2 (· = Plain.sealedEmail) (Plain.openGcm_ideal _) _ rfl
    ⟨1, rfl, by decide, by decide⟩ rfl _ (.inr ⟨fun _ made _ => made, by decide⟩)

end BajaValle.EncryptionService
