import BajaValle.Platform

/-!
# EncryptionService

A stored value reads `v<version>.<iv>.<tag>.<ciphertext>`, base64url after the
version. The iv an encryption draws is an argument here. `payload` is the text
of one encryption under one key, and decryption inverts it wherever the key map
still holds the version.
-/

namespace BajaValle.EncryptionService

def IV_BYTES : Nat := 12
def TAG_BYTES : Nat := 16

def currentVersion (env : Env) : Option JsNumber :=
  match env.ENCRYPTION_KEYS with
  | [] => none
  | (version, _) :: rest => some (rest.foldl (fun m e => m.max e.1) version)

def payload (gcm : Gcm) (version : JsNumber) (key iv : Bytes) (plaintext context : String) :
    String :=
  let sealed := gcm.cipher key iv (utf8 context) (utf8 plaintext)
  join '.' ["v" ++ version.toText, Base64.encode base64url iv,
    Base64.encode base64url sealed.2, Base64.encode base64url sealed.1]

/-- Without any key the cipher cannot be created. -/
def encrypt (env : Env) (iv : Bytes) (plaintext context : String) : Except Failure String :=
  match currentVersion env with
  | none => .error .typeError
  | some version =>
    match env.ENCRYPTION_KEYS.lookup version with
    | none => .error .typeError
    | some key => .ok (payload env.gcm version key iv plaintext context)

def parseVersion (part : String) : Option JsNumber :=
  match part.toList with
  | 'v' :: digits => if isPositiveDecimal digits then some (.ofDigits digits) else none
  | _ => none

def parse (payload : String) : Option (JsNumber × Bytes × Bytes × Bytes) :=
  match split '.' payload with
  | [v, iv, tag, ciphertext] =>
    match parseVersion v with
    | none => none
    | some version =>
      let iv := Base64.decode base64url iv
      let tag := Base64.decode base64url tag
      if iv.length ≠ IV_BYTES ∨ tag.length ≠ TAG_BYTES then none
      else some (version, iv, tag, Base64.decode base64url ciphertext)
  | _ => none

def decrypt (env : Env) (payload context : String) : Except Failure String :=
  match parse payload with
  | none => .error .decryptionError
  | some (version, iv, tag, ciphertext) =>
    match env.ENCRYPTION_KEYS.lookup version with
    | none => .error .decryptionError
    | some key =>
      match env.gcm.decipher key iv (utf8 context) (ciphertext, tag) with
      | none => .error .decryptionError
      | some plaintext => .ok (decodeUtf8 plaintext)

/-- Decryption fails in one way. -/
theorem decrypt_error {env : Env} {payload context : String} {e : Failure}
    (failed : decrypt env payload context = .error e) : e = .decryptionError := by
  unfold decrypt at failed
  split at failed
  · exact (Except.error.inj failed).symm
  · split at failed
    · exact (Except.error.inj failed).symm
    · split at failed
      · exact (Except.error.inj failed).symm
      · cases failed

def needsReencryption (env : Env) (payload : String) : Except Failure Bool :=
  match parse payload with
  | none => .error .decryptionError
  | some (version, _) => .ok (some version ≠ currentVersion env)

def blindIndex (env : Env) (value context : String) : String :=
  Base64.encode base64url (env.hmacSha256 env.BLIND_INDEX_KEY (utf8 context ++ [0] ++ utf8 value))

/-- A version the code can write and read back: a safe positive integer. -/
def SafeVersion (version : JsNumber) : Prop :=
  ∃ n, version = .finite n ∧ 0 < n ∧ n ≤ JsNumber.MAX_SAFE_INTEGER

/-- Every version of the key map can be written and read back. The configuration
also accepts maps of which this is false. -/
def SafeKeys (env : Env) : Prop := ∀ e ∈ env.ENCRYPTION_KEYS, SafeVersion e.1

/-- The code reads the version back from its own text. -/
def ReadsBack (version : JsNumber) : Prop :=
  parseVersion ("v" ++ version.toText) = some version

lemma ReadsBack.dot_notMem {version : JsNumber} (reads : ReadsBack version) :
    '.' ∉ version.toText.toList := by
  have whole : ("v" ++ version.toText).toList = 'v' :: version.toText.toList := by
    rw [String.toList_append]
    rfl
  simp only [ReadsBack, parseVersion, whole, Option.ite_none_right_eq_some] at reads
  intro dot
  obtain ⟨decimal, _⟩ := reads
  cases digits : version.toText.toList with
  | nil => simp [digits] at dot
  | cons c rest =>
    simp only [digits, isPositiveDecimal, Bool.and_eq_true, List.all_eq_true] at decimal dot
    rcases List.mem_cons.mp dot with rfl | dot
    · exact absurd decimal.1.2 (by decide)
    · exact absurd (decimal.2 _ dot) (by decide)

lemma SafeVersion.readsBack {version : JsNumber} (safe : SafeVersion version) :
    ReadsBack version := by
  obtain ⟨n, rfl, pos, hn⟩ := safe
  have digits : isPositiveDecimal (JsNumber.toText (.finite n)).toList = true := by
    rw [JsNumber.toText_safe hn, Nat.toString_eq_repr, Nat.toList_repr]
    exact isPositiveDecimal_toDigits pos
  have whole : ("v" ++ JsNumber.toText (.finite n)).toList =
      'v' :: (JsNumber.toText (.finite n)).toList := by
    rw [String.toList_append]
    rfl
  simp only [ReadsBack, parseVersion, whole, digits, if_true, JsNumber.ofDigits_toText hn]

lemma foldl_max_mem (keys : List (JsNumber × Bytes)) (version : JsNumber) :
    keys.foldl (fun m e => m.max e.1) version = version ∨
      ∃ e ∈ keys, e.1 = keys.foldl (fun m e => m.max e.1) version := by
  induction keys generalizing version with
  | nil => exact .inl rfl
  | cons e keys ih =>
    rcases ih (version.max e.1) with same | ⟨e', he', heq⟩
    · rcases JsNumber.max_eq version e.1 with first | second
      · exact .inl (same.trans first)
      · exact .inr ⟨e, List.mem_cons_self, (same.trans second).symm⟩
    · exact .inr ⟨e', List.mem_cons_of_mem _ he', heq⟩

lemma lookup_of_mem {keys : List (JsNumber × Bytes)} {e : JsNumber × Bytes} (he : e ∈ keys) :
    ∃ key, keys.lookup e.1 = some key := by
  induction keys with
  | nil => cases he
  | cons f keys ih =>
    obtain ⟨v, key⟩ := f
    by_cases same : e.1 = v
    · exact ⟨key, by simp [same]⟩
    · obtain ⟨key', held⟩ := ih ((List.mem_cons.mp he).resolve_left fun h => same (h ▸ rfl))
      have other : (e.1 == v) = false := by simpa using same
      exact ⟨key', by simp [List.lookup_cons, other, held]⟩

/-- The current version has a key. -/
lemma currentVersion_mem {env : Env} {version : JsNumber}
    (current : currentVersion env = some version) :
    ∃ e ∈ env.ENCRYPTION_KEYS, e.1 = version := by
  unfold currentVersion at current
  split at current
  · cases current
  · rename_i v key rest keys
    obtain rfl := Option.some.inj current
    rw [keys]
    rcases foldl_max_mem rest v with same | ⟨e, he, heq⟩
    · exact ⟨(v, key), List.mem_cons_self, same.symm⟩
    · exact ⟨e, List.mem_cons_of_mem _ he, heq⟩

section Payload
variable {version : JsNumber} {key iv : Bytes} {plaintext context : String}

/-- The parser reads back exactly what an encryption wrote. -/
theorem parse_payload (gcm : Gcm) (reads : ReadsBack version) (hiv : iv.length = IV_BYTES) :
    parse (payload gcm version key iv plaintext context) =
      some (version, iv, (gcm.cipher key iv (utf8 context) (utf8 plaintext)).2,
        (gcm.cipher key iv (utf8 context) (utf8 plaintext)).1) := by
  have tag := gcm.tag_length key iv (utf8 context) (utf8 plaintext)
  have parts := split_join '.' ["v" ++ version.toText,
    Base64.encode base64url iv,
    Base64.encode base64url (gcm.cipher key iv (utf8 context) (utf8 plaintext)).2,
    Base64.encode base64url (gcm.cipher key iv (utf8 context) (utf8 plaintext)).1] (by simp)
    (by simp [reads.dot_notMem, dot_notMem_base64url])
  have version := reads
  unfold ReadsBack at version
  simp [parse, payload, parts, version, Base64.decode_encode, hiv, tag, TAG_BYTES]

/-- Decryption inverts encryption under every key map that holds the version. -/
theorem decrypt_payload {env : Env} (safe : SafeVersion version) (hiv : iv.length = IV_BYTES)
    (held : env.ENCRYPTION_KEYS.lookup version = some key) :
    decrypt env (payload env.gcm version key iv plaintext context) context = .ok plaintext := by
  simp only [decrypt, parse_payload env.gcm safe.readsBack hiv, held]
  simp only [env.gcm.decipher_cipher, decodeUtf8_utf8]

theorem needsReencryption_payload {env : Env} (gcm : Gcm) (safe : SafeVersion version)
    (hiv : iv.length = IV_BYTES) :
    needsReencryption env (payload gcm version key iv plaintext context) =
      .ok (decide (some version ≠ currentVersion env)) := by
  simp [needsReencryption, parse_payload gcm safe.readsBack hiv]

end Payload

/-- A collision-free HMAC makes the blind index as good as the value. -/
theorem blindIndex_injective {env : Env}
    (collisionFree : Function.Injective (env.hmacSha256 env.BLIND_INDEX_KEY)) (context : String) :
    Function.Injective fun value => blindIndex env value context := by
  intro a b h
  have same := collisionFree (Base64.encode_injective base64url h)
  exact utf8_injective (List.append_cancel_left same)

end BajaValle.EncryptionService
