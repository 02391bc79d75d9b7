import BajaValle.Decryption
import BajaValle.Doubles
import Mathlib.Data.List.Nodup

/-!
# Key sets of the configuration

`ENCRYPTION_KEYS` is read entry by entry into the key map of the encryption
service. Versions pass through a number of the runtime: the set is read as it is
written when every version is a double, and what is encrypted under the newest
version is read again when that version is printed in plain digits.
-/

namespace BajaValle

def KEY_BYTES : Nat := 32

def decodeKey (value : String) : Option Bytes :=
  let key := Base64.decode base64 value
  if key.length = KEY_BYTES ∧ Base64.encodePadded base64 key = value then some key else none

/-- What `.` does not match in a regular expression. -/
def isLineTerminator (c : Char) : Bool := c ∈ ['\n', '\r', '\u2028', '\u2029']

/-- `/^([1-9]\d*):(.+)$/` -/
def matchEntry (entry : String) : Option (List Char × String) :=
  let version := entry.toList.takeWhile (· ≠ ':')
  match entry.toList.dropWhile (· ≠ ':') with
  | _ :: key =>
    if isPositiveDecimal version && !key.isEmpty && key.all (!isLineTerminator ·) then
      some (version, String.ofList key)
    else none
  | [] => none

def parseEntry (entry : String) : Option (JsNumber × Bytes) := do
  let (version, text) ← matchEntry entry
  let key ← decodeKey text
  return (.ofDigits version, key)

def versionedKeysIssue : String :=
  "Formato: <versión>:<llave de " ++ toString KEY_BYTES ++
    " bytes en base64>, separadas por coma y con versiones únicas"

def addEntries (keys : List (JsNumber × Bytes)) :
    List String → Except String (List (JsNumber × Bytes))
  | [] => .ok keys
  | entry :: rest =>
    match parseEntry entry with
    | none => .error versionedKeysIssue
    | some (version, key) =>
      if (keys.lookup version).isSome then .error versionedKeysIssue
      else addEntries (keys ++ [(version, key)]) rest

def versionedKeys (value : String) : Except String (List (JsNumber × Bytes)) :=
  addEntries [] ((split ',' value).map trim)

/-- A version and a key as an operator means them. -/
structure KeyEntry where
  version : Nat
  key : Bytes
  version_pos : 0 < version
  key_length : key.length = KEY_BYTES

namespace KeyEntry

def text (e : KeyEntry) : String :=
  toString e.version ++ ":" ++ Base64.encodePadded base64 e.key

/-- The entry with its version rounded. -/
def read (e : KeyEntry) : JsNumber × Bytes := (.ofNat e.version, e.key)

/-- The entry as it is written. -/
def exact (e : KeyEntry) : JsNumber × Bytes := (.finite e.version, e.key)

lemma read_eq_exact_iff (e : KeyEntry) : e.read = e.exact ↔ JsNumber.IsDouble e.version := by
  rw [← JsNumber.ofNat_exact_iff, read, exact, Prod.mk.injEq, and_iff_left rfl]

lemma text_toList (e : KeyEntry) : e.text.toList =
    Nat.toDigits 10 e.version ++ ':' :: (Base64.encodePadded base64 e.key).toList := by
  rw [text, String.toList_append, String.toList_append, Nat.toString_eq_repr, Nat.toList_repr,
    List.append_assoc]
  rfl

end KeyEntry

/-! ## Reading one entry -/

section Entries
variable {entry text : String} {version : JsNumber} {key : Bytes}

lemma decodeKey_eq_some :
    decodeKey text = some key ↔ key.length = KEY_BYTES ∧ text = Base64.encodePadded base64 key := by
  unfold decodeKey
  simp only [Option.ite_none_right_eq_some, Option.some.injEq]
  constructor
  · rintro ⟨⟨length, canonical⟩, rfl⟩
    exact ⟨length, canonical.symm⟩
  · rintro ⟨length, rfl⟩
    rw [Base64.decode_encodePadded]
    exact ⟨⟨length, rfl⟩, rfl⟩

/-- Characters of a key in base64. -/
lemma mem_encodePadded {c : Char} (h : c ∈ (Base64.encodePadded base64 key).toList) :
    c ≠ ',' ∧ c ≠ ':' ∧ isWhite c = false ∧ isLineTerminator c = false := by
  rw [Base64.encodePadded, String.toList_ofList] at h
  rcases List.mem_append.mp h with h | h
  · have chars : ∀ n, n < 64 → base64.char n ≠ ',' ∧ base64.char n ≠ ':' ∧
        isWhite (base64.char n) = false ∧ isLineTerminator (base64.char n) = false := by decide
    obtain ⟨n, small, rfl⟩ := Base64.mem_encode base64 h
    exact chars n small
  · rw [List.eq_of_mem_replicate h]
    decide

lemma encodePadded_ne_nil (length : key.length = KEY_BYTES) :
    (Base64.encodePadded base64 key).toList ≠ [] := by
  intro empty
  have back := Base64.decode_encodePadded base64 key
  rw [String.toList_eq_nil_iff.mp empty] at back
  rw [← back] at length
  cases length

lemma mem_toDigits {n : Nat} {c : Char} (h : c ∈ Nat.toDigits 10 n) :
    c ≠ ',' ∧ c ≠ ':' ∧ isWhite c = false := by
  have digits : ∀ d, d < 10 →
      d.digitChar ≠ ',' ∧ d.digitChar ≠ ':' ∧ isWhite d.digitChar = false := by decide
  obtain ⟨d, small, rfl⟩ := isDigit_eq (Nat.isDigit_of_mem_toDigits (by omega) (by omega) h)
  exact digits d small

/-- The expression matches digits, a colon and the rest of the line. -/
lemma matchEntry_eq_some {digits : List Char} :
    matchEntry entry = some (digits, text) ↔
      entry.toList = digits ++ ':' :: text.toList ∧ isPositiveDecimal digits = true ∧
        text.toList ≠ [] ∧ ∀ c ∈ text.toList, isLineTerminator c = false := by
  have whole := List.takeWhile_append_dropWhile (p := (· ≠ ':')) (l := entry.toList)
  constructor
  · intro matched
    unfold matchEntry at matched
    dsimp only at matched
    split at matched
    · rename_i c rest after
      split_ifs at matched with parts
      simp only [Bool.and_eq_true, Bool.not_eq_true', List.isEmpty_eq_false_iff, List.all_eq_true]
        at parts
      obtain ⟨rfl, rfl⟩ := Prod.mk.inj (Option.some.inj matched)
      have colon : c = ':' := by
        have head := List.head?_dropWhile_not (· ≠ ':') entry.toList
        rw [after] at head
        simpa using head
      rw [after, colon] at whole
      rw [String.toList_ofList]
      exact ⟨whole.symm, parts.1.1, parts.1.2, parts.2⟩
    · cases matched
  · rintro ⟨chars, decimal, nonempty, line⟩
    have digit : ∀ c ∈ digits, decide (c ≠ ':') = true := by
      intro c hc
      have isDigit := isPositiveDecimal_all decimal c hc
      refine decide_eq_true ?_
      rintro rfl
      cases isDigit
    unfold matchEntry
    rw [chars, List.takeWhile_append_of_pos digit, List.dropWhile_append_of_pos digit]
    simpa [decimal, nonempty] using line

/-- An entry is read when it is the text of a version and a key. -/
theorem parseEntry_eq_some :
    parseEntry entry = some (version, key) ↔ ∃ e : KeyEntry, entry = e.text ∧
      e.read = (version, key) := by
  simp only [parseEntry, Option.bind_eq_bind, Option.bind_eq_some_iff, Option.pure_def,
    Option.some.injEq, Prod.mk.injEq, Prod.exists]
  constructor
  · rintro ⟨digits, text, matched, _, decoded, rfl, rfl⟩
    obtain ⟨chars, decimal, _, _⟩ := matchEntry_eq_some.mp matched
    obtain ⟨length, rfl⟩ := decodeKey_eq_some.mp decoded
    obtain ⟨positive, spelled⟩ := toDigits_ofDigitChars decimal
    refine ⟨⟨_, _, positive, length⟩, String.toList_inj.mp ?_, rfl⟩
    rw [KeyEntry.text_toList, chars, spelled]
  · rintro ⟨e, rfl, same⟩
    obtain ⟨rfl, rfl⟩ := Prod.mk.inj same
    refine ⟨Nat.toDigits 10 e.version, _, matchEntry_eq_some.mpr ⟨e.text_toList,
      isPositiveDecimal_toDigits e.version_pos, encodePadded_ne_nil e.key_length,
      fun c hc => (mem_encodePadded hc).2.2.2⟩, e.key,
      decodeKey_eq_some.mpr ⟨e.key_length, rfl⟩, ?_, rfl⟩
    rw [JsNumber.ofDigits, Nat.ofDigitChars_ten_toDigits]

lemma parseEntry_text (e : KeyEntry) : parseEntry e.text = some e.read :=
  parseEntry_eq_some.mpr ⟨e, rfl, rfl⟩

end Entries

/-! ## Reading the whole set -/

lemma lookup_isSome {keys : List (JsNumber × Bytes)} {version : JsNumber} :
    (keys.lookup version).isSome = true ↔ version ∈ keys.map Prod.fst := by
  rw [Option.isSome_iff_exists, List.mem_map]
  constructor
  · rintro ⟨key, held⟩
    exact ⟨(version, key), EncryptionService.mem_of_lookup held, rfl⟩
  · rintro ⟨e, he, rfl⟩
    exact EncryptionService.lookup_of_mem he

lemma lookup_of_nodup {keys : List (JsNumber × Bytes)} {e : JsNumber × Bytes}
    (distinct : (keys.map Prod.fst).Nodup) (he : e ∈ keys) : keys.lookup e.1 = some e.2 := by
  obtain ⟨key, held⟩ := EncryptionService.lookup_of_mem he
  have same := List.inj_on_of_nodup_map distinct (EncryptionService.mem_of_lookup held) he rfl
  rw [held, ← same]

section Sets
variable {keys all : List (JsNumber × Bytes)}

/-- Entries are added when no two of their versions are read as the same number. -/
lemma addEntries_text (keys : List (JsNumber × Bytes)) (distinct : (keys.map Prod.fst).Nodup)
    (entries : List KeyEntry) :
    addEntries keys (entries.map KeyEntry.text) = .ok all ↔
      all = keys ++ entries.map KeyEntry.read ∧ (all.map Prod.fst).Nodup := by
  induction entries generalizing keys with
  | nil =>
    simp only [List.map_nil, addEntries, List.append_nil, Except.ok.injEq]
    constructor
    · rintro rfl
      exact ⟨rfl, distinct⟩
    · rintro ⟨rfl, _⟩
      rfl
  | cons e entries ih =>
    simp only [List.map_cons, addEntries, parseEntry_text]
    by_cases known : e.read.1 ∈ keys.map Prod.fst
    · rw [if_pos (lookup_isSome.mpr known)]
      simp only [reduceCtorEq, false_iff, not_and]
      rintro rfl nodup
      rw [List.map_append, List.nodup_append] at nodup
      exact nodup.2.2 _ known _ (by simp) rfl
    · rw [if_neg fun held => known (lookup_isSome.mp held), ih]
      · simp
      · rw [List.map_append, List.nodup_append]
        refine ⟨distinct, by simp, fun v hv w hw same => known ?_⟩
        simp only [List.map_cons, List.map_nil, List.mem_singleton] at hw
        rwa [← hw, ← same]

/-- Only texts of entries are added. -/
lemma addEntries_entries {parts : List String} (added : addEntries keys parts = .ok all) :
    ∃ entries : List KeyEntry, parts = entries.map KeyEntry.text := by
  induction parts generalizing keys with
  | nil => exact ⟨[], rfl⟩
  | cons part parts ih =>
    unfold addEntries at added
    split at added
    · cases added
    · rename_i version key parsed
      split_ifs at added
      obtain ⟨e, rfl, _⟩ := parseEntry_eq_some.mp parsed
      obtain ⟨entries, rfl⟩ := ih added
      exact ⟨e :: entries, rfl⟩

/-- What the parser accepts, and the key map it yields. -/
theorem versionedKeys_eq_ok {value : String} :
    versionedKeys value = .ok keys ↔ ∃ entries : List KeyEntry,
      (split ',' value).map trim = entries.map KeyEntry.text ∧
        keys = entries.map KeyEntry.read ∧ (keys.map Prod.fst).Nodup := by
  unfold versionedKeys
  constructor
  · intro accepted
    obtain ⟨entries, parts⟩ := addEntries_entries accepted
    rw [parts] at accepted
    exact ⟨entries, parts, (addEntries_text [] List.nodup_nil entries).mp accepted⟩
  · rintro ⟨entries, parts, rfl, distinct⟩
    rw [parts]
    exact (addEntries_text [] List.nodup_nil entries).mpr ⟨rfl, distinct⟩

end Sets

/-! ## Sets as they are written -/

/-- An entry with white space around it. -/
structure SpacedEntry where
  before : List Char
  entry : KeyEntry
  after : List Char
  before_white : ∀ c ∈ before, isWhite c = true
  after_white : ∀ c ∈ after, isWhite c = true

def SpacedEntry.text (p : SpacedEntry) : String :=
  String.ofList (p.before ++ p.entry.text.toList ++ p.after)

def written (parts : List SpacedEntry) : String := join ',' (parts.map SpacedEntry.text)

lemma KeyEntry.mem_text {e : KeyEntry} {c : Char} (h : c ∈ e.text.toList) :
    c ≠ ',' ∧ isWhite c = false := by
  rw [KeyEntry.text_toList] at h
  rcases List.mem_append.mp h with h | h
  · exact ⟨(mem_toDigits h).1, (mem_toDigits h).2.2⟩
  rcases List.mem_cons.mp h with rfl | h
  · decide
  · exact ⟨(mem_encodePadded h).1, (mem_encodePadded h).2.2.1⟩

lemma trim_text (p : SpacedEntry) : trim p.text = p.entry.text := by
  have nonempty : p.entry.text.toList ≠ [] := by
    rw [KeyEntry.text_toList]
    simp
  have trimmed : Trimmed p.entry.text.toList :=
    ⟨fun c hc => (KeyEntry.mem_text (List.mem_of_mem_head? hc)).2,
      fun c hc => (KeyEntry.mem_text (List.mem_of_getLast? hc)).2⟩
  rw [SpacedEntry.text, trim_surrounded nonempty trimmed p.before_white p.after_white,
    String.ofList_toList]

lemma comma_notMem_text (p : SpacedEntry) : ',' ∉ p.text.toList := by
  have white : ¬ isWhite ',' = true := by decide
  rw [SpacedEntry.text, String.toList_ofList, List.mem_append, List.mem_append]
  rintro ((h | h) | h)
  · exact white (p.before_white _ h)
  · exact (KeyEntry.mem_text h).1 rfl
  · exact white (p.after_white _ h)

lemma split_written {parts : List SpacedEntry} (nonempty : parts ≠ []) :
    (split ',' (written parts)).map trim = (parts.map SpacedEntry.entry).map KeyEntry.text := by
  have clean : ∀ s ∈ parts.map SpacedEntry.text, ',' ∉ s.toList := by
    intro s hs
    obtain ⟨p, _, rfl⟩ := List.mem_map.mp hs
    exact comma_notMem_text p
  rw [written, split_join ',' _ (by simpa using nonempty) clean, List.map_map, List.map_map]
  exact List.map_congr_left fun p _ => trim_text p

/-- A set is read as it is written when all its versions are doubles. -/
theorem versionedKeys_written {parts : List SpacedEntry} (nonempty : parts ≠ [])
    (distinct : (parts.map (·.entry.version)).Nodup) :
    versionedKeys (written parts) = .ok (parts.map (·.entry.exact)) ↔
      ∀ p ∈ parts, JsNumber.IsDouble p.entry.version := by
  have separate : ((parts.map (·.entry.exact)).map Prod.fst).Nodup := by
    have injective :=
      List.Nodup.map (f := JsNumber.finite) (fun _ _ => JsNumber.finite.inj) distinct
    rw [List.map_map] at injective ⊢
    exact injective
  rw [versionedKeys, split_written nonempty, addEntries_text [] List.nodup_nil,
    and_iff_left separate, List.nil_append, List.map_map, List.map_inj_left]
  refine forall₂_congr fun p _ => ?_
  rw [← p.entry.read_eq_exact_iff]
  exact eq_comm

/-! ## Using what was read -/

/-- The greatest version is the one that `Math.max` finds. -/
lemma foldl_max_read (first : KeyEntry) (rest : List KeyEntry) :
    ∃ newest ∈ first :: rest, (∀ e ∈ first :: rest, e.version ≤ newest.version) ∧
      (rest.map KeyEntry.read).foldl (fun m e => JsNumber.max m e.1)
        (JsNumber.ofNat first.version) = JsNumber.ofNat newest.version := by
  induction rest generalizing first with
  | nil =>
    refine ⟨first, List.mem_cons_self, by simp, ?_⟩
    rw [List.map_nil, List.foldl_nil]
  | cons second rest ih =>
    rw [List.map_cons, List.foldl_cons, KeyEntry.read]
    rcases Nat.le_total first.version second.version with le | le
    · obtain ⟨newest, mem, greatest, found⟩ := ih second
      rw [JsNumber.max_ofNat_right le]
      refine ⟨newest, List.mem_cons_of_mem _ mem, List.forall_mem_cons.mpr ⟨?_, greatest⟩, found⟩
      exact Nat.le_trans le (greatest second List.mem_cons_self)
    · obtain ⟨newest, mem, greatest, found⟩ := ih first
      rw [JsNumber.max_ofNat_left le]
      obtain ⟨above, others⟩ := List.forall_mem_cons.mp greatest
      refine ⟨newest, ?_, ?_, found⟩
      · rcases List.mem_cons.mp mem with rfl | mem
        · exact List.mem_cons_self
        · exact List.mem_cons_of_mem _ (List.mem_cons_of_mem _ mem)
      · exact List.forall_mem_cons.mpr
          ⟨above, List.forall_mem_cons.mpr ⟨Nat.le_trans le above, others⟩⟩

namespace EncryptionService

section Versions
variable {version : JsNumber} {key iv : Bytes} {plaintext context : String}

lemma parseVersion_text (version : JsNumber) : parseVersion ("v" ++ version.toText) =
    if isPositiveDecimal version.toText.toList then some (.ofDigits version.toText.toList)
    else none := by
  have whole : ("v" ++ version.toText).toList = 'v' :: version.toText.toList := by
    rw [String.toList_append]
    rfl
  simp only [parseVersion, whole]

lemma readsBack_iff {n : Nat} (positive : 0 < n) :
    ReadsBack (.ofNat n) ↔ n < JsNumber.EXPONENT_FORM := by
  obtain ⟨decimal, reads⟩ := JsNumber.toText_ofNat positive
  rw [ReadsBack, parseVersion_text, Option.ite_none_right_eq_some, decimal, Option.some.injEq]
  exact ⟨And.left, fun plain => ⟨plain, reads plain⟩⟩

/-- A payload whose version is not printed as a decimal has no form that is read. -/
lemma parse_unreadable (gcm : Gcm) (unreadable : isPositiveDecimal version.toText.toList = false) :
    parse (payload gcm version key iv plaintext context) = none := by
  rw [Option.eq_none_iff_forall_ne_some]
  rintro ⟨version', iv', tag', ciphertext'⟩ parsed
  obtain ⟨v, ivPart, tagPart, ciphertextPart, parts, isVersion, _⟩ := parse_eq_some.mp parsed
  rw [payload, split_join_cons '.' _ _ (by simp) (by simp [dot_notMem_base64url])] at parts
  have apart : _ = [v] ++ [ivPart, tagPart, ciphertextPart] := parts
  obtain ⟨single, _⟩ := List.append_inj' apart rfl
  rw [← eq_of_split_eq_singleton single, parseVersion_text, unreadable] at isVersion
  cases isVersion

end Versions

section Newest
variable {env : Env} {entries : List KeyEntry} {newest : KeyEntry}

lemma lookup_read (distinct : ((entries.map KeyEntry.read).map Prod.fst).Nodup)
    (mem : newest ∈ entries) :
    (entries.map KeyEntry.read).lookup (.ofNat newest.version) = some newest.key := by
  have held := lookup_of_nodup distinct (List.mem_map_of_mem mem)
  simpa only [KeyEntry.read] using held

/-- What is encrypted is read again when the version is printed in plain digits. -/
lemma decrypt_newest_iff
    (held : env.ENCRYPTION_KEYS.lookup (.ofNat newest.version) = some newest.key) :
    (∀ iv plaintext context, iv.length = IV_BYTES → decrypt env
      (payload env.gcm (.ofNat newest.version) newest.key iv plaintext context) context =
        .ok plaintext) ↔ newest.version < JsNumber.EXPONENT_FORM := by
  constructor
  · intro inverse
    by_contra large
    have unreadable : isPositiveDecimal (JsNumber.ofNat newest.version).toText.toList = false := by
      rw [Bool.eq_false_iff]
      exact fun decimal => large ((JsNumber.toText_ofNat newest.version_pos).1.mp decimal)
    have opened := inverse (List.replicate IV_BYTES 0) "" "" List.length_replicate
    rw [decrypt, parse_unreadable env.gcm unreadable] at opened
    cases opened
  · intro plain iv plaintext context hiv
    rw [decrypt, parse_payload env.gcm ((readsBack_iff newest.version_pos).mpr plain) hiv]
    simp only [held, env.gcm.decipher_cipher, decodeUtf8_utf8]

end Newest
end EncryptionService

open EncryptionService

/-- A key set with distinct versions is read as it is written exactly when every
version is a double. Of what is read, the greatest version encrypts, and its
encryptions are read again exactly when it is printed without an exponent. -/
theorem keySets_usable_iff (env : Env) :
    (∀ parts : List SpacedEntry, parts ≠ [] → (parts.map (·.entry.version)).Nodup →
      (versionedKeys (written parts) = .ok (parts.map (·.entry.exact)) ↔
        ∀ p ∈ parts, JsNumber.IsDouble p.entry.version)) ∧
    ∀ value, versionedKeys value = .ok env.ENCRYPTION_KEYS →
      ∃ (entries : List KeyEntry) (newest : KeyEntry),
        (split ',' value).map trim = entries.map KeyEntry.text ∧ newest ∈ entries ∧
        (∀ e ∈ entries, e ≠ newest → e.version < newest.version) ∧
        (∀ iv plaintext context, encrypt env iv plaintext context =
          .ok (payload env.gcm (.ofNat newest.version) newest.key iv plaintext context)) ∧
        ((∀ iv plaintext context, iv.length = IV_BYTES →
            ∃ payload, encrypt env iv plaintext context = .ok payload ∧
              decrypt env payload context = .ok plaintext) ↔
          newest.version < JsNumber.EXPONENT_FORM) := by
  refine ⟨fun parts nonempty distinct => versionedKeys_written nonempty distinct, ?_⟩
  intro value accepted
  obtain ⟨entries, parts, read, distinct⟩ := versionedKeys_eq_ok.mp accepted
  rw [read] at distinct
  obtain ⟨first, rest, rfl⟩ : ∃ first rest, entries = first :: rest := by
    refine List.exists_cons_of_ne_nil ?_
    rintro rfl
    have empty := List.map_eq_nil_iff.mp (List.map_eq_nil_iff.mp parts)
    exact List.splitOn_ne_nil ',' value.toList empty
  obtain ⟨newest, mem, greatest, found⟩ := foldl_max_read first rest
  have current : currentVersion env = some (.ofNat newest.version) := by
    rw [currentVersion, read]
    exact congrArg some found
  have held := lookup_read distinct mem
  rw [← read] at held
  have encrypts : ∀ iv plaintext context, encrypt env iv plaintext context =
      .ok (payload env.gcm (.ofNat newest.version) newest.key iv plaintext context) := by
    intro iv plaintext context
    simp only [encrypt, current, held]
  refine ⟨_, newest, parts, mem, ?_, encrypts, ?_⟩
  · intro e he other
    refine Nat.lt_of_le_of_ne (greatest e he) fun same => other ?_
    have sameRead : e.read.1 = newest.read.1 := by rw [KeyEntry.read, KeyEntry.read, same]
    rw [List.map_map] at distinct
    exact List.inj_on_of_nodup_map distinct he mem sameRead
  · simp only [encrypts, Except.ok.injEq, exists_eq_left']
    exact decrypt_newest_iff held

end BajaValle

/-! Key sets an operator could write. -/

namespace BajaValle.Plain

open EncryptionService

/-- An entry without white space, of one repeated byte. -/
def spelled (version : Nat) (byte : UInt8) (version_pos : 0 < version) : SpacedEntry where
  before := []
  entry := ⟨version, List.replicate KEY_BYTES byte, version_pos, List.length_replicate⟩
  after := []
  before_white := by simp
  after_white := by simp

def twoVersions : List SpacedEntry := [spelled 1 1 (by decide), spelled 2 3 (by decide)]

/-- Two versions that no double tells apart. -/
def closeVersions : List SpacedEntry :=
  [spelled (2 ^ 53) 1 (by decide), spelled (2 ^ 53 + 1) 3 (by decide)]

/-- One version that is printed with an exponent. -/
def longVersion : List SpacedEntry := [spelled (10 ^ 21) 1 (by decide)]

def longEnv : Env :=
  { env with ENCRYPTION_KEYS := [(.finite (10 ^ 21), List.replicate KEY_BYTES 1)] }

end BajaValle.Plain

namespace BajaValle

open EncryptionService Plain

theorem keySets_usable_two_versions :
    versionedKeys (written twoVersions) = .ok (twoVersions.map (·.entry.exact)) ∧
      ∃ newest : KeyEntry, ∀ iv plaintext context,
        encrypt { env with ENCRYPTION_KEYS := twoVersions.map (·.entry.exact) } iv plaintext
          context = .ok (payload gcm (.ofNat newest.version) newest.key iv plaintext context) := by
  obtain ⟨accepts, used⟩ :=
    keySets_usable_iff { env with ENCRYPTION_KEYS := twoVersions.map (·.entry.exact) }
  have accepted : versionedKeys (written twoVersions) =
      .ok (twoVersions.map (·.entry.exact)) := by
    refine (accepts twoVersions (by simp [twoVersions]) (by decide)).mpr ?_
    intro p hp
    rcases List.mem_cons.mp hp with rfl | hp
    · exact ⟨by decide +kernel, 1, 0, by decide, rfl⟩
    · obtain rfl := List.mem_singleton.mp hp
      exact ⟨by decide +kernel, 2, 0, by decide, rfl⟩
  obtain ⟨_, newest, _, _, _, encrypts, _⟩ := used _ accepted
  exact ⟨accepted, newest, encrypts⟩

theorem keySets_unusable_large_versions :
    (closeVersions.map (·.entry.version)).Nodup ∧ (closeVersions.map (·.entry.key)).Nodup ∧
    versionedKeys (written closeVersions) = .error versionedKeysIssue ∧
    versionedKeys (written longVersion) = .ok longEnv.ENCRYPTION_KEYS ∧
    encrypt longEnv (List.replicate IV_BYTES 0) "ana" "users.email" =
      .ok "v1e+21.AAAAAAAAAAAAAAAA.AAAAAAAAAAAAAAAAAAAAAA.YW5h" ∧
    decrypt longEnv "v1e+21.AAAAAAAAAAAAAAAA.AAAAAAAAAAAAAAAAAAAAAA.YW5h" "users.email" =
      .error .decryptionError := by
  decide +kernel

end BajaValle
