import BajaValle.Acceptability
import BajaValle.Doubles
import BajaValle.LoginAlone

/-!
# PHC strings

The grammar of the stored hashes that `parse` reads, and which of them argon2
takes: of those within the limits of `parse`, the ones with a salt of eight bytes,
at least eight units of memory per lane, and passes that fit in 32 bits.
-/

namespace BajaValle

open CallPrograms Prog

namespace JsNumber

lemma lt_ofNat (bound n : Nat) (safe : bound ≤ MAX_SAFE_INTEGER) :
    lt (.finite bound) (ofNat n) = true ↔ bound < n := by
  by_cases small : n ≤ MAX_SAFE_INTEGER
  · rw [ofNat_safe small, lt, decide_eq_true_eq]
  have above : bound < n := by omega
  cases rounded : ofNat n with
  | infinity => simp [lt, above]
  | finite m =>
    have large : ¬ m ≤ MAX_SAFE_INTEGER := fun le => small (ofNat_eq_safe rounded le ▸ le)
    simp only [lt, decide_eq_true_eq]
    omega

lemma ofNat_lt (bound n : Nat) (safe : bound ≤ MAX_SAFE_INTEGER) :
    lt (ofNat n) (.finite bound) = true ↔ n < bound := by
  by_cases small : n ≤ MAX_SAFE_INTEGER
  · rw [ofNat_safe small, lt, decide_eq_true_eq]
  cases rounded : ofNat n with
  | infinity =>
    simp only [lt, Bool.false_eq_true, false_iff]
    omega
  | finite m =>
    have large : ¬ m ≤ MAX_SAFE_INTEGER := fun le => small (ofNat_eq_safe rounded le ▸ le)
    simp only [lt, decide_eq_true_eq]
    omega

end JsNumber

namespace PasswordService

/-- `[A-Za-z0-9+/]` -/
def isPhcLetter (c : Char) : Bool := c.isAlphanum || c = '+' || c = '/'

/-- `\d+` -/
def IsDigits (ds : List Char) : Prop := ds ≠ [] ∧ ∀ c ∈ ds, c.isDigit = true

/-- `[A-Za-z0-9+/]+` -/
def IsLetters (cs : List Char) : Prop := cs ≠ [] ∧ ∀ c ∈ cs, isPhcLetter c = true

/-- The captures of `PHC_FORMAT`. -/
structure PhcText where
  memory : List Char
  passes : List Char
  parallelism : List Char
  salt : List Char
  hash : List Char
  digits : ∀ ds ∈ [memory, passes, parallelism], IsDigits ds
  letters : ∀ cs ∈ [salt, hash], IsLetters cs

def number (digits : List Char) : Nat := Nat.ofDigitChars 10 digits 0

namespace PhcText

def fields (t : PhcText) : String :=
  join ',' ["m=" ++ String.ofList t.memory, "t=" ++ String.ofList t.passes,
    "p=" ++ String.ofList t.parallelism]

def text (t : PhcText) : String :=
  join '$' ["", "argon2id", "v=19", t.fields, String.ofList t.salt, String.ofList t.hash]

def params (t : PhcText) : Argon2Params :=
  ⟨.ofDigits t.memory, .ofDigits t.passes, .ofDigits t.parallelism⟩

lemma params_eq (t : PhcText) : t.params =
    ⟨.ofNat (number t.memory), .ofNat (number t.passes), .ofNat (number t.parallelism)⟩ := rfl

/-- The limits that `parse` sets. -/
structure Within (t : PhcText) : Prop where
  memory : number t.memory ≤ MAX_MEMORY
  passes : 1 ≤ number t.passes
  parallelism : 1 ≤ number t.parallelism

end PhcText

section Fields
variable {name : Char} {field text : String} {params : Argon2Params}

lemma parseField_eq_some {value : JsNumber} :
    parseField name field = some value ↔ ∃ digits, field.toList = name :: '=' :: digits ∧
      IsDigits digits ∧ JsNumber.ofDigits digits = value := by
  unfold parseField
  constructor
  · intro parsed
    split at parsed
    · rename_i c digits chars
      split_ifs at parsed with formed
      obtain ⟨rfl, nonempty, digit⟩ := formed
      exact ⟨digits, chars, ⟨nonempty, List.all_eq_true.mp digit⟩, Option.some.inj parsed⟩
    · cases parsed
  · rintro ⟨digits, chars, ⟨nonempty, digit⟩, rfl⟩
    rw [chars]
    exact if_pos ⟨rfl, nonempty, List.all_eq_true.mpr digit⟩

lemma prefix_toList (name : Char) (digits : List Char) :
    (String.ofList [name, '='] ++ String.ofList digits).toList = name :: '=' :: digits := by
  simp

lemma eq_join {sep : Char} {s : String} {parts : List String} (h : split sep s = parts) :
    s = join sep parts := by
  have joined : [sep].intercalate (List.splitOn sep s.toList) = s.toList :=
    List.intercalate_splitOn sep
  rw [← String.toList_inj, join_toList, ← h, split, List.map_map]
  simp [Function.comp_def, joined]

lemma digit_ne {ds : List Char} (digits : ∀ c ∈ ds, c.isDigit = true) :
    ',' ∉ ds ∧ '$' ∉ ds := by
  constructor <;> intro h <;> cases digits _ h

/-- The fields of the parameters, in order and separated by commas. -/
lemma parseParams_eq_some : parseParams text = some params ↔
    ∃ memory passes parallelism,
      (∀ ds ∈ [memory, passes, parallelism], IsDigits ds) ∧
      text = join ',' ["m=" ++ String.ofList memory, "t=" ++ String.ofList passes,
        "p=" ++ String.ofList parallelism] ∧
      params = ⟨.ofDigits memory, .ofDigits passes, .ofDigits parallelism⟩ := by
  unfold parseParams
  constructor
  · intro parsed
    split at parsed
    · rename_i m t p parts
      simp only [Option.bind_eq_bind, Option.bind_eq_some_iff, parseField_eq_some,
        Option.pure_def, Option.some.injEq] at parsed
      obtain ⟨_, ⟨memory, hm, memoryDigits, rfl⟩, _, ⟨passes, ht, passesDigits, rfl⟩, _,
        ⟨parallelism, hp, parallelismDigits, rfl⟩, rfl⟩ := parsed
      refine ⟨memory, passes, parallelism, by simp [memoryDigits, passesDigits, parallelismDigits],
        ?_, rfl⟩
      rw [eq_join parts]
      congr 1
      simp only [List.cons.injEq, and_true, ← String.toList_inj, hm, ht, hp]
      exact ⟨(prefix_toList 'm' memory).symm, (prefix_toList 't' passes).symm,
        (prefix_toList 'p' parallelism).symm⟩
    · cases parsed
  · rintro ⟨memory, passes, parallelism, digits, rfl, rfl⟩
    simp only [List.forall_mem_cons, List.not_mem_nil, false_imp_iff, implies_true, and_true]
      at digits
    obtain ⟨memoryDigits, passesDigits, parallelismDigits⟩ := digits
    have clean : ∀ name ds, name ≠ ',' → (∀ c ∈ ds, c.isDigit = true) →
        ',' ∉ (String.ofList [name, '='] ++ String.ofList ds).toList := by
      intro name ds other digits
      rw [prefix_toList]
      simp [(digit_ne digits).1, Ne.symm other]
    rw [split_join ',' _ (by simp)]
    · have parsed : ∀ name ds, IsDigits ds →
          parseField name (String.ofList [name, '='] ++ String.ofList ds) =
            some (.ofDigits ds) := fun name ds digits =>
        parseField_eq_some.mpr ⟨ds, prefix_toList name ds, digits, rfl⟩
      have m := parsed 'm' memory memoryDigits
      have t := parsed 't' passes passesDigits
      have p := parsed 'p' parallelism parallelismDigits
      simp only [show "m=" = String.ofList ['m', '='] from rfl, show "t=" = String.ofList ['t', '=']
        from rfl, show "p=" = String.ofList ['p', '='] from rfl, m, t, p]
      rfl
    · simp only [List.forall_mem_cons, List.not_mem_nil, false_imp_iff, implies_true, and_true]
      exact ⟨clean 'm' memory (by decide) memoryDigits.2, clean 't' passes (by decide)
        passesDigits.2, clean 'p' parallelism (by decide) parallelismDigits.2⟩

end Fields

/-! ## The whole string -/

section Strings
variable {storedHash : String}

lemma isPhcBase64_iff {text : String} : isPhcBase64 text = true ↔ IsLetters text.toList := by
  rw [isPhcBase64, Bool.and_eq_true, decide_eq_true_eq, List.all_eq_true, IsLetters]
  simp [isPhcLetter]

lemma letter_ne_dollar {cs : List Char} (letters : IsLetters cs) : '$' ∉ cs :=
  fun h => by cases letters.2 _ h

lemma sextet_of_letter : ∀ c : Char, isPhcLetter c = true → (sextet c).isSome = true := by
  intro c letter
  rw [isPhcLetter, Bool.or_eq_true, Bool.or_eq_true, decide_eq_true_eq, decide_eq_true_eq]
    at letter
  unfold sextet
  split_ifs with upper lower digit plus slash
  · rfl
  · rfl
  · rfl
  · rfl
  · rfl
  · exfalso
    rcases letter with (alphanum | rfl) | rfl
    · rcases Bool.or_eq_true_iff.mp alphanum with alpha | isDigit
      · rcases Bool.or_eq_true_iff.mp alpha with isUpper | isLower
        · exact upper (decide_eq_true_eq.mp isUpper)
        · have ends := Bool.and_eq_true_iff.mp isLower
          exact lower ⟨decide_eq_true_eq.mp ends.1, decide_eq_true_eq.mp ends.2⟩
      · have ends := Bool.and_eq_true_iff.mp isDigit
        exact digit ⟨decide_eq_true_eq.mp ends.1, decide_eq_true_eq.mp ends.2⟩
    · exact plus (.inl rfl)
    · exact slash (.inl rfl)

lemma dollar_notMem_fields (t : PhcText) : '$' ∉ t.fields.toList := by
  have digits : ∀ ds ∈ [t.memory, t.passes, t.parallelism], '$' ∉ ds :=
    fun ds hds => (digit_ne (t.digits ds hds).2).2
  simp only [List.forall_mem_cons, List.not_mem_nil, false_imp_iff, implies_true, and_true]
    at digits
  rw [PhcText.fields, join_toList]
  simp [List.intercalate, digits]

/-- The limits, on the numbers as they are written. -/
lemma limits_iff (t : PhcText) : (JsNumber.lt (.finite MAX_MEMORY) t.params.memory ||
    t.params.passes.lt (.finite 1) || t.params.parallelism.lt (.finite 1)) = false ↔ t.Within := by
  have memory := JsNumber.lt_ofNat MAX_MEMORY (number t.memory) (by decide)
  have passes := JsNumber.ofNat_lt 1 (number t.passes) (by decide)
  have parallelism := JsNumber.ofNat_lt 1 (number t.parallelism) (by decide)
  rw [Bool.eq_false_iff, Ne, Bool.or_eq_true, Bool.or_eq_true, PhcText.params_eq, memory, passes,
    parallelism]
  constructor
  · intro within
    exact ⟨by omega, by omega, by omega⟩
  · rintro ⟨hm, ht, hp⟩
    omega

/-- What `parse` reads. -/
theorem parse_eq_some {parsed : ParsedHash} :
    parse storedHash = some parsed ↔ ∃ t : PhcText, storedHash = t.text ∧ t.Within ∧
      parsed = ⟨t.params, Base64.decode base64 (String.ofList t.salt),
        Base64.decode base64 (String.ofList t.hash)⟩ := by
  constructor
  · intro h
    unfold parse at h
    split at h
    · rename_i fields salt hash parts
      split at h
      · cases h
      rename_i params isParams
      obtain ⟨memory, passes, parallelism, digits, rfl, rfl⟩ := parseParams_eq_some.mp isParams
      split_ifs at h with malformed outside
      have letters : ∀ cs ∈ [salt.toList, hash.toList], IsLetters cs := by
        simpa [isPhcBase64_iff] using malformed
      let t : PhcText := ⟨memory, passes, parallelism, salt.toList, hash.toList, digits, letters⟩
      refine ⟨t, ?_, (limits_iff t).mp (Bool.eq_false_iff.mpr outside), ?_⟩
      · rw [eq_join parts]
        simp [PhcText.text, PhcText.fields, t]
      · rw [← Option.some.inj h]
        simp [PhcText.params, t]
    · cases h
  · rintro ⟨t, rfl, within, rfl⟩
    have letters : IsLetters t.salt ∧ IsLetters t.hash := by
      simpa using t.letters
    have parts : split '$' t.text = ["", "argon2id", "v=19", t.fields, String.ofList t.salt,
        String.ofList t.hash] := by
      refine split_join '$' _ (by simp) ?_
      simp [dollar_notMem_fields, letter_ne_dollar letters.1, letter_ne_dollar letters.2]
    have params := parseParams_eq_some.mpr
      ⟨t.memory, t.passes, t.parallelism, t.digits, rfl, rfl⟩
    have salt : isPhcBase64 (String.ofList t.salt) = true := by
      simpa [isPhcBase64_iff] using letters.1
    have hash : isPhcBase64 (String.ofList t.hash) = true := by
      simpa [isPhcBase64_iff] using letters.2
    have inside := (limits_iff t).mpr within
    simp only [PhcText.params] at inside
    simp only [parse, parts, PhcText.fields, params, salt, hash, inside, PhcText.params]
    rfl

end Strings

/-! ## What argon2 takes -/

/-- Less memory than eight units per lane. -/
def isScarce (params : Argon2Params) : Bool :=
  match params.memory, params.parallelism with
  | .finite m, .finite l => m < 8 * l
  | _, _ => false

/-- Nonces and parameters that argon2 of the runtime rejects. -/
def Argon2Rejects (nonce : Bytes) (params : Argon2Params) : Prop :=
  nonce.length < 8 ∨ isScarce params = true ∨
    params.parallelism.lt (.finite 1) = true ∨
    JsNumber.lt (.finite (2 ^ 24 - 1)) params.parallelism = true ∨
    params.passes.lt (.finite 1) = true ∨ JsNumber.lt (.finite (2 ^ 32 - 1)) params.passes = true

instance (nonce : Bytes) (params : Argon2Params) : Decidable (Argon2Rejects nonce params) :=
  inferInstanceAs (Decidable (_ ∨ _))

/-- argon2 derives unless it rejects the nonce or the parameters. -/
def NodeArgon2 (env : Env) : Prop :=
  ∀ message nonce params, env.argon2id message nonce params = none ↔ Argon2Rejects nonce params

/-- A comparison run alone, with no call failing, ends and says yes or no. -/
def Resolves (env : Env) (storedHash password : String) : Prop :=
  ∀ w, (∃ h out w', Alone env (verify storedHash password) w h out w') ∧
    ∀ h out w', Alone env (verify storedHash password) w h out w' → ∃ b, out = .ok b

/-- Memory for every lane, passes in 32 bits and a salt of eight bytes in base64. -/
structure PhcText.Fits (t : PhcText) : Prop where
  memory : 8 * number t.parallelism ≤ number t.memory
  passes : number t.passes < 2 ^ 32
  salt : 11 ≤ t.salt.length

/-- The string is of no form that `parse` accepts, or argon2 takes what it holds. -/
def Derivable (storedHash : String) : Prop :=
  ∀ t : PhcText, storedHash = t.text → t.Within → t.Fits

section Verification
variable {env : Env} {storedHash password : String}

lemma rejects_iff {t : PhcText} (within : t.Within) :
    Argon2Rejects (Base64.decode base64 (String.ofList t.salt)) t.params ↔ ¬ t.Fits := by
  have letters : IsLetters t.salt := t.letters _ List.mem_cons_self
  have length := Base64.length_decode base64 fun c hc => sextet_of_letter c (letters.2 c hc)
  have memory : JsNumber.ofNat (number t.memory) = .finite (number t.memory) :=
    JsNumber.ofNat_safe (Nat.le_trans within.memory (by decide))
  have below := JsNumber.ofNat_lt 1 (number t.parallelism) (by decide)
  have above := JsNumber.lt_ofNat (2 ^ 24 - 1) (number t.parallelism) (by decide)
  have few := JsNumber.ofNat_lt 1 (number t.passes) (by decide)
  have many := JsNumber.lt_ofNat (2 ^ 32 - 1) (number t.passes) (by decide)
  have lanes : number t.parallelism < 2 ^ 24 →
      JsNumber.ofNat (number t.parallelism) = .finite (number t.parallelism) := fun few =>
    JsNumber.ofNat_safe (Nat.le_trans (Nat.le_of_lt few) (by decide))
  have limit : number t.memory ≤ 2 ^ 20 := within.memory
  have passes := within.passes
  have parallelism := within.parallelism
  rw [Argon2Rejects, length, PhcText.params_eq, below, above, few, many, memory]
  constructor
  · rintro rejected ⟨fitsMemory, fitsPasses, fitsSalt⟩
    rcases rejected with short | scarce | rest
    · omega
    · rw [lanes (by omega), isScarce, decide_eq_true_eq] at scarce
      omega
    · omega
  · intro unfit
    by_cases short : t.salt.length * 3 / 4 < 8
    · exact .inl short
    by_cases wide : 2 ^ 24 - 1 < number t.parallelism
    · exact .inr (.inr (.inr (.inl wide)))
    by_cases scarce : number t.memory < 8 * number t.parallelism
    · rw [lanes (by omega)]
      exact .inr (.inl (decide_eq_true scarce))
    · refine .inr (.inr (.inr (.inr (.inr ?_))))
      by_contra little
      exact unfit ⟨by omega, by omega, by omega⟩

/-- The only call of a comparison is a derivation, which is always answered. -/
lemma verify_finishes (env : Env) (storedHash password : String) (w : World) :
    ∃ h out w', Alone env (verify storedHash password) w h out w' := by
  have uses : (verify storedHash password).Uses fun op =>
      ∃ message nonce params, op = .argon2 message nonce params := by
    unfold verify
    split
    · exact uses_ret _
    · exact uses_bind (uses_bind (perform_uses ⟨_, _, _, rfl⟩) fun _ => ofExcept_uses _)
        fun _ => uses_ret _
  have able : ∀ op w, (∃ message nonce params, op = .argon2 message nonce params) →
      ∃ ch, Healthy False ch ∧ exec env ch op w ≠ none := by
    rintro _ w ⟨message, nonce, params, rfl⟩
    refine ⟨{ now := w.clock }, by simp [Healthy], ?_⟩
    rw [exec_at _ (Nat.le_refl _)]
    exact Option.some_ne_none _
  obtain ⟨p, h, w', run, ended⟩ := uses.terminates able [] w
  obtain ⟨out, ended⟩ := Option.ne_none_iff_exists'.mp ended
  exact ⟨h, out, w', p, run, ended⟩

lemma verify_outcome {w w' : World} {h : List OwnCall} {out : Except Failure Bool}
    (ran : Alone env (verify storedHash password) w h out w') :
    out = (verdict env storedHash password).elim (.error .argon2Error) .ok :=
  (verify_alone.finishes ran).2.1.2.2

lemma resolves_iff : Resolves env storedHash password ↔
    verdict env storedHash password ≠ none := by
  constructor
  · intro resolves none
    obtain ⟨h, out, w', ran⟩ := (resolves Plain.world).1
    obtain ⟨b, rfl⟩ := (resolves Plain.world).2 h out w' ran
    have out := verify_outcome ran
    rw [none] at out
    cases out
  · intro some w
    refine ⟨verify_finishes env storedHash password w, fun h out w' ran => ?_⟩
    obtain ⟨b, isSome⟩ := Option.ne_none_iff_exists'.mp some
    rw [verify_outcome ran, isSome]
    exact ⟨b, rfl⟩

/-- A comparison ends with an answer exactly when argon2 takes what the stored
string holds, should `parse` let it through. -/
theorem verify_resolves_iff (domain : NodeArgon2 env) (storedHash password : String) :
    Resolves env storedHash password ↔ Derivable storedHash := by
  rw [resolves_iff, verdict]
  cases parsed : parse storedHash with
  | none =>
    refine iff_of_true (Option.some_ne_none _) fun t isText within => ?_
    have reads := parse_eq_some.mpr ⟨t, isText, within, rfl⟩
    rw [parsed] at reads
    cases reads
  | some read =>
    rw [Ne, Option.map_eq_none_iff, domain]
    constructor
    · intro accepted t isText within
      have reads := parse_eq_some.mpr ⟨t, isText, within, rfl⟩
      obtain rfl := Option.some.inj (parsed.symm.trans reads)
      exact not_not.mp fun unfit => accepted ((rejects_iff within).mpr unfit)
    · intro derivable
      obtain ⟨t, isText, within, rfl⟩ := parse_eq_some.mp parsed
      exact fun rejected => (rejects_iff within).mp rejected (derivable t isText within)

end Verification

end PasswordService

end BajaValle

/-! An argon2 that takes what that of the runtime takes. -/

namespace BajaValle.Plain

open PasswordService

def nodeEnv : Env :=
  { env with argon2id := fun message nonce params =>
      if Argon2Rejects nonce params then none else some (utf8 message) }

lemma nodeArgon2 : NodeArgon2 nodeEnv := by
  intro message nonce params
  simp [nodeEnv]

/-- A hash in the form of the service, but with a salt of four bytes. -/
def shortSalt : String := "$argon2id$v=19$m=19456,t=2,p=1$c2FsdA$aGFzaA"

/-- The least memory, the most passes and the shortest salt that argon2 takes. -/
def edge : String := "$argon2id$v=19$m=8,t=4294967295,p=1$c2FsdHNhbHQ$aGFzaA"

lemma parse_edge : parse edge = some ⟨⟨.finite 8, .finite 4294967295, .finite 1⟩,
    utf8 "saltsalt", utf8 "hash"⟩ := by decide +kernel

end BajaValle.Plain

namespace BajaValle.PasswordService

open CallPrograms Prog

theorem verify_resolves_iff_edge : parse Plain.edge ≠ none ∧
    Resolves Plain.nodeEnv Plain.edge "secret" := by
  refine ⟨Plain.parse_edge ▸ Option.some_ne_none _,
    (verify_resolves_iff Plain.nodeArgon2 Plain.edge "secret").mpr fun t isText within => ?_⟩
  have reads := Plain.parse_edge.symm.trans (parse_eq_some.mpr ⟨t, isText, within, rfl⟩)
  obtain ⟨params, salt, -⟩ := (ParsedHash.mk.injEq ..).mp (Option.some.inj reads)
  refine not_not.mp fun unfit => ?_
  have rejects := (rejects_iff within).mpr unfit
  rw [← params, ← salt] at rejects
  exact absurd rejects (by decide +kernel)

theorem verify_throws_short_salt : NodeArgon2 Plain.nodeEnv ∧
    ∃ h w, Alone Plain.nodeEnv (verify Plain.shortSalt "secret") Plain.world h
      (.error .argon2Error) w := by
  refine ⟨Plain.nodeArgon2, ?_⟩
  have shown : ∃ h out w, Alone Plain.nodeEnv (verify Plain.shortSalt "secret") Plain.world h
      out w ∧ decide (out = .error .argon2Error) = true :=
    finishes_of_feed [{ now := 1 }] (by simp [Healthy]) (by decide +kernel)
  obtain ⟨h, out, w, ran, rejected⟩ := shown
  obtain rfl := of_decide_eq_true rejected
  exact ⟨h, w, ran⟩

end BajaValle.PasswordService
