import BajaValle.Passwords

/-!
# What the password policy reads

The policy looks at the part of an email before its at sign and at hashes in
their stored form. An email is put in lower case before it is stored, which
leaves its local part what the policy has seen of it; and a hash is read back
as it was written.
-/

namespace BajaValle

/-- What Unicode says of the at sign: no case, and no letter becomes one. -/
structure CaseData.AtSign (U : CaseData) : Prop where
  lower_at : U.lower '@' = ['@']
  at_of_lower : ∀ c, '@' ∈ U.lower c → c = '@'
  uncased : U.cased '@' = false
  notIgnorable : U.caseIgnorable '@' = false

/-- `email.split('@')[0]` -/
def localPart (email : String) : String := (split '@' email).headD ""

section LocalPart
variable {U : CaseData}

lemma headD_splitOn (sep : Char) (cs : List Char) :
    (cs.splitOn sep).headD [] = cs.takeWhile (· ≠ sep) := by
  induction cs with
  | nil => rfl
  | cons c cs ih =>
    rw [List.splitOn] at ih ⊢
    rw [List.splitOnP_cons_eq_if_modifyHead]
    by_cases same : c = sep
    · simp [same]
    · rw [if_neg (by simpa using same), List.takeWhile_cons_of_pos (by simpa using same), ← ih]
      cases parts : cs.splitOnP (· == sep) with
      | nil => exact absurd parts (List.splitOnP_ne_nil _ _)
      | cons p ps => rfl

lemma localPart_toList (email : String) :
    (localPart email).toList = email.toList.takeWhile (· ≠ '@') := by
  rw [← headD_splitOn, localPart, split]
  cases email.toList.splitOn '@' <;> simp

lemma at_of_lowerAt (sign : U.AtSign) {before after : List Char} {c : Char}
    (h : '@' ∈ lowerAt U before c after) : c = '@' := by
  unfold lowerAt at h
  split at h
  · exact absurd h (by decide)
  · exact sign.at_of_lower c h

/-- What follows an at sign does not matter to the letters before it. -/
lemma lowerAt_before_at (sign : U.AtSign) (before after rest : List Char) (c : Char) :
    lowerAt U before c (after ++ '@' :: rest) = lowerAt U before c after := by
  have same : finalSigma U before (after ++ '@' :: rest) = finalSigma U before after := by
    unfold finalSigma
    induction after with
    | nil => simp [sign.notIgnorable, sign.uncased]
    | cons d after ih =>
      by_cases skip : U.caseIgnorable d = true
      · simpa [skip] using ih
      · simp [skip]
  simp only [lowerAt, same]

lemma lowerFrom_at (sign : U.AtSign) (before front rest : List Char) :
    ∃ rest', lowerFrom U before (front ++ '@' :: rest) =
      lowerFrom U before front ++ '@' :: rest' := by
  induction front generalizing before with
  | nil =>
    refine ⟨lowerFrom U ('@' :: before) rest, ?_⟩
    simp [lowerFrom, lowerAt, sign.lower_at]
  | cons c front ih =>
    obtain ⟨rest', tail⟩ := ih (c :: before)
    refine ⟨rest', ?_⟩
    rw [List.cons_append, lowerFrom, lowerAt_before_at sign, tail, lowerFrom, List.append_assoc]

lemma at_notMem_lowerFrom (sign : U.AtSign) {before cs : List Char} (none : '@' ∉ cs) :
    '@' ∉ lowerFrom U before cs := by
  induction cs generalizing before with
  | nil => simp [lowerFrom]
  | cons c cs ih =>
    intro h
    rcases List.mem_append.mp h with here | later
    · exact none (at_of_lowerAt sign here ▸ List.mem_cons_self)
    · exact ih (fun mem => none (List.mem_cons_of_mem c mem)) later

lemma takeWhile_at {front : List Char} (free : '@' ∉ front) (rest : List Char) :
    (front ++ '@' :: rest).takeWhile (· ≠ '@') = front := by
  have all : ∀ c ∈ front, decide (c ≠ '@') = true := by
    intro c hc
    simpa using fun same : c = '@' => free (same ▸ hc)
  rw [List.takeWhile_append_of_pos all]
  simp

lemma takeWhile_free {cs : List Char} (free : '@' ∉ cs) : cs.takeWhile (· ≠ '@') = cs := by
  refine List.takeWhile_eq_self_iff.mpr fun c hc => ?_
  simpa using fun same : c = '@' => free (same ▸ hc)

/-- The part of an email before the at sign is put in lower case on its own. -/
theorem localPart_toLowerCase (sign : U.AtSign) (email : String) :
    localPart (toLowerCase U email) = toLowerCase U (localPart email) := by
  refine String.toList_injective ?_
  rw [localPart_toList, toLowerCase, toLowerCase, String.toList_ofList, String.toList_ofList,
    localPart_toList]
  by_cases mem : '@' ∈ email.toList
  · obtain ⟨front, rest, whole, free⟩ := List.eq_append_cons_of_mem mem
    obtain ⟨rest', lowered⟩ := lowerFrom_at sign [] front rest
    rw [whole, lowered, takeWhile_at free, takeWhile_at (at_notMem_lowerFrom sign free)]
  · rw [takeWhile_free mem, takeWhile_free (at_notMem_lowerFrom sign mem)]

/-- A password is as acceptable for a stored email as for the email given. -/
theorem assertAcceptable_normalizeEmail {env : Env} (sign : env.unicode.AtSign) {email : String}
    (trimmed : Trimmed email.toList) (password : String) :
    PasswordService.assertAcceptable env password (some (normalizeEmail env.unicode email)) =
      PasswordService.assertAcceptable env password (some email) := by
  have lower : toLowerCase env.unicode (localPart (normalizeEmail env.unicode email)) =
      toLowerCase env.unicode (localPart email) := by
    rw [normalizeEmail, trim_of_trimmed trimmed, localPart_toLowerCase sign, toLowerCase_idem]
  unfold localPart at lower
  simp only [PasswordService.assertAcceptable, lower]

end LocalPart

namespace PasswordService

/-- Only padding is cut off. -/
lemma toPhcBase64_eq (bs : Bytes) : toPhcBase64 bs = Base64.encode base64 bs := by
  have letters : ∀ n, n < 64 → base64.char n ≠ '=' := by decide
  have pads : ∀ c ∈ (Base64.padding bs).reverse, decide (c = '=') = true := fun c hc =>
    decide_eq_true (List.eq_of_mem_replicate (List.mem_reverse.mp hc))
  have kept : (Base64.encode base64 bs).toList.rdropWhile (· = '=') =
      (Base64.encode base64 bs).toList := by
    refine List.rdropWhile_eq_self_iff.mpr fun hne => ?_
    obtain ⟨n, hn, hc⟩ := Base64.mem_encode base64 (List.getLast_mem hne)
    rw [← hc]
    simpa using letters n hn
  rw [toPhcBase64, Base64.encodePadded, String.toList_ofList, List.rdropWhile, List.reverse_append,
    List.dropWhile_append_of_pos pads, ← List.rdropWhile, kept, String.ofList_toList]

lemma isPhcBase64_toPhcBase64 {bs : Bytes} (some_ : bs ≠ []) :
    isPhcBase64 (toPhcBase64 bs) = true := by
  rw [toPhcBase64_eq]
  have letters : ∀ n, n < 64 → ((base64.char n).isAlphanum || base64.char n = '+' ||
      base64.char n = '/') = true := by decide
  simp only [isPhcBase64, Bool.and_eq_true, decide_eq_true_eq, List.all_eq_true]
  refine ⟨fun empty => some_ ?_, fun c hc => ?_⟩
  · have back := Base64.decode_encode base64 bs
    rw [← back, empty]
    rfl
  · obtain ⟨n, hn, rfl⟩ := Base64.mem_encode base64 hc
    exact letters n hn

lemma dollar_notMem_toPhcBase64 (bs : Bytes) : '$' ∉ (toPhcBase64 bs).toList := by
  have letters : ∀ n, n < 64 → base64.char n ≠ '$' := by decide
  rw [toPhcBase64_eq]
  intro h
  obtain ⟨n, hn, hc⟩ := Base64.mem_encode base64 h
  exact letters n hn hc

/-- The text of the parameters of the service. -/
def paramsText : String :=
  join ',' ["m=" ++ PARAMS.memory.toText, "t=" ++ PARAMS.passes.toText,
    "p=" ++ PARAMS.parallelism.toText]

/-- The parser reads back what `hash` wrote. -/
theorem parse_phc {salt hash : Bytes} (saltNe : salt ≠ []) (hashNe : hash ≠ []) :
    parse (phc PARAMS salt hash) = some ⟨PARAMS, salt, hash⟩ := by
  have fields : parseParams paramsText = some PARAMS := by decide +kernel
  have clean : '$' ∉ paramsText.toList := by decide +kernel
  have limits : (JsNumber.lt (.finite MAX_MEMORY) PARAMS.memory ||
      PARAMS.passes.lt (.finite 1) || PARAMS.parallelism.lt (.finite 1)) = false := by decide
  have parts : split '$' (phc PARAMS salt hash) =
      ["", "argon2id", "v=19", paramsText, toPhcBase64 salt, toPhcBase64 hash] := by
    refine split_join '$' _ (by simp) ?_
    have fixed : '$' ∉ "argon2id".toList ∧ '$' ∉ "v=19".toList := by decide
    simpa [dollar_notMem_toPhcBase64, fixed, paramsText] using clean
  simp only [parse, parts, fields, isPhcBase64_toPhcBase64 saltNe, isPhcBase64_toPhcBase64 hashNe,
    limits]
  simp [toPhcBase64_eq, Base64.decode_encode]

end PasswordService

end BajaValle
