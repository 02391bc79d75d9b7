import Mathlib.Tactic.Lemma
import Mathlib.Data.List.DropRight

/-!
# Strings and bytes of the runtime

Buffers are byte lists and strings are sequences of Unicode scalar values, so
every string is well formed. `trim` and `toLowerCase` follow ECMAScript. Which
letters have a lower case is Unicode data of the engine and not of the program:
`CaseData` is that data with the stability facts Unicode guarantees for it.
-/

namespace BajaValle

abbrev Bytes := List UInt8

/-- `Buffer.from(s, 'utf8')` -/
def utf8 (s : String) : Bytes := s.toByteArray.data.toList

/-- A UTF-8 decoder between two bytes: continuation bytes still needed, the
range the next one must lie in, and the code point so far. -/
structure Utf8State where
  needed : Nat
  lower : UInt8
  upper : UInt8
  point : Nat

def Utf8State.idle : Utf8State := ⟨0, 0x80, 0xbf, 0⟩

/-- The byte `b` where a character starts. -/
def leadByte (b : UInt8) : Utf8State × List Char :=
  if b < 0x80 then (.idle, [Char.ofNat b.toNat])
  else if 0xc2 ≤ b ∧ b ≤ 0xdf then (⟨1, 0x80, 0xbf, b.toNat % 32⟩, [])
  else if 0xe0 ≤ b ∧ b ≤ 0xef then
    (⟨2, if b = 0xe0 then 0xa0 else 0x80, if b = 0xed then 0x9f else 0xbf, b.toNat % 16⟩, [])
  else if 0xf0 ≤ b ∧ b ≤ 0xf4 then
    (⟨3, if b = 0xf0 then 0x90 else 0x80, if b = 0xf4 then 0x8f else 0xbf, b.toNat % 8⟩, [])
  else (.idle, ['\uFFFD'])

/-- Every maximal malformed part becomes one replacement character. -/
def decodeLossy (st : Utf8State) : Bytes → List Char
  | [] => if st.needed = 0 then [] else ['\uFFFD']
  | b :: rest =>
    if st.needed = 0 then (leadByte b).2 ++ decodeLossy (leadByte b).1 rest
    else if st.lower ≤ b ∧ b ≤ st.upper then
      let point := st.point * 64 + b.toNat % 64
      if st.needed = 1 then Char.ofNat point :: decodeLossy .idle rest
      else decodeLossy ⟨st.needed - 1, 0x80, 0xbf, point⟩ rest
    else '\uFFFD' :: (leadByte b).2 ++ decodeLossy (leadByte b).1 rest

/-- `buffer.toString('utf8')` -/
def decodeUtf8 (bs : Bytes) : String :=
  match String.fromUTF8? ⟨bs.toArray⟩ with
  | some s => s
  | none => String.ofList (decodeLossy .idle bs)

theorem decodeUtf8_utf8 (s : String) : decodeUtf8 (utf8 s) = s := by
  have whole : (⟨(utf8 s).toArray⟩ : ByteArray) = s.toByteArray := by simp [utf8]
  have valid : String.fromUTF8? s.toByteArray = some s := by
    simp only [String.fromUTF8?]
    rw [dif_pos s.isValidUTF8]
    rfl
  rw [decodeUtf8, whole, valid]

theorem utf8_injective : Function.Injective utf8 :=
  Function.LeftInverse.injective decodeUtf8_utf8

/-- `s.split(sep)` for a one-character separator -/
def split (sep : Char) (s : String) : List String :=
  (s.toList.splitOn sep).map String.ofList

/-- `parts.join(sep)` for a one-character separator -/
def join (sep : Char) (parts : List String) : String :=
  String.ofList (parts.flatMap fun part => sep :: part.toList).tail

/-- UTF-16 units of a character -/
def utf16Size (c : Char) : Nat := if c.toNat < 0x10000 then 1 else 2

/-- The characters of the first `n` UTF-16 units. Half a character is stored as a
replacement character. -/
def sliceUnits : Nat → List Char → List Char
  | 0, _ => []
  | _, [] => []
  | n + 1, c :: rest =>
    if utf16Size c = 1 then c :: sliceUnits n rest
    else match n with
      | 0 => ['\uFFFD']
      | n + 1 => c :: sliceUnits n rest

/-- `s.slice(0, n)` -/
def slice (n : Nat) (s : String) : String := String.ofList (sliceUnits n s.toList)

lemma join_toList (sep : Char) (parts : List String) :
    (join sep parts).toList = [sep].intercalate (parts.map String.toList) := by
  have shift : ∀ ps : List String, ∀ p : String,
      p.toList ++ ps.flatMap (fun part => sep :: part.toList) =
        [sep].intercalate ((p :: ps).map String.toList) := by
    intro ps
    induction ps with
    | nil => simp
    | cons q ps ih =>
      intro p
      simp only [List.flatMap_cons, List.map_cons, List.intercalate_cons_cons] at ih ⊢
      simp [← ih q]
  cases parts with
  | nil => simp [join]
  | cons p ps => simpa [join] using shift ps p

/-- Splitting undoes joining when no part holds the separator. -/
theorem split_join (sep : Char) (parts : List String) (hne : parts ≠ [])
    (clean : ∀ p ∈ parts, sep ∉ p.toList) : split sep (join sep parts) = parts := by
  have parted : (parts.map String.toList).map String.ofList = parts := by
    simp [Function.comp_def]
  rw [split, join_toList, List.splitOn_intercalate sep (by simpa using clean) (by simpa using hne),
    parted]

/-- Splitting at a separator that only the first part may hold. -/
lemma split_join_cons (sep : Char) (first : String) (parts : List String) (hne : parts ≠ [])
    (clean : ∀ p ∈ parts, sep ∉ p.toList) :
    split sep (join sep (first :: parts)) = split sep first ++ parts := by
  obtain ⟨p, parts, rfl⟩ := List.exists_cons_of_ne_nil hne
  have rest : (join sep (p :: parts)).toList.splitOn sep = (p :: parts).map String.toList := by
    rw [join_toList, List.splitOn_intercalate sep (by simpa using clean) (by simp)]
  have parted : ((p :: parts).map String.toList).map String.ofList = p :: parts := by
    simp [Function.comp_def]
  rw [join_toList] at rest
  rw [split, join_toList, List.map_cons, List.map_cons, List.intercalate_cons_cons,
    List.append_assoc, List.singleton_append]
  rw [List.map_cons] at rest parted
  rw [List.splitOn_append_cons_self, rest, List.map_append, split, parted]

lemma eq_of_split_eq_singleton {sep : Char} {s part : String} (h : split sep s = [part]) :
    s = part := by
  obtain ⟨chars, whole, rfl⟩ := List.map_eq_singleton_iff.mp h
  have joined : [sep].intercalate (List.splitOn sep s.toList) = s.toList :=
    List.intercalate_splitOn sep
  rw [whole] at joined
  rw [← String.toList_inj, ← joined]
  simp

/-- White space and line terminators of ECMAScript. -/
def isWhite (c : Char) : Bool :=
  c ∈ ['\t', '\n', '\x0b', '\x0c', '\r', ' ', '\u00a0', '\u1680', '\u2028', '\u2029',
    '\u202f', '\u205f', '\u3000', '\ufeff'] || (0x2000 ≤ c.toNat && c.toNat ≤ 0x200a)

/-- Unicode case data: the lower-case mapping of each character and the two
properties that decide between the two lower-case forms of sigma. -/
structure CaseData where
  lower : Char → List Char
  cased : Char → Bool
  caseIgnorable : Char → Bool
  lower_sigma : lower 'Σ' = ['σ']
  lower_finalSigma : lower 'ς' = ['ς']
  lower_ne_nil : ∀ c, lower c ≠ []
  lower_stable : ∀ c, ∀ d ∈ lower c, lower d = [d]
  lower_white : ∀ c, ∀ d ∈ lower c, isWhite d = true → isWhite c = true

section CaseMapping
variable (U : CaseData)

/-- The last letter of a word, given the characters before it, latest first,
and those after it. -/
def finalSigma (before after : List Char) : Bool :=
  let casedNext (cs : List Char) :=
    match cs.dropWhile U.caseIgnorable with
    | [] => false
    | c :: _ => U.cased c
  casedNext before && !casedNext after

def lowerAt (before : List Char) (c : Char) (after : List Char) : List Char :=
  if c = 'Σ' ∧ finalSigma U before after then ['ς'] else U.lower c

def lowerFrom (before : List Char) : List Char → List Char
  | [] => []
  | c :: rest => lowerAt U before c rest ++ lowerFrom (c :: before) rest

def toLowerCase (s : String) : String := String.ofList (lowerFrom U [] s.toList)

def trim (s : String) : String :=
  String.ofList ((s.toList.dropWhile isWhite).rdropWhile isWhite)

lemma lowerAt_ne_nil (before : List Char) (c : Char) (after : List Char) :
    lowerAt U before c after ≠ [] := by
  unfold lowerAt
  split
  · simp
  · exact U.lower_ne_nil c

lemma lowerAt_stable (before : List Char) (c : Char) (after : List Char) :
    ∀ d ∈ lowerAt U before c after, U.lower d = [d] := by
  intro d hd
  unfold lowerAt at hd
  split at hd
  · obtain rfl := List.mem_singleton.mp hd
    exact U.lower_finalSigma
  · exact U.lower_stable c d hd

lemma lowerAt_white (before : List Char) (c : Char) (after : List Char)
    (hc : isWhite c = false) : ∀ d ∈ lowerAt U before c after, isWhite d = false := by
  intro d hd
  unfold lowerAt at hd
  split at hd
  · obtain rfl := List.mem_singleton.mp hd
    decide
  · by_contra hw
    have := U.lower_white c d hd (by simpa using hw)
    rw [hc] at this
    cases this

lemma lowerFrom_stable (before cs : List Char) :
    ∀ d ∈ lowerFrom U before cs, U.lower d = [d] := by
  induction cs generalizing before with
  | nil => simp [lowerFrom]
  | cons c rest ih =>
    intro d hd
    rcases List.mem_append.mp hd with hd | hd
    · exact lowerAt_stable U before c rest d hd
    · exact ih (c :: before) d hd

lemma lowerFrom_of_stable (before cs : List Char) (stable : ∀ d ∈ cs, U.lower d = [d]) :
    lowerFrom U before cs = cs := by
  induction cs generalizing before with
  | nil => rfl
  | cons c rest ih =>
    have hc := stable c List.mem_cons_self
    have notSigma : c ≠ 'Σ' := by
      rintro rfl
      rw [U.lower_sigma] at hc
      exact absurd hc (by decide)
    simp only [lowerFrom, lowerAt, notSigma, false_and, if_false, hc,
      ih (c :: before) fun d hd => stable d (List.mem_cons_of_mem c hd), List.singleton_append]

theorem toLowerCase_idem (s : String) : toLowerCase U (toLowerCase U s) = toLowerCase U s := by
  simp only [toLowerCase, String.toList_ofList]
  exact congrArg _ (lowerFrom_of_stable U [] _ (lowerFrom_stable U [] _))

/-- No white space at either end. -/
def Trimmed (cs : List Char) : Prop :=
  (∀ c, cs.head? = some c → isWhite c = false) ∧
    ∀ c, cs.getLast? = some c → isWhite c = false

lemma dropWhile_of_trimmed {cs : List Char} (h : Trimmed cs) : cs.dropWhile isWhite = cs := by
  cases cs with
  | nil => rfl
  | cons c rest =>
    have hc := h.1 c rfl
    simp [hc]

lemma rdropWhile_of_trimmed {cs : List Char} (h : Trimmed cs) :
    cs.rdropWhile isWhite = cs := by
  refine List.rdropWhile_eq_self_iff.mpr fun hne => ?_
  simpa using h.2 (cs.getLast hne) (List.getLast?_eq_some_getLast hne)

lemma trim_of_trimmed {s : String} (h : Trimmed s.toList) : trim s = s := by
  rw [trim, dropWhile_of_trimmed h, rdropWhile_of_trimmed h, String.ofList_toList]

lemma trim_surrounded {before cs after : List Char} (nonempty : cs ≠ []) (trimmed : Trimmed cs)
    (whiteBefore : ∀ c ∈ before, isWhite c = true) (whiteAfter : ∀ c ∈ after, isWhite c = true) :
    trim (String.ofList (before ++ cs ++ after)) = String.ofList cs := by
  have front : (before ++ cs ++ after).dropWhile isWhite = cs ++ after := by
    rw [List.append_assoc, List.dropWhile_append_of_pos whiteBefore]
    obtain ⟨c, rest, rfl⟩ := List.exists_cons_of_ne_nil nonempty
    simp [trimmed.1 c rfl]
  have back : (cs ++ after).rdropWhile isWhite = cs := by
    rw [List.rdropWhile, List.reverse_append,
      List.dropWhile_append_of_pos fun c hc => whiteAfter c (List.mem_reverse.mp hc)]
    exact rdropWhile_of_trimmed trimmed
  rw [trim, String.toList_ofList, front, back]

lemma head?_dropWhile_isWhite (cs : List Char) :
    ∀ c, (cs.dropWhile isWhite).head? = some c → isWhite c = false := by
  induction cs with
  | nil => simp
  | cons c rest ih =>
    by_cases hc : isWhite c = true
    · simpa [hc] using ih
    · simp [hc]

lemma trim_trimmed (s : String) : Trimmed (trim s).toList := by
  simp only [trim, String.toList_ofList]
  constructor
  · intro c hc
    obtain ⟨tail, whole⟩ := List.rdropWhile_prefix isWhite (l := s.toList.dropWhile isWhite)
    apply head?_dropWhile_isWhite s.toList c
    rw [← whole, List.head?_append, hc, Option.some_or]
  · intro c hc
    have hne : (s.toList.dropWhile isWhite).rdropWhile isWhite ≠ [] := by
      intro empty
      simp [empty] at hc
    have last := List.rdropWhile_last_not isWhite (s.toList.dropWhile isWhite) hne
    rw [List.getLast?_eq_some_getLast hne] at hc
    simpa [Option.some.inj hc] using last

lemma lowerFrom_trimmed {before cs : List Char} (h : Trimmed cs) :
    Trimmed (lowerFrom U before cs) := by
  constructor
  · cases cs with
    | nil => simp [lowerFrom]
    | cons c rest =>
      intro d hd
      rw [lowerFrom, List.head?_append_of_ne_nil _ (lowerAt_ne_nil U before c rest)] at hd
      exact lowerAt_white U before c rest (h.1 c rfl) d (List.mem_of_mem_head? hd)
  · replace h := h.2
    induction cs generalizing before with
    | nil => simp [lowerFrom]
    | cons c rest ih =>
      intro d hd
      cases rest with
      | nil =>
        simp only [lowerFrom, List.append_nil] at hd
        exact lowerAt_white U before c [] (h c rfl) d (List.mem_of_getLast? hd)
      | cons c' rest =>
        have tailNe : lowerFrom U (c :: before) (c' :: rest) ≠ [] := by
          simp [lowerFrom, lowerAt_ne_nil]
        rw [lowerFrom, List.getLast?_append_of_ne_nil _ tailNe] at hd
        exact ih (fun e he => h e (by simpa using he)) d hd

end CaseMapping

/-- `normalizeEmail` of the users service -/
def normalizeEmail (U : CaseData) (email : String) : String := toLowerCase U (trim email)

theorem normalizeEmail_idem (U : CaseData) (email : String) :
    normalizeEmail U (normalizeEmail U email) = normalizeEmail U email := by
  have trimmed : Trimmed (normalizeEmail U email).toList := by
    rw [normalizeEmail, toLowerCase, String.toList_ofList]
    exact lowerFrom_trimmed U (trim_trimmed email)
  rw [normalizeEmail, trim_of_trimmed trimmed, normalizeEmail, toLowerCase_idem]

end BajaValle
