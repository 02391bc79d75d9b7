import BajaValle.Decimals
import Mathlib.Data.Nat.Digits.Defs

/-!
# Ids in paths and answers

An id of a path is parsed by a pipe and an id of an answer is the text that `toJSON`
prints. Each id that a column can hold has one spelling, and both sides use it.
-/

namespace BajaValle

/-- `/^[1-9]\d*$/` -/
def POSITIVE_INTEGER (value : String) : Bool := isPositiveDecimal value.toList

def PG_INT_MAX : ℤ := 2147483647

def PG_BIGINT_MAX : ℤ := 9223372036854775807

structure BadRequestException where
  message : String
  deriving DecidableEq

def invalidId : BadRequestException := ⟨"El id debe ser un entero positivo válido"⟩

/-- `BigInt(value)` of decimal digits. -/
def bigInt (value : String) : ℤ := (Nat.ofDigitChars 10 value.toList 0 : ℕ)

/-- `Number(n)` of an integer that is not negative. -/
def number (n : ℤ) : JsNumber := JsNumber.ofNat n.toNat

def parsePositiveId (value : String) (max : ℤ) : Except BadRequestException ℤ :=
  if !POSITIVE_INTEGER value || bigInt value > max then .error invalidId
  else .ok (bigInt value)

def ParseIntIdPipe.transform (value : String) : Except BadRequestException JsNumber :=
  (parsePositiveId value PG_INT_MAX).map number

def ParseBigIntIdPipe.transform (value : String) : Except BadRequestException ℤ :=
  parsePositiveId value PG_BIGINT_MAX

/-- `BigInt.prototype.toJSON` -/
def toJSON (n : ℤ) : String := toString n

/-! ## Spellings -/

/-- The digits of the number, most significant first and without leading zero. -/
def IsDecimalOf (s : String) (n : ℤ) : Prop :=
  ∃ digits : List ℕ, s.toList = digits.map Nat.digitChar ∧ (∀ d ∈ digits, d < 10) ∧
    digits ≠ [] ∧ digits.head? ≠ some 0 ∧ (Nat.ofDigits 10 digits.reverse : ℕ) = n

lemma ofDigitChars_map {digits : List ℕ} (small : ∀ d ∈ digits, d < 10) :
    Nat.ofDigitChars 10 (digits.map Nat.digitChar) 0 = Nat.ofDigits 10 digits.reverse := by
  induction digits using List.reverseRecOn with
  | nil => rfl
  | append_singleton digits d ih =>
    have last : d < 10 := small d (by simp)
    rw [List.map_append, List.map_singleton, Nat.ofDigitChars_append,
      Nat.ofDigitChars_cons_digitChar_of_lt_ten last, Nat.ofDigitChars_nil,
      ih fun e he => small e (by simp [he]), List.reverse_append, List.reverse_singleton,
      List.singleton_append, Nat.ofDigits_cons, Nat.add_comm]

lemma exists_digits {cs : List Char} (digits : ∀ c ∈ cs, c.isDigit = true) :
    ∃ ds : List ℕ, cs = ds.map Nat.digitChar ∧ ∀ d ∈ ds, d < 10 := by
  induction cs with
  | nil => exact ⟨[], rfl, by simp⟩
  | cons c cs ih =>
    obtain ⟨d, small, rfl⟩ := isDigit_eq (digits c List.mem_cons_self)
    obtain ⟨ds, rfl, rest⟩ := ih fun c' hc => digits c' (List.mem_cons_of_mem _ hc)
    exact ⟨d :: ds, rfl, List.forall_mem_cons.2 ⟨small, rest⟩⟩

lemma isPositiveDecimal_map {digits : List ℕ} (small : ∀ d ∈ digits, d < 10) :
    isPositiveDecimal (digits.map Nat.digitChar) = true ↔ digits ≠ [] ∧ digits.head? ≠ some 0 := by
  cases digits with
  | nil => simp [isPositiveDecimal]
  | cons d ds =>
    have zero : ∀ d, d < 10 → (d.digitChar = '0' ↔ d = 0) := by decide
    have digit : ∀ d, d < 10 → d.digitChar.isDigit = true := by decide
    have rest : ∀ e ∈ ds, e.digitChar.isDigit = true := fun e he =>
      digit e (small e (List.mem_cons_of_mem _ he))
    have first := small d List.mem_cons_self
    simp only [List.map_cons, isPositiveDecimal, digit d first, Bool.and_true, Bool.and_eq_true,
      bne_iff_ne, ne_eq, zero d first, List.all_map, List.all_eq_true, Function.comp_apply,
      List.head?_cons, Option.some.injEq, reduceCtorEq, not_false_eq_true, true_and]
    exact and_iff_left rest

/-- The pattern and the value of a text say whose decimal it is. -/
theorem isDecimalOf_iff {s : String} {n : ℤ} :
    IsDecimalOf s n ↔ POSITIVE_INTEGER s = true ∧ bigInt s = n := by
  constructor
  · rintro ⟨digits, text, small, nonempty, leads, value⟩
    refine ⟨?_, ?_⟩
    · rw [POSITIVE_INTEGER, text, isPositiveDecimal_map small]
      exact ⟨nonempty, leads⟩
    · rw [bigInt, text, ofDigitChars_map small, ← value]
  · rintro ⟨pattern, value⟩
    obtain ⟨digits, text, small⟩ := exists_digits (isPositiveDecimal_all pattern)
    rw [POSITIVE_INTEGER, text, isPositiveDecimal_map small] at pattern
    rw [bigInt, text, ofDigitChars_map small] at value
    exact ⟨digits, text, small, pattern.1, pattern.2, value⟩

lemma IsDecimalOf.pos {s : String} {n : ℤ} (decimal : IsDecimalOf s n) : 0 < n := by
  obtain ⟨pattern, rfl⟩ := isDecimalOf_iff.1 decimal
  exact Int.natCast_pos.2 (toDigits_ofDigitChars pattern).1

/-- A positive number has one decimal, the text that `toJSON` prints. -/
theorem isDecimalOf_iff_toJSON {s : String} {n : ℤ} (pos : 0 < n) :
    IsDecimalOf s n ↔ s = toJSON n := by
  obtain ⟨k, rfl⟩ := Int.eq_ofNat_of_zero_le pos.le
  have printed : (toJSON k).toList = Nat.toDigits 10 k := by
    have natural : toJSON k = toString k := rfl
    rw [natural, Nat.toString_eq_repr, Nat.toList_repr]
  rw [isDecimalOf_iff]
  constructor
  · rintro ⟨pattern, value⟩
    refine String.toList_inj.1 ?_
    have digits := (toDigits_ofDigitChars pattern).2
    rw [printed, ← digits]
    rw [bigInt, Nat.cast_inj] at value
    rw [value]
  · rintro rfl
    refine ⟨?_, ?_⟩
    · rw [POSITIVE_INTEGER, printed]
      exact isPositiveDecimal_toDigits (Int.natCast_pos.1 pos)
    · rw [bigInt, printed, Nat.ofDigitChars_ten_toDigits]

/-! ## Pipes -/

lemma parsePositiveId_eq_ok {s : String} {max n : ℤ} :
    parsePositiveId s max = .ok n ↔ IsDecimalOf s n ∧ n ≤ max := by
  rw [isDecimalOf_iff, parsePositiveId]
  by_cases pattern : POSITIVE_INTEGER s = true
  · simp only [pattern, Bool.not_true, Bool.false_or, decide_eq_true_eq, true_and]
    by_cases large : bigInt s > max
    · rw [if_pos large]
      refine iff_of_false nofun ?_
      rintro ⟨rfl, small⟩
      omega
    · rw [if_neg large, Except.ok.injEq]
      exact ⟨fun same => ⟨same, same ▸ not_lt.1 large⟩, And.left⟩
  · refine iff_of_false ?_ fun ⟨⟨passes, _⟩, _⟩ => pattern passes
    rw [if_pos (by simp [pattern])]
    nofun

lemma parsePositiveId_eq_error {s : String} {max : ℤ} {e : BadRequestException}
    (failed : parsePositiveId s max = .error e) : e = invalidId := by
  unfold parsePositiveId at failed
  split at failed
  · exact (Except.error.inj failed).symm
  · cases failed

/-- The pipe accepts the decimals up to the bound, each for its number, and parsing
inverts printing. -/
structure ExactPipe {α : Type} (transform : String → Except BadRequestException α) (bound : ℤ)
    (value : ℤ → α) : Prop where
  accepts : ∀ s a, transform s = .ok a ↔
    ∃ n, a = value n ∧ IsDecimalOf s n ∧ 1 ≤ n ∧ n ≤ bound
  rejects : ∀ s, (∀ n, ¬ (IsDecimalOf s n ∧ 1 ≤ n ∧ n ≤ bound)) → transform s = .error invalidId
  parses : ∀ n, 1 ≤ n → n ≤ bound → transform (toJSON n) = .ok (value n)
  prints : ∀ s a, transform s = .ok a → ∃ n, a = value n ∧ toJSON n = s

lemma parsePositiveId_exact (max : ℤ) :
    ExactPipe (fun s => parsePositiveId s max) max id where
  accepts s n := by
    rw [parsePositiveId_eq_ok]
    constructor
    · rintro ⟨decimal, small⟩
      exact ⟨n, rfl, decimal, decimal.pos, small⟩
    · rintro ⟨_, rfl, decimal, -, small⟩
      exact ⟨decimal, small⟩
  rejects s none := by
    cases parsed : parsePositiveId s max with
    | error e => rw [parsePositiveId_eq_error parsed]
    | ok n =>
      obtain ⟨decimal, small⟩ := parsePositiveId_eq_ok.1 parsed
      exact absurd ⟨decimal, decimal.pos, small⟩ (none n)
  parses n pos small := parsePositiveId_eq_ok.2 ⟨(isDecimalOf_iff_toJSON pos).2 rfl, small⟩
  prints s n parsed := by
    obtain ⟨decimal, -⟩ := parsePositiveId_eq_ok.1 parsed
    exact ⟨n, rfl, ((isDecimalOf_iff_toJSON decimal.pos).1 decimal).symm⟩

lemma ExactPipe.map {α β : Type} {transform : String → Except BadRequestException α} {bound : ℤ}
    {value : ℤ → α} (exact_ : ExactPipe transform bound value) (f : α → β) (value' : ℤ → β)
    (agree : ∀ n, 1 ≤ n → n ≤ bound → f (value n) = value' n) :
    ExactPipe (fun s => (transform s).map f) bound value' where
  accepts s b := by
    constructor
    · intro parsed
      cases inner : transform s with
      | error e => simp [inner, Except.map] at parsed
      | ok a =>
        obtain ⟨n, rfl, decimal, pos, small⟩ := (exact_.accepts s a).1 inner
        rw [inner] at parsed
        exact ⟨n, (Except.ok.inj parsed).symm.trans (agree n pos small), decimal, pos, small⟩
    · rintro ⟨n, rfl, decimal, pos, small⟩
      rw [(exact_.accepts s _).2 ⟨n, rfl, decimal, pos, small⟩, ← agree n pos small]
      rfl
  rejects s none := by
    rw [exact_.rejects s none]
    rfl
  parses n pos small := by
    rw [exact_.parses n pos small, ← agree n pos small]
    rfl
  prints s b parsed := by
    cases inner : transform s with
    | error e => simp [inner, Except.map] at parsed
    | ok a =>
      obtain ⟨n, rfl, decimal, pos, small⟩ := (exact_.accepts s a).1 inner
      rw [inner] at parsed
      exact ⟨n, (Except.ok.inj parsed).symm.trans (agree n pos small),
        ((isDecimalOf_iff_toJSON decimal.pos).1 decimal).symm⟩

/-- Up to `PG_INT_MAX` the conversion to a number is exact. -/
lemma number_exact {n : ℤ} (pos : 1 ≤ n) (small : n ≤ PG_INT_MAX) :
    number n = .finite n.toNat ∧ JsNumber.toText (number n) = toJSON n := by
  obtain ⟨k, rfl⟩ := Int.eq_ofNat_of_zero_le (zero_le_one.trans pos)
  have safe : k ≤ JsNumber.MAX_SAFE_INTEGER := by
    unfold PG_INT_MAX at small
    unfold JsNumber.MAX_SAFE_INTEGER
    omega
  have exactly : number k = .finite k := JsNumber.ofNat_safe safe
  rw [exactly, JsNumber.toText_safe safe]
  exact ⟨rfl, rfl⟩

/-- The pipes accept the ids that a column can hold, each in the one spelling that the
answers use. -/
theorem id_pipes_exact :
    ExactPipe ParseBigIntIdPipe.transform (2 ^ 63 - 1) id ∧
      ExactPipe ParseIntIdPipe.transform (2 ^ 31 - 1) (fun n => .finite n.toNat) ∧
      ∀ s x, ParseIntIdPipe.transform s = .ok x → x.toText = s := by
  have int : ExactPipe ParseIntIdPipe.transform PG_INT_MAX (fun n => .finite n.toNat) :=
    (parsePositiveId_exact PG_INT_MAX).map number _ fun n pos small =>
      (number_exact pos small).1
  refine ⟨parsePositiveId_exact PG_BIGINT_MAX, int, fun s x parsed => ?_⟩
  obtain ⟨n, rfl, decimal, pos, small⟩ := (int.accepts s x).1 parsed
  obtain ⟨exactly, printed⟩ := number_exact pos small
  rw [← exactly, printed, ← (isDecimalOf_iff_toJSON pos).1 decimal]

theorem id_pipes_exact_42 : ParseIntIdPipe.transform (toJSON 42) = .ok (.finite 42) ∧
    ParseBigIntIdPipe.transform (toJSON 42) = .ok 42 ∧
    JsNumber.toText (.finite 42) = toJSON 42 :=
  have parsed := id_pipes_exact.2.1.parses 42 (by decide) (by decide)
  ⟨parsed, id_pipes_exact.1.parses 42 (by decide) (by decide),
    id_pipes_exact.2.2 _ _ parsed⟩

example : ParseBigIntIdPipe.transform "9223372036854775808" = .error invalidId := by decide +kernel

end BajaValle
