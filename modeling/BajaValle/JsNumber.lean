import Mathlib.Tactic.Lemma
import Mathlib.Algebra.Group.Nat.Defs
import Mathlib.Data.List.DropRight
import Mathlib.Logic.Basic

/-!
# Non-negative integral numbers of the runtime

A number read from decimal digits is rounded to 53 significant bits, ties to
even, and overflows to `Infinity`. Printing takes the shortest digits that read
back as the same number and switches to exponents at 10^21. Up to
`MAX_SAFE_INTEGER` both are exact, which is all that safe versions and ids use.
-/

namespace BajaValle

inductive JsNumber where
  | finite (n : Nat)
  | infinity
  deriving DecidableEq, Repr

/-- Decimal text without sign, leading zero or exponent: `[1-9]\d*` -/
def isPositiveDecimal : List Char → Bool
  | [] => false
  | c :: rest => c != '0' && c.isDigit && rest.all Char.isDigit

lemma isPositiveDecimal_toDigits {n : Nat} (h : 0 < n) :
    isPositiveDecimal (Nat.toDigits 10 n) = true := by
  have digits : ∀ c ∈ Nat.toDigits 10 n, c.isDigit = true := fun c hc =>
    Nat.isDigit_of_mem_toDigits (by omega) (by omega) hc
  have digitNe : ∀ d, d < 10 → 0 < d → d.digitChar ≠ '0' := by decide
  have lead : ∀ m, 0 < m → ∃ c rest, Nat.toDigits 10 m = c :: rest ∧ c ≠ '0' := by
    intro m
    induction m using Nat.strongRecOn with
    | ind m ih =>
      intro hm
      by_cases small : m < 10
      · exact ⟨m.digitChar, [], Nat.toDigits_of_lt_base small, digitNe m small hm⟩
      · obtain ⟨c, rest, whole, nonzero⟩ := ih (m / 10) (by omega) (by omega)
        exact ⟨c, rest ++ [(m % 10).digitChar],
          by rw [Nat.toDigits_of_base_le (by omega) (by omega), whole, List.cons_append], nonzero⟩
  obtain ⟨c, rest, whole, nonzero⟩ := lead n h
  rw [whole] at digits ⊢
  simp only [isPositiveDecimal, Bool.and_eq_true, bne_iff_ne, ne_eq, List.all_eq_true]
  exact ⟨⟨nonzero, digits c List.mem_cons_self⟩, fun d hd => digits d (List.mem_cons_of_mem c hd)⟩

namespace JsNumber

def MAX_SAFE_INTEGER : Nat := 2 ^ 53 - 1

/-- Where doubles end. -/
def OVERFLOW : Nat := 2 ^ 1024

/-- The nearest double, ties to even. -/
def ofNat (n : Nat) : JsNumber :=
  let unit := 2 ^ (n.log2 + 1 - 53)
  let q := n / unit
  let twice := n % unit * 2
  let m := if twice > unit ∨ twice = unit ∧ q % 2 = 1 then q + 1 else q
  if m * unit < OVERFLOW then .finite (m * unit) else .infinity

/-- `Number(digits)` -/
def ofDigits (digits : List Char) : JsNumber := ofNat (Nat.ofDigitChars 10 digits 0)

/-- The nearest number of `k` significant digits to a number of `d` digits that
reads back as it; one digit more if it is the power of ten above. -/
def significand? (n d k : Nat) : Option Nat :=
  let unit := 10 ^ (d - k)
  let low := n / unit
  let near := if n % unit * 2 ≤ unit then [low, low + 1] else [low + 1, low]
  near.find? fun s => ofNat (s * unit) = .finite n

/-- `String(x)` -/
def toText : JsNumber → String
  | .infinity => "Infinity"
  | .finite n =>
    if n ≤ MAX_SAFE_INTEGER then toString n
    else
      let d := (Nat.toDigits 10 n).length
      let found := (List.range d).findSome? fun k =>
        (significand? n d (k + 1)).map fun s => (Nat.toDigits 10 s, d - (k + 1))
      match found with
      | none => toString n
      | some (digits, zeros) =>
        if n < 10 ^ 21 then String.ofList (digits ++ List.replicate zeros '0')
        else
          let mantissa := match digits.rdropWhile (· = '0') with
            | [] => []
            | [c] => [c]
            | c :: rest => c :: '.' :: rest
          String.ofList mantissa ++ "e+" ++ toString (digits.length + zeros - 1)

/-- `Math.max(a, b)` -/
def max : JsNumber → JsNumber → JsNumber
  | .finite a, .finite b => .finite (Nat.max a b)
  | _, _ => .infinity

lemma max_eq (a b : JsNumber) : a.max b = a ∨ a.max b = b := by
  cases a with
  | finite n => cases b with
    | finite m =>
      rcases Nat.le_total n m with h | h
      · right
        simp [max, Nat.max_eq_right h]
      · left
        simp [max, Nat.max_eq_left h]
    | infinity => exact .inr rfl
  | infinity => exact .inl rfl

theorem ofNat_safe {n : Nat} (h : n ≤ MAX_SAFE_INTEGER) : ofNat n = .finite n := by
  have small : n < 2 ^ 53 := by
    unfold MAX_SAFE_INTEGER at h
    omega
  have bits : n.log2 + 1 - 53 = 0 := by
    by_cases hn : n = 0
    · simp [hn]
    · have := (Nat.log2_lt hn).mpr small
      omega
  have fits : n < OVERFLOW := Nat.lt_of_lt_of_le small (by decide +kernel)
  simp [ofNat, bits, Nat.mod_one, fits]

theorem toText_safe {n : Nat} (h : n ≤ MAX_SAFE_INTEGER) : toText (.finite n) = toString n := by
  simp [toText, h]

/-- A safe integer is read back from its own decimal text. -/
theorem ofDigits_toText {n : Nat} (h : n ≤ MAX_SAFE_INTEGER) :
    ofDigits (toText (.finite n)).toList = .finite n := by
  rw [toText_safe h, Nat.toString_eq_repr, Nat.toList_repr, ofDigits,
    Nat.ofDigitChars_ten_toDigits, ofNat_safe h]

example : toText (ofNat (10 ^ 21)) = "1e+21" := by decide +kernel

example : toText (ofNat (10 ^ 23)) = "1e+23" := by decide +kernel

end JsNumber
end BajaValle
