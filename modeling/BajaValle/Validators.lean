import Mathlib.Algebra.Order.Field.Rat
import Mathlib.Data.Rat.Lemmas

/-!
# Validators

The checks that the bodies of requests pass before a handler sees them.
-/

namespace BajaValle

/-- The checks of `class-validator` on texts and on decimal amounts. -/
structure ClassValidator where
  isEmail : String → Bool
  isUrl : String → Bool
  maxLength : String → Nat → Bool
  isNumber (maxDecimalPlaces : Nat) (amount : ℚ) : Bool
  isInt : ℚ → Bool
  isNumber_places : ∀ places amount, isNumber places amount = true →
    (amount * 10 ^ places).den = 1
  isInt_whole : ∀ amount, isInt amount = true → amount.den = 1

/-- These checks of texts, and of numbers no more than what is asked. -/
def ClassValidator.plain (isEmail isUrl : String → Bool) : ClassValidator where
  isEmail
  isUrl
  maxLength text bound := decide (text.length ≤ bound)
  isNumber places amount := decide ((amount * 10 ^ places).den = 1)
  isInt amount := decide (amount.den = 1)
  isNumber_places _ _ := of_decide_eq_true
  isInt_whole _ := of_decide_eq_true

end BajaValle
