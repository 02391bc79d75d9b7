import BajaValle.JsNumber
import Mathlib.Data.List.Induction

/-!
# Decimal texts and the numbers they denote

A positive decimal is the text of exactly one positive number. Reading it as a
number of the runtime loses nothing up to `MAX_SAFE_INTEGER` and never gives a
safe number for a greater one.
-/

namespace BajaValle

lemma isDigit_eq {c : Char} (h : c.isDigit = true) : ∃ d, d < 10 ∧ c = d.digitChar := by
  have digit : ∀ d, d < 10 → Char.ofNat (48 + d) = d.digitChar := by decide
  have bounds : 48 ≤ c.toNat ∧ c.toNat ≤ 57 := Char.isDigit_iff_toNat.mp h
  refine ⟨c.toNat - 48, by omega, ?_⟩
  rw [← digit _ (by omega), Nat.add_sub_cancel' bounds.1, Char.ofNat_toNat]

lemma isPositiveDecimal_all {ds : List Char} (decimal : isPositiveDecimal ds = true) :
    ∀ c ∈ ds, c.isDigit = true := by
  cases ds with
  | nil => simp
  | cons d ds =>
    simp only [isPositiveDecimal, Bool.and_eq_true, List.all_eq_true] at decimal
    exact List.forall_mem_cons.mpr ⟨decimal.1.2, decimal.2⟩

lemma isPositiveDecimal_digit {ds : List Char} {c : Char}
    (decimal : isPositiveDecimal (ds ++ [c]) = true) : c.isDigit = true := by
  cases ds with
  | nil =>
    simp only [List.nil_append, isPositiveDecimal, Bool.and_eq_true] at decimal
    exact decimal.1.2
  | cons d ds =>
    simp only [List.cons_append, isPositiveDecimal, Bool.and_eq_true, List.all_eq_true] at decimal
    exact decimal.2 c (by simp)

lemma isPositiveDecimal_init {ds : List Char} {c : Char} (nonempty : ds ≠ [])
    (decimal : isPositiveDecimal (ds ++ [c]) = true) : isPositiveDecimal ds = true := by
  cases ds with
  | nil => exact absurd rfl nonempty
  | cons d ds =>
    simp only [List.cons_append, isPositiveDecimal, Bool.and_eq_true, List.all_eq_true] at decimal ⊢
    exact ⟨decimal.1, fun e he => decimal.2 e (by simp [he])⟩

/-- The number of a positive decimal is positive and has it for its text. -/
theorem toDigits_ofDigitChars {ds : List Char} (decimal : isPositiveDecimal ds = true) :
    0 < Nat.ofDigitChars 10 ds 0 ∧ Nat.toDigits 10 (Nat.ofDigitChars 10 ds 0) = ds := by
  induction ds using List.reverseRecOn with
  | nil => cases decimal
  | append_singleton ds c ih =>
    obtain ⟨d, small, rfl⟩ := isDigit_eq (isPositiveDecimal_digit decimal)
    rw [Nat.ofDigitChars_append, Nat.ofDigitChars_cons_digitChar_of_lt_ten small,
      Nat.ofDigitChars_nil]
    by_cases first : ds = []
    · subst first
      have nonzero : d ≠ 0 := by
        rintro rfl
        cases decimal
      simp only [Nat.ofDigitChars_nil, Nat.mul_zero, Nat.zero_add, List.nil_append]
      exact ⟨Nat.pos_of_ne_zero nonzero, Nat.toDigits_of_lt_base small⟩
    · obtain ⟨pos, text⟩ := ih (isPositiveDecimal_init first decimal)
      refine ⟨by omega, ?_⟩
      rw [← Nat.toDigits_append_toDigits (by omega) pos small, text,
        Nat.toDigits_of_lt_base small]

namespace JsNumber

/-- What is rounded to a safe number was that number. -/
theorem ofNat_eq_safe {n m : Nat} (h : ofNat n = .finite m) (safe : m ≤ MAX_SAFE_INTEGER) :
    n = m := by
  by_cases small : n ≤ MAX_SAFE_INTEGER
  · rw [ofNat_safe small] at h
    cases h
    rfl
  have large : 2 ^ 53 ≤ n := by
    unfold MAX_SAFE_INTEGER at small
    omega
  have bits : 53 ≤ n.log2 := (Nat.le_log2 (by omega)).mpr large
  unfold ofNat at h
  generalize OVERFLOW = bound at h
  dsimp only at h
  obtain ⟨q, above, rfl⟩ : ∃ q, n / 2 ^ (n.log2 + 1 - 53) ≤ q ∧
      q * 2 ^ (n.log2 + 1 - 53) = m := by
    split at h <;> split at h
    · exact ⟨_, Nat.le_succ _, JsNumber.finite.inj h⟩
    · cases h
    · exact ⟨_, Nat.le_refl _, JsNumber.finite.inj h⟩
    · cases h
  have power : 2 ^ 52 * 2 ^ (n.log2 + 1 - 53) = 2 ^ n.log2 := by
    rw [← Nat.pow_add]
    congr 1
    omega
  have lower : 2 ^ 52 ≤ n / 2 ^ (n.log2 + 1 - 53) := by
    rw [Nat.le_div_iff_mul_le (Nat.two_pow_pos _), power]
    exact Nat.log2_self_le (by omega)
  have scaled := Nat.mul_le_mul_right (2 ^ (n.log2 + 1 - 53)) (Nat.le_trans lower above)
  have units : 2 ^ 53 ≤ 2 ^ n.log2 := Nat.pow_le_pow_right (by omega) bits
  rw [power] at scaled
  unfold MAX_SAFE_INTEGER at safe
  omega

lemma ofDigits_safe {ds : List Char} {m : Nat} (decimal : isPositiveDecimal ds = true)
    (h : ofDigits ds = .finite m) (safe : m ≤ MAX_SAFE_INTEGER) : ds = Nat.toDigits 10 m := by
  rw [← ofNat_eq_safe h safe]
  exact (toDigits_ofDigitChars decimal).2.symm

end JsNumber
end BajaValle
