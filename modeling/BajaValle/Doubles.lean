import BajaValle.Decimals

/-!
# Rounding and printing of numbers

Rounding to the nearest double keeps the order and leaves exactly the doubles
alone: numbers of at most 53 significant bits. A number is printed in plain digits
below 10^21, and those digits read back as the same number.
-/

namespace BajaValle.JsNumber

/-- Spacing of doubles around a number. -/
def unitOf (n : Nat) : Nat := 2 ^ (n.log2 + 1 - 53)

/-- Multiple of the spacing nearest to a number, ties to even. -/
def significandOf (n : Nat) : Nat :=
  let q := n / unitOf n
  let twice := n % unitOf n * 2
  if twice > unitOf n ∨ twice = unitOf n ∧ q % 2 = 1 then q + 1 else q

def nearest (n : Nat) : Nat := significandOf n * unitOf n

/-- At most 53 significant bits. -/
def IsDouble (n : Nat) : Prop := n < OVERFLOW ∧ ∃ m e, m < 2 ^ 53 ∧ n = m * 2 ^ e

section Rounding
variable {n m : Nat}

lemma ofNat_eq (n : Nat) :
    ofNat n = if nearest n < OVERFLOW then .finite (nearest n) else .infinity := rfl

lemma unitOf_pos (n : Nat) : 0 < unitOf n := Nat.two_pow_pos _

lemma significandOf_bounds (n : Nat) :
    n / unitOf n ≤ significandOf n ∧ significandOf n ≤ n / unitOf n + 1 := by
  unfold significandOf
  dsimp only
  split <;> omega

/-- On one spacing, rounding keeps the order. -/
lemma significandOf_mono (same : unitOf n = unitOf m) (le : n ≤ m) :
    significandOf n ≤ significandOf m := by
  have quotients : n / unitOf n ≤ m / unitOf m := same ▸ Nat.div_le_div_right le
  rcases Nat.lt_or_eq_of_le quotients with below | level
  · have := significandOf_bounds n
    have := significandOf_bounds m
    omega
  · have rests : n % unitOf n ≤ m % unitOf m := by
      have first := Nat.div_add_mod n (unitOf n)
      have second := Nat.div_add_mod m (unitOf m)
      rw [← level, ← same] at second
      rw [← same]
      omega
    unfold significandOf
    dsimp only
    rw [level, ← same] at *
    split <;> split <;> omega

lemma nearest_le_two_pow (n : Nat) : nearest n ≤ 2 ^ (n.log2 + 1) := by
  have below : n < 2 ^ (n.log2 + 1) := Nat.lt_log2_self
  by_cases small : n.log2 + 1 ≤ 53
  · have unit : unitOf n = 1 := by simp [unitOf, Nat.sub_eq_zero_of_le small]
    simp only [nearest, significandOf, unit, Nat.mod_one, Nat.div_one, Nat.mul_one]
    simp only [Nat.zero_mul, gt_iff_lt, Nat.not_lt_zero, Nat.zero_ne_one, false_and, or_self,
      if_false]
    omega
  · have power : 2 ^ 53 * unitOf n = 2 ^ (n.log2 + 1) := by
      rw [unitOf, ← Nat.pow_add]
      congr 1
      omega
    have quotient : n / unitOf n < 2 ^ 53 := by
      rw [Nat.div_lt_iff_lt_mul (unitOf_pos n), power]
      exact below
    have := significandOf_bounds n
    rw [← power]
    exact Nat.mul_le_mul_right _ (by omega)

lemma two_pow_le_nearest (positive : 0 < n) : 2 ^ n.log2 ≤ nearest n := by
  have above : 2 ^ n.log2 ≤ n := Nat.log2_self_le (by omega)
  have divides : unitOf n ∣ 2 ^ n.log2 := Nat.pow_dvd_pow 2 (by omega)
  have quotient : 2 ^ n.log2 / unitOf n ≤ significandOf n :=
    Nat.le_trans (Nat.div_le_div_right above) (significandOf_bounds n).1
  calc 2 ^ n.log2 = 2 ^ n.log2 / unitOf n * unitOf n := (Nat.div_mul_cancel divides).symm
    _ ≤ nearest n := Nat.mul_le_mul_right _ quotient

theorem nearest_mono (le : n ≤ m) : nearest n ≤ nearest m := by
  by_cases zero : n = 0
  · subst zero
    exact Nat.zero_le _
  have logs : n.log2 ≤ m.log2 := by
    rw [Nat.le_log2 (by omega)]
    exact Nat.le_trans (Nat.log2_self_le zero) le
  rcases Nat.lt_or_eq_of_le logs with below | level
  · calc nearest n ≤ 2 ^ (n.log2 + 1) := nearest_le_two_pow n
      _ ≤ 2 ^ m.log2 := Nat.pow_le_pow_right (by omega) below
      _ ≤ nearest m := two_pow_le_nearest (by omega)
  · have units : unitOf n = unitOf m := by rw [unitOf, level, unitOf]
    rw [nearest, nearest, units]
    exact Nat.mul_le_mul_right _ (significandOf_mono units le)

lemma max_ofNat_right (le : n ≤ m) : (ofNat n).max (ofNat m) = ofNat m := by
  have rounded := nearest_mono le
  rw [ofNat_eq, ofNat_eq]
  generalize OVERFLOW = bound
  by_cases fits : nearest m < bound
  · rw [if_pos fits, if_pos (by omega), JsNumber.max]
    exact congrArg _ (Nat.max_eq_right rounded)
  · rw [if_neg fits]
    split <;> rfl

lemma max_ofNat_left (le : m ≤ n) : (ofNat n).max (ofNat m) = ofNat n := by
  have rounded := nearest_mono le
  rw [ofNat_eq, ofNat_eq]
  generalize OVERFLOW = bound
  by_cases fits : nearest n < bound
  · rw [if_pos fits, if_pos (by omega), JsNumber.max]
    exact congrArg _ (Nat.max_eq_left rounded)
  · rw [if_neg fits]
    rfl

lemma nearest_eq_self_iff : nearest n = n ↔ ∃ m e, m < 2 ^ 53 ∧ n = m * 2 ^ e := by
  have below : n < 2 ^ (n.log2 + 1) := Nat.lt_log2_self
  constructor
  · intro fixed
    have divides : unitOf n ∣ n := ⟨significandOf n, by rw [Nat.mul_comm]; exact fixed.symm⟩
    refine ⟨n / unitOf n, n.log2 + 1 - 53, ?_, (Nat.div_mul_cancel divides).symm⟩
    rw [Nat.div_lt_iff_lt_mul (unitOf_pos n), unitOf, ← Nat.pow_add]
    exact Nat.lt_of_lt_of_le below (Nat.pow_le_pow_right (by omega) (by omega))
  · rintro ⟨m, e, bits, whole⟩
    have divides : unitOf n ∣ n := by
      by_cases zero : n = 0
      · rw [zero]
        exact Nat.dvd_zero _
      have bound : n.log2 < 53 + e := by
        rw [Nat.log2_lt zero, whole, Nat.pow_add]
        exact Nat.mul_lt_mul_of_pos_right bits (Nat.two_pow_pos e)
      have shift : unitOf n ∣ m * 2 ^ e :=
        Nat.dvd_mul_left_of_dvd (Nat.pow_dvd_pow 2 (by omega)) m
      rwa [← whole] at shift
    simp only [nearest, significandOf, Nat.mod_eq_zero_of_dvd divides, Nat.zero_mul]
    have positive := unitOf_pos n
    rw [if_neg (by omega), Nat.div_mul_cancel divides]

/-- Rounding leaves exactly the doubles alone. -/
theorem ofNat_exact_iff : ofNat n = .finite n ↔ IsDouble n := by
  rw [ofNat_eq, IsDouble, ← nearest_eq_self_iff]
  generalize OVERFLOW = bound
  split
  · simp only [finite.injEq]
    omega
  · simp only [reduceCtorEq, false_iff]
    omega

lemma nearest_pos (positive : 0 < n) : 0 < nearest n :=
  Nat.lt_of_lt_of_le (Nat.two_pow_pos _) (two_pow_le_nearest positive)

/-- What rounding gives is a double. -/
lemma isDouble_of_ofNat (h : ofNat n = .finite m) : IsDouble m := by
  rw [ofNat_eq] at h
  split_ifs at h with fits
  obtain rfl := finite.inj h
  refine ⟨fits, ?_⟩
  have quotient : n / unitOf n < 2 ^ 53 := by
    rw [Nat.div_lt_iff_lt_mul (unitOf_pos n), unitOf, ← Nat.pow_add]
    exact Nat.lt_of_lt_of_le Nat.lt_log2_self (Nat.pow_le_pow_right (by omega) (by omega))
  have bounds := significandOf_bounds n
  by_cases carried : significandOf n = 2 ^ 53
  · refine ⟨1, 53 + (n.log2 + 1 - 53), by omega, ?_⟩
    rw [nearest, carried, unitOf, Nat.pow_add, Nat.one_mul]
  · exact ⟨significandOf n, n.log2 + 1 - 53, by omega, rfl⟩

end Rounding

section Printing
variable {n m : Nat}

lemma toDigits_mul_ten_pow {s : Nat} (positive : 0 < s) (zeros : Nat) :
    Nat.toDigits 10 (s * 10 ^ zeros) = Nat.toDigits 10 s ++ List.replicate zeros '0' := by
  induction zeros with
  | zero => simp
  | succ zeros ih =>
    have scaled : 0 < s * 10 ^ zeros := Nat.mul_pos positive (Nat.pow_pos (by omega))
    have last := Nat.toDigits_append_toDigits (b := 10) (d := 0) (by omega) scaled (by omega)
    rw [List.replicate_succ', ← List.append_assoc, ← ih, Nat.pow_succ, ← Nat.mul_assoc,
      Nat.mul_comm _ 10]
    exact last.symm

/-- The digits of a double, once shortened, still read back as it. -/
lemma exists_significand (double : IsDouble n) :
    ∃ s zeros, ofNat (s * 10 ^ zeros) = .finite n ∧
      (List.range (Nat.toDigits 10 n).length).findSome? (fun k =>
        (significand? n (Nat.toDigits 10 n).length (k + 1)).map fun s =>
          (Nat.toDigits 10 s, (Nat.toDigits 10 n).length - (k + 1))) =
        some (Nat.toDigits 10 s, zeros) := by
  have kept : ofNat n = .finite n := ofNat_exact_iff.mpr double
  generalize hd : (Nat.toDigits 10 n).length = d
  have nonempty : 0 < d := hd ▸ Nat.length_toDigits_pos
  have whole : significand? n d d = some n := by
    simp [significand?, Nat.mod_one, kept]
  cases found : (List.range d).findSome? fun k =>
      (significand? n d (k + 1)).map fun s => (Nat.toDigits 10 s, d - (k + 1)) with
  | none =>
    have none := List.findSome?_eq_none_iff.mp found (d - 1) (List.mem_range.mpr (by omega))
    rw [Nat.sub_add_cancel nonempty, whole] at none
    cases none
  | some text =>
    obtain ⟨k, _, taken⟩ := List.exists_of_findSome?_eq_some found
    obtain ⟨s, short, rfl⟩ := Option.map_eq_some_iff.mp taken
    exact ⟨s, d - (k + 1), by simpa using List.find?_some short, rfl⟩

/-- A double in plain digits reads back. -/
lemma toText_reads (double : IsDouble n) (positive : 0 < n) (plain : n < 10 ^ 21) :
    isPositiveDecimal (toText (.finite n)).toList = true ∧
      ofDigits (toText (.finite n)).toList = .finite n := by
  by_cases safe : n ≤ MAX_SAFE_INTEGER
  · refine ⟨?_, ofDigits_toText safe⟩
    rw [toText_safe safe, Nat.toString_eq_repr, Nat.toList_repr]
    exact isPositiveDecimal_toDigits positive
  obtain ⟨s, zeros, reads, found⟩ := exists_significand double
  have nonzero : 0 < s := by
    rcases Nat.eq_zero_or_pos s with rfl | nonzero
    · rw [Nat.zero_mul, ofNat_safe (Nat.zero_le _)] at reads
      exact absurd (finite.inj reads) (by omega)
    · exact nonzero
  have text : (toText (.finite n)).toList = Nat.toDigits 10 (s * 10 ^ zeros) := by
    simp only [toText, if_neg safe, found, if_pos plain, String.toList_ofList]
    exact (toDigits_mul_ten_pow nonzero zeros).symm
  rw [text, ofDigits, Nat.ofDigitChars_ten_toDigits]
  exact ⟨isPositiveDecimal_toDigits (Nat.mul_pos nonzero (Nat.pow_pos (by omega))), reads⟩

/-- From 10^21 on a double is printed with an exponent. -/
lemma toText_exponent (double : IsDouble n) (large : 10 ^ 21 ≤ n) :
    isPositiveDecimal (toText (.finite n)).toList = false := by
  have inexact : ¬ n ≤ MAX_SAFE_INTEGER := by
    unfold MAX_SAFE_INTEGER
    omega
  obtain ⟨s, zeros, _, found⟩ := exists_significand double
  rw [Bool.eq_false_iff]
  intro decimal
  have exponent : 'e' ∈ (toText (.finite n)).toList := by
    simp only [toText, if_neg inexact, found, if_neg (Nat.not_lt.mpr large), String.toList_append]
    simp
  exact absurd (isPositiveDecimal_all decimal 'e' exponent) (by decide)

/-- Numbers from here on are rounded to 10^21 or more. -/
def EXPONENT_FORM : Nat := 10 ^ 21 - 65536

lemma nearest_lt_iff : nearest n < 10 ^ 21 ↔ n < EXPONENT_FORM := by
  have below : nearest (EXPONENT_FORM - 1) < 10 ^ 21 := by decide +kernel
  have above : nearest EXPONENT_FORM = 10 ^ 21 := by decide +kernel
  constructor
  · intro small
    by_contra reached
    have := nearest_mono (Nat.not_lt.mp reached)
    omega
  · intro small
    exact Nat.lt_of_le_of_lt (nearest_mono (by omega)) below

/-- A number is printed as a decimal exactly when it is not rounded to 10^21 or more,
and then the decimal reads back. -/
theorem toText_ofNat (positive : 0 < n) :
    (isPositiveDecimal (toText (ofNat n)).toList = true ↔ n < EXPONENT_FORM) ∧
      (n < EXPONENT_FORM → ofDigits (toText (ofNat n)).toList = ofNat n) := by
  have fits : n < EXPONENT_FORM → nearest n < OVERFLOW := fun small =>
    Nat.lt_trans (nearest_lt_iff.mpr small) (by decide +kernel)
  by_cases finite : nearest n < OVERFLOW
  · have rounded : ofNat n = .finite (nearest n) := by rw [ofNat_eq, if_pos finite]
    have double := isDouble_of_ofNat rounded
    rw [rounded, ← nearest_lt_iff]
    by_cases plain : nearest n < 10 ^ 21
    · have reads := toText_reads double (nearest_pos positive) plain
      exact ⟨iff_of_true reads.1 plain, fun _ => reads.2⟩
    · have exponent := toText_exponent double (Nat.not_lt.mp plain)
      exact ⟨iff_of_false (by simp [exponent]) plain, fun small => absurd small plain⟩
  · have large : ¬ n < EXPONENT_FORM := fun small => finite (fits small)
    rw [ofNat_eq, if_neg finite]
    exact ⟨iff_of_false (by decide) large, fun small => absurd small large⟩

end Printing
end BajaValle.JsNumber
