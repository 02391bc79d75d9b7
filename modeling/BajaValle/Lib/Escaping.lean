import Mathlib.Tactic.Lemma
import Mathlib.Data.List.Infix

/-!
# Escaping symbols by codes

A table gives some symbols a code each. Every code begins with one mark, which has a
code itself and occurs nowhere else in codes, and no code begins another one. Such
an escaping is undone by decoding from left to right, once.
-/

namespace Escaping

structure Table (α : Type) where
  mark : α
  codes : List (α × List α)
  mark_coded : ∃ e ∈ codes, e.1 = mark
  headed : ∀ e ∈ codes, ∃ rest, e.2 = mark :: rest ∧ mark ∉ rest
  prefixFree : ∀ e ∈ codes, ∀ f ∈ codes, e.2 <+: f.2 → e = f

/-- A symbol of a sequence of parts lies in one of them. -/
lemma split_flatMap {α β : Type} {f : β → List α} {s : List β} {c : α} {before after : List α}
    (split : s.flatMap f = before ++ c :: after) :
    ∃ a ∈ s, ∃ front back rest, f a = front ++ c :: back ∧ after = back ++ rest := by
  induction s generalizing before with
  | nil => cases before <;> cases split
  | cons a s ih =>
    rw [List.flatMap_cons, List.append_eq_append_iff] at split
    rcases split with ⟨middle, rfl, inRest⟩ | ⟨middle, first, inFirst⟩
    · obtain ⟨b, hb, found⟩ := ih inRest
      exact ⟨b, List.mem_cons_of_mem a hb, found⟩
    · cases middle with
      | nil =>
        have whole : s.flatMap f = [] ++ c :: after := inFirst.symm
        obtain ⟨b, hb, found⟩ := ih whole
        exact ⟨b, List.mem_cons_of_mem a hb, found⟩
      | cons d middle =>
        rw [List.cons_append, List.cons.injEq] at inFirst
        obtain ⟨rfl, rfl⟩ := inFirst
        exact ⟨a, List.mem_cons_self, before, middle, _, first, rfl⟩

variable {α : Type} [DecidableEq α] (T : Table α)

def escapeSymbol (c : α) : List α := ((T.codes.find? (·.1 = c)).map Prod.snd).getD [c]

def escape (s : List α) : List α := s.flatMap (escapeSymbol T)

/-- Decode what follows after `skip` symbols of a code already read. -/
def unescapeFrom : (skip : Nat) → List α → List α
  | _, [] => []
  | skip + 1, _ :: rest => unescapeFrom skip rest
  | 0, c :: rest =>
    match T.codes.find? (·.2.isPrefixOf (c :: rest)) with
    | some e => e.1 :: unescapeFrom (e.2.length - 1) rest
    | none => c :: unescapeFrom 0 rest

def unescape (s : List α) : List α := unescapeFrom T 0 s

section Symbols
variable {T} {c : α}

/-- A symbol is replaced by its code or has none and stands for itself. -/
lemma escapeSymbol_cases (c : α) :
    (c, escapeSymbol T c) ∈ T.codes ∨ (escapeSymbol T c = [c] ∧ ∀ e ∈ T.codes, e.1 ≠ c) := by
  unfold escapeSymbol
  cases found : T.codes.find? (·.1 = c) with
  | none => exact .inr ⟨rfl, by simpa using found⟩
  | some e =>
    obtain rfl : e.1 = c := by simpa using List.find?_some found
    exact .inl (List.mem_of_find?_eq_some found)

lemma unescapeFrom_skip (code rest : List α) :
    unescapeFrom T code.length (code ++ rest) = unescapeFrom T 0 rest := by
  induction code with
  | nil => rfl
  | cons c code ih => exact ih

lemma unescape_code {code rest : List α} (coded : (c, code) ∈ T.codes) :
    unescapeFrom T 0 (code ++ rest) = c :: unescapeFrom T 0 rest := by
  obtain ⟨tail, whole, _⟩ := T.headed _ coded
  obtain rfl : code = T.mark :: tail := whole
  rw [List.cons_append, unescapeFrom]
  have unique : ∀ e ∈ T.codes, e.2.isPrefixOf (T.mark :: (tail ++ rest)) = true →
      e = (c, T.mark :: tail) := by
    intro e he starts
    rw [List.isPrefixOf_iff_prefix, ← List.cons_append] at starts
    rcases List.prefix_or_prefix_of_prefix starts (List.prefix_append _ rest) with short | long
    · exact T.prefixFree e he _ coded short
    · exact (T.prefixFree _ coded e he long).symm
  cases found : T.codes.find? (·.2.isPrefixOf (T.mark :: (tail ++ rest))) with
  | none =>
    have none := List.find?_eq_none.mp found _ coded
    rw [List.isPrefixOf_iff_prefix, ← List.cons_append] at none
    exact absurd (List.prefix_append _ rest) none
  | some e =>
    have starts : e.2.isPrefixOf (T.mark :: (tail ++ rest)) = true := by
      simpa using List.find?_some found
    rw [unique e (List.mem_of_find?_eq_some found) starts]
    exact congrArg (c :: ·) (unescapeFrom_skip tail rest)

lemma unescape_plain {rest : List α} (plain : c ≠ T.mark) :
    unescapeFrom T 0 (c :: rest) = c :: unescapeFrom T 0 rest := by
  have none : T.codes.find? (·.2.isPrefixOf (c :: rest)) = none := by
    refine List.find?_eq_none.mpr fun e he starts => ?_
    obtain ⟨tail, whole, _⟩ := T.headed e he
    rw [whole, List.isPrefixOf_iff_prefix, List.cons_prefix_cons] at starts
    exact plain starts.1.symm
  rw [unescapeFrom, none]

lemma unescape_symbol (c : α) (rest : List α) :
    unescapeFrom T 0 (escapeSymbol T c ++ rest) = c :: unescapeFrom T 0 rest := by
  rcases escapeSymbol_cases (T := T) c with coded | ⟨same, none⟩
  · exact unescape_code coded
  · obtain ⟨e, he, isMark⟩ := T.mark_coded
    rw [same]
    exact unescape_plain fun eq => none e he (isMark.trans eq.symm)

/-- Decoding undoes escaping. -/
theorem unescape_escape (s : List α) : unescape T (escape T s) = s := by
  induction s with
  | nil => rfl
  | cons c s ih =>
    rw [escape, List.flatMap_cons, unescape, unescape_symbol]
    exact congrArg (c :: ·) ih

/-- A symbol with a code that occurs in no code is not left. -/
lemma notMem_escapeSymbol {d : α} (coded : ∃ e ∈ T.codes, e.1 = d)
    (absent : ∀ e ∈ T.codes, d ∉ e.2) (c : α) : d ∉ escapeSymbol T c := by
  rcases escapeSymbol_cases (T := T) c with code | ⟨same, none⟩
  · exact absent _ code
  · obtain ⟨e, he, rfl⟩ := coded
    rw [same, List.mem_singleton]
    exact none e he

/-- Each mark in an escaped symbol begins its code. -/
lemma mark_begins_code {before after : List α}
    (split : escapeSymbol T c = before ++ T.mark :: after) :
    before = [] ∧ (c, T.mark :: after) ∈ T.codes := by
  rcases escapeSymbol_cases (T := T) c with coded | ⟨same, none⟩
  · obtain ⟨tail, whole, once⟩ := T.headed _ coded
    rw [split] at coded whole
    cases before with
    | nil => exact ⟨rfl, coded⟩
    | cons d before =>
      rw [List.cons_append, List.cons.injEq] at whole
      exact absurd (whole.2 ▸ List.mem_append_right before List.mem_cons_self) once
  · obtain ⟨e, he, isMark⟩ := T.mark_coded
    rw [same] at split
    cases before with
    | nil => exact absurd (isMark.trans (List.cons.inj split).1.symm) (none e he)
    | cons d before => cases before <;> cases split

end Symbols
end Escaping
