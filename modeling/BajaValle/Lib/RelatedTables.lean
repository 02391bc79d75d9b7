import Mathlib.Data.List.Forall2

/-!
# Tables related row by row

Two tables whose rows a relation pairs off. A lookup finds related rows, and what
changes the rows of one key in both keeps them related. Rows that are told apart in one
table are told apart in the other.
-/

namespace RelatedTables

variable {α β κ : Type} {R : α → β → Prop} {xs : List α} {ys : List β}

/-! ## Rows and lookups -/

lemma exists_related (rows : List.Forall₂ R xs ys) {x : α} (hx : x ∈ xs) : ∃ y ∈ ys, R x y := by
  induction rows with
  | nil => cases hx
  | cons first _ ih =>
    rcases List.mem_cons.mp hx with rfl | hx
    · exact ⟨_, List.mem_cons_self, first⟩
    · obtain ⟨y, hy, related⟩ := ih hx
      exact ⟨y, List.mem_cons_of_mem _ hy, related⟩

/-- Each pair is of a row of the second table. -/
lemma related_mem (rows : List.Forall₂ R xs ys) : List.Forall₂ (fun x y => y ∈ ys ∧ R x y) xs ys :=
  ((List.forall₂_and_left ys xs).mpr ⟨fun _ hy => hy, rows.flip⟩).flip

lemma find?_related (rows : List.Forall₂ R xs ys) {p : α → Bool} {q : β → Bool}
    (alike : ∀ x y, R x y → p x = q y) : Option.Rel R (xs.find? p) (ys.find? q) := by
  induction rows with
  | nil => exact .none
  | @cons x y _ _ first _ ih =>
    rw [List.find?_cons, List.find?_cons, ← alike x y first]
    cases p x with
    | true => exact .some first
    | false => exact ih

lemma find?_only {p : α → Bool} {x : α} (hx : x ∈ xs) (holds : p x = true)
    (only : ∀ y ∈ xs, p y = true → y = x) : xs.find? p = some x := by
  cases found : xs.find? p with
  | none => exact absurd holds (List.find?_eq_none.mp found x hx)
  | some y => rw [only y (List.mem_of_find?_eq_some found) (List.find?_some found)]

/-! ## Rows told apart -/

/-- What tells related rows apart tells the others apart. -/
lemma pairwise_related (rows : List.Forall₂ R xs ys) {S : α → α → Prop} {T : β → β → Prop}
    (alike : ∀ x x' y y', R x y → R x' y' → T y y' → S x x') (pairs : ys.Pairwise T) :
    xs.Pairwise S := by
  induction rows with
  | nil => exact List.Pairwise.nil
  | cons first rest ih =>
    obtain ⟨here, pairs⟩ := List.pairwise_cons.mp pairs
    refine List.pairwise_cons.mpr ⟨fun x' hx => ?_, ih pairs⟩
    obtain ⟨y', hy, related⟩ := exists_related rest hx
    exact alike _ _ _ _ first related (here y' hy)

/-! ## Changes by key -/

section Edits
variable [DecidableEq κ] {id : κ}

/-- The rows of one key change alike. -/
lemma edit_related {key : α → κ} {key' : β → κ} {g : α → α} {f : β → β}
    (rows : List.Forall₂ R xs ys) (keys : ∀ x y, R x y → key x = key' y)
    (alike : ∀ x, ∀ y ∈ ys, R x y → key' y = id → R (g x) (f y)) :
    List.Forall₂ R (xs.map fun x => if key x = id then g x else x)
      (ys.map fun y => if key' y = id then f y else y) := by
  refine List.rel_map ?_ (related_mem rows)
  rintro x y ⟨hy, related⟩
  dsimp only
  by_cases same : key' y = id
  · rw [if_pos ((keys x y related).trans same), if_pos same]
    exact alike x y hy related same
  · rw [if_neg fun there => same ((keys x y related).symm.trans there), if_neg same]
    exact related

/-- Rows of different keys stay apart if the changed one stays apart from the others. -/
lemma pairwise_edit {key : β → κ} {f : β → β} {T : β → β → Prop} (pairs : ys.Pairwise T)
    (differ : ∀ y y', T y y' → key y ≠ key y')
    (left : ∀ y ∈ ys, ∀ y' ∈ ys, key y = id → key y' ≠ id → T y y' → T (f y) y')
    (right : ∀ y ∈ ys, ∀ y' ∈ ys, key y' = id → key y ≠ id → T y y' → T y (f y')) :
    (ys.map fun y => if key y = id then f y else y).Pairwise T := by
  refine List.pairwise_map.mpr (pairs.imp_of_mem fun {y y'} hy hy' apart => ?_)
  by_cases here : key y = id
  · have there : key y' ≠ id := fun there => differ y y' apart (here.trans there.symm)
    rw [if_pos here, if_neg there]
    exact left y hy y' hy' here there apart
  · rw [if_neg here]
    by_cases there : key y' = id
    · rw [if_pos there]
      exact right y hy y' hy' there here apart
    · rw [if_neg there]
      exact apart

end Edits

end RelatedTables
