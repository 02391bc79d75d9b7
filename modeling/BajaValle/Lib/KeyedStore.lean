import BajaValle.Lib.CallPrograms
import Mathlib.Logic.Function.Basic
import Mathlib.Data.List.Forall2

/-!
# Programs over a keyed store

Every call addresses one cell by its key and updates that cell by itself. A
program that keeps to some keys neither sees nor changes the other cells, so the
outcomes of one owner's programs are what they are without everybody else's.
-/

namespace KeyedStore

open CallPrograms

variable {Key Cell Op V C : Type} {Res : Op → Type} {ε α : Type} [DecidableEq Key]

/-- What one call answers and leaves in its cell. -/
abbrev Update (Op : Type) (Res : Op → Type) (Cell : Type) :=
  (op : Op) → Option Cell → Res op × Cell

def run (key : Op → Key) (update : Update Op Res Cell) :
    Prog Op Res ε α → (Key → Option Cell) → Except ε α × (Key → Option Cell)
  | .ret a, s => (.ok a, s)
  | .throw e, s => (.error e, s)
  | .call op next, s =>
    run key update (next (update op (s (key op))).1)
      (Function.update s (key op) (some (update op (s (key op))).2))

section Run
variable {key : Op → Key} {update : Update Op Res Cell} {P : Key → Prop}
  {p : Prog Op Res ε α} {s s' : Key → Option Cell}

/-- Cells whose keys the program does not use stay as they are. -/
theorem run_frame (uses : p.Uses fun op => P (key op)) {k : Key} (other : ¬ P k) :
    (run key update p s).2 k = s k := by
  induction p generalizing s with
  | ret a => rfl
  | throw e => rfl
  | call op next ih =>
    have away : k ≠ key op := fun same => other (same ▸ uses.1)
    simp only [run]
    rw [ih _ (Prog.uses_anywhere (uses.2 _) []), Function.update_of_ne away]

/-- Stores that agree on the keys of the program run it alike. -/
theorem run_agree (update : Update Op Res Cell) (uses : p.Uses fun op => P (key op))
    (agree : ∀ k, P k → s k = s' k) :
    (run key update p s).1 = (run key update p s').1 ∧
      ∀ k, P k → (run key update p s).2 k = (run key update p s').2 k := by
  induction p generalizing s s' with
  | ret a => exact ⟨rfl, agree⟩
  | throw e => exact ⟨rfl, agree⟩
  | call op next ih =>
    simp only [run, agree _ uses.1]
    refine ih _ (Prog.uses_anywhere (uses.2 _) []) fun k hk => ?_
    by_cases here : k = key op
    · subst here
      simp only [Function.update_self]
    · simp only [Function.update_of_ne here, agree k hk]

end Run

/-- One program after another, each with its outcome. -/
def outcomes (key : Op → Key) (update : V → Update Op Res Cell) (prog : V → Prog Op Res ε α) :
    List V → (Key → Option Cell) → List (V × Except ε α)
  | [], _ => []
  | v :: vs, s => (v, (run key (update v) (prog v) s).1) ::
      outcomes key update prog vs (run key (update v) (prog v) s).2

section Outcomes
variable {key : Op → Key} {update : V → Update Op Res Cell} {prog : V → Prog Op Res ε α}
  {s s' : Key → Option Cell}

/-- Outcomes depend on no more of a visit than its program and its update. -/
lemma outcomes_congr {vs vs' : List V}
    (same : List.Forall₂ (fun v v' => prog v = prog v' ∧ update v = update v') vs vs') :
    (outcomes key update prog vs s).map Prod.snd =
      (outcomes key update prog vs' s).map Prod.snd := by
  induction same generalizing s with
  | nil => rfl
  | cons here _ ih =>
    simp only [outcomes, here.1, here.2, List.map_cons, List.cons.injEq, true_and]
    exact ih

/-- If owners share no keys, an owner's outcomes do not depend on the others. -/
theorem outcomes_isolated [DecidableEq C] {owner : V → C} {keys : C → Key → Prop}
    (uses : ∀ v, (prog v).Uses fun op => keys (owner v) (key op))
    (disjoint : ∀ c c' k, keys c k → keys c' k → c = c') (c : C) (vs : List V)
    (agree : ∀ k, keys c k → s k = s' k) :
    (outcomes key update prog vs s).filter (fun out => owner out.1 = c) =
      outcomes key update prog (vs.filter fun v => owner v = c) s' := by
  induction vs generalizing s s' with
  | nil => rfl
  | cons v vs ih =>
    by_cases mine : owner v = c
    · obtain ⟨same, agree'⟩ := run_agree (update v) (uses v) (mine ▸ agree)
      simp only [outcomes, mine, List.filter_cons, decide_true, if_true, same, List.cons.injEq,
        true_and]
      exact ih (mine ▸ agree')
    · simp only [outcomes, mine, List.filter_cons, decide_false, Bool.false_eq_true, if_false]
      refine ih fun k hk => ?_
      rw [run_frame (uses v) fun taken => mine (disjoint _ _ k taken hk)]
      exact agree k hk

end Outcomes
end KeyedStore
