import BajaValle.Lib.Interleaving

/-!
# What is left of a program

A program and its calls so far determine what is left of it, and in every run each
program is what its own calls have left. For a program that is written out, the two
rewriting rules list its states.
-/

namespace CallPrograms.Prog

variable {Op : Type} {Res : Op → Type} {ε α : Type}

/-- `q` is left of `p` after the calls `h`, latest first. -/
def After (p : Prog Op Res ε α) : List (Call Op Res) → Prog Op Res ε α → Prop
  | [], q => q = p
  | k :: h, q => ∃ next, After p h (.call k.op next) ∧ q = next k.res

variable {h : List (Call Op Res)} {q : Prog Op Res ε α}

lemma after_of_ended {p : Prog Op Res ε α} (ended : p.outcome ≠ none) :
    p.After h q ↔ h = [] ∧ q = p := by
  induction h generalizing q with
  | nil => simp [After]
  | cons k h ih =>
    constructor
    · rintro ⟨next, before, rfl⟩
      obtain ⟨_, rfl⟩ := ih.mp before
      exact absurd rfl ended
    · rintro ⟨none, _⟩
      cases none

lemma after_ret (a : α) : (Prog.ret a : Prog Op Res ε α).After h q ↔ h = [] ∧ q = .ret a :=
  after_of_ended (by simp [outcome])

lemma after_throw (e : ε) : (Prog.throw e : Prog Op Res ε α).After h q ↔ h = [] ∧ q = .throw e :=
  after_of_ended (by simp [outcome])

lemma after_call {op : Op} {next : Res op → Prog Op Res ε α} :
    (Prog.call op next).After h q ↔ (h = [] ∧ q = .call op next) ∨
      ∃ r h', h = h' ++ [⟨op, r⟩] ∧ (next r).After h' q := by
  induction h generalizing q with
  | nil => simp [After]
  | cons k h ih =>
    constructor
    · rintro ⟨rest, before, rfl⟩
      rcases ih.mp before with ⟨rfl, same⟩ | ⟨r, h', rfl, after⟩
      · obtain ⟨rfl, same⟩ := Prog.call.inj same
        obtain rfl := eq_of_heq same
        exact .inr ⟨k.res, [], rfl, rfl⟩
      · exact .inr ⟨r, k :: h', rfl, rest, after, rfl⟩
    · rintro (⟨none, _⟩ | ⟨r, h', calls, after⟩)
      · cases none
      · cases h' with
        | nil =>
          obtain ⟨rfl, rfl⟩ := List.cons.inj calls
          obtain rfl : q = next r := after
          exact ⟨next, rfl, rfl⟩
        | cons k' h' =>
          obtain ⟨rfl, rfl⟩ := List.cons.inj calls
          obtain ⟨rest, before, rfl⟩ := after
          exact ⟨rest, ih.mpr (.inr ⟨r, h', rfl, before⟩), rfl⟩

end CallPrograms.Prog

namespace Interleaving

open CallPrograms Prog

variable {ι W Ch Op : Type} {Res : Op → Type} {ε α : Type} [DecidableEq ι]
  {exec : Ch → (op : Op) → W → Option (Res op × W)} {w : W} {progs : ι → Prog Op Res ε α}

/-- Every program is what its own calls have left of it. -/
theorem leads_after {c : Config ι W Ch Op Res ε α} (run : Leads exec (start w progs) c) (i : ι) :
    (progs i).After (own i c.history) (c.pool i) := by
  refine leads_invariant (P := fun c => ∀ i, (progs i).After (own i c.history) (c.pool i)) ?_ run
    (fun _ => rfl) i
  intro c c' i ch each fired j
  obtain ⟨op, next, r, w', head, _, rfl⟩ := fire_eq_some.mp fired
  by_cases mine : i = j
  · subst mine
    rw [own_cons_self]
    exact ⟨next, head ▸ each i, by simp⟩
  · simpa [own_cons_other mine, Function.update_of_ne (Ne.symm mine)] using each j

end Interleaving
