import BajaValle.Lib.Interleaving

/-!
# Programs that make boundedly many calls

A bound on the calls of a program is found part by part. A program that can
always make its next call, and makes boundedly many, can be run to its end.
-/

namespace CallPrograms

variable {Op : Type} {Res : Op → Type} {ε α β : Type}

namespace Prog

/-- The program makes no more than `n` calls, whatever they answer. -/
def AtMost : Prog Op Res ε α → Nat → Prop
  | .ret _, _ => True
  | .throw _, _ => True
  | .call _ _, 0 => False
  | .call _ next, n + 1 => ∀ r, (next r).AtMost n

lemma AtMost.mono {p : Prog Op Res ε α} {n m : Nat} (bounded : p.AtMost n) (le : n ≤ m) :
    p.AtMost m := by
  induction p generalizing n m with
  | ret a => trivial
  | throw e => trivial
  | call op next ih =>
    cases n with
    | zero => exact bounded.elim
    | succ n =>
      obtain ⟨k, rfl⟩ := Nat.exists_eq_add_of_le le
      rw [Nat.add_right_comm]
      exact fun r => ih r (bounded r) (Nat.le_add_right n k)

lemma atMost_ret (a : α) (n : Nat) : (Prog.ret a : Prog Op Res ε α).AtMost n := by
  cases n <;> trivial

lemma atMost_throw (e : ε) (n : Nat) : (Prog.throw e : Prog Op Res ε α).AtMost n := by
  cases n <;> trivial

lemma atMost_ofExcept (x : Except ε α) (n : Nat) :
    (Prog.ofExcept x : Prog Op Res ε α).AtMost n := by
  cases x with
  | ok a => exact atMost_ret a n
  | error e => exact atMost_throw e n

lemma atMost_perform (op : Op) : (perform op : Prog Op Res ε (Res op)).AtMost 1 :=
  fun r => atMost_ret r 0

/-- The bounds of two parts add up. -/
lemma atMost_bind {p : Prog Op Res ε α} {f : α → Prog Op Res ε β} {n m : Nat}
    (first : p.AtMost n) (rest : ∀ a, (f a).AtMost m) : (p >>= f).AtMost (n + m) := by
  induction p generalizing n with
  | ret a => exact (rest a).mono (Nat.le_add_left m n)
  | throw e => exact atMost_throw e _
  | call op next ih =>
    cases n with
    | zero => exact first.elim
    | succ n =>
      rw [Nat.add_right_comm]
      exact fun r => ih r (first r)

lemma atMost_attempt {p : Prog Op Res ε α} {n : Nat} (bounded : p.AtMost n) :
    p.attempt.AtMost n := by
  induction p generalizing n with
  | ret a => exact atMost_ret _ n
  | throw e => exact atMost_ret _ n
  | call op next ih =>
    cases n with
    | zero => exact bounded.elim
    | succ n => exact fun r => ih r (bounded r)

end Prog

end CallPrograms

namespace Interleaving

open CallPrograms Prog

variable {ι W Ch Op : Type} {Res : Op → Type} {ε α : Type} [DecidableEq ι]
  {exec : Ch → (op : Op) → W → Option (Res op × W)}

/-- What a program may still call, and what it has called, keep within its bound. -/
lemma leads_atMost {w : W} {progs : ι → Prog Op Res ε α} {n : Nat}
    (bounded : ∀ i, (progs i).AtMost n) {c : Config ι W Ch Op Res ε α}
    (run : Leads exec (start w progs) c) (i : ι) :
    ∃ m, (own i c.history).length + m = n ∧ (c.pool i).AtMost m := by
  refine leads_invariant (P := fun c => ∀ i, ∃ m, (own i c.history).length + m = n ∧
    (c.pool i).AtMost m) ?_ run (fun i => ⟨n, Nat.zero_add n, bounded i⟩) i
  intro c c' j ch each fired i
  obtain ⟨op, next, r, w', head, _, rfl⟩ := fire_eq_some.mp fired
  obtain ⟨m, total, left⟩ := each i
  by_cases mine : j = i
  · subst mine
    rw [head] at left
    cases m with
    | zero => exact left.elim
    | succ m =>
      refine ⟨m, ?_, by simpa using left r⟩
      rw [own_cons_self, List.length_cons]
      omega
  · refine ⟨m, ?_, ?_⟩
    · rwa [own_cons_other mine]
    · simpa only [Function.update_of_ne (Ne.symm mine)] using left

/-- A program that can always move, while `R` counts down, is run to its end alone. -/
theorem leads_end {R : Nat → Config ι W Ch Op Res ε α → Prop} {i : ι}
    (moves : ∀ n c op next, R (n + 1) c → c.pool i = .call op next →
      ∃ ch c', fire exec i ch c = some c' ∧ R n c')
    {n : Nat} {c : Config ι W Ch Op Res ε α} (bounded : (c.pool i).AtMost n) (ready : R n c) :
    ∃ c' m, Leads exec c c' ∧ R m c' ∧ m ≤ n ∧ (c'.pool i).outcome ≠ none ∧
      ∀ j, j ≠ i → own j c'.history = own j c.history := by
  induction n generalizing c with
  | zero =>
    refine ⟨c, 0, leads_refl c, ready, Nat.le_refl 0, ?_, fun _ _ => rfl⟩
    cases head : c.pool i with
    | ret a => simp [outcome]
    | throw e => simp [outcome]
    | call op next =>
      rw [head] at bounded
      exact bounded.elim
  | succ n ih =>
    cases head : c.pool i with
    | ret a =>
      exact ⟨c, n + 1, leads_refl c, ready, Nat.le_refl _, by simp [head, outcome], fun _ _ => rfl⟩
    | throw e =>
      exact ⟨c, n + 1, leads_refl c, ready, Nat.le_refl _, by simp [head, outcome], fun _ _ => rfl⟩
    | call op next =>
      obtain ⟨ch, c₁, fired, ready₁⟩ := moves n c op next ready head
      obtain ⟨op', next', r, w', head', _, rfl⟩ := fire_eq_some.mp fired
      rw [head'] at bounded
      obtain ⟨c', m, run, ready', le, ended, others⟩ := ih (by simpa using bounded r) ready₁
      refine ⟨c', m, leads_trans (leads_of_fire fired) run, ready', Nat.le_succ_of_le le, ended, ?_⟩
      intro j other
      rw [others j other, own_cons_other (Ne.symm other)]

end Interleaving
