import BajaValle.Lib.Interleaving
import BajaValle.Lib.SerialRuns

/-!
# Runs in the order of the last calls

A program ends atomically when its calls before the last change nothing and the
last one ends as the whole program would, run alone from there, up to what
`agree` forgives. A run of such programs is then, to whoever sees only worlds
and outcomes, a serial run of those that have ended, in the order in which they
ended; so one that ended before another began comes before it.
-/

namespace Interleaving

open CallPrograms Prog

variable {ι W Ch Op : Type} {Res : Op → Type} {ε α : Type}

/-- Serial runs of whole programs, latest first, with their outcomes. -/
inductive Serially (exec : Ch → (op : Op) → W → Option (Res op × W))
    (progs : ι → Prog Op Res ε α) (w : W) : List (ι × Except ε α) → W → Prop where
  | nil : Serially exec progs w [] w
  | cons {order : List (ι × Except ε α)} {i : ι} {h : List (Call Op Res)} {out : Except ε α}
      {w₁ w₂ : W} (earlier : Serially exec progs w order w₁)
      (run : Finishes exec (fun _ => True) (progs i) w₁ h out w₂) :
      Serially exec progs w ((i, out) :: order) w₂

/-- The rest of `whole` changes nothing before its last call, which ends as
`whole` alone would from there. -/
def EndsAtomically (exec : Ch → (op : Op) → W → Option (Res op × W))
    (agree : Except ε α → Except ε α → Prop) (whole : Prog Op Res ε α) :
    Prog Op Res ε α → Prop
  | .ret _ => True
  | .throw _ => True
  | .call op next => (∀ ch w r w', exec ch op w = some (r, w') →
      ((next r).outcome = none → w' = w) ∧
        ∀ out, (next r).outcome = some out → ∃ h alone,
          Finishes exec (fun _ => True) whole w h alone w' ∧ agree out alone) ∧
      ∀ r, EndsAtomically exec agree whole (next r)

lemma endsAtomically_of_ended {exec : Ch → (op : Op) → W → Option (Res op × W)}
    {agree : Except ε α → Except ε α → Prop} {whole p : Prog Op Res ε α} {out : Except ε α}
    (ended : p.outcome = some out) : EndsAtomically exec agree whole p := by
  cases p with
  | ret a => trivial
  | throw e => trivial
  | call op next => cases ended

/-- Every call of the one comes before the first call of the other. -/
def Before [DecidableEq ι] (h : List (Event ι Ch Op Res)) (i j : ι) : Prop :=
  ∃ later earlier, h = later ++ earlier ∧ own i later = [] ∧ own j earlier = []

/-- The programs that have ended, in this order, explain the configuration, and the
order keeps that of any two of which one ended before the other began. -/
structure Linearizes [DecidableEq ι] (exec : Ch → (op : Op) → W → Option (Res op × W))
    (agree : Except ε α → Except ε α → Prop) (progs : ι → Prog Op Res ε α) (w : W)
    (c : Config ι W Ch Op Res ε α) (order : List (ι × Except ε α)) : Prop where
  serial : Serially exec progs w order c.world
  once : (order.map Prod.fst).Nodup
  listed : ∀ i, i ∈ order.map Prod.fst ↔ own i c.history ≠ [] ∧ (c.pool i).outcome ≠ none
  agrees : ∀ i alone, (i, alone) ∈ order → ∃ out, (c.pool i).outcome = some out ∧ agree out alone
  inTime : order.Pairwise fun later earlier => ¬ Before c.history later.1 earlier.1

section Linearize
variable [DecidableEq ι] {exec : Ch → (op : Op) → W → Option (Res op × W)}
  {agree : Except ε α → Except ε α → Prop} {progs : ι → Prog Op Res ε α} {w : W}
  {c c' : Config ι W Ch Op Res ε α} {order : List (ι × Except ε α)}

lemma linearizes_start : Linearizes exec agree progs w (start w progs) [] where
  serial := .nil
  once := List.nodup_nil
  listed i := by simp [start]
  agrees i alone mem := by simp at mem
  inTime := .nil

lemma outcome_call {op : Op} {next : Res op → Prog Op Res ε α} :
    (Prog.call op next).outcome = none := rfl

/-- What came before stays before as the history grows. -/
lemma Before.of_cons {e : Event ι Ch Op Res} {h : List (Event ι Ch Op Res)} {i j : ι}
    (before : Before (e :: h) i j) : Before h i j := by
  have shrinks : ∀ {k : ι} {es : List (Event ι Ch Op Res)}, own k (e :: es) = [] →
      own k es = [] := by
    intro k es none
    simp only [own, List.map_eq_nil_iff, List.filter_eq_nil_iff, List.mem_cons] at none ⊢
    exact fun f hf => none f (.inr hf)
  obtain ⟨later, earlier, split, ended, notBegun⟩ := before
  cases later with
  | nil => exact ⟨[], h, rfl, rfl, shrinks (split ▸ notBegun)⟩
  | cons f later =>
    obtain ⟨rfl, rfl⟩ := List.cons.inj split
    exact ⟨later, earlier, rfl, shrinks ended, notBegun⟩

/-- A program that moves last is not before one that has begun. -/
lemma not_before_of_last {i j : ι} {ch : Ch} {k : Call Op Res} {h : List (Event ι Ch Op Res)}
    (begun : own j h ≠ []) : ¬ Before (⟨i, ch, k⟩ :: h) i j := by
  rintro ⟨later, earlier, split, ended, notBegun⟩
  cases later with
  | nil =>
    rw [List.nil_append] at split
    rw [← split] at notBegun
    by_cases mine : i = j
    · subst mine
      simp at notBegun
    · exact begun (own_cons_other mine ch k h ▸ notBegun)
  | cons f later =>
    obtain ⟨rfl, -⟩ := List.cons.inj split
    simp at ended

/-- A move that does not end its program leaves the order as it is. -/
lemma Linearizes.continues (lin : Linearizes exec agree progs w c order) {i : ι} {ch : Ch} {op : Op}
    {next : Res op → Prog Op Res ε α} {r : Res op} (head : c.pool i = .call op next)
    (running : (next r).outcome = none) :
    Linearizes exec agree progs w
      ⟨c.world, Function.update c.pool i (next r), ⟨i, ch, ⟨op, r⟩⟩ :: c.history⟩ order where
  serial := lin.serial
  once := lin.once
  listed j := by
    rw [lin.listed j]
    by_cases mine : i = j
    · subst mine
      simp [head, outcome_call, running]
    · simp [own_cons_other mine, Function.update_of_ne (Ne.symm mine)]
  agrees j alone mem := by
    have other : j ≠ i := by
      rintro rfl
      exact ((lin.listed j).mp (List.mem_map_of_mem mem)).2 (by rw [head, outcome_call])
    simpa [Function.update_of_ne other] using lin.agrees j alone mem
  inTime := lin.inTime.imp fun inTime before => inTime before.of_cons

/-- A move that ends its program puts it last. -/
lemma Linearizes.ends (lin : Linearizes exec agree progs w c order) {i : ι} {ch : Ch} {op : Op}
    {next : Res op → Prog Op Res ε α} {r : Res op} {w' : W} {h : List (Call Op Res)}
    {out alone : Except ε α} (head : c.pool i = .call op next)
    (ended : (next r).outcome = some out)
    (run : Finishes exec (fun _ => True) (progs i) c.world h alone w') (agreed : agree out alone) :
    Linearizes exec agree progs w
      ⟨w', Function.update c.pool i (next r), ⟨i, ch, ⟨op, r⟩⟩ :: c.history⟩
      ((i, alone) :: order) := by
  have fresh : i ∉ order.map Prod.fst := fun mem =>
    ((lin.listed i).mp mem).2 (by rw [head, outcome_call])
  refine ⟨.cons lin.serial run, List.nodup_cons.mpr ⟨fresh, lin.once⟩, fun j => ?_, ?_,
    List.pairwise_cons.mpr ⟨fun earlier mem => ?_, ?_⟩⟩
  · by_cases mine : i = j
    · subst mine
      simp [ended]
    · simpa [Ne.symm mine, own_cons_other mine, Function.update_of_ne (Ne.symm mine)] using
        lin.listed j
  · intro j alone' mem
    rcases List.mem_cons.mp mem with same | old
    · obtain ⟨rfl, rfl⟩ := Prod.mk.inj same
      exact ⟨out, by simpa using ended, agreed⟩
    · have other : j ≠ i := by
        rintro rfl
        exact fresh (List.mem_map_of_mem old)
      simpa [Function.update_of_ne other] using lin.agrees j alone' old
  · exact not_before_of_last ((lin.listed earlier.1).mp (List.mem_map_of_mem mem)).1
  · exact lin.inTime.imp fun inTime before => inTime before.of_cons

/-- Where the moves so far have left every program. -/
lemma leads_endsAtomically (run : Leads exec (start w progs) c)
    (atomic : ∀ i, EndsAtomically exec agree (progs i) (progs i)) :
    ∀ i, EndsAtomically exec agree (progs i) (c.pool i) := by
  refine leads_invariant (P := fun c => ∀ i, EndsAtomically exec agree (progs i) (c.pool i)) ?_
    run atomic
  intro c c' i ch each fired j
  obtain ⟨op, next, r, w', head, _, rfl⟩ := fire_eq_some.mp fired
  by_cases mine : j = i
  · subst mine
    have here := each j
    rw [head] at here
    simpa using here.2 r
  · simpa [Function.update_of_ne mine] using each j

/-- An order that explains a state is continued by one that explains any later
state: programs that end later come after those that ended before. -/
theorem linearizes_later (atomic : ∀ i, EndsAtomically exec agree (progs i) (progs i))
    (reached : Leads exec (start w progs) c) (lin : Linearizes exec agree progs w c order)
    (run : Leads exec c c') :
    ∃ later, Linearizes exec agree progs w c' (later ++ order) := by
  refine leads_induction (P := fun x => ∃ later, Linearizes exec agree progs w x (later ++ order))
    run ⟨[], lin⟩ ?_
  rintro x x' i ch toX ⟨later, lin⟩ fired
  obtain ⟨op, next, r, w', head, answered, rfl⟩ := fire_eq_some.mp fired
  have here := leads_endsAtomically (leads_trans reached toX) atomic i
  rw [head] at here
  obtain ⟨still, ends⟩ := here.1 ch x.world r w' answered
  cases ended : (next r).outcome with
  | none =>
    obtain rfl := still ended
    exact ⟨later, lin.continues head ended⟩
  | some out =>
    obtain ⟨h, alone, run, agreed⟩ := ends out ended
    exact ⟨(i, alone) :: later, lin.ends head ended run agreed⟩

theorem linearizes (atomic : ∀ i, EndsAtomically exec agree (progs i) (progs i))
    (run : Leads exec (start w progs) c) : ∃ order, Linearizes exec agree progs w c order := by
  obtain ⟨later, lin⟩ := linearizes_later atomic (leads_refl _) linearizes_start run
  exact ⟨later ++ [], lin⟩

end Linearize

end Interleaving
