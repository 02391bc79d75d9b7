import BajaValle.Lib.Embeddings
import BajaValle.Lib.Interleaving

/-!
# Components of a system

A system that is made of components makes some of its calls to one of them. Seen
from there the other calls change nothing, and every program of the system is a
program of the component. A run of the system is then a run of the component, so
what holds of every run of the component holds in the system.
-/

namespace Interleaving

open CallPrograms Prog

variable {ι W W' Ch Ch' Op Op' : Type} {Res : Op → Type} {Res' : Op' → Type}
  {ε ε' α α' β β' : Type}

/-- How a system is seen from one of its components: `call` hides the calls that
are not made to it. -/
structure Component (exec' : Ch' → (op : Op') → W' → Option (Res' op × W'))
    (exec : Ch → (op : Op) → W → Option (Res op × W)) where
  world : W' → W
  choice : Ch' → Ch
  call : Call Op' Res' → Option (Call Op Res)
  hidden : ∀ {ch op r w w'}, exec' ch op w = some (r, w') → call ⟨op, r⟩ = none →
    world w' = world w
  visible : ∀ {ch op r w w' k}, exec' ch op w = some (r, w') → call ⟨op, r⟩ = some k →
    exec (choice ch) k.op (world w) = some (k.res, world w')

namespace Component

variable {exec' : Ch' → (op : Op') → W' → Option (Res' op × W')}
  {exec : Ch → (op : Op) → W → Option (Res op × W)} (m : Component exec' exec)

def event (e : Event ι Ch' Op' Res') : Option (Event ι Ch Op Res) :=
  (m.call e.call).map fun k => ⟨e.who, m.choice e.choice, k⟩

/-- The calls to the component are those of the second program, in the same order,
and the programs end as `ends` says. -/
def Follows (ends : Except ε' α' → Option (Except ε α) → Prop) :
    Prog Op' Res' ε' α' → Prog Op Res ε α → Prop
  | .ret a, q => ends (.ok a) q.outcome
  | .throw e, q => ends (.error e) q.outcome
  | .call op next, q => ∀ r,
    match m.call ⟨op, r⟩ with
    | none => Follows ends (next r) q
    | some k => ∃ rest, q = .call k.op rest ∧ Follows ends (next r) (rest k.res)

/-- The component sees none of these calls. -/
def Hides (op : Op') : Prop := ∀ r, m.call ⟨op, r⟩ = none

/-- Seen from the component these are its own calls. -/
def Shows (emb : Embedding Op Res Op' Res') : Prop :=
  ∀ op r, m.call ⟨emb.op op, r⟩ = some ⟨op, emb.answered op r⟩

section Programs
variable {m} {ends : Except ε' β' → Option (Except ε β) → Prop}

lemma follows_outcome {p : Prog Op' Res' ε' β'} {q : Prog Op Res ε β} {out : Except ε' β'}
    (follows : m.Follows ends p q) (ended : p.outcome = some out) : ends out q.outcome := by
  cases p with
  | ret a =>
    obtain rfl := Option.some.inj ended
    exact follows
  | throw e =>
    obtain rfl := Option.some.inj ended
    exact follows
  | call op next => cases ended

lemma follows_hidden_call {op : Op'} {next : Res' op → Prog Op' Res' ε' β'} {q : Prog Op Res ε β}
    (hides : m.Hides op) (rest : ∀ r, m.Follows ends (next r) q) :
    m.Follows ends (.call op next) q := by
  intro r
  rw [hides r]
  exact rest r

/-- A program with hidden calls goes before. -/
theorem follows_hidden_bind {p : Prog Op' Res' ε' α'} {f : α' → Prog Op' Res' ε' β'}
    {q : Prog Op Res ε β} {Q : Except ε' α' → Prop} {h : List (Call Op' Res')}
    (hides : p.Uses m.Hides) (ending : p.Concludes (fun _ out => Q out) h)
    (fails : ∀ e, Q (.error e) → ends (.error e) q.outcome)
    (rest : ∀ a, Q (.ok a) → m.Follows ends (f a) q) : m.Follows ends (p >>= f) q := by
  induction p generalizing h with
  | ret a => exact rest a ending
  | throw e => exact fails e ending
  | call op next ih =>
    exact follows_hidden_call hides.1 fun r => ih r (uses_anywhere (hides.2 r) []) (ending r)

/-- A program of the component goes on as a program of the system. -/
theorem follows_embed_bind {emb : Embedding Op Res Op' Res'} {err : ε → ε'}
    {p : Prog Op Res ε α} {f : α → Prog Op' Res' ε' β'} {g : α → Prog Op Res ε β}
    (shows_ : m.Shows emb) (fails : ∀ e, ends (.error (err e)) (some (.error e)))
    (rest : ∀ a, m.Follows ends (f a) (g a)) :
    m.Follows ends (p.embed emb err >>= f) (p >>= g) := by
  induction p with
  | ret a => exact rest a
  | throw e => exact fails e
  | call op next ih =>
    intro r
    rw [shows_ op r]
    exact ⟨_, rfl, ih _⟩

/-- A program of the component is tried in the system, which then goes on. -/
theorem follows_attempt_bind {emb : Embedding Op Res Op' Res'} {err : ε → ε'} {answer : β → α'}
    {p : Prog Op Res ε β} {f : Except ε' α' → Prog Op' Res' ε' β'} (shows_ : m.Shows emb)
    (rest : ∀ out : Except ε β, m.Follows ends (f ((out.mapError err).map answer)) (ofExcept out)) :
    m.Follows ends ((answer <$> p.embed emb err).attempt >>= f) p := by
  induction p with
  | ret a => exact rest (.ok a)
  | throw e => exact rest (.error e)
  | call op next ih =>
    intro r
    rw [shows_ op r]
    exact ⟨_, rfl, ih _⟩

end Programs

section Runs
variable {ends : ι → Except ε' α' → Option (Except ε α) → Prop}

/-- The second configuration is the first one as the component sees it. -/
structure Projects (ends : ι → Except ε' α' → Option (Except ε α) → Prop)
    (c' : Config ι W' Ch' Op' Res' ε' α') (c : Config ι W Ch Op Res ε α) : Prop where
  world : c.world = m.world c'.world
  history : c.history = c'.history.filterMap m.event
  follows : ∀ i, m.Follows (ends i) (c'.pool i) (c.pool i)

variable {m} {c' d' : Config ι W' Ch' Op' Res' ε' α'} {c d : Config ι W Ch Op Res ε α}

lemma projects_start {w : W'} {outer : ι → Prog Op' Res' ε' α'} {inner : ι → Prog Op Res ε α}
    (follows : ∀ i, m.Follows (ends i) (outer i) (inner i)) :
    m.Projects ends (start w outer) (start (m.world w) inner) := ⟨rfl, rfl, follows⟩

variable [DecidableEq ι]

lemma own_filterMap (i : ι) (history : List (Event ι Ch' Op' Res')) :
    own i (history.filterMap m.event) = (own i history).filterMap m.call := by
  induction history with
  | nil => rfl
  | cons e history ih =>
    obtain ⟨who, ch, k⟩ := e
    by_cases mine : who = i
    · subst mine
      cases seen : m.call k with
      | none => simp [event, seen, ih]
      | some k' => simp [event, seen, ih]
    · cases seen : m.call k with
      | none => simp [event, seen, ih, own_cons_other mine]
      | some k' => simp [event, seen, ih, own_cons_other mine]

/-- The calls of one program there are those of it here that the component sees. -/
lemma Projects.calls (projects : m.Projects ends c' c) (i : ι) :
    own i c.history = (own i c'.history).filterMap m.call := by
  rw [projects.history]
  exact own_filterMap i c'.history

/-- A move of the system is a move of the component or changes nothing there. -/
theorem fire_projects (projects : m.Projects ends c' c) {i : ι} {ch : Ch'}
    (fired : fire exec' i ch c' = some d') : ∃ d, m.Projects ends d' d ∧
      (d = c ∨ fire exec i (m.choice ch) c = some d) := by
  obtain ⟨op, next, r, w', head, answered, rfl⟩ := fire_eq_some.mp fired
  have here := projects.follows i
  rw [head] at here
  have there := here r
  cases seen : m.call ⟨op, r⟩ with
  | none =>
    rw [seen] at there
    refine ⟨c, ⟨projects.world.trans (m.hidden answered seen).symm, ?_, fun j => ?_⟩, .inl rfl⟩
    · simp [event, seen, projects.history]
    · by_cases mine : j = i
      · subst mine
        simpa using there
      · simpa [Function.update_of_ne mine] using projects.follows j
  | some k =>
    rw [seen] at there
    obtain ⟨rest, started, still⟩ := there
    have moved := m.visible answered seen
    rw [← projects.world] at moved
    refine ⟨_, ⟨rfl, ?_, fun j => ?_⟩,
      .inr (fire_eq_some.mpr ⟨_, rest, _, _, started, moved, rfl⟩)⟩
    · simp [event, seen, projects.history]
    · by_cases mine : j = i
      · subst mine
        simpa using still
      · simpa [Function.update_of_ne mine] using projects.follows j

/-- A run of the system is a run of the component. -/
theorem leads_projects (projects : m.Projects ends c' c) (run : Leads exec' c' d') :
    ∃ d, m.Projects ends d' d ∧ Leads exec c d := by
  refine leads_invariant (P := fun x' => ∃ d, m.Projects ends x' d ∧ Leads exec c d) ?_ run
    ⟨c, projects, leads_refl c⟩
  rintro x' y' i ch ⟨d, seen, before⟩ fired
  obtain ⟨e, now, rfl | moved⟩ := fire_projects seen fired
  · exact ⟨_, now, before⟩
  · exact ⟨e, now, leads_trans before (leads_of_fire moved)⟩

end Runs
end Component
end Interleaving
