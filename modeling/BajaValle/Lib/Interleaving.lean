import BajaValle.Lib.CallPrograms
import Mathlib.Logic.Function.Basic
import Mathlib.Data.List.Basic

/-!
# Interleaved call programs over one world

A pool of programs shares a world. A move lets one program make the call it
waits for, under a choice; nothing else changes the world. The history records
every answered call with its program and its choice, latest first. A program
is where its own calls have led it, so an invariant of world and history is
preserved by every move as soon as it is preserved by every call that `Obeys`
allows after the program's own calls.
-/

namespace Interleaving

open CallPrograms

variable {ι W Ch Op : Type} {Res : Op → Type} {ε α : Type}

structure Event (ι Ch Op : Type) (Res : Op → Type) where
  who : ι
  choice : Ch
  call : Call Op Res

structure Config (ι W Ch Op : Type) (Res : Op → Type) (ε α : Type) where
  world : W
  pool : ι → Prog Op Res ε α
  history : List (Event ι Ch Op Res)

def start (w : W) (progs : ι → Prog Op Res ε α) : Config ι W Ch Op Res ε α :=
  ⟨w, progs, []⟩

variable [DecidableEq ι]

/-- The calls of one program in a history, latest first. -/
def own (i : ι) (history : List (Event ι Ch Op Res)) : List (Call Op Res) :=
  (history.filter fun e => e.who = i).map Event.call

@[simp] lemma own_nil (i : ι) : own i ([] : List (Event ι Ch Op Res)) = [] := rfl

@[simp] lemma own_cons_self (i : ι) (ch : Ch) (k : Call Op Res)
    (history : List (Event ι Ch Op Res)) :
    own i (⟨i, ch, k⟩ :: history) = k :: own i history := by
  simp [own]

lemma own_cons_other {i j : ι} (h : i ≠ j) (ch : Ch) (k : Call Op Res)
    (history : List (Event ι Ch Op Res)) :
    own j (⟨i, ch, k⟩ :: history) = own j history := by
  simp [own, h]

lemma mem_own {i : ι} {k : Call Op Res} {history : List (Event ι Ch Op Res)} :
    k ∈ own i history ↔ ∃ ch, ⟨i, ch, k⟩ ∈ history := by
  simp only [own, List.mem_map, List.mem_filter, decide_eq_true_eq]
  constructor
  · rintro ⟨⟨who, ch, call⟩, ⟨mem, rfl⟩, rfl⟩
    exact ⟨ch, mem⟩
  · rintro ⟨ch, mem⟩
    exact ⟨_, ⟨mem, rfl⟩, rfl⟩

lemma mem_own_cons {i : ι} {k : Call Op Res} {e : Event ι Ch Op Res}
    {history : List (Event ι Ch Op Res)} :
    k ∈ own i (e :: history) ↔ (e.who = i ∧ k = e.call) ∨ k ∈ own i history := by
  obtain ⟨who, ch, call⟩ := e
  by_cases h : who = i
  · subst h
    simp
  · simp [own_cons_other h, h]

variable (exec : Ch → (op : Op) → W → Option (Res op × W))

def fire (i : ι) (ch : Ch) (c : Config ι W Ch Op Res ε α) :
    Option (Config ι W Ch Op Res ε α) :=
  match c.pool i with
  | .call op next => (exec ch op c.world).map fun out =>
      ⟨out.2, Function.update c.pool i (next out.1), ⟨i, ch, ⟨op, out.1⟩⟩ :: c.history⟩
  | _ => none

/-- A schedule lists the moves in order. -/
def play : List (ι × Ch) → Config ι W Ch Op Res ε α → Option (Config ι W Ch Op Res ε α)
  | [], c => some c
  | m :: rest, c => (fire exec m.1 m.2 c).bind (play rest)

def Leads (c c' : Config ι W Ch Op Res ε α) : Prop :=
  ∃ schedule, play exec schedule c = some c'

variable {exec}

/-- What one move can do. -/
lemma fire_eq_some {i : ι} {ch : Ch} {c c' : Config ι W Ch Op Res ε α} :
    fire exec i ch c = some c' ↔
      ∃ op next r w', c.pool i = .call op next ∧ exec ch op c.world = some (r, w') ∧
        c' = ⟨w', Function.update c.pool i (next r), ⟨i, ch, ⟨op, r⟩⟩ :: c.history⟩ := by
  unfold fire
  constructor
  · intro h
    split at h
    · rename_i op next head
      obtain ⟨⟨r, w'⟩, answered, rfl⟩ := Option.map_eq_some_iff.mp h
      exact ⟨op, next, r, w', head, answered, rfl⟩
    · cases h
  · rintro ⟨op, next, r, w', head, answered, rfl⟩
    simp [head, answered]

lemma leads_refl (c : Config ι W Ch Op Res ε α) : Leads exec c c := ⟨[], rfl⟩

lemma play_append (xs ys : List (ι × Ch)) (c : Config ι W Ch Op Res ε α) :
    play exec (xs ++ ys) c = (play exec xs c).bind (play exec ys) := by
  induction xs generalizing c with
  | nil => rfl
  | cons m xs ih =>
    simp only [List.cons_append, play, Option.bind_assoc]
    exact congrArg _ (funext ih)

lemma leads_trans {c₁ c₂ c₃ : Config ι W Ch Op Res ε α}
    (h₁ : Leads exec c₁ c₂) (h₂ : Leads exec c₂ c₃) : Leads exec c₁ c₃ := by
  obtain ⟨xs, hx⟩ := h₁
  obtain ⟨ys, hy⟩ := h₂
  exact ⟨xs ++ ys, by rw [play_append, hx, Option.bind_some, hy]⟩

lemma leads_of_fire {i : ι} {ch : Ch} {c c' : Config ι W Ch Op Res ε α}
    (h : fire exec i ch c = some c') : Leads exec c c' :=
  ⟨[(i, ch)], by simp [play, h]⟩

/-- The move by which a program makes its next call. -/
lemma leads_call {c : Config ι W Ch Op Res ε α} {i : ι} {ch : Ch} {op : Op}
    {next : Res op → Prog Op Res ε α} {r : Res op} {w' : W} (head : c.pool i = .call op next)
    (answered : exec ch op c.world = some (r, w')) :
    ∃ c', Leads exec c c' ∧ c'.world = w' ∧ c'.pool i = next r ∧
      ∀ j, j ≠ i → c'.pool j = c.pool j := by
  refine ⟨_, leads_of_fire (fire_eq_some.mpr ⟨op, next, r, w', head, answered, rfl⟩), rfl, ?_, ?_⟩
  · exact Function.update_self ..
  · exact fun j other => Function.update_of_ne other ..

/-- A schedule that plays to its end leads to what is seen there. -/
lemma leads_of_play {c : Config ι W Ch Op Res ε α} {p : Config ι W Ch Op Res ε α → Bool}
    (schedule : List (ι × Ch)) (h : (play exec schedule c).any p = true) :
    ∃ c', Leads exec c c' ∧ p c' = true := by
  obtain ⟨c', played, hc⟩ := (Option.any_eq_true _ _).mp h
  exact ⟨c', ⟨schedule, played⟩, hc⟩

/-- A property that every move keeps holds along every run. -/
theorem leads_invariant {P : Config ι W Ch Op Res ε α → Prop}
    (step : ∀ c c' i ch, P c → fire exec i ch c = some c' → P c')
    {c c' : Config ι W Ch Op Res ε α} (h : Leads exec c c') (hc : P c) : P c' := by
  obtain ⟨schedule, hs⟩ := h
  induction schedule generalizing c with
  | nil => exact Option.some.inj hs ▸ hc
  | cons m rest ih =>
    obtain ⟨c₁, fired, played⟩ := Option.bind_eq_some_iff.mp hs
    exact ih (step _ _ _ _ hc fired) played

/-- Where the moves so far have left every program, if each obeys its rules. -/
def PoolObeys (may : ι → List (Call Op Res) → Op → Prop)
    (post : ι → List (Call Op Res) → α → Prop) (c : Config ι W Ch Op Res ε α) : Prop :=
  ∀ i, (c.pool i).Obeys (may i) (post i) (own i c.history)

lemma fire_poolObeys {may : ι → List (Call Op Res) → Op → Prop}
    {post : ι → List (Call Op Res) → α → Prop} {c c' : Config ι W Ch Op Res ε α}
    {i : ι} {ch : Ch} (hc : PoolObeys may post c) (fired : fire exec i ch c = some c') :
    PoolObeys may post c' := by
  obtain ⟨op, next, r, w', head, _, rfl⟩ := fire_eq_some.mp fired
  intro j
  by_cases hj : i = j
  · subst hj
    have here := hc i
    rw [head] at here
    simpa using here.2 r
  · simpa only [own_cons_other hj, Function.update_of_ne (Ne.symm hj)] using hc j

theorem leads_poolObeys {may : ι → List (Call Op Res) → Op → Prop}
    {post : ι → List (Call Op Res) → α → Prop} {c c' : Config ι W Ch Op Res ε α}
    (h : Leads exec c c') (hc : PoolObeys may post c) : PoolObeys may post c' :=
  leads_invariant (fun _ _ _ _ hp fired => fire_poolObeys hp fired) h hc

/-- Every program that has ended has ended as its own calls say. -/
theorem leads_concludes {post : ι → List (Call Op Res) → Except ε α → Prop} {w : W}
    {progs : ι → Prog Op Res ε α} (concludes : ∀ i, (progs i).Concludes (post i) [])
    {c : Config ι W Ch Op Res ε α} (h : Leads exec (start w progs) c) {i : ι} {out : Except ε α}
    (ended : (c.pool i).outcome = some out) : post i (own i c.history) out := by
  have here : ∀ j, (c.pool j).Concludes (post j) (own j c.history) := by
    refine leads_invariant (P := fun c => ∀ j, (c.pool j).Concludes (post j) (own j c.history)) ?_ h
      concludes
    intro c c' i ch each fired j
    obtain ⟨op, next, r, w', head, _, rfl⟩ := fire_eq_some.mp fired
    by_cases hj : i = j
    · subst hj
      have there := each i
      rw [head] at there
      simpa using there r
    · simpa only [own_cons_other hj, Function.update_of_ne (Ne.symm hj)] using each j
  have last := here i
  cases program : c.pool i with
  | ret a =>
    rw [program] at last ended
    obtain rfl := Option.some.inj ended
    exact last
  | throw e =>
    rw [program] at last ended
    obtain rfl := Option.some.inj ended
    exact last
  | call op next =>
    rw [program] at ended
    cases ended

/-- Each call, latest first, was allowed after those before it. -/
def EachAllowed (may : List (Call Op Res) → Op → Prop) : List (Call Op Res) → Prop
  | [] => True
  | k :: h => may h k.op ∧ EachAllowed may h

lemma EachAllowed.of_mem {may : List (Call Op Res) → Op → Prop} {h : List (Call Op Res)}
    (allowed : EachAllowed may h) {k : Call Op Res} (mem : k ∈ h) :
    ∃ after before, h = after ++ k :: before ∧ may before k.op := by
  induction h with
  | nil => cases mem
  | cons k' h ih =>
    rcases List.mem_cons.mp mem with rfl | old
    · exact ⟨[], h, rfl, allowed.1⟩
    · obtain ⟨after, before, rfl, may⟩ := ih allowed.2 old
      exact ⟨k' :: after, before, rfl, may⟩

/-- Programs that keep to rules have made only calls that these allow. -/
theorem leads_eachAllowed {may : ι → List (Call Op Res) → Op → Prop}
    {post : ι → List (Call Op Res) → α → Prop} {w : W} {progs : ι → Prog Op Res ε α}
    (obeys : ∀ i, (progs i).Obeys (may i) (post i) []) {c : Config ι W Ch Op Res ε α}
    (h : Leads exec (start w progs) c) (i : ι) : EachAllowed (may i) (own i c.history) := by
  have opened : PoolObeys may post (start w progs : Config ι W Ch Op Res ε α) := obeys
  refine (leads_invariant (P := fun c => PoolObeys may post c ∧
    ∀ i, EachAllowed (may i) (own i c.history)) ?_ h ⟨opened, fun _ => trivial⟩).2 i
  rintro c c' i ch ⟨pool, each⟩ fired
  refine ⟨fire_poolObeys pool fired, fun j => ?_⟩
  have here := pool i
  obtain ⟨op, next, r, w', head, _, rfl⟩ := fire_eq_some.mp fired
  rw [head] at here
  by_cases mine : i = j
  · subst mine
    rw [own_cons_self]
    exact ⟨here.1, each i⟩
  · rw [own_cons_other mine]
    exact each j

/-- Induction along the runs from one configuration: a step may use what is
known of every configuration the runs reach. -/
theorem leads_induction {P : Config ι W Ch Op Res ε α → Prop}
    {c₀ c : Config ι W Ch Op Res ε α} (h : Leads exec c₀ c) (base : P c₀)
    (step : ∀ c c' i ch, Leads exec c₀ c → P c → fire exec i ch c = some c' → P c') : P c := by
  refine (leads_invariant (P := fun c => Leads exec c₀ c ∧ P c) ?_ h
    ⟨leads_refl c₀, base⟩).2
  rintro c c' i ch ⟨reached, hp⟩ fired
  exact ⟨leads_trans reached (leads_of_fire fired), step c c' i ch reached hp fired⟩

/-- The invariant rule: to hold in every reachable state it is enough that `I`
holds at first and survives each call that a program may make after its own. -/
theorem leads_world_invariant {may : ι → List (Call Op Res) → Op → Prop}
    {post : ι → List (Call Op Res) → α → Prop} {I : W → List (Event ι Ch Op Res) → Prop}
    {c₀ c : Config ι W Ch Op Res ε α} (h : Leads exec c₀ c)
    (obeys : PoolObeys may post c₀) (base : I c₀.world c₀.history)
    (step : ∀ c i ch op r w', Leads exec c₀ c → I c.world c.history →
      may i (own i c.history) op → exec ch op c.world = some (r, w') →
        I w' (⟨i, ch, ⟨op, r⟩⟩ :: c.history)) : I c.world c.history := by
  refine leads_induction (P := fun c => I c.world c.history) h base ?_
  intro c c' i ch reached hi fired
  obtain ⟨op, next, r, w', head, answered, rfl⟩ := fire_eq_some.mp fired
  have here := leads_poolObeys reached obeys i
  rw [head] at here
  exact step c i ch op r w' reached hi here.1 answered

/-- A value that the world never hands out twice marks one event of a run. -/
theorem leads_fresh {T : Type} (tag : Call Op Res → Option T) (used : W → T → Prop)
    (kept : ∀ ch op w r w', exec ch op w = some (r, w') → ∀ t, used w t → used w' t)
    (fresh : ∀ ch op w r w', exec ch op w = some (r, w') → ∀ t, tag ⟨op, r⟩ = some t →
      ¬ used w t ∧ used w' t)
    {w : W} {progs : ι → Prog Op Res ε α} {c : Config ι W Ch Op Res ε α}
    (h : Leads exec (start w progs) c) :
    (∀ e ∈ c.history, ∀ t, tag e.call = some t → used c.world t) ∧
      ∀ e ∈ c.history, ∀ e' ∈ c.history, ∀ t, tag e.call = some t → tag e'.call = some t →
        e = e' := by
  refine leads_invariant (P := fun c =>
    (∀ e ∈ c.history, ∀ t, tag e.call = some t → used c.world t) ∧
      ∀ e ∈ c.history, ∀ e' ∈ c.history, ∀ t, tag e.call = some t → tag e'.call = some t →
        e = e') ?_ h (by simp [start])
  rintro c c' i ch ⟨spent, once⟩ fired
  obtain ⟨op, next, r, w', _, answered, rfl⟩ := fire_eq_some.mp fired
  have new := fresh _ _ _ _ _ answered
  refine ⟨?_, ?_⟩
  · intro e he t ht
    rcases List.mem_cons.mp he with rfl | he
    · exact (new t ht).2
    · exact kept _ _ _ _ _ answered t (spent e he t ht)
  · intro e he e' he' t ht ht'
    rcases List.mem_cons.mp he with rfl | he <;> rcases List.mem_cons.mp he' with rfl | he'
    · rfl
    · exact absurd (spent e' he' t ht') (new t ht).1
    · exact absurd (spent e he t ht) (new t ht').1
    · exact once e he e' he' t ht ht'

/-- What every answer satisfies holds of every event of a run. -/
lemma leads_answers {P : Call Op Res → Prop}
    (each : ∀ ch op w r w', exec ch op w = some (r, w') → P ⟨op, r⟩)
    {w : W} {progs : ι → Prog Op Res ε α} {c : Config ι W Ch Op Res ε α}
    (h : Leads exec (start w progs) c) {i : ι} {k : Call Op Res} (hk : k ∈ own i c.history) :
    P k := by
  have all : ∀ e ∈ c.history, P e.call := by
    refine leads_invariant (P := fun c => ∀ e ∈ c.history, P e.call) ?_ h (by simp [start])
    intro c c' i ch old fired e he
    obtain ⟨op, next, r, w', _, answered, rfl⟩ := fire_eq_some.mp fired
    rcases List.mem_cons.mp he with rfl | he
    · exact each _ _ _ _ _ answered
    · exact old e he
  obtain ⟨ch, mem⟩ := mem_own.mp hk
  exact all _ mem

/-- Histories only grow, at the front. -/
lemma leads_history_suffix {c c' : Config ι W Ch Op Res ε α} (h : Leads exec c c') :
    c.history <:+ c'.history := by
  refine leads_invariant (P := fun x => c.history <:+ x.history) ?_ h (List.suffix_refl _)
  intro x x' i ch hx fired
  obtain ⟨op, next, r, w', _, _, rfl⟩ := fire_eq_some.mp fired
  exact hx.trans (List.suffix_cons _ _)

/-- A finished program makes no more calls. -/
lemma leads_of_finished {c c' : Config ι W Ch Op Res ε α} {i : ι} (h : Leads exec c c')
    (finished : (c.pool i).outcome ≠ none) :
    c'.pool i = c.pool i ∧ own i c'.history = own i c.history := by
  refine leads_invariant
    (P := fun x => x.pool i = c.pool i ∧ own i x.history = own i c.history) ?_ h ⟨rfl, rfl⟩
  rintro x x' j ch ⟨hp, ho⟩ fired
  obtain ⟨op, next, r, w', head, _, rfl⟩ := fire_eq_some.mp fired
  by_cases hj : j = i
  · subst hj
    rw [← hp, head] at finished
    exact absurd rfl finished
  · simpa [own_cons_other hj, Function.update_of_ne (Ne.symm hj)] using And.intro hp ho

/-- The move that made one of the events since `c`. -/
lemma leads_split {c c' : Config ι W Ch Op Res ε α} (h : Leads exec c c')
    {new : List (Event ι Ch Op Res)} (since : c'.history = new ++ c.history)
    {e : Event ι Ch Op Res} (he : e ∈ new) :
    ∃ c₁ c₂, Leads exec c c₁ ∧ fire exec e.who e.choice c₁ = some c₂ ∧
      c₂.history = e :: c₁.history ∧ Leads exec c₂ c' := by
  refine leads_induction (P := fun x => ∀ new, x.history = new ++ c.history → e ∈ new →
    ∃ c₁ c₂, Leads exec c c₁ ∧ fire exec e.who e.choice c₁ = some c₂ ∧
      c₂.history = e :: c₁.history ∧ Leads exec c₂ x) h ?_ ?_ new since he
  · intro new since he
    rw [List.self_eq_append_left.mp since] at he
    exact absurd he List.not_mem_nil
  · intro x x' i ch reached ih fired new since he
    obtain ⟨older, hx⟩ := leads_history_suffix reached
    obtain ⟨op, next, r, w', head, answered, rfl⟩ := fire_eq_some.mp fired
    obtain rfl : new = ⟨i, ch, ⟨op, r⟩⟩ :: older := by
      rw [← hx, ← List.cons_append] at since
      exact (List.append_cancel_right since).symm
    rcases List.mem_cons.mp he with rfl | he
    · exact ⟨x, _, reached, fired, rfl, leads_refl _⟩
    · obtain ⟨c₁, c₂, before, step, hist, after⟩ := ih older hx.symm he
      exact ⟨c₁, c₂, before, step, hist, leads_trans after (leads_of_fire fired)⟩

lemma leads_split_new {c c' : Config ι W Ch Op Res ε α} (h : Leads exec c c')
    {e : Event ι Ch Op Res} (here : e ∈ c'.history) (missing : e ∉ c.history) :
    ∃ c₁ c₂, Leads exec c c₁ ∧ fire exec e.who e.choice c₁ = some c₂ ∧
      c₂.history = e :: c₁.history ∧ Leads exec c₂ c' := by
  obtain ⟨new, since⟩ := leads_history_suffix h
  refine leads_split h since.symm ?_
  rw [← since] at here
  exact (List.mem_append.mp here).resolve_right missing

/-- Own calls only grow, at the front. -/
lemma leads_own_suffix {c c' : Config ι W Ch Op Res ε α} (h : Leads exec c c') (i : ι) :
    own i c.history <:+ own i c'.history :=
  ((leads_history_suffix h).filter _).map _

/-- A move between the two configurations in which a program makes the call `k`
right after its calls `calls`. -/
def MadeBetween (exec : Ch → (op : Op) → W → Option (Res op × W))
    (c c' : Config ι W Ch Op Res ε α) (i : ι) (calls : List (Call Op Res)) (k : Call Op Res) :
    Prop :=
  ∃ c₁ c₂ ch, Leads exec c c₁ ∧ fire exec i ch c₁ = some c₂ ∧
    c₂.history = ⟨i, ch, k⟩ :: c₁.history ∧ own i c₁.history = calls.reverse ∧ Leads exec c₂ c'

/-- An own call that is still missing is made by a later move. -/
lemma leads_made {c c' : Config ι W Ch Op Res ε α} (h : Leads exec c c') {i : ι}
    {calls : List (Call Op Res)} {k : Call Op Res}
    (made : calls ++ [k] <+: (own i c'.history).reverse)
    (missing : (own i c.history).length ≤ calls.length) : MadeBetween exec c c' i calls k := by
  refine leads_induction (P := fun x => calls ++ [k] <+: (own i x.history).reverse →
    MadeBetween exec c x i calls k) h ?_ ?_ made
  · intro made
    have := made.length_le
    simp only [List.length_append, List.length_singleton, List.length_reverse] at this
    omega
  · intro x x' j ch reached ih fired made
    have earlier : calls ++ [k] <+: (own i x.history).reverse →
        MadeBetween exec c x' i calls k := by
      intro made
      obtain ⟨c₁, c₂, ch', before, step, history, calls, after⟩ := ih made
      exact ⟨c₁, c₂, ch', before, step, history, calls, leads_trans after (leads_of_fire fired)⟩
    obtain ⟨op, next, r, w', head, answered, rfl⟩ := fire_eq_some.mp fired
    by_cases mine : j = i
    · subst mine
      rw [own_cons_self, List.reverse_cons] at made
      rcases List.prefix_concat_iff.mp made with now | before
      · obtain ⟨rfl, same⟩ := List.append_inj' now rfl
        obtain rfl := List.singleton_inj.mp same
        exact ⟨x, _, ch, reached, fired, rfl, (List.reverse_reverse _).symm, leads_refl _⟩
      · exact earlier before
    · exact earlier (by simpa only [own_cons_other mine] using made)

/-- Along the run of a schedule, every move is made in a state with the property. -/
def Along (exec : Ch → (op : Op) → W → Option (Res op × W))
    (P : ι → Ch → Config ι W Ch Op Res ε α → Prop) :
    List (ι × Ch) → Config ι W Ch Op Res ε α → Prop
  | [], _ => True
  | m :: rest, c => P m.1 m.2 c ∧
    match fire exec m.1 m.2 c with
    | none => True
    | some c' => Along exec P rest c'

instance decidableAlong (exec : Ch → (op : Op) → W → Option (Res op × W))
    (P : ι → Ch → Config ι W Ch Op Res ε α → Prop) [∀ i ch c, Decidable (P i ch c)] :
    (schedule : List (ι × Ch)) → (c : Config ι W Ch Op Res ε α) →
      Decidable (Along exec P schedule c)
  | [], _ => isTrue trivial
  | m :: rest, c =>
    have : Decidable (match fire exec m.1 m.2 c with
        | none => True
        | some c' => Along exec P rest c') := by
      cases fire exec m.1 m.2 c with
      | none => exact isTrue trivial
      | some c' => exact decidableAlong exec P rest c'
    inferInstanceAs (Decidable (P m.1 m.2 c ∧ _))

/-- Induction along a run whose moves all have the property. -/
theorem along_induction {P : ι → Ch → Config ι W Ch Op Res ε α → Prop}
    {Q : Config ι W Ch Op Res ε α → Prop} {c₀ : Config ι W Ch Op Res ε α}
    (step : ∀ c c' i ch, Leads exec c₀ c → Q c → P i ch c → fire exec i ch c = some c' → Q c')
    {schedule : List (ι × Ch)} {c c' : Config ι W Ch Op Res ε α} (reached : Leads exec c₀ c)
    (base : Q c) (along : Along exec P schedule c) (played : play exec schedule c = some c') :
    Q c' := by
  induction schedule generalizing c with
  | nil => exact Option.some.inj played ▸ base
  | cons m rest ih =>
    obtain ⟨c₁, fired, continued⟩ := Option.bind_eq_some_iff.mp played
    obtain ⟨here, later⟩ := along
    simp only [fired] at later
    exact ih (leads_trans reached (leads_of_fire fired))
      (step _ _ _ _ reached base here fired) later
      continued

/-- A simulation that the moves of one program keep and that all other moves
carry to both sides relates a run to the run without that program. -/
theorem play_without {R : Config ι W Ch Op Res ε α → Config ι W Ch Op Res ε α → Prop}
    {P : ι → Ch → Config ι W Ch Op Res ε α → Prop} (i₀ : ι) {c₀ : Config ι W Ch Op Res ε α}
    (kept : ∀ c c' d ch, Leads exec c₀ c → R c d → P i₀ ch c → fire exec i₀ ch c = some c' → R c' d)
    (both : ∀ c c' d i ch, Leads exec c₀ c → R c d → i ≠ i₀ → fire exec i ch c = some c' →
      ∃ d', fire exec i ch d = some d' ∧ R c' d')
    {schedule : List (ι × Ch)} {c c' d : Config ι W Ch Op Res ε α} (reached : Leads exec c₀ c)
    (related : R c d) (along : Along exec P schedule c) (played : play exec schedule c = some c') :
    ∃ d', play exec (schedule.filter (·.1 ≠ i₀)) d = some d' ∧ R c' d' := by
  induction schedule generalizing c d with
  | nil => exact ⟨d, rfl, Option.some.inj played ▸ related⟩
  | cons m rest ih =>
    obtain ⟨c₁, fired, continued⟩ := Option.bind_eq_some_iff.mp played
    obtain ⟨here, later⟩ := along
    simp only [fired] at later
    have reached₁ := leads_trans reached (leads_of_fire fired)
    by_cases mine : m.1 = i₀
    · have related₁ := kept c c₁ d m.2 reached related (mine ▸ here) (mine ▸ fired)
      obtain ⟨d', playedAlone, related'⟩ := ih reached₁ related₁ later continued
      refine ⟨d', ?_, related'⟩
      rw [List.filter_cons_of_neg (by simpa using mine)]
      exact playedAlone
    · obtain ⟨d₁, firedAlone, related₁⟩ := both c c₁ d m.1 m.2 reached related mine fired
      obtain ⟨d', playedAlone, related'⟩ := ih reached₁ related₁ later continued
      refine ⟨d', ?_, related'⟩
      rw [List.filter_cons_of_pos (by simpa using mine)]
      simp only [play, firedAlone, Option.bind_some]
      exact playedAlone

end Interleaving
