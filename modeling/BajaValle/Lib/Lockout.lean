import Mathlib.Data.List.Basic
import Mathlib.Tactic.Lemma

/-!
# Lockout of repeated failures

The reference policy: the `limit`-th unblocked wrong attempt since the last
accepted attempt or lock event is a lock event, which blocks all attempts that
are checked less than `window` after it. Histories have the latest first.
`Guarded` is a weaker discipline, a counter and the end of a lock, that already
bounds the guesses of every half-open interval of length `window`.
-/

namespace Lockout

/-- One attempt: when it is checked against the lock, when it ends, and whether
its secret is right, if that can be told. -/
structure Attempt where
  time : Nat
  ended : Nat
  verdict : Option Bool

/-- The wrong attempts since the last accepted attempt or lock event, and the
times of all lock events. -/
structure Policy where
  streak : Nat
  locks : List Nat

section Policy
variable (limit window : Nat)

def Policy.blocks (p : Policy) (time : Nat) : Bool := p.locks.any fun s => time < s + window

def Policy.next (p : Policy) (a : Attempt) : Policy :=
  if p.blocks window a.time then p
  else
    match a.verdict with
    | none => p
    | some true => { p with streak := 0 }
    | some false =>
      if p.streak + 1 = limit then { streak := 0, locks := a.ended :: p.locks }
      else { p with streak := p.streak + 1 }

def policy : List Attempt → Policy
  | [] => { streak := 0, locks := [] }
  | a :: earlier => (policy earlier).next limit window a

/-- The attempts with a given verdict that were not blocked. -/
def unblocked (verdict : Bool) : List Attempt → List Attempt
  | [] => []
  | a :: earlier =>
    if ¬ (policy limit window earlier).blocks window a.time ∧ a.verdict = some verdict then
      a :: unblocked verdict earlier
    else unblocked verdict earlier

/-- Each attempt ends before the next one is checked. -/
def Sequential (history : List Attempt) : Prop :=
  (∀ a ∈ history, a.time ≤ a.ended) ∧ history.Pairwise fun later earlier =>
    earlier.ended ≤ later.time

/-- The half-open interval from `start`. -/
def Within (start time : Nat) : Prop := start ≤ time ∧ time < start + window

instance (start time : Nat) : Decidable (Within window start time) :=
  inferInstanceAs (Decidable (_ ∧ _))

end Policy

section Blocks
variable {limit window : Nat} {p : Policy} {t t' : Nat}

lemma blocks_iff : p.blocks window t = true ↔ ∃ s ∈ p.locks, t < s + window := by
  simp [Policy.blocks]

lemma Policy.blocks_earlier (blocks : p.blocks window t' = true) (h : t ≤ t') :
    p.blocks window t = true := by
  obtain ⟨s, hs, before⟩ := blocks_iff.mp blocks
  exact blocks_iff.mpr ⟨s, hs, Nat.lt_of_le_of_lt h before⟩

lemma next_blocked {a : Attempt} (blocked : p.blocks window a.time = true) :
    p.next limit window a = p := by
  rw [Policy.next, if_pos blocked]

lemma next_unblocked {a : Attempt} (free : p.blocks window a.time = false) :
    p.next limit window a = match a.verdict with
      | none => p
      | some true => { p with streak := 0 }
      | some false =>
        if p.streak + 1 = limit then { streak := 0, locks := a.ended :: p.locks }
        else { p with streak := p.streak + 1 } := by
  rw [Policy.next, if_neg (by simp [free])]

end Blocks

inductive Act where
  | guess
  | lock
  | clear
  deriving DecidableEq

/-- A history of timed acts, with the present time, the guesses counted so far
and the end of the lock. A guess needs room in the counter and no lock in
force; only a lock or a clear may lower the counter. -/
inductive Guarded (limit window : Nat) : List (Nat × Act) → Nat → Nat → Option Nat → Prop where
  | start (now count : Nat) (lockedUntil : Option Nat) :
      Guarded limit window [] now count lockedUntil
  | pass {acts : List (Nat × Act)} {now count count' t : Nat} {lockedUntil : Option Nat}
      (before : Guarded limit window acts now count lockedUntil) (later : now ≤ t)
      (kept : count ≤ count') : Guarded limit window acts t count' lockedUntil
  | guess {acts : List (Nat × Act)} {now count t : Nat} {lockedUntil : Option Nat}
      (before : Guarded limit window acts now count lockedUntil) (later : now ≤ t)
      (unlocked : ∀ u, lockedUntil = some u → u ≤ t) (room : count < limit) :
      Guarded limit window ((t, .guess) :: acts) t (count + 1) lockedUntil
  | lock {acts : List (Nat × Act)} {now count t : Nat} {lockedUntil : Option Nat}
      (before : Guarded limit window acts now count lockedUntil) (later : now ≤ t) (count' : Nat) :
      Guarded limit window ((t, .lock) :: acts) t count' (some (t + window))
  | clear {acts : List (Nat × Act)} {now count t : Nat} {lockedUntil : Option Nat}
      (before : Guarded limit window acts now count lockedUntil) (later : now ≤ t) (count' : Nat)
      (lockedUntil' : Option Nat) :
      Guarded limit window ((t, .clear) :: acts) t count' lockedUntil'

/-- The guesses made in the half-open interval from `start`. -/
def guesses (window start : Nat) (acts : List (Nat × Act)) : Nat :=
  acts.countP fun act => act.2 = .guess ∧ Within window start act.1

section Bound
variable {limit window start now count t : Nat} {lockedUntil : Option Nat} {acts : List (Nat × Act)}

lemma guesses_guess (h : Within window start t) :
    guesses window start ((t, .guess) :: acts) = guesses window start acts + 1 := by
  simp [guesses, h]

lemma guesses_outside (h : ¬ Within window start t) (act : Act) :
    guesses window start ((t, act) :: acts) = guesses window start acts := by
  simp [guesses, h]

lemma guesses_other {act : Act} (h : act ≠ .guess) :
    guesses window start ((t, act) :: acts) = guesses window start acts := by
  simp [guesses, h]

/-- What the guesses of an interval without a clear leave behind. -/
structure Bounded (limit window start : Nat) (acts : List (Nat × Act)) (now count : Nat)
    (lockedUntil : Option Nat) : Prop where
  few : guesses window start acts ≤ limit
  none_before : now < start → guesses window start acts = 0
  held : now < start + window →
    (∃ u, lockedUntil = some u ∧ start + window ≤ u) ∨ guesses window start acts ≤ count

lemma Guarded.bounded (guarded : Guarded limit window acts now count lockedUntil)
    (uncleared : ∀ act ∈ acts, act.2 = .clear → ¬ Within window start act.1) :
    Bounded limit window start acts now count lockedUntil := by
  induction guarded with
  | start now count lockedUntil => constructor <;> simp [guesses]
  | pass before later kept ih =>
    obtain ⟨few, none_before, held⟩ := ih uncleared
    refine ⟨few, fun h => none_before (by omega), fun h => ?_⟩
    exact (held (by omega)).imp_right fun le => by omega
  | @guess acts now count t lockedUntil before later unlocked room ih =>
    obtain ⟨few, none_before, held⟩ := ih fun act mem => uncleared act (List.mem_cons_of_mem _ mem)
    by_cases here : Within window start t
    · have le : guesses window start acts ≤ count := by
        rcases held (by have := here.2; omega) with ⟨u, locked, past⟩ | le
        · have := unlocked u locked
          have := here.2
          omega
        · exact le
      have more : guesses window start ((t, .guess) :: acts) = guesses window start acts + 1 :=
        guesses_guess here
      constructor
      · omega
      · intro h
        have := here.1
        omega
      · exact fun _ => .inr (by omega)
    · rw [Within] at here
      have same : guesses window start ((t, .guess) :: acts) = guesses window start acts :=
        guesses_outside here .guess
      constructor
      · omega
      · intro h
        have := none_before (by omega)
        omega
      · intro h
        have := none_before (by omega)
        exact .inr (by omega)
  | @lock acts now count t lockedUntil before later count' ih =>
    obtain ⟨few, none_before, held⟩ := ih fun act mem => uncleared act (List.mem_cons_of_mem _ mem)
    have same : guesses window start ((t, .lock) :: acts) = guesses window start acts :=
      guesses_other (by decide)
    constructor
    · omega
    · intro h
      have := none_before (by omega)
      omega
    · intro h
      by_cases early : t < start
      · have := none_before (by omega)
        exact .inr (by omega)
      · exact .inl ⟨_, rfl, by omega⟩
  | @clear acts now count t lockedUntil before later count' lockedUntil' ih =>
    obtain ⟨few, none_before, held⟩ := ih fun act mem => uncleared act (List.mem_cons_of_mem _ mem)
    have outside := uncleared _ List.mem_cons_self rfl
    have same : guesses window start ((t, .clear) :: acts) = guesses window start acts :=
      guesses_outside outside .clear
    rw [Within] at outside
    constructor
    · omega
    · intro h
      have := none_before (by omega)
      omega
    · intro h
      have := none_before (by omega)
      exact .inr (by omega)

/-- At most `limit` guesses fall into an interval of length `window` without a clear. -/
theorem Guarded.guesses_le (guarded : Guarded limit window acts now count lockedUntil)
    (uncleared : ∀ act ∈ acts, act.2 = .clear → ¬ Within window start act.1) :
    guesses window start acts ≤ limit :=
  (guarded.bounded uncleared).few

end Bound

section Policies
variable {limit window : Nat} {history : List Attempt}

/-- What an attempt does to the counter and the lock, the latest first. -/
def acts (limit window : Nat) : List Attempt → List (Nat × Act)
  | [] => []
  | a :: earlier =>
    let p := policy limit window earlier
    if p.blocks window a.time then acts limit window earlier
    else
      match a.verdict with
      | none => acts limit window earlier
      | some true => (a.time, .clear) :: acts limit window earlier
      | some false =>
        if p.streak + 1 = limit then
          (a.ended, .lock) :: (a.time, .guess) :: acts limit window earlier
        else (a.time, .guess) :: acts limit window earlier

lemma streak_lt (positive : 0 < limit) (history : List Attempt) :
    (policy limit window history).streak < limit := by
  induction history with
  | nil => exact positive
  | cons a earlier ih =>
    rw [policy]
    by_cases blocked : (policy limit window earlier).blocks window a.time = true
    · rw [next_blocked blocked]
      exact ih
    · rw [next_unblocked (by simpa using blocked)]
      split
      · exact ih
      · exact positive
      · split
        · exact positive
        · simp only
          omega

lemma Policy.unlocked {p : Policy} {t : Nat} (free : p.blocks window t = false) (u : Nat)
    (locked : p.locks.head?.map (· + window) = some u) : u ≤ t := by
  obtain ⟨s, head, rfl⟩ := Option.map_eq_some_iff.mp locked
  by_contra early
  have blocked := blocks_iff.mpr ⟨s, List.mem_of_mem_head? head, Nat.lt_of_not_le early⟩
  rw [free] at blocked
  cases blocked

/-- The policy keeps the discipline of a counter and a lock. -/
lemma policy_guarded (positive : 0 < limit) (sequential : Sequential history) (t : Nat)
    (past : ∀ a ∈ history, a.ended ≤ t) :
    Guarded limit window (acts limit window history) t (policy limit window history).streak
      ((policy limit window history).locks.head?.map (· + window)) := by
  induction history generalizing t with
  | nil => exact .start _ _ _
  | cons a earlier ih =>
    obtain ⟨ordered, before⟩ := sequential
    obtain ⟨previous, before⟩ := List.pairwise_cons.mp before
    have spans := ordered a List.mem_cons_self
    have ends := past a List.mem_cons_self
    have guarded := ih ⟨fun b hb => ordered b (List.mem_cons_of_mem _ hb), before⟩ a.time previous
    have later : a.time ≤ t := Nat.le_trans spans ends
    rw [acts, policy]
    by_cases blocked : (policy limit window earlier).blocks window a.time = true
    · simp only [next_blocked blocked, blocked, if_true]
      exact .pass guarded later (Nat.le_refl _)
    · have free := eq_false_of_ne_true blocked
      have unlocked := Policy.unlocked free
      have room : (policy limit window earlier).streak < limit := streak_lt positive earlier
      simp only [next_unblocked free, free, Bool.false_eq_true, if_false]
      cases a.verdict with
      | none => exact .pass guarded later (Nat.le_refl _)
      | some verdict =>
        cases verdict with
        | true => exact .pass (.clear guarded (Nat.le_refl _) 0 _) later (Nat.le_refl _)
        | false =>
          have guessed := Guarded.guess guarded (Nat.le_refl _) unlocked room
          by_cases last : (policy limit window earlier).streak + 1 = limit
          · simp only [last, if_true]
            exact .pass (.lock guessed spans 0) ends (Nat.le_refl _)
          · simp only [last, if_false]
            exact .pass guessed later (Nat.le_refl _)

lemma guesses_acts (start : Nat) (history : List Attempt) :
    guesses window start (acts limit window history) =
      (unblocked limit window false history).countP fun a => Within window start a.time := by
  induction history with
  | nil => rfl
  | cons a earlier ih =>
    rw [acts, unblocked]
    by_cases blocked : (policy limit window earlier).blocks window a.time = true
    · simp [blocked, ih]
    · cases hv : a.verdict with
      | none => simp [blocked, ih]
      | some verdict =>
        cases verdict with
        | true => simpa [blocked, guesses] using ih
        | false =>
          simp only [blocked, Bool.false_eq_true, if_false, not_false_eq_true, true_and, if_true]
          split <;> simp [guesses, List.countP_cons, ← ih]

lemma clears_acts {act : Nat × Act} (mem : act ∈ acts limit window history)
    (clear : act.2 = .clear) : ∃ a ∈ unblocked limit window true history, a.time = act.1 := by
  induction history with
  | nil => cases mem
  | cons a earlier ih =>
    rw [acts] at mem
    rw [unblocked]
    by_cases blocked : (policy limit window earlier).blocks window a.time = true
    · simp only [blocked, if_true] at mem
      simpa [blocked] using ih mem
    · cases hv : a.verdict with
      | none => simpa [blocked, hv] using ih (by simpa [blocked, hv] using mem)
      | some verdict =>
        cases verdict with
        | true =>
          simp only [blocked, hv, Bool.false_eq_true, if_false, List.mem_cons] at mem
          simp only [blocked]
          rcases mem with rfl | mem
          · exact ⟨a, List.mem_cons_self, rfl⟩
          · obtain ⟨b, hb, same⟩ := ih mem
            exact ⟨b, List.mem_cons_of_mem _ hb, same⟩
        | false =>
          simp only [blocked, hv, Bool.false_eq_true, if_false] at mem
          have older : act ∈ acts limit window earlier := by
            split at mem
            · rcases List.mem_cons.mp mem with rfl | mem
              · cases clear
              · rcases List.mem_cons.mp mem with rfl | mem
                · cases clear
                · exact mem
            · rcases List.mem_cons.mp mem with rfl | mem
              · cases clear
              · exact mem
          simpa [blocked] using ih older

/-- Under the policy at most `limit` wrong secrets are compared in an interval
of length `window` without an accepted attempt. -/
theorem wrong_le (positive : 0 < limit) (sequential : Sequential history) (start : Nat)
    (unaccepted : ∀ a ∈ unblocked limit window true history, ¬ Within window start a.time) :
    ((unblocked limit window false history).countP fun a => Within window start a.time) ≤
      limit := by
  obtain ⟨t, past⟩ : ∃ t, ∀ a ∈ history, a.ended ≤ t := by
    cases history with
    | nil => exact ⟨0, by simp⟩
    | cons a earlier =>
      obtain ⟨ordered, before⟩ := sequential
      obtain ⟨previous, _⟩ := List.pairwise_cons.mp before
      refine ⟨a.ended, fun b hb => ?_⟩
      rcases List.mem_cons.mp hb with rfl | hb
      · exact Nat.le_refl _
      · exact Nat.le_trans (previous b hb) (ordered a List.mem_cons_self)
  rw [← guesses_acts]
  refine (policy_guarded positive sequential t past).guesses_le ?_
  intro act mem clear
  obtain ⟨a, ha, same⟩ := clears_acts mem clear
  exact same ▸ unaccepted a ha

end Policies

end Lockout
