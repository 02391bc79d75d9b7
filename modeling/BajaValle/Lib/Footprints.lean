import Mathlib.Data.List.Basic

/-!
# Logs of calls and the cells they touch

A run performs a list of calls one after another. A cell keeps its content through
the calls that do not touch it, so what it holds at the end is decided by the calls
of the log that touch it.
-/

namespace Footprints

variable {Call Cell V State ε : Type} (touches : Call → Cell → Prop)
  (step : Call → State → Except ε State) (read : State → Cell → V)
  (free : State → Cell → Prop)

/-- The calls of a log on a state, up to the first that fails. -/
def perform (log : List Call) (s : State) : Except ε State :=
  log.foldlM (fun s call => step call s) s

/-- A call leaves alone the free cells that it does not touch, and leaves them free. -/
def Frames : Prop := ∀ call s s' cell, step call s = .ok s' → free s cell →
  ¬ touches call cell → read s' cell = read s cell ∧ free s' cell

section Run
variable {touches step read free} {cell : Cell} {log log' : List Call} {s s' : State}

@[simp] lemma perform_nil : perform step [] s = .ok s := rfl

lemma perform_cons {call : Call} :
    perform step (call :: log) s = step call s >>= perform step log := rfl

lemma perform_cons_eq_ok {call : Call} :
    perform step (call :: log) s = .ok s' ↔
      ∃ mid, step call s = .ok mid ∧ perform step log mid = .ok s' := by
  rw [perform_cons]
  cases step call s with
  | error e => simp [bind, Except.bind]
  | ok mid => simp [bind, Except.bind]

lemma perform_append_eq_ok :
    perform step (log ++ log') s = .ok s' ↔
      ∃ mid, perform step log s = .ok mid ∧ perform step log' mid = .ok s' := by
  induction log generalizing s with
  | nil => simp
  | cons call log ih => simp only [List.cons_append, perform_cons_eq_ok, ih]; grind

/-- A log that does not touch a free cell leaves it alone. -/
theorem run_frame (frames : Frames touches step read free)
    (run : perform step log s = .ok s') (isFree : free s cell)
    (untouched : ∀ call ∈ log, ¬ touches call cell) :
    read s' cell = read s cell ∧ free s' cell := by
  induction log generalizing s with
  | nil =>
    cases run
    exact ⟨rfl, isFree⟩
  | cons call log ih =>
    obtain ⟨mid, first, rest⟩ := perform_cons_eq_ok.1 run
    obtain ⟨kept, midFree⟩ := frames _ _ _ _ first isFree (untouched call List.mem_cons_self)
    obtain ⟨same, isFree'⟩ := ih rest midFree fun c hc => untouched c (List.mem_cons_of_mem _ hc)
    exact ⟨same.trans kept, isFree'⟩

end Run

variable [∀ call cell, Decidable (touches call cell)]

/-- The calls of a log that touch a cell, in order. -/
def touching (cell : Cell) (log : List Call) : List Call :=
  log.filter fun call => touches call cell

section Touching
variable {touches step read free} {cell : Cell} {log log' : List Call}

@[simp] lemma touching_nil : touching touches cell [] = [] := rfl

lemma touching_cons {call : Call} :
    touching touches cell (call :: log) =
      if touches call cell then call :: touching touches cell log
      else touching touches cell log := by
  simp [touching, List.filter_cons]

@[simp] lemma touching_append :
    touching touches cell (log ++ log') =
      touching touches cell log ++ touching touches cell log' :=
  List.filter_append ..

@[simp] lemma touching_eq_nil :
    touching touches cell log = [] ↔ ∀ call ∈ log, ¬ touches call cell := by
  simp [touching]

/-- Calls that touch only cells of other rows do not touch this one. -/
lemma touching_of_rows (row : Cell → Nat) (rows : Nat → Prop)
    (within : ∀ call ∈ log, ∀ c, touches call c → rows (row c)) (outside : ¬ rows (row cell)) :
    touching touches cell log = [] :=
  touching_eq_nil.2 fun call hcall touched => outside (within call hcall cell touched)

/-- What stands around the only call that touches a cell does not touch it. -/
theorem split_of_touching {call : Call} (only : touching touches cell log = [call]) :
    ∃ before after, log = before ++ call :: after ∧
      (∀ other ∈ before, ¬ touches other cell) ∧ ∀ other ∈ after, ¬ touches other cell := by
  obtain ⟨before, after, rfl, early, -, late⟩ := List.filter_eq_cons_iff.1 only
  refine ⟨before, after, rfl, fun other hother => by simpa using early other hother, ?_⟩
  exact touching_eq_nil.1 late

/-- A free cell that one call of the log touches holds what that call leaves in it. -/
theorem read_of_touching (frames : Frames touches step read free) {call : Call} {v : V}
    (only : touching touches cell log = [call])
    (written : ∀ {s s'}, step call s = .ok s' → free s cell → read s' cell = v ∧ free s' cell)
    {s s' : State} (run : perform step log s = .ok s') (isFree : free s cell) :
    read s' cell = v := by
  obtain ⟨before, after, rfl, early, late⟩ := split_of_touching only
  obtain ⟨mid, runBefore, runCall⟩ := perform_append_eq_ok.1 run
  obtain ⟨mid', stepped, runAfter⟩ := perform_cons_eq_ok.1 runCall
  obtain ⟨-, midFree⟩ := run_frame frames runBefore isFree early
  obtain ⟨holds, midFree'⟩ := written stepped midFree
  exact (run_frame frames runAfter midFree' late).1.trans holds

end Touching

end Footprints
