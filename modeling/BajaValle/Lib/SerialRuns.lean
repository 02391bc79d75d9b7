import BajaValle.Lib.CallPrograms

/-!
# Programs run alone

A run executes the calls of one program on a world, one after another. A choice
resolves what the world leaves open at a call, such as the time or a random
draw. `Meets` says of all runs that `I` holds wherever one may stop and that
every end has the property `post`; a program that only uses calls which can be
answered comes to an end.
-/

namespace CallPrograms.Prog

variable {Op : Type} {Res : Op → Type} {ε α β W Ch : Type}

/-- The calls a program makes from one point to another, with `h` its calls so
far, latest first. A choice that is not allowed is never taken. -/
inductive Runs (exec : Ch → (op : Op) → W → Option (Res op × W)) (allow : Ch → Prop) :
    Prog Op Res ε α → List (Call Op Res) → W → Prog Op Res ε α → List (Call Op Res) → W → Prop where
  | stop (p : Prog Op Res ε α) (h : List (Call Op Res)) (w : W) : Runs exec allow p h w p h w
  | call {op : Op} {next : Res op → Prog Op Res ε α} {ch : Ch} {r : Res op} {w w₁ w₂ : W}
      {p : Prog Op Res ε α} {h h₂ : List (Call Op Res)} (allowed : allow ch)
      (answered : exec ch op w = some (r, w₁))
      (rest : Runs exec allow (next r) (⟨op, r⟩ :: h) w₁ p h₂ w₂) :
      Runs exec allow (.call op next) h w p h₂ w₂

variable (exec : Ch → (op : Op) → W → Option (Res op × W)) (allow : Ch → Prop)

/-- The whole run of a program, with its calls and how it ended. -/
def Finishes (p : Prog Op Res ε α) (w : W) (h : List (Call Op Res)) (out : Except ε α) (w' : W) :
    Prop :=
  ∃ p', Runs exec allow p [] w p' h w' ∧ p'.outcome = some out

def Meets (I : List (Call Op Res) → W → Prop) (post : List (Call Op Res) → Except ε α → W → Prop) :
    List (Call Op Res) → W → Prog Op Res ε α → Prop
  | h, w, .ret a => I h w ∧ post h (.ok a) w
  | h, w, .throw e => I h w ∧ post h (.error e) w
  | h, w, .call op next => I h w ∧ ∀ ch r w₁, allow ch → exec ch op w = some (r, w₁) →
      Meets I post (⟨op, r⟩ :: h) w₁ (next r)

variable {exec allow} {I : List (Call Op Res) → W → Prop}
  {post post' : List (Call Op Res) → Except ε α → W → Prop} {h h' : List (Call Op Res)} {w w' : W}

lemma Runs.trans {p₁ p₂ p₃ : Prog Op Res ε α} {h₁ h₂ h₃ : List (Call Op Res)} {w₁ w₂ w₃ : W}
    (first : Runs exec allow p₁ h₁ w₁ p₂ h₂ w₂) (second : Runs exec allow p₂ h₂ w₂ p₃ h₃ w₃) :
    Runs exec allow p₁ h₁ w₁ p₃ h₃ w₃ := by
  induction first with
  | stop p h w => exact second
  | call allowed answered _ ih => exact .call allowed answered (ih second)

lemma Meets.invariant {p : Prog Op Res ε α} (meets : Meets exec allow I post h w p) : I h w := by
  cases p with
  | ret a => exact meets.1
  | throw e => exact meets.1
  | call op next => exact meets.1

lemma Meets.mono {p : Prog Op Res ε α} (meets : Meets exec allow I post h w p)
    (implied : ∀ h out w, I h w → post h out w → post' h out w) :
    Meets exec allow I post' h w p := by
  induction p generalizing h w with
  | ret a => exact ⟨meets.1, implied _ _ _ meets.1 meets.2⟩
  | throw e => exact ⟨meets.1, implied _ _ _ meets.1 meets.2⟩
  | call op next ih =>
    exact ⟨meets.1, fun ch r w₁ allowed answered => ih r (meets.2 ch r w₁ allowed answered)⟩

/-- The rule of consequence for the invariant. -/
lemma Meets.weaken {I' : List (Call Op Res) → W → Prop} {p : Prog Op Res ε α}
    (meets : Meets exec allow I post h w p) (implied : ∀ h w, I h w → I' h w) :
    Meets exec allow I' post h w p := by
  induction p generalizing h w with
  | ret a => exact ⟨implied _ _ meets.1, meets.2⟩
  | throw e => exact ⟨implied _ _ meets.1, meets.2⟩
  | call op next ih =>
    exact ⟨implied _ _ meets.1, fun ch r w₁ allowed answered =>
      ih r (meets.2 ch r w₁ allowed answered)⟩

lemma Meets.and {I' : List (Call Op Res) → W → Prop} {p : Prog Op Res ε α}
    (meets : Meets exec allow I post h w p) (meets' : Meets exec allow I' post' h w p) :
    Meets exec allow (fun h w => I h w ∧ I' h w)
      (fun h out w => post h out w ∧ post' h out w) h w p := by
  induction p generalizing h w with
  | ret a => exact ⟨⟨meets.1, meets'.1⟩, meets.2, meets'.2⟩
  | throw e => exact ⟨⟨meets.1, meets'.1⟩, meets.2, meets'.2⟩
  | call op next ih =>
    exact ⟨⟨meets.1, meets'.1⟩, fun ch r w₁ allowed answered =>
      ih r (meets.2 ch r w₁ allowed answered) (meets'.2 ch r w₁ allowed answered)⟩

/-- The invariant may be dropped once the ends show it. -/
lemma Meets.ends {p : Prog Op Res ε α} (meets : Meets exec allow I post h w p) :
    Meets exec allow (fun _ _ => True) (fun h out w => I h w ∧ post h out w) h w p := by
  induction p generalizing h w with
  | ret a => exact ⟨trivial, meets⟩
  | throw e => exact ⟨trivial, meets⟩
  | call op next ih =>
    exact ⟨trivial, fun ch r w₁ allowed answered => ih r (meets.2 ch r w₁ allowed answered)⟩

/-- The rule of sequences: the rest meets its end from wherever the first part
returned, and the failures of the first part are ends. -/
lemma meets_bind {p : Prog Op Res ε α} {f : α → Prog Op Res ε β}
    {post : List (Call Op Res) → Except ε β → W → Prop}
    (first : Meets exec allow I (fun h out w =>
      (∀ a, out = .ok a → Meets exec allow I post h w (f a)) ∧
        ∀ e, out = .error e → post h (.error e) w) h w p) :
    Meets exec allow I post h w (p >>= f) := by
  induction p generalizing h w with
  | ret a => exact first.2.1 a rfl
  | throw e => exact ⟨first.1, first.2.2 e rfl⟩
  | call op next ih =>
    exact ⟨first.1, fun ch r w₁ allowed answered => ih r (first.2 ch r w₁ allowed answered)⟩

/-- The rule of handlers: a failure is an answer as well. -/
lemma meets_attempt {p : Prog Op Res ε α}
    {post : List (Call Op Res) → Except ε (Except ε α) → W → Prop}
    (meets : Meets exec allow I (fun h out w => post h (.ok out) w) h w p) :
    Meets exec allow I post h w p.attempt := by
  induction p generalizing h w with
  | ret a => exact meets
  | throw e => exact meets
  | call op next ih =>
    exact ⟨meets.1, fun ch r w₁ allowed answered => ih r (meets.2 ch r w₁ allowed answered)⟩

/-- Where neither the invariant nor the ends look at the calls, those before do not matter. -/
lemma Meets.anywhere {J : W → Prop} {ends : Except ε α → W → Prop} {p : Prog Op Res ε α}
    (meets : Meets exec allow (fun _ w => J w) (fun _ out w => ends out w) h w p) :
    Meets exec allow (fun _ w => J w) (fun _ out w => ends out w) h' w p := by
  induction p generalizing h h' w with
  | ret a => exact meets
  | throw e => exact meets
  | call op next ih =>
    exact ⟨meets.1, fun ch r w₁ allowed answered => ih r (meets.2 ch r w₁ allowed answered)⟩

/-- What a program concludes from any answers, its runs conclude. -/
lemma Concludes.meets {p : Prog Op Res ε α} {ends : List (Call Op Res) → Except ε α → Prop}
    (concludes : p.Concludes ends h) :
    Meets exec allow (fun _ _ => True) (fun h out _ => ends h out) h w p := by
  induction p generalizing h w with
  | ret a => exact ⟨trivial, concludes⟩
  | throw e => exact ⟨trivial, concludes⟩
  | call op next ih => exact ⟨trivial, fun _ r _ _ _ => ih r (concludes r)⟩

lemma Runs.meets {p p' : Prog Op Res ε α} (run : Runs exec allow p h w p' h' w')
    (meets : Meets exec allow I post h w p) : Meets exec allow I post h' w' p' := by
  induction run with
  | stop p h w => exact meets
  | call allowed answered _ ih => exact ih (meets.2 _ _ _ allowed answered)

/-- An invariant that the calls a program may make preserve holds along its
runs, and what the program returns is as its rule says. -/
lemma meets_of_obeys {may : List (Call Op Res) → Op → Prop} {after : List (Call Op Res) → α → Prop}
    {p : Prog Op Res ε α} (obeys : p.Obeys may after h) (here : I h w)
    (step : ∀ h w ch op r w₁, may h op → allow ch → exec ch op w = some (r, w₁) → I h w →
      I (⟨op, r⟩ :: h) w₁) :
    Meets exec allow I (fun h out _ => ∀ a, out = .ok a → after h a) h w p := by
  induction p generalizing h w with
  | ret a =>
    refine ⟨here, ?_⟩
    rintro _ ⟨⟩
    exact obeys
  | throw e => exact ⟨here, by simp⟩
  | call op next ih =>
    exact ⟨here, fun ch r w₁ allowed answered =>
      ih r (obeys.2 r) (step h w ch op r w₁ obeys.1 allowed answered here)⟩

/-- Every point of a run satisfies the invariant. -/
theorem Meets.runs {p p' : Prog Op Res ε α} (meets : Meets exec allow I post h w p)
    (run : Runs exec allow p h w p' h' w') : I h' w' :=
  (run.meets meets).invariant

theorem Meets.finishes {p : Prog Op Res ε α} {out : Except ε α}
    (meets : Meets exec allow I post [] w p) (finishes : Finishes exec allow p w h' out w') :
    I h' w' ∧ post h' out w' := by
  obtain ⟨p', run, ended⟩ := finishes
  have there := run.meets meets
  cases p' with
  | ret a =>
    obtain rfl := Option.some.inj ended
    exact there
  | throw e =>
    obtain rfl := Option.some.inj ended
    exact there
  | call op next => cases ended

/-- A program whose calls can all be answered has a run to an end. -/
theorem Uses.terminates {kind : Op → Prop} {p : Prog Op Res ε α} (uses : p.Uses kind)
    (able : ∀ op w, kind op → ∃ ch, allow ch ∧ exec ch op w ≠ none) (h : List (Call Op Res))
    (w : W) : ∃ p' h' w', Runs exec allow p h w p' h' w' ∧ p'.outcome ≠ none := by
  have obeys := uses_anywhere uses h
  clear uses
  induction p generalizing h w with
  | ret a => exact ⟨_, _, _, .stop _ _ _, Option.some_ne_none _⟩
  | throw e => exact ⟨_, _, _, .stop _ _ _, Option.some_ne_none _⟩
  | call op next ih =>
    obtain ⟨ch, allowed, answers⟩ := able op w obeys.1
    obtain ⟨⟨r, w₁⟩, answered⟩ := Option.ne_none_iff_exists'.mp answers
    obtain ⟨p', h', w', rest, ended⟩ := ih r (⟨op, r⟩ :: h) w₁ (obeys.2 r)
    exact ⟨p', h', w', .call allowed answered rest, ended⟩

/-- A program comes to an end if, wherever its invariant holds, the calls it may
make there can be answered. -/
theorem Meets.terminates {may : List (Call Op Res) → Op → Prop}
    {after : List (Call Op Res) → α → Prop}
    {p : Prog Op Res ε α} (meets : Meets exec allow I post h w p) (obeys : p.Obeys may after h)
    (able : ∀ h w op, I h w → may h op → ∃ ch, allow ch ∧ exec ch op w ≠ none) :
    ∃ p' h' w', Runs exec allow p h w p' h' w' ∧ p'.outcome ≠ none := by
  induction p generalizing h w with
  | ret a => exact ⟨_, _, _, .stop _ _ _, Option.some_ne_none _⟩
  | throw e => exact ⟨_, _, _, .stop _ _ _, Option.some_ne_none _⟩
  | call op next ih =>
    obtain ⟨ch, allowed, answers⟩ := able h w op meets.1 obeys.1
    obtain ⟨⟨r, w₁⟩, answered⟩ := Option.ne_none_iff_exists'.mp answers
    obtain ⟨p', h', w', rest, ended⟩ := ih r (meets.2 ch r w₁ allowed answered) (obeys.2 r)
    exact ⟨p', h', w', .call allowed answered rest, ended⟩

lemma Runs.uses {kind : Op → Prop} {p p' : Prog Op Res ε α}
    (run : Runs exec allow p h w p' h' w') (uses : p.Uses kind) : p'.Uses kind := by
  induction run with
  | stop p h w => exact uses
  | call _ _ _ ih => exact ih (uses_anywhere (uses.2 _) [])

/-- Run a program with given choices, as far as they reach. -/
def feed (exec : Ch → (op : Op) → W → Option (Res op × W)) :
    List Ch → Prog Op Res ε α → List (Call Op Res) → W →
      Option (Prog Op Res ε α × List (Call Op Res) × W)
  | [], p, h, w => some (p, h, w)
  | ch :: rest, .call op next, h, w =>
    (exec ch op w).bind fun out => feed exec rest (next out.1) (⟨op, out.1⟩ :: h) out.2
  | _ :: _, _, _, _ => none

lemma runs_of_feed {choices : List Ch} {p : Prog Op Res ε α}
    {end_ : Prog Op Res ε α × List (Call Op Res) × W}
    (fed : feed exec choices p h w = some end_) (allowed : ∀ ch ∈ choices, allow ch) :
    Runs exec allow p h w end_.1 end_.2.1 end_.2.2 := by
  induction choices generalizing p h w with
  | nil =>
    obtain rfl := Option.some.inj fed
    exact .stop p h w
  | cons ch rest ih =>
    cases p with
    | ret a => cases fed
    | throw e => cases fed
    | call op next =>
      obtain ⟨⟨r, w₁⟩, answered, fed⟩ := Option.bind_eq_some_iff.mp fed
      exact .call (allowed ch List.mem_cons_self) answered
        (ih fed fun ch' hch => allowed ch' (List.mem_cons_of_mem _ hch))

/-- A run by given choices that ends and shows a property. -/
lemma finishes_of_feed {p : Prog Op Res ε α} {P : List (Call Op Res) → Except ε α → W → Bool}
    (choices : List Ch) (allowed : ∀ ch ∈ choices, allow ch)
    (shown : (feed exec choices p [] w).any (fun end_ =>
      end_.1.outcome.any fun out => P end_.2.1 out end_.2.2) = true) :
    ∃ h out w', Finishes exec allow p w h out w' ∧ P h out w' = true := by
  obtain ⟨end_, fed, shown⟩ := (Option.any_eq_true _ _).mp shown
  obtain ⟨out, ended, holds⟩ := (Option.any_eq_true _ _).mp shown
  exact ⟨end_.2.1, out, end_.2.2, ⟨end_.1, runs_of_feed fed allowed, ended⟩, holds⟩

end CallPrograms.Prog
