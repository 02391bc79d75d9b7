import Mathlib.Tactic.Lemma
import Mathlib.Logic.Basic

/-!
# Programs that pause at calls

A program has returned, has failed, or waits for the answer of one call. Every
answer type may depend on its call. `Obeys` describes a program on its own,
whatever its calls answer.
-/

namespace CallPrograms

variable {Op : Type} {Res : Op → Type} {ε α β : Type}

inductive Prog (Op : Type) (Res : Op → Type) (ε α : Type) where
  | ret (value : α)
  | throw (error : ε)
  | call (op : Op) (next : Res op → Prog Op Res ε α)

/-- One answered call. -/
structure Call (Op : Type) (Res : Op → Type) where
  op : Op
  res : Res op

instance [DecidableEq Op] [∀ op, DecidableEq (Res op)] : DecidableEq (Call Op Res)
  | ⟨op, r⟩, ⟨op', r'⟩ =>
    if same : op = op' then
      decidable_of_iff (same ▸ r = r') (by subst same; simp)
    else isFalse (by simp [same])

namespace Prog

def bind : Prog Op Res ε α → (α → Prog Op Res ε β) → Prog Op Res ε β
  | .ret value, f => f value
  | .throw error, _ => .throw error
  | .call op next, f => .call op fun r => (next r).bind f

instance : Monad (Prog Op Res ε) where
  pure := .ret
  bind := .bind

/-- The program that makes one call and returns its answer. -/
def perform (op : Op) : Prog Op Res ε (Res op) := .call op .ret

/-- Return a success, raise a failure. -/
def ofExcept : Except ε α → Prog Op Res ε α
  | .ok value => .ret value
  | .error error => .throw error

/-- Run to the end and return the outcome: a `catch` of every failure. -/
def attempt : Prog Op Res ε α → Prog Op Res ε (Except ε α)
  | .ret value => .ret (.ok value)
  | .throw error => .ret (.error error)
  | .call op next => .call op fun r => (next r).attempt

/-- Change the failures. -/
def mapError {ε' : Type} (f : ε → ε') : Prog Op Res ε α → Prog Op Res ε' α
  | .ret value => .ret value
  | .throw error => .throw (f error)
  | .call op next => .call op fun r => (next r).mapError f

@[simp] lemma pure_eq (a : α) : (pure a : Prog Op Res ε α) = .ret a := rfl

@[simp] lemma ret_bind (a : α) (f : α → Prog Op Res ε β) :
    ((.ret a : Prog Op Res ε α) >>= f) = f a := rfl

@[simp] lemma throw_bind (e : ε) (f : α → Prog Op Res ε β) :
    ((.throw e : Prog Op Res ε α) >>= f) = .throw e := rfl

@[simp] lemma call_bind (op : Op) (next : Res op → Prog Op Res ε α)
    (f : α → Prog Op Res ε β) :
    ((.call op next : Prog Op Res ε α) >>= f) = .call op fun r => next r >>= f := rfl

@[simp] lemma perform_bind (op : Op) (f : Res op → Prog Op Res ε β) :
    ((perform op : Prog Op Res ε (Res op)) >>= f) = .call op f := rfl

/-! What `ofExcept` raises comes from one of the steps that computed it. -/

lemma except_bind_eq_ok {x : Except ε α} {f : α → Except ε β} {b : β} :
    x >>= f = .ok b ↔ ∃ a, x = .ok a ∧ f a = .ok b := by
  cases x with
  | ok a => simp [Bind.bind, Except.bind]
  | error e => simp [Bind.bind, Except.bind]

lemma except_bind_eq_error {x : Except ε α} {f : α → Except ε β} {e : ε} :
    x >>= f = .error e ↔ x = .error e ∨ ∃ a, x = .ok a ∧ f a = .error e := by
  cases x with
  | ok a => simp [Bind.bind, Except.bind]
  | error e => simp [Bind.bind, Except.bind]

@[simp] lemma ofExcept_ok (a : α) : (ofExcept (.ok a) : Prog Op Res ε α) = .ret a := rfl

@[simp] lemma ofExcept_error (e : ε) : (ofExcept (.error e) : Prog Op Res ε α) = .throw e := rfl

instance : LawfulMonad (Prog Op Res ε) := LawfulMonad.mk' _
  (by
    intro α p
    induction p with
    | ret a => rfl
    | throw e => rfl
    | call op next ih => exact congrArg (Prog.call op) (funext ih))
  (fun _ _ => rfl)
  (by
    intro α β γ p f g
    induction p with
    | ret a => rfl
    | throw e => rfl
    | call op next ih => exact congrArg (Prog.call op) (funext ih))

/-- How a program that waits for nothing has ended. -/
def outcome : Prog Op Res ε α → Option (Except ε α)
  | .ret value => some (.ok value)
  | .throw error => some (.error error)
  | .call _ _ => none

lemma outcome_eq_ok {p : Prog Op Res ε α} {a : α} : p.outcome = some (.ok a) ↔ p = .ret a := by
  cases p <;> simp [outcome]

/-- The program goes on in the same way after answers that are alike. -/
def Ignores (alike : (op : Op) → Res op → Res op → Prop) : Prog Op Res ε α → Prop
  | .ret _ => True
  | .throw _ => True
  | .call op next => (∀ r r', alike op r r' → next r = next r') ∧
    ∀ r, (next r).Ignores alike

lemma ignores_bind {alike : (op : Op) → Res op → Res op → Prop} {p : Prog Op Res ε α}
    {f : α → Prog Op Res ε β} (first : p.Ignores alike) (rest : ∀ a, (f a).Ignores alike) :
    (p >>= f).Ignores alike := by
  induction p with
  | ret a => exact rest a
  | throw e => trivial
  | call op next ih =>
    refine ⟨fun r r' same => ?_, fun r => ih r (first.2 r)⟩
    exact congrArg (· >>= f) (first.1 r r' same)

/-- After the own calls `h`, latest first, the program makes a call only when
`may` allows it then, and returns only values with the property `post`. -/
def Obeys (may : List (Call Op Res) → Op → Prop) (post : List (Call Op Res) → α → Prop) :
    List (Call Op Res) → Prog Op Res ε α → Prop
  | h, .ret value => post h value
  | _, .throw _ => True
  | h, .call op next => may h op ∧ ∀ r, Obeys may post (⟨op, r⟩ :: h) (next r)

section Obeys
variable {may may' : List (Call Op Res) → Op → Prop}
  {post post' : List (Call Op Res) → α → Prop} {postβ : List (Call Op Res) → β → Prop}
  {h : List (Call Op Res)}

@[simp] lemma obeys_ret (a : α) :
    (Prog.ret a : Prog Op Res ε α).Obeys may post h ↔ post h a := Iff.rfl

@[simp] lemma obeys_throw (e : ε) :
    (Prog.throw e : Prog Op Res ε α).Obeys may post h ↔ True := Iff.rfl

@[simp] lemma obeys_call (op : Op) (next : Res op → Prog Op Res ε α) :
    (Prog.call op next).Obeys may post h ↔
      may h op ∧ ∀ r, (next r).Obeys may post (⟨op, r⟩ :: h) := Iff.rfl

/-- The rule of sequences: what holds between the parts is `M`. -/
lemma obeys_bind {M : List (Call Op Res) → α → Prop} {p : Prog Op Res ε α}
    {f : α → Prog Op Res ε β} (first : p.Obeys may M h)
    (rest : ∀ h a, M h a → (f a).Obeys may postβ h) : (p >>= f).Obeys may postβ h := by
  induction p generalizing h with
  | ret a => exact rest h a first
  | throw e => trivial
  | call op next ih => exact ⟨first.1, fun r => ih r (first.2 r)⟩

lemma Obeys.mono {p : Prog Op Res ε α} (obeys : p.Obeys may post h)
    (weaker : ∀ h op, may h op → may' h op) (implied : ∀ h a, post h a → post' h a) :
    p.Obeys may' post' h := by
  induction p generalizing h with
  | ret a => exact implied h a obeys
  | throw e => trivial
  | call op next ih => exact ⟨weaker h op obeys.1, fun r => ih r (obeys.2 r)⟩

/-- Every call the program may ever make is in the class. -/
def Uses (kind : Op → Prop) (p : Prog Op Res ε α) : Prop :=
  p.Obeys (fun _ op => kind op) (fun _ _ => True) []

/-- `h'` is `h` with later calls of the class before it. -/
def Extends (kind : Op → Prop) (h h' : List (Call Op Res)) : Prop :=
  ∃ new, h' = new ++ h ∧ ∀ k ∈ new, kind k.op

lemma Extends.refl (kind : Op → Prop) (h : List (Call Op Res)) : Extends kind h h :=
  ⟨[], rfl, by simp⟩

lemma Extends.cons {kind : Op → Prop} {h h' : List (Call Op Res)} (ext : Extends kind h h')
    {k : Call Op Res} (hk : kind k.op) : Extends kind h (k :: h') := by
  obtain ⟨new, rfl, all⟩ := ext
  refine ⟨k :: new, rfl, ?_⟩
  intro k' hk'
  rcases List.mem_cons.mp hk' with rfl | hk'
  · exact hk
  · exact all k' hk'

lemma Extends.trans {kind : Op → Prop} {h₁ h₂ h₃ : List (Call Op Res)}
    (first : Extends kind h₁ h₂) (second : Extends kind h₂ h₃) : Extends kind h₁ h₃ := by
  obtain ⟨new, rfl, all⟩ := first
  obtain ⟨newer, rfl, allNewer⟩ := second
  refine ⟨newer ++ new, by simp, ?_⟩
  intro k hk
  exact (List.mem_append.mp hk).elim (allNewer k) (all k)

lemma Extends.mono {kind kind' : Op → Prop} {h h' : List (Call Op Res)}
    (ext : Extends kind h h') (wider : ∀ op, kind op → kind' op) : Extends kind' h h' := by
  obtain ⟨new, rfl, all⟩ := ext
  exact ⟨new, rfl, fun k hk => wider _ (all k hk)⟩

lemma Extends.mem {kind : Op → Prop} {h h' : List (Call Op Res)} (ext : Extends kind h h')
    {k : Call Op Res} (hk : k ∈ h) : k ∈ h' := by
  obtain ⟨new, rfl, _⟩ := ext
  exact List.mem_append_right new hk

lemma Extends.mem_or {kind : Op → Prop} {h h' : List (Call Op Res)} (ext : Extends kind h h')
    {k : Call Op Res} (hk : k ∈ h') : k ∈ h ∨ kind k.op := by
  obtain ⟨new, rfl, all⟩ := ext
  exact (List.mem_append.mp hk).elim (fun hn => .inr (all k hn)) .inl

lemma uses_ret {kind : Op → Prop} (a : α) : (Prog.ret a : Prog Op Res ε α).Uses kind := trivial

lemma uses_throw {kind : Op → Prop} (e : ε) : (Prog.throw e : Prog Op Res ε α).Uses kind :=
  trivial

lemma uses_true (p : Prog Op Res ε α) : p.Uses fun _ => True := by
  have everywhere : ∀ h, p.Obeys (fun _ _ => True) (fun _ _ => True) h := by
    induction p with
    | ret a => exact fun _ => trivial
    | throw e => exact fun _ => trivial
    | call op next ih => exact fun h => ⟨trivial, fun r => ih r _⟩
  exact everywhere []

/-- A class that `may` allows from here on is used whatever happened before. -/
lemma uses_obeys {kind : Op → Prop} {p : Prog Op Res ε α} {h₀ : List (Call Op Res)}
    (uses : p.Obeys (fun _ op => kind op) (fun _ _ => True) h₀)
    (allowed : ∀ h' op, Extends kind h h' → kind op → may h' op) :
    p.Obeys may (fun h' _ => Extends kind h h') h := by
  have general : ∀ (p : Prog Op Res ε α) (h₀ h' : List (Call Op Res)),
      p.Obeys (fun _ op => kind op) (fun _ _ => True) h₀ → Extends kind h h' →
        p.Obeys may (fun h' _ => Extends kind h h') h' := by
    intro p
    induction p with
    | ret a => exact fun _ _ _ ext => ext
    | throw e => exact fun _ _ _ _ => trivial
    | call op next ih =>
      exact fun h₀ h' obeys ext => ⟨allowed h' op ext obeys.1,
        fun r => ih r _ _ (obeys.2 r) (ext.cons obeys.1)⟩
  exact general p h₀ h uses (.refl kind h)

/-- What is returned comes after calls of the class only. -/
lemma Obeys.extends {kind : Op → Prop} {p : Prog Op Res ε α}
    (obeys : p.Obeys (fun _ op => kind op) post h) :
    p.Obeys (fun _ op => kind op) (fun h' a => post h' a ∧ Extends kind h h') h := by
  have general : ∀ (p : Prog Op Res ε α) (h' : List (Call Op Res)), Extends kind h h' →
      p.Obeys (fun _ op => kind op) post h' →
        p.Obeys (fun _ op => kind op) (fun h' a => post h' a ∧ Extends kind h h') h' := by
    intro p
    induction p with
    | ret a => exact fun _ ext obeys => ⟨obeys, ext⟩
    | throw e => exact fun _ _ _ => trivial
    | call op next ih =>
      exact fun h' ext obeys => ⟨obeys.1, fun r => ih r _ (ext.cons obeys.1) (obeys.2 r)⟩
  exact general p h (.refl kind h) obeys

lemma uses_anywhere {kind : Op → Prop} {p : Prog Op Res ε α} {h₀ : List (Call Op Res)}
    (uses : p.Obeys (fun _ op => kind op) (fun _ _ => True) h₀) (h : List (Call Op Res)) :
    p.Obeys (fun _ op => kind op) (fun _ _ => True) h :=
  (uses_obeys uses fun _ _ _ hk => hk).mono (fun _ _ hk => hk) fun _ _ _ => trivial

lemma uses_call {kind : Op → Prop} {op : Op} {next : Res op → Prog Op Res ε α}
    (here : kind op) (rest : ∀ r, (next r).Uses kind) : (Prog.call op next).Uses kind :=
  ⟨here, fun r => uses_anywhere (rest r) _⟩

lemma uses_bind {kind : Op → Prop} {p : Prog Op Res ε α} {f : α → Prog Op Res ε β}
    (first : p.Uses kind) (rest : ∀ a, (f a).Uses kind) : (p >>= f).Uses kind :=
  obeys_bind first fun h a _ => uses_anywhere (rest a) h

lemma Uses.mono {kind kind' : Op → Prop} {p : Prog Op Res ε α} (uses : p.Uses kind)
    (wider : ∀ op, kind op → kind' op) : p.Uses kind' :=
  Obeys.mono uses (fun _ => wider) fun _ _ _ => trivial

lemma obeys_attempt {p : Prog Op Res ε α} (obeys : p.Obeys may post h) :
    p.attempt.Obeys may (fun h' r => ∀ a, r = .ok a → post h' a) h := by
  induction p generalizing h with
  | ret a =>
    rintro _ ⟨⟩
    exact obeys
  | throw e =>
    rintro a ⟨⟩
  | call op next ih => exact ⟨obeys.1, fun r => ih r (obeys.2 r)⟩

lemma obeys_mapError {ε' : Type} {f : ε → ε'} {p : Prog Op Res ε α} (obeys : p.Obeys may post h) :
    (p.mapError f).Obeys may post h := by
  induction p generalizing h with
  | ret a => exact obeys
  | throw e => trivial
  | call op next ih => exact ⟨obeys.1, fun r => ih r (obeys.2 r)⟩

lemma uses_attempt {kind : Op → Prop} {p : Prog Op Res ε α} (uses : p.Uses kind) :
    p.attempt.Uses kind :=
  Obeys.mono (obeys_attempt uses) (fun _ _ hk => hk) fun _ _ _ => trivial

/-- A part that uses only calls allowed now and later, followed by the rest. -/
lemma obeys_uses_bind {kind : Op → Prop} {p : Prog Op Res ε α} {f : α → Prog Op Res ε β}
    (uses : p.Uses kind) (allowed : ∀ h' op, Extends kind h h' → kind op → may h' op)
    (rest : ∀ h' a, Extends kind h h' → (f a).Obeys may postβ h') :
    (p >>= f).Obeys may postβ h :=
  obeys_bind (uses_obeys uses allowed) rest

end Obeys

/-- Whatever its calls answer, the program ends only so after them. -/
def Concludes (post : List (Call Op Res) → Except ε α → Prop) :
    List (Call Op Res) → Prog Op Res ε α → Prop
  | h, .ret value => post h (.ok value)
  | h, .throw error => post h (.error error)
  | h, .call op next => ∀ r, Concludes post (⟨op, r⟩ :: h) (next r)

section Concludes
variable {post post' : List (Call Op Res) → Except ε α → Prop} {h : List (Call Op Res)}

lemma Concludes.mono {p : Prog Op Res ε α} (concludes : p.Concludes post h)
    (implied : ∀ h out, post h out → post' h out) : p.Concludes post' h := by
  induction p generalizing h with
  | ret a => exact implied _ _ concludes
  | throw e => exact implied _ _ concludes
  | call op next ih => exact fun r => ih r (concludes r)

lemma Concludes.and {p : Prog Op Res ε α} (concludes : p.Concludes post h)
    (concludes' : p.Concludes post' h) : p.Concludes (fun h out => post h out ∧ post' h out) h := by
  induction p generalizing h with
  | ret a => exact ⟨concludes, concludes'⟩
  | throw e => exact ⟨concludes, concludes'⟩
  | call op next ih => exact fun r => ih r (concludes r) (concludes' r)

/-- The rule of sequences for ends. -/
lemma concludes_bind {p : Prog Op Res ε α} {f : α → Prog Op Res ε β}
    {post : List (Call Op Res) → Except ε β → Prop}
    (first : p.Concludes (fun h out => (∀ a, out = .ok a → (f a).Concludes post h) ∧
      ∀ e, out = .error e → post h (.error e)) h) : (p >>= f).Concludes post h := by
  induction p generalizing h with
  | ret a => exact first.1 a rfl
  | throw e => exact first.2 e rfl
  | call op next ih => exact fun r => ih r (first r)

/-- An outcome that stays apart is one of the outcomes. -/
lemma concludes_attempt {p : Prog Op Res ε α} (concludes : p.Concludes post h) :
    (p.attempt : Prog Op Res ε (Except ε α)).Concludes
      (fun h out => ∃ a, out = .ok a ∧ post h a) h := by
  induction p generalizing h with
  | ret a => exact ⟨_, rfl, concludes⟩
  | throw e => exact ⟨_, rfl, concludes⟩
  | call op next ih => exact fun r => ih r (concludes r)

lemma concludes_uses {kind : Op → Prop} {p : Prog Op Res ε α} (uses : p.Uses kind) :
    p.Concludes (fun h' _ => Extends kind h h') h := by
  have tracked : ∀ (p : Prog Op Res ε α) (h₁ : List (Call Op Res)), p.Uses kind →
      Extends kind h h₁ → p.Concludes (fun h' _ => Extends kind h h') h₁ := by
    intro p
    induction p with
    | ret a => exact fun _ _ ext => ext
    | throw e => exact fun _ _ ext => ext
    | call op next ih =>
      exact fun h₁ uses ext r => ih r _ (uses_anywhere (uses.2 r) []) (ext.cons uses.1)
  exact tracked p h uses (.refl kind h)

lemma Obeys.concludes {may : List (Call Op Res) → Op → Prop} {M : List (Call Op Res) → α → Prop}
    {p : Prog Op Res ε α} (obeys : p.Obeys may M h) :
    p.Concludes (fun h out => ∀ a, out = .ok a → M h a) h := by
  induction p generalizing h with
  | ret a =>
    rintro _ ⟨⟩
    exact obeys
  | throw e => exact nofun
  | call op next ih => exact fun r => ih r (obeys.2 r)

/-- What a program that obeys its rules returns is one of its ends. -/
lemma obeys_concludes {may : List (Call Op Res) → Op → Prop} {M : List (Call Op Res) → α → Prop}
    {p : Prog Op Res ε α} (obeys : p.Obeys may M h) (concludes : p.Concludes post h) :
    p.Obeys may (fun h a => M h a ∧ post h (.ok a)) h := by
  induction p generalizing h with
  | ret a => exact ⟨obeys, concludes⟩
  | throw e => trivial
  | call op next ih => exact ⟨obeys.1, fun r => ih r (obeys.2 r) (concludes r)⟩

end Concludes

section Obeys
variable {may : List (Call Op Res) → Op → Prop} {post : List (Call Op Res) → α → Prop}
  {h : List (Call Op Res)}

/-- What the program returns if its calls are answered so, in order; answers
after its return do not matter. -/
def returned [DecidableEq Op] : Prog Op Res ε α → List (Call Op Res) → Option α
  | .ret a, _ => some a
  | .call op next, ⟨op', r⟩ :: calls =>
    if same : op' = op then (next (same ▸ r)).returned calls else none
  | _, _ => none

section Returned
variable [DecidableEq Op]

@[simp] lemma returned_ret (a : α) (calls : List (Call Op Res)) :
    (Prog.ret a : Prog Op Res ε α).returned calls = some a := by
  cases calls <;> rfl

@[simp] lemma returned_throw (e : ε) (calls : List (Call Op Res)) :
    (Prog.throw e : Prog Op Res ε α).returned calls = none := by
  cases calls <;> rfl

@[simp] lemma returned_call (op : Op) (next : Res op → Prog Op Res ε α) (r : Res op)
    (calls : List (Call Op Res)) :
    (Prog.call op next).returned (⟨op, r⟩ :: calls) = (next r).returned calls := by
  simp [returned]

lemma returned_append {p : Prog Op Res ε α} {calls : List (Call Op Res)} {a : α}
    (h : p.returned calls = some a) (later : List (Call Op Res)) :
    p.returned (calls ++ later) = some a := by
  induction p generalizing calls with
  | ret b => simpa using h
  | throw e => simp at h
  | call op next ih =>
    cases calls with
    | nil => cases h
    | cons k calls =>
      obtain ⟨op', r⟩ := k
      by_cases same : op' = op
      · subst same
        simpa using ih r (by simpa using h)
      · simp [returned, same] at h

lemma Obeys.of_returned {p : Prog Op Res ε α} {calls : List (Call Op Res)} {a : α}
    (h' : p.returned calls = some a) (obeys : p.Obeys may post h) :
    ∃ first, first <+: calls ∧ post (first.reverse ++ h) a := by
  induction p generalizing calls h with
  | ret b =>
    obtain rfl : b = a := by simpa using h'
    exact ⟨[], List.nil_prefix, obeys⟩
  | throw e => simp at h'
  | call op next ih =>
    cases calls with
    | nil => cases h'
    | cons k calls =>
      obtain ⟨op', r⟩ := k
      by_cases same : op' = op
      · subst same
        obtain ⟨first, before, hpost⟩ := ih r (by simpa using h') (obeys.2 r)
        exact ⟨⟨op', r⟩ :: first, List.cons_prefix_cons.mpr ⟨rfl, before⟩, by simpa using hpost⟩
      · simp [returned, same] at h'

/-- What an obedient program returns, it returns after its calls. -/
lemma Obeys.returns {p : Prog Op Res ε α} (obeys : p.Obeys may post h) :
    p.Obeys may (fun h' a => post h' a ∧
      ∃ calls, h' = calls.reverse ++ h ∧ p.returned calls = some a) h := by
  induction p generalizing h with
  | ret a => exact ⟨obeys, [], rfl, returned_ret a []⟩
  | throw e => trivial
  | call op next ih =>
    refine ⟨obeys.1, fun r => (ih r (obeys.2 r)).mono (fun _ _ hk => hk) ?_⟩
    rintro h' a ⟨hpost, calls, rfl, returns⟩
    exact ⟨hpost, ⟨op, r⟩ :: calls, by simp, by simpa using returns⟩

/-- However a program ends, its calls tell what it returns. -/
lemma concludes_returned {p : Prog Op Res ε α} : p.Concludes (fun h' out =>
    ∃ calls, h' = calls.reverse ++ h ∧ p.returned calls = out.toOption) h := by
  induction p generalizing h with
  | ret a => exact ⟨[], rfl, returned_ret a []⟩
  | throw e => exact ⟨[], rfl, returned_throw e []⟩
  | call op next ih =>
    intro r
    refine (ih r).mono ?_
    rintro h' out ⟨calls, rfl, returns⟩
    exact ⟨⟨op, r⟩ :: calls, by simp, by simpa using returns⟩

end Returned
end Obeys

end Prog
end CallPrograms
