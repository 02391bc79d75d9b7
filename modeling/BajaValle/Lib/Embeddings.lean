import BajaValle.Lib.CallPrograms

/-!
# Programs among others

A program of one kind of calls is a program of a larger kind. What it obeys and
how it concludes carries over, after whatever calls were made before it.
-/

namespace CallPrograms

variable {Op Op' : Type} {Res : Op → Type} {Res' : Op' → Type} {ε ε' α : Type}

/-- Calls and answers of one kind as calls and answers of another. -/
structure Embedding (Op : Type) (Res : Op → Type) (Op' : Type) (Res' : Op' → Type) where
  op : Op → Op'
  answer : (o : Op) → Res o → Res' (op o)
  answered : (o : Op) → Res' (op o) → Res o
  answer_answered : ∀ o r, answer o (answered o r) = r

def Embedding.call (m : Embedding Op Res Op' Res') (k : Call Op Res) : Call Op' Res' :=
  ⟨m.op k.op, m.answer k.op k.res⟩

namespace Prog

def embed (m : Embedding Op Res Op' Res') (err : ε → ε') : Prog Op Res ε α → Prog Op' Res' ε' α
  | .ret value => .ret value
  | .throw error => .throw (err error)
  | .call op next => .call (m.op op) fun r => (next (m.answered op r)).embed m err

variable (m : Embedding Op Res Op' Res') (err : ε → ε') (base : List (Call Op' Res'))
  {p : Prog Op Res ε α} {h : List (Call Op Res)}

lemma embed_call (op : Op) (r : Res' (m.op op)) :
    (⟨m.op op, r⟩ : Call Op' Res') :: (h.map m.call ++ base) =
      (⟨op, m.answered op r⟩ :: h).map m.call ++ base := by
  simp [Embedding.call, m.answer_answered]

theorem obeys_embed {may : List (Call Op Res) → Op → Prop} {post : List (Call Op Res) → α → Prop}
    {may' : List (Call Op' Res') → Op' → Prop} (obeys : p.Obeys may post h)
    (allowed : ∀ h op, may h op → may' (h.map m.call ++ base) (m.op op)) :
    (p.embed m err).Obeys may' (fun h' a => ∃ h₁, h' = h₁.map m.call ++ base ∧ post h₁ a)
      (h.map m.call ++ base) := by
  induction p generalizing h with
  | ret a => exact ⟨h, rfl, obeys⟩
  | throw e => trivial
  | call op next ih =>
    refine ⟨allowed h op obeys.1, fun r => ?_⟩
    rw [embed_call]
    exact ih _ (obeys.2 _)

lemma uses_embed {kind : Op → Prop} {kind' : Op' → Prop} (uses : p.Uses kind)
    (allowed : ∀ op, kind op → kind' (m.op op)) : (p.embed m err).Uses kind' := by
  induction p with
  | ret a => exact uses_ret a
  | throw e => exact uses_throw (err e)
  | call op next ih =>
    exact uses_call (allowed op uses.1) fun r => ih _ (uses_anywhere (uses.2 _) [])

theorem concludes_embed {post : List (Call Op Res) → Except ε α → Prop}
    (concludes : p.Concludes post h) :
    (p.embed m err).Concludes (fun h' out => ∃ h₁ a, h' = h₁.map m.call ++ base ∧
      out = a.mapError err ∧ post h₁ a) (h.map m.call ++ base) := by
  induction p generalizing h with
  | ret a => exact ⟨h, .ok a, rfl, rfl, concludes⟩
  | throw e => exact ⟨h, .error e, rfl, rfl, concludes⟩
  | call op next ih =>
    intro r
    rw [embed_call]
    exact ih _ (concludes _)

lemma uses_map {β : Type} {kind : Op → Prop} (f : α → β) (uses : p.Uses kind) :
    (f <$> p).Uses kind :=
  uses_bind uses fun _ => uses_ret _

/-- How an embedded program may end. -/
lemma concludes_embed_ends {h : List (Call Op' Res')} :
    (p.embed m err).Concludes (fun _ out => ∃ a : Except ε α, out = a.mapError err) h := by
  induction p generalizing h with
  | ret a => exact ⟨.ok a, rfl⟩
  | throw e => exact ⟨.error e, rfl⟩
  | call op next ih => exact fun r => ih _

lemma concludes_map_embed {β : Type} (answer : α → β) {h : List (Call Op' Res')} :
    (answer <$> p.embed m err).Concludes
      (fun _ out => ∃ a : Except ε α, out = (a.mapError err).map answer) h := by
  induction p generalizing h with
  | ret a => exact ⟨.ok a, rfl⟩
  | throw e => exact ⟨.error e, rfl⟩
  | call op next ih => exact fun r => ih _

lemma concludes_mapError {f : ε → ε'} {post : List (Call Op Res) → Except ε' α → Prop}
    (concludes : p.Concludes (fun h out => post h (out.mapError f)) h) :
    (p.mapError f).Concludes post h := by
  induction p generalizing h with
  | ret a => exact concludes
  | throw e => exact concludes
  | call op next ih => exact fun r => ih r (concludes r)

end Prog
end CallPrograms
