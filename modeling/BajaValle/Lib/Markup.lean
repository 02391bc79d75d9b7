import Mathlib.Tactic.Lemma
import Mathlib.Logic.Basic

/-!
# Text with tags

A text with markup is read from left to right: a tag runs from `<` to the next `>`,
and what lies outside tags is text. Parts whose tags are all closed are read one
after another.
-/

namespace Markup

inductive Piece where
  | char (c : Char)
  | tag (name : List Char)

/-- Read on outside tags, or inside one with its characters so far, latest first. -/
def scan : Option (List Char) → List Char → List Piece
  | none, [] => []
  | none, c :: rest => if c = '<' then scan (some []) rest else .char c :: scan none rest
  | some name, [] => ('<' :: name.reverse).map .char
  | some name, c :: rest =>
    if c = '>' then .tag name.reverse :: scan none rest else scan (some (c :: name)) rest

def pieces (s : List Char) : List Piece := scan none s

def Piece.tag? : Piece → Option (List Char)
  | .char _ => none
  | .tag name => some name

def Piece.char? : Piece → Option Char
  | .char c => some c
  | .tag _ => none

def tags (s : List Char) : List (List Char) := (pieces s).filterMap Piece.tag?

/-- The text outside tags. -/
def text (s : List Char) : List Char := (pieces s).filterMap Piece.char?

def tagged (name : List Char) : List Char := '<' :: name ++ ['>']

/-- What follows is read as if it stood alone. -/
def Closed (s : List Char) : Prop := ∀ rest, pieces (s ++ rest) = pieces s ++ pieces rest

/-- Whether the end is inside a tag, begun before or not. -/
def endsInside : (inside : Bool) → List Char → Bool
  | inside, [] => inside
  | false, c :: rest => endsInside (c = '<') rest
  | true, c :: rest => endsInside (c ≠ '>') rest

/-- A text that ends outside tags is closed. -/
lemma closed_of_outside {s : List Char} (outside : endsInside false s = false) : Closed s := by
  intro rest
  have both : ∀ s : List Char,
      (endsInside false s = false → scan none (s ++ rest) = scan none s ++ scan none rest) ∧
      (endsInside true s = false → ∀ name,
        scan (some name) (s ++ rest) = scan (some name) s ++ scan none rest) := by
    intro s
    induction s with
    | nil => simp [endsInside, scan]
    | cons c s ih =>
      constructor
      · intro ends
        by_cases opens : c = '<'
        · simp only [endsInside, opens, decide_true] at ends
          simp only [List.cons_append, scan, if_pos opens, ih.2 ends]
        · simp only [endsInside, opens, decide_false] at ends
          simp only [List.cons_append, scan, if_neg opens, ih.1 ends]
      · intro ends name
        by_cases closes : c = '>'
        · simp only [endsInside, closes, ne_eq, not_true_eq_false, decide_false] at ends
          simp only [List.cons_append, scan, if_pos closes, ih.1 ends]
        · simp only [endsInside, ne_eq, closes, not_false_eq_true, decide_true] at ends
          simp only [List.cons_append, scan, if_neg closes, ih.2 ends]
  exact (both s).1 outside

lemma closed_nil : Closed [] := fun _ => rfl

lemma pieces_plain {s : List Char} (plain : '<' ∉ s) (rest : List Char) :
    pieces (s ++ rest) = s.map .char ++ pieces rest := by
  induction s with
  | nil => rfl
  | cons c s ih =>
    rw [List.mem_cons, not_or] at plain
    rw [List.cons_append, pieces, scan, if_neg (Ne.symm plain.1), List.map_cons, List.cons_append]
    exact congrArg (Piece.char c :: ·) (ih plain.2)

lemma pieces_tagged {name : List Char} (single : '>' ∉ name) (rest : List Char) :
    pieces (tagged name ++ rest) = .tag name :: pieces rest := by
  have inside : ∀ (name before : List Char), '>' ∉ name →
      scan (some before) (name ++ '>' :: rest) = .tag (before.reverse ++ name) :: pieces rest := by
    intro name
    induction name with
    | nil => simp [scan, pieces]
    | cons c name ih =>
      intro before single
      rw [List.mem_cons, not_or] at single
      rw [List.cons_append, scan, if_neg (Ne.symm single.1), ih _ single.2]
      simp
  simp only [tagged, List.cons_append, List.append_assoc, List.nil_append, pieces, scan, if_true]
  exact inside name [] single

lemma pieces_of_plain {s : List Char} (plain : '<' ∉ s) : pieces s = s.map .char := by
  simpa [pieces, scan] using pieces_plain plain []

lemma closed_plain {s : List Char} (plain : '<' ∉ s) : Closed s := fun rest => by
  rw [pieces_plain plain, pieces_of_plain plain]

lemma pieces_of_tagged {name : List Char} (single : '>' ∉ name) :
    pieces (tagged name) = [.tag name] := by
  simpa [pieces, scan] using pieces_tagged single []

lemma closed_tagged {name : List Char} (single : '>' ∉ name) :
    Closed (tagged name) := fun rest => by
  rw [pieces_tagged single, pieces_of_tagged single]
  rfl

lemma Closed.append {a b : List Char} (first : Closed a) (second : Closed b) : Closed (a ++ b) := by
  intro rest
  rw [List.append_assoc, first, second, first, List.append_assoc]

lemma Closed.tags_append {a : List Char} (closed : Closed a) (b : List Char) :
    tags (a ++ b) = tags a ++ tags b := by
  rw [tags, closed, List.filterMap_append, tags, tags]

lemma closed_flatMap {α : Type} {f : α → List Char} {s : List α} (closed : ∀ a ∈ s, Closed (f a)) :
    Closed (s.flatMap f) := by
  induction s with
  | nil => exact closed_nil
  | cons a s ih =>
    rw [List.flatMap_cons]
    exact (closed a List.mem_cons_self).append (ih fun b hb => closed b (List.mem_cons_of_mem a hb))

lemma pieces_flatMap {α : Type} {f : α → List Char} {s : List α} (closed : ∀ a ∈ s, Closed (f a)) :
    pieces (s.flatMap f) = s.flatMap fun a => pieces (f a) := by
  induction s with
  | nil => rfl
  | cons a s ih =>
    rw [List.flatMap_cons, closed a List.mem_cons_self, List.flatMap_cons,
      ih fun b hb => closed b (List.mem_cons_of_mem a hb)]

end Markup
