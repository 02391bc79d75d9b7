import BajaValle.Lib.Footprints
import Mathlib.Algebra.Order.Field.Rat
import Mathlib.Data.Rat.Lemmas
import Mathlib.Logic.Function.Basic

/-!
# Worksheets

The calls that the quotation makes on an `exceljs` worksheet, and what is assumed of
the values of its cells. A call touches a cell when it writes its value or merges it
with others.
-/

namespace BajaValle

open Footprints

/-! ## Cells and calls -/

inductive Column
  | A | B | C | D | E | F
  deriving DecidableEq, Repr

def Column.index : Column → Nat
  | .A => 1
  | .B => 2
  | .C => 3
  | .D => 4
  | .E => 5
  | .F => 6

def COLUMNS : List Column := [.A, .B, .C, .D, .E, .F]

structure Cell where
  column : Column
  row : Nat
  deriving DecidableEq, Repr

structure CellRange where
  topLeft : Cell
  bottomRight : Cell
  deriving DecidableEq, Repr

def CellRange.Contains (range : CellRange) (cell : Cell) : Prop :=
  range.topLeft.column.index ≤ cell.column.index ∧
    cell.column.index ≤ range.bottomRight.column.index ∧
    range.topLeft.row ≤ cell.row ∧ cell.row ≤ range.bottomRight.row

instance (range : CellRange) (cell : Cell) : Decidable (range.Contains cell) :=
  inferInstanceAs (Decidable (_ ∧ _ ∧ _ ∧ _))

/-- The ranges share no cell. -/
def CellRange.Apart (range other : CellRange) : Prop :=
  ∀ cell, range.Contains cell → ¬ other.Contains cell

lemma CellRange.Apart.symm {range other : CellRange} (apart : range.Apart other) :
    other.Apart range :=
  fun cell inOther inRange => apart cell inRange inOther

lemma CellRange.apart_of_rows {range other : CellRange}
    (above : range.bottomRight.row < other.topLeft.row) : range.Apart other := by
  rintro cell ⟨-, -, -, below⟩ ⟨-, -, after, -⟩
  omega

inductive CellValue
  | null
  | text (s : String)
  | number (amount : ℚ)
  deriving DecidableEq

/-- A solid pattern of one colour. -/
structure Fill where
  argb : String

inductive Horizontal
  | left | center | right

inductive Vertical
  | middle

structure Alignment where
  horizontal : Option Horizontal := none
  vertical : Option Vertical := none

structure Font where
  name : String
  bold : Bool := false
  size : Option Nat := none
  argb : Option String := none

/-- The colours of the thin lines around a cell. -/
structure Borders where
  top : Option String := none
  left : Option String := none
  bottom : Option String := none
  right : Option String := none

inductive SheetCall
  | columns (widths : List Nat)
  | height (row points : Nat)
  | fill (cell : Cell) (fill : Fill)
  | font (cell : Cell) (font : Font)
  | alignment (cell : Cell) (alignment : Alignment)
  | border (cell : Cell) (border : Borders)
  | numFmt (cell : Cell) (format : String)
  | value (cell : Cell) (value : CellValue)
  | mergeCells (range : CellRange)

namespace SheetCall

/-- The rows that a call addresses. -/
def rows : SheetCall → List Nat
  | columns _ => []
  | height row _ => [row]
  | fill cell _ | font cell _ | alignment cell _ | border cell _ | numFmt cell _ | value cell _ =>
    [cell.row]
  | mergeCells range => List.range' range.topLeft.row
      (range.bottomRight.row + 1 - range.topLeft.row)

/-- The call writes the value of the cell or merges the cell with others. -/
def Touches : SheetCall → Cell → Prop
  | value written _, cell => cell = written
  | mergeCells range, cell => range.Contains cell
  | _, _ => False

instance : ∀ (call : SheetCall) (cell : Cell), Decidable (call.Touches cell)
  | value written _, cell => inferInstanceAs (Decidable (cell = written))
  | mergeCells range, cell => inferInstanceAs (Decidable (range.Contains cell))
  | columns _, _ | height _ _, _ | fill _ _, _ | font _ _, _ | alignment _ _, _ | border _ _, _
  | numFmt _ _, _ => inferInstanceAs (Decidable False)

section Touches
variable {cell c : Cell} {row points : Nat} {range : CellRange}

@[simp] lemma touches_value {v : CellValue} : (value c v).Touches cell ↔ cell = c := Iff.rfl

@[simp] lemma touches_mergeCells : (mergeCells range).Touches cell ↔ range.Contains cell := Iff.rfl

@[simp] lemma not_touches_columns {widths : List Nat} : ¬ (columns widths).Touches cell := id

@[simp] lemma not_touches_height : ¬ (height row points).Touches cell := id

@[simp] lemma not_touches_fill {f : Fill} : ¬ (fill c f).Touches cell := id

@[simp] lemma not_touches_font {f : Font} : ¬ (font c f).Touches cell := id

@[simp] lemma not_touches_alignment {a : Alignment} : ¬ (alignment c a).Touches cell := id

@[simp] lemma not_touches_border {b : Borders} : ¬ (border c b).Touches cell := id

@[simp] lemma not_touches_numFmt {format : String} : ¬ (numFmt c format).Touches cell := id

end Touches

def merges : SheetCall → List CellRange
  | mergeCells range => [range]
  | _ => []

lemma Touches.of_merges {c : SheetCall} {range : CellRange} {cell : Cell}
    (merge : range ∈ c.merges)
    (inside : range.Contains cell) : c.Touches cell := by
  cases c with
  | mergeCells other =>
    cases List.mem_singleton.1 merge
    exact inside
  | _ => cases merge

end SheetCall

/-- The worksheets of `exceljs`, as far as the values of their cells go. The cells of
a merged range share one value. -/
structure Exceljs where
  Sheet : Type
  Error : Type
  addWorksheet : Sheet
  call : SheetCall → Sheet → Except Error Sheet
  value : Sheet → Cell → CellValue
  merged : Sheet → List CellRange
  value_new : ∀ cell, value addWorksheet cell = .null
  merged_new : merged addWorksheet = []
  call_succeeds : ∀ {c sheet}, (∀ range ∈ c.merges, ∀ other ∈ merged sheet, range.Apart other) →
    ∃ sheet', call c sheet = .ok sheet'
  merged_call : ∀ {c sheet sheet'}, call c sheet = .ok sheet' →
    merged sheet' = c.merges ++ merged sheet
  value_written : ∀ {cell v sheet sheet'}, call (.value cell v) sheet = .ok sheet' →
    value sheet' cell = v
  value_kept : ∀ {c sheet sheet' cell}, call c sheet = .ok sheet' →
    (∀ range ∈ merged sheet, ¬ range.Contains cell) → ¬ c.Touches cell →
    value sheet' cell = value sheet cell

/-- The only call that may touch a cell which ends with this value. -/
def holding (cell : Cell) (v : CellValue) : List SheetCall :=
  if v = .null then [] else [.value cell v]

@[simp] lemma holding_null (cell : Cell) : holding cell .null = [] := rfl

/-! ## Rows -/

lemma SheetCall.Touches.row {call : SheetCall} {cell : Cell} (touched : call.Touches cell) :
    cell.row ∈ call.rows := by
  cases call with
  | value written v =>
    cases touched
    exact List.mem_singleton_self _
  | mergeCells range =>
    obtain ⟨-, -, above, below⟩ := touched
    simp only [rows, List.mem_range'_1]
    omega
  | _ => exact touched.elim

/-- The calls address rows from `lo` on and before `hi`. -/
def Within (lo hi : Nat) (calls : List SheetCall) : Prop :=
  ∀ call ∈ calls, ∀ r ∈ call.rows, lo ≤ r ∧ r < hi

section Within
variable {lo hi : Nat} {calls calls' : List SheetCall}

@[simp] lemma within_nil : Within lo hi [] := by simp [Within]

@[simp] lemma within_cons {call : SheetCall} :
    Within lo hi (call :: calls) ↔ (∀ r ∈ call.rows, lo ≤ r ∧ r < hi) ∧ Within lo hi calls := by
  simp [Within]

@[simp] lemma within_append :
    Within lo hi (calls ++ calls') ↔ Within lo hi calls ∧ Within lo hi calls' :=
  List.forall_mem_append

lemma Within.mono {lo' hi' : Nat} (within : Within lo hi calls) (down : lo' ≤ lo)
    (up : hi ≤ hi') : Within lo' hi' calls := by
  intro call hcall r hr
  have inside := within call hcall r hr
  omega

lemma Within.untouched {cell : Cell} (within : Within lo hi calls)
    (outside : cell.row < lo ∨ hi ≤ cell.row) : touching SheetCall.Touches cell calls = [] := by
  refine touching_of_rows Cell.row (fun r => lo ≤ r ∧ r < hi) ?_ (by omega)
  exact fun call hcall c touched => within call hcall c.row touched.row

/-- Calls on one row, seen from any row. -/
lemma Within.seenFrom {r : Nat} {shown : Column → CellValue}
    (within : Within r (r + 1) calls)
    (written : ∀ column, touching SheetCall.Touches ⟨column, r⟩ calls =
      holding ⟨column, r⟩ (shown column)) (column : Column) (row : Nat) :
    touching SheetCall.Touches ⟨column, row⟩ calls =
      holding ⟨column, row⟩ (if row = r then shown column else .null) := by
  by_cases here : row = r
  · rw [if_pos here, here, written]
  · rw [if_neg here, within.untouched (Nat.lt_or_gt_of_ne here), holding_null]

end Within

/-! ## Runs -/

def mergesOf (calls : List SheetCall) : List CellRange := calls.flatMap SheetCall.merges

@[simp] lemma mergesOf_append (calls calls' : List SheetCall) :
    mergesOf (calls ++ calls') = mergesOf calls ++ mergesOf calls' := List.flatMap_append ..

namespace Exceljs
variable {xl : Exceljs} {sheet sheet' : xl.Sheet} {cell : Cell} {calls : List SheetCall}

/-- The cell is in no merged range. -/
def Free (xl : Exceljs) (sheet : xl.Sheet) (cell : Cell) : Prop :=
  ∀ range ∈ xl.merged sheet, ¬ range.Contains cell

lemma free_call {c : SheetCall} (called : xl.call c sheet = .ok sheet')
    (free : xl.Free sheet cell) (unmerged : ∀ range ∈ c.merges, ¬ range.Contains cell) :
    xl.Free sheet' cell := by
  intro range hrange
  rw [xl.merged_call called] at hrange
  rcases List.mem_append.1 hrange with new | old
  · exact unmerged range new
  · exact free range old

lemma frames : Frames SheetCall.Touches xl.call xl.value xl.Free :=
  fun _ _ _ _ called free untouched => ⟨xl.value_kept called free untouched,
    free_call called free fun _ merge inside => untouched (.of_merges merge inside)⟩

/-- Merging ranges that lie apart never fails. -/
theorem perform_succeeds (apart : (mergesOf calls).Pairwise CellRange.Apart)
    (new : ∀ range ∈ mergesOf calls, ∀ other ∈ xl.merged sheet, range.Apart other) :
    ∃ sheet', Footprints.perform xl.call calls sheet = .ok sheet' := by
  induction calls generalizing sheet with
  | nil => exact ⟨sheet, rfl⟩
  | cons c calls ih =>
    obtain ⟨-, laterApart, between⟩ := List.pairwise_append.1 apart
    obtain ⟨mid, called⟩ := xl.call_succeeds fun range here =>
      new range (List.mem_append_left _ here)
    obtain ⟨sheet', rest⟩ := ih laterApart fun range later other there => by
      rw [xl.merged_call called] at there
      rcases List.mem_append.1 there with first | older
      · exact (between other first range later).symm
      · exact new range (List.mem_append_right _ later) other older
    exact ⟨sheet', perform_cons_eq_ok.2 ⟨mid, called, rest⟩⟩

end Exceljs

/-! ## Worksheets that behave so -/

namespace CellRange

def cells (range : CellRange) : List Cell :=
  (List.range' range.topLeft.row (range.bottomRight.row + 1 - range.topLeft.row)).flatMap fun r =>
    (COLUMNS.map fun column => ⟨column, r⟩).filter fun cell => range.Contains cell

lemma contains_of_mem_cells {range : CellRange} {cell : Cell} (inside : cell ∈ range.cells) :
    range.Contains cell := by
  obtain ⟨r, -, kept⟩ := List.mem_flatMap.1 inside
  exact of_decide_eq_true (List.mem_filter.1 kept).2

lemma Contains.topLeft {range : CellRange} {cell : Cell} (inside : range.Contains cell) :
    range.Contains range.topLeft :=
  ⟨le_rfl, inside.1.trans inside.2.1, le_rfl, inside.2.2.1.trans inside.2.2.2⟩

end CellRange

/-- The cell whose value a cell shares. -/
def master (merged : List CellRange) (cell : Cell) : Cell :=
  match merged.find? fun range => range.Contains cell with
  | some range => range.topLeft
  | none => cell

lemma master_free {merged : List CellRange} {cell : Cell}
    (free : ∀ range ∈ merged, ¬ range.Contains cell) : master merged cell = cell := by
  have none : merged.find? (fun range => range.Contains cell) = none := by
    simpa using free
  rw [master, none]

lemma master_ne {merged : List CellRange} {cell other : Cell}
    (free : ∀ range ∈ merged, ¬ range.Contains cell) (ne : cell ≠ other) :
    cell ≠ master merged other := by
  unfold master
  split
  · rename_i range found
    rintro rfl
    have inside : range.Contains other := by simpa using List.find?_some found
    exact free range (List.mem_of_find?_eq_some found) inside.topLeft
  · exact ne

def plainCall : SheetCall → (Cell → CellValue) × List CellRange →
    Except String ((Cell → CellValue) × List CellRange)
  | .value cell v, (values, merged) =>
    .ok (Function.update values (master merged cell) v, merged)
  | .mergeCells range, (values, merged) =>
    if range.cells.any fun cell => merged.any fun other => other.Contains cell then
      .error "Cannot merge already merged cells"
    else .ok (values, range :: merged)
  | _, sheet => .ok sheet

lemma plainCall_mergeCells {range : CellRange} {sheet sheet' : (Cell → CellValue) × List CellRange}
    (called : plainCall (.mergeCells range) sheet = .ok sheet') :
    sheet' = (sheet.1, range :: sheet.2) := by
  obtain ⟨values, merged⟩ := sheet
  simp only [plainCall] at called
  split at called
  · cases called
  · exact (Except.ok.inj called).symm

/-- A worksheet as the values of its cells and its merged ranges. -/
def plainExceljs : Exceljs where
  Sheet := (Cell → CellValue) × List CellRange
  Error := String
  addWorksheet := (fun _ => .null, [])
  call := plainCall
  value sheet cell := sheet.1 (master sheet.2 cell)
  merged sheet := sheet.2
  value_new _ := rfl
  merged_new := rfl
  call_succeeds {c sheet} apart := by
    obtain ⟨values, merged⟩ := sheet
    cases c with
    | mergeCells range =>
      refine ⟨(values, range :: merged), if_neg ?_⟩
      simp only [List.any_eq_true, decide_eq_true_eq, not_exists, not_and]
      intro cell inside other hother
      exact apart range (List.mem_singleton_self _) other hother cell
        (CellRange.contains_of_mem_cells inside)
    | _ => exact ⟨_, rfl⟩
  merged_call {c sheet sheet'} called := by
    cases c with
    | mergeCells range => rw [plainCall_mergeCells called]; rfl
    | _ => cases called; rfl
  value_written {cell v sheet sheet'} called := by
    cases called
    exact Function.update_self ..
  value_kept {c sheet sheet' cell} called free untouched := by
    cases c with
    | value other v =>
      cases called
      simp only [master_free free]
      exact Function.update_of_ne
        (by simpa only [master_free free] using master_ne free untouched) _ _
    | mergeCells range =>
      rw [plainCall_mergeCells called]
      have still : ∀ r ∈ range :: sheet.2, ¬ r.Contains cell := by
        simpa using ⟨untouched, free⟩
      simp only [master_free still, master_free free]
    | _ => cases called; rfl

end BajaValle
