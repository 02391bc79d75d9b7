import BajaValle.Validators
import BajaValle.Worksheets
import Mathlib.Algebra.BigOperators.Group.List.Basic

/-!
# The cart mail

A quotation request and the sheet that `buildCartWorkbook` writes for it, as the list
of its calls on the worksheet. Amounts are in exact arithmetic.
-/

namespace BajaValle

open Footprints

/-! ## The cart -/

structure CartItemDto where
  nombre : String
  cantidad : ℚ
  precio : ℚ

structure CartMailDto where
  nombre : String
  apellido : String
  correo : String
  ubicacion : String
  items : List CartItemDto

section Validation
variable (v : ClassValidator)

def CartItemDto.Accepted (item : CartItemDto) : Prop :=
  (item.nombre ≠ "" ∧ v.maxLength item.nombre 200) ∧
    (v.isInt item.cantidad ∧ 1 ≤ item.cantidad ∧ item.cantidad ≤ 1000) ∧
    v.isNumber 2 item.precio ∧ 0 < item.precio ∧ item.precio ≤ 1000000

instance CartItemDto.decidableAccepted (item : CartItemDto) : Decidable (item.Accepted v) :=
  inferInstanceAs (Decidable ((_ ∧ _) ∧ (_ ∧ _ ∧ _) ∧ _ ∧ _ ∧ _))

def CartMailDto.Accepted (dto : CartMailDto) : Prop :=
  (dto.nombre ≠ "" ∧ v.maxLength dto.nombre 80) ∧
    (dto.apellido ≠ "" ∧ v.maxLength dto.apellido 80) ∧
    (v.isEmail dto.correo ∧ v.maxLength dto.correo 254) ∧
    (dto.ubicacion ≠ "" ∧ v.maxLength dto.ubicacion 120) ∧
    1 ≤ dto.items.length ∧ dto.items.length ≤ 50 ∧ ∀ item ∈ dto.items, item.Accepted v

instance CartMailDto.decidableAccepted (dto : CartMailDto) : Decidable (dto.Accepted v) :=
  inferInstanceAs (Decidable ((_ ∧ _) ∧ (_ ∧ _) ∧ (_ ∧ _) ∧ (_ ∧ _) ∧ _ ∧ _ ∧ ∀ item ∈ _, _))

end Validation

/-! ## Building the workbook -/

namespace MailService

def CURRENCY_FORMAT : String := "\"$\"#,##0.00"

def CREAM : Fill := ⟨"FFF5EDD8"⟩

def DARK : Fill := ⟨"FF3F3F3F"⟩

def WHITE : Fill := ⟨"FFFFFFFF"⟩

def BORDER : Borders :=
  ⟨some "FFCCCCCC", some "FFCCCCCC", some "FFCCCCCC", some "FFCCCCCC"⟩

def UNDERLINE : Borders := { bottom := some "FF000000" }

def ROCKWELL_BOLD_10 : Font := { name := "Rockwell", bold := true, size := some 10 }

def ROCKWELL_10 : Font := { name := "Rockwell", size := some 10 }

def ROCKWELL_BOLD : Font := { name := "Rockwell", bold := true }

def GOTHIC_BOLD : Font := { name := "Century Gothic", bold := true, argb := some "FFFFFFFF" }

def MIN_ITEM_ROWS : Nat := 7

variable (dto : CartMailDto) (folio date : String)

def fillRows : Nat := 17 + max dto.items.length MIN_ITEM_ROWS + 12

def background : List SheetCall :=
  (List.range' 1 (fillRows dto)).flatMap fun r => COLUMNS.map fun c => .fill ⟨c, r⟩ CREAM

def heading : List SheetCall :=
  [.height 1 25, .height 2 26, .height 3 22,
    .fill ⟨.B, 1⟩ DARK,
    .value ⟨.B, 2⟩ (.text "BAJA VALLE"),
    .font ⟨.B, 2⟩ { GOTHIC_BOLD with size := some 20 },
    .fill ⟨.B, 2⟩ DARK,
    .alignment ⟨.B, 2⟩ { vertical := some .middle },
    .value ⟨.B, 3⟩ (.text "TODO PARA VIÑEDOS"),
    .font ⟨.B, 3⟩ { name := "Century Gothic", size := some 17, argb := some "FFFFFFFF" },
    .fill ⟨.B, 3⟩ DARK,
    .alignment ⟨.B, 3⟩ { vertical := some .middle },
    .value ⟨.E, 2⟩ (.text "COTIZACIÓN"),
    .font ⟨.E, 2⟩ { name := "Rockwell", bold := true, size := some 25 },
    .alignment ⟨.E, 2⟩ { vertical := some .middle, horizontal := some .right }]

def infoRows : List (Cell × String) :=
  [(⟨.D, 5⟩, "FECHA   " ++ date), (⟨.D, 6⟩, "NUMERO   " ++ folio),
    (⟨.D, 7⟩, "EMPRESA   " ++ dto.nombre ++ " " ++ dto.apellido)]

def contactData : List SheetCall :=
  [.value ⟨.B, 5⟩ (.text "AVE RUIZ 460 ZC"), .font ⟨.B, 5⟩ ROCKWELL_BOLD_10,
    .value ⟨.B, 6⟩ (.text "ENSENADA BC MEXICO"), .font ⟨.B, 6⟩ ROCKWELL_BOLD_10,
    .value ⟨.B, 7⟩ (.text "331-280-8522"), .font ⟨.B, 7⟩ ROCKWELL_BOLD_10,
    .mergeCells ⟨⟨.D, 5⟩, ⟨.E, 5⟩⟩, .mergeCells ⟨⟨.D, 6⟩, ⟨.E, 6⟩⟩,
    .mergeCells ⟨⟨.D, 7⟩, ⟨.E, 7⟩⟩] ++
  (infoRows dto folio date).flatMap fun (cell, value) =>
    [.value cell (.text value), .font cell ROCKWELL_BOLD_10]

def tableHeaders : List (Column × String × Horizontal) :=
  [(.B, "DESCRIPCIÓN", .left), (.C, "CANTIDAD", .center), (.D, "PRECIO", .center),
    (.E, "TOTAL", .right)]

def tableHeading : List SheetCall :=
  .height 16 20 :: tableHeaders.flatMap fun (col, label, align) =>
    [.value ⟨col, 16⟩ (.text label), .font ⟨col, 16⟩ GOTHIC_BOLD, .fill ⟨col, 16⟩ DARK,
      .alignment ⟨col, 16⟩ { horizontal := some align, vertical := some .middle },
      .border ⟨col, 16⟩ BORDER]

/-- The calls so far and the variables of the two loops. -/
structure Writing where
  calls : List SheetCall
  currentRow : Nat
  subtotal : ℚ

def Writing.put (w : Writing) (calls : List SheetCall) : Writing :=
  { w with calls := w.calls ++ calls }

def Writing.skip (w : Writing) (rows : Nat) : Writing :=
  { w with currentRow := w.currentRow + rows }

def opening : Writing :=
  ⟨.columns [3, 36, 12, 14, 14, 3] :: background dto ++ heading ++ contactData dto folio date ++
    tableHeading, 17, 0⟩

def emptyRow (row index : Nat) : List SheetCall :=
  .height row 18 :: [Column.B, .C, .D, .E].flatMap fun col =>
    [.fill ⟨col, row⟩ (if index % 2 = 0 then WHITE else CREAM), .border ⟨col, row⟩ BORDER]

def itemRow (row index : Nat) (item : CartItemDto) : List SheetCall :=
  emptyRow row index ++
    [.value ⟨.B, row⟩ (.text item.nombre), .font ⟨.B, row⟩ ROCKWELL_10,
      .value ⟨.C, row⟩ (.number item.cantidad), .font ⟨.C, row⟩ ROCKWELL_10,
      .alignment ⟨.C, row⟩ { horizontal := some .center },
      .value ⟨.D, row⟩ (.number item.precio), .font ⟨.D, row⟩ ROCKWELL_10,
      .numFmt ⟨.D, row⟩ CURRENCY_FORMAT, .alignment ⟨.D, row⟩ { horizontal := some .right },
      .value ⟨.E, row⟩ (.number (item.cantidad * item.precio)), .font ⟨.E, row⟩ ROCKWELL_10,
      .numFmt ⟨.E, row⟩ CURRENCY_FORMAT, .alignment ⟨.E, row⟩ { horizontal := some .right }]

/-- `dto.items.forEach` -/
def writeItem (w : Writing) : CartItemDto × Nat → Writing
  | (item, index) =>
    { calls := w.calls ++ itemRow w.currentRow index item
      currentRow := w.currentRow + 1
      subtotal := w.subtotal + item.cantidad * item.precio }

/-- `for (let i = dto.items.length; i < MIN_ITEM_ROWS; i++)` -/
def writeFiller (w : Writing) (i : Nat) : Writing :=
  (w.put (emptyRow w.currentRow i)).skip 1

def subtotalRow (row : Nat) (subtotal : ℚ) : List SheetCall :=
  [.value ⟨.D, row⟩ (.text "SUBTOTAL"), .font ⟨.D, row⟩ ROCKWELL_BOLD,
    .alignment ⟨.D, row⟩ { horizontal := some .right },
    .value ⟨.E, row⟩ (.number subtotal), .font ⟨.E, row⟩ ROCKWELL_BOLD,
    .numFmt ⟨.E, row⟩ CURRENCY_FORMAT, .alignment ⟨.E, row⟩ { horizontal := some .right },
    .border ⟨.E, row⟩ UNDERLINE]

def ivaRow (row : Nat) : List SheetCall :=
  [.value ⟨.D, row⟩ (.text "IVA"), .font ⟨.D, row⟩ ROCKWELL_BOLD,
    .alignment ⟨.D, row⟩ { horizontal := some .right }, .border ⟨.E, row⟩ UNDERLINE]

def totalRow (row : Nat) (subtotal : ℚ) : List SheetCall :=
  .height row 22 :: ([Column.D, .E].flatMap fun col =>
    [.fill ⟨col, row⟩ DARK, .font ⟨col, row⟩ GOTHIC_BOLD,
      .alignment ⟨col, row⟩ { horizontal := some .right, vertical := some .middle }]) ++
  [.value ⟨.D, row⟩ (.text "TOTAL"), .value ⟨.E, row⟩ (.number subtotal),
    .numFmt ⟨.E, row⟩ CURRENCY_FORMAT]

def footer (row : Nat) : List SheetCall :=
  [.mergeCells ⟨⟨.B, row⟩, ⟨.E, row⟩⟩,
    .value ⟨.B, row⟩ (.text "GRACIAS POR HACER NEGOCIO CON NOSOTROS!"),
    .font ⟨.B, row⟩ ROCKWELL_BOLD_10, .alignment ⟨.B, row⟩ { horizontal := some .center }]

def cartCalls : List SheetCall :=
  let n := dto.items.length
  let w := dto.items.zipIdx.foldl writeItem (opening dto folio date)
  let w := ((List.range' n (MIN_ITEM_ROWS - n)).foldl writeFiller w).skip 1
  let w := (w.put (subtotalRow w.currentRow w.subtotal)).skip 1
  let w := (w.put (ivaRow w.currentRow)).skip 2
  let w := (w.put (totalRow w.currentRow w.subtotal)).skip 4
  (w.put (footer w.currentRow)).calls

def buildCartWorkbook (xl : Exceljs) : Except xl.Error xl.Sheet :=
  Footprints.perform xl.call (cartCalls dto folio date) xl.addWorksheet

end MailService

/-! ## What each row holds -/

def CartItemDto.rowTotal (item : CartItemDto) : ℚ := item.cantidad * item.precio

/-- What the row of an item shows. -/
def CartItemDto.shown (item : CartItemDto) : Column → CellValue
  | .B => .text item.nombre
  | .C => .number item.cantidad
  | .D => .number item.precio
  | .E => .number item.rowTotal
  | .A | .F => .null

/-- What the row of a total shows. -/
def labelled (label : String) (amount : CellValue) : Column → CellValue
  | .D => .text label
  | .E => amount
  | _ => .null

namespace CartMailDto
variable (dto : CartMailDto)

def total : ℚ := (dto.items.map CartItemDto.rowTotal).sum

def subtotalAt : Nat := 17 + max dto.items.length MailService.MIN_ITEM_ROWS + 1

def ivaAt : Nat := dto.subtotalAt + 1

def totalAt : Nat := dto.subtotalAt + 3

/-- The quotation below the heading of its table: the items, then the totals. -/
def quotation (cell : Cell) : CellValue :=
  match dto.items[cell.row - 17]? with
  | some item => item.shown cell.column
  | none =>
    if cell.row = dto.subtotalAt then labelled "SUBTOTAL" (.number dto.total) cell.column
    else if cell.row = dto.ivaAt then labelled "IVA" .null cell.column
    else if cell.row = dto.totalAt then labelled "TOTAL" (.number dto.total) cell.column
    else .null

end CartMailDto

end BajaValle
