import BajaValle.CartMail
import Mathlib.Tactic.Linarith
import Mathlib.Tactic.NormNum

/-!
# The quotation sheet

Every cell of an item or of a total is touched by one call alone, whatever the length
of the cart, so the finished sheet holds what that call wrote: the items in order,
their sum twice, and nothing else between them.
-/

namespace BajaValle

open Footprints

namespace MailService

/-! ## The loops -/

def itemRows (row index : Nat) : List CartItemDto → List SheetCall
  | [] => []
  | item :: items => itemRow row index item ++ itemRows (row + 1) (index + 1) items

def fillerRows (row index : Nat) : Nat → List SheetCall
  | 0 => []
  | k + 1 => emptyRow row index ++ fillerRows (row + 1) (index + 1) k

lemma foldl_writeItem (items : List CartItemDto) (index : Nat) (w : Writing) :
    (items.zipIdx index).foldl writeItem w =
      ⟨w.calls ++ itemRows w.currentRow index items, w.currentRow + items.length,
        w.subtotal + (items.map CartItemDto.rowTotal).sum⟩ := by
  induction items generalizing index w with
  | nil => simp [itemRows]
  | cons item items ih =>
    simp only [List.zipIdx_cons, List.foldl_cons, ih, writeItem, itemRows, List.append_assoc,
      List.length_cons, List.map_cons, List.sum_cons, CartItemDto.rowTotal, add_assoc]
    rw [Nat.add_comm 1 items.length]

lemma foldl_writeFiller (index k : Nat) (w : Writing) :
    (List.range' index k).foldl writeFiller w =
      ⟨w.calls ++ fillerRows w.currentRow index k, w.currentRow + k, w.subtotal⟩ := by
  induction k generalizing index w with
  | zero => simp [fillerRows]
  | succ k ih =>
    simp only [List.range'_succ, List.foldl_cons, ih, writeFiller, Writing.put, Writing.skip,
      fillerRows, List.append_assoc, Nat.add_assoc, Nat.add_comm 1 k]

/-- The calls, with the rows that the counter has reached. -/
theorem cartCalls_eq (dto : CartMailDto) (folio date : String) :
    cartCalls dto folio date = (opening dto folio date).calls ++ itemRows 17 0 dto.items ++
      fillerRows (17 + dto.items.length) dto.items.length (MIN_ITEM_ROWS - dto.items.length) ++
      subtotalRow dto.subtotalAt dto.total ++ ivaRow dto.ivaAt ++
      totalRow dto.totalAt dto.total ++ footer (dto.totalAt + 4) := by
  have rows : 17 + dto.items.length + (MIN_ITEM_ROWS - dto.items.length) + 1 =
      dto.subtotalAt := by
    unfold CartMailDto.subtotalAt
    omega
  simp only [cartCalls, foldl_writeItem, foldl_writeFiller, Writing.put, Writing.skip, opening,
    zero_add, rows, CartMailDto.ivaAt, CartMailDto.totalAt, CartMailDto.total]

/-! ## Which rows the parts address -/

lemma emptyRow_within (row index : Nat) : Within row (row + 1) (emptyRow row index) := by
  simp [emptyRow, SheetCall.rows]

lemma itemRow_within (row index : Nat) (item : CartItemDto) :
    Within row (row + 1) (itemRow row index item) := by
  simp [itemRow, emptyRow_within, SheetCall.rows]

lemma subtotalRow_within (row : Nat) (subtotal : ℚ) :
    Within row (row + 1) (subtotalRow row subtotal) := by
  simp [subtotalRow, SheetCall.rows]

lemma ivaRow_within (row : Nat) : Within row (row + 1) (ivaRow row) := by
  simp [ivaRow, SheetCall.rows]

lemma totalRow_within (row : Nat) (subtotal : ℚ) :
    Within row (row + 1) (totalRow row subtotal) := by
  simp [totalRow, SheetCall.rows]

lemma footer_within (row : Nat) : Within row (row + 1) (footer row) := by
  simp [footer, SheetCall.rows]

lemma itemRows_within (row index : Nat) (items : List CartItemDto) :
    Within row (row + items.length) (itemRows row index items) := by
  induction items generalizing row index with
  | nil => simp [itemRows]
  | cons item items ih =>
    rw [itemRows, within_append, List.length_cons]
    exact ⟨(itemRow_within row index item).mono le_rfl (by omega),
      (ih (row + 1) (index + 1)).mono (by omega) (by omega)⟩

lemma fillerRows_within (row index k : Nat) :
    Within row (row + k) (fillerRows row index k) := by
  induction k generalizing row index with
  | zero => simp [fillerRows]
  | succ k ih =>
    rw [fillerRows, within_append]
    exact ⟨(emptyRow_within row index).mono le_rfl (by omega),
      (ih (row + 1) (index + 1)).mono (by omega) (by omega)⟩

lemma background_within (dto : CartMailDto) :
    Within 1 (fillRows dto + 1) (background dto) := by
  intro call hcall r hr
  obtain ⟨row, hrow, column, -, rfl⟩ := by simpa [background] using hcall
  have here : r = row := List.mem_singleton.1 hr
  omega

lemma heading_within : Within 1 17 heading := by
  simp [heading, SheetCall.rows]

lemma contactData_within (dto : CartMailDto) (folio date : String) :
    Within 1 17 (contactData dto folio date) := by
  simp [contactData, infoRows, SheetCall.rows]

lemma tableHeading_within : Within 1 17 tableHeading := by
  simp [tableHeading, tableHeaders, SheetCall.rows]

/-- Every row that a call addresses lies in the filled area. -/
theorem cartCalls_within (dto : CartMailDto) (folio date : String) :
    Within 1 (fillRows dto + 1) (cartCalls dto folio date) := by
  have upper : dto.subtotalAt + 11 = fillRows dto := rfl
  have iva : dto.ivaAt = dto.subtotalAt + 1 := rfl
  have last : dto.totalAt = dto.subtotalAt + 3 := rfl
  have fillers : 17 + dto.items.length + (MIN_ITEM_ROWS - dto.items.length) + 1 =
      dto.subtotalAt := by
    unfold CartMailDto.subtotalAt
    omega
  have opened : Within 1 (fillRows dto + 1) (opening dto folio date).calls := by
    simp only [opening, List.cons_append, within_cons, within_append]
    exact ⟨by simp [SheetCall.rows],
      ⟨⟨background_within dto, heading_within.mono le_rfl (by omega)⟩,
        (contactData_within dto folio date).mono le_rfl (by omega)⟩,
      tableHeading_within.mono le_rfl (by omega)⟩
  simp only [cartCalls_eq, within_append]
  refine ⟨⟨⟨⟨⟨⟨opened, ?_⟩, ?_⟩, ?_⟩, ?_⟩, ?_⟩, ?_⟩
  · exact (itemRows_within _ _ _).mono (by omega) (by omega)
  · exact (fillerRows_within _ _ _).mono (by omega) (by omega)
  · exact (subtotalRow_within _ _).mono (by omega) (by omega)
  · exact (ivaRow_within _).mono (by omega) (by omega)
  · exact (totalRow_within _ _).mono (by omega) (by omega)
  · exact (footer_within _).mono (by omega) (by omega)

/-! ## Which calls touch a cell -/

lemma touching_emptyRow (cell : Cell) (row index : Nat) :
    touching SheetCall.Touches cell (emptyRow row index) = [] := by
  simp [emptyRow]

lemma touching_itemRow (column : Column) (row index : Nat) (item : CartItemDto) :
    touching SheetCall.Touches ⟨column, row⟩ (itemRow row index item) =
      holding ⟨column, row⟩ (item.shown column) := by
  rw [itemRow, touching_append, touching_emptyRow, List.nil_append]
  cases column <;> simp [touching_cons, holding, CartItemDto.shown, CartItemDto.rowTotal]

lemma touching_itemRows (column : Column) (row index i : Nat) (items : List CartItemDto) :
    touching SheetCall.Touches ⟨column, row + i⟩ (itemRows row index items) =
      holding ⟨column, row + i⟩ ((items[i]?).elim .null fun item => item.shown column) := by
  induction items generalizing row index i with
  | nil => rfl
  | cons item items ih =>
    rw [itemRows, touching_append]
    cases i with
    | zero =>
      rw [Nat.add_zero, touching_itemRow,
        (itemRows_within (row + 1) (index + 1) items).untouched (Or.inl (Nat.lt_succ_self row)),
        List.append_nil, List.getElem?_cons_zero, Option.elim_some]
    | succ i =>
      have shifted : row + (i + 1) = row + 1 + i := by omega
      rw [shifted, (itemRow_within row index item).untouched (Or.inr (Nat.le_add_right _ _)),
        List.nil_append, List.getElem?_cons_succ, ih]

lemma touching_fillerRows (cell : Cell) (row index k : Nat) :
    touching SheetCall.Touches cell (fillerRows row index k) = [] := by
  induction k generalizing row index with
  | zero => rfl
  | succ k ih => rw [fillerRows, touching_append, touching_emptyRow, ih, List.append_nil]

lemma touching_subtotalRow (column : Column) (row r : Nat) (subtotal : ℚ) :
    touching SheetCall.Touches ⟨column, row⟩ (subtotalRow r subtotal) =
      holding ⟨column, row⟩
        (if row = r then labelled "SUBTOTAL" (.number subtotal) column else .null) := by
  refine (subtotalRow_within r subtotal).seenFrom (fun column => ?_) column row
  cases column <;> simp [subtotalRow, touching_cons, holding, labelled]

lemma touching_ivaRow (column : Column) (row r : Nat) :
    touching SheetCall.Touches ⟨column, row⟩ (ivaRow r) =
      holding ⟨column, row⟩ (if row = r then labelled "IVA" .null column else .null) := by
  refine (ivaRow_within r).seenFrom (fun column => ?_) column row
  cases column <;> simp [ivaRow, touching_cons, holding, labelled]

lemma touching_totalRow (column : Column) (row r : Nat) (subtotal : ℚ) :
    touching SheetCall.Touches ⟨column, row⟩ (totalRow r subtotal) =
      holding ⟨column, row⟩
        (if row = r then labelled "TOTAL" (.number subtotal) column else .null) := by
  refine (totalRow_within r subtotal).seenFrom (fun column => ?_) column row
  cases column <;> simp [totalRow, touching_cons, holding, labelled]

lemma touching_opening (dto : CartMailDto) (folio date : String) {cell : Cell}
    (low : 17 ≤ cell.row) :
    touching SheetCall.Touches cell (opening dto folio date).calls = [] := by
  have coloured : touching SheetCall.Touches cell (background dto) = [] := by
    simp only [touching_eq_nil, background, List.mem_flatMap, List.mem_map]
    rintro _ ⟨_, _, _, _, rfl⟩
    exact SheetCall.not_touches_fill
  simp only [opening, touching_append, heading_within.untouched (Or.inr low),
    (contactData_within dto folio date).untouched (Or.inr low),
    tableHeading_within.untouched (Or.inr low), List.append_nil, touching_cons,
    SheetCall.not_touches_columns, if_false, coloured]

/-- Below its heading the table and the totals hold what one call each wrote. -/
theorem touching_cartCalls (dto : CartMailDto) (folio date : String) {cell : Cell}
    (low : 17 ≤ cell.row) (high : cell.row ≤ dto.totalAt) :
    touching SheetCall.Touches cell (cartCalls dto folio date) =
      holding cell (dto.quotation cell) := by
  obtain ⟨column, row⟩ := cell
  have iva : dto.ivaAt = dto.subtotalAt + 1 := rfl
  have last : dto.totalAt = dto.subtotalAt + 3 := rfl
  have room : 17 + dto.items.length < dto.subtotalAt := by
    unfold CartMailDto.subtotalAt
    omega
  have footed : touching SheetCall.Touches ⟨column, row⟩ (footer (dto.totalAt + 4)) = [] :=
    (footer_within _).untouched (Or.inl (Nat.lt_add_right 3 (Nat.lt_succ_of_le high)))
  obtain ⟨i, rfl⟩ := Nat.exists_eq_add_of_le low
  rw [cartCalls_eq]
  simp only [touching_append, touching_opening dto folio date low, touching_itemRows,
    touching_fillerRows, touching_subtotalRow, touching_ivaRow, touching_totalRow, footed,
    List.nil_append, List.append_nil, CartMailDto.quotation, Nat.add_sub_cancel_left]
  cases listed : dto.items[i]? with
  | some item =>
    obtain ⟨inside, -⟩ := List.getElem?_eq_some_iff.1 listed
    rw [if_neg (by omega), if_neg (by omega), if_neg (by omega)]
    simp
  | none =>
    simp only [Option.elim_none, holding_null, List.nil_append]
    by_cases first : 17 + i = dto.subtotalAt
    · rw [if_pos first, if_neg (by omega), if_neg (by omega), if_pos first]
      simp
    · by_cases second : 17 + i = dto.ivaAt
      · rw [if_neg first, if_pos second, if_neg (by omega), if_neg first, if_pos second]
        simp
      · rw [if_neg first, if_neg second, if_neg first, if_neg second]
        simp

/-! ## The merged ranges -/

lemma mergesOf_emptyRow (row index : Nat) : mergesOf (emptyRow row index) = [] := rfl

lemma mergesOf_itemRows (row index : Nat) (items : List CartItemDto) :
    mergesOf (itemRows row index items) = [] := by
  induction items generalizing row index with
  | nil => rfl
  | cons item items ih => rw [itemRows, mergesOf_append, ih]; rfl

lemma mergesOf_fillerRows (row index k : Nat) : mergesOf (fillerRows row index k) = [] := by
  induction k generalizing row index with
  | zero => rfl
  | succ k ih => rw [fillerRows, mergesOf_append, ih, mergesOf_emptyRow, List.append_nil]

lemma mergesOf_background (dto : CartMailDto) : mergesOf (background dto) = [] := by
  simp only [mergesOf, background, List.flatMap_eq_nil_iff, List.mem_flatMap, List.mem_map]
  rintro _ ⟨_, _, _, _, rfl⟩
  rfl

lemma mergesOf_cartCalls (dto : CartMailDto) (folio date : String) :
    mergesOf (cartCalls dto folio date) =
      [⟨⟨.D, 5⟩, ⟨.E, 5⟩⟩, ⟨⟨.D, 6⟩, ⟨.E, 6⟩⟩, ⟨⟨.D, 7⟩, ⟨.E, 7⟩⟩,
        ⟨⟨.B, dto.totalAt + 4⟩, ⟨.E, dto.totalAt + 4⟩⟩] := by
  have before : mergesOf (.columns [3, 36, 12, 14, 14, 3] :: background dto) = [] :=
    mergesOf_background dto
  simp only [cartCalls_eq, opening, mergesOf_append, mergesOf_itemRows, mergesOf_fillerRows, before]
  rfl

end MailService

/-! ## The finished sheet -/

namespace MailService
variable {xl : Exceljs} {sheet : xl.Sheet} {dto : CartMailDto} {folio date : String}

lemma buildCartWorkbook_succeeds (xl : Exceljs) (dto : CartMailDto) (folio date : String) :
    ∃ sheet, buildCartWorkbook dto folio date xl = .ok sheet := by
  refine Exceljs.perform_succeeds ?_ fun _ _ other none => ?_
  · rw [mergesOf_cartCalls]
    have far : 7 < dto.totalAt + 4 := by
      unfold CartMailDto.totalAt CartMailDto.subtotalAt
      omega
    refine List.Pairwise.imp CellRange.apart_of_rows ?_
    simp
    omega
  · rw [xl.merged_new] at none
    cases none

/-- From its first item to its last total the sheet holds the quotation. -/
theorem value_eq_quotation (built : buildCartWorkbook dto folio date xl = .ok sheet) {cell : Cell}
    (low : 17 ≤ cell.row) (high : cell.row ≤ dto.totalAt) :
    xl.value sheet cell = dto.quotation cell := by
  have free : xl.Free xl.addWorksheet cell := by
    intro range none
    rw [xl.merged_new] at none
    cases none
  have only := touching_cartCalls dto folio date low high
  unfold holding at only
  split at only
  · rename_i empty
    have kept := (run_frame Exceljs.frames built free (touching_eq_nil.1 only)).1
    rw [kept, xl.value_new, empty]
  · refine read_of_touching Exceljs.frames only (fun called free => ?_) built free
    refine ⟨xl.value_written called, Exceljs.free_call called free fun _ none => ?_⟩
    cases none

/-- A value written below the heading of the table stays. -/
theorem value_stays {before after : List SheetCall} {cell : Cell} {v : CellValue}
    (split : cartCalls dto folio date = before ++ .value cell v :: after)
    (low : 17 ≤ cell.row) (high : cell.row ≤ dto.totalAt) :
    ∀ call ∈ after, ¬ call.Touches cell := by
  have only := touching_cartCalls dto folio date low high
  rw [split, touching_append, touching_cons, if_pos (SheetCall.touches_value.2 rfl)] at only
  have short := congrArg List.length only
  rw [← touching_eq_nil, ← List.length_eq_zero_iff]
  have atMost : (holding cell (dto.quotation cell)).length ≤ 1 := by
    unfold holding
    split <;> simp
  simp only [List.length_append, List.length_cons] at short
  omega

end MailService

/-! ## Amounts in cents -/

/-- A whole number of cents, at most so many. -/
def InCents (bound : Nat) (amount : ℚ) : Prop :=
  ∃ cents : ℕ, amount * 100 = cents ∧ cents ≤ bound

lemma exists_nat_of_isInt {amount : ℚ} (whole : amount.den = 1) (nonneg : 0 ≤ amount) :
    ∃ n : ℕ, amount = n := by
  have numerator : (amount.num : ℚ) = amount := Rat.den_eq_one_iff _ |>.1 whole
  obtain ⟨n, hn⟩ := Int.eq_ofNat_of_zero_le (Rat.num_nonneg.2 nonneg)
  exact ⟨n, by rw [← numerator, hn]; rfl⟩

lemma InCents.mono {bound bound' : Nat} {amount : ℚ} (inCents : InCents bound amount)
    (le : bound ≤ bound') : InCents bound' amount := by
  obtain ⟨cents, equal, atMost⟩ := inCents
  exact ⟨cents, equal, atMost.trans le⟩

lemma InCents.sum {bound : Nat} {amounts : List ℚ} (each : ∀ a ∈ amounts, InCents bound a) :
    InCents (amounts.length * bound) amounts.sum := by
  induction amounts with
  | nil => exact ⟨0, by simp, by simp⟩
  | cons a amounts ih =>
    obtain ⟨cents, equal, small⟩ := each a List.mem_cons_self
    obtain ⟨rest, equal', small'⟩ := ih fun b hb => each b (List.mem_cons_of_mem _ hb)
    refine ⟨cents + rest, ?_, ?_⟩
    · rw [List.sum_cons, add_mul, equal, equal', Nat.cast_add]
    · rw [List.length_cons, Nat.succ_mul]
      omega

lemma InCents.lt_two_pow {bound : Nat} {amount : ℚ} (inCents : InCents bound amount)
    (small : bound < 2 ^ 53) : ∃ cents : ℕ, amount * 100 = cents ∧ cents < 2 ^ 53 := by
  obtain ⟨cents, equal, atMost⟩ := inCents
  exact ⟨cents, equal, atMost.trans_lt small⟩

section Accepted
variable {v : ClassValidator} {item : CartItemDto}

lemma CartItemDto.Accepted.precio_inCents (accepted : item.Accepted v) :
    InCents (10 ^ 8) item.precio := by
  obtain ⟨-, -, places, positive, atMost⟩ := accepted
  obtain ⟨cents, equal⟩ := exists_nat_of_isInt (v.isNumber_places _ _ places) (by positivity)
  have hundred : item.precio * 100 = cents := by
    rw [← equal]
    norm_num
  have bounded : (cents : ℚ) ≤ (10 ^ 8 : ℕ) := by
    rw [← hundred]
    norm_num
    linarith
  exact ⟨cents, hundred, by exact_mod_cast bounded⟩

lemma CartItemDto.Accepted.rowTotal_inCents (accepted : item.Accepted v) :
    InCents (10 ^ 11) item.rowTotal := by
  obtain ⟨cents, equal, small⟩ := accepted.precio_inCents
  obtain ⟨-, ⟨whole, atLeast, atMost⟩, -⟩ := accepted
  obtain ⟨n, units⟩ := exists_nat_of_isInt (v.isInt_whole _ whole) (zero_le_one.trans atLeast)
  have few : n ≤ 1000 := by
    rw [units] at atMost
    exact_mod_cast atMost
  refine ⟨n * cents, ?_, (Nat.mul_le_mul few small).trans (by norm_num)⟩
  rw [CartItemDto.rowTotal, mul_assoc, equal, units, Nat.cast_mul]

end Accepted

namespace MailService

/-- The variables of the loop after the first `k` items. -/
def afterItems (dto : CartMailDto) (folio date : String) (k : Nat) : Writing :=
  (dto.items.take k).zipIdx.foldl writeItem (opening dto folio date)

lemma afterItems_subtotal (dto : CartMailDto) (folio date : String) (k : Nat) :
    (afterItems dto folio date k).subtotal =
      ((dto.items.take k).map CartItemDto.rowTotal).sum := by
  rw [afterItems, foldl_writeItem]
  exact zero_add _

/-- The running subtotal of an accepted cart is a number of cents below the safe
integers. -/
lemma afterItems_inCents {v : ClassValidator} {dto : CartMailDto} (accepted : dto.Accepted v)
    (folio date : String) (k : Nat) :
    InCents (50 * 10 ^ 11) (afterItems dto folio date k).subtotal := by
  obtain ⟨-, -, -, -, -, few, each⟩ := accepted
  have rows : ∀ a ∈ (dto.items.take k).map CartItemDto.rowTotal, InCents (10 ^ 11) a := by
    intro a ha
    obtain ⟨item, taken, rfl⟩ := List.mem_map.1 ha
    exact (each item (List.mem_of_mem_take taken)).rowTotal_inCents
  rw [afterItems_subtotal]
  refine (InCents.sum rows).mono (Nat.mul_le_mul_right _ ?_)
  rw [List.length_map]
  exact (List.length_take_le' k dto.items).trans few

/-! ## The quotation -/

/-- The number a cell shows. -/
def amountOf : CellValue → ℚ
  | .number amount => amount
  | _ => 0

section Built
variable {xl : Exceljs} {sheet : xl.Sheet} {dto : CartMailDto} {folio date : String}

lemma value_item (built : buildCartWorkbook dto folio date xl = .ok sheet) {i : Nat}
    {item : CartItemDto} (listed : dto.items[i]? = some item) (column : Column) :
    xl.value sheet ⟨column, 17 + i⟩ = item.shown column := by
  obtain ⟨inside, -⟩ := List.getElem?_eq_some_iff.1 listed
  have high : 17 + i ≤ dto.totalAt := by
    unfold CartMailDto.totalAt CartMailDto.subtotalAt
    omega
  rw [value_eq_quotation built (Nat.le_add_right 17 i) high]
  simp [CartMailDto.quotation, listed]

lemma value_filler (built : buildCartWorkbook dto folio date xl = .ok sheet) {row : Nat}
    (past : 17 + dto.items.length ≤ row) (before : row < dto.subtotalAt) (column : Column) :
    xl.value sheet ⟨column, row⟩ = .null := by
  have unlisted : dto.items[row - 17]? = none := List.getElem?_eq_none (by omega)
  have iva : dto.ivaAt = dto.subtotalAt + 1 := rfl
  have last : dto.totalAt = dto.subtotalAt + 3 := rfl
  have high : row ≤ dto.totalAt := by omega
  rw [value_eq_quotation built (Nat.le_of_add_right_le past) high]
  simp only [CartMailDto.quotation, unlisted]
  rw [if_neg (by omega), if_neg (by omega), if_neg (by omega)]

lemma sum_items (built : buildCartWorkbook dto folio date xl = .ok sheet) :
    ((List.range dto.items.length).map fun i => amountOf (xl.value sheet ⟨.E, 17 + i⟩)).sum =
      dto.total := by
  refine congrArg List.sum (List.ext_getElem (by simp) fun i inside inside' => ?_)
  simp only [List.getElem_map, List.getElem_range]
  rw [value_item built (List.getElem?_eq_getElem (by simpa using inside)) .E]
  rfl

lemma value_totals (built : buildCartWorkbook dto folio date xl = .ok sheet) (column : Column) :
    xl.value sheet ⟨column, dto.subtotalAt⟩ =
        labelled "SUBTOTAL" (.number dto.total) column ∧
      xl.value sheet ⟨column, dto.ivaAt⟩ = labelled "IVA" .null column ∧
      xl.value sheet ⟨column, dto.totalAt⟩ = labelled "TOTAL" (.number dto.total) column := by
  have unlisted : ∀ row, dto.subtotalAt ≤ row → dto.items[row - 17]? = none := by
    intro row hrow
    unfold CartMailDto.subtotalAt at hrow
    exact List.getElem?_eq_none (by omega)
  have low : 17 ≤ dto.subtotalAt := by
    unfold CartMailDto.subtotalAt
    omega
  have iva : dto.ivaAt = dto.subtotalAt + 1 := rfl
  have last : dto.totalAt = dto.subtotalAt + 3 := rfl
  have shows : ∀ row, dto.subtotalAt ≤ row → row ≤ dto.totalAt →
      xl.value sheet ⟨column, row⟩ = dto.quotation ⟨column, row⟩ := fun row after high =>
    value_eq_quotation built (low.trans after) high
  have afterIva : dto.subtotalAt ≤ dto.ivaAt := by omega
  have beforeIva : dto.ivaAt ≤ dto.totalAt := by omega
  have afterTotal : dto.subtotalAt ≤ dto.totalAt := afterIva.trans beforeIva
  refine ⟨?_, ?_, ?_⟩
  · rw [shows _ le_rfl afterTotal, CartMailDto.quotation, unlisted _ le_rfl]
    exact if_pos rfl
  · rw [shows _ afterIva beforeIva, CartMailDto.quotation, unlisted _ afterIva]
    exact (if_neg (by simp only; omega)).trans (if_pos rfl)
  · rw [shows _ afterTotal le_rfl, CartMailDto.quotation, unlisted _ afterTotal]
    exact (if_neg (by simp only; omega)).trans ((if_neg (by simp only; omega)).trans (if_pos rfl))

end Built

/-- What stands below the heading of the table. -/
structure Lists (xl : Exceljs) (sheet : xl.Sheet) (dto : CartMailDto) : Prop where
  items : ∀ i item, dto.items[i]? = some item →
    xl.value sheet ⟨.B, 17 + i⟩ = .text item.nombre ∧
      xl.value sheet ⟨.C, 17 + i⟩ = .number item.cantidad ∧
      xl.value sheet ⟨.D, 17 + i⟩ = .number item.precio ∧
      xl.value sheet ⟨.E, 17 + i⟩ = .number (item.cantidad * item.precio)
  nothing_else : ∀ column row, 17 + dto.items.length ≤ row → row ≤ 17 + max dto.items.length 7 →
    xl.value sheet ⟨column, row⟩ = .null
  subtotal : xl.value sheet ⟨.D, 17 + max dto.items.length 7 + 1⟩ = .text "SUBTOTAL" ∧
    xl.value sheet ⟨.E, 17 + max dto.items.length 7 + 1⟩ = .number
      ((List.range dto.items.length).map fun i => amountOf (xl.value sheet ⟨.E, 17 + i⟩)).sum
  iva : xl.value sheet ⟨.D, 17 + max dto.items.length 7 + 2⟩ = .text "IVA" ∧
    xl.value sheet ⟨.E, 17 + max dto.items.length 7 + 2⟩ = .null
  total : xl.value sheet ⟨.D, 17 + max dto.items.length 7 + 4⟩ = .text "TOTAL" ∧
    xl.value sheet ⟨.E, 17 + max dto.items.length 7 + 4⟩ = .number
      ((List.range dto.items.length).map fun i => amountOf (xl.value sheet ⟨.E, 17 + i⟩)).sum

/-- Where the calls go, and that no value from the items to the total is touched after
its call. -/
structure Placed (dto : CartMailDto) (calls : List SheetCall) : Prop where
  stays : ∀ before cell v after, calls = before ++ .value cell v :: after → 17 ≤ cell.row →
    cell.row ≤ 17 + max dto.items.length 7 + 4 → ∀ call ∈ after, ¬ call.Touches cell
  first : .columns [3, 36, 12, 14, 14, 3] :: background dto <+: calls
  filled : ∀ column r, 1 ≤ r → r ≤ 17 + max dto.items.length 7 + 12 →
    .fill ⟨column, r⟩ CREAM ∈ background dto
  inside : ∀ call ∈ calls, ∀ r ∈ call.rows, 1 ≤ r ∧ r ≤ 17 + max dto.items.length 7 + 12

lemma lists_of_built {xl : Exceljs} {sheet : xl.Sheet} {dto : CartMailDto} {folio date : String}
    (built : buildCartWorkbook dto folio date xl = .ok sheet) : Lists xl sheet dto where
  items i item listed := ⟨value_item built listed .B, value_item built listed .C,
    value_item built listed .D, value_item built listed .E⟩
  nothing_else column row past before := value_filler built past (Nat.lt_succ_of_le before) column
  subtotal := ⟨(value_totals built .D).1, by rw [sum_items built]; exact (value_totals built .E).1⟩
  iva := ⟨(value_totals built .D).2.1, (value_totals built .E).2.1⟩
  total := ⟨(value_totals built .D).2.2,
    by rw [sum_items built]; exact (value_totals built .E).2.2⟩

lemma background_fills (dto : CartMailDto) {column : Column} {r : Nat} (one : 1 ≤ r)
    (high : r ≤ fillRows dto) : .fill ⟨column, r⟩ CREAM ∈ background dto := by
  refine List.mem_flatMap.2 ⟨r, List.mem_range'_1.2 ⟨one, by omega⟩, ?_⟩
  refine List.mem_map.2 ⟨column, ?_, rfl⟩
  cases column <;> decide

lemma cartCalls_placed (dto : CartMailDto) (folio date : String) :
    Placed dto (cartCalls dto folio date) where
  stays before cell v after split low high := value_stays split low high
  first := by
    simp only [cartCalls_eq, opening, List.append_assoc]
    exact List.prefix_append _ _
  filled column r one high := background_fills dto one high
  inside call hcall r hr := by
    obtain ⟨one, high⟩ := cartCalls_within dto folio date call hcall r hr
    exact ⟨one, Nat.lt_succ_iff.1 high⟩

/-- The sheet lists the items of every cart in order, adds them up and keeps within
its coloured rows. -/
theorem buildCartWorkbook_quotes (xl : Exceljs) (v : ClassValidator) (dto : CartMailDto)
    (folio date : String) :
    (∃ sheet, buildCartWorkbook dto folio date xl = .ok sheet ∧ Lists xl sheet dto) ∧
      Placed dto (cartCalls dto folio date) ∧
      (dto.Accepted v →
        (∀ item ∈ dto.items, (∃ cents : ℕ, item.precio * 100 = cents ∧ cents < 2 ^ 53) ∧
          ∃ cents : ℕ, item.cantidad * item.precio * 100 = cents ∧ cents < 2 ^ 53) ∧
        ∀ k, ∃ cents : ℕ, (afterItems dto folio date k).subtotal * 100 = cents ∧
          cents < 2 ^ 53) := by
  obtain ⟨sheet, built⟩ := buildCartWorkbook_succeeds xl dto folio date
  refine ⟨⟨sheet, built, lists_of_built built⟩, cartCalls_placed dto folio date, ?_⟩
  intro accepted
  have each := accepted.2.2.2.2.2.2
  exact ⟨fun item hitem => ⟨(each item hitem).precio_inCents.lt_two_pow (by norm_num),
      (each item hitem).rowTotal_inCents.lt_two_pow (by norm_num)⟩,
    fun k => (afterItems_inCents accepted folio date k).lt_two_pow (by norm_num)⟩

def twoWines : CartMailDto where
  nombre := "Ana"
  apellido := "Ruiz"
  correo := "ana@example.com"
  ubicacion := "Ensenada"
  items := [⟨"Tinto", 3, 450 + 1 / 2⟩, ⟨"Blanco", 12, 399⟩]

def plainValidator : ClassValidator :=
  .plain (· == "ana@example.com") (· == "https://bajavalle.mx/tinto.png")

lemma twoWines_accepted : twoWines.Accepted plainValidator := by decide +kernel

theorem buildCartWorkbook_quotes_two : twoWines.Accepted plainValidator ∧
    (∃ sheet, buildCartWorkbook twoWines "COT-1" "1 de mayo de 2025" plainExceljs = .ok sheet ∧
      Lists plainExceljs sheet twoWines) ∧
    ∀ k, ∃ cents : ℕ, (afterItems twoWines "COT-1" "1 de mayo de 2025" k).subtotal * 100 = cents ∧
      cents < 2 ^ 53 :=
  have quotes := buildCartWorkbook_quotes plainExceljs plainValidator twoWines "COT-1"
    "1 de mayo de 2025"
  ⟨twoWines_accepted, quotes.1, (quotes.2.2 twoWines_accepted).2⟩

end MailService

end BajaValle
