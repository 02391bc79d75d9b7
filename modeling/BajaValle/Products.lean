import BajaValle.Lib.CallPrograms
import BajaValle.Validators
import Mathlib.Algebra.Order.Floor.Defs
import Mathlib.Data.Rat.Floor
import Mathlib.Logic.Function.Basic

/-!
# Products

The catalog with its two tables, the calls that `ProductsService` makes on it, and
the bodies its requests carry.
-/

namespace BajaValle

open CallPrograms Prog

/-! ## Bodies -/

structure CreateProductDto where
  name : String
  description : String
  features : List String
  specifications : String
  price : ℚ
  imageUrl : Option String
  categoryId : ℤ
  deriving DecidableEq

/-- A field of a body that may be left out or null. -/
inductive Given (α : Type) where
  | absent
  | null
  | value (a : α)
  deriving DecidableEq

namespace Given
variable {α β : Type}

def value? : Given α → Option α
  | value a => some a
  | _ => none

/-- A column that cannot be null, after the field. -/
def required (field : Given α) (old : α) : α := field.value?.getD old

/-- A column that can be null, after the field. -/
def nullable (field : Given α) (old : Option α) : Option α :=
  match field with
  | absent => old
  | null => none
  | value a => some a

def map (f : α → β) : Given α → Given β
  | absent => absent
  | null => null
  | value a => value (f a)

end Given

structure UpdateProductDto where
  name : Given String := .absent
  description : Given String := .absent
  features : Given (List String) := .absent
  specifications : Given String := .absent
  price : Given ℚ := .absent
  imageUrl : Given String := .absent
  categoryId : Given ℤ := .absent
  deriving DecidableEq

section Validation
variable (v : ClassValidator)

def CreateProductDto.Accepted (dto : CreateProductDto) : Prop :=
  dto.name ≠ "" ∧ dto.description ≠ "" ∧ dto.specifications ≠ "" ∧
    (v.isNumber 2 dto.price ∧ 0 < dto.price) ∧ (∀ url ∈ dto.imageUrl, v.isUrl url) ∧
    1 ≤ dto.categoryId

instance CreateProductDto.decidableAccepted (dto : CreateProductDto) :
    Decidable (dto.Accepted v) :=
  inferInstanceAs (Decidable (_ ∧ _ ∧ _ ∧ (_ ∧ _) ∧ (∀ url ∈ dto.imageUrl, _) ∧ _))

def UpdateProductDto.Accepted (dto : UpdateProductDto) : Prop :=
  (∀ price ∈ dto.price.value?, v.isNumber 2 price ∧ 0 < price) ∧
    (∀ url ∈ dto.imageUrl.value?, v.isUrl url) ∧
    ∀ categoryId ∈ dto.categoryId.value?, 1 ≤ categoryId

instance UpdateProductDto.decidableAccepted (dto : UpdateProductDto) :
    Decidable (dto.Accepted v) :=
  inferInstanceAs (Decidable ((∀ price ∈ dto.price.value?, _ ∧ _) ∧
    (∀ url ∈ dto.imageUrl.value?, _) ∧ ∀ categoryId ∈ dto.categoryId.value?, _))

end Validation

/-! ## Tables -/

structure Category where
  id : ℤ
  name : String
  color : Option String := none
  iconUrl : Option String := none
  deriving DecidableEq

/-- The columns of a product beside its key. -/
structure ProductRow where
  name : String
  description : String
  features : List String
  specifications : Option String
  price : ℚ
  imageUrl : Option String
  categoryId : ℤ
  deriving DecidableEq

structure StoredProduct extends ProductRow where
  id : ℤ
  deriving DecidableEq

/-- A product read with its category. -/
structure Product extends StoredProduct where
  category : Category
  deriving DecidableEq

/-- The columns of `product.create`; one that is left out is null. -/
structure ProductData where
  name : String
  description : String
  features : List String
  specifications : Option String := none
  price : ℚ
  imageUrl : Option String := none
  categoryId : ℤ
  deriving DecidableEq

inductive CatalogError
  | unavailable
  | recordNotFound
  | foreignKeyViolation
  | numericOverflow
  | nullValue
  deriving DecidableEq

/-- `Decimal(12, 2)`: two places, rounded half away from zero. -/
def toDecimal (price : ℚ) : ℚ :=
  if 0 ≤ price then ⌊price * 100 + 1 / 2⌋ / 100 else -(⌊-price * 100 + 1 / 2⌋ / 100)

/-- The category exists for each product and no id is above the last one drawn. -/
structure Catalog where
  categories : List Category
  products : ℤ → Option ProductRow
  lastId : ℤ
  related : ∀ id row, products id = some row → ∃ c ∈ categories, c.id = row.categoryId
  drawn : ∀ id row, products id = some row → id ≤ lastId

def ProductData.row (data : ProductData) : ProductRow :=
  { name := data.name, description := data.description, features := data.features,
    specifications := data.specifications, price := toDecimal data.price,
    imageUrl := data.imageUrl, categoryId := data.categoryId }

/-- The columns that an update names are set, the others stay. -/
def ProductRow.apply (row : ProductRow) (data : UpdateProductDto) : ProductRow :=
  { name := data.name.required row.name
    description := data.description.required row.description
    features := data.features.required row.features
    specifications := data.specifications.nullable row.specifications
    price := (data.price.map toDecimal).required row.price
    imageUrl := data.imageUrl.nullable row.imageUrl
    categoryId := data.categoryId.required row.categoryId }

/-- The update names a null for a column that cannot be null. -/
def UpdateProductDto.NamesNull (data : UpdateProductDto) : Prop :=
  data.name = .null ∨ data.description = .null ∨ data.features = .null ∨ data.price = .null ∨
    data.categoryId = .null

instance (data : UpdateProductDto) : Decidable data.NamesNull :=
  inferInstanceAs (Decidable (_ ∨ _ ∨ _ ∨ _ ∨ _))

def Overflows (price : ℚ) : Prop := 10 ^ 10 ≤ |toDecimal price|

instance (price : ℚ) : Decidable (Overflows price) := inferInstanceAs (Decidable (_ ≤ _))

namespace Catalog
variable (w : Catalog)

def categoryOf (row : ProductRow) : Option Category :=
  w.categories.find? fun c => c.id = row.categoryId

variable {w} in
lemma categoryOf_known {row : ProductRow} {c : Category} (found : w.categoryOf row = some c) :
    ∃ c ∈ w.categories, c.id = row.categoryId :=
  ⟨c, List.mem_of_find?_eq_some found, by simpa using List.find?_some found⟩

def product (id : ℤ) : Option Product :=
  (w.products id).bind fun row =>
    (w.categoryOf row).map fun c => { row with id, category := c }

def write (id : ℤ) (row : ProductRow) (known : ∃ c ∈ w.categories, c.id = row.categoryId) :
    Catalog where
  categories := w.categories
  products := Function.update w.products id (some row)
  lastId := max w.lastId id
  related id' row' stored := by
    by_cases here : id' = id
    · rw [here, Function.update_self] at stored
      exact Option.some.inj stored ▸ known
    · rw [Function.update_of_ne here] at stored
      exact w.related id' row' stored
  drawn id' row' stored := by
    by_cases here : id' = id
    · exact here ▸ le_max_right _ _
    · rw [Function.update_of_ne here] at stored
      exact (w.drawn id' row' stored).trans (le_max_left _ _)

def erase (id : ℤ) : Catalog where
  categories := w.categories
  products := Function.update w.products id none
  lastId := w.lastId
  related id' row' stored := by
    by_cases here : id' = id
    · rw [here, Function.update_self] at stored
      cases stored
    · rw [Function.update_of_ne here] at stored
      exact w.related id' row' stored
  drawn id' row' stored := by
    by_cases here : id' = id
    · rw [here, Function.update_self] at stored
      cases stored
    · rw [Function.update_of_ne here] at stored
      exact w.drawn id' row' stored

/-- An insert that fails may have drawn its id. -/
def draw (drew : Bool) : Catalog where
  categories := w.categories
  products := w.products
  lastId := if drew then w.lastId + 1 else w.lastId
  related := w.related
  drawn id row stored := by
    have le := w.drawn id row stored
    split <;> omega

/-! ## Calls -/

/-- What the database leaves open at a call. -/
structure Choice where
  fails : Option CatalogError := none
  drew : Bool := false

def productFindUnique (ch : Choice) (id : ℤ) : Except CatalogError (Option Product) × Catalog :=
  match ch.fails with
  | some e => (.error e, w)
  | none => (.ok (w.product id), w)

def productCreate (ch : Choice) (data : ProductData) : Except CatalogError Product × Catalog :=
  match ch.fails with
  | some e => (.error e, w.draw ch.drew)
  | none =>
    if Overflows data.price then (.error .numericOverflow, w.draw ch.drew)
    else
      match found : w.categoryOf data.row with
      | none => (.error .foreignKeyViolation, w.draw ch.drew)
      | some c =>
        (.ok { data.row with id := w.lastId + 1, category := c },
          w.write (w.lastId + 1) data.row (categoryOf_known found))

/-- A null that no column takes is refused before the query is sent. -/
def productUpdate (ch : Choice) (id : ℤ) (data : UpdateProductDto) :
    Except CatalogError Product × Catalog :=
  if data.NamesNull then (.error .nullValue, w)
  else
    match ch.fails, w.products id with
    | some e, _ => (.error e, w)
    | none, none => (.error .recordNotFound, w)
    | none, some row =>
      if ∃ price ∈ data.price.value?, Overflows price then (.error .numericOverflow, w)
      else
        match found : w.categoryOf (row.apply data) with
        | none => (.error .foreignKeyViolation, w)
        | some c =>
          (.ok { row.apply data with id, category := c },
            w.write id (row.apply data) (categoryOf_known found))

def productDelete (ch : Choice) (id : ℤ) : Except CatalogError StoredProduct × Catalog :=
  match ch.fails, w.products id with
  | some e, _ => (.error e, w)
  | none, none => (.error .recordNotFound, w)
  | none, some row => (.ok { row with id }, w.erase id)

section Cases
variable {w : Catalog} (ch : Choice)

lemma productFindUnique_cases (id : ℤ) :
    (∃ e, ch.fails = some e ∧ w.productFindUnique ch id = (.error e, w)) ∨
      w.productFindUnique ch id = (.ok (w.product id), w) := by
  unfold productFindUnique
  split
  · rename_i e fails
    exact .inl ⟨e, fails, rfl⟩
  · exact .inr rfl

lemma productCreate_cases (data : ProductData) :
    (∃ e, w.productCreate ch data = (.error e, w.draw ch.drew)) ∨
      ∃ c known, w.productCreate ch data = (.ok { data.row with id := w.lastId + 1, category := c },
        w.write (w.lastId + 1) data.row known) := by
  unfold productCreate
  split
  · exact .inl ⟨_, rfl⟩
  · split
    · exact .inl ⟨_, rfl⟩
    · split
      · exact .inl ⟨_, rfl⟩
      · rename_i c found
        exact .inr ⟨c, categoryOf_known found, rfl⟩

lemma productUpdate_cases (id : ℤ) (data : UpdateProductDto) :
    (∃ e, w.productUpdate ch id data = (.error e, w)) ∨
      ∃ row c known, w.products id = some row ∧ w.productUpdate ch id data =
        (.ok { row.apply data with id, category := c }, w.write id (row.apply data) known) := by
  unfold productUpdate
  split
  · exact .inl ⟨_, rfl⟩
  · split
    · exact .inl ⟨_, rfl⟩
    · exact .inl ⟨_, rfl⟩
    · rename_i row _ stored
      split
      · exact .inl ⟨_, rfl⟩
      · split
        · exact .inl ⟨_, rfl⟩
        · rename_i c found
          exact .inr ⟨row, c, categoryOf_known found, stored, rfl⟩

lemma productDelete_cases (id : ℤ) :
    (∃ e, w.productDelete ch id = (.error e, w)) ∨
      ∃ row, w.products id = some row ∧
        w.productDelete ch id = (.ok { row with id }, w.erase id) := by
  unfold productDelete
  split
  · exact .inl ⟨_, rfl⟩
  · exact .inl ⟨_, rfl⟩
  · rename_i row _ stored
    exact .inr ⟨row, stored, rfl⟩

lemma productUpdate_missing {id : ℤ} (missing : w.products id = none) (data : UpdateProductDto) :
    w.productUpdate ch id data = (.error .nullValue, w) ∨
      w.productUpdate ch id data = (.error (ch.fails.getD .recordNotFound), w) := by
  unfold productUpdate
  rw [missing]
  split
  · exact .inl rfl
  · cases ch.fails with
    | none => exact .inr rfl
    | some e => exact .inr rfl

lemma productDelete_missing {id : ℤ} (missing : w.products id = none) :
    w.productDelete ch id = (.error (ch.fails.getD .recordNotFound), w) := by
  unfold productDelete
  rw [missing]
  cases ch.fails with
  | none => rfl
  | some e => rfl

end Cases

end Catalog

inductive CatalogOp where
  | productFindUnique (id : ℤ)
  | productCreate (data : ProductData)
  | productUpdate (id : ℤ) (data : UpdateProductDto)
  | productDelete (id : ℤ)

@[reducible] def CatalogOp.Res : CatalogOp → Type
  | .productFindUnique _ => Except CatalogError (Option Product)
  | .productCreate _ | .productUpdate _ _ => Except CatalogError Product
  | .productDelete _ => Except CatalogError StoredProduct

def Catalog.exec (ch : Catalog.Choice) : (op : CatalogOp) → Catalog → Option (op.Res × Catalog)
  | .productFindUnique id, w => some (w.productFindUnique ch id)
  | .productCreate data, w => some (w.productCreate ch data)
  | .productUpdate id data, w => some (w.productUpdate ch id data)
  | .productDelete id, w => some (w.productDelete ch id)

/-! ## The service -/

inductive ProductError
  | notFound (message : String)
  | database (e : CatalogError)
  deriving DecidableEq

abbrev CatalogTask (α : Type) := Prog CatalogOp CatalogOp.Res ProductError α

namespace ProductsService

def awaited {α : Type} : Except CatalogError α → CatalogTask α
  | .ok a => .ret a
  | .error e => .throw (.database e)

def notFound (id : ℤ) : ProductError :=
  .notFound ("Producto con id " ++ toString id ++ " no encontrado")

def findOne (id : ℤ) : CatalogTask Product := do
  let product ← awaited (← Prog.perform (.productFindUnique id))
  match product with
  | none => .throw (notFound id)
  | some product => return product

/-- The columns are listed by hand. -/
def create (dto : CreateProductDto) : CatalogTask Product := do
  awaited (← Prog.perform (.productCreate
    { name := dto.name
      description := dto.description
      features := dto.features
      specifications := dto.specifications
      price := dto.price
      categoryId := dto.categoryId }))

/-- The body is passed through. -/
def update (id : ℤ) (dto : UpdateProductDto) : CatalogTask Product := do
  let _ ← findOne id
  awaited (← Prog.perform (.productUpdate id dto))

def remove (id : ℤ) : CatalogTask StoredProduct := do
  let _ ← findOne id
  awaited (← Prog.perform (.productDelete id))

end ProductsService

end BajaValle
