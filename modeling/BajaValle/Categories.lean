import BajaValle.Lib.Embeddings
import BajaValle.Products
import Mathlib.Data.List.Sort

/-!
# Categories

The categories beside the products: their names are unique, a category with
products is not deleted, and every read of a category brings its products.
-/

namespace BajaValle

open CallPrograms Prog

/-! ## Bodies -/

structure CreateCategoryDto where
  name : String
  color : Option String := none
  deriving DecidableEq

structure UpdateCategoryDto where
  name : Given String := .absent
  color : Given String := .absent
  deriving DecidableEq

/-! ## Tables -/

/-- A category read with its products. -/
structure CategoryWithProducts extends Category where
  products : List StoredProduct
  deriving DecidableEq

/-- The columns of `product.findMany`. -/
structure ProductSummary where
  id : ℤ
  name : String
  price : ℚ
  imageUrl : Option String
  categoryId : ℤ
  deriving DecidableEq

def StoredProduct.summary (p : StoredProduct) : ProductSummary :=
  { id := p.id, name := p.name, price := p.price, imageUrl := p.imageUrl,
    categoryId := p.categoryId }

inductive ShopError
  | catalog (e : CatalogError)
  | uniqueViolation
  deriving DecidableEq

/-- The catalog with its keys: no two categories share an id or a name, and ids
are drawn from sequences that start at one. -/
structure Shop extends Catalog where
  lastCategoryId : ℤ
  sequence : 0 ≤ lastId
  positive : ∀ id, id ≤ 0 → products id = none
  ids : (categories.map Category.id).Nodup
  names : (categories.map Category.name).Nodup
  drawnCategories : ∀ c ∈ categories, c.id ≤ lastCategoryId

/-- The category with the columns that the update names. -/
def Category.apply (c : Category) (dto : UpdateCategoryDto) : Category where
  id := c.id
  name := dto.name.required c.name
  color := dto.color.nullable c.color
  iconUrl := c.iconUrl

@[simp] lemma Category.apply_id (c : Category) (dto : UpdateCategoryDto) :
    (c.apply dto).id = c.id := rfl

namespace Shop
variable (w : Shop)

/-- The rows of the products in the order of their ids. -/
def rows : List StoredProduct :=
  (List.range w.lastId.toNat).filterMap fun n : ℕ =>
    (w.products (n + 1 : ℤ)).map fun row => { row with id := (n + 1 : ℤ) }

def productsOf (categoryId : ℤ) : List StoredProduct :=
  w.rows.filter (·.categoryId = categoryId)

variable {w} in
lemma mem_rows {p : StoredProduct} : p ∈ w.rows ↔ w.products p.id = some p.toProductRow := by
  unfold rows
  rw [List.mem_filterMap]
  constructor
  · rintro ⟨n, _, made⟩
    obtain ⟨row, stored, rfl⟩ := Option.map_eq_some_iff.mp made
    exact stored
  · intro stored
    have low : 0 < p.id := by
      by_contra negative
      rw [w.positive p.id (by omega)] at stored
      cases stored
    have high := w.drawn p.id _ stored
    have inside : (p.id - 1).toNat < w.lastId.toNat := by omega
    refine ⟨(p.id - 1).toNat, List.mem_range.mpr inside, ?_⟩
    have same : (((p.id - 1).toNat : ℕ) : ℤ) + 1 = p.id := by omega
    rw [same, stored]
    rfl

/-- Insert a category under the next id. -/
def insertCategory (name : String) (color : Option String)
    (free : ∀ c ∈ w.categories, c.name ≠ name) : Shop where
  categories := w.categories ++ [{ id := w.lastCategoryId + 1, name, color }]
  products := w.products
  lastId := w.lastId
  related id row stored := by
    obtain ⟨c, hc, same⟩ := w.related id row stored
    exact ⟨c, List.mem_append_left _ hc, same⟩
  drawn := w.drawn
  lastCategoryId := w.lastCategoryId + 1
  sequence := w.sequence
  positive := w.positive
  ids := by
    rw [List.map_append, List.nodup_append]
    refine ⟨w.ids, by simp, ?_⟩
    rintro _ hx _ hy rfl
    obtain ⟨c, hc, rfl⟩ := List.mem_map.mp hx
    have drawn := w.drawnCategories c hc
    simp only [List.map_cons, List.map_nil, List.mem_singleton] at hy
    omega
  names := by
    rw [List.map_append, List.nodup_append]
    refine ⟨w.names, by simp, ?_⟩
    rintro _ hx _ hy rfl
    obtain ⟨c, hc, rfl⟩ := List.mem_map.mp hx
    exact free c hc (by simpa using hy)
  drawnCategories c hc := by
    rcases List.mem_append.mp hc with old | new
    · have := w.drawnCategories c old
      omega
    · rw [List.mem_singleton.mp new]

/-- An insert that fails may have drawn its id. -/
def drawCategory (drew : Bool) : Shop where
  toCatalog := w.toCatalog
  lastCategoryId := if drew then w.lastCategoryId + 1 else w.lastCategoryId
  sequence := w.sequence
  positive := w.positive
  ids := w.ids
  names := w.names
  drawnCategories c hc := by
    have := w.drawnCategories c hc
    split <;> omega

/-- Update the category of an id, to a name that no other category has. -/
def updateCategory (id : ℤ) (dto : UpdateCategoryDto)
    (free : ∀ c ∈ w.categories, c.id = id → ∀ d ∈ w.categories, d.id ≠ id →
      d.name ≠ (c.apply dto).name) : Shop where
  categories := w.categories.map fun c => if c.id = id then c.apply dto else c
  products := w.products
  lastId := w.lastId
  related pid row stored := by
    obtain ⟨c, hc, same⟩ := w.related pid row stored
    refine ⟨_, List.mem_map_of_mem hc, ?_⟩
    split <;> exact same
  drawn := w.drawn
  lastCategoryId := w.lastCategoryId
  sequence := w.sequence
  positive := w.positive
  ids := by
    rw [List.map_map]
    refine (List.map_congr_left fun c _ => ?_).symm ▸ w.ids
    simp only [Function.comp_apply]
    split <;> rfl
  names := by
    have injective : ∀ c ∈ w.categories, ∀ d ∈ w.categories, c.id = d.id → c = d :=
      fun c hc d hd => List.inj_on_of_nodup_map w.ids hc hd
    have distinct : w.categories.Pairwise fun c d => c.name ≠ d.name :=
      List.pairwise_map.mp w.names
    have members := List.Pairwise.and_mem.mp distinct
    rw [List.map_map]
    refine List.pairwise_map.mpr (members.imp ?_)
    rintro c d ⟨hc, hd, differ⟩
    simp only [Function.comp_apply]
    split <;> split
    · rename_i first second
      exact absurd (congrArg Category.name (injective c hc d hd (first.trans second.symm))) differ
    · rename_i first second
      exact (free c hc first d hd second).symm
    · rename_i first second
      exact free d hd second c hc first
    · exact differ
  drawnCategories c hc := by
    obtain ⟨d, hd, rfl⟩ := List.mem_map.mp hc
    have := w.drawnCategories d hd
    split <;> exact this

/-- Delete a category that has no products. -/
def deleteCategory (id : ℤ) (unused : w.productsOf id = []) : Shop where
  categories := w.categories.filter (·.id ≠ id)
  products := w.products
  lastId := w.lastId
  related pid row stored := by
    obtain ⟨c, hc, same⟩ := w.related pid row stored
    refine ⟨c, List.mem_filter.mpr ⟨hc, ?_⟩, same⟩
    rw [decide_eq_true_eq]
    rintro rfl
    have mem : ({ row with id := pid } : StoredProduct) ∈ w.productsOf c.id :=
      List.mem_filter.mpr ⟨mem_rows.mpr stored, by simp [same]⟩
    rw [unused] at mem
    exact absurd mem List.not_mem_nil
  drawn := w.drawn
  lastCategoryId := w.lastCategoryId
  sequence := w.sequence
  positive := w.positive
  ids := w.ids.sublist (List.filter_sublist.map _)
  names := w.names.sublist (List.filter_sublist.map _)
  drawnCategories c hc := w.drawnCategories c (List.mem_filter.mp hc).1

end Shop

/-- What a call on the products leaves alone. -/
structure Catalog.Kept (w w' : Catalog) : Prop where
  categories : w'.categories = w.categories
  lastId : w.lastId ≤ w'.lastId
  positive : 0 ≤ w.lastId → (∀ id, id ≤ 0 → w.products id = none) →
    ∀ id, id ≤ 0 → w'.products id = none

section Kept
variable {w : Catalog} {id : ℤ}

lemma Catalog.Kept.refl (w : Catalog) : w.Kept w := ⟨rfl, le_rfl, fun _ empty => empty⟩

lemma Catalog.kept_draw (drew : Bool) : w.Kept (w.draw drew) := by
  refine ⟨rfl, ?_, fun _ empty => empty⟩
  dsimp only [Catalog.draw]
  split <;> omega

lemma Catalog.kept_write {row : ProductRow} {known : ∃ c ∈ w.categories, c.id = row.categoryId}
    (low : 0 ≤ w.lastId → (∀ id, id ≤ 0 → w.products id = none) → 0 < id) :
    w.Kept (w.write id row known) := by
  refine ⟨rfl, le_max_left _ _, fun sequence empty other below => ?_⟩
  have above := low sequence empty
  exact (Function.update_of_ne (by omega) _ _).trans (empty other below)

lemma Catalog.kept_erase : w.Kept (w.erase id) := by
  refine ⟨rfl, le_rfl, fun _ empty other below => ?_⟩
  by_cases here : other = id
  · subst here
    exact Function.update_self _ _ _
  · exact (Function.update_of_ne here _ _).trans (empty other below)

lemma Catalog.exec_kept {ch : Catalog.Choice} {op : CatalogOp} {r : op.Res} {w' : Catalog}
    (answered : Catalog.exec ch op w = some (r, w')) : w.Kept w' := by
  cases op with
  | productFindUnique id =>
    have made : w.productFindUnique ch id = (r, w') := Option.some.inj answered
    rcases productFindUnique_cases (w := w) ch id with ⟨e, _, same⟩ | same
    · obtain ⟨_, rfl⟩ := Prod.mk.inj (made.symm.trans same)
      exact .refl w'
    · obtain ⟨_, rfl⟩ := Prod.mk.inj (made.symm.trans same)
      exact .refl w'
  | productCreate data =>
    have made : w.productCreate ch data = (r, w') := Option.some.inj answered
    rcases productCreate_cases (w := w) ch data with ⟨e, same⟩ | ⟨c, known, same⟩
    · obtain ⟨_, rfl⟩ := Prod.mk.inj (made.symm.trans same)
      exact kept_draw _
    · obtain ⟨_, rfl⟩ := Prod.mk.inj (made.symm.trans same)
      exact kept_write fun sequence _ => by omega
  | productUpdate id data =>
    have made : w.productUpdate ch id data = (r, w') := Option.some.inj answered
    rcases productUpdate_cases (w := w) ch id data with ⟨e, same⟩ | ⟨row, c, known, stored, same⟩
    · obtain ⟨_, rfl⟩ := Prod.mk.inj (made.symm.trans same)
      exact .refl w'
    · obtain ⟨_, rfl⟩ := Prod.mk.inj (made.symm.trans same)
      refine kept_write fun _ empty => ?_
      by_contra below
      rw [empty id (by omega)] at stored
      cases stored
  | productDelete id =>
    have made : w.productDelete ch id = (r, w') := Option.some.inj answered
    rcases productDelete_cases (w := w) ch id with ⟨e, same⟩ | ⟨row, _, same⟩
    · obtain ⟨_, rfl⟩ := Prod.mk.inj (made.symm.trans same)
      exact .refl w'
    · obtain ⟨_, rfl⟩ := Prod.mk.inj (made.symm.trans same)
      exact kept_erase

end Kept

/-! ## Calls -/

/-- Beside the choices for products, the order in which rows come. -/
structure Shop.Choice extends Catalog.Choice where
  categoryOrder : List ℤ := []
  productOrder : List ℤ := []

/-- Rows in the order of a list of their keys. -/
def arranged {α : Type} (key : α → ℤ) (order : List ℤ) (rows : List α) : List α :=
  rows.insertionSort fun a b => order.idxOf (key a) ≤ order.idxOf (key b)

namespace Shop
variable (w : Shop)

def withCatalog (w' : Catalog) (kept : w.toCatalog.Kept w') : Shop where
  toCatalog := w'
  lastCategoryId := w.lastCategoryId
  sequence := w.sequence.trans kept.lastId
  positive := kept.positive w.sequence w.positive
  ids := kept.categories ▸ w.ids
  names := kept.categories ▸ w.names
  drawnCategories := kept.categories ▸ w.drawnCategories

def withProducts (ch : Choice) (c : Category) : CategoryWithProducts :=
  { c with products := arranged StoredProduct.id ch.productOrder (w.productsOf c.id) }

def categoryFindMany (ch : Choice) : Except ShopError (List CategoryWithProducts) :=
  match ch.fails with
  | some e => .error (.catalog e)
  | none => .ok ((arranged Category.id ch.categoryOrder w.categories).map (w.withProducts ch))

def findCategory (id : ℤ) : Option Category := w.categories.find? (·.id = id)

def categoryFindUnique (ch : Choice) (id : ℤ) : Except ShopError (Option CategoryWithProducts) :=
  match ch.fails with
  | some e => .error (.catalog e)
  | none => .ok ((w.findCategory id).map (w.withProducts ch))

def categoryCreate (ch : Choice) (name : String) (color : Option String) :
    Except ShopError Category × Shop :=
  match ch.fails with
  | some e => (.error (.catalog e), w.drawCategory ch.drew)
  | none =>
    if free : ∀ c ∈ w.categories, c.name ≠ name then
      (.ok { id := w.lastCategoryId + 1, name, color }, w.insertCategory name color free)
    else (.error .uniqueViolation, w.drawCategory ch.drew)

/-- A null name is refused before the query is sent. -/
def categoryUpdate (ch : Choice) (id : ℤ) (dto : UpdateCategoryDto) :
    Except ShopError Category × Shop :=
  if dto.name = .null then (.error (.catalog .nullValue), w)
  else
    match ch.fails, w.findCategory id with
    | some e, _ => (.error (.catalog e), w)
    | none, none => (.error (.catalog .recordNotFound), w)
    | none, some c =>
      if free : ∀ c ∈ w.categories, c.id = id → ∀ d ∈ w.categories, d.id ≠ id →
          d.name ≠ (c.apply dto).name then
        (.ok (c.apply dto), w.updateCategory id dto free)
      else (.error .uniqueViolation, w)

def categoryDelete (ch : Choice) (id : ℤ) : Except ShopError Category × Shop :=
  match ch.fails, w.findCategory id with
  | some e, _ => (.error (.catalog e), w)
  | none, none => (.error (.catalog .recordNotFound), w)
  | none, some c =>
    if unused : w.productsOf id = [] then (.ok c, w.deleteCategory id unused)
    else (.error (.catalog .foreignKeyViolation), w)

def productFindMany (ch : Choice) : Except ShopError (List ProductSummary) :=
  match ch.fails with
  | some e => .error (.catalog e)
  | none => .ok ((arranged StoredProduct.id ch.productOrder w.rows).map StoredProduct.summary)

section Cases
variable {w : Shop} (ch : Choice)

lemma categoryCreate_cases (name : String) (color : Option String) :
    (∃ e, w.categoryCreate ch name color = (.error e, w.drawCategory ch.drew)) ∨
      ∃ free, w.categoryCreate ch name color =
        (.ok { id := w.lastCategoryId + 1, name, color }, w.insertCategory name color free) := by
  unfold categoryCreate
  split
  · exact .inl ⟨_, rfl⟩
  · split
    · rename_i free
      exact .inr ⟨free, rfl⟩
    · exact .inl ⟨_, rfl⟩

lemma categoryUpdate_cases (id : ℤ) (dto : UpdateCategoryDto) :
    (∃ e, w.categoryUpdate ch id dto = (.error e, w)) ∨
      ∃ c free, w.findCategory id = some c ∧
        w.categoryUpdate ch id dto = (.ok (c.apply dto), w.updateCategory id dto free) := by
  unfold categoryUpdate
  split
  · exact .inl ⟨_, rfl⟩
  · split
    · exact .inl ⟨_, rfl⟩
    · exact .inl ⟨_, rfl⟩
    · rename_i c _ stored
      split
      · rename_i free
        exact .inr ⟨c, free, stored, rfl⟩
      · exact .inl ⟨_, rfl⟩

lemma categoryDelete_cases (id : ℤ) :
    (∃ e, w.categoryDelete ch id = (.error e, w)) ∨
      ∃ c unused, w.findCategory id = some c ∧
        w.categoryDelete ch id = (.ok c, w.deleteCategory id unused) := by
  unfold categoryDelete
  split
  · exact .inl ⟨_, rfl⟩
  · exact .inl ⟨_, rfl⟩
  · rename_i c _ stored
    split
    · rename_i unused
      exact .inr ⟨c, unused, stored, rfl⟩
    · exact .inl ⟨_, rfl⟩

/-- Without its row an update fails, and so does a deletion. -/
lemma categoryUpdate_missing {id : ℤ} (missing : w.findCategory id = none)
    (dto : UpdateCategoryDto) : w.categoryUpdate ch id dto = (.error (.catalog .nullValue), w) ∨
      w.categoryUpdate ch id dto = (.error (.catalog (ch.fails.getD .recordNotFound)), w) := by
  unfold categoryUpdate
  rw [missing]
  split
  · exact .inl rfl
  · cases ch.fails with
    | none => exact .inr rfl
    | some e => exact .inr rfl

lemma categoryDelete_missing {id : ℤ} (missing : w.findCategory id = none) :
    w.categoryDelete ch id = (.error (.catalog (ch.fails.getD .recordNotFound)), w) := by
  unfold categoryDelete
  rw [missing]
  cases ch.fails with
  | none => rfl
  | some e => rfl

end Cases

end Shop

inductive ShopOp where
  | categoryFindMany
  | categoryFindUnique (id : ℤ)
  | categoryCreate (name : String) (color : Option String)
  | categoryUpdate (id : ℤ) (dto : UpdateCategoryDto)
  | categoryDelete (id : ℤ)
  | productFindMany
  | product (op : CatalogOp)

@[reducible] def ShopOp.Res : ShopOp → Type
  | .categoryFindMany => Except ShopError (List CategoryWithProducts)
  | .categoryFindUnique _ => Except ShopError (Option CategoryWithProducts)
  | .categoryCreate _ _ | .categoryUpdate _ _ | .categoryDelete _ => Except ShopError Category
  | .productFindMany => Except ShopError (List ProductSummary)
  | .product op => op.Res

def Shop.exec (ch : Shop.Choice) : (op : ShopOp) → Shop → Option (op.Res × Shop)
  | .categoryFindMany, w => some (w.categoryFindMany ch, w)
  | .categoryFindUnique id, w => some (w.categoryFindUnique ch id, w)
  | .categoryCreate name color, w => some (w.categoryCreate ch name color)
  | .categoryUpdate id dto, w => some (w.categoryUpdate ch id dto)
  | .categoryDelete id, w => some (w.categoryDelete ch id)
  | .productFindMany, w => some (w.productFindMany ch, w)
  | .product op, w =>
    match answered : Catalog.exec ch.toChoice op w.toCatalog with
    | none => none
    | some (r, w') => some (r, w.withCatalog w' (Catalog.exec_kept answered))

/-! ## The services -/

inductive ShopFailure
  | notFound (message : String)
  | database (e : ShopError)
  deriving DecidableEq

abbrev ShopTask (α : Type) := Prog ShopOp ShopOp.Res ShopFailure α

namespace CategoryService

def awaited {α : Type} : Except ShopError α → ShopTask α
  | .ok a => .ret a
  | .error e => .throw (.database e)

def notFound (id : ℤ) : ShopFailure :=
  .notFound ("Categoría con id " ++ toString id ++ " no encontrada")

def findAll : ShopTask (List CategoryWithProducts) := do
  awaited (← Prog.perform .categoryFindMany)

def findOne (id : ℤ) : ShopTask CategoryWithProducts := do
  let category ← awaited (← Prog.perform (.categoryFindUnique id))
  match category with
  | none => .throw (notFound id)
  | some category => return category

def create (dto : CreateCategoryDto) : ShopTask Category := do
  awaited (← Prog.perform (.categoryCreate dto.name dto.color))

def update (id : ℤ) (dto : UpdateCategoryDto) : ShopTask Category := do
  let _ ← findOne id
  awaited (← Prog.perform (.categoryUpdate id dto))

def remove (id : ℤ) : ShopTask Category := do
  let _ ← findOne id
  awaited (← Prog.perform (.categoryDelete id))

end CategoryService

namespace ProductsService

def findAll : ShopTask (List ProductSummary) := do
  CategoryService.awaited (← Prog.perform .productFindMany)

end ProductsService

/-- The calls on products as calls on the shop. -/
def productCalls : Embedding CatalogOp CatalogOp.Res ShopOp ShopOp.Res where
  op := .product
  answer _ r := r
  answered _ r := r
  answer_answered _ _ := rfl

def ShopFailure.ofProduct : ProductError → ShopFailure
  | .notFound message => .notFound message
  | .database e => .database (.catalog e)

end BajaValle
