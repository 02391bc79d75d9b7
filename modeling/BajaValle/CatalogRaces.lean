import BajaValle.Categories
import BajaValle.Lib.Linearization

/-!
# Simultaneous catalog requests

Every request for the catalog reads at most once and then makes the one call
that decides it. So whatever the interleaving, the answers are those of the
requests served one after another in the order of their last calls, except that
a request whose row is deleted between its read and its write answers with an error
of the write, that the row is missing or that a column takes no null, and not with
its own; either way it changes nothing.
-/

namespace BajaValle

open CallPrograms Prog Interleaving

inductive ShopRequest where
  | findCategories
  | findCategory (id : ℤ)
  | createCategory (dto : CreateCategoryDto)
  | updateCategory (id : ℤ) (dto : UpdateCategoryDto)
  | removeCategory (id : ℤ)
  | findProducts
  | findProduct (id : ℤ)
  | createProduct (dto : CreateProductDto)
  | updateProduct (id : ℤ) (dto : UpdateProductDto)
  | removeProduct (id : ℤ)

inductive ShopAnswer where
  | categories (rows : List CategoryWithProducts)
  | category (row : CategoryWithProducts)
  | categoryRow (row : Category)
  | products (rows : List ProductSummary)
  | product (row : Product)
  | productRow (row : StoredProduct)
  deriving DecidableEq

def ofProducts {α : Type} (p : CatalogTask α) : ShopTask α := p.embed productCalls .ofProduct

/-- The handlers of both controllers. -/
def ShopRequest.run : ShopRequest → ShopTask ShopAnswer
  | .findCategories => .categories <$> CategoryService.findAll
  | .findCategory id => .category <$> CategoryService.findOne id
  | .createCategory dto => .categoryRow <$> CategoryService.create dto
  | .updateCategory id dto => .categoryRow <$> CategoryService.update id dto
  | .removeCategory id => .categoryRow <$> CategoryService.remove id
  | .findProducts => .products <$> ProductsService.findAll
  | .findProduct id => .product <$> ofProducts (ProductsService.findOne id)
  | .createProduct dto => .product <$> ofProducts (ProductsService.create dto)
  | .updateProduct id dto => .product <$> ofProducts (ProductsService.update id dto)
  | .removeProduct id => .productRow <$> ofProducts (ProductsService.remove id)

abbrev ShopConfig :=
  Config Nat Shop Shop.Choice ShopOp ShopOp.Res ShopFailure ShopAnswer

def openShop (reqs : Nat → ShopRequest) (w : Shop) : ShopConfig := start w fun i => (reqs i).run

/-- The states that the catalog's requests can reach. -/
abbrev ShopReachable (reqs : Nat → ShopRequest) (w : Shop) (c : ShopConfig) : Prop :=
  Leads Shop.exec (openShop reqs w) c

/-- The outcomes are the same, or the write fails, for its missing row or for a null,
where alone the service would have missed the row. -/
def AgreesButLost (out alone : Except ShopFailure ShopAnswer) : Prop :=
  out = alone ∨ ((out = .error (.database (.catalog .recordNotFound)) ∨
    out = .error (.database (.catalog .nullValue))) ∧ ∃ message, alone = .error (.notFound message))

section Atomic
variable {p : ShopTask ShopAnswer} {out : Except ShopFailure ShopAnswer}

lemma outcome_ne_none (ended : p.outcome = some out) : p.outcome ≠ none := by
  rw [ended]
  exact Option.some_ne_none _

/-- A program of one call is atomic. -/
lemma endsAtomically_single {op : ShopOp} {next : op.Res → ShopTask ShopAnswer}
    (ends : ∀ r, ∃ out, (next r).outcome = some out) :
    EndsAtomically Shop.exec AgreesButLost (.call op next) (.call op next) := by
  refine ⟨fun ch w r w' answered => ⟨fun running => ?_, fun out ended => ?_⟩, fun r => ?_⟩
  · obtain ⟨out, ended⟩ := ends r
    exact absurd running (outcome_ne_none ended)
  · exact ⟨_, out, ⟨next r, .call trivial answered (.stop _ _ _), ended⟩, .inl rfl⟩
  · obtain ⟨out, ended⟩ := ends r
    exact endsAtomically_of_ended ended

/-- At this world the read alone answers so. -/
def ReadsAs (ch : Shop.Choice) (w : Shop) {read : ShopOp} (next : read.Res → ShopTask ShopAnswer)
    (p : ShopTask ShopAnswer) : Prop :=
  ∃ r, Shop.exec ch read w = some (r, w) ∧ next r = p

/-- Where the write finds no row, it changes nothing, and it fails because the
database does or because the row is missing. -/
def MissesRow (ch : Shop.Choice) (w : Shop) {read : ShopOp} (next : read.Res → ShopTask ShopAnswer)
    (w' : Shop) (p : ShopTask ShopAnswer) : Prop :=
  w' = w ∧ (p = .throw (.database (.catalog .recordNotFound)) ∨
    p = .throw (.database (.catalog .nullValue)) ∨
    ∃ e, p = .throw (.database (.catalog e)) ∧ ReadsAs ch w next (.throw (.database (.catalog e))))

/-- A read followed by a write is atomic if, wherever the write is made, the
read lets it happen or both miss the row. -/
lemma endsAtomically_pair {read write : ShopOp} {next : read.Res → ShopTask ShopAnswer}
    {rest : write.Res → ShopTask ShopAnswer}
    (reads : ∀ ch w r w', Shop.exec ch read w = some (r, w') → w' = w)
    (step : ∀ r, (∃ out, (next r).outcome = some out) ∨ next r = .call write rest)
    (ends : ∀ r, ∃ out, (rest r).outcome = some out)
    (found : ∀ w, ReadsAs {} w next (.call write rest) ∨ ∃ message,
      ReadsAs {} w next (.throw (.notFound message)) ∧ ∀ ch r w',
        Shop.exec ch write w = some (r, w') → MissesRow ch w next w' (rest r)) :
    EndsAtomically Shop.exec AgreesButLost (.call read next) (.call read next) := by
  have again : ∀ ch w r w' out, Shop.exec ch write w = some (r, w') →
      (rest r).outcome = some out → ∃ h alone, Finishes Shop.exec (fun _ => True)
        (.call read next) w h alone w' ∧ AgreesButLost out alone := by
    intro ch w r w' out answered ended
    have fails : ∀ {ch e}, ReadsAs ch w next (.throw e) → ∃ h, Finishes Shop.exec (fun _ => True)
        (.call read next) w h (.error e) w := by
      rintro ch e ⟨r₁, first, refused⟩
      refine ⟨_, next r₁, .call trivial first (.stop _ _ _), ?_⟩
      rw [refused]
      rfl
    rcases found w with ⟨r₁, first, goes⟩ | ⟨message, missing, misses⟩
    · have second : Runs Shop.exec (fun _ => True) (next r₁) [⟨read, r₁⟩] w (rest r)
          [⟨write, r⟩, ⟨read, r₁⟩] w' := by
        rw [goes]
        exact .call trivial answered (.stop _ _ _)
      exact ⟨_, out, ⟨rest r, .call trivial first second, ended⟩, .inl rfl⟩
    · obtain ⟨rfl, lost | lost | ⟨e, failed, readFails⟩⟩ := misses ch r w' answered
      · rw [lost] at ended
        obtain rfl := Option.some.inj ended
        obtain ⟨h, run⟩ := fails missing
        exact ⟨h, _, run, .inr ⟨.inl rfl, message, rfl⟩⟩
      · rw [lost] at ended
        obtain rfl := Option.some.inj ended
        obtain ⟨h, run⟩ := fails missing
        exact ⟨h, _, run, .inr ⟨.inr rfl, message, rfl⟩⟩
      · rw [failed] at ended
        obtain rfl := Option.some.inj ended
        obtain ⟨h, run⟩ := fails readFails
        exact ⟨h, _, run, .inl rfl⟩
  refine ⟨fun ch w r w' answered => ⟨fun _ => reads ch w r w' answered, fun out ended => ?_⟩,
    fun r => ?_⟩
  · exact ⟨_, out, ⟨next r, .call trivial answered (.stop _ _ _), ended⟩, .inl rfl⟩
  · rcases step r with ⟨out, ended⟩ | continues
    · exact endsAtomically_of_ended ended
    · rw [continues]
      refine ⟨fun ch w r₂ w' answered => ⟨fun running => ?_, fun out ended =>
        again ch w r₂ w' out answered ended⟩, fun r₂ => ?_⟩
      · obtain ⟨out, ended⟩ := ends r₂
        exact absurd running (outcome_ne_none ended)
      · obtain ⟨out, ended⟩ := ends r₂
        exact endsAtomically_of_ended ended

end Atomic

/-! ## The requests call by call -/

/-- What a request does with the answer of its last call. -/
def ending {α β : Type} (failure : α → ShopError) (answer : β → ShopAnswer) :
    Except α β → ShopTask ShopAnswer
  | .ok b => .ret (answer b)
  | .error e => .throw (.database (failure e))

/-- What a request does with the answer of its read. -/
def finding {α β : Type} (failure : α → ShopError) (missing : ShopFailure)
    (found : β → ShopTask ShopAnswer) : Except α (Option β) → ShopTask ShopAnswer
  | .ok (some b) => found b
  | .ok none => .throw missing
  | .error e => .throw (.database (failure e))

/-- The columns that a creation writes, none of them the image. -/
def CreateProductDto.data (dto : CreateProductDto) : ProductData where
  name := dto.name
  description := dto.description
  features := dto.features
  specifications := dto.specifications
  price := dto.price
  categoryId := dto.categoryId

section Shapes
variable (id : ℤ)

lemma ending_ends {α β : Type} {failure : α → ShopError} {answer : β → ShopAnswer}
    (r : Except α β) : ∃ out, (ending failure answer r).outcome = some out := by
  cases r <;> exact ⟨_, rfl⟩

lemma finding_ends {α β : Type} {failure : α → ShopError} {missing : ShopFailure}
    {answer : β → ShopAnswer} (r : Except α (Option β)) :
    ∃ out, (finding failure missing (fun b => .ret (answer b)) r).outcome = some out := by
  rcases r with e | _ | b <;> exact ⟨_, rfl⟩

lemma finding_steps {α β : Type} {failure : α → ShopError} {missing : ShopFailure}
    {p : ShopTask ShopAnswer} (r : Except α (Option β)) :
    (∃ out, (finding failure missing (fun _ => p) r).outcome = some out) ∨
      finding failure missing (fun _ => p) r = p := by
  rcases r with e | _ | b
  · exact .inl ⟨_, rfl⟩
  · exact .inl ⟨_, rfl⟩
  · exact .inr rfl

lemma run_findCategory : (ShopRequest.findCategory id).run =
    .call (.categoryFindUnique id) (finding (fun e => e) (CategoryService.notFound id)
      fun c => .ret (.category c)) :=
  congrArg (Prog.call _) (funext fun r => by rcases r with e | _ | c <;> rfl)

lemma run_createCategory (dto : CreateCategoryDto) : (ShopRequest.createCategory dto).run =
    .call (.categoryCreate dto.name dto.color) (ending (fun e => e) .categoryRow) :=
  congrArg (Prog.call _) (funext fun r => by cases r <;> rfl)

lemma run_createProduct (dto : CreateProductDto) : (ShopRequest.createProduct dto).run =
    .call (.product (.productCreate dto.data)) (ending .catalog .product) :=
  congrArg (Prog.call _) (funext fun r => by cases r <;> rfl)

lemma run_updateCategory (dto : UpdateCategoryDto) : (ShopRequest.updateCategory id dto).run =
    .call (.categoryFindUnique id) (finding (fun e => e) (CategoryService.notFound id) fun _ =>
      .call (.categoryUpdate id dto) (ending (fun e => e) .categoryRow)) := by
  refine congrArg (Prog.call _) (funext fun r => ?_)
  rcases r with e | _ | c
  · rfl
  · rfl
  · exact congrArg (Prog.call _) (funext fun r => by cases r <;> rfl)

lemma run_removeCategory : (ShopRequest.removeCategory id).run =
    .call (.categoryFindUnique id) (finding (fun e => e) (CategoryService.notFound id) fun _ =>
      .call (.categoryDelete id) (ending (fun e => e) .categoryRow)) := by
  refine congrArg (Prog.call _) (funext fun r => ?_)
  rcases r with e | _ | c
  · rfl
  · rfl
  · exact congrArg (Prog.call _) (funext fun r => by cases r <;> rfl)

lemma run_findProduct : (ShopRequest.findProduct id).run =
    .call (.product (.productFindUnique id)) (finding .catalog
      (.ofProduct (ProductsService.notFound id)) fun p => .ret (.product p)) :=
  congrArg (Prog.call _) (funext fun r => by rcases r with e | _ | c <;> rfl)

lemma run_updateProduct (dto : UpdateProductDto) : (ShopRequest.updateProduct id dto).run =
    .call (.product (.productFindUnique id)) (finding .catalog
      (.ofProduct (ProductsService.notFound id)) fun _ =>
        .call (.product (.productUpdate id dto)) (ending .catalog .product)) := by
  refine congrArg (Prog.call _) (funext fun r => ?_)
  rcases r with e | _ | c
  · rfl
  · rfl
  · exact congrArg (Prog.call _) (funext fun r => by cases r <;> rfl)

lemma run_removeProduct : (ShopRequest.removeProduct id).run =
    .call (.product (.productFindUnique id)) (finding .catalog
      (.ofProduct (ProductsService.notFound id)) fun _ =>
        .call (.product (.productDelete id)) (ending .catalog .productRow)) := by
  refine congrArg (Prog.call _) (funext fun r => ?_)
  rcases r with e | _ | c
  · rfl
  · rfl
  · exact congrArg (Prog.call _) (funext fun r => by cases r <;> rfl)

end Shapes

section Calls
variable {ch : Shop.Choice} {w w' : Shop} {id : ℤ}

lemma exec_categoryFindUnique {r : Except ShopError (Option CategoryWithProducts)}
    (answered : Shop.exec ch (.categoryFindUnique id) w = some (r, w')) :
    w' = w ∧ r = w.categoryFindUnique ch id := by
  obtain ⟨rfl, rfl⟩ := Prod.mk.inj (Option.some.inj answered)
  exact ⟨rfl, rfl⟩

/-- A call on the products is the call on the catalog inside. -/
lemma exec_product {op : CatalogOp} {r : op.Res} :
    Shop.exec ch (.product op) w = some (r, w') ↔
      ∃ v kept, Catalog.exec ch.toChoice op w.toCatalog = some (r, v) ∧
        w' = w.withCatalog v kept := by
  simp only [Shop.exec]
  constructor
  · intro answered
    split at answered
    · cases answered
    · rename_i r' v inside
      obtain ⟨rfl, rfl⟩ := Prod.mk.inj (Option.some.inj answered)
      exact ⟨v, Catalog.exec_kept inside, inside, rfl⟩
  · rintro ⟨v, kept, inside, rfl⟩
    split
    · rename_i none_
      rw [inside] at none_
      cases none_
    · rename_i r' v' inside'
      obtain ⟨rfl, rfl⟩ := Prod.mk.inj (Option.some.inj (inside.symm.trans inside'))
      rfl

lemma exec_productFindUnique {r : Except CatalogError (Option Product)}
    (answered : Shop.exec ch (.product (.productFindUnique id)) w = some (r, w')) : w' = w := by
  obtain ⟨v, kept, inside, rfl⟩ := exec_product.mp answered
  have made : w.productFindUnique ch.toChoice id = (r, v) := Option.some.inj inside
  rcases Catalog.productFindUnique_cases (w := w.toCatalog) ch.toChoice id with ⟨e, _, same⟩ | same
  · obtain ⟨_, rfl⟩ := Prod.mk.inj (made.symm.trans same)
    rfl
  · obtain ⟨_, rfl⟩ := Prod.mk.inj (made.symm.trans same)
    rfl

/-- A product is read exactly when its row is stored. -/
lemma product_eq_none {w : Catalog} : w.product id = none ↔ w.products id = none := by
  unfold Catalog.product
  cases stored : w.products id with
  | none => simp
  | some row =>
    obtain ⟨c, hc, same⟩ := w.related id row stored
    have found : (w.categoryOf row).isSome := by
      rw [Catalog.categoryOf, List.find?_isSome]
      exact ⟨c, hc, by simpa using same⟩
    simp [Option.isSome_iff_ne_none.mp found]

end Calls

/-- Where the row is missing the write changes nothing and fails, for that reason
or because the database does. -/
def FailsWithout (absent : Shop → Prop) (write : ShopOp)
    (rest : write.Res → ShopTask ShopAnswer) : Prop :=
  ∀ ch w r w', absent w → Shop.exec ch write w = some (r, w') → w' = w ∧
    (rest r = .throw (.database (.catalog .recordNotFound)) ∨
      rest r = .throw (.database (.catalog .nullValue)) ∨
      ∃ e, ch.fails = some e ∧ rest r = .throw (.database (.catalog e)))

section Pairs
variable {id : ℤ} {write : ShopOp} {rest : write.Res → ShopTask ShopAnswer}

lemma endsAtomically_category (ends : ∀ r, ∃ out, (rest r).outcome = some out)
    (fails : FailsWithout (fun w => w.findCategory id = none) write rest) :
    EndsAtomically Shop.exec AgreesButLost
      (.call (.categoryFindUnique id) (finding (fun e => e) (CategoryService.notFound id)
        fun _ => .call write rest))
      (.call (.categoryFindUnique id) (finding (fun e => e) (CategoryService.notFound id)
        fun _ => .call write rest)) := by
  refine endsAtomically_pair (fun ch w r w' answered => (exec_categoryFindUnique answered).1)
    finding_steps ends fun w => ?_
  cases stored : w.findCategory id with
  | some c =>
    refine .inl ⟨.ok (some (w.withProducts {} c)), ?_, rfl⟩
    simp [Shop.exec, Shop.categoryFindUnique, stored]
  | none =>
    refine .inr ⟨_, ⟨.ok none, ?_, rfl⟩, fun ch r w' answered => ?_⟩
    · simp [Shop.exec, Shop.categoryFindUnique, stored]
    · obtain ⟨same, lost | lost | ⟨e, failed, lost⟩⟩ := fails ch w r w' stored answered
      · exact ⟨same, .inl lost⟩
      · exact ⟨same, .inr (.inl lost)⟩
      · refine ⟨same, .inr (.inr ⟨e, lost, .error (.catalog e), ?_, rfl⟩)⟩
        simp [Shop.exec, Shop.categoryFindUnique, failed]

lemma endsAtomically_product (ends : ∀ r, ∃ out, (rest r).outcome = some out)
    (fails : FailsWithout (fun w => w.products id = none) write rest) :
    EndsAtomically Shop.exec AgreesButLost
      (.call (.product (.productFindUnique id)) (finding .catalog
        (.ofProduct (ProductsService.notFound id)) fun _ => .call write rest))
      (.call (.product (.productFindUnique id)) (finding .catalog
        (.ofProduct (ProductsService.notFound id)) fun _ => .call write rest)) := by
  have reads : ∀ (ch : Shop.Choice) (w : Shop) r, w.productFindUnique ch.toChoice id =
      (r, w.toCatalog) → Shop.exec ch (.product (.productFindUnique id)) w = some (r, w) :=
    fun ch w r answer => exec_product.mpr ⟨w.toCatalog, .refl _, congrArg some answer, rfl⟩
  refine endsAtomically_pair (fun ch w r w' => exec_productFindUnique) finding_steps ends
    fun w => ?_
  cases stored : w.products id with
  | some row =>
    obtain ⟨p, found⟩ := Option.ne_none_iff_exists'.mp fun absent : w.product id = none => by
      rw [product_eq_none.mp absent] at stored
      cases stored
    refine .inl ⟨.ok (some p), reads _ _ _ ?_, rfl⟩
    simp [Catalog.productFindUnique, found]
  | none =>
    have absent : w.product id = none := product_eq_none.mpr stored
    refine .inr ⟨_, ⟨.ok none, reads _ _ _ ?_, rfl⟩, fun ch r w' answered => ?_⟩
    · simp [Catalog.productFindUnique, absent]
    · obtain ⟨same, lost | lost | ⟨e, failed, lost⟩⟩ := fails ch w r w' stored answered
      · exact ⟨same, .inl lost⟩
      · exact ⟨same, .inr (.inl lost)⟩
      · refine ⟨same, .inr (.inr ⟨e, lost, .error e, reads _ _ _ ?_, rfl⟩)⟩
        simp [Catalog.productFindUnique, failed]

lemma missing_fails {ch : Shop.Choice} {p : ShopTask ShopAnswer}
    (failed : p = .throw (.database (.catalog (ch.fails.getD .recordNotFound)))) :
    p = .throw (.database (.catalog .recordNotFound)) ∨
      p = .throw (.database (.catalog .nullValue)) ∨
      ∃ e, ch.fails = some e ∧ p = .throw (.database (.catalog e)) := by
  cases fails : ch.fails with
  | none =>
    rw [fails] at failed
    exact .inl failed
  | some e =>
    rw [fails] at failed
    exact .inr (.inr ⟨e, rfl, failed⟩)

lemma categoryUpdate_fails (id : ℤ) (dto : UpdateCategoryDto) :
    FailsWithout (fun w => w.findCategory id = none) (.categoryUpdate id dto)
      (ending (fun e => e) .categoryRow) := by
  intro ch w r w' absent answered
  have made : w.categoryUpdate ch id dto = (r, w') := Option.some.inj answered
  rcases Shop.categoryUpdate_missing ch absent dto with same | same
  · obtain ⟨rfl, rfl⟩ := Prod.mk.inj (made.symm.trans same)
    exact ⟨rfl, .inr (.inl rfl)⟩
  · obtain ⟨rfl, rfl⟩ := Prod.mk.inj (made.symm.trans same)
    exact ⟨rfl, missing_fails rfl⟩

lemma categoryDelete_fails (id : ℤ) :
    FailsWithout (fun w => w.findCategory id = none) (.categoryDelete id)
      (ending (fun e => e) .categoryRow) := by
  intro ch w r w' absent answered
  have made : w.categoryDelete ch id = (r, w') := Option.some.inj answered
  obtain ⟨rfl, rfl⟩ := Prod.mk.inj (made.symm.trans (Shop.categoryDelete_missing ch absent))
  exact ⟨rfl, missing_fails rfl⟩

lemma productUpdate_fails (id : ℤ) (dto : UpdateProductDto) :
    FailsWithout (fun w => w.products id = none) (.product (.productUpdate id dto))
      (ending .catalog .product) := by
  intro ch w r w' absent answered
  obtain ⟨v, kept, inside, rfl⟩ := exec_product.mp answered
  have made : w.productUpdate ch.toChoice id dto = (r, v) := Option.some.inj inside
  rcases Catalog.productUpdate_missing ch.toChoice absent dto with same | same
  · obtain ⟨rfl, rfl⟩ := Prod.mk.inj (made.symm.trans same)
    exact ⟨rfl, .inr (.inl rfl)⟩
  · obtain ⟨rfl, rfl⟩ := Prod.mk.inj (made.symm.trans same)
    exact ⟨rfl, missing_fails rfl⟩

lemma productDelete_fails (id : ℤ) :
    FailsWithout (fun w => w.products id = none) (.product (.productDelete id))
      (ending .catalog .productRow) := by
  intro ch w r w' absent answered
  obtain ⟨v, kept, inside, rfl⟩ := exec_product.mp answered
  have made : w.productDelete ch.toChoice id = (r, v) := Option.some.inj inside
  obtain ⟨rfl, rfl⟩ := Prod.mk.inj
    (made.symm.trans (Catalog.productDelete_missing ch.toChoice absent))
  exact ⟨rfl, missing_fails rfl⟩

end Pairs

/-- Every handler of the catalog is atomic but for a row lost on the way. -/
theorem run_endsAtomically (req : ShopRequest) :
    EndsAtomically Shop.exec AgreesButLost req.run req.run := by
  cases req with
  | findCategories => exact endsAtomically_single fun r => by cases r <;> exact ⟨_, rfl⟩
  | findCategory id =>
    rw [run_findCategory]
    exact endsAtomically_single finding_ends
  | createCategory dto =>
    rw [run_createCategory]
    exact endsAtomically_single ending_ends
  | updateCategory id dto =>
    rw [run_updateCategory]
    exact endsAtomically_category ending_ends (categoryUpdate_fails id dto)
  | removeCategory id =>
    rw [run_removeCategory]
    exact endsAtomically_category ending_ends (categoryDelete_fails id)
  | findProducts => exact endsAtomically_single fun r => by cases r <;> exact ⟨_, rfl⟩
  | findProduct id =>
    rw [run_findProduct]
    exact endsAtomically_single finding_ends
  | createProduct dto =>
    rw [run_createProduct]
    exact endsAtomically_single ending_ends
  | updateProduct id dto =>
    rw [run_updateProduct]
    exact endsAtomically_product ending_ends (productUpdate_fails id dto)
  | removeProduct id =>
    rw [run_removeProduct]
    exact endsAtomically_product ending_ends (productDelete_fails id)

/-! ## What the requests leave behind -/

/-- The rows of both tables. -/
structure Contents where
  products : ℤ → Option ProductRow
  categories : List Category

def Shop.contents (w : Shop) : Contents := ⟨w.products, w.categories⟩

/-- What a request that succeeded with this answer has done to the rows. -/
def ShopRequest.effect : ShopRequest → ShopAnswer → Contents → Contents
  | .createCategory dto, .categoryRow c, s =>
    { s with categories := s.categories ++ [{ id := c.id, name := dto.name, color := dto.color }] }
  | .updateCategory id dto, _, s =>
    { s with categories := s.categories.map fun c => if c.id = id then c.apply dto else c }
  | .removeCategory id, _, s => { s with categories := s.categories.filter (·.id ≠ id) }
  | .createProduct dto, .product p, s =>
    { s with products := Function.update s.products p.id (some dto.data.row) }
  | .updateProduct id dto, _, s =>
    { s with products := Function.update s.products id ((s.products id).map (·.apply dto)) }
  | .removeProduct id, _, s => { s with products := Function.update s.products id none }
  | _, _, s => s

def ShopRequest.leaves (req : ShopRequest) (s : Contents) :
    Except ShopFailure ShopAnswer → Contents
  | .ok answer => req.effect answer s
  | .error _ => s

/-- The rows after the requests of an order, latest first. -/
def contentsAfter (reqs : Nat → ShopRequest) (s : Contents) :
    List (Nat × Except ShopFailure ShopAnswer) → Contents
  | [] => s
  | (i, out) :: order => (reqs i).leaves (contentsAfter reqs s order) out

section Effects
variable {ch : Shop.Choice} {w w' : Shop} {id : ℤ}

lemma contents_categoryCreate {name : String} {color : Option String}
    {r : Except ShopError Category}
    (answered : Shop.exec ch (.categoryCreate name color) w = some (r, w')) :
    (∃ e, r = .error e ∧ w'.contents = w.contents) ∨ ∃ c, r = .ok c ∧ w'.contents =
      { w.contents with categories := w.categories ++ [{ id := c.id, name, color }] } := by
  have made : w.categoryCreate ch name color = (r, w') := Option.some.inj answered
  rcases Shop.categoryCreate_cases (w := w) ch name color with ⟨e, same⟩ | ⟨free, same⟩
  · obtain ⟨rfl, rfl⟩ := Prod.mk.inj (made.symm.trans same)
    exact .inl ⟨e, rfl, rfl⟩
  · obtain ⟨rfl, rfl⟩ := Prod.mk.inj (made.symm.trans same)
    exact .inr ⟨_, rfl, rfl⟩

lemma contents_categoryUpdate {dto : UpdateCategoryDto} {r : Except ShopError Category}
    (answered : Shop.exec ch (.categoryUpdate id dto) w = some (r, w')) :
    (∃ e, r = .error e ∧ w'.contents = w.contents) ∨ ∃ c, r = .ok c ∧ w'.contents =
      { w.contents with
        categories := w.categories.map fun c => if c.id = id then c.apply dto else c } := by
  have made : w.categoryUpdate ch id dto = (r, w') := Option.some.inj answered
  rcases Shop.categoryUpdate_cases (w := w) ch id dto with ⟨e, same⟩ | ⟨c, free, _, same⟩
  · obtain ⟨rfl, rfl⟩ := Prod.mk.inj (made.symm.trans same)
    exact .inl ⟨e, rfl, rfl⟩
  · obtain ⟨rfl, rfl⟩ := Prod.mk.inj (made.symm.trans same)
    exact .inr ⟨_, rfl, rfl⟩

lemma contents_categoryDelete {r : Except ShopError Category}
    (answered : Shop.exec ch (.categoryDelete id) w = some (r, w')) :
    (∃ e, r = .error e ∧ w'.contents = w.contents) ∨ ∃ c, r = .ok c ∧ w'.contents =
      { w.contents with categories := w.categories.filter (·.id ≠ id) } := by
  have made : w.categoryDelete ch id = (r, w') := Option.some.inj answered
  rcases Shop.categoryDelete_cases (w := w) ch id with ⟨e, same⟩ | ⟨c, unused, _, same⟩
  · obtain ⟨rfl, rfl⟩ := Prod.mk.inj (made.symm.trans same)
    exact .inl ⟨e, rfl, rfl⟩
  · obtain ⟨rfl, rfl⟩ := Prod.mk.inj (made.symm.trans same)
    exact .inr ⟨_, rfl, rfl⟩

lemma contents_productCreate {data : ProductData} {r : Except CatalogError Product}
    (answered : Shop.exec ch (.product (.productCreate data)) w = some (r, w')) :
    (∃ e, r = .error e ∧ w'.contents = w.contents) ∨ ∃ p, r = .ok p ∧ w'.contents =
      { w.contents with products := Function.update w.products p.id (some data.row) } := by
  obtain ⟨v, kept, inside, rfl⟩ := exec_product.mp answered
  have made : w.productCreate ch.toChoice data = (r, v) := Option.some.inj inside
  rcases Catalog.productCreate_cases (w := w.toCatalog) ch.toChoice data with
    ⟨e, same⟩ | ⟨c, known, same⟩
  · obtain ⟨rfl, rfl⟩ := Prod.mk.inj (made.symm.trans same)
    exact .inl ⟨e, rfl, rfl⟩
  · obtain ⟨rfl, rfl⟩ := Prod.mk.inj (made.symm.trans same)
    exact .inr ⟨_, rfl, rfl⟩

lemma contents_productUpdate {dto : UpdateProductDto} {r : Except CatalogError Product}
    (answered : Shop.exec ch (.product (.productUpdate id dto)) w = some (r, w')) :
    (∃ e, r = .error e ∧ w'.contents = w.contents) ∨ ∃ p, r = .ok p ∧ w'.contents =
      { w.contents with
        products := Function.update w.products id ((w.products id).map (·.apply dto)) } := by
  obtain ⟨v, kept, inside, rfl⟩ := exec_product.mp answered
  have made : w.productUpdate ch.toChoice id dto = (r, v) := Option.some.inj inside
  rcases Catalog.productUpdate_cases (w := w.toCatalog) ch.toChoice id dto with
    ⟨e, same⟩ | ⟨row, c, known, stored, same⟩
  · obtain ⟨rfl, rfl⟩ := Prod.mk.inj (made.symm.trans same)
    exact .inl ⟨e, rfl, rfl⟩
  · obtain ⟨rfl, rfl⟩ := Prod.mk.inj (made.symm.trans same)
    exact .inr ⟨_, rfl, by rw [stored]; rfl⟩

lemma contents_productDelete {r : Except CatalogError StoredProduct}
    (answered : Shop.exec ch (.product (.productDelete id)) w = some (r, w')) :
    (∃ e, r = .error e ∧ w'.contents = w.contents) ∨ ∃ p, r = .ok p ∧ w'.contents =
      { w.contents with products := Function.update w.products id none } := by
  obtain ⟨v, kept, inside, rfl⟩ := exec_product.mp answered
  have made : w.productDelete ch.toChoice id = (r, v) := Option.some.inj inside
  rcases Catalog.productDelete_cases (w := w.toCatalog) ch.toChoice id with
    ⟨e, same⟩ | ⟨row, stored, same⟩
  · obtain ⟨rfl, rfl⟩ := Prod.mk.inj (made.symm.trans same)
    exact .inl ⟨e, rfl, rfl⟩
  · obtain ⟨rfl, rfl⟩ := Prod.mk.inj (made.symm.trans same)
    exact .inr ⟨_, rfl, rfl⟩

end Effects

section Serial
variable {req : ShopRequest} {w : Shop} {h : List (Call ShopOp ShopOp.Res)}

/-- A run that ends has left the rows as its outcome says. -/
abbrev Leaving (req : ShopRequest) (w : Shop) (h : List (Call ShopOp ShopOp.Res))
    (p : ShopTask ShopAnswer) : Prop :=
  Meets Shop.exec (fun _ => True) (fun _ _ => True)
    (fun _ out w' => w'.contents = req.leaves w.contents out) h w p

lemma leaving_last {op : ShopOp} {rest : op.Res → ShopTask ShopAnswer}
    (step : ∀ ch r w', Shop.exec ch op w = some (r, w') →
      (∃ e, rest r = .throw e ∧ w'.contents = w.contents) ∨
        ∃ a, rest r = .ret a ∧ w'.contents = req.effect a w.contents) :
    Leaving req w h (.call op rest) := by
  refine ⟨trivial, fun ch r w' _ answered => ?_⟩
  rcases step ch r w' answered with ⟨e, ended, same⟩ | ⟨a, ended, same⟩ <;> rw [ended]
  · exact ⟨trivial, same⟩
  · exact ⟨trivial, same⟩

lemma leaving_ending {op : ShopOp} {α β : Type} {failure : α → ShopError} {answer : β → ShopAnswer}
    {rest : op.Res → ShopTask ShopAnswer} {result : op.Res → Except α β}
    (ends : ∀ r, rest r = ending failure answer (result r))
    (step : ∀ ch r w', Shop.exec ch op w = some (r, w') →
      (∃ e, result r = .error e ∧ w'.contents = w.contents) ∨
        ∃ b, result r = .ok b ∧ w'.contents = req.effect (answer b) w.contents) :
    Leaving req w h (.call op rest) := by
  refine leaving_last fun ch r w' answered => ?_
  rcases step ch r w' answered with ⟨e, failed, same⟩ | ⟨b, done, same⟩
  · exact .inl ⟨_, by rw [ends, failed]; rfl, same⟩
  · exact .inr ⟨_, by rw [ends, done]; rfl, same⟩

lemma leaving_category {id : ℤ} {found : CategoryWithProducts → ShopTask ShopAnswer}
    (rest : ∀ h c, Leaving req w h (found c)) :
    Leaving req w h (.call (.categoryFindUnique id)
      (finding (fun e => e) (CategoryService.notFound id) found)) := by
  refine ⟨trivial, fun ch r w' _ answered => ?_⟩
  obtain ⟨rfl, _⟩ := exec_categoryFindUnique answered
  rcases r with e | _ | c
  · exact ⟨trivial, rfl⟩
  · exact ⟨trivial, rfl⟩
  · exact rest _ c

lemma leaving_product {id : ℤ} {found : Product → ShopTask ShopAnswer}
    (rest : ∀ h p, Leaving req w h (found p)) :
    Leaving req w h (.call (.product (.productFindUnique id))
      (finding .catalog (.ofProduct (ProductsService.notFound id)) found)) := by
  refine ⟨trivial, fun ch r w' _ answered => ?_⟩
  obtain rfl := exec_productFindUnique answered
  rcases r with e | _ | p
  · exact ⟨trivial, rfl⟩
  · exact ⟨trivial, rfl⟩
  · exact rest _ p

/-- A request served alone has the effect of its answer, and none if it fails. -/
theorem run_leaves (req : ShopRequest) (w : Shop) : Leaving req w [] req.run := by
  cases req with
  | findCategories =>
    refine leaving_last fun ch r w' answered => ?_
    obtain ⟨rfl, rfl⟩ := Prod.mk.inj (Option.some.inj answered)
    cases w.categoryFindMany ch with
    | error e => exact .inl ⟨_, rfl, rfl⟩
    | ok rows => exact .inr ⟨_, rfl, rfl⟩
  | findCategory id =>
    rw [run_findCategory]
    exact leaving_category fun _ _ => ⟨trivial, rfl⟩
  | createCategory dto =>
    rw [run_createCategory]
    exact leaving_ending (fun _ => rfl) fun _ _ _ => contents_categoryCreate
  | updateCategory id dto =>
    rw [run_updateCategory]
    exact leaving_category fun _ _ => leaving_ending (fun _ => rfl) fun _ _ _ =>
      contents_categoryUpdate
  | removeCategory id =>
    rw [run_removeCategory]
    exact leaving_category fun _ _ => leaving_ending (fun _ => rfl) fun _ _ _ =>
      contents_categoryDelete
  | findProducts =>
    refine leaving_last fun ch r w' answered => ?_
    obtain ⟨rfl, rfl⟩ := Prod.mk.inj (Option.some.inj answered)
    cases w.productFindMany ch with
    | error e => exact .inl ⟨_, rfl, rfl⟩
    | ok rows => exact .inr ⟨_, rfl, rfl⟩
  | findProduct id =>
    rw [run_findProduct]
    exact leaving_product fun _ _ => ⟨trivial, rfl⟩
  | createProduct dto =>
    rw [run_createProduct]
    exact leaving_ending (fun _ => rfl) fun _ _ _ => contents_productCreate
  | updateProduct id dto =>
    rw [run_updateProduct]
    exact leaving_product fun _ _ => leaving_ending (fun _ => rfl) fun _ _ _ =>
      contents_productUpdate
  | removeProduct id =>
    rw [run_removeProduct]
    exact leaving_product fun _ _ => leaving_ending (fun _ => rfl) fun _ _ _ =>
      contents_productDelete

/-- Serial requests leave the rows that their successes make of them. -/
theorem serially_contents {reqs : Nat → ShopRequest}
    {order : List (Nat × Except ShopFailure ShopAnswer)} {w' : Shop}
    (serial : Serially Shop.exec (fun i => (reqs i).run) w order w') :
    w'.contents = contentsAfter reqs w.contents order := by
  induction serial with
  | nil => rfl
  | @cons order i h out w₁ w₂ _ run ih =>
    rw [((run_leaves (reqs i) w₁).finishes run).2, ih]
    rfl

end Serial

/-- Whatever the interleaving of catalog requests, those that have answered did so
as if served one after another, in an order that keeps the order of any two of which
one answered before the other began and that every later state continues, and the
rows are what the successes of that order make of the first ones. -/
theorem catalog_linearizable (reqs : Nat → ShopRequest) (w : Shop) (c : ShopConfig)
    (run : ShopReachable reqs w c) :
    ∃ order, Linearizes Shop.exec AgreesButLost (fun i => (reqs i).run) w c order ∧
      c.world.contents = contentsAfter reqs w.contents order ∧
      ∀ c', Leads Shop.exec c c' → ∃ later,
        Linearizes Shop.exec AgreesButLost (fun i => (reqs i).run) w c' (later ++ order) := by
  have atomic : ∀ i, EndsAtomically Shop.exec AgreesButLost (reqs i).run (reqs i).run :=
    fun i => run_endsAtomically (reqs i)
  obtain ⟨order, lin⟩ := linearizes atomic run
  exact ⟨order, lin, serially_contents lin.serial, fun c' later =>
    linearizes_later atomic run lin later⟩

namespace Plain

/-- A shop whose four products have been deleted. -/
def emptyShop : Shop where
  categories := []
  products _ := none
  lastId := 4
  related _ _ stored := by cases stored
  drawn _ _ stored := by cases stored
  lastCategoryId := 0
  sequence := by decide
  positive _ _ := rfl
  ids := List.nodup_nil
  names := List.nodup_nil
  drawnCategories _ hc := absurd hc List.not_mem_nil

/-- A category is created, and deleted while it is being renamed. -/
def deletedOnTheWay : Nat → ShopRequest
  | 0 => .createCategory { name := "Vinos" }
  | 1 => .updateCategory 1 { name := .value "Tintos" }
  | _ => .removeCategory 1

end Plain

theorem catalog_linearizable_lost :
    ∃ c order, ShopReachable Plain.deletedOnTheWay Plain.emptyShop c ∧
      (c.pool 1).outcome = some (.error (.database (.catalog .recordNotFound))) ∧
      Linearizes Shop.exec AgreesButLost (fun i => (Plain.deletedOnTheWay i).run)
        Plain.emptyShop c order ∧
      c.world.contents = contentsAfter Plain.deletedOnTheWay Plain.emptyShop.contents order := by
  have shown : (play Shop.exec [(0, {}), (1, {}), (2, {}), (2, {}), (1, {})]
      (openShop Plain.deletedOnTheWay Plain.emptyShop)).any (fun c => decide
        ((c.pool 1).outcome = some (.error (.database (.catalog .recordNotFound))))) = true := by
    decide +kernel
  obtain ⟨c, run, lost⟩ := leads_of_play _ shown
  obtain ⟨order, lin, contents, _⟩ :=
    catalog_linearizable Plain.deletedOnTheWay Plain.emptyShop c run
  exact ⟨c, order, run, of_decide_eq_true lost, lin, contents⟩

end BajaValle
