import BajaValle.Lib.SerialRuns
import BajaValle.Products
import Mathlib.Tactic.Linarith
import Mathlib.Tactic.NormNum
import Mathlib.Tactic.Ring

/-!
# The catalog as a fold of accepted bodies

Over serial runs the table holds the fold of the bodies that succeeded, but for the
image: the row that `create` writes has none. What `findOne` answers is what the API
accepted exactly where no image given at creation is still due.
-/

namespace BajaValle

open CallPrograms Prog

/-! ## What the API accepted -/

def CreateProductDto.fields (dto : CreateProductDto) : ProductRow :=
  { name := dto.name, description := dto.description, features := dto.features,
    specifications := some dto.specifications, price := dto.price, imageUrl := dto.imageUrl,
    categoryId := dto.categoryId }

def UpdateProductDto.override (dto : UpdateProductDto) (row : ProductRow) : ProductRow :=
  { name := dto.name.required row.name
    description := dto.description.required row.description
    features := dto.features.required row.features
    specifications := dto.specifications.nullable row.specifications
    price := dto.price.required row.price
    imageUrl := dto.imageUrl.nullable row.imageUrl
    categoryId := dto.categoryId.required row.categoryId }

inductive CatalogRequest
  | create (dto : CreateProductDto)
  | update (id : ℤ) (dto : UpdateProductDto)
  | remove (id : ℤ)

namespace CatalogRequest

def Accepted (v : ClassValidator) : CatalogRequest → Prop
  | create dto => dto.Accepted v
  | update _ dto => dto.Accepted v
  | remove _ => True

instance decidableAccepted (v : ClassValidator) :
    ∀ request : CatalogRequest, Decidable (request.Accepted v)
  | create dto => inferInstanceAs (Decidable (dto.Accepted v))
  | update _ dto => inferInstanceAs (Decidable (dto.Accepted v))
  | remove _ => inferInstanceAs (Decidable True)

def serve : CatalogRequest → CatalogTask StoredProduct
  | create dto => do return (← ProductsService.create dto).toStoredProduct
  | update id dto => do return (← ProductsService.update id dto).toStoredProduct
  | remove id => ProductsService.remove id

/-- What the bodies say of a product after the request. -/
def gives : CatalogRequest → Option ProductRow → Option ProductRow
  | create dto, _ => some dto.fields
  | update _ dto, row => row.map dto.override
  | remove _, _ => none

/-- What the table holds after the request. -/
def stores : CatalogRequest → Option ProductRow → Option ProductRow
  | create dto, _ => some { dto.fields with imageUrl := none }
  | update _ dto, row => row.map dto.override
  | remove _, _ => none

end CatalogRequest

/-- A request and what it answered. -/
structure CatalogEvent where
  request : CatalogRequest
  outcome : Except ProductError StoredProduct

/-- The product that a successful call was about. -/
def CatalogEvent.target : CatalogEvent → Option ℤ
  | ⟨_, .error _⟩ => none
  | ⟨.create _, .ok product⟩ => some product.id
  | ⟨.update id _, .ok _⟩ => some id
  | ⟨.remove id, .ok _⟩ => some id

/-- The fold over the successful calls for one product, latest first. -/
def foldFor (step : CatalogRequest → Option ProductRow → Option ProductRow) (id : ℤ) :
    List CatalogEvent → Option ProductRow
  | [] => none
  | e :: log => if e.target = some id then step e.request (foldFor step id log)
    else foldFor step id log

/-- Serial runs, with what each request answered, latest first. -/
inductive CatalogRun (v : ClassValidator) (w₀ : Catalog) : List CatalogEvent → Catalog → Prop
  | start : CatalogRun v w₀ [] w₀
  | serve {log : List CatalogEvent} {w w' : Catalog} {request : CatalogRequest}
      {h : List (Call CatalogOp CatalogOp.Res)} {out : Except ProductError StoredProduct}
      (run : CatalogRun v w₀ log w) (accepted : request.Accepted v)
      (done : Finishes Catalog.exec (fun _ => True) request.serve w h out w') :
      CatalogRun v w₀ (⟨request, out⟩ :: log) w'

/-! ## One request -/

lemma toDecimal_eq {price : ℚ} (places : (price * 10 ^ 2).den = 1) (positive : 0 < price) :
    toDecimal price = price := by
  have whole : ((price * 10 ^ 2).num : ℚ) = price * 10 ^ 2 := (Rat.den_eq_one_iff _).1 places
  have hundred : price * 100 = ((price * 10 ^ 2).num : ℚ) := by
    rw [whole]
    norm_num
  have floor : ⌊price * 100 + 1 / 2⌋ = (price * 10 ^ 2).num := by
    rw [hundred, Int.floor_eq_iff]
    constructor <;> linarith
  rw [toDecimal, if_pos positive.le, floor, ← hundred]
  ring

/-- What a request leaves in the catalog. -/
structure Effect (w : Catalog) (request : CatalogRequest)
    (out : Except ProductError StoredProduct) (w' : Catalog) : Prop where
  categories : w'.categories = w.categories
  drawn : w.lastId ≤ w'.lastId
  rows : ∀ id, w'.products id = if (CatalogEvent.mk request out).target = some id then
    request.stores (w.products id) else w.products id
  target : ∀ id, (CatalogEvent.mk request out).target = some id → id ≤ w'.lastId ∧
    match request with
    | .create _ => w.lastId < id
    | .update _ _ | .remove _ => w.products id ≠ none

section Requests
variable {w w' : Catalog}

lemma Effect.failed {request : CatalogRequest} {e : ProductError}
    (categories : w'.categories = w.categories) (drawn : w.lastId ≤ w'.lastId)
    (products : w'.products = w.products) : Effect w request (.error e) w' where
  categories := categories
  drawn := drawn
  rows id := by rw [products]; exact (if_neg nofun).symm
  target id none := nomatch none

/-- What every run of the request from here leaves. -/
abbrev Leads (w : Catalog) (request : CatalogRequest) : Prop :=
  Meets Catalog.exec (fun _ => True) (fun _ _ => True)
    (fun _ out w' => Effect w request out w') [] w request.serve

/-- What `findOne` answers when the database does. -/
def answerOf (w : Catalog) (id : ℤ) : Except ProductError Product :=
  match w.product id with
  | none => .error (ProductsService.notFound id)
  | some product => .ok product

lemma findOne_meets {allow : Catalog.Choice → Prop} (id : ℤ)
    (h : List (Call CatalogOp CatalogOp.Res)) :
    Meets Catalog.exec allow (fun _ _ => True) (fun _ out w' => w' = w ∧
      ((∃ ch e, allow ch ∧ ch.fails = some e ∧ out = .error (.database e)) ∨
        out = answerOf w id)) h w (ProductsService.findOne id) := by
  refine ⟨trivial, fun ch r w₁ allowed answered => ?_⟩
  have read : (r, w₁) = w.productFindUnique ch id := (Option.some.inj answered).symm
  rcases Catalog.productFindUnique_cases (w := w) ch id with ⟨e, fails, failed⟩ | works
  · obtain ⟨rfl, rfl⟩ := Prod.mk.inj (read.trans failed)
    exact ⟨trivial, rfl, .inl ⟨ch, e, allowed, fails, rfl⟩⟩
  · obtain ⟨rfl, rfl⟩ := Prod.mk.inj (read.trans works)
    unfold answerOf
    cases w₁.product id with
    | none => exact ⟨trivial, rfl, .inr rfl⟩
    | some product => exact ⟨trivial, rfl, .inr rfl⟩

/-- A request that reads the product first. -/
lemma leads_findOne {request : CatalogRequest} {id : ℤ}
    (rest : Product → CatalogTask StoredProduct)
    (serves : request.serve = ProductsService.findOne id >>= rest)
    (next : ∀ h product, Meets Catalog.exec (fun _ => True) (fun _ _ => True)
      (fun _ out w' => Effect w request out w') h w (rest product)) : Leads w request := by
  rw [Leads, serves]
  refine meets_bind ((findOne_meets id []).mono fun h out w' _ post => ?_)
  obtain ⟨rfl, -⟩ := post
  exact ⟨fun product _ => next h product, fun e _ => .failed rfl le_rfl rfl⟩

lemma create_leads {v : ClassValidator} {dto : CreateProductDto} (accepted : dto.Accepted v) :
    Leads w (.create dto) := by
  refine ⟨trivial, fun ch r w₁ _ answered => ?_⟩
  have made : (r, w₁) = w.productCreate ch _ := (Option.some.inj answered).symm
  rcases Catalog.productCreate_cases (w := w) ch _ with ⟨e, fails⟩ | ⟨c, known, works⟩
  · obtain ⟨rfl, rfl⟩ := Prod.mk.inj (made.trans fails)
    refine ⟨trivial, .failed rfl ?_ rfl⟩
    simp only [Catalog.draw]
    split <;> omega
  · obtain ⟨rfl, rfl⟩ := Prod.mk.inj (made.trans works)
    obtain ⟨-, -, -, ⟨places, positive⟩, -⟩ := accepted
    refine ⟨trivial, rfl, le_max_left _ _, fun id => ?_, ?_⟩
    · simp only [Catalog.write, CatalogEvent.target, CatalogRequest.stores, Option.some.injEq,
        Function.update_apply, ProductData.row, CreateProductDto.fields,
        toDecimal_eq (v.isNumber_places _ _ places) positive, @eq_comm _ id]
    · rintro _ ⟨⟩
      exact ⟨le_max_right _ _, by simp⟩

lemma apply_eq_override {v : ClassValidator} {dto : UpdateProductDto} (accepted : dto.Accepted v)
    (row : ProductRow) : row.apply dto = dto.override row := by
  have price : dto.price.map toDecimal = dto.price := by
    cases given : dto.price with
    | absent => rfl
    | null => rfl
    | value price =>
      obtain ⟨places, positive⟩ := accepted.1 price (by rw [given]; rfl)
      rw [Given.map, toDecimal_eq (v.isNumber_places _ _ places) positive]
  rw [ProductRow.apply, price]
  rfl

lemma update_leads {v : ClassValidator} {id : ℤ} {dto : UpdateProductDto}
    (accepted : dto.Accepted v) : Leads w (.update id dto) := by
  refine leads_findOne _ (bind_assoc ..) fun h _ => ?_
  refine ⟨trivial, fun ch r w₁ _ answered => ?_⟩
  have made : (r, w₁) = w.productUpdate ch id dto := (Option.some.inj answered).symm
  rcases Catalog.productUpdate_cases (w := w) ch id dto with
    ⟨e, fails⟩ | ⟨row, c, known, stored, works⟩
  · obtain ⟨rfl, rfl⟩ := Prod.mk.inj (made.trans fails)
    exact ⟨trivial, .failed rfl le_rfl rfl⟩
  · obtain ⟨rfl, rfl⟩ := Prod.mk.inj (made.trans works)
    refine ⟨trivial, rfl, le_max_left _ _, fun id' => ?_, ?_⟩
    · simp only [Catalog.write, CatalogEvent.target, CatalogRequest.stores, Option.some.injEq,
        Function.update_apply, @eq_comm _ id]
      split
      · rename_i here
        rw [here, stored, Option.map_some, apply_eq_override accepted]
      · rfl
    · rintro _ ⟨⟩
      exact ⟨le_max_right _ _, by simp [stored]⟩

lemma remove_leads {id : ℤ} : Leads w (.remove id) := by
  refine leads_findOne _ rfl fun h _ => ?_
  refine ⟨trivial, fun ch r w₁ _ answered => ?_⟩
  have made : (r, w₁) = w.productDelete ch id := (Option.some.inj answered).symm
  rcases Catalog.productDelete_cases (w := w) ch id with ⟨e, fails⟩ | ⟨row, stored, works⟩
  · obtain ⟨rfl, rfl⟩ := Prod.mk.inj (made.trans fails)
    exact ⟨trivial, .failed rfl le_rfl rfl⟩
  · obtain ⟨rfl, rfl⟩ := Prod.mk.inj (made.trans works)
    refine ⟨trivial, rfl, le_rfl, fun id' => ?_, ?_⟩
    · simp only [Catalog.erase, CatalogEvent.target, CatalogRequest.stores, Option.some.injEq,
        Function.update_apply, @eq_comm _ id]
    · rintro _ ⟨⟩
      exact ⟨w.drawn id row stored, by simp [stored]⟩

/-- What a request that the API accepts leaves, run alone. -/
theorem request_effect {v : ClassValidator} {request : CatalogRequest}
    (accepted : request.Accepted v) {h : List (Call CatalogOp CatalogOp.Res)}
    {out : Except ProductError StoredProduct}
    (done : Finishes Catalog.exec (fun _ => True) request.serve w h out w') :
    Effect w request out w' := by
  cases request with
  | create dto => exact ((create_leads accepted).finishes done).2
  | update id dto => exact ((update_leads accepted).finishes done).2
  | remove id => exact (remove_leads.finishes done).2

end Requests

/-! ## Runs -/

/-- The table holds the fold of what the requests store, and the ids of the log were
all drawn. -/
structure Tracked (w : Catalog) (log : List CatalogEvent) : Prop where
  stored : ∀ id, w.products id = foldFor CatalogRequest.stores id log
  drawn : ∀ e ∈ log, ∀ id, e.target = some id → id ≤ w.lastId

section Runs
variable {v : ClassValidator} {w₀ w : Catalog} {log : List CatalogEvent}

theorem run_tracked (empty : ∀ id, w₀.products id = none) (run : CatalogRun v w₀ log w) :
    Tracked w log := by
  induction run with
  | start => exact ⟨empty, fun _ none => nomatch none⟩
  | serve run accepted done ih =>
    have effect := request_effect accepted done
    refine ⟨fun id => ?_, fun e he id target => ?_⟩
    · rw [effect.rows id, ih.stored id]
      rfl
    · rcases List.mem_cons.1 he with rfl | older
      · exact (effect.target id target).1
      · exact (ih.drawn e older id target).trans effect.drawn

/-- The product of a creation is in no earlier event. -/
lemma create_fresh (tracked : Tracked w log) {w' : Catalog} {dto : CreateProductDto}
    {product : StoredProduct} (effect : Effect w (.create dto) (.ok product) w') :
    ∀ e ∈ log, e.target ≠ some product.id := by
  intro e he target
  exact (tracked.drawn e he _ target).not_gt (effect.target product.id rfl).2

/-! ## WasCreated and removed -/

def WasCreated (id : ℤ) (log : List CatalogEvent) : Prop :=
  ∃ dto product, ⟨.create dto, .ok product⟩ ∈ log ∧ product.id = id

def WasRemoved (id : ℤ) (log : List CatalogEvent) : Prop :=
  ∃ product, ⟨.remove id, .ok product⟩ ∈ log

lemma wasCreated_cons {e : CatalogEvent} {id : ℤ} : WasCreated id (e :: log) ↔
    (∃ dto product, e = ⟨.create dto, .ok product⟩ ∧ product.id = id) ∨ WasCreated id log := by
  constructor
  · rintro ⟨dto, product, here, rfl⟩
    rcases List.mem_cons.1 here with rfl | older
    · exact .inl ⟨dto, product, rfl, rfl⟩
    · exact .inr ⟨dto, product, older, rfl⟩
  · rintro (⟨dto, product, rfl, rfl⟩ | ⟨dto, product, older, rfl⟩)
    · exact ⟨dto, product, List.mem_cons_self, rfl⟩
    · exact ⟨dto, product, List.mem_cons_of_mem _ older, rfl⟩

lemma wasRemoved_cons {e : CatalogEvent} {id : ℤ} : WasRemoved id (e :: log) ↔
    (∃ product, e = ⟨.remove id, .ok product⟩) ∨ WasRemoved id log := by
  constructor
  · rintro ⟨product, here⟩
    rcases List.mem_cons.1 here with rfl | older
    · exact .inl ⟨product, rfl⟩
    · exact .inr ⟨product, older⟩
  · rintro (⟨product, rfl⟩ | ⟨product, older⟩)
    · exact ⟨product, List.mem_cons_self⟩
    · exact ⟨product, List.mem_cons_of_mem _ older⟩

/-- A product is missing exactly if it was removed or never created. -/
theorem absent_iff (empty : ∀ id, w₀.products id = none) (run : CatalogRun v w₀ log w) (id : ℤ) :
    w.products id = none ↔ WasRemoved id log ∨ ¬ WasCreated id log := by
  induction run with
  | start => exact iff_of_true (empty id) (.inr fun ⟨_, _, here, _⟩ => nomatch here)
  | @serve log w w' request h out run accepted done ih =>
    have effect := request_effect accepted done
    have tracked := run_tracked empty run
    rw [effect.rows id]
    rw [wasCreated_cons, wasRemoved_cons]
    by_cases target : (CatalogEvent.mk request out).target = some id
    · rw [if_pos target]
      cases out with
      | error e => cases target
      | ok product =>
        cases request with
        | create dto =>
          obtain rfl : product.id = id := Option.some.inj target
          have fresh : ¬ WasRemoved product.id log := fun ⟨gone, removed⟩ =>
            create_fresh tracked effect _ removed rfl
          simp [CatalogRequest.stores, fresh]
        | update id' dto =>
          obtain rfl : id' = id := Option.some.inj target
          simp [CatalogRequest.stores, ih]
        | remove id' =>
          obtain rfl : id' = id := Option.some.inj target
          simp [CatalogRequest.stores]
    · rw [if_neg target, ih]
      have notCreate : ¬ ∃ dto product, CatalogEvent.mk request out = ⟨.create dto, .ok product⟩ ∧
          product.id = id := by
        rintro ⟨dto, product, same, rfl⟩
        exact target (same ▸ rfl)
      have notRemove : ¬ ∃ product, CatalogEvent.mk request out = ⟨.remove id, .ok product⟩ := by
        rintro ⟨product, same⟩
        exact target (same ▸ rfl)
      rw [or_iff_right notCreate, or_iff_right notRemove]

/-! ## Images -/

/-- The image that a creation gave and that no later call replaced or removed. -/
def CatalogRequest.owes : CatalogRequest → Option String → Option String
  | create dto, _ => dto.imageUrl
  | update _ dto, due => if dto.imageUrl = .absent then due else none
  | remove _, _ => none

def imageDue (id : ℤ) : List CatalogEvent → Option String
  | [] => none
  | e :: log => if e.target = some id then e.request.owes (imageDue id log) else imageDue id log

/-- The row with an image that is due. -/
def ProductRow.withImage (due : Option String) (row : ProductRow) : ProductRow :=
  { row with imageUrl := due.or row.imageUrl }

/-- What the bodies say is what the table holds, with the image that is due. -/
theorem accepted_eq_stored (id : ℤ) (log : List CatalogEvent) :
    foldFor CatalogRequest.gives id log =
      (foldFor CatalogRequest.stores id log).map (ProductRow.withImage (imageDue id log)) := by
  induction log with
  | nil => rfl
  | cons e log ih =>
    simp only [foldFor, imageDue]
    split
    · cases e.request with
      | create dto =>
        simp [CatalogRequest.gives, CatalogRequest.stores, CatalogRequest.owes,
          ProductRow.withImage, CreateProductDto.fields]
      | update id' dto =>
        rw [CatalogRequest.gives, ih, CatalogRequest.stores, CatalogRequest.owes, Option.map_map,
          Option.map_map]
        congr 1
        funext row
        cases given : dto.imageUrl with
        | absent => simp [ProductRow.withImage, UpdateProductDto.override, Given.nullable, given]
        | null => simp [ProductRow.withImage, UpdateProductDto.override, Given.nullable, given]
        | value url => simp [ProductRow.withImage, UpdateProductDto.override, Given.nullable, given]
      | remove id' => rfl
    · exact ih

/-- A product whose image is due is stored without one. -/
lemma stored_of_due {id : ℤ} {url : String} (due : imageDue id log = some url) :
    ∃ row, foldFor CatalogRequest.stores id log = some row ∧ row.imageUrl = none := by
  induction log with
  | nil => cases due
  | cons e log ih =>
    simp only [foldFor, imageDue] at due ⊢
    split at due
    · rename_i target
      rw [if_pos target]
      cases request : e.request with
      | create dto => exact ⟨_, rfl, rfl⟩
      | update id' dto =>
        simp only [request, CatalogRequest.owes] at due
        split at due
        · rename_i kept
          obtain ⟨row, stored, imageless⟩ := ih due
          refine ⟨dto.override row, ?_, ?_⟩
          · rw [CatalogRequest.stores, stored, Option.map_some]
          · simp [UpdateProductDto.override, Given.nullable, kept, imageless]
        · cases due
      | remove id' => simp [request, CatalogRequest.owes] at due
    · rename_i other
      rw [if_neg other]
      exact ih due

theorem stored_eq_accepted_iff (id : ℤ) (log : List CatalogEvent) :
    foldFor CatalogRequest.stores id log = foldFor CatalogRequest.gives id log ↔
      imageDue id log = none := by
  rw [accepted_eq_stored]
  cases due : imageDue id log with
  | none =>
    refine iff_of_true ?_ rfl
    cases foldFor CatalogRequest.stores id log with
    | none => rfl
    | some row => simp [ProductRow.withImage]
  | some url =>
    refine iff_of_false (fun same => ?_) nofun
    obtain ⟨row, stored, imageless⟩ := stored_of_due due
    rw [stored, Option.map_some, Option.some.injEq] at same
    have image := congrArg ProductRow.imageUrl same
    simp [ProductRow.withImage, imageless] at image

/-- The call replaces or removes the image of the product. -/
def CatalogEvent.Settles (id : ℤ) (e : CatalogEvent) : Prop :=
  e.target = some id ∧ match e.request with
    | .create _ => False
    | .update _ dto => dto.imageUrl ≠ .absent
    | .remove _ => True

/-- Every image given to the product at creation was later replaced or removed. -/
def ImagesSettled (id : ℤ) (log : List CatalogEvent) : Prop :=
  ∀ later dto product earlier, log = later ++ ⟨.create dto, .ok product⟩ :: earlier →
    product.id = id → dto.imageUrl ≠ none → ∃ e ∈ later, e.Settles id

lemma imagesSettled_cons {id : ℤ} {e : CatalogEvent} : ImagesSettled id (e :: log) ↔
    (∀ dto product, e = ⟨.create dto, .ok product⟩ → product.id = id → dto.imageUrl = none) ∧
      (e.Settles id ∨ ImagesSettled id log) := by
  constructor
  · intro settled
    refine ⟨fun dto product here same => ?_, ?_⟩
    · by_contra given
      obtain ⟨_, none, _⟩ := settled [] dto product log (by rw [here]; rfl) same given
      cases none
    · by_cases now : e.Settles id
      · exact .inl now
      · refine .inr fun later dto product earlier split same given => ?_
        obtain ⟨e', he', settles⟩ :=
          settled (e :: later) dto product earlier (by rw [split]; rfl) same given
        rcases List.mem_cons.1 he' with rfl | older
        · exact absurd settles now
        · exact ⟨e', older, settles⟩
  · rintro ⟨first, rest⟩ later dto product earlier split same given
    cases later with
    | nil =>
      obtain ⟨rfl, rfl⟩ := List.cons.inj split
      exact absurd (first dto product rfl same) given
    | cons e' later =>
      obtain ⟨rfl, rfl⟩ := List.cons.inj split
      rcases rest with now | settled
      · exact ⟨e, List.mem_cons_self, now⟩
      · obtain ⟨e', he', settles⟩ := settled later dto product earlier rfl same given
        exact ⟨e', List.mem_cons_of_mem _ he', settles⟩

lemma imagesSettled_of_fresh {id : ℤ} (fresh : ∀ e ∈ log, e.target ≠ some id) :
    ImagesSettled id log := by
  rintro later dto product earlier rfl rfl
  exact absurd rfl (fresh _ (List.mem_append_right _ List.mem_cons_self))

theorem imageDue_eq_none_iff (empty : ∀ id, w₀.products id = none) (run : CatalogRun v w₀ log w)
    (id : ℤ) : imageDue id log = none ↔ ImagesSettled id log := by
  induction run with
  | start => exact iff_of_true rfl (imagesSettled_of_fresh fun _ here => nomatch here)
  | @serve log w w' request h out run accepted done ih =>
    have effect := request_effect accepted done
    rw [imagesSettled_cons, imageDue]
    by_cases target : (CatalogEvent.mk request out).target = some id
    · rw [if_pos target]
      cases out with
      | error e => cases target
      | ok product =>
        cases request with
        | create dto =>
          obtain rfl : product.id = id := Option.some.inj target
          have settled : ImagesSettled product.id log :=
            imagesSettled_of_fresh (create_fresh (run_tracked empty run) effect)
          simp [CatalogRequest.owes, settled]
        | update id' dto =>
          obtain rfl : id' = id := Option.some.inj target
          simp [CatalogRequest.owes, CatalogEvent.Settles, CatalogEvent.target, ih,
            or_iff_not_imp_left]
        | remove id' =>
          obtain rfl : id' = id := Option.some.inj target
          simp [CatalogRequest.owes, CatalogEvent.Settles, CatalogEvent.target]
    · have notCreate : ∀ dto product, CatalogEvent.mk request out = ⟨.create dto, .ok product⟩ →
          product.id = id → dto.imageUrl = none := by
        rintro dto product same rfl
        exact absurd (same ▸ rfl) target
      have notNow : ¬ (CatalogEvent.mk request out).Settles id := fun settles => target settles.1
      rw [if_neg target, ih, or_iff_right notNow, and_iff_right notCreate]

/-! ## Answers -/

/-- What `findOne` can answer while the database answers. -/
def Answers (w : Catalog) (id : ℤ) (out : Except ProductError Product) : Prop :=
  ∃ h w', Finishes Catalog.exec (fun ch => ch.fails = none) (ProductsService.findOne id) w h out w'

lemma answers_iff {id : ℤ} {out : Except ProductError Product} :
    Answers w id out ↔ out = answerOf w id := by
  constructor
  · rintro ⟨h, w', done⟩
    obtain ⟨-, -, ⟨ch, e, works, fails, -⟩ | answered⟩ := (findOne_meets id []).finishes done
    · rw [works] at fails
      cases fails
    · exact answered
  · rintro rfl
    have read : Catalog.exec {} (.productFindUnique id) w = some (.ok (w.product id), w) := rfl
    refine ⟨_, w, _, .call rfl read (.stop _ _ _), ?_⟩
    unfold answerOf
    cases w.product id with
    | none => rfl
    | some product => rfl

/-- The answer shows these fields, with the category they name, or that there are none. -/
def Shows (w : Catalog) (id : ℤ) (fields : Option ProductRow)
    (out : Except ProductError Product) : Prop :=
  match fields with
  | none => out = .error (ProductsService.notFound id)
  | some row => ∃ c ∈ w.categories, c.id = row.categoryId ∧
      out = .ok { row with id, category := c }

lemma product_of_row {id : ℤ} {row : ProductRow} (stored : w.products id = some row) :
    ∃ c ∈ w.categories, c.id = row.categoryId ∧
      w.product id = some { row with id, category := c } := by
  obtain ⟨c, known, same⟩ := w.related id row stored
  have found : (w.categoryOf row).isSome := List.find?_isSome.2 ⟨c, known, decide_eq_true same⟩
  obtain ⟨c', here⟩ := Option.isSome_iff_exists.1 found
  refine ⟨c', List.mem_of_find?_eq_some here, by simpa using List.find?_some here, ?_⟩
  rw [Catalog.product, stored, Option.bind_some, here, Option.map_some]

lemma shows_answerOf {id : ℤ} {fields : Option ProductRow} :
    Shows w id fields (answerOf w id) ↔ w.products id = fields := by
  unfold answerOf
  cases stored : w.products id with
  | none =>
    have absent : w.product id = none := by rw [Catalog.product, stored, Option.bind_none]
    rw [absent]
    cases fields with
    | none => exact iff_of_true rfl rfl
    | some row => exact iff_of_false (fun ⟨_, _, _, same⟩ => nomatch same) nofun
  | some row =>
    obtain ⟨c, known, same, found⟩ := product_of_row stored
    rw [found]
    cases fields with
    | none => exact iff_of_false nofun nofun
    | some row' =>
      constructor
      · rintro ⟨c', -, -, shown⟩
        have equal := Except.ok.inj shown
        exact congrArg some (congrArg (fun p : Product => p.toProductRow) equal)
      · rintro ⟨⟩
        exact ⟨c, known, same, rfl⟩

lemma notFound_iff {id : ℤ} :
    Answers w id (.error (ProductsService.notFound id)) ↔ w.products id = none := by
  rw [answers_iff, eq_comm]
  exact (shows_answerOf : Shows w id none (answerOf w id) ↔ _)

/-- A request leaves the answers about all other products as they were. -/
lemma answers_frame {request : CatalogRequest} {out : Except ProductError StoredProduct}
    {w' : Catalog} (effect : Effect w request out w') {id : ℤ}
    (other : (CatalogEvent.mk request out).target ≠ some id)
    (answer : Except ProductError Product) : Answers w' id answer ↔ Answers w id answer := by
  have row : w'.products id = w.products id := by rw [effect.rows, if_neg other]
  have product : w'.product id = w.product id := by
    simp only [Catalog.product, row, Catalog.categoryOf, effect.categories]
  rw [answers_iff, answers_iff, answerOf, answerOf, product]

lemma shows_accepted_iff (empty : ∀ id, w₀.products id = none) (run : CatalogRun v w₀ log w)
    (id : ℤ) : (∀ out, Answers w id out →
      Shows w id (foldFor CatalogRequest.gives id log) out) ↔ ImagesSettled id log := by
  rw [← imageDue_eq_none_iff empty run, ← stored_eq_accepted_iff,
    ← (run_tracked empty run).stored, ← shows_answerOf]
  simp only [answers_iff, forall_eq]

/-- What `findOne` answers is what the accepted bodies say exactly while no image given
at creation is due. -/
theorem catalog_stores_accepted_iff (empty : ∀ id, w₀.products id = none)
    (run : CatalogRun v w₀ log w) :
    ((∀ id, (∃ out, Answers w id out) ∧
        ∀ out, Answers w id out → Shows w id (foldFor CatalogRequest.gives id log) out) ∧
      (∀ id, Answers w id (.error (ProductsService.notFound id)) ↔
        WasRemoved id log ∨ ¬ WasCreated id log) ∧
      ∀ request h out w', request.Accepted v →
        Finishes Catalog.exec (fun _ => True) request.serve w h out w' →
        ∀ id, (CatalogEvent.mk request out).target ≠ some id → ∀ answer,
          Answers w' id answer ↔ Answers w id answer) ↔
      ∀ id, ImagesSettled id log := by
  constructor
  · rintro ⟨stores, -, -⟩ id
    exact (shows_accepted_iff empty run id).1 (stores id).2
  · intro settled
    refine ⟨fun id => ⟨⟨_, answers_iff.2 rfl⟩, (shows_accepted_iff empty run id).2 (settled id)⟩,
      fun id => ?_, ?_⟩
    · rw [notFound_iff, absent_iff empty run]
    · intro request h out w' accepted done id other answer
      exact answers_frame (request_effect accepted done) other answer

end Runs

/-! ## A catalog without products -/

def oneCategory : Catalog where
  categories := [{ id := 1, name := "Vinos" }]
  products _ := none
  lastId := 0
  related _ _ stored := nomatch stored
  drawn _ _ stored := nomatch stored

def tintoUrl : String := "https://bajavalle.mx/tinto.png"

def tinto (imageUrl : Option String) : CreateProductDto where
  name := "Tinto"
  description := "Vino tinto"
  features := ["750 ml"]
  specifications := "13.5%"
  price := 450
  imageUrl := imageUrl
  categoryId := 1

def withTintoUrl : UpdateProductDto := { imageUrl := .value tintoUrl }

def urlValidator : ClassValidator := .plain (fun _ => false) (· == tintoUrl)

/-- The request answers a product from here. -/
def Answered (request : CatalogRequest) (w : Catalog) (choices : List Catalog.Choice)
    (next : Catalog → Bool) : Bool :=
  (feed Catalog.exec choices request.serve [] w).any fun end_ =>
    end_.1.outcome.any fun out => out.toOption.any fun product =>
      decide (product.id = 1) && next end_.2.2

lemma run_answered {v : ClassValidator} {w₀ w : Catalog} {log : List CatalogEvent}
    (run : CatalogRun v w₀ log w) {request : CatalogRequest} (accepted : request.Accepted v)
    (choices : List Catalog.Choice) (next : Catalog → Bool)
    (answered : Answered request w choices next = true) :
    ∃ product w', CatalogRun v w₀ (⟨request, .ok product⟩ :: log) w' ∧ product.id = 1 ∧
      next w' = true := by
  have made : ∃ h out w', Finishes Catalog.exec (fun _ => True) request.serve w h out w' ∧
      (out.toOption.any fun product => decide (product.id = 1) && next w') = true :=
    finishes_of_feed choices (fun _ _ => trivial) answered
  obtain ⟨h, out, w', done, shown⟩ := made
  cases out with
  | error e => cases shown
  | ok product =>
    obtain ⟨first, follows⟩ := Bool.and_eq_true_iff.1 shown
    exact ⟨product, w', .serve run accepted done, of_decide_eq_true first, follows⟩

/-- The image given at creation is lost and given again by an update. -/
theorem catalog_stores_accepted_tinto : ∃ log w, log.length = 2 ∧
    CatalogRun urlValidator oneCategory log w ∧ WasCreated 1 log ∧
      ((∀ id, (∃ out, Answers w id out) ∧
        ∀ out, Answers w id out → Shows w id (foldFor CatalogRequest.gives id log) out) ∧
      (∀ id, Answers w id (.error (ProductsService.notFound id)) ↔
        WasRemoved id log ∨ ¬ WasCreated id log) ∧
      ∀ request h out w', request.Accepted urlValidator →
        Finishes Catalog.exec (fun _ => True) request.serve w h out w' →
        ∀ id, (CatalogEvent.mk request out).target ≠ some id → ∀ answer,
          Answers w' id answer ↔ Answers w id answer) := by
  have created : (CatalogRequest.create (tinto (some tintoUrl))).Accepted urlValidator := by
    decide +kernel
  have updated : (CatalogRequest.update 1 withTintoUrl).Accepted urlValidator := by
    decide +kernel
  obtain ⟨product, w₁, first, one, follows⟩ := run_answered .start created [{}]
    (fun w => Answered (.update 1 withTintoUrl) w [{}, {}] fun _ => true)
    (by decide +kernel : Answered _ oneCategory _ _ = true)
  obtain ⟨product', w₂, second, -, -⟩ := run_answered first updated [{}, {}] _ follows
  refine ⟨_, w₂, rfl, second, ⟨_, product, List.mem_cons_of_mem _ List.mem_cons_self, one⟩,
    (catalog_stores_accepted_iff (fun _ => rfl) second).2 fun id => ?_⟩
  refine imagesSettled_cons.2 ⟨nofun, ?_⟩
  by_cases here : id = 1
  · exact .inl ⟨congrArg some here.symm, (nofun : Given.value tintoUrl ≠ .absent)⟩
  · refine .inr (imagesSettled_of_fresh fun e he target => here ?_)
    obtain rfl := List.mem_singleton.1 he
    exact (Option.some.inj target).symm.trans one

/-- The first product that is created with an image has none. -/
theorem create_drops_image : ¬ ∀ log w, CatalogRun urlValidator oneCategory log w →
    ∀ id out, Answers w id out → Shows w id (foldFor CatalogRequest.gives id log) out := by
  intro stores
  have created : (CatalogRequest.create (tinto (some tintoUrl))).Accepted urlValidator := by
    decide +kernel
  obtain ⟨product, w, run, one, -⟩ := run_answered .start created [{}] (fun _ => true)
    (by decide +kernel : Answered _ oneCategory _ _ = true)
  have settled := (shows_accepted_iff (fun _ => rfl) run product.id).1 (stores _ w run product.id)
  obtain ⟨first, -⟩ := imagesSettled_cons.1 settled
  exact Option.some_ne_none _ (first (tinto (some tintoUrl)) product rfl rfl)

end BajaValle
