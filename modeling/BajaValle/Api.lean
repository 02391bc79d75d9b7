import BajaValle.CatalogRaces
import BajaValle.IdPipes
import BajaValle.Lib.Projections
import BajaValle.Mailing
import BajaValle.Throttling

/-!
# The API

A request passes the guards and the rate limits, and then its handler runs, whose id
is parsed first, between two lines of the log. The accounts, the counters, the
catalog, the mails and the log are components that know nothing of each other, and
the requests of all controllers interleave call by call.
-/

namespace BajaValle

open CallPrograms Prog Interleaving

/-! ## Requests -/

inductive CatalogHandler where
  | findCategories
  | findCategory (id : String)
  | createCategory (dto : CreateCategoryDto)
  | updateCategory (id : String) (dto : UpdateCategoryDto)
  | removeCategory (id : String)
  | findProducts
  | findProduct (id : String)
  | createProduct (dto : CreateProductDto)
  | updateProduct (id : String) (dto : UpdateProductDto)
  | removeProduct (id : String)

namespace CatalogHandler

/-- What the pipes make of the ids. `Number` changes none that an `Int` column can hold. -/
def parse : CatalogHandler → Except BadRequestException ShopRequest
  | .findCategories => .ok .findCategories
  | .findCategory id => (parsePositiveId id PG_INT_MAX).map .findCategory
  | .createCategory dto => .ok (.createCategory dto)
  | .updateCategory id dto => (parsePositiveId id PG_INT_MAX).map (.updateCategory · dto)
  | .removeCategory id => (parsePositiveId id PG_INT_MAX).map .removeCategory
  | .findProducts => .ok .findProducts
  | .findProduct id => (ParseBigIntIdPipe.transform id).map .findProduct
  | .createProduct dto => .ok (.createProduct dto)
  | .updateProduct id dto => (ParseBigIntIdPipe.transform id).map (.updateProduct · dto)
  | .removeProduct id => (ParseBigIntIdPipe.transform id).map .removeProduct

/-- The decorators on both controllers of the catalog. -/
def route : CatalogHandler → Route
  | .findCategories | .findCategory _ | .findProducts | .findProduct _ =>
    { handler := { isPublic := some true } }
  | _ => { handler := { roles := some [.ADMIN] } }

def statusCode : CatalogHandler → Nat
  | .createCategory _ | .createProduct _ => 201
  | _ => 200

end CatalogHandler

def Handler.statusCode : Handler → Nat
  | .register _ => 201
  | .logout | .logoutAll | .changePassword _ _ | .deleteAccount _ => 204
  | _ => 200

/-- What a request is for. One whose body `ValidationPipe` refuses has no handler. -/
inductive ApiHandler where
  | hello
  | account (handler : Handler)
  | catalog (handler : CatalogHandler)
  | mail (request : MailRequest)
  | refused (route : Route) (e : BadRequestException)

namespace ApiHandler

def route : ApiHandler → Route
  | .hello => { controller := { isPublic := some true } }
  | .account handler => handler.route
  | .catalog handler => handler.route
  | .mail _ => { controller := { isPublic := some true, rateLimitPolicy := some .form } }
  | .refused route _ => route

/-- The status of an answer without failure. -/
def statusCode : ApiHandler → Nat
  | .hello | .refused _ _ => 200
  | .account handler => handler.statusCode
  | .catalog handler => handler.statusCode
  | .mail _ => 204

end ApiHandler

structure ApiRequest where
  handler : ApiHandler
  method : String
  url : String
  ip : String
  authorization : Option String := none
  userAgent : Option String := none

inductive ApiAnswer where
  | hello (text : String)
  | account (answer : Answer)
  | catalog (answer : ShopAnswer)
  | noContent
  deriving DecidableEq

inductive ApiFailure where
  | account (failure : Failure)
  | throttled (answer : TooManyRequests)
  | badRequest (e : BadRequestException)
  | catalog (failure : ShopFailure)
  | mail (e : InternalServerErrorException)
  deriving DecidableEq

/-- `err instanceof HttpException ? err.getStatus() : 500` -/
def ApiFailure.status : ApiFailure → Nat
  | .account (.badRequest _) | .badRequest _ => 400
  | .account (.unauthorized _) => 401
  | .account (.forbidden _) => 403
  | .account .notFound | .catalog (.notFound _) => 404
  | .account (.conflict _) => 409
  | .throttled _ => 429
  | _ => 500

/-! ## Components -/

structure LogLine where
  isError : Bool
  text : String
  deriving DecidableEq

inductive ConsoleOp where
  | dateNow
  | write (line : LogLine)
  deriving DecidableEq

@[reducible] def ConsoleOp.Res : ConsoleOp → Type
  | .dateNow => Nat
  | .write _ => Unit

structure Console where
  clock : Nat
  lines : List LogLine

def Console.exec (now : Nat) : (op : ConsoleOp) → Console → Option (op.Res × Console)
  | .dateNow, w => if now < w.clock then none else some (now, { w with clock := now })
  | .write line, w => some ((), { w with lines := w.lines ++ [line] })

structure Counters (Cell : Type) where
  clock : Nat
  cells : String → Option Cell

def Counters.exec {Cell : Type} (storage : ThrottlerStorage Cell) (now : Nat) (x : Increment)
    (w : Counters Cell) : Option (CheckRes x × Counters Cell) :=
  if now < w.clock then none
  else some ((storage.increment now x (w.cells x.key)).1,
    { clock := now,
      cells := Function.update w.cells x.key (some (storage.increment now x (w.cells x.key)).2) })

inductive ApiOp (xl : Exceljs) where
  | account (op : Op)
  | counter (x : Increment)
  | catalog (op : ShopOp)
  | mail (op : MailOp xl)
  | console (op : ConsoleOp)

@[reducible] def ApiOp.Res {xl : Exceljs} : ApiOp xl → Type
  | .account op => op.Res
  | .counter x => CheckRes x
  | .catalog op => op.Res
  | .mail op => op.Res
  | .console op => op.Res

structure ApiWorld (Cell : Type) (xl : Exceljs) where
  accounts : World
  counters : Counters Cell
  catalog : Shop
  mails : MailRoom xl
  console : Console

structure ApiChoice extends Choice where
  catalog : Shop.Choice := {}
  rejects : Bool := false

def apiExec {Cell : Type} (xl : Exceljs) (env : Env) (storage : ThrottlerStorage Cell)
    (ch : ApiChoice) : (op : ApiOp xl) → ApiWorld Cell xl → Option (op.Res × ApiWorld Cell xl)
  | .account op, w =>
    (exec env ch.toChoice op w.accounts).map fun out => (out.1, { w with accounts := out.2 })
  | .counter x, w =>
    (Counters.exec storage ch.now x w.counters).map fun out => (out.1, { w with counters := out.2 })
  | .catalog op, w =>
    (Shop.exec ch.catalog op w.catalog).map fun out => (out.1, { w with catalog := out.2 })
  | .mail op, w =>
    (MailRoom.exec ⟨ch.now, ch.rejects⟩ op w.mails).map fun out =>
      (out.1, { w with mails := out.2 })
  | .console op, w =>
    (Console.exec ch.now op w.console).map fun out => (out.1, { w with console := out.2 })

/-! ## Serving a request -/

/-- What the API is deployed with, and the messages of errors that are not its own. -/
structure Api where
  env : Env
  mail : MailEnv
  limits : RateLimitEnv
  guard : ThrottlerGuard
  message : ApiFailure → String

abbrev ApiTask (api : Api) (α : Type) := Prog (ApiOp api.mail.xl) ApiOp.Res ApiFailure α

section Calls
variable (xl : Exceljs)

def accountCalls : Embedding Op Op.Res (ApiOp xl) ApiOp.Res where
  op := .account
  answer _ r := r
  answered _ r := r
  answer_answered _ _ := rfl

def counterCalls : Embedding Increment CheckRes (ApiOp xl) ApiOp.Res where
  op := .counter
  answer _ r := r
  answered _ r := r
  answer_answered _ _ := rfl

def catalogCalls : Embedding ShopOp ShopOp.Res (ApiOp xl) ApiOp.Res where
  op := .catalog
  answer _ r := r
  answered _ r := r
  answer_answered _ _ := rfl

def mailCalls : Embedding (MailOp xl) MailOp.Res (ApiOp xl) ApiOp.Res where
  op := .mail
  answer _ r := r
  answered _ r := r
  answer_answered _ _ := rfl

end Calls

namespace ApiRequest
variable (api : Api) (req : ApiRequest)

/-- The request as the accounts know it: the others touch neither users nor sessions. -/
def seen : Request where
  handler := match req.handler with
    | .account handler => handler
    | handler => .other handler.route
  authorization := req.authorization
  userAgent := req.userAgent

def handle (user : Option AuthUser) : ApiTask api ApiAnswer :=
  match req.handler with
  | .hello => return .hello "Hello World!"
  | .account _ =>
    .account <$> (BajaValle.handle api.env req.seen user).embed (accountCalls _) .account
  | .catalog handler =>
    match handler.parse with
    | .error e => .throw (.badRequest e)
    | .ok request => .catalog <$> request.run.embed (catalogCalls _) .catalog
  | .mail request => (fun _ => .noContent) <$> (request.run api.mail).embed (mailCalls _) .mail
  | .refused _ e => .throw (.badRequest e)

end ApiRequest

/-- `err instanceof Error ? err.message : …`, where every error is one. -/
def ApiFailure.reason (api : Api) : ApiFailure → String
  | .account (.badRequest message) | .account (.unauthorized message) => message
  | .account (.forbidden message) | .account (.conflict message) => message
  | .account .notFound => "Not Found"
  | .account .decryptionError => "No se pudo descifrar el valor"
  | .catalog (.notFound message) => message
  | .badRequest e => e.message
  | .mail e => e.message
  | .throttled answer => answer.message
  | e => api.message e

namespace LoggingInterceptor
variable (api : Api) (req : ApiRequest)

def received : LogLine := ⟨false, req.method ++ " " ++ req.url ++ " - recibido"⟩

def succeeded (ms : Nat) : LogLine where
  isError := false
  text := req.method ++ " " ++ req.url ++ " - " ++ toString req.handler.statusCode ++ " (" ++
    toString ms ++ "ms)"

def failed (ms : Nat) (err : ApiFailure) : LogLine where
  isError := true
  text := req.method ++ " " ++ req.url ++ " - " ++ toString err.status ++ " (" ++ toString ms ++
    "ms) | " ++ err.reason api

def dateNow : ApiTask api Nat := Prog.perform (ApiOp.console .dateNow)

def write (line : LogLine) : ApiTask api Unit := Prog.perform (ApiOp.console (.write line))

/-- The line about how the handler has ended, and its result. -/
def report (begins : Nat) (out : Except ApiFailure ApiAnswer) : ApiTask api ApiAnswer := do
  let ms := (← dateNow api) - begins
  match out with
  | .ok answer => do
    write api (succeeded req ms)
    return answer
  | .error err => do
    write api (failed api req ms err)
    .throw err

def intercept (next : ApiTask api ApiAnswer) : ApiTask api ApiAnswer := do
  let begins ← dateNow api
  write api (received req)
  let out ← next.attempt
  report api req begins out

end LoggingInterceptor

/-- The guards in the order of their registration, the interceptor, and the handler. -/
def ApiRequest.serve (api : Api) (req : ApiRequest) : ApiTask api ApiAnswer := do
  let user ← (guards req.handler.route req.authorization).embed (accountCalls _) .account
  (AppThrottlerGuard.canActivate api.guard api.limits (user.map fun user => uuidText user.id) req.ip
    req.handler.route).embed (counterCalls _) .throttled
  LoggingInterceptor.intercept api req (req.handle api user)

abbrev ApiConfig (api : Api) (Cell : Type) :=
  Config Nat (ApiWorld Cell api.mail.xl) ApiChoice (ApiOp api.mail.xl) ApiOp.Res ApiFailure
    ApiAnswer

def openApi {Cell : Type} (api : Api) (reqs : Nat → ApiRequest) (w : ApiWorld Cell api.mail.xl) :
    ApiConfig api Cell := start w fun i => (reqs i).serve api

/-- The states that the requests can reach together. -/
abbrev ApiReachable {Cell : Type} (api : Api) (storage : ThrottlerStorage Cell)
    (reqs : Nat → ApiRequest) (w : ApiWorld Cell api.mail.xl) (c : ApiConfig api Cell) : Prop :=
  Interleaving.Leads (apiExec _ api.env storage) (openApi api reqs w) c

end BajaValle
