import BajaValle.Auth

/-!
# JwtAuthGuard and RolesGuard

Both guards read the metadata of the handler and of its controller, where what
the handler says overrides what the controller says.
-/

namespace BajaValle

open CallPrograms

inductive RateLimitPolicy where
  | form
  | auth
  | refresh
  | profile
  deriving DecidableEq, Repr

/-- What the decorators of one target set. -/
structure Metadata where
  isPublic : Option Bool := none
  ignoreAccessToken : Option Bool := none
  roles : Option (List Role) := none
  rateLimitPolicy : Option RateLimitPolicy := none

structure Route where
  handler : Metadata := {}
  controller : Metadata := {}

namespace Route

/-- `reflector.getAllAndOverride(key, [handler, controller])` -/
def getAllAndOverride {β : Type} (r : Route) (key : Metadata → Option β) : Option β :=
  (key r.handler).orElse fun _ => key r.controller

def isPublic (r : Route) : Bool := (r.getAllAndOverride Metadata.isPublic).getD false

def ignoreAccessToken (r : Route) : Bool :=
  (r.getAllAndOverride Metadata.ignoreAccessToken).getD false

def roles (r : Route) : List Role := (r.getAllAndOverride Metadata.roles).getD []

end Route

namespace JwtAuthGuard

def sessionRequired : Failure := .unauthorized "Se requiere iniciar sesión"

/-- `[\w-]+` -/
def isTokenPart (part : String) : Bool :=
  part ≠ "" && part.toList.all fun c => c.isAlphanum || c = '_' || c = '-'

/-- The token that `/^Bearer ([\w-]+\.[\w-]+\.[\w-]+)$/` captures. -/
def bearer (header : String) : Option String :=
  match header.toList with
  | 'B' :: 'e' :: 'a' :: 'r' :: 'e' :: 'r' :: ' ' :: token =>
    let parts := split '.' (String.ofList token)
    if parts.length = 3 ∧ parts.all isTokenPart then some (String.ofList token) else none
  | _ => none

/-- An accepted token of a live session that belongs to the token's user. -/
def authenticate (token : String) : Task AuthUser := do
  match ← perform (.jwtVerify token) with
  | none => Prog.throw SessionsService.sessionInvalid
  | some payload =>
    match ← SessionsService.findActive payload.sid with
    | none => Prog.throw SessionsService.sessionInvalid
    | some (session, user) =>
      if session.userId ≠ payload.sub then Prog.throw SessionsService.sessionInvalid
      else return { id := payload.sub, role := user.role, sessionId := payload.sid }

/-- The user put on the request, if any. An empty header counts as none. -/
def canActivate (route : Route) (authorization : Option String) : Task (Option AuthUser) :=
  if route.isPublic && route.ignoreAccessToken then return none
  else
    match authorization.filter (· ≠ "") with
    | none => if route.isPublic then return none else Prog.throw sessionRequired
    | some header =>
      match bearer header with
      | none => Prog.throw SessionsService.sessionInvalid
      | some token => do
        let user ← authenticate token
        return some user

end JwtAuthGuard

namespace RolesGuard

def notAllowed : Failure := .forbidden "No tienes permiso para esta acción"

def canActivate (route : Route) (user : Option AuthUser) : Except Failure Unit :=
  if route.roles = [] then .ok ()
  else
    match user with
    | none => .error notAllowed
    | some user => if user.role ∈ route.roles then .ok () else .error notAllowed

end RolesGuard

/-- Both guards in the order they are registered. -/
def guards (route : Route) (authorization : Option String) : Task (Option AuthUser) := do
  let user ← JwtAuthGuard.canActivate route authorization
  Prog.ofExcept (RolesGuard.canActivate route user)
  return user

end BajaValle
