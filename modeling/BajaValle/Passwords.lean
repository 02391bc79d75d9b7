import BajaValle.Users
import Mathlib.Algebra.GroupWithZero.Nat
import Mathlib.Data.List.Infix

/-!
# PasswordService

Stored hashes are PHC strings of argon2id. A derivation is one call, which may
fail; the hash that equalises response times is a promise kept by the process
once its first use has started it.
-/

namespace BajaValle

open CallPrograms

namespace JsNumber

/-- `a < b` -/
def lt : JsNumber → JsNumber → Bool
  | .finite a, .finite b => a < b
  | .finite _, .infinity => true
  | .infinity, _ => false

end JsNumber

/-- `s.length`, in UTF-16 code units -/
def utf16Length (s : String) : Nat := (s.toList.map utf16Size).sum

namespace PasswordService

def PARAMS : Argon2Params := ⟨.finite 19456, .finite 2, .finite 1⟩
def SALT_BYTES : Nat := 16
def HASH_BYTES : Nat := 32
def MAX_MEMORY : Nat := 1048576
def MIN_EMAIL_PART : Nat := 4

structure ParsedHash where
  params : Argon2Params
  salt : Bytes
  hash : Bytes
  deriving DecidableEq

/-- `bytes.toString('base64').replace(/=+$/, '')` -/
def toPhcBase64 (bytes : Bytes) : String :=
  String.ofList ((Base64.encodePadded base64 bytes).toList.rdropWhile (· = '='))

/-- `$argon2id$v=19$m=...,t=...,p=...$salt$hash` -/
def phc (params : Argon2Params) (salt hash : Bytes) : String :=
  join '$' ["", "argon2id", "v=19",
    join ',' ["m=" ++ params.memory.toText, "t=" ++ params.passes.toText,
      "p=" ++ params.parallelism.toText],
    toPhcBase64 salt, toPhcBase64 hash]

/-- `(\d+)` after a two-character prefix -/
def parseField (name : Char) (field : String) : Option JsNumber :=
  match field.toList with
  | c :: '=' :: digits =>
    if c = name ∧ digits ≠ [] ∧ digits.all Char.isDigit then some (.ofDigits digits) else none
  | _ => none

def parseParams (text : String) : Option Argon2Params :=
  match split ',' text with
  | [m, t, p] => do
    let memory ← parseField 'm' m
    let passes ← parseField 't' t
    let parallelism ← parseField 'p' p
    return ⟨memory, passes, parallelism⟩
  | _ => none

/-- `[A-Za-z0-9+/]+` -/
def isPhcBase64 (text : String) : Bool :=
  text ≠ "" && text.toList.all fun c => c.isAlphanum || c = '+' || c = '/'

def parse (storedHash : String) : Option ParsedHash :=
  match split '$' storedHash with
  | ["", "argon2id", "v=19", fields, salt, hash] =>
    match parseParams fields with
    | none => none
    | some params =>
      if !isPhcBase64 salt || !isPhcBase64 hash then none
      else if JsNumber.lt (.finite MAX_MEMORY) params.memory ||
          params.passes.lt (.finite 1) || params.parallelism.lt (.finite 1) then none
      else some ⟨params, Base64.decode base64 salt, Base64.decode base64 hash⟩
  | _ => none

def derive (password : String) (salt : Bytes) (params : Argon2Params) : Task Bytes := do
  Prog.ofExcept (← perform (.argon2 password salt params))

def hash (password : String) : Task String := do
  let salt ← perform (.randomBytes SALT_BYTES)
  let hash ← derive password salt PARAMS
  return phc PARAMS salt hash

def verify (storedHash password : String) : Task Bool :=
  match parse storedHash with
  | none => return false
  | some parsed => do
    let candidate ← derive password parsed.salt parsed.params
    return candidate.length = parsed.hash.length && candidate = parsed.hash

/-- `this.dummyHash ??= this.hash(...)`: the first use starts the promise. -/
def startDummy : Task Unit := do
  match ← perform .dummyStart with
  | false => return ()
  | true => do
    let secret ← perform (.randomBytes 32)
    let settled ← (hash (Base64.encodePadded base64 secret)).attempt
    perform (.dummySettle settled)

def verifyAgainstDummy (password : String) : Task Unit := do
  startDummy
  let dummyHash ← Prog.ofExcept (← perform .dummyAwait)
  let _ ← verify dummyHash password
  return ()

def needsRehash (storedHash : String) : Bool :=
  match parse storedHash with
  | none => true
  | some parsed =>
    parsed.params.memory.lt PARAMS.memory || parsed.params.passes.lt PARAMS.passes ||
      parsed.params.parallelism.lt PARAMS.parallelism

def tooCommon : Failure := .badRequest "La contraseña es demasiado común; elige otra"
def containsEmail : Failure := .badRequest "La contraseña no puede contener tu correo"

def assertAcceptable (env : Env) (password : String) (email : Option String) :
    Except Failure Unit :=
  let normalized := toLowerCase env.unicode password
  let localPart := match email with
    | none => ""
    | some email => toLowerCase env.unicode ((split '@' email).headD "")
  if env.COMMON_PASSWORDS normalized then .error tooCommon
  else if MIN_EMAIL_PART ≤ utf16Length localPart ∧ localPart.toList <:+: normalized.toList then
    .error containsEmail
  else .ok ()

end PasswordService
end BajaValle
