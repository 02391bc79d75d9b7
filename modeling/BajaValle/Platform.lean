import BajaValle.JsNumber
import BajaValle.Lib.Base64
import BajaValle.Text

/-!
# What the service runs on

`Env` gathers the validated configuration and the parts of the runtime that are
not written in this repository: hashing, authenticated encryption, argon2, the
token library and Unicode data. Ciphers carry the law the code relies on.
-/

namespace BajaValle

/-- A UUID, as its 128-bit value: the database orders UUIDs by it. -/
abbrev Uuid := Nat

inductive Role where
  | ADMIN
  | CLIENT
  deriving DecidableEq, Repr

structure AccessTokenPayload where
  sub : Uuid
  role : Role
  sid : Uuid
  deriving DecidableEq

structure Argon2Params where
  memory : JsNumber
  passes : JsNumber
  parallelism : JsNumber
  deriving DecidableEq

/-- AES-256-GCM: a text is enciphered to a ciphertext and its tag. -/
structure Gcm where
  cipher (key iv aad plaintext : Bytes) : Bytes × Bytes
  decipher (key iv aad : Bytes) (sealed : Bytes × Bytes) : Option Bytes
  decipher_cipher : ∀ key iv aad p, decipher key iv aad (cipher key iv aad p) = some p
  tag_length : ∀ key iv aad p, (cipher key iv aad p).2.length = 16

inductive PrismaError where
  | uniqueViolation
  | foreignKeyViolation
  | recordNotFound
  | unavailable
  deriving DecidableEq, Repr

/-- What a request or a script ends with when it does not return. -/
inductive Failure where
  | badRequest (message : String)
  | unauthorized (message : String)
  | forbidden (message : String)
  | notFound
  | conflict (message : String)
  | decryptionError
  | typeError
  | argon2Error
  | prisma (error : PrismaError)
  | outOfFuel
  deriving DecidableEq, Repr

structure Env where
  ENCRYPTION_KEYS : List (JsNumber × Bytes)
  BLIND_INDEX_KEY : Bytes
  JWT_ACCESS_TTL_SECONDS : Nat
  REFRESH_TOKEN_TTL_DAYS : Nat
  COMMON_PASSWORDS : String → Bool
  unicode : CaseData
  gcm : Gcm
  sha256 : Bytes → Bytes
  hmacSha256 (key message : Bytes) : Bytes
  argon2id (message : String) (nonce : Bytes) (params : Argon2Params) : Option Bytes
  jwtSign (payload : AccessTokenPayload) (issuedAt : Nat) : String
  jwtVerify (token : String) (now : Nat) : Option AccessTokenPayload

def sextetChar (plus slash : Char) (n : Nat) : Char :=
  if n < 26 then Char.ofNat (65 + n)
  else if n < 52 then Char.ofNat (97 + (n - 26))
  else if n < 62 then Char.ofNat (48 + (n - 52))
  else if n = 62 then plus else slash

/-- Buffers decode both alphabets, whichever was asked for. -/
def sextet (c : Char) : Option Nat :=
  if 'A' ≤ c ∧ c ≤ 'Z' then some (c.toNat - 65)
  else if 'a' ≤ c ∧ c ≤ 'z' then some (c.toNat - 97 + 26)
  else if '0' ≤ c ∧ c ≤ '9' then some (c.toNat - 48 + 52)
  else if c = '+' ∨ c = '-' then some 62
  else if c = '/' ∨ c = '_' then some 63
  else none

lemma sextet_byte (c : Char) (letter : (sextet c).isSome = true) : c.toNat < 256 := by
  have range : ∀ {z : Char}, c ≤ z → z.toNat < 256 → c.toNat < 256 :=
    fun le below => Nat.lt_of_le_of_lt (UInt32.le_iff_toNat_le.mp le) below
  unfold sextet at letter
  split at letter
  · rename_i upper
    exact range upper.2 (by decide)
  split at letter
  · rename_i lower
    exact range lower.2 (by decide)
  split at letter
  · rename_i digit
    exact range digit.2 (by decide)
  split at letter
  · rename_i plus
    rcases plus with rfl | rfl <;> decide
  split at letter
  · rename_i slash
    rcases slash with rfl | rfl <;> decide
  · cases letter

def base64 : Base64.Alphabet where
  char := sextetChar '+' '/'
  sextet := sextet
  sextet_char := by decide
  sextet_pad := by decide
  sextet_byte := sextet_byte

def base64url : Base64.Alphabet where
  char := sextetChar '-' '_'
  sextet := sextet
  sextet_char := by decide
  sextet_pad := by decide
  sextet_byte := sextet_byte

lemma dot_notMem_base64url (bs : Bytes) : '.' ∉ (Base64.encode base64url bs).toList := by
  intro h
  obtain ⟨n, hn, hc⟩ := Base64.mem_encode base64url h
  revert n
  decide

/-! An environment small enough to compute runs in: nothing is hidden or hashed. -/

namespace Plain

def unicode : CaseData where
  lower c := if c = 'Σ' then ['σ'] else [c]
  cased _ := false
  caseIgnorable _ := false
  lower_sigma := rfl
  lower_finalSigma := rfl
  lower_ne_nil c := by split <;> simp
  lower_stable c d hd := by
    split at hd
    · obtain rfl := List.mem_singleton.mp hd
      rfl
    · rename_i other
      obtain rfl := List.mem_singleton.mp hd
      simp [other]
  lower_white c d hd white := by
    split at hd
    · obtain rfl := List.mem_singleton.mp hd
      exact absurd white (by decide)
    · obtain rfl := List.mem_singleton.mp hd
      exact white

def tag : Bytes := List.replicate 16 0

def gcm : Gcm where
  cipher _ _ _ plaintext := (plaintext, tag)
  decipher _ _ _ sealed := if sealed.2 = tag then some sealed.1 else none
  decipher_cipher _ _ _ _ := by simp
  tag_length _ _ _ _ := rfl

/-- Ids are written in unary. -/
def jwtSign (payload : AccessTokenPayload) : String :=
  join '.' [String.ofList (List.replicate payload.sub 'a'),
    if payload.role = .ADMIN then "A" else "C", String.ofList (List.replicate payload.sid 'a')]

def jwtVerify (token : String) : Option AccessTokenPayload :=
  match split '.' token with
  | [sub, role, sid] =>
    some { sub := sub.toList.length, role := if role = "A" then .ADMIN else .CLIENT,
           sid := sid.toList.length }
  | _ => none

def env : Env where
  ENCRYPTION_KEYS := [(.finite 1, [1])]
  BLIND_INDEX_KEY := []
  JWT_ACCESS_TTL_SECONDS := 900
  REFRESH_TOKEN_TTL_DAYS := 30
  COMMON_PASSWORDS _ := false
  unicode := unicode
  gcm := gcm
  sha256 := id
  hmacSha256 _ message := message
  argon2id message _ _ := some (utf8 message)
  jwtSign payload _ := jwtSign payload
  jwtVerify token _ := jwtVerify token

end Plain
end BajaValle
