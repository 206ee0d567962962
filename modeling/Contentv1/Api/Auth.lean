import Contentv1.Core.Types

/-!
# Access to the API (`api/v1/APIv1Parsing.cpp`, `api/v1/APIv1Crypto.cpp`)

Every route with `need_auth` is guarded by `_auth`, which takes a token from the Authorization
header and checks it.  The hash function of the tokens is to be replaced by a cryptographic one, so
it is any function here.
-/

namespace Contentv1.APIv1

/-- `httplib::Headers`, in the order in which its elements are found. -/
abbrev Headers := List (Str × Str)

def toLower (b : Fin 256) : Fin 256 :=
  if h : 65 ≤ b.val ∧ b.val ≤ 90 then ⟨b.val + 32, by omega⟩ else b

/-- The names of headers are compared without regard to case. -/
def Headers.find (headers : Headers) (name : Str) : Option Str :=
  (headers.find? fun header => header.1.bytes.map toLower == name.bytes.map toLower).map Prod.snd

def authBasicHeader : Str := Str.ofString "Authorization"

def tokenSize : ℕ := 16

def headerBearerPrefix : Str := Str.ofString "Bearer "

def headerBearerExactSize : ℕ := headerBearerPrefix.size + tokenSize

def pepper : Str := Str.ofString "crypto_pepper_string_06.08.24"

/-- `_parseBearer`: the token or the text of the error. -/
def parseBearer (headers : Headers) : Except Str Str :=
  match headers.find authBasicHeader with
  | none => .error (authBasicHeader ++ Str.ofString " header not found")
  | some authHeader =>
    if authHeader.size ≠ headerBearerExactSize then
      .error (authBasicHeader ++ Str.ofString " header wrong size")
    else .ok (authHeader.substr headerBearerPrefix.size)

/-- `_checkToken`. -/
def checkToken (hash : Str → Str) (token : Str) : Bool :=
  if token.size ≠ tokenSize then false
  else
    let tokenBody := token.first 11
    let tokenHash := token.lastN 5
    (hash (tokenBody ++ pepper)).lastN 5 == tokenHash

/-- `_auth`: nothing or the text of the error. -/
def auth (hash : Str → Str) (headers : Headers) : Except Str Unit :=
  match parseBearer headers with
  | .error errorStr => .error errorStr
  | .ok token => if checkToken hash token then .ok () else .error (Str.ofString "bad token")

/-! ### The routes -/

structure APIRequest where
  headers : Headers
  body : Str
  params : List (Str × Str)

/-- What becomes of a request: access is denied with a message, the handler throws or it is done. -/
inductive Reply (ρ : Type)
  | accessDenied (mess : Str)
  | internalServerError
  | handled (res : ρ)
  deriving DecidableEq

/-- `handler_wrap` on a route. -/
def handlerWrap {ρ : Type} (hash : Str → Str) (needAuth : Bool)
    (handler : APIRequest → Except Str ρ) (req : APIRequest) : Reply ρ :=
  let call : Reply ρ :=
    match handler req with
    | .error _ => .internalServerError
    | .ok res => .handled res
  if needAuth then
    match auth hash req.headers with
    | .error errorStr => .accessDenied errorStr
    | .ok () => call
  else call

end Contentv1.APIv1
