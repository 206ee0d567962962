import Contentv1.Api.Auth
import Contentv1.Lib.Base64
import Contentv1.Lib.OrdMap

/-!
# How a token is issued (`api/v1/APIv1Parsing.cpp`, `api/v1/APIv1Crypto.cpp`)

A client names its pair of keys in the Authorization header of `/token`, as base64 of both with a
colon between them, and gets a token if the pair is one of `m_api_keys`.  `misc/Base64.h` and
`misc/Strings.h` are not part of the repository.
-/

namespace Contentv1

/-- The functions of `misc/Base64.h`. -/
structure MiscBase64 where
  encode : Str → Str
  decode : Str → Str
  decode_encode : ∀ s, decode (encode s) = s
  /-- Three characters are written as four, and what is left of three is padded. -/
  size_encode : ∀ s, (encode s).size = 4 * ((s.size + 2) / 3)

/-- The usual alphabet. -/
def MiscBase64.standard : MiscBase64 where
  encode s := ⟨Base64.encode s.bytes⟩
  decode s := ⟨Base64.decode s.bytes⟩
  decode_encode s := congrArg Str.mk (Base64.decode_encode s.bytes)
  size_encode s := Base64.length_encode s.bytes

/-- `misc::split`. -/
structure MiscSplit where
  split : Str → Fin 256 → List Str
  /-- A string is cut at every separator. -/
  map_bytes_split : ∀ s sep, (split s sep).map Str.bytes = s.bytes.splitOn sep

def MiscSplit.splitOn : MiscSplit where
  split s sep := (s.bytes.splitOn sep).map Str.mk
  map_bytes_split s sep := by
    rw [List.map_map]
    exact List.map_id _

namespace APIv1

/-- The character `:`. -/
def colon : Fin 256 := ⟨58, by decide⟩

def headerBasicMinSize : ℕ := (Str.ofString "Basic XXX").size

def headerBasicPrefix : Str := Str.ofString "Basic "

/-- The text of the error for what is not a pair of keys. -/
def headerParsingError : Str :=
  authBasicHeader ++
    Str.ofString " header parsing error, expecting: 'Basic $API_KEY:$API_SECRET_KEY'"

/-- `_parseApiKeys`: the two keys or the text of the error. -/
def parseApiKeys (base64 : MiscBase64) (strings : MiscSplit) (headers : Headers) :
    Except Str (Str × Str) :=
  match headers.find authBasicHeader with
  | none => .error (authBasicHeader ++ Str.ofString " header not found")
  | some authHeader =>
    if authHeader.size < headerBasicMinSize then
      .error (authBasicHeader ++ Str.ofString " header too small")
    else
      let authInfo := base64.decode (authHeader.substr headerBasicPrefix.size)
      match strings.split authInfo colon with
      | [apiKey, apiSecretKey] =>
        if apiKey.size = 0 ∨ apiSecretKey.size = 0 then .error headerParsingError
        else .ok (apiKey, apiSecretKey)
      | _ => .error headerParsingError

/-! ### Tokens -/

/-- `m_api_keys`: the secret of each key. -/
abbrev ApiKeys := OrdMap Str Str

/-- A year, in seconds. -/
def tokenExpiresIn : ℤ := 3600 * 24 * 365

/-- `_genToken`: a token and how long it lasts.  The random characters are an argument. -/
def genToken (base64 : MiscBase64) (hash : Str → Str) (apiKeys : ApiKeys) (randomStr : Str)
    (apiKey apiSecretKey : Str) : Option (Str × ℤ) :=
  match apiKeys[apiKey]? with
  | none => none
  | some secret =>
    if secret ≠ apiSecretKey then none
    else
      let tokenBody := (base64.encode apiKey).lastN 5 ++ randomStr
      let tokenHash := (hash (tokenBody ++ pepper)).lastN 5
      some (tokenBody ++ tokenHash, tokenExpiresIn)

end APIv1

end Contentv1
