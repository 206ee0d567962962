import Contentv1.Api.QueryGroupStore

/-!
# The answers of `/set_query_group` (`api/v1/APIv1.cpp`, `api/v1/APIv1HdlQG.cpp`)

The HTTP answer that a request ends with, and the databases after it.  A handler sets the response
or throws, and `handler_wrap` answers in its place when it throws or was not let through.  Whether
LevelDB takes a write is an argument: the text of its exception, if there is one.
-/

namespace Contentv1

namespace APIv1

def contentTypeJson : Str := Str.ofString "application/json"

/-- `APIResponse`; the body is the object that is written, by its members. -/
structure APIResponse where
  status : ℕ
  body : List (Str × Str)
  contentType : Str := contentTypeJson
  deriving DecidableEq

namespace APIResponse

def statusMember (status : String) : Str × Str := (Str.ofString "status", Str.ofString status)

def ok : APIResponse := ⟨200, [statusMember "ok"], contentTypeJson⟩

/-- The answers that say what was wrong are alike but for the code and the status. -/
def withMessage (code : ℕ) (status : String) (mess : Str) : APIResponse :=
  ⟨code, [statusMember status, (Str.ofString "message", mess)], contentTypeJson⟩

def setAccessDenied (mess : Str) : APIResponse := withMessage 403 "denied" mess

def setBadRequest (mess : Str) : APIResponse := withMessage 400 "bad_request" mess

def setInternalError (mess : Str) : APIResponse := withMessage 500 "internal_error" mess

/-- `sendInternalError`. -/
def internalServerError : APIResponse :=
  ⟨500, [statusMember "internal server error"], contentTypeJson⟩

end APIResponse

/-- The answer that is sent. -/
def Reply.response : Reply APIResponse → APIResponse
  | .accessDenied mess => .setAccessDenied mess
  | .internalServerError => .internalServerError
  | .handled res => res

namespace SetQueryGroup

variable {pb : QueryGroupPb} {pbHits : QueryGroupHitsPb} (reader : JsonReader)
  (saveError : Option Str) (db : QueryDb pb pbHits)

/-- `hdlSetQueryGroup`: a response or an exception, and the databases it leaves. -/
def hdl (req : APIRequest) : Except Str APIResponse × QueryDb pb pbHits :=
  match reader req.body with
  | .error what => (.error what, db)
  | .ok none => (.ok (.setBadRequest (Str.ofString "err: parsing json req body")), db)
  | .ok (some _) =>
    -- the body is parsed a second time
    match QueryGroup.fromJson reader req.body with
    | .error what => (.error what, db)
    | .ok qg =>
      match db.saveQG saveError qg with
      | (some _, db') => (.ok (.setInternalError (Str.ofString "err: set gid:" ++ qg.gid)), db')
      | (none, db') => (.ok .ok, db')

/-- The route `/set_query_group`. -/
def answer (hash : Str → Str) (req : APIRequest) : APIResponse × QueryDb pb pbHits :=
  match handlerWrap hash true (fun req => (hdl reader saveError db req).1) req with
  | .accessDenied mess => (Reply.response (.accessDenied mess), db)
  | reply => (reply.response, (hdl reader saveError db req).2)

end SetQueryGroup

end APIv1

end Contentv1
