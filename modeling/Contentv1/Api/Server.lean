import Contentv1.Api.Credentials
import Contentv1.Api.SetQueryGroup
import Contentv1.Ldb.QueryDb
import Contentv1.Lib.Machine

/-!
# The API server (`api/v1/APIv1.cpp`, `APIv1HdlQG.cpp`, `APIv1HdlHits.cpp`, `APIv1HdlToken.cpp`)

All eight routes with their handlers, on both databases as they are on disk.  The server is a
machine (`Lib/Machine.lean`): a label is a request as far as its first access to a database, the
second access of a deletion, or a write of the query loop, which works on the same databases.
Handlers run in several threads, but none reads again what it has read, so nothing else can come
between.

Out of the program's hands are whether LevelDB takes a write and the random characters of a token
(`Io`), and how a text is parsed as JSON.
-/

namespace Contentv1

/-! ### Groups and hits in JSON -/

/-- An object with the id of a group and a list of strings; a list without elements is never made
an array. -/
def jsonOfGroup (key : String) (gid : GroupId) (values : List Str) : JsonValue :=
  .object
    [(Str.ofString "gid", .string gid),
      (Str.ofString key, if values.isEmpty then .null else .array (values.map .string))]

def QueryGroup.toJsonValue (qg : QueryGroup) : JsonValue := jsonOfGroup "queries" qg.gid qg.queries

def QueryGroupHits.toJsonValue (hits : QueryGroupHits) : JsonValue :=
  jsonOfGroup "hits" hits.gid hits.hits

namespace APIv1

inductive Method
  | GET
  | POST
  | DELETE
  deriving DecidableEq, Repr

/-- What a member of an answer is set to. -/
inductive Member
  | string (s : Str)
  | int (n : ℤ)
  | json (js : JsonValue)

inductive Body
  | text (s : Str)
  /-- The members of the object that is written. -/
  | object (members : List (Str × Member))

structure Response where
  status : ℕ
  body : Body
  contentType : Str := contentTypeJson

namespace Response

/-- An answer whose members are all strings. -/
def ofStrings (res : APIResponse) : Response :=
  ⟨res.status, .object (res.body.map fun p => (p.1, .string p.2)), res.contentType⟩

def ok : Response := ofStrings .ok

def setAccessDenied (mess : Str) : Response := ofStrings (.setAccessDenied mess)

def setBadRequest (mess : Str) : Response := ofStrings (.setBadRequest mess)

def setInternalError (mess : Str) : Response := ofStrings (.setInternalError mess)

def internalServerError : Response := ofStrings .internalServerError

/-- An answer with more members than the status. -/
def okWith (members : List (Str × Member)) : Response :=
  ⟨200, .object ((Str.ofString "status", .string (Str.ofString "ok")) :: members), contentTypeJson⟩

end Response

/-- What the server is built on. -/
structure Server where
  base64 : MiscBase64
  strings : MiscSplit
  hash : Str → Str
  apiKeys : ApiKeys
  reader : JsonReader
  /-- What `httplib` answers where no route fits. -/
  notFound : Response

/-- What a handler gets from outside while it runs. -/
structure Io where
  /-- The exception of LevelDB on the handler's first write. -/
  writeError : Option Str
  /-- `misc::gen_random_str(6)`. -/
  randomStr : Str

/-- What a handler has come to. -/
inductive Outcome
  | done (res : Response)
  /-- A group is deleted and its hits are to be. -/
  | deleting (gid : GroupId)

variable {pb : QueryGroupPb} {pbHits : QueryGroupHitsPb}

/-- A handler may throw. -/
abbrev Handler (pb : QueryGroupPb) (pbHits : QueryGroupHitsPb) :=
  QueryDb pb pbHits → Io → APIRequest → Except Str Outcome × QueryDb pb pbHits

namespace Server

section Handlers

variable (srv : Server) (db : QueryDb pb pbHits) (io : Io) (req : APIRequest)

/-- `s_version_json_str`. -/
def versionJsonStr : Str := Str.ofString "\x7b\"version\":\"1.0\"\x7d"

def hdlVersion : Except Str Outcome × QueryDb pb pbHits :=
  (.ok (.done ⟨200, .text versionJsonStr, contentTypeJson⟩), db)

def hdlToken : Except Str Outcome × QueryDb pb pbHits :=
  match parseApiKeys srv.base64 srv.strings req.headers with
  | .error errorStr => (.ok (.done (.setAccessDenied errorStr)), db)
  | .ok (apiKey, apiSecretKey) =>
    match genToken srv.base64 srv.hash srv.apiKeys io.randomStr apiKey apiSecretKey with
    | none => (.ok (.done (.setAccessDenied (Str.ofString "check API keys"))), db)
    | some (token, expiresIn) =>
      (.ok (.done (.okWith
        [(Str.ofString "access_token", .string token),
          (Str.ofString "token_type", .string (Str.ofString "Bearer")),
          (Str.ofString "expires_in", .int expiresIn)])), db)

def hdlCheckToken : Except Str Outcome × QueryDb pb pbHits := (.ok (.done .ok), db)

/-- The answer with the ids of the groups; without groups it has no list. -/
def listResponse (cgs : List QueryGroup) : Response :=
  .okWith ((Str.ofString "query_groups_count", .int cgs.length) ::
    if cgs.isEmpty then []
    else [(Str.ofString "query_groups", .json (.array (cgs.map fun cg => .string cg.gid)))])

def hdlGetQueryGroupsList : Except Str Outcome × QueryDb pb pbHits :=
  match db.getAllQG with
  | .error what => (.error what, db)
  | .ok cgs => (.ok (.done (listResponse cgs)), db)

def hdlSetQueryGroup : Except Str Outcome × QueryDb pb pbHits :=
  match srv.reader req.body with
  | .error what => (.error what, db)
  | .ok none => (.ok (.done (.setBadRequest (Str.ofString "err: parsing json req body"))), db)
  | .ok (some _) =>
    -- the body is parsed a second time
    match QueryGroup.fromJson srv.reader req.body with
    | .error what => (.error what, db)
    | .ok qg =>
      match db.saveQG io.writeError qg with
      | (some _, db') =>
        (.ok (.done (.setInternalError (Str.ofString "err: set gid:" ++ qg.gid))), db')
      | (none, db') => (.ok (.done .ok), db')

/-- The parameter `gid`, which three handlers look for first. -/
def gidParam (req : APIRequest) : Option GroupId := req.params.lookup (Str.ofString "gid")

def noGidParam : Response := .setBadRequest (Str.ofString "err: parsing gid param")

def hdlGetQueryGroup : Except Str Outcome × QueryDb pb pbHits :=
  match gidParam req with
  | none => (.ok (.done noGidParam), db)
  | some gid =>
    match db.loadQG gid with
    | .error what => (.error what, db)
    | .ok none => (.ok (.done (.setBadRequest (Str.ofString "err: not exist"))), db)
    | .ok (some qg) =>
      (.ok (.done (.okWith [(Str.ofString "result", .json qg.toJsonValue)])), db)

def deletingError (gid : GroupId) : Response :=
  .setBadRequest (Str.ofString "err: deleting gid:" ++ gid)

/-- `hdlDeleteQueryGroup` as far as its first deletion. -/
def hdlDeleteQueryGroup : Except Str Outcome × QueryDb pb pbHits :=
  match gidParam req with
  | none => (.ok (.done noGidParam), db)
  | some gid =>
    match db.deleteQG io.writeError gid with
    | (some _, db') => (.ok (.done (deletingError gid)), db')
    | (none, db') => (.ok (.deleting gid), db')

/-- The rest of `hdlDeleteQueryGroup`. -/
def hdlDeleteHits (error : Option Str) (gid : GroupId) : Response × QueryDb pb pbHits :=
  match db.deleteQGHits error gid with
  | (some _, db') => (deletingError gid, db')
  | (none, db') => (.ok, db')

def hdlGetHits : Except Str Outcome × QueryDb pb pbHits :=
  match gidParam req with
  | none => (.ok (.done noGidParam), db)
  | some gid =>
    match db.loadQGHits gid with
    | .error what => (.error what, db)
    -- hits that are missing may not have been queried yet
    | .ok hits =>
      (.ok (.done (.okWith [(Str.ofString "result", .json (hits.getD default).toJsonValue)])), db)

end Handlers

/-! ### Routes -/

structure Route (pb : QueryGroupPb) (pbHits : QueryGroupHitsPb) where
  method : Method
  path : Str
  needAuth : Bool
  handler : Handler pb pbHits

/-- `m_routes`. -/
def routes (pb : QueryGroupPb) (pbHits : QueryGroupHitsPb) (srv : Server) :
    List (Route pb pbHits) :=
  [⟨.GET, Str.ofString "/version", false, fun db _ _ => hdlVersion db⟩,
    ⟨.GET, Str.ofString "/token", false, fun db io req => hdlToken srv db io req⟩,
    ⟨.GET, Str.ofString "/check_token", true, fun db _ _ => hdlCheckToken db⟩,
    ⟨.GET, Str.ofString "/get_query_groups_list", true, fun db _ _ => hdlGetQueryGroupsList db⟩,
    ⟨.POST, Str.ofString "/set_query_group", true, fun db io req => hdlSetQueryGroup srv db io req⟩,
    ⟨.DELETE, Str.ofString "/delete_query_group", true,
      fun db io req => hdlDeleteQueryGroup db io req⟩,
    ⟨.GET, Str.ofString "/get_query_group", true, fun db _ req => hdlGetQueryGroup db req⟩,
    ⟨.GET, Str.ofString "/get_hits", true, fun db _ req => hdlGetHits db req⟩]

structure HttpRequest where
  method : Method
  path : Str
  api : APIRequest

/-- `handler_wrap` on a route. -/
def serveRoute (srv : Server) (route : Route pb pbHits) (db : QueryDb pb pbHits) (io : Io)
    (req : APIRequest) : Outcome × QueryDb pb pbHits :=
  match handlerWrap srv.hash route.needAuth (fun req => (route.handler db io req).1) req with
  | .accessDenied mess => (.done (.setAccessDenied mess), db)
  | .internalServerError => (.done .internalServerError, (route.handler db io req).2)
  | .handled outcome => (outcome, (route.handler db io req).2)

def serve (srv : Server) (db : QueryDb pb pbHits) (io : Io) (req : HttpRequest) :
    Outcome × QueryDb pb pbHits :=
  match (routes pb pbHits srv).find? fun route =>
      route.method == req.method && route.path == req.path with
  | none => (.done srv.notFound, db)
  | some route => serveRoute srv route db io req.api

/-! ### The machine -/

structure State (pb : QueryGroupPb) (pbHits : QueryGroupHitsPb) where
  db : QueryDb pb pbHits
  /-- The deletions that are between their two accesses. -/
  deleting : List GroupId

inductive Label
  | request (req : HttpRequest) (io : Io)
  /-- The second deletion of the `i`-th of those that are going on. -/
  | deleteHits (i : ℕ) (error : Option Str)
  /-- The query loop writes the hits of a group. -/
  | saveQGHits (error : Option Str) (hits : QueryGroupHits)

/-- The state after a label and the answer that is sent. -/
def step (srv : Server) (s : State pb pbHits) : Label → Option (State pb pbHits × Option Response)
  | .request req io =>
    match serve srv s.db io req with
    | (.done res, db) => some ({ s with db := db }, some res)
    | (.deleting gid, db) => some (⟨db, gid :: s.deleting⟩, none)
  | .deleteHits i error =>
    s.deleting[i]?.map fun gid =>
      let (res, db) := hdlDeleteHits s.db error gid
      (⟨db, s.deleting.eraseIdx i⟩, some res)
  | .saveQGHits error hits => some ({ s with db := (s.db.saveQGHits error hits).2 }, none)

/-- The answers of a run, one place for each label. -/
def answers (srv : Server) : State pb pbHits → List Label → Option (List (Option Response))
  | _, [] => some []
  | s, a :: l =>
    match step srv s a with
    | none => none
    | some (t, res) => (answers srv t l).map (res :: ·)

/-- Empty databases. -/
def State.init (pb : QueryGroupPb) (pbHits : QueryGroupHitsPb) : State pb pbHits := ⟨⟨∅, ∅⟩, []⟩

end Server

end APIv1

end Contentv1
