import Contentv1.Api.Server
import Contentv1.Api.Equiv.SetQueryGroup
import Contentv1.Ldb.Equiv.QueryDb

/-!
# What the API server does to its store

A client of the API sees groups and hits, not dumps, routes or headers.  `Store` is what it works
on: a request is a command (`command`), and a command is a lookup or an update (`Store.perform`).

* `answers_eq_store`: in every run, deletions in two steps and writes of the query loop included,
  the server answers what the store does.
* `run_filter_mayWrite`: requests that are refused or only read leave no trace.
* `set_of_get`: a group that is put back as it was answered stays as it was.
-/

namespace Contentv1

namespace APIv1.Server

/-! ### The store -/

structure Store where
  groups : OrdMap GroupId QueryGroup
  hits : OrdMap GroupId QueryGroupHits

inductive Command
  /-- What is answered without the store. -/
  | answered (res : Response)
  | getList
  | set (qg : QueryGroup)
  | get (gid : GroupId)
  | delete (gid : GroupId)
  | getHits (gid : GroupId)

inductive Endpoint
  | version
  | token
  | checkToken
  | getQueryGroupsList
  | setQueryGroup
  | deleteQueryGroup
  | getQueryGroup
  | getHits
  deriving DecidableEq

namespace Endpoint

def all : List Endpoint :=
  [version, token, checkToken, getQueryGroupsList, setQueryGroup, deleteQueryGroup, getQueryGroup,
    getHits]

def method : Endpoint → Method
  | setQueryGroup => .POST
  | deleteQueryGroup => .DELETE
  | _ => .GET

def path : Endpoint → Str
  | version => Str.ofString "/version"
  | token => Str.ofString "/token"
  | checkToken => Str.ofString "/check_token"
  | getQueryGroupsList => Str.ofString "/get_query_groups_list"
  | setQueryGroup => Str.ofString "/set_query_group"
  | deleteQueryGroup => Str.ofString "/delete_query_group"
  | getQueryGroup => Str.ofString "/get_query_group"
  | getHits => Str.ofString "/get_hits"

def needAuth : Endpoint → Bool
  | version | token => false
  | _ => true

/-- The endpoint that a request is for. -/
def ofRequest (req : HttpRequest) : Option Endpoint :=
  all.find? fun e => e.method == req.method && e.path == req.path

end Endpoint

/-- The answer of `/token`. -/
def tokenResponse (srv : Server) (randomStr : Str) (req : APIRequest) : Response :=
  match parseApiKeys srv.base64 srv.strings req.headers with
  | .error errorStr => .setAccessDenied errorStr
  | .ok (apiKey, apiSecretKey) =>
    match genToken srv.base64 srv.hash srv.apiKeys randomStr apiKey apiSecretKey with
    | none => .setAccessDenied (Str.ofString "check API keys")
    | some (token, expiresIn) =>
      .okWith
        [(Str.ofString "access_token", .string token),
          (Str.ofString "token_type", .string (Str.ofString "Bearer")),
          (Str.ofString "expires_in", .int expiresIn)]

/-- A command on the group that the request names. -/
def onGid (req : APIRequest) (onGroup : GroupId → Command) : Command :=
  (gidParam req).elim (.answered noGidParam) onGroup

/-- What a request to an endpoint asks for. -/
def Endpoint.command (srv : Server) (randomStr : Str) (req : APIRequest) : Endpoint → Command
  | version => .answered ⟨200, .text versionJsonStr, contentTypeJson⟩
  | token => .answered (tokenResponse srv randomStr req)
  | checkToken => .answered .ok
  | getQueryGroupsList => .getList
  | setQueryGroup =>
    match srv.reader req.body with
    | .error _ => .answered .internalServerError
    | .ok none => .answered (.setBadRequest (Str.ofString "err: parsing json req body"))
    | .ok (some js) =>
      match QueryGroup.fromJsonValue js with
      | .error _ => .answered .internalServerError
      | .ok qg => .set qg
  | deleteQueryGroup => onGid req .delete
  | getQueryGroup => onGid req .get
  | getHits => onGid req .getHits

/-- What a request asks for, if it is let through. -/
def command (srv : Server) (randomStr : Str) (req : HttpRequest) : Command :=
  match Endpoint.ofRequest req with
  | none => .answered srv.notFound
  | some e =>
    match if e.needAuth then auth srv.hash req.api.headers else .ok () with
    | .error mess => .answered (.setAccessDenied mess)
    | .ok () => e.command srv randomStr req.api

namespace Store

def perform (s : Store) (writeError : Option Str) : Command → Outcome × Store
  | .answered res => (.done res, s)
  | .getList =>
    -- one unreadable group is enough for there to be no list
    if ∀ qg ∈ s.groups.toList.map Prod.snd, qg.Valid then
      (.done (listResponse (s.groups.toList.map Prod.snd)), s)
    else (.done .internalServerError, s)
  | .set qg =>
    if writeError.isSome then
      (.done (.setInternalError (Str.ofString "err: set gid:" ++ qg.gid)), s)
    else (.done .ok, { s with groups := s.groups.insert qg.gid qg })
  | .get gid =>
    match s.groups[gid]? with
    | none => (.done (.setBadRequest (Str.ofString "err: not exist")), s)
    | some qg =>
      if qg.Valid then
        (.done (.okWith [(Str.ofString "result", .json qg.toJsonValue)]), s)
      else (.done .internalServerError, s)
  | .delete gid =>
    if writeError.isSome then (.done (deletingError gid), s)
    else (.deleting gid, { s with groups := s.groups.erase gid })
  | .getHits gid =>
    if ((s.hits[gid]?).getD default).Valid then
      (.done (.okWith
        [(Str.ofString "result", .json ((s.hits[gid]?).getD default).toJsonValue)]), s)
    else (.done .internalServerError, s)

def deleteHits (s : Store) (error : Option Str) (gid : GroupId) : Response × Store :=
  if error.isSome then (deletingError gid, s) else (.ok, { s with hits := s.hits.erase gid })

def saveHits (s : Store) (error : Option Str) (hits : QueryGroupHits) : Store :=
  if error.isSome then s else { s with hits := s.hits.insert hits.gid hits }

/-- The answers of a run on the store. -/
def answers (srv : Server) : Store → List GroupId → List Label → Option (List (Option Response))
  | _, _, [] => some []
  | s, deleting, .request req io :: l =>
    match s.perform io.writeError (command srv io.randomStr req) with
    | (.done res, s) => (answers srv s deleting l).map (some res :: ·)
    | (.deleting gid, s) => (answers srv s (gid :: deleting) l).map (none :: ·)
  | s, deleting, .deleteHits i error :: l =>
    match deleting[i]? with
    | none => none
    | some gid =>
      (answers srv (s.deleteHits error gid).2 (deleting.eraseIdx i) l).map
        (some (s.deleteHits error gid).1 :: ·)
  | s, deleting, .saveQGHits error hits :: l =>
    (answers srv (s.saveHits error hits) deleting l).map (none :: ·)

end Store

/-! ### The databases and the store -/

variable {pb : QueryGroupPb} {pbHits : QueryGroupHitsPb} {srv : Server}

/-- The databases with the dumps of a store. -/
def Store.dumps (pb : QueryGroupPb) (pbHits : QueryGroupHitsPb) (s : Store) :
    QueryDb pb pbHits :=
  ⟨DumpDb.dumpsOf pb s.groups, DumpDb.dumpsOf pbHits s.hits⟩

theorem dumps_empty : Store.dumps pb pbHits ⟨∅, ∅⟩ = (State.init pb pbHits).db := by
  unfold Store.dumps
  rw [DumpDb.dumpsOf_empty, DumpDb.dumpsOf_empty]
  rfl

/-- The endpoints are the routes. -/
def Endpoint.handler (srv : Server) : Endpoint → Handler pb pbHits
  | version => fun db _ _ => hdlVersion db
  | token => fun db io req => hdlToken srv db io req
  | checkToken => fun db _ _ => hdlCheckToken db
  | getQueryGroupsList => fun db _ _ => hdlGetQueryGroupsList db
  | setQueryGroup => fun db io req => hdlSetQueryGroup srv db io req
  | deleteQueryGroup => fun db io req => hdlDeleteQueryGroup db io req
  | getQueryGroup => fun db _ req => hdlGetQueryGroup db req
  | getHits => fun db _ req => hdlGetHits db req

theorem routes_eq_map (srv : Server) :
    routes pb pbHits srv
      = Endpoint.all.map fun e => ⟨e.method, e.path, e.needAuth, e.handler srv⟩ := rfl

/-- What an exception is answered with. -/
def caught : Except Str Outcome → Outcome
  | .error _ => .done .internalServerError
  | .ok outcome => outcome

/-- **A handler** on the dumps of a store does what its command does to the store. -/
theorem handler_dumps (srv : Server) (e : Endpoint) (s : Store) (io : Io) (req : APIRequest) :
    caught (e.handler srv (s.dumps pb pbHits) io req).1
        = (s.perform io.writeError (e.command srv io.randomStr req)).1 ∧
      (e.handler srv (s.dumps pb pbHits) io req).2
        = (s.perform io.writeError (e.command srv io.randomStr req)).2.dumps pb pbHits := by
  cases e with
  | version => exact ⟨rfl, rfl⟩
  | token =>
    unfold Endpoint.handler Endpoint.command hdlToken tokenResponse Store.perform
    dsimp only
    cases parseApiKeys srv.base64 srv.strings req.headers with
    | error errorStr => exact ⟨rfl, rfl⟩
    | ok keys =>
      dsimp only
      cases genToken srv.base64 srv.hash srv.apiKeys io.randomStr keys.1 keys.2 <;> exact ⟨rfl, rfl⟩
  | checkToken => exact ⟨rfl, rfl⟩
  | getQueryGroupsList =>
    unfold Endpoint.handler Endpoint.command hdlGetQueryGroupsList Store.perform
      QueryDb.getAllQG
    dsimp only [Store.dumps]
    rw [DumpDb.scanFull_dumpsOf]
    by_cases hvalid : ∀ qg ∈ s.groups.toList.map Prod.snd, ∀ str ∈ qg.strings, str.IsValidUTF8
    · have hgroups : ∀ qg ∈ s.groups.toList.map Prod.snd, qg.Valid := hvalid
      rw [if_pos hvalid, if_pos hgroups]
      exact ⟨rfl, rfl⟩
    · have hgroups : ¬ ∀ qg ∈ s.groups.toList.map Prod.snd, qg.Valid := hvalid
      rw [if_neg hvalid, if_neg hgroups]
      exact ⟨rfl, rfl⟩
  | setQueryGroup =>
    unfold Endpoint.handler Endpoint.command hdlSetQueryGroup QueryGroup.fromJson
    dsimp only
    cases srv.reader req.body with
    | error what => exact ⟨rfl, rfl⟩
    | ok parsed =>
      cases parsed with
      | none => exact ⟨rfl, rfl⟩
      | some js =>
        dsimp only
        cases QueryGroup.fromJsonValue js with
        | error what => exact ⟨rfl, rfl⟩
        | ok qg =>
          unfold Store.perform QueryDb.saveQG DumpDb.tryWrite
          dsimp only
          cases io.writeError with
          | some what => exact ⟨rfl, rfl⟩
          | none =>
            refine ⟨rfl, ?_⟩
            show (⟨(DumpDb.dumpsOf pb s.groups).insert qg.gid (pb.serialize qg),
              DumpDb.dumpsOf pbHits s.hits⟩ : QueryDb pb pbHits) = _
            rw [DumpDb.insert_dumpsOf]
            rfl
  | deleteQueryGroup =>
    unfold Endpoint.handler Endpoint.command hdlDeleteQueryGroup onGid
    dsimp only
    cases gidParam req with
    | none => exact ⟨rfl, rfl⟩
    | some gid =>
      unfold QueryDb.deleteQG DumpDb.tryWrite
      dsimp only [Option.elim]
      unfold Store.perform
      cases io.writeError with
      | some what => exact ⟨rfl, rfl⟩
      | none =>
        refine ⟨rfl, ?_⟩
        show (⟨(DumpDb.dumpsOf pb s.groups).erase gid, DumpDb.dumpsOf pbHits s.hits⟩ :
          QueryDb pb pbHits) = _
        rw [DumpDb.erase_dumpsOf]
        rfl
  | getQueryGroup =>
    unfold Endpoint.handler Endpoint.command hdlGetQueryGroup onGid
    dsimp only
    cases gidParam req with
    | none => exact ⟨rfl, rfl⟩
    | some gid =>
      unfold QueryDb.loadQG Store.perform
      dsimp only [Store.dumps, Option.elim]
      cases hqg : s.groups[gid]? with
      | none =>
        rw [DumpDb.load_dumpsOf_eq_none hqg]
        exact ⟨rfl, rfl⟩
      | some qg =>
        rw [DumpDb.load_dumpsOf_eq_some hqg]
        dsimp only
        by_cases hvalid : ∀ str ∈ qg.strings, str.IsValidUTF8
        · have hgroup : qg.Valid := hvalid
          rw [if_pos hvalid, if_pos hgroup]
          exact ⟨rfl, rfl⟩
        · have hgroup : ¬ qg.Valid := hvalid
          rw [if_neg hvalid, if_neg hgroup]
          exact ⟨rfl, rfl⟩
  | getHits =>
    unfold Endpoint.handler Endpoint.command hdlGetHits onGid
    dsimp only
    cases gidParam req with
    | none => exact ⟨rfl, rfl⟩
    | some gid =>
      unfold QueryDb.loadQGHits Store.perform
      dsimp only [Store.dumps, Option.elim]
      cases hhits : s.hits[gid]? with
      | none =>
        have hvalid : (default : QueryGroupHits).Valid := by decide
        rw [DumpDb.load_dumpsOf_eq_none hhits, Option.getD_none, if_pos hvalid]
        exact ⟨rfl, rfl⟩
      | some hits =>
        rw [DumpDb.load_dumpsOf_eq_some hhits, Option.getD_some]
        by_cases hvalid : ∀ str ∈ hits.strings, str.IsValidUTF8
        · have hhits' : hits.Valid := hvalid
          rw [if_pos hvalid, if_pos hhits']
          exact ⟨rfl, rfl⟩
        · have hhits' : ¬ hits.Valid := hvalid
          rw [if_neg hvalid, if_neg hhits']
          exact ⟨rfl, rfl⟩

/-- A route lets its handler run where access is granted. -/
theorem serveRoute_eq (srv : Server) (route : Route pb pbHits) (db : QueryDb pb pbHits)
    (io : Io) (req : APIRequest) :
    serveRoute srv route db io req
      = match if route.needAuth then auth srv.hash req.headers else .ok () with
        | .error mess => (.done (.setAccessDenied mess), db)
        | .ok () => (caught (route.handler db io req).1, (route.handler db io req).2) := by
  unfold serveRoute handlerWrap
  dsimp only
  cases route.needAuth with
  | false =>
    rw [if_neg Bool.false_ne_true, if_neg Bool.false_ne_true]
    cases (route.handler db io req).1 <;> rfl
  | true =>
    rw [if_pos rfl, if_pos rfl]
    cases auth srv.hash req.headers with
    | error mess => rfl
    | ok _ => cases (route.handler db io req).1 <;> rfl

/-- **A request** does to the dumps what its command does to the store. -/
theorem serve_dumps (srv : Server) (s : Store) (io : Io) (req : HttpRequest) :
    serve srv (s.dumps pb pbHits) io req
      = ((s.perform io.writeError (command srv io.randomStr req)).1,
          (s.perform io.writeError (command srv io.randomStr req)).2.dumps pb pbHits) := by
  have hroute : ((routes pb pbHits srv).find? fun route =>
      route.method == req.method && route.path == req.path)
        = (Endpoint.ofRequest req).map fun e => ⟨e.method, e.path, e.needAuth, e.handler srv⟩ := by
    rw [routes_eq_map, List.find?_map]
    rfl
  unfold serve command
  rw [hroute]
  cases Endpoint.ofRequest req with
  | none => rfl
  | some e =>
    obtain ⟨hreply, hdb⟩ : caught (e.handler srv (s.dumps pb pbHits) io req.api).1 = _ ∧ _ :=
      handler_dumps srv e s io req.api
    dsimp only [Option.map_some]
    rw [serveRoute_eq]
    dsimp only
    cases if e.needAuth then auth srv.hash req.api.headers else .ok () with
    | error mess => rfl
    | ok _ =>
      dsimp only
      rw [hreply, hdb]

theorem hdlDeleteHits_dumps (s : Store) (error : Option Str) (gid : GroupId) :
    hdlDeleteHits (s.dumps pb pbHits) error gid
      = ((s.deleteHits error gid).1, (s.deleteHits error gid).2.dumps pb pbHits) := by
  unfold hdlDeleteHits QueryDb.deleteQGHits DumpDb.tryWrite Store.deleteHits
  cases error with
  | some what => rfl
  | none =>
    show (Response.ok, (⟨DumpDb.dumpsOf pb s.groups, (DumpDb.dumpsOf pbHits s.hits).erase gid⟩ :
      QueryDb pb pbHits)) = _
    rw [DumpDb.erase_dumpsOf]
    rfl

theorem saveQGHits_dumps (s : Store) (error : Option Str) (hits : QueryGroupHits) :
    ((s.dumps pb pbHits).saveQGHits error hits).2 = (s.saveHits error hits).dumps pb pbHits := by
  unfold QueryDb.saveQGHits DumpDb.tryWrite Store.saveHits
  cases error with
  | some what => rfl
  | none =>
    show (⟨DumpDb.dumpsOf pb s.groups,
      (DumpDb.dumpsOf pbHits s.hits).insert hits.gid (pbHits.serialize hits)⟩ :
        QueryDb pb pbHits) = _
    rw [DumpDb.insert_dumpsOf]
    rfl

/-! ### Runs -/

theorem answers_dumps (srv : Server) (s : Store) (deleting : List GroupId) (l : List Label) :
    answers srv ⟨s.dumps pb pbHits, deleting⟩ l = s.answers srv deleting l := by
  induction l generalizing s deleting with
  | nil => rfl
  | cons a l ih =>
    cases a with
    | request req io =>
      unfold answers step Store.answers
      dsimp only
      rw [serve_dumps]
      cases hperform : s.perform io.writeError (command srv io.randomStr req) with
      | mk outcome s' =>
        cases outcome with
        | done res =>
          dsimp only
          rw [ih]
        | deleting gid =>
          dsimp only
          rw [ih]
    | deleteHits i error =>
      unfold answers step Store.answers
      dsimp only
      cases deleting[i]? with
      | none => rfl
      | some gid =>
        dsimp only [Option.map_some]
        rw [hdlDeleteHits_dumps]
        dsimp only
        rw [ih]
    | saveQGHits error hits =>
      unfold answers step Store.answers
      dsimp only
      rw [saveQGHits_dumps, ih]

/-- **The server is its store.**  In every run on new databases, whatever is requested and however
deletions, failed writes and writes of the query loop come in between, each answer is that of the
store. -/
theorem answers_eq_store (pb : QueryGroupPb) (pbHits : QueryGroupHitsPb) (srv : Server)
    (l : List Label) :
    answers srv (State.init pb pbHits) l = Store.answers srv ⟨∅, ∅⟩ [] l := by
  rw [← answers_dumps, dumps_empty]
  rfl

/-! ### Requests that leave no trace -/

/-- A step that may change something: a deletion or a write of a client with a token, and what is
not a client's. -/
def mayWrite (srv : Server) : Label → Bool
  | .request req _ =>
    (Endpoint.ofRequest req == some .setQueryGroup ||
        Endpoint.ofRequest req == some .deleteQueryGroup) &&
      match auth srv.hash req.api.headers with
      | .error _ => false
      | .ok () => true
  | .deleteHits _ _ | .saveQGHits _ _ => true

/-- The handlers that only read answer, and leave the databases as they are. -/
theorem exists_handler_eq (srv : Server) {e : Endpoint} (hset : e ≠ .setQueryGroup)
    (hdelete : e ≠ .deleteQueryGroup) (db : QueryDb pb pbHits) (io : Io) (req : APIRequest) :
    ∃ res, caught (e.handler srv db io req).1 = .done res ∧ (e.handler srv db io req).2 = db := by
  cases e with
  | version => exact ⟨_, rfl, rfl⟩
  | token =>
    unfold Endpoint.handler hdlToken
    dsimp only
    cases parseApiKeys srv.base64 srv.strings req.headers with
    | error errorStr => exact ⟨_, rfl, rfl⟩
    | ok keys =>
      dsimp only
      cases genToken srv.base64 srv.hash srv.apiKeys io.randomStr keys.1 keys.2 <;>
        exact ⟨_, rfl, rfl⟩
  | checkToken => exact ⟨_, rfl, rfl⟩
  | getQueryGroupsList =>
    unfold Endpoint.handler hdlGetQueryGroupsList
    dsimp only
    cases db.getAllQG <;> exact ⟨_, rfl, rfl⟩
  | setQueryGroup => exact absurd rfl hset
  | deleteQueryGroup => exact absurd rfl hdelete
  | getQueryGroup =>
    unfold Endpoint.handler hdlGetQueryGroup
    dsimp only
    cases gidParam req with
    | none => exact ⟨_, rfl, rfl⟩
    | some gid =>
      dsimp only
      rcases db.loadQG gid with what | _ | qg <;> exact ⟨_, rfl, rfl⟩
  | getHits =>
    unfold Endpoint.handler hdlGetHits
    dsimp only
    cases gidParam req with
    | none => exact ⟨_, rfl, rfl⟩
    | some gid =>
      dsimp only
      cases db.loadQGHits gid <;> exact ⟨_, rfl, rfl⟩

theorem exists_serve_eq {req : HttpRequest} {io : Io}
    (h : mayWrite srv (.request req io) = false) (db : QueryDb pb pbHits) :
    ∃ res, serve srv db io req = (.done res, db) := by
  have hroute : ((routes pb pbHits srv).find? fun route =>
      route.method == req.method && route.path == req.path)
        = (Endpoint.ofRequest req).map fun e => ⟨e.method, e.path, e.needAuth, e.handler srv⟩ := by
    rw [routes_eq_map, List.find?_map]
    rfl
  unfold serve
  rw [hroute]
  unfold mayWrite at h
  dsimp only at h
  cases hreq : Endpoint.ofRequest req with
  | none => exact ⟨_, rfl⟩
  | some e =>
    dsimp only [Option.map_some]
    rw [serveRoute_eq]
    dsimp only
    rw [hreq] at h
    by_cases hwrite : e = .setQueryGroup ∨ e = .deleteQueryGroup
    · -- a client without a token
      have hauth : e.needAuth = true := by
        rcases hwrite with rfl | rfl <;> rfl
      have hdenied : ∃ mess, auth srv.hash req.api.headers = .error mess := by
        cases hcheck : auth srv.hash req.api.headers with
        | error mess => exact ⟨mess, rfl⟩
        | ok _ =>
          rw [hcheck] at h
          rcases hwrite with rfl | rfl <;> cases h
      obtain ⟨mess, hmess⟩ := hdenied
      rw [if_pos hauth, hmess]
      exact ⟨_, rfl⟩
    · rw [not_or] at hwrite
      cases if e.needAuth then auth srv.hash req.api.headers else .ok () with
      | error mess => exact ⟨_, rfl⟩
      | ok _ =>
        obtain ⟨res, hres, hdb⟩ := exists_handler_eq srv hwrite.1 hwrite.2 db io req.api
        dsimp only
        rw [hres, hdb]
        exact ⟨res, rfl⟩

/-- The state after a run. -/
def run (srv : Server) (s : State pb pbHits) (l : List Label) : Option (State pb pbHits) :=
  Machine.run (fun s a => (step srv s a).map Prod.fst) s l

theorem run_cons (s : State pb pbHits) (a : Label) (l : List Label) :
    run srv s (a :: l) = (step srv s a).bind fun p => run srv p.1 l := by
  unfold run
  rw [Machine.run, Option.bind_map]
  rfl

theorem answers_cons (s : State pb pbHits) (a : Label) (l : List Label) :
    answers srv s (a :: l)
      = (step srv s a).bind fun p => (answers srv p.1 l).map (p.2 :: ·) := by
  rw [answers]
  cases step srv s a <;> rfl

/-- **Requests leave no trace** where they are refused or only read: without them a run ends in the
same state, and what is left of it is answered in the same way. -/
theorem run_filter_mayWrite (pb : QueryGroupPb) (pbHits : QueryGroupHitsPb) (srv : Server)
    (s : State pb pbHits) (l : List Label) :
    run srv s (l.filter (mayWrite srv)) = run srv s l ∧
      answers srv s (l.filter (mayWrite srv))
        = (answers srv s l).map fun res =>
            ((l.zip res).filter fun p => mayWrite srv p.1).map Prod.snd := by
  induction l generalizing s with
  | nil => exact ⟨rfl, rfl⟩
  | cons a l ih =>
    cases ha : mayWrite srv a with
    | true =>
      rw [List.filter_cons_of_pos ha, run_cons, run_cons, answers_cons, answers_cons]
      cases step srv s a with
      | none => exact ⟨rfl, rfl⟩
      | some p =>
        obtain ⟨hrun, hanswers⟩ := ih p.1
        refine ⟨hrun, ?_⟩
        rw [Option.bind_some, Option.bind_some, hanswers, Option.map_map, Option.map_map]
        congr 1
        funext res
        simp [ha]
    | false =>
      have hnot : ¬ mayWrite srv a = true := by
        rw [ha]
        exact Bool.false_ne_true
      have hstep : ∃ res, step srv s a = some (s, some res) := by
        cases a with
        | request req io =>
          obtain ⟨res, hres⟩ := exists_serve_eq ha s.db
          refine ⟨res, ?_⟩
          unfold step
          dsimp only
          rw [hres]
        | deleteHits i error => cases ha
        | saveQGHits error hits => cases ha
      obtain ⟨res, hres⟩ := hstep
      obtain ⟨hrun, hanswers⟩ := ih s
      rw [List.filter_cons_of_neg hnot, run_cons, answers_cons, hres, Option.bind_some,
        Option.bind_some, hrun, hanswers, Option.map_map]
      refine ⟨rfl, ?_⟩
      congr 1
      funext rest
      simp [ha]

/-! ### Putting a group back -/

/-- A group is stored under its own id. -/
def Store.Keyed (s : Store) : Prop :=
  ∀ (gid : GroupId) (qg : QueryGroup), s.groups[gid]? = some qg → qg.gid = gid

theorem keyed_perform {s : Store} (hs : s.Keyed) (writeError : Option Str) (command : Command) :
    (s.perform writeError command).2.Keyed := by
  unfold Store.perform
  cases command with
  | answered res => exact hs
  | getList =>
    dsimp only
    split_ifs <;> exact hs
  | set qg =>
    dsimp only
    split_ifs
    · exact hs
    · intro gid qg' h
      dsimp only at h
      rw [OrdMap.getElem?_insert] at h
      split_ifs at h with heq
      · exact Option.some.inj h ▸ heq
      · exact hs gid qg' h
  | get gid =>
    dsimp only
    cases s.groups[gid]? with
    | none => exact hs
    | some qg =>
      dsimp only
      split_ifs <;> exact hs
  | delete gid =>
    dsimp only
    split_ifs
    · exact hs
    · intro gid' qg h
      dsimp only at h
      rw [OrdMap.getElem?_erase] at h
      split_ifs at h
      exact hs gid' qg h
  | getHits gid =>
    dsimp only
    split_ifs <;> exact hs

/-- What a label does to the store. -/
def Store.next (srv : Server) (s : Store) (deleting : List GroupId) : Label → Store
  | .request req io => (s.perform io.writeError (command srv io.randomStr req)).2
  | .deleteHits i error => (deleting[i]?).elim s fun gid => (s.deleteHits error gid).2
  | .saveQGHits error hits => s.saveHits error hits

theorem step_dumps {s : State pb pbHits} {store : Store} {a : Label}
    {p : State pb pbHits × Option Response} (h : step srv s a = some p)
    (hdb : s.db = store.dumps pb pbHits) :
    p.1.db = (store.next srv s.deleting a).dumps pb pbHits := by
  unfold step at h
  cases a with
  | request req io =>
    dsimp only at h
    rw [hdb, serve_dumps] at h
    rw [Store.next]
    cases hperform : store.perform io.writeError (command srv io.randomStr req) with
    | mk outcome store' =>
      rw [hperform] at h
      cases outcome with
      | done res =>
        obtain rfl := Option.some.inj h
        rfl
      | deleting gid =>
        obtain rfl := Option.some.inj h
        rfl
  | deleteHits i error =>
    obtain ⟨gid, hgid, rfl⟩ := Option.map_eq_some_iff.mp h
    dsimp only
    rw [hdb, hdlDeleteHits_dumps, Store.next, hgid]
    rfl
  | saveQGHits error hits =>
    obtain rfl := Option.some.inj h
    dsimp only
    rw [hdb, saveQGHits_dumps]
    rfl

theorem keyed_next {store : Store} (hs : store.Keyed) (deleting : List GroupId) (a : Label) :
    (store.next srv deleting a).Keyed := by
  cases a with
  | request req io => exact keyed_perform hs io.writeError (command srv io.randomStr req)
  | deleteHits i error =>
    rw [Store.next]
    cases deleting[i]? with
    | none => exact hs
    | some gid =>
      rw [Option.elim_some, Store.deleteHits]
      split_ifs <;> exact hs
  | saveQGHits error hits =>
    rw [Store.next, Store.saveHits]
    split_ifs <;> exact hs

/-- In every run the databases have the dumps of a store. -/
theorem exists_dumps_of_run {l : List Label} {s : State pb pbHits}
    (hrun : run srv (.init pb pbHits) l = some s) :
    ∃ store : Store, s.db = store.dumps pb pbHits ∧ store.Keyed := by
  refine Machine.run_induction
    (P := fun s : State pb pbHits => ∃ store : Store, s.db = store.dumps pb pbHits ∧ store.Keyed)
    (fun s a t h hs => ?_) hrun ⟨⟨∅, ∅⟩, dumps_empty.symm, ?_⟩
  · obtain ⟨store, hdb, hkeyed⟩ := hs
    obtain ⟨p, hp, rfl⟩ := Option.map_eq_some_iff.mp h
    exact ⟨store.next srv s.deleting a, step_dumps hp hdb, keyed_next hkeyed s.deleting a⟩
  · intro gid qg h
    rw [Std.ExtTreeMap.getElem?_empty] at h
    cases h

/-- A group is decoded from its own JSON, with or without queries. -/
theorem fromJsonValue_toJsonValue (qg : QueryGroup) :
    QueryGroup.fromJsonValue qg.toJsonValue = .ok qg := by
  rw [QueryGroup.fromJsonValue_eq_ok_iff]
  refine QueryGroup.inJson_object_iff.mpr ⟨rfl, ?_⟩
  cases hqueries : qg.queries with
  | nil =>
    refine Or.inl ⟨?_, rfl⟩
    show ((([(Str.ofString "gid", JsonValue.string qg.gid), (Str.ofString "queries", _)]).lookup
      (Str.ofString "queries")).getD .null) = .null
    rfl
  | cons query queries => exact Or.inr rfl

theorem command_of_needAuth {req : HttpRequest} {randomStr : Str} {e : Endpoint}
    (he : Endpoint.ofRequest req = some e) (hneed : e.needAuth = true) :
    command srv randomStr req
      = match auth srv.hash req.api.headers with
        | .error mess => .answered (.setAccessDenied mess)
        | .ok () => e.command srv randomStr req.api := by
  unfold command
  rw [he]
  dsimp only
  rw [if_pos hneed]

/-- Only a command is answered with status 200, not a refusal. -/
theorem perform_of_serve {store : Store} {req : HttpRequest} {io : Io} {e : Endpoint}
    {res : Response} (he : Endpoint.ofRequest req = some e) (hneed : e.needAuth = true)
    (h : (serve srv (store.dumps pb pbHits) io req).1 = .done res) (hstatus : res.status = 200) :
    (store.perform io.writeError (e.command srv io.randomStr req.api)).1 = .done res := by
  rw [serve_dumps, command_of_needAuth he hneed] at h
  dsimp only at h
  cases hauth : auth srv.hash req.api.headers with
  | error mess =>
    rw [hauth] at h
    cases (Outcome.done.inj h).symm
    cases hstatus
  | ok _ =>
    rw [hauth] at h
    exact h

/-- The JSON of an answer with a `result`. -/
theorem json_of_okWith {js js' : JsonValue}
    (h : Outcome.done (.okWith [(Str.ofString "result", .json js')])
      = .done (.okWith [(Str.ofString "result", .json js)])) : js = js' := by
  have hbody := congrArg Response.body (Outcome.done.inj h)
  have hmembers := (List.cons.inj (Body.object.inj hbody)).2
  have hmember := congrArg Prod.snd (List.cons.inj hmembers).1
  exact (Member.json.inj hmember).symm

/-- What is answered for a group is the group as it is stored. -/
theorem exists_of_get {store : Store} {req : APIRequest} {io : Io} {js : JsonValue}
    (h : (serve srv (store.dumps pb pbHits) io ⟨.GET, Str.ofString "/get_query_group", req⟩).1
      = .done (.okWith [(Str.ofString "result", .json js)])) :
    ∃ (gid : GroupId) (qg : QueryGroup), store.groups[gid]? = some qg ∧ js = qg.toJsonValue := by
  have hstatus : ∀ {res : Response}, Outcome.done res = .done (.okWith
      [(Str.ofString "result", .json js)]) → res.status = 200 := by
    intro res hres
    exact congrArg Response.status (Outcome.done.inj hres)
  have hget : Endpoint.ofRequest ⟨.GET, Str.ofString "/get_query_group", req⟩
      = some .getQueryGroup := by rfl
  have hperform := perform_of_serve hget rfl h rfl
  unfold Endpoint.command onGid at hperform
  dsimp only at hperform
  cases hgid : gidParam req with
  | none =>
    rw [hgid] at hperform
    cases hstatus hperform
  | some gid =>
    rw [hgid] at hperform
    dsimp only [Option.elim, Store.perform] at hperform
    cases hqg : store.groups[gid]? with
    | none =>
      rw [hqg] at hperform
      cases hstatus hperform
    | some qg =>
      rw [hqg] at hperform
      dsimp only at hperform
      split_ifs at hperform with hvalid
      · exact ⟨gid, qg, hqg, json_of_okWith hperform⟩
      · cases hstatus hperform

/-- What is answered for the hits of a group are the hits as they are stored. -/
theorem exists_of_getHits {store : Store} {req : APIRequest} {io : Io} {js : JsonValue}
    (h : (serve srv (store.dumps pb pbHits) io ⟨.GET, Str.ofString "/get_hits", req⟩).1
      = .done (.okWith [(Str.ofString "result", .json js)])) :
    ∃ gid, gidParam req = some gid ∧ js = ((store.hits[gid]?).getD default).toJsonValue := by
  have hstatus : ∀ {res : Response}, Outcome.done res = .done (.okWith
      [(Str.ofString "result", .json js)]) → res.status = 200 := by
    intro res hres
    exact congrArg Response.status (Outcome.done.inj hres)
  have hget : Endpoint.ofRequest ⟨.GET, Str.ofString "/get_hits", req⟩ = some .getHits := by rfl
  have hperform := perform_of_serve hget rfl h rfl
  unfold Endpoint.command onGid at hperform
  dsimp only at hperform
  cases hgid : gidParam req with
  | none =>
    rw [hgid] at hperform
    cases hstatus hperform
  | some gid =>
    rw [hgid] at hperform
    dsimp only [Option.elim, Store.perform] at hperform
    split_ifs at hperform with hvalid
    · exact ⟨gid, rfl, json_of_okWith hperform⟩
    · cases hstatus hperform

/-- **Putting back.**  In every run, a client that sets a group to the `result` it was answered for
it, whatever text it writes that in, leaves both databases as they are. -/
theorem set_of_get (srv : Server) {l : List Label} {s : State pb pbHits}
    (hrun : run srv (.init pb pbHits) l = some s) {req req' : APIRequest} {io io' : Io}
    {js : JsonValue}
    (hget : (serve srv s.db io ⟨.GET, Str.ofString "/get_query_group", req⟩).1
      = .done (.okWith [(Str.ofString "result", .json js)]))
    (hbody : srv.reader req'.body = .ok (some js)) (hauth : auth srv.hash req'.headers = .ok ())
    (hwrite : io'.writeError = none) :
    serve srv s.db io' ⟨.POST, Str.ofString "/set_query_group", req'⟩ = (.done .ok, s.db) := by
  obtain ⟨store, hdb, hkeyed⟩ := exists_dumps_of_run hrun
  rw [hdb] at hget ⊢
  obtain ⟨gid, qg, hqg, rfl⟩ := exists_of_get hget
  have hset : Endpoint.ofRequest ⟨.POST, Str.ofString "/set_query_group", req'⟩
      = some .setQueryGroup := by rfl
  have hcommand : command srv io'.randomStr ⟨.POST, Str.ofString "/set_query_group", req'⟩
      = .set qg := by
    rw [command_of_needAuth hset rfl, hauth]
    unfold Endpoint.command
    dsimp only
    rw [hbody]
    dsimp only
    rw [fromJsonValue_toJsonValue]
  have hsame : store.groups.insert qg.gid qg = store.groups := by
    apply Std.ExtTreeMap.ext_getElem?
    intro gid'
    rw [OrdMap.getElem?_insert]
    split_ifs with heq
    · rw [← heq, hkeyed gid qg hqg, hqg]
    · rfl
  rw [serve_dumps, hcommand, hwrite]
  show (Outcome.done Response.ok, Store.dumps pb pbHits
    { store with groups := store.groups.insert qg.gid qg }) = _
  rw [hsame]

/-- A request of a client with a token, where every string has the same hash. -/
def withToken (body : String) (params : List (Str × Str)) : APIRequest :=
  ⟨[(Str.ofString "Authorization", Str.ofString "Bearer abcdefghijkAAAAA")], .ofString body, params⟩

def newGroup : String := "\x7b\"gid\":\"g\"\x7d"

def sameGroup : String := "\x7b\"gid\":\"g\",\"queries\":null\x7d"

/-- A server with a parser of these two texts. -/
def twoTexts : Server where
  base64 := .standard
  strings := .splitOn
  hash _ := Str.ofString "AAAAA"
  apiKeys := ∅
  reader mess :=
    if mess = .ofString newGroup then
      .ok (some (.object [(.ofString "gid", .string (.ofString "g"))]))
    else if mess = .ofString sameGroup then
      .ok (some
        (.object [(.ofString "gid", .string (.ofString "g")), (.ofString "queries", .null)]))
    else .ok none
  notFound := ⟨404, .text default, default⟩

/-- The group is set from the first text and put back as the second. -/
theorem set_of_get_twoTexts :
    ∃ s, run twoTexts (.init (.plain _) (.plain _))
        [.request ⟨.POST, Str.ofString "/set_query_group", withToken newGroup []⟩ ⟨none, default⟩]
          = some s ∧
      serve twoTexts s.db ⟨none, default⟩
        ⟨.POST, Str.ofString "/set_query_group", withToken sameGroup []⟩ = (.done .ok, s.db) := by
  have hrun : (run twoTexts (.init (.plain _) (.plain _))
      [.request ⟨.POST, Str.ofString "/set_query_group", withToken newGroup []⟩
        ⟨none, default⟩]).isSome := rfl
  have hget : (serve twoTexts ((run twoTexts (.init (.plain _) (.plain _)) _).get hrun).db
      ⟨none, default⟩ ⟨.GET, Str.ofString "/get_query_group",
        withToken "" [(Str.ofString "gid", Str.ofString "g")]⟩).1
      = .done (.okWith [(Str.ofString "result",
          .json (QueryGroup.toJsonValue ⟨Str.ofString "g", []⟩))]) := rfl
  exact ⟨_, (Option.some_get hrun).symm,
    set_of_get twoTexts (Option.some_get hrun).symm hget rfl rfl rfl⟩

end APIv1.Server

end Contentv1
