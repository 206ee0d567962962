import Contentv1.Api.QueryGroups
import Contentv1.Api.Server
import Contentv1.System.System

/-!
# The crawler with its API (`bin/contentd`, `api/v1/APIv1Wrap.cpp`)

The crawler of `System/System.lean`, whose first worker saves its pages in the store that the query
loop scans, and the API server of `Api/Server.lean` on the databases that the query loop reads its
groups from and saves their hits in.

`Contentd` has one worker, which calls the scheduler without a network in between.
-/

namespace Contentv1.Contentd

open QueryGroups (QueryTh)

structure Env where
  crawl : System.Env
  pb : QueryGroupPb
  pbHits : QueryGroupHitsPb
  server : APIv1.Server
  aho : AhoCorasick

structure State (env : Env) where
  crawl : System.State env.crawl
  api : APIv1.Server.State env.pb env.pbHits
  queryTh : QueryTh

/-- What earlier runs have stored. -/
structure Start (env : Env) where
  crawl : System.Start env.crawl
  queryDb : QueryDbContent

def State.init {env : Env} (start : Start env) : State env :=
  { crawl := .init start.crawl
    api := { db := start.queryDb.dumps env.pb env.pbHits, deleting := [] }
    queryTh := .idle }

inductive Label
  | crawl (a : System.Label)
  | request (req : APIv1.Server.HttpRequest) (io : APIv1.Io)
  /-- The second deletion of the `i`-th of those that are going on. -/
  | deleteHits (i : ℕ) (error : Option Str)
  | getAllQG
  /-- `_query`, with the order in which the hits come out of its map. -/
  | query (qgsHits : List QueryGroupHits)
  | saveQGHits
  | endCycle

variable {env : Env}

/-- The pages that the query loop scans. -/
def State.pageDb (s : State env) : PageDb := (s.crawl.workers 0).pageDb

def serverStep (s : State env) (a : APIv1.Server.Label) : Option (State env) :=
  (APIv1.Server.step env.server s.api a).map fun p => { s with api := p.1 }

def step (s : State env) : Label → Option (State env)
  | .crawl a => (System.step s.crawl a).map fun crawl => { s with crawl := crawl }
  | .request req io => serverStep s (.request req io)
  | .deleteHits i error => serverStep s (.deleteHits i error)
  | .getAllQG =>
    match s.queryTh with
    | .idle =>
      match s.api.db.getAllQG with
      -- the exception leaves the thread, and the program ends
      | .error _ => none
      | .ok qgs => some { s with queryTh := .querying qgs }
    | _ => none
  | .query qgsHits =>
    match s.queryTh with
    | .querying qgs =>
      if qgsHits.Perm ((QueryLoop.query env.aho qgs s.pageDb.scanFull).toList.map Prod.snd) then
        some { s with queryTh := .saving qgsHits }
      else none
    | _ => none
  | .saveQGHits =>
    match s.queryTh with
    | .saving (qgHits :: qgsHits) =>
      (serverStep s (.saveQGHits none qgHits)).map fun t => { t with queryTh := .saving qgsHits }
    | _ => none
  | .endCycle =>
    match s.queryTh with
    | .saving [] => some { s with queryTh := .idle }
    | _ => none

end Contentv1.Contentd
