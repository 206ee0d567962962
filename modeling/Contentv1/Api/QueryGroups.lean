import Contentv1.Worker.QueryLoop
import Contentv1.Lib.Machine

/-!
# Query groups between the API and the query loop

`api/v1/APIv1HdlQG.cpp`, `api/v1/APIv1HdlHits.cpp` and `worker/QueryLoop.cpp`.  The handlers of the
HTTP server and the thread of the query loop work on the same two databases without a lock.  The
system is a machine (`Lib/Machine.lean`) in which a label is one access to a database:

* `hdlSetQueryGroup` saves a group, `hdlGetHits` reads the hits of one;
* `hdlDeleteQueryGroup` deletes the group and then its hits, and answers after that;
* a cycle reads all groups, matches the pages and saves the hits of one group after another.

LevelDB may refuse a write of a handler, which then does not answer ok.  A group that cannot be
parsed ends the program when a cycle reads it.  The pages are whatever the scan of the cycle finds.
-/

namespace Contentv1.QueryGroups

/-- Where the thread of the query loop is in `_loopImpl`. -/
inductive QueryTh
  /-- Between two cycles. -/
  | idle
  /-- In `_query`. -/
  | querying (qgs : List QueryGroup)
  /-- In the loop of `saveQGHits`, with the hits to come. -/
  | saving (qgsHits : List QueryGroupHits)
  deriving DecidableEq

variable {pb : QueryGroupPb} {pbHits : QueryGroupHitsPb}

structure State (pb : QueryGroupPb) (pbHits : QueryGroupHitsPb) where
  db : QueryDb pb pbHits
  queryTh : QueryTh
  /-- `m_cycles_count`. -/
  cyclesCount : ℕ
  /-- The calls of `hdlDeleteQueryGroup` that are between their two deletions. -/
  deleting : List GroupId
  /-- The groups whose deletion was answered ok and that have not been set since, each with the
  number of cycles by which the cycle in progress at the answer has ended. -/
  deleted : List (GroupId × ℕ)

/-- What earlier runs have stored, before any call. -/
def State.init (content : QueryDbContent) : State pb pbHits :=
  { db := content.dumps pb pbHits, queryTh := .idle, cyclesCount := 0, deleting := [],
    deleted := [] }

inductive Label
  | setQueryGroup (error : Option Str) (qg : QueryGroup)
  /-- The first half of `hdlDeleteQueryGroup`. -/
  | deleteQG (error : Option Str) (gid : GroupId)
  /-- The second half of the `i`-th of the calls that are going on, and its answer. -/
  | deleteQGHits (error : Option Str) (i : ℕ)
  /-- The groups, in the order of the scan. -/
  | getAllQG (qgs : List QueryGroup)
  /-- `_query` on the pages of a scan, with the order in which the hits come out of its map. -/
  | query (scan : List (Url × Str)) (qgsHits : List QueryGroupHits)
  | saveQGHits
  | endCycle
  deriving DecidableEq

/-- The hits that `hdlGetHits` answers with. -/
def hdlGetHits (db : QueryDb pb pbHits) (gid : GroupId) : Except Str (List Url) :=
  match db.loadQGHits gid with
  | .error what => .error what
  -- a group without an entry may not have been queried yet
  | .ok hits => .ok (hits.getD default).hits

/-- The number of cycles by which the one in progress, if there is one, has ended. -/
def State.cycleEnd (s : State pb pbHits) : ℕ :=
  match s.queryTh with
  | .idle => s.cyclesCount
  | _ => s.cyclesCount + 1

def step (aho : AhoCorasick) (s : State pb pbHits) : Label → Option (State pb pbHits)
  | .setQueryGroup error qg =>
    match s.db.saveQG error qg with
    | (some _, db) => some { s with db := db }
    | (none, db) =>
      some { s with db := db, deleted := s.deleted.filter fun p => p.1 ≠ qg.gid }
  | .deleteQG error gid =>
    match s.db.deleteQG error gid with
    | (some _, db) => some { s with db := db }
    | (none, db) => some { s with db := db, deleting := gid :: s.deleting }
  | .deleteQGHits error i =>
    s.deleting[i]?.map fun gid =>
      match s.db.deleteQGHits error gid with
      | (some _, db) => { s with db := db, deleting := s.deleting.eraseIdx i }
      | (none, db) =>
        { s with
          db := db
          deleting := s.deleting.eraseIdx i
          deleted := (gid, s.cycleEnd) :: s.deleted }
  | .getAllQG qgs =>
    match s.queryTh with
    | .idle =>
      match s.db.getAllQG with
      -- the exception leaves the thread, and the program ends
      | .error _ => none
      | .ok groups => if qgs.Perm groups then some { s with queryTh := .querying qgs } else none
    | _ => none
  | .query scan qgsHits =>
    match s.queryTh with
    | .querying qgs =>
      if qgsHits.Perm ((QueryLoop.query aho qgs scan).toList.map Prod.snd) then
        some { s with queryTh := .saving qgsHits }
      else none
    | _ => none
  | .saveQGHits =>
    match s.queryTh with
    | .saving (qgHits :: qgsHits) =>
      -- nothing looks whether the group is still there
      some { s with db := (s.db.saveQGHits none qgHits).2, queryTh := .saving qgsHits }
    | _ => none
  | .endCycle =>
    match s.queryTh with
    | .saving [] => some { s with queryTh := .idle, cyclesCount := s.cyclesCount + 1 }
    | _ => none

end Contentv1.QueryGroups
