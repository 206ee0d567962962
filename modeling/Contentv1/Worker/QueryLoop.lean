import Contentv1.Core.QueryGroupMatcher
import Contentv1.Ldb.PageDb
import Contentv1.Ldb.QueryDb
import Contentv1.Scylla.PageDbScylla

/-!
# The query loop (`worker/QueryLoop.cpp`)

A cycle reads all query groups, scans all pages and saves the hits of every group that some page
has matched.  Where a stored group cannot be parsed, reading the groups throws, and nothing in the
cycle catches it.
-/

namespace Contentv1.QueryLoop

variable {pb : QueryGroupPb} {pbHits : QueryGroupHitsPb}

/-- `qgs_hits_map[gid].gid = gid` and `.hits.push_back(url)`. -/
def addHit (m : OrdMap GroupId QueryGroupHits) (gid : GroupId) (url : Url) :
    OrdMap GroupId QueryGroupHits :=
  m.alter gid fun o => some ⟨gid, (o.getD default).hits ++ [url]⟩

/-- The callback of `scanFull`. -/
def scanPage (aho : AhoCorasick) (matcher : QueryGroupMatcher) (m : OrdMap GroupId QueryGroupHits)
    (page : Url × Str) : OrdMap GroupId QueryGroupHits :=
  (matcher.matchContent aho page.2 []).2.foldl (fun m gid => addHit m gid page.1) m

/-- `_query`.  What it puts out are the values of this map, in the order of an `unordered_map`. -/
def query (aho : AhoCorasick) (qgs : List QueryGroup) (scan : List (Url × Str)) :
    OrdMap GroupId QueryGroupHits :=
  scan.foldl (scanPage aho (.buildState qgs)) ∅

/-- The loop over the hits, on a LevelDB that takes every write. -/
def saveAll (db : QueryDb pb pbHits) (qgsHits : List QueryGroupHits) : QueryDb pb pbHits :=
  qgsHits.foldl (fun db qgHits => (db.saveQGHits none qgHits).2) db

/-- `_loopImpl` with one order of the groups and of the hits: the exception that it ends with, if
there is one, and the databases it leaves. -/
def loopImpl (aho : AhoCorasick) (scan : List (Url × Str)) (db : QueryDb pb pbHits) :
    Option Str × QueryDb pb pbHits :=
  match db.getAllQG with
  | .error what => (some what, db)
  | .ok qgs => (none, saveAll db ((query aho qgs scan).toList.map Prod.snd))

/-- `_loopImpl` may end with `thrown` and leave `db'`: the groups may be read and the hits saved in
any order, and `Scans` says what the page store may call back with.  A group that no page matches is
not saved. -/
def LoopImpl (aho : AhoCorasick) (Scans : List (Url × Str) → Prop) (db : QueryDb pb pbHits)
    (thrown : Option Str) (db' : QueryDb pb pbHits) : Prop :=
  match db.getAllQG with
  | .error what => thrown = some what ∧ db' = db
  | .ok groups =>
    thrown = none ∧ ∃ (qgs : List QueryGroup) (scan : List (Url × Str))
      (qgsHits : List QueryGroupHits), qgs.Perm groups ∧ Scans scan ∧
      qgsHits.Perm ((query aho qgs scan).toList.map Prod.snd) ∧ db' = saveAll db qgsHits

/-- A scan of `PageDb` calls back with every page once. -/
def ScansPageDb (pageDb : PageDb) (scan : List (Url × Str)) : Prop := scan.Perm pageDb.scanFull

/-- A scan of `PageDbScylla` where the driver answers so, which may be an error: `_query` does not
hear of the exception. -/
def ScansAnswer (answer : CassAnswer) (scan : List (Url × Str)) : Prop :=
  scan = PageDbScylla.scanFullOn answer

end Contentv1.QueryLoop
