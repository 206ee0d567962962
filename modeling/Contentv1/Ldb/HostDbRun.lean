import Contentv1.Ldb.HostDb
import Contentv1.Lib.Machine

/-!
# Runs of `HostDb`

The operations of `HostDb` as a machine, beside a record of what was allowed.  A result is taken in
only if its URL parses and a crawl of its host is outstanding, that is for a distinct earlier
`allow`.

`operate` runs the operations on any results, also on those of fetches that were never allowed.
`hear` runs `onFetched` alone, on any results, beside all results it was called with, and `serve`
the two calls that a worker makes.
-/

namespace Contentv1

namespace HostDb

/-- The hosts a batch was allowed for, with the readings of the clock around each decision. -/
def grants {α : Type} (c : Contribs) (url : α → Url) (items : List (α × CrawlReads))
    (decisions : List EHostCrawlDecision) : List (Host × CrawlReads) :=
  (items.zip decisions).filterMap fun p =>
    if p.2 = .allow then some ((UrlParsed.ofUrl c (url p.1.1)).host, p.1.2) else none

inductive Op
  | tryCrawlUrls (tryUrls : List (Url × CrawlReads))
  | tryCrawl (tryUrls : List (GFQRecord × CrawlReads))
  | onFetched (results : List FetchResult)

structure Observed where
  db : HostDb
  /-- The hosts of the crawls allowed and not yet reported. -/
  outstanding : List Host
  /-- All crawls allowed so far. -/
  allows : List (Host × CrawlReads)

/-- A database opened on stored robots texts. -/
def Observed.init (limits : CrawlLimits) (robots : OrdMap Host Str) : Observed :=
  ⟨openDb limits robots, [], []⟩

def Observed.afterBatch (o : Observed) (db : HostDb) (granted : List (Host × CrawlReads)) :
    Observed :=
  ⟨db, o.outstanding ++ granted.map Prod.fst, o.allows ++ granted⟩

/-- The outstanding crawls after `results`, if each of them is one. -/
def report (c : Contribs) : List Host → List FetchResult → Option (List Host)
  | outstanding, [] => some outstanding
  | outstanding, r :: rs =>
    let urlParsed := UrlParsed.ofUrl c r.gfq.url
    if urlParsed.ok ∧ urlParsed.host ∈ outstanding then
      report c (outstanding.erase urlParsed.host) rs
    else none

def observe (c : Contribs) (o : Observed) : Op → Option Observed
  | .tryCrawlUrls tryUrls =>
    let acc := o.db.tryCrawlUrls c tryUrls
    some (o.afterBatch acc.db (grants c id tryUrls acc.decisions))
  | .tryCrawl tryUrls =>
    let acc := o.db.tryCrawl c tryUrls
    some (o.afterBatch acc.db (grants c GFQRecord.url tryUrls acc.decisions))
  | .onFetched results =>
    (report c o.outstanding results).map fun outstanding =>
      { o with db := o.db.onFetched c results, outstanding := outstanding }

/-! ### Any results -/

def operate (c : Contribs) (db : HostDb) : Op → Option HostDb
  | .tryCrawlUrls tryUrls => some (db.tryCrawlUrls c tryUrls).db
  | .tryCrawl tryUrls => some (db.tryCrawl c tryUrls).db
  | .onFetched results => some (db.onFetched c results)

/-! ### Results alone -/

/-- The database beside all results reported to it, in their order. -/
structure Heard where
  db : HostDb
  results : List FetchResult

/-- A database opened on no robots texts. -/
def Heard.init (limits : CrawlLimits) : Heard := ⟨openDb limits ∅, []⟩

def hear (c : Contribs) (s : Heard) (results : List FetchResult) : Option Heard :=
  some ⟨s.db.onFetched c results, s.results ++ results⟩

/-! ### The calls of the workers -/

/-- `Scheduler::tryFetchUrls` and `Scheduler::onFetched`, as far as they are about `HostDb`. -/
inductive Call
  | tryFetchUrls (tryUrls : List (GFQRecord × CrawlReads))
  | onFetched (results : List FetchResult)

/-- A database opened on stored robots texts. -/
def Heard.onStored (limits : CrawlLimits) (stored : OrdMap Host Str) : Heard :=
  ⟨openDb limits stored, []⟩

def serve (c : Contribs) (s : Heard) : Call → Option Heard
  | .tryFetchUrls tryUrls => some { s with db := (s.db.tryCrawl c tryUrls).db }
  | .onFetched results => hear c s results

end HostDb

/-! ### Under a clock -/

/-- The readings around one URL in the order of the code. -/
def CrawlReads.times (r : CrawlReads) : List ℤ :=
  [r.hostCheck.min, r.hostCheck.hour, r.hostCheck.day,
    r.globalCheck.min, r.globalCheck.hour, r.globalCheck.day, r.decided,
    r.hostInc.min, r.hostInc.hour, r.hostInc.day,
    r.globalInc.min, r.globalInc.hour, r.globalInc.day]

namespace HostDb

/-- The readings of the clock during an operation. -/
def Op.times : Op → List ℤ
  | .tryCrawlUrls tryUrls => tryUrls.flatMap fun item => item.2.times
  | .tryCrawl tryUrls => tryUrls.flatMap fun item => item.2.times
  | .onFetched _ => []

structure Timed where
  o : Observed
  clock : ℤ

/-- An operation under a clock that does not go back. -/
def observeTimed (c : Contribs) (s : Timed) (op : Op) : Option Timed :=
  if (s.clock :: op.times).Pairwise (· ≤ ·) then
    (observe c s.o op).map fun o => ⟨o, op.times.getLastD s.clock⟩
  else none

/-- The `allow` decisions for a host in the closed interval of length `width` that ends at `T`. -/
def decisionsIn (allows : List (Host × CrawlReads)) (host : Host) (width T : ℤ) : ℕ :=
  (allows.filter fun p =>
    p.1 = host ∧ T - width ≤ p.2.decided ∧ p.2.decided ≤ T).length

end HostDb

end Contentv1
