import Contentv1.Core.FetchResult
import Contentv1.Core.HostFreq
import Contentv1.Lib.OrdMap

/-!
# The host database (`ldb/HostDb.cpp`)

`HostDb` decides before each fetch whether a URL may be crawled now, by the host's robots.txt and by
the frequencies of the host and of the system, and counts what it has allowed.  Every public method
holds one mutex, so each call is one step.
-/

namespace Contentv1

inductive EHostCrawlDecision
  | allow
  | disallowNeedRobots
  | disallowByRobots
  | disallowUrlParsing
  | disallowFreq
  deriving DecidableEq, Repr

/-- The readings of the clock while one URL is tried, in the order of the code.  `decided` is the
moment, between the checks and the increments, at which an `allow` counts as given; the code does
not read it. -/
structure CrawlReads where
  hostCheck : FreqReads
  globalCheck : FreqReads
  decided : ℤ
  hostInc : FreqReads
  globalInc : FreqReads
  deriving DecidableEq, Repr

/-- All readings at one moment. -/
def CrawlReads.at (now : ℤ) : CrawlReads :=
  ⟨⟨now, now, now⟩, ⟨now, now, now⟩, now, ⟨now, now, now⟩, ⟨now, now, now⟩⟩

structure HostDb where
  limits : CrawlLimits
  hostFreq : OrdMap Host HostFreq
  globalFreq : HostFreq
  hostRobots : OrdMap Host Robots
  /-- LevelDB. -/
  db : OrdMap Host Str

namespace HostDb

/-- The constructor on the robots texts stored in LevelDB. -/
def openDb (limits : CrawlLimits) (db : OrdMap Host Str) : HostDb :=
  { limits := limits
    hostFreq := ∅
    globalFreq := .init
    hostRobots := db.toList.foldl (fun m p => m.insert p.1 ⟨p.2⟩) ∅
    db := db }

/-! ### One URL -/

/-- `_isAllowedRobots`, with the robots URL it asks for. -/
def isAllowedRobots (c : Contribs) (db : HostDb) (urlParsed : UrlParsed) : Bool × Url :=
  -- a robots.txt may always be fetched
  if urlParsed.isRobots then (true, default)
  else
    match db.hostRobots[urlParsed.host]? with
    | none => (false, urlParsed.robots)
    | some robots => (robots.isAllowed c urlParsed.normalized, default)

/-- `_isAllowedFreq`: a host that was never seen is not checked. -/
def isAllowedFreq (db : HostDb) (host : Host) (now : CrawlReads) : Bool × HostDb :=
  match db.hostFreq[host]? with
  | none => (true, db)
  | some hf =>
    let (hostAllowed, hf) := hf.isAllowed db.limits now.hostCheck
    let db := { db with hostFreq := db.hostFreq.insert host hf }
    if hostAllowed then
      -- the system's frequency is held against the limits of a host
      let (globalAllowed, gf) := db.globalFreq.isAllowed db.limits now.globalCheck
      (globalAllowed, { db with globalFreq := gf })
    else (false, db)

/-- `_setCrawling`. -/
def setCrawling (db : HostDb) (host : Host) (now : CrawlReads) : HostDb :=
  { db with
    hostFreq := db.hostFreq.alter host fun o => some ((o.getD .init).incCrawling now.hostInc)
    globalFreq := db.globalFreq.incCrawling now.globalInc }

/-- The private `_tryCrawl`: the decision, the robots URL needed and the database after it. -/
def tryCrawlParsed (c : Contribs) (db : HostDb) (urlParsed : UrlParsed) (now : CrawlReads) :
    EHostCrawlDecision × Url × HostDb :=
  let (robotsAllowed, needRobots) := db.isAllowedRobots c urlParsed
  if robotsAllowed then
    let host := urlParsed.host
    let (freqAllowed, db) := db.isAllowedFreq host now
    if freqAllowed then (.allow, needRobots, db.setCrawling host now)
    else (.disallowFreq, needRobots, db)
  -- a robots URL is asked for only where the host's text is not known
  else if needRobots.bytes.isEmpty then (.disallowByRobots, needRobots, db)
  else (.disallowNeedRobots, needRobots, db)

/-! ### `leaveAllowedByRobots` -/

/-- What `leaveAllowedByRobots` has collected. -/
structure LeaveAcc (β : Type) where
  allowed : List β
  needRobots : List UrlFreq

/-- One turn of the loop; `out` is what an allowed URL is put out as. -/
def leaveAllowedItem {β : Type} (c : Contribs) (db : HostDb) (out : UrlFreq → UrlParsed → β)
    (acc : LeaveAcc β) (urlFreq : UrlFreq) : LeaveAcc β :=
  let urlParsed := UrlParsed.ofUrl c urlFreq.1
  if urlParsed.ok then
    let (allowed, needRobots) := db.isAllowedRobots c urlParsed
    if allowed then { acc with allowed := acc.allowed ++ [out urlFreq urlParsed] }
    else if needRobots.bytes.isEmpty then acc
    else { acc with needRobots := acc.needRobots ++ [(needRobots, urlFreq.2)] }
  else acc

def leaveAllowedLoop {β : Type} (c : Contribs) (db : HostDb) (out : UrlFreq → UrlParsed → β)
    (urls : List UrlFreq) : LeaveAcc β :=
  urls.foldl (leaveAllowedItem c db out) ⟨[], []⟩

/-- Allowed URLs and the robots URLs needed, both with the frequency of the URL they come from. -/
def leaveAllowedByRobots (c : Contribs) (db : HostDb) (urls : List UrlFreq) : LeaveAcc UrlFreq :=
  leaveAllowedLoop c db (fun urlFreq urlParsed => (urlParsed.normalized, urlFreq.2)) urls

/-! ### `tryCrawl` -/

/-- What `tryCrawl` has collected. -/
structure TryAcc (β : Type) where
  db : HostDb
  decisions : List EHostCrawlDecision
  allowed : List β
  /-- `need_robots_set`, whose elements come out in any order. -/
  needRobots : List Url

/-- One turn of the loop of both `tryCrawl` overloads; `out` is what an allowed item is put out
as. -/
def tryCrawlItem {α β : Type} (c : Contribs) (url : α → Url) (out : α → UrlParsed → β)
    (acc : TryAcc β) (item : α × CrawlReads) : TryAcc β :=
  let urlParsed := UrlParsed.ofUrl c (url item.1)
  if urlParsed.ok then
    let (decision, needRobots, db) := acc.db.tryCrawlParsed c urlParsed item.2
    { db := db
      decisions := acc.decisions ++ [decision]
      allowed := if decision = .allow then acc.allowed ++ [out item.1 urlParsed] else acc.allowed
      needRobots :=
        if decision = .disallowNeedRobots then acc.needRobots.insert needRobots
        else acc.needRobots }
  else { acc with decisions := acc.decisions ++ [.disallowUrlParsing] }

def tryCrawlLoop {α β : Type} (c : Contribs) (url : α → Url) (out : α → UrlParsed → β)
    (db : HostDb) (items : List (α × CrawlReads)) : TryAcc β :=
  items.foldl (tryCrawlItem c url out) ⟨db, [], [], []⟩

/-- `tryCrawl` on URLs puts out normalized URLs. -/
def tryCrawlUrls (c : Contribs) (db : HostDb) (tryUrls : List (Url × CrawlReads)) : TryAcc Url :=
  tryCrawlLoop c id (fun _ urlParsed => urlParsed.normalized) db tryUrls

/-- `tryCrawl` on records puts out the records themselves. -/
def tryCrawl (c : Contribs) (db : HostDb) (tryUrls : List (GFQRecord × CrawlReads)) :
    TryAcc GFQRecord :=
  tryCrawlLoop c GFQRecord.url (fun gfq _ => gfq) db tryUrls

/-! ### `onFetched` -/

/-- One turn of the loop of `onFetched`. -/
def onFetchedItem (c : Contribs) (db : HostDb) (result : FetchResult) : HostDb :=
  let urlParsed := UrlParsed.ofUrl c result.gfq.url
  if urlParsed.ok then
    -- counted down whether or not this fetch was ever allowed
    let db := { db with
      hostFreq := db.hostFreq.alter urlParsed.host fun o => some (o.getD .init).decCrawling
      globalFreq := db.globalFreq.decCrawling }
    if result.isRobots && result.isOk then
      { db with
        hostRobots := db.hostRobots.insert urlParsed.host ⟨result.content⟩
        db := db.db.insert urlParsed.host result.content }
    else db
  else db

def onFetched (c : Contribs) (db : HostDb) (results : List FetchResult) : HostDb :=
  results.foldl (onFetchedItem c) db

end HostDb

end Contentv1
