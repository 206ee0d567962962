import Contentv1.Core.UrlParsed

/-!
# Fetch queue records and fetch results (`core/GFQRecord.cpp`, `core/FetchResult.cpp`)
-/

namespace Contentv1

/-- A record of the global fetch queue: a URL and the time it was enqueued at. -/
structure GFQRecord where
  url : Url
  attemptTs : ℤ
  deriving DecidableEq, Repr

def GFQRecord.isRobots (gfq : GFQRecord) : Bool := gfq.url.endsWith robotsPostfix

/-- `CrawlAttemptsPb::AttemptStatus`. -/
inductive AttemptStatus
  | enqueued
  | pending
  | ok
  | curlErr
  | s4xx
  | s5xx
  deriving DecidableEq, Repr

structure FetchResult where
  gfq : GFQRecord
  status : AttemptStatus
  errorStr : Str
  content : Str
  deriving DecidableEq, Repr

namespace FetchResult

def isOk (r : FetchResult) : Bool := r.status == .ok

def isRobots (r : FetchResult) : Bool := r.gfq.isRobots

end FetchResult

end Contentv1
