import Contentv1.Core.CrawlAttempts
import Contentv1.Lib.OrdMap

/-!
# The attempts of every URL (`ldb/UrlDbModify.cpp`)

`setEnqueued` and `onFetched` hold one mutex while they walk their vector, so each call is one
step; `none` stands for the exception of `getLast` on an empty attempt list.
-/

namespace Contentv1

structure UrlDb where
  urlCrawlAttempts : OrdMap Url CrawlAttempts

namespace UrlDb

instance : Inhabited UrlDb := ⟨⟨∅⟩⟩

def getAttempts (db : UrlDb) (url : Url) : Option CrawlAttempts := db.urlCrawlAttempts[url]?

/-- The private `_setEnqueued`. -/
def setEnqueuedUrl (misc : MiscTime) (db : UrlDb) (url : Url) (tp : ℤ) : UrlDb :=
  ⟨db.urlCrawlAttempts.alter url fun o => some ((o.getD default).add misc tp).2⟩

def setEnqueued (misc : MiscTime) (db : UrlDb) (urls : List Url) (now : ℤ) : UrlDb :=
  urls.foldl (fun db url => db.setEnqueuedUrl misc url now) db

/-- The private `_setStatus`: the result goes to the last attempt, and a URL without attempts gets
one at `now`. -/
def setStatus (misc : MiscTime) (db : UrlDb) (res : FetchResult) (now : ℤ) : Option UrlDb :=
  -- of the record only the URL is looked at, not the time of its attempt
  let attempts := db.urlCrawlAttempts[res.gfq.url]?.getD ((default : CrawlAttempts).add misc now).2
  (attempts.setLastStatus res.status).map fun attempts =>
    ⟨db.urlCrawlAttempts.insert res.gfq.url attempts⟩

def onFetched (misc : MiscTime) (db : UrlDb) (results : List FetchResult) (now : ℤ) :
    Option UrlDb :=
  results.foldlM (fun db res => db.setStatus misc res now) db

end UrlDb

end Contentv1
