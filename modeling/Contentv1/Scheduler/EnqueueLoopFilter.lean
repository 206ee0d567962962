import Contentv1.Scheduler.EnqueueLoop
import Contentv1.Ldb.HostDb
import Contentv1.Ldb.UrlDbPolicy

/-!
# Which URLs are due (`scheduler/default/EnqueueLoopFilter.cpp`)

`_needCrawlUrls` asks `HostDb` which URLs their hosts' robots.txt allows and `UrlDb` which of those
are due.  For the URLs whose host's text is not known it asks `UrlDb` about the robots URLs.
-/

namespace Contentv1

/-- The map of `reduceUrlFreqs` (`core/Types.cpp`): the frequencies of a URL added up. -/
def reduceUrlFreqsMap (urls : List UrlFreq) : OrdMap Url UrlFreq :=
  urls.foldl (fun m u => m.alter u.1 fun o => some (o.elim u fun r => (r.1, r.2 + u.2))) ∅

/-- `out` is a possible result of `reduceUrlFreqs`, which walks an `unordered_map`. -/
def ReduceUrlFreqs (urls out : List UrlFreq) : Prop :=
  out.Perm ((reduceUrlFreqsMap urls).toList.map Prod.snd)

instance (urls out : List UrlFreq) : Decidable (ReduceUrlFreqs urls out) :=
  inferInstanceAs (Decidable (List.Perm _ _))

namespace EnqueueLoop

/-- `_needCrawlUrls` with nobody between its calls: the decisions on the pages, and the URLs that
are due.  `needRobotsUniq` is what `reduceUrlFreqs` makes of the robots URLs needed. -/
def needCrawlUrls (c : Contribs) (hostDb : HostDb) (urlDb : UrlDb) (inUrls : List UrlFreq)
    (needRobotsUniq : List UrlFreq) (now : ℤ) : List EUrlCrawlDecision × List UrlFreq :=
  let allowedUrls := (hostDb.leaveAllowedByRobots c inUrls).allowed
  let needUrls := urlDb.leaveNeedUrls allowedUrls now
  let needRobotsUniqFiltered := urlDb.leaveNeedRobots needRobotsUniq now
  -- the decisions on the robots URLs are dropped
  (needUrls.1, needRobotsUniqFiltered.2 ++ needUrls.2)

end EnqueueLoop

end Contentv1
