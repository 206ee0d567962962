import Contentv1.Scheduler.EnqueueLoopFilter
import Contentv1.Core.UrlFreqStats

/-!
# A search in which nothing else acts (`scheduler/default/EnqueueLoopFilter.cpp`)

`searchTop` (`Scheduler/EnqueueLoop.lean`) takes what `_filter` leaves and what `max()` says as
given.  Here both are read from statistics and stores that hold still while the search goes on.
Several answers are possible, for neither `getTopUrls` nor `reduceUrlFreqs` settles an order.
-/

namespace Contentv1.EnqueueLoop

/-- What a search reads. -/
structure SearchEnv where
  contribs : Contribs
  /-- The maps of `UrlFreqStats` or `UrlFreqStatsLF`. -/
  maps : LastPerMaps
  hostDb : HostDb
  urlDb : UrlDb
  now : ℤ

/-- A `Cnt` as the `int` that `getTopUrls` takes it for. -/
def toInt (top : ℤ) : ℤ := top.bmod (2 ^ 32)

/-- `pushUrls` is a possible answer of `_filter(top)`. -/
def Filter (env : SearchEnv) (top : ℤ) (pushUrls : List UrlFreq) : Prop :=
  ∃ topUrlsFreq needRobotsUniq,
    env.maps.GetTopUrls (toInt top) (fun _ => false) topUrlsFreq ∧
    ReduceUrlFreqs (env.hostDb.leaveAllowedByRobots env.contribs topUrlsFreq).needRobots
      needRobotsUniq ∧
    pushUrls
      = (needCrawlUrls env.contribs env.hostDb env.urlDb topUrlsFreq needRobotsUniq env.now).2

/-- Possible readings of the turns of the loop of `searchTop`. -/
def LoopReads (env : SearchEnv) : ℤ → List FilterRead → Prop
  | _, [] => True
  | topCur, read :: reads =>
    Filter env (topCur * 2) read.pushUrls ∧ read.max = env.maps.max ∧
      LoopReads env (topCur * 2) reads

end Contentv1.EnqueueLoop
