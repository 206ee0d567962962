import Contentv1.Core.Types

/-!
# Crawl frequencies and limits (`core/TpSlidWin.cpp`, `core/HostFreq.cpp`, `core/CrawlLimits.h`)

Each window reads the clock by itself, so `isAllowed` and `incCrawling` take one reading for each
of the three windows (`FreqReads`).  A reading the code does not come to is not looked at.
-/

namespace Contentv1

/-- The limits of the configuration. -/
structure CrawlLimits where
  maxHostParallelCrawl : ℤ
  maxHostMinuteCrawl : ℤ
  maxHostHourCrawl : ℤ
  maxHostDayCrawl : ℤ
  maxSystemParallelCrawl : ℤ
  deriving DecidableEq, Repr

/-- Events in the last `window` seconds. -/
structure TpSlidWin where
  q : List ℤ
  window : ℤ
  deriving DecidableEq, Repr

namespace TpSlidWin

def checkClean (w : TpSlidWin) (now : ℤ) : TpSlidWin :=
  { w with q := w.q.dropWhile fun tp => decide (w.window < durationCastSecs (now - tp)) }

def size (w : TpSlidWin) (now : ℤ) : ℤ × TpSlidWin :=
  let w := w.checkClean now
  (w.q.length, w)

def inc (w : TpSlidWin) (now : ℤ) : TpSlidWin :=
  checkClean { w with q := w.q ++ [now] } now

end TpSlidWin

/-- The readings of the clock by the three windows. -/
structure FreqReads where
  min : ℤ
  hour : ℤ
  day : ℤ
  deriving DecidableEq, Repr

structure HostFreq where
  crawlingNow : ℤ
  min : TpSlidWin
  hour : TpSlidWin
  day : TpSlidWin
  deriving DecidableEq, Repr

namespace HostFreq

def init : HostFreq := ⟨0, ⟨[], 60⟩, ⟨[], 3600⟩, ⟨[], 86400⟩⟩

def isAllowed (hf : HostFreq) (limits : CrawlLimits) (now : FreqReads) : Bool × HostFreq :=
  -- a window is cleaned only where the check comes to it
  if limits.maxHostParallelCrawl ≤ hf.crawlingNow then (false, hf)
  else
    let (minSize, min) := hf.min.size now.min
    let hf := { hf with min := min }
    if limits.maxHostMinuteCrawl ≤ minSize then (false, hf)
    else
      let (hourSize, hour) := hf.hour.size now.hour
      let hf := { hf with hour := hour }
      if limits.maxHostHourCrawl ≤ hourSize then (false, hf)
      else
        let (daySize, day) := hf.day.size now.day
        let hf := { hf with day := day }
        if limits.maxHostDayCrawl ≤ daySize then (false, hf) else (true, hf)

def incCrawling (hf : HostFreq) (now : FreqReads) : HostFreq :=
  { crawlingNow := hf.crawlingNow + 1
    min := hf.min.inc now.min
    hour := hf.hour.inc now.hour
    day := hf.day.inc now.day }

def decCrawling (hf : HostFreq) : HostFreq :=
  if hf.crawlingNow ≤ 0 then hf else { hf with crawlingNow := hf.crawlingNow - 1 }

end HostFreq

end Contentv1
