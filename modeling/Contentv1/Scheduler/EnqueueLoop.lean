import Contentv1.Ldb.CrawledDb

/-!
# The arithmetic and the search of the enqueue loop

`scheduler/default/EnqueueLoop.cpp` and `scheduler/default/EnqueueLoopFilter.cpp`.  How many URLs a
round pushes follows from the counters of `CrawledDb`, which it reads one by one while other threads
act; `CounterRead` names the readings in their order and `Scheduler/Rounds.lean`
takes them.  `searchTop` asks `_filter` for more and more URLs; what `_filter` leaves and what
`max()` says depend on the other threads too and are arguments here.
-/

namespace Contentv1.EnqueueLoop

/-! ### How many URLs to push -/

/-- A reading of a counter in a round. -/
inductive CounterRead
  /-- In the `getFinishedToday` of `_calcHourTarget`. -/
  | crawledToday (eventId : ℕ)
  /-- In `getInProgress`. -/
  | enqueued
  /-- In the `getFinishedToday` of `getInProgress`. -/
  | finished (eventId : ℕ)
  deriving DecidableEq, Repr

/-- The readings of a round.  Which operand of the minus in `getInProgress` comes first is left to
the compiler. -/
def counterReads (enqueuedFirst : Bool) : List CounterRead :=
  let finished := CrawledDb.enumFinishedValues.map CounterRead.finished
  CrawledDb.enumFinishedValues.map CounterRead.crawledToday
    ++ if enqueuedFirst then .enqueued :: finished else finished ++ [.enqueued]

def calcHourTarget (targetDayCrawl crawledToday : ℤ) (hoursTillMidnight : ℕ) : ℤ :=
  let leftCrawlToday := targetDayCrawl - crawledToday
  -- the last hour takes all that is left
  if hoursTillMidnight = 0 then leftCrawlToday else leftCrawlToday.tdiv hoursTillMidnight

def calcToEnqueueNow (targetCurrentHour inProgressNow : ℤ) : ℤ :=
  if inProgressNow < targetCurrentHour then targetCurrentHour - inProgressNow else 0

/-! ### Which URLs to push -/

/-- One turn of the loop of `searchTop`: what `_filter(top_cur)` leaves and the `max()` it is
compared with. -/
structure FilterRead where
  pushUrls : List UrlFreq
  max : ℤ
  deriving DecidableEq, Repr

/-- The loop that doubles `top_cur`, as far as the readings go.  Where there are not enough URLs the
source returns at once, with fewer than the target. -/
def searchTopLoop (pushTarget : ℤ) : ℤ → List FilterRead → Option (List UrlFreq)
  | _, [] => none
  | topCur, read :: reads =>
    let topCur := topCur * 2
    if pushTarget ≤ read.pushUrls.length then some read.pushUrls
    -- there are no more URLs than have been asked for already
    else if read.max < topCur then some read.pushUrls
    else searchTopLoop pushTarget topCur reads

/-- `first` is what the first `_filter` leaves.  `limitVector` is `misc::limit_vector`, which is not
part of the repository. -/
def searchTop (limitVector : List UrlFreq → ℤ → List UrlFreq) (pushTarget : ℤ)
    (first : List UrlFreq) (reads : List FilterRead) : Option (List UrlFreq) :=
  let pushUrls :=
    if pushTarget ≤ first.length then some first else searchTopLoop pushTarget pushTarget reads
  pushUrls.map fun pushUrls =>
    if pushTarget < pushUrls.length then limitVector pushUrls pushTarget else pushUrls

def checkEnqueueImpl (limitVector : List UrlFreq → ℤ → List UrlFreq) (pushTarget : ℤ)
    (first : List UrlFreq) (reads : List FilterRead) : Option (List UrlFreq) :=
  if pushTarget ≤ 0 then some [] else searchTop limitVector pushTarget first reads

/-- `to_urls_vec`. -/
def toUrlsVec (urlsFreq : List UrlFreq) : List Url := urlsFreq.map Prod.fst

end Contentv1.EnqueueLoop
