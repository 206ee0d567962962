import Contentv1.Ldb.UrlsDaysDb
import Contentv1.Core.FetchResult

/-!
# Crawl results by day (`ldb/CrawledDb.cpp`)

`CrawledDb` counts how often each attempt status came up on a day.  It has a `UrlsDaysDb` inside, in
which a status is a visit of a made-up URL, so whatever it counts goes through the queue of that
store before it can be read.
-/

namespace Contentv1

namespace AttemptStatus

/-- The values of `CrawlAttemptsPb::AttemptStatus` in their order. -/
def all : List AttemptStatus := [.enqueued, .pending, .ok, .curlErr, .s4xx, .s5xx]

/-- The number of a status. -/
def value : AttemptStatus → ℕ
  | .enqueued => 0
  | .pending => 1
  | .ok => 2
  | .curlErr => 3
  | .s4xx => 4
  | .s5xx => 5

end AttemptStatus

namespace CrawledDb

/-- `m_enum_finished_values`: all but `enqueued` and `pending`. -/
def enumFinishedValues : List ℕ := (List.range AttemptStatus.all.length).drop 2

def genFakeUrlForResult (valueId : ℕ) : Url :=
  Str.ofString ("https://ya.ru/" ++ toString valueId)

/-- The count of the last day that has one. -/
def getTodayEvents (misc : MiscTime) (db : UrlsLastDays) (eventId : ℕ) : ℤ :=
  -- the days of an entry are in their order, and nothing says that the last one is today
  match db.getUTSV misc (genFakeUrlForResult eventId) with
  | some utsv => (utsv.getLast?.map UrlTpStat.cnt).getD 0
  | none => 0

/-- The sum over the finished statuses, of counters that are read one after the other. -/
def getFinishedToday (misc : MiscTime) (db : UrlsLastDays) : ℤ :=
  (enumFinishedValues.map (getTodayEvents misc db)).sum

def getInProgress (misc : MiscTime) (db : UrlsLastDays) : ℤ :=
  getTodayEvents misc db AttemptStatus.enqueued.value - getFinishedToday misc db

/-- The pack that `saveResult` gives to `saveVisitsPack`. -/
def saveResult (result : AttemptStatus) (cnt now : ℤ) : UrlTpStat :=
  ⟨genFakeUrlForResult result.value, now, cnt⟩

/-- The calls of `saveResult` that `onFetched` makes, in the order of its map. -/
def onFetched (results : List FetchResult) : List (AttemptStatus × ℤ) :=
  (AttemptStatus.all.map fun status =>
    (status, (results.countP fun res => res.status = status : ℤ))).filter fun p => p.2 ≠ 0

end CrawledDb

namespace UrlsDaysDb

/-- The reading of the clock that a step takes. -/
def Label.clock : Label → Option ℤ
  | .tryDequeue _ now | .mergeLocal now => some now
  | _ => none

/-- The steps of the store's own threads. -/
def Label.ofThreads : Label → Bool
  | .save _ | .reopen => false
  | _ => true

/-- A step of one of the store's threads, under a clock with readings from `clock`. -/
def threadStep (misc : MiscTime) (clock : ℤ → Bool) (s : State) (a : Label) : Option State :=
  if a.ofThreads ∧ ∀ now ∈ a.clock, clock now then step misc s a else none

end UrlsDaysDb

end Contentv1
