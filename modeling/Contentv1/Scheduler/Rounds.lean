import Contentv1.Scheduler.EnqueueLoop
import Contentv1.Ldb.UrlDb
import Mathlib.Data.List.Perm.Subperm

/-!
# Rounds of the enqueue loop among fetch results and merges

`EnqueueLoop::loop` calls `_loopImpl` again and again in one thread.  A round reads the counters of
`CrawledDb`, searches the URLs, writes them to Kafka, saves their number in `CrawledDb` and enters
them in `UrlDb`.  Workers see a record from the moment it is written, and `Scheduler::onFetched`
enters their results in `UrlDb` and then in `CrawledDb`, whose own threads merge what was saved.

The system is a machine (`Lib/Machine.lean`) in which a label is what one thread does between two
points where another can act.  `HostDb` has no part in it: what a round takes from it is in the
answers of `_filter` that a label carries.
-/

namespace Contentv1.EnqueueLoop

/-- Where the thread of the loop is. -/
inductive EnqueueTh
  | idle
  /-- In `_calcToEnqueueNow`, with the readings to come and the sums so far. -/
  | reading (todo : List CounterRead) (crawledToday inProgress : ℤ)
  /-- In `_pushToKafka`, with the URLs to come and all of them. -/
  | pushing (rest pushUrls : List Url) (attemptTp : ℤ)
  /-- Before `UrlDb::setEnqueued`. -/
  | saved (pushUrls : List Url) (attemptTp : ℤ)
  /-- `_loopImpl` has returned. -/
  | returned
  deriving DecidableEq

structure State where
  enqueueTh : EnqueueTh
  urlDb : UrlDb
  /-- The store in `CrawledDb`. -/
  crawledDb : UrlsDaysDb.State
  /-- The topic of the fetch queue, with everything ever written to it. -/
  topic : List GFQRecord
  /-- What the workers have reported. -/
  reported : List FetchResult
  /-- The calls of `CrawledDb::onFetched` that are going on, with what they have yet to save. -/
  calls : List (List (AttemptStatus × ℤ))

/-- The program starts with the attempts of earlier runs and without counters. -/
def State.init (urlDb : UrlDb) : State :=
  { enqueueTh := .idle, urlDb := urlDb, crawledDb := UrlsDaysDb.openDb ∅, topic := [],
    reported := [], calls := [] }

/-- What the machine takes from outside. -/
structure Env where
  misc : MiscTime
  limitVector : List UrlFreq → ℤ → List UrlFreq
  targetDayCrawl : ℤ
  /-- The possible readings of the clock. -/
  clock : ℤ → Bool

inductive Label
  | start (enqueuedFirst : Bool)
  | readCounter
  /-- The search, with what it is answered, after which the time of the attempts is taken. -/
  | search (hoursTillMidnight : ℕ) (first : List UrlFreq) (reads : List FilterRead)
      (attemptTp : ℤ)
  /-- One `m_kafka_writer->write`. -/
  | push
  | saveEnqueued (now : ℤ)
  | setEnqueued
  | sleep
  /-- `UrlDb::onFetched`, the first thing that `Scheduler::onFetched` does. -/
  | onFetched (results : List FetchResult) (now : ℤ)
  /-- The `i`-th of the calls that are going on saves the next of its statuses. -/
  | saveResult (i : ℕ) (now : ℤ)
  /-- A step of the store in `CrawledDb`. -/
  | crawled (a : UrlsDaysDb.Label)
  deriving DecidableEq

/-- What a reading adds to the sums. -/
def readCounter (misc : MiscTime) (db : UrlsLastDays) (todo : List CounterRead)
    (crawledToday inProgress : ℤ) : CounterRead → EnqueueTh
  | .crawledToday eventId =>
    .reading todo (crawledToday + CrawledDb.getTodayEvents misc db eventId) inProgress
  | .enqueued =>
    .reading todo crawledToday
      (inProgress + CrawledDb.getTodayEvents misc db AttemptStatus.enqueued.value)
  | .finished eventId =>
    .reading todo crawledToday (inProgress - CrawledDb.getTodayEvents misc db eventId)

def step (env : Env) (s : State) : Label → Option State
  | .start enqueuedFirst =>
    match s.enqueueTh with
    | .idle => some { s with enqueueTh := .reading (counterReads enqueuedFirst) 0 0 }
    | _ => none
  | .readCounter =>
    match s.enqueueTh with
    | .reading (read :: todo) crawledToday inProgress =>
      some { s with
        enqueueTh := readCounter env.misc s.crawledDb.urlsDays todo crawledToday inProgress read }
    | _ => none
  | .search hoursTillMidnight first reads attemptTp =>
    match s.enqueueTh with
    | .reading [] crawledToday inProgress =>
      let target := calcHourTarget env.targetDayCrawl crawledToday hoursTillMidnight
      if env.clock attemptTp then
        (checkEnqueueImpl env.limitVector (calcToEnqueueNow target inProgress) first reads).map
          fun pushUrlsFreq =>
            let pushUrls := toUrlsVec pushUrlsFreq
            { s with enqueueTh := .pushing pushUrls pushUrls attemptTp }
      else none
    | _ => none
  | .push =>
    match s.enqueueTh with
    | .pushing (url :: rest) pushUrls attemptTp =>
      some { s with
        enqueueTh := .pushing rest pushUrls attemptTp
        topic := s.topic ++ [⟨url, env.misc.toInt64 attemptTp⟩] }
    | _ => none
  | .saveEnqueued now =>
    match s.enqueueTh with
    | .pushing [] pushUrls attemptTp =>
      -- a count of 0 is saved like any other
      if env.clock now then
        (UrlsDaysDb.step env.misc s.crawledDb
          (.save (CrawledDb.saveResult .enqueued pushUrls.length now))).map fun crawledDb =>
            { s with enqueueTh := .saved pushUrls attemptTp, crawledDb := crawledDb }
      else none
    | _ => none
  | .setEnqueued =>
    match s.enqueueTh with
    | .saved pushUrls attemptTp =>
      some { s with
        enqueueTh := .returned
        urlDb := s.urlDb.setEnqueued env.misc pushUrls attemptTp }
    | _ => none
  | .sleep =>
    match s.enqueueTh with
    | .returned => some { s with enqueueTh := .idle }
    | _ => none
  | .onFetched results now =>
    -- every record that was written is reported at most once
    if env.clock now ∧ ((s.reported ++ results).map FetchResult.gfq).Subperm s.topic then
      (s.urlDb.onFetched env.misc results now).map fun urlDb =>
        { s with
          urlDb := urlDb
          reported := s.reported ++ results
          calls := CrawledDb.onFetched results :: s.calls }
    else none
  | .saveResult i now =>
    match s.calls[i]? with
    | some ((status, cnt) :: rest) =>
      -- every status is saved with a reading of the clock of its own
      if env.clock now then
        (UrlsDaysDb.step env.misc s.crawledDb
          (.save (CrawledDb.saveResult status cnt now))).map fun crawledDb =>
            { s with crawledDb := crawledDb, calls := rest :: s.calls.eraseIdx i }
      else none
    | _ => none
  | .crawled a =>
    (UrlsDaysDb.threadStep env.misc env.clock s.crawledDb a).map fun crawledDb =>
      { s with crawledDb := crawledDb }

end Contentv1.EnqueueLoop
