import Contentv1.Core.FetchResultPb
import Contentv1.Core.FetchStats
import Contentv1.Scheduler.FilterRounds
import Contentv1.Scheduler.LoadLoop
import Contentv1.Scheduler.Rounds
import Contentv1.Scheduler.SearchTop

/-!
# The scheduler (`scheduler/default/Scheduler.cpp`)

All threads of the scheduler on their shared stores: the load loop with its two stores, the enqueue
loop, whose search goes on in the machine of `Scheduler/FilterRounds.lean`, the threads of
`CrawledDb`, and the calls of `tryFetchUrls` and `onFetched`, of which any number may be going on.

Here the search reads its URLs from the statistics that the load loop feeds, its target follows from
the counters, and what it finds is written to Kafka record by record.  The scheduler is a machine
(`Lib/Machine.lean`); its callers have names in `ω`.
-/

namespace Contentv1.Scheduler

/-- What a call of `onFetched` does next. -/
inductive Stage
  | urlDb
  | hostDb
  /-- In `CrawledDb::onFetched`, with what it has yet to save. -/
  | crawledDb (todo : List (AttemptStatus × ℤ))
  | incStats
  | returned
  deriving DecidableEq

/-- A call of `onFetched` that is going on. -/
structure Call (ω : Type) where
  caller : ω
  results : List FetchResult
  stage : Stage
  deriving DecidableEq

structure Env where
  json : VisitJson
  /-- The URL parser, the matcher, `misc/Time.h` and `misc::limit_vector`. -/
  rounds : FilterRounds.Env
  pb : GFQRecordDumps
  targetDayCrawl : ℤ

structure State (env : Env) (ω : Type) where
  load : LoadLoop.State
  /-- The search of the enqueue loop, with `HostDb` and `UrlDb`. -/
  rounds : FilterRounds.State
  /-- The rest of the enqueue loop.  While a search goes on it has read its counters. -/
  enqueueTh : EnqueueLoop.EnqueueTh
  /-- The store in `CrawledDb`. -/
  crawledDb : UrlsDaysDb.State
  /-- The topic of the fetch queue. -/
  topic : List env.pb.Dump
  calls : List (Call ω)
  stats : FetchStats
  /-- The results that `HostDb` was told. -/
  heard : List FetchResult

/-- What earlier runs have stored, and the topic as they left it. -/
structure Start (env : Env) where
  limits : CrawlLimits
  robots : OrdMap Host Str
  urlDb : UrlDb
  visits : OrdMap Url UrlDaysPb
  crawled : OrdMap Url UrlDaysPb
  topic : List GFQRecord
  clock : ℤ
  /-- The walk of `_fillUrlFreqStats` over the visits. -/
  calls : List (Url × List UrlTpStat)
  calls_perm : calls.Perm ((UrlsDaysDb.loadSnapshot visits).iterateAll env.rounds.misc)

/-- The constructor. -/
def State.init {env : Env} (ω : Type) (start : Start env) : State env ω :=
  { load := .init start.visits start.calls start.clock
    rounds := .init (.openDb start.limits start.robots) start.urlDb start.clock
    enqueueTh := .idle
    crawledDb := UrlsDaysDb.openDb start.crawled
    topic := start.topic.map (GFQRecord.dump env.pb)
    calls := []
    stats := default
    heard := [] }

inductive Label (ω : Type)
  /-- A step of the load loop or of its stores. -/
  | load (a : LoadLoop.Label)
  /-- A step of a thread of the store in `CrawledDb`. -/
  | crawled (a : UrlsDaysDb.Label)
  /-- `_loopImpl` starts. -/
  | startRound (enqueuedFirst : Bool)
  | readCounter
  | calcToEnqueueNow (hoursTillMidnight : ℕ)
  /-- `getTopUrls` on the lists that its two maps give, and `leaveAllowedByRobots`. -/
  | leaveAllowedByRobots (hourSorted daySorted topUrls : List UrlFreq) (now : ℤ)
  | leaveNeedUrls
  /-- `searchTop` may read `max()` after a merge that came later. -/
  | leaveNeedRobots (needRobotsUniq : List UrlFreq) (max : ℤ)
  /-- The search has ended, and the time of the attempts is taken. -/
  | takeTime (attemptTp : ℤ)
  /-- One `m_kafka_writer->write`. -/
  | push
  | saveEnqueued (now : ℤ)
  | setEnqueued
  | sleep
  /-- `onFetched` is called. -/
  | onFetched (caller : ω) (results : List FetchResult)
  /-- The `i`-th of the calls that are going on does what comes next. -/
  | advance (i : ℕ) (now : ℤ)
  /-- The `i`-th of the calls returns. -/
  | finish (i : ℕ)
  deriving DecidableEq

/-- `topUrls` is a possible result of `getTopUrls` where its maps give these lists. -/
def TopUrls (maps : LastPerMaps) (limit : ℤ) (hourSorted daySorted topUrls : List UrlFreq) : Prop :=
  maps.GetTopHourUrls hourSorted ∧ maps.GetTopDayUrls daySorted ∧
    topUrls.Perm ((daySorted.foldl (LastPerMaps.collectDay limit fun _ => false)
      (hourSorted.foldl (LastPerMaps.collectHour limit fun _ => false) ∅)).toList.map Prod.snd) ∧
    topUrls.Pairwise fun a b => b.2 ≤ a.2

instance (ufm : UrlFreqMap) (urls : List UrlFreq) : Decidable (ufm.GetTopUrls urls) :=
  inferInstanceAs (Decidable (_ ∧ _))

instance (maps : LastPerMaps) (limit : ℤ) (hourSorted daySorted topUrls : List UrlFreq) :
    Decidable (TopUrls maps limit hourSorted daySorted topUrls) :=
  inferInstanceAs (Decidable (maps.hourMap.GetTopUrls _ ∧ maps.dayMap.GetTopUrls _ ∧ _ ∧ _))

variable {env : Env} {ω : Type}

/-- `top_cur`, which `searchTop` doubles after every answer of `_filter`. -/
def topCur (pushTarget : ℤ) (reads : List EnqueueLoop.FilterRead) : ℤ :=
  pushTarget * 2 ^ reads.length

/-- What a call does next. -/
def advance (s : State env ω) (call : Call ω) (now : ℤ) : Option (State env ω × Stage) :=
  match call.stage with
  | .urlDb =>
    (FilterRounds.step env.rounds s.rounds (.onFetched call.results now)).map fun rounds =>
      ({ s with rounds := rounds }, .hostDb)
  | .hostDb =>
    (FilterRounds.step env.rounds s.rounds (.hostOnFetched call.results)).map fun rounds =>
      ({ s with rounds := rounds, heard := s.heard ++ call.results },
        .crawledDb (CrawledDb.onFetched call.results))
  | .crawledDb ((status, cnt) :: todo) =>
    (UrlsDaysDb.step env.rounds.misc s.crawledDb
      (.save (CrawledDb.saveResult status cnt now))).map fun crawledDb =>
        ({ s with crawledDb := crawledDb }, .crawledDb todo)
  | .crawledDb [] => some (s, .incStats)
  | .incStats => some ({ s with stats := s.stats.incStats call.results }, .returned)
  | .returned => none

def step (s : State env ω) : Label ω → Option (State env ω)
  | .load a =>
    if a.ofThreads then
      (LoadLoop.step env.json env.rounds.misc s.load a).map fun load => { s with load := load }
    else none
  | .crawled a =>
    if a.ofThreads then
      (UrlsDaysDb.step env.rounds.misc s.crawledDb a).map fun crawledDb =>
        { s with crawledDb := crawledDb }
    else none
  | .startRound enqueuedFirst =>
    match s.enqueueTh with
    | .idle =>
      if s.load.loadTh.started then
        some { s with enqueueTh := .reading (EnqueueLoop.counterReads enqueuedFirst) 0 0 }
      else none
    | _ => none
  | .readCounter =>
    match s.enqueueTh with
    | .reading (read :: todo) crawledToday inProgress =>
      some { s with
        enqueueTh := EnqueueLoop.readCounter env.rounds.misc s.crawledDb.urlsDays todo crawledToday
          inProgress read }
    | _ => none
  | .calcToEnqueueNow hoursTillMidnight =>
    match s.enqueueTh with
    | .reading [] crawledToday inProgress =>
      let target := EnqueueLoop.calcHourTarget env.targetDayCrawl crawledToday hoursTillMidnight
      (FilterRounds.step env.rounds s.rounds
        (.calcToEnqueueNow (EnqueueLoop.calcToEnqueueNow target inProgress))).map fun rounds =>
          { s with rounds := rounds }
    | _ => none
  | .leaveAllowedByRobots hourSorted daySorted topUrls now =>
    match s.rounds.th with
    | .searching pushTarget reads =>
      if TopUrls s.load.freqStats.maps (EnqueueLoop.toInt (topCur pushTarget reads)) hourSorted
          daySorted topUrls then
        (FilterRounds.step env.rounds s.rounds (.leaveAllowedByRobots topUrls now)).map
          fun rounds => { s with rounds := rounds }
      else none
    | _ => none
  | .leaveNeedUrls =>
    (FilterRounds.step env.rounds s.rounds .leaveNeedUrls).map fun rounds =>
      { s with rounds := rounds }
  | .leaveNeedRobots needRobotsUniq max =>
    (FilterRounds.step env.rounds s.rounds (.leaveNeedRobots needRobotsUniq max)).map fun rounds =>
      { s with rounds := rounds }
  | .takeTime attemptTp =>
    match s.rounds.th with
    | .found pushUrls _ =>
      let pushUrls := EnqueueLoop.toUrlsVec pushUrls
      (FilterRounds.step env.rounds s.rounds (.pushToKafka attemptTp)).map fun rounds =>
        { s with rounds := rounds, enqueueTh := .pushing pushUrls pushUrls attemptTp }
    | _ => none
  | .push =>
    match s.enqueueTh with
    | .pushing (url :: rest) pushUrls attemptTp =>
      let gfq : GFQRecord := ⟨url, env.rounds.misc.toInt64 attemptTp⟩
      some { s with
        enqueueTh := .pushing rest pushUrls attemptTp
        topic := s.topic ++ [gfq.dump env.pb] }
    | _ => none
  | .saveEnqueued now =>
    match s.enqueueTh with
    | .pushing [] pushUrls attemptTp =>
      (UrlsDaysDb.step env.rounds.misc s.crawledDb
        (.save (CrawledDb.saveResult .enqueued pushUrls.length now))).map fun crawledDb =>
          { s with enqueueTh := .saved pushUrls attemptTp, crawledDb := crawledDb }
    | _ => none
  | .setEnqueued =>
    match s.enqueueTh with
    | .saved _ _ =>
      (FilterRounds.step env.rounds s.rounds .setEnqueued).map fun rounds =>
        { s with rounds := rounds, enqueueTh := .returned }
    | _ => none
  | .sleep =>
    match s.enqueueTh with
    | .returned => some { s with enqueueTh := .idle }
    | _ => none
  | .onFetched caller results => some { s with calls := s.calls ++ [⟨caller, results, .urlDb⟩] }
  | .advance i now =>
    s.calls[i]?.bind fun call =>
      (advance s call now).map fun r =>
        { r.1 with calls := s.calls.set i { call with stage := r.2 } }
  | .finish i =>
    s.calls[i]?.bind fun call =>
      if call.stage = .returned then some { s with calls := s.calls.eraseIdx i } else none

/-- `tryFetchUrls`: the allowed records, with the readings of the clock that `HostDb` takes. -/
def tryFetchUrls (s : State env ω) (tryUrls : List (GFQRecord × CrawlReads)) :
    List GFQRecord × State env ω :=
  let acc := s.rounds.hostDb.tryCrawl env.rounds.contribs tryUrls
  (acc.allowed, { s with rounds := { s.rounds with hostDb := acc.db } })

end Contentv1.Scheduler
