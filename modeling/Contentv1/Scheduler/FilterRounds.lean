import Contentv1.Scheduler.EnqueueLoopFilter

/-!
# Rounds of the enqueue loop and the attempts they look at

The thread of `EnqueueLoop::loop` searches URLs, pushes them and enters their attempts in `UrlDb`,
while `Scheduler::onFetched` brings results.  `_needCrawlUrls` locks `HostDb` once and `UrlDb`
twice, so results may come in between its calls as they may come anywhere else.

Here the answers of `_filter` come from the two stores, which `Scheduler/Rounds.lean` leaves open.
What the other components say is any answer at all: how many URLs are wanted (`CrawledDb`), which
URLs are on top and how many there are (`UrlFreqStats`).  The results are of any URLs, pushed or
not.  The clock that the thread of the loop reads does not go back.
-/

namespace Contentv1.FilterRounds

open EnqueueLoop (FilterRead searchTop toUrlsVec)

/-- A round, from its push on. -/
structure Round where
  urls : List Url
  /-- What `_needCrawlUrls` read when it left these URLs. -/
  filterNow : ℤ
  attemptTp : ℤ
  deriving DecidableEq

/-- Where the thread of the loop is. -/
inductive Th
  | idle
  /-- In `searchTop`, with what `_filter` has left so far. -/
  | searching (pushTarget : ℤ) (reads : List FilterRead)
  /-- In `_needCrawlUrls`, after `HostDb::leaveAllowedByRobots`. -/
  | allowed (pushTarget : ℤ) (reads : List FilterRead) (now : ℤ)
    (allowedUrls needRobots : List UrlFreq)
  /-- In `_needCrawlUrls`, after `UrlDb::leaveNeedUrls`. -/
  | needed (pushTarget : ℤ) (reads : List FilterRead) (now : ℤ)
    (needUrls needRobots : List UrlFreq)
  /-- `_checkEnqueueImpl` has returned. -/
  | found (pushUrls : List UrlFreq) (now : ℤ)
  /-- Between the first write to Kafka and `UrlDb::setEnqueued`. -/
  | pushed (round : Round)

structure State where
  th : Th
  hostDb : HostDb
  urlDb : UrlDb
  /-- The rounds whose attempts have been entered. -/
  rounds : List Round
  /-- The last reading of the clock in the thread of the loop. -/
  clock : ℤ

/-- The program starts with the stores of earlier runs. -/
def State.init (hostDb : HostDb) (urlDb : UrlDb) (clock : ℤ) : State :=
  { th := .idle, hostDb := hostDb, urlDb := urlDb, rounds := [], clock := clock }

/-- All rounds that have pushed, in their order. -/
def State.pushedRounds (s : State) : List Round :=
  match s.th with
  | .pushed round => s.rounds ++ [round]
  | _ => s.rounds

/-- What the machine takes from outside. -/
structure Env where
  contribs : Contribs
  misc : MiscTime
  /-- `misc::limit_vector`. -/
  limitVector : List UrlFreq → ℤ → List UrlFreq

inductive Label
  /-- `_calcToEnqueueNow` gives the target. -/
  | calcToEnqueueNow (pushTarget : ℤ)
  /-- `getTopUrls` gives the URLs, of which `HostDb` leaves those that robots.txt allows. -/
  | leaveAllowedByRobots (topUrls : List UrlFreq) (now : ℤ)
  | leaveNeedUrls
  /-- `reduceUrlFreqs` and `UrlDb::leaveNeedRobots`, after which `searchTop` looks at `max()`. -/
  | leaveNeedRobots (needRobotsUniq : List UrlFreq) (max : ℤ)
  | pushToKafka (attemptTp : ℤ)
  | setEnqueued
  /-- `UrlDb::onFetched`.  Its thread has a clock reading of its own. -/
  | onFetched (results : List FetchResult) (now : ℤ)
  /-- `HostDb::onFetched`.  Of what `HostDb` holds the loop looks at the texts only, and nobody else
  changes those. -/
  | hostOnFetched (results : List FetchResult)
  deriving DecidableEq

/-- `searchTop`, as far as the answers of `_filter` go. -/
def searchReads (env : Env) (pushTarget : ℤ) : List FilterRead → Option (List UrlFreq)
  | [] => none
  | first :: reads => searchTop env.limitVector pushTarget first.pushUrls reads

/-- After an answer of `_filter` the search goes on or ends. -/
def afterFilter (env : Env) (pushTarget : ℤ) (reads : List FilterRead) (now : ℤ) : Th :=
  (searchReads env pushTarget reads).elim (.searching pushTarget reads) fun pushUrls =>
    .found pushUrls now

def step (env : Env) (s : State) : Label → Option State
  | .calcToEnqueueNow pushTarget =>
    match s.th with
    | .idle =>
      -- without a need there is no search, and the round goes on with no URLs
      some { s with
        th := if pushTarget ≤ 0 then .found [] s.clock else .searching pushTarget [] }
    | _ => none
  | .leaveAllowedByRobots topUrls now =>
    match s.th with
    | .searching pushTarget reads =>
      if s.clock ≤ now then
        let left := s.hostDb.leaveAllowedByRobots env.contribs topUrls
        some { s with
          th := .allowed pushTarget reads now left.allowed left.needRobots
          clock := now }
      else none
    | _ => none
  | .leaveNeedUrls =>
    match s.th with
    | .allowed pushTarget reads now allowedUrls needRobots =>
      let needUrls := (s.urlDb.leaveNeedUrls allowedUrls now).2
      some { s with th := .needed pushTarget reads now needUrls needRobots }
    | _ => none
  | .leaveNeedRobots needRobotsUniq max =>
    match s.th with
    | .needed pushTarget reads now needUrls needRobots =>
      if ReduceUrlFreqs needRobots needRobotsUniq then
        let needRobotsUniqFiltered := (s.urlDb.leaveNeedRobots needRobotsUniq now).2
        some { s with
          th := afterFilter env pushTarget
            (reads ++ [⟨needRobotsUniqFiltered ++ needUrls, max⟩]) now }
      else none
    | _ => none
  | .pushToKafka attemptTp =>
    match s.th with
    | .found pushUrls now =>
      if s.clock ≤ attemptTp then
        some { s with th := .pushed ⟨toUrlsVec pushUrls, now, attemptTp⟩, clock := attemptTp }
      else none
    | _ => none
  | .setEnqueued =>
    match s.th with
    | .pushed round =>
      some { s with
        th := .idle
        urlDb := s.urlDb.setEnqueued env.misc round.urls round.attemptTp
        rounds := s.rounds ++ [round] }
    | _ => none
  | .onFetched results now =>
    (s.urlDb.onFetched env.misc results now).map fun urlDb => { s with urlDb := urlDb }
  | .hostOnFetched results =>
    some { s with hostDb := s.hostDb.onFetched env.contribs results }

end Contentv1.FilterRounds
