import Contentv1.Ldb.HostDb
import Contentv1.Worker.FetchLoop

/-!
# Workers and the scheduler over the network (`scheduler/rpc`)

A worker calls the scheduler through `SchedulerClient`: before it fetches, by `TryFetchUrls`, to
which the server answers with the records that `HostDb` allows, and after each fetch by `OnFetched`.
Requests and replies may be lost.  The RPC then returns a status that is not ok, of which the client
writes a log line: it goes on with the empty reply, and nothing is sent again.

The system is a machine (`Lib/Machine.lean`) whose labels name the messages by their places in
`net`, so they are handled in any order.  `UrlDb` and `CrawledDb`, which `Scheduler::onFetched`
calls as well, have no part in it.
-/

namespace Contentv1.SchedulerRpc

/-- The messages in flight, with the worker that makes the call. -/
inductive Msg
  | tryFetchRequest (worker : ℕ) (tryUrls : List GFQRecord)
  | tryFetchReply (worker : ℕ) (allowedUrls : List GFQRecord)
  | onFetchedRequest (worker : ℕ) (results : List FetchResult)
  | onFetchedReply (worker : ℕ)
  deriving DecidableEq, Repr

structure State where
  hostDb : HostDb
  net : List Msg
  /-- The fetches that are outstanding at the workers. -/
  fetching : List (ℕ × GFQRecord)
  /-- The records in the lost replies of `TryFetchUrls` and in the lost requests of `OnFetched`. -/
  lost : List GFQRecord

/-- The server starts on the robots texts stored before. -/
def State.init (limits : CrawlLimits) (robots : OrdMap Host Str) : State :=
  { hostDb := HostDb.openDb limits robots, net := [], fetching := [], lost := [] }

inductive Label
  /-- A worker calls `tryFetchUrls`. -/
  | callTryFetchUrls (worker : ℕ) (tryUrls : List GFQRecord)
  /-- The server handles the `i`-th message, with the readings of the clock that `HostDb` takes. -/
  | serve (i : ℕ) (now : List CrawlReads)
  /-- The client gets the `i`-th message. -/
  | receive (i : ℕ)
  /-- The `i`-th message is lost. -/
  | lose (i : ℕ)
  /-- The `i`-th fetch is done, and its worker calls `onFetched`. -/
  | respond (i : ℕ) (success : Bool) (curlerror resp : Str)
  deriving DecidableEq

/-- The records of a message for which `HostDb` counts a crawl that the message is to end or to
start. -/
def Msg.counted : Msg → List GFQRecord
  | .tryFetchReply _ allowedUrls => allowedUrls
  | .onFetchedRequest _ results => results.map FetchResult.gfq
  | _ => []

def step (c : Contribs) (s : State) : Label → Option State
  | .callTryFetchUrls worker tryUrls =>
    some { s with net := s.net ++ [.tryFetchRequest worker tryUrls] }
  | .serve i now =>
    match s.net[i]? with
    | some (.tryFetchRequest worker tryUrls) =>
      if now.length = tryUrls.length then
        let acc := s.hostDb.tryCrawl c (tryUrls.zip now)
        some { s with
          hostDb := acc.db
          net := s.net.eraseIdx i ++ [.tryFetchReply worker acc.allowed] }
      else none
    | some (.onFetchedRequest worker results) =>
      some { s with
        hostDb := s.hostDb.onFetched c results
        net := s.net.eraseIdx i ++ [.onFetchedReply worker] }
    | _ => none
  | .receive i =>
    match s.net[i]? with
    | some (.tryFetchReply worker allowedUrls) =>
      some { s with
        net := s.net.eraseIdx i
        fetching := s.fetching ++ allowedUrls.map fun gfq => (worker, gfq) }
    | some (.onFetchedReply _) => some { s with net := s.net.eraseIdx i }
    | _ => none
  | .lose i =>
    -- the worker goes on as after an empty reply, so nothing of it is left to do
    s.net[i]?.map fun msg =>
      { s with net := s.net.eraseIdx i, lost := s.lost ++ msg.counted }
  | .respond i success curlerror resp =>
    s.fetching[i]?.map fun p =>
      { s with
        fetching := s.fetching.eraseIdx i
        net := s.net
          ++ [.onFetchedRequest p.1 [FetchLoop.responseResult p.2 success curlerror resp]] }

end Contentv1.SchedulerRpc
