import Contentv1.Worker.ReqBatch
import Contentv1.Lib.SortedDiff
import Contentv1.Lib.Machine

/-!
# The worker's fetch loop (`worker/FetchLoop.cpp`, `worker/FetchLoop.h`)

A thread reads records from Kafka and pushes them into a `misc::MergeQueue`, whose thread calls
`accEvent`, `copyGlobalObj`, `merge` and `switchGlobalObj` in rounds.  `switchGlobalObj` cuts the
batch, asks the scheduler which records of the cut may be fetched, hands those to the HTTP client
and pushes the others back into the queue.

The worker is a machine (`Lib/Machine.lean`).  The records that the client has answered stay in the
state, as does all that was read.  `misc::MergeQueue`, the vector operations of `misc` and the HTTP
client are not part of the repository: a round drains the queue before it copies, the subtraction is
`std::set_difference`, and the client answers each call once.
-/

namespace Contentv1.FetchLoop

/-- Where the thread of the merge queue is in a round. -/
inductive MergeTh
  | idle
  /-- It dequeues events, with the `ReqBatch` that it hands to `accEvent`. -/
  | draining (updLocal : ReqBatch)
  /-- In `_sendToCurl`. -/
  | sending (a : ReqBatch)
  deriving DecidableEq

structure State where
  /-- The merge queue, which keeps no order between the elements of its two producers. -/
  queue : List GFQRecord
  mergeTh : MergeTh
  /-- `m_req_batch`. -/
  reqBatch : ReqBatch
  /-- The calls that the HTTP client has not answered. -/
  client : List GFQRecord
  answered : List GFQRecord
  read : List GFQRecord

def State.init : State :=
  { queue := [], mergeTh := .idle, reqBatch := default, client := [], answered := [], read := [] }

structure Env where
  /-- `std::sort`. -/
  stdSort : StdSort GFQRecord.url
  maxRequestsInBatch : ℕ

inductive Label
  /-- The callback of `GFQReader::read`. -/
  | read (gfq : GFQRecord)
  | startRound
  /-- The `i`-th of the queued events is dequeued. -/
  | accEvent (i : ℕ)
  /-- The queue is found empty; then `copyGlobalObj`, `merge` and `switchGlobalObj`. -/
  | drained
  /-- A turn of the loop of `_sendToCurl`, in which the scheduler allows `allowedUrls`. -/
  | tryFetchUrls (allowedUrls : List GFQRecord)
  /-- The loop ends, and `switchGlobalObj` with it. -/
  | sent
  /-- The HTTP client answers the `i`-th of its calls. -/
  | onResponse (i : ℕ)
  deriving DecidableEq

/-- The batches after `accEvent`: the given one and `m_req_batch`, to which it writes. -/
def accEvent (batch reqBatch : ReqBatch) (req : GFQRecord) : ReqBatch × ReqBatch :=
  (batch, reqBatch.acc req)

/-- What the loop pushes back. -/
def disallowedUrls (env : Env) (tryUrls allowedUrls : List GFQRecord) : List GFQRecord :=
  SortedDiff.setDifference GFQRecord.url (env.stdSort.sort tryUrls) (env.stdSort.sort allowedUrls)

/-- The result that `_onResponse` reports. -/
def responseResult (userdata : GFQRecord) (success : Bool) (curlerror resp : Str) : FetchResult :=
  { gfq := userdata
    status := if success then .ok else .curlErr
    errorStr := if success then default else curlerror
    content := if success && userdata.isRobots then resp else default }

def step (env : Env) (s : State) : Label → Option State
  | .read gfq => some { s with queue := s.queue ++ [gfq], read := s.read ++ [gfq] }
  | .startRound =>
    match s.mergeTh with
    | .idle => some { s with mergeTh := .draining default }
    | _ => none
  | .accEvent i =>
    match s.mergeTh, s.queue[i]? with
    | .draining updLocal, some req =>
      let (updLocal, reqBatch) := accEvent updLocal s.reqBatch req
      some { s with
        queue := s.queue.eraseIdx i
        mergeTh := .draining updLocal
        reqBatch := reqBatch }
    | _, _ => none
  | .drained =>
    match s.mergeTh, s.queue with
    | .draining updLocal, [] =>
      -- the copy has the events already, and what is merged into it has none
      let globalCopy := s.reqBatch
      some { s with mergeTh := .sending (globalCopy.merge updLocal) }
    | _, _ => none
  | .tryFetchUrls allowedUrls =>
    match s.mergeTh with
    | .sending a =>
      let (batchSize, tryUrls) := a.getReqs env.maxRequestsInBatch
      -- the cut leaves the batch before the scheduler is asked
      if ¬a.empty ∧ allowedUrls.Subperm tryUrls then
        (a.slice batchSize).map fun a =>
          { s with
            queue := s.queue ++ disallowedUrls env tryUrls allowedUrls
            mergeTh := .sending a
            client := s.client ++ allowedUrls }
      else none
    | _ => none
  | .sent =>
    match s.mergeTh with
    | .sending a => if a.empty then some { s with mergeTh := .idle, reqBatch := a } else none
    | _ => none
  | .onResponse i =>
    s.client[i]?.map fun gfq =>
      { s with client := s.client.eraseIdx i, answered := s.answered ++ [gfq] }

/-- `_sendToCurl` from its start to its end, with a scheduler that answers the `n`-th call by
`tryFetchUrls n`; `none` where the fuel does not do. -/
def sendToCurl (env : Env) (tryFetchUrls : ℕ → List GFQRecord → List GFQRecord) :
    ℕ → ℕ → State → Option State
  | 0, _, _ => none
  | fuel + 1, n, s =>
    match s.mergeTh with
    | .sending a =>
      if a.empty then step env s .sent
      else
        let allowedUrls := tryFetchUrls n (a.getReqs env.maxRequestsInBatch).2
        (step env s (.tryFetchUrls allowedUrls)).bind (sendToCurl env tryFetchUrls fuel (n + 1))
    | _ => none

end Contentv1.FetchLoop
