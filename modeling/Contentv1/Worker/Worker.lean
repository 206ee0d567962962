import Contentv1.Core.FetchStats
import Contentv1.Worker.FetchPages

/-!
# A worker and its calls of the scheduler (`worker/FetchLoop.cpp`)

The machine of `Worker/FetchLoop.lean` takes the answer of the scheduler in the step in which it
asks.  Here the question and the answer are two steps, for the scheduler is behind a network: while
the thread of the merge queue waits in `tryFetchUrls`, records are read and responses come in, and
the thread of the HTTP client waits in `onFetched` before it saves a page.
-/

namespace Contentv1.Worker

open FetchPages (JobInfo SaveOutcome savePage)

structure State where
  fetch : FetchLoop.State
  /-- `_sendToCurl` waits for `tryFetchUrls`. -/
  asking : Bool
  /-- `_onResponse` waits for `onFetched`. -/
  responding : Option JobInfo
  stats : FetchStats
  pageDb : PageDb

def State.init (pageDb : PageDb) : State :=
  { fetch := .init, asking := false, responding := none, stats := default, pageDb := pageDb }

/-- The steps that the thread of the merge queue takes alone. -/
def ofMergeTh : FetchLoop.Label → Bool
  | .startRound | .accEvent _ | .drained | .sent => true
  | _ => false

/-- The callback of `GFQReader::read`. -/
def read (env : FetchLoop.Env) (s : State) (gfq : GFQRecord) : Option State :=
  (FetchLoop.step env s.fetch (.read gfq)).map fun fetch =>
    { s with fetch := fetch, stats := { s.stats with pushed := s.stats.pushed + 1 } }

def mergeStep (env : FetchLoop.Env) (s : State) (a : FetchLoop.Label) : Option State :=
  if ofMergeTh a then
    (FetchLoop.step env s.fetch a).map fun fetch => { s with fetch := fetch }
  else none

/-- The records that the next turn of `_sendToCurl` asks for. -/
def State.tryUrls (env : FetchLoop.Env) (s : State) : List GFQRecord :=
  match s.fetch.mergeTh with
  | .sending a => (a.getReqs env.maxRequestsInBatch).2
  | _ => []

/-- A turn of `_sendToCurl` up to its call of `tryFetchUrls`. -/
def ask (s : State) : Option State :=
  match s.fetch.mergeTh with
  | .sending a => if s.asking ∨ a.empty then none else some { s with asking := true }
  | _ => none

/-- The rest of the turn. -/
def answer (env : FetchLoop.Env) (s : State) (allowedUrls : List GFQRecord) : Option State :=
  if s.asking then
    (FetchLoop.step env s.fetch (.tryFetchUrls allowedUrls)).map fun fetch =>
      { s with fetch := fetch, asking := false }
  else none

/-- The response to the `i`-th call of the HTTP client. -/
def State.jobInfo (s : State) (i : ℕ) (success : Bool) (curlerror resp : Str) : Option JobInfo :=
  s.fetch.client[i]?.map fun gfq => ⟨gfq, success, curlerror, resp⟩

/-- `_onResponse` up to its call of `onFetched`. -/
def respond (env : FetchLoop.Env) (s : State) (i : ℕ) (ji : JobInfo) : Option State :=
  if s.responding.isNone then
    (FetchLoop.step env s.fetch (.onResponse i)).map fun fetch =>
      { s with
        fetch := fetch
        responding := some ji
        stats := s.stats.inc ji.success ji.userdata.isRobots }
  else none

/-- The rest of `_onResponse`. -/
def reported (s : State) (save : SaveOutcome) : Option State :=
  s.responding.map fun ji =>
    { s with responding := none, pageDb := savePage s.pageDb ji save }

end Contentv1.Worker
