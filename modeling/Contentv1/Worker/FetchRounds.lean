import Contentv1.Ldb.HostDb
import Contentv1.Worker.FetchLoop

/-!
# Merge rounds of a worker on its scheduler's `HostDb`

The worker of `Worker/FetchLoop.lean` with the scheduler that answers it: `Scheduler::tryFetchUrls`
is `HostDb::tryCrawl` on the records, and the result of each fetch goes to `HostDb::onFetched`.
While the merge queue is long, `FetchLoop::loop` sleeps, so there is no label of a record that is
read.

A merge round is one label of `roundStep`: what happens from its start on until the next one.
-/

namespace Contentv1.FetchRounds

structure State where
  worker : FetchLoop.State
  hostDb : HostDb

inductive Label
  | startRound
  | accEvent (i : ℕ)
  | drained
  /-- A turn of the loop of `_sendToCurl`, with the readings of the clock that `HostDb` takes. -/
  | tryFetchUrls (now : List CrawlReads)
  | sent
  /-- The HTTP client answers the `i`-th of its calls. -/
  | onResponse (i : ℕ) (success : Bool) (curlerror resp : Str)
  deriving DecidableEq

/-- The records of the next call of the scheduler. -/
def State.tryUrls (env : FetchLoop.Env) (s : State) : List GFQRecord :=
  match s.worker.mergeTh with
  | .sending a => (a.getReqs env.maxRequestsInBatch).2
  | _ => []

/-- A step of the worker that does not call the scheduler. -/
def State.stepWorker (env : FetchLoop.Env) (s : State) (label : FetchLoop.Label) : Option State :=
  (FetchLoop.step env s.worker label).map fun worker => { s with worker := worker }

def step (env : FetchLoop.Env) (c : Contribs) (s : State) : Label → Option State
  | .startRound => s.stepWorker env .startRound
  | .accEvent i => s.stepWorker env (.accEvent i)
  | .drained => s.stepWorker env .drained
  | .tryFetchUrls now =>
    if now.length = (s.tryUrls env).length then
      let acc := s.hostDb.tryCrawl c ((s.tryUrls env).zip now)
      (FetchLoop.step env s.worker (.tryFetchUrls acc.allowed)).map fun worker => ⟨worker, acc.db⟩
    else none
  | .sent => s.stepWorker env .sent
  | .onResponse i success curlerror resp =>
    s.worker.client[i]?.bind fun gfq =>
      (FetchLoop.step env s.worker (.onResponse i)).map fun worker =>
        ⟨worker, s.hostDb.onFetched c [FetchLoop.responseResult gfq success curlerror resp]⟩

/-! ### Rounds -/

/-- A merge round that starts at a moment: the labels after `startRound`. -/
structure Round where
  now : ℤ
  labels : List Label

/-- The rounds follow one another. -/
def Round.OneStart (r : Round) : Prop := Label.startRound ∉ r.labels

instance (r : Round) : Decidable r.OneStart := inferInstanceAs (Decidable (_ ∉ _))

def roundStep (env : FetchLoop.Env) (c : Contribs) (s : State) (r : Round) : Option State :=
  if r.OneStart then
    (Machine.run (step env c) s (.startRound :: r.labels)).filter fun t => t.worker.mergeTh = .idle
  else none

/-- `FetchLoop::loop` does not sleep. -/
def readsKafka (kafkaReadBatchSize : ℕ) (s : State) : Bool :=
  ! decide (kafkaReadBatchSize < s.worker.queue.length)

end Contentv1.FetchRounds
