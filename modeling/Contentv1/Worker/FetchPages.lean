import Contentv1.Core.FetchStats
import Contentv1.Worker.FetchLoop
import Contentv1.Ldb.UrlDb
import Contentv1.Ldb.PageDb

/-!
# What a response leaves in the two stores (`worker/FetchLoop.cpp`)

`_onResponse` reports the result of a response to the scheduler, which enters it in `UrlDb`, and
then saves the page in the page store.  Nothing ties the two writes together, and `IPageDb::save`
reports failure by an exception, as `PageDbScylla::upsertWebPage` does; `_onResponse` does not catch
it.

The system is a machine (`Lib/Machine.lean`): `EnqueueLoop` enqueues URLs and the worker handles
responses, whatever they are of.
-/

namespace Contentv1.FetchPages

/-- `HttpClient::JobInfo`, as far as the handler looks at it. -/
structure JobInfo where
  userdata : GFQRecord
  success : Bool
  curlerror : Str
  resp : Str
  deriving DecidableEq, Repr

/-- The result that is reported. -/
def JobInfo.result (ji : JobInfo) : FetchResult :=
  FetchLoop.responseResult ji.userdata ji.success ji.curlerror ji.resp

/-- How a call of `IPageDb::save` ends. -/
inductive SaveOutcome
  | returned
  /-- The store may have the page nevertheless, as after a time-out. -/
  | threw (stored : Bool)
  deriving DecidableEq, Repr

/-- The store has the page after the call. -/
def SaveOutcome.stored : SaveOutcome → Bool
  | returned => true
  | threw stored => stored

structure State where
  /-- The attempts, on the scheduler. -/
  urlDb : UrlDb
  pageDb : PageDb
  stats : FetchStats
  /-- The responses handled so far. -/
  handled : List JobInfo

def State.init : State :=
  { urlDb := default, pageDb := default, stats := default, handled := [] }

inductive Label
  | setEnqueued (urls : List Url) (now : ℤ)
  /-- `_onResponse`; `now` is the scheduler's clock, and `save` is looked at only for a page. -/
  | onResponse (ji : JobInfo) (now : ℤ) (save : SaveOutcome)
  deriving DecidableEq

/-- The second half of `_onResponse`. -/
def savePage (pageDb : PageDb) (ji : JobInfo) (save : SaveOutcome) : PageDb :=
  if ji.success && !ji.userdata.isRobots then
    if save.stored then pageDb.save ji.userdata.url ji.resp else pageDb
  else pageDb

def step (misc : MiscTime) (s : State) : Label → Option State
  | .setEnqueued urls now => some { s with urlDb := s.urlDb.setEnqueued misc urls now }
  | .onResponse ji now save =>
    -- the scheduler is told before the page is saved
    (s.urlDb.onFetched misc [ji.result] now).map fun urlDb =>
      { urlDb := urlDb
        pageDb := savePage s.pageDb ji save
        stats := s.stats.inc ji.success ji.userdata.isRobots
        handled := s.handled ++ [ji] }

end Contentv1.FetchPages
