import Contentv1.Core.FetchResult

/-!
# Counters of fetches (`core/FetchStats.h`)

The workers count their responses and the scheduler the results that are reported to it, both in the
same four ways.
-/

namespace Contentv1

structure FetchStats where
  pushed : ℕ
  success : ℕ
  fail : ℕ
  robotsSuccess : ℕ
  robotsFail : ℕ
  deriving DecidableEq, Repr

namespace FetchStats

instance : Inhabited FetchStats := ⟨⟨0, 0, 0, 0, 0⟩⟩

/-- What is counted for one fetch. -/
def inc (stats : FetchStats) (isOk isRobots : Bool) : FetchStats :=
  if isOk then
    if isRobots then { stats with robotsSuccess := stats.robotsSuccess + 1 }
    else { stats with success := stats.success + 1 }
  else if isRobots then { stats with robotsFail := stats.robotsFail + 1 }
  else { stats with fail := stats.fail + 1 }

/-- `Scheduler::_incStats`. -/
def incStats (stats : FetchStats) (results : List FetchResult) : FetchStats :=
  results.foldl (fun stats r => stats.inc r.isOk r.isRobots) stats

/-- `operator==`, which leaves out the records that were pushed. -/
def eq (a b : FetchStats) : Bool :=
  a.success == b.success && a.fail == b.fail && a.robotsSuccess == b.robotsSuccess &&
    a.robotsFail == b.robotsFail

end FetchStats

end Contentv1
