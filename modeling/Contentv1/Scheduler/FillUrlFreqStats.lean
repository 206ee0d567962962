import Contentv1.Ldb.UrlsDays

/-!
# Seeding the frequency statistics at start-up (`Scheduler::_fillUrlFreqStats`)
-/

namespace Contentv1

/-- The calls `insertVisitsPack(_utsv[i], now)` for the callbacks `calls` of `iterateAll`, and the
number returned. -/
def fillUrlFreqStats (calls : List (Url × List UrlTpStat)) (now : ℤ) :
    List (UrlTpStat × ℤ) × ℤ :=
  calls.foldl
    (fun acc c => c.2.foldl (fun acc uts => (acc.1 ++ [(uts, now)], acc.2 + 1)) acc) ([], 0)

end Contentv1
