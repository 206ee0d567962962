import Contentv1.Core.UrlFreqMap

/-!
# Frequency statistics (`core/LastPerMaps.cpp`, `core/UrlFreqStats.cpp`, `core/UrlFreqStatsLF.h`)

`LastPerMaps` holds a window of one hour and one of one day.  `UrlFreqStats` inserts into one
`LastPerMaps` under a lock; `UrlFreqStatsLF` collects visits in a merge queue and merges them into
its `LastPerMaps` in rounds.  Both answer `max` and `getTopUrls` from their `LastPerMaps` alone.
-/

namespace Contentv1

structure LastPerMaps where
  hourMap : UrlFreqMap
  dayMap : UrlFreqMap

namespace LastPerMaps

/-- The constructor: windows of one hour and of one day. -/
def init : LastPerMaps := ⟨.ofWindow 3600, .ofWindow 86400⟩

def max (maps : LastPerMaps) : ℤ := Max.max maps.hourMap.size maps.dayMap.size

def insert (maps : LastPerMaps) (urlVisit : UrlVisit) (now : ℤ) : LastPerMaps :=
  ⟨maps.hourMap.insert urlVisit now, maps.dayMap.insert urlVisit now⟩

def insertVisitsPack (maps : LastPerMaps) (uts : UrlTpStat) (now : ℤ) : LastPerMaps :=
  ⟨maps.hourMap.insertVisitsPack uts now, maps.dayMap.insertVisitsPack uts now⟩

def merge (maps a : LastPerMaps) : LastPerMaps :=
  ⟨maps.hourMap.merge a.hourMap, maps.dayMap.merge a.dayMap⟩

/-- `r` is a possible result of `getTopHourUrls`. -/
def GetTopHourUrls (maps : LastPerMaps) (r : List UrlFreq) : Prop := maps.hourMap.GetTopUrls r

/-- `r` is a possible result of `getTopDayUrls`. -/
def GetTopDayUrls (maps : LastPerMaps) (r : List UrlFreq) : Prop := maps.dayMap.GetTopUrls r

/-! ### `getTopUrls` of both statistics -/

/-- The `int` limit as the `size_t` it is compared with. -/
def limitSize (limit : ℤ) : ℕ := (limit % 2 ^ 64).toNat

/-- The loop over the hour's URLs. -/
def collectHour (limit : ℤ) (filter : Url → Bool) (rMap : OrdMap Url UrlFreq) (uf : UrlFreq) :
    OrdMap Url UrlFreq :=
  if !filter uf.1 && decide (rMap.size < limitSize limit) then rMap.insert uf.1 uf else rMap

/-- The loop over the day's URLs. -/
def collectDay (limit : ℤ) (filter : Url → Bool) (rMap : OrdMap Url UrlFreq) (uf : UrlFreq) :
    OrdMap Url UrlFreq :=
  if !filter uf.1 && decide (rMap.size < limitSize limit) then
    -- what is in the hour as well is counted for both
    rMap.alter uf.1 fun o => some (o.elim uf fun r => (r.1, r.2 + uf.2))
  else rMap

/-- `r` is a possible result of `getTopUrls(_r, limit, filter)`. -/
def GetTopUrls (maps : LastPerMaps) (limit : ℤ) (filter : Url → Bool) (r : List UrlFreq) : Prop :=
  ∃ hourSorted daySorted, maps.hourMap.GetTopUrls hourSorted ∧ maps.dayMap.GetTopUrls daySorted ∧
    let rMap := daySorted.foldl (collectDay limit filter)
      (hourSorted.foldl (collectHour limit filter) ∅)
    r.Perm (rMap.toList.map Prod.snd) ∧ r.Pairwise fun a b => b.2 ≤ a.2

end LastPerMaps

/-- `UrlFreqStats::insertVisitsPack` for packs that come one after another, each with the time it
is inserted at. -/
def UrlFreqStats.insertAll (maps : LastPerMaps) (packs : List (UrlTpStat × ℤ)) : LastPerMaps :=
  packs.foldl (fun maps p => maps.insertVisitsPack p.1 p.2) maps

namespace UrlFreqStatsLF

/-- `accEvent`; `now` is the reading of the clock. -/
def accEvent (ufms : LastPerMaps) (ev : UrlTpStat) (now : ℤ) : LastPerMaps :=
  ufms.insertVisitsPack ev now

/-- One round of the merge queue: the pushed events go to `accEvent` on fresh maps, and these are
merged into a copy of the global ones, which takes their place. -/
def mergeRound (maps : LastPerMaps) (events : List (UrlTpStat × ℤ)) : LastPerMaps :=
  let loc := events.foldl (fun ufms p => accEvent ufms p.1 p.2) .init
  maps.merge loc

/-- The global maps after the given rounds. -/
def runRounds (rounds : List (List (UrlTpStat × ℤ))) : LastPerMaps :=
  rounds.foldl mergeRound .init

end UrlFreqStatsLF

end Contentv1
