import Contentv1.Core.Types
import Contentv1.Lib.OrdMap

/-!
# Visits by day (`ldb/UrlsDays.h`)

`UrlsDays DAYS` counts the visits of each URL by day and keeps the last `DAYS` days.  Both levels
are associative containers: `UrlsDays` maps a URL to a `UrlDaysImpl`, which maps a day string to a
count.  Each loop over such a container is a fold over its entries in the order of the keys;
`merge_eq_foldl_perm` (in `Equiv`) shows that the outer loop, which the source runs over an
`unordered_map`, does the same in every order.
-/

namespace Contentv1

/-- The message a `UrlDaysImpl` is dumped as (`proto/UrlDays.proto`). -/
structure UrlDaysPb where
  url : Str
  urlDays : List (Str × ℤ)
  deriving DecidableEq, Repr

/-- The visits of one URL. -/
structure UrlDaysImpl where
  url : Str
  dayVisits : OrdMap Str ℤ

namespace UrlDaysImpl

/-- The default constructor, which `operator[]` applies to a missing key. -/
instance : Inhabited UrlDaysImpl := ⟨⟨default, ∅⟩⟩

/-- The constructor from a URL alone. -/
def ofUrl (url : Url) : UrlDaysImpl := ⟨url, ∅⟩

def toUTSV (misc : MiscTime) (impl : UrlDaysImpl) : List UrlTpStat :=
  impl.dayVisits.toList.map fun p => ⟨impl.url, misc.tpFromDayStr p.1, p.2⟩

def dump (impl : UrlDaysImpl) : UrlDaysPb := ⟨impl.url, impl.dayVisits.toList⟩

/-- The constructor from a dump. -/
def ofDump (pb : UrlDaysPb) : UrlDaysImpl :=
  ⟨pb.url, pb.urlDays.foldl (fun m p => m.insert p.1 p.2) ∅⟩

/-- `day_visits[day] += cnt`. -/
def addVisits (m : OrdMap Str ℤ) (day : Str) (cnt : ℤ) : OrdMap Str ℤ :=
  m.alter day fun o => some (o.getD 0 + cnt)

/-- Drop the days before the day of `now - duration`. -/
def checkClean (misc : MiscTime) (duration : ℤ) (impl : UrlDaysImpl) (now : ℤ) : UrlDaysImpl :=
  let lastStoreDayStr := misc.getDayStr (now - duration)
  { impl with dayVisits := impl.dayVisits.eraseIf fun day => decide (day < lastStoreDayStr) }

/-- Add the visits of `uds`.  The URL is left as it is, and an entry without days takes the days of
`uds` uncleaned. -/
def merge (misc : MiscTime) (duration : ℤ) (impl uds : UrlDaysImpl) (now : ℤ) : UrlDaysImpl :=
  if impl.dayVisits.isEmpty then { impl with dayVisits := uds.dayVisits }
  else
    checkClean misc duration
      { impl with
        dayVisits := uds.dayVisits.toList.foldl (fun m p => addVisits m p.1 p.2) impl.dayVisits }
      now

end UrlDaysImpl

/-- The visits of every URL in the last `DAYS` days. -/
structure UrlsDays (DAYS : ℕ) where
  urlsDays : OrdMap Url UrlDaysImpl

namespace UrlsDays

variable {DAYS : ℕ}

/-- `m_duration`. -/
def duration (DAYS : ℕ) : ℤ := days (DAYS - 1)

instance : Inhabited (UrlsDays DAYS) := ⟨⟨∅⟩⟩

/-- Count `utp.cnt` visits.  Visits that are too old at `now` are dropped. -/
def add (misc : MiscTime) (ud : UrlsDays DAYS) (utp : UrlTpStat) (now : ℤ) : UrlsDays DAYS :=
  if duration DAYS < now - utp.tp then ud
  else
    let dayKey := misc.getDayStr utp.tp
    -- a new entry is named here, unlike in `merge`
    let stats := ud.urlsDays[utp.url]?.getD (UrlDaysImpl.ofUrl utp.url)
    let stats := { stats with dayVisits := UrlDaysImpl.addVisits stats.dayVisits dayKey utp.cnt }
    ⟨ud.urlsDays.insert utp.url (stats.checkClean misc (duration DAYS) now)⟩

/-- One turn of the loop of `merge`: `m_urls_days[url].merge(impl, now)`. -/
def mergeEntry (DAYS : ℕ) (misc : MiscTime) (now : ℤ) (m : OrdMap Url UrlDaysImpl)
    (p : Url × UrlDaysImpl) : OrdMap Url UrlDaysImpl :=
  m.alter p.1 fun o => some ((o.getD default).merge misc (duration DAYS) p.2 now)

/-- Add the visits of `uds`, URL by URL. -/
def merge (misc : MiscTime) (ud uds : UrlsDays DAYS) (now : ℤ) : UrlsDays DAYS :=
  ⟨uds.urlsDays.toList.foldl (mergeEntry DAYS misc now) ud.urlsDays⟩

def size (ud : UrlsDays DAYS) : ℤ := ud.urlsDays.size

def empty (ud : UrlsDays DAYS) : Bool := ud.urlsDays.isEmpty

/-- The days of a URL, `none` where the source returns false. -/
def getUTSV (misc : MiscTime) (ud : UrlsDays DAYS) (url : Url) : Option (List UrlTpStat) :=
  ud.urlsDays[url]?.map (UrlDaysImpl.toUTSV misc)

/-- The arguments of the callback.  The order of the calls is that of an `unordered_map`: results
about them hold for every permutation of this list. -/
def iterateAll (misc : MiscTime) (ud : UrlsDays DAYS) : List (Url × List UrlTpStat) :=
  ud.urlsDays.toList.map fun p => (p.1, p.2.toUTSV misc)

end UrlsDays

end Contentv1
