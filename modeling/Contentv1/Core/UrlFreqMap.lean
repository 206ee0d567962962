import Contentv1.Core.Types
import Contentv1.Lib.OrdMap

/-!
# Visits in a sliding window (`core/UrlFreqMap.cpp`)

A `UrlFreqMap` holds the visits of the last `window` seconds in a queue and the number of visits
of each URL in a map.  Inserting drops expired visits from the front of the queue; merging does not
look at the clock.

`getTopUrls` sorts the entries of an `unordered_map` with `std::sort` by descending count: any
arrangement of the entries in that order is a possible result, so it is a relation.
-/

namespace Contentv1

structure UrlFreqMap where
  urlFreq : OrdMap Url ℤ
  utsQ : List UrlTpStat
  /-- `m_window` in seconds. -/
  window : ℤ

namespace UrlFreqMap

/-- The constructor. -/
def ofWindow (window : ℤ) : UrlFreqMap := ⟨∅, [], window⟩

/-- `m_url_freq[url] += cnt`. -/
def addFreq (m : OrdMap Url ℤ) (url : Url) (cnt : ℤ) : OrdMap Url ℤ :=
  m.alter url fun o => some (o.getD 0 + cnt)

/-- What popping a visit does to the map. -/
def subFreq (m : OrdMap Url ℤ) (url : Url) (cnt : ℤ) : OrdMap Url ℤ :=
  m.alter url fun o => o.bind fun freq => if freq - cnt ≤ 0 then none else some (freq - cnt)

/-- The loop of `checkCleanup`. -/
def cleanupLoop (window : ℤ) (now : ℤ) :
    OrdMap Url ℤ → List UrlTpStat → OrdMap Url ℤ × List UrlTpStat
  | m, [] => (m, [])
  | m, uts :: q =>
    -- the first visit within the window ends the loop, whatever is behind it
    if durationCastSecs (now - uts.tp) ≤ window then (m, uts :: q)
    else cleanupLoop window now (subFreq m uts.url uts.cnt) q

def checkCleanup (ufm : UrlFreqMap) (now : ℤ) : UrlFreqMap :=
  let r := cleanupLoop ufm.window now ufm.urlFreq ufm.utsQ
  { ufm with urlFreq := r.1, utsQ := r.2 }

def insertVisitsPack (ufm : UrlFreqMap) (uts : UrlTpStat) (now : ℤ) : UrlFreqMap :=
  checkCleanup
    { ufm with urlFreq := addFreq ufm.urlFreq uts.url uts.cnt, utsQ := ufm.utsQ ++ [uts] } now

/-- A single visit goes in as a pack of one. -/
def insert (ufm : UrlFreqMap) (urlVisit : UrlVisit) (now : ℤ) : UrlFreqMap :=
  insertVisitsPack ufm (.ofUrlVisit urlVisit) now

/-- The loop over two queues: the first one's element goes first only where it is earlier. -/
def mergeQueues (q1 q2 : List UrlTpStat) : List UrlTpStat :=
  q1.merge q2 fun a b => decide (a.tp < b.tp)

def merge (ufm a : UrlFreqMap) : UrlFreqMap :=
  -- no clock here: what has expired in either window stays
  { ufm with
    urlFreq := a.urlFreq.toList.foldl (fun m p => addFreq m p.1 p.2) ufm.urlFreq
    utsQ := mergeQueues ufm.utsQ a.utsQ }

/-- The loop of `checkSortedAndDestroyQueue`, with the queue that it leaves. -/
def checkSortedLoop (prev : UrlTpStat) : List UrlTpStat → Bool × List UrlTpStat
  | [] => (true, [])
  | cur :: q =>
    -- `cur` does not become `prev`, which stays the visit that was first
    if cur.tp < prev.tp then (false, q) else checkSortedLoop prev q

def checkSortedAndDestroyQueue (ufm : UrlFreqMap) : Bool × UrlFreqMap :=
  match ufm.utsQ with
  | [] => (true, ufm)
  | prev :: q =>
    let r := checkSortedLoop prev q
    (r.1, { ufm with utsQ := r.2 })

/-- `urls` is a possible result of `getTopUrls`. -/
def GetTopUrls (ufm : UrlFreqMap) (urls : List UrlFreq) : Prop :=
  urls.Perm ufm.urlFreq.toList ∧ urls.Pairwise fun a b => b.2 ≤ a.2

def size (ufm : UrlFreqMap) : ℤ := ufm.urlFreq.size

end UrlFreqMap

end Contentv1
