import Contentv1.Ldb.UrlsDays
import Contentv1.Lib.Machine

/-!
# The store of visits by day (`ldb/UrlsDaysDb.cpp`, `ldb/UrlsDaysDbSnap.cpp`)

`UrlsDaysDb` takes visits through a concurrent queue.  A merge thread drains the queue into a local
`UrlsDays`, merges that into a copy of the global one and puts the copy in its place; a snapshot
thread writes copies of the global object to LevelDB, from which the constructor loads it.

The store is a machine (`Lib/Machine.lean`).  A label is one step of one thread between two points
at which another thread can act; it carries what the step takes from outside: the reading of the
clock, which of the queued elements `try_dequeue` hands out, the order in which an `unordered_map`
is walked.  LevelDB is a map, and what it holds for a key is the message that was dumped.
-/

namespace Contentv1

abbrev UrlsLastDays := UrlsDays 14

/-- Where the merge thread is in `_mergeEventsFromQueue`, with its local variables. -/
inductive MergeTh
  /-- Between two calls. -/
  | idle
  /-- In the `try_dequeue` loop. -/
  | draining (updUrlsDaysLocal : UrlsLastDays)
  /-- The loop has ended with some visits. -/
  | drained (updUrlsDaysLocal : UrlsLastDays)
  /-- The global object has been copied. -/
  | copied (updUrlsDaysLocal urlsDaysGlobalCopy : UrlsLastDays)
  /-- The visits have been merged into the copy. -/
  | merged (updUrlsDaysLocal urlsDaysGlobalCopy : UrlsLastDays)

def MergeTh.isIdle : MergeTh → Bool
  | .idle => true
  | _ => false

theorem MergeTh.isIdle_iff {th : MergeTh} : th.isIdle = true ↔ th = .idle := by
  cases th <;> simp [isIdle]

namespace UrlsDaysDb

structure State where
  /-- `m_q`; the queue keeps no order between elements of different threads. -/
  q : List UrlTpStat
  mergeTh : MergeTh
  /-- `m_urls_days`. -/
  urlsDays : UrlsLastDays
  /-- The copy that the snapshot thread is writing and the keys it has yet to write. -/
  snapTh : Option (UrlsLastDays × List Url)
  /-- LevelDB. -/
  db : OrdMap Url UrlDaysPb
  mergeFinished : Bool

inductive Label
  /-- `saveVisitsPack`, to which `saveVisit` passes its visit as a pack of one. -/
  | save (utp : UrlTpStat)
  | mergeStart
  /-- `try_dequeue` hands out the `i`-th element, which is added at the clock's `now`. -/
  | tryDequeue (i : ℕ) (now : ℤ)
  /-- `try_dequeue` finds the queue empty. -/
  | drained
  | copy
  | mergeLocal (now : ℤ)
  | switch
  /-- The snapshot thread copies the global object and starts to walk it in the order `keys`. -/
  | snapCopy (keys : List Url)
  | snapPut
  /-- A clean shutdown, with its final snapshot, and the next start. -/
  | reopen
  deriving DecidableEq

/-- `leveldb::DB::Put` of one entry of a snapshot. -/
def putEntry (db : OrdMap Url UrlDaysPb) (p : Url × UrlDaysImpl) : OrdMap Url UrlDaysPb :=
  db.insert p.1 p.2.dump

/-- `_saveSnapshot` without interruption, as the destructor calls it. -/
def saveSnapshot (db : OrdMap Url UrlDaysPb) (ud : UrlsLastDays) : OrdMap Url UrlDaysPb :=
  ud.urlsDays.toList.foldl putEntry db

/-- `_loadSnapshot`. -/
def loadSnapshot (db : OrdMap Url UrlDaysPb) : UrlsLastDays :=
  ⟨db.toList.foldl (fun m p => m.insert p.1 (UrlDaysImpl.ofDump p.2)) ∅⟩

/-- A store opened on the database `db`. -/
def openDb (db : OrdMap Url UrlDaysPb) : State :=
  { q := [], mergeTh := .idle, urlsDays := loadSnapshot db, snapTh := none, db := db,
    mergeFinished := false }

def step (misc : MiscTime) (s : State) : Label → Option State
  | .save utp => some { s with q := s.q ++ [utp] }
  | .mergeStart =>
    match s.mergeTh with
    | .idle => some { s with mergeTh := .draining default, mergeFinished := false }
    | _ => none
  | .tryDequeue i now =>
    match s.mergeTh, s.q[i]? with
    | .draining upd, some utp =>
      some { s with q := s.q.eraseIdx i, mergeTh := .draining (upd.add misc utp now) }
    | _, _ => none
  | .drained =>
    match s.mergeTh, s.q with
    | .draining upd, [] =>
      -- the early return leaves `m_merge_finished` false
      some { s with mergeTh := if upd.empty then .idle else .drained upd }
    | _, _ => none
  | .copy =>
    match s.mergeTh with
    | .drained upd => some { s with mergeTh := .copied upd s.urlsDays }
    | _ => none
  | .mergeLocal now =>
    match s.mergeTh with
    | .copied upd copy => some { s with mergeTh := .merged upd (copy.merge misc upd now) }
    | _ => none
  | .switch =>
    match s.mergeTh with
    | .merged _ copy =>
      some { s with mergeTh := .idle, urlsDays := copy, mergeFinished := true }
    | _ => none
  | .snapCopy keys =>
    if s.snapTh.isNone ∧ keys.Perm s.urlsDays.urlsDays.keys then
      some { s with snapTh := some (s.urlsDays, keys) }
    else none
  | .snapPut =>
    match s.snapTh with
    | some (_, []) => some { s with snapTh := none }
    | some (ud, key :: keys) =>
      -- an entry overwrites the one of an earlier snapshot; none is ever deleted
      some { s with
        snapTh := some (ud, keys)
        db := (ud.urlsDays[key]?).elim s.db fun impl => putEntry s.db (key, impl) }
    | none => none
  | .reopen =>
    -- the destructor joins both threads, after a last round that drains the queue
    match s.mergeTh, s.q, s.snapTh with
    | .idle, [], none => some (openDb (saveSnapshot s.db s.urlsDays))
    | _, _, _ => none

/-- The state after a run from an empty database. -/
def runEmpty (misc : MiscTime) (l : List Label) : Option State :=
  Machine.run (step misc) (openDb ∅) l

end UrlsDaysDb

end Contentv1
