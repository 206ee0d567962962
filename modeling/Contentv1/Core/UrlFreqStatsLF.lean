import Contentv1.Core.UrlFreqStats
import Contentv1.Lib.Machine

/-!
# The merge queue of `UrlFreqStatsLF` (`core/UrlFreqStatsLF.h`)

Every insertion is pushed to a `misc::MergeQueue`.  Its thread calls `accEvent` on fresh maps for
what it dequeues, then `copyGlobalObj`, `merge` and `switchGlobalObj`.  `max` and `getTopUrls` read
the global maps under the queue's lock, so nobody sees a copy before it takes their place.

The statistics are a machine (`Lib/Machine.lean`).  `misc::MergeQueue` is not part of the
repository: as in `Worker/FetchLoop.lean` a round drains the queue before it copies.
-/

namespace Contentv1.UrlFreqStatsLF

/-- Where the thread of the merge queue is in a round. -/
inductive MergeTh
  | idle
  /-- It dequeues events, with the maps that it hands to `accEvent`. -/
  | draining (loc : LastPerMaps)

def MergeTh.isIdle : MergeTh → Bool
  | .idle => true
  | _ => false

theorem MergeTh.isIdle_iff {th : MergeTh} : th.isIdle = true ↔ th = .idle := by
  cases th <;> simp [isIdle]

structure State where
  /-- The merge queue, which keeps no order between the elements of different threads. -/
  queue : List UrlTpStat
  mergeTh : MergeTh
  /-- `m_maps`. -/
  maps : LastPerMaps
  /-- Everything that was pushed. -/
  pushed : List UrlTpStat

/-- The constructor, which starts the thread. -/
def State.init : State :=
  { queue := [], mergeTh := .idle, maps := .init, pushed := [] }

inductive Label
  /-- `insertVisitsPack`, to which `insert` comes down with a pack of one. -/
  | push (uts : UrlTpStat)
  | startRound
  /-- The `i`-th of the queued events goes to `accEvent`, at the clock's `now`. -/
  | accEvent (i : ℕ) (now : ℤ)
  /-- The queue is found empty; then `copyGlobalObj`, `merge` and `switchGlobalObj`. -/
  | drained
  deriving DecidableEq

/-- The steps of the thread of the merge queue. -/
def Label.ofThread : Label → Bool
  | .push _ => false
  | _ => true

def step (s : State) : Label → Option State
  | .push uts => some { s with queue := s.queue ++ [uts], pushed := s.pushed ++ [uts] }
  | .startRound =>
    match s.mergeTh with
    | .idle => some { s with mergeTh := .draining .init }
    | _ => none
  | .accEvent i now =>
    match s.mergeTh, s.queue[i]? with
    | .draining loc, some uts =>
      some { s with queue := s.queue.eraseIdx i, mergeTh := .draining (accEvent loc uts now) }
    | _, _ => none
  | .drained =>
    match s.mergeTh, s.queue with
    | .draining loc, [] => some { s with mergeTh := .idle, maps := s.maps.merge loc }
    | _, _ => none

end Contentv1.UrlFreqStatsLF
