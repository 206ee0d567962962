import Contentv1.Ldb.CrawledDb
import Mathlib.Data.List.Infix

/-!
# Runs of `CrawledDb`

Calls of `saveResult` and `onFetched` beside the steps of the store inside, its restarts included,
and a record of what was saved and how far it has come.  A call of `saveResult` reads the clock and
hands its pack over in one step; `onFetched` makes several such calls, between which others may run.
-/

namespace Contentv1

/-- The statuses of an attempt that has come to its end. -/
def AttemptStatus.isFinished : AttemptStatus → Bool
  | .enqueued | .pending => false
  | _ => true

namespace CrawledDb

/-- The results of one call of `saveResult`. -/
structure Saved where
  status : AttemptStatus
  cnt : ℤ
  tp : ℤ
  deriving DecidableEq, Repr

def Saved.pack (r : Saved) : UrlTpStat := saveResult r.status r.cnt r.tp

inductive Label
  | saveResult (status : AttemptStatus) (cnt : ℕ)
  | onFetched (results : List FetchResult)
  /-- The `i`-th of the calls reads the clock and hands its pack over. -/
  | enqueue (i : ℕ) (now : ℤ)
  /-- A step of the store's threads, or a restart. -/
  | store (a : UrlsDaysDb.Label)
  deriving DecidableEq

structure Observed where
  st : UrlsDaysDb.State
  /-- The calls of `saveResult` that have begun. -/
  calls : List (AttemptStatus × ℤ)
  saved : List Saved
  /-- The packs that the merge thread has dequeued and not yet put into the global object. -/
  round : List UrlTpStat
  merged : List UrlTpStat
  /-- The packs that came to the merge thread too late. -/
  lost : List UrlTpStat
  clock : ℤ

/-- The start on an empty database. -/
def Observed.init (clock : ℤ) : Observed := ⟨UrlsDaysDb.openDb ∅, [], [], [], [], [], clock⟩

/-- The store has the day of the pack. -/
def holds (misc : MiscTime) (ud : UrlsLastDays) (utp : UrlTpStat) : Bool :=
  ud.urlsDays[utp.url]?.any fun impl => impl.dayVisits.contains (misc.getDayStr utp.tp)

/-- The record after a step of the store to `t`. -/
def Observed.follow (misc : MiscTime) (o : Observed) (t : UrlsDaysDb.State) :
    UrlsDaysDb.Label → Observed
  | .tryDequeue i now =>
    match o.st.q[i]? with
    | none => { o with st := t }
    | some utp =>
      -- `add` drops what is too old
      if UrlsDays.duration 14 < now - utp.tp then { o with st := t, lost := o.lost ++ [utp] }
      else { o with st := t, round := o.round ++ [utp] }
  | .switch =>
    -- and `merge` cleans days that are too old by then
    { o with
      st := t
      round := []
      merged := o.merged ++ o.round.filter (holds misc t.urlsDays)
      lost := o.lost ++ o.round.filter fun utp => !holds misc t.urlsDays utp }
  | _ => { o with st := t }

/-- A step under a clock that does not go back. -/
def observe (misc : MiscTime) (o : Observed) : Label → Option Observed
  | .saveResult status cnt => some { o with calls := o.calls ++ [(status, (cnt : ℤ))] }
  | .onFetched results => some { o with calls := o.calls ++ CrawledDb.onFetched results }
  | .enqueue i now =>
    if o.clock ≤ now then
      o.calls[i]?.bind fun call =>
        (UrlsDaysDb.step misc o.st (.save (CrawledDb.saveResult call.1 call.2 now))).map fun t =>
          { o with
            st := t
            calls := o.calls.eraseIdx i
            saved := o.saved ++ [⟨call.1, call.2, now⟩]
            clock := now }
    else none
  | .store (.save _) => none
  | .store a => (UrlsDaysDb.step misc o.st a).map fun t => o.follow misc t a

/-- Everything saved has come to the global object. -/
def AllMerged (o : Observed) : Prop := o.merged.Perm (o.saved.map Saved.pack)

instance (o : Observed) : Decidable (AllMerged o) := inferInstanceAs (Decidable (List.Perm _ _))

/-! ### What was saved -/

/-- The results of a status saved on a day. -/
def countOn (misc : MiscTime) (saved : List Saved) (status : AttemptStatus) (day : Str) : ℤ :=
  ((saved.filter fun r => r.status = status ∧ misc.getDayStr r.tp = day).map Saved.cnt).sum

/-- The results of a status saved. -/
def total (saved : List Saved) (status : AttemptStatus) : ℤ :=
  ((saved.filter fun r => r.status = status).map Saved.cnt).sum

/-- The day on which a status was last saved. -/
def lastDay (misc : MiscTime) (saved : List Saved) (status : AttemptStatus) : Option Str :=
  (saved.filter fun r => r.status = status).getLast?.map fun r => misc.getDayStr r.tp

/-- The results of a status saved before the day on which it was last saved. -/
def beforeLastDay (misc : MiscTime) (saved : List Saved) (status : AttemptStatus) : ℤ :=
  ((saved.filter fun r => r.status = status ∧
    some (misc.getDayStr r.tp) ≠ lastDay misc saved status).map Saved.cnt).sum

/-- The results with a finished status saved on a day. -/
def finishedOn (misc : MiscTime) (saved : List Saved) (day : Str) : ℤ :=
  ((saved.filter fun r => r.status.isFinished ∧ misc.getDayStr r.tp = day).map Saved.cnt).sum

/-- The URLs enqueued less the results with a finished status. -/
def inProgress (saved : List Saved) : ℤ :=
  total saved .enqueued - ((saved.filter fun r => r.status.isFinished).map Saved.cnt).sum

/-- At no time have more results come in than URLs were enqueued. -/
def Answered (saved : List Saved) : Prop := ∀ past ∈ saved.inits, 0 ≤ inProgress past

instance (saved : List Saved) : Decidable (Answered saved) :=
  inferInstanceAs (Decidable (∀ past ∈ saved.inits, 0 ≤ inProgress past))

end CrawledDb

end Contentv1
