import Contentv1.Ldb.UrlsDaysDb

/-!
# Crashes of `UrlsDaysDb` (`ldb/UrlsDaysDb.cpp`, `ldb/UrlsDaysDbSnap.cpp`)

A process that is killed loses the queue, what the merge thread holds and the global object.  The
constructor then loads what the snapshots have left in LevelDB, the last of which may be half
written.

The machine runs the steps of the store and crashes, beside the visits that a crash can go back to.
-/

namespace Contentv1.UrlsDaysDb

structure Saved where
  running : State
  /-- The visits as the last complete snapshot has copied them, or as they were at the last start
  where that came later. -/
  base : UrlsLastDays
  /-- The visits as the snapshot on its way has copied them. -/
  copy : Option UrlsLastDays

/-- The record of a process that has just started on the database `db`. -/
def Saved.start (db : OrdMap Url UrlDaysPb) : Saved := ⟨openDb db, loadSnapshot db, none⟩

inductive CrashLabel
  | op (a : Label)
  /-- The process is killed and started again. -/
  | crash
  deriving DecidableEq

/-- The record after a step to `t`. -/
def Saved.follow (s : Saved) (t : State) : Label → Saved
  | .snapCopy _ => { s with running := t, copy := some s.running.urlsDays }
  | .snapPut =>
    match t.snapTh with
    | some _ => { s with running := t }
    | none => ⟨t, s.copy.getD s.base, none⟩
  | .reopen => .start t.db
  | _ => { s with running := t }

def crashStep (misc : MiscTime) (s : Saved) : CrashLabel → Option Saved
  | .op a => (step misc s.running a).map fun t => s.follow t a
  | .crash => some (.start s.running.db)

end Contentv1.UrlsDaysDb
