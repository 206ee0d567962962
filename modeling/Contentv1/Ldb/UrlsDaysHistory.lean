import Contentv1.Ldb.UrlsDaysDb

/-!
# The objects that a program can make with `UrlsDays`

A program that runs operations on any number of `UrlsDays` objects gives each of them a `History`:
the tree of the operations that its present content has come from.  A reload is the snapshot of one
object, written over what is in LevelDB, and the load that follows (`ldb/UrlsDaysDbSnap.cpp`).
-/

namespace Contentv1.UrlsDays

variable {DAYS : ℕ}

/-- `_saveSnapshot`, for any number of days. -/
def saveSnapshot (db : OrdMap Url UrlDaysPb) (ud : UrlsDays DAYS) : OrdMap Url UrlDaysPb :=
  ud.urlsDays.toList.foldl UrlsDaysDb.putEntry db

/-- `_loadSnapshot`, for any number of days. -/
def loadSnapshot (DAYS : ℕ) (db : OrdMap Url UrlDaysPb) : UrlsDays DAYS :=
  ⟨db.toList.foldl (fun m p => m.insert p.1 (UrlDaysImpl.ofDump p.2)) ∅⟩

inductive History
  | empty
  | add (h : History) (utp : UrlTpStat) (now : ℤ)
  | merge (h uds : History) (now : ℤ)
  /-- LevelDB holds the snapshots from which `earlier` would be loaded, and `h` is written over
  them. -/
  | reload (earlier h : History)

/-- The object with a history. -/
def History.urlsDays (DAYS : ℕ) (misc : MiscTime) : History → UrlsDays DAYS
  | .empty => default
  | .add h utp now => (h.urlsDays DAYS misc).add misc utp now
  | .merge h uds now => (h.urlsDays DAYS misc).merge misc (uds.urlsDays DAYS misc) now
  | .reload earlier h =>
    loadSnapshot DAYS
      (saveSnapshot (saveSnapshot ∅ (earlier.urlsDays DAYS misc)) (h.urlsDays DAYS misc))

/-- The operations were run up to the time `T`, on a clock that does not go back, and no visit was
dated in the future when it was added. -/
def History.DoneBy : History → ℤ → Prop
  | .empty, _ => True
  | .add h utp now, T => now ≤ T ∧ utp.tp ≤ now ∧ h.DoneBy now
  | .merge h uds now, T => now ≤ T ∧ h.DoneBy now ∧ uds.DoneBy now
  | .reload earlier h, T => earlier.DoneBy T ∧ h.DoneBy T

end Contentv1.UrlsDays
