import Contentv1.Ldb.UrlDbSnap

/-!
# Crashes of `UrlDb` (`ldb/UrlDbSnapThread.cpp`, `ldb/UrlDbLoad.cpp`)

The attempts go to LevelDB with the snapshots only, so a process that is killed loses what came
after them, and a snapshot that was on its way is left half written.  The next start loads what it
finds.

The machine runs `snapStep` and crashes, beside the attempts that a crash can go back to.
-/

namespace Contentv1.UrlDb

structure Watched (pb : CrawlAttemptsPb) where
  running : Running pb
  /-- The attempts as the last complete snapshot has copied them, or as they were at the last start
  where that came later. -/
  base : UrlDb
  /-- The attempts as the snapshot on its way has copied them. -/
  copy : Option UrlDb

def Watched.init (pb : CrawlAttemptsPb) : Watched pb := ⟨.init pb, default, none⟩

inductive CrashLabel
  | op (a : SnapLabel)
  /-- The process is killed and started again. -/
  | crash

/-- The record after a step to `t`. -/
def Watched.follow {pb : CrawlAttemptsPb} (s : Watched pb) (t : Running pb) :
    SnapLabel → Watched pb
  | .snapCopy _ => { s with running := t, copy := some s.running.urlDb }
  | .snapPut =>
    match t.snapTh with
    | some _ => { s with running := t }
    | none => ⟨t, s.copy.getD s.base, none⟩
  | .restart _ => ⟨t, t.urlDb, none⟩
  | _ => { s with running := t }

def crashStep (misc : MiscTime) (pb : CrawlAttemptsPb) (s : Watched pb) :
    CrashLabel → Option (Watched pb)
  | .op a => (snapStep misc pb s.running a).map fun t => s.follow t a
  | .crash =>
    match loadCrawlAttempts misc pb s.running.attemptsDb with
    | .ok urlDb => some ⟨⟨urlDb, s.running.attemptsDb, none⟩, urlDb, none⟩
    -- the constructor throws
    | .error _ => none

end Contentv1.UrlDb
