import Contentv1.Ldb.UrlDb
import Contentv1.Lib.Machine

/-!
# Snapshots of the attempts (`ldb/UrlDbSnapThread.cpp`, `ldb/UrlDbLoad.cpp`)

A snapshot thread copies the attempts under the mutex and writes the copy to LevelDB without it,
one URL after another, in the order of the `unordered_map`.  The constructor loads what it finds
there.

The database with its thread is a machine (`Lib/Machine.lean`): the two operations, the steps of
the snapshot thread, and a shutdown with the next start.
-/

namespace Contentv1.UrlDb

variable (misc : MiscTime) (pb : CrawlAttemptsPb)

/-- `Put` of one entry of the local copy. -/
def putAttempts (attemptsDb : OrdMap Url pb.Dump) (p : Url × CrawlAttempts) :
    OrdMap Url pb.Dump :=
  attemptsDb.insert p.1 (p.2.dump misc pb)

/-- `_snapData` without interruption, where the local copy is walked in the order `localCopy`. -/
def snapData (attemptsDb : OrdMap Url pb.Dump) (localCopy : List (Url × CrawlAttempts)) :
    OrdMap Url pb.Dump :=
  localCopy.foldl (putAttempts misc pb) attemptsDb

/-- `_loadCrawlAttempts`, which ends with the first dump that cannot be parsed. -/
def loadCrawlAttempts (attemptsDb : OrdMap Url pb.Dump) : Except Str UrlDb :=
  UrlDb.mk <$> attemptsDb.toList.foldlM
    (fun urlCrawlAttempts p => do
      let attempts ← CrawlAttempts.ofDump misc pb p.2
      pure (urlCrawlAttempts.insert p.1 attempts)) ∅

/-- A running `UrlDb`. -/
structure Running (pb : CrawlAttemptsPb) where
  urlDb : UrlDb
  attemptsDb : OrdMap Url pb.Dump
  /-- What the snapshot thread has yet to write. -/
  snapTh : Option (List (Url × CrawlAttempts))

def Running.init (pb : CrawlAttemptsPb) : Running pb := ⟨default, ∅, none⟩

inductive SnapLabel
  | setEnqueued (urls : List Url) (now : ℤ)
  | onFetched (results : List FetchResult) (now : ℤ)
  /-- The snapshot thread copies the attempts; `localCopy` is the order in which it walks them. -/
  | snapCopy (localCopy : List (Url × CrawlAttempts))
  | snapPut
  /-- The destructor waits for the last snapshot; the next start loads it. -/
  | restart (localCopy : List (Url × CrawlAttempts))

def snapStep (s : Running pb) : SnapLabel → Option (Running pb)
  | .setEnqueued urls now => some { s with urlDb := s.urlDb.setEnqueued misc urls now }
  | .onFetched results now =>
    (s.urlDb.onFetched misc results now).map fun urlDb => { s with urlDb := urlDb }
  | .snapCopy localCopy =>
    if s.snapTh = none ∧ localCopy.Perm s.urlDb.urlCrawlAttempts.toList then
      some { s with snapTh := some localCopy }
    else none
  | .snapPut =>
    match s.snapTh with
    | some [] => some { s with snapTh := none }
    | some (p :: localCopy) =>
      some { s with
        attemptsDb := putAttempts misc pb s.attemptsDb p
        snapTh := some localCopy }
    | none => none
  | .restart localCopy =>
    if s.snapTh = none ∧ localCopy.Perm s.urlDb.urlCrawlAttempts.toList then
      let attemptsDb := snapData misc pb s.attemptsDb localCopy
      match loadCrawlAttempts misc pb attemptsDb with
      | .ok urlDb => some ⟨urlDb, attemptsDb, none⟩
      | .error _ => none
    else none

end Contentv1.UrlDb
