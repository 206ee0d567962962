import Contentv1.Core.UrlFreqStatsLF
import Contentv1.Ldb.CrawledDb
import Contentv1.Scheduler.FillUrlFreqStats

/-!
# The load loop (`scheduler/default/LoadLoop.cpp`, `kafkawrap/UrlVisitsReader.cpp`)

The thread of `LoadLoop::loop` reads visits from Kafka.  Each goes to `UrlFreqStatsLF`, which the
enqueue loop asks for its URLs, and then to `UrlsDaysDb`, from which `Scheduler::_fillUrlFreqStats`
fills the statistics at the next start.  It pushes one pack after another, while the merge thread of
the statistics runs already; the loop starts when it has pushed them all.

The loop and the two stores are a machine (`Lib/Machine.lean`).  simdjson is not part of the
repository.  A message that it cannot read has no step: the exception leaves the thread, and the
process ends.
-/

namespace Contentv1

/-- What simdjson reads as `doc["url"]` and `doc["ts"]`. -/
abbrev VisitJson := Str → Option (Str × ℕ)

/-- The visit of a message. -/
def UrlVisit.ofMessage (json : VisitJson) (mess : Str) : Option UrlVisit :=
  (json mess).map fun (url, ts) => ⟨url, seconds ts⟩

namespace LoadLoop

/-- Where the thread of the loop is, and the constructor of `Scheduler` before it starts. -/
inductive LoadTh
  /-- In `_fillUrlFreqStats`, which has these packs to push. -/
  | filling (packs : List UrlTpStat)
  /-- In `KafkaReader::read`. -/
  | reading
  /-- In the callback, after `UrlFreqStatsLF::insert`. -/
  | inserted (uv : UrlVisit)
  deriving DecidableEq

/-- `Scheduler::start` has been called. -/
def LoadTh.started : LoadTh → Bool
  | .filling _ => false
  | _ => true

structure State where
  loadTh : LoadTh
  /-- The visits read by earlier runs of the program. -/
  earlier : List UrlVisit
  /-- The visits read since the start. -/
  visits : List UrlVisit
  /-- What the statistics are filled with at the start. -/
  seeds : List UrlTpStat
  freqStats : UrlFreqStatsLF.State
  urlsDaysDb : UrlsDaysDb.State
  /-- The last reading of the clock in the merge thread of `UrlsDaysDb`. -/
  clock : ℤ

/-- The packs that have yet to be pushed. -/
def State.toFill (s : State) : List UrlTpStat :=
  match s.loadTh with
  | .filling packs => packs
  | _ => []

/-- The packs that `Scheduler::_fillUrlFreqStats` pushes for the callbacks `calls`. -/
def filled (calls : List (Url × List UrlTpStat)) (now : ℤ) : List UrlTpStat :=
  (fillUrlFreqStats calls now).1.map Prod.fst

/-- The program opens `UrlsDaysDb`, from which the statistics are to be filled. -/
def State.init (db : OrdMap Url UrlDaysPb) (calls : List (Url × List UrlTpStat)) (clock : ℤ) :
    State :=
  { loadTh := .filling (filled calls clock)
    earlier := []
    visits := []
    seeds := filled calls clock
    freqStats := .init
    urlsDaysDb := UrlsDaysDb.openDb db
    clock := clock }

inductive Label
  /-- A call of `insertVisitsPack` in `_fillUrlFreqStats`. -/
  | fill
  /-- `Scheduler::start`. -/
  | start
  /-- A message comes, and its visit is inserted. -/
  | insert (mess : Str)
  | saveVisit
  /-- A step of the thread of the merge queue. -/
  | freqStats (a : UrlFreqStatsLF.Label)
  /-- A step of a thread of `UrlsDaysDb`. -/
  | urlsDays (a : UrlsDaysDb.Label)
  /-- A clean shutdown, and the next start with the callbacks of `iterateAll`. -/
  | restart (calls : List (Url × List UrlTpStat)) (now : ℤ)
  deriving DecidableEq

/-- The steps within a run of the program. -/
def Label.ofThreads : Label → Bool
  | .restart _ _ => false
  | _ => true

def step (json : VisitJson) (misc : MiscTime) (s : State) : Label → Option State
  | .fill =>
    match s.loadTh with
    | .filling (uts :: packs) =>
      (UrlFreqStatsLF.step s.freqStats (.push uts)).map fun freqStats =>
        { s with loadTh := .filling packs, freqStats := freqStats }
    | _ => none
  | .start =>
    match s.loadTh with
    | .filling [] => some { s with loadTh := .reading }
    | _ => none
  | .insert mess =>
    match s.loadTh with
    | .reading =>
      (UrlVisit.ofMessage json mess).bind fun uv =>
        (UrlFreqStatsLF.step s.freqStats (.push (.ofUrlVisit uv))).map fun freqStats =>
          { s with
            loadTh := .inserted uv
            visits := s.visits ++ [uv]
            freqStats := freqStats }
    | _ => none
  | .saveVisit =>
    match s.loadTh with
    | .inserted uv =>
      (UrlsDaysDb.step misc s.urlsDaysDb (.save (.ofUrlVisit uv))).map fun urlsDaysDb =>
        { s with loadTh := .reading, urlsDaysDb := urlsDaysDb }
    | _ => none
  | .freqStats a =>
    if a.ofThread then
      (UrlFreqStatsLF.step s.freqStats a).map fun freqStats => { s with freqStats := freqStats }
    else none
  | .urlsDays a =>
    if a.ofThreads ∧ ∀ now ∈ a.clock, s.clock ≤ now then
      (UrlsDaysDb.step misc s.urlsDaysDb a).map fun urlsDaysDb =>
        { s with urlsDaysDb := urlsDaysDb, clock := a.clock.getD s.clock }
    else none
  | .restart calls now =>
    match s.loadTh with
    | .reading =>
      -- the statistics are not stored, so what they have not merged yet is gone with them
      (UrlsDaysDb.step misc s.urlsDaysDb .reopen).bind fun urlsDaysDb =>
        if calls.Perm (urlsDaysDb.urlsDays.iterateAll misc) then
          some { s with
            loadTh := .filling (filled calls now)
            earlier := s.earlier ++ s.visits
            visits := []
            seeds := filled calls now
            freqStats := .init
            urlsDaysDb := urlsDaysDb }
        else none
    | _ => none

end LoadLoop

end Contentv1
