import Contentv1.Scheduler.Rpc
import Contentv1.Scheduler.Scheduler
import Contentv1.Worker.Worker
import Mathlib.Logic.Function.Basic

/-!
# The whole crawler

The scheduler of `Scheduler/Scheduler.lean`, the workers of `Worker/Worker.lean`, the topic between
them and the RPC messages of `Scheduler/Rpc.lean`.  A worker may read any record of the topic at any
time, and again.  The server may handle any number of calls at a time, and none before the
constructor of the scheduler has returned.

A call whose request or reply is lost, or cannot be parsed, ends at the worker with an empty reply.
-/

namespace Contentv1.System

open FetchPages (SaveOutcome)
open SchedulerRpc (Msg)

structure Env where
  sched : Scheduler.Env
  fetch : FetchLoop.Env
  workerCount : ℕ

structure State (env : Env) where
  /-- A call of `onFetched` is named by its worker. -/
  sched : Scheduler.State env.sched ℕ
  /-- The messages in flight. -/
  net : List Msg
  workers : ℕ → Worker.State
  /-- The messages that were lost. -/
  lost : List Msg

structure Start (env : Env) where
  sched : Scheduler.Start env.sched
  pageDbs : ℕ → PageDb

def State.init {env : Env} (start : Start env) : State env :=
  { sched := .init ℕ start.sched
    net := []
    workers := fun w => .init (start.pageDbs w)
    lost := [] }

inductive Label
  /-- A step of a thread of the scheduler, or of a call of `onFetched`. -/
  | sched (a : Scheduler.Label ℕ)
  /-- A worker reads the `i`-th record of the topic. -/
  | readKafka (w i : ℕ)
  /-- A step of a worker's merge queue. -/
  | merge (w : ℕ) (a : FetchLoop.Label)
  /-- A worker calls `tryFetchUrls`. -/
  | callTryFetchUrls (w : ℕ)
  /-- The `i`-th call of a worker's HTTP client is answered, and it calls `onFetched`. -/
  | respond (w i : ℕ) (success : Bool) (curlerror resp : Str)
  /-- The server handles the `i`-th message or starts to. -/
  | serve (i : ℕ) (now : List CrawlReads)
  /-- The `i`-th call of `onFetched` has returned and is replied to. -/
  | reply (i : ℕ)
  /-- The worker gets the `i`-th message; `save` is looked at only where it then saves a page. -/
  | receive (i : ℕ) (save : SaveOutcome)
  /-- The `i`-th message is lost. -/
  | lose (i : ℕ) (save : SaveOutcome)
  deriving DecidableEq

/-- The steps of the scheduler that no message brings about. -/
def ofScheduler : Scheduler.Label ℕ → Bool
  | .onFetched _ _ | .finish _ => false
  | _ => true

variable {env : Env}

/-- Worker `w` does what `f` does, where there is such a worker. -/
def State.setWorker (s : State env) (w : ℕ) (f : Worker.State → Option Worker.State) :
    Option (State env) :=
  if w < env.workerCount then
    (f (s.workers w)).map fun worker => { s with workers := Function.update s.workers w worker }
  else none

/-- A reply ends the call of its worker. -/
def State.endCall (s : State env) (save : SaveOutcome) : Msg → Option (State env)
  | .tryFetchReply w allowedUrls =>
    s.setWorker w fun worker => Worker.answer env.fetch worker allowedUrls
  | .onFetchedReply w => s.setWorker w fun worker => Worker.reported worker save
  | _ => none

/-- What the client gets instead of a message that is lost. -/
def onLoss : Msg → Msg
  | .tryFetchRequest w _ | .tryFetchReply w _ => .tryFetchReply w []
  | .onFetchedRequest w _ | .onFetchedReply w => .onFetchedReply w

def step (s : State env) : Label → Option (State env)
  | .sched a =>
    if ofScheduler a then (Scheduler.step s.sched a).map fun sched => { s with sched := sched }
    else none
  | .readKafka w i =>
    s.sched.topic[i]?.bind fun dump =>
      match GFQRecord.ofDump env.sched.pb dump with
      -- the exception leaves the thread, and the worker ends
      | .error _ => none
      | .ok gfq => s.setWorker w fun worker => Worker.read env.fetch worker gfq
  | .merge w a => s.setWorker w fun worker => Worker.mergeStep env.fetch worker a
  | .callTryFetchUrls w =>
    (s.setWorker w Worker.ask).map fun t =>
      { t with net := s.net ++ [.tryFetchRequest w ((s.workers w).tryUrls env.fetch)] }
  | .respond w i success curlerror resp =>
    ((s.workers w).jobInfo i success curlerror resp).bind fun ji =>
      (s.setWorker w fun worker => Worker.respond env.fetch worker i ji).map fun t =>
        { t with net := s.net ++ [.onFetchedRequest w [ji.result]] }
  | .serve i now =>
    if s.sched.load.toFill = [] then
      match s.net[i]? with
      | some (.tryFetchRequest w tryUrls) =>
        if now.length = tryUrls.length then
          let (allowedUrls, sched) := Scheduler.tryFetchUrls s.sched (tryUrls.zip now)
          some { s with
            sched := sched
            net := s.net.eraseIdx i ++ [.tryFetchReply w allowedUrls] }
        else none
      | some (.onFetchedRequest w results) =>
        (Scheduler.step s.sched (.onFetched w results)).map fun sched =>
          { s with sched := sched, net := s.net.eraseIdx i }
      | _ => none
    else none
  | .reply i =>
    s.sched.calls[i]?.bind fun call =>
      (Scheduler.step s.sched (.finish i)).map fun sched =>
        { s with sched := sched, net := s.net ++ [.onFetchedReply call.caller] }
  | .receive i save =>
    s.net[i]?.bind fun msg => ({ s with net := s.net.eraseIdx i }).endCall save msg
  | .lose i save =>
    s.net[i]?.bind fun msg =>
      ({ s with net := s.net.eraseIdx i, lost := s.lost ++ [msg] }).endCall save (onLoss msg)

end Contentv1.System
