import Contentv1.Scheduler.RpcMessages
import Contentv1.Lib.Machine
import Contentv1.Lib.OrdMap

/-!
# The call objects of the server (`scheduler/rpc/SchedulerServer.cpp` and its call data)

`SchedulerServer` answers on one thread, which takes one event after another from gRPC's completion
queue.  The tag of an event is the address of an object that started an operation: a call data asks
for one request of its method, calls the scheduler, finishes with the reply and deletes itself.  The
two classes of call data do the same but for the method.

gRPC is outside the repository: every operation gives one event, and which comes next is the label.
A reply may complete with `ok` false, when the client has gone.
-/

namespace Contentv1.SchedulerServer

inductive Method
  | tryFetchUrls
  | onFetched
  deriving DecidableEq, Repr

/-- The message of a request. -/
inductive Request
  | tryFetchUrls (request : List GFQRecordPb)
  | onFetched (request : List FetchResultPb)

def Request.method : Request → Method
  | .tryFetchUrls _ => .tryFetchUrls
  | .onFetched _ => .onFetched

/-- `request_` before gRPC writes to it. -/
def Request.empty : Method → Request
  | .tryFetchUrls => .tryFetchUrls []
  | .onFetched => .onFetched []

inductive CallStatus
  | create
  | process
  | finish
  deriving DecidableEq, Repr

/-- `CallDataTryFetchUrls` and `CallDataOnFetched`. -/
structure CallData where
  request : Request
  status : CallStatus

/-- An operation of a call data that has not given its event yet. -/
inductive Op
  /-- `RequestTryFetchUrls` or `RequestOnFetched`. -/
  | request (tag : ℕ)
  /-- `responder_.Finish`. -/
  | finish (tag : ℕ)
  deriving DecidableEq, Repr

def Op.tag : Op → ℕ
  | .request tag => tag
  | .finish tag => tag

structure State (σ : Type) where
  /-- The objects that exist, by their addresses. -/
  callDatas : OrdMap ℕ CallData
  /-- The address of the next object. -/
  nextTag : ℕ
  /-- The operations that will give an event. -/
  pending : List Op
  sched : σ
  /-- The requests that clients sent and gRPC accepted. -/
  accepted : List Request
  /-- The requests that the scheduler was called with. -/
  executed : List Request

section

variable {σ : Type} (sched : IScheduler σ) (s : State σ)

/-- `CallTryFetchUrls` and `CallOnFetched`. -/
def call (request : Request) : State σ :=
  let sched' :=
    match request with
    | .tryFetchUrls request => (SchedulerRpc.callTryFetchUrls sched s.sched request).2
    | .onFetched request => sched.onFetched s.sched (SchedulerRpc.callOnFetched request)
  { s with sched := sched', executed := s.executed ++ [request] }

/-- `Proceed` of an object with the status `CREATE`. -/
def proceedCreate (tag : ℕ) (callData : CallData) : State σ :=
  { s with
    callDatas := s.callDatas.insert tag { callData with status := .process }
    pending := s.pending ++ [.request tag] }

/-- `new`, with the call of `Proceed` in the constructor. -/
def newCallData (method : Method) : State σ :=
  proceedCreate { s with nextTag := s.nextTag + 1 } s.nextTag ⟨.empty method, .create⟩

/-- `Proceed`; the address of an object that was deleted is not to be used. -/
def proceed (tag : ℕ) : Option (State σ) :=
  s.callDatas[tag]?.map fun callData =>
    match callData.status with
    | .create => proceedCreate s tag callData
    | .process =>
      let s := call sched (newCallData s callData.request.method) callData.request
      { s with
        callDatas := s.callDatas.insert tag { callData with status := .finish }
        pending := s.pending ++ [.finish tag] }
    | .finish => { s with callDatas := s.callDatas.erase tag }

/-- One turn of the loop of `HandleRpcs`. -/
def handleRpc (tag : ℕ) (ok : Bool) : Option (State σ) :=
  if ok then proceed sched s tag else some s

end

/-- `InstateAllCallDatas` on a server without objects. -/
def State.init {σ : Type} (sched : σ) : State σ :=
  newCallData (newCallData ⟨∅, 0, [], sched, [], []⟩ .tryFetchUrls) .onFetched

inductive Label
  /-- The `i`-th operation is the one of a call data that gets this request. -/
  | request (i : ℕ) (request : Request)
  /-- The `i`-th operation is the reply of a call data. -/
  | reply (i : ℕ) (ok : Bool)

def step {σ : Type} (sched : IScheduler σ) (s : State σ) : Label → Option (State σ)
  | .request i request =>
    match s.pending[i]? with
    | some (.request tag) =>
      match s.callDatas[tag]? with
      | none => none
      | some callData =>
        if callData.request.method = request.method then
          handleRpc sched { s with
            -- gRPC writes the request to the object
            callDatas := s.callDatas.insert tag { callData with request := request }
            pending := s.pending.eraseIdx i
            accepted := s.accepted ++ [request] } tag true
        else none
    | _ => none
  | .reply i ok =>
    match s.pending[i]? with
    | some (.finish tag) => handleRpc sched { s with pending := s.pending.eraseIdx i } tag ok
    | _ => none

end Contentv1.SchedulerServer
