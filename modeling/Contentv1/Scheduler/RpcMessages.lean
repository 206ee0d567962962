import Contentv1.Core.FetchResultPb

/-!
# The scheduler behind RPC (`scheduler/rpc`)

`SchedulerClient` turns the arguments of a call into a message, the server turns the message into
arguments for the scheduler it wraps, and the other way round for the reply.  gRPC is outside the
repository: a request that the server cannot parse does not come to its handler, and where the reply
cannot be parsed the client gets a status that is not ok.  In both cases it writes a log line and
goes on with what the reply holds.
-/

namespace Contentv1

/-- `IScheduler` on a state: `tryFetchUrls` puts out the allowed records. -/
structure IScheduler (σ : Type) where
  tryFetchUrls : σ → List GFQRecord → List GFQRecord × σ
  onFetched : σ → List FetchResult → σ

namespace SchedulerRpc

/-- The messages of `scheduler.proto` over the network. -/
structure Grpc where
  tryFetchRequest : Proto3 (List GFQRecordPb) (List.flatMap GFQRecordPb.strings)
  tryFetchReply : Proto3 (List GFQRecordPb) (List.flatMap GFQRecordPb.strings)
  onFetchedRequest : Proto3 (List FetchResultPb) (List.flatMap FetchResultPb.strings)
  /-- What a reply holds after its parsing has failed. -/
  leftover : tryFetchReply.Dump → List GFQRecordPb

/-- Messages sent as they are and nothing kept of a reply that cannot be parsed. -/
def Grpc.plain : Grpc where
  tryFetchRequest := .plain _
  tryFetchReply := .plain _
  onFetchedRequest := .plain _
  leftover _ := []

variable {σ : Type} (grpc : Grpc) (sched : IScheduler σ) (s : σ)

/-! ### The server -/

/-- `CallDataTryFetchUrls::CallTryFetchUrls`. -/
def callTryFetchUrls (request : List GFQRecordPb) : List GFQRecordPb × σ :=
  let tryUrls := request.map GFQRecord.fromPb
  let (allowedUrls, s) := sched.tryFetchUrls s tryUrls
  (allowedUrls.map GFQRecord.toPb, s)

/-- The results that `CallDataOnFetched::CallOnFetched` calls the scheduler with. -/
def callOnFetched (request : List FetchResultPb) : List FetchResult :=
  request.map FetchResult.fromPb

/-! ### The client -/

/-- `SchedulerClient::tryFetchUrls`, with the call at the server. -/
def tryFetchUrls (tryUrls : List GFQRecord) : List GFQRecord × σ :=
  let gRequest := tryUrls.map GFQRecord.toPb
  match grpc.tryFetchRequest.parse (grpc.tryFetchRequest.serialize gRequest) with
  | none => ([], s)
  | some request =>
    let (reply, s) := callTryFetchUrls sched s request
    let dump := grpc.tryFetchReply.serialize reply
    let gReply := (grpc.tryFetchReply.parse dump).getD (grpc.leftover dump)
    (gReply.map GFQRecord.fromPb, s)

/-- `SchedulerClient::onFetched`: the results that the scheduler is called with, if it is. -/
def receivedResults (results : List FetchResult) : Option (List FetchResult) :=
  let gRequest := results.map FetchResult.toPb
  (grpc.onFetchedRequest.parse (grpc.onFetchedRequest.serialize gRequest)).map callOnFetched

/-- The scheduler that a client of the server sees. -/
def overRpc : IScheduler σ where
  tryFetchUrls s tryUrls := tryFetchUrls grpc sched s tryUrls
  onFetched s results := (receivedResults grpc results).elim s (sched.onFetched s)

end SchedulerRpc

end Contentv1
