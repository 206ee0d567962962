import Contentv1.System.System
import Contentv1.Scheduler.Equiv.Scheduler
import Contentv1.Worker.Equiv.Worker

/-!
# What a step of the crawler can do

`Effect` lists it, worker by worker and message by message; a call that ends because a message came
in and one that ends because a message was lost are one case.  Every invariant of the crawler goes
over `Effect` (`effect_of_step`).
-/

namespace Contentv1.System

open FetchPages (JobInfo SaveOutcome savePage)
open SchedulerRpc (Msg)

variable {env : Env} {s t : State env}

/-- With `msg` the call of `tryFetchUrls` by worker `w` ends, and what is lost with it. -/
inductive EndsAsk (w : ℕ) : Msg → List GFQRecord → List Msg → Prop
  | received (allowedUrls : List GFQRecord) :
      EndsAsk w (.tryFetchReply w allowedUrls) allowedUrls []
  | lostRequest (tryUrls : List GFQRecord) :
      EndsAsk w (.tryFetchRequest w tryUrls) [] [.tryFetchRequest w tryUrls]
  | lostReply (allowedUrls : List GFQRecord) :
      EndsAsk w (.tryFetchReply w allowedUrls) [] [.tryFetchReply w allowedUrls]

/-- With `msg` the call of `onFetched` by worker `w` ends. -/
inductive EndsReport (w : ℕ) : Msg → List Msg → Prop
  | received : EndsReport w (.onFetchedReply w) []
  | lostRequest (results : List FetchResult) :
      EndsReport w (.onFetchedRequest w results) [.onFetchedRequest w results]
  | lostReply : EndsReport w (.onFetchedReply w) [.onFetchedReply w]

/-- The steps of one worker, with the messages that it sends or that end its calls. -/
def Label.ofWorker : Label → Bool
  | .sched _ | .serve _ _ | .reply _ => false
  | _ => true

/-- What a step with the label `label` can do. -/
inductive Effect (s : State env) (label : Label) (t : State env) : Prop
  | sched (a : Scheduler.Label ℕ) (sched : Scheduler.State env.sched ℕ)
      (hown : ofScheduler a = true) (h : Scheduler.step s.sched a = some sched)
      (ht : { s with sched := sched } = t) (hlabel : label = .sched a)
  | readKafka (w : ℕ) (hw : w < env.workerCount) (dump : env.sched.pb.Dump) (gfq : GFQRecord)
      (worker : Worker.State) (hdump : dump ∈ s.sched.topic)
      (hgfq : GFQRecord.ofDump env.sched.pb dump = .ok gfq)
      (h : Worker.read env.fetch (s.workers w) gfq = some worker)
      (ht : { s with workers := Function.update s.workers w worker } = t)
      (hlabel : label.ofWorker = true)
  | merge (w : ℕ) (hw : w < env.workerCount) (a : FetchLoop.Label) (worker : Worker.State)
      (h : Worker.mergeStep env.fetch (s.workers w) a = some worker)
      (ht : { s with workers := Function.update s.workers w worker } = t)
      (hlabel : label.ofWorker = true)
  | ask (w : ℕ) (hw : w < env.workerCount) (worker : Worker.State)
      (h : Worker.ask (s.workers w) = some worker)
      (ht : { s with
        workers := Function.update s.workers w worker
        net := s.net ++ [.tryFetchRequest w ((s.workers w).tryUrls env.fetch)] } = t)
      (hlabel : label.ofWorker = true)
  | respond (w : ℕ) (hw : w < env.workerCount) (i : ℕ) (ji : JobInfo) (worker : Worker.State)
      (hclient : (s.workers w).fetch.client[i]? = some ji.userdata)
      (h : Worker.respond env.fetch (s.workers w) i ji = some worker)
      (ht : { s with
        workers := Function.update s.workers w worker
        net := s.net ++ [.onFetchedRequest w [ji.result]] } = t)
      (hlabel : label.ofWorker = true)
  | serveTryFetch (i w : ℕ) (tryUrls : List GFQRecord) (now : List CrawlReads)
      (hmsg : s.net[i]? = some (.tryFetchRequest w tryUrls)) (hnow : now.length = tryUrls.length)
      (ht : { s with
        sched := (Scheduler.tryFetchUrls s.sched (tryUrls.zip now)).2
        net := s.net.eraseIdx i
          ++ [.tryFetchReply w (Scheduler.tryFetchUrls s.sched (tryUrls.zip now)).1] } = t)
      (hlabel : label = .serve i now)
  | serveOnFetched (i w : ℕ) (results : List FetchResult)
      (hmsg : s.net[i]? = some (.onFetchedRequest w results))
      (ht : { s with
        sched := { s.sched with calls := s.sched.calls ++ [⟨w, results, .urlDb⟩] }
        net := s.net.eraseIdx i } = t)
      (hlabel : ∃ now, label = .serve i now)
  | reply (i : ℕ) (call : Scheduler.Call ℕ) (hcall : s.sched.calls[i]? = some call)
      (hstage : call.stage = .returned)
      (ht : { s with
        sched := { s.sched with calls := s.sched.calls.eraseIdx i }
        net := s.net ++ [.onFetchedReply call.caller] } = t) (hlabel : label = .reply i)
  | answer (i w : ℕ) (hw : w < env.workerCount) (msg : Msg) (allowedUrls : List GFQRecord)
      (lost : List Msg) (worker : Worker.State) (hmsg : s.net[i]? = some msg)
      (hends : EndsAsk w msg allowedUrls lost)
      (h : Worker.answer env.fetch (s.workers w) allowedUrls = some worker)
      (ht : { s with
        net := s.net.eraseIdx i
        workers := Function.update s.workers w worker
        lost := s.lost ++ lost } = t)
      (hlabel : label.ofWorker = true)
  | reported (i w : ℕ) (hw : w < env.workerCount) (msg : Msg) (lost : List Msg)
      (save : SaveOutcome) (worker : Worker.State) (hmsg : s.net[i]? = some msg)
      (hends : EndsReport w msg lost)
      (h : Worker.reported (s.workers w) save = some worker)
      (ht : { s with
        net := s.net.eraseIdx i
        workers := Function.update s.workers w worker
        lost := s.lost ++ lost } = t)
      (hlabel : label.ofWorker = true)

theorem setWorker_eq_some {w : ℕ} {f : Worker.State → Option Worker.State} :
    s.setWorker w f = some t ↔
      w < env.workerCount ∧ ∃ worker, f (s.workers w) = some worker ∧
        { s with workers := Function.update s.workers w worker } = t := by
  unfold State.setWorker
  rw [Option.ite_none_right_eq_some, Option.map_eq_some_iff]

/-- A call that ends with `msg` or without. -/
theorem effect_of_endCall {label : Label} {i : ℕ} {msg msg' : Msg} {lost : List Msg}
    {save : SaveOutcome} (hlabel : label.ofWorker = true) (hmsg : s.net[i]? = some msg)
    (hends : (msg' = msg ∧ lost = []) ∨ (msg' = onLoss msg ∧ lost = [msg]))
    (h : State.endCall { s with net := s.net.eraseIdx i, lost := s.lost ++ lost } save msg'
      = some t) : Effect s label t := by
  have hask : ∀ w allowedUrls, msg' = .tryFetchReply w allowedUrls →
      EndsAsk w msg allowedUrls lost → Effect s label t := by
    rintro w allowedUrls rfl hask
    rw [State.endCall] at h
    obtain ⟨hw, worker, hworker, ht⟩ := setWorker_eq_some.mp h
    exact .answer i w hw msg allowedUrls lost worker hmsg hask hworker ht hlabel
  have hreport : ∀ w, msg' = .onFetchedReply w → EndsReport w msg lost → Effect s label t := by
    rintro w rfl hreport
    rw [State.endCall] at h
    obtain ⟨hw, worker, hworker, ht⟩ := setWorker_eq_some.mp h
    exact .reported i w hw msg lost save worker hmsg hreport hworker ht hlabel
  rcases hends with ⟨rfl, rfl⟩ | ⟨rfl, rfl⟩
  · cases msg' with
    | tryFetchRequest w tryUrls => cases h
    | tryFetchReply w allowedUrls => exact hask w allowedUrls rfl (.received allowedUrls)
    | onFetchedRequest w results => cases h
    | onFetchedReply w => exact hreport w rfl .received
  · cases msg with
    | tryFetchRequest w tryUrls => exact hask w [] rfl (.lostRequest tryUrls)
    | tryFetchReply w allowedUrls => exact hask w [] rfl (.lostReply allowedUrls)
    | onFetchedRequest w results => exact hreport w rfl (.lostRequest results)
    | onFetchedReply w => exact hreport w rfl .lostReply

theorem effect_of_step {a : Label} (h : step s a = some t) : Effect s a t := by
  cases a with
  | sched a =>
    obtain ⟨hown, h⟩ := Option.ite_none_right_eq_some.mp h
    obtain ⟨sched, hsched, ht⟩ := Option.map_eq_some_iff.mp h
    exact .sched a sched hown hsched ht rfl
  | readKafka w i =>
    obtain ⟨dump, hdump, h⟩ := Option.bind_eq_some_iff.mp h
    cases hgfq : GFQRecord.ofDump env.sched.pb dump with
    | error e =>
      rw [hgfq] at h
      cases h
    | ok gfq =>
      rw [hgfq] at h
      obtain ⟨hw, worker, hworker, ht⟩ := setWorker_eq_some.mp h
      exact .readKafka w hw dump gfq worker (List.mem_of_getElem? hdump) hgfq hworker ht rfl
  | merge w a =>
    rw [step] at h
    obtain ⟨hw, worker, hworker, ht⟩ := setWorker_eq_some.mp h
    exact .merge w hw a worker hworker ht rfl
  | callTryFetchUrls w =>
    obtain ⟨u, hu, ht⟩ := Option.map_eq_some_iff.mp h
    obtain ⟨hw, worker, hworker, rfl⟩ := setWorker_eq_some.mp hu
    exact .ask w hw worker hworker ht rfl
  | respond w i success curlerror resp =>
    obtain ⟨ji, hji, h⟩ := Option.bind_eq_some_iff.mp h
    obtain ⟨u, hu, ht⟩ := Option.map_eq_some_iff.mp h
    obtain ⟨hw, worker, hworker, rfl⟩ := setWorker_eq_some.mp hu
    obtain ⟨gfq, hgfq, rfl⟩ := Worker.jobInfo_eq_some.mp hji
    exact .respond w hw i _ worker hgfq hworker ht rfl
  | serve i now =>
    obtain ⟨-, h⟩ := Option.ite_none_right_eq_some.mp h
    rcases hmsg : s.net[i]? with _ | ⟨w, tryUrls⟩ | _ | ⟨w, results⟩ | _ <;> rw [hmsg] at h
    · cases h
    · dsimp only at h
      split_ifs at h with hnow
      exact .serveTryFetch i w tryUrls now hmsg hnow (Option.some.inj h) rfl
    · cases h
    · exact .serveOnFetched i w results hmsg (Option.some.inj h) ⟨now, rfl⟩
    · cases h
  | reply i =>
    obtain ⟨call, hcall, h⟩ := Option.bind_eq_some_iff.mp h
    obtain ⟨sched, hsched, ht⟩ := Option.map_eq_some_iff.mp h
    obtain ⟨call', hcall', hstage, rfl⟩ := Scheduler.step_finish.mp hsched
    obtain rfl := Option.some.inj (hcall.symm.trans hcall')
    exact .reply i call hcall hstage ht rfl
  | receive i save =>
    obtain ⟨msg, hmsg, h⟩ := Option.bind_eq_some_iff.mp h
    have hends : State.endCall { s with net := s.net.eraseIdx i, lost := s.lost ++ [] } save msg
        = some t := by rwa [List.append_nil]
    exact effect_of_endCall rfl hmsg (Or.inl ⟨rfl, rfl⟩) hends
  | lose i save =>
    obtain ⟨msg, hmsg, h⟩ := Option.bind_eq_some_iff.mp h
    exact effect_of_endCall rfl hmsg (Or.inr ⟨rfl, rfl⟩) h

/-! ### A visit, and the fetches it leads to -/

/-- The plain URL parser, which takes no URL that is not UTF-8. -/
def plainUTF8 : Contribs :=
  { Contribs.plainHttp with
    adaParse := fun url =>
      let urlParsed := UrlParsed.ofUrl .plainHttp url
      if urlParsed.normalized.IsValidUTF8 ∧ urlParsed.robots.IsValidUTF8 then
        Contribs.plainHttp.adaParse url
      else none }

/-- Plain libraries and one worker. -/
def Env.plain : Env where
  sched := ⟨fun mess => some (mess, 0), { FilterRounds.Env.plain with contribs := plainUTF8 },
    .plain _, 24⟩
  fetch := .twoInBatch
  workerCount := 1

theorem utf8_of_plain (url : Url) (hok : (UrlParsed.ofUrl plainUTF8 url).ok = true) :
    (UrlParsed.ofUrl plainUTF8 url).normalized.IsValidUTF8 ∧
      (UrlParsed.ofUrl plainUTF8 url).robots.IsValidUTF8 := by
  have hparse : plainUTF8.adaParse url
      = if (UrlParsed.ofUrl .plainHttp url).normalized.IsValidUTF8 ∧
            (UrlParsed.ofUrl .plainHttp url).robots.IsValidUTF8 then
          Contribs.plainHttp.adaParse url
        else none := rfl
  unfold UrlParsed.ofUrl at hok ⊢
  rw [hparse] at hok ⊢
  split_ifs at hok ⊢ with hvalid
  exact hvalid

/-- Nothing is stored yet, and one crawl of a host may be going on. -/
def Start.fresh : Start .plain where
  sched :=
    { limits := ⟨1, 5, 5, 5, 5⟩, robots := ∅, urlDb := default, visits := ∅, crawled := ∅,
      topic := [], clock := 0, calls := [], calls_perm := by decide }
  pageDbs _ := default

/-- The load loop starts, and a visit comes to both stores. -/
def visit (mess : Str) : List Label :=
  [.sched (.load .start), .sched (.load (.insert mess)), .sched (.load (.freqStats .startRound)),
    .sched (.load (.freqStats (.accEvent 0 0))), .sched (.load (.freqStats .drained)),
    .sched (.load .saveVisit)]

/-- A round of the enqueue loop on one URL. -/
def enqueue (url : Url) (needRobots : List UrlFreq) : List Label :=
  .sched (.startRound true) :: List.replicate 9 (.sched .readCounter) ++
    [.sched (.calcToEnqueueNow 24),
      .sched (.leaveAllowedByRobots [(url, 1)] [(url, 1)] [(url, 1)] 0), .sched .leaveNeedUrls,
      .sched (.leaveNeedRobots needRobots 1), .sched (.takeTime 0), .sched .push,
      .sched (.saveEnqueued 0), .sched .setEnqueued, .sched .sleep]

/-- The worker reads the `i`-th record of the topic and is allowed to fetch it. -/
def ask (i : ℕ) : List Label :=
  [.readKafka 0 i, .merge 0 .startRound, .merge 0 (.accEvent 0), .merge 0 .drained,
    .callTryFetchUrls 0, .serve 0 [.at 0], .receive 0 .returned, .merge 0 .sent]

/-- The response is reported, and the worker gets the reply. -/
def report (resp : Str) : List Label :=
  [.respond 0 0 true default resp, .serve 0 []] ++ List.replicate 5 (.sched (.advance 0 0)) ++
    [.reply 0, .receive 0 .returned]

/-- A page, whose robots URL comes first. -/
def fetchPage : List Label :=
  visit (Str.ofString "http://a/x") ++
    (enqueue (Str.ofString "http://a/x") [(Str.ofString "http://a/robots.txt", 1)] ++ ask 0 ++
      report (Str.ofString "text")) ++
    (enqueue (Str.ofString "http://a/x") [] ++ ask 1 ++ report (Str.ofString "page"))

end Contentv1.System
