import Contentv1.System.Equiv.System
import Contentv1.Scheduler.Equiv.Rpc
import Contentv1.Ldb.Equiv.HostDbRates
import Contentv1.Ldb.Equiv.HostDbSystemLimit

/-!
# The HTTP calls of all workers for one host

`parallel_crawls_le`: however many workers there are and however their calls of the scheduler go on
beside one another, `HostDb` counts the records of a host that are on their way, and where
`max_host_parallel_crawl` is at least 1 the HTTP calls for the host are no more than that, with one
taken off for every record of the host that was lost.

`SlotsCounted` is that of `Scheduler/Equiv/Rpc.lean` with all places in which the crawler may hold a
record that `HostDb` has allowed: the messages, the calls of `onFetched` that have not come to
`HostDb`, the HTTP clients, and what was lost.
-/

namespace Contentv1

namespace HostDb

variable {c : Contribs} {db : HostDb}

theorem crawling_tryCrawl_le (hlimit : 1 ≤ db.limits.maxHostParallelCrawl)
    (h : ∀ host, db.crawling host ≤ db.limits.maxHostParallelCrawl)
    (tried : List (GFQRecord × CrawlReads)) (host : Host) :
    (db.tryCrawl c tried).db.crawling host ≤ db.limits.maxHostParallelCrawl := by
  unfold tryCrawl
  induction tried using List.reverseRecOn generalizing host with
  | nil => exact h host
  | append_singleton tried item ih =>
    rw [tryCrawlLoop_append, db_tryCrawlItem]
    have hlimits := limits_tryCrawlLoop c GFQRecord.url (fun gfq _ => gfq) db tried
    rw [← hlimits] at hlimit ih ⊢
    exact crawling_dbAfter_le item hlimit ih host

theorem crawling_onFetched_le {results : List FetchResult}
    (hok : ∀ r ∈ results, (UrlParsed.ofUrl c r.gfq.url).ok = true) (host : Host) :
    (db.onFetched c results).crawling host ≤ db.crawling host := by
  induction results generalizing db with
  | nil => exact Int.le_refl _
  | cons r results ih =>
    have hitem : (onFetchedItem c db r).crawling host ≤ db.crawling host := by
      rw [crawling_onFetchedItem (hok r List.mem_cons_self)]
      split_ifs <;> omega
    exact (ih fun r' hr' => hok r' (List.mem_cons_of_mem r hr')).trans hitem

/-- `HostDb` as a program that calls it goes on. -/
structure View where
  db : HostDb
  /-- The results it was told. -/
  heard : List FetchResult
  /-- The records for which a crawl is counted. -/
  crawls : List GFQRecord

/-- What a program does to its view when it makes these calls. -/
inductive Called (c : Contribs) (v v' : View) : List Op → Prop
  | quiet (hdb : v'.db = v.db) (hheard : v'.heard = v.heard) (hperm : v.crawls.Perm v'.crawls) :
      Called c v v' []
  | onFetched (results : List FetchResult) (hdb : v'.db = v.db.onFetched c results)
      (hheard : v'.heard = v.heard ++ results)
      (hperm : v.crawls.Perm (results.map FetchResult.gfq ++ v'.crawls)) :
      Called c v v' [.onFetched results]
  | tryCrawl (tryUrls : List (GFQRecord × CrawlReads)) (hdb : v'.db = (v.db.tryCrawl c tryUrls).db)
      (hheard : v'.heard = v.heard)
      (hperm : (v.crawls ++ (v.db.tryCrawl c tryUrls).allowed).Perm v'.crawls) :
      Called c v v' [.tryCrawl tryUrls]

/-- Crawls of other places stay. -/
theorem Called.frame {v v' : View} {ops : List Op} (h : Called c v v' ops)
    (before after : List GFQRecord) :
    Called c { v with crawls := before ++ v.crawls ++ after }
      { v' with crawls := before ++ v'.crawls ++ after } ops := by
  cases h with
  | quiet hdb hheard hperm =>
    exact .quiet hdb hheard ((hperm.append_left before).append_right after)
  | onFetched results hdb hheard hperm =>
    refine .onFetched results hdb hheard (List.perm_iff_count.mpr fun gfq => ?_)
    have hcount := hperm.count_eq gfq
    simp only [List.count_append] at hcount ⊢
    omega
  | tryCrawl tryUrls hdb hheard hperm =>
    refine .tryCrawl tryUrls hdb hheard (List.perm_iff_count.mpr fun gfq => ?_)
    have hcount := hperm.count_eq gfq
    simp only [List.count_append] at hcount ⊢
    omega

end HostDb

namespace Scheduler

variable {env : Env} {ω : Type} {s t : State env ω}

/-- The records of a call whose crawls `HostDb` has not ended. -/
def Call.crawls (call : Call ω) : List GFQRecord :=
  if call.stage = .urlDb ∨ call.stage = .hostDb then call.results.map FetchResult.gfq else []

def State.crawls (s : State env ω) : List GFQRecord :=
  s.calls.flatMap Call.crawls

theorem crawls_eq_nil {call : Call ω} (hurlDb : call.stage ≠ .urlDb)
    (hhostDb : call.stage ≠ .hostDb) : call.crawls = [] :=
  if_neg (not_or.mpr ⟨hurlDb, hhostDb⟩)

def State.view (s : State env ω) : HostDb.View := ⟨s.rounds.hostDb, s.heard, s.crawls⟩

/-- What a call does next, as far as it is about `HostDb`. -/
def Call.hostDbCalls (call : Call ω) : List HostDb.Op :=
  if call.stage = .hostDb then [.onFetched call.results] else []

/-- The call of `HostDb::onFetched` that a step makes. -/
def State.hostDbCalls (s : State env ω) : Label ω → List HostDb.Op
  | .advance i _ => s.calls[i]?.elim [] Call.hostDbCalls
  | _ => []

theorem quiet_of_step {a : Label ω} (hstep : step s a = some t)
    (hadvance : ∀ i now, a ≠ .advance i now)
    (hcaller : ∀ caller results, a ≠ .onFetched caller results) (hfinish : ∀ i, a ≠ .finish i) :
    HostDb.Called env.rounds.contribs s.view t.view [] := by
  cases effect_of_step hstep with
  | load b load hrun h ha ht =>
    subst ht
    exact .quiet rfl rfl (List.Perm.refl _)
  | crawled b crawledDb hrun h ha ht =>
    subst ht
    exact .quiet rfl rfl (List.Perm.refl _)
  | enqueue h ha =>
    have hbeside := h.beside
    refine .quiet hbeside.hostDb hbeside.heard ?_
    show (s.calls.flatMap Call.crawls).Perm (t.calls.flatMap Call.crawls)
    rw [hbeside.calls]
  | call caller results ha ht => exact absurd ha (hcaller caller results)
  | finish i call ha hcall hstage ht => exact absurd ha (hfinish i)
  | advance i now call u stage hcall h ha ht => exact absurd ha (hadvance i now)

/-- The crawls of the results that a call tells `HostDb` end, and those of the others go on. -/
theorem called_of_advance {i : ℕ} {now : ℤ} (hstep : step s (.advance i now) = some t) :
    HostDb.Called env.rounds.contribs s.view t.view (s.hostDbCalls (.advance i now)) := by
  obtain ⟨call, ⟨u, stage⟩, hcall, hr, rfl⟩ := step_advance.mp hstep
  have hadvanced : Advanced s call now u stage := advanced_of_advance hr
  have hset := Machine.perm_flatMap_set Call.crawls hcall { call with stage := stage }
  have hsame : Call.crawls { call with stage := stage } = call.crawls →
      s.crawls.Perm ((s.calls.set i { call with stage := stage }).flatMap Call.crawls) := by
    intro heq
    rw [heq] at hset
    exact (List.perm_append_left_iff _).mp hset
  obtain ⟨caller, results, stage₀⟩ := call
  rw [State.hostDbCalls, hcall, Option.elim_some]
  cases hadvanced with
  | urlDb urlDb hstage hdb =>
    obtain rfl : stage₀ = .urlDb := hstage
    exact .quiet rfl rfl (hsame rfl)
  | hostDb hstage =>
    obtain rfl : stage₀ = .hostDb := hstage
    exact .onFetched results rfl rfl hset
  | saveResult status cnt todo crawledDb hstage h =>
    obtain rfl : stage₀ = .crawledDb ((status, cnt) :: todo) := hstage
    exact .quiet rfl rfl (hsame rfl)
  | saved hstage =>
    obtain rfl : stage₀ = .crawledDb [] := hstage
    exact .quiet rfl rfl (hsame rfl)
  | incStats hstage =>
    obtain rfl : stage₀ = .incStats := hstage
    exact .quiet rfl rfl (hsame rfl)

theorem called_of_step {a : Label ω} (hstep : step s a = some t)
    (hcaller : ∀ caller results, a ≠ .onFetched caller results) (hfinish : ∀ i, a ≠ .finish i) :
    HostDb.Called env.rounds.contribs s.view t.view (s.hostDbCalls a) := by
  cases a with
  | advance i now => exact called_of_advance hstep
  | _ => exact quiet_of_step hstep (by rintro _ _ ⟨⟩) hcaller hfinish

end Scheduler

namespace System

open FetchPages (JobInfo SaveOutcome)
open SchedulerRpc (Msg hostOf)

variable {env : Env} {start : Start env} {s t : State env} {limits : CrawlLimits}

/-- The records that all HTTP clients are fetching. -/
def State.clients (s : State env) : List GFQRecord :=
  (List.range env.workerCount).flatMap fun w => (s.workers w).fetch.client

/-- The records for which a crawl is counted. -/
def State.crawls (s : State env) : List GFQRecord :=
  s.net.flatMap Msg.counted ++ s.sched.crawls ++ s.clients ++ s.lost.flatMap Msg.counted

def State.view (s : State env) : HostDb.View :=
  ⟨s.sched.rounds.hostDb, s.sched.heard, s.crawls⟩

/-- The calls of `HostDb::tryCrawl` and `HostDb::onFetched` that a step makes. -/
def State.hostDbCalls (s : State env) : Label → List HostDb.Op
  | .sched a => s.sched.hostDbCalls a
  | .serve i now =>
    match s.net[i]? with
    | some (.tryFetchRequest _ tryUrls) => [.tryCrawl (tryUrls.zip now)]
    | _ => []
  | _ => []

structure SlotsCounted (limits : CrawlLimits) (s : State env) : Prop where
  counted : HostDb.Counted s.sched.rounds.hostDb
    (s.crawls.map (hostOf env.sched.rounds.contribs))
  parsed : ∀ gfq ∈ s.crawls, (UrlParsed.ofUrl env.sched.rounds.contribs gfq.url).ok = true
  limits_eq : s.sched.rounds.hostDb.limits = limits
  le : 1 ≤ limits.maxHostParallelCrawl →
    ∀ host, s.sched.rounds.hostDb.crawling host ≤ limits.maxHostParallelCrawl

theorem crawls_init (start : Start env) : (State.init start).crawls = [] := by
  unfold State.crawls State.clients
  show _ ++ List.flatMap (fun _ => []) _ ++ _ = _
  rw [List.flatMap_eq_nil_iff.mpr fun _ _ => rfl]
  rfl

theorem slotsCounted_init (start : Start env) :
    SlotsCounted start.sched.limits (.init start) := by
  have hnone := crawls_init start
  have hcounted := HostDb.counted_init start.sched.limits start.sched.robots
  refine ⟨?_, ?_, rfl, fun hlimit host => ?_⟩
  · rw [hnone]
    exact hcounted
  · rw [hnone]
    exact fun _ h => absurd h List.not_mem_nil
  · show (HostDb.openDb start.sched.limits start.sched.robots).crawling host ≤ _
    rw [hcounted.host]
    exact zero_le_one.trans hlimit

/-! ### Records that stay, are reported, are allowed -/

/-- Crawls end with the results that `HostDb` is told. -/
theorem SlotsCounted.onFetched (hs : SlotsCounted limits s) (results : List FetchResult)
    (hdb : t.sched.rounds.hostDb
      = s.sched.rounds.hostDb.onFetched env.sched.rounds.contribs results)
    (hperm : s.crawls.Perm (results.map FetchResult.gfq ++ t.crawls)) : SlotsCounted limits t := by
  have hok : ∀ r ∈ results, (UrlParsed.ofUrl env.sched.rounds.contribs r.gfq.url).ok = true :=
    fun r hr => hs.parsed r.gfq
      (hperm.mem_iff.mpr (List.mem_append_left _ (List.mem_map_of_mem hr)))
  constructor
  · have hcounted := hs.counted.of_perm (hperm.map (hostOf env.sched.rounds.contribs))
    rw [List.map_append, List.map_map] at hcounted
    rw [hdb]
    exact hcounted.onFetched hok
  · exact fun gfq hgfq => hs.parsed gfq (hperm.mem_iff.mpr (List.mem_append_right _ hgfq))
  · rw [hdb, HostDb.limits_onFetched, hs.limits_eq]
  · intro hlimit host
    rw [hdb]
    exact (HostDb.crawling_onFetched_le hok host).trans (hs.le hlimit host)

/-- Records that only move keep their slots. -/
theorem SlotsCounted.of_perm (hs : SlotsCounted limits s) (hperm : s.crawls.Perm t.crawls)
    (hdb : t.sched.rounds.hostDb = s.sched.rounds.hostDb) : SlotsCounted limits t :=
  hs.onFetched [] hdb hperm

/-- A crawl is counted for every record that is allowed. -/
theorem SlotsCounted.tryCrawl (hs : SlotsCounted limits s) (tried : List (GFQRecord × CrawlReads))
    (hdb : t.sched.rounds.hostDb
      = (s.sched.rounds.hostDb.tryCrawl env.sched.rounds.contribs tried).db)
    (hperm : (s.crawls
      ++ (s.sched.rounds.hostDb.tryCrawl env.sched.rounds.contribs tried).allowed).Perm t.crawls) :
    SlotsCounted limits t := by
  have hlimits := hs.limits_eq
  constructor
  · have hcounted := hs.counted.tryCrawlLoop env.sched.rounds.contribs GFQRecord.url
      (fun gfq _ => gfq) tried
    have hmap := hperm.map (hostOf env.sched.rounds.contribs)
    rw [List.map_append] at hmap
    unfold hostOf at hmap
    rw [HostDb.map_host_allowed] at hmap
    rw [hdb]
    exact hcounted.of_perm hmap
  · intro gfq hgfq
    rcases List.mem_append.mp (hperm.mem_iff.mpr hgfq) with hgfq | hgfq
    · exact hs.parsed gfq hgfq
    · exact HostDb.ok_of_mem_allowed hgfq
  · rw [hdb]
    exact (HostDb.limits_tryCrawlLoop _ _ _ _ _).trans hlimits
  · intro hlimit host
    rw [hdb]
    subst hlimits
    exact HostDb.crawling_tryCrawl_le hlimit (hs.le hlimit) tried host

/-! ### Steps of the crawler -/

theorem count_crawls (s : State env) (gfq : GFQRecord) :
    s.crawls.count gfq = (s.net.flatMap Msg.counted).count gfq + s.sched.crawls.count gfq
      + s.clients.count gfq + (s.lost.flatMap Msg.counted).count gfq := by
  unfold State.crawls
  rw [List.count_append, List.count_append, List.count_append]

/-- A step of one worker and of the messages, which leaves the scheduler as it is. -/
theorem called_update {label : Label} (hlabel : label.ofWorker = true) {w : ℕ}
    {worker : Worker.State} {net lost : List Msg} (hw : w < env.workerCount)
    (hcount : ∀ gfq, (net.flatMap Msg.counted).count gfq + worker.fetch.client.count gfq
        + (lost.flatMap Msg.counted).count gfq
      = (s.net.flatMap Msg.counted).count gfq + (s.workers w).fetch.client.count gfq
        + (s.lost.flatMap Msg.counted).count gfq) :
    HostDb.Called env.sched.rounds.contribs s.view
      (State.view { s with
        workers := Function.update s.workers w worker, net := net, lost := lost })
      (s.hostDbCalls label) := by
  have hcalls : s.hostDbCalls label = [] := by
    cases label with
    | sched a => cases hlabel
    | serve i now => cases hlabel
    | reply i => cases hlabel
    | _ => rfl
  rw [hcalls]
  refine .quiet rfl rfl (List.perm_iff_count.mpr fun gfq => ?_)
  have hclients := (Machine.perm_flatMap_range_update (fun worker => worker.fetch.client) s.workers
    hw worker).count_eq gfq
  rw [List.count_append, List.count_append] at hclients
  have hgfq := hcount gfq
  show s.crawls.count gfq = (State.crawls _).count gfq
  rw [count_crawls, count_crawls]
  unfold State.clients
  dsimp only
  omega

theorem count_counted_append (net net' : List Msg) (gfq : GFQRecord) :
    ((net ++ net').flatMap Msg.counted).count gfq
      = (net.flatMap Msg.counted).count gfq + (net'.flatMap Msg.counted).count gfq := by
  rw [List.flatMap_append, List.count_append]

theorem count_counted_eraseIdx {net : List Msg} {i : ℕ} {msg : Msg} (hmsg : net[i]? = some msg)
    (gfq : GFQRecord) :
    (net.flatMap Msg.counted).count gfq
      = msg.counted.count gfq + ((net.eraseIdx i).flatMap Msg.counted).count gfq := by
  rw [((Machine.perm_cons_eraseIdx hmsg).flatMap_right Msg.counted).count_eq gfq,
    List.flatMap_cons, List.count_append]

/-- The merge queue calls no HTTP client. -/
theorem client_of_mergeStep {fenv : FetchLoop.Env} {worker worker' : Worker.State}
    {a : FetchLoop.Label} (h : Worker.mergeStep fenv worker a = some worker') :
    worker'.fetch.client = worker.fetch.client := by
  obtain ⟨hmerge, fetch, hfetch, rfl⟩ := Worker.mergeStep_eq_some.mp h
  cases a with
  | startRound =>
    obtain ⟨-, rfl⟩ := FetchLoop.step_startRound.mp hfetch
    rfl
  | accEvent i =>
    obtain ⟨_, _, -, -, rfl⟩ := FetchLoop.step_accEvent.mp hfetch
    rfl
  | drained =>
    obtain ⟨_, -, -, rfl⟩ := FetchLoop.step_drained.mp hfetch
    rfl
  | sent =>
    obtain ⟨_, -, -, rfl⟩ := FetchLoop.step_sent.mp hfetch
    rfl
  | _ => cases hmerge

/-- **A step** of the crawler, seen from `HostDb`. -/
theorem called_of_step {label : Label} (hstep : step s label = some t) :
    HostDb.Called env.sched.rounds.contribs s.view t.view (s.hostDbCalls label) := by
  cases effect_of_step hstep with
  | sched a sched hown h ht hlabel =>
    subst ht hlabel
    have hcalled := Scheduler.called_of_step h (by rintro _ _ rfl; cases hown)
      (by rintro _ rfl; cases hown)
    have hframed := hcalled.frame (s.net.flatMap Msg.counted) s.clients
    exact hframed.frame [] (s.lost.flatMap Msg.counted)
  | readKafka w hw dump gfq worker hdump hgfq h ht hlabel =>
    subst ht
    obtain rfl := Worker.read_eq_some.mp h
    exact called_update hlabel hw fun _ => rfl
  | merge w hw a worker h ht hlabel =>
    subst ht
    refine called_update hlabel hw fun gfq => ?_
    rw [client_of_mergeStep h]
  | ask w hw worker h ht hlabel =>
    subst ht
    obtain ⟨-, -, -, -, rfl⟩ := Worker.ask_eq_some.mp h
    refine called_update hlabel hw fun gfq => ?_
    -- a request has no slot yet
    rw [count_counted_append]
    rfl
  | respond w hw i ji worker hclient h ht hlabel =>
    subst ht
    obtain ⟨-, fetch, hfetch, rfl⟩ := Worker.respond_eq_some.mp h
    obtain ⟨gfq, hgfq, rfl⟩ := FetchLoop.step_onResponse.mp hfetch
    obtain rfl := Option.some.inj (hclient.symm.trans hgfq)
    refine called_update hlabel hw fun gfq => ?_
    -- the record goes from the client to the request
    have hperm := (Machine.perm_cons_eraseIdx hclient).count_eq gfq
    rw [List.count_cons, ← List.count_singleton] at hperm
    rw [count_counted_append]
    show _ + [ji.userdata].count gfq + ((s.workers w).fetch.client.eraseIdx i).count gfq + _ = _
    omega
  | serveTryFetch i w tryUrls now hmsg hnow ht hlabel =>
    subst ht hlabel
    rw [State.hostDbCalls, hmsg]
    refine .tryCrawl (tryUrls.zip now) rfl rfl (List.perm_iff_count.mpr fun gfq => ?_)
    have herase := count_counted_eraseIdx hmsg gfq
    set allowed := (s.sched.rounds.hostDb.tryCrawl env.sched.rounds.contribs
      (tryUrls.zip now)).allowed
    show (s.crawls ++ allowed).count gfq = (State.crawls _).count gfq
    rw [List.count_append, count_crawls, count_crawls]
    dsimp only
    rw [count_counted_append, herase, List.flatMap_singleton]
    show 0 + _ + _ + _ + _ + _ = _ + allowed.count gfq + s.sched.crawls.count gfq
      + s.clients.count gfq + _
    omega
  | serveOnFetched i w results hmsg ht hlabel =>
    subst ht
    obtain ⟨now, rfl⟩ := hlabel
    rw [State.hostDbCalls, hmsg]
    refine .quiet rfl rfl (List.perm_iff_count.mpr fun gfq => ?_)
    -- the records go from the request to the call
    have herase := count_counted_eraseIdx hmsg gfq
    show s.crawls.count gfq = (State.crawls _).count gfq
    rw [count_crawls, count_crawls, herase]
    unfold Scheduler.State.crawls
    dsimp only
    rw [List.flatMap_append, List.count_append, List.flatMap_singleton]
    show (results.map FetchResult.gfq).count gfq + _ + _ + _ + _
      = _ + (_ + (results.map FetchResult.gfq).count gfq) + s.clients.count gfq + _
    omega
  | reply i call hcall hstage ht hlabel =>
    subst ht hlabel
    refine .quiet rfl rfl (List.perm_iff_count.mpr fun gfq => ?_)
    have hperm := ((Machine.perm_cons_eraseIdx hcall).flatMap_right
      Scheduler.Call.crawls).count_eq gfq
    have hnone : call.crawls = [] :=
      Scheduler.crawls_eq_nil (by rw [hstage]; rintro ⟨⟩) (by rw [hstage]; rintro ⟨⟩)
    rw [List.flatMap_cons, hnone, List.nil_append] at hperm
    show s.crawls.count gfq = (State.crawls _).count gfq
    rw [count_crawls, count_crawls]
    unfold Scheduler.State.crawls
    dsimp only
    rw [count_counted_append, hperm]
    rfl
  | answer i w hw msg allowedUrls lost worker hmsg hends h ht hlabel =>
    subst ht
    obtain ⟨-, fetch, hfetch, rfl⟩ := Worker.answer_eq_some.mp h
    obtain ⟨a, -, -, -, rfl⟩ := FetchLoop.step_tryFetchUrls.mp hfetch
    refine called_update hlabel hw fun gfq => ?_
    have herase := count_counted_eraseIdx hmsg gfq
    -- the allowed records go from the reply to the client, or are lost
    have hmoved : msg.counted.count gfq
        = allowedUrls.count gfq + (lost.flatMap Msg.counted).count gfq := by
      cases hends with
      | received => exact (Nat.add_zero _).symm
      | lostRequest tryUrls => rfl
      | lostReply allowedUrls =>
        rw [List.flatMap_singleton]
        exact (Nat.zero_add _).symm
    rw [count_counted_append, herase]
    dsimp only
    rw [List.count_append]
    omega
  | reported i w hw msg lost save worker hmsg hends h ht hlabel =>
    subst ht
    obtain ⟨ji, -, rfl⟩ := Worker.reported_eq_some.mp h
    refine called_update hlabel hw fun gfq => ?_
    have herase := count_counted_eraseIdx hmsg gfq
    -- a request that is lost keeps its slots
    have hmoved : msg.counted.count gfq = (lost.flatMap Msg.counted).count gfq := by
      cases hends with
      | received => rfl
      | lostRequest results => rw [List.flatMap_singleton]
      | lostReply => rfl
    rw [count_counted_append, herase]
    dsimp only
    omega

theorem SlotsCounted.step {ops : List HostDb.Op}
    (hcalled : HostDb.Called env.sched.rounds.contribs s.view t.view ops)
    (hs : SlotsCounted limits s) : SlotsCounted limits t := by
  cases hcalled with
  | quiet hdb hheard hperm => exact hs.of_perm hperm hdb
  | onFetched results hdb hheard hperm => exact hs.onFetched results hdb hperm
  | tryCrawl tryUrls hdb hheard hperm => exact hs.tryCrawl tryUrls hdb hperm

/-- **The limit on parallel crawls of a host.**  In every state that a run leads to, the counter of
a host in `HostDb` is the number of its records that are in messages, in calls of `onFetched`, at
HTTP clients, or lost; so where the limit is at least 1 the HTTP calls of all workers for the host
and its lost records are together within it. -/
theorem parallel_crawls_le (start : Start env) {l : List Label}
    (hrun : Machine.run step (.init start) l = some s) (host : Host) :
    s.sched.rounds.hostDb.crawling host
        = ((s.crawls.map (hostOf env.sched.rounds.contribs)).count host : ℤ) ∧
      (1 ≤ start.sched.limits.maxHostParallelCrawl →
        ((s.clients.map (hostOf env.sched.rounds.contribs)).count host : ℤ)
            + (((s.lost.flatMap Msg.counted).map (hostOf env.sched.rounds.contribs)).count host : ℤ)
          ≤ start.sched.limits.maxHostParallelCrawl) := by
  have hs : SlotsCounted start.sched.limits s :=
    Machine.run_induction (P := SlotsCounted start.sched.limits)
      (fun _ _ _ h hs => hs.step (called_of_step h)) hrun (slotsCounted_init start)
  have hcrawling := hs.counted.host host
  refine ⟨hcrawling, fun hlimit => ?_⟩
  have hle := hs.le hlimit host
  rw [hcrawling] at hle
  unfold State.crawls at hle
  simp only [List.map_append, List.count_append] at hle
  omega

/-- One record of the host is at the HTTP client. -/
def fetchingRobots : List Label :=
  visit (Str.ofString "http://a/x") ++
    enqueue (Str.ofString "http://a/x") [(Str.ofString "http://a/robots.txt", 1)] ++ ask 0

theorem parallel_crawls_le_fetchingRobots :
    ∃ s : State .plain, Machine.run step (.init .fresh) fetchingRobots = some s ∧
      (s.clients.map (hostOf plainUTF8)).count (Str.ofString "a") = 1 ∧
      s.sched.rounds.hostDb.crawling (Str.ofString "a")
        = ((s.crawls.map (hostOf plainUTF8)).count (Str.ofString "a") : ℤ) ∧
      ((s.clients.map (hostOf plainUTF8)).count (Str.ofString "a") : ℤ)
          + (((s.lost.flatMap Msg.counted).map (hostOf plainUTF8)).count (Str.ofString "a") : ℤ)
        ≤ 1 := by
  have hrun : ∃ s : State .plain, Machine.run step (.init .fresh) fetchingRobots = some s ∧
      (s.clients.map (hostOf plainUTF8)).count (Str.ofString "a") = 1 := by
    decide +kernel
  obtain ⟨s, hs, hclients⟩ := hrun
  obtain ⟨hcounter, hle⟩ := parallel_crawls_le .fresh hs (Str.ofString "a")
  exact ⟨s, hs, hclients, hcounter, hle (by decide)⟩

end System

end Contentv1
