import Contentv1.System.Equiv.System
import Contentv1.Worker.Equiv.FetchPages

/-!
# Where the pages come from

`pages_from_visits`: every page that a worker has saved was fetched for a record that was in the
topic at the start or that the scheduler wrote to it, of the normalized URL of a visit, after
`HostDb` had allowed it by a robots text of its host, which had itself been stored before or fetched
for such a record.

`Sound` follows the records: out of the topic into the workers, as URLs to try to the scheduler, as
allowed ones back to the workers, and as results to the scheduler again.
-/

namespace Contentv1

namespace HostDb

/-- What is put out passes the robots rule. -/
theorem isAllowedRobots_of_mem_allowed {c : Contribs} {db : HostDb}
    {tryUrls : List (GFQRecord × CrawlReads)} {gfq : GFQRecord}
    (h : gfq ∈ (db.tryCrawl c tryUrls).allowed) :
    (db.isAllowedRobots c (UrlParsed.ofUrl c gfq.url)).1 = true := by
  revert h
  suffices hall : ∀ b ∈ (db.tryCrawl c tryUrls).allowed,
      (db.isAllowedRobots c (UrlParsed.ofUrl c b.url)).1 = true from hall gfq
  unfold tryCrawl
  induction tryUrls using List.reverseRecOn with
  | nil => exact fun b h => absurd h List.not_mem_nil
  | append_singleton tryUrls item ih =>
    refine forall_mem_allowed_tryCrawlLoop_append.mpr ⟨ih, fun hallow => ?_⟩
    have hrobots : (dbAt c GFQRecord.url db tryUrls).hostRobots = db.hostRobots := by
      have hkept := hostRobots_tryCrawlLoop c GFQRecord.url (fun gfq _ => gfq) db tryUrls
      rwa [db_tryCrawlLoop] at hkept
    have hrule := (decisionOn_eq_allow_iff.mp hallow).2.1
    rwa [isAllowedRobots_congr hrobots] at hrule

end HostDb

namespace System

open FetchPages (JobInfo SaveOutcome savePage)
open Scheduler (Grows Sourced TextOf TextsHeard Named)
open SchedulerRpc (Msg)

variable {env : Env} {start : Start env} {s t : State env}

/-! ### Records -/

/-- The record is in the topic, which keeps all that was written to it. -/
def Written (s : Scheduler.State env.sched ℕ) (gfq : GFQRecord) : Prop :=
  ∃ dump ∈ s.topic, GFQRecord.ofDump env.sched.pb dump = .ok gfq

/-- The URL parses, and it ends like a robots URL or a text of its host allows it. -/
structure Permitted (start : Scheduler.Start env.sched) (s : Scheduler.State env.sched ℕ)
    (url : Url) : Prop where
  ok : (UrlParsed.ofUrl env.sched.rounds.contribs url).ok = true
  rule : (UrlParsed.ofUrl env.sched.rounds.contribs url).isRobots = true ∨
    ∃ text, TextOf start s (UrlParsed.ofUrl env.sched.rounds.contribs url).host text ∧
      (Robots.mk text).isAllowed env.sched.rounds.contribs
        (UrlParsed.ofUrl env.sched.rounds.contribs url).normalized = true

/-- The record was written, and a worker was allowed to fetch it. -/
def Granted (start : Scheduler.Start env.sched) (s : Scheduler.State env.sched ℕ)
    (gfq : GFQRecord) : Prop :=
  Written s gfq ∧ Permitted start s gfq.url

section Grows

variable {sched sched' : Scheduler.State env.sched ℕ} {gfq : GFQRecord} {url : Url}

theorem Written.mono (hgrows : Grows sched sched') (h : Written sched gfq) :
    Written sched' gfq := by
  obtain ⟨dump, hdump, hgfq⟩ := h
  exact ⟨dump, hgrows.topic hdump, hgfq⟩

theorem Permitted.mono (hgrows : Grows sched sched') (h : Permitted start.sched sched url) :
    Permitted start.sched sched' url :=
  ⟨h.ok, h.rule.imp_right fun ⟨text, htext, hallowed⟩ => ⟨text, htext.mono hgrows, hallowed⟩⟩

theorem Granted.mono (hgrows : Grows sched sched') (h : Granted start.sched sched gfq) :
    Granted start.sched sched' gfq :=
  ⟨h.1.mono hgrows, h.2.mono hgrows⟩

/-- What `tryFetchUrls` allows is permitted. -/
theorem permitted_of_tryFetchUrls (htexts : TextsHeard start.sched sched)
    {tryUrls : List (GFQRecord × CrawlReads)}
    (h : gfq ∈ (Scheduler.tryFetchUrls sched tryUrls).1) :
    Permitted start.sched sched gfq.url := by
  refine ⟨HostDb.ok_of_mem_allowed h, ?_⟩
  have hrule := HostDb.isAllowedRobots_of_mem_allowed h
  refine (HostDb.isAllowedRobots_iff.mp hrule).imp_right ?_
  rintro ⟨robots, hrobots, hallowed⟩
  exact ⟨robots.robotsStr, htexts _ robots hrobots, hallowed⟩

end Grows

/-! ### What holds in every run -/

/-- What a worker holds; its store was `pageDb` at the start. -/
structure WorkerSound (start : Scheduler.Start env.sched) (sched : Scheduler.State env.sched ℕ)
    (pageDb : PageDb) (worker : Worker.State) : Prop where
  read : ∀ gfq ∈ worker.fetch.read, Written sched gfq
  held : FetchLoop.FromRead worker.fetch
  client : ∀ gfq ∈ worker.fetch.client, Permitted start sched gfq.url
  responding : ∀ ji, worker.responding = some ji → Granted start sched ji.userdata
  pages : ∀ (url : Url) (page : Str), worker.pageDb.db[url]? = some page →
    pageDb.db[url]? = some page ∨
      ∃ gfq, gfq.url = url ∧ gfq.isRobots = false ∧ Granted start sched gfq

/-- What a message carries. -/
def MsgSound (start : Scheduler.Start env.sched) (sched : Scheduler.State env.sched ℕ) :
    Msg → Prop
  | .tryFetchReply _ allowedUrls => ∀ gfq ∈ allowedUrls, Permitted start sched gfq.url
  | .onFetchedRequest _ results => ∀ r ∈ results, Granted start sched r.gfq
  | _ => True

structure Sound (start : Start env) (s : State env) : Prop where
  sourced : Sourced start.sched s.sched
  texts : TextsHeard start.sched s.sched
  workers : ∀ w, WorkerSound start.sched s.sched (start.pageDbs w) (s.workers w)
  net : ∀ msg ∈ s.net, MsgSound start.sched s.sched msg
  calls : ∀ call ∈ s.sched.calls, ∀ r ∈ call.results, Granted start.sched s.sched r.gfq
  heard : ∀ r ∈ s.sched.heard, Granted start.sched s.sched r.gfq

theorem sound_init (start : Start env) : Sound start (.init start) where
  sourced := Scheduler.sourced_init start.sched
  texts := Scheduler.textsHeard_init start.sched
  workers _ :=
    { read := fun _ h => absurd h List.not_mem_nil
      held := FetchLoop.fromRead_init
      client := fun _ h => absurd h List.not_mem_nil
      responding := fun _ h => (Option.some_ne_none _ h.symm).elim
      pages := fun _ _ h => Or.inl h }
  net _ h := absurd h List.not_mem_nil
  calls _ h := absurd h List.not_mem_nil
  heard _ h := absurd h List.not_mem_nil

theorem WorkerSound.mono {sched sched' : Scheduler.State env.sched ℕ} {pageDb : PageDb}
    {worker : Worker.State} (hgrows : Grows sched sched')
    (h : WorkerSound start.sched sched pageDb worker) :
    WorkerSound start.sched sched' pageDb worker where
  read gfq hgfq := (h.read gfq hgfq).mono hgrows
  held := h.held
  client gfq hgfq := (h.client gfq hgfq).mono hgrows
  responding ji hji := (h.responding ji hji).mono hgrows
  pages url page hpage := (h.pages url page hpage).imp_right
    fun ⟨gfq, hurl, hrobots, hgranted⟩ => ⟨gfq, hurl, hrobots, hgranted.mono hgrows⟩

/-! ### Steps of a worker -/

section Worker

variable {sched : Scheduler.State env.sched ℕ} {pageDb : PageDb} {worker worker' : Worker.State}

theorem WorkerSound.readKafka {gfq : GFQRecord}
    (hs : WorkerSound start.sched sched pageDb worker) (hgfq : Written sched gfq)
    (h : Worker.read env.fetch worker gfq = some worker') :
    WorkerSound start.sched sched pageDb worker' := by
  obtain ⟨fetch, hfetch, rfl⟩ := Option.map_eq_some_iff.mp h
  have hheld := FetchLoop.fromRead_step hfetch hs.held
  obtain rfl := FetchLoop.step_read.mp hfetch
  refine ⟨fun gfq' hgfq' => ?_, hheld, hs.client, hs.responding, hs.pages⟩
  rcases List.mem_append.mp hgfq' with hgfq' | hgfq'
  · exact hs.read gfq' hgfq'
  · rw [List.mem_singleton.mp hgfq']
    exact hgfq

theorem WorkerSound.mergeStep {a : FetchLoop.Label}
    (hs : WorkerSound start.sched sched pageDb worker)
    (h : Worker.mergeStep env.fetch worker a = some worker') :
    WorkerSound start.sched sched pageDb worker' := by
  obtain ⟨hmerge, fetch, hfetch, rfl⟩ := Worker.mergeStep_eq_some.mp h
  have hheld := FetchLoop.fromRead_step hfetch hs.held
  -- the thread neither reads nor fetches
  have hkept : fetch.read = worker.fetch.read ∧ fetch.client = worker.fetch.client := by
    cases a with
    | startRound =>
      obtain ⟨-, rfl⟩ := FetchLoop.step_startRound.mp hfetch
      exact ⟨rfl, rfl⟩
    | accEvent i =>
      obtain ⟨-, -, -, -, rfl⟩ := FetchLoop.step_accEvent.mp hfetch
      exact ⟨rfl, rfl⟩
    | drained =>
      obtain ⟨-, -, -, rfl⟩ := FetchLoop.step_drained.mp hfetch
      exact ⟨rfl, rfl⟩
    | sent =>
      obtain ⟨-, -, -, rfl⟩ := FetchLoop.step_sent.mp hfetch
      exact ⟨rfl, rfl⟩
    | _ => cases hmerge
  refine ⟨?_, hheld, ?_, hs.responding, hs.pages⟩
  · show ∀ gfq ∈ fetch.read, _
    rw [hkept.1]
    exact hs.read
  · show ∀ gfq ∈ fetch.client, _
    rw [hkept.2]
    exact hs.client

theorem WorkerSound.ask (hs : WorkerSound start.sched sched pageDb worker)
    (h : Worker.ask worker = some worker') : WorkerSound start.sched sched pageDb worker' := by
  obtain ⟨-, -, -, -, rfl⟩ := Worker.ask_eq_some.mp h
  exact ⟨hs.read, hs.held, hs.client, hs.responding, hs.pages⟩

theorem WorkerSound.answer {allowedUrls : List GFQRecord}
    (hs : WorkerSound start.sched sched pageDb worker)
    (hallowed : ∀ gfq ∈ allowedUrls, Permitted start.sched sched gfq.url)
    (h : Worker.answer env.fetch worker allowedUrls = some worker') :
    WorkerSound start.sched sched pageDb worker' := by
  obtain ⟨-, fetch, hfetch, rfl⟩ := Worker.answer_eq_some.mp h
  have hheld := FetchLoop.fromRead_step hfetch hs.held
  obtain ⟨_, _, _, _, rfl⟩ := FetchLoop.step_tryFetchUrls.mp hfetch
  refine ⟨hs.read, hheld, fun gfq hgfq => ?_, hs.responding, hs.pages⟩
  rcases List.mem_append.mp hgfq with hgfq | hgfq
  · exact hs.client gfq hgfq
  · exact hallowed gfq hgfq

/-- What the client holds has been granted. -/
theorem WorkerSound.granted (hs : WorkerSound start.sched sched pageDb worker) {i : ℕ}
    {gfq : GFQRecord} (h : worker.fetch.client[i]? = some gfq) :
    Granted start.sched sched gfq :=
  ⟨hs.read gfq (hs.held.client (List.mem_of_getElem? h)), hs.client gfq (List.mem_of_getElem? h)⟩

theorem WorkerSound.respond {i : ℕ} {ji : JobInfo}
    (hs : WorkerSound start.sched sched pageDb worker)
    (hclient : worker.fetch.client[i]? = some ji.userdata)
    (h : Worker.respond env.fetch worker i ji = some worker') :
    WorkerSound start.sched sched pageDb worker' := by
  obtain ⟨-, fetch, hfetch, rfl⟩ := Worker.respond_eq_some.mp h
  have hheld := FetchLoop.fromRead_step hfetch hs.held
  obtain ⟨gfq, -, rfl⟩ := FetchLoop.step_onResponse.mp hfetch
  refine ⟨hs.read, hheld, fun gfq hgfq => ?_, fun ji' hji' => ?_, hs.pages⟩
  · exact hs.client gfq (List.eraseIdx_subset hgfq)
  · obtain rfl := Option.some.inj hji'
    exact hs.granted hclient

/-- The page of a response is saved under the URL of its record. -/
theorem WorkerSound.reported {save : SaveOutcome}
    (hs : WorkerSound start.sched sched pageDb worker)
    (h : Worker.reported worker save = some worker') :
    WorkerSound start.sched sched pageDb worker' := by
  obtain ⟨ji, hji, rfl⟩ := Worker.reported_eq_some.mp h
  refine ⟨hs.read, hs.held, hs.client, fun ji' hji' => ?_, fun url page hpage => ?_⟩
  · cases hji'
  · dsimp only at hpage
    rw [FetchPages.getElem?_savePage] at hpage
    split_ifs at hpage with hsaved
    · exact Or.inr ⟨ji.userdata, hsaved.2.2.2, hsaved.2.1, hs.responding ji hji⟩
    · exact hs.pages url page hpage

end Worker

/-! ### Steps of the crawler -/

theorem MsgSound.mono {sched sched' : Scheduler.State env.sched ℕ} (hgrows : Grows sched sched')
    {msg : Msg} (h : MsgSound start.sched sched msg) : MsgSound start.sched sched' msg := by
  cases msg with
  | tryFetchReply w allowedUrls => exact fun gfq hgfq => (h gfq hgfq).mono hgrows
  | onFetchedRequest w results => exact fun r hr => (h r hr).mono hgrows
  | _ => trivial

/-- A step of one worker, with the messages that it leaves. -/
theorem Sound.update {w : ℕ} {worker : Worker.State} {net lost : List Msg} (hs : Sound start s)
    (hworker : WorkerSound start.sched s.sched (start.pageDbs w) (s.workers w) →
      WorkerSound start.sched s.sched (start.pageDbs w) worker)
    (hnet : ∀ msg ∈ net, MsgSound start.sched s.sched msg) :
    Sound start { s with
      workers := Function.update s.workers w worker, net := net, lost := lost } := by
  refine ⟨hs.sourced, hs.texts, ?_, hnet, hs.calls, hs.heard⟩
  show ∀ v, WorkerSound start.sched s.sched (start.pageDbs v) (Function.update s.workers w worker v)
  rw [Function.forall_update_iff s.workers fun v worker =>
    WorkerSound start.sched s.sched (start.pageDbs v) worker]
  exact ⟨hworker (hs.workers w), fun v _ => hs.workers v⟩

theorem sound_step (hlimit : ∀ v n, env.sched.rounds.limitVector v n ⊆ v) {a : Label}
    (hstep : step s a = some t) (hs : Sound start s) : Sound start t := by
  have hrest : ∀ i, ∀ msg ∈ s.net.eraseIdx i, MsgSound start.sched s.sched msg :=
    fun i msg hmsg => hs.net msg (List.eraseIdx_subset hmsg)
  have hadd : ∀ {net : List Msg} {new : Msg},
      (∀ msg ∈ net, MsgSound start.sched s.sched msg) → MsgSound start.sched s.sched new →
      ∀ msg ∈ net ++ [new], MsgSound start.sched s.sched msg := by
    intro net new hnet hnew msg hmsg
    rcases List.mem_append.mp hmsg with hmsg | hmsg
    · exact hnet msg hmsg
    · rw [List.mem_singleton.mp hmsg]
      exact hnew
  cases effect_of_step hstep with
  | sched a sched hown h ht =>
    subst ht
    have hgrows := Scheduler.grows_step h
    obtain ⟨hcalls, hheard⟩ := Scheduler.results_step h (by rintro _ _ rfl; cases hown)
      hs.calls hs.heard
    exact
      { sourced := Scheduler.sourced_step hlimit h hs.sourced
        texts := Scheduler.textsHeard_step h hs.texts
        workers := fun w => (hs.workers w).mono hgrows
        net := fun msg hmsg => (hs.net msg hmsg).mono hgrows
        calls := fun call hcall r hr => (hcalls call hcall r hr).mono hgrows
        heard := fun r hr => (hheard r hr).mono hgrows }
  | readKafka w hw dump gfq worker hdump hgfq h ht =>
    subst ht
    exact hs.update (fun hw => hw.readKafka ⟨dump, hdump, hgfq⟩ h) hs.net
  | merge w hw a worker h ht =>
    subst ht
    exact hs.update (fun hw => hw.mergeStep h) hs.net
  | ask w hw worker h ht =>
    subst ht
    exact hs.update (fun hw => hw.ask h) (hadd hs.net trivial)
  | respond w hw i ji worker hclient h ht =>
    subst ht
    refine hs.update (fun hw => hw.respond hclient h) (hadd hs.net fun r hr => ?_)
    rw [List.mem_singleton.mp hr]
    exact (hs.workers w).granted hclient
  | serveTryFetch i w tryUrls now hmsg hnow ht =>
    subst ht
    have hgrows : Grows s.sched (Scheduler.tryFetchUrls s.sched (tryUrls.zip now)).2 :=
      .of_eq rfl rfl rfl
    have htexts : TextsHeard start.sched (Scheduler.tryFetchUrls s.sched (tryUrls.zip now)).2 := by
      intro host robots hrobots
      replace hrobots : (s.sched.rounds.hostDb.tryCrawl _ _).db.hostRobots[host]? = some robots :=
        hrobots
      rw [HostDb.tryCrawl, HostDb.hostRobots_tryCrawlLoop] at hrobots
      exact (hs.texts host robots hrobots).mono hgrows
    exact
      { sourced := hs.sourced.of_eq rfl (List.Subset.refl _) (List.Subset.refl _) rfl
        texts := htexts
        workers := fun w => (hs.workers w).mono hgrows
        net := fun msg hmsg => by
          refine (hadd (hrest i) ?_ msg hmsg).mono hgrows
          exact fun gfq hgfq => permitted_of_tryFetchUrls hs.texts hgfq
        calls := fun call hcall r hr => (hs.calls call hcall r hr).mono hgrows
        heard := fun r hr => (hs.heard r hr).mono hgrows }
  | serveOnFetched i w results hmsg ht =>
    subst ht
    have hgrows : Grows s.sched
        { s.sched with calls := s.sched.calls ++ [⟨w, results, .urlDb⟩] } := .of_eq rfl rfl rfl
    have hresults : MsgSound start.sched s.sched (.onFetchedRequest w results) :=
      hs.net _ (List.mem_of_getElem? hmsg)
    exact
      { sourced := hs.sourced.of_eq rfl (List.Subset.refl _) (List.Subset.refl _) rfl
        texts := fun host robots hrobots => (hs.texts host robots hrobots).mono hgrows
        workers := fun w => (hs.workers w).mono hgrows
        net := fun msg hmsg => (hrest i msg hmsg).mono hgrows
        calls := fun call hcall r hr => by
          rcases List.mem_append.mp hcall with hcall | hcall
          · exact (hs.calls call hcall r hr).mono hgrows
          · rw [List.mem_singleton.mp hcall] at hr
            exact (hresults r hr).mono hgrows
        heard := fun r hr => (hs.heard r hr).mono hgrows }
  | reply i call hcall hstage ht =>
    subst ht
    have hgrows : Grows s.sched { s.sched with calls := s.sched.calls.eraseIdx i } :=
      .of_eq rfl rfl rfl
    exact
      { sourced := hs.sourced.of_eq rfl (List.Subset.refl _) (List.Subset.refl _) rfl
        texts := fun host robots hrobots => (hs.texts host robots hrobots).mono hgrows
        workers := fun w => (hs.workers w).mono hgrows
        net := fun msg hmsg => by
          have hreply : MsgSound start.sched s.sched (.onFetchedReply call.caller) := trivial
          exact (hadd hs.net hreply msg hmsg).mono hgrows
        calls := fun call hcall r hr =>
          (hs.calls call (List.eraseIdx_subset hcall) r hr).mono hgrows
        heard := fun r hr => (hs.heard r hr).mono hgrows }
  | answer i w hw msg allowedUrls lost worker hmsg hends h ht =>
    subst ht
    have hmsgSound := hs.net msg (List.mem_of_getElem? hmsg)
    have hallowed : ∀ gfq ∈ allowedUrls, Permitted start.sched s.sched gfq.url := by
      cases hends with
      | received => exact hmsgSound
      | _ => exact fun gfq hgfq => absurd hgfq List.not_mem_nil
    exact hs.update (fun hw => hw.answer hallowed h) (hrest i)
  | reported i w hw msg lost save worker hmsg hends h ht =>
    subst ht
    exact hs.update (fun hw => hw.reported h) (hrest i)

/-- **Pages come from visits.**  In every run, with lost messages or without: a page that a worker
has saved was there at the start, or it was fetched for a record that was in the topic at the start
or that the scheduler wrote, of the normalized URL of a visit.  A robots text allows its URL, which
was stored at the start or was fetched in its turn for such a record; only a URL that its normal form
turns into one that ends like a robots URL needs no text. -/
theorem pages_from_visits (hlimit : ∀ v n, env.sched.rounds.limitVector v n ⊆ v)
    (start : Start env) {l : List Label} (hrun : Machine.run step (.init start) l = some s)
    {w : ℕ} {url : Url} {page : Str} (hpage : (s.workers w).pageDb.db[url]? = some page) :
    (start.pageDbs w).db[url]? = some page ∨
      ∃ gfq, gfq.url = url ∧ gfq.isRobots = false ∧ Written s.sched gfq ∧
        Permitted start.sched s.sched url ∧
        (∀ r ∈ s.sched.heard, Granted start.sched s.sched r.gfq) ∧
        (gfq ∈ start.sched.topic ∨ ∃ u, Named start.sched s.sched u ∧
          (UrlParsed.ofUrl env.sched.rounds.contribs u).ok = true ∧
          (UrlParsed.ofUrl env.sched.rounds.contribs u).normalized = url) := by
  have hs : Sound start s := Machine.run_induction (P := Sound start)
    (fun _ _ _ h hs => sound_step hlimit h hs) hrun (sound_init start)
  refine ((hs.workers w).pages url page hpage).imp_right ?_
  rintro ⟨gfq, rfl, hrobots, hwritten, hpermitted⟩
  refine ⟨gfq, rfl, hrobots, hwritten, hpermitted, hs.heard, ?_⟩
  -- the scheduler wrote what the worker read
  obtain ⟨dump, hdump, hgfq⟩ := hwritten
  obtain ⟨gfq', rfl, hsource⟩ := hs.sourced.topic dump hdump
  obtain rfl := GFQRecord.eq_of_ofDump_dump hgfq
  refine hsource.imp_right ?_
  rintro ⟨u, hu, hok, hnormalized | hrobotsUrl⟩
  · exact ⟨u, hu, hok, hnormalized⟩
  · -- a record of a robots URL gives no page
    have hends := UrlParsed.endsWith_robots_ofUrl hok
    rw [hrobotsUrl] at hends
    exact absurd hends (by rw [GFQRecord.isRobots] at hrobots; simp [hrobots])

theorem pages_from_visits_fetchPage :
    ∃ s : State .plain, Machine.run step (.init .fresh) fetchPage = some s ∧
      (s.workers 0).pageDb.db[Str.ofString "http://a/x"]? = some (Str.ofString "page") ∧
      ∃ u, Named Start.fresh.sched s.sched u ∧
        (UrlParsed.ofUrl plainUTF8 u).normalized = Str.ofString "http://a/x" := by
  have hrun : ∃ s : State .plain, Machine.run step (.init .fresh) fetchPage = some s ∧
      (s.workers 0).pageDb.db[Str.ofString "http://a/x"]? = some (Str.ofString "page") := by
    decide +kernel
  obtain ⟨s, hs, hpage⟩ := hrun
  refine ⟨s, hs, hpage, ?_⟩
  have hlimit : ∀ v n, Env.plain.sched.rounds.limitVector v n ⊆ v :=
    fun v n => List.take_subset n.toNat v
  rcases pages_from_visits hlimit .fresh hs hpage with hold | ⟨gfq, -, -, -, -, -, htopic | hnamed⟩
  · exact absurd hold (by decide)
  · cases htopic
  · obtain ⟨u, hu, -, hnormalized⟩ := hnamed
    exact ⟨u, hu, hnormalized⟩

end System

end Contentv1
