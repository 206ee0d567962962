import Contentv1.System.Contentd
import Contentv1.System.Equiv.Pages
import Contentv1.Api.Equiv.Server
import Contentv1.Worker.Equiv.QueryLoop

/-!
# Where the hits come from

`hits_from_pages`: a URL that the API answers as a hit of a group was stored as such at the start,
or there was a group of that id with a query that the page of the URL contained, and the page was
stored at the start or fetched for a record of the topic that `HostDb` allowed.

Nothing more can be said: the group may have been changed or deleted since, and the page replaced.
-/

namespace Contentv1

namespace System

variable {env : Env} {s t : State env}

theorem grows_step {a : Label} (hstep : step s a = some t) : Scheduler.Grows s.sched t.sched := by
  cases effect_of_step hstep with
  | sched a sched hown h ht =>
    subst ht
    exact Scheduler.grows_step h
  | _ =>
    rename_i ht _
    subst ht
    exact .of_eq rfl rfl rfl

end System

namespace APIv1.Server.Store

variable {srv : Server} {store : Store} {deleting : List GroupId}

/-- Commands do not add hits. -/
theorem hits_perform (store : Store) (writeError : Option Str) (command : Command) :
    (store.perform writeError command).2.hits = store.hits := by
  unfold perform
  cases command with
  | answered res => rfl
  | getList =>
    dsimp only
    split_ifs <;> rfl
  | set qg =>
    dsimp only
    split_ifs <;> rfl
  | get gid =>
    dsimp only
    cases store.groups[gid]? with
    | none => rfl
    | some qg =>
      dsimp only
      split_ifs <;> rfl
  | delete gid =>
    dsimp only
    split_ifs <;> rfl
  | getHits gid =>
    dsimp only
    split_ifs <;> rfl

/-- The hits of a group are those that the query loop has just written, or the ones from before. -/
theorem hits_next {a : Label} {gid : GroupId} {hits : QueryGroupHits}
    (h : (store.next srv deleting a).hits[gid]? = some hits) :
    store.hits[gid]? = some hits ∨ ∃ error, a = .saveQGHits error hits ∧ hits.gid = gid := by
  cases a with
  | request req io =>
    rw [next, hits_perform] at h
    exact Or.inl h
  | deleteHits i error =>
    rw [next] at h
    cases hgid : deleting[i]? with
    | none =>
      rw [hgid] at h
      exact Or.inl h
    | some gid' =>
      rw [hgid, Option.elim_some, deleteHits] at h
      split_ifs at h
      · exact Or.inl h
      · dsimp only at h
        rw [OrdMap.getElem?_erase] at h
        split_ifs at h
        exact Or.inl h
  | saveQGHits error hits' =>
    rw [next, saveHits] at h
    split_ifs at h
    · exact Or.inl h
    · dsimp only at h
      rw [OrdMap.getElem?_insert] at h
      split_ifs at h with heq
      · obtain rfl := Option.some.inj h
        exact Or.inr ⟨error, rfl, heq⟩
      · exact Or.inl h

end APIv1.Server.Store

namespace Contentd

open APIv1.Server (Store)
open Machine (Passes)
open QueryGroups (QueryTh)

variable {env : Env} {start : Start env} {s t : State env} {l : List Label} {a : Label}
  {url : Url} {page : Str}

/-! ### What was there -/

def HasGroup (qg : QueryGroup) (s : State env) : Prop :=
  s.api.db.loadQG qg.gid = .ok (some qg)

def HasPage (url : Url) (page : Str) (s : State env) : Prop := s.pageDb.db[url]? = some page

/-- The page was stored at the start, or fetched for a record of the topic that was allowed. -/
def FromRecord (start : Start env) (s : State env) (url : Url) (page : Str) : Prop :=
  (start.crawl.pageDbs 0).db[url]? = some page ∨
    ∃ gfq, gfq.url = url ∧ gfq.isRobots = false ∧
      System.Granted start.crawl.sched s.crawl.sched gfq

/-- A group of that id was stored, and a page of that URL in which it is found. -/
def Found (start : Start env) (l : List Label) (s : State env) (gid : GroupId) (url : Url) : Prop :=
  ∃ (qg : QueryGroup) (page : Str), qg.gid = gid ∧ qg.Finds page ∧
    Passes step (HasGroup qg) (.init start) l ∧ Passes step (HasPage url page) (.init start) l ∧
    FromRecord start s url page

/-- What the thread of the query loop holds. -/
def ThTraced (start : Start env) (l : List Label) (s : State env) : QueryTh → Prop
  | .idle => True
  | .querying qgs => ∀ qg ∈ qgs, Passes step (HasGroup qg) (.init start) l
  | .saving qgsHits => ∀ hits ∈ qgsHits, ∀ url ∈ hits.hits, Found start l s hits.gid url

/-- The databases, with where the hits come from. -/
structure StoreTraced (start : Start env) (l : List Label) (s : State env) (store : Store) :
    Prop where
  db : s.api.db = store.dumps env.pb env.pbHits
  keyed : store.Keyed
  hits : ∀ (gid : GroupId) (hits : QueryGroupHits), store.hits[gid]? = some hits →
    start.queryDb.qgHitsDb[gid]? = some hits ∨ ∀ url ∈ hits.hits, Found start l s gid url

structure Traced (start : Start env) (l : List Label) (s : State env) : Prop where
  crawl : System.Sound start.crawl s.crawl
  store : ∃ store, StoreTraced start l s store
  th : ThTraced start l s s.queryTh

theorem traced_init (start : Start env) : Traced start [] (.init start) where
  crawl := System.sound_init start.crawl
  store := ⟨⟨start.queryDb.qgDb, start.queryDb.qgHitsDb⟩, rfl, start.queryDb.keyed,
    fun _ _ h => Or.inl h⟩
  th := trivial

/-! ### Steps -/

/-- What was found stays so, while the crawler goes on. -/
theorem Found.step {gid : GroupId} (hgrows : Scheduler.Grows s.crawl.sched t.crawl.sched)
    (h : Found start l s gid url) : Found start (l ++ [a]) t gid url := by
  obtain ⟨qg, page, hgid, hfinds, hgroup, hpage, hrecord⟩ := h
  refine ⟨qg, page, hgid, hfinds, hgroup.append_singleton, hpage.append_singleton, ?_⟩
  exact hrecord.imp_right fun ⟨gfq, hurl, hrobots, hgranted⟩ =>
    ⟨gfq, hurl, hrobots, hgranted.mono hgrows⟩

theorem ThTraced.step {th : QueryTh} (hgrows : Scheduler.Grows s.crawl.sched t.crawl.sched)
    (h : ThTraced start l s th) : ThTraced start (l ++ [a]) t th := by
  cases th with
  | idle => trivial
  | querying qgs => exact fun qg hqg => (h qg hqg).append_singleton
  | saving qgsHits => exact fun hits hhits url hurl => (h hits hhits url hurl).step hgrows

theorem StoreTraced.step {store : Store} (hgrows : Scheduler.Grows s.crawl.sched t.crawl.sched)
    (hdb : t.api.db = s.api.db) (h : StoreTraced start l s store) :
    StoreTraced start (l ++ [a]) t store where
  db := hdb.trans h.db
  keyed := h.keyed
  hits gid hits hhits := (h.hits gid hits hhits).imp_right
    fun hfound url hurl => (hfound url hurl).step hgrows

theorem serverStep_eq_some {b : APIv1.Server.Label} :
    serverStep s b = some t ↔
      ∃ p, APIv1.Server.step env.server s.api b = some p ∧ { s with api := p.1 } = t :=
  Option.map_eq_some_iff

/-- A step of the server, where the query loop saves what was found. -/
theorem Traced.serverStep {b : APIv1.Server.Label} (hs : Traced start l s)
    (h : serverStep s b = some t)
    (hwrite : ∀ error hits, b = .saveQGHits error hits →
      ∀ url ∈ hits.hits, Found start l s hits.gid url) : Traced start (l ++ [a]) t := by
  obtain ⟨p, hp, rfl⟩ := serverStep_eq_some.mp h
  obtain ⟨store, hstore⟩ := hs.store
  have hgrows : Scheduler.Grows s.crawl.sched s.crawl.sched := .of_eq rfl rfl rfl
  refine ⟨hs.crawl, ⟨store.next env.server s.api.deleting b, ?_⟩, hs.th.step hgrows⟩
  refine ⟨APIv1.Server.step_dumps hp hstore.db, APIv1.Server.keyed_next hstore.keyed _ b, ?_⟩
  intro gid hits hhits
  rcases Store.hits_next hhits with hold | ⟨error, hb, hgid⟩
  · exact (hstore.hits gid hits hold).imp_right
      fun hfound url hurl => (hfound url hurl).step hgrows
  · exact Or.inr fun url hurl => hgid ▸ (hwrite error hits hb url hurl).step hgrows

/-- The groups that the query loop reads are stored. -/
theorem StoreTraced.hasGroup {store : Store} (hs : StoreTraced start l s store)
    {qgs : List QueryGroup} (h : s.api.db.getAllQG = .ok qgs) : ∀ qg ∈ qgs, HasGroup qg s := by
  rw [hs.db, QueryDb.getAllQG, Store.dumps, DumpDb.scanFull_dumpsOf] at h
  split_ifs at h with hvalid
  obtain rfl := Except.ok.inj h
  intro qg hqg
  have hmem := hqg
  obtain ⟨⟨key, qg'⟩, hentry, rfl⟩ := List.mem_map.mp hmem
  have hget : store.groups[key]? = some qg' :=
    Std.ExtTreeMap.mem_toList_iff_getElem?_eq_some.mp hentry
  have hkey : qg'.gid = key := hs.keyed key qg' hget
  unfold HasGroup
  dsimp only
  rw [hs.db, QueryDb.loadQG, Store.dumps, hkey, DumpDb.load_dumpsOf_eq_some hget,
    if_pos (hvalid qg' hqg)]

/-- What `_query` puts out was found, on pages as they are stored. -/
theorem found_of_query (haho : env.aho.Exact) (hrun : Machine.run step (.init start) l = some s)
    (hs : Traced start l s) {qgs : List QueryGroup} (hth : s.queryTh = .querying qgs)
    {qgsHits : List QueryGroupHits}
    (hhits : qgsHits.Perm ((QueryLoop.query env.aho qgs s.pageDb.scanFull).toList.map Prod.snd)) :
    ∀ hits ∈ qgsHits, ∀ url ∈ hits.hits, Found start l s hits.gid url := by
  intro hits hmem url hurl
  obtain ⟨⟨gid, hits'⟩, hentry, rfl⟩ := List.mem_map.mp (hhits.mem_iff.mp hmem)
  have hget := Std.ExtTreeMap.mem_toList_iff_getElem?_eq_some.mp hentry
  dsimp only at hget hurl ⊢
  have hgid : hits'.gid = gid := QueryLoop.gid_of_getElem?_query hget
  rw [QueryLoop.getElem?_query] at hget
  split_ifs at hget
  obtain rfl := Option.some.inj hget
  obtain ⟨page, hpage, qg, hqg, hgroup, hfinds⟩ := (QueryLoop.mem_hitUrls haho).mp hurl
  have hstored : s.pageDb.db[url]? = some page :=
    Std.ExtTreeMap.mem_toList_iff_getElem?_eq_some.mp hpage
  have hqgs := hs.th
  rw [hth] at hqgs
  exact ⟨qg, page, hgroup, hfinds, hqgs qg hqg, Machine.passes_of_run hrun hstored,
    (hs.crawl.workers 0).pages url page hstored⟩

theorem traced_step (haho : env.aho.Exact)
    (hlimit : ∀ v n, env.crawl.sched.rounds.limitVector v n ⊆ v)
    (hrun : Machine.run step (.init start) l = some s) (hs : Traced start l s)
    (hstep : step s a = some t) : Traced start (l ++ [a]) t := by
  have hstill : Scheduler.Grows s.crawl.sched s.crawl.sched := .of_eq rfl rfl rfl
  obtain ⟨store, hstore⟩ := hs.store
  cases a with
  | crawl a =>
    obtain ⟨crawl, hcrawl, rfl⟩ := Option.map_eq_some_iff.mp hstep
    have hgrows : Scheduler.Grows s.crawl.sched crawl.sched := System.grows_step hcrawl
    exact ⟨System.sound_step hlimit hcrawl hs.crawl, ⟨store, hstore.step hgrows rfl⟩,
      hs.th.step hgrows⟩
  | request req io => exact hs.serverStep hstep (by rintro _ _ ⟨⟩)
  | deleteHits i error => exact hs.serverStep hstep (by rintro _ _ ⟨⟩)
  | getAllQG =>
    rw [step] at hstep
    cases hth : s.queryTh with
    | idle =>
      rw [hth] at hstep
      dsimp only at hstep
      cases hqgs : s.api.db.getAllQG with
      | error what =>
        rw [hqgs] at hstep
        cases hstep
      | ok qgs =>
        rw [hqgs] at hstep
        obtain rfl := Option.some.inj hstep
        refine ⟨hs.crawl, ⟨store, hstore.step hstill rfl⟩, fun qg hqg => ?_⟩
        exact (Machine.passes_of_run hrun (hstore.hasGroup hqgs qg hqg)).append_singleton
    | _ =>
      rw [hth] at hstep
      cases hstep
  | query qgsHits =>
    rw [step] at hstep
    cases hth : s.queryTh with
    | querying qgs =>
      rw [hth] at hstep
      obtain ⟨hhits, ht⟩ := Option.ite_none_right_eq_some.mp hstep
      obtain rfl := Option.some.inj ht
      have hfound := found_of_query haho hrun hs hth hhits
      exact ⟨hs.crawl, ⟨store, hstore.step hstill rfl⟩,
        fun hits hmem url hurl => (hfound hits hmem url hurl).step hstill⟩
    | _ =>
      rw [hth] at hstep
      cases hstep
  | saveQGHits =>
    rw [step] at hstep
    have hth := hs.th
    cases hqueryTh : s.queryTh with
    | saving qgsHits =>
      rw [hqueryTh] at hstep hth
      cases qgsHits with
      | nil => cases hstep
      | cons qgHits qgsHits =>
        obtain ⟨u, hu, rfl⟩ := Option.map_eq_some_iff.mp hstep
        have hserver : Traced start (l ++ [.saveQGHits]) u := by
          refine hs.serverStep hu fun error hits heq => ?_
          cases heq
          exact hth qgHits List.mem_cons_self
        obtain ⟨store', hstore'⟩ := hserver.store
        obtain ⟨p, -, rfl⟩ := serverStep_eq_some.mp hu
        exact ⟨hserver.crawl, ⟨store', hstore'.db, hstore'.keyed, hstore'.hits⟩,
          fun hits hhits url hurl =>
            (hth hits (List.mem_cons_of_mem qgHits hhits) url hurl).step hstill⟩
    | _ =>
      rw [hqueryTh] at hstep
      cases hstep
  | endCycle =>
    rw [step] at hstep
    cases hth : s.queryTh with
    | saving qgsHits =>
      rw [hth] at hstep
      cases qgsHits with
      | nil =>
        obtain rfl := Option.some.inj hstep
        exact ⟨hs.crawl, ⟨store, hstore.step hstill rfl⟩, trivial⟩
      | cons qgHits qgsHits => cases hstep
    | _ =>
      rw [hth] at hstep
      cases hstep

/-- **Hits come from pages.**  In every run of the crawler, the API server and the query loop beside
one another: hits that are answered for a group were stored at the start, or each of their URLs was
found for a group of that id on a page that was stored under it, which had come from a record of the
topic or was stored at the start. -/
theorem hits_from_pages (haho : env.aho.Exact)
    (hlimit : ∀ v n, env.crawl.sched.rounds.limitVector v n ⊆ v) (start : Start env)
    (hrun : Machine.run step (.init start) l = some s) {req : APIv1.APIRequest} {io : APIv1.Io}
    {js : JsonValue}
    (hanswer : (APIv1.Server.serve env.server s.api.db io
        ⟨.GET, Str.ofString "/get_hits", req⟩).1
      = .done (.okWith [(Str.ofString "result", .json js)])) :
    ∃ (gid : GroupId) (hits : QueryGroupHits), APIv1.Server.gidParam req = some gid ∧
      js = hits.toJsonValue ∧
      (start.queryDb.qgHitsDb[gid]? = some hits ∨ ∀ url ∈ hits.hits, Found start l s gid url) := by
  have hs : Traced start l s := Machine.run_history (P := Traced start)
    (traced_init start) (fun _ _ _ _ hrun hs h => traced_step haho hlimit hrun hs h) hrun
  obtain ⟨store, hstore⟩ := hs.store
  rw [hstore.db] at hanswer
  obtain ⟨gid, hgid, rfl⟩ := APIv1.Server.exists_of_getHits hanswer
  refine ⟨gid, _, hgid, rfl, ?_⟩
  cases hhits : store.hits[gid]? with
  | none => exact Or.inr fun url hurl => absurd hurl List.not_mem_nil
  | some hits => exact hstore.hits gid hits hhits

/-- A server with a parser of one text, the group that looks for `page`. -/
def Env.plain : Env where
  crawl := .plain
  pb := .plain _
  pbHits := .plain _
  server := { APIv1.Server.twoTexts with
    reader := fun _ => .ok
      (some (.object [(.ofString "gid", .string (.ofString "g")),
        (.ofString "queries", .array [.string (.ofString "page")])])) }
  aho := .search

def Start.fresh : Start .plain := ⟨System.Start.fresh, .empty⟩

/-- The hits that are found. -/
def onePage : QueryGroupHits := ⟨.ofString "g", [.ofString "http://a/x"]⟩

/-- The page is fetched, the group is set, and the query loop takes a turn. -/
def queried : List Label :=
  System.fetchPage.map .crawl ++
    [.request ⟨.POST, .ofString "/set_query_group", APIv1.Server.withToken "" []⟩ ⟨none, default⟩,
      .getAllQG, .query [onePage], .saveQGHits, .endCycle]

/-- What is asked for in the end. -/
def getHits : APIv1.APIRequest :=
  APIv1.Server.withToken "" [(.ofString "gid", .ofString "g")]

theorem serve_getHits {db : QueryDb Env.plain.pb Env.plain.pbHits}
    (h : db.loadQGHits (.ofString "g") = .ok (some onePage)) :
    (APIv1.Server.serve Env.plain.server db ⟨none, default⟩
        ⟨.GET, .ofString "/get_hits", getHits⟩).1
      = .done (.okWith [(.ofString "result", .json onePage.toJsonValue)]) := by
  have hroute : APIv1.Server.serve Env.plain.server db ⟨none, default⟩
      ⟨.GET, .ofString "/get_hits", getHits⟩
        = APIv1.Server.serveRoute Env.plain.server ⟨.GET, .ofString "/get_hits", true,
            fun db _ req => APIv1.Server.hdlGetHits db req⟩ db ⟨none, default⟩ getHits := rfl
  have hauth : APIv1.auth Env.plain.server.hash getHits.headers = .ok () := rfl
  have hgid : APIv1.Server.gidParam getHits = some (.ofString "g") := rfl
  rw [hroute, APIv1.Server.serveRoute_eq, if_pos rfl, hauth]
  dsimp only
  rw [APIv1.Server.hdlGetHits, hgid]
  dsimp only
  rw [h]
  rfl

theorem ok_of_toOption {ε α : Type} {x : Except ε α} {v : α} (h : x.toOption = some v) :
    x = .ok v := by
  cases x with
  | error e => cases h
  | ok v' => exact congrArg Except.ok (Option.some.inj h)

theorem hits_from_pages_queried :
    ∃ s : State .plain, Machine.run step (.init .fresh) queried = some s ∧
      ∃ (gid : GroupId) (hits : QueryGroupHits),
        APIv1.Server.gidParam getHits = some gid ∧ onePage.toJsonValue = hits.toJsonValue ∧
        (Start.fresh.queryDb.qgHitsDb[gid]? = some hits ∨
          ∀ url ∈ hits.hits, Found .fresh queried s gid url) := by
  have hrun : ∃ s : State .plain, Machine.run step (.init .fresh) queried = some s ∧
      (s.api.db.loadQGHits (.ofString "g")).toOption = some (some onePage) := by
    decide +kernel
  obtain ⟨s, hs, hhits⟩ := hrun
  have hlimit : ∀ v n, Env.plain.crawl.sched.rounds.limitVector v n ⊆ v :=
    fun v n => List.take_subset n.toNat v
  exact ⟨s, hs,
    hits_from_pages AhoCorasick.exact_search hlimit .fresh hs
      (serve_getHits (ok_of_toOption hhits))⟩

end Contentd

end Contentv1
