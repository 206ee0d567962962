import Contentv1.System.Equiv.Hits

/-!
# When pages become hits

`pages_become_hits`: once the query loop has gone through a whole cycle while a group was stored, no
deletion of it was going on, and the page of a URL contained one of its queries, the API answers the
URL as a hit of the group, and goes on to do so as long as that is the case.  The crawler may save
pages in the meantime, and clients may change other groups.

`Coming` is what carries a cycle: what the loop holds leads to hits of the group, all with the URL.
-/

namespace Contentv1

namespace APIv1.Server.Store

variable {srv : Server} {store : Store} {deleting : List GroupId} {gid : GroupId} {url : Url}

/-- The URL is among the hits of the group. -/
def Lists (store : Store) (gid : GroupId) (url : Url) : Prop :=
  ∃ hits, store.hits[gid]? = some hits ∧ url ∈ hits.hits

/-- A URL is listed until the hits of the group are deleted or written without it. -/
theorem Lists.next (h : store.Lists gid url) {a : Label}
    (hdelete : ∀ i error, a = .deleteHits i error → deleting[i]? ≠ some gid)
    (hsave : ∀ error hits, a = .saveQGHits error hits → hits.gid = gid → url ∈ hits.hits) :
    (store.next srv deleting a).Lists gid url := by
  obtain ⟨hits, hhits, hurl⟩ := h
  cases a with
  | request req io =>
    refine ⟨hits, ?_, hurl⟩
    rw [Store.next, hits_perform]
    exact hhits
  | deleteHits i error =>
    refine ⟨hits, ?_, hurl⟩
    rw [Store.next]
    cases hgid : deleting[i]? with
    | none => exact hhits
    | some gid' =>
      have hne : gid' ≠ gid := fun heq => hdelete i error rfl (heq ▸ hgid)
      rw [Option.elim_some, deleteHits]
      split_ifs
      · exact hhits
      · dsimp only
        rw [OrdMap.getElem?_erase, if_neg hne]
        exact hhits
  | saveQGHits error hits' =>
    rw [Store.next, saveHits]
    split_ifs
    · exact ⟨hits, hhits, hurl⟩
    · by_cases heq : hits'.gid = gid
      · refine ⟨hits', ?_, hsave error hits' rfl heq⟩
        rw [OrdMap.getElem?_insert, if_pos heq]
      · refine ⟨hits, ?_, hurl⟩
        rw [OrdMap.getElem?_insert, if_neg heq]
        exact hhits

theorem lists_saveQGHits (store : Store) {hits : QueryGroupHits} (hurl : url ∈ hits.hits) :
    (store.next srv deleting (.saveQGHits none hits)).Lists hits.gid url := by
  refine ⟨hits, ?_, hurl⟩
  rw [Store.next, saveHits, if_neg (by rintro ⟨⟩), OrdMap.getElem?_insert, if_pos rfl]

end APIv1.Server.Store

namespace Contentd

open APIv1.Server (Store)
open QueryGroups (QueryTh)

variable {env : Env} {start : Start env} {s t : State env} {l : List Label} {qg : QueryGroup}
  {url : Url}

/-- The group is stored and not about to be deleted, and its queries find the page of the URL. -/
structure Steady (qg : QueryGroup) (url : Url) (s : State env) : Prop where
  group : HasGroup qg s
  page : ∃ page, HasPage url page s ∧ qg.Finds page
  deleting : qg.gid ∉ s.api.deleting

/-- A cycle that has seen the group holds no hits of it without the URL. -/
def Seen (qg : QueryGroup) (url : Url) : QueryTh → Prop
  | .idle => True
  | .querying qgs => qg ∈ qgs
  | .saving qgsHits => ∀ hits ∈ qgsHits, hits.gid = qg.gid → url ∈ hits.hits

/-- The cycle is yet to save hits of the group. -/
def Coming (qg : QueryGroup) : QueryTh → Prop
  | .idle => False
  | .querying _ => True
  | .saving qgsHits => ∃ hits ∈ qgsHits, hits.gid = qg.gid

/-- After the labels `l`, which began between two cycles. -/
structure Comes (qg : QueryGroup) (url : Url) (l : List Label) (s : State env) (store : Store) :
    Prop where
  db : s.api.db = store.dumps env.pb env.pbHits
  keyed : store.Keyed
  seen : Seen qg url s.queryTh
  coming : s.queryTh ≠ .idle → store.Lists qg.gid url ∨ Coming qg s.queryTh
  listed : .endCycle ∈ l → store.Lists qg.gid url

variable {store : Store}

theorem endCycle_mem {a : Label} (ha : a ≠ .endCycle) (h : Label.endCycle ∈ l ++ [a]) :
    Label.endCycle ∈ l :=
  (List.mem_append.mp h).resolve_right fun hmem => ha (List.mem_singleton.mp hmem).symm

/-- A step of the program that leaves the databases and the query loop as they are. -/
theorem Comes.of_eq (hs : Comes qg url l s store) (hdb : t.api.db = s.api.db)
    (hth : t.queryTh = s.queryTh) {a : Label} (ha : a ≠ .endCycle) :
    Comes qg url (l ++ [a]) t store where
  db := hdb.trans hs.db
  keyed := hs.keyed
  seen := hth ▸ hs.seen
  coming h := hth ▸ hs.coming (hth ▸ h)
  listed h := hs.listed (endCycle_mem ha h)

/-- What the server stores keeps the URL listed. -/
theorem Comes.serverStep (hs : Comes qg url l s store) (hsteady : Steady qg url s)
    {b : APIv1.Server.Label} (h : serverStep s b = some t)
    (hwrite : ∀ error hits, b = .saveQGHits error hits → hits.gid = qg.gid → url ∈ hits.hits)
    {a : Label} (ha : a ≠ .endCycle) :
    Comes qg url (l ++ [a]) t (store.next env.server s.api.deleting b) := by
  obtain ⟨p, hp, rfl⟩ := serverStep_eq_some.mp h
  have hdelete : ∀ i error, b = .deleteHits i error → s.api.deleting[i]? ≠ some qg.gid :=
    fun i error _ hgid => hsteady.deleting (List.mem_of_getElem? hgid)
  have hnext : store.Lists qg.gid url →
      (store.next env.server s.api.deleting b).Lists qg.gid url :=
    fun hlists => hlists.next hdelete hwrite
  refine ⟨APIv1.Server.step_dumps hp hs.db, APIv1.Server.keyed_next hs.keyed _ b, hs.seen,
    fun h => (hs.coming h).imp_left hnext, fun h => hnext (hs.listed (endCycle_mem ha h))⟩

/-- A group that is stored is among those that the query loop reads. -/
theorem mem_getAllQG (hdb : s.api.db = store.dumps env.pb env.pbHits) (hgroup : HasGroup qg s)
    {qgs : List QueryGroup} (h : s.api.db.getAllQG = .ok qgs) : qg ∈ qgs := by
  unfold HasGroup at hgroup
  rw [hdb] at h hgroup
  rw [QueryDb.getAllQG, Store.dumps, DumpDb.scanFull_dumpsOf] at h
  split_ifs at h
  obtain rfl := Except.ok.inj h
  rw [QueryDb.loadQG, Store.dumps] at hgroup
  cases hget : store.groups[qg.gid]? with
  | none =>
    rw [DumpDb.load_dumpsOf_eq_none hget] at hgroup
    cases hgroup
  | some qg' =>
    rw [DumpDb.load_dumpsOf_eq_some hget] at hgroup
    split_ifs at hgroup
    obtain rfl : qg' = qg := Option.some.inj (Except.ok.inj hgroup)
    exact List.mem_map.mpr
      ⟨(qg'.gid, qg'), Std.ExtTreeMap.mem_toList_iff_getElem?_eq_some.mpr hget, rfl⟩

/-- `_query` finds the page. -/
theorem query_finds (haho : env.aho.Exact) {qgs qgsHits} (hqg : qg ∈ qgs)
    (hpage : ∃ page, HasPage url page s ∧ qg.Finds page)
    (hhits : qgsHits.Perm ((QueryLoop.query env.aho qgs s.pageDb.scanFull).toList.map Prod.snd)) :
    Seen qg url (.saving qgsHits) ∧ Coming qg (.saving qgsHits) := by
  obtain ⟨page, hstored, hfinds⟩ := hpage
  have hurl : url ∈ QueryLoop.hitUrls env.aho qgs s.pageDb.scanFull qg.gid :=
    (QueryLoop.mem_hitUrls haho).mpr
      ⟨page, Std.ExtTreeMap.mem_toList_iff_getElem?_eq_some.mpr hstored, qg, hqg, rfl, hfinds⟩
  have hentry := QueryLoop.getElem?_query env.aho qgs s.pageDb.scanFull qg.gid
  rw [if_neg (List.ne_nil_of_mem hurl)] at hentry
  constructor
  · intro hits hmem hgid
    obtain ⟨⟨gid, hits'⟩, hget, rfl⟩ := List.mem_map.mp (hhits.mem_iff.mp hmem)
    have hget' := Std.ExtTreeMap.mem_toList_iff_getElem?_eq_some.mp hget
    have hkey : gid = qg.gid := (QueryLoop.gid_of_getElem?_query hget').symm.trans hgid
    rw [hkey, hentry] at hget'
    rw [← Option.some.inj hget']
    exact hurl
  · refine ⟨_, hhits.mem_iff.mpr (List.mem_map_of_mem
      (Std.ExtTreeMap.mem_toList_iff_getElem?_eq_some.mpr hentry)), rfl⟩

theorem exists_comes_step (haho : env.aho.Exact) {a : Label} (hsteady : Steady qg url s)
    (hs : Comes qg url l s store) (hstep : step s a = some t) :
    ∃ store', Comes qg url (l ++ [a]) t store' := by
  cases a with
  | crawl a =>
    obtain ⟨crawl, -, rfl⟩ := Option.map_eq_some_iff.mp hstep
    exact ⟨store, hs.of_eq (t := { s with crawl := crawl }) (a := .crawl a) rfl rfl (by rintro ⟨⟩)⟩
  | request req io =>
    exact ⟨_, hs.serverStep hsteady hstep (by rintro _ _ ⟨⟩) (by rintro ⟨⟩)⟩
  | deleteHits i error =>
    exact ⟨_, hs.serverStep hsteady hstep (by rintro _ _ ⟨⟩) (by rintro ⟨⟩)⟩
  | getAllQG =>
    rw [step] at hstep
    cases hth : s.queryTh with
    | idle =>
      rw [hth] at hstep
      dsimp only at hstep
      cases hqgs : s.api.db.getAllQG with
      | error what =>
        rw [hqgs] at hstep
        cases hstep
      | ok qgs =>
        rw [hqgs] at hstep
        obtain rfl := Option.some.inj hstep
        refine ⟨store, hs.db, hs.keyed, mem_getAllQG hs.db hsteady.group hqgs,
          fun _ => Or.inr trivial, fun h => hs.listed (endCycle_mem (by rintro ⟨⟩) h)⟩
    | _ =>
      rw [hth] at hstep
      cases hstep
  | query qgsHits =>
    rw [step] at hstep
    cases hth : s.queryTh with
    | querying qgs =>
      rw [hth] at hstep
      obtain ⟨hhits, ht⟩ := Option.ite_none_right_eq_some.mp hstep
      obtain rfl := Option.some.inj ht
      have hqg := hs.seen
      rw [hth] at hqg
      obtain ⟨hseen, hcoming⟩ := query_finds haho hqg hsteady.page hhits
      exact ⟨store, hs.db, hs.keyed, hseen, fun _ => Or.inr hcoming,
        fun h => hs.listed (endCycle_mem (by rintro ⟨⟩) h)⟩
    | _ =>
      rw [hth] at hstep
      cases hstep
  | saveQGHits =>
    rw [step] at hstep
    cases hqueryTh : s.queryTh with
    | saving qgsHits =>
      rw [hqueryTh] at hstep
      cases qgsHits with
      | nil => cases hstep
      | cons qgHits qgsHits =>
        obtain ⟨u, hu, rfl⟩ := Option.map_eq_some_iff.mp hstep
        have hseen := hs.seen
        rw [hqueryTh] at hseen
        have hserver : Comes qg url (l ++ [.saveQGHits]) u
            (store.next env.server s.api.deleting (.saveQGHits none qgHits)) := by
          refine hs.serverStep hsteady hu (fun error hits heq hgid => ?_) (by rintro ⟨⟩)
          cases heq
          exact hseen qgHits List.mem_cons_self hgid
        have hcoming := hserver.coming
        obtain ⟨p, -, rfl⟩ := serverStep_eq_some.mp hu
        rw [hqueryTh] at hcoming
        refine ⟨_, hserver.db, hserver.keyed,
          fun hits hmem => hseen hits (List.mem_cons_of_mem qgHits hmem), fun _ => ?_,
          hserver.listed⟩
        -- the hits of the group are stored now, or still to come
        rcases hcoming (by rintro ⟨⟩) with hlists | ⟨hits, hmem, hgid⟩
        · exact Or.inl hlists
        · rcases List.mem_cons.mp hmem with rfl | hmem
          · exact Or.inl (hgid ▸ Store.lists_saveQGHits store
              (hseen hits List.mem_cons_self hgid))
          · exact Or.inr ⟨hits, hmem, hgid⟩
    | _ =>
      rw [hqueryTh] at hstep
      cases hstep
  | endCycle =>
    rw [step] at hstep
    cases hth : s.queryTh with
    | saving qgsHits =>
      rw [hth] at hstep
      cases qgsHits with
      | nil =>
        obtain rfl := Option.some.inj hstep
        have hcoming := hs.coming
        rw [hth] at hcoming
        have hlisted : store.Lists qg.gid url := by
          refine (hcoming (by rintro ⟨⟩)).resolve_right ?_
          rintro ⟨hits, hmem, -⟩
          cases hmem
        exact ⟨store, hs.db, hs.keyed, trivial, fun h => absurd rfl h, fun _ => hlisted⟩
      | cons qgHits qgsHits => cases hstep
    | _ =>
      rw [hth] at hstep
      cases hstep

/-- A step goes on with the server as it is or with one step of it. -/
theorem api_of_step {a : Label} (h : step s a = some t) :
    t.api = s.api ∨ ∃ b p, APIv1.Server.step env.server s.api b = some p ∧ t.api = p.1 := by
  have hserver : ∀ {b : APIv1.Server.Label} {u : State env}, serverStep s b = some u →
      ∃ b p, APIv1.Server.step env.server s.api b = some p ∧ u.api = p.1 := by
    intro b u hu
    obtain ⟨p, hp, rfl⟩ := serverStep_eq_some.mp hu
    exact ⟨b, p, hp, rfl⟩
  cases a with
  | crawl a =>
    obtain ⟨crawl, -, rfl⟩ := Option.map_eq_some_iff.mp h
    exact Or.inl rfl
  | request req io => exact Or.inr (hserver h)
  | deleteHits i error => exact Or.inr (hserver h)
  | getAllQG =>
    rw [step] at h
    split at h
    · split at h <;> cases h
      exact Or.inl rfl
    · cases h
  | query qgsHits =>
    rw [step] at h
    split at h
    · obtain ⟨-, ht⟩ := Option.ite_none_right_eq_some.mp h
      obtain rfl := Option.some.inj ht
      exact Or.inl rfl
    · cases h
  | saveQGHits =>
    rw [step] at h
    split at h
    · obtain ⟨u, hu, rfl⟩ := Option.map_eq_some_iff.mp h
      have hu' := hserver hu
      exact Or.inr hu'
    · cases h
  | endCycle =>
    rw [step] at h
    split at h <;> cases h
    exact Or.inl rfl

/-- The databases hold the dumps of a store. -/
theorem exists_store {l : List Label} (hrun : Machine.run step (.init start) l = some s) :
    ∃ store : Store, s.api.db = store.dumps env.pb env.pbHits ∧ store.Keyed := by
  refine Machine.run_induction (P := fun s : State env =>
    ∃ store : Store, s.api.db = store.dumps env.pb env.pbHits ∧ store.Keyed) ?_ hrun
    ⟨⟨start.queryDb.qgDb, start.queryDb.qgHitsDb⟩, rfl, start.queryDb.keyed⟩
  rintro s a t hstep ⟨store, hdb, hkeyed⟩
  rcases api_of_step hstep with hapi | ⟨b, p, hp, hapi⟩
  · exact ⟨store, hapi ▸ hdb, hkeyed⟩
  · refine ⟨store.next env.server s.api.deleting b, ?_, APIv1.Server.keyed_next hkeyed _ b⟩
    rw [hapi]
    exact APIv1.Server.step_dumps hp hdb

/-- **Pages become hits.**  From a state between two cycles on, as long as a group is stored, none
of its deletions is going on and the page of a URL has one of its queries: once a cycle has ended,
every result of `get_hits` for the group has the URL. -/
theorem pages_become_hits (haho : env.aho.Exact) (start : Start env) {l l' : List Label}
    (hrun : Machine.run step (.init start) l = some s) (hidle : s.queryTh = .idle)
    (hrun' : Machine.run step s l' = some t) (hsteady : Machine.Along step (Steady qg url) s l')
    (hcycle : .endCycle ∈ l') {req : APIv1.APIRequest}
    (hgid : APIv1.Server.gidParam req = some qg.gid)
    {io : APIv1.Io} {js : JsonValue}
    (hanswer : (APIv1.Server.serve env.server t.api.db io
        ⟨.GET, Str.ofString "/get_hits", req⟩).1
      = .done (.okWith [(Str.ofString "result", .json js)])) :
    ∃ hits : QueryGroupHits, js = hits.toJsonValue ∧ url ∈ hits.hits := by
  obtain ⟨store, hdb, hkeyed⟩ := exists_store hrun
  have hinit : Comes qg url [] s store :=
    ⟨hdb, hkeyed, hidle ▸ trivial, fun h => absurd hidle h, fun h => absurd h List.not_mem_nil⟩
  obtain ⟨store', hcomes⟩ := Machine.Along.history
    (Q := fun l (t : State env) => ∃ store, Comes qg url l t store)
    (fun _ _ _ _ hsteady ⟨_, hs⟩ h => exists_comes_step haho hsteady hs h)
    hsteady hrun' ⟨store, hinit⟩
  obtain ⟨hits, hhits, hurl⟩ := hcomes.listed hcycle
  rw [hcomes.db] at hanswer
  obtain ⟨gid, hgid', rfl⟩ := APIv1.Server.exists_of_getHits hanswer
  obtain rfl := Option.some.inj (hgid'.symm.trans hgid)
  refine ⟨hits, ?_, hurl⟩
  rw [hhits]
  rfl

/-- The group that looks for `page`. -/
def pageGroup : QueryGroup := ⟨.ofString "g", [.ofString "page"]⟩

/-- The cycle in `queried`. -/
def oneCycle : List Label := [.getAllQG, .query [onePage], .saveQGHits, .endCycle]

theorem pages_become_hits_oneCycle :
    ∃ s t : State .plain,
      Machine.run step (.init .fresh) (queried.take (queried.length - 4)) = some s ∧
      Machine.run step s oneCycle = some t ∧
      ∃ hits : QueryGroupHits, onePage.toJsonValue = hits.toJsonValue ∧
        .ofString "http://a/x" ∈ hits.hits := by
  have hrun : ∃ s : State .plain,
      Machine.run step (.init .fresh) (queried.take (queried.length - 4)) = some s ∧
        s.queryTh = .idle ∧
        Machine.Along step (fun u : State .plain =>
          (u.api.db.loadQG (.ofString "g")).toOption = some (some pageGroup) ∧
            u.pageDb.db[Str.ofString "http://a/x"]? = some (.ofString "page") ∧
            .ofString "g" ∉ u.api.deleting) s oneCycle ∧
        ∃ t : State .plain, Machine.run step s oneCycle = some t ∧
          (t.api.db.loadQGHits (.ofString "g")).toOption = some (some onePage) := by
    decide +kernel
  obtain ⟨s, hs, hidle, hsteady, t, ht, hhits⟩ := hrun
  have hfinds : pageGroup.Finds (.ofString "page") := by
    decide
  have hsteady' : Machine.Along step (Steady pageGroup (.ofString "http://a/x")) s oneCycle :=
    hsteady.mono fun u ⟨hgroup, hpage, hdeleting⟩ =>
      ⟨ok_of_toOption hgroup, ⟨.ofString "page", hpage, hfinds⟩, hdeleting⟩
  exact ⟨s, t, hs, ht, pages_become_hits AhoCorasick.exact_search .fresh hs hidle ht hsteady'
    (by simp [oneCycle]) rfl (serve_getHits (ok_of_toOption hhits))⟩

end Contentd

end Contentv1
