import Contentv1.Ldb.Equiv.HostDb

/-!
# What every run of `HostDb` keeps

`Counted`: the counter of each host is the number of its outstanding crawls, and the global counter
is the number of all of them.  It holds whatever the limits are and however the clock runs.
-/

namespace Contentv1.HostDb

variable {c : Contribs} {o o' : Observed} {db : HostDb} {outstanding outstanding' : List Host}

structure Counted (db : HostDb) (outstanding : List Host) : Prop where
  host : ∀ host : Host, db.crawling host = (outstanding.count host : ℤ)
  global : db.globalCrawling = (outstanding.length : ℤ)

theorem counted_init (limits : CrawlLimits) (robots : OrdMap Host Str) :
    Counted (openDb limits robots) [] where
  host host := by
    show (∅ : OrdMap Host HostFreq)[host]?.elim 0 _ = 0
    rw [Std.ExtTreeMap.getElem?_empty, Option.elim_none]
  global := rfl

theorem Counted.tryCrawlLoop (h : Counted db outstanding) {α β : Type} (c : Contribs)
    (url : α → Url) (out : α → UrlParsed → β) (items : List (α × CrawlReads)) :
    Counted (tryCrawlLoop c url out db items).db (outstanding ++
      (grants c url items (HostDb.tryCrawlLoop c url out db items).decisions).map Prod.fst) := by
  obtain ⟨hhost, hglobal⟩ := counters_tryCrawlLoop c url out db items
  refine ⟨fun host => ?_, ?_⟩
  · rw [hhost, h.host, List.count_append, Int.natCast_add]
  · rw [hglobal, h.global, List.length_append, List.length_map, Int.natCast_add]

/-- A result of an outstanding crawl. -/
theorem Counted.onFetchedItem (h : Counted db outstanding) {result : FetchResult}
    (hok : (UrlParsed.ofUrl c result.gfq.url).ok = true)
    (hmem : (UrlParsed.ofUrl c result.gfq.url).host ∈ outstanding) :
    Counted (onFetchedItem c db result)
      (outstanding.erase (UrlParsed.ofUrl c result.gfq.url).host) := by
  -- a crawl of the host is outstanding, so its counter is not 0
  have hpos := List.count_pos_iff.mpr hmem
  refine ⟨fun host => ?_, ?_⟩
  · rw [crawling_onFetchedItem hok, h.host]
    split_ifs with heq
    · obtain ⟨rfl, -⟩ := heq
      rw [List.count_erase_self]
      omega
    · by_cases hhost : (UrlParsed.ofUrl c result.gfq.url).host = host
      · subst hhost
        exact absurd ⟨rfl, by omega⟩ heq
      · rw [List.count_erase_of_ne (Ne.symm hhost)]
  · have hlen := List.length_pos_of_mem hmem
    rw [globalCrawling_onFetchedItem hok, h.global, List.length_erase_of_mem hmem]
    split_ifs <;> omega

theorem Counted.of_perm (h : Counted db outstanding) (hperm : outstanding.Perm outstanding') :
    Counted db outstanding' :=
  ⟨fun host => by rw [h.host, hperm.count_eq], by rw [h.global, hperm.length_eq]⟩

/-- Results of outstanding crawls. -/
theorem Counted.onFetched {results : List FetchResult}
    (h : Counted db
      (results.map (fun r => (UrlParsed.ofUrl c r.gfq.url).host) ++ outstanding))
    (hok : ∀ r ∈ results, (UrlParsed.ofUrl c r.gfq.url).ok = true) :
    Counted (db.onFetched c results) outstanding := by
  induction results generalizing db with
  | nil => exact h
  | cons r rs ih =>
    have hitem := h.onFetchedItem (hok r List.mem_cons_self) List.mem_cons_self
    rw [List.map_cons, List.cons_append, List.erase_cons_head] at hitem
    exact ih hitem fun r' hr' => hok r' (List.mem_cons_of_mem r hr')

theorem report_cons_eq_some {r : FetchResult} {rs : List FetchResult} :
    report c outstanding (r :: rs) = some outstanding' ↔
      (UrlParsed.ofUrl c r.gfq.url).ok = true ∧
        (UrlParsed.ofUrl c r.gfq.url).host ∈ outstanding ∧
        report c (outstanding.erase (UrlParsed.ofUrl c r.gfq.url).host) rs
          = some outstanding' := by
  rw [report]
  split_ifs with h
  · exact ⟨fun hrs => ⟨h.1, h.2, hrs⟩, fun hrs => hrs.2.2⟩
  · exact ⟨nofun, fun hrs => absurd ⟨hrs.1, hrs.2.1⟩ h⟩

/-- What a result keeps of the database, any number of results keep. -/
theorem onFetched_induction {P : HostDb → List Host → Prop}
    (hitem : ∀ db outstanding result, (UrlParsed.ofUrl c result.gfq.url).ok = true →
      (UrlParsed.ofUrl c result.gfq.url).host ∈ outstanding → P db outstanding →
      P (onFetchedItem c db result)
        (outstanding.erase (UrlParsed.ofUrl c result.gfq.url).host))
    {results : List FetchResult} (hreport : report c outstanding results = some outstanding')
    (h : P db outstanding) : P (db.onFetched c results) outstanding' := by
  induction results generalizing db outstanding with
  | nil =>
    obtain rfl := Option.some.inj hreport
    exact h
  | cons r rs ih =>
    obtain ⟨hok, hmem, hrs⟩ := report_cons_eq_some.mp hreport
    exact ih hrs (hitem db outstanding r hok hmem h)

theorem counted_observe (op : Op) (h : observe c o op = some o')
    (ho : Counted o.db o.outstanding) : Counted o'.db o'.outstanding := by
  cases op with
  | tryCrawlUrls tryUrls =>
    obtain rfl := Option.some.inj h
    exact ho.tryCrawlLoop c id _ tryUrls
  | tryCrawl tryUrls =>
    obtain rfl := Option.some.inj h
    exact ho.tryCrawlLoop c GFQRecord.url _ tryUrls
  | onFetched results =>
    obtain ⟨outstanding, hreport, rfl⟩ := Option.map_eq_some_iff.mp h
    exact onFetched_induction (fun _ _ _ hok hmem hP => hP.onFetchedItem hok hmem) hreport ho

theorem counted_observeTimed {s s' : Timed} (op : Op) (h : observeTimed c s op = some s')
    (hs : Counted s.o.db s.o.outstanding) : Counted s'.o.db s'.o.outstanding := by
  unfold observeTimed at h
  split_ifs at h
  obtain ⟨o, ho, rfl⟩ := Option.map_eq_some_iff.mp h
  exact counted_observe op ho hs

end Contentv1.HostDb
