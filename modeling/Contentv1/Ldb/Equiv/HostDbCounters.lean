import Contentv1.Ldb.Equiv.HostDb
import Contentv1.Lib.CountDown

/-!
# The global counter and the counters of the hosts

A result is counted down at its host and globally, whether or not its fetch was ever allowed, and
each of the two counters stops at zero by itself.

* `crawling_onFetched` and `globalCrawling_onFetched`: what a call of `onFetched` leaves of the
  counters.
* `along_consistent_iff_meets_oneSided`: the global counter is the sum of the hosts' all along a run
  exactly when in every call of `onFetched` no host has more results than crawls in progress, or no
  host has fewer.
-/

namespace Contentv1

namespace HostDb

variable {c : Contribs} {db db' : HostDb} {host : Host}

/-- The crawls in progress that the database counts at all hosts together. -/
def sumCrawling (db : HostDb) : ℤ := (db.hostFreq.toList.map fun p => p.2.crawlingNow).sum

def Consistent (db : HostDb) : Prop := db.globalCrawling = db.sumCrawling

instance : DecidablePred Consistent := fun db =>
  inferInstanceAs (Decidable (db.globalCrawling = db.sumCrawling))

/-- The hosts of the results whose URLs parse. -/
def reportedHosts (c : Contribs) (results : List FetchResult) : List Host :=
  (results.filter fun r => (UrlParsed.ofUrl c r.gfq.url).ok).map
    fun r => (UrlParsed.ofUrl c r.gfq.url).host

/-- No host has more results than crawls in progress, or no host has fewer. -/
def Op.OneSided (c : Contribs) (db : HostDb) : Op → Prop
  | .onFetched results =>
    (∀ host, ((reportedHosts c results).count host : ℤ) ≤ db.crawling host) ∨
      ∀ host, db.crawling host ≤ ((reportedHosts c results).count host : ℤ)
  | _ => True

/-! ### The counters after the results of a call -/

theorem onFetchedItem_of_not_ok {result : FetchResult}
    (hok : ¬ (UrlParsed.ofUrl c result.gfq.url).ok = true) : onFetchedItem c db result = db := by
  unfold onFetchedItem
  dsimp only
  rw [if_neg hok]

theorem onFetched_append (c : Contribs) (db : HostDb) (results : List FetchResult)
    (r : FetchResult) :
    db.onFetched c (results ++ [r]) = onFetchedItem c (db.onFetched c results) r := by
  simp [onFetched]

theorem reportedHosts_append_of_ok (results : List FetchResult) {r : FetchResult}
    (hok : (UrlParsed.ofUrl c r.gfq.url).ok = true) :
    reportedHosts c (results ++ [r])
      = reportedHosts c results ++ [(UrlParsed.ofUrl c r.gfq.url).host] := by
  simp [reportedHosts, hok]

theorem reportedHosts_append_of_not_ok (results : List FetchResult) {r : FetchResult}
    (hok : ¬ (UrlParsed.ofUrl c r.gfq.url).ok = true) :
    reportedHosts c (results ++ [r]) = reportedHosts c results := by
  simp [reportedHosts, hok]

/-- The counter of a host is counted down by the results for it, but not below zero. -/
theorem crawling_onFetched (c : Contribs) (results : List FetchResult)
    (h : 0 ≤ db.crawling host) :
    (db.onFetched c results).crawling host
      = max 0 (db.crawling host - (reportedHosts c results).count host) := by
  induction results using List.reverseRecOn with
  | nil =>
    show db.crawling host = max 0 (db.crawling host - 0)
    omega
  | append_singleton results r ih =>
    rw [onFetched_append]
    by_cases hok : (UrlParsed.ofUrl c r.gfq.url).ok = true
    · rw [crawling_onFetchedItem hok, reportedHosts_append_of_ok results hok, List.count_append,
        List.count_singleton, ih]
      by_cases hhost : (UrlParsed.ofUrl c r.gfq.url).host = host
      · simp only [hhost, true_and, beq_self_eq_true, if_true]
        split_ifs <;> omega
      · simp [hhost]
    · rw [onFetchedItem_of_not_ok hok, reportedHosts_append_of_not_ok results hok, ih]

/-- The global counter is counted down by all results, but not below zero. -/
theorem globalCrawling_onFetched (c : Contribs) (results : List FetchResult)
    (h : 0 ≤ db.globalCrawling) :
    (db.onFetched c results).globalCrawling
      = max 0 (db.globalCrawling - (reportedHosts c results).length) := by
  induction results using List.reverseRecOn with
  | nil =>
    show db.globalCrawling = max 0 (db.globalCrawling - 0)
    omega
  | append_singleton results r ih =>
    rw [onFetched_append]
    by_cases hok : (UrlParsed.ofUrl c r.gfq.url).ok = true
    · rw [globalCrawling_onFetchedItem hok, reportedHosts_append_of_ok results hok,
        List.length_append, ih, CountDown.max_zero_sub_one]
      rfl
    · rw [onFetchedItem_of_not_ok hok, reportedHosts_append_of_not_ok results hok, ih]

/-! ### The sum over the hosts -/

/-- The sum may be taken over any set with all hosts that have a counter. -/
theorem sumCrawling_eq_sum {K : Finset Host}
    (hK : ∀ host : Host, db.hostFreq[host]? ≠ none → host ∈ K) :
    db.sumCrawling = ∑ host ∈ K, db.crawling host :=
  CountDown.sum_toList_eq_sum db.hostFreq HostFreq.crawlingNow hK

/-- A set with all hosts that have a counter in one of two databases, and some more. -/
theorem exists_hosts (db db' : HostDb) (hosts : List Host) :
    ∃ K : Finset Host, (∀ host : Host, db.hostFreq[host]? ≠ none → host ∈ K) ∧
      (∀ host : Host, db'.hostFreq[host]? ≠ none → host ∈ K) ∧ ∀ host ∈ hosts, host ∈ K := by
  have hkeys : ∀ (db : HostDb) (host : Host), db.hostFreq[host]? ≠ none →
      host ∈ db.hostFreq.keys := by
    intro db host hhost
    rw [Std.ExtTreeMap.mem_keys, Std.ExtTreeMap.mem_iff_isSome_getElem?]
    exact Option.isSome_iff_ne_none.mpr hhost
  refine ⟨(db.hostFreq.keys ++ db'.hostFreq.keys ++ hosts).toFinset, ?_, ?_, ?_⟩
  · intro host hhost
    simp [hkeys db host hhost]
  · intro host hhost
    simp [hkeys db' host hhost]
  · intro host hhost
    simp [hhost]

/-- **A batch** keeps the counters consistent. -/
theorem consistent_tryCrawlLoop {α β : Type} (c : Contribs) (url : α → Url)
    (out : α → UrlParsed → β) (items : List (α × CrawlReads)) (h : Consistent db) :
    Consistent (tryCrawlLoop c url out db items).db := by
  obtain ⟨hhost, hglobal⟩ := counters_tryCrawlLoop c url out db items
  obtain ⟨K, hK, hK', hgrants⟩ := exists_hosts db (tryCrawlLoop c url out db items).db
    ((grants c url items (tryCrawlLoop c url out db items).decisions).map Prod.fst)
  unfold Consistent at *
  rw [hglobal, h, sumCrawling_eq_sum hK, sumCrawling_eq_sum hK',
    Finset.sum_congr rfl fun host _ => hhost host, Finset.sum_add_distrib,
    CountDown.sum_count_eq_length hgrants, List.length_map]

/-- **A call of `onFetched`** keeps the counters consistent exactly when it is one-sided. -/
theorem consistent_onFetched_iff (results : List FetchResult)
    (hnonneg : ∀ host, 0 ≤ db.crawling host) (h : Consistent db) :
    Consistent (db.onFetched c results) ↔ (Op.onFetched results).OneSided c db := by
  obtain ⟨K, hK, hK', hreported⟩ := exists_hosts db (db.onFetched c results)
    (reportedHosts c results)
  have hsum : db.globalCrawling = ∑ host ∈ K, db.crawling host := by
    rw [h, sumCrawling_eq_sum hK]
  have hglobal : 0 ≤ db.globalCrawling := by
    rw [hsum]
    exact Finset.sum_nonneg fun host _ => hnonneg host
  have hleft : ∑ host ∈ K, (db.crawling host - ((reportedHosts c results).count host : ℤ))
      = db.globalCrawling - (reportedHosts c results).length := by
    rw [Finset.sum_sub_distrib, CountDown.sum_count_eq_length hreported, hsum]
  -- outside of `K` there is neither a crawl nor a result
  have hout : ∀ host ∉ K, db.crawling host = 0 ∧ (reportedHosts c results).count host = 0 := by
    intro host hhost
    constructor
    · have hnone : db.hostFreq[host]? = none := by
        by_contra hsome
        exact hhost (hK host hsome)
      rw [crawling, hnone, Option.elim_none]
    · exact List.count_eq_zero.mpr fun hmem => hhost (hreported host hmem)
  unfold Consistent
  rw [sumCrawling_eq_sum hK', globalCrawling_onFetched c results hglobal, ← hleft,
    Finset.sum_congr rfl fun host _ => crawling_onFetched c results (hnonneg host), eq_comm,
    CountDown.sum_max_zero_eq_iff]
  apply or_congr
  · constructor
    · intro hle host
      by_cases hhost : host ∈ K
      · exact sub_nonneg.mp (hle host hhost)
      · obtain ⟨hcrawling, hcount⟩ := hout host hhost
        omega
    · exact fun hle host _ => sub_nonneg.mpr (hle host)
  · constructor
    · intro hle host
      by_cases hhost : host ∈ K
      · exact sub_nonpos.mp (hle host hhost)
      · obtain ⟨hcrawling, hcount⟩ := hout host hhost
        omega
    · exact fun hle host _ => sub_nonpos.mpr (hle host)

/-! ### Runs -/

/-- No counter of a host goes below zero. -/
theorem nonneg_operate {op : Op} (h : operate c db op = some db')
    (hnonneg : ∀ host, 0 ≤ db.crawling host) (host : Host) : 0 ≤ db'.crawling host := by
  have hbatch : ∀ {α β : Type} (url : α → Url) (out : α → UrlParsed → β)
      (items : List (α × CrawlReads)), 0 ≤ (tryCrawlLoop c url out db items).db.crawling host := by
    intro α β url out items
    rw [(counters_tryCrawlLoop c url out db items).1]
    have := hnonneg host
    omega
  cases op with
  | tryCrawlUrls tryUrls =>
    obtain rfl := Option.some.inj h
    exact hbatch _ _ tryUrls
  | tryCrawl tryUrls =>
    obtain rfl := Option.some.inj h
    exact hbatch _ _ tryUrls
  | onFetched results =>
    obtain rfl := Option.some.inj h
    rw [crawling_onFetched c results (hnonneg host)]
    exact le_max_left 0 _

/-- **One call** keeps the counters consistent exactly when it is one-sided. -/
theorem consistent_operate_iff {op : Op} (h : operate c db op = some db')
    (hnonneg : ∀ host, 0 ≤ db.crawling host) (hcons : Consistent db) :
    Consistent db' ↔ op.OneSided c db := by
  cases op with
  | tryCrawlUrls tryUrls =>
    obtain rfl := Option.some.inj h
    exact iff_of_true (consistent_tryCrawlLoop c _ _ tryUrls hcons) trivial
  | tryCrawl tryUrls =>
    obtain rfl := Option.some.inj h
    exact iff_of_true (consistent_tryCrawlLoop c _ _ tryUrls hcons) trivial
  | onFetched results =>
    obtain rfl := Option.some.inj h
    exact consistent_onFetched_iff results hnonneg hcons

theorem exists_run_operate (c : Contribs) (db : HostDb) (ops : List Op) :
    ∃ db', Machine.run (operate c) db ops = some db' := by
  induction ops generalizing db with
  | nil => exact ⟨db, rfl⟩
  | cons op ops ih => cases op <;> exact ih _

/-- **Where the counters agree.**  On any results, the global counter is the sum of the hosts' after
every call exactly in the runs whose calls of `onFetched` are all one-sided. -/
theorem along_consistent_iff_meets_oneSided (c : Contribs) (limits : CrawlLimits)
    (robots : OrdMap Host Str) (ops : List Op) :
    Machine.Along (operate c) Consistent (openDb limits robots) ops ↔
      Machine.Meets (operate c) (fun db op => op.OneSided c db) (openDb limits robots) ops := by
  obtain ⟨db', hrun⟩ := exists_run_operate c (openDb limits robots) ops
  have hzero : ∀ host, (openDb limits robots).crawling host = 0 := by
    intro host
    show (∅ : OrdMap Host HostFreq)[host]?.elim 0 _ = 0
    rw [Std.ExtTreeMap.getElem?_empty, Option.elim_none]
  exact Machine.along_iff_meets (I := fun db => ∀ host, 0 ≤ db.crawling host)
    (fun _ _ _ h hnonneg => nonneg_operate h hnonneg)
    (fun _ _ _ h hnonneg hcons => consistent_operate_iff h hnonneg hcons) hrun
    (fun host => (hzero host).ge) rfl

/-- One host's crawl allowed, and then a result of another host. -/
def strayResult : List Op :=
  [.tryCrawl [(⟨Str.ofString "http://a/robots.txt", 0⟩, .at 0)],
    .onFetched [⟨⟨Str.ofString "http://b/robots.txt", 0⟩, .ok, default, default⟩]]

/-- The global counter goes down to zero while the first host's crawl is in progress. -/
theorem not_along_consistent_strayResult :
    ¬ Machine.Along (operate .plainHttp) Consistent (openDb ⟨1, 1, 1, 1, 1⟩ ∅) strayResult := by
  intro h
  have hend : Consistent _ := ((h.2 _ rfl).2 _ rfl).head
  exact absurd hend (by decide)

end HostDb

end Contentv1
