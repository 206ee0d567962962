import Contentv1.Scheduler.FilterRounds
import Contentv1.Ldb.Equiv.HostDbRobots
import Contentv1.Ldb.Equiv.UrlDbPolicy
import Contentv1.Lib.Machine

/-!
# What is due and what is not

A robots URL is asked for only where its host's text is not known, and the policy by which it would
be fetched again after a day is asked about no other.

* `getElem?_reduceUrlFreqsMap`, `mem_reduceUrlFreqs_iff`: the frequencies of a URL are added up.
* `mem_needCrawlUrls_iff`: where the URLs that are due come from.
* `robots_mem_needCrawlUrls_iff`: the exact extent of the slip.  A robots URL that was fetched a day
  ago comes back only as a page among the candidates, and as such after a week.
-/

namespace Contentv1

/-! ### `reduceUrlFreqs` -/

theorem foldl_addFreq (url : Url) (s : ℤ) (freqs : List ℤ) :
    freqs.foldl (fun o v => some (o.elim (url, v) fun r => (r.1, r.2 + v))) (some (url, s))
      = some (url, s + freqs.sum) := by
  induction freqs generalizing s with
  | nil => rw [List.foldl_nil, List.sum_nil, add_zero]
  | cons v freqs ih =>
    rw [List.foldl_cons, Option.elim_some, ih, List.sum_cons, add_assoc]

theorem getElem?_reduceUrlFreqsMap (urls : List UrlFreq) (url : Url) :
    (reduceUrlFreqsMap urls)[url]?
      = if url ∈ urls.map Prod.fst then some (url, (OrdMap.valuesAt urls url).sum) else none := by
  have hfold := OrdMap.getElem?_foldl_alter
    (fun url v o => some (o.elim (url, v) fun r => (r.1, r.2 + v))) urls (∅ : OrdMap Url UrlFreq)
    url
  rw [Std.ExtTreeMap.getElem?_empty] at hfold
  apply hfold.trans
  cases hvalues : OrdMap.valuesAt urls url with
  | nil =>
    have hnot : url ∉ urls.map Prod.fst := by
      rintro hmem
      obtain ⟨u, hu, rfl⟩ := List.mem_map.mp hmem
      have hvalue := OrdMap.mem_valuesAt.mpr hu
      rw [hvalues] at hvalue
      cases hvalue
    rw [if_neg hnot]
    rfl
  | cons v freqs =>
    have hmem : url ∈ urls.map Prod.fst := by
      have hvalue : v ∈ OrdMap.valuesAt urls url := by
        rw [hvalues]
        exact List.mem_cons_self
      exact List.mem_map.mpr ⟨(url, v), OrdMap.mem_valuesAt.mp hvalue, rfl⟩
    rw [if_pos hmem, List.foldl_cons, Option.elim_none, foldl_addFreq, List.sum_cons]

/-- Every URL comes out with its frequencies added up. -/
theorem mem_reduceUrlFreqs_iff {urls out : List UrlFreq} (h : ReduceUrlFreqs urls out)
    {u : UrlFreq} :
    u ∈ out ↔ u.1 ∈ urls.map Prod.fst ∧ u.2 = (OrdMap.valuesAt urls u.1).sum := by
  rw [h.mem_iff, List.mem_map]
  constructor
  · rintro ⟨⟨url, r⟩, hmem, rfl⟩
    have hget := Std.ExtTreeMap.mem_toList_iff_getElem?_eq_some.mp hmem
    rw [getElem?_reduceUrlFreqsMap] at hget
    split_ifs at hget with hurl
    obtain rfl := Option.some.inj hget
    exact ⟨hurl, rfl⟩
  · rintro ⟨hurl, hfreq⟩
    refine ⟨(u.1, u), Std.ExtTreeMap.mem_toList_iff_getElem?_eq_some.mpr ?_, rfl⟩
    rw [getElem?_reduceUrlFreqsMap, if_pos hurl, ← hfreq]

theorem mem_map_fst_reduceUrlFreqs_iff {urls out : List UrlFreq} (h : ReduceUrlFreqs urls out)
    {url : Url} : url ∈ out.map Prod.fst ↔ url ∈ urls.map Prod.fst := by
  rw [List.mem_map]
  constructor
  · rintro ⟨u, hu, rfl⟩
    exact ((mem_reduceUrlFreqs_iff h).mp hu).1
  · intro hurl
    exact ⟨(url, (OrdMap.valuesAt urls url).sum),
      (mem_reduceUrlFreqs_iff h).mpr ⟨hurl, rfl⟩, rfl⟩

namespace EnqueueLoop

variable {c : Contribs} {hostDb : HostDb} {urlDb : UrlDb} {inUrls needRobotsUniq : List UrlFreq}
  {now : ℤ}

/-- **What `_needCrawlUrls` puts out**: the normalized form of a URL that robots.txt allows and the
page policy finds due, or the robots URL of one whose host's text is not known, if the robots policy
finds that due. -/
theorem mem_needCrawlUrls_iff
    (huniq : ReduceUrlFreqs (hostDb.leaveAllowedByRobots c inUrls).needRobots needRobotsUniq)
    {url : Url} :
    url ∈ (needCrawlUrls c hostDb urlDb inUrls needRobotsUniq now).2.map Prod.fst ↔
      ((∃ v ∈ inUrls, hostDb.needsRobots c v = true ∧ (UrlParsed.ofUrl c v.1).robots = url) ∧
          urlDb.isNeedCrawlRobots url now = .allow) ∨
        (∃ v ∈ inUrls, hostDb.passesRobots c v = true ∧ (UrlParsed.ofUrl c v.1).normalized = url) ∧
          urlDb.isNeedCrawl url now = .allow := by
  have hrobots : url ∈ (hostDb.leaveAllowedByRobots c inUrls).needRobots.map Prod.fst ↔
      ∃ v ∈ inUrls, hostDb.needsRobots c v = true ∧ (UrlParsed.ofUrl c v.1).robots = url := by
    unfold HostDb.leaveAllowedByRobots
    simp [HostDb.needRobots_leaveAllowedLoop, and_assoc]
  have hpages : url ∈ (hostDb.leaveAllowedByRobots c inUrls).allowed.map Prod.fst ↔
      ∃ v ∈ inUrls, hostDb.passesRobots c v = true ∧
        (UrlParsed.ofUrl c v.1).normalized = url := by
    unfold HostDb.leaveAllowedByRobots
    simp [HostDb.allowed_leaveAllowedLoop, and_assoc]
  unfold needCrawlUrls UrlDb.leaveNeedUrls UrlDb.leaveNeedRobots
  rw [List.map_append, List.mem_append]
  refine or_congr ?_ ?_
  · rw [← hrobots, ← mem_map_fst_reduceUrlFreqs_iff huniq, UrlDb.mem_map_fst_leaveNeed]
  · rw [← hpages, UrlDb.mem_map_fst_leaveNeed]

/-! ### The daily refresh -/

/-- A candidate of a host whose text is stored and was fetched at least a day ago. -/
structure RefreshDue (c : Contribs) (hostDb : HostDb) (urlDb : UrlDb) (inUrls : List UrlFreq)
    (now : ℤ) (u : UrlFreq) (last : CrawlAttempt) : Prop where
  mem : u ∈ inUrls
  ok : (UrlParsed.ofUrl c u.1).ok = true
  text : hostDb.hostRobots[(UrlParsed.ofUrl c u.1).host]?.isSome
  getLast : (urlDb.attemptsOf (UrlParsed.ofUrl c u.1).robots).getLast? = some last
  fetched : last.status = .ok
  age : hours 24 ≤ now - last.tp

instance (c : Contribs) (hostDb : HostDb) (urlDb : UrlDb) (inUrls : List UrlFreq) (now : ℤ)
    (u : UrlFreq) (last : CrawlAttempt) : Decidable (RefreshDue c hostDb urlDb inUrls now u last) :=
  decidable_of_iff
    (u ∈ inUrls ∧ (UrlParsed.ofUrl c u.1).ok = true ∧
      hostDb.hostRobots[(UrlParsed.ofUrl c u.1).host]?.isSome ∧
      (urlDb.attemptsOf (UrlParsed.ofUrl c u.1).robots).getLast? = some last ∧
      last.status = .ok ∧ hours 24 ≤ now - last.tp)
    ⟨fun ⟨h₁, h₂, h₃, h₄, h₅, h₆⟩ => ⟨h₁, h₂, h₃, h₄, h₅, h₆⟩,
      fun ⟨h₁, h₂, h₃, h₄, h₅, h₆⟩ => ⟨h₁, h₂, h₃, h₄, h₅, h₆⟩⟩

/-- The robots URL is itself among the candidates, in some spelling. -/
def AsPage (c : Contribs) (inUrls : List UrlFreq) (robotsUrl : Url) : Prop :=
  ∃ v ∈ inUrls, (UrlParsed.ofUrl c v.1).ok = true ∧ (UrlParsed.ofUrl c v.1).normalized = robotsUrl

/-- A candidate of a host without a text has the same robots URL. -/
def AskedForOther (c : Contribs) (hostDb : HostDb) (inUrls : List UrlFreq) (robotsUrl : Url) :
    Prop :=
  ∃ v ∈ inUrls, hostDb.needsRobots c v = true ∧ (UrlParsed.ofUrl c v.1).robots = robotsUrl

/-- Of the candidates that normalize to a robots URL none is held back by a text. -/
theorem asPage_iff {robotsUrl : Url} (hends : robotsUrl.endsWith robotsPostfix = true) :
    AsPage c inUrls robotsUrl ↔
      ∃ v ∈ inUrls, hostDb.passesRobots c v = true ∧
        (UrlParsed.ofUrl c v.1).normalized = robotsUrl := by
  refine exists_congr fun v => and_congr_right fun _ => ?_
  apply and_congr_left
  intro hnormalized
  have hrobots : (UrlParsed.ofUrl c v.1).isRobots = true := by
    unfold UrlParsed.isRobots
    rw [hnormalized]
    exact hends
  have hrule : (hostDb.isAllowedRobots c (UrlParsed.ofUrl c v.1)).1 = true :=
    HostDb.isAllowedRobots_iff.mpr (Or.inl hrobots)
  unfold HostDb.passesRobots
  rw [hrule, Bool.and_true]

/-- **A text that is known is not asked for again.**  For any stores, candidates and time at which
the refresh of a host's text is due: its robots URL is put out exactly if it stands among the
candidates itself and is a week old, or if the host of another candidate asks for it. -/
theorem robots_mem_needCrawlUrls_iff {u : UrlFreq} {last : CrawlAttempt}
    (hdue : RefreshDue c hostDb urlDb inUrls now u last)
    (huniq : ReduceUrlFreqs (hostDb.leaveAllowedByRobots c inUrls).needRobots needRobotsUniq) :
    (UrlParsed.ofUrl c u.1).robots
        ∈ (needCrawlUrls c hostDb urlDb inUrls needRobotsUniq now).2.map Prod.fst ↔
      AskedForOther c hostDb inUrls (UrlParsed.ofUrl c u.1).robots ∨
        AsPage c inUrls (UrlParsed.ofUrl c u.1).robots ∧ days 7 ≤ now - last.tp := by
  have hday : days 1 ≤ now - last.tp := hdue.age
  have hrobots : urlDb.isNeedCrawlRobots (UrlParsed.ofUrl c u.1).robots now = .allow :=
    (UrlDb.isNeedCrawlRobots_of_ok hdue.getLast hdue.fetched).mpr hday
  rw [mem_needCrawlUrls_iff huniq, ← asPage_iff (UrlParsed.endsWith_robots_ofUrl hdue.ok),
    UrlDb.isNeedCrawl_of_ok hdue.getLast hdue.fetched, and_iff_left hrobots]
  rfl

/-! ### A text of a day and one of a week -/

/-- A store with the text of the host `a`. -/
def knownHost : HostDb :=
  .openDb ⟨1, 1, 1, 1, 1⟩ ((∅ : OrdMap Host Str).insert (Str.ofString "a") (Str.ofString "#"))

/-- A store in which its robots URL was fetched at the epoch. -/
def fetchedAtEpoch : UrlDb :=
  ⟨(∅ : OrdMap Url CrawlAttempts).insert (Str.ofString "http://a/robots.txt") ⟨[⟨0, .ok⟩]⟩⟩

/-- A page of the host and its robots URL. -/
def pageAndRobots : List UrlFreq :=
  [(Str.ofString "http://a/x", 1), (Str.ofString "http://a/robots.txt", 1)]

theorem robots_mem_needCrawlUrls_iff_eightDays :
    Str.ofString "http://a/robots.txt"
      ∈ (needCrawlUrls .plainHttp knownHost fetchedAtEpoch pageAndRobots [] (days 8)).2.map
          Prod.fst := by
  have hdue : RefreshDue .plainHttp knownHost fetchedAtEpoch pageAndRobots (days 8)
      (Str.ofString "http://a/x", 1) ⟨0, .ok⟩ := by decide +kernel
  have huniq : ReduceUrlFreqs (knownHost.leaveAllowedByRobots .plainHttp pageAndRobots).needRobots
      [] := by decide +kernel
  have hpage : AsPage .plainHttp pageAndRobots (Str.ofString "http://a/robots.txt") :=
    ⟨(Str.ofString "http://a/robots.txt", 1), by decide, by decide, by decide⟩
  exact (robots_mem_needCrawlUrls_iff hdue huniq).mpr (Or.inr ⟨hpage, by decide⟩)

/-- A round that pushes the robots URL of `http://a/x`, whose text comes in after it. -/
def fetchRobots : List FilterRounds.Label :=
  [.calcToEnqueueNow 1, .leaveAllowedByRobots [(Str.ofString "http://a/x", 1)] 0,
    .leaveNeedUrls, .leaveNeedRobots [(Str.ofString "http://a/robots.txt", 1)] 1,
    .pushToKafka 0, .setEnqueued,
    .onFetched [⟨⟨Str.ofString "http://a/robots.txt", 0⟩, .ok, default, Str.ofString "#"⟩] 0,
    .hostOnFetched [⟨⟨Str.ofString "http://a/robots.txt", 0⟩, .ok, default, Str.ofString "#"⟩]]

/-- A day later the page alone is put out. -/
theorem not_refreshed_afterDay :
    ¬ ∀ (l : List FilterRounds.Label) (s : FilterRounds.State),
      Machine.run (FilterRounds.step ⟨.plainHttp, .nearEpoch, fun v n => v.take n.toNat⟩)
          (.init (.openDb ⟨1, 1, 1, 1, 1⟩ ∅) default 0) l = some s →
        ∀ (inUrls needRobotsUniq : List UrlFreq) (now : ℤ) (u : UrlFreq) (last : CrawlAttempt),
          RefreshDue .plainHttp s.hostDb s.urlDb inUrls now u last →
          ReduceUrlFreqs (s.hostDb.leaveAllowedByRobots .plainHttp inUrls).needRobots
            needRobotsUniq →
          (UrlParsed.ofUrl .plainHttp u.1).robots
            ∈ (needCrawlUrls .plainHttp s.hostDb s.urlDb inUrls needRobotsUniq now).2.map
                Prod.fst := by
  intro h
  have hrun : ∃ s, Machine.run
        (FilterRounds.step ⟨.plainHttp, .nearEpoch, fun v n => v.take n.toNat⟩)
        (.init (.openDb ⟨1, 1, 1, 1, 1⟩ ∅) default 0) fetchRobots = some s ∧
      RefreshDue .plainHttp s.hostDb s.urlDb [(Str.ofString "http://a/x", 1)] (hours 25)
        (Str.ofString "http://a/x", 1) ⟨0, .ok⟩ ∧
      ReduceUrlFreqs
        (s.hostDb.leaveAllowedByRobots .plainHttp [(Str.ofString "http://a/x", 1)]).needRobots [] ∧
      (needCrawlUrls .plainHttp s.hostDb s.urlDb [(Str.ofString "http://a/x", 1)] []
        (hours 25)).2 = [(Str.ofString "http://a/x", 1)] := by
    decide +kernel
  obtain ⟨s, hs, hdue, huniq, hout⟩ := hrun
  have hmem := h fetchRobots s hs _ _ _ _ _ hdue huniq
  rw [hout] at hmem
  exact absurd hmem (by decide)

end EnqueueLoop

end Contentv1
