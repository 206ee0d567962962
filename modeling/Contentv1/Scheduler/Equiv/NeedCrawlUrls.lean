import Contentv1.Scheduler.Equiv.EnqueueLoopFilter
import Contentv1.Scheduler.Equiv.FilterRounds

/-!
# Where every candidate goes

* `needCrawlUrls_eq`: the output is the robots URLs that are due and after them the pages that are
  due, in the order of the candidates.
* `nodup_robotsOut`, `mem_map_fst_robotsOut_iff`, `freq_of_mem_robotsOut`: each robots URL that is
  needed and due is there once, with the frequencies of all candidates that need it.
* `FilterRounds.accounts_of_filter`: the two together, and the filter leaves both stores alone.
-/

namespace Contentv1

theorem fst_of_getElem?_reduceUrlFreqsMap (urls : List UrlFreq) (url : Url) (u : UrlFreq)
    (h : (reduceUrlFreqsMap urls)[url]? = some u) : u.1 = url := by
  rw [getElem?_reduceUrlFreqsMap] at h
  split_ifs at h
  obtain rfl := Option.some.inj h
  rfl

/-- No URL comes out twice. -/
theorem nodup_reduceUrlFreqs {urls out : List UrlFreq} (h : ReduceUrlFreqs urls out) :
    (out.map Prod.fst).Nodup :=
  (h.map Prod.fst).nodup_iff.mpr
    (OrdMap.nodup_map_key_map_snd_toList (fst_of_getElem?_reduceUrlFreqsMap urls))

namespace EnqueueLoop

variable {c : Contribs} {hostDb : HostDb} {urlDb : UrlDb} {now : ℤ}
  {inUrls needRobotsUniq : List UrlFreq}

/-- The decision on a candidate as a page. -/
def pageDecision (c : Contribs) (urlDb : UrlDb) (now : ℤ) (u : UrlFreq) : EUrlCrawlDecision :=
  urlDb.isNeedCrawl (UrlParsed.ofUrl c u.1).normalized now

/-- Robots.txt allows the candidate and the page policy finds it due. -/
def duePage (c : Contribs) (hostDb : HostDb) (urlDb : UrlDb) (now : ℤ) (u : UrlFreq) : Bool :=
  hostDb.passesRobots c u && decide (pageDecision c urlDb now u = .allow)

/-- The candidate needs the text of its host, and the robots policy finds its robots URL due. -/
def dueRobots (c : Contribs) (hostDb : HostDb) (urlDb : UrlDb) (now : ℤ) (u : UrlFreq) : Bool :=
  hostDb.needsRobots c u &&
    decide (urlDb.isNeedCrawlRobots (UrlParsed.ofUrl c u.1).robots now = .allow)

/-- The pages that are put out. -/
def pagesOut (c : Contribs) (hostDb : HostDb) (urlDb : UrlDb) (now : ℤ) (inUrls : List UrlFreq) :
    List UrlFreq :=
  (inUrls.filter (duePage c hostDb urlDb now)).map fun u =>
    ((UrlParsed.ofUrl c u.1).normalized, u.2)

/-- The robots URLs that are put out. -/
def robotsOut (urlDb : UrlDb) (now : ℤ) (needRobotsUniq : List UrlFreq) : List UrlFreq :=
  needRobotsUniq.filter fun u => urlDb.isNeedCrawlRobots u.1 now = .allow

/-- **Where every candidate goes.**  The decisions are those on the candidates that robots.txt
allows; the output is the robots URLs and after them the pages. -/
theorem needCrawlUrls_eq :
    needCrawlUrls c hostDb urlDb inUrls needRobotsUniq now
      = ((inUrls.filter (hostDb.passesRobots c)).map (pageDecision c urlDb now),
        robotsOut urlDb now needRobotsUniq ++ pagesOut c hostDb urlDb now inUrls) := by
  unfold needCrawlUrls UrlDb.leaveNeedUrls UrlDb.leaveNeedRobots HostDb.leaveAllowedByRobots
  dsimp only
  rw [UrlDb.leaveNeed_eq, UrlDb.leaveNeed_eq, HostDb.allowed_leaveAllowedLoop, List.map_map,
    List.filter_map, List.filter_filter]
  refine Prod.ext rfl (congrArg (robotsOut urlDb now needRobotsUniq ++ ·) ?_)
  unfold pagesOut duePage
  refine congrArg (List.map _) (List.filter_congr fun u _ => ?_)
  exact Bool.and_comm _ _

theorem needRobots_leaveAllowedByRobots :
    (hostDb.leaveAllowedByRobots c inUrls).needRobots
      = (inUrls.filter (hostDb.needsRobots c)).map fun u =>
          ((UrlParsed.ofUrl c u.1).robots, u.2) :=
  HostDb.needRobots_leaveAllowedLoop c hostDb _ inUrls

theorem nodup_robotsOut
    (huniq : ReduceUrlFreqs (hostDb.leaveAllowedByRobots c inUrls).needRobots needRobotsUniq) :
    ((robotsOut urlDb now needRobotsUniq).map Prod.fst).Nodup :=
  (nodup_reduceUrlFreqs huniq).sublist (List.filter_sublist.map Prod.fst)

theorem mem_map_fst_robotsOut_iff
    (huniq : ReduceUrlFreqs (hostDb.leaveAllowedByRobots c inUrls).needRobots needRobotsUniq)
    {url : Url} :
    url ∈ (robotsOut urlDb now needRobotsUniq).map Prod.fst ↔
      ∃ u ∈ inUrls, dueRobots c hostDb urlDb now u = true ∧
        (UrlParsed.ofUrl c u.1).robots = url := by
  have hneed : url ∈ (hostDb.leaveAllowedByRobots c inUrls).needRobots.map Prod.fst ↔
      ∃ u ∈ inUrls, hostDb.needsRobots c u = true ∧ (UrlParsed.ofUrl c u.1).robots = url := by
    rw [needRobots_leaveAllowedByRobots]
    simp [and_assoc]
  have hsplit : url ∈ (robotsOut urlDb now needRobotsUniq).map Prod.fst ↔
      url ∈ needRobotsUniq.map Prod.fst ∧ urlDb.isNeedCrawlRobots url now = .allow := by
    have hleave : url ∈ (urlDb.leaveNeedRobots needRobotsUniq now).2.map Prod.fst ↔
        url ∈ needRobotsUniq.map Prod.fst ∧ urlDb.isNeedCrawlRobots url now = .allow :=
      UrlDb.mem_map_fst_leaveNeed
    rwa [UrlDb.leaveNeedRobots, UrlDb.leaveNeed_eq] at hleave
  rw [hsplit, mem_map_fst_reduceUrlFreqs_iff huniq, hneed]
  unfold dueRobots
  constructor
  · rintro ⟨⟨u, hu, hneeds, rfl⟩, hallow⟩
    exact ⟨u, hu, by rw [hneeds, decide_eq_true hallow, Bool.and_true], rfl⟩
  · rintro ⟨u, hu, hdue, rfl⟩
    obtain ⟨hneeds, hallow⟩ := Bool.and_eq_true_iff.mp hdue
    exact ⟨⟨u, hu, hneeds, rfl⟩, of_decide_eq_true hallow⟩

/-- The frequencies of all candidates that need a robots URL are added up. -/
theorem freq_of_mem_robotsOut
    (huniq : ReduceUrlFreqs (hostDb.leaveAllowedByRobots c inUrls).needRobots needRobotsUniq)
    {r : UrlFreq} (hr : r ∈ robotsOut urlDb now needRobotsUniq) :
    r.2 = ((inUrls.filter fun u => hostDb.needsRobots c u &&
      decide ((UrlParsed.ofUrl c u.1).robots = r.1)).map Prod.snd).sum := by
  rw [((mem_reduceUrlFreqs_iff huniq).mp (List.mem_filter.mp hr).1).2,
    needRobots_leaveAllowedByRobots]
  unfold OrdMap.valuesAt
  rw [List.filter_map, List.filter_filter, List.map_map]
  congr 2
  apply List.filter_congr
  intro u _
  exact Bool.and_comm _ _

end EnqueueLoop

namespace FilterRounds

open EnqueueLoop

variable {env : Env} {s : State}

/-- **Every candidate is accounted for.**  For any stores, candidates and time: the output is `R`
and then `P`, where `P` holds the normalized candidates that robots.txt allows and that are due, in
their order, and `R` holds each robots URL that is needed and due once, with the frequencies of all
candidates that need it; the decisions are those on the candidates that robots.txt allows; and the
three steps of the filter leave both stores as they are. -/
theorem accounts_of_filter {pushTarget : ℤ} {reads : List FilterRead}
    (hth : s.th = .searching pushTarget reads) {now : ℤ} (hclock : s.clock ≤ now)
    {inUrls needRobotsUniq : List UrlFreq}
    (huniq : ReduceUrlFreqs (s.hostDb.leaveAllowedByRobots env.contribs inUrls).needRobots
      needRobotsUniq) (max : ℤ) :
    ∃ (R P : List UrlFreq) (t : State),
      needCrawlUrls env.contribs s.hostDb s.urlDb inUrls needRobotsUniq now
        = ((inUrls.filter (s.hostDb.passesRobots env.contribs)).map fun u =>
            s.urlDb.isNeedCrawl (UrlParsed.ofUrl env.contribs u.1).normalized now, R ++ P) ∧
      P = (inUrls.filter fun u => s.hostDb.passesRobots env.contribs u && decide
            (s.urlDb.isNeedCrawl (UrlParsed.ofUrl env.contribs u.1).normalized now = .allow)).map
          (fun u => ((UrlParsed.ofUrl env.contribs u.1).normalized, u.2)) ∧
      (R.map Prod.fst).Nodup ∧
      (∀ url : Url, url ∈ R.map Prod.fst ↔
        (∃ u ∈ inUrls, s.hostDb.needsRobots env.contribs u = true ∧
          (UrlParsed.ofUrl env.contribs u.1).robots = url) ∧
        s.urlDb.isNeedCrawlRobots url now = .allow) ∧
      (∀ r ∈ R, r.2 = ((inUrls.filter fun u => s.hostDb.needsRobots env.contribs u &&
        decide ((UrlParsed.ofUrl env.contribs u.1).robots = r.1)).map Prod.snd).sum) ∧
      Machine.run (step env) s
          [.leaveAllowedByRobots inUrls now, .leaveNeedUrls, .leaveNeedRobots needRobotsUniq max]
        = some t ∧
      t.th = afterFilter env pushTarget (reads ++ [⟨R ++ P, max⟩]) now ∧
      t.hostDb = s.hostDb ∧ t.urlDb = s.urlDb := by
  have hrun := run_filter hth hclock huniq max
  rw [needCrawlUrls_eq] at hrun
  refine ⟨robotsOut s.urlDb now needRobotsUniq, pagesOut env.contribs s.hostDb s.urlDb now inUrls,
    _, needCrawlUrls_eq, rfl, nodup_robotsOut huniq, fun url => ?_,
    fun r hr => freq_of_mem_robotsOut huniq hr, hrun, rfl, rfl, rfl⟩
  rw [mem_map_fst_robotsOut_iff huniq]
  unfold dueRobots
  constructor
  · rintro ⟨u, hu, hdue, rfl⟩
    obtain ⟨hneeds, hallow⟩ := Bool.and_eq_true_iff.mp hdue
    exact ⟨⟨u, hu, hneeds, rfl⟩, of_decide_eq_true hallow⟩
  · rintro ⟨⟨u, hu, hneeds, rfl⟩, hallow⟩
    exact ⟨u, hu, by rw [hneeds, decide_eq_true hallow, Bool.and_true], rfl⟩

/-- A search on stores without texts and attempts. -/
def searchingState : State :=
  { State.init (.openDb ⟨1, 1, 1, 1, 1⟩ ∅) default 0 with th := .searching 1 [] }

/-- Two pages of a host need its robots URL, which is put out once. -/
theorem accounts_of_filter_twoPages :
    ∃ R P : List UrlFreq,
      (needCrawlUrls .plainHttp searchingState.hostDb searchingState.urlDb
        [(Str.ofString "http://a/x", 1), (Str.ofString "http://a/y", 2)]
        [(Str.ofString "http://a/robots.txt", 3)] 0).2 = R ++ P ∧
      (R.map Prod.fst).Nodup ∧ Str.ofString "http://a/robots.txt" ∈ R.map Prod.fst := by
  have huniq : ReduceUrlFreqs (searchingState.hostDb.leaveAllowedByRobots Env.plain.contribs
      [(Str.ofString "http://a/x", 1), (Str.ofString "http://a/y", 2)]).needRobots
      [(Str.ofString "http://a/robots.txt", 3)] := by decide +kernel
  have hth : searchingState.th = .searching 1 [] := rfl
  obtain ⟨R, P, -, hout, -, hnodup, hmem, -⟩ :=
    accounts_of_filter hth (le_refl 0) huniq 1
  refine ⟨R, P, congrArg Prod.snd hout, hnodup, (hmem _).mpr ⟨?_, by decide⟩⟩
  exact ⟨(Str.ofString "http://a/x", 1), by decide, by decide +kernel, by decide⟩

end FilterRounds

end Contentv1
