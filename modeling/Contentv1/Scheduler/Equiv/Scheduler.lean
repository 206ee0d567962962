import Contentv1.Scheduler.Scheduler
import Contentv1.Scheduler.Equiv.FillUrlFreqStats
import Contentv1.Scheduler.Equiv.FilterRounds
import Contentv1.Scheduler.Equiv.LoadLoop
import Contentv1.Scheduler.Equiv.SearchTop
import Contentv1.Ldb.Equiv.HostDbAttempts

/-!
# Where the records of the fetch queue come from

`sourced_step`: every record that the scheduler writes to Kafka has the normalized URL or the robots
URL of a URL that `UrlsDaysDb` had stored at the start or that a visit has named since.

`Effect` lists what a step can do to the components of the scheduler, and `Advanced` what a call of
`onFetched` can.  `textsHeard_step`: the robots texts of `HostDb` are those stored at the start and
those of the results it was told.
-/

namespace Contentv1

namespace FilterRounds

open EnqueueLoop (FilterRead searchTopLoop)

variable {env : Env} {s t : State}

/-! ### The URLs of a search -/

/-- `url` is what the search makes of the URL `u`. -/
def FromUrl (c : Contribs) (u url : Url) : Prop :=
  (UrlParsed.ofUrl c u).ok = true ∧
    ((UrlParsed.ofUrl c u).normalized = url ∨ (UrlParsed.ofUrl c u).robots = url)

/-- The URLs that the thread of the loop holds. -/
def Th.urls : Th → List Url
  | .idle => []
  | .searching _ reads => reads.flatMap fun read => read.pushUrls.map Prod.fst
  | .allowed _ reads _ allowedUrls needRobots =>
    reads.flatMap (fun read => read.pushUrls.map Prod.fst) ++
      (allowedUrls.map Prod.fst ++ needRobots.map Prod.fst)
  | .needed _ reads _ needUrls needRobots =>
    reads.flatMap (fun read => read.pushUrls.map Prod.fst) ++
      (needUrls.map Prod.fst ++ needRobots.map Prod.fst)
  | .found pushUrls _ => pushUrls.map Prod.fst
  | .pushed round => round.urls

theorem fromUrl_of_allowed {hostDb : HostDb} {urls : List UrlFreq} {u : UrlFreq}
    (h : u ∈ (hostDb.leaveAllowedByRobots env.contribs urls).allowed) :
    ∃ v ∈ urls, FromUrl env.contribs v.1 u.1 := by
  unfold HostDb.leaveAllowedByRobots at h
  rw [HostDb.allowed_leaveAllowedLoop] at h
  obtain ⟨v, hv, rfl⟩ := List.mem_map.mp h
  obtain ⟨hv, hpass⟩ := List.mem_filter.mp hv
  have hok := (Bool.and_eq_true_iff.mp hpass).1
  exact ⟨v, hv, hok, Or.inl rfl⟩

theorem fromUrl_of_needRobots {hostDb : HostDb} {urls : List UrlFreq} {u : UrlFreq}
    (h : u ∈ (hostDb.leaveAllowedByRobots env.contribs urls).needRobots) :
    ∃ v ∈ urls, FromUrl env.contribs v.1 u.1 := by
  unfold HostDb.leaveAllowedByRobots at h
  rw [HostDb.needRobots_leaveAllowedLoop] at h
  obtain ⟨v, hv, rfl⟩ := List.mem_map.mp h
  obtain ⟨hv, hneed⟩ := List.mem_filter.mp hv
  exact ⟨v, hv, (HostDb.needsRobots_iff.mp hneed).1, Or.inr rfl⟩

theorem exists_of_searchTopLoop {pushTarget topCur : ℤ} {reads : List FilterRead}
    {found : List UrlFreq} (h : searchTopLoop pushTarget topCur reads = some found) :
    ∃ read ∈ reads, read.pushUrls = found := by
  induction reads generalizing topCur with
  | nil => cases h
  | cons first reads ih =>
    unfold searchTopLoop at h
    dsimp only at h
    split_ifs at h
    · exact ⟨first, List.mem_cons_self, Option.some.inj h⟩
    · exact ⟨first, List.mem_cons_self, Option.some.inj h⟩
    · obtain ⟨read, hread, heq⟩ := ih h
      exact ⟨read, List.mem_cons_of_mem first hread, heq⟩

/-- The search ends with URLs that one of the answers of `_filter` has left. -/
theorem urls_afterFilter (hlimit : ∀ v n, env.limitVector v n ⊆ v) {pushTarget now : ℤ}
    {reads : List FilterRead} :
    (afterFilter env pushTarget reads now).urls
      ⊆ reads.flatMap fun read => read.pushUrls.map Prod.fst := by
  unfold afterFilter
  cases hsearch : searchReads env pushTarget reads with
  | none => exact List.Subset.refl _
  | some pushUrls =>
    intro url hurl
    obtain ⟨u, hu, rfl⟩ := List.mem_map.mp hurl
    obtain ⟨read, hread, hmem⟩ : ∃ read ∈ reads, u ∈ read.pushUrls := by
      cases reads with
      | nil => cases hsearch
      | cons first reads =>
        obtain ⟨found, hfound, hsub⟩ := mem_of_searchTop hlimit hsearch
        split_ifs at hfound
        · obtain rfl := Option.some.inj hfound
          exact ⟨first, List.mem_cons_self, hsub hu⟩
        · obtain ⟨read, hread, rfl⟩ := exists_of_searchTopLoop hfound
          exact ⟨read, List.mem_cons_of_mem first hread, hsub hu⟩
    exact List.mem_flatMap.mpr ⟨read, hread, List.mem_map_of_mem hmem⟩

theorem mem_leaveNeed_subset {isNeed : Url → EUrlCrawlDecision} (inUrls : List UrlFreq) :
    (UrlDb.leaveNeed isNeed inUrls).2.map Prod.fst ⊆ inUrls.map Prod.fst :=
  List.map_subset Prod.fst fun _ hu => (UrlDb.mem_leaveNeed.mp hu).1

/-- The URLs that a step adds come from the top URLs. -/
theorem urls_step (hlimit : ∀ v n, env.limitVector v n ⊆ v) {a : Label}
    (h : step env s a = some t) {url : Url} (hurl : url ∈ t.th.urls) :
    url ∈ s.th.urls ∨ ∃ topUrls now, a = .leaveAllowedByRobots topUrls now ∧
      ∃ u ∈ topUrls, FromUrl env.contribs u.1 url := by
  cases a with
  | calcToEnqueueNow pushTarget =>
    obtain ⟨-, rfl⟩ := step_calcToEnqueueNow.mp h
    dsimp only at hurl
    split_ifs at hurl <;> cases hurl
  | leaveAllowedByRobots topUrls now =>
    obtain ⟨pushTarget, reads, hth, -, rfl⟩ := step_leaveAllowedByRobots.mp h
    rw [hth]
    rcases List.mem_append.mp hurl with hurl | hurl
    · exact Or.inl hurl
    · refine Or.inr ⟨topUrls, now, rfl, ?_⟩
      rcases List.mem_append.mp hurl with hurl | hurl
      · obtain ⟨u, hu, rfl⟩ := List.mem_map.mp hurl
        exact fromUrl_of_allowed hu
      · obtain ⟨u, hu, rfl⟩ := List.mem_map.mp hurl
        exact fromUrl_of_needRobots hu
  | leaveNeedUrls =>
    obtain ⟨pushTarget, reads, now, allowedUrls, needRobots, hth, rfl⟩ := step_leaveNeedUrls.mp h
    rw [hth]
    refine Or.inl ?_
    rcases List.mem_append.mp hurl with hurl | hurl
    · exact List.mem_append_left _ hurl
    · refine List.mem_append_right _ ?_
      rcases List.mem_append.mp hurl with hurl | hurl
      · exact List.mem_append_left _ (mem_leaveNeed_subset allowedUrls hurl)
      · exact List.mem_append_right _ hurl
  | leaveNeedRobots needRobotsUniq max =>
    obtain ⟨pushTarget, reads, now, needUrls, needRobots, hth, huniq, rfl⟩ :=
      step_leaveNeedRobots.mp h
    rw [hth]
    refine Or.inl ?_
    have hmem := urls_afterFilter hlimit hurl
    rw [List.flatMap_append, List.flatMap_singleton, List.map_append] at hmem
    rcases List.mem_append.mp hmem with hurl | hurl
    · exact List.mem_append_left _ hurl
    · refine List.mem_append_right _ ?_
      rcases List.mem_append.mp hurl with hurl | hurl
      · exact List.mem_append_right _
          ((mem_map_fst_reduceUrlFreqs_iff huniq).mp (mem_leaveNeed_subset needRobotsUniq hurl))
      · exact List.mem_append_left _ hurl
  | pushToKafka attemptTp =>
    obtain ⟨pushUrls, now, hth, -, rfl⟩ := step_pushToKafka.mp h
    rw [hth]
    exact Or.inl hurl
  | setEnqueued =>
    obtain ⟨round, -, rfl⟩ := step_setEnqueued.mp h
    cases hurl
  | onFetched results now =>
    obtain ⟨urlDb, -, rfl⟩ := step_onFetched.mp h
    exact Or.inl hurl
  | hostOnFetched results =>
    obtain rfl := Option.some.inj h
    exact Or.inl hurl

/-- The steps of a search. -/
def Label.ofSearch : Label → Bool
  | .pushToKafka _ | .setEnqueued | .onFetched _ _ | .hostOnFetched _ => false
  | _ => true

/-- `HostDb` changes with the results it is told only. -/
theorem hostDb_step {a : Label} (h : step env s a = some t)
    (ha : ∀ results, a ≠ .hostOnFetched results) : t.hostDb = s.hostDb := by
  cases a with
  | calcToEnqueueNow pushTarget =>
    obtain ⟨-, rfl⟩ := step_calcToEnqueueNow.mp h
    rfl
  | leaveAllowedByRobots topUrls now =>
    obtain ⟨_, _, _, _, rfl⟩ := step_leaveAllowedByRobots.mp h
    rfl
  | leaveNeedUrls =>
    obtain ⟨_, _, _, _, _, _, rfl⟩ := step_leaveNeedUrls.mp h
    rfl
  | leaveNeedRobots needRobotsUniq max =>
    obtain ⟨_, _, _, _, _, _, _, rfl⟩ := step_leaveNeedRobots.mp h
    rfl
  | pushToKafka attemptTp =>
    obtain ⟨_, _, _, _, rfl⟩ := step_pushToKafka.mp h
    rfl
  | setEnqueued =>
    obtain ⟨_, _, rfl⟩ := step_setEnqueued.mp h
    rfl
  | onFetched results now =>
    obtain ⟨_, _, rfl⟩ := step_onFetched.mp h
    rfl
  | hostOnFetched results => exact absurd rfl (ha results)

end FilterRounds

namespace Scheduler

variable {env : Env} {ω : Type} {s t : State env ω}

/-! ### What a step can do -/

/-- The URLs that are yet to be written to Kafka. -/
def toPush : EnqueueLoop.EnqueueTh → List Url
  | .pushing rest _ _ => rest
  | _ => []

/-- The loop is before or after the writing of a round. -/
def Rests : EnqueueLoop.EnqueueTh → Prop
  | .pushing _ _ _ | .saved _ _ => False
  | _ => True

/-- What a call of `onFetched` can do next, with `now` for its reading of the clock. -/
inductive Advanced (s : State env ω) (call : Call ω) (now : ℤ) : State env ω → Stage → Prop
  | urlDb (urlDb : UrlDb) (hstage : call.stage = .urlDb)
      (h : s.rounds.urlDb.onFetched env.rounds.misc call.results now = some urlDb) :
      Advanced s call now { s with rounds := { s.rounds with urlDb := urlDb } } .hostDb
  | hostDb (hstage : call.stage = .hostDb) :
      Advanced s call now
        { s with
          rounds :=
            { s.rounds with
              hostDb := s.rounds.hostDb.onFetched env.rounds.contribs call.results }
          heard := s.heard ++ call.results }
        (.crawledDb (CrawledDb.onFetched call.results))
  | saveResult (status : AttemptStatus) (cnt : ℤ) (todo : List (AttemptStatus × ℤ))
      (crawledDb : UrlsDaysDb.State) (hstage : call.stage = .crawledDb ((status, cnt) :: todo))
      (h : UrlsDaysDb.step env.rounds.misc s.crawledDb
        (.save (CrawledDb.saveResult status cnt now)) = some crawledDb) :
      Advanced s call now { s with crawledDb := crawledDb } (.crawledDb todo)
  | saved (hstage : call.stage = .crawledDb []) : Advanced s call now s .incStats
  | incStats (hstage : call.stage = .incStats) :
      Advanced s call now { s with stats := s.stats.incStats call.results } .returned

theorem advanced_of_advance {call : Call ω} {now : ℤ} {r : State env ω × Stage}
    (h : advance s call now = some r) : Advanced s call now r.1 r.2 := by
  unfold advance at h
  cases hstage : call.stage with
  | urlDb =>
    rw [hstage] at h
    obtain ⟨rounds, hrounds, rfl⟩ := Option.map_eq_some_iff.mp h
    obtain ⟨urlDb, hdb, rfl⟩ := FilterRounds.step_onFetched.mp hrounds
    exact .urlDb urlDb hstage hdb
  | hostDb =>
    rw [hstage] at h
    obtain rfl := Option.some.inj h
    exact .hostDb hstage
  | crawledDb todo =>
    rw [hstage] at h
    cases todo with
    | nil =>
      obtain rfl := Option.some.inj h
      exact .saved hstage
    | cons p todo =>
      obtain ⟨crawledDb, hdb, rfl⟩ := Option.map_eq_some_iff.mp h
      exact .saveResult p.1 p.2 todo crawledDb hstage hdb
  | incStats =>
    rw [hstage] at h
    obtain rfl := Option.some.inj h
    exact .incStats hstage
  | returned =>
    rw [hstage] at h
    cases h

theorem step_onFetched {caller : ω} {results : List FetchResult} :
    step s (.onFetched caller results) = some t ↔
      { s with calls := s.calls ++ [⟨caller, results, .urlDb⟩] } = t := by
  rw [step, Option.some_inj]

theorem step_advance {i : ℕ} {now : ℤ} :
    step s (.advance i now) = some t ↔
      ∃ call r, s.calls[i]? = some call ∧ advance s call now = some r ∧
        { r.1 with calls := s.calls.set i { call with stage := r.2 } } = t := by
  rw [step, Option.bind_eq_some_iff]
  simp only [Option.map_eq_some_iff, exists_and_left]

theorem step_finish {i : ℕ} :
    step s (.finish i) = some t ↔
      ∃ call, s.calls[i]? = some call ∧ call.stage = .returned ∧
        { s with calls := s.calls.eraseIdx i } = t := by
  rw [step, Option.bind_eq_some_iff]
  simp only [Option.ite_none_right_eq_some, Option.some_inj]

/-- The steps of the enqueue loop. -/
def Label.ofEnqueueLoop : Label ω → Bool
  | .load _ | .crawled _ | .onFetched _ _ | .advance _ _ | .finish _ => false
  | _ => true

/-- Those in which it writes and saves nothing. -/
def Label.ofSearch : Label ω → Bool
  | .takeTime _ | .push | .saveEnqueued _ | .setEnqueued => false
  | a => a.ofEnqueueLoop

/-- What the enqueue loop can do with the label `a`. -/
inductive Enqueues (s : State env ω) (a : Label ω) (t : State env ω) : Prop
  | turn (enqueueTh : EnqueueLoop.EnqueueTh) (hfrom : Rests s.enqueueTh) (hto : Rests enqueueTh)
      (ha : a.ofSearch = true) (ht : { s with enqueueTh := enqueueTh } = t)
  /-- The search, which gets its URLs from the statistics. -/
  | search (b : FilterRounds.Label) (rounds : FilterRounds.State)
      (h : FilterRounds.step env.rounds s.rounds b = some rounds) (hsearch : b.ofSearch = true)
      (htop : ∀ topUrls now, b = .leaveAllowedByRobots topUrls now →
        ∀ u ∈ topUrls, u.1 ∈ s.load.freqStats.maps.urls)
      (ha : a.ofSearch = true) (ht : { s with rounds := rounds } = t)
  | takeTime (pushUrls : List UrlFreq) (now attemptTp : ℤ) (rounds : FilterRounds.State)
      (hth : s.rounds.th = .found pushUrls now)
      (h : FilterRounds.step env.rounds s.rounds (.pushToKafka attemptTp) = some rounds)
      (ha : a = .takeTime attemptTp)
      (ht : { s with
        rounds := rounds
        enqueueTh := .pushing (EnqueueLoop.toUrlsVec pushUrls) (EnqueueLoop.toUrlsVec pushUrls)
          attemptTp } = t)
  | push (url : Url) (rest pushUrls : List Url) (attemptTp : ℤ)
      (hth : s.enqueueTh = .pushing (url :: rest) pushUrls attemptTp)
      (ha : a = .push)
      (ht : { s with
        enqueueTh := .pushing rest pushUrls attemptTp
        topic := s.topic
          ++ [(⟨url, env.rounds.misc.toInt64 attemptTp⟩ : GFQRecord).dump env.pb] } = t)
  | saveEnqueued (pushUrls : List Url) (attemptTp now : ℤ) (crawledDb : UrlsDaysDb.State)
      (hth : s.enqueueTh = .pushing [] pushUrls attemptTp)
      (h : UrlsDaysDb.step env.rounds.misc s.crawledDb
        (.save (CrawledDb.saveResult .enqueued pushUrls.length now)) = some crawledDb)
      (ha : a = .saveEnqueued now)
      (ht : { s with enqueueTh := .saved pushUrls attemptTp, crawledDb := crawledDb } = t)
  | setEnqueued (pushUrls : List Url) (attemptTp : ℤ) (rounds : FilterRounds.State)
      (hth : s.enqueueTh = .saved pushUrls attemptTp)
      (h : FilterRounds.step env.rounds s.rounds .setEnqueued = some rounds)
      (ha : a = .setEnqueued)
      (ht : { s with rounds := rounds, enqueueTh := .returned } = t)

/-- What a step with the label `a` can do. -/
inductive Effect (s : State env ω) (a : Label ω) (t : State env ω) : Prop
  | load (b : LoadLoop.Label) (load : LoadLoop.State) (hrun : b.ofThreads = true)
      (h : LoadLoop.step env.json env.rounds.misc s.load b = some load)
      (ha : a = .load b) (ht : { s with load := load } = t)
  | crawled (b : UrlsDaysDb.Label) (crawledDb : UrlsDaysDb.State) (hrun : b.ofThreads = true)
      (h : UrlsDaysDb.step env.rounds.misc s.crawledDb b = some crawledDb)
      (ha : a = .crawled b) (ht : { s with crawledDb := crawledDb } = t)
  | enqueue (h : Enqueues s a t) (ha : a.ofEnqueueLoop = true)
  | call (caller : ω) (results : List FetchResult) (ha : a = .onFetched caller results)
      (ht : { s with calls := s.calls ++ [⟨caller, results, .urlDb⟩] } = t)
  | advance (i : ℕ) (now : ℤ) (call : Call ω) (u : State env ω) (stage : Stage)
      (hcall : s.calls[i]? = some call) (h : Advanced s call now u stage) (ha : a = .advance i now)
      (ht : { u with calls := s.calls.set i { call with stage := stage } } = t)
  | finish (i : ℕ) (call : Call ω) (ha : a = .finish i) (hcall : s.calls[i]? = some call)
      (hstage : call.stage = .returned) (ht : { s with calls := s.calls.eraseIdx i } = t)

theorem mem_urls_of_topUrls {maps : LastPerMaps} {limit : ℤ}
    {hourSorted daySorted topUrls : List UrlFreq}
    (h : TopUrls maps limit hourSorted daySorted topUrls) :
    ∀ u ∈ topUrls, u.1 ∈ maps.urls := by
  obtain ⟨hhour, hday, hperm, hsorted⟩ := h
  have htop : maps.GetTopUrls limit (fun _ => false) topUrls :=
    ⟨hourSorted, daySorted, hhour, hday, hperm, hsorted⟩
  exact fun u hu => ((LastPerMaps.topOf_of_getTopUrls htop).mem u hu).1

theorem enqueues_of_step {a : Label ω} (ha : a.ofEnqueueLoop = true) (h : step s a = some t) :
    Enqueues s a t := by
  cases a with
  | startRound enqueuedFirst =>
    rw [step] at h
    cases hth : s.enqueueTh with
    | idle =>
      rw [hth] at h
      obtain ⟨-, ht⟩ := Option.ite_none_right_eq_some.mp h
      exact .turn (.reading (EnqueueLoop.counterReads enqueuedFirst) 0 0) (hth ▸ trivial) trivial
        rfl (Option.some.inj ht)
    | _ =>
      rw [hth] at h
      cases h
  | readCounter =>
    rw [step] at h
    cases hth : s.enqueueTh with
    | reading todo crawledToday inProgress =>
      rw [hth] at h
      cases todo with
      | nil => cases h
      | cons read todo =>
        obtain rfl := Option.some.inj h
        refine .turn _ (hth ▸ trivial) ?_ rfl rfl
        cases read <;> trivial
    | _ =>
      rw [hth] at h
      cases h
  | calcToEnqueueNow hoursTillMidnight =>
    rw [step] at h
    cases hth : s.enqueueTh with
    | reading todo crawledToday inProgress =>
      rw [hth] at h
      cases todo with
      | cons read todo => cases h
      | nil =>
        obtain ⟨rounds, hrounds, rfl⟩ := Option.map_eq_some_iff.mp h
        exact .search _ rounds hrounds rfl (by rintro _ _ ⟨⟩) rfl (by rw [hth])
    | _ =>
      rw [hth] at h
      cases h
  | leaveAllowedByRobots hourSorted daySorted topUrls now =>
    rw [step] at h
    cases hth : s.rounds.th with
    | searching pushTarget reads =>
      rw [hth] at h
      dsimp only at h
      split_ifs at h with htop
      obtain ⟨rounds, hrounds, ht⟩ := Option.map_eq_some_iff.mp h
      refine .search _ rounds hrounds rfl ?_ rfl ht
      rintro topUrls' now' ⟨⟩
      exact mem_urls_of_topUrls htop
    | _ =>
      rw [hth] at h
      cases h
  | leaveNeedUrls =>
    obtain ⟨rounds, hrounds, ht⟩ := Option.map_eq_some_iff.mp h
    exact .search _ rounds hrounds rfl (by rintro _ _ ⟨⟩) rfl ht
  | leaveNeedRobots needRobotsUniq max =>
    obtain ⟨rounds, hrounds, ht⟩ := Option.map_eq_some_iff.mp h
    exact .search _ rounds hrounds rfl (by rintro _ _ ⟨⟩) rfl ht
  | takeTime attemptTp =>
    rw [step] at h
    cases hth : s.rounds.th with
    | found pushUrls now =>
      rw [hth] at h
      obtain ⟨rounds, hrounds, ht⟩ := Option.map_eq_some_iff.mp h
      exact .takeTime pushUrls now attemptTp rounds hth hrounds rfl ht
    | _ =>
      rw [hth] at h
      cases h
  | push =>
    rw [step] at h
    cases hth : s.enqueueTh with
    | pushing rest pushUrls attemptTp =>
      rw [hth] at h
      cases rest with
      | nil => cases h
      | cons url rest =>
        exact .push url rest pushUrls attemptTp hth rfl (Option.some.inj h)
    | _ =>
      rw [hth] at h
      cases h
  | saveEnqueued now =>
    rw [step] at h
    cases hth : s.enqueueTh with
    | pushing rest pushUrls attemptTp =>
      rw [hth] at h
      cases rest with
      | cons url rest => cases h
      | nil =>
        obtain ⟨crawledDb, hdb, ht⟩ := Option.map_eq_some_iff.mp h
        exact .saveEnqueued pushUrls attemptTp now crawledDb hth hdb rfl ht
    | _ =>
      rw [hth] at h
      cases h
  | setEnqueued =>
    rw [step] at h
    cases hth : s.enqueueTh with
    | saved pushUrls attemptTp =>
      rw [hth] at h
      obtain ⟨rounds, hrounds, ht⟩ := Option.map_eq_some_iff.mp h
      exact .setEnqueued pushUrls attemptTp rounds hth hrounds rfl ht
    | _ =>
      rw [hth] at h
      cases h
  | sleep =>
    rw [step] at h
    cases hth : s.enqueueTh <;> rw [hth] at h <;> cases h
    exact .turn .idle (hth ▸ trivial) trivial rfl rfl
  | load a => cases ha
  | crawled a => cases ha
  | onFetched caller results => cases ha
  | advance i now => cases ha
  | finish i => cases ha

theorem effect_of_step {a : Label ω} (h : step s a = some t) : Effect s a t := by
  cases a with
  | load a =>
    obtain ⟨hrun, h⟩ := Option.ite_none_right_eq_some.mp h
    obtain ⟨load, hload, ht⟩ := Option.map_eq_some_iff.mp h
    exact .load a load hrun hload rfl ht
  | crawled a =>
    obtain ⟨hrun, h⟩ := Option.ite_none_right_eq_some.mp h
    obtain ⟨crawledDb, hdb, ht⟩ := Option.map_eq_some_iff.mp h
    exact .crawled a crawledDb hrun hdb rfl ht
  | onFetched caller results => exact .call caller results rfl (step_onFetched.mp h)
  | advance i now =>
    obtain ⟨call, ⟨u, stage⟩, hcall, hr, ht⟩ := step_advance.mp h
    exact .advance i now call u stage hcall (advanced_of_advance hr) rfl ht
  | finish i =>
    obtain ⟨call, hcall, hstage, ht⟩ := step_finish.mp h
    exact .finish i call rfl hcall hstage ht
  | _ => exact .enqueue (enqueues_of_step rfl h) rfl

/-- What the enqueue loop leaves as it is. -/
structure Beside (s t : State env ω) : Prop where
  load : t.load = s.load
  hostDb : t.rounds.hostDb = s.rounds.hostDb
  calls : t.calls = s.calls
  stats : t.stats = s.stats
  heard : t.heard = s.heard

theorem Enqueues.beside {a : Label ω} (h : Enqueues s a t) : Beside s t := by
  cases h with
  | turn enqueueTh hfrom hto ha ht =>
    subst ht
    exact ⟨rfl, rfl, rfl, rfl, rfl⟩
  | search b rounds h hsearch htop ha ht =>
    subst ht
    refine ⟨rfl, FilterRounds.hostDb_step h ?_, rfl, rfl, rfl⟩
    rintro results rfl
    cases hsearch
  | takeTime pushUrls now attemptTp rounds hth h ha ht =>
    subst ht
    exact ⟨rfl, FilterRounds.hostDb_step h (by rintro _ ⟨⟩), rfl, rfl, rfl⟩
  | push url rest pushUrls attemptTp hth ha ht =>
    subst ht
    exact ⟨rfl, rfl, rfl, rfl, rfl⟩
  | saveEnqueued pushUrls attemptTp now crawledDb hth h ha ht =>
    subst ht
    exact ⟨rfl, rfl, rfl, rfl, rfl⟩
  | setEnqueued pushUrls attemptTp rounds hth h ha ht =>
    subst ht
    exact ⟨rfl, FilterRounds.hostDb_step h (by rintro _ ⟨⟩), rfl, rfl, rfl⟩

/-! ### Sources -/

/-- An entry that was stored at the start has the URL. -/
def Stored (start : Start env) (url : Url) : Prop :=
  ∃ (key : Url) (pb : UrlDaysPb), start.visits[key]? = some pb ∧ pb.url = url

/-- The URL was stored at the start, or a visit has named it since. -/
def Named (start : Start env) (s : State env ω) (url : Url) : Prop :=
  Stored start url ∨ ∃ uv ∈ s.load.visits, uv.url = url

/-- The search makes `url` of a URL that is named. -/
def FromNamed (start : Start env) (s : State env ω) (url : Url) : Prop :=
  ∃ u, Named start s u ∧ FilterRounds.FromUrl env.rounds.contribs u url

theorem FromNamed.mono {start : Start env} {url : Url} (hvisits : s.load.visits ⊆ t.load.visits)
    (h : FromNamed start s url) : FromNamed start t url := by
  obtain ⟨u, hu, hurl⟩ := h
  exact ⟨u, hu.imp_right fun ⟨uv, huv, heq⟩ => ⟨uv, hvisits huv, heq⟩, hurl⟩

structure Sourced (start : Start env) (s : State env ω) : Prop where
  fed : LoadLoop.Fed s.load
  seeds : ∀ uts ∈ s.load.seeds, Stored start uts.url
  search : ∀ url ∈ s.rounds.th.urls, FromNamed start s url
  push : ∀ url ∈ toPush s.enqueueTh, FromNamed start s url
  topic : ∀ dump ∈ s.topic, ∃ gfq : GFQRecord, gfq.dump env.pb = dump ∧
    (gfq ∈ start.topic ∨ FromNamed start s gfq.url)

theorem stored_of_mem_filled {start : Start env} {uts : UrlTpStat}
    (h : uts ∈ LoadLoop.filled start.calls start.clock) : Stored start uts.url := by
  unfold LoadLoop.filled at h
  rw [fillUrlFreqStats_eq] at h
  obtain ⟨p, hp, rfl⟩ := List.mem_map.mp h
  obtain ⟨call, hcall, hp⟩ := List.mem_flatMap.mp hp
  obtain ⟨uts, huts, rfl⟩ := List.mem_map.mp hp
  obtain ⟨q, hq, rfl⟩ := List.mem_map.mp (start.calls_perm.subset hcall)
  have hget := Std.ExtTreeMap.mem_toList_iff_getElem?_eq_some.mp hq
  rw [UrlsDaysDb.getElem?_loadSnapshot] at hget
  obtain ⟨pb, hpb, himpl⟩ := Option.map_eq_some_iff.mp hget
  refine ⟨q.1, pb, hpb, ?_⟩
  show pb.url = uts.url
  rw [url_of_mem_toUTSV huts, ← himpl]
  rfl

theorem sourced_init (start : Start env) : Sourced start (State.init ω start) where
  fed := LoadLoop.fed_init _ _ _
  seeds _ h := stored_of_mem_filled h
  search _ h := absurd h List.not_mem_nil
  push _ h := absurd h List.not_mem_nil
  topic dump h := by
    obtain ⟨gfq, hgfq, rfl⟩ := List.mem_map.mp h
    exact ⟨gfq, rfl, Or.inl hgfq⟩

/-- What a step that reads no visit leaves of the sources. -/
theorem Sourced.of_eq {start : Start env} (hs : Sourced start s) (hload : t.load = s.load)
    (hsearch : t.rounds.th.urls ⊆ s.rounds.th.urls)
    (hpush : toPush t.enqueueTh ⊆ toPush s.enqueueTh) (htopic : t.topic = s.topic) :
    Sourced start t := by
  have hmono : ∀ {url}, FromNamed start s url → FromNamed start t url :=
    fun h => h.mono (by rw [hload]; exact List.Subset.refl _)
  refine ⟨hload ▸ hs.fed, hload ▸ hs.seeds, fun url hurl => hmono (hs.search url (hsearch hurl)),
    fun url hurl => hmono (hs.push url (hpush hurl)), fun dump hdump => ?_⟩
  obtain ⟨gfq, heq, hgfq⟩ := hs.topic dump (htopic ▸ hdump)
  exact ⟨gfq, heq, hgfq.imp_right hmono⟩

/-- The loop pushes what it has found among the top URLs. -/
theorem Sourced.enqueues {start : Start env} (hs : Sourced start s)
    (hlimit : ∀ v n, env.rounds.limitVector v n ⊆ v) {a : Label ω} (h : Enqueues s a t) :
    Sourced start t := by
  cases h with
  | turn enqueueTh hfrom hto ha ht =>
    subst ht
    refine hs.of_eq rfl (List.Subset.refl _) ?_ rfl
    cases enqueueTh with
    | pushing rest pushUrls attemptTp => exact hto.elim
    | _ => exact List.nil_subset _
  | search b rounds h hsearch htop ha ht =>
    subst ht
    refine ⟨hs.fed, hs.seeds, fun url hurl => ?_, hs.push, hs.topic⟩
    rcases FilterRounds.urls_step hlimit h hurl with hurl | ⟨topUrls, now, hb, u, hu, hfrom⟩
    · exact hs.search url hurl
    · -- the top URLs are those of the statistics
      refine ⟨u.1, ?_, hfrom⟩
      rcases hs.fed.of_mem_urls (htop topUrls now hb u hu) with ⟨uts, huts, heq⟩ | hvisit
      · exact Or.inl (heq ▸ hs.seeds uts huts)
      · exact Or.inr hvisit
  | takeTime pushUrls now attemptTp rounds hth h ha ht =>
    subst ht
    refine ⟨hs.fed, hs.seeds, fun url hurl => ?_, fun url hurl => ?_, hs.topic⟩
    · rcases FilterRounds.urls_step hlimit h hurl with hurl | ⟨_, _, hb, _⟩
      · exact hs.search url hurl
      · cases hb
    · refine hs.search url ?_
      rw [hth]
      exact hurl
  | push url rest pushUrls attemptTp hth ha ht =>
    subst ht
    have hmem : ∀ url' ∈ url :: rest, FromNamed start s url' := by
      have hpush := hs.push
      rwa [hth] at hpush
    refine ⟨hs.fed, hs.seeds, hs.search,
      fun url' hurl' => hmem url' (List.mem_cons_of_mem url hurl'), fun dump hdump => ?_⟩
    rcases List.mem_append.mp hdump with hdump | hdump
    · exact hs.topic dump hdump
    · rw [List.mem_singleton] at hdump
      exact ⟨_, hdump.symm, Or.inr (hmem url List.mem_cons_self)⟩
  | saveEnqueued pushUrls attemptTp now crawledDb hth h ha ht =>
    subst ht
    exact hs.of_eq rfl (List.Subset.refl _) (List.nil_subset _) rfl
  | setEnqueued pushUrls attemptTp rounds hth h ha ht =>
    subst ht
    refine ⟨hs.fed, hs.seeds, fun url hurl => ?_, fun _ h => absurd h List.not_mem_nil, hs.topic⟩
    rcases FilterRounds.urls_step hlimit h hurl with hurl | ⟨_, _, hb, _⟩
    · exact hs.search url hurl
    · cases hb

/-- **Records come from visits.** -/
theorem sourced_step {start : Start env} (hlimit : ∀ v n, env.rounds.limitVector v n ⊆ v)
    {a : Label ω} (hstep : step s a = some t) (hs : Sourced start s) : Sourced start t := by
  cases effect_of_step hstep with
  | load b load hrun h ha ht =>
    subst ht
    obtain ⟨hvisits, hseeds⟩ := LoadLoop.visits_step h hrun
    have hmono : ∀ {url}, FromNamed start s url → FromNamed start { s with load := load } url :=
      fun h => h.mono hvisits
    refine ⟨LoadLoop.fed_step h hs.fed, hseeds ▸ hs.seeds,
      fun url hurl => hmono (hs.search url hurl), fun url hurl => hmono (hs.push url hurl),
      fun dump hdump => ?_⟩
    obtain ⟨gfq, heq, hgfq⟩ := hs.topic dump hdump
    exact ⟨gfq, heq, hgfq.imp_right hmono⟩
  | crawled b crawledDb hrun h ha ht =>
    subst ht
    exact hs.of_eq rfl (List.Subset.refl _) (List.Subset.refl _) rfl
  | enqueue h ha => exact hs.enqueues hlimit h
  | call caller results ha ht =>
    subst ht
    exact hs.of_eq rfl (List.Subset.refl _) (List.Subset.refl _) rfl
  | advance i now call u stage hcall h ha ht =>
    subst ht
    cases h <;> exact hs.of_eq rfl (List.Subset.refl _) (List.Subset.refl _) rfl
  | finish i call ha hcall hstage ht =>
    subst ht
    exact hs.of_eq rfl (List.Subset.refl _) (List.Subset.refl _) rfl

/-! ### What only grows -/

/-- The topic, the visits and what `HostDb` was told. -/
structure Grows (s t : State env ω) : Prop where
  topic : s.topic ⊆ t.topic
  visits : s.load.visits ⊆ t.load.visits
  heard : s.heard ⊆ t.heard

theorem Grows.of_eq (htopic : t.topic = s.topic) (hload : t.load = s.load)
    (hheard : t.heard = s.heard) : Grows s t := by
  refine ⟨?_, ?_, ?_⟩
  · rw [htopic]
    exact List.Subset.refl _
  · rw [hload]
    exact List.Subset.refl _
  · rw [hheard]
    exact List.Subset.refl _

theorem grows_step {a : Label ω} (hstep : step s a = some t) : Grows s t := by
  cases effect_of_step hstep with
  | load b load hrun h ha ht =>
    subst ht
    exact ⟨List.Subset.refl _, (LoadLoop.visits_step h hrun).1, List.Subset.refl _⟩
  | crawled b crawledDb hrun h ha ht =>
    subst ht
    exact .of_eq rfl rfl rfl
  | enqueue h ha =>
    cases h with
    | push url rest pushUrls attemptTp hth ha ht =>
      subst ht
      exact ⟨List.subset_append_left _ _, List.Subset.refl _, List.Subset.refl _⟩
    | _ =>
      rename_i ht
      subst ht
      exact .of_eq rfl rfl rfl
  | call caller results ha ht =>
    subst ht
    exact .of_eq rfl rfl rfl
  | advance i now call u stage hcall h ha ht =>
    subst ht
    cases h with
    | hostDb hstage =>
      exact ⟨List.Subset.refl _, List.Subset.refl _, List.subset_append_left _ _⟩
    | _ => exact .of_eq rfl rfl rfl
  | finish i call ha hcall hstage ht =>
    subst ht
    exact .of_eq rfl rfl rfl

/-- `HostDb` is told the results of the calls that are going on, and of no others. -/
theorem results_step {Q : FetchResult → Prop} {a : Label ω} (hstep : step s a = some t)
    (hcaller : ∀ caller results, a ≠ .onFetched caller results)
    (hcalls : ∀ call ∈ s.calls, ∀ r ∈ call.results, Q r) (hheard : ∀ r ∈ s.heard, Q r) :
    (∀ call ∈ t.calls, ∀ r ∈ call.results, Q r) ∧ ∀ r ∈ t.heard, Q r := by
  cases effect_of_step hstep with
  | load b load hrun h ha ht =>
    subst ht
    exact ⟨hcalls, hheard⟩
  | crawled b crawledDb hrun h ha ht =>
    subst ht
    exact ⟨hcalls, hheard⟩
  | enqueue h ha =>
    rw [h.beside.calls, h.beside.heard]
    exact ⟨hcalls, hheard⟩
  | call caller results ha ht => exact absurd ha (hcaller caller results)
  | advance i now call u stage hcall h ha ht =>
    subst ht
    have hresults : ∀ r ∈ call.results, Q r := hcalls call (List.mem_of_getElem? hcall)
    constructor
    · intro call' hcall'
      rcases List.mem_or_eq_of_mem_set hcall' with hcall' | rfl
      · exact hcalls call' hcall'
      · exact hresults
    · cases h with
      | hostDb hstage =>
        intro r hr
        rcases List.mem_append.mp hr with hr | hr
        · exact hheard r hr
        · exact hresults r hr
      | _ => exact hheard
  | finish i call ha hcall hstage ht =>
    subst ht
    exact ⟨fun call hcall => hcalls call (List.eraseIdx_subset hcall), hheard⟩

/-! ### Robots texts -/

/-- A text of the host that was stored at the start or that `HostDb` has taken since. -/
def TextOf (start : Start env) (s : State env ω) (host : Host) (text : Str) : Prop :=
  start.robots[host]? = some text ∨
    ∃ r ∈ s.heard, HostDb.takes env.rounds.contribs host r = true ∧ r.content = text

theorem TextOf.mono {start : Start env} {host : Host} {text : Str} (hgrows : Grows s t)
    (h : TextOf start s host text) : TextOf start t host text :=
  h.imp_right fun ⟨r, hr, htext⟩ => ⟨r, hgrows.heard hr, htext⟩

/-- `HostDb` has only such texts. -/
def TextsHeard (start : Start env) (s : State env ω) : Prop :=
  ∀ (host : Host) (robots : Robots), s.rounds.hostDb.hostRobots[host]? = some robots →
    TextOf start s host robots.robotsStr

theorem textsHeard_init (start : Start env) : TextsHeard start (State.init ω start) := by
  intro host robots h
  replace h : (HostDb.openDb start.limits start.robots).hostRobots[host]? = some robots := h
  rw [HostDb.hostRobots_openDb] at h
  obtain ⟨text, htext, rfl⟩ := Option.map_eq_some_iff.mp h
  exact Or.inl htext

theorem textsHeard_step {start : Start env} {a : Label ω} (hstep : step s a = some t)
    (hs : TextsHeard start s) : TextsHeard start t := by
  have hgrows := grows_step hstep
  -- most steps leave the texts as they are
  have hkeep : t.rounds.hostDb.hostRobots = s.rounds.hostDb.hostRobots → TextsHeard start t := by
    intro heq host robots hrobots
    rw [heq] at hrobots
    exact (hs host robots hrobots).mono hgrows
  cases effect_of_step hstep with
  | load b load hrun h ha ht =>
    subst ht
    exact hkeep rfl
  | crawled b crawledDb hrun h ha ht =>
    subst ht
    exact hkeep rfl
  | enqueue h ha => exact hkeep (congrArg HostDb.hostRobots h.beside.hostDb)
  | call caller results ha ht =>
    subst ht
    exact hkeep rfl
  | advance i now call u stage hcall h ha ht =>
    subst ht
    cases h with
    | hostDb hstage =>
      intro host robots hrobots
      replace hrobots : (s.rounds.hostDb.onFetched env.rounds.contribs
        call.results).hostRobots[host]? = some robots := hrobots
      rw [(HostDb.texts_onFetched _ _ call.results host).1, Option.or_eq_some_iff] at hrobots
      rcases hrobots with hnew | ⟨-, hold⟩
      · obtain ⟨r, hr, rfl⟩ := Option.map_eq_some_iff.mp hnew
        obtain ⟨hmem, htakes⟩ := List.mem_filter.mp (List.mem_of_getLast? hr)
        exact Or.inr ⟨r, List.mem_append_right _ hmem, htakes, rfl⟩
      · exact (hs host robots hold).mono hgrows
    | _ => exact hkeep rfl
  | finish i call ha hcall hstage ht =>
    subst ht
    exact hkeep rfl

end Scheduler

end Contentv1
